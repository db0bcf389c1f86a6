import Melis.Dma.Core
import Melis.Lib.C

/-!
# The chains of the channels

An invariant of the channels that every call keeps, unless a chain is replaced or
freed: then its descriptors are lost, or the channel leads to freed memory
(`Unchained`).
-/

namespace Melis.Dma

open Lib Function

variable {s s' t u : Dmac} {chains : ChanId → List Addr} {i j : ChanId} {a : Addr} {as : List Addr}

/-- What holds of the channels: `periods_pos` stays `0`, since `buf_len` is never set. -/
structure Inv (s : Dmac) (chains : ChanId → List Addr) : Prop extends Owns s chains where
  nodup : ∀ i, (chains i).Nodup
  cyclic : ∀ i, (s.chan i).cyclic = true → (s.chan i).desc ≠ none
  pos : ∀ i, (s.chan i).periods_pos = 0
  len : ∀ i, (s.chan i).buf_len = 0

theorem inv_init : Inv init fun _ => [] where
  chain _ := rfl
  live _ _ h := absurd h List.not_mem_nil
  owner _ h := absurd h Bool.false_ne_true
  nodup _ := List.nodup_nil
  cyclic _ h := absurd h Bool.false_ne_true
  pos _ := rfl
  len _ := rfl

theorem next_congr (h : s'.lli = s.lli) : next s' = next s := by
  unfold next
  rw [h]

/-- A call that touches a channel, but not its chain. -/
theorem Inv.touch (h : Inv s chains) {c : Chan} (hlli : s'.lli = s.lli)
    (hchan : s'.chan = update s.chan i c) (hdesc : c.desc = (s.chan i).desc)
    (hcyclic : c.cyclic = true → (s.chan i).cyclic = true) (hpos : c.periods_pos = 0)
    (hlen : c.buf_len = (s.chan i).buf_len) : Inv s' chains := by
  have hsame : ∀ j, (s'.chan j).desc = (s.chan j).desc ∧
      ((s'.chan j).cyclic = true → (s.chan j).cyclic = true) ∧
      (s'.chan j).periods_pos = 0 ∧ (s'.chan j).buf_len = (s.chan j).buf_len := fun j => by
    rw [hchan]
    by_cases hj : j = i
    · subst hj
      rw [update_self]
      exact ⟨hdesc, hcyclic, hpos, hlen⟩
    · rw [update_of_ne hj]
      exact ⟨rfl, id, h.pos j, rfl⟩
  refine ⟨⟨fun j => ?_, ?_, ?_⟩, h.nodup, fun j hc => ?_, fun j => (hsame j).2.2.1,
    fun j => (hsame j).2.2.2.trans (h.len j)⟩
  · rw [next_congr hlli, (hsame j).1]
    exact h.chain j
  · rw [hlli]
    exact h.live
  · rw [hlli]
    exact h.owner
  · rw [(hsame j).1]
    exact h.cyclic j ((hsame j).2.1 hc)

/-! ## Building a chain -/

/-- A chain `as` of new descriptors is built for the channel `i`, in place of what it had. -/
structure Built (s : Dmac) (i : ChanId) (as : List Addr) (t : Dmac) : Prop where
  nodup : as.Nodup
  fresh : ∀ a ∈ as, s.lli a = none
  live : ∀ a ∈ as, (t.lli a).isSome
  off : ∀ a, a ∉ as → t.lli a = s.lli a
  chain : as ≠ [] → Chain (next t) (t.chan i).desc as
  desc : as = [] → (t.chan i).desc = (s.chan i).desc
  same : (t.chan i).periods_pos = (s.chan i).periods_pos ∧ (t.chan i).buf_len = (s.chan i).buf_len
  other : ∀ j, j ≠ i → t.chan j = s.chan j

theorem Built.refl (s : Dmac) (i : ChanId) : Built s i [] s where
  nodup := List.nodup_nil
  fresh _ h := absurd h List.not_mem_nil
  live _ h := absurd h List.not_mem_nil
  off _ _ := rfl
  chain h := absurd rfl h
  desc _ := rfl
  same := ⟨rfl, rfl⟩
  other _ _ := rfl

theorem Built.congr (h : Built s i as t) (hnext : next u = next t)
    (hlive : ∀ a, (u.lli a).isSome = (t.lli a).isSome) (hoff : ∀ a, a ∉ as → u.lli a = t.lli a)
    (hchan : ∀ j, j ≠ i → u.chan j = t.chan j) (hdesc : (u.chan i).desc = (t.chan i).desc)
    (hpos : (u.chan i).periods_pos = (t.chan i).periods_pos)
    (hlen : (u.chan i).buf_len = (t.chan i).buf_len) : Built s i as u where
  nodup := h.nodup
  fresh := h.fresh
  live a ha := (hlive a).trans (h.live a ha)
  off a ha := (hoff a ha).trans (h.off a ha)
  chain hne := by
    rw [hnext, hdesc]
    exact h.chain hne
  desc hnil := hdesc.trans (h.desc hnil)
  same := ⟨hpos.trans h.same.1, hlen.trans h.same.2⟩
  other j hj := (hchan j hj).trans (h.other j hj)

theorem next_setLli (s : Dmac) (a : Addr) (f : Lli → Lli) :
    next (setLli s a f) = update (next s) a ((s.lli a).bind fun d => (f d).vlln) := by
  funext b
  unfold next setLli
  by_cases h : b = a
  · subst h
    dsimp only
    rw [update_self, update_self]
    cases s.lli b <;> rfl
  · dsimp only
    rw [update_of_ne h, update_of_ne h]

theorem isSome_setLli (s : Dmac) (a b : Addr) (f : Lli → Lli) :
    ((setLli s a f).lli b).isSome = (s.lli b).isSome := by
  unfold setLli
  by_cases h : b = a
  · subst h
    dsimp only
    rw [update_self, Option.isSome_map]
  · dsimp only
    rw [update_of_ne h]

theorem setLli_of_ne (s : Dmac) {b : Addr} (h : b ≠ a) (f : Lli → Lli) :
    (setLli s a f).lli b = s.lli b := update_of_ne h _ _

variable (va_to_pa : Addr → UInt32)

/-- One more descriptor, which is in memory in the state `u`. -/
theorem Built.push (h : Built s i as t) (lli : Lli) (hfresh : s.lli a = none) (ha : a ∉ as)
    (hlli : u.lli = update t.lli a (some lli)) (hchan : u.chan = t.chan) :
    Built s i (as ++ [a]) (sunxi_lli_list va_to_pa as.getLast? a i u) := by
  have hnodup : (as ++ [a]).Nodup := by
    rw [List.nodup_append_comm]
    exact List.nodup_cons.2 ⟨ha, h.nodup⟩
  have hfresh' : ∀ b ∈ as ++ [a], s.lli b = none := by
    intro b hb
    rcases List.mem_append.1 hb with hb | hb
    · exact h.fresh b hb
    · rw [List.mem_singleton.1 hb]
      exact hfresh
  have hself : (u.lli a).isSome := by
    rw [hlli, update_self]
    rfl
  have hlive : ∀ b ∈ as ++ [a], (u.lli b).isSome := by
    intro b hb
    rcases List.mem_append.1 hb with hb | hb
    · rw [hlli, update_of_ne (ne_of_mem_of_not_mem hb ha)]
      exact h.live b hb
    · rwa [List.mem_singleton.1 hb]
  have hoff : ∀ b, b ∉ as ++ [a] → u.lli b = s.lli b := by
    intro b hb
    rw [List.mem_append, not_or, List.mem_singleton] at hb
    rw [hlli, update_of_ne hb.2, h.off b hb.1]
  have hnext : ∀ b, b ≠ a → next u b = next t b := by
    intro b hb
    unfold next
    rw [hlli, update_of_ne hb]
  have hend : ∀ v : Dmac, (v.lli a).isSome →
      next (setLli v a fun lli => { lli with p_lln := LINK_END, vlln := none }) =
        update (next v) a none := by
    intro v hv
    rw [next_setLli]
    obtain ⟨d, hd⟩ := Option.isSome_iff_exists.1 hv
    rw [hd]
    rfl
  rcases List.eq_nil_or_concat as with rfl | ⟨l, p, rfl⟩
  · refine ⟨hnodup, hfresh', fun b hb => ?_, fun b hb => ?_, fun _ => ?_, fun hno => absurd hno
      (List.cons_ne_nil _ _), ?_, fun j hj => ?_⟩
    · rw [List.getLast?_nil, sunxi_lli_list, isSome_setLli]
      exact hlive b hb
    · have hba : b ≠ a := by
        rintro rfl
        exact hb List.mem_cons_self
      rw [List.getLast?_nil, sunxi_lli_list, setLli_of_ne _ hba]
      exact hoff b hb
    · rw [List.getLast?_nil, sunxi_lli_list, hend (setChan u i _) hself]
      refine ⟨?_, update_self ..⟩
      show (update u.chan i _ i).desc = _
      rw [update_self]
    · show ((update u.chan i _) i).periods_pos = _ ∧ ((update u.chan i _) i).buf_len = _
      rw [update_self, hchan]
      exact h.same
    · show update u.chan i _ j = _
      rw [update_of_ne hj, hchan, h.other j hj]
  · rw [List.concat_eq_append] at *
    have hp : p ∈ l ++ [p] := List.mem_append_right _ (List.mem_singleton_self p)
    have hpa : p ≠ a := ne_of_mem_of_not_mem hp ha
    have hlast : (l ++ [p]).getLast? = some p := List.getLast?_concat
    rw [hlast, sunxi_lli_list]
    obtain ⟨d, hd⟩ := Option.isSome_iff_exists.1 (hlive p (List.mem_append_left _ hp))
    refine ⟨hnodup, hfresh', fun b hb => ?_, fun b hb => ?_, fun _ => ?_, fun hno => ?_, ?_,
      fun j hj => ?_⟩
    · rw [isSome_setLli, isSome_setLli]
      exact hlive b hb
    · have hbp : b ≠ p := by
        rintro rfl
        exact hb (List.mem_append_left _ hp)
      have hba : b ≠ a := by
        rintro rfl
        exact hb (List.mem_append_right _ (List.mem_singleton_self _))
      rw [setLli_of_ne _ hba, setLli_of_ne _ hbp]
      exact hoff b hb
    · rw [hend _ (by rw [isSome_setLli]; exact hself), next_setLli, hd]
      have hold := (h.chain (List.append_ne_nil_of_right_ne_nil _ (List.cons_ne_nil _ _)))
      have hchain : Chain (update (next u) a none) (t.chan i).desc (l ++ [p]) :=
        (hold.congr fun b hb => hnext b (ne_of_mem_of_not_mem hb ha)).update_of_notMem ha
      have hsnoc := chain_snoc hchain (update_self ..) ha h.nodup
      rw [update_comm hpa.symm] at hsnoc
      show Chain _ (u.chan i).desc _
      rw [hchan]
      exact hsnoc
    · exact absurd (List.append_eq_nil_iff.1 hno).2 (List.cons_ne_nil _ _)
    · show (u.chan i).periods_pos = _ ∧ (u.chan i).buf_len = _
      rw [hchan]
      exact h.same
    · show u.chan j = _
      rw [hchan, h.other j hj]

/-- The chains after one is built. -/
def newChains (chains : ChanId → List Addr) (i : ChanId) (as : List Addr) : ChanId → List Addr :=
  update chains i (as ++ chains i)

theorem Owns.eq_nil (h : Owns s chains) (hdesc : (s.chan i).desc = none) : chains i = [] := by
  have hhead := (h.chain i).head_eq
  rw [hdesc] at hhead
  exact List.head?_eq_none_iff.1 hhead.symm

theorem Owns.notMem (h : Owns s chains) (hb : Built s i as t) (ha : a ∈ chains j) : a ∉ as := by
  intro hmem
  have hlive := h.live j a ha
  rw [hb.fresh a hmem] at hlive
  exact Bool.false_ne_true hlive

/-- The chains of the other channels. -/
theorem Built.chain_other (hb : Built s i as t) (h : Owns s chains) (hj : j ≠ i) :
    Chain (next t) (t.chan j).desc (chains j) := by
  rw [hb.other j hj]
  refine (h.chain j).congr fun a ha => ?_
  unfold next
  rw [hb.off a (h.notMem hb ha)]

theorem Built.inv (hb : Built s i as t) (h : Inv s chains)
    (hdesc : as ≠ [] → (s.chan i).desc = none)
    (hcyclic : (t.chan i).cyclic = true → (t.chan i).desc ≠ none) :
    Inv t (newChains chains i as) := by
  have hcases : as = [] ∨ chains i = [] := by
    by_cases has : as = []
    · exact .inl has
    · exact .inr (h.eq_nil (hdesc has))
  have hself : newChains chains i as i = as ++ chains i := update_self ..
  have hother : ∀ j, j ≠ i → newChains chains i as j = chains j := fun j hj => update_of_ne hj _ _
  have hmem : ∀ j a, a ∈ newChains chains i as j ↔ a ∈ chains j ∨ j = i ∧ a ∈ as := by
    intro j a
    by_cases hj : j = i
    · subst hj
      rw [hself, List.mem_append]
      exact ⟨fun h => h.symm.imp_right fun ha => ⟨rfl, ha⟩, fun h => (h.imp_right And.right).symm⟩
    · rw [hother j hj]
      exact ⟨.inl, fun h => h.resolve_right fun hno => hj hno.1⟩
  refine ⟨⟨fun j => ?_, fun j a ha => ?_, fun a ha => ?_⟩, fun j => ?_, fun j hc => ?_,
    fun j => ?_, fun j => ?_⟩
  · by_cases hj : j = i
    · subst hj
      rw [hself]
      rcases hcases with rfl | hnil
      · rw [hb.desc rfl, List.nil_append]
        refine (h.chain j).congr fun a ha => ?_
        unfold next
        rw [hb.off a List.not_mem_nil]
      · rw [hnil, List.append_nil]
        by_cases has : as = []
        · subst has
          have hchain := h.chain j
          rw [hnil] at hchain
          exact (hb.desc rfl).trans hchain
        · exact hb.chain has
    · rw [hother j hj]
      exact hb.chain_other h.toOwns hj
  · rcases (hmem j a).1 ha with hold | ⟨-, hnew⟩
    · rw [hb.off a (h.notMem hb hold)]
      exact h.live j a hold
    · exact hb.live a hnew
  · by_cases has : a ∈ as
    · refine ⟨i, (hmem i a).2 (.inr ⟨rfl, has⟩), fun j hj => ?_⟩
      rcases (hmem j a).1 hj with hold | hnew
      · exact absurd has (h.notMem hb hold)
      · exact hnew.1
    · rw [hb.off a has] at ha
      obtain ⟨j, hj, huniq⟩ := h.owner a ha
      refine ⟨j, (hmem j a).2 (.inl hj), fun k hk => huniq k ?_⟩
      exact ((hmem k a).1 hk).resolve_right fun hno => has hno.2
  · by_cases hj : j = i
    · subst hj
      rw [hself]
      refine List.nodup_append.2 ⟨hb.nodup, h.nodup j, fun a ha b hb' => ?_⟩
      rintro rfl
      exact h.notMem hb hb' ha
    · rw [hother j hj]
      exact h.nodup j
  · by_cases hj : j = i
    · subst hj
      exact hcyclic hc
    · rw [hb.other j hj] at hc ⊢
      exact h.cyclic j hc
  · by_cases hj : j = i
    · subst hj
      exact hb.same.1.trans (h.pos j)
    · rw [hb.other j hj]
      exact h.pos j
  · by_cases hj : j = i
    · subst hj
      exact hb.same.2.trans (h.len j)
    · rw [hb.other j hj]
      exact h.len j

/-- The descriptors of a chain that is replaced are lost. -/
theorem Built.not_sound (hb : Built s i as t) (h : Owns s chains) (has : as ≠ [])
    (hdesc : (s.chan i).desc ≠ none) : ¬ Sound t := by
  rintro ⟨new, hnew⟩
  obtain ⟨d, hd⟩ := Option.ne_none_iff_exists'.1 hdesc
  have hmem : d ∈ chains i := by
    have hhead := (h.chain i).head_eq
    rw [hd] at hhead
    exact List.mem_of_head? hhead.symm
  have hlive : (t.lli d).isSome := by
    rw [hb.off d (h.notMem hb hmem)]
    exact h.live i d hmem
  obtain ⟨j, hj, -⟩ := hnew.owner d hlive
  by_cases hji : j = i
  · subst hji
    rw [(hnew.chain j).unique (hb.chain has)] at hj
    exact h.notMem hb hmem hj
  · rw [(hnew.chain j).unique (hb.chain_other h hji)] at hj
    obtain ⟨k, -, huniq⟩ := h.owner d (h.live i d hmem)
    exact hji ((huniq j hj).trans (huniq i hmem).symm)

/-! ## The passes of the cyclic builder -/

section Cyclic

variable (buf_addr period_len : UInt32) (dir : Direction) {l_item : Nat → Option Addr}

/-- What the passes from `k` on build. -/
theorem cyclicLoop_built (rest k : Nat)
    (hlegal : ∀ m < k + rest, ∀ a ∈ l_item m, s.lli a = none ∧ ∀ j < m, l_item j ≠ some a)
    (hb : Built s i as t) (has : ∀ a ∈ as, ∃ j < k, l_item j = some a) :
    ∃ ok as' t', cyclicLoop va_to_pa i buf_addr period_len dir l_item rest k as.getLast? t =
        (ok, as'.getLast?, t') ∧ Built s i as' t' ∧
      (as' = [] ↔ as = [] ∧ (rest = 0 ∨ l_item k = none)) ∧ t'.masked = t.masked ∧
      (t'.chan i).cyclic = (t.chan i).cyclic ∧ (ok = true → rest = 0 ∨ l_item k ≠ none) := by
  induction rest generalizing k as t with
  | zero =>
    exact ⟨true, as, t, rfl, hb, ⟨fun h => ⟨h, .inl rfl⟩, And.left⟩, rfl, rfl, fun _ => .inl rfl⟩
  | succ rest ih =>
    cases hk : l_item k with
    | none =>
      refine ⟨false, as, t, ?_, hb, ⟨fun h => ⟨h, .inr rfl⟩, And.left⟩, rfl, rfl, fun hno => ?_⟩
      · rw [cyclicLoop, hk]
      · exact absurd hno Bool.false_ne_true
    | some a =>
      obtain ⟨hfresh, hnew⟩ := hlegal k (by omega) a hk
      have ha : a ∉ as := by
        intro hmem
        obtain ⟨j, hj, hja⟩ := has a hmem
        exact hnew j hj hja
      have hpush := hb.push va_to_pa
        (cyclicLli va_to_pa (t.chan i).cfg (buf_addr + period_len * UInt32.ofNat k) period_len dir)
        (u := putLli a _ (malloc a t)) hfresh ha (update_idem _ _ _) rfl
      obtain ⟨ok, as', t', heq, hb', hnil, hmask, hcyc, -⟩ := ih (k + 1)
        (fun m hm => hlegal m (by omega)) hpush fun b hb => by
        rcases List.mem_append.1 hb with hb | hb
        · obtain ⟨j, hj, hjb⟩ := has b hb
          exact ⟨j, Nat.lt_succ_of_lt hj, hjb⟩
        · rw [List.mem_singleton.1 hb]
          exact ⟨k, Nat.lt_succ_self k, hk⟩
      refine ⟨ok, as', t', ?_, hb', ?_, hmask.trans ?_, hcyc.trans ?_, fun _ => .inr nofun⟩
      · rw [cyclicLoop, hk, ← heq, List.getLast?_concat]
        rfl
      · have hne : as ++ [a] ≠ [] := List.append_ne_nil_of_right_ne_nil _ (List.cons_ne_nil _ _)
        exact iff_of_false (fun h => hne (hnil.1 h).1) fun h => by simp at h
      · cases as.getLast? <;> rfl
      · cases as.getLast? with
        | none =>
          show ((update t.chan i _) i).cyclic = _
          rw [update_self]
          rfl
        | some p => rfl

end Cyclic

end Melis.Dma
