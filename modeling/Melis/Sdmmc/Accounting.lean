import Melis.Sdmmc.Books

/-!
# Accounting over whole runs

What a step of thread `t` keeps (`Keeps`): the entries stay accounted for, and
the entries other threads hold are not touched. Each routine has one such lemma;
`next_accounted` puts them together for a step of the machine and
`accounted_run` for a run.
-/

namespace Melis.Sdmmc

open Lib Function

variable {α : Type} {c c' c'' : Cache α} {e x : Ent} {es ents hand held held' : List Ent}
  {t u : Tid} {H H' : Tid → List Ent} {k : Key} {io : Io} {fate : Fate}

/-- Thread `t` went from `c` to `c'`, holds `held` now and has `hand` in its hand. -/
structure Keeps (t : Tid) (H : Tid → List Ent) (held hand : List Ent) (c c' : Cache α) :
    Prop where
  acc : Accounted c' (update H t held) hand
  frame : ∀ u, u ≠ t → ∀ x ∈ H u, SameAt c c' x

namespace Keeps

theorem refl (h : Accounted c H hand) : Keeps t H (H t) hand c c :=
  ⟨by rw [update_eq_self]; exact h, fun _ _ x _ => .refl c x⟩

theorem trans {hand' : List Ent} (h : Keeps t H held hand c c')
    (h' : Keeps t (update H t held) held' hand' c' c'') : Keeps t H held' hand' c c'' := by
  refine ⟨?_, fun u hu x hx => (h.frame u hu x hx).trans (h'.frame u hu x ?_)⟩
  · have ha := h'.acc
    rw [update_idem] at ha
    exact ha
  · rw [update_of_ne hu]
    exact hx

/-- A step that keeps every entry at its place. -/
theorem of_same (h : Keeps t H held hand c c') (ha : Accounted c'' (update H t held) hand)
    (hs : ∀ x, SameAt c' c'' x) : Keeps t H held hand c c'' :=
  ⟨ha, fun u hu x hx => (h.frame u hu x hx).trans (hs x)⟩

theorem unlock (h : Keeps t H held hand c c') (u : Tid) : Keeps t H held hand c (c'.unlock u) :=
  h.of_same (h.acc.unlock u) (SameAt.unlock c' u)

/-- What only touches entries no other thread holds. -/
theorem of_touch (ha : Accounted c' (update H t held) hand) (hs : ∀ x, x ∉ es → SameAt c c' x)
    (ho : ∀ x ∈ es, ∀ u, x ∈ H u → u = t) : Keeps t H held hand c c' :=
  ⟨ha, fun u hu x hx => hs x fun hm => hu (ho x hm u hx)⟩

theorem perm (h : Keeps t H held hand c c') (hp : held'.Perm held) :
    Keeps t H held' hand c c' := by
  refine ⟨h.acc.of_held_perm fun u => ?_, h.frame⟩
  by_cases hut : u = t
  · subst hut
    rw [update_self, update_self]
    exact hp
  · rw [update_of_ne hut, update_of_ne hut]

end Keeps

/-! ## The flush of a list -/

theorem FlushList.step_cases {f : FlushList} {r : Res FlushList Bool}
    (h : f.step c io = (c', r)) :
    (∃ disk, c' = { c with disk := disk } ∧
      (r = .ret false ∨ r = .fault ∨ ∃ f', r = .wait f' ∧ f'.ents = f.ents)) ∨
    ∃ ents err, f = .clear ents err ∧ r = .ret (!err) ∧
      c' = c.modify ents fun x => if x.ref = 0 then { x with dirty := false } else x := by
  have hrun : ∀ {iov : List Ent} {next : Bool → FlushList} {es : List Ent},
      (∀ b, (next b).ents = es) → c.flushRun io iov next = (c', r) →
      ∃ disk, c' = { c with disk := disk } ∧
        (r = .ret false ∨ r = .fault ∨ ∃ f', r = .wait f' ∧ f'.ents = es) := by
    intro iov next es hnext hr
    unfold Cache.flushRun at hr
    split at hr
    · cases hr
      cases iov with
      | nil => exact ⟨c.disk, rfl, .inr (.inr ⟨_, rfl, hnext _⟩)⟩
      | cons first iov => exact ⟨_, rfl, .inr (.inr ⟨_, rfl, hnext _⟩)⟩
    · cases hr
      exact ⟨c.disk, rfl, .inl rfl⟩
  cases f with
  | clear ents err =>
    cases h
    exact .inr ⟨ents, err, rfl, rfl, rfl⟩
  | walk ents last iov rest err =>
    left
    have hlast : (if iov = [] then (c, Res.wait (clear ents err))
        else c.flushRun io iov fun err => clear ents err) = (c', r) →
        ∃ disk, c' = { c with disk := disk } ∧
          (r = .ret false ∨ r = .fault ∨ ∃ f', r = .wait f' ∧ f'.ents = ents) := by
      intro h
      split at h
      · cases h
        exact ⟨c.disk, rfl, .inr (.inr ⟨_, rfl, rfl⟩)⟩
      · exact hrun (fun _ => rfl) h
    cases rest with
    | nil => exact hlast (by cases err <;> exact h)
    | cons e rest =>
      cases err with
      | true => exact hlast h
      | false =>
        rw [FlushList.step] at h
        split at h
        · cases h
          exact ⟨c.disk, rfl, .inl rfl⟩
        · split at h
          · cases h
            exact ⟨c.disk, rfl, .inr (.inr ⟨_, rfl, rfl⟩)⟩
          · split at h
            · cases h
              exact ⟨c.disk, rfl, .inr (.inl rfl)⟩
            · split at h
              · cases h
                exact ⟨c.disk, rfl, .inl rfl⟩
              · split at h
                · cases h
                  exact ⟨c.disk, rfl, .inr (.inr ⟨_, rfl, rfl⟩)⟩
                · split at h
                  · cases h
                    exact ⟨c.disk, rfl, .inr (.inr ⟨_, rfl, rfl⟩)⟩
                  · have hents : ∀ b, ((fun err => walk ents (some e) [e] rest err) b).ents =
                        ents := fun _ => rfl
                    exact hrun hents h

theorem FlushList.step_keeps {f : FlushList} {r : Res FlushList Bool} (h : Accounted c H [])
    (ho : ∀ e ∈ f.ents, ∀ u, e ∈ H u → u = t) (hs : f.step c io = (c', r)) :
    Keeps t H (H t) [] c c' ∧ (∀ e, (c'.ent e).ref = (c.ent e).ref) ∧
      (∀ e, e ∈ c'.listReady ↔ e ∈ c.listReady) ∧ (∀ f', r = .wait f' → f'.ents = f.ents) ∧
      (r = .ret true → ∀ e ∈ f.ents, (c.ent e).ref = 0 → (c'.ent e).dirty = false) := by
  rcases FlushList.step_cases hs with ⟨disk, rfl, hr⟩ | ⟨ents, err, rfl, rfl, rfl⟩
  · refine ⟨(Keeps.refl h).of_same ?_ fun x => .of_eq x rfl rfl rfl rfl, fun _ => rfl,
      fun _ => Iff.rfl, ?_, ?_⟩
    · rw [update_eq_self]
      exact h.of_eq rfl rfl rfl rfl rfl rfl rfl
    · rintro f' rfl
      rcases hr with hr | hr | ⟨f'', hr, hf⟩
      · cases hr
      · cases hr
      · cases hr
        exact hf
    · rintro rfl
      rcases hr with hr | hr | ⟨f'', hr, hf⟩ <;> cases hr
  · have hsame : ∀ x : Entry α,
        ((if x.ref = 0 then { x with dirty := false } else x : Entry α)).key = x.key ∧
        ((if x.ref = 0 then { x with dirty := false } else x : Entry α)).ref = x.ref ∧
        ((if x.ref = 0 then { x with dirty := false } else x : Entry α)).busy = x.busy := by
      intro x
      split <;> exact ⟨rfl, rfl, rfl⟩
    refine ⟨.of_touch ?_ (fun x hx => SameAt.modify _ hx) ho, ?_, fun _ => Iff.rfl, nofun, ?_⟩
    · rw [update_eq_self]
      exact h.modify hsame
    · intro e
      unfold Cache.modify
      dsimp only
      split
      · exact (hsame _).2.1
      · rfl
    · intro _ e he href
      unfold Cache.modify
      dsimp only
      rw [if_pos (show e ∈ ents from he), if_pos href]

/-! ## Releasing entries -/

/-- What a thread goes on holding: of a routine that waits, of one that is
done, or of one that stopped. -/
def Res.holds {φ ρ : Type} (held : φ → List Ent) (done was : List Ent) : Res φ ρ → List Ent
  | wait f => held f
  | ret _ => done
  | fault => was

/-- The entries being released are ready, and clean once they are flushed. -/
def Release.Ok (c : Cache α) : Release → Prop
  | flush f => ∀ e ∈ f.ents, e ∈ c.listReady
  | relock ents ok => ∀ e ∈ ents, e ∈ c.listReady ∧ (ok = true → (c.ent e).dirty = false)

theorem Release.Ok.congr {r : Release} (h : r.Ok c) (hs : ∀ x ∈ r.held, SameAt c c' x) :
    r.Ok c' := by
  cases r with
  | flush f => exact fun e he => (hs e he).ready.2 (h e he)
  | relock ents ok =>
    intro e he
    rw [(hs e he).ready, (hs e he).ent]
    exact h e he

theorem mem_sortEnts : e ∈ c.sortEnts ents ↔ e ∈ ents :=
  (List.perm_insertionSort _ _).mem_iff

theorem filter_append_self {l : List Ent} (h : (l ++ es).Nodup) :
    (l ++ es).filter (· ∉ es) = l := by
  rw [List.filter_append, List.filter_eq_self.2, List.filter_eq_nil_iff.2, List.append_nil]
  · intro x hx
    simp [hx]
  · intro x hx
    simpa using fun hm => List.disjoint_of_nodup_append h hx hm

theorem releaseEnts_keeps {r : Res Release Int} (h : Accounted c H [])
    (hents : ∀ e ∈ ents, e ∈ c.listReady ∧ (c.ent e).busy = false) (hn : ents.Nodup)
    (hr : c.releaseEnts t ents = (c', r)) :
    Keeps t H (r.holds (fun r => H t ++ r.held) (H t) (H t)) [] c c' ∧
      ∀ x, r = .wait x → x.Ok c' := by
  have hfree : ∀ e ∈ ents, ∀ u, e ∈ H u → u = t := by
    intro e he u hu
    have := ((h.inOrder e).held u hu).1
    simp [(hents e he).2] at this
  have hm := h.mark (t := t) (fun e he => ⟨.inl (hents e he).1, (hents e he).2⟩) hn
  have hs : ∀ x, x ∉ ents → SameAt c (c.mark ents) x := fun x hx => .modify _ hx
  unfold Cache.releaseEnts at hr
  dsimp only at hr
  split at hr
  · cases hr
    refine ⟨((Keeps.of_touch hm hs hfree).unlock t).perm ?_, ?_⟩
    · exact (List.perm_insertionSort _ _).append_left _
    · rintro x hx
      cases hx
      intro e he
      have hmem : e ∈ c.listReady := (hents e (mem_sortEnts.1 he)).1
      exact (SameAt.unlock (c.mark ents) t e).ready.2 hmem
  · split at hr
    · cases hr
      exact ⟨.refl h, nofun⟩
    · rename_i c₁ hf
      cases hr
      have hheld : ∀ e ∈ ents, ∀ u, e ∈ update H t (H t ++ ents) u → u = t := by
        intro e he u hu
        by_cases hut : u = t
        · exact hut
        · rw [update_of_ne hut] at hu
          exact hfree e he u hu
      obtain ⟨ha, hs₁⟩ := hm.freeAll (fun e he => .inl (hents e he).1) hn hheld hf
      have hnod : (H t ++ ents).Nodup := by simpa using hm.nodup t
      rw [update_idem, update_self, filter_append_self hnod] at ha
      exact ⟨.of_touch ha (fun x hx => (hs x hx).trans (hs₁ x hx)) hfree, nofun⟩

theorem scan_spec {p : Nat → Entry α → Bool} {dev n : Nat} {l : List Ent}
    (h : c.scan p dev n l = some es) :
    es.Sublist l ∧ es.length ≤ n ∧ ∀ e ∈ es, ∃ d, p d (c.ent e) = true := by
  induction l generalizing dev n es with
  | nil => cases n <;> cases h <;> exact ⟨.slnil, Nat.zero_le _, nofun⟩
  | cons e l ih =>
    cases n with
    | zero =>
      cases h
      exact ⟨List.nil_sublist _, Nat.le_refl _, nofun⟩
    | succ n =>
      rw [Cache.scan] at h
      split at h
      · cases h
      · split at h
        · rename_i hp
          obtain ⟨es', hes, rfl⟩ := Option.map_eq_some_iff.1 h
          obtain ⟨hsub, hlen, hall⟩ := ih hes
          refine ⟨hsub.cons_cons e, Nat.succ_le_succ hlen, fun x hx => ?_⟩
          rcases List.mem_cons.1 hx with rfl | hx
          · exact ⟨dev, hp⟩
          · exact hall x hx
        · obtain ⟨hsub, hlen, hall⟩ := ih h
          exact ⟨hsub.cons e, hlen, hall⟩

theorem releaseCacheEntrys_keeps {r : Res Release Int} (h : Accounted c H [])
    (hr : c.releaseCacheEntrys t = (c', r)) :
    Keeps t H (r.holds (fun r => H t ++ r.held) (H t) (H t)) [] c c' ∧
      ∀ x, r = .wait x → x.Ok c' := by
  unfold Cache.releaseCacheEntrys at hr
  split at hr
  · cases hr
    exact ⟨.refl h, nofun⟩
  · rename_i ents hscan
    obtain ⟨hsub, -, hall⟩ := scan_spec hscan
    refine releaseEnts_keeps h (fun e he => ⟨List.mem_reverse.1 (hsub.mem he), ?_⟩)
      ((List.nodup_reverse.2 h.nodup_ready).sublist hsub) hr
    obtain ⟨d, hp⟩ := hall e he
    simp only [Bool.and_eq_true, Bool.not_eq_true'] at hp
    exact hp.1

theorem writebackScan_spec {undirty : Bool} (h : Accounted c H [])
    (hs : c.writebackScan undirty = some ents) :
    ents.Nodup ∧ ents.length ≤ writebackBlocksMax ∧
      ∀ e ∈ ents, e ∈ c.listReady ∧ (c.ent e).busy = false := by
  obtain ⟨l₁, h₁, hs⟩ := Option.bind_eq_some_iff.1 hs
  obtain ⟨l₂, h₂, rfl⟩ := Option.map_eq_some_iff.1 hs
  obtain ⟨hsub₁, hlen₁, hall₁⟩ := scan_spec h₁
  obtain ⟨hsub₂, hlen₂, hall₂⟩ := scan_spec h₂
  have hnod := List.nodup_reverse.2 h.nodup_ready
  have hnot : ∀ e ∈ l₂, e ∉ l₁ ∧ (c.ent e).busy = false := by
    intro e he
    obtain ⟨d, hp⟩ := hall₂ e he
    simp only [Cache.mark, Cache.modify, Bool.and_eq_true, Bool.not_eq_true'] at hp
    by_cases hm : e ∈ l₁
    · simp [hm] at hp
    · simp only [if_neg hm] at hp
      exact ⟨hm, hp.1.1⟩
  refine ⟨(hnod.sublist hsub₁).append (hnod.sublist hsub₂) fun e h₁ h₂ => (hnot e h₂).1 h₁, ?_,
    fun e he => ?_⟩
  · rw [List.length_append]
    omega
  · rcases List.mem_append.1 he with he | he
    · obtain ⟨d, hp⟩ := hall₁ e he
      simp only [Bool.and_eq_true, Bool.not_eq_true'] at hp
      exact ⟨List.mem_reverse.1 (hsub₁.mem he), hp.1.1⟩
    · exact ⟨List.mem_reverse.1 (hsub₂.mem he), (hnot e he).2⟩

theorem cacheWriteback_keeps {r : Res Release Int} (h : Accounted c H [])
    (hr : c.cacheWriteback t = (c', r)) :
    Keeps t H (r.holds (fun r => H t ++ r.held) (H t) (H t)) [] c c' ∧
      ∀ x, r = .wait x → x.Ok c' := by
  unfold Cache.cacheWriteback at hr
  split at hr
  · cases hr
    exact ⟨.refl h, nofun⟩
  · cases hr
    exact ⟨.refl h, nofun⟩
  · rename_i ents _ hscan
    cases hr
    obtain ⟨hn, -, hents⟩ := writebackScan_spec h hscan
    have hm := h.mark (t := t) (fun e he => ⟨.inl (hents e he).1, (hents e he).2⟩) hn
    refine ⟨((Keeps.of_touch hm (fun x hx => .modify _ hx) fun e he u hu => ?_).unlock t).perm ?_,
      ?_⟩
    · have := ((h.inOrder e).held u hu).1
      simp [(hents e he).2] at this
    · exact (List.perm_insertionSort _ _).append_left _
    · rintro x hx
      cases hx
      intro e he
      exact (SameAt.unlock (c.mark ents) t e).ready.2 (hents e (mem_sortEnts.1 he)).1

theorem acquire_same (h : c.acquire t = some c') (x : Ent) : SameAt c c' x := by
  unfold Cache.acquire at h
  split at h
  · cases h
    exact .of_eq x rfl rfl rfl rfl
  · cases h

/-- A step that takes the lock first. -/
theorem Keeps.of_acquire (hl : c.acquire t = some c') (h : Keeps t H held hand c' c'') :
    Keeps t H held hand c c'' :=
  ⟨h.acc, fun u hu x hx => (acquire_same hl x).trans (h.frame u hu x hx)⟩

theorem Release.step_keeps {f : Release} {r : Res Release Int} {base : List Ent}
    (h : Accounted c H []) (hH : H t = base ++ f.held) (hok : f.Ok c)
    (hs : f.step t c io = some (c', r)) :
    Keeps t H (r.holds (fun r => base ++ r.held) base (H t)) [] c c' ∧
      ∀ x, r = .wait x → x.Ok c' := by
  have ho : ∀ e ∈ f.held, ∀ u, e ∈ H u → u = t := fun e he u hu =>
    (h.inOrder e).one u t hu (by rw [hH]; exact List.mem_append_right _ he)
  have hnod : (base ++ f.held).Nodup := hH ▸ h.nodup t
  cases f with
  | flush f =>
    rw [Release.step] at hs
    have hready : ∀ e ∈ f.ents, (c.ent e).ref = 0 := fun e he => (h.inOrder e).ready_ref (hok e he)
    split at hs
    · rename_i c₁ f' hf
      cases hs
      obtain ⟨hk, -, hr, hents, -⟩ := FlushList.step_keeps h ho hf
      refine ⟨?_, ?_⟩
      · rw [hH] at hk
        simpa only [Res.holds, Release.held, hents f' rfl] using hk
      · rintro x hx
        cases hx
        intro e he
        rw [hents f' rfl] at he
        exact (hr e).2 (hok e he)
    · rename_i c₁ ok hf
      cases hs
      obtain ⟨hk, -, hr, -, hclean⟩ := FlushList.step_keeps h ho hf
      refine ⟨?_, ?_⟩
      · rw [hH] at hk
        exact hk
      · rintro x hx
        cases hx
        refine fun e he => ⟨(hr e).2 (hok e he), ?_⟩
        rintro rfl
        exact hclean rfl e he (hready e he)
    · rename_i c₁ hf
      cases hs
      exact ⟨(FlushList.step_keeps h ho hf).1, by rintro _ ⟨⟩⟩
  | relock ents ok =>
    obtain ⟨c₁, hl, hs⟩ := Option.map_eq_some_iff.1 hs
    have h₁ := h.acquire hl
    have hsame := fun x => acquire_same hl x
    have hlisted : ∀ e ∈ ents, c₁.Listed e :=
      fun e he => .inl ((hsame e).ready.2 (hok e he).1)
    split at hs
    · split at hs
      · cases hs
        exact ⟨.of_acquire hl (.refl h₁), by rintro _ ⟨⟩⟩
      · rename_i c₂ hf
        cases hs
        obtain ⟨ha, hs₂⟩ := h₁.freeAll hlisted hnod.of_append_right ho hf
        rw [hH] at ha
        have hkeep : (base ++ ents).filter (· ∉ ents) = base := filter_append_self hnod
        exact ⟨.of_acquire hl (.of_touch (hkeep ▸ ha) hs₂ ho), by rintro _ ⟨⟩⟩
    · cases hs
      have ha := h₁.unmark ho fun u hu => h₁.guard_not_listed u (hlisted _ hu)
      rw [hH] at ha
      have hkeep : (base ++ ents).filter (· ∉ ents) = base := filter_append_self hnod
      exact ⟨.of_acquire hl (.of_touch (hkeep ▸ ha) (fun x hx => .modify _ hx) ho), by rintro _ ⟨⟩⟩

/-! ## Allocation -/

/-- The entries a routine returns are in the hand of its caller. -/
def Res.given {φ : Type} : Res φ (List Ent × Bool) → List Ent
  | wait _ => []
  | ret p => p.1
  | fault => []

def Alloc.Ok (c : Cache α) : Alloc → Prop
  | again .. => True
  | release _ _ r => r.Ok c

theorem Alloc.Ok.congr {a : Alloc} (h : a.Ok c) (hs : ∀ x ∈ a.held, SameAt c c' x) :
    a.Ok c' := by
  cases a with
  | again n blocked => trivial
  | release n blocked r => exact Release.Ok.congr h hs

/-- The number of entries asked for. -/
def Alloc.count : Alloc → Nat
  | again n _ => n
  | release n _ _ => n

/-- What `alloc_cache_entrys` leaves: `n` unused entries in the hand of its
caller, or none. -/
structure Allocates (t : Tid) (H : Tid → List Ent) (base : List Ent) (n : Nat) (c c' : Cache α)
    (r : Res Alloc (List Ent × Bool)) : Prop where
  keeps : Keeps t H (r.holds (fun a => base ++ a.held) base (H t)) r.given c c'
  ok : ∀ a, r = .wait a → a.Ok c' ∧ a.count = n
  full : ∀ p, r = .ret p → p.1 = [] ∨ p.1.length = n
  unused : ∀ e ∈ r.given, (c'.ent e).ref = 0 ∧ (c'.ent e).dirty = false

theorem takeFree_ent {n : Nat} (he : e ∈ (c.takeFree n).2) :
    (c.takeFree n).1.ent e =
      { c.ent e with key := ⟨0, -1⟩, ref := 0, dirty := false, busy := false } :=
  if_pos he

/-- No entry is given. -/
theorem Allocates.of_keeps {base : List Ent} {n : Nat} {r : Res Alloc (List Ent × Bool)}
    (h : Keeps t H (r.holds (fun a => base ++ a.held) base (H t)) [] c c')
    (ok : ∀ a, r = .wait a → a.Ok c' ∧ a.count = n) (hr : ∀ p, r = .ret p → p.1 = []) :
    Allocates t H base n c c' r := by
  have hg : r.given = [] := by
    cases r with
    | ret p => exact hr p rfl
    | _ => rfl
  exact ⟨hg ▸ h, ok, fun p hp => .inl (hr p hp), by simp [hg]⟩

theorem allocReleased_allocates {n : Nat} {blocked : Bool} {i : Int} {base : List Ent}
    (h : Keeps t H base [] c c') :
    Allocates t H base n c c' (Cache.allocReleased n blocked i) := by
  unfold Cache.allocReleased
  split
  · refine .of_keeps h nofun fun p hp => ?_
    cases hp
    rfl
  · refine .of_keeps ?_ (fun a ha => ?_) nofun
    · rw [← List.append_nil base] at h
      exact h
    · cases ha
      exact ⟨trivial, rfl⟩

theorem allocAgain_allocates {n : Nat} {blocked : Bool} {r : Res Alloc (List Ent × Bool)}
    (h : Accounted c H []) (hr : c.allocAgain t n blocked = (c', r)) :
    Allocates t H (H t) n c c' r := by
  unfold Cache.allocAgain at hr
  split at hr
  · split at hr
    · rename_i c₁ x hrel
      cases hr
      obtain ⟨hk, hok⟩ := releaseCacheEntrys_keeps h hrel
      refine .of_keeps hk (fun a ha => ?_) nofun
      cases ha
      exact ⟨hok x rfl, rfl⟩
    · rename_i c₁ i hrel
      cases hr
      exact allocReleased_allocates (releaseCacheEntrys_keeps h hrel).1
    · rename_i c₁ hrel
      cases hr
      exact .of_keeps (releaseCacheEntrys_keeps h hrel).1 nofun nofun
  · rename_i hcount
    split at hr
    · cases hr
      refine .of_keeps ?_ (fun a ha => ?_) nofun
      · have hk := Keeps.refl (t := t) h
        rw [← List.append_nil (H t)] at hk
        exact hk
      · cases ha
        exact ⟨trivial, rfl⟩
    · cases hr
      refine ⟨⟨?_, fun u hu x hx => .takeFree fun hm => ?_⟩, nofun, fun p hp => ?_, fun e he => ?_⟩
      · show Accounted _ (update H t (H t)) (c.takeFree n).2
        rw [update_eq_self]
        exact h.takeFree n
      · exact h.not_held (.inr (List.mem_of_mem_take hm)) u hx
      · cases hp
        right
        have hlen := h.count
        show (c.freeEntsList.take n).length = n
        rw [List.length_take]
        omega
      · rw [takeFree_ent he]
        exact ⟨rfl, rfl⟩

theorem ensureHeap_keeps (h : Accounted c H []) (malloc : Bool) :
    Accounted (c.ensureHeap malloc) H [] ∧ ∀ x, SameAt c (c.ensureHeap malloc) x := by
  unfold Cache.ensureHeap
  split
  · rename_i hn
    exact h.initHeap hn malloc
  · exact ⟨h, fun x => .refl c x⟩

/-- A step after one that keeps every entry at its place. -/
theorem Keeps.after_same (hs : ∀ x, SameAt c c' x) (h : Keeps t H held hand c' c'') :
    Keeps t H held hand c c'' :=
  ⟨h.acc, fun u hu x hx => (hs x).trans (h.frame u hu x hx)⟩

theorem Allocates.after_same {base : List Ent} {n : Nat} {r : Res Alloc (List Ent × Bool)}
    (hs : ∀ x, SameAt c c' x) (h : Allocates t H base n c' c'' r) :
    Allocates t H base n c c'' r :=
  ⟨h.keeps.after_same hs, h.ok, h.full, h.unused⟩

theorem allocCacheEntrys_allocates {n : Nat} {malloc : Bool} {r : Res Alloc (List Ent × Bool)}
    (h : Accounted c H []) (hr : c.allocCacheEntrys t n malloc = (c', r)) :
    Allocates t H (H t) n c c' r := by
  obtain ⟨ha, hs⟩ := ensureHeap_keeps h malloc
  exact (allocAgain_allocates ha hr).after_same hs

theorem Alloc.step_allocates {a : Alloc} {r : Res Alloc (List Ent × Bool)} (base : List Ent)
    (h : Accounted c H []) (hH : H t = base ++ a.held) (hok : a.Ok c)
    (hs : a.step t c io = some (c', r)) : Allocates t H base a.count c c' r := by
  cases a with
  | again n blocked =>
    obtain ⟨c₁, hl, hr⟩ := Option.map_eq_some_iff.1 hs
    have hb : H t = base := by rw [hH]; exact List.append_nil base
    have ha := allocAgain_allocates (h.acquire hl) hr
    rw [hb] at ha
    exact ha.after_same (acquire_same hl)
  | release n blocked x =>
    obtain ⟨⟨c₁, y⟩, hx, hr⟩ := Option.map_eq_some_iff.1 hs
    obtain ⟨hk, hok'⟩ := Release.step_keeps h hH hok hx
    cases y with
    | wait z =>
      cases hr
      refine .of_keeps hk (fun a ha => ?_) nofun
      cases ha
      exact ⟨hok' z rfl, rfl⟩
    | ret i =>
      cases hr
      exact allocReleased_allocates hk
    | fault =>
      cases hr
      exact .of_keeps hk nofun nofun

/-! ## An entry for a block to be written -/

def GetEmpty.Ok (c : Cache α) : GetEmpty → Prop
  | lookup => True
  | alloc a => a.Ok c ∧ a.count = 1

theorem GetEmpty.Ok.congr {g : GetEmpty} (h : g.Ok c) (hs : ∀ x ∈ g.held, SameAt c c' x) :
    g.Ok c' := by
  cases g with
  | lookup => trivial
  | alloc a => exact ⟨Alloc.Ok.congr h.1 hs, h.2⟩

/-- What `do_get_empty_cache_entry` leaves: the entry it returns is listed and
not busy. -/
structure GivesEmpty (t : Tid) (H : Tid → List Ent) (base : List Ent) (c c' : Cache α)
    (r : Res GetEmpty (Option Ent)) : Prop where
  keeps : Keeps t H (r.holds (fun g => base ++ g.held) base (H t)) [] c c'
  ok : ∀ g, r = .wait g → g.Ok c'
  found : ∀ e, r = .ret (some e) → c'.Listed e ∧ (c'.ent e).busy = false

theorem emptyAlloced_gives {base : List Ent} {p : Cache α × Res Alloc (List Ent × Bool)}
    {r : Res GetEmpty (Option Ent)} (h : Allocates t H base 1 c p.1 p.2)
    (hr : Cache.emptyAlloced k p = (c', r)) : GivesEmpty t H base c c' r := by
  obtain ⟨c₁, x⟩ := p
  cases x with
  | wait a =>
    cases hr
    refine ⟨h.keeps, fun g hg => ?_, nofun⟩
    cases hg
    exact h.ok a rfl
  | fault =>
    cases hr
    exact ⟨h.keeps, nofun, nofun⟩
  | ret q =>
    obtain ⟨ents, blocked⟩ := q
    rcases h.full _ rfl with hnil | hone
    · obtain rfl : ents = [] := hnil
      cases hr
      exact ⟨h.keeps, nofun, nofun⟩
    · obtain ⟨e, rfl⟩ := List.length_eq_one_iff.1 hone
      cases hr
      have hacc : Accounted c₁ (update H t base) [e] := h.keeps.acc
      obtain ⟨ha, hent, hlock, hs⟩ := hacc.takeEmpty (k := k)
      refine ⟨⟨ha, fun u hu x hx => (h.keeps.frame u hu x hx).trans (hs x ?_)⟩, nofun, ?_⟩
      · rintro rfl
        refine hacc.not_held (.inl List.mem_cons_self) u ?_
        rw [update_of_ne hu]
        exact hx
      · rintro x hx
        cases hx
        exact ⟨.inr hlock, congrArg Entry.busy hent⟩

theorem lookup_found (h : Accounted c H hand) (hl : c.lookupCacheEntry k = .found e) :
    c.Hashed e ∧ c.key e = k ∧ (c.ent e).busy = false ∧ c.Listed e := by
  unfold Cache.lookupCacheEntry at hl
  split at hl
  · cases hl
  · rename_i x hx
    split at hl
    · cases hl
    · rename_i hb
      cases hl
      have hb : (c.ent e).busy = false := by simpa using hb
      unfold Cache.cacheHashLookup at hx
      split at hx
      · cases hx
      · rename_i table ht
        have hm := List.mem_of_find?_eq_some hx
        have hk : c.key e = k := by simpa using List.find?_some hx
        have hh : c.Hashed e := ⟨table, ht, hk.symm ▸ hm⟩
        exact ⟨hh, hk, hb, h.listed_of_hashed hh hb⟩

/-- A step on an entry that was found: no thread holds it. -/
theorem Keeps.of_found (h : Accounted c H hand) (hl : c.lookupCacheEntry k = .found e)
    (ha : Accounted c' H hand) (hs : ∀ x, x ≠ e → SameAt c c' x) :
    Keeps t H (H t) hand c c' := by
  have ho : ∀ x ∈ [e], ∀ u, x ∈ H u → u = t := by
    intro x hx u hu
    obtain rfl := List.mem_singleton.1 hx
    have := ((h.inOrder x).held u hu).1
    simp [(lookup_found h hl).2.2.1] at this
  exact .of_touch (by rw [update_eq_self]; exact ha)
    (fun x hx => hs x (List.mem_singleton.not.1 hx)) ho

theorem doGetEmptyCacheEntry_gives {malloc : Bool} {r : Res GetEmpty (Option Ent)}
    (h : Accounted c H []) (hr : c.doGetEmptyCacheEntry t k malloc = (c', r)) :
    GivesEmpty t H (H t) c c' r := by
  unfold Cache.doGetEmptyCacheEntry at hr
  split at hr
  · cases hr
    refine ⟨?_, fun g hg => ?_, nofun⟩
    · have hk := (Keeps.refl (t := t) h).unlock t
      rw [← List.append_nil (H t)] at hk
      exact hk
    · cases hg
      trivial
  · rename_i e hl
    cases hr
    obtain ⟨-, -, hbusy, hlisted⟩ := lookup_found h hl
    refine ⟨.of_found h hl (h.hit hlisted) fun x hx => .hit hx, nofun, ?_⟩
    rintro x hx
    cases hx
    exact ⟨h.listed_hit hlisted, (congrArg Entry.busy h.ent_hit).trans hbusy⟩
  · exact emptyAlloced_gives (allocCacheEntrys_allocates h rfl) hr

theorem GetEmpty.step_gives {g : GetEmpty} {r : Res GetEmpty (Option Ent)} {base : List Ent}
    (h : Accounted c H []) (hH : H t = base ++ g.held) (hok : g.Ok c)
    (hs : g.step t k c fate = some (c', r)) : GivesEmpty t H base c c' r := by
  cases g with
  | lookup =>
    obtain ⟨c₁, hl, hr⟩ := Option.map_eq_some_iff.1 hs
    have hb : H t = base := by rw [hH]; exact List.append_nil base
    have hg := doGetEmptyCacheEntry_gives (h.acquire hl) hr
    rw [hb] at hg
    exact ⟨hg.keeps.of_acquire hl, hg.ok, hg.found⟩
  | alloc a =>
    obtain ⟨p, hp, hr⟩ := Option.map_eq_some_iff.1 hs
    have ha := Alloc.step_allocates base h hH hok.1 hp
    rw [hok.2] at ha
    exact emptyAlloced_gives ha hr

/-! ## Reading a block into the cache -/

def GetBlock.Ok (c : Cache α) (k : Key) : GetBlock → Prop
  | start => True
  | alloc _ _ a => a.Ok c
  | read off ents => Loading c k off ents
  | finish off ents _ => Loading c k off ents

theorem GetBlock.Ok.congr {g : GetBlock} (h : g.Ok c k) (hs : ∀ x ∈ g.held t, SameAt c c' x) :
    g.Ok c' k := by
  cases g with
  | start => trivial
  | alloc off cnt a => exact Alloc.Ok.congr h fun x hx => hs x (List.mem_cons_of_mem _ hx)
  | read off ents => exact Loading.same h hs
  | finish off ents ok => exact Loading.same h hs

/-- What `get_block` leaves. -/
structure GivesBlock (t : Tid) (H : Tid → List Ent) (k : Key) (c c' : Cache α)
    (r : Res GetBlock (Option Ent)) : Prop where
  keeps : Keeps t H (r.holds (fun g => g.held t) [] (H t)) [] c c'
  ok : ∀ g, r = .wait g → g.Ok c' k

theorem getAlloced_gives {c₀ cs : Cache α} {off : Int} {cnt : Nat} {blocked : Bool}
    {r : Res GetBlock (Option Ent)} (hstop : Keeps t H (H t) [] cs c₀)
    (h : Keeps t H [.guard t] ents cs c)
    (hz : ∀ e ∈ ents, (c.ent e).ref = 0 ∧ (c.ent e).dirty = false)
    (hr : c.getAlloced t k off cnt ents blocked c₀ = (c', r)) : GivesBlock t H k cs c' r := by
  unfold Cache.getAlloced at hr
  split at hr
  · cases hr
    exact ⟨hstop, nofun⟩
  · rename_i c₁ hrem
    obtain ⟨ha, hs⟩ := h.acc.removeProtected hrem
    rw [update_idem, update_self, List.erase_cons_head] at ha
    have hframe : ∀ u, u ≠ t → ∀ x ∈ H u, SameAt cs c₁ x := by
      intro u hu x hx
      refine (h.frame u hu x hx).trans (hs x ?_)
      rintro rfl
      have hx' : Ent.guard t ∈ update H t [.guard t] u := by rwa [update_of_ne hu]
      exact hu ((h.acc.inOrder _).one u t hx' (by simp))
    split at hr
    · rename_i hnil
      subst hnil
      cases hr
      exact ⟨⟨ha, hframe⟩, nofun⟩
    · dsimp only at hr
      obtain ⟨rng, hrng⟩ : ∃ rng, rng = Cache.cutRange k.blockOffset ents.length
        (if blocked then c₁.readahead k ents.length else (off, cnt)) := ⟨_, rfl⟩
      rw [← hrng] at hr
      cases hr
      have hhand : (ents.drop rng.2 ++ ents.take rng.2).Perm ents := by
        refine List.perm_append_comm.trans ?_
        rw [List.take_append_drop]
      have hnod : (ents.take rng.2 ++ ents.drop rng.2).Nodup := by
        rw [List.take_append_drop]
        exact ha.nodup_all.of_append_left
      obtain ⟨ha₂, hs₂⟩ := (ha.of_hand_perm hhand).freeHand
      have hz₂ : ∀ e ∈ ents.take rng.2,
          (((ents.drop rng.2).foldl Cache.freeCacheEntry c₁).ent e).ref = 0 ∧
          (((ents.drop rng.2).foldl Cache.freeCacheEntry c₁).ent e).dirty = false := by
        intro e he
        have hmem := List.mem_of_mem_take he
        have hne : e ≠ .guard t := h.acc.not_guard (.inl hmem)
        rw [(hs₂ e fun hd => List.disjoint_of_nodup_append hnod he hd).ent, (hs e hne).ent]
        exact hz e hmem
      have ha₂' : Accounted ((ents.drop rng.2).foldl Cache.freeCacheEntry c₁) (update H t [])
          (ents.take rng.2 ++ []) := by
        rw [List.append_nil]
        exact ha₂
      obtain ⟨ha₃, hload, hs₃⟩ : Accounted (((ents.drop rng.2).foldl Cache.freeCacheEntry
          c₁).insertBlocks k rng.1 (ents.take rng.2)) _ [] ∧
          Loading (((ents.drop rng.2).foldl Cache.freeCacheEntry c₁).insertBlocks k rng.1
            (ents.take rng.2)) k rng.1 (ents.take rng.2) ∧ _ := ha₂'.insertBlocks (t := t) hz₂
      rw [update_idem, update_self, List.nil_append] at ha₃
      refine ⟨Keeps.unlock ⟨ha₃, fun u hu x hx => ?_⟩ t, ?_⟩
      · have hnot : ∀ l : List Ent, (∀ y ∈ l, y ∈ ents) → x ∉ l := by
          intro l hl hm
          refine ha.not_held (.inl (hl x hm)) u ?_
          rw [update_of_ne hu]
          exact hx
        exact ((hframe u hu x hx).trans
          (hs₂ x (hnot _ fun y hy => List.mem_of_mem_drop hy))).trans
          (hs₃ x (hnot _ fun y hy => List.mem_of_mem_take hy))
      · rintro g hg
        cases hg
        exact hload.same fun x _ => .unlock _ t x

theorem blockAlloced_gives {c₀ cs : Cache α} {off : Int} {cnt n : Nat}
    {p : Cache α × Res Alloc (List Ent × Bool)} {r : Res GetBlock (Option Ent)}
    (hstop : Keeps t H (H t) [] cs c₀)
    (h : p.2 ≠ .fault → Allocates t H [.guard t] n cs p.1 p.2)
    (hr : Cache.blockAlloced c₀ t k off cnt p = (c', r)) : GivesBlock t H k cs c' r := by
  obtain ⟨c₁, x⟩ := p
  cases x with
  | wait a =>
    cases hr
    refine ⟨(h nofun).keeps, fun g hg => ?_⟩
    cases hg
    exact ((h nofun).ok a rfl).1
  | fault =>
    cases hr
    exact ⟨hstop, nofun⟩
  | ret q => exact getAlloced_gives hstop (h nofun).keeps (h nofun).unused hr

/-- An allocation after a step that took hold of `base`. -/
theorem Allocates.after {base : List Ent} {cs : Cache α} {n : Nat}
    {r : Res Alloc (List Ent × Bool)} (hk : Keeps t H base [] cs c)
    (h : Allocates t (update H t base) base n c c' r) (hr : r ≠ .fault) :
    Allocates t H base n cs c' r := by
  refine ⟨hk.trans ?_, h.ok, h.full, h.unused⟩
  have hkeeps := h.keeps
  cases r with
  | fault => exact absurd rfl hr
  | wait a => exact hkeeps
  | ret p => exact hkeeps

theorem Keeps.of_acc (h : Accounted c H []) (hH : H t = held) : Keeps t H held [] c c :=
  hH ▸ .refl h

theorem getLookup_gives {malloc : Bool} {r : Res GetBlock (Option Ent)} (h : Accounted c H [])
    (hH : H t = []) (hr : c.getLookup t k malloc = (c', r)) : GivesBlock t H k c c' r := by
  unfold Cache.getLookup at hr
  split at hr
  · cases hr
    refine ⟨(Keeps.of_acc h hH).unlock t, fun g hg => ?_⟩
    cases hg
    trivial
  · rename_i e hl
    cases hr
    have hk := Keeps.of_found (t := t) h hl (h.hit (lookup_found h hl).2.2.2) fun x hx => .hit hx
    rw [hH] at hk
    exact ⟨hk.unlock t, nofun⟩
  · obtain ⟨ha, hs⟩ := h.insertProtected (t := t) (k := k) (by rw [hH]; exact List.not_mem_nil)
    rw [hH] at ha
    have hk : Keeps t H [.guard t] [] c (c.insertProtected t k) := by
      refine ⟨ha, fun u hu x hx => hs x ?_⟩
      rintro rfl
      have hx' : Ent.guard t ∈ update H t [.guard t] u := by rwa [update_of_ne hu]
      exact hu ((ha.inOrder _).one u t hx' (by simp))
    refine blockAlloced_gives (n := (c.readahead k (cacheReadaheadSize / blockSize)).2) (.refl h)
      (fun hne => ?_) hr
    have halloc := allocCacheEntrys_allocates (n := (c.readahead k
      (cacheReadaheadSize / blockSize)).2) ha (Prod.eta (Cache.allocCacheEntrys t _ malloc _)).symm
    rw [update_self] at halloc
    exact .after hk halloc hne

/-- Reading changes the content of the entries only. -/
theorem loadBlocks_eq (k : Key) (es : List Ent) (c : Cache α) :
    ∃ m, c.loadBlocks k es = { c with ent := m } ∧ (∀ x, x ∉ es → m x = c.ent x) ∧
      ∀ x, (m x).key = (c.ent x).key ∧ (m x).ref = (c.ent x).ref ∧
        (m x).busy = (c.ent x).busy ∧ (m x).dirty = (c.ent x).dirty := by
  induction es generalizing c k with
  | nil => exact ⟨c.ent, rfl, fun _ _ => rfl, fun x => ⟨rfl, rfl, rfl, rfl⟩⟩
  | cons e es ih =>
    obtain ⟨m, h₁, h₂, h₃⟩ := ih (k.add 1) (c.modify [e] fun x => { x with data := c.disk k })
    refine ⟨m, h₁, fun x hx => ?_, fun x => ?_⟩
    · rw [List.mem_cons, not_or] at hx
      exact (h₂ x hx.2).trans (if_neg (List.mem_singleton.not.2 hx.1))
    · have hx := h₃ x
      unfold Cache.modify at hx
      dsimp only at hx
      split at hx
      · exact hx
      · exact hx

theorem loadBlocks_books (k : Key) (es : List Ent) (c : Cache α) (x : Ent) :
    SameBooks c (c.loadBlocks k es) x ∧
      ((c.loadBlocks k es).ent x).dirty = (c.ent x).dirty := by
  obtain ⟨m, heq, -, hm⟩ := loadBlocks_eq k es c
  obtain ⟨hkey, href, hbusy, hdirty⟩ := hm x
  rw [heq]
  refine ⟨⟨hkey, href, hbusy, Iff.rfl, Iff.rfl, ?_⟩, hdirty⟩
  unfold Cache.Hashed Cache.key
  rw [hkey]

theorem loadBlocks_keeps (h : Accounted c H []) (ho : ∀ x ∈ es, ∀ u, x ∈ H u → u = t) :
    Keeps t H (H t) [] c (c.loadBlocks k es) := by
  have hb := loadBlocks_books k es c
  obtain ⟨m, heq, hout, -⟩ := loadBlocks_eq k es c
  rw [heq] at hb ⊢
  refine .of_touch ?_ (fun x hx => ⟨hout x hx, Iff.rfl, Iff.rfl, (hb x).1.hashed⟩) ho
  rw [update_eq_self]
  exact h.of_books (fun x => (hb x).1) rfl rfl rfl rfl rfl rfl

theorem filter_self (l : List Ent) : l.filter (· ∉ l) = [] :=
  List.filter_eq_nil_iff.2 fun x hx => by simp [hx]

theorem GetBlock.step_gives {g : GetBlock} {r : Res GetBlock (Option Ent)}
    (h : Accounted c H []) (hH : H t = g.held t) (hok : g.Ok c k)
    (hs : g.step t k c fate = some (c', r)) : GivesBlock t H k c c' r := by
  have ho : ∀ e ∈ g.held t, ∀ u, e ∈ H u → u = t := fun e he u hu =>
    (h.inOrder e).one u t hu (by rw [hH]; exact he)
  have hnod : (g.held t).Nodup := hH ▸ h.nodup t
  cases g with
  | start =>
    rw [GetBlock.step] at hs
    split at hs
    · cases hs
      exact ⟨.of_acc h hH, nofun⟩
    · obtain ⟨c₁, hl, hr⟩ := Option.map_eq_some_iff.1 hs
      have hg := getLookup_gives (h.acquire hl) hH hr
      exact ⟨hg.keeps.of_acquire hl, hg.ok⟩
  | alloc off cnt a =>
    obtain ⟨p, hp, hr⟩ := Option.map_eq_some_iff.1 hs
    have ha := Alloc.step_allocates [.guard t] h hH hok hp
    have hlocked : Keeps t H (H t) [] c { c with lock := some t } := by
      refine (Keeps.refl h).of_same ?_ fun x => .of_eq x rfl rfl rfl rfl
      rw [update_eq_self]
      exact h.of_eq rfl rfl rfl rfl rfl rfl rfl
    have hstop : Keeps t H (H t) [] c (a.stop t c) := by
      rcases a with _ | ⟨_, _, _ | _⟩
      · exact hlocked
      · exact .refl h
      · exact hlocked
    exact blockAlloced_gives hstop (fun _ => ha) hr
  | read off ents =>
    rw [GetBlock.step] at hs
    split at hs
    · cases hs
      exact ⟨.refl h, nofun⟩
    · rename_i c₁ ok hread
      cases hs
      unfold Cache.readCacheEntryList at hread
      split at hread
      · cases hread
        refine ⟨?_, fun g hg => ?_⟩
        · have hk := loadBlocks_keeps (k := ⟨k.dev, off⟩) h
            (fun x hx => ho x (List.mem_of_mem_take (i := fate.io.count ents.length) hx))
          rw [hH] at hk
          exact hk
        · cases hg
          exact Loading.congr hok (fun x _ => (loadBlocks_books _ _ c x).1)
            fun x _ => (loadBlocks_books _ _ c x).2
      · cases hread
  | finish off ents ok =>
    obtain ⟨c₁, hl, hr⟩ := Option.map_eq_some_iff.1 hs
    have h₁ := h.acquire hl
    have hload : Loading c₁ k off ents := Loading.same hok fun x _ => acquire_same hl x
    have hH' : H t = ents := hH
    split at hr
    · cases hr
      have ha := h₁.unmark ho fun u hu => h₁.guard_not_listed u (hload.listed hu)
      have hnil : (H t).filter (· ∉ ents) = [] := by rw [hH', filter_self]
      refine ⟨.of_acquire hl (Keeps.unlock (.of_touch (hnil ▸ ha) (fun x hx => .modify _ hx) ho) t),
        nofun⟩
    · split at hr
      · cases hr
        exact ⟨.of_acquire hl (.refl h₁), nofun⟩
      · rename_i c₂ hdrop
        cases hr
        obtain ⟨ha, hs₂⟩ := h₁.dropBlocks hload hnod ho hdrop
        have hnil : (H t).filter (· ∉ ents) = [] := by rw [hH', filter_self]
        rw [hnil] at ha
        have hhand : (ents ++ []).Perm (ents.reverse ++ []) := by
          simp [(List.reverse_perm ents).symm]
        obtain ⟨ha₃, hs₃⟩ := (ha.of_hand_perm hhand).freeHand
        exact ⟨.of_acquire hl (Keeps.unlock (.of_touch ha₃
          (fun x hx => (hs₂ x hx).trans (hs₃ x hx)) ho) t), nofun⟩

/-! ## flush_block_cache -/

def Flush.old : Flush → List Ent
  | scan old .. => old
  | batch old .. => old
  | batchDone old .. => old
  | last old .. => old
  | lastDone old _ => old
  | check old => old

def Flush.new : Flush → List Ent
  | scan _ new _ => new
  | batch _ new .. => new
  | batchDone _ new _ => new
  | last _ new _ => new
  | lastDone _ new => new
  | check _ => []

def Flush.list : Flush → Option FlushList
  | batch _ _ _ f => some f
  | last _ _ f => some f
  | _ => none

/-- The entries of an earlier round that the call goes on to flush and to make
free again, busy or not. -/
def Flush.reused : Flush → List Ent
  | batch old .. => old
  | batchDone old .. => old
  | last old .. => old
  | lastDone old _ => old
  | _ => []

structure Flush.Ok (c : Cache α) (f : Flush) : Prop where
  ready : ∀ e ∈ f.held, e ∈ c.listReady
  old : ∀ u, Ent.guard u ∉ f.old
  list : ∀ g, f.list = some g → ∀ e ∈ g.ents, e ∈ f.old ++ f.new

theorem Flush.Ok.congr {f : Flush} (h : f.Ok c) (hs : ∀ x ∈ f.held, SameAt c c' x) : f.Ok c' :=
  ⟨fun e he => (hs e he).ready.2 (h.ready e he), h.old, h.list⟩

theorem flushScan_spec {n : Nat} {l picked : List Ent} {o : Option Ent}
    (h : c.flushScan n l = some (picked, o)) :
    (picked ++ o.toList).Sublist l ∧
      ∀ e ∈ picked ++ o.toList, (c.ent e).busy = false ∧ (c.ent e).dirty = true := by
  induction l generalizing n picked o with
  | nil =>
    rw [Cache.flushScan.eq_def] at h
    cases h
    exact ⟨.slnil, nofun⟩
  | cons e l ih =>
    rw [Cache.flushScan.eq_def] at h
    dsimp only at h
    split at h
    · cases h
    · split at h
      · obtain ⟨hsub, hall⟩ := ih h
        exact ⟨hsub.cons e, hall⟩
      · rename_i hp
        have he : (c.ent e).busy = false ∧ (c.ent e).dirty = true := by simpa using hp
        cases n with
        | zero =>
          cases h
          refine ⟨(List.nil_sublist l).cons_cons e, fun x hx => ?_⟩
          obtain rfl := List.mem_singleton.1 hx
          exact he
        | succ n =>
          obtain ⟨⟨p, o'⟩, hr, heq⟩ := Option.map_eq_some_iff.1 h
          cases heq
          obtain ⟨hsub, hall⟩ := ih hr
          refine ⟨hsub.cons_cons e, fun x hx => ?_⟩
          rcases List.mem_cons.1 hx with rfl | hx
          · exact he
          · exact hall x hx

theorem flushRest_spec {pos : Option Ent} {l : List Ent} (h : c.flushRest pos = some l) :
    l.Sublist c.listReady.reverse := by
  unfold Cache.flushRest at h
  split at h
  · cases h
    exact .refl _
  · split at h
    · cases h
      exact (List.takeWhile_sublist _).reverse
    · cases h

/-- What a thread relies on about the entries it holds. -/
def Pc.Ok (c : Cache α) : Pc α → Prop
  | get k g => g.Ok c k
  | read k _ i (.get g) => g.Ok c (k.add i)
  | write _ _ _ (.empty g) => g.Ok c
  | flush _ f => f.Ok c
  | release r => r.Ok c
  | _ => True

/-- Entries picked by the scan join the ones the thread holds. -/
theorem mark_keeps (h : Accounted c H []) (hl : ∀ e ∈ es, e ∈ c.listReady ∧ (c.ent e).busy = false)
    (hn : es.Nodup) : Keeps t H (H t ++ es) [] c (c.mark es) := by
  refine .of_touch (h.mark (fun e he => ⟨.inl (hl e he).1, (hl e he).2⟩) hn)
    (fun x hx => .modify _ hx) fun e he u hu => ?_
  have := ((h.inOrder e).held u hu).1
  simp [(hl e he).2] at this

theorem flushScanStep_keeps {wait : Bool} {old new : List Ent} {pos : Option Ent} {pc : Pc α}
    (h : Accounted c H []) (hH : H t = new) (hnew : ∀ e ∈ new, e ∈ c.listReady)
    (hold : ∀ u, Ent.guard u ∉ old) (hs : flushScanStep t wait old new pos c = (c', pc)) :
    Keeps t H (pc.held t) [] c c' ∧ pc.Ok c' := by
  unfold flushScanStep at hs
  split at hs
  · cases hs
    exact ⟨.of_acc h hH, trivial⟩
  · rename_i picked e hscan
    obtain ⟨l, hrest, hscan⟩ := Option.bind_eq_some_iff.1 hscan
    obtain ⟨hsub, hall⟩ := flushScan_spec hscan
    have hsub' := hsub.trans (flushRest_spec hrest)
    cases hs
    have hk := mark_keeps (t := t) h
      (fun x hx => ⟨List.mem_reverse.1 (hsub'.mem hx), (hall x hx).1⟩)
      ((List.nodup_reverse.2 h.nodup_ready).sublist hsub')
    rw [hH, ← List.append_assoc] at hk
    refine ⟨hk.unlock t, fun x hx => ?_, hold, fun g hg x hx => ?_⟩
    · refine (SameAt.unlock (c.mark (picked ++ [e])) t x).ready.2 ?_
      change x ∈ (new ++ picked) ++ [e] at hx
      rw [List.append_assoc] at hx
      rcases List.mem_append.1 hx with hx | hx
      · exact hnew x hx
      · exact List.mem_reverse.1 (hsub'.mem hx)
    · cases hg
      exact mem_sortEnts.1 hx
  · rename_i picked hscan
    obtain ⟨l, hrest, hscan⟩ := Option.bind_eq_some_iff.1 hscan
    obtain ⟨hsub, hall⟩ := flushScan_spec hscan
    rw [Option.toList_none, List.append_nil] at hsub hall
    have hsub' := hsub.trans (flushRest_spec hrest)
    have hk := mark_keeps (t := t) h
      (fun x hx => ⟨List.mem_reverse.1 (hsub'.mem hx), (hall x hx).1⟩)
      ((List.nodup_reverse.2 h.nodup_ready).sublist hsub')
    rw [hH] at hk
    dsimp only at hs
    split at hs
    · rename_i hnil
      cases hs
      rw [(List.append_eq_nil_iff.1 hnil).2] at hk
      exact ⟨hk.unlock t, nofun, nofun, nofun⟩
    · cases hs
      refine ⟨hk.unlock t, fun x hx => ?_, hold, fun g hg x hx => ?_⟩
      · refine (SameAt.unlock (c.mark picked) t x).ready.2 ?_
        rcases List.mem_append.1 hx with hx | hx
        · exact hnew x hx
        · exact List.mem_reverse.1 (hsub'.mem hx)
      · cases hg
        exact mem_sortEnts.1 hx

/-- The flush of the array inside `flush_block_cache`. -/
theorem Flush.list_keeps {f : FlushList} {old new hold : List Ent} {r : Res FlushList Bool}
    (h : Accounted c H []) (hH : H t = hold) (hnew : ∀ e ∈ new, e ∈ hold)
    (hlist : ∀ e ∈ f.ents, e ∈ old ++ new) (htidy : ∀ e ∈ old, ∀ u, u ≠ t → e ∉ H u)
    (hs : f.step c io = (c', r)) :
    Keeps t H hold [] c c' ∧ (∀ e, e ∈ c'.listReady ↔ e ∈ c.listReady) ∧
      ∀ f', r = .wait f' → f'.ents = f.ents := by
  have ho : ∀ e ∈ f.ents, ∀ u, e ∈ H u → u = t := by
    intro e he u hu
    rcases List.mem_append.1 (hlist e he) with he | he
    · exact by_contra fun hut => htidy e he u hut hu
    · exact (h.inOrder e).one u t hu (hH.symm ▸ hnew e he)
  obtain ⟨hk, -, hr, hents, -⟩ := FlushList.step_keeps h ho hs
  exact ⟨hH ▸ hk, hr, hents⟩

/-- `BUSY` cleared on the whole array. -/
theorem Flush.unmark_keeps {old new : List Ent} (h : Accounted c H [])
    (hnew : ∀ e ∈ new, e ∈ H t ∧ e ∈ c.listReady) (hold : ∀ u, Ent.guard u ∉ old)
    (htidy : ∀ e ∈ old, ∀ u, u ≠ t → e ∉ H u) :
    Keeps t H ((H t).filter (· ∉ old ++ new)) [] c (c.unmark (old ++ new)) := by
  have ho : ∀ e ∈ old ++ new, ∀ u, e ∈ H u → u = t := by
    intro e he u hu
    rcases List.mem_append.1 he with he | he
    · exact by_contra fun hut => htidy e he u hut hu
    · exact (h.inOrder e).one u t hu (hnew e he).1
  refine .of_touch (h.unmark ho fun u hu => ?_) (fun x hx => .modify _ hx) ho
  rcases List.mem_append.1 hu with hu | hu
  · exact hold u hu
  · exact h.guard_not_listed u (.inl (hnew _ hu).2)

theorem Flush.step_keeps {wait : Bool} {f : Flush} {pc : Pc α} (h : Accounted c H [])
    (hH : H t = f.held) (hok : f.Ok c) (htidy : ∀ e ∈ f.reused, ∀ u, u ≠ t → e ∉ H u)
    (hs : f.step t wait c io = some (c', pc)) :
    Keeps t H (pc.held t) [] c c' ∧ pc.Ok c' := by
  cases f with
  | scan old new pos =>
    obtain ⟨c₁, hl, hs⟩ := Option.map_eq_some_iff.1 hs
    obtain ⟨hk, hok'⟩ := flushScanStep_keeps (h.acquire hl) hH
      (fun e he => (acquire_same hl e).ready.2 (hok.ready e he)) hok.old hs
    exact ⟨hk.of_acquire hl, hok'⟩
  | batch old new e g =>
    cases hs
    obtain ⟨hk, hr, hents⟩ := Flush.list_keeps (r := (g.step c io).2) h hH
      (fun x hx => List.mem_append_left _ hx) (hok.list g rfl) htidy rfl
    cases hstep : (g.step c io).2 with
    | wait g' =>
      refine ⟨hk, fun x hx => (hr x).2 (hok.ready x hx), hok.old, fun y hy x hx => ?_⟩
      cases hy
      rw [hents g' hstep] at hx
      exact hok.list g rfl x hx
    | ret b => exact ⟨hk, fun x hx => (hr x).2 (hok.ready x hx), hok.old, nofun⟩
    | fault => exact ⟨hk, trivial⟩
  | batchDone old new e =>
    obtain ⟨c₁, hl, hs⟩ := Option.map_eq_some_iff.1 hs
    have h₁ := h.acquire hl
    have hready : ∀ x ∈ new ++ [e], x ∈ c₁.listReady :=
      fun x hx => (acquire_same hl x).ready.2 (hok.ready x hx)
    have hH' : H t = new ++ [e] := hH
    have hk : Keeps t H ((H t).filter (· ∉ old ++ new)) [] c₁ (c₁.unmark (old ++ new)) :=
      Flush.unmark_keeps h₁ (fun x hx => ⟨by rw [hH']; exact List.mem_append_left _ hx,
        hready x (List.mem_append_left _ hx)⟩) hok.old htidy
    have hnod : (new ++ [e]).Nodup := hH' ▸ h.nodup t
    have hfilter : (H t).filter (· ∉ old ++ new) = if e ∈ old then [] else [e] := by
      have hne : e ∉ new := fun hm =>
        List.disjoint_of_nodup_append hnod hm List.mem_cons_self
      rw [hH', List.filter_append, List.filter_eq_nil_iff.2 (fun x hx => by simp [hx])]
      by_cases heo : e ∈ old
      · simp [heo]
      · simp [heo, hne]
    rw [hfilter] at hk
    have he : e ∈ (c₁.unmark (old ++ new)).listReady := hready e (by simp)
    cases hs
    by_cases heo : e ∈ old
    · rw [if_pos heo] at hk ⊢
      refine ⟨hk.of_acquire hl, nofun, fun u hu => ?_, nofun⟩
      obtain rfl := List.mem_singleton.1 hu
      exact hok.old u heo
    · rw [if_neg heo] at hk ⊢
      refine ⟨hk.of_acquire hl, fun x hx => ?_, nofun, nofun⟩
      obtain rfl := List.mem_singleton.1 hx
      exact he
  | last old new g =>
    cases hs
    obtain ⟨hk, hr, hents⟩ := Flush.list_keeps (r := (g.step c io).2) h hH
      (fun x hx => hx) (hok.list g rfl) htidy rfl
    cases hstep : (g.step c io).2 with
    | wait g' =>
      refine ⟨hk, fun x hx => (hr x).2 (hok.ready x hx), hok.old, fun y hy x hx => ?_⟩
      cases hy
      rw [hents g' hstep] at hx
      exact hok.list g rfl x hx
    | ret b => exact ⟨hk, fun x hx => (hr x).2 (hok.ready x hx), hok.old, nofun⟩
    | fault => exact ⟨hk, trivial⟩
  | lastDone old new =>
    obtain ⟨c₁, hl, hs⟩ := Option.map_eq_some_iff.1 hs
    have h₁ := h.acquire hl
    have hH' : H t = new := hH
    have hready : ∀ x ∈ new, x ∈ c₁.listReady :=
      fun x hx => (acquire_same hl x).ready.2 (hok.ready x hx)
    have hk : Keeps t H ((H t).filter (· ∉ old ++ new)) [] c₁ (c₁.unmark (old ++ new)) :=
      Flush.unmark_keeps h₁ (fun x hx => ⟨by rw [hH']; exact hx, hready x hx⟩) hok.old htidy
    have hnil : (H t).filter (· ∉ old ++ new) = [] := by
      rw [hH']
      exact List.filter_eq_nil_iff.2 fun x hx => by simp [hx]
    rw [hnil] at hk
    cases hs
    refine ⟨(hk.unlock t).of_acquire hl, nofun, fun u hu => ?_, nofun⟩
    rcases List.mem_append.1 hu with hu | hu
    · exact hok.old u hu
    · exact h₁.guard_not_listed u (.inl (hready _ hu))
  | check old =>
    obtain ⟨c₁, hl, hs⟩ := Option.map_eq_some_iff.1 hs
    have hk : Keeps t H [] [] c (c₁.unlock t) :=
      ((Keeps.of_acc (h.acquire hl) hH).unlock t).of_acquire hl
    split at hs
    · cases hs
      exact ⟨hk, nofun, hok.old, nofun⟩
    · cases hs
      exact ⟨hk, trivial⟩

/-! ## The other calls -/

theorem putBlock_keeps (h : Accounted c H []) : Keeps t H (H t) [] c (putBlock t k c).1 := by
  unfold putBlock
  split
  · exact (Keeps.refl h).unlock t
  · exact (Keeps.refl h).unlock t
  · rename_i e hl
    split
    · exact .refl h
    · exact (Keeps.of_found h hl (h.unhold (lookup_found h hl).2.2.2)
        fun x hx => .unhold hx).unlock t

/-- A call that holds nothing before and after the step. -/
theorem Keeps.free_call {pc : Pc α} (h : Keeps t H (H t) [] c c') (hH : H t = [])
    (hheld : pc.held t = []) (hok : pc.Ok c') : Keeps t H (pc.held t) [] c c' ∧ pc.Ok c' :=
  ⟨by rw [hheld]; exact hH ▸ h, hok⟩

theorem writeEmpty_keeps {data : List α} {i : Nat} {x : α} {g : GetEmpty}
    {p : Cache α × Res GetEmpty (Option Ent)} {pc : Pc α} (h : GivesEmpty t H [] c p.1 p.2)
    (hH : H t = g.held) (hs : writeEmpty t k data i x g p = (c', pc)) :
    Keeps t H (pc.held t) [] c c' ∧ pc.Ok c' := by
  obtain ⟨c₁, r⟩ := p
  cases r with
  | wait g' =>
    cases hs
    exact ⟨h.keeps, h.ok g' rfl⟩
  | fault =>
    cases hs
    have hk : Keeps t H (H t) [] c c' := h.keeps
    exact ⟨hH ▸ hk, trivial⟩
  | ret o =>
    have hk : Keeps t H [] [] c c₁ := h.keeps
    cases o with
    | none =>
      cases hs
      exact ⟨hk.unlock t, trivial⟩
    | some e =>
      unfold writeEmpty at hs
      dsimp only at hs
      split at hs
      · cases hs
        exact ⟨hk, trivial⟩
      · cases hs
        obtain ⟨hl, hbusy⟩ := h.found e rfl
        have ha : Accounted ((c₁.store e x).unhold e) _ [] := (hk.acc.store x).unhold hl
        refine ⟨⟨ha, fun u hu y hy => (hk.frame u hu y hy).trans ?_⟩, trivial⟩
        have hne : y ≠ e := by
          rintro rfl
          have hy' : y ∈ update H t [] u := by rwa [update_of_ne hu]
          have := ((hk.acc.inOrder y).held u hy').1
          rw [show (c₁.ent y).busy = false from hbusy] at this
          cases this
        exact (SameAt.store hne x).trans (.unhold hne)

theorem ReadBlock.step_keeps {buf : List α} {i : Nat} {r : ReadBlock} {pc : Pc α}
    (h : Accounted c H []) (hH : H t = (Pc.read k buf i r).held t)
    (hok : (Pc.read k buf i r).Ok c) (hs : r.step t k buf i c fate = some (c', pc)) :
    Keeps t H (pc.held t) [] c c' ∧ pc.Ok c' := by
  cases r with
  | lookup =>
    rw [ReadBlock.step] at hs
    split at hs
    · cases hs
      exact ⟨.of_acc h hH, trivial⟩
    · obtain ⟨c₁, hl, hs⟩ := Option.map_eq_some_iff.1 hs
      have h₁ := h.acquire hl
      have hk : Keeps t H [] [] c₁ (c₁.unlock t) := (Keeps.of_acc h₁ hH).unlock t
      split at hs
      · cases hs
        exact ⟨hk.of_acquire hl, trivial⟩
      · rename_i e hfound
        cases hs
        have hk := Keeps.of_found (t := t) h₁ hfound (h₁.touch (lookup_found h₁ hfound).2.2.2)
          fun x hx => .touch hx
        exact ((hk.unlock t).of_acquire hl).free_call hH rfl trivial
      · cases hs
        exact ⟨hk.of_acquire hl, trivial⟩
  | get g =>
    obtain ⟨p, hp, hs⟩ := Option.map_eq_some_iff.1 hs
    obtain ⟨c₁, x⟩ := p
    have hg := GetBlock.step_gives h hH hok hp
    cases hs
    cases x with
    | wait g' => exact ⟨hg.keeps, hg.ok g' rfl⟩
    | ret o => cases o <;> exact ⟨hg.keeps, trivial⟩
    | fault => exact ⟨hH ▸ hg.keeps, trivial⟩
  | copy e =>
    cases hs
    exact ⟨.of_acc h hH, trivial⟩
  | put =>
    rw [ReadBlock.step] at hs
    split at hs
    · cases hs
      exact ⟨.of_acc h hH, trivial⟩
    · obtain ⟨c₁, hl, hs⟩ := Option.map_eq_some_iff.1 hs
      cases hs
      have hk := (putBlock_keeps (t := t) (k := k.add i) (h.acquire hl)).of_acquire hl
      cases (putBlock t (k.add i) c₁).2 <;> exact hk.free_call hH rfl trivial

theorem WriteBlock.step_keeps {data : List α} {i : Nat} {w : WriteBlock} {pc : Pc α}
    (h : Accounted c H []) (hH : H t = (Pc.write k data i w).held t)
    (hok : (Pc.write k data i w).Ok c) (hs : w.step t k data i c fate = some (c', pc)) :
    Keeps t H (pc.held t) [] c c' ∧ pc.Ok c' := by
  cases w with
  | lookup =>
    obtain ⟨c₁, hl, hs⟩ := Option.map_eq_some_iff.1 hs
    have h₁ := h.acquire hl
    have hk : Keeps t H [] [] c₁ (c₁.unlock t) := (Keeps.of_acc h₁ hH).unlock t
    split at hs
    · cases hs
      exact ⟨hk.of_acquire hl, trivial⟩
    · rename_i x hx
      split at hs
      · cases hs
        exact ⟨hk.of_acquire hl, trivial⟩
      · rename_i e hfound
        cases hs
        have hk := Keeps.of_found (t := t) h₁ hfound (h₁.store x) fun y hy => .store hy x
        exact (hk.of_acquire hl).free_call hH rfl trivial
      · have hg : GivesEmpty t H [] c₁ (c₁.doGetEmptyCacheEntry t (k.add i) fate.malloc).1
            (c₁.doGetEmptyCacheEntry t (k.add i) fate.malloc).2 := by
          have hg := doGetEmptyCacheEntry_gives (t := t) h₁
            (Prod.eta (c₁.doGetEmptyCacheEntry t (k.add i) fate.malloc)).symm
          have hnil : H t = [] := hH
          rw [hnil] at hg
          exact hg
        have hnone : H t = GetEmpty.lookup.held := hH
        obtain ⟨hk, hok'⟩ := writeEmpty_keeps hg hnone hs
        exact ⟨hk.of_acquire hl, hok'⟩
  | empty g =>
    obtain ⟨x, hx, hs⟩ := Option.bind_eq_some_iff.1 hs
    obtain ⟨p, hp, hs⟩ := Option.map_eq_some_iff.1 hs
    exact writeEmpty_keeps (GetEmpty.step_gives h hH hok hp) hH hs

/-- A flag or the content of an entry that was found changes. -/
theorem Keeps.of_found_modify (h : Accounted c H []) (hl : c.lookupCacheEntry k = .found e)
    {f : Entry α → Entry α}
    (hf : ∀ x, (f x).key = x.key ∧ (f x).ref = x.ref ∧ (f x).busy = x.busy) :
    Keeps t H (H t) [] c (c.modify [e] f) :=
  .of_found h hl (h.modify hf) fun _ hx => .modify f (List.mem_singleton.not.2 hx)

theorem readPatchStep_keeps {buf : List α} {i : Nat} {ok : Bool} {pc : Pc α}
    (h : Accounted c H []) (hH : H t = []) (hs : readPatchStep t k buf i ok c = some (c', pc)) :
    Keeps t H (pc.held t) [] c c' ∧ pc.Ok c' := by
  obtain ⟨c₁, hl, hs⟩ := Option.map_eq_some_iff.1 hs
  have h₁ := h.acquire hl
  have hk : Keeps t H [] [] c c₁ := (Keeps.of_acc h₁ hH).of_acquire hl
  split at hs
  · cases hs
    exact ⟨hk.unlock t, trivial⟩
  · split at hs
    · cases hs
      exact ⟨hk.unlock t, trivial⟩
    · cases hs
      exact ⟨hk, trivial⟩
    · rename_i e hfound
      cases hs
      have hk : Keeps t H (H t) [] c (c₁.modify [e] fun x => { x with dirty := false }) :=
        .of_acquire hl (.of_found_modify h₁ hfound fun _ => ⟨rfl, rfl, rfl⟩)
      exact hk.free_call hH rfl trivial

theorem writePatchStep_keeps {data : List α} {i : Nat} {ok : Bool} {pc : Pc α}
    (h : Accounted c H []) (hH : H t = [])
    (hs : writePatchStep t k data i ok c = some (c', pc)) :
    Keeps t H (pc.held t) [] c c' ∧ pc.Ok c' := by
  obtain ⟨c₁, hl, hs⟩ := Option.map_eq_some_iff.1 hs
  have h₁ := h.acquire hl
  have hk : Keeps t H [] [] c c₁ := (Keeps.of_acc h₁ hH).of_acquire hl
  split at hs
  · cases hs
    exact ⟨hk.unlock t, trivial⟩
  · split at hs
    · cases hs
      exact ⟨hk.unlock t, trivial⟩
    · cases hs
      exact ⟨hk, trivial⟩
    · rename_i x _ _ e hfound
      cases hs
      have hk : Keeps t H (H t) [] c (c₁.modify [e] fun y => { y with data := x, dirty := false }) :=
        .of_acquire hl (.of_found_modify h₁ hfound fun _ => ⟨rfl, rfl, rfl⟩)
      exact hk.free_call hH rfl trivial

theorem readPhysStep_keeps (k : Key) (buf : List α) (io : Io) (h : Accounted c H [])
    (hH : H t = []) :
    Keeps t H ((readPhysStep k buf c io).2.held t) [] c (readPhysStep k buf c io).1 ∧
      (readPhysStep k buf c io).2.Ok (readPhysStep k buf c io).1 := by
  unfold readPhysStep
  dsimp only
  split <;> exact ⟨.of_acc h hH, trivial⟩

theorem writePhysStep_keeps (k : Key) (data : List α) (io : Io) (h : Accounted c H [])
    (hH : H t = []) :
    Keeps t H ((writePhysStep k data c io).2.held t) [] c (writePhysStep k data c io).1 ∧
      (writePhysStep k data c io).2.Ok (writePhysStep k data c io).1 := by
  have hk : Keeps t H [] [] c c := .of_acc h hH
  unfold writePhysStep
  dsimp only
  split
  · exact ⟨hk, trivial⟩
  · split
    · exact ⟨hk, trivial⟩
    · exact ⟨hk.of_same (hk.acc.of_eq rfl rfl rfl rfl rfl rfl rfl)
        fun x => .of_eq x rfl rfl rfl rfl, trivial⟩

theorem releaseDone_keeps {p : Cache α × Res Release Int} {pc : Pc α}
    (hk : Keeps t H (p.2.holds (fun r => r.held) [] held) [] c p.1)
    (hok : ∀ x, p.2 = .wait x → x.Ok p.1) (hs : releaseDone t held p = (c', pc)) :
    Keeps t H (pc.held t) [] c c' ∧ pc.Ok c' := by
  obtain ⟨c₁, r⟩ := p
  cases r with
  | wait r =>
    cases hs
    exact ⟨hk, hok r rfl⟩
  | ret i =>
    have hk : Keeps t H [] [] c c₁ := hk
    cases hs
    exact ⟨hk.unlock t, trivial⟩
  | fault =>
    cases hs
    exact ⟨hk, trivial⟩

/-- `discard_block_cache` while nobody holds an entry. -/
theorem discardBlockCache_accounted (h : Accounted c H []) (hH : ∀ u, H u = [])
    (hs : c.discardBlockCache = some c') : Accounted c' H [] := by
  obtain ⟨c₂, hf, rfl⟩ := Option.map_eq_some_iff.1 hs
  obtain ⟨c₁, hf₁, hf₂⟩ := Option.bind_eq_some_iff.1 hf
  have hheld : ∀ e u, e ∈ H u → u = 0 := fun e u hu => by simp [hH u] at hu
  have hnil : ∀ l : List Ent, update H 0 ((H 0).filter (· ∉ l)) = H := fun l => by
    rw [hH 0, List.filter_nil, ← hH 0, update_eq_self]
  obtain ⟨h₁, -⟩ := h.freeAll (fun e he => .inl he) h.nodup_ready (fun e _ => hheld e) hf₁
  rw [hnil] at h₁
  obtain ⟨h₂, -⟩ := h₁.freeAll (fun e he => .inr he) h₁.nodup_lockdown (fun e _ => hheld e) hf₂
  rw [hnil] at h₂
  refine ⟨h₂.perm, h₂.count, nofun, h₂.nodup, fun e => ?_⟩
  have ho := h₂.inOrder e
  refine ⟨ho.ready_ref, ho.lockdown_ref, ?_, fun hn => absurd rfl hn, ho.held, ho.busy, ho.one⟩
  rintro ⟨table, htab, -⟩
  cases htab

/-! ## A step of the machine -/

/-- No entry another thread holds is flushed and made free by a call that has
it left over from an earlier round, and nobody holds an entry while the cache
is discarded. -/
def Pc.Tidy (t : Tid) (H : Tid → List Ent) : Pc α → Prop
  | flush _ f => ∀ e ∈ f.reused, ∀ u, u ≠ t → e ∉ H u
  | discard => ∀ u, H u = []
  | _ => True

theorem Pc.step_keeps {pc pc' : Pc α} (h : Accounted c H []) (hH : H t = pc.held t)
    (hok : pc.Ok c) (htidy : pc.Tidy t H) (hs : pc.step t c fate = some (c', pc')) :
    Keeps t H (pc'.held t) [] c c' ∧ pc'.Ok c' := by
  cases pc with
  | idle r => cases hs
  | halt l => cases hs
  | get k g =>
    obtain ⟨⟨c₁, x⟩, hp, hs⟩ := Option.map_eq_some_iff.1 hs
    have hg := GetBlock.step_gives h hH hok hp
    cases hs
    cases x with
    | wait g' => exact ⟨hg.keeps, hg.ok g' rfl⟩
    | ret o => exact ⟨hg.keeps, trivial⟩
    | fault => exact ⟨hH ▸ hg.keeps, trivial⟩
  | put k =>
    rw [Pc.step] at hs
    split at hs
    · cases hs
      exact ⟨.of_acc h hH, trivial⟩
    · obtain ⟨c₁, hl, hs⟩ := Option.map_eq_some_iff.1 hs
      cases hs
      have hk := (putBlock_keeps (t := t) (k := k) (h.acquire hl)).of_acquire hl
      cases (putBlock t k c₁).2 <;> exact hk.free_call hH rfl trivial
  | read k buf i r => exact ReadBlock.step_keeps h hH hok hs
  | readPhys k buf =>
    have hr := readPhysStep_keeps k buf fate.io h hH
    rw [show readPhysStep k buf c fate.io = (c', pc') from Option.some.inj hs] at hr
    exact hr
  | readPatch k buf i ok => exact readPatchStep_keeps h hH hs
  | write k data i w => exact WriteBlock.step_keeps h hH hok hs
  | writePhys k data =>
    have hr := writePhysStep_keeps k data fate.io h hH
    rw [show writePhysStep k data c fate.io = (c', pc') from Option.some.inj hs] at hr
    exact hr
  | writePatch k data i ok => exact writePatchStep_keeps h hH hs
  | flush wait f => exact Flush.step_keeps h hH hok htidy hs
  | evict =>
    obtain ⟨c₁, hl, hs⟩ := Option.map_eq_some_iff.1 hs
    have hH' : H t = [] := hH
    obtain ⟨hk, hok'⟩ := releaseCacheEntrys_keeps (t := t) (h.acquire hl)
      (Prod.eta (c₁.releaseCacheEntrys t)).symm
    rw [hH'] at hk
    exact releaseDone_keeps (hk.of_acquire hl) hok' hs
  | writeback =>
    obtain ⟨c₁, hl, hs⟩ := Option.map_eq_some_iff.1 hs
    have hH' : H t = [] := hH
    obtain ⟨hk, hok'⟩ := cacheWriteback_keeps (t := t) (h.acquire hl)
      (Prod.eta (c₁.cacheWriteback t)).symm
    rw [hH'] at hk
    exact releaseDone_keeps (hk.of_acquire hl) hok' hs
  | release r =>
    obtain ⟨p, hp, hs⟩ := Option.map_eq_some_iff.1 hs
    have hH' : H t = [] ++ r.held := hH
    obtain ⟨hk, hok'⟩ := Release.step_keeps h hH' hok hp
    have hr : H t = r.held := hH
    rw [hr] at hk
    exact releaseDone_keeps hk hok' hs
  | discard =>
    rw [Pc.step] at hs
    split at hs
    · cases hs
      exact ⟨.of_acc h hH, trivial⟩
    · obtain ⟨c₁, hl, hs⟩ := Option.map_eq_some_iff.1 hs
      split at hs
      · cases hs
        exact ⟨(Keeps.of_acc (h.acquire hl) hH).of_acquire hl, trivial⟩
      · rename_i c₂ hd
        cases hs
        have ha := discardBlockCache_accounted (h.acquire hl) htidy hd
        refine ⟨⟨?_, fun u _ x hx => ?_⟩, trivial⟩
        · exact (Keeps.of_acc (ha.unlock t) hH).acc
        · simp [htidy u] at hx

/-- Every entry is accounted for, and every thread can rely on what it holds. -/
structure State.Accounted (s : State α) : Prop where
  acc : Sdmmc.Accounted s.cache s.held []
  ok : ∀ t, (s.pc t).Ok s.cache

/-- The step is tidy in the state before it. -/
def TidyStep (s : State α) (i : Input α) : Prop :=
  match i.act with
  | .call _ => True
  | .go _ => (s.pc i.tid).Tidy i.tid s.held

theorem Pc.Ok.congr {pc : Pc α} (h : pc.Ok c) (hs : ∀ x ∈ pc.held t, SameAt c c' x) :
    pc.Ok c' := by
  cases pc with
  | get k g => exact GetBlock.Ok.congr h hs
  | read k buf i r =>
    cases r with
    | get g => exact GetBlock.Ok.congr h hs
    | _ => trivial
  | write k data i w =>
    cases w with
    | empty g => exact GetEmpty.Ok.congr h hs
    | lookup => trivial
  | flush wait f => exact Flush.Ok.congr h hs
  | release r => exact Release.Ok.congr h hs
  | _ => trivial

theorem start_held (x : Call α) : x.start.held t = [] ∧ x.start.Ok c := by
  cases x with
  | read k buf =>
    unfold Call.start
    dsimp only
    split <;> exact ⟨rfl, trivial⟩
  | write k data =>
    unfold Call.start
    dsimp only
    split <;> exact ⟨rfl, trivial⟩
  | flush wait => exact ⟨rfl, nofun, nofun, nofun⟩
  | _ => exact ⟨rfl, trivial⟩

theorem next_accounted {s s' : State α} {i : Input α} (h : s.Accounted) (htidy : TidyStep s i)
    (hs : next s i = some s') : s'.Accounted := by
  obtain ⟨t, act⟩ := i
  cases act with
  | call x =>
    unfold next at hs
    dsimp only at hs
    split at hs
    · rename_i r hpc
      cases hs
      have hheld : State.held { s with pc := update s.pc t x.start } = s.held := by
        funext u
        unfold State.held
        by_cases hu : u = t
        · subst hu
          rw [hpc]
          simp only [update_self]
          exact (start_held (c := s.cache) x).1
        · simp only [update_of_ne hu]
      refine ⟨hheld ▸ h.acc, fun u => ?_⟩
      by_cases hu : u = t
      · subst hu
        simp only [update_self]
        exact (start_held (t := u) x).2
      · simp only [update_of_ne hu]
        exact h.ok u
    · cases hs
  | go fate =>
    obtain ⟨⟨c₁, pc⟩, hstep, hs⟩ := Option.map_eq_some_iff.1 hs
    cases hs
    obtain ⟨hk, hok⟩ := Pc.step_keeps h.acc rfl (h.ok t) htidy hstep
    have hheld : State.held { cache := c₁, pc := update s.pc t pc } =
        update s.held t (pc.held t) := by
      funext u
      unfold State.held
      by_cases hu : u = t
      · subst hu
        simp only [update_self]
      · simp only [update_of_ne hu]
    refine ⟨hheld ▸ hk.acc, fun u => ?_⟩
    by_cases hu : u = t
    · subst hu
      simp only [update_self]
      exact hok
    · simp only [update_of_ne hu]
      exact (h.ok u).congr (hk.frame u hu)

theorem init_accounted (size : Nat) (disk : Key → α) (mem : Ent → Entry α) :
    (init size disk mem).Accounted := by
  refine ⟨⟨.refl _, rfl, ?_, fun _ => List.nodup_nil, fun e => ?_⟩, fun _ => trivial⟩
  · intro table htab b
    obtain rfl := Option.some.inj htab
    exact ⟨List.nodup_nil, nofun⟩
  · refine .loose (by rintro (h | h) <;> cases h) ?_ fun _ => List.not_mem_nil
    rintro ⟨table, htab, hm⟩
    obtain rfl := Option.some.inj htab
    cases hm

/-- The entries are accounted for in every run whose steps are tidy. -/
theorem accounted_run {s s' : State α} {is : List (Input α)} (h : s.Accounted)
    (hm : (machine α).Meets TidyStep s is) (hr : (machine α).run s is = some s') :
    s'.Accounted :=
  Machine.run_inv (fun _ _ _ h hc hs => next_accounted h hc hs) h hm hr

/-! ## One call after another -/

/-- Every other thread is between two calls. -/
def Alone (s : State α) (i : Input α) : Prop := ∀ u, u ≠ i.tid → ∃ r, s.pc u = .idle r

theorem Alone.tidy {s : State α} {i : Input α} (h : Alone s i) : TidyStep s i := by
  obtain ⟨t, act⟩ := i
  have hnil : ∀ u, u ≠ t → s.held u = [] := by
    intro u hu
    obtain ⟨r, hr⟩ := h u hu
    unfold State.held
    rw [hr]
    rfl
  cases act with
  | call x => trivial
  | go fate =>
    unfold TidyStep
    dsimp only
    cases hpc : s.pc t with
    | flush wait f =>
      intro e _ u hu
      rw [hnil u hu]
      exact List.not_mem_nil
    | discard =>
      intro u
      by_cases hu : u = t
      · subst hu
        unfold State.held
        rw [hpc]
        rfl
      · exact hnil u hu
    | _ => trivial

/-- The entries of the heap are each on one list, where their reference count
belongs, the free entries are counted, and the hash table has the entries in
the buckets of their keys and none that is free. -/
structure Cache.Accounts (c : Cache α) : Prop where
  one : ∀ e ∈ c.heapEnts,
    c.freeEntsList.count e + c.listReady.count e + c.listLockdown.count e = 1
  ready : ∀ e ∈ c.listReady, (c.ent e).ref = 0
  lockdown : ∀ e ∈ c.listLockdown, 0 < (c.ent e).ref
  count : c.freeEnts = c.freeEntsList.length
  hashed : ∀ table, c.hashTable = some table → ∀ b, ∀ e ∈ table b,
    b = cacheEntryHash (c.key e) ∧ e ∉ c.freeEntsList

theorem Accounted.accounts (h : Accounted c H []) : c.Accounts where
  one e he := by
    have hc := h.perm.count_eq e
    rw [List.count_eq_one_of_mem (heapEnts_nodup c) he] at hc
    simp only [List.nil_append, List.count_append] at hc
    omega
  ready e := (h.inOrder e).ready_ref
  lockdown e := (h.inOrder e).lockdown_ref
  count := h.count
  hashed table htab b e he := by
    have hb := (h.table table htab b).2 e he
    exact ⟨hb, fun hf => h.not_hashed (.inr hf) ⟨table, htab, hb ▸ he⟩⟩

theorem next_idle {s s' : State α} {i : Input α} (h : Alone s i) (hs : next s i = some s') :
    ∀ u, u ≠ i.tid → ∃ r, s'.pc u = .idle r := by
  obtain ⟨t, act⟩ := i
  intro u hu
  obtain ⟨r, hr⟩ := h u hu
  refine ⟨r, ?_⟩
  cases act with
  | call x =>
    unfold next at hs
    dsimp only at hs
    split at hs
    · cases hs
      exact (update_of_ne hu ..).trans hr
    · cases hs
  | go fate =>
    obtain ⟨⟨c₁, pc⟩, -, hs⟩ := Option.map_eq_some_iff.1 hs
    cases hs
    exact (update_of_ne hu ..).trans hr

/-- One thread on its own makes its calls one after another. -/
theorem meets_alone {s : State α} {is : List (Input α)} (hidle : ∀ u, u ≠ t → ∃ r, s.pc u = .idle r)
    (ht : ∀ i ∈ is, i.tid = t) : (machine α).Meets Alone s is := by
  induction is generalizing s with
  | nil => trivial
  | cons i is ih =>
    obtain ⟨rfl, ht⟩ := List.forall_mem_cons.1 ht
    exact ⟨hidle, fun s' hs => ih (next_idle hidle hs) ht⟩

/-- A cache of three entries over a device of zeros. -/
def blank : State Nat := init 2 (fun _ => 0) fun _ => ⟨⟨0, 0⟩, false, false, 0, 0⟩

/-- The thread goes on and nothing fails. -/
def smooth (t : Tid) : Input Nat := ⟨t, .go ⟨.ok, true⟩⟩

/-- A block is written, a write-back pass fails on the device, and an eviction
frees the entry. -/
def writeAndEvict : List (Input Nat) :=
  [⟨0, .call (.write ⟨1, 0⟩ [7])⟩, smooth 0, smooth 0,
    ⟨0, .call .writeback⟩, smooth 0, smooth 0, ⟨0, .go ⟨.stops 0, true⟩⟩, smooth 0, smooth 0,
    ⟨0, .call .evict⟩, smooth 0]

end Melis.Sdmmc
