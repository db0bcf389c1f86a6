import Melis.Libcore.PoolSteps

/-!
# Calls of a pool

What `AwPalloc`, `AwPfree` and `AwRealloc` do with the regions in use of a pool that is not
locked, and that `AwPoolDestroy` returns all its blocks.
-/

namespace Melis.Libcore

open Lib Function

section

variable {s s' : AwPool} {new : List Nat} {d x y m a n size : Nat} {v : PoolDataS}
  {pm : Nat → PoolMemoryS}

/-- What every operation keeps. -/
structure Sound (s s' : AwPool) : Prop where
  inv : PoolInv s' []
  current : Current s'
  held : s'.held = s.held
  misused : s'.misused = s.misused

theorem PoolInv.fromCurrent (h : PoolInv s new) (hc : Current s) :
    ∃ A B, s.pdList = A ++ s.current :: B ∧ fromNode s.pdList s.current = s.current :: B ∧
      ∀ d ∈ s.current :: B, (s.pd d).failed ≤ 5 := by
  obtain ⟨A, B, heq, hall⟩ := hc
  have hnodup := h.data_nodup
  rw [heq, List.nodup_append] at hnodup
  have hA : s.current ∉ A := fun hmem => hnodup.2.2 _ hmem _ List.mem_cons_self rfl
  refine ⟨A, B, heq, ?_, hall⟩
  conv_lhs => rw [heq]
  exact fromNode_append hA

/-- A fresh block is none of the pool's. -/
theorem PoolInv.fresh_notMem (h : PoolInv s []) (hfresh : Fresh s.heap m n) (hn : 0 < n) :
    m ≠ s.base ∧ m ∉ s.pdList ∧ m ∉ s.largeList := by
  have hno : ∀ k, 0 < k → (m, k) ∉ s.heap := by
    intro k hk hmem
    have := hfresh.2.2.2 _ hmem
    dsimp only at this
    omega
  refine ⟨fun heq => hno 1024 (by decide) ?_, fun hmem => hno POOL_BLOCK_SIZE (by decide) ?_,
    fun hmem => hno ((s.pm m).size + sizeofPm) (Nat.succ_pos _) (h.large_block hmem)⟩
  · exact (h.mem_heap _ _).2 (.inl ⟨heq, rfl⟩)
  · exact h.block hmem

/-! ## A new block -/

def newData (m : Nat) : PoolDataS :=
  { last := m + AwAlign sizeofPd 8, end_ := m + POOL_BLOCK_SIZE, pmList := [], ref := 1,
    failed := 0 }

theorem newData_ok (hm : m % 8 = 0) : DataOk pm m (newData m) := by
  refine ⟨rfl, Nat.le_refl _, Nat.add_le_add_left (by decide) m, ?_, ?_, rfl⟩
  · show (m + 32) % 8 = 0
    omega
  · exact fun x hx => nomatch hx

theorem PoolInv.mallocData (h : PoolInv s []) (hfresh : Fresh s.heap m POOL_BLOCK_SIZE) :
    PoolInv { s with heap := insert (m, POOL_BLOCK_SIZE) s.heap, pd := update s.pd m v } [m] := by
  obtain ⟨hbase, hdata, hlarge⟩ := h.fresh_notMem hfresh (by decide)
  have hne : ∀ {d}, d ∈ s.pdList → d ≠ m := fun hd heq => hdata (heq ▸ hd)
  refine ⟨h.heap_ok.insert hfresh, fun a n => ?_, ?_, fun d hd => ?_, fun d hd => ?_, h.large⟩
  · rw [Finset.mem_insert, h.mem_heap, Prod.mk.injEq, List.nil_append, List.singleton_append,
      List.mem_cons, or_and_right]
    simp only [← or_assoc]
    rw [or_comm (a := a = m ∧ n = POOL_BLOCK_SIZE)]
  · have hnodup := h.nodup
    simp only [List.nil_append, List.nodup_cons, List.mem_cons,
      List.cons_append, List.mem_append, not_or] at hnodup ⊢
    exact ⟨⟨Ne.symm hbase, hnodup.1⟩, ⟨hdata, hlarge⟩, hnodup.2⟩
  · dsimp only
    rw [update_of_ne (hne hd)]
    exact h.data d hd
  · dsimp only
    rw [update_of_ne (hne hd)]
    exact h.pos d hd

/-- The new block is linked and becomes the current one or stands behind it. -/
theorem PoolInv.link {c : Nat} (h : PoolInv s [m]) (hv : DataOk s.pm m (s.pd m))
    (hpos : 0 < (s.pd m).ref) :
    PoolInv { s with pdList := s.pdList ++ [m], current := c } [] := by
  refine ⟨h.heap_ok, fun a n => ?_, ?_, fun d hd => ?_, fun d hd => ?_, h.large⟩
  · rw [h.mem_heap, List.nil_append]
    simp only [List.mem_append, List.mem_singleton, or_comm]
  · have hperm : (s.pdList ++ [m] ++ s.largeList).Perm ([m] ++ s.pdList ++ s.largeList) :=
      List.perm_append_comm.append_right _
    exact (hperm.cons s.base).nodup_iff.2 h.nodup
  · rcases List.mem_append.1 hd with hd | hd
    · exact h.data d hd
    · obtain rfl := List.mem_singleton.1 hd
      exact hv
  · rcases List.mem_append.1 hd with hd | hd
    · exact h.pos d hd
    · obtain rfl := List.mem_singleton.1 hd
      exact hpos

theorem live_mallocData {heap : Finset (Nat × Nat)} (hm : m ∉ s.pdList) :
    Live { s with heap, pd := update s.pd m v } x ↔ Live s x := by
  refine or_congr_right (exists_congr fun d => and_congr_right fun hd => ?_)
  have hne : d ≠ m := fun heq => hm (heq ▸ hd)
  dsimp only
  rw [update_of_ne hne]

theorem live_link {c : Nat} (hnil : (s.pd m).pmList = []) :
    Live { s with pdList := s.pdList ++ [m], current := c } x ↔ Live s x := by
  refine or_congr_right ⟨?_, ?_⟩
  · rintro ⟨d, hd, hx⟩
    rcases List.mem_append.1 hd with hd | hd
    · exact ⟨d, hd, hx⟩
    · obtain rfl := List.mem_singleton.1 hd
      dsimp only at hx
      rw [hnil] at hx
      cases hx
  · rintro ⟨d, hd, hx⟩
    exact ⟨d, List.mem_append_left _ hd, hx⟩

theorem place_sound (h : PoolInv s []) (hc : Current s) (hd : d ∈ s.pdList)
    (hsize : size ≤ POOL_LARGE_SIZE)
    (hroom : (s.pd d).last + aligned size ≤ d + POOL_BLOCK_SIZE) :
    Sound s (s.place d size).2 ∧ (s.place d size).1 = some ((s.pd d).last + sizeofPm) ∧
      Added s (s.place d size).2 (s.pd d).last size := by
  obtain ⟨hinv, hadded⟩ := place_spec h hd hsize hroom
  rw [place_eq] at hinv hadded ⊢
  exact ⟨⟨hinv, hc.withData id, rfl, rfl⟩, rfl, hadded⟩

/-- What a call that returned `q` did. -/
def Returned (s s' : AwPool) (q : Option Nat) (size : Nat) : Prop :=
  match q with
  | none => (∀ y, Live s' y ↔ Live s y) ∧ s'.pm = s.pm ∧ s'.mem = s.mem
  | some q => ∃ x, q = x + sizeofPm ∧ Added s s' x size

theorem pallocBlock_spec (h : PoolInv s []) (hc : Current s) (hsize : aligned size ≤ 4095) :
    ∃ q s', s.PallocBlock size m = some (q, s') ∧ Sound s s' ∧ Returned s s' q size := by
  unfold AwPool.PallocBlock AwPool.malloc
  by_cases hfresh : Fresh s.heap m POOL_BLOCK_SIZE
  · simp only [if_pos hfresh]
    obtain ⟨hbase, hdata, hlarge⟩ := h.fresh_notMem hfresh (by decide)
    obtain ⟨A, B, hlist, hfrom, hall⟩ := h.fromCurrent hc
    have h₁ := h.mallocData (v := newData m) hfresh
    have hall₁ : ∀ d ∈ s.current :: B, (update s.pd m (newData m) d).failed ≤ 5 := by
      intro d hd
      have hne : d ≠ m := by
        rintro rfl
        apply hdata
        rw [hlist]
        exact List.mem_append_right _ hd
      rw [update_of_ne hne]
      exact hall d hd
    have hlist₁ : s.pdList = A ++ [] ++ s.current :: B := by
      rw [hlist, List.append_nil]
    obtain ⟨cur, s₂, hs₂, h₂, hF, hlive, hpd, A', C', hlist₂, hC', hhead⟩ :=
      countFailed_spec none h₁ hlist₁ (by simp) hall₁ rfl
    have hm : s₂.pd m = newData m := (hpd m hdata).trans (update_self ..)
    have hv : DataOk s₂.pm m (s₂.pd m) := hm ▸ newData_ok hfresh.2.1
    have hpos : 0 < (s₂.pd m).ref := by
      rw [hm]
      exact Int.one_pos
    have h₃ := h₂.link (c := cur.getD s₂.current) hv hpos
    have hc₃ : Current { s₂ with pdList := s₂.pdList ++ [m], current := cur.getD s₂.current } := by
      obtain ⟨B', hB'⟩ : ∃ B', C' ++ [m] = cur.getD s₂.current :: B' := List.head?_eq_some_iff.1 hhead
      refine ⟨A', B', ?_, ?_⟩
      · dsimp only
        rw [hlist₂, List.append_assoc, hB']
      · dsimp only
        rw [← hB']
        intro d hd
        rcases List.mem_append.1 hd with hd | hd
        · exact hC' d hd
        · rw [List.mem_singleton.1 hd, hm]
          exact Int.natCast_nonneg 5
    have hroom : (s₂.pd m).last + aligned size ≤ m + POOL_BLOCK_SIZE := by
      rw [hm]
      show m + 32 + aligned size ≤ m + 8192
      omega
    have hsmall : size ≤ POOL_LARGE_SIZE := by
      have := le_aligned size
      unfold POOL_LARGE_SIZE
      omega
    have hmem₃ : m ∈ s₂.pdList ++ [m] := List.mem_append_right _ List.mem_cons_self
    obtain ⟨hsound, hret, hadded⟩ := place_sound h₃ hc₃ hmem₃ hsmall hroom
    have hlive₃ : ∀ {y}, Live { s₂ with pdList := s₂.pdList ++ [m], current := cur.getD s₂.current } y
        ↔ Live s y := by
      intro y
      have hnil : (s₂.pd m).pmList = [] := by
        rw [hm]
        rfl
      rw [live_link hnil, hlive, live_mallocData hdata]
    rw [← hfrom] at hs₂
    refine ⟨some ((s₂.pd m).last + sizeofPm), _, ?_, ⟨hsound.inv, hsound.current, ?_, ?_⟩, ?_⟩
    · exact Option.bind_eq_some_iff.2 ⟨_, hs₂, congrArg some (Prod.ext hret rfl)⟩
    · exact hsound.held.trans hF.held
    · exact hsound.misused.trans hF.misused
    · refine ⟨_, rfl, ⟨fun hx => hadded.fresh (hlive₃.2 hx), fun y => ?_, fun y hy => ?_,
        hadded.size, hadded.mem.trans hF.mem⟩⟩
      · rw [hadded.live, hlive₃]
      · exact (hadded.pm y hy).trans (congrFun hF.pm y)
  · rw [if_neg hfresh]
    exact ⟨none, s, rfl, ⟨h, hc, rfl, rfl⟩, fun _ => Iff.rfl, rfl, rfl⟩

/-! ## A region grows where it is -/

/-- The region of header `x` has `size` bytes in `s'`. -/
structure Grown (s s' : AwPool) (x size : Nat) : Prop where
  live : ∀ y, Live s' y ↔ Live s y
  pm : ∀ y, y ≠ x → s'.pm y = s.pm y
  size : (s'.pm x).size = size
  mem : s'.mem = s.mem

theorem grow_spec (h : PoolInv s []) (hc : Current s) (hd : d ∈ s.pdList)
    (hx : x ∈ (s.pd d).pmList) (hsize : size ≤ POOL_LARGE_SIZE) (hroom : s.freeSize x ≥ size) :
    Sound s (s.grow x size) ∧ Grown s (s.grow x size) x size := by
  have hdata := h.data d hd
  obtain ⟨hend, hext, hle, hmod, hsmall, href⟩ := hdata
  obtain ⟨howner, -, hx8⟩ := hsmall x hx
  have hd8 := (h.heap_ok.valid _ (h.block hd)).2.1
  have hnodup := (h.data d hd).nodup
  obtain ⟨A, B, hAB⟩ := List.append_of_mem hx
  have hA : x ∉ A := by
    rw [hAB, List.nodup_append] at hnodup
    exact fun hmem => hnodup.2.2 x hmem x List.mem_cons_self rfl
  have hB : x ∉ B := by
    rw [hAB, List.nodup_append, List.nodup_cons] at hnodup
    exact hnodup.2.1.1
  have hnext : nextNode (s.pd d).pmList x = B.head? := by
    rw [hAB, nextNode_append hA]
  obtain ⟨hlo, hhi⟩ := h.header_bounds hd hx
  have hwhere := h.not_elsewhere hd hlo hhi
  have hne : ∀ y, y ≠ x → update s.pm x { s.pm x with size } y = s.pm y :=
    fun y hy => update_of_ne hy _ _
  have hother : ∀ y, Elsewhere s d y → update s.pm x { s.pm x with size } y = s.pm y :=
    fun y hy => hne y fun heq => hwhere (heq ▸ hy)
  have hlen : ∀ {l : List Nat}, x ∉ l → ∀ y ∈ l,
      sizeofPm + (update s.pm x { s.pm x with size } y).size = sizeofPm + (s.pm y).size := by
    intro l hl y hy
    rw [hne y fun heq => hl (heq ▸ hy)]
  have hself : sizeofPm + (update s.pm x { s.pm x with size } x).size = 24 + size := by
    rw [update_self]
  have hsmall' : ∀ y ∈ (s.pd d).pmList,
      (update s.pm x { s.pm x with size } y).owner = some d ∧
        (update s.pm x { s.pm x with size } y).size ≤ POOL_LARGE_SIZE ∧ y % 8 = 0 := by
    intro y hy
    by_cases hyx : y = x
    · subst hyx
      rw [update_self]
      exact ⟨howner, hsize, hx8⟩
    · rw [hne y hyx]
      exact hsmall y hy
  have hgrown : ∀ {v : PoolDataS}, v.pmList = (s.pd d).pmList →
      Grown s (s.withData d v (update s.pm x { s.pm x with size })) x size := by
    intro v hv
    refine ⟨fun y => ?_, hne, ?_, rfl⟩
    · rw [live_withData hd, live_iff hd, hv]
    · rw [withData_pm, update_self]
  unfold AwPool.freeSize at hroom
  simp only [howner, hnext] at hroom
  rw [hAB] at hext
  cases B with
  | nil =>
    have heq : s.grow x size = s.withData d { s.pd d with last := x + aligned size }
        (update s.pm x { s.pm x with size }) := by
      simp [AwPool.grow, AwPool.setPm, AwPool.setPd, AwPool.withData, howner, hnext]
    rw [heq]
    have hroom' : size + 24 ≤ d + 8192 - x := by
      unfold POOL_BLOCK_SIZE sizeofPm at hroom
      dsimp only [List.head?_nil] at hroom
      omega
    have hal := aligned_le (by omega) hroom'
    have hge := le_aligned size
    have hlast : x + aligned size ≤ d + POOL_BLOCK_SIZE := by
      unfold POOL_BLOCK_SIZE at hhi ⊢
      omega
    refine ⟨⟨?_, hc.withData id, rfl, rfl⟩, hgrown rfl⟩
    refine h.withData hother ⟨hend, ?_, hlast, ?_, hsmall', href⟩ (h.pos d hd)
    · dsimp only
      rw [hAB]
      refine hext.stretch_last (hlen hA) ?_
      rw [hself]
      omega
    · have := aligned_mod size
      dsimp only
      omega
  | cons y B =>
    have heq : s.grow x size = s.withData d (s.pd d) (update s.pm x { s.pm x with size }) := by
      simp [AwPool.grow, AwPool.setPm, AwPool.withData, howner, hnext]
    rw [heq]
    refine ⟨⟨?_, hc.withData id, rfl, rfl⟩, hgrown rfl⟩
    refine h.withData hother ⟨hend, ?_, hle, hmod, hsmall', href⟩ (h.pos d hd)
    rw [hAB]
    refine hext.stretch (hlen hA) (hlen hB) ?_
    rw [hself]
    unfold sizeofPm at hroom
    dsimp only [List.head?_cons] at hroom
    omega

/-! ## Large regions -/

theorem pallocLarge_eq (hfresh : Fresh s.heap m (size + sizeofPm)) :
    s.PallocLarge size m = (some (m + sizeofPm),
      { s with
        heap := insert (m, size + sizeofPm) s.heap
        pm := update s.pm m ⟨none, size⟩
        largeList := m :: s.largeList }) := by
  simp [AwPool.PallocLarge, AwPool.malloc, AwPool.setPm, hfresh]

theorem pallocLarge_eq_none (hfresh : ¬ Fresh s.heap m (size + sizeofPm)) :
    s.PallocLarge size m = (none, s) := by
  simp [AwPool.PallocLarge, AwPool.malloc, hfresh]

theorem pallocLarge_spec (size m : Nat) (h : PoolInv s []) (hc : Current s) :
    Sound s (s.PallocLarge size m).2 ∧
      Returned s (s.PallocLarge size m).2 (s.PallocLarge size m).1 size := by
  by_cases hfresh : Fresh s.heap m (size + sizeofPm)
  · rw [pallocLarge_eq hfresh]
    obtain ⟨hbase, hdata, hlarge⟩ := h.fresh_notMem hfresh (Nat.succ_pos _)
    have hapart : ∀ d ∈ s.pdList, m ∉ (s.pd d).pmList := by
      intro d hd hmem
      have hb := hfresh.2.2.2 _ (h.block hd)
      obtain ⟨hlo, hhi⟩ := h.header_bounds hd hmem
      unfold sizeofPm at hb
      dsimp only at hb
      omega
    have hne : ∀ y, y ≠ m → update s.pm m ⟨none, size⟩ y = s.pm y :=
      fun y hy => update_of_ne hy _ _
    have hother : ∀ y ∈ s.largeList, update s.pm m ⟨none, size⟩ y = s.pm y :=
      fun y hy => hne y fun heq => hlarge (heq ▸ hy)
    refine ⟨⟨⟨h.heap_ok.insert hfresh, fun a n => ?_, ?_, fun d hd => ?_, h.pos, fun y hy => ?_⟩,
      hc, rfl, rfl⟩, m, rfl, ?_⟩
    · rw [Finset.mem_insert, h.mem_heap, Prod.mk.injEq]
      simp only [List.mem_cons]
      constructor
      · rintro (⟨rfl, rfl⟩ | hb | hd | ⟨hl, hn⟩)
        · exact .inr (.inr ⟨.inl rfl, by rw [update_self]⟩)
        · exact .inl hb
        · exact .inr (.inl hd)
        · exact .inr (.inr ⟨.inr hl, by rwa [hother a hl]⟩)
      · rintro (hb | hd | ⟨rfl | hl, hn⟩)
        · exact .inr (.inl hb)
        · exact .inr (.inr (.inl hd))
        · rw [update_self] at hn
          exact .inl ⟨rfl, hn⟩
        · rw [hother a hl] at hn
          exact .inr (.inr (.inr ⟨hl, hn⟩))
    · have hnot : m ∉ s.base :: ([] ++ s.pdList ++ s.largeList) := by
        simp only [List.nil_append, List.mem_cons, List.mem_append, not_or]
        exact ⟨hbase, hdata, hlarge⟩
      have hperm : (m :: s.base :: ([] ++ s.pdList ++ s.largeList)).Perm
          (s.base :: ([] ++ s.pdList ++ m :: s.largeList)) :=
        (List.Perm.swap s.base m _).trans (List.perm_middle.symm.cons s.base)
      exact hperm.nodup_iff.1 (List.nodup_cons.2 ⟨hnot, h.nodup⟩)
    · exact (h.data d hd).congr fun y hy => hne y fun heq => hapart d hd (heq ▸ hy)
    · rcases List.mem_cons.1 hy with rfl | hy
      · dsimp only
        rw [update_self]
      · exact (congrArg PoolMemoryS.owner (hother y hy)).trans (h.large y hy)
    · refine ⟨?_, fun y => ?_, hne, ?_, rfl⟩
      · rintro (hm | ⟨d, hd, hm⟩)
        · exact hlarge hm
        · exact hapart d hd hm
      · unfold Live
        rw [List.mem_cons, or_comm (a := y = m), or_right_comm]
      · dsimp only
        rw [update_self]
  · rw [pallocLarge_eq_none hfresh]
    exact ⟨⟨h, hc, rfl, rfl⟩, fun _ => Iff.rfl, rfl, rfl⟩

/-- Header `x` is no more in `s'`. -/
structure Removed (s s' : AwPool) (x : Nat) : Prop where
  live : ∀ y, Live s' y ↔ Live s y ∧ y ≠ x
  pm : s'.pm = s.pm
  mem : s'.mem = s.mem

theorem removeLarge_spec (h : PoolInv s []) (hc : Current s) (hx : x ∈ s.largeList) :
    ∃ s', (s.CdxListDel x).free x = some s' ∧ Sound s s' ∧ Removed s s' x ∧
      s'.pdList = s.pdList ∧ s'.largeList = s.largeList.erase x := by
  have howner := h.large x hx
  have hdel : s.CdxListDel x = { s with largeList := s.largeList.erase x } := by
    unfold AwPool.CdxListDel
    rw [howner]
  have hnodup := h.large_nodup
  have hdata := h.not_both hx
  have hbase : s.base ≠ x := fun heq => h.base_notMem.2 (heq ▸ hx)
  rw [hdel]
  refine ⟨_, free_eq (h.large_block hx), ⟨?_, hc, rfl, rfl⟩, ⟨fun y => ?_, rfl, rfl⟩, rfl, rfl⟩
  · refine ⟨h.heap_ok.subset (Finset.filter_subset _ _), fun a n => ?_, ?_, h.data, h.pos, ?_⟩
    · rw [Finset.mem_filter, h.mem_heap]
      simp only [List.nil_append, hnodup.mem_erase_iff]
      constructor
      · rintro ⟨hb | hd | ⟨hl, hn⟩, hax⟩
        · exact .inl hb
        · exact .inr (.inl hd)
        · exact .inr (.inr ⟨⟨by simpa using hax, hl⟩, hn⟩)
      · rintro (⟨rfl, hn⟩ | ⟨hd, hn⟩ | ⟨⟨hax, hl⟩, hn⟩)
        · exact ⟨.inl ⟨rfl, hn⟩, by simpa using hbase⟩
        · have hax : a ≠ x := fun heq => hdata (heq ▸ hd)
          exact ⟨.inr (.inl ⟨hd, hn⟩), by simpa using hax⟩
        · exact ⟨.inr (.inr ⟨hl, hn⟩), by simpa using hax⟩
    · refine h.nodup.sublist (List.Sublist.cons_cons _ ?_)
      exact (List.Sublist.refl _).append List.erase_sublist
    · exact fun y hy => h.large y (List.mem_of_mem_erase hy)
  · unfold Live
    dsimp only
    rw [hnodup.mem_erase_iff]
    constructor
    · rintro (⟨hne, hy⟩ | ⟨d, hd, hy⟩)
      · exact ⟨.inl hy, hne⟩
      · refine ⟨.inr ⟨d, hd, hy⟩, ?_⟩
        rintro rfl
        obtain ⟨hlo, hhi⟩ := h.header_bounds hd hy
        exact (h.header_unique hd hlo hhi).1 hx
    · rintro ⟨hy | hy, hne⟩
      · exact .inl ⟨hne, hy⟩
      · exact .inr hy

theorem dropRegion_spec (h : PoolInv s []) (hc : Current s) (hd : d ∈ s.pdList)
    (hx : x ∈ (s.pd d).pmList) :
    ∃ s', (s.CdxListDel x).PoolDataDecRef (s.pm x).owner = some s' ∧ Sound s s' ∧
      Removed s s' x := by
  obtain ⟨hend, hext, hle, hmod, hsmall, href⟩ := h.data d hd
  have hnodup := (h.data d hd).nodup
  have howner := (hsmall x hx).1
  have hdel : s.CdxListDel x =
      s.withData d { s.pd d with pmList := (s.pd d).pmList.erase x } s.pm := by
    unfold AwPool.CdxListDel
    rw [howner]
    rfl
  have hlen := List.length_erase_of_mem hx
  have hpos := List.length_pos_of_mem hx
  have hv : DataOk s.pm d { s.pd d with
      pmList := (s.pd d).pmList.erase x
      ref := (s.pd d).ref - 1 } := by
    refine ⟨hend, hext.sublist List.erase_sublist, hle, hmod, fun y hy => ?_, ?_⟩
    · exact hsmall y (List.mem_of_mem_erase hy)
    · dsimp only
      rw [href, hlen]
      omega
  obtain ⟨s', hs', h', hD⟩ :=
    decRef_spec (v := { s.pd d with pmList := (s.pd d).pmList.erase x }) h hd hv
  have hF := hD.frame
  rw [hdel, howner]
  refine ⟨s', hs', ⟨h', hD.current hc rfl, hF.held, hF.misused⟩, fun y => ?_, hF.pm, hF.mem⟩
  obtain ⟨hlo, hhi⟩ := h.header_bounds hd hx
  have hwhere := h.not_elsewhere hd hlo hhi
  rw [hD.live hd, live_iff hd]
  dsimp only
  rw [hnodup.mem_erase_iff]
  constructor
  · rintro (hy | ⟨hne, hy⟩)
    · exact ⟨.inl hy, fun heq => hwhere (heq ▸ hy)⟩
    · exact ⟨.inr hy, hne⟩
  · rintro ⟨hy | hy, hne⟩
    · exact .inl hy
    · exact .inr ⟨hne, hy⟩

/-! ## The calls -/

theorem PoolInv.setHeld (h : PoolInv s new) (b : Bool) : PoolInv { s with held := b } new :=
  ⟨h.heap_ok, h.mem_heap, h.nodup, h.data, h.pos, h.large⟩

theorem lock_eq (hheld : s.held = false) : s.lock = { s with held := true } := by
  unfold AwPool.lock
  rw [hheld]
  rfl

theorem unlock_eq (hheld : s.held = true) : s.unlock = { s with held := false } := by
  unfold AwPool.unlock
  rw [if_pos hheld]

theorem Sound.unlock (hheld : s.held = false) (hs : Sound { s with held := true } s') :
    s'.unlock = { s' with held := false } ∧ Sound s { s' with held := false } :=
  ⟨unlock_eq hs.held, hs.inv.setHeld false, hs.current, hheld.symm, hs.misused⟩

theorem Removed.unlock (h : Removed { s with held := true } s' x) :
    Removed s { s' with held := false } x :=
  ⟨h.live, h.pm, h.mem⟩

theorem Returned.unlock {q : Option Nat} (h : Returned { s with held := true } s' q size) :
    Returned s { s' with held := false } q size := by
  cases q with
  | none => exact h
  | some q =>
    obtain ⟨x, hq, hadded⟩ := h
    exact ⟨x, hq, hadded.fresh, hadded.live, hadded.pm, hadded.size, hadded.mem⟩

theorem findRoom_spec (h : PoolInv s []) (hc : Current s) (hsize : size + 31 < 2 ^ 31)
    (hfind : s.findRoom size = some d) :
    d ∈ s.pdList ∧ (s.pd d).last + aligned size ≤ d + POOL_BLOCK_SIZE := by
  have hroom := List.find?_some hfind
  have hmem := List.mem_of_find?_eq_some hfind
  obtain ⟨A, B, hlist, hfrom, -⟩ := h.fromCurrent hc
  have hd : d ∈ s.pdList := by
    rw [hlist]
    rw [hfrom] at hmem
    exact List.mem_append_right _ hmem
  rw [decide_eq_true_eq, pmSize_eq hsize, (h.data d hd).end_eq] at hroom
  exact ⟨hd, by omega⟩

theorem allocate_spec (h : PoolInv s []) (hc : Current s) (hsize : size + 31 < 2 ^ 31) :
    ∃ q s', s.allocate size m = some (q, s') ∧ Sound s s' ∧ Returned s s' q size := by
  unfold AwPool.allocate
  rw [pmSize_eq hsize]
  by_cases hle : aligned size ≤ POOL_LARGE_SIZE
  · rw [if_pos (Int.ofNat_le.2 hle)]
    have hsmall : size ≤ POOL_LARGE_SIZE := by
      have := le_aligned size
      omega
    cases hfind : s.findRoom size with
    | none => exact pallocBlock_spec h hc hle
    | some d =>
      obtain ⟨hd, hroom⟩ := findRoom_spec h hc hsize hfind
      obtain ⟨hsound, hret, hadded⟩ := place_sound h hc hd hsmall hroom
      exact ⟨some _, _, congrArg some (Prod.ext hret rfl), hsound, _, rfl, hadded⟩
  · rw [if_neg fun hle' => hle (Int.ofNat_le.1 hle')]
    obtain ⟨hsound, hret⟩ := pallocLarge_spec size m h hc
    exact ⟨_, _, rfl, hsound, hret⟩

theorem awPalloc_spec (h : PoolInv s []) (hc : Current s) (hheld : s.held = false)
    (hsize : size + 31 < 2 ^ 31) :
    ∃ q s', s.AwPalloc size m = some (q, s') ∧ Sound s s' ∧ Returned s s' q size := by
  have hc₁ : Current { s with held := true } := hc
  obtain ⟨q, s', hs', hsound, hret⟩ := allocate_spec (m := m) (h.setHeld true) hc₁ hsize
  obtain ⟨hunlock, hsound'⟩ := hsound.unlock hheld
  refine ⟨q, _, ?_, hsound', hret.unlock⟩
  unfold AwPool.AwPalloc
  rw [lock_eq hheld, hs', ← hunlock]
  rfl

/-- Large regions have no owner, and small ones do but for those that the hypothesis leaves out. -/
theorem awPfree_spec (h : PoolInv s []) (hc : Current s) (hheld : s.held = false) (hx : Live s x)
    (hown : (s.pm x).owner = none → (s.pm x).size > POOL_LARGE_SIZE) :
    ∃ s', s.AwPfree (x + sizeofPm) = some s' ∧ Sound s s' ∧ Removed s s' x := by
  have h₁ := h.setHeld true
  have hc₁ : Current { s with held := true } := hc
  unfold AwPool.AwPfree
  rw [lock_eq hheld, Nat.add_sub_cancel]
  dsimp only
  by_cases hsize : (s.pm x).size > POOL_LARGE_SIZE
  · rw [if_pos hsize]
    have hlarge : x ∈ s.largeList := by
      rcases hx with hx | ⟨d, hd, hx⟩
      · exact hx
      · have := ((h.data d hd).small x hx).2.1
        omega
    obtain ⟨s', hs', hsound, hrem, -⟩ := removeLarge_spec h₁ hc₁ hlarge
    obtain ⟨hunlock, hsound'⟩ := hsound.unlock hheld
    refine ⟨_, Option.bind_eq_some_iff.2 ⟨s', hs', ?_⟩, hsound', hrem.unlock⟩
    rw [← hunlock]
    rfl
  · rw [if_neg hsize]
    rcases hx with hx | ⟨d, hd, hx⟩
    · exact absurd (hown (h.large x hx)) hsize
    · obtain ⟨s', hs', hsound, hrem⟩ := dropRegion_spec h₁ hc₁ hd hx
      obtain ⟨hunlock, hsound'⟩ := hsound.unlock hheld
      refine ⟨_, Option.bind_eq_some_iff.2 ⟨s', hs', ?_⟩, hsound', hrem.unlock⟩
      rw [← hunlock]
      rfl

/-- The region of header `x` moved to the new header `y`, with its bytes. -/
structure RegionMoved (s s' : AwPool) (x y size : Nat) : Prop where
  fresh : ¬ Live s y
  live : ∀ z, Live s' z ↔ Live s z ∧ z ≠ x ∨ z = y
  pm : ∀ z, z ≠ y → s'.pm z = s.pm z
  size : (s'.pm y).size = size
  mem : s'.mem = Memory.memcpy s.mem (y + sizeofPm)
    (Memory.load s.mem (List.range' (x + sizeofPm) (s.pm x).size))

/-- What a reallocation of header `x` that returned `q` did. -/
def Realloced (s s' : AwPool) (x : Nat) (q : Option Nat) (size : Nat) : Prop :=
  match q with
  | none => (∀ y, Live s' y ↔ Live s y) ∧ s'.pm = s.pm ∧ s'.mem = s.mem
  | some q => q = x + sizeofPm ∧ Grown s s' x size ∨
      ∃ y, q = y + sizeofPm ∧ RegionMoved s s' x y size

theorem PoolInv.setMem (h : PoolInv s new) (mem : Nat → UInt8) : PoolInv { s with mem } new :=
  ⟨h.heap_ok, h.mem_heap, h.nodup, h.data, h.pos, h.large⟩

theorem moveLarge_spec (h : PoolInv s []) (hc : Current s) (hx : x ∈ s.largeList)
    (hfresh : Fresh s.heap m (size + sizeofPm)) :
    ∃ s', (((s.PallocLarge size m).2.memcpy (m + sizeofPm) (x + sizeofPm)
        (s.pm x).size).CdxListDel x).free x = some s' ∧ Sound s s' ∧ RegionMoved s s' x m size := by
  obtain ⟨hsound, hret⟩ := pallocLarge_spec size m h hc
  have hlist : (s.PallocLarge size m).2.largeList = m :: s.largeList := by
    rw [pallocLarge_eq hfresh]
  rw [pallocLarge_eq hfresh] at hret
  obtain ⟨m', hm', hadded⟩ := hret
  obtain rfl : m = m' := Nat.add_right_cancel hm'
  rw [← pallocLarge_eq hfresh] at hadded
  generalize (s.PallocLarge size m).2 = t at *
  have hxm : x ≠ m := fun heq => hadded.fresh (heq ▸ .inl hx)
  have hx' : x ∈ t.largeList := hlist ▸ List.mem_cons_of_mem m hx
  obtain ⟨s', hs', hsound', hrem, -, -⟩ :=
    removeLarge_spec (s := t.memcpy (m + sizeofPm) (x + sizeofPm) (s.pm x).size)
      (hsound.inv.setMem _) hsound.current hx'
  refine ⟨s', hs', ?_, ?_⟩
  · exact ⟨hsound'.inv, hsound'.current, hsound'.held.trans hsound.held,
      hsound'.misused.trans hsound.misused⟩
  · refine ⟨hadded.fresh, fun z => (hrem.live z).trans ?_, fun z hz => ?_, ?_, ?_⟩
    · rw [show Live (t.memcpy (m + sizeofPm) (x + sizeofPm) (s.pm x).size) z ↔ Live t z from Iff.rfl,
        hadded.live z, or_and_right]
      refine or_congr_right ⟨And.left, fun hz => ⟨hz, ?_⟩⟩
      rw [hz]
      exact hxm.symm
    · rw [hrem.pm]
      exact hadded.pm z hz
    · rw [hrem.pm]
      exact hadded.size
    · rw [hrem.mem]
      unfold AwPool.memcpy
      dsimp only
      rw [hadded.mem]

theorem awRealloc_spec (h : PoolInv s []) (hc : Current s) (hheld : s.held = false)
    (hx : Live s x)
    (hplain : (s.pm x).size > POOL_LARGE_SIZE ∨
      size > POOL_LARGE_SIZE ∧ ¬ Fresh s.heap m (size + sizeofPm) ∨
      size ≤ POOL_LARGE_SIZE ∧ (s.pm x).owner ≠ none ∧ s.freeSize x ≥ size) :
    ∃ q s', s.AwRealloc (x + sizeofPm) size m = some (q, s') ∧ Sound s s' ∧
      Realloced s s' x q size := by
  have h₁ := h.setHeld true
  have hc₁ : Current { s with held := true } := hc
  unfold AwPool.AwRealloc
  rw [lock_eq hheld, Nat.add_sub_cancel]
  dsimp only
  -- `PallocLarge` returned `NULL`
  have failed : ∃ q s', some (none, ({ s with held := true } : AwPool).unlock) = some (q, s') ∧
      Sound s s' ∧ Realloced s s' x q size := by
    obtain ⟨hunlock, hsound⟩ := Sound.unlock hheld ⟨h₁, hc₁, rfl, rfl⟩
    rw [hunlock]
    exact ⟨none, _, rfl, hsound, fun _ => Iff.rfl, rfl, rfl⟩
  by_cases hold : (s.pm x).size > POOL_LARGE_SIZE
  · rw [if_pos hold]
    have hlarge : x ∈ s.largeList := by
      rcases hx with hx | ⟨d, hd, hx⟩
      · exact hx
      · have := ((h.data d hd).small x hx).2.1
        omega
    by_cases hfresh : Fresh s.heap m (size + sizeofPm)
    · obtain ⟨s', hs', hsound, hmoved⟩ := moveLarge_spec h₁ hc₁ hlarge hfresh
      obtain ⟨hunlock, hsound'⟩ := hsound.unlock hheld
      rw [pallocLarge_eq (s := { s with held := true }) hfresh] at hs' ⊢
      refine ⟨some (m + sizeofPm), _, Option.bind_eq_some_iff.2 ⟨s', hs', ?_⟩, hsound', .inr ?_⟩
      · rw [← hunlock]
        rfl
      · exact ⟨m, rfl, hmoved.fresh, hmoved.live, hmoved.pm, hmoved.size, hmoved.mem⟩
    · rw [pallocLarge_eq_none (s := { s with held := true }) hfresh]
      exact failed
  · rw [if_neg hold]
    rcases hplain with hlarge | ⟨hlarge, hfresh⟩ | ⟨hsmall, howner, hroom⟩
    · exact absurd hlarge hold
    · rw [if_pos hlarge, pallocLarge_eq_none (s := { s with held := true }) hfresh]
      exact failed
    · have hroom' : ({ s with held := true } : AwPool).freeSize x ≥ size := hroom
      rw [if_neg (Nat.not_lt.2 hsmall), if_pos hroom']
      rcases hx with hx | ⟨d, hd, hx⟩
      · exact absurd (h.large x hx) howner
      · obtain ⟨hsound, hgrown⟩ := grow_spec h₁ hc₁ hd hx hsmall hroom'
        obtain ⟨hunlock, hsound'⟩ := hsound.unlock hheld
        refine ⟨some (x + sizeofPm), _, ?_, hsound', .inl ⟨rfl, ?_⟩⟩
        · rw [← hunlock]
          rfl
        · exact ⟨hgrown.live, hgrown.pm, hgrown.size, hgrown.mem⟩

end

end Melis.Libcore
