import Melis.Libcore.PoolBlocks

/-!
# Operations of a pool

What each operation does with the headers in use, and that it keeps `PoolInv`: a region is
placed in a block or stretched there, a reference to a block is dropped, a large region comes
or goes, the loop over the blocks that had no room.
-/

namespace Melis.Libcore

open Lib Function

section

variable {s s' : AwPool} {new : List Nat} {d x y m size : Nat} {v : PoolDataS}
  {pm : Nat → PoolMemoryS}

/-- `x` is in use and not in block `d`. -/
def Elsewhere (s : AwPool) (d x : Nat) : Prop :=
  x ∈ s.largeList ∨ ∃ d' ∈ s.pdList, d' ≠ d ∧ x ∈ (s.pd d').pmList

theorem live_iff (hd : d ∈ s.pdList) : Live s x ↔ Elsewhere s d x ∨ x ∈ (s.pd d).pmList := by
  constructor
  · rintro (hx | ⟨d', hd', hx⟩)
    · exact .inl (.inl hx)
    · by_cases hne : d' = d
      · exact .inr (hne ▸ hx)
      · exact .inl (.inr ⟨d', hd', hne, hx⟩)
  · rintro ((hx | ⟨d', hd', -, hx⟩) | hx)
    · exact .inl hx
    · exact .inr ⟨d', hd', hx⟩
    · exact .inr ⟨d, hd, hx⟩

theorem PoolInv.not_elsewhere (h : PoolInv s new) (hd : d ∈ s.pdList) (hlo : d ≤ x)
    (hhi : x < d + POOL_BLOCK_SIZE) : ¬ Elsewhere s d x := by
  obtain ⟨hlarge, hsmall⟩ := h.header_unique hd hlo hhi
  rintro (hx | ⟨d', hd', hne, hx⟩)
  · exact hlarge hx
  · exact hne (hsmall d' hd' hx)

/-! ## One block changes -/

/-- Block `d` becomes `v`, and headers of it change. -/
def AwPool.withData (s : AwPool) (d : Nat) (v : PoolDataS) (pm : Nat → PoolMemoryS) : AwPool :=
  { s with pd := update s.pd d v, pm }

@[simp] theorem withData_pd : (s.withData d v pm).pd = update s.pd d v := rfl

@[simp] theorem withData_pm : (s.withData d v pm).pm = pm := rfl

theorem elsewhere_withData : Elsewhere (s.withData d v pm) d x ↔ Elsewhere s d x := by
  unfold Elsewhere
  refine or_congr_right (exists_congr fun d' => and_congr_right fun _ => and_congr_right fun hne => ?_)
  rw [withData_pd, update_of_ne hne]

theorem live_withData (hd : d ∈ s.pdList) :
    Live (s.withData d v pm) x ↔ Elsewhere s d x ∨ x ∈ v.pmList := by
  have hd' : d ∈ (s.withData d v pm).pdList := hd
  rw [live_iff hd', elsewhere_withData]
  rw [withData_pd, update_self]

theorem PoolInv.withData (h : PoolInv s new) (hpm : ∀ x, Elsewhere s d x → pm x = s.pm x)
    (hv : DataOk pm d v) (hpos : 0 < v.ref) : PoolInv (s.withData d v pm) new := by
  refine ⟨h.heap_ok, fun a n => ?_, h.nodup, fun d' hd' => ?_, fun d' hd' => ?_, fun x hx => ?_⟩
  · refine (h.mem_heap a n).trans (or_congr_right (or_congr_right (and_congr_right fun ha => ?_)))
    rw [withData_pm, hpm a (.inl ha)]
  · rw [withData_pd]
    by_cases hne : d' = d
    · subst hne
      rw [update_self]
      exact hv
    · rw [update_of_ne hne]
      exact (h.data d' hd').congr fun x hx => hpm x (.inr ⟨d', hd', hne, hx⟩)
  · rw [withData_pd]
    by_cases hne : d' = d
    · subst hne
      rw [update_self]
      exact hpos
    · rw [update_of_ne hne]
      exact h.pos d' hd'
  · rw [withData_pm, hpm x (.inl hx)]
    exact h.large x hx

theorem Current.withData (hc : Current s) (hv : (s.pd d).failed ≤ 5 → v.failed ≤ 5) :
    Current (s.withData d v pm) := by
  obtain ⟨A, B, heq, hall⟩ := hc
  refine ⟨A, B, heq, fun d' hd' => ?_⟩
  rw [withData_pd]
  by_cases hne : d' = d
  · subst hne
    rw [update_self]
    exact hv (hall d' hd')
  · rw [update_of_ne hne]
    exact hall d' hd'

/-! ## A region is placed -/

theorem place_eq : s.place d size = (some ((s.pd d).last + sizeofPm),
    s.withData d
      { s.pd d with
        last := ((s.pd d).last + aligned size) % 2 ^ 32
        pmList := (s.pd d).pmList ++ [(s.pd d).last]
        ref := (s.pd d).ref + 1 }
      (update s.pm (s.pd d).last ⟨some d, size⟩)) := by
  simp [AwPool.place, AwPool.withData, AwPool.setPm, AwPool.setPd, AwPool.PoolDataIncRef]

/-- Header `x` is new in `s'`, of a region of `size` bytes. -/
structure Added (s s' : AwPool) (x size : Nat) : Prop where
  fresh : ¬ Live s x
  live : ∀ y, Live s' y ↔ Live s y ∨ y = x
  pm : ∀ y, y ≠ x → s'.pm y = s.pm y
  size : (s'.pm x).size = size
  mem : s'.mem = s.mem

theorem place_spec (h : PoolInv s new) (hd : d ∈ s.pdList) (hsize : size ≤ POOL_LARGE_SIZE)
    (hroom : (s.pd d).last + aligned size ≤ d + POOL_BLOCK_SIZE) :
    PoolInv (s.place d size).2 new ∧ Added s (s.place d size).2 (s.pd d).last size := by
  rw [place_eq]
  have hdata := h.data d hd
  obtain ⟨hend, hext, hle, hmod, hsmall, href⟩ := hdata
  have hlo := hext.le
  have hlt := (h.heap_ok.valid _ (h.block hd)).2.2
  have hal := le_aligned size
  generalize hx : (s.pd d).last = x at *
  have hlo' : d ≤ x := Nat.le_trans (Nat.le_add_right _ _) hlo
  have hhi : x < d + POOL_BLOCK_SIZE := by omega
  have hwhere := h.not_elsewhere hd hlo' hhi
  have hnot : x ∉ (s.pd d).pmList := by
    intro hmem
    have hb := (hext.mem_bounds hmem).2
    unfold sizeofPm at hb
    omega
  have hpm : ∀ y, y ≠ x → update s.pm x ⟨some d, size⟩ y = s.pm y := fun y hy => update_of_ne hy _ _
  rw [Nat.mod_eq_of_lt (Nat.lt_of_le_of_lt hroom hlt)]
  constructor
  · refine h.withData (fun y hy => hpm y fun heq => hwhere (heq ▸ hy)) ?_ ?_
    · refine ⟨hend, ?_, hroom, ?_, fun y hy => ?_, ?_⟩
      · refine Extents.snoc (hext.congr fun y hy => ?_) ?_
        · rw [hpm y fun heq => hnot (heq ▸ hy)]
        · rw [update_self]
          show x + (24 + size) ≤ x + aligned size
          omega
      · show (x + aligned size) % 8 = 0
        have := aligned_mod size
        omega
      · rcases List.mem_append.1 hy with hy | hy
        · rw [hpm y fun heq => hnot (heq ▸ hy)]
          exact hsmall y hy
        · obtain rfl := List.mem_singleton.1 hy
          rw [update_self]
          exact ⟨rfl, hsize, hmod⟩
      · simp only [List.length_append, List.length_singleton]
        omega
    · have := h.pos d hd
      dsimp only
      omega
  · refine ⟨fun hlive => ?_, fun y => ?_, hpm, ?_, rfl⟩
    · rcases (live_iff hd).1 hlive with hx | hx
      · exact hwhere hx
      · exact hnot hx
    · rw [live_withData hd, live_iff hd, List.mem_append, List.mem_singleton, or_assoc]
    · rw [withData_pm, update_self]

/-! ## A reference is dropped -/

/-- What an operation on one block leaves as it was. -/
structure Frame (s s' : AwPool) : Prop where
  base : s'.base = s.base
  current : s'.current = s.current
  largeList : s'.largeList = s.largeList
  pm : s'.pm = s.pm
  mem : s'.mem = s.mem
  held : s'.held = s.held
  misused : s'.misused = s.misused

/-- Block `d` became `v`, and was returned if it is retired and without regions. -/
structure Dropped (s s' : AwPool) (d : Nat) (v : PoolDataS) : Prop where
  frame : Frame s s'
  pd : s'.pd = update s.pd d v
  pdList : s'.pdList = s.pdList ∨ s'.pdList = s.pdList.erase d ∧ v.pmList = [] ∧ v.failed > 5

/-- A block leaves the list and the heap. -/
theorem PoolInv.removeData (h : PoolInv s new) (hd : d ∈ s.pdList) :
    PoolInv { s with pd := update s.pd d v, pdList := s.pdList.erase d,
                     heap := s.heap.filter (·.1 ≠ d) } new := by
  have hne : ∀ {d'}, d' ∈ s.pdList.erase d → d' ≠ d := fun hd' =>
    ((List.Nodup.mem_erase_iff h.data_nodup).1 hd').1
  have hmem : ∀ {d'}, d' ∈ s.pdList.erase d → d' ∈ s.pdList := List.mem_of_mem_erase
  have hnodup := (List.nodup_cons.1 h.nodup).2
  rw [List.nodup_append, List.nodup_append] at hnodup
  have hbase : s.base ≠ d := fun heq =>
    h.base_notMem.1 (List.mem_append_right _ (heq ▸ hd))
  have hnew : ∀ {a}, a ∈ new → a ≠ d := fun ha heq => hnodup.1.2.2 _ ha _ hd heq
  have hlarge : ∀ {a}, a ∈ s.largeList → a ≠ d := fun ha heq => h.not_both ha (heq ▸ hd)
  refine ⟨h.heap_ok.subset (Finset.filter_subset _ _), fun a n => ?_, ?_, fun d' hd' => ?_,
    fun d' hd' => ?_, h.large⟩
  · rw [Finset.mem_filter, h.mem_heap]
    simp only [List.mem_append, List.Nodup.mem_erase_iff h.data_nodup]
    constructor
    · rintro ⟨hb | ⟨ha | ha, hn⟩ | hl, had⟩
      · exact .inl hb
      · exact .inr (.inl ⟨.inl ha, hn⟩)
      · exact .inr (.inl ⟨.inr ⟨by simpa using had, ha⟩, hn⟩)
      · exact .inr (.inr hl)
    · rintro (⟨rfl, hn⟩ | ⟨ha | ⟨had, ha⟩, hn⟩ | ⟨hl, hn⟩)
      · exact ⟨.inl ⟨rfl, hn⟩, by simpa using hbase⟩
      · exact ⟨.inr (.inl ⟨.inl ha, hn⟩), by simpa using hnew ha⟩
      · exact ⟨.inr (.inl ⟨.inr ha, hn⟩), by simpa using had⟩
      · exact ⟨.inr (.inr ⟨hl, hn⟩), by simpa using hlarge hl⟩
  · refine h.nodup.sublist (List.Sublist.cons_cons _ ?_)
    exact ((List.Sublist.refl new).append List.erase_sublist).append (List.Sublist.refl _)
  · dsimp only
    rw [update_of_ne (hne hd')]
    exact h.data d' (hmem hd')
  · dsimp only
    rw [update_of_ne (hne hd')]
    exact h.pos d' (hmem hd')

theorem free_eq {a n : Nat} (ha : (a, n) ∈ s.heap) :
    s.free a = some { s with heap := s.heap.filter (·.1 ≠ a) } :=
  if_pos ⟨_, ha, rfl⟩

/-- `PoolDataDecRef` of a block with one reference too many. -/
theorem decRef_spec (h : PoolInv s new) (hd : d ∈ s.pdList)
    (hv : DataOk s.pm d { v with ref := v.ref - 1 }) :
    ∃ s', (s.withData d v s.pm).PoolDataDecRef (some d) = some s' ∧ PoolInv s' new ∧
      Dropped s s' d { v with ref := v.ref - 1 } := by
  have href := hv.ref_eq
  dsimp only at href
  simp only [AwPool.PoolDataDecRef, AwPool.setPd, AwPool.withData, update_self, update_idem,
    if_pos hd]
  by_cases hzero : v.ref - 1 = 0
  · rw [if_pos hzero]
    have hblock := h.block hd
    have hfailed : v.failed > 5 := by
      by_contra hle
      rw [if_neg hle] at href
      omega
    have hnil : v.pmList = [] := by
      apply List.eq_nil_of_length_eq_zero
      rw [if_pos hfailed] at href
      omega
    refine ⟨_, free_eq hblock, h.removeData hd, ?_⟩
    exact ⟨⟨rfl, rfl, rfl, rfl, rfl, rfl, rfl⟩, rfl, .inr ⟨rfl, hnil, hfailed⟩⟩
  · rw [if_neg hzero]
    have hpos : 0 < v.ref - 1 := by
      split at href <;> omega
    refine ⟨_, rfl, h.withData (fun _ _ => rfl) hv hpos, ?_⟩
    exact ⟨⟨rfl, rfl, rfl, rfl, rfl, rfl, rfl⟩, rfl, .inl rfl⟩

theorem Dropped.live (hd : d ∈ s.pdList) (hD : Dropped s s' d v) :
    Live s' x ↔ Elsewhere s d x ∨ x ∈ v.pmList := by
  obtain ⟨hframe, hpd, hlist⟩ := hD
  have helse : (∃ d' ∈ s.pdList, d' ≠ d ∧ x ∈ (s'.pd d').pmList) ↔
      ∃ d' ∈ s.pdList, d' ≠ d ∧ x ∈ (s.pd d').pmList := by
    refine exists_congr fun d' => and_congr_right fun _ => and_congr_right fun hne => ?_
    rw [hpd, update_of_ne hne]
  have hself : s'.pd d = v := by rw [hpd, update_self]
  unfold Live Elsewhere
  rw [hframe.largeList, ← helse, or_assoc]
  refine or_congr_right ⟨?_, ?_⟩
  · rintro ⟨d', hd', hx⟩
    have hmem : d' ∈ s.pdList := by
      rcases hlist with hlist | ⟨hlist, -, -⟩ <;> rw [hlist] at hd'
      · exact hd'
      · exact List.mem_of_mem_erase hd'
    by_cases hne : d' = d
    · exact .inr (hself ▸ hne ▸ hx)
    · exact .inl ⟨d', hmem, hne, hx⟩
  · rintro (⟨d', hd', hne, hx⟩ | hx)
    · refine ⟨d', ?_, hx⟩
      rcases hlist with hlist | ⟨hlist, -, -⟩ <;> rw [hlist]
      · exact hd'
      · exact (List.mem_erase_of_ne hne).2 hd'
    · rcases hlist with hlist | ⟨-, hnil, -⟩
      · exact ⟨d, hlist ▸ hd, hself ▸ hx⟩
      · rw [hnil] at hx
        cases hx

theorem Dropped.current (hc : Current s) (hD : Dropped s s' d v)
    (hfailed : v.failed = (s.pd d).failed) : Current s' := by
  obtain ⟨hframe, hpd, hlist⟩ := hD
  obtain ⟨A, B, heq, hall⟩ := hc
  have hall' : ∀ d' ∈ s.current :: B, (s'.pd d').failed ≤ 5 := by
    intro d' hd'
    rw [hpd]
    by_cases hne : d' = d
    · subst hne
      rw [update_self, hfailed]
      exact hall d' hd'
    · rw [update_of_ne hne]
      exact hall d' hd'
  unfold Current
  rw [hframe.current]
  rcases hlist with hlist | ⟨hlist, -, hretired⟩
  · exact ⟨A, B, hlist.trans heq, hall'⟩
  · -- a retired block stands before the current one
    have hnot : d ∉ s.current :: B := by
      intro hd
      have := hall d hd
      omega
    refine ⟨A.erase d, B, ?_, hall'⟩
    rw [hlist, heq]
    by_cases hA : d ∈ A
    · exact List.erase_append_left _ hA
    · rw [List.erase_append_right _ hA, List.erase_of_not_mem hnot, List.erase_of_not_mem hA]

/-! ## The blocks that had no room -/

theorem countFailed_spec {ds : List Nat} (cur : Option Nat) {A C : List Nat}
    (h : PoolInv s [m]) (hlist : s.pdList = A ++ C ++ ds) (hC : ∀ d ∈ C, (s.pd d).failed ≤ 5)
    (hds : ∀ d ∈ ds, (s.pd d).failed ≤ 5)
    (hcur : (C ++ ds ++ [m]).head? = some (cur.getD s.current)) :
    ∃ cur' s', AwPool.countFailed m ds cur s = some (cur', s') ∧ PoolInv s' [m] ∧ Frame s s' ∧
      (∀ y, Live s' y ↔ Live s y) ∧ (∀ d ∉ s.pdList, s'.pd d = s.pd d) ∧
      ∃ A' C', s'.pdList = A' ++ C' ∧ (∀ d ∈ C', (s'.pd d).failed ≤ 5) ∧
        (C' ++ [m]).head? = some (cur'.getD s'.current) := by
  induction ds generalizing s cur A C with
  | nil =>
    rw [List.append_nil] at hlist hcur
    exact ⟨cur, s, rfl, h, ⟨rfl, rfl, rfl, rfl, rfl, rfl, rfl⟩, fun _ => Iff.rfl, fun _ _ => rfl,
      A, C, hlist, hC, hcur⟩
  | cons d ds ih =>
    obtain ⟨hd5, hds⟩ := List.forall_mem_cons.1 hds
    have hd : d ∈ s.pdList := by
      rw [hlist]
      exact List.mem_append_right _ List.mem_cons_self
    have hnodup := h.data_nodup
    rw [hlist, List.nodup_append, List.nodup_cons] at hnodup
    obtain ⟨-, ⟨hdds, -⟩, hdisj⟩ := hnodup
    have hdAC : d ∉ A ++ C := fun hmem => hdisj d hmem d List.mem_cons_self rfl
    have hdC : d ∉ C := fun hmem => hdAC (List.mem_append_right _ hmem)
    obtain ⟨hend, hext, hle, hmod, hsmall, href⟩ := h.data d hd
    have hrest : ∀ {v : PoolDataS}, ∀ d' ∈ ds, (update s.pd d v d').failed ≤ 5 := by
      intro v d' hd'
      have hne : d' ≠ d := fun heq => hdds (heq ▸ hd')
      rw [update_of_ne hne]
      exact hds d' hd'
    rw [if_neg (by omega)] at href
    unfold AwPool.countFailed
    by_cases hfull : (s.pd d).failed > 4
    · -- the block is retired
      simp only [if_pos hfull]
      have hv : DataOk s.pm d { s.pd d with
          failed := (s.pd d).failed + 1
          ref := (s.pd d).ref - 1 } := by
        refine ⟨hend, hext, hle, hmod, hsmall, ?_⟩
        dsimp only
        rw [if_pos (by omega)]
        omega
      obtain ⟨s₁, hs₁, h₁, hD⟩ :=
        decRef_spec (v := { s.pd d with failed := (s.pd d).failed + 1 }) h hd hv
      have hlist₁ : ∃ A₁, s₁.pdList = A₁ ++ [] ++ ds := by
        rcases hD.pdList with hl | ⟨hl, -, -⟩
        · refine ⟨A ++ C ++ [d], ?_⟩
          rw [hl, hlist]
          simp
        · refine ⟨A ++ C, ?_⟩
          rw [hl, hlist, List.erase_append_right _ hdAC, List.erase_cons_head, List.append_nil]
      obtain ⟨A₁, hlist₁⟩ := hlist₁
      have hhead : ([] ++ ds ++ [m]).head? = some ((some (ds.headD m)).getD s₁.current) := by
        cases ds <;> rfl
      have hds₁ : ∀ d' ∈ ds, (s₁.pd d').failed ≤ 5 := by
        rw [hD.pd]
        exact hrest
      obtain ⟨cur', s', hs', h', hF, hlive, hpd, htail⟩ :=
        ih (some (ds.headD m)) h₁ hlist₁ (by simp) hds₁ hhead
      have hpd₁ : ∀ d' ∉ s.pdList, s'.pd d' = s.pd d' := by
        intro d' hd'
        have hne : d' ≠ d := fun heq => hd' (heq ▸ hd)
        have hd₁ : d' ∉ s₁.pdList := by
          rcases hD.pdList with hl | ⟨hl, -, -⟩ <;> rw [hl]
          · exact hd'
          · exact fun hmem => hd' (List.mem_of_mem_erase hmem)
        rw [hpd d' hd₁, hD.pd, update_of_ne hne]
      have hlive₁ : ∀ y, Live s₁ y ↔ Live s y := fun y => by
        rw [hD.live hd, live_iff hd]
      have hF₁ := hD.frame
      refine ⟨cur', s', ?_, h', ?_, fun y => (hlive y).trans (hlive₁ y), hpd₁, htail⟩
      · exact (Option.bind_eq_some_iff.2 ⟨s₁, hs₁, hs'⟩)
      · exact ⟨hF.base.trans hF₁.base, hF.current.trans hF₁.current,
          hF.largeList.trans hF₁.largeList, hF.pm.trans hF₁.pm, hF.mem.trans hF₁.mem,
          hF.held.trans hF₁.held, hF.misused.trans hF₁.misused⟩
    · simp only [if_neg hfull]
      have hv : DataOk s.pm d { s.pd d with failed := (s.pd d).failed + 1 } := by
        refine ⟨hend, hext, hle, hmod, hsmall, ?_⟩
        dsimp only
        rw [if_neg (by omega)]
        exact href
      have h₁ := h.withData (fun _ _ => rfl) hv (h.pos d hd)
      have hlist₁ : s.pdList = A ++ (C ++ [d]) ++ ds := by
        rw [hlist]
        simp
      have hC₁ : ∀ d' ∈ C ++ [d],
          (update s.pd d { s.pd d with failed := (s.pd d).failed + 1 } d').failed ≤ 5 := by
        intro d' hd'
        rcases List.mem_append.1 hd' with hd' | hd'
        · have hne : d' ≠ d := fun heq => hdC (heq ▸ hd')
          rw [update_of_ne hne]
          exact hC d' hd'
        · obtain rfl := List.mem_singleton.1 hd'
          rw [update_self]
          dsimp only
          omega
      have hcur₁ : (C ++ [d] ++ ds ++ [m]).head? = some (cur.getD s.current) := by
        rw [← hcur]
        simp
      obtain ⟨cur', s', hs', h', hF, hlive, hpd, htail⟩ := ih cur h₁ hlist₁ hC₁ hrest hcur₁
      have hpd₁ : ∀ d' ∉ s.pdList, s'.pd d' = s.pd d' := by
        intro d' hd'
        have hne : d' ≠ d := fun heq => hd' (heq ▸ hd)
        rw [hpd d' hd', withData_pd, update_of_ne hne]
      refine ⟨cur', s', hs', h', ?_, fun y => (hlive y).trans ?_, hpd₁, htail⟩
      · exact ⟨hF.base, hF.current, hF.largeList, hF.pm, hF.mem, hF.held, hF.misused⟩
      · rw [live_withData hd, live_iff hd]

end

end Melis.Libcore
