import Melis.Mods.Isolation

/-!
# Modules stay intact

Each step of a call keeps the invariant, and a call that returns has left nothing
behind. Where the steps of a run are undisturbed, the module table is sound all
along and every install that fails is as if it had not been called.
-/

namespace Melis.Mods

open Lib Function

variable {vmem_delete : VmemDelete} {s s' : State} {t t' : Tid} {e : Env} {pc : Pc} {k : Key}
  {v : Val k} {ret : Tid → UInt32} {installed : UInt8 → Bool}

/-! ## Steps as moves -/

theorem own_update (own : Nat → Bool) :
    update (β := fun _ => Nat → Bool) (fun t' n => s.own t' n && !false) t own =
      update s.own t own := by
  simp only [Bool.not_false, Bool.and_true]

theorem own_update_self :
    update (β := fun _ => Nat → Bool) (fun t' n => s.own t' n && !false) t (s.own t) = s.own := by
  rw [own_update, update_eq_self]

theorem goto_eq : s.goto t pc =
    s.move t pc (fun _ v => v) (fun _ => false) (s.own t) s.ret s.installed := by
  unfold State.move
  rw [own_update_self, Shared.act_id]
  rfl

theorem return_eq (r : UInt32) : s.return_ t r =
    s.move t .idle (fun _ v => v) (fun _ => false) (s.own t) (update s.ret t r) s.installed := by
  unfold State.move
  rw [own_update_self, Shared.act_id]
  rfl

theorem write_goto_eq : (s.write t k v).goto t pc =
    s.move t pc (put k v) (fun _ => false) (s.own t) s.ret s.installed := by
  unfold State.move
  rw [own_update_self]
  rfl

theorem write_return_eq (r : UInt32) : (s.write t k v).return_ t r =
    s.move t .idle (put k v) (fun _ => false) (s.own t) (update s.ret t r) s.installed := by
  unfold State.move
  rw [own_update_self]
  rfl

theorem map_goto_eq (pages : Nat → Bool) : (s.map t pages).goto t pc =
    s.move t pc (putPages fun n old => old || pages n) (fun _ => false)
      (fun n => s.own t n || pages n) s.ret s.installed := by
  unfold State.move
  rw [own_update]
  rfl

/-- Pages are unmapped and a key is written. -/
theorem unmap_write_goto_eq (pages : Nat → Bool) :
    ((s.unmap t pages).write t k v).goto t pc =
      s.move t pc (fun k' old => put k v k' (clip pages k' old)) pages
        (fun n => s.own t n && !pages n) s.ret s.installed := by
  unfold State.move
  rw [update_eq_self_iff.2 rfl, ← Shared.act_act]
  rfl

/-! ## Steps that take nothing -/

theorem not_installing_idle : ¬ Pc.idle.Installing := fun h => h.1 rfl

section Narrow

variable {g : ∀ k, Val k → Val k} {pages own : Nat → Bool}

theorem Tidy.of_sub (hsub : ∀ k, Owns pc own k → s.Owns t k)
    (hkeep : ∀ k, ¬ s.Owns t k → ∀ v, g k v = clip pages k v) : Tidy s t pc g pages own where
  take k hk hno := absurd (hsub k hk) hno
  keep k hno _ := hkeep k hno
  fresh p hp hno := absurd (hsub (.mcb p) hp) hno

theorem Clean.of_sub (hsub : ∀ k, Owns pc own k → s.Owns t k)
    (hsame : ∀ k, ¬ s.Owns t k → g k (s.mem k) = s.mem k)
    (hgive : ∀ k, s.Owns t k → ¬ Owns pc own k → g k (s.mem k) = empty k) :
    Clean s t pc g own where
  take k hk hno := absurd (hsub k hk) hno
  same k hno _ := hsame k hno
  give := hgive

end Narrow

/-- Going on to `pc'`, a call keeps what it works on. -/
structure Follows (pc pc' : Pc) : Prop where
  id : pc'.id = pc.id
  mcb : pc'.mcb = pc.mcb
  hLDR : pc'.hLDR = pc.hLDR
  named : pc'.named = true → pc.named = true
  filled : pc'.filled = true → pc.filled = true
  uninstalling : pc'.uninstalling = pc.uninstalling
  installing : pc'.Installing → pc.Installing

theorem Follows.owns (hf : Follows (s.pc t) pc) : Owns pc (s.own t) = s.Owns t := by
  funext k
  cases k with
  | slot id => exact congrArg (· = some id) hf.id
  | mcb p => exact congrArg (· = some p) hf.mcb
  | handle h => exact congrArg (· = some h) hf.hLDR
  | page n => rfl

theorem Inv.follow (h : Inv s) (hf : Follows (s.pc t) pc)
    (hpages : pc.mapping = false → ∀ n, s.own t n = false) :
    Inv (s.move t pc (fun _ v => v) (fun _ => false) (s.own t) ret s.installed) := by
  have hlocal := h.here t
  have hsub : ∀ k, Owns pc (s.own t) k → s.Owns t k := fun k hk => hf.owns ▸ hk
  refine h.move (.of_sub hsub fun k _ v => (clip_none k v).symm) ?_ (fun hi => ?_)
    (fun _ _ => rfl) fun id hid hno => absurd (hf.id.trans hid) hno
  · exact {
      handle := fun x hx => hlocal.handle x (hf.hLDR ▸ hx)
      mcb := fun p hp => by
        obtain ⟨m, hm, hid⟩ := hlocal.mcb p (hf.mcb ▸ hp)
        exact ⟨m, hm, fun hn => hf.id.trans (hid (hf.named hn))⟩
      slot := fun hfill id hid => (hlocal.slot (hf.filled hfill) id (hf.id ▸ hid)).trans hf.mcb.symm
      page := hlocal.page
      unmapped := hpages
      installed := fun id hid => (hlocal.installed id (hf.id ▸ hid)).trans hf.uninstalling.symm
      nonzero := fun hu id hid => hlocal.nonzero (hf.uninstalling ▸ hu) id (hf.id ▸ hid) }
  · refine Clean.isolated (h.iso t (hf.installing hi)) (.of_sub hsub (fun _ _ => rfl) ?_)
    exact fun k hk hno => absurd (hf.owns ▸ hk) hno

section Write

variable (hk : s.Owns t k) (hsub : ∀ k', Owns pc (s.own t) k' → s.Owns t k')

include hk hsub

theorem Tidy.write : Tidy s t pc (put k v) (fun _ => false) (s.own t) :=
  .of_sub hsub fun k' hno old => by
    rw [clip_none]
    exact put_of_ne (fun hkk => hno (hkk.subst (motive := s.Owns t) hk)) v old

theorem Clean.write
    (hgive : ∀ k', s.Owns t k' → ¬ Owns pc (s.own t) k' → k' = k ∧ v = empty k) :
    Clean s t pc (put k v) (s.own t) := by
  refine .of_sub hsub (fun k' hno => ?_) fun k' hown hno => ?_
  · exact put_of_ne (fun hkk => hno (hkk.subst (motive := s.Owns t) hk)) v _
  · obtain ⟨rfl, hv⟩ := hgive k' hown hno
    exact (put_self k' v _).trans hv

theorem Inv.write (h : Inv s)
    (hhere : Local (s.move t pc (put k v) (fun _ => false) (s.own t) ret installed) pc (s.own t))
    (hgive : pc.Installing → (s.pc t).Installing ∧
      ∀ k', s.Owns t k' → ¬ Owns pc (s.own t) k' → k' = k ∧ v = empty k)
    (hinst : ∀ id, (s.pc t).id ≠ some id → installed id = s.installed id)
    (hrelease : ∀ id, (s.pc t).id = some id → pc.id ≠ some id →
      Entry (s.move t pc (put k v) (fun _ => false) (s.own t) ret installed) id
        (put k v (.slot id) (s.mem (.slot id)))) :
    Inv (s.move t pc (put k v) (fun _ => false) (s.own t) ret installed) :=
  h.move (.write hk hsub) hhere
    (fun hi => Clean.isolated (h.iso t (hgive hi).1) (.write hk hsub (hgive hi).2)) hinst hrelease

end Write

/-! ## The steps of an install -/

/-- What a step has to show. -/
def StepKeeps (vmem_delete : VmemDelete) (s : State) (t : Tid) (e : Env) : Prop :=
  ∃ s', step vmem_delete s t e = some s' ∧ StepOk s (t, e) s' ∧ Inv s'

theorem stepOk_of_ne {g : ∀ k, Val k → Val k} {pages own : Nat → Bool} (hne : pc ≠ .idle) :
    StepOk s (t, e) (s.move t pc g pages own ret installed) :=
  fun _ hidle => absurd (move_pc_self.symm.trans hidle) hne

/-- An install that gives up all it owns has had no effect. -/
theorem stepOk_of_clean {g : ∀ k, Val k → Val k} {pages own : Nat → Bool}
    (h : s.shared.Isolated empty t (s.Owns t)) (hown : ∀ n, own n = false)
    (hc : Clean s t .idle g own) : StepOk s (t, e) (s.move t .idle g pages own ret installed) := by
  have hnone : Owns .idle own = fun _ => False := by
    funext k
    cases k with
    | page n => exact eq_false (Bool.eq_false_iff.1 (hown n))
    | _ => exact eq_false nofun
  have hiso : (s.move t .idle g pages own ret installed).shared.Isolated empty t
      (Owns .idle own) := hc.isolated h
  rw [hnone] at hiso
  have hmem : (s.move t .idle g pages own ret installed).mem = s.shared.base t :=
    hiso.mem_eq.trans Shared.act_base_self
  exact fun _ _ => ⟨fun h => congrFun hmem (.handle h), fun _ => hmem⟩

theorem StepKeeps.of_goto {pc₀ : Pc} (pc : Pc) (hpc : s.pc t = pc₀)
    (hstep : step vmem_delete s t e = some (s.goto t pc)) (hne : pc ≠ .idle) (h : Inv s)
    (hf : Follows pc₀ pc) (hpages : pc.mapping = false → pc₀.mapping = false) :
    StepKeeps vmem_delete s t e := by
  rw [goto_eq] at hstep
  refine ⟨_, hstep, stepOk_of_ne hne, h.follow (hpc ▸ hf) fun hm => (h.here t).unmapped ?_⟩
  rw [hpc]
  exact hpages hm

/-- A call that does nothing more returns. -/
theorem StepKeeps.of_return {pc₀ : Pc} (r : UInt32) (hpc : s.pc t = pc₀)
    (hstep : step vmem_delete s t e = some (s.return_ t r)) (h : Inv s) (hi : pc₀.Installing)
    (hf : Follows pc₀ .idle) (hpages : pc₀.mapping = false) : StepKeeps vmem_delete s t e := by
  subst hpc
  rw [return_eq] at hstep
  have hown : ∀ n, s.own t n = false := (h.here t).unmapped hpages
  refine ⟨_, hstep, stepOk_of_clean (h.iso t hi) hown ?_, h.follow hf fun _ => hown⟩
  exact .of_sub (fun k hk => hf.owns ▸ hk) (fun _ _ => rfl) fun k hk hno => absurd (hf.owns ▸ hk) hno

/-- The way to `error`, from where the id is claimed. -/
theorem follows_clearSlot {pc₀ : Pc} {hLDR : UInt32} {mid : UInt8} {mcb : Option UInt32}
    (hid : pc₀.id = if mid = 0 then none else some mid) (hmcb : pc₀.mcb = mcb)
    (hh : pc₀.hLDR = some hLDR) (hu : pc₀.uninstalling = false) (hi : pc₀.Installing) :
    Follows pc₀ (.clearSlot hLDR mid mcb) :=
  ⟨hid.symm, hmcb.symm, hh.symm, nofun, nofun, hu.symm, fun _ => hi⟩

theorem keeps_fileType {file : ModFile} {hLDR : UInt32} (h : Inv s)
    (hpc : s.pc t = .fileType file hLDR) : StepKeeps vmem_delete s t e := by
  by_cases htype : file.FileType = LDR_MODULE_FILE
  · refine .of_goto (.magic file hLDR) hpc (by rw [step, hpc]; exact if_pos htype) nofun h
      ⟨rfl, rfl, rfl, id, id, rfl, fun _ => ⟨nofun, id⟩⟩ id
  · exact .of_goto (.clearSlot hLDR 0 none) hpc (by rw [step, hpc]; exact if_neg htype) nofun h
      (follows_clearSlot rfl rfl rfl rfl ⟨nofun, id⟩) id

theorem keeps_magic {file : ModFile} {hLDR : UInt32} (h : Inv s)
    (hpc : s.pc t = .magic file hLDR) : StepKeeps vmem_delete s t e := by
  by_cases hmagic : file.MagicIdx ≠ LDR_INVALID_INDEX ∧ e.ok
  · refine .of_goto (.getId file hLDR) hpc (by rw [step, hpc]; exact if_pos hmagic) nofun h
      ⟨rfl, rfl, rfl, id, id, rfl, fun _ => ⟨nofun, id⟩⟩ id
  · exact .of_goto (.clearSlot hLDR 0 none) hpc (by rw [step, hpc]; exact if_neg hmagic) nofun h
      (follows_clearSlot rfl rfl rfl rfl ⟨nofun, id⟩) id

theorem keeps_mallocName {file : ModFile} {hLDR mcb : UInt32} {mid : UInt8} (h : Inv s)
    (hpc : s.pc t = .mallocName file hLDR mid mcb) : StepKeeps vmem_delete s t e := by
  have hmid : mid ≠ 0 := (h.here t).nonzero (by rw [hpc]; rfl) mid (by rw [hpc]; rfl)
  by_cases hok : e.ok ∧ file.sections ≠ []
  · refine .of_goto (.section_ file hLDR mid mcb 0) hpc
      (by rw [step, hpc]; exact if_pos hok) nofun h
      ⟨rfl, rfl, rfl, id, id, rfl, fun _ => ⟨nofun, id⟩⟩ nofun
  · exact .of_goto (.clearSlot hLDR mid (some mcb)) hpc (by rw [step, hpc]; exact if_neg hok) nofun h
      (follows_clearSlot (if_neg hmid).symm rfl rfl rfl ⟨nofun, id⟩) id

/-! ## Steps that take a key -/

theorem Inv.not_owns_handle (h : Inv s) {x : UInt32} (hx : s.mem (.handle x) = false) :
    ¬ s.Owns t (.handle x) := fun hk =>
  Bool.false_ne_true (hx.symm.trans ((h.here t).handle x hk))

theorem Inv.not_owns_mcb (h : Inv s) {p : UInt32} (hp : s.mem (.mcb p) = none) :
    ¬ s.Owns t (.mcb p) := fun hk => by
  obtain ⟨m, hm, _⟩ := (h.here t).mcb p hk
  exact Option.some_ne_none m (hm.symm.trans hp)

theorem Inv.not_owns_page (h : Inv s) {n : Nat} (hn : s.mem (.page n) = false) :
    ¬ s.Owns t (.page n) := fun hk =>
  Bool.false_ne_true (hn.symm.trans ((h.here t).page n hk))

/-- A control block that is not there belongs to no module. -/
theorem Inv.fresh_mcb (h : Inv s) {p : UInt32} (hp : s.mem (.mcb p) = none) {id : UInt8}
    (hid : Unclaimed s id) : s.mem (.slot id) ≠ some p := fun hslot => by
  have hentry := h.table id hid
  rw [hslot] at hentry
  obtain ⟨_, ⟨m, hm, _⟩, _⟩ := hentry
  exact Option.some_ne_none m (hm.symm.trans hp)

/-- A call takes a key that is empty and writes nothing else. -/
theorem Inv.take (h : Inv s) {g : ∀ k, Val k → Val k} (hi : (s.pc t).Installing)
    (hempty : s.mem k = empty k) (hfree : ∀ t', ¬ s.Owns t' k)
    (hown : ∀ k', Owns pc (s.own t) k' ↔ s.Owns t k' ∨ k' = k)
    (hg : ∀ k', k' ≠ k → ∀ v, g k' v = v)
    (hfresh : ∀ p, k = .mcb p → ∀ id, Unclaimed s id → s.mem (.slot id) ≠ some p)
    (hhere : Local (s.move t pc g (fun _ => false) (s.own t) ret s.installed) pc (s.own t)) :
    Inv (s.move t pc g (fun _ => false) (s.own t) ret s.installed) := by
  have hnew : ∀ k', Owns pc (s.own t) k' → ¬ s.Owns t k' → k' = k := fun k' hk hno =>
    ((hown k').1 hk).resolve_left hno
  have hne : ∀ k', ¬ Owns pc (s.own t) k' → k' ≠ k := fun k' hno hk => hno ((hown k').2 (.inr hk))
  have htidy : Tidy s t pc g (fun _ => false) (s.own t) := by
    refine ⟨?_, ?_, ?_⟩
    · intro k' hk hno
      rw [hnew k' hk hno]
      exact hfree
    · intro k' _ hno v
      rw [clip_none]
      exact hg k' (hne k' hno) v
    · intro p hp hno id hid _
      exact hfresh p (hnew (.mcb p) hp hno).symm id hid
  refine h.move htidy hhere (fun _ => ?_) (fun _ _ => rfl) ?_
  · refine Clean.isolated (h.iso t hi) ⟨fun k' hk hno => ?_, fun k' _ hno => ?_, fun k' hk hno => ?_⟩
    · rw [hnew k' hk hno]
      exact hempty
    · exact hg k' (hne k' hno) _
    · exact absurd ((hown k').2 (.inl hk)) hno
  · exact fun id hid hno => absurd ((hown (.slot id)).2 (.inl hid)) hno

theorem keeps_load {file : ModFile} (h : Inv s) (hpc : s.pc t = .load file)
    (hlegal : Legal s (t, e)) : StepKeeps vmem_delete s t e := by
  by_cases hok : e.ok
  · have hempty : s.mem (.handle e.ptr) = false := by
      simp only [Legal, hpc] at hlegal
      exact hlegal hok
    have hstep : step vmem_delete s t e =
        some ((s.write t (.handle e.ptr) true).goto t (.fileType file e.ptr)) := by
      rw [step, hpc]
      exact if_pos hok
    rw [write_goto_eq] at hstep
    refine ⟨_, hstep, stepOk_of_ne nofun, h.take (by rw [hpc]; exact ⟨nofun, id⟩) hempty
      (fun _ => h.not_owns_handle hempty) (fun k' => ?_) (fun k' hk v => put_of_ne hk.symm _ v)
      nofun ?_⟩
    · rw [State.Owns, hpc]
      cases k' with
      | handle x => simp only [Owns, Pc.hLDR, Option.some.injEq, reduceCtorEq, false_or,
          Key.handle.injEq, eq_comm]
      | _ => exact (or_iff_left nofun).symm
    · exact {
        handle := fun x hx => by
          cases hx
          exact put_self ..
        mcb := nofun
        slot := nofun
        page := (h.here t).page
        unmapped := fun _ => (h.here t).unmapped (by rw [hpc]; rfl)
        installed := nofun
        nonzero := fun _ => nofun }
  · exact .of_return 0 hpc (by rw [step, hpc]; exact if_neg hok) h ⟨nofun, id⟩
      ⟨rfl, rfl, rfl, nofun, nofun, rfl, fun hi => absurd hi not_installing_idle⟩ rfl

theorem keeps_getId {file : ModFile} {hLDR : UInt32} (h : Inv s) (hpc : s.pc t = .getId file hLDR)
    (hund : Undisturbed vmem_delete s (t, e)) : StepKeeps vmem_delete s t e := by
  set mid := MODS_GetModuleID (fun id => s.mem (.slot id)) file.type with hmid
  by_cases hzero : mid = 0
  · exact .of_goto (.clearSlot hLDR 0 none) hpc
      (by rw [step, hpc]; exact if_pos hzero) nofun h
      (follows_clearSlot rfl rfl rfl rfl ⟨nofun, id⟩) id
  · simp only [Undisturbed, hpc] at hund
    obtain ⟨hslot, hfree⟩ : s.mem (.slot mid) = none ∧ Unclaimed s mid := hund hzero
    have hstep : step vmem_delete s t e = some (s.goto t (.mallocMcb file hLDR mid)) := by
      rw [step, hpc]
      exact (if_neg hzero).trans (if_neg (not_not.2 hslot))
    rw [goto_eq] at hstep
    refine ⟨_, hstep, stepOk_of_ne nofun, h.take (by rw [hpc]; exact ⟨nofun, id⟩) hslot
      hfree (fun k' => ?_) (fun _ _ _ => rfl) nofun ?_⟩
    · rw [State.Owns, hpc]
      cases k' with
      | slot id => simp only [Owns, Pc.id, Option.some.injEq, reduceCtorEq, false_or,
          Key.slot.injEq, eq_comm]
      | _ => exact (or_iff_left nofun).symm
    · have hentry := h.table mid hfree
      rw [hslot] at hentry
      exact {
        handle := fun x hx => (h.here t).handle x (by rw [hpc]; exact hx)
        mcb := nofun
        slot := nofun
        page := (h.here t).page
        unmapped := fun _ => (h.here t).unmapped (by rw [hpc]; rfl)
        installed := fun id hid => by
          cases hid
          exact hentry
        nonzero := fun _ id hid => by
          cases hid
          exact hzero }

theorem keeps_mallocMcb {file : ModFile} {hLDR : UInt32} {mid : UInt8} (h : Inv s)
    (hpc : s.pc t = .mallocMcb file hLDR mid) (hlegal : Legal s (t, e)) :
    StepKeeps vmem_delete s t e := by
  have hlocal := h.here t
  rw [hpc] at hlocal
  have hmid : mid ≠ 0 := hlocal.nonzero rfl mid rfl
  by_cases hok : e.ok
  · have hempty : s.mem (.mcb e.ptr) = none := by
      simp only [Legal, hpc] at hlegal
      exact hlegal hok
    have hstep : step vmem_delete s t e = some ((s.write t (.mcb e.ptr) (some ⟨0, 0, 0⟩)).goto t
        (.setSlot file hLDR mid e.ptr)) := by
      rw [step, hpc]
      exact if_pos hok
    rw [write_goto_eq] at hstep
    refine ⟨_, hstep, stepOk_of_ne nofun, h.take (by rw [hpc]; exact ⟨nofun, id⟩) hempty
      (fun _ => h.not_owns_mcb hempty) (fun k' => ?_) (fun k' hk v => put_of_ne hk.symm _ v)
      (fun p hp id hid => ?_) ?_⟩
    · rw [State.Owns, hpc]
      cases k' with
      | mcb p => simp only [Owns, Pc.mcb, Option.some.injEq, reduceCtorEq, false_or,
          Key.mcb.injEq, eq_comm]
      | _ => exact (or_iff_left nofun).symm
    · cases hp
      exact h.fresh_mcb hempty hid
    · exact {
        handle := hlocal.handle
        mcb := fun p hp => by
          cases hp
          exact ⟨_, put_self .., nofun⟩
        slot := nofun
        page := hlocal.page
        unmapped := hlocal.unmapped
        installed := hlocal.installed
        nonzero := hlocal.nonzero }
  · exact .of_goto (.clearSlot hLDR mid none) hpc (by rw [step, hpc]; exact if_neg hok) nofun h
      (follows_clearSlot (if_neg hmid).symm rfl rfl rfl ⟨nofun, id⟩) id

/-- The pages of a section are mapped. -/
theorem keeps_map {file : ModFile} {hLDR mcb : UInt32} {mid : UInt8} {index : Nat}
    {pages : Nat → Bool} (h : Inv s) (hpc : s.pc t = .section_ file hLDR mid mcb index)
    (hempty : ∀ n, pages n = true → s.mem (.page n) = false)
    (hstep : step vmem_delete s t e =
      some ((s.map t pages).goto t (.bitmap file hLDR mid mcb index))) :
    StepKeeps vmem_delete s t e := by
  have hlocal := h.here t
  rw [hpc] at hlocal
  rw [map_goto_eq] at hstep
  have hnew : ∀ k, Owns (.bitmap file hLDR mid mcb index) (fun n => s.own t n || pages n) k →
      ¬ s.Owns t k → ∃ n, k = .page n ∧ pages n = true := by
    intro k hk hno
    rw [State.Owns, hpc] at hno
    cases k with
    | page n => exact ⟨n, rfl, (Bool.or_eq_true_iff.1 hk).resolve_left hno⟩
    | _ => exact absurd hk hno
  have hsup : ∀ k, s.Owns t k →
      Owns (.bitmap file hLDR mid mcb index) (fun n => s.own t n || pages n) k := by
    intro k hk
    rw [State.Owns, hpc] at hk
    cases k with
    | page n => exact Bool.or_eq_true_iff.2 (.inl hk)
    | _ => exact hk
  have hkeep : ∀ k,
      ¬ Owns (.bitmap file hLDR mid mcb index) (fun n => s.own t n || pages n) k →
      ∀ v, putPages (fun n old => old || pages n) k v = v := by
    intro k hno v
    cases k with
    | page n =>
      have hpage : pages n = false := Bool.eq_false_iff.2 fun hpage =>
        hno (Bool.or_eq_true_iff.2 (.inr hpage))
      show (v || pages n) = v
      rw [hpage, Bool.or_false]
    | _ => rfl
  refine ⟨_, hstep, stepOk_of_ne nofun, h.move ⟨?_, ?_, ?_⟩ ?_ (fun _ => ?_) (fun _ _ => rfl) ?_⟩
  · intro k hk hno t'
    obtain ⟨n, rfl, hn⟩ := hnew k hk hno
    exact h.not_owns_page (hempty n hn)
  · intro k _ hno v
    rw [clip_none]
    exact hkeep k hno v
  · intro p hp hno
    obtain ⟨n, hn, _⟩ := hnew (.mcb p) hp hno
    cases hn
  · exact {
      handle := hlocal.handle
      mcb := hlocal.mcb
      slot := hlocal.slot
      page := fun n hn => by
        refine Bool.or_eq_true_iff.2 ((Bool.or_eq_true_iff.1 hn).imp_left fun hown => ?_)
        exact hlocal.page n hown
      unmapped := nofun
      installed := hlocal.installed
      nonzero := hlocal.nonzero }
  · refine Clean.isolated (h.iso t (by rw [hpc]; exact ⟨nofun, id⟩))
      ⟨fun k hk hno => ?_, fun k _ hno => hkeep k hno _, fun k hk hno => absurd (hsup k hk) hno⟩
    obtain ⟨n, rfl, hn⟩ := hnew k hk hno
    exact hempty n hn
  · exact fun id hid hno => absurd (hsup (.slot id) hid) hno

theorem keeps_section {file : ModFile} {hLDR mcb : UInt32} {mid : UInt8} {index : Nat}
    (h : Inv s) (hpc : s.pc t = .section_ file hLDR mid mcb index) (hlegal : Legal s (t, e))
    (hund : Undisturbed vmem_delete s (t, e)) : StepKeeps vmem_delete s t e := by
  have hlocal := h.here t
  rw [hpc] at hlocal
  obtain ⟨m, hm, _⟩ := hlocal.mcb mcb rfl
  simp only [Legal, hpc] at hlegal
  simp only [Undisturbed, hpc] at hund
  cases hsec : file.sections[index]? with
  | none =>
    refine .of_goto (.notify hLDR mid mcb) hpc (by simp only [step, hpc, hsec]) nofun h
      ⟨rfl, rfl, rfl, id, id, rfl, fun _ => ⟨nofun, id⟩⟩ nofun
  | some sec =>
    by_cases hindex : index = file.MagicIdx.toNat
    · refine .of_goto (.section_ file hLDR mid mcb (index + 1)) hpc
        (by simp only [step, hpc, hsec, if_pos hindex]) nofun h
        ⟨rfl, rfl, rfl, id, id, rfl, fun _ => ⟨nofun, id⟩⟩ nofun
    · by_cases hok : e.ok = true
      · refine keeps_map h hpc (hlegal hok m hm sec hsec) ?_
        simp [step, hpc, hsec, if_neg hindex, hok, hm, hund]
      · refine .of_goto (.undo hLDR mid mcb) hpc
          (by simp only [step, hpc, hsec, if_neg hindex, if_neg hok]) nofun h
          ⟨rfl, rfl, rfl, id, id, rfl, fun _ => ⟨nofun, id⟩⟩ nofun

/-! ## Steps that write what the call owns -/

theorem keeps_setSlot {file : ModFile} {hLDR mcb : UInt32} {mid : UInt8} (h : Inv s)
    (hpc : s.pc t = .setSlot file hLDR mid mcb) : StepKeeps vmem_delete s t e := by
  have hlocal := h.here t
  rw [hpc] at hlocal
  have hstep : step vmem_delete s t e =
      some ((s.write t (.slot mid) (some mcb)).goto t (.initMcb file hLDR mid mcb)) := by
    rw [step, hpc]
  have hsame : ∀ k, Owns (.initMcb file hLDR mid mcb) (s.own t) k ↔ s.Owns t k := by
    intro k
    rw [State.Owns, hpc]
    cases k <;> exact Iff.rfl
  rw [write_goto_eq] at hstep
  refine ⟨_, hstep, stepOk_of_ne nofun, h.write (by rw [State.Owns, hpc]; rfl)
    (fun k => (hsame k).1) ?_ (fun _ => ⟨by rw [hpc]; exact ⟨nofun, id⟩, fun k hk hno => ?_⟩)
    (fun _ _ => rfl) fun id hid hno => ?_⟩
  · exact {
      handle := hlocal.handle
      mcb := fun p hp => by
        obtain ⟨m, hm, _⟩ := hlocal.mcb p hp
        exact ⟨m, hm, nofun⟩
      slot := fun _ id hid => by
        cases hid
        exact put_self ..
      page := hlocal.page
      unmapped := hlocal.unmapped
      installed := hlocal.installed
      nonzero := hlocal.nonzero }
  · exact absurd ((hsame k).2 hk) hno
  · exact absurd ((hsame (.slot id)).2 hid) hno

/-- A call writes to its control block and goes on with what it has. -/
theorem keeps_writeMcb {pc₀ : Pc} {mid : UInt8} {mcb : UInt32} {m : Mcb} (h : Inv s)
    (hpc : s.pc t = pc₀)
    (hstep : step vmem_delete s t e = some ((s.write t (.mcb mcb) (some m)).goto t pc))
    (hid : pc.id = pc₀.id) (hmid : pc.id = some mid) (hm : m.id = mid)
    (hmcb : pc.mcb = pc₀.mcb) (hmcb' : pc.mcb = some mcb) (hh : pc.hLDR = pc₀.hLDR)
    (hfill : pc₀.filled = true) (hu : pc₀.uninstalling = false) (hu' : pc.uninstalling = false)
    (hi : pc₀.Installing) (hne : pc ≠ .idle) (hpages : pc.mapping = false → pc₀.mapping = false) :
    StepKeeps vmem_delete s t e := by
  subst hpc
  have hlocal := h.here t
  have hsame : ∀ k, Owns pc (s.own t) k ↔ s.Owns t k := by
    intro k
    rw [State.Owns]
    cases k with
    | slot id => exact iff_of_eq (congrArg (· = some id) hid)
    | mcb p => exact iff_of_eq (congrArg (· = some p) hmcb)
    | handle x => exact iff_of_eq (congrArg (· = some x) hh)
    | page n => exact Iff.rfl
  rw [write_goto_eq] at hstep
  refine ⟨_, hstep, stepOk_of_ne hne, h.write (hmcb.symm.trans hmcb') (fun k => (hsame k).1) ?_
    (fun _ => ⟨hi, fun k hk hno => absurd ((hsame k).2 hk) hno⟩) (fun _ _ => rfl)
    fun id hid hno => absurd ((hsame (.slot id)).2 hid) hno⟩
  exact {
    handle := fun x hx => hlocal.handle x (hh.symm.trans hx)
    mcb := fun p hp => by
      cases hmcb'.symm.trans hp
      exact ⟨m, put_self .., fun _ => hmid.trans (congrArg some hm.symm)⟩
    slot := fun _ id hid' => (hlocal.slot hfill id (hid.symm.trans hid')).trans hmcb.symm
    page := hlocal.page
    unmapped := fun hm => hlocal.unmapped (hpages hm)
    installed := fun id hid' =>
      (hlocal.installed id (hid.symm.trans hid')).trans (hu.trans hu'.symm)
    nonzero := fun _ id hid' => hlocal.nonzero hu id (hid.symm.trans hid') }

theorem keeps_initMcb {file : ModFile} {hLDR mcb : UInt32} {mid : UInt8} (h : Inv s)
    (hpc : s.pc t = .initMcb file hLDR mid mcb) : StepKeeps vmem_delete s t e := by
  obtain ⟨m, hm, _⟩ := (h.here t).mcb mcb (by rw [hpc]; rfl)
  have hstep : step vmem_delete s t e =
      some ((s.write t (.mcb mcb) (some { m with id := mid, type := file.type })).goto t
        (.mallocName file hLDR mid mcb)) := by
    simp [step, hpc, hm]
  exact keeps_writeMcb h hpc hstep rfl rfl rfl rfl rfl rfl rfl rfl rfl ⟨nofun, id⟩ nofun id

theorem id_sectionVMBitMapSet (m : Mcb) (sec : SectionHdr) :
    (MODS_SectionVMBitMapSet m sec).id = m.id := by
  unfold MODS_SectionVMBitMapSet
  split <;> rfl

theorem keeps_bitmap {file : ModFile} {hLDR mcb : UInt32} {mid : UInt8} {index : Nat}
    (h : Inv s) (hpc : s.pc t = .bitmap file hLDR mid mcb index) :
    StepKeeps vmem_delete s t e := by
  obtain ⟨m, hm, hid⟩ := (h.here t).mcb mcb (by rw [hpc]; rfl)
  have hmid : m.id = mid := by
    rw [hpc] at hid
    exact (Option.some.inj (hid rfl)).symm
  have hwrite : ∀ m', m'.id = m.id → step vmem_delete s t e =
      some ((s.write t (.mcb mcb) (some m')).goto t (.section_ file hLDR mid mcb (index + 1))) →
      StepKeeps vmem_delete s t e := fun m' hm' hstep =>
    keeps_writeMcb h hpc hstep rfl rfl (hm'.trans hmid) rfl rfl rfl rfl rfl rfl ⟨nofun, id⟩ nofun
      nofun
  cases hsec : file.sections[index]? with
  | none => exact hwrite m rfl (by simp [step, hpc, hm, hsec])
  | some sec =>
    by_cases hok : e.ok = true
    · exact hwrite _ (id_sectionVMBitMapSet m sec) (by simp [step, hpc, hm, hsec, hok])
    · exact hwrite m rfl (by simp [step, hpc, hm, hsec, hok])

theorem keeps_notify {hLDR mcb : UInt32} {mid : UInt8} (h : Inv s)
    (hpc : s.pc t = .notify hLDR mid mcb) (hund : Undisturbed vmem_delete s (t, e)) :
    StepKeeps vmem_delete s t e := by
  have hmid : mid ≠ 0 := (h.here t).nonzero (by rw [hpc]; rfl) mid (by rw [hpc]; rfl)
  by_cases hok : e.ok = true
  · refine .of_goto (.unload hLDR mid mcb) hpc (by rw [step, hpc]; exact if_pos hok) nofun h
      ⟨rfl, rfl, rfl, id, id, rfl, fun _ => ⟨nofun, id⟩⟩ nofun
  · simp only [Undisturbed, hpc] at hund
    have hstep : step vmem_delete s t e = some (s.goto t (.clearSlot hLDR mid (some mcb))) := by
      rw [step, hpc]
      exact if_neg hok
    rw [goto_eq] at hstep
    refine ⟨_, hstep, stepOk_of_ne nofun, h.follow ?_ fun _ => hund.resolve_left hok⟩
    rw [hpc]
    exact follows_clearSlot (if_neg hmid).symm rfl rfl rfl ⟨nofun, id⟩

/-- A call unmaps pages and writes to its control block. -/
theorem Tidy.unmap {pages : Nat → Bool} (hk : s.Owns t k)
    (hsub : ∀ k', Owns pc (fun n => s.own t n && !pages n) k' → s.Owns t k') :
    Tidy s t pc (fun k' old => put k v k' (clip pages k' old)) pages
      fun n => s.own t n && !pages n :=
  .of_sub hsub fun k' hno old =>
    put_of_ne (fun hkk => hno (hkk.subst (motive := s.Owns t) hk)) v (clip pages k' old)

theorem keeps_undo {hLDR mcb : UInt32} {mid : UInt8} (h : Inv s)
    (hpc : s.pc t = .undo hLDR mid mcb) (hund : Undisturbed vmem_delete s (t, e)) :
    StepKeeps vmem_delete s t e := by
  have hlocal := h.here t
  rw [hpc] at hlocal
  obtain ⟨m, hm, _⟩ := hlocal.mcb mcb rfl
  have hmid : mid ≠ 0 := hlocal.nonzero rfl mid rfl
  simp only [Undisturbed, hpc] at hund
  have hpages : ∀ n, s.mem (.page n) = true → destroyPages vmem_delete m n = s.own t n := hund m hm
  set pages := destroyPages vmem_delete m
  have hnone : ∀ n, (s.own t n && !pages n) = false := by
    intro n
    cases hown : s.own t n with
    | false => rfl
    | true => rw [hpages n (hlocal.page n hown), hown]; rfl
  have hstep : step vmem_delete s t e = some (((s.unmap t pages).write t (.mcb mcb)
      (some { m with vmbitmap := 0 })).goto t (.clearSlot hLDR mid (some mcb))) := by
    simp only [step, hpc, hm, Option.bind_eq_bind, Option.bind_some]
    rfl
  have hsub : ∀ k, Owns (.clearSlot hLDR mid (some mcb)) (fun n => s.own t n && !pages n) k →
      s.Owns t k := by
    intro k hk
    rw [State.Owns, hpc]
    cases k with
    | slot id => exact (if_neg hmid).symm.trans hk
    | page n => exact absurd hk (Bool.eq_false_iff.1 (hnone n))
    | _ => exact hk
  have hown : s.Owns t (.mcb mcb) := by
    rw [State.Owns, hpc]
    rfl
  rw [unmap_write_goto_eq] at hstep
  refine ⟨_, hstep, stepOk_of_ne nofun, h.move (.unmap hown hsub) ?_ (fun _ => ?_)
    (fun _ _ => rfl) fun id hid hno => ?_⟩
  · exact {
      handle := hlocal.handle
      mcb := fun p hp => by
        cases hp
        exact ⟨_, put_self .., nofun⟩
      slot := nofun
      page := fun n hn => absurd hn (Bool.eq_false_iff.1 (hnone n))
      unmapped := fun _ => hnone
      installed := fun id hid => hlocal.installed id ((if_neg hmid).symm.trans hid)
      nonzero := fun _ id hid => hlocal.nonzero rfl id ((if_neg hmid).symm.trans hid) }
  · refine Clean.isolated (h.iso t (by rw [hpc]; exact ⟨nofun, id⟩)) (.of_sub hsub ?_ ?_)
    · intro k hno
      refine (put_of_ne (fun hk => hno (hk.subst (motive := s.Owns t) hown)) _ _).trans ?_
      cases k with
      | page n =>
        cases hmem : s.mem (.page n) with
        | false => rfl
        | true =>
          show (!pages n) = true
          rw [hpages n hmem, Bool.eq_false_iff.2 hno]
          rfl
      | _ => rfl
    · intro k hk hno
      rw [State.Owns, hpc] at hk
      cases k with
      | page n =>
        have hother : Key.mcb mcb ≠ Key.page n := nofun
        refine (put_of_ne hother _ _).trans ?_
        show (s.mem (.page n) && !pages n) = false
        rw [hpages n (hlocal.page n hk), show s.own t n = true from hk]
        exact Bool.and_false _
      | slot id => exact absurd ((if_neg hmid).trans hk) hno
      | _ => exact absurd hk hno
  · rw [hpc] at hid
    exact absurd ((if_neg hmid).trans hid) hno

theorem keeps_clearSlot {hLDR : UInt32} {mid : UInt8} {mcb : Option UInt32} (h : Inv s)
    (hpc : s.pc t = .clearSlot hLDR mid mcb) : StepKeeps vmem_delete s t e := by
  have hlocal := h.here t
  rw [hpc] at hlocal
  by_cases hmid : mid = 0
  · refine .of_goto (.unloadError hLDR mcb) hpc (by simp only [step, hpc, if_pos hmid]) nofun h
      ⟨(if_pos hmid).symm, rfl, rfl, nofun, nofun, rfl, fun _ => ⟨nofun, id⟩⟩ id
  · have hstep : step vmem_delete s t e =
        some ((s.write t (.slot mid) none).goto t (.unloadError hLDR mcb)) := by
      simp only [step, hpc, if_neg hmid]
    have hid : (Pc.clearSlot hLDR mid mcb).id = some mid := if_neg hmid
    rw [write_goto_eq] at hstep
    refine ⟨_, hstep, stepOk_of_ne nofun, h.write (by rw [State.Owns, hpc]; exact hid)
      (fun k hk => ?_) ?_ (fun _ => ⟨by rw [hpc]; exact ⟨nofun, id⟩, fun k hk hno => ?_⟩)
      (fun _ _ => rfl) fun id hid' _ => ?_⟩
    · rw [State.Owns, hpc]
      cases k with
      | slot id => cases hk
      | _ => exact hk
    · exact {
        handle := hlocal.handle
        mcb := fun p hp => by
          obtain ⟨m, hm, _⟩ := hlocal.mcb p hp
          exact ⟨m, hm, nofun⟩
        slot := nofun
        page := hlocal.page
        unmapped := hlocal.unmapped
        installed := nofun
        nonzero := fun _ => nofun }
    · rw [State.Owns, hpc] at hk
      cases k with
      | slot id =>
        cases hid.symm.trans hk
        exact ⟨rfl, rfl⟩
      | _ => exact absurd hk hno
    · rw [hpc] at hid'
      cases hid.symm.trans hid'
      rw [put_self]
      exact hlocal.installed mid hid

theorem keeps_unloadError {hLDR : UInt32} {mcb : Option UInt32} (h : Inv s)
    (hpc : s.pc t = .unloadError hLDR mcb) : StepKeeps vmem_delete s t e := by
  have hlocal := h.here t
  rw [hpc] at hlocal
  have hstep : step vmem_delete s t e =
      some ((s.write t (.handle hLDR) false).goto t (.freeError mcb)) := by
    simp [step, hpc, State.close, hlocal.handle hLDR rfl]
  rw [write_goto_eq] at hstep
  refine ⟨_, hstep, stepOk_of_ne nofun, h.write (by rw [State.Owns, hpc]; rfl)
    (fun k hk => ?_) ?_ (fun _ => ⟨by rw [hpc]; exact ⟨nofun, id⟩, fun k hk hno => ?_⟩)
    (fun _ _ => rfl) fun id hid _ => ?_⟩
  · rw [State.Owns, hpc]
    cases k with
    | handle x => cases hk
    | _ => exact hk
  · exact {
      handle := nofun
      mcb := hlocal.mcb
      slot := nofun
      page := hlocal.page
      unmapped := hlocal.unmapped
      installed := nofun
      nonzero := fun _ => nofun }
  · rw [State.Owns, hpc] at hk
    cases k with
    | handle x =>
      cases hk
      exact ⟨rfl, rfl⟩
    | _ => exact absurd hk hno
  · rw [hpc] at hid
    cases hid

theorem keeps_freeError {mcb : Option UInt32} (h : Inv s) (hpc : s.pc t = .freeError mcb) :
    StepKeeps vmem_delete s t e := by
  cases mcb with
  | none =>
    exact .of_return 0 hpc (by rw [step, hpc]) h ⟨nofun, id⟩
      ⟨rfl, rfl, rfl, nofun, nofun, rfl, fun hi => absurd hi not_installing_idle⟩ rfl
  | some p =>
    have hlocal := h.here t
    rw [hpc] at hlocal
    obtain ⟨m, hm, _⟩ := hlocal.mcb p rfl
    have hstep : step vmem_delete s t e = some ((s.write t (.mcb p) none).return_ t 0) := by
      simp [step, hpc, hm]
    have hk : s.Owns t (.mcb p) := by rw [State.Owns, hpc]; rfl
    have hown : ∀ n, s.own t n = false := hlocal.unmapped rfl
    have hsub : ∀ k, Owns .idle (s.own t) k → s.Owns t k := by
      intro k hk
      cases k with
      | page n => exact absurd hk (Bool.eq_false_iff.1 (hown n))
      | _ => cases hk
    rw [write_return_eq] at hstep
    refine ⟨_, hstep, stepOk_of_clean (h.iso t (by rw [hpc]; exact ⟨nofun, id⟩)) hown
      (.write hk hsub fun k hk hno => ?_), h.write hk hsub ?_
      (fun hi => absurd hi not_installing_idle) (fun _ _ => rfl) fun id hid _ => ?_⟩
    · rw [State.Owns, hpc] at hk
      cases k with
      | mcb p' =>
        cases hk
        exact ⟨rfl, rfl⟩
      | page n => exact absurd hk hno
      | _ => cases hk
    · exact ⟨nofun, nofun, nofun, hlocal.page, fun _ => hown, nofun, fun _ => nofun⟩
    · rw [hpc] at hid
      cases hid

/-- What a call that has filled its slot leaves in the table. -/
theorem Inv.filled (h : Inv s) {id : UInt8} {p : UInt32} (hid : (s.pc t).id = some id)
    (hp : (s.pc t).mcb = some p) (hfill : (s.pc t).filled = true) (hname : (s.pc t).named = true) :
    s.mem (.slot id) = some p ∧ (∃ m, s.mem (.mcb p) = some m ∧ m.id = id) ∧
      ∀ t', t' ≠ t → (s.pc t').mcb ≠ some p := by
  obtain ⟨m, hm, hmid⟩ := (h.here t).mcb p hp
  have hslot : s.mem (.slot id) = some p := ((h.here t).slot hfill id hid).trans hp
  have hid' : m.id = id := Option.some.inj ((hmid hname).symm.trans hid)
  exact ⟨hslot, ⟨m, hm, hid'⟩, fun t' hne hp' => hne (h.excl t' t (.mcb p) hp' hp)⟩

/-- A thread that is not in a call has nothing. -/
theorem local_idle {own : Nat → Bool} (hown : ∀ n, own n = false) : Local s .idle own :=
  ⟨nofun, nofun, nofun, fun n hn => absurd hn (Bool.eq_false_iff.1 (hown n)), fun _ => hown, nofun,
    fun _ => nofun⟩

theorem not_owns_idle {own : Nat → Bool} (hown : ∀ n, own n = false) : ¬ Owns .idle own k := by
  intro hk
  cases k with
  | page n => exact absurd hk (Bool.eq_false_iff.1 (hown n))
  | _ => cases hk

/-- The table when a call returns and leaves a module there. -/
theorem entry_return {g : ∀ k, Val k → Val k} {own : Nat → Bool} {id : UInt8} {p : UInt32} {m : Mcb}
    (hslot : g (.slot id) (s.mem (.slot id)) = some p) (hm : g (.mcb p) (s.mem (.mcb p)) = some m)
    (hmid : m.id = id) (hother : ∀ t', t' ≠ t → (s.pc t').mcb ≠ some p)
    (hinst : installed id = true) :
    Entry (s.move t .idle g (fun _ => false) own ret installed) id
      ((s.move t .idle g (fun _ => false) own ret installed).mem (.slot id)) := by
  have hmem : (s.move t .idle g (fun _ => false) own ret installed).mem (.slot id) = some p := hslot
  rw [hmem]
  refine ⟨hinst, ⟨m, hm, hmid⟩, fun t' => ?_⟩
  by_cases ht : t' = t
  · rw [ht, move_pc_self]
    nofun
  · rw [move_pc_of_ne ht]
    exact hother t' ht

theorem keeps_unload {hLDR mcb : UInt32} {mid : UInt8} (h : Inv s)
    (hpc : s.pc t = .unload hLDR mid mcb) : StepKeeps vmem_delete s t e := by
  have hlocal := h.here t
  rw [hpc] at hlocal
  have hmid : mid ≠ 0 := hlocal.nonzero rfl mid rfl
  have hinstalling : (s.pc t).Installing := by
    rw [hpc]
    exact ⟨nofun, id⟩
  have hk : s.Owns t (.handle hLDR) := by
    rw [State.Owns, hpc]
    rfl
  have hstep : step vmem_delete s t e = some (s.move t .idle (put (.handle hLDR) false)
      (fun _ => false) (fun _ => false) (update s.ret t mid.toUInt32)
      (update s.installed mid true)) := by
    simp only [step, hpc, State.close, hlocal.handle hLDR rfl, if_true, Option.bind_eq_bind,
      Option.bind_some]
    unfold State.move
    rw [own_update]
    rfl
  refine ⟨_, hstep, fun _ _ => ⟨fun x => ?_, fun hfail => ?_⟩,
    h.move (.of_sub (fun k hk => absurd hk (not_owns_idle fun _ => rfl)) fun k hno v => ?_)
      (local_idle fun _ => rfl) (fun hi => absurd hi not_installing_idle) (fun id hid => ?_)
      fun id hid _ => ?_⟩
  · have hiso := h.iso t hinstalling
    by_cases hx : hLDR = x
    · subst hx
      exact (put_self ..).trans (hiso.empty (.handle hLDR) hk).symm
    · refine (put_of_ne (fun hk => hx (Key.handle.inj hk)) _ _).trans (hiso.same (.handle x) ?_)
      rw [State.Owns, hpc]
      exact fun hx' => hx (Option.some.inj hx')
  · rcases hfail with hret | ⟨file, x, hget⟩
    · have hret' : update s.ret t mid.toUInt32 t = 0 := hret
      rw [update_self] at hret'
      exact absurd (UInt8.toUInt32_inj.1 hret') hmid
    · cases hpc.symm.trans hget
  · rw [clip_none]
    exact put_of_ne (fun hkk => hno (hkk.subst (motive := s.Owns t) hk)) _ v
  · rw [hpc] at hid
    exact update_of_ne (fun hne => hid (congrArg some hne.symm)) _ _
  · obtain ⟨hslot, ⟨m, hm, hm'⟩, hother⟩ := h.filled hid (by rw [hpc]; rfl) (by rw [hpc]; rfl)
      (by rw [hpc]; rfl)
    rw [hpc] at hid
    cases hid
    exact entry_return hslot hm hm' hother (update_self ..)

/-! ## The steps of an uninstall -/

theorem keeps_exit {id : UInt8} {mcb : UInt32} (h : Inv s) (hpc : s.pc t = .exit id mcb) :
    StepKeeps vmem_delete s t e := by
  have hlocal := h.here t
  rw [hpc] at hlocal
  obtain ⟨m, hm, _⟩ := hlocal.mcb mcb rfl
  by_cases hok : e.ok = true
  · exact .of_goto (.destroy id mcb) hpc (by simp [step, hpc, hm, hok]) nofun h
      ⟨rfl, rfl, rfl, fun _ => rfl, nofun, rfl, fun hi => absurd trivial hi.2⟩ fun _ => rfl
  · have hstep : step vmem_delete s t e = some (s.return_ t EPDK_FAIL) := by
      simp [step, hpc, hm, hok]
    have hown : ∀ n, s.own t n = false := hlocal.unmapped rfl
    rw [return_eq] at hstep
    refine ⟨_, hstep, fun hi => absurd trivial (hpc ▸ hi).2,
      h.move (.of_sub (fun k hk => absurd hk (not_owns_idle hown)) fun k _ v => (clip_none k v).symm)
        (local_idle hown) (fun hi => absurd hi not_installing_idle) (fun _ _ => rfl)
        fun id' hid _ => ?_⟩
    obtain ⟨hslot, ⟨m, hm, hm'⟩, hother⟩ := h.filled hid (by rw [hpc]; rfl) (by rw [hpc]; rfl)
      (by rw [hpc]; rfl)
    rw [hpc] at hid
    cases hid
    exact entry_return hslot hm hm' hother (hlocal.installed id rfl)

theorem keeps_destroy {id : UInt8} {mcb : UInt32} (h : Inv s) (hpc : s.pc t = .destroy id mcb) :
    StepKeeps vmem_delete s t e := by
  have hlocal := h.here t
  rw [hpc] at hlocal
  obtain ⟨m, hm, hmid⟩ := hlocal.mcb mcb rfl
  have hnone : ∀ n, (s.own t n && !destroyPages vmem_delete m n) = false := fun n => by
    rw [hlocal.unmapped rfl n]
    rfl
  have hstep : step vmem_delete s t e = some (((s.unmap t (destroyPages vmem_delete m)).write t
      (.mcb mcb) (some { m with vmbitmap := 0 })).goto t (.free id mcb)) := by
    simp only [step, hpc, hm, Option.bind_eq_bind, Option.bind_some]
  have hsub : ∀ k, Owns (.free id mcb) (fun n => s.own t n && !destroyPages vmem_delete m n) k →
      s.Owns t k := by
    intro k hk
    rw [State.Owns, hpc]
    cases k with
    | page n => exact absurd hk (Bool.eq_false_iff.1 (hnone n))
    | _ => exact hk
  rw [unmap_write_goto_eq] at hstep
  refine ⟨_, hstep, stepOk_of_ne nofun, h.move (.unmap (by rw [State.Owns, hpc]; rfl) hsub) ?_
    (fun hi => absurd trivial hi.2) (fun _ _ => rfl) fun id' hid hno => ?_⟩
  · exact {
      handle := nofun
      mcb := fun p hp => by
        cases hp
        exact ⟨_, put_self .., hmid⟩
      slot := nofun
      page := fun n hn => absurd hn (Bool.eq_false_iff.1 (hnone n))
      unmapped := fun _ => hnone
      installed := hlocal.installed
      nonzero := nofun }
  · rw [hpc] at hid
    exact absurd hid hno

theorem keeps_free {id : UInt8} {mcb : UInt32} (h : Inv s) (hpc : s.pc t = .free id mcb) :
    StepKeeps vmem_delete s t e := by
  have hlocal := h.here t
  rw [hpc] at hlocal
  obtain ⟨m, hm, _⟩ := hlocal.mcb mcb rfl
  have hstep : step vmem_delete s t e = some ((s.write t (.mcb mcb) none).goto t (.clear id)) := by
    simp [step, hpc, hm]
  rw [write_goto_eq] at hstep
  refine ⟨_, hstep, stepOk_of_ne nofun, h.write (by rw [State.Owns, hpc]; rfl) (fun k hk => ?_) ?_
    (fun hi => absurd trivial hi.2) (fun _ _ => rfl) fun id' hid hno => ?_⟩
  · rw [State.Owns, hpc]
    cases k with
    | mcb p => cases hk
    | _ => exact hk
  · exact ⟨nofun, nofun, nofun, hlocal.page, fun _ => hlocal.unmapped rfl, hlocal.installed, nofun⟩
  · rw [hpc] at hid
    exact absurd hid hno

theorem keeps_clear {id : UInt8} (h : Inv s) (hpc : s.pc t = .clear id) :
    StepKeeps vmem_delete s t e := by
  have hlocal := h.here t
  rw [hpc] at hlocal
  have hown : ∀ n, s.own t n = false := hlocal.unmapped rfl
  have hstep : step vmem_delete s t e = some (s.move t .idle (put (.slot id) none)
      (fun _ => false) (s.own t) (update s.ret t EPDK_OK) (update s.installed id false)) := by
    rw [step, hpc]
    unfold State.move
    rw [own_update_self]
    rfl
  refine ⟨_, hstep, fun hi => absurd trivial (hpc ▸ hi).2, h.write (by rw [State.Owns, hpc]; rfl)
    (fun k hk => absurd hk (not_owns_idle hown)) (local_idle hown)
    (fun hi => absurd hi not_installing_idle) (fun id' hid => ?_) fun id' hid _ => ?_⟩
  · rw [hpc] at hid
    exact update_of_ne (fun hne => hid (congrArg some hne.symm)) _ _
  · rw [hpc] at hid
    cases hid
    rw [put_self]
    exact update_self ..

/-! ## Calls begin -/

/-- A thread that is not in a call begins one. -/
theorem Inv.enter (h : Inv s) (hpc : s.pc t = .idle) :
    Inv { s with shared := s.shared.enter t } where
  excl := h.excl
  here t' :=
    have hlocal := h.here t'
    { hlocal with }
  iso t' hi := by
    by_cases ht : t' = t
    · subst ht
      exact absurd hpc hi.1
    · exact (h.iso t' hi).enter_other ht
  table id hid := h.table id hid

theorem keeps_install {file : ModFile} (h : Inv s) (hpc : s.pc t = .idle)
    (hcall : e.call = .install file) : StepKeeps vmem_delete s t e := by
  have hstep : step vmem_delete s t e =
      some ({ s with shared := s.shared.enter t }.goto t (.load file)) := by
    simp only [step, hpc, hcall]
  have hown : ∀ n, s.own t n = false := (h.here t).unmapped (by rw [hpc]; rfl)
  have hnone : Owns (.load file) (s.own t) = fun _ => False := by
    funext k
    cases k with
    | page n => exact eq_false (Bool.eq_false_iff.1 (hown n))
    | _ => exact eq_false nofun
  rw [goto_eq] at hstep
  refine ⟨_, hstep, fun _ hidle => absurd (move_pc_self.symm.trans hidle) nofun,
    (h.enter hpc).move (.of_sub (fun k hk => ((congrFun hnone k).mp hk).elim)
      fun k _ v => (clip_none k v).symm) ?_ (fun _ => ?_) (fun _ _ => rfl) fun id hid _ => ?_⟩
  · exact ⟨nofun, nofun, nofun, fun n hn => absurd hn (Bool.eq_false_iff.1 (hown n)), fun _ => hown,
      nofun, fun _ => nofun⟩
  · rw [hnone]
    show ((s.shared.enter t).act t fun _ v => v).Isolated empty t fun _ => False
    rw [Shared.act_id]
    exact Shared.isolated_enter
  · have hid' : (s.pc t).id = some id := hid
    rw [hpc] at hid'
    cases hid'

theorem keeps_uninstall {id : UInt8} (h : Inv s) (hpc : s.pc t = .idle)
    (hcall : e.call = .uninstall id) (hund : Undisturbed vmem_delete s (t, e)) :
    StepKeeps vmem_delete s t e := by
  simp only [Undisturbed, hpc, hcall] at hund
  obtain ⟨hslot, hfree⟩ := hund
  obtain ⟨p, hp⟩ := Option.ne_none_iff_exists'.1 hslot
  have hentry := h.table id hfree
  rw [hp] at hentry
  obtain ⟨hinst, ⟨m, hm, hmid⟩, hother⟩ := hentry
  have hstep : step vmem_delete s t e =
      some ({ s with shared := s.shared.enter t }.goto t (.exit id p)) := by
    simp only [step, hpc, hcall, hp, Option.bind_eq_bind, Option.bind_some]
  have hown : ∀ n, s.own t n = false := (h.here t).unmapped (by rw [hpc]; rfl)
  rw [goto_eq] at hstep
  refine ⟨_, hstep, fun hi => absurd hpc hi.1, (h.enter hpc).move ⟨?_, ?_, ?_⟩ ?_
    (fun hi => absurd trivial hi.2) (fun _ _ => rfl) fun id' hid _ => ?_⟩
  · intro k hk _ t'
    cases k with
    | slot id' =>
      cases hk
      exact hfree t'
    | mcb p' =>
      cases hk
      exact hother t'
    | handle x => cases hk
    | page n => exact absurd hk (Bool.eq_false_iff.1 (hown n))
  · exact fun k _ _ v => (clip_none k v).symm
  · intro p' hp' _ id' hid' hne hslot'
    cases hp'
    have hentry := h.table id' hid'
    have hslot' : s.mem (.slot id') = some p := hslot'
    rw [hslot'] at hentry
    obtain ⟨_, ⟨m', hm', hmid'⟩, _⟩ := hentry
    cases hm.symm.trans hm'
    exact hne (congrArg some (hmid.symm.trans hmid'))
  · exact {
      handle := nofun
      mcb := fun p' hp' => by
        cases hp'
        exact ⟨m, hm, fun _ => congrArg some hmid.symm⟩
      slot := fun _ id' hid' => by
        cases hid'
        exact hp
      page := fun n hn => absurd hn (Bool.eq_false_iff.1 (hown n))
      unmapped := fun _ => hown
      installed := fun id' hid' => by
        cases hid'
        exact hinst
      nonzero := nofun }
  · have hid : (s.pc t).id = some id' := hid
    rw [hpc] at hid
    cases hid

/-! ## Runs -/

theorem keeps (h : Inv s) (hlegal : Legal s (t, e)) (hund : Undisturbed vmem_delete s (t, e)) :
    StepKeeps vmem_delete s t e := by
  cases hpc : s.pc t with
  | idle =>
    cases hcall : e.call with
    | install file => exact keeps_install h hpc hcall
    | uninstall id => exact keeps_uninstall h hpc hcall hund
  | load file => exact keeps_load h hpc hlegal
  | fileType file hLDR => exact keeps_fileType h hpc
  | magic file hLDR => exact keeps_magic h hpc
  | getId file hLDR => exact keeps_getId h hpc hund
  | mallocMcb file hLDR mid => exact keeps_mallocMcb h hpc hlegal
  | setSlot file hLDR mid mcb => exact keeps_setSlot h hpc
  | initMcb file hLDR mid mcb => exact keeps_initMcb h hpc
  | mallocName file hLDR mid mcb => exact keeps_mallocName h hpc
  | section_ file hLDR mid mcb index => exact keeps_section h hpc hlegal hund
  | bitmap file hLDR mid mcb index => exact keeps_bitmap h hpc
  | undo hLDR mid mcb => exact keeps_undo h hpc hund
  | notify hLDR mid mcb => exact keeps_notify h hpc hund
  | unload hLDR mid mcb => exact keeps_unload h hpc
  | clearSlot hLDR mid mcb => exact keeps_clearSlot h hpc
  | unloadError hLDR mcb => exact keeps_unloadError h hpc
  | freeError mcb => exact keeps_freeError h hpc
  | exit id mcb => exact keeps_exit h hpc
  | destroy id mcb => exact keeps_destroy h hpc
  | free id mcb => exact keeps_free h hpc
  | clear id => exact keeps_clear h hpc

/-- **The module table is sound all along an undisturbed run, and its installs leave nothing behind
that they should not.** -/
theorem modules_intact (vmem_delete : VmemDelete) {is : List (Tid × Env)}
    (h : (mods vmem_delete).Meets (fun s i => Legal s i ∧ Undisturbed vmem_delete s i) init is) :
    (mods vmem_delete).Upholds Sound StepOk init is :=
  Machine.upholds_of_inv (fun _ => Inv.sound)
    (fun _ _ hInv hC => keeps hInv hC.1 hC.2) inv_init h

/-- A system module with a magic section only. -/
def magicFile : ModFile := ⟨LDR_MODULE_FILE, 0, 0, [⟨16, 0, 3, 0⟩]⟩

/-- The steps of an install up to where it looks at the slot. -/
def installStart (hLDR : UInt32) : List (Tid × Env) :=
  [(0, { call := .install magicFile }), (0, { ptr := hLDR }), (0, {}), (0, {})]

/-- The steps of an install that finds its slot empty. -/
def installRest (mcb : UInt32) : List (Tid × Env) :=
  [(0, {}), (0, { ptr := mcb }), (0, {}), (0, {}), (0, {}), (0, { ok := false }), (0, {}), (0, {}),
    (0, {})]

def uninstallSteps : List (Tid × Env) :=
  [(0, { call := .uninstall EPOS_smid_min }), (0, {}), (0, {}), (0, {}), (0, {})]

theorem unclaimed_of_idle {id : UInt8} (hother : ∀ t', t' ≠ t → s.pc t' = .idle)
    (hself : (s.pc t).id ≠ some id) : Unclaimed s id := fun t' => by
  by_cases ht : t' = t
  · rw [ht]
    exact hself
  · rw [hother t' ht]
    nofun

theorem modules_intact_once : (mods fun _ _ _ => false).Upholds Sound StepOk init
    (installStart 1 ++ installRest 2 ++ uninstallSteps) := by
  refine modules_intact _ ?_
  refine .of_next ⟨trivial, trivial⟩ rfl (.of_next ⟨fun _ => rfl, trivial⟩ rfl
    (.of_next ⟨trivial, trivial⟩ rfl (.of_next ⟨trivial, trivial⟩ rfl
    (.of_next ⟨trivial, fun _ => ⟨rfl, ?_⟩⟩ rfl ?_))))
  · exact unclaimed_of_idle (t := 0) (fun t' ht => by
      simp [State.goto, State.write, update_of_ne ht, init]) nofun
  refine .of_next ⟨fun _ => rfl, trivial⟩ rfl (.of_next ⟨trivial, trivial⟩ rfl
    (.of_next ⟨trivial, trivial⟩ rfl (.of_next ⟨trivial, trivial⟩ rfl
    (.of_next ⟨nofun, rfl⟩ rfl (.of_next ⟨fun _ _ _ _ h => (nomatch h), rfl⟩ rfl
    (.of_next ⟨trivial, .inl rfl⟩ rfl (.of_next ⟨trivial, trivial⟩ rfl
    (.of_next ⟨trivial, nofun, ?_⟩ rfl ?_))))))))
  · exact unclaimed_of_idle (t := 0) (fun t' ht => by
      simp [State.goto, State.write, State.return_, init]) nofun
  · exact .of_next ⟨trivial, trivial⟩ rfl (.of_next ⟨trivial, trivial⟩ rfl
      (.of_next ⟨trivial, trivial⟩ rfl (.of_next ⟨trivial, trivial⟩ rfl trivial)))

/-- The second install of a module does not close its handle. -/
theorem install_twice : ∃ is, (mods fun _ _ _ => false).Meets Legal init is ∧
    ¬ (mods fun _ _ _ => false).Upholds Sound StepOk init is := by
  refine ⟨installStart 1 ++ installRest 2 ++ installStart 3 ++ [(0, { ptr := 0 })], ?_, fun hup => ?_⟩
  · refine .of_next trivial rfl (.of_next (fun _ => rfl) rfl (.of_next trivial rfl
      (.of_next trivial rfl (.of_next trivial rfl (.of_next (fun _ => rfl) rfl (.of_next trivial rfl
      (.of_next trivial rfl (.of_next trivial rfl (.of_next nofun rfl
      (.of_next (fun _ _ _ _ h => nomatch h) rfl (.of_next trivial rfl ?_)))))))))))
    exact .of_next trivial rfl (.of_next trivial rfl (.of_next (fun _ => rfl) rfl
      (.of_next trivial rfl (.of_next trivial rfl (.of_next trivial rfl trivial)))))
  · obtain ⟨s', hs', hok⟩ := hup.last rfl
    cases hs'
    exact Bool.noConfusion ((hok ⟨nofun, id⟩ rfl).1 3)

end Melis.Mods
