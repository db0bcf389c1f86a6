import Melis.Kgdb.SwBreak

/-!
# Hardware breakpoints and watchpoints in their registers

An entry that is active `Holds` its registers. A stop clears those of a breakpoint
(`deactivateHwBreak_spec`) and writes those of a watchpoint once more
(`deactivateHwWatch_spec`), so a stopped watchpoint may have them still (`Quiet`).
-/

namespace Melis.Kgdb

open Lib Function

variable {ctrl : BpType → Option (BitVec 32)} {fault : RegFault} {faults : Nat → RegFault}
  {t t' : List (Bkpt WbReg)} {e : Bkpt WbReg} {i : Nat} {addr : Addr} {c : BitVec 32}
  {reg reg' : WbReg} {err : Error}

/-! ## One install -/

theorem armInstall_ok (h : armInstall fault (some c) reg addr = (reg', none)) :
    reg' = ⟨wordAddr addr, c⟩ := by
  unfold armInstall at h
  dsimp only at h
  split at h
  · cases h
  · rename_i hvalue
    obtain ⟨rfl, hctrl⟩ := Prod.mk.inj h
    have hvalue : writeWbReg fault.value reg.value (wordAddr addr) = wordAddr addr := by
      simpa using hvalue
    have hctrl : writeWbReg fault.control reg.control c = c := by simpa using hctrl
    rw [hvalue, hctrl]

theorem armInstall_err (h : armInstall fault (some c) reg addr = (reg', some err)) :
    reg'.control = reg.control ∧ err = .fault ∧ (fault.value || fault.control) = true := by
  unfold armInstall at h
  dsimp only at h
  split at h
  · rename_i hvalue
    simp only [Prod.mk.injEq, Option.some.injEq] at h
    obtain ⟨rfl, rfl⟩ := h
    refine ⟨rfl, rfl, ?_⟩
    cases hv : fault.value with
    | true => rfl
    | false => simp [writeWbReg, hv] at hvalue
  · simp only [Prod.mk.injEq, Option.ite_none_right_eq_some, Option.some.injEq] at h
    obtain ⟨rfl, hctrl, rfl⟩ := h
    cases hc : fault.control with
    | true => exact ⟨by simp [writeWbReg], rfl, Bool.or_true _⟩
    | false => simp [writeWbReg, hc] at hctrl

/-- Registers that have what is written keep it. -/
theorem armInstall_same :
    armInstall fault (some c) ⟨wordAddr addr, c⟩ addr = (⟨wordAddr addr, c⟩, none) := by
  simp [armInstall, writeWbReg]

/-! ## Entries and their registers -/

/-- The registers have the address and the type of the entry. -/
def Holds (ctrl : BpType → Option (BitVec 32)) (e : Bkpt WbReg) : Prop :=
  ctrl e.type = some e.reg.control ∧ e.reg.value = wordAddr e.bptAddr

/-- While the target runs. -/
def Armed (ctrl : BpType → Option (BitVec 32)) (e : Bkpt WbReg) : Prop :=
  (e.state = .active → Holds ctrl e) ∧ (e.state ≠ .active → e.reg.control = 0)

/-- While it is stopped. -/
def Quiet (ctrl : BpType → Option (BitVec 32)) (e : Bkpt WbReg) : Prop :=
  e.reg.control = 0 ∨ e.state = .set ∧ Holds ctrl e

/-- The types of the live entries have a control word. -/
def Typed (ctrl : BpType → Option (BitVec 32)) (t : List (Bkpt WbReg)) : Prop :=
  ∀ p ∈ entries t, (ctrl p.2).isSome = true

theorem Holds.reg_eq (h : Holds ctrl e) (hc : ctrl e.type = some c) :
    e.reg = ⟨wordAddr e.bptAddr, c⟩ := by
  obtain ⟨hctrl, hvalue⟩ := h
  rw [hc] at hctrl
  rw [← hvalue, Option.some.inj hctrl]

/-- An install over the same registers. -/
theorem Holds.armInstall_eq (h : Holds ctrl e) (fault : RegFault) :
    armInstall fault (ctrl e.type) e.reg e.bptAddr = (e.reg, none) := by
  rw [h.1, h.reg_eq h.1]
  exact armInstall_same

theorem Quiet.control_eq_zero (h : Quiet ctrl e) (hset : e.state ≠ .set) : e.reg.control = 0 :=
  h.resolve_right fun hq => hset hq.1

theorem Typed.exists_ctrl (h : Typed ctrl t) (he : e ∈ t) (hlive : e.isLive = true) :
    ∃ c, ctrl e.type = some c :=
  Option.isSome_iff_exists.1 (h _ (mem_entries.2 ⟨e, he, hlive, rfl⟩))

theorem Typed.tail (h : Typed ctrl (e :: t)) : Typed ctrl t := by
  intro p hp
  obtain ⟨d, hd, hlive, heq⟩ := mem_entries.1 hp
  exact h p (mem_entries.2 ⟨d, List.mem_cons_of_mem _ hd, hlive, heq⟩)

/-! ## Activating -/

/-- An entry that is refused has no entry that is set after it. -/
def InstallableHw (ctrl : BpType → Option (BitVec 32)) (faults : Nat → RegFault) (i : Nat)
    (t : List (Bkpt WbReg)) : Prop :=
  (t.zipIdx i).Pairwise fun p q => p.1.state = .set → q.1.state = .set →
    (armInstall (faults p.2) (ctrl p.1.type) p.1.reg p.1.bptAddr).2 = none

instance : Decidable (InstallableHw ctrl faults i t) :=
  inferInstanceAs (Decidable ((t.zipIdx i).Pairwise fun p q =>
    p.1.state = .set → q.1.state = .set →
      (armInstall (faults p.2) (ctrl p.1.type) p.1.reg p.1.bptAddr).2 = none))

structure ActivatedHw (ctrl : BpType → Option (BitVec 32)) (faults : Nat → RegFault) (i : Nat)
    (t t' : List (Bkpt WbReg)) : Prop where
  armed : ∀ e ∈ t', Armed ctrl e
  entries_eq : entries t' = entries t
  refused : ∀ p ∈ t'.zipIdx i, p.1.state = .set →
    ((faults p.2).value || (faults p.2).control) = true

theorem activateHw_spec (hidle : Idle t) (hquiet : ∀ e ∈ t, Quiet ctrl e) (htyped : Typed ctrl t)
    (h : InstallableHw ctrl faults i t) :
    ActivatedHw ctrl faults i t (sweep Stub.isSet (Stub.activateHw ctrl faults) () i t).2.1 := by
  refine sweep_rec
    (R := fun _ i t _ t' _ => Idle t → (∀ e ∈ t, Quiet ctrl e) → Typed ctrl t →
      InstallableHw ctrl faults i t → ActivatedHw ctrl faults i t t')
    ?nil ?skip ?done ?stop () i t hidle hquiet htyped h
  case nil =>
    intro _ i _ _ _ _
    exact ⟨by simp, rfl, by simp⟩
  case skip =>
    intro _ i a as _ as' err hset ih hidle hquiet htyped h
    have hstate : a.state ≠ .set := isSet_eq_false_iff.1 hset
    have hact : a.state ≠ .active := hidle a List.mem_cons_self
    have hdead : a.isLive = false := by simp [Bkpt.isLive, hstate, hact]
    obtain ⟨hzero, hquiet⟩ := List.forall_mem_cons.1 hquiet
    rw [InstallableHw, List.zipIdx_cons] at h
    obtain ⟨harmed, hentries, hrefused⟩ := ih (fun e he => hidle e (List.mem_cons_of_mem _ he))
      hquiet htyped.tail (List.pairwise_cons.1 h).2
    refine ⟨List.forall_mem_cons.2 ⟨?_, harmed⟩, ?_, ?_⟩
    · exact ⟨fun ha => absurd ha hact, fun _ => hzero.control_eq_zero hstate⟩
    · rw [entries_cons_dead hdead, entries_cons_dead hdead, hentries]
    · rw [List.zipIdx_cons]
      exact List.forall_mem_cons.2 ⟨fun ha => absurd ha hstate, hrefused⟩
  case done =>
    intro _ i a as _ a' _ as' err hset hf ih hidle hquiet htyped h
    have hstate : a.state = .set := isSet_iff.1 hset
    obtain ⟨-, hquiet⟩ := List.forall_mem_cons.1 hquiet
    obtain ⟨c, hc⟩ := htyped.exists_ctrl List.mem_cons_self (isLive_of_set hstate)
    rw [InstallableHw, List.zipIdx_cons] at h
    obtain ⟨harmed, hentries, hrefused⟩ := ih (fun e he => hidle e (List.mem_cons_of_mem _ he))
      hquiet htyped.tail (List.pairwise_cons.1 h).2
    unfold Stub.activateHw at hf
    rw [hc] at hf
    rcases harm : armInstall (faults i) (some c) a.reg a.bptAddr with ⟨reg', _ | err⟩
    · rw [harm] at hf
      simp only [Prod.mk.injEq, and_true, true_and] at hf
      subst hf
      have hreg := armInstall_ok harm
      refine ⟨List.forall_mem_cons.2 ⟨⟨fun _ => ?_, fun hne => absurd rfl hne⟩, harmed⟩, ?_, ?_⟩
      · exact ⟨hc.trans (by rw [hreg]), by rw [hreg]⟩
      · rw [entries_cons_live (isLive_of_active rfl), entries_cons_live (isLive_of_set hstate),
          hentries]
      · rw [List.zipIdx_cons]
        exact List.forall_mem_cons.2 ⟨by rintro ⟨⟩, hrefused⟩
    · rw [harm] at hf
      cases hf
  case stop =>
    intro _ i a as _ a' err hset hf hidle hquiet htyped h
    have hstate : a.state = .set := isSet_iff.1 hset
    obtain ⟨hhead, hquiet⟩ := List.forall_mem_cons.1 hquiet
    obtain ⟨c, hc⟩ := htyped.exists_ctrl List.mem_cons_self (isLive_of_set hstate)
    rw [InstallableHw, List.zipIdx_cons] at h
    have hapart := (List.pairwise_cons.1 h).1
    unfold Stub.activateHw at hf
    rcases harm : armInstall (faults i) (ctrl a.type) a.reg a.bptAddr with ⟨reg', _ | err'⟩
    · rw [harm] at hf
      cases hf
    · rw [harm] at hf
      simp only [Prod.mk.injEq, Option.some.injEq, true_and] at hf
      obtain ⟨rfl, rfl⟩ := hf
      -- registers with the entry in them already would have taken it
      have hzero : a.reg.control = 0 := hhead.resolve_right fun hq => by
        rw [hq.2.armInstall_eq] at harm
        cases harm
      have hnone : ∀ d ∈ as, d.state ≠ .set := fun d hd hset => by
        obtain ⟨k, hk⟩ := exists_mem_zipIdx hd (i + 1)
        have := hapart (d, k) hk hstate hset
        rw [harm] at this
        cases this
      rw [hc] at harm
      obtain ⟨hctrl, -, hfault⟩ := armInstall_err harm
      have hset' : ({ a with reg := reg' } : Bkpt WbReg).state = .set := hstate
      refine ⟨List.forall_mem_cons.2 ⟨⟨fun ha => ?_, fun _ => hctrl.trans hzero⟩, ?_⟩, ?_, ?_⟩
      · cases hset'.symm.trans ha
      · intro d hd
        refine ⟨fun ha => absurd ha (hidle d (List.mem_cons_of_mem _ hd)), fun _ => ?_⟩
        exact (hquiet d hd).control_eq_zero (hnone d hd)
      · rw [entries_cons_live (isLive_of_set hstate), entries_cons_live (isLive_of_set hset')]
      · rw [List.zipIdx_cons]
        refine List.forall_mem_cons.2 ⟨fun _ => hfault, fun p hp hset => ?_⟩
        exact absurd hset (hnone p.1 (List.fst_mem_of_mem_zipIdx hp))

/-! ## A stop -/

/-- What a breakpoint is after a stop. -/
def Bkpt.uninstalled (e : Bkpt WbReg) : Bkpt WbReg :=
  bif Stub.isActive e then { e with reg := armUninstallHwBreakpoint, state := .set } else e

theorem deactivateHwBreak_eq :
    sweep Stub.isActive Stub.deactivateHwBreak () i t = ((), t.map Bkpt.uninstalled, none) :=
  sweep_eq_map fun _ _ _ _ => rfl

/-- The registers of the breakpoints are clear after a stop. -/
theorem deactivateHwBreak_spec (h : ∀ e ∈ t, Armed ctrl e) :
    Idle (t.map Bkpt.uninstalled) ∧ entries (t.map Bkpt.uninstalled) = entries t ∧
      ∀ e ∈ t.map Bkpt.uninstalled, e.reg.control = 0 := by
  have hactive : ∀ e : Bkpt WbReg, e.state = .active →
      e.uninstalled = { e with reg := armUninstallHwBreakpoint, state := .set } := fun e ha => by
    rw [Bkpt.uninstalled, isActive_iff.2 ha, cond_true]
  have hother : ∀ e : Bkpt WbReg, e.state ≠ .active → e.uninstalled = e := fun e ha => by
    rw [Bkpt.uninstalled, isActive_eq_false ha, cond_false]
  refine ⟨fun e he => ?_, entries_map fun e _ => ?_, fun e he => ?_⟩
  · obtain ⟨d, -, rfl⟩ := List.mem_map.1 he
    by_cases ha : d.state = .active
    · rw [hactive d ha]
      exact nofun
    · rwa [hother d ha]
  · by_cases ha : e.state = .active
    · rw [hactive e ha]
      exact ⟨(isLive_of_set rfl).trans (isLive_of_active ha).symm, rfl, rfl⟩
    · rw [hother e ha]
      exact ⟨rfl, rfl, rfl⟩
  · obtain ⟨d, hd, rfl⟩ := List.mem_map.1 he
    by_cases ha : d.state = .active
    · rw [hactive d ha]
      rfl
    · rw [hother d ha]
      exact (h d hd).2 ha

/-- The watchpoints stay in their registers. -/
theorem deactivateHwWatch_spec (faults : Nat → RegFault) (i : Nat)
    (h : ∀ e ∈ t, Armed watchCtrl e) :
    sweep Stub.isActive (Stub.deactivateHwWatch faults) () i t =
        ((), t.map Bkpt.deactivated, none) ∧
      ∀ e ∈ t.map Bkpt.deactivated, Quiet watchCtrl e := by
  constructor
  · refine sweep_eq_map fun k e he ha => ?_
    unfold Stub.deactivateHwWatch
    rw [((h e he).1 (isActive_iff.1 ha)).armInstall_eq]
  · intro e he
    obtain ⟨d, hd, rfl⟩ := List.mem_map.1 he
    by_cases ha : d.state = .active
    · rw [Bkpt.deactivated_of_active ha]
      exact .inr ⟨rfl, (h d hd).1 ha⟩
    · rw [Bkpt.deactivated_of_ne ha]
      exact .inl ((h d hd).2 ha)

/-! ## A detach -/

def Bkpt.forgotten {ρ : Type} (e : Bkpt ρ) : Bkpt ρ := { e with state := .undefined }

section

variable {σ ρ : Type} {w : σ} {u : List (Bkpt ρ)}
  {deactivate : σ → Nat → Bkpt ρ → σ × Bkpt ρ × Option Error}

/-- Entries that are not active are forgotten, and nothing else. -/
theorem removeEntry_eq (h : Idle u) : sweep (fun _ => true) (Stub.removeEntry deactivate) w i u =
    (w, u.map Bkpt.forgotten, none) := by
  refine sweep_eq_map fun k e he _ => ?_
  rw [Stub.removeEntry, isActive_eq_false (h e he)]
  rfl

theorem idle_forgotten : Idle (u.map Bkpt.forgotten) := by
  intro e he
  obtain ⟨d, -, rfl⟩ := List.mem_map.1 he
  exact nofun

theorem entries_forgotten : entries (u.map Bkpt.forgotten) = [] := by
  rw [List.eq_nil_iff_forall_not_mem]
  intro p hp
  obtain ⟨e, he, hlive, -⟩ := mem_entries.1 hp
  obtain ⟨d, -, rfl⟩ := List.mem_map.1 he
  cases hlive

theorem keeps_forgotten : Keeps (u.map Bkpt.forgotten) fun _ => none := by
  constructor
  · rw [entries_forgotten]
    exact .nil
  · rw [entries_forgotten]
    exact fun _ _ => ⟨nofun, nofun⟩

end

end Melis.Kgdb
