import Melis.Kgdb.HwBreak

/-!
# The stub while the target is stopped, and while it runs

`Stopped` is the invariant of the first and `Started` that of the second. A request
that is `Sound` keeps `Stopped` and does what it is for (`perform_spec`); letting the
target run leads from one to the other (`activate_spec`), and a stop back
(`deactivate_spec`).
-/

namespace Melis.Kgdb

open Lib Function

variable {s : Stub} {program : Mem} {asked : Asked} {f g : Faults} {addr b : Addr} {type : BpType}
  {length : BitVec 32} {step : Addr × BitVec 32} {r : Request}

/-- The types of what is asked for. -/
structure Asked.Typed (asked : Asked) : Prop where
  sw : ∀ addr type, asked.sw addr = some type → type = .breakpoint
  hw : ∀ addr type, asked.hw addr = some type → type = .hardwareBreakpoint
  watch : ∀ addr type, asked.watch addr = some type → (watchCtrl type).isSome = true

structure Stopped (s : Stub) (program : Mem) (asked : Asked) : Prop where
  mem : s.mem = program
  idleSw : Idle s.gdbSwBreak
  idleHw : Idle s.gdbHwBreak
  idleWatch : Idle s.gdbHwWatch
  sw : Keeps s.gdbSwBreak asked.swAll
  hw : Keeps s.gdbHwBreak asked.hw
  watch : Keeps s.gdbHwWatch asked.watch
  offHw : ∀ e ∈ s.gdbHwBreak, e.reg.control = 0
  quiet : ∀ e ∈ s.gdbHwWatch, Quiet watchCtrl e
  stepAddr : ∀ addr, asked.stepping = some addr → s.stepAddr = addr ∧ addr ≠ 0

/-- With what failed when the target was let run. -/
structure Started (s : Stub) (program : Mem) (asked : Asked) (f : Faults) : Prop where
  patched : Patched program s.mem s.gdbSwBreak
  apart : Apart s.gdbSwBreak
  sw : Keeps s.gdbSwBreak asked.swAll
  hw : Keeps s.gdbHwBreak asked.hw
  watch : Keeps s.gdbHwWatch asked.watch
  refusedSw : ∀ p ∈ s.gdbSwBreak.zipIdx, p.1.state = .set → refusesSw f p.2 p.1 = true
  armedHw : ∀ e ∈ s.gdbHwBreak, Armed breakCtrl e
  refusedHw : ∀ p ∈ s.gdbHwBreak.zipIdx, p.1.state = .set →
    ((f.hwBreak p.2).value || (f.hwBreak p.2).control) = true
  armedWatch : ∀ e ∈ s.gdbHwWatch, Armed watchCtrl e
  refusedWatch : ∀ p ∈ s.gdbHwWatch.zipIdx, p.1.state = .set →
    ((f.hwWatch p.2).value || (f.hwWatch p.2).control) = true
  stepAddr : ∀ addr, asked.stepping = some addr → s.stepAddr = addr ∧ addr ≠ 0

theorem Keeps.typed {ctrl : BpType → Option (BitVec 32)} {t : List (Bkpt WbReg)}
    {w : Addr → Option BpType} (h : Keeps t w)
    (hw : ∀ addr type, w addr = some type → (ctrl type).isSome = true) : Typed ctrl t :=
  fun p hp => hw p.1 p.2 ((h.mem p.1 p.2).2 hp)

theorem Asked.swAll_eq (h : asked.stepping = none) : asked.swAll = asked.sw := by
  funext addr
  rw [Asked.swAll, h, if_neg nofun]

/-! ## Conditions -/

/-- The breakpoint that is tried at an address is put back. -/
def probeOk (f : Faults) (addr : Addr) : Bool :=
  faultsIn f.tmpSave (instrSize addr) || f.tmpInstall == some 0 ||
    (!faultsIn f.tmpInstall (instrSize addr) && !faultsIn f.tmpRestore (instrSize addr))

/-- The search for a watchpoint goes by the addresses of the hardware breakpoints: the entry with
the address has one with the same address beside it, and no earlier entry has. Its registers are
off. -/
def WatchFound (s : Stub) (addr : Addr) : Prop :=
  ∀ p ∈ s.gdbHwWatch.zipIdx, p.1.state = .set →
    (p.1.bptAddr = addr → s.hwBreakAt p.2 addr = true ∧ p.1.reg.control = 0) ∧
      (s.hwBreakAt p.2 addr = true →
        ∃ q ∈ s.gdbHwWatch.zipIdx, q.2 ≤ p.2 ∧ q.1.isSetAt addr = true)

instance : Decidable (WatchFound s addr) :=
  inferInstanceAs (Decidable (∀ p ∈ s.gdbHwWatch.zipIdx, p.1.state = .set →
    (p.1.bptAddr = addr → s.hwBreakAt p.2 addr = true ∧ p.1.reg.control = 0) ∧
      (s.hwBreakAt p.2 addr = true →
        ∃ q ∈ s.gdbHwWatch.zipIdx, q.2 ≤ p.2 ∧ q.1.isSetAt addr = true)))

def Request.Sound (s : Stub) (f : Faults) : Request → Prop
  | .setSwBreak addr _ => probeOk f addr = true
  | .setHwWatch addr type => ∀ e ∈ s.gdbHwWatch, e.isSetAt addr = true → e.type = type
  | .removeHwWatch addr => WatchFound s addr
  | _ => True

instance : Decidable (r.Sound s f) :=
  match r with
  | .setSwBreak addr _ => inferInstanceAs (Decidable (probeOk f addr = true))
  | .setHwWatch addr type =>
    inferInstanceAs (Decidable (∀ e ∈ s.gdbHwWatch, e.isSetAt addr = true → e.type = type))
  | .removeHwWatch addr => inferInstanceAs (Decidable (WatchFound s addr))
  | .removeSwBreak _ => .isTrue trivial
  | .setHwBreak _ => .isTrue trivial
  | .removeHwBreak _ => .isTrue trivial

/-- Nothing else is set at the address of the single step, and no watchpoint is found there. -/
def StepAlone (s : Stub) (asked : Asked) : Prop :=
  s.stepAddr ≠ 0 → asked.sw s.stepAddr = none ∧ asked.hw s.stepAddr = none ∧
    ∀ p ∈ s.gdbHwWatch.zipIdx, p.1.state = .set → s.hwBreakAt p.2 s.stepAddr = false

instance : Decidable (StepAlone s asked) :=
  inferInstanceAs (Decidable (s.stepAddr ≠ 0 → asked.sw s.stepAddr = none ∧
    asked.hw s.stepAddr = none ∧ ∀ p ∈ s.gdbHwWatch.zipIdx, p.1.state = .set →
      s.hwBreakAt p.2 s.stepAddr = false))

/-- The three loops that let the target run leave nothing out but what fails itself. -/
structure Resumable (s : Stub) (f : Faults) : Prop where
  sw : Installable f 0 s.gdbSwBreak
  hw : InstallableHw breakCtrl f.hwBreak 0 s.gdbHwBreak
  watch : InstallableHw watchCtrl f.hwWatch 0 s.gdbHwWatch

instance : Decidable (Resumable s f) :=
  decidable_of_iff (Installable f 0 s.gdbSwBreak ∧ InstallableHw breakCtrl f.hwBreak 0 s.gdbHwBreak ∧
      InstallableHw watchCtrl f.hwWatch 0 s.gdbHwWatch)
    ⟨fun h => ⟨h.1, h.2.1, h.2.2⟩, fun h => ⟨h.sw, h.hw, h.watch⟩⟩

/-- No watchpoint has registers. -/
def WatchOff (s : Stub) : Prop := ∀ e ∈ s.gdbHwWatch, e.reg.control = 0

instance : Decidable (WatchOff s) := inferInstanceAs (Decidable (∀ e ∈ s.gdbHwWatch, e.reg.control = 0))

/-! ## Software breakpoints -/

theorem installSize_zero : installSize addr 0 = instrSize addr := rfl

/-- The memory is as it was after a breakpoint has been tried. -/
theorem gdbValidateBreakAddress_mem (h : probeOk f addr = true) :
    (s.gdbValidateBreakAddress f addr).1 = s.mem := by
  have hclean : cleanInstall f.tmpSave f.tmpInstall (instrSize addr) = true := by
    simp only [probeOk, Bool.or_eq_true, Bool.and_eq_true] at h
    simp only [cleanInstall, Bool.or_eq_true]
    exact h.imp_right And.left
  unfold Stub.gdbValidateBreakAddress
  rcases armArchSetSwBreakpoint_cases s.mem (fun _ => 0) installSize_zero hclean with
    ⟨-, saved, harm⟩ | ⟨hrefuses, saved, harm, hsaved⟩
  · rw [harm]
  · rw [harm]
    dsimp only
    have hnot : faultsIn f.tmpSave (instrSize addr) = false ∧
        faultsIn f.tmpInstall (instrSize addr) = false := by
      simpa [refuses] using hrefuses
    have hzero : f.tmpInstall ≠ some 0 := fun hz => by
      rw [hz] at hnot
      rcases instrSize_cases addr with h' | h' <;> simp [faultsIn, h'] at hnot
    have hrestore : faultsIn f.tmpRestore (instrSize addr) = false := by
      simpa [probeOk, hnot, hzero] using h
    rw [armArchRemoveSwBreakpoint_ok hrestore, hsaved]
    exact Memory.store_store_load

theorem gdbSetSwBreak_spec {w : Addr → Option BpType} (length : BitVec 32) (hidle : Idle s.gdbSwBreak)
    (hkeeps : Keeps s.gdbSwBreak w) (hw : ∀ addr type, w addr = some type → type = .breakpoint)
    (hprobe : probeOk f addr = true) :
    ∃ t ok, s.gdbSetSwBreak f addr length = ({ s with gdbSwBreak := t }, ok) ∧ Idle t ∧
      Keeps t (bif ok then update w addr (some .breakpoint) else w) := by
  have hmem := gdbValidateBreakAddress_mem (s := s) hprobe
  unfold Stub.gdbSetSwBreak
  match hvalid : s.gdbValidateBreakAddress f addr with
  | (mem, some err) =>
    rw [hvalid] at hmem
    dsimp only at hmem ⊢
    subst hmem
    exact ⟨s.gdbSwBreak, false, rfl, hidle, hkeeps⟩
  | (mem, none) =>
    rw [hvalid] at hmem
    dsimp only at hmem ⊢
    subst hmem
    have hfill : Fills (fun e : Bkpt Unit =>
        { e with state := .set, type := .breakpoint, bptAddr := addr, bptLen := length })
        addr .breakpoint := ⟨fun _ => rfl, fun _ => rfl, fun _ => rfl⟩
    have htype : ∀ e ∈ s.gdbSwBreak, e.isSetAt addr = true → e.type = .breakpoint := by
      intro e he hat
      exact hw _ _ (hkeeps.type_eq he (isLive_of_set (isSetAt_iff.1 hat).1))
    split
    · rename_i t hset
      obtain ⟨hkeeps', hchanged⟩ := setEntry_keeps hkeeps hidle hfill htype hset
      exact ⟨t, true, rfl, hchanged.idle_fill (fun _ => rfl) hidle, hkeeps'⟩
    · exact ⟨s.gdbSwBreak, false, rfl, hidle, hkeeps⟩

/-! ## Requests -/

/-- What is set at an address is no longer there, and the rest is. -/
structure Removed (t : List (Addr × BpType)) (asked : Addr → Option BpType) (addr : Addr) :
    Prop where
  gone : ∀ type, (addr, type) ∉ t
  others : ∀ b type, b ≠ addr → asked b = some type → (b, type) ∈ t

theorem Keeps.removed {ρ : Type} {t : List (Bkpt ρ)} {w : Addr → Option BpType}
    (h : Keeps t (update w addr none)) : Removed (entries t) w addr := by
  constructor
  · intro type hmem
    have := (h.mem addr type).2 hmem
    rw [update_self] at this
    cases this
  · intro b type hb hsome
    exact (h.mem b type).1 (by rwa [update_of_ne hb])

/-- A removal of what is set reports success and removes it. -/
def Request.Removes (asked : Asked) (s' : Stub) (ok : Bool) : Request → Prop
  | .removeSwBreak addr => asked.sw addr ≠ none →
    ok = true ∧ Removed (entries s'.gdbSwBreak) asked.sw addr
  | .removeHwBreak addr => asked.hw addr ≠ none →
    ok = true ∧ Removed (entries s'.gdbHwBreak) asked.hw addr
  | .removeHwWatch addr => asked.watch addr ≠ none →
    ok = true ∧ Removed (entries s'.gdbHwWatch) asked.watch addr
  | _ => True

theorem update_none {w : Addr → Option BpType} (h : w addr = none) : update w addr none = w :=
  update_eq_self_iff.2 h.symm

namespace Stopped

variable (h : Stopped s program asked) (hnone : asked.stepping = none)

include h

theorem withHw {t : List (Bkpt WbReg)} {w : Addr → Option BpType} (hidle : Idle t)
    (hkeeps : Keeps t w) (hoff : ∀ e ∈ t, e.reg.control = 0) :
    Stopped { s with gdbHwBreak := t } program { asked with hw := w } :=
  { h with idleHw := hidle, hw := hkeeps, offHw := hoff }

theorem withWatch {t : List (Bkpt WbReg)} {w : Addr → Option BpType} (hidle : Idle t)
    (hkeeps : Keeps t w) (hquiet : ∀ e ∈ t, Quiet watchCtrl e) :
    Stopped { s with gdbHwWatch := t } program { asked with watch := w } :=
  { h with idleWatch := hidle, watch := hkeeps, quiet := hquiet }

include hnone

theorem withSw {t : List (Bkpt Unit)} {w : Addr → Option BpType} (hidle : Idle t)
    (hkeeps : Keeps t w) : Stopped { s with gdbSwBreak := t } program { asked with sw := w } := by
  have hnone' : ({ asked with sw := w } : Asked).stepping = none := hnone
  have hsw : Keeps t ({ asked with sw := w } : Asked).swAll := by
    rw [Asked.swAll_eq hnone']
    exact hkeeps
  exact { h with idleSw := hidle, sw := hsw }

theorem setSwBreak (htyped : asked.Typed) (hprobe : probeOk f addr = true) :
    Stopped (s.gdbSetSwBreak f addr length).1 program
      (asked.request (s.gdbSetSwBreak f addr length).2 (.setSwBreak addr length)) := by
  have hkeeps := h.sw
  rw [Asked.swAll_eq hnone] at hkeeps
  obtain ⟨t, ok, heq, hidle, hkeeps'⟩ :=
    gdbSetSwBreak_spec length h.idleSw hkeeps htyped.sw hprobe
  rw [heq]
  cases ok with
  | false => exact h.withSw hnone hidle hkeeps'
  | true => exact h.withSw hnone hidle hkeeps'

theorem removeSwBreak (addr : Addr) :
    Stopped (s.gdbRemoveSwBreak addr).1 program
        (asked.request (s.gdbRemoveSwBreak addr).2 (.removeSwBreak addr)) ∧
      Request.Removes asked (s.gdbRemoveSwBreak addr).1 (s.gdbRemoveSwBreak addr).2
        (.removeSwBreak addr) := by
  have hkeeps := h.sw
  rw [Asked.swAll_eq hnone] at hkeeps
  unfold Stub.gdbRemoveSwBreak
  rcases removeSetAt_spec hkeeps h.idleSw addr with
    ⟨t, hrem, hkeeps', -, hchanged⟩ | ⟨hrem, hasked⟩
  · rw [hrem]
    exact ⟨h.withSw hnone (hchanged.idle_remove h.idleSw) hkeeps', fun _ =>
      ⟨rfl, hkeeps'.removed⟩⟩
  · rw [hrem]
    refine ⟨?_, fun hne => absurd hasked hne⟩
    dsimp only [Asked.request]
    rw [update_none hasked]
    exact h

omit hnone

theorem setHwBreak (htyped : asked.Typed) (addr : Addr) :
    Stopped (s.gdbSetHwBreak addr).1 program
      (asked.request (s.gdbSetHwBreak addr).2 (.setHwBreak addr)) := by
  have hfill : Fills (fun e : Bkpt WbReg =>
      { e with state := .set, type := .hardwareBreakpoint, bptAddr := addr }) addr
      .hardwareBreakpoint := ⟨fun _ => rfl, fun _ => rfl, fun _ => rfl⟩
  have htype : ∀ e ∈ s.gdbHwBreak, e.isSetAt addr = true → e.type = .hardwareBreakpoint := by
    intro e he hat
    exact htyped.hw _ _ (h.hw.type_eq he (isLive_of_set (isSetAt_iff.1 hat).1))
  unfold Stub.gdbSetHwBreak
  split
  · rename_i t hset
    obtain ⟨hkeeps, hchanged⟩ := setEntry_keeps h.hw h.idleHw hfill htype hset
    refine h.withHw (hchanged.idle_fill (fun _ => rfl) h.idleHw) hkeeps ?_
    exact hchanged.forall_mem h.offHw fun e he e' hee => hee.2 ▸ h.offHw e he
  · exact h

theorem removeHwBreak (addr : Addr) :
    Stopped (s.gdbRemoveHwBreak addr).1 program
        (asked.request (s.gdbRemoveHwBreak addr).2 (.removeHwBreak addr)) ∧
      Request.Removes asked (s.gdbRemoveHwBreak addr).1 (s.gdbRemoveHwBreak addr).2
        (.removeHwBreak addr) := by
  unfold Stub.gdbRemoveHwBreak
  rcases removeSetAt_spec h.hw h.idleHw addr with ⟨t, hrem, hkeeps, -, hchanged⟩ | ⟨hrem, hasked⟩
  · rw [hrem]
    refine ⟨h.withHw (hchanged.idle_remove h.idleHw) hkeeps ?_, fun _ => ⟨rfl, hkeeps.removed⟩⟩
    exact hchanged.forall_mem h.offHw fun e he e' hee => hee.2 ▸ h.offHw e he
  · rw [hrem]
    refine ⟨?_, fun hne => absurd hasked hne⟩
    dsimp only [Asked.request]
    rw [update_none hasked]
    exact h

theorem setHwWatch (htype : ∀ e ∈ s.gdbHwWatch, e.isSetAt addr = true → e.type = type) :
    Stopped (s.gdbSetHwWatch addr type).1 program
      (asked.request (s.gdbSetHwWatch addr type).2 (.setHwWatch addr type)) := by
  have hfill : Fills (fun e : Bkpt WbReg => { e with state := .set, type := type, bptAddr := addr })
      addr type := ⟨fun _ => rfl, fun _ => rfl, fun _ => rfl⟩
  unfold Stub.gdbSetHwWatch
  split
  · rename_i t hset
    obtain ⟨hkeeps, hchanged⟩ := setEntry_keeps h.watch h.idleWatch hfill htype hset
    refine h.withWatch (hchanged.idle_fill (fun _ => rfl) h.idleWatch) hkeeps ?_
    refine hchanged.forall_mem h.quiet fun e he e' hee => ?_
    -- the entry that is taken has not been set, so its registers are off
    rw [hee.2]
    exact .inl ((h.quiet e he).control_eq_zero fun hset => by
      rw [isLive_of_set hset] at hee
      cases hee.1)
  · exact h

theorem removeHwWatch (hfound : WatchFound s addr) :
    Stopped (s.gdbRemoveHwWatch addr).1 program
        (asked.request (s.gdbRemoveHwWatch addr).2 (.removeHwWatch addr)) ∧
      Request.Removes asked (s.gdbRemoveHwWatch addr).1 (s.gdbRemoveHwWatch addr).2
        (.removeHwWatch addr) := by
  have hfound' : ∀ i e, s.gdbHwWatch[i]? = some e → e.state = .set →
      (e.bptAddr = addr → s.hwBreakAt i addr = true ∧ e.reg.control = 0) ∧
        (s.hwBreakAt i addr = true → ∃ j ≤ i, ∃ d, s.gdbHwWatch[j]? = some d ∧
          d.isSetAt addr = true) := by
    intro i e hi hset
    obtain ⟨hbeside, hfirst⟩ := hfound (e, i) (List.mem_zipIdx_iff_getElem?.2 hi) hset
    refine ⟨hbeside, fun hat => ?_⟩
    obtain ⟨⟨d, j⟩, hd, hj, hdat⟩ := hfirst hat
    exact ⟨j, hj, d, List.mem_zipIdx_iff_getElem?.1 hd, hdat⟩
  have hfinds : ∀ i e, s.gdbHwWatch[i]? = some e → e.isSetAt addr = true →
      (e.state == .set && s.hwBreakAt i addr) = true := by
    intro i e hi hat
    obtain ⟨hset, haddr⟩ := isSetAt_iff.1 hat
    rw [((hfound' i e hi hset).1 haddr).1, hset]
    rfl
  have hright : ∀ i e, s.gdbHwWatch[i]? = some e → (e.state == .set && s.hwBreakAt i addr) = true →
      (∀ j < i, ∀ d, s.gdbHwWatch[j]? = some d → (d.state == .set && s.hwBreakAt j addr) = false) →
        e.isSetAt addr = true := by
    intro i e hi hp hfirst
    simp only [Bool.and_eq_true, beq_iff_eq] at hp
    obtain ⟨j, hj, d, hd, hdat⟩ := (hfound' i e hi hp.1).2 hp.2
    rcases Nat.lt_or_eq_of_le hj with hlt | rfl
    · have := hfirst j hlt d hd
      rw [hfinds j d hd hdat] at this
      cases this
    · cases hi.symm.trans hd
      exact hdat
  unfold Stub.gdbRemoveHwWatch
  rcases removeFirst_spec h.watch h.idleWatch hright hfinds with
    ⟨t, hrem, hkeeps, -, hchanged⟩ | ⟨hrem, hasked⟩
  · rw [hrem]
    refine ⟨h.withWatch (hchanged.idle_remove h.idleWatch) hkeeps ?_, fun _ =>
      ⟨rfl, hkeeps.removed⟩⟩
    refine hchanged.forall_mem h.quiet fun e he e' hee => ?_
    obtain ⟨i, hi⟩ := List.mem_iff_getElem?.1 he
    obtain ⟨hset, haddr⟩ := isSetAt_iff.1 hee.1
    rw [hee.2]
    exact .inl ((hfound' i e hi hset).1 haddr).2
  · rw [hrem]
    refine ⟨?_, fun hne => absurd hasked hne⟩
    dsimp only [Asked.request]
    rw [update_none hasked]
    exact h

include hnone

theorem perform (htyped : asked.Typed) (hr : r.Sound s f) :
    Stopped (s.perform f r).1 program (asked.request (s.perform f r).2 r) ∧
      r.Removes asked (s.perform f r).1 (s.perform f r).2 := by
  cases r with
  | setSwBreak addr length => exact ⟨h.setSwBreak hnone htyped hr, trivial⟩
  | removeSwBreak addr => exact h.removeSwBreak hnone addr
  | setHwBreak addr => exact ⟨h.setHwBreak htyped addr, trivial⟩
  | removeHwBreak addr => exact h.removeHwBreak addr
  | setHwWatch addr type => exact ⟨h.setHwWatch hr, trivial⟩
  | removeHwWatch addr => exact h.removeHwWatch hr

end Stopped

end Melis.Kgdb
