import Melis.Kgdb.Requests

/-!
# Breakpoints over a session

`session_good` is what a session upholds whose steps are `Sound`: while the
target is stopped the memory is that of the program, while it runs the
breakpoints and watchpoints that are set and not removed are installed, but for
those that fail themselves, and a removal does what it says.
-/

namespace Melis.Kgdb

open Lib Function

variable {s : Stub} {program : Mem} {asked : Asked} {f g : Faults} {step : Addr × BitVec 32}
  {text : List Char}

/-! ## Packets that end a stop or a step -/

theorem clearStep_spec (h : Stopped s program asked) (halone : StepAlone s asked) :
    Stopped s.clearStep program { asked with stepping := none } ∧
      s.clearStep.gdbHwWatch = s.gdbHwWatch := by
  have hall : ({ asked with stepping := none } : Asked).swAll = asked.sw := Asked.swAll_eq rfl
  unfold Stub.clearStep
  by_cases hzero : s.stepAddr = 0
  · rw [hzero, if_neg (by decide)]
    have hnone : asked.stepping = none := by
      cases hstep : asked.stepping with
      | none => rfl
      | some addr =>
        obtain ⟨rfl, hne⟩ := h.stepAddr addr hstep
        exact absurd hzero hne
    have hsw := h.sw
    rw [Asked.swAll_eq hnone, ← hall] at hsw
    exact ⟨{ h with sw := hsw, stepAddr := by rintro _ ⟨⟩ }, rfl⟩
  · rw [if_pos (by simpa using hzero)]
    obtain ⟨hsw, hhw, hwatch⟩ := halone hzero
    have hupdate : update asked.swAll s.stepAddr none = asked.sw := by
      funext addr
      by_cases haddr : addr = s.stepAddr
      · rw [haddr, update_self, hsw]
      · rw [update_of_ne haddr, Asked.swAll, if_neg]
        exact fun hstep => haddr (h.stepAddr addr hstep).1.symm
    have hremove : ∃ t, (s.gdbRemoveSwBreak s.stepAddr).1 = { s with gdbSwBreak := t } ∧ Idle t ∧
        Keeps t asked.sw := by
      unfold Stub.gdbRemoveSwBreak
      rcases removeSetAt_spec h.sw h.idleSw s.stepAddr with
        ⟨t, hrem, hkeeps, -, hchanged⟩ | ⟨hrem, hasked⟩
      · rw [hrem]
        exact ⟨t, rfl, hchanged.idle_remove h.idleSw, hupdate ▸ hkeeps⟩
      · rw [hrem]
        refine ⟨s.gdbSwBreak, rfl, h.idleSw, ?_⟩
        rw [← hupdate, update_none hasked]
        exact h.sw
    obtain ⟨t, hs₁, hidle, hkeeps⟩ := hremove
    have hhwNone := (removeSetAt_spec h.hw h.idleHw s.stepAddr).resolve_left
      (by rintro ⟨_, _, _, hne, _⟩; exact hne hhw)
    have hs₂ : ({ s with gdbSwBreak := t } : Stub).gdbRemoveHwBreak s.stepAddr =
        ({ s with gdbSwBreak := t }, false) := by
      unfold Stub.gdbRemoveHwBreak
      dsimp only
      rw [hhwNone.1]
    have hs₃ : ({ s with gdbSwBreak := t } : Stub).gdbRemoveHwWatch s.stepAddr =
        ({ s with gdbSwBreak := t }, false) := by
      unfold Stub.gdbRemoveHwWatch
      rw [modifyFirst_of_forall fun k e hk => ?_]
      rw [Nat.zero_add, Bool.and_eq_false_iff]
      by_cases hset : e.state = .set
      · exact .inr (hwatch (e, k) (List.mem_zipIdx_iff_getElem?.2 hk) hset)
      · exact .inl (by simpa using hset)
    dsimp only
    rw [hs₁, hs₂, hs₃]
    exact ⟨{ h with idleSw := hidle, sw := hall.symm ▸ hkeeps, stepAddr := by rintro _ ⟨⟩ }, rfl⟩

theorem setStep_spec (h : Stopped s program asked) (hnone : asked.stepping = none)
    (htyped : asked.Typed) (hprobe : probeOk f step.1 = true) (hne : step.1 ≠ 0) :
    Stopped (s.setStep f step).1 program
      { asked with stepping := bif (s.setStep f step).2 then some step.1 else none } := by
  have hkeeps := h.sw
  rw [Asked.swAll_eq hnone] at hkeeps
  obtain ⟨t, ok, heq, hidle, hkeeps'⟩ := gdbSetSwBreak_spec (s := { s with stepAddr := step.1 })
    step.2 h.idleSw hkeeps htyped.sw hprobe
  rw [Stub.setStep, heq]
  cases ok with
  | false =>
    have hall : ({ asked with stepping := none } : Asked).swAll = asked.sw := Asked.swAll_eq rfl
    exact { h with idleSw := hidle, sw := hall.symm ▸ hkeeps', stepAddr := nofun }
  | true =>
    have hall : ({ asked with stepping := some step.1 } : Asked).swAll =
        update asked.sw step.1 (some .breakpoint) := by
      funext addr
      by_cases haddr : addr = step.1
      · rw [haddr, update_self, Asked.swAll, if_pos rfl]
      · rw [update_of_ne haddr, Asked.swAll, if_neg fun hsome => haddr (Option.some.inj hsome).symm]
    refine { h with idleSw := hidle, sw := hall.symm ▸ hkeeps', stepAddr := ?_ }
    intro addr hstep
    obtain rfl := Option.some.inj hstep
    exact ⟨rfl, hne⟩

theorem activate_spec (h : Stopped s program asked) (htyped : asked.Typed) (hr : Resumable s f) :
    (s.gdbActivateAllBreakWatchPoints f).2 ≠ some .overrun ∧
      Started (s.gdbActivateAllBreakWatchPoints f).1 program asked f := by
  have hsw := activateSw_spec (m := s.mem) h.idleSw hr.sw
  have hquiet : ∀ e ∈ s.gdbHwBreak, Quiet breakCtrl e := fun e he => .inl (h.offHw e he)
  have hhw := activateHw_spec h.idleHw hquiet (h.hw.typed fun _ _ _ => rfl) hr.hw
  have hwatch := activateHw_spec h.idleWatch h.quiet (h.watch.typed htyped.watch) hr.watch
  refine ⟨hsw.error, ?_⟩
  exact
    { patched := h.mem ▸ hsw.patched
      apart := hsw.apart
      sw := h.sw.congr hsw.entries_eq
      hw := h.hw.congr hhw.entries_eq
      watch := h.watch.congr hwatch.entries_eq
      refusedSw := hsw.refused
      armedHw := hhw.armed
      refusedHw := hhw.refused
      armedWatch := hwatch.armed
      refusedWatch := hwatch.refused
      stepAddr := h.stepAddr }

theorem deactivate_spec (h : Started s program asked g) (hf : Restorable f 0 s.gdbSwBreak) :
    Stopped (s.gdbDeactivateAllBreakWatchPoints f) program asked := by
  obtain ⟨hidleHw, hentriesHw, hoff⟩ := deactivateHwBreak_spec h.armedHw
  obtain ⟨hsweep, hquiet⟩ := deactivateHwWatch_spec f.hwWatch 0 h.armedWatch
  unfold Stub.gdbDeactivateAllBreakWatchPoints
  rw [deactivateSw_spec h.patched h.apart hf, deactivateHwBreak_eq, hsweep]
  exact
    { mem := rfl
      idleSw := idle_map_deactivated
      idleHw := hidleHw
      idleWatch := idle_map_deactivated
      sw := h.sw.congr entries_map_deactivated
      hw := h.hw.congr hentriesHw
      watch := h.watch.congr entries_map_deactivated
      offHw := hoff
      quiet := hquiet
      stepAddr := h.stepAddr }

theorem removeAll_eq (h : Stopped s program asked) : s.removeAllBreakWatchPoints f =
    { s with
      gdbSwBreak := s.gdbSwBreak.map Bkpt.forgotten
      gdbHwBreak := s.gdbHwBreak.map Bkpt.forgotten
      gdbHwWatch := s.gdbHwWatch.map Bkpt.forgotten } := by
  unfold Stub.removeAllBreakWatchPoints
  rw [removeEntry_eq h.idleSw, removeEntry_eq h.idleHw, removeEntry_eq h.idleWatch]

theorem forall_mem_forgotten {t : List (Bkpt WbReg)} (h : ∀ e ∈ t, e.reg.control = 0) :
    ∀ e ∈ t.map Bkpt.forgotten, e.reg.control = 0 := by
  intro e he
  obtain ⟨d, hd, rfl⟩ := List.mem_map.1 he
  exact h d hd

theorem Asked.swAll_nothing : Asked.nothing.swAll = fun _ => none := Asked.swAll_eq rfl

/-- Nothing is set after a detach. -/
theorem removeAll_spec (h : Stopped s program asked) (hoff : WatchOff s) :
    Stopped (s.removeAllBreakWatchPoints f) program .nothing ∧
      WatchOff (s.removeAllBreakWatchPoints f) := by
  rw [removeAll_eq h]
  refine ⟨?_, forall_mem_forgotten hoff⟩
  exact
    { mem := h.mem
      idleSw := idle_forgotten
      idleHw := idle_forgotten
      idleWatch := idle_forgotten
      sw := Asked.swAll_nothing ▸ keeps_forgotten
      hw := keeps_forgotten
      watch := keeps_forgotten
      offHw := forall_mem_forgotten h.offHw
      quiet := fun e he => .inl (forall_mem_forgotten hoff e he)
      stepAddr := nofun }

/-- A table with nothing in it. -/
theorem state_ne_of_keeps {ρ : Type} {t : List (Bkpt ρ)} (h : Keeps t fun _ => none) :
    ∀ e ∈ t, e.state ≠ .set :=
  fun _ he hset => absurd (h.type_eq he (isLive_of_set hset)) nofun

theorem armed_idle {ctrl : BpType → Option (BitVec 32)} {t : List (Bkpt WbReg)} (hidle : Idle t)
    (hoff : ∀ e ∈ t, e.reg.control = 0) : ∀ e ∈ t, Armed ctrl e :=
  fun e he => ⟨fun ha => absurd ha (hidle e he), fun _ => hoff e he⟩

/-- A target with nothing set runs. -/
theorem started_nothing (h : Stopped s program .nothing) (hoff : WatchOff s) (f : Faults) :
    Started s program .nothing f := by
  have hmem := h.mem
  exact
    { patched := hmem ▸ patched_idle h.idleSw
      apart := apart_idle h.idleSw
      sw := h.sw
      hw := h.hw
      watch := h.watch
      refusedSw := fun p hp hset => absurd hset (state_ne_of_keeps
        (Asked.swAll_nothing ▸ h.sw) p.1 (List.fst_mem_of_mem_zipIdx hp))
      armedHw := armed_idle h.idleHw h.offHw
      refusedHw := fun p hp hset => absurd hset (state_ne_of_keeps h.hw p.1
        (List.fst_mem_of_mem_zipIdx hp))
      armedWatch := armed_idle h.idleWatch hoff
      refusedWatch := fun p hp hset => absurd hset (state_ne_of_keeps h.watch p.1
        (List.fst_mem_of_mem_zipIdx hp))
      stepAddr := h.stepAddr }

/-! ## What a request is -/

theorem breakCmd_request {r : Request} (h : breakCmd text = .request r) :
    ∃ bptType addr length, pickRequest (text.headD '\x00') bptType addr length = .request r := by
  unfold breakCmd at h
  dsimp only at h
  split at h
  · cases h
  · split at h
    · split at h
      · cases h
      · split at h
        · split at h
          · cases h
          · exact ⟨_, _, _, h⟩
        · cases h
    · cases h

theorem watchType_typed (bptType : Char) : (watchCtrl (watchType bptType)).isSome = true := by
  unfold watchType
  split
  · rfl
  · split <;> rfl

/-- The type of a watchpoint that is asked for has a control word. -/
theorem breakCmd_typed {addr : Addr} {type : BpType}
    (h : breakCmd text = .request (.setHwWatch addr type)) : (watchCtrl type).isSome = true := by
  obtain ⟨bptType, addr', length, hpick⟩ := breakCmd_request h
  unfold pickRequest at hpick
  split_ifs at hpick <;> cases hpick
  exact watchType_typed bptType

/-- A packet with another letter makes no request. -/
theorem gdbCmdBreak_other {ch : Char} (h : ch ≠ 'Z' ∧ ch ≠ 'z') :
    (s.gdbCmdBreak f (ch :: text)).1 = s := by
  unfold Stub.gdbCmdBreak
  split
  · rfl
  · rfl
  · rfl
  · rename_i r hr
    obtain ⟨bptType, addr, length, hpick⟩ := breakCmd_request hr
    simp [pickRequest, h.1, h.2] at hpick

theorem forall_update {P : BpType → Prop} {w : Addr → Option BpType} {addr : Addr}
    {new : Option BpType} (hnew : ∀ type, new = some type → P type)
    (hw : ∀ b type, w b = some type → P type) :
    ∀ b type, update w addr new b = some type → P type := by
  intro b type hb
  by_cases hab : b = addr
  · rw [hab, update_self] at hb
    exact hnew type hb
  · rw [update_of_ne hab] at hb
    exact hw b type hb

theorem Asked.Typed.request (h : asked.Typed) (ok : Bool) (r : Request)
    (hr : ∀ addr type, r = .setHwWatch addr type → (watchCtrl type).isSome = true) :
    (asked.request ok r).Typed := by
  obtain ⟨hsw, hhw, hwatch⟩ := h
  cases r with
  | setSwBreak addr length =>
    cases ok with
    | false => exact ⟨hsw, hhw, hwatch⟩
    | true => exact ⟨forall_update (fun _ h => (Option.some.inj h).symm) hsw, hhw, hwatch⟩
  | removeSwBreak addr => exact ⟨forall_update nofun hsw, hhw, hwatch⟩
  | setHwBreak addr =>
    cases ok with
    | false => exact ⟨hsw, hhw, hwatch⟩
    | true => exact ⟨hsw, forall_update (fun _ h => (Option.some.inj h).symm) hhw, hwatch⟩
  | removeHwBreak addr => exact ⟨hsw, forall_update nofun hhw, hwatch⟩
  | setHwWatch addr type =>
    cases ok with
    | false => exact ⟨hsw, hhw, hwatch⟩
    | true => exact ⟨hsw, hhw, forall_update (fun _ h => Option.some.inj h ▸ hr addr type rfl) hwatch⟩
  | removeHwWatch addr => exact ⟨hsw, hhw, forall_update nofun hwatch⟩

/-! ## What a session upholds -/

/-- Each breakpoint or watchpoint asked for is in registers, unless its own registers did not take
a write, and no other one is. -/
structure InstalledHw (ctrl : BpType → Option (BitVec 32)) (faults : Nat → RegFault)
    (t : List (Bkpt WbReg)) (asked : Addr → Option BpType) : Prop where
  all : ∀ addr type, asked addr = some type →
    (∃ e ∈ t, ctrl type = some e.reg.control ∧ e.reg.value = wordAddr addr) ∨
      ∃ p ∈ t.zipIdx, p.1.isSetAt addr = true ∧
        ((faults p.2).value || (faults p.2).control) = true
  only : ∀ e ∈ t, e.reg.control ≠ 0 → ∃ addr type, asked addr = some type ∧
    ctrl type = some e.reg.control ∧ e.reg.value = wordAddr addr

structure Installed (s : Session) : Prop where
  sw : ∀ addr type, s.asked.swAll addr = some type →
    Memory.load s.stub.mem (span (fixedAddr addr) (instrSize addr)) = brkInstr addr ∨
      ∃ p ∈ s.stub.gdbSwBreak.zipIdx, p.1.isSetAt addr = true ∧ refusesSw s.faults p.2 p.1 = true
  swOnly : ∀ x, s.stub.mem x = s.program x ∨
    ∃ addr, s.asked.swAll addr ≠ none ∧ x ∈ span (fixedAddr addr) (instrSize addr)
  hw : InstalledHw breakCtrl s.faults.hwBreak s.stub.gdbHwBreak s.asked.hw
  watch : InstalledHw watchCtrl s.faults.hwWatch s.stub.gdbHwWatch s.asked.watch

structure Good (s : Session) : Prop where
  onceSw : ((entries s.stub.gdbSwBreak).map Prod.fst).Nodup
  onceHw : ((entries s.stub.gdbHwBreak).map Prod.fst).Nodup
  onceWatch : ((entries s.stub.gdbHwWatch).map Prod.fst).Nodup
  stopped : s.running = false → s.stub.mem = s.program
  running : s.running = true → Installed s

/-- A packet that removes what is set gets the reply that says so, and it is removed. -/
def Removes (s : Session) (i : Input) (s' : Session) : Prop :=
  match i with
  | .stop _ => True
  | .packet text _ _ => ∀ r, packetKind text = .brk → breakCmd text = .request r →
    r.Removes s.asked s'.stub (s'.reply == .ok)

def BreakCmd.Sound (s : Stub) (f : Faults) : BreakCmd → Prop
  | .request r => r.Sound s f
  | _ => True

instance {s : Stub} {cmd : BreakCmd} : Decidable (cmd.Sound s f) :=
  match cmd with
  | .request r => inferInstanceAs (Decidable (r.Sound s f))
  | .unsupported => .isTrue trivial
  | .malformed => .isTrue trivial
  | .nothing => .isTrue trivial

/-- What a packet needs, of the stub after the single step is cleared. -/
def PacketKind.Sound (s : Stub) (f : Faults) (text : List Char) (step : Addr × BitVec 32) :
    PacketKind → Prop
  | .brk => (breakCmd text).Sound s f
  | .cont => Resumable s f
  | .step => step.1 ≠ 0 ∧ probeOk f step.1 = true ∧ Resumable (s.setStep f step).1 f
  | .detach | .kill | .passDetach => WatchOff s
  | .memory => False
  | _ => True

instance {s : Stub} {kind : PacketKind} : Decidable (kind.Sound s f text step) :=
  match kind with
  | .brk => inferInstanceAs (Decidable ((breakCmd text).Sound s f))
  | .cont => inferInstanceAs (Decidable (Resumable s f))
  | .step => inferInstanceAs (Decidable (step.1 ≠ 0 ∧ probeOk f step.1 = true ∧
      Resumable (s.setStep f step).1 f))
  | .detach => inferInstanceAs (Decidable (WatchOff s))
  | .kill => inferInstanceAs (Decidable (WatchOff s))
  | .passDetach => inferInstanceAs (Decidable (WatchOff s))
  | .memory => .isFalse id
  | .passException => .isTrue trivial
  | .passOther => .isTrue trivial
  | .other => .isTrue trivial

/-- Packets come while the target is stopped, and the watchpoints have as many entries as their
table has room for. -/
def Sound (s : Session) : Input → Prop
  | .stop f => s.running = true ∧ Restorable f 0 s.stub.gdbSwBreak
  | .packet text step f => s.running = false ∧ StepAlone s.stub s.asked ∧
    s.stub.gdbHwWatch.length ≤ s.stub.gdbHwBreak.length ∧
      (packetKind text).Sound s.stub.clearStep f text step

instance {s : Session} {i : Input} : Decidable (Sound s i) :=
  match i with
  | .stop f => inferInstanceAs (Decidable (s.running = true ∧ Restorable f 0 s.stub.gdbSwBreak))
  | .packet text step f =>
    inferInstanceAs (Decidable (s.running = false ∧ StepAlone s.stub s.asked ∧
      s.stub.gdbHwWatch.length ≤ s.stub.gdbHwBreak.length ∧
        (packetKind text).Sound s.stub.clearStep f text step))

structure Inv (s : Session) : Prop where
  typed : s.asked.Typed
  stopped : s.running = false → Stopped s.stub s.program s.asked
  started : s.running = true → Started s.stub s.program s.asked s.faults

theorem installedHw {ctrl : BpType → Option (BitVec 32)} {faults : Nat → RegFault}
    {t : List (Bkpt WbReg)} {w : Addr → Option BpType} (hkeeps : Keeps t w)
    (harmed : ∀ e ∈ t, Armed ctrl e)
    (hrefused : ∀ p ∈ t.zipIdx, p.1.state = .set →
      ((faults p.2).value || (faults p.2).control) = true) : InstalledHw ctrl faults t w := by
  constructor
  · intro addr type hw
    obtain ⟨e, he, hlive, rfl, rfl⟩ := hkeeps.exists_mem hw
    rcases isLive_iff.1 hlive with hset | hactive
    · obtain ⟨i, hi⟩ := exists_mem_zipIdx he 0
      exact .inr ⟨(e, i), hi, isSetAt_iff.2 ⟨hset, rfl⟩, hrefused (e, i) hi hset⟩
    · exact .inl ⟨e, he, (harmed e he).1 hactive⟩
  · intro e he hne
    have hactive : e.state = .active := by
      by_contra hnot
      exact hne ((harmed e he).2 hnot)
    exact ⟨e.bptAddr, e.type, hkeeps.type_eq he (isLive_of_active hactive),
      (harmed e he).1 hactive⟩

theorem Started.installed {s : Session} (h : Started s.stub s.program s.asked s.faults) :
    Installed s := by
  refine ⟨fun addr type hasked => ?_, fun x => ?_, installedHw h.hw h.armedHw h.refusedHw,
    installedHw h.watch h.armedWatch h.refusedWatch⟩
  · obtain ⟨e, he, hlive, rfl, -⟩ := h.sw.exists_mem hasked
    rcases isLive_iff.1 hlive with hset | hactive
    · obtain ⟨i, hi⟩ := exists_mem_zipIdx he 0
      exact .inr ⟨(e, i), hi, isSetAt_iff.2 ⟨hset, rfl⟩, h.refusedSw (e, i) hi hset⟩
    · exact .inl (h.patched.written e he hactive)
  · by_cases hx : ∃ e ∈ s.stub.gdbSwBreak, e.state = .active ∧ x ∈ e.cells
    · obtain ⟨e, he, hactive, hx⟩ := hx
      refine .inr ⟨e.bptAddr, ?_, hx⟩
      rw [h.sw.type_eq he (isLive_of_active hactive)]
      exact nofun
    · exact .inl (h.patched.other x fun e he hactive hmem => hx ⟨e, he, hactive, hmem⟩)

theorem Inv.good {s : Session} (h : Inv s) : Good s := by
  cases hrun : s.running with
  | false =>
    have hs := h.stopped hrun
    exact ⟨hs.sw.nodup, hs.hw.nodup, hs.watch.nodup, fun _ => hs.mem,
      fun ht => absurd (hrun.symm.trans ht) nofun⟩
  | true =>
    have hs := h.started hrun
    exact ⟨hs.sw.nodup, hs.hw.nodup, hs.watch.nodup, fun hf =>
      absurd (hrun.symm.trans hf) nofun, fun _ => hs.installed⟩

/-! ## One step of a session -/

theorem inv_start (program : Mem) (brp wrp : Nat) : Inv (Session.start program brp wrp) := by
  have hstate : ∀ {ρ : Type} {n : Nat} {reg : ρ}, ∀ e ∈ List.replicate n (Session.blank reg),
      e = Session.blank reg := fun e he => List.eq_of_mem_replicate he
  have hidle : ∀ {ρ : Type} {n : Nat} {reg : ρ}, Idle (List.replicate n (Session.blank reg)) :=
    fun e he => hstate e he ▸ nofun
  have hentries : ∀ {ρ : Type} {n : Nat} {reg : ρ},
      entries (List.replicate n (Session.blank reg)) = [] := by
    intro ρ n reg
    rw [List.eq_nil_iff_forall_not_mem]
    intro p hp
    obtain ⟨e, he, hlive, -⟩ := mem_entries.1 hp
    rw [hstate e he] at hlive
    cases hlive
  have hkeeps : ∀ {ρ : Type} {n : Nat} {reg : ρ},
      Keeps (List.replicate n (Session.blank reg)) fun _ => none := by
    intro ρ n reg
    constructor
    · rw [hentries]
      exact .nil
    · rw [hentries]
      exact fun _ _ => ⟨nofun, nofun⟩
  have hoff : ∀ {n : Nat}, ∀ e ∈ List.replicate n (Session.blank (⟨0, 0⟩ : WbReg)),
      e.reg.control = 0 := fun e he => hstate e he ▸ rfl
  have hstopped : Stopped (Session.start program brp wrp).stub program .nothing :=
    { mem := rfl
      idleSw := hidle
      idleHw := hidle
      idleWatch := hidle
      sw := Asked.swAll_nothing ▸ hkeeps
      hw := hkeeps
      watch := hkeeps
      offHw := hoff
      quiet := fun e he => .inl (hoff e he)
      stepAddr := nofun }
  exact ⟨⟨nofun, nofun, nofun⟩, nofun, fun _ => started_nothing hstopped hoff .none⟩

/-- What a packet leaves. -/
structure Handled (s : Session) (f : Faults) (text : List Char) (step : Addr × BitVec 32)
    (stub : Stub) (reply : Reply) (resumed : Bool) : Prop where
  eq : s.stub.processPacket f text step = some (stub, reply, resumed)
  typed : (s.askedAfter f text step reply).Typed
  stopped : resumed = false → Stopped stub s.program (s.askedAfter f text step reply)
  started : resumed = true → Started stub s.program (s.askedAfter f text step reply) f
  removes : ∀ r, packetKind text = .brk → breakCmd text = .request r →
    r.Removes s.asked stub (reply == .ok)

theorem Asked.typed_nothing : Asked.nothing.Typed := ⟨nofun, nofun, nofun⟩

section

variable {s : Session}

theorem handled_brk (hk : packetKind text = .brk) (htyped : s.asked.Typed)
    (h : Stopped s.stub.clearStep s.program { s.asked with stepping := none })
    (hsound : (breakCmd text).Sound s.stub.clearStep f) :
    ∃ stub reply resumed, Handled s f text step stub reply resumed := by
  have htyped' : ({ s.asked with stepping := none } : Asked).Typed :=
    ⟨htyped.sw, htyped.hw, htyped.watch⟩
  have heq : s.stub.processPacket f text step = some ((s.stub.clearStep.gdbCmdBreak f text).1,
      (s.stub.clearStep.gdbCmdBreak f text).2, false) := by
    unfold Stub.processPacket Stub.gdbArchHandleException
    rw [hk]
  refine ⟨_, _, _, heq, ?_, fun _ => ?_, nofun, fun r _ hr => ?_⟩
  all_goals unfold Stub.gdbCmdBreak
  · unfold Session.askedAfter
    rw [hk]
    dsimp only
    cases hcmd : breakCmd text with
    | request r =>
      exact htyped'.request _ r fun _ _ hr => breakCmd_typed (hcmd.trans (congrArg _ hr))
    | _ => exact htyped'
  · unfold Session.askedAfter
    rw [hk]
    dsimp only
    cases hcmd : breakCmd text with
    | request r =>
      rw [hcmd] at hsound
      have hspec := (h.perform rfl htyped' hsound).1
      dsimp only
      cases hok : (s.stub.clearStep.perform f r).2 <;> rw [hok] at hspec <;> exact hspec
    | _ => exact h
  · rw [hr] at hsound
    have hspec := (h.perform rfl htyped' hsound).2
    rw [hr]
    dsimp only
    cases hok : (s.stub.clearStep.perform f r).2 <;> rw [hok] at hspec <;> cases r <;> exact hspec

theorem not_brk {k : PacketKind} (hk : packetKind text = k) (hne : k ≠ .brk) {r : Request}
    {p : Prop} (h : packetKind text = .brk) : breakCmd text = .request r → p :=
  absurd (hk.symm.trans h) hne

/-- The target runs with what is set. -/
theorem resume_eq {t : Stub} (h : (t.gdbActivateAllBreakWatchPoints f).2 ≠ some .overrun) :
    (match t.gdbActivateAllBreakWatchPoints f with
      | (_, some .overrun) => none
      | (s, _) => some (s, Reply.none, true)) =
    some ((t.gdbActivateAllBreakWatchPoints f).1, .none, true) := by
  match hact : t.gdbActivateAllBreakWatchPoints f with
  | (_, none) => rfl
  | (_, some .fault) => rfl
  | (_, some .overrun) =>
    rw [hact] at h
    exact absurd rfl h

theorem handled (hinv : Inv s) (hrun : s.running = false) (halone : StepAlone s.stub s.asked)
    (hsound : (packetKind text).Sound s.stub.clearStep f text step) :
    ∃ stub reply resumed, Handled s f text step stub reply resumed := by
  obtain ⟨hclear, hwatch⟩ := clearStep_spec (hinv.stopped hrun) halone
  have htyped : ({ s.asked with stepping := none } : Asked).Typed :=
    ⟨hinv.typed.sw, hinv.typed.hw, hinv.typed.watch⟩
  have hasked : ∀ reply, packetKind text = .cont ∨ packetKind text = .passException ∨
      packetKind text = .passOther ∨ packetKind text = .other →
        s.askedAfter f text step reply = { s.asked with stepping := none } := by
    intro reply hk
    unfold Session.askedAfter
    rcases hk with hk | hk | hk | hk <;> rw [hk]
  have hdetached : ∀ reply, packetKind text = .detach ∨ packetKind text = .kill ∨
      packetKind text = .passDetach → s.askedAfter f text step reply = .nothing := by
    intro reply hk
    unfold Session.askedAfter
    rcases hk with hk | hk | hk <;> rw [hk]
  cases hk : packetKind text with
  | brk =>
    rw [hk] at hsound
    exact handled_brk hk hinv.typed hclear hsound
  | cont =>
    rw [hk] at hsound
    obtain ⟨herr, hstarted⟩ := activate_spec hclear htyped hsound
    refine ⟨(s.stub.clearStep.gdbActivateAllBreakWatchPoints f).1, .none, true, ?_, ?_, nofun,
      fun _ => ?_, fun r => not_brk hk nofun⟩
    · unfold Stub.processPacket Stub.gdbArchHandleException
      rw [hk]
      exact resume_eq herr
    all_goals rw [hasked _ (.inl hk)]
    · exact htyped
    · exact hstarted
  | step =>
    rw [hk] at hsound
    obtain ⟨hne, hprobe, hr⟩ := hsound
    have hstep := setStep_spec hclear rfl htyped hprobe hne
    obtain ⟨herr, hstarted⟩ := activate_spec hstep ⟨htyped.sw, htyped.hw, htyped.watch⟩ hr
    have hafter : ∀ reply, s.askedAfter f text step reply = { s.asked with
        stepping := bif (s.stub.clearStep.setStep f step).2 then some step.1 else none } := by
      intro reply
      unfold Session.askedAfter
      rw [hk]
    refine ⟨((s.stub.clearStep.setStep f step).1.gdbActivateAllBreakWatchPoints f).1, .none, true,
      ?_, ?_, nofun, fun _ => ?_, fun r => not_brk hk nofun⟩
    · unfold Stub.processPacket Stub.gdbArchHandleException
      rw [hk]
      exact resume_eq herr
    all_goals rw [hafter]
    · exact ⟨htyped.sw, htyped.hw, htyped.watch⟩
    · exact hstarted
  | detach =>
    rw [hk] at hsound
    obtain ⟨hstopped, hoff⟩ := removeAll_spec (f := f) hclear hsound
    refine ⟨s.stub.clearStep.removeAllBreakWatchPoints f, .ok, true, ?_, ?_, nofun, fun _ => ?_,
      fun r => not_brk hk nofun⟩
    · unfold Stub.processPacket Stub.gdbArchHandleException
      rw [hk]
    all_goals rw [hdetached _ (.inl hk)]
    · exact Asked.typed_nothing
    · exact started_nothing hstopped hoff f
  | kill =>
    rw [hk] at hsound
    obtain ⟨hstopped, hoff⟩ := removeAll_spec (f := f) hclear hsound
    refine ⟨s.stub.clearStep.removeAllBreakWatchPoints f, .none, true, ?_, ?_, nofun, fun _ => ?_,
      fun r => not_brk hk nofun⟩
    · unfold Stub.processPacket Stub.gdbArchHandleException
      rw [hk]
    all_goals rw [hdetached _ (.inr (.inl hk))]
    · exact Asked.typed_nothing
    · exact started_nothing hstopped hoff f
  | passException =>
    refine ⟨s.stub.clearStep, (s.stub.clearStep.gdbCmdBreak f ('c' :: text.tail)).2, false, ?_, ?_,
      fun _ => ?_, nofun, fun r => not_brk hk nofun⟩
    · unfold Stub.processPacket Stub.gdbArchHandleException
      rw [hk]
      dsimp only
      rw [gdbCmdBreak_other (by decide)]
    all_goals rw [hasked _ (.inr (.inl hk))]
    · exact htyped
    · exact hclear
  | passDetach =>
    rw [hk] at hsound
    obtain ⟨hstopped, hoff⟩ := removeAll_spec (f := f) hclear hsound
    -- the detach of the packet that `process_packet` is called with once more
    have halone' : StepAlone (s.stub.clearStep.removeAllBreakWatchPoints f) .nothing := by
      intro _
      refine ⟨rfl, rfl, fun p hp hset => absurd hset ?_⟩
      exact state_ne_of_keeps hstopped.watch p.1 (List.fst_mem_of_mem_zipIdx hp)
    obtain ⟨hclear', hwatch'⟩ := clearStep_spec hstopped halone'
    have hoff' : WatchOff (s.stub.clearStep.removeAllBreakWatchPoints f).clearStep := by
      unfold WatchOff
      rw [hwatch']
      exact hoff
    obtain ⟨hstopped', -⟩ := removeAll_spec (f := f) hclear' hoff'
    let stub := (s.stub.clearStep.removeAllBreakWatchPoints f).clearStep.removeAllBreakWatchPoints f
    refine ⟨stub, (stub.gdbCmdBreak f ('D' :: text.tail)).2, false, ?_, ?_, fun _ => ?_, nofun,
      fun r => not_brk hk nofun⟩
    · unfold Stub.processPacket Stub.gdbArchHandleException
      rw [hk]
      dsimp only
      rw [gdbCmdBreak_other (by decide)]
    all_goals rw [hdetached _ (.inr (.inr hk))]
    · exact Asked.typed_nothing
    · exact hstopped'
  | passOther =>
    refine ⟨s.stub.clearStep, .error, false, ?_, ?_, fun _ => ?_, nofun, fun r =>
      not_brk hk nofun⟩
    · unfold Stub.processPacket Stub.gdbArchHandleException
      rw [hk]
    all_goals rw [hasked _ (.inr (.inr (.inl hk)))]
    · exact htyped
    · exact hclear
  | memory =>
    rw [hk] at hsound
    exact hsound.elim
  | other =>
    refine ⟨s.stub.clearStep, .other, false, ?_, ?_, fun _ => ?_, nofun, fun r =>
      not_brk hk nofun⟩
    · unfold Stub.processPacket Stub.gdbArchHandleException
      rw [hk]
    all_goals rw [hasked _ (.inr (.inr (.inr hk)))]
    · exact htyped
    · exact hclear

/-- **Step lemma**: a sound step keeps the invariant, and a removal does what it says. -/
theorem next_spec {i : Input} (h : Inv s) (hi : Sound s i) :
    ∃ s', Session.machine.next s i = some s' ∧ Removes s i s' ∧ Inv s' := by
  cases i with
  | stop f =>
    obtain ⟨hrun, hf⟩ := hi
    have hnext : s.next (.stop f) = some
        { s with stub := s.stub.gdbDeactivateAllBreakWatchPoints f, running := false } := by
      rw [Session.next, hrun, cond_true]
    exact ⟨_, hnext, trivial, h.typed, fun _ => deactivate_spec (h.started hrun) hf, nofun⟩
  | packet text step f =>
    obtain ⟨hrun, halone, -, hsound⟩ := hi
    obtain ⟨stub, reply, resumed, heq, htyped, hstopped, hstarted, hremoves⟩ :=
      handled h hrun halone hsound
    have hnext : s.next (.packet text step f) = some
        { s with
          stub := stub
          running := resumed
          asked := s.askedAfter f text step reply
          faults := f
          reply := reply } := by
      rw [Session.next, hrun, cond_false, heq]
      rfl
    exact ⟨_, hnext, hremoves, htyped, hstopped, hstarted⟩

end

/-- The sessions on a target with `brp` pairs of registers for breakpoints and `wrp` for
watchpoints whose steps are sound. -/
theorem session_good (program : Mem) (brp wrp : Nat) (is : List Input)
    (h : Session.machine.Meets Sound (.start program brp wrp) is) :
    Session.machine.Upholds Good Removes (.start program brp wrp) is :=
  Machine.upholds_of_inv (fun _ => Inv.good) (fun _ _ => next_spec) (inv_start program brp wrp) h

/-- A packet with nothing that fails. -/
def packet (text : String) : Input := .packet text.toList (0, 0) .none

/-- A breakpoint of each kind and a watchpoint are set, the target runs and stops, the breakpoints
are removed and it runs again. -/
def breakpointRun : List Input :=
  [.stop .none, packet "Z0,8000,4", packet "Z0,9001,2", packet "Z1,a000,4", packet "Z3,b000,4",
    packet "c", .stop .none, packet "z0,8000,4", packet "z1,a000,4", packet "c"]

theorem session_good_breakpoints :
    Session.machine.Meets Sound (.start (fun _ => 0xaa) 6 4) breakpointRun ∧
      Session.machine.Upholds Good Removes (.start (fun _ => 0xaa) 6 4) breakpointRun := by
  have h : Session.machine.Meets Sound (.start (fun _ => 0xaa) 6 4) breakpointRun := by
    decide +kernel
  exact ⟨h, session_good (fun _ => 0xaa) 6 4 breakpointRun h⟩

/-- A watchpoint is set, and its removal is refused. -/
def watchRun : List Input := [.stop .none, packet "Z2,1000,4"]

/-- A breakpoint of two bytes, which is four bytes long when it is taken out. -/
def thumbRun : List Input := [.stop .none, packet "Z0,8000,2", packet "c", .stop .none]

theorem session_broken :
    ¬ Session.machine.Upholds Good Removes (.start (fun _ => 0xaa) 6 4)
        (watchRun ++ [packet "z2,1000,4"]) ∧
      ¬ Session.machine.Upholds Good Removes (.start (fun _ => 0xaa) 6 4) thumbRun := by
  constructor
  · intro h
    have hasked : (Session.machine.run (.start (fun _ => 0xaa) 6 4) watchRun).map
        (fun s => (s.asked.watch 0x1000, (s.next (packet "z2,1000,4")).map (·.reply))) =
          some (some .writeWatchpoint, some .error) := by decide +kernel
    obtain ⟨s, hrun, hs⟩ := Option.map_eq_some_iff.1 hasked
    obtain ⟨hwatch, hreply⟩ := Prod.mk.inj hs
    obtain ⟨t, ht, hremoves⟩ := h.last hrun
    obtain ⟨t', ht', hreply⟩ := Option.map_eq_some_iff.1 hreply
    obtain rfl : t' = t := Option.some.inj (ht'.symm.trans ht)
    have hok := (hremoves (.removeHwWatch 0x1000) (by decide) (by decide) (by rw [hwatch]; nofun)).1
    rw [hreply] at hok
    cases hok
  · intro h
    obtain ⟨s, hrun, hgood⟩ := h.run
    have hend : (Session.machine.run (.start (fun _ => 0xaa) 6 4) thumbRun).map
        (fun s => (s.running, s.stub.mem 0x8002, s.program 0x8002)) =
          some (false, 0, 0xaa) := by decide +kernel
    rw [hrun, Option.map_some] at hend
    obtain ⟨hrunning, hmem⟩ := Prod.mk.inj (Option.some.inj hend)
    obtain ⟨hmem, hprogram⟩ := Prod.mk.inj hmem
    rw [hgood.stopped hrunning, hprogram] at hmem
    revert hmem
    decide

end Melis.Kgdb
