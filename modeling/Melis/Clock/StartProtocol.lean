import Mathlib.Order.Bounds.Basic
import Melis.Clock.Component

/-!
# The start of a clock

While the clock waits, its mask holds the ports that are still awaited, and
`port_start_pts` what the others have reported. A wait that a seek begins clears the
start times; one that `ClockSetClockState` begins has to find them cleared.
-/

namespace Melis.Clock

open Lib Function

variable {s : CLOCKDATATYPE} {i : ClockCall} {refTime : COMP_TIME_CONFIG_TIMESTAMPTYPE}
  {walltime : Int64} {n : Nat} {p : Port}

/-! ## What is claimed -/

/-- The port is in the mask that the wait has begun with, and has not reported since. -/
def Awaited (s : CLOCKDATATYPE) (n : Nat) : Prop :=
  s.asked.getLsbD n = true ∧ ∀ p : Port, p.val = n → s.reported p = none

/-- The last port that was awaited reports, or a start is forced. -/
def Starts (s : CLOCKDATATYPE) (i : ClockCall) : Prop :=
  s.sClockState.eState = .WaitingForStartTime ∧ match i with
    | .clientStartTime refTime _ =>
      refTime.nPortIndex < MAX_CLOCK_PORTS ∧ ∀ n, Awaited s n → n = refTime.nPortIndex
    | .forceStartTime refTime _ => refTime.nPortIndex < MAX_CLOCK_PORTS
    | _ => False

def SetsRunning (i : ClockCall) : Prop := ∃ c, i = .setClockState c ∧ c.eState = .Running

/-- What a step does to the start of the clock. -/
structure StartLaw (s : CLOCKDATATYPE) (i : ClockCall) (s' : CLOCKDATATYPE) : Prop where
  running : s.sClockState.eState ≠ .Running →
    (s'.sClockState.eState = .Running ↔ Starts s i ∨ SetsRunning i)
  /-- The base is the least of the start times that were reported since the wait began. -/
  base : ∀ refTime walltime, i = .clientStartTime refTime walltime → Starts s i →
    IsLeast {t | ∃ p, s'.reported p = some t} s'.MediaTimeBase
  forced : ∀ refTime walltime, i = .forceStartTime refTime walltime → Starts s i →
    s'.MediaTimeBase = refTime.nTimestamp
  notified : Starts s i → ∀ p, s'.notified.count p = s.notified.count p + (s.mbNotify p).toNat
  silent : ¬ Starts s i → s'.notified = s.notified

/-- No media time is returned while a port is awaited. -/
def Untimed (s : CLOCKDATATYPE) : Prop :=
  s.sClockState.eState = .WaitingForStartTime → (∃ n, Awaited s n) →
    ∀ walltime, ClockGetCurrentMediaTime s walltime = -1

/-- A wait begins with a port to wait for, and without start times from before. -/
def Clean (s : CLOCKDATATYPE) : ClockCall → Prop
  | .setClockState c => c.eState = .WaitingForStartTime → s.sClockState.eState ≠ .Running →
    s.sClockState.eState ≠ .WaitingForStartTime →
      c.nWaitMask ≠ 0 ∧ ∀ p, s.port_start_pts p = MAX_64BIT
  | .seek | .switchAudio => s.ports_connect_info ≠ 0
  | _ => True

instance : (i : ClockCall) → Decidable (Clean s i)
  | .setClockState c => inferInstanceAs (Decidable (c.eState = .WaitingForStartTime →
      s.sClockState.eState ≠ .Running → s.sClockState.eState ≠ .WaitingForStartTime →
        c.nWaitMask ≠ 0 ∧ ∀ p, s.port_start_pts p = MAX_64BIT))
  | .seek | .switchAudio => inferInstanceAs (Decidable (s.ports_connect_info ≠ 0))
  | .clientStartTime _ _ | .forceStartTime _ _ | .notifyStartToRunInfo _ _ | .wallTimeBase _ _ =>
    .isTrue trivial

/-! ## Ports and masks -/

theorem findPort_eq_some : findPort n = some p ↔ p.val = n := by
  unfold findPort
  constructor
  · intro h
    have hp := List.find?_some h
    exact of_decide_eq_true hp
  · rintro rfl
    revert p
    decide

theorem findPort_eq_none : findPort n = none ↔ ¬ n < MAX_CLOCK_PORTS := by
  constructor
  · intro h hn
    have hsome := findPort_eq_some.2 (rfl : (⟨n, hn⟩ : Port).val = n)
    rw [h] at hsome
    cases hsome
  · intro hn
    cases h : findPort n with
    | none => rfl
    | some p => exact absurd (findPort_eq_some.1 h ▸ p.isLt) hn

theorem getLsbD_clear (mask : BitVec 32) (p : Port) (n : Nat) :
    (mask &&& ~~~(1#32 <<< p.val)).getLsbD n = (mask.getLsbD n && decide (n ≠ p.val)) := by
  have hp : p.val < 32 := p.isLt.trans (by decide)
  rw [BitVec.getLsbD_and, BitVec.getLsbD_not, BitVec.getLsbD_shiftLeft, BitVec.getLsbD_one]
  by_cases hn : n < 32
  · by_cases hnp : n = p.val
    · subst hnp
      simp [hp]
    · have hor : n < p.val ∨ n - p.val ≠ 0 := by omega
      rcases hor with hlt | hne
      · simp [hn, hnp, hlt]
      · simp [hn, hnp, hne]
  · rw [BitVec.getLsbD_of_ge mask n (by omega), Bool.false_and, Bool.false_and]

theorem eq_zero_iff (mask : BitVec 32) : mask = 0 ↔ ∀ n, mask.getLsbD n = false := by
  constructor
  · rintro rfl n
    exact BitVec.getLsbD_zero
  · intro h
    apply BitVec.eq_of_getLsbD_eq
    intro n _
    rw [h n]
    exact BitVec.getLsbD_zero.symm

/-! ## The least start time -/

theorem foldl_min (pts : Port → Int64) (l : List Port) (m : COMP_TIME_CONFIG_TIMESTAMPTYPE) :
    let r := l.foldl (fun m i => if pts i < m.nTimestamp then ⟨i, pts i⟩ else m) m
    r.nTimestamp ≤ m.nTimestamp ∧ (∀ p ∈ l, r.nTimestamp ≤ pts p) ∧
      (r.nTimestamp = m.nTimestamp ∨ ∃ p ∈ l, r.nTimestamp = pts p) := by
  induction l generalizing m with
  | nil => exact ⟨Int64.le_refl _, nofun, .inl rfl⟩
  | cons i l ih =>
    rw [List.foldl_cons]
    by_cases hlt : pts i < m.nTimestamp
    · rw [if_pos hlt]
      obtain ⟨hle, hall, hor⟩ := ih ⟨i, pts i⟩
      refine ⟨Int64.le_trans hle (Int64.le_of_lt hlt), ?_, ?_⟩
      · rintro p (_ | ⟨_, hp⟩)
        · exact hle
        · exact hall p hp
      · rcases hor with heq | ⟨p, hp, heq⟩
        · exact .inr ⟨i, List.mem_cons_self, heq⟩
        · exact .inr ⟨p, List.mem_cons_of_mem i hp, heq⟩
    · rw [if_neg hlt]
      obtain ⟨hle, hall, hor⟩ := ih m
      refine ⟨hle, ?_, ?_⟩
      · rintro p (_ | ⟨_, hp⟩)
        · exact Int64.le_trans hle (Int64.not_lt.1 hlt)
        · exact hall p hp
      · rcases hor with heq | ⟨p, hp, heq⟩
        · exact .inl heq
        · exact .inr ⟨p, List.mem_cons_of_mem i hp, heq⟩

theorem minStartTime_le (pts : Port → Int64) (m : COMP_TIME_CONFIG_TIMESTAMPTYPE) (p : Port) :
    (minStartTime pts m).nTimestamp ≤ pts p := by
  unfold minStartTime
  exact (foldl_min pts _ _).2.1 p (List.mem_finRange p)

theorem minStartTime_eq (pts : Port → Int64) (m : COMP_TIME_CONFIG_TIMESTAMPTYPE) :
    (minStartTime pts m).nTimestamp = MAX_64BIT ∨ ∃ p, (minStartTime pts m).nTimestamp = pts p := by
  unfold minStartTime
  exact (foldl_min pts _ _).2.2.imp_right fun ⟨p, _, heq⟩ => ⟨p, heq⟩

/-- Ports that have not reported do not count. -/
theorem isLeast_minStartTime {pts : Port → Int64} {reported : Port → Option Int64}
    (h : ∀ p, pts p = (reported p).getD MAX_64BIT) {t : Int64} (hp : reported p = some t)
    (m : COMP_TIME_CONFIG_TIMESTAMPTYPE) :
    IsLeast {t | ∃ p, reported p = some t} (minStartTime pts m).nTimestamp := by
  have hpts {q : Port} {u : Int64} (hq : reported q = some u) : pts q = u := by
    rw [h q, hq]
    rfl
  have hle {q : Port} {u : Int64} (hq : reported q = some u) :
      (minStartTime pts m).nTimestamp ≤ u := hpts hq ▸ minStartTime_le pts m q
  have hmin : (minStartTime pts m).nTimestamp = MAX_64BIT ∨
      ∃ q, reported q = some (minStartTime pts m).nTimestamp := by
    rcases minStartTime_eq pts m with heq | ⟨q, heq⟩
    · exact .inl heq
    · cases hq : reported q with
      | some u => exact .inr ⟨q, by rw [hq, heq, hpts hq]⟩
      | none =>
        rw [h q, hq] at heq
        exact .inl heq
  refine ⟨?_, fun u ⟨q, hq⟩ => hle hq⟩
  rcases hmin with heq | hmem
  · -- Then the port that has reported has reported `MAX_64BIT`.
    have hge := hle hp
    rw [heq] at hge ⊢
    exact ⟨p, hp.trans (congrArg some (Int64.le_antisymm (Int64.le_maxValue t) hge))⟩
  · exact hmem

/-! ## Waits -/

/-- What the code holds of a wait. -/
structure Waits (s : CLOCKDATATYPE) : Prop where
  mask_ne : s.sClockState.nWaitMask ≠ 0
  mask : ∀ n, s.sClockState.nWaitMask.getLsbD n = true ↔ Awaited s n
  pts : ∀ p, s.port_start_pts p = (s.reported p).getD MAX_64BIT

def Inv (s : CLOCKDATATYPE) : Prop :=
  s.sClockState.eState = .WaitingForStartTime → Waits s

theorem Inv.untimed (h : Inv s) : Untimed s := by
  intro hw _ _
  unfold ClockGetCurrentMediaTime
  rw [if_pos (h hw).mask_ne]

theorem inv_init : Inv clockInit := nofun

/-- A step without a start. -/
theorem StartLaw.quiet {s' : CLOCKDATATYPE} (hstart : ¬ Starts s i) (hset : ¬ SetsRunning i)
    (hrun : s'.sClockState.eState = .Running → s.sClockState.eState = .Running)
    (hnotified : s'.notified = s.notified) : StartLaw s i s' where
  running hne := iff_of_false (fun h => hne (hrun h)) (not_or.2 ⟨hstart, hset⟩)
  base _ _ _ h := absurd h hstart
  forced _ _ _ h := absurd h hstart
  notified h := absurd h hstart
  silent _ := hnotified

/-- Each port that asked for it is told once. -/
theorem count_told (f : Port → Bool) (p : Port) :
    ((List.finRange MAX_CLOCK_PORTS).filter f).count p = (f p).toNat := by
  cases hf : f p with
  | true =>
    exact List.count_eq_one_of_mem ((List.nodup_finRange _).filter f)
      (List.mem_filter.2 ⟨List.mem_finRange p, hf⟩)
  | false =>
    refine List.count_eq_zero_of_not_mem fun hmem => ?_
    have htrue := (List.mem_filter.1 hmem).2
    rw [hf] at htrue
    cases htrue

theorem base_startToRun {reported : Port → Option Int64} {m : COMP_TIME_CONFIG_TIMESTAMPTYPE}
    (hs : s.reported = reported) (h : IsLeast {t | ∃ p, reported p = some t} m.nTimestamp) :
    IsLeast {t | ∃ p, (startToRun s m walltime).reported p = some t}
      (startToRun s m walltime).MediaTimeBase := by
  subst hs
  exact h

theorem notified_startToRun (s : CLOCKDATATYPE) (m : COMP_TIME_CONFIG_TIMESTAMPTYPE)
    (walltime : Int64) (p : Port) :
    (startToRun s m walltime).notified.count p = s.notified.count p + (s.mbNotify p).toNat := by
  rw [← count_told]
  exact List.count_append

/-! ## Steps -/

/-- A wait begins with every port of its mask awaited. -/
theorem waits_begin (hne : s.sClockState.nWaitMask ≠ 0)
    (hasked : s.asked = s.sClockState.nWaitMask) (hrep : s.reported = fun _ => none)
    (hpts : ∀ p, s.port_start_pts p = MAX_64BIT) : Waits s where
  mask_ne := hne
  mask n := by
    unfold Awaited
    rw [hasked, hrep]
    exact ⟨fun h => ⟨h, fun _ _ => rfl⟩, And.left⟩
  pts p := by
    rw [hrep]
    exact hpts p

theorem seek_step (hcall : i = .seek ∨ i = .switchAudio) (hC : s.ports_connect_info ≠ 0) :
    StartLaw s i (ClockSeek s) ∧ Inv (ClockSeek s) := by
  refine ⟨.quiet ?_ ?_ nofun rfl, fun _ => waits_begin hC rfl rfl fun _ => rfl⟩
  · rcases hcall with rfl | rfl <;> exact fun h => h.2
  · rintro ⟨c, rfl, _⟩
    rcases hcall with h | h <;> cases h

theorem setClockState_step (hI : Inv s) {c : COMP_TIME_CONFIG_CLOCKSTATETYPE}
    (hC : Clean s (.setClockState c)) :
    StartLaw s (.setClockState c) (ClockSetClockState s c).1 ∧ Inv (ClockSetClockState s c).1 := by
  have hstart : ¬ Starts s (.setClockState c) := fun h => h.2
  have hquiet (hne : c.eState ≠ .Running) : ¬ SetsRunning (.setClockState c) := by
    rintro ⟨_, ⟨⟩, h⟩
    exact hne h
  unfold ClockSetClockState
  split
  · rename_i hrun
    have hset : SetsRunning (.setClockState c) := ⟨c, rfl, hrun⟩
    refine ⟨?_, fun hw => absurd (hrun.symm.trans hw) nofun⟩
    exact {
      running := fun _ => iff_of_true hrun (.inr hset)
      base := fun _ _ _ h => absurd h hstart
      forced := fun _ _ _ h => absurd h hstart
      notified := fun h => absurd h hstart
      silent := fun _ => rfl }
  · rename_i hwait
    have hset := hquiet (by rw [hwait]; nofun)
    split_ifs with hrun hsame
    · exact ⟨.quiet hstart hset id rfl, hI⟩
    · exact ⟨.quiet hstart hset id rfl, hI⟩
    · obtain ⟨hne, hpts⟩ := hC hwait hrun hsame
      refine ⟨.quiet hstart hset (fun h => absurd (hwait.symm.trans h) nofun) rfl, fun _ => ?_⟩
      exact waits_begin hne rfl rfl hpts
  · rename_i hstop
    have hset := hquiet (by rw [hstop]; nofun)
    exact ⟨.quiet hstart hset (fun h => absurd (hstop.symm.trans h) nofun) rfl,
      fun hw => absurd (hstop.symm.trans hw) nofun⟩
  · rename_i hrun _ _
    exact ⟨.quiet hstart (hquiet hrun) id rfl, hI⟩

/-- A report. -/
abbrev reports (s : CLOCKDATATYPE) (p : Port) (refTime : COMP_TIME_CONFIG_TIMESTAMPTYPE) :
    CLOCKDATATYPE :=
  clearPort { s with reported := update s.reported p (some refTime.nTimestamp) } p refTime

theorem awaited_reports (p : Port) (n : Nat) :
    Awaited (reports s p refTime) n ↔ Awaited s n ∧ n ≠ p.val := by
  have hself : (reports s p refTime).reported p = some refTime.nTimestamp :=
    update_self ..
  have hother {q : Port} (hq : q ≠ p) : (reports s p refTime).reported q = s.reported q :=
    update_of_ne hq ..
  unfold Awaited
  constructor
  · rintro ⟨hbit, hnone⟩
    have hne : n ≠ p.val := by
      rintro rfl
      cases hself.symm.trans (hnone p rfl)
    refine ⟨⟨hbit, fun q hq => ?_⟩, hne⟩
    have hqp : q ≠ p := by
      rintro rfl
      exact hne hq.symm
    exact (hother hqp).symm.trans (hnone q hq)
  · rintro ⟨⟨hbit, hnone⟩, hne⟩
    refine ⟨hbit, fun q hq => ?_⟩
    have hqp : q ≠ p := by
      rintro rfl
      exact hne hq.symm
    exact (hother hqp).trans (hnone q hq)

/-- **A report clears the bit of its port.** -/
theorem Waits.report (hW : Waits s) (hp : p.val = refTime.nPortIndex) :
    ((reports s p refTime).sClockState.nWaitMask = 0 ↔ ∀ n, Awaited s n → n = p.val) ∧
      ((reports s p refTime).sClockState.nWaitMask ≠ 0 → Waits (reports s p refTime)) ∧
      ∀ m, IsLeast {t | ∃ q, (reports s p refTime).reported q = some t}
        (minStartTime (reports s p refTime).port_start_pts m).nTimestamp := by
  have hbits (n : Nat) : (reports s p refTime).sClockState.nWaitMask.getLsbD n = true ↔
      Awaited s n ∧ n ≠ p.val := by
    unfold reports clearPort
    dsimp only
    rw [← hp, getLsbD_clear, Bool.and_eq_true, hW.mask n, decide_eq_true_eq]
  have hpts (q : Port) : (reports s p refTime).port_start_pts q =
      ((reports s p refTime).reported q).getD MAX_64BIT := by
    unfold reports clearPort
    dsimp only
    by_cases hq : q = p
    · subst hq
      rw [update_self, update_self]
      rfl
    · rw [update_of_ne hq, update_of_ne hq]
      exact hW.pts q
  have hself : (reports s p refTime).reported p = some refTime.nTimestamp :=
    update_self ..
  refine ⟨?_, fun hne => ⟨hne, fun n => (hbits n).trans (awaited_reports p n).symm, hpts⟩,
    fun m => isLeast_minStartTime hpts hself m⟩
  rw [eq_zero_iff]
  refine forall_congr' fun n => ?_
  rw [← Bool.not_eq_true, hbits n, not_and_not_right]

theorem clientStartTime_step (hI : Inv s) :
    StartLaw s (.clientStartTime refTime walltime) (ClockSetClientStartTime s refTime walltime).1 ∧
      Inv (ClockSetClientStartTime s refTime walltime).1 := by
  have hset : ¬ SetsRunning (.clientStartTime refTime walltime) := by
    rintro ⟨c, hc, _⟩
    cases hc
  unfold ClockSetClientStartTime
  cases hport : findPort refTime.nPortIndex with
  | none =>
    exact ⟨.quiet (fun h => findPort_eq_none.1 hport h.2.1) hset id rfl, hI⟩
  | some p =>
    have hp : p.val = refTime.nPortIndex := findPort_eq_some.1 hport
    dsimp only
    by_cases hw : s.sClockState.eState = .WaitingForStartTime
    · have hW := hI hw
      obtain ⟨hzero, hwaits, hleast⟩ := hW.report hp
      have hstarts : Starts s (.clientStartTime refTime walltime) ↔
          ∀ n, Awaited s n → n = p.val := by
        unfold Starts
        rw [hp]
        exact ⟨fun h => h.2.2, fun h => ⟨hw, hp ▸ p.isLt, h⟩⟩
      rw [if_pos hW.mask_ne]
      by_cases hdone : (reports s p refTime).sClockState.nWaitMask = 0
      · rw [if_pos ⟨hdone, hw⟩]
        have hstart := hstarts.2 (hzero.1 hdone)
        refine ⟨?_, nofun⟩
        exact {
          running := fun _ => iff_of_true rfl (.inl hstart)
          base := fun _ _ _ _ => base_startToRun rfl (hleast _)
          forced := nofun
          notified := fun _ q => notified_startToRun (reports s p refTime) _ _ q
          silent := fun h => absurd hstart h }
      · rw [if_neg fun h => hdone h.1]
        exact ⟨.quiet (fun h => hdone (hzero.2 (hstarts.1 h))) hset id rfl, fun _ => hwaits hdone⟩
    · have hns : ¬ Starts s (.clientStartTime refTime walltime) := fun h => hw h.1
      -- The clock does not wait, so nothing starts.
      split
      · rw [if_neg fun h => hw h.2]
        exact ⟨.quiet hns hset id rfl, fun h => absurd h hw⟩
      · rw [if_neg fun h => hw h.2]
        exact ⟨.quiet hns hset id rfl, fun h => absurd h hw⟩

theorem forceStartTime_step (hI : Inv s) :
    StartLaw s (.forceStartTime refTime walltime)
        (ClockSetClientForceStartTime s refTime walltime).1 ∧
      Inv (ClockSetClientForceStartTime s refTime walltime).1 := by
  have hset : ¬ SetsRunning (.forceStartTime refTime walltime) := by
    rintro ⟨c, hc, _⟩
    cases hc
  unfold ClockSetClientForceStartTime
  cases hport : findPort refTime.nPortIndex with
  | none => exact ⟨.quiet (fun h => findPort_eq_none.1 hport h.2) hset id rfl, hI⟩
  | some p =>
    have hp : p.val = refTime.nPortIndex := findPort_eq_some.1 hport
    dsimp only
    by_cases hw : s.sClockState.eState = .WaitingForStartTime
    · have hstart : Starts s (.forceStartTime refTime walltime) := ⟨hw, hp.symm.trans_lt p.isLt⟩
      have hmask : s.sClockState.nWaitMask ≠ 0 ∧ s.sClockState.eState = .WaitingForStartTime :=
        ⟨(hI hw).mask_ne, hw⟩
      rw [if_pos hmask, if_pos ⟨rfl, hw⟩]
      refine ⟨?_, nofun⟩
      exact {
        running := fun _ => iff_of_true rfl (.inl hstart)
        base := nofun
        forced := fun _ _ h _ => by cases h; rfl
        notified := fun _ q => notified_startToRun _ _ _ q
        silent := fun h => absurd hstart h }
    · have hns : ¬ Starts s (.forceStartTime refTime walltime) := fun h => hw h.1
      have hmask : ¬ (s.sClockState.nWaitMask ≠ 0 ∧ s.sClockState.eState = .WaitingForStartTime) :=
        fun h => hw h.2
      rw [if_neg hmask, if_neg fun h => hw h.2]
      exact ⟨.quiet hns hset id rfl, hI⟩

/-! ## Runs -/

theorem clock_step (hI : Inv s) (hC : Clean s i) :
    StartLaw s i (clockNext s i) ∧ Inv (clockNext s i) := by
  cases i with
  | setClockState c => exact setClockState_step hI hC
  | seek => exact seek_step (.inl rfl) hC
  | switchAudio => exact seek_step (.inr rfl) hC
  | clientStartTime refTime walltime => exact clientStartTime_step hI
  | forceStartTime refTime walltime => exact forceStartTime_step hI
  | notifyStartToRunInfo n mbNotify =>
    have hset : ¬ SetsRunning (.notifyStartToRunInfo n mbNotify) := by
      rintro ⟨c, hc, _⟩
      cases hc
    unfold clockNext ClockSetNotifyStartToRunInfo
    dsimp only
    cases findPort n with
    | none => exact ⟨.quiet (fun h => h.2) hset id rfl, hI⟩
    | some p => exact ⟨.quiet (fun h => h.2) hset id rfl, fun hw => { hI hw with }⟩
  | wallTimeBase mediaTime walltime =>
    have hset : ¬ SetsRunning (.wallTimeBase mediaTime walltime) := by
      rintro ⟨c, hc, _⟩
      cases hc
    exact ⟨.quiet (fun h => h.2) hset id rfl, fun hw => { hI hw with }⟩

/-- Two ports start at 5, and the clock is stopped. -/
def startedOnce : CLOCKDATATYPE :=
  [.setClockState ⟨.WaitingForStartTime, 0, 0, 3⟩, .clientStartTime ⟨0, 10⟩ 0,
    .clientStartTime ⟨1, 5⟩ 0, .setClockState ⟨.Stopped, 0, 0, 0⟩].foldl clockNext clockInit

end Melis.Clock
