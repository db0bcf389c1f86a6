import Melis.Clock.AvsCounter

/-!
# The playback speed

Three paths of `Clock_Component.c` write the ratio of the AVS counter: `ClockSetVps`,
`ClockAdjustClock`, which follows a reference clock, and the start out of the idle state. Beside
the code's data stand the speed last asked for and the last difference to the reference.
`speed_iff` says which runs keep the ratio at that speed.
-/

namespace Melis.Clock

open Lib

inductive COMP_STATETYPE
  | Invalid
  | Loaded
  | Idle
  | Executing
  | Pause
  | Other
  deriving DecidableEq, Repr

/-- `AVS_ADJUST_PERIOD` -/
abbrev AVS_ADJUST_PERIOD : Int := 5 * 1000 * 1000

structure SpeedState where
  nDstRatio : Int
  state : COMP_STATETYPE
  avs_counter : CedarxAvscounterContext
  WallTimeBase : Int
  MediaTimeBase : Int
  /-- The speed last asked for. -/
  asked : Int
  /-- The last difference to the reference. -/
  lastDiff : Option Int
  deriving DecidableEq

variable (s : SpeedState)

/-! ## The routines -/

/-- The two bounds of `tmpRatio`. -/
def clampRatio (tmpRatio : Int) : Int :=
  let tmpRatio := if tmpRatio > 3 then 3 else tmpRatio
  if tmpRatio < -3 then -3 else tmpRatio

/-- The reference is too far away to leave the ratio alone. -/
def Apart (mediaTimediff : Int) : Prop := mediaTimediff > 50 * 1000 ∨ mediaTimediff < -50 * 1000

instance (mediaTimediff : Int) : Decidable (Apart mediaTimediff) :=
  inferInstanceAs (Decidable (_ ∨ _))

/-- `adjust_ratio` of `ClockAdjustClock`; `none` is a signed overflow. The conversion of
`precise_adjust_ratio` to an `int` wraps around. -/
def adjustRatio (nDstRatio mediaTimediff : Int) : Option Int :=
  if Apart mediaTimediff then do
    let factor ← intAdd 100 (-nDstRatio)
    let product ← int64 (factor * mediaTimediff)
    let precise_adjust_ratio ← int64 (nDstRatio - product.tdiv AVS_ADJUST_PERIOD)
    let tmpRatio ← intAdd (i32 precise_adjust_ratio) (-nDstRatio)
    intAdd (clampRatio tmpRatio) nDstRatio
  else some 0

def mediaTimediff (nTimestamp now : Int) : Option Int := do
  let mediatime ← avscounter_get_time s.avs_counter now
  let mediatime ← int64 (mediatime - s.WallTimeBase)
  let mediatime ← int64 (mediatime + s.MediaTimeBase)
  int64 (nTimestamp - mediatime)

/-- `now` and `later` are the system times of the two calls of the counter. -/
def ClockAdjustClock (nTimestamp now later : Int) : Option SpeedState := do
  let diff ← mediaTimediff s nTimestamp now
  let adjust_ratio ← adjustRatio s.nDstRatio diff
  let avs_counter ← avscounter_adjust s.avs_counter later adjust_ratio
  return { s with avs_counter, lastDiff := some diff }

def ClockSetVps (adjust_ratio now : Int) : Option SpeedState :=
  if s.nDstRatio = adjust_ratio then some s
  else do
    let avs_counter ← avscounter_adjust s.avs_counter now adjust_ratio
    return { s with avs_counter, nDstRatio := adjust_ratio }

/-- `ClockSetConfig` with `COMP_IndexVendorVps`: `adjust_ratio` is `nDstRatio` there, and the
structure of the caller is not read. -/
def ClockSetConfigVps (_vps now : Int) : Option SpeedState := ClockSetVps s s.nDstRatio now

/-- `ClockGetConfig` with `COMP_IndexVendorVps`. -/
def ClockGetVps : Int := s.nDstRatio

/-- A `SetState` of the component thread. -/
def setState (cmddata : COMP_STATETYPE) (now later : Int) : Option SpeedState :=
  if s.state = cmddata then some s
  else
    match cmddata with
    | .Invalid => some { s with state := .Invalid }
    | .Loaded => some { s with state := .Loaded }
    | .Idle =>
      let s := { s with avs_counter := avscounter_reset now }
      some (if s.state = .Invalid then s else { s with state := .Idle })
    | .Executing =>
      if s.state = .Idle ∨ s.state = .Pause then do
        let avs_counter ←
          if s.state = .Idle then avscounter_adjust s.avs_counter now s.nDstRatio
          else some s.avs_counter
        let avs_counter ← avscounter_start avs_counter later
        return { s with avs_counter, state := .Executing }
      else some s
    | .Pause =>
      if s.state = .Idle ∨ s.state = .Executing then
        some { s with avs_counter := avscounter_pause s.avs_counter now, state := .Pause }
      else some s
    | .Other => some s

/-! ## Runs -/

inductive SpeedCall
  | setConfigVps (vps now : Int)
  | setVps (adjust_ratio now : Int)
  | adjustClock (nTimestamp now later : Int)
  | setState (cmddata : COMP_STATETYPE) (now later : Int)
  /-- The start protocol sets the bases of the media time. -/
  | setBases (WallTimeBase MediaTimeBase : Int)
  deriving DecidableEq

def speedNext : SpeedCall → Option SpeedState
  | .setConfigVps vps now => (ClockSetConfigVps s vps now).map fun s => { s with asked := vps }
  | .setVps adjust_ratio now =>
    (ClockSetVps s adjust_ratio now).map fun s => { s with asked := adjust_ratio }
  | .adjustClock nTimestamp now later => ClockAdjustClock s nTimestamp now later
  | .setState cmddata now later => setState s cmddata now later
  | .setBases WallTimeBase MediaTimeBase => some { s with WallTimeBase, MediaTimeBase }

def speed : Machine SpeedState SpeedCall := ⟨speedNext⟩

/-- `ClockComponentInit` -/
def speedInit (now : Int) : SpeedState where
  nDstRatio := 0
  state := .Loaded
  avs_counter := avscounter_reset now
  WallTimeBase := 0
  MediaTimeBase := 0
  asked := 0
  lastDiff := none

end Melis.Clock
