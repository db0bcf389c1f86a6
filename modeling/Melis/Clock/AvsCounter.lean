import Melis.Lib.C
import Melis.Lib.Run

/-!
# The AVS counter

`cedarx_avs_counter.c`: a clock that runs at `100 - adjust_ratio` percent of the
system clock and stands still while it is idle or paused. Each call reads the
system clock once, under the mutex. Against the five bases stands a history of
the run: the stretches of one ratio, with the time that ran in each.
-/

namespace Melis.Clock

open Lib

inductive CedarxAvscounterState
  | Invalid
  | Idle
  | Executing
  | Pause
  deriving DecidableEq, Repr

structure CedarxAvscounterContext where
  sample_time : Int
  base_time : Int
  adjust_ratio : Int
  system_base_time : Int
  mSystemPauseBaseTime : Int
  mSystemPauseDuration : Int
  mStatus : CedarxAvscounterState
  deriving DecidableEq, Repr

/-! ## The routines

`now` is what `avscounter_get_system_time` returns; `none` is a signed overflow. -/

def avscounter_reset (now : Int) : CedarxAvscounterContext where
  sample_time := now
  base_time := 0
  adjust_ratio := 0
  system_base_time := now
  mSystemPauseBaseTime := now
  mSystemPauseDuration := 0
  mStatus := .Idle

variable (context : CedarxAvscounterContext) (now : Int)

/-- `curr` and `sample_time` -/
def avscounter_get_time_l : Option (Int × Int) := do
  let system_time ← int64
    (if context.mStatus = .Executing then now - context.mSystemPauseDuration
      else context.mSystemPauseBaseTime - context.mSystemPauseDuration)
  let elapsed ← int64 (system_time - context.sample_time)
  let factor ← intAdd 100 (-context.adjust_ratio)
  let scaled ← int64 (elapsed * factor)
  let curr ← int64 (scaled.tdiv 100 + context.base_time)
  return (curr, system_time)

def avscounter_get_time : Option Int := (avscounter_get_time_l context now).map Prod.fst

def avscounter_adjust (val : Int) : Option CedarxAvscounterContext :=
  if context.adjust_ratio ≠ val then do
    let (curr, sample_time) ← avscounter_get_time_l context now
    return { context with sample_time, base_time := curr, adjust_ratio := val }
  else some context

def avscounter_start : Option CedarxAvscounterContext :=
  if context.mStatus = .Idle ∨ context.mStatus = .Pause then do
    let nDuration ← int64 (now - context.mSystemPauseBaseTime)
    let mSystemPauseDuration ← int64 (context.mSystemPauseDuration + nDuration)
    return { context with mSystemPauseDuration, mStatus := .Executing }
  else some context

def avscounter_pause : CedarxAvscounterContext :=
  match context.mStatus with
  | .Executing => { context with mSystemPauseBaseTime := now, mStatus := .Pause }
  | .Idle => { context with mStatus := .Pause }
  | _ => context

/-! ## Runs -/

inductive AvsCall
  | reset
  | start
  | pause
  | adjust (val : Int)
  | get_time
  deriving DecidableEq, Repr

/-- A call, with the system time at which it is made. -/
structure AvsEvent where
  now : Int
  call : AvsCall
  deriving DecidableEq, Repr

def avsNext (e : AvsEvent) : Option CedarxAvscounterContext :=
  match e.call with
  | .reset => some (avscounter_reset e.now)
  | .start => avscounter_start context e.now
  | .pause => some (avscounter_pause context e.now)
  | .adjust val => avscounter_adjust context e.now val
  | .get_time => (avscounter_get_time context e.now).map fun _ => context

def avsCounter : Machine CedarxAvscounterContext AvsEvent := ⟨avsNext⟩

/-- What `get_time` returns at `now`, behind the calls `es` on a counter that was requested
at `t0`. -/
def timeAfter (t0 : Int) (es : List AvsEvent) (now : Int) : Option Int :=
  (avsCounter.run (avscounter_reset t0) es).bind fun context => avscounter_get_time context now

/-! ## The history -/

/-- A stretch of one ratio, with the time that the counter ran in it. -/
structure Stretch where
  ratio : Int
  running : Int

/-- What a stretch adds to the counter, as the code rounds it. -/
def Stretch.time (x : Stretch) : Int := (x.running * (100 - x.ratio)).tdiv 100

/-- Since the last reset: the finished stretches, the one under way, whether the counter
runs, and the last instant. -/
structure History where
  finished : List Stretch
  current : Stretch
  runs : Bool
  last : Int

namespace History

def initial (now : Int) : History := ⟨[], ⟨0, 0⟩, false, now⟩

def runningAt (h : History) (now : Int) : Int :=
  h.current.running + if h.runs then now - h.last else 0

/-- The stretch under way, up to `now`. -/
def currentAt (h : History) (now : Int) : Stretch := ⟨h.current.ratio, h.runningAt now⟩

/-- The sum over the stretches, the one under way up to `now`. -/
def total (h : History) (now : Int) : Int :=
  (h.finished.map Stretch.time).sum + (h.currentAt now).time

def next (h : History) (e : AvsEvent) : History :=
  let h' := { h with current := h.currentAt e.now, last := e.now }
  match e.call with
  | .reset => initial e.now
  | .start => { h' with runs := true }
  | .pause => { h' with runs := false }
  | .adjust val =>
    if h.current.ratio = val then h'
    else { h' with finished := h.finished ++ [h.currentAt e.now], current := ⟨val, 0⟩ }
  | .get_time => h'

end History

def history (t0 : Int) (es : List AvsEvent) : History := es.foldl .next (.initial t0)

end Melis.Clock
