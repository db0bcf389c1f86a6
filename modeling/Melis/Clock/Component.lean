import Mathlib.Data.List.FinRange
import Melis.Lib.Run

/-!
# The clock component

`Clock_Component.c`: the clock waits until the ports of a mask have reported their
start times, takes the least as the base of the media time and tells the ports that
asked for it. Beside the code's data stand the mask that a wait has begun with, the
start times that were reported since, and the notifications that were made.
-/

namespace Melis.Clock

open Lib

abbrev MAX_CLOCK_PORTS : Nat := 5

abbrev MAX_64BIT : Int64 := .maxValue

inductive COMP_TIME_CLOCKSTATE
  | Running
  | WaitingForStartTime
  | Stopped
  | KhronosExtensions
  | VendorStartUnused
  | Max
  deriving DecidableEq, Repr

inductive ERRORTYPE
  | SUCCESS
  | ERR_CLOCK_ILLEGAL_PARAM
  | ERR_CLOCK_INCORRECT_STATE_TRANSITION
  | ERR_CLOCK_SAMESTATE
  deriving DecidableEq, Repr

structure COMP_TIME_CONFIG_CLOCKSTATETYPE where
  eState : COMP_TIME_CLOCKSTATE
  nStartTime : Int64
  nOffset : Int64
  nWaitMask : BitVec 32
  deriving DecidableEq

structure COMP_TIME_CONFIG_TIMESTAMPTYPE where
  nPortIndex : Nat
  nTimestamp : Int64
  deriving DecidableEq

abbrev Port : Type := Fin MAX_CLOCK_PORTS

structure CLOCKDATATYPE where
  sClockState : COMP_TIME_CONFIG_CLOCKSTATETYPE
  WallTimeBase : Int64
  MediaTimeBase : Int64
  sMinStartTime : COMP_TIME_CONFIG_TIMESTAMPTYPE
  ports_connect_info : BitVec 32
  port_start_pts : Port → Int64
  /-- `mNotifyStartToRunInfo[i].mbNotify` -/
  mbNotify : Port → Bool
  /-- The mask that the wait has begun with. -/
  asked : BitVec 32
  /-- The last start time that each port has reported since. -/
  reported : Port → Option Int64
  /-- The ports that were told of a start. -/
  notified : List Port

variable (s : CLOCKDATATYPE)

/-- The search of `nPortIndex` in `sOutPortDef`, whose entries are numbered in order. -/
def findPort (nPortIndex : Nat) : Option Port :=
  (List.finRange MAX_CLOCK_PORTS).find? fun i => i.val = nPortIndex

/-! ## The start -/

/-- The least of `port_start_pts`, `MAX_64BIT` at most. -/
def minStartTime (pts : Port → Int64) (m : COMP_TIME_CONFIG_TIMESTAMPTYPE) :
    COMP_TIME_CONFIG_TIMESTAMPTYPE :=
  (List.finRange MAX_CLOCK_PORTS).foldl
    (fun m i => if pts i < m.nTimestamp then ⟨i, pts i⟩ else m) { m with nTimestamp := MAX_64BIT }

/-- Where both kinds of start set the base and tell the ports. -/
def startToRun (m : COMP_TIME_CONFIG_TIMESTAMPTYPE) (walltime : Int64) : CLOCKDATATYPE :=
  { s with
    sMinStartTime := m
    sClockState := { s.sClockState with eState := .Running, nStartTime := m.nTimestamp }
    MediaTimeBase := m.nTimestamp
    WallTimeBase := walltime
    notified := s.notified ++ (List.finRange MAX_CLOCK_PORTS).filter s.mbNotify }

/-- A port is no longer awaited. -/
def clearPort (i : Port) (refTime : COMP_TIME_CONFIG_TIMESTAMPTYPE) : CLOCKDATATYPE :=
  { s with
    sClockState := { s.sClockState with
      nWaitMask := s.sClockState.nWaitMask &&& ~~~(1#32 <<< refTime.nPortIndex) }
    port_start_pts := Function.update s.port_start_pts i refTime.nTimestamp }

def ClockSetClientStartTime (refTime : COMP_TIME_CONFIG_TIMESTAMPTYPE) (walltime : Int64) :
    CLOCKDATATYPE × ERRORTYPE :=
  match findPort refTime.nPortIndex with
  | none => (s, .ERR_CLOCK_ILLEGAL_PARAM)
  | some i =>
    let s := { s with reported := Function.update s.reported i (some refTime.nTimestamp) }
    let s := if s.sClockState.nWaitMask ≠ 0 then clearPort s i refTime else s
    (if s.sClockState.nWaitMask = 0 ∧ s.sClockState.eState = .WaitingForStartTime then
        startToRun s (minStartTime s.port_start_pts s.sMinStartTime) walltime
      else s, .SUCCESS)

def ClockSetClientForceStartTime (refTime : COMP_TIME_CONFIG_TIMESTAMPTYPE) (walltime : Int64) :
    CLOCKDATATYPE × ERRORTYPE :=
  match findPort refTime.nPortIndex with
  | none => (s, .ERR_CLOCK_ILLEGAL_PARAM)
  | some _ =>
    let s := if s.sClockState.nWaitMask ≠ 0 ∧ s.sClockState.eState = .WaitingForStartTime then
        { s with sClockState := { s.sClockState with nWaitMask := 0 } }
      else s
    (if s.sClockState.nWaitMask = 0 ∧ s.sClockState.eState = .WaitingForStartTime then
        startToRun s refTime walltime
      else s, .SUCCESS)

/-! ## Waits -/

def ClockSeek : CLOCKDATATYPE :=
  { s with
    sClockState := { s.sClockState with
      nWaitMask := s.ports_connect_info
      eState := .WaitingForStartTime }
    sMinStartTime := { s.sMinStartTime with nTimestamp := MAX_64BIT }
    port_start_pts := fun _ => MAX_64BIT
    asked := s.ports_connect_info
    reported := fun _ => none }

/-- The same as a seek. -/
def ClockSwitchAudio : CLOCKDATATYPE := ClockSeek s

def ClockSetClockState (c : COMP_TIME_CONFIG_CLOCKSTATETYPE) : CLOCKDATATYPE × ERRORTYPE :=
  match c.eState with
  | .Running => ({ s with sClockState := c }, .SUCCESS)
  | .WaitingForStartTime =>
    if s.sClockState.eState = .Running then (s, .ERR_CLOCK_INCORRECT_STATE_TRANSITION)
    else if s.sClockState.eState = .WaitingForStartTime then (s, .ERR_CLOCK_SAMESTATE)
    else
      -- `port_start_pts` keeps what it holds.
      ({ s with
        ports_connect_info := c.nWaitMask
        sClockState := c
        asked := c.nWaitMask
        reported := fun _ => none }, .SUCCESS)
  | .Stopped => ({ s with sClockState := c }, .SUCCESS)
  | _ => (s, .SUCCESS)

/-! ## The media time -/

/-- `walltime` is what the AVS counter returns. -/
def ClockGetCurrentMediaTime (walltime : Int64) : Int64 :=
  if s.sClockState.nWaitMask ≠ 0 then -1 else walltime - s.WallTimeBase + s.MediaTimeBase

def ClockSetWallTimeBase (mediaTime walltime : Int64) : CLOCKDATATYPE :=
  { s with WallTimeBase := walltime + s.MediaTimeBase - mediaTime }

def ClockSetNotifyStartToRunInfo (nPortIndex : Nat) (mbNotify : Bool) : CLOCKDATATYPE × ERRORTYPE :=
  match findPort nPortIndex with
  | none => (s, .ERR_CLOCK_ILLEGAL_PARAM)
  | some i => ({ s with mbNotify := Function.update s.mbNotify i mbNotify }, .SUCCESS)

/-! ## Runs -/

inductive ClockCall
  | setClockState (c : COMP_TIME_CONFIG_CLOCKSTATETYPE)
  | seek
  | switchAudio
  | clientStartTime (refTime : COMP_TIME_CONFIG_TIMESTAMPTYPE) (walltime : Int64)
  | forceStartTime (refTime : COMP_TIME_CONFIG_TIMESTAMPTYPE) (walltime : Int64)
  | notifyStartToRunInfo (nPortIndex : Nat) (mbNotify : Bool)
  | wallTimeBase (mediaTime walltime : Int64)
  deriving DecidableEq

def clockNext : ClockCall → CLOCKDATATYPE
  | .setClockState c => (ClockSetClockState s c).1
  | .seek => ClockSeek s
  | .switchAudio => ClockSwitchAudio s
  | .clientStartTime refTime walltime => (ClockSetClientStartTime s refTime walltime).1
  | .forceStartTime refTime walltime => (ClockSetClientForceStartTime s refTime walltime).1
  | .notifyStartToRunInfo nPortIndex mbNotify => (ClockSetNotifyStartToRunInfo s nPortIndex mbNotify).1
  | .wallTimeBase mediaTime walltime => ClockSetWallTimeBase s mediaTime walltime

def clock : Machine CLOCKDATATYPE ClockCall where
  next s i := some (clockNext s i)

/-- `ClockComponentInit` -/
def clockInit : CLOCKDATATYPE where
  sClockState := ⟨.Stopped, 0, 0, 0⟩
  WallTimeBase := 0
  MediaTimeBase := 0
  sMinStartTime := ⟨0, MAX_64BIT⟩
  ports_connect_info := 0
  port_start_pts _ := MAX_64BIT
  mbNotify _ := false
  asked := 0
  reported _ := none
  notified := []

end Melis.Clock
