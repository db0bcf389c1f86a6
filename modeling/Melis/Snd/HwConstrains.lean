import Melis.Lib.Calc

/-!
# Hardware parameters

`snd_hw_constrains_check` of `snd_pcm.c`: the parameters of a request are derived from one another
and then compared with what the hardware can do. An interval is a union in the source, and its
mask is its `min`. `can_paused`, `rmask` and `cmask` are not used here.
-/

namespace Melis.Snd

open Lib

inductive HwParam where
  | ACCESS | FORMAT | SAMPLE_BITS | FRAME_BITS | CHANNELS | RATE
  | PERIOD_TIME | PERIOD_SIZE | PERIOD_BYTES | PERIODS
  | BUFFER_TIME | BUFFER_SIZE | BUFFER_BYTES
  deriving DecidableEq, Repr

structure Interval where
  min : Nat
  max : Nat
  deriving DecidableEq, Repr

def Interval.mask (i : Interval) : Nat := i.min

/-- `snd_pcm_hw_params` and `snd_pcm_hw_constrains`: an interval for each parameter. -/
abbrev PcmHwParams := HwParam → Interval

namespace PcmHwParams

/-- `intervals[type].range.min` -/
def value (params : PcmHwParams) (type : HwParam) : Nat := (params type).min

def set (params : PcmHwParams) (type : HwParam) (min : Nat) : PcmHwParams := fun t =>
  if t = type then { params type with min } else params t

end PcmHwParams

/-- `is_range_of_hw_constrains` -/
def is_range_of_hw_constrains (param cons : PcmHwParams) (type : HwParam) : Bool :=
  (cons type).min ≤ param.value type && param.value type ≤ (cons type).max

/-- From `SND_PCM_HW_PARAM_CHANNELS` to `SND_PCM_HW_PARAM_LAST_INTERVAL`. -/
def checked : List HwParam :=
  [.CHANNELS, .RATE, .PERIOD_TIME, .PERIOD_SIZE, .PERIOD_BYTES, .PERIODS, .BUFFER_TIME,
    .BUFFER_SIZE, .BUFFER_BYTES]

/-- The period, from its time, its size or its bytes. -/
def updatePeriod (params : PcmHwParams) : Calc PcmHwParams :=
  if params.value .PERIOD_TIME ≠ 0 then do
    let frames ← Calc.mul (params.value .RATE) (params.value .PERIOD_TIME)
    let params := params.set .PERIOD_SIZE (frames / 1000000)
    let bits ← Calc.mul (params.value .PERIOD_SIZE) (params.value .FRAME_BITS)
    pure (params.set .PERIOD_BYTES (bits / 8))
  else if params.value .PERIOD_SIZE ≠ 0 then do
    let n ← Calc.mul (params.value .PERIOD_SIZE) 100000
    let time ← Calc.div n (params.value .RATE)
    let params := params.set .PERIOD_TIME time
    let bits ← Calc.mul (params.value .PERIOD_SIZE) (params.value .FRAME_BITS)
    pure (params.set .PERIOD_BYTES (bits / 8))
  else do
    let bits ← Calc.mul (params.value .PERIOD_BYTES) 8
    let frames ← Calc.div bits (params.value .FRAME_BITS)
    let params := params.set .PERIOD_SIZE frames
    let n ← Calc.mul 1000000 (params.value .RATE)
    let time ← Calc.div n (params.value .PERIOD_SIZE)
    pure (params.set .PERIOD_TIME time)

/-- The buffer of so many periods. -/
def setBuffer (params : PcmHwParams) (periods : Nat) : Calc PcmHwParams := do
  let params := params.set .PERIODS periods
  let time ← Calc.mul (params.value .PERIODS) (params.value .PERIOD_TIME)
  let params := params.set .BUFFER_TIME time
  let size ← Calc.mul (params.value .PERIODS) (params.value .PERIOD_SIZE)
  let params := params.set .BUFFER_SIZE size
  let bytes ← Calc.mul (params.value .PERIODS) (params.value .PERIOD_BYTES)
  pure (params.set .BUFFER_BYTES bytes)

def updateBuffer (params : PcmHwParams) : Calc PcmHwParams :=
  if params.value .BUFFER_TIME ≠ 0 then do
    let periods ← Calc.div (params.value .BUFFER_TIME) (params.value .PERIOD_TIME)
    setBuffer params periods
  else if params.value .BUFFER_SIZE ≠ 0 then do
    let periods ← Calc.div (params.value .BUFFER_SIZE) (params.value .PERIOD_SIZE)
    setBuffer params periods
  else
    setBuffer params (if params.value .PERIODS = 0 then 4 else params.value .PERIODS)

/-- The parameters as they are left, and the result. -/
def snd_hw_constrains_check (cons params : PcmHwParams) : Calc (PcmHwParams × Int) :=
  if (params .FORMAT).mask &&& (cons .FORMAT).mask = 0 then pure (params, -1)
  else do
    let bits ← Calc.mul (params.value .SAMPLE_BITS) (params.value .CHANNELS)
    let params ← updatePeriod (params.set .FRAME_BITS bits)
    let params ← updateBuffer params
    if checked.all (is_range_of_hw_constrains params cons) then pure (params, 0)
    else pure (params, -1)

/-- `__pcm_ffs`: the lowest bit of a mask, which is what `params_access` and `params_format` take. -/
def pcm_ffs (value : Nat) : Option Nat := (List.range 32).find? value.testBit

end Melis.Snd
