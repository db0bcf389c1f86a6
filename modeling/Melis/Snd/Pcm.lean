import Mathlib.Data.Int.NatAbs
import Melis.Lib.Memory
import Melis.Lib.Run

/-!
# PCM streams

`snd_pcm.c`: the ring of a PCM stream, with the position of the hardware and the
one of the application, both modulo a boundary that is a multiple of the ring.
A call runs in steps between which the hardware can interrupt it. Beside the code's
state stand the frames that were accepted and not played yet, and whether
`snd_pcm_update_state` has stopped the stream. The sums below stay under
`LONG_MAX`, so the pointers are natural numbers and a difference is an integer.
-/

namespace Melis.Snd

open Lib

def LONG_MAX : Nat := 2 ^ 31 - 1

inductive Stream
  | PLAYBACK
  | CAPTURE
  deriving DecidableEq, Repr

/-- `SNDRV_PCM_STATE_OPEN` and so on. -/
inductive PcmState
  | OPEN
  | SETUP
  | PREPARED
  | RUNNING
  | XRUN
  | DRAINING
  | PAUSED
  | SUSPENDED
  | DISCONNECTED
  deriving DecidableEq, Repr

/-- `EDRV` is what an operation of the driver returned. -/
inductive Errno
  | EPIPE
  | ESTRPIPE
  | EBADFD
  | EBUSY
  | EIO
  | EDRV
  deriving DecidableEq, Repr

/-! ## Parameters -/

/-- The loop of `ksnd_pcm_hw_params`. -/
def doubleBoundary (buffer_size boundary : Nat) : Nat :=
  if 0 < boundary ∧ boundary * 2 ≤ LONG_MAX - buffer_size then
    doubleBoundary buffer_size (boundary * 2)
  else boundary
termination_by LONG_MAX - boundary

/-- What `ksnd_pcm_hw_params` accepts; the drivers' constraints allow 128 KB. -/
structure HwParams where
  stream : Stream
  period_size : Nat
  buffer_size : Nat
  min_align : Nat
  size_pos : 0 < buffer_size
  size_le : 3 * buffer_size ≤ LONG_MAX
  align_pos : 0 < min_align

def HwParams.boundary (hw : HwParams) : Nat := doubleBoundary hw.buffer_size hw.buffer_size

/-- What `ksnd_pcm_sw_params` leaves in the runtime. -/
structure SwParams (hw : HwParams) where
  avail_min : Nat
  start_threshold : Nat
  stop_threshold : Nat
  silence_size : Nat
  silence_ok : silence_size = 0 ∨ silence_size = hw.boundary

/-- The defaults that `ksnd_pcm_hw_params` sets. -/
def HwParams.defaults (hw : HwParams) : SwParams hw where
  avail_min := hw.period_size
  start_threshold := if hw.stream = .PLAYBACK then hw.buffer_size else 1
  stop_threshold := hw.buffer_size
  silence_size := 0
  silence_ok := .inl rfl

def ksnd_pcm_sw_params (hw : HwParams)
    (avail_min start_threshold stop_threshold silence_size : Nat) : Option (SwParams hw) :=
  if avail_min = 0 then none
  else if h : silence_size = 0 ∨ silence_size = hw.boundary then
    some ⟨avail_min, min start_threshold hw.buffer_size, stop_threshold, silence_size, h⟩
  else none

/-! ## The runtime -/

/-- Where the thread is in a call. `data` is what is still to be written, or what has been read. -/
inductive Pc (α : Type)
  | idle
  /-- At the head of the loop in `snd_pcm_lib_write` or `snd_pcm_lib_read`. -/
  | loop (data : List α) (size xfer avail : Nat)
  /-- At the head of the loop in `wait_for_avail`. -/
  | wait (data : List α) (size xfer : Nat)
  | sleep (data : List α) (size xfer : Nat)
  /-- Behind the transfer. -/
  | moved (data : List α) (size xfer avail frames : Nat)
  /-- In the loop of `ksnd_pcm_drain`. -/
  | drain
  deriving DecidableEq

structure Substream (α : Type) where
  state : PcmState
  hw_ptr : Nat
  appl_ptr : Nat
  hw_ptr_base : Nat
  silence_filled : Nat
  silence_start : Nat
  twake : Nat
  /-- The frames at `dma_addr`. -/
  dma : Nat → α
  pc : Pc α
  /-- What the last call returned. -/
  ret : Except Errno Nat
  /-- Of a playback stream, the frames that were accepted and not played or taken back. -/
  queue : List α
  reported : Bool

/-- A configured stream, with the frame that is silent. -/
structure Config (α : Type) where
  hw : HwParams
  sw : SwParams hw
  silence : α

/-- What a step meets: `ops->pointer`, whether `ops->trigger` and `ops->prepare` succeed, and
whether a wait times out. -/
structure Env where
  pos : Nat := 0
  ok : Bool := true
  tout : Bool := false
  deriving DecidableEq, Repr

variable {α : Type} (c : Config α) (s : Substream α)

namespace Config

abbrev stream : Stream := c.hw.stream

abbrev buffer_size : Nat := c.hw.buffer_size

abbrev boundary : Nat := c.hw.boundary

end Config

def snd_pcm_capture_avail : Nat :=
  let avail : Int := s.hw_ptr - s.appl_ptr
  (if avail < 0 then avail + c.boundary else avail).toNat

def snd_pcm_playback_avail : Nat :=
  let avail : Int := s.hw_ptr + c.buffer_size - s.appl_ptr
  (if avail < 0 then avail + c.boundary
    else if c.boundary ≤ avail then avail - c.boundary
    else avail).toNat

def avail : Nat :=
  match c.stream with
  | .PLAYBACK => snd_pcm_playback_avail c s
  | .CAPTURE => snd_pcm_capture_avail c s

/-- `snd_pcm_playback_hw_avail` and `snd_pcm_capture_hw_avail` -/
def hw_avail : Int := c.buffer_size - avail c s

def snd_pcm_playback_data : Bool :=
  decide (c.boundary ≤ c.sw.stop_threshold) || decide (snd_pcm_playback_avail c s < c.buffer_size)

def snd_pcm_playback_empty : Bool := decide (c.buffer_size ≤ snd_pcm_playback_avail c s)

def snd_pcm_running : Bool :=
  s.state = .RUNNING || s.state = .DRAINING && c.stream = .PLAYBACK

/-- The loop of `snd_pcm_playback_silence`, split at the end of the ring. -/
def fillSilence (dma : Nat → α) (ofs frames : Nat) : Nat → α :=
  if h : 0 < frames ∧ ofs < c.buffer_size then
    let transfer := if c.buffer_size < ofs + frames then c.buffer_size - ofs else frames
    fillSilence (Memory.memcpy dma ofs (.replicate transfer c.silence)) 0 (frames - transfer)
  else dma
termination_by frames
decreasing_by split <;> omega

/-- `none` for `ULONG_MAX`. -/
def snd_pcm_playback_silence (new_hw_ptr : Option Nat) : Substream α :=
  if c.sw.silence_size < c.boundary then s
  else
    let (silence_filled, silence_start) := match new_hw_ptr with
      | none =>
        -- The comparison is unsigned.
        let avail := if hw_avail c s < 0 ∨ c.buffer_size < hw_avail c s then c.buffer_size
          else (hw_avail c s).toNat
        (avail, (s.hw_ptr + avail) % c.boundary)
      | some new =>
        let frames : Int := new - s.hw_ptr
        let frames := if frames < 0 then frames + c.boundary else frames
        if s.silence_filled - frames < 0 then (0, new)
        else ((s.silence_filled - frames).toNat, s.hw_ptr)
    let frames := c.buffer_size - silence_filled
    { s with
      silence_filled := silence_filled + frames
      silence_start := silence_start
      dma := fillSilence c s.dma (silence_start % c.buffer_size) frames }

def snd_pcm_stop (state : PcmState) : Substream α :=
  if s.state = .OPEN then s else { s with state }

def xrun : Substream α := snd_pcm_stop { s with reported := true } .XRUN

def snd_pcm_update_state : Substream α × Except Errno Unit :=
  if s.state = .DRAINING then
    if c.buffer_size ≤ avail c s then
      (snd_pcm_stop { s with reported := true } .SETUP, .error .EPIPE)
    else (s, .ok ())
  else if c.sw.stop_threshold ≤ avail c s then (xrun s, .error .EPIPE)
  else (s, .ok ())

def snd_pcm_update_hw_ptr0 (pos : Nat) : Substream α × Except Errno Unit :=
  let pos := if c.buffer_size ≤ pos then 0 else pos
  let pos := pos - pos % c.hw.min_align
  let hw_base :=
    if s.hw_ptr_base + pos < s.hw_ptr then
      if c.boundary ≤ s.hw_ptr_base + c.buffer_size then 0 else s.hw_ptr_base + c.buffer_size
    else s.hw_ptr_base
  let new_hw_ptr := hw_base + pos
  let delta : Int := new_hw_ptr - s.hw_ptr
  let delta := if delta < 0 then delta + c.boundary else delta
  if c.buffer_size + c.hw.period_size ≤ delta then (s, .ok ())
  else if s.hw_ptr = new_hw_ptr then (s, .ok ())
  else
    let s := if c.stream = .PLAYBACK ∧ 0 < c.sw.silence_size then
      snd_pcm_playback_silence c s (some new_hw_ptr) else s
    snd_pcm_update_state c { s with
      hw_ptr_base := hw_base
      hw_ptr := new_hw_ptr
      queue := s.queue.drop delta.toNat }

/-! ## Control -/

/-- With `push`, whatever the update of the position has come to. -/
def snd_pcm_paused (push : Bool) (pos : Nat) : Substream α × Except Errno Unit :=
  if push then
    if s.state ≠ .RUNNING then (s, .error .EBADFD)
    else ({ (snd_pcm_update_hw_ptr0 c s pos).1 with state := .PAUSED }, .ok ())
  else
    if s.state ≠ .PAUSED then (s, .error .EBADFD) else ({ s with state := .RUNNING }, .ok ())

def snd_pcm_do_reset (pos : Nat) : Substream α :=
  let s := if snd_pcm_running c s then
      match snd_pcm_update_hw_ptr0 c s pos with
      | (s, .ok _) => { s with hw_ptr := s.hw_ptr % c.buffer_size }
      | (s, .error _) => { s with hw_ptr := 0 }
    else { s with hw_ptr := 0 }
  { s with hw_ptr_base := 0 }

def snd_pcm_do_start (state : PcmState) (ok : Bool) : Substream α × Except Errno Unit :=
  if s.state ≠ .PREPARED then (s, .error .EBADFD)
  else if c.stream = .PLAYBACK ∧ ¬ snd_pcm_playback_data c s then (s, .error .EPIPE)
  else if !ok then (s, .error .EDRV)
  else
    let s := { s with state }
    (if c.stream = .PLAYBACK ∧ 0 < c.sw.silence_size then snd_pcm_playback_silence c s none else s,
      .ok ())

def ksnd_pcm_prepare (e : Env) : Substream α × Except Errno Unit :=
  if s.state = .OPEN ∨ s.state = .DISCONNECTED then (s, .error .EBADFD)
  else if snd_pcm_running c s then (s, .error .EBUSY)
  else if !e.ok then (s, .error .EDRV)
  else
    let s := snd_pcm_do_reset c s e.pos
    ({ s with appl_ptr := s.hw_ptr, state := .PREPARED, queue := [], reported := false }, .ok ())

def ksnd_pcm_drop : Substream α × Except Errno Unit :=
  if s.state = .OPEN ∨ s.state = .DISCONNECTED ∨ s.state = .SUSPENDED then (s, .error .EBADFD)
  else
    let s := if s.state = .PAUSED then (snd_pcm_paused c s false 0).1 else s
    (snd_pcm_stop s .SETUP, .ok ())

/-- What `ksnd_pcm_drain` does to the state of a playback stream. -/
def drainPlayback (ok : Bool) : Substream α :=
  match s.state with
  | .PREPARED =>
    if !snd_pcm_playback_empty c s then (snd_pcm_do_start c s .DRAINING ok).1
    else { s with state := .SETUP }
  | .RUNNING => { s with state := .DRAINING }
  | .XRUN => { s with state := .SETUP }
  | _ => s

def drainCapture : Substream α :=
  if s.state = .RUNNING then
    snd_pcm_stop s (if 0 < snd_pcm_capture_avail c s then .DRAINING else .SETUP)
  else s

/-- Up to the wait for the end of the stream. -/
def ksnd_pcm_drain (e : Env) : Substream α :=
  let s := if s.state = .PAUSED then (snd_pcm_paused c s false 0).1 else s
  if s.state = .OPEN ∨ s.state = .DISCONNECTED ∨ s.state = .SUSPENDED then
    { s with ret := .error .EBADFD }
  else match c.stream with
    | .PLAYBACK =>
      let s := drainPlayback c s e.ok
      if s.state = .DRAINING then { s with pc := .drain } else { s with ret := .ok 0 }
    | .CAPTURE => { drainCapture c s with ret := .ok 0 }

def snd_pcm_hw_sync (pos : Nat) : Substream α × Except Errno Unit :=
  match s.state with
  | .DRAINING =>
    if c.stream = .CAPTURE then (s, .error .EBADFD) else snd_pcm_update_hw_ptr0 c s pos
  | .RUNNING => snd_pcm_update_hw_ptr0 c s pos
  | .PREPARED => (s, .ok ())
  | .SUSPENDED => (s, .error .ESTRPIPE)
  | .XRUN => (s, .error .EPIPE)
  | _ => (s, .error .EBADFD)

/-- Takes frames back. -/
def rewindFrames (frames : Nat) : Substream α × Except Errno Nat :=
  if hw_avail c s ≤ 0 then (s, .ok 0)
  else
    let frames := min frames (hw_avail c s).toNat
    let appl_ptr : Int := s.appl_ptr - frames
    let appl_ptr := (if appl_ptr < 0 then appl_ptr + c.boundary else appl_ptr).toNat
    ({ s with appl_ptr, queue := s.queue.take (s.queue.length - frames) }, .ok frames)

def ksnd_pcm_rewind (frames pos : Nat) : Substream α × Except Errno Nat :=
  let update :=
    match snd_pcm_update_hw_ptr0 c s pos with
    | (s, .ok _) => rewindFrames c s frames
    | (s, .error _) => (s, .error .EPIPE)
  if frames = 0 then (s, .ok 0)
  else match s.state with
    | .PREPARED => rewindFrames c s frames
    | .DRAINING => if c.stream = .CAPTURE then rewindFrames c s frames else update
    | .RUNNING => update
    | .XRUN => (s, .error .EPIPE)
    | .SUSPENDED => (s, .error .ESTRPIPE)
    | _ => (s, .error .EBADFD)

/-! ## Transfers -/

/-- `_end_unlock` -/
def endTransfer (xfer : Nat) (err : Option Errno) : Substream α :=
  let s := { s with twake := 0, pc := .idle }
  let s := if 0 < xfer ∧ err = none then (snd_pcm_update_state c s).1 else s
  { s with
    ret := if 0 < xfer then .ok xfer else match err with
      | none => .ok 0
      | some err => .error err }

/-- Before the loop of `snd_pcm_lib_write` and `snd_pcm_lib_read`. -/
def beginLoop (data : List α) (size pos : Nat) : Substream α :=
  let s := { s with twake := if c.sw.avail_min = 0 then 1 else c.sw.avail_min }
  let s := if s.state = .RUNNING then (snd_pcm_update_hw_ptr0 c s pos).1 else s
  { s with pc := .loop data size 0 (avail c s) }

def snd_pcm_lib_write (data : List α) (e : Env) : Substream α :=
  if data = [] then { s with ret := .ok 0 }
  else match s.state with
    | .PREPARED | .RUNNING | .PAUSED => beginLoop c s data data.length e.pos
    | .XRUN => endTransfer c s 0 (some .EPIPE)
    | .SUSPENDED => endTransfer c s 0 (some .ESTRPIPE)
    | _ => endTransfer c s 0 (some .EBADFD)

def snd_pcm_lib_read (size : Nat) (e : Env) : Substream α :=
  if size = 0 then { s with ret := .ok 0 }
  else match s.state with
    | .PREPARED =>
      if c.sw.start_threshold ≤ size then
        match snd_pcm_do_start c s .RUNNING e.ok with
        | (s, .ok _) => beginLoop c s [] size e.pos
        | (s, .error err) => endTransfer c s 0 (some err)
      else beginLoop c s [] size e.pos
    | .DRAINING | .RUNNING | .PAUSED => beginLoop c s [] size e.pos
    | .XRUN => endTransfer c s 0 (some .EPIPE)
    | .SUSPENDED => endTransfer c s 0 (some .ESTRPIPE)
    | _ => endTransfer c s 0 (some .EBADFD)

/-- From the head of the loop to behind the transfer. -/
def stepLoop (data : List α) (size xfer avail : Nat) : Substream α :=
  if avail = 0 then
    if c.stream = .CAPTURE ∧ s.state = .DRAINING then
      endTransfer c (snd_pcm_stop s .SETUP) xfer none
    else { s with twake := min size s.twake, pc := .wait data size xfer }
  else
    let frames := if avail < size then avail else size
    let cont := c.buffer_size - s.appl_ptr % c.buffer_size
    let frames := if cont < frames then cont else frames
    let appl_ofs := s.appl_ptr % c.buffer_size
    match c.stream with
    | .PLAYBACK => { s with
        dma := Memory.memcpy s.dma appl_ofs (data.take frames)
        pc := .moved data size xfer avail frames }
    | .CAPTURE => { s with
        pc := .moved (data ++ Memory.load s.dma (List.range' appl_ofs frames)) size xfer avail
          frames }

/-- In `wait_for_avail`, up to the sleep. -/
def stepWait (data : List α) (size xfer : Nat) : Substream α :=
  if s.twake ≤ avail c s then { s with pc := .loop data size xfer (avail c s) }
  else { s with pc := .sleep data size xfer }

/-- In `wait_for_avail`, behind the sleep. -/
def stepSleep (data : List α) (size xfer : Nat) (e : Env) : Substream α :=
  match s.state with
  | .SUSPENDED => endTransfer c s xfer (some .ESTRPIPE)
  | .XRUN => endTransfer c s xfer (some .EPIPE)
  | .DRAINING =>
    if c.stream = .PLAYBACK then endTransfer c s xfer (some .EPIPE)
    else { s with pc := .loop data size xfer 0 }
  | .OPEN | .SETUP | .DISCONNECTED => endTransfer c s xfer (some .EBADFD)
  | .PAUSED => { s with pc := .wait data size xfer }
  | _ =>
    if e.tout then endTransfer c s xfer (some Errno.EIO) else { s with pc := .wait data size xfer }

/-- From behind the transfer to the head of the loop. -/
def stepMoved (data : List α) (size xfer avail frames : Nat) (e : Env) : Substream α :=
  match s.state with
  | .XRUN => endTransfer c s xfer (some .EPIPE)
  | .SUSPENDED => endTransfer c s xfer (some .ESTRPIPE)
  | _ =>
    let appl_ptr := s.appl_ptr + frames
    let appl_ptr := if c.boundary ≤ appl_ptr then appl_ptr - c.boundary else appl_ptr
    let again (s : Substream α) (data : List α) : Substream α :=
      if size - frames = 0 then endTransfer c s (xfer + frames) none
      else { s with pc := .loop data (size - frames) (xfer + frames) (avail - frames) }
    match c.stream with
    | .CAPTURE => again { s with appl_ptr } data
    | .PLAYBACK =>
      let s := { s with appl_ptr, queue := s.queue ++ data.take frames }
      if s.state = .PREPARED ∧ (c.sw.start_threshold : Int) ≤ hw_avail c s then
        match snd_pcm_do_start c s .RUNNING e.ok with
        | (s, .ok _) => again s (data.drop frames)
        | (s, .error err) => endTransfer c s (xfer + frames) (some err)
      else again s (data.drop frames)

/-! ## Runs -/

inductive Call (α : Type)
  | writei (data : List α)
  | readi (size : Nat)
  | start
  | drop
  | pause (enable : Bool)
  | drain
  | prepare
  | rewind (frames : Nat)
  | hwsync

inductive Input (α : Type)
  /-- `snd_pcm_period_elapsed`, in an interrupt. -/
  | elapsed (pos : Nat)
  | call (call : Call α) (e : Env)
  /-- The call under way goes on. -/
  | step (e : Env)

def Substream.returns (r : Substream α × Except Errno Unit) : Substream α :=
  { r.1 with ret := r.2.map fun _ => 0 }

/-- A stream of the one direction is not called for the other. -/
def doCall (call : Call α) (e : Env) : Substream α :=
  match call with
  | .writei data => match c.stream with
    | .PLAYBACK => snd_pcm_lib_write c s data e
    | .CAPTURE => s
  | .readi size => match c.stream with
    | .PLAYBACK => s
    | .CAPTURE => snd_pcm_lib_read c s size e
  | .start => .returns (snd_pcm_do_start c s .RUNNING e.ok)
  | .drop => .returns (ksnd_pcm_drop c s)
  | .pause enable => .returns (snd_pcm_paused c s enable e.pos)
  | .drain => ksnd_pcm_drain c s e
  | .prepare => .returns (ksnd_pcm_prepare c s e)
  | .rewind frames =>
    let r := ksnd_pcm_rewind c s frames e.pos
    { r.1 with ret := r.2 }
  | .hwsync => .returns (snd_pcm_hw_sync c s e.pos)

/-- One step. A call is made when none is under way. -/
def pcmStep (i : Input α) : Substream α :=
  match i, s.pc with
  | .elapsed pos, _ => if snd_pcm_running c s then (snd_pcm_update_hw_ptr0 c s pos).1 else s
  | .call call e, .idle => doCall c s call e
  | .call _ _, _ => s
  | .step _, .idle => s
  | .step _, .loop data size xfer avail => stepLoop c s data size xfer avail
  | .step _, .wait data size xfer => stepWait c s data size xfer
  | .step e, .sleep data size xfer => stepSleep c s data size xfer e
  | .step e, .moved data size xfer avail frames => stepMoved c s data size xfer avail frames e
  | .step e, .drain =>
    if e.tout then { s with pc := .idle, ret := .error Errno.EIO }
    else if s.state ≠ .DRAINING then { s with pc := .idle, ret := .ok 0 }
    else s

def pcm : Machine (Substream α) (Input α) where
  next s i := some (pcmStep c s i)

/-- A stream that was opened and configured; its memory holds `dma`. -/
def opened (dma : Nat → α) : Substream α where
  state := .SETUP
  hw_ptr := 0
  appl_ptr := 0
  hw_ptr_base := 0
  silence_filled := 0
  silence_start := 0
  twake := 0
  dma := dma
  pc := .idle
  ret := .ok 0
  queue := []
  reported := false

end Melis.Snd
