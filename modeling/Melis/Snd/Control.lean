import Melis.Snd.HwConstrains
import Melis.Snd.Pcm

/-!
# The calls and their lock

The operations of `snd_pcm.c` as they are called, with `hal_spin_lock_irqsave` and
`hal_spin_unlock_irqrestore` where the source has them. What a call does between the two is that of
`Snd.Pcm`. `none` is a call that does not return. A call can give way only where it sleeps: there
the stream may become any other one.
-/

namespace Melis.Snd

open Lib

/-- `Errno`, and what the parameters of a call come to. -/
inductive Error
  | errno (e : Errno)
  | EINVAL
  | EPERM
  deriving DecidableEq, Repr

/-- A processor with a stream: whether interrupts are on, and how often the lock was taken and
released. The parameters of a stream that is open only are the last ones. -/
structure Cpu (α : Type) where
  c : Config α
  s : Substream α
  irq : Bool
  taken : Nat
  released : Nat

abbrev Ret := Except Error Nat

/-- The flags of `ksnd_pcm_sync_ptr`, and the `control` of the caller. -/
structure SyncPtr where
  hwsync : Bool
  appl : Bool
  availMin : Bool
  appl_ptr : Nat
  avail_min : Nat
  deriving DecidableEq, Repr

variable {α β : Type}

def Ret.ofUnit : Except Errno Unit → Ret
  | .ok () => .ok 0
  | .error e => .error (.errno e)

def Ret.ofNat : Except Errno Nat → Ret
  | .ok n => .ok n
  | .error e => .error (.errno e)

namespace Cpu

/-- The `__cpsr` that is returned says whether interrupts were on. -/
def irqsave (k : Cpu α) : Bool × Cpu α := (k.irq, { k with irq := false, taken := k.taken + 1 })

def irqrestore (k : Cpu α) (cpsr : Bool) : Cpu α :=
  { k with irq := cpsr, released := k.released + 1 }

/-- Between the two. -/
def locked (k : Cpu α) (f : Config α → Substream α → Substream α × β) : β × Cpu α :=
  let (cpsr, k) := k.irqsave
  let (s, r) := f k.c k.s
  (r, { k with s }.irqrestore cpsr)

/-- The same, with what a call returns. -/
def lockedCall (k : Cpu α) (toRet : Except Errno β → Ret)
    (f : Config α → Substream α → Substream α × Except Errno β) : Ret × Cpu α :=
  k.locked fun c s => ((f c s).1, toRet (f c s).2)

def snd_pcm_set_state (k : Cpu α) (state : PcmState) : Cpu α :=
  (k.locked fun _ s => ({ s with state }, ())).2

end Cpu

/-! ## Parameters -/

/-- `params_period_size` and so on, with the physical width of the format in bits; `none` where the
sums over the buffer would not stay under `LONG_MAX`, or the boundary is doubled for ever. -/
def hwParams (stream : Stream) (width : Nat) (q : PcmHwParams) : Option HwParams :=
  let buffer_size := q.value .BUFFER_SIZE
  let min_align := width * q.value .CHANNELS / 8
  if h : 0 < buffer_size ∧ 3 * buffer_size ≤ LONG_MAX ∧ 0 < min_align then
    some { stream, period_size := q.value .PERIOD_SIZE, buffer_size, min_align
           size_pos := h.1, size_le := h.2.1, align_pos := h.2.2 }
  else none

/-- What `ksnd_pcm_delay` does under the lock. -/
def delayFrames (c : Config α) (s : Substream α) (pos : Nat) : Substream α × Except Errno Nat :=
  let frames (s : Substream α) : Nat := match c.stream with
    | .PLAYBACK => (hw_avail c s).toNat
    | .CAPTURE => snd_pcm_capture_avail c s
  let update :=
    match snd_pcm_update_hw_ptr0 c s pos with
    | (s, .ok _) => (s, .ok (frames s))
    | (s, .error err) => (s, .error err)
  match s.state with
  | .DRAINING => if c.stream = .CAPTURE then (s, .error .EBADFD) else update
  | .RUNNING => update
  | .PREPARED | .SUSPENDED => (s, .ok (frames s))
  | .XRUN => (s, .error .EPIPE)
  | _ => (s, .error .EBADFD)

/-- The end of `ksnd_pcm_sw_params`, under the lock. -/
def restart (c : Config α) (s : Substream α) : Substream α × Except Errno Unit :=
  if snd_pcm_running c s then
    snd_pcm_update_state c (if c.stream = .PLAYBACK ∧ 0 < c.sw.silence_size then
      snd_pcm_playback_silence c s none else s)
  else (s, .ok ())

namespace Cpu

/-- `ksnd_pcm_hw_params` behind the check of the state; `e.ok`: `ops->hw_params` succeeds. -/
def setHwParams (k : Cpu α) (cons params : PcmHwParams) (width : Nat) (e : Env) :
    Option (Ret × Cpu α) :=
  match (snd_hw_constrains_check cons params).result with
  | none => none
  | some (q, ret) =>
    if ret < 0 then some (.error .EPERM, k.snd_pcm_set_state .OPEN)
    else if !e.ok then some (.error (.errno .EDRV), k.snd_pcm_set_state .OPEN)
    else
      (hwParams k.c.stream width q).map fun hw =>
        let k : Cpu α := { k with c := { k.c with hw, sw := hw.defaults } }
        (.ok 0, k.snd_pcm_set_state .SETUP)

def ksnd_pcm_hw_params (k : Cpu α) (cons params : PcmHwParams) (width : Nat) (e : Env) :
    Option (Ret × Cpu α) :=
  let (state, k) := k.locked fun _ s => (s, s.state)
  match state with
  | .OPEN | .SETUP | .PREPARED => k.setHwParams cons params width e
  | _ => some (.error (.errno .EBADFD), k)

def ksnd_pcm_sw_params (k : Cpu α) (avail_min start_threshold stop_threshold silence_size : Nat) :
    Ret × Cpu α :=
  let (cpsr, k) := k.irqsave
  if k.s.state = .OPEN then (.error (.errno .EBADFD), k.irqrestore cpsr)
  else
    let k := k.irqrestore cpsr
    match Snd.ksnd_pcm_sw_params k.c.hw avail_min start_threshold stop_threshold silence_size with
    | none => (.error .EINVAL, k)
    | some sw =>
      let k : Cpu α := { k with c := { k.c with sw } }
      k.lockedCall .ofUnit restart

/-! ## States -/

def snd_pcm_do_reset (k : Cpu α) (pos : Nat) : Cpu α :=
  (k.locked fun c s => (Snd.snd_pcm_do_reset c s pos, ())).2

/-- `e.ok`: `ops->prepare` succeeds. -/
def ksnd_pcm_prepare (k : Cpu α) (e : Env) : Ret × Cpu α :=
  if k.s.state = .OPEN ∨ k.s.state = .DISCONNECTED then (.error (.errno .EBADFD), k)
  else if snd_pcm_running k.c k.s then (.error (.errno .EBUSY), k)
  else if !e.ok then (.error (.errno .EDRV), k)
  else
    let k := k.snd_pcm_do_reset e.pos
    let k := { k with s := { k.s with appl_ptr := k.s.hw_ptr, queue := [], reported := false } }
    (.ok 0, k.snd_pcm_set_state .PREPARED)

/-- `e.ok`: `ops->hw_free` succeeds. -/
def ksnd_pcm_hw_free (k : Cpu α) (e : Env) : Ret × Cpu α :=
  let (cpsr, k) := k.irqsave
  match k.s.state with
  | .SETUP | .PREPARED =>
    let k := k.irqrestore cpsr
    (if e.ok then .ok 0 else .error (.errno .EDRV), k.snd_pcm_set_state .OPEN)
  -- the lock is kept
  | _ => (.error (.errno .EBADFD), k)

def ksnd_pcm_start (k : Cpu α) (e : Env) : Ret × Cpu α :=
  k.lockedCall .ofUnit fun c s => snd_pcm_do_start c s .RUNNING e.ok

def ksnd_pcm_pause (k : Cpu α) (enable : Bool) (e : Env) : Ret × Cpu α :=
  k.lockedCall .ofUnit fun c s => snd_pcm_paused c s enable e.pos

def ksnd_pcm_drop (k : Cpu α) : Ret × Cpu α :=
  if k.s.state = .OPEN ∨ k.s.state = .DISCONNECTED ∨ k.s.state = .SUSPENDED then
    (.error (.errno .EBADFD), k)
  else
    k.locked fun c s =>
      let s := if s.state = .PAUSED then (snd_pcm_paused c s false 0).1 else s
      (snd_pcm_stop s .SETUP, .ok 0)

/-- The loop of `ksnd_pcm_drain`: in each turn the lock is released for a sleep, and `turns` has
the stream as it is found behind it and whether the time is up. -/
def drainLoop (k : Cpu α) (cpsr : Bool) : List (Substream α × Bool) → Option (Ret × Cpu α)
  | [] => if k.c.stream = .CAPTURE ∨ k.s.state ≠ .DRAINING then some (.ok 0, k.irqrestore cpsr)
    else none
  | (s, tout) :: turns =>
    if k.c.stream = .CAPTURE ∨ k.s.state ≠ .DRAINING then some (.ok 0, k.irqrestore cpsr)
    else
      let k := k.irqrestore cpsr
      let (cpsr, k) := { k with s }.irqsave
      if tout then some (.error (.errno Errno.EIO), k.irqrestore cpsr)
      else drainLoop k cpsr turns

def ksnd_pcm_drain (k : Cpu α) (turns : List (Substream α × Bool)) (e : Env) : Option (Ret × Cpu α) :=
  let (cpsr, k) := k.irqsave
  let k := if k.s.state = .PAUSED then { k with s := (snd_pcm_paused k.c k.s false 0).1 } else k
  if k.s.state = .OPEN ∨ k.s.state = .DISCONNECTED ∨ k.s.state = .SUSPENDED then
    some (.error (.errno .EBADFD), k.irqrestore cpsr)
  else
    let s := match k.c.stream with
      | .PLAYBACK => drainPlayback k.c k.s e.ok
      | .CAPTURE => drainCapture k.c k.s
    drainLoop { k with s } cpsr turns

/-! ## Pointers -/

def snd_pcm_hw_sync (k : Cpu α) (e : Env) : Ret × Cpu α :=
  k.lockedCall .ofUnit fun c s => Snd.snd_pcm_hw_sync c s e.pos

def ksnd_pcm_sync_ptr (k : Cpu α) (a : SyncPtr) (e : Env) : Ret × Cpu α :=
  let (ret, k) := if a.hwsync then k.snd_pcm_hw_sync e else (.ok 0, k)
  match ret with
  | .error err => (.error err, k)
  | .ok n =>
    let (cpsr, k) := k.irqsave
    let k := if a.appl then k else { k with s := { k.s with appl_ptr := a.appl_ptr } }
    let k := if a.availMin then k
      else { k with c := { k.c with sw := { k.c.sw with avail_min := a.avail_min } } }
    (.ok n, k.irqrestore cpsr)

/-- `*delay` is what is returned. -/
def ksnd_pcm_delay (k : Cpu α) (e : Env) : Ret × Cpu α :=
  k.lockedCall .ofNat fun c s => delayFrames c s e.pos

def ksnd_pcm_rewind (k : Cpu α) (frames : Nat) (e : Env) : Ret × Cpu α :=
  if frames = 0 then (.ok 0, k)
  else k.lockedCall .ofNat fun c s => Snd.ksnd_pcm_rewind c s frames e.pos

/-! ## Transfers -/

/-- A transfer goes on in steps, with the hardware's interrupts between them, until it is over. -/
def goOn (c : Config α) (s : Substream α) : List (Input α) → Option (Substream α)
  | [] => match s.pc with
    | .idle => some s
    | _ => none
  | i :: turns => match s.pc with
    | .idle => some s
    | _ => goOn c (pcmStep c s i) turns

/-- The transfer's lock is commented out in the source. -/
def transfer (k : Cpu α) (s : Substream α) (turns : List (Input α)) : Option (Ret × Cpu α) :=
  (goOn k.c s turns).map fun s => (.ofNat s.ret, { k with s })

def ksnd_pcm_writei (k : Cpu α) (data : List α) (turns : List (Input α)) (e : Env) :
    Option (Ret × Cpu α) :=
  if k.s.state = .OPEN then some (.error (.errno .EBADFD), k)
  else transfer k (snd_pcm_lib_write k.c k.s data e) turns

def ksnd_pcm_readi (k : Cpu α) (size : Nat) (turns : List (Input α)) (e : Env) :
    Option (Ret × Cpu α) :=
  if k.s.state = .OPEN then some (.error (.errno .EBADFD), k)
  else transfer k (snd_pcm_lib_read k.c k.s size e) turns

end Cpu

/-! ## Calls -/

inductive Op (α : Type)
  | hw_params (cons params : PcmHwParams) (width : Nat)
  | sw_params (avail_min start_threshold stop_threshold silence_size : Nat)
  | prepare
  | hw_free
  | start
  | pause (enable : Bool)
  | drop
  | drain (turns : List (Substream α × Bool))
  | delay
  | rewind (frames : Nat)
  | sync_ptr (a : SyncPtr)
  | readi (size : Nat) (turns : List (Input α))
  | writei (data : List α) (turns : List (Input α))

def ksnd_pcm (op : Op α) (k : Cpu α) (e : Env) : Option (Ret × Cpu α) :=
  match op with
  | .hw_params cons params width => k.ksnd_pcm_hw_params cons params width e
  | .sw_params avail_min start_threshold stop_threshold silence_size =>
    some (k.ksnd_pcm_sw_params avail_min start_threshold stop_threshold silence_size)
  | .prepare => some (k.ksnd_pcm_prepare e)
  | .hw_free => some (k.ksnd_pcm_hw_free e)
  | .start => some (k.ksnd_pcm_start e)
  | .pause enable => some (k.ksnd_pcm_pause enable e)
  | .drop => some k.ksnd_pcm_drop
  | .drain turns => k.ksnd_pcm_drain turns e
  | .delay => some (k.ksnd_pcm_delay e)
  | .rewind frames => some (k.ksnd_pcm_rewind frames e)
  | .sync_ptr a => some (k.ksnd_pcm_sync_ptr a e)
  | .readi size turns => k.ksnd_pcm_readi size turns e
  | .writei data turns => k.ksnd_pcm_writei data turns e

end Melis.Snd
