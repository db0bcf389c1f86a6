import Mathlib.Data.Int.NatAbs
import Melis.Lib.Run

/-!
# Delayed messages

`CdxMessage.c`: a post with a delay makes an event that sits on the list of its deliver
and on the list of the timer, which counts it down every 100 ms and posts its message when
the count is 0. Only the list of the timer has a lock. Steps are the stretches of code
between two operations on a lock: a post with a delay is two, since it takes the lock only
for the list of the timer, and a tick and a `CdxDeliverClearMsg` are one each. A step is
`none` where it touches an event that is not allocated, or takes an event off a list that
it is not on. Messages are numbered as they are posted. Beside the code's data stand what
became of the messages and when.
-/

namespace Melis.Libcore

open Lib Function

/-- `timeout` counts ticks; the times are those of the post, the tick that of its listing. -/
structure CdxEvent where
  msg : Nat
  deliver : Nat
  timeout : Nat
  delay : Nat
  postedAt : Nat
  listed : Nat

/-- A message was moved to the queue of its deliver. -/
structure Moved where
  msg : Nat
  delay : Nat
  postedAt : Nat
  listed : Nat
  movedAt : Nat
  tick : Nat

/-- `pc` is the event that a thread has not put on the list of the timer yet. -/
structure DeliverTimer where
  now : Nat
  ticks : Nat
  lastTick : Nat
  events : Nat → Option CdxEvent
  timer : List Nat
  timeoutList : Nat → List Nat
  eventQueue : Nat → List Nat
  hand : Nat → Option Nat
  pc : Nat → Option Nat
  created : Nat
  moved : List Moved
  cleared : List Nat
  delivered : List Nat
  destroyed : List Nat

namespace DeliverTimer

variable (s : DeliverTimer)

/-- `CdxQueuePush` -/
def push (d m : Nat) : DeliverTimer :=
  { s with eventQueue := update s.eventQueue d (s.eventQueue d ++ [m]) }

/-- `CdxListDel` of both nodes, and `Pfree`. -/
def drop (ev : Nat) (e : CdxEvent) : Option DeliverTimer :=
  if ev ∈ s.timer ∧ ev ∈ s.timeoutList e.deliver then
    some { s with
      timer := s.timer.erase ev
      timeoutList := update s.timeoutList e.deliver
        ((s.timeoutList e.deliver).erase ev)
      events := update s.events ev none }
  else none

end DeliverTimer

/-- `--posEvent->timeout`, in 32 bits. -/
def countDown (timeout : Nat) : Nat := (timeout + (2 ^ 32 - 1)) % 2 ^ 32

/-- The microseconds that `DeliverTimerProcess` sleeps. -/
def tickUs : Nat := 100000

/-- The ticks of a delay. -/
def delayTicks (delay : Nat) : Nat := delay / tickUs

section

variable (s : DeliverTimer)

/-- `__CdxDeliverPostUS` up to the lock; `fresh` is what `Palloc` returns, if it is not in
use. -/
def CdxDeliverPostUS (t d timeout fresh : Nat) : DeliverTimer :=
  if timeout = 0 then
    { s.push d s.created with
      created := s.created + 1
      moved := s.moved ++ [⟨s.created, 0, s.now, s.ticks, s.now, s.ticks⟩] }
  else if s.events fresh ≠ none then s
  else
    { s with
      created := s.created + 1
      events := update s.events fresh (some
        { msg := s.created, deliver := d, timeout := delayTicks timeout % 2 ^ 32
          delay := timeout, postedAt := s.now, listed := s.ticks })
      timeoutList := update s.timeoutList d (fresh :: s.timeoutList d)
      pc := update s.pc t (some fresh) }

/-- `__CdxDeliverPostUS` under the lock. -/
def postTimer (t : Nat) : Option DeliverTimer :=
  match s.pc t with
  | none => some s
  | some ev => do
    let e ← s.events ev
    return { s with
      timer := s.timer ++ [ev]
      events := update s.events ev (some { e with listed := s.ticks })
      pc := update s.pc t none }

/-- The body of the loop in `DeliverTimerProcess`. -/
def timerEvent (ev : Nat) : Option DeliverTimer := do
  let e ← s.events ev
  let timeout := countDown e.timeout
  if timeout = 0 then
    let s ← s.drop ev e
    return { s.push e.deliver e.msg with
      moved := s.moved ++ [⟨e.msg, e.delay, e.postedAt, e.listed, s.now, s.ticks⟩] }
  else
    return { s with events := update s.events ev (some { e with timeout }) }

def timerEvents (s : DeliverTimer) : List Nat → Option DeliverTimer
  | [] => some s
  | ev :: evs => (timerEvent s ev).bind fun s => timerEvents s evs

/-- A pass of `DeliverTimerProcess`, when it has slept for 100 ms. -/
def DeliverTimerProcess : Option DeliverTimer :=
  if s.now < s.lastTick + tickUs then some s
  else timerEvents { s with ticks := s.ticks + 1, lastTick := s.now } s.timer

/-- `DeliverProcess` takes a message from the queue. -/
def takeMessage (d : Nat) : DeliverTimer :=
  match s.hand d, s.eventQueue d with
  | none, m :: ms =>
    { s with
      eventQueue := update s.eventQueue d ms
      hand := update s.hand d (some m) }
  | _, _ => s

/-- `CdxMessageDeliver` and `CdxMessageDestroy` -/
def deliverMessage (d : Nat) : DeliverTimer :=
  match s.hand d with
  | none => s
  | some m =>
    { s with
      hand := update s.hand d none
      delivered := s.delivered ++ [m]
      destroyed := s.destroyed ++ [m] }

/-- The loop over the events in `CdxDeliverClearMsg`. -/
def clearEvents (s : DeliverTimer) : List Nat → Option DeliverTimer
  | [] => some s
  | ev :: evs => do
    let e ← s.events ev
    let s ← s.drop ev e
    clearEvents { s with
      cleared := s.cleared ++ [e.msg]
      destroyed := s.destroyed ++ [e.msg] } evs

def CdxDeliverClearMsg (d : Nat) : Option DeliverTimer :=
  (clearEvents s (s.timeoutList d)).map fun s =>
    { s with
      eventQueue := update s.eventQueue d []
      cleared := s.cleared ++ s.eventQueue d
      destroyed := s.destroyed ++ s.eventQueue d }

end

inductive DeliverAct
  | pass (us : Nat)
  | post (t d timeout fresh : Nat)
  | postTimer (t : Nat)
  | tick
  | take (d : Nat)
  | deliver (d : Nat)
  | clear (d : Nat)

def deliverNext (s : DeliverTimer) : DeliverAct → Option DeliverTimer
  | .pass us => some { s with now := s.now + us }
  | .post t d timeout fresh =>
    some (if s.pc t = none then CdxDeliverPostUS s t d timeout fresh else s)
  | .postTimer t => postTimer s t
  | .tick => DeliverTimerProcess s
  | .take d => some (takeMessage s d)
  | .deliver d => some (deliverMessage s d)
  | .clear d => CdxDeliverClearMsg s d

def cdxDeliver : Machine DeliverTimer DeliverAct := ⟨deliverNext⟩

/-- `DeliverTimerInit` and `CdxDeliverCreate` -/
def DeliverTimerInit : DeliverTimer where
  now := 0
  ticks := 0
  lastTick := 0
  events _ := none
  timer := []
  timeoutList _ := []
  eventQueue _ := []
  hand _ := none
  pc _ := none
  created := 0
  moved := []
  cleared := []
  delivered := []
  destroyed := []

end Melis.Libcore
