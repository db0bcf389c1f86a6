import Melis.Lib.Queue
import Melis.Lib.Run

/-!
# tmessage.c

The message queue of the media components and the threads that use it. The
code between two operations on the mutex or the condition is one step; a step
takes along what `malloc` answers. The nodes and the copies of data are
numbered as they are allocated. The log says what was put, got and flushed, and
`freed` and `handed` count for each copy how often it was freed and how often a
`get_message` gave it away.
-/

namespace Melis.Mpp

open Lib Function

def maxMessageElements : Nat := 8

/-- `message_t` of a node; `mpData` is a copy. -/
structure Message where
  command : Int
  para0 : Int
  para1 : Int
  mpData : Option Nat
  mDataSize : Int

/-- `message_t` as a caller passes it, with the bytes `mpData` points to. -/
structure MessageIn where
  command : Int
  para0 : Int
  para1 : Int
  mpData : Option (List UInt8)
  mDataSize : Int

/-- What a message says. -/
structure Content where
  command : Int
  para0 : Int
  para1 : Int
  data : Option (List UInt8)
  size : Int
deriving DecidableEq

inductive Op
  | putMessage (msgIn : MessageIn)
  | putMessageWithData (msgIn : MessageIn)
  | getMessage
  | flushMessage
  | getMessageCount
  | waitQueueNotEmpty (timeout : Nat)

/-- Where a thread is: before `pthread_mutex_lock`, `pthread_cond_signal`, `pthread_mutex_unlock` or
`pthread_cond_wait`, in the wait, or woken and before it has the mutex again. A wait knows whether
it has a timeout, the others what the call returns. -/
inductive Pc
  | out
  | lock (op : Op)
  | signal (ret : Int)
  | unlock (ret : Int)
  | wait (timed : Bool)
  | blocked (timed : Bool)
  | relock (timed : Bool)

structure State where
  nodes : Nat → Message
  nodeNum : Nat
  mIdleMessageList : List Nat
  mReadyMessageList : List Nat
  messageCount : Int
  mWaitMessageFlag : Bool
  mutex : Option Nat
  heap : Nat → List UInt8
  copyNum : Nat
  threads : Nat → Pc
  threadNum : Nat
  log : List (Queue.Event Content)
  freed : Nat → Nat
  handed : Nat → Nat

namespace MessageIn

/-- The bytes that are copied. -/
def copied (m : MessageIn) : Option (List UInt8) :=
  m.mpData.bind fun bytes => if 0 ≤ m.mDataSize then some (bytes.take m.mDataSize.toNat) else none

def content (m : MessageIn) : Content :=
  ⟨m.command, m.para0, m.para1, m.copied, if m.copied.isSome then m.mDataSize else 0⟩

/-- The message `put_message` makes. -/
def withoutData (m : MessageIn) : MessageIn := ⟨m.command, m.para0, m.para1, none, 0⟩

end MessageIn

namespace State

def contentOf (s : State) (n : Nat) : Content :=
  let m := s.nodes n
  ⟨m.command, m.para0, m.para1, m.mpData.map s.heap, m.mDataSize⟩

/-! ## Nodes -/

def setNode (s : State) (n : Nat) (m : Message) : State := { s with nodes := update s.nodes n m }

/-- `list_move_tail` to the ready list. -/
def moveToReady (s : State) (n : Nat) : State :=
  { s with
    mIdleMessageList := s.mIdleMessageList.erase n
    mReadyMessageList := s.mReadyMessageList.erase n ++ [n] }

/-- `list_move_tail` to the idle list. -/
def moveToIdle (s : State) (n : Nat) : State :=
  { s with
    mReadyMessageList := s.mReadyMessageList.erase n
    mIdleMessageList := s.mIdleMessageList.erase n ++ [n] }

/-- Whether it returns 0. `data` says whether there is memory for the data. -/
def tMessageDeepCopyMessage (n : Nat) (m : MessageIn) (data : Bool) (s : State) : State × Bool :=
  let s := s.setNode n ⟨m.command, m.para0, m.para1, none, 0⟩
  match m.copied with
  | none => (s, true)
  | some bytes =>
    if data then
      ({ s.setNode n ⟨m.command, m.para0, m.para1, some s.copyNum, m.mDataSize⟩ with
          heap := update s.heap s.copyNum bytes, copyNum := s.copyNum + 1 }, true)
    else (s, false)

/-- The loop of `TMessageIncreaseIdleMessageList`, with how many of its `malloc`s succeed before one
fails. -/
def increaseIdle : Nat → Nat → State → State × Bool
  | 0, _, s => (s, true)
  | _ + 1, 0, s => (s, false)
  | left + 1, mallocs + 1, s =>
    increaseIdle left mallocs
      { s with mIdleMessageList := s.mIdleMessageList ++ [s.nodeNum], nodeNum := s.nodeNum + 1 }

def tMessageIncreaseIdleMessageList (mallocs : Nat) (s : State) : State × Bool :=
  increaseIdle maxMessageElements mallocs s

/-! ## What is done with the mutex held -/

/-- `putMessageWithData`: the state and what it returns. -/
def putMessageWithData (m : MessageIn) (mallocs : Nat) (data : Bool) (s : State) :
    Option (State × Int) :=
  let grown := if s.mIdleMessageList = [] then s.tMessageIncreaseIdleMessageList mallocs else (s, true)
  if grown.2 then
    match grown.1.mIdleMessageList with
    | [] => none
    | n :: _ =>
      let copy := grown.1.tMessageDeepCopyMessage n m data
      if copy.2 then
        some ({ copy.1.moveToReady n with
          messageCount := copy.1.messageCount + 1, log := copy.1.log ++ [.put m.content] }, 0)
      else some (copy.1, -1)
  else some (grown.1, -1)

/-- `TMessageSetMessage` gives the data of the node to the caller. -/
def handOut (s : State) (n : Nat) : State :=
  match (s.nodes n).mpData with
  | none => s
  | some p => { s with handed := update s.handed p (s.handed p + 1) }

def getMessage (s : State) : State × Int :=
  match s.mReadyMessageList with
  | [] => (s, -1)
  | n :: _ =>
    let log := s.log ++ [.get (s.contentOf n)]
    let s := (s.handOut n).moveToIdle n
    ({ s with messageCount := s.messageCount - 1, log := log }, 0)

/-- The data of a node is freed. -/
def freeData (s : State) (n : Nat) : State :=
  let m := s.nodes n
  match m.mpData with
  | none => s
  | some p => { s.setNode n { m with mpData := none } with freed := update s.freed p (s.freed p + 1) }

/-- The loop of `flush_message`, over the nodes that were ready. -/
def flushLoop : List Nat → State → State
  | [], s => s
  | n :: rest, s =>
    let s := s.freeData n
    let s := (s.setNode n { s.nodes n with mDataSize := 0 }).moveToIdle n
    flushLoop rest { s with messageCount := s.messageCount - 1 }

def flushMessage (s : State) : State :=
  let s := flushLoop s.mReadyMessageList s
  { s with log := s.log ++ [.flush] }

/-- The end of `TMessage_WaitQueueNotEmpty`. -/
def waitDone (s : State) : State × Pc :=
  ({ s with mWaitMessageFlag := false }, .unlock s.messageCount)

/-- A wait with the mutex: the test of its loop, or of its `if`. -/
def waitTest (timed : Bool) (s : State) : State × Pc :=
  if s.mReadyMessageList = [] then (s, .wait timed) else s.waitDone

/-- From `pthread_mutex_lock` to the next operation on the mutex or the condition. -/
def body (mallocs : Nat) (data : Bool) (s : State) : Op → Option (State × Pc)
  | .putMessage m => putBody m.withoutData
  | .putMessageWithData m => putBody m
  | .getMessage => some (s.getMessage.1, .unlock s.getMessage.2)
  | .flushMessage => some (s.flushMessage, .unlock 0)
  | .getMessageCount => some (s, .unlock s.messageCount)
  | .waitQueueNotEmpty timeout => some ({ s with mWaitMessageFlag := true }.waitTest (timeout ≠ 0))
where
  putBody (m : MessageIn) : Option (State × Pc) :=
    (s.putMessageWithData m mallocs data).map fun p =>
      (p.1, if p.2 = 0 ∧ p.1.mWaitMessageFlag then .signal p.2 else .unlock p.2)

/-- A wait that is woken: without a timeout it tests again. -/
def rewait (timed : Bool) (s : State) : State × Pc := if timed then s.waitDone else s.waitTest false

/-! ## Steps -/

def setThread (s : State) (t : Nat) (pc : Pc) : State := { s with threads := update s.threads t pc }

end State

/-- What a thread does next. `wake` is a wait that runs out of time or is woken for no reason. -/
inductive Step
  | call (t : Nat) (op : Op)
  | lock (t : Nat) (mallocs : Nat) (data : Bool)
  | signal (t : Nat) (woken : Option Nat)
  | unlock (t : Nat)
  | block (t : Nat)
  | wake (t : Nat)
  | relock (t : Nat)

namespace State

def isBlocked (s : State) (t : Nat) : Bool :=
  match s.threads t with
  | .blocked _ => true
  | _ => false

/-- A blocked thread is woken. -/
def wake (s : State) (t : Nat) : Option State :=
  match s.threads t with
  | .blocked timed => if t < s.threadNum then some (s.setThread t (.relock timed)) else none
  | _ => none

/-- `pthread_cond_signal` wakes a thread, unless none is blocked. -/
def condSignal (s : State) (woken : Option Nat) : Option State :=
  match woken with
  | some w => s.wake w
  | none => if ∀ t < s.threadNum, s.isBlocked t = false then some s else none

def lock (t mallocs : Nat) (data : Bool) (s : State) : Option State :=
  match s.mutex, s.threads t with
  | none, .lock op => (s.body mallocs data op).map fun p =>
    { p.1 with mutex := some t }.setThread t p.2
  | _, _ => none

def signal (t : Nat) (woken : Option Nat) (s : State) : Option State :=
  match s.threads t with
  | .signal ret => (s.condSignal woken).map fun s => s.setThread t (.unlock ret)
  | _ => none

def unlock (t : Nat) (s : State) : Option State :=
  match s.threads t with
  | .unlock _ => some ({ s with mutex := none }.setThread t .out)
  | _ => none

/-- `pthread_cond_wait` gives the mutex back and blocks. -/
def block (t : Nat) (s : State) : Option State :=
  match s.threads t with
  | .wait timed => some ({ s with mutex := none }.setThread t (.blocked timed))
  | _ => none

def relock (t : Nat) (s : State) : Option State :=
  match s.mutex, s.threads t with
  | none, .relock timed =>
    some ({ (s.rewait timed).1 with mutex := some t }.setThread t (s.rewait timed).2)
  | _, _ => none

def call (t : Nat) (op : Op) (s : State) : Option State :=
  match s.threads t with
  | .out => if t < s.threadNum then some (s.setThread t (.lock op)) else none
  | _ => none

end State

def queue : Machine State Step where
  next s
    | .call t op => s.call t op
    | .lock t mallocs data => s.lock t mallocs data
    | .signal t woken => s.signal t woken
    | .unlock t => s.unlock t
    | .block t => s.block t
    | .wake t => s.wake t
    | .relock t => s.relock t

/-- `message_create` before it has nodes. -/
def emptyQueue (threadNum : Nat) : State where
  nodes := fun _ => ⟨0, 0, 0, none, 0⟩
  nodeNum := 0
  mIdleMessageList := []
  mReadyMessageList := []
  messageCount := 0
  mWaitMessageFlag := false
  mutex := none
  heap := fun _ => []
  copyNum := 0
  threads := fun _ => .out
  threadNum := threadNum
  log := []
  freed := fun _ => 0
  handed := fun _ => 0

/-- `message_create`, if it succeeds. -/
def messageCreate (threadNum mallocs : Nat) : Option State :=
  let p := (emptyQueue threadNum).tMessageIncreaseIdleMessageList mallocs
  if p.2 then some p.1 else none

end Melis.Mpp
