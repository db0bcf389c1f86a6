import Mathlib.Data.Int.NatAbs
import Melis.Lib.Chain
import Melis.Lib.Run

/-!
# AwMessageQueue

`AwMessageQueue.c`: a list of nodes under a mutex, and a semaphore that is
signalled once for each message. Threads take steps at the operations on the mutex
and the semaphore. The semaphore is the one of `ipc.c`, whose value has sixteen bits
and which hands a signal to the first thread that waits. Beside the code's data
stand the messages that were linked, and those unlinked again by a get or a flush.
-/

namespace Melis.Libcore

open Lib Function

/-! ## The semaphore -/

/-- `value` and `suspend_thread` -/
structure Sem (τ : Type) where
  value : Nat
  suspended : List τ

namespace Sem

variable {τ : Type} (sem : Sem τ)

/-- `rt_sem_take`; the other result is whether the thread has been suspended. -/
def take (t : τ) : Sem τ × Bool :=
  if 0 < sem.value then ({ sem with value := sem.value - 1 }, false)
  else ({ sem with suspended := sem.suspended ++ [t] }, true)

/-- `rt_sem_trytake` -/
def trytake : Sem τ := if 0 < sem.value then { sem with value := sem.value - 1 } else sem

/-- `rt_sem_release`, with the thread that it resumes. -/
def release : Sem τ × Option τ :=
  match sem.suspended with
  | t :: suspended => ({ sem with suspended }, some t)
  | [] => ({ sem with value := (sem.value + 1) % 2 ^ 16 }, none)

end Sem

/-! ## Threads -/

/-- What a call has returned; `msg` is 0 with the message. -/
inductive Ret (α : Type)
  | none
  | code (ret : Int)
  | msg (m : α)

/-- Where a thread is. `timed` is a wait that can time out. -/
inductive Pc (α : Type)
  | idle (ret : Ret α)
  | postLock (m : α)
  | postBody (m : α)
  | postSem
  | getSem (timed : Bool)
  | getWait (timed : Bool)
  | getLock
  | getBody
  | waitSem (timed : Bool)
  | waitWait (timed : Bool)
  | waitPost
  | waitRead
  | flushLock
  | flushBody
  | flushValue
  | flushTry

namespace Pc

variable {α : Type}

/-- On the semaphore. -/
def Suspended : Pc α → Bool
  | .getWait _ | .waitWait _ => true
  | _ => false

/-- Between `pthread_mutex_lock` and `pthread_mutex_unlock`. -/
def Locked : Pc α → Bool
  | .postBody _ | .getBody | .flushBody | .flushValue | .flushTry => true
  | _ => false

/-- A thread that was suspended goes on. -/
def resumed : Pc α → Pc α
  | .getWait _ => .getLock
  | .waitWait _ => .waitPost
  | p => p

end Pc

structure MessageQueueContext (α : Type) (n : Nat) where
  pHead : Option Nat
  nCount : Nat
  next : Nat → Option Nat
  valid : Nat → Bool
  msg : Nat → α
  mutex : Option (Fin n)
  sem : Sem (Fin n)
  pc : Fin n → Pc α
  /-- The messages that were linked, in this order. -/
  posted : List α
  /-- Those that were unlinked, and whether by a get. -/
  gone : List (α × Bool)

section

variable {α : Type} {n : Nat} (nMaxMessageNum : Nat) (s : MessageQueueContext α n) (t : Fin n)

def MessageQueueContext.goto (p : Pc α) : MessageQueueContext α n :=
  { s with pc := update s.pc t p }

/-- `pthread_mutex_lock`: the thread stays where another holds the mutex. -/
def lock (p : Pc α) : MessageQueueContext α n :=
  if s.mutex = none then { s.goto t p with mutex := some t } else s

/-- `pthread_mutex_unlock` -/
def unlock (p : Pc α) : MessageQueueContext α n := { s.goto t p with mutex := none }

/-- `sem_wait` or `sem_timedwait` -/
def semWait (got wait : Pc α) : MessageQueueContext α n :=
  match s.sem.take t with
  | (sem, false) => { s.goto t got with sem }
  | (sem, true) => { s.goto t wait with sem }

/-- `sem_post` -/
def semPost (p : Pc α) : MessageQueueContext α n :=
  match s.sem.release with
  | (sem, none) => { s.goto t p with sem }
  | (sem, some u) => { (s.goto t p).goto u (s.pc u).resumed with sem }

/-- The nodes from the head on. -/
def walkNodes (next : Nat → Option Nat) : Nat → Option Nat → List Nat
  | 0, _ => []
  | _, none => []
  | fuel + 1, some i => i :: walkNodes next fuel (next i)

/-! ## Between lock and unlock

`none` is a use of a null pointer, or a walk that does not end. -/

def AwMessageQueuePostMessage (m : α) : Option (MessageQueueContext α n) :=
  if nMaxMessageNum ≤ s.nCount then some (unlock s t (.idle (.code (-1))))
  else do
    let node ← (List.range nMaxMessageNum).find? fun i => !s.valid i
    let s := { s with
      msg := update s.msg node m
      valid := update s.valid node true
      next := update s.next node none }
    let s ← match s.pHead with
      | none => some { s with pHead := some node }
      | some ptr => (lastCell s.next nMaxMessageNum ptr).map fun last =>
        { s with next := update s.next last (some node) }
    return unlock { s with nCount := s.nCount + 1, posted := s.posted ++ [m] } t .postSem

def AwMessageQueueTryGetMessage : Option (MessageQueueContext α n) :=
  if s.nCount = 0 then some (unlock s t (.idle (.code (-1))))
  else do
    let node ← s.pHead
    let m := s.msg node
    return unlock { s with
      pHead := s.next node
      valid := update s.valid node false
      nCount := s.nCount - 1
      gone := s.gone ++ [(m, true)] } t (.idle (.msg m))

/-- Up to the loop that drains the semaphore. -/
def AwMessageQueueFlush : MessageQueueContext α n :=
  { s.goto t .flushValue with
    pHead := none
    nCount := 0
    valid := fun i => if i < nMaxMessageNum then false else s.valid i
    gone := s.gone ++ (walkNodes s.next nMaxMessageNum s.pHead).map fun i => (s.msg i, false) }

/-! ## Steps -/

/-- The calls; `GetMessage` is a get that cannot time out. -/
inductive MqCall (α : Type)
  | post (m : α)
  | get (timed : Bool)
  | wait (timed : Bool)
  | flush

inductive MqAct (α : Type)
  | call (c : MqCall α)
  | step
  | timeout

def MqCall.pc : MqCall α → Pc α
  | .post m => .postLock m
  | .get timed => .getSem timed
  | .wait timed => .waitSem timed
  | .flush => .flushLock

def mqStep : Option (MessageQueueContext α n) :=
  match s.pc t with
  | .idle _ | .getWait _ | .waitWait _ => some s
  | .postLock m => some (lock s t (.postBody m))
  | .postBody m => AwMessageQueuePostMessage nMaxMessageNum s t m
  | .postSem => some (semPost s t (.idle (.code 0)))
  | .getSem timed => some (semWait s t .getLock (.getWait timed))
  | .getLock => some (lock s t .getBody)
  | .getBody => AwMessageQueueTryGetMessage s t
  | .waitSem timed => some (semWait s t .waitPost (.waitWait timed))
  | .waitPost => some (semPost s t .waitRead)
  | .waitRead => some (s.goto t (.idle (.code s.nCount)))
  | .flushLock => some (lock s t .flushBody)
  | .flushBody => some (AwMessageQueueFlush nMaxMessageNum s t)
  | .flushValue =>
    some (if s.sem.value = 0 then unlock s t (.idle (.code 0)) else s.goto t .flushTry)
  | .flushTry => some { s.goto t .flushValue with sem := s.sem.trytake }

/-- The timer takes a thread off the semaphore. -/
def mqTimeout : MessageQueueContext α n :=
  match s.pc t with
  | .getWait true | .waitWait true =>
    { s.goto t (.idle (.code (-1))) with
      sem := { s.sem with suspended := s.sem.suspended.filter (· ≠ t) } }
  | _ => s

def mqNext (i : Fin n × MqAct α) : Option (MessageQueueContext α n) :=
  match i.2 with
  | .step => mqStep nMaxMessageNum s i.1
  | .timeout => some (mqTimeout s i.1)
  | .call c => match s.pc i.1 with
    | .idle _ => some (s.goto i.1 c.pc)
    | _ => some s

end

def messageQueue (α : Type) (n nMaxMessageNum : Nat) :
    Machine (MessageQueueContext α n) (Fin n × MqAct α) := ⟨mqNext nMaxMessageNum⟩

/-- `AwMessageQueueCreate__`, whose nodes hold `zero`. -/
def AwMessageQueueCreate {α : Type} (n : Nat) (zero : α) : MessageQueueContext α n where
  pHead := none
  nCount := 0
  next _ := none
  valid _ := false
  msg _ := zero
  mutex := none
  sem := ⟨0, []⟩
  pc _ := .idle .none
  posted := []
  gone := []

end Melis.Libcore
