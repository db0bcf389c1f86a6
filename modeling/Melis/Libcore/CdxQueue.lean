import Melis.Lib.Chain
import Melis.Lib.Run

/-!
# CdxQueue

`CdxQueue.c`: a list of counted nodes whose first is a dummy, without a lock. Posters
link a node behind the rear and then move the rear; `DeliverProcess` of `CdxMessage.c`
pops while the queue is not empty. Threads take steps at each load, store and swap of
what they share, and at `Palloc` and `Pfree`. A step is `none` where it touches a node
that is not allocated, goes through a null pointer, or fails the check of the swap of
the rear. Beside the code's data stand the values that were linked and those that pops
have returned, in order. `enablePush` and `enablePop` are set until the queue is
destroyed.
-/

namespace Melis.Libcore

open Lib

structure QueueNodeEntity (α : Type) where
  next : Option Nat
  ref : Int
  data : Option α

/-- Where a poster is in `__CdxQueuePush`. -/
inductive PushPc (α : Type)
  | idle
  | alloc (data : α)
  | setData (data : α) (entity : Nat)
  | setNext (data : α) (entity : Nat)
  | setRef (data : α) (entity : Nat)
  | readRear (data : α) (entity : Nat)
  | swapNext (data : α) (entity tmpEntity : Nat)
  | swapRear (data : α) (entity tmpEntity : Nat)

/-- Why the delivery thread drops a reference. -/
inductive Drop (α : Type)
  | retry
  | dummy
  | first (data : Option α)
  | last (data : Option α)

/-- Where the delivery thread is in `__CdxQueueEmpty` and `__CdxQueuePop`. -/
inductive PopPc (α : Type)
  | emptyFront
  | emptyRear (front : Nat)
  | readFront
  | incRef (entity : Nat)
  | readNext (entity : Nat)
  | dataNext (entity : Nat)
  | readData (entity node : Nat)
  | newFront (entity : Nat) (data : Option α)
  | swapFront (entity : Nat) (next : Option Nat) (data : Option α)
  | decRef (entity : Nat) (drop : Drop α)
  | free (entity : Nat) (drop : Drop α)

structure CdxQueueImpl (α : Type) (n : Nat) where
  front : Nat
  rear : Nat
  cells : Nat → QueueNodeEntity α
  live : Nat → Bool
  push : Fin n → PushPc α
  pop : PopPc α
  /-- The values that were linked, in this order. -/
  linked : List α
  /-- The values that `__CdxQueuePop` has returned. -/
  popped : List α

section

variable {α : Type} {n : Nat} (s : CdxQueueImpl α n)

namespace CdxQueueImpl

def goto (t : Fin n) (p : PushPc α) : CdxQueueImpl α n :=
  { s with push := Function.update s.push t p }

def load (a : Nat) : Option (QueueNodeEntity α) := if s.live a then some (s.cells a) else none

def store (a : Nat) (f : QueueNodeEntity α → QueueNodeEntity α) : Option (CdxQueueImpl α n) :=
  if s.live a then some { s with cells := Function.update s.cells a (f (s.cells a)) } else none

end CdxQueueImpl

/-- A step of `__CdxQueuePush`; `fresh` is what `Palloc` returns, if it is not in use. -/
def CdxQueuePush (t : Fin n) (fresh : Nat) : Option (CdxQueueImpl α n) :=
  match s.push t with
  | .idle => some s
  | .alloc data =>
    if s.live fresh then some s
    else some { s.goto t (.setData data fresh) with live := Function.update s.live fresh true }
  | .setData data entity =>
    (s.goto t (.setNext data entity)).store entity fun c => { c with data := some data }
  | .setNext data entity =>
    (s.goto t (.setRef data entity)).store entity fun c => { c with next := none }
  | .setRef data entity =>
    (s.goto t (.readRear data entity)).store entity fun c => { c with ref := 1 }
  | .readRear data entity => some (s.goto t (.swapNext data entity s.rear))
  | .swapNext data entity tmpEntity => do
    let c ← s.load tmpEntity
    match c.next with
    | none =>
      (s.goto t (.swapRear data entity tmpEntity)).store tmpEntity (fun c =>
        { c with next := some entity }) |>.map fun s => { s with linked := s.linked ++ [data] }
    | some _ => some (s.goto t (.readRear data entity))
  | .swapRear _ entity tmpEntity =>
    if s.rear = tmpEntity then some { s.goto t .idle with rear := entity } else none

/-- What follows `QueueNodeEntityDecRef`. -/
def dropped (entity : Nat) : Drop α → CdxQueueImpl α n
  | .retry => { s with pop := .readFront }
  | .dummy => { s with pop := .emptyFront }
  | .first data => { s with pop := .decRef entity (.last data) }
  | .last data => { s with pop := .emptyFront, popped := s.popped ++ data.toList }

/-- A step of the delivery thread. -/
def CdxQueuePop : Option (CdxQueueImpl α n) :=
  match s.pop with
  | .emptyFront => some { s with pop := .emptyRear s.front }
  | .emptyRear front => some { s with pop := if front = s.rear then .emptyFront else .readFront }
  | .readFront => some { s with pop := .incRef s.front }
  | .incRef entity =>
    { s with pop := .readNext entity }.store entity fun c => { c with ref := c.ref + 1 }
  | .readNext entity => do
    let c ← s.load entity
    return { s with pop := if c.next = none then .decRef entity .dummy else .dataNext entity }
  | .dataNext entity => do
    let node ← (← s.load entity).next
    return { s with pop := .readData entity node }
  | .readData entity node => do
    let c ← s.load node
    return { s with pop := .newFront entity c.data }
  | .newFront entity data => do
    let c ← s.load entity
    return { s with pop := .swapFront entity c.next data }
  | .swapFront entity next data =>
    if s.front = entity then
      next.map fun node => { s with front := node, pop := .decRef entity (.first data) }
    else some { s with pop := .decRef entity .retry }
  | .decRef entity drop => do
    let s ← s.store entity fun c => { c with ref := c.ref - 1 }
    return if (s.cells entity).ref = 0 then { s with pop := .free entity drop }
      else dropped s entity drop
  | .free entity drop =>
    if s.live entity then
      some (dropped { s with live := Function.update s.live entity false } entity drop)
    else none

inductive QueueAct (α : Type) (n : Nat)
  | call (t : Fin n) (data : α)
  | push (t : Fin n) (fresh : Nat)
  | pop

def queueNext : QueueAct α n → Option (CdxQueueImpl α n)
  | .call t data => match s.push t with
    | .idle => some (s.goto t (.alloc data))
    | _ => some s
  | .push t fresh => CdxQueuePush s t fresh
  | .pop => CdxQueuePop s

end

def cdxQueue (α : Type) (n : Nat) : Machine (CdxQueueImpl α n) (QueueAct α n) := ⟨queueNext⟩

/-- `CdxQueueCreate`, with the dummy at `0`. -/
def CdxQueueCreate (α : Type) (n : Nat) : CdxQueueImpl α n where
  front := 0
  rear := 0
  cells _ := ⟨none, 1, none⟩
  live a := a == 0
  push _ := .idle
  pop := .emptyFront
  linked := []
  popped := []

end Melis.Libcore
