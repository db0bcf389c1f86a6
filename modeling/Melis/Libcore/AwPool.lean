import Mathlib.Data.Int.NatAbs
import Melis.Lib.Extents
import Melis.Lib.Memory
import Melis.Lib.Run
import Mathlib.Data.Finset.Insert
import Mathlib.Data.Finset.Filter

/-!
# AwPool

`AwPool.c`: a pool cuts small regions from blocks of 8192 bytes and gets large ones from
`malloc`; each region stands behind a header `PoolMemoryS`. Addresses have 32 bits, as have
`int` and `size_t`. The heap is the set of blocks obtained and not yet returned; what `malloc`
answers is an argument of each call, and stands for `NULL` where it is not a fresh block. A
call is `none` where the code goes through a null pointer or returns a block it does not hold.
The mutex reports errors: `misused` is set where its holder locks it and where it is unlocked
without being held.
-/

namespace Melis.Libcore

open Lib Function

def POOL_BLOCK_SIZE : Nat := 8192

def POOL_LARGE_SIZE : Nat := 4095

/-- `sizeof(struct PoolMemoryS)`. -/
abbrev sizeofPm : Nat := 24

/-- `sizeof(struct PoolDataS)`. -/
abbrev sizeofPd : Nat := 32

def AwAlign (d a : Nat) : Nat := (d + (a - 1)) / a * a

/-- What a header and `size` bytes take in a block. -/
def aligned (size : Nat) : Nat := AwAlign (sizeofPm + size) 8

/-- `pmSize` of `AwPalloc`, an `int`. -/
def pmSize (size : Nat) : Int := (aligned size : Int).bmod (2 ^ 32)

structure PoolMemoryS where
  owner : Option Nat
  size : Nat

structure PoolDataS where
  last : Nat
  end_ : Nat
  pmList : List Nat
  ref : Int
  failed : Int

structure AwPool where
  /-- Blocks of `malloc` with their sizes. -/
  heap : Finset (Nat × Nat)
  base : Nat
  current : Nat
  largeList : List Nat
  pdList : List Nat
  pd : Nat → PoolDataS
  pm : Nat → PoolMemoryS
  mem : Nat → UInt8
  held : Bool
  misused : Bool

/-- `m` is a block of `n` bytes that `malloc` may return. -/
def Fresh (heap : Finset (Nat × Nat)) (m n : Nat) : Prop :=
  m ≠ 0 ∧ m % 8 = 0 ∧ m + n < 2 ^ 32 ∧ ∀ b ∈ heap, m + n ≤ b.1 ∨ b.1 + b.2 ≤ m

instance {heap : Finset (Nat × Nat)} {m n : Nat} : Decidable (Fresh heap m n) :=
  inferInstanceAs (Decidable (_ ∧ _ ∧ _ ∧ _))

/-- The nodes of a list from `x` on. -/
def fromNode (l : List Nat) (x : Nat) : List Nat := l.dropWhile (· ≠ x)

def nextNode (l : List Nat) (x : Nat) : Option Nat := (fromNode l x).tail.head?

namespace AwPool

variable (s : AwPool)

def lock : AwPool := if s.held then { s with misused := true } else { s with held := true }

def unlock : AwPool := if s.held then { s with held := false } else { s with misused := true }

def malloc (m n : Nat) : Option AwPool :=
  if Fresh s.heap m n then some { s with heap := insert (m, n) s.heap } else none

def free (a : Nat) : Option AwPool :=
  if ∃ b ∈ s.heap, b.1 = a then some { s with heap := s.heap.filter (·.1 ≠ a) } else none

def setPd (d : Nat) (f : PoolDataS → PoolDataS) : AwPool :=
  { s with pd := update s.pd d (f (s.pd d)) }

def setPm (x : Nat) (pm : PoolMemoryS) : AwPool := { s with pm := update s.pm x pm }

def memcpy (newP p n : Nat) : AwPool :=
  { s with mem := Memory.memcpy s.mem newP (Memory.load s.mem (List.range' p n)) }

def PoolDataIncRef (d : Nat) : AwPool := s.setPd d fun pd => { pd with ref := pd.ref + 1 }

def PoolDataDecRef : Option Nat → Option AwPool
  | none => none
  | some d =>
    if d ∈ s.pdList then
      let s := s.setPd d fun pd => { pd with ref := pd.ref - 1 }
      if (s.pd d).ref = 0 then { s with pdList := s.pdList.erase d }.free d else some s
    else none

/-- `CdxListDel` of the node of header `x`, which is in the list of its owner. -/
def CdxListDel (x : Nat) : AwPool :=
  match (s.pm x).owner with
  | none => { s with largeList := s.largeList.erase x }
  | some d => s.setPd d fun pd => { pd with pmList := pd.pmList.erase x }

/-- A region of `size` bytes behind what block `d` has given out. -/
def place (d size : Nat) : Option Nat × AwPool :=
  let x := (s.pd d).last
  let s := s.setPm x ⟨some d, size⟩
  let s := s.setPd d fun pd =>
    { pd with last := (pd.last + aligned size) % 2 ^ 32, pmList := pd.pmList ++ [x] }
  (some (x + sizeofPm), s.PoolDataIncRef d)

/-- The loop of `PallocBlock` over the blocks from the current one on, and `currentPd`. -/
def countFailed (newPd : Nat) : List Nat → Option Nat → AwPool → Option (Option Nat × AwPool)
  | [], currentPd, s => some (currentPd, s)
  | d :: rest, currentPd, s => do
    let failed := (s.pd d).failed
    let s := s.setPd d fun pd => { pd with failed := pd.failed + 1 }
    if failed > 4 then
      let s ← s.PoolDataDecRef (some d)
      countFailed newPd rest (some (rest.headD newPd)) s
    else countFailed newPd rest currentPd s

def PallocBlock (size m : Nat) : Option (Option Nat × AwPool) :=
  match s.malloc m POOL_BLOCK_SIZE with
  | none => some (none, s)
  | some s => do
    let s := s.setPd m fun _ =>
      { last := m + AwAlign sizeofPd 8, end_ := m + POOL_BLOCK_SIZE, pmList := [], ref := 1,
        failed := 0 }
    let (currentPd, s) ← countFailed m (fromNode s.pdList s.current) none s
    let s := { s with pdList := s.pdList ++ [m], current := currentPd.getD s.current }
    return s.place m size

def PallocLarge (size m : Nat) : Option Nat × AwPool :=
  match s.malloc m (size + sizeofPm) with
  | none => (none, s)
  | some s =>
    let s := s.setPm m ⟨none, size⟩
    (some (m + sizeofPm), { s with largeList := m :: s.largeList })

/-- The first block from the current one on with room for `size` bytes. -/
def findRoom (size : Nat) : Option Nat :=
  (fromNode s.pdList s.current).find? fun d =>
    pmSize size ≤ ((s.pd d).end_ : Int) - (s.pd d).last

/-- `AwPalloc` between `CdxMutexLock` and `out`. -/
def allocate (size m : Nat) : Option (Option Nat × AwPool) :=
  if pmSize size ≤ POOL_LARGE_SIZE then
    match s.findRoom size with
    | some d => some (s.place d size)
    | none => s.PallocBlock size m
  else some (s.PallocLarge size m)

def AwPalloc (size m : Nat) : Option (Option Nat × AwPool) := do
  let (ret, s) ← s.lock.allocate size m
  return (ret, s.unlock)

def AwPfree (p : Nat) : Option AwPool := do
  let s := s.lock
  let x := p - sizeofPm
  if (s.pm x).size > POOL_LARGE_SIZE then
    let s ← (s.CdxListDel x).free x
    return s.unlock
  else
    let s ← (s.CdxListDel x).PoolDataDecRef (s.pm x).owner
    return s.unlock

/-- `freeSize` of `AwRealloc`. Without an owner the successor is a large region, or the head
of their list, at offset 4 of the pool, read as the node at offset 12 of a header. -/
def freeSize (x : Nat) : Int :=
  match (s.pm x).owner with
  | some d =>
    match nextNode (s.pd d).pmList x with
    | none => (d + POOL_BLOCK_SIZE : Int) - (x + sizeofPm : Nat)
    | some y => (y : Int) - (x + sizeofPm : Nat)
  | none =>
    let nextPm := ((nextNode s.largeList x).map Nat.cast).getD ((s.base : Int) - 8)
    (nextPm - (x + sizeofPm : Nat)).bmod (2 ^ 32)

/-- The region of header `x` grows where it is. -/
def grow (x size : Nat) : AwPool :=
  let pm := s.pm x
  let s := s.setPm x { pm with size }
  match pm.owner with
  | none => s
  | some d =>
    match nextNode (s.pd d).pmList x with
    | none => s.setPd d fun pd => { pd with last := x + aligned size }
    | some _ => s

def AwRealloc (p size m : Nat) : Option (Option Nat × AwPool) := do
  let s := s.lock
  let x := p - sizeofPm
  let old := (s.pm x).size
  if old > POOL_LARGE_SIZE then
    match s.PallocLarge size m with
    | (none, s) => return (none, s.unlock)
    | (some newP, s) =>
      let s ← ((s.memcpy newP p old).CdxListDel x).free x
      return (some newP, s.unlock)
  else if size > POOL_LARGE_SIZE then
    match s.PallocLarge size m with
    | (none, s) => return (none, s.unlock)
    | (some newP, s) =>
      let s ← (s.memcpy newP p old).AwPfree p
      return (some newP, s.unlock)
  else if s.freeSize x ≥ size then
    return (some p, (s.grow x size).unlock)
  else
    let (ret, s) ← s.AwPalloc size m
    let newP ← ret
    let s ← (s.memcpy newP p old).AwPfree p
    return (some newP, s.unlock)

def destroyLarge : List Nat → AwPool → Option AwPool
  | [], s => some s
  | x :: l, s => do destroyLarge l (← (s.CdxListDel x).free x)

def decRefs (d : Nat) : List Nat → AwPool → Option AwPool
  | [], s => some s
  | _ :: l, s => do decRefs d l (← s.PoolDataDecRef (some d))

/-- Block `d` is left with the reference of the pool. -/
def dropLeaked (d : Nat) : Option AwPool :=
  if (s.pd d).ref ≠ 1 then decRefs d (s.pd d).pmList s else some s

def destroyData : List Nat → AwPool → Option AwPool
  | [], s => some s
  | d :: l, s => do
    let s := if (s.pd d).failed > 5 then s.PoolDataIncRef d else s
    let s ← s.dropLeaked d
    destroyData l (← s.PoolDataDecRef (some d))

/-- `AwPoolDestroy` of a pool without children. -/
def AwPoolDestroy : Option AwPool := do
  let s ← destroyLarge s.largeList s
  let s ← destroyData s.pdList s
  s.free s.base

end AwPool

def PoolNodeCreate (mem : Nat → UInt8) (m₁ m₂ : Nat) : Option AwPool := do
  let s : AwPool :=
    { heap := ∅, base := m₁, current := m₂, largeList := [], pdList := [m₂], mem,
      pd _ := ⟨m₂ + sizeofPd, m₂ + POOL_BLOCK_SIZE, [], 1, 0⟩, pm _ := ⟨none, 0⟩,
      held := false, misused := false }
  let s ← s.malloc m₁ 1024
  s.malloc m₂ POOL_BLOCK_SIZE

/-! ## Runs -/

inductive PoolCall
  | palloc (size m : Nat)
  | realloc (p size m : Nat)
  | pfree (p : Nat)
  /-- The owner of a region writes a byte of it. -/
  | write (p i : Nat) (x : UInt8)

/-- A pool with the regions returned and not freed, each with its size. -/
structure PoolRun where
  pool : AwPool
  regions : Nat → Option Nat

namespace PoolRun

variable (r : PoolRun)

def next : PoolCall → Option PoolRun
  | .palloc size m => do
    let (q, pool) ← r.pool.AwPalloc size m
    match q with
    | none => return { r with pool }
    | some q => return { pool, regions := update r.regions q (some size) }
  | .realloc p size m => do
    let (q, pool) ← r.pool.AwRealloc p size m
    match q with
    | none => return { r with pool }
    | some q =>
      let regions := update r.regions p none
      return { pool, regions := update regions q (some size) }
  | .pfree p => do
    let pool ← r.pool.AwPfree p
    return { pool, regions := update r.regions p none }
  | .write p i x => some { r with pool.mem := update r.pool.mem (p + i) x }

/-- Sizes are positive `int`s, a reallocation is to a larger one, and pointers are live. -/
def Legal : PoolCall → Prop
  | .palloc size _ => 0 < size ∧ size < 2 ^ 31
  | .realloc p size _ =>
    match r.regions p with
    | none => False
    | some n => n < size ∧ size < 2 ^ 31
  | .pfree p => r.regions p ≠ none
  | .write p i _ =>
    match r.regions p with
    | none => False
    | some n => i < n

end PoolRun

def awPool : Machine PoolRun PoolCall := ⟨PoolRun.next⟩

end Melis.Libcore
