import Mathlib.Data.List.Sort

/-!
# The block cache

The data of the SD card block cache: the entries, the hash table, the ready,
lock-down and free lists, the lock and the device below. Every entry holds one
block of 512 bytes, the only size the driver asks for, so there is one heap.
-/

namespace Melis.Sdmmc

abbrev Tid := Nat

/-- `struct cache_entry_key`. The device handle 0 is `NULL`. -/
structure Key where
  dev : Nat
  blockOffset : Int
deriving DecidableEq

/-- The key `n` blocks further on. -/
def Key.add (k : Key) (n : Nat) : Key := ⟨k.dev, k.blockOffset + n⟩

/-- Address of a `struct cache_entry`: in the heap, or `protected_ent` on the
stack of a thread in `get_block`. -/
inductive Ent where
  | heap (i : Nat)
  | guard (t : Tid)
deriving DecidableEq

/-- `struct cache_entry` with its flags and its block. -/
structure Entry (α : Type) where
  key : Key
  dirty : Bool
  busy : Bool
  ref : Nat
  data : α

/-- What happened to the entries, the last event first. -/
inductive Event where
  | insert (e : Ent) (k : Key)
  | release (e : Ent)
deriving DecidableEq

/-- `g_bcm`, the heap of 512-byte entries, and the device. `heap` is the number
of entries of the heap, `none` before its memory is allocated; `hist` is a
ghost. -/
structure Cache (α : Type) where
  ent : Ent → Entry α
  listReady : List Ent
  listLockdown : List Ent
  hashTable : Option (Nat → List Ent)
  lock : Option Tid
  cacheHeapSize : Nat
  heap : Option Nat
  freeEnts : Int
  freeEntsList : List Ent
  disk : Key → α
  hist : List Event

def hashtableMax : Nat := 256
def writebackBlocksMax : Nat := 256
def cacheReadaheadSize : Nat := 32 * 1024
def cacheDirectlySize : Nat := 32 * 1024
def blockSize : Nat := 512
def sizeofCacheEntry : Nat := 36

/-- `HASH_VALUE(d, b) % HASHTABLE_MAX` for a `long` of 32 bits. -/
def cacheEntryHash (k : Key) : Nat :=
  ((BitVec.ofNat 32 k.dev <<< (32 - 6)) ||| BitVec.ofInt 32 k.blockOffset).toNat % hashtableMax

namespace Cache

variable {α : Type} (c : Cache α)

def key (e : Ent) : Key := (c.ent e).key

/-- `f` applied to each entry of `es`. -/
def modify (es : List Ent) (f : Entry α → Entry α) : Cache α :=
  { c with ent := fun e => if e ∈ es then f (c.ent e) else c.ent e }

/-! ## cache_hash.c -/

def cacheHashLookup (k : Key) : Option Ent :=
  match c.hashTable with
  | none => none
  | some table => (table (cacheEntryHash k)).find? fun e => c.key e = k

def cacheHashInsert (e : Ent) : Cache α :=
  match c.hashTable with
  | none => c
  | some table =>
    { c with
      hashTable := some (Function.update table (cacheEntryHash (c.key e))
        (e :: table (cacheEntryHash (c.key e))))
      hist := .insert e (c.key e) :: c.hist }

/-- `none` is the access through the `NULL` table. -/
def cacheHashRemove (e : Ent) : Option (Cache α) :=
  c.hashTable.map fun table =>
    { c with
      hashTable := some (Function.update table (cacheEntryHash (c.key e))
        ((table (cacheEntryHash (c.key e))).erase e)) }

/-! ## The lists -/

/-- `list_empty(&ent->list)` fails: the entry is on one of the two lists. -/
def Listed (e : Ent) : Prop := e ∈ c.listReady ∨ e ∈ c.listLockdown

instance (e : Ent) : Decidable (c.Listed e) := inferInstanceAs (Decidable (_ ∨ _))

/-- `cache_list_add_to_head(&g_bcm.list_ready, ent)`. -/
def addToReady (e : Ent) : Cache α :=
  if c.Listed e then c else { c with listReady := e :: c.listReady }

/-- `cache_list_add_to_head(&g_bcm.list_lockdown, ent)`. -/
def addToLockdown (e : Ent) : Cache α :=
  if c.Listed e then c else { c with listLockdown := e :: c.listLockdown }

/-- `cache_list_remove_from_list`: `list_del_init` takes the entry off the list
it is on. -/
def removeFromList (e : Ent) : Cache α :=
  { c with listReady := c.listReady.erase e, listLockdown := c.listLockdown.erase e }

/-! ## The lock -/

/-- `block_cache_lock`. For the owner it returns at once, without a count. -/
def acquire (t : Tid) : Option (Cache α) :=
  if c.lock = none ∨ c.lock = some t then some { c with lock := some t } else none

/-- `block_cache_unlock`. -/
def unlock (t : Tid) : Cache α :=
  if c.lock = some t then { c with lock := none } else c

/-! ## The heap -/

/-- The entries of the allocated heap. -/
def heapEnts : List Ent :=
  match c.heap with
  | none => []
  | some n => (List.range n).map Ent.heap

/-- `init_heap`; `malloc` says whether the memory is there. -/
def initHeap (malloc : Bool) : Cache α :=
  if malloc then
    let n := c.cacheHeapSize * 1024 / (sizeofCacheEntry + blockSize)
    { c with heap := some n, freeEnts := n, freeEntsList := (List.range n).map Ent.heap }
  else c

def freeCacheEntry (e : Ent) : Cache α :=
  { c.modify [e] (fun x => { x with dirty := false, busy := false }) with
    freeEntsList := e :: c.freeEntsList
    freeEnts := c.freeEnts + 1
    hist := .release e :: c.hist }

/-- The end of `alloc_cache_entrys`: the first `n` entries of the free list. -/
def takeFree (n : Nat) : Cache α × List Ent :=
  let ents := c.freeEntsList.take n
  ({ c.modify ents (fun x => { x with key := ⟨0, -1⟩, ref := 0, dirty := false, busy := false }) with
      freeEntsList := c.freeEntsList.drop n
      freeEnts := c.freeEnts - ents.length }, ents)

/-! ## Lookup -/

/-- What `lookup_cache_entry` finds: a busy entry makes it drop the lock and
look again. -/
inductive Lookup where
  | null
  | busy
  | found (e : Ent)
deriving DecidableEq

def lookupCacheEntry (k : Key) : Lookup :=
  match c.cacheHashLookup k with
  | none => .null
  | some e => if (c.ent e).busy then .busy else .found e

/-! ## The device -/

/-- The blocks `xs` written from `k` on. -/
def diskWrite (disk : Key → α) (k : Key) : List α → Key → α
  | [] => disk
  | x :: xs => diskWrite (Function.update disk k x) (k.add 1) xs

end Cache

/-- A device transfer completes, or stops after `m` blocks. -/
inductive Io where
  | ok
  | stops (m : Nat)

/-- The blocks transferred of `n`. -/
def Io.count (io : Io) (n : Nat) : Nat :=
  match io with
  | .ok => n
  | .stops m => min m n

/-- What a step leaves to the outside: the device, and `malloc`. -/
structure Fate where
  io : Io
  malloc : Bool

end Melis.Sdmmc
