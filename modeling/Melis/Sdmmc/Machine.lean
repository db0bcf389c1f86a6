import Melis.Lib.Run
import Melis.Sdmmc.Routines

/-!
# Threads over the block cache

Every thread makes one call of the cache after another. `Pc` says where a
thread is in its call; an input of the machine lets one thread start a call, or
go on to its next cut. A thread that needs the lock waits while another has it.
-/

namespace Melis.Sdmmc

open Lib

variable {α : Type}

/-- The calls of the driver and of the write-back thread. `evict` is
`release_cache_entrys` on its own; the buffers give the block count. -/
inductive Call (α : Type) where
  | read (k : Key) (buf : List α)
  | write (k : Key) (data : List α)
  | flush (wait : Bool)
  | getBlock (k : Key)
  | putBlock (k : Key)
  | evict
  | writeback
  | discard

/-- What a call returned. -/
inductive Ret (α : Type) where
  | none
  | status (ok : Bool)
  | block (e : Option Ent)
  | read (ok : Bool) (buf : List α)

/-- In the loop of `sdmmc_cache_read`. -/
inductive ReadBlock where
  | lookup
  | get (g : GetBlock)
  | copy (e : Ent)
  | put

/-- In the loop of `sdmmc_cache_write`. -/
inductive WriteBlock where
  | lookup
  | empty (g : GetEmpty)

/-- In `flush_block_cache`. Its array holds `new`, the entries this round has
made busy, and `old`, the others, which an earlier round left in it. -/
inductive Flush where
  | scan (old new : List Ent) (pos : Option Ent)
  | batch (old new : List Ent) (e : Ent) (f : FlushList)
  | batchDone (old new : List Ent) (e : Ent)
  | last (old new : List Ent) (f : FlushList)
  | lastDone (old new : List Ent)
  | check (old : List Ent)

/-- Where a thread is. `held` are the entries a stopped thread left busy. -/
inductive Pc (α : Type) where
  | idle (r : Ret α)
  | halt (held : List Ent)
  | get (k : Key) (g : GetBlock)
  | put (k : Key)
  | read (k : Key) (buf : List α) (i : Nat) (r : ReadBlock)
  | readPhys (k : Key) (buf : List α)
  | readPatch (k : Key) (buf : List α) (i : Nat) (ok : Bool)
  | write (k : Key) (data : List α) (i : Nat) (w : WriteBlock)
  | writePhys (k : Key) (data : List α)
  | writePatch (k : Key) (data : List α) (i : Nat) (ok : Bool)
  | flush (wait : Bool) (f : Flush)
  | evict
  | writeback
  | release (r : Release)
  | discard

def Call.start : Call α → Pc α
  | read k buf =>
    if cacheDirectlySize < buf.length * blockSize then .readPhys k buf
    else .read k buf 0 .lookup
  | write k data =>
    if cacheDirectlySize < data.length * blockSize then .writePhys k data
    else .write k data 0 .lookup
  | flush wait => .flush wait (.scan [] [] none)
  | getBlock k => .get k .start
  | putBlock k => .put k
  | evict => .evict
  | writeback => .writeback
  | discard => .discard

/-! ## The entries a thread has made busy -/

def Release.held : Release → List Ent
  | flush f => f.ents
  | relock ents _ => ents

def Alloc.held : Alloc → List Ent
  | again .. => []
  | release _ _ r => r.held

def GetEmpty.held : GetEmpty → List Ent
  | lookup => []
  | alloc a => a.held

def GetBlock.held (t : Tid) : GetBlock → List Ent
  | start => []
  | alloc _ _ a => .guard t :: a.held
  | read _ ents => ents
  | finish _ ents _ => ents

def Flush.held : Flush → List Ent
  | scan _ new _ => new
  | batch _ new e _ => new ++ [e]
  | batchDone _ new e => new ++ [e]
  | last _ new _ => new
  | lastDone _ new => new
  | check _ => []

def Pc.held (t : Tid) : Pc α → List Ent
  | halt held => held
  | get _ g => g.held t
  | read _ _ _ (.get g) => g.held t
  | write _ _ _ (.empty g) => g.held
  | flush _ f => f.held
  | release r => r.held
  | _ => []

/-! ## The calls -/

namespace Cache

variable (c : Cache α)

/-- The copy of a cached block; a clean entry moves to the head of its list. -/
def touch (e : Ent) : Cache α :=
  if (c.ent e).dirty then c
  else if (c.ent e).ref = 0 then (c.removeFromList e).addToReady e
  else (c.removeFromList e).addToLockdown e

/-- `x` stored in the entry, which is then dirty. -/
def store (e : Ent) (x : α) : Cache α :=
  c.modify [e] fun y => { y with data := x, dirty := true }

/-- The dirty entries of `l` for the `n` places left in the array; `some e` is
the entry found when there is no place left. -/
def flushScan : Nat → List Ent → Option (List Ent × Option Ent)
  | _, [] => some ([], none)
  | n, e :: l =>
    if (c.ent e).ref ≠ 0 then none
    else if (c.ent e).busy || !(c.ent e).dirty then flushScan n l
    else
      match n with
      | 0 => some ([], some e)
      | n + 1 => (flushScan n l).map fun r => (e :: r.1, r.2)

/-- The ready list from its tail, or from before `pos` on. -/
def flushRest (pos : Option Ent) : Option (List Ent) :=
  match pos with
  | none => some c.listReady.reverse
  | some e =>
    if e ∈ c.listReady then some (c.listReady.takeWhile (· ≠ e)).reverse else none

/-- `discard_block_cache` with the lock held. -/
def discardBlockCache : Option (Cache α) :=
  ((c.freeAll c.listReady).bind fun c => c.freeAll c.listLockdown).map fun c =>
    { c with hashTable := none }

end Cache

/-- `put_block`; `none` in the result is a failed `RT_ASSERT`. -/
def putBlock (t : Tid) (k : Key) (c : Cache α) : Cache α × Res Unit Unit :=
  match c.lookupCacheEntry k with
  | .busy => (c.unlock t, .wait ())
  | .null => (c.unlock t, .ret ())
  | .found e =>
    if (c.ent e).ref = 0 then (c, .fault) else ((c.unhold e).unlock t, .ret ())

/-- The pc after a step of a routine: it waits at `w`, or the call goes on at
`r`, or the thread stops and keeps what it held. -/
def Res.pc {φ ρ : Type} (held : List Ent) (w : φ → Pc α) (r : ρ → Pc α) : Res φ ρ → Pc α
  | wait f => w f
  | ret x => r x
  | fault => .halt held

/-- One block of `sdmmc_cache_read`. -/
def ReadBlock.step (t : Tid) (k : Key) (buf : List α) (i : Nat) (c : Cache α) (fate : Fate) :
    ReadBlock → Option (Cache α × Pc α)
  | lookup =>
    if buf.length ≤ i then some (c, .idle (.read true buf))
    else
      (c.acquire t).map fun c =>
        match c.lookupCacheEntry (k.add i) with
        | .busy => (c.unlock t, .read k buf i lookup)
        | .found e =>
          ((c.touch e).unlock t, .read k (buf.set i (c.ent e).data) (i + 1) lookup)
        | .null => (c.unlock t, .read k buf i (get .start))
  | get g =>
    (g.step t (k.add i) c fate).map fun p =>
      (p.1, p.2.pc (g.held t) (fun g => .read k buf i (get g)) fun
        | none => .idle (.read false buf)
        | some e => .read k buf i (copy e))
  | copy e => some (c, .read k (buf.set i (c.ent e).data) i put)
  | put =>
    if k.dev = 0 then some (c, .read k buf (i + 1) lookup)
    else
      (c.acquire t).map fun c =>
        ((putBlock t (k.add i) c).1,
          (putBlock t (k.add i) c).2.pc [] (fun _ => .read k buf i put) fun _ =>
            .read k buf (i + 1) lookup)

/-- The entry for a block of `sdmmc_cache_write` gets its data and loses the
reference again. -/
def writeEmpty (t : Tid) (k : Key) (data : List α) (i : Nat) (x : α) (g : GetEmpty) :
    Cache α × Res GetEmpty (Option Ent) → Cache α × Pc α
  | (c, .wait g) => (c, .write k data i (.empty g))
  | (c, .ret none) => (c.unlock t, .idle (.status false))
  | (c, .ret (some e)) =>
    if (c.ent e).ref = 0 then (c, .halt [])
    else ((c.store e x).unhold e, .write k data (i + 1) .lookup)
  | (c, .fault) => (c, .halt g.held)

/-- One block of `sdmmc_cache_write`, which keeps the lock from block to block. -/
def WriteBlock.step (t : Tid) (k : Key) (data : List α) (i : Nat) (c : Cache α) (fate : Fate) :
    WriteBlock → Option (Cache α × Pc α)
  | lookup =>
    (c.acquire t).map fun c =>
      match data[i]? with
      | none => (c.unlock t, .idle (.status true))
      | some x =>
        match c.lookupCacheEntry (k.add i) with
        | .busy => (c.unlock t, .write k data i lookup)
        | .found e => (c.store e x, .write k data (i + 1) lookup)
        | .null =>
          writeEmpty t k data i x .lookup (c.doGetEmptyCacheEntry t (k.add i) fate.malloc)
  | empty g =>
    data[i]?.bind fun x => (g.step t (k.add i) c fate).map (writeEmpty t k data i x g)

/-- One block of the loop that ends `read_phys_blocks`. -/
def readPatchStep (t : Tid) (k : Key) (buf : List α) (i : Nat) (ok : Bool) (c : Cache α) :
    Option (Cache α × Pc α) :=
  (c.acquire t).map fun c =>
    if buf.length ≤ i then (c.unlock t, .idle (.read ok buf))
    else
      match c.lookupCacheEntry (k.add i) with
      | .busy => (c.unlock t, .readPatch k buf i ok)
      | .null => (c, .readPatch k buf (i + 1) ok)
      | .found e =>
        (c.modify [e] fun x => { x with dirty := false },
          .readPatch k (buf.set i (c.ent e).data) (i + 1) ok)

/-- One block of the loop that ends `write_phys_blocks`. -/
def writePatchStep (t : Tid) (k : Key) (data : List α) (i : Nat) (ok : Bool) (c : Cache α) :
    Option (Cache α × Pc α) :=
  (c.acquire t).map fun c =>
    match data[i]? with
    | none => (c.unlock t, .idle (.status ok))
    | some x =>
      match c.lookupCacheEntry (k.add i) with
      | .busy => (c.unlock t, .writePatch k data i ok)
      | .null => (c, .writePatch k data (i + 1) ok)
      | .found e =>
        (c.modify [e] fun y => { y with data := x, dirty := false },
          .writePatch k data (i + 1) ok)

/-- The device transfer of `read_phys_blocks`, made without the lock. -/
def readPhysStep (k : Key) (buf : List α) (c : Cache α) (io : Io) : Cache α × Pc α :=
  let n := io.count buf.length
  if k.dev = 0 ∨ n = 0 then (c, .idle (.read false buf))
  else
    (c, .readPatch k (((List.range n).map fun j => c.disk (k.add j)) ++ buf.drop n) 0
      (n == buf.length))

/-- The device transfer of `write_phys_blocks`, made without the lock. -/
def writePhysStep (k : Key) (data : List α) (c : Cache α) (io : Io) : Cache α × Pc α :=
  let n := io.count data.length
  if k.dev = 0 then (c, .idle (.status false))
  else if n = 0 then (c, .idle (.status false))
  else
    ({ c with disk := Cache.diskWrite c.disk k (data.take n) },
      .writePatch k data 0 (n == data.length))

/-- A round of `flush_block_cache` up to its next flush. -/
def flushScanStep (t : Tid) (wait : Bool) (old new : List Ent) (pos : Option Ent) (c : Cache α) :
    Cache α × Pc α :=
  match (c.flushRest pos).bind (c.flushScan (writebackBlocksMax - (old ++ new).length)) with
  | none => (c, .halt new)
  | some (picked, some e) =>
    let c := c.mark (picked ++ [e])
    (c.unlock t, .flush wait (.batch old (new ++ picked) e
      (flushCacheEntryList (c.sortEnts (old ++ (new ++ picked))))))
  | some (picked, none) =>
    let c := c.mark picked
    if old ++ (new ++ picked) = [] then (c.unlock t, .flush wait (.check []))
    else
      (c.unlock t, .flush wait (.last old (new ++ picked)
        (flushCacheEntryList (c.sortEnts (old ++ (new ++ picked))))))

/-- `flush_block_cache`. The result of `flush_cache_entry_list` is not used, and
the index into the array is not reset when the call starts over. -/
def Flush.step (t : Tid) (wait : Bool) (c : Cache α) (io : Io) :
    Flush → Option (Cache α × Pc α)
  | scan old new pos => (c.acquire t).map (flushScanStep t wait old new pos)
  | batch old new e f =>
    some ((f.step c io).1, (f.step c io).2.pc (new ++ [e])
      (fun f => .flush wait (batch old new e f)) fun _ => .flush wait (batchDone old new e))
  | batchDone old new e =>
    (c.acquire t).map fun c =>
      (c.unmark (old ++ new),
        .flush wait (if e ∈ old then scan [e] [] (some e) else scan [] [e] (some e)))
  | last old new f =>
    some ((f.step c io).1, (f.step c io).2.pc new
      (fun f => .flush wait (last old new f)) fun _ => .flush wait (lastDone old new))
  | lastDone old new =>
    (c.acquire t).map fun c =>
      ((c.unmark (old ++ new)).unlock t, .flush wait (check (old ++ new)))
  | check old =>
    (c.acquire t).map fun c =>
      if wait ∧ c.listLockdown ≠ [] then (c.unlock t, .flush wait (scan old [] none))
      else (c.unlock t, .idle (.status true))

/-- An eviction or a pass of the write-back thread: the lock is dropped when it
is done. -/
def releaseDone (t : Tid) (held : List Ent) (p : Cache α × Res Release Int) : Cache α × Pc α :=
  match p with
  | (c, .wait r) => (c, .release r)
  | (c, .ret _) => (c.unlock t, .idle (.status true))
  | (c, .fault) => (c, .halt held)

/-- The step of thread `t`; `none` while it waits for the lock. -/
def Pc.step (t : Tid) (c : Cache α) (fate : Fate) : Pc α → Option (Cache α × Pc α)
  | idle _ => none
  | halt _ => none
  | get k g =>
    (g.step t k c fate).map fun p =>
      (p.1, p.2.pc (g.held t) (fun g => get k g) fun e => idle (.block e))
  | put k =>
    if k.dev = 0 then some (c, idle (.status false))
    else
      (c.acquire t).map fun c =>
        ((putBlock t k c).1, (putBlock t k c).2.pc [] (fun _ => put k) fun _ => idle (.status true))
  | read k buf i r => r.step t k buf i c fate
  | readPhys k buf => some (readPhysStep k buf c fate.io)
  | readPatch k buf i ok => readPatchStep t k buf i ok c
  | write k data i w => w.step t k data i c fate
  | writePhys k data => some (writePhysStep k data c fate.io)
  | writePatch k data i ok => writePatchStep t k data i ok c
  | flush wait f => f.step t wait c fate.io
  | evict => (c.acquire t).map fun c => releaseDone t [] (c.releaseCacheEntrys t)
  | writeback => (c.acquire t).map fun c => releaseDone t [] (c.cacheWriteback t)
  | release r => (r.step t c fate.io).map (releaseDone t r.held)
  | discard =>
    if c.hashTable = none then some (c, idle (.status true))
    else
      (c.acquire t).map fun c =>
        match c.discardBlockCache with
        | none => (c, halt [])
        | some c => (c.unlock t, idle (.status true))

/-! ## The machine -/

structure State (α : Type) where
  cache : Cache α
  pc : Tid → Pc α

def State.held (s : State α) (t : Tid) : List Ent := (s.pc t).held t

inductive Act (α : Type) where
  | call (x : Call α)
  | go (fate : Fate)

structure Input (α : Type) where
  tid : Tid
  act : Act α

def next (s : State α) (i : Input α) : Option (State α) :=
  match i.act with
  | .call x =>
    match s.pc i.tid with
    | .idle _ => some { s with pc := Function.update s.pc i.tid x.start }
    | _ => none
  | .go fate =>
    ((s.pc i.tid).step i.tid s.cache fate).map fun p =>
      { cache := p.1, pc := Function.update s.pc i.tid p.2 }

abbrev machine (α : Type) : Machine (State α) (Input α) := ⟨next⟩

/-- After `block_cache_manager_init(cache_heap_size)`, over the device's content
`disk` and whatever `mem` is in memory. -/
def init (cacheHeapSize : Nat) (disk : Key → α) (mem : Ent → Entry α) : State α where
  cache :=
    { ent := mem
      listReady := []
      listLockdown := []
      hashTable := some fun _ => []
      lock := none
      cacheHeapSize := cacheHeapSize
      heap := none
      freeEnts := 0
      freeEntsList := []
      disk := disk
      hist := [] }
  pc := fun _ => .idle .none

end Melis.Sdmmc
