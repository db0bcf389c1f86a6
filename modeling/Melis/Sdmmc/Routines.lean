import Melis.Sdmmc.Cache

/-!
# The routines of the block cache

Each routine of `sdmmc_cache.c` is cut where another thread can run: where it
drops the lock, and at every device transfer made without the lock. A step
takes the routine from one cut to the next and says how it goes on: from
another cut (`wait`), with its result (`ret`), or not at all (`fault`: a failed
`RT_ASSERT` or an access through `NULL`; the state is then left as it was).
-/

namespace Melis.Sdmmc

inductive Res (φ ρ : Type) where
  | wait (f : φ)
  | ret (r : ρ)
  | fault

variable {α : Type}

namespace Cache

variable (c : Cache α)

def mark (ents : List Ent) : Cache α := c.modify ents fun x => { x with busy := true }

def unmark (ents : List Ent) : Cache α := c.modify ents fun x => { x with busy := false }

def cacheEntryCmp (a b : Ent) : Int :=
  if (c.key a).dev = (c.key b).dev then (c.key a).blockOffset - (c.key b).blockOffset
  else (c.key a).dev - (c.key b).dev

/-- `qsort` by `cache_entry_cmp`. -/
def sortEnts (ents : List Ent) : List Ent := ents.insertionSort fun a b => c.cacheEntryCmp a b ≤ 0

/-- The first `n` entries of `l` that pass the test. The test also gets the
device of the entry taken before; `none` is a failed `RT_ASSERT(0 == ent->ref)`. -/
def scan (p : Nat → Entry α → Bool) (dev : Nat) : Nat → List Ent → Option (List Ent)
  | 0, _ => some []
  | _ + 1, [] => some []
  | n + 1, e :: l =>
    if (c.ent e).ref ≠ 0 then none
    else if p dev (c.ent e) then (scan p (c.key e).dev n l).map (e :: ·)
    else scan p dev (n + 1) l

/-- Each entry taken off its list and out of the hash table, and freed. -/
def freeAll : List Ent → Cache α → Option (Cache α)
  | [], c => some c
  | e :: es, c =>
    ((c.removeFromList e).cacheHashRemove e).bind fun c => freeAll es (c.freeCacheEntry e)

/-- One more reference to an entry that was found. -/
def hit (e : Ent) : Cache α :=
  let c := c.modify [e] fun x => { x with ref := x.ref + 1 }
  if (c.ent e).ref = 1 then (c.removeFromList e).addToLockdown e else c

/-- One reference less. -/
def unhold (e : Ent) : Cache α :=
  let c := (c.modify [e] fun x => { x with ref := x.ref - 1 }).removeFromList e
  if (c.ent e).ref = 0 then c.addToReady e else c.addToLockdown e

/-! ## flush_cache_entry_list -/

/-- The blocks of a run are consecutive from its first to its last. -/
def runOk (iov : List Ent) : Bool :=
  match iov.head?, iov.getLast? with
  | some first, some prev =>
    (c.key prev).blockOffset - (c.key first).blockOffset == (iov.length : Int) - 1
  | _, _ => true

/-- `write_vector_block` of one run, and whether it succeeded. -/
def writeVectorBlock (io : Io) (iov : List Ent) : Cache α × Bool :=
  match iov with
  | [] => (c, true)
  | first :: _ =>
    let n := io.count iov.length
    ({ c with disk := diskWrite c.disk (c.key first) ((iov.take n).map fun e => (c.ent e).data) },
      n == iov.length)

/-- `ents[i - 1]` is on the same device and not before `ents[i]`. -/
def disordered (last : Option Ent) (e : Ent) : Bool :=
  match last with
  | none => false
  | some l => (c.key l).dev == (c.key e).dev && (c.key e).blockOffset ≤ (c.key l).blockOffset

end Cache

/-- In `flush_cache_entry_list`: `iov` is the run collected so far, `last` the
element of `ents` before `rest`. -/
inductive FlushList where
  | walk (ents : List Ent) (last : Option Ent) (iov rest : List Ent) (err : Bool)
  | clear (ents : List Ent) (err : Bool)

def flushCacheEntryList (ents : List Ent) : FlushList := .walk ents none [] ents false

def FlushList.ents : FlushList → List Ent
  | walk ents .. => ents
  | clear ents _ => ents

/-- The write of the run in `iov`, after which the list goes on with `next`. -/
def Cache.flushRun (c : Cache α) (io : Io) (iov : List Ent) (next : Bool → FlushList) :
    Cache α × Res FlushList Bool :=
  if c.runOk iov then
    ((c.writeVectorBlock io iov).1, .wait (next (!(c.writeVectorBlock io iov).2)))
  else (c, .ret false)

/-- The result is `true` where the source returns no negative number. -/
def FlushList.step (c : Cache α) (io : Io) : FlushList → Cache α × Res FlushList Bool
  | walk ents last iov (e :: rest) false =>
    if writebackBlocksMax < ents.length then (c, .ret false)
    else if 0 < (c.ent e).ref ∨ (c.ent e).dirty = false then
      (c, .wait (walk ents (some e) iov rest false))
    else if (c.key e).dev = 0 then (c, .fault)
    else if c.disordered last e then (c, .ret false)
    else
      match iov.getLast? with
      | none => (c, .wait (walk ents (some e) [e] rest false))
      | some prev =>
        if c.key e = (c.key prev).add 1 then
          (c, .wait (walk ents (some e) (iov ++ [e]) rest false))
        else c.flushRun io iov fun err => walk ents (some e) [e] rest err
  | walk ents _ iov _ err =>
    if iov = [] then (c, .wait (clear ents err))
    else c.flushRun io iov fun err => clear ents err
  | clear ents err =>
    (c.modify ents fun x => if x.ref = 0 then { x with dirty := false } else x, .ret (!err))

/-! ## release_cache_entrys and the write-back thread -/

/-- In `release_cache_entrys`: the entries are flushed, then the lock is taken
again. -/
inductive Release where
  | flush (f : FlushList)
  | relock (ents : List Ent) (ok : Bool)

namespace Cache

/-- The entries chosen are flushed if one of them is dirty, and freed. -/
def releaseEnts (t : Tid) (c : Cache α) (ents : List Ent) : Cache α × Res Release Int :=
  let c' := c.mark ents
  if ents.any fun e => (c'.ent e).dirty then
    (c'.unlock t, .wait (.flush (flushCacheEntryList (c'.sortEnts ents))))
  else
    match c'.freeAll ents with
    | none => (c, .fault)
    | some c => (c, .ret ents.length)

/-- `release_cache_entrys`, called with the lock held. -/
def releaseCacheEntrys (t : Tid) (c : Cache α) : Cache α × Res Release Int :=
  match c.scan (fun _ x => !x.busy && x.key.dev != 0) 0 writebackBlocksMax c.listReady.reverse with
  | none => (c, .fault)
  | some ents => c.releaseEnts t ents

/-- The two scans of a pass of the write-back thread, `undirty` for
`writeback_undirty_flag`. -/
def writebackScan (c : Cache α) (undirty : Bool) : Option (List Ent) :=
  let sameDev (dev : Nat) (x : Entry α) : Bool := dev == 0 || x.key.dev == dev
  let l := c.listReady.reverse
  (c.scan (fun dev x => !x.busy && x.dirty && sameDev dev x) 0 writebackBlocksMax l).bind
    fun ents =>
      let c := c.mark ents
      let dev := (ents.getLast?.map fun e => (c.key e).dev).getD 0
      (c.scan (fun dev x => !x.busy && (x.dirty || undirty) && sameDev dev x) dev
        (writebackBlocksMax - ents.length) l).map (ents ++ ·)

/-- A pass of `cache_writeback_thread`, called with the lock held. What follows
the flush is as in `release_cache_entrys`; `lowlevel` is 256 because the thread
starts before the heap is there. -/
def cacheWriteback (t : Tid) (c : Cache α) : Cache α × Res Release Int :=
  match c.writebackScan (decide (c.freeEnts < writebackBlocksMax)) with
  | none => (c, .fault)
  | some [] => (c, .ret 0)
  | some ents =>
    let c' := c.mark ents
    (c'.unlock t, .wait (.flush (flushCacheEntryList (c'.sortEnts ents))))

end Cache

def Release.step (t : Tid) (c : Cache α) (io : Io) :
    Release → Option (Cache α × Res Release Int)
  | flush f =>
    match f.step c io with
    | (c, .wait f) => some (c, .wait (flush f))
    | (c, .ret ok) => some (c, .wait (relock f.ents ok))
    | (c, .fault) => some (c, .fault)
  | relock ents ok =>
    (c.acquire t).map fun c =>
      if ok then
        match c.freeAll ents with
        | none => (c, .fault)
        | some c => (c, .ret ents.length)
      else (c.unmark ents, .ret (-1))

/-! ## alloc_cache_entrys -/

/-- In `alloc_cache_entrys`: at `again`, or inside `release_cache_entrys`. The
flag is `*isBlocked`. -/
inductive Alloc where
  | again (n : Nat) (blocked : Bool)
  | release (n : Nat) (blocked : Bool) (r : Release)

namespace Cache

/-- After `release_cache_entrys` returned `k`. -/
def allocReleased (n : Nat) (blocked : Bool) (k : Int) : Res Alloc (List Ent × Bool) :=
  if k ≤ 0 then .ret ([], blocked) else .wait (.again n true)

def allocAgain (t : Tid) (n : Nat) (blocked : Bool) (c : Cache α) :
    Cache α × Res Alloc (List Ent × Bool) :=
  if c.freeEnts < n then
    match c.releaseCacheEntrys t with
    | (c, .wait r) => (c, .wait (.release n blocked r))
    | (c, .ret k) => (c, allocReleased n blocked k)
    | (c, .fault) => (c, .fault)
  else if c.freeEntsList = [] then (c, .wait (.again n blocked))
  else ((c.takeFree n).1, .ret ((c.takeFree n).2, blocked))

/-- The heap is set up by the first call that finds the memory for it. -/
def ensureHeap (c : Cache α) (malloc : Bool) : Cache α :=
  if c.heap = none then c.initHeap malloc else c

/-- `alloc_cache_entrys`, called with the lock held. -/
def allocCacheEntrys (t : Tid) (n : Nat) (malloc : Bool) (c : Cache α) :
    Cache α × Res Alloc (List Ent × Bool) :=
  (c.ensureHeap malloc).allocAgain t n false

end Cache

def Alloc.step (t : Tid) (c : Cache α) (io : Io) :
    Alloc → Option (Cache α × Res Alloc (List Ent × Bool))
  | again n blocked => (c.acquire t).map (Cache.allocAgain t n blocked)
  | release n blocked r =>
    (r.step t c io).map fun
      | (c, .wait r) => (c, .wait (release n blocked r))
      | (c, .ret k) => (c, Cache.allocReleased n blocked k)
      | (c, .fault) => (c, .fault)

/-- The state in which a thread stops here. -/
def Alloc.stop (t : Tid) (c : Cache α) : Alloc → Cache α
  | release _ _ (.flush _) => c
  | _ => { c with lock := some t }

/-! ## do_get_empty_cache_entry -/

/-- In `do_get_empty_cache_entry`. -/
inductive GetEmpty where
  | lookup
  | alloc (a : Alloc)

namespace Cache

/-- The entry allocated becomes the entry of `k`. -/
def takeEmpty (k : Key) (ents : List Ent) (c : Cache α) : Cache α × Option Ent :=
  match ents with
  | [] => (c, none)
  | e :: _ =>
    ((((c.modify [e] fun x => { x with key := k, busy := false, ref := x.ref + 1 }).cacheHashInsert
      e).addToLockdown e), some e)

def emptyAlloced (k : Key) :
    Cache α × Res Alloc (List Ent × Bool) → Cache α × Res GetEmpty (Option Ent)
  | (c, .wait a) => (c, .wait (.alloc a))
  | (c, .ret (ents, _)) => ((c.takeEmpty k ents).1, .ret (c.takeEmpty k ents).2)
  | (c, .fault) => (c, .fault)

/-- `do_get_empty_cache_entry`, called with the lock held. -/
def doGetEmptyCacheEntry (t : Tid) (k : Key) (malloc : Bool) (c : Cache α) :
    Cache α × Res GetEmpty (Option Ent) :=
  match c.lookupCacheEntry k with
  | .busy => (c.unlock t, .wait .lookup)
  | .found e => (c.hit e, .ret (some e))
  | .null => emptyAlloced k (c.allocCacheEntrys t 1 malloc)

end Cache

def GetEmpty.step (t : Tid) (k : Key) (c : Cache α) (fate : Fate) :
    GetEmpty → Option (Cache α × Res GetEmpty (Option Ent))
  | lookup => (c.acquire t).map (Cache.doGetEmptyCacheEntry t k fate.malloc)
  | alloc a => (a.step t c fate.io).map (Cache.emptyAlloced k)

/-! ## get_block -/

/-- In `get_block`: `off` is `block_offset`, moved back by the read-ahead, `cnt`
is `rw_cnt`. -/
inductive GetBlock where
  | start
  | alloc (off : Int) (cnt : Nat) (a : Alloc)
  | read (off : Int) (ents : List Ent)
  | finish (off : Int) (ents : List Ent) (ok : Bool)

namespace Cache

/-- `rw_cnt` after the first loop of the read-ahead: the blocks behind `k` that
are not cached. -/
def ahead (c : Cache α) (k : Key) : Nat → Nat → Nat
  | 0, cnt => cnt
  | left + 1, cnt =>
    if (c.cacheHashLookup (k.add cnt)).isSome then cnt else ahead c k left (cnt + 1)

/-- `block_offset` and `rw_cnt` after the second loop: the blocks before. -/
def behind (c : Cache α) (dev : Nat) : Nat → Int → Nat → Int × Nat
  | 0, off, cnt => (off, cnt)
  | left + 1, off, cnt =>
    if off ≤ 0 then (off, cnt)
    else if (c.cacheHashLookup ⟨dev, off - 1⟩).isSome then (off, cnt)
    else behind c dev left (off - 1) (cnt + 1)

/-- The blocks to read along with `k`, at most `max`. -/
def readahead (c : Cache α) (k : Key) (max : Nat) : Int × Nat :=
  let cnt := c.ahead k (max - 1) 1
  c.behind k.dev (max - cnt) k.blockOffset cnt

/-- The range cut to the `n` entries there are. -/
def cutRange (req : Int) (n : Nat) (r : Int × Nat) : Int × Nat :=
  if n < r.2 then
    if (n : Int) ≤ r.1 + r.2 - req then (req, n)
    else (req + (r.1 + r.2 - req) - n, n)
  else r

/-- `protected_ent` stands for `k` in the hash table while the lock may be dropped. -/
def insertProtected (t : Tid) (k : Key) (c : Cache α) : Cache α :=
  (c.modify [.guard t] fun x => ⟨k, false, true, 0, x.data⟩).cacheHashInsert (.guard t)

def removeProtected (t : Tid) (c : Cache α) : Option (Cache α) :=
  (c.cacheHashRemove (.guard t)).map fun c => { c with hist := .release (.guard t) :: c.hist }

/-- The entries become the entries of the blocks from `off` on, busy until they
are read. -/
def insertBlocks (req : Key) : Int → List Ent → Cache α → Cache α
  | _, [], c => c
  | off, e :: es, c =>
    let c := (c.modify [e] fun x => { x with key := ⟨req.dev, off⟩, busy := true }).cacheHashInsert e
    insertBlocks req (off + 1) es <|
      if off = req.blockOffset then
        (c.modify [e] fun x => { x with ref := x.ref + 1 }).addToLockdown e
      else c.addToReady e

/-- `get_block` once `alloc_cache_entrys` returned; `c₀` is the state to stop in.
Without an entry it returns with the lock still held. -/
def getAlloced (t : Tid) (k : Key) (off : Int) (cnt : Nat) (ents : List Ent) (blocked : Bool)
    (c c₀ : Cache α) : Cache α × Res GetBlock (Option Ent) :=
  match c.removeProtected t with
  | none => (c₀, .fault)
  | some c =>
    if ents = [] then (c, .ret none)
    else
      let r := cutRange k.blockOffset ents.length
        (if blocked then c.readahead k ents.length else (off, cnt))
      let c := (ents.drop r.2).foldl freeCacheEntry c
      (((c.insertBlocks k r.1 (ents.take r.2)).unlock t), .wait (.read r.1 (ents.take r.2)))

def blockAlloced (c₀ : Cache α) (t : Tid) (k : Key) (off : Int) (cnt : Nat) :
    Cache α × Res Alloc (List Ent × Bool) → Cache α × Res GetBlock (Option Ent)
  | (c, .wait a) => (c, .wait (.alloc off cnt a))
  | (c, .ret (ents, blocked)) => c.getAlloced t k off cnt ents blocked c₀
  | (_, .fault) => (c₀, .fault)

/-- `get_block` from the lookup on, with the lock held. -/
def getLookup (t : Tid) (k : Key) (malloc : Bool) (c : Cache α) :
    Cache α × Res GetBlock (Option Ent) :=
  match c.lookupCacheEntry k with
  | .busy => (c.unlock t, .wait .start)
  | .found e => ((c.hit e).unlock t, .ret (some e))
  | .null =>
    let r := c.readahead k (cacheReadaheadSize / blockSize)
    blockAlloced c t k r.1 r.2 ((c.insertProtected t k).allocCacheEntrys t r.2 malloc)

/-- The device's blocks from `k` on copied into the entries. -/
def loadBlocks : Key → List Ent → Cache α → Cache α
  | _, [], c => c
  | k, e :: es, c => loadBlocks (k.add 1) es (c.modify [e] fun x => { x with data := c.disk k })

/-- `read_cache_entry_list`; `none` is a failed `RT_ASSERT`. -/
def readCacheEntryList (k : Key) (ents : List Ent) (io : Io) (c : Cache α) :
    Option (Cache α × Bool) :=
  if ents.length ≤ writebackBlocksMax ∧ ∀ e ∈ ents, (c.ent e).busy = true ∧ (c.ent e).dirty = false then
    let n := io.count ents.length
    some (c.loadBlocks k (ents.take n), n == ents.length)
  else none

/-- The blocks that could not be read leave the cache. -/
def dropBlocks (req : Key) : Int → List Ent → Cache α → Option (Cache α)
  | _, [], c => some c
  | off, e :: es, c =>
    (c.modify [e] fun x => { x with key := ⟨req.dev, off⟩, busy := false }).cacheHashRemove e |>.bind
      fun c =>
        let c := if off = req.blockOffset then c.modify [e] fun x => { x with ref := 0 } else c
        dropBlocks req (off + 1) es (c.removeFromList e)

end Cache

def GetBlock.step (t : Tid) (k : Key) (c : Cache α) (fate : Fate) :
    GetBlock → Option (Cache α × Res GetBlock (Option Ent))
  | start =>
    if k.dev = 0 then some (c, .ret none)
    else (c.acquire t).map (Cache.getLookup t k fate.malloc)
  | alloc off cnt a =>
    (a.step t c fate.io).map (Cache.blockAlloced (a.stop t c) t k off cnt)
  | read off ents =>
    match c.readCacheEntryList ⟨k.dev, off⟩ ents fate.io with
    | none => some (c, .fault)
    | some (c, ok) => some (c, .wait (finish off ents ok))
  | finish off ents ok =>
    (c.acquire t).map fun c =>
      if ok then ((c.unmark ents).unlock t, .ret (ents.find? fun e => c.key e = k))
      else
        match c.dropBlocks k off ents with
        | none => (c, .fault)
        | some c => ((ents.foldl Cache.freeCacheEntry c).unlock t, .ret none)

end Melis.Sdmmc
