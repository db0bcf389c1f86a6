import Melis.FsWriter.Stream
import Melis.Lib.Ring
import Melis.Lib.Run

/-!
# The writer with a thread

The muxer's writes go into a ring without a lock: the muxer moves the write
pointer, the thread hands whole blocks to the stream and moves the read pointer.
A flush asks the thread for the rest. The machine here interleaves the two; a
step reads or writes one of the fields they share, or calls the stream, or does
one operation of a semaphore.
-/

namespace Melis.FsWriter

open Lib Function

/-- `WRITE_BLOCK_SIZE`. -/
def writeBlockSize : Nat := 128 * 1024

/-- What the thread hands over bytes for. -/
inductive Stage where
  | loop
  | flush
  | exit
deriving DecidableEq

/-- Where the thread is. `hand` hands the `n` bytes from `rd` on to the stream,
and has `rest` more to hand over from `newRd` on, the pointer it stores next. -/
inductive Thread where
  | down
  | loop
  | hand (stage : Stage) (rd n newRd rest : Nat)
  | store (stage : Stage) (newRd rest : Nat)
  | signal (stage : Stage) (newRd rest : Nat)
  | lock
  | flag
  | flushLook
  | reset
  | up
  | clear
  | unlock
  | exit
  | exitLook
  | done
deriving DecidableEq

/-- Where the muxer is. From `load` to `wait` it is in a write of `buf`; from
`flush` on in call `c`, which flushes first; from `exit` on it destroys the
writer. -/
inductive Client (β : Type) where
  | idle
  | load (buf : List β)
  | copy (buf : List β) (wt section2 newWt freeSize : Nat)
  | publish (buf : List β) (newWt freeSize : Nat)
  | notify (buf : List β) (freeSize : Nat)
  | kick (buf : List β)
  | enter (buf : List β)
  | wait (buf : List β)
  | flush (c : Call β)
  | flushLock (c : Call β)
  | flushSet (c : Call β)
  | flushUp (c : Call β)
  | flushUnlock (c : Call β)
  | flushDown (c : Call β)
  | flushCheck (c : Call β)
  | after (c : Call β) (r : Int)
  | exit
  | exitUp
  | exitJoin
  | destroyed
deriving DecidableEq

/-- `FsCacheThreadContext`. A pointer is its distance from `mpCache`; the lock
says whether it is taken, a semaphore is its value. -/
structure CacheThread (σ β : Type) where
  stream : Stream σ β
  cache : Nat → β
  cacheSize : Nat
  threadExitFlag : Bool
  writePtr : Nat
  readPtr : Nat
  writeStartSem : Nat
  flushFlag : Bool
  flushLock : Bool
  flushDoneSem : Nat

/-- `accepted` are the bytes behind which the write pointer was moved, `handed`
those handed to the stream. -/
structure State (σ β : Type) where
  ctx : CacheThread σ β
  client : Client β
  thread : Thread
  accepted : List β
  handed : List β

variable {σ β : Type}

/-- `cdx_sem_up_unique`. -/
def semUpUnique (v : Nat) : Nat := if v = 0 then 1 else v

def memcpy (cache : Nat → β) (p : Nat) : List β → Nat → β
  | [] => cache
  | x :: xs => memcpy (update cache p x) (p + 1) xs

/-- The second section that is free, and the free size. -/
def freeSections (size rd wt : Nat) : Nat × Nat :=
  if rd ≤ wt then
    let section1 := rd
    let section2 := size - wt
    if 0 < section1 then (section2, section1 - 1 + section2)
    else if 0 < section2 then (section2 - 1, section1 + (section2 - 1))
    else (section2, section1 + section2)
  else (rd - wt - 1, rd - wt - 1)

/-- Where the write pointer goes. -/
def nextWritePtr (size rd wt section2 n : Nat) : Nat :=
  if rd ≤ wt then
    if n ≤ section2 then if wt + n = size then 0 else wt + n
    else n - section2
  else wt + n

/-- The bytes of a write, in one or two pieces. -/
def place (cache : Nat → β) (wt section2 : Nat) (buf : List β) : Nat → β :=
  if buf.length ≤ section2 then memcpy cache wt buf
  else memcpy (memcpy cache wt (buf.take section2)) 0 (buf.drop section2)

/-- The whole blocks up to the end of the ring. -/
def loopLook (size rd wt : Nat) : Thread :=
  if rd ≤ wt then
    let n := writeBlockSize * ((wt - rd) / writeBlockSize)
    if 0 < (wt - rd) / writeBlockSize then .hand .loop rd n (rd + n) 0 else .lock
  else
    let n := writeBlockSize * ((size - rd) / writeBlockSize)
    if 0 < (size - rd) / writeBlockSize then
      .hand .loop rd n (if rd + n = size then 0 else rd + n) 0
    else .hand .loop rd (size - rd) 0 0

/-- The thread once everything is handed over. -/
def Stage.next : Stage → Thread
  | loop => .loop
  | flush => .reset
  | exit => .done

/-- Everything, in one or two pieces. -/
def lookAll (stage : Stage) (size rd wt : Nat) : Thread :=
  if rd ≤ wt then
    if 0 < wt - rd then .hand stage rd (wt - rd) (rd + (wt - rd)) 0 else stage.next
  else if 0 < size - rd then .hand stage rd (size - rd) 0 wt
  else if 0 < wt then .hand stage rd wt (rd + wt) 0
  else stage.next

namespace State

variable (S : StreamOps σ β) (s : State σ β)

def ret (c : Call β) (r : Int) : State σ β :=
  { s with client := .idle, ctx := { s.ctx with stream := s.ctx.stream.ret c r } }

/-- A call begins. A write of nothing returns at once. -/
def call (c : Call β) : Option (State σ β) :=
  match s.client, c with
  | .idle, .write [] => some (s.ret (.write []) 0)
  | .idle, .write buf => some { s with client := .load buf }
  | .idle, c => some { s with client := .flush c }
  | _, _ => none

/-- The rest of a call that has flushed. -/
def finish (c : Call β) (r : Int) : State σ β :=
  match c with
  | .seek nOffset fromWhere =>
    let x := s.ctx.stream.seek S nOffset fromWhere
    { s with ctx := { s.ctx with stream := x.1 } }.ret c x.2
  | .tell =>
    let x := s.ctx.stream.tell S
    { s with ctx := { s.ctx with stream := x.1 } }.ret c x.2
  | .truncate nLength =>
    let x := s.ctx.stream.truncate S nLength
    { s with ctx := { s.ctx with stream := x.1 } }.ret c x.2
  | c => s.ret c r

/-- A step of the muxer, inside of a call; `none` where it is blocked. -/
def clientStep : Option (State σ β) :=
  match s.client with
  | .idle => none
  | .load buf =>
    let free := freeSections s.ctx.cacheSize s.ctx.readPtr s.ctx.writePtr
    if buf.length ≤ free.2 then
      some
        { s with
          client := .copy buf s.ctx.writePtr free.1
            (nextWritePtr s.ctx.cacheSize s.ctx.readPtr s.ctx.writePtr free.1 buf.length) free.2 }
    else some { s with client := .kick buf }
  | .copy buf wt section2 newWt freeSize =>
    some
      { s with
        client := .publish buf newWt freeSize
        ctx := { s.ctx with cache := place s.ctx.cache wt section2 buf } }
  | .publish buf newWt freeSize =>
    some
      { s with
        client := .notify buf freeSize
        ctx := { s.ctx with writePtr := newWt }
        accepted := s.accepted ++ buf }
  | .notify buf freeSize =>
    some
      ({ s with
          ctx := { s.ctx with
            writeStartSem :=
              if writeBlockSize ≤ s.ctx.cacheSize - (freeSize + 1 - buf.length)
              then semUpUnique s.ctx.writeStartSem else s.ctx.writeStartSem } }.ret
        (.write buf) buf.length)
  | .kick buf =>
    some
      { s with
        client := .enter buf
        ctx := { s.ctx with writeStartSem := semUpUnique s.ctx.writeStartSem } }
  | .enter buf => some { s with client := .wait buf }
  | .wait _ => none
  | .flush c =>
    if s.ctx.readPtr = s.ctx.writePtr then some { s with client := .after c 0 }
    else some { s with client := .flushLock c }
  | .flushLock c =>
    if s.ctx.flushLock then none
    else some { s with client := .flushSet c, ctx := { s.ctx with flushLock := true } }
  | .flushSet c =>
    some { s with client := .flushUp c, ctx := { s.ctx with flushFlag := true } }
  | .flushUp c =>
    some
      { s with
        client := .flushUnlock c
        ctx := { s.ctx with writeStartSem := semUpUnique s.ctx.writeStartSem } }
  | .flushUnlock c =>
    some { s with client := .flushDown c, ctx := { s.ctx with flushLock := false } }
  | .flushDown c =>
    if s.ctx.flushDoneSem = 0 then none
    else
      some
        { s with
          client := .flushCheck c
          ctx := { s.ctx with flushDoneSem := s.ctx.flushDoneSem - 1 } }
  | .flushCheck c =>
    some { s with client := .after c (if s.ctx.readPtr ≠ s.ctx.writePtr then -1 else 0) }
  | .after c r => some (s.finish S c r)
  | .exit => some { s with client := .exitUp, ctx := { s.ctx with threadExitFlag := true } }
  | .exitUp =>
    some
      { s with
        client := .exitJoin
        ctx := { s.ctx with writeStartSem := semUpUnique s.ctx.writeStartSem } }
  | .exitJoin => if s.thread = .done then some { s with client := .destroyed } else none
  | .destroyed => none

/-- A step of the thread; `none` where it is blocked. The thread looks at the
pointers once before its loop, only to print them. -/
def threadStep : Option (State σ β) :=
  match s.thread with
  | .down =>
    if s.ctx.writeStartSem = 0 then none
    else
      some
        { s with
          thread := .loop
          ctx := { s.ctx with writeStartSem := s.ctx.writeStartSem - 1 } }
  | .loop => some { s with thread := loopLook s.ctx.cacheSize s.ctx.readPtr s.ctx.writePtr }
  | .hand stage rd n newRd rest =>
    let buf := (List.range n).map fun i => s.ctx.cache (rd + i)
    some
      { s with
        thread := .store stage newRd rest
        ctx := { s.ctx with stream := (fileWriter S s.ctx.stream buf).1 }
        handed := s.handed ++ buf }
  | .store stage newRd rest =>
    some { s with thread := .signal stage newRd rest, ctx := { s.ctx with readPtr := newRd } }
  | .signal stage newRd rest =>
    -- the signal is lost unless the muxer waits for it
    some
      { s with
        thread := if 0 < rest then .hand stage newRd rest (newRd + rest) 0 else stage.next
        client := match s.client with
          | .wait buf => .load buf
          | c => c }
  | .lock =>
    if s.ctx.flushLock then none
    else some { s with thread := .flag, ctx := { s.ctx with flushLock := true } }
  | .flag => some { s with thread := if s.ctx.flushFlag then .flushLook else .unlock }
  | .flushLook =>
    some { s with thread := lookAll .flush s.ctx.cacheSize s.ctx.readPtr s.ctx.writePtr }
  | .reset =>
    some
      { s with
        thread := .up
        ctx := if s.ctx.readPtr = s.ctx.writePtr then { s.ctx with readPtr := 0, writePtr := 0 }
          else s.ctx }
  | .up =>
    some { s with thread := .clear, ctx := { s.ctx with flushDoneSem := s.ctx.flushDoneSem + 1 } }
  | .clear => some { s with thread := .unlock, ctx := { s.ctx with flushFlag := false } }
  | .unlock => some { s with thread := .exit, ctx := { s.ctx with flushLock := false } }
  | .exit => some { s with thread := if s.ctx.threadExitFlag then .exitLook else .down }
  | .exitLook =>
    some { s with thread := lookAll .exit s.ctx.cacheSize s.ctx.readPtr s.ctx.writePtr }
  | .done => none

end State

/-- What happens next. `wake` ends a wait without a signal. -/
inductive Input (β : Type) where
  | call (c : Call β)
  | destroy
  | client
  | thread
  | wake

def next (S : StreamOps σ β) (s : State σ β) : Input β → Option (State σ β)
  | .call c => s.call c
  | .destroy =>
    match s.client with
    | .idle => some { s with client := .exit }
    | _ => none
  | .client => s.clientStep S
  | .thread => s.threadStep S
  | .wake =>
    match s.client with
    | .wait buf => some { s with client := .load buf }
    | _ => none

abbrev cacheThread (S : StreamOps σ β) : Machine (State σ β) (Input β) := ⟨next S⟩

/-- `initFsCacheThreadContext`, where the memory and the thread are there;
`cache` is what the memory holds. -/
def initFsCacheThreadContext (stream : Stream σ β) (cache : Nat → β) (nCacheSize : Nat) :
    State σ β :=
  ⟨⟨stream, cache, nCacheSize, false, 0, 0, 0, false, false, 0⟩, .idle, .down, [], []⟩

end Melis.FsWriter
