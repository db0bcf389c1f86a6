import Melis.Lib.C
import Melis.Lib.Memory
import Melis.Lib.Run

/-!
# The cache of packets before a recording

The recorder keeps the packets of the last seconds in a list of data buffers,
which it uses as one ring: a packet lies in one or two pieces, and where the
ring is full a buffer is added at the end of the list. The node of a packet
goes from the idle list to the ready list when it is pushed, to the using list
when it is got, and back when its references are gone. One thread keeps the
cache short (`RPCMControlCacheLevel`); it lets go of the lock between its steps,
and others call in between.

Sizes are sizes of things in memory, so their sums do not overflow here; ids
wrap around.
-/

namespace Melis.RecRender

open Lib Function

/-- `ERR_MUX_*`. -/
inductive ErrorType where
  | success
  | nomem
  | illegalParam
  | unexist
  | notSupport
  | notPerm
  | busy
  | timeout
deriving DecidableEq

structure DynamicBuffer where
  mpBuffer : Nat
  mSize : Nat
deriving DecidableEq

namespace DynamicBuffer

/-- The address behind the buffer. -/
def stop (b : DynamicBuffer) : Nat := b.mpBuffer + b.mSize

def contains (b : DynamicBuffer) (a : Nat) : Bool := b.mpBuffer ≤ a && a < b.stop

def cells (b : DynamicBuffer) : List Nat := List.range' b.mpBuffer b.mSize

end DynamicBuffer

/-- A packet as it is pushed; its data is the caller's. -/
structure PushedPacket (β : Type) where
  mStreamType : Int
  mFlags : Nat
  mPts : Int
  mpData0 : Nat → β
  mSize0 : Int
  mpData1 : Nat → β
  mSize1 : Int

/-- A `RecSinkPacket` in the cache. `node` says which one it is; `seq` counts the
packets pushed before it, and `bytes` are the bytes that were pushed. -/
structure RecSinkPacket (β : Type) where
  node : Nat
  mId : Int
  mStreamType : Int
  mFlags : Nat
  mPts : Int
  mpData0 : Nat
  mSize0 : Nat
  mpData1 : Nat
  mSize1 : Nat
  mRefCnt : Int
  seq : Nat
  bytes : List β

/-- `RsPacketCacheManager`. The nodes that `malloc` gave are numbered from 1 to
`nodes`; `pushed` counts the packets, `left` are those that left the ready list. -/
structure RsPacketCacheManager (β : Type) where
  mem : Nat → β
  mDataBufList : List DynamicBuffer
  mpWritePos : Nat
  mpReadPos : Nat
  mUsedBufSize : Int
  mBufSize : Int
  mPacketCount : Int
  mCacheTime : Int
  mFirstPts : Int
  mIsFull : Bool
  mWaitReleaseUsingPacketFlag : Bool
  mWaitReleaseUsingPacketId : Int
  mIdlePacketList : List (RecSinkPacket β)
  mReadyPacketList : List (RecSinkPacket β)
  mUsingPacketList : List (RecSinkPacket β)
  mPacketIdCounter : Int
  nodes : Nat
  pushed : Nat
  left : List Nat

/-- `AVPACKET_CACHE_SIZE`. -/
def avpacketCacheSize : Nat := 4 * 1024 * 1024

/-- `AVPACKET_CACHE_ENLARGE_SIZE`. -/
def avpacketCacheEnlargeSize : Nat := 2 * 1024 * 1024

/-- `PACKET_NUM_IN_RSPACKETBUF`. -/
def packetNumInRspacketbuf : Nat := 1000

variable {β : Type}

namespace PushedPacket

/-- `nPacketDataSize`. -/
def size (p : PushedPacket β) : Int := p.mSize0 + p.mSize1

def data0 (p : PushedPacket β) : List β := (List.range p.mSize0.toNat).map p.mpData0

def data1 (p : PushedPacket β) : List β := (List.range p.mSize1.toNat).map p.mpData1

def bytes (p : PushedPacket β) : List β := p.data0 ++ p.data1

/-- The sizes are no sizes of a packet. -/
def Illegal (p : PushedPacket β) : Prop :=
  p.mSize0 < 0 ∨ p.mSize1 < 0 ∨ p.mSize0 = 0 ∧ 0 < p.mSize1

instance (p : PushedPacket β) : Decidable p.Illegal := inferInstanceAs (Decidable (_ ∨ _))

end PushedPacket

namespace RecSinkPacket

/-- The addresses of the two pieces. -/
def cells (e : RecSinkPacket β) : List Nat :=
  List.range' e.mpData0 e.mSize0 ++ List.range' e.mpData1 e.mSize1

/-- The address and the size of the last piece. -/
def last (e : RecSinkPacket β) : Nat × Nat :=
  if 0 < e.mSize1 then (e.mpData1, e.mSize1) else (e.mpData0, e.mSize0)

/-- `CODEC_TYPE_VIDEO`. -/
def isVideo (e : RecSinkPacket β) : Bool := e.mStreamType == 0

/-- `AVPACKET_FLAG_KEYFRAME`. -/
def isKeyframe (e : RecSinkPacket β) : Bool := e.mFlags.testBit 0

/-- A node as `malloc` gives it. -/
def malloced (n : Nat) : RecSinkPacket β := ⟨n, 0, 0, 0, 0, 0, 0, 0, 0, 0, 0, []⟩

/-- What `list_first_entry` gives for an empty list: its head, which is no node. -/
def listHead : RecSinkPacket β := malloced 0

end RecSinkPacket

/-- The entry after `b`; after the last one the first. -/
def nextEntry (bufs : List DynamicBuffer) (b : DynamicBuffer) : DynamicBuffer :=
  ((bufs.dropWhile (· ≠ b)).tail ++ bufs).headD b

/-! ## The copy of a packet -/

/-- The variables of the two copy loops. -/
structure Copy (β : Type) where
  mem : Nat → β
  pWritePos : Nat
  nCopyLen0 : Nat
  nCopyLen1 : Nat
  nArrayDBPacketSize : Nat → Nat
  pArrayDBPacketPtr : Nat → Nat
  nDataBufNum : Nat

/-- How a pass of a loop ends. -/
inductive Flow where
  | next
  | done
  | notSupport
  | unexist
deriving DecidableEq

namespace Copy

variable (p : PushedPacket β) (c : Copy β)

/-- `memcpy` of the next `n` bytes of the first piece. -/
def copy0 (n : Nat) : Copy β :=
  { c with
    mem := Memory.memcpy c.mem c.pWritePos ((p.data0.drop c.nCopyLen0).take n)
    pWritePos := c.pWritePos + n
    nCopyLen0 := c.nCopyLen0 + n
    nArrayDBPacketSize :=
      update c.nArrayDBPacketSize c.nDataBufNum (c.nArrayDBPacketSize c.nDataBufNum + n) }

/-- `memcpy` of the next `n` bytes of the second piece. -/
def copy1 (n : Nat) : Copy β :=
  { c with
    mem := Memory.memcpy c.mem c.pWritePos ((p.data1.drop c.nCopyLen1).take n)
    pWritePos := c.pWritePos + n
    nCopyLen1 := c.nCopyLen1 + n
    nArrayDBPacketSize :=
      update c.nArrayDBPacketSize c.nDataBufNum (c.nArrayDBPacketSize c.nDataBufNum + n) }

/-- On to the buffer at `a`. -/
def toBuffer (a : Nat) : Copy β :=
  { c with pWritePos := a, nDataBufNum := c.nDataBufNum + 1 }

/-- The second half of a pass, for the second piece. -/
def pass1 (stop a : Nat) : Copy β × Flow :=
  let nDataBufLeftSize := stop - c.pWritePos
  if c.nCopyLen1 < p.data1.length then
    if p.data1.length - c.nCopyLen1 ≤ nDataBufLeftSize then
      let c := c.copy1 p (p.data1.length - c.nCopyLen1)
      (if c.pWritePos = stop then c.toBuffer a else c, .done)
    else ((c.copy1 p nDataBufLeftSize).toBuffer a, .next)
  else (c, .next)

/-- The first half, for the first piece. -/
def pass0 (stop a : Nat) : Copy β × Flow :=
  let nDataBufLeftSize := stop - c.pWritePos
  if c.nCopyLen0 < p.data0.length then
    if p.data0.length - c.nCopyLen0 ≤ nDataBufLeftSize then
      let c := c.copy0 p (p.data0.length - c.nCopyLen0)
      if c.pWritePos = stop then
        if p.data1.length = 0 then ({ c with pWritePos := a }, .done) else (c.toBuffer a, .next)
      else if p.data1.length = 0 then (c, .done)
      else c.pass1 p stop a
    else ((c.copy0 p nDataBufLeftSize).toBuffer a, .next)
  else c.pass1 p stop a

/-- The piece in the next buffer begins. -/
def begun : Copy β :=
  { c with pArrayDBPacketPtr := update c.pArrayDBPacketPtr c.nDataBufNum c.pWritePos }

/-- A pass for a buffer that ends at `stop`, where the next one is at `a`. -/
def pass (stop a : Nat) : Copy β × Flow :=
  if 2 ≤ c.nDataBufNum then (c, .notSupport) else c.begun.pass0 p stop a

/-- The passes over a part of the list. -/
def loop (bufs : List DynamicBuffer) : List DynamicBuffer → Copy β → Copy β × Flow
  | [], c => (c, .next)
  | b :: bs, c =>
    match c.pass p b.stop (nextEntry bufs b).mpBuffer with
    | (c, .next) => loop bufs bs c
    | r => r

/-- Both loops: from the buffer of the write position to the end of the list, and
from its start to that buffer again. -/
def loops (bufs : List DynamicBuffer) : Copy β × Flow :=
  match bufs.dropWhile fun b => !b.contains c.pWritePos with
  | [] => (c, .unexist)
  | b :: bs =>
    match c.loop p bufs (b :: bs) with
    | (c, .next) =>
      if 2 ≤ c.nDataBufNum then (c, .notSupport)
      else c.loop p bufs (bufs.takeWhile (· ≠ b) ++ [b])
    | r => r

end Copy

namespace RsPacketCacheManager

variable (m : RsPacketCacheManager β)

/-- The copy before its first pass. -/
def startCopy : Copy β := ⟨m.mem, m.mpWritePos, 0, 0, fun _ => 0, fun _ => 0, 0⟩

/-! ## Push -/

/-- `RPCMIncreaseIdlePacketList`, where `malloc` gives `k` nodes before it fails.
It returns `SUCCESS` also if it gave none. -/
def increaseIdlePacketList (k : Nat) : RsPacketCacheManager β :=
  let n := min k packetNumInRspacketbuf
  { m with
    mIdlePacketList :=
      m.mIdlePacketList ++ (List.range' (m.nodes + 1) n).map RecSinkPacket.malloced
    nodes := m.nodes + n }

/-- `RPCMIncreaseDataBufList`; `buffer` is what `malloc` gives. -/
def increaseDataBufList (nSize : Nat) (buffer : Option Nat) : Option (RsPacketCacheManager β) :=
  buffer.map fun a =>
    { m with mDataBufList := m.mDataBufList ++ [⟨a, nSize⟩], mBufSize := m.mBufSize + nSize }

/-- `RPCMSetRecSinkPacket`. -/
def setRecSinkPacket (e : RecSinkPacket β) (p : PushedPacket β) : RecSinkPacket β :=
  { e with
    mId := m.mPacketIdCounter
    mStreamType := p.mStreamType
    mFlags := p.mFlags
    mPts := p.mPts
    mpData0 := 0
    mSize0 := 0
    mpData1 := 0
    mSize1 := 0
    mRefCnt := 0
    seq := m.pushed
    bytes := p.bytes }

/-- The packet goes to the ready list; from `_configPts` on. -/
def accept (e : RecSinkPacket β) : RsPacketCacheManager β :=
  let mFirstPts := if m.mFirstPts < 0 then e.mPts else m.mFirstPts
  { m with
    mPacketCount := m.mPacketCount + 1
    mIdlePacketList := m.mIdlePacketList.tail
    mReadyPacketList := m.mReadyPacketList ++ [e]
    mFirstPts := mFirstPts
    mIsFull := m.mIsFull || decide (m.mCacheTime ≤ (e.mPts - mFirstPts).tdiv 1000)
    pushed := m.pushed + 1 }

/-- What a push does once there is a node and memory. -/
def place (p : PushedPacket β) : RsPacketCacheManager β × ErrorType :=
  let e := m.setRecSinkPacket (m.mIdlePacketList.headD .listHead) p
  let m := { m with
    mIdlePacketList := e :: m.mIdlePacketList.tail
    mPacketIdCounter := i32 (m.mPacketIdCounter + 1) }
  if p.Illegal then (m, .illegalParam)
  else if p.size ≤ 0 then (m.accept { e with mpData0 := m.mpWritePos }, .success)
  else
    let r := m.startCopy.loops p m.mDataBufList
    let m := { m with mem := r.1.mem }
    match r.2 with
    | .done =>
      ({ m with
          mpWritePos := r.1.pWritePos
          mUsedBufSize := m.mUsedBufSize + p.size }.accept
        { e with
          mpData0 := r.1.pArrayDBPacketPtr 0
          mSize0 := r.1.nArrayDBPacketSize 0
          mpData1 := r.1.pArrayDBPacketPtr 1
          mSize1 := r.1.nArrayDBPacketSize 1 }, .success)
    | .notSupport => (m, .notSupport)
    | .unexist => (m, .unexist)
    | .next => (m, .illegalParam)

def nLeftBufSize : Int := m.mBufSize - m.mUsedBufSize

/-- How much a push adds to the buffers, if the packet does not fit. -/
def nEnlargeSize (p : PushedPacket β) : Nat :=
  (p.size - m.nLeftBufSize + avpacketCacheEnlargeSize - 1).toNat / avpacketCacheEnlargeSize *
    avpacketCacheEnlargeSize

/-- `RPCMPushPacket`, where `malloc` gives `k` nodes and `buffer`. -/
def pushPacket (p : PushedPacket β) (k : Nat) (buffer : Option Nat) :
    RsPacketCacheManager β × ErrorType :=
  let m := if m.mIdlePacketList.isEmpty then m.increaseIdlePacketList k else m
  if m.nLeftBufSize < p.size then
    match m.increaseDataBufList (m.nEnlargeSize p) buffer with
    | none => (m, .nomem)
    | some m => m.place p
  else m.place p

/-! ## Get, reference and release -/

def getPacket : RsPacketCacheManager β × ErrorType :=
  match m.mReadyPacketList with
  | [] => (m, .unexist)
  | e :: es =>
    ({ m with
        mReadyPacketList := es
        mUsingPacketList := m.mUsingPacketList ++ [{ e with mRefCnt := 1 }]
        left := m.left ++ [e.seq] }, .success)

/-- The reference count of a node in the using list. -/
def setRefCnt (e : RecSinkPacket β) (n : Int) : RsPacketCacheManager β :=
  { m with
    mUsingPacketList :=
      m.mUsingPacketList.map fun x => if x.node = e.node then { x with mRefCnt := n } else x }

def refPacket (nId : Int) : RsPacketCacheManager β × ErrorType :=
  match m.mUsingPacketList.find? (·.mId == nId) with
  | none => (m, .unexist)
  | some e => (m.setRefCnt e (e.mRefCnt + 1), .success)

/-- The data of a packet is given back and its node goes to the idle list; `none`
if its data is in no buffer. -/
def releaseData (e : RecSinkPacket β) : Option (RsPacketCacheManager β) :=
  (m.mDataBufList.find? (·.contains e.last.1)).map fun b =>
    { m with
      mpReadPos :=
        if e.last.1 + e.last.2 < b.stop then e.last.1 + e.last.2
        else if e.last.1 + e.last.2 = b.stop then (nextEntry m.mDataBufList b).mpBuffer
        else m.mpReadPos
      mUsedBufSize := m.mUsedBufSize - (e.mSize0 + e.mSize1)
      mPacketCount := m.mPacketCount - 1
      mIdlePacketList := m.mIdlePacketList ++ [e] }

/-- The thread that waits for a packet is told that only its own reference is left. -/
def signalRelease (nId n : Int) : RsPacketCacheManager β :=
  if m.mWaitReleaseUsingPacketFlag ∧ n = 1 ∧ m.mWaitReleaseUsingPacketId = nId then
    { m with mWaitReleaseUsingPacketFlag := false, mWaitReleaseUsingPacketId := -1 }
  else m

/-- `RPCMReleasePacket_l`. -/
def releasePacket (nId : Int) : RsPacketCacheManager β × ErrorType :=
  match m.mUsingPacketList.find? (·.mId == nId) with
  | none => (m, .unexist)
  | some e =>
    if e.mRefCnt = 1 then
      match m.releaseData { e with mRefCnt := 0 } with
      | none => ((m.setRefCnt e 0).signalRelease nId 0, .unexist)
      | some m' =>
        ({ m' with
            mUsingPacketList := m.mUsingPacketList.eraseP (·.node == e.node) }.signalRelease
          nId 0, .success)
    else if 0 < e.mRefCnt then
      ((m.setRefCnt e (e.mRefCnt - 1)).signalRelease nId (e.mRefCnt - 1), .success)
    else (m.signalRelease nId e.mRefCnt, .success)

/-- `RPCMReleaseReadyPacket_l`. -/
def releaseReadyPacket (nId : Int) : RsPacketCacheManager β × ErrorType :=
  match m.mReadyPacketList.find? (·.mId == nId) with
  | none => (m, .unexist)
  | some e =>
    match m.releaseData e with
    | none => (m, .unexist)
    | some m' =>
      ({ m' with
          mReadyPacketList := m.mReadyPacketList.eraseP (·.node == e.node)
          left := m.left ++ [e.seq] }, .success)

/-! ## The level of the cache -/

/-- The time from the first to the last video packet of a list, if there is one
and they have times. -/
def ptsRange (es : List (RecSinkPacket β)) : Option (Int × Int) :=
  match es.find? (·.isVideo), es.reverse.find? (·.isVideo) with
  | some e, some e' => if 0 ≤ e.mPts ∧ 0 ≤ e'.mPts then some (e.mPts, e'.mPts) else none
  | _, _ => none

/-- `RPCMGetDuration_l`, the total. -/
def getDuration : Int :=
  match ptsRange m.mUsingPacketList, ptsRange m.mReadyPacketList with
  | some u, some r => (r.2 - u.1).tdiv 1000
  | some u, none => (u.2 - u.1).tdiv 1000
  | none, some r => (r.2 - r.1).tdiv 1000
  | none, none => 0

def totalSize (es : List (RecSinkPacket β)) : Nat := (es.map fun e => e.mSize0 + e.mSize1).sum

/-- `RPCMQueryCacheState`, the per cent. -/
def queryCacheState : Option Nat :=
  if m.mIsFull then
    some ((totalSize m.mUsingPacketList + totalSize m.mReadyPacketList) / 1024 * 100 /
      (m.mBufSize.toNat / 1024))
  else none

/-- The first video packet is no key frame. -/
def firstFrameCut : Bool :=
  match (m.mUsingPacketList ++ m.mReadyPacketList).find? (·.isVideo) with
  | some e => !e.isKeyframe
  | none => false

/-- The packets of the using list go until a key frame or one that is used; says
whether it stopped there. -/
def releaseUsingFrames : List (RecSinkPacket β) → RsPacketCacheManager β →
    RsPacketCacheManager β × ErrorType × Bool
  | [], m => (m, .success, false)
  | e :: es, m =>
    if e.isVideo && e.isKeyframe then (m, .success, true)
    else if 1 < e.mRefCnt then (m, .success, true)
    else if e.mRefCnt < 1 then (m, .notPerm, true)
    else
      match m.releasePacket e.mId with
      | (m, .success) => releaseUsingFrames es m
      | (m, err) => (m, err, true)

def releaseReadyFrames : List (RecSinkPacket β) → RsPacketCacheManager β →
    RsPacketCacheManager β × ErrorType
  | [], m => (m, .success)
  | e :: es, m =>
    if e.isVideo && e.isKeyframe then (m, .success)
    else
      match m.releaseReadyPacket e.mId with
      | (m, .success) => releaseReadyFrames es m
      | (m, err) => (m, err)

/-- The end of `RPCMControlCacheLevel`. -/
def releaseFrames : RsPacketCacheManager β × ErrorType :=
  if m.firstFrameCut then
    match releaseUsingFrames m.mUsingPacketList m with
    | (m, _, false) => releaseReadyFrames m.mReadyPacketList m
    | (m, err, true) => (m, err)
  else (m, .success)

/-- Every packet on a list is a node. -/
def nodesOnly : Bool :=
  (m.mIdlePacketList ++ m.mReadyPacketList ++ m.mUsingPacketList).all (·.node != 0)

/-- The memory does not meet that of a buffer. -/
def Fresh (a n : Nat) : Prop :=
  0 < a ∧ ∀ b ∈ m.mDataBufList, a + n ≤ b.mpBuffer ∨ b.stop ≤ a

instance (a n : Nat) : Decidable (m.Fresh a n) :=
  inferInstanceAs (Decidable (_ ∧ _))

end RsPacketCacheManager

/-! ## The machine -/

/-- Where the thread is that keeps the cache short. `control` says that it
releases packets in `RPCMControlCacheLevel`; `node` is the packet it waits for. -/
inductive Pc where
  | idle
  | duration
  | query
  | release (bForce control : Bool)
  | wait (node : Nat) (control : Bool)
  | frames
deriving DecidableEq

/-- `ret` is what the last function returned. -/
structure State (β : Type) where
  m : RsPacketCacheManager β
  pc : Pc
  ret : ErrorType

/-- A call, or a step of the thread. `wake` ends its wait. -/
inductive Input (β : Type) where
  | push (p : PushedPacket β) (k : Nat) (buffer : Option Nat)
  | get
  | ref (nId : Int)
  | release (nId : Int)
  | releaseEarlist (bForce : Bool)
  | control
  | step
  | wake (timeout : Bool)

namespace State

variable (s : State β)

def did (r : RsPacketCacheManager β × ErrorType) : State β := { s with m := r.1, ret := r.2 }

/-- The end of `RPCMReleaseEarlistPacket`. -/
def released (control : Bool) (r : RsPacketCacheManager β × ErrorType) : State β :=
  { s.did r with pc := if control ∧ r.2 = .success then .duration else .idle }

/-- `RPCMReleaseEarlistPacket`. -/
def releaseEarlistPacket (bForce control : Bool) : State β :=
  if s.m.mIsFull then
    match s.m.mUsingPacketList, s.m.mReadyPacketList with
    | e :: _, _ =>
      if e.mRefCnt = 1 then s.released control (s.m.releasePacket e.mId)
      else if 1 < e.mRefCnt ∧ bForce then
        { s with
          m := { s.m with
            mWaitReleaseUsingPacketFlag := true, mWaitReleaseUsingPacketId := e.mId }
          pc := .wait e.node control }
      else s.released control (s.m, if e.mRefCnt < 1 then .notPerm else .busy)
    | [], e :: _ => s.released control (s.m.releaseReadyPacket e.mId)
    | [], [] => s.released control (s.m, .illegalParam)
  else s.released control (s.m, .notPerm)

/-- The id of a node now. -/
def idOf (node : Nat) : Int :=
  match (s.m.mIdlePacketList ++ s.m.mReadyPacketList ++ s.m.mUsingPacketList).find?
      (·.node == node) with
  | some e => e.mId
  | none => 0

def step : Option (State β) :=
  match s.pc with
  | .duration =>
    some { s with pc := if s.m.getDuration ≤ s.m.mCacheTime then .frames else .query }
  | .query =>
    some
      { s with
        pc := .release
          (match s.m.queryCacheState with
          | some percent => 85 ≤ percent
          | none => true) true }
  | .release bForce control => some (s.releaseEarlistPacket bForce control)
  | .frames => some { s.did s.m.releaseFrames with pc := .idle }
  | _ => none

def wake (timeout : Bool) : Option (State β) :=
  match s.pc with
  | .wait node control =>
    if timeout then
      some (s.released control ({ s.m with mWaitReleaseUsingPacketFlag := false }, .timeout))
    else if s.m.mWaitReleaseUsingPacketFlag then some s
    else some (s.released control (s.m.releasePacket (s.idOf node)))
  | _ => none

end State

/-- Nothing is known once the head of a list was taken for a packet. -/
def next (s : State β) (i : Input β) : Option (State β) :=
  if s.m.nodesOnly then
    match i with
    | .push p k buffer =>
      if ∀ a ∈ buffer, s.m.Fresh a (s.m.nEnlargeSize p) then
        some (s.did (s.m.pushPacket p k buffer))
      else none
    | .get => some (s.did s.m.getPacket)
    | .ref nId => some (s.did (s.m.refPacket nId))
    | .release nId => some (s.did (s.m.releasePacket nId))
    | .releaseEarlist bForce =>
      if s.pc = .idle then some { s with pc := .release bForce false } else none
    | .control => if s.pc = .idle then some { s with pc := .duration } else none
    | .step => s.step
    | .wake timeout => s.wake timeout
  else none

abbrev packetCache (β : Type) : Machine (State β) (Input β) := ⟨next⟩

/-- `RsPacketCacheManagerInit`, where `malloc` gives the buffer at `a` and `k`
nodes; `mem` is what the memory holds. -/
def rsPacketCacheManagerInit (nCacheTime : Int) (mem : Nat → β) (a k : Nat) :
    Option (State β) :=
  if nCacheTime ≤ 0 ∨ a = 0 then none
  else
    let m : RsPacketCacheManager β :=
      ⟨mem, [⟨a, avpacketCacheSize⟩], a, a, 0, avpacketCacheSize, 0, nCacheTime, -1, false, false,
        -1, [], [], [], 0, 0, 0, []⟩
    some ⟨m.increaseIdlePacketList k, .idle, .success⟩

end Melis.RecRender
