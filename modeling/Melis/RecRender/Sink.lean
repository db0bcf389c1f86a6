import Melis.Lib.Run

/-!
# The thread of the recorder sink

`RecSinkThread` in `RecRenderSink.c`, the callers of `RecSinkEmptyThisBuffer` and those that send a
command. What a thread does from one operation on a mutex to the next is one step, with what `malloc`
answers; a critical section of the message queue or of the sink's own list operations is one step.
What the thread does with a packet depends on times and on the muxer, and is a choice.
-/

namespace Melis.RecSink

open Lib

inductive COMP_STATETYPE
  | Invalid
  | Loaded
  | Idle
  | Executing
  | Pause
  deriving DecidableEq, Repr

/-- The commands in the queue. -/
inductive CompInternalMsgType
  | SetState (desState : COMP_STATETYPE)
  | Stop
  | SwitchFile
  | SwitchFileNormal
  | InputPacketAvailable
  deriving DecidableEq, Repr

/-- Where the thread is: before the next lock, or blocked on the condition of the queue. -/
inductive Pc
  | processMessage
  | movePrefetch
  | drain
  | getPacket
  | packet (p : Nat) (switched : Bool)
  | release (p : Nat)
  | switchFile
  | switchRelease (p : Nat)
  | switchGet
  /-- It has found no packet, and is about to set the flag. -/
  | noPacket
  | wait
  | blocked
  | woken
  | exited
  deriving DecidableEq, Repr

/-- A caller of `RecSinkEmptyThisBuffer` has the mutex of the packets: before `put_message`, or
behind it. Its packet is the last one in the valid list. -/
inductive Caller
  | putting
  | leaving
  deriving DecidableEq, Repr

structure Sink where
  mStatus : COMP_STATETYPE
  mNoInputPacketFlag : Bool
  mValidRSPacketList : List Nat
  mPrefetchRSPacketList : List Nat
  mIdleRSPacketList : List Nat
  /-- The packets there have been. -/
  packetNum : Nat
  caller : Option Caller
  mReadyMessageList : List CompInternalMsgType
  /-- The length of `mIdleMessageList`. -/
  idleMessages : Nat
  mWaitMessageFlag : Bool
  pc : Pc
  deriving DecidableEq

abbrev RECSINK_MAX_PACKET_NUM : Nat := 256

abbrev MAX_MESSAGE_ELEMENTS : Nat := 8

variable (s : Sink)

/-! ## The message queue -/

/-- `mallocs` is how many allocations there would be memory for. A signal wakes the thread. -/
def put_message (m : CompInternalMsgType) (mallocs : Nat) : Sink :=
  if s.idleMessages = 0 ∧ mallocs < MAX_MESSAGE_ELEMENTS then { s with idleMessages := mallocs }
  else
    let idle := if s.idleMessages = 0 then MAX_MESSAGE_ELEMENTS else s.idleMessages
    { s with
      mReadyMessageList := s.mReadyMessageList ++ [m]
      idleMessages := idle - 1
      pc := if s.mWaitMessageFlag ∧ s.pc = .blocked then .woken else s.pc }

/-- The test of the loop in `TMessage_WaitQueueNotEmpty`, with the mutex. -/
def waitTest : Sink :=
  if s.mReadyMessageList = [] then { s with mWaitMessageFlag := true, pc := .blocked }
  else { s with mWaitMessageFlag := false, pc := .processMessage }

/-! ## The callers -/

/-- The idle packets, how many there have been, and whether there was memory. -/
def RecSinkIncreaseIdleRSPacketList (mallocs : Nat) : List Nat × Nat × Bool :=
  let num := min mallocs RECSINK_MAX_PACKET_NUM
  (s.mIdleRSPacketList ++ List.range' s.packetNum num, s.packetNum + num,
    RECSINK_MAX_PACKET_NUM ≤ mallocs)

/-- `RecSinkEmptyThisBuffer`, up to `put_message` where the flag is set. -/
def RecSinkEmptyThisBuffer (mallocs : Nat) : Option Sink :=
  if s.caller ≠ none then none
  else
    let (idle, packetNum, memory) :=
      if s.mIdleRSPacketList = [] then RecSinkIncreaseIdleRSPacketList s mallocs
      else (s.mIdleRSPacketList, s.packetNum, true)
    match memory, idle with
    | false, _ => some { s with mIdleRSPacketList := idle, packetNum }
    | true, [] => none
    | true, p :: idle => some { s with
        mIdleRSPacketList := idle
        packetNum
        mValidRSPacketList := s.mValidRSPacketList ++ [p]
        caller := if s.mNoInputPacketFlag then some .putting else none }

def putAvailable (mallocs : Nat) : Option Sink :=
  if s.caller = some .putting then
    some { put_message s .InputPacketAvailable mallocs with caller := some .leaving }
  else none

def leave : Option Sink :=
  if s.caller = some .leaving then some { s with mNoInputPacketFlag := false, caller := none }
  else none

/-! ## The thread -/

/-- The command of a message. -/
def process : CompInternalMsgType → Sink
  | .SetState desState =>
    if s.mStatus = desState then s
    else
      match desState with
      | .Invalid => { s with mStatus := .Invalid }
      | .Loaded =>
        if s.mStatus = .Executing ∨ s.mStatus = .Pause then { s with pc := .movePrefetch }
        else { s with mStatus := .Loaded }
      | .Executing =>
        if s.mStatus = .Loaded ∨ s.mStatus = .Pause then { s with mStatus := .Executing } else s
      | .Pause =>
        if s.mStatus = .Loaded ∨ s.mStatus = .Executing then { s with mStatus := .Pause } else s
      | .Idle => s
  | .Stop => { s with pc := .exited }
  | _ => s

/-- `get_message`, and what follows up to the next lock. -/
def processMessage : Sink :=
  match s.mReadyMessageList with
  | m :: messages =>
    process { s with mReadyMessageList := messages, idleMessages := s.idleMessages + 1 } m
  | [] => { s with pc := if s.mStatus = .Executing then .getPacket else .wait }

/-- What the thread does with a packet: it switches to the next file, keeps the packet for that one,
or releases it, where an error makes the status invalid. -/
inductive Choice
  | go
  | switchFile
  | prefetch
  | release (invalid : Bool)
  deriving DecidableEq, Repr

/-- A status that an error may have made invalid. -/
def status (invalid : Bool) : COMP_STATETYPE := if invalid then .Invalid else s.mStatus

/-- `RecSinkGetRSPacket`, with what follows where there is a packet and where there is none. -/
def RecSinkGetRSPacket (found : Nat → Pc) (empty : Option Pc) : Option Sink :=
  match s.mValidRSPacketList with
  | p :: valid => some { s with mValidRSPacketList := valid, pc := found p }
  | [] => empty.map fun pc => { s with pc }

/-- `RecSinkReleaseRSPacket` -/
def RecSinkReleaseRSPacket (p : Nat) (pc : Pc) : Sink :=
  { s with mIdleRSPacketList := s.mIdleRSPacketList ++ [p], pc }

/-- `RecSinkMovePrefetchRSPackets` -/
def RecSinkMovePrefetchRSPackets (pc : Pc) : Sink :=
  { s with
    mValidRSPacketList := s.mPrefetchRSPacketList ++ s.mValidRSPacketList
    mPrefetchRSPacketList := []
    pc }

/-- `RecSinkDrainAllRSPackets`, and the new status. -/
def RecSinkDrainAllRSPackets : Sink :=
  { s with
    mIdleRSPacketList := s.mIdleRSPacketList ++ s.mValidRSPacketList
    mValidRSPacketList := []
    mStatus := .Loaded
    pc := .processMessage }

/-- With a packet, between two locks. After a switch there is no second one. -/
def usePacket (p : Nat) (switched : Bool) : Choice → Option Sink
  | .switchFile =>
    if switched then none
    else some { s with
      mPrefetchRSPacketList := s.mPrefetchRSPacketList ++ [p], pc := .switchFile }
  | .prefetch => some { s with
      mPrefetchRSPacketList := s.mPrefetchRSPacketList ++ [p], pc := .processMessage }
  | .release invalid => some { s with mStatus := status s invalid, pc := .release p }
  | .go => none

/-- `RecSinkSwitchFile`, whose loop writes packets, but for the last one. -/
def RecSinkSwitchFile : Choice → Option Sink
  | .release invalid =>
    match s.mPrefetchRSPacketList with
    | p :: q :: prefetch => some { s with
        mPrefetchRSPacketList := q :: prefetch
        mStatus := status s invalid
        pc := .switchRelease p }
    | _ => none
  | .go => if s.caller = none then some (RecSinkMovePrefetchRSPackets s .switchGet) else none
  | _ => none

/-- A step of the thread. One that takes the mutex of the packets waits until it is free. -/
def RecSinkThread (choice : Choice) : Option Sink :=
  match s.pc with
  | .processMessage => some (processMessage s)
  | .packet p switched => usePacket s p switched choice
  | .switchFile => RecSinkSwitchFile s choice
  | .wait => some (waitTest s)
  | .woken => some (waitTest s)
  | .blocked => none
  | .exited => none
  | .movePrefetch =>
    if s.caller = none then some (RecSinkMovePrefetchRSPackets s .drain) else none
  | .drain => if s.caller = none then some (RecSinkDrainAllRSPackets s) else none
  | .getPacket =>
    if s.caller = none then RecSinkGetRSPacket s (.packet · false) (some .noPacket) else none
  | .switchGet => if s.caller = none then RecSinkGetRSPacket s (.packet · true) none else none
  | .release p =>
    if s.caller = none then some (RecSinkReleaseRSPacket s p .processMessage) else none
  | .switchRelease p =>
    if s.caller = none then some (RecSinkReleaseRSPacket s p .switchFile) else none
  | .noPacket =>
    if s.caller = none then some { s with mNoInputPacketFlag := true, pc := .wait } else none

/-! ## Runs -/

inductive Step
  | emptyThisBuffer (mallocs : Nat)
  | putAvailable (mallocs : Nat)
  | leave
  | command (m : CompInternalMsgType) (mallocs : Nat)
  /-- `RecSinkResetSomeMembers` in a `RecSinkReset` that has seen the thread change to loaded. -/
  | reset
  | thread (choice : Choice)
  /-- The thread wakes up without a signal. -/
  | wake
  deriving DecidableEq, Repr

def next : Step → Option Sink
  | .emptyThisBuffer mallocs => RecSinkEmptyThisBuffer s mallocs
  | .putAvailable mallocs => putAvailable s mallocs
  | .leave => leave s
  | .command m mallocs => some (put_message s m mallocs)
  | .reset => if s.mStatus = .Loaded then some { s with mNoInputPacketFlag := false } else none
  | .thread choice => RecSinkThread s choice
  | .wake => if s.pc = .blocked then some { s with pc := .woken } else none

def sink : Machine Sink Step := ⟨next⟩

/-- `RecSinkInit` -/
def RecSinkInit : Sink where
  mStatus := .Loaded
  mNoInputPacketFlag := false
  mValidRSPacketList := []
  mPrefetchRSPacketList := []
  mIdleRSPacketList := List.range RECSINK_MAX_PACKET_NUM
  packetNum := RECSINK_MAX_PACKET_NUM
  caller := none
  mReadyMessageList := []
  idleMessages := MAX_MESSAGE_ELEMENTS
  mWaitMessageFlag := false
  pc := .processMessage

end Melis.RecSink
