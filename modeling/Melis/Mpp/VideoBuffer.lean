import Melis.Lib.Queue
import Melis.Lib.Run

/-!
# The video buffer manager

`video_buffer_manager.c`: the nodes of a manager move between a list of free nodes, one of
valid frames and one of frames in use. All calls hold `mFrmListLock`; a wait for an empty list
of frames in use gives it up in `pthread_cond_wait`, so that such a call is two steps. A caller
hands over a frame as the frame of a node, to which the calls give out pointers, or as one of
its own.
-/

namespace Melis.Mpp.Vbm

open Lib Function

universe u

/-- `VIDEO_FRAME_INFO_S`, the first address and the id apart from the rest. -/
structure VideoFrame (α : Type u) where
  mpVirAddr : Nat
  mId : Nat
  rest : α
deriving DecidableEq

structure VideoBufferManager (α : Type u) where
  mFreeFrmList : List Nat
  mValidFrmList : List Nat
  mUsingFrmList : List Nat
  /-- `mFrame` of a node. -/
  mFrame : Nat → VideoFrame α
  mbWaitUsingFrmEmptyFlag : Bool
  /-- The threads in `pthread_cond_wait`, and those that were signalled there. -/
  waiting : List Nat
  woken : List Nat
  /-- The frames put on the list of valid ones, and those taken off. -/
  log : List (Queue.Event (VideoFrame α))

/-- What `pFrame` points to: the frame of a node, a copy that its holder made of it, or some other
frame. -/
inductive FrameArg (α : Type u) where
  | node (n : Nat)
  | copyOf (n : Nat)
  | other (frame : VideoFrame α)
deriving DecidableEq

/-- What a call gives back: its result, the node whose frame it points to, and what it leaves in
`*pFrame`. -/
structure Reply (α : Type u) where
  ret : Int := 0
  node : Option Nat := none
  pFrame : Option (VideoFrame α) := none

variable {α : Type u}

def FrameArg.frame (s : VideoBufferManager α) : FrameArg α → VideoFrame α
  | .node n => s.mFrame n
  | .copyOf n => s.mFrame n
  | .other frame => frame

/-- The node whose holder makes the call. -/
def FrameArg.held : FrameArg α → Option Nat
  | .node n => some n
  | .copyOf n => some n
  | .other _ => none

namespace VideoBufferManager

variable (s : VideoBufferManager α)

/-- `*pFrame = frame`. -/
def assign (frame : VideoFrame α) : FrameArg α → VideoBufferManager α
  | .node n => { s with mFrame := update s.mFrame n frame }
  | _ => s

/-- `list_del`: the node is taken off the list that it is on. -/
def listDel (n : Nat) : VideoBufferManager α :=
  { s with
    mFreeFrmList := s.mFreeFrmList.erase n
    mValidFrmList := s.mValidFrmList.erase n
    mUsingFrmList := s.mUsingFrmList.erase n }

/-- `list_add_tail` to `mFreeFrmList`, and the other lists. -/
def toFree (n : Nat) : VideoBufferManager α :=
  { s with mFreeFrmList := s.mFreeFrmList ++ [n] }

def toValid (n : Nat) : VideoBufferManager α :=
  { s with mValidFrmList := s.mValidFrmList ++ [n] }

def toUsing (n : Nat) : VideoBufferManager α :=
  { s with mUsingFrmList := s.mUsingFrmList ++ [n] }

def logged (e : Queue.Event (VideoFrame α)) : VideoBufferManager α :=
  { s with log := s.log ++ [e] }

/-- `pthread_cond_signal`; `pick` says which of the threads goes on. -/
def signal (pick : Nat) : VideoBufferManager α :=
  { s with
    waiting := s.waiting.eraseIdx (pick % s.waiting.length)
    woken := s.woken ++ (s.waiting[pick % s.waiting.length]?).toList }

end VideoBufferManager

/-- `memset` to 0 of `frmNum` nodes that are all there; `zero` is the frame of zeros. -/
def videoBufMgrCreate (zero : VideoFrame α) (frmNum : Nat) : VideoBufferManager α :=
  ⟨List.range frmNum, [], [], fun _ => zero, false, [], [], []⟩

section

variable (s : VideoBufferManager α)

def vbmGetValidFrame : Reply α × VideoBufferManager α :=
  match s.mValidFrmList with
  | [] => ({}, s)
  | n :: _ => ({ node := some n }, ((s.listDel n).toUsing n).logged (.get (s.mFrame n)))

def vbmGetAllValidUsingFrame : Reply α × VideoBufferManager α :=
  match s.mUsingFrmList, s.mValidFrmList with
  | [], [] => ({}, s)
  | n :: _, _ => ({ node := some n }, (s.listDel n).toFree n)
  | [], n :: _ => ({ node := some n }, ((s.listDel n).toFree n).logged (.get (s.mFrame n)))

/-- The frame in use that a release takes for the one of its caller. -/
def found (frame : VideoFrame α) : Option Nat :=
  s.mUsingFrmList.find? fun n =>
    (s.mFrame n).mpVirAddr == frame.mpVirAddr || (s.mFrame n).mId == frame.mId

variable {s} in
theorem found_mem {frame : VideoFrame α} {n : Nat} (h : found s frame = some n) :
    n ∈ s.mUsingFrmList := List.mem_of_find?_eq_some h

/-- `VBMReleaseFrame`; the result is `FAILURE` for an unknown frame. -/
def vbmReleaseFrame (pFrame : FrameArg α) (pick : Nat) : Reply α × VideoBufferManager α :=
  let frame := pFrame.frame s
  match found s frame with
  | none => ({ ret := -1, pFrame := some frame }, s)
  | some n =>
    let t := ((s.assign (s.mFrame n) pFrame).listDel n).toFree n
    ({ pFrame := some (s.mFrame n) },
      if t.mbWaitUsingFrmEmptyFlag ∧ t.mUsingFrmList = [] then t.signal pick else t)

def vbmPushFrame (pFrame : FrameArg α) : Reply α × VideoBufferManager α :=
  match s.mFreeFrmList with
  | [] => ({ ret := -1 }, s)
  | n :: _ =>
    let frame := pFrame.frame s
    ({}, (({ s with mFrame := update s.mFrame n frame }.listDel n).toValid n).logged (.put frame))

def vbmGetOldestUsingFrame : Reply α := { node := s.mUsingFrmList.head? }

def vbmGetOldestValidFrame : Reply α := { node := s.mValidFrmList.head? }

def vbmGetSpecUsingFrameWithAddr (pVirAddr : Nat) : Reply α :=
  { node := s.mUsingFrmList.find? fun n => (s.mFrame n).mpVirAddr == pVirAddr }

def vbmIsUsingFrmEmpty : Reply α := { ret := if s.mUsingFrmList = [] then 1 else 0 }

/-- The loop of `VBMWaitUsingFrmEmpty`, up to its end or to `pthread_cond_wait`. -/
def waitLoop (t : Nat) : VideoBufferManager α :=
  if s.mUsingFrmList = [] then { s with mbWaitUsingFrmEmptyFlag := false }
  else { s with waiting := s.waiting ++ [t] }

variable {s} in
/-- A wait leaves the lists. -/
theorem waitLoop_lists {t : Nat} : (waitLoop s t).mFreeFrmList = s.mFreeFrmList ∧
    (waitLoop s t).mValidFrmList = s.mValidFrmList ∧
    (waitLoop s t).mUsingFrmList = s.mUsingFrmList ∧ (waitLoop s t).mFrame = s.mFrame ∧
    (waitLoop s t).log = s.log := by
  unfold waitLoop
  split <;> exact ⟨rfl, rfl, rfl, rfl, rfl⟩

def vbmWaitUsingFrmEmpty (t : Nat) : VideoBufferManager α :=
  waitLoop { s with mbWaitUsingFrmEmptyFlag := true } t

/-- A thread that was signalled has the lock again. -/
def vbmWaitResumed (t : Nat) : VideoBufferManager α :=
  waitLoop { s with woken := s.woken.erase t } t

end

/-! ## Calls -/

inductive Call (α : Type u) where
  | getValidFrame
  | getAllValidUsingFrame
  | releaseFrame (pFrame : FrameArg α) (pick : Nat)
  | pushFrame (pFrame : FrameArg α)
  | getOldestUsingFrame
  | getOldestValidFrame
  | getSpecUsingFrameWithAddr (pVirAddr : Nat)
  | usingFrmEmpty
  | waitUsingFrmEmpty (t : Nat)
  | waitResumed (t : Nat)

/-- A step; a thread that is in a wait makes no other call, and goes on when it was signalled. -/
def step (s : VideoBufferManager α) : Call α → Option (Reply α × VideoBufferManager α)
  | .getValidFrame => some (vbmGetValidFrame s)
  | .getAllValidUsingFrame => some (vbmGetAllValidUsingFrame s)
  | .releaseFrame pFrame pick => some (vbmReleaseFrame s pFrame pick)
  | .pushFrame pFrame => some (vbmPushFrame s pFrame)
  | .getOldestUsingFrame => some (vbmGetOldestUsingFrame s, s)
  | .getOldestValidFrame => some (vbmGetOldestValidFrame s, s)
  | .getSpecUsingFrameWithAddr pVirAddr => some (vbmGetSpecUsingFrameWithAddr s pVirAddr, s)
  | .usingFrmEmpty => some (vbmIsUsingFrmEmpty s, s)
  | .waitUsingFrmEmpty t =>
    if t ∈ s.waiting ∨ t ∈ s.woken then none else some ({}, vbmWaitUsingFrmEmpty s t)
  | .waitResumed t => if t ∈ s.woken then some ({}, vbmWaitResumed s t) else none

def manager : Machine (VideoBufferManager α) (Call α) where
  next s call := (step s call).map Prod.snd

end Melis.Mpp.Vbm
