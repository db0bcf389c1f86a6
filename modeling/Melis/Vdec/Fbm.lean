import Melis.Lib.Places
import Melis.Lib.Run

/-!
# The picture buffers of the decoder

The frame buffer manager (`fbm.c`) owns the picture buffers. The decoder requests
an empty one, may share it while it still draws it, and returns it; the renderer
requests the pictures in the order they came and returns each. With external
buffers the display sets their addresses, and takes them back one by one after it
has asked for their release. Nodes are found by the address or the file descriptor
of their buffer. This is the manager of one stream: two streams of a 3D video that
share one manager are left out.
-/

namespace Melis.Vdec

open Lib Function

def frmForbidUseTag : Int := 0xff

def frmReleaseTag : Int := 0xee

def fbmNewDispInvalidTag : Int := 0xdd

structure FrameNodeFlag where
  bUsedByDecoder : Bool
  bUsedByRender : Bool
  bInValidPictureQueue : Bool
  bAlreadyDisplayed : Bool
  bNeedRelease : Bool

/-- What the manager reads of a `VideoPicture`. -/
structure VideoPicture where
  nID : Int
  nBufId : Int
  nBufFd : Int
  phyYBufAddr : Nat

structure FrameNode where
  flag : FrameNodeFlag
  vpicture : VideoPicture

/-- `nBufNum` is what the display learns of the buffers it has to provide. -/
structure VideoFbmInfo where
  nValidBufNum : Nat
  nBufNum : Nat

structure FbmCreateInfo where
  nFrameNum : Nat
  nWidth : Nat
  nHeight : Nat
  bThumbnailMode : Bool
  bGpuBufValid : Bool
  bufTypeOnlyReference : Bool

/-- A queue is the list of its nodes, from the head on. -/
structure Fbm where
  nMaxFrameNum : Nat
  nEmptyBufferNum : Int
  nValidPictureNum : Int
  nReleaseBufferNum : Int
  pEmptyBufferQueue : List Nat
  pValidPictureQueue : List Nat
  pReleaseBufferQueue : List Nat
  bThumbnailMode : Bool
  pFrames : Nat → FrameNode
  bUseGpuBuf : Bool
  pFbmInfo : VideoFbmInfo
  nDecoderHoldingNum : Int
  nRenderHoldingNum : Int
  nWaitForDispNum : Int

namespace FbmCreateInfo

variable (info : FbmCreateInfo)

/-- The frames there are, fewer for a large picture. -/
def frameNum : Nat :=
  if 3840 ≤ info.nWidth ∧ 2160 ≤ info.nHeight ∧ 20 < info.nFrameNum then 20 else info.nFrameNum

/-- The display provides the buffers. -/
def external : Bool := info.bGpuBufValid && !info.bufTypeOnlyReference

/-- The buffer of node `i`, where `FbmAllocatePictureBuffer` gives `alloc`; in
thumbnail mode the nodes share the first one. -/
def pictureBuffer (alloc : Nat → Option Nat) (i : Nat) : Option Nat :=
  if info.external then some 0 else if info.bThumbnailMode then alloc 0 else alloc i

end FbmCreateInfo

/-- `FbmCreateBuffer`; `none` where the picture is too large or memory is missing. -/
def fbmCreateBuffer (info : FbmCreateInfo) (alloc : Nat → Option Nat) : Option Fbm :=
  let n := info.frameNum
  if 7680 ≤ info.nWidth ∨ 4320 ≤ info.nHeight then none
  else if (List.range n).any fun i => (info.pictureBuffer alloc i).isNone then none
  else
    some
      { nMaxFrameNum := n
        nEmptyBufferNum := if info.external then 0 else n
        nValidPictureNum := 0
        nReleaseBufferNum := 0
        pEmptyBufferQueue := if info.external then [] else (List.range n).foldl Queue.linkLast []
        pValidPictureQueue := []
        pReleaseBufferQueue := []
        bThumbnailMode := info.bThumbnailMode
        pFrames := fun i =>
          { flag := ⟨false, false, false, false, false⟩
            vpicture :=
              { nID := i
                nBufId := fbmNewDispInvalidTag
                nBufFd := 0
                phyYBufAddr := (info.pictureBuffer alloc i).getD 0 } }
        bUseGpuBuf := info.external
        pFbmInfo := ⟨0, if info.bThumbnailMode then 1 else n⟩
        nDecoderHoldingNum := 0
        nRenderHoldingNum := 0
        nWaitForDispNum := 0 }

/-- The four flags that a picture on the empty queue does not have. -/
def FrameNodeFlag.inUse (flag : FrameNodeFlag) : Bool :=
  flag.bUsedByDecoder || flag.bInValidPictureQueue || flag.bUsedByRender || flag.bAlreadyDisplayed

namespace Fbm

variable (m : Fbm)

def setFlag (node : Nat) (f : FrameNodeFlag → FrameNodeFlag) : Fbm :=
  { m with
    pFrames := update m.pFrames node { m.pFrames node with flag := f (m.pFrames node).flag } }

def setPicture (node : Nat) (f : VideoPicture → VideoPicture) : Fbm :=
  { m with
    pFrames :=
      update m.pFrames node { m.pFrames node with vpicture := f (m.pFrames node).vpicture } }

def enqueueEmpty (node : Nat) : Fbm :=
  { m with
    pEmptyBufferQueue := Queue.linkLast m.pEmptyBufferQueue node
    nEmptyBufferNum := m.nEmptyBufferNum + 1 }

def enqueueValid (node : Nat) : Fbm :=
  { m with
    pValidPictureQueue := Queue.linkLast m.pValidPictureQueue node
    nValidPictureNum := m.nValidPictureNum + 1
    nWaitForDispNum := m.nWaitForDispNum + 1 }

def enqueueRelease (node : Nat) : Fbm :=
  { m with
    pReleaseBufferQueue := Queue.linkLast m.pReleaseBufferQueue node
    nReleaseBufferNum := m.nReleaseBufferNum + 1 }

/-- `FbmRequestBuffer`. -/
def requestBuffer : Fbm × Option Nat :=
  match m.pEmptyBufferQueue with
  | [] => (m, none)
  | node :: empty =>
    let m := { m with pEmptyBufferQueue := empty }
    if (m.pFrames node).flag.inUse then (m, none)
    else
      let m :=
        { m with
          nEmptyBufferNum := m.nEmptyBufferNum - 1
          nDecoderHoldingNum := m.nDecoderHoldingNum + 1 }
      (m.setFlag node fun flag => { flag with bUsedByDecoder := true }, some node)

/-- The id of the picture is the node it belongs to. -/
def idIsNode (pVPicture : Nat) : Bool :=
  let index := (m.pFrames pVPicture).vpicture.nID
  0 ≤ index && index < m.nMaxFrameNum && index.toNat == pVPicture

/-- `FbmReturnBuffer`, of the picture of a node. -/
def returnBuffer (pVPicture : Nat) (bValidPicture : Bool) : Fbm :=
  let flag := (m.pFrames pVPicture).flag
  if !m.idIsNode pVPicture then m
  else if !flag.bUsedByDecoder then m
  else
    let m := m.setFlag pVPicture fun flag => { flag with bUsedByDecoder := false }
    if flag.bNeedRelease && !flag.bInValidPictureQueue then
      -- the early return, ahead of the counter
      (m.enqueueRelease pVPicture).setFlag pVPicture fun flag =>
        { flag with bAlreadyDisplayed := false, bInValidPictureQueue := false }
    else if flag.bInValidPictureQueue && (flag.bUsedByRender || flag.bAlreadyDisplayed) then m
    else
      let m :=
        if flag.bInValidPictureQueue then m
        else if flag.bUsedByRender then m
        else if flag.bAlreadyDisplayed then
          (m.setFlag pVPicture fun flag => { flag with bAlreadyDisplayed := false }).enqueueEmpty
            pVPicture
        else if bValidPicture then
          (m.enqueueValid pVPicture).setFlag pVPicture fun flag =>
            { flag with bInValidPictureQueue := true }
        else m.enqueueEmpty pVPicture
      { m with nDecoderHoldingNum := m.nDecoderHoldingNum - 1 }

/-- `FbmShareBuffer`, of the picture of a node. -/
def shareBuffer (pVPicture : Nat) : Fbm :=
  let flag := (m.pFrames pVPicture).flag
  if !m.idIsNode pVPicture then m
  else if flag.bNeedRelease then m
  else if !flag.bUsedByDecoder || flag.bInValidPictureQueue || flag.bAlreadyDisplayed then m
  else
    (m.setFlag pVPicture fun flag => { flag with bInValidPictureQueue := true }).enqueueValid
      pVPicture

/-- `FbmRequestPicture`. -/
def requestPicture : Fbm × Option Nat :=
  match m.pValidPictureQueue with
  | [] => (m, none)
  | node :: valid =>
    let m := { m with pValidPictureQueue := valid }
    let flag := (m.pFrames node).flag
    if !flag.bInValidPictureQueue || flag.bUsedByRender || flag.bAlreadyDisplayed then (m, none)
    else
      let m :=
        { m with
          nValidPictureNum := m.nValidPictureNum - 1
          nWaitForDispNum := m.nWaitForDispNum - 1
          nRenderHoldingNum := m.nRenderHoldingNum + 1 }
      (m.setFlag node fun flag =>
          { flag with bInValidPictureQueue := false, bUsedByRender := true },
        some node)

/-- The search of `FbmReturnPicture`, by descriptor or by address. -/
def findPicture (pVPicture : VideoPicture) : Option Nat :=
  (List.range m.nMaxFrameNum).find? fun i =>
    if m.bUseGpuBuf then
      pVPicture.nBufFd == (m.pFrames i).vpicture.nBufFd && !(m.pFrames i).flag.bNeedRelease
    else pVPicture.phyYBufAddr == (m.pFrames i).vpicture.phyYBufAddr

/-- `FbmReturnPicture`: the result, the manager and the picture, of which the
renderer has a copy. -/
def returnPicture (pVPicture : VideoPicture) : Int × Fbm × VideoPicture :=
  match m.findPicture pVPicture with
  | none => (-1, m, pVPicture)
  | some i =>
    let index := (m.pFrames i).vpicture.nID
    if index < 0 ∨ m.nMaxFrameNum ≤ index then
      if frmForbidUseTag ≤ index then
        let node := (index - frmForbidUseTag).toNat
        let flag := (m.pFrames node).flag
        if flag.bUsedByRender || flag.bInValidPictureQueue || flag.bAlreadyDisplayed then
          (-1, m, pVPicture)
        else
          (0,
            (m.setPicture node fun pic => { pic with nID := pic.nID - frmForbidUseTag }).enqueueEmpty
              node,
            if frmForbidUseTag ≤ pVPicture.nID then
              { pVPicture with nID := pVPicture.nID - frmForbidUseTag }
            else pVPicture)
      else (-1, m, pVPicture)
    else
      let node := index.toNat
      let flag := (m.pFrames node).flag
      if !flag.bUsedByRender || flag.bInValidPictureQueue || flag.bAlreadyDisplayed then
        (-1, m, pVPicture)
      else
        let m := m.setFlag node fun flag => { flag with bUsedByRender := false }
        let m := { m with nRenderHoldingNum := m.nRenderHoldingNum - 1 }
        if flag.bUsedByDecoder then
          (0, m.setFlag node fun flag => { flag with bAlreadyDisplayed := true }, pVPicture)
        else if !flag.bNeedRelease then (0, m.enqueueEmpty node, pVPicture)
        else (0, m.enqueueRelease node, pVPicture)

/-- The loop of `FbmFlush` over the valid queue. -/
def flushLoop (m : Fbm) : List Nat → Fbm
  | [] => m
  | node :: valid =>
    let m := { m with pValidPictureQueue := valid, nValidPictureNum := m.nValidPictureNum - 1 }
    let flag := (m.pFrames node).flag
    if flag.bUsedByRender || flag.bAlreadyDisplayed then m
    else
      let m := m.setFlag node fun flag => { flag with bInValidPictureQueue := false }
      if !flag.bUsedByDecoder then flushLoop (m.enqueueEmpty node) valid
      else flushLoop (m.setFlag node fun flag => { flag with bAlreadyDisplayed := true }) valid

/-- `FbmFlush`. -/
def flush : Fbm := m.flushLoop m.pValidPictureQueue

/-- `FbmSetFbmBufAddress`, and the node. -/
def setFbmBufAddress (pPicture : VideoPicture) (bForbidUseFlag : Bool) : Fbm × Nat :=
  let node := m.pFbmInfo.nValidBufNum
  let m := m.setPicture node fun _ =>
    { pPicture with nID := if bForbidUseFlag then node + frmForbidUseTag else node }
  let m := if bForbidUseFlag then m else m.enqueueEmpty node
  ({ m with pFbmInfo := { m.pFbmInfo with nValidBufNum := node + 1 } }, node)

/-- The loop of `FbmNewDispRelease` over the empty queue. -/
def newDispReleaseLoop (m : Fbm) : List Nat → Fbm
  | [] => m
  | node :: empty =>
    let m := { m with pEmptyBufferQueue := empty }
    if (m.pFrames node).flag.inUse then m
    else
      newDispReleaseLoop
        ({ m with nEmptyBufferNum := m.nEmptyBufferNum - 1 }.enqueueRelease node) empty

/-- `FbmNewDispRelease`. -/
def newDispRelease : Fbm := m.newDispReleaseLoop m.pEmptyBufferQueue

/-- Marks every node with a buffer of the display. -/
def needRelease : Fbm :=
  { m with
    pFrames := fun i =>
      let node := m.pFrames i
      if i < m.nMaxFrameNum ∧ node.vpicture.nBufId ≠ fbmNewDispInvalidTag then
        { node with flag := { node.flag with bNeedRelease := true } }
      else node }

/-- `FbmSetNewDispRelease`. -/
def setNewDispRelease : Fbm := m.needRelease.flush.newDispRelease

/-- `FbmRequestReleasePicture`. -/
def requestReleasePicture : Fbm × Option Nat :=
  match m.pReleaseBufferQueue with
  | [] => (m, none)
  | node :: release =>
    let m :=
      { m with
        pReleaseBufferQueue := release
        nReleaseBufferNum := m.nReleaseBufferNum - 1 }
    (m.setPicture node fun pic => { pic with nID := frmReleaseTag }, some node)

/-- The search of `FbmReturnReleasePicture`, by mark and tag. -/
def findRelease : Option Nat :=
  (List.range m.nMaxFrameNum).find? fun i =>
    (m.pFrames i).flag.bNeedRelease && (m.pFrames i).vpicture.nID == frmReleaseTag

/-- `FbmReturnReleasePicture`. -/
def returnReleasePicture (pVpicture : VideoPicture) (bForbidUseFlag : Bool) : Fbm × Option Nat :=
  match m.findRelease with
  | none => (m, none)
  | some node =>
    let m := m.setPicture node fun _ =>
      { pVpicture with nID := if bForbidUseFlag then node + frmForbidUseTag else node }
    let m := m.setFlag node fun flag => { flag with bNeedRelease := false }
    (if bForbidUseFlag then m else m.enqueueEmpty node, some node)

end Fbm

/-! ## Where a node is -/

/-- The places of a node. `decoder` is a buffer that is drawn and not shared,
`queued` and `render` are pictures on the valid queue and with the renderer, which
the decoder may still hold; `displayed` is one that only the decoder still holds.
The display has the `forbidden` and the `released` buffers; where it has not
provided a buffer, that is `absent`. -/
inductive Place where
  | absent
  | empty
  | decoder
  | queued (byDecoder : Bool)
  | render (byDecoder : Bool)
  | displayed
  | release
  | released
  | forbidden
  deriving DecidableEq

namespace Place

def byDecoder : Place → Bool
  | decoder | queued true | render true | displayed => true
  | _ => false

def byRender : Place → Bool
  | render _ => true
  | _ => false

def inEmptyQueue : Place → Bool
  | empty => true
  | _ => false

def inValidQueue : Place → Bool
  | queued _ => true
  | _ => false

def inReleaseQueue : Place → Bool
  | release => true
  | _ => false

def returnBuffer (bValidPicture bNeedRelease : Bool) : Place → Place
  | decoder => if bNeedRelease then release else if bValidPicture then queued false else empty
  | displayed => if bNeedRelease then release else empty
  | queued _ => queued false
  | render _ => render false
  | place => place

def shareBuffer (bNeedRelease : Bool) : Place → Place
  | decoder => if bNeedRelease then decoder else queued true
  | place => place

def requestPicture : Place → Place
  | queued byDecoder => render byDecoder
  | place => place

def returnPicture (bNeedRelease : Bool) : Place → Place
  | render true => displayed
  | render false | forbidden => if bNeedRelease then release else empty
  | place => place

def flush : Place → Place
  | queued true => displayed
  | queued false => empty
  | place => place

def newDispRelease : Place → Place
  | empty => release
  | place => place

/-- Where a buffer of the display goes. -/
def provided (bForbidUseFlag : Bool) : Place := if bForbidUseFlag then forbidden else empty

/-- The flags of a node, but for its mark. -/
def flag (place : Place) (bNeedRelease : Bool) : FrameNodeFlag :=
  ⟨place.byDecoder, place.byRender, place.inValidQueue, place = displayed, bNeedRelease⟩

end Place

/-! ## Runs -/

namespace Frames

/-- The manager, where each node should be, and how many pictures the flushes have
taken from the valid queue. -/
structure State where
  m : Fbm
  place : Nat → Place
  flushed : Nat

inductive Input where
  | requestBuffer
  | returnBuffer (pVPicture : Nat) (bValidPicture : Bool)
  | shareBuffer (pVPicture : Nat)
  | requestPicture
  | returnPicture (pVPicture : Nat)
  | flush
  | setFbmBufAddress (pPicture : VideoPicture) (bForbidUseFlag : Bool)
  | setNewDispRelease
  | requestReleasePicture
  | returnReleasePicture (pVpicture : VideoPicture) (bForbidUseFlag : Bool)

/-- The node that a call hands out goes to `p`. -/
def handOut (place : Nat → Place) (p : Place → Place) : Option Nat → Nat → Place
  | none => place
  | some node => update place node (p (place node))

def next (s : State) : Input → State
  | .requestBuffer =>
    let (m, node) := s.m.requestBuffer
    { s with m := m, place := handOut s.place (fun _ => .decoder) node }
  | .returnBuffer k bValidPicture =>
    let need := (s.m.pFrames k).flag.bNeedRelease
    { s with
      m := s.m.returnBuffer k bValidPicture
      place := update s.place k ((s.place k).returnBuffer bValidPicture need) }
  | .shareBuffer k =>
    let need := (s.m.pFrames k).flag.bNeedRelease
    { s with
      m := s.m.shareBuffer k
      place := update s.place k ((s.place k).shareBuffer need) }
  | .requestPicture =>
    let (m, node) := s.m.requestPicture
    { s with m := m, place := handOut s.place Place.requestPicture node }
  | .returnPicture k =>
    let need := (s.m.pFrames k).flag.bNeedRelease
    { s with
      m := (s.m.returnPicture (s.m.pFrames k).vpicture).2.1
      place := update s.place k ((s.place k).returnPicture need) }
  | .flush =>
    ⟨s.m.flush, fun k => (s.place k).flush, s.flushed + s.m.pValidPictureQueue.length⟩
  | .setFbmBufAddress pic bForbidUseFlag =>
    let (m, node) := s.m.setFbmBufAddress pic bForbidUseFlag
    { s with m := m, place := update s.place node (.provided bForbidUseFlag) }
  | .setNewDispRelease =>
    ⟨s.m.setNewDispRelease, fun k => (s.place k).flush.newDispRelease,
      s.flushed + s.m.pValidPictureQueue.length⟩
  | .requestReleasePicture =>
    let (m, node) := s.m.requestReleasePicture
    { s with m := m, place := handOut s.place (fun _ => .released) node }
  | .returnReleasePicture pic bForbidUseFlag =>
    let (m, node) := s.m.returnReleasePicture pic bForbidUseFlag
    { s with m := m, place := handOut s.place (fun _ => .provided bForbidUseFlag) node }

abbrev frames : Machine State Input := ⟨fun s i => some (next s i)⟩

/-- At first every node is empty, or waits for its buffer. -/
def start (m : Fbm) : State :=
  ⟨m, fun k => if k < m.nMaxFrameNum ∧ ¬m.bUseGpuBuf then .empty else .absent, 0⟩

/-- The display still holds the buffer of the node, or has given it away. -/
def Live (s : State) (k : Nat) : Prop := s.place k ≠ .absent ∧ s.place k ≠ .released

/-- A buffer that the display provides has an id and a descriptor of its own. -/
def Fresh (s : State) (pic : VideoPicture) : Prop :=
  pic.nBufId ≠ fbmNewDispInvalidTag ∧
    ∀ k, Live s k → (s.m.pFrames k).vpicture.nBufFd ≠ pic.nBufFd

/-- The decoder returns and shares what it holds, and shares it once. The renderer
returns what it holds, also what the display was told not to use. The display
provides as many buffers as it was asked for, each a fresh one, and returns a
buffer where it has been given one for release. -/
def WellBehaved (s : State) : Input → Prop
  | .returnBuffer k _ => (s.place k).byDecoder
  | .shareBuffer k => s.place k = .decoder
  | .returnPicture k => (s.place k).byRender ∨ s.place k = .forbidden
  | .setFbmBufAddress pic _ =>
    s.m.bUseGpuBuf ∧ s.m.pFbmInfo.nValidBufNum < s.m.pFbmInfo.nBufNum ∧ Fresh s pic
  | .setNewDispRelease | .requestReleasePicture => s.m.bUseGpuBuf
  | .returnReleasePicture pic _ => s.m.bUseGpuBuf ∧ (∃ k, s.place k = .released) ∧ Fresh s pic
  | _ => True

/-- Every node is where it should be: the queues list the nodes in their place, each
once and no others, the flags say who holds a node, and the counters are right.
`nWaitForDispNum` keeps the pictures that a flush takes. -/
structure Conserved (s : State) : Prop where
  nodes : ∀ k, s.place k ≠ .absent → k < s.m.nMaxFrameNum
  empty : Places.Lists s.m.pEmptyBufferQueue s.m.nEmptyBufferNum s.place Place.inEmptyQueue
  valid : Places.Lists s.m.pValidPictureQueue s.m.nValidPictureNum s.place Place.inValidQueue
  release :
    Places.Lists s.m.pReleaseBufferQueue s.m.nReleaseBufferNum s.place Place.inReleaseQueue
  flag : ∀ k, (s.m.pFrames k).flag = (s.place k).flag (s.m.pFrames k).flag.bNeedRelease
  decoderNum : s.m.nDecoderHoldingNum =
    Places.count s.m.nMaxFrameNum s.place Place.byDecoder
  renderNum : s.m.nRenderHoldingNum = Places.count s.m.nMaxFrameNum s.place Place.byRender
  waitNum : s.m.nWaitForDispNum = s.m.nValidPictureNum + s.flushed

/-- The call conserves the nodes, and a return of a picture succeeds and changes no
other node. -/
def Exact (s : State) (i : Input) : Prop :=
  Conserved (next s i) ∧
    ∀ k, i = .returnPicture k →
      (s.m.returnPicture (s.m.pFrames k).vpicture).1 = 0 ∧
        ∀ j, j ≠ k → (next s i).m.pFrames j = s.m.pFrames j

/-- No buffer that is marked for release comes back from the decoder or the renderer;
in thumbnail mode, with buffers of the manager, only the picture of the first node
comes back; the display provides no buffer where there is no frame; and where there
are so many frames that their ids reach the tags, no id is mistaken for a tag. -/
def Sound (s : State) : Input → Prop
  | .returnBuffer k _ => (s.m.pFrames k).flag.bNeedRelease = false
  | .returnPicture k =>
    if s.m.bUseGpuBuf then
      (s.m.pFrames k).flag.bNeedRelease = false ∧
        (s.place k = .forbidden → s.m.nMaxFrameNum ≤ k + frmForbidUseTag)
    else s.m.bThumbnailMode → k = 0
  | .setFbmBufAddress _ _ => s.m.pFbmInfo.nValidBufNum < s.m.nMaxFrameNum
  | .returnReleasePicture _ _ =>
    ∀ k : Nat, k = frmReleaseTag → (s.m.pFrames k).flag.bNeedRelease →
      s.place k = .released ∨ s.place k = .forbidden ∨ ∃ j < k, s.place j = .released
  | _ => True

end Frames

end Melis.Vdec
