import Melis.Vdec.Fbm

/-!
# Every node is where it should be

A call moves one node, or a loop of it one node after the other (`Move`), and what
the manager keeps about a node goes with its place (`Tracked`). A call that is not
sound loses the node it is about: it leaves the counter or a flag of the node
behind, or acts on another node (`conserved_iff`).
-/

namespace Melis.Vdec

open Lib Function

/-- The id of node `k`. -/
def Place.id (k : Nat) : Place → Int
  | released => frmReleaseTag
  | forbidden => k + frmForbidUseTag
  | _ => k

attribute [simp] Place.byDecoder Place.byRender Place.inEmptyQueue Place.inValidQueue
  Place.inReleaseQueue Place.flag Place.id

/-- The nodes that have a buffer. -/
def Fbm.providedNum (m : Fbm) : Nat :=
  if m.bUseGpuBuf then m.pFbmInfo.nValidBufNum else m.nMaxFrameNum

namespace Frames

/-- Node `k` goes to `y`, and is `node` afterwards; `taken` says whether a flush took
it from the valid queue. -/
structure Move (s s' : State) (k : Nat) (y : Place) (node : FrameNode) (taken : Nat) : Prop where
  place : s'.place = update s.place k y
  frames : s'.m.pFrames = update s.m.pFrames k node
  nMaxFrameNum : s'.m.nMaxFrameNum = s.m.nMaxFrameNum
  bUseGpuBuf : s'.m.bUseGpuBuf = s.m.bUseGpuBuf
  bThumbnailMode : s'.m.bThumbnailMode = s.m.bThumbnailMode
  empty : Places.Shift s.m.pEmptyBufferQueue s.m.nEmptyBufferNum s'.m.pEmptyBufferQueue
    s'.m.nEmptyBufferNum k (s.place k).inEmptyQueue y.inEmptyQueue
  valid : Places.Shift s.m.pValidPictureQueue s.m.nValidPictureNum s'.m.pValidPictureQueue
    s'.m.nValidPictureNum k (s.place k).inValidQueue y.inValidQueue
  release : Places.Shift s.m.pReleaseBufferQueue s.m.nReleaseBufferNum
    s'.m.pReleaseBufferQueue s'.m.nReleaseBufferNum k (s.place k).inReleaseQueue
    y.inReleaseQueue
  flag : node.flag = y.flag node.flag.bNeedRelease
  decoderNum : s'.m.nDecoderHoldingNum =
    s.m.nDecoderHoldingNum + y.byDecoder.toNat - (s.place k).byDecoder.toNat
  renderNum : s'.m.nRenderHoldingNum =
    s.m.nRenderHoldingNum + y.byRender.toNat - (s.place k).byRender.toNat
  waitNum : s'.m.nWaitForDispNum =
    s.m.nWaitForDispNum + s'.m.nValidPictureNum - s.m.nValidPictureNum + taken
  flushed : s'.flushed = s.flushed + taken

section

variable {s s' : State} {k n : Nat} {x y : Place} {node : FrameNode} {taken : Nat}

theorem Conserved.move (h : Conserved s) (hk : k < s.m.nMaxFrameNum)
    (hm : Move s s' k y node taken) : Conserved s' := by
  have hcount : ∀ p : Place → Bool,
      (Places.count s'.m.nMaxFrameNum s'.place p : Int) =
        Places.count s.m.nMaxFrameNum s.place p + (p y).toNat - (p (s.place k)).toNat := by
    intro p
    have := Places.count_update s.place p y hk
    rw [hm.nMaxFrameNum, hm.place]
    omega
  constructor
  · intro j hj
    rw [hm.nMaxFrameNum]
    rw [hm.place] at hj
    by_cases hjk : j = k
    · subst hjk
      exact hk
    · rw [update_of_ne hjk] at hj
      exact h.nodes j hj
  · rw [hm.place]
    exact h.empty.move hm.empty
  · rw [hm.place]
    exact h.valid.move hm.valid
  · rw [hm.place]
    exact h.release.move hm.release
  · intro j
    rw [hm.place, hm.frames]
    by_cases hjk : j = k
    · subst hjk
      rw [update_self, update_self]
      exact hm.flag
    · rw [update_of_ne hjk, update_of_ne hjk]
      exact h.flag j
  · rw [hm.decoderNum, hcount, h.decoderNum]
  · rw [hm.renderNum, hcount, h.renderNum]
  · have := h.waitNum
    rw [hm.waitNum, hm.flushed]
    omega

theorem Conserved.flag_eq (h : Conserved s) (hx : s.place k = x) :
    ∃ need, (s.m.pFrames k).flag = x.flag need := ⟨_, hx ▸ h.flag k⟩

theorem requestBuffer_move (h : Conserved s) {empty : List Nat}
    (hq : s.m.pEmptyBufferQueue = k :: empty) (hx : s.place k = .empty) {need : Bool}
    (hflag : (s.m.pFrames k).flag = Place.empty.flag need) :
    Move s (next s .requestBuffer) k .decoder
      ⟨Place.decoder.flag need, (s.m.pFrames k).vpicture⟩ 0 := by
  constructor <;>
    simp [next, Fbm.requestBuffer, hq, hflag, hx, Fbm.setFlag, handOut, FrameNodeFlag.inUse,
      Places.Shift]

theorem returnBuffer_move (bValidPicture : Bool) (hid : s.m.idIsNode k) (hx : s.place k = x)
    (hd : x.byDecoder) (hflag : (s.m.pFrames k).flag = x.flag false) :
    Move s (next s (.returnBuffer k bValidPicture)) k (x.returnBuffer bValidPicture false)
      ⟨(x.returnBuffer bValidPicture false).flag false, (s.m.pFrames k).vpicture⟩ 0 := by
  rcases x with _ | _ | _ | ⟨_ | _⟩ | ⟨_ | _⟩ | _ | _ | _ | _ <;> cases hd <;>
    cases bValidPicture <;> constructor <;>
    simp [next, Fbm.returnBuffer, hid, hflag, hx, Fbm.setFlag, Fbm.enqueueEmpty,
      Fbm.enqueueValid, Place.returnBuffer, Places.Shift] <;> omega

theorem shareBuffer_move (hid : s.m.idIsNode k) (hx : s.place k = .decoder) {need : Bool}
    (hflag : (s.m.pFrames k).flag = Place.decoder.flag need) :
    Move s (next s (.shareBuffer k)) k (Place.decoder.shareBuffer need)
      ⟨(Place.decoder.shareBuffer need).flag need, (s.m.pFrames k).vpicture⟩ 0 := by
  have hsame : ({ flag := Place.decoder.flag true, vpicture := (s.m.pFrames k).vpicture } :
      FrameNode) = s.m.pFrames k ∨ need = false := by
    cases need
    · exact .inr rfl
    · exact .inl (by rw [← hflag])
  cases need <;> constructor <;>
    simp [next, Fbm.shareBuffer, hid, hflag, hx, Fbm.setFlag, Fbm.enqueueValid,
      Place.shareBuffer, Places.Shift] at hsame ⊢ <;> try omega
  exact hsame.symm

theorem requestPicture_move {valid : List Nat} (hq : s.m.pValidPictureQueue = k :: valid)
    (hx : s.place k = x) (hv : x.inValidQueue) {need : Bool}
    (hflag : (s.m.pFrames k).flag = x.flag need) :
    Move s (next s .requestPicture) k x.requestPicture
      ⟨x.requestPicture.flag need, (s.m.pFrames k).vpicture⟩ 0 := by
  rcases x with _ | _ | _ | ⟨_ | _⟩ | ⟨_ | _⟩ | _ | _ | _ | _ <;> cases hv <;> constructor <;>
    simp [next, Fbm.requestPicture, hq, hflag, hx, Fbm.setFlag, handOut, Place.requestPicture,
      Places.Shift] <;> omega

theorem returnPicture_render_move {byDecoder : Bool} {found : Nat}
    (hf : s.m.findPicture (s.m.pFrames k).vpicture = some found)
    (hid : (s.m.pFrames found).vpicture.nID = k) (hk : k < s.m.nMaxFrameNum)
    (hx : s.place k = .render byDecoder) {need : Bool}
    (hflag : (s.m.pFrames k).flag = (Place.render byDecoder).flag need) :
    (s.m.returnPicture (s.m.pFrames k).vpicture).1 = 0 ∧
      Move s (next s (.returnPicture k)) k ((Place.render byDecoder).returnPicture need)
        ⟨((Place.render byDecoder).returnPicture need).flag need, (s.m.pFrames k).vpicture⟩ 0 := by
  have hneg : ¬(k : Int) < 0 := by omega
  have hle : ¬s.m.nMaxFrameNum ≤ k := by omega
  refine ⟨?_, ?_⟩
  · cases byDecoder <;> cases need <;>
      simp [Fbm.returnPicture, hf, hid, hneg, hle, hflag, Fbm.setFlag]
  · cases byDecoder <;> cases need <;> constructor <;>
      simp [next, Fbm.returnPicture, hf, hid, hneg, hle, hflag, hx, Fbm.setFlag,
        Fbm.enqueueEmpty, Fbm.enqueueRelease, Place.returnPicture, Places.Shift]

theorem returnPicture_forbidden_move
    (hf : s.m.findPicture (s.m.pFrames k).vpicture = some k)
    (hid : (s.m.pFrames k).vpicture.nID = k + frmForbidUseTag)
    (hmax : s.m.nMaxFrameNum ≤ k + frmForbidUseTag) (hx : s.place k = .forbidden)
    (hflag : (s.m.pFrames k).flag = Place.forbidden.flag false) :
    (s.m.returnPicture (s.m.pFrames k).vpicture).1 = 0 ∧
      Move s (next s (.returnPicture k)) k .empty
        ⟨Place.empty.flag false, { (s.m.pFrames k).vpicture with nID := k }⟩ 0 := by
  have hindex : (k : Int) + frmForbidUseTag < 0 ∨ (s.m.nMaxFrameNum : Int) ≤ k + frmForbidUseTag :=
    .inr hmax
  have htag : frmForbidUseTag ≤ k + frmForbidUseTag := by omega
  have hnode : ((k : Int) + frmForbidUseTag - frmForbidUseTag).toNat = k := by omega
  refine ⟨?_, ?_⟩
  · simp [Fbm.returnPicture, hf, hid, hindex, hnode, htag, hflag]
  · constructor <;>
      simp [next, Fbm.returnPicture, hf, hid, hindex, hnode, htag, hflag, hx, Fbm.setPicture,
        Fbm.enqueueEmpty, Place.returnPicture, Places.Shift]

theorem setFbmBufAddress_move (pic : VideoPicture) (bForbidUseFlag : Bool)
    (hk : s.m.pFbmInfo.nValidBufNum = k) (hx : s.place k = .absent) {need : Bool}
    (hflag : (s.m.pFrames k).flag = Place.absent.flag need) :
    Move s (next s (.setFbmBufAddress pic bForbidUseFlag)) k (.provided bForbidUseFlag)
      ⟨(Place.provided bForbidUseFlag).flag need,
        { pic with nID := (Place.provided bForbidUseFlag).id k }⟩ 0 := by
  cases bForbidUseFlag <;> constructor <;>
    simp [next, Fbm.setFbmBufAddress, hk, hflag, hx, Fbm.setPicture, Fbm.enqueueEmpty,
      Place.provided, Places.Shift]

theorem requestReleasePicture_move {release : List Nat}
    (hq : s.m.pReleaseBufferQueue = k :: release) (hx : s.place k = .release) {need : Bool}
    (hflag : (s.m.pFrames k).flag = Place.release.flag need) :
    Move s (next s .requestReleasePicture) k .released
      ⟨Place.released.flag need, { (s.m.pFrames k).vpicture with nID := frmReleaseTag }⟩ 0 := by
  constructor <;>
    simp [next, Fbm.requestReleasePicture, hq, hflag, hx, Fbm.setPicture, handOut, Places.Shift]

theorem returnReleasePicture_move (pic : VideoPicture) (bForbidUseFlag : Bool)
    (hf : s.m.findRelease = some k) (hx : s.place k = .released) {need : Bool}
    (hflag : (s.m.pFrames k).flag = Place.released.flag need) :
    Move s (next s (.returnReleasePicture pic bForbidUseFlag)) k (.provided bForbidUseFlag)
      ⟨(Place.provided bForbidUseFlag).flag false,
        { pic with nID := (Place.provided bForbidUseFlag).id k }⟩ 0 := by
  cases bForbidUseFlag <;> constructor <;>
    simp [next, Fbm.returnReleasePicture, hf, hflag, hx, Fbm.setPicture, Fbm.setFlag, handOut,
      Fbm.enqueueEmpty, Place.provided, Places.Shift]

theorem eq_queued (hx : x.inValidQueue) : ∃ byDecoder, x = .queued byDecoder := by
  rcases x with _ | _ | _ | _ | _ | _ | _ | _ | _ <;> first | exact ⟨_, rfl⟩ | cases hx

theorem eq_empty (hx : x.inEmptyQueue) : x = .empty := by
  rcases x with _ | _ | _ | _ | _ | _ | _ | _ | _ <;> first | rfl | cases hx

theorem eq_release (hx : x.inReleaseQueue) : x = .release := by
  rcases x with _ | _ | _ | _ | _ | _ | _ | _ | _ <;> first | rfl | cases hx

/-! ## What is kept about a node -/

/-- What holds with the marks left out of account. -/
structure Known (s : State) : Prop extends Conserved s where
  nID : ∀ k, (s.m.pFrames k).vpicture.nID = (s.place k).id k
  absent : ∀ k, s.place k = .absent ↔ s.m.providedNum ≤ k
  nBufId : s.m.bUseGpuBuf → ∀ k,
    (s.m.pFrames k).vpicture.nBufId = fbmNewDispInvalidTag ↔ s.place k = .absent
  nBufFd : s.m.bUseGpuBuf → ∀ i j, Live s i → Live s j →
    (s.m.pFrames i).vpicture.nBufFd = (s.m.pFrames j).vpicture.nBufFd → i = j
  phyYBufAddr : s.m.bUseGpuBuf = false → ∀ i < s.m.nMaxFrameNum, ∀ j < s.m.nMaxFrameNum,
    (s.m.pFrames i).vpicture.phyYBufAddr = (s.m.pFrames j).vpicture.phyYBufAddr ↔
      s.m.bThumbnailMode ∨ i = j

/-- The places where a node is marked for release, and where it is not. -/
structure MarkFits (bUseGpuBuf bNeedRelease : Bool) (place : Place) : Prop where
  unmarked : place = .absent ∨ place = .empty ∨ place.inValidQueue → bNeedRelease = false
  marked : place = .release ∨ place = .released → bNeedRelease = true
  own : bUseGpuBuf = false → bNeedRelease = false ∧ place ≠ .forbidden

/-- The places that say nothing of the mark, or not of a mark that is not set. -/
theorem MarkFits.keep {bUseGpuBuf need : Bool} (h : MarkFits bUseGpuBuf need x)
    (hy : need = false ∨ ¬(y = .absent ∨ y = .empty ∨ y.inValidQueue))
    (hr : ¬(y = .release ∨ y = .released)) (hf : y ≠ .forbidden) :
    MarkFits bUseGpuBuf need y :=
  ⟨fun hp => hy.resolve_right fun hn => hn hp, fun hp => absurd hp hr,
    fun hown => ⟨(h.own hown).1, hf⟩⟩

structure Tracked (s : State) : Prop extends Known s where
  mark : ∀ k, MarkFits s.m.bUseGpuBuf (s.m.pFrames k).flag.bNeedRelease (s.place k)

theorem Known.move (h : Known s) (hk : k < s.m.nMaxFrameNum) (hm : Move s s' k y node taken)
    (hid : node.vpicture.nID = y.id k)
    (habs : ∀ j, s'.place j = .absent ↔ s'.m.providedNum ≤ j)
    (hbuf : s.m.bUseGpuBuf → (node.vpicture.nBufId = fbmNewDispInvalidTag ↔ y = .absent))
    (hfd : s.m.bUseGpuBuf → y ≠ .released → ∀ j, j ≠ k → Live s j →
      (s.m.pFrames j).vpicture.nBufFd ≠ node.vpicture.nBufFd)
    (haddr : s.m.bUseGpuBuf = false →
      node.vpicture.phyYBufAddr = (s.m.pFrames k).vpicture.phyYBufAddr) : Known s' := by
  have hnode : s'.m.pFrames k = node := by rw [hm.frames, update_self]
  have hother : ∀ j, j ≠ k → s'.m.pFrames j = s.m.pFrames j := fun j hj => by
    rw [hm.frames, update_of_ne hj]
  have hplace : s'.place k = y := by rw [hm.place, update_self]
  have hplaces : ∀ j, j ≠ k → s'.place j = s.place j := fun j hj => by
    rw [hm.place, update_of_ne hj]
  have hlive : ∀ j, j ≠ k → Live s' j → Live s j := fun j hj hl => by
    unfold Live at hl
    rwa [hplaces j hj] at hl
  refine ⟨h.toConserved.move hk hm, ?_, habs, ?_, ?_, ?_⟩
  · intro j
    by_cases hj : j = k
    · subst hj
      rw [hnode, hplace, hid]
    · rw [hother j hj, hplaces j hj]
      exact h.nID j
  · intro hgpu j
    rw [hm.bUseGpuBuf] at hgpu
    by_cases hj : j = k
    · subst hj
      rw [hnode, hplace]
      exact hbuf hgpu
    · rw [hother j hj, hplaces j hj]
      exact h.nBufId hgpu j
  · intro hgpu i j hi hj he
    rw [hm.bUseGpuBuf] at hgpu
    by_cases hik : i = k <;> by_cases hjk : j = k
    · rw [hik, hjk]
    · subst hik
      rw [hnode, hother j hjk] at he
      have hy : y ≠ .released := hplace ▸ hi.2
      exact absurd he.symm (hfd hgpu hy j hjk (hlive j hjk hj))
    · subst hjk
      rw [hnode, hother i hik] at he
      have hy : y ≠ .released := hplace ▸ hj.2
      exact absurd he (hfd hgpu hy i hik (hlive i hik hi))
    · rw [hother i hik, hother j hjk] at he
      exact h.nBufFd hgpu i j (hlive i hik hi) (hlive j hjk hj) he
  · intro hgpu i hi j hj
    rw [hm.bUseGpuBuf] at hgpu
    rw [hm.nMaxFrameNum] at hi hj
    have hsame : ∀ j, (s'.m.pFrames j).vpicture.phyYBufAddr =
        (s.m.pFrames j).vpicture.phyYBufAddr := by
      intro j
      by_cases hjk : j = k
      · subst hjk
        rw [hnode, haddr hgpu]
      · rw [hother j hjk]
    rw [hsame, hsame, hm.bThumbnailMode]
    exact h.phyYBufAddr hgpu i hi j hj

/-- A node keeps its buffer. -/
theorem Known.keep (h : Known s) (hm : Move s s' k y node taken)
    (hinfo : s'.m.pFbmInfo = s.m.pFbmInfo)
    (hpic : node.vpicture = { (s.m.pFrames k).vpicture with nID := y.id k })
    (hx : s.place k ≠ .absent) (hr : s.place k ≠ .released) (hy : y ≠ .absent) : Known s' := by
  have hprovided : s'.m.providedNum = s.m.providedNum := by
    unfold Fbm.providedNum
    rw [hm.bUseGpuBuf, hm.nMaxFrameNum, hinfo]
  apply h.move (h.nodes k hx) hm
  · rw [hpic]
  · intro j
    rw [hprovided, hm.place, ← h.absent]
    by_cases hj : j = k
    · subst hj
      simp [hy, hx]
    · rw [update_of_ne hj]
  · intro hgpu
    rw [hpic]
    exact (h.nBufId hgpu k).trans (iff_of_false hx hy)
  · intro hgpu _ j hj hl he
    rw [hpic] at he
    exact hj (h.nBufFd hgpu j k hl ⟨hx, hr⟩ he)
  · intro _
    rw [hpic]

/-- A node gets a fresh buffer. -/
theorem Known.provide (h : Known s) {pic : VideoPicture} (hk : k < s.m.nMaxFrameNum)
    (hm : Move s s' k y node taken)
    (habs : ∀ j, s'.place j = .absent ↔ s'.m.providedNum ≤ j)
    (hpic : node.vpicture = { pic with nID := y.id k })
    (hgpu : s.m.bUseGpuBuf) (hfresh : Fresh s pic) (hy : y ≠ .absent) : Known s' := by
  apply h.move hk hm _ habs
  · intro _
    rw [hpic]
    exact iff_of_false hfresh.1 hy
  · intro _ _ j _ hl
    rw [hpic]
    exact hfresh.2 j hl
  · intro hown
    exact absurd (hgpu.symm.trans hown) Bool.noConfusion
  · rw [hpic]

theorem Tracked.move (h : Tracked s) (hk : Known s') (hm : Move s s' k y node taken)
    (hmark : MarkFits s.m.bUseGpuBuf node.flag.bNeedRelease y) : Tracked s' := by
  refine ⟨hk, fun j => ?_⟩
  rw [hm.bUseGpuBuf, hm.frames, hm.place]
  by_cases hj : j = k
  · subst hj
    rwa [update_self, update_self]
  · rw [update_of_ne hj, update_of_ne hj]
    exact h.mark j

theorem Known.withID (h : Known s) {i : Int} (hi : i = (s.place k).id k) :
    { (s.m.pFrames k).vpicture with nID := i } = (s.m.pFrames k).vpicture := by
  rw [hi, ← h.nID k]

/-! ## The loops -/

@[simp] theorem flush_flush : x.flush.flush = x.flush := by
  rcases x with _ | _ | _ | ⟨_ | _⟩ | ⟨_ | _⟩ | _ | _ | _ | _ <;> rfl

theorem flush_eq_self (hx : x.inValidQueue = false) : x.flush = x := by
  rcases x with _ | _ | _ | ⟨_ | _⟩ | ⟨_ | _⟩ | _ | _ | _ | _ <;> first | rfl | cases hx

/-- What the loops and the marking leave alone. -/
structure Same (m m' : Fbm) : Prop where
  nMaxFrameNum : m'.nMaxFrameNum = m.nMaxFrameNum
  bUseGpuBuf : m'.bUseGpuBuf = m.bUseGpuBuf
  bThumbnailMode : m'.bThumbnailMode = m.bThumbnailMode
  pFbmInfo : m'.pFbmInfo = m.pFbmInfo
  need : ∀ k, (m'.pFrames k).flag.bNeedRelease = (m.pFrames k).flag.bNeedRelease

/-- One turn of the loop of `FbmFlush`. -/
def flushed (s : State) (k : Nat) (valid : List Nat) : State :=
  let m :=
    { s.m with pValidPictureQueue := valid, nValidPictureNum := s.m.nValidPictureNum - 1 }.setFlag k
      fun flag => { flag with bInValidPictureQueue := false }
  ⟨if !(s.m.pFrames k).flag.bUsedByDecoder then m.enqueueEmpty k
    else m.setFlag k fun flag => { flag with bAlreadyDisplayed := true },
    update s.place k (s.place k).flush, s.flushed + 1⟩

theorem flushed_move {valid : List Nat} (hq : s.m.pValidPictureQueue = k :: valid)
    (hx : s.place k = x) (hv : x.inValidQueue) {need : Bool}
    (hflag : (s.m.pFrames k).flag = x.flag need) :
    Move s (flushed s k valid) k x.flush ⟨x.flush.flag need, (s.m.pFrames k).vpicture⟩ 1 := by
  rcases x with _ | _ | _ | ⟨_ | _⟩ | ⟨_ | _⟩ | _ | _ | _ | _ <;> cases hv <;> constructor <;>
    simp [flushed, hq, hflag, hx, Fbm.setFlag, Fbm.enqueueEmpty, Place.flush,
      Places.Shift] <;> omega

theorem flushLoop_cons {valid : List Nat} (hv : x.inValidQueue) {need : Bool}
    (hflag : (s.m.pFrames k).flag = x.flag need) :
    s.m.flushLoop (k :: valid) = (flushed s k valid).m.flushLoop valid := by
  rcases x with _ | _ | _ | ⟨_ | _⟩ | ⟨_ | _⟩ | _ | _ | _ | _ <;> cases hv <;>
    simp [Fbm.flushLoop, flushed, hflag]

theorem Same.of_move (hm : Move s s' k y node taken)
    (hinfo : s'.m.pFbmInfo = s.m.pFbmInfo)
    (hneed : node.flag.bNeedRelease = (s.m.pFrames k).flag.bNeedRelease) : Same s.m s'.m := by
  refine ⟨hm.nMaxFrameNum, hm.bUseGpuBuf, hm.bThumbnailMode, hinfo, fun j => ?_⟩
  rw [hm.frames]
  by_cases hj : j = k
  · subst hj
    rw [update_self, hneed]
  · rw [update_of_ne hj]

theorem Same.trans {m m' m'' : Fbm} (h : Same m m') (h' : Same m' m'') : Same m m'' :=
  ⟨h'.nMaxFrameNum.trans h.nMaxFrameNum, h'.bUseGpuBuf.trans h.bUseGpuBuf,
    h'.bThumbnailMode.trans h.bThumbnailMode, h'.pFbmInfo.trans h.pFbmInfo,
    fun k => (h'.need k).trans (h.need k)⟩

theorem flushLoop_known {valid : List Nat} (h : Known s)
    (hq : s.m.pValidPictureQueue = valid) :
    Known ⟨s.m.flushLoop valid, fun k => (s.place k).flush, s.flushed + valid.length⟩ ∧
      Same s.m (s.m.flushLoop valid) := by
  induction valid generalizing s with
  | nil =>
    have hplace : (fun k => (s.place k).flush) = s.place := by
      funext k
      apply flush_eq_self
      have := (h.valid.mem_iff k).not
      rw [hq] at this
      simpa using this
    rw [hplace]
    exact ⟨h, rfl, rfl, rfl, rfl, fun _ => rfl⟩
  | cons k valid ih =>
    have hv : (s.place k).inValidQueue := by
      rw [← h.valid.mem_iff, hq]
      exact List.mem_cons_self
    obtain ⟨need, hflag⟩ := h.flag_eq (k := k) rfl
    have hm := flushed_move hq rfl hv hflag
    have hplace : (fun j => ((flushed s k valid).place j).flush) = fun j => (s.place j).flush := by
      funext j
      rw [hm.place]
      by_cases hj : j = k
      · subst hj
        simp
      · rw [update_of_ne hj]
    have hinfo : (flushed s k valid).m.pFbmInfo = s.m.pFbmInfo := by
      unfold flushed
      cases (s.m.pFrames k).flag.bUsedByDecoder <;> rfl
    have hvalid : (flushed s k valid).m.pValidPictureQueue = valid := by
      unfold flushed
      cases (s.m.pFrames k).flag.bUsedByDecoder <;> rfl
    have hknown : Known (flushed s k valid) := by
      obtain ⟨byDecoder, hx⟩ := eq_queued hv
      apply h.keep hm hinfo
      · rw [h.withID]
        rw [hx]
        cases byDecoder <;> rfl
      all_goals rw [hx]
      · nofun
      · nofun
      · cases byDecoder <;> nofun
    obtain ⟨hrest, hsame⟩ := ih hknown hvalid
    rw [hplace] at hrest
    rw [flushLoop_cons hv hflag]
    refine ⟨?_, (Same.of_move hm hinfo ?_).trans hsame⟩
    · have hlen : (flushed s k valid).flushed + valid.length =
          s.flushed + (k :: valid).length := by
        rw [hm.flushed, List.length_cons]
        omega
      rwa [hlen] at hrest
    · rw [hflag]
      rfl

/-- One turn of the loop of `FbmNewDispRelease`. -/
def toRelease (s : State) (k : Nat) (empty : List Nat) : State :=
  ⟨{ s.m with
      pEmptyBufferQueue := empty
      nEmptyBufferNum := s.m.nEmptyBufferNum - 1 }.enqueueRelease k,
    update s.place k .release, s.flushed⟩

theorem toRelease_move {empty : List Nat} (hq : s.m.pEmptyBufferQueue = k :: empty)
    (hx : s.place k = .empty) {need : Bool} (hflag : (s.m.pFrames k).flag = Place.empty.flag need) :
    Move s (toRelease s k empty) k .release (s.m.pFrames k) 0 := by
  constructor <;>
    simp [toRelease, hq, hflag, hx, Fbm.enqueueRelease, Places.Shift]

theorem newDispReleaseLoop_cons {empty : List Nat} {need : Bool}
    (hflag : (s.m.pFrames k).flag = Place.empty.flag need) :
    s.m.newDispReleaseLoop (k :: empty) = (toRelease s k empty).m.newDispReleaseLoop empty := by
  simp [Fbm.newDispReleaseLoop, toRelease, hflag, FrameNodeFlag.inUse]

theorem newDispReleaseLoop_known {empty : List Nat} (h : Known s)
    (hq : s.m.pEmptyBufferQueue = empty) :
    Known ⟨s.m.newDispReleaseLoop empty, fun k => (s.place k).newDispRelease, s.flushed⟩ ∧
      Same s.m (s.m.newDispReleaseLoop empty) := by
  induction empty generalizing s with
  | nil =>
    have hplace : (fun k => (s.place k).newDispRelease) = s.place := by
      funext k
      have := (h.empty.mem_iff k).not
      rw [hq] at this
      cases hx : s.place k <;> simp [hx] at this <;> rfl
    rw [hplace]
    exact ⟨h, rfl, rfl, rfl, rfl, fun _ => rfl⟩
  | cons k empty ih =>
    have hx : s.place k = .empty := by
      apply eq_empty
      rw [← h.empty.mem_iff, hq]
      exact List.mem_cons_self
    obtain ⟨need, hflag⟩ := h.flag_eq hx
    have hm := toRelease_move hq hx hflag
    have hplace : (fun j => ((toRelease s k empty).place j).newDispRelease) =
        fun j => (s.place j).newDispRelease := by
      funext j
      rw [hm.place]
      by_cases hj : j = k
      · subst hj
        rw [update_self, hx]
        rfl
      · rw [update_of_ne hj]
    have hknown : Known (toRelease s k empty) := by
      apply h.keep hm rfl
      · rw [h.withID]
        rw [hx]
        rfl
      · rw [hx]
        nofun
      · rw [hx]
        nofun
      · nofun
    obtain ⟨hrest, hsame⟩ := ih hknown rfl
    rw [hplace] at hrest
    rw [newDispReleaseLoop_cons hflag]
    exact ⟨hrest, (Same.of_move hm rfl rfl).trans hsame⟩

theorem needRelease_known (h : Known s) : Known { s with m := s.m.needRelease } := by
  have hpic : ∀ k, (s.m.needRelease.pFrames k).vpicture = (s.m.pFrames k).vpicture := by
    intro k
    unfold Fbm.needRelease
    dsimp only
    split <;> rfl
  have hflag : ∀ k, ∃ need, (s.m.needRelease.pFrames k).flag =
      { (s.m.pFrames k).flag with bNeedRelease := need } := by
    intro k
    unfold Fbm.needRelease
    dsimp only
    split
    · exact ⟨true, rfl⟩
    · exact ⟨_, rfl⟩
  constructor
  · constructor
    · exact h.nodes
    · exact h.empty
    · exact h.valid
    · exact h.release
    · intro k
      obtain ⟨need, hneed⟩ := hflag k
      dsimp only
      rw [hneed, h.flag k]
      rfl
    · exact h.decoderNum
    · exact h.renderNum
    · exact h.waitNum
  · intro k
    dsimp only
    rw [hpic]
    exact h.nID k
  · exact h.absent
  · intro hgpu k
    dsimp only
    rw [hpic]
    exact h.nBufId hgpu k
  · intro hgpu i j
    dsimp only
    rw [hpic, hpic]
    exact h.nBufFd hgpu i j
  · intro hgpu i hi j hj
    dsimp only
    rw [hpic, hpic]
    exact h.phyYBufAddr hgpu i hi j hj

theorem needRelease_need (h : Tracked s) (hgpu : s.m.bUseGpuBuf) (k : Nat) :
    (s.m.needRelease.pFrames k).flag.bNeedRelease = !(s.place k = .absent) := by
  by_cases habs : s.place k = .absent
  · have hbuf := (h.nBufId hgpu k).2 habs
    have hneed := (h.mark k).unmarked (.inl habs)
    simp [Fbm.needRelease, hbuf, hneed, habs]
  · have hbuf := (h.nBufId hgpu k).not.2 habs
    simp [Fbm.needRelease, hbuf, h.nodes k habs, habs]

theorem markFits_released (p : Place) :
    MarkFits true (!(p = .absent)) p.flush.newDispRelease := by
  rcases p with _ | _ | _ | ⟨_ | _⟩ | ⟨_ | _⟩ | _ | _ | _ | _ <;> constructor <;>
    simp [Place.flush, Place.newDispRelease]

theorem Tracked.setNewDispRelease (h : Tracked s) (hgpu : s.m.bUseGpuBuf) :
    Tracked (next s .setNewDispRelease) := by
  obtain ⟨hflush, hsame⟩ := flushLoop_known (needRelease_known h.toKnown) rfl
  obtain ⟨hrelease, hsame'⟩ := newDispReleaseLoop_known hflush rfl
  have hall := hsame.trans hsame'
  have hgpu' : (next s .setNewDispRelease).m.bUseGpuBuf = true := hall.bUseGpuBuf.trans hgpu
  refine ⟨hrelease, fun k => ?_⟩
  have hneed : ((next s .setNewDispRelease).m.pFrames k).flag.bNeedRelease =
      !(s.place k = .absent) := (hall.need k).trans (needRelease_need h hgpu k)
  rw [hgpu', hneed]
  exact markFits_released (s.place k)

theorem Tracked.flush (h : Tracked s) : Tracked (next s .flush) := by
  obtain ⟨hknown, hsame⟩ := flushLoop_known h.toKnown rfl
  refine ⟨hknown, fun k => ?_⟩
  have hgpu : (next s .flush).m.bUseGpuBuf = s.m.bUseGpuBuf := hsame.bUseGpuBuf
  have hneed : ((next s .flush).m.pFrames k).flag.bNeedRelease =
      (s.m.pFrames k).flag.bNeedRelease := hsame.need k
  rw [hgpu, hneed]
  have hmark := h.mark k
  show MarkFits _ _ (s.place k).flush
  rcases hx : s.place k with _ | _ | _ | ⟨_ | _⟩ | ⟨_ | _⟩ | _ | _ | _ | _ <;> rw [hx] at hmark <;>
    first
    | exact hmark
    | constructor <;> simp [Place.flush, hmark.unmarked (.inr (.inr rfl))]

/-! ## The searches -/

theorem Known.lt_of_ne_absent (h : Known s) {j : Nat} (hk : s.place k ≠ .absent) (hj : j ≤ k) :
    s.place j ≠ .absent := by
  rw [ne_eq, h.absent] at hk ⊢
  omega

theorem Tracked.live_of_unmarked (h : Tracked s) (hk : s.place k ≠ .absent)
    (hneed : (s.m.pFrames k).flag.bNeedRelease = false) : Live s k := by
  refine ⟨hk, fun hr => ?_⟩
  have := (h.mark k).marked (.inr hr)
  rw [hneed] at this
  cases this

/-- The search by descriptor finds a picture that is not marked. -/
theorem Tracked.findPicture_gpu (h : Tracked s) (hgpu : s.m.bUseGpuBuf) (hk : s.place k ≠ .absent)
    (hneed : (s.m.pFrames k).flag.bNeedRelease = false) :
    s.m.findPicture (s.m.pFrames k).vpicture = some k := by
  unfold Fbm.findPicture
  rw [List.find?_range_eq_some]
  refine ⟨by simp [hgpu, hneed], List.mem_range.2 (h.nodes k hk), fun j hj => ?_⟩
  have hjk := h.lt_of_ne_absent hk hj.le
  by_contra hmatch
  simp only [hgpu, if_true, Bool.not_eq_true', Bool.not_eq_false, Bool.and_eq_true,
    beq_iff_eq] at hmatch
  have hlive := h.live_of_unmarked hjk hmatch.2
  have := h.nBufFd hgpu k j (h.live_of_unmarked hk hneed) hlive hmatch.1
  omega

/-- The search by address finds the first node with the buffer. -/
theorem Known.findPicture_own (h : Known s) (hgpu : s.m.bUseGpuBuf = false)
    (hk : k < s.m.nMaxFrameNum) :
    s.m.findPicture (s.m.pFrames k).vpicture = some (if s.m.bThumbnailMode then 0 else k) := by
  unfold Fbm.findPicture
  rw [List.find?_range_eq_some]
  cases hthumb : s.m.bThumbnailMode
  · refine ⟨by simp [hgpu], List.mem_range.2 hk, fun j hj => ?_⟩
    have hj' : j < k := hj
    have := (h.phyYBufAddr hgpu k hk j (by omega)).not.2
      (by simp only [hthumb, Bool.false_eq_true, false_or]; omega)
    simpa [hgpu] using this
  · have := (h.phyYBufAddr hgpu k hk 0 (by omega)).2 (.inl hthumb)
    refine ⟨by simp [hgpu, this], List.mem_range.2 (by simp only [if_true]; omega), ?_⟩
    intro j hj
    exact absurd hj (Nat.not_lt_zero j)

/-- A marked picture is not found, and what is found in its place has no buffer. -/
theorem Tracked.returnPicture_marked (h : Tracked s) (hgpu : s.m.bUseGpuBuf) (hk : Live s k)
    (hneed : (s.m.pFrames k).flag.bNeedRelease = true) :
    (s.m.returnPicture (s.m.pFrames k).vpicture).1 = -1 := by
  unfold Fbm.returnPicture
  split
  · rfl
  next i hi =>
    unfold Fbm.findPicture at hi
    rw [List.find?_range_eq_some] at hi
    obtain ⟨hmatch, hmem, -⟩ := hi
    simp only [hgpu, if_true, Bool.and_eq_true, beq_iff_eq, Bool.not_eq_true'] at hmatch
    have habs : s.place i = .absent := by
      by_contra hne
      have := h.nBufFd hgpu k i hk (h.live_of_unmarked hne hmatch.2) hmatch.1
      rw [this, hmatch.2] at hneed
      cases hneed
    have hid := h.nID i
    have hlt := List.mem_range.1 hmem
    obtain ⟨need, hflag⟩ := h.flag_eq habs
    have hneg : ¬(i : Int) < 0 := by omega
    rw [habs] at hid
    simp [hid, hneg, hlt.not_ge, hflag]

/-- Where another node than that of the picture is found, it is that node that the
renderer loses. -/
theorem returnPicture_acts {m : Fbm} {pic : VideoPicture} {found i : Nat}
    (hf : m.findPicture pic = some found) (hid : (m.pFrames found).vpicture.nID = i)
    (hi : i < m.nMaxFrameNum) (h0 : (m.returnPicture pic).1 = 0) :
    (m.returnPicture pic).2.1.pFrames i ≠ m.pFrames i := by
  have hneg : ¬(i : Int) < 0 := by omega
  unfold Fbm.returnPicture at h0 ⊢
  simp only [hf, hid, hneg, false_or, Int.ofNat_le, hi.not_ge, if_false, Int.toNat_natCast] at h0 ⊢
  split at h0
  · cases h0
  next hok =>
    rw [if_neg hok]
    intro he
    have hrender : (m.pFrames i).flag.bUsedByRender = true := by
      by_contra hno
      simp [hno] at hok
    rw [← he] at hrender
    revert hrender
    split_ifs <;> simp [Fbm.setFlag, Fbm.enqueueEmpty, Fbm.enqueueRelease]

/-! ## The calls -/

theorem Known.idIsNode (h : Known s) (hd : (s.place k).byDecoder) : s.m.idIsNode k := by
  have hne : s.place k ≠ .absent := fun hx => by
    rw [hx] at hd
    cases hd
  have hid : (s.m.pFrames k).vpicture.nID = k := by
    rw [h.nID k]
    rcases hx : s.place k with _ | _ | _ | _ | _ | _ | _ | _ | _ <;> rw [hx] at hd <;>
      first | rfl | cases hd
  simp [Fbm.idIsNode, hid, h.nodes k hne]

namespace Tracked

theorem requestBuffer (h : Tracked s) : Tracked (next s .requestBuffer) := by
  rcases hq : s.m.pEmptyBufferQueue with _ | ⟨k, empty⟩
  · have hnext : next s .requestBuffer = s := by
      simp [next, Fbm.requestBuffer, hq, handOut]
    rwa [hnext]
  · have hx : s.place k = .empty := by
      apply eq_empty
      rw [← h.empty.mem_iff, hq]
      exact List.mem_cons_self
    obtain ⟨need, hflag⟩ := h.flag_eq hx
    have hm := requestBuffer_move h.toConserved hq hx hflag
    have hmark := h.mark k
    rw [hflag] at hmark
    apply h.move (h.keep hm _ _ _ _ _) hm
    · apply hmark.keep <;> simp
    · simp [next, Fbm.requestBuffer, hq, hflag, FrameNodeFlag.inUse, Fbm.setFlag]
    · rw [h.withID]
      simp [hx]
    · simp [hx]
    · simp [hx]
    · simp

theorem requestPicture (h : Tracked s) : Tracked (next s .requestPicture) := by
  rcases hq : s.m.pValidPictureQueue with _ | ⟨k, valid⟩
  · have hnext : next s .requestPicture = s := by
      simp [next, Fbm.requestPicture, hq, handOut]
    rwa [hnext]
  · have hv : (s.place k).inValidQueue := by
      rw [← h.valid.mem_iff, hq]
      exact List.mem_cons_self
    obtain ⟨byDecoder, hx⟩ := eq_queued hv
    obtain ⟨need, hflag⟩ := h.flag_eq hx
    have hm := requestPicture_move hq hx rfl hflag
    have hmark := h.mark k
    rw [hflag] at hmark
    apply h.move (h.keep hm _ _ _ _ _) hm
    · apply hmark.keep <;> simp [Place.requestPicture]
    · simp [next, Fbm.requestPicture, hq, hflag, Fbm.setFlag]
    · rw [h.withID]
      simp [hx, Place.requestPicture]
    · simp [hx]
    · simp [hx]
    · simp [Place.requestPicture]

theorem shareBuffer (h : Tracked s) (hx : s.place k = .decoder) :
    Tracked (next s (.shareBuffer k)) := by
  obtain ⟨need, hflag⟩ := h.flag_eq hx
  have hid := h.idIsNode (k := k) (by rw [hx]; rfl)
  have hm := shareBuffer_move hid hx hflag
  have hmark := h.mark k
  rw [hflag] at hmark
  apply h.move (h.keep hm _ _ _ _ _) hm
  · cases need <;> apply hmark.keep <;> simp [Place.shareBuffer]
  · cases need <;> simp [next, Fbm.shareBuffer, hid, hflag, Fbm.setFlag, Fbm.enqueueValid]
  · rw [h.withID]
    cases need <;> simp [hx, Place.shareBuffer]
  · simp [hx]
  · simp [hx]
  · cases need <;> simp [Place.shareBuffer]

theorem returnBuffer (h : Tracked s) {bValidPicture : Bool} (hd : (s.place k).byDecoder)
    (hneed : (s.m.pFrames k).flag.bNeedRelease = false) :
    Tracked (next s (.returnBuffer k bValidPicture)) := by
  have hid := h.idIsNode hd
  have hflag := h.flag k
  rw [hneed] at hflag
  have hm := returnBuffer_move bValidPicture hid rfl hd hflag
  have hmark := h.mark k
  rw [hneed] at hmark
  generalize hx : s.place k = x at *
  rcases x with _ | _ | _ | ⟨_ | _⟩ | ⟨_ | _⟩ | _ | _ | _ | _ <;> cases hd <;>
    cases bValidPicture <;> apply h.move (h.keep hm _ _ _ _ _) hm <;>
    first
    | apply hmark.keep <;> simp [Place.returnBuffer]
    | rw [h.withID]; simp [hx, Place.returnBuffer]
    | simp [hx, Place.returnBuffer]
    | simp [next, Fbm.returnBuffer, hid, hflag, Fbm.setFlag, Fbm.enqueueEmpty, Fbm.enqueueValid]

/-- What `FbmReturnPicture` finds for a picture that comes back soundly. -/
theorem findPicture (h : Tracked s) (hk : s.place k ≠ .absent)
    (hs : Sound s (.returnPicture k)) :
    s.m.findPicture (s.m.pFrames k).vpicture = some k ∧
      (s.m.pFrames k).flag.bNeedRelease = false := by
  cases hgpu : s.m.bUseGpuBuf
  · simp only [Sound, hgpu, Bool.false_eq_true, if_false] at hs
    refine ⟨?_, ((h.mark k).own hgpu).1⟩
    rw [h.findPicture_own hgpu (h.nodes k hk)]
    split
    next hthumb => rw [hs hthumb]
    next => rfl
  · simp only [Sound, hgpu, if_true] at hs
    exact ⟨h.findPicture_gpu hgpu hk hs.1, hs.1⟩

theorem returnPicture (h : Tracked s) (hw : (s.place k).byRender ∨ s.place k = .forbidden)
    (hs : Sound s (.returnPicture k)) :
    Tracked (next s (.returnPicture k)) ∧ (s.m.returnPicture (s.m.pFrames k).vpicture).1 = 0 ∧
      ∀ j, j ≠ k → (next s (.returnPicture k)).m.pFrames j = s.m.pFrames j := by
  have hk : s.place k ≠ .absent := fun habs => by simp [habs] at hw
  obtain ⟨hf, hneed⟩ := h.findPicture hk hs
  have hid := h.nID k
  have hflag := h.flag k
  have hmark := h.mark k
  rw [hneed] at hflag hmark
  rcases hw with hr | hx
  · obtain ⟨byDecoder, hx⟩ : ∃ byDecoder, s.place k = .render byDecoder := by
      rcases hx : s.place k with _ | _ | _ | _ | _ | _ | _ | _ | _ <;> rw [hx] at hr <;>
        first | exact ⟨_, rfl⟩ | cases hr
    rw [hx] at hid hflag
    obtain ⟨h0, hm⟩ := returnPicture_render_move hf hid (h.nodes k hk) hx hflag
    refine ⟨h.move (h.keep hm ?_ ?_ hk ?_ ?_) hm ?_, h0, fun j hj => ?_⟩
    · have hneg : ¬(k : Int) < 0 := by omega
      have hle := (h.nodes k hk).not_ge
      cases byDecoder <;>
        simp [next, Fbm.returnPicture, hf, hid, hneg, hle, hflag, Fbm.setFlag, Fbm.enqueueEmpty]
    · rw [h.withID]
      cases byDecoder <;> simp [hx, Place.returnPicture]
    · simp [hx]
    · cases byDecoder <;> simp [Place.returnPicture]
    · cases byDecoder <;> apply hmark.keep <;> simp [Place.returnPicture]
    · rw [hm.frames, update_of_ne hj]
  · have hgpu : s.m.bUseGpuBuf = true := by
      by_contra hown
      exact ((h.mark k).own (Bool.eq_false_iff.2 hown)).2 hx
    have hmax : (s.m.nMaxFrameNum : Int) ≤ k + frmForbidUseTag := by
      simp only [Sound, hgpu, if_true] at hs
      exact hs.2 hx
    rw [hx] at hid hflag
    obtain ⟨h0, hm⟩ := returnPicture_forbidden_move hf hid hmax hx hflag
    refine ⟨h.move (h.keep hm ?_ rfl hk ?_ ?_) hm ?_, h0, fun j hj => ?_⟩
    · have hnode : ((k : Int) + frmForbidUseTag - frmForbidUseTag).toNat = k := by omega
      have htag : frmForbidUseTag ≤ k + frmForbidUseTag := by omega
      simp [next, Fbm.returnPicture, hf, hid, hmax, htag, hnode, hflag, Fbm.setPicture,
        Fbm.enqueueEmpty]
    · simp [hx]
    · simp
    · apply hmark.keep <;> simp
    · rw [hm.frames, update_of_ne hj]

theorem setFbmBufAddress (h : Tracked s) {pic : VideoPicture} {bForbidUseFlag : Bool}
    (hgpu : s.m.bUseGpuBuf) (hfresh : Fresh s pic)
    (hlt : s.m.pFbmInfo.nValidBufNum < s.m.nMaxFrameNum) :
    Tracked (next s (.setFbmBufAddress pic bForbidUseFlag)) := by
  have hprovided : s.m.providedNum = s.m.pFbmInfo.nValidBufNum := if_pos hgpu
  have hx : s.place s.m.pFbmInfo.nValidBufNum = .absent := by
    rw [h.absent, hprovided]
  obtain ⟨need, hflag⟩ := h.flag_eq hx
  have hmark := h.mark s.m.pFbmInfo.nValidBufNum
  rw [hflag] at hmark
  have hneed : need = false := hmark.unmarked (.inl hx)
  have hm := setFbmBufAddress_move pic bForbidUseFlag rfl hx hflag
  refine h.move (h.provide hlt hm (fun j => ?_) rfl hgpu hfresh ?_) hm ?_
  · have hafter : (next s (.setFbmBufAddress pic bForbidUseFlag)).m.providedNum =
        s.m.pFbmInfo.nValidBufNum + 1 := by
      unfold Fbm.providedNum
      rw [hm.bUseGpuBuf, if_pos hgpu]
      rfl
    rw [hafter, hm.place]
    by_cases hj : j = s.m.pFbmInfo.nValidBufNum
    · subst hj
      cases bForbidUseFlag <;> simp [Place.provided]
    · rw [update_of_ne hj, h.absent, hprovided]
      omega
  · cases bForbidUseFlag <;> simp [Place.provided]
  · rw [hneed]
    cases bForbidUseFlag <;> constructor <;> simp [Place.provided, hgpu]

theorem requestReleasePicture (h : Tracked s) : Tracked (next s .requestReleasePicture) := by
  rcases hq : s.m.pReleaseBufferQueue with _ | ⟨k, release⟩
  · have hnext : next s .requestReleasePicture = s := by
      simp [next, Fbm.requestReleasePicture, hq, handOut]
    rwa [hnext]
  · have hx : s.place k = .release := by
      apply eq_release
      rw [← h.release.mem_iff, hq]
      exact List.mem_cons_self
    have hflag := h.flag k
    have hmark := h.mark k
    rw [hmark.marked (.inl hx)] at hflag hmark
    rw [hx] at hflag
    have hm := requestReleasePicture_move hq hx hflag
    refine h.move (h.keep hm ?_ rfl ?_ ?_ ?_) hm ?_
    · simp [next, Fbm.requestReleasePicture, hq, Fbm.setPicture]
    · simp [hx]
    · simp [hx]
    · simp
    · exact ⟨by simp, by simp, fun hown => ⟨(hmark.own hown).1, by simp⟩⟩

/-- Where a buffer of the display was taken for release, and no id is mistaken for the
tag, the search for the tag finds such a node. -/
theorem findRelease (h : Tracked s) (hr : ∃ k, s.place k = .released)
    {pic : VideoPicture} {bForbidUseFlag : Bool}
    (hs : Sound s (.returnReleasePicture pic bForbidUseFlag)) :
    ∃ k, s.m.findRelease = some k ∧ s.place k = .released := by
  have hmatch : ∀ i, s.place i = .released →
      ((s.m.pFrames i).flag.bNeedRelease && (s.m.pFrames i).vpicture.nID == frmReleaseTag) =
        true := by
    intro i hi
    rw [(h.mark i).marked (.inr hi), h.nID i, hi]
    simp
  obtain ⟨k, hk⟩ : ∃ k, s.m.findRelease = some k := by
    obtain ⟨i, hi⟩ := hr
    rw [← Option.isSome_iff_exists]
    unfold Fbm.findRelease
    rw [List.find?_isSome]
    exact ⟨i, List.mem_range.2 (h.nodes i (by rw [hi]; nofun)), hmatch i hi⟩
  refine ⟨k, hk, ?_⟩
  unfold Fbm.findRelease at hk
  rw [List.find?_range_eq_some] at hk
  obtain ⟨hfound, -, hfirst⟩ := hk
  rw [Bool.and_eq_true, beq_iff_eq, h.nID k] at hfound
  by_contra hno
  have hidk : s.place k ≠ .forbidden → (k : Int) = frmReleaseTag := by
    intro hf
    rw [← hfound.2]
    rcases hx : s.place k with _ | _ | _ | _ | _ | _ | _ | _ | _ <;> first | rfl | contradiction
  have hf : s.place k ≠ .forbidden := by
    intro hf
    rw [hf] at hfound
    simp [frmForbidUseTag, frmReleaseTag] at hfound
    omega
  rcases hs k (hidk hf) hfound.1 with hx | hx | ⟨j, hj, hx⟩
  · exact hno hx
  · exact hf hx
  · have := hfirst j hj
    rw [hmatch j hx] at this
    cases this

theorem returnReleasePicture (h : Tracked s) {pic : VideoPicture} {bForbidUseFlag : Bool}
    (hgpu : s.m.bUseGpuBuf) (hr : ∃ k, s.place k = .released) (hfresh : Fresh s pic)
    (hs : Sound s (.returnReleasePicture pic bForbidUseFlag)) :
    Tracked (next s (.returnReleasePicture pic bForbidUseFlag)) := by
  obtain ⟨k, hf, hx⟩ := h.findRelease hr hs
  have hne : s.place k ≠ .absent := by rw [hx]; nofun
  obtain ⟨need, hflag⟩ := h.flag_eq hx
  have hm := returnReleasePicture_move pic bForbidUseFlag hf hx hflag
  have hprovided : (next s (.returnReleasePicture pic bForbidUseFlag)).m.providedNum =
      s.m.providedNum := by
    cases bForbidUseFlag <;>
      simp [Fbm.providedNum, next, Fbm.returnReleasePicture, hf, Fbm.setPicture, Fbm.setFlag,
        Fbm.enqueueEmpty]
  refine h.move (h.provide (h.nodes k hne) hm (fun j => ?_) rfl hgpu hfresh ?_) hm ?_
  · rw [hprovided, hm.place, ← h.absent]
    by_cases hj : j = k
    · subst hj
      cases bForbidUseFlag <;> simp [Place.provided, hx]
    · rw [update_of_ne hj]
  · cases bForbidUseFlag <;> simp [Place.provided]
  · cases bForbidUseFlag <;> constructor <;> simp [Place.provided, hgpu]

theorem next (h : Tracked s) {i : Input} (hw : WellBehaved s i) (hs : Sound s i) :
    Tracked (next s i) := by
  cases i with
  | requestBuffer => exact h.requestBuffer
  | returnBuffer k bValidPicture => exact h.returnBuffer hw hs
  | shareBuffer k => exact h.shareBuffer hw
  | requestPicture => exact h.requestPicture
  | returnPicture k => exact (h.returnPicture hw hs).1
  | flush => exact h.flush
  | setFbmBufAddress pic bForbidUseFlag => exact h.setFbmBufAddress hw.1 hw.2.2 hs
  | setNewDispRelease => exact h.setNewDispRelease hw
  | requestReleasePicture => exact h.requestReleasePicture
  | returnReleasePicture pic bForbidUseFlag =>
    exact h.returnReleasePicture hw.1 hw.2.1 hw.2.2 hs

/-! ## Where a node is lost -/

/-- The decoder's return of a marked buffer leaves the decoder's count as it was. -/
theorem returnBuffer_marked (h : Tracked s) {bValidPicture : Bool} (hd : (s.place k).byDecoder)
    (hneed : (s.m.pFrames k).flag.bNeedRelease = true) :
    ¬Conserved (Frames.next s (.returnBuffer k bValidPicture)) := by
  have hk : s.place k ≠ .absent := fun habs => by simp [habs] at hd
  have hid := h.idIsNode hd
  have hnot : (s.place k).inValidQueue = false := by
    by_contra hv
    have := (h.mark k).unmarked (.inr (.inr (Bool.not_eq_false _ ▸ hv)))
    rw [hneed] at this
    cases this
  have hflagD : (s.m.pFrames k).flag.bUsedByDecoder = true := by
    rw [h.flag k]
    exact hd
  have hflagV : (s.m.pFrames k).flag.bInValidPictureQueue = false := by
    rw [h.flag k]
    exact hnot
  have hstill : (s.m.returnBuffer k bValidPicture).nDecoderHoldingNum = s.m.nDecoderHoldingNum ∧
      (s.m.returnBuffer k bValidPicture).nMaxFrameNum = s.m.nMaxFrameNum := by
    simp [Fbm.returnBuffer, hid, hflagD, hflagV, hneed, Fbm.setFlag, Fbm.enqueueRelease]
  have hgone : ((s.place k).returnBuffer bValidPicture true).byDecoder = false := by
    cases bValidPicture <;> rcases s.place k with _ | _ | _ | ⟨_ | _⟩ | ⟨_ | _⟩ | _ | _ | _ | _ <;>
      rfl
  intro hc
  have hnum := hc.decoderNum
  have hcount := Places.count_update s.place Place.byDecoder
    ((s.place k).returnBuffer bValidPicture true) (h.nodes k hk)
  simp only [Frames.next, hneed, hstill.1, hstill.2, h.decoderNum] at hnum
  simp only [hgone, hd, Bool.toNat_true, Bool.toNat_false] at hcount
  omega

theorem returnPicture_unsound (h : Tracked s)
    (hw : (s.place k).byRender ∨ s.place k = .forbidden) (hs : ¬Sound s (.returnPicture k)) :
    ¬Exact s (.returnPicture k) := by
  have hlive : Live s k := by
    constructor <;> intro hx <;> simp [hx] at hw
  have hlt := h.nodes k hlive.1
  rintro ⟨-, hex⟩
  obtain ⟨h0, hother⟩ := hex k rfl
  cases hgpu : s.m.bUseGpuBuf
  · -- in thumbnail mode node 0 is found
    simp only [Sound, hgpu, Bool.false_eq_true, if_false, Classical.not_imp] at hs
    have hf := h.findPicture_own hgpu hlt
    rw [if_pos hs.1] at hf
    have hne : s.place 0 ≠ .absent := h.lt_of_ne_absent hlive.1 (Nat.zero_le k)
    have hid : (s.m.pFrames 0).vpicture.nID = (0 : Nat) := by
      rw [h.nID 0]
      have hmark := h.mark 0
      rcases hx : s.place 0 with _ | _ | _ | _ | _ | _ | _ | _ | _ <;> first | rfl | skip
      · have := hmark.marked (.inr hx)
        rw [(hmark.own hgpu).1] at this
        cases this
      · exact absurd hx (hmark.own hgpu).2
    exact returnPicture_acts hf hid (by omega) h0 (hother 0 (Ne.symm hs.2))
  · simp only [Sound, hgpu, if_true, not_and] at hs
    cases hneed : (s.m.pFrames k).flag.bNeedRelease
    · -- the tag makes the id that of another node
      have hf := h.findPicture_gpu hgpu hlive.1 hneed
      have hforbid := hs hneed
      rw [Classical.not_imp] at hforbid
      have hid : (s.m.pFrames k).vpicture.nID = (k + 255 : Nat) := by
        rw [h.nID k, hforbid.1]
        rfl
      have hlt' : k + 255 < s.m.nMaxFrameNum := by
        have := hforbid.2
        unfold frmForbidUseTag at this
        omega
      exact returnPicture_acts hf hid hlt' h0 (hother _ (by omega))
    · rw [h.returnPicture_marked hgpu hlive hneed] at h0
      cases h0

theorem returnReleasePicture_unsound (h : Tracked s) {pic : VideoPicture} {bForbidUseFlag : Bool}
    (hs : ¬Sound s (.returnReleasePicture pic bForbidUseFlag)) :
    ¬Conserved (Frames.next s (.returnReleasePicture pic bForbidUseFlag)) := by
  have hs : ∃ k : Nat, k = frmReleaseTag ∧ (s.m.pFrames k).flag.bNeedRelease = true ∧
      s.place k ≠ .released ∧ s.place k ≠ .forbidden ∧ ∀ j < k, s.place j ≠ .released := by
    simp only [Sound] at hs
    push_neg at hs
    exact hs
  obtain ⟨k, hk, hneed, hr, hfb, hfirst⟩ := hs
  have hne : s.place k ≠ .absent := fun hx => by
    rw [(h.mark k).unmarked (.inl hx)] at hneed
    cases hneed
  have hid : ∀ j, s.place j ≠ .released → s.place j ≠ .forbidden →
      (s.m.pFrames j).vpicture.nID = j := by
    intro j h1 h2
    rw [h.nID j]
    rcases hx : s.place j with _ | _ | _ | _ | _ | _ | _ | _ | _ <;> first | rfl | contradiction
  have hf : s.m.findRelease = some k := by
    unfold Fbm.findRelease
    rw [List.find?_range_eq_some]
    refine ⟨by simp [hneed, hid k hr hfb, hk], List.mem_range.2 (h.nodes k hne), fun j hj => ?_⟩
    have hj' : (s.m.pFrames j).vpicture.nID ≠ frmReleaseTag := by
      by_cases hx : s.place j = .forbidden
      · rw [h.nID j, hx]
        simp only [Place.id, frmForbidUseTag, frmReleaseTag]
        omega
      · rw [hid j (hfirst j hj) hx, ← hk]
        omega
    simp [hj']
  intro hc
  have hplace : (Frames.next s (.returnReleasePicture pic bForbidUseFlag)).place k =
      .provided bForbidUseFlag := by
    simp [Frames.next, Fbm.returnReleasePicture, hf, handOut]
  have hflag := hc.flag k
  have hrelease := hc.release.mem_iff k
  rw [hplace] at hflag hrelease
  have hsame : (Frames.next s (.returnReleasePicture pic bForbidUseFlag)).m.pReleaseBufferQueue =
      s.m.pReleaseBufferQueue := by
    cases bForbidUseFlag <;>
      simp [Frames.next, Fbm.returnReleasePicture, hf, Fbm.setPicture, Fbm.setFlag,
        Fbm.enqueueEmpty]
  have hfree : (s.place k).byDecoder = false ∧ (s.place k).byRender = false := by
    have hold := h.flag k
    cases bForbidUseFlag <;>
      simp [Frames.next, Fbm.returnReleasePicture, hf, Fbm.setPicture, Fbm.setFlag,
        Fbm.enqueueEmpty, Place.provided] at hflag <;>
      rw [hold] at hflag <;> exact ⟨hflag.1, hflag.2.1⟩
  rw [hsame, h.release.mem_iff] at hrelease
  have hunmarked := (h.mark k).unmarked
  rw [hneed] at hunmarked
  rcases hx : s.place k with _ | _ | _ | ⟨_ | _⟩ | ⟨_ | _⟩ | _ | _ | _ | _ <;>
    simp [hx] at hr hfb hne hfree hunmarked
  rw [hx] at hrelease
  cases bForbidUseFlag <;> simp [Place.provided] at hrelease

theorem setFbmBufAddress_unsound (h : Tracked s) {pic : VideoPicture} {bForbidUseFlag : Bool}
    (hs : ¬Sound s (.setFbmBufAddress pic bForbidUseFlag)) :
    ¬Conserved (Frames.next s (.setFbmBufAddress pic bForbidUseFlag)) := by
  intro hc
  apply hs
  have hplace : (Frames.next s (.setFbmBufAddress pic bForbidUseFlag)).place
      s.m.pFbmInfo.nValidBufNum ≠ .absent := by
    show update s.place _ _ _ ≠ _
    rw [update_self]
    cases bForbidUseFlag <;> nofun
  have := hc.nodes _ hplace
  cases bForbidUseFlag <;> exact this

/-- **One call** of a well-behaved decoder, renderer and display conserves the nodes
just if it is sound. -/
theorem exact_iff (h : Tracked s) {i : Input} (hw : WellBehaved s i) : Exact s i ↔ Sound s i := by
  constructor
  · intro hex
    by_contra hs
    cases i with
    | returnBuffer k bValidPicture =>
      exact h.returnBuffer_marked hw (Bool.not_eq_false _ ▸ hs) hex.1
    | returnPicture k => exact h.returnPicture_unsound hw hs hex
    | setFbmBufAddress pic bForbidUseFlag => exact h.setFbmBufAddress_unsound hs hex.1
    | returnReleasePicture pic bForbidUseFlag => exact h.returnReleasePicture_unsound hs hex.1
    | _ => exact hs trivial
  · intro hs
    refine ⟨(h.next hw hs).toConserved, ?_⟩
    rintro k rfl
    exact (h.returnPicture hw hs).2

end Tracked

theorem start_place (m : Fbm) (k : Nat) :
    (start m).place k = .empty ∧ k < m.nMaxFrameNum ∧ m.bUseGpuBuf = false ∨
      (start m).place k = .absent ∧ (k < m.nMaxFrameNum → m.bUseGpuBuf = true) := by
  unfold start
  dsimp only
  split
  next h => exact .inl ⟨rfl, h.1, Bool.eq_false_iff.2 h.2⟩
  next h => exact .inr ⟨rfl, fun hk => by_contra fun hno => h ⟨hk, hno⟩⟩

theorem start_lists {m : Fbm} {p : Place → Bool} (hempty : p .empty = false)
    (habsent : p .absent = false) :
    Places.Lists [] 0 (start m).place p ∧ Places.count n (start m).place p = 0 := by
  have hnone : ∀ k, p ((start m).place k) = false := by
    intro k
    rcases start_place m k with ⟨hx, -⟩ | ⟨hx, -⟩
    · rwa [hx]
    · rwa [hx]
  exact ⟨⟨List.nodup_nil, by simp [hnone], rfl⟩, Places.count_eq_zero hnone⟩

/-- The manager as it is created. -/
structure Created (info : FbmCreateInfo) (alloc : Nat → Option Nat) (m : Fbm) : Prop where
  nMaxFrameNum : m.nMaxFrameNum = info.frameNum
  bUseGpuBuf : m.bUseGpuBuf = info.external
  bThumbnailMode : m.bThumbnailMode = info.bThumbnailMode
  empty : m.pEmptyBufferQueue = if info.external then [] else List.range info.frameNum
  emptyNum : m.nEmptyBufferNum = m.pEmptyBufferQueue.length
  valid : m.pValidPictureQueue = [] ∧ m.nValidPictureNum = 0
  release : m.pReleaseBufferQueue = [] ∧ m.nReleaseBufferNum = 0
  holding : m.nDecoderHoldingNum = 0 ∧ m.nRenderHoldingNum = 0 ∧ m.nWaitForDispNum = 0
  nValidBufNum : m.pFbmInfo.nValidBufNum = 0
  frames : ∀ k, m.pFrames k = ⟨Place.empty.flag false,
    ⟨k, fbmNewDispInvalidTag, 0, (info.pictureBuffer alloc k).getD 0⟩⟩
  buffer : ∀ i < info.frameNum, ∃ a, info.pictureBuffer alloc i = some a

theorem created_of_eq_some {info : FbmCreateInfo} {alloc : Nat → Option Nat} {m : Fbm}
    (hc : fbmCreateBuffer info alloc = some m) : Created info alloc m := by
  unfold fbmCreateBuffer at hc
  dsimp only at hc
  split at hc
  · cases hc
  split at hc
  · cases hc
  next halloc =>
    obtain rfl := Option.some.inj hc
    refine ⟨rfl, rfl, rfl, ?_, ?_, ⟨rfl, rfl⟩, ⟨rfl, rfl⟩, ⟨rfl, rfl, rfl⟩, rfl, fun _ => rfl,
      fun i hi => ?_⟩
    · cases info.external <;> simp [Queue.foldl_linkLast_range]
    · cases info.external <;> simp [Queue.foldl_linkLast_range]
    · rw [← Option.isSome_iff_exists, ← Option.not_isNone]
      by_contra hno
      apply halloc
      rw [List.any_eq_true]
      exact ⟨i, List.mem_range.2 hi, by simpa using hno⟩

theorem start_tracked {info : FbmCreateInfo} {alloc : Nat → Option Nat} {m : Fbm}
    (hc : fbmCreateBuffer info alloc = some m)
    (hd : ∀ i < info.frameNum, ∀ j < info.frameNum, alloc i = alloc j → i = j) :
    Tracked (start m) := by
  have h := created_of_eq_some hc
  constructor
  · constructor
    · constructor
      · intro k hk
        rcases start_place m k with ⟨-, hlt, -⟩ | ⟨hx, -⟩
        · exact hlt
        · exact absurd hx hk
      · refine ⟨?_, fun k => ?_, h.emptyNum⟩
        · show m.pEmptyBufferQueue.Nodup
          rw [h.empty]
          cases info.external <;> simp [List.nodup_range]
        · show k ∈ m.pEmptyBufferQueue ↔ _
          rw [h.empty]
          rcases start_place m k with ⟨hx, hlt, hown⟩ | ⟨hx, hno⟩ <;> rw [hx]
          · rw [h.nMaxFrameNum] at hlt
            rw [h.bUseGpuBuf] at hown
            simp [hown, hlt]
          · rw [h.nMaxFrameNum, h.bUseGpuBuf] at hno
            cases hext : info.external <;> simp [hext] at hno ⊢
            exact hno
      · show Places.Lists m.pValidPictureQueue m.nValidPictureNum _ _
        rw [h.valid.1, h.valid.2]
        exact (start_lists (n := 0) rfl rfl).1
      · show Places.Lists m.pReleaseBufferQueue m.nReleaseBufferNum _ _
        rw [h.release.1, h.release.2]
        exact (start_lists (n := 0) rfl rfl).1
      · intro k
        show (m.pFrames k).flag = ((start m).place k).flag (m.pFrames k).flag.bNeedRelease
        rw [h.frames]
        rcases start_place m k with ⟨hx, -⟩ | ⟨hx, -⟩ <;> rw [hx] <;> rfl
      · rw [(start_lists rfl rfl).2]
        exact h.holding.1
      · rw [(start_lists rfl rfl).2]
        exact h.holding.2.1
      · show m.nWaitForDispNum = m.nValidPictureNum + 0
        rw [h.holding.2.2, h.valid.2]
        rfl
    · intro k
      show (m.pFrames k).vpicture.nID = ((start m).place k).id k
      rw [h.frames]
      rcases start_place m k with ⟨hx, -⟩ | ⟨hx, -⟩ <;> rw [hx] <;> rfl
    · intro k
      show (start m).place k = .absent ↔ m.providedNum ≤ k
      unfold Fbm.providedNum
      rcases start_place m k with ⟨hx, hlt, hown⟩ | ⟨hx, hno⟩
      · simp [hx, hown, hlt]
      · cases hext : m.bUseGpuBuf
        · simpa [hx, hext] using hno
        · simp [hx, h.nValidBufNum]
    · intro hext k
      show (m.pFrames k).vpicture.nBufId = _ ↔ _
      rcases start_place m k with ⟨-, -, hown⟩ | ⟨hx, -⟩
      · exact absurd (hext.symm.trans hown) Bool.noConfusion
      · rw [h.frames]
        exact iff_of_true rfl hx
    · intro hext i j hi
      rcases start_place m i with ⟨-, -, hown⟩ | ⟨hx, -⟩
      · exact absurd (hext.symm.trans hown) Bool.noConfusion
      · exact absurd hx hi.1
    · intro hown i hi j hj
      show (m.pFrames i).vpicture.phyYBufAddr = (m.pFrames j).vpicture.phyYBufAddr ↔
        m.bThumbnailMode ∨ i = j
      have hext : info.external = false := h.bUseGpuBuf.symm.trans hown
      have hi' : i < info.frameNum := h.nMaxFrameNum ▸ hi
      have hj' : j < info.frameNum := h.nMaxFrameNum ▸ hj
      obtain ⟨a, ha⟩ := h.buffer i hi'
      obtain ⟨b, hb⟩ := h.buffer j hj'
      rw [h.frames, h.frames, h.bThumbnailMode]
      simp only [ha, hb, Option.getD_some]
      simp only [FbmCreateInfo.pictureBuffer, hext, Bool.false_eq_true, if_false] at ha hb
      cases hth : info.bThumbnailMode
      · simp only [hth, Bool.false_eq_true, if_false, false_or] at ha hb ⊢
        constructor
        · intro he
          exact hd i hi' j hj' (by rw [ha, hb, he])
        · rintro rfl
          exact Option.some.inj (ha.symm.trans hb)
      · simp only [hth, if_true, true_or, iff_true] at ha hb ⊢
        exact Option.some.inj (ha.symm.trans hb)
  · intro k
    show MarkFits _ (m.pFrames k).flag.bNeedRelease ((start m).place k)
    rw [h.frames]
    rcases start_place m k with ⟨hx, -⟩ | ⟨hx, -⟩ <;> rw [hx] <;> constructor <;> simp

end

/-- **The picture buffers**: in a run of a well-behaved decoder, renderer and display
every node stays where it should be, and each returned picture is the one that is taken
back, if and only if no call of the run is unsound. -/
theorem conserved_iff {info : FbmCreateInfo} {alloc : Nat → Option Nat} {m : Fbm}
    {is : List Input} (hc : fbmCreateBuffer info alloc = some m)
    (hd : ∀ i < info.frameNum, ∀ j < info.frameNum, alloc i = alloc j → i = j)
    (hw : frames.Meets WellBehaved (start m) is) :
    (Conserved (start m) ∧ frames.Meets Exact (start m) is) ↔
      frames.Meets Sound (start m) is := by
  have hstart := start_tracked hc hd
  have hiff : frames.Meets (fun s i => WellBehaved s i ∧ Exact s i) (start m) is ↔
      frames.Meets (fun s i => WellBehaved s i ∧ Sound s i) (start m) is := by
    apply Machine.meets_iff (I := Tracked)
    · intro s i h
      exact and_congr_right fun hi => h.exact_iff hi
    · rintro s i s' h ⟨hi, hex⟩ ⟨⟩
      exact h.next hi ((h.exact_iff hi).1 hex)
    · exact hstart
  rw [Machine.meets_and, Machine.meets_and, and_iff_right hw, and_iff_right hw] at hiff
  rw [and_iff_right hstart.toConserved, hiff]

/-- Two frames of their own, or two for a thumbnail. -/
def ownBuffers (bThumbnailMode : Bool) : FbmCreateInfo where
  nFrameNum := 2
  nWidth := 320
  nHeight := 240
  bThumbnailMode := bThumbnailMode
  bGpuBufValid := false
  bufTypeOnlyReference := false

def allocBuffer (i : Nat) : Option Nat := some (0x20000 * (i + 1))

/-- A picture is shared, shown and returned while the decoder still holds it. -/
def sharedPicture : List Input :=
  [.requestBuffer, .shareBuffer 0, .requestPicture, .returnPicture 0, .returnBuffer 0 true]

theorem conserved_shared :
    ∃ m, fbmCreateBuffer (ownBuffers false) allocBuffer = some m ∧
      Conserved (start m) ∧ frames.Meets Exact (start m) sharedPicture := by
  have hc : fbmCreateBuffer (ownBuffers false) allocBuffer = some _ := rfl
  refine ⟨_, hc, (conserved_iff hc ?_ ?_).2 ?_⟩
  · intro i _ j _ he
    simp only [allocBuffer, Option.some.injEq] at he
    omega
  · refine ⟨trivial, ?_⟩
    rintro s ⟨⟩
    refine ⟨rfl, ?_⟩
    rintro s ⟨⟩
    refine ⟨trivial, ?_⟩
    rintro s ⟨⟩
    refine ⟨.inl rfl, ?_⟩
    rintro s ⟨⟩
    exact ⟨rfl, fun _ _ => trivial⟩
  · have hown : ∀ (s : State) k, s.m.bUseGpuBuf = false → s.m.bThumbnailMode = false →
        Sound s (.returnPicture k) := by
      intro s k h1 h2
      simp [Sound, h1, h2]
    refine ⟨trivial, ?_⟩
    rintro s ⟨⟩
    refine ⟨trivial, ?_⟩
    rintro s ⟨⟩
    refine ⟨trivial, ?_⟩
    rintro s ⟨⟩
    refine ⟨hown _ 0 rfl rfl, ?_⟩
    rintro s ⟨⟩
    exact ⟨rfl, fun _ _ => trivial⟩

/-- A picture of each node goes through the decoder and the renderer. -/
def twoPictures : List Input :=
  [.requestBuffer, .returnBuffer 0 true, .requestPicture, .returnPicture 0,
    .requestBuffer, .returnBuffer 1 true, .requestPicture]

/-- The second picture of a thumbnail stream is not taken back: the search finds node 0,
which the renderer does not hold. -/
theorem thumbnail_lost :
    ∃ m, fbmCreateBuffer (ownBuffers true) allocBuffer = some m ∧
      frames.Meets WellBehaved (start m) (twoPictures ++ [.returnPicture 1]) ∧
      ¬frames.Meets Exact (start m) (twoPictures ++ [.returnPicture 1]) := by
  refine ⟨_, rfl, ?_, fun h => ?_⟩
  · refine ⟨trivial, ?_⟩
    rintro s ⟨⟩
    refine ⟨rfl, ?_⟩
    rintro s ⟨⟩
    refine ⟨trivial, ?_⟩
    rintro s ⟨⟩
    refine ⟨.inl rfl, ?_⟩
    rintro s ⟨⟩
    refine ⟨trivial, ?_⟩
    rintro s ⟨⟩
    refine ⟨rfl, ?_⟩
    rintro s ⟨⟩
    refine ⟨trivial, ?_⟩
    rintro s ⟨⟩
    exact ⟨.inl rfl, fun _ _ => trivial⟩
  · obtain ⟨⟨-, hex⟩, -⟩ := h.append_right rfl
    exact absurd (hex 1 rfl).1 (by decide)

end Frames

end Melis.Vdec
