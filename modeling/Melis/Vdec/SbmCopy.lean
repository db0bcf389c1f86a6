import Melis.Vdec.SbmFrame

/-!
# The data of a frame picture

`CopySbmFrameData` copies a picture from the ring of the stream, where it may go
around the end, to the linear buffer of a node, and moves the pointers of its
NALUs there. The places of the ring are numbered from the start of the picture
(`StreamRing.place`): the copy puts place `k` at `k`, whichever side of the end it is
on.
-/

namespace Melis.Vdec

open Lib Memory Function

variable {β : Type}

inductive SbmInterfaceType where
  | stream
  | frame
  | frameAvs
  | frameMpeg2
  | frameAvc
deriving DecidableEq

/-- The buffer of the stream; `pStreamBufferEnd` is its last byte. -/
structure StreamRing where
  pStreamBuffer : Nat
  pStreamBufferEnd : Nat
  nStreamBufferSize : Nat
  size : 0 < nStreamBufferSize ∧ nStreamBufferSize < 2 ^ 31
  stop : pStreamBufferEnd + 1 = pStreamBuffer + nStreamBufferSize

structure NaluInfo where
  pDataBuf : Nat
  nDataSize : Nat

/-- The data of a `FramePicInfo`. -/
structure FramePicData where
  pDataStartAddr : Nat
  nlength : Int
  nCurNaluIdx : Nat
  pNaluInfoList : Nat → NaluInfo

structure SbmFrameBufferManager where
  pFrameBuffer : Nat
  pPhyFrameBuffer : Nat
  pPhyFrameBufferEnd : Nat
  nFrameBufferSize : Nat

namespace StreamRing

variable (r : StreamRing)

/-- The place `k` bytes behind `p`, around the end. -/
def place (p k : Nat) : Nat :=
  r.pStreamBuffer + (p - r.pStreamBuffer + k) % r.nStreamBufferSize

/-- How many bytes of a picture lie before the end of the ring, and behind. -/
def validDataSize (pic : FramePicData) : Int × Int :=
  if pic.pDataStartAddr + pic.nlength ≤ r.pStreamBufferEnd then (pic.nlength, 0)
  else
    let validDataSize1 : Int := r.pStreamBufferEnd - pic.pDataStartAddr + 1
    (validDataSize1, pic.nlength - validDataSize1)

/-- Where the data at `pLastDataBuf` is once the picture is at `pFrameBuffer`. -/
def relocate (pDataStartAddr pFrameBuffer pLastDataBuf : Nat) : Nat :=
  let offset : Int :=
    if pDataStartAddr ≤ pLastDataBuf then pLastDataBuf - pDataStartAddr
    else pLastDataBuf + r.nStreamBufferSize - pDataStartAddr
  (pFrameBuffer + offset).toNat

end StreamRing

/-- A buffer that is large enough for the picture. `palloc` is what `CdcMemPalloc` gives, and
`phys` the physical address of it; without memory the program ends. -/
def SbmFrameBufferManager.fit (nType : SbmInterfaceType) (phys : Nat → Nat) (palloc : Option Nat)
    (nlength : Int) (b : SbmFrameBufferManager) : Option SbmFrameBufferManager :=
  if nlength > b.nFrameBufferSize then
    palloc.map fun a =>
      let phyAddr := phys a
      { pFrameBuffer := a
        nFrameBufferSize := SbmFrame.frameBufferSize b.nFrameBufferSize nlength
        pPhyFrameBuffer :=
          match nType with
          | .frameAvc => (phyAddr &&& 0x0ffffff0) + ((phyAddr >>> 28) &&& 0x0f)
          | .frame => phyAddr
          | _ => b.pPhyFrameBuffer
        pPhyFrameBufferEnd :=
          u32 (phyAddr + SbmFrame.frameBufferSize b.nFrameBufferSize nlength - 1) }
  else some b

/-- The two copies. -/
def copyFrame (r : StreamRing) (pic : FramePicData) (pFrameBuffer : Nat) (mem : Nat → β) :
    Nat → β :=
  let validDataSize1 := (r.validDataSize pic).1
  let validDataSize2 := (r.validDataSize pic).2
  let mem := copyN mem pFrameBuffer mem pic.pDataStartAddr validDataSize1.toNat
  if validDataSize2 ≠ 0 then
    copyN mem (pFrameBuffer + validDataSize1).toNat mem r.pStreamBuffer validDataSize2.toNat
  else mem

/-- The loop over the NALUs. -/
def relocateNalus (r : StreamRing) (pDataStartAddr pFrameBuffer nCurNaluIdx : Nat)
    (pNaluInfoList : Nat → NaluInfo) : Nat → NaluInfo :=
  (List.range nCurNaluIdx).foldl
    (fun nalus i =>
      update nalus i
        { nalus i with pDataBuf := r.relocate pDataStartAddr pFrameBuffer (nalus i).pDataBuf })
    pNaluInfoList

/-- `CopySbmFrameData` for the next picture and the manager of an empty node; the queues are those
of `SbmFrame.copySbmFrameData`. -/
def FramePicData.copySbmFrameData (nType : SbmInterfaceType) (phys : Nat → Nat)
    (palloc : Option Nat) (r : StreamRing) (mem : Nat → β) (b : SbmFrameBufferManager)
    (pic : FramePicData) :
    Option ((Nat → β) × FramePicData × SbmFrameBufferManager) :=
  (b.fit nType phys palloc pic.nlength).map fun b =>
    (copyFrame r pic b.pFrameBuffer mem,
      { pic with
        pNaluInfoList :=
          relocateNalus r pic.pDataStartAddr b.pFrameBuffer pic.nCurNaluIdx pic.pNaluInfoList },
      b)

/-- The picture lies in the ring. -/
structure FramePicData.InRing (pic : FramePicData) (r : StreamRing) : Prop where
  start : r.pStreamBuffer ≤ pic.pDataStartAddr ∧ pic.pDataStartAddr ≤ r.pStreamBufferEnd
  length : 0 ≤ pic.nlength ∧ pic.nlength ≤ r.nStreamBufferSize

/-- The data of the NALU lies in the picture, from one of its bytes on. -/
def NaluInfo.InPic (nalu : NaluInfo) (pic : FramePicData) (r : StreamRing) : Prop :=
  ∃ k : Nat, (k + nalu.nDataSize : Int) ≤ pic.nlength ∧ nalu.pDataBuf = r.place pic.pDataStartAddr k

/-- The memory from `a` on does not meet the ring. -/
def StreamRing.Apart (r : StreamRing) (a n : Nat) : Prop :=
  a + n ≤ r.pStreamBuffer ∨ r.pStreamBufferEnd < a

instance (r : StreamRing) (a n : Nat) : Decidable (r.Apart a n) :=
  inferInstanceAs (Decidable (_ ∨ _))

section

variable {r : StreamRing} {pic : FramePicData} {mem : Nat → β} {buf p k j n : Nat}

/-! ## Places of the ring -/

theorem StreamRing.place_lt (hp : r.pStreamBuffer ≤ p) (hk : p + k ≤ r.pStreamBufferEnd) :
    r.place p k = p + k := by
  have hstop := r.stop
  unfold StreamRing.place
  rw [Nat.mod_eq_of_lt (by omega)]
  omega

theorem StreamRing.place_wrap (hp : r.pStreamBuffer ≤ p) (hk : r.pStreamBufferEnd < p + k)
    (hlt : p + k ≤ r.pStreamBufferEnd + r.nStreamBufferSize) :
    r.place p k = p + k - r.nStreamBufferSize := by
  have hstop := r.stop
  unfold StreamRing.place
  rw [Nat.mod_eq_sub_mod (by omega), Nat.mod_eq_of_lt (by omega)]
  omega

theorem StreamRing.place_mem (r : StreamRing) (p k : Nat) :
    r.pStreamBuffer ≤ r.place p k ∧ r.place p k ≤ r.pStreamBufferEnd := by
  have hstop := r.stop
  have hlt := Nat.mod_lt (p - r.pStreamBuffer + k) r.size.1
  unfold StreamRing.place
  omega

theorem StreamRing.place_add (r : StreamRing) (p k j : Nat) :
    r.place (r.place p k) j = r.place p (k + j) := by
  unfold StreamRing.place
  rw [Nat.add_sub_cancel_left, Nat.mod_add_mod, Nat.add_assoc]

/-! ## The copy -/

/-- Byte `k` of the picture is copied to byte `k` of the buffer. -/
theorem copyFrame_in (hpic : pic.InRing r) (hapart : r.Apart buf pic.nlength.toNat)
    (hk : (k : Int) < pic.nlength) :
    copyFrame r pic buf mem (buf + k) = mem (r.place pic.pDataStartAddr k) := by
  obtain ⟨⟨hstart, hend⟩, hlength, hsize⟩ := hpic
  have hstop := r.stop
  unfold StreamRing.Apart at hapart
  unfold copyFrame StreamRing.validDataSize
  by_cases hfits : pic.pDataStartAddr + pic.nlength ≤ r.pStreamBufferEnd
  · -- the picture does not go around the end
    rw [if_pos hfits]
    simp only [ne_eq, not_true_eq_false, ↓reduceIte]
    rw [copyN_in (by omega), StreamRing.place_lt hstart (by omega)]
  · rw [if_neg hfits]
    dsimp only
    by_cases hfirst : pic.pDataStartAddr + k ≤ r.pStreamBufferEnd
    · rw [StreamRing.place_lt hstart hfirst]
      split
      · rw [copyN_out (.inl (by omega)), copyN_in (by omega)]
      · rw [copyN_in (by omega)]
    · -- the byte lies behind the end
      rw [StreamRing.place_wrap hstart (by omega) (by omega), if_pos (by omega)]
      obtain ⟨i, rfl⟩ : ∃ i, k = r.pStreamBufferEnd + 1 - pic.pDataStartAddr + i :=
        Nat.exists_eq_add_of_le (by omega)
      have hdst : buf + (r.pStreamBufferEnd + 1 - pic.pDataStartAddr + i) =
          ((buf : Int) + (r.pStreamBufferEnd - pic.pDataStartAddr + 1)).toNat + i := by omega
      rw [hdst, copyN_in (by omega), copyN_out (by omega)]
      congr 1
      omega

/-- The copy writes to the buffer only. -/
theorem copyFrame_out (hpic : pic.InRing r) (hout : j < buf ∨ (buf + pic.nlength : Int) ≤ j) :
    copyFrame r pic buf mem j = mem j := by
  obtain ⟨⟨hstart, hend⟩, hlength, hsize⟩ := hpic
  have hstop := r.stop
  unfold copyFrame StreamRing.validDataSize
  by_cases hfits : pic.pDataStartAddr + pic.nlength ≤ r.pStreamBufferEnd
  · rw [if_pos hfits]
    simp only [ne_eq, not_true_eq_false, ↓reduceIte]
    apply copyN_out
    omega
  · rw [if_neg hfits]
    dsimp only
    split
    · rw [copyN_out (by omega), copyN_out (by omega)]
    · apply copyN_out
      omega

/-! ## The NALUs -/

theorem relocateNalus_succ (r : StreamRing) (p buf n : Nat) (nalus : Nat → NaluInfo) :
    relocateNalus r p buf (n + 1) nalus =
      update (relocateNalus r p buf n nalus) n
        { relocateNalus r p buf n nalus n with
          pDataBuf := r.relocate p buf (relocateNalus r p buf n nalus n).pDataBuf } := by
  unfold relocateNalus
  rw [List.range_succ, List.foldl_append]
  rfl

/-- Each NALU before `n` is moved once. -/
theorem relocateNalus_eq (r : StreamRing) (p buf n : Nat) (nalus : Nat → NaluInfo) (i : Nat) :
    relocateNalus r p buf n nalus i =
      if i < n then { nalus i with pDataBuf := r.relocate p buf (nalus i).pDataBuf }
      else nalus i := by
  induction n with
  | zero => rfl
  | succ n ih =>
    rw [relocateNalus_succ]
    by_cases hi : i = n
    · subst hi
      rw [if_neg (Nat.lt_irrefl i)] at ih
      rw [update_self, ih, if_pos (Nat.lt_succ_self i)]
    · rw [update_of_ne hi, ih]
      simp only [show i < n + 1 ↔ i < n by omega]

/-- A place of the picture goes to the same place of the buffer. -/
theorem relocate_place (hpic : pic.InRing r) (hk : k < r.nStreamBufferSize) :
    r.relocate pic.pDataStartAddr buf (r.place pic.pDataStartAddr k) = buf + k := by
  obtain ⟨⟨hstart, hend⟩, -⟩ := hpic
  have hstop := r.stop
  unfold StreamRing.relocate
  by_cases hfirst : pic.pDataStartAddr + k ≤ r.pStreamBufferEnd
  · rw [StreamRing.place_lt hstart hfirst, if_pos (by omega)]
    dsimp only
    omega
  · rw [StreamRing.place_wrap hstart (by omega) (by omega), if_neg (by omega)]
    dsimp only
    omega

/-- A NALU with data lies in the buffer as it did in the picture. -/
theorem relocate_nalu {nalu : NaluInfo} (a : Nat) (hpic : pic.InRing r)
    (hnalu : nalu.InPic pic r) (hdata : 0 < nalu.nDataSize) :
    ∃ k : Nat, (k + nalu.nDataSize : Int) ≤ pic.nlength ∧
      nalu.pDataBuf = r.place pic.pDataStartAddr k ∧
      r.relocate pic.pDataStartAddr a nalu.pDataBuf = a + k := by
  obtain ⟨k, hle, hat⟩ := hnalu
  have hsize := hpic.length.2
  refine ⟨k, hle, hat, ?_⟩
  rw [hat]
  exact relocate_place hpic (by omega)

theorem le_frameBufferSize {old : Nat} {nlength : Int} (hpos : (old : Int) < nlength)
    (hint : nlength < 2 ^ 31) : nlength ≤ SbmFrame.frameBufferSize old nlength := by
  unfold SbmFrame.frameBufferSize u32 i32
  rw [if_pos hpos]
  have hbmod : (nlength + 1023).bmod (2 ^ 32) = nlength + 1023 ∨
      (nlength + 1023).bmod (2 ^ 32) = nlength + 1023 - 2 ^ 32 := by
    rw [Int.bmod_def]
    omega
  omega

/-- The buffer is large enough and apart from the ring. -/
theorem fit_apart {nType : SbmInterfaceType} {phys : Nat → Nat} {palloc : Option Nat}
    {b b' : SbmFrameBufferManager} (hpic : pic.InRing r)
    (hb : r.Apart b.pFrameBuffer b.nFrameBufferSize)
    (hpalloc : ∀ a ∈ palloc, r.Apart a (SbmFrame.frameBufferSize b.nFrameBufferSize pic.nlength))
    (h : b.fit nType phys palloc pic.nlength = some b') :
    pic.nlength ≤ b'.nFrameBufferSize ∧ r.Apart b'.pFrameBuffer b'.nFrameBufferSize := by
  unfold SbmFrameBufferManager.fit at h
  split at h
  · rename_i hlong
    obtain ⟨a, ha, rfl⟩ := Option.map_eq_some_iff.mp h
    have hsize := r.size.2
    have hlength := hpic.length.2
    exact ⟨le_frameBufferSize hlong (by omega), hpalloc a (by simp [ha])⟩
  · obtain rfl := Option.some.inj h
    exact ⟨by omega, hb⟩

/-- **The picture is in the buffer as it was in the stream**, and the pointers of its NALUs
designate the bytes that they designated in the ring. -/
theorem copySbmFrameData_copied (nType : SbmInterfaceType) (phys : Nat → Nat)
    (palloc : Option Nat) (r : StreamRing) (mem mem' : Nat → β) (b b' : SbmFrameBufferManager)
    (pic pic' : FramePicData) (hpic : pic.InRing r)
    (hnalus : ∀ i < pic.nCurNaluIdx, (pic.pNaluInfoList i).InPic pic r)
    (hb : r.Apart b.pFrameBuffer b.nFrameBufferSize)
    (hpalloc : ∀ a ∈ palloc, r.Apart a (SbmFrame.frameBufferSize b.nFrameBufferSize pic.nlength))
    (h : pic.copySbmFrameData nType phys palloc r mem b = some (mem', pic', b')) :
    (pic.nlength ≤ b'.nFrameBufferSize ∧
      ∀ k : Nat, k < pic.nlength →
        mem' (b'.pFrameBuffer + k) = mem (r.place pic.pDataStartAddr k)) ∧
    (∀ i < pic.nCurNaluIdx,
      (pic'.pNaluInfoList i).nDataSize = (pic.pNaluInfoList i).nDataSize ∧
      ∀ j < (pic.pNaluInfoList i).nDataSize,
        b'.pFrameBuffer ≤ (pic'.pNaluInfoList i).pDataBuf ∧
        ((pic'.pNaluInfoList i).pDataBuf + j : Int) < b'.pFrameBuffer + pic.nlength ∧
        mem' ((pic'.pNaluInfoList i).pDataBuf + j) =
          mem (r.place (pic.pNaluInfoList i).pDataBuf j)) ∧
    ∀ x, x < b'.pFrameBuffer ∨ (b'.pFrameBuffer + pic.nlength : Int) ≤ x → mem' x = mem x := by
  obtain ⟨b₁, hfit, heq⟩ := Option.map_eq_some_iff.mp h
  obtain ⟨rfl, heq'⟩ := Prod.mk.inj heq
  obtain ⟨rfl, rfl⟩ := Prod.mk.inj heq'
  obtain ⟨hsize, hapart⟩ := fit_apart hpic hb hpalloc hfit
  have hapart' : r.Apart b₁.pFrameBuffer pic.nlength.toNat := by
    unfold StreamRing.Apart at hapart ⊢
    omega
  have hbytes : ∀ k : Nat, k < pic.nlength →
      copyFrame r pic b₁.pFrameBuffer mem (b₁.pFrameBuffer + k) =
        mem (r.place pic.pDataStartAddr k) := fun k hk => copyFrame_in hpic hapart' hk
  refine ⟨⟨hsize, hbytes⟩, fun i hi => ?_, fun x hx => copyFrame_out hpic hx⟩
  dsimp only
  rw [relocateNalus_eq, if_pos hi]
  refine ⟨rfl, fun j hj => ?_⟩
  obtain ⟨k, hle, hplace, hmoved⟩ :=
    relocate_nalu b₁.pFrameBuffer hpic (hnalus i hi) (by omega)
  dsimp only
  rw [hmoved]
  refine ⟨Nat.le_add_right _ _, by omega, ?_⟩
  rw [hplace, StreamRing.place_add, Nat.add_assoc]
  exact hbytes (k + j) (by omega)

end

/-- A picture of six bytes around the end of a ring of eight, with two NALUs. -/
def wrappedPic : FramePicData :=
  ⟨105, 6, 2, fun i => if i = 0 then ⟨105, 4⟩ else ⟨101, 2⟩⟩

theorem copySbmFrameData_copied_wrapped :
    ∃ mem' : Nat → Nat, ∃ pic' b',
      wrappedPic.copySbmFrameData .frame id (some 300) ⟨100, 107, 8, by decide, rfl⟩ id
        ⟨200, 200, 203, 4⟩ = some (mem', pic', b') ∧ mem' 303 = 100 ∧
        (pic'.pNaluInfoList 1).pDataBuf = 304 ∧ mem' 304 = 101 := by
  refine ⟨_, _, _, rfl, ?_, rfl, ?_⟩
  · refine ((copySbmFrameData_copied .frame id (some 300) ⟨100, 107, 8, by decide, rfl⟩ id _
      ⟨200, 200, 203, 4⟩ _ wrappedPic _ ⟨by decide, by decide⟩ ?_ (by decide) (by decide)
      rfl).1.2 3 (by decide))
    intro i hi
    obtain rfl | rfl : i = 0 ∨ i = 1 := by
      change i < 2 at hi
      omega
    · exact ⟨0, by decide, by decide⟩
    · exact ⟨4, by decide, by decide⟩
  · rfl

end Melis.Vdec
