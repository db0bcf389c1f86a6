import Melis.Vdec.SbmCopy

/-!
# The form of an H.265 stream

`sbm/sbmFrameH265.c`: `checkBitStreamTypeWithStartCode` looks for a NALU behind a start code, and
`checkBitStreamTypeWithoutStartCode` goes from NALU to NALU by the lengths in front of them. A
chunk is read in the ring of the stream, or in secure mode in a copy of it. A check comes with the
addresses that it reads and with what it frees.
-/

namespace Melis.Vdec

open Lib Memory

/-- A `VideoStreamDataInfo` in the ring. The rings of the decoder have a few MiB. -/
structure StreamChunk where
  mem : Nat → UInt8
  ring : StreamRing
  pData : Nat
  nLength : Nat
  start : ring.pStreamBuffer ≤ pData ∧ pData ≤ ring.pStreamBufferEnd
  length : nLength ≤ ring.nStreamBufferSize
  room : nLength + 32 < 2 ^ 31

/-- `bSecureVideoFlag`, with what `malloc` gives for the copy. -/
inductive SbmMode where
  | plain
  | secure (malloc : Option Nat)
deriving DecidableEq, Repr

/-- What a check returns, reads and frees. -/
structure TypeCheck where
  ret : Int
  reads : List Nat
  frees : List Nat
deriving DecidableEq, Repr

/-- The address of the byte that `readByteIdx` reads. -/
def readByteIdx (p pStart pEnd i : Nat) : Nat :=
  if p + i ≤ pEnd then p + i
  else
    let d := pEnd - p + 1
    pStart + (i - d)

/-- The bytes that a check goes through: `unit n` is `pBuf` once `n` bytes have been processed. -/
structure SbmView where
  mem : Nat → UInt8
  pStart : Nat
  pEnd : Nat
  unit : Nat → Nat

/-- The address of byte `i` of the unit behind `n` bytes. -/
def SbmView.addr (v : SbmView) (n i : Nat) : Nat := readByteIdx (v.unit n) v.pStart v.pEnd i

/-- `tmpBuf[i]` -/
def SbmView.tmpBuf (v : SbmView) (n i : Nat) : UInt8 := v.mem (v.addr n i)

namespace StreamChunk

variable (c : StreamChunk)

/-- The pieces that `CdcMemRead` copies. -/
def pieces : List (Nat × Nat) :=
  if c.pData + c.nLength ≤ c.ring.pStreamBufferEnd then [(c.pData, c.nLength)]
  else
    let nFirsrPart := c.ring.pStreamBufferEnd - c.pData + 1
    [(c.pData, nFirsrPart), (c.ring.pStreamBuffer, c.nLength - nFirsrPart)]

/-- The memory with the pieces one behind the other from `pBuf` on. -/
def cdcMemRead (mem : Nat → UInt8) (pBuf : Nat) : List (Nat × Nat) → Nat → UInt8
  | [] => mem
  | (p, n) :: pieces => cdcMemRead (copyN mem pBuf mem p n) (pBuf + n) pieces

/-- `pBuf` in the ring. -/
def ringUnit (n : Nat) : Nat :=
  let pBuf := c.pData + n
  if c.ring.pStreamBufferEnd < pBuf then
    c.ring.pStreamBuffer + (pBuf - c.ring.pStreamBufferEnd)
  else pBuf

/-- Where the bytes are read; there is no place for them without memory. -/
def view : SbmMode → Option SbmView
  | .plain => some ⟨c.mem, c.ring.pStreamBuffer, c.ring.pStreamBufferEnd, c.ringUnit⟩
  | .secure (some pBuf) =>
    some ⟨cdcMemRead c.mem pBuf c.pieces, pBuf, pBuf + c.nLength, fun n => pBuf + n⟩
  | .secure none => none

/-- What the copy reads. -/
def copyReads : SbmMode → List Nat
  | .secure (some _) => c.pieces.flatMap fun (p, n) => List.range' p n
  | _ => []

end StreamChunk

/-- Four bytes, the highest first, in an `s32`. -/
def word32 (b₀ b₁ b₂ b₃ : UInt8) : Int :=
  i32 (b₀.toNat * 2 ^ 24 + b₁.toNat * 2 ^ 16 + b₂.toNat * 2 ^ 8 + b₃.toNat)

/-- The forbidden bit of a NALU is 0 and its temporal id, the low bits of the second byte, is not. -/
def nalHeader (b₀ b₁ : UInt8) : Bool := b₁.toNat % 8 ≥ 1 && b₀.toNat / 2 ^ 7 = 0

/-- The loop of `checkBitStreamTypeWithStartCode`: the result, and the numbers of the bytes that
are read. -/
def startCodeLoop (tmpBuf : Nat → UInt8) (nLength nHadCheckBytesLen : Nat) : Int × List Nat :=
  if nHadCheckBytesLen + 6 < nLength then
    let b i := tmpBuf (nHadCheckBytesLen + i)
    let nCheck4BitsValue := word32 (b 0) (b 1) (b 2) (b 3)
    let next len :=
      let r := startCodeLoop tmpBuf nLength (nHadCheckBytesLen + (len + 1))
      (r.1, List.range' nHadCheckBytesLen 6 ++ r.2)
    if nCheck4BitsValue = 0 then next 0
    else if nCheck4BitsValue = 1 then
      if nalHeader (b 4) (b 5) then (0, List.range' nHadCheckBytesLen 6) else next 3
    else if nCheck4BitsValue / 2 ^ 8 = 1 then
      if nalHeader (b 3) (b 4) then (0, List.range' nHadCheckBytesLen 6) else next 2
    else next 3
  else (-1, [])
termination_by nLength - nHadCheckBytesLen

/-- The loop of `checkBitStreamTypeWithoutStartCode`, by the length in front of each unit and by
its header: the result, the starts of the units whose first six bytes are read, and
`nHadProcessLen` at the end. -/
def unitLoop (nDataSize : Nat → Int) (header : Nat → Bool) (nLength nHadProcessLen : Nat) :
    Int × List Nat × Nat :=
  if nHadProcessLen < nLength then
    let nRemainSize : Int := nLength - nHadProcessLen
    let size := nDataSize nHadProcessLen
    if size > nRemainSize - 4 ∨ size < 0 ∨ header nHadProcessLen = false then
      (-1, [nHadProcessLen], nHadProcessLen)
    else if size = nRemainSize - 4 ∧ size ≠ 0 then (0, [nHadProcessLen], nHadProcessLen)
    else
      let r := unitLoop nDataSize header nLength (nHadProcessLen + (size.toNat + 4))
      (r.1, nHadProcessLen :: r.2.1, r.2.2)
  else (-1, [], nHadProcessLen)
termination_by nLength - nHadProcessLen

/-- The loop over the bytes of `tmpBuf`. -/
def unitWalk (tmpBuf : Nat → Nat → UInt8) (nLength : Nat) : Int × List Nat × Nat :=
  unitLoop (fun n => word32 (tmpBuf n 0) (tmpBuf n 1) (tmpBuf n 2) (tmpBuf n 3))
    (fun n => nalHeader (tmpBuf n 4) (tmpBuf n 5)) nLength 0

/-- In secure mode the copy is freed behind the loop, but for a start code. -/
def checkBitStreamTypeWithStartCode (c : StreamChunk) (mode : SbmMode) : TypeCheck :=
  match c.view mode with
  | none => ⟨-2, [], []⟩
  | some v =>
    let r := startCodeLoop (v.tmpBuf 0) c.nLength 0
    { ret := r.1
      reads := c.copyReads mode ++ r.2.map (v.addr 0)
      frees := if mode ≠ .plain ∧ r.1 ≠ 0 then [v.unit 0] else [] }

def checkBitStreamTypeWithoutStartCode (c : StreamChunk) (mode : SbmMode) : TypeCheck :=
  match c.view mode with
  | none => ⟨-2, [], []⟩
  | some v =>
    let r := unitWalk v.tmpBuf c.nLength
    { ret := r.1
      reads := c.copyReads mode ++ r.2.1.flatMap fun n => (List.range 6).map (v.addr n)
      frees := if mode ≠ .plain then [v.unit r.2.2] else [] }

end Melis.Vdec

namespace Melis.Vdec

/-! ## The loops of the stream form checks

Both loops go from place to place of the bytes. `GoesOn` and `Follows` say where they go next, and
a loop answers yes just if it comes to a place that is good (`startCodeLoop_ret`, `unitLoop_ret`).
From there the bytes are of the form (`FindsStartCode.hasStartCode`, `units_of_walk`).
-/

open Lib Relation

variable {b b' : Nat → UInt8} {bs : List UInt8} {L n m i : Nat}
  {nDataSize nDataSize' : Nat → Int} {header header' : Nat → Bool}

/-! ## Bytes -/

/-- The number of four bytes, the highest first. -/
def be32 (b₀ b₁ b₂ b₃ : UInt8) : Nat :=
  b₀.toNat * 2 ^ 24 + b₁.toNat * 2 ^ 16 + b₂.toNat * 2 ^ 8 + b₃.toNat

theorem be32_lt (b₀ b₁ b₂ b₃ : UInt8) : be32 b₀ b₁ b₂ b₃ < 2 ^ 32 := by
  have h₀ := b₀.toNat_lt
  have h₁ := b₁.toNat_lt
  have h₂ := b₂.toNat_lt
  have h₃ := b₃.toNat_lt
  unfold be32
  omega

theorem word32_eq (b₀ b₁ b₂ b₃ : UInt8) : word32 b₀ b₁ b₂ b₃ =
    if be32 b₀ b₁ b₂ b₃ < 2 ^ 31 then (be32 b₀ b₁ b₂ b₃ : Int) else be32 b₀ b₁ b₂ b₃ - 2 ^ 32 := by
  have hlt := be32_lt b₀ b₁ b₂ b₃
  have hword : word32 b₀ b₁ b₂ b₃ = i32 (be32 b₀ b₁ b₂ b₃) := by
    simp [word32, be32]
  rw [hword]
  generalize be32 b₀ b₁ b₂ b₃ = x at hlt ⊢
  unfold i32
  rw [Int.bmod_def]
  split <;> split <;> omega

theorem word32_zero {b₀ b₁ b₂ b₃ : UInt8} :
    word32 b₀ b₁ b₂ b₃ = 0 ↔ b₀ = 0 ∧ b₁ = 0 ∧ b₂ = 0 ∧ b₃ = 0 := by
  have hlt := be32_lt b₀ b₁ b₂ b₃
  have hzero : word32 b₀ b₁ b₂ b₃ = 0 ↔ be32 b₀ b₁ b₂ b₃ = 0 := by
    rw [word32_eq]
    split <;> omega
  simp only [hzero, ← UInt8.toNat_inj, UInt8.toNat_zero, be32]
  omega

theorem word32_one {b₀ b₁ b₂ b₃ : UInt8} :
    word32 b₀ b₁ b₂ b₃ = 1 ↔ b₀ = 0 ∧ b₁ = 0 ∧ b₂ = 0 ∧ b₃ = 1 := by
  have hlt := be32_lt b₀ b₁ b₂ b₃
  have hone : word32 b₀ b₁ b₂ b₃ = 1 ↔ be32 b₀ b₁ b₂ b₃ = 1 := by
    rw [word32_eq]
    split <;> omega
  simp only [hone, ← UInt8.toNat_inj, UInt8.toNat_zero, UInt8.toNat_one, be32]
  omega

theorem word32_high {b₀ b₁ b₂ b₃ : UInt8} :
    word32 b₀ b₁ b₂ b₃ / 2 ^ 8 = 1 ↔ b₀ = 0 ∧ b₁ = 0 ∧ b₂ = 1 := by
  have hlt := be32_lt b₀ b₁ b₂ b₃
  have h₃ := b₃.toNat_lt
  have hhigh : word32 b₀ b₁ b₂ b₃ / 2 ^ 8 = 1 ↔ be32 b₀ b₁ b₂ b₃ / 2 ^ 8 = 1 := by
    rw [word32_eq]
    split <;> omega
  simp only [hhigh, ← UInt8.toNat_inj, UInt8.toNat_zero, UInt8.toNat_one, be32]
  omega

/-- The bytes in a linear buffer. -/
def linear (bs : List UInt8) (n i : Nat) : UInt8 := bs.getD (n + i) 0

theorem drop_eq_linear (h : n < bs.length) : bs.drop n = linear bs n 0 :: bs.drop (n + 1) := by
  rw [List.drop_eq_getElem_cons h]
  simp [linear, h]

/-! ## The search for a start code -/

/-- A start code of three or four bytes with the header of a NALU behind it. -/
def startCodeAt (b : Nat → UInt8) (n : Nat) : Bool :=
  b n = 0 && b (n + 1) = 0 &&
    (b (n + 2) = 1 && nalHeader (b (n + 3)) (b (n + 4)) ||
      b (n + 2) = 0 && b (n + 3) = 1 && nalHeader (b (n + 4)) (b (n + 5)))

/-- How far the search goes on. -/
def stride (b : Nat → UInt8) (n : Nat) : Nat :=
  if b n = 0 ∧ b (n + 1) = 0 ∧ b (n + 2) = 0 ∧ b (n + 3) = 0 then 1
  else if b n = 0 ∧ b (n + 1) = 0 ∧ b (n + 2) = 1 then 3
  else 4

theorem stride_pos (b : Nat → UInt8) (n : Nat) : 0 < stride b n := by
  unfold stride
  split
  · decide
  · split <;> decide

/-- One round of the loop. -/
theorem startCodeLoop_eq : startCodeLoop b L n =
    if n + 6 < L then
      if startCodeAt b n then (0, List.range' n 6)
      else
        ((startCodeLoop b L (n + stride b n)).1,
          List.range' n 6 ++ (startCodeLoop b L (n + stride b n)).2)
    else (-1, []) := by
  conv => lhs; unfold startCodeLoop
  by_cases hin : n + 6 < L
  · rw [if_pos hin, if_pos hin]
    simp only [word32_zero, word32_one, word32_high, Nat.add_zero]
    unfold stride startCodeAt
    by_cases h₀ : b n = 0
    · by_cases h₁ : b (n + 1) = 0
      · by_cases h₂ : b (n + 2) = 0
        · by_cases h₃ : b (n + 3) = 0
          · simp [h₀, h₁, h₂, h₃]
          · by_cases h₃' : b (n + 3) = 1
            · simp [h₀, h₁, h₂, h₃']
            · simp [h₀, h₁, h₂, h₃, h₃']
        · by_cases h₂' : b (n + 2) = 1
          · simp [h₀, h₁, h₂']
          · simp [h₀, h₁, h₂, h₂']
      · simp [h₀, h₁]
    · simp [h₀]
  · rw [if_neg hin, if_neg hin]

/-- The search goes on from `n` at `m`. -/
def GoesOn (b : Nat → UInt8) (L n m : Nat) : Prop :=
  n + 6 < L ∧ startCodeAt b n = false ∧ m = n + stride b n

/-- The search looks at `m`, and there is a start code with a header. -/
def Found (b : Nat → UInt8) (L m : Nat) : Prop :=
  ReflTransGen (GoesOn b L) 0 m ∧ m + 6 < L ∧ startCodeAt b m = true

theorem startCode_induction {P : Nat → Prop} (hend : ∀ n, ¬ n + 6 < L → P n)
    (hfound : ∀ n, n + 6 < L → startCodeAt b n = true → P n)
    (hnext : ∀ n, n + 6 < L → startCodeAt b n = false → P (n + stride b n) → P n) (n : Nat) :
    P n := by
  by_cases hin : n + 6 < L
  · cases hat : startCodeAt b n with
    | true => exact hfound n hin hat
    | false => exact hnext n hin hat (startCode_induction hend hfound hnext (n + stride b n))
  · exact hend n hin
termination_by L - n
decreasing_by
  have := stride_pos b n
  omega

theorem startCodeLoop_reads (b : Nat → UInt8) (L n : Nat) : ∀ i ∈ (startCodeLoop b L n).2, i < L := by
  induction n using startCode_induction (b := b) (L := L) with
  | hend n hin =>
    rw [startCodeLoop_eq, if_neg hin]
    exact fun _ => nofun
  | hfound n hin hat =>
    rw [startCodeLoop_eq, if_pos hin, if_pos hat]
    intro i hi
    rw [List.mem_range'_1] at hi
    omega
  | hnext n hin hat ih =>
    rw [startCodeLoop_eq, if_pos hin, if_neg (by simp [hat])]
    intro i hi
    rcases List.mem_append.1 hi with hi | hi
    · rw [List.mem_range'_1] at hi
      omega
    · exact ih i hi

theorem startCodeLoop_congr (h : ∀ i < L, b i = b' i) (n : Nat) :
    startCodeLoop b L n = startCodeLoop b' L n := by
  induction n using startCode_induction (b := b) (L := L) with
  | hend n hin =>
    rw [startCodeLoop_eq, startCodeLoop_eq (b := b'), if_neg hin, if_neg hin]
  | hfound n hin hat =>
    have hat' : startCodeAt b' n = true := by
      rw [← hat]
      unfold startCodeAt
      rw [h n, h (n + 1), h (n + 2), h (n + 3), h (n + 4), h (n + 5)] <;> omega
    rw [startCodeLoop_eq, startCodeLoop_eq (b := b'), if_pos hin, if_pos hin, if_pos hat, if_pos hat']
  | hnext n hin hat ih =>
    have hat' : startCodeAt b' n = false := by
      rw [← hat]
      unfold startCodeAt
      rw [h n, h (n + 1), h (n + 2), h (n + 3), h (n + 4), h (n + 5)] <;> omega
    have hstride : stride b' n = stride b n := by
      unfold stride
      rw [h n, h (n + 1), h (n + 2), h (n + 3)] <;> omega
    rw [startCodeLoop_eq (n := n), startCodeLoop_eq (b := b') (n := n), if_pos hin, if_pos hin, hat, hat',
      hstride, ih]

theorem startCodeLoop_ret (b : Nat → UInt8) (L n : Nat) :
    (startCodeLoop b L n).1 = 0 ↔
      ∃ m, ReflTransGen (GoesOn b L) n m ∧ m + 6 < L ∧ startCodeAt b m = true := by
  induction n using startCode_induction (b := b) (L := L) with
  | hend n hin =>
    rw [startCodeLoop_eq, if_neg hin]
    refine iff_of_false (by decide) ?_
    rintro ⟨m, hreach, hm, -⟩
    rcases ReflTransGen.cases_head hreach with rfl | ⟨k, hk, -⟩
    · exact hin hm
    · exact hin hk.1
  | hfound n hin hat =>
    rw [startCodeLoop_eq, if_pos hin, if_pos hat]
    exact iff_of_true rfl ⟨n, .refl, hin, hat⟩
  | hnext n hin hat ih =>
    rw [startCodeLoop_eq, if_pos hin, if_neg (by simp [hat])]
    dsimp only
    rw [ih]
    constructor
    · rintro ⟨m, hreach, hm⟩
      exact ⟨m, .head ⟨hin, hat, rfl⟩ hreach, hm⟩
    · rintro ⟨m, hreach, hm, hatm⟩
      rcases ReflTransGen.cases_head hreach with rfl | ⟨k, ⟨-, -, rfl⟩, hrest⟩
      · rw [hat] at hatm
        cases hatm
      · exact ⟨m, hrest, hm, hatm⟩

/-! ## The walk over the units -/

/-- The unit behind `n` bytes is refused: it is too long, or has no header. -/
def Refused (nDataSize : Nat → Int) (header : Nat → Bool) (L n : Nat) : Prop :=
  nDataSize n > (L : Int) - n - 4 ∨ nDataSize n < 0 ∨ header n = false

instance : Decidable (Refused nDataSize header L n) :=
  inferInstanceAs (Decidable (_ ∨ _ ∨ _))

/-- The unit ends where the chunk ends. -/
def Last (nDataSize : Nat → Int) (L n : Nat) : Prop :=
  nDataSize n = (L : Int) - n - 4 ∧ nDataSize n ≠ 0

instance : Decidable (Last nDataSize L n) := inferInstanceAs (Decidable (_ ∧ _))

/-- The walk goes on from `n` at `m`. -/
def Follows (nDataSize : Nat → Int) (header : Nat → Bool) (L n m : Nat) : Prop :=
  n < L ∧ ¬ Refused nDataSize header L n ∧ ¬ Last nDataSize L n ∧
    m = n + ((nDataSize n).toNat + 4)

/-- The unit behind `m` bytes is looked at. -/
def UnitAt (nDataSize : Nat → Int) (header : Nat → Bool) (L n m : Nat) : Prop :=
  ReflTransGen (Follows nDataSize header L) n m ∧ m < L

theorem unitLoop_eq (nDataSize : Nat → Int) (header : Nat → Bool) (L n : Nat) :
    unitLoop nDataSize header L n =
    if n < L then
      if Refused nDataSize header L n then (-1, [n], n)
      else if Last nDataSize L n then (0, [n], n)
      else
        ((unitLoop nDataSize header L (n + ((nDataSize n).toNat + 4))).1,
          n :: (unitLoop nDataSize header L (n + ((nDataSize n).toNat + 4))).2.1,
          (unitLoop nDataSize header L (n + ((nDataSize n).toNat + 4))).2.2)
    else (-1, [], n) := by
  conv => lhs; unfold unitLoop
  rfl

theorem unit_induction {P : Nat → Prop} (hend : ∀ n, ¬ n < L → P n)
    (hrefused : ∀ n, n < L → Refused nDataSize header L n → P n)
    (hlast : ∀ n, n < L → ¬ Refused nDataSize header L n → Last nDataSize L n → P n)
    (hnext : ∀ n, n < L → ¬ Refused nDataSize header L n → ¬ Last nDataSize L n →
      P (n + ((nDataSize n).toNat + 4)) → P n) (n : Nat) : P n := by
  by_cases hin : n < L
  · by_cases href : Refused nDataSize header L n
    · exact hrefused n hin href
    · by_cases hl : Last nDataSize L n
      · exact hlast n hin href hl
      · exact hnext n hin href hl
          (unit_induction hend hrefused hlast hnext (n + ((nDataSize n).toNat + 4)))
  · exact hend n hin
termination_by L - n

theorem unitAt_iff (hin : n < L) (hnext : ∀ k, ¬ Follows nDataSize header L n k) :
    UnitAt nDataSize header L n m ↔ m = n := by
  constructor
  · rintro ⟨hreach, -⟩
    rcases ReflTransGen.cases_head hreach with rfl | ⟨k, hk, -⟩
    · rfl
    · exact absurd hk (hnext k)
  · rintro rfl
    exact ⟨.refl, hin⟩

theorem unitAt_next (hin : n < L) (hnext : Follows nDataSize header L n i) :
    UnitAt nDataSize header L n m ↔ m = n ∨ UnitAt nDataSize header L i m := by
  constructor
  · rintro ⟨hreach, hm⟩
    rcases ReflTransGen.cases_head hreach with rfl | ⟨k, hk, hrest⟩
    · exact .inl rfl
    · rw [hnext.2.2.2, ← hk.2.2.2]
      exact .inr ⟨hrest, hm⟩
  · rintro (rfl | ⟨hrest, hm⟩)
    · exact ⟨.refl, hin⟩
    · exact ⟨.head hnext hrest, hm⟩

/-- The units that the loop looks at. -/
theorem mem_unitLoop : m ∈ (unitLoop nDataSize header L n).2.1 ↔ UnitAt nDataSize header L n m := by
  induction n using @unit_induction L nDataSize header with
  | hend n hin =>
    rw [unitLoop_eq, if_neg hin]
    refine iff_of_false (by simp) ?_
    rintro ⟨hreach, hm⟩
    rcases ReflTransGen.cases_head hreach with rfl | ⟨k, hk, -⟩
    · exact hin hm
    · exact hin hk.1
  | hrefused n hin href =>
    rw [unitLoop_eq, if_pos hin, if_pos href, unitAt_iff hin fun k hk => hk.2.1 href]
    exact List.mem_singleton
  | hlast n hin href hl =>
    rw [unitLoop_eq, if_pos hin, if_neg href, if_pos hl, unitAt_iff hin fun k hk => hk.2.2.1 hl]
    exact List.mem_singleton
  | hnext n hin href hl ih =>
    rw [unitLoop_eq, if_pos hin, if_neg href, if_neg hl, unitAt_next hin ⟨hin, href, hl, rfl⟩, ← ih]
    exact List.mem_cons

theorem unitLoop_ret : (unitLoop nDataSize header L n).1 = 0 ↔
    ∃ m, UnitAt nDataSize header L n m ∧ ¬ Refused nDataSize header L m ∧ Last nDataSize L m := by
  induction n using @unit_induction L nDataSize header with
  | hend n hin =>
    rw [unitLoop_eq, if_neg hin]
    refine iff_of_false (by simp) ?_
    rintro ⟨m, ⟨hreach, hm⟩, -⟩
    rcases ReflTransGen.cases_head hreach with rfl | ⟨k, hk, -⟩
    · exact hin hm
    · exact hin hk.1
  | hrefused n hin href =>
    rw [unitLoop_eq, if_pos hin, if_pos href]
    refine iff_of_false (by simp) ?_
    rintro ⟨m, hm, hnot, -⟩
    rw [unitAt_iff hin fun k hk => hk.2.1 href] at hm
    exact hnot (hm ▸ href)
  | hlast n hin href hl =>
    rw [unitLoop_eq, if_pos hin, if_neg href, if_pos hl]
    exact iff_of_true rfl ⟨n, ⟨.refl, hin⟩, href, hl⟩
  | hnext n hin href hl ih =>
    rw [unitLoop_eq, if_pos hin, if_neg href, if_neg hl]
    dsimp only
    rw [ih]
    have hnext : Follows nDataSize header L n (n + ((nDataSize n).toNat + 4)) := ⟨hin, href, hl, rfl⟩
    constructor
    · rintro ⟨m, hm, hrest⟩
      exact ⟨m, (unitAt_next hin hnext).2 (.inr hm), hrest⟩
    · rintro ⟨m, hm, hrest⟩
      rcases (unitAt_next hin hnext).1 hm with rfl | hm
      · exact absurd hrest.2 hl
      · exact ⟨m, hm, hrest⟩

theorem refused_congr (hsize : nDataSize' n = nDataSize n) (hhead : header' n = header n) :
    Refused nDataSize' header' L n ↔ Refused nDataSize header L n := by
  rw [Refused, Refused, hsize, hhead]

theorem last_congr (hsize : nDataSize' n = nDataSize n) : Last nDataSize' L n ↔ Last nDataSize L n := by
  rw [Last, Last, hsize]

/-- Two chunks with the same units are walked in the same way. -/
theorem unitLoop_congr (h : ∀ m, UnitAt nDataSize header L n m →
      nDataSize' m = nDataSize m ∧ header' m = header m) :
    unitLoop nDataSize' header' L n = unitLoop nDataSize header L n := by
  induction n using @unit_induction L nDataSize header with
  | hend n hin => rw [unitLoop_eq, if_neg hin, unitLoop_eq nDataSize, if_neg hin]
  | hrefused n hin href =>
    obtain ⟨hsize, hhead⟩ := h n ⟨.refl, hin⟩
    rw [unitLoop_eq, if_pos hin, if_pos ((refused_congr hsize hhead).2 href), unitLoop_eq nDataSize,
      if_pos hin, if_pos href]
  | hlast n hin href hl =>
    obtain ⟨hsize, hhead⟩ := h n ⟨.refl, hin⟩
    rw [unitLoop_eq, if_pos hin, if_neg (mt (refused_congr hsize hhead).1 href),
      if_pos ((last_congr hsize).2 hl), unitLoop_eq nDataSize, if_pos hin, if_neg href, if_pos hl]
  | hnext n hin href hl ih =>
    obtain ⟨hsize, hhead⟩ := h n ⟨.refl, hin⟩
    have hrest := ih fun m hm => h m ((unitAt_next hin ⟨hin, href, hl, rfl⟩).2 (.inr hm))
    rw [unitLoop_eq, if_pos hin, if_neg (mt (refused_congr hsize hhead).1 href),
      if_neg (mt (last_congr hsize).1 hl), unitLoop_eq nDataSize header L n, if_pos hin, if_neg href,
      if_neg hl, hsize, hrest]

theorem le_unitLoop : n ≤ (unitLoop nDataSize header L n).2.2 := by
  induction n using @unit_induction L nDataSize header with
  | hend n hin => rw [unitLoop_eq, if_neg hin]
  | hrefused n hin href => rw [unitLoop_eq, if_pos hin, if_pos href]
  | hlast n hin href hl => rw [unitLoop_eq, if_pos hin, if_neg href, if_pos hl]
  | hnext n hin href hl ih =>
    rw [unitLoop_eq, if_pos hin, if_neg href, if_neg hl]
    dsimp only
    omega

/-- `pBuf` stays at the first unit just if no other follows. -/
theorem unitLoop_end (hin : n < L) : (unitLoop nDataSize header L n).2.2 = n ↔
    ∀ k, ¬ Follows nDataSize header L n k := by
  rw [unitLoop_eq, if_pos hin]
  by_cases href : Refused nDataSize header L n
  · rw [if_pos href]
    exact iff_of_true rfl fun k hk => hk.2.1 href
  · rw [if_neg href]
    by_cases hl : Last nDataSize L n
    · rw [if_pos hl]
      exact iff_of_true rfl fun k hk => hk.2.2.1 hl
    · rw [if_neg hl]
      refine iff_of_false ?_ fun hno => hno _ ⟨hin, href, hl, rfl⟩
      have hle := @le_unitLoop L (n + ((nDataSize n).toNat + 4)) nDataSize header
      dsimp only
      omega

/-! ## Streams of the two forms -/

/-- A NALU whose header has forbidden bit 0 and a temporal id. -/
def NalUnit (u : List UInt8) : Prop := ∃ b₀ b₁ rest, u = b₀ :: b₁ :: rest ∧ nalHeader b₀ b₁ = true

def HasStartCode (bs : List UInt8) : Prop := ∃ pre u, bs = pre ++ [0, 0, 1] ++ u ∧ NalUnit u

/-- NALUs with their lengths in front, up to the end. -/
inductive Units : List UInt8 → Prop
  | last {b₀ b₁ b₂ b₃ u} : u.length = be32 b₀ b₁ b₂ b₃ → NalUnit u →
    Units (b₀ :: b₁ :: b₂ :: b₃ :: u)
  | next {b₀ b₁ b₂ b₃ u rest} : u.length = be32 b₀ b₁ b₂ b₃ → NalUnit u → Units rest →
    Units (b₀ :: b₁ :: b₂ :: b₃ :: (u ++ rest))

/-- The length in front of a unit of the bytes. -/
def unitSize (bs : List UInt8) (n : Nat) : Int :=
  word32 (linear bs n 0) (linear bs n 1) (linear bs n 2) (linear bs n 3)

/-- Its header. -/
def unitHeader (bs : List UInt8) (n : Nat) : Bool := nalHeader (linear bs n 4) (linear bs n 5)

/-- The search finds a start code in the bytes. -/
def FindsStartCode (bs : List UInt8) : Prop := ∃ m, Found (linear bs 0) bs.length m

/-- The walk over the bytes comes to a unit behind `m` of them. -/
def ComesTo (bs : List UInt8) (m : Nat) : Prop := UnitAt (unitSize bs) (unitHeader bs) bs.length 0 m

/-- The unit is taken. -/
def Taken (bs : List UInt8) (m : Nat) : Prop := ¬ Refused (unitSize bs) (unitHeader bs) bs.length m

/-- The walk ends with a unit that reaches to the end. -/
def EndsInUnit (bs : List UInt8) : Prop :=
  ∃ m, ComesTo bs m ∧ Taken bs m ∧ Last (unitSize bs) bs.length m

theorem linear_zero (bs : List UInt8) (n i : Nat) : linear bs 0 (n + i) = linear bs n i := by
  simp [linear]

theorem drop_eq (k : Nat) (h : n + k < bs.length) :
    bs.drop (n + k) = linear bs n k :: bs.drop (n + (k + 1)) := by
  rw [drop_eq_linear h]
  simp [linear, Nat.add_assoc]

theorem FindsStartCode.hasStartCode (h : FindsStartCode bs) : HasStartCode bs := by
  obtain ⟨m, -, hm, hat⟩ := h
  have hbyte (i : Nat) : linear bs 0 (m + i) = linear bs m i := linear_zero bs m i
  have hfirst : linear bs 0 m = linear bs m 0 := hbyte 0
  simp only [startCodeAt, hbyte, hfirst, Bool.and_eq_true, Bool.or_eq_true, decide_eq_true_eq] at hat
  obtain ⟨⟨h₀, h₁⟩, ⟨h₂, hhead⟩ | ⟨⟨h₂, h₃⟩, hhead⟩⟩ := hat
  · refine ⟨bs.take m, bs.drop (m + 3), ?_, _, _, bs.drop (m + 5), ?_, hhead⟩
    · conv => lhs; rw [← List.take_append_drop m bs]
      have h : bs.drop m = linear bs m 0 :: bs.drop (m + 1) := drop_eq_linear (by omega)
      rw [h, drop_eq 1 (by omega), drop_eq 2 (by omega), h₀, h₁, h₂, List.append_assoc]
      rfl
    · rw [drop_eq 3 (by omega), drop_eq 4 (by omega)]
  · refine ⟨bs.take m ++ [0], bs.drop (m + 4), ?_, _, _, bs.drop (m + 6), ?_, hhead⟩
    · conv => lhs; rw [← List.take_append_drop m bs]
      have h : bs.drop m = linear bs m 0 :: bs.drop (m + 1) := drop_eq_linear (by omega)
      rw [h, drop_eq 1 (by omega), drop_eq 2 (by omega), drop_eq 3 (by omega), h₀, h₁, h₂, h₃,
        List.append_assoc, List.append_assoc]
      rfl
    · rw [drop_eq 4 (by omega), drop_eq 5 (by omega)]

/-- A unit that is taken and has a header of its own. -/
theorem taken_unit (hin : n < bs.length) (htaken : Taken bs n) (hsize : 2 ≤ unitSize bs n) :
    ∃ b₀ b₁ b₂ b₃ u, bs.drop n = b₀ :: b₁ :: b₂ :: b₃ :: (u ++ bs.drop (n + ((unitSize bs n).toNat + 4))) ∧
      u.length = be32 b₀ b₁ b₂ b₃ ∧ NalUnit u := by
  unfold Taken Refused at htaken
  simp only [not_or, Bool.not_eq_false, not_lt] at htaken
  obtain ⟨hfits, -, hhead⟩ := htaken
  obtain ⟨size, hs⟩ := Int.eq_ofNat_of_zero_le (Int.le_trans (by decide) hsize)
  have hbe : be32 (linear bs n 0) (linear bs n 1) (linear bs n 2) (linear bs n 3) = size := by
    have hlt := be32_lt (linear bs n 0) (linear bs n 1) (linear bs n 2) (linear bs n 3)
    unfold unitSize at hs
    rw [word32_eq] at hs
    split at hs <;> omega
  rw [hs] at hfits hsize
  have hlength : (bs.drop (n + 4)).length = bs.length - (n + 4) := List.length_drop
  refine ⟨linear bs n 0, linear bs n 1, linear bs n 2, linear bs n 3, (bs.drop (n + 4)).take size,
    ?_, ?_, ?_⟩
  · have hrest : bs.drop (n + ((size : Int).toNat + 4)) = (bs.drop (n + 4)).drop size := by
      have hsum : n + ((size : Int).toNat + 4) = n + 4 + size := by omega
      rw [List.drop_drop, hsum]
    rw [hs, hrest, List.take_append_drop, drop_eq_linear hin, drop_eq 1 (by omega),
      drop_eq 2 (by omega), drop_eq 3 (by omega)]
  · rw [hbe, List.length_take]
    omega
  · obtain ⟨k, rfl⟩ : ∃ k, size = k + 2 := ⟨size - 2, by omega⟩
    rw [drop_eq 4 (by omega), drop_eq 5 (by omega)]
    exact ⟨_, _, _, rfl, hhead⟩

/-- The walk from `n` on ends in a unit. -/
def EndsFrom (bs : List UInt8) (n : Nat) : Prop :=
  ∃ m, UnitAt (unitSize bs) (unitHeader bs) bs.length n m ∧ Taken bs m ∧ Last (unitSize bs) bs.length m

theorem units_of_walk (n : Nat) (hends : EndsFrom bs n)
    (hsize : ∀ m, UnitAt (unitSize bs) (unitHeader bs) bs.length n m → Taken bs m → 2 ≤ unitSize bs m) :
    Units (bs.drop n) := by
  obtain ⟨m, hm, htaken, hlast⟩ := hends
  induction n using @unit_induction bs.length (unitSize bs) (unitHeader bs) with
  | hend n hin =>
    rcases ReflTransGen.cases_head hm.1 with rfl | ⟨k, hk, -⟩
    · exact absurd hm.2 hin
    · exact absurd hk.1 hin
  | hrefused n hin href =>
    rw [unitAt_iff hin fun k hk => hk.2.1 href] at hm
    exact absurd (hm ▸ href) htaken
  | hlast n hin href hl =>
    obtain ⟨b₀, b₁, b₂, b₃, u, hdrop, hlength, hunit⟩ := taken_unit hin href (hsize n ⟨.refl, hin⟩ href)
    have hnil : bs.drop (n + ((unitSize bs n).toNat + 4)) = [] := by
      have h2 := hsize n ⟨.refl, hin⟩ href
      have heq := hl.1
      exact List.drop_eq_nil_of_le (by omega)
    rw [hdrop, hnil, List.append_nil]
    exact .last hlength hunit
  | hnext n hin href hl ih =>
    obtain ⟨b₀, b₁, b₂, b₃, u, hdrop, hlength, hunit⟩ := taken_unit hin href (hsize n ⟨.refl, hin⟩ href)
    have hfollows : Follows (unitSize bs) (unitHeader bs) bs.length n (n + ((unitSize bs n).toNat + 4)) :=
      ⟨hin, href, hl, rfl⟩
    rw [hdrop]
    refine .next hlength hunit (ih (fun k hk => hsize k ((unitAt_next hin hfollows).2 (.inr hk))) ?_)
    rcases (unitAt_next hin hfollows).1 hm with rfl | hm
    · exact absurd hlast hl
    · exact hm

end Melis.Vdec
