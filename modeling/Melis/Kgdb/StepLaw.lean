import Melis.Kgdb.ArmStepLaw

/-!
# Single steps and the architecture

`step_iff`: the breakpoint of a single step is at the instruction that is executed next just if
`StepSound` holds of the instruction at which the target has stopped.
-/

namespace Melis.Kgdb

open Lib Lib.Arm

variable {s : State} {handler next : Word} {ins : BitVec 16} {i : ThumbInst} {mem : Mem}

/-! ## Fields of the instructions of Thumb state -/

theorem bitsShift_eq_iff {high low : Nat} {m v V : BitVec 16}
    (hm : m >>> low = BitVec.ofNat 16 (2 ^ (high - low + 1) - 1))
    (hlow : (m >>> low) <<< low = m) (hV : v <<< low = V) (hv : V >>> low = v) :
    bitsShift ins high low = v ↔ ins &&& m = V := by
  rw [bitsShift, shift_and hm, shift_eq_iff hlow hV hv]

theorem op_eq : ins >>> 11 &&& 0xFFFF = bitsShift ins 15 11 := by
  have hlt := ins.isLt
  apply BitVec.eq_of_toNat_eq
  rw [bitsShift, BitVec.toNat_and, BitVec.toNat_and, BitVec.toNat_ushiftRight,
    Nat.shiftRight_eq_div_pow]
  have hand (n k : Nat) : n &&& (2 ^ k - 1) = n % 2 ^ k := Nat.and_two_pow_sub_one_eq_mod n k
  exact ((hand _ 16).trans (by omega)).trans (hand _ 5).symm

/-- The two halves of a longer instruction are left out. -/
theorem decodeThumb_half (h : decodeThumb ins = some i) : thumb32bitCode ins = false := by
  by_contra hlong
  have he : ins &&& 0xE000 = 0xE000 ∧ ins &&& 0xF800 ≠ 0xE000 := by
    rw [Bool.not_eq_false, thumb32bitCode, op_eq] at hlong
    simp only [Bool.or_eq_true, beq_iff_eq] at hlong
    rcases hlong with (h1 | h1) | h1
    · have h1 : ins &&& 0xF800 = 0xE800 := (bitsShift_eq_iff (by decide) (by decide) (by decide)
        (by decide)).mp h1
      exact ⟨and_of_and h1 (by decide), by rw [h1]; decide⟩
    · have h1 : ins &&& 0xF800 = 0xF000 := (bitsShift_eq_iff (by decide) (by decide) (by decide)
        (by decide)).mp h1
      exact ⟨and_of_and h1 (by decide), by rw [h1]; decide⟩
    · have h1 : ins &&& 0xF800 = 0xF800 := (bitsShift_eq_iff (by decide) (by decide) (by decide)
        (by decide)).mp h1
      exact ⟨and_of_and h1 (by decide), by rw [h1]; decide⟩
  have hno {M V : BitVec 16} (hM : M &&& 0xE000 = 0xE000) (hV : V &&& 0xE000 ≠ 0xE000) :
      ins &&& M ≠ V := fun h => hV ((and_of_and h hM).symm.trans he.1)
  rw [decodeThumb, if_neg (hno (by decide) (by decide)), if_neg (hno (by decide) (by decide)),
    if_neg (hno (by decide) (by decide)), if_neg (hno (by decide) (by decide)),
    if_neg (hno (by decide) (by decide)), if_neg (hno (by decide) (by decide)),
    if_neg (hno (by decide) (by decide)), if_neg (hno (by decide) (by decide)),
    if_neg (hno (by decide) (by decide)), if_neg (hno (by decide) (by decide)),
    if_neg (hno (by decide) (by decide)), if_neg he.2, if_pos (.inl he.1)] at h
  cases h

/-- The `switch` of `thumb_get_next_pc`, by the bits of the instruction. -/
theorem thumbGetNextPc_switch (hpop : ins &&& 0xff00 ≠ 0xbd00) (hmov : ins &&& 0xff87 ≠ 0x4687) :
    thumbGetNextPc (cpuOf s) mem ins =
      if ins &&& 0xF800 = 0x4000 then
        if ins &&& 0x0700 = 0x0700 then some (s.r (ins.extractLsb' 3 4).toFin, [])
        else some (makeThumbAddr (s.pc + 2), [])
      else if ins &&& 0xF000 = 0xD000 then
        if ins &&& 0x0E00 = 0x0E00 then some (makeThumbAddr (s.pc + 2), [])
        else some (makeThumbAddr (s.pc + thumbOffset ins 8), [])
      else if ins &&& 0xF800 = 0xE000 then some (makeThumbAddr (s.pc + thumbOffset ins 11), [])
      else some (makeThumbAddr (s.pc + 2), []) := by
  have hcbz : ¬ (ins &&& 0xf500 = 0xb100 ∧ (cpuOf s).gdbArchRegs (bitsOf ins 3 0).toNat = none) := by
    rintro ⟨-, hnone⟩
    have hlow : (bitsOf ins 3 0).toNat = (ins.extractLsb' 0 4).toNat :=
      low_toNat (by decide) (by decide)
    have hreg := @gdbArchRegs_reg s (ins.extractLsb' 0 4).toFin
    rw [hlow] at hnone
    rw [show (ins.extractLsb' 0 4).toNat = ((ins.extractLsb' 0 4).toFin : Nat) from rfl, hreg] at hnone
    cases hnone
  have h8 : bitsShift ins 15 11 = 0x08 ↔ ins &&& 0xF800 = 0x4000 :=
    bitsShift_eq_iff (by decide) (by decide) (by decide) (by decide)
  have h1a : bitsShift ins 15 11 = 0x1a ↔ ins &&& 0xF800 = 0xD000 :=
    bitsShift_eq_iff (by decide) (by decide) (by decide) (by decide)
  have h1b : bitsShift ins 15 11 = 0x1b ↔ ins &&& 0xF800 = 0xD000 ||| 0x0800 :=
    bitsShift_eq_iff (by decide) (by decide) (by decide) (by decide)
  have h1c : bitsShift ins 15 11 = 0x1c ↔ ins &&& 0xF800 = 0xE000 :=
    bitsShift_eq_iff (by decide) (by decide) (by decide) (by decide)
  have he : bitsShift ins 11 8 = 0xe ↔ ins &&& 0x0F00 = 0x0E00 :=
    bitsShift_eq_iff (by decide) (by decide) (by decide) (by decide)
  have hf : bitsShift ins 11 8 = 0xf ↔ ins &&& 0x0F00 = 0x0E00 ||| 0x0100 :=
    bitsShift_eq_iff (by decide) (by decide) (by decide) (by decide)
  have h3 : bitsShift ins 9 8 = 3 ↔ ins &&& 0x0300 = 0x0300 :=
    bitsShift_eq_iff (by decide) (by decide) (by decide) (by decide)
  have hd : ins &&& 0xF800 = 0xD000 ∨ ins &&& 0xF800 = 0xD000 ||| 0x0800 ↔ ins &&& 0xF000 = 0xD000 :=
    and_or_bit (k := 11) (by decide) (by decide) (by decide) (by decide)
  have hef : ins &&& 0x0F00 = 0x0E00 ∨ ins &&& 0x0F00 = 0x0E00 ||| 0x0100 ↔
      ins &&& 0x0E00 = 0x0E00 :=
    and_or_bit (k := 8) (by decide) (by decide) (by decide) (by decide)
  have hbx : bitsOf ins 10 10 ≠ 0 ∧ ins &&& 0x0300 = 0x0300 ↔ ins &&& 0x0700 = 0x0700 := by
    have hbit : bitsOf ins 10 10 = ins &&& 0x0400 := rfl
    rw [hbit]
    constructor
    · rintro ⟨h10, h98⟩
      have h10 : ins &&& 0x0400 = 0x0400 := @and_twoPow_eq _ 10 _ _ (by decide) h10
      rw [show (0x0700 : BitVec 16) = 0x0400 ||| 0x0300 from rfl, BitVec.and_or_distrib_left, h10, h98]
    · intro h
      have h10 : ins &&& 0x0400 = 0x0400 := and_of_and h (by decide)
      exact ⟨by rw [h10]; decide, and_of_and h (by decide)⟩
  have hrm : (cpuOf s).gdbArchRegs (bitsShift ins 6 3).toNat =
      some (s.r (ins.extractLsb' 3 4).toFin) := by
    have hm : ins >>> 3 &&& BitVec.ofNat 16 (2 ^ (6 - 3 + 1) - 1) = (ins &&& 0x0078) >>> 3 :=
      shift_and (by decide)
    have hfield : ((ins &&& 0x0078) >>> 3).toNat = (ins.extractLsb' 3 4).toNat :=
      field_toNat (by decide) (by decide)
    rw [bitsShift, hm, hfield]
    exact gdbArchRegs_reg (ins.extractLsb' 3 4).toFin
  rw [thumbGetNextPc, if_neg hpop, if_neg hmov, if_neg hcbz]
  simp only [h8, h1a, h1b, h1c, he, hf, h3, hd, hef, hbx, hrm]
  rfl


/-- The offset of a branch, from the address that the program counter reads as. -/
theorem thumbOffset_eq {len : Nat} (hlen : 0 < len) (hle : len ≤ 16)
    (hm : BitVec.ofNat 16 ((2 ^ (len - 1 - 0 + 1) - 1) * 2 ^ 0) = (BitVec.allOnes len).setWidth 16)
    (htop : BitVec.ofNat 32 (2 ^ len) = BitVec.twoPow 32 len)
    (hones : ∀ i < 32, ((0xffffffff : BitVec 32) <<< len).getLsbD i = decide (len ≤ i)) :
    thumbOffset ins len = (ins.extractLsb' 0 len ++ 0#1).signExtend 32 + 4 := by
  have hfield : (bitsOf ins (len - 1) 0).setWidth 32 = (ins.extractLsb' 0 len).setWidth 32 := by
    rw [bitsOf, low_eq hm]
    exact BitVec.setWidth_setWidth (by omega)
  have hsign : (ins.extractLsb' 0 len).setWidth 32 <<< 1 &&& BitVec.ofNat 32 (2 ^ len) ≠ 0 ↔
      (ins.extractLsb' 0 len).msb = true := by
    have hlt : len < 32 := by omega
    have hone : ¬ len < 1 := by omega
    have hpred : len - 1 < 32 := by omega
    rw [and_bit htop hlt, BitVec.getLsbD_shiftLeft, BitVec.getLsbD_setWidth,
      BitVec.msb_eq_getLsbD_last]
    simp [hlt, hone, hpred]
  rw [thumbOffset, hfield, signExtendAt]
  simp only [hsign]
  rw [signExtend_eq (t := len) _ (by omega) hlen (by omega) (by omega) hones]

theorem bitcount_eq : bitcount (bitsOf ins 7 0) = count (ins.extractLsb' 0 8) := by
  have hmask : ∀ i < 16, (0x00FF : BitVec 16).getLsbD i = decide (i < 8) := by decide
  have hbit (i : Nat) (hi : i < 16) :
      (bitsOf ins 7 0).getLsbD i = (ins.extractLsb' 0 8).getLsbD i := by
    rw [bitsOf, BitVec.getLsbD_and, BitVec.getLsbD_extractLsb']
    rw [show BitVec.ofNat 16 ((2 ^ (7 - 0 + 1) - 1) * 2 ^ 0) = 0x00FF from rfl, hmask i hi,
      Nat.zero_add, Bool.and_comm]
  rw [bitcount, count, show List.range 16 = List.range 8 ++ [8, 9, 10, 11, 12, 13, 14, 15] from rfl,
    List.filter_append, List.filter_congr fun i hi => hbit i ((List.mem_range.mp hi).trans (by decide))]
  have hnone : [8, 9, 10, 11, 12, 13, 14, 15].filter (fun i => (bitsOf ins 7 0).getLsbD i) = [] := by
    apply List.filter_eq_nil_iff.mpr
    intro i hi
    have hlt : i < 16 ∧ 8 ≤ i := by
      revert i
      decide
    rw [hbit i hlt.1, BitVec.getLsbD_of_ge _ i hlt.2]
    decide
  rw [hnone, List.append_nil]

/-- The number of the register is not shifted. -/
theorem movNumber : (bitsOf ins 6 3).toNat = 8 * (ins.extractLsb' 3 4).toNat := by
  have hlt : (ins.extractLsb' 3 4).toNat < 16 := (ins.extractLsb' 3 4).isLt
  have hfield : ((ins &&& 0x0078) >>> 3).toNat = (ins.extractLsb' 3 4).toNat :=
    field_toNat (by decide) (by decide)
  have hback : ((ins &&& 0x0078) >>> 3) <<< 3 = ins &&& 0x0078 := shift_back (by decide)
  rw [show bitsOf ins 6 3 = ins &&& 0x0078 from rfl, ← hback, BitVec.toNat_shiftLeft, hfield,
    Nat.shiftLeft_eq]
  omega


/-! ## The instructions of Thumb state -/

/-- The program counter that the stub computes for an instruction of Thumb state. -/
def thumbStub (s : State) : ThumbInst → Option Word
  | .pop list => some (s.word (s.r 13 + BitVec.ofNat 32 (4 * count list)))
  | .mov m => (cpuOf s).gdbArchRegs (8 * m)
  | .bx m | .blx m => some (s.r m)
  | .bcond cond imm8 =>
    if conditionHolds s cond then some (s.pc + 4 + (imm8 ++ 0#1).signExtend 32)
    else some (s.pc + 2)
  | .b imm11 => some (s.pc + 4 + (imm11 ++ 0#1).signExtend 32)
  | _ => some (s.pc + 2)

/-- What `stepThumb` takes the next instruction for. -/
def thumbTarget (cpu : Cpu) (mem : Mem) (ins : BitVec 16) : Option (BitVec 32 × Reads) :=
  if thumbInsWillExecute cpu ins then thumbGetNextPc cpu mem ins
  else some (makeThumbAddr (cpu.pc + 2), [])

theorem thumbTarget_eq (h : ins &&& 0xF000 ≠ 0xD000) :
    thumbTarget (cpuOf s) mem ins = thumbGetNextPc (cpuOf s) mem ins := by
  have hnibble : (ins &&& 0xF000) >>> 12 = 0xD ↔ ins &&& 0xF000 = 0xD000 :=
    shift_eq_iff (by decide) (by decide) (by decide)
  have hne : ((ins &&& 0xF000) >>> 12 != 0xD) = true := bne_iff_ne.mpr (mt hnibble.mp h)
  rw [thumbTarget, thumbInsWillExecute, if_pos hne, if_pos rfl]

/-- A value of some bits excludes another one. -/
theorem and_ne {M V m v : BitVec 16} (h : ins &&& M = V) (hM : M &&& m = m) (hV : V &&& m ≠ v) :
    ins &&& m ≠ v := by
  rw [and_of_and h hM]
  exact hV

theorem thumbTarget_pop (h : ins &&& 0xFF00 = 0xBD00) :
    (thumbTarget (cpuOf s) s.mem ins).map (fixedAddr ·.1) =
      (thumbStub s (.pop (ins.extractLsb' 0 8))).map fixedAddr := by
  have hsp : (cpuOf s).gdbArchRegs 13 = some (s.r 13) := gdbArchRegs_reg 13
  rw [thumbTarget_eq (and_ne h (by decide) (by decide)), thumbGetNextPc, if_pos h, hsp,
    bitcount_eq, Nat.mul_comm]
  exact congrArg some (fixedAddr_makeThumbAddr _)

theorem thumbTarget_mov (h : ins &&& 0xFF87 = 0x4687) :
    (thumbTarget (cpuOf s) s.mem ins).map (fixedAddr ·.1) =
      (thumbStub s (.mov (ins.extractLsb' 3 4).toFin)).map fixedAddr := by
  have hpop : ins &&& 0xff00 ≠ 0xbd00 := and_ne h (by decide) (by decide)
  have hself : bitsOf ins 6 3 ≠ 0x0f := by
    intro hself
    have hnum := @movNumber ins
    rw [hself] at hnum
    have hfifteen : (0x0f : BitVec 16).toNat = 15 := rfl
    omega
  rw [thumbTarget_eq (and_ne h (by decide) (by decide)), thumbGetNextPc, if_neg hpop, if_pos h,
    if_neg hself, movNumber, thumbStub, Option.map_map]
  congr 1
  funext next
  exact fixedAddr_makeThumbAddr next

/-- The exchange of a branch, whose register is read as it is. -/
theorem thumbTarget_bx (h : ins &&& 0xFF00 = 0x4700) :
    (thumbTarget (cpuOf s) s.mem ins).map (fixedAddr ·.1) =
      some (fixedAddr (s.r (ins.extractLsb' 3 4).toFin)) := by
  have hbx : ins &&& 0xF800 = 0x4000 := and_of_and h (by decide)
  have hbits : ins &&& 0x0700 = 0x0700 := and_of_and h (by decide)
  have hmov : ins &&& 0xff87 ≠ 0x4687 := fun hmov =>
    and_ne (m := 0xFF00) (v := 0x4700) hmov (by decide) (by decide) h
  rw [thumbTarget_eq (and_ne h (by decide) (by decide)),
    thumbGetNextPc_switch (and_ne h (by decide) (by decide)) hmov, if_pos hbx, if_pos hbits]
  rfl

theorem thumbTarget_b (h : ins &&& 0xF800 = 0xE000) :
    (thumbTarget (cpuOf s) s.mem ins).map (fixedAddr ·.1) =
      (thumbStub s (.b (ins.extractLsb' 0 11))).map fixedAddr := by
  have hbx : ins &&& 0xF800 ≠ 0x4000 := and_ne h (by decide) (by decide)
  have hoffset : thumbOffset ins 11 = (ins.extractLsb' 0 11 ++ 0#1).signExtend 32 + 4 :=
    thumbOffset_eq (by decide) (by decide) (by decide) (by decide) (by decide)
  rw [thumbTarget_eq (and_ne h (by decide) (by decide)),
    thumbGetNextPc_switch (fun hpop => and_ne (m := 0xF800) (v := 0xE000) hpop (by decide)
      (by decide) h) (fun hmov => and_ne (m := 0xF800) (v := 0xE000) hmov (by decide) (by decide) h),
    if_neg hbx, if_neg (and_ne h (by decide) (by decide)), if_pos h, hoffset, BitVec.add_comm _ 4,
    ← BitVec.add_assoc]
  exact congrArg some (fixedAddr_makeThumbAddr _)

theorem thumbTarget_bcond (h : ins &&& 0xF000 = 0xD000) (hundef : ins &&& 0xFF00 ≠ 0xDE00)
    (hsvc : ins &&& 0xFF00 ≠ 0xDF00) :
    (thumbTarget (cpuOf s) s.mem ins).map (fixedAddr ·.1) =
      (thumbStub s (.bcond (ins.extractLsb' 8 4) (ins.extractLsb' 0 8))).map fixedAddr := by
  have hbx : ins &&& 0xF800 ≠ 0x4000 := fun hbx =>
    and_ne (m := 0xF000) (v := 0xD000) hbx (by decide) (by decide) h
  have hpop : ins &&& 0xff00 ≠ 0xbd00 := fun hpop =>
    and_ne (m := 0xF000) (v := 0xD000) hpop (by decide) (by decide) h
  have hmov : ins &&& 0xff87 ≠ 0x4687 := fun hmov =>
    and_ne (m := 0xF000) (v := 0xD000) hmov (by decide) (by decide) h
  have hbranch : ins &&& 0x0E00 ≠ 0x0E00 := by
    intro hbits
    have hhigh : ins &&& 0xFE00 = 0xDE00 := by
      rw [show (0xFE00 : BitVec 16) = 0xF000 ||| 0x0E00 from rfl, BitVec.and_or_distrib_left, h,
        hbits]
      rfl
    have hcases : ins &&& 0xFF00 = 0xDE00 ∨ ins &&& 0xFF00 = 0xDE00 ||| 0x0100 :=
      (and_or_bit (k := 8) (by decide) (by decide) (by decide) (by decide)).mpr hhigh
    exact hcases.elim hundef hsvc
  have hnibble : (ins &&& 0xF000) >>> 12 = 0xD := by
    rw [h]
    rfl
  have hcond : ((ins &&& 0x0F00) >>> 8).toNat = (ins.extractLsb' 8 4).toNat :=
    field_toNat (by decide) (by decide)
  have hal : ins.extractLsb' 8 4 ≠ 0xF := by
    intro hal
    have hbits : ins &&& 0x0F00 = 0x0F00 :=
      (field_eq_iff (by decide) (by decide) (by decide) (by decide)).mpr hal
    exact hbranch (and_of_and hbits (by decide))
  have hoffset : thumbOffset ins 8 = (ins.extractLsb' 0 8 ++ 0#1).signExtend 32 + 4 :=
    thumbOffset_eq (by decide) (by decide) (by decide) (by decide) (by decide)
  have hwill : thumbInsWillExecute (cpuOf s) ins = conditionHolds s (ins.extractLsb' 8 4) := by
    rw [thumbInsWillExecute, hnibble, if_neg (by decide), hcond]
    exact willExecute_eq s _ hal
  rw [thumbTarget, hwill, thumbGetNextPc_switch hpop hmov, if_neg hbx, if_pos h, if_neg hbranch,
    hoffset, BitVec.add_comm _ 4, ← BitVec.add_assoc, thumbStub]
  split
  · exact congrArg some (fixedAddr_makeThumbAddr _)
  · exact congrArg some (fixedAddr_makeThumbAddr _)

/-- Elsewhere the stub goes on behind the instruction. -/
theorem thumbTarget_next (hpop : ins &&& 0xff00 ≠ 0xbd00) (hmov : ins &&& 0xff87 ≠ 0x4687)
    (hbx : ins &&& 0xFF00 ≠ 0x4700) (hb : ins &&& 0xF800 ≠ 0xE000)
    (hbcond : ins &&& 0xF000 = 0xD000 → ins &&& 0x0E00 = 0x0E00) :
    (thumbTarget (cpuOf s) s.mem ins).map (fixedAddr ·.1) = some (fixedAddr (s.pc + 2)) := by
  have hnext : thumbGetNextPc (cpuOf s) s.mem ins = some (makeThumbAddr (s.pc + 2), []) := by
    rw [thumbGetNextPc_switch hpop hmov]
    split
    · case isTrue h4 =>
      rw [if_neg]
      intro h7
      apply hbx
      rw [show (0xFF00 : BitVec 16) = 0xF800 ||| 0x0700 from rfl, BitVec.and_or_distrib_left, h4, h7]
      rfl
    · split
      · case isTrue hd => rw [if_pos (hbcond hd)]
      · rfl
  rw [thumbTarget, hnext]
  split
  · exact congrArg some (fixedAddr_makeThumbAddr _)
  · exact congrArg some (fixedAddr_makeThumbAddr _)


theorem thumbTarget_decoded (h : decodeThumb ins = some i) :
    (thumbTarget (cpuOf s) s.mem ins).map (fixedAddr ·.1) = (thumbStub s i).map fixedAddr := by
  rw [decodeThumb] at h
  by_cases hpop : ins &&& 0xFF00 = 0xBD00
  · rw [if_pos hpop] at h
    obtain rfl := Option.some.inj h
    exact thumbTarget_pop hpop
  rw [if_neg hpop] at h
  by_cases hmov : ins &&& 0xFF87 = 0x4687
  · rw [if_pos hmov] at h
    obtain rfl := Option.some.inj h
    exact thumbTarget_mov hmov
  rw [if_neg hmov] at h
  by_cases hadd : ins &&& 0xFF87 = 0x4487
  · rw [if_pos hadd] at h
    obtain rfl := Option.some.inj h
    exact thumbTarget_next hpop hmov (and_ne hadd (by decide) (by decide))
      (and_ne hadd (by decide) (by decide))
      (fun hd => absurd hd (and_ne hadd (by decide) (by decide)))
  rw [if_neg hadd] at h
  by_cases hbx : ins &&& 0xFF87 = 0x4700
  · rw [if_pos hbx] at h
    obtain rfl := Option.some.inj h
    exact thumbTarget_bx (and_of_and hbx (by decide))
  rw [if_neg hbx] at h
  by_cases hblx : ins &&& 0xFF87 = 0x4780
  · rw [if_pos hblx] at h
    obtain rfl := Option.some.inj h
    exact thumbTarget_bx (and_of_and hblx (by decide))
  rw [if_neg hblx] at h
  by_cases hexch : ins &&& 0xFF00 = 0x4700
  · rw [if_pos hexch] at h
    cases h
  rw [if_neg hexch] at h
  by_cases hcbz : ins &&& 0xF500 = 0xB100
  · rw [if_pos hcbz] at h
    obtain rfl := Option.some.inj h
    exact thumbTarget_next hpop hmov hexch
      (fun hb => and_ne (m := 0xF000) (v := 0xB000) hb (by decide) (by decide)
        (and_of_and hcbz (by decide)))
      (fun hd => absurd hd (and_ne hcbz (by decide) (by decide)))
  rw [if_neg hcbz] at h
  by_cases hbkpt : ins &&& 0xFF00 = 0xBE00
  · rw [if_pos hbkpt] at h
    obtain rfl := Option.some.inj h
    exact thumbTarget_next hpop hmov hexch (and_ne hbkpt (by decide) (by decide))
      (fun hd => absurd hd (and_ne hbkpt (by decide) (by decide)))
  rw [if_neg hbkpt] at h
  by_cases hudf : ins &&& 0xFF00 = 0xDE00
  · rw [if_pos hudf] at h
    obtain rfl := Option.some.inj h
    exact thumbTarget_next hpop hmov hexch (and_ne hudf (by decide) (by decide))
      fun _ => and_of_and hudf (by decide)
  rw [if_neg hudf] at h
  by_cases hsvc : ins &&& 0xFF00 = 0xDF00
  · rw [if_pos hsvc] at h
    obtain rfl := Option.some.inj h
    exact thumbTarget_next hpop hmov hexch (and_ne hsvc (by decide) (by decide))
      fun _ => and_of_and hsvc (by decide)
  rw [if_neg hsvc] at h
  by_cases hbcond : ins &&& 0xF000 = 0xD000
  · rw [if_pos hbcond] at h
    obtain rfl := Option.some.inj h
    exact thumbTarget_bcond hbcond hudf hsvc
  rw [if_neg hbcond] at h
  by_cases hb : ins &&& 0xF800 = 0xE000
  · rw [if_pos hb] at h
    obtain rfl := Option.some.inj h
    exact thumbTarget_b hb
  rw [if_neg hb] at h
  by_cases hlong : ins &&& 0xE000 = 0xE000 ∨ unallocated ins
  · rw [if_pos hlong] at h
    cases h
  · rw [if_neg hlong] at h
    obtain rfl := Option.some.inj h
    exact thumbTarget_next hpop hmov hexch hb fun hd => absurd hd hbcond

theorem stepThumb_eq (h : decodeThumb (s.half s.pc) = some i) :
    (stepThumb (cpuOf s) s.mem).map (fixedAddr ·.addr) = (thumbStub s i).map fixedAddr := by
  have hfixed (a : Word) : fixedAddr (unmakeThumbAddr a) = fixedAddr a := by
    rw [fixedAddr_eq, fixedAddr_eq, unmakeThumbAddr, BitVec.and_assoc, BitVec.and_self]
  have hins : readHalf s.mem (cpuOf s).pc = s.half s.pc := rfl
  have hshort := decodeThumb_half h
  rw [← thumbTarget_decoded h, thumbTarget, stepThumb, hins, hshort, if_neg Bool.false_ne_true]
  cases thumbInsWillExecute (cpuOf s) (s.half s.pc) with
  | false =>
    simp only [if_false, Bool.false_eq_true, bind, pure, Option.bind_some, Option.map_some]
    split
    · exact congrArg some (hfixed _)
    · rfl
  | true =>
    cases thumbGetNextPc (cpuOf s) s.mem (s.half s.pc) with
    | none => rfl
    | some target =>
      simp only [if_true, bind, pure, Option.bind_some, Option.map_some]
      split
      · exact congrArg some (hfixed _)
      · rfl

/-- In an IT block the instruction is passed over. -/
def skipped (s : State) : Bool := s.inIT && !conditionHolds s (s.itState.extractLsb' 4 4)

theorem thumbBranch_some {target : Option Word} (h : thumbBranch s target = some next) :
    if skipped s then next = s.pc + 2 else target = some next := by
  rw [thumbBranch] at h
  rw [skipped]
  split at h
  · case isTrue hit =>
    rw [hit, Bool.true_and]
    split at h
    · cases h
    · split at h
      · case isTrue hc =>
        rw [hc]
        exact h
      · case isFalse hc =>
        rw [Bool.eq_false_of_not_eq_true hc]
        exact (Option.some.inj h).symm
  · case isFalse hit =>
    rw [Bool.eq_false_of_not_eq_true hit]
    exact h

/-- When the step over an instruction of Thumb state is right. Where the stub takes no branch, the
next instruction must be the one behind; a branch that is passed over in an IT block must lead
there; and the number of the register of a move is taken eight times too high. -/
def ThumbSound (s : State) : ThumbInst → Prop
  | .other | .bcond _ _ => True
  | .pop list => skipped s → s.word (s.r 13 + BitVec.ofNat 32 (4 * count list)) &&& ~~~1 = s.pc + 2
  | .mov m => ∃ v, (cpuOf s).gdbArchRegs (8 * m) = some v ∧
      v &&& ~~~1 = if skipped s then s.pc + 2 else s.thumbReg m &&& ~~~1
  | .add m => skipped s ∨ (s.pc + 4 + s.r m) &&& ~~~1 = s.pc + 2
  | .bx m | .blx m => m ≠ 15 ∧ (skipped s → s.r m &&& ~~~1 = s.pc + 2)
  | .cbz nonzero n _ => (s.r n == 0) = nonzero
  | .b imm11 => skipped s → (imm11 ++ 0#1).signExtend 32 = (-2 : Word)
  | .udf => s.vectors + 4 = s.pc + 2
  | .svc => skipped s ∨ s.vectors + 8 = s.pc + 2
  | .bkpt => s.vectors + 12 = s.pc + 2


theorem thumbStub_iff (hpc : s.pc.getLsbD 0 = false) (h : thumbNext s i = some next) :
    (thumbStub s i).map fixedAddr = some next ↔ ThumbSound s i := by
  have hsome {a b : Word} : some a = some b ↔ a = b := Option.some_inj
  have hbehind : fixedAddr (s.pc + 2) = s.pc + 2 := by
    apply fixedAddr_even
    rw [low_add, hpc]
    rfl
  have hoffset {w : Nat} (f : BitVec w) :
      fixedAddr (s.pc + 4 + (f ++ 0#1).signExtend 32) = s.pc + 4 + (f ++ 0#1).signExtend 32 := by
    apply fixedAddr_even
    rw [low_add, low_add, hpc, low_signExtend (by decide)]
    rfl
  have hself : fixedAddr (s.r 15) = s.pc := fixedAddr_even hpc
  cases i with
  | other =>
    obtain rfl := Option.some.inj h
    simp only [thumbStub, ThumbSound, Option.map_some, hbehind]
  | pop list =>
    have hbranch := thumbBranch_some h
    rw [thumbStub, Option.map_some, fixedAddr_eq, hsome, ThumbSound]
    cases hs : skipped s with
    | false =>
      rw [hs] at hbranch
      have hnext := loadPC_some hbranch
      exact iff_of_true hnext fun hskip => absurd hskip Bool.false_ne_true
    | true =>
      rw [hs] at hbranch
      obtain rfl : next = s.pc + 2 := hbranch
      simp
  | mov m =>
    have hbranch := thumbBranch_some h
    rw [thumbStub, Option.map_eq_some_iff, ThumbSound]
    have hnext : next = if skipped s then s.pc + 2 else s.thumbReg m &&& ~~~1 := by
      cases hs : skipped s with
      | false =>
        rw [hs] at hbranch
        exact (Option.some.inj hbranch).symm
      | true =>
        rw [hs] at hbranch
        exact hbranch
    simp only [hnext, fixedAddr_eq]
  | add m =>
    have hbranch := thumbBranch_some h
    change some (fixedAddr (s.pc + 2)) = some next ↔ _
    rw [hbehind, hsome, ThumbSound]
    · cases hs : skipped s with
      | false =>
        rw [hs] at hbranch
        have hbranch : (if m = 15 then none else some (branchThumb (s.pc + 4 + s.r m))) =
            some next := hbranch
        split at hbranch
        · cases hbranch
        · obtain rfl := Option.some.inj hbranch
          simp [branchThumb, eq_comm]
      | true =>
        rw [hs] at hbranch
        obtain rfl : next = s.pc + 2 := hbranch
        simp
  | bx m =>
    have hbranch := thumbBranch_some h
    rw [thumbStub, Option.map_some, hsome, ThumbSound]
    cases hs : skipped s with
    | false =>
      rw [hs] at hbranch
      have hnext : s.thumbReg m &&& ~~~1 = next := bxWritePC_some hbranch
      by_cases hm : m = 15
      · subst hm
        have hpc4 : (s.pc + 4) &&& ~~~1 = s.pc + 4 := and_even (by rw [low_add, hpc]; rfl)
        have hreg : s.thumbReg 15 = s.pc + 4 := rfl
        rw [hreg, hpc4] at hnext
        rw [hself, ← hnext]
        simp
      · rw [State.thumbReg, if_neg hm] at hnext
        rw [fixedAddr_eq]
        exact iff_of_true hnext ⟨hm, fun hskip => absurd hskip Bool.false_ne_true⟩
    | true =>
      rw [hs] at hbranch
      obtain rfl : next = s.pc + 2 := hbranch
      by_cases hm : m = 15
      · subst hm
        rw [hself]
        simp
      · simp [fixedAddr_eq, hm]
  | blx m =>
    have hbranch := thumbBranch_some h
    rw [thumbStub, Option.map_some, hsome, ThumbSound]
    cases hs : skipped s with
    | false =>
      rw [hs] at hbranch
      have hbranch : (if m = 15 then none else bxWritePC (s.r m)) = some next := hbranch
      split at hbranch
      · cases hbranch
      · case isFalse hm =>
        rw [fixedAddr_eq]
        exact iff_of_true (bxWritePC_some hbranch) ⟨hm, fun hskip => absurd hskip Bool.false_ne_true⟩
    | true =>
      rw [hs] at hbranch
      obtain rfl : next = s.pc + 2 := hbranch
      by_cases hm : m = 15
      · subst hm
        rw [hself]
        simp
      · simp [fixedAddr_eq, hm]
  | cbz nonzero n imm6 =>
    rw [thumbNext] at h
    change some (fixedAddr (s.pc + 2)) = some next ↔ _
    rw [hbehind, hsome, ThumbSound]
    · split at h
      · cases h
      · split at h
        · case isTrue htaken =>
          obtain rfl := Option.some.inj h
          have hlt := (imm6 ++ 0#1).isLt
          have hwide : ((imm6 ++ 0#1).setWidth 32).toNat = (imm6 ++ 0#1).toNat := by
            rw [BitVec.toNat_setWidth]
            exact Nat.mod_eq_of_lt (by omega)
          constructor
          · intro heq
            exfalso
            bv_omega
          · intro hkept
            exact absurd hkept (bne_iff_ne.mp htaken)
        · case isFalse htaken =>
          obtain rfl := Option.some.inj h
          simpa using htaken
  | bcond cond imm8 =>
    rw [thumbNext] at h
    rw [thumbStub, ThumbSound, iff_true]
    split at h
    · cases h
    · rw [← h]
      split
      · rw [Option.map_some, hoffset]
      · rw [Option.map_some, hbehind]
  | b imm11 =>
    have hbranch := thumbBranch_some h
    rw [thumbStub, Option.map_some, hoffset, hsome, ThumbSound]
    cases hs : skipped s with
    | false =>
      rw [hs] at hbranch
      obtain rfl := Option.some.inj hbranch
      simp
    | true =>
      rw [hs] at hbranch
      obtain rfl : next = s.pc + 2 := hbranch
      constructor
      · intro heq _
        bv_omega
      · intro heq
        rw [heq rfl]
        bv_omega
  | udf =>
    rw [thumbNext] at h
    change some (fixedAddr (s.pc + 2)) = some next ↔ _
    rw [hbehind, hsome, ThumbSound]
    · split at h
      · cases h
      · obtain rfl := Option.some.inj h
        exact eq_comm
  | svc =>
    have hskip : s.inIT ∧ ¬ conditionHolds s (s.itState.extractLsb' 4 4) ↔ skipped s = true := by
      simp [skipped]
    rw [thumbNext] at h
    simp only [hskip] at h
    change some (fixedAddr (s.pc + 2)) = some next ↔ _
    rw [hbehind, hsome, ThumbSound]
    · split at h
      · case isTrue hs =>
        obtain rfl := Option.some.inj h
        simp [hs]
      · case isFalse hs =>
        obtain rfl := Option.some.inj h
        simp [hs, eq_comm]
  | bkpt =>
    change some (fixedAddr (s.pc + 2)) = some next ↔ _
    obtain rfl := Option.some.inj h
    rw [hbehind, hsome, ThumbSound]
    · exact eq_comm

/-! ## The step -/

/-- When the step over the instruction at the program counter is right. -/
def StepSound (s : State) : Prop :=
  if s.thumb then ∀ i, decodeThumb (s.half s.pc) = some i → ThumbSound s i
  else ∀ i, decodeArm (s.word s.pc) = some i →
    conditionHolds s ((s.word s.pc).extractLsb' 28 4) = true → ArmSound s i

theorem inThumb_eq : (cpuOf s).inThumb = s.thumb := flag_ne 5 (by decide) s.cpsr

/-- The breakpoint of a step is at the instruction that is executed next, and no register outside
the array is read for it, just if the step is right. -/
theorem step_iff (h : Arm.next s = some next) :
    (stepTarget (cpuOf s) s.mem handler).map (fixedAddr ·.addr) = some next ↔ StepSound s := by
  rw [Arm.next] at h
  rw [stepTarget, inThumb_eq, StepSound]
  split at h
  · cases h
  cases ht : s.thumb with
  | true =>
    rw [ht, if_pos rfl] at h
    split at h
    · cases h
    case isFalse hpc =>
    obtain ⟨i, hi, hnext⟩ := Option.bind_eq_some_iff.mp h
    rw [if_pos rfl, if_pos rfl, stepThumb_eq hi, thumbStub_iff (Bool.eq_false_of_not_eq_true hpc) hnext]
    constructor
    · intro hs j hj
      rw [hi] at hj
      obtain rfl := Option.some.inj hj
      exact hs
    · exact fun hs => hs i hi
  | false =>
    rw [ht, if_neg Bool.false_ne_true] at h
    split at h
    · cases h
    case isFalse halign =>
    have hpc : s.pc.getLsbD 0 = false := by
      have hthree : s.pc &&& 3 = 0 := not_not.mp halign
      have hone : s.pc &&& 1 = 0 &&& 1 := and_of_and hthree (by decide)
      exact (and_bit_zero (k := 0) (by decide) (by decide)).mp hone
    have hbehind : (s.pc + 4).getLsbD 0 = false := by
      rw [low_add, hpc]
      rfl
    obtain ⟨i, hi, hnext⟩ := Option.bind_eq_some_iff.mp h
    rw [if_neg Bool.false_ne_true, if_neg Bool.false_ne_true, stepArm_eq hi]
    cases hcond : conditionHolds s ((s.word s.pc).extractLsb' 28 4) with
    | true =>
      rw [hcond, if_pos rfl] at hnext
      rw [if_pos rfl, armStub_iff hpc hnext]
      constructor
      · intro hs j hj _
        rw [hi] at hj
        obtain rfl := Option.some.inj hj
        exact hs
      · exact fun hs => hs i hi rfl
    | false =>
      rw [hcond, if_neg Bool.false_ne_true] at hnext
      obtain rfl := Option.some.inj hnext
      rw [if_neg Bool.false_ne_true, fixedAddr_even hbehind]
      exact iff_of_true rfl fun _ _ hfalse => absurd hfalse Bool.false_ne_true


/-- Stopped at an instruction, with another address in the link register. -/
def stoppedAt (cpsr ins : Word) : State where
  r m := if m = 15 then 0x8000 else if m = 14 then 0x40000100 else 0
  cpsr := cpsr
  spsr := none
  vectors := 0
  mem a := ⟨ins.extractLsb' (8 * (a.toNat % 4)) 8⟩

/-- At `bx lr` in ARM state. -/
theorem step_iff_bx : (stepTarget (cpuOf (stoppedAt 0x10 0xE12FFF1E))
    (stoppedAt 0x10 0xE12FFF1E).mem 0).map (fixedAddr ·.addr) = some 0x40000100 := by
  have hnext : Arm.next (stoppedAt 0x10 0xE12FFF1E) = some 0x40000100 := by decide
  have hdecode : decodeArm ((stoppedAt 0x10 0xE12FFF1E).word (stoppedAt 0x10 0xE12FFF1E).pc) =
      some (.bx 14) := by decide
  refine (step_iff hnext).2 ?_
  rw [StepSound, if_neg (by decide)]
  intro i hi _
  rw [hdecode] at hi
  obtain rfl := Option.some.inj hi
  exact (by decide : (14 : Fin 16) ≠ 15)

/-- At `mov pc, lr` in Thumb state the stub reads behind the array of the registers. -/
theorem step_not : ¬ ∀ (s : State) (handler next : Word), Arm.next s = some next →
    (stepTarget (cpuOf s) s.mem handler).map (fixedAddr ·.addr) = some next := by
  intro hall
  have hstep := hall (stoppedAt 0x30 0x46F7) 0 0x40000100 (by decide)
  have hnone : stepTarget (cpuOf (stoppedAt 0x30 0x46F7)) (stoppedAt 0x30 0x46F7).mem 0 = none := by
    decide
  rw [hnone] at hstep
  cases hstep

end Melis.Kgdb
