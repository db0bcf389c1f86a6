import Mathlib.Data.BitVec

/-!
# Which instruction is next

The flow of control of the ARM architecture, for the instructions of ARM state that process data,
branch, or load the program counter, and for the 16-bit instructions of Thumb state. An instruction
is taken apart by `decodeArm` or `decodeThumb`; `next` is the address of the one that is executed
after it. `none` stands where the architecture leaves that open, and for other instructions.
-/

namespace Melis.Lib.Arm

abbrev Word := BitVec 32

/-- `r 15` is the address of the instruction. A mode without a saved status register has no `spsr`;
`vectors` is the base of the exception vectors. -/
structure State where
  r : Fin 16 → Word
  cpsr : Word
  spsr : Option Word
  vectors : Word
  mem : Word → UInt8

namespace State

variable (s : State)

def pc : Word := s.r 15

def half (a : Word) : BitVec 16 := (s.mem (a + 1)).toBitVec ++ (s.mem a).toBitVec

def word (a : Word) : Word := s.half (a + 2) ++ s.half a

def n : Bool := s.cpsr.getLsbD 31

def z : Bool := s.cpsr.getLsbD 30

def c : Bool := s.cpsr.getLsbD 29

def v : Bool := s.cpsr.getLsbD 28

def jazelle : Bool := s.cpsr.getLsbD 24

def thumb : Bool := s.cpsr.getLsbD 5

/-- The state of an IT block: the condition, and the mask of what is left of the block. -/
def itState : BitVec 8 := s.cpsr.extractLsb' 10 6 ++ s.cpsr.extractLsb' 25 2

def inIT : Bool := s.itState.extractLsb' 0 4 != 0

def lastInIT : Bool := s.itState.extractLsb' 0 4 == 8

/-- A register as an instruction in ARM state reads it. -/
def armReg (m : Fin 16) : Word := if m = 15 then s.pc + 8 else s.r m

/-- A register as an instruction in Thumb state reads it. -/
def thumbReg (m : Fin 16) : Word := if m = 15 then s.pc + 4 else s.r m

end State

/-! ## Operands -/

def conditionHolds (s : State) (cond : BitVec 4) : Bool :=
  let result :=
    match (cond.extractLsb' 1 3).toNat with
    | 0 => s.z
    | 1 => s.c
    | 2 => s.n
    | 3 => s.v
    | 4 => s.c && !s.z
    | 5 => s.n == s.v
    | 6 => s.n == s.v && !s.z
    | _ => true
  if cond.getLsbD 0 && cond != 0xF then !result else result

/-- A shift by the number in an instruction, in which 0 stands for 32 or for a rotation through the
carry flag. -/
def shiftImm (x : Word) (type : BitVec 2) (imm5 : BitVec 5) (carry : Bool) : Word :=
  match type.toNat with
  | 0 => x <<< imm5.toNat
  | 1 => if imm5 = 0 then 0 else x >>> imm5.toNat
  | 2 => if imm5 = 0 then (if x.getLsbD 31 then BitVec.allOnes 32 else 0) else x.sshiftRight imm5.toNat
  | _ =>
    if imm5 = 0 then (if carry then x >>> 1 ||| 0x80000000 else x >>> 1)
    else x.rotateRight imm5.toNat

/-- A number of eight bits that is rotated, the offset of a load, or a register that is shifted. -/
inductive Operand
  | imm (imm8 : BitVec 8) (rotation : BitVec 4)
  | offset (imm12 : BitVec 12)
  | reg (m : Fin 16) (type : BitVec 2) (imm5 : BitVec 5)
  deriving DecidableEq

def Operand.value (s : State) : Operand → Word
  | imm imm8 rotation => (imm8.setWidth 32).rotateRight (2 * rotation.toNat)
  | offset imm12 => imm12.setWidth 32
  | reg m type imm5 => shiftImm (s.armReg m) type imm5 s.c

def addWithCarry (x y : Word) (carry : Bool) : Word := x + y + (if carry then 1 else 0)

/-- What data processing gives, but for the instructions that only set the flags. -/
def alu (opc : BitVec 4) (x y : Word) (carry : Bool) : Option Word :=
  match opc.toNat with
  | 0 => some (x &&& y)
  | 1 => some (x ^^^ y)
  | 2 => some (addWithCarry x (~~~y) true)
  | 3 => some (addWithCarry (~~~x) y true)
  | 4 => some (addWithCarry x y false)
  | 5 => some (addWithCarry x y carry)
  | 6 => some (addWithCarry x (~~~y) carry)
  | 7 => some (addWithCarry (~~~x) y carry)
  | 8 | 9 | 10 | 11 => none
  | 12 => some (x ||| y)
  | 13 => some y
  | 14 => some (x &&& ~~~y)
  | _ => some (~~~y)

/-! ## Instructions -/

/-- `other` goes on behind itself: data processing and loads with another destination, and
comparisons. In the others the program counter is the destination. -/
inductive ArmInst
  | other
  | bx (m : Fin 16)
  | blx (m : Fin 16)
  | data (opc : BitVec 4) (setFlags : Bool) (n : Fin 16) (op2 : Operand)
  | ldr (n : Fin 16) (pre up : Bool) (offset : Operand)
  | ldm (n : Fin 16) (pre up restore : Bool) (list : BitVec 16)
  | b (imm24 : BitVec 24)
  | blxImm (h : Bool) (imm24 : BitVec 24)
  deriving DecidableEq

def regField (ins : Word) (lo : Nat) : Fin 16 := (ins.extractLsb' lo 4).toFin

def shiftedReg (ins : Word) : Operand :=
  .reg (regField ins 0) (ins.extractLsb' 5 2) (ins.extractLsb' 7 5)

def rotatedImm (ins : Word) : Operand := .imm (ins.extractLsb' 0 8) (ins.extractLsb' 8 4)

/-- Data processing. A comparison has no destination, and 0 in its place. -/
def dataInst (ins : Word) (op2 : Operand) : Option ArmInst :=
  if ins &&& 0x0000F000 ≠ 0x0000F000 then some .other
  else if ins &&& 0x01800000 = 0x01000000 then none
  else some (.data (ins.extractLsb' 21 4) (ins.getLsbD 20) (regField ins 16) op2)

def dataProcessing (ins : Word) : Option ArmInst :=
  -- a number of sixteen bits, for either half of a register
  if ins &&& 0x0FB00000 = 0x03000000 then
    if ins &&& 0x0000F000 ≠ 0x0000F000 then some .other else none
  else if ins &&& 0x01900000 = 0x01000000 then none
  else if ins &&& 0x02000000 ≠ 0 then dataInst ins (rotatedImm ins)
  else if ins &&& 0x00000010 = 0 then dataInst ins (shiftedReg ins)
  -- a shift by a register, which has no program counter among its registers
  else if ins &&& 0x00000080 = 0 ∧ ins &&& 0x0000F000 ≠ 0x0000F000 then some .other
  else none

/-- A load of a word. There are no loads of a byte to the program counter, none with write-back
where it is the base, and none with the access rights of user mode. -/
def loadInst (ins : Word) (offset : Operand) : Option ArmInst :=
  if ins &&& 0x0000F000 ≠ 0x0000F000 then some .other
  else if ins.getLsbD 22 then none
  else if ¬ ins.getLsbD 24 ∧ ins.getLsbD 21 then none
  else if regField ins 16 = 15 ∧ (¬ ins.getLsbD 24 ∨ ins.getLsbD 21) then none
  else some (.ldr (regField ins 16) (ins.getLsbD 24) (ins.getLsbD 23) offset)

/-- A load of many registers. -/
def loadManyInst (ins : Word) : Option ArmInst :=
  if ins &&& 0x00008000 = 0 then some .other
  else if regField ins 16 = 15 then none
  else if ins.getLsbD 21 ∧ ins.getLsbD (regField ins 16) then none
  else some (.ldm (regField ins 16) (ins.getLsbD 24) (ins.getLsbD 23) (ins.getLsbD 22)
    (ins.extractLsb' 0 16))

def decodeArm (ins : Word) : Option ArmInst :=
  if ins &&& 0xF0000000 = 0xF0000000 then
    if ins &&& 0x0E000000 = 0x0A000000 then
      some (.blxImm (ins.getLsbD 24) (ins.extractLsb' 0 24))
    else none
  else if ins &&& 0x0FFFFFF0 = 0x012FFF10 then some (.bx (regField ins 0))
  else if ins &&& 0x0FFFFFF0 = 0x012FFF30 then some (.blx (regField ins 0))
  else if ins &&& 0x0C000000 = 0 then dataProcessing ins
  else if ins &&& 0x0E100000 = 0x04100000 then
    loadInst ins (.offset (ins.extractLsb' 0 12))
  else if ins &&& 0x0E100010 = 0x06100000 then
    if regField ins 0 = 15 then none else loadInst ins (shiftedReg ins)
  else if ins &&& 0x0E100000 = 0x08100000 then loadManyInst ins
  else if ins &&& 0x0E000000 = 0x0A000000 then some (.b (ins.extractLsb' 0 24))
  else none

/-- In the instructions from `pop` to `blx` the program counter is the destination. -/
inductive ThumbInst
  | other
  | pop (list : BitVec 8)
  | mov (m : Fin 16)
  | add (m : Fin 16)
  | bx (m : Fin 16)
  | blx (m : Fin 16)
  | cbz (nonzero : Bool) (n : Fin 16) (imm6 : BitVec 6)
  | bcond (cond : BitVec 4) (imm8 : BitVec 8)
  | b (imm11 : BitVec 11)
  | udf
  | svc
  | bkpt
  deriving DecidableEq

/-- The miscellaneous instructions that are none. -/
def unallocated (ins : BitVec 16) : Bool :=
  ins &&& 0xFFC0 == 0xB600 || ins &&& 0xFF80 == 0xB680 || ins &&& 0xFF00 == 0xB700 ||
    ins &&& 0xFF00 == 0xB800 || ins &&& 0xFFC0 == 0xBA80

def decodeThumb (ins : BitVec 16) : Option ThumbInst :=
  if ins &&& 0xFF00 = 0xBD00 then some (.pop (ins.extractLsb' 0 8))
  else if ins &&& 0xFF87 = 0x4687 then some (.mov (ins.extractLsb' 3 4).toFin)
  else if ins &&& 0xFF87 = 0x4487 then some (.add (ins.extractLsb' 3 4).toFin)
  else if ins &&& 0xFF87 = 0x4700 then some (.bx (ins.extractLsb' 3 4).toFin)
  else if ins &&& 0xFF87 = 0x4780 then some (.blx (ins.extractLsb' 3 4).toFin)
  else if ins &&& 0xFF00 = 0x4700 then none
  else if ins &&& 0xF500 = 0xB100 then
    some (.cbz (ins.getLsbD 11) ((ins.extractLsb' 0 3).setWidth 4).toFin
      (ins.extractLsb' 9 1 ++ ins.extractLsb' 3 5))
  else if ins &&& 0xFF00 = 0xBE00 then some .bkpt
  else if ins &&& 0xFF00 = 0xDE00 then some .udf
  else if ins &&& 0xFF00 = 0xDF00 then some .svc
  else if ins &&& 0xF000 = 0xD000 then some (.bcond (ins.extractLsb' 8 4) (ins.extractLsb' 0 8))
  else if ins &&& 0xF800 = 0xE000 then some (.b (ins.extractLsb' 0 11))
  else if ins &&& 0xE000 = 0xE000 ∨ unallocated ins then none
  else some .other

/-! ## The next instruction -/

/-- A branch to an address whose lowest bit says whether it is one of Thumb state. -/
def bxWritePC (a : Word) : Option Word :=
  if a.getLsbD 0 then some (a &&& ~~~1) else if a.getLsbD 1 then none else some a

/-- A branch in Thumb state. -/
def branchThumb (a : Word) : Word := a &&& ~~~1

/-- The return from an exception, to the state that has been saved. -/
def exceptionReturn (s : State) (a : Word) : Option Word :=
  s.spsr.map fun spsr => if spsr.getLsbD 5 then a &&& ~~~1 else a &&& ~~~3

/-- A register list loads the program counter last. -/
def lastAddr (base : Word) (pre up : Bool) (count : Nat) : Word :=
  match up, pre with
  | true, false => base + BitVec.ofNat 32 (4 * (count - 1))
  | true, true => base + BitVec.ofNat 32 (4 * count)
  | false, false => base
  | false, true => base - 4

def count {w : Nat} (list : BitVec w) : Nat := ((List.range w).filter fun i => list.getLsbD i).length

def loadPC (s : State) (a : Word) : Option Word :=
  if a &&& 3 = 0 then bxWritePC (s.word a) else none

def armNext (s : State) : ArmInst → Option Word
  | .other => some (s.pc + 4)
  | .bx m => bxWritePC (s.armReg m)
  | .blx m => if m = 15 then none else bxWritePC (s.r m)
  | .data opc setFlags n op2 => do
    let result ← alu opc (s.armReg n) (op2.value s) s.c
    if setFlags then exceptionReturn s result else bxWritePC result
  | .ldr n pre up offset =>
    let offset := offset.value s
    let addr := if up then s.armReg n + offset else s.armReg n - offset
    loadPC s (if pre then addr else s.armReg n)
  | .ldm n pre up restore list =>
    let addr := lastAddr (s.r n) pre up (count list)
    if addr &&& 3 = 0 then
      if restore then exceptionReturn s (s.word addr) else bxWritePC (s.word addr)
    else none
  | .b imm24 => some (s.pc + 8 + (imm24 ++ 0#2).signExtend 32)
  | .blxImm h imm24 => some (s.pc + 8 + (imm24 ++ BitVec.ofBool h ++ 0#1).signExtend 32)

/-- A branch stands at the end of an IT block. -/
def thumbBranch (s : State) (target : Option Word) : Option Word :=
  if s.inIT then
    if ¬ s.lastInIT then none
    else if conditionHolds s (s.itState.extractLsb' 4 4) then target
    else some (s.pc + 2)
  else target

def thumbNext (s : State) : ThumbInst → Option Word
  | .other => some (s.pc + 2)
  | .pop list =>
    let addr := s.r 13 + BitVec.ofNat 32 (4 * count list)
    thumbBranch s (loadPC s addr)
  | .mov m => thumbBranch s (some (branchThumb (s.thumbReg m)))
  | .add m => thumbBranch s (if m = 15 then none else some (branchThumb (s.pc + 4 + s.r m)))
  | .bx m => thumbBranch s (bxWritePC (s.thumbReg m))
  | .blx m => thumbBranch s (if m = 15 then none else bxWritePC (s.r m))
  | .cbz nonzero n imm6 =>
    if s.inIT then none
    else if (s.r n == 0) != nonzero then some (s.pc + 4 + (imm6 ++ 0#1).setWidth 32)
    else some (s.pc + 2)
  | .bcond cond imm8 =>
    if s.inIT then none
    else if conditionHolds s cond then some (s.pc + 4 + (imm8 ++ 0#1).signExtend 32)
    else some (s.pc + 2)
  | .b imm11 => thumbBranch s (some (s.pc + 4 + (imm11 ++ 0#1).signExtend 32))
  | .udf => if s.inIT then none else some (s.vectors + 4)
  | .svc =>
    if s.inIT ∧ ¬ conditionHolds s (s.itState.extractLsb' 4 4) then some (s.pc + 2)
    else some (s.vectors + 8)
  | .bkpt => some (s.vectors + 12)

/-- The address of the instruction that is executed after the one at `pc`. -/
def next (s : State) : Option Word :=
  if s.jazelle then none
  else if s.thumb then
    if s.pc.getLsbD 0 then none else (decodeThumb (s.half s.pc)).bind (thumbNext s)
  else if s.pc &&& 3 ≠ 0 then none
  else (decodeArm (s.word s.pc)).bind fun i =>
    if conditionHolds s ((s.word s.pc).extractLsb' 28 4) then armNext s i else some (s.pc + 4)

/-! ## Masks -/

section

variable {w lo len k : Nat} {x m M V : BitVec w}

theorem exists_ofNat (x : BitVec w) : ∃ k, k < 2 ^ w ∧ x = BitVec.ofNat w k :=
  ⟨x.toNat, x.isLt, by rw [BitVec.ofNat_toNat, BitVec.setWidth_eq]⟩

/-- What is known of the bits of a mask is known of those of a smaller one. -/
theorem and_of_and (h : x &&& M = V) (hm : M &&& m = m) : x &&& m = V &&& m := by
  rw [← h, BitVec.and_assoc, hm]

theorem and_bit (hm : m = BitVec.twoPow w k) (hk : k < w) : x &&& m ≠ 0 ↔ x.getLsbD k = true := by
  rw [hm, BitVec.and_twoPow]
  cases x.getLsbD k with
  | false => simp
  | true =>
    have hne : BitVec.twoPow w k ≠ 0#w := fun hz => by
      have := congrArg (BitVec.getLsbD · k) hz
      simp [hk] at this
    simp [hne]

theorem and_bit_zero (hm : m = BitVec.twoPow w k) (hk : k < w) :
    x &&& m = 0 ↔ x.getLsbD k = false := by
  rw [← Bool.not_eq_true, ← and_bit hm hk]
  exact not_not.symm

/-- The field under a mask. -/
theorem field_eq (hm : m >>> lo = (BitVec.allOnes len).setWidth w) :
    (x &&& m) >>> lo = (x.extractLsb' lo len).setWidth w := by
  rw [BitVec.ushiftRight_and_distrib, hm]
  ext i hi
  simp [BitVec.getLsbD_extractLsb', Bool.and_comm]

theorem field_toNat (hm : m >>> lo = (BitVec.allOnes len).setWidth w) (hlen : len ≤ w) :
    ((x &&& m) >>> lo).toNat = (x.extractLsb' lo len).toNat := by
  rw [field_eq hm, BitVec.toNat_setWidth]
  exact Nat.mod_eq_of_lt (Nat.lt_of_lt_of_le (BitVec.isLt _) (Nat.pow_le_pow_right (by decide) hlen))

theorem shift_back (hlow : (m >>> lo) <<< lo = m) : ((x &&& m) >>> lo) <<< lo = x &&& m := by
  ext i hi
  have hbit : m.getLsbD i = (decide (lo ≤ i) && m.getLsbD i) := by
    conv_lhs => rw [← hlow]
    by_cases h : lo ≤ i <;> simp [h, hi]
  by_cases h : lo ≤ i <;> simp_all

/-- A field has the value `v` just if the mask leaves it at the place of the field. -/
theorem field_eq_iff (hm : m >>> lo = (BitVec.allOnes len).setWidth w)
    (hlow : (m >>> lo) <<< lo = m) (hlen : lo + len ≤ w) {v : BitVec len}
    (hv : v.setWidth w <<< lo = V) : x &&& m = V ↔ x.extractLsb' lo len = v := by
  constructor
  · intro h
    have hx := field_eq (x := x) hm
    rw [h, ← hv] at hx
    ext i hi
    have hbit := congrArg (BitVec.getLsbD · i) hx
    have hlo : lo + i < w := by omega
    have hiw : i < w := by omega
    have hge : ¬ lo + i < lo := by omega
    simpa [hlo, hiw, hge, hi, BitVec.getLsbD_extractLsb'] using hbit.symm
  · intro h
    rw [← shift_back hlow, field_eq hm, h, hv]

theorem and_twoPow_eq (hm : m = BitVec.twoPow w k) (h : x &&& m ≠ 0) : x &&& m = m := by
  subst hm
  rw [BitVec.and_twoPow] at h ⊢
  split
  · rfl
  · case isFalse hk =>
    rw [if_neg hk] at h
    exact absurd rfl h

/-- Two values of a field that differ in one bit. -/
theorem and_or_bit {b : BitVec w} (hb : b = BitVec.twoPow w k) (hM : M = m ||| b)
    (hV : V &&& m = V) (hVb : (V ||| b) &&& m = V) :
    x &&& M = V ∨ x &&& M = V ||| b ↔ x &&& m = V := by
  have hsub : M &&& m = m := by
    rw [hM, BitVec.and_or_distrib_right]
    ext i hi
    cases h1 : m[i] <;> simp [h1]
  constructor
  · rintro (h | h)
    · rw [and_of_and h hsub, hV]
    · rw [and_of_and h hsub, hVb]
  · intro h
    rw [hM, BitVec.and_or_distrib_left, h]
    by_cases h0 : x &&& b = 0
    · exact .inl (by rw [h0]; exact BitVec.or_zero)
    · exact .inr (by rw [and_twoPow_eq hb h0])

theorem shift_and {v : BitVec w} (hm : m >>> lo = v) : x >>> lo &&& v = (x &&& m) >>> lo := by
  rw [BitVec.ushiftRight_and_distrib, hm]

theorem shift_eq_iff {v : BitVec w} (hlow : (m >>> lo) <<< lo = m) (hV : v <<< lo = V)
    (hv : V >>> lo = v) : (x &&& m) >>> lo = v ↔ x &&& m = V := by
  constructor
  · intro h
    rw [← shift_back hlow, h, hV]
  · intro h
    rw [h, hv]

/-- The field under a mask that begins at bit 0. -/
theorem low_eq (hm : m = (BitVec.allOnes len).setWidth w) :
    x &&& m = (x.extractLsb' 0 len).setWidth w := by
  have h := @field_eq w 0 len x m (by rw [BitVec.ushiftRight_zero, hm])
  rwa [BitVec.ushiftRight_zero] at h

theorem low_toNat (hm : m = (BitVec.allOnes len).setWidth w) (hlen : len ≤ w) :
    (x &&& m).toNat = (x.extractLsb' 0 len).toNat := by
  have h := @field_toNat w 0 len x m (by rw [BitVec.ushiftRight_zero, hm]) hlen
  rwa [BitVec.ushiftRight_zero] at h

end

/-- A field that is shifted into place, and continued with its sign from bit `t` on. -/
theorem signExtend_eq {len lo t : Nat} (f : BitVec len) {ones : Word} (hle : len + lo ≤ 32)
    (hlen : 0 < len) (ht : t ≤ len + lo) (hlt : len + lo ≤ t + 1)
    (hones : ∀ i < 32, ones.getLsbD i = decide (t ≤ i)) :
    (if f.msb then f.setWidth 32 <<< lo ||| ones else f.setWidth 32 <<< lo) =
      (f ++ BitVec.ofNat lo 0).signExtend 32 := by
  have hmsb : (f ++ BitVec.ofNat lo 0).msb = f.msb := by rw [BitVec.msb_append, if_neg (by omega)]
  apply BitVec.eq_of_getLsbD_eq
  intro i hi
  have hshift : (f.setWidth 32 <<< lo).getLsbD i = (decide (lo ≤ i) && f.getLsbD (i - lo)) := by
    have hsub : i - lo < 32 := by omega
    rw [BitVec.getLsbD_shiftLeft, BitVec.getLsbD_setWidth, decide_eq_true hi, decide_eq_true hsub,
      Bool.true_and, Bool.true_and, ← decide_not, decide_eq_decide.mpr not_lt]
  have hlow : i < len + lo → (f ++ BitVec.ofNat lo 0).getLsbD i = (decide (lo ≤ i) && f.getLsbD (i - lo)) := by
    intro _
    rw [BitVec.getLsbD_append]
    by_cases h : i < lo
    · rw [if_pos h, decide_eq_false (by omega), Bool.false_and, BitVec.getLsbD_zero]
    · rw [if_neg h, decide_eq_true (by omega), Bool.true_and]
  rw [BitVec.getLsbD_signExtend, hmsb, decide_eq_true hi, Bool.true_and]
  cases hsign : f.msb with
  | false =>
    rw [if_neg Bool.false_ne_true, hshift]
    by_cases h : i < len + lo
    · rw [if_pos h, hlow h]
    · rw [if_neg h, BitVec.getLsbD_of_ge f (i - lo) (by omega), Bool.and_false]
  | true =>
    rw [if_pos rfl, BitVec.getLsbD_or, hshift, hones i hi]
    by_cases h : i < len + lo
    · rw [if_pos h, hlow h]
      by_cases htop : t ≤ i
      · have hi' : i - lo = len - 1 := by omega
        have hlo : lo ≤ i := by omega
        rw [decide_eq_true htop, Bool.or_true, decide_eq_true hlo, hi', ← BitVec.msb_eq_getLsbD_last,
          hsign]
        rfl
      · rw [decide_eq_false htop, Bool.or_false]
    · have htop : t ≤ i := by omega
      rw [if_neg h, decide_eq_true htop, Bool.or_true]

end Melis.Lib.Arm
