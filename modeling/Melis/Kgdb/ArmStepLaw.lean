import Melis.Kgdb.ArmStep
import Melis.Lib.Arm
import Mathlib.Tactic.IntervalCases

/-!
# Single steps in ARM state

`armStub_iff`: over an instruction of ARM state the breakpoint of a single step is at the one that
is executed next just if `ArmSound` holds of it.
-/

namespace Melis.Kgdb

open Lib Lib.Arm

/-- The registers that the exception has saved. -/
def cpuOf (s : State) : Cpu := ⟨s.r, s.cpsr⟩

variable {s : State} {handler next : Word} {ins : Word} {ins16 : BitVec 16}

/-! ## Conditions -/

theorem flag_ne (k : Nat) (hk : k < 32) (psr : Word) :
    (psr &&& BitVec.twoPow 32 k != 0) = psr.getLsbD k := by
  rw [Bool.eq_iff_iff, bne_iff_ne]
  exact and_bit rfl hk

theorem flag_eq_zero (k : Nat) (hk : k < 32) (psr : Word) :
    (psr &&& BitVec.twoPow 32 k == 0) = !psr.getLsbD k := by
  rw [← flag_ne k hk psr, bne, Bool.not_not]

theorem flag_eq (k : Nat) (hk : k < 32) (psr : Word) :
    (psr &&& BitVec.twoPow 32 k == BitVec.twoPow 32 k) = psr.getLsbD k := by
  rw [BitVec.and_twoPow]
  cases psr.getLsbD k with
  | false =>
    have hne : 0#32 ≠ BitVec.twoPow 32 k := fun hz => by
      have := congrArg (BitVec.getLsbD · k) hz
      simp [hk] at this
    simp [hne]
  | true => simp

/-- The flags N and V together. -/
theorem signs_eq (psr v : Word) : (psr &&& (psN ||| psV) == v) =
    ((if psr.getLsbD 31 then psN else 0) ||| (if psr.getLsbD 28 then psV else 0) == v) := by
  rw [BitVec.and_or_distrib_left]
  congr 2
  · exact BitVec.and_twoPow psr 31
  · exact BitVec.and_twoPow psr 28

/-- The conditions of the stub are those of the architecture. -/
theorem willExecute_eq (s : State) (cond : BitVec 4) (hcond : cond ≠ 0xF) :
    willExecute s.cpsr cond.toNat = conditionHolds s cond := by
  have hz : (s.cpsr &&& psZ != 0) = s.z := flag_ne 30 (by decide) s.cpsr
  have hz' : (s.cpsr &&& psZ == 0) = !s.z := flag_eq_zero 30 (by decide) s.cpsr
  have hz'' : (s.cpsr &&& psZ == psZ) = s.z := flag_eq 30 (by decide) s.cpsr
  have hc : (s.cpsr &&& psC != 0) = s.c := flag_ne 29 (by decide) s.cpsr
  have hc' : (s.cpsr &&& psC == 0) = !s.c := flag_eq_zero 29 (by decide) s.cpsr
  have hn : (s.cpsr &&& psN != 0) = s.n := flag_ne 31 (by decide) s.cpsr
  have hn' : (s.cpsr &&& psN == 0) = !s.n := flag_eq_zero 31 (by decide) s.cpsr
  have hv : (s.cpsr &&& psV != 0) = s.v := flag_ne 28 (by decide) s.cpsr
  have hv' : (s.cpsr &&& psV == 0) = !s.v := flag_eq_zero 28 (by decide) s.cpsr
  have hsigns (v : Word) : (s.cpsr &&& (psN ||| psV) == v) =
      ((if s.n then psN else 0) ||| (if s.v then psV else 0) == v) := signs_eq s.cpsr v
  obtain ⟨k, hk, rfl⟩ := exists_ofNat cond
  have hnum : (BitVec.ofNat 4 k).toNat = k := Nat.mod_eq_of_lt hk
  rw [hnum]
  clear hnum
  interval_cases k
  case «15» => exact absurd rfl hcond
  all_goals
    clear hcond hk
    unfold conditionHolds
    simp only [willExecute, hz, hz', hz'', hc, hc', hn, hn', hv, hv', hsigns]
    clear hz hz' hz'' hc hc' hn hn' hv hv' hsigns
    generalize s.n = n, s.z = z, s.c = c, s.v = v
    revert n z c v
    decide

/-! ## Operands -/

@[simp] theorem gdbArchRegs_reg (m : Fin 16) : (cpuOf s).gdbArchRegs m = some (s.r m) := by
  simp only [Cpu.gdbArchRegs, m.isLt, dif_pos, cpuOf]

theorem gdbArchRegs_field (lo : Nat) {m : Word} (hm : m >>> lo = (BitVec.allOnes 4).setWidth 32) :
    (cpuOf s).gdbArchRegs ((ins &&& m) >>> lo).toNat = some (s.r (regField ins lo)) := by
  rw [field_toNat hm (by decide)]
  exact gdbArchRegs_reg (regField ins lo)

theorem gdbArchRegs_low : (cpuOf s).gdbArchRegs (ins &&& 0x0000000F).toNat =
    some (s.r (regField ins 0)) := by
  have h := @gdbArchRegs_field s ins 0 0x0000000F (by decide)
  rwa [BitVec.ushiftRight_zero] at h

theorem armRn_eq : armRn (cpuOf s) ins = some (s.armReg (regField ins 16)) := by
  have hpc : ins &&& 0x000F0000 = 0x000F0000 ↔ regField ins 16 = 15 := by
    have h : ins &&& 0x000F0000 = 0x000F0000 ↔ ins.extractLsb' 16 4 = 15 :=
      field_eq_iff (by decide) (by decide) (by decide) (by decide)
    rw [regField, Fin.ext_iff]
    exact h.trans BitVec.toNat_inj.symm
  simp only [armRn, gdbArchRegs_field 16 (m := 0x000F0000) (by decide), State.armReg, hpc]
  by_cases h : regField ins 16 = 15
  · simp [h, State.pc]
  · simp [h]

/-- An operand as the stub reads it: the program counter as its own address, and a shift by 32 to
the right as none. -/
def misread (s : State) : Operand → Word
  | .reg m type imm5 =>
    if imm5 = 0 ∧ type ≠ 3 then s.r m else shiftImm (s.r m) type imm5 s.c
  | op2 => op2.value s

theorem rotate_eq (x : Word) {n : Nat} (hpos : 0 < n) (hn : n < 32) :
    rotate x n = some (x.rotateRight n) := by
  have hlt : 32 - n < 32 := by omega
  simp [rotate, shr, shl, hn, hlt, BitVec.rotateRight, BitVec.rotateRightAux, Nat.mod_eq_of_lt]

theorem rmShifted_eq (h : ins &&& 0x00000010 = 0) :
    rmShifted (cpuOf s) (ins &&& 0x00000FFF) = some (misread s (shiftedReg ins)) := by
  have hrm : (cpuOf s).gdbArchRegs (ins &&& 0x00000FFF &&& 0x00F).toNat =
      some (s.r (regField ins 0)) := by
    rw [BitVec.and_assoc]
    exact gdbArchRegs_low
  have hbit : ins &&& 0x00000FFF &&& 0x010 = 0 := by
    rw [BitVec.and_assoc]
    exact h
  have hcount : ((ins &&& 0x00000FFF &&& 0xF80) >>> 7).toNat = (ins.extractLsb' 7 5).toNat := by
    rw [BitVec.and_assoc]
    exact field_toNat (by decide) (by decide)
  have htype : ((ins &&& 0x00000FFF &&& 0x060) >>> 5).toNat = (ins.extractLsb' 5 2).toNat := by
    rw [BitVec.and_assoc]
    exact field_toNat (by decide) (by decide)
  have hc : ((cpuOf s).origCpsr &&& psC != 0) = s.c := flag_ne 29 (by decide) s.cpsr
  simp only [rmShifted, hrm, hbit, hcount, htype, hc, shiftedReg, misread, if_true,
    Option.bind_some, bind]
  generalize s.r (regField ins 0) = rm
  generalize ins.extractLsb' 7 5 = imm5
  generalize ins.extractLsb' 5 2 = type
  obtain ⟨k, hk, rfl⟩ := exists_ofNat type
  have hlt : imm5.toNat < 32 := imm5.isLt
  have hzero : imm5.toNat = 0 ↔ imm5 = 0#5 := BitVec.toNat_inj (y := 0#5)
  by_cases h0 : imm5 = 0#5
  · subst h0
    interval_cases k <;> simp [shl, shr, asr, shiftImm]
  · have hne : imm5.toNat ≠ 0 := mt hzero.mp h0
    have hror := rotate_eq rm (Nat.pos_of_ne_zero hne) hlt
    interval_cases k <;> simp [shl, shr, asr, shiftImm, h0, hne, hlt, hror]

theorem rotated_eq : rotate (ins &&& 0x000000FF) (((ins &&& 0x00000F00) >>> 8).toNat * 2) =
    if ins.extractLsb' 8 4 = 0 then none else some (misread s (rotatedImm ins)) := by
  have hcount : ((ins &&& 0x00000F00) >>> 8).toNat = (ins.extractLsb' 8 4).toNat :=
    field_toNat (by decide) (by decide)
  have himm : ins &&& 0x000000FF = (ins.extractLsb' 0 8).setWidth 32 := low_eq (by decide)
  rw [hcount, himm, misread, rotatedImm, Operand.value]
  · generalize ins.extractLsb' 8 4 = rotation
    have hlt : rotation.toNat < 16 := rotation.isLt
    have hzero : rotation.toNat = 0 ↔ rotation = 0#4 := BitVec.toNat_inj (y := 0#4)
    split
    · case isTrue h => simp [h, rotate, shr, shl]
    · case isFalse h =>
      have hne : rotation.toNat ≠ 0 := mt hzero.mp h
      rw [rotate_eq _ (by omega) (by omega), Nat.mul_comm]
  · intro m type imm5 h
    cases h

/-! ## Data processing -/

theorem addWithCarry_comm (x y : Word) (carry : Bool) :
    addWithCarry x y carry = addWithCarry y x carry := by
  rw [addWithCarry, addWithCarry, BitVec.add_comm x y]

theorem subCarry_eq (x y : Word) (carry : Bool) :
    addWithCarry x (~~~y) carry = x - y + (if carry then 1 else 0) - 1 := by
  cases carry <;> simp only [addWithCarry] <;> bv_omega

/-- The result that goes to the program counter. -/
theorem armDataPc_eq (rn op2 : Word) (h : ins &&& 0x01800000 ≠ 0x01000000) :
    alu (ins.extractLsb' 21 4) rn op2 s.c = some (armDataPc (cpuOf s) ins rn op2) := by
  have hopc : ((ins &&& 0x01E00000) >>> 21).toNat = (ins.extractLsb' 21 4).toNat :=
    field_toNat (by decide) (by decide)
  have hc : ((cpuOf s).origCpsr &&& psC != 0) = s.c := flag_ne 29 (by decide) s.cpsr
  simp only [alu, armDataPc, hopc, hc]
  have hflags : (ins.extractLsb' 21 4).extractLsb' 2 2 ≠ 2 := by
    intro h2
    have hsub : (ins.extractLsb' 21 4).extractLsb' 2 2 = ins.extractLsb' 23 2 := by
      ext i hi
      have hlt : 2 + i < 4 := by omega
      simp [hlt, ← Nat.add_assoc]
    rw [hsub] at h2
    apply h
    exact (field_eq_iff (by decide) (by decide) (by decide) (by decide)).mpr h2
  obtain ⟨k, hk, hopc'⟩ := exists_ofNat (ins.extractLsb' 21 4)
  rw [hopc'] at hflags ⊢
  interval_cases k
  case «8» | «9» | «10» | «11» => exact absurd rfl hflags
  all_goals simp [subCarry_eq]
  case «3» | «7» => simp [addWithCarry_comm _ op2, subCarry_eq]
  case «4» | «5» => simp [addWithCarry]

/-! ## Addresses -/

theorem low_add (x y : Word) : (x + y).getLsbD 0 = (x.getLsbD 0 ^^ y.getLsbD 0) := by
  rw [BitVec.getLsbD_add (by decide)]
  simp

theorem and_even {x : Word} (h : x.getLsbD 0 = false) : x &&& ~~~(1 : Word) = x := by
  apply BitVec.eq_of_getLsbD_eq
  intro i hi
  cases i with
  | zero => rw [BitVec.getLsbD_and, h, Bool.false_and]
  | succ i =>
    have hone : ∀ i < 32, 0 < i → (~~~(1 : Word)).getLsbD i = true := by decide
    rw [BitVec.getLsbD_and, hone _ hi (by omega), Bool.and_true]

theorem low_signExtend {w k : Nat} (hk : 0 < k) (x : BitVec w) :
    ((x ++ 0#k).signExtend 32).getLsbD 0 = false := by
  have hw : 0 < w + k := by omega
  rw [BitVec.getLsbD_signExtend, if_pos hw, BitVec.getLsbD_append, if_pos hk]
  simp

/-- The address of the stub, without the bit for Thumb state. -/
theorem fixedAddr_eq (a : Word) : fixedAddr a = a &&& ~~~1 := by
  rw [fixedAddr, unmakeThumbAddr, isThumbAddr]
  split
  · rfl
  · case isFalse h =>
    have hbit : a &&& 1 = 0#32 := by simpa using h
    have hor : a &&& ~~~1 ||| a &&& 1 = a := by
      rw [← BitVec.and_or_distrib_left, show ~~~1 ||| 1 = BitVec.allOnes 32 from rfl,
        BitVec.and_allOnes]
    rw [hbit, BitVec.or_zero] at hor
    exact hor.symm

theorem fixedAddr_even {a : Word} (h : a.getLsbD 0 = false) : fixedAddr a = a := by
  rw [fixedAddr_eq, and_even h]

theorem fixedAddr_makeThumbAddr (a : Word) : fixedAddr (makeThumbAddr a) = fixedAddr a := by
  rw [fixedAddr_eq, fixedAddr_eq, makeThumbAddr, BitVec.and_or_distrib_right,
    show (1 : Word) &&& ~~~1 = 0#32 from rfl, BitVec.or_zero]

/-! ## What the stub computes -/

/-- The program counter that the stub computes for an instruction of ARM state. -/
def armStub (s : State) : ArmInst → Option Word
  | .other => some (s.pc + 4)
  | .bx m | .blx m => some (s.r m)
  | .data opc _ n op2 =>
    if ∀ imm8, op2 ≠ .imm imm8 0 then alu opc (s.armReg n) (misread s op2) s.c else none
  | .ldr n pre up offset =>
    let addr :=
      if up then s.armReg n + misread s offset else s.armReg n - misread s offset
    some (s.word (if pre then addr else s.armReg n))
  | .ldm n _ up _ list =>
    some (s.word (if up then s.r n + BitVec.ofNat 32 (4 * (count list - 1)) else s.r n - 4))
  | .b imm24 | .blxImm _ imm24 => some (s.pc + 8 + (imm24 ++ 0#2).signExtend 32)

section

variable {cpu : Cpu} {mem : Mem} {i : ArmInst}

theorem armTargetIns_data (h : ins &&& 0x0C000000 = 0) :
    armTargetIns cpu mem handler ins = (armTargetData cpu ins).map fun newPc => (newPc, []) := by
  rw [armTargetIns, h]
  rfl

theorem armTargetIns_bx (h : ins &&& 0x0FFFFFD0 = 0x012FFF10) :
    armTargetIns (cpuOf s) mem handler ins = some (s.r (regField ins 0), []) := by
  have hclass : ins &&& 0x0C000000 = 0 := and_of_and h (by decide)
  rw [armTargetIns_data hclass, armTargetData, if_pos h, gdbArchRegs_low]
  rfl

theorem armTargetIns_other (hclass : ins &&& 0x0C000000 = 0) (hbx : ins &&& 0x0FFFFFD0 ≠ 0x012FFF10)
    (h : ins &&& 0x0000F000 ≠ 0x0000F000) :
    armTargetIns (cpuOf s) mem handler ins = some (s.pc + 4, []) := by
  rw [armTargetIns_data hclass, armTargetData, if_neg hbx, if_neg (fun hand => h hand.1)]
  rfl

/-- Neither BX nor BLX nor one of the instructions about the status registers. -/
theorem armTargetIns_op2 {op2 : Option Word} (hclass : ins &&& 0x0C000000 = 0)
    (hmisc : ins &&& 0x01900000 ≠ 0x01000000) (h : ins &&& 0x0000F000 = 0x0000F000)
    (hcmp : ins &&& 0x01800000 ≠ 0x01000000)
    (hop2 : (if ins &&& 0x02000000 = 0 then rmShifted (cpuOf s) (ins &&& 0x00000FFF)
      else rotate (ins &&& 0x000000FF) (((ins &&& 0x00000F00) >>> 8).toNat * 2)) = op2) :
    armTargetIns (cpuOf s) mem handler ins =
      (op2.bind fun op2 => alu (ins.extractLsb' 21 4) (s.armReg (regField ins 16)) op2 s.c).map
        fun newPc => (newPc, []) := by
  have hbx : ins &&& 0x0FFFFFD0 ≠ 0x012FFF10 := fun hbx => hmisc (and_of_and hbx (by decide))
  have hmrs : ins &&& 0x0FBF0000 ≠ 0x010F0000 := fun hmrs => hmisc (and_of_and hmrs (by decide))
  rw [armTargetIns_data hclass, armTargetData, if_neg hbx, if_pos ⟨h, hmrs⟩, armRn_eq, ← hop2]
  simp only [armDataPc_eq _ _ hcmp]
  split <;> rfl

theorem armTargetIns_dataInst {op2 : Operand} (hclass : ins &&& 0x0C000000 = 0)
    (hmisc : ins &&& 0x01900000 ≠ 0x01000000)
    (hop2 : (if ins &&& 0x02000000 = 0 then rmShifted (cpuOf s) (ins &&& 0x00000FFF)
      else rotate (ins &&& 0x000000FF) (((ins &&& 0x00000F00) >>> 8).toNat * 2)) =
        if ∀ imm8, op2 ≠ .imm imm8 0 then some (misread s op2) else none)
    (h : dataInst ins op2 = some i) :
    (armTargetIns (cpuOf s) mem handler ins).map (·.1) = armStub s i := by
  rw [dataInst] at h
  split at h
  · case isTrue hdest =>
    obtain rfl := Option.some.inj h
    have hbx : ins &&& 0x0FFFFFD0 ≠ 0x012FFF10 := fun hbx => hmisc (and_of_and hbx (by decide))
    rw [armTargetIns_other hclass hbx hdest]
    rfl
  · case isFalse hdest =>
    split at h
    · cases h
    · case isFalse hcmp =>
      obtain rfl := Option.some.inj h
      rw [armTargetIns_op2 hclass hmisc (not_not.mp hdest) hcmp hop2, Option.map_map, armStub]
      split
      · exact Option.map_id_apply
      · rfl

/-! ## Loads -/

theorem armTargetIns_load (h : ins &&& 0x0C100000 = 0x04100000)
    (hmedia : ins &&& 0x02000010 ≠ 0x02000010) :
    armTargetIns (cpuOf s) mem handler ins =
      if ins &&& 0x0000F000 ≠ 0x0000F000 then some (s.pc + 4, [])
      else (armLoadAddr (cpuOf s) ins).map (load mem) := by
  have hclass : ins &&& 0x0C000000 = 0x04000000 := and_of_and h (by decide)
  have hload : ins &&& 0x00100000 = 0x00100000 := and_of_and h (by decide)
  have hstr : ins &&& 0x00100000 ≠ 0 := by
    rw [hload]
    decide
  rw [armTargetIns, hclass]
  exact (if_neg hmedia).trans (if_neg hstr)

theorem armLoadAddr_eq {offset : Operand}
    (hoffset : (if ins &&& 0x02000000 = 0 then some (ins &&& 0x00000FFF)
      else rmShifted (cpuOf s) (ins &&& 0x00000FFF)) = some (misread s offset)) :
    armLoadAddr (cpuOf s) ins = some
      (if ins.getLsbD 24 then
        if ins.getLsbD 23 then s.armReg (regField ins 16) + misread s offset
        else s.armReg (regField ins 16) - misread s offset
      else s.armReg (regField ins 16)) := by
  have hpre : ins &&& 0x01000000 ≠ 0 ↔ ins.getLsbD 24 = true := and_bit rfl (by decide)
  have hup : ins &&& 0x00800000 ≠ 0 ↔ ins.getLsbD 23 = true := and_bit rfl (by decide)
  rw [armLoadAddr, armRn_eq]
  simp only [hpre, hup, Option.bind_some, bind]
  split
  · split at hoffset
    · case isTrue himm =>
      rw [if_pos himm, Option.some.inj hoffset]
      rfl
    · case isFalse himm =>
      rw [if_neg himm, hoffset]
      rfl
  · rfl

theorem armTargetIns_loadInst {offset : Operand} (hclass : ins &&& 0x0C100000 = 0x04100000)
    (hmedia : ins &&& 0x02000010 ≠ 0x02000010)
    (hoffset : (if ins &&& 0x02000000 = 0 then some (ins &&& 0x00000FFF)
      else rmShifted (cpuOf s) (ins &&& 0x00000FFF)) = some (misread s offset))
    (h : loadInst ins offset = some i) :
    (armTargetIns (cpuOf s) s.mem handler ins).map (·.1) = armStub s i := by
  rw [armTargetIns_load hclass hmedia, armLoadAddr_eq hoffset]
  rw [loadInst] at h
  split at h
  · case isTrue hdest =>
    obtain rfl := Option.some.inj h
    rw [if_pos hdest]
    rfl
  · case isFalse hdest =>
    rw [if_neg hdest]
    split at h
    · cases h
    split at h
    · cases h
    split at h
    · cases h
    · obtain rfl := Option.some.inj h
      rfl

/-- The loop counts the registers of the list but the program counter. -/
theorem count_eq (hpc : ins.getLsbD 15 = true) :
    count (ins.extractLsb' 0 16) = ((List.range 15).filter fun i =>
      ins &&& 0x0000FFFF &&& BitVec.ofNat 32 (2 ^ i) != 0).length + 1 := by
  have hmask : ∀ i < 15, (0x0000FFFF : Word).getLsbD i = true := by decide
  have hbits : (List.range 15).filter (fun i => (ins.extractLsb' 0 16).getLsbD i) =
      (List.range 15).filter fun i => ins &&& 0x0000FFFF &&& BitVec.ofNat 32 (2 ^ i) != 0 := by
    apply List.filter_congr
    intro i hi
    have hi : i < 15 := List.mem_range.mp hi
    have hi16 : i < 16 := by omega
    have hpow : BitVec.ofNat 32 (2 ^ i) = BitVec.twoPow 32 i := by
      rw [← BitVec.toNat_inj, BitVec.toNat_twoPow, BitVec.toNat_ofNat]
    rw [hpow, flag_ne i (by omega), BitVec.getLsbD_and, hmask i hi]
    simp [hi16]
  rw [count, List.range_succ, List.filter_append, hbits]
  simp [hpc]

theorem armLoadManyAddr_eq (hlist : ins &&& 0x00008000 ≠ 0) (hbase : regField ins 16 ≠ 15) :
    armLoadManyAddr (cpuOf s) ins = some
      (if ins.getLsbD 23 then
        s.r (regField ins 16) + BitVec.ofNat 32 (4 * (count (ins.extractLsb' 0 16) - 1))
      else s.r (regField ins 16) - 4) := by
  have hup : ins &&& 0x00800000 ≠ 0 ↔ ins.getLsbD 23 = true := and_bit rfl (by decide)
  have hpc : ins.getLsbD 15 = true := (and_bit rfl (by decide)).mp hlist
  have hcount : ((List.range 15).filter fun i =>
      ins &&& 0x0000FFFF &&& BitVec.ofNat 32 (2 ^ i) != 0).length * 4 =
        4 * (count (ins.extractLsb' 0 16) - 1) := by
    rw [count_eq hpc, Nat.add_sub_cancel, Nat.mul_comm]
  rw [armLoadManyAddr, armRn_eq]
  simp only [hup, hcount, State.armReg, if_neg hbase, Option.bind_some, bind]
  rfl

theorem armTargetIns_loadManyInst (hmany : ins &&& 0x0E100000 = 0x08100000)
    (h : loadManyInst ins = some i) :
    (armTargetIns (cpuOf s) s.mem handler ins).map (·.1) = armStub s i := by
  have hclass : ins &&& 0x0C000000 = 0x08000000 := and_of_and hmany (by decide)
  have hbranch : ins &&& 0x02000000 = 0 := and_of_and hmany (by decide)
  have hload : ins &&& 0x00100000 = 0x00100000 := and_of_and hmany (by decide)
  have hstm : ins &&& 0x00100000 ≠ 0 := by
    rw [hload]
    decide
  have htarget : armTargetIns (cpuOf s) s.mem handler ins =
      if ins &&& 0x00008000 = 0 then some (s.pc + 4, [])
      else (armLoadManyAddr (cpuOf s) ins).map (load s.mem) := by
    rw [armTargetIns, hclass]
    exact (if_pos hbranch).trans (if_neg hstm)
  rw [htarget]
  rw [loadManyInst] at h
  split at h
  · case isTrue hlist =>
    obtain rfl := Option.some.inj h
    rw [if_pos hlist]
    rfl
  · case isFalse hlist =>
    rw [if_neg hlist]
    split at h
    · cases h
    · case isFalse hbase =>
      rw [armLoadManyAddr_eq hlist hbase]
      split at h
      · cases h
      · obtain rfl := Option.some.inj h
        rfl

/-! ## Branches -/

theorem branchOffset_eq : (if ins &&& 0x00800000 ≠ 0 then (ins &&& 0x00FFFFFF) <<< 2 ||| 0xFC000000
    else (ins &&& 0x00FFFFFF) <<< 2) = (ins.extractLsb' 0 24 ++ 0#2).signExtend 32 := by
  have hsign : ins &&& 0x00800000 ≠ 0 ↔ (ins.extractLsb' 0 24).msb = true := by
    have hbit : ins &&& 0x00800000 ≠ 0 ↔ ins.getLsbD 23 = true := and_bit rfl (by decide)
    rw [hbit, BitVec.msb_eq_getLsbD_last]
    simp
  have hfield : ins &&& 0x00FFFFFF = (ins.extractLsb' 0 24).setWidth 32 := low_eq (by decide)
  simp only [hsign, hfield]
  exact signExtend_eq (t := 26) _ (by decide) (by decide) (by decide) (by decide) (by decide)

theorem armTargetBranch_eq (h : ins &&& 0x0E000000 = 0x0A000000)
    (hex : armInsWillExecute (cpuOf s) ins = true) :
    (armTargetIns (cpuOf s) s.mem handler ins).map (fixedAddr ·.1) =
      some (fixedAddr (s.pc + 8 + (ins.extractLsb' 0 24 ++ 0#2).signExtend 32)) := by
  have hclass : ins &&& 0x0C000000 = 0x08000000 := and_of_and h (by decide)
  have hbranch : ins &&& 0x02000000 = 0x02000000 := and_of_and h (by decide)
  have hldm : ins &&& 0x02000000 ≠ 0 := by
    rw [hbranch]
    decide
  have htarget : armTargetIns (cpuOf s) s.mem handler ins =
      some (armTargetBranch (cpuOf s) s.mem ins) := by
    rw [armTargetIns, hclass]
    exact if_neg hldm
  rw [htarget, armTargetBranch, if_pos hex]
  simp only [branchOffset_eq]
  split
  · split
    · rfl
    · exact congrArg some (fixedAddr_makeThumbAddr _)
  · rfl

/-! ## The instructions of ARM state -/

theorem rotatedImm_ne : (∀ imm8, rotatedImm ins ≠ .imm imm8 0) ↔ ins.extractLsb' 8 4 ≠ 0 := by
  constructor
  · intro h h0
    apply h (ins.extractLsb' 0 8)
    rw [rotatedImm, h0]
  · intro h imm8 himm
    exact h (Operand.imm.inj himm).2

theorem armTargetIns_dataProcessing (hclass : ins &&& 0x0C000000 = 0)
    (h : dataProcessing ins = some i) :
    (armTargetIns (cpuOf s) mem handler ins).map (·.1) = armStub s i := by
  rw [dataProcessing] at h
  split at h
  · case isTrue hmovw =>
    split at h
    · case isTrue hdest =>
      obtain rfl := Option.some.inj h
      have hbx : ins &&& 0x0FFFFFD0 ≠ 0x012FFF10 := fun hbx => by
        have h0 : ins &&& 0x02000000 = 0 := and_of_and hbx (by decide)
        have h1 : ins &&& 0x02000000 = 0x02000000 := and_of_and hmovw (by decide)
        rw [h0] at h1
        cases h1
      rw [armTargetIns_other hclass hbx hdest]
      rfl
    · cases h
  split at h
  · cases h
  case isFalse hmisc =>
  split at h
  · case isTrue himm =>
    apply armTargetIns_dataInst hclass hmisc _ h
    rw [if_neg himm, rotated_eq (s := s)]
    simp only [rotatedImm_ne, ite_not]
  case isFalse himm =>
  split at h
  · case isTrue hshift =>
    apply armTargetIns_dataInst hclass hmisc _ h
    have hreg : ∀ imm8, shiftedReg ins ≠ .imm imm8 0 := fun _ hreg => by cases hreg
    rw [if_pos (not_not.mp himm), rmShifted_eq hshift, if_pos hreg]
  split at h
  · case isTrue hother =>
    obtain rfl := Option.some.inj h
    have hbx : ins &&& 0x0FFFFFD0 ≠ 0x012FFF10 := fun hbx => hmisc (and_of_and hbx (by decide))
    rw [armTargetIns_other hclass hbx hother.2]
    rfl
  · cases h

/-- The stub takes an instruction for what it is. -/
theorem armTargetIns_eq (h : decodeArm ins = some i) (hex : armInsWillExecute (cpuOf s) ins = true) :
    (armTargetIns (cpuOf s) s.mem handler ins).map (fixedAddr ·.1) =
      (armStub s i).map fixedAddr := by
  have hfixed {o : Option (Word × Reads)} {o' : Option Word} (ho : o.map (·.1) = o') :
      o.map (fixedAddr ·.1) = o'.map fixedAddr := by
    rw [← ho, Option.map_map]
    rfl
  rw [decodeArm] at h
  split at h
  · split at h
    · case isTrue hbranch =>
      obtain rfl := Option.some.inj h
      exact armTargetBranch_eq hbranch hex
    · cases h
  split at h
  · case isTrue hbx =>
    obtain rfl := Option.some.inj h
    apply hfixed
    rw [armTargetIns_bx (and_of_and hbx (by decide))]
    rfl
  split at h
  · case isTrue hblx =>
    obtain rfl := Option.some.inj h
    apply hfixed
    rw [armTargetIns_bx (and_of_and hblx (by decide))]
    rfl
  split at h
  · case isTrue hclass => exact hfixed (armTargetIns_dataProcessing hclass h)
  split at h
  · case isTrue hload =>
    have himm : ins &&& 0x02000000 = 0 := and_of_and hload (by decide)
    have hmedia : ins &&& 0x02000010 ≠ 0x02000010 := fun hmedia => by
      have h1 : ins &&& 0x02000000 = 0x02000000 := and_of_and hmedia (by decide)
      rw [himm] at h1
      cases h1
    apply hfixed
    apply armTargetIns_loadInst (and_of_and hload (by decide)) hmedia _ h
    have hoffset : ins &&& 0x00000FFF = (ins.extractLsb' 0 12).setWidth 32 := low_eq (by decide)
    rw [if_pos himm, hoffset]
    rfl
  split at h
  · case isTrue hload =>
    split at h
    · cases h
    · have hreg : ins &&& 0x02000000 = 0x02000000 := and_of_and hload (by decide)
      have hshift : ins &&& 0x00000010 = 0 := and_of_and hload (by decide)
      have hmedia : ins &&& 0x02000010 ≠ 0x02000010 := fun hmedia => by
        have h1 : ins &&& 0x00000010 = 0x00000010 := and_of_and hmedia (by decide)
        rw [hshift] at h1
        cases h1
      apply hfixed
      apply armTargetIns_loadInst (and_of_and hload (by decide)) hmedia _ h
      rw [hreg, if_neg (by decide), rmShifted_eq hshift]
  split at h
  · case isTrue hmany => exact hfixed (armTargetIns_loadManyInst hmany h)
  split at h
  · case isTrue hbranch =>
    obtain rfl := Option.some.inj h
    exact armTargetBranch_eq hbranch hex
  · cases h

theorem armInsWillExecute_eq (h : decodeArm ins = some i) :
    armInsWillExecute (cpuOf s) ins = conditionHolds s (ins.extractLsb' 28 4) := by
  have hcond : ((ins &&& 0xF0000000) >>> 28).toNat = (ins.extractLsb' 28 4).toNat :=
    field_toNat (by decide) (by decide)
  have hnv : ins &&& 0xF0000000 = 0xF0000000 ↔ ins.extractLsb' 28 4 = 0xF :=
    field_eq_iff (by decide) (by decide) (by decide) (by decide)
  by_cases hf : ins.extractLsb' 28 4 = 0xF
  · have hbranch : ins &&& 0x0E000000 = 0x0A000000 := by
      rw [decodeArm, if_pos (hnv.mpr hf)] at h
      by_contra hno
      rw [if_neg hno] at h
      cases h
    simp only [armInsWillExecute, hcond, hf, hbranch]
    simp [conditionHolds]
  · have hne : (ins.extractLsb' 28 4).toNat ≠ 0xF := fun he => hf (BitVec.eq_of_toNat_eq he)
    simp only [armInsWillExecute, hcond, if_neg hne]
    exact willExecute_eq s _ hf

theorem stepArm_eq (h : decodeArm (s.word s.pc) = some i) :
    (stepArm (cpuOf s) s.mem handler).map (fixedAddr ·.addr) =
      if conditionHolds s ((s.word s.pc).extractLsb' 28 4) then (armStub s i).map fixedAddr
      else some (fixedAddr (s.pc + 4)) := by
  have hins : readWord s.mem (cpuOf s).pc = s.word s.pc := rfl
  rw [stepArm, hins, armInsWillExecute_eq h]
  split
  · case isTrue hex =>
    have htarget := @armTargetIns_eq s handler _ i h ((armInsWillExecute_eq h).trans hex)
    rw [← htarget]
    cases armTargetIns (cpuOf s) s.mem handler (s.word s.pc) <;> rfl
  · rfl

/-- Where a branch or a return from an exception puts the program counter. -/
def landing (s : State) (restore : Bool) : Word :=
  if restore ∧ s.spsr.all (fun spsr => !spsr.getLsbD 5) then ~~~3 else ~~~1

theorem bxWritePC_some {a : Word} (h : bxWritePC a = some next) : a &&& ~~~1 = next := by
  rw [bxWritePC] at h
  split at h
  · exact Option.some.inj h
  · case isFalse h0 =>
    split at h
    · cases h
    · obtain rfl := Option.some.inj h
      exact and_even (Bool.eq_false_of_not_eq_true h0)

theorem exceptionReturn_some {a : Word} (h : exceptionReturn s a = some next) :
    a &&& landing s true = next := by
  rw [exceptionReturn] at h
  rw [landing]
  cases hs : s.spsr with
  | none => simp [hs] at h
  | some spsr =>
    rw [hs] at h
    have h : (if spsr.getLsbD 5 then a &&& ~~~1 else a &&& ~~~3) = next := Option.some.inj h
    rw [Option.all_some]
    cases ht : spsr.getLsbD 5 with
    | false =>
      rw [ht] at h
      exact h
    | true =>
      rw [ht] at h
      exact h

/-- When the step over an instruction of ARM state is right. A branch with exchange to the program
counter is not, and of the data processing a number that is not rotated. Elsewhere what the stub
misreads must make no difference: the operand, the place in the list of registers, and the two
lowest bits of a return to ARM state. -/
def ArmSound (s : State) : ArmInst → Prop
  | .other | .b _ => True
  | .bx m | .blx m => m ≠ 15
  | .data opc setFlags n op2 =>
    (∀ imm8, op2 ≠ .imm imm8 0) ∧
      (alu opc (s.armReg n) (misread s op2) s.c).map (· &&& ~~~1) =
        (alu opc (s.armReg n) (op2.value s) s.c).map (· &&& landing s setFlags)
  | .ldr n pre up offset =>
    let word (offset : Word) :=
      s.word (if up then s.armReg n + offset else s.armReg n - offset) &&& ~~~1
    pre = true → word (misread s offset) = word (offset.value s)
  | .ldm n pre up restore list =>
    s.word (if up then s.r n + BitVec.ofNat 32 (4 * (count list - 1)) else s.r n - 4) &&& ~~~1 =
      s.word (lastAddr (s.r n) pre up (count list)) &&& landing s restore
  | .blxImm h _ => h = false

theorem loadPC_some {a : Word} (h : loadPC s a = some next) : s.word a &&& ~~~1 = next := by
  rw [loadPC] at h
  split at h
  · exact bxWritePC_some h
  · cases h

theorem armStub_iff (hpc : s.pc.getLsbD 0 = false) (h : armNext s i = some next) :
    (armStub s i).map fixedAddr = some next ↔ ArmSound s i := by
  have hsome {a b : Word} : some a = some b ↔ a = b := Option.some_inj
  cases i with
  | other =>
    obtain rfl := Option.some.inj h
    have heven : (s.pc + 4).getLsbD 0 = false := by
      rw [low_add, hpc]
      rfl
    simp only [armStub, ArmSound, Option.map_some, fixedAddr_even heven]
  | bx m =>
    have hnext : s.armReg m &&& ~~~1 = next := bxWritePC_some h
    simp only [armStub, ArmSound, Option.map_some, fixedAddr_eq, ← hnext, hsome]
    constructor
    · rintro heq rfl
      have hpc8 : (s.pc + 8).getLsbD 0 = false := by
        rw [low_add, hpc]
        rfl
      have harm : s.armReg 15 = s.pc + 8 := rfl
      have hr : s.r 15 = s.pc := rfl
      rw [hr, harm, and_even hpc, and_even hpc8] at heq
      bv_omega
    · intro hm
      rw [State.armReg, if_neg hm]
  | blx m =>
    rw [armNext] at h
    split at h
    · cases h
    · case isFalse hm =>
      have hnext : s.r m &&& ~~~1 = next := bxWritePC_some h
      simp only [armStub, ArmSound, Option.map_some, fixedAddr_eq, hnext, hm, ne_eq,
        not_false_eq_true]
  | data opc setFlags n op2 =>
    have hnext : (alu opc (s.armReg n) (op2.value s) s.c).map (· &&& landing s setFlags) =
        some next := by
      rw [armNext] at h
      obtain ⟨result, hresult, h⟩ := Option.bind_eq_some_iff.mp h
      rw [hresult, Option.map_some]
      cases setFlags with
      | false => exact congrArg some (bxWritePC_some h)
      | true => exact congrArg some (exceptionReturn_some h)
    rw [ArmSound, hnext, armStub]
    split
    · case isTrue himm =>
      rw [show fixedAddr = (· &&& ~~~1) from funext fixedAddr_eq]
      exact ⟨fun h => ⟨himm, h⟩, fun h => h.2⟩
    · case isFalse himm =>
      constructor
      · intro hnone
        cases hnone
      · exact fun hand => absurd hand.1 himm
  | ldr n pre up offset =>
    have hnext := loadPC_some h
    rw [armStub, Option.map_some, fixedAddr_eq, hsome, ← hnext, ArmSound]
    cases pre with
    | false => simp
    | true => simp
  | ldm n pre up restore list =>
    rw [armNext] at h
    split at h
    · have hnext : s.word (lastAddr (s.r n) pre up (count list)) &&& landing s restore = next := by
        cases restore with
        | false => exact bxWritePC_some h
        | true => exact exceptionReturn_some h
      rw [armStub, Option.map_some, fixedAddr_eq, hsome, ← hnext, ArmSound]
    · cases h
  | b imm24 =>
    obtain rfl := Option.some.inj h
    have heven : (s.pc + 8 + (imm24 ++ 0#2).signExtend 32).getLsbD 0 = false := by
      rw [low_add, low_add, hpc, low_signExtend (by decide)]
      rfl
    simp only [armStub, ArmSound, Option.map_some, fixedAddr_even heven]
  | blxImm half imm24 =>
    obtain rfl := Option.some.inj h
    have heven : (s.pc + 8 + (imm24 ++ 0#2).signExtend 32).getLsbD 0 = false := by
      rw [low_add, low_add, hpc, low_signExtend (by decide)]
      rfl
    have hbit (h : Bool) : ((imm24 ++ BitVec.ofBool h ++ 0#1).signExtend 32).getLsbD 1 = h := by
      rw [BitVec.getLsbD_signExtend, if_pos (by decide), BitVec.getLsbD_append,
        if_neg (by decide), BitVec.getLsbD_append, if_pos (by decide)]
      cases h <;> rfl
    have happend : imm24 ++ BitVec.ofBool false ++ 0#1 = imm24 ++ 0#2 := by
      rw [BitVec.append_assoc]
      rfl
    rw [armStub, Option.map_some, fixedAddr_even heven, hsome, ArmSound]
    constructor
    · intro heq
      have hoffset := add_left_cancel heq
      rw [← hbit half, ← hoffset, ← happend]
      exact hbit false
    · rintro rfl
      rw [happend]

end

end Melis.Kgdb
