import Melis.Kgdb.Packet

/-!
# Where a single step leads to

The decoder of `arch/arm/arm_stub.c`: from the registers of the stopped target and its memory, the
address at which the breakpoint of a single step is put. `none` is an access outside the array of
the registers, or a shift by the width of the type or more. The reads of memory are listed, each
with its length.
-/

namespace Melis.Kgdb

scoped instance neZero_sixteen : NeZero 16 := ⟨by decide⟩

/-- What the exception has saved of the registers. `r 15` is `abt_lr`, where the target stopped. -/
structure Cpu where
  r : Fin 16 → BitVec 32
  origCpsr : BitVec 32

namespace Cpu

variable (cpu : Cpu)

def pc : Addr := cpu.r 15

/-- The array that `gdb_get_register` fills, with `GDB_MAX_REGS` entries; the last is the status
register, and those of the floating point unit are 0. -/
def gdbArchRegs (i : Nat) : Option (BitVec 32) :=
  if h : i < 16 then some (cpu.r ⟨i, h⟩)
  else if i = 41 then some cpu.origCpsr
  else if i < 42 then some 0
  else none

end Cpu

/-! ## Memory -/

def readHalf (mem : Mem) (addr : Addr) : BitVec 16 :=
  (mem (addr + 1)).toBitVec ++ (mem addr).toBitVec

def readWord (mem : Mem) (addr : Addr) : BitVec 32 :=
  readHalf mem (addr + 2) ++ readHalf mem addr

/-- The reads of memory, with their lengths. -/
abbrev Reads := List (Addr × Nat)

/-! ## Conditions -/

def psN : BitVec 32 := 0x80000000

def psZ : BitVec 32 := 0x40000000

def psC : BitVec 32 := 0x20000000

def psV : BitVec 32 := 0x10000000

/-- The `switch` of `arm_ins_will_execute` and `thumb_ins_will_execute` up to AL. -/
def willExecute (psr : BitVec 32) : Nat → Bool
  | 0x0 => psr &&& psZ != 0
  | 0x1 => psr &&& psZ == 0
  | 0x2 => psr &&& psC != 0
  | 0x3 => psr &&& psC == 0
  | 0x4 => psr &&& psN != 0
  | 0x5 => psr &&& psN == 0
  | 0x6 => psr &&& psV != 0
  | 0x7 => psr &&& psV == 0
  | 0x8 => psr &&& psC != 0 && psr &&& psZ == 0
  | 0x9 => psr &&& psC == 0 || psr &&& psZ != 0
  | 0xA => psr &&& (psN ||| psV) == psN ||| psV || psr &&& (psN ||| psV) == 0
  | 0xB => psr &&& (psN ||| psV) == psN || psr &&& (psN ||| psV) == psV
  | 0xC => psr &&& psZ == 0 && (psr &&& (psN ||| psV) == psN ||| psV || psr &&& (psN ||| psV) == 0)
  | 0xD => psr &&& psZ == psZ || (psr &&& (psN ||| psV) == psN || psr &&& (psN ||| psV) == psV)
  | _ => true

def armInsWillExecute (cpu : Cpu) (ins : BitVec 32) : Bool :=
  let cond := ((ins &&& 0xF0000000) >>> 28).toNat
  if cond = 0xF then
    (ins &&& 0x0E000000) >>> 24 == 0xA || (ins &&& 0x0E000000) >>> 24 == 0xB
  else willExecute cpu.origCpsr cond

/-- The condition NV passes here. -/
def thumbInsWillExecute (cpu : Cpu) (ins : BitVec 16) : Bool :=
  if (ins &&& 0xF000) >>> 12 != 0xD then true
  else willExecute cpu.origCpsr ((ins &&& 0x0F00) >>> 8).toNat

/-! ## ARM instructions -/

/-- `x << n` -/
def shl (x : BitVec 32) (n : Nat) : Option (BitVec 32) := if n < 32 then some (x <<< n) else none

/-- `x >> n` -/
def shr (x : BitVec 32) (n : Nat) : Option (BitVec 32) := if n < 32 then some (x >>> n) else none

/-- `(long)x >> n` -/
def asr (x : BitVec 32) (n : Nat) : Option (BitVec 32) :=
  if n < 32 then some (x.sshiftRight n) else none

/-- `x >> n | x << (32 - n)` -/
def rotate (x : BitVec 32) (n : Nat) : Option (BitVec 32) := do
  let low ← shr x n
  let high ← shl x (32 - n)
  return low ||| high

def rmShifted (cpu : Cpu) (shift : BitVec 32) : Option (BitVec 32) := do
  let rm ← cpu.gdbArchRegs (shift &&& 0x00F).toNat
  let shiftCount ←
    if shift &&& 0x010 = 0 then some ((shift &&& 0xF80) >>> 7).toNat
    else (cpu.gdbArchRegs ((shift &&& 0xF00) >>> 8).toNat).map BitVec.toNat
  match ((shift &&& 0x060) >>> 5).toNat with
  | 0x0 => shl rm shiftCount
  | 0x1 => shr rm shiftCount
  | 0x2 => asr rm shiftCount
  | _ =>
    if shiftCount = 0 then
      return if cpu.origCpsr &&& psC != 0 then rm >>> 1 ||| 0x80000000 else rm >>> 1
    else rotate rm shiftCount

/-- `Rn` -/
def armRn (cpu : Cpu) (ins : BitVec 32) : Option (BitVec 32) := do
  let rn ← cpu.gdbArchRegs ((ins &&& 0x000F0000) >>> 16).toNat
  return if ins &&& 0x000F0000 = 0x000F0000 then rn + 8 else rn

/-- `new_pc` of a data processing instruction that writes it. -/
def armDataPc (cpu : Cpu) (ins rn op2 : BitVec 32) : BitVec 32 :=
  let c : BitVec 32 := if cpu.origCpsr &&& psC != 0 then 1 else 0
  match ((ins &&& 0x01E00000) >>> 21).toNat with
  | 0x0 => rn &&& op2
  | 0x1 => rn ^^^ op2
  | 0x2 => rn - op2
  | 0x3 => op2 - rn
  | 0x4 => rn + op2
  | 0x5 => rn + op2 + c
  | 0x6 => rn - op2 + c - 1
  | 0x7 => op2 - rn + c - 1
  | 0x8 | 0x9 | 0xA | 0xB => cpu.pc + 4
  | 0xC => rn ||| op2
  | 0xD => op2
  | 0xE => rn &&& ~~~op2
  | _ => ~~~op2

/-- BX, BLX and data processing. -/
def armTargetData (cpu : Cpu) (ins : BitVec 32) : Option (BitVec 32) :=
  if ins &&& 0x0FFFFFD0 = 0x012FFF10 then cpu.gdbArchRegs (ins &&& 0x0000000F).toNat
  else if ins &&& 0x0000F000 = 0x0000F000 ∧ ins &&& 0x0FBF0000 ≠ 0x010F0000 then do
    let rn ← armRn cpu ins
    let op2 ←
      if ins &&& 0x02000000 = 0 then rmShifted cpu (ins &&& 0x00000FFF)
      else rotate (ins &&& 0x000000FF) (((ins &&& 0x00000F00) >>> 8).toNat * 2)
    return armDataPc cpu ins rn op2
  else some (cpu.pc + 4)

/-- Where a load finds the new program counter. -/
def armLoadAddr (cpu : Cpu) (ins : BitVec 32) : Option Addr := do
  let rn ← armRn cpu ins
  if ins &&& 0x01000000 ≠ 0 then
    if ins &&& 0x02000000 = 0 then
      return if ins &&& 0x00800000 ≠ 0 then rn + (ins &&& 0x00000FFF) else rn - (ins &&& 0x00000FFF)
    else
      let offset ← rmShifted cpu (ins &&& 0x00000FFF)
      return if ins &&& 0x00800000 ≠ 0 then rn + offset else rn - offset
  else return rn

/-- Where a load of many registers finds it. -/
def armLoadManyAddr (cpu : Cpu) (ins : BitVec 32) : Option Addr := do
  let rn ← armRn cpu ins
  let offset := ins &&& 0x0000FFFF
  let regCount := ((List.range 15).filter fun i => offset &&& BitVec.ofNat 32 (2 ^ i) != 0).length
  return if ins &&& 0x00800000 ≠ 0 then rn + BitVec.ofNat 32 (regCount * 4) else rn - 4

def load (mem : Mem) (addr : Addr) : BitVec 32 × Reads := (readWord mem addr, [(addr, 4)])

/-- `thumb_32bit_code` -/
def thumb32bitCode (ic : BitVec 16) : Bool :=
  let op := ic >>> 11 &&& 0xFFFF
  op == 0x1D || op == 0x1E || op == 0x1F

def makeThumbAddr (addr : Addr) : Addr := addr ||| 1

def armTargetBranch (cpu : Cpu) (mem : Mem) (ins : BitVec 32) : BitVec 32 × Reads :=
  if armInsWillExecute cpu ins then
    let offset := (ins &&& 0x00FFFFFF) <<< 2
    let offset := if ins &&& 0x00800000 ≠ 0 then offset ||| 0xFC000000 else offset
    let newPc := cpu.pc + 8 + offset
    if ins &&& 0xFE000000 = 0xFA000000 then
      (if thumb32bitCode (readHalf mem newPc) then newPc else makeThumbAddr newPc, [(newPc, 2)])
    else (newPc, [])
  else (cpu.pc + 4, [])

/-- `handler` is the value of `armv_swc_handler`. -/
def armTargetIns (cpu : Cpu) (mem : Mem) (handler : BitVec 32) (ins : BitVec 32) :
    Option (BitVec 32 × Reads) :=
  match ((ins &&& 0x0C000000) >>> 26).toNat with
  | 0x0 => (armTargetData cpu ins).map fun newPc => (newPc, [])
  | 0x1 =>
    if ins &&& 0x02000010 = 0x02000010 then some (cpu.pc + 4, [])
    else if ins &&& 0x00100000 = 0 then some (cpu.pc + 4, [])
    else if ins &&& 0x0000F000 ≠ 0x0000F000 then some (cpu.pc + 4, [])
    else (armLoadAddr cpu ins).map (load mem)
  | 0x2 =>
    if ins &&& 0x02000000 = 0 then
      if ins &&& 0x00100000 = 0 then some (cpu.pc + 4, [])
      else if ins &&& 0x00008000 = 0 then some (cpu.pc + 4, [])
      else (armLoadManyAddr cpu ins).map (load mem)
    else some (armTargetBranch cpu mem ins)
  | _ =>
    if ins &&& 0x03000000 = 0x03000000 ∧ armInsWillExecute cpu ins then some (handler, [])
    else some (cpu.pc + 4, [])

/-! ## Thumb instructions -/

/-- `BITS`, which leaves the bits where they are. -/
def bitsOf (x : BitVec 16) (high low : Nat) : BitVec 16 :=
  x &&& BitVec.ofNat 16 ((2 ^ (high - low + 1) - 1) * 2 ^ low)

/-- `BITS_SHIFT` -/
def bitsShift (x : BitVec 16) (high low : Nat) : BitVec 16 :=
  x >>> low &&& BitVec.ofNat 16 (2 ^ (high - low + 1) - 1)

/-- `SIGN_EXTEND` -/
def signExtendAt (val : BitVec 32) (topbit : Nat) : BitVec 32 :=
  if val &&& BitVec.ofNat 32 (2 ^ topbit) ≠ 0 then val ||| (0xffffffff : BitVec 32) <<< topbit
  else val

/-- The offset of a branch, of which `topbit` is the sign. -/
def thumbOffset (ins : BitVec 16) (topbit : Nat) : BitVec 32 :=
  signExtendAt ((bitsOf ins (topbit - 1) 0).setWidth 32 <<< 1) topbit + 4

/-- `bitcount` -/
def bitcount (val : BitVec 16) : Nat := ((List.range 16).filter fun i => val.getLsbD i).length

/-- What CBZ, CBNZ and SVC compute of `nextpc` is not used. -/
def thumbGetNextPc (cpu : Cpu) (mem : Mem) (ins : BitVec 16) : Option (BitVec 32 × Reads) :=
  let pcVal := makeThumbAddr (cpu.pc + 4)
  let next := some (makeThumbAddr (cpu.pc + 2), [])
  if ins &&& 0xff00 = 0xbd00 then do
    let sp ← cpu.gdbArchRegs 13
    let (nextpc, reads) := load mem (sp + BitVec.ofNat 32 (bitcount (bitsOf ins 7 0) * 4))
    return (makeThumbAddr nextpc, reads)
  else if ins &&& 0xff87 = 0x4687 then
    if bitsOf ins 6 3 = 0x0f then some (makeThumbAddr pcVal, [])
    else (cpu.gdbArchRegs (bitsOf ins 6 3).toNat).map fun nextpc => (makeThumbAddr nextpc, [])
  else if ins &&& 0xf500 = 0xb100 ∧ cpu.gdbArchRegs (bitsOf ins 3 0).toNat = none then none
  else
    let op := bitsShift ins 15 11
    if op = 0x08 then
      if bitsOf ins 10 10 ≠ 0 ∧ bitsShift ins 9 8 = 3 then
        (cpu.gdbArchRegs (bitsShift ins 6 3).toNat).map fun newPc => (newPc, [])
      else next
    else if op = 0x1a ∨ op = 0x1b then
      if bitsShift ins 11 8 = 0xe ∨ bitsShift ins 11 8 = 0xf then next
      else some (makeThumbAddr (cpu.pc + thumbOffset ins 8), [])
    else if op = 0x1c then some (makeThumbAddr (cpu.pc + thumbOffset ins 11), [])
    else next

/-! ## The step -/

/-- `step_addr` and `ins_len`, with the reads that they have taken. -/
structure Step where
  addr : Addr
  insLen : BitVec 32
  reads : Reads

/-- `orig_cpsr & 0x20` -/
def Cpu.inThumb (cpu : Cpu) : Bool := cpu.origCpsr &&& 0x20 != 0

def stepThumb (cpu : Cpu) (mem : Mem) : Option Step :=
  let testins := readHalf mem cpu.pc
  if thumb32bitCode testins then
    let addr := cpu.pc + 4
    let reads : Reads := [(cpu.pc, 2), (addr, 2)]
    if thumb32bitCode (readHalf mem addr) then some ⟨addr, 4, reads⟩
    else some ⟨makeThumbAddr addr, 2, reads⟩
  else do
    let (addr, reads) ←
      if thumbInsWillExecute cpu testins then thumbGetNextPc cpu mem testins
      else some (makeThumbAddr (cpu.pc + 2), [])
    let reads := (cpu.pc, 2) :: reads ++ [(fixedAddr addr, 2)]
    if thumb32bitCode (readHalf mem (fixedAddr addr)) then
      return ⟨unmakeThumbAddr addr, 4, reads⟩
    else return ⟨addr, 2, reads⟩

def stepArm (cpu : Cpu) (mem : Mem) (handler : BitVec 32) : Option Step := do
  let curins := readWord mem cpu.pc
  let (addr, reads) ←
    if armInsWillExecute cpu curins then armTargetIns cpu mem handler curins
    else some (cpu.pc + 4, [])
  return ⟨addr, if isThumbAddr addr then 2 else 4, (cpu.pc, 4) :: reads⟩

/-- The case `'s'` of `gdb_arch_handle_exception` up to `set_sw_break`. -/
def stepTarget (cpu : Cpu) (mem : Mem) (handler : BitVec 32) : Option Step :=
  if cpu.inThumb then stepThumb cpu mem else stepArm cpu mem handler

end Melis.Kgdb
