import Mathlib.Data.BitVec
import Melis.Lib.Memory
import Melis.Lib.Sweep

/-!
# Breakpoints of the debugger stub

`subsys/aw/kgdb/breakpoint.c`, with what it calls of `arch/arm/arm_stub.c`,
`arch/arm/hardware_wbp.c` and `kgdb_util.c`. There are three tables: software
breakpoints, which replace an instruction in memory, and hardware breakpoints and
watchpoints, of which the entry number `i` uses the pair `i` of value and control
registers. A step of the stub comes with what fails in it (`Faults`).
-/

namespace Melis.Kgdb

open Lib

abbrev Addr := BitVec 32

abbrev Mem := Addr → UInt8

/-- `enum gdb_bptype` -/
inductive BpType
  | breakpoint
  | hardwareBreakpoint
  | writeWatchpoint
  | readWatchpoint
  | accessWatchpoint
  | pokeBreakpoint
  deriving DecidableEq, Repr

/-- `enum gdb_bpstate` -/
inductive BpState
  | undefined
  | removed
  | set
  | active
  deriving DecidableEq, Repr

/-- A pair of value and control registers of the debug hardware. -/
structure WbReg where
  value : BitVec 32
  control : BitVec 32
  deriving DecidableEq, Repr

/-- `struct gdb_bkpt`. `reg` is the pair of registers with the number of the entry, `Unit` for a
software breakpoint. Only the first four bytes of `savedInstr` are in the struct. -/
structure Bkpt (ρ : Type) where
  bptAddr : Addr
  savedInstr : Nat → UInt8
  bptLen : BitVec 32
  type : BpType
  state : BpState
  reg : ρ

/-- What stops a write or an install: a fault, or that it leaves the object it writes to. -/
inductive Error
  | fault
  | overrun
  deriving DecidableEq, Repr

/-- The writes that a value or a control register does not take. -/
structure RegFault where
  value : Bool
  control : Bool
  deriving DecidableEq, Repr

/-- What fails during a step of the stub. A probe write at `some k` faults at its byte `k`. The
`tmp` ones are those of `gdb_validate_break_address`; the others go by the number of the entry. -/
structure Faults where
  tmpSave : Option Nat
  tmpInstall : Option Nat
  tmpRestore : Option Nat
  save : Nat → Option Nat
  install : Nat → Option Nat
  restore : Nat → Option Nat
  hwBreak : Nat → RegFault
  hwWatch : Nat → RegFault

def Faults.none : Faults where
  tmpSave := .none
  tmpInstall := .none
  tmpRestore := .none
  save _ := .none
  install _ := .none
  restore _ := .none
  hwBreak _ := ⟨false, false⟩
  hwWatch _ := ⟨false, false⟩

/-- The tables and the memory. `stepAddr` is 0 where no single step is under way. -/
structure Stub where
  mem : Mem
  gdbSwBreak : List (Bkpt Unit)
  gdbHwBreak : List (Bkpt WbReg)
  gdbHwWatch : List (Bkpt WbReg)
  stepAddr : Addr

/-! ## Software breakpoints in memory -/

/-- `BREAK_INSTR_SIZE` -/
def breakInstrSize : Nat := 4

/-- `arch_gdb_ops.gdb_bpt_instr` -/
def gdbBptInstr : List UInt8 := [0xfe, 0xde, 0xff, 0xe7]

def isThumbAddr (addr : Addr) : Bool := addr &&& 1 != 0

def unmakeThumbAddr (addr : Addr) : Addr := addr &&& ~~~1

/-- `fixed_addr` -/
def fixedAddr (addr : Addr) : Addr := if isThumbAddr addr then unmakeThumbAddr addr else addr

/-- `break_instr_size` -/
def instrSize (addr : Addr) : Nat := if isThumbAddr addr then 2 else breakInstrSize

/-- `break_instr_size` of an install with a length. -/
def installSize (addr : Addr) (insLen : BitVec 32) : Nat :=
  if insLen != 0 then insLen.toNat else instrSize addr

/-- The addresses of `n` bytes from `addr`. -/
def span (addr : Addr) (n : Nat) : List Addr :=
  (List.range n).map fun k => addr + BitVec.ofNat 32 k

/-- The fault is at one of the `n` bytes. -/
def faultsIn (fault : Option Nat) (n : Nat) : Bool := fault.any fun k => k < n

def bytesWritten (fault : Option Nat) (n : Nat) : Nat :=
  match fault with
  | some k => min k n
  | none => n

/-- `probe_kernel_write`: a fault leaves the bytes before it written. -/
def probeKernelWrite {α : Type} [DecidableEq α] (fault : Option Nat) (mem : α → UInt8)
    (dst : List α) (src : List UInt8) : (α → UInt8) × Option Error :=
  match fault with
  | some k =>
    if k < dst.length then (Memory.store mem (dst.take k) src, some .fault)
    else (Memory.store mem dst src, none)
  | none => (Memory.store mem dst src, none)

/-- With the saved instruction, whose buffer has four bytes. -/
def armArchSetSwBreakpoint (save install : Option Nat) (mem : Mem) (addr : Addr)
    (insLen : BitVec 32) (savedInstr : Nat → UInt8) : Mem × (Nat → UInt8) × Option Error :=
  let size := installSize addr insLen
  if breakInstrSize < bytesWritten save size then (mem, savedInstr, some .overrun)
  else
    let at' := span (fixedAddr addr) size
    match probeKernelWrite save savedInstr (List.range size) (Memory.load mem at') with
    | (saved, some err) => (mem, saved, some err)
    | (saved, none) =>
      let r := probeKernelWrite install mem at' gdbBptInstr
      (r.1, saved, r.2)

def armArchRemoveSwBreakpoint (restore : Option Nat) (mem : Mem) (addr : Addr)
    (bundle : Nat → UInt8) : Mem × Option Error :=
  probeKernelWrite restore mem (span (fixedAddr addr) (instrSize addr))
    (Memory.load bundle (List.range (instrSize addr)))

/-! ## The registers of the hardware -/

/-- A register that does not take a write keeps its value. -/
def writeWbReg (refused : Bool) (old val : BitVec 32) : BitVec 32 := bif refused then old else val

/-- The address of an aligned word. -/
def wordAddr (addr : Addr) : Addr := addr &&& ~~~(4 - 1)

/-- `arm_install_hw_breakpoint` and `arm_install_hw_watchpoint`, which differ in `ctrl`: each
register is written and read back. -/
def armInstall (fault : RegFault) (ctrl : Option (BitVec 32)) (reg : WbReg) (addr : Addr) :
    WbReg × Option Error :=
  match ctrl with
  | none => (reg, some .fault)
  | some ctrl =>
    let value := writeWbReg fault.value reg.value (wordAddr addr)
    if value != wordAddr addr then ({ reg with value := value }, some .fault)
    else
      let control := writeWbReg fault.control reg.control ctrl
      (⟨value, control⟩, if control != ctrl then some .fault else none)

/-- The control word of a type of watchpoint. -/
def watchCtrl : BpType → Option (BitVec 32)
  | .writeWatchpoint => some 0x1f7
  | .readWatchpoint => some 0x1ef
  | .accessWatchpoint => some 0x1ff
  | _ => none

/-- The control word of a breakpoint. -/
def breakCtrl (_ : BpType) : Option (BitVec 32) := some 0x1e7

/-- `arm_uninstall_hw_breakpoint` -/
def armUninstallHwBreakpoint : WbReg := ⟨0, 0⟩

/-! ## Setting and removing an entry -/

def Bkpt.isSetAt {ρ : Type} (addr : Addr) (e : Bkpt ρ) : Bool :=
  e.state == .set && e.bptAddr == addr

/-- An address that is set stays; another one takes the first removed entry, else the first
undefined one. -/
def setEntry {ρ : Type} (t : List (Bkpt ρ)) (addr : Addr) (fill : Bkpt ρ → Bkpt ρ) :
    Option (List (Bkpt ρ)) :=
  if t.any (Bkpt.isSetAt addr) then some t
  else match modifyFirst (fun _ e => e.state == .removed) fill 0 t with
    | some t' => some t'
    | none => modifyFirst (fun _ e => e.state == .undefined) fill 0 t

def Bkpt.remove {ρ : Type} (e : Bkpt ρ) : Bkpt ρ := { e with state := .removed }

namespace Stub

/-- The breakpoint is written and taken back, with `tmp_variable` for the instruction. -/
def gdbValidateBreakAddress (s : Stub) (f : Faults) (addr : Addr) : Mem × Option Error :=
  match armArchSetSwBreakpoint f.tmpSave f.tmpInstall s.mem addr 0 fun _ => 0 with
  | (mem, _, some err) => (mem, some err)
  | (mem, tmp, none) => armArchRemoveSwBreakpoint f.tmpRestore mem addr tmp

/-- The second component is whether the function returns 0. -/
def gdbSetSwBreak (s : Stub) (f : Faults) (addr : Addr) (length : BitVec 32) : Stub × Bool :=
  match s.gdbValidateBreakAddress f addr with
  | (mem, some _) => ({ s with mem := mem }, false)
  | (mem, none) =>
    match setEntry s.gdbSwBreak addr fun e =>
      { e with state := .set, type := .breakpoint, bptAddr := addr, bptLen := length } with
    | some t => ({ s with mem := mem, gdbSwBreak := t }, true)
    | none => ({ s with mem := mem }, false)

def gdbRemoveSwBreak (s : Stub) (addr : Addr) : Stub × Bool :=
  match modifyFirst (fun _ e => e.isSetAt addr) Bkpt.remove 0 s.gdbSwBreak with
  | some t => ({ s with gdbSwBreak := t }, true)
  | none => (s, false)

def gdbSetHwBreak (s : Stub) (addr : Addr) : Stub × Bool :=
  match setEntry s.gdbHwBreak addr fun e =>
    { e with state := .set, type := .hardwareBreakpoint, bptAddr := addr } with
  | some t => ({ s with gdbHwBreak := t }, true)
  | none => (s, false)

def gdbRemoveHwBreak (s : Stub) (addr : Addr) : Stub × Bool :=
  match modifyFirst (fun _ e => e.isSetAt addr) Bkpt.remove 0 s.gdbHwBreak with
  | some t => ({ s with gdbHwBreak := t }, true)
  | none => (s, false)

def gdbSetHwWatch (s : Stub) (addr : Addr) (type : BpType) : Stub × Bool :=
  match setEntry s.gdbHwWatch addr fun e =>
    { e with state := .set, type := type, bptAddr := addr } with
  | some t => ({ s with gdbHwWatch := t }, true)
  | none => (s, false)

/-- `gdb_hw_break[i].bpt_addr == addr` -/
def hwBreakAt (s : Stub) (i : Nat) (addr : Addr) : Bool :=
  (s.gdbHwBreak[i]?).any fun e => e.bptAddr == addr

/-- The address is looked for in the table of the hardware breakpoints. -/
def gdbRemoveHwWatch (s : Stub) (addr : Addr) : Stub × Bool :=
  match modifyFirst (fun i e => e.state == .set && s.hwBreakAt i addr) Bkpt.remove 0
    s.gdbHwWatch with
  | some t => ({ s with gdbHwWatch := t }, true)
  | none => (s, false)

/-! ## The loops over the tables -/

/-- One round of `gdb_activate_sw_breakpoints`. -/
def activateSw (f : Faults) (mem : Mem) (i : Nat) (e : Bkpt Unit) :
    Mem × Bkpt Unit × Option Error :=
  match armArchSetSwBreakpoint (f.save i) (f.install i) mem e.bptAddr e.bptLen e.savedInstr with
  | (mem, saved, none) => (mem, { e with savedInstr := saved, state := .active }, none)
  | (mem, saved, some err) => (mem, { e with savedInstr := saved }, some err)

/-- One round of `gdb_deactivate_sw_breakpoints`. -/
def deactivateSw (f : Faults) (mem : Mem) (i : Nat) (e : Bkpt Unit) :
    Mem × Bkpt Unit × Option Error :=
  match armArchRemoveSwBreakpoint (f.restore i) mem e.bptAddr e.savedInstr with
  | (mem, none) => (mem, { e with state := .set }, none)
  | (mem, some err) => (mem, e, some err)

/-- One round of `gdb_activate_hw_breakpoints` and of `gdb_activate_hw_watchpoints`. -/
def activateHw (ctrl : BpType → Option (BitVec 32)) (fault : Nat → RegFault) (_ : Unit) (i : Nat)
    (e : Bkpt WbReg) : Unit × Bkpt WbReg × Option Error :=
  match armInstall (fault i) (ctrl e.type) e.reg e.bptAddr with
  | (reg, none) => ((), { e with reg := reg, state := .active }, none)
  | (reg, some err) => ((), { e with reg := reg }, some err)

/-- One round of `gdb_deactivate_hw_breakpoints`. -/
def deactivateHwBreak (_ : Unit) (_ : Nat) (e : Bkpt WbReg) :
    Unit × Bkpt WbReg × Option Error :=
  ((), { e with reg := armUninstallHwBreakpoint, state := .set }, none)

/-- One round of `gdb_deactivate_hw_watchpoints`: `gdb_arch_remove_hw_watchpoint` calls
`set_hw_watchpoint`. -/
def deactivateHwWatch (fault : Nat → RegFault) (_ : Unit) (i : Nat) (e : Bkpt WbReg) :
    Unit × Bkpt WbReg × Option Error :=
  match armInstall (fault i) (watchCtrl e.type) e.reg e.bptAddr with
  | (reg, none) => ((), { e with reg := reg, state := .set }, none)
  | (reg, some err) => ((), { e with reg := reg }, some err)

def isSet {ρ : Type} (e : Bkpt ρ) : Bool := e.state == .set

def isActive {ρ : Type} (e : Bkpt ρ) : Bool := e.state == .active

/-- An error stops one of the loops only; the caller gets 0. The second component is whether
a software breakpoint has left its buffer. -/
def gdbActivateAllBreakWatchPoints (s : Stub) (f : Faults) : Stub × Option Error :=
  let sw := sweep isSet (activateSw f) s.mem 0 s.gdbSwBreak
  let hw := sweep isSet (activateHw breakCtrl f.hwBreak) () 0 s.gdbHwBreak
  let watch := sweep isSet (activateHw watchCtrl f.hwWatch) () 0 s.gdbHwWatch
  ({ s with mem := sw.1, gdbSwBreak := sw.2.1, gdbHwBreak := hw.2.1, gdbHwWatch := watch.2.1 },
    sw.2.2)

def gdbDeactivateAllBreakWatchPoints (s : Stub) (f : Faults) : Stub :=
  let sw := sweep isActive (deactivateSw f) s.mem 0 s.gdbSwBreak
  let hw := sweep isActive deactivateHwBreak () 0 s.gdbHwBreak
  let watch := sweep isActive (deactivateHwWatch f.hwWatch) () 0 s.gdbHwWatch
  { s with mem := sw.1, gdbSwBreak := sw.2.1, gdbHwBreak := hw.2.1, gdbHwWatch := watch.2.1 }

/-- A round of `remove_all_break_watch_points`: it makes an active entry inactive, goes on after an
error, and forgets the entry. -/
def removeEntry {σ ρ : Type} (deactivate : σ → Nat → Bkpt ρ → σ × Bkpt ρ × Option Error) (w : σ)
    (i : Nat) (e : Bkpt ρ) : σ × Bkpt ρ × Option Error :=
  bif isActive e then
    let r := deactivate w i e
    (r.1, { r.2.1 with state := .undefined }, none)
  else (w, { e with state := .undefined }, none)

def removeAllBreakWatchPoints (s : Stub) (f : Faults) : Stub :=
  let sw := sweep (fun _ => true) (removeEntry (deactivateSw f)) s.mem 0 s.gdbSwBreak
  let hw := sweep (fun _ => true) (removeEntry deactivateHwBreak) () 0 s.gdbHwBreak
  let watch := sweep (fun _ => true) (removeEntry (deactivateHwWatch f.hwWatch)) () 0 s.gdbHwWatch
  { s with mem := sw.1, gdbSwBreak := sw.2.1, gdbHwBreak := hw.2.1, gdbHwWatch := watch.2.1 }

end Stub

end Melis.Kgdb
