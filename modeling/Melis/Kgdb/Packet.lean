import Melis.Kgdb.Breakpoint
import Melis.Lib.Run

/-!
# A debugging session

`subsys/aw/kgdb/packet.c` and `gdb_arch_handle_exception` of `arch/arm/arm_stub.c`:
a stop takes the breakpoints out, and each packet of the debugger then works on
the tables, until one lets the target run. The memory and register packets are
left out. Beside the stub, a `Session` has what the debugger has set and not
removed (`Asked`), and the bytes of the program without breakpoints.
-/

namespace Melis.Kgdb

open Lib Function

/-! ## The text of a packet -/

def hex (ch : Char) : Option Nat :=
  if 'a' ≤ ch ∧ ch ≤ 'f' then some (ch.toNat - 'a'.toNat + 10)
  else if '0' ≤ ch ∧ ch ≤ '9' then some (ch.toNat - '0'.toNat)
  else if 'A' ≤ ch ∧ ch ≤ 'F' then some (ch.toNat - 'A'.toNat + 10)
  else none

/-- The loop of `gdb_hex2long`: the number of digits, the value and the rest of the text. -/
def hexLoop : Nat → BitVec 32 → List Char → Nat × BitVec 32 × List Char
  | num, val, [] => (num, val, [])
  | num, val, ch :: ptr =>
    match hex ch with
    | none => (num, val, ch :: ptr)
    | some digit => hexLoop (num + 1) (val <<< 4 ||| BitVec.ofNat 32 digit) ptr

def gdbHex2long : List Char → Nat × BitVec 32 × List Char
  | '-' :: ptr =>
    let r := hexLoop 0 0 ptr
    (r.1, -r.2.1, r.2.2)
  | ptr => hexLoop 0 0 ptr

/-- What `gdb_cmd_break` calls. -/
inductive Request
  | setSwBreak (addr : Addr) (length : BitVec 32)
  | removeSwBreak (addr : Addr)
  | setHwBreak (addr : Addr)
  | removeHwBreak (addr : Addr)
  | setHwWatch (addr : Addr) (type : BpType)
  | removeHwWatch (addr : Addr)
  deriving DecidableEq, Repr

inductive BreakCmd
  | unsupported
  | malformed
  | nothing
  | request (r : Request)
  deriving DecidableEq, Repr

/-- `*bpt_type - '0'` as a type of watchpoint. -/
def watchType (bptType : Char) : BpType :=
  if bptType = '2' then .writeWatchpoint
  else if bptType = '3' then .readWatchpoint
  else .accessWatchpoint

/-- The cascade at the end of `gdb_cmd_break`. -/
def pickRequest (cmd bptType : Char) (addr : Addr) (length : BitVec 32) : BreakCmd :=
  if cmd = 'Z' ∧ bptType = '0' then .request (.setSwBreak addr length)
  else if cmd = 'z' ∧ bptType = '0' then .request (.removeSwBreak addr)
  else if cmd = 'Z' ∧ bptType = '1' then .request (.setHwBreak addr)
  else if cmd = 'z' ∧ bptType = '1' then .request (.removeHwBreak addr)
  else if cmd = 'Z' ∧ '1' < bptType then .request (.setHwWatch addr (watchType bptType))
  else if cmd = 'z' ∧ '1' < bptType then .request (.removeHwWatch addr)
  else .nothing

/-- The text ends with a NUL. -/
def breakCmd (text : List Char) : BreakCmd :=
  let bptType := text.getD 1 '\x00'
  if '4' < bptType then .unsupported
  else match text.drop 2 with
    | ',' :: ptr =>
      let (num, addr, ptr) := gdbHex2long ptr
      if num = 0 then .malformed
      else match ptr with
        | ',' :: ptr =>
          let (num, length, _) := gdbHex2long ptr
          if num = 0 then .malformed
          else pickRequest (text.headD '\x00') bptType addr length
        | _ => .malformed
    | _ => .malformed

/-- The cases of `process_packet` and of `gdb_cmd_exception_pass`. -/
inductive PacketKind
  | brk
  | cont
  | step
  | detach
  | kill
  | passException
  | passDetach
  | passOther
  | memory
  | other
  deriving DecidableEq, Repr

def packetKind (text : List Char) : PacketKind :=
  match text.headD '\x00' with
  | 'Z' | 'z' => .brk
  | 'c' => .cont
  | 's' => .step
  | 'D' => .detach
  | 'k' => .kill
  | 'M' | 'X' => .memory
  | 'C' =>
    if text.getD 1 '\x00' = '0' ∧ text.getD 2 '\x00' = '9' then .passException
    else if text.getD 1 '\x00' = '1' ∧ text.getD 2 '\x00' = '5' then .passDetach
    else .passOther
  | _ => .other

inductive Reply
  | ok
  | error
  | none
  | other
  deriving DecidableEq, Repr

/-! ## One packet -/

namespace Stub

/-- The error of the call that a request comes to, as whether it is 0. -/
def perform (s : Stub) (f : Faults) : Request → Stub × Bool
  | .setSwBreak addr length => s.gdbSetSwBreak f addr length
  | .removeSwBreak addr => s.gdbRemoveSwBreak addr
  | .setHwBreak addr => s.gdbSetHwBreak addr
  | .removeHwBreak addr => s.gdbRemoveHwBreak addr
  | .setHwWatch addr type => s.gdbSetHwWatch addr type
  | .removeHwWatch addr => s.gdbRemoveHwWatch addr

def gdbCmdBreak (s : Stub) (f : Faults) (text : List Char) : Stub × Reply :=
  match breakCmd text with
  | .unsupported => (s, .none)
  | .malformed => (s, .error)
  | .nothing => (s, .ok)
  | .request r => ((s.perform f r).1, bif (s.perform f r).2 then .ok else .error)

/-- The single step that is under way is cleared. -/
def clearStep (s : Stub) : Stub :=
  if s.stepAddr != 0 then
    let s₁ := (s.gdbRemoveSwBreak s.stepAddr).1
    let s₂ := (s₁.gdbRemoveHwBreak s.stepAddr).1
    { (s₂.gdbRemoveHwWatch s.stepAddr).1 with stepAddr := 0 }
  else s

/-- The breakpoint of a single step, whose address and length are read off the instructions at the
program counter. The result of `gdb_set_sw_break` is dropped by the caller. -/
def setStep (s : Stub) (f : Faults) (step : Addr × BitVec 32) : Stub × Bool :=
  { s with stepAddr := step.1 }.gdbSetSwBreak f step.1 step.2

def gdbArchHandleException (s : Stub) (f : Faults) (text : List Char) (step : Addr × BitVec 32) :
    Stub :=
  match packetKind text with
  | .step => (s.clearStep.setStep f step).1
  | _ => s.clearStep

/-- A software breakpoint that leaves its buffer has no next state, nor does a memory packet. The
last component is whether the target runs again. -/
def processPacket (s : Stub) (f : Faults) (text : List Char) (step : Addr × BitVec 32) :
    Option (Stub × Reply × Bool) :=
  let s := s.gdbArchHandleException f text step
  match packetKind text with
  | .brk =>
    let r := s.gdbCmdBreak f text
    some (r.1, r.2, false)
  | .cont | .step =>
    match s.gdbActivateAllBreakWatchPoints f with
    | (_, some .overrun) => none
    | (s, _) => some (s, .none, true)
  | .detach => some (s.removeAllBreakWatchPoints f, .ok, true)
  | .kill => some (s.removeAllBreakWatchPoints f, .none, true)
  -- both of these go on in `gdb_cmd_break`, with another letter at the head of the buffer
  | .passException =>
    let r := s.gdbCmdBreak f ('c' :: text.tail)
    some (r.1, r.2, false)
  | .passDetach =>
    let s := (s.removeAllBreakWatchPoints f).clearStep.removeAllBreakWatchPoints f
    let r := s.gdbCmdBreak f ('D' :: text.tail)
    some (r.1, r.2, false)
  | .passOther => some (s, .error, false)
  | .memory => none
  | .other => some (s, .other, false)

end Stub

/-! ## The session -/

/-- The breakpoints and watchpoints that are set and not removed, and the address of the single
step that is under way. -/
structure Asked where
  sw : Addr → Option BpType
  hw : Addr → Option BpType
  watch : Addr → Option BpType
  stepping : Option Addr

namespace Asked

def nothing : Asked := ⟨fun _ => none, fun _ => none, fun _ => none, none⟩

/-- The software breakpoints, with that of the single step. -/
def swAll (a : Asked) (addr : Addr) : Option BpType :=
  if a.stepping = some addr then some .breakpoint else a.sw addr

/-- A breakpoint is set if the stub says so. -/
def request (a : Asked) (ok : Bool) : Request → Asked
  | .setSwBreak addr _ => bif ok then { a with sw := update a.sw addr (some .breakpoint) } else a
  | .removeSwBreak addr => { a with sw := update a.sw addr none }
  | .setHwBreak addr =>
    bif ok then { a with hw := update a.hw addr (some .hardwareBreakpoint) } else a
  | .removeHwBreak addr => { a with hw := update a.hw addr none }
  | .setHwWatch addr type => bif ok then { a with watch := update a.watch addr (some type) } else a
  | .removeHwWatch addr => { a with watch := update a.watch addr none }

end Asked

/-- `program` is the memory without breakpoints, `faults` what failed when the target was last let
run. -/
structure Session where
  stub : Stub
  running : Bool
  program : Mem
  asked : Asked
  faults : Faults
  reply : Reply

inductive Input
  /-- An exception stops the target. -/
  | stop (f : Faults)
  /-- A packet comes, with where a single step would lead to. -/
  | packet (text : List Char) (step : Addr × BitVec 32) (f : Faults)

namespace Session

/-- What is set after a packet. -/
def askedAfter (s : Session) (f : Faults) (text : List Char) (step : Addr × BitVec 32)
    (reply : Reply) : Asked :=
  let asked := { s.asked with stepping := none }
  match packetKind text with
  | .brk =>
    match breakCmd text with
    | .request r => asked.request (reply == .ok) r
    | _ => asked
  | .step =>
    { asked with stepping := bif (s.stub.clearStep.setStep f step).2 then some step.1 else none }
  | .detach | .kill | .passDetach => .nothing
  | _ => asked

def next (s : Session) : Input → Option Session
  | .stop f =>
    bif s.running then
      some { s with stub := s.stub.gdbDeactivateAllBreakWatchPoints f, running := false }
    else none
  | .packet text step f =>
    bif s.running then none
    else (s.stub.processPacket f text step).map fun (stub, reply, resumed) =>
      { s with
        stub := stub
        running := resumed
        asked := s.askedAfter f text step reply
        faults := f
        reply := reply }

/-- `GDB_MAX_SW_BREAKPOINTS` -/
def gdbMaxSwBreakpoints : Nat := 20

def blank {ρ : Type} (reg : ρ) : Bkpt ρ where
  bptAddr := 0
  savedInstr _ := 0
  bptLen := 0
  type := .breakpoint
  state := .undefined
  reg := reg

/-- The session begins with the target running and the registers cleared, on hardware with `brp`
pairs of registers for breakpoints and `wrp` for watchpoints. -/
def start (program : Mem) (brp wrp : Nat) : Session where
  stub :=
    { mem := program
      gdbSwBreak := .replicate gdbMaxSwBreakpoints (blank ())
      gdbHwBreak := .replicate brp (blank ⟨0, 0⟩)
      gdbHwWatch := .replicate wrp (blank ⟨0, 0⟩)
      stepAddr := 0 }
  running := true
  program := program
  asked := .nothing
  faults := .none
  reply := .none

def machine : Machine Session Input := ⟨Session.next⟩

end Session

end Melis.Kgdb
