import Mathlib.Data.Int.NatAbs
import Melis.MultiConsole.RegistryLaw

/-!
# The output of the consoles

`cli_console_printf` formats into a buffer that all threads share, and hands it to
`cli_console_write` after it has released the lock. There each line feed gets a carriage return:
byte by byte on the serial port, in a translation buffer for the device of a console. The steps of
`console` are what a thread does between two operations on a lock.
-/

namespace Melis.MultiConsole

open Lib Function

deriving instance DecidableEq for State.Via

/-- `CLI_CONSOLE_DEBUG_BUF_SIZE` -/
abbrev cliConsoleDebugBufSize : Nat := 512

/-- `'\n'` -/
abbrev lineFeed : UInt8 := 10

/-- `'\r'` -/
abbrev carriageReturn : UInt8 := 13

/-! ## The bytes -/

/-- A line feed with its carriage return. -/
def polite (c : UInt8) : List UInt8 := if c = lineFeed then [carriageReturn, c] else [c]

/-- `vsnprintf` with the text it makes. A text of `2 ^ 31` bytes is an error. -/
def vsnprintf (buf : List UInt8) (size : Nat) (text : List UInt8) : List UInt8 × Int :=
  let put := text.take (size - 1) ++ [0]
  (put ++ buf.drop put.length, if text.length < 2 ^ 31 then text.length else -1)

/-- `cli_console_printf` under the lock: the buffer and `ret`. -/
def formatPrintf (buf text : List UInt8) : List UInt8 × Int :=
  let (buf, ret) := vsnprintf buf (cliConsoleDebugBufSize - 1) text
  (buf, if ret > cliConsoleDebugBufSize then cliConsoleDebugBufSize else ret)

/-- The loop of `uart_console_write`, with `rest` bytes to go. `none` is a read outside the buffer,
or an overflow of `i`. -/
def uartLoop (outputBuf : List UInt8) : Nat → Nat → List UInt8 → Option (List UInt8)
  | 0, _, sent => some sent
  | rest + 1, i, sent => do
    let c ← outputBuf[i]?
    if i + 1 < 2 ^ 31 then uartLoop outputBuf rest (i + 1) (sent ++ polite c) else none

/-- The first loop of `cli_console_write`. -/
def countLoop (inbuf : List UInt8) : Nat → Nat → Nat → Option Nat
  | 0, _, reNum => some reNum
  | size + 1, reIt, reNum => do
    let c ← inbuf[reIt]?
    countLoop inbuf size (reIt + 1) (if c = lineFeed then reNum + 1 else reNum)

/-- `outbuf[i++] = c` -/
def store (outbuf : List UInt8) (i : Nat) (c : UInt8) : Option (List UInt8) :=
  if i < outbuf.length ∧ i + 1 < 2 ^ 31 then some (outbuf.set i c) else none

/-- The loop of `new_line_format_write`. -/
def formatLoop (inbuf : List UInt8) : Nat → Nat → Nat → List UInt8 → Option (List UInt8)
  | 0, _, _, outbuf => some outbuf
  | size + 1, j, i, outbuf => do
    let c ← inbuf[j]?
    if c = lineFeed then do
      let outbuf ← store outbuf i carriageReturn
      let outbuf ← store outbuf (i + 1) c
      formatLoop inbuf size (j + 1) (i + 2) outbuf
    else do
      let outbuf ← store outbuf i c
      formatLoop inbuf size (j + 1) (i + 1) outbuf

/-- The `nbytes` bytes that a device is given. -/
def readBytes (buf : List UInt8) (nbytes : Nat) : Option (List UInt8) :=
  if nbytes ≤ buf.length then some (buf.take nbytes) else none

/-- What the device gets, and the result for what it answers, which is compared as unsigned. -/
def newLineFormatWrite (inbuf outbuf : List UInt8) (inputNbytes outputNbytes : Nat)
    (answer : Int) : Option (List UInt8 × Int) := do
  let outbuf ← formatLoop inbuf inputNbytes 0 0 outbuf
  let bytes ← readBytes outbuf outputNbytes
  return (bytes, if answer % 2 ^ 32 ≥ inputNbytes then inputNbytes else answer)

/-- `cli_console_write` under the lock of a console whose device has a write hook. `malloc` says
whether there is memory. A size that is negative as an `int` runs over the end. -/
def deviceWrite (inbuf : List UInt8) (nbytes : Nat) (malloc : Bool) (answer : Int) :
    Option (List UInt8 × Int) :=
  if nbytes < 2 ^ 31 then do
    let reNum ← countLoop inbuf nbytes 0 0
    if reNum + nbytes > 64 then
      if malloc then
        newLineFormatWrite inbuf (.replicate (reNum + nbytes) 0) nbytes (reNum + nbytes) answer
      else do
        let bytes ← readBytes inbuf nbytes
        return (bytes, answer)
    else newLineFormatWrite inbuf (.replicate 64 0) nbytes (reNum + nbytes) answer
  else none

/-- What is handed to the device, and `wbytes`. -/
def handOver (inbuf : List UInt8) (nbytes : Nat) (malloc : Bool) (answer : Int) :
    State.Via → Option (List UInt8 × Int)
  | .uart => (uartLoop inbuf nbytes 0 []).map fun sent => (sent, nbytes)
  | .device _ true => deviceWrite inbuf nbytes malloc answer
  | .device _ false => some ([], -1)

/-! ## The threads -/

/-- Who calls: in an interrupt or not, for which console, and the running task. -/
structure Caller where
  irq : Bool
  console : Option Nat
  cur : Nat
deriving DecidableEq

/-- A call that has not handed over its bytes. -/
structure Pending where
  caller : Caller
  /-- The buffer of the caller, or the shared one. -/
  buf : Option (List UInt8)
  nbytes : Nat
  /-- `ret` of `cli_console_printf`. -/
  ret : Option Int
  /-- `cli_console_check_is_in_list` is over; an interrupt goes without. -/
  checked : Bool
  /-- The text of the call itself. -/
  own : List UInt8
deriving DecidableEq

structure Output where
  via : State.Via
  bytes : List UInt8
  ret : Int
deriving DecidableEq

structure ConsoleState where
  cliConsoleDebugBuf : List UInt8
  pending : Nat → Option Pending
  output : List Output

inductive Step
  | printf (t : Nat) (caller : Caller) (text : List UInt8)
  | write (t : Nat) (caller : Caller) (buf : List UInt8)
  /-- `cli_console_check_is_in_list`, which takes the lock of the list. -/
  | check (t : Nat)
  | handOver (t : Nat) (malloc : Bool) (answer : Int)
deriving DecidableEq

namespace ConsoleState

variable (s : ConsoleState)

def inbuf (p : Pending) : List UInt8 := p.buf.getD s.cliConsoleDebugBuf

def setPending (t : Nat) (p : Option Pending) : ConsoleState :=
  { s with pending := update s.pending t p }

def cliConsolePrintf (t : Nat) (caller : Caller) (text : List UInt8) : ConsoleState :=
  let (buf, ret) := formatPrintf s.cliConsoleDebugBuf text
  { s with cliConsoleDebugBuf := buf }.setPending t (some {
    caller, buf := none, nbytes := (ret % 2 ^ 32).toNat, ret := some ret, checked := caller.irq,
    own := text.take cliConsoleDebugBufSize })

def cliConsoleWrite (t : Nat) (caller : Caller) (buf : List UInt8) : ConsoleState :=
  s.setPending t (some {
    caller, buf := some buf, nbytes := buf.length, ret := none, checked := caller.irq, own := buf })

/-- The consoles are those of `R`. -/
def next (R : State) : Step → Option ConsoleState
  | .printf t caller text =>
    if s.pending t = none then some (s.cliConsolePrintf t caller text) else none
  | .write t caller buf =>
    if s.pending t = none then some (s.cliConsoleWrite t caller buf) else none
  | .check t => do
    let p ← s.pending t
    if p.checked then none else some (s.setPending t (some { p with checked := true }))
  | .handOver t malloc answer => do
    let p ← s.pending t
    if p.checked then
      let via ← R.cliConsoleWrite p.caller.irq p.caller.console p.caller.cur
      let (bytes, wbytes) ← MultiConsole.handOver (s.inbuf p) p.nbytes malloc answer via
      let output := s.output ++ [⟨via, bytes, p.ret.getD wbytes⟩]
      return { s with output }.setPending t none
    else none

end ConsoleState

def console (R : State) : Machine ConsoleState Step := ⟨fun s => s.next R⟩

/-- No call is under way. -/
def quiet : ConsoleState := ⟨.replicate cliConsoleDebugBufSize 0, fun _ => none, []⟩

end Melis.MultiConsole
