import Melis.Lib.ListHead
import Melis.Lib.Run

/-!
# console.c and porting.c

Consoles, the global list they are registered on, and the list of the tasks of
each console. A console is a number, `cli_uart_console` being 0; an allocation
gives a number that was not used before. `none` is a call that does not come
back: it reads what is freed, follows a null pointer, or goes round a list for
ever. Console arguments are not null: with a null one the calls return at once.
-/

namespace Melis.MultiConsole

open Lib Function

/-- The `struct list_head`s. -/
inductive Cell
  | gCliConsolelist
  | iList (console : Nat)
  | taskList (console : Nat)
  | taskListNode (wraper : Nat)
deriving DecidableEq

namespace Cell

/-- `list_entry(pos, cli_console, i_list)`. -/
def console : Cell → Option Nat
  | iList c => some c
  | _ => none

/-- `list_entry(pos, wraper_task, task_list_node)`. -/
def wraper : Cell → Option Nat
  | taskListNode n => some n
  | _ => none

end Cell

/-- The hooks a device has. -/
structure DeviceConsole where
  read : Bool
  write : Bool
  init : Bool
  deinit : Bool

structure CliConsole where
  devConsole : DeviceConsole
  name : List UInt8
  initFlag : Bool
  exitFlag : Bool
  alive : Bool

/-- The consoles and the nodes in memory, and the console each task has in its `user_data`. Beside
them stands what has happened: which consoles were registered and not removed since, which had
their deinit after their last init, and how often a node was freed. -/
structure State where
  consoles : Nat → Option CliConsole
  consoleNum : Nat
  wrapers : Nat → Option Nat
  wraperNum : Nat
  links : Links Cell
  userData : Nat → Option Nat
  taskNum : Nat
  globalConsole : Option Nat
  registered : Nat → Bool
  closed : Nat → Bool
  frees : Nat → Nat

def cliUartConsole : Nat := 0

def cliConsoleMaxNameLen : Nat := 32

def uartConsole : DeviceConsole := ⟨true, true, true, true⟩

/-- One task is running and no console has been registered. -/
def start : State where
  consoles := update (fun _ => none) cliUartConsole
    (some ⟨uartConsole, [99, 108, 105, 45, 117, 97, 114, 116], false, false, true⟩)
  consoleNum := 1
  wrapers := fun _ => none
  wraperNum := 0
  links := ⟨update (fun _ => none) .gCliConsolelist (some .gCliConsolelist),
    update (fun _ => none) .gCliConsolelist (some .gCliConsolelist)⟩
  userData := fun _ => none
  taskNum := 1
  globalConsole := none
  registered := fun _ => false
  closed := fun _ => false
  frees := fun _ => 0

namespace State

/-! ## The list of consoles -/

def consoleAt (s : State) (pos : Cell) : Option CliConsole := pos.console.bind s.consoles

def setConsole (s : State) (c : Nat) (console : CliConsole) : State :=
  { s with consoles := update s.consoles c (some console) }

def registerCliConsoleToList (c : Nat) (s : State) : Option State :=
  ((s.links.initListHead (.iList c)).listAdd (.iList c) .gCliConsolelist).map fun links =>
    { s with links := links, registered := update s.registered c true }

/-- The loop over the list of consoles, up to the first that satisfies `p`. -/
def searchConsoles (s : State) (p : Cell → Option Bool) : Option (Option Cell) :=
  s.links.search .gCliConsolelist p (s.consoleNum + 1) (s.links.next .gCliConsolelist)

def consoleCells (s : State) : Option (List Cell) :=
  s.links.cells .gCliConsolelist (s.consoleNum + 1) (s.links.next .gCliConsolelist)

def removeCliConsoleFromList (c : Nat) (s : State) : Option State :=
  (s.searchConsoles fun pos => some (pos = .iList c)).bind fun found =>
    match found with
    | none => some { s with registered := update s.registered c false }
    | some pos => (s.links.listDel pos).map fun links =>
      { s with links := links, registered := update s.registered c false }

def lookupCliConsole (name : List UInt8) (s : State) : Option (Option Nat) :=
  (s.searchConsoles fun pos => (s.consoleAt pos).map fun tmp => tmp.name = name).map fun found =>
    found.bind Cell.console

def cliConsoleCheckIsInList (console : Option Nat) (s : State) : Option Bool :=
  match console with
  | none => some false
  | some c => s.consoleCells.map fun l => decide (.iList c ∈ l)

def getAliveConsoleNum (s : State) : Option Nat :=
  s.consoleCells.bind fun l => (l.mapM s.consoleAt).map fun consoles => consoles.countP (·.alive)

def getDefaultConsole (s : State) : Option (Option Nat) :=
  (s.consoles cliUartConsole).map fun console =>
    if console.exitFlag || !console.initFlag then none else some cliUartConsole

def getCurrentConsole (cur : Nat) (s : State) : Option (Option Nat) :=
  match s.globalConsole with
  | some console => some (some console)
  | none =>
    match s.userData cur with
    | none => s.getDefaultConsole
    | some c => (s.consoles c).bind fun console =>
      if !console.exitFlag && console.initFlag then some (some c) else s.getDefaultConsole

/-! ## Reading and writing -/

/-- Where the bytes go: to the serial port, or to the device of a console, if it has the hook. -/
inductive Via
  | uart
  | device (console : Nat) (called : Bool)

/-- `cli_console_read` and `cli_console_write` with the console they use. -/
def useConsole (hook : DeviceConsole → Bool) (s : State) : Option Nat → Option Via
  | none => some .uart
  | some c =>
    if c = cliUartConsole then some .uart
    else (s.consoles c).map fun console =>
      if console.exitFlag then .uart else .device c (hook console.devConsole)

def route (hook : DeviceConsole → Bool) (console : Option Nat) (cur : Nat) (s : State) :
    Option Via :=
  (s.cliConsoleCheckIsInList console).bind fun inList =>
    (if inList then some console else s.getCurrentConsole cur).bind fun console =>
      (if console = none then s.getCurrentConsole cur else some console).bind fun console =>
        s.useConsole hook console

def cliConsoleRead (console : Option Nat) (cur : Nat) (s : State) : Option Via :=
  s.route (·.read) console cur

def cliConsoleWrite (irq : Bool) (console : Option Nat) (cur : Nat) (s : State) : Option Via :=
  if irq then some .uart else s.route (·.write) console cur

/-! ## The tasks of a console -/

def wraperAt (s : State) (pos : Cell) : Option Nat := pos.wraper.bind s.wrapers

def freeWraper (s : State) (n : Nat) : State :=
  { s with wrapers := update s.wrapers n none, frees := update s.frees n (s.frees n + 1) }

/-- `malloc` says whether there is memory for the node. -/
def cliConsoleAddTaskListNode (c task : Nat) (malloc : Bool) (s : State) : Option State :=
  (s.consoles c).bind fun _ =>
    if malloc then
      let n := s.wraperNum
      ((s.links.initListHead (.taskListNode n)).listAdd (.taskListNode n) (.taskList c)).map
        fun links => { s with
          links := links, wrapers := update s.wrapers n (some task), wraperNum := n + 1 }
    else some s

/-- `list_del` and `free` of a node. -/
def dropWraper (s : State) (pos : Cell) : Option State :=
  (s.links.listDel pos).bind fun links =>
    pos.wraper.map fun n => { s with links := links }.freeWraper n

def cliConsoleRemoveTaskListNode (c task : Nat) (s : State) : Option State :=
  (s.consoles c).bind fun _ =>
    (s.links.search (.taskList c) (fun pos => (s.wraperAt pos).map fun tmp => tmp = task)
      (s.wraperNum + 1) (s.links.next (.taskList c))).bind fun found =>
        match found with
        | none => some s
        | some pos => s.dropWraper pos

/-- A task that has a console keeps it, and so does one that has none. -/
def cliTaskClearConsole (_task : Nat) (s : State) : State := s

/-- The loop of `cli_console_clear_task_list`. -/
def clearTaskList (c : Nat) : Nat → Option Cell → State → Option State
  | _, none, _ => none
  | 0, some _, _ => none
  | fuel + 1, some pos, s =>
    if pos = .taskList c then some s
    else (s.wraperAt pos).bind fun task =>
      ((s.cliTaskClearConsole task).dropWraper pos).bind fun s' =>
        clearTaskList c fuel (s.links.next pos) s'

def cliConsoleClearTaskList (c : Nat) (s : State) : Option State :=
  clearTaskList c (s.wraperNum + 1) (s.links.next (.taskList c)) s

/-- `cli_task_set_console` up to where the task gets its new console. -/
def leaveConsole (task : Nat) (s : State) : Option State :=
  match s.userData task with
  | none => some s
  | some lastConsole => s.cliConsoleRemoveTaskListNode lastConsole task

def cliTaskSetConsole (task : Nat) (console : Option Nat) (malloc : Bool) (s : State) :
    Option State :=
  (s.leaveConsole task).bind fun s =>
    let s := { s with userData := update s.userData task console }
    match console with
    | none => some s
    | some c => s.cliConsoleAddTaskListNode c task malloc

/-- A thread is made by the task `cur`: it gets a copy of the `user_data` of `cur`, and then
`task_inited_hook` runs. -/
def threadInit (cur : Nat) (malloc : Bool) (s : State) : Option State :=
  let thread := s.taskNum
  let s := { s with userData := update s.userData thread (s.userData cur), taskNum := thread + 1 }
  s.cliTaskSetConsole thread (s.userData cur) malloc

def taskDeleteHook (thread : Nat) (s : State) : Option State := s.cliTaskSetConsole thread none true

/-! ## The calls -/

/-- `hook` is what the init hook of the device returns. -/
def cliConsoleInit (c : Nat) (hook : Int) (s : State) : Option State :=
  (s.consoles c).bind fun console =>
    if console.initFlag then some s
    else
      let s : State := { s with links := s.links.initListHead (.taskList c) }
      (s.registerCliConsoleToList c).map fun s =>
        if console.devConsole.init ∧ hook = 1 then
          s.setConsole c { console with exitFlag := false, initFlag := true }
        else s

/-- `hook` is what the deinit hook of the device returns. -/
def cliConsoleDeinit (c : Nat) (hook : Int) (s : State) : Option State :=
  let s := if s.globalConsole = some c then { s with globalConsole := none } else s
  (s.consoles c).bind fun console =>
    if console.initFlag then
      ((s.setConsole c { console with exitFlag := true }).cliConsoleClearTaskList c).bind fun s =>
        (s.removeCliConsoleFromList c).map fun s =>
          if console.devConsole.deinit ∧ hook = 1 then
            s.setConsole c { console with exitFlag := true, initFlag := false }
          else s
    else some s

def cliConsoleCreate (devConsole : Option DeviceConsole) (name : List UInt8) (malloc : Bool)
    (s : State) : State :=
  match devConsole with
  | none => s
  | some devConsole =>
    if malloc then
      { s.setConsole s.consoleNum
          ⟨devConsole, name.take (cliConsoleMaxNameLen - 1), false, false, false⟩ with
        consoleNum := s.consoleNum + 1 }
    else s

def cliConsoleDestory (c : Nat) (s : State) : Option State :=
  (s.consoles c).map fun _ => { s with consoles := update s.consoles c none }

/-- `pthread` says whether `pthread_create` makes the thread. -/
def cliConsoleTaskCreate (c : Nat) (hook : Int) (pthread : Bool) (cur : Nat) (malloc : Bool)
    (s : State) : Option State :=
  (s.cliConsoleInit c hook).bind fun s =>
    (s.consoles c).bind fun console =>
      let s := s.setConsole c { console with alive := true }
      if pthread then s.threadInit cur malloc else some s

def cliConsoleTaskDestory (c : Nat) (hook : Int) (s : State) : Option State :=
  (s.consoles c).bind fun console =>
    ((s.setConsole c { console with exitFlag := true }).cliConsoleDeinit c hook).bind fun s =>
      (s.consoles c).map fun console => s.setConsole c { console with alive := false }

/-- `cli_task_get_console`. -/
def cliTaskGetConsole (task : Nat) (s : State) : Option Nat := s.userData task

def setGlobalConsole (console : Option Nat) (s : State) : State :=
  { s with globalConsole := console }

end State

/-- The calls, with what their surroundings answer. A thread takes a console when its shell starts,
`redirect` makes the console of a task the global one. -/
inductive Call
  | create (devConsole : Option DeviceConsole) (name : List UInt8) (malloc : Bool)
  | init (console : Nat) (hook : Int)
  | taskCreate (console : Nat) (hook : Int) (pthread : Bool) (cur : Nat) (malloc : Bool)
  | deinit (console : Nat) (hook : Int)
  | taskDestory (console : Nat) (hook : Int)
  | destory (console : Nat)
  | threadInit (cur : Nat) (malloc : Bool)
  | threadDelete (task : Nat)
  | setConsole (task console : Nat) (malloc : Bool)
  | redirectAll (cur : Nat)
  | redirectStop

def State.setClosed (s : State) (c : Nat) (b : Bool) : State :=
  { s with closed := update s.closed c b }

def calls : Machine State Call where
  next s
    | .create devConsole name malloc => some (s.cliConsoleCreate devConsole name malloc)
    | .init c hook => (s.setClosed c false).cliConsoleInit c hook
    | .taskCreate c hook pthread cur malloc =>
      (s.setClosed c false).cliConsoleTaskCreate c hook pthread cur malloc
    | .deinit c hook => (s.setClosed c true).cliConsoleDeinit c hook
    | .taskDestory c hook => (s.setClosed c true).cliConsoleTaskDestory c hook
    | .destory c => s.cliConsoleDestory c
    | .threadInit cur malloc => s.threadInit cur malloc
    | .threadDelete task => s.taskDeleteHook task
    | .setConsole task c malloc => s.cliTaskSetConsole task (some c) malloc
    | .redirectAll cur => some (s.setGlobalConsole (s.cliTaskGetConsole cur))
    | .redirectStop => some (s.setGlobalConsole none)

end Melis.MultiConsole
