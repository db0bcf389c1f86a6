import Mathlib.Data.List.Nodup
import Melis.Lib.Life
import Melis.Lib.Run

/-!
# The device manager

`devman.c` and `dev.c`: drivers register nodes under a class, clients open and
close them. A node that is unregistered while it is open stays in its class as a
dead one until the last handle is closed.

The heap hands out addresses. What `k_malloc`, `esKRNL_SemCreate` and a driver's
`Open` return is an argument of the call, `NULL` where they fail. The file system
is told of a node by calls of its own, which come before or after those here.
-/

namespace Melis.Deviceman

open Lib Function

abbrev Hdle := UInt32

abbrev NULL : Hdle := 0

inductive Status
  | DEV_STAT_INACTIVE
  | DEV_STAT_ACTIVE
  deriving DecidableEq, Repr

/-- `__DEV_CLASSNODE` -/
structure DevClassnode where
  name : String
  nodelist : List Hdle
  deriving DecidableEq, Repr

/-- `__DEV_NODE`; a class is known by its place in the list. -/
structure DevNode where
  classnode : Nat
  name : String
  opentimes : UInt32
  status : Status
  sem : Hdle
  hDev : Hdle
  deriving DecidableEq, Repr

/-- `__DEV_DEV` -/
structure DevDev where
  devnode : Hdle
  hDev : Hdle
  deriving DecidableEq, Repr

/-- What the heap, the drivers and the clients see of a node. -/
inductive Event
  | malloc
  | registered
  | unregistered
  | opened
  | closed
  | drvOpen (hDev : Hdle)
  | drvClose (hDev : Hdle)
  | free
  deriving DecidableEq, Repr

structure Devman where
  classes : List DevClassnode
  nodes : Hdle → Option DevNode
  devs : List (Hdle × DevDev)
  /-- The newest event first. -/
  log : List (Hdle × Event)

def DEV_CLASS_NOP : String := "NOP"

/-- Only `devclass_nop` is there. -/
def init : Devman where
  classes := [⟨DEV_CLASS_NOP, []⟩]
  nodes _ := none
  devs := []
  log := []

/-- The nodes of all classes. -/
def registry (classes : List DevClassnode) : List Hdle := classes.flatMap (·.nodelist)

def nodelist (classes : List DevClassnode) (classnode : Nat) : List Hdle :=
  (classes[classnode]?).elim [] (·.nodelist)

/-- To the rear of the list. -/
def link (classes : List DevClassnode) (classnode : Nat) (devnode : Hdle) : List DevClassnode :=
  classes.modify classnode fun c => { c with nodelist := c.nodelist ++ [devnode] }

def unlink (classes : List DevClassnode) (classnode : Nat) (pNode : Hdle) : List DevClassnode :=
  classes.modify classnode fun c => { c with nodelist := c.nodelist.erase pNode }

/-- Whether a node of the list has the name; `none` where the list leads to memory that is not
allocated. -/
def findNode (nodes : Hdle → Option DevNode) (name : String) : List Hdle → Option Bool
  | [] => some false
  | devnode :: next => do
    let n ← nodes devnode
    if n.name = name then some true else findNode nodes name next

/-- From step 2 on; `newclassflag` where the class is the last one and new. -/
def regNode (s : Devman) (classnode : Nat) (newclassflag : Bool) (name : String)
    (devnode sem : Hdle) : Option (Hdle × Devman) := do
  if ← findNode s.nodes name (nodelist s.classes classnode) then
    some (NULL, s)
  else if devnode = NULL then
    some (NULL, if newclassflag then { s with classes := s.classes.dropLast } else s)
  else
    let s := { s with
      nodes := update s.nodes devnode (some
        { classnode, name, opentimes := 0, status := .DEV_STAT_ACTIVE, sem, hDev := NULL })
      log := (devnode, .malloc) :: s.log }
    if sem = NULL then
      some (NULL, s)
    else
      some (devnode, { s with
        classes := link s.classes classnode devnode
        log := (devnode, .registered) :: s.log })

/-- `pend` tells whether `esKRNL_SemPend` gets the semaphore, `class_` whether there is memory
for a class. -/
def esDEV_DevReg (s : Devman) (classname name : String) (pend class_ : Bool)
    (devnode sem : Hdle) : Option (Hdle × Devman) :=
  if pend then
    match s.classes.findIdx? (·.name = classname) with
    | some classnode => regNode s classnode false name devnode sem
    | none =>
      if class_ then
        regNode { s with classes := s.classes ++ [⟨classname, []⟩] } s.classes.length true name
          devnode sem
      else
        some (NULL, s)
  else
    some (NULL, s)

def EPDK_OK : Int := 0

def EPDK_FAIL : Int := -1

/-- Takes a node that is not open out of its class and frees it; `none` where it is not there. -/
def release (s : Devman) (hNode : Hdle) (classnode : Nat) : Option Devman :=
  if hNode ∈ nodelist s.classes classnode then
    some { s with
      classes := unlink s.classes classnode hNode
      nodes := update s.nodes hNode none
      log := (hNode, .free) :: s.log }
  else
    none

def esDEV_DevUnreg (s : Devman) (hNode : Hdle) (pend : Bool) : Option (Int × Devman) :=
  if pend then do
    let pNode ← s.nodes hNode
    if pNode.opentimes = 0 then
      let s := { s with log := (hNode, .unregistered) :: s.log }
      match release s hNode pNode.classnode with
      | none => some (EPDK_FAIL, s)
      | some s => some (EPDK_OK, s)
    else
      some (EPDK_OK, { s with
        nodes := update s.nodes hNode (some { pNode with status := .DEV_STAT_INACTIVE })
        log := (hNode, .unregistered) :: (hNode, .drvClose pNode.hDev) :: s.log })
  else
    some (EPDK_FAIL, s)

/-- `drv` is what the driver returns, if it is asked, and `pDev` what `k_malloc` does. -/
def esDEV_Open (s : Devman) (hNode drv pDev : Hdle) : Option (Hdle × Devman) := do
  let pNode ← s.nodes hNode
  if pNode.status = .DEV_STAT_INACTIVE then
    some (NULL, s)
  else if pNode.opentimes = 0 ∧ drv = NULL then
    some (NULL, s)
  else
    let hDev := if pNode.opentimes = 0 then drv else pNode.hDev
    let log := if pNode.opentimes = 0 then (hNode, .drvOpen drv) :: s.log else s.log
    if pDev = NULL then
      some (NULL, { s with nodes := update s.nodes hNode (some { pNode with hDev }), log })
    else
      some (pDev, { s with
        nodes := update s.nodes hNode
          (some { pNode with hDev, opentimes := pNode.opentimes + 1 })
        devs := (pDev, ⟨hNode, hDev⟩) :: s.devs
        log := (hNode, .opened) :: log })

/-- The memory of the handle is freed unless the node is to be released and is not in its class. -/
def esDEV_Close (s : Devman) (hDev : Hdle) : Option (Int × Devman) := do
  let pDev ← s.devs.lookup hDev
  let pNode ← s.nodes pDev.devnode
  let opentimes := if pNode.opentimes = 0 then 0 else pNode.opentimes - 1
  let s := { s with
    nodes := update s.nodes pDev.devnode (some { pNode with opentimes })
    log := (pDev.devnode, .closed) :: s.log }
  let freed (s : Devman) : Int × Devman :=
    (EPDK_OK, { s with devs := s.devs.filter (·.1 ≠ hDev) })
  if opentimes = 0 then
    match pNode.status with
    | .DEV_STAT_INACTIVE =>
      match release s pDev.devnode pNode.classnode with
      | none => some (EPDK_FAIL, s)
      | some s => some (freed s)
    | .DEV_STAT_ACTIVE =>
      -- that the driver reports a failure changes nothing
      some (freed { s with log := (pDev.devnode, .drvClose pNode.hDev) :: s.log })
  else
    some (freed s)

/-- The calls of drivers and clients, with what they are given by the kernel. -/
inductive Call
  | reg (classname name : String) (pend class_ : Bool) (devnode sem : Hdle)
  | unreg (hNode : Hdle) (pend : Bool)
  | open_ (hNode drv pDev : Hdle)
  | close (hDev : Hdle)
  deriving DecidableEq, Repr

/-- `none` where memory is used that is not allocated. -/
def devman : Machine Devman Call where
  next s
    | .reg classname name pend class_ devnode sem =>
      (esDEV_DevReg s classname name pend class_ devnode sem).map (·.2)
    | .unreg hNode pend => (esDEV_DevUnreg s hNode pend).map (·.2)
    | .open_ hNode drv pDev => (esDEV_Open s hNode drv pDev).map (·.2)
    | .close hDev => (esDEV_Close s hDev).map (·.2)

/-! ## What a node goes through -/

/-- A node that is registered has a number of handles; it is dead once it is unregistered, and
its driver may be open. -/
inductive Life
  | absent
  | allocated
  | node (handles : Nat) (dead : Bool) (drv : Option Hdle)
  deriving DecidableEq, Repr

/-- The driver's `Open` and `Close` alternate, and memory is freed only after it was allocated
and nobody uses the node. -/
def Life.next : Life → Event → Option Life
  | absent, .malloc => some allocated
  | allocated, .registered => some (node 0 false none)
  | node n false none, .drvOpen h => some (node n false (some h))
  | node n false drv, .opened => some (node (n + 1) false drv)
  | node (n + 1) dead drv, .closed => some (node n dead drv)
  | node n dead (some h), .drvClose h' => if h' = h then some (node n dead none) else none
  | node n false drv, .unregistered => some (node n true drv)
  | node 0 true none, .free => some absent
  | _, _ => none

def Life.Registered : Life → Prop
  | node _ _ _ => True
  | _ => False

/-- It is not unregistered. -/
def Life.Alive : Life → Prop
  | node _ dead _ => dead = false
  | _ => False

def Life.handles : Life → Nat
  | node n _ _ => n
  | _ => 0

/-- Between two calls: the driver is open just if there are handles and the node is not dead,
and a dead node has handles; no memory is left that nobody knows. -/
def Life.Settled : Life → Prop
  | absent => True
  | allocated => False
  | node n dead drv => (drv.isSome ↔ dead = false ∧ 0 < n) ∧ (dead → 0 < n)

def nodeLife (log : List (Hdle × Event)) (hNode : Hdle) : Option Life :=
  life Life.next .absent log hNode

/-- The handles of a node. -/
def handlesOf (s : Devman) (hNode : Hdle) : Nat := s.devs.countP (·.2.devnode = hNode)

/-- The registry lists the nodes that are registered and not yet released, each once; a node
counts its handles; its driver and its memory are used as its life allows. -/
def Sound (s : Devman) : Prop :=
  (registry s.classes).Nodup ∧ ∀ a, ∃ l, nodeLife s.log a = some l ∧ l.Settled ∧
    (a ∈ registry s.classes ↔ l.Registered) ∧ handlesOf s a = l.handles ∧
    (l.Registered → ∃ n, s.nodes a = some n ∧ n.opentimes.toNat = l.handles)

/-- A driver that is refused leaves the registry as it was. -/
def RegOk (s : Devman) (c : Call) (s' : Devman) : Prop :=
  match c with
  | .reg classname name pend class_ devnode sem =>
    esDEV_DevReg s classname name pend class_ devnode sem = some (NULL, s') →
      s'.classes = s.classes
  | _ => True

/-- What clients and the heap promise: nodes and handles are used while they are there, a node
is unregistered once, and memory that is handed out is not in use. -/
def Legal (s : Devman) : Call → Prop
  | .reg _ _ _ _ devnode _ => devnode ≠ NULL → s.nodes devnode = none
  | .unreg hNode _ => ∃ l ∈ nodeLife s.log hNode, l.Alive
  | .open_ hNode _ pDev =>
    (∃ l ∈ nodeLife s.log hNode, l.Registered) ∧ (pDev ≠ NULL → pDev ∉ s.devs.map (·.1))
  | .close hDev => hDev ∈ s.devs.map (·.1)

/-- The class that a node is registered under, if there is memory for a new one. -/
def classFor (s : Devman) (classname : String) (class_ : Bool) : Option (List Hdle) :=
  match s.classes.findIdx? (·.name = classname) with
  | some classnode => some (nodelist s.classes classnode)
  | none => if class_ then some [] else none

/-- The semaphore of a new node is made, and there is memory for the handle whenever the driver
is opened for it. -/
def Undoable (s : Devman) : Call → Prop
  | .reg classname name pend class_ devnode sem =>
    pend → devnode ≠ NULL → sem = NULL →
      ∀ l ∈ classFor s classname class_, findNode s.nodes name l ≠ some false
  | .unreg _ _ => True
  | .open_ hNode drv pDev =>
    ∀ n ∈ s.nodes hNode, n.status = .DEV_STAT_ACTIVE → n.opentimes = 0 →
      drv ≠ NULL → pDev ≠ NULL
  | .close _ => True

instance : DecidablePred Life.Registered
  | .absent | .allocated => .isFalse id
  | .node .. => .isTrue trivial

instance : DecidablePred Life.Alive
  | .absent | .allocated => .isFalse id
  | .node _ dead _ => inferInstanceAs (Decidable (dead = false))

instance (s : Devman) : ∀ c, Decidable (Legal s c)
  | .reg .. => inferInstanceAs (Decidable (_ → _))
  | .unreg .. => inferInstanceAs (Decidable (∃ l ∈ _, Life.Alive l))
  | .open_ .. => inferInstanceAs (Decidable ((∃ l ∈ _, Life.Registered l) ∧ (_ → _)))
  | .close _ => inferInstanceAs (Decidable (_ ∈ _))

instance (s : Devman) : ∀ c, Decidable (Undoable s c)
  | .reg .. => inferInstanceAs (Decidable (_ → _ → _ → ∀ l ∈ _, _ ≠ _))
  | .unreg .. => .isTrue trivial
  | .open_ .. => inferInstanceAs (Decidable (∀ n ∈ _, _ → _ → _ → _))
  | .close _ => .isTrue trivial

end Melis.Deviceman
