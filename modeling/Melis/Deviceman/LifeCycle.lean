import Melis.Deviceman.Devman
import Melis.Lib.C

/-!
# The life cycle of nodes

An invariant of the device manager that every call keeps, unless a driver that
is open is forgotten or a node is allocated in vain (`Undoable`).
-/

namespace Melis.Deviceman

open Lib Function

variable {s s' : Devman} {classes : List DevClassnode} {i j : Nat} {a b : Hdle} {l : Life}

/-! ## Classes -/

theorem nodelist_modify (f : DevClassnode → DevClassnode) (hi : i < classes.length) :
    nodelist (classes.modify i f) i = (f classes[i]).nodelist := by
  simp [nodelist, List.getElem?_modify, hi]

theorem nodelist_modify_of_ne (f : DevClassnode → DevClassnode) (h : i ≠ j) :
    nodelist (classes.modify i f) j = nodelist classes j := by
  simp [nodelist, List.getElem?_modify, h]

theorem nodelist_eq (hi : i < classes.length) : nodelist classes i = classes[i].nodelist := by
  simp [nodelist, hi]

theorem lt_of_mem_nodelist (h : a ∈ nodelist classes i) : i < classes.length := by
  by_contra hi
  simp [nodelist, List.getElem?_eq_none (Nat.not_lt.1 hi)] at h

theorem nodelist_newClass (classes : List DevClassnode) (classname : String) :
    nodelist (classes ++ [⟨classname, []⟩]) j = nodelist classes j := by
  rcases Nat.lt_trichotomy j classes.length with h | rfl | h
  · simp [nodelist, List.getElem?_append_left h]
  · simp [nodelist]
  · have hlen : (classes ++ [(⟨classname, []⟩ : DevClassnode)]).length ≤ j := by
      rw [List.length_append]
      exact h
    rw [nodelist, nodelist, List.getElem?_eq_none hlen, List.getElem?_eq_none (Nat.le_of_lt h)]

theorem mem_nodelist_link (hi : i < classes.length) :
    b ∈ nodelist (link classes i a) j ↔ b ∈ nodelist classes j ∨ i = j ∧ b = a := by
  by_cases h : i = j
  · subst h
    rw [link, nodelist_modify _ hi, nodelist_eq hi]
    simp
  · rw [link, nodelist_modify_of_ne _ h]
    simp [h]

theorem mem_nodelist_unlink_of_ne (h : b ≠ a) :
    b ∈ nodelist (unlink classes i a) j ↔ b ∈ nodelist classes j := by
  by_cases hij : i = j
  · subst hij
    by_cases hi : i < classes.length
    · rw [unlink, nodelist_modify _ hi, nodelist_eq hi]
      exact List.mem_erase_of_ne h
    · rw [unlink, List.modify_eq_self (Nat.not_lt.1 hi)]
  · rw [unlink, nodelist_modify_of_ne _ hij]

theorem mem_registry : a ∈ registry classes ↔ ∃ i, a ∈ nodelist classes i := by
  rw [registry, List.mem_flatMap]
  constructor
  · rintro ⟨c, hc, ha⟩
    obtain ⟨i, hi, rfl⟩ := List.mem_iff_getElem.1 hc
    exact ⟨i, by rwa [nodelist_eq hi]⟩
  · rintro ⟨i, ha⟩
    have hi := lt_of_mem_nodelist ha
    rw [nodelist_eq hi] at ha
    exact ⟨classes[i], List.getElem_mem hi, ha⟩

theorem registry_link (hi : i < classes.length) :
    (registry (link classes i a)).Perm (a :: registry classes) := by
  induction classes generalizing i with
  | nil => exact absurd hi (Nat.not_lt_zero i)
  | cons c classes ih =>
    cases i with
    | zero =>
      simp only [link, List.modify_zero_cons, registry, List.flatMap_cons, List.append_assoc]
      exact List.perm_middle
    | succ i =>
      have hlink := ih (Nat.lt_of_succ_lt_succ hi)
      simp only [link, List.modify_succ_cons, registry, List.flatMap_cons] at hlink ⊢
      exact (hlink.append_left c.nodelist).trans List.perm_middle

theorem registry_unlink (h : a ∈ nodelist classes i) :
    (a :: registry (unlink classes i a)).Perm (registry classes) := by
  induction classes generalizing i with
  | nil => exact absurd h List.not_mem_nil
  | cons c classes ih =>
    cases i with
    | zero =>
      simp only [unlink, List.modify_zero_cons, registry, List.flatMap_cons]
      exact ((List.perm_cons_erase h).symm.append_right _)
    | succ i =>
      have hunlink := ih (i := i) h
      simp only [unlink, List.modify_succ_cons, registry, List.flatMap_cons] at hunlink ⊢
      exact List.perm_middle.symm.trans (hunlink.append_left c.nodelist)

/-! ## Lives -/

section Next

variable {n : Nat} {dead : Bool} {drv : Option Hdle} {h : Hdle}

theorem Life.next_opened : next (node n false drv) .opened = some (node (n + 1) false drv) := by
  cases n <;> cases drv <;> rfl

theorem Life.next_closed : next (node (n + 1) dead drv) .closed = some (node n dead drv) := by
  cases dead <;> cases drv <;> rfl

theorem Life.next_unregistered : next (node n false drv) .unregistered = some (node n true drv) := by
  cases n <;> cases drv <;> rfl

theorem Life.next_drvClose : next (node n dead (some h)) (.drvClose h) = some (node n dead none) := by
  cases n <;> cases dead <;> exact if_pos rfl

theorem exists_registered {o : Option Life} (h : ∃ l ∈ o, l.Registered) :
    ∃ n dead drv, o = some (.node n dead drv) := by
  obtain ⟨l, hl, hreg⟩ := h
  cases l with
  | node n dead drv => exact ⟨n, dead, drv, hl⟩
  | _ => exact hreg.elim

theorem exists_alive {o : Option Life} (h : ∃ l ∈ o, l.Alive) :
    ∃ n drv, o = some (.node n false drv) := by
  obtain ⟨l, hl, halive⟩ := h
  cases l with
  | node n dead drv =>
    cases halive
    exact ⟨n, drv, hl⟩
  | _ => exact halive.elim

end Next

/-! ## The invariant -/

/-- What the memory of a node holds in its life between two calls. -/
def Holds (s : Devman) (a : Hdle) : Life → Prop
  | .absent => s.nodes a = none ∧ ∀ i, a ∉ nodelist s.classes i
  | .allocated => False
  | .node n dead drv => ∃ d, s.nodes a = some d ∧ d.opentimes.toNat = n ∧
      d.status = (if dead then .DEV_STAT_INACTIVE else .DEV_STAT_ACTIVE) ∧
      drv = (if dead = false ∧ 0 < n then some d.hDev else none) ∧ (dead → 0 < n) ∧
      a ∈ nodelist s.classes d.classnode

/-- A node in its life. -/
structure Lives (s : Devman) (a : Hdle) (l : Life) : Prop where
  life : nodeLife s.log a = some l
  handles : handlesOf s a = l.handles
  holds : Holds s a l

structure Inv (s : Devman) : Prop where
  nodup : (registry s.classes).Nodup
  keys : (s.devs.map (·.1)).Nodup
  null : NULL ∉ s.devs.map (·.1)
  lives : ∀ a, ∃ l, Lives s a l

theorem inv_init : Inv init where
  nodup := List.nodup_nil
  keys := List.nodup_nil
  null := List.not_mem_nil
  lives a := by
    refine ⟨.absent, rfl, rfl, rfl, fun i => ?_⟩
    have hnil : nodelist init.classes i = [] := nodelist_newClass [] DEV_CLASS_NOP
    rw [hnil]
    exact List.not_mem_nil

theorem Lives.sound (h : Lives s a l) : l.Settled ∧ (a ∈ registry s.classes ↔ l.Registered) ∧
    (l.Registered → ∃ n, s.nodes a = some n ∧ n.opentimes.toNat = l.handles) := by
  rw [mem_registry]
  have hholds := h.holds
  cases l with
  | absent => exact ⟨trivial, ⟨fun ⟨i, hi⟩ => hholds.2 i hi, False.elim⟩, False.elim⟩
  | allocated => exact hholds.elim
  | node n dead drv =>
    obtain ⟨d, hd, hn, -, hdrv, hdead, hlist⟩ := hholds
    refine ⟨⟨?_, hdead⟩, iff_of_true ⟨_, hlist⟩ trivial, fun _ => ⟨d, hd, hn⟩⟩
    rw [hdrv]
    split <;> simp_all

theorem Inv.sound (h : Inv s) : Sound s := by
  refine ⟨h.nodup, fun a => ?_⟩
  obtain ⟨l, hl⟩ := h.lives a
  obtain ⟨hsettled, hmem, hn⟩ := hl.sound
  exact ⟨l, hl.life, hsettled, hmem, hl.handles, hn⟩

/-- A call that does not touch a node. -/
theorem Lives.frame (h : Lives s a l) (hlife : nodeLife s'.log a = nodeLife s.log a)
    (hdevs : handlesOf s' a = handlesOf s a) (hnode : s'.nodes a = s.nodes a)
    (hlist : ∀ i, a ∈ nodelist s'.classes i ↔ a ∈ nodelist s.classes i) : Lives s' a l where
  life := hlife.trans h.life
  handles := hdevs.trans h.handles
  holds := by
    have hholds := h.holds
    cases l with
    | absent => exact ⟨hnode.trans hholds.1, fun i hi => hholds.2 i ((hlist i).1 hi)⟩
    | allocated => exact hholds
    | node n dead drv =>
      obtain ⟨d, hd, hn, hstat, hdrv, hdead, hmem⟩ := hholds
      exact ⟨d, hnode.trans hd, hn, hstat, hdrv, hdead, (hlist _).2 hmem⟩

/-- The life of a node is one. -/
theorem Inv.node (h : Inv s) {n : Nat} {dead : Bool} {drv : Option Hdle}
    (hlife : nodeLife s.log a = some (.node n dead drv)) : Lives s a (.node n dead drv) := by
  obtain ⟨l, hl⟩ := h.lives a
  cases hl.life.symm.trans hlife
  exact hl

theorem Inv.absent (h : Inv s) (ha : s.nodes a = none) : Lives s a .absent := by
  obtain ⟨l, hl⟩ := h.lives a
  cases l with
  | absent => exact hl
  | allocated => exact hl.holds.elim
  | node n dead drv =>
    obtain ⟨d, hd, -⟩ := hl.holds
    cases ha.symm.trans hd

theorem Inv.isSome (h : Inv s) (ha : a ∈ nodelist s.classes i) : ∃ d, s.nodes a = some d := by
  obtain ⟨l, hl⟩ := h.lives a
  cases l with
  | absent => exact absurd ha (hl.holds.2 i)
  | allocated => exact hl.holds.elim
  | node n dead drv =>
    obtain ⟨d, hd, -⟩ := hl.holds
    exact ⟨d, hd⟩

/-- A node that a call does not touch. -/
structure Off (s s' : Devman) (b : Hdle) : Prop where
  life : nodeLife s'.log b = nodeLife s.log b
  handles : handlesOf s' b = handlesOf s b
  node : s'.nodes b = s.nodes b
  list : ∀ i, b ∈ nodelist s'.classes i ↔ b ∈ nodelist s.classes i

/-- A call that touches one node. -/
theorem Inv.change (h : Inv s) (hnodup : (registry s'.classes).Nodup)
    (hkeys : (s'.devs.map (·.1)).Nodup) (hnull : NULL ∉ s'.devs.map (·.1))
    (hoff : ∀ b, b ≠ a → Off s s' b) (ha : Lives s' a l) : Inv s' where
  nodup := hnodup
  keys := hkeys
  null := hnull
  lives b := by
    by_cases hb : b = a
    · exact ⟨l, hb ▸ ha⟩
    · obtain ⟨m, hm⟩ := h.lives b
      have ho := hoff b hb
      exact ⟨m, hm.frame ho.life ho.handles ho.node ho.list⟩

/-! ## Registering -/

theorem findNode_eq_some {nodes : Hdle → Option DevNode} (name : String) {as : List Hdle}
    (h : ∀ a ∈ as, ∃ d, nodes a = some d) : ∃ found, findNode nodes name as = some found := by
  induction as with
  | nil => exact ⟨false, rfl⟩
  | cons a as ih =>
    obtain ⟨d, hd⟩ := h a (List.mem_cons_self ..)
    obtain ⟨found, hfound⟩ := ih fun b hb => h b (List.mem_cons_of_mem _ hb)
    rw [findNode, hd]
    by_cases hname : d.name = name
    · exact ⟨true, if_pos hname⟩
    · exact ⟨found, (if_neg hname).trans hfound⟩

def newClass (s : Devman) (classname : String) : Devman :=
  { s with classes := s.classes ++ [⟨classname, []⟩] }

theorem Inv.addClass (h : Inv s) (classname : String) : Inv (newClass s classname) where
  nodup := by
    have heq : registry (newClass s classname).classes = registry s.classes := by
      simp [registry, newClass]
    rw [heq]
    exact h.nodup
  keys := h.keys
  null := h.null
  lives a := by
    obtain ⟨l, hl⟩ := h.lives a
    refine ⟨l, hl.frame rfl rfl rfl fun i => ?_⟩
    rw [newClass, nodelist_newClass]

/-- A node that is made and not listed. -/
def allocate (s : Devman) (classnode : Nat) (name : String) (devnode sem : Hdle) : Devman :=
  { s with
    nodes := update s.nodes devnode (some
      { classnode, name, opentimes := 0, status := .DEV_STAT_ACTIVE, sem, hDev := NULL })
    log := (devnode, .malloc) :: s.log }

theorem not_sound_allocate (h : Lives s a .absent) (name : String) (sem : Hdle) :
    ¬ Sound (allocate s i name a sem) := by
  rintro ⟨-, hlives⟩
  obtain ⟨l, hl, hsettled, -⟩ := hlives a
  cases hl.symm.trans (life_cons h.life rfl)
  exact hsettled

def register (s : Devman) (classnode : Nat) (name : String) (devnode sem : Hdle) : Devman :=
  let s := allocate s classnode name devnode sem
  { s with
    classes := link s.classes classnode devnode
    log := (devnode, .registered) :: s.log }

theorem Inv.register (h : Inv s) (hi : i < s.classes.length) (ha : s.nodes a = none)
    (name : String) (sem : Hdle) : Inv (register s i name a sem) := by
  have habsent := h.absent ha
  have hnotMem : a ∉ registry s.classes := by
    rw [mem_registry]
    rintro ⟨j, hj⟩
    exact habsent.holds.2 j hj
  refine h.change (l := .node 0 false none) (a := a) ?_ h.keys h.null (fun b hb => ?_) ?_
  · exact (registry_link hi).nodup_iff.2 (List.nodup_cons.2 ⟨hnotMem, h.nodup⟩)
  · refine ⟨?_, rfl, update_of_ne hb _ _, fun j => ?_⟩
    · exact (life_cons_of_ne hb.symm).trans (life_cons_of_ne hb.symm)
    · exact (mem_nodelist_link hi).trans (or_iff_left fun hj => hb hj.2)
  · refine ⟨life_cons (life_cons habsent.life rfl) rfl, habsent.handles, ?_⟩
    exact ⟨_, update_self .., rfl, rfl, rfl, fun h => absurd h Bool.false_ne_true,
      (mem_nodelist_link hi).2 (.inr ⟨rfl, rfl⟩)⟩

/-- What comes of a registration from step 2 on, if it does not find the name. -/
theorem regNode_cases (s : Devman) (i : Nat) (new : Bool) (name : String) (devnode sem : Hdle)
    (hfind : findNode s.nodes name (nodelist s.classes i) = some false) :
    (devnode = NULL ∧ regNode s i new name devnode sem =
        some (NULL, if new then { s with classes := s.classes.dropLast } else s)) ∨
      (devnode ≠ NULL ∧ sem = NULL ∧ regNode s i new name devnode sem =
        some (NULL, allocate s i name devnode sem)) ∨
      (devnode ≠ NULL ∧ sem ≠ NULL ∧ regNode s i new name devnode sem =
        some (devnode, register s i name devnode sem)) := by
  unfold regNode
  rw [hfind]
  by_cases hnode : devnode = NULL
  · exact .inl ⟨hnode, if_pos hnode⟩
  · by_cases hsem : sem = NULL
    · exact .inr (.inl ⟨hnode, hsem, (if_neg hnode).trans (if_pos hsem)⟩)
    · exact .inr (.inr ⟨hnode, hsem, (if_neg hnode).trans (if_neg hsem)⟩)

/-- What a call does with the invariant. -/
abbrev Outcome (s : Devman) (c : Call) : Prop := devman.Exact Inv Sound RegOk Undoable s c

section Reg

variable {classname name : String} {pend class_ new : Bool} {devnode sem : Hdle}

theorem reg_unchanged (h : Inv s)
    (hreg : esDEV_DevReg s classname name pend class_ devnode sem = some (NULL, s))
    (hc : Undoable s (.reg classname name pend class_ devnode sem)) :
    Outcome s (.reg classname name pend class_ devnode sem) := by
  refine .kept hc s ?_ (fun _ => rfl) h
  show (esDEV_DevReg s classname name pend class_ devnode sem).map (·.2) = some s
  rw [hreg]
  rfl

/-- From step 2 on, where the class is there, with the state `t` in which it is. -/
theorem reg_outcome {t : Devman} (ht : Inv t) (hi : i < t.classes.length)
    (hnode : devnode ≠ NULL → t.nodes devnode = none)
    (hfind : findNode t.nodes name (nodelist t.classes i) = some false)
    (hfor : classFor s classname class_ = some (nodelist t.classes i)) (hnodes : t.nodes = s.nodes)
    (hreg : esDEV_DevReg s classname name true class_ devnode sem =
      regNode t i new name devnode sem) (hne : devnode ≠ NULL) :
    Outcome s (.reg classname name true class_ devnode sem) := by
  have hmap : devman.next s (.reg classname name true class_ devnode sem) =
      (regNode t i new name devnode sem).map (·.2) := by
    rw [← hreg]
    rfl
  rcases regNode_cases t i new name devnode sem hfind with ⟨hz, -⟩ | ⟨-, hsem, heq⟩ | ⟨-, hsem, heq⟩
  · exact absurd hz hne
  · refine .lost (fun hc => ?_) fun s' hs _ => ?_
    · refine absurd ?_ (hc rfl hne hsem _ hfor)
      rw [← hnodes]
      exact hfind
    · cases (hmap.trans (congrArg _ heq)).symm.trans hs
      exact not_sound_allocate (ht.absent (hnode hne)) name sem
  · refine .kept (fun _ _ hz => absurd hz hsem) _ (hmap.trans (congrArg _ heq)) (fun hs => ?_)
      (ht.register hi (hnode hne) name sem)
    cases (hreg.trans heq).symm.trans hs
    exact absurd rfl hne

theorem Inv.reg (h : Inv s) (hlegal : Legal s (.reg classname name pend class_ devnode sem)) :
    Outcome s (.reg classname name pend class_ devnode sem) := by
  cases pend with
  | false => exact reg_unchanged h rfl fun hp => absurd hp Bool.false_ne_true
  | true =>
    cases hclass : s.classes.findIdx? (·.name = classname) with
    | some i =>
      have hi : i < s.classes.length := (List.findIdx?_eq_some_iff_findIdx_eq.1 hclass).1
      have hreg : esDEV_DevReg s classname name true class_ devnode sem =
          regNode s i false name devnode sem := by
        rw [esDEV_DevReg, if_pos rfl, hclass]
      have hfor : classFor s classname class_ = some (nodelist s.classes i) := by
        rw [classFor, hclass]
      obtain ⟨found, hfind⟩ := findNode_eq_some name fun a ha => h.isSome (i := i) ha
      cases found with
      | true =>
        refine reg_unchanged h ?_ ?_
        · rw [hreg, regNode, hfind]
          rfl
        · intro _ _ _ l hl
          cases hfor.symm.trans hl
          rw [hfind]
          exact fun hno => absurd (Option.some.inj hno).symm Bool.false_ne_true
      | false =>
        by_cases hne : devnode = NULL
        · refine reg_unchanged h ?_ fun _ hno => absurd hne hno
          rw [hreg, regNode, hfind]
          exact if_pos hne
        · exact reg_outcome h hi hlegal hfind hfor rfl hreg hne
    | none =>
      cases class_ with
      | false =>
        refine reg_unchanged h ?_ ?_
        · rw [esDEV_DevReg, if_pos rfl, hclass]
          rfl
        · intro _ _ _ l hl
          rw [classFor, hclass] at hl
          cases hl
      | true =>
        have hi : s.classes.length < (newClass s classname).classes.length := by
          simp [newClass]
        have hreg : esDEV_DevReg s classname name true true devnode sem =
            regNode (newClass s classname) s.classes.length true name devnode sem := by
          rw [esDEV_DevReg, if_pos rfl, hclass]
          rfl
        have hnil : nodelist (newClass s classname).classes s.classes.length = [] := by
          simp [newClass, nodelist]
        have hfind : findNode (newClass s classname).nodes name
            (nodelist (newClass s classname).classes s.classes.length) = some false := by
          rw [hnil]
          rfl
        by_cases hne : devnode = NULL
        · refine reg_unchanged h ?_ fun _ hno => absurd hne hno
          rw [hreg, regNode, hfind]
          refine (if_pos hne).trans ?_
          simp [newClass]
        · refine reg_outcome (h.addClass classname) hi hlegal hfind ?_ rfl hreg hne
          rw [classFor, hclass, hnil]
          rfl

end Reg

/-! ## Unregistering -/

def drop (s : Devman) (hNode : Hdle) (classnode : Nat) : Devman :=
  { s with
    classes := unlink s.classes classnode hNode
    nodes := update s.nodes hNode none
    log := (hNode, .free) :: s.log }

theorem release_eq (h : a ∈ nodelist s.classes i) : release s a i = some (drop s a i) := if_pos h

theorem registry_unlink_nodup (h : (registry s.classes).Nodup) (ha : a ∈ nodelist s.classes i) :
    (registry (unlink s.classes i a)).Nodup ∧ ∀ j, a ∉ nodelist (unlink s.classes i a) j := by
  have hcons := (registry_unlink ha).nodup_iff.2 h
  obtain ⟨hnotMem, hnodup⟩ := List.nodup_cons.1 hcons
  exact ⟨hnodup, fun j hj => hnotMem (mem_registry.2 ⟨j, hj⟩)⟩

theorem eq_zero_iff {x : UInt32} : x = 0 ↔ x.toNat = 0 := by
  rw [← UInt32.toNat_inj]
  rfl

section Unreg

variable {pend : Bool}

theorem Inv.unreg (h : Inv s) (hlegal : Legal s (.unreg a pend)) :
    Outcome s (.unreg a pend) := by
  cases pend with
  | false => exact .kept trivial s rfl trivial h
  | true =>
    obtain ⟨n, drv, hlife⟩ := exists_alive hlegal
    have hl := h.node hlife
    obtain ⟨d, hd, hn, hstat, hdrv, -, hmem⟩ := hl.holds
    by_cases hz : d.opentimes = 0
    · have hn0 : n = 0 := by
        rw [← hn, hz]
        rfl
      subst hn0
      rw [if_neg (fun hand => absurd hand.2 (Nat.lt_irrefl 0))] at hdrv
      subst hdrv
      obtain ⟨hnodup, hnotMem⟩ := registry_unlink_nodup h.nodup hmem
      have hnext : devman.next s (.unreg a true) =
          some (drop { s with log := (a, .unregistered) :: s.log } a d.classnode) := by
        show (esDEV_DevUnreg s a true).map (·.2) = _
        rw [esDEV_DevUnreg, if_pos rfl, hd]
        simp only [Option.bind_eq_bind, Option.bind_some, hz, if_true]
        rw [release_eq (s := { s with log := (a, .unregistered) :: s.log }) hmem]
        rfl
      refine .kept trivial _ hnext trivial (h.change (a := a) (l := .absent) hnodup h.keys h.null
        (fun b hb => ⟨?_, rfl, update_of_ne hb _ _, fun j => mem_nodelist_unlink_of_ne hb⟩)
        ⟨life_cons (life_cons hlife rfl) rfl, hl.handles, update_self .., hnotMem⟩)
      exact (life_cons_of_ne hb.symm).trans (life_cons_of_ne hb.symm)
    · have hpos : 0 < n := by
        rw [eq_zero_iff] at hz
        omega
      rw [if_pos ⟨rfl, hpos⟩] at hdrv
      subst hdrv
      have hnext : devman.next s (.unreg a true) = some { s with
          nodes := update s.nodes a (some { d with status := .DEV_STAT_INACTIVE })
          log := (a, .unregistered) :: (a, .drvClose d.hDev) :: s.log } := by
        show (esDEV_DevUnreg s a true).map (·.2) = _
        rw [esDEV_DevUnreg, if_pos rfl, hd]
        simp only [Option.bind_eq_bind, Option.bind_some, hz, if_false]
        rfl
      refine .kept trivial _ hnext trivial (h.change (a := a) (l := .node n true none) h.nodup
        h.keys h.null (fun b hb => ⟨?_, rfl, update_of_ne hb _ _, fun j => Iff.rfl⟩)
        ⟨life_cons (life_cons hlife Life.next_drvClose) Life.next_unregistered, hl.handles, ?_⟩)
      · exact (life_cons_of_ne hb.symm).trans (life_cons_of_ne hb.symm)
      · exact ⟨_, update_self .., hn, rfl, rfl, fun _ => hpos, hmem⟩

end Unreg

/-! ## Opening -/

section Handles

variable {devs : List (Hdle × DevDev)} {k : Hdle} {pDev : DevDev}

/-- There are no more handles than addresses. -/
theorem length_add_two_le (h : (devs.map (·.1)).Nodup) (hnull : NULL ∉ devs.map (·.1))
    (hk : k ∉ devs.map (·.1)) (hne : k ≠ NULL) : devs.length + 2 ≤ 2 ^ 32 := by
  have hnodup : (NULL :: k :: devs.map (·.1)).Nodup := by
    refine List.nodup_cons.2 ⟨?_, List.nodup_cons.2 ⟨hk, h⟩⟩
    rw [List.mem_cons]
    rintro (heq | hmem)
    · exact hne heq.symm
    · exact hnull hmem
  have hle := length_le_of_nodup hnodup
  rwa [List.length_cons, List.length_cons, List.length_map] at hle

theorem exists_lookup (h : k ∈ devs.map (·.1)) : ∃ d, devs.lookup k = some d := by
  induction devs with
  | nil => exact absurd h List.not_mem_nil
  | cons x devs ih =>
    rw [List.lookup_cons]
    by_cases hk : k = x.1
    · exact ⟨x.2, by rw [beq_iff_eq.2 hk]⟩
    · rw [beq_eq_false_iff_ne.2 hk]
      exact ih ((List.mem_cons.1 h).resolve_left hk)

/-- Giving up a handle. -/
theorem countP_filter (hkeys : (devs.map (·.1)).Nodup) (hd : devs.lookup k = some pDev) (b : Hdle) :
    devs.countP (·.2.devnode = b) =
      (devs.filter (·.1 ≠ k)).countP (·.2.devnode = b) + if pDev.devnode = b then 1 else 0 := by
  induction devs with
  | nil => cases hd
  | cons x devs ih =>
    obtain ⟨hx, hkeys⟩ := List.nodup_cons.1 hkeys
    rw [List.lookup_cons] at hd
    by_cases hk : k = x.1
    · rw [beq_iff_eq.2 hk] at hd
      cases hd
      have hall : ∀ y ∈ devs, decide (y.1 ≠ k) = true := fun y hy => by
        rw [decide_eq_true_eq, hk]
        exact fun heq => hx (List.mem_map.2 ⟨y, hy, heq⟩)
      have hself : ¬ decide (x.1 ≠ k) = true := by simp [hk]
      rw [List.filter_cons_of_neg (p := fun y : Hdle × DevDev => decide (y.1 ≠ k)) hself,
        List.filter_eq_self.2 hall, List.countP_cons]
      simp only [decide_eq_true_eq]
    · rw [beq_eq_false_iff_ne.2 hk] at hd
      have hne : decide (x.1 ≠ k) = true := decide_eq_true_iff.2 (Ne.symm hk)
      rw [List.filter_cons_of_pos (p := fun y : Hdle × DevDev => decide (y.1 ≠ k)) hne,
        List.countP_cons, List.countP_cons, ih hkeys hd]
      omega

end Handles

section Open

variable {n : Nat} {drv pDev hDev : Hdle} {d : DevNode} {log : List (Hdle × Event)}

/-- A node gets one more handle; `log` is what there was before it. -/
theorem Inv.opened (h : Inv s) (hl : Lives s a l) (hd : s.nodes a = some d)
    (hn : d.opentimes.toNat = l.handles) (hstat : d.status = .DEV_STAT_ACTIVE)
    (hmem : a ∈ nodelist s.classes d.classnode)
    (hlife : nodeLife log a = some (.node l.handles false (some hDev)))
    (hlog : ∀ b, b ≠ a → nodeLife log b = nodeLife s.log b) (hne : pDev ≠ NULL)
    (hfresh : pDev ∉ s.devs.map (·.1)) : Inv { s with
      nodes := update s.nodes a (some { d with hDev, opentimes := d.opentimes + 1 })
      devs := (pDev, ⟨a, hDev⟩) :: s.devs
      log := (a, .opened) :: log } := by
  refine h.change (a := a) (l := .node (l.handles + 1) false (some hDev)) h.nodup
    (List.nodup_cons.2 ⟨hfresh, h.keys⟩) ?_ (fun b hb => ⟨?_, ?_, update_of_ne hb _ _,
      fun _ => Iff.rfl⟩) ⟨life_cons hlife Life.next_opened, ?_, _, update_self .., ?_, hstat, ?_,
      fun hno => absurd hno Bool.false_ne_true, hmem⟩
  · rw [List.map_cons, List.mem_cons]
    rintro (heq | hmem)
    · exact hne heq.symm
    · exact h.null hmem
  · exact (life_cons_of_ne hb.symm).trans (hlog b hb)
  · rw [handlesOf, List.countP_cons_of_neg (by simpa using hb.symm)]
    rfl
  · rw [handlesOf, List.countP_cons_of_pos (by simp)]
    exact congrArg (· + 1) hl.handles
  · have hle := length_add_two_le h.keys h.null hfresh hne
    have hcount : handlesOf s a ≤ s.devs.length := List.countP_le_length
    rw [hl.handles, ← hn] at hcount
    rw [UInt32.toNat_add, UInt32.toNat_one, hn, Nat.mod_eq_of_lt]
    omega
  · exact (if_pos ⟨rfl, Nat.succ_pos _⟩).symm

theorem Inv.open_ (h : Inv s) (hlegal : Legal s (.open_ a drv pDev)) :
    Outcome s (.open_ a drv pDev) := by
  obtain ⟨hreg, hfresh⟩ := hlegal
  obtain ⟨n, dead, drv', hlife⟩ := exists_registered hreg
  have hl := h.node hlife
  obtain ⟨d, hd, hn, hstat, hdrv, -, hmem⟩ := hl.holds
  have hopen : devman.next s (.open_ a drv pDev) = (esDEV_Open s a drv pDev).map (·.2) := rfl
  rw [esDEV_Open, hd] at hopen
  simp only [Option.bind_eq_bind, Option.bind_some] at hopen
  cases dead with
  | true =>
    have hinact : d.status = .DEV_STAT_INACTIVE := hstat
    rw [if_pos hinact] at hopen
    refine .kept (fun d' hd' hact => ?_) s hopen trivial h
    cases hd.symm.trans hd'
    cases hinact.symm.trans hact
  | false =>
    have hact : d.status = .DEV_STAT_ACTIVE := hstat
    rw [if_neg (by rw [hact]; decide)] at hopen
    by_cases hz : d.opentimes = 0
    · have hn0 : n = 0 := by
        rw [← hn, hz]
        rfl
      subst hn0
      rw [if_neg (fun hand => absurd hand.2 (Nat.lt_irrefl 0))] at hdrv
      subst hdrv
      have hlife' : nodeLife ((a, .drvOpen drv) :: s.log) a = some (.node 0 false (some drv)) :=
        life_cons hlife rfl
      by_cases hnull : drv = NULL
      · rw [if_pos ⟨hz, hnull⟩] at hopen
        exact .kept (fun _ _ _ _ hne => absurd hnull hne) s hopen trivial h
      · rw [if_neg (fun hand => hnull hand.2), if_pos hz, if_pos hz] at hopen
        by_cases hdev : pDev = NULL
        · rw [if_pos hdev] at hopen
          refine .lost (fun hc => hc d hd hact hz hnull hdev) fun s' hs _ hsound => ?_
          cases hopen.symm.trans hs
          obtain ⟨l, hl, hsettled, -⟩ := hsound.2 a
          cases hl.symm.trans hlife'
          exact absurd (hsettled.1.1 rfl).2 (Nat.lt_irrefl 0)
        · rw [if_neg hdev] at hopen
          exact .kept (fun _ _ _ _ _ => hdev) _ hopen trivial (h.opened hl hd hn hact hmem hlife'
            (fun b hb => life_cons_of_ne hb.symm) hdev (hfresh hdev))
    · have hpos : 0 < n := by
        rw [eq_zero_iff] at hz
        omega
      rw [if_pos ⟨rfl, hpos⟩] at hdrv
      subst hdrv
      have hc : Undoable s (.open_ a drv pDev) := fun d' hd' _ hz' => by
        cases hd.symm.trans hd'
        exact absurd hz' hz
      rw [if_neg (fun hand => hz hand.1), if_neg hz, if_neg hz] at hopen
      by_cases hdev : pDev = NULL
      · rw [if_pos hdev, ← hd, update_eq_self] at hopen
        exact .kept hc s hopen trivial h
      · rw [if_neg hdev] at hopen
        exact .kept hc _ hopen trivial (h.opened hl hd hn hact hmem hlife (fun _ _ => rfl) hdev
          (hfresh hdev))

end Open

/-! ## Closing -/

section Close

variable {hDev : Hdle} {pDev : DevDev} {n : Nat} {dead : Bool} {drv : Option Hdle}
  {log : List (Hdle × Event)} {d : DevNode}

/-- The handle is given up, and the node may be. -/
theorem Inv.closed {m : Life} {nodes : Hdle → Option DevNode} (h : Inv s)
    (hd : s.devs.lookup hDev = some pDev) (hl : Lives s pDev.devnode l)
    (hlog : ∀ b, b ≠ pDev.devnode → nodeLife log b = nodeLife s.log b)
    (hnodes : ∀ b, b ≠ pDev.devnode → nodes b = s.nodes b)
    (hnodup : (registry classes).Nodup)
    (hlist : ∀ b, b ≠ pDev.devnode → ∀ i, b ∈ nodelist classes i ↔ b ∈ nodelist s.classes i)
    (hlife : nodeLife log pDev.devnode = some m) (hm : l.handles = m.handles + 1)
    (hholds : Holds { classes, nodes, log, devs := s.devs.filter (·.1 ≠ hDev) } pDev.devnode m) :
    Inv { classes, nodes, log, devs := s.devs.filter (·.1 ≠ hDev) } := by
  have hsub : ((s.devs.filter (·.1 ≠ hDev)).map (·.1)).Sublist (s.devs.map (·.1)) :=
    List.Sublist.map _ List.filter_sublist
  refine h.change (a := pDev.devnode) (l := m) hnodup (hsub.nodup h.keys)
    (fun hnull => h.null (hsub.subset hnull))
    (fun b hb => ⟨hlog b hb, ?_, hnodes b hb, hlist b hb⟩) ⟨hlife, ?_, hholds⟩
  · have hcount := countP_filter h.keys hd b
    rw [if_neg hb.symm] at hcount
    exact hcount.symm
  · have hcount := countP_filter h.keys hd pDev.devnode
    have hhandles := hl.handles
    unfold handlesOf at hhandles
    rw [hhandles, if_pos rfl, hm] at hcount
    exact (Nat.add_right_cancel hcount).symm

theorem Inv.close (h : Inv s) (hlegal : Legal s (.close hDev)) :
    Outcome s (.close hDev) := by
  obtain ⟨pDev, hd⟩ := exists_lookup hlegal
  have hpos : 0 < handlesOf s pDev.devnode := by
    have hcount := countP_filter h.keys hd pDev.devnode
    rw [if_pos rfl] at hcount
    exact Nat.lt_of_lt_of_eq (Nat.succ_pos _) hcount.symm
  obtain ⟨l, hl⟩ := h.lives pDev.devnode
  rw [hl.handles] at hpos
  cases l with
  | absent => exact absurd hpos (Nat.lt_irrefl 0)
  | allocated => exact absurd hpos (Nat.lt_irrefl 0)
  | node k dead drv =>
    obtain ⟨n, rfl⟩ : ∃ n, k = n + 1 := ⟨k - 1, (Nat.sub_add_cancel hpos).symm⟩
    obtain ⟨d, hnode, hn, hstat, hdrv, -, hmem⟩ := hl.holds
    have hne : d.opentimes ≠ 0 := by
      rw [Ne, eq_zero_iff, hn]
      exact Nat.succ_ne_zero n
    have hsub : (d.opentimes - 1).toNat = n := by
      rw [UInt32.toNat_sub_of_le, hn]
      · rfl
      · rw [UInt32.le_iff_toNat_le, hn]
        exact Nat.succ_le_succ (Nat.zero_le n)
    have hlife : nodeLife ((pDev.devnode, .closed) :: s.log) pDev.devnode =
        some (.node n dead drv) := life_cons hl.life Life.next_closed
    have hclose : devman.next s (.close hDev) = (esDEV_Close s hDev).map (·.2) := rfl
    rw [esDEV_Close, hd] at hclose
    simp only [Option.bind_eq_bind, Option.bind_some, hnode, if_neg hne] at hclose
    by_cases hz : d.opentimes - 1 = 0
    · have hn0 : n = 0 := by
        rw [← hsub, hz]
        rfl
      subst hn0
      rw [if_pos hz] at hclose
      cases dead with
      | true =>
        have hinact : d.status = .DEV_STAT_INACTIVE := hstat
        rw [if_neg (fun hand => Bool.false_ne_true hand.1.symm)] at hdrv
        subst hdrv
        obtain ⟨hnodup, hnotMem⟩ := registry_unlink_nodup h.nodup hmem
        rw [hinact] at hclose
        simp only [release, if_pos hmem] at hclose
        refine .kept trivial _ hclose trivial (h.closed (m := .absent) hd hl (fun b hb => ?_)
          (fun b hb => ?_) hnodup (fun b hb i => mem_nodelist_unlink_of_ne hb)
          (life_cons hlife rfl) rfl ⟨update_self .., hnotMem⟩)
        · exact (life_cons_of_ne hb.symm).trans (life_cons_of_ne hb.symm)
        · exact (update_of_ne hb _ _).trans (update_of_ne hb _ _)
      | false =>
        have hact : d.status = .DEV_STAT_ACTIVE := hstat
        rw [if_pos ⟨rfl, Nat.succ_pos 0⟩] at hdrv
        subst hdrv
        rw [hact] at hclose
        refine .kept trivial _ hclose trivial (h.closed (m := .node 0 false none) hd hl
          (fun b hb => ?_) (fun b hb => update_of_ne hb _ _) h.nodup (fun _ _ _ => Iff.rfl)
          (life_cons hlife Life.next_drvClose) rfl ⟨_, update_self .., ?_⟩)
        · exact (life_cons_of_ne hb.symm).trans (life_cons_of_ne hb.symm)
        · exact ⟨hsub, rfl, rfl, fun hno => absurd hno Bool.false_ne_true, hmem⟩
    · have hpos : 0 < n := by
        rw [eq_zero_iff, hsub] at hz
        exact Nat.pos_of_ne_zero hz
      rw [if_neg hz] at hclose
      refine .kept trivial _ hclose trivial (h.closed (m := .node n dead drv) hd hl
        (fun b hb => life_cons_of_ne hb.symm) (fun b hb => update_of_ne hb _ _) h.nodup
        (fun _ _ _ => Iff.rfl) hlife rfl ⟨_, update_self .., hsub, hstat, ?_, fun _ => hpos, hmem⟩)
      rw [hdrv]
      simp [hpos]

end Close

/-! ## All calls -/

theorem Inv.outcome (h : Inv s) {c : Call} (hlegal : Legal s c) : Outcome s c := by
  cases c with
  | reg => exact h.reg hlegal
  | unreg => exact h.unreg hlegal
  | open_ => exact h.open_ hlegal
  | close => exact h.close hlegal

theorem Inv.upholds_iff (h : Inv s) {cs : List Call} (hlegal : devman.Meets Legal s cs) :
    devman.Upholds Sound RegOk s cs ↔ devman.Meets Undoable s cs :=
  Machine.upholds_iff_meets (fun _ h => h.sound) (fun _ _ h hc => h.outcome hc) h hlegal

/-- **The life cycle of nodes**: it is kept all along the calls just if no semaphore of a new
node is missing and no memory for the handle of a driver that is opened. -/
theorem lifeCycle_iff {cs : List Call} (hlegal : devman.Meets Legal init cs) :
    devman.Upholds Sound RegOk init cs ↔ devman.Meets Undoable init cs :=
  inv_init.upholds_iff hlegal

/-- A disk is unplugged while a file of it is open; the node goes with the last handle. -/
theorem lifeCycle_hotplug : devman.Upholds Sound RegOk init
    [.reg "DISK" "SDMMC-DISK:0" true true 1 2, .open_ 1 3 4, .open_ 1 3 5, .close 4, .unreg 1 true,
      .open_ 1 3 6, .close 5] :=
  (lifeCycle_iff (by decide +kernel)).2 (by decide +kernel)

/-- There is no memory for the handle, and the driver stays open. -/
theorem open_without_memory :
    devman.Meets Legal init [.reg "DISK" "SDMMC-DISK:0" true true 1 2, .open_ 1 3 NULL] ∧
      ¬ devman.Upholds Sound RegOk init
        [.reg "DISK" "SDMMC-DISK:0" true true 1 2, .open_ 1 3 NULL] := by
  have hlegal : devman.Meets Legal init
      [.reg "DISK" "SDMMC-DISK:0" true true 1 2, .open_ 1 3 NULL] := by decide +kernel
  refine ⟨hlegal, fun hup => ?_⟩
  have hundo := (inv_init.upholds_iff hlegal).1 hup
  revert hundo
  decide +kernel

end Melis.Deviceman
