import Mathlib.Data.List.Perm.Basic
import Melis.MultiConsole.Console

/-!
# The task lists

`Nodes T s` says that `T c` are the nodes on the task list of each console `c`,
and that every other node there ever was has been freed, once. A node on the
list of a console is for a task that has this console. The functions on one
task list keep it, and `TaskOnly` is what they leave alone.
-/

namespace Melis.MultiConsole

open Lib Function

variable {s s' : State} {T : Nat → List Nat} {c c' n t : Nat}

namespace State

def Live (s : State) (c : Nat) : Prop := (s.consoles c).isSome

/-- The task list has been initialised. -/
def Ready (s : State) (c : Nat) : Prop := s.links.next (.taskList c) ≠ none

end State

/-- The cells of the list of consoles. -/
def Cell.Registry : Cell → Prop
  | .gCliConsolelist => True
  | .iList _ => True
  | _ => False

structure Nodes (T : Nat → List Nat) (s : State) : Prop where
  ring : ∀ c, s.Live c → s.Ready c → Ring s.links (.taskList c) ((T c).map .taskListNode)
  live : ∀ c, ∀ n ∈ T c, s.Live c ∧ s.Ready c
  node : ∀ c, ∀ n ∈ T c, n < s.wraperNum ∧ s.frees n = 0 ∧
    ∃ t, s.wrapers n = some t ∧ s.userData t = some c
  once : ∀ c, ((T c).map s.wrapers).Nodup
  kept : ∀ n < s.wraperNum, (∃ c, n ∈ T c) ∨ s.frees n = 1 ∧ s.wrapers n = none
  unborn : ∀ n, s.wraperNum ≤ n → s.frees n = 0

/-- What a function on a task list leaves alone. -/
structure TaskOnly (s s' : State) : Prop where
  consoles : s'.consoles = s.consoles
  consoleNum : s'.consoleNum = s.consoleNum
  userData : s'.userData = s.userData
  taskNum : s'.taskNum = s.taskNum
  globalConsole : s'.globalConsole = s.globalConsole
  registered : s'.registered = s.registered
  closed : s'.closed = s.closed
  links : ∀ x : Cell, x.Registry → s'.links.next x = s.links.next x ∧ s'.links.prev x = s.links.prev x
  ready : ∀ c, s'.Ready c ↔ s.Ready c

namespace TaskOnly

theorem refl (s : State) : TaskOnly s s :=
  ⟨rfl, rfl, rfl, rfl, rfl, rfl, rfl, fun _ _ => ⟨rfl, rfl⟩, fun _ => Iff.rfl⟩

theorem trans {s'' : State} (h : TaskOnly s s') (h' : TaskOnly s' s'') : TaskOnly s s'' where
  consoles := h'.consoles.trans h.consoles
  consoleNum := h'.consoleNum.trans h.consoleNum
  userData := h'.userData.trans h.userData
  taskNum := h'.taskNum.trans h.taskNum
  globalConsole := h'.globalConsole.trans h.globalConsole
  registered := h'.registered.trans h.registered
  closed := h'.closed.trans h.closed
  links x hx := ⟨((h'.links x hx).1).trans (h.links x hx).1, ((h'.links x hx).2).trans (h.links x hx).2⟩
  ready c := (h'.ready c).trans (h.ready c)

theorem live (h : TaskOnly s s') (c : Nat) : s'.Live c ↔ s.Live c := by
  unfold State.Live
  rw [h.consoles]

end TaskOnly

namespace Nodes

variable (h : Nodes T s)

include h

/-- No node is on the lists of two consoles. -/
theorem console_eq (hn : n ∈ T c) (hn' : n ∈ T c') : c = c' := by
  obtain ⟨-, -, t, ht, hc⟩ := h.node c n hn
  obtain ⟨-, -, t', ht', hc'⟩ := h.node c' n hn'
  obtain rfl : t = t' := Option.some.inj (ht.symm.trans ht')
  exact Option.some.inj (hc.symm.trans hc')

theorem nodup (c : Nat) : (T c).Nodup := (h.once c).of_map _

theorem length_le (c : Nat) : (T c).length ≤ s.wraperNum := by
  have hsub : T c ⊆ List.range s.wraperNum := fun n hn => List.mem_range.2 (h.node c n hn).1
  have hle := (List.subperm_of_subset (h.nodup c) hsub).length_le
  rwa [List.length_range] at hle

theorem wraperAt_eq (hn : n ∈ T c) :
    s.wraperAt (.taskListNode n) = some ((s.wrapers n).getD 0) := by
  obtain ⟨-, -, t, ht, -⟩ := h.node c n hn
  change s.wrapers n = _
  rw [ht, Option.getD_some]

/-- A node is taken out of its list and freed. -/
theorem drop {A B : List Nat} (hT : T c = A ++ n :: B) :
    ∃ s', s.dropWraper (.taskListNode n) = some s' ∧ Nodes (update T c (A ++ B)) s' ∧
      TaskOnly s s' ∧ s'.wraperNum = s.wraperNum ∧ s'.wrapers = update s.wrapers n none ∧
        s.links.listDel (.taskListNode n) = some s'.links := by
  have hmem : n ∈ T c := by
    rw [hT]
    exact List.mem_append_right _ List.mem_cons_self
  obtain ⟨hlive, hready⟩ := h.live c n hmem
  obtain ⟨hlt, hfree, t, ht, hc⟩ := h.node c n hmem
  have hring := h.ring c hlive hready
  rw [hT, List.map_append, List.map_cons] at hring
  obtain ⟨L', hdel, hring', hframe⟩ := hring.del
  have hnodup := h.nodup c
  rw [hT] at hnodup
  have hn : n ∉ A ++ B := (List.nodup_cons.1 (List.perm_middle.nodup_iff.1 hnodup)).1
  have hout : ∀ {c' m}, m ∈ T c' → c' ≠ c → m ≠ n := by
    rintro c' m hm hne rfl
    exact hne (h.console_eq hm hmem)
  have hin : ∀ {c' m}, m ∈ update T c (A ++ B) c' → m ∈ T c' ∧ m ≠ n := by
    intro c' m hm
    by_cases hcc : c' = c
    · subst hcc
      rw [update_self] at hm
      refine ⟨?_, ne_of_mem_of_not_mem hm hn⟩
      rw [hT]
      exact List.perm_middle.mem_iff.2 (List.mem_cons_of_mem _ hm)
    · rw [update_of_ne hcc] at hm
      exact ⟨hm, hout hm hcc⟩
  have hreg : ∀ x : Cell, x.Registry →
      x ∉ (Cell.taskList c :: (A.map .taskListNode ++ .taskListNode n :: B.map .taskListNode)) := by
    intro x hx hmem
    cases x <;> simp_all [Cell.Registry]
  have hlist : ∀ c' ≠ c, Cell.taskList c' ∉
      (Cell.taskList c :: (A.map .taskListNode ++ .taskListNode n :: B.map .taskListNode)) := by
    intro c' hne hmem
    simp_all
  have hready' : ∀ c', L'.next (.taskList c') ≠ none ↔ s.Ready c' := by
    intro c'
    by_cases hcc : c' = c
    · subst hcc
      exact iff_of_true (by rw [Ring.next_eq hring'.seg]; exact nofun) hready
    · rw [(hframe _ (hlist c' hcc)).1]
      exact Iff.rfl
  unfold State.dropWraper
  rw [hdel]
  refine ⟨_, rfl, ⟨?_, ?_, ?_, ?_, ?_, ?_⟩, ⟨rfl, rfl, rfl, rfl, rfl, rfl, rfl, ?_, hready'⟩, rfl, rfl,
    rfl⟩
  · intro c' hl hr
    by_cases hcc : c' = c
    · subst hcc
      rw [update_self, List.map_append]
      exact hring'
    · rw [update_of_ne hcc]
      refine (h.ring c' hl ((hready' c').1 hr)).frame hframe ?_
      intro x hx hx'
      rcases List.mem_cons.1 hx with rfl | hx
      · exact hlist c' hcc hx'
      · obtain ⟨m, hm, rfl⟩ := List.mem_map.1 hx
        have hm' : m ∈ T c := by
          rw [hT]
          simpa using hx'
        exact hcc (h.console_eq hm hm')
  · intro c' m hm
    obtain ⟨hl, hr⟩ := h.live c' m (hin hm).1
    exact ⟨hl, (hready' c').2 hr⟩
  · intro c' m hm
    obtain ⟨hm, hne⟩ := hin hm
    obtain ⟨hlt', hfree', t', ht', hc'⟩ := h.node c' m hm
    exact ⟨hlt', (update_of_ne hne ..).trans hfree', t', (update_of_ne hne ..).trans ht', hc'⟩
  · intro c'
    have hsame : (update T c (A ++ B) c').map (update s.wrapers n none) =
        (update T c (A ++ B) c').map s.wrapers :=
      List.map_congr_left fun m hm => update_of_ne (hin hm).2 ..
    change ((update T c (A ++ B) c').map (update s.wrapers n none)).Nodup
    rw [hsame]
    by_cases hcc : c' = c
    · subst hcc
      have hall := h.once c'
      rw [hT, List.map_append, List.map_cons] at hall
      rw [update_self, List.map_append]
      exact (List.nodup_cons.1 (List.perm_middle.nodup_iff.1 hall)).2
    · rw [update_of_ne hcc]
      exact h.once c'
  · intro m hm
    by_cases hmn : m = n
    · subst hmn
      refine .inr ⟨?_, update_self ..⟩
      exact (update_self ..).trans (by rw [hfree])
    · rcases h.kept m hm with ⟨c', hm'⟩ | ⟨hf, hw⟩
      · refine .inl ⟨c', ?_⟩
        by_cases hcc : c' = c
        · subst hcc
          rw [update_self]
          rw [hT] at hm'
          exact (List.mem_cons.1 (List.perm_middle.mem_iff.1 hm')).resolve_left hmn
        · rw [update_of_ne hcc]
          exact hm'
      · exact .inr ⟨(update_of_ne hmn ..).trans hf, (update_of_ne hmn ..).trans hw⟩
  · intro m hm
    have hne : m ≠ n := by
      rintro rfl
      exact absurd hlt (Nat.not_lt.2 hm)
    exact (update_of_ne hne ..).trans (h.unborn m hm)
  · intro x hx
    exact hframe x (hreg x hx)

/-- The node of a task is removed, if there is one. -/
theorem remove (hl : s.Live c) (hr : s.Ready c) (t : Nat) :
    ∃ s' T', s.cliConsoleRemoveTaskListNode c t = some s' ∧ Nodes T' s' ∧ TaskOnly s s' ∧
      ∀ n ∈ T' c, s'.wrapers n ≠ some t := by
  obtain ⟨console, hc⟩ := Option.isSome_iff_exists.1 hl
  have hlen : ((T c).map Cell.taskListNode).length < s.wraperNum + 1 := by
    rw [List.length_map]
    exact Nat.lt_succ_of_le (h.length_le c)
  have hfind := (h.ring c hl hr).search_eq
    (p := fun pos => (s.wraperAt pos).map fun tmp => decide (tmp = t))
    (q := fun pos => decide (s.wraperAt pos = some t))
    (by
      intro x hx
      obtain ⟨n, hn, rfl⟩ := List.mem_map.1 hx
      rw [h.wraperAt_eq hn]
      simp) hlen
  unfold State.cliConsoleRemoveTaskListNode
  rw [hc, Option.bind_some, hfind, Option.bind_some]
  cases hf : ((T c).map Cell.taskListNode).find? fun pos => decide (s.wraperAt pos = some t) with
  | none =>
    refine ⟨s, T, rfl, h, .refl s, fun n hn hw => ?_⟩
    have hno := List.find?_eq_none.1 hf _ (List.mem_map_of_mem hn)
    exact hno (decide_eq_true hw)
  | some pos =>
    obtain ⟨hw, A, B, hsplit, -⟩ := List.find?_eq_some_iff_append.1 hf
    obtain ⟨A', B', hT, rfl, hB⟩ := List.map_eq_append_iff.1 hsplit
    obtain ⟨n, B'', rfl, rfl, rfl⟩ := List.map_eq_cons_iff.1 hB
    have hwn : s.wrapers n = some t := of_decide_eq_true hw
    obtain ⟨s', hdrop, hnodes, honly, -, hwrapers, -⟩ := h.drop hT
    refine ⟨s', _, hdrop, hnodes, honly, fun m hm hwm => ?_⟩
    have honce := h.once c
    rw [hT, List.map_append, List.map_cons, hwn] at honce
    have hrest := (List.nodup_cons.1 (List.perm_middle.nodup_iff.1 honce)).1
    rw [update_self] at hm
    have hmn : m ≠ n := by
      rintro rfl
      rw [hwrapers, update_self] at hwm
      cases hwm
    rw [hwrapers, update_of_ne hmn] at hwm
    refine hrest ?_
    rw [← hwm, ← List.map_append]
    exact List.mem_map_of_mem hm

/-- The loop frees the nodes one after the other. -/
theorem clear_loop {l : List Nat} {fuel : Nat} (hT : T c = l) (hl : s.Live c) (hr : s.Ready c)
    (hf : l.length < fuel) :
    ∃ s', State.clearTaskList c fuel (s.links.next (.taskList c)) s = some s' ∧
      Nodes (update T c []) s' ∧ TaskOnly s s' := by
  induction l generalizing s T fuel with
  | nil =>
    obtain ⟨fuel, rfl⟩ := Nat.exists_eq_succ_of_ne_zero (Nat.ne_of_gt hf)
    have hring := h.ring c hl hr
    rw [hT] at hring
    rw [Ring.next_eq hring.seg]
    refine ⟨s, if_pos rfl, ?_, .refl s⟩
    rw [← hT, update_eq_self]
    exact h
  | cons n l ih =>
    obtain ⟨fuel, rfl⟩ := Nat.exists_eq_succ_of_ne_zero (Nat.ne_zero_of_lt hf)
    have hring := h.ring c hl hr
    rw [hT] at hring
    obtain ⟨s₁, hdrop, hnodes, honly, hnum, -, hdel⟩ := h.drop (A := []) hT
    have hl₁ : s₁.Live c := (honly.live c).2 hl
    have hr₁ : s₁.Ready c := (honly.ready c).2 hr
    have hring₁ := hnodes.ring c hl₁ hr₁
    rw [update_self] at hring₁
    have hnext : s.links.next (.taskListNode n) = s₁.links.next (.taskList c) :=
      (Ring.next_eq hring.seg.2).trans (Ring.next_eq hring₁.seg).symm
    obtain ⟨s', hloop, hnodes', honly'⟩ :=
      ih hnodes (update_self ..) hl₁ hr₁ (Nat.succ_lt_succ_iff.1 hf)
    have hw := h.wraperAt_eq (n := n) (c := c) (by rw [hT]; exact List.mem_cons_self)
    refine ⟨s', ?_, ?_, honly.trans honly'⟩
    · rw [Ring.next_eq hring.seg]
      change State.clearTaskList c (fuel + 1) (some (.taskListNode n)) s = some s'
      rw [State.clearTaskList, if_neg nofun, hw, Option.bind_some]
      change (s.dropWraper (.taskListNode n)).bind _ = _
      rw [hdrop, Option.bind_some, hnext]
      exact hloop
    · rwa [update_idem] at hnodes'

theorem clear (hl : s.Live c) (hr : s.Ready c) :
    ∃ s', s.cliConsoleClearTaskList c = some s' ∧ Nodes (update T c []) s' ∧ TaskOnly s s' :=
  h.clear_loop rfl hl hr (Nat.lt_succ_of_le (h.length_le c))

/-- A task of no node changes its console. -/
theorem setUserData (hno : ∀ c, ∀ n ∈ T c, s.wrapers n ≠ some t) (v : Option Nat) :
    Nodes T { s with userData := update s.userData t v } where
  ring := h.ring
  live := h.live
  node c n hn := by
    obtain ⟨hlt, hf, t', ht, hc⟩ := h.node c n hn
    have hne : t' ≠ t := by
      rintro rfl
      exact hno c n hn ht
    exact ⟨hlt, hf, t', ht, (update_of_ne hne ..).trans hc⟩
  once := h.once
  kept := h.kept
  unborn := h.unborn

/-- A task gets a node on the list of its console. -/
theorem add (hl : s.Live c) (hr : s.Ready c) (ht : s.userData t = some c)
    (hno : ∀ n ∈ T c, s.wrapers n ≠ some t) (malloc : Bool) :
    ∃ s' T', s.cliConsoleAddTaskListNode c t malloc = some s' ∧ Nodes T' s' ∧ TaskOnly s s' := by
  obtain ⟨console, hc⟩ := Option.isSome_iff_exists.1 hl
  unfold State.cliConsoleAddTaskListNode
  rw [hc, Option.bind_some]
  cases malloc with
  | false => exact ⟨s, T, rfl, h, .refl s⟩
  | true =>
    dsimp only
    have hnew : ∀ {c n}, n ∈ T c → n ≠ s.wraperNum := fun hn =>
      Nat.ne_of_lt (h.node _ _ hn).1
    have hout : ∀ c', Cell.taskListNode s.wraperNum ∉
        Cell.taskList c' :: (T c').map Cell.taskListNode := by
      intro c' hmem
      rcases List.mem_cons.1 hmem with hx | hx
      · cases hx
      · obtain ⟨n, hn, hx⟩ := List.mem_map.1 hx
        cases hx
        exact hnew hn rfl
    have hinit : Ring (s.links.initListHead (.taskListNode s.wraperNum)) (.taskList c)
        ((T c).map .taskListNode) := by
      refine (h.ring c hl hr).frame (Ring.frame_init s.links (.taskListNode s.wraperNum)) ?_
      intro x hx hx'
      exact hout c (List.mem_singleton.1 hx' ▸ hx)
    obtain ⟨L', hadd, hring', hframe⟩ := hinit.add (hout c)
    have hkeep : ∀ x ∉ Cell.taskList c :: .taskListNode s.wraperNum :: (T c).map .taskListNode,
        L'.next x = s.links.next x ∧ L'.prev x = s.links.prev x := by
      intro x hx
      have hx' : x ∉ [Cell.taskListNode s.wraperNum] := fun hmem =>
        hx (List.mem_cons_of_mem _ (List.mem_singleton.1 hmem ▸ List.mem_cons_self))
      have hfirst := Ring.frame_init s.links (.taskListNode s.wraperNum) x hx'
      exact ⟨(hframe x hx).1.trans hfirst.1, (hframe x hx).2.trans hfirst.2⟩
    have hlist : ∀ c' ≠ c, Cell.taskList c' ∉
        Cell.taskList c :: .taskListNode s.wraperNum :: (T c).map .taskListNode := by
      intro c' hne hmem
      simp_all
    have hready' : ∀ c', L'.next (.taskList c') ≠ none ↔ s.Ready c' := by
      intro c'
      by_cases hcc : c' = c
      · subst hcc
        exact iff_of_true (by rw [Ring.next_eq hring'.seg]; exact nofun) hr
      · rw [(hkeep _ (hlist c' hcc)).1]
        exact Iff.rfl
    have hin : ∀ {c' m}, m ∈ update T c (s.wraperNum :: T c) c' →
        m ∈ T c' ∨ c' = c ∧ m = s.wraperNum := by
      intro c' m hm
      by_cases hcc : c' = c
      · subst hcc
        rw [update_self] at hm
        exact (List.mem_cons.1 hm).symm.imp_right fun hm => ⟨rfl, hm⟩
      · rw [update_of_ne hcc] at hm
        exact .inl hm
    rw [if_pos rfl, hadd]
    refine ⟨_, update T c (s.wraperNum :: T c), rfl, ⟨?_, ?_, ?_, ?_, ?_, ?_⟩,
      ⟨rfl, rfl, rfl, rfl, rfl, rfl, rfl, ?_, hready'⟩⟩
    · intro c' hl' hr'
      by_cases hcc : c' = c
      · subst hcc
        rw [update_self]
        exact hring'
      · rw [update_of_ne hcc]
        refine (h.ring c' hl' ((hready' c').1 hr')).frame hkeep ?_
        intro x hx hx'
        rcases List.mem_cons.1 hx with rfl | hx
        · exact hlist c' hcc hx'
        · obtain ⟨m, hm, rfl⟩ := List.mem_map.1 hx
          have hm' : m = s.wraperNum ∨ m ∈ T c := by simpa using hx'
          rcases hm' with rfl | hm'
          · exact hnew hm rfl
          · exact hcc (h.console_eq hm hm')
    · intro c' m hm
      rcases hin hm with hm | ⟨rfl, rfl⟩
      · exact ⟨(h.live c' m hm).1, (hready' c').2 (h.live c' m hm).2⟩
      · exact ⟨hl, (hready' c').2 hr⟩
    · intro c' m hm
      rcases hin hm with hm | ⟨rfl, rfl⟩
      · obtain ⟨hlt, hf, t', ht', hc'⟩ := h.node c' m hm
        exact ⟨Nat.lt_succ_of_lt hlt, hf, t', (update_of_ne (hnew hm) ..).trans ht', hc'⟩
      · exact ⟨Nat.lt_succ_self _, h.unborn _ (Nat.le_refl _), t, update_self .., ht⟩
    · intro c'
      have hsame : (T c').map (update s.wrapers s.wraperNum (some t)) = (T c').map s.wrapers :=
        List.map_congr_left fun m hm => update_of_ne (hnew hm) ..
      change ((update T c (s.wraperNum :: T c) c').map
        (update s.wrapers s.wraperNum (some t))).Nodup
      by_cases hcc : c' = c
      · subst hcc
        rw [update_self, List.map_cons, update_self, hsame]
        refine List.nodup_cons.2 ⟨fun hmem => ?_, h.once c'⟩
        obtain ⟨m, hm, hw⟩ := List.mem_map.1 hmem
        exact hno m hm hw
      · rw [update_of_ne hcc, hsame]
        exact h.once c'
    · intro m hm
      by_cases hmn : m = s.wraperNum
      · refine .inl ⟨c, ?_⟩
        rw [update_self, hmn]
        exact List.mem_cons_self
      · rcases h.kept m (Nat.lt_of_le_of_ne (Nat.le_of_lt_succ hm) hmn) with ⟨c', hm'⟩ | ⟨hf, hw⟩
        · refine .inl ⟨c', ?_⟩
          by_cases hcc : c' = c
          · subst hcc
            rw [update_self]
            exact List.mem_cons_of_mem _ hm'
          · rw [update_of_ne hcc]
            exact hm'
        · exact .inr ⟨hf, (update_of_ne hmn ..).trans hw⟩
    · intro m hm
      exact h.unborn m (Nat.le_of_succ_le hm)
    · intro x hx
      refine hkeep x ?_
      intro hmem
      cases x <;> simp_all [Cell.Registry]

end Nodes

end Melis.MultiConsole
