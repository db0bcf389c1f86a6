import Melis.Libcore.CdxQueue

/-!
# The nodes of the queue

The nodes from the front on carry what was linked and not yet popped; `Shared` is these
and the one the delivery thread is about to free. A poster owns its node until it links
it. What a poster has read from the rear stays among the shared nodes while the delivery
thread frees none that is held (`Unheld`), and then it is the rear if nothing is linked
behind it.
-/

namespace Melis.Libcore

open Lib Function

variable {α : Type} {n : Nat} {s s' : CdxQueueImpl α n} {t : Fin n} {l : List Nat}

/-! ## Phases -/

namespace PushPc

/-- The node that is not linked yet. -/
def owned : PushPc α → Option Nat
  | .setData _ e | .setNext _ e | .setRef _ e | .readRear _ e | .swapNext _ e _ => some e
  | _ => none

/-- What was read from the rear and will be looked at. -/
def held : PushPc α → Option Nat
  | .swapNext _ _ a => some a
  | _ => none

/-- The old and the new rear. -/
def moves : PushPc α → Option (Nat × Nat)
  | .swapRear _ e a => some (a, e)
  | _ => none

/-- What is stored in the node. -/
def Filled : PushPc α → QueueNodeEntity α → Prop
  | .setNext data _, c => c.data = some data
  | .setRef data _, c => c.data = some data ∧ c.next = none
  | .readRear data _, c | .swapNext data _ _, c => c = ⟨none, 1, some data⟩
  | _, _ => True

end PushPc

namespace PopPc

/-- The front has a second reference. -/
def counted : PopPc α → Bool
  | .readNext _ | .dataNext _ | .readData .. | .newFront .. | .swapFront .. => true
  | _ => false

/-- The node that is going to be freed. -/
def retired : PopPc α → Option Nat
  | .decRef e _ | .free e _ => some e
  | _ => none

/-- What was taken from the queue and not returned yet. -/
def taken : PopPc α → List (Option α)
  | .decRef _ (.first d) | .decRef _ (.last d) | .free _ (.last d) => [d]
  | _ => []

end PopPc

/-- There is a node behind the front, and the rear is not the front. -/
def Ahead (s : CdxQueueImpl α n) (l : List Nat) (e : Nat) : Prop :=
  e = s.front ∧ s.front ≠ s.rear ∧ l ≠ []

/-- What the delivery thread has read. -/
def PopOk (s : CdxQueueImpl α n) (l : List Nat) : PopPc α → Prop
  | .emptyFront => True
  | .emptyRear f => f = s.front
  | .readFront => Ahead s l s.front
  | .incRef e | .readNext e | .dataNext e => Ahead s l e
  | .readData e node => Ahead s l e ∧ l.head? = some node
  | .newFront e d => Ahead s l e ∧ ∃ node, l.head? = some node ∧ d = (s.cells node).data
  | .swapFront e next d =>
    Ahead s l e ∧ ∃ node, l.head? = some node ∧ d = (s.cells node).data ∧ next = some node
  | .decRef e (.first _) => e ∉ s.front :: l ∧ (s.cells e).next ≠ none ∧ (s.cells e).ref = 2
  | .decRef e (.last _) => e ∉ s.front :: l ∧ (s.cells e).next ≠ none ∧ (s.cells e).ref = 1
  | .free e (.last _) => e ∉ s.front :: l ∧ (s.cells e).next ≠ none
  | _ => False

/-- The nodes that more than one thread may look at. -/
def Shared (s : CdxQueueImpl α n) (l : List Nat) (a : Nat) : Prop :=
  a ∈ s.front :: l ∨ s.pop.retired = some a

/-! ## The invariant -/

/-- Of the nodes from the front on and the one that is going to be freed. -/
structure Nodes (s : CdxQueueImpl α n) (l : List Nat) : Prop where
  chain : Chain (fun a => (s.cells a).next) (s.cells s.front).next l
  nodup : (s.front :: l).Nodup
  live : ∀ a, Shared s l a → s.live a = true
  refs : ∀ a ∈ s.front :: l, (s.cells a).ref = if s.pop.counted ∧ a = s.front then 2 else 1
  values : s.linked.map some =
    s.popped.map some ++ s.pop.taken ++ l.map fun a => (s.cells a).data
  rear : s.rear ∈ s.front :: l
  pop : PopOk s l s.pop

/-- Of the nodes that the posters know. -/
structure Posters (s : CdxQueueImpl α n) (l : List Nat) : Prop where
  priv : ∀ t e, (s.push t).owned = some e → s.live e = true ∧ ¬ Shared s l e
  distinct : ∀ t u e, (s.push t).owned = some e → (s.push u).owned = some e → t = u
  filled : ∀ t e, (s.push t).owned = some e → (s.push t).Filled (s.cells e)
  held : ∀ t a, (s.push t).held = some a →
    Shared s l a ∧ ((s.cells a).next = none → a = s.rear)
  moving : ∀ t a e, (s.push t).moves = some (a, e) →
    a = s.rear ∧ (s.cells a).next = some e ∧ (s.cells e).next = none
  one : ∀ t u, (s.push t).moves ≠ none → (s.push u).moves ≠ none → t = u
  settled : (∀ t, (s.push t).moves = none) → (s.cells s.rear).next = none

theorem nodes_create : Nodes (CdxQueueCreate α n) [] where
  chain := rfl
  nodup := List.nodup_singleton 0
  live a ha := by
    have hzero : a = 0 := by simpa [Shared, CdxQueueCreate, PopPc.retired] using ha
    rw [hzero]
    rfl
  refs _ _ := rfl
  values := rfl
  rear := List.mem_singleton_self 0
  pop := trivial

theorem posters_create : Posters (CdxQueueCreate α n) [] where
  priv := nofun
  distinct := nofun
  filled := nofun
  held := nofun
  moving := nofun
  one := fun _ _ h => absurd rfl h
  settled _ := rfl

/-! ## Nodes -/

theorem Nodes.chain_cons (h : Nodes s l) :
    Chain (fun a => (s.cells a).next) (some s.front) (s.front :: l) := ⟨rfl, h.chain⟩

/-- What is behind a node of the chain is behind the front. -/
theorem Nodes.next_mem (h : Nodes s l) {a e : Nat} (ha : a ∈ s.front :: l)
    (hnext : (s.cells a).next = some e) : e ∈ l := by
  have hchain := h.chain_cons
  obtain ⟨l₀, m, hl⟩ := List.append_of_mem ha
  rw [hl] at hchain
  have hhead := hchain.next_eq
  rw [hnext] at hhead
  have hmem : e ∈ m := List.mem_of_mem_head? hhead.symm
  cases l₀ with
  | nil =>
    cases hl
    exact hmem
  | cons b l₀ =>
    cases hl
    exact List.mem_append_right _ (List.mem_cons_of_mem _ hmem)

/-- The node with nothing behind it is the last. -/
theorem Nodes.last (h : Nodes s l) {a : Nat} (ha : a ∈ s.front :: l)
    (hnext : (s.cells a).next = none) : ∃ l₀, s.front :: l = l₀ ++ [a] := by
  have hchain := h.chain_cons
  obtain ⟨l₀, m, hl⟩ := List.append_of_mem ha
  rw [hl] at hchain
  have hhead := hchain.next_eq
  rw [hnext] at hhead
  have hnil : m = [] := List.head?_eq_none_iff.1 hhead.symm
  exact ⟨l₀, by rw [hl, hnil]⟩

/-- The delivery thread has read what no other thread changes. -/
theorem PopOk.congr {l' : List Nat} {p : PopPc α} (h : PopOk s l p)
    (hfront : s'.front = s.front) (hrear : s.front ≠ s.rear → s.front ≠ s'.rear)
    (hhead : l ≠ [] → l'.head? = l.head?)
    (hdata : ∀ a ∈ l, (s'.cells a).data = (s.cells a).data)
    (hretired : ∀ a, p.retired = some a → a ∉ s.front :: l →
      a ∉ s.front :: l' ∧ s'.cells a = s.cells a) : PopOk s' l' p := by
  have hahead : ∀ {e}, Ahead s l e → Ahead s' l' e := fun ⟨he, hne, hl⟩ =>
    ⟨he.trans hfront.symm, by rw [hfront]; exact hrear hne, fun hnil => by
      have hh := hhead hl
      rw [hnil] at hh
      exact hl (List.head?_eq_none_iff.1 hh.symm)⟩
  have hnode : ∀ {e node}, Ahead s l e → l.head? = some node →
      l'.head? = some node ∧ (s'.cells node).data = (s.cells node).data := fun ha hn =>
    ⟨(hhead ha.2.2).trans hn, hdata _ (List.mem_of_mem_head? hn)⟩
  cases p with
  | emptyFront => trivial
  | emptyRear f => exact h.trans hfront.symm
  | readFront =>
    show Ahead s' l' s'.front
    rw [hfront]
    exact hahead h
  | incRef e => exact hahead h
  | readNext e => exact hahead h
  | dataNext e => exact hahead h
  | readData e node => exact ⟨hahead h.1, (hnode h.1 h.2).1⟩
  | newFront e d =>
    obtain ⟨ha, node, hn, hd⟩ := h
    exact ⟨hahead ha, node, (hnode ha hn).1, hd.trans (hnode ha hn).2.symm⟩
  | swapFront e next d =>
    obtain ⟨ha, node, hn, hd, hnext⟩ := h
    exact ⟨hahead ha, node, (hnode ha hn).1, hd.trans (hnode ha hn).2.symm, hnext⟩
  | decRef e drop =>
    cases drop with
    | retry => exact h
    | dummy => exact h
    | first d =>
      obtain ⟨hmem, hcell⟩ := hretired e rfl h.1
      show e ∉ s'.front :: l' ∧ (s'.cells e).next ≠ none ∧ (s'.cells e).ref = 2
      rw [hfront, hcell]
      exact ⟨hmem, h.2⟩
    | last d =>
      obtain ⟨hmem, hcell⟩ := hretired e rfl h.1
      show e ∉ s'.front :: l' ∧ (s'.cells e).next ≠ none ∧ (s'.cells e).ref = 1
      rw [hfront, hcell]
      exact ⟨hmem, h.2⟩
  | free e drop =>
    cases drop with
    | retry => exact h
    | dummy => exact h
    | first d => exact h
    | last d =>
      obtain ⟨hmem, hcell⟩ := hretired e rfl h.1
      show e ∉ s'.front :: l' ∧ (s'.cells e).next ≠ none
      rw [hfront, hcell]
      exact ⟨hmem, h.2⟩

/-- A step that leaves the shared nodes alone. -/
theorem Nodes.frame (h : Nodes s l) (hfront : s'.front = s.front) (hrear : s'.rear = s.rear)
    (hpop : s'.pop = s.pop) (hlinked : s'.linked = s.linked) (hpopped : s'.popped = s.popped)
    (hcells : ∀ a, Shared s l a → s'.cells a = s.cells a)
    (hlive : ∀ a, Shared s l a → s'.live a = s.live a) : Nodes s' l := by
  have hmem : ∀ a ∈ s.front :: l, s'.cells a = s.cells a := fun a ha => hcells a (.inl ha)
  have hmem' : ∀ a ∈ l, s'.cells a = s.cells a := fun a ha => hmem a (List.mem_cons_of_mem _ ha)
  exact {
    chain := by
      rw [hfront, hmem s.front List.mem_cons_self]
      exact h.chain.congr fun a ha => by rw [hmem' a ha]
    nodup := by
      rw [hfront]
      exact h.nodup
    live := fun a ha => by
      have ha : Shared s l a := by
        unfold Shared at ha ⊢
        rwa [hfront, hpop] at ha
      rw [hlive a ha]
      exact h.live a ha
    refs := fun a ha => by
      rw [hfront] at ha
      rw [hfront, hpop, hmem a ha]
      exact h.refs a ha
    values := by
      have hdata : l.map (fun a => (s'.cells a).data) = l.map fun a => (s.cells a).data :=
        List.map_congr_left fun a ha => by rw [hmem' a ha]
      rw [hlinked, hpopped, hpop, hdata]
      exact h.values
    rear := by
      rw [hfront, hrear]
      exact h.rear
    pop := by
      rw [hpop]
      exact h.pop.congr hfront (fun hne => by rw [hrear]; exact hne) (fun _ => rfl)
        (fun a ha => by rw [hmem' a ha]) fun a ha hno => ⟨hno, hcells a (.inr ha)⟩ }

/-! ## Posters -/

/-- What a poster knows of the shared nodes when its next phase is `p`. -/
theorem Posters.goto (hn : Nodes s l) (h : Posters s l) {p : PushPc α}
    {cells : Nat → QueueNodeEntity α} {live : Nat → Bool}
    (hmoves : p.moves = none) (hmoves' : (s.push t).moves = none)
    (hcells : ∀ a, s.live a = true → (s.push t).owned ≠ some a → cells a = s.cells a)
    (hlive : ∀ a, s.live a = true → live a = true)
    (howned : ∀ e, p.owned = some e → live e = true ∧ p.Filled (cells e) ∧
      ((s.push t).owned = some e ∨ s.live e = false))
    (hheld : ∀ a, p.held = some a → Shared s l a ∧ ((s.cells a).next = none → a = s.rear)) :
    Posters { s.goto t p with cells, live } l := by
  have hself : (update s.push t p) t = p := update_self ..
  have hother : ∀ u, u ≠ t → (update s.push t p) u = s.push u := fun u hu =>
    update_of_ne hu ..
  have hshared : ∀ a, Shared s l a → cells a = s.cells a := fun a ha =>
    hcells a (hn.live a ha) fun ho => (h.priv t a ho).2 ha
  have hfresh : ∀ e, p.owned = some e → ¬ Shared s l e ∧ ∀ u, u ≠ t → (s.push u).owned ≠ some e := by
    intro e he
    rcases (howned e he).2.2 with ho | hdead
    · exact ⟨(h.priv t e ho).2, fun u hu hou => hu (h.distinct u t e hou ho)⟩
    · refine ⟨fun hs => ?_, fun u _ hou => ?_⟩
      · rw [hn.live e hs] at hdead
        cases hdead
      · rw [(h.priv u e hou).1] at hdead
        cases hdead
  have hmoves'' : ∀ u, (update s.push t p u).moves = (s.push u).moves := by
    intro u
    by_cases hu : u = t
    · rw [hu, hself, hmoves, hmoves']
    · rw [hother u hu]
  have hmem : ∀ a ∈ s.front :: l, cells a = s.cells a := fun a ha => hshared a (.inl ha)
  exact {
    priv := fun u e he => by
      change (update s.push t p u).owned = some e at he
      by_cases hu : u = t
      · rw [hu, hself] at he
        exact ⟨(howned e he).1, (hfresh e he).1⟩
      · rw [hother u hu] at he
        exact ⟨hlive e (h.priv u e he).1, (h.priv u e he).2⟩
    distinct := fun u v e hu hv => by
      change (update s.push t p u).owned = some e at hu
      change (update s.push t p v).owned = some e at hv
      by_cases hut : u = t
      · rw [hut, hself] at hu
        by_cases hvt : v = t
        · rw [hut, hvt]
        · rw [hother v hvt] at hv
          exact absurd hv ((hfresh e hu).2 v hvt)
      · rw [hother u hut] at hu
        by_cases hvt : v = t
        · rw [hvt, hself] at hv
          exact absurd hu ((hfresh e hv).2 u hut)
        · rw [hother v hvt] at hv
          exact h.distinct u v e hu hv
    filled := fun u e he => by
      change (update s.push t p u).owned = some e at he
      show (update s.push t p u).Filled (cells e)
      by_cases hu : u = t
      · rw [hu, hself] at he ⊢
        exact (howned e he).2.1
      · rw [hother u hu] at he ⊢
        rw [hcells e (h.priv u e he).1 fun ho => hu (h.distinct u t e he ho)]
        exact h.filled u e he
    held := fun u a ha => by
      change (update s.push t p u).held = some a at ha
      have hold : Shared s l a ∧ ((s.cells a).next = none → a = s.rear) := by
        by_cases hu : u = t
        · rw [hu, hself] at ha
          exact hheld a ha
        · rw [hother u hu] at ha
          exact h.held u a ha
      show Shared s l a ∧ ((cells a).next = none → a = s.rear)
      rw [hshared a hold.1]
      exact hold
    moving := fun u a e he => by
      obtain ⟨ha, hnext, hlast⟩ := h.moving u a e ((hmoves'' u).symm.trans he)
      have hmema : a ∈ s.front :: l := ha ▸ hn.rear
      have hmeme : e ∈ s.front :: l := List.mem_cons_of_mem _ (hn.next_mem hmema hnext)
      show a = s.rear ∧ (cells a).next = some e ∧ (cells e).next = none
      rw [hmem a hmema, hmem e hmeme]
      exact ⟨ha, hnext, hlast⟩
    one := fun u v hu hv => h.one u v ((hmoves'' u) ▸ hu) ((hmoves'' v) ▸ hv)
    settled := fun hnone => by
      show (cells s.rear).next = none
      rw [hmem s.rear hn.rear]
      exact h.settled fun u => (hmoves'' u).symm.trans (hnone u) }

/-- What the delivery thread does to the nodes leaves the posters alone. -/
theorem Posters.frame (h : Posters s l) {l' : List Nat} (hpush : s'.push = s.push)
    (hrear : s'.rear = s.rear) (hnext : ∀ a, (s'.cells a).next = (s.cells a).next)
    (hcells : ∀ a, ¬ Shared s l a → s'.cells a = s.cells a ∧ s'.live a = s.live a)
    (hsub : ∀ a, Shared s' l' a → Shared s l a)
    (hheld : ∀ t a, (s.push t).held = some a → Shared s l a → Shared s' l' a) :
    Posters s' l' where
  priv t e he := by
    rw [hpush] at he
    obtain ⟨hlive, hno⟩ := h.priv t e he
    rw [(hcells e hno).2]
    exact ⟨hlive, fun hs => hno (hsub e hs)⟩
  distinct t u e ht hu := by
    rw [hpush] at ht hu
    exact h.distinct t u e ht hu
  filled t e he := by
    rw [hpush] at he ⊢
    rw [(hcells e (h.priv t e he).2).1]
    exact h.filled t e he
  held t a ha := by
    rw [hpush] at ha
    obtain ⟨hs, hlast⟩ := h.held t a ha
    rw [hnext, hrear]
    exact ⟨hheld t a ha hs, hlast⟩
  moving t a e he := by
    rw [hpush] at he
    rw [hnext, hnext, hrear]
    exact h.moving t a e he
  one t u ht hu := by
    rw [hpush] at ht hu
    exact h.one t u ht hu
  settled hnone := by
    rw [hpush] at hnone
    rw [hnext, hrear]
    exact h.settled hnone

end Melis.Libcore
