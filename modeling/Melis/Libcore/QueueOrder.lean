import Melis.Libcore.QueueNodes

/-!
# What is popped is what was pushed

While the delivery thread frees no node that a poster has read from the rear, no step
touches a freed node, the rear is moved by the poster that has linked behind it, and the
values come out in the order in which they were linked.
-/

namespace Melis.Libcore

open Lib Function

variable {α : Type} {n : Nat} {s s' : CdxQueueImpl α n} {t : Fin n} {l : List Nat}

/-! ## What is claimed -/

/-- What a step does to the values. -/
inductive QueueEffect (s : CdxQueueImpl α n) (s' : CdxQueueImpl α n) : Prop
  | link (t : Fin n) (data : α) (entity tmpEntity : Nat)
    (before : s.push t = .swapNext data entity tmpEntity)
    (behind : s'.push = update s.push t (.swapRear data entity tmpEntity))
    (linked : s'.linked = s.linked ++ [data]) (popped : s'.popped = s.popped)
  | pop (data : α) (behind : s'.pop = .emptyFront) (push : s'.push = s.push)
    (linked : s'.linked = s.linked) (popped : s'.popped = s.popped ++ [data])
  | none (push : ∀ t data entity tmpEntity, s.push t = .swapNext data entity tmpEntity →
      s'.push t ≠ .swapRear data entity tmpEntity)
    (returns : ∀ t, s'.push t = .idle → s.push t = .idle ∨ (s.push t).moves ≠ Option.none)
    (linked : s'.linked = s.linked) (popped : s'.popped = s.popped)

/-- With no push under way, what was linked and not popped is popped by the delivery thread. -/
def Poppable (s : CdxQueueImpl α n) : Prop :=
  (∀ t, s.push t = .idle) → s.popped ≠ s.linked →
    ∃ k s' data, (cdxQueue α n).run s (List.replicate k .pop) = some s' ∧
      s'.popped = s.popped ++ [data] ∧ s'.linked = s.linked

/-- What holds in every state. -/
structure InOrder (s : CdxQueueImpl α n) : Prop where
  order : ∃ rest, s.linked = s.popped ++ rest
  poppable : Poppable s

/-- The delivery thread does not free a node that a poster has read from the rear and is
going to look at. -/
def Unheld (s : CdxQueueImpl α n) : QueueAct α n → Prop
  | .pop => ∀ entity drop, s.pop = .free entity drop → ∀ t, (s.push t).held ≠ some entity
  | _ => True

instance decidableUnheld : ∀ i, Decidable (Unheld s i)
  | .call _ _ | .push _ _ => .isTrue trivial
  | .pop =>
    match h : s.pop with
    | .free e d => decidable_of_iff (∀ t, (s.push t).held ≠ some e)
        ⟨fun hall _ _ hf => by cases h.symm.trans hf; exact hall, fun hall => hall e d h⟩
    | .emptyFront | .emptyRear _ | .readFront | .incRef _ | .readNext _ | .dataNext _
    | .readData _ _ | .newFront _ _ | .swapFront _ _ _ | .decRef _ _ =>
      .isTrue fun _ _ hf => nomatch h.symm.trans hf

/-! ## Steps of the posters -/

theorem load_eq {a : Nat} (h : s.live a = true) : s.load a = some (s.cells a) := if_pos h

theorem store_eq {a : Nat} (h : s.live a = true) (f : QueueNodeEntity α → QueueNodeEntity α) :
    s.store a f = some { s with cells := update s.cells a (f (s.cells a)) } := if_pos h

/-- The poster goes on, and links nothing. -/
theorem QueueEffect.quiet {p : PushPc α} (hp : p.moves = Option.none)
    (hidle : p = .idle → (s.push t).moves ≠ Option.none)
    (hpush : s'.push = update s.push t p) (hlinked : s'.linked = s.linked)
    (hpopped : s'.popped = s.popped) : QueueEffect s s' := by
  refine .none (fun u data entity tmpEntity hu hu' => ?_) (fun u hu => ?_) hlinked hpopped
  · rw [hpush] at hu'
    by_cases hut : u = t
    · rw [hut, update_self] at hu'
      rw [hu'] at hp
      cases hp
    · rw [update_of_ne hut] at hu'
      cases hu.symm.trans hu'
  · rw [hpush] at hu
    by_cases hut : u = t
    · rw [hut, update_self] at hu
      rw [hut]
      exact .inr (hidle hu)
    · rw [update_of_ne hut] at hu
      exact .inl hu

theorem QueueEffect.same : QueueEffect s s :=
  .none (fun _ _ _ _ h h' => nomatch h.symm.trans h') (fun _ => .inl) rfl rfl

/-- A step of a poster that stores in its own node, if anywhere. -/
theorem posts (hn : Nodes s l) (h : Posters s l) {p : PushPc α}
    {cells : Nat → QueueNodeEntity α} {live : Nat → Bool}
    (hgo : p ≠ .idle) (hmoves : p.moves = none) (hmoves' : (s.push t).moves = none)
    (hcells : ∀ a, s.live a = true → (s.push t).owned ≠ some a → cells a = s.cells a)
    (hlive : ∀ a, s.live a = true → live a = true)
    (howned : ∀ e, p.owned = some e → live e = true ∧ p.Filled (cells e) ∧
      ((s.push t).owned = some e ∨ s.live e = false))
    (hheld : ∀ a, p.held = some a → Shared s l a ∧ ((s.cells a).next = none → a = s.rear)) :
    Nodes { s.goto t p with cells, live } l ∧ Posters { s.goto t p with cells, live } l ∧
      QueueEffect s { s.goto t p with cells, live } := by
  refine ⟨hn.frame rfl rfl rfl rfl rfl (fun a ha => ?_) (fun a ha => ?_),
    Posters.goto hn h hmoves hmoves' hcells hlive howned hheld, .quiet hmoves (fun h => absurd h hgo) rfl rfl rfl⟩
  · exact hcells a (hn.live a ha) fun ho => (h.priv t a ho).2 ha
  · exact (hlive a (hn.live a ha)).trans (hn.live a ha).symm

/-- Filling the node. -/
theorem posts_store (hn : Nodes s l) (h : Posters s l) {p : PushPc α} {e : Nat}
    {f : QueueNodeEntity α → QueueNodeEntity α} (howned : (s.push t).owned = some e)
    (hp : p.owned = some e ∧ p.held = none ∧ p.moves = none) (hmoves : (s.push t).moves = none)
    (hfilled : p.Filled (f (s.cells e))) :
    ∃ s', (s.goto t p).store e f = some s' ∧ Nodes s' l ∧ Posters s' l ∧ QueueEffect s s' := by
  obtain ⟨hpo, hph, hpm⟩ := hp
  have hlive := (h.priv t e howned).1
  have hgo : p ≠ .idle := by
    rintro rfl
    cases hpo
  refine ⟨_, store_eq (s := s.goto t p) hlive f, posts hn h hgo hpm hmoves (fun a _ hno => ?_)
    (fun _ => id) (fun e' he' => ?_) (fun a ha => ?_)⟩
  · exact update_of_ne (fun hae => hno (by rw [howned, hae])) ..
  · cases hpo.symm.trans he'
    refine ⟨hlive, ?_, .inl howned⟩
    rw [update_self]
    exact hfilled
  · cases hph.symm.trans ha

/-- The state in which the poster has linked its node `e` behind `a`. -/
def linkedAt (s : CdxQueueImpl α n) (t : Fin n) (data : α) (e a : Nat) : CdxQueueImpl α n :=
  { s.goto t (.swapRear data e a) with
    cells := update s.cells a { s.cells a with next := some e }
    linked := s.linked ++ [data] }

theorem linkedAt_next (data : α) (e a : Nat) :
    (fun b => ((linkedAt s t data e a).cells b).next) =
      update (fun b => (s.cells b).next) a (some e) := by
  funext b
  show (update s.cells a { s.cells a with next := some e } b).next = _
  by_cases hb : b = a
  · rw [hb, update_self, update_self]
  · rw [update_of_ne hb, update_of_ne hb]

theorem linkedAt_data (data : α) (e a b : Nat) :
    ((linkedAt s t data e a).cells b).data = (s.cells b).data := by
  show (update s.cells a { s.cells a with next := some e } b).data = _
  by_cases hb : b = a
  · rw [hb, update_self]
  · rw [update_of_ne hb]

theorem linkedAt_ref (data : α) (e a b : Nat) :
    ((linkedAt s t data e a).cells b).ref = (s.cells b).ref := by
  show (update s.cells a { s.cells a with next := some e } b).ref = _
  by_cases hb : b = a
  · rw [hb, update_self]
  · rw [update_of_ne hb]

theorem linkedAt_of_ne (data : α) {e a b : Nat} (hb : b ≠ a) :
    (linkedAt s t data e a).cells b = s.cells b := update_of_ne hb ..

section Link

variable {data : α} {e a : Nat}

/-- What a poster knows when its swap of the rear's `next` succeeds. -/
theorem Posters.at_link (h : Posters s l) (hpc : s.push t = .swapNext data e a)
    (hnext : (s.cells a).next = none) :
    a = s.rear ∧ s.cells e = ⟨none, 1, some data⟩ ∧ s.live e = true ∧ ¬ Shared s l e := by
  have howned : (s.push t).owned = some e := by rw [hpc]; rfl
  have hfilled := h.filled t e howned
  rw [hpc] at hfilled
  obtain ⟨hlive, hno⟩ := h.priv t e howned
  exact ⟨(h.held t a (by rw [hpc]; rfl)).2 hnext, hfilled, hlive, hno⟩

theorem shared_linkedAt {b : Nat} :
    Shared (linkedAt s t data e a) (l ++ [e]) b ↔ Shared s l b ∨ b = e := by
  show b ∈ s.front :: (l ++ [e]) ∨ s.pop.retired = some b ↔
    (b ∈ s.front :: l ∨ s.pop.retired = some b) ∨ b = e
  rw [← List.cons_append, List.mem_append, List.mem_singleton, or_right_comm]

theorem Nodes.link (hn : Nodes s l) (h : Posters s l) (hpc : s.push t = .swapNext data e a)
    (hnext : (s.cells a).next = none) : Nodes (linkedAt s t data e a) (l ++ [e]) := by
  obtain ⟨hrear, hcell, hlive, hno⟩ := h.at_link hpc hnext
  have ha : a ∈ s.front :: l := hrear ▸ hn.rear
  have he : e ∉ s.front :: l := fun hm => hno (.inl hm)
  have hea : e ≠ a := fun hea => he (hea ▸ ha)
  obtain ⟨l₀, hl₀⟩ := hn.last ha hnext
  have hchain : Chain (fun b => ((linkedAt s t data e a).cells b).next) (some s.front)
      (s.front :: (l ++ [e])) := by
    have hold := hn.chain_cons
    rw [linkedAt_next, ← List.cons_append, hl₀]
    rw [hl₀] at hold he
    have hnone : (s.cells e).next = none := by rw [hcell]
    exact chain_snoc hold hnone he (hl₀ ▸ hn.nodup)
  exact {
    chain := hchain.2
    nodup := by
      show (s.front :: l ++ [e]).Nodup
      refine List.nodup_append.2 ⟨hn.nodup, List.nodup_singleton e, fun b hb c hc => ?_⟩
      rw [List.mem_singleton.1 hc]
      exact ne_of_mem_of_not_mem hb he
    live := fun b hb => by
      rcases shared_linkedAt.1 hb with hb | hb
      · exact hn.live b hb
      · rw [hb]
        exact hlive
    refs := fun b hb => by
      rw [linkedAt_ref]
      rcases List.mem_append.1 (show b ∈ (s.front :: l) ++ [e] from hb) with hb | hb
      · exact hn.refs b hb
      · have hbe := List.mem_singleton.1 hb
        have hfront : e ≠ s.front := fun hf => he (hf ▸ List.mem_cons_self)
        rw [hbe, hcell]
        exact (if_neg fun hc => hfront hc.2).symm
    values := by
      have hdata : (fun b => ((linkedAt s t data e a).cells b).data) =
          fun b => (s.cells b).data := funext fun b => linkedAt_data data e a b
      show (s.linked ++ [data]).map some = _
      rw [hdata, List.map_append, hn.values, List.map_append, List.map_singleton,
        List.map_singleton, hcell, List.append_assoc _ (l.map _)]
      rfl
    rear := List.mem_append_left [e] hn.rear
    pop := by
      refine hn.pop.congr rfl id (fun hne => ?_) (fun b _ => linkedAt_data data e a b) ?_
      · rw [List.head?_append_of_ne_nil _ hne]
      · intro b hb hmem
        have hbe : b ≠ e := fun hbe => hno (.inr (hbe ▸ hb))
        refine ⟨fun hm => ?_, linkedAt_of_ne data fun hba => hmem (hba ▸ ha)⟩
        rcases List.mem_append.1 (show b ∈ (s.front :: l) ++ [e] from hm) with hm | hm
        · exact hmem hm
        · exact hbe (List.mem_singleton.1 hm) }

theorem Posters.link (h : Posters s l) (hpc : s.push t = .swapNext data e a)
    (hnext : (s.cells a).next = none) : Posters (linkedAt s t data e a) (l ++ [e]) := by
  obtain ⟨hrear, hcell, hlive, hno⟩ := h.at_link hpc hnext
  have howned : (s.push t).owned = some e := by rw [hpc]; rfl
  have ha : Shared s l a := (h.held t a (by rw [hpc]; rfl)).1
  have hself : (linkedAt s t data e a).push t = .swapRear data e a := update_self ..
  have hother : ∀ u, u ≠ t → (linkedAt s t data e a).push u = s.push u := fun u hu =>
    update_of_ne hu ..
  -- No other poster is about to move the rear, since nothing is behind it.
  have hstill : ∀ u b c, (s.push u).moves ≠ some (b, c) := fun u b c hm => by
    obtain ⟨hb, hc, -⟩ := h.moving u b c hm
    rw [hb, ← hrear, hnext] at hc
    cases hc
  exact {
    priv := fun u c hc => by
      by_cases hu : u = t
      · rw [hu, hself] at hc
        cases hc
      · rw [hother u hu] at hc
        obtain ⟨hlivec, hnoc⟩ := h.priv u c hc
        refine ⟨hlivec, fun hs => ?_⟩
        rcases shared_linkedAt.1 hs with hs | hs
        · exact hnoc hs
        · exact hu (h.distinct u t e (hs ▸ hc) howned)
    distinct := fun u v c hu hv => by
      by_cases hut : u = t
      · rw [hut, hself] at hu
        cases hu
      · by_cases hvt : v = t
        · rw [hvt, hself] at hv
          cases hv
        · rw [hother u hut] at hu
          rw [hother v hvt] at hv
          exact h.distinct u v c hu hv
    filled := fun u c hc => by
      by_cases hu : u = t
      · rw [hu, hself] at hc
        cases hc
      · rw [hother u hu] at hc ⊢
        rw [linkedAt_of_ne data fun hca => (h.priv u c hc).2 (by rw [hca]; exact ha)]
        exact h.filled u c hc
    held := fun u b hb => by
      by_cases hu : u = t
      · rw [hu, hself] at hb
        cases hb
      · rw [hother u hu] at hb
        obtain ⟨hs, hlast⟩ := h.held u b hb
        refine ⟨shared_linkedAt.2 (.inl hs), fun hb => ?_⟩
        have hne : b ≠ a := fun hba => by
          rw [hba] at hb
          have hsome : (update s.cells a { s.cells a with next := some e } a).next = none := hb
          rw [update_self] at hsome
          cases hsome
        rw [linkedAt_of_ne data hne] at hb
        exact hlast hb
    moving := fun u b c hm => by
      by_cases hu : u = t
      · rw [hu, hself] at hm
        cases hm
        have hea : e ≠ a := fun hea => hno (hea ▸ ha)
        refine ⟨hrear, ?_, ?_⟩
        · show (update s.cells a { s.cells a with next := some e } a).next = some e
          rw [update_self]
        · rw [linkedAt_of_ne data hea, hcell]
      · rw [hother u hu] at hm
        exact absurd hm (hstill u b c)
    one := fun u v hu hv => by
      have hmover : ∀ w, ((linkedAt s t data e a).push w).moves ≠ none → w = t := by
        intro w hw
        by_contra hwt
        rw [hother w hwt] at hw
        obtain ⟨⟨b, c⟩, hbc⟩ := Option.ne_none_iff_exists'.1 hw
        exact hstill w b c hbc
      rw [hmover u hu, hmover v hv]
    settled := fun hnone => by
      have hmoves := hnone t
      rw [hself] at hmoves
      cases hmoves }

end Link

/-! ## The rear moves -/

theorem moves_rear (hn : Nodes s l) (h : Posters s l) {data : α} {e a : Nat}
    (hpc : s.push t = .swapRear data e a) :
    s.rear = a ∧ Nodes { s.goto t .idle with rear := e } l ∧
      Posters { s.goto t .idle with rear := e } l := by
  have hmoves : (s.push t).moves = some (a, e) := by rw [hpc]; rfl
  obtain ⟨hrear, hnext, hlast⟩ := h.moving t a e hmoves
  have he : e ∈ l := hn.next_mem (hrear ▸ hn.rear) hnext
  have hself : (update s.push t .idle) t = .idle := update_self ..
  have hother : ∀ u, u ≠ t → (update s.push t .idle) u = s.push u := fun u hu =>
    update_of_ne hu ..
  have hstill : ∀ u, (update s.push t .idle u).moves = none := fun u => by
    by_cases hu : u = t
    · rw [hu, hself]
      rfl
    · rw [hother u hu]
      by_contra hm
      exact hu (h.one u t hm (by rw [hmoves]; nofun))
  refine ⟨hrear.symm, ?_, ?_⟩
  · exact {
      hn with
      rear := List.mem_cons_of_mem _ he
      pop := hn.pop.congr rfl (fun _ hf => (List.nodup_cons.1 hn.nodup).1 (hf ▸ he)) (fun _ => rfl)
        (fun _ _ => rfl) fun _ _ hno => ⟨hno, rfl⟩ }
  · have howned : ∀ u c, (update s.push t .idle u).owned = some c →
        u ≠ t ∧ (s.push u).owned = some c := fun u c hc => by
      by_cases hu : u = t
      · rw [hu, hself] at hc
        cases hc
      · rw [hother u hu] at hc
        exact ⟨hu, hc⟩
    exact {
      priv := fun u c hc => h.priv u c (howned u c hc).2
      distinct := fun u v c hu hv => h.distinct u v c (howned u c hu).2 (howned v c hv).2
      filled := fun u c hc => by
        obtain ⟨hu, hc⟩ := howned u c hc
        show (update s.push t .idle u).Filled _
        rw [hother u hu]
        exact h.filled u c hc
      held := fun u b hb => by
        by_cases hu : u = t
        · change (update s.push t .idle u).held = some b at hb
          rw [hu, hself] at hb
          cases hb
        · change (update s.push t .idle u).held = some b at hb
          rw [hother u hu] at hb
          obtain ⟨hs, hlastb⟩ := h.held u b hb
          refine ⟨hs, fun hnone => ?_⟩
          have hba := hlastb hnone
          change (s.cells b).next = none at hnone
          rw [hba, ← hrear, hnext] at hnone
          cases hnone
      moving := fun u b c hm => by
        rw [show ({ s.goto t .idle with rear := e } : CdxQueueImpl α n).push u =
          update s.push t .idle u from rfl, hstill u] at hm
        cases hm
      one := fun u _ hu => absurd (hstill u) hu
      settled := fun _ => hlast }

/-! ## Steps of the delivery thread -/

/-- How many steps are left until a value is returned. -/
def PopPc.left : PopPc α → Nat
  | .emptyFront => 11
  | .emptyRear _ => 10
  | .readFront => 9
  | .incRef _ => 8
  | .readNext _ => 7
  | .dataNext _ => 6
  | .readData .. => 5
  | .newFront .. => 4
  | .swapFront .. => 3
  | .decRef _ (.first _) => 2
  | .decRef _ _ => 1
  | .free .. => 0

/-- What a step of the delivery thread does. -/
inductive PopEffect (s s' : CdxQueueImpl α n) : Prop
  | goes (left : s'.pop.left + 1 = s.pop.left) (popped : s'.popped = s.popped)
  | empty (taken : s.pop.taken = []) (behind : s'.pop = .emptyFront) (rear : s.front = s.rear)
    (popped : s'.popped = s.popped)
  | returns (data : α) (behind : s'.pop = .emptyFront) (popped : s'.popped = s.popped ++ [data])

/-- The state after a step of the delivery thread. -/
structure Popped (s s' : CdxQueueImpl α n) (l : List Nat) : Prop where
  nodes : Nodes s' l
  posters : Posters s' l
  push : s'.push = s.push
  linked : s'.linked = s.linked
  effect : PopEffect s s'

theorem Popped.queueEffect (h : Popped s s' l) : QueueEffect s s' := by
  have hquiet (hpopped : s'.popped = s.popped) : QueueEffect s s' := by
    refine .none (fun t data entity tmpEntity ht ht' => ?_) (fun t ht => ?_) h.linked hpopped
    · rw [h.push, ht] at ht'
      cases ht'
    · rw [h.push] at ht
      exact .inl ht
  cases h.effect with
  | goes _ hpopped => exact hquiet hpopped
  | empty _ _ _ hpopped => exact hquiet hpopped
  | returns data hbehind hpopped => exact .pop data hbehind h.push h.linked hpopped

/-- The delivery thread goes on, and a count of references may change. -/
theorem pops_ref (hn : Nodes s l) (h : Posters s l) {p : PopPc α}
    {cells : Nat → QueueNodeEntity α} (hretired : p.retired = s.pop.retired)
    (htaken : p.taken = s.pop.taken) (hleft : p.left + 1 = s.pop.left)
    (hcells : ∀ a, (cells a).next = (s.cells a).next ∧ (cells a).data = (s.cells a).data)
    (hpriv : ∀ a, ¬ Shared s l a → cells a = s.cells a)
    (hrefs : ∀ a ∈ s.front :: l, (cells a).ref = if p.counted ∧ a = s.front then 2 else 1)
    (hok : PopOk { s with cells, pop := p } l p) :
    Popped s { s with cells, pop := p } l := by
  have hshared : ∀ a, Shared { s with cells, pop := p } l a ↔ Shared s l a := fun a => by
    unfold Shared
    rw [hretired]
  have hnext : (fun a => (cells a).next) = fun a => (s.cells a).next :=
    funext fun a => (hcells a).1
  have hdata : (fun a => (cells a).data) = fun a => (s.cells a).data :=
    funext fun a => (hcells a).2
  exact {
    nodes := {
      chain := by
        show Chain (fun a => (cells a).next) (cells s.front).next l
        rw [hnext, (hcells s.front).1]
        exact hn.chain
      nodup := hn.nodup
      live := fun a ha => hn.live a ((hshared a).1 ha)
      refs := hrefs
      values := by
        show s.linked.map some = s.popped.map some ++ p.taken ++ l.map fun a => (cells a).data
        rw [htaken, hdata]
        exact hn.values
      rear := hn.rear
      pop := hok }
    posters := h.frame rfl rfl (fun a => (hcells a).1) (fun a ha => ⟨hpriv a ha, rfl⟩)
      (fun a => (hshared a).1) fun _ a _ => (hshared a).2
    push := rfl
    linked := rfl
    effect := .goes hleft rfl }

theorem pops_goto (hn : Nodes s l) (h : Posters s l) {p : PopPc α}
    (hretired : p.retired = s.pop.retired) (htaken : p.taken = s.pop.taken)
    (hcounted : p.counted = s.pop.counted) (hleft : p.left + 1 = s.pop.left) (hok : PopOk s l p) :
    Popped s { s with pop := p } l :=
  pops_ref hn h hretired htaken hleft (fun _ => ⟨rfl, rfl⟩) (fun _ _ => rfl)
    (fun a ha => by rw [hcounted]; exact hn.refs a ha)
    (hok.congr rfl id (fun _ => rfl) (fun _ _ => rfl) fun _ _ hno => ⟨hno, rfl⟩)

/-- The front's `next`. -/
theorem Ahead.next {e : Nat} (ha : Ahead s l e) (hn : Nodes s l) :
    s.live e = true ∧ ∃ node l', l = node :: l' ∧ (s.cells e).next = some node := by
  obtain ⟨he, -, hl⟩ := ha
  rw [he]
  refine ⟨hn.live _ (.inl List.mem_cons_self), ?_⟩
  cases l with
  | nil => exact absurd rfl hl
  | cons node l' => exact ⟨node, l', rfl, hn.chain.1⟩

/-- The front moves to the node behind it. -/
theorem pops_swap (hn : Nodes s l) (h : Posters s l) {e node : Nat} {d : Option α}
    (hpop : s.pop = .swapFront e (some node) d) :
    ∃ l', Popped s { s with front := node, pop := .decRef e (.first d) } l' := by
  have hok := hn.pop
  rw [hpop] at hok
  obtain ⟨⟨he, hrear, hl⟩, node', hhead, hd, hnode⟩ := hok
  cases hnode
  obtain ⟨l', rfl⟩ : ∃ l', l = node :: l' := by
    cases l with
    | nil => cases hhead
    | cons b l' =>
      cases hhead
      exact ⟨l', rfl⟩
  have hchain := hn.chain
  have hnodup := List.nodup_cons.1 hn.nodup
  have hrefs := hn.refs
  rw [hpop] at hrefs
  have hshared : ∀ a, Shared { s with front := node, pop := .decRef e (.first d) } l' a ↔
      Shared s (node :: l') a := fun a => by
    unfold Shared
    rw [hpop]
    show a ∈ node :: l' ∨ some e = some a ↔ a ∈ s.front :: node :: l' ∨ none = some a
    rw [List.mem_cons (a := a) (b := s.front), Option.some_inj, he, or_comm, eq_comm (a := a),
      or_iff_left (Option.some_ne_none a).symm]
  refine ⟨l', {
    nodes := {
      chain := hchain.2
      nodup := hnodup.2
      live := fun a ha => hn.live a ((hshared a).1 ha)
      refs := fun a ha => by
        have hne : a ≠ s.front := fun haf => hnodup.1 (haf ▸ ha)
        rw [hrefs a (List.mem_cons_of_mem _ ha), if_neg fun hc => hne hc.2]
        exact (if_neg fun hc => absurd hc.1 Bool.false_ne_true).symm
      values := by
        have hvalues := hn.values
        rw [hpop] at hvalues
        show s.linked.map some = s.popped.map some ++ [d] ++ l'.map fun a => (s.cells a).data
        have htaken : (PopPc.swapFront e (some node) d).taken = [] := rfl
        rw [hvalues, htaken, List.map_cons, hd, List.append_nil, List.append_assoc]
        rfl
      rear := by
        rcases List.mem_cons.1 hn.rear with hr | hr
        · exact absurd hr.symm hrear
        · exact hr
      pop := by
        rw [← he] at hnodup hchain hrefs
        refine ⟨hnodup.1, ?_, ?_⟩
        · show (s.cells e).next ≠ none
          rw [hchain.1]
          nofun
        · exact (hrefs e List.mem_cons_self).trans (if_pos ⟨rfl, rfl⟩) }
    posters := h.frame rfl rfl (fun _ => rfl) (fun _ _ => ⟨rfl, rfl⟩) (fun a => (hshared a).1)
      fun _ a _ => (hshared a).2
    push := rfl
    linked := rfl
    effect := .goes (by rw [hpop]; rfl) rfl }⟩

/-- The node is freed and the value returned. -/
theorem pops_free (hn : Nodes s l) (h : Posters s l) {e : Nat} {d : Option α}
    (hpop : s.pop = .free e (.last d)) (hC : ∀ t, (s.push t).held ≠ some e) :
    Popped s { s with
      live := update s.live e false
      pop := .emptyFront
      popped := s.popped ++ d.toList } l := by
  have hok := hn.pop
  rw [hpop] at hok
  obtain ⟨hmem, -⟩ := hok
  have hvalues := hn.values
  rw [hpop] at hvalues
  obtain ⟨data, rfl⟩ : ∃ data, d = some data := by
    have hd : d ∈ s.linked.map some := by
      rw [hvalues]
      exact List.mem_append_left _ (List.mem_append_right _ (List.mem_singleton_self d))
    obtain ⟨data, -, hdata⟩ := List.mem_map.1 hd
    exact ⟨data, hdata.symm⟩
  have hsharede : Shared s l e := .inr (by rw [hpop]; rfl)
  have hsub : ∀ a, a ∈ s.front :: l ∨ none = some a → Shared s l a := fun a ha =>
    .inl (ha.resolve_right (Option.some_ne_none a).symm)
  exact {
    nodes := {
      chain := hn.chain
      nodup := hn.nodup
      live := fun a ha => by
        have ha' := hsub a ha
        show update s.live e false a = true
        rw [update_of_ne fun hae => ?_]
        · exact hn.live a ha'
        · rcases ha with ha | ha
          · exact hmem (hae ▸ ha)
          · cases ha
      refs := fun a ha => by
        have hrefs := hn.refs a ha
        rw [hpop] at hrefs
        exact hrefs
      values := by
        show s.linked.map some = (s.popped ++ [data]).map some ++ [] ++ _
        rw [hvalues, List.map_append, List.append_nil]
        rfl
      rear := hn.rear
      pop := trivial }
    posters := h.frame rfl rfl (fun _ => rfl)
      (fun a ha => ⟨rfl, update_of_ne (fun hae => ha (by rw [hae]; exact hsharede)) ..⟩) hsub
      fun t a ha hs => by
        rcases hs with hs | hs
        · exact .inl hs
        · rw [hpop] at hs
          cases hs
          exact absurd ha (hC t)
    push := rfl
    linked := rfl
    effect := .returns data rfl rfl }

/-- The counts where one of them changes. -/
theorem ref_update {e : Nat} {r : Int} (a : Nat) :
    (update s.cells e { s.cells e with ref := r } a).next = (s.cells a).next ∧
      (update s.cells e { s.cells e with ref := r } a).data = (s.cells a).data := by
  by_cases ha : a = e
  · rw [ha, update_self]
    exact ⟨rfl, rfl⟩
  · rw [update_of_ne ha]
    exact ⟨rfl, rfl⟩

/-- A reference of the retired node is dropped. -/
theorem pops_dec (hn : Nodes s l) (h : Posters s l) {e : Nat} {p : PopPc α} {r : Int}
    (hretired : s.pop.retired = some e) (hmem : e ∉ s.front :: l) (hcounted : s.pop.counted = false)
    (hp : p.retired = some e ∧ p.taken = s.pop.taken ∧ p.counted = false ∧ p.left + 1 = s.pop.left)
    (hok : (s.cells e).next ≠ none →
      PopOk { s with cells := update s.cells e { s.cells e with ref := r }, pop := p } l p)
    (hnext : (s.cells e).next ≠ none) :
    Popped s { s with
      cells := update s.cells e { s.cells e with ref := r }
      pop := p } l := by
  obtain ⟨hpr, hpt, hpc, hpl⟩ := hp
  refine pops_ref hn h (hpr.trans hretired.symm) hpt hpl ref_update (fun a ha => ?_) (fun a ha => ?_)
    (hok hnext)
  · exact update_of_ne (fun hae => ha (by rw [hae]; exact .inr hretired)) ..
  · rw [update_of_ne fun hae : a = e => hmem (hae ▸ ha), hn.refs a ha, hpc, hcounted]

/-- **A step of the delivery thread** takes the front's value, or finds the queue empty. -/
theorem pops_step (hn : Nodes s l) (h : Posters s l)
    (hC : ∀ entity drop, s.pop = .free entity drop → ∀ t, (s.push t).held ≠ some entity) :
    ∃ s' l', CdxQueuePop s = some s' ∧ Popped s s' l' := by
  have hok := hn.pop
  unfold CdxQueuePop
  cases hpop : s.pop with
  | emptyFront =>
    refine ⟨_, l, rfl, pops_goto hn h ?_ ?_ ?_ ?_ rfl⟩ <;> rw [hpop] <;> rfl
  | emptyRear f =>
    rw [hpop] at hok
    refine ⟨_, l, rfl, ?_⟩
    cases (show f = s.front from hok)
    by_cases hrear : s.front = s.rear
    · rw [if_pos hrear]
      have hgo : Nodes { s with pop := .emptyFront } l ∧ Posters { s with pop := .emptyFront } l := by
        have hshared : ∀ a, Shared { s with pop := .emptyFront } l a ↔ Shared s l a := fun a => by
          unfold Shared
          rw [hpop]
          rfl
        have hrefs := hn.refs
        have hvalues := hn.values
        rw [hpop] at hrefs hvalues
        exact ⟨{ hn with
            live := fun a ha => hn.live a ((hshared a).1 ha)
            refs := hrefs, values := hvalues, pop := trivial },
          h.frame rfl rfl (fun _ => rfl) (fun _ _ => ⟨rfl, rfl⟩) (fun a => (hshared a).1)
            fun _ a _ => (hshared a).2⟩
      exact ⟨hgo.1, hgo.2, rfl, rfl, .empty (by rw [hpop]; rfl) rfl hrear rfl⟩
    · rw [if_neg hrear]
      refine pops_goto hn h ?_ ?_ ?_ ?_ ⟨rfl, hrear, fun hnil => ?_⟩
      · rw [hpop]; rfl
      · rw [hpop]; rfl
      · rw [hpop]; rfl
      · rw [hpop]; rfl
      · have hmem := hn.rear
        rw [hnil] at hmem
        exact hrear (List.mem_singleton.1 hmem).symm
  | readFront =>
    rw [hpop] at hok
    refine ⟨_, l, rfl, pops_goto hn h ?_ ?_ ?_ ?_ hok⟩ <;> rw [hpop] <;> rfl
  | incRef e =>
    rw [hpop] at hok
    have hahead : Ahead s l e := hok
    obtain ⟨hlive, -⟩ := hahead.next hn
    have hsharede : Shared s l e := .inl (hahead.1 ▸ List.mem_cons_self)
    refine ⟨_, l, store_eq (s := { s with pop := .readNext e }) hlive _, ?_⟩
    refine pops_ref hn h ?_ ?_ ?_ ref_update (fun a ha => ?_) (fun a ha => ?_) hok
    · rw [hpop]; rfl
    · rw [hpop]; rfl
    · rw [hpop]; rfl
    · exact update_of_ne (fun hae => ha (by rw [hae]; exact hsharede)) ..
    · have hrefs := hn.refs a ha
      rw [hpop, if_neg fun hc => absurd hc.1 Bool.false_ne_true] at hrefs
      by_cases hae : a = e
      · rw [hae, update_self, if_pos ⟨rfl, hahead.1⟩]
        show (s.cells e).ref + 1 = 2
        rw [← hae, hrefs]
        rfl
      · rw [update_of_ne hae, if_neg fun hc => hae (hc.2.trans hahead.1.symm)]
        exact hrefs
  | readNext e =>
    rw [hpop] at hok
    obtain ⟨hlive, node, l', -, hnext⟩ := Ahead.next hok hn
    dsimp only
    rw [load_eq hlive]
    refine ⟨_, l, rfl, ?_⟩
    rw [if_neg (by rw [hnext]; nofun)]
    refine pops_goto hn h ?_ ?_ ?_ ?_ hok <;> rw [hpop] <;> rfl
  | dataNext e =>
    rw [hpop] at hok
    obtain ⟨hlive, node, l', rfl, hnext⟩ := Ahead.next hok hn
    dsimp only
    rw [load_eq hlive, Option.bind_eq_bind, Option.bind_some, hnext]
    refine ⟨_, _, rfl, pops_goto hn h ?_ ?_ ?_ ?_ ⟨hok, rfl⟩⟩ <;> rw [hpop] <;> rfl
  | readData e node =>
    rw [hpop] at hok
    obtain ⟨hahead, hhead⟩ := hok
    have hnode : node ∈ l := List.mem_of_mem_head? hhead
    dsimp only
    rw [load_eq (hn.live node (.inl (List.mem_cons_of_mem _ hnode)))]
    refine ⟨_, l, rfl, pops_goto hn h ?_ ?_ ?_ ?_ ⟨hahead, node, hhead, rfl⟩⟩ <;> rw [hpop] <;> rfl
  | newFront e d =>
    rw [hpop] at hok
    obtain ⟨hahead, node, hhead, hd⟩ := hok
    obtain ⟨hlive, node', l', rfl, hnext⟩ := hahead.next hn
    dsimp only
    rw [load_eq hlive]
    refine ⟨_, _, rfl, pops_goto hn h ?_ ?_ ?_ ?_ ⟨hahead, node, hhead, hd, hnext.trans hhead⟩⟩ <;> rw [hpop] <;>
      rfl
  | swapFront e next d =>
    rw [hpop] at hok
    obtain ⟨⟨he, -⟩, node, -, -, rfl⟩ := hok
    obtain ⟨l', hl'⟩ := pops_swap hn h hpop
    exact ⟨_, l', if_pos he.symm, hl'⟩
  | decRef e drop =>
    rw [hpop] at hok
    cases drop with
    | retry => exact hok.elim
    | dummy => exact hok.elim
    | first d =>
      obtain ⟨hmem, hnext, href⟩ := hok
      have hlive := hn.live e (.inr (by rw [hpop]; rfl))
      have hone : (s.cells e).ref - 1 = 1 := by rw [href]; rfl
      dsimp only
      rw [store_eq hlive, hone, Option.bind_eq_bind, Option.bind_some]
      refine ⟨_, l, rfl, ?_⟩
      rw [if_neg (by dsimp only; rw [update_self]; exact Int.one_ne_zero)]
      refine pops_dec hn h ?_ hmem ?_ ?_ (fun hnext => ⟨hmem, ?_, ?_⟩) hnext
      · rw [hpop]; rfl
      · rw [hpop]; rfl
      · rw [hpop]; exact ⟨rfl, rfl, rfl, rfl⟩
      · rw [(ref_update e).1]; exact hnext
      · show (update s.cells e _ e).ref = 1
        rw [update_self]
    | last d =>
      obtain ⟨hmem, hnext, href⟩ := hok
      have hlive := hn.live e (.inr (by rw [hpop]; rfl))
      have hzero : (s.cells e).ref - 1 = 0 := by rw [href]; rfl
      dsimp only
      rw [store_eq hlive, hzero, Option.bind_eq_bind, Option.bind_some]
      refine ⟨_, l, rfl, ?_⟩
      rw [if_pos (by dsimp only; rw [update_self])]
      refine pops_dec hn h ?_ hmem ?_ ?_ (fun hnext => ⟨hmem, ?_⟩) hnext
      · rw [hpop]; rfl
      · rw [hpop]; rfl
      · rw [hpop]; exact ⟨rfl, rfl, rfl, rfl⟩
      · rw [(ref_update e).1]; exact hnext
  | free e drop =>
    rw [hpop] at hok
    cases drop with
    | retry => exact hok.elim
    | dummy => exact hok.elim
    | first d => exact hok.elim
    | last d =>
      have hlive := hn.live e (.inr (by rw [hpop]; rfl))
      exact ⟨_, l, if_pos hlive, pops_free hn h hpop (hC e _ hpop)⟩

/-! ## Steps -/

/-- Where nothing stops the delivery thread, the node it frees is not looked at again. -/
theorem pushes_step (hn : Nodes s l) (h : Posters s l) (t : Fin n) (fresh : Nat) :
    ∃ s' l', CdxQueuePush s t fresh = some s' ∧ Nodes s' l' ∧ Posters s' l' ∧
      QueueEffect s s' := by
  unfold CdxQueuePush
  cases hpc : s.push t with
  | idle => exact ⟨s, l, rfl, hn, h, .same⟩
  | alloc data =>
    by_cases hlive : s.live fresh = true
    · exact ⟨s, l, if_pos hlive, hn, h, .same⟩
    · refine ⟨_, l, if_neg hlive, posts hn h nofun rfl ?_ (fun _ _ _ => rfl) (fun a ha => ?_)
        (fun e he => ?_) nofun⟩
      · rw [hpc]; rfl
      · rw [update_of_ne fun hae : a = fresh => hlive (hae ▸ ha)]
        exact ha
      · cases he
        exact ⟨update_self .., trivial, .inr (Bool.eq_false_iff.2 hlive)⟩
  | setData data e =>
    obtain ⟨s', hs', hrest⟩ := posts_store hn h (t := t) (p := .setNext data e)
      (f := fun c => { c with data := some data }) (by rw [hpc]; rfl) ⟨rfl, rfl, rfl⟩
      (by rw [hpc]; rfl) rfl
    exact ⟨s', l, hs', hrest⟩
  | setNext data e =>
    have hfilled := h.filled t e (by rw [hpc]; rfl)
    rw [hpc] at hfilled
    obtain ⟨s', hs', hrest⟩ := posts_store hn h (t := t) (p := .setRef data e)
      (f := fun c => { c with next := none }) (by rw [hpc]; rfl) ⟨rfl, rfl, rfl⟩
      (by rw [hpc]; rfl) ⟨hfilled, rfl⟩
    exact ⟨s', l, hs', hrest⟩
  | setRef data e =>
    have hfilled := h.filled t e (by rw [hpc]; rfl)
    rw [hpc] at hfilled
    obtain ⟨s', hs', hrest⟩ := posts_store hn h (t := t) (p := .readRear data e)
      (f := fun c => { c with ref := 1 }) (by rw [hpc]; rfl) ⟨rfl, rfl, rfl⟩
      (by rw [hpc]; rfl) (by
        show (⟨(s.cells e).next, 1, (s.cells e).data⟩ : QueueNodeEntity α) = _
        rw [hfilled.1, hfilled.2])
    exact ⟨s', l, hs', hrest⟩
  | readRear data e =>
    have howned : (s.push t).owned = some e := by rw [hpc]; rfl
    have hfilled := h.filled t e howned
    rw [hpc] at hfilled
    refine ⟨_, l, rfl, posts hn h nofun rfl ?_ (fun _ _ _ => rfl) (fun _ => id) (fun c hc => ?_)
      (fun a ha => ?_)⟩
    · rw [hpc]; rfl
    · cases hc
      exact ⟨(h.priv t e howned).1, hfilled, .inl howned⟩
    · cases ha
      exact ⟨.inl hn.rear, fun _ => rfl⟩
  | swapNext data e a =>
    have howned : (s.push t).owned = some e := by rw [hpc]; rfl
    have hlive := hn.live a (h.held t a (by rw [hpc]; rfl)).1
    dsimp only
    rw [load_eq hlive, Option.bind_eq_bind, Option.bind_some]
    cases hnext : (s.cells a).next with
    | none =>
      refine ⟨linkedAt s t data e a, l ++ [e], ?_, hn.link h hpc hnext, h.link hpc hnext,
        .link t data e a hpc rfl rfl rfl⟩
      dsimp only
      rw [store_eq (s := s.goto t (.swapRear data e a)) hlive]
      rfl
    | some b =>
      have hfilled := h.filled t e howned
      rw [hpc] at hfilled
      refine ⟨_, l, rfl, posts hn h nofun rfl ?_ (fun _ _ _ => rfl) (fun _ => id) (fun c hc => ?_) nofun⟩
      · rw [hpc]; rfl
      · cases hc
        exact ⟨(h.priv t e howned).1, hfilled, .inl howned⟩
  | swapRear data e a =>
    obtain ⟨hrear, hn', h'⟩ := moves_rear hn h hpc
    exact ⟨_, l, if_pos hrear, hn', h', .quiet (t := t) (p := .idle) rfl (fun _ => by rw [hpc]; nofun)
      rfl rfl rfl⟩

theorem calls (hn : Nodes s l) (h : Posters s l) (t : Fin n) (data : α) :
    ∃ s', queueNext s (.call t data) = some s' ∧ Nodes s' l ∧ Posters s' l ∧ QueueEffect s s' := by
  unfold queueNext
  dsimp only
  cases hpc : s.push t with
  | idle =>
    refine ⟨_, rfl, posts hn h nofun rfl ?_ (fun _ _ _ => rfl) (fun _ => id) nofun nofun⟩
    rw [hpc]; rfl
  | _ => exact ⟨s, rfl, hn, h, .same⟩

/-- The shape of the queue, whatever its nodes are. -/
def QueueOrdered (s : CdxQueueImpl α n) : Prop := ∃ l, Nodes s l ∧ Posters s l

theorem queue_step {i : QueueAct α n} (h : QueueOrdered s) (hC : Unheld s i) :
    ∃ s', queueNext s i = some s' ∧ QueueEffect s s' ∧ QueueOrdered s' := by
  obtain ⟨l, hn, h⟩ := h
  cases i with
  | call t data =>
    obtain ⟨s', hs', hn', h', heffect⟩ := calls hn h t data
    exact ⟨s', hs', heffect, l, hn', h'⟩
  | push t fresh =>
    obtain ⟨s', l', hs', hn', h', heffect⟩ := pushes_step hn h t fresh
    exact ⟨s', hs', heffect, l', hn', h'⟩
  | pop =>
    obtain ⟨s', l', hs', hpopped⟩ := pops_step hn h hC
    exact ⟨s', hs', hpopped.queueEffect, l', hpopped.nodes, hpopped.posters⟩

/-! ## Runs -/

/-- What the nodes still carry follows what was popped. -/
theorem Nodes.order (hn : Nodes s l) : ∃ rest, s.linked = s.popped ++ rest := by
  have hvalues := hn.values
  rw [List.append_assoc] at hvalues
  obtain ⟨l₁, l₂, hl, h₁, -⟩ := List.map_eq_append_iff.1 hvalues
  exact ⟨l₂, by rw [hl, List.map_injective_iff.2 (fun _ _ => Option.some.inj) h₁]⟩

/-- The delivery thread does not find a queue empty that is not. -/
theorem not_empty (hn : Nodes s l) (h : Posters s l) (hidle : ∀ t, s.push t = .idle)
    (hne : s.popped ≠ s.linked) (htaken : s.pop.taken = []) : s.front ≠ s.rear := by
  intro hrear
  have hnext := h.settled fun t => by rw [hidle t]; rfl
  have hnil : l = [] := by
    have hchain := hn.chain
    rw [hrear, hnext] at hchain
    cases l with
    | nil => rfl
    | cons a l => cases hchain.1
  have hvalues := hn.values
  rw [htaken, hnil, List.append_nil, List.map_nil, List.append_nil] at hvalues
  exact hne (List.map_injective_iff.2 (fun _ _ => Option.some.inj) hvalues).symm

theorem pops_within (k : Nat) (hn : Nodes s l) (h : Posters s l) (hidle : ∀ t, s.push t = .idle)
    (hne : s.popped ≠ s.linked) (hk : s.pop.left < k) :
    ∃ k' s' data, (cdxQueue α n).run s (List.replicate k' .pop) = some s' ∧
      s'.popped = s.popped ++ [data] ∧ s'.linked = s.linked := by
  induction k generalizing s l with
  | zero => exact absurd hk (Nat.not_lt_zero _)
  | succ k ih =>
    obtain ⟨s', l', hs', hpopped⟩ := pops_step hn h fun entity drop _ t hheld => by
      rw [hidle t] at hheld
      cases hheld
    have hrun : ∀ {is s''}, (cdxQueue α n).run s' is = some s'' →
        (cdxQueue α n).run s (.pop :: is) = some s'' := fun hr =>
      Machine.run_cons_eq_some.2 ⟨s', hs', hr⟩
    cases hpopped.effect with
    | goes hleft hsame =>
      obtain ⟨k', s'', data, hrun', hpop, hlinked⟩ := ih hpopped.nodes hpopped.posters
        (fun t => by rw [hpopped.push]; exact hidle t)
        (by rw [hsame, hpopped.linked]; exact hne) (by omega)
      refine ⟨k' + 1, s'', data, hrun hrun', ?_, hlinked.trans hpopped.linked⟩
      rw [hpop, hsame]
    | empty htaken _ hrear _ => exact absurd hrear (not_empty hn h hidle hne htaken)
    | returns data _ hpop => exact ⟨1, s', data, hrun rfl, hpop, hpopped.linked⟩

theorem QueueOrdered.inOrder (h : QueueOrdered s) : InOrder s := by
  obtain ⟨l, hn, h⟩ := h
  exact ⟨hn.order, fun hidle hne => pops_within _ hn h hidle hne (Nat.lt_succ_self _)⟩

/-- The values, for every schedule in which no node is freed that a poster will look at. -/
theorem queue_law (α : Type) (n : Nat) (is : List (QueueAct α n))
    (hC : (cdxQueue α n).Meets Unheld (CdxQueueCreate α n) is) :
    (cdxQueue α n).Upholds InOrder (fun s _ s' => QueueEffect s s') (CdxQueueCreate α n) is :=
  Machine.upholds_of_inv (fun _ h => h.inOrder) (fun _ _ => queue_step)
    ⟨[], nodes_create, posters_create⟩ hC

/-- A push of a thread, and the turn of the delivery thread that pops one value. -/
def pushInputs (t : Fin 2) (fresh : Nat) : List (QueueAct Unit 2) :=
  .call t () :: List.replicate 7 (.push t fresh)

def popInputs : List (QueueAct Unit 2) := List.replicate 12 .pop

theorem queue_law_two :
    (cdxQueue Unit 2).Meets Unheld (CdxQueueCreate Unit 2)
        (pushInputs 0 1 ++ pushInputs 1 2 ++ popInputs ++ popInputs) ∧
      (cdxQueue Unit 2).Upholds InOrder (fun s _ s' => QueueEffect s s') (CdxQueueCreate Unit 2)
        (pushInputs 0 1 ++ pushInputs 1 2 ++ popInputs ++ popInputs) := by
  have hmeets : (cdxQueue Unit 2).Meets Unheld (CdxQueueCreate Unit 2)
      (pushInputs 0 1 ++ pushInputs 1 2 ++ popInputs ++ popInputs) := by decide +kernel
  exact ⟨hmeets, queue_law Unit 2 _ hmeets⟩

/-- A poster has read the rear, another posts, the dummy is freed, and the first poster looks
at it. -/
theorem stale_rear :
    ¬ (cdxQueue Unit 2).Upholds InOrder (fun s _ s' => QueueEffect s s') (CdxQueueCreate Unit 2)
      ((pushInputs 0 1).take 6 ++ pushInputs 1 2 ++ popInputs ++ [.push 0 0]) := by
  intro hup
  obtain ⟨s', hs', -⟩ := hup.last rfl
  cases hs'

end Melis.Libcore
