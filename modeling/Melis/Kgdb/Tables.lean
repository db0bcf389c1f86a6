import Melis.Kgdb.Packet

/-!
# What a table holds

The live entries of a table, those that are set or active, are the breakpoints
of its kind. `Keeps t asked` says that they are the ones in `asked`, with one
entry for an address. While no entry is active, setting an address and removing
it are an update of `asked` (`setEntry_keeps`, `removeFirst_keeps`).
-/

namespace Melis.Kgdb

open Lib Function

variable {ρ : Type} {t t' l r : List (Bkpt ρ)} {e e' : Bkpt ρ} {addr b : Addr} {type : BpType}
  {asked : Addr → Option BpType} {fill : Bkpt ρ → Bkpt ρ}

def Bkpt.isLive (e : Bkpt ρ) : Bool := e.state == .set || e.state == .active

/-- The addresses and types of the live entries. -/
def entries (t : List (Bkpt ρ)) : List (Addr × BpType) :=
  (t.filter Bkpt.isLive).map fun e => (e.bptAddr, e.type)

structure Keeps (t : List (Bkpt ρ)) (asked : Addr → Option BpType) : Prop where
  nodup : ((entries t).map Prod.fst).Nodup
  mem : ∀ addr type, asked addr = some type ↔ (addr, type) ∈ entries t

/-- No entry is active. -/
def Idle (t : List (Bkpt ρ)) : Prop := ∀ e ∈ t, e.state ≠ .active

theorem isLive_of_set (h : e.state = .set) : e.isLive = true := by simp [Bkpt.isLive, h]

theorem isLive_of_active (h : e.state = .active) : e.isLive = true := by simp [Bkpt.isLive, h]

theorem isLive_iff : e.isLive = true ↔ e.state = .set ∨ e.state = .active := by
  simp [Bkpt.isLive]

theorem isSetAt_iff : e.isSetAt addr = true ↔ e.state = .set ∧ e.bptAddr = addr := by
  simp [Bkpt.isSetAt]

theorem isSet_iff : Stub.isSet e = true ↔ e.state = .set := by simp [Stub.isSet]

theorem isActive_iff : Stub.isActive e = true ↔ e.state = .active := by simp [Stub.isActive]

theorem isSet_eq_false_iff : Stub.isSet e = false ↔ e.state ≠ .set := by
  rw [← Bool.not_eq_true, isSet_iff]

theorem isActive_eq_false (h : e.state ≠ .active) : Stub.isActive e = false := by
  rwa [← Bool.not_eq_true, isActive_iff]

theorem entries_append : entries (l ++ r) = entries l ++ entries r := by simp [entries]

theorem entries_cons_live (h : e.isLive = true) :
    entries (e :: t) = (e.bptAddr, e.type) :: entries t := by simp [entries, h]

theorem entries_cons_dead (h : e.isLive = false) : entries (e :: t) = entries t := by
  simp [entries, h]

theorem mem_entries {p : Addr × BpType} :
    p ∈ entries t ↔ ∃ e ∈ t, e.isLive = true ∧ (e.bptAddr, e.type) = p := by
  simp [entries, and_assoc]

/-- Entries that change in other fields only, or stay live, are the same to the debugger. -/
theorem entries_map {g : Bkpt ρ → Bkpt ρ}
    (hg : ∀ e ∈ t, (g e).isLive = e.isLive ∧ (g e).bptAddr = e.bptAddr ∧ (g e).type = e.type) :
    entries (t.map g) = entries t := by
  induction t with
  | nil => rfl
  | cons e t ih =>
    have htail := ih fun b hb => hg b (List.mem_cons_of_mem _ hb)
    obtain ⟨hlive, haddr, htype⟩ := hg e List.mem_cons_self
    rw [List.map_cons]
    cases h : e.isLive with
    | false => rw [entries_cons_dead (hlive.trans h), entries_cons_dead h, htail]
    | true => rw [entries_cons_live (hlive.trans h), entries_cons_live h, haddr, htype, htail]

theorem forall_mem_middle {P : Bkpt ρ → Prop} (h : ∀ x ∈ l ++ e :: r, P x) (he : P e') :
    ∀ x ∈ l ++ e' :: r, P x := by
  simp only [List.mem_append, List.mem_cons] at h ⊢
  rintro x (hx | rfl | hx)
  · exact h x (.inl hx)
  · exact he
  · exact h x (.inr (.inr hx))

namespace Keeps

theorem congr (h : Keeps t asked) (ht : entries t' = entries t) : Keeps t' asked :=
  ⟨ht ▸ h.nodup, fun addr type => ht ▸ h.mem addr type⟩

/-- Two live entries with one address are the same. -/
theorem type_eq (h : Keeps t asked) (he : e ∈ t) (hlive : e.isLive = true) :
    asked e.bptAddr = some e.type :=
  (h.mem _ _).2 (mem_entries.2 ⟨e, he, hlive, rfl⟩)

theorem exists_mem (h : Keeps t asked) (ha : asked addr = some type) :
    ∃ e ∈ t, e.isLive = true ∧ e.bptAddr = addr ∧ e.type = type := by
  obtain ⟨e, he, hlive, heq⟩ := mem_entries.1 ((h.mem addr type).1 ha)
  obtain ⟨haddr, htype⟩ := Prod.mk.inj heq
  exact ⟨e, he, hlive, haddr, htype⟩

theorem insert (h : Keeps (l ++ e :: r) asked) (he : e.isLive = false) (he' : e'.isLive = true)
    (hnone : asked e'.bptAddr = none) :
    Keeps (l ++ e' :: r) (update asked e'.bptAddr (some e'.type)) := by
  have hold : entries (l ++ e :: r) = entries l ++ entries r := by
    rw [entries_append, entries_cons_dead he]
  have hperm : (entries (l ++ e' :: r)).Perm ((e'.bptAddr, e'.type) :: entries (l ++ e :: r)) := by
    rw [hold, entries_append, entries_cons_live he']
    exact List.perm_middle
  have hnotMem : ∀ type, (e'.bptAddr, type) ∉ entries (l ++ e :: r) := fun type hmem => by
    have := (h.mem _ type).2 hmem
    rw [hnone] at this
    cases this
  constructor
  · refine (hperm.map Prod.fst).nodup_iff.2 (List.nodup_cons.2 ⟨?_, h.nodup⟩)
    intro hmem
    obtain ⟨⟨a, type⟩, hp, rfl⟩ := List.mem_map.1 hmem
    exact hnotMem type hp
  · intro addr type
    rw [hperm.mem_iff, List.mem_cons]
    by_cases haddr : addr = e'.bptAddr
    · subst haddr
      rw [update_self]
      constructor
      · intro htype
        exact .inl (by rw [Option.some.inj htype])
      · rintro (heq | hmem)
        · rw [(Prod.mk.inj heq).2]
        · exact absurd hmem (hnotMem type)
    · rw [update_of_ne haddr, h.mem]
      exact ⟨.inr, fun hor => hor.resolve_left fun heq => haddr (Prod.mk.inj heq).1⟩

theorem erase (h : Keeps (l ++ e :: r) asked) (he : e.isLive = true) (he' : e'.isLive = false) :
    Keeps (l ++ e' :: r) (update asked e.bptAddr none) := by
  have hnew : entries (l ++ e' :: r) = entries l ++ entries r := by
    rw [entries_append, entries_cons_dead he']
  have hperm : (entries (l ++ e :: r)).Perm ((e.bptAddr, e.type) :: entries (l ++ e' :: r)) := by
    rw [hnew, entries_append, entries_cons_live he]
    exact List.perm_middle
  have hnodup := (hperm.map Prod.fst).nodup_iff.1 h.nodup
  rw [List.map_cons, List.nodup_cons] at hnodup
  obtain ⟨hnot, hnodup⟩ := hnodup
  refine ⟨hnodup, fun addr type => ?_⟩
  by_cases haddr : addr = e.bptAddr
  · subst haddr
    rw [update_self]
    exact ⟨nofun, fun hmem => absurd (List.mem_map_of_mem (f := Prod.fst) hmem) hnot⟩
  · rw [update_of_ne haddr, h.mem, hperm.mem_iff, List.mem_cons]
    exact ⟨fun hor => hor.resolve_left fun heq => haddr (Prod.mk.inj heq).1, .inr⟩

end Keeps

/-! ## Setting and removing while no entry is active -/

/-- The table with one entry that changes, and the rest as it was. -/
inductive Changed (t t' : List (Bkpt ρ)) (P : Bkpt ρ → Bkpt ρ → Prop) : Prop
  | same (h : t' = t)
  | one (l r : List (Bkpt ρ)) (e e' : Bkpt ρ) (ht : t = l ++ e :: r) (ht' : t' = l ++ e' :: r)
    (hP : P e e')

theorem Changed.forall_mem {P : Bkpt ρ → Bkpt ρ → Prop} {Q : Bkpt ρ → Prop} (h : Changed t t' P)
    (hQ : ∀ e ∈ t, Q e) (hP : ∀ e ∈ t, ∀ e', P e e' → Q e') : ∀ e ∈ t', Q e := by
  cases h with
  | same h => exact h ▸ hQ
  | one l r e e' ht ht' hee =>
    subst ht ht'
    exact forall_mem_middle hQ (hP e (List.mem_append_right _ List.mem_cons_self) e' hee)

theorem asked_eq_none (h : Keeps t asked) (hidle : Idle t)
    (hnot : ∀ e ∈ t, e.isSetAt addr = false) : asked addr = none := by
  rw [Option.eq_none_iff_forall_ne_some]
  intro type hsome
  obtain ⟨e, he, hlive, haddr, -⟩ := h.exists_mem hsome
  have hset : e.state = .set := (isLive_iff.1 hlive).resolve_right (hidle e he)
  have := hnot e he
  rw [isSetAt_iff.2 ⟨hset, haddr⟩] at this
  cases this

/-- What `fill` makes of an entry. -/
structure Fills (fill : Bkpt ρ → Bkpt ρ) (addr : Addr) (type : BpType) : Prop where
  state : ∀ e, (fill e).state = .set
  bptAddr : ∀ e, (fill e).bptAddr = addr
  type : ∀ e, (fill e).type = type

theorem keeps_fill {p : Nat → Bkpt ρ → Bool} (h : Keeps t asked) (hfill : Fills fill addr type)
    (hp : ∀ i e, p i e = true → e.isLive = false) (hnone : asked addr = none)
    (hset : modifyFirst p fill 0 t = some t') :
    Keeps t' (update asked addr (some type)) ∧
      Changed t t' fun e e' => e.isLive = false ∧ e' = fill e := by
  obtain ⟨l, e, r, rfl, rfl, hpe, -⟩ := modifyFirst_eq_some hset
  have hdead := hp _ e hpe
  have hlive : (fill e).isLive = true := isLive_of_set (hfill.state e)
  refine ⟨?_, .one l r e _ rfl rfl ⟨hdead, rfl⟩⟩
  have hkeeps := h.insert hdead hlive ((hfill.bptAddr e).symm ▸ hnone)
  rwa [hfill.bptAddr, hfill.type] at hkeeps

theorem setEntry_keeps (h : Keeps t asked) (hidle : Idle t) (hfill : Fills fill addr type)
    (htype : ∀ e ∈ t, e.isSetAt addr = true → e.type = type)
    (hset : setEntry t addr fill = some t') :
    Keeps t' (update asked addr (some type)) ∧
      Changed t t' fun e e' => e.isLive = false ∧ e' = fill e := by
  unfold setEntry at hset
  split at hset
  · rename_i hany
    obtain rfl := Option.some.inj hset
    obtain ⟨e, he, hat⟩ := List.any_eq_true.1 hany
    have hsome : asked addr = some type := by
      obtain ⟨hstate, haddr⟩ := isSetAt_iff.1 hat
      rw [← haddr, h.type_eq he (isLive_of_set hstate), htype e he hat]
    refine ⟨?_, .same rfl⟩
    rwa [update_eq_self_iff.2 hsome.symm]
  · rename_i hany
    have hnone : asked addr = none := by
      refine asked_eq_none h hidle fun e he => ?_
      rw [Bool.eq_false_iff]
      exact fun hat => hany (List.any_eq_true.2 ⟨e, he, hat⟩)
    split at hset
    · rename_i hremoved
      obtain rfl := Option.some.inj hset
      exact keeps_fill h hfill (fun _ e hp => by simp_all [Bkpt.isLive]) hnone hremoved
    · exact keeps_fill h hfill (fun _ e hp => by simp_all [Bkpt.isLive]) hnone hset

theorem keeps_remove {p : Nat → Bkpt ρ → Bool} (h : Keeps t asked)
    (hp : ∀ i e, t[i]? = some e → p i e = true → (∀ j < i, ∀ d, t[j]? = some d → p j d = false) →
      e.isSetAt addr = true)
    (hrem : modifyFirst p Bkpt.remove 0 t = some t') :
    Keeps t' (update asked addr none) ∧ asked addr ≠ none ∧
      Changed t t' fun e e' => e.isSetAt addr = true ∧ e' = e.remove := by
  obtain ⟨l, e, r, rfl, rfl, hpe, hl⟩ := modifyFirst_eq_some hrem
  rw [Nat.zero_add] at hpe
  have hat : e.isSetAt addr = true := by
    refine hp l.length e (by simp) hpe fun j hj d hd => ?_
    rw [List.getElem?_append_left hj] at hd
    have := hl j d hd
    rwa [Nat.zero_add] at this
  obtain ⟨hstate, rfl⟩ := isSetAt_iff.1 hat
  have hlive := isLive_of_set hstate
  refine ⟨h.erase hlive (by simp [Bkpt.isLive, Bkpt.remove]), ?_, .one l r e _ rfl rfl ⟨hat, rfl⟩⟩
  rw [h.type_eq (by simp) hlive]
  exact nofun

/-- A search that finds nothing, where it would have found the address. -/
theorem asked_eq_none_of_modifyFirst {p : Nat → Bkpt ρ → Bool} {f : Bkpt ρ → Bkpt ρ}
    (h : Keeps t asked) (hidle : Idle t)
    (hp : ∀ i e, t[i]? = some e → e.isSetAt addr = true → p i e = true)
    (hnone : modifyFirst p f 0 t = none) : asked addr = none := by
  refine asked_eq_none h hidle fun e he => ?_
  obtain ⟨i, hi⟩ := List.mem_iff_getElem?.1 he
  have hpi := modifyFirst_eq_none hnone hi
  rw [Nat.zero_add] at hpi
  rw [Bool.eq_false_iff]
  intro hat
  rw [hp i e hi hat] at hpi
  cases hpi

/-- A removal takes out the entry of the address, if there is one. -/
theorem removeFirst_spec {p : Nat → Bkpt ρ → Bool} (h : Keeps t asked) (hidle : Idle t)
    (hright : ∀ i e, t[i]? = some e → p i e = true →
      (∀ j < i, ∀ d, t[j]? = some d → p j d = false) → e.isSetAt addr = true)
    (hfinds : ∀ i e, t[i]? = some e → e.isSetAt addr = true → p i e = true) :
    (∃ t', modifyFirst p Bkpt.remove 0 t = some t' ∧ Keeps t' (update asked addr none) ∧
      asked addr ≠ none ∧ Changed t t' fun e e' => e.isSetAt addr = true ∧ e' = e.remove) ∨
    modifyFirst p Bkpt.remove 0 t = none ∧ asked addr = none := by
  cases hm : modifyFirst p Bkpt.remove 0 t with
  | some t' => exact .inl ⟨t', rfl, keeps_remove h hright hm⟩
  | none => exact .inr ⟨rfl, asked_eq_none_of_modifyFirst h hidle hfinds hm⟩

theorem removeSetAt_spec (h : Keeps t asked) (hidle : Idle t) (addr : Addr) :
    (∃ t', modifyFirst (fun _ e => e.isSetAt addr) Bkpt.remove 0 t = some t' ∧
      Keeps t' (update asked addr none) ∧ asked addr ≠ none ∧
        Changed t t' fun e e' => e.isSetAt addr = true ∧ e' = e.remove) ∨
    modifyFirst (fun _ e => e.isSetAt addr) Bkpt.remove 0 t = none ∧ asked addr = none :=
  removeFirst_spec h hidle (fun _ _ _ hp _ => hp) fun _ _ _ hat => hat

theorem Changed.idle_remove (h : Changed t t' fun e e' => e.isSetAt addr = true ∧ e' = e.remove)
    (hidle : Idle t) : Idle t' :=
  h.forall_mem hidle fun _ _ _ he => he.2 ▸ nofun

theorem Changed.idle_fill (h : Changed t t' fun e e' => e.isLive = false ∧ e' = fill e)
    (hfill : ∀ e, (fill e).state = .set) (hidle : Idle t) : Idle t' := by
  refine h.forall_mem hidle fun e _ e' he => ?_
  rw [he.2, hfill]
  exact nofun

end Melis.Kgdb
