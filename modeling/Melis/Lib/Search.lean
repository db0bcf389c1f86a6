import Mathlib.Data.List.Basic

/-!
# Searching a list of candidates

A search tries the candidates of a list one after another over a state, until one is found or
it gives up; a try that faults or does not end is `none`. Where a candidate that is tried meets
`C` it `Does` what it should: it is found, and leaves a good state, if it is acceptable. Then the
whole search `Finds` (`search_finds`), and it does so only then where the other tries fault
(`finds_iff`).
-/

namespace Melis.Lib

universe u v

variable {ι : Type u} {μ : Type v}

inductive Try (μ : Type v)
  | next (m : μ)
  | found (m : μ)
  | giveUp (m : μ)

def search (attempt : ι → μ → Option (Try μ)) : List ι → μ → Option (Try μ)
  | [], m => some (.next m)
  | i :: is, m => (attempt i m).bind fun
    | .next m' => search attempt is m'
    | t => some t

namespace Search

variable (attempt : ι → μ → Option (Try μ)) (Good : μ → Prop) (Acc : ι → Prop)

/-- The search ends, what it finds is good, and it finds something if a candidate is
acceptable. -/
def Finds (is : List ι) (m : μ) : Prop :=
  ∃ t, search attempt is m = some t ∧ (∀ m', t = .found m' → Good m') ∧
    ((∃ i ∈ is, Acc i) → ∃ m', t = .found m')

/-- A try that does what it should, with the candidates `is` after it. -/
inductive Does (i : ι) (is : List ι) (m : μ) : Prop
  | found (m' : μ) (h : attempt i m = some (.found m')) (hgood : Good m') (hacc : Acc i)
  | next (m' : μ) (h : attempt i m = some (.next m')) (hnot : ¬ Acc i)
  | giveUp (m' : μ) (h : attempt i m = some (.giveUp m')) (hnot : ∀ j ∈ i :: is, ¬ Acc j)

/-- `C` holds of each candidate with no acceptable one before it. -/
def Tried (C : ι → List ι → Prop) : List ι → Prop
  | [] => True
  | i :: is => C i is ∧ (¬ Acc i → Tried C is)

variable {attempt Good Acc} {C : ι → List ι → Prop} {i : ι} {is : List ι} {m m' : μ}

theorem finds_nil : Finds attempt Good Acc [] m := by
  refine ⟨_, rfl, fun m' h => (nomatch h), ?_⟩
  rintro ⟨i, hi, -⟩
  cases hi

theorem finds_cons_next (h : attempt i m = some (.next m')) (hnot : ¬ Acc i) :
    Finds attempt Good Acc (i :: is) m ↔ Finds attempt Good Acc is m' := by
  have hsearch : search attempt (i :: is) m = search attempt is m' := by
    rw [search, h]
    rfl
  have hacc : (∃ j ∈ i :: is, Acc j) ↔ ∃ j ∈ is, Acc j := by
    constructor
    · rintro ⟨j, hj, hA⟩
      rcases List.mem_cons.1 hj with rfl | hj
      · exact absurd hA hnot
      · exact ⟨j, hj, hA⟩
    · rintro ⟨j, hj, hA⟩
      exact ⟨j, List.mem_cons_of_mem i hj, hA⟩
  unfold Finds
  rw [hsearch, hacc]

theorem finds_cons_of_found (h : attempt i m = some (.found m')) (hgood : Good m') :
    Finds attempt Good Acc (i :: is) m := by
  refine ⟨.found m', ?_, ?_, fun _ => ⟨m', rfl⟩⟩
  · rw [search, h]
    rfl
  · rintro _ ⟨⟩
    exact hgood

theorem finds_cons_of_giveUp (h : attempt i m = some (.giveUp m'))
    (hnot : ∀ j ∈ i :: is, ¬ Acc j) : Finds attempt Good Acc (i :: is) m := by
  refine ⟨.giveUp m', ?_, fun _ h => (nomatch h), ?_⟩
  · rw [search, h]
    rfl
  · rintro ⟨j, hj, hA⟩
    exact absurd hA (hnot j hj)

/-- **Search rule**. -/
theorem search_finds (hstep : ∀ i ∈ is, ∀ js m, C i js → Does attempt Good Acc i js m)
    (h : Tried Acc C is) : Finds attempt Good Acc is m := by
  induction is generalizing m with
  | nil => exact finds_nil
  | cons i is ih =>
    obtain ⟨hC, hrest⟩ := h
    obtain ⟨hstep, hsteps⟩ := List.forall_mem_cons.1 hstep
    cases hstep is m hC with
    | found m' h hgood _ => exact finds_cons_of_found h hgood
    | next m' h hnot => exact (finds_cons_next h hnot).2 (ih hsteps (hrest hnot))
    | giveUp m' h hnot => exact finds_cons_of_giveUp h hnot

/-- Consecutive candidates meet `C` if each does that has no acceptable one before it. -/
theorem tried_range' {Acc : Nat → Prop} {C : Nat → List Nat → Prop} {s n : Nat}
    (h : ∀ i, s ≤ i → i < s + n → (∀ j, s ≤ j → j < i → ¬ Acc j) → ∀ is, C i is) :
    Tried Acc C (List.range' s n) := by
  induction n generalizing s with
  | zero => exact trivial
  | succ n ih =>
    rw [List.range'_succ]
    refine ⟨h s (Nat.le_refl s) (by omega) (fun j hj hlt => by omega) _, fun hnot => ih ?_⟩
    intro i hle hlt hbefore
    refine h i (by omega) (by omega) fun j hj hji => ?_
    by_cases heq : j = s
    · exact heq ▸ hnot
    · exact hbefore j (by omega) hji

/-- **Exact rule**, where the tries that do not meet `C` fault, and nothing is left to try where
the search gives up. -/
theorem finds_iff {L : List ι → Prop} (htail : ∀ i is, L (i :: is) → L is)
    (hstep : ∀ i is m, L (i :: is) → C i is → Does attempt Good Acc i is m)
    (hgiveUp : ∀ i is m m', L (i :: is) → attempt i m = some (.giveUp m') → Tried Acc C is)
    (hfault : ∀ i is m, ¬ C i is → attempt i m = none) (hL : L is) :
    Finds attempt Good Acc is m ↔ Tried Acc C is := by
  induction is generalizing m with
  | nil => exact iff_of_true finds_nil trivial
  | cons i is ih =>
    by_cases hC : C i is
    · cases hstep i is m hL hC with
      | found m' h hgood hacc =>
        exact iff_of_true (finds_cons_of_found h hgood) ⟨hC, fun hnot => absurd hacc hnot⟩
      | next m' h hnot =>
        rw [finds_cons_next h hnot, ih (htail i is hL)]
        exact ⟨fun hrest => ⟨hC, fun _ => hrest⟩, fun hall => hall.2 hnot⟩
      | giveUp m' h hnot =>
        exact iff_of_true (finds_cons_of_giveUp h hnot) ⟨hC, fun _ => hgiveUp i is m m' hL h⟩
    · refine iff_of_false ?_ fun hall => hC hall.1
      rintro ⟨t, ht, -⟩
      rw [search, hfault i is m hC] at ht
      cases ht

end Search

end Melis.Lib
