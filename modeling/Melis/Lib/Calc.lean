import Melis.Lib.C

/-!
# `uint32_t` arithmetic with a record of its faults

A product wraps, and it is kept whether one has; a division by zero has no result. `Exact m x` says
that `m` gives `x` without either. A calculation is exact where each of its steps is, so that the
lemmas below take it apart.
-/

namespace Melis.Lib

/-- The result, if nothing was divided by zero, and whether every product was below 2^32. -/
structure Calc (α : Type) where
  result : Option α
  fits : Bool
  deriving DecidableEq

namespace Calc

variable {α β : Type} {m : Calc α} {f : α → Calc β} {x y : α} {a b c : Nat}

instance : Monad Calc where
  pure x := { result := some x, fits := true }
  bind m f := match m.result with
    | some x => { f x with fits := m.fits && (f x).fits }
    | none => { result := none, fits := m.fits }

def mul (a b : Nat) : Calc Nat := { result := some (a * b % 2 ^ 32), fits := a * b < 2 ^ 32 }

def div (a b : Nat) : Calc Nat := { result := if b = 0 then none else some (a / b), fits := true }

def Exact (m : Calc α) (x : α) : Prop := m.result = some x ∧ m.fits = true

@[simp] theorem exact_pure : Exact (pure x : Calc α) y ↔ y = x := by
  have hresult : (pure x : Calc α).result = some x := rfl
  have hfits : (pure x : Calc α).fits = true := rfl
  simp [Exact, hresult, hfits, eq_comm]

@[simp] theorem exact_bind {z : β} : Exact (m >>= f) z ↔ ∃ x, Exact m x ∧ Exact (f x) z := by
  obtain ⟨result, fits⟩ := m
  unfold Exact
  cases result with
  | none =>
    have hnone : ((⟨none, fits⟩ : Calc α) >>= f).result = none := rfl
    simp [hnone]
  | some x =>
    have hresult : ((⟨some x, fits⟩ : Calc α) >>= f).result = (f x).result := rfl
    have hfits : ((⟨some x, fits⟩ : Calc α) >>= f).fits = (fits && (f x).fits) := rfl
    rw [hresult, hfits, Bool.and_eq_true]
    constructor
    · rintro ⟨hz, hm, hf⟩
      exact ⟨x, ⟨rfl, hm⟩, hz, hf⟩
    · rintro ⟨y, ⟨hy, hm⟩, hz, hf⟩
      cases hy
      exact ⟨hz, hm, hf⟩

@[simp] theorem exact_mul : Exact (mul a b) c ↔ a * b < 2 ^ 32 ∧ c = a * b := by
  unfold Exact mul
  rw [Option.some.injEq, decide_eq_true_eq]
  constructor
  · rintro ⟨rfl, hlt⟩
    exact ⟨hlt, Nat.mod_eq_of_lt hlt⟩
  · rintro ⟨hlt, rfl⟩
    exact ⟨Nat.mod_eq_of_lt hlt, hlt⟩

@[simp] theorem exact_div : Exact (div a b) c ↔ b ≠ 0 ∧ c = a / b := by
  unfold Exact div
  by_cases hb : b = 0
  · simp [hb]
  · simp [hb, eq_comm]

end Calc

end Melis.Lib
