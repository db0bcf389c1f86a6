import Mathlib.Data.Nat.Digits.Lemmas

/-!
# Numerals

The digits of a number in a base, the first one first, and the sum that a parser builds from them
modulo `M`. A numeral of a fixed length has the lowest digits.
-/

namespace Melis.Lib

variable {base M n acc len : Nat} {ds : List Nat}

/-- The value of the digits, summed up modulo `M`. -/
def horner (base M acc : Nat) (ds : List Nat) : Nat :=
  ds.foldl (fun a d => (a * base + d) % M) acc

theorem horner_cons (d : Nat) :
    horner base M acc (d :: ds) = horner base M ((acc * base + d) % M) ds := rfl

theorem horner_reverse (ds : List Nat) : horner base M 0 ds.reverse = Nat.ofDigits base ds % M := by
  unfold horner
  rw [List.foldl_reverse]
  induction ds with
  | nil => simp
  | cons d ds ih =>
    rw [List.foldr_cons, ih, Nat.ofDigits_cons, Nat.add_mod, Nat.mul_mod, Nat.mod_mod, ← Nat.mul_mod,
      ← Nat.add_mod, Nat.mul_comm, Nat.add_comm]

/-- The digits of a number. Zero has one. -/
def places (base n : Nat) : List Nat := if n = 0 then [0] else (Nat.digits base n).reverse

theorem horner_places (base M n : Nat) : horner base M 0 (places base n) = n % M := by
  unfold places
  split
  · rename_i hzero
    rw [hzero]
    simp [horner]
  · rw [horner_reverse, Nat.ofDigits_digits]

theorem ofDigits_places (base n : Nat) : Nat.ofDigits base (places base n).reverse = n := by
  unfold places
  split
  · rename_i hzero
    rw [hzero]
    rfl
  · rw [List.reverse_reverse, Nat.ofDigits_digits]

theorem places_lt (hbase : 1 < base) : ∀ d ∈ places base n, d < base := by
  unfold places
  split
  · simp
    omega
  · intro d hd
    exact Nat.digits_lt_base hbase (List.mem_reverse.1 hd)

theorem places_ne_nil (base n : Nat) : places base n ≠ [] := by
  unfold places
  split
  · exact List.cons_ne_nil _ _
  · rename_i hne
    rw [Ne, List.reverse_eq_nil_iff]
    exact Nat.digits_ne_nil_iff_ne_zero.2 hne

theorem head_places (hn : n ≠ 0) : (places base n).head? ≠ some 0 := by
  unfold places
  rw [if_neg hn, List.head?_reverse, List.getLast?_eq_getLast_of_ne_nil
    (Nat.digits_ne_nil_iff_ne_zero.2 hn), Ne, Option.some.injEq]
  exact Nat.getLast_digit_ne_zero base hn

theorem length_places (hbase : 1 < base) (hlen : 0 < len) (hn : n < base ^ len) :
    (places base n).length ≤ len := by
  unfold places
  split
  · exact hlen
  · rw [List.length_reverse]
    exact (Nat.digits_length_le_iff hbase n).2 hn

/-- The lowest digits, the first one last. -/
def lowDigits (base : Nat) : Nat → Int → List Nat
  | 0, _ => []
  | len + 1, n => (n % base).toNat :: lowDigits base len (n / base)

theorem length_lowDigits (n : Int) : (lowDigits base len n).length = len := by
  induction len generalizing n with
  | zero => rfl
  | succ len ih => rw [lowDigits, List.length_cons, ih]

theorem lowDigits_lt (hbase : 0 < base) (n : Int) : ∀ d ∈ lowDigits base len n, d < base := by
  induction len generalizing n with
  | zero => exact nofun
  | succ len ih =>
    rw [lowDigits, List.forall_mem_cons]
    refine ⟨?_, ih _⟩
    have hpos : (0 : Int) < base := by omega
    have hlt := Int.emod_lt_of_pos n hpos
    omega

/-- The lowest digits say what the number is modulo a power of the base. -/
theorem ofDigits_lowDigits (hbase : 0 < base) (n : Int) :
    ((Nat.ofDigits base (lowDigits base len n) : Nat) : Int) = n % (base : Int) ^ len := by
  induction len generalizing n with
  | zero => simp [lowDigits, Int.emod_one]
  | succ len ih =>
    have hpos : (0 : Int) < base := by omega
    have hnonneg := Int.emod_nonneg n (Int.ne_of_gt hpos)
    rw [lowDigits, Nat.ofDigits_cons, Nat.cast_add, Nat.cast_mul, ih,
      Int.toNat_of_nonneg hnonneg]
    simp only [Int.emod_def, pow_succ', Int.ediv_ediv_of_nonneg hpos.le]
    ring

end Melis.Lib
