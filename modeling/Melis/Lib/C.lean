import Mathlib.Data.Int.NatAbs
import Mathlib.Data.List.Infix
import Mathlib.Data.List.Nodup
import Mathlib.Data.List.Perm.Subperm

/-!
# C data

C strings, and `int` arithmetic in which an overflow has no result.
-/

namespace Melis.Lib

/-- A C string without its terminating NUL. -/
abbrev CStr := List Char

/-- `x + y` in `int`; `none` is a signed overflow. -/
def intAdd (x y : Int) : Option Int :=
  if -2 ^ 31 ≤ x + y ∧ x + y < 2 ^ 31 then some (x + y) else none

theorem intAdd_eq {x y : Int} (h1 : -2 ^ 31 ≤ x + y) (h2 : x + y < 2 ^ 31) :
    intAdd x y = some (x + y) := by
  rw [intAdd, if_pos ⟨h1, h2⟩]

/-- An `int64_t` result; `none` is a signed overflow. -/
def int64 (x : Int) : Option Int := if -2 ^ 63 ≤ x ∧ x < 2 ^ 63 then some x else none

theorem int64_eq_some {x y : Int} (h : int64 x = some y) : y = x := by
  unfold int64 at h
  split at h
  · cases h
    rfl
  · cases h

theorem int64_eq {x : Int} (h1 : -2 ^ 63 ≤ x) (h2 : x < 2 ^ 63) : int64 x = some x := by
  rw [int64, if_pos ⟨h1, h2⟩]

/-- `int` arithmetic that wraps around. -/
def i32 (x : Int) : Int := x.bmod (2 ^ 32)

theorem i32_eq {x : Int} (h1 : -2 ^ 31 ≤ x) (h2 : x < 2 ^ 31) : i32 x = x := by
  unfold i32
  rw [Int.bmod_eq_of_le] <;> omega

/-- Conversion to `uint32_t`. -/
def u32 (x : Int) : Nat := (x % 2 ^ 32).toNat

/-- Conversion to `uint64_t`. -/
def u64 (x : Int) : Nat := (x % 2 ^ 64).toNat

/-- The `n` bits of a two's complement number from bit `i` on. -/
def bits (x : Int) (i n : Nat) : Nat := (x / 2 ^ i % 2 ^ n).toNat

theorem u32_eq {n : Nat} (h : n < 2 ^ 32) : u32 n = n := by
  unfold u32
  omega

theorem u32_add (x y : Nat) : u32 ((x % 2 ^ 32 : Nat) + y) = (x + y) % 2 ^ 32 := by
  unfold u32
  omega

theorem u64_add (x y : Nat) : u64 ((x % 2 ^ 64 : Nat) + y) = (x + y) % 2 ^ 64 := by
  unfold u64
  omega

/-- There are no more things than addresses. -/
theorem length_le_of_nodup {l : List UInt32} (h : l.Nodup) : l.length ≤ 2 ^ 32 := by
  have hsub : l.map UInt32.toNat ⊆ List.range (2 ^ 32) := by
    intro x hx
    obtain ⟨y, -, rfl⟩ := List.mem_map.1 hx
    exact List.mem_range.2 y.toNat_lt
  have hle := (List.subperm_of_subset (h.map fun _ _ => UInt32.toNat_inj.1) hsub).length_le
  rwa [List.length_map, List.length_range] at hle

/-- A `uint32_t` below `2 ^ 31` is the same `int`. -/
theorem toInt_of_lt {v : UInt32} (h : v.toNat < 2 ^ 31) : v.toInt32.toInt = v.toNat := by
  have hlt : 2 * v.toBitVec.toNat < 2 ^ 32 := by
    show 2 * v.toNat < _
    omega
  exact BitVec.toInt_eq_toNat_of_lt hlt

/-- The others are negative. -/
theorem toInt_of_le {v : UInt32} (h : 2 ^ 31 ≤ v.toNat) : v.toInt32.toInt < 0 := by
  have hv := v.toNat_lt
  have hge : ¬ 2 * v.toBitVec.toNat < 2 ^ 32 := by
    show ¬ 2 * v.toNat < _
    omega
  have hint : v.toInt32.toInt = v.toNat - 2 ^ 32 := by
    show v.toBitVec.toInt = _
    rw [BitVec.toInt_eq_toNat_cond, if_neg hge]
    rfl
  omega

/-- `x` rounded down to a multiple of `n`. -/
def alignDown (x n : Nat) : Nat := x / n * n

section

variable {x y n : Nat}

theorem alignDown_le (x n : Nat) : alignDown x n ≤ x := Nat.div_mul_le_self x n

theorem lt_alignDown_add (hn : 0 < n) (x : Nat) : x < alignDown x n + n := by
  exact Nat.lt_div_mul_add hn

theorem dvd_alignDown (x n : Nat) : n ∣ alignDown x n := Nat.dvd_mul_left _ _

theorem alignDown_of_dvd (h : n ∣ x) : alignDown x n = x := Nat.div_mul_cancel h

/-- A multiple of `n` is the aligned address of exactly the `n` addresses from it on. -/
theorem alignDown_eq (hn : 0 < n) (hy : n ∣ y) : alignDown x n = y ↔ y ≤ x ∧ x < y + n := by
  constructor
  · rintro rfl
    exact ⟨alignDown_le x n, lt_alignDown_add hn x⟩
  · rintro ⟨h1, h2⟩
    obtain ⟨k, rfl⟩ := hy
    unfold alignDown
    rw [Nat.mul_comm n k] at h1 h2 ⊢
    rw [Nat.div_eq_of_lt_le h1 (by rw [Nat.succ_mul]; exact h2)]

end

/-- The `n` bytes from `off` as a little-endian number. -/
def le (mem : Nat → UInt8) (off : Nat) : Nat → Nat
  | 0 => 0
  | n + 1 => (mem off).toNat + 256 * le mem (off + 1) n

/-- `memcpy` of `n` bytes from `buf + i`; `none` is a read outside the object. -/
def bytesAt {α : Type} (buf : List α) (i n : Int) : Option (List α) :=
  if 0 ≤ i ∧ 0 ≤ n ∧ i + n ≤ buf.length then some ((buf.drop i.toNat).take n.toNat) else none

theorem bytesAt_eq {α : Type} {buf : List α} {i n : Int} (hi : 0 ≤ i) (hn : 0 ≤ n)
    (h : i + n ≤ buf.length) :
    ∃ l, bytesAt buf i n = some l ∧ (l.length : Int) = n := by
  refine ⟨_, if_pos ⟨hi, hn, h⟩, ?_⟩
  rw [List.length_take, List.length_drop]
  omega

end Melis.Lib
