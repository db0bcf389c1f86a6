import Mathlib.Data.Int.NatAbs
import Mathlib.Order.Lattice

/-!
# The boot package in memory

The header `sbrom_toc1_head_info` stands at `CONFIG_BOOTPKG_BASE` with the magic at offset 16,
the sum at 20 and the length at 36. `verify_addsum` adds the words of the package with
`STAMP_VALUE` in place of the sum. Memory is counted from the base on, and an access behind its
end is `none`.
-/

namespace Melis.Sboot

def TOC_MAIN_INFO_MAGIC : UInt32 := 0x89119800

def STAMP_VALUE : UInt32 := 0x5F0A6C39

/-- The length of a package on NAND is a multiple. -/
def ALIGN_SIZE : Nat := 16 * 1024

/-- The memory from the base of the package on, which has 32-bit addresses. -/
structure Dram where
  room : Nat
  head_fits : 64 * 512 ≤ room
  room_lt : room < 2 ^ 32

abbrev Ram := Nat → UInt8

/-- `n` bytes are stored from `dst` on. -/
def Dram.put (D : Dram) (m : Ram) (dst n : Nat) (bytes : Nat → UInt8) : Option Ram :=
  if dst + n ≤ D.room then
    some fun k => if dst ≤ k ∧ k < dst + n then bytes (k - dst) else m k
  else none

def word (m : Ram) (a : Nat) : UInt32 :=
  (m a).toUInt32 ||| (m (a + 1)).toUInt32 <<< 8 ||| (m (a + 2)).toUInt32 <<< 16 |||
    (m (a + 3)).toUInt32 <<< 24

def magic (m : Ram) : UInt32 := word m 16

def add_sum (m : Ram) : UInt32 := word m 20

def valid_len (m : Ram) : Nat := (word m 36).toNat

/-- The number of words that the loops of `verify_addsum` add. The first loop takes four before
it tests, so that fewer than four make `count` wrap around. -/
def sumCount (size : Nat) : Nat :=
  let count := size / 4
  if count < 4 then count + 2 ^ 32 else count

/-- The sum of the first words, with the stamp in the place of `add_sum`. -/
def sumWords (m : Ram) : Nat → UInt32
  | 0 => 0
  | n + 1 => sumWords m n + if n = 5 then STAMP_VALUE else word m (4 * n)

def verify_addsum (D : Dram) (m : Ram) (size : Nat) : Option Int :=
  if 4 * sumCount size ≤ D.room then
    some (if sumWords m (sumCount size) = add_sum m then 0 else -1)
  else none

/-- A package with the right magic whose `valid_len` bytes pass the checksum. -/
def Package (m : Ram) : Prop :=
  magic m = TOC_MAIN_INFO_MAGIC ∧ 16 ≤ valid_len m ∧ sumWords m (valid_len m / 4) = add_sum m

instance {m : Ram} : Decidable (Package m) := inferInstanceAs (Decidable (_ ∧ _ ∧ _))

/-- The bytes of a list of blocks one after another. -/
def image (size : Nat) (byte : Nat → Nat → UInt8) : List Nat → Ram
  | [], _ => 0
  | b :: bs, k => if k < size then byte b k else image size byte bs (k - size)

/-- `m` and `m'` have the same first `n` bytes. -/
def AgreeTo (n : Nat) (m m' : Ram) : Prop := ∀ k, k < n → m k = m' k

section

variable {D : Dram} {m m' m'' : Ram} {a n n' dst size : Nat} {bytes : Nat → UInt8}

theorem AgreeTo.symm (h : AgreeTo n m m') : AgreeTo n m' m := fun k hk => (h k hk).symm

theorem AgreeTo.mono (h : AgreeTo n m m') (hn : n' ≤ n) : AgreeTo n' m m' :=
  fun k hk => h k (Nat.lt_of_lt_of_le hk hn)

theorem AgreeTo.word (h : AgreeTo n m m') (ha : a + 4 ≤ n) : word m a = word m' a := by
  unfold Sboot.word
  rw [h a (by omega), h (a + 1) (by omega), h (a + 2) (by omega), h (a + 3) (by omega)]

theorem AgreeTo.magic (h : AgreeTo n m m') (hn : 64 ≤ n) : magic m = magic m' :=
  h.word (by omega)

theorem AgreeTo.valid_len (h : AgreeTo n m m') (hn : 64 ≤ n) : valid_len m = valid_len m' :=
  congrArg UInt32.toNat (h.word (by omega))

theorem AgreeTo.add_sum (h : AgreeTo n m m') (hn : 64 ≤ n) : add_sum m = add_sum m' :=
  h.word (by omega)

theorem AgreeTo.sumWords (h : AgreeTo n m m') {c : Nat} (hc : 4 * c ≤ n) :
    sumWords m c = sumWords m' c := by
  induction c with
  | zero => rfl
  | succ c ih =>
    unfold Sboot.sumWords
    rw [ih (by omega), h.word (by omega)]

/-- A package is its header and its `valid_len` bytes. -/
theorem Package.congr (h : Package m) (hm : AgreeTo n m m') (hn : 64 ≤ n)
    (hlen : valid_len m ≤ n) : Package m' := by
  obtain ⟨hmagic, hle, hsum⟩ := h
  have hlen' := hm.valid_len hn
  refine ⟨(hm.magic hn).symm.trans hmagic, hlen' ▸ hle, ?_⟩
  rw [← hlen', ← hm.add_sum hn, ← hsum]
  exact (hm.sumWords (by omega)).symm

theorem aligned_dvd (h : size &&& (ALIGN_SIZE - 1) = 0) : ALIGN_SIZE ∣ size := by
  have hmod : size &&& (2 ^ 14 - 1) = size % 2 ^ 14 := Nat.and_two_pow_sub_one_eq_mod size 14
  exact Nat.dvd_of_mod_eq_zero (hmod.symm.trans h)

theorem aligned_le (h : size &&& (ALIGN_SIZE - 1) = 0) (hne : size ≠ 0) : ALIGN_SIZE ≤ size :=
  Nat.le_of_dvd (Nat.pos_of_ne_zero hne) (aligned_dvd h)

theorem sumCount_of_le (h : 16 ≤ size) : sumCount size = size / 4 :=
  if_neg (by omega)

theorem verify_of_le (h : 16 ≤ size) (hroom : size ≤ D.room) :
    verify_addsum D m size = some (if sumWords m (size / 4) = add_sum m then 0 else -1) := by
  unfold verify_addsum
  rw [sumCount_of_le h]
  exact if_pos (by omega)

/-- Too short a package makes the sum run out of the memory. -/
theorem verify_of_lt (h : size < 16) : verify_addsum D m size = none := by
  have := D.room_lt
  unfold verify_addsum sumCount
  rw [if_pos (by omega : size / 4 < 4)]
  exact if_neg (by omega)

theorem put_eq_some (m : Ram) (bytes : Nat → UInt8) (h : dst + n ≤ D.room) :
    D.put m dst n bytes = some fun k => if dst ≤ k ∧ k < dst + n then bytes (k - dst) else m k :=
  if_pos h

theorem put_eq_none (h : D.room < dst + n) : D.put m dst n bytes = none := if_neg (by omega)

theorem image_of_lt {byte : Nat → Nat → UInt8} {b k : Nat} {bs : List Nat} (hk : k < size) :
    image size byte (b :: bs) k = byte b k := if_pos hk

theorem image_of_le {byte : Nat → Nat → UInt8} {b k : Nat} {bs : List Nat} (hk : size ≤ k) :
    image size byte (b :: bs) k = image size byte bs (k - size) := if_neg (by omega)

end

end Melis.Sboot
