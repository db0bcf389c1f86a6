import Melis.Lib.C

/-!
# NOR flash

A flash is its bytes. Programming clears bits, erasing sets whole blocks to
`0xFF`. `blit` is a copy into a buffer, for read-modify-write.
-/

namespace Melis.Lib

abbrev Flash := Nat → UInt8

namespace Flash

/-- The `n` bytes from `addr`. -/
def read (mem : Flash) (addr n : Nat) : List UInt8 := (List.range n).map fun i => mem (addr + i)

def erase (mem : Flash) (addr n : Nat) : Flash := fun x =>
  if addr ≤ x ∧ x < addr + n then 0xFF else mem x

def program (mem : Flash) (addr : Nat) (buf : List UInt8) : Flash := fun x =>
  if addr ≤ x ∧ x < addr + buf.length then mem x &&& buf.getD (x - addr) 0 else mem x

end Flash

/-- `memcpy(buf + pos, l, |l|)`. -/
def blit (buf : List UInt8) (pos : Nat) (l : List UInt8) : List UInt8 :=
  buf.take pos ++ l ++ buf.drop (pos + l.length)

section

variable {mem : Flash} {addr n pos i x : Nat} {buf l : List UInt8}

@[simp] theorem Flash.length_read : (mem.read addr n).length = n := by
  simp [Flash.read]

theorem Flash.getD_read (h : i < n) : (mem.read addr n).getD i 0 = mem (addr + i) := by
  simp [Flash.read, List.getD, h]

theorem Flash.erase_in (h1 : addr ≤ x) (h2 : x < addr + n) : mem.erase addr n x = 0xFF :=
  if_pos ⟨h1, h2⟩

theorem Flash.erase_out (h : x < addr ∨ addr + n ≤ x) : mem.erase addr n x = mem x :=
  if_neg (by omega)

theorem Flash.program_in (h1 : addr ≤ x) (h2 : x < addr + buf.length) :
    mem.program addr buf x = mem x &&& buf.getD (x - addr) 0 :=
  if_pos ⟨h1, h2⟩

theorem Flash.program_out (h : x < addr ∨ addr + buf.length ≤ x) : mem.program addr buf x = mem x :=
  if_neg (by omega)

/-- An erased byte takes any value. -/
@[simp] theorem erased_and (b : UInt8) : 0xFF &&& b = b := UInt8.neg_one_and

theorem length_blit (h : pos + l.length ≤ buf.length) : (blit buf pos l).length = buf.length := by
  simp [blit]
  omega

theorem getD_blit (h : pos + l.length ≤ buf.length) :
    (blit buf pos l).getD i 0 =
      if pos ≤ i ∧ i < pos + l.length then l.getD (i - pos) 0 else buf.getD i 0 := by
  unfold blit
  simp only [List.getD_eq_getElem?_getD]
  by_cases h1 : i < pos
  · rw [if_neg (by omega), List.append_assoc, List.getElem?_append_left (by simp; omega),
      List.getElem?_take_of_lt h1]
  · by_cases h2 : i < pos + l.length
    · rw [if_pos ⟨by omega, h2⟩, List.getElem?_append_left (by simp; omega),
        List.getElem?_append_right (by simp; omega), List.length_take, min_eq_left (by omega)]
    · rw [if_neg (by omega), List.getElem?_append_right (by simp; omega), List.getElem?_drop]
      congr 2
      simp
      omega

end

end Melis.Lib
