import Mathlib.Data.Int.NatAbs
import Mathlib.Data.List.Flatten
import Mathlib.Data.UInt

/-!
# Boxes

A box is a size field, a tag and a body that may hold boxes. `Out` is what a
writer puts out, with the size field each box was given: `emit` are the bytes,
`Sized` says that every size field is the number of bytes of its box. Writers
compute the sizes in 32 bits, before they write: `size` is the number of bytes
in that arithmetic, and `Exact` what such a writer can achieve (`sized_iff`).
-/

namespace Melis.Lib

/-! ## Big and little endian fields -/

def be32 (v : UInt32) : List UInt8 :=
  [(v >>> 24).toUInt8, (v >>> 16).toUInt8, (v >>> 8).toUInt8, v.toUInt8]

def be24 (v : UInt32) : List UInt8 := [(v >>> 16).toUInt8, (v >>> 8).toUInt8, v.toUInt8]

def be16 (v : UInt32) : List UInt8 := [(v >>> 8).toUInt8, v.toUInt8]

def le32 (v : UInt32) : List UInt8 :=
  [v.toUInt8, (v >>> 8).toUInt8, (v >>> 16).toUInt8, (v >>> 24).toUInt8]

def fourcc (a b c d : Char) : List UInt8 := [a, b, c, d].map fun x => UInt8.ofNat x.toNat

/-- The number whose bytes are `l`, most significant first. -/
def ofBytes (l : List UInt8) : Nat := l.foldl (fun n b => 256 * n + b.toNat) 0

@[simp] theorem length_be32 (v : UInt32) : (be32 v).length = 4 := rfl

@[simp] theorem length_be24 (v : UInt32) : (be24 v).length = 3 := rfl

@[simp] theorem length_be16 (v : UInt32) : (be16 v).length = 2 := rfl

@[simp] theorem length_le32 (v : UInt32) : (le32 v).length = 4 := rfl

@[simp] theorem length_fourcc (a b c d : Char) : (fourcc a b c d).length = 4 := rfl

@[simp] theorem ofBytes_be32 (v : UInt32) : ofBytes (be32 v) = v.toNat := by
  have h := v.toNat_lt
  simp [ofBytes, be32, Nat.shiftRight_eq_div_pow]
  omega

/-! ## What a writer puts out -/

/-- `undef` stands where the writer does something that has no meaning. -/
inductive Out
  | bytes (l : List UInt8)
  | box (size : UInt32) (tag : List UInt8) (body : Out)
  | seq (a b : Out)
  | undef

namespace Out

instance : Append Out := ⟨seq⟩

instance : EmptyCollection Out := ⟨bytes []⟩

def emit : Out → List UInt8
  | bytes l => l
  | box size tag body => be32 size ++ tag ++ body.emit
  | seq a b => a.emit ++ b.emit
  | undef => []

/-- Every box has as many bytes as its size field says. -/
def Sized : Out → Prop
  | bytes _ => True
  | box size tag body => size.toNat = (box size tag body).emit.length ∧ body.Sized
  | seq a b => a.Sized ∧ b.Sized
  | undef => False

/-- The number of bytes, in 32 bits. -/
def size (o : Out) : UInt32 := UInt32.ofNat o.emit.length

/-- Every box has as many bytes as its size field says, in 32 bits. -/
def Exact : Out → Prop
  | bytes _ => True
  | box size tag body => size = (box size tag body).size ∧ body.Exact
  | seq a b => a.Exact ∧ b.Exact
  | undef => False

variable {a b o body : Out} {sz : UInt32} {tag l : List UInt8}

@[simp] theorem emit_bytes : (bytes l).emit = l := rfl

@[simp] theorem emit_empty : (∅ : Out).emit = [] := rfl

@[simp] theorem emit_append : (a ++ b).emit = a.emit ++ b.emit := rfl

theorem emit_box : (box sz tag body).emit = be32 sz ++ tag ++ body.emit := rfl

@[simp] theorem length_emit_box :
    (box sz tag body).emit.length = 4 + tag.length + body.emit.length := by
  simp [emit_box]
  omega

@[simp] theorem size_bytes : (bytes l).size = UInt32.ofNat l.length := rfl

@[simp] theorem size_empty : (∅ : Out).size = 0 := rfl

@[simp] theorem size_append : (a ++ b).size = a.size + b.size := by
  simp [size]

@[simp] theorem size_box : (box sz tag body).size = 4 + UInt32.ofNat tag.length + body.size := by
  simp [size]

@[simp] theorem exact_bytes : (bytes l).Exact := trivial

@[simp] theorem exact_empty : (∅ : Out).Exact := trivial

@[simp] theorem exact_append : (a ++ b).Exact ↔ a.Exact ∧ b.Exact := Iff.rfl

@[simp] theorem not_exact_undef : ¬ undef.Exact := id

theorem exact_box : (box sz tag body).Exact ↔ sz = (box sz tag body).size ∧ body.Exact := Iff.rfl

@[simp] theorem sized_bytes : (bytes l).Sized := trivial

@[simp] theorem sized_append : (a ++ b).Sized ↔ a.Sized ∧ b.Sized := Iff.rfl

theorem sized_box :
    (box sz tag body).Sized ↔ sz.toNat = 4 + tag.length + body.emit.length ∧ body.Sized := by
  rw [← length_emit_box ]
  exact Iff.rfl

/-- Where all the bytes can be counted in 32 bits, the size fields are right just if
they are right in 32 bits. -/
theorem sized_iff : ∀ {o : Out}, o.emit.length < 2 ^ 32 → (o.Sized ↔ o.Exact)
  | bytes _, _ => Iff.rfl
  | undef, _ => Iff.rfl
  | seq a b, h => by
    replace h : (a ++ b).emit.length < 2 ^ 32 := h
    rw [emit_append, List.length_append] at h
    exact and_congr (sized_iff (by omega)) (sized_iff (by omega))
  | box sz tag body, h => by
    have hbody : body.emit.length < 2 ^ 32 := by
      rw [length_emit_box] at h
      omega
    refine and_congr ?_ (sized_iff hbody)
    rw [size, ← UInt32.toNat_inj, UInt32.toNat_ofNat_of_lt' h]

/-- `s` is the size of the output, and its boxes have theirs. -/
def Fits (o : Out) (s : UInt32) : Prop := o.Exact ∧ o.size = s

theorem fits_bytes {s : UInt32} (h : UInt32.ofNat l.length = s) : (bytes l).Fits s := ⟨trivial, h⟩

theorem fits_length (n : Nat) (h : l.length = n) : (bytes l).Fits (.ofNat n) := fits_bytes (by rw [h])

theorem fits_empty : (∅ : Out).Fits 0 := fits_bytes rfl

theorem Fits.append {s t : UInt32} (ha : a.Fits s) (hb : b.Fits t) : (a ++ b).Fits (s + t) :=
  ⟨⟨ha.1, hb.1⟩, by rw [size_append, ha.2, hb.2]⟩

/-- A box fits if its size field counts the eight bytes before its body. -/
theorem fits_box_iff (htag : tag.length = 4) : (box sz tag body).Fits sz ↔ body.Fits (sz - 8) := by
  unfold Fits
  rw [exact_box, size_box, htag]
  constructor
  · rintro ⟨⟨h, hb⟩, -⟩
    exact ⟨hb, by grind⟩
  · rintro ⟨hb, h⟩
    exact ⟨⟨by grind, hb⟩, by grind⟩

theorem Fits.box {s : UInt32} (h : body.Fits s) (htag : tag.length = 4) (hsz : sz = 8 + s) :
    (Out.box sz tag body).Fits sz := by
  rw [fits_box_iff htag]
  have hs : sz - 8 = s := by grind
  rwa [hs]

/-- Outputs one after another. -/
def concat : List Out → Out
  | [] => ∅
  | o :: os => o ++ concat os

theorem fits_concat {β : Type} {f : β → Out} {g : β → UInt32} {bs : List β}
    (h : ∀ b ∈ bs, (f b).Fits (g b)) : (concat (bs.map f)).Fits (bs.map g).sum := by
  induction bs with
  | nil => exact fits_empty
  | cons b bs ih =>
    obtain ⟨hb, hbs⟩ := List.forall_mem_cons.1 h
    exact hb.append (ih hbs)

theorem Sized.of_mem_concat {os : List Out} (h : (concat os).Sized) (ho : o ∈ os) : o.Sized := by
  induction os with
  | nil => cases ho
  | cons p os ih =>
    rcases List.mem_cons.1 ho with rfl | ho
    · exact h.1
    · exact ih h.2 ho

end Out

end Melis.Lib
