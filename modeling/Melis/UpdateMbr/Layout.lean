import Melis.Lib.Extents
import Melis.UpdateMbr.PartInfo

/-!
# The layout of the partitions

`Tiles lo array hi`: the partitions of `array` lie end to end from sector `lo` to sector `hi`.
The loop of `update_for_part_info` keeps this for the sections that it has read (`Made.add`).
-/

namespace Melis.UpdateMbr

open Lib

def Tiles : Nat → List sunxi_partition → Nat → Prop
  | lo, [], hi => lo = hi
  | lo, p :: array, hi => p.addr = lo ∧ Tiles (lo + p.len) array hi

namespace Tiles

variable {lo hi : Nat} {array : List sunxi_partition} {p : sunxi_partition}

theorem append (h : Tiles lo array hi) (hp : p.addr = hi) :
    Tiles lo (array ++ [p]) (hi + p.len) := by
  induction array generalizing lo with
  | nil => exact ⟨hp.trans h.symm, by rw [← (show lo = hi from h)]; rfl⟩
  | cons q array ih => exact ⟨h.1, ih h.2⟩

theorem head (h : Tiles lo array hi) (hp : array.head? = some p) : p.addr = lo := by
  cases array with
  | nil => cases hp
  | cons q array =>
    cases hp
    exact h.1

theorem end_eq (h : Tiles lo array hi) (hp : array.getLast? = some p) : p.addr + p.len = hi := by
  induction array generalizing lo with
  | nil => cases hp
  | cons q array ih =>
    cases array with
    | nil =>
      obtain rfl : q = p := by simpa using hp
      rw [h.1]
      exact h.2
    | cons r array =>
      rw [List.getLast?_cons_cons] at hp
      exact ih h.2 hp

/-- Each partition starts where the one before ends. -/
theorem next (h : Tiles lo array hi) {i : Nat} {q : sunxi_partition} (hp : array[i]? = some p)
    (hq : array[i + 1]? = some q) : q.addr = p.addr + p.len := by
  induction array generalizing lo i with
  | nil => cases hp
  | cons r array ih =>
    cases i with
    | zero =>
      cases hp
      rw [h.1]
      refine h.2.head ?_
      rw [List.head?_eq_getElem?]
      simpa using hq
    | succ i => exact ih h.2 (by simpa using hp) (by simpa using hq)

theorem addr_ge (h : Tiles lo array hi) (hp : p ∈ array) : lo ≤ p.addr := by
  induction array generalizing lo with
  | nil => cases hp
  | cons r array ih =>
    rcases List.mem_cons.1 hp with rfl | hp
    · exact Nat.le_of_eq h.1.symm
    · exact (Nat.le_add_right _ _).trans (ih h.2 hp)

theorem disjoint (h : Tiles lo array hi) :
    array.Pairwise fun p q => Apart p.addr p.len q.addr q.len := by
  induction array generalizing lo with
  | nil => exact .nil
  | cons r array ih =>
    refine .cons (fun q hq => .inl ?_) (ih h.2)
    rw [h.1]
    exact h.2.addr_ge hq

end Tiles

/-! ## The next address -/

theorem or_shift (p : sunxi_partition) :
    (p.addrlo.toNat ||| p.addrhi.toNat <<< 32) = p.addr := by
  unfold sunxi_partition.addr
  rw [Nat.or_comm, ← Nat.shiftLeft_add_eq_or_of_lt p.addrlo.isLt, Nat.shiftLeft_eq, Nat.add_comm]

theorem len_eq {p : sunxi_partition} (h : p.lenhi = 0) : p.len = p.lenlo.toNat := by
  unfold sunxi_partition.len
  simp [h]

/-- The address is right as long as it has 64 bits. -/
theorem nextAddr_eq {mbr_size : Word} {array : List sunxi_partition} {hi : Nat}
    (h : Tiles mbr_size.toNat array hi) (hlenhi : ∀ p ∈ array, p.lenhi = 0) (hlt : hi < 2 ^ 64) :
    (nextAddr mbr_size array).2.toNat + (nextAddr mbr_size array).1.toNat * 2 ^ 32 = hi := by
  unfold nextAddr
  cases hlast : array.getLast? with
  | none =>
    rw [List.getLast?_eq_none_iff] at hlast
    subst hlast
    have hend : mbr_size.toNat = hi := h
    simpa using hend
  | some p =>
    have hzero := hlenhi p (List.mem_of_getLast? hlast)
    have hend := h.end_eq hlast
    rw [len_eq hzero] at hend
    dsimp only
    rw [or_shift, hend, BitVec.toNat_ofNat, BitVec.toNat_ofNat, Nat.shiftRight_eq_div_pow]
    omega

/-! ## What the loop makes -/

/-- A section as the table lists it. -/
def Section.listed (s : Section) : List Byte × Nat := (padded 16 s.name, s.lenlo.toNat)

def sunxi_partition.listed (p : sunxi_partition) : List Byte × Nat := (p.name, p.len)

/-- The download entry `d` is of the section `s`, and has the address of the partition `p`. -/
structure Downloads (s : Section) (d : dl_one_part_info) (p : sunxi_partition) : Prop where
  name : d.name = p.name
  address : d.addrhi = p.addrhi ∧ d.addrlo = p.addrlo
  lenlo : d.lenlo = p.lenlo
  lenhi : d.lenhi = wordAt (padded 32 s.name) 24

/-- The tables are those of the sections `ss`. -/
structure Made (mbr_size : Word) (ss : List Section) (t : Tables) (hi : Nat) : Prop where
  listed : t.array.map (·.listed) = ss.map (·.listed)
  tiles : Tiles mbr_size.toNat t.array hi
  hi_lt : hi < 2 ^ 32 * (t.array.length + 1)
  lenhi : ∀ p ∈ t.array, p.lenhi = 0
  udisk : t.udisk_exist = true ↔ ∃ s ∈ ss, s.name = UDISK
  downloads : ∀ d ∈ t.downloads, ∃ s ∈ ss, s.download.isSome ∧ ∃ p ∈ t.array, Downloads s d p
  count : t.downloads.length ≤ t.array.length
  all : ∀ s ∈ ss, s.download.isSome → ∃ d ∈ t.downloads, d.lenhi = wordAt (padded 32 s.name) 24

theorem Made.empty (mbr_size : Word) : Made mbr_size [] ⟨[], [], false⟩ mbr_size.toNat where
  listed := rfl
  tiles := rfl
  hi_lt := by simpa using mbr_size.isLt
  lenhi := by simp
  udisk := by simp
  downloads := by simp
  count := Nat.le_refl _
  all := by simp

/-- The entry that is added for a section. -/
def newPart (mbr_size : Word) (t : Tables) (s : Section) : sunxi_partition :=
  { addrhi := (nextAddr mbr_size t.array).1, addrlo := (nextAddr mbr_size t.array).2
    lenhi := 0, lenlo := s.lenlo
    classname := padded 16 (ascii "DISK"), name := padded 16 s.name
    user_type := s.user_type, keydata := s.keydata, ro := s.ro }

theorem array_add (mbr_size : Word) (t : Tables) (s : Section) :
    (t.add mbr_size s).array = t.array ++ [newPart mbr_size t s] := rfl

theorem mem_downloads_add {mbr_size : Word} {t : Tables} {s : Section} {d : dl_one_part_info} :
    d ∈ (t.add mbr_size s).downloads ↔ d ∈ t.downloads ∨
      ∃ x, s.download = some x ∧ d =
        { name := padded 16 s.name, addrhi := (nextAddr mbr_size t.array).1
          addrlo := (nextAddr mbr_size t.array).2
          lenhi := wordAt (padded 32 s.name) 24, lenlo := s.lenlo
          dl_filename := x.filename, vf_filename := x.vf_filename
          encrypt := x.encrypt, verify := x.verify } := by
  unfold Tables.add
  cases hdown : s.download <;> simp

theorem Made.add {mbr_size : Word} {ss : List Section} {t : Tables} {hi : Nat}
    (h : Made mbr_size ss t hi) (hlt : t.array.length < 2 ^ 31) (s : Section) :
    Made mbr_size (ss ++ [s]) (t.add mbr_size s) (hi + s.lenlo.toNat) := by
  have hroom := h.hi_lt
  have haddr : (newPart mbr_size t s).addr = hi :=
    nextAddr_eq h.tiles h.lenhi (by omega)
  have hlen : (newPart mbr_size t s).len = s.lenlo.toNat := len_eq rfl
  refine ⟨?_, ?_, ?_, ?_, ?_, ?_, ?_, ?_⟩
  · rw [array_add, List.map_append, List.map_append, h.listed]
    unfold sunxi_partition.listed Section.listed
    simp only [List.map_cons, List.map_nil, hlen]
    rfl
  · rw [array_add, ← hlen]
    exact h.tiles.append haddr
  · have hs := s.lenlo.isLt
    rw [array_add, List.length_append, List.length_singleton]
    omega
  · intro p hp
    rw [array_add] at hp
    rcases List.mem_append.1 hp with hp | hp
    · exact h.lenhi p hp
    · rw [List.mem_singleton.1 hp]
      rfl
  · have hudisk := h.udisk
    have hor : (t.add mbr_size s).udisk_exist = (t.udisk_exist || decide (s.name = UDISK)) := rfl
    rw [hor, Bool.or_eq_true, hudisk, decide_eq_true_eq]
    simp only [List.mem_append, List.mem_singleton, or_and_right, exists_or, exists_eq_left]
  · intro d hd
    rcases mem_downloads_add.1 hd with hd | ⟨x, hx, rfl⟩
    · obtain ⟨s', hs', hdown, p, hp, hdp⟩ := h.downloads d hd
      exact ⟨s', List.mem_append_left _ hs', hdown, p, List.mem_append_left _ hp, hdp⟩
    · refine ⟨s, List.mem_append_right _ (List.mem_singleton.2 rfl), by simp [hx],
        newPart mbr_size t s, List.mem_append_right _ (List.mem_singleton.2 rfl), ?_⟩
      exact ⟨rfl, ⟨rfl, rfl⟩, rfl, rfl⟩
  · have hcount := h.count
    unfold Tables.add
    cases hdown : s.download <;> simp <;> omega
  · intro s' hs' hdown
    rcases List.mem_append.1 hs' with hs' | hs'
    · obtain ⟨d, hd, hlenhi⟩ := h.all s' hs' hdown
      exact ⟨d, mem_downloads_add.2 (.inl hd), hlenhi⟩
    · obtain rfl := List.mem_singleton.1 hs'
      obtain ⟨x, hx⟩ := Option.isSome_iff_exists.1 hdown
      exact ⟨_, mem_downloads_add.2 (.inr ⟨x, hx, rfl⟩), rfl⟩

end Melis.UpdateMbr
