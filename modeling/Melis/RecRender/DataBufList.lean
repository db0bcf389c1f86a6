import Melis.RecRender.Copy

/-!
# The list of data buffers as a ring

The addresses of the buffers, in the order of the list, are one ring. The copy of
a packet goes around it once, from the write position on.
-/

namespace Melis.RecRender

open Lib Memory

variable {β : Type}

namespace DynamicBuffer

variable {b : DynamicBuffer} {a : Nat}

theorem mem_cells : a ∈ b.cells ↔ b.contains a = true := by
  rw [cells, List.mem_range'_1, contains, stop, Bool.and_eq_true, decide_eq_true_eq,
    decide_eq_true_eq]

/-- A buffer is cut at each of its addresses. -/
theorem cells_split (h : a ∈ b.cells) :
    b.cells = List.range' b.mpBuffer (a - b.mpBuffer) ++ List.range' a (b.stop - a) := by
  rw [cells, List.mem_range'_1] at h
  have hsize : b.mSize = (a - b.mpBuffer) + (b.stop - a) := by
    unfold stop
    omega
  have hstart : b.mpBuffer + (a - b.mpBuffer) = a := by omega
  rw [cells, hsize, ← List.range'_append_1, hstart]

end DynamicBuffer

namespace PushedPacket

variable {p : PushedPacket β}

theorem length_bytes (h : ¬p.Illegal) : (p.bytes.length : Int) = p.size := by
  have hlen : p.bytes.length = p.mSize0.toNat + p.mSize1.toNat := by
    rw [bytes, List.length_append, data0, data1, List.length_map, List.length_map,
      List.length_range, List.length_range]
  have h0 : 0 ≤ p.mSize0 := Int.not_lt.mp fun hneg => h (.inl hneg)
  have h1 : 0 ≤ p.mSize1 := Int.not_lt.mp fun hneg => h (.inr (.inl hneg))
  rw [hlen, size]
  omega

end PushedPacket

namespace RecSinkPacket

variable {e : RecSinkPacket β}

theorem length_cells : e.cells.length = e.mSize0 + e.mSize1 := by
  rw [cells, List.length_append, List.length_range', List.length_range']

end RecSinkPacket

namespace RsPacketCacheManager

variable {m : RsPacketCacheManager β} {p : PushedPacket β}

/-- The addresses of the buffers, in the order of the list. -/
def ring (m : RsPacketCacheManager β) : List Nat := m.mDataBufList.flatMap DynamicBuffer.cells

/-- The buffers do not meet, and the write position is in one of them. -/
structure Buffers (m : RsPacketCacheManager β) : Prop where
  size : ∀ b ∈ m.mDataBufList, 0 < b.mSize
  nodup : m.ring.Nodup
  total : m.mBufSize = m.ring.length
  write : m.mpWritePos ∈ m.ring

theorem Buffers.nodup_list (h : m.Buffers) : m.mDataBufList.Nodup := by
  obtain ⟨-, hdisjoint⟩ := List.nodup_flatMap.mp h.nodup
  refine hdisjoint.imp_of_mem fun {b b'} hb _ hbb' heq => ?_
  subst heq
  have hpos := h.size b hb
  have hstart : b.mpBuffer ∈ b.cells := List.mem_range'_1.mpr ⟨Nat.le_refl _, by omega⟩
  exact hbb' hstart hstart

theorem Buffers.congr {m' : RsPacketCacheManager β} (h : m.Buffers)
    (hbufs : m'.mDataBufList = m.mDataBufList) (hsize : m'.mBufSize = m.mBufSize)
    (hwrite : m'.mpWritePos ∈ m.ring) : m'.Buffers := by
  have hring : m'.ring = m.ring := by
    unfold ring
    rw [hbufs]
  exact ⟨hbufs ▸ h.size, hring ▸ h.nodup, by rw [hsize, hring, h.total], hring ▸ hwrite⟩

/-- The write position cuts the list of buffers. -/
theorem Buffers.exists_split (h : m.Buffers) :
    ∃ B b vs, m.mDataBufList = B ++ b :: vs ∧ m.mpWritePos ∈ b.cells ∧
      ∀ x ∈ B, x.contains m.mpWritePos = false := by
  obtain ⟨b', hb', hmem⟩ := List.mem_flatMap.mp h.write
  have hsome : (m.mDataBufList.find? (·.contains m.mpWritePos)).isSome :=
    List.find?_isSome.mpr ⟨b', hb', DynamicBuffer.mem_cells.mp hmem⟩
  obtain ⟨b, hb⟩ := Option.isSome_iff_exists.mp hsome
  obtain ⟨hin, B, vs, hsplit, hout⟩ := List.find?_eq_some_iff_append.mp hb
  exact ⟨B, b, vs, hsplit, DynamicBuffer.mem_cells.mpr hin, by simpa using hout⟩

/-- What the copy of a packet leaves: `l` is the ring from the write position on. -/
structure Copied (m : RsPacketCacheManager β) (p : PushedPacket β) (l : List Nat)
    (r : Copy β × Flow) : Prop where
  mem : ∃ as, as <+: l ∧ as.length ≤ p.bytes.length ∧
    r.1.mem = store m.mem as (p.bytes.take as.length)
  done : r.2 = .done → r.1.mem = store m.mem (l.take p.bytes.length) p.bytes ∧
    r.1.cells = l.take p.bytes.length ∧
    (l.drop p.bytes.length ++ l.take p.bytes.length).head? = some r.1.pWritePos

theorem Buffers.copy (h : m.Buffers) (hpos : p.bytes ≠ []) (hfits : p.bytes.length ≤ m.ring.length) :
    ∃ l, l.IsRotated m.ring ∧ l.head? = some m.mpWritePos ∧
      Copied m p l (m.startCopy.loops p m.mDataBufList) := by
  obtain ⟨B, b, vs, hbufs, hin, hout⟩ := h.exists_split
  have hready : Copy.Ready p m.startCopy :=
    ⟨⟨Nat.zero_le _, Nat.zero_le _, fun h => absurd h (Nat.lt_irrefl 0)⟩, fun _ _ => rfl⟩
  have hrest : m.startCopy.rest p = p.bytes := rfl
  obtain ⟨after, hfollows⟩ := hready.loops (hrest ▸ hpos) hbufs h.nodup_list h.size
    (DynamicBuffer.mem_cells.mp hin) hout
  generalize m.startCopy.loops p m.mDataBufList = r at hfollows
  have hstop : m.mpWritePos < b.stop := by
    have := List.mem_range'_1.mp hin
    exact this.2
  let front := List.range' b.mpBuffer (m.mpWritePos - b.mpBuffer)
  let back := List.range' m.mpWritePos (b.stop - m.mpWritePos)
  have hcells : b.cells = front ++ back := DynamicBuffer.cells_split hin
  have hring : m.ring = B.flatMap DynamicBuffer.cells ++ front ++
      (back ++ vs.flatMap DynamicBuffer.cells) := by
    unfold ring
    rw [hbufs, List.flatMap_append, List.flatMap_cons, hcells]
    simp only [List.append_assoc]
  let l := back ++ vs.flatMap DynamicBuffer.cells ++ (B.flatMap DynamicBuffer.cells ++ front)
  have hl : l.IsRotated m.ring := by
    rw [hring]
    exact List.isRotated_append
  obtain ⟨back', hback⟩ : ∃ back', back = m.mpWritePos :: back' := by
    obtain ⟨k, hk⟩ : ∃ k, b.stop - m.mpWritePos = k + 1 :=
      ⟨b.stop - m.mpWritePos - 1, by omega⟩
    exact ⟨List.range' (m.mpWritePos + 1) k, by simp only [back, hk, List.range'_succ]⟩
  have hhead : l.head? = some m.mpWritePos := by
    simp only [l, hback]
    rfl
  have hpath : List.range' m.startCopy.pWritePos (b.stop - m.startCopy.pWritePos) ++
      (vs ++ B ++ [b]).flatMap DynamicBuffer.cells = l ++ back := by
    have hone : [b].flatMap DynamicBuffer.cells = front ++ back := by
      rw [List.flatMap_cons, hcells, List.flatMap_nil, List.append_nil]
    rw [List.flatMap_append, List.flatMap_append, hone]
    simp only [l, List.append_assoc]
    rfl
  have hlen : p.bytes.length ≤ l.length := hl.perm.length_eq ▸ hfits
  rw [hpath] at hfollows
  refine ⟨l, hl, hhead, ?_, fun hdone => ?_⟩
  · obtain ⟨as, hpre, hadv⟩ := hfollows.advances
    have has : as.length ≤ p.bytes.length := hadv.fits
    exact ⟨as, List.prefix_of_prefix_length_le hpre (List.prefix_append ..) (by omega), has,
      hadv.mem⟩
  · obtain ⟨-, hadv, hpw⟩ := hfollows.done hdone
    rw [hrest] at hadv hpw
    have htake : (l ++ back).take p.bytes.length = l.take p.bytes.length :=
      List.take_append_of_le_length hlen
    have htakeLen : (l.take p.bytes.length).length = p.bytes.length := by
      rw [List.length_take, Nat.min_eq_left hlen]
    rw [htake] at hadv
    refine ⟨?_, ?_, ?_⟩
    · have hmem := hadv.mem
      rwa [hrest, htakeLen, List.take_length] at hmem
    · exact hadv.cells
    · rw [hpw, List.drop_append_of_le_length hlen]
      obtain ⟨k, hk⟩ : ∃ k, p.bytes.length = k + 1 :=
        ⟨p.bytes.length - 1, by have := List.length_pos_of_ne_nil hpos; omega⟩
      have htakeHead : (l.take p.bytes.length).head? = some m.mpWritePos := by
        rw [hk]
        simp only [l, hback]
        rfl
      cases l.drop p.bytes.length with
      | nil =>
        rw [List.nil_append, List.nil_append, htakeHead, hback]
        rfl
      | cons a l' => rfl

/-- A packet that does not fit makes the list grow. -/
theorem nEnlargeSize_le (h : m.nLeftBufSize < p.size) :
    p.size ≤ m.nLeftBufSize + m.nEnlargeSize p := by
  unfold nEnlargeSize avpacketCacheEnlargeSize
  have hdiv := Nat.div_add_mod (p.size - m.nLeftBufSize + ↑(2 * 1024 * 1024) - 1).toNat
    (2 * 1024 * 1024)
  have hmod := Nat.mod_lt (p.size - m.nLeftBufSize + ↑(2 * 1024 * 1024) - 1).toNat
    (show 0 < 2 * 1024 * 1024 by decide)
  omega

/-- A buffer is added at `a`. -/
def grown (m : RsPacketCacheManager β) (a n : Nat) : RsPacketCacheManager β :=
  { m with mDataBufList := m.mDataBufList ++ [⟨a, n⟩], mBufSize := m.mBufSize + n }

theorem ring_grown (m : RsPacketCacheManager β) (a n : Nat) :
    (m.grown a n).ring = m.ring ++ List.range' a n := by
  unfold ring grown
  rw [List.flatMap_append, List.flatMap_cons, List.flatMap_nil, List.append_nil]
  rfl

theorem Buffers.grown {a n : Nat} (h : m.Buffers) (hn : 0 < n) (hfresh : m.Fresh a n) :
    (m.grown a n).Buffers := by
  refine ⟨?_, ?_, ?_, ?_⟩
  · intro b hb
    rcases List.mem_append.mp hb with hb | hb
    · exact h.size b hb
    · rw [List.mem_singleton.mp hb]
      exact hn
  · rw [ring_grown]
    refine List.nodup_append'.mpr ⟨h.nodup, List.nodup_range', ?_⟩
    intro x hx hx'
    obtain ⟨b, hb, hin⟩ := List.mem_flatMap.mp hx
    have hout := hfresh.2 b hb
    have hin' := List.mem_range'_1.mp hin
    have hx'' := List.mem_range'_1.mp hx'
    unfold DynamicBuffer.stop at hout
    omega
  · change m.mBufSize + n = _
    rw [ring_grown, List.length_append, List.length_range', Int.natCast_add, ← h.total]
  · rw [ring_grown]
    exact List.mem_append_left _ h.write

end RsPacketCacheManager

end Melis.RecRender
