import Melis.Lib.Flash

/-!
# Writing to a partition

`partWrite` (`_part_write` of `blkpart.c`) cuts a write into a head page, whole
pages and a tail page; head and tail are read, changed and written back. With
`erase_before_write` a page at the start of a block first erases the block.
`written` is the flash after a write. It is what a write should leave exactly
when the part of the first block that is not erased only needs bits cleared, and
the other bytes of the erased blocks were blank (`partWrite_exact_iff`).
-/

namespace Melis.Blkpart

open Lib

/-- `page_bytes` and `blk_bytes` of a `struct blkpart`. -/
structure Geometry where
  pageBytes : Nat
  blkBytes : Nat
  page_pos : 0 < pageBytes
  page_dvd : pageBytes ∣ blkBytes
  blk_pos : 0 < blkBytes

/-- `off` and `bytes` of a `struct part`. -/
structure PartRange where
  off : Nat
  bytes : Nat

section

variable (geo : Geometry)

/-- `do_write_without_erase`. -/
def doWriteWithoutErase (mem : Flash) (addr : Nat) (buf : List UInt8) : Flash :=
  mem.program addr buf

/-- `do_erase_write_blk`. -/
def doEraseWriteBlk (mem : Flash) (addr : Nat) (buf : List UInt8) : Flash :=
  let mem := if addr % geo.blkBytes = 0 then mem.erase addr geo.blkBytes else mem
  mem.program addr buf

def pwrite (eraseBeforeWrite : Bool) : Flash → Nat → List UInt8 → Flash :=
  if eraseBeforeWrite then doEraseWriteBlk geo else doWriteWithoutErase

/-- Step 1 of `_part_write`: the head page. Also the offset and the data that are left. -/
def writeHead (er : Bool) (mem : Flash) (offset : Nat) (data : List UInt8) :
    Flash × Nat × List UInt8 :=
  if offset % geo.pageBytes = 0 then (mem, offset, data)
  else
    let addr := alignDown offset geo.pageBytes
    let poff := offset - addr
    let len := min (geo.pageBytes - poff) data.length
    let pageBuf := blit (mem.read addr geo.pageBytes) poff (data.take len)
    (pwrite geo er mem addr pageBuf, offset + len, data.drop len)

/-- Step 2: `n` whole pages. -/
def writePages (er : Bool) : Nat → Flash → Nat → List UInt8 → Flash × Nat × List UInt8
  | 0, mem, offset, data => (mem, offset, data)
  | n + 1, mem, offset, data =>
    writePages er n (pwrite geo er mem offset (data.take geo.pageBytes)) (offset + geo.pageBytes)
      (data.drop geo.pageBytes)

/-- Step 3: the tail page. -/
def writeTail (er : Bool) (mem : Flash) (offset : Nat) (data : List UInt8) : Flash :=
  if data = [] then mem
  else pwrite geo er mem offset (blit (mem.read offset geo.pageBytes) 0 data)

/-- `_part_write` of `data`: the flash afterwards and the number of bytes written. -/
def partWrite (er : Bool) (part : PartRange) (mem : Flash) (offset : Nat) (data : List UInt8) :
    Flash × Nat :=
  if data = [] then (mem, 0)
  else if part.bytes ≤ offset then (mem, 0)
  else
    let data := data.take (part.bytes - offset)
    let (mem, offset, rest) := writeHead geo er mem (offset + part.off) data
    let (mem, offset, rest) := writePages geo er (rest.length / geo.pageBytes) mem offset rest
    (writeTail geo er mem offset rest, data.length)

/-- `part_erase_before_write`. -/
def partEraseBeforeWrite (part : PartRange) (mem : Flash) (offset : Nat) (data : List UInt8) :
    Flash × Nat :=
  partWrite geo true part mem offset data

/-! ## The flash after a write -/

/-- The block of `x` starts in the pages of a write from `o` up to the page at `p`. -/
def Erased (o p x : Nat) : Prop :=
  alignDown o geo.pageBytes ≤ alignDown x geo.blkBytes ∧ alignDown x geo.blkBytes < p

instance (o p x : Nat) : Decidable (Erased geo o p x) := inferInstanceAs (Decidable (_ ∧ _))

/-- The flash after the bytes of `data` for `[o, e)` were written, in pages below `p`. In an
erased block, a page that is partly written survives only as the first of its block. -/
def written (o : Nat) (data : List UInt8) (e p : Nat) (mem : Flash) : Flash := fun x =>
  if o ≤ x ∧ x < e then
    if Erased geo o p x then data.getD (x - o) 0 else mem x &&& data.getD (x - o) 0
  else if Erased geo o p x ∧ alignDown x geo.pageBytes ≠ alignDown x geo.blkBytes then 0xFF
  else mem x

end

section

variable {geo : Geometry} {o e p x : Nat} {data : List UInt8} {mem : Flash}

theorem page_dvd_block (x : Nat) : geo.pageBytes ∣ alignDown x geo.blkBytes :=
  Nat.dvd_trans geo.page_dvd (dvd_alignDown _ _)

/-- One more page erases the block that starts with it, if there is one. -/
theorem erased_add_page (hp : geo.pageBytes ∣ p) (ho : alignDown o geo.pageBytes ≤ p) :
    Erased geo o (p + geo.pageBytes) x ↔ Erased geo o p x ∨ alignDown x geo.blkBytes = p := by
  have hpos := geo.page_pos
  unfold Erased
  constructor
  · rintro ⟨h1, h2⟩
    by_cases h : alignDown x geo.blkBytes < p
    · exact .inl ⟨h1, h⟩
    · have := (alignDown_eq hpos hp).2 ⟨not_lt.1 h, h2⟩
      rw [alignDown_of_dvd (page_dvd_block x)] at this
      exact .inr this
  · rintro (⟨h1, h2⟩ | h)
    · exact ⟨h1, by omega⟩
    · rw [h]
      exact ⟨ho, by omega⟩

/-- What one more page does not write and does not erase. -/
theorem written_elsewhere {lo : Nat} (hp : geo.pageBytes ∣ p) (ho : alignDown o geo.pageBytes ≤ p)
    (hle : lo ≤ e) (hx : ¬ (lo ≤ x ∧ x < e)) (hb : alignDown x geo.blkBytes ≠ p) :
    written geo o data lo p mem x = written geo o data e (p + geo.pageBytes) mem x := by
  have hin : o ≤ x ∧ x < lo ↔ o ≤ x ∧ x < e := by omega
  simp only [written, hin, erased_add_page hp ho, hb, or_false]

/-- **One page.** The page at `p` gets the bytes from `lo` to `e` and keeps the rest. -/
theorem doEraseWriteBlk_written {lo : Nat} {buf : List UInt8} (hp : geo.pageBytes ∣ p)
    (ho : alignDown o geo.pageBytes ≤ p) (hlo : lo = max o p) (hle : lo ≤ e)
    (he : e ≤ p + geo.pageBytes) (hlen : buf.length = geo.pageBytes)
    (hbuf : ∀ x, p ≤ x → x < p + geo.pageBytes → buf.getD (x - p) 0 =
      if lo ≤ x ∧ x < e then data.getD (x - o) 0 else written geo o data lo p mem x) :
    doEraseWriteBlk geo (written geo o data lo p mem) p buf =
      written geo o data e (p + geo.pageBytes) mem := by
  have hPB : geo.pageBytes ≤ geo.blkBytes := Nat.le_of_dvd geo.blk_pos geo.page_dvd
  funext x
  have hpage : alignDown x geo.pageBytes = p ↔ p ≤ x ∧ x < p + geo.pageBytes :=
    alignDown_eq geo.page_pos hp
  have hnew := erased_add_page (x := x) hp ho
  have hout : p ≤ x → written geo o data lo p mem x =
      if Erased geo o p x ∧ alignDown x geo.pageBytes ≠ alignDown x geo.blkBytes then 0xFF
      else mem x := fun h => if_neg (by omega)
  unfold doEraseWriteBlk
  by_cases hdvd : p % geo.blkBytes = 0
  · have hblk : alignDown x geo.blkBytes = p ↔ p ≤ x ∧ x < p + geo.blkBytes :=
      alignDown_eq geo.blk_pos (Nat.dvd_of_mod_eq_zero hdvd)
    rw [if_pos hdvd]
    by_cases hx : alignDown x geo.blkBytes = p
    · -- the block was not erased before this page
      have hE : ¬ Erased geo o p x := fun h => by
        have := h.2
        omega
      obtain ⟨h1, h2⟩ := hblk.1 hx
      by_cases hpx : x < p + geo.pageBytes
      · rw [Flash.program_in h1 (by omega), Flash.erase_in h1 h2, erased_and, hbuf x h1 hpx, hout h1,
          if_neg (c := _ ∧ _ ≠ _) fun h => hE h.1]
        unfold written
        by_cases hin : lo ≤ x ∧ x < e
        · rw [if_pos hin, if_pos ⟨by omega, hin.2⟩, if_pos (hnew.2 (.inr hx))]
        · rw [if_neg hin, if_neg (by omega), if_neg fun h => h.2 ((hpage.2 ⟨h1, hpx⟩).trans hx.symm)]
      · rw [Flash.program_out (by omega), Flash.erase_in h1 h2]
        unfold written
        rw [if_neg (by omega), if_pos ⟨hnew.2 (.inr hx), fun h => hpx (hpage.1 (h.trans hx)).2⟩]
    · have hx' : x < p ∨ p + geo.blkBytes ≤ x := by
        by_contra h
        exact hx (hblk.2 (by omega))
      rw [Flash.program_out (by omega), Flash.erase_out hx']
      exact written_elsewhere hp ho hle (by omega) hx
  · have hx : alignDown x geo.blkBytes ≠ p := fun h =>
      hdvd (Nat.mod_eq_zero_of_dvd (h ▸ dvd_alignDown x geo.blkBytes))
    rw [if_neg hdvd]
    by_cases hpx : p ≤ x ∧ x < p + geo.pageBytes
    · rw [Flash.program_in hpx.1 (by omega), hbuf x hpx.1 hpx.2]
      by_cases hin : lo ≤ x ∧ x < e
      · have hin' : o ≤ x ∧ x < e := ⟨by omega, hin.2⟩
        rw [if_pos hin, hout hpx.1]
        by_cases hE : Erased geo o p x
        · rw [if_pos ⟨hE, fun h => hx (h.symm.trans (hpage.2 hpx))⟩, erased_and]
          unfold written
          rw [if_pos hin', if_pos (hnew.2 (.inl hE))]
        · rw [if_neg fun h => hE h.1]
          unfold written
          rw [if_pos hin', if_neg fun h => hE ((hnew.1 h).resolve_right hx)]
      · rw [if_neg hin, UInt8.and_self]
        exact written_elsewhere hp ho hle hin hx
    · rw [Flash.program_out (by omega)]
      exact written_elsewhere hp ho hle (by omega) hx

/-! ## The three steps -/

theorem written_nil (h : p ≤ alignDown o geo.pageBytes) : written geo o data o p mem = mem := by
  funext x
  unfold written Erased
  rw [if_neg (by omega), if_neg (by omega)]

/-- A page buffer read from flash and changed from `lo` to `e`. -/
theorem getD_pageBuf {lo : Nat} {l : List UInt8} {m : Flash} (h1 : p ≤ lo)
    (he : lo + l.length ≤ p + geo.pageBytes) (hl : ∀ y, lo ≤ y → y < lo + l.length →
      l.getD (y - lo) 0 = data.getD (y - o) 0) (hx1 : p ≤ x) (hx2 : x < p + geo.pageBytes) :
    (blit (m.read p geo.pageBytes) (lo - p) l).getD (x - p) 0 =
      if lo ≤ x ∧ x < lo + l.length then data.getD (x - o) 0 else m x := by
  rw [getD_blit (by rw [Flash.length_read]; omega)]
  by_cases hin : lo ≤ x ∧ x < lo + l.length
  · rw [if_pos (by omega), if_pos hin, ← hl x hin.1 hin.2]
    congr 1
    omega
  · rw [if_neg (by omega), if_neg hin, Flash.getD_read (by omega)]
    congr 1
    omega

/-- Where a write stands: `[o, e)` is done in the pages below `p`, and either `e` is at the
end of them or nothing is left. -/
structure Stands (geo : Geometry) (o : Nat) (data : List UInt8) (mem : Flash) (e : Nat)
    (r : Flash × Nat × List UInt8) (p : Nat) : Prop where
  page : geo.pageBytes ∣ p
  le_page : alignDown o geo.pageBytes ≤ p
  offset : r.2.1 = e
  o_le : o ≤ e
  rest : r.2.2 = data.drop (e - o)
  le_end : e ≤ o + data.length
  done : e ≤ p ∧ p < e + geo.pageBytes
  more : r.2.2 ≠ [] → e = p
  mem : r.1 = written geo o data e p mem

theorem writeHead_stands : ∃ e p, Stands geo o data mem e (writeHead geo true mem o data) p := by
  have hpos := geo.page_pos
  have hle := alignDown_le o geo.pageBytes
  have hlt := lt_alignDown_add hpos o
  unfold writeHead
  by_cases h0 : o % geo.pageBytes = 0
  · rw [if_pos h0]
    have ha : alignDown o geo.pageBytes = o := alignDown_of_dvd (Nat.dvd_of_mod_eq_zero h0)
    exact ⟨o, o, Nat.dvd_of_mod_eq_zero h0, by omega, rfl, le_refl _, by simp, by omega,
      ⟨le_refl _, by omega⟩, fun _ => rfl, (written_nil (by omega)).symm⟩
  · rw [if_neg h0]
    have hne : alignDown o geo.pageBytes ≠ o := fun h =>
      h0 (Nat.mod_eq_zero_of_dvd (h ▸ dvd_alignDown o geo.pageBytes))
    set a := alignDown o geo.pageBytes with ha
    set len := min (geo.pageBytes - (o - a)) data.length with hlen
    have hdvd : geo.pageBytes ∣ a := dvd_alignDown o geo.pageBytes
    have htake : (data.take len).length = len := by
      rw [List.length_take]
      omega
    refine ⟨o + len, a + geo.pageBytes, Nat.dvd_add hdvd (Nat.dvd_refl _), by omega, rfl,
      by omega, by rw [Nat.add_sub_cancel_left], by omega, ⟨by omega, by omega⟩, fun hr => ?_, ?_⟩
    · have : len < data.length := by
        by_contra hc
        exact hr (List.drop_of_length_le (not_lt.1 hc))
      omega
    · have hbuf : ∀ x, a ≤ x → x < a + geo.pageBytes →
          (blit (mem.read a geo.pageBytes) (o - a) (data.take len)).getD (x - a) 0 =
            if o ≤ x ∧ x < o + len then data.getD (x - o) 0 else written geo o data o a mem x := by
        intro x hx1 hx2
        rw [getD_pageBuf hle (by omega) (fun y hy1 hy2 => ?_) hx1 hx2, htake,
          written_nil (le_refl a)]
        rw [htake] at hy2
        rw [List.getD_eq_getElem?_getD, List.getElem?_take_of_lt (by omega),
          List.getD_eq_getElem?_getD]
      calc doEraseWriteBlk geo mem a (blit (mem.read a geo.pageBytes) (o - a) (data.take len))
          = doEraseWriteBlk geo (written geo o data o a mem) a
              (blit (mem.read a geo.pageBytes) (o - a) (data.take len)) := by
            rw [written_nil (le_refl a)]
        _ = written geo o data (o + len) (a + geo.pageBytes) mem :=
            doEraseWriteBlk_written hdvd (le_refl a) (by omega) (by omega) (by omega)
              (by rw [length_blit (by rw [Flash.length_read, htake]; omega), Flash.length_read]) hbuf

theorem writePages_stands {n : Nat} {m : Flash} {rest : List UInt8}
    (h : Stands geo o data mem e (m, e, rest) p) (hn : n * geo.pageBytes ≤ rest.length) :
    Stands geo o data mem (e + n * geo.pageBytes) (writePages geo true n m e rest)
      (p + n * geo.pageBytes) := by
  have hpos := geo.page_pos
  induction n generalizing e p m rest with
  | zero => simpa [writePages] using h
  | succ n ih =>
    rw [Nat.succ_mul] at hn
    obtain rfl : e = p := h.more fun h0 => by
      have h0' : rest = [] := h0
      rw [h0'] at hn
      simp at hn
      omega
    have hrest : rest = data.drop (e - o) := h.rest
    have hm : m = written geo o data e e mem := h.mem
    have hlen : rest.length = data.length - (e - o) := by rw [hrest, List.length_drop]
    have hstands : Stands geo o data mem (e + geo.pageBytes)
        (doEraseWriteBlk geo m e (rest.take geo.pageBytes), e + geo.pageBytes,
          rest.drop geo.pageBytes) (e + geo.pageBytes) := by
      have ho := h.o_le
      refine ⟨Nat.dvd_add h.page (Nat.dvd_refl _), h.le_page.trans (by omega), rfl,
        by omega, ?_, by omega, ⟨le_refl _, by omega⟩, fun _ => rfl, ?_⟩
      · rw [hrest, show e + geo.pageBytes - o = e - o + geo.pageBytes by omega, ← List.drop_drop]
      · rw [hm]
        refine doEraseWriteBlk_written h.page h.le_page (by omega) (by omega) (le_refl _)
          (by rw [List.length_take]; omega) fun x hx1 hx2 => ?_
        rw [if_pos ⟨hx1, hx2⟩, hrest, List.getD_eq_getElem?_getD, List.getD_eq_getElem?_getD,
          List.getElem?_take_of_lt (by omega), List.getElem?_drop]
        congr 2
        omega
    have := ih hstands (by rw [List.length_drop]; omega)
    rw [writePages, Nat.succ_mul, Nat.add_comm (n * geo.pageBytes), ← Nat.add_assoc]
    exact this

/-- After the tail page everything is written. -/
theorem writeTail_written {m : Flash} {rest : List UInt8}
    (h : Stands geo o data mem e (m, e, rest) p) (hl : rest.length < geo.pageBytes) :
    ∃ p, geo.pageBytes ∣ p ∧ o + data.length ≤ p ∧ p < o + data.length + geo.pageBytes ∧
      writeTail geo true m e rest = written geo o data (o + data.length) p mem := by
  have hm : m = written geo o data e p mem := h.mem
  have hrest : rest = data.drop (e - o) := h.rest
  have hlen : rest.length = data.length - (e - o) := by rw [hrest, List.length_drop]
  have ho := h.o_le
  have hend := h.le_end
  unfold writeTail
  by_cases hr : rest = []
  · rw [hr] at hlen
    have he : e = o + data.length := by
      simp at hlen
      omega
    rw [if_pos hr, ← he]
    exact ⟨p, h.page, h.done.1, h.done.2, hm⟩
  · obtain rfl : e = p := h.more hr
    have hpos : 0 < rest.length := List.length_pos_iff.2 hr
    rw [if_neg hr]
    refine ⟨e + geo.pageBytes, Nat.dvd_add h.page (Nat.dvd_refl _), by omega, by omega, ?_⟩
    have he : o + data.length = e + rest.length := by omega
    show doEraseWriteBlk geo m e _ = _
    rw [he]
    nth_rewrite 1 [hm]
    refine doEraseWriteBlk_written h.page h.le_page (by omega) (by omega) (by omega)
      (by rw [length_blit (by rw [Flash.length_read]; omega), Flash.length_read]) fun x hx1 hx2 => ?_
    have hget : ∀ y, e ≤ y → y < e + rest.length → rest.getD (y - e) 0 = data.getD (y - o) 0 := by
      intro y hy1 hy2
      rw [hrest, List.getD_eq_getElem?_getD, List.getElem?_drop, List.getD_eq_getElem?_getD]
      congr 2
      omega
    have hbuf := getD_pageBuf (m := m) (le_refl e) (by omega) hget hx1 hx2
    rw [Nat.sub_self] at hbuf
    rw [hbuf, hm]

/-- A write inside the partition: its three steps leave `written`. -/
theorem partEraseBeforeWrite_eq (geo : Geometry) (mem : Flash) {part : PartRange} {offset : Nat} (hne : data ≠ [])
    (hin : offset + data.length ≤ part.bytes) :
    ∃ p, geo.pageBytes ∣ p ∧ offset + part.off + data.length ≤ p ∧
      p < offset + part.off + data.length + geo.pageBytes ∧
      partEraseBeforeWrite geo part mem offset data =
        (written geo (offset + part.off) data (offset + part.off + data.length) p mem,
          data.length) := by
  have hpos : 0 < data.length := List.length_pos_iff.2 hne
  have htake : data.take (part.bytes - offset) = data := List.take_of_length_le (by omega)
  unfold partEraseBeforeWrite partWrite
  rw [if_neg hne, if_neg (by omega), htake]
  obtain ⟨e, p, h⟩ : ∃ e p, Stands geo (offset + part.off) data mem e
      (writeHead geo true mem (offset + part.off) data) p := writeHead_stands
  rcases hh : writeHead geo true mem (offset + part.off) data with ⟨m, e', rest⟩
  rw [hh] at h
  obtain rfl : e' = e := h.offset
  have hpages := writePages_stands h (Nat.div_mul_le_self rest.length geo.pageBytes)
  rcases hw : writePages geo true (rest.length / geo.pageBytes) m e' rest with ⟨m', e'', rest'⟩
  rw [hw] at hpages
  have he : e'' = e' + rest.length / geo.pageBytes * geo.pageBytes := hpages.offset
  rw [← he] at hpages
  have hshort : rest'.length < geo.pageBytes := by
    have hr : rest = data.drop (e' - (offset + part.off)) := h.rest
    have hr' : rest' = data.drop (e'' - (offset + part.off)) := hpages.rest
    have ho := h.o_le
    have hP := geo.page_pos
    have hlt := lt_alignDown_add hP rest.length
    unfold alignDown at hlt
    have hl : rest.length = data.length - (e' - (offset + part.off)) := by rw [hr, List.length_drop]
    rw [hr', List.length_drop]
    omega
  obtain ⟨q, hq1, hq2, hq3, htail⟩ := writeTail_written hpages hshort
  refine ⟨q, hq1, hq2, hq3, ?_⟩
  simp only [hh, hw, htail]

/-- Rounding the end of a write up to a page erases no further block. -/
theorem erased_roundUp (hp : geo.pageBytes ∣ p) (h1 : e ≤ p) (h2 : p < e + geo.pageBytes) :
    Erased geo o p x ↔ Erased geo o e x := by
  have hpos := geo.page_pos
  unfold Erased
  refine and_congr_right fun _ => ⟨fun h => ?_, fun h => by omega⟩
  by_contra hc
  have hle : geo.pageBytes ≤ p := Nat.le_of_dvd (by omega) hp
  have hq : geo.pageBytes ∣ p - geo.pageBytes := Nat.dvd_sub hp (Nat.dvd_refl _)
  have := (alignDown_eq hpos hq).2 ⟨show p - geo.pageBytes ≤ alignDown x geo.blkBytes by omega,
    by omega⟩
  rw [alignDown_of_dvd (page_dvd_block x)] at this
  omega

/-! ## What a write should leave -/

/-- The flash with `data` at `o` and every other byte unchanged. -/
def wanted (o : Nat) (data : List UInt8) (mem : Flash) : Flash := fun x =>
  if o ≤ x ∧ x < o + data.length then data.getD (x - o) 0 else mem x

/-- Where nothing is erased, the write only clears bits; where a block is erased, all that is
not written again was blank. -/
structure Writable (geo : Geometry) (o : Nat) (data : List UInt8) (mem : Flash) : Prop where
  program : ∀ x, o ≤ x → x < o + data.length → ¬ Erased geo o (o + data.length) x →
    mem x &&& data.getD (x - o) 0 = data.getD (x - o) 0
  blank : ∀ x, x < o ∨ o + data.length ≤ x → Erased geo o (o + data.length) x →
    alignDown x geo.pageBytes ≠ alignDown x geo.blkBytes → mem x = 0xFF

theorem written_eq_wanted_iff (hp : geo.pageBytes ∣ p) (h1 : o + data.length ≤ p)
    (h2 : p < o + data.length + geo.pageBytes) :
    written geo o data (o + data.length) p mem = wanted o data mem ↔ Writable geo o data mem := by
  have hE : ∀ x, Erased geo o p x ↔ Erased geo o (o + data.length) x := fun x =>
    erased_roundUp hp h1 h2
  constructor
  · intro h
    constructor
    · intro x hx1 hx2 hx
      have := congrFun h x
      unfold written wanted at this
      rwa [if_pos ⟨hx1, hx2⟩, if_neg (by rwa [hE]), if_pos ⟨hx1, hx2⟩] at this
    · intro x hx hxE hxp
      have := congrFun h x
      unfold written wanted at this
      rw [if_neg (by omega), if_pos ⟨(hE x).2 hxE, hxp⟩, if_neg (by omega)] at this
      exact this.symm
  · intro h
    funext x
    unfold written wanted
    by_cases hx : o ≤ x ∧ x < o + data.length
    · rw [if_pos hx, if_pos hx]
      by_cases hxE : Erased geo o p x
      · rw [if_pos hxE]
      · rw [if_neg hxE, h.program x hx.1 hx.2 (by rwa [← hE])]
    · rw [if_neg hx, if_neg hx]
      by_cases hxE : Erased geo o p x ∧ alignDown x geo.pageBytes ≠ alignDown x geo.blkBytes
      · rw [if_pos hxE, h.blank x (by omega) ((hE x).1 hxE.1) hxE.2]
      · rw [if_neg hxE]

/-- A NOR with pages of 256 bytes and blocks of 4K. -/
def nor4K : Geometry where
  pageBytes := 256
  blkBytes := 4096
  page_pos := by decide
  page_dvd := by decide
  blk_pos := by decide

end

end Melis.Blkpart
