import Melis.Blkpart.PartWrite

/-!
# Reading from a partition

`partRead` (`part_read` of `blkpart.c`) cuts a read into the end of a head page,
whole pages and the start of a tail page. Head and tail go through a page buffer,
whole pages straight to the caller. Addresses of the device have 32 bits.
-/

namespace Melis.Blkpart

open Lib

/-- `memcpy(buf + pos, l, |l|)` into the memory of the caller. -/
def copyTo (buf : Nat → UInt8) (pos : Nat) (l : List UInt8) : Nat → UInt8 := fun i =>
  if pos ≤ i ∧ i < pos + l.length then l.getD (i - pos) 0 else buf i

/-- A page read of the device below: the page, or the number it returned instead of `page_bytes`. -/
abbrev PageReader := Nat → Except Int (List UInt8)

/-- A device that serves every page read out of `mem`. -/
def serve (geo : Geometry) (mem : Flash) : PageReader := fun addr =>
  .ok (mem.read addr geo.pageBytes)

/-- Where a read stands: the memory from `data` on, the address on the device, the bytes copied
and the bytes left, and the pages that were read so far. -/
structure Reading where
  buf : Nat → UInt8
  offset : Nat
  sz : Nat
  size : Nat
  pages : List Nat

/-- A page was read at `addr`. -/
def Reading.fetch (r : Reading) (addr : Nat) : Reading := { r with pages := r.pages ++ [addr] }

/-- The bytes `l` are copied and left behind. -/
def Reading.copy (r : Reading) (l : List UInt8) (len : Nat) : Reading :=
  { r with
    buf := copyTo r.buf r.sz l
    offset := (r.offset + len) % 2 ^ 32
    sz := r.sz + len
    size := r.size - len }

section

variable (geo : Geometry) (dev : PageReader)

/-- Step 1 of `part_read`: the head page. The number is what a failed page read returned. -/
def readHead (r : Reading) : Option Int × Reading :=
  if r.offset % geo.pageBytes = 0 then (none, r)
  else
    let addr := alignDown r.offset geo.pageBytes
    let poff := r.offset - addr
    let len := min (geo.pageBytes - poff) r.size
    match dev addr with
    | .error ret => (some ret, r.fetch addr)
    | .ok pageBuf => (none, (r.fetch addr).copy ((pageBuf.drop poff).take len) len)

/-- Step 2: `n` whole pages. -/
def readPages : Nat → Reading → Option Int × Reading
  | 0, r => (none, r)
  | n + 1, r =>
    match dev r.offset with
    | .error ret => (some ret, r.fetch r.offset)
    | .ok page => readPages n ((r.fetch r.offset).copy page geo.pageBytes)

/-- Step 3: the tail page. -/
def readTail (r : Reading) : Option Int × Reading :=
  if r.size = 0 then (none, r)
  else
    match dev r.offset with
    | .error ret => (some ret, r.fetch r.offset)
    | .ok pageBuf => (none, (r.fetch r.offset).copy (pageBuf.take r.size) r.size)

/-- The three steps; the first failure ends them. -/
def readSteps (r : Reading) : Option Int × Reading :=
  match readHead geo dev r with
  | (some ret, r) => (some ret, r)
  | (none, r) =>
    match readPages geo dev (r.size / geo.pageBytes) r with
    | (some ret, r) => (some ret, r)
    | (none, r) => readTail dev r

/-- What `part_read` returns, as an `rt_size_t`, the memory of the caller, and the pages read. -/
structure ReadOutcome where
  ret : Nat
  buf : Nat → UInt8
  pages : List Nat

/-- `return ret ? ret : sz`. -/
def Reading.outcome (p : Option Int × Reading) : ReadOutcome where
  ret := if p.1.getD 0 ≠ 0 then u32 (p.1.getD 0) else p.2.sz
  buf := p.2.buf
  pages := p.2.pages

/-- A read of `size` bytes from `addr` needs the page buffer. -/
def NeedsPageBuf (addr size : Nat) : Prop := addr % geo.pageBytes ≠ 0 ∨ size % geo.pageBytes ≠ 0

instance (addr size : Nat) : Decidable (NeedsPageBuf geo addr size) :=
  inferInstanceAs (Decidable (_ ∨ _))

/-- `part_read` into `buf`. `offset` is a byte offset, that is, not negative; `malloc` says
whether there is memory for the page buffer. -/
def partRead (part : PartRange) (malloc : Bool) (offset size : Nat) (buf : Nat → UInt8) :
    ReadOutcome :=
  if size = 0 then ⟨0, buf, []⟩
  else if part.bytes ≤ offset then ⟨0, buf, []⟩
  else
    let size := min (part.bytes - offset) size
    let offset := (offset + part.off) % 2 ^ 32
    if NeedsPageBuf geo offset size ∧ malloc = false then ⟨u32 (-12), buf, []⟩
    else Reading.outcome (readSteps geo dev ⟨buf, offset, 0, size, []⟩)

end

section

variable {geo : Geometry} {dev : PageReader} {o want n : Nat} {r : Reading} {mem : Flash}
  {buf : Nat → UInt8} {l : List UInt8} {len : Nat}

/-! ## What a read has done -/

/-- A read of the `want` bytes from `o` on: the bytes done and left, and where it goes on. -/
structure At (o want : Nat) (r : Reading) : Prop where
  size : r.sz + r.size = want
  offset : r.offset = (o + r.sz) % 2 ^ 32

/-- Each page that was read holds one of the bytes. -/
def PagesIn (geo : Geometry) (o want : Nat) (r : Reading) : Prop :=
  ∀ a ∈ r.pages, ∃ y, o ≤ y ∧ y < o + want ∧ a = alignDown y geo.pageBytes

/-- What is left starts with a page. -/
def PageNext (geo : Geometry) (o : Nat) (r : Reading) : Prop :=
  r.size ≠ 0 → geo.pageBytes ∣ o + r.sz

/-- The bytes done are those of the device; behind them the memory is as it was. -/
def Filled (mem : Flash) (buf : Nat → UInt8) (o : Nat) (r : Reading) : Prop :=
  ∀ i, r.buf i = if i < r.sz then mem (o + i) else buf i

theorem At.fetch {a : Nat} (h : At o want r) : At o want (r.fetch a) := ⟨h.size, h.offset⟩

theorem At.copy (h : At o want r) (hlen : len ≤ r.size) : At o want (r.copy l len) where
  size := by
    have := h.size
    show r.sz + len + (r.size - len) = want
    omega
  offset := by
    show (r.offset + len) % 2 ^ 32 = (o + (r.sz + len)) % 2 ^ 32
    rw [h.offset]
    omega

/-- Where bytes are left, the address has not wrapped around. -/
theorem At.offset_eq (h : At o want r) (hend : o + want ≤ 2 ^ 32) (hsize : r.size ≠ 0) :
    r.offset = o + r.sz := by
  have := h.size
  rw [h.offset]
  omega

theorem PagesIn.fetch {a y : Nat} (h : PagesIn geo o want r) (h1 : o ≤ y) (h2 : y < o + want)
    (ha : a = alignDown y geo.pageBytes) : PagesIn geo o want (r.fetch a) := by
  intro b hb
  rcases List.mem_append.1 hb with hb | hb
  · exact h b hb
  · obtain rfl := List.mem_singleton.1 hb
    exact ⟨y, h1, h2, ha⟩

theorem Filled.copy (h : Filled mem buf o r) (hlen : l.length = len)
    (hl : ∀ j, j < len → l.getD j 0 = mem (o + r.sz + j)) : Filled mem buf o (r.copy l len) := by
  intro i
  show copyTo r.buf r.sz l i = if i < r.sz + len then mem (o + i) else buf i
  unfold copyTo
  rw [hlen]
  by_cases hin : r.sz ≤ i ∧ i < r.sz + len
  · rw [if_pos hin, if_pos hin.2, hl _ (by omega)]
    congr 1
    omega
  · rw [if_neg hin, h i]
    have hiff : i < r.sz ↔ i < r.sz + len := by omega
    simp only [hiff]

/-! ## The three steps -/

section

variable (dev) (hend : o + want ≤ 2 ^ 32) (h : At o want r)

include hend h

theorem readHead_at (hsize : r.size ≠ 0) (hp : PagesIn geo o want r) :
    At o want (readHead geo dev r).2 ∧ PagesIn geo o want (readHead geo dev r).2 ∧
      ((readHead geo dev r).1 = none → PageNext geo o (readHead geo dev r).2) := by
  have hoff := h.offset_eq hend hsize
  have hsum := h.size
  have hpos := geo.page_pos
  have hle := alignDown_le r.offset geo.pageBytes
  have hlt := lt_alignDown_add hpos r.offset
  unfold readHead
  by_cases h0 : r.offset % geo.pageBytes = 0
  · rw [if_pos h0]
    refine ⟨h, hp, fun _ _ => ?_⟩
    rw [← hoff]
    exact Nat.dvd_of_mod_eq_zero h0
  · rw [if_neg h0]
    dsimp only
    set addr := alignDown r.offset geo.pageBytes with haddr
    have hfetch : PagesIn geo o want (r.fetch addr) :=
      hp.fetch (show o ≤ r.offset by omega) (by omega) haddr
    cases dev addr with
    | error ret => exact ⟨h.fetch, hfetch, fun h => nomatch h⟩
    | ok pageBuf =>
      refine ⟨h.fetch.copy (Nat.min_le_right _ _), hfetch, fun _ hleft => ?_⟩
      -- bytes are left, so the head went up to the end of its page
      have hleft' : r.size - min (geo.pageBytes - (r.offset - addr)) r.size ≠ 0 := hleft
      show geo.pageBytes ∣ o + (r.sz + min (geo.pageBytes - (r.offset - addr)) r.size)
      rw [show o + (r.sz + min (geo.pageBytes - (r.offset - addr)) r.size) = addr + geo.pageBytes by
        omega]
      exact Nat.dvd_add (dvd_alignDown _ _) (Nat.dvd_refl _)

theorem readPages_at (hnext : PageNext geo o r) (hn : n * geo.pageBytes ≤ r.size)
    (hp : PagesIn geo o want r) :
    At o want (readPages geo dev n r).2 ∧ PagesIn geo o want (readPages geo dev n r).2 ∧
      ((readPages geo dev n r).1 = none → PageNext geo o (readPages geo dev n r).2 ∧
        (readPages geo dev n r).2.size = r.size - n * geo.pageBytes) := by
  have hpos := geo.page_pos
  induction n generalizing r with
  | zero => exact ⟨h, hp, fun _ => ⟨hnext, by rw [Nat.zero_mul]; rfl⟩⟩
  | succ n ih =>
    rw [Nat.succ_mul] at hn ⊢
    have hsize : r.size ≠ 0 := by omega
    have hoff := h.offset_eq hend hsize
    have hsum := h.size
    have hfetch : PagesIn geo o want (r.fetch r.offset) :=
      hp.fetch (show o ≤ r.offset by omega) (by omega) (alignDown_of_dvd (hoff ▸ hnext hsize)).symm
    unfold readPages
    cases dev r.offset with
    | error ret => exact ⟨h.fetch, hfetch, fun h => nomatch h⟩
    | ok page =>
      have hnext' : PageNext geo o ((r.fetch r.offset).copy page geo.pageBytes) := fun _ => by
        show geo.pageBytes ∣ o + (r.sz + geo.pageBytes)
        rw [← Nat.add_assoc]
        exact Nat.dvd_add (hnext hsize) (Nat.dvd_refl _)
      have hleft : ((r.fetch r.offset).copy page geo.pageBytes).size = r.size - geo.pageBytes := rfl
      obtain ⟨hat, hpages, hrest⟩ := ih (h.fetch.copy (show geo.pageBytes ≤ r.size by omega)) hnext'
        (by rw [hleft]; omega) hfetch
      refine ⟨hat, hpages, fun hok => ⟨(hrest hok).1, ?_⟩⟩
      rw [(hrest hok).2, hleft]
      omega

theorem readTail_at (hnext : PageNext geo o r) (hp : PagesIn geo o want r) :
    At o want (readTail dev r).2 ∧ PagesIn geo o want (readTail dev r).2 ∧
      ((readTail dev r).1 = none → (readTail dev r).2.size = 0) := by
  unfold readTail
  by_cases hsize : r.size = 0
  · rw [if_pos hsize]
    exact ⟨h, hp, fun _ => hsize⟩
  · rw [if_neg hsize]
    have hoff := h.offset_eq hend hsize
    have hsum := h.size
    have hfetch : PagesIn geo o want (r.fetch r.offset) :=
      hp.fetch (show o ≤ r.offset by omega) (by omega) (alignDown_of_dvd (hoff ▸ hnext hsize)).symm
    cases dev r.offset with
    | error ret => exact ⟨h.fetch, hfetch, fun h => nomatch h⟩
    | ok pageBuf =>
      exact ⟨h.fetch.copy (le_refl r.size), hfetch, fun _ => Nat.sub_self r.size⟩

/-- All three steps: they read pages of the stretch, and if none fails nothing is left. -/
theorem readSteps_at (hsize : r.size ≠ 0) (hp : PagesIn geo o want r) :
    PagesIn geo o want (readSteps geo dev r).2 ∧
      ((readSteps geo dev r).1 = none → (readSteps geo dev r).2.sz = want) := by
  have hhead := readHead_at dev hend h hsize hp
  unfold readSteps
  generalize readHead geo dev r = head at hhead ⊢
  obtain ⟨_ | ret, r₁⟩ := head
  · obtain ⟨hat₁, hp₁, hnext₁⟩ := hhead
    have hpages := readPages_at dev hend hat₁ (hnext₁ rfl) (Nat.div_mul_le_self _ _) hp₁
    dsimp only at hpages ⊢
    generalize readPages geo dev (r₁.size / geo.pageBytes) r₁ = pages at hpages ⊢
    obtain ⟨_ | ret, r₂⟩ := pages
    · obtain ⟨hat₂, hp₂, hnext₂⟩ := hpages
      obtain ⟨hat₃, hp₃, hnone⟩ := readTail_at dev hend hat₂ (hnext₂ rfl).1 hp₂
      refine ⟨hp₃, fun hok => ?_⟩
      have hsum := hat₃.size
      rw [hnone hok] at hsum
      exact hsum
    · exact ⟨hpages.2.1, fun hok => nomatch hok⟩
  · exact ⟨hhead.2.1, fun hok => nomatch hok⟩

/-! ## The three steps on a device that serves them -/

variable (geo)

theorem readHead_filled (hsize : r.size ≠ 0) (hf : Filled mem buf o r) :
    (readHead geo (serve geo mem) r).1 = none ∧
      Filled mem buf o (readHead geo (serve geo mem) r).2 := by
  have hoff := h.offset_eq hend hsize
  have hle := alignDown_le r.offset geo.pageBytes
  have hlt := lt_alignDown_add geo.page_pos r.offset
  unfold readHead
  by_cases h0 : r.offset % geo.pageBytes = 0
  · rw [if_pos h0]
    exact ⟨rfl, hf⟩
  · rw [if_neg h0]
    have hf' : Filled mem buf o (r.fetch (alignDown r.offset geo.pageBytes)) := hf
    refine ⟨rfl, hf'.copy ?_ fun j hj => ?_⟩
    · rw [List.length_take, List.length_drop, Flash.length_read]
      omega
    · rw [List.getD_eq_getElem?_getD, List.getElem?_take_of_lt hj, List.getElem?_drop,
        ← List.getD_eq_getElem?_getD, Flash.getD_read (by omega)]
      show mem _ = mem (o + r.sz + j)
      congr 1
      omega

theorem readPages_filled (hn : n * geo.pageBytes ≤ r.size) (hf : Filled mem buf o r) :
    (readPages geo (serve geo mem) n r).1 = none ∧
      Filled mem buf o (readPages geo (serve geo mem) n r).2 := by
  have hpos := geo.page_pos
  induction n generalizing r with
  | zero => exact ⟨rfl, hf⟩
  | succ n ih =>
    rw [Nat.succ_mul] at hn
    have hoff := h.offset_eq hend (by omega)
    have hf' : Filled mem buf o (r.fetch r.offset) := hf
    have hleft : ((r.fetch r.offset).copy (mem.read r.offset geo.pageBytes) geo.pageBytes).size =
      r.size - geo.pageBytes := rfl
    refine ih (h.fetch.copy (show geo.pageBytes ≤ r.size by omega)) (by rw [hleft]; omega)
      (hf'.copy Flash.length_read fun j hj => ?_)
    rw [Flash.getD_read hj, hoff]
    rfl

theorem readTail_filled (hsize : r.size < geo.pageBytes) (hf : Filled mem buf o r) :
    (readTail (serve geo mem) r).1 = none ∧ Filled mem buf o (readTail (serve geo mem) r).2 := by
  unfold readTail
  by_cases h0 : r.size = 0
  · rw [if_pos h0]
    exact ⟨rfl, hf⟩
  · rw [if_neg h0]
    have hoff := h.offset_eq hend h0
    have hf' : Filled mem buf o (r.fetch r.offset) := hf
    refine ⟨rfl, hf'.copy ?_ fun j hj => ?_⟩
    · rw [List.length_take, Flash.length_read]
      omega
    · rw [List.getD_eq_getElem?_getD, List.getElem?_take_of_lt hj, ← List.getD_eq_getElem?_getD,
        Flash.getD_read (by omega), hoff]
      rfl

/-- On a device that serves them, none fails and the bytes are those of the device. -/
theorem readSteps_filled (hsize : r.size ≠ 0) (hp : PagesIn geo o want r)
    (hf : Filled mem buf o r) :
    (readSteps geo (serve geo mem) r).1 = none ∧
      Filled mem buf o (readSteps geo (serve geo mem) r).2 := by
  have hhead := readHead_at (serve geo mem) hend h hsize hp
  have hheadf := readHead_filled geo hend h hsize hf
  unfold readSteps
  generalize readHead geo (serve geo mem) r = head at hhead hheadf ⊢
  obtain ⟨_, r₁⟩ := head
  obtain ⟨hat₁, hp₁, hnext₁⟩ := hhead
  obtain ⟨rfl, hf₁⟩ := hheadf
  have hn := Nat.div_mul_le_self r₁.size geo.pageBytes
  have hpages := readPages_at (serve geo mem) hend hat₁ (hnext₁ rfl) hn hp₁
  have hpagesf := readPages_filled geo hend hat₁ hn hf₁
  dsimp only at hpages hpagesf ⊢
  generalize readPages geo (serve geo mem) (r₁.size / geo.pageBytes) r₁ = pages at hpages hpagesf ⊢
  obtain ⟨_, r₂⟩ := pages
  obtain ⟨hat₂, -, hnext₂⟩ := hpages
  obtain ⟨rfl, hf₂⟩ := hpagesf
  refine readTail_filled geo hend hat₂ ?_ hf₂
  rw [(hnext₂ rfl).2]
  have hlt := lt_alignDown_add geo.page_pos r₁.size
  unfold alignDown at hlt
  omega

end

theorem at_start (hend : o + want ≤ 2 ^ 32) (hwant : want ≠ 0) :
    At o want ⟨buf, o, 0, want, []⟩ where
  size := Nat.zero_add want
  offset := by
    show o = (o + 0) % 2 ^ 32
    omega

theorem pagesIn_start : PagesIn geo o want ⟨buf, o, 0, want, []⟩ := fun _ ha => nomatch ha

theorem filled_start {m : Flash} : Filled m buf o ⟨buf, o, 0, want, []⟩ :=
  fun _ => (if_neg (Nat.not_lt_zero _)).symm

/-! ## A read of a partition -/

/-- The bytes a read should deliver. -/
def PartRange.readable (part : PartRange) (offset size : Nat) : Nat :=
  min size (part.bytes - offset)

/-- The page at `a` holds a byte of the partition. -/
def PartRange.HasPage (geo : Geometry) (part : PartRange) (a : Nat) : Prop :=
  ∃ y, part.off ≤ y ∧ y < part.off + part.bytes ∧ a = alignDown y geo.pageBytes

/-- A read that ends, where it copies anything, inside the addresses of the device. -/
def PartRange.Reachable (part : PartRange) (offset size : Nat) : Prop :=
  part.readable offset size ≠ 0 → part.off + offset + part.readable offset size ≤ 2 ^ 32

section

variable {part : PartRange} {malloc : Bool} {offset size : Nat}

theorem partRead_nothing (h : part.readable offset size = 0) :
    partRead geo dev part malloc offset size buf = ⟨0, buf, []⟩ := by
  unfold PartRange.readable at h
  unfold partRead
  by_cases hsize : size = 0
  · rw [if_pos hsize]
  · rw [if_neg hsize, if_pos (by omega)]

/-- A read that copies something goes through the three steps. -/
theorem partRead_steps (h : part.readable offset size ≠ 0)
    (hmalloc : NeedsPageBuf geo (part.off + offset) (part.readable offset size) → malloc = true)
    (hend : part.off + offset + part.readable offset size ≤ 2 ^ 32) :
    partRead geo dev part malloc offset size buf = Reading.outcome (readSteps geo dev
      ⟨buf, part.off + offset, 0, part.readable offset size, []⟩) := by
  have hsize : min (part.bytes - offset) size = part.readable offset size := min_comm _ _
  have haddr : (offset + part.off) % 2 ^ 32 = part.off + offset := by omega
  unfold partRead
  rw [if_neg, if_neg, hsize, haddr, if_neg]
  · rintro ⟨hneeds, hfalse⟩
    rw [hmalloc hneeds] at hfalse
    cases hfalse
  · unfold PartRange.readable at h
    omega
  · unfold PartRange.readable at h
    omega

/-- Whatever the device and `malloc` do, only pages of the partition are read. -/
theorem partRead_pages (hreach : part.Reachable offset size) :
    ∀ a ∈ (partRead geo dev part malloc offset size buf).pages, part.HasPage geo a := by
  by_cases h : part.readable offset size = 0
  · rw [partRead_nothing h]
    intro a ha
    cases ha
  · have hend := hreach h
    by_cases hmalloc : NeedsPageBuf geo (part.off + offset) (part.readable offset size) → malloc = true
    · rw [partRead_steps h hmalloc hend]
      intro a ha
      obtain ⟨y, h1, h2, hy⟩ := (readSteps_at dev hend (at_start hend h) h pagesIn_start).1 a ha
      unfold PartRange.readable at h2
      exact ⟨y, by omega, by omega, hy⟩
    · rw [Classical.not_imp, Bool.not_eq_true] at hmalloc
      obtain ⟨hneeds, rfl⟩ := hmalloc
      have hsize : min (part.bytes - offset) size = part.readable offset size := min_comm _ _
      have haddr : (offset + part.off) % 2 ^ 32 = part.off + offset := by omega
      unfold PartRange.readable at h
      unfold partRead
      rw [if_neg (by omega), if_neg (by omega), hsize, haddr, if_pos ⟨hneeds, rfl⟩]
      intro a ha
      cases ha

end

/-- A flash whose byte at 4G is 1. -/
def oneAt4G : Flash := fun x => if x = 2 ^ 32 then 1 else 0

end

end Melis.Blkpart
