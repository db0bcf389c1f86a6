import Melis.Mods.Loader
import Mathlib.Order.Lattice

/-!
# What the loader makes of a file

Where the file supplies the headers and the names that the loop looks at, the buffers hold the
sections of the file, so the first name that compares equal is the first section named
`MAGIC` (`findMagic_step`). The call then stays in its buffers just if an entry of the
section table fits in the header buffer and each comparison ends inside the string table.
-/

namespace Melis.Mods.Ldr

variable {file SecHdr bs cs ct m : Bytes} {heap : Heap} {i k n o p pos Idx : Nat} {b : Bool}

/-! ## Reads -/

theorem getD_append_take (hlen : n ≤ bs.length) (hk : k < n) :
    (bs.take n ++ cs).getD k 0 = bs.getD k 0 := by
  have hin : k < (bs.take n).length := by
    rw [List.length_take]
    exact lt_min hk (hk.trans_le hlen)
  rw [List.getD_eq_getElem?_getD, List.getD_eq_getElem?_getD, List.getElem?_append_left hin,
    List.getElem?_take_of_lt hk]

/-- The first bytes of a buffer are those that were read. -/
theorem word_append_take (hlen : n ≤ bs.length) (hp : p + 4 ≤ n) :
    word (bs.take n ++ cs) p = word bs p := by
  unfold word half
  rw [getD_append_take hlen (by omega), getD_append_take hlen (by omega), getD_append_take hlen (by omega),
    getD_append_take hlen (by omega)]

theorem esFSYS_fseek_eq (ho : o < 2 ^ 31) (hlen : o ≤ file.length) :
    esFSYS_fseek file o pos = o := if_pos ⟨ho, hlen⟩

theorem length_read (hlen : o + n ≤ file.length) : ((file.drop o).take n).length = n := by
  rw [List.length_take, List.length_drop]
  omega

theorem esFSYS_fread_pos (hle : ((file.drop pos).take n).length ≤ bs.length) :
    esFSYS_fread file bs n pos =
      some ((file.drop pos).take n ++ bs.drop ((file.drop pos).take n).length,
        pos + ((file.drop pos).take n).length) := if_pos hle

theorem esFSYS_fread_eq (hlen : o + n ≤ file.length) (hn : n ≤ bs.length) :
    esFSYS_fread file bs n o = some ((file.drop o).take n ++ bs.drop n, o + n) := by
  simp only [esFSYS_fread, length_read hlen, if_pos hn]

theorem esFSYS_fread_none (hlen : o + n ≤ file.length) (hn : bs.length < n) :
    esFSYS_fread file bs n o = none := by
  simp only [esFSYS_fread, length_read hlen, if_neg (Nat.not_le.2 hn)]

/-- A read of no more than the buffer stays in it. -/
theorem esFSYS_fread_short (hn : n ≤ bs.length) : ∃ r, esFSYS_fread file bs n pos = some r ∧
    r.1.length = bs.length := by
  have hle : ((file.drop pos).take n).length ≤ bs.length := (List.length_take_le _ _).trans hn
  refine ⟨_, esFSYS_fread_pos hle, ?_⟩
  rw [List.length_append, List.length_drop]
  omega

/-- A text without a NUL is not found in the zeros of a buffer. -/
theorem take_padded (hm : 0 ∉ m) (hk : m.length ≤ k) :
    (bs.take k ++ List.replicate (k - bs.length) 0).take m.length = m ↔
      bs.take m.length = m := by
  rcases Nat.lt_or_ge bs.length m.length with hlt | hge
  · refine iff_of_false (fun h => hm ?_) fun h => ?_
    · have htake : bs.take k = bs := List.take_of_length_le (by omega)
      have hzero : (bs ++ List.replicate (k - bs.length) (0 : UInt8))[bs.length]? = some 0 := by
        rw [List.getElem?_append_right le_rfl, Nat.sub_self, List.getElem?_replicate]
        exact if_pos (by omega)
      rw [htake] at h
      rw [← h]
      exact List.mem_of_getElem? ((List.getElem?_take_of_lt hlt).trans hzero)
    · have hlen := congrArg List.length h
      rw [List.length_take] at hlen
      omega
  · have hin : m.length ≤ (bs.take k).length := by
      rw [List.length_take]
      exact le_min hk hge
    rw [List.take_append_of_le_length hin, List.take_take, min_eq_left hk]

/-! ## The header -/

theorem read_elfHdr (file : Bytes) : ∃ pos, esFSYS_fread file (List.replicate 52 0) 52 (esFSYS_fseek file 0 0) =
    some (elfHdr file, pos) := by
  have hseek : esFSYS_fseek file 0 0 = 0 := esFSYS_fseek_eq (by decide) (Nat.zero_le _)
  have hle : ((file.drop 0).take 52).length ≤ (List.replicate 52 (0 : UInt8)).length := by
    rw [List.length_replicate]
    exact List.length_take_le _ _
  refine ⟨0 + ((file.drop 0).take 52).length, ?_⟩
  rw [hseek, esFSYS_fread_pos hle]
  have hrest : 52 - min 52 file.length = 52 - file.length := by omega
  simp only [List.drop_zero, List.length_take, List.drop_replicate, elfHdr, hrest]

theorem isElf_iff : (elfHdr file).take 4 = ELFMAG ↔ IsElf file :=
  take_padded (m := ELFMAG) (by decide) (by decide)

/-! ## Sections -/

/-- The header of section `i` can be read. -/
structure Whole (file : Bytes) (i : Nat) : Prop where
  has : HasSection file i
  offset : secAt file i < 2 ^ 31

/-- The buffer shows the fields of section `i`. -/
structure Shows (file SecHdr : Bytes) (i : Nat) : Prop where
  len : SecHdr.length = 40
  name : shName SecHdr = shName (secHdr file i)
  offset : shOffset SecHdr = shOffset (secHdr file i)
  size : shSize SecHdr = shSize (secHdr file i)

theorem Whole.fseek (h : Whole file i) :
    esFSYS_fseek file ((shoff (elfHdr file) + shentsize (elfHdr file) * i) % 2 ^ 32) pos =
      secAt file i := by
  obtain ⟨⟨-, -, hlen⟩, hoff⟩ := h
  have hmod : (shoff (elfHdr file) + shentsize (elfHdr file) * i) % 2 ^ 32 = secAt file i :=
    Nat.mod_eq_of_lt (hoff.trans (by decide))
  rw [hmod]
  exact esFSYS_fseek_eq hoff (by omega)

theorem readSecHdr_spec (pos : Nat) (h : Whole file i) (hent : shentsize (elfHdr file) ≤ 40)
    (hbuf : SecHdr.length = 40) :
    ∃ SecHdr' pos', readSecHdr file (elfHdr file) SecHdr i pos = some (SecHdr', pos') ∧
      Shows file SecHdr' i := by
  obtain ⟨-, h24, hlen⟩ := h.has
  have hread : readSecHdr file (elfHdr file) SecHdr i pos =
      some ((secHdr file i).take (shentsize (elfHdr file)) ++
        SecHdr.drop (shentsize (elfHdr file)), secAt file i + shentsize (elfHdr file)) := by
    unfold readSecHdr
    simp only [h.fseek]
    exact esFSYS_fread_eq hlen (hent.trans_eq hbuf.symm)
  have hdrop : shentsize (elfHdr file) ≤ (secHdr file i).length := by
    rw [secHdr, List.length_drop]
    omega
  refine ⟨_, _, hread, ?_, ?_, ?_, ?_⟩
  · rw [List.length_append, List.length_take, List.length_drop]
    omega
  · exact word_append_take hdrop (by omega)
  · exact word_append_take hdrop (by omega)
  · exact word_append_take hdrop (by omega)

/-- A longer entry overruns the buffer. -/
theorem readSecHdr_none (h : Whole file i) (hent : 40 < shentsize (elfHdr file))
    (hbuf : SecHdr.length = 40) : readSecHdr file (elfHdr file) SecHdr i pos = none := by
  obtain ⟨-, -, hlen⟩ := h.has
  unfold readSecHdr
  simp only [h.fseek]
  exact esFSYS_fread_none hlen (hbuf.trans_lt hent)

/-! ## Names and magics -/

theorem rt_strncmp_spec (h : rt_strncmp cs p ct = some b) :
    b = true ↔ (cs.drop p).take ct.length = ct := by
  induction ct generalizing p with
  | nil =>
    cases h
    simp
  | cons c ct ih =>
    obtain ⟨d, hd, h⟩ := Option.bind_eq_some_iff.1 h
    obtain ⟨hp, hget⟩ := List.getElem?_eq_some_iff.1 hd
    rw [List.drop_eq_getElem_cons hp, List.length_cons, List.take_succ_cons, List.cons.injEq, hget]
    split at h
    next heq => exact (ih h).trans (and_iff_right heq).symm
    next hne =>
      cases h
      simp [hne]

theorem named_iff (hw : HasSection file i)
    (h : rt_strncmp (strTable file) (shName (secHdr file i)) MAGIC = some b) :
    b = true ↔ Named file i :=
  (rt_strncmp_spec h).trans (and_iff_right hw).symm

/-- The bytes hold one of the two magics. -/
def KnownMagic (bs : Bytes) : Prop := bs.take 8 = modMagic ∨ bs.take 8 = exfMagic

theorem fileType_iff : fileType bs ≠ LDR_INVALID_FILE ↔ KnownMagic bs := by
  unfold fileType KnownMagic
  split
  next h => exact iff_of_true (by decide) (.inl h)
  next h =>
    split
    next h' => exact iff_of_true (by decide) (.inr h')
    next h' => exact iff_of_false (fun hne => hne rfl) fun hor => hor.elim h h'

theorem readMagic_spec (pos : Nat) (hs : Shows file SecHdr i) (ho : shOffset (secHdr file i) < 2 ^ 31)
    (hlen : shOffset (secHdr file i) ≤ file.length) :
    ∃ t, readMagic file SecHdr pos = some t ∧
      (t ≠ LDR_INVALID_FILE ↔ KnownMagic (file.drop (shOffset (secHdr file i)))) := by
  have hle : ((file.drop (shOffset (secHdr file i))).take 64).length ≤
      (List.replicate 64 (0 : UInt8)).length := by
    rw [List.length_replicate]
    exact List.length_take_le _ _
  unfold readMagic
  rw [hs.offset, esFSYS_fseek_eq ho hlen, esFSYS_fread_pos hle]
  refine ⟨_, rfl, fileType_iff.trans ?_⟩
  have hrest : 64 - min 64 (file.length - shOffset (secHdr file i)) =
      64 - (file.length - shOffset (secHdr file i)) := by omega
  simp only [List.length_take, List.length_drop, List.drop_replicate, hrest]
  rw [← List.length_drop]
  exact or_congr (take_padded (m := modMagic) (by decide) (by decide))
    (take_padded (m := exfMagic) (by decide) (by decide))

/-! ## The loop -/

/-- The loader can come as far as section `i`. -/
def Reached (file : Bytes) (i : Nat) : Prop := i < shnum (elfHdr file) ∧ ∀ j < i, ¬ Named file j

/-- The file has what the loop asks for. -/
structure SuppliedLoop (file : Bytes) : Prop where
  header : ∀ i, Reached file i → Whole file i
  magic : ∀ i, Reached file i → Named file i → shOffset (secHdr file i) < 2 ^ 31 ∧
    shOffset (secHdr file i) ≤ file.length

/-- The comparison with the name of section `i` ends inside the string table. -/
def NameInside (file : Bytes) (i : Nat) : Prop :=
  (rt_strncmp (strTable file) (shName (secHdr file i)) MAGIC).isSome

/-- One turn of the loop. -/
theorem findMagic_step (hs : SuppliedLoop file) (hent : shentsize (elfHdr file) ≤ 40)
    (hi : Reached file Idx) (hbuf : SecHdr.length = 40) :
    ∃ SecHdr' pos', Shows file SecHdr' Idx ∧
      findMagic file (elfHdr file) (strTable file) (n + 1) Idx SecHdr pos =
        (rt_strncmp (strTable file) (shName (secHdr file Idx)) MAGIC).bind fun equal =>
          if equal then (readMagic file SecHdr' pos').map (Idx, ·)
          else findMagic file (elfHdr file) (strTable file) n (Idx + 1) SecHdr' pos' := by
  obtain ⟨SecHdr', pos', hread, hshows⟩ := readSecHdr_spec pos (hs.header Idx hi) hent hbuf
  refine ⟨SecHdr', pos', hshows, ?_⟩
  rw [findMagic, hread, ← hshows.name]
  simp only [Option.bind_eq_bind, Option.bind_some]
  cases rt_strncmp (strTable file) (shName SecHdr') MAGIC with
  | none => rfl
  | some equal =>
    cases equal with
    | false => rfl
    | true => cases readMagic file SecHdr' pos' <;> rfl

/-- What the loop has found: the index and the type are valid just if the first section named
`MAGIC` holds a magic. -/
def Found (file : Bytes) (r : Nat × Nat) : Prop :=
  (r.1 ≠ LDR_INVALID_INDEX.toNat ∧ r.2 ≠ LDR_INVALID_FILE) ↔
    ∃ i, FirstMagic file i ∧ KnownMagic (file.drop (shOffset (secHdr file i)))

theorem FirstMagic.unique {j : Nat} (hi : FirstMagic file i) (hj : FirstMagic file j) : i = j := by
  rcases Nat.lt_trichotomy i j with hlt | heq | hgt
  · exact absurd hi.2.1 (hj.2.2 i hlt)
  · exact heq
  · exact absurd hj.2.1 (hi.2.2 j hgt)

theorem shnum_lt (hdr : Bytes) : shnum hdr < 65536 := by
  unfold shnum half
  have h0 := (hdr.getD 48 0).toNat_lt
  have h1 := (hdr.getD (48 + 1) 0).toNat_lt
  omega

theorem findMagic_spec (hs : SuppliedLoop file) (hent : shentsize (elfHdr file) ≤ 40)
    (hn : Idx + n = shnum (elfHdr file)) (hbefore : ∀ j < Idx, ¬ Named file j)
    (hbuf : SecHdr.length = 40) :
    (∃ r, findMagic file (elfHdr file) (strTable file) n Idx SecHdr pos = some r ∧ Found file r) ∧
        (∀ i, Idx ≤ i → Reached file i → NameInside file i) ∨
      findMagic file (elfHdr file) (strTable file) n Idx SecHdr pos = none ∧
        ∃ i, Idx ≤ i ∧ Reached file i ∧ ¬ NameInside file i := by
  induction n generalizing Idx SecHdr pos with
  | zero =>
    refine .inl ⟨⟨_, rfl, ?_⟩, fun i hle hi => absurd hi.1 (by omega)⟩
    refine iff_of_false (fun h => h.1 rfl) ?_
    rintro ⟨i, ⟨hi, hnamed, -⟩, -⟩
    exact hbefore i (by omega) hnamed
  | succ n ih =>
    have hreach : Reached file Idx := ⟨by omega, hbefore⟩
    obtain ⟨SecHdr', pos', hshows, hstep⟩ := @findMagic_step _ SecHdr n pos Idx hs hent hreach hbuf
    rw [hstep]
    cases hcmp : rt_strncmp (strTable file) (shName (secHdr file Idx)) MAGIC with
    | none =>
      refine .inr ⟨rfl, Idx, le_rfl, hreach, ?_⟩
      simp [NameInside, hcmp]
    | some equal =>
      have hinside : NameInside file Idx := by simp [NameInside, hcmp]
      have hnamed := named_iff (hs.header Idx hreach).has hcmp
      cases equal with
      | true =>
        have hidx : Named file Idx := hnamed.1 rfl
        have hfirst : FirstMagic file Idx := ⟨hreach.1, hidx, hbefore⟩
        obtain ⟨ho, hlen⟩ := hs.magic Idx hreach hidx
        obtain ⟨t, ht, htype⟩ := readMagic_spec pos' hshows ho hlen
        refine .inl ⟨⟨(Idx, t), ?_, ?_⟩, ?_⟩
        · rw [Option.bind_some, if_pos rfl, ht]
          rfl
        · have hvalid : Idx ≠ LDR_INVALID_INDEX.toNat := by
            have hlt := shnum_lt (elfHdr file)
            have hinv : LDR_INVALID_INDEX.toNat = 4294967295 := rfl
            omega
          refine (and_iff_right hvalid).trans (htype.trans ⟨fun h => ⟨Idx, hfirst, h⟩, ?_⟩)
          rintro ⟨i, hi, hknown⟩
          cases hi.unique hfirst
          exact hknown
        · intro i hle hi
          rcases Nat.lt_or_eq_of_le hle with hlt | rfl
          · exact absurd hidx (hi.2 Idx hlt)
          · exact hinside
      | false =>
        have hidx : ¬ Named file Idx := fun h => Bool.false_ne_true (hnamed.2 h)
        have hnext : ∀ j < Idx + 1, ¬ Named file j := by
          intro j hj
          rcases Nat.lt_or_eq_of_le (Nat.le_of_lt_succ hj) with hlt | rfl
          · exact hbefore j hlt
          · exact hidx
        rw [Option.bind_some, if_neg Bool.false_ne_true]
        refine (@ih SecHdr' pos' (Idx + 1) (by omega) hnext hshows.len).imp ?_ ?_
        · rintro ⟨hr, hall⟩
          refine ⟨hr, fun i hle hi => ?_⟩
          rcases Nat.lt_or_eq_of_le hle with hlt | rfl
          · exact hall i hlt hi
          · exact hinside
        · rintro ⟨hnone, i, hle, hi, hout⟩
          exact ⟨hnone, i, Nat.le_of_succ_le hle, hi, hout⟩

/-! ## The call -/

/-- The file and the heap have what the call asks for; a file without sections needs none. -/
structure SuppliedSections (heap : Heap) (file : Bytes) : Prop extends SuppliedLoop file where
  strings : Whole file (shstrndx (elfHdr file))
  offset : shOffset (secHdr file (shstrndx (elfHdr file))) < 2 ^ 31
  inside : shOffset (secHdr file (shstrndx (elfHdr file))) +
    shSize (secHdr file (shstrndx (elfHdr file))) ≤ file.length
  table : heap.malloc (shSize (secHdr file (shstrndx (elfHdr file)))) = true
  handle : heap.malloc sizeofOpenElf = true

def Supplied (heap : Heap) (file : Bytes) : Prop :=
  IsElf file → (shnum (elfHdr file) = 0 ∧ shentsize (elfHdr file) ≤ 40) ∨
    SuppliedSections heap file

/-- An entry of the section table fits in the header buffer, and the names compared end inside
the string table. -/
def Fits (file : Bytes) : Prop :=
  IsElf file → shentsize (elfHdr file) ≤ 40 ∧ ∀ i, Reached file i → NameInside file i

/-- The call stays in its buffers, frees the string table, and returns a handle just for a
file with a magic. -/
def Loads (heap : Heap) (file : Bytes) : Prop :=
  ∃ r, LDR_LoadELFFile heap file = some r ∧ r.tables = 0 ∧
    (r.pOPENELF.isSome ↔ HasMagic file)

theorem load_not_elf (heap : Heap) (h : ¬ IsElf file) : Loads heap file := by
  obtain ⟨pos, hread⟩ := read_elfHdr file
  have hload : LDR_LoadELFFile heap file = some { pOPENELF := none, tables := 0 } := by
    simp only [LDR_LoadELFFile, hread, Option.bind_eq_bind, Option.bind_some]
    exact if_pos fun heq => h (isElf_iff.1 heq)
  exact ⟨_, hload, rfl, iff_of_false Bool.false_ne_true fun hm => h hm.1⟩

/-- The call on an ELF file, from the header of the string table on. -/
theorem load_elf (heap : Heap) (h : IsElf file) : ∃ pos, LDR_LoadELFFile heap file =
    (readSecHdr file (elfHdr file) (List.replicate 40 0) (shstrndx (elfHdr file)) pos).bind fun s =>
      if heap.malloc (shSize s.1) = false then some { pOPENELF := none, tables := 0 } else
      (esFSYS_fread file ((List.range (shSize s.1)).map heap.bytes) (shSize s.1)
          (esFSYS_fseek file (shOffset s.1) s.2)).bind fun t =>
        (findMagic file (elfHdr file) t.1 (shnum (elfHdr file)) 0 s.1 t.2).map fun r =>
          { pOPENELF := openElf heap (elfHdr file) r.1 r.2, tables := 0 } := by
  obtain ⟨pos, hhdr⟩ := read_elfHdr file
  refine ⟨pos, ?_⟩
  simp only [LDR_LoadELFFile, hhdr, Option.bind_eq_bind, Option.bind_some, isElf_iff.2 h, ne_eq,
    not_true_eq_false, if_false]
  refine congrArg _ (funext fun s => ?_)
  split
  · rfl
  · refine congrArg _ (funext fun t => ?_)
    cases findMagic file (elfHdr file) t.1 (shnum (elfHdr file)) 0 s.1 t.2 <;> rfl

/-- A file without sections is no module. -/
theorem load_no_sections (h : IsElf file) (hnum : shnum (elfHdr file) = 0)
    (hent : shentsize (elfHdr file) ≤ 40) : Loads heap file := by
  have hnot : ¬ HasMagic file := by
    rintro ⟨-, -, i, ⟨hi, -⟩, -⟩
    omega
  obtain ⟨pos, hload⟩ := load_elf heap h
  obtain ⟨s, hs, -⟩ : ∃ s, readSecHdr file (elfHdr file) (List.replicate 40 0)
      (shstrndx (elfHdr file)) pos = some s ∧ s.1.length = 40 :=
    esFSYS_fread_short hent
  rw [hs, Option.bind_some, hnum] at hload
  cases hmalloc : heap.malloc (shSize s.1) with
  | false =>
    rw [if_pos hmalloc] at hload
    exact ⟨_, hload, rfl, iff_of_false Bool.false_ne_true hnot⟩
  | true =>
    obtain ⟨t, ht, -⟩ : ∃ t, esFSYS_fread file ((List.range (shSize s.1)).map heap.bytes)
        (shSize s.1) (esFSYS_fseek file (shOffset s.1) s.2) = some t ∧ t.1.length = _ :=
      esFSYS_fread_short (by simp)
    have hsome : ¬ heap.malloc (shSize s.1) = false := by simp [hmalloc]
    rw [if_neg hsome, ht, Option.bind_some] at hload
    exact ⟨_, hload, rfl, iff_of_false Bool.false_ne_true hnot⟩

theorem openElf_isSome (hmalloc : heap.malloc sizeofOpenElf = true) {MagicIdx FileType : Nat} :
    (openElf heap (elfHdr file) MagicIdx FileType).isSome ↔
      MagicIdx ≠ LDR_INVALID_INDEX.toNat ∧ FileType ≠ LDR_INVALID_FILE := by
  unfold openElf
  split
  next h => exact iff_of_false Bool.false_ne_true fun hne => h.elim hne.1 hne.2
  next h => exact iff_of_true rfl (not_or.1 h)

theorem read_strTable (pos : Nat) (hs : SuppliedSections heap file)
    (hshows : Shows file SecHdr (shstrndx (elfHdr file))) :
    ∃ pos', esFSYS_fread file ((List.range (shSize SecHdr)).map heap.bytes) (shSize SecHdr)
      (esFSYS_fseek file (shOffset SecHdr) pos) = some (strTable file, pos') := by
  obtain ⟨-, -, hoff, hsize⟩ := hshows
  have hin := hs.inside
  have hlen : ((List.range (shSize (secHdr file (shstrndx (elfHdr file))))).map heap.bytes).length =
      shSize (secHdr file (shstrndx (elfHdr file))) := by simp
  rw [hoff, hsize, esFSYS_fseek_eq hs.offset (by omega), esFSYS_fread_eq hin hlen.ge,
    List.drop_of_length_le hlen.le, List.append_nil]
  exact ⟨_, rfl⟩

theorem load_supplied (h : IsElf file) (hs : SuppliedSections heap file) :
    Loads heap file ↔
      shentsize (elfHdr file) ≤ 40 ∧ ∀ i, Reached file i → NameInside file i := by
  obtain ⟨pos, hload⟩ := load_elf heap h
  rcases Nat.lt_or_ge 40 (shentsize (elfHdr file)) with hlt | hent
  · refine iff_of_false ?_ fun hf => absurd hf.1 (Nat.not_le.2 hlt)
    rintro ⟨r, hr, -⟩
    rw [readSecHdr_none hs.strings hlt (by simp)] at hload
    cases hload.symm.trans hr
  · obtain ⟨SecHdr, pos', hread, hshows⟩ :=
      readSecHdr_spec pos hs.strings hent (List.length_replicate (n := 40) (a := (0 : UInt8)))
    obtain ⟨pos'', htable⟩ := read_strTable pos' hs hshows
    rw [hread, Option.bind_some, if_neg (by simp [hshows.size, hs.table]), htable,
      Option.bind_some] at hload
    dsimp only at hload
    have hloop := @findMagic_spec file SecHdr (shnum (elfHdr file)) pos'' 0 hs.toSuppliedLoop hent
      (Nat.zero_add _) (fun j hj => absurd hj (Nat.not_lt_zero j)) hshows.len
    rcases hloop with ⟨⟨r, hr, hfound⟩, hall⟩ | ⟨hnone, i, -, hi, hout⟩
    · refine iff_of_true ?_ ⟨hent, fun i hi => hall i (Nat.zero_le i) hi⟩
      rw [hr, Option.map_some] at hload
      refine ⟨_, hload, rfl, (openElf_isSome hs.handle).trans (hfound.trans ?_)⟩
      exact ⟨fun hm => ⟨h, hs.strings.has, hm⟩, fun hm => hm.2.2⟩
    · refine iff_of_false ?_ fun hf => hout (hf.2 i hi)
      rintro ⟨r, hr, -⟩
      rw [hnone] at hload
      cases hload.symm.trans hr

/-- The string table is freed on every path. -/
theorem load_tables {r : Loaded} (hr : LDR_LoadELFFile heap file = some r) : r.tables = 0 := by
  by_cases h : IsElf file
  · obtain ⟨pos, hload⟩ := load_elf heap h
    rw [hload] at hr
    obtain ⟨s, -, hr⟩ := Option.bind_eq_some_iff.1 hr
    split at hr
    · cases hr
      rfl
    · obtain ⟨t, -, hr⟩ := Option.bind_eq_some_iff.1 hr
      obtain ⟨q, -, hq⟩ := Option.map_eq_some_iff.1 hr
      cases hq
      rfl
  · obtain ⟨r', hr', htables, -⟩ := load_not_elf heap h
    cases hr'.symm.trans hr
    exact htables

/-- A file with one section header, of 64 bytes. -/
def longEntry : Bytes :=
  ELFMAG ++ List.replicate 28 0 ++ [52, 0, 0, 0] ++ List.replicate 10 0 ++ [64, 0, 1, 0, 0, 0] ++
    List.replicate 64 0

end Melis.Mods.Ldr
