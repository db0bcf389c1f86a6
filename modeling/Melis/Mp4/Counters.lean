import Melis.Mp4.Packets

/-!
# What the packets do to the counters and to the file

`Inv` holds after every packet: the entries of a table are the pages that were
spilled and those in the ring, which is not full. Chunk lengths are left out, for
their pages are counted in the wrong track. The bytes of a packet go to the end
of the file, and `mdat_size` counts them; it counts too much where a GPS packet has
a second part (`lost`).
-/

namespace Melis.Mp4

open Lib FsWriter.File Function

variable {mov mov' : MOVContext} {pkt : AVPacket} {id id' : ChunkId} {i i' t l : StreamIndex}

theorem update₂_self {α : Type} (f : ChunkId → StreamIndex → α) (x : α) :
    update₂ f id i x id i = x := by
  rw [update₂, update_self, update_self]

theorem update₂_of_ne {α : Type} {f : ChunkId → StreamIndex → α} {x : α}
    (h : ¬ (id' = id ∧ i' = i)) : update₂ f id i x id' i' = f id' i' := by
  unfold update₂
  by_cases hid : id' = id
  · subst hid
    rw [update_self, update_of_ne fun hi => h ⟨rfl, hi⟩]
  · rw [update_of_ne hid]

/-! ## What stays -/

/-- What the tables are not. -/
def rest (mov : MOVContext) : MOVContext :=
  { mov with
    size := fun _ _ => 0
    tiny_pages := fun _ _ => 0
    keyFrame_num := fun _ => 0
    fd := fun _ _ => none
    cache := fun _ => 0
    cache_read_ptr := fun _ _ => 0
    cache_write_ptr := fun _ _ => 0
    cache_size := fun _ _ => 0
    cache_keyframe_ptr := fun _ => 0
    stsc_cnt := 0
    last_stream_index := none
    keyframe_num := 0 }

/-- What a ring is full does. -/
theorem spill_eq_some (h : spill mov id i t = some mov') :
    mov.cache_size id i < cacheSize id ∧ mov' = mov ∨
      cacheSize id ≤ mov.cache_size id i ∧
        ∃ m f page rd, m = (if (mov.fd .stsz 0).isNone then movCreateTmpFile mov else mov) ∧
          m.fd id i = some f ∧
          mov' =
            { m with
              fd := update₂ m.fd id i
                (some (writePage f (m.tiny_pages id t * (4 * MOV_CACHE_TINY_PAGE_SIZE)) page))
              tiny_pages := update₂ m.tiny_pages id t (m.tiny_pages id t + 1)
              cache_size :=
                update₂ m.cache_size id i (m.cache_size id i - MOV_CACHE_TINY_PAGE_SIZE)
              cache_read_ptr := update₂ m.cache_read_ptr id i (wrap id i rd) } := by
  unfold spill at h
  split at h
  · rename_i hfull
    dsimp only at h
    rw [Option.map_eq_some_iff] at h
    obtain ⟨f, hf, rfl⟩ := h
    exact .inr ⟨hfull, _, f, _, _, rfl, hf, rfl⟩
  · rename_i hfree
    cases h
    exact .inl ⟨not_le.1 hfree, rfl⟩

theorem rest_create : rest (if (mov.fd .stsz 0).isNone then movCreateTmpFile mov else mov) =
    rest mov := by
  split <;> rfl

theorem rest_spill (h : spill mov id i t = some mov') : rest mov' = rest mov := by
  rcases spill_eq_some h with ⟨-, rfl⟩ | ⟨-, m, f, page, rd, rfl, -, rfl⟩
  · rfl
  · exact rest_create

theorem size_spill (h : spill mov id i t = some mov') : mov'.size = mov.size := by
  rcases spill_eq_some h with ⟨-, rfl⟩ | ⟨-, m, f, page, rd, rfl, -, rfl⟩
  · rfl
  · dsimp only
    split <;> rfl

/-! ## The rings -/

/-- The entries of a table are in the pages and in the ring, which holds at most `n`; before
the first page is spilled they begin at the start of the ring. The text stream has no pages,
for it has no files. -/
structure RingOk (n : Nat) (mov : MOVContext) (id : ChunkId) (i : StreamIndex) : Prop where
  free : mov.cache_size id i ≤ n
  size : mov.size id i = mov.tiny_pages id i * MOV_CACHE_TINY_PAGE_SIZE + mov.cache_size id i
  start : mov.tiny_pages id i = 0 → mov.cache_read_ptr id i = cacheStart id i
  text : i = 2 → mov.tiny_pages id i = 0

/-- The temporary files of the video and of the audio are opened together, before the
first page is spilled. -/
structure FilesOk (mov : MOVContext) : Prop where
  text : ∀ id, mov.fd id 2 = none
  opened : (mov.fd .stsz 0).isSome → ∀ id i, i ≠ 2 → (mov.fd id i).isSome
  spilled : (∃ id i, mov.tiny_pages id i ≠ 0) → (mov.fd .stsz 0).isSome

/-- A table whose pages are counted right. -/
def Counted (mov : MOVContext) (id : ChunkId) (i : StreamIndex) : Prop :=
  id = .stco ∨ id = .stsz ∧ (mov.tracks i).enc.codec_id ≠ .pcm ∨ id = .stts ∧ i = 0

structure TablesOk (mov : MOVContext) : Prop where
  rings : ∀ id i, Counted mov id i → RingOk (cacheSize id - 1) mov id i
  files : FilesOk mov

theorem Counted.ne_stsc (h : Counted mov id i) : id ≠ .stsc := by
  rintro rfl
  rcases h with h | ⟨h, -⟩ | ⟨h, -⟩ <;> cases h

theorem FilesOk.same (h : FilesOk mov) (hfd : mov'.fd = mov.fd)
    (hpages : mov'.tiny_pages = mov.tiny_pages) : FilesOk mov' := by
  constructor
  · rw [hfd]
    exact h.text
  · rw [hfd]
    exact h.opened
  · rw [hfd, hpages]
    exact h.spilled

theorem val_lt_two (h : i ≠ 2) : i.val < 2 := by
  have : i.val ≠ 2 := fun hi => h (Fin.ext hi)
  omega

theorem create_text (h : FilesOk mov) (id : ChunkId) : (movCreateTmpFile mov).fd id 2 = none := by
  simp [movCreateTmpFile, h.text]

theorem create_opened (hi : i ≠ 2) (id : ChunkId) : ((movCreateTmpFile mov).fd id i).isSome := by
  have hlt := val_lt_two hi
  unfold movCreateTmpFile
  dsimp only
  cases hfd : mov.fd id i with
  | none =>
    rw [if_pos ⟨hlt, rfl⟩]
    rfl
  | some f =>
    rw [if_neg fun h => Bool.noConfusion h.2]
    rfl

/-- Before a page is spilled the temporary files are open. -/
theorem files_create (h : FilesOk mov) :
    FilesOk (if (mov.fd .stsz 0).isNone then movCreateTmpFile mov else mov) := by
  split
  · exact ⟨create_text h, fun _ id i hi => create_opened hi id, fun _ =>
      create_opened (by decide) .stsz⟩
  · exact h

theorem create_stsz (mov : MOVContext) :
    ((if (mov.fd .stsz 0).isNone then movCreateTmpFile mov else mov).fd .stsz 0).isSome := by
  split
  · exact create_opened (by decide) .stsz
  · rename_i hsome
    exact Option.isSome_iff_ne_none.2 (by simpa using hsome)

theorem files_spill (hs : spill mov id i t = some mov') (h : FilesOk mov) : FilesOk mov' := by
  rcases spill_eq_some hs with ⟨-, rfl⟩ | ⟨-, m, f, page, rd, hm, hf, rfl⟩
  · exact h
  have hmfiles : FilesOk m := hm ▸ files_create h
  have hi : i ≠ 2 := by
    rintro rfl
    rw [hmfiles.text] at hf
    cases hf
  have hstsz : (m.fd .stsz 0).isSome := hm ▸ create_stsz mov
  have hfd : ∀ id' i', (m.fd id' i').isSome → (update₂ m.fd id i
      (some (writePage f (m.tiny_pages id t * (4 * MOV_CACHE_TINY_PAGE_SIZE)) page)) id' i').isSome := by
    intro id' i' hsome
    by_cases hid : id' = id ∧ i' = i
    · obtain ⟨rfl, rfl⟩ := hid
      rw [update₂_self]
      rfl
    · rwa [update₂_of_ne hid]
  refine ⟨fun id' => ?_, fun _ id' i' hi' => hfd id' i' (hmfiles.opened hstsz id' i' hi'),
    fun _ => hfd _ _ hstsz⟩
  dsimp only
  rw [update₂_of_ne fun hid => hi hid.2.symm, hmfiles.text]

/-! ### One ring -/

/-- The counters of a ring are the same. -/
structure SameRing (mov mov' : MOVContext) (id : ChunkId) (i : StreamIndex) : Prop where
  cache_size : mov'.cache_size id i = mov.cache_size id i
  size : mov'.size id i = mov.size id i
  tiny_pages : mov'.tiny_pages id i = mov.tiny_pages id i
  read_ptr : mov'.cache_read_ptr id i = mov.cache_read_ptr id i

theorem SameRing.trans {m : MOVContext} (h : SameRing mov m id i) (h' : SameRing m mov' id i) :
    SameRing mov mov' id i :=
  ⟨h'.1.trans h.1, h'.2.trans h.2, h'.3.trans h.3, h'.4.trans h.4⟩

theorem RingOk.same {n : Nat} (h : RingOk n mov id i) (hs : SameRing mov mov' id i) :
    RingOk n mov' id i := by
  constructor
  · rw [hs.cache_size]
    exact h.free
  · rw [hs.size, hs.tiny_pages, hs.cache_size]
    exact h.size
  · rw [hs.tiny_pages, hs.read_ptr]
    exact h.start
  · rw [hs.tiny_pages]
    exact h.text

/-- An entry of another table. -/
theorem sameRing_store (h : ¬ (id = id' ∧ i = i')) (w : UInt32) :
    SameRing mov (countCached (store mov id' i' w) id' i') id i :=
  ⟨update₂_of_ne h, update₂_of_ne h, rfl, rfl⟩

theorem sameRing_spill (hs : spill mov id' i' t = some mov') (h : ¬ (id = id' ∧ (i = i' ∨ i = t))) :
    SameRing mov mov' id i := by
  have h1 : ¬ (id = id' ∧ i = i') := fun hi => h ⟨hi.1, .inl hi.2⟩
  have h2 : ¬ (id = id' ∧ i = t) := fun hi => h ⟨hi.1, .inr hi.2⟩
  rcases spill_eq_some hs with ⟨-, rfl⟩ | ⟨-, m, f, page, rd, rfl, -, rfl⟩
  · exact ⟨rfl, rfl, rfl, rfl⟩
  · constructor <;> dsimp only
    · rw [update₂_of_ne h1]
      split <;> rfl
    · split <;> rfl
    · rw [update₂_of_ne h2]
      split <;> rfl
    · rw [update₂_of_ne h1]
      split <;> rfl

theorem ringOk_store (h : RingOk (cacheSize id - 1) mov id i) (w : UInt32) :
    RingOk (cacheSize id) (countCached (store mov id i w) id i) id i := by
  have hpos : 0 < cacheSize id := by cases id <;> decide
  have hfree := h.free
  have hsize := h.size
  constructor
  · show update₂ _ id i _ id i ≤ _
    rw [update₂_self]
    show mov.cache_size id i + 1 ≤ _
    omega
  · show update₂ mov.size id i _ id i = mov.tiny_pages id i * _ + update₂ _ id i _ id i
    rw [update₂_self, update₂_self, hsize]
    exact Nat.add_assoc _ _ _
  · exact h.start
  · exact h.text

/-- A full ring has given a page away. -/
theorem ringOk_spill (hfiles : FilesOk mov) (h : RingOk (cacheSize id) mov id i)
    (hs : spill mov id i i = some mov') : RingOk (cacheSize id - 1) mov' id i := by
  have hpage : MOV_CACHE_TINY_PAGE_SIZE < cacheSize id := by cases id <;> decide
  have hpos : 0 < MOV_CACHE_TINY_PAGE_SIZE := by decide
  have hfree := h.free
  have hsize := h.size
  rcases spill_eq_some hs with ⟨hlt, rfl⟩ | ⟨hfull, m, f, page, rd, hm, hf, rfl⟩
  · exact ⟨by omega, hsize, h.start, h.text⟩
  have hsame : SameRing mov m id i := by
    rw [hm]
    split <;> exact ⟨rfl, rfl, rfl, rfl⟩
  constructor
  · dsimp only
    rw [update₂_self, hsame.cache_size]
    omega
  · dsimp only
    rw [update₂_self, update₂_self, hsame.size, hsame.tiny_pages, hsame.cache_size, hsize,
      Nat.succ_mul]
    omega
  · dsimp only
    rw [update₂_self]
    intro hz
    omega
  · rintro rfl
    have hmfiles : FilesOk m := hm ▸ files_create hfiles
    rw [hmfiles.text] at hf
    cases hf

/-! ### All the tables -/

theorem tracks_of_rest (h : rest mov' = rest mov) : mov'.tracks = mov.tracks := by
  have := congrArg MOVContext.tracks h
  exact this

theorem Counted.of_tracks (h : mov'.tracks = mov.tracks) (hc : Counted mov' id i) :
    Counted mov id i := by
  unfold Counted at hc ⊢
  rwa [h] at hc

/-- A ring takes an entry and spills; `m` is in between. -/
theorem tablesOk_spill {m : MOVContext} (hs : spill m id i i = some mov') (h : TablesOk mov)
    (hc : Counted mov id i) (htracks : m.tracks = mov.tracks)
    (hring : RingOk (cacheSize id) m id i)
    (hother : ∀ id' i', id' ≠ .stsc → ¬ (id' = id ∧ i' = i) → SameRing mov m id' i')
    (hfiles : FilesOk m) : TablesOk mov' := by
  refine ⟨fun id' i' hc' => ?_, files_spill hs hfiles⟩
  by_cases hid : id' = id ∧ i' = i
  · obtain ⟨rfl, rfl⟩ := hid
    exact ringOk_spill hfiles hring hs
  · have hc' : Counted mov id' i' :=
      (hc'.of_tracks (tracks_of_rest (rest_spill hs))).of_tracks htracks
    refine (h.rings id' i' hc').same ((hother id' i' hc'.ne_stsc hid).trans ?_)
    exact sameRing_spill hs fun hi => hid ⟨hi.1, or_self_iff.1 hi.2⟩

/-- The table of chunk lengths takes an entry. -/
theorem endChunk_spec {m : MOVContext} (h : FilesOk mov) (hs : endChunk mov l t = some m) :
    rest m = rest mov ∧ FilesOk m ∧ (∀ id i, id ≠ .stsc → SameRing mov m id i) ∧
      ∀ id, id ≠ .stsc → m.size id = mov.size id := by
  unfold endChunk at hs
  refine ⟨(rest_spill hs).trans rfl, files_spill hs (h.same rfl rfl), fun id i hid => ?_,
    fun id hid => ?_⟩
  · have hne : ¬ (id = .stsc ∧ i = l) := fun hi => hid hi.1
    have hspill := sameRing_spill (i := i) hs fun hi => hid hi.1
    exact (sameRing_store hne (.ofNat mov.stsc_cnt)).trans ⟨hspill.1, hspill.2, hspill.3, hspill.4⟩
  · rw [size_spill hs]
    exact update_of_ne hid _ mov.size

theorem endLastChunk_spec {m : MOVContext} (h : FilesOk mov) (hs : endLastChunk mov t = some m) :
    rest m = rest mov ∧ FilesOk m ∧ (∀ id i, id ≠ .stsc → SameRing mov m id i) ∧
      ∀ id, id ≠ .stsc → m.size id = mov.size id := by
  unfold endLastChunk at hs
  split at hs
  · cases hs
    exact ⟨rfl, h, fun _ _ _ => ⟨rfl, rfl, rfl, rfl⟩, fun _ _ => rfl⟩
  · exact endChunk_spec h hs

theorem newChunk_spec (h : TablesOk mov) (hs : newChunk mov i = some mov') :
    TablesOk mov' ∧ rest mov' = rest mov ∧ ∀ id, id ≠ .stco → id ≠ .stsc →
      mov'.size id = mov.size id := by
  unfold newChunk at hs
  rw [Option.bind_eq_bind, Option.bind_eq_some_iff] at hs
  obtain ⟨m, hm, hs⟩ := hs
  have hstco : Counted mov .stco i := .inl rfl
  have hring := ringOk_store (h.rings .stco i hstco) (chunkOffset mov)
  obtain ⟨hmrest, hmfiles, hmring, hmsize⟩ :=
    endLastChunk_spec (by exact h.files.same rfl rfl) hm
  refine ⟨?_, (rest_spill hs).trans hmrest, fun id h1 h2 => ?_⟩
  · refine tablesOk_spill hs h hstco (tracks_of_rest hmrest) ?_ ?_ (hmfiles.same rfl rfl)
    · exact hring.same ((hmring .stco i (by decide)).trans ⟨rfl, rfl, rfl, rfl⟩)
    · intro id' i' hid hne
      have hend := hmring id' i' hid
      exact (sameRing_store hne (chunkOffset mov)).trans ⟨hend.1, hend.2, hend.3, hend.4⟩
  · rw [size_spill hs]
    exact (hmsize id h2).trans (update_of_ne h1 _ mov.size)

/-- A sample that is only counted leaves the rings alone. -/
theorem tablesOk_pcm {m : MOVContext} (hs : spill m .stsz i i = some mov') (h : TablesOk mov)
    (hpcm : (mov.tracks i).enc.codec_id = .pcm) (htracks : m.tracks = mov.tracks)
    (hother : ∀ id' i', ¬ (id' = ChunkId.stsz ∧ i' = i) → SameRing mov m id' i')
    (hfiles : FilesOk m) : TablesOk mov' := by
  refine ⟨fun id' i' hc' => ?_, files_spill hs hfiles⟩
  replace hc' := (hc'.of_tracks (tracks_of_rest (rest_spill hs))).of_tracks htracks
  have hid : ¬ (id' = .stsz ∧ i' = i) := by
    rintro ⟨rfl, rfl⟩
    rcases hc' with hc' | ⟨-, hc'⟩ | ⟨hc', -⟩
    · cases hc'
    · exact hc' hpcm
    · cases hc'
  refine (h.rings id' i' hc').same ((hother id' i' hid).trans ?_)
  exact sameRing_spill hs fun hi => hid ⟨hi.1, or_self_iff.1 hi.2⟩

theorem addSample_spec {n : Nat} (h : TablesOk mov) (hs : addSample mov i n = some mov') :
    TablesOk mov' ∧ rest mov' = rest mov ∧ (∀ id, id ≠ .stsz → mov'.size id = mov.size id) ∧
      (∀ j, j ≠ i → mov'.size .stsz j = mov.size .stsz j) ∧
      ((mov.tracks i).enc.codec_id ≠ .pcm → mov'.size .stsz i = mov.size .stsz i + 1) := by
  unfold addSample at hs
  rw [Option.bind_eq_bind, Option.bind_eq_some_iff] at hs
  obtain ⟨m, hm, hs⟩ := hs
  unfold countSample at hm
  dsimp only at hm
  split at hm
  · rename_i hpcm
    split at hm
    · cases hm
    cases hm
    refine ⟨?_, (rest_spill hs).trans rfl, fun id hid => ?_, fun j hj => ?_,
      fun hne => absurd hpcm hne⟩
    · refine tablesOk_pcm hs h hpcm rfl ?_ (h.files.same rfl rfl)
      exact fun id' i' hne => ⟨rfl, by exact update₂_of_ne hne, rfl, rfl⟩
    · rw [size_spill hs]
      exact update_of_ne hid _ mov.size
    · rw [size_spill hs]
      show update₂ mov.size .stsz i _ .stsz j = _
      exact update₂_of_ne fun hi => hj hi.2
  · rename_i hpcm
    cases hm
    have hstsz : Counted mov .stsz i := .inr (.inl ⟨rfl, hpcm⟩)
    refine ⟨?_, (rest_spill hs).trans rfl, fun id hid => ?_, fun j hj => ?_, fun _ => ?_⟩
    · refine tablesOk_spill hs h hstsz rfl ?_ ?_ (h.files.same rfl rfl)
      · exact (ringOk_store (h.rings .stsz i hstsz) (.ofNat n)).same ⟨rfl, rfl, rfl, rfl⟩
      · exact fun id' i' _ hne =>
          (sameRing_store hne (.ofNat n)).trans ⟨rfl, rfl, rfl, rfl⟩
    · rw [size_spill hs]
      exact update_of_ne hid _ mov.size
    · rw [size_spill hs]
      show update₂ mov.size .stsz i _ .stsz j = _
      exact update₂_of_ne fun hi => hj hi.2
    · rw [size_spill hs]
      show update₂ mov.size .stsz i _ .stsz i = _
      exact update₂_self mov.size _

theorem addDuration_spec {d : Int} (h : TablesOk mov) (hs : addDuration mov d = some mov') :
    TablesOk mov' ∧ rest mov' = rest mov ∧ mov'.size .stsz = mov.size .stsz ∧
      mov'.size .stts 0 = mov.size .stts 0 + 1 := by
  have hstts : Counted mov .stts 0 := .inr (.inr ⟨rfl, rfl⟩)
  unfold addDuration at hs
  refine ⟨?_, (rest_spill hs).trans rfl, ?_, ?_⟩
  · refine tablesOk_spill hs h hstts rfl ?_ ?_ (h.files.same rfl rfl)
    · exact (ringOk_store (h.rings .stts 0 hstts) (.ofInt d)).same ⟨rfl, rfl, rfl, rfl⟩
    · exact fun id' i' _ hne => (sameRing_store hne (.ofInt d)).trans ⟨rfl, rfl, rfl, rfl⟩
  · rw [size_spill hs]
    exact update_of_ne (show ChunkId.stsz ≠ .stts by decide)
      (update (mov.size .stts) 0 (mov.size .stts 0 + 1)) mov.size
  · rw [size_spill hs]
    show update₂ mov.size .stts 0 _ .stts 0 = _
    exact update₂_self mov.size _

/-! ## A packet -/

theorem addKeyFrame_eq_some (h : addKeyFrame mov = some mov') : ∃ ptr n,
    mov' = { mov with cache_keyframe_ptr := ptr, keyFrame_num := n } := by
  unfold addKeyFrame at h
  dsimp only at h
  split at h
  · cases h
    exact ⟨_, _, rfl⟩
  · cases h

/-- The table of key frames is apart from the others. -/
theorem markKeyFrame_eq_some {b : UInt8} (h : markKeyFrame mov pkt b = some mov') : ∃ ptr n k,
    mov' = { mov with cache_keyframe_ptr := ptr, keyFrame_num := n, keyframe_num := k } := by
  have hadd : ∀ {p : Prop} [Decidable p] {m : MOVContext},
      (if p then addKeyFrame mov else some mov) = some m → ∃ ptr n,
        m = { mov with cache_keyframe_ptr := ptr, keyFrame_num := n } := by
    intro p _ m hm
    split at hm
    · exact addKeyFrame_eq_some hm
    · cases hm
      exact ⟨_, _, rfl⟩
  unfold markKeyFrame at h
  split at h
  · obtain ⟨ptr, n, rfl⟩ := hadd h
    exact ⟨ptr, n, _, rfl⟩
  · obtain ⟨ptr, n, rfl⟩ := hadd h
    exact ⟨ptr, n, _, rfl⟩
  · obtain ⟨ptr, n, rfl⟩ := hadd h
    exact ⟨ptr, n, _, rfl⟩
  · dsimp only [Option.bind_eq_bind] at h
    split at h
    · obtain ⟨m, hm, h⟩ := Option.bind_eq_some_iff.1 h
      obtain ⟨ptr, n, rfl⟩ := addKeyFrame_eq_some hm
      cases h
      exact ⟨ptr, n, _, rfl⟩
    · cases h
      exact ⟨_, _, _, rfl⟩
  · cases h

/-- There are as many durations as video samples, and GPS data is written only if there
is room for its entries. -/
structure Inv (mov : MOVContext) : Prop where
  tables : TablesOk mov
  stts : mov.size .stts 0 = mov.size .stsz 0
  gps : mov.gps_entry_buff_wt ≠ 0 → mov.gps_entry_buff.isSome

theorem TablesOk.same (h : TablesOk mov) (htracks : mov'.tracks = mov.tracks)
    (hring : ∀ id i, id ≠ .stsc → SameRing mov mov' id i) (hfd : mov'.fd = mov.fd)
    (hpages : mov'.tiny_pages = mov.tiny_pages) : TablesOk mov' :=
  ⟨fun id i hc => (h.rings id i (hc.of_tracks htracks)).same (hring id i hc.ne_stsc),
    h.files.same hfd hpages⟩

theorem addVideo_spec (h : TablesOk mov) (hs : addVideo mov pkt = some mov') :
    TablesOk mov' ∧ rest mov' = rest mov ∧ mov'.size .stsz = mov.size .stsz ∧
      mov'.size .stts 0 = mov.size .stts 0 + (if pkt.stream_index = 0 then 1 else 0) ∧
      (pkt.stream_index = 0 → (tmpStrmByte pkt).isSome) := by
  unfold addVideo at hs
  split at hs
  · rename_i hi
    simp only [Option.bind_eq_bind, Option.bind_eq_some_iff] at hs
    obtain ⟨m, hm, b, hb, hs⟩ := hs
    obtain ⟨htables, hrest, hstsz, hstts⟩ := addDuration_spec h hm
    obtain ⟨ptr, n, k, rfl⟩ := markKeyFrame_eq_some hs
    refine ⟨htables.same rfl (fun _ _ _ => ⟨rfl, rfl, rfl, rfl⟩) rfl rfl, hrest, hstsz, ?_,
      fun _ => by rw [hb]; rfl⟩
    rw [if_pos hi]
    exact hstts
  · rename_i hi
    cases hs
    refine ⟨h, rfl, rfl, ?_, fun hi' => absurd hi' hi⟩
    rw [if_neg hi]
    rfl

theorem beginChunk_spec (h : TablesOk mov) (hs : beginChunk mov i = some mov') :
    TablesOk mov' ∧ rest mov' = rest mov ∧ ∀ id, id ≠ .stco → id ≠ .stsc →
      mov'.size id = mov.size id := by
  unfold beginChunk at hs
  split at hs
  · exact newChunk_spec h hs
  · cases hs
    exact ⟨h, rfl, fun _ _ _ => rfl⟩

/-! ### The media data -/

/-- What a packet puts out. GPS data is in a box of its own. -/
def packetOut (mov : MOVContext) (pkt : AVPacket) : Out :=
  if isGps mov pkt then
    if pkt.data0 = [] then ∅
    else
      .box (.ofNat (4 + 4 + 4 + 4 + pkt.size)) (fourcc 'f' 'r' 'e' 'e')
        (.bytes (fourcc 'G' 'P' 'S' ' ' ++ le32 (.ofNat pkt.size) ++ pkt.data0))
  else .bytes (payload pkt (special mov pkt) ++ trailer (mov.tracks pkt.stream_index).enc)

def mediaData (mov : MOVContext) (pkts : List AVPacket) : Out := .concat (pkts.map (packetOut mov))

/-- What is counted of a GPS packet and not written. -/
def lost (mov : MOVContext) (pkt : AVPacket) : Nat :=
  if isGps mov pkt ∧ pkt.data0 ≠ [] then pkt.data1.length else 0

/-- The length takes as many bytes as the start code. -/
theorem length_payload {sp : Bool} (h : sp = true → (tmpStrmByte pkt).isSome) :
    (payload pkt sp).length = pkt.size := by
  unfold payload AVPacket.size
  split
  · rename_i hsp
    have hb := h hsp.1
    have hpos : 0 < pkt.data0.length := List.length_pos_iff.2 hsp.2
    have hlen : 5 ≤ pkt.data0.length + pkt.data1.length := by
      unfold tmpStrmByte at hb
      rw [if_pos hpos] at hb
      split at hb
      · omega
      · rw [Option.isSome_iff_exists] at hb
        obtain ⟨b, hb⟩ := hb
        obtain ⟨hlt, -⟩ := List.getElem?_eq_some_iff.1 hb
        omega
    simp only [List.length_append, length_be32, List.length_drop]
    omega
  · rw [List.length_append]

/-- What stays over a run. -/
def config (mov : MOVContext) : MOVContext :=
  { rest mov with mdat_size := 0, gps_entry_buff := none, gps_entry_buff_wt := 0, pb := ⟨[], 0⟩ }

theorem config_of_rest (h : rest mov' = rest mov) : config mov' = config mov := by
  unfold config
  rw [h]

theorem tracks_of_config (h : config mov' = config mov) : mov'.tracks = mov.tracks := by
  have := congrArg MOVContext.tracks h
  exact this

theorem packetOut_of_config (h : config mov' = config mov) (pkt : AVPacket) :
    packetOut mov' pkt = packetOut mov pkt ∧ lost mov' pkt = lost mov pkt := by
  have hout : ∀ m, packetOut m pkt = packetOut (config m) pkt := fun _ => rfl
  have hlost : ∀ m, lost m pkt = lost (config m) pkt := fun _ => rfl
  rw [hout mov', hlost mov', h]
  exact ⟨rfl, rfl⟩

/-- The bytes of a packet go to the end of the file, and are counted. -/
structure Step (mov mov' : MOVContext) (pkt : AVPacket) : Prop where
  inv : Inv mov'
  config : config mov' = config mov
  pb : ∀ l, mov.pb = ⟨l, l.length⟩ →
    mov'.pb = ⟨l ++ (packetOut mov pkt).emit, (l ++ (packetOut mov pkt).emit).length⟩
  mdat_size : mov'.mdat_size = mov.mdat_size + (packetOut mov pkt).emit.length + lost mov pkt

theorem step_gps (h : Inv mov) (hgps : isGps mov pkt) (hs : mov_write_packet mov pkt = some mov') :
    Step mov mov' pkt := by
  unfold mov_write_packet at hs
  rw [if_pos hgps, mov_write_gps_packet] at hs
  split at hs
  · rename_i hnil
    cases hs
    have hout : packetOut mov pkt = ∅ := by rw [packetOut, if_pos hgps, if_pos hnil]
    have hlost : lost mov pkt = 0 := if_neg fun hl => hl.2 hnil
    refine ⟨h, rfl, fun l hl => ?_, ?_⟩
    · rw [hout, Out.emit_empty, List.append_nil]
      exact hl
    · rw [hout, hlost]
      rfl
  · rename_i hne
    obtain ⟨es, hes, rfl⟩ := Option.map_eq_some_iff.1 hs
    have hlost : lost mov pkt = pkt.data1.length := if_pos ⟨hgps, hne⟩
    refine ⟨⟨h.tables.same rfl (fun _ _ _ => ⟨rfl, rfl, rfl, rfl⟩) rfl rfl, h.stts, fun _ => rfl⟩,
      rfl, fun l hl => ?_, ?_⟩
    · rw [← write_end, packetOut, if_pos hgps, if_neg hne, ← hl]
      show mov.pb.write _ = mov.pb.write _
      rw [Out.emit_box, freeHeader]
      simp only [Out.emit_bytes, List.append_assoc]
    · rw [hlost, packetOut, if_pos hgps, if_neg hne, Out.length_emit_box]
      show mov.mdat_size + _ = _
      simp only [Out.emit_bytes, List.length_append, length_fourcc, length_le32, AVPacket.size]
      omega

theorem step_sample (h : Inv mov) (hvideo : (mov.tracks 0).enc.codec_id ≠ .pcm)
    (hgps : ¬ isGps mov pkt) (hs : mov_write_packet mov pkt = some mov') : Step mov mov' pkt := by
  unfold mov_write_packet at hs
  rw [if_neg hgps] at hs
  simp only [Option.bind_eq_bind, Option.bind_eq_some_iff] at hs
  obtain ⟨m₁, h₁, m₂, h₂, m₃, h₃, hs⟩ := hs
  cases hs
  obtain ⟨ht₁, hrest₁, hsize₁⟩ := beginChunk_spec h.tables h₁
  obtain ⟨ht₂, hrest₂, hsize₂, hother₂, hpcm₂⟩ := addSample_spec ht₁ h₂
  obtain ⟨ht₃, hrest₃, hstsz₃, hstts₃, hbyte⟩ := addVideo_spec ht₂ h₃
  have hrest : rest m₃ = rest mov := hrest₃.trans (hrest₂.trans hrest₁)
  have hlost : lost mov pkt = 0 := if_neg fun hl => hgps hl.1
  have hout : packetOut m₃ pkt = packetOut mov pkt := (packetOut_of_config (config_of_rest hrest) pkt).1
  have hgps' : ¬ isGps m₃ pkt := by
    have hm : isGps m₃ pkt ↔ isGps (rest m₃) pkt := Iff.rfl
    rwa [hm, hrest]
  have hmdat : m₃.mdat_size = mov.mdat_size := by
    have := congrArg MOVContext.mdat_size hrest
    exact this
  have hpb : m₃.pb = mov.pb := by
    have := congrArg MOVContext.pb hrest
    exact this
  have hlen : (payload pkt (special m₃ pkt)).length = pkt.size := by
    refine length_payload fun hsp => hbyte ?_
    unfold special at hsp
    simp only [Bool.and_eq_true, decide_eq_true_eq] at hsp
    exact hsp.1.1
  rw [packetOut, if_neg hgps'] at hout
  constructor
  · refine ⟨ht₃.same rfl (fun _ _ _ => ⟨rfl, rfl, rfl, rfl⟩) rfl rfl, ?_, ?_⟩
    · show m₃.size .stts 0 = m₃.size .stsz 0
      rw [hstts₃, hstsz₃, hsize₂ .stts (by decide), hsize₁ .stts (by decide) (by decide), h.stts,
        ← hsize₁ .stsz (by decide) (by decide)]
      by_cases hi : pkt.stream_index = 0
      · rw [if_pos hi]
        rw [hi] at hpcm₂
        exact (hpcm₂ (by rwa [tracks_of_rest hrest₁])).symm
      · rw [if_neg hi]
        exact (hother₂ 0 fun h0 => hi h0.symm).symm
    · have h1 := congrArg MOVContext.gps_entry_buff hrest
      have h2 := congrArg MOVContext.gps_entry_buff_wt hrest
      have hgpsbuf := h.gps
      show m₃.gps_entry_buff_wt ≠ 0 → m₃.gps_entry_buff.isSome
      rwa [show m₃.gps_entry_buff_wt = mov.gps_entry_buff_wt from h2,
        show m₃.gps_entry_buff = mov.gps_entry_buff from h1]
  · show config m₃ = _
    exact config_of_rest hrest
  · intro l hl
    show m₃.pb.write _ = _
    rw [← write_end, hpb, hl, ← hout]
    rfl
  · show m₃.mdat_size + _ = _
    rw [hmdat, hlost, ← hout, Out.emit_bytes, List.length_append, hlen]
    rfl

theorem step_spec (h : Inv mov) (hvideo : (mov.tracks 0).enc.codec_id ≠ .pcm)
    (hs : mov_write_packet mov pkt = some mov') : Step mov mov' pkt := by
  by_cases hgps : isGps mov pkt
  · exact step_gps h hgps hs
  · exact step_sample h hvideo hgps hs

/-! ## A recording -/

theorem mediaData_of_config (h : config mov' = config mov) (pkts : List AVPacket) :
    mediaData mov' pkts = mediaData mov pkts ∧ pkts.map (lost mov') = pkts.map (lost mov) := by
  have hout : packetOut mov' = packetOut mov := funext fun pkt => (packetOut_of_config h pkt).1
  have hlost : lost mov' = lost mov := funext fun pkt => (packetOut_of_config h pkt).2
  rw [mediaData, mediaData, hout, hlost]
  exact ⟨rfl, rfl⟩

/-- The bytes of the packets stand one after another at the end of the file. -/
theorem run_spec {pkts : List AVPacket} {l : List UInt8} (h : Inv mov)
    (hvideo : (mov.tracks 0).enc.codec_id ≠ .pcm) (hl : mov.pb = ⟨l, l.length⟩)
    (hr : muxer.run mov pkts = some mov') :
    Inv mov' ∧ config mov' = config mov ∧
      mov'.pb = ⟨l ++ (mediaData mov pkts).emit, (l ++ (mediaData mov pkts).emit).length⟩ ∧
      mov'.mdat_size =
        mov.mdat_size + (mediaData mov pkts).emit.length + (pkts.map (lost mov)).sum := by
  induction pkts generalizing mov l with
  | nil =>
    cases hr
    refine ⟨h, rfl, ?_, rfl⟩
    rw [hl]
    show _ = FsWriter.File.mk (l ++ []) (l ++ []).length
    rw [List.append_nil]
  | cons pkt pkts ih =>
    obtain ⟨m, hm, hr⟩ := Machine.run_cons_eq_some.1 hr
    have hstep := step_spec h hvideo hm
    obtain ⟨hdata, hlost⟩ := mediaData_of_config hstep.config pkts
    obtain ⟨hinv, hconfig, hpb, hsize⟩ :=
      ih hstep.inv (by rwa [tracks_of_config hstep.config]) (hstep.pb l hl) hr
    refine ⟨hinv, hconfig.trans hstep.config, ?_, ?_⟩
    · rw [hpb, hdata, List.append_assoc]
      rfl
    · rw [hsize, hstep.mdat_size, hdata, hlost, List.map_cons, List.sum_cons]
      show _ = mov.mdat_size + ((packetOut mov pkt).emit ++ (mediaData mov pkts).emit).length + _
      rw [List.length_append]
      omega

end Melis.Mp4
