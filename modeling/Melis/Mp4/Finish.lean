import Melis.Lib.C
import Melis.Mp4.Counters
import Melis.Mp4.Sizes

/-!
# The finished file

`layout` are the top-level boxes of the file that `mov_write_trailer` leaves, with
the size fields that are written for them and the bytes that stand in them. Every
size is right just if `EndFits` holds of the state in which `moov` is written and
no GPS packet has a second part (`finished_iff`).
-/

namespace Melis.Mp4

open Lib FsWriter.File Function Out

variable {mov m : MOVContext} {r : Recording} {i : StreamIndex} {id : ChunkId} {data : Out}

/-! ## The boxes of the file -/

def zeros (n : Nat) : List UInt8 := List.replicate n 0

/-- A `free` box with `n` bytes that are not written. -/
def freeBox (size : UInt32) (n : Nat) : Out :=
  .box size (fourcc 'f' 'r' 'e' 'e') (.bytes (zeros n))

def mdatBox (mov : MOVContext) (data : Out) : Out :=
  .box (.ofNat (mov.mdat_size + 8)) (fourcc 'm' 'd' 'a' 't') data

def layout (mov : MOVContext) (data : Out) : List Out :=
  if moovFits mov then
    [mov_write_ftyp_tag, moovBox mov,
      freeBox (.ofNat MOV_HEADER_RESERVE_SIZE - movGetMoovTagSize mov - 28)
        (MOV_HEADER_RESERVE_SIZE - 36 - (moovBox mov).emit.length),
      mdatBox mov data]
  else
    [mov_write_ftyp_tag,
      freeBox (.ofNat MOV_HEADER_RESERVE_SIZE - 28) (MOV_HEADER_RESERVE_SIZE - 36),
      mdatBox mov data, moovBox mov]

/-- The file is finished, its boxes follow one another, and every box has the size that is
written for it. -/
def Finished (mov : MOVContext) (data : Out) : Prop :=
  ∃ m m', lastPacket mov = some m ∧ mov_write_trailer mov = some m' ∧
    m'.pb.bytes = (concat (layout m data)).emit ∧ (concat (layout m data)).Sized

/-! ## The bytes of the file -/

/-- What is in the file before the first packet. -/
def header : List UInt8 :=
  mov_write_ftyp_tag.emit ++ freeHeader (.ofNat MOV_HEADER_RESERVE_SIZE - 28) ++
    zeros (MOV_HEADER_RESERVE_SIZE - 36) ++ be32 0 ++ fourcc 'm' 'd' 'a' 't'

@[simp] theorem length_zeros (n : Nat) : (zeros n).length = n := List.length_replicate

@[simp] theorem length_freeHeader (size : UInt32) : (freeHeader size).length = 8 := rfl

theorem length_ftyp : mov_write_ftyp_tag.emit.length = 28 := rfl

theorem zeros_add (a b : Nat) : zeros (a + b) = zeros a ++ zeros b := List.replicate_add a b 0

theorem seek_pb (mov : MOVContext) (pos : Nat) : (seek mov pos).pb = ⟨mov.pb.bytes, pos⟩ := by
  have hpos : ¬ ((pos : Int) < 0) := by omega
  unfold seek FsWriter.File.seek
  simp only [if_true, if_neg hpos, Int.zero_add, Int.toNat_natCast]

theorem put_pb (mov : MOVContext) (b : List UInt8) : (put mov b).pb = mov.pb.write b := rfl

theorem header_pb (r : Recording) :
    (mov_write_header (Mp4MuxerOpen r)).pb = ⟨header, header.length⟩ := by
  have hftyp : (put (Mp4MuxerOpen r) mov_write_ftyp_tag.emit).pb =
      ⟨mov_write_ftyp_tag.emit, mov_write_ftyp_tag.emit.length⟩ := by
    rw [put_pb]
    exact write_end [] mov_write_ftyp_tag.emit
  have hlen : (mov_write_ftyp_tag.emit ++
      freeHeader (.ofNat MOV_HEADER_RESERVE_SIZE - 28)).length = 36 := by
    rw [List.length_append, length_freeHeader, length_ftyp]
  have hreserve : 36 ≤ MOV_HEADER_RESERVE_SIZE := by decide
  have hend : MOV_HEADER_RESERVE_SIZE + (be32 0 ++ fourcc 'm' 'd' 'a' 't').length =
      header.length := by
    simp only [header, List.length_append]
    rw [length_ftyp, length_freeHeader, length_zeros, length_be32, length_fourcc]
    omega
  unfold mov_write_header mov_write_mdat_tag
  rw [put_pb, seek_pb, put_pb]
  dsimp only
  rw [hftyp, write_end]
  dsimp only
  rw [write_past (by rw [hlen]; exact hreserve), hlen, ← List.append_assoc, hend, header, zeros]

/-- The place for the size of `mdat` is behind what was reserved. -/
theorem write_mdat_size {l c : List UInt8} (hl : l.length = MOV_HEADER_RESERVE_SIZE)
    (h : mov.pb.bytes = l ++ be32 0 ++ c) (size : UInt32) :
    (put (seek mov MOV_HEADER_RESERVE_SIZE) (be32 size)).pb.bytes = l ++ be32 size ++ c := by
  rw [put_pb, seek_pb, h, ← hl, write_mid (show (be32 0).length = (be32 size).length from rfl)]

/-- `moov` goes over what was reserved. -/
theorem bytes_reserved (hpb : m.pb = ⟨header ++ data.emit, (header ++ data.emit).length⟩)
    (hfits : moovFits m) (hlen : (moovBox m).emit.length + 36 ≤ MOV_HEADER_RESERVE_SIZE) :
    (finish m).pb.bytes = (concat (layout m data)).emit := by
  obtain ⟨n, hn⟩ := Nat.exists_eq_add_of_le' hlen
  have hgap : MOV_HEADER_RESERVE_SIZE - 36 = (moovBox m).emit.length + n := by omega
  have hgap' : MOV_HEADER_RESERVE_SIZE - 36 - (moovBox m).emit.length = n := by omega
  have hbytes : m.pb.bytes = mov_write_ftyp_tag.emit ++
      (freeHeader (.ofNat MOV_HEADER_RESERVE_SIZE - 28) ++ zeros (moovBox m).emit.length) ++
        (zeros n ++ be32 0 ++ fourcc 'm' 'd' 'a' 't' ++ data.emit) := by
    rw [hpb, header, hgap, zeros_add]
    simp only [List.append_assoc]
  have hmoov : (mov_write_moov_tag m).pb.bytes = (mov_write_ftyp_tag.emit ++
      ((moovBox m).emit ++
        freeHeader (.ofNat MOV_HEADER_RESERVE_SIZE - movGetMoovTagSize m - 28)) ++ zeros n) ++
          be32 0 ++ (fourcc 'm' 'd' 'a' 't' ++ data.emit) := by
    unfold mov_write_moov_tag
    rw [if_pos hfits, put_pb, put_pb, seek_pb, write_write, hbytes, ← length_ftyp, write_mid]
    · simp only [List.append_assoc]
    · simp only [List.length_append, length_freeHeader, length_zeros]
      omega
  unfold finish
  rw [write_mdat_size ?_ hmoov, layout, if_pos hfits, hgap']
  · simp only [concat, emit_append, emit_box, emit_bytes, emit_empty, freeBox, mdatBox, freeHeader,
      List.append_assoc, List.append_nil]
  · simp only [List.length_append, length_freeHeader, length_zeros, length_ftyp]
    omega

/-- `moov` goes behind the media data. -/
theorem bytes_behind (hpb : m.pb = ⟨header ++ data.emit, (header ++ data.emit).length⟩)
    (hfits : ¬ moovFits m) : (finish m).pb.bytes = (concat (layout m data)).emit := by
  have hmoov : (mov_write_moov_tag m).pb.bytes = (mov_write_ftyp_tag.emit ++
      freeHeader (.ofNat MOV_HEADER_RESERVE_SIZE - 28) ++ zeros (MOV_HEADER_RESERVE_SIZE - 36)) ++
        be32 0 ++ (fourcc 'm' 'd' 'a' 't' ++ data.emit ++ (moovBox m).emit) := by
    unfold mov_write_moov_tag
    rw [if_neg hfits, put_pb, hpb, write_end, header]
    simp only [List.append_assoc]
  have hreserve : 36 ≤ MOV_HEADER_RESERVE_SIZE := by decide
  unfold finish
  rw [write_mdat_size ?_ hmoov, layout, if_neg hfits]
  · simp only [concat, emit_append, emit_box, emit_bytes, emit_empty, freeBox, mdatBox, freeHeader,
      List.append_assoc, List.append_nil]
  · simp only [List.length_append, length_freeHeader, length_zeros, length_ftyp]
    omega

/-! ## What the tables bring -/

@[simp] theorem length_readRing (mov : MOVContext) (i : StreamIndex) (id : ChunkId) (n p : Nat) :
    (readRing mov i id n p).length = n := by
  induction n generalizing p with
  | zero => rfl
  | succ n ih => rw [readRing, List.length_cons, ih]

theorem length_readPages (mov : MOVContext) (f : List UInt32) (n : Nat) :
    (readPages mov f n).length = n := by
  rw [readPages, List.length_map, List.length_range]

theorem ring_in_block (id : ChunkId) (i : StreamIndex) :
    cacheStart id i + cacheSize id ≤ TOTAL_CACHE_SIZE := by
  revert i
  cases id <;> decide

/-- The text stream is the only one without files. -/
def TextTrack (mov : MOVContext) : Prop := ∀ i, (mov.tracks i).enc.codec_id = .ggad ↔ i = 2

theorem tableFits (h : TablesOk mov) (htext : TextTrack mov) (hc : Counted mov id i) :
    TableFits mov i id := by
  have hring := h.rings id i hc
  have hblock := ring_in_block id i
  have hpos : 0 < cacheSize id := by cases id <;> decide
  have hfree := hring.free
  have hsize := hring.size
  unfold TableFits tableWords
  dsimp only
  by_cases hpages : mov.tiny_pages id i = 0
  · have hread : mov.cache_read_ptr id i + mov.size id i ≤ TOTAL_CACHE_SIZE := by
      rw [hring.start hpages, hsize, hpages]
      omega
    rw [if_pos (.inr hpages), if_pos hread]
    exact ⟨_, rfl, by rw [readRow, List.length_map, List.length_range]⟩
  · have hi : i ≠ 2 := fun hi => hpages (hring.text hi)
    have hne : ¬ ((mov.tracks i).enc.codec_id = .ggad ∨ mov.tiny_pages id i = 0) := by
      rw [htext i]
      exact fun hor => hor.elim hi hpages
    obtain ⟨f, hf⟩ := Option.isSome_iff_exists.1
      (h.files.opened (h.files.spilled ⟨id, i, hpages⟩) id i hi)
    rw [if_neg hne, hf]
    refine ⟨_, rfl, ?_⟩
    rw [List.length_append, length_readPages, length_readRing]
    omega

/-- The chunk lengths are read inside of the block, and there are enough of them for the pages
that are counted. -/
def StscFits (mov : MOVContext) (i : StreamIndex) : Prop :=
  if mov.tiny_pages .stsc i = 0 then
    mov.cache_read_ptr .stsc i + mov.size .stsc i ≤ TOTAL_CACHE_SIZE
  else mov.tiny_pages .stsc i * MOV_CACHE_TINY_PAGE_SIZE ≤ mov.size .stsc i

instance (mov : MOVContext) (i : StreamIndex) : Decidable (StscFits mov i) :=
  inferInstanceAs (Decidable (ite _ _ _))

theorem stsc_tableFits (h : TablesOk mov) (htext : TextTrack mov) (hi : i ≠ 2)
    (hfits : StscFits mov i) : TableFits mov i .stsc := by
  have hggad : ¬ (mov.tracks i).enc.codec_id = .ggad := by rwa [htext i]
  unfold StscFits at hfits
  unfold TableFits tableWords
  dsimp only
  by_cases hpages : mov.tiny_pages .stsc i = 0
  · rw [if_pos hpages] at hfits
    rw [if_pos (.inr hpages), if_pos hfits]
    exact ⟨_, rfl, by rw [readRow, List.length_map, List.length_range]⟩
  · rw [if_neg hpages] at hfits
    obtain ⟨f, hf⟩ := Option.isSome_iff_exists.1
      (h.files.opened (h.files.spilled ⟨.stsc, i, hpages⟩) .stsc i hi)
    rw [if_neg fun hor => hor.elim hggad hpages, hf]
    refine ⟨_, rfl, ?_⟩
    rw [List.length_append, length_readPages, length_readRing]
    omega

theorem length_stscEntries (ws : List UInt32) : (stscEntries ws).length = 12 * ws.length := by
  have hconst : ∀ l : List (UInt32 × Nat), (l.flatMap fun w =>
      be32 (.ofNat (w.2 + 1)) ++ be32 w.1 ++ be32 1).length = 12 * l.length := by
    intro l
    induction l with
    | nil => rfl
    | cons w l ih =>
      rw [List.flatMap_cons, List.length_append, ih, List.length_cons]
      show 12 + 12 * l.length = _
      omega
  rw [stscEntries, hconst, List.length_zipIdx]

/-- A size for `k` entries is that of `n` entries or more only if `n ≤ k`. -/
theorem le_of_stsc_size {k n : Nat}
    (h : ((UInt32.ofNat k * 3 + 4) * 4).toNat = 16 + 12 * (n + (k - n))) : n ≤ k := by
  by_contra hlt
  have hbound := UInt32.toNat_lt ((UInt32.ofNat k * 3 + 4) * 4)
  have hsmall : 16 + 12 * k < 2 ^ 32 := by omega
  have hval : (UInt32.ofNat k * 3 + 4) * 4 = UInt32.ofNat (16 + 12 * k) := by
    rw [UInt32.ofNat_add, UInt32.ofNat_mul]
    grind
  rw [hval, UInt32.toNat_ofNat_of_lt' hsmall] at h
  omega

/-- A box of chunk lengths that has its size was read from a table that has its length. -/
theorem StscFits.of_sized (hggad : (mov.tracks i).enc.codec_id ≠ .ggad)
    (h : (mov_write_stsc_tag mov i).Sized) : StscFits mov i := by
  unfold mov_write_stsc_tag movGetStscTagSize at h
  rw [if_pos hggad, if_neg hggad, sized_box] at h
  obtain ⟨hsize, -, hwords⟩ := h
  cases hws : tableWords mov i .stsc with
  | none =>
    rw [hws] at hwords
    exact absurd hwords id
  | some ws =>
    rw [hws] at hsize
    simp only [tableOut, emit_append, emit_bytes, List.length_append, length_be32, length_fourcc,
      length_stscEntries] at hsize
    unfold tableWords at hws
    unfold StscFits
    dsimp only at hws
    by_cases hpages : mov.tiny_pages .stsc i = 0
    · rw [if_pos (.inr hpages)] at hws
      rw [if_pos hpages]
      by_contra hread
      rw [if_neg hread] at hws
      cases hws
    · rw [if_neg fun hor => hor.elim hggad hpages] at hws
      rw [if_neg hpages]
      obtain ⟨f, -, rfl⟩ := Option.map_eq_some_iff.1 hws
      rw [List.length_append, length_readPages, length_readRing] at hsize
      exact le_of_stsc_size (by rw [hsize, ← Nat.add_assoc, ← Nat.add_assoc])

/-! ## The tracks -/

/-- What the tracks of a recording are. -/
structure Opened (mov : MOVContext) : Prop where
  type : ∀ i, (mov.tracks i).enc.codec_type =
    if i = 0 then .video else if i = 1 then .audio else .text
  text : TextTrack mov
  vosLen : ∀ i, (mov.tracks i).vosData.length < 2 ^ 31

/-- What a track that is written must bring. -/
structure TrackOk (mov : MOVContext) (i : StreamIndex) : Prop where
  config : (mov.tracks i).enc.codec_type = .video → ConfigFits mov i
  timescale : (mov.tracks i).timescale ≠ 0
  stsc : i ≠ 2 → StscFits mov i

theorem Opened.eq_zero (h : Opened mov) (ht : (mov.tracks i).enc.codec_type = .video) : i = 0 := by
  rw [h.type i] at ht
  split_ifs at ht with h0
  exact h0

theorem trackFits (h : Inv mov) (ho : Opened mov) (hi : i ∈ writtenTracks mov)
    (hok : TrackOk mov i) : TrackFits mov i where
  config := hok.config
  vosLen := ho.vosLen i
  stts ht := by
    obtain rfl := ho.eq_zero ht
    have hwritten : 0 < mov.size .stsz 0 := of_decide_eq_true (List.mem_filter.1 hi).2
    refine ⟨tableFits h.tables ho.text (.inr (.inr ⟨rfl, rfl⟩)), ?_⟩
    rw [h.stts]
    omega
  stsc hid := by
    rw [ne_eq, ho.text i] at hid
    exact stsc_tableFits h.tables ho.text hid (hok.stsc hid)
  stsz hid := tableFits h.tables ho.text (.inr (.inl ⟨rfl, hid⟩))
  stco := tableFits h.tables ho.text (.inl rfl)
  timescale := hok.timescale

theorem fits_of_sized {sz : UInt32} {tag : List UInt8} {body : Out} (htag : tag.length = 4)
    (h : (Out.box (8 + sz) tag body).Sized) : body.Fits sz := by
  have hlen : (Out.box (8 + sz) tag body).emit.length < 2 ^ 32 := by
    rw [← h.1]
    exact UInt32.toNat_lt _
  have hexact := (sized_iff hlen).1 h
  have hfits : (Out.box (8 + sz) tag body).Fits (8 + sz) := ⟨hexact, hexact.1.symm⟩
  rw [fits_box_iff htag] at hfits
  have hsz : 8 + sz - 8 = sz := by grind
  rwa [hsz] at hfits

theorem ConfigFits.of_sized (hlen : (mov.tracks i).vosData.length < 2 ^ 31)
    (h : (mov_write_video_tag mov i).Sized) : ConfigFits mov i := by
  have hbody := h.2.2
  constructor
  · intro htag
    simp only [if_pos htag] at hbody
    exact (avcc_exact_iff hlen).1 (fits_of_sized rfl hbody)
  · intro htag
    have h1 : (mov.tracks i).tag ≠ TAG_avc1 := by
      rw [htag]
      decide
    have h2 : (mov.tracks i).tag ≠ TAG_mp4v := by
      rw [htag]
      decide
    simp only [if_neg h1, if_neg h2, if_pos htag] at hbody
    exact hvcc_exact_iff.1 (fits_of_sized rfl hbody)

/-- A track whose boxes have their sizes brings what it must. -/
theorem TrackOk.of_sized (ho : Opened mov) (h : (mov_write_trak_tag mov i).Sized) :
    TrackOk mov i := by
  have htrak := h.2
  have hstbl := htrak.2.2.2.2.2.2
  refine ⟨fun ht => ?_, fun hzero => ?_, fun hi => ?_⟩
  · have hstsd := hstbl.1.1.1.1.1.2.2
    simp only [ht] at hstsd
    exact ConfigFits.of_sized (ho.vosLen i) hstsd
  · have htkhd := htrak.1.2
    simp only [av_rescale_rnd, if_pos hzero] at htkhd
    exact htkhd
  · exact StscFits.of_sized (by rwa [ne_eq, ho.text i]) hstbl.1.1.2

theorem TrackOk.of_prepareTracks (h : TrackOk (prepareTracks mov) i) : TrackOk mov i :=
  ⟨h.config, h.timescale, h.stsc⟩

/-- What the state must bring in which `moov` is written. -/
structure EndFits (mov : MOVContext) : Prop where
  mdat : mov.mdat_size + 8 < 2 ^ 32
  moov : (moovBox mov).emit.length < 2 ^ 31
  tracks : ∀ i ∈ writtenTracks mov, TrackOk mov i

theorem tracks_of_sized (ho : Opened mov) (h : (moovBox mov).Sized) :
    ∀ i ∈ writtenTracks mov, TrackOk mov i := by
  intro i hi
  have hopened : Opened (prepareTracks mov) := ⟨ho.type, ho.text, ho.vosLen⟩
  have htraks := h.2.1.2
  exact (TrackOk.of_sized hopened (htraks.of_mem_concat (List.mem_map_of_mem hi))).of_prepareTracks

theorem moov_sized (h : Inv mov) (ho : Opened mov) (hend : EndFits mov) :
    (moovBox mov).Sized ∧ movGetMoovTagSize mov = .ofNat (moovBox mov).emit.length := by
  have hfits := fits_moov (fun i hi => trackFits h ho hi (hend.tracks i hi)) h.gps
  have hmoov := hend.moov
  exact ⟨(sized_iff (by omega)).2 hfits.1, hfits.2.symm⟩

/-! ## The sizes of the top-level boxes -/

theorem sized_ftyp : mov_write_ftyp_tag.Sized := ⟨rfl, trivial⟩

/-- What is left of the reserved space behind `moov` is the `free` box. -/
theorem sized_free {n : Nat} (h : n + 36 ≤ MOV_HEADER_RESERVE_SIZE) :
    (freeBox (.ofNat MOV_HEADER_RESERVE_SIZE - .ofNat n - 28)
      (MOV_HEADER_RESERVE_SIZE - 36 - n)).Sized := by
  obtain ⟨k, hk⟩ := Nat.exists_eq_add_of_le' h
  have hk' : MOV_HEADER_RESERVE_SIZE - 36 - n = k := by omega
  have hlt : k + 8 < 2 ^ 32 := by
    have hreserve : MOV_HEADER_RESERVE_SIZE < 2 ^ 32 := by decide
    omega
  have hsize : UInt32.ofNat MOV_HEADER_RESERVE_SIZE - .ofNat n - 28 = .ofNat (k + 8) := by
    rw [hk, ← Nat.add_assoc, UInt32.ofNat_add, UInt32.ofNat_add, UInt32.ofNat_add]
    grind
  rw [hk', hsize]
  refine ⟨?_, trivial⟩
  rw [UInt32.toNat_ofNat_of_lt' hlt, length_emit_box, emit_bytes, length_zeros, length_fourcc]
  omega

theorem mem_layout (mov : MOVContext) (data : Out) :
    moovBox mov ∈ layout mov data ∧ mdatBox mov data ∈ layout mov data := by
  unfold layout
  split <;> simp

/-- `moov` has its size only if that is no negative `int`. -/
theorem moov_lt_of_sized (h : (concat (layout m data)).Sized) :
    (moovBox m).emit.length < 2 ^ 31 := by
  obtain ⟨hmoov, -⟩ := mem_layout m data
  have hsize : (movGetMoovTagSize m).toNat = (moovBox m).emit.length := (h.of_mem_concat hmoov).1
  by_contra hge
  have hneg := toInt_of_le (v := movGetMoovTagSize m) (by omega)
  have hreserve : (MOV_HEADER_RESERVE_SIZE : Int) = 1048576 := rfl
  have hfits : moovFits m := by
    unfold moovFits
    omega
  rw [layout, if_pos hfits] at h
  have hfree := h.2.2.1.1
  have hgap : MOV_HEADER_RESERVE_SIZE - 36 - (moovBox m).emit.length = 0 := by
    have : MOV_HEADER_RESERVE_SIZE < 2 ^ 31 := by decide
    omega
  rw [hgap] at hfree
  have hsmall : movGetMoovTagSize m = .ofNat (MOV_HEADER_RESERVE_SIZE - 36) := by
    have height : UInt32.ofNat MOV_HEADER_RESERVE_SIZE - movGetMoovTagSize m - 28 = 8 :=
      UInt32.toNat_inj.1 hfree
    have hofNat : UInt32.ofNat (MOV_HEADER_RESERVE_SIZE - 36) =
        UInt32.ofNat MOV_HEADER_RESERVE_SIZE - 36 := by decide
    rw [hofNat]
    grind
  rw [hsmall] at hsize
  have hval : (UInt32.ofNat (MOV_HEADER_RESERVE_SIZE - 36)).toNat < 2 ^ 31 := by decide
  omega

theorem moovFits_iff (hsize : movGetMoovTagSize m = .ofNat (moovBox m).emit.length)
    (hlen : (moovBox m).emit.length < 2 ^ 31) :
    moovFits m ↔ (moovBox m).emit.length + 36 ≤ MOV_HEADER_RESERVE_SIZE := by
  have hint : (movGetMoovTagSize m).toNat = (moovBox m).emit.length := by
    rw [hsize, UInt32.toNat_ofNat_of_lt' (lt_trans hlen (by decide))]
  unfold moovFits
  rw [toInt_of_lt (by rwa [hint]), hint]
  omega

theorem layout_sized_iff (h : Inv m) (ho : Opened m) (hmdat : m.mdat_size = data.emit.length) :
    (concat (layout m data)).Sized ↔ EndFits m ∧ data.Sized := by
  obtain ⟨hmoovMem, hmdatMem⟩ := mem_layout m data
  constructor
  · intro hs
    have hbox := hs.of_mem_concat hmdatMem
    rw [mdatBox, sized_box, length_fourcc, ← hmdat] at hbox
    refine ⟨⟨?_, moov_lt_of_sized hs, tracks_of_sized ho (hs.of_mem_concat hmoovMem)⟩, hbox.2⟩
    have hlt := UInt32.toNat_lt (.ofNat (m.mdat_size + 8))
    rw [hbox.1] at hlt
    omega
  · rintro ⟨hend, hdata⟩
    obtain ⟨hmoov, hsize⟩ := moov_sized h ho hend
    have hbox : (mdatBox m data).Sized := by
      rw [mdatBox, sized_box, UInt32.toNat_ofNat_of_lt' hend.mdat, hmdat, length_fourcc]
      exact ⟨by omega, hdata⟩
    unfold layout
    split
    · rename_i hfits
      have hfree := sized_free ((moovFits_iff hsize hend.moov).1 hfits)
      rw [hsize]
      exact ⟨sized_ftyp, hmoov, hfree, hbox, trivial⟩
    · have hreserve : 36 ≤ MOV_HEADER_RESERVE_SIZE := by decide
      have hfree := sized_free (n := 0) (by omega)
      have hzero : UInt32.ofNat 0 = 0 := rfl
      rw [hzero, UInt32.sub_zero, Nat.sub_zero] at hfree
      exact ⟨sized_ftyp, hfree, hbox, hmoov, trivial⟩

/-! ## The recording -/

def Mp4MuxerWriteHeader (r : Recording) : MOVContext := mov_write_header (Mp4MuxerOpen r)

theorem inv_header (r : Recording) : Inv (Mp4MuxerWriteHeader r) := by
  have hnone : ¬ ((Mp4MuxerWriteHeader r).fd .stsz 0).isSome := fun h => Bool.noConfusion h
  have hempty : 0 = 0 * MOV_CACHE_TINY_PAGE_SIZE + 0 := by rw [Nat.zero_mul]
  refine ⟨⟨fun id i _ => ⟨Nat.zero_le _, hempty, fun _ => rfl, fun _ => rfl⟩, fun _ => rfl,
    fun h => absurd h hnone, ?_⟩, rfl, fun h => absurd rfl h⟩
  rintro ⟨id, i, hpages⟩
  exact absurd rfl hpages

theorem opened_header (r : Recording) : Opened (Mp4MuxerWriteHeader r) := by
  refine ⟨r.codec_type, fun i => ?_, r.vosLen⟩
  show (r.enc i).codec_id = .ggad ↔ i = 2
  match i with
  | 0 => rcases r.video with h | h | h | h <;> simp [h]
  | 1 => rcases r.audio with h | h <;> simp [h]
  | 2 => simp [r.text]

theorem Opened.of_tracks {mov' : MOVContext} (h : Opened mov) (ht : mov'.tracks = mov.tracks) :
    Opened mov' := by
  refine ⟨?_, ?_, ?_⟩
  · rw [ht]
    exact h.type
  · unfold TextTrack
    rw [ht]
    exact h.text
  · rw [ht]
    exact h.vosLen

/-- A GPS packet has one part. -/
def OnePart (mov : MOVContext) (pkt : AVPacket) : Prop :=
  isGps mov pkt → pkt.data0 ≠ [] → pkt.data1 = []

theorem packet_sized_iff {pkt : AVPacket} : (packetOut mov pkt).Sized ↔ OnePart mov pkt := by
  unfold packetOut OnePart
  split
  · rename_i hgps
    split
    · rename_i hnil
      exact iff_of_true trivial fun _ hne => absurd hnil hne
    · rename_i hne
      have hlt : 4 + 4 + 4 + 4 + pkt.size < 2 ^ 32 := by
        have := pkt.size_lt
        unfold AVPacket.size
        omega
      rw [sized_box, UInt32.toNat_ofNat_of_lt' hlt, emit_bytes, List.length_append,
        List.length_append, length_fourcc, length_fourcc, length_le32, AVPacket.size,
        ← List.length_eq_zero_iff]
      constructor
      · rintro ⟨hsize, -⟩ - -
        omega
      · intro hone
        have := hone hgps hne
        exact ⟨by omega, trivial⟩
  · rename_i hgps
    exact iff_of_true trivial fun h => absurd h hgps

theorem sized_concat_iff {os : List Out} : (concat os).Sized ↔ ∀ o ∈ os, o.Sized := by
  constructor
  · exact fun h o ho => h.of_mem_concat ho
  · intro h
    induction os with
    | nil => trivial
    | cons o os ih =>
      obtain ⟨ho, hos⟩ := List.forall_mem_cons.1 h
      exact ⟨ho, ih hos⟩

theorem mediaData_sized_iff {pkts : List AVPacket} :
    (mediaData mov pkts).Sized ↔ ∀ pkt ∈ pkts, OnePart mov pkt := by
  rw [mediaData, sized_concat_iff, List.forall_mem_map]
  exact forall₂_congr fun _ _ => packet_sized_iff

theorem lost_eq_zero {pkts : List AVPacket} (h : ∀ pkt ∈ pkts, OnePart mov pkt) :
    (pkts.map (lost mov)).sum = 0 := by
  induction pkts with
  | nil => rfl
  | cons pkt pkts ih =>
    obtain ⟨hpkt, hpkts⟩ := List.forall_mem_cons.1 h
    have hlost : lost mov pkt = 0 := by
      unfold lost
      split
      · rename_i hl
        rw [hpkt hl.1 hl.2]
        rfl
      · rfl
    rw [List.map_cons, List.sum_cons, hlost, ih hpkts]

theorem lastPacket_spec (h : Inv mov) (ho : Opened mov) (hm : lastPacket mov = some m) :
    Inv m ∧ Opened m ∧ m.pb = mov.pb ∧ m.mdat_size = mov.mdat_size := by
  obtain ⟨l, -, rfl⟩ := Option.map_eq_some_iff.1 hm
  refine ⟨⟨?_, ?_, h.gps⟩, ho.of_tracks rfl, rfl, rfl⟩
  · exact h.tables.same rfl (fun id i hid =>
      ⟨rfl, update₂_of_ne fun hi => hid hi.1, rfl, rfl⟩) rfl rfl
  · have hne : ∀ id, id ≠ .stsc → ¬ (id = ChunkId.stsc ∧ (0 : StreamIndex) = l) :=
      fun id hid hi => hid hi.1
    have hstts := update₂_of_ne (f := mov.size) (x := mov.size .stsc l + 1) (hne .stts (by decide))
    have hstsz := update₂_of_ne (f := mov.size) (x := mov.size .stsc l + 1) (hne .stsz (by decide))
    exact hstts.trans (h.stts.trans hstsz.symm)

variable {pkts : List AVPacket}

/-- What a run leaves. -/
theorem run_end (hr : muxer.run (Mp4MuxerWriteHeader r) pkts = some mov) :
    Inv mov ∧ Opened mov ∧ mov.tracks = (Mp4MuxerWriteHeader r).tracks ∧
      mov.pb = ⟨header ++ (mediaData (Mp4MuxerWriteHeader r) pkts).emit,
        (header ++ (mediaData (Mp4MuxerWriteHeader r) pkts).emit).length⟩ ∧
      ((∀ pkt ∈ pkts, OnePart (Mp4MuxerWriteHeader r) pkt) →
        mov.mdat_size = (mediaData (Mp4MuxerWriteHeader r) pkts).emit.length) := by
  have hvideo : ((Mp4MuxerWriteHeader r).tracks 0).enc.codec_id ≠ .pcm := by
    show (r.enc 0).codec_id ≠ .pcm
    rcases r.video with h | h | h | h <;> simp [h]
  obtain ⟨hinv, hconfig, hpb, hsize⟩ := run_spec (inv_header r) hvideo (header_pb r) hr
  have htracks := tracks_of_config hconfig
  refine ⟨hinv, (opened_header r).of_tracks htracks, htracks, hpb, fun hone => ?_⟩
  rw [hsize, lost_eq_zero hone]
  exact Nat.zero_add _

theorem endFits_of_finished (hr : muxer.run (Mp4MuxerWriteHeader r) pkts = some mov)
    (h : Finished mov (mediaData (Mp4MuxerWriteHeader r) pkts)) :
    (∃ m, lastPacket mov = some m ∧ EndFits m) ∧
      ∀ pkt ∈ pkts, OnePart (Mp4MuxerWriteHeader r) pkt := by
  obtain ⟨hinv, ho, -, -, hmdat⟩ := run_end hr
  obtain ⟨m, m', hm, -, -, hsized⟩ := h
  obtain ⟨hinvm, hom, -, hmsize⟩ := lastPacket_spec hinv ho hm
  have hdata := (hsized.of_mem_concat (mem_layout m _).2).2
  have hone := mediaData_sized_iff.1 hdata
  exact ⟨⟨m, hm, ((layout_sized_iff hinvm hom (hmsize.trans (hmdat hone))).1 hsized).1⟩, hone⟩

theorem finished_of_endFits (hr : muxer.run (Mp4MuxerWriteHeader r) pkts = some mov)
    (hm : lastPacket mov = some m) (hend : EndFits m)
    (hone : ∀ pkt ∈ pkts, OnePart (Mp4MuxerWriteHeader r) pkt) :
    Finished mov (mediaData (Mp4MuxerWriteHeader r) pkts) := by
  obtain ⟨hinv, ho, -, hpb, hmdat⟩ := run_end hr
  obtain ⟨hinvm, hom, hmpb, hmsize⟩ := lastPacket_spec hinv ho hm
  have hsized := (layout_sized_iff hinvm hom (hmsize.trans (hmdat hone))).2
    ⟨hend, mediaData_sized_iff.2 hone⟩
  refine ⟨m, finish m, hm, by rw [mov_write_trailer, hm]; rfl, ?_, hsized⟩
  have hpbm := hmpb.trans hpb
  by_cases hfits : moovFits m
  · obtain ⟨-, hmoov⟩ := moov_sized hinvm hom hend
    exact bytes_reserved hpbm hfits ((moovFits_iff hmoov hend.moov).1 hfits)
  · exact bytes_behind hpbm hfits

/-- The finished file is what its boxes say just if the state in which `moov` is written brings
what the boxes need, and every GPS packet has one part. -/
theorem finished_iff (hr : muxer.run (Mp4MuxerWriteHeader r) pkts = some mov) :
    Finished mov (mediaData (Mp4MuxerWriteHeader r) pkts) ↔
      (∃ m, lastPacket mov = some m ∧ EndFits m) ∧
        ∀ pkt ∈ pkts, OnePart (Mp4MuxerWriteHeader r) pkt := by
  constructor
  · exact endFits_of_finished hr
  · rintro ⟨⟨m, hm, hend⟩, hone⟩
    exact finished_of_endFits hr hm hend hone

/-- A recording in H.264 without GPS data. -/
def h264Recording (vos : List UInt8) (h : vos.length < 2 ^ 31) : Recording where
  enc i := match i with
    | 0 => ⟨.video, .h264, 0, 640, 480, 0, 0, 0, 0, 0⟩
    | 1 => ⟨.audio, .aac, 0, 0, 0, 0, 1, 1024, 16, 8000⟩
    | 2 => ⟨.text, .ggad, 0, 0, 0, 0, 0, 0, 0, 0⟩
  codec_type i := by match i with | 0 | 1 | 2 => rfl
  video := .inl rfl
  audio := .inl rfl
  text := rfl
  vosData i := if i = 0 then vos else []
  vosAddr _ := 0
  vosLen i := by
    split
    · exact h
    · decide
  trackDuration _ := 0
  create_time := 0
  geo_available := false
  latitudex10000 := 0
  longitudex10000 := 0
  gps_pack_method := .inTrack
  parsers := ⟨fun _ s => some s, fun _ s => some s, fun _ s => some s⟩
  cache _ := 0
  cache_keyframe_ptr _ := 0
  gps _ := ⟨0, 0⟩
  stale := 0

def idrPacket : AVPacket := ⟨[0, 0, 0, 1, 0x65, 0x88], [], 0, true, 40, by decide⟩

/-- The parameter sets behind start codes of four bytes. -/
def startCodes4 : List UInt8 := [0, 0, 0, 1, 0x67, 0x42, 0, 0x1e, 0, 0, 0, 1, 0x68, 0xce]

/-- The same behind start codes of three bytes. -/
def startCodes3 : List UInt8 := [0, 0, 1, 0x67, 0x42, 0, 0x1e, 0, 0, 1, 0x68, 0xce]

theorem finished_h264 : ∃ mov,
    muxer.run (Mp4MuxerWriteHeader (h264Recording startCodes4 (by decide))) [idrPacket] =
        some mov ∧
      Finished mov
        (mediaData (Mp4MuxerWriteHeader (h264Recording startCodes4 (by decide))) [idrPacket]) := by
  have hrun : ((muxer.run (Mp4MuxerWriteHeader (h264Recording startCodes4 (by decide)))
      [idrPacket]).bind lastPacket).map (fun m => (m.mdat_size, (moovBox m).emit.length,
        writtenTracks m, m.tiny_pages .stsc 0, m.cache_read_ptr .stsc 0, m.size .stsc 0)) =
      some (6, 616, [0], 0, 147456, 1) := by decide +kernel
  obtain ⟨m, hm, hvals⟩ := Option.map_eq_some_iff.1 hrun
  obtain ⟨mov, hr, hm⟩ := Option.bind_eq_some_iff.1 hm
  simp only [Prod.mk.injEq] at hvals
  obtain ⟨hmdat, hmoov, hwritten, hpages, hread, hsize⟩ := hvals
  obtain ⟨hinv, ho, htracks, -, -⟩ := run_end hr
  have htracksm : m.tracks = mov.tracks := by
    obtain ⟨l, -, rfl⟩ := Option.map_eq_some_iff.1 hm
    rfl
  have hsets : (ff_avc_parse_nal_units_buf 0 startCodes4).map avccSets =
      some (some [0x67, 0x42, 0, 0x1e], some [0x68, 0xce]) := by decide +kernel
  have havcc : AvccFits 0 startCodes4 := by
    obtain ⟨buf, hbuf, hsp⟩ := Option.map_eq_some_iff.1 hsets
    exact fun _ _ => ⟨buf, _, _, hbuf, hsp, by decide, .inl (by decide)⟩
  refine ⟨mov, hr, (finished_iff hr).2 ⟨⟨m, hm, ⟨by omega, by omega, fun i hi => ?_⟩⟩, ?_⟩⟩
  · rw [hwritten, List.mem_singleton] at hi
    subst hi
    refine ⟨fun _ => ⟨fun _ => ?_, fun htag => ?_⟩, ?_, fun _ => ?_⟩
    · rw [htracksm, htracks]
      exact havcc
    · rw [htracksm, htracks] at htag
      exact absurd htag (by decide)
    · rw [htracksm, htracks]
      decide
    · rw [StscFits, if_pos hpages, hread, hsize]
      decide
  · intro pkt hpkt hgps
    rw [List.mem_singleton] at hpkt
    subst hpkt
    exact absurd hgps (by decide)

/-- The size of `avcC` is computed for start codes of four bytes only. -/
theorem not_finished_startCodes3 : ¬ ∀ (r : Recording) (pkts : List AVPacket) (mov : MOVContext),
    muxer.run (Mp4MuxerWriteHeader r) pkts = some mov →
      Finished mov (mediaData (Mp4MuxerWriteHeader r) pkts) := by
  intro h
  have hrun : ((muxer.run (Mp4MuxerWriteHeader (h264Recording startCodes3 (by decide)))
      [idrPacket]).bind lastPacket).map writtenTracks = some [0] := by decide +kernel
  obtain ⟨m, hm, hwritten⟩ := Option.map_eq_some_iff.1 hrun
  obtain ⟨mov, hr, hm⟩ := Option.bind_eq_some_iff.1 hm
  obtain ⟨-, -, htracks, -, -⟩ := run_end hr
  obtain ⟨⟨m', hm', hend⟩, -⟩ := endFits_of_finished hr (h _ _ mov hr)
  obtain rfl : m = m' := Option.some.inj (hm.symm.trans hm')
  have htracksm : m.tracks = mov.tracks := by
    obtain ⟨l, -, rfl⟩ := Option.map_eq_some_iff.1 hm
    rfl
  have hconfig := (hend.tracks 0 (by rw [hwritten]; exact List.mem_singleton_self 0)).config
  unfold ConfigFits at hconfig
  rw [htracksm, htracks] at hconfig
  have havcc : AvccFits 0 startCodes3 := (hconfig rfl).1 rfl
  obtain ⟨buf, sps, pps, hbuf, hsp, -, hlen⟩ := havcc (by decide) (by decide)
  have hsets : (ff_avc_parse_nal_units_buf 0 startCodes3).map avccSets =
      some (some [0x67, 0x42, 0, 0x1e], some [0x68, 0xce]) := by decide +kernel
  rw [hbuf, Option.map_some, hsp] at hsets
  simp only [Option.some.injEq, Prod.mk.injEq] at hsets
  obtain ⟨rfl, rfl⟩ := hsets
  revert hlen
  decide

end Melis.Mp4
