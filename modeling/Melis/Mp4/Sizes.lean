import Melis.Mp4.Moov

/-!
# The sizes of the boxes

Every size that is computed before a box is written is the number of bytes of the
box, if what the box is made from can be written at all (`TrackFits`).
-/

namespace Melis.Mp4

open Lib Out

variable {mov : MOVContext} {i : StreamIndex}

/-- A table is read back with as many entries as it has. -/
def TableFits (mov : MOVContext) (i : StreamIndex) (id : ChunkId) : Prop :=
  ∃ ws, tableWords mov i id = some ws ∧ ws.length = mov.size id i

/-! ## The tables -/

theorem size_words {β : Type} (f : β → List UInt8) (n : UInt32)
    (hf : ∀ w, .ofNat (f w).length = n) (ws : List β) :
    UInt32.ofNat (ws.flatMap f).length = n * .ofNat ws.length := by
  induction ws with
  | nil => simp
  | cons w ws ih =>
    rw [List.flatMap_cons, List.length_append, List.length_cons, UInt32.ofNat_add, hf, ih,
      UInt32.ofNat_add]
    grind

theorem fits_stco (h : TableFits mov i .stco) :
    (mov_write_stco_tag mov i).Fits (movGetStcoTagSize mov i) := by
  obtain ⟨ws, hws, hlen⟩ := h
  rw [mov_write_stco_tag, hws]
  refine ((fits_bytes rfl).append (fits_bytes (size_words be32 4 (fun _ => rfl) ws))).box rfl ?_
  rw [movGetStcoTagSize, hlen]
  simp
  grind

theorem fits_stsz (h : (mov.tracks i).enc.codec_id ≠ .pcm → TableFits mov i .stsz) :
    (mov_write_stsz_tag mov i).Fits (movGetStszTagSize mov i) := by
  unfold mov_write_stsz_tag movGetStszTagSize
  dsimp only
  by_cases hpcm : (mov.tracks i).enc.codec_id = .pcm
  · simp only [if_pos hpcm]
    exact ((fits_length 12 rfl).append fits_empty).box rfl (by decide)
  · simp only [if_neg hpcm]
    obtain ⟨ws, hws, hlen⟩ := h hpcm
    rw [hws]
    refine ((fits_bytes rfl).append (fits_bytes (size_words be32 4 (fun _ => rfl) ws))).box rfl ?_
    rw [hlen]
    simp
    grind

theorem fits_stsc (h : (mov.tracks i).enc.codec_id ≠ .ggad → TableFits mov i .stsc) :
    (mov_write_stsc_tag mov i).Fits (movGetStscTagSize mov i) := by
  unfold mov_write_stsc_tag movGetStscTagSize
  by_cases hggad : (mov.tracks i).enc.codec_id = .ggad
  · rw [if_pos hggad, if_neg (not_not.2 hggad)]
    exact (fits_length 20 rfl).box rfl (by decide)
  · rw [if_neg hggad, if_pos hggad]
    obtain ⟨ws, hws, hlen⟩ := h hggad
    rw [hws]
    refine ((fits_bytes rfl).append (fits_bytes (size_words _ 12 (fun _ => rfl) _))).box rfl ?_
    rw [List.length_zipIdx, hlen]
    simp
    grind

theorem fits_stss : (mov_write_stss_tag mov i).Fits (movGetStssTagSize mov i) := by
  have hwords := size_words (fun k => be32 (mov.cache_keyframe_ptr k)) 4 (fun _ => rfl)
    (List.range (mov.keyFrame_num i))
  refine (fits_bytes rfl).box rfl ?_
  rw [movGetStssTagSize, List.length_append, UInt32.ofNat_add, hwords, List.length_range]
  simp
  grind

/-- There is a first duration to leave out for the last one that is written. -/
theorem fits_stts
    (h : (mov.tracks i).enc.codec_type = .video →
      TableFits mov i .stts ∧ mov.size .stts i ≠ 0) :
    (mov_write_stts_tag mov i).Fits (movGetSttsTagSize mov i) := by
  unfold mov_write_stts_tag movGetSttsTagSize
  dsimp only
  cases htype : (mov.tracks i).enc.codec_type with
  | audio => exact (fits_length 16 rfl).box rfl rfl
  | text => exact (fits_length 16 rfl).box rfl rfl
  | video =>
    obtain ⟨⟨ws, hws, hlen⟩, hne⟩ := h htype
    dsimp only
    rw [hws]
    refine ((fits_bytes rfl).append (fits_bytes rfl)).box rfl ?_
    have hdrop := size_words (fun w => be32 1 ++ be32 w) 8 (fun _ => rfl) (ws.drop 1)
    simp only [sttsEntries, List.length_append, UInt32.ofNat_add, hdrop]
    rw [← hlen]
    obtain ⟨w, ws, rfl⟩ := List.exists_cons_of_length_pos (by omega : 0 < ws.length)
    simp
    grind

/-! ## The codec configuration -/

theorem descrBytes_pos (len : UInt32) : 0 < descrBytes len := by
  unfold descrBytes
  simp only [descrLoop]
  split_ifs <;> omega

theorem size_putDescr (tag : UInt8) (size : UInt32) :
    UInt32.ofNat (putDescr tag size).length = 1 + .ofNat (descrBytes size) := by
  have hpos := descrBytes_pos size
  have hlen : (putDescr tag size).length = 1 + descrBytes size := by
    simp [putDescr]
    omega
  rw [hlen, UInt32.ofNat_add]
  rfl

theorem fits_esds : (mov_write_esds_tag mov i).Fits (movGetEsdsTagSize mov i) := by
  refine (fits_bytes rfl).box rfl ?_
  simp only [List.length_append, UInt32.ofNat_add, size_putDescr, movGetEsdsTagSize, descrLength]
  by_cases hvos : (mov.tracks i).vosData.length = 0
  · rw [decoderSpecificInfoLen, if_pos hvos, if_pos hvos]
    simp
    grind
  · rw [decoderSpecificInfoLen, if_neg hvos, if_neg hvos, descrLength, List.length_append,
      UInt32.ofNat_add, size_putDescr]
    simp
    grind

theorem fits_avcc (h : AvccFits (mov.tracks i).vosAddr (mov.tracks i).vosData)
    (hlen : (mov.tracks i).vosData.length < 2 ^ 31) :
    (mov_write_avcc_tag mov i).Fits (movGetAvccTagSize mov i) :=
  Fits.box ((avcc_exact_iff hlen).2 h) rfl rfl

theorem fits_hvcc (h : HvccFits mov.parsers (mov.tracks i).vosAddr (mov.tracks i).vosData 0) :
    (mov_write_hvcc_tag mov i).Fits (movGetHvccTagSize mov i) :=
  Fits.box (hvcc_exact_iff.2 h) rfl rfl

/-! ## The sample entries -/

theorem fits_audio : (mov_write_audio_tag mov i).Fits (movGetAudioTagSize mov i) := by
  unfold mov_write_audio_tag movGetAudioTagSize
  dsimp only
  have hesds : (if (mov.tracks i).tag = TAG_mp4a then mov_write_esds_tag mov i else ∅).Fits
      (if (mov.tracks i).tag = TAG_mp4a then movGetEsdsTagSize mov i else 0) := by
    split
    · exact fits_esds
    · exact fits_empty
  by_cases hid : (mov.tracks i).enc.codec_id = .adpcm
  · simp only [if_pos hid]
    refine (((fits_bytes rfl).append (fits_bytes rfl)).append hesds).box rfl ?_
    simp
    grind
  · simp only [if_neg hid]
    refine (((fits_bytes rfl).append fits_empty).append hesds).box rfl ?_
    simp
    grind

theorem fits_text : (mov_write_text_tag mov i).Fits movGetTextTagSize :=
  (fits_length 67 (by simp [vendorInfo])).box rfl (by decide)

/-- The codec configuration of the video has the size that is computed for it. -/
def ConfigFits (mov : MOVContext) (i : StreamIndex) : Prop :=
  ((mov.tracks i).tag = TAG_avc1 → AvccFits (mov.tracks i).vosAddr (mov.tracks i).vosData) ∧
    ((mov.tracks i).tag = TAG_hvc1 →
      HvccFits mov.parsers (mov.tracks i).vosAddr (mov.tracks i).vosData 0)

theorem fits_video (h : ConfigFits mov i) (hlen : (mov.tracks i).vosData.length < 2 ^ 31) :
    (mov_write_video_tag mov i).Fits (movGetVideoTagSize mov i) := by
  unfold mov_write_video_tag movGetVideoTagSize
  dsimp only
  refine Fits.box ((fits_bytes rfl).append (t := if (mov.tracks i).tag = TAG_avc1 then
      movGetAvccTagSize mov i else if (mov.tracks i).tag = TAG_mp4v then movGetEsdsTagSize mov i
      else if (mov.tracks i).tag = TAG_hvc1 then movGetHvccTagSize mov i else 0) ?_) rfl ?_
  · split_ifs with h1 h2 h3
    · exact fits_avcc (h.1 h1) hlen
    · exact fits_esds
    · exact fits_hvcc (h.2 h3)
    · exact fits_empty
  · simp
    grind

theorem fits_stsd (h : (mov.tracks i).enc.codec_type = .video → ConfigFits mov i)
    (hlen : (mov.tracks i).vosData.length < 2 ^ 31) :
    (mov_write_stsd_tag mov i).Fits (movGetStsdTagSize mov i) := by
  unfold mov_write_stsd_tag movGetStsdTagSize
  cases htype : (mov.tracks i).enc.codec_type with
  | video => exact ((fits_bytes rfl).append (fits_video (h htype) hlen)).box rfl (by simp; grind)
  | audio => exact ((fits_bytes rfl).append fits_audio).box rfl (by simp; grind)
  | text => exact ((fits_bytes rfl).append fits_text).box rfl (by simp; grind)

/-! ## The track -/

/-- What a track must bring for its boxes to have their sizes. -/
structure TrackFits (mov : MOVContext) (i : StreamIndex) : Prop where
  config : (mov.tracks i).enc.codec_type = .video → ConfigFits mov i
  vosLen : (mov.tracks i).vosData.length < 2 ^ 31
  stts : (mov.tracks i).enc.codec_type = .video →
    TableFits mov i .stts ∧ mov.size .stts i ≠ 0
  stsc : (mov.tracks i).enc.codec_id ≠ .ggad → TableFits mov i .stsc
  stsz : (mov.tracks i).enc.codec_id ≠ .pcm → TableFits mov i .stsz
  stco : TableFits mov i .stco
  timescale : (mov.tracks i).timescale ≠ 0

theorem fits_stbl (h : TrackFits mov i) :
    (mov_write_stbl_tag mov i).Fits (movGetStblTagSize mov i) := by
  have hstss : (if (mov.tracks i).enc.codec_type = .video then mov_write_stss_tag mov i
      else ∅).Fits
      (if (mov.tracks i).enc.codec_type = .video then movGetStssTagSize mov i else 0) := by
    split
    · exact fits_stss
    · exact fits_empty
  refine ((((((fits_stsd h.config h.vosLen).append (fits_stts h.stts)).append hstss).append
    (fits_stsc h.stsc)).append (fits_stsz h.stsz)).append (fits_stco h.stco)).box rfl ?_
  unfold movGetStblTagSize
  grind

theorem fits_dref : mov_write_dref_tag.Fits movGetDrefTagSize :=
  ((fits_length 8 rfl).append ((fits_length 4 rfl).box rfl (by decide))).box rfl (by decide)

theorem fits_dinf : mov_write_dinf_tag.Fits movGetDinfTagSize := fits_dref.box rfl rfl

theorem fits_smhd : mov_write_smhd_tag.Fits movGetSmhdTagSize :=
  (fits_length 8 rfl).box rfl (by decide)

theorem fits_vmhd : mov_write_vmhd_tag.Fits movGetVmhdTagSize :=
  (fits_length 12 rfl).box rfl (by decide)

theorem fits_gmin : mov_write_gmin_tag.Fits movGetGminTagSize :=
  (fits_length 16 rfl).box rfl (by decide)

theorem fits_gmhd_text : mov_write_gmhd_text_tag.Fits movGetGmhdTextTagSize :=
  (fits_length 36 rfl).box rfl (by decide)

theorem fits_gmhd : mov_write_gmhd_tag.Fits movGetGmhdTagSize :=
  (fits_gmin.append fits_gmhd_text).box rfl (by decide)

theorem fits_minf (h : TrackFits mov i) :
    (mov_write_minf_tag mov i).Fits (movGetMinfTagSize mov i) := by
  unfold mov_write_minf_tag movGetMinfTagSize
  cases (mov.tracks i).enc.codec_type with
  | video => exact ((fits_vmhd.append fits_dinf).append (fits_stbl h)).box rfl (by grind)
  | audio => exact ((fits_smhd.append fits_dinf).append (fits_stbl h)).box rfl (by grind)
  | text => exact ((fits_gmhd.append fits_dinf).append (fits_stbl h)).box rfl (by grind)

theorem fits_mdhd : (mov_write_mdhd_tag mov i).Fits movGetMdhdTagSize :=
  (fits_length 24 rfl).box rfl (by decide)

theorem fits_hdlr : (mov_write_hdlr_tag mov i).Fits (movGetHdlrTagSize mov i) := by
  unfold mov_write_hdlr_tag movGetHdlrTagSize
  cases (mov.tracks i).enc.codec_type with
  | video => exact (fits_length 37 rfl).box rfl (by decide)
  | audio => exact (fits_length 37 rfl).box rfl (by decide)
  | text => exact (fits_length 36 rfl).box rfl (by decide)

theorem fits_mdia (h : TrackFits mov i) :
    (mov_write_mdia_tag mov i).Fits (movGetMdiaTagSize mov i) :=
  ((fits_mdhd.append fits_hdlr).append (fits_minf h)).box rfl (by unfold movGetMdiaTagSize; grind)

theorem fits_tkhd (h : (mov.tracks i).timescale ≠ 0) :
    (mov_write_tkhd_tag mov i).Fits movGetTkhdTagSize := by
  unfold mov_write_tkhd_tag av_rescale_rnd
  dsimp only
  rw [if_neg h]
  refine (fits_length 84 ?_).box rfl (by decide)
  split_ifs <;> simp

theorem fits_trak (h : TrackFits mov i) :
    (mov_write_trak_tag mov i).Fits (movGetTrakTagSize mov i) :=
  ((fits_tkhd h.timescale).append (fits_mdia h)).box rfl (by unfold movGetTrakTagSize; grind)

/-! ## `moov` -/

theorem fits_mvhd : (mov_write_mvhd_tag mov).Fits movGetMvhdTagSize :=
  (fits_length 100 (by simp)).box rfl (by decide)

theorem length_decimal_le (prec n : Nat) : prec ≤ (decimal prec n).length := by
  unfold decimal
  rw [List.length_map, List.length_leftpad]
  exact le_max_left _ _

theorem length_writeDegrees (digits : Nat) (d : Int) :
    (writeDegrees digits d).length = digits + 6 := by
  have h1 := length_decimal_le digits (d.tdiv 10000).natAbs
  have h2 := length_decimal_le 4 (d - d.tdiv 10000 * 10000).natAbs
  simp only [writeDegrees, List.length_append, List.length_take, List.length_singleton]
  omega

theorem fits_udta : (mov_write_udta_tag mov).Fits movGetUdtaTagSize := by
  refine Fits.box (Fits.box (fits_length 22 ?_) rfl (by decide)) rfl (by decide)
  simp only [List.length_append, length_writeDegrees]
  rfl

theorem fits_gps (h : mov.gps_entry_buff_wt ≠ 0 → mov.gps_entry_buff.isSome) :
    (mov_write_gps_tag mov).Fits (movGetGpsTagSize mov) := by
  unfold mov_write_gps_tag movGetGpsTagSize
  cases hb : mov.gps_entry_buff with
  | none =>
    have hwt : mov.gps_entry_buff_wt = 0 := by
      by_contra hne
      rw [hb] at h
      exact absurd (h hne) (by simp)
    rw [hwt]
    exact ((fits_length 8 rfl).append fits_empty).box rfl (by decide)
  | some es =>
    refine ((fits_bytes rfl).append (fits_bytes (size_words _ 8 (fun _ => rfl) _))).box rfl ?_
    rw [List.length_range]
    simp
    grind

theorem readRing_prepareTracks (id : ChunkId) (n p : Nat) :
    readRing (prepareTracks mov) i id n p = readRing mov i id n p := by
  induction n generalizing p with
  | zero => rfl
  | succ n ih =>
    rw [readRing, readRing, ih]
    rfl

theorem TableFits.prepareTracks {id : ChunkId} (h : TableFits mov i id) :
    TableFits (prepareTracks mov) i id := by
  obtain ⟨ws, hws, hlen⟩ := h
  refine ⟨ws, ?_, hlen⟩
  rw [← hws]
  unfold tableWords
  simp only [readRing_prepareTracks]
  rfl

/-- What is set in the tracks does not matter for the sizes. -/
theorem TrackFits.prepareTracks (h : TrackFits mov i) : TrackFits (prepareTracks mov) i where
  config := h.config
  vosLen := h.vosLen
  stts ht := ⟨(h.stts ht).1.prepareTracks, (h.stts ht).2⟩
  stsc hid := (h.stsc hid).prepareTracks
  stsz hid := (h.stsz hid).prepareTracks
  stco := h.stco.prepareTracks
  timescale := h.timescale

theorem fits_moov (h : ∀ i ∈ writtenTracks mov, TrackFits mov i)
    (hgps : mov.gps_entry_buff_wt ≠ 0 → mov.gps_entry_buff.isSome) :
    (moovBox mov).Fits (movGetMoovTagSize mov) := by
  have hudta : (if mov.geo_available ∧ mov.gps_pack_method = .inTrack then
      mov_write_udta_tag (prepareTracks mov) else ∅).Fits
      (if mov.geo_available ∧ mov.gps_pack_method = .inTrack then movGetUdtaTagSize else 0) := by
    split
    · exact fits_udta
    · exact fits_empty
  have htracks : (concat ((writtenTracks mov).map (mov_write_trak_tag (prepareTracks mov)))).Fits
      ((writtenTracks mov).map (movGetTrakTagSize mov)).sum :=
    fits_concat fun i hi => fits_trak (h i hi).prepareTracks
  have hgpsBox : (if mov.geo_available ∧ mov.gps_pack_method = .inMdat then
      mov_write_gps_tag (prepareTracks mov) else ∅).Fits
      (if mov.geo_available ∧ mov.gps_pack_method = .inMdat then movGetGpsTagSize mov else 0) := by
    split
    · exact fits_gps hgps
    · exact fits_empty
  refine (((hudta.append fits_mvhd).append htracks).append hgpsBox).box rfl ?_
  unfold movGetMoovTagSize
  grind

end Melis.Mp4
