import Melis.Mp4.Nal

/-!
# `avcC` and `hvcC`

The bodies of the boxes that hold the codec configuration of an H.264 or H.265
track, from `avc.c` and `hevc.c`: what is written, and the size that is computed
for it. For H.265 both come from one record. For H.264 the size is computed by
code of its own, which knows only one of the two start codes and counts the
parameter sets also when the writer refuses them (`avcc_exact_iff`).
-/

namespace Melis.Mp4

open Lib

/-! ## H.264 -/

/-- The loops over the units remember the last SPS and the last PPS. -/
def spsPps {β : Type} (init : β × β) (us : List (UInt8 × β)) : β × β :=
  us.foldl (fun s u =>
    let nal_type := u.1 &&& 0x1f
    if nal_type = 7 then (u.2, s.2) else if nal_type = 8 then (s.1, u.2) else s) init

/-- `sps` and `pps` of `ff_isom_write_avcc`. -/
def avccSets (buf : List UInt8) : Option (List UInt8) × Option (List UInt8) :=
  spsPps (none, none) ((nalUnits buf.length buf).map fun u => (u.1, some u.2))

/-- A start code of three or of four bytes. -/
def AnnexB (data : List UInt8) : Prop := rb32 data = 1 ∨ rb24 data = 1

instance (data : List UInt8) : Decidable (AnnexB data) :=
  inferInstanceAs (Decidable (rb32 data = 1 ∨ rb24 data = 1))

/-- The parameter sets that the writer takes. -/
def SetsValid (sps pps : List UInt8) : Prop :=
  4 ≤ sps.length ∧ sps.length ≤ 65535 ∧ pps.length ≤ 65535

instance (sps pps : List UInt8) : Decidable (SetsValid sps pps) :=
  inferInstanceAs (Decidable (_ ∧ _ ∧ _))

def avccRecord (sps pps : List UInt8) : List UInt8 :=
  [1, sps.getD 1 0, sps.getD 2 0, sps.getD 3 0, 0xff, 0xe1] ++ be16 (.ofNat sps.length) ++ sps ++
    [1] ++ be16 (.ofNat pps.length) ++ pps

def ff_isom_write_avcc (addr : Nat) (data : List UInt8) : Out :=
  if 6 < data.length then
    if AnnexB data then
      match ff_avc_parse_nal_units_buf addr data with
      | none => .undef
      | some buf =>
        match avccSets buf with
        | (some sps, some pps) => if SetsValid sps pps then .bytes (avccRecord sps pps) else ∅
        | _ => ∅
    else .bytes data
  else ∅

/-- Where the parser writes behind its buffer this has no meaning, as there is none to
what is written then. -/
def FFIsomGetAvccSize (addr : Nat) (data : List UInt8) : UInt32 :=
  if 6 < data.length then
    if rb32 data = 1 then
      match (ff_avc_parse_nal_units_buf addr data).bind fun buf => nalSizes buf.length buf with
      | none => 0
      | some us => let s := spsPps (0, 0) us; 6 + 2 + s.1 + 1 + 2 + s.2
    else .ofNat data.length
  else 0

/-- The extradata for which the computed size is that of what is written: if there are
start codes, the writer takes the parameter sets, and the first start code has four
bytes or the extradata happens to be as long as what is made of it. -/
def AvccFits (addr : Nat) (data : List UInt8) : Prop :=
  6 < data.length → AnnexB data →
    ∃ buf sps pps, ff_avc_parse_nal_units_buf addr data = some buf ∧
      avccSets buf = (some sps, some pps) ∧ SetsValid sps pps ∧
      (rb32 data = 1 ∨ data.length = 11 + sps.length + pps.length)

section

variable {addr : Nat} {data : List UInt8} {sps pps : List UInt8}

theorem spsPps_map {β γ : Type} (f : β → γ) (init : β × β) (us : List (UInt8 × β)) :
    spsPps (f init.1, f init.2) (us.map fun u => (u.1, f u.2)) =
      (f (spsPps init us).1, f (spsPps init us).2) := by
  induction us generalizing init with
  | nil => rfl
  | cons u us ih =>
    simp only [spsPps, List.map_cons, List.foldl_cons]
    split
    · exact ih (u.2, init.2)
    · split
      · exact ih (init.1, u.2)
      · exact ih init

theorem length_avccRecord : (avccRecord sps pps).length = 11 + sps.length + pps.length := by
  simp [avccRecord]
  omega

/-- The size of a parameter set that may be missing. -/
def setSize (o : Option (List UInt8)) : UInt32 := .ofNat (o.getD []).length

/-- What the loop of `FFIsomGetAvccSize` finds. -/
theorem avccSizes_eq (hdata : data.length < 2 ^ 31) {buf : List UInt8}
    (hbuf : ff_avc_parse_nal_units_buf addr data = some buf) :
    ∃ us, nalSizes buf.length buf = some us ∧
      spsPps (0, 0) us = (setSize (avccSets buf).1, setSize (avccSets buf).2) := by
  obtain ⟨rfl, -⟩ := parse_nal_units_buf_eq_some hbuf
  refine ⟨_, nalSizes_nals hdata, ?_⟩
  rw [avccSets, ← spsPps_map setSize, List.map_map]
  rfl

/-- Where there are four bytes of start code, the size is computed from the units. -/
theorem avccSize_eq (hdata : data.length < 2 ^ 31) (h6 : 6 < data.length) (h1 : rb32 data = 1)
    {buf : List UInt8} (hbuf : ff_avc_parse_nal_units_buf addr data = some buf) :
    FFIsomGetAvccSize addr data = 11 + setSize (avccSets buf).1 + setSize (avccSets buf).2 := by
  obtain ⟨us, hus, hs⟩ := avccSizes_eq hdata hbuf
  rw [FFIsomGetAvccSize, if_pos h6, if_pos h1, hbuf, Option.bind_some, hus]
  dsimp only
  rw [hs]
  grind

/-- The units do not overlap, so the two parameter sets fit in the buffer together. -/
theorem sum_nalUnits_le (n : Nat) (buf : List UInt8) :
    ((nalUnits n buf).map fun u => u.2.length).sum ≤ buf.length := by
  induction n generalizing buf with
  | zero => exact Nat.zero_le _
  | succ n ih =>
    rw [nalUnits]
    dsimp only
    split
    · have := ih (buf.drop (4 + min (rb32 buf) (buf.length - 4)))
      rw [List.length_drop] at this
      rw [List.map_cons, List.sum_cons, List.length_take, List.length_drop]
      omega
    · exact Nat.zero_le _

theorem spsPps_length_le (init : Option (List UInt8) × Option (List UInt8))
    (us : List (UInt8 × List UInt8)) :
    ((spsPps init (us.map fun u => (u.1, some u.2))).1.getD []).length +
        ((spsPps init (us.map fun u => (u.1, some u.2))).2.getD []).length ≤
      (init.1.getD []).length + (init.2.getD []).length + (us.map fun u => u.2.length).sum := by
  induction us generalizing init with
  | nil => exact Nat.le_add_right _ _
  | cons u us ih =>
    simp only [spsPps, List.map_cons, List.foldl_cons, List.sum_cons]
    split
    · have := ih (some u.2, init.2)
      simp only [Option.getD_some, spsPps] at this ⊢
      omega
    · split
      · have := ih (init.1, some u.2)
        simp only [Option.getD_some, spsPps] at this ⊢
        omega
      · have := ih init
        simp only [spsPps] at this ⊢
        omega

theorem avccSets_length_lt (hdata : data.length < 2 ^ 31) {buf : List UInt8}
    (hbuf : ff_avc_parse_nal_units_buf addr data = some buf) :
    11 + ((avccSets buf).1.getD []).length + ((avccSets buf).2.getD []).length < 2 ^ 32 := by
  have hle := spsPps_length_le (none, none) (nalUnits buf.length buf)
  have hsum := sum_nalUnits_le buf.length buf
  have hlen := (parse_nal_units_buf_eq_some hbuf).2
  rw [Option.getD_none, List.length_nil] at hle
  unfold avccSets
  omega

theorem ofNat_eq_ofNat {m n : Nat} (hm : m < 2 ^ 32) (hn : n < 2 ^ 32) :
    UInt32.ofNat m = .ofNat n ↔ m = n := by
  rw [← UInt32.toNat_inj, UInt32.toNat_ofNat_of_lt' hm, UInt32.toNat_ofNat_of_lt' hn]

theorem setSize_add (a b : Option (List UInt8)) :
    11 + setSize a + setSize b = .ofNat (11 + (a.getD []).length + (b.getD []).length) := by
  simp [setSize]

/-- The computed size of the body of `avcC` is that of what is written just if the
extradata fits. -/
theorem avcc_exact_iff (hdata : data.length < 2 ^ 31) :
    ((ff_isom_write_avcc addr data).Exact ∧
      (ff_isom_write_avcc addr data).size = FFIsomGetAvccSize addr data) ↔
      AvccFits addr data := by
  unfold AvccFits
  by_cases h6 : 6 < data.length
  swap
  · rw [ff_isom_write_avcc, if_neg h6, FFIsomGetAvccSize, if_neg h6]
    exact iff_of_true ⟨trivial, rfl⟩ fun h => absurd h h6
  by_cases hB : AnnexB data
  swap
  · have h1 : rb32 data ≠ 1 := fun h => hB (.inl h)
    rw [ff_isom_write_avcc, if_pos h6, if_neg hB, FFIsomGetAvccSize, if_pos h6, if_neg h1]
    exact iff_of_true ⟨trivial, rfl⟩ fun _ h => absurd h hB
  rw [ff_isom_write_avcc, if_pos h6, if_pos hB]
  simp only [h6, hB, forall_const]
  rcases hbuf : ff_avc_parse_nal_units_buf addr data with _ | buf
  · exact iff_of_false (fun h => h.1) fun ⟨_, _, _, h, _⟩ => nomatch h
  have hlt := avccSets_length_lt hdata hbuf
  -- what the size function returns, for either start code
  have hsize : FFIsomGetAvccSize addr data =
      if rb32 data = 1 then .ofNat (11 + ((avccSets buf).1.getD []).length +
        ((avccSets buf).2.getD []).length) else .ofNat data.length := by
    by_cases h1 : rb32 data = 1
    · rw [if_pos h1, avccSize_eq hdata h6 h1 hbuf, setSize_add]
    · rw [if_neg h1, FFIsomGetAvccSize, if_pos h6, if_neg h1]
  have hpos : FFIsomGetAvccSize addr data ≠ .ofNat 0 := by
    rw [hsize]
    split
    · rw [Ne, ofNat_eq_ofNat hlt (by decide)]
      omega
    · rw [Ne, ofNat_eq_ofNat (by omega) (by decide)]
      omega
  -- the writer refuses the parameter sets
  have hrefused : (∅ : Out).size ≠ FFIsomGetAvccSize addr data := hpos.symm
  dsimp only
  rcases hsets : avccSets buf with ⟨_ | sps, _ | pps⟩
  · exact iff_of_false (fun h => hrefused h.2) (by grind)
  · exact iff_of_false (fun h => hrefused h.2) (by grind)
  · exact iff_of_false (fun h => hrefused h.2) (by grind)
  · dsimp only
    by_cases hvalid : SetsValid sps pps
    swap
    · rw [if_neg hvalid]
      exact iff_of_false (fun h => hrefused h.2) (by grind)
    rw [if_pos hvalid, hsize, hsets]
    simp only [Out.exact_bytes, true_and, Out.size_bytes, length_avccRecord, Option.getD_some]
    rw [hsets] at hlt
    simp only [Option.getD_some] at hlt
    constructor
    · intro h
      refine ⟨buf, sps, pps, rfl, hsets, hvalid, ?_⟩
      split at h
      · left
        assumption
      · right
        exact ((ofNat_eq_ofNat hlt (by omega)).1 h).symm
    · rintro ⟨_, _, _, ⟨⟩, h, -, h1⟩
      cases hsets.symm.trans h
      split
      · rfl
      · rename_i hne
        rw [h1.resolve_left hne]

end

/-! ## H.265 -/

def HEVC_NAL_VPS : UInt8 := 32
def HEVC_NAL_SPS : UInt8 := 33
def HEVC_NAL_PPS : UInt8 := 34
def HEVC_NAL_SEI_PREFIX : UInt8 := 39
def HEVC_NAL_SEI_SUFFIX : UInt8 := 40

/-- `array_completeness`, `NAL_unit_type` and the units, each cut to the 16 bits of its
`nalUnitLength`. -/
structure HVCCNALUnitArray where
  array_completeness : UInt8
  NAL_unit_type : UInt8
  nalUnit : List (List UInt8)

def HVCCNALUnitArray.numNalus (a : HVCCNALUnitArray) : Nat := a.nalUnit.length

structure HEVCDecoderConfigurationRecord where
  configurationVersion : UInt8
  general_profile_space : UInt8
  general_tier_flag : UInt8
  general_profile_idc : UInt8
  general_profile_compatibility_flags : UInt32
  general_constraint_indicator_flags : UInt64
  general_level_idc : UInt8
  min_spatial_segmentation_idc : UInt16
  parallelismType : UInt8
  chromaFormat : UInt8
  bitDepthLumaMinus8 : UInt8
  bitDepthChromaMinus8 : UInt8
  avgFrameRate : UInt16
  constantFrameRate : UInt8
  numTemporalLayers : UInt8
  temporalIdNested : UInt8
  lengthSizeMinusOne : UInt8
  array : List HVCCNALUnitArray

def MAX_SPATIAL_SEGMENTATION : UInt16 := 4096

def hvcc_init : HEVCDecoderConfigurationRecord :=
  ⟨1, 0, 0, 0, 0xffffffff, 0xffffffffffff, 0, MAX_SPATIAL_SEGMENTATION + 1, 0, 0, 0, 0, 0, 0, 0, 0,
    3, []⟩

/-- `hvcc_parse_vps`, `hvcc_parse_sps` and `hvcc_parse_pps`, which read the bits of a
parameter set into the record; `none` is an error. -/
structure HvccParsers where
  vps : List UInt8 → HEVCDecoderConfigurationRecord → Option HEVCDecoderConfigurationRecord
  sps : List UInt8 → HEVCDecoderConfigurationRecord → Option HEVCDecoderConfigurationRecord
  pps : List UInt8 → HEVCDecoderConfigurationRecord → Option HEVCDecoderConfigurationRecord

/-- The bytes behind the header of a NAL unit without the emulation prevention bytes. -/
def unescape : List UInt8 → List UInt8
  | a :: b :: c :: l =>
    if a = 0 ∧ b = 0 ∧ c = 3 then a :: b :: unescape l else a :: unescape (b :: c :: l)
  | l => l

def nal_unit_extract_rbsp (src : List UInt8) : List UInt8 := src.take 2 ++ unescape (src.drop 2)

/-- The type in the first byte of a NAL unit. -/
def nalType (b : UInt8) : UInt8 := (b >>> 1) &&& 0x3f

/-- The NAL units that go into the record. -/
def Declarative (type : UInt8) : Prop :=
  type = HEVC_NAL_VPS ∨ type = HEVC_NAL_SPS ∨ type = HEVC_NAL_PPS ∨ type = HEVC_NAL_SEI_PREFIX ∨
    type = HEVC_NAL_SEI_SUFFIX

instance (type : UInt8) : Decidable (Declarative type) :=
  inferInstanceAs (Decidable (_ ∨ _ ∨ _ ∨ _ ∨ _))

/-- `hvcc_array_add_nal_unit` on the arrays. `numNalus` has 16 bits: after 65535 units the
array is empty again. -/
def addNalUnit (unit : List UInt8) (type completeness : UInt8) :
    List HVCCNALUnitArray → List HVCCNALUnitArray
  | [] => [⟨completeness, type, [unit]⟩]
  | a :: as =>
    if a.NAL_unit_type = type then
      { a with
        array_completeness := completeness
        nalUnit := if a.numNalus = 65535 then [] else a.nalUnit ++ [unit] } :: as
    else a :: addNalUnit unit type completeness as

def hvcc_array_add_nal_unit (nal : List UInt8) (type ps_array_completeness : UInt8)
    (hvcc : HEVCDecoderConfigurationRecord) : HEVCDecoderConfigurationRecord :=
  let completeness :=
    if type = HEVC_NAL_VPS ∨ type = HEVC_NAL_SPS ∨ type = HEVC_NAL_PPS then ps_array_completeness
    else 0
  { hvcc with array := addNalUnit (nal.take (nal.length % 65536)) type completeness hvcc.array }

/-- `none` is a read of memory that was not written, `some none` an error. -/
def hvcc_add_nal_unit (P : HvccParsers) (nal : List UInt8) (ps_array_completeness : UInt8)
    (hvcc : HEVCDecoderConfigurationRecord) : Option (Option HEVCDecoderConfigurationRecord) :=
  let rbsp := nal_unit_extract_rbsp nal
  match rbsp with
  | [] => none
  | b :: _ =>
    let type := nalType b
    if Declarative type then
      let r := hvcc_array_add_nal_unit nal type ps_array_completeness hvcc
      some <|
        if type = HEVC_NAL_VPS then P.vps rbsp r
        else if type = HEVC_NAL_SPS then P.sps rbsp r
        else if type = HEVC_NAL_PPS then P.pps rbsp r
        else some r
    else some none

/-- The loop over the units of the buffer. -/
def hvccUnits (P : HvccParsers) (ps_array_completeness : UInt8) :
    List (UInt8 × List UInt8) → HEVCDecoderConfigurationRecord →
      Option (Option HEVCDecoderConfigurationRecord)
  | [], hvcc => some (some hvcc)
  | u :: us, hvcc =>
    if Declarative (nalType u.1) then
      match hvcc_add_nal_unit P u.2 ps_array_completeness hvcc with
      | none => none
      | some none => some none
      | some (some hvcc) => hvccUnits P ps_array_completeness us hvcc
    else hvccUnits P ps_array_completeness us hvcc

/-- The sum of `numNalus` over the arrays of a type, in 16 bits. -/
def nalCount (type : UInt8) (as : List HVCCNALUnitArray) : Nat :=
  ((as.filter (·.NAL_unit_type = type)).map (·.numNalus)).sum % 65536

/-- There is a VPS, an SPS and a PPS, and there are not too many of them. -/
def CountsValid (as : List HVCCNALUnitArray) : Prop :=
  (0 < nalCount HEVC_NAL_VPS as ∧ nalCount HEVC_NAL_VPS as ≤ 16) ∧
    (0 < nalCount HEVC_NAL_SPS as ∧ nalCount HEVC_NAL_SPS as ≤ 32) ∧
    0 < nalCount HEVC_NAL_PPS as ∧ nalCount HEVC_NAL_PPS as ≤ 256

instance (as : List HVCCNALUnitArray) : Decidable (CountsValid as) :=
  inferInstanceAs (Decidable ((_ ∧ _) ∧ (_ ∧ _) ∧ _ ∧ _))

def nalUnitBytes (u : List UInt8) : List UInt8 := be16 (.ofNat u.length) ++ u

def nalArrayBytes (a : HVCCNALUnitArray) : List UInt8 :=
  [a.array_completeness <<< 7 ||| (a.NAL_unit_type &&& 0x3f)] ++ be16 (.ofNat a.numNalus) ++
    a.nalUnit.flatMap nalUnitBytes

def hvcc_write (hvcc : HEVCDecoderConfigurationRecord) : Out :=
  let idc := if MAX_SPATIAL_SEGMENTATION < hvcc.min_spatial_segmentation_idc then 0
    else hvcc.min_spatial_segmentation_idc
  let parallelismType := if idc = 0 then 0 else hvcc.parallelismType
  if CountsValid hvcc.array then
    .bytes (([1, hvcc.general_profile_space <<< 6 ||| hvcc.general_tier_flag <<< 5 |||
          hvcc.general_profile_idc] : List UInt8) ++
        be32 hvcc.general_profile_compatibility_flags ++
        be32 (hvcc.general_constraint_indicator_flags >>> 16).toUInt32 ++
        be16 hvcc.general_constraint_indicator_flags.toUInt32 ++
        [hvcc.general_level_idc] ++
        be16 (idc.toUInt32 ||| 0xf000) ++
        [parallelismType ||| 0xfc, hvcc.chromaFormat ||| 0xfc, hvcc.bitDepthLumaMinus8 ||| 0xf8,
          hvcc.bitDepthChromaMinus8 ||| 0xf8] ++
        be16 0 ++
        [hvcc.numTemporalLayers <<< 3 ||| hvcc.temporalIdNested <<< 2 |||
          hvcc.lengthSizeMinusOne, UInt8.ofNat hvcc.array.length]) ++
      .bytes (hvcc.array.flatMap nalArrayBytes)
  else ∅

/-- The loops of `get_hvcc_write_size` over the arrays. -/
def nalArraySize (a : HVCCNALUnitArray) : UInt32 :=
  1 + 2 + (a.nalUnit.map fun u => 2 + UInt32.ofNat u.length).sum

def get_hvcc_write_size (hvcc : HEVCDecoderConfigurationRecord) : UInt32 :=
  if CountsValid hvcc.array then
    1 + 1 + 4 + 4 + 2 + 1 + 2 + 1 + 1 + 1 + 1 + 2 + 1 + 1 + (hvcc.array.map nalArraySize).sum
  else 0

/-- What `ff_isom_write_hvcc` and `FFIsomGetHvccSize` go through before the one writes and
the other counts: `raw` if the extradata is written as it is, `record` if it is made from
the NAL units. -/
def hvccCases {β : Type} (P : HvccParsers) (addr : Nat) (data : List UInt8)
    (ps_array_completeness : UInt8) (nothing undef raw : β)
    (record : HEVCDecoderConfigurationRecord → β) : β :=
  if data.length < 6 then nothing
  else if data.headD 0 = 1 then raw
  else if ¬ AnnexB data then nothing
  else
    match (ff_avc_parse_nal_units_buf addr data).bind fun buf =>
      hvccUnits P ps_array_completeness (nalUnits buf.length buf) hvcc_init with
    | none => undef
    | some none => nothing
    | some (some hvcc) => record hvcc

def ff_isom_write_hvcc (P : HvccParsers) (addr : Nat) (data : List UInt8)
    (ps_array_completeness : UInt8) : Out :=
  hvccCases P addr data ps_array_completeness ∅ .undef (.bytes data) hvcc_write

def FFIsomGetHvccSize (P : HvccParsers) (addr : Nat) (data : List UInt8)
    (ps_array_completeness : UInt8) : UInt32 :=
  hvccCases P addr data ps_array_completeness 0 0 (.ofNat data.length) get_hvcc_write_size

/-- The parser of the extradata stays in its buffer, and no empty NAL unit is taken for a
parameter set. -/
def HvccFits (P : HvccParsers) (addr : Nat) (data : List UInt8) (ps_array_completeness : UInt8) :
    Prop :=
  6 ≤ data.length → data.headD 0 ≠ 1 → AnnexB data →
    ∃ buf, ff_avc_parse_nal_units_buf addr data = some buf ∧
      (hvccUnits P ps_array_completeness (nalUnits buf.length buf) hvcc_init).isSome

section

variable {P : HvccParsers} {addr : Nat} {data : List UInt8} {c : UInt8}
  {hvcc : HEVCDecoderConfigurationRecord}

theorem ofNat_sum (ls : List Nat) : UInt32.ofNat ls.sum = (ls.map UInt32.ofNat).sum := by
  induction ls with
  | nil => rfl
  | cons n ls ih => rw [List.sum_cons, List.map_cons, List.sum_cons, UInt32.ofNat_add, ih]

/-- The size of what a list of parts is written as. -/
theorem size_flatMap {β : Type} {f : β → List UInt8} {g : β → UInt32}
    (h : ∀ b, UInt32.ofNat (f b).length = g b) (bs : List β) :
    UInt32.ofNat (bs.flatMap f).length = (bs.map g).sum := by
  rw [List.length_flatMap, ofNat_sum, List.map_map]
  exact congrArg List.sum (List.map_congr_left fun b _ => h b)

theorem size_nalArrayBytes (a : HVCCNALUnitArray) :
    UInt32.ofNat (nalArrayBytes a).length = nalArraySize a := by
  have hunits := size_flatMap (f := nalUnitBytes) (g := fun u => 2 + UInt32.ofNat u.length)
    (fun u => by simp [nalUnitBytes]) a.nalUnit
  simp only [nalArrayBytes, List.length_append, UInt32.ofNat_add, hunits, nalArraySize]
  rfl

theorem hvcc_write_exact : (hvcc_write hvcc).Exact := by
  unfold hvcc_write
  dsimp only
  split <;> simp

theorem size_hvcc_write : (hvcc_write hvcc).size = get_hvcc_write_size hvcc := by
  unfold hvcc_write get_hvcc_write_size
  dsimp only
  split
  · rw [Out.size_append, Out.size_bytes, Out.size_bytes, size_flatMap size_nalArrayBytes]
    rfl
  · rfl

/-- The size of the body of `hvcC` is always right where it has a meaning. -/
theorem hvcc_exact_iff :
    ((ff_isom_write_hvcc P addr data c).Exact ∧
      (ff_isom_write_hvcc P addr data c).size = FFIsomGetHvccSize P addr data c) ↔
      HvccFits P addr data c := by
  unfold ff_isom_write_hvcc FFIsomGetHvccSize hvccCases HvccFits
  by_cases h6 : data.length < 6
  · simp only [if_pos h6]
    exact iff_of_true ⟨trivial, rfl⟩ fun h => absurd h6 (by omega)
  by_cases h1 : data.headD 0 = 1
  · simp only [if_neg h6, if_pos h1]
    exact iff_of_true ⟨trivial, rfl⟩ fun _ h => absurd h1 h
  by_cases hB : AnnexB data
  swap
  · simp only [if_neg h6, if_neg h1, if_pos hB]
    exact iff_of_true ⟨trivial, rfl⟩ fun _ _ h => absurd h hB
  simp only [if_neg h6, if_neg h1, if_neg (not_not.2 hB), not_lt.1 h6, ne_eq, h1, hB,
    not_false_iff, forall_const]
  rcases ff_avc_parse_nal_units_buf addr data with _ | buf
  · simp
  · simp only [Option.bind_some, Option.some.injEq, exists_eq_left']
    rcases hvccUnits P c (nalUnits buf.length buf) hvcc_init with _ | _ | hvcc
    · simp
    · simp
    · simp [hvcc_write_exact, size_hvcc_write]

end

end Melis.Mp4
