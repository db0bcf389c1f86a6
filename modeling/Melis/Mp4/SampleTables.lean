import Melis.Mp4.Muxer

/-!
# The sample tables

`stbl` and what is in it: the description of the samples with the codec
configuration, and the five tables. Each writer stands beside the function that
computes the size of its box.
-/

namespace Melis.Mp4

open Lib

variable (mov : MOVContext) (i : StreamIndex)

/-! ## Reading a table back -/

/-- `*cache_read_ptr++`, `n` times. -/
def readRow (n p : Nat) : List UInt32 := (List.range n).map fun k => mov.cache (p + k)

/-- The same, going back to the start of the ring behind its end. -/
def readRing (id : ChunkId) : Nat → Nat → List UInt32
  | 0, _ => []
  | n + 1, p =>
    mov.cache p :: readRing id n (if cacheEnd id i < p + 1 then cacheStart id i else p + 1)

/-- `n` entries of a temporary file. -/
def readPages (f : List UInt32) (n : Nat) : List UInt32 :=
  (List.range n).map fun k => f.getD k mov.stale

/-- The entries of a table: those in the ring only, or the pages in the temporary file and
then the ring. `none` is a read behind the block, or from a file that is not open. -/
def tableWords (id : ChunkId) : Option (List UInt32) :=
  let size := mov.size id i
  if (mov.tracks i).enc.codec_id = .ggad ∨ mov.tiny_pages id i = 0 then
    if mov.cache_read_ptr id i + size ≤ TOTAL_CACHE_SIZE then
      some (readRow mov size (mov.cache_read_ptr id i))
    else none
  else
    (mov.fd id i).map fun f =>
      readPages mov f (mov.tiny_pages id i * MOV_CACHE_TINY_PAGE_SIZE) ++
        readRing mov i id (size - mov.tiny_pages id i * MOV_CACHE_TINY_PAGE_SIZE)
          (mov.cache_read_ptr id i)

/-- What is put out for a table that can be read. -/
def tableOut (f : List UInt32 → List UInt8) : Option (List UInt32) → Out
  | none => .undef
  | some ws => .bytes (f ws)

/-! ## The tables -/

def movGetStcoTagSize : UInt32 := (.ofNat (mov.size .stco i) + 4) * 4

def mov_write_stco_tag : Out :=
  .box (movGetStcoTagSize mov i) (fourcc 's' 't' 'c' 'o')
    (.bytes (be32 0 ++ be32 (.ofNat (mov.size .stco i))) ++
      tableOut (List.flatMap be32) (tableWords mov i .stco))

def movGetStszTagSize : UInt32 :=
  if (mov.tracks i).enc.codec_id = .pcm then 5 * 4 else (.ofNat (mov.size .stsz i) + 5) * 4

def mov_write_stsz_tag : Out :=
  let enc := (mov.tracks i).enc
  .box (movGetStszTagSize mov i) (fourcc 's' 't' 's' 'z')
    (.bytes (be32 0 ++
        be32 (if enc.codec_id = .pcm then .ofNat (enc.channels * (enc.bits_per_sample / 8)) else 0) ++
        be32 (.ofNat (mov.size .stsz i))) ++
      if enc.codec_id = .pcm then ∅
      else tableOut (List.flatMap be32) (tableWords mov i .stsz))

def movGetStscTagSize : UInt32 :=
  if (mov.tracks i).enc.codec_id ≠ .ggad then (.ofNat (mov.size .stsc i) * 3 + 4) * 4
  else (4 + 3) * 4

/-- The number of the chunk, the samples in it and the sample description. -/
def stscEntries (ws : List UInt32) : List UInt8 :=
  ws.zipIdx.flatMap fun w => be32 (.ofNat (w.2 + 1)) ++ be32 w.1 ++ be32 1

def mov_write_stsc_tag : Out :=
  .box (movGetStscTagSize mov i) (fourcc 's' 't' 's' 'c')
    (if (mov.tracks i).enc.codec_id = .ggad then
      .bytes (be32 0 ++ be32 1 ++ be32 1 ++ be32 1 ++ be32 1)
    else
      .bytes (be32 0 ++ be32 (.ofNat (mov.size .stsc i))) ++
        tableOut stscEntries (tableWords mov i .stsc))

def movGetStssTagSize : UInt32 := (.ofNat (mov.keyFrame_num i) + 4) * 4

def mov_write_stss_tag : Out :=
  let keyframes := mov.keyFrame_num i
  .box (movGetStssTagSize mov i) (fourcc 's' 't' 's' 's')
    (.bytes (be32 0 ++ be32 (.ofNat keyframes) ++
      (List.range keyframes).flatMap fun k => be32 (mov.cache_keyframe_ptr k)))

def movGetSttsTagSize : UInt32 :=
  match (mov.tracks i).enc.codec_type with
  | .audio | .text => 16 + 1 * 8
  | .video => 16 + .ofNat (mov.size .stts i) * 8

/-- The durations but the first one, and `0` for the last sample. -/
def sttsEntries (ws : List UInt32) : List UInt8 :=
  (ws.drop 1).flatMap (fun w => be32 1 ++ be32 w) ++ be32 1 ++ be32 0

def mov_write_stts_tag : Out :=
  let track := mov.tracks i
  .box (movGetSttsTagSize mov i) (fourcc 's' 't' 't' 's')
    (match track.enc.codec_type with
    | .audio =>
      .bytes (be32 0 ++ be32 1 ++ be32 (.ofNat (mov.size .stsz i)) ++
        be32 (if track.enc.codec_id = .pcm then 1 else .ofInt track.enc.frame_size))
    | .text =>
      .bytes (be32 0 ++ be32 1 ++ be32 (.ofNat (mov.size .stsz i)) ++ be32 (.ofInt track.timescale))
    | .video =>
      .bytes (be32 0 ++ be32 (.ofNat (mov.size .stts i))) ++ tableOut sttsEntries (tableWords mov i .stts))

/-! ## The codec configuration -/

/-- `for(i=1; len>>(7*i); i++);`, from `k` on: a 32-bit number is `0` when shifted by 35. -/
def descrLoop (len : Nat) : Nat → Nat → Nat
  | 0, k => k
  | n + 1, k => if len >>> (7 * k) = 0 then k else descrLoop len n (k + 1)

/-- The number of bytes of the length of a descriptor. -/
def descrBytes (len : UInt32) : Nat := descrLoop len.toNat 4 1

def descrLength (len : UInt32) : UInt32 := len + 1 + .ofNat (descrBytes len)

def putDescr (tag : UInt8) (size : UInt32) : List UInt8 :=
  [tag] ++ (List.range (descrBytes size - 1)).reverse.map
    (fun k => (UInt8.ofNat (size.toNat >>> (7 * (k + 1)))) ||| 0x80) ++ [size.toUInt8 &&& 0x7f]

def decoderSpecificInfoLen : UInt32 :=
  if (mov.tracks i).vosData.length = 0 then 0
  else descrLength (.ofNat (mov.tracks i).vosData.length)

def movGetEsdsTagSize : UInt32 :=
  12 + descrLength (3 + descrLength (13 + decoderSpecificInfoLen mov i) + descrLength 1)

def mov_write_esds_tag : Out :=
  let track := mov.tracks i
  .box (movGetEsdsTagSize mov i) (fourcc 'e' 's' 'd' 's')
    (.bytes (be32 0 ++
      putDescr 0x03 (3 + descrLength (13 + decoderSpecificInfoLen mov i) + descrLength 1) ++
      be16 (.ofInt track.trackID) ++ [0x00] ++
      putDescr 0x04 (13 + decoderSpecificInfoLen mov i) ++
      [track.enc.codec_id.val, if track.enc.codec_type = .audio then 0x15 else 0x11, 0] ++
      be16 0 ++ be32 0 ++ be32 0 ++
      (if track.vosData.length = 0 then []
        else putDescr 0x05 (.ofNat track.vosData.length) ++ track.vosData) ++
      putDescr 0x06 1 ++ [0x02]))

def movGetAvccTagSize : UInt32 :=
  8 + FFIsomGetAvccSize (mov.tracks i).vosAddr (mov.tracks i).vosData

def movGetHvccTagSize : UInt32 :=
  8 + FFIsomGetHvccSize mov.parsers (mov.tracks i).vosAddr (mov.tracks i).vosData 0

def mov_write_avcc_tag : Out :=
  .box (movGetAvccTagSize mov i) (fourcc 'a' 'v' 'c' 'C')
    (ff_isom_write_avcc (mov.tracks i).vosAddr (mov.tracks i).vosData)

def mov_write_hvcc_tag : Out :=
  .box (movGetHvccTagSize mov i) (fourcc 'h' 'v' 'c' 'C')
    (ff_isom_write_hvcc mov.parsers (mov.tracks i).vosAddr (mov.tracks i).vosData 0)

/-! ## The sample entries -/

def movGetAudioTagSize : UInt32 :=
  16 + 8 + 12 + (if (mov.tracks i).enc.codec_id = .adpcm then 16 else 0) +
    if (mov.tracks i).tag = TAG_mp4a then movGetEsdsTagSize mov i else 0

def mov_write_audio_tag : Out :=
  let track := mov.tracks i
  let enc := track.enc
  let version : UInt32 := if enc.codec_id = .adpcm then 1 else 0
  let packet := enc.frame_size * (enc.bits_per_sample / 8)
  .box (movGetAudioTagSize mov i) (le32 track.tag)
    (.bytes (be32 0 ++ be16 0 ++ be16 1 ++ be16 version ++ be16 0 ++ be32 0 ++
        be16 (.ofNat enc.channels) ++ be16 (.ofNat enc.bits_per_sample) ++ be16 0 ++ be16 0 ++
        be16 (.ofInt enc.sample_rate) ++ be16 0) ++
      (if enc.codec_id = .adpcm then
        .bytes (be32 (.ofInt enc.frame_size) ++ be32 (.ofInt packet) ++
          be32 (.ofInt (packet * enc.channels)) ++ be32 2)
      else ∅) ++
      if track.tag = TAG_mp4a then mov_write_esds_tag mov i else ∅)

def movGetTextTagSize : UInt32 := 75

def vendorInfo : List UInt8 :=
  ['A', 'l', 'l', 'W', 'i', 'n', 'n', 'e', 'r', ' ', 'c', 'u', 's', 't', 'o', 'm'].map fun c => UInt8.ofNat c.toNat

def mov_write_text_tag : Out :=
  .box movGetTextTagSize (le32 (mov.tracks i).tag)
    (.bytes (be32 0 ++ be32 1 ++ be32 0x6000 ++ be32 1 ++ be32 0 ++ be32 0 ++ be32 0 ++ be32 0 ++
      be32 0 ++ be32 0 ++ be32 0 ++ be32 0 ++ be24 0 ++ vendorInfo))

def movGetVideoTagSize : UInt32 :=
  16 + 4 + 12 + 18 + 32 + 4 +
    if (mov.tracks i).tag = TAG_avc1 then movGetAvccTagSize mov i
    else if (mov.tracks i).tag = TAG_mp4v then movGetEsdsTagSize mov i
    else if (mov.tracks i).tag = TAG_hvc1 then movGetHvccTagSize mov i
    else 0

def mov_write_video_tag : Out :=
  let track := mov.tracks i
  .box (movGetVideoTagSize mov i) (le32 track.tag)
    (.bytes (be32 0 ++ be16 0 ++ be16 1 ++ be16 0 ++ be16 0 ++ be32 0 ++ be32 0 ++ be32 0 ++
        be16 (.ofInt track.enc.width) ++ be16 (.ofInt track.enc.height) ++ be32 0x00480000 ++
        be32 0x00480000 ++ be32 0 ++ be16 1 ++ [0] ++ List.replicate 31 0 ++ be16 0x18 ++
        be16 0xffff) ++
      if track.tag = TAG_avc1 then mov_write_avcc_tag mov i
      else if track.tag = TAG_mp4v then mov_write_esds_tag mov i
      else if track.tag = TAG_hvc1 then mov_write_hvcc_tag mov i
      else ∅)

def movGetStsdTagSize : UInt32 :=
  16 + match (mov.tracks i).enc.codec_type with
    | .video => movGetVideoTagSize mov i
    | .audio => movGetAudioTagSize mov i
    | .text => movGetTextTagSize

def mov_write_stsd_tag : Out :=
  .box (movGetStsdTagSize mov i) (fourcc 's' 't' 's' 'd')
    (.bytes (be32 0 ++ be32 1) ++
      match (mov.tracks i).enc.codec_type with
      | .video => mov_write_video_tag mov i
      | .audio => mov_write_audio_tag mov i
      | .text => mov_write_text_tag mov i)

/-! ## `stbl` -/

def movGetStblTagSize : UInt32 :=
  8 + movGetStsdTagSize mov i + movGetSttsTagSize mov i +
    (if (mov.tracks i).enc.codec_type = .video then movGetStssTagSize mov i else 0) +
    movGetStscTagSize mov i + movGetStszTagSize mov i + movGetStcoTagSize mov i

def mov_write_stbl_tag : Out :=
  .box (movGetStblTagSize mov i) (fourcc 's' 't' 'b' 'l')
    (mov_write_stsd_tag mov i ++ mov_write_stts_tag mov i ++
      (if (mov.tracks i).enc.codec_type = .video then mov_write_stss_tag mov i else ∅) ++
      mov_write_stsc_tag mov i ++ mov_write_stsz_tag mov i ++ mov_write_stco_tag mov i)

end Melis.Mp4
