import Melis.FsWriter.Stream
import Melis.Mp4.Extradata

/-!
# The MP4 muxer

The state of `Mp4Muxer.c`. Each track has four tables: chunk offsets, sample
sizes, samples per chunk and durations. They are kept in rings, which all lie in
one block, and when a ring is full a page of 2048 entries goes to a temporary
file. Stream `0` is the video, `1` the audio and `2` the text.
-/

namespace Melis.Mp4

open Lib Function

inductive CodecType
  | video
  | audio
  | text
deriving DecidableEq

inductive CodecID
  | mpeg4
  | h264
  | h265
  | mjpeg
  | aac
  | mp3
  | pcm
  | adpcm
  | ggad
deriving DecidableEq

def CodecID.val : CodecID → UInt8
  | .mpeg4 => 32
  | .h264 => 33
  | .h265 => 34
  | .mjpeg => 108
  | .aac => 64
  | .mp3 => 105
  | .pcm => 106
  | .adpcm => 107
  | .ggad => 150

inductive ChunkId
  | stco
  | stsz
  | stsc
  | stts
deriving DecidableEq

inductive GpsPackMethod
  | inTrack
  | inMdat
deriving DecidableEq

abbrev StreamIndex := Fin 3

scoped instance neZero_three : NeZero 3 := ⟨by decide⟩

/-! ## The block of the rings -/

def MOV_CACHE_TINY_PAGE_SIZE : Nat := 2048

/-- `STCO_CACHE_SIZE`, `STSZ_CACHE_SIZE`, `STSC_CACHE_SIZE` and `STTS_CACHE_SIZE`. -/
def cacheSize : ChunkId → Nat
  | .stco | .stsc => 8 * MOV_CACHE_TINY_PAGE_SIZE
  | .stsz | .stts => 16 * MOV_CACHE_TINY_PAGE_SIZE

/-- `cache_start_ptr`, as an index in the block. There is a ring of durations for the
video only, and it is the last one. -/
def cacheStart (id : ChunkId) (i : StreamIndex) : Nat :=
  match id with
  | .stco => i * cacheSize .stco
  | .stsz => 3 * cacheSize .stco + i * cacheSize .stsz
  | .stsc => 3 * cacheSize .stco + 3 * cacheSize .stsz + i * cacheSize .stsc
  | .stts => 3 * cacheSize .stco + 3 * cacheSize .stsz + 3 * cacheSize .stsc

/-- `cache_end_ptr`, the last place of the ring. -/
def cacheEnd (id : ChunkId) (i : StreamIndex) : Nat := cacheStart id i + (cacheSize id - 1)

def TOTAL_CACHE_SIZE : Nat :=
  cacheSize .stco * 3 + cacheSize .stsz * 3 + cacheSize .stsc * 3 + cacheSize .stts +
    MOV_CACHE_TINY_PAGE_SIZE

/-- The number of entries of `cache_keyframe_ptr`. -/
def KEYFRAME_CACHE_ENTRIES : Nat := 8 * 1024 * 16 / 4

def MOV_HEADER_RESERVE_SIZE : Nat := 1024 * 1024

def MOV_GPS_MAX_ENTRY_NUM : Nat := 10 * 60 * 2

/-! ## The state -/

structure AVCodecContext where
  codec_type : CodecType
  codec_id : CodecID
  codec_tag : UInt32
  width : Int
  height : Int
  rotate_degree : Int
  channels : Nat
  frame_size : Int
  bits_per_sample : Nat
  sample_rate : Int

structure MOVTrack where
  enc : AVCodecContext
  tag : UInt32
  timescale : Int
  time : Int
  trackDuration : Int
  trackID : Int
  vosData : List UInt8
  vosAddr : Nat

structure GPS_ENTRY where
  gps_data_pos : UInt32
  gps_data_len_hold : UInt32

/-- `size` and `tiny_pages` are the counters `stco_size`, `stco_tiny_pages` and so on of the
tracks; they stay far below 32 bits as long as the boxes of the tables do. `fd` are the
entries in the temporary files that are open. `stale` is what the buffer for a page holds
where a file has ended; it is not followed up. -/
structure MOVContext where
  create_time : Int
  nb_streams : Nat
  mdat_size : Nat
  timescale : Int
  geo_available : Bool
  latitudex10000 : Int
  longitudex10000 : Int
  tracks : StreamIndex → MOVTrack
  size : ChunkId → StreamIndex → Nat
  tiny_pages : ChunkId → StreamIndex → Nat
  keyFrame_num : StreamIndex → Nat
  fd : ChunkId → StreamIndex → Option (List UInt32)
  stale : UInt32
  cache : Nat → UInt32
  cache_read_ptr : ChunkId → StreamIndex → Nat
  cache_write_ptr : ChunkId → StreamIndex → Nat
  cache_size : ChunkId → StreamIndex → Nat
  cache_keyframe_ptr : Nat → UInt32
  stsc_cnt : Nat
  last_stream_index : Option StreamIndex
  keyframe_num : Nat
  gps_entry_buff : Option (Nat → GPS_ENTRY)
  gps_entry_buff_wt : Nat
  /-- the global variable -/
  gps_pack_method : GpsPackMethod
  /-- the parsers of the parameter sets of H.265 -/
  parsers : HvccParsers
  pb : FsWriter.File

def MKTAG (a b c d : UInt8) : UInt32 :=
  a.toUInt32 ||| b.toUInt32 <<< 8 ||| c.toUInt32 <<< 16 ||| d.toUInt32 <<< 24

def TAG_avc1 : UInt32 := MKTAG 0x61 0x76 0x63 0x31
def TAG_hvc1 : UInt32 := MKTAG 0x68 0x76 0x63 0x31
def TAG_mp4v : UInt32 := MKTAG 0x6d 0x70 0x34 0x76
def TAG_mp4a : UInt32 := MKTAG 0x6d 0x70 0x34 0x61
def TAG_sowt : UInt32 := MKTAG 0x73 0x6f 0x77 0x74
def TAG_ms : UInt32 := MKTAG 0x6d 0x73 0x00 0x11
def TAG_mjpa : UInt32 := MKTAG 0x6d 0x6a 0x70 0x61
def TAG_text : UInt32 := MKTAG 0x74 0x65 0x78 0x74

def mov_find_codec_tag (enc : AVCodecContext) : UInt32 :=
  match enc.codec_id with
  | .h264 => TAG_avc1
  | .h265 => TAG_hvc1
  | .mpeg4 => TAG_mp4v
  | .aac => TAG_mp4a
  | .pcm => TAG_sowt
  | .adpcm => TAG_ms
  | .mjpeg => TAG_mjpa
  | .ggad => TAG_text
  | .mp3 => enc.codec_tag

end Melis.Mp4
