import Melis.Lib.Run
import Melis.Mp4.Moov

/-!
# Packets

`mov_write_packet` and `mov_write_trailer`. A packet of another stream than the
last one begins a chunk: the offset of the chunk is stored, and with it the
number of samples of the chunk that has ended. Then come the size of the sample
and, for video, its duration. After each of them a ring that is full gives a page
to its temporary file. A packet with GPS data goes between the samples.
-/

namespace Melis.Mp4

open Lib Function

/-- The lengths of the two parts are added in an `int`. -/
structure AVPacket where
  data0 : List UInt8
  data1 : List UInt8
  stream_index : StreamIndex
  key_frame : Bool
  duration : Int
  size_lt : data0.length + data1.length < 2 ^ 31

def AVPacket.size (pkt : AVPacket) : Nat := pkt.data0.length + pkt.data1.length

def update₂ {α : Type} (f : ChunkId → StreamIndex → α) (id : ChunkId) (i : StreamIndex) (x : α) :
    ChunkId → StreamIndex → α :=
  update f id (update (f id) i x)

variable (mov : MOVContext) (pkt : AVPacket)

/-! ## The rings -/

/-- `*cache_write_ptr++ = w` and the count of the table. -/
def store (id : ChunkId) (i : StreamIndex) (w : UInt32) : MOVContext :=
  { mov with
    cache := update mov.cache (mov.cache_write_ptr id i) w
    cache_write_ptr := update₂ mov.cache_write_ptr id i (mov.cache_write_ptr id i + 1)
    size := update₂ mov.size id i (mov.size id i + 1) }

/-- The entries that are in the ring. -/
def countCached (id : ChunkId) (i : StreamIndex) : MOVContext :=
  { mov with cache_size := update₂ mov.cache_size id i (mov.cache_size id i + 1) }

/-- The start of the ring for a place behind its end. -/
def wrap (id : ChunkId) (i : StreamIndex) (p : Nat) : Nat :=
  if cacheEnd id i < p then cacheStart id i else p

def wrapWritePtr (id : ChunkId) (i : StreamIndex) : MOVContext :=
  { mov with
    cache_write_ptr := update₂ mov.cache_write_ptr id i (wrap id i (mov.cache_write_ptr id i)) }

/-- The files of the text stream are never made. -/
def movCreateTmpFile : MOVContext :=
  { mov with
    fd := fun id i => if i.val < 2 ∧ (mov.fd id i).isNone then some [] else mov.fd id i }

/-- A page written over `f`, in bytes `offset` from its start. -/
def writePage (f : List UInt32) (offset : Nat) (page : List UInt32) : List UInt32 :=
  (f ++ List.replicate (offset / 4 - f.length) 0).take (offset / 4) ++ page ++
    f.drop (offset / 4 + page.length)

/-- A page of the ring of stream `i` goes to its file if the ring is full. The place in the
file is counted in track `t`. `none` is an access to a file that is not open. -/
def spill (id : ChunkId) (i t : StreamIndex) : Option MOVContext :=
  if cacheSize id ≤ mov.cache_size id i then
    let mov := if (mov.fd .stsz 0).isNone then movCreateTmpFile mov else mov
    let rd := mov.cache_read_ptr id i
    let page := (List.range MOV_CACHE_TINY_PAGE_SIZE).map fun k => mov.cache (rd + k)
    (mov.fd id i).map fun f =>
      { mov with
        fd := update₂ mov.fd id i
          (some (writePage f (mov.tiny_pages id t * (4 * MOV_CACHE_TINY_PAGE_SIZE)) page))
        tiny_pages := update₂ mov.tiny_pages id t (mov.tiny_pages id t + 1)
        cache_size := update₂ mov.cache_size id i (mov.cache_size id i - MOV_CACHE_TINY_PAGE_SIZE)
        cache_read_ptr := update₂ mov.cache_read_ptr id i
          (wrap id i (rd + MOV_CACHE_TINY_PAGE_SIZE)) }
  else some mov

/-! ## The steps of a packet -/

def mdatStart : Nat := MOV_HEADER_RESERVE_SIZE + 8

/-- The offset of the next chunk. -/
def chunkOffset : UInt32 := .ofNat (mov.mdat_size + mdatStart)

/-- The chunk of stream `l` has ended; its pages are counted in the track of the packet. -/
def endChunk (l t : StreamIndex) : Option MOVContext :=
  spill (wrapWritePtr (countCached (store mov .stsc l (.ofNat mov.stsc_cnt)) .stsc l) .stsc l)
    .stsc l t

/-- The chunk before, if there was one. -/
def endLastChunk (t : StreamIndex) : Option MOVContext :=
  match mov.last_stream_index with
  | none => some mov
  | some l => endChunk mov l t

/-- A packet of another stream than the last one. -/
def newChunk (i : StreamIndex) : Option MOVContext := do
  let mov ← endLastChunk (countCached (store mov .stco i (chunkOffset mov)) .stco i) i
  spill (wrapWritePtr { mov with stsc_cnt := 0 } .stco i) .stco i i

def beginChunk (i : StreamIndex) : Option MOVContext :=
  if some i ≠ mov.last_stream_index then newChunk mov i else some mov

/-- `channels * (bits_per_sample >> 3)`. -/
def pcmSampleSize (enc : AVCodecContext) : Nat := enc.channels * (enc.bits_per_sample / 8)

/-- For PCM the samples are only counted. -/
def countSample (i : StreamIndex) (size : Nat) : Option MOVContext :=
  let enc := (mov.tracks i).enc
  if enc.codec_id = .pcm then
    if pcmSampleSize enc = 0 then none
    else
      let n := size / pcmSampleSize enc
      some
        { mov with
          size := update₂ mov.size .stsz i (mov.size .stsz i + n)
          stsc_cnt := mov.stsc_cnt + n }
  else
    let mov := countCached (store mov .stsz i (.ofNat size)) .stsz i
    some { mov with stsc_cnt := mov.stsc_cnt + 1 }

def addSample (i : StreamIndex) (size : Nat) : Option MOVContext := do
  let mov ← countSample { mov with last_stream_index := some i } i size
  spill (wrapWritePtr mov .stsz i) .stsz i i

def addDuration (duration : Int) : Option MOVContext :=
  spill (wrapWritePtr (countCached (store mov .stts 0 (.ofInt duration)) .stts 0) .stts 0) .stts 0 0

/-- The byte behind a start code of four bytes; `none` is a read outside of the packet. -/
def tmpStrmByte : Option UInt8 :=
  if 5 ≤ pkt.data0.length then pkt.data0[4]?
  else if 0 < pkt.data0.length then pkt.data1[4 - pkt.data0.length]?
  else some 0

/-- The number of the frame is stored; `none` is a write behind the end of the array. -/
def addKeyFrame : Option MOVContext :=
  let n := mov.keyFrame_num 0
  if n < KEYFRAME_CACHE_ENTRIES then
    some
      { mov with
        cache_keyframe_ptr := update mov.cache_keyframe_ptr n (.ofNat (mov.size .stts 0))
        keyFrame_num := update mov.keyFrame_num 0 (n + 1) }
  else none

/-- For MJPEG every 25th frame counts as a key frame. Any codec but these four is refused. -/
def markKeyFrame (b : UInt8) : Option MOVContext :=
  match (mov.tracks 0).enc.codec_id with
  | .h264 => if b &&& 0x1f = 5 then addKeyFrame mov else some mov
  | .h265 => if pkt.key_frame then addKeyFrame mov else some mov
  | .mpeg4 => if b >>> 6 = 0 then addKeyFrame mov else some mov
  | .mjpeg => do
    let mov ← if mov.keyframe_num = 0 then addKeyFrame mov else some mov
    let n := mov.keyframe_num + 1
    some { mov with keyframe_num := if 25 ≤ n then 0 else n }
  | _ => none

/-- What is stored for a video frame besides its size. -/
def addVideo : Option MOVContext :=
  if pkt.stream_index = 0 then do
    let mov ← addDuration mov pkt.duration
    let b ← tmpStrmByte pkt
    markKeyFrame mov pkt b
  else some mov

/-- The video frame has a length in place of its start code. -/
def special : Bool :=
  pkt.stream_index = 0 &&
    ((mov.tracks 0).enc.codec_id = .h264 || (mov.tracks 0).enc.codec_id = .h265) && pkt.size ≠ 0

/-- The payload. The length takes the place of the first four bytes, which may reach into
the second part. -/
def payload (special : Bool) : List UInt8 :=
  if special ∧ pkt.data0 ≠ [] then
    be32 (.ofNat (pkt.size - 4)) ++ pkt.data0.drop 4 ++ pkt.data1.drop (4 - pkt.data0.length)
  else pkt.data0 ++ pkt.data1

/-- What ends a frame of MJPEG. -/
def trailer (enc : AVCodecContext) : List UInt8 := if enc.codec_id = .mjpeg then [0xff, 0xd9] else []

def writePayload : MOVContext :=
  let enc := (mov.tracks pkt.stream_index).enc
  put { mov with mdat_size := mov.mdat_size + (pkt.size + (trailer enc).length) }
    (payload pkt (special mov pkt) ++ trailer enc)

/-! ## GPS packets -/

/-- The packets that are put between the samples in a `free` box. -/
def isGps : Prop := pkt.stream_index = 2 ∧ mov.gps_pack_method = .inMdat

instance : Decidable (isGps mov pkt) := inferInstanceAs (Decidable (_ ∧ _))

/-- An empty part of a packet is a null pointer. -/
def mov_write_gps_packet : Option MOVContext :=
  if pkt.data0 = [] then some mov
  else
    mov.gps_entry_buff.map fun es =>
      let data_size := 4 + 4 + 4 + 4 + pkt.size
      let wt := mov.gps_entry_buff_wt + 1
      put
        { mov with
          gps_entry_buff :=
            some (update es mov.gps_entry_buff_wt ⟨chunkOffset mov, .ofNat data_size⟩)
          gps_entry_buff_wt := if MOV_GPS_MAX_ENTRY_NUM ≤ wt then 0 else wt
          mdat_size := mov.mdat_size + data_size }
        (freeHeader (.ofNat data_size) ++ fourcc 'G' 'P' 'S' ' ' ++ le32 (.ofNat pkt.size) ++
          pkt.data0)

/-! ## The muxer -/

/-- `none` where a packet is refused or where what is done has no meaning. -/
def mov_write_packet : Option MOVContext :=
  if isGps mov pkt then mov_write_gps_packet mov pkt
  else do
    let i := pkt.stream_index
    let mov ← beginChunk mov i
    let mov ← addSample mov i (pkt.size + (trailer (mov.tracks i).enc).length)
    let mov ← addVideo mov pkt
    some (writePayload mov pkt)

/-- The packets of a recording. -/
def muxer : Machine MOVContext AVPacket := ⟨mov_write_packet⟩

/-- The packet with stream index `-1`, which ends the last chunk. -/
def lastPacket : Option MOVContext :=
  mov.last_stream_index.map fun l => store mov .stsc l (.ofNat mov.stsc_cnt)

/-- `moov` is written and the size of `mdat` is filled in. -/
def finish : MOVContext :=
  put (seek (mov_write_moov_tag mov) MOV_HEADER_RESERVE_SIZE) (be32 (.ofNat (mov.mdat_size + 8)))

def mov_write_trailer : Option MOVContext := (lastPacket mov).map finish

/-! ## A new recording -/

/-- What `Mp4MuxerOpen`, `Mp4MuxerIoctrl` and `Mp4MuxerWriteVos` are given. The audio has
the sample rate as its time scale. `cache`, `cache_keyframe_ptr`, `gps` and `stale` are what
is in memory before anything is stored. -/
structure Recording where
  enc : StreamIndex → AVCodecContext
  codec_type : ∀ i, (enc i).codec_type = if i = 0 then .video else if i = 1 then .audio else .text
  video : (enc 0).codec_id = .h264 ∨ (enc 0).codec_id = .h265 ∨ (enc 0).codec_id = .mjpeg ∨
    (enc 0).codec_id = .mpeg4
  audio : (enc 1).codec_id = .aac ∨ (enc 1).codec_id = .pcm
  text : (enc 2).codec_id = .ggad
  vosData : StreamIndex → List UInt8
  vosAddr : StreamIndex → Nat
  vosLen : ∀ i, (vosData i).length < 2 ^ 31
  trackDuration : StreamIndex → Int
  create_time : Int
  geo_available : Bool
  latitudex10000 : Int
  longitudex10000 : Int
  gps_pack_method : GpsPackMethod
  parsers : HvccParsers
  cache : Nat → UInt32
  cache_keyframe_ptr : Nat → UInt32
  gps : Nat → GPS_ENTRY
  stale : UInt32

/-- There is a text track if the GPS data goes into a track. -/
def Recording.hasText (r : Recording) : Prop := r.geo_available ∧ r.gps_pack_method = .inTrack

instance (r : Recording) : Decidable r.hasText := inferInstanceAs (Decidable (_ ∧ _))

def Recording.timescale (r : Recording) (i : StreamIndex) : Int :=
  if i = 0 then 1000
  else if i = 1 then (r.enc 1).sample_rate
  else if r.hasText then 1000 else 0

def Mp4MuxerOpen (r : Recording) : MOVContext where
  create_time := r.create_time
  nb_streams := if r.hasText then 3 else 2
  mdat_size := 0
  timescale := 0
  geo_available := r.geo_available
  latitudex10000 := r.latitudex10000
  longitudex10000 := r.longitudex10000
  tracks i := ⟨r.enc i, 0, r.timescale i, 0, r.trackDuration i, 0, r.vosData i, r.vosAddr i⟩
  size _ _ := 0
  tiny_pages _ _ := 0
  keyFrame_num _ := 0
  fd _ _ := none
  stale := r.stale
  cache := r.cache
  cache_read_ptr := cacheStart
  cache_write_ptr := cacheStart
  cache_size _ _ := 0
  cache_keyframe_ptr := r.cache_keyframe_ptr
  stsc_cnt := 0
  last_stream_index := none
  keyframe_num := 0
  gps_entry_buff := if r.geo_available ∧ r.gps_pack_method = .inMdat then some r.gps else none
  gps_entry_buff_wt := 0
  gps_pack_method := r.gps_pack_method
  parsers := r.parsers
  pb := ⟨[], 0⟩

end Melis.Mp4
