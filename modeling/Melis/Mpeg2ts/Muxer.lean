import Melis.Lib.C
import Melis.Lib.Memory
import Melis.Lib.Run
import Melis.Lib.TransportStream

/-!
# The MPEG-2 transport stream muxer

Each packet of a stream becomes one PES packet, cut into TS packets of 188 bytes
that are written to a ring of 1024 of them. A file gets the ring in pages of 128
packets and the rest at the trailer; a callback gets, at the end of each call, what
the call wrote. PAT, PMT and PCR packets go between the PES packets.

`generated` is the history of the packets written to the ring, `handed` that of the
reads given to the file writer or to the callback.
-/

namespace Melis.Mpeg2ts

open Lib Memory Function TransportStream

/-- `enum CodecType`. -/
inductive CodecType where
  | video
  | audio
  | text
  | data
  deriving DecidableEq

/-- `enum CodecID`, as far as the muxer knows it; `unset` is the zero of a stream not in use. -/
inductive CodecID where
  | unset
  | h264
  | h265
  | aac
  | adpcm
  | ggad
  deriving DecidableEq

inductive OutputBufferMode where
  | tsFile
  | callbackBuffer
  deriving DecidableEq

def codecTypeVideo : Nat := 0

def codecTypeAudio : Nat := 1

def codecTypeText : Nat := 2

def tsPacketSize : Nat := packetSize

/-- The bytes of the ring. -/
def cacheBytes : Nat := 1024 * tsPacketSize

/-- `ts_cache_end` as an offset. -/
def tsCacheEnd : Nat := cacheBytes - 1

structure MpegTSSection where
  pid : Nat
  cc : Nat

/-- `AVStream` with its `MpegTSWriteStream`. -/
structure AVStream where
  codecType : CodecType
  codecId : CodecID
  channels : Int
  sampleRate : Int
  vosData : List UInt8
  firstframeflag : Bool
  pid : Nat
  cc : Nat

/-- A read of the ring that was handed out: where it began and what was there. -/
structure Read where
  offset : Nat
  bytes : List UInt8
  deriving DecidableEq

/-- The ring of `MpegTSWrite`. The pointers are offsets, and `cache` is the memory
from the start of the ring on. -/
structure TsCache where
  cache : Nat → UInt8
  cacheSize : Nat
  cacheSizeTotal : Nat
  tsWritePtr : Nat
  tsReadPtr : Nat
  cachePageNum : Nat
  generated : List Packet
  handed : List Read

/-- `AVFormatContext` with its `MpegTSWrite` and the one service. -/
structure AVFormatContext where
  nbStreams : Nat
  vStrmFlag : Bool
  aStrmFlag : Bool
  streams : Nat → AVStream
  pesBufsize : Nat
  audioFrameNum : Nat
  patPmtCounter : Nat
  patPmtFlag : Bool
  outputBufferMode : OutputBufferMode
  firstVideoPts : Bool
  baseVideoPts : Int
  pcrCounter : Nat
  tsid : Nat
  sid : Nat
  pcrPid : Nat
  pat : MpegTSSection
  pmt : MpegTSSection
  patPacketCount : Int
  patPacketPeriod : Int
  ring : TsCache

structure AVPacket where
  pts : Int
  data0 : List UInt8
  data1 : List UInt8
  streamIndex : Nat
  flags : Int
  /-- The byte at `data0 + 4` where `data0` is shorter. -/
  past0 : UInt8

/-! ## Setting up -/

/-- `_media_file_inf_t`, as far as the muxer reads it; the encode types are compared
with `VENC_CODEC_H265`, with the one of AAC and with the one of GPS data. -/
structure MediaFileInf where
  nWidth : Int
  isH265 : Bool
  channels : Int
  sampleRate : Int
  isAac : Bool
  isGgad : Bool
  geoAvailable : Bool

/-- The number of streams made, `MAX_STREAMS_IN_FILE`. -/
def maxStreamsInFile : Nat := 3

def pidOf : CodecType → Nat
  | .video => 0x1011
  | .audio => 0x1100
  | _ => 0x300

/-- `Mpeg2tsMuxerOpen`, where there is memory for everything, holding `mem`. -/
def muxerOpen (mem : Nat → UInt8) (mode : OutputBufferMode) : AVFormatContext where
  nbStreams := 0
  vStrmFlag := false
  aStrmFlag := false
  streams := fun i =>
    let codecType := if i = 0 then .video else if i = 1 then .audio else .data
    ⟨codecType, .unset, 0, 0, [], true, pidOf codecType, 15⟩
  pesBufsize := 512 * 1024
  audioFrameNum := 0
  patPmtCounter := 0
  patPmtFlag := true
  outputBufferMode := mode
  firstVideoPts := true
  baseVideoPts := 0
  pcrCounter := 0
  tsid := 0
  sid := 1
  pcrPid := 0x1fff
  pat := ⟨0, 15⟩
  pmt := ⟨0x0100, 15⟩
  patPacketCount := 0
  patPacketPeriod := 0
  ring := ⟨mem, 0, 0, 0, 0, 0, [], []⟩

namespace AVFormatContext

variable (s : AVFormatContext)

/-- The next stream is set to `codecType` and `codecId`. -/
def addStream (codecType : CodecType) (codecId : CodecID) (channels sampleRate : Int) :
    AVFormatContext :=
  let st := s.streams s.nbStreams
  { s with
    streams := update s.streams s.nbStreams
      { st with
        codecType := codecType
        codecId := codecId
        channels := channels
        sampleRate := sampleRate
        pid := pidOf codecType }
    nbStreams := s.nbStreams + 1 }

def setVideo (inf : MediaFileInf) : AVFormatContext :=
  if inf.nWidth ≠ 0 then
    { s.addStream .video (if inf.isH265 then .h265 else .h264) 0 0 with vStrmFlag := true }
  else s

def setAudio (inf : MediaFileInf) : AVFormatContext :=
  if inf.sampleRate ≠ 0 ∧ inf.channels ≠ 0 then
    { s.addStream .audio (if inf.isAac then .aac else .adpcm) inf.channels inf.sampleRate with
      aStrmFlag := true }
  else s

def setText (inf : MediaFileInf) : AVFormatContext :=
  if inf.isGgad ∧ inf.geoAvailable then s.addStream .data .ggad 0 0 else s

/-- The case `SETAVPARA` of `Mpeg2tsMuxerIoctrl`. The first stream is the one of the
PCR: `none` is no stream at all, or a first stream that is neither video nor audio
and so has a zero time base to divide by. -/
def setAvPara (inf : MediaFileInf) : Option AVFormatContext :=
  let s := ((s.setVideo inf).setAudio inf).setText inf
  if s.nbStreams = 0 ∨ (s.streams 0).codecType = .data then none
  else some { s with pcrPid := 0x1000, patPacketPeriod := 3, patPacketCount := 3 }

end AVFormatContext

/-! ## The ring -/

namespace TsCache

variable (r : TsCache)

/-- `n` bytes from the read position are handed out. -/
def hand (n : Nat) : TsCache :=
  { r with handed := r.handed ++ [⟨r.tsReadPtr, load r.cache (List.range' r.tsReadPtr n)⟩] }

/-- A page of 128 packets is written to the file. -/
def drain : TsCache :=
  let r := r.hand (tsPacketSize * 128)
  { r with
    tsReadPtr :=
      if tsCacheEnd < r.tsReadPtr + tsPacketSize * 128 then 0
      else r.tsReadPtr + tsPacketSize * 128
    cacheSize := u32 (r.cacheSize - tsPacketSize * 128 : Int)
    cachePageNum := u32 (r.cachePageNum + 1) }

/-- A TS packet is copied to the ring. -/
def store (packet : Packet) : TsCache :=
  { r with
    cacheSize := u32 (r.cacheSize + tsPacketSize)
    cacheSizeTotal := u64 (r.cacheSizeTotal + tsPacketSize)
    cache := memcpy r.cache r.tsWritePtr packet
    tsWritePtr :=
      if tsCacheEnd < r.tsWritePtr + tsPacketSize then 0 else r.tsWritePtr + tsPacketSize
    generated := r.generated ++ [packet] }

/-- The end of the loops that make a TS packet: to a file a page is written when the
ring is full. -/
def cachePacket (mode : OutputBufferMode) (packet : Packet) : TsCache :=
  let r := r.store packet
  if mode ≠ .callbackBuffer ∧ 1024 * tsPacketSize ≤ r.cacheSize then r.drain else r

/-- The ring is empty. -/
def reset : TsCache :=
  { r with tsWritePtr := 0, tsReadPtr := 0, cacheSize := 0, cachePageNum := 0, cacheSizeTotal := 0 }

/-- The end of `mpegts_write_pes`. -/
def callback (mode : OutputBufferMode) : TsCache :=
  if mode = .callbackBuffer then (r.hand r.cacheSize).reset else r

/-- The body of the loop of `ts_write_trailer`. -/
def flushPacket : TsCache :=
  let r := { r with tsReadPtr := if tsCacheEnd < r.tsReadPtr then 0 else r.tsReadPtr }
  let r := r.hand tsPacketSize
  { r with tsReadPtr := r.tsReadPtr + tsPacketSize }

/-- The loop of `ts_write_trailer`; `none` where it is not done after `fuel` passes. -/
def flushPackets (fuel i : Nat) (r : TsCache) : Option TsCache :=
  match fuel with
  | 0 => none
  | fuel + 1 =>
    if i < r.cacheSizeTotal / tsPacketSize then flushPackets fuel (u32 (i + 1)) r.flushPacket
    else some r

/-- `ts_write_trailer`. The counter has 32 bits, so a loop that is not done after
`2 ^ 32 + 1` passes never is: `none`. -/
def writeTrailer (mode : OutputBufferMode) : Option TsCache :=
  if mode = .callbackBuffer then some r
  else (flushPackets (2 ^ 32 + 1) (u32 (r.cachePageNum * 128)) r).map reset

end TsCache

namespace AVFormatContext

/-- A TS packet is written to the ring. -/
def cachePacket (s : AVFormatContext) (packet : Packet) : AVFormatContext :=
  { s with ring := s.ring.cachePacket s.outputBufferMode packet }

end AVFormatContext

end Melis.Mpeg2ts
