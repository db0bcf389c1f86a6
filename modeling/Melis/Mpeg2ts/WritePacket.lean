import Melis.Mpeg2ts.Tables

/-!
# PES packets

`mpegts_write_pes` puts a PES header in front of the payload and cuts it into TS
packets; the last one is filled up with an adaptation field.
-/

namespace Melis.Mpeg2ts

open Lib Memory Function TransportStream

def writePts (fourbits : Nat) (pts : Int) : List UInt8 :=
  let val := fourbits <<< 4 ||| bits pts 30 3 <<< 1 ||| 1
  let val15 := bits pts 15 15 <<< 1 ||| 1
  let val0 := bits pts 0 15 <<< 1 ||| 1
  [.ofNat val, .ofNat (val15 >>> 8), .ofNat val15, .ofNat (val0 >>> 8), .ofNat val0]

/-- `stream_id`; no PES packet is made for the codec that has none. -/
def streamId : CodecID → List UInt8
  | .h264 | .h265 => [0xe0]
  | .adpcm => [0xbd]
  | .aac => [0xc0]
  | .ggad => [0xbf]
  | .unset => []

/-- What comes before the packet length. -/
def pesStart (codecId : CodecID) : List UInt8 := [0x00, 0x00, 0x01] ++ streamId codecId

/-- The header from the packet length on, for a codec other than GPS data. -/
def pesOptional (codecType : CodecType) (payloadSize : Nat) (pts : Int) : List UInt8 :=
  let headerLen := if pts ≠ -1 then 5 + 2 else 0
  let flags := if pts ≠ -1 then 0x80 else 0
  let len := payloadSize + headerLen + 3
  let val : UInt8 := if codecType = .data then 0x80 ||| 0x04 else 0x80
  put16 (if 0xffff < len then 0 else len) ++ [val, .ofNat flags, .ofNat headerLen] ++
    (if pts ≠ -1 then writePts (flags >>> 6) pts else []) ++ [0xff, 0xff]

/-- The bytes between the TS header and the payload in the first packet. -/
def pesHeader (codecId : CodecID) (codecType : CodecType) (payloadSize : Nat) (pts : Int) :
    List UInt8 :=
  pesStart codecId ++
    if codecId = .ggad then put16 payloadSize else pesOptional codecType payloadSize pts

/-- The adaptation field of `stuffingLen` bytes. -/
def stuffing (stuffingLen : Nat) : List UInt8 :=
  if 0 < stuffingLen then
    .ofNat (stuffingLen - 1) ::
      if 2 ≤ stuffingLen then 0x00 :: List.replicate (stuffingLen - 2) 0xff else []
  else []

/-- How much of the payload fits behind a header of `header` bytes. -/
def payloadLen (header payloadSize : Nat) : Nat := min (tsPacketSize - (4 + header)) payloadSize

/-- A TS packet of the loop: `header` is the PES header in the first one. -/
def pesPacket (pid cc : Nat) (isStart : Bool) (header payload : List UInt8) : Packet :=
  let len := payloadLen header.length payload.length
  let stuffingLen := tsPacketSize - (4 + header.length) - len
  tsHeader pid cc isStart (0 < stuffingLen) ++ stuffing stuffingLen ++ header ++ payload.take len

namespace AVFormatContext

variable (s : AVFormatContext)

/-- `cc` of stream `k`. -/
def setStreamCc (k cc : Nat) : AVFormatContext :=
  { s with streams := update s.streams k { s.streams k with cc := cc } }

/-- The loop of `mpegts_write_pes` over `n` bytes of payload at most. -/
def pesLoop (k n : Nat) (isStart : Bool) (header payload : List UInt8) (s : AVFormatContext) :
    AVFormatContext :=
  match n with
  | 0 => s
  | n + 1 =>
    if payload = [] then s
    else
      let cc := ((s.streams k).cc + 1) &&& 0xf
      let len := payloadLen header.length payload.length
      pesLoop k n false [] (payload.drop len)
        ((s.setStreamCc k cc).cachePacket
          (pesPacket (s.streams k).pid cc isStart header payload))

/-- What `mpegts_write_pes` does before the loop. -/
def startPes (k : Nat) (pts : Int) (idx : Nat) : AVFormatContext :=
  let s := s.setStreamCc k 0
  if idx ≠ codecTypeText then
    let s := s.retransmitSiInfo pts idx
    { s with patPacketCount := i32 (s.patPacketCount + 1) }
  else s

def writePes (k : Nat) (payload : List UInt8) (pts : Int) (idx : Nat) : AVFormatContext :=
  let st := s.streams k
  let header := pesHeader st.codecId st.codecType payload.length pts
  let s := (s.startPes k pts idx).pesLoop k payload.length true header payload
  { s with ring := s.ring.callback s.outputBufferMode }

end AVFormatContext

/-! ## Writing a packet

`ts_write_packet` puts the elementary data of a packet together in `pes_buffer`,
as the codec of its stream wants it, and writes it as one PES packet.
-/

/-- `AudioSampleRate`. -/
def audioSampleRate : List Nat :=
  [96000, 88200, 64000, 48000, 44100, 32000, 24000, 22050, 16000, 12000, 11025, 8000, 7350]

def adtsHeaderLength : Nat := 7

/-- The access unit delimiter of H.264. -/
def audH264 : List UInt8 := [0x00, 0x00, 0x00, 0x01, 0x09, 0x30]

/-- The access unit delimiter of H.265. -/
def audH265 : List UInt8 := [0x00, 0x00, 0x00, 0x01, 2 * 35, 1, 0x50]

def adtsHeader (channels sampleRate : Int) (frameLength : Nat) : List UInt8 :=
  let objType := 1
  let channels := u32 channels
  let i := audioSampleRate.idxOf (u32 sampleRate)
  let numDataBlock := frameLength / 1024
  [0xff, 0xf1, .ofNat (objType <<< 6 ||| i <<< 2 ||| (channels &&& 0x4) >>> 2),
    .ofNat ((channels &&& 0x3) <<< 6 ||| (frameLength &&& 0x1800) >>> 11),
    .ofNat ((frameLength &&& 0x1ff8) >>> 3), .ofNat ((frameLength &&& 0x7) <<< 5 ||| 0x1f),
    .ofNat (0xfc ||| numDataBlock &&& 0x03)]

/-- What the branch of a codec leaves: the payload and the PTS of the PES packet,
or nothing where it returns early. -/
abbrev Payload := Option (List UInt8 × Int)

namespace AVFormatContext

variable (s : AVFormatContext) (k : Nat) (pkt : AVPacket)

/-- Whether `pes_buffer` has room for `total` bytes, where `realloc` says whether
there is memory. `none` is an `int` overflow. -/
def reserve (total : Nat) (realloc : Bool) : Option (AVFormatContext × Bool) :=
  if 2 ^ 31 ≤ total then none
  else if s.pesBufsize < total then
    if 2 ^ 31 ≤ total + 32 * 1024 then none
    else if realloc then some ({ s with pesBufsize := total + 32 * 1024 }, true)
    else some (s, false)
  else some (s, true)

/-- The branches of H.264 and H.265: they differ in the delimiter `aud` and in when
`vos`, the parameter sets, go in front of the data. The delimiter and the parameter
sets are copied before the room is checked: `none` is also a copy past the end of
`pes_buffer`. -/
def video (aud : List UInt8) (vos : Bool) (realloc : Bool) : Option (AVFormatContext × Payload) :=
  let st := s.streams k
  let s := { s with patPmtCounter := s.patPmtCounter + 1 }
  let front := aud ++ if vos then st.vosData else []
  let s :=
    if vos then { s with streams := update s.streams k { st with firstframeflag := false } } else s
  if s.pesBufsize < front.length then none
  else do
    let (s, ok) ← s.reserve (front.length + pkt.data0.length + pkt.data1.length) realloc
    if ok then
      let s :=
        if s.firstVideoPts then { s with firstVideoPts := false, baseVideoPts := pkt.pts } else s
      let pts ← int64 (pkt.pts - s.baseVideoPts)
      let pts ← int64 (pts * 90)
      some (s, some (front ++ pkt.data0 ++ pkt.data1, pts))
    else some (s, none)

def h264 (realloc : Bool) : Option (AVFormatContext × Payload) :=
  s.video k pkt audH264 ((s.streams k).firstframeflag || pkt.flags == 1) realloc

def h265 (realloc : Bool) : Option (AVFormatContext × Payload) :=
  s.video k pkt audH265
    ((s.streams k).firstframeflag || pkt.data0.getD 4 pkt.past0 == 0x26) realloc

/-- `none` is also a sample rate of zero. -/
def aac (realloc : Bool) : Option (AVFormatContext × Payload) := do
  let st := s.streams k
  let frameLength := pkt.data0.length + pkt.data1.length + adtsHeaderLength
  let (s, ok) ← s.reserve frameLength realloc
  if ok then
    let ticks ← int64 (s.audioFrameNum * 90000 * 1024)
    if st.sampleRate = 0 then none
    else
      some
        ({ s with audioFrameNum := s.audioFrameNum + 1 },
          some (adtsHeader st.channels st.sampleRate frameLength ++ pkt.data0 ++ pkt.data1,
            ticks.tdiv st.sampleRate))
  else some (s, none)

def adpcm (realloc : Bool) : Option (AVFormatContext × Payload) := do
  let (s, ok) ← s.reserve pkt.data0.length realloc
  if ok then
    let pts ← int64 (pkt.pts * 90)
    some ({ s with audioFrameNum := s.audioFrameNum + 1 }, some (pkt.data0, pts))
  else some (s, none)

def ggad (realloc : Bool) : Option (AVFormatContext × Payload) := do
  let (s, ok) ← s.reserve pkt.data0.length realloc
  some (s, if ok then some (pkt.data0, pkt.pts) else none)

/-- The branches of `ts_write_packet`; the last one is an unsupported codec. -/
def payload (realloc : Bool) : Option (AVFormatContext × Payload) :=
  match (s.streams k).codecId with
  | .h264 => s.h264 k pkt realloc
  | .h265 => s.h265 k pkt realloc
  | .aac => s.aac k pkt realloc
  | .adpcm => s.adpcm pkt realloc
  | .ggad => s.ggad pkt realloc
  | .unset => some (s, none)

/-- The stream of a packet, where there may be no video or no audio. -/
def realStrmIdx : Nat :=
  if (!s.vStrmFlag || !s.aStrmFlag) &&
      (pkt.streamIndex == codecTypeText || pkt.streamIndex == codecTypeAudio) then
    pkt.streamIndex - 1
  else pkt.streamIndex

/-- `ts_write_packet`; `none` where the stream does not exist. -/
def writePacket (realloc : Bool) : Option AVFormatContext :=
  let k := s.realStrmIdx pkt
  if maxStreamsInFile ≤ k then none
  else
    (s.payload k pkt realloc).map fun (s, payload) =>
      match payload with
      | none => s
      | some (payload, pts) => s.writePes k payload pts pkt.streamIndex

/-- `Mpeg2tsMuxerWriteVos`; `none` where the stream does not exist. -/
def writeVos (vosData : List UInt8) (idx : Nat) : Option AVFormatContext :=
  if maxStreamsInFile ≤ idx then none
  else some { s with streams := update s.streams idx { s.streams idx with vosData := vosData } }

end AVFormatContext

/-! ## Runs -/

/-- A call of the muxer; `realloc` says whether there is memory for a larger buffer. -/
inductive Input where
  | vos (vosData : List UInt8) (idx : Nat)
  | packet (pkt : AVPacket) (realloc : Bool)
  | trailer

def next (s : AVFormatContext) : Input → Option AVFormatContext
  | .vos vosData idx => s.writeVos vosData idx
  | .packet pkt realloc => s.writePacket pkt realloc
  | .trailer => (s.ring.writeTrailer s.outputBufferMode).map fun r => { s with ring := r }

def machine : Machine AVFormatContext Input := ⟨next⟩

/-- A muxer that was opened and told about the media. -/
def start (mem : Nat → UInt8) (mode : OutputBufferMode) (inf : MediaFileInf) :
    Option AVFormatContext :=
  (muxerOpen mem mode).setAvPara inf

end Melis.Mpeg2ts
