import Melis.Mpeg2ts.Muxer

/-!
# The packets between the PES packets: PAT, PMT and PCR
-/

namespace Melis.Mpeg2ts

open Lib Memory Function TransportStream

/-- The table of `GenerateCRC32`. -/
def crcTable : List UInt32 :=
  [0x00000000, 0x04c11db7, 0x09823b6e, 0x0d4326d9, 0x130476dc, 0x17c56b6b, 0x1a864db2, 0x1e475005,
   0x2608edb8, 0x22c9f00f, 0x2f8ad6d6, 0x2b4bcb61, 0x350c9b64, 0x31cd86d3, 0x3c8ea00a, 0x384fbdbd,
   0x4c11db70, 0x48d0c6c7, 0x4593e01e, 0x4152fda9, 0x5f15adac, 0x5bd4b01b, 0x569796c2, 0x52568b75,
   0x6a1936c8, 0x6ed82b7f, 0x639b0da6, 0x675a1011, 0x791d4014, 0x7ddc5da3, 0x709f7b7a, 0x745e66cd,
   0x9823b6e0, 0x9ce2ab57, 0x91a18d8e, 0x95609039, 0x8b27c03c, 0x8fe6dd8b, 0x82a5fb52, 0x8664e6e5,
   0xbe2b5b58, 0xbaea46ef, 0xb7a96036, 0xb3687d81, 0xad2f2d84, 0xa9ee3033, 0xa4ad16ea, 0xa06c0b5d,
   0xd4326d90, 0xd0f37027, 0xddb056fe, 0xd9714b49, 0xc7361b4c, 0xc3f706fb, 0xceb42022, 0xca753d95,
   0xf23a8028, 0xf6fb9d9f, 0xfbb8bb46, 0xff79a6f1, 0xe13ef6f4, 0xe5ffeb43, 0xe8bccd9a, 0xec7dd02d,
   0x34867077, 0x30476dc0, 0x3d044b19, 0x39c556ae, 0x278206ab, 0x23431b1c, 0x2e003dc5, 0x2ac12072,
   0x128e9dcf, 0x164f8078, 0x1b0ca6a1, 0x1fcdbb16, 0x018aeb13, 0x054bf6a4, 0x0808d07d, 0x0cc9cdca,
   0x7897ab07, 0x7c56b6b0, 0x71159069, 0x75d48dde, 0x6b93dddb, 0x6f52c06c, 0x6211e6b5, 0x66d0fb02,
   0x5e9f46bf, 0x5a5e5b08, 0x571d7dd1, 0x53dc6066, 0x4d9b3063, 0x495a2dd4, 0x44190b0d, 0x40d816ba,
   0xaca5c697, 0xa864db20, 0xa527fdf9, 0xa1e6e04e, 0xbfa1b04b, 0xbb60adfc, 0xb6238b25, 0xb2e29692,
   0x8aad2b2f, 0x8e6c3698, 0x832f1041, 0x87ee0df6, 0x99a95df3, 0x9d684044, 0x902b669d, 0x94ea7b2a,
   0xe0b41de7, 0xe4750050, 0xe9362689, 0xedf73b3e, 0xf3b06b3b, 0xf771768c, 0xfa325055, 0xfef34de2,
   0xc6bcf05f, 0xc27dede8, 0xcf3ecb31, 0xcbffd686, 0xd5b88683, 0xd1799b34, 0xdc3abded, 0xd8fba05a,
   0x690ce0ee, 0x6dcdfd59, 0x608edb80, 0x644fc637, 0x7a089632, 0x7ec98b85, 0x738aad5c, 0x774bb0eb,
   0x4f040d56, 0x4bc510e1, 0x46863638, 0x42472b8f, 0x5c007b8a, 0x58c1663d, 0x558240e4, 0x51435d53,
   0x251d3b9e, 0x21dc2629, 0x2c9f00f0, 0x285e1d47, 0x36194d42, 0x32d850f5, 0x3f9b762c, 0x3b5a6b9b,
   0x0315d626, 0x07d4cb91, 0x0a97ed48, 0x0e56f0ff, 0x1011a0fa, 0x14d0bd4d, 0x19939b94, 0x1d528623,
   0xf12f560e, 0xf5ee4bb9, 0xf8ad6d60, 0xfc6c70d7, 0xe22b20d2, 0xe6ea3d65, 0xeba91bbc, 0xef68060b,
   0xd727bbb6, 0xd3e6a601, 0xdea580d8, 0xda649d6f, 0xc423cd6a, 0xc0e2d0dd, 0xcda1f604, 0xc960ebb3,
   0xbd3e8d7e, 0xb9ff90c9, 0xb4bcb610, 0xb07daba7, 0xae3afba2, 0xaafbe615, 0xa7b8c0cc, 0xa379dd7b,
   0x9b3660c6, 0x9ff77d71, 0x92b45ba8, 0x9675461f, 0x8832161a, 0x8cf30bad, 0x81b02d74, 0x857130c3,
   0x5d8a9099, 0x594b8d2e, 0x5408abf7, 0x50c9b640, 0x4e8ee645, 0x4a4ffbf2, 0x470cdd2b, 0x43cdc09c,
   0x7b827d21, 0x7f436096, 0x7200464f, 0x76c15bf8, 0x68860bfd, 0x6c47164a, 0x61043093, 0x65c52d24,
   0x119b4be9, 0x155a565e, 0x18197087, 0x1cd86d30, 0x029f3d35, 0x065e2082, 0x0b1d065b, 0x0fdc1bec,
   0x3793a651, 0x3352bbe6, 0x3e119d3f, 0x3ad08088, 0x2497d08d, 0x2056cd3a, 0x2d15ebe3, 0x29d4f654,
   0xc5a92679, 0xc1683bce, 0xcc2b1d17, 0xc8ea00a0, 0xd6ad50a5, 0xd26c4d12, 0xdf2f6bcb, 0xdbee767c,
   0xe3a1cbc1, 0xe760d676, 0xea23f0af, 0xeee2ed18, 0xf0a5bd1d, 0xf464a0aa, 0xf9278673, 0xfde69bc4,
   0x89b8fd09, 0x8d79e0be, 0x803ac667, 0x84fbdbd0, 0x9abc8bd5, 0x9e7d9662, 0x933eb0bb, 0x97ffad0c,
   0xafb010b1, 0xab710d06, 0xa6322bdf, 0xa2f33668, 0xbcb4666d, 0xb8757bda, 0xb5365d03, 0xb1f740b4]

def generateCRC32 (buf : List UInt8) : UInt32 :=
  buf.foldl
    (fun crc b => crc <<< 8 ^^^ crcTable.getD (((crc >>> 24) ^^^ b.toUInt32) &&& 0xff).toNat 0)
    0xffffffff

def put16 (val : Nat) : List UInt8 := [.ofNat (val >>> 8), .ofNat val]

/-- The bytes of a section with its CRC, for the tables made here. -/
def sectionBytes (tid id version secNum lastSecNum : Nat) (data : List UInt8) : List UInt8 :=
  let buf :=
    [.ofNat tid] ++ put16 (0xb000 ||| (data.length + 5 + 4)) ++ put16 id ++
      [.ofNat (0xc1 ||| version <<< 1), .ofNat secNum, .ofNat lastSecNum] ++ data
  let crc := generateCRC32 buf
  buf ++ [(crc >>> 24).toUInt8, (crc >>> 16).toUInt8, (crc >>> 8).toUInt8, crc.toUInt8]

/-- The four bytes that begin a TS packet with payload. -/
def tsHeader (pid cc : Nat) (start adaptation : Bool) : List UInt8 :=
  [0x47, .ofNat (pid >>> 8 ||| if start then 0x40 else 0), .ofNat pid,
    .ofNat (0x10 ||| cc ||| if adaptation then 0x20 else 0)]

/-- The packet that `mpegts_write_section` makes of what is left of a section. -/
def sectionPacket (pid cc : Nat) (first : Bool) (buf : List UInt8) : Packet :=
  let q := tsHeader pid cc first false ++ if first then [0] else []
  let len1 := min (tsPacketSize - q.length) buf.length
  q ++ buf.take len1 ++ List.replicate (tsPacketSize - q.length - len1) 0xff

/-- The two sections; each has its own counter. -/
inductive Table where
  | pat
  | pmt
  deriving DecidableEq

namespace AVFormatContext

variable (s : AVFormatContext)

def table : Table → MpegTSSection
  | .pat => s.pat
  | .pmt => s.pmt

def setCc (t : Table) (cc : Nat) : AVFormatContext :=
  match t with
  | .pat => { s with pat := { s.pat with cc := cc } }
  | .pmt => { s with pmt := { s.pmt with cc := cc } }

/-- The loop of `mpegts_write_section`, over `n` bytes at most. -/
def sectionLoop (t : Table) (n : Nat) (first : Bool) (buf : List UInt8) (s : AVFormatContext) :
    AVFormatContext :=
  match n with
  | 0 => s
  | n + 1 =>
    if buf = [] then s
    else
      let cc := ((s.table t).cc + 1) &&& 0xf
      let len1 := min (tsPacketSize - if first then 5 else 4) buf.length
      sectionLoop t n false (buf.drop len1)
        ((s.setCc t cc).cachePacket (sectionPacket (s.table t).pid cc first buf))

/-- `mpegts_write_section1`; a section of more than 1024 bytes is not written. -/
def writeSection (t : Table) (tid id version secNum lastSecNum : Nat) (data : List UInt8) :
    AVFormatContext :=
  if 1024 < 3 + 5 + data.length + 4 then s
  else
    let buf := sectionBytes tid id version secNum lastSecNum data
    s.sectionLoop t buf.length true buf

def writePat : AVFormatContext :=
  s.writeSection .pat 0x00 s.tsid 1 0 0 (put16 s.sid ++ put16 (0xe000 ||| s.pmt.pid))

/-- The stream type of a codec; a codec that has none keeps the one before it. -/
def streamType (codecId : CodecID) (last : UInt8) : UInt8 :=
  match codecId with
  | .h264 => 0x1b
  | .h265 => 0x24
  | .aac => 0x0f
  | .adpcm => 0x83
  | .ggad => 0x06
  | .unset => last

/-- The entries of streams `i` to `i + n` in the PMT. -/
def pmtStreams (i n : Nat) (last : UInt8) : List UInt8 :=
  match n with
  | 0 => []
  | n + 1 =>
    let st := s.streams i
    let type := streamType st.codecId last
    let desc : List UInt8 := if type = 0x83 then [0x83, 0x02, 0x46, 0x3f] else []
    [type] ++ put16 (0xe000 ||| st.pid) ++ put16 (0xf000 ||| desc.length) ++ desc ++
      pmtStreams (i + 1) n type

def writePmt : AVFormatContext :=
  s.writeSection .pmt 0x02 s.sid 1 0 0
    (put16 (0xe000 ||| s.pcrPid) ++ put16 0xf000 ++ s.pmtStreams 0 s.nbStreams 0xff)

def pcrPacket (pcrCounter : Nat) (pcr : Int) : Packet :=
  [0x47, 0x50, 0x00, .ofNat (0x20 ||| pcrCounter), 0xb7, 0x10, .ofNat (bits pcr 25 8),
    .ofNat (bits pcr 17 8), .ofNat (bits pcr 9 8), .ofNat (bits pcr 1 8),
    .ofNat (bits pcr 0 1 <<< 7), 0] ++ List.replicate 176 0xff

/-- `wirte_pcr_table`. -/
def writePcrTable (pts : Int) : AVFormatContext :=
  { s with pcrCounter := (s.pcrCounter + 1) &&& 0x0f }.cachePacket (pcrPacket s.pcrCounter pts)

def retransmitSiInfo (pts : Int) (idx : Nat) : AVFormatContext :=
  if s.outputBufferMode = .callbackBuffer then
    let s :=
      if s.patPmtCounter = 4 ∨ s.patPmtFlag then
        { s with patPmtCounter := 0, patPmtFlag := false }.writePat.writePmt
      else s
    if idx = codecTypeVideo then s.writePcrTable pts else s
  else if s.patPacketCount = s.patPacketPeriod then
    { s with patPacketCount := 0 }.writePat.writePmt.writePcrTable pts
  else s

end AVFormatContext

end Melis.Mpeg2ts
