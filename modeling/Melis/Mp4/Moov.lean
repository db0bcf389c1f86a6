import Melis.Mp4.SampleTables

/-!
# `moov`

The boxes of a track around its sample tables, the boxes of the file, and where
`moov` goes: into the space that was reserved at the start of the file if it
fits, else behind the media data.
-/

namespace Melis.Mp4

open Lib

section

variable (mov : MOVContext) (i : StreamIndex)

/-! ## The media -/

def movGetDrefTagSize : UInt32 := 28

def mov_write_dref_tag : Out :=
  .box movGetDrefTagSize (fourcc 'd' 'r' 'e' 'f')
    (.bytes (be32 0 ++ be32 1) ++ .box 0xc (fourcc 'u' 'r' 'l' ' ') (.bytes (be32 1)))

def movGetDinfTagSize : UInt32 := 8 + movGetDrefTagSize

def mov_write_dinf_tag : Out :=
  .box movGetDinfTagSize (fourcc 'd' 'i' 'n' 'f') mov_write_dref_tag

def movGetSmhdTagSize : UInt32 := 16

def mov_write_smhd_tag : Out :=
  .box movGetSmhdTagSize (fourcc 's' 'm' 'h' 'd') (.bytes (be32 0 ++ be16 0 ++ be16 0))

def movGetGminTagSize : UInt32 := 0x18

def mov_write_gmin_tag : Out :=
  .box movGetGminTagSize (fourcc 'g' 'm' 'i' 'n')
    (.bytes (be32 0 ++ be16 0x40 ++ be16 0x8000 ++ be32 0x80008000 ++ be16 0 ++ be16 0))

def movGetGmhdTextTagSize : UInt32 := 0x2c

def mov_write_gmhd_text_tag : Out :=
  .box movGetGmhdTextTagSize (fourcc 't' 'e' 'x' 't')
    (.bytes (be32 0x01000000 ++ be32 0 ++ be32 0 ++ be32 0 ++ be32 0x01000000 ++ be32 0 ++
      be32 0 ++ be32 0 ++ be32 0x400000))

def movGetGmhdTagSize : UInt32 := 8 + movGetGminTagSize + movGetGmhdTextTagSize

def mov_write_gmhd_tag : Out :=
  .box movGetGmhdTagSize (fourcc 'g' 'm' 'h' 'd') (mov_write_gmin_tag ++ mov_write_gmhd_text_tag)

def movGetVmhdTagSize : UInt32 := 0x14

def mov_write_vmhd_tag : Out :=
  .box movGetVmhdTagSize (fourcc 'v' 'm' 'h' 'd') (.bytes (be32 1 ++ be32 0 ++ be32 0))

/-- `hdlr_type` and `descr`. -/
def handler : CodecType → List UInt8 × List UInt8
  | .video => (fourcc 'v' 'i' 'd' 'e', ['V', 'i', 'd', 'e', 'o', 'H', 'a', 'n', 'd', 'l', 'e', 'r'].map
      fun c => UInt8.ofNat c.toNat)
  | .audio => (fourcc 's' 'o' 'u' 'n', ['S', 'o', 'u', 'n', 'd', 'H', 'a', 'n', 'd', 'l', 'e', 'r'].map
      fun c => UInt8.ofNat c.toNat)
  | .text => (fourcc 't' 'e' 'x' 't', ['T', 'e', 'x', 't', 'H', 'a', 'n', 'd', 'l', 'e', 'r'].map
      fun c => UInt8.ofNat c.toNat)

def movGetHdlrTagSize : UInt32 :=
  32 + 1 + .ofNat (handler (mov.tracks i).enc.codec_type).2.length

def mov_write_hdlr_tag : Out :=
  let h := handler (mov.tracks i).enc.codec_type
  .box (movGetHdlrTagSize mov i) (fourcc 'h' 'd' 'l' 'r')
    (.bytes (be32 0 ++ [0, 0, 0, 0] ++ h.1 ++ be32 0 ++ be32 0 ++ be32 0 ++
      [.ofNat h.2.length] ++ h.2))

def movGetMinfTagSize : UInt32 :=
  8 + (match (mov.tracks i).enc.codec_type with
    | .video => movGetVmhdTagSize
    | .audio => movGetSmhdTagSize
    | .text => movGetGmhdTagSize) + movGetDinfTagSize + movGetStblTagSize mov i

def mov_write_minf_tag : Out :=
  .box (movGetMinfTagSize mov i) (fourcc 'm' 'i' 'n' 'f')
    ((match (mov.tracks i).enc.codec_type with
      | .video => mov_write_vmhd_tag
      | .audio => mov_write_smhd_tag
      | .text => mov_write_gmhd_tag) ++ mov_write_dinf_tag ++ mov_write_stbl_tag mov i)

def movGetMdhdTagSize : UInt32 := 0x20

def mov_write_mdhd_tag : Out :=
  let track := mov.tracks i
  .box movGetMdhdTagSize (fourcc 'm' 'd' 'h' 'd')
    (.bytes ([0] ++ be24 0 ++ be32 (.ofInt track.time) ++ be32 (.ofInt track.time) ++
      be32 (.ofInt track.timescale) ++ be32 (.ofInt track.trackDuration) ++ be16 0 ++ be16 0))

def movGetMdiaTagSize : UInt32 :=
  8 + movGetMdhdTagSize + movGetHdlrTagSize mov i + movGetMinfTagSize mov i

def mov_write_mdia_tag : Out :=
  .box (movGetMdiaTagSize mov i) (fourcc 'm' 'd' 'i' 'a')
    (mov_write_mdhd_tag mov i ++ mov_write_hdlr_tag mov i ++ mov_write_minf_tag mov i)

/-! ## The track -/

def globalTimescale : Int := 1000

/-- There is no division by `0`. -/
def av_rescale_rnd (a b c : Int) : Option Int :=
  if c = 0 then none else some ((a * b + c - 1).tdiv c)

/-- `a`, `b`, `c` and `d` of the matrix. -/
def rotation (degrees : Int) : UInt32 × UInt32 × UInt32 × UInt32 :=
  if degrees = 90 then (0, 0x00010000, 0xffff0000, 0)
  else if degrees = 180 then (0xffff0000, 0, 0, 0xffff0000)
  else if degrees = 270 then (0, 0xffff0000, 0x00010000, 0)
  else (0x00010000, 0, 0, 0x00010000)

def movGetTkhdTagSize : UInt32 := 0x5c

def mov_write_tkhd_tag : Out :=
  let track := mov.tracks i
  let m := rotation track.enc.rotate_degree
  .box movGetTkhdTagSize (fourcc 't' 'k' 'h' 'd')
    (match av_rescale_rnd track.trackDuration globalTimescale track.timescale with
    | none => .undef
    | some duration =>
      .bytes ([0] ++ be24 0xf ++ be32 (.ofInt track.time) ++ be32 (.ofInt track.time) ++
        be32 (.ofInt track.trackID) ++ be32 0 ++ be32 (.ofInt duration) ++ be32 0 ++ be32 0 ++
        be32 0 ++ be16 (if track.enc.codec_type = .audio then 0x0100 else 0) ++ be16 0 ++
        be32 m.1 ++ be32 m.2.1 ++ be32 0 ++ be32 m.2.2.1 ++ be32 m.2.2.2 ++ be32 0 ++ be32 0 ++
        be32 0 ++ be32 0x40000000 ++
        (if track.enc.codec_type = .video then
          be32 (.ofInt (track.enc.width * 0x10000)) ++ be32 (.ofInt (track.enc.height * 0x10000))
        else be32 0 ++ be32 0)))

def movGetTrakTagSize : UInt32 := 8 + movGetTkhdTagSize + movGetMdiaTagSize mov i

def mov_write_trak_tag : Out :=
  .box (movGetTrakTagSize mov i) (fourcc 't' 'r' 'a' 'k')
    (mov_write_tkhd_tag mov i ++ mov_write_mdia_tag mov i)

end

section

variable (mov : MOVContext)

/-! ## The file -/

/-- The streams, in the order of the loops over them. -/
def streams : List StreamIndex := (List.finRange 3).filter fun i => i < mov.nb_streams

def movGetMvhdTagSize : UInt32 := 108

def mov_write_mvhd_tag : Out :=
  let maxTrackID := (streams mov).foldl (fun m i => max m (mov.tracks i).trackID) 1
  .box movGetMvhdTagSize (fourcc 'm' 'v' 'h' 'd')
    (.bytes ([0] ++ be24 0 ++ be32 (.ofInt mov.create_time) ++ be32 (.ofInt mov.create_time) ++
      be32 (.ofInt mov.timescale) ++ be32 (.ofInt (mov.tracks 0).trackDuration) ++
      be32 0x00010000 ++ be16 0x0100 ++ be16 0 ++ be32 0 ++ be32 0 ++
      be32 0x00010000 ++ be32 0 ++ be32 0 ++ be32 0 ++ be32 0x00010000 ++ be32 0 ++ be32 0 ++
      be32 0 ++ be32 0x40000000 ++
      be32 0 ++ be32 0 ++ be32 0 ++ be32 0 ++ be32 0 ++ be32 0 ++ be32 (.ofInt (maxTrackID + 1))))

/-- The decimal digits of `n`, at least `prec` of them. -/
def decimal (prec n : Nat) : List UInt8 :=
  ((Nat.toDigits 10 n).leftpad prec '0').map fun c => UInt8.ofNat c.toNat

/-- `writeLatitude` and `writeLongitude`, with two and three digits before the point: the
sign and these digits and the point, cut to the room for them, and four digits. -/
def writeDegrees (digits : Nat) (degreex10000 : Int) : List UInt8 :=
  let wholePart := degreex10000.tdiv 10000
  let fractionalPart := (degreex10000 - wholePart * 10000).natAbs
  let sign : UInt8 := if degreex10000 < 0 then 0x2d else 0x2b
  (([sign] ++ decimal digits wholePart.natAbs ++ [0x2e]).take (digits + 2) ++
    (decimal 4 fractionalPart).take 4)

def movGetUdtaTagSize : UInt32 := 4 + 4 + 4 + 4 + 4 + 8 + 9 + 1

def mov_write_udta_tag : Out :=
  .box movGetUdtaTagSize (fourcc 'u' 'd' 't' 'a')
    (.box (movGetUdtaTagSize - 8) [0xa9, 0x78, 0x79, 0x7a]
      (.bytes (be32 0x001215c7 ++ writeDegrees 2 mov.latitudex10000 ++
        writeDegrees 3 mov.longitudex10000 ++ [0x2f])))

def movGetGpsTagSize : UInt32 := 8 + 8 + .ofNat mov.gps_entry_buff_wt * 8

def mov_write_gps_tag : Out :=
  .box (movGetGpsTagSize mov) (fourcc 'g' 'p' 's' ' ')
    (.bytes (be32 0x00000101 ++ be32 (.ofNat mov.gps_entry_buff_wt)) ++
      match mov.gps_entry_buff with
      | none => if mov.gps_entry_buff_wt = 0 then ∅ else .undef
      | some es =>
        .bytes ((List.range mov.gps_entry_buff_wt).flatMap fun k =>
          be32 (es k).gps_data_pos ++ be32 (es k).gps_data_len_hold))

/-- The tracks that are written. -/
def writtenTracks : List StreamIndex :=
  (streams mov).filter fun i => 0 < mov.size .stsz i

def movGetMoovTagSize : UInt32 :=
  8 + (if mov.geo_available ∧ mov.gps_pack_method = .inTrack then movGetUdtaTagSize else 0) +
    movGetMvhdTagSize + ((writtenTracks mov).map (movGetTrakTagSize mov)).sum +
    if mov.geo_available ∧ mov.gps_pack_method = .inMdat then movGetGpsTagSize mov else 0

/-- What is set in the tracks before they are written. -/
def prepareTracks : MOVContext :=
  { mov with
    timescale := globalTimescale
    tracks := fun i =>
      { mov.tracks i with
        time := if i < mov.nb_streams then mov.create_time else (mov.tracks i).time
        trackID := if i < mov.nb_streams then i.val + 1 else (mov.tracks i).trackID } }

/-- The box that `mov_write_moov_tag` writes. -/
def moovBox : Out :=
  let m := prepareTracks mov
  .box (movGetMoovTagSize mov) (fourcc 'm' 'o' 'o' 'v')
    ((if mov.geo_available ∧ mov.gps_pack_method = .inTrack then mov_write_udta_tag m else ∅) ++
      mov_write_mvhd_tag m ++
      .concat ((writtenTracks m).map (mov_write_trak_tag m)) ++
      if mov.geo_available ∧ mov.gps_pack_method = .inMdat then mov_write_gps_tag m else ∅)

def put (mov : MOVContext) (b : List UInt8) : MOVContext := { mov with pb := mov.pb.write b }

def seek (mov : MOVContext) (pos : Nat) : MOVContext :=
  { mov with pb := (mov.pb.seek pos 0).1 }

/-- The header of a `free` box; its contents are not written. -/
def freeHeader (size : UInt32) : List UInt8 := be32 size ++ fourcc 'f' 'r' 'e' 'e'

/-- `moov_size` is an `int`. -/
def moovFits : Prop := (movGetMoovTagSize mov).toInt32.toInt + 28 + 8 ≤ MOV_HEADER_RESERVE_SIZE

instance : Decidable (moovFits mov) := inferInstanceAs (Decidable (_ ≤ _))

def mov_write_moov_tag : MOVContext :=
  if moovFits mov then
    put (put (seek mov 28) (moovBox mov).emit)
      (freeHeader (.ofNat MOV_HEADER_RESERVE_SIZE - movGetMoovTagSize mov - 28))
  else put mov (moovBox mov).emit

def mov_write_ftyp_tag : Out :=
  .box 28 (fourcc 'f' 't' 'y' 'p')
    (.bytes (fourcc 'i' 's' 'o' 'm' ++ be32 0x200 ++ fourcc 'i' 's' 'o' 'm' ++
      fourcc 'i' 's' 'o' '2' ++ fourcc 'm' 'p' '4' '1'))

/-- The size is filled in at the end. -/
def mov_write_mdat_tag : MOVContext :=
  put (seek mov MOV_HEADER_RESERVE_SIZE) (be32 0 ++ fourcc 'm' 'd' 'a' 't')

def mov_write_header : MOVContext :=
  mov_write_mdat_tag
    (put
      { put mov mov_write_ftyp_tag.emit with
        tracks := fun i => { mov.tracks i with tag := mov_find_codec_tag (mov.tracks i).enc } }
      (freeHeader (.ofNat MOV_HEADER_RESERVE_SIZE - 28)))

end

end Melis.Mp4
