import Melis.Lib.Ring
import Melis.Mpeg2ts.RoundTrip

/-!
# The ring loses nothing

To a file the ring gives its first page when it is full, so it never holds more
than 1024 packets. To a callback it gives what a call wrote at the end of the call:
the packets of a call have to fit in the ring (`lossless_of_fits`). The trailer
counts the packets in 32 bits.
-/

namespace Melis.Mpeg2ts

open Lib Memory Function TransportStream AVFormatContext

variable {r r' : TsCache} {mode : OutputBufferMode} {p : Packet} {ps pending : List Packet}
  {n m i fuel : Nat}

theorem flatten_length (h : ∀ p ∈ ps, p.length = packetSize) :
    ps.flatten.length = ps.length * packetSize := by
  induction ps with
  | nil => rfl
  | cons p ps ih =>
    obtain ⟨hp, hps⟩ := List.forall_mem_cons.mp h
    rw [List.flatten_cons, List.length_append, hp, ih hps, List.length_cons, Nat.succ_mul,
      Nat.add_comm]

namespace TsCache

/-- What was handed out, in a row. -/
def handedBytes (r : TsCache) : List UInt8 := r.handed.flatMap Read.bytes

/-- What is in the ring. -/
def inRing (r : TsCache) : List UInt8 := Ring.read r.cache cacheBytes r.tsReadPtr r.cacheSize

/-- Every read lies inside the ring. -/
def Inside (r : TsCache) : Prop := ∀ h ∈ r.handed, h.offset + h.bytes.length ≤ cacheBytes

/-- The ring holds the packets `pending`. -/
structure Holds (r : TsCache) (pending : List Packet) : Prop where
  len : ∀ p ∈ pending, p.length = packetSize
  size : r.cacheSize = pending.length * packetSize
  readPtr : ∃ j < 8, r.tsReadPtr = j * (tsPacketSize * 128)
  writePtr : r.tsWritePtr = (r.tsReadPtr + r.cacheSize) % cacheBytes
  content : r.inRing = pending.flatten

theorem Holds.store (h : r.Holds pending) (hfit : pending.length < 1024)
    (hp : p.length = packetSize) : (r.store p).Holds (pending ++ [p]) := by
  obtain ⟨j, hj, hread⟩ := h.readPtr
  have hsize : (r.store p).cacheSize = r.cacheSize + packetSize := by
    change u32 (r.cacheSize + tsPacketSize) = _
    have hlt := h.size
    unfold packetSize at hlt
    exact u32_eq (n := r.cacheSize + packetSize) (by unfold packetSize; omega)
  have hwrite : r.tsWritePtr + packetSize ≤ cacheBytes := by
    have hptr := h.writePtr
    rw [h.size, hread] at hptr
    unfold cacheBytes tsPacketSize packetSize at *
    omega
  refine ⟨?_, ?_, ⟨j, hj, hread⟩, ?_, ?_⟩
  · exact List.forall_mem_append.mpr ⟨h.len, List.forall_mem_singleton.mpr hp⟩
  · rw [hsize, h.size, List.length_append, List.length_singleton, Nat.succ_mul]
  · change (if tsCacheEnd < r.tsWritePtr + tsPacketSize then 0 else r.tsWritePtr + tsPacketSize) = _
    rw [hsize]
    change _ = (r.tsReadPtr + (r.cacheSize + packetSize)) % cacheBytes
    have hptr := h.writePtr
    unfold tsCacheEnd cacheBytes tsPacketSize packetSize at *
    split <;> omega
  · have hmem : (r.store p).cache = Ring.write r.cache cacheBytes (r.tsReadPtr + r.cacheSize) p := by
      change memcpy r.cache r.tsWritePtr p = _
      rw [← Ring.write_mod, ← h.writePtr, Ring.write_eq_memcpy (by rw [hp]; exact hwrite)]
    change Ring.read (r.store p).cache cacheBytes r.tsReadPtr (r.store p).cacheSize = _
    rw [hmem, hsize, ← hp, Ring.read_write_append, List.flatten_append, List.flatten_singleton]
    · exact congrArg (· ++ p) h.content
    · rw [hp, h.size]
      unfold cacheBytes tsPacketSize packetSize
      omega

/-- The ring is full: the first 128 packets are handed out. -/
theorem Holds.drain (h : r.Holds pending) (hfull : pending.length = 1024) :
    r.drain.Holds (pending.drop 128) ∧
      r.drain.handed = r.handed ++ [⟨r.tsReadPtr, (pending.take 128).flatten⟩] ∧
      r.tsReadPtr + (pending.take 128).flatten.length ≤ cacheBytes := by
  obtain ⟨j, hj, hread⟩ := h.readPtr
  have hlen : ∀ p ∈ pending.take 128, p.length = packetSize := fun p hp =>
    h.len p (List.mem_of_mem_take hp)
  have htake : (pending.take 128).flatten.length = packetSize * 128 := by
    rw [flatten_length hlen, List.length_take, hfull, Nat.mul_comm]
    rfl
  have hpage : r.tsReadPtr + packetSize * 128 ≤ cacheBytes := by
    rw [hread]
    unfold cacheBytes tsPacketSize packetSize
    omega
  have hsplit : Ring.read r.cache cacheBytes r.tsReadPtr (packetSize * 128) ++
      Ring.read r.cache cacheBytes (r.tsReadPtr + packetSize * 128) (packetSize * 896) =
        (pending.take 128).flatten ++ (pending.drop 128).flatten := by
    rw [← Ring.read_add, ← List.flatten_append, List.take_append_drop, ← h.content]
    unfold inRing
    rw [h.size, hfull]
    rfl
  have hparts := List.append_inj hsplit (by rw [Ring.length_read, htake])
  have hsize : r.drain.cacheSize = packetSize * 896 := by
    change u32 (r.cacheSize - tsPacketSize * 128 : Int) = _
    rw [h.size, hfull]
    rfl
  have hptr : r.drain.tsReadPtr = (r.tsReadPtr + packetSize * 128) % cacheBytes := by
    unfold TsCache.drain hand
    dsimp only
    rw [hread]
    unfold tsCacheEnd cacheBytes tsPacketSize packetSize
    split <;> omega
  refine ⟨⟨fun p hp => h.len p (List.mem_of_mem_drop hp), ?_, ?_, ?_, ?_⟩, ?_, ?_⟩
  · rw [hsize, List.length_drop, hfull]
    rfl
  · rw [hptr, hread]
    refine ⟨(j + 1) % 8, Nat.mod_lt _ (by decide), ?_⟩
    unfold cacheBytes tsPacketSize packetSize
    omega
  · change r.tsWritePtr = _
    rw [h.writePtr, hsize, hptr, h.size, hfull]
    unfold cacheBytes tsPacketSize packetSize
    omega
  · change Ring.read r.cache cacheBytes r.drain.tsReadPtr r.drain.cacheSize = _
    rw [hptr, hsize, Ring.read_mod]
    exact hparts.2
  · change r.handed ++ [⟨r.tsReadPtr, load r.cache (List.range' r.tsReadPtr (packetSize * 128))⟩] = _
    rw [← Ring.read_eq_load hpage, hparts.1]
  · rw [htake]
    exact hpage

/-! ## To a file -/

/-- After `n` packets to a file, those that were not handed out are in the ring. -/
structure Filled (r : TsCache) (n : Nat) : Prop where
  packets : ∃ done pending, r.generated = done ++ pending ∧ r.handedBytes = done.flatten ∧
    r.Holds pending ∧ pending.length < 1024 ∧
      ∃ pages, n = 128 * pages + pending.length ∧ r.cachePageNum = pages % 2 ^ 32
  total : r.cacheSizeTotal = n * packetSize % 2 ^ 64
  inside : r.Inside

theorem handedBytes_append {x : Read} (h : r'.handed = r.handed ++ [x]) :
    r'.handedBytes = r.handedBytes ++ x.bytes := by
  unfold handedBytes
  rw [h, List.flatMap_append, List.flatMap_singleton]

theorem Inside.append {x : Read} (h : r.Inside) (hr : r'.handed = r.handed ++ [x])
    (hx : x.offset + x.bytes.length ≤ cacheBytes) : r'.Inside := by
  unfold Inside
  rw [hr]
  exact List.forall_mem_append.mpr ⟨h, List.forall_mem_singleton.mpr hx⟩

theorem total_store (p : Packet) (h : r.cacheSizeTotal = n * packetSize % 2 ^ 64) :
    (r.store p).cacheSizeTotal = (n + 1) * packetSize % 2 ^ 64 := by
  have hstep : (r.store p).cacheSizeTotal = u64 (r.cacheSizeTotal + packetSize) := rfl
  rw [hstep, h, u64_add, Nat.succ_mul]

theorem Filled.cachePacket (h : r.Filled n) (hp : p.length = packetSize) :
    (r.cachePacket .tsFile p).Filled (n + 1) := by
  obtain ⟨⟨done, pending, hgen, hbytes, hholds, hlt, pages, hn, hpage⟩, htotal, hinside⟩ := h
  have hstore := hholds.store hlt hp
  have hlen : (pending ++ [p]).length = pending.length + 1 := List.length_append
  have hfull : 1024 * tsPacketSize ≤ (r.store p).cacheSize ↔ pending.length + 1 = 1024 := by
    rw [hstore.size, hlen]
    unfold tsPacketSize packetSize
    omega
  unfold TsCache.cachePacket
  dsimp only
  by_cases hcount : pending.length + 1 = 1024
  · obtain ⟨hdrain, hhanded, hread⟩ := hstore.drain (hlen.trans hcount)
    rw [if_pos ⟨by decide, hfull.mpr hcount⟩]
    refine ⟨⟨done ++ (pending ++ [p]).take 128, (pending ++ [p]).drop 128, ?_, ?_, hdrain, ?_,
      pages + 1, ?_, ?_⟩, total_store p htotal, hinside.append hhanded hread⟩
    · rw [List.append_assoc, List.take_append_drop, ← List.append_assoc, ← hgen]
      rfl
    · rw [handedBytes_append hhanded, List.flatten_append, ← hbytes]
      rfl
    · rw [List.length_drop, hlen]
      omega
    · rw [List.length_drop, hlen]
      omega
    · have hstep : ((r.store p).drain).cachePageNum = u32 (r.cachePageNum + (1 : Nat)) := rfl
      rw [hstep, hpage, u32_add]
  · rw [if_neg fun hc => hcount (hfull.mp hc.2)]
    refine ⟨⟨done, pending ++ [p], ?_, hbytes, hstore, ?_, pages, ?_, hpage⟩, total_store p htotal,
      hinside⟩
    · rw [← List.append_assoc, ← hgen]
      rfl
    · rw [hlen]
      omega
    · rw [hlen, hn, Nat.add_assoc]

theorem Filled.cachePackets (h : r.Filled n) (hps : ∀ p ∈ ps, p.length = packetSize) :
    (r.cachePackets .tsFile ps).Filled (n + ps.length) := by
  induction ps generalizing r n with
  | nil => exact h
  | cons p ps ih =>
    obtain ⟨hp, hps⟩ := List.forall_mem_cons.mp hps
    have hrest := ih (h.cachePacket hp) hps
    rw [Nat.add_right_comm, Nat.add_assoc] at hrest
    exact hrest

/-! ## The trailer -/

/-- The loop of the trailer hands out what is left, packet by packet. -/
theorem flushPackets_spec (fuel : Nat) (hlen : ∀ p ∈ pending, p.length = packetSize)
    (hread : ∃ j ≤ 1024, r.tsReadPtr = j * packetSize)
    (hcontent : Ring.read r.cache cacheBytes r.tsReadPtr (pending.length * packetSize) =
      pending.flatten)
    (htotal : r.cacheSizeTotal / packetSize = i + pending.length) (hi : i + pending.length < 2 ^ 32)
    (hfuel : pending.length < fuel) (hinside : r.Inside) :
    ∃ r', flushPackets fuel i r = some r' ∧ r'.generated = r.generated ∧ r'.Inside ∧
      r'.handedBytes = r.handedBytes ++ pending.flatten := by
  induction pending generalizing r i fuel with
  | nil =>
    obtain ⟨fuel, rfl⟩ := Nat.exists_eq_succ_of_ne_zero hfuel.ne'
    refine ⟨r, ?_, rfl, hinside, (List.append_nil _).symm⟩
    unfold flushPackets
    exact if_neg (by rw [show r.cacheSizeTotal / tsPacketSize = _ from htotal]; simp)
  | cons p pending ih =>
    obtain ⟨fuel, rfl⟩ := Nat.exists_eq_succ_of_ne_zero (Nat.ne_zero_of_lt hfuel)
    obtain ⟨hp, hlen⟩ := List.forall_mem_cons.mp hlen
    obtain ⟨j, hj, hptr⟩ := hread
    rw [List.length_cons] at htotal hi hfuel hcontent
    -- the position is wrapped before the packet is read
    have hwrap : (if tsCacheEnd < r.tsReadPtr then 0 else r.tsReadPtr) =
        r.tsReadPtr % cacheBytes := by
      rw [hptr]
      unfold tsCacheEnd cacheBytes tsPacketSize packetSize
      split <;> omega
    have hmod : ∃ j < 1024, r.tsReadPtr % cacheBytes = j * packetSize := by
      refine ⟨j % 1024, Nat.mod_lt _ (by decide), ?_⟩
      rw [hptr]
      unfold cacheBytes tsPacketSize packetSize
      omega
    obtain ⟨j', hj', hmod⟩ := hmod
    have hfit : r.tsReadPtr % cacheBytes + packetSize ≤ cacheBytes := by
      rw [hmod]
      unfold cacheBytes tsPacketSize packetSize
      omega
    rw [Nat.succ_mul, Nat.add_comm, Ring.read_add, List.flatten_cons] at hcontent
    have hparts := List.append_inj hcontent (by rw [Ring.length_read, hp])
    have hhanded : r.flushPacket.handed = r.handed ++ [⟨r.tsReadPtr % cacheBytes, p⟩] := by
      unfold flushPacket hand
      dsimp only
      rw [hwrap]
      change r.handed ++ [⟨_, load r.cache (List.range' _ packetSize)⟩] = _
      rw [← Ring.read_eq_load hfit, Ring.read_mod]
      exact congrArg (fun b => r.handed ++ [Read.mk _ b]) hparts.1
    have hnext : r.flushPacket.tsReadPtr = r.tsReadPtr % cacheBytes + packetSize := by
      unfold flushPacket hand
      dsimp only
      rw [hwrap]
      rfl
    have hrest : Ring.read r.flushPacket.cache cacheBytes r.flushPacket.tsReadPtr
        (pending.length * packetSize) = pending.flatten := by
      rw [hnext, ← Ring.read_mod, Nat.mod_add_mod, Ring.read_mod]
      exact hparts.2
    have hin : r.flushPacket.Inside := hinside.append hhanded (by rw [hp]; exact hfit)
    have hstep : u32 (i + 1) = i + 1 := u32_eq (n := i + 1) (by omega)
    obtain ⟨r', hflush, hgen, hinside', hbytes⟩ := ih (r := r.flushPacket) (i := i + 1) fuel hlen
      ⟨j' + 1, hj', by rw [hnext, hmod, Nat.succ_mul]⟩ hrest
      (htotal.trans (by omega)) (by omega) (Nat.lt_of_succ_lt_succ hfuel) hin
    refine ⟨r', ?_, hgen, hinside', ?_⟩
    · unfold flushPackets
      rw [if_pos (by rw [show r.cacheSizeTotal / tsPacketSize = _ from htotal]; omega), hstep]
      exact hflush
    · rw [hbytes, handedBytes_append hhanded, List.flatten_cons, List.append_assoc]

/-- **The trailer hands out the rest**, if there were fewer than `2 ^ 32` packets. -/
theorem Filled.writeTrailer (h : r.Filled n) (hn : n < 2 ^ 32) :
    ∃ r', r.writeTrailer .tsFile = some r' ∧ r'.Filled 0 ∧ r'.cacheSize = 0 ∧
      r'.generated = r.generated ∧ r'.handedBytes = r.generated.flatten := by
  obtain ⟨⟨done, pending, hgen, hbytes, hholds, hlt, pages, hcount, hpage⟩, htotal, hinside⟩ := h
  have hpages : r.cachePageNum = pages := by
    rw [hpage]
    exact Nat.mod_eq_of_lt (by omega)
  have hstart : u32 (r.cachePageNum * 128) = 128 * pages := by
    rw [hpages]
    exact (u32_eq (n := pages * 128) (by omega)).trans (Nat.mul_comm ..)
  have hall : r.cacheSizeTotal / packetSize = 128 * pages + pending.length := by
    rw [htotal, ← hcount]
    unfold packetSize
    omega
  obtain ⟨j, hj, hread⟩ := hholds.readPtr
  obtain ⟨r', hflush, hgen', hinside', hbytes'⟩ := flushPackets_spec (2 ^ 32 + 1)
    hholds.len ⟨j * 128, by omega, by rw [hread, Nat.mul_assoc, Nat.mul_comm tsPacketSize]; rfl⟩
    (hholds.size ▸ hholds.content) hall (by omega) (by omega) hinside
  refine ⟨r'.reset, ?_, ⟨⟨r'.generated, [], (List.append_nil _).symm, ?_, ?_, by decide, 0, rfl,
    rfl⟩, rfl, hinside'⟩, rfl, hgen', ?_⟩
  · unfold TsCache.writeTrailer
    rw [if_neg (by decide), hstart, hflush]
    rfl
  · rw [hgen', hgen, List.flatten_append, ← hbytes]
    exact hbytes'
  · exact ⟨nofun, rfl, ⟨0, by decide, rfl⟩, rfl, rfl⟩
  · rw [hgen, List.flatten_append, ← hbytes]
    exact hbytes'

/-! ## To a callback -/

/-- Between two calls the ring is empty. -/
structure Idle (r : TsCache) : Prop where
  size : r.cacheSize = 0
  readPtr : r.tsReadPtr = 0
  writePtr : r.tsWritePtr = 0
  bytes : r.handedBytes = r.generated.flatten
  inside : r.Inside

theorem Idle.holds (h : r.Idle) : r.Holds [] where
  len := nofun
  size := h.size
  readPtr := ⟨0, by decide, h.readPtr⟩
  writePtr := by rw [h.writePtr, h.readPtr, h.size]; rfl
  content := by
    unfold inRing
    rw [h.size]
    rfl

theorem cachePacket_callback : r.cachePacket .callbackBuffer p = r.store p := by
  unfold TsCache.cachePacket
  exact if_neg fun h => h.1 rfl

theorem Holds.cachePackets (h : r.Holds pending) (hfit : pending.length + ps.length ≤ 1024)
    (hps : ∀ p ∈ ps, p.length = packetSize) :
    (r.cachePackets .callbackBuffer ps).Holds (pending ++ ps) ∧
      (r.cachePackets .callbackBuffer ps).tsReadPtr = r.tsReadPtr ∧
      (r.cachePackets .callbackBuffer ps).handed = r.handed := by
  induction ps generalizing r pending with
  | nil => exact ⟨by rw [List.append_nil]; exact h, rfl, rfl⟩
  | cons p ps ih =>
    obtain ⟨hp, hps⟩ := List.forall_mem_cons.mp hps
    rw [List.length_cons] at hfit
    have hstore := h.store (by omega) hp
    obtain ⟨hholds, hread, hhanded⟩ := ih hstore (by rw [List.length_append]; simp; omega) hps
    have hcons : r.cachePackets .callbackBuffer (p :: ps) =
        (r.store p).cachePackets .callbackBuffer ps := by
      change (r.cachePacket .callbackBuffer p).cachePackets .callbackBuffer ps = _
      rw [cachePacket_callback]
    rw [hcons]
    rw [List.append_assoc] at hholds
    exact ⟨hholds, hread, hhanded⟩

/-- **A call whose packets fit in the ring hands them out**, in one read. -/
theorem Idle.call (h : r.Idle) (hps : ∀ p ∈ ps, p.length = packetSize) (hfit : ps.length ≤ 1024) :
    ((r.cachePackets .callbackBuffer ps).callback .callbackBuffer).Idle := by
  obtain ⟨hholds, hread, hhanded⟩ := h.holds.cachePackets
    (by rw [List.length_nil, Nat.zero_add]; exact hfit) hps
  have hgen : (r.cachePackets .callbackBuffer ps).generated = r.generated ++ ps :=
    generated_cachePackets
  have hcontent := hholds.content
  have hsize := hholds.size
  rw [List.nil_append] at hcontent hsize
  generalize r.cachePackets .callbackBuffer ps = r' at hread hhanded hgen hcontent hsize ⊢
  rw [h.readPtr] at hread
  have hin : r'.tsReadPtr + r'.cacheSize ≤ cacheBytes := by
    rw [hread, hsize]
    unfold cacheBytes tsPacketSize packetSize
    omega
  have hcall : (r'.callback .callbackBuffer).handed = r.handed ++ [⟨0, ps.flatten⟩] := by
    change r'.handed ++ [⟨r'.tsReadPtr, load r'.cache (List.range' r'.tsReadPtr r'.cacheSize)⟩] = _
    rw [← Ring.read_eq_load hin, hhanded]
    unfold inRing at hcontent
    rw [hcontent, hread]
  have hlen : ps.flatten.length = r'.cacheSize := by rw [flatten_length hps, hsize]
  refine ⟨rfl, rfl, rfl, ?_, h.inside.append hcall ?_⟩
  · rw [handedBytes_append hcall, h.bytes, ← List.flatten_append, ← hgen]
    rfl
  · rw [hlen, ← hread]
    exact hin

theorem handed_cachePackets :
    (r.cachePackets .callbackBuffer ps).handed = r.handed := by
  induction ps generalizing r with
  | nil => rfl
  | cons p ps ih =>
    change ((r.cachePacket .callbackBuffer p).cachePackets .callbackBuffer ps).handed = _
    rw [cachePacket_callback, ih]
    rfl

/-- The size that a call hands out, however many packets it has. -/
theorem cacheSize_cachePackets (hn : r.cacheSize + ps.length * packetSize < 2 ^ 32) :
    (r.cachePackets .callbackBuffer ps).cacheSize = r.cacheSize + ps.length * packetSize := by
  induction ps generalizing r with
  | nil => rfl
  | cons p ps ih =>
    rw [List.length_cons, Nat.succ_mul] at hn
    have hsize : (r.store p).cacheSize = r.cacheSize + packetSize :=
      u32_eq (n := r.cacheSize + packetSize) (by omega)
    change ((r.cachePacket .callbackBuffer p).cachePackets .callbackBuffer ps).cacheSize = _
    rw [cachePacket_callback, ih (by rw [hsize]; omega), hsize, List.length_cons, Nat.succ_mul]
    omega

/-- A call whose packets do not fit in the ring reads past its end. -/
theorem not_inside_call (hsize : r.cacheSize = 0) (hlong : 1024 < ps.length)
    (hn : ps.length * packetSize < 2 ^ 32) :
    ¬ ((r.cachePackets .callbackBuffer ps).callback .callbackBuffer).Inside := by
  have hcount : (r.cachePackets .callbackBuffer ps).cacheSize = ps.length * packetSize := by
    rw [cacheSize_cachePackets (by rw [hsize]; omega), hsize, Nat.zero_add]
  generalize r.cachePackets .callbackBuffer ps = r' at hcount ⊢
  intro h
  have hin := h _ (List.mem_append_right _ (List.mem_singleton_self _))
  change r'.tsReadPtr + (load r'.cache (List.range' r'.tsReadPtr r'.cacheSize)).length ≤ _ at hin
  unfold load at hin
  rw [List.length_map, List.length_range', hcount] at hin
  unfold cacheBytes tsPacketSize packetSize at hin
  omega

end TsCache

/-! ## Runs -/

variable {s s' : AVFormatContext} {j : Input} {is : List Input} {inf : MediaFileInf}
  {mem : Nat → UInt8}

/-- How many TS packets the PES packet of `pkt` takes. -/
def pesCount (s : AVFormatContext) (k : Nat) (pkt : AVPacket) : Nat :=
  let st := s.streams k
  let payload := s.front k pkt ++ s.copied k pkt
  let header := pesHeader st.codecId st.codecType payload.length (s.ptsOf k pkt)
  if payload = [] then 0 else (header.length + payload.length + 183) / 184

/-- To a callback, the packets of a call fit in the ring; to a file, there are fewer
than `2 ^ 32` packets at the trailer. -/
def Fits (s : AVFormatContext) : Input → Prop
  | .packet pkt realloc =>
    let k := s.realStrmIdx pkt
    s.outputBufferMode = .callbackBuffer → s.accepts k pkt realloc →
      s.siDue k pkt + pesCount s k pkt ≤ 1024
  | .trailer => s.outputBufferMode = .tsFile → s.ring.generated.length < 2 ^ 32
  | _ => True

/-- What was handed out and what is in the ring are the packets generated, each read
was inside the ring, a callback has got everything and a file gets it at the trailer. -/
structure Lossless (s : AVFormatContext) : Prop where
  inside : s.ring.Inside
  bytes : s.ring.handedBytes ++ s.ring.inRing = s.ring.generated.flatten
  callback : s.outputBufferMode = .callbackBuffer →
    s.ring.handedBytes = s.ring.generated.flatten
  trailer : s.outputBufferMode = .tsFile → s.ring.generated.length < 2 ^ 32 →
    ∃ s', next s .trailer = some s' ∧ s'.ring.Inside ∧
      s'.ring.generated = s.ring.generated ∧ s'.ring.handedBytes = s.ring.generated.flatten

/-- The invariant of the run. -/
structure Sound (s : AVFormatContext) : Prop where
  running : s.Running
  file : s.outputBufferMode = .tsFile → ∃ n ≤ s.ring.generated.length, s.ring.Filled n
  idle : s.outputBufferMode = .callbackBuffer → s.ring.Idle

theorem AVFormatContext.PesStep.length_pes {pkt : AVPacket} {k : Nat} {si pes : List Packet}
    (h : PesStep s s' k (s.front k pkt ++ s.copied k pkt) (s.ptsOf k pkt) si pes) :
    pes.length = pesCount s k pkt := by
  rw [h.pes_eq]
  unfold pesCount
  dsimp only
  split
  · rename_i hnil
    rw [hnil]
    rfl
  · rename_i hne
    exact length_pesPackets ((length_pesHeader ..).trans (by decide)) (Nat.le_refl _) hne

theorem OutputBufferMode.eq_tsFile {mode : OutputBufferMode} (h : mode ≠ .callbackBuffer) :
    mode = .tsFile := by
  cases mode
  · rfl
  · exact absurd rfl h

theorem Sound.packet {pkt : AVPacket} {realloc : Bool} (h : Sound s)
    (hC : Fits s (.packet pkt realloc)) (hn : next s (.packet pkt realloc) = some s') :
    Sound s' := by
  have hspec := writePacket_spec h.running.setup h.running.tables hn
  unfold Fits at hC
  dsimp only at hspec hC
  by_cases hacc : s.accepts (s.realStrmIdx pkt) pkt realloc
  · rw [if_pos hacc] at hspec
    obtain ⟨si, pes, hstep, hlen⟩ := hspec
    have hps : ∀ p ∈ si ++ pes, p.length = packetSize := fun p hp => (hstep.wellFormed p hp).length
    refine ⟨h.running.next hn, fun hmode => ?_, fun hmode => ?_⟩
    · rw [hstep.kept.mode] at hmode
      obtain ⟨n, hle, hfilled⟩ := h.file hmode
      have hgen : (s.ring.cachePackets .tsFile (si ++ pes)).generated.length =
          s.ring.generated.length + (si ++ pes).length := by
        rw [TsCache.generated_cachePackets, List.length_append]
      rw [hstep.ring, hmode]
      exact ⟨n + (si ++ pes).length, hgen ▸ Nat.add_le_add_right hle _, hfilled.cachePackets hps⟩
    · rw [hstep.kept.mode] at hmode
      have hfit := hC hmode hacc
      rw [← hlen, ← hstep.length_pes, ← List.length_append] at hfit
      rw [hstep.ring, hmode]
      exact (h.idle hmode).call hps hfit
  · rw [if_neg hacc] at hspec
    refine ⟨h.running.next hn, fun hmode => ?_, fun hmode => ?_⟩ <;>
      rw [hspec.kept.mode] at hmode <;> rw [hspec.ring]
    · exact h.file hmode
    · exact h.idle hmode

theorem next_trailer (hmode : s.outputBufferMode = .tsFile) {n : Nat} (h : s.ring.Filled n)
    (hn : n < 2 ^ 32) :
    ∃ s', next s .trailer = some s' ∧ s'.ring.Filled 0 ∧ s'.ring.generated = s.ring.generated ∧
      s'.ring.handedBytes = s.ring.generated.flatten := by
  obtain ⟨r', hr, hfilled, -, hgen, hbytes⟩ := h.writeTrailer hn
  refine ⟨{ s with ring := r' }, ?_, hfilled, hgen, hbytes⟩
  unfold next
  dsimp only
  rw [hmode, hr]
  rfl

theorem Sound.next (h : Sound s) (hC : Fits s j) (hn : next s j = some s') : Sound s' := by
  cases j with
  | packet pkt realloc => exact h.packet hC hn
  | vos vosData idx =>
    have hrun := h.running.next hn
    change (if _ then _ else _) = _ at hn
    split at hn
    · cases hn
    · cases hn
      exact ⟨hrun, h.file, h.idle⟩
  | trailer =>
    refine ⟨h.running.next hn, fun hmode => ?_, fun hmode => ?_⟩
    · obtain ⟨hkept, -⟩ := next_other hn (fun _ _ => nofun)
      rw [hkept.mode] at hmode
      obtain ⟨n, hle, hfilled⟩ := h.file hmode
      obtain ⟨s₁, hs₁, hfilled', -⟩ := next_trailer hmode hfilled (hle.trans_lt (hC hmode))
      cases hs₁.symm.trans hn
      exact ⟨0, Nat.zero_le _, hfilled'⟩
    · obtain ⟨hkept, -⟩ := next_other hn (fun _ _ => nofun)
      rw [hkept.mode] at hmode
      obtain ⟨r, hr, rfl⟩ := Option.map_eq_some_iff.mp hn
      rw [hmode] at hr
      cases hr
      exact h.idle hmode

theorem Sound.lossless (h : Sound s) : Lossless s := by
  by_cases hmode : s.outputBufferMode = .callbackBuffer
  · have hidle := h.idle hmode
    have hempty : s.ring.inRing = [] := by
      unfold TsCache.inRing
      rw [hidle.size]
      rfl
    refine ⟨hidle.inside, ?_, fun _ => hidle.bytes, fun hfile => ?_⟩
    · rw [hempty, List.append_nil, hidle.bytes]
    · rw [hmode] at hfile
      cases hfile
  · have hfile := OutputBufferMode.eq_tsFile hmode
    obtain ⟨n, hle, hfilled⟩ := h.file hfile
    refine ⟨hfilled.inside, ?_, fun hc => absurd hc hmode, fun _ hlt => ?_⟩
    · obtain ⟨done, pending, hgen, hbytes, hholds, -⟩ := hfilled.packets
      rw [hbytes, hholds.content, hgen, List.flatten_append]
    · obtain ⟨s', hs', hfilled', hgen, hbytes⟩ := next_trailer hfile hfilled (hle.trans_lt hlt)
      exact ⟨s', hs', hfilled'.inside, hgen, hbytes⟩

theorem sound_start (h : start mem mode inf = some s) : Sound s := by
  obtain ⟨hring, -⟩ := setAvPara_frame mem mode inf h
  refine ⟨running_start h, fun _ => ⟨0, Nat.zero_le _, ?_⟩, fun _ => ?_⟩
  · rw [hring]
    refine ⟨⟨[], [], rfl, rfl, ?_, by decide, 0, rfl, rfl⟩, rfl, nofun⟩
    exact ⟨nofun, rfl, ⟨0, by decide, rfl⟩, rfl, rfl⟩
  · rw [hring]
    exact ⟨rfl, rfl, rfl, rfl, nofun⟩

/-- A callback gets one read for each packet that is accepted. -/
theorem handed_next (hr : s.Running) (hmode : s.outputBufferMode = .callbackBuffer)
    (h : next s j = some s') :
    s'.ring.handed.length = s.ring.handed.length + (accepted s j).length := by
  cases j with
  | packet pkt realloc =>
    have hspec := writePacket_spec hr.setup hr.tables h
    unfold accepted
    dsimp only at hspec ⊢
    by_cases hacc : s.accepts (s.realStrmIdx pkt) pkt realloc
    · rw [if_pos hacc] at hspec ⊢
      obtain ⟨si, pes, hstep, -⟩ := hspec
      rw [hstep.ring, hmode]
      change List.length ((s.ring.cachePackets .callbackBuffer (si ++ pes)).handed ++ [_]) = _
      rw [TsCache.handed_cachePackets]
      exact List.length_append
    · rw [if_neg hacc] at hspec ⊢
      rw [hspec.ring]
      rfl
  | vos vosData idx =>
    change (if _ then _ else _) = _ at h
    split at h
    · cases h
    · cases h
      rfl
  | trailer =>
    obtain ⟨r, hr, rfl⟩ := Option.map_eq_some_iff.mp h
    rw [hmode] at hr
    cases hr
    rfl

theorem handed_run (hr : s.Running) (hmode : s.outputBufferMode = .callbackBuffer)
    (h : machine.run s is = some s') :
    s'.ring.handed.length = s.ring.handed.length + (sent s is).length := by
  induction is generalizing s with
  | nil =>
    cases h
    rfl
  | cons j is ih =>
    obtain ⟨s₁, h1, h⟩ := Machine.run_cons_eq_some.1 h
    have h1' : next s j = some s₁ := h1
    have hmode' : s₁.outputBufferMode = .callbackBuffer := (next_mode hr h1').trans hmode
    rw [ih (hr.next h1') hmode' h, handed_next hr hmode h1', sent_cons h1', List.length_append,
      Nat.add_assoc]

/-- **Where the packets fit, nothing is lost.** -/
theorem lossless_of_fits (mem : Nat → UInt8) (mode : OutputBufferMode) (inf : MediaFileInf)
    (is : List Input) {s₀ s : AVFormatContext} (h0 : start mem mode inf = some s₀)
    (hm : machine.Meets Fits s₀ is) (hr : machine.run s₀ is = some s) :
    Lossless s ∧ (mode = .callbackBuffer → s.ring.handed.length = (sent s₀ is).length) := by
  obtain ⟨hring, hmode, -⟩ := setAvPara_frame mem mode inf h0
  have hsound := sound_start h0
  refine ⟨(Machine.run_inv (I := Sound) (fun s j s' h hC hn => h.next hC hn) hsound hm
    hr).lossless, fun hcall => ?_⟩
  rw [handed_run hsound.running (hmode.trans hcall) hr, hring]
  exact Nat.zero_add _

theorem lossless_once :
    ∃ s₀ s, start (fun _ => 0) .callbackBuffer camera = some s₀ ∧
      machine.run s₀ [onePacket] = some s ∧ Lossless s ∧
        (OutputBufferMode.callbackBuffer = .callbackBuffer →
          s.ring.handed.length = (sent s₀ [onePacket]).length) := by
  obtain ⟨s₀, s, h0, hr⟩ : ∃ s₀ s, start (fun _ => 0) .callbackBuffer camera = some s₀ ∧
      machine.run s₀ [onePacket] = some s := ⟨_, _, rfl, rfl⟩
  have hm : machine.Meets Fits s₀ [onePacket] := by
    cases h0
    exact ⟨fun _ _ => by decide, fun _ _ => trivial⟩
  exact ⟨s₀, s, h0, hr, lossless_of_fits _ _ _ _ h0 hm hr⟩

theorem startCount_le (s : AVFormatContext) (idx : Nat) : s.startCount idx ≤ 3 := by
  unfold startCount siCount
  split
  · split
    · split <;> split <;> decide
    · split <;> decide
  · decide

/-- The first picture of a stream without parameter sets is written, if it has room. -/
theorem writePacket_first {pkt : AVPacket} {k : Nat} (hk : s.realStrmIdx pkt = k)
    (hlt : k < maxStreamsInFile) (hid : (s.streams k).codecId = .h264)
    (hvos : (s.streams k).vosData = []) (hfirst : s.firstVideoPts)
    (hroom : 6 + pkt.data0.length + pkt.data1.length ≤ s.pesBufsize)
    (hsize : s.pesBufsize < 2 ^ 31) (realloc : Bool) :
    ∃ s', s.writePacket pkt realloc = some s' := by
  have hpay : ∃ x, s.payload k pkt realloc = some x := by
    unfold AVFormatContext.payload
    rw [hid]
    dsimp only
    unfold AVFormatContext.h264 video
    generalize ((s.streams k).firstframeflag || pkt.flags == 1) = v
    have hfront : audH264 ++ (if v then (s.streams k).vosData else []) = audH264 := by
      rw [hvos, ite_self, List.append_nil]
    extract_lets st s₀ fr s₁
    have hlen : fr.length = 6 := congrArg List.length hfront
    have hs : s₁.pesBufsize = s.pesBufsize ∧ s₁.firstVideoPts = s.firstVideoPts := by
      change (if v then _ else s₀).pesBufsize = _ ∧ (if v then _ else s₀).firstVideoPts = _
      split <;> exact ⟨rfl, rfl⟩
    have hres : s₁.reserve (fr.length + pkt.data0.length + pkt.data1.length) realloc =
        some (s₁, true) := by
      unfold reserve
      rw [if_neg (by rw [hlen]; omega), if_neg (by rw [hlen, hs.1]; omega)]
    rw [if_neg (by rw [hlen, hs.1]; omega), hres]
    dsimp only [bind, Option.bind]
    rw [if_pos rfl, hs.2, hfirst, if_pos rfl, Int.sub_self]
    exact ⟨_, rfl⟩
  obtain ⟨x, hx⟩ := hpay
  unfold writePacket
  rw [hk]
  dsimp only
  rw [if_neg (Nat.not_le.mpr hlt), hx]
  exact ⟨_, rfl⟩

/-- A picture of 200000 bytes does not fit in the ring. -/
theorem lossless_broken :
    ¬ ∀ mem mode inf is s₀ s, start mem mode inf = some s₀ → machine.run s₀ is = some s →
      Lossless s := by
  intro h
  obtain ⟨s₀, h0, hid, hvos, hfirst, hbuf, hmode, hsize⟩ : ∃ s₀,
      start (fun _ => 0) .callbackBuffer camera = some s₀ ∧ (s₀.streams 0).codecId = .h264 ∧
      (s₀.streams 0).vosData = [] ∧ s₀.firstVideoPts ∧ s₀.pesBufsize = 512 * 1024 ∧
      s₀.outputBufferMode = .callbackBuffer ∧ s₀.ring.cacheSize = 0 :=
    ⟨_, rfl, rfl, rfl, rfl, rfl, rfl, rfl⟩
  obtain ⟨pkt, hdata, hnone, hidx⟩ : ∃ pkt : AVPacket,
      pkt.data0.length = 200000 ∧ pkt.data1 = [] ∧ pkt.streamIndex = 0 :=
    ⟨⟨0, List.replicate 200000 0, [], 0, 0, 0⟩, List.length_replicate, rfl, rfl⟩
  have hk : s₀.realStrmIdx pkt = 0 := by
    unfold realStrmIdx
    rw [hidx]
    split <;> rfl
  obtain ⟨s, hs⟩ := writePacket_first hk (by decide) hid hvos hfirst
    (by rw [hdata, hnone, hbuf]; decide) (by rw [hbuf]; decide) true
  have hrun : machine.run s₀ [.packet pkt true] = some s := by
    rw [Machine.run_cons]
    exact congrArg (fun o => Option.bind o some) hs
  have hin := (h _ _ _ _ _ _ h0 hrun).inside
  have hspec := writePacket_spec (running_start h0).setup (running_start h0).tables hs
  dsimp only at hspec
  rw [hk, if_pos (by unfold accepts; rw [hid]; exact decide_eq_true ⟨by decide, .inr rfl⟩)] at hspec
  obtain ⟨si, pes, hstep, hsi⟩ := hspec
  have hdue : s₀.siDue 0 pkt ≤ 3 := startCount_le _ _
  have hpayload : (s₀.front 0 pkt ++ s₀.copied 0 pkt).length = 200006 := by
    unfold front vos copied
    simp only [hid, hvos, ite_self, hnone, List.append_nil, List.length_append, hdata]
    rfl
  have hpes : pes.length = pesCount s₀ 0 pkt := hstep.length_pes
  have hhead := length_pesHeader (s₀.streams 0).codecId (s₀.streams 0).codecType
    (s₀.front 0 pkt ++ s₀.copied 0 pkt).length (s₀.ptsOf 0 pkt)
  unfold pesCount at hpes
  dsimp only at hpes
  rw [if_neg (fun hnil => by rw [hnil] at hpayload; cases hpayload)] at hpes
  rw [hpayload] at hpes hhead
  rw [hstep.ring, hmode] at hin
  refine TsCache.not_inside_call hsize ?_ ?_ hin
  · rw [List.length_append]
    omega
  · rw [List.length_append]
    unfold packetSize
    omega

end Melis.Mpeg2ts
