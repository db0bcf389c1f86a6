import Melis.Mpeg2ts.WritePacket

/-!
# The TS packets of a section and of a PES packet

`sectionPackets` and `pesPackets` are the packets that the two loops write, as
lists; a receiver reads their PID, their counters and their payload as they were
meant.
-/

namespace Melis.Mpeg2ts

open Lib Memory Function TransportStream

variable {pid cc n : Nat} {start adaptation first isStart : Bool}
  {rest buf header payload : List UInt8} {p : Packet}

/-! ## One packet -/

theorem length_tsHeader : (tsHeader pid cc start adaptation).length = 4 := rfl

theorem tsHeader_pid (hpid : pid < 2 ^ 13) :
    Packet.pid (tsHeader pid cc start adaptation ++ rest) = pid := by
  have hhigh : ∀ a < 32, ∀ b : Bool,
      (UInt8.ofNat (a ||| if b then 0x40 else 0) &&& 0x1f).toNat = a := by decide
  change (UInt8.ofNat (pid >>> 8 ||| if start then 0x40 else 0) &&& 0x1f).toNat * 256 +
    (UInt8.ofNat pid).toNat = pid
  have hlt : pid >>> 8 < 32 := by
    rw [Nat.shiftRight_eq_div_pow]
    omega
  rw [hhigh _ hlt, Nat.shiftRight_eq_div_pow, UInt8.toNat_ofNat']
  omega

theorem tsHeader_unitStart (hpid : pid < 2 ^ 13) :
    Packet.unitStart (tsHeader pid cc start adaptation ++ rest) = start := by
  have hhigh : ∀ a < 32, ∀ b : Bool,
      (UInt8.ofNat (a ||| if b then 0x40 else 0) &&& 0x40 != 0) = b := by decide
  apply hhigh
  rw [Nat.shiftRight_eq_div_pow]
  omega

theorem tsHeader_hasPayload (hcc : cc < 16) :
    Packet.hasPayload (tsHeader pid cc start adaptation ++ rest) = true := by
  have hflags : ∀ c < 16, ∀ b : Bool,
      (UInt8.ofNat (0x10 ||| c ||| if b then 0x20 else 0) &&& 0x10 != 0) = true := by decide
  exact hflags cc hcc adaptation

theorem tsHeader_hasAdaptation (hcc : cc < 16) :
    Packet.hasAdaptation (tsHeader pid cc start adaptation ++ rest) = adaptation := by
  have hflags : ∀ c < 16, ∀ b : Bool,
      (UInt8.ofNat (0x10 ||| c ||| if b then 0x20 else 0) &&& 0x20 != 0) = b := by decide
  exact hflags cc hcc adaptation

theorem tsHeader_counter (hcc : cc < 16) :
    Packet.counter (tsHeader pid cc start adaptation ++ rest) = cc := by
  have hflags : ∀ c < 16, ∀ b : Bool,
      (UInt8.ofNat (0x10 ||| c ||| if b then 0x20 else 0) &&& 0x0f).toNat = c := by decide
  exact hflags cc hcc adaptation

theorem and_0xf (n : Nat) : n &&& 0xf = n % 16 := Nat.and_two_pow_sub_one_eq_mod n 4

theorem and_0xf_lt (n : Nat) : n &&& 0xf < 16 := by
  rw [and_0xf]
  omega

theorem length_stuffing (n : Nat) : (stuffing n).length = n := by
  unfold stuffing
  split
  · split <;> simp <;> omega
  · simp
    omega

theorem length_pesPacket (h : header.length ≤ 184) :
    (pesPacket pid cc isStart header payload).length = packetSize := by
  unfold pesPacket payloadLen tsPacketSize packetSize
  simp only [List.length_append, length_tsHeader, length_stuffing, List.length_take]
  omega

/-- A receiver finds the header and the payload behind the adaptation field. -/
theorem pesPacket_payload (hcc : cc < 16) (h : header.length ≤ 184) :
    (pesPacket pid cc isStart header payload).payload =
      header ++ payload.take (payloadLen header.length payload.length) := by
  unfold pesPacket
  extract_lets len stuffingLen
  rw [List.append_assoc, List.append_assoc]
  unfold Packet.payload
  rw [tsHeader_hasAdaptation hcc]
  have hlen : stuffingLen ≤ 184 := by
    change tsPacketSize - (4 + header.length) - len ≤ 184
    unfold tsPacketSize packetSize
    omega
  by_cases hpos : 0 < stuffingLen
  · rw [decide_eq_true hpos, if_pos rfl]
    have hbyte : (stuffing stuffingLen).getD 0 0 = .ofNat (stuffingLen - 1) := by
      unfold stuffing
      rw [if_pos hpos]
      rfl
    have hfield : List.getD (tsHeader pid cc isStart true ++ (stuffing stuffingLen ++
        (header ++ payload.take len))) 4 0 = .ofNat (stuffingLen - 1) := by
      rw [← hbyte]
      unfold stuffing
      rw [if_pos hpos]
      rfl
    have hdrop : 5 + (UInt8.ofNat (stuffingLen - 1)).toNat =
        (tsHeader pid cc isStart true).length + (stuffing stuffingLen).length := by
      rw [length_tsHeader, length_stuffing, UInt8.toNat_ofNat', Nat.mod_eq_of_lt] <;> omega
    rw [hfield, hdrop, ← List.drop_drop, List.drop_left, List.drop_left]
  · have hzero : stuffingLen = 0 := by omega
    have hnil : stuffing stuffingLen = [] := by
      rw [hzero]
      rfl
    rw [decide_eq_false hpos, if_neg Bool.false_ne_true, hnil]
    rfl

theorem length_sectionPacket : (sectionPacket pid cc first buf).length = packetSize := by
  unfold sectionPacket
  extract_lets q len1
  have hq : q.length ≤ 5 := by
    cases first
    · exact Nat.le_succ 4
    · exact Nat.le_refl 5
  have hfit : len1 ≤ 188 - q.length := Nat.min_le_left ..
  have hbuf : len1 ≤ buf.length := Nat.min_le_right ..
  rw [List.length_append, List.length_append, List.length_take, List.length_replicate,
    Nat.min_eq_left hbuf]
  change q.length + len1 + (188 - q.length - len1) = 188
  omega

/-! ## The packets of a loop -/

/-- What `pesLoop` writes, from the counter `cc` on. -/
def pesPackets (pid cc n : Nat) (isStart : Bool) (header payload : List UInt8) : List Packet :=
  match n with
  | 0 => []
  | n + 1 =>
    if payload = [] then []
    else
      let cc := (cc + 1) &&& 0xf
      pesPacket pid cc isStart header payload ::
        pesPackets pid cc n false [] (payload.drop (payloadLen header.length payload.length))

/-- What `sectionLoop` writes, from the counter `cc` on. -/
def sectionPackets (pid cc n : Nat) (first : Bool) (buf : List UInt8) : List Packet :=
  match n with
  | 0 => []
  | n + 1 =>
    if buf = [] then []
    else
      let cc := (cc + 1) &&& 0xf
      sectionPacket pid cc first buf ::
        sectionPackets pid cc n false
          (buf.drop (min (tsPacketSize - if first then 5 else 4) buf.length))

/-- What a receiver sees of a packet that the muxer writes. -/
structure Sent (pid cc : Nat) (start : Bool) (p : Packet) : Prop where
  wellFormed : p.WellFormed
  pid : p.pid = pid
  start : p.unitStart = start
  hasPayload : p.hasPayload
  counter : p.counter = cc

/-- Packets of one PID, the counters going on from `cc`. -/
structure Counted (pid cc : Nat) (ps : List Packet) : Prop where
  wellFormed : ∀ p ∈ ps, p.WellFormed
  ofPid : ∀ p ∈ ps, p.pid = pid ∧ p.hasPayload
  counts : Counts cc ps

theorem sent_tsHeader (hpid : pid < 2 ^ 13) (hcc : cc < 16)
    (hlen : (tsHeader pid cc start adaptation ++ rest).length = packetSize) :
    Sent pid cc start (tsHeader pid cc start adaptation ++ rest) :=
  ⟨⟨hlen, rfl⟩, tsHeader_pid hpid, tsHeader_unitStart hpid, tsHeader_hasPayload hcc,
    tsHeader_counter hcc⟩

theorem sent_pesPacket (hpid : pid < 2 ^ 13) (hcc : cc < 16) (h : header.length ≤ 184) :
    Sent pid cc isStart (pesPacket pid cc isStart header payload) := by
  have hlen : (pesPacket pid cc isStart header payload).length = packetSize := length_pesPacket h
  unfold pesPacket at hlen ⊢
  rw [List.append_assoc, List.append_assoc] at hlen ⊢
  exact sent_tsHeader hpid hcc hlen

theorem sent_sectionPacket (hpid : pid < 2 ^ 13) (hcc : cc < 16) :
    Sent pid cc first (sectionPacket pid cc first buf) := by
  have hlen : (sectionPacket pid cc first buf).length = packetSize := length_sectionPacket
  unfold sectionPacket at hlen ⊢
  extract_lets at hlen ⊢
  rw [List.append_assoc, List.append_assoc] at hlen ⊢
  exact sent_tsHeader hpid hcc hlen

namespace Counted

variable {ps : List Packet}

theorem nil : Counted pid cc [] := ⟨nofun, nofun, trivial⟩

theorem cons (hp : Sent pid ((cc + 1) &&& 0xf) start p) (hps : Counted pid ((cc + 1) &&& 0xf) ps) :
    Counted pid cc (p :: ps) where
  wellFormed := List.forall_mem_cons.mpr ⟨hp.wellFormed, hps.wellFormed⟩
  ofPid := List.forall_mem_cons.mpr ⟨⟨hp.pid, hp.hasPayload⟩, hps.ofPid⟩
  counts := by
    refine ⟨hp.counter.trans (and_0xf _), ?_⟩
    rw [hp.counter]
    exact hps.counts

end Counted

theorem counted_pesPackets (hpid : pid < 2 ^ 13) (h : header.length ≤ 184) :
    Counted pid cc (pesPackets pid cc n isStart header payload) := by
  induction n generalizing cc isStart header payload with
  | zero => exact .nil
  | succ n ih =>
    unfold pesPackets
    split
    · exact .nil
    · exact .cons (sent_pesPacket hpid (and_0xf_lt _) h) (ih (Nat.zero_le _))

theorem counted_sectionPackets (hpid : pid < 2 ^ 13) :
    Counted pid cc (sectionPackets pid cc n first buf) := by
  induction n generalizing cc first buf with
  | zero => exact .nil
  | succ n ih =>
    unfold sectionPackets
    split
    · exact .nil
    · exact .cons (sent_sectionPacket hpid (and_0xf_lt _)) ih

/-! ## The unit -/

theorem payloadLen_pos (h : header.length ≤ 183) (hne : payload ≠ []) :
    0 < payloadLen header.length payload.length := by
  have hpos := List.length_pos_iff.mpr hne
  unfold payloadLen tsPacketSize packetSize
  omega

/-- Behind the first packet no packet starts a unit, and the payloads are the rest. -/
theorem pesPackets_more (hpid : pid < 2 ^ 13) (hn : payload.length ≤ n) :
    (∀ p ∈ pesPackets pid cc n false [] payload, p.unitStart = false) ∧
      (pesPackets pid cc n false [] payload).flatMap Packet.payload = payload := by
  induction n generalizing cc payload with
  | zero =>
    rw [List.length_eq_zero_iff.mp (Nat.le_zero.mp hn)]
    exact ⟨nofun, rfl⟩
  | succ n ih =>
    unfold pesPackets
    split
    · rename_i hnil
      rw [hnil]
      exact ⟨nofun, rfl⟩
    · rename_i hne
      have hpos : 0 < payloadLen ([] : List UInt8).length payload.length :=
        payloadLen_pos (Nat.zero_le _) hne
      have hrest : (payload.drop (payloadLen ([] : List UInt8).length payload.length)).length ≤ n := by
        rw [List.length_drop]
        omega
      obtain ⟨hstart, hflat⟩ := @ih ((cc + 1) &&& 0xf) _ hrest
      have hsent : Sent pid ((cc + 1) &&& 0xf) false
          (pesPacket pid ((cc + 1) &&& 0xf) false [] payload) :=
        sent_pesPacket hpid (and_0xf_lt _) (Nat.zero_le _)
      refine ⟨List.forall_mem_cons.mpr ⟨hsent.start, hstart⟩, ?_⟩
      rw [List.flatMap_cons, pesPacket_payload (and_0xf_lt _) (Nat.zero_le _), hflat,
        List.nil_append, List.take_append_drop]

theorem units_pesPackets {ps : List Packet} (hpid : pid < 2 ^ 13) (h : header.length ≤ 183)
    (hne : payload ≠ []) :
    units (ps ++ pesPackets pid cc payload.length true header payload) =
      units ps ++ [header ++ payload] := by
  obtain ⟨n, hn⟩ := Nat.exists_eq_succ_of_ne_zero (List.length_pos_iff.mpr hne).ne'
  have hpos := payloadLen_pos h hne
  have hrest : (payload.drop (payloadLen header.length payload.length)).length ≤ n := by
    rw [List.length_drop]
    omega
  obtain ⟨hstart, hflat⟩ := @pesPackets_more pid ((cc + 1) &&& 0xf) n _ hpid hrest
  have hsent : Sent pid ((cc + 1) &&& 0xf) true
      (pesPacket pid ((cc + 1) &&& 0xf) true header payload) :=
    sent_pesPacket hpid (and_0xf_lt _) (Nat.le_succ_of_le h)
  rw [hn]
  unfold pesPackets
  rw [if_neg hne]
  dsimp only
  rw [units_append_unit hsent.start hstart, List.flatMap_cons,
    pesPacket_payload (and_0xf_lt _) (Nat.le_succ_of_le h), hflat, List.append_assoc,
    List.take_append_drop]

/-- How many packets a PES packet takes. -/
theorem length_pesPackets (h : header.length ≤ 183) (hn : payload.length ≤ n)
    (hne : payload ≠ []) :
    (pesPackets pid cc n isStart header payload).length =
      (header.length + payload.length + 183) / 184 := by
  induction n generalizing cc isStart header payload with
  | zero => exact absurd (List.length_eq_zero_iff.mp (Nat.le_zero.mp hn)) hne
  | succ n ih =>
    unfold pesPackets
    rw [if_neg hne]
    dsimp only
    have hpos := payloadLen_pos h hne
    have hlen : payloadLen header.length payload.length = min (184 - header.length) payload.length := by
      unfold payloadLen tsPacketSize packetSize
      omega
    rw [List.length_cons]
    by_cases hnil : payload.drop (payloadLen header.length payload.length) = []
    · have hle := List.drop_eq_nil_iff.mp hnil
      rw [hnil]
      have hz : (pesPackets pid ((cc + 1) &&& 0xf) n false [] []).length = 0 := by
        cases n <;> rfl
      omega
    · have hrest := List.length_drop (l := payload) (i := payloadLen header.length payload.length)
      rw [ih (Nat.zero_le _) (by omega) hnil, hrest, List.length_nil]
      have hgt : payloadLen header.length payload.length < payload.length := by
        have := List.length_pos_iff.mpr hnil
        omega
      omega

end Melis.Mpeg2ts
