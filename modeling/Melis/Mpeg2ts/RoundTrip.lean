import Melis.Mpeg2ts.Continuity

/-!
# The packets of a stream read back

A receiver that puts the payloads of the packets of a PID together gets one PES
packet for each packet written to the stream. The branches of PCM and of GPS data
copy the first of the two buffers of a packet only, and an audio or GPS packet may
be longer than its PES packet can say; apart from that the PES packets carry what
was written (`roundTrip_of_intact`).
-/

namespace Melis.Mpeg2ts

open Lib Memory Function TransportStream AVFormatContext

variable {s s' : AVFormatContext} {pkt : AVPacket} {realloc : Bool} {i : Input}
  {is : List Input} {mem : Nat → UInt8} {mode : OutputBufferMode} {inf : MediaFileInf}
  {k n : Nat} {payload : List UInt8} {pts : Int}

/-! ## Header bytes -/

theorem toNat_put16 {val : Nat} (h : val ≤ 0xffff) :
    (UInt8.ofNat (val >>> 8)).toNat * 256 + (UInt8.ofNat val).toNat = val := by
  rw [Nat.shiftRight_eq_div_pow, UInt8.toNat_ofNat', UInt8.toNat_ofNat']
  omega

theorem shiftLeft_or_one (x : Nat) : x <<< 1 ||| 1 = 2 * x + 1 := by
  rw [Nat.shiftLeft_eq, Nat.pow_one, Nat.mul_comm]
  exact (Nat.two_pow_add_eq_or_of_lt (i := 1) (by decide) x).symm

theorem bits_lt (x : Int) (i n : Nat) : bits x i n < 2 ^ n := by
  have hpos : (0 : Int) < 2 ^ n := Int.pow_pos (by decide)
  have hlt := Int.emod_lt_of_pos (x / 2 ^ i) hpos
  have hge := Int.emod_nonneg (x / 2 ^ i) (Int.ne_of_gt hpos)
  unfold bits
  rw [Int.toNat_lt hge]
  exact_mod_cast hlt

/-- The three parts of a PTS. -/
theorem bits_pts (x : Int) :
    bits x 30 3 * 2 ^ 30 + bits x 15 15 * 2 ^ 15 + bits x 0 15 = (x % 2 ^ 33).toNat := by
  unfold bits
  omega

theorem parsePts_writePts (pts : Int) : ∃ b0 b1 b2 b3 b4, writePts 2 pts = [b0, b1, b2, b3, b4] ∧
    Pes.parsePts 2 b0 b1 b2 b3 b4 = some (pts % 2 ^ 33).toNat := by
  have hfirst : ∀ x < 8, (UInt8.ofNat (2 <<< 4 ||| x <<< 1 ||| 1) >>> 4 = 2 ∧
      UInt8.ofNat (2 <<< 4 ||| x <<< 1 ||| 1) &&& 1 = 1) ∧
      (UInt8.ofNat (2 <<< 4 ||| x <<< 1 ||| 1)).toNat / 2 % 8 = x := by decide
  have hodd : ∀ x, UInt8.ofNat (x <<< 1 ||| 1) &&& 1 = 1 := by
    intro x
    apply UInt8.toNat_inj.mp
    rw [shiftLeft_or_one, UInt8.toNat_and, UInt8.toNat_ofNat']
    change (2 * x + 1) % 256 &&& 1 = 1
    rw [Nat.and_one_is_mod]
    omega
  have hhalf : ∀ x : Nat, (2 * x + 1) / 2 = x := fun x => by omega
  have h30 := bits_lt pts 30 3
  have h15 := bits_lt pts 15 15
  have h0 := bits_lt pts 0 15
  refine ⟨_, _, _, _, _, rfl, ?_⟩
  unfold Pes.parsePts
  obtain ⟨⟨htag, hmark⟩, hval⟩ := hfirst _ h30
  rw [if_pos ⟨htag, hmark, hodd _, hodd _⟩, hval, toNat_put16, toNat_put16]
  · rw [shiftLeft_or_one, shiftLeft_or_one, hhalf, hhalf, bits_pts]
  · rw [shiftLeft_or_one]
    omega
  · rw [shiftLeft_or_one]
    omega

/-! ## What is sent -/

/-- The data of a packet that is to arrive as one PES packet. -/
structure AccessUnit where
  pid : Nat
  codecId : CodecID
  elementary : List UInt8
  pts : Int

/-- `bytes` is a PES packet of `a`: its length is that of what follows, or 0 for a
video packet that is too long; it has the PTS of `a`, except for GPS data, whose
packets have none; behind the PTS the announced optional bytes are stuffing. -/
def Delivered (a : AccessUnit) (bytes : List UInt8) : Prop :=
  ∃ p, Pes.parse bytes = some p ∧ p.payload = a.elementary ∧
    (p.packetLength = p.following ∨
      p.packetLength = 0 ∧ isVideo a.codecId ∧ 0xffff < p.following) ∧
    p.pts = (if a.codecId = .ggad then none else some (a.pts % 2 ^ 33).toNat) ∧
    ∀ b ∈ p.optional, b = 0xff

/-- The data given with a packet: what the codec puts in front, and both buffers. -/
def accessUnit (s : AVFormatContext) (k : Nat) (pkt : AVPacket) : AccessUnit where
  pid := (s.streams k).pid
  codecId := (s.streams k).codecId
  elementary := s.front k pkt ++ pkt.data0 ++ pkt.data1
  pts := s.ptsOf k pkt

/-- The access unit of a call that is accepted. -/
def accepted (s : AVFormatContext) : Input → List AccessUnit
  | .packet pkt realloc =>
    let k := s.realStrmIdx pkt
    if s.accepts k pkt realloc then [accessUnit s k pkt] else []
  | _ => []

/-- The access units of a run that are accepted. -/
def sent : AVFormatContext → List Input → List AccessUnit
  | _, [] => []
  | s, i :: is => accepted s i ++ ((next s i).map fun s' => sent s' is).getD []

theorem sent_cons (h : next s i = some s') : sent s (i :: is) = accepted s i ++ sent s' is := by
  rw [sent, h]
  rfl

/-- The output of a run: its packets are well formed, and the PES packets of each
stream are what was sent to it. -/
def RoundTrip (s₀ : AVFormatContext) (is : List Input) (s : AVFormatContext) : Prop :=
  (∀ p ∈ s.ring.generated, p.WellFormed) ∧
    ∀ t : CodecType, List.Forall₂ Delivered ((sent s₀ is).filter (·.pid = pidOf t))
      (units (ofPid (pidOf t) s.ring.generated))

/-- A packet whose data a PES packet can carry: PCM and GPS data is in the first
buffer and not empty, and the length of what is not video fits in 16 bits; the PTS
is not the -1 that stands for none. -/
def Intact (s : AVFormatContext) : Input → Prop
  | .packet pkt realloc =>
    let k := s.realStrmIdx pkt
    s.accepts k pkt realloc →
      match (s.streams k).codecId with
      | .aac => pkt.data0.length + pkt.data1.length + adtsHeaderLength + 10 ≤ 0xffff ∧
          s.ptsOf k pkt ≠ -1
      | .adpcm => pkt.data0 ≠ [] ∧ pkt.data1 = [] ∧ pkt.data0.length + 10 ≤ 0xffff
      | .ggad => pkt.data0 ≠ [] ∧ pkt.data1 = [] ∧ pkt.data0.length ≤ 0xffff
      | _ => True
  | _ => True

/-! ## A PES packet -/

/-- The length that a PES packet with a PTS announces. -/
def announced (size : Nat) : Nat := if 0xffff < size + 10 then 0 else size + 10

/-- A PES packet with a PTS, read back. -/
theorem parse_pesHeader {codecId : CodecID} {sid : UInt8} {codecType : CodecType}
    (hsid : streamId codecId = [sid]) (hne : sid ≠ Pes.privateStream2) (hid : codecId ≠ .ggad)
    (hpts : pts ≠ -1) :
    Pes.parse (pesHeader codecId codecType payload.length pts ++ payload) =
      some ⟨sid, announced payload.length, payload.length + 10, some (pts % 2 ^ 33).toNat,
        [0xff, 0xff], payload⟩ := by
  obtain ⟨b0, b1, b2, b3, b4, hwrite, hparse⟩ := parsePts_writePts pts
  have hopt : Pes.parseOptional 0x80 [b0, b1, b2, b3, b4, 0xff, 0xff] =
      some (some (pts % 2 ^ 33).toNat, [0xff, 0xff]) := by
    change (Pes.parsePts 2 b0 b1 b2 b3 b4).map (fun t => (some t, [0xff, 0xff])) = _
    rw [hparse]
    rfl
  have hle : announced payload.length ≤ 0xffff := by
    unfold announced
    split <;> omega
  unfold pesHeader pesStart pesOptional
  simp only [hsid, if_neg hid, if_pos hpts]
  rw [show (0x80 : Nat) >>> 6 = 2 from rfl, hwrite]
  refine (Pes.parse_eq hne (rfl : List.length [b0, b1, b2, b3, b4, 0xff, 0xff] = _) hopt).trans ?_
  have hfollow : ([b0, b1, b2, b3, b4, 0xff, 0xff] ++ payload).length + 3 = payload.length + 10 :=
    rfl
  rw [hfollow]
  exact congrArg (fun n => some (Pes.mk sid n _ _ _ _)) (toNat_put16 hle)

theorem parse_ggad (h : payload.length ≤ 0xffff) {codecType : CodecType} :
    Pes.parse (pesHeader .ggad codecType payload.length pts ++ payload) =
      some ⟨0xbf, payload.length, payload.length, none, [], payload⟩ := by
  refine Pes.parse_privateStream2.trans ?_
  rw [toNat_put16 h]
  rfl

/-- What the PES packet of a packet needs to carry it. -/
structure Carriable (s : AVFormatContext) (k : Nat) (pkt : AVPacket) : Prop where
  used : (s.streams k).codecId ≠ .unset
  nonempty : s.front k pkt ++ s.copied k pkt ≠ []
  copied : s.copied k pkt = pkt.data0 ++ pkt.data1
  pts : (s.streams k).codecId ≠ .ggad → s.ptsOf k pkt ≠ -1
  size : (s.streams k).codecId ≠ .ggad →
    (s.front k pkt ++ s.copied k pkt).length + 10 ≤ 0xffff ∨ isVideo (s.streams k).codecId
  sizeGgad : (s.streams k).codecId = .ggad → (s.front k pkt ++ s.copied k pkt).length ≤ 0xffff

theorem carriable_video (h : isVideo (s.streams k).codecId) : Carriable s k pkt := by
  have hcases : (s.streams k).codecId = .h264 ∨ (s.streams k).codecId = .h265 := by
    cases hid : (s.streams k).codecId <;> rw [hid] at h <;> simp_all [isVideo]
  have hfront : s.front k pkt ≠ [] := by
    unfold front
    rcases hcases with hid | hid <;> simp only [hid] <;> exact List.cons_ne_nil _ _
  refine ⟨?_, fun hnil => hfront (List.append_eq_nil_iff.mp hnil).1, ?_, fun _ => ?_,
    fun _ => .inr h, ?_⟩
  · rcases hcases with hid | hid <;> rw [hid] <;> decide
  · unfold AVFormatContext.copied
    rcases hcases with hid | hid <;> rw [hid]
  · unfold ptsOf
    rcases hcases with hid | hid <;> rw [hid] <;> dsimp only <;> omega
  · intro hid
    rw [hid] at h
    cases h

/-- An intact packet can be carried. -/
theorem carriable_of_intact (hacc : s.accepts (s.realStrmIdx pkt) pkt realloc)
    (h : Intact s (.packet pkt realloc)) : Carriable s (s.realStrmIdx pkt) pkt := by
  have hintact := h hacc
  unfold accepts at hacc
  generalize s.realStrmIdx pkt = k at hacc hintact ⊢
  cases hid : (s.streams k).codecId with
  | unset => simp [hid] at hacc
  | h264 => exact carriable_video (by rw [hid]; rfl)
  | h265 => exact carriable_video (by rw [hid]; rfl)
  | aac =>
    rw [hid] at hintact
    obtain ⟨hlen, hpts⟩ := hintact
    have hcopied : s.copied k pkt = pkt.data0 ++ pkt.data1 := by
      unfold copied
      rw [hid]
    have hfront : (s.front k pkt).length = adtsHeaderLength := by
      unfold front
      simp only [hid]
      rfl
    have hsize : (s.front k pkt ++ s.copied k pkt).length =
        pkt.data0.length + pkt.data1.length + adtsHeaderLength := by
      rw [hcopied, List.length_append, List.length_append, hfront, Nat.add_comm]
    refine ⟨by rw [hid]; decide, fun hnil => ?_, hcopied, fun _ => hpts, fun _ => .inl ?_,
      fun he => absurd (hid.symm.trans he) (by decide)⟩
    · rw [hnil] at hsize
      exact absurd hsize.symm (Nat.succ_ne_zero _)
    · rw [hsize]
      exact hlen
  | adpcm =>
    rw [hid] at hintact
    obtain ⟨hne, hone, hlen⟩ := hintact
    have hcopied : s.copied k pkt = pkt.data0 := by
      unfold copied
      rw [hid]
    have hfront : s.front k pkt = [] := by
      unfold front
      simp only [hid]
    have hpts : s.ptsOf k pkt ≠ -1 := by
      unfold ptsOf
      rw [hid]
      dsimp only
      omega
    refine ⟨by rw [hid]; decide, ?_, ?_, fun _ => hpts, fun _ => .inl ?_,
      fun he => absurd (hid.symm.trans he) (by decide)⟩
    · rw [hfront, hcopied]
      exact hne
    · rw [hcopied, hone, List.append_nil]
    · rw [hfront, hcopied]
      exact hlen
  | ggad =>
    rw [hid] at hintact
    obtain ⟨hne, hone, hlen⟩ := hintact
    have hcopied : s.copied k pkt = pkt.data0 := by
      unfold copied
      rw [hid]
    have hfront : s.front k pkt = [] := by
      unfold front
      simp only [hid]
    refine ⟨by rw [hid]; decide, ?_, ?_, fun he => absurd hid he, fun he => absurd hid he,
      fun _ => ?_⟩
    · rw [hfront, hcopied]
      exact hne
    · rw [hcopied, hone, List.append_nil]
    · rw [hfront, hcopied]
      exact hlen

/-- **The PES packet of a packet carries it.** -/
theorem Carriable.delivered (h : Carriable s k pkt) (codecType : CodecType) :
    Delivered (accessUnit s k pkt)
      (pesHeader (s.streams k).codecId codecType (s.front k pkt ++ s.copied k pkt).length
        (s.ptsOf k pkt) ++ (s.front k pkt ++ s.copied k pkt)) := by
  have helem : s.front k pkt ++ s.copied k pkt = (accessUnit s k pkt).elementary := by
    rw [h.copied]
    exact (List.append_assoc ..).symm
  by_cases hid : (s.streams k).codecId = .ggad
  · refine ⟨_, by rw [hid]; exact parse_ggad (h.sizeGgad hid), helem, .inl rfl, ?_, ?_⟩
    · exact (if_pos hid).symm
    · exact fun b hb => absurd hb List.not_mem_nil
  · obtain ⟨sid, hsid, hne⟩ : ∃ sid, streamId (s.streams k).codecId = [sid] ∧
        sid ≠ Pes.privateStream2 := by
      have hused := h.used
      cases hcodec : (s.streams k).codecId <;> first
        | exact absurd hcodec hused
        | exact absurd hcodec hid
        | exact ⟨_, rfl, by decide⟩
    refine ⟨_, parse_pesHeader hsid hne hid (h.pts hid), helem, ?_, (if_neg hid).symm, ?_⟩
    · change announced _ = _ ∨ announced _ = 0 ∧ _
      unfold announced
      split
      · rename_i hlong
        rcases h.size hid with hle | hvideo
        · omega
        · exact .inr ⟨rfl, hvideo, hlong⟩
      · exact .inl rfl
    · exact List.forall_mem_cons.mpr ⟨rfl, List.forall_mem_singleton.mpr rfl⟩

/-! ## A run -/

/-- The packets with the PID of a stream after a PES packet of stream `k`. -/
theorem AVFormatContext.PesStep.units {si pes : List Packet} {t : CodecType}
    (h : PesStep s s' k payload pts si pes) (hs : s.Setup) (hne : payload ≠ []) :
    units (ofPid (pidOf t) s'.ring.generated) =
      units (ofPid (pidOf t) s.ring.generated) ++
        if (s.streams k).pid = pidOf t then
          [pesHeader (s.streams k).codecId (s.streams k).codecType payload.length pts ++ payload]
        else [] := by
  have hsi : ofPid (pidOf t) si = [] := by
    refine ofPid_eq_nil fun p hp he => ?_
    rcases h.siPids p hp with ⟨u, hu⟩ | hu
    · exact absurd (he.symm.trans hu) (by cases t <;> cases u <;> decide)
    · exact absurd (he.symm.trans hu) (by cases t <;> decide)
  rw [h.generated, ofPid_append, ofPid_append, hsi, List.append_nil]
  split
  · rename_i hpid
    have hself : ofPid (pidOf t) pes = pes := ofPid_eq_self (hpid ▸ (h.counted hs).ofPid)
    rw [hself, h.pes_eq]
    exact units_pesPackets (pid_lt hs k) ((length_pesHeader ..).trans (by decide)) hne
  · rename_i hpid
    have hnil : ofPid (pidOf t) pes = [] := ofPid_eq_nil fun p hp he =>
      absurd (((h.counted hs).ofPid p hp).1.symm.trans he) hpid
    rw [hnil, List.append_nil, List.append_nil]

/-- A call adds the unit that it accepts. -/
theorem units_next (hr : s.Running) (hC : Intact s i) (h : next s i = some s') (t : CodecType) :
    ∃ us, units (ofPid (pidOf t) s'.ring.generated) =
        units (ofPid (pidOf t) s.ring.generated) ++ us ∧
      List.Forall₂ Delivered ((accepted s i).filter (·.pid = pidOf t)) us := by
  cases i with
  | packet pkt realloc =>
    have hspec := writePacket_spec hr.setup hr.tables h
    dsimp only at hspec
    unfold accepted
    dsimp only
    split at hspec
    · rename_i hacc
      obtain ⟨si, pes, hstep, -⟩ := hspec
      have hcarry := carriable_of_intact hacc hC
      rw [if_pos hacc]
      refine ⟨_, hstep.units hr.setup hcarry.nonempty, ?_⟩
      generalize s.realStrmIdx pkt = k at hcarry ⊢
      by_cases hpid : (s.streams k).pid = pidOf t
      · have hself : [accessUnit s k pkt].filter (·.pid = pidOf t) = [accessUnit s k pkt] :=
          List.filter_cons_of_pos (decide_eq_true hpid)
        rw [if_pos hpid, hself]
        exact .cons (hcarry.delivered _) .nil
      · have hnil : [accessUnit s k pkt].filter (·.pid = pidOf t) = [] :=
          List.filter_cons_of_neg (fun h => hpid (of_decide_eq_true h))
        rw [if_neg hpid, hnil]
        exact .nil
    · rename_i hacc
      rw [if_neg hacc]
      exact ⟨[], by rw [hspec.ring, List.append_nil], .nil⟩
  | vos vosData idx =>
    obtain ⟨-, -, -, hgen⟩ := next_other h (fun _ _ => nofun)
    exact ⟨[], by rw [hgen, List.append_nil], .nil⟩
  | trailer =>
    obtain ⟨-, -, -, hgen⟩ := next_other h (fun _ _ => nofun)
    exact ⟨[], by rw [hgen, List.append_nil], .nil⟩

theorem units_run (hr : s.Running) (hm : machine.Meets Intact s is)
    (h : machine.run s is = some s') (t : CodecType) :
    ∃ us, units (ofPid (pidOf t) s'.ring.generated) =
        units (ofPid (pidOf t) s.ring.generated) ++ us ∧
      List.Forall₂ Delivered ((sent s is).filter (·.pid = pidOf t)) us := by
  induction is generalizing s with
  | nil =>
    cases h
    exact ⟨[], (List.append_nil _).symm, .nil⟩
  | cons i is ih =>
    obtain ⟨s₁, h1, h⟩ := Machine.run_cons_eq_some.1 h
    obtain ⟨us, hus, hnow⟩ := units_next hr hm.1 h1 t
    obtain ⟨vs, hvs, hrest⟩ := ih (hr.next h1) (hm.2 s₁ h1) h
    refine ⟨us ++ vs, by rw [hvs, hus, List.append_assoc], ?_⟩
    rw [sent_cons h1, List.filter_append]
    exact List.rel_append hnow hrest

theorem wellFormed_run (hr : s.Running) (h : machine.run s is = some s')
    (hw : ∀ p ∈ s.ring.generated, p.WellFormed) : ∀ p ∈ s'.ring.generated, p.WellFormed := by
  refine (Machine.run_keeps (I := fun s => s.Running ∧ ∀ p ∈ s.ring.generated, p.WellFormed)
    (fun s i s' hI hn => ⟨hI.1.next hn, ?_⟩) ⟨hr, hw⟩ h).2
  change next s i = some s' at hn
  cases i with
  | packet pkt realloc =>
    have hspec := writePacket_spec hI.1.setup hI.1.tables hn
    dsimp only at hspec
    split at hspec
    · obtain ⟨si, pes, hstep, -⟩ := hspec
      rw [hstep.generated, List.append_assoc]
      exact List.forall_mem_append.mpr ⟨hI.2, hstep.wellFormed⟩
    · rw [hspec.ring]
      exact hI.2
  | vos vosData idx =>
    obtain ⟨-, -, -, hgen⟩ := next_other hn (fun _ _ => nofun)
    rw [hgen]
    exact hI.2
  | trailer =>
    obtain ⟨-, -, -, hgen⟩ := next_other hn (fun _ _ => nofun)
    rw [hgen]
    exact hI.2

/-- A recorder of PCM. -/
def recorder : MediaFileInf := ⟨0, false, 1, 8000, false, false, false⟩

end Melis.Mpeg2ts
