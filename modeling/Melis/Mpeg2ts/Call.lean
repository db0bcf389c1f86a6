import Melis.Mpeg2ts.Effects

/-!
# A call of `ts_write_packet`

The branch of a codec leaves the ring and the tables alone. What it leaves for the
PES packet, and when, is said here of the packet and of the state before.
-/

namespace Melis.Mpeg2ts

open Lib Memory Function TransportStream

variable {s s' : AVFormatContext} {k n : Nat} {pkt : AVPacket} {realloc : Bool}

namespace AVFormatContext

def isVideo : CodecID → Bool
  | .h264 | .h265 => true
  | _ => false

/-- What the branch of a codec leaves as it was; it counts `c` pictures. -/
structure Prepared (s s' : AVFormatContext) (c : Nat) : Prop where
  kept : Kept s s'
  ring : s'.ring = s.ring
  table : ∀ t, s'.table t = s.table t
  pcr : s'.pcrCounter = s.pcrCounter
  counter : s'.patPmtCounter = s.patPmtCounter + c
  flag : s'.patPmtFlag = s.patPmtFlag
  count : s'.patPacketCount = s.patPacketCount
  period : s'.patPacketPeriod = s.patPacketPeriod

theorem Prepared.trans {s₁ : AVFormatContext} {c : Nat} (h : Prepared s s₁ c)
    (h' : Prepared s₁ s' 0) : Prepared s s' c where
  kept := h.kept.trans h'.kept
  ring := h'.ring.trans h.ring
  table t := (h'.table t).trans (h.table t)
  pcr := h'.pcr.trans h.pcr
  counter := h'.counter.trans h.counter
  flag := h'.flag.trans h.flag
  count := h'.count.trans h.count
  period := h'.period.trans h.period

theorem Prepared.refl (s : AVFormatContext) : Prepared s s 0 :=
  ⟨.refl s, rfl, fun _ => rfl, rfl, rfl, rfl, rfl, rfl⟩

theorem Prepared.tables {c : Nat} (h : Prepared s s' c) (ht : s.Tables) : s'.Tables :=
  tables_congr ht h.table (congrArg _ h.ring) h.pcr

/-- What comes before a PES packet depends on the count of pictures. -/
theorem Prepared.startCount {c : Nat} (h : Prepared s s' c) (idx : Nat) :
    s'.startCount idx = { s with patPmtCounter := s.patPmtCounter + c }.startCount idx := by
  unfold AVFormatContext.startCount siCount
  rw [h.kept.mode, h.counter, h.flag, h.count, h.period]

theorem reserve_spec {ok : Bool} (h : s.reserve n realloc = some (s', ok)) :
    s' = { s with pesBufsize := s'.pesBufsize } ∧ ok = decide (n ≤ s.pesBufsize ∨ realloc) := by
  unfold reserve at h
  split at h
  · cases h
  · split at h
    · rename_i hlt
      split at h
      · cases h
      · split at h <;> cases h <;> exact ⟨rfl, by simp_all⟩
    · rename_i hle
      cases h
      exact ⟨rfl, by simp only [Nat.le_of_not_lt hle, true_or, decide_true]⟩

/-- What is changed apart from the streams and the tables. -/
theorem Prepared.of_fields (pesBufsize audioFrameNum : Nat) (firstVideoPts : Bool)
    (baseVideoPts : Int) :
    Prepared s
      { s with
        pesBufsize := pesBufsize
        audioFrameNum := audioFrameNum
        firstVideoPts := firstVideoPts
        baseVideoPts := baseVideoPts } 0 :=
  ⟨⟨rfl, rfl, fun _ => rfl, fun _ => rfl, fun _ => rfl⟩, rfl, fun t => by cases t <;> rfl, rfl,
    rfl, rfl, rfl, rfl⟩

theorem Prepared.of_reserve {b : Nat} (h : s' = { s with pesBufsize := b }) : Prepared s s' 0 := by
  rw [h]
  exact .of_fields b s.audioFrameNum s.firstVideoPts s.baseVideoPts

/-- The parameter sets, where the codec puts them in front of the data. -/
def vos (s : AVFormatContext) (k : Nat) (pkt : AVPacket) : List UInt8 :=
  let first := (s.streams k).firstframeflag
  match (s.streams k).codecId with
  | .h264 => if first || pkt.flags == 1 then (s.streams k).vosData else []
  | .h265 => if first || pkt.data0.getD 4 pkt.past0 == 0x26 then (s.streams k).vosData else []
  | _ => []

/-- What comes before the data of a packet: delimiter and parameter sets, or the
ADTS header. -/
def front (s : AVFormatContext) (k : Nat) (pkt : AVPacket) : List UInt8 :=
  let st := s.streams k
  match st.codecId with
  | .h264 => audH264 ++ s.vos k pkt
  | .h265 => audH265 ++ s.vos k pkt
  | .aac => adtsHeader st.channels st.sampleRate
      (pkt.data0.length + pkt.data1.length + adtsHeaderLength)
  | _ => []

/-- The data that the branch of the codec copies. -/
def copied (s : AVFormatContext) (k : Nat) (pkt : AVPacket) : List UInt8 :=
  match (s.streams k).codecId with
  | .adpcm | .ggad => pkt.data0
  | _ => pkt.data0 ++ pkt.data1

/-- The PTS of a packet in the units of a PES packet. -/
def ptsOf (s : AVFormatContext) (k : Nat) (pkt : AVPacket) : Int :=
  match (s.streams k).codecId with
  | .h264 | .h265 => (pkt.pts - if s.firstVideoPts then pkt.pts else s.baseVideoPts) * 90
  | .aac => (s.audioFrameNum * 90000 * 1024 : Int).tdiv (s.streams k).sampleRate
  | .adpcm => pkt.pts * 90
  | .ggad | .unset => pkt.pts

/-- Whether a packet is written: its stream is in use, and there is room for it. -/
def accepts (s : AVFormatContext) (k : Nat) (pkt : AVPacket) (realloc : Bool) : Bool :=
  (s.streams k).codecId ≠ .unset ∧
    ((s.front k pkt ++ s.copied k pkt).length ≤ s.pesBufsize ∨ realloc)

theorem video_spec {aud : List UInt8} {v : Bool} {o : Payload}
    (h : s.video k pkt aud v realloc = some (s', o)) :
    Prepared s s' 1 ∧
      o = if (aud ++ if v then (s.streams k).vosData else []).length + pkt.data0.length +
          pkt.data1.length ≤ s.pesBufsize ∨ realloc then
        some (aud ++ (if v then (s.streams k).vosData else []) ++ pkt.data0 ++ pkt.data1,
          (pkt.pts - if s.firstVideoPts then pkt.pts else s.baseVideoPts) * 90)
      else none := by
  unfold video at h
  extract_lets st s₀ fr s₁ at h
  have h1 : Prepared s s₁ 1 := by
    change Prepared s (if v then _ else s₀) 1
    split
    · exact ⟨.of_update rfl rfl rfl rfl rfl rfl, rfl, fun t => by cases t <;> rfl, rfl, rfl, rfl,
        rfl, rfl⟩
    · exact ⟨⟨rfl, rfl, fun _ => rfl, fun _ => rfl, fun _ => rfl⟩, rfl,
        fun t => by cases t <;> rfl, rfl, rfl, rfl, rfl, rfl⟩
  have hsize : s₁.pesBufsize = s.pesBufsize ∧ s₁.firstVideoPts = s.firstVideoPts ∧
      s₁.baseVideoPts = s.baseVideoPts := by
    change (if v then _ else s₀).pesBufsize = _ ∧ (if v then _ else s₀).firstVideoPts = _ ∧
      (if v then _ else s₀).baseVideoPts = _
    split <;> exact ⟨rfl, rfl, rfl⟩
  obtain ⟨hbuf, hfirst, hbase⟩ := hsize
  split at h
  · cases h
  obtain ⟨⟨s₂, ok⟩, hres, h⟩ := Option.bind_eq_some_iff.mp h
  obtain ⟨heq, hok⟩ := reserve_spec hres
  have h2 := h1.trans (.of_reserve heq)
  rw [hbuf] at hok
  have hfirst' : s₂.firstVideoPts = s.firstVideoPts := by rw [heq, ← hfirst]
  have hbase' : s₂.baseVideoPts = s.baseVideoPts := by rw [heq, ← hbase]
  dsimp only at h
  cases ok with
  | false =>
    rw [if_neg Bool.false_ne_true] at h
    cases h
    exact ⟨h2, (if_neg (of_decide_eq_false hok.symm)).symm⟩
  | true =>
    rw [if_pos rfl] at h
    obtain ⟨d, hd, h⟩ := Option.bind_eq_some_iff.mp h
    obtain ⟨q, hq, h⟩ := Option.bind_eq_some_iff.mp h
    cases h
    rw [int64_eq_some hq, int64_eq_some hd, hfirst']
    refine ⟨?_, ?_⟩
    · split
      · exact h2.trans (.of_fields ..)
      · exact h2
    · rw [if_pos (of_decide_eq_true hok.symm)]
      split
      · rfl
      · rw [hbase']

theorem aac_spec {o : Payload} (h : s.aac k pkt realloc = some (s', o)) :
    Prepared s s' 0 ∧
      o = if pkt.data0.length + pkt.data1.length + adtsHeaderLength ≤ s.pesBufsize ∨ realloc then
        some (adtsHeader (s.streams k).channels (s.streams k).sampleRate
            (pkt.data0.length + pkt.data1.length + adtsHeaderLength) ++ pkt.data0 ++ pkt.data1,
          (s.audioFrameNum * 90000 * 1024 : Int).tdiv (s.streams k).sampleRate)
      else none := by
  unfold aac at h
  extract_lets st len at h
  obtain ⟨⟨s₂, ok⟩, hres, h⟩ := Option.bind_eq_some_iff.mp h
  obtain ⟨heq, hok⟩ := reserve_spec hres
  have h2 := Prepared.of_reserve heq
  have hnum : s₂.audioFrameNum = s.audioFrameNum := by rw [heq]
  dsimp only at h
  cases ok with
  | false =>
    rw [if_neg Bool.false_ne_true] at h
    cases h
    exact ⟨h2, (if_neg (of_decide_eq_false hok.symm)).symm⟩
  | true =>
    rw [if_pos rfl] at h
    obtain ⟨d, hd, h⟩ := Option.bind_eq_some_iff.mp h
    split at h
    · cases h
    · cases h
      rw [int64_eq_some hd, hnum, if_pos (of_decide_eq_true hok.symm)]
      exact ⟨h2.trans (.of_fields ..), rfl⟩

theorem adpcm_spec {o : Payload} (h : s.adpcm pkt realloc = some (s', o)) :
    Prepared s s' 0 ∧
      o = if pkt.data0.length ≤ s.pesBufsize ∨ realloc then some (pkt.data0, pkt.pts * 90)
      else none := by
  unfold adpcm at h
  obtain ⟨⟨s₂, ok⟩, hres, h⟩ := Option.bind_eq_some_iff.mp h
  obtain ⟨heq, hok⟩ := reserve_spec hres
  have h2 := Prepared.of_reserve heq
  dsimp only at h
  cases ok with
  | false =>
    rw [if_neg Bool.false_ne_true] at h
    cases h
    exact ⟨h2, (if_neg (of_decide_eq_false hok.symm)).symm⟩
  | true =>
    rw [if_pos rfl] at h
    obtain ⟨d, hd, h⟩ := Option.bind_eq_some_iff.mp h
    cases h
    rw [int64_eq_some hd, if_pos (of_decide_eq_true hok.symm)]
    exact ⟨h2.trans (.of_fields ..), rfl⟩

theorem ggad_spec {o : Payload} (h : s.ggad pkt realloc = some (s', o)) :
    Prepared s s' 0 ∧
      o = if pkt.data0.length ≤ s.pesBufsize ∨ realloc then some (pkt.data0, pkt.pts)
      else none := by
  unfold ggad at h
  obtain ⟨⟨s₂, ok⟩, hres, h⟩ := Option.bind_eq_some_iff.mp h
  obtain ⟨heq, hok⟩ := reserve_spec hres
  cases h
  refine ⟨.of_reserve heq, ?_⟩
  rw [hok]
  simp only [decide_eq_true_eq]

/-- The branch of the codec, whichever it is. -/
theorem payload_spec {o : Payload} (h : s.payload k pkt realloc = some (s', o)) :
    Prepared s s' (if isVideo (s.streams k).codecId then 1 else 0) ∧
      o = if s.accepts k pkt realloc then some (s.front k pkt ++ s.copied k pkt, s.ptsOf k pkt)
      else none := by
  unfold payload at h
  cases hid : (s.streams k).codecId with
  | unset =>
    rw [hid] at h
    cases h
    exact ⟨.refl s, by simp [accepts, hid]⟩
  | h264 =>
    rw [hid] at h
    obtain ⟨hprep, ho⟩ := video_spec h
    refine ⟨hprep, ho.trans ?_⟩
    simp [accepts, front, vos, copied, ptsOf, hid, Nat.add_assoc]
  | h265 =>
    rw [hid] at h
    obtain ⟨hprep, ho⟩ := video_spec h
    refine ⟨hprep, ho.trans ?_⟩
    simp [accepts, front, vos, copied, ptsOf, hid, Nat.add_assoc]
  | aac =>
    rw [hid] at h
    obtain ⟨hprep, ho⟩ := aac_spec h
    have hlen : pkt.data0.length + pkt.data1.length + adtsHeaderLength =
        adtsHeaderLength + (pkt.data0.length + pkt.data1.length) := Nat.add_comm ..
    refine ⟨hprep, ho.trans ?_⟩
    simp [accepts, front, copied, ptsOf, hid, hlen]
    rfl
  | adpcm =>
    rw [hid] at h
    obtain ⟨hprep, ho⟩ := adpcm_spec h
    refine ⟨hprep, ho.trans ?_⟩
    simp [accepts, front, copied, ptsOf, hid]
  | ggad =>
    rw [hid] at h
    obtain ⟨hprep, ho⟩ := ggad_spec h
    refine ⟨hprep, ho.trans ?_⟩
    simp [accepts, front, copied, ptsOf, hid]

/-- The branch of the codec and then the PES packet. -/
theorem PesStep.of_prepared {s₁ : AVFormatContext} {c : Nat} {payload : List UInt8} {pts : Int}
    {si pes : List Packet} (hprep : Prepared s s₁ c) (h : PesStep s₁ s' k payload pts si pes) :
    PesStep s s' k payload pts si pes where
  ring := by rw [h.ring, hprep.ring, hprep.kept.mode]
  kept := hprep.kept.trans h.kept
  tables := h.tables
  wellFormed := h.wellFormed
  siPids := h.siPids
  pes_eq := by rw [h.pes_eq, hprep.kept.pid, hprep.kept.codecId, hprep.kept.codecType]
  continuous := hprep.ring ▸ h.continuous

/-- How many packets come before those of the PES packet of `pkt`. -/
def siDue (s : AVFormatContext) (k : Nat) (pkt : AVPacket) : Nat :=
  { s with
    patPmtCounter := s.patPmtCounter + if isVideo (s.streams k).codecId then 1 else 0
  }.startCount pkt.streamIndex

/-- A packet that is accepted becomes a PES packet; another one leaves no trace in
the ring. -/
theorem writePacket_spec (hs : s.Setup) (ht : s.Tables)
    (h : s.writePacket pkt realloc = some s') :
    let k := s.realStrmIdx pkt
    if s.accepts k pkt realloc then
      ∃ si pes, PesStep s s' k (s.front k pkt ++ s.copied k pkt) (s.ptsOf k pkt) si pes ∧
        si.length = s.siDue k pkt
    else Prepared s s' (if isVideo (s.streams k).codecId then 1 else 0) := by
  unfold writePacket at h
  dsimp only at h ⊢
  generalize s.realStrmIdx pkt = k at h ⊢
  split at h
  · cases h
  obtain ⟨⟨s₁, o⟩, hpay, h⟩ := Option.map_eq_some_iff.mp h
  obtain ⟨hprep, ho⟩ := payload_spec hpay
  split
  · rename_i hacc
    rw [if_pos hacc] at ho
    subst ho
    cases h
    obtain ⟨si, pes, hstep, hlen⟩ := pesStep_writePes (hprep.tables ht) (hprep.kept.setup hs) k
      (s.front k pkt ++ s.copied k pkt) (s.ptsOf k pkt) pkt.streamIndex
    exact ⟨si, pes, .of_prepared hprep hstep, hlen.trans (hprep.startCount _)⟩
  · rename_i hacc
    rw [if_neg hacc] at ho
    subst ho
    cases h
    exact hprep

end AVFormatContext

namespace TsCache

variable {r r' : TsCache} {mode : OutputBufferMode} {fuel i : Nat}

theorem generated_flushPackets (h : flushPackets fuel i r = some r') :
    r'.generated = r.generated := by
  induction fuel generalizing i r with
  | zero => cases h
  | succ fuel ih =>
    unfold flushPackets at h
    split at h
    · exact (ih h : r'.generated = r.flushPacket.generated)
    · cases h
      rfl

theorem generated_writeTrailer (h : r.writeTrailer mode = some r') :
    r'.generated = r.generated := by
  unfold writeTrailer at h
  split at h
  · cases h
    rfl
  · obtain ⟨r₁, h1, rfl⟩ := Option.map_eq_some_iff.mp h
    exact (generated_flushPackets h1 : r₁.generated = r.generated)

end TsCache

namespace AVFormatContext

/-- A call that is not a packet. -/
theorem next_other {i : Input} (h : next s i = some s') (hi : ∀ pkt realloc, i ≠ .packet pkt realloc) :
    Kept s s' ∧ (∀ t, s'.table t = s.table t) ∧ s'.pcrCounter = s.pcrCounter ∧
      s'.ring.generated = s.ring.generated := by
  cases i with
  | packet pkt realloc => exact absurd rfl (hi pkt realloc)
  | vos vosData idx =>
    change (if _ then _ else _) = _ at h
    split at h
    · cases h
    · cases h
      exact ⟨.of_update rfl rfl rfl rfl rfl rfl, fun t => by cases t <;> rfl, rfl, rfl⟩
  | trailer =>
    obtain ⟨r, hr, rfl⟩ := Option.map_eq_some_iff.mp h
    exact ⟨⟨rfl, rfl, fun _ => rfl, fun _ => rfl, fun _ => rfl⟩, fun t => by cases t <;> rfl, rfl,
      TsCache.generated_writeTrailer hr⟩

/-- What holds of every state of a run. -/
structure Running (s : AVFormatContext) : Prop where
  setup : s.Setup
  tables : s.Tables

theorem Running.next {i : Input} (h : s.Running) (hn : next s i = some s') : s'.Running := by
  cases i with
  | packet pkt realloc =>
    have hspec := writePacket_spec h.setup h.tables hn
    dsimp only at hspec
    split at hspec
    · obtain ⟨si, pes, hstep, -⟩ := hspec
      exact ⟨hstep.kept.setup h.setup, hstep.tables⟩
    · exact ⟨hspec.kept.setup h.setup, hspec.tables h.tables⟩
  | vos vosData idx =>
    obtain ⟨hkept, htable, hpcr, hgen⟩ := next_other hn (fun _ _ => nofun)
    exact ⟨hkept.setup h.setup, tables_congr h.tables htable hgen hpcr⟩
  | trailer =>
    obtain ⟨hkept, htable, hpcr, hgen⟩ := next_other hn (fun _ _ => nofun)
    exact ⟨hkept.setup h.setup, tables_congr h.tables htable hgen hpcr⟩

theorem next_mode {i : Input} (h : s.Running) (hn : next s i = some s') :
    s'.outputBufferMode = s.outputBufferMode := by
  cases i with
  | packet pkt realloc =>
    have hspec := writePacket_spec h.setup h.tables hn
    dsimp only at hspec
    split at hspec
    · obtain ⟨si, pes, hstep, -⟩ := hspec
      exact hstep.kept.mode
    · exact hspec.kept.mode
  | vos vosData idx => exact (next_other hn (fun _ _ => nofun)).1.mode
  | trailer => exact (next_other hn (fun _ _ => nofun)).1.mode

/-! ## The start -/

/-- The order in which the streams are set up. -/
def rank : CodecType → Nat
  | .video => 0
  | .audio => 1
  | _ => 2

/-- The streams whose type is below `m` may have been set up. -/
structure Stage (m : Nat) (s : AVFormatContext) : Prop where
  nbStreams : s.nbStreams ≤ m
  pid : ∀ k, (s.streams k).pid = pidOf (s.streams k).codecType
  used : ∀ k, (s.streams k).codecId ≠ .unset → k < s.nbStreams ∧ rank (s.streams k).codecType < m
  distinct : ∀ j k, (s.streams j).codecId ≠ .unset → (s.streams k).codecId ≠ .unset →
    (s.streams j).pid = (s.streams k).pid → j = k

theorem rank_eq {t u : CodecType} (h : pidOf t = pidOf u) : rank t = rank u := by
  cases t <;> cases u <;> first | rfl | exact absurd h (by decide)

theorem Stage.mono {m : Nat} (h : Stage m s) : Stage (m + 1) s :=
  ⟨Nat.le_succ_of_le h.nbStreams, h.pid,
    fun k hk => ⟨(h.used k hk).1, Nat.lt_succ_of_lt (h.used k hk).2⟩, h.distinct⟩

theorem Stage.add {m : Nat} {codecType : CodecType} (h : Stage m s) (hm : rank codecType = m)
    (codecId : CodecID) (channels sampleRate : Int) :
    Stage (m + 1) (s.addStream codecType codecId channels sampleRate) := by
  have hnew : ∀ k, k ≠ s.nbStreams →
      (s.addStream codecType codecId channels sampleRate).streams k = s.streams k :=
    fun k hk => update_of_ne hk _ _
  have hself : (s.addStream codecType codecId channels sampleRate).streams s.nbStreams =
      { s.streams s.nbStreams with
        codecType := codecType
        codecId := codecId
        channels := channels
        sampleRate := sampleRate
        pid := pidOf codecType } := update_self _ _ _
  -- the new stream has a PID of its own
  have hfresh : ∀ k, k ≠ s.nbStreams → (s.streams k).codecId ≠ .unset →
      (s.streams k).pid ≠ pidOf codecType := by
    intro k hk hid he
    have hlt := (h.used k hid).2
    rw [h.pid] at he
    rw [rank_eq he] at hlt
    omega
  refine ⟨Nat.succ_le_succ h.nbStreams, fun k => ?_, fun k hk => ?_, fun j k hj hk he => ?_⟩
  · by_cases hkn : k = s.nbStreams
    · rw [hkn, hself]
    · rw [hnew k hkn]
      exact h.pid k
  · change k < s.nbStreams + 1 ∧ _
    by_cases hkn : k = s.nbStreams
    · rw [hkn, hself]
      exact ⟨Nat.lt_succ_self _, by change rank codecType < m + 1; omega⟩
    · rw [hnew k hkn] at hk ⊢
      exact ⟨Nat.lt_succ_of_lt (h.used k hk).1, Nat.lt_succ_of_lt (h.used k hk).2⟩
  · by_cases hjn : j = s.nbStreams <;> by_cases hkn : k = s.nbStreams
    · rw [hjn, hkn]
    · rw [hnew k hkn] at hk he
      rw [hjn, hself] at he
      exact absurd he.symm (hfresh k hkn hk)
    · rw [hnew j hjn] at hj he
      rw [hkn, hself] at he
      exact absurd he (hfresh j hjn hj)
    · rw [hnew j hjn] at hj he
      rw [hnew k hkn] at hk he
      exact h.distinct j k hj hk he

theorem stage_open (mem : Nat → UInt8) (mode : OutputBufferMode) : Stage 0 (muxerOpen mem mode) :=
  ⟨Nat.le_refl 0, fun _ => rfl, fun _ hk => absurd rfl hk, fun _ _ hj => absurd rfl hj⟩

theorem Stage.setVideo (h : Stage 0 s) (inf : MediaFileInf) : Stage 1 (s.setVideo inf) := by
  unfold AVFormatContext.setVideo
  split
  · obtain ⟨hn, hpid, hused, hdistinct⟩ :=
      h.add (show rank .video = 0 from rfl) (if inf.isH265 then .h265 else .h264) 0 0
    exact ⟨hn, hpid, hused, hdistinct⟩
  · exact h.mono

theorem Stage.setAudio (h : Stage 1 s) (inf : MediaFileInf) : Stage 2 (s.setAudio inf) := by
  unfold AVFormatContext.setAudio
  split
  · obtain ⟨hn, hpid, hused, hdistinct⟩ :=
      h.add (show rank .audio = 1 from rfl) (if inf.isAac then .aac else .adpcm) inf.channels
        inf.sampleRate
    exact ⟨hn, hpid, hused, hdistinct⟩
  · exact h.mono

theorem Stage.setText (h : Stage 2 s) (inf : MediaFileInf) : Stage 3 (s.setText inf) := by
  unfold AVFormatContext.setText
  split
  · exact h.add rfl .ggad 0 0
  · exact h.mono

/-- What `SETAVPARA` leaves as it was opened. -/
theorem setAvPara_frame (mem : Nat → UInt8) (mode : OutputBufferMode) (inf : MediaFileInf)
    (h : (muxerOpen mem mode).setAvPara inf = some s) :
    s.ring = (muxerOpen mem mode).ring ∧ s.outputBufferMode = mode ∧
      s.pat = ⟨0, 15⟩ ∧ s.pmt = ⟨0x0100, 15⟩ ∧ s.pcrCounter = 0 := by
  unfold setAvPara at h
  dsimp only at h
  split at h
  · cases h
  · cases h
    unfold AVFormatContext.setText AVFormatContext.setAudio AVFormatContext.setVideo
    split <;> split <;> split <;> exact ⟨rfl, rfl, rfl, rfl, rfl⟩

theorem running_start {mem : Nat → UInt8} {mode : OutputBufferMode} {inf : MediaFileInf}
    (h : start mem mode inf = some s) : s.Running := by
  obtain ⟨hring, -, hpat, hpmt, hpcr⟩ := setAvPara_frame mem mode inf h
  have hstage := (((stage_open mem mode).setVideo inf).setAudio inf).setText inf
  refine ⟨?_, ⟨fun t => ?_, fun t => ?_, fun t => ?_, ?_⟩⟩
  · unfold start setAvPara at h
    dsimp only at h
    split at h
    · cases h
    · cases h
      exact ⟨hstage.nbStreams, hstage.pid, hstage.distinct⟩
  · cases t
    · exact congrArg _ hpat
    · exact congrArg _ hpmt
  · cases t
    · change s.pat.cc < 16
      rw [hpat]
      decide
    · change s.pmt.cc < 16
      rw [hpmt]
      decide
  · rw [hring]
    exact .nil
  · rw [hpcr]
    decide

end AVFormatContext

end Melis.Mpeg2ts
