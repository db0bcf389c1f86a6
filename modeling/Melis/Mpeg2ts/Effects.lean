import Melis.Mpeg2ts.Packets

/-!
# What a call does

Each routine writes a list of TS packets to the ring and counts them; what was set
up stays as it is.
-/

namespace Melis.Mpeg2ts

open Lib Memory Function TransportStream

variable {s s' : AVFormatContext} {r : TsCache} {mode : OutputBufferMode} {t : Table}
  {k n cc idx : Nat} {isStart first : Bool} {header payload buf data : List UInt8}
  {pts : Int} {pkt : AVPacket} {realloc : Bool}

namespace TsCache

def cachePackets (mode : OutputBufferMode) (ps : List Packet) (r : TsCache) : TsCache :=
  ps.foldl (fun r p => r.cachePacket mode p) r

theorem cachePackets_append {ps qs : List Packet} :
    r.cachePackets mode (ps ++ qs) = (r.cachePackets mode ps).cachePackets mode qs :=
  List.foldl_append ..

theorem generated_cachePacket {p : Packet} :
    (r.cachePacket mode p).generated = r.generated ++ [p] := by
  unfold cachePacket
  extract_lets r'
  split <;> rfl

theorem generated_cachePackets {ps : List Packet} :
    (r.cachePackets mode ps).generated = r.generated ++ ps := by
  induction ps generalizing r with
  | nil => exact (List.append_nil _).symm
  | cons p ps ih =>
    change ((r.cachePacket mode p).cachePackets mode ps).generated = _
    rw [ih, generated_cachePacket, List.append_assoc]
    rfl

theorem generated_callback : (r.callback mode).generated = r.generated := by
  unfold callback
  split <;> rfl

end TsCache

/-- The counter after the packets of a list. -/
def lastCc (cc : Nat) (ps : List Packet) : Nat := ps.foldl (fun cc _ => (cc + 1) &&& 0xf) cc

theorem lastCc_eq {ps : List Packet} (h : cc < 16) : lastCc cc ps = (cc + ps.length) % 16 := by
  induction ps generalizing cc with
  | nil => exact (Nat.mod_eq_of_lt h).symm
  | cons p ps ih =>
    change lastCc ((cc + 1) &&& 0xf) ps = _
    rw [ih (and_0xf_lt _), and_0xf, Nat.mod_add_mod, List.length_cons, Nat.add_assoc,
      Nat.add_comm 1]

namespace AVFormatContext

/-! ## The loops -/

theorem sectionLoop_eq : s.sectionLoop t n first buf =
    let ps := sectionPackets (s.table t).pid (s.table t).cc n first buf
    { s.setCc t (lastCc (s.table t).cc ps) with
      ring := s.ring.cachePackets s.outputBufferMode ps } := by
  induction n generalizing s first buf with
  | zero => cases t <;> rfl
  | succ n ih =>
    unfold sectionLoop sectionPackets
    split
    · cases t <;> rfl
    · cases t <;> exact ih

theorem pesLoop_eq : s.pesLoop k n isStart header payload =
    let ps := pesPackets (s.streams k).pid (s.streams k).cc n isStart header payload
    { s.setStreamCc k (lastCc (s.streams k).cc ps) with
      ring := s.ring.cachePackets s.outputBufferMode ps } := by
  induction n generalizing s isStart header payload with
  | zero =>
    unfold pesLoop pesPackets setStreamCc
    dsimp only
    rw [show lastCc (s.streams k).cc [] = (s.streams k).cc from rfl, update_eq_self]
    rfl
  | succ n ih =>
    unfold pesLoop pesPackets
    split
    · unfold setStreamCc
      dsimp only
      rw [show lastCc (s.streams k).cc [] = (s.streams k).cc from rfl, update_eq_self]
      rfl
    · dsimp only
      rw [ih]
      have hself : ∀ cc, (s.setStreamCc k cc).streams k = { s.streams k with cc := cc } :=
        fun cc => update_self k _ _
      have hstream : ∀ cc p, ((s.setStreamCc k cc).cachePacket p).streams k =
        { s.streams k with cc := cc } := fun cc _ => hself cc
      rw [hstream]
      unfold setStreamCc cachePacket
      dsimp only
      rw [update_idem, update_self]
      rfl

end AVFormatContext

/-! ## PAT, PMT and PCR -/

def tablePid : Table → Nat
  | .pat => 0
  | .pmt => 0x0100

def pcrTablePid : Nat := 0x1000

namespace AVFormatContext

/-- The tables count their packets, and so far no counter has skipped. -/
structure Tables (s : AVFormatContext) : Prop where
  pid : ∀ t, (s.table t).pid = tablePid t
  cc : ∀ t, (s.table t).cc < 16
  ends : ∀ t, EndsAt (tablePid t) (s.table t).cc s.ring.generated
  pcr : s.pcrCounter < 16

/-- From `s` to `s'` the packets `ps` of PAT, PMT and PCR were written. -/
structure SiStep (s s' : AVFormatContext) (ps : List Packet) : Prop where
  ring : s'.ring = s.ring.cachePackets s.outputBufferMode ps
  mode : s'.outputBufferMode = s.outputBufferMode
  streams : s'.streams = s.streams
  nbStreams : s'.nbStreams = s.nbStreams
  wellFormed : ∀ p ∈ ps, p.WellFormed
  pids : ∀ p ∈ ps, (∃ t, p.pid = tablePid t) ∨ p.pid = pcrTablePid
  tables : s'.Tables
  continuous : Continuous s.ring.generated → Continuous s'.ring.generated

theorem tablePid_lt (t : Table) : tablePid t < 2 ^ 13 := by cases t <;> decide

theorem tablePid_inj {t u : Table} (h : tablePid t = tablePid u) : t = u := by
  cases t <;> cases u <;> first | rfl | exact absurd h (by decide)

namespace SiStep

variable {s₁ : AVFormatContext} {ps qs : List Packet}

theorem refl (h : s.Tables) : SiStep s s [] := ⟨rfl, rfl, rfl, rfl, nofun, nofun, h, id⟩

theorem trans (h : SiStep s s₁ ps) (h' : SiStep s₁ s' qs) : SiStep s s' (ps ++ qs) where
  ring := by rw [h'.ring, h.ring, h.mode, TsCache.cachePackets_append]
  mode := h'.mode.trans h.mode
  streams := h'.streams.trans h.streams
  nbStreams := h'.nbStreams.trans h.nbStreams
  wellFormed := List.forall_mem_append.mpr ⟨h.wellFormed, h'.wellFormed⟩
  pids := List.forall_mem_append.mpr ⟨h.pids, h'.pids⟩
  tables := h'.tables
  continuous := fun hc => h'.continuous (h.continuous hc)

/-- What was changed before the packets does not matter here. -/
theorem of_eq (h : SiStep s₁ s' ps) (hring : s₁.ring = s.ring)
    (hmode : s₁.outputBufferMode = s.outputBufferMode) (hstreams : s₁.streams = s.streams)
    (hn : s₁.nbStreams = s.nbStreams) : SiStep s s' ps where
  ring := by rw [h.ring, hring, hmode]
  mode := h.mode.trans hmode
  streams := h.streams.trans hstreams
  nbStreams := h.nbStreams.trans hn
  wellFormed := h.wellFormed
  pids := h.pids
  tables := h.tables
  continuous := hring ▸ h.continuous

theorem generated (h : SiStep s s' ps) : s'.ring.generated = s.ring.generated ++ ps := by
  rw [h.ring, TsCache.generated_cachePackets]

end SiStep

theorem table_setCc (u : Table) :
    (s.setCc t cc).table u = if u = t then { s.table t with cc := cc } else s.table u := by
  cases t <;> cases u <;> rfl

theorem siStep_section (h : s.Tables) (ps : List Packet)
    (hps : Counted (tablePid t) (s.table t).cc ps) :
    SiStep s { s.setCc t (lastCc (s.table t).cc ps) with
      ring := s.ring.cachePackets s.outputBufferMode ps } ps where
  ring := rfl
  mode := by cases t <;> rfl
  streams := by cases t <;> rfl
  nbStreams := by cases t <;> rfl
  wellFormed := hps.wellFormed
  pids := fun p hp => .inl ⟨t, (hps.ofPid p hp).1⟩
  tables := by
    have htable : ∀ u, table { s.setCc t (lastCc (s.table t).cc ps) with
        ring := s.ring.cachePackets s.outputBufferMode ps } u =
          if u = t then { s.table t with cc := lastCc (s.table t).cc ps } else s.table u :=
      fun u => table_setCc u
    refine ⟨fun u => ?_, fun u => ?_, fun u => ?_, ?_⟩
    · rw [htable]
      split
      · rename_i hu
        rw [hu]
        exact h.pid t
      · exact h.pid u
    · rw [htable]
      split
      · change lastCc _ _ < 16
        rw [lastCc_eq (h.cc t)]
        exact Nat.mod_lt _ (by decide)
      · exact h.cc u
    · change EndsAt _ _ (s.ring.cachePackets s.outputBufferMode ps).generated
      rw [htable, TsCache.generated_cachePackets]
      split
      · rename_i hu
        rw [hu]
        change EndsAt _ (lastCc _ _) _
        rw [lastCc_eq (h.cc t)]
        exact (h.ends t).append_counts (h.cc t) hps.ofPid hps.counts
      · rename_i hu
        refine (h.ends u).append_other fun q hq he => ?_
        exact absurd (tablePid_inj (he.symm.trans (hps.ofPid q hq).1)) hu
    · cases t <;> exact h.pcr
  continuous := fun hc => by
    change Continuous (s.ring.cachePackets s.outputBufferMode ps).generated
    rw [TsCache.generated_cachePackets]
    exact hc.append_counts (h.ends t) hps.ofPid hps.counts

theorem tables_congr (h : s.Tables) (ht : ∀ t, s'.table t = s.table t)
    (hring : s'.ring.generated = s.ring.generated) (hpcr : s'.pcrCounter = s.pcrCounter) :
    s'.Tables where
  pid t := (congrArg _ (ht t)).trans (h.pid t)
  cc t := ht t ▸ h.cc t
  ends t := by
    rw [ht, hring]
    exact h.ends t
  pcr := hpcr ▸ h.pcr

theorem length_sectionBytes (tid id version secNum lastSecNum : Nat) :
    (sectionBytes tid id version secNum lastSecNum data).length = data.length + 12 := by
  unfold sectionBytes put16
  simp only [List.length_append, List.length_cons, List.length_nil]
  omega

/-- A section of 183 bytes fits in one packet. -/
theorem length_sectionPackets {pid : Nat} (h : buf.length ≤ 183) (hne : buf ≠ []) :
    (sectionPackets pid cc buf.length true buf).length = 1 := by
  obtain ⟨n, hn⟩ := Nat.exists_eq_succ_of_ne_zero (List.length_pos_iff.mpr hne).ne'
  have hrest : buf.drop (min (tsPacketSize - 5) buf.length) = [] := by
    rw [List.drop_eq_nil_iff, Nat.min_eq_right]
    exact h
  rw [hn]
  unfold sectionPackets
  rw [if_neg hne]
  dsimp only
  rw [if_pos rfl, hrest]
  cases n <;> rfl

theorem siStep_writeSection (h : s.Tables) (tid id version secNum lastSecNum : Nat) :
    ∃ ps, SiStep s (s.writeSection t tid id version secNum lastSecNum data) ps ∧
      (data.length ≤ 171 → ps.length = 1) := by
  unfold writeSection
  split
  · refine ⟨[], .refl h, fun hlen => ?_⟩
    omega
  · have hlen := @length_sectionBytes data tid id version secNum lastSecNum
    dsimp only
    generalize sectionBytes tid id version secNum lastSecNum data = bytes at hlen
    have hcount : Counted (tablePid t) (s.table t).cc
        (sectionPackets (tablePid t) (s.table t).cc bytes.length true bytes) :=
      counted_sectionPackets (tablePid_lt t)
    rw [sectionLoop_eq, h.pid t]
    refine ⟨_, siStep_section h _ hcount, fun hle => length_sectionPackets (by omega) ?_⟩
    rintro rfl
    rw [List.length_nil] at hlen
    omega

theorem siStep_writePat (h : s.Tables) : ∃ ps, SiStep s s.writePat ps ∧ ps.length = 1 := by
  have hdata : (put16 s.sid ++ put16 (0xe000 ||| s.pmt.pid)).length ≤ 171 := by
    change 4 ≤ 171
    decide
  obtain ⟨ps, hstep, hlen⟩ := siStep_writeSection (t := .pat) h 0x00 s.tsid 1 0 0
  exact ⟨ps, hstep, hlen hdata⟩

theorem length_pmtStreams (s : AVFormatContext) (i n : Nat) (last : UInt8) :
    (s.pmtStreams i n last).length ≤ 9 * n := by
  induction n generalizing i last with
  | zero => exact Nat.le_refl 0
  | succ n ih =>
    unfold pmtStreams
    extract_lets st type desc
    have hdesc : desc.length ≤ 4 := by
      change List.length (if type = 0x83 then _ else _) ≤ 4
      split <;> decide
    have hrest := ih (i + 1) type
    simp only [List.length_append, put16, List.length_cons, List.length_nil]
    omega

theorem siStep_writePmt (h : s.Tables) (hn : s.nbStreams ≤ maxStreamsInFile) :
    ∃ ps, SiStep s s.writePmt ps ∧ ps.length = 1 := by
  have hdata : (put16 (0xe000 ||| s.pcrPid) ++ put16 0xf000 ++
      s.pmtStreams 0 s.nbStreams 0xff).length ≤ 171 := by
    have hstreams := s.length_pmtStreams 0 s.nbStreams 0xff
    unfold maxStreamsInFile at hn
    simp only [List.length_append, put16, List.length_cons, List.length_nil]
    omega
  obtain ⟨ps, hstep, hlen⟩ := siStep_writeSection (t := .pmt) h 0x02 s.sid 1 0 0
  exact ⟨ps, hstep, hlen hdata⟩

/-- What a receiver sees of a PCR packet: no payload. -/
theorem pcrPacket_sent (pts : Int) (hcc : cc < 16) :
    (pcrPacket cc pts).WellFormed ∧ (pcrPacket cc pts).pid = pcrTablePid ∧
      (pcrPacket cc pts).hasPayload = false := by
  have hflags : ∀ c < 16, (UInt8.ofNat (0x20 ||| c) &&& 0x10 != 0) = false := by decide
  refine ⟨⟨?_, rfl⟩, ?_, hflags cc hcc⟩
  · unfold pcrPacket
    rw [List.length_append, List.length_replicate]
    rfl
  · change ((0x50 : UInt8) &&& 0x1f).toNat * 256 + (0x00 : UInt8).toNat = 0x1000
    decide

theorem siStep_writePcrTable (pts : Int) (h : s.Tables) : ∃ p, SiStep s (s.writePcrTable pts) [p] := by
  obtain ⟨hwell, hpid, hsilent⟩ := pcrPacket_sent pts h.pcr
  have hgen : (s.writePcrTable pts).ring.generated =
      s.ring.generated ++ [pcrPacket s.pcrCounter pts] := TsCache.generated_cachePacket
  have hall : ∀ q ∈ [pcrPacket s.pcrCounter pts], q.hasPayload = false :=
    List.forall_mem_singleton.mpr hsilent
  refine ⟨_, rfl, rfl, rfl, rfl, List.forall_mem_singleton.mpr hwell,
    List.forall_mem_singleton.mpr (.inr hpid), ⟨h.pid, h.cc, fun t => ?_, and_0xf_lt _⟩, ?_⟩
  · rw [hgen]
    exact (h.ends t).append_other fun q hq _ => hall q hq
  · intro hc
    rw [hgen]
    exact hc.append_silent hall

/-- How many packets `retransmit_si_info` writes. -/
def siCount (s : AVFormatContext) (idx : Nat) : Nat :=
  if s.outputBufferMode = .callbackBuffer then
    (if s.patPmtCounter = 4 ∨ s.patPmtFlag then 2 else 0) + if idx = codecTypeVideo then 1 else 0
  else if s.patPacketCount = s.patPacketPeriod then 3
  else 0

theorem siStep_tables (h : s.Tables) (hn : s.nbStreams ≤ maxStreamsInFile) :
    ∃ ps, SiStep s s.writePat.writePmt ps ∧ ps.length = 2 := by
  obtain ⟨ps, hpat, hlen⟩ := siStep_writePat h
  obtain ⟨qs, hpmt, hlen'⟩ := siStep_writePmt hpat.tables (hpat.nbStreams.le.trans hn)
  refine ⟨ps ++ qs, hpat.trans hpmt, ?_⟩
  rw [List.length_append, hlen, hlen']

theorem siStep_retransmit (pts : Int) (idx : Nat) (h : s.Tables) (hn : s.nbStreams ≤ maxStreamsInFile) :
    ∃ ps, SiStep s (s.retransmitSiInfo pts idx) ps ∧ ps.length = s.siCount idx := by
  unfold retransmitSiInfo siCount
  by_cases hmode : s.outputBufferMode = .callbackBuffer
  · rw [if_pos hmode, if_pos hmode]
    have htables : ∃ ps, SiStep s (if s.patPmtCounter = 4 ∨ s.patPmtFlag then
        { s with patPmtCounter := 0, patPmtFlag := false }.writePat.writePmt else s) ps ∧
          ps.length = if s.patPmtCounter = 4 ∨ s.patPmtFlag then 2 else 0 := by
      split
      · obtain ⟨ps, hstep, hlen⟩ := siStep_tables
          (s := { s with patPmtCounter := 0, patPmtFlag := false })
          (tables_congr h (fun t => by cases t <;> rfl) rfl rfl) hn
        exact ⟨ps, hstep.of_eq rfl rfl rfl rfl, hlen⟩
      · exact ⟨[], .refl h, rfl⟩
    obtain ⟨ps, hstep, hlen⟩ := htables
    dsimp only
    by_cases hidx : idx = codecTypeVideo
    · rw [if_pos hidx, if_pos hidx]
      obtain ⟨p, hp⟩ := siStep_writePcrTable pts hstep.tables
      refine ⟨_, hstep.trans hp, ?_⟩
      rw [List.length_append, hlen]
      rfl
    · rw [if_neg hidx, if_neg hidx]
      exact ⟨ps, hstep, hlen⟩
  · rw [if_neg hmode, if_neg hmode]
    by_cases hcount : s.patPacketCount = s.patPacketPeriod
    · rw [if_pos hcount, if_pos hcount]
      obtain ⟨ps, hstep, hlen⟩ := siStep_tables (s := { s with patPacketCount := 0 })
        (tables_congr h (fun t => by cases t <;> rfl) rfl rfl) hn
      obtain ⟨p, hp⟩ := siStep_writePcrTable pts hstep.tables
      refine ⟨ps ++ [p], (hstep.trans hp).of_eq rfl rfl rfl rfl, ?_⟩
      rw [List.length_append, hlen]
      rfl
    · rw [if_neg hcount, if_neg hcount]
      exact ⟨[], .refl h, rfl⟩

/-! ## A PES packet -/

/-- The streams are as they were set up: the PID of each is that of its type, and
those in use have different PIDs. -/
structure Setup (s : AVFormatContext) : Prop where
  nbStreams : s.nbStreams ≤ maxStreamsInFile
  pid : ∀ k, (s.streams k).pid = pidOf (s.streams k).codecType
  distinct : ∀ j k, (s.streams j).codecId ≠ .unset → (s.streams k).codecId ≠ .unset →
    (s.streams j).pid = (s.streams k).pid → j = k

/-- What no call changes. -/
structure Kept (s s' : AVFormatContext) : Prop where
  mode : s'.outputBufferMode = s.outputBufferMode
  nbStreams : s'.nbStreams = s.nbStreams
  codecType : ∀ k, (s'.streams k).codecType = (s.streams k).codecType
  codecId : ∀ k, (s'.streams k).codecId = (s.streams k).codecId
  pid : ∀ k, (s'.streams k).pid = (s.streams k).pid

namespace Kept

variable {s₁ : AVFormatContext}

theorem refl (s : AVFormatContext) : Kept s s := ⟨rfl, rfl, fun _ => rfl, fun _ => rfl, fun _ => rfl⟩

theorem trans (h : Kept s s₁) (h' : Kept s₁ s') : Kept s s' where
  mode := h'.mode.trans h.mode
  nbStreams := h'.nbStreams.trans h.nbStreams
  codecType k := (h'.codecType k).trans (h.codecType k)
  codecId k := (h'.codecId k).trans (h.codecId k)
  pid k := (h'.pid k).trans (h.pid k)

theorem setup (h : Kept s s') (hs : s.Setup) : s'.Setup where
  nbStreams := h.nbStreams.le.trans hs.nbStreams
  pid k := by rw [h.pid, h.codecType, hs.pid]
  distinct j k hj hk he := by
    rw [h.codecId] at hj hk
    rw [h.pid, h.pid] at he
    exact hs.distinct j k hj hk he

/-- A stream that differs from the old one in nothing that is set up. -/
theorem of_update {st : AVStream} (hmode : s'.outputBufferMode = s.outputBufferMode)
    (hn : s'.nbStreams = s.nbStreams) (hstreams : s'.streams = update s.streams k st)
    (htype : st.codecType = (s.streams k).codecType) (hid : st.codecId = (s.streams k).codecId)
    (hpid : st.pid = (s.streams k).pid) : Kept s s' := by
  have hj : ∀ j, s'.streams j = if j = k then st else s.streams j := fun j => by
    rw [hstreams, update_apply]
  refine ⟨hmode, hn, fun j => ?_, fun j => ?_, fun j => ?_⟩ <;>
  · rw [hj]
    split
    · rename_i he
      rw [he]
      assumption
    · rfl

end Kept

theorem SiStep.kept {ps : List Packet} (h : SiStep s s' ps) : Kept s s' :=
  ⟨h.mode, h.nbStreams, fun _ => by rw [h.streams], fun _ => by rw [h.streams],
    fun _ => by rw [h.streams]⟩

theorem kept_setStreamCc (k cc : Nat) : Kept s (s.setStreamCc k cc) :=
  .of_update rfl rfl rfl rfl rfl rfl

theorem pid_lt (h : s.Setup) (k : Nat) : (s.streams k).pid < 2 ^ 13 := by
  rw [h.pid]
  cases (s.streams k).codecType <;> decide

/-- No table has the PID of a stream. -/
theorem pid_ne (h : s.Setup) (k : Nat) :
    (∀ t, (s.streams k).pid ≠ tablePid t) ∧ (s.streams k).pid ≠ pcrTablePid := by
  rw [h.pid]
  cases (s.streams k).codecType <;> exact ⟨fun t => by cases t <;> decide, by decide⟩

/-- How many packets come before those of the PES packet. -/
def startCount (s : AVFormatContext) (idx : Nat) : Nat :=
  if idx ≠ codecTypeText then s.siCount idx else 0

theorem siStep_startPes (h : s.Tables) (hs : s.Setup) (k : Nat) (pts : Int) (idx : Nat) :
    ∃ si, SiStep (s.setStreamCc k 0) (s.startPes k pts idx) si ∧ si.length = s.startCount idx := by
  have htables : (s.setStreamCc k 0).Tables :=
    tables_congr h (fun t => by cases t <;> rfl) rfl rfl
  unfold startPes startCount
  dsimp only
  split
  · obtain ⟨si, hstep, hlen⟩ := siStep_retransmit pts idx htables hs.nbStreams
    refine ⟨si, ⟨hstep.ring, hstep.mode, hstep.streams, hstep.nbStreams, hstep.wellFormed,
      hstep.pids, ?_, hstep.continuous⟩, hlen⟩
    exact tables_congr hstep.tables (fun t => by cases t <;> rfl) rfl rfl
  · exact ⟨[], .refl htables, rfl⟩

/-- A PES packet of stream `k` with the bytes `payload` was written: the packets `si`,
then those of the PES packet. -/
structure PesStep (s s' : AVFormatContext) (k : Nat) (payload : List UInt8) (pts : Int)
    (si pes : List Packet) : Prop where
  ring : s'.ring =
    (s.ring.cachePackets s.outputBufferMode (si ++ pes)).callback s.outputBufferMode
  kept : Kept s s'
  tables : s'.Tables
  wellFormed : ∀ p ∈ si ++ pes, p.WellFormed
  siPids : ∀ p ∈ si, (∃ t, p.pid = tablePid t) ∨ p.pid = pcrTablePid
  pes_eq : pes = pesPackets (s.streams k).pid 0 payload.length true
    (pesHeader (s.streams k).codecId (s.streams k).codecType payload.length pts) payload
  continuous : Continuous s.ring.generated → Continuous (s.ring.generated ++ si)

theorem length_pesHeader (codecId : CodecID) (codecType : CodecType) (n : Nat) (pts : Int) :
    (pesHeader codecId codecType n pts).length ≤ 16 := by
  have hstart : (pesStart codecId).length ≤ 4 := by cases codecId <;> decide
  have hopt : (pesOptional codecType n pts).length ≤ 12 := by
    unfold pesOptional
    by_cases hpts : pts ≠ -1
    · simp only [if_pos hpts]
      exact Nat.le_refl 12
    · simp only [if_neg hpts]
      exact Nat.le_of_ble_eq_true rfl
  unfold pesHeader
  rw [List.length_append]
  split
  · change _ + 2 ≤ 16
    omega
  · omega

theorem pesStep_writePes (h : s.Tables) (hs : s.Setup) (k : Nat) (payload : List UInt8) (pts : Int)
    (idx : Nat) :
    ∃ si pes, PesStep s (s.writePes k payload pts idx) k payload pts si pes ∧
      si.length = s.startCount idx := by
  obtain ⟨si, hstep, hlen⟩ := siStep_startPes h hs k pts idx
  have hst : (s.startPes k pts idx).streams k = { s.streams k with cc := 0 } := by
    rw [hstep.streams]
    exact update_self k _ _
  have hmode : (s.startPes k pts idx).outputBufferMode = s.outputBufferMode := hstep.mode
  have hkept : Kept s (s.startPes k pts idx) := (kept_setStreamCc k 0).trans hstep.kept
  have hcount : Counted (s.streams k).pid 0 (pesPackets (s.streams k).pid 0 payload.length true
      (pesHeader (s.streams k).codecId (s.streams k).codecType payload.length pts) payload) :=
    counted_pesPackets (pid_lt hs k) ((length_pesHeader ..).trans (by decide))
  refine ⟨si, _, ⟨?_, ?_, ?_, ?_, hstep.pids, rfl, ?_⟩, hlen⟩
  · unfold writePes
    dsimp only
    rw [pesLoop_eq, hst, hstep.ring, TsCache.cachePackets_append]
    have hmode' : ∀ cc, ((s.startPes k pts idx).setStreamCc k cc).outputBufferMode =
        s.outputBufferMode := fun _ => hmode
    dsimp only
    rw [hmode', hmode]
    rfl
  · unfold writePes
    dsimp only
    rw [pesLoop_eq]
    exact (hkept.trans (kept_setStreamCc k _)).trans
      ⟨rfl, rfl, fun _ => rfl, fun _ => rfl, fun _ => rfl⟩
  · unfold writePes
    dsimp only
    rw [pesLoop_eq, hst]
    have ht := hstep.tables
    refine ⟨fun t => ?_, fun t => ?_, fun t => ?_, ht.pcr⟩
    · cases t
      · exact ht.pid .pat
      · exact ht.pid .pmt
    · cases t
      · exact ht.cc .pat
      · exact ht.cc .pmt
    · have hends := (ht.ends t).append_other fun q hq (he : q.pid = tablePid t) =>
        absurd ((hcount.ofPid q hq).1.symm.trans he) ((pid_ne hs k).1 t)
      rw [TsCache.generated_callback, TsCache.generated_cachePackets]
      cases t <;> exact hends
  · exact List.forall_mem_append.mpr ⟨hstep.wellFormed, hcount.wellFormed⟩
  · intro hc
    rw [← show (s.startPes k pts idx).ring.generated = s.ring.generated ++ si from hstep.generated]
    exact hstep.continuous hc

end AVFormatContext

end Melis.Mpeg2ts
