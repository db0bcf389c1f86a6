import Melis.Mpeg2ts.Call

/-!
# Continuity counters

PAT and PMT count on over the whole output. A PES packet starts its PID again at
the counter 1, so the counters of a stream go on just where the PES packet before
ended with the counter 0 (`continuity_iff`).
-/

namespace Melis.Mpeg2ts

open Lib Memory Function TransportStream AVFormatContext

variable {s s' : AVFormatContext} {pkt : AVPacket} {realloc : Bool} {i : Input}
  {is : List Input} {mem : Nat → UInt8} {mode : OutputBufferMode} {inf : MediaFileInf}

/-- Where a packet is written that has data, or gets some, the last packet of its
stream in the output, if there is one, has the counter 0. -/
def CountsOn (s : AVFormatContext) : Input → Prop
  | .packet pkt realloc =>
    let k := s.realStrmIdx pkt
    s.accepts k pkt realloc → s.front k pkt ++ s.copied k pkt ≠ [] →
      ∀ p ∈ (ofPid (s.streams k).pid s.ring.generated).getLast?, p.counter = 0
  | _ => True

theorem pesPackets_ne_nil {pid cc : Nat} {header payload : List UInt8} (h : payload ≠ []) :
    pesPackets pid cc payload.length true header payload ≠ [] := by
  obtain ⟨n, hn⟩ := Nat.exists_eq_succ_of_ne_zero (List.length_pos_iff.mpr h).ne'
  rw [hn]
  unfold pesPackets
  rw [if_neg h]
  exact List.cons_ne_nil _ _

/-- The packets of the tables do not belong to a stream. -/
theorem AVFormatContext.PesStep.ofPid_si {k : Nat} {payload : List UInt8} {pts : Int}
    {si pes : List Packet} (h : PesStep s s' k payload pts si pes) (hs : s.Setup) (j : Nat) :
    ofPid (s.streams j).pid si = [] := by
  refine ofPid_eq_nil fun p hp he => ?_
  rcases h.siPids p hp with ⟨t, ht⟩ | ht
  · exact absurd (he.symm.trans ht) ((pid_ne hs j).1 t)
  · exact absurd (he.symm.trans ht) (pid_ne hs j).2

theorem AVFormatContext.PesStep.generated {k : Nat} {payload : List UInt8} {pts : Int}
    {si pes : List Packet} (h : PesStep s s' k payload pts si pes) :
    s'.ring.generated = s.ring.generated ++ si ++ pes := by
  rw [h.ring, TsCache.generated_callback, TsCache.generated_cachePackets, List.append_assoc]

theorem AVFormatContext.PesStep.counted {k : Nat} {payload : List UInt8} {pts : Int}
    {si pes : List Packet} (h : PesStep s s' k payload pts si pes) (hs : s.Setup) :
    Counted (s.streams k).pid 0 pes := by
  rw [h.pes_eq]
  exact counted_pesPackets (pid_lt hs k) ((length_pesHeader ..).trans (by decide))

/-- A step loses no packet of the output. -/
theorem generated_next (hr : s.Running) (h : next s i = some s') :
    ∃ ps, s'.ring.generated = s.ring.generated ++ ps := by
  cases i with
  | packet pkt realloc =>
    have hspec := writePacket_spec hr.setup hr.tables h
    dsimp only at hspec
    split at hspec
    · obtain ⟨si, pes, hstep, -⟩ := hspec
      exact ⟨si ++ pes, by rw [hstep.generated, List.append_assoc]⟩
    · exact ⟨[], by rw [hspec.ring, List.append_nil]⟩
  | vos vosData idx =>
    obtain ⟨-, -, -, hgen⟩ := next_other h (fun _ _ => nofun)
    exact ⟨[], by rw [hgen, List.append_nil]⟩
  | trailer =>
    obtain ⟨-, -, -, hgen⟩ := next_other h (fun _ _ => nofun)
    exact ⟨[], by rw [hgen, List.append_nil]⟩

theorem countsOn_iff (hr : s.Running) (hc : Continuous s.ring.generated) (h : next s i = some s') :
    Continuous s'.ring.generated ↔ CountsOn s i := by
  cases i with
  | packet pkt realloc =>
    have hspec := writePacket_spec hr.setup hr.tables h
    dsimp only at hspec
    unfold CountsOn
    dsimp only
    generalize s.realStrmIdx pkt = k at hspec ⊢
    split at hspec
    · rename_i hacc
      obtain ⟨si, pes, hstep, -⟩ := hspec
      generalize s.front k pkt ++ s.copied k pkt = payload at hstep ⊢
      have hsi := hstep.continuous hc
      have hcount := hstep.counted hr.setup
      rw [hstep.generated]
      by_cases hne : payload = []
      · have hnil : pes = [] := by
          rw [hstep.pes_eq, hne]
          rfl
        rw [hnil, List.append_nil]
        exact iff_of_true hsi fun _ h => absurd hne h
      · have hpes : pes ≠ [] := hstep.pes_eq ▸ pesPackets_ne_nil hne
        rw [hsi.append_iff hcount.ofPid hcount.counts hpes, ofPid_append,
          hstep.ofPid_si hr.setup k, List.append_nil]
        constructor
        · intro hjoin _ _ p hp
          have hlt := p.counter_lt
          have hone := hjoin p hp
          omega
        · intro hzero p hp
          rw [hzero hacc hne p hp]
    · rename_i hacc
      rw [hspec.ring]
      exact iff_of_true hc fun h => absurd h hacc
  | vos vosData idx =>
    obtain ⟨-, -, -, hgen⟩ := next_other h (fun _ _ => nofun)
    rw [hgen]
    exact iff_of_true hc trivial
  | trailer =>
    obtain ⟨-, -, -, hgen⟩ := next_other h (fun _ _ => nofun)
    rw [hgen]
    exact iff_of_true hc trivial

theorem continuous_start (h : start mem mode inf = some s) : Continuous s.ring.generated := by
  obtain ⟨hring, -⟩ := setAvPara_frame mem mode inf h
  rw [hring]
  exact .nil

/-- A camera that records H.264 and sends the packets to a callback. -/
def camera : MediaFileInf := ⟨1920, false, 0, 0, false, false, false⟩

def onePacket : Input := .packet ⟨0, [1], [], 0, 0, 0⟩ true

end Melis.Mpeg2ts
