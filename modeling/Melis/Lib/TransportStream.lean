import Mathlib.Data.Int.NatAbs
import Mathlib.Data.List.Chain

/-!
# MPEG-2 transport streams, as a receiver reads them

A packet has 188 bytes: the sync byte, the PID, flags and a continuity counter,
then an adaptation field and a payload, each if its flag says so. The payloads of
the packets of a PID, cut where a packet starts a unit, are the units that were
sent (`units`); `Continuous` says that no counter of a PID skips or repeats.
`Pes.parse` reads a unit that is a PES packet.
-/

namespace Melis.Lib.TransportStream

def packetSize : Nat := 188

abbrev Packet := List UInt8

namespace Packet

variable (p : Packet)

def pid : Nat := (p.getD 1 0 &&& 0x1f).toNat * 256 + (p.getD 2 0).toNat

def unitStart : Bool := p.getD 1 0 &&& 0x40 != 0

def hasAdaptation : Bool := p.getD 3 0 &&& 0x20 != 0

def hasPayload : Bool := p.getD 3 0 &&& 0x10 != 0

def counter : Nat := (p.getD 3 0 &&& 0x0f).toNat

/-- What is behind the header and the adaptation field. -/
def payload : List UInt8 := p.drop (if p.hasAdaptation then 5 + (p.getD 4 0).toNat else 4)

theorem counter_lt : p.counter < 16 := by
  unfold counter
  rw [UInt8.toNat_and]
  exact Nat.lt_succ_of_le Nat.and_le_right

structure WellFormed : Prop where
  length : p.length = packetSize
  sync : p.head? = some 0x47

end Packet

/-- The packets of PID `n` that carry a payload. -/
def ofPid (n : Nat) (ps : List Packet) : List Packet := ps.filter fun p => p.pid == n && p.hasPayload

/-- The payload of `p` begins a unit or goes on with the last one. -/
def deliver (us : List (List UInt8)) (p : Packet) : List (List UInt8) :=
  if p.unitStart then us ++ [p.payload] else us.dropLast ++ (us.getLast?.map (· ++ p.payload)).toList

/-- The units that the packets of one PID carry. -/
def units (ps : List Packet) : List (List UInt8) := ps.foldl deliver []

/-- For each PID, the counter of a packet with payload is the one after that of
the last such packet. -/
def Continuous (ps : List Packet) : Prop :=
  ∀ n, (ofPid n ps).IsChain fun p q => q.counter = (p.counter + 1) % 16

section

variable {n cc : Nat} {p : Packet} {ps qs : List Packet} {us : List (List UInt8)} {u : List UInt8}

theorem ofPid_append : ofPid n (ps ++ qs) = ofPid n ps ++ ofPid n qs := List.filter_append ..

theorem ofPid_eq_self (h : ∀ p ∈ ps, p.pid = n ∧ p.hasPayload) : ofPid n ps = ps :=
  List.filter_eq_self.mpr fun p hp => by simp [h p hp]

theorem ofPid_eq_nil (h : ∀ p ∈ ps, p.pid = n → p.hasPayload = false) : ofPid n ps = [] :=
  List.filter_eq_nil_iff.mpr fun p hp => by
    simp only [Bool.and_eq_true, beq_iff_eq, not_and, Bool.not_eq_true]
    exact h p hp

theorem deliver_start (h : p.unitStart = true) : deliver us p = us ++ [p.payload] := if_pos h

theorem deliver_more (h : p.unitStart = false) :
    deliver (us ++ [u]) p = us ++ [u ++ p.payload] := by
  unfold deliver
  rw [h, if_neg Bool.false_ne_true, List.dropLast_concat, List.getLast?_concat]
  rfl

theorem foldl_deliver_more (h : ∀ p ∈ ps, p.unitStart = false) :
    ps.foldl deliver (us ++ [u]) = us ++ [u ++ ps.flatMap Packet.payload] := by
  induction ps generalizing u with
  | nil => rw [List.foldl_nil, List.flatMap_nil, List.append_nil]
  | cons p ps ih =>
    obtain ⟨hp, hps⟩ := List.forall_mem_cons.mp h
    rw [List.foldl_cons, deliver_more hp, ih hps, List.flatMap_cons, List.append_assoc]

theorem units_append : units (ps ++ qs) = qs.foldl deliver (units ps) := List.foldl_append ..

/-- A packet that starts a unit and packets that go on with it add one unit. -/
theorem units_append_unit (hp : p.unitStart = true) (hqs : ∀ q ∈ qs, q.unitStart = false) :
    units (ps ++ p :: qs) = units ps ++ [(p :: qs).flatMap Packet.payload] := by
  rw [units_append, List.foldl_cons, deliver_start hp, foldl_deliver_more hqs, List.flatMap_cons]

/-! ## Continuity -/

/-- The counters of `ps` go on from `cc`. -/
def Counts : Nat → List Packet → Prop
  | _, [] => True
  | cc, p :: ps => p.counter = (cc + 1) % 16 ∧ Counts p.counter ps

/-- The last packet of PID `n`, if there is one, has the counter `cc`. -/
def EndsAt (n cc : Nat) (ps : List Packet) : Prop := ∀ p ∈ (ofPid n ps).getLast?, p.counter = cc

theorem Counts.isChain (h : Counts cc ps) :
    ps.IsChain fun p q => q.counter = (p.counter + 1) % 16 := by
  induction ps generalizing cc with
  | nil => exact .nil
  | cons p ps ih =>
    cases ps with
    | nil => exact .singleton p
    | cons q ps => exact .cons_cons h.2.1 (ih h.2)

theorem Counts.getLast (h : Counts cc ps) :
    ∀ p ∈ ps.getLast?, p.counter = (cc + ps.length) % 16 := by
  induction ps generalizing cc with
  | nil => nofun
  | cons p ps ih =>
    cases ps with
    | nil =>
      rintro q ⟨⟩
      exact h.1
    | cons q ps =>
      rw [List.getLast?_cons_cons]
      intro x hx
      rw [ih h.2 x hx, h.1, Nat.mod_add_mod, List.length_cons (a := p), Nat.add_assoc,
        Nat.add_comm 1]

theorem EndsAt.nil : EndsAt n cc [] := nofun

/-- Packets of other PIDs, or without payload. -/
theorem EndsAt.append_other (h : EndsAt n cc ps) (hq : ∀ q ∈ qs, q.pid = n → q.hasPayload = false) :
    EndsAt n cc (ps ++ qs) := by
  unfold EndsAt
  rw [ofPid_append, ofPid_eq_nil hq, List.append_nil]
  exact h

theorem EndsAt.append_counts (h : EndsAt n cc ps) (hcc : cc < 16)
    (hq : ∀ q ∈ qs, q.pid = n ∧ q.hasPayload) (hc : Counts cc qs) :
    EndsAt n ((cc + qs.length) % 16) (ps ++ qs) := by
  unfold EndsAt
  rw [ofPid_append, ofPid_eq_self hq]
  cases qs with
  | nil =>
    rw [List.append_nil, List.length_nil, Nat.add_zero, Nat.mod_eq_of_lt hcc]
    exact h
  | cons q qs =>
    rw [List.getLast?_append_of_ne_nil _ (List.cons_ne_nil q qs)]
    exact hc.getLast

theorem Continuous.nil : Continuous [] := fun _ => .nil

theorem Continuous.append_left (h : Continuous (ps ++ qs)) : Continuous ps := by
  intro m
  have hm := h m
  rw [ofPid_append] at hm
  exact hm.left_of_append

/-- Packets without payload do not count. -/
theorem Continuous.append_silent (h : Continuous ps) (hq : ∀ q ∈ qs, q.hasPayload = false) :
    Continuous (ps ++ qs) := by
  intro m
  rw [ofPid_append, ofPid_eq_nil fun q hmem _ => hq q hmem, List.append_nil]
  exact h m

theorem Continuous.append_iff (h : Continuous ps) (hq : ∀ q ∈ qs, q.pid = n ∧ q.hasPayload)
    (hc : Counts cc qs) (hne : qs ≠ []) :
    Continuous (ps ++ qs) ↔ ∀ p ∈ (ofPid n ps).getLast?, (p.counter + 1) % 16 = (cc + 1) % 16 := by
  have hself : ofPid n qs = qs := ofPid_eq_self hq
  obtain ⟨q, qs, rfl⟩ := List.exists_cons_of_ne_nil hne
  constructor
  · intro hall p hp
    have hn := hall n
    rw [ofPid_append, hself, List.isChain_append] at hn
    rw [← hn.2.2 p hp q rfl, hc.1]
  · intro hjoin m
    rw [ofPid_append]
    by_cases hm : m = n
    · subst hm
      rw [hself, List.isChain_append]
      refine ⟨h m, hc.isChain, fun p hp x hx => ?_⟩
      cases hx
      rw [hc.1, hjoin p hp]
    · have hnil : ofPid m (q :: qs) = [] := ofPid_eq_nil fun x hmem he =>
        absurd (he.symm.trans (hq x hmem).1) hm
      rw [hnil, List.append_nil]
      exact h m

theorem Continuous.append_counts (h : Continuous ps) (hend : EndsAt n cc ps)
    (hq : ∀ q ∈ qs, q.pid = n ∧ q.hasPayload) (hc : Counts cc qs) : Continuous (ps ++ qs) := by
  cases qs with
  | nil => rwa [List.append_nil]
  | cons q qs =>
    refine (h.append_iff hq hc (List.cons_ne_nil q qs)).mpr fun p hp => ?_
    rw [hend p hp]

end

/-! ## PES packets -/

/-- A PES packet; `following` counts the bytes behind the packet length, and
`optional` is what is left of the optional bytes behind the PTS. -/
structure Pes where
  streamId : UInt8
  packetLength : Nat
  following : Nat
  pts : Option Nat
  optional : List UInt8
  payload : List UInt8

namespace Pes

/-- `private_stream_2`, whose packets have no optional header. -/
def privateStream2 : UInt8 := 0xbf

/-- The 33 bits of a PTS, between a tag and three marker bits. -/
def parsePts (tag b0 b1 b2 b3 b4 : UInt8) : Option Nat :=
  if b0 >>> 4 = tag ∧ b0 &&& 1 = 1 ∧ b2 &&& 1 = 1 ∧ b4 &&& 1 = 1 then
    some ((b0.toNat / 2 % 8 * 2 ^ 30) + (b1.toNat * 256 + b2.toNat) / 2 * 2 ^ 15 +
      (b3.toNat * 256 + b4.toNat) / 2)
  else none

/-- The optional bytes: a PTS if the flags say so, and the rest. -/
def parseOptional (flags : UInt8) (bytes : List UInt8) : Option (Option Nat × List UInt8) :=
  if flags = 0x80 then
    match bytes with
    | b0 :: b1 :: b2 :: b3 :: b4 :: rest => (parsePts 2 b0 b1 b2 b3 b4).map fun t => (some t, rest)
    | _ => none
  else if flags = 0 then some (none, bytes)
  else none

def parse : List UInt8 → Option Pes
  | b0 :: b1 :: b2 :: sid :: l0 :: l1 :: rest =>
    if b0 = 0 ∧ b1 = 0 ∧ b2 = 1 then
      let packetLength := l0.toNat * 256 + l1.toNat
      if sid = privateStream2 then some ⟨sid, packetLength, rest.length, none, [], rest⟩
      else
        match rest with
        | _ :: flags :: len :: bytes =>
          if len.toNat ≤ bytes.length then
            (parseOptional flags (bytes.take len.toNat)).map fun (pts, optional) =>
              ⟨sid, packetLength, rest.length, pts, optional, bytes.drop len.toNat⟩
          else none
        | _ => none
    else none
  | _ => none

/-- A packet with an optional header. -/
theorem parse_eq {sid l0 l1 val flags len : UInt8} {opt bytes rest : List UInt8} {pts : Option Nat}
    (hsid : sid ≠ privateStream2) (hlen : opt.length = len.toNat)
    (hopt : parseOptional flags opt = some (pts, rest)) :
    parse (0 :: 0 :: 1 :: sid :: l0 :: l1 :: val :: flags :: len :: (opt ++ bytes)) =
      some ⟨sid, l0.toNat * 256 + l1.toNat, (opt ++ bytes).length + 3, pts, rest, bytes⟩ := by
  have hle : len.toNat ≤ (opt ++ bytes).length := by
    rw [List.length_append]
    omega
  have htake : (opt ++ bytes).take len.toNat = opt := by rw [← hlen, List.take_left]
  have hdrop : (opt ++ bytes).drop len.toNat = bytes := by rw [← hlen, List.drop_left]
  unfold parse
  simp only [true_and, if_true, if_neg hsid, if_pos hle, htake, hdrop, hopt, Option.map_some,
    List.length_cons]

theorem parse_privateStream2 {l0 l1 : UInt8} {bytes : List UInt8} :
    parse (0 :: 0 :: 1 :: privateStream2 :: l0 :: l1 :: bytes) =
      some ⟨privateStream2, l0.toNat * 256 + l1.toNat, bytes.length, none, [], bytes⟩ := by
  unfold parse
  simp only [true_and, if_true]

end Pes

end Melis.Lib.TransportStream
