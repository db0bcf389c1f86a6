import Melis.Vdec.HevcType

/-!
# What the checks of the stream form are worth

A check is `Right` if it keeps to the chunk, answers as for the bytes in a linear buffer, says yes
to a stream of the form only, and frees its copy. `checkBitStreamType_iff` says for which bytes
both checks are right wherever the bytes are, and at which places of the ring they are right
without a copy.
-/

namespace Melis.Vdec

open Lib Memory Relation

variable {bs : List UInt8} {n m i : Nat} {c : StreamChunk} {mode : SbmMode}

/-! ## Right checks -/

/-- The bytes of the chunk. -/
def StreamChunk.bytes (c : StreamChunk) : List UInt8 :=
  (List.range c.nLength).map fun k => c.mem (c.ring.place c.pData k)

/-- The memory for the copy lies apart from the ring. -/
def StreamChunk.Fits (c : StreamChunk) : SbmMode → Prop
  | .secure (some pBuf) => c.ring.Apart pBuf (c.nLength + 32)
  | _ => True

/-- The address is one of a byte of the chunk, or of its copy. -/
def StreamChunk.Contains (c : StreamChunk) (mode : SbmMode) (a : Nat) : Prop :=
  (∃ k < c.nLength, a = c.ring.place c.pData k) ∨
    ∃ pBuf, mode = .secure (some pBuf) ∧ pBuf ≤ a ∧ a < pBuf + c.nLength

/-- What `malloc` has returned. -/
def SbmMode.allocated : SbmMode → List Nat
  | .secure (some pBuf) => [pBuf]
  | _ => []

/-- `answer` is that for the bytes in a linear buffer. -/
structure TypeCheck.Right (t : TypeCheck) (c : StreamChunk) (mode : SbmMode) (answer : Int)
    (Form : Prop) : Prop where
  reads : ∀ a ∈ t.reads, c.Contains mode a
  same : mode ≠ .secure none → t.ret = answer
  form : t.ret = 0 → Form
  frees : t.frees = mode.allocated

/-- The answer of the search in a linear buffer. -/
def startCodeAnswer (bs : List UInt8) : Int := (startCodeLoop (linear bs 0) bs.length 0).1

/-- The answer of the walk in a linear buffer. -/
def unitAnswer (bs : List UInt8) : Int := (unitWalk (linear bs) bs.length).1

def StreamChunk.RightWith (c : StreamChunk) (mode : SbmMode) : Prop :=
  (checkBitStreamTypeWithStartCode c mode).Right c mode (startCodeAnswer c.bytes)
    (HasStartCode c.bytes)

def StreamChunk.RightWithout (c : StreamChunk) (mode : SbmMode) : Prop :=
  (checkBitStreamTypeWithoutStartCode c mode).Right c mode (unitAnswer c.bytes) (Units c.bytes)

theorem length_bytes (c : StreamChunk) : c.bytes.length = c.nLength := by
  simp [StreamChunk.bytes]

theorem linear_bytes (h : n + i < c.nLength) :
    linear c.bytes n i = c.mem (c.ring.place c.pData (n + i)) := by
  simp [linear, StreamChunk.bytes, h]

/-- The view shows the bytes of the unit behind `n` bytes where they are. -/
structure Shows (c : StreamChunk) (mode : SbmMode) (v : SbmView) (n : Nat) : Prop where
  byte : ∀ i, n + i < c.nLength → v.tmpBuf n i = linear c.bytes n i
  inside : ∀ i, n + i < c.nLength → c.Contains mode (v.addr n i)

/-- In the ring a unit is shown that does not begin behind the end. -/
theorem shows_plain (h : c.pData + n ≤ c.ring.pStreamBufferEnd) {v : SbmView}
    (hv : c.view .plain = some v) : Shows c .plain v n := by
  cases hv
  have haddr (i : Nat) (hi : n + i < c.nLength) :
      SbmView.addr ⟨c.mem, c.ring.pStreamBuffer, c.ring.pStreamBufferEnd, c.ringUnit⟩ n i =
        c.ring.place c.pData (n + i) := by
    have hstart := c.start
    have hlength := c.length
    have hstop := c.ring.stop
    have hunit : c.ringUnit n = c.pData + n := if_neg (by omega)
    show readByteIdx (c.ringUnit n) c.ring.pStreamBuffer c.ring.pStreamBufferEnd i = _
    rw [hunit]
    unfold readByteIdx
    dsimp only
    by_cases hin : c.pData + n + i ≤ c.ring.pStreamBufferEnd
    · rw [if_pos hin, StreamRing.place_lt hstart.1 (by omega), Nat.add_assoc]
    · rw [if_neg hin, StreamRing.place_wrap hstart.1 (by omega) (by omega)]
      omega
  refine ⟨fun i hi => ?_, fun i hi => .inl ⟨n + i, hi, haddr i hi⟩⟩
  rw [linear_bytes hi, ← haddr i hi]
  rfl

/-- The copy has the bytes of the chunk. -/
theorem cdcMemRead_pieces {pBuf k : Nat} (hapart : c.ring.Apart pBuf (c.nLength + 32))
    (hk : k < c.nLength) :
    StreamChunk.cdcMemRead c.mem pBuf c.pieces (pBuf + k) = c.mem (c.ring.place c.pData k) := by
  obtain ⟨hstart, hend⟩ := c.start
  have hlength := c.length
  have hstop := c.ring.stop
  unfold StreamRing.Apart at hapart
  unfold StreamChunk.pieces
  by_cases hfits : c.pData + c.nLength ≤ c.ring.pStreamBufferEnd
  · rw [if_pos hfits]
    unfold StreamChunk.cdcMemRead StreamChunk.cdcMemRead
    rw [copyN_in hk, StreamRing.place_lt hstart (by omega)]
  · rw [if_neg hfits]
    dsimp only
    unfold StreamChunk.cdcMemRead StreamChunk.cdcMemRead StreamChunk.cdcMemRead
    by_cases hfirst : c.pData + k ≤ c.ring.pStreamBufferEnd
    · rw [copyN_out (.inl (by omega)), copyN_in (by omega), StreamRing.place_lt hstart hfirst]
    · -- the byte lies behind the end of the ring
      rw [StreamRing.place_wrap hstart (by omega) (by omega)]
      obtain ⟨i, rfl⟩ : ∃ i, k = c.ring.pStreamBufferEnd - c.pData + 1 + i :=
        Nat.exists_eq_add_of_le (by omega)
      rw [(Nat.add_assoc pBuf (c.ring.pStreamBufferEnd - c.pData + 1) i).symm, copyN_in (by omega),
        copyN_out (by omega)]
      congr 1
      omega

/-- In the copy each unit is shown. -/
theorem shows_secure {pBuf : Nat} (hapart : c.ring.Apart pBuf (c.nLength + 32)) {v : SbmView}
    (hv : c.view (.secure (some pBuf)) = some v) : Shows c (.secure (some pBuf)) v n := by
  cases hv
  have haddr (i : Nat) (hi : n + i < c.nLength) :
      readByteIdx (pBuf + n) pBuf (pBuf + c.nLength) i = pBuf + (n + i) := by
    unfold readByteIdx
    rw [if_pos (by omega), Nat.add_assoc]
  refine ⟨fun i hi => ?_, fun i hi => .inr ⟨pBuf, rfl, ?_⟩⟩
  · rw [linear_bytes hi, ← cdcMemRead_pieces hapart hi, ← haddr i hi]
    rfl
  · have hle : pBuf ≤ pBuf + (n + i) ∧ pBuf + (n + i) < pBuf + c.nLength := by omega
    rw [← haddr i hi] at hle
    exact hle

/-- The copy is made of bytes of the chunk. -/
theorem copyReads_contains : ∀ a ∈ c.copyReads mode, c.Contains mode a := by
  obtain ⟨hstart, hend⟩ := c.start
  have hlength := c.length
  have hstop := c.ring.stop
  match mode with
  | .plain => exact fun a => nofun
  | .secure none => exact fun a => nofun
  | .secure (some pBuf) =>
    intro a ha
    refine .inl ?_
    simp only [StreamChunk.copyReads, List.mem_flatMap, Prod.exists, List.mem_range'_1] at ha
    obtain ⟨p, k, hpiece, hle, hlt⟩ := ha
    unfold StreamChunk.pieces at hpiece
    split at hpiece
    · obtain ⟨rfl, rfl⟩ := Prod.mk.inj (List.mem_singleton.1 hpiece)
      exact ⟨a - c.pData, by omega, by rw [StreamRing.place_lt hstart (by omega)]; omega⟩
    · simp only [List.mem_cons, List.not_mem_nil, or_false, Prod.mk.injEq] at hpiece
      rcases hpiece with ⟨rfl, rfl⟩ | ⟨rfl, rfl⟩
      · exact ⟨a - c.pData, by omega, by rw [StreamRing.place_lt hstart (by omega)]; omega⟩
      · refine ⟨c.ring.pStreamBufferEnd - c.pData + 1 + (a - c.ring.pStreamBuffer), by omega, ?_⟩
        rw [StreamRing.place_wrap hstart (by omega) (by omega)]
        omega

/-- Without memory nothing is read. -/
theorem right_without_memory {t : TypeCheck} {answer : Int} {Form : Prop} (ht : t = ⟨-2, [], []⟩) :
    t.Right c (.secure none) answer Form := by
  subst ht
  exact ⟨fun _ => nofun, fun hnot => absurd rfl hnot, fun hret => absurd hret (by decide), rfl⟩

theorem startCodeAnswer_eq_zero : startCodeAnswer bs = 0 ↔ FindsStartCode bs :=
  startCodeLoop_ret (linear bs 0) bs.length 0

theorem unitAnswer_eq_zero : unitAnswer bs = 0 ↔ EndsInUnit bs := unitLoop_ret

/-- The search is right but for what it frees. -/
theorem rightWith_iff_frees {v : SbmView} (hv : c.view mode = some v) (hshow : Shows c mode v 0) :
    c.RightWith mode ↔
      (if mode ≠ .plain ∧ startCodeAnswer c.bytes ≠ 0 then [v.unit 0] else []) = mode.allocated := by
  have hloop : startCodeLoop (v.tmpBuf 0) c.nLength 0 =
      startCodeLoop (linear c.bytes 0) c.bytes.length 0 := by
    rw [length_bytes]
    refine startCodeLoop_congr (fun i hi => ?_) 0
    exact hshow.byte i (by omega)
  have hcheck : checkBitStreamTypeWithStartCode c mode =
      { ret := startCodeAnswer c.bytes
        reads := c.copyReads mode ++
          (startCodeLoop (linear c.bytes 0) c.bytes.length 0).2.map (v.addr 0)
        frees := if mode ≠ .plain ∧ startCodeAnswer c.bytes ≠ 0 then [v.unit 0] else [] } := by
    unfold checkBitStreamTypeWithStartCode startCodeAnswer
    rw [hv]
    dsimp only
    rw [hloop]
  unfold StreamChunk.RightWith
  rw [hcheck]
  refine ⟨fun h => h.frees, fun hfrees => ⟨fun a ha => ?_, fun _ => rfl, fun hret => ?_, hfrees⟩⟩
  · rcases List.mem_append.1 ha with ha | ha
    · exact copyReads_contains a ha
    · obtain ⟨i, hi, rfl⟩ := List.mem_map.1 ha
      have hlt := startCodeLoop_reads _ _ 0 i hi
      rw [length_bytes] at hlt
      exact hshow.inside i (by omega)
  · exact (startCodeAnswer_eq_zero.1 hret).hasStartCode

/-- The units that the walk comes to are shown, with their headers. -/
def ShowsUnits (c : StreamChunk) (mode : SbmMode) (v : SbmView) : Prop :=
  ∀ m, ComesTo c.bytes m → Shows c mode v m ∧ m + 6 ≤ c.nLength

theorem unitWalk_shown {v : SbmView} (hshow : ShowsUnits c mode v) :
    unitWalk v.tmpBuf c.nLength = unitLoop (unitSize c.bytes) (unitHeader c.bytes) c.bytes.length 0 := by
  unfold unitWalk
  rw [length_bytes]
  refine unitLoop_congr fun m hm => ?_
  obtain ⟨hshows, hroom⟩ := hshow m (by unfold ComesTo; rwa [length_bytes])
  unfold unitSize unitHeader
  have hbyte (i : Nat) (hi : i < 6) : v.tmpBuf m i = linear c.bytes m i := hshows.byte i (by omega)
  rw [hbyte 0 (by decide), hbyte 1 (by decide), hbyte 2 (by decide), hbyte 3 (by decide),
    hbyte 4 (by decide), hbyte 5 (by decide)]
  exact ⟨rfl, rfl⟩

/-- The walk is right where its units are shown, if those of a stream that it accepts have headers
and the copy is freed. -/
theorem rightWithout_of_shows {v : SbmView} (hv : c.view mode = some v)
    (hshow : ShowsUnits c mode v)
    (hsize : EndsInUnit c.bytes → ∀ m, ComesTo c.bytes m → Taken c.bytes m → 2 ≤ unitSize c.bytes m)
    (hfrees : (if mode ≠ .plain then
      [v.unit (unitLoop (unitSize c.bytes) (unitHeader c.bytes) c.bytes.length 0).2.2] else []) =
        mode.allocated) : c.RightWithout mode := by
  have hcheck : checkBitStreamTypeWithoutStartCode c mode =
      { ret := unitAnswer c.bytes
        reads := c.copyReads mode ++
          (unitLoop (unitSize c.bytes) (unitHeader c.bytes) c.bytes.length 0).2.1.flatMap fun n =>
            (List.range 6).map (v.addr n)
        frees := if mode ≠ .plain then
          [v.unit (unitLoop (unitSize c.bytes) (unitHeader c.bytes) c.bytes.length 0).2.2] else [] } := by
    unfold checkBitStreamTypeWithoutStartCode
    rw [hv]
    dsimp only
    rw [unitWalk_shown hshow]
    rfl
  unfold StreamChunk.RightWithout
  rw [hcheck]
  refine ⟨fun a ha => ?_, fun _ => rfl, fun hret => ?_, hfrees⟩
  · rcases List.mem_append.1 ha with ha | ha
    · exact copyReads_contains a ha
    · obtain ⟨n, hn, ha⟩ := List.mem_flatMap.1 ha
      obtain ⟨i, hi, rfl⟩ := List.mem_map.1 ha
      obtain ⟨hshows, hroom⟩ := hshow n (mem_unitLoop.1 hn)
      have hlt := List.mem_range.1 hi
      exact hshows.inside i (by omega)
  · have hends := unitAnswer_eq_zero.1 hret
    exact units_of_walk 0 hends (hsize hends)

/-- What the walk needs in the ring: room for six bytes at each unit, no unit that begins behind
the end of the ring, and a header in each unit of a stream that is accepted. -/
structure StreamChunk.Walkable (c : StreamChunk) : Prop where
  room : ∀ m, ComesTo c.bytes m → m + 6 ≤ c.nLength
  ahead : ∀ m, ComesTo c.bytes m → c.pData + m ≤ c.ring.pStreamBufferEnd
  headers : EndsInUnit c.bytes → ∀ m, ComesTo c.bytes m → Taken c.bytes m → 2 ≤ unitSize c.bytes m

/-- The walk ends at the first unit, whose first six bytes are there. -/
def OneUnit (bs : List UInt8) : Prop := ∀ m, ComesTo bs m → m = 0 ∧ 6 ≤ bs.length

theorem plain_rightWith (c : StreamChunk) : c.RightWith .plain := by
  have hv : c.view .plain = some _ := rfl
  rw [rightWith_iff_frees hv (shows_plain c.start.2 hv), if_neg (by simp)]
  rfl

theorem plain_rightWithout (h : c.Walkable) : c.RightWithout .plain := by
  have hv : c.view .plain = some _ := rfl
  refine rightWithout_of_shows hv (fun m hm => ⟨shows_plain (h.ahead m hm) hv, h.room m hm⟩) h.headers ?_
  rw [if_neg (by simp)]
  rfl

/-- A unit that ends the walk at once has a header, if its first six bytes are there. -/
theorem OneUnit.headers (h : OneUnit bs) (hends : EndsInUnit bs) (m : Nat) (hm : ComesTo bs m)
    (_ : Taken bs m) : 2 ≤ unitSize bs m := by
  obtain ⟨k, hk, -, hlast⟩ := hends
  obtain ⟨rfl, -⟩ := h m hm
  obtain ⟨rfl, hroom⟩ := h k hk
  rw [hlast.1]
  omega

theorem OneUnit.walkable (h : OneUnit c.bytes) : c.Walkable := by
  refine ⟨fun m hm => ?_, fun m hm => ?_, h.headers⟩
  · obtain ⟨rfl, hroom⟩ := h m hm
    rwa [Nat.zero_add, ← length_bytes]
  · obtain ⟨rfl, -⟩ := h m hm
    exact c.start.2

section Secure

variable {pBuf : Nat} (hapart : c.ring.Apart pBuf (c.nLength + 32))

include hapart

theorem secure_rightWith_iff :
    c.RightWith (.secure (some pBuf)) ↔ ¬ FindsStartCode c.bytes := by
  have hv : c.view (.secure (some pBuf)) = some _ := rfl
  rw [rightWith_iff_frees hv (shows_secure hapart hv), ← startCodeAnswer_eq_zero]
  by_cases hanswer : startCodeAnswer c.bytes = 0
  · rw [if_neg (fun h => h.2 hanswer)]
    exact iff_of_false (fun h => nomatch h) (not_not.2 hanswer)
  · rw [if_pos ⟨nofun, hanswer⟩]
    exact iff_of_true rfl hanswer

/-- The byte behind the copy is none of the chunk. -/
theorem not_contains_end : ¬ c.Contains (.secure (some pBuf)) (pBuf + c.nLength) := by
  rintro (⟨k, -, hk⟩ | ⟨p, hp, -, hlt⟩)
  · have hplace := c.ring.place_mem c.pData k
    unfold StreamRing.Apart at hapart
    omega
  · cases hp
    omega

theorem secure_rightWithout_iff : c.RightWithout (.secure (some pBuf)) ↔ OneUnit c.bytes := by
  have hv : c.view (.secure (some pBuf)) = some _ := rfl
  have hshow {n : Nat} := shows_secure (n := n) hapart hv
  constructor
  · intro hright m hm
    have hfrees := hright.frees
    have hreads := hright.reads
    unfold checkBitStreamTypeWithoutStartCode at hfrees hreads
    rw [hv] at hfrees hreads
    dsimp only at hfrees hreads
    have hpos : 0 < c.nLength := by
      have := hm.2
      rw [length_bytes] at this
      omega
    by_cases hroom : 6 ≤ c.nLength
    · refine ⟨?_, by rwa [length_bytes]⟩
      rw [if_pos nofun] at hfrees
      have hend := List.head_eq_of_cons_eq hfrees
      have hstay := (unitLoop_end hpos).1 (Nat.add_eq_left.1 hend)
      rcases ReflTransGen.cases_head hm.1 with rfl | ⟨k, ⟨-, href, hl, rfl⟩, -⟩
      · rfl
      · exfalso
        have hbyte (i : Nat) (hi : i < 6) := (hshow (n := 0)).byte i (by omega)
        refine hstay _ ⟨hpos, mt (refused_congr ?_ ?_).1 (length_bytes c ▸ href),
          mt (last_congr ?_).1 (length_bytes c ▸ hl), rfl⟩
        · rw [hbyte 0 (by decide), hbyte 1 (by decide), hbyte 2 (by decide), hbyte 3 (by decide)]
          rfl
        · rw [hbyte 4 (by decide), hbyte 5 (by decide)]
          rfl
        · rw [hbyte 0 (by decide), hbyte 1 (by decide), hbyte 2 (by decide), hbyte 3 (by decide)]
          rfl
    · -- the byte behind the copy is read
      refine absurd (hreads (pBuf + c.nLength) ?_) (not_contains_end hapart)
      refine List.mem_append_right _ (List.mem_flatMap.2 ⟨0, mem_unitLoop.2 ⟨.refl, hpos⟩, ?_⟩)
      refine List.mem_map.2 ⟨c.nLength, List.mem_range.2 (by omega), ?_⟩
      show readByteIdx (pBuf + 0) pBuf (pBuf + c.nLength) c.nLength = pBuf + c.nLength
      unfold readByteIdx
      rw [if_pos (by omega), Nat.add_zero]
  · intro hone
    refine rightWithout_of_shows hv (fun m hm => ⟨hshow, hone.walkable.room m hm⟩) hone.headers ?_
    rw [if_pos nofun]
    have hend : (unitLoop (unitSize c.bytes) (unitHeader c.bytes) c.bytes.length 0).2.2 = 0 := by
      by_cases hpos : 0 < c.bytes.length
      · rw [unitLoop_end hpos]
        rintro k ⟨hin, href, hl, rfl⟩
        obtain ⟨-, hroom⟩ := hone 0 ⟨.refl, hpos⟩
        by_cases hk : 0 + ((unitSize c.bytes 0).toNat + 4) < c.bytes.length
        · have hzero := (hone _ ⟨.single ⟨hin, href, hl, rfl⟩, hk⟩).1
          omega
        · unfold Refused at href
          unfold Last at hl
          simp only [not_or, not_lt, not_and_or, not_not] at href hl
          omega
      · rw [unitLoop_eq, if_neg hpos]
    rw [hend]
    rfl

end Secure

/-! ## The law -/

/-- When both checks of a chunk are right. -/
def StreamChunk.Sound (c : StreamChunk) : SbmMode → Prop
  | .plain => c.Walkable
  | .secure none => True
  | .secure (some _) => ¬ FindsStartCode c.bytes ∧ OneUnit c.bytes

theorem right_of_sound (hfits : c.Fits mode) (h : c.Sound mode) :
    c.RightWith mode ∧ c.RightWithout mode := by
  match mode with
  | .plain => exact ⟨plain_rightWith c, plain_rightWithout h⟩
  | .secure none => exact ⟨right_without_memory rfl, right_without_memory rfl⟩
  | .secure (some pBuf) => exact ⟨(secure_rightWith_iff hfits).2 h.1, (secure_rightWithout_iff hfits).2 h.2⟩

/-- The bytes at the start of a ring with one more. -/
def atStart (bs : List UInt8) (hroom : bs.length + 32 < 2 ^ 31) : StreamChunk where
  mem i := bs.getD i 0
  ring := ⟨0, bs.length, bs.length + 1, ⟨Nat.succ_pos _, by omega⟩, (Nat.zero_add _).symm⟩
  pData := 0
  nLength := bs.length
  start := ⟨Nat.le_refl 0, Nat.zero_le _⟩
  length := Nat.le_succ _
  room := hroom

theorem bytes_atStart (hroom : bs.length + 32 < 2 ^ 31) : (atStart bs hroom).bytes = bs := by
  refine List.ext_getElem (length_bytes _) fun k hk hk' => ?_
  have hplace : (atStart bs hroom).ring.place 0 k = k := by
    rw [StreamRing.place_lt (Nat.le_refl 0) (by show 0 + k ≤ bs.length; omega), Nat.zero_add]
  simp only [StreamChunk.bytes, List.getElem_map, List.getElem_range]
  show bs.getD ((atStart bs hroom).ring.place 0 k) 0 = _
  rw [hplace]
  simp [hk']

/-- Both checks are right for the bytes of a chunk wherever they are, with and without a copy, just
if there is no start code to find and the first unit ends the walk. Without a copy they are right
at each place at which the walk is possible. -/
theorem checkBitStreamType_iff (bs : List UInt8) (hroom : bs.length + 32 < 2 ^ 31) :
    ((∀ (c : StreamChunk) (mode : SbmMode), c.bytes = bs → c.Fits mode →
        c.RightWith mode ∧ c.RightWithout mode) ↔ ¬ FindsStartCode bs ∧ OneUnit bs) ∧
    ∀ (c : StreamChunk) (mode : SbmMode), c.bytes = bs → c.Fits mode → c.Sound mode →
      c.RightWith mode ∧ c.RightWithout mode := by
  refine ⟨⟨fun h => ?_, ?_⟩, fun c mode _ hfits hsound => right_of_sound hfits hsound⟩
  · have hbytes := bytes_atStart hroom
    have hapart : (atStart bs hroom).ring.Apart (bs.length + 1) (bs.length + 32) :=
      .inr (Nat.lt_succ_self bs.length)
    obtain ⟨hwith, hwithout⟩ := h (atStart bs hroom) (.secure (some (bs.length + 1))) hbytes hapart
    have hfinds := (secure_rightWith_iff hapart).1 hwith
    have hone := (secure_rightWithout_iff hapart).1 hwithout
    rw [hbytes] at hfinds hone
    exact ⟨hfinds, hone⟩
  · rintro ⟨hfinds, hone⟩ c mode rfl hfits
    refine right_of_sound hfits ?_
    match mode with
    | .plain => exact hone.walkable
    | .secure none => exact trivial
    | .secure (some pBuf) => exact ⟨hfinds, hone⟩

theorem checkBitStreamType_iff_oneUnit :
    (atStart [0, 0, 0, 2, 0x40, 1] (by decide)).RightWith (.secure (some 7)) ∧
      (atStart [0, 0, 0, 2, 0x40, 1] (by decide)).RightWithout (.secure (some 7)) := by
  have hroom : [(0 : UInt8), 0, 0, 2, 0x40, 1].length + 32 < 2 ^ 31 := by decide
  have hapart : (atStart _ hroom).ring.Apart 7 38 := .inr (Nat.lt_succ_self 6)
  refine (checkBitStreamType_iff [0, 0, 0, 2, 0x40, 1] hroom).1.2 ⟨?_, fun m hm => ⟨?_, by decide⟩⟩
    (atStart _ hroom) (.secure (some 7)) (bytes_atStart hroom) hapart
  · rintro ⟨m, -, hm, -⟩
    exact absurd hm (by simp)
  · have hlast : Last (unitSize [0, 0, 0, 2, 0x40, 1]) 6 0 := by decide
    exact (unitAt_iff (by decide) fun k hk => hk.2.2.1 hlast).1 hm

/-- In secure mode the copy of a stream with a start code is not freed. -/
theorem checkBitStreamType_not : ¬ ∀ (c : StreamChunk) (mode : SbmMode), c.Fits mode →
    c.RightWith mode ∧ c.RightWithout mode := by
  intro hall
  have hroom : [(0 : UInt8), 0, 1, 0x40, 1, 0x0c, 1].length + 32 < 2 ^ 31 := by decide
  have hapart : (atStart _ hroom).ring.Apart 8 39 := .inr (Nat.lt_succ_self 7)
  have hnot := (secure_rightWith_iff hapart).1 (hall (atStart _ hroom) (.secure (some 8)) hapart).1
  rw [bytes_atStart] at hnot
  exact hnot ⟨0, .refl, by decide, by decide⟩

end Melis.Vdec
