import Mathlib.Data.List.Basic
import Mathlib.Order.Nat
import Melis.Lib.Boxes

/-!
# The NAL units of a codec configuration

`ff_avc_parse_nal_units` cuts the extradata of a video track at its start codes
and puts a length before each NAL unit. The writers of `avcC` and `hvcC` and the
functions that compute their sizes go through that buffer in loops of their own:
`nalUnits` is the loop of the writers, `nalSizes` that of `FFIsomGetAvccSize`.
They see the same units, because the last one is never empty.
-/

namespace Melis.Mp4

open Lib

/-! ## Start codes -/

section

variable (data : List UInt8)

/-- `p[0] == 0 && p[1] == 0 && p[2] == 1`. -/
def isCode (p : Nat) : Bool :=
  data.getD p 0 == 0 && data.getD (p + 1) 0 == 0 && data.getD (p + 2) 0 == 1

/-- `n` turns of a loop that goes on byte by byte. -/
def scanBytes : Nat → Nat → Option Nat
  | 0, _ => none
  | n + 1, p => if isCode data p then some p else scanBytes n (p + 1)

/-- `*(const uint32_t*)p`, little endian. -/
def word (p : Nat) : UInt32 :=
  (data.getD p 0).toUInt32 ||| (data.getD (p + 1) 0).toUInt32 <<< 8 |||
    (data.getD (p + 2) 0).toUInt32 <<< 16 ||| (data.getD (p + 3) 0).toUInt32 <<< 24

/-- A start code that begins in the word at `p`, if there is a `0` in it. -/
def wordCode (p : Nat) : Option Nat :=
  let x := word data p
  if (x - 0x01010101) &&& ~~~x &&& 0x80808080 ≠ 0 then
    if isCode data p then some p
    else if isCode data (p + 1) then some (p + 1)
    else if isCode data (p + 2) then some (p + 2)
    else if isCode data (p + 3) then some (p + 3)
    else none
  else none

/-- `n` turns of the loop over the words. -/
def scanWords : Nat → Nat → Option Nat
  | 0, _ => none
  | n + 1, p => (wordCode data p).or (scanWords n (p + 4))

/-- The loops of `ff_avc_find_startcode_internal`: byte by byte up to an aligned
address, over the words, and over the bytes that are left. `addr` is the address
of `data`. -/
def ff_avc_find_startcode_internal (addr p e : Nat) : Nat :=
  let a := p + 4 - (addr + p) % 4
  let q := max p (min a (e - 3))
  let n := (e - 6 - q + 3) / 4
  ((scanBytes data (min a (e - 3) - p) p).or
    ((scanWords data n q).or (scanBytes data (e - 3 - (q + 4 * n)) (q + 4 * n)))).getD e

def ff_avc_find_startcode (addr p e : Nat) : Nat :=
  let out := ff_avc_find_startcode_internal data addr p e
  if p < out ∧ out < e ∧ data.getD (out - 1) 0 = 0 then out - 1 else out

/-- `while (nal_start < end && !*(nal_start++));`, with `n = end - nal_start`. -/
def skipZeros : Nat → Nat → Nat
  | 0, p => p
  | n + 1, p => if data.getD p 0 = 0 then skipZeros n (p + 1) else p + 1

/-- The loop of `ff_avc_parse_nal_units`; every turn takes a byte at least. -/
def parseNals (addr : Nat) : Nat → Nat → List (List UInt8)
  | 0, _ => []
  | n + 1, p =>
    let nal_start := skipZeros data (data.length - p) p
    if nal_start = data.length then []
    else
      let nal_end := ff_avc_find_startcode data addr nal_start data.length
      (data.drop nal_start).take (nal_end - nal_start) :: parseNals addr n nal_end

end

/-- The NAL units of the extradata. -/
def nals (addr : Nat) (data : List UInt8) : List (List UInt8) :=
  parseNals data addr (data.length + 1) (ff_avc_find_startcode data addr 0 data.length)

/-- NAL units with a length before each. -/
def lengthPrefixed (ns : List (List UInt8)) : List UInt8 :=
  ns.flatMap fun n => be32 (.ofNat n.length) ++ n

/-- The buffer is allocated with 1024 bytes more than the extradata has; `none` is a
write behind its end. -/
def ff_avc_parse_nal_units_buf (addr : Nat) (data : List UInt8) : Option (List UInt8) :=
  let buf := lengthPrefixed (nals addr data)
  if buf.length ≤ data.length + 1024 then some buf else none

/-! ## The loops over the buffer -/

def rb32 (l : List UInt8) : Nat := ofBytes (l.take 4)

def rb24 (l : List UInt8) : Nat := ofBytes (l.take 3)

/-- `while (end - buf > 4)`: the byte behind the length, which holds the type, and the
unit. Every turn takes four bytes at least. -/
def nalUnits : Nat → List UInt8 → List (UInt8 × List UInt8)
  | 0, _ => []
  | n + 1, buf =>
    if 4 < buf.length then
      let size := min (rb32 buf) (buf.length - 4)
      (buf.getD 4 0, (buf.drop 4).take size) :: nalUnits n (buf.drop (4 + size))
    else []

/-- `while (buf < end)`; `none` is a read behind what was stored. -/
def nalSizes : Nat → List UInt8 → Option (List (UInt8 × UInt32))
  | 0, _ => some []
  | n + 1, buf =>
    if buf = [] then some []
    else if buf.length ≤ 4 then none
    else
      (nalSizes n (buf.drop (rb32 buf + 4))).map fun us =>
        (buf.getD 4 0, .ofNat (rb32 buf)) :: us

/-! ## What the search finds -/

variable {data : List UInt8} {addr p q e n : Nat}

theorem scanBytes_eq_some (h : scanBytes data n p = some q) :
    isCode data q ∧ p ≤ q ∧ q < p + n := by
  induction n generalizing p with
  | zero => cases h
  | succ n ih =>
    rw [scanBytes] at h
    split at h
    · rename_i hc
      cases h
      exact ⟨hc, by omega, by omega⟩
    · obtain ⟨hc, h1, h2⟩ := ih h
      exact ⟨hc, by omega, by omega⟩

theorem wordCode_eq_some (h : wordCode data p = some q) :
    isCode data q ∧ p ≤ q ∧ q ≤ p + 3 := by
  unfold wordCode at h
  dsimp only at h
  split at h
  · repeat' split at h
    all_goals cases h
    all_goals exact ⟨by assumption, by omega, by omega⟩
  · cases h

/-- The word in which the code begins is one that the loop has looked at. -/
theorem scanWords_eq_some (h : scanWords data n p = some q) :
    isCode data q ∧ p ≤ q ∧ q + 1 ≤ p + 4 * n := by
  induction n generalizing p with
  | zero => cases h
  | succ n ih =>
    rw [scanWords, Option.or_eq_some_iff] at h
    rcases h with h | ⟨-, h⟩
    · obtain ⟨hc, h1, h2⟩ := wordCode_eq_some h
      exact ⟨hc, h1, by omega⟩
    · obtain ⟨hc, h1, h2⟩ := ih h
      exact ⟨hc, by omega, by omega⟩

/-- A start code found has a byte behind it. -/
theorem find_startcode_internal_spec (data : List UInt8) (addr : Nat) (hp : p ≤ e) :
    ff_avc_find_startcode_internal data addr p e = e ∨
      ∃ q, ff_avc_find_startcode_internal data addr p e = q ∧ isCode data q ∧ p ≤ q ∧
        q + 3 < e := by
  unfold ff_avc_find_startcode_internal
  extract_lets a r n
  rcases hq : (scanBytes data (min a (e - 3) - p) p).or
      ((scanWords data n r).or (scanBytes data (e - 3 - (r + 4 * n)) (r + 4 * n))) with _ | q
  · exact .inl rfl
  refine .inr ⟨q, rfl, ?_⟩
  rw [Option.or_eq_some_iff, Option.or_eq_some_iff] at hq
  have hr : p ≤ r := Nat.le_max_left _ _
  rcases hq with h | ⟨-, h | ⟨-, h⟩⟩
  · obtain ⟨hc, h1, h2⟩ := scanBytes_eq_some h
    exact ⟨hc, h1, by omega⟩
  · obtain ⟨hc, h1, h2⟩ := scanWords_eq_some h
    have hn : 4 * n ≤ e - 6 - r + 3 := Nat.mul_div_le _ _
    exact ⟨hc, by omega, by omega⟩
  · obtain ⟨hc, h1, h2⟩ := scanBytes_eq_some h
    exact ⟨hc, by omega, by omega⟩

theorem skipZeros_le (data : List UInt8) (hp : p ≤ e) :
    p ≤ skipZeros data (e - p) p ∧ skipZeros data (e - p) p ≤ e := by
  generalize hn : e - p = n
  induction n generalizing p with
  | zero => exact ⟨le_rfl, hp⟩
  | succ n ih =>
    rw [skipZeros]
    split
    · have := ih (by omega : p + 1 ≤ e) (by omega)
      omega
    · omega

theorem lt_skipZeros (hp : p < e) : p < skipZeros data (e - p) p := by
  obtain ⟨n, hn⟩ : ∃ n, e - p = n + 1 := ⟨e - p - 1, by omega⟩
  rw [hn, skipZeros]
  split
  · have := (skipZeros_le data (by omega : p + 1 ≤ e)).1
    rw [show e - (p + 1) = n by omega] at this
    omega
  · omega

/-- Behind a start code there is more. -/
theorem skipZeros_code (hc : isCode data q) (he : q + 3 < e) :
    skipZeros data (e - q) q = q + 3 := by
  obtain ⟨n, hn⟩ : ∃ n, e - q = n + 3 := ⟨e - q - 3, by omega⟩
  simp only [isCode, Bool.and_eq_true, beq_iff_eq] at hc
  obtain ⟨⟨h0, h1⟩, h2⟩ := hc
  rw [hn, skipZeros, if_pos h0, skipZeros, if_pos h1, skipZeros, if_neg]
  rw [h2]
  decide

theorem find_startcode_le (data : List UInt8) (addr : Nat) (hp : p ≤ e) :
    p ≤ ff_avc_find_startcode data addr p e ∧ ff_avc_find_startcode data addr p e ≤ e := by
  unfold ff_avc_find_startcode
  dsimp only
  rcases find_startcode_internal_spec data addr hp with h | ⟨q, h, -, h1, h2⟩
  · rw [h]
    split <;> omega
  · rw [h]
    split <;> omega

/-- Where the search stops before the end, there is a byte behind the start code. -/
theorem skipZeros_find (data : List UInt8) (addr : Nat) (hp : p ≤ e)
    (h : ff_avc_find_startcode data addr p e < e) :
    skipZeros data (e - ff_avc_find_startcode data addr p e)
      (ff_avc_find_startcode data addr p e) < e := by
  unfold ff_avc_find_startcode at h ⊢
  dsimp only at h ⊢
  rcases find_startcode_internal_spec data addr hp with hq | ⟨q, hq, hc, h1, h2⟩
  · rw [hq] at h
    split at h <;> omega
  · rw [hq]
    split
    · rename_i hz
      obtain ⟨n, hn⟩ : ∃ n, e - (q - 1) = n + 1 := ⟨e - (q - 1) - 1, by omega⟩
      rw [hn, skipZeros, if_pos hz.2.2, show q - 1 + 1 = q by omega, show n = e - q by omega,
        skipZeros_code hc h2]
      exact h2
    · rw [skipZeros_code hc h2]
      exact h2

/-! ## The NAL units -/

theorem parseNals_ne_nil (h : skipZeros data (data.length - p) p < data.length) (hn : 0 < n) :
    parseNals data addr n p ≠ [] := by
  obtain ⟨n, rfl⟩ : ∃ m, n = m + 1 := ⟨n - 1, by omega⟩
  rw [parseNals]
  dsimp only
  rw [if_neg (by omega)]
  exact List.cons_ne_nil _ _

/-- The last NAL unit is not empty. -/
theorem getLast?_parseNals (hp : p ≤ data.length) (hn : data.length - p < n) :
    ∀ u ∈ (parseNals data addr n p).getLast?, u ≠ [] := by
  induction n generalizing p with
  | zero => nofun
  | succ n ih =>
    rw [parseNals]
    dsimp only
    obtain ⟨hs1, hs2⟩ := skipZeros_le data hp
    have hlt : p < data.length → p < skipZeros data (data.length - p) p := lt_skipZeros
    revert hs1 hs2 hlt
    generalize skipZeros data (data.length - p) p = s
    intro hs1 hs2 hlt
    by_cases hs : s = data.length
    · rw [if_pos hs]
      nofun
    rw [if_neg hs]
    replace hs2 : s < data.length := lt_of_le_of_ne hs2 hs
    have hps : p < s := hlt (by omega)
    obtain ⟨ht1, ht2⟩ := find_startcode_le data addr hs2.le
    have hnext := skipZeros_find data addr hs2.le
    revert ht1 ht2 hnext
    generalize ff_avc_find_startcode data addr s data.length = t
    intro ht1 ht2 hnext
    rcases ht2.lt_or_eq with ht | ht
    · have hne : parseNals data addr n t ≠ [] :=
        parseNals_ne_nil (hnext ht) (by omega)
      rw [List.getLast?_cons, List.getLast?_eq_some_getLast hne, Option.getD_some]
      rintro u ⟨⟩
      exact ih ht2 (by omega) _ (List.getLast?_eq_some_getLast hne)
    · have hnil : parseNals data addr n t = [] := by
        cases n with
        | zero => rfl
        | succ n =>
          rw [parseNals, ht, Nat.sub_self]
          exact if_pos rfl
      rw [hnil]
      rintro u ⟨⟩ hu
      have hlen := congrArg List.length hu
      rw [List.getLast_singleton, List.length_take, List.length_drop, List.length_nil] at hlen
      omega

theorem getLast?_nals : ∀ u ∈ (nals addr data).getLast?, u ≠ [] :=
  getLast?_parseNals (find_startcode_le data addr (Nat.zero_le _)).2 (by omega)

theorem length_le_of_mem_parseNals {u : List UInt8} (hu : u ∈ parseNals data addr n p) :
    u.length ≤ data.length := by
  induction n generalizing p with
  | zero => cases hu
  | succ n ih =>
    rw [parseNals] at hu
    dsimp only at hu
    split at hu
    · cases hu
    · rcases List.mem_cons.1 hu with rfl | hu
      · rw [List.length_take, List.length_drop]
        omega
      · exact ih hu

theorem length_le_of_mem_nals {u : List UInt8} (hu : u ∈ nals addr data) :
    u.length ≤ data.length := length_le_of_mem_parseNals hu

/-! ## Both loops see the same -/

theorem lengthPrefixed_cons (u : List UInt8) (us : List (List UInt8)) :
    lengthPrefixed (u :: us) = be32 (.ofNat u.length) ++ (u ++ lengthPrefixed us) := by
  simp [lengthPrefixed]

theorem rb32_be32 (v : UInt32) (l : List UInt8) : rb32 (be32 v ++ l) = v.toNat := by
  rw [rb32, List.take_left' (length_be32 v), ofBytes_be32]

/-- The loops differ in their condition and in the bound on the length, and neither
matters for what the parser stores. -/
theorem nalSizes_eq {us : List (List UInt8)} (hlast : ∀ u ∈ us.getLast?, u ≠ [])
    (hlen : ∀ u ∈ us, u.length < 2 ^ 32) (hn : (lengthPrefixed us).length ≤ n) :
    nalSizes n (lengthPrefixed us) =
      some ((nalUnits n (lengthPrefixed us)).map fun x => (x.1, .ofNat x.2.length)) := by
  induction us generalizing n with
  | nil => cases n <;> rfl
  | cons u us ih =>
    obtain ⟨hu, hus⟩ := List.forall_mem_cons.1 hlen
    rw [lengthPrefixed_cons] at hn ⊢
    generalize hbuf : be32 (.ofNat u.length) ++ (u ++ lengthPrefixed us) = buf at hn ⊢
    have hsize : rb32 buf = u.length := by
      rw [← hbuf, rb32_be32, UInt32.toNat_ofNat_of_lt' hu]
    have hbuflen : buf.length = 4 + (u.length + (lengthPrefixed us).length) := by
      rw [← hbuf]
      simp
    have hdrop4 : buf.drop 4 = u ++ lengthPrefixed us := by
      rw [← hbuf, List.drop_left' (length_be32 _)]
    have hdrop : buf.drop (4 + u.length) = lengthPrefixed us := by
      rw [← List.drop_drop, hdrop4, List.drop_left]
    have hlong : 4 < buf.length := by
      cases us with
      | nil =>
        have : u.length ≠ 0 := mt List.eq_nil_of_length_eq_zero (hlast u rfl)
        omega
      | cons v vs =>
        rw [hbuflen, lengthPrefixed_cons, List.length_append, List.length_append, length_be32]
        omega
    have hlast' : ∀ v ∈ us.getLast?, v ≠ [] := by
      cases us with
      | nil => nofun
      | cons v vs => exact fun w hw => hlast w (by rwa [List.getLast?_cons_cons])
    obtain ⟨n, rfl⟩ : ∃ m, n = m + 1 := ⟨n - 1, by omega⟩
    have hmin : min u.length (buf.length - 4) = u.length := by omega
    have hne : buf ≠ [] := by
      rintro rfl
      exact absurd hlong (by simp)
    rw [nalSizes, if_neg hne, if_neg (by omega), nalUnits, if_pos hlong]
    dsimp only
    rw [hsize, hmin, Nat.add_comm u.length 4, hdrop, ih hlast' hus (by omega), hdrop4,
      List.take_left]
    rfl

theorem parse_nal_units_buf_eq_some {buf : List UInt8}
    (h : ff_avc_parse_nal_units_buf addr data = some buf) :
    buf = lengthPrefixed (nals addr data) ∧ buf.length ≤ data.length + 1024 := by
  unfold ff_avc_parse_nal_units_buf at h
  rw [Option.ite_none_right_eq_some] at h
  obtain ⟨hle, h⟩ := h
  cases h
  exact ⟨rfl, hle⟩

theorem nalSizes_nals (h : data.length < 2 ^ 31) :
    nalSizes (lengthPrefixed (nals addr data)).length (lengthPrefixed (nals addr data)) =
      some ((nalUnits (lengthPrefixed (nals addr data)).length
        (lengthPrefixed (nals addr data))).map fun x => (x.1, .ofNat x.2.length)) := by
  refine nalSizes_eq getLast?_nals (fun u hu => ?_) le_rfl
  have := length_le_of_mem_nals hu
  omega

end Melis.Mp4
