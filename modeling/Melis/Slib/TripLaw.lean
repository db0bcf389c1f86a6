import Melis.Slib.RoundTrip

/-!
# Round trips

A trip prints a number into a buffer of twelve bytes and parses it from there, with a text behind
it. `trip_iff` says which trips give back the number and stop in front of the text.
-/

namespace Melis.Slib

open Lib

variable {input value : Int} {s next text str : List Char} {conv : Char} {base : Nat} {isSign : Bool}

/-- `%d`, `%u`, `%x` and `%i`, with the base and whether it is signed. -/
def conversions : List (Char × Nat × Bool) :=
  [('d', 10, true), ('u', 10, false), ('x', 16, false), ('i', 0, true)]

/-- A conversion that stands alone in the format stores its number. -/
theorem slibSscanf_eq (hconv : (conv, base, isSign) ∈ conversions)
    (hspace : slibIsspace (deref s) = false) (hnul : deref s ≠ '\x00')
    (hdigit : refuses base (if isSign ∧ deref s = '-' then deref (s.drop 1) else deref s) = false)
    (hread : convert none isSign s base = some (value, next)) :
    slibSscanf s ['%', conv] = some (1, [.number none isSign value]) := by
  have hskip (fmt : CStr) : (Scan.mk fmt 0 0 []).skipSpace s = ⟨fmt, 0, 0, []⟩ := by
    unfold Scan.skipSpace Scan.str
    rw [List.drop_zero]
    cases s with
    | nil => rfl
    | cons c s =>
      have hc : slibIsspace c = false := hspace
      rw [List.takeWhile_cons, hc]
      rfl
  have hnumber : scanNumber s ⟨[], 0, 0, []⟩ none base isSign = some (.next
      ⟨[], s.length - next.length, 1, [.number none isSign (narrow none isSign value)]⟩) := by
    unfold scanNumber
    simp only [hskip, Scan.str, List.drop_zero, hdigit, hread]
    rfl
  have hround : scanRound s ⟨['%', conv], 0, 0, []⟩ =
      scanNumber s ⟨[], 0, 0, []⟩ none base isSign := by
    have hnot (fmt : CStr) : ¬ (deref fmt = '\x00' ∨ deref ((Scan.mk fmt 0 0 []).str s) = '\x00') ↔
        deref fmt ≠ '\x00' := by
      rw [not_or]
      exact and_iff_left hnul
    show scanPercent s ⟨[conv], 0, 0, []⟩ = _
    simp only [conversions, List.mem_cons, List.not_mem_nil, or_false, Prod.mk.injEq] at hconv
    rcases hconv with ⟨rfl, rfl, rfl⟩ | ⟨rfl, rfl, rfl⟩ | ⟨rfl, rfl, rfl⟩ | ⟨rfl, rfl, rfl⟩ <;>
    · show scanConversion s _ (-1) none = _
      unfold scanConversion
      rw [if_neg ((hnot _).2 (by decide))]
      rfl
  unfold slibSscanf
  show (scanLoop s 3 ⟨['%', conv], 0, 0, []⟩).map _ = _
  have hstart : ¬ (deref ['%', conv] = '\x00' ∨
      deref ((Scan.mk ['%', conv] 0 0 []).str s) = '\x00') := by
    rw [not_or]
    exact ⟨by simp [deref], hnul⟩
  rw [scanLoop, if_neg hstart, hround, hnumber]
  dsimp only
  rw [scanLoop, if_pos (.inl rfl)]
  rfl

theorem convert_signed (s : CStr) (base : Nat) : convert none true s base = slibStrtol s base := by
  unfold convert
  exact if_pos ⟨rfl, nofun⟩

theorem convert_unsigned {n : Nat} (h : slibStrtoul s base = (n, next)) :
    convert none false s base = some (((n : Nat) : Int), next) := by
  unfold convert
  rw [if_neg (by simp), h]

/-! ## Trips -/

/-- The flag of the hexadecimal printer. -/
inductive HexFlag
  | lower
  | upper
  deriving DecidableEq, Repr

def HexFlag.char : HexFlag → Char
  | .lower => hexLower
  | .upper => hexUpper

/-- The printers, and the parsers that are for what they write. -/
inductive Trip
  | decAtoi
  | decStrtol
  | decSscanf
  | uintSscanfU
  | uintSscanfI
  | uintStrtol
  | hexSscanfX (flag : HexFlag)
  | hexSscanfI (flag : HexFlag)
  | hexStrtolAny (flag : HexFlag)
  | hexStrtol (flag : HexFlag)
  deriving DecidableEq, Repr

namespace Trip

/-- The printer; the unsigned one gets the same 32 bits. -/
def print (input : Int) (str : List Char) : Trip → Option (List Char)
  | decAtoi | decStrtol | decSscanf => slibInt2strDec input str
  | uintSscanfU | uintSscanfI | uintStrtol => slibUint2strDec (u32 input) str
  | hexSscanfX flag | hexSscanfI flag | hexStrtolAny flag | hexStrtol flag =>
    slibInt2strHex input str flag.char

/-- What the parser makes of the string is the number, and `__SLIB_strtol` stops at the text. -/
def Reads (input : Int) (s text : CStr) : Trip → Prop
  | decAtoi => slibAtoi s = some input
  | decStrtol => slibStrtol s 10 = some (input, text)
  | decSscanf => slibSscanf s ['%', 'd'] = some (1, [.number none true input])
  | uintSscanfU => slibSscanf s ['%', 'u'] = some (1, [.number none false (u32 input)])
  | uintSscanfI | hexSscanfI _ => slibSscanf s ['%', 'i'] = some (1, [.number none true input])
  | hexSscanfX _ => slibSscanf s ['%', 'x'] = some (1, [.number none false (u32 input)])
  | uintStrtol | hexStrtolAny _ => slibStrtol s 0 = some (input, text)
  | hexStrtol _ => slibStrtol s 16 = some (input, text)

/-- The number is printed inside the buffer, and read again. -/
def Returns (input : Int) (text : CStr) (str : List Char) (trip : Trip) : Prop :=
  ∃ str', trip.print input str = some str' ∧ trip.Reads input (cstring str' ++ text) text

/-- The text goes on with the number: with a digit, or behind a zero whose base is to be found out
with a hexadecimal number. -/
def Continues (input : Int) (text : CStr) : Trip → Prop
  | decAtoi | decStrtol | decSscanf | uintSscanfU => ¬ Ends 10 text
  | uintSscanfI | uintStrtol =>
    ¬ Ends 10 text ∨ input = 0 ∧ Prefixed text ∧ ¬ Ends 16 (text.drop 1)
  | hexSscanfX _ | hexSscanfI _ | hexStrtolAny _ | hexStrtol _ => ¬ Ends 16 text

/-- When a trip gives back the number. -/
def Sound (input : Int) (text : CStr) : Trip → Prop
  | decAtoi => input ≠ -2 ^ 31 ∧ (input = 0 ∨ slibStrlen (decimal input ++ text) < 2 ^ 31)
  | decStrtol | decSscanf => input ≠ -2 ^ 31
  | uintSscanfU | uintSscanfI | hexSscanfX _ | hexSscanfI _ | hexStrtolAny _ => True
  | uintStrtol => input = 0 → ¬ Prefixed text
  | hexStrtol _ => False

end Trip

variable {trip : Trip} {flag : HexFlag}

theorem returns_iff {w : CStr} (hprint : ∃ str', trip.print input str = some str' ∧ cstring str' = w) :
    trip.Returns input text str ↔ trip.Reads input (w ++ text) text := by
  obtain ⟨str', hprint, rfl⟩ := hprint
  constructor
  · rintro ⟨str'', hprint', hreads⟩
    cases hprint.symm.trans hprint'
    exact hreads
  · exact fun hreads => ⟨str', hprint, hreads⟩

theorem HexFlag.char_eq (flag : HexFlag) : flag.char = 'x' ∨ flag.char = 'X' := by
  cases flag
  · exact .inl rfl
  · exact .inr rfl

theorem HexFlag.char_ne (flag : HexFlag) : flag.char ≠ '\x00' := by
  cases flag <;> decide

/-- A digit is none of the characters that a conversion refuses. -/
theorem refuses_digitChar {base : Nat} (hbase : base = 10 ∨ base = 0) {d : Nat} (hd : d < 10) :
    refuses base (digitChar d) = false := by
  have hall : ∀ d < 10, refuses 10 (digitChar d) = false ∧ refuses 0 (digitChar d) = false := by
    decide
  rcases hbase with rfl | rfl
  · exact (hall d hd).1
  · exact (hall d hd).2

theorem deref_places (n : Nat) (text : CStr) : ∃ d < 10,
    deref ((places 10 n).map digitChar ++ text) = digitChar d := by
  cases hplaces : places 10 n with
  | nil => exact absurd hplaces (places_ne_nil 10 n)
  | cons d ds => exact ⟨d, places_lt (by decide) d (hplaces ▸ List.mem_cons_self), rfl⟩

/-- A conversion of a decimal numeral without a sign. -/
theorem slibSscanf_places {n : Nat} (hconv : (conv, base, isSign) ∈ conversions)
    (hbase : base = 10 ∨ base = 0)
    (hread : convert none isSign ((places 10 n).map digitChar ++ text) base = some (value, next)) :
    slibSscanf ((places 10 n).map digitChar ++ text) ['%', conv] =
      some (1, [.number none isSign value]) := by
  obtain ⟨d, hd, hfirst⟩ := deref_places n text
  have hplain := plain_of_map digits_digitChar (@places_lt 10 n (by decide)) (places_ne_nil 10 n) text
  refine slibSscanf_eq hconv hplain.1 (hfirst ▸ digits_digitChar.nul d hd) ?_ hread
  rw [if_neg (fun hyes => hplain.2.1 hyes.2), hfirst]
  exact refuses_digitChar hbase hd

theorem slibSscanf_decimal (h : -2 ^ 31 < input ∧ input < 2 ^ 31) (hends : Ends 10 text) :
    slibSscanf (decimal input ++ text) ['%', 'd'] = some (1, [.number none true input]) := by
  have hread : convert none true (decimal input ++ text) 10 = some (input, text) := by
    rw [convert_signed]
    exact slibStrtol_decimal h hends
  unfold decimal at hread ⊢
  by_cases hneg : input < 0
  · rw [if_pos hneg] at hread ⊢
    obtain ⟨d, hd, hfirst⟩ := deref_places input.natAbs text
    generalize (places 10 input.natAbs).map digitChar = digits at hread hfirst ⊢
    refine slibSscanf_eq (by simp [conversions]) rfl (by simp [deref]) ?_ hread
    have hsign : deref (['-'] ++ digits ++ text) = '-' := rfl
    have hdrop : (['-'] ++ digits ++ text).drop 1 = digits ++ text := rfl
    rw [if_pos ⟨rfl, hsign⟩, hdrop, hfirst]
    exact refuses_digitChar (.inl rfl) hd
  · rw [if_neg hneg, List.nil_append] at hread ⊢
    exact slibSscanf_places (by simp [conversions]) (.inl rfl) hread

/-- A conversion of a hexadecimal numeral. -/
theorem slibSscanf_hexadecimal (hconv : (conv, base, isSign) ∈ conversions)
    (hbase : base = 16 ∨ base = 0)
    (hread : convert none isSign (hexadecimal flag.char input ++ text) base = some (value, next)) :
    slibSscanf (hexadecimal flag.char input ++ text) ['%', conv] =
      some (1, [.number none isSign value]) := by
  have hfirst : deref (hexadecimal flag.char input ++ text) = '0' := by
    simp [hexadecimal, deref]
  refine slibSscanf_eq hconv (by rw [hfirst]; decide) (by rw [hfirst]; decide) ?_ hread
  rw [if_neg (fun hyes => absurd (hfirst.symm.trans hyes.2) (by decide)), hfirst]
  rcases hbase with rfl | rfl
  · decide
  · decide

/-- The trips that begin at the signed decimal printer. -/
theorem dec_iff (hinput : -2 ^ 31 ≤ input ∧ input < 2 ^ 31) (hstr : str.length = 12)
    (hprint : trip.print input str = slibInt2strDec input str)
    (hmin : trip.Sound input text → input ≠ -2 ^ 31)
    (hreads : -2 ^ 31 < input →
      (trip.Reads input (decimal input ++ text) text ↔ trip.Sound input text)) :
    trip.Returns input text str ↔ trip.Sound input text := by
  by_cases hleast : input = -2 ^ 31
  · refine iff_of_false ?_ fun hsound => hmin hsound hleast
    rintro ⟨str', hprint', -⟩
    rw [hprint, hleast, slibInt2strDec_none] at hprint'
    cases hprint'
  · have hlt : -2 ^ 31 < input := by omega
    rw [returns_iff (hprint ▸ slibInt2strDec_eq ⟨hlt, hinput.2⟩ hstr)]
    exact hreads hlt

theorem uint_iff (hstr : str.length = 12)
    (hprint : trip.print input str = slibUint2strDec (u32 input) str) :
    trip.Returns input text str ↔
      trip.Reads input ((places 10 (u32 input)).map digitChar ++ text) text :=
  returns_iff (hprint ▸ slibUint2strDec_eq (u32_lt input) hstr)

theorem hex_iff (flag : HexFlag) (hstr : str.length = 12)
    (hprint : trip.print input str = slibInt2strHex input str flag.char) :
    trip.Returns input text str ↔ trip.Reads input (hexadecimal flag.char input ++ text) text :=
  returns_iff (hprint ▸ slibInt2strHex_eq flag.char_ne hstr)

/-- The base is found out of an unsigned decimal numeral, but for the place where it ends. -/
theorem slibStrtol_places (hinput : -2 ^ 31 ≤ input ∧ input < 2 ^ 31)
    (hends : ¬ Trip.uintStrtol.Continues input text) :
    ∃ rest, slibStrtol ((places 10 (u32 input)).map digitChar ++ text) 0 = some (input, rest) ∧
      (rest = text ↔ (input = 0 → ¬ Prefixed text)) := by
  obtain ⟨hten, hprefixed⟩ := not_or.1 hends
  have hzero : u32 input = 0 ↔ input = 0 := by
    unfold u32
    omega
  by_cases hmark : input = 0 ∧ Prefixed text
  · obtain ⟨rfl, hmark⟩ := hmark
    have hsixteen : Ends 16 (text.drop 1) := not_not.1 fun hnot => hprefixed ⟨rfl, hmark, hnot⟩
    refine ⟨'0' :: text, slibStrtol_prefix hmark hsixteen, iff_of_false ?_ fun hyes => hyes rfl hmark⟩
    exact List.cons_ne_self _ _
  · have hnot : input = 0 → ¬ Prefixed text := fun hyes hp => hmark ⟨hyes, hp⟩
    have hread := slibStrtol_zero (not_not.1 hten) (fun hyes => hnot (hzero.1 hyes)) (u32_lt input)
    rw [i32_u32 hinput] at hread
    exact ⟨text, hread, iff_of_true rfl hnot⟩

/-- A trip gives back the number, within the buffer, just if it is sound. -/
theorem trip_iff (trip : Trip) (input : Int) (text : CStr) (str : List Char)
    (hinput : -2 ^ 31 ≤ input ∧ input < 2 ^ 31) (hstr : str.length = 12)
    (hmemory : slibStrlen (decimal input ++ text) < 2 ^ 32)
    (hends : ¬ trip.Continues input text) :
    trip.Returns input text str ↔ trip.Sound input text := by
  cases trip with
  | decAtoi =>
    have hten := not_not.1 hends
    refine dec_iff hinput hstr rfl And.left fun hlt => ?_
    show slibAtoi (decimal input ++ text) = some input ↔ _ ∧ _
    rw [and_iff_right (by omega)]
    by_cases hlen : slibStrlen (decimal input ++ text) < 2 ^ 31
    · exact iff_of_true (slibAtoi_decimal ⟨hlt, hinput.2⟩ hten hlen) (.inr hlen)
    · rw [slibAtoi_long (Nat.not_lt.1 hlen) hmemory, Option.some.injEq, or_iff_left hlen]
      exact eq_comm
  | decStrtol =>
    refine dec_iff hinput hstr rfl id fun hlt => iff_of_true ?_ (by unfold Trip.Sound; omega)
    exact slibStrtol_decimal ⟨hlt, hinput.2⟩ (not_not.1 hends)
  | decSscanf =>
    refine dec_iff hinput hstr rfl id fun hlt => iff_of_true ?_ (by unfold Trip.Sound; omega)
    exact slibSscanf_decimal ⟨hlt, hinput.2⟩ (not_not.1 hends)
  | uintSscanfU =>
    rw [uint_iff hstr rfl]
    have hread := convert_unsigned (slibStrtoul_decimal (u32_lt input) (not_not.1 hends))
    exact iff_of_true (slibSscanf_places (by simp [conversions]) (.inl rfl) hread) trivial
  | uintSscanfI =>
    rw [uint_iff hstr rfl]
    obtain ⟨rest, hread, -⟩ := slibStrtol_places hinput hends
    have hconvert := (convert_signed _ 0).trans hread
    exact iff_of_true (slibSscanf_places (by simp [conversions]) (.inr rfl) hconvert) trivial
  | uintStrtol =>
    rw [uint_iff hstr rfl]
    obtain ⟨rest, hread, hrest⟩ := slibStrtol_places hinput hends
    show slibStrtol _ 0 = _ ↔ (input = 0 → ¬ Prefixed text)
    rw [hread, ← hrest, Option.some.injEq, Prod.mk.injEq]
    exact and_iff_right rfl
  | hexSscanfX flag =>
    rw [hex_iff flag hstr rfl]
    have hread := convert_unsigned (@slibStrtoul_hex input text _ flag.char_eq (not_not.1 hends))
    exact iff_of_true (slibSscanf_hexadecimal (by simp [conversions]) (.inl rfl) hread) trivial
  | hexSscanfI flag =>
    rw [hex_iff flag hstr rfl]
    have hread := (convert_signed _ 0).trans
      (slibStrtol_hex_zero flag.char_eq (not_not.1 hends) hinput)
    exact iff_of_true (slibSscanf_hexadecimal (by simp [conversions]) (.inr rfl) hread) trivial
  | hexStrtolAny flag =>
    rw [hex_iff flag hstr rfl]
    exact iff_of_true (slibStrtol_hex_zero flag.char_eq (not_not.1 hends) hinput) trivial
  | hexStrtol flag =>
    rw [hex_iff flag hstr rfl]
    refine iff_of_false ?_ id
    have hread := @slibStrtol_hex_sixteen input _ flag.char_eq text
    show ¬ slibStrtol _ 16 = _
    rw [hread, Option.some.injEq, Prod.mk.injEq]
    rintro ⟨-, htext⟩
    have hlength := congrArg List.length htext
    rw [List.length_cons, List.length_append] at hlength
    omega

theorem trip_iff_negative :
    Trip.decSscanf.Returns (-42) [' ', 'x'] (List.replicate 12 '\x00') := by
  have hends : ¬ Trip.decSscanf.Continues (-42) [' ', 'x'] := by
    refine not_not.2 fun c hc => ?_
    obtain rfl : ' ' = c := Option.some.inj hc
    unfold IsDigit
    decide
  exact (trip_iff .decSscanf (-42) [' ', 'x'] _ (by decide) rfl (by decide +kernel) hends).2
    (by unfold Trip.Sound; decide)

/-- `__SLIB_strtol` with base 16 stops behind the zero of `0x0000002a`. -/
theorem trip_not : ¬ ∀ (trip : Trip) (input : Int) (text : CStr) (str : List Char),
    -2 ^ 31 ≤ input ∧ input < 2 ^ 31 → str.length = 12 →
    slibStrlen (decimal input ++ text) < 2 ^ 32 → ¬ trip.Continues input text →
    trip.Returns input text str := by
  intro hall
  have hends : ¬ (Trip.hexStrtol .lower).Continues 42 [] := not_not.2 fun c hc => nomatch hc
  obtain ⟨str', hprint, hreads⟩ := hall (.hexStrtol .lower) 42 [] (List.replicate 12 '\x00')
    (by decide) rfl (by decide +kernel) hends
  have hstr : Trip.print 42 (List.replicate 12 '\x00') (.hexStrtol .lower) =
      some "0x0000002a\x00\x00".toList := by decide +kernel
  cases hstr.symm.trans hprint
  have hread : slibStrtol (cstring "0x0000002a\x00\x00".toList ++ []) 16 =
      some (0, "x0000002a".toList) := by decide +kernel
  cases hread.symm.trans hreads

end Melis.Slib
