import Melis.Lib.Numeral
import Melis.Slib.Stdlib

/-!
# Printing and parsing

What the printers of `slib_stdlib.c` write is the numeral of the number, and what the parsers read
is its value. `trip_iff` says which parser gives back the number that which printer wrote, and stops
behind it.
-/

namespace Melis.Slib

open Lib

variable {base n room j unsum : Nat} {input : Int} {ds : List Nat} {s text str cs stack : List Char}
  {c : Char} {f : Nat → Char}

/-- The string in a buffer. -/
def cstring (str : List Char) : CStr := str.takeWhile (· ≠ '\x00')

/-- The characters stand for the digits below `base`, in the parser and out of a NUL. -/
structure Digits (base : Nat) (f : Nat → Char) : Prop where
  value : ∀ d < base, getValue (f d) = d
  hex : ∀ d < base, isxdigit (f d) = true ∧ xvalue (f d) = d
  nul : ∀ d < base, f d ≠ '\x00'
  space : ∀ d < base, slibIsspace (f d) = false
  sign : ∀ d < base, f d ≠ '-' ∧ f d ≠ '+'

theorem digits_digitChar : Digits 10 digitChar := by
  constructor <;> decide

/-- The characters of `__SLIB_int2str_hex`. -/
def hexChar (hexFlag : Char) (d : Nat) : Char := (hexDigits hexFlag).getD d '\x00'

theorem digits_hexChar (hexFlag : Char) : Digits 16 (hexChar hexFlag) := by
  unfold hexChar hexDigits
  split <;> constructor <;> decide

/-! ## The printers -/

theorem storeAll_append (h : cs.length ≤ str.length) :
    storeAll (s ++ str) s.length cs = some (s ++ cs ++ str.drop cs.length) := by
  induction cs generalizing s str with
  | nil => simp [storeAll]
  | cons c cs ih =>
    match str with
    | [] => simp at h
    | d :: str =>
      have hrest := @ih (s ++ [c]) str (by simpa using h)
      rw [List.length_append, List.length_singleton] at hrest
      rw [storeAll, if_pos (by simp), List.set_append_right _ _ (Nat.le_refl _), Nat.sub_self,
        List.set_cons_zero, List.append_cons, hrest]
      simp

theorem storeAll_zero (h : cs.length ≤ str.length) :
    storeAll str 0 cs = some (cs ++ str.drop cs.length) := storeAll_append (s := []) h

/-- The string that is stored with its NUL. -/
theorem cstring_append (h : ∀ c ∈ cs, c ≠ '\x00') : cstring (cs ++ ['\x00'] ++ str) = cs := by
  unfold cstring
  rw [List.append_assoc, List.takeWhile_append_of_pos (fun c hc => decide_eq_true (h c hc))]
  simp

/-- What a printer stores is the string, and stays in the buffer. -/
theorem stored_cstring (hlength : cs.length + 1 ≤ str.length) (h : ∀ c ∈ cs, c ≠ '\x00') :
    ∃ str', storeAll str 0 (cs ++ ['\x00']) = some str' ∧ cstring str' = cs :=
  ⟨_, storeAll_zero (by simpa using hlength), cstring_append h⟩

theorem digitLoop_eq (h : n < 10 ^ room) :
    digitLoop room n stack = some (stack ++ (Nat.digits 10 n).map digitChar) := by
  induction room generalizing n stack with
  | zero =>
    obtain rfl : n = 0 := by omega
    simp [digitLoop]
  | succ room ih =>
    cases n with
    | zero => simp [digitLoop]
    | succ n =>
      have hdiv : (n + 1) / 10 < 10 ^ room := by
        rw [Nat.div_lt_iff_lt_mul (by decide)]
        exact h
      rw [digitLoop, ih hdiv, Nat.digits_def' (by decide) (Nat.succ_pos n), List.map_cons,
        List.append_assoc]
      rfl

/-- The numeral of a number that has a digit. -/
theorem map_places (hn : n ≠ 0) (f : Nat → Char) :
    (places base n).map f = ((Nat.digits base n).map f).reverse := by
  rw [places, if_neg hn, List.map_reverse]

def decimal (input : Int) : CStr :=
  (if input < 0 then ['-'] else []) ++ (places 10 input.natAbs).map digitChar

theorem ne_nul_of_mem (h : Digits base f) (hds : ∀ d ∈ ds, d < base) :
    ∀ c ∈ ds.map f, c ≠ '\x00' := by
  intro c hc
  obtain ⟨d, hd, rfl⟩ := List.mem_map.1 hc
  exact h.nul d (hds d hd)

theorem decimal_ne_nul (input : Int) : ∀ c ∈ decimal input, c ≠ '\x00' := by
  intro c hc
  rcases List.mem_append.1 hc with hsign | hdigit
  · split at hsign
    · rw [List.mem_singleton.1 hsign]
      decide
    · cases hsign
  · exact ne_nul_of_mem digits_digitChar (places_lt (by decide)) c hdigit

theorem length_decimal (h : -2 ^ 31 ≤ input ∧ input < 2 ^ 31) : (decimal input).length ≤ 11 := by
  have hplaces := @length_places 10 input.natAbs 10 (by decide) (by decide) (by omega)
  unfold decimal
  rw [List.length_append, List.length_map]
  split
  · rw [List.length_singleton]
    omega
  · rw [List.length_nil]
    omega

theorem slibInt2strDec_eq (h : -2 ^ 31 < input ∧ input < 2 ^ 31) (hstr : str.length = 12) :
    ∃ str', slibInt2strDec input str = some str' ∧ cstring str' = decimal input := by
  have hstored := @stored_cstring str (decimal input)
    (by rw [hstr]; exact Nat.succ_le_succ (length_decimal (by omega))) (decimal_ne_nul input)
  by_cases hzero : input = 0
  · subst hzero
    exact hstored
  · have hloop := @digitLoop_eq input.natAbs 12 [] (by omega)
    have hne : input.natAbs ≠ 0 := by omega
    rw [decimal, map_places hne] at hstored
    unfold slibInt2strDec
    rw [if_neg hzero, if_neg (by omega), hloop]
    rw [decimal, map_places hne]
    exact hstored

/-- The most negative number has no absolute value. -/
theorem slibInt2strDec_none (str : List Char) : slibInt2strDec (-2 ^ 31) str = none := rfl

theorem slibUint2strDec_eq (h : n < 2 ^ 32) (hstr : str.length = 12) :
    ∃ str', slibUint2strDec n str = some str' ∧ cstring str' = (places 10 n).map digitChar := by
  have hplaces := @length_places 10 n 10 (by decide) (by decide) (by omega)
  have hstored := @stored_cstring str ((places 10 n).map digitChar)
    (by rw [hstr, List.length_map]; omega) (ne_nul_of_mem digits_digitChar (places_lt (by decide)))
  by_cases hzero : n = 0
  · subst hzero
    exact hstored
  · have hloop := @digitLoop_eq n 11 [] (by omega)
    rw [map_places hzero] at hstored
    unfold slibUint2strDec
    rw [if_neg hzero, hloop]
    rw [map_places hzero]
    exact hstored

theorem hexLoop_eq (hexFlag : Char) (i : Nat) (input : Int) (stack : List Char) :
    hexLoop hexFlag i input stack = stack ++ (lowDigits 16 i input).map (hexChar hexFlag) := by
  induction i generalizing input stack with
  | zero => simp [hexLoop, lowDigits]
  | succ i ih =>
    rw [hexLoop, ih, lowDigits, List.map_cons, List.append_assoc]
    rfl

/-- Eight digits behind the prefix. -/
def hexadecimal (hexFlag : Char) (input : Int) : CStr :=
  '0' :: hexFlag :: (lowDigits 16 8 input).reverse.map (hexChar hexFlag)

theorem slibInt2strHex_eq {hexFlag : Char} (hflag : hexFlag ≠ '\x00') (hstr : str.length = 12) :
    ∃ str', slibInt2strHex input str hexFlag = some str' ∧
      cstring str' = hexadecimal hexFlag input := by
  have hstored := @stored_cstring str (hexadecimal hexFlag input)
    (by simp [hexadecimal, length_lowDigits, hstr]) ?_
  · unfold slibInt2strHex
    rw [hexLoop_eq, List.nil_append, ← List.map_reverse]
    exact hstored
  · intro c hc
    simp only [hexadecimal, List.mem_cons] at hc
    rcases hc with rfl | rfl | hc
    · decide
    · exact hflag
    · exact ne_nul_of_mem (digits_hexChar hexFlag)
        (fun d hd => lowDigits_lt (by decide) input d (List.mem_reverse.1 hd)) c hc

/-! ## The parsers -/

/-- The character is a digit in that base. -/
def IsDigit (base : Nat) (c : Char) : Prop := 0 ≤ getValue c ∧ getValue c < base

/-- The text does not go on with a digit. -/
def Ends (base : Nat) (text : CStr) : Prop := ∀ c ∈ text.head?, ¬ IsDigit base c

theorem u32_natCast (k : Nat) : u32 (k : Int) = k % 2 ^ 32 := by
  unfold u32
  omega

theorem strtolLoop_of_ends (hends : Ends base text) (unsum : Nat) :
    strtolLoop base text unsum = (unsum, text) := by
  cases text with
  | nil => rfl
  | cons c text =>
    have hnot := hends c rfl
    rw [strtolLoop, if_pos]
    unfold IsDigit at hnot
    omega

theorem strtolLoop_append (h : Digits base f) (hds : ∀ d ∈ ds, d < base) (hends : Ends base text) :
    strtolLoop base (ds.map f ++ text) unsum = (horner base (2 ^ 32) unsum ds, text) := by
  induction ds generalizing unsum with
  | nil => exact strtolLoop_of_ends hends unsum
  | cons d ds ih =>
    obtain ⟨hd, hds⟩ := List.forall_mem_cons.1 hds
    have hnext : u32 ((unsum : Int) * base + d) = (unsum * base + d) % 2 ^ 32 := by
      rw [← u32_natCast, Nat.cast_add, Nat.cast_mul]
    rw [List.map_cons, List.cons_append, strtolLoop, h.value d hd, if_neg (by omega), hnext, ih hds,
      horner_cons]

/-- The two tables of digits agree. -/
theorem getValue_of_isxdigit (h : isxdigit c = true) : getValue c = xvalue c := by
  have hascii : c.toNat < 128 := by
    simp only [isxdigit, Bool.or_eq_true, Bool.and_eq_true, decide_eq_true_eq] at h
    have hle : c ≤ 'f' := by
      rcases h with (⟨-, h⟩ | ⟨-, h⟩) | ⟨-, h⟩
      · exact Char.le_trans h (by decide)
      · exact h
      · exact Char.le_trans h (by decide)
    exact Nat.lt_of_le_of_lt hle (by decide)
  have hall : ∀ k < 128, isxdigit (Char.ofNat k) = true →
      getValue (Char.ofNat k) = xvalue (Char.ofNat k) := by decide
  have hchar : Char.ofNat c.toNat = c := Char.ofNat_toNat c
  rw [← hchar] at h ⊢
  exact hall _ hascii h

theorem strtoulLoop_append (h : Digits base f) (hds : ∀ d ∈ ds, d < base) (hends : Ends base text) :
    strtoulLoop base (ds.map f ++ text) unsum = (horner base (2 ^ 32) unsum ds, text) := by
  induction ds generalizing unsum with
  | nil =>
    cases text with
    | nil => rfl
    | cons c text =>
      have hnot := hends c rfl
      rw [List.map_nil, List.nil_append, strtoulLoop, if_neg]
      · rfl
      · rintro ⟨hx, hlt⟩
        have heq := getValue_of_isxdigit hx
        exact hnot ⟨by omega, by omega⟩
  | cons d ds ih =>
    obtain ⟨hd, hds⟩ := List.forall_mem_cons.1 hds
    obtain ⟨hx, hvalue⟩ := h.hex d hd
    rw [List.map_cons, List.cons_append, strtoulLoop, hvalue, if_pos ⟨hx, hd⟩, ih hds, horner_cons]

/-- The string begins with neither white space nor a sign. -/
def Plain (s : CStr) : Prop := slibIsspace (deref s) = false ∧ deref s ≠ '-' ∧ deref s ≠ '+'

theorem dropWhile_isspace (h : slibIsspace (deref s) = false) : s.dropWhile slibIsspace = s := by
  cases s with
  | nil => rfl
  | cons c s =>
    have hc : slibIsspace c = false := h
    rw [List.dropWhile_cons, hc]
    rfl

theorem slibStrtol_plain {b b' : Int} {q rest : CStr} (hplain : Plain s) (hb : 0 ≤ b ∧ b ≤ 36)
    (hbase : strtolBase s b = (q, b')) (hloop : strtolLoop b' q 0 = (unsum, rest)) :
    slibStrtol s b = some (if rest.length = q.length then (0, s) else (i32 unsum, rest)) := by
  obtain ⟨hspace, hminus, hplus⟩ := hplain
  unfold slibStrtol
  rw [if_neg (by omega), dropWhile_isspace hspace]
  simp only [if_neg (not_or.2 ⟨hminus, hplus⟩), hbase, hloop, if_neg hminus]
  split <;> rfl

theorem slibStrtol_minus {b b' : Int} {p q rest : CStr} (hb : 0 ≤ b ∧ b ≤ 36)
    (hbase : strtolBase p b = (q, b')) (hloop : strtolLoop b' q 0 = (unsum, rest))
    (hread : rest.length ≠ q.length) (hmin : i32 unsum ≠ -2 ^ 31) :
    slibStrtol ('-' :: p) b = some (-i32 unsum, rest) := by
  have hminus : deref ('-' :: p) = '-' := rfl
  unfold slibStrtol
  rw [if_neg (by omega), dropWhile_isspace rfl]
  simp only [hminus, true_or, if_true, List.drop_succ_cons, List.drop_zero, hbase, hloop,
    if_neg hread, if_neg hmin]

theorem strtolBase_of_ne {b : Int} (hb : b ≠ 0) (p : CStr) : strtolBase p b = (p, b) := by
  unfold strtolBase
  simp only [if_neg hb, ite_self]

/-! ## Numerals in front of a text -/

theorem plain_of_map (h : Digits base f) (hds : ∀ d ∈ ds, d < base) (hne : ds ≠ []) (text : CStr) :
    Plain (ds.map f ++ text) := by
  cases ds with
  | nil => exact absurd rfl hne
  | cons d ds =>
    have hd := hds d List.mem_cons_self
    exact ⟨h.space d hd, h.sign d hd⟩

theorem length_append_ne (h : ds ≠ []) (f : Nat → Char) (text : CStr) :
    text.length ≠ (ds.map f ++ text).length := by
  rw [List.length_append, List.length_map]
  have hpos := List.length_pos_of_ne_nil h
  omega

theorem horner_eq (h : n < 2 ^ 32) (base : Nat) : horner base (2 ^ 32) 0 (places base n) = n := by
  rw [horner_places, Nat.mod_eq_of_lt h]

/-- `__SLIB_strtol` reads a decimal numeral with its sign. -/
theorem slibStrtol_decimal (h : -2 ^ 31 < input ∧ input < 2 ^ 31) (hends : Ends 10 text) :
    slibStrtol (decimal input ++ text) 10 = some (input, text) := by
  have hds := @places_lt 10 input.natAbs (by decide)
  have hloop : strtolLoop 10 ((places 10 input.natAbs).map digitChar ++ text) 0 =
      (horner 10 (2 ^ 32) 0 (places 10 input.natAbs), text) :=
    strtolLoop_append digits_digitChar hds hends
  have hread := length_append_ne (places_ne_nil 10 input.natAbs) digitChar text
  rw [horner_eq (by omega)] at hloop
  unfold decimal
  by_cases hneg : input < 0
  · have hi32 : i32 input.natAbs = input.natAbs := i32_eq (by omega) (by omega)
    rw [if_pos hneg]
    show slibStrtol ('-' :: ((places 10 input.natAbs).map digitChar ++ text)) 10 = _
    rw [slibStrtol_minus (by decide) (strtolBase_of_ne (by decide) _) hloop hread
      (by rw [hi32]; omega), hi32, Option.some.injEq, Prod.mk.injEq]
    exact ⟨by omega, rfl⟩
  · have hi32 : i32 input.natAbs = input := by
      rw [i32_eq] <;> omega
    rw [if_neg hneg, List.nil_append, slibStrtol_plain
      (plain_of_map digits_digitChar hds (places_ne_nil 10 input.natAbs) text) (by decide)
      (strtolBase_of_ne (by decide) _) hloop, if_neg hread, hi32]

/-- `__SLIB_strtoul` reads a decimal numeral. -/
theorem slibStrtoul_decimal (h : n < 2 ^ 32) (hends : Ends 10 text) :
    slibStrtoul ((places 10 n).map digitChar ++ text) 10 = (n, text) := by
  have hbase (cp : CStr) : strtoulBase cp 10 = (cp, 10) := by
    unfold strtoulBase
    rw [if_neg (by decide), if_neg (fun hyes => absurd hyes.1 (by decide))]
  unfold slibStrtoul
  rw [hbase]
  dsimp only
  rw [strtoulLoop_append digits_digitChar (places_lt (by decide)) hends, horner_eq h]

theorem i32_u32 (h : -2 ^ 31 ≤ input ∧ input < 2 ^ 31) : i32 (u32 input) = input := by
  have hnat : ((u32 input : Nat) : Int) = input % 2 ^ 32 := by
    unfold u32
    omega
  have hmod : i32 (input % 2 ^ 32) = i32 input := Int.emod_bmod input (2 ^ 32)
  rw [hnat, hmod, i32_eq h.1 h.2]

theorem u32_lt (input : Int) : u32 input < 2 ^ 32 := by
  unfold u32
  omega

/-- The text goes on with a hexadecimal prefix. -/
def Prefixed (text : CStr) : Prop := deref text = 'x' ∨ deref text = 'X'

instance (text : CStr) : Decidable (Prefixed text) := inferInstanceAs (Decidable (_ ∨ _))

/-- Without a prefix behind a zero, `__SLIB_strtol` finds the base of a decimal numeral. -/
theorem slibStrtol_zero (hends : Ends 10 text) (hmark : n = 0 → ¬ Prefixed text)
    (h : n < 2 ^ 32) :
    slibStrtol ((places 10 n).map digitChar ++ text) 0 = some (i32 n, text) := by
  by_cases hzero : n = 0
  · subst hzero
    have hbase : strtolBase ('0' :: text) 0 = ('0' :: text, 8) := by
      unfold strtolBase
      rw [if_neg (fun hyes => hmark rfl hyes.2), if_pos (show deref ('0' :: text) = '0' from rfl),
        if_pos rfl]
    have hloop : strtolLoop 8 ('0' :: text) 0 = (0, text) := by
      rw [strtolLoop, if_neg (by decide)]
      refine @strtolLoop_of_ends 8 text (fun c hc hdigit => hends c hc ?_) 0
      exact ⟨hdigit.1, Int.lt_trans hdigit.2 (by decide)⟩
    show slibStrtol ('0' :: text) 0 = _
    rw [slibStrtol_plain ⟨rfl, by simp [deref], by simp [deref]⟩ (by decide) hbase hloop,
      if_neg (by simp)]
  · have hds := @places_lt 10 n (by decide)
    have hne := places_ne_nil 10 n
    have hloop : strtolLoop 10 ((places 10 n).map digitChar ++ text) 0 =
        (horner 10 (2 ^ 32) 0 (places 10 n), text) :=
      strtolLoop_append digits_digitChar hds hends
    rw [horner_eq h] at hloop
    have hfirst : deref ((places 10 n).map digitChar ++ text) ≠ '0' := by
      have hhead := @head_places 10 n hzero
      cases hplaces : places 10 n with
      | nil => exact absurd hplaces hne
      | cons d ds =>
        rw [hplaces] at hhead
        have hd := hds d (hplaces ▸ List.mem_cons_self)
        have hchar : ∀ d < 10, digitChar d = '0' → d = 0 := by decide
        intro hyes
        exact hhead (congrArg some (hchar d hd hyes))
    have hbase : strtolBase ((places 10 n).map digitChar ++ text) 0 =
        ((places 10 n).map digitChar ++ text, 10) := by
      unfold strtolBase
      rw [if_neg (fun hyes => hfirst hyes.1), if_neg hfirst, if_pos rfl]
    rw [slibStrtol_plain (plain_of_map digits_digitChar hds hne text) (by decide) hbase hloop,
      if_neg (length_append_ne hne digitChar text)]

/-- With a prefix and no number behind it, it finds no number at all. -/
theorem slibStrtol_prefix (hmark : Prefixed text) (hends : Ends 16 (text.drop 1)) :
    slibStrtol ('0' :: text) 0 = some (0, '0' :: text) := by
  have hbase : strtolBase ('0' :: text) 0 = (text.drop 1, 16) := by
    unfold strtolBase
    rw [if_pos ⟨rfl, hmark⟩, if_pos rfl]
    rfl
  have hloop : strtolLoop 16 (text.drop 1) 0 = (0, text.drop 1) := strtolLoop_of_ends hends 0
  rw [slibStrtol_plain ⟨rfl, by simp [deref], by simp [deref]⟩ (by decide) hbase hloop, if_pos rfl]

section Hexadecimal

variable {hexFlag : Char} (hflag : hexFlag = 'x' ∨ hexFlag = 'X') (hends : Ends 16 text)

theorem hex_places (input : Int) :
    (∀ d ∈ (lowDigits 16 8 input).reverse, d < 16) ∧ (lowDigits 16 8 input).reverse ≠ [] ∧
      horner 16 (2 ^ 32) 0 (lowDigits 16 8 input).reverse = u32 input := by
  refine ⟨fun d hd => lowDigits_lt (by decide) input d (List.mem_reverse.1 hd), ?_, ?_⟩
  · exact List.ne_nil_of_length_pos (by rw [List.length_reverse, length_lowDigits]; decide)
  · have hvalue := @ofDigits_lowDigits 16 8 (by decide) input
    rw [horner_reverse, u32]
    omega

theorem plain_hexadecimal (hexFlag : Char) (input : Int) (text : CStr) :
    Plain (hexadecimal hexFlag input ++ text) :=
  ⟨rfl, by simp [hexadecimal, deref], by simp [hexadecimal, deref]⟩

include hflag hends

theorem slibStrtol_hex_zero (h : -2 ^ 31 ≤ input ∧ input < 2 ^ 31) :
    slibStrtol (hexadecimal hexFlag input ++ text) 0 = some (input, text) := by
  obtain ⟨hds, hne, hvalue⟩ := hex_places input
  have hloop : strtolLoop 16 ((lowDigits 16 8 input).reverse.map (hexChar hexFlag) ++ text) 0 =
      (horner 16 (2 ^ 32) 0 (lowDigits 16 8 input).reverse, text) :=
    strtolLoop_append (digits_hexChar hexFlag) hds hends
  have hbase : strtolBase (hexadecimal hexFlag input ++ text) 0 =
      ((lowDigits 16 8 input).reverse.map (hexChar hexFlag) ++ text, 16) := by
    unfold strtolBase
    rw [if_pos ⟨rfl, hflag⟩, if_pos rfl]
    rfl
  rw [hvalue] at hloop
  rw [slibStrtol_plain (plain_hexadecimal hexFlag input text) (by decide) hbase hloop,
    if_neg (length_append_ne hne _ text), i32_u32 h]

omit hends in
/-- The prefix is no number in base 16. -/
theorem slibStrtol_hex_sixteen (text : CStr) :
    slibStrtol (hexadecimal hexFlag input ++ text) 16 =
      some (0, hexFlag :: ((lowDigits 16 8 input).reverse.map (hexChar hexFlag) ++ text)) := by
  have hstop : getValue hexFlag ≥ 16 := by
    rcases hflag with rfl | rfl <;> decide
  have hloop : strtolLoop 16 (hexadecimal hexFlag input ++ text) 0 =
      (0, hexFlag :: ((lowDigits 16 8 input).reverse.map (hexChar hexFlag) ++ text)) := by
    show strtolLoop 16 ('0' :: hexFlag :: _) 0 = _
    rw [strtolLoop, if_neg (by decide), strtolLoop, if_pos (.inr hstop)]
    rfl
  rw [slibStrtol_plain (plain_hexadecimal hexFlag input text) (by decide)
    (strtolBase_of_ne (by decide) _) hloop, if_neg (by simp [hexadecimal])]
  rfl

theorem slibStrtoul_hex :
    slibStrtoul (hexadecimal hexFlag input ++ text) 16 = (u32 input, text) := by
  obtain ⟨hds, -, hvalue⟩ := hex_places input
  have hlower : tolower hexFlag = 'x' := by
    rcases hflag with rfl | rfl <;> decide
  have hbase : strtoulBase (hexadecimal hexFlag input ++ text) 16 =
      ((lowDigits 16 8 input).reverse.map (hexChar hexFlag) ++ text, 16) := by
    unfold strtoulBase
    rw [if_neg (by decide), if_pos ⟨rfl, rfl, hlower⟩]
    rfl
  unfold slibStrtoul
  rw [hbase]
  dsimp only
  rw [strtoulLoop_append (digits_hexChar hexFlag) hds hends, hvalue]

end Hexadecimal

/-! ## `__SLIB_atoi` -/

theorem isdigit_digitChar {d : Nat} (h : d < 10) :
    isdigit (digitChar d) = true ∧ (digitChar d).toNat - '0'.toNat = d := by
  have hall : ∀ d < 10, isdigit (digitChar d) = true ∧ (digitChar d).toNat - '0'.toNat = d := by
    decide
  exact hall d h

theorem isdigit_of_ends (hends : Ends 10 text) (hc : c ∈ text.head?) : isdigit c = false := by
  by_contra hdigit
  have hrange : '0' ≤ c ∧ c ≤ '9' := by simpa [isdigit] using hdigit
  have hlow : '0'.toNat ≤ c.toNat := hrange.1
  have hhigh : c.toNat ≤ '9'.toNat := hrange.2
  apply hends c hc
  unfold IsDigit getValue
  rw [if_pos hrange]
  have hzero : '0'.toNat = 48 := rfl
  have hnine : '9'.toNat = 57 := rfl
  omega

theorem slibStrlen_append (h : ∀ c ∈ s, c ≠ '\x00') :
    slibStrlen (s ++ text) = s.length + slibStrlen text := by
  unfold slibStrlen
  rw [List.takeWhile_append_of_pos (fun c hc => decide_eq_true (h c hc)), List.length_append]

theorem digitRun_of_ends (hends : Ends 10 text) (len : Nat) : digitRun len text = 0 := by
  match len, text with
  | 0, _ => rfl
  | _ + 1, [] => rfl
  | len + 1, c :: text => rw [digitRun, isdigit_of_ends hends rfl, if_neg (by decide)]

theorem digitRun_append {len : Nat} (hds : ∀ d ∈ ds, d < 10) (hends : Ends 10 text)
    (hlen : ds.length ≤ len) : digitRun len (ds.map digitChar ++ text) = ds.length := by
  induction ds generalizing len with
  | nil => exact digitRun_of_ends hends len
  | cons d ds ih =>
    obtain ⟨hd, hds⟩ := List.forall_mem_cons.1 hds
    match len with
    | 0 => simp at hlen
    | len + 1 =>
      rw [List.map_cons, List.cons_append, digitRun, (isdigit_digitChar hd).1, if_pos rfl,
        ih hds (Nat.le_of_succ_le_succ hlen), List.length_cons]

theorem baseLoop_eq {i b : Nat} (h : b * 10 ^ i < 2 ^ 32) : baseLoop i b = b * 10 ^ i := by
  induction i generalizing b with
  | zero => simp [baseLoop]
  | succ i ih =>
    have hpow : b * 10 * 10 ^ i = b * 10 ^ (i + 1) := by rw [Nat.pow_succ']; ring
    have hpos : 0 < 10 ^ i := Nat.pow_pos (by decide)
    have hlt : b * 10 < 2 ^ 32 := by
      calc b * 10 ≤ b * 10 * 10 ^ i := Nat.le_mul_of_pos_right _ hpos
        _ < 2 ^ 32 := hpow ▸ h
    rw [baseLoop, Nat.mod_eq_of_lt hlt, ih (hpow ▸ h), hpow]

/-- The digits are summed up from the first one on. -/
theorem valueLoop_append {b : Nat} (hds : ∀ d ∈ ds, d < 10)
    (hb : ds ≠ [] → b = 10 ^ (ds.length - 1)) (v : Int) :
    valueLoop ds.length (ds.map digitChar ++ text) b (i32 v) =
      i32 (v + (Nat.ofDigits 10 ds.reverse : Nat)) := by
  induction ds generalizing b v with
  | nil =>
    rw [List.length_nil, valueLoop, List.reverse_nil, Nat.ofDigits_nil]
    simp
  | cons d ds ih =>
    obtain ⟨hd, hds⟩ := List.forall_mem_cons.1 hds
    obtain ⟨hdigit, hvalue⟩ := isdigit_digitChar hd
    have hb := hb (List.cons_ne_nil _ _)
    rw [List.length_cons, Nat.add_sub_cancel] at hb
    have hnext : ds ≠ [] → b / 10 = 10 ^ (ds.length - 1) := by
      intro hne
      have hlen : ds.length - 1 + 1 = ds.length := Nat.sub_add_cancel (List.length_pos_of_ne_nil hne)
      rw [hb, ← hlen, Nat.pow_succ, Nat.mul_div_cancel _ (by decide), hlen]
    have hsum : i32 (i32 v + (d * b : Nat)) = i32 (v + (d * b : Nat)) := Int.bmod_add_bmod
    rw [List.length_cons, List.map_cons, List.cons_append, valueLoop, hdigit, if_pos rfl, hvalue,
      hsum, ih hds hnext, List.reverse_cons, Nat.ofDigits_append, Nat.ofDigits_singleton,
      List.length_reverse, hb]
    congr 1
    push_cast
    ring

/-- Behind the sign. -/
theorem atoi_places (hn : n < 2 ^ 31) (hzero : n ≠ 0) (hends : Ends 10 text) {len : Int}
    (hlen : ((places 10 n).length : Int) ≤ len) :
    skipZeros ((places 10 n).map digitChar ++ text) len =
        ((places 10 n).map digitChar ++ text, len) ∧
      digitRun len.toNat ((places 10 n).map digitChar ++ text) = (places 10 n).length ∧
      valueLoop (places 10 n).length ((places 10 n).map digitChar ++ text)
        (baseLoop ((places 10 n).length - 1) 1) 0 = n := by
  have hds := @places_lt 10 n (by decide)
  have hne := places_ne_nil 10 n
  have hlength := @length_places 10 n 10 (by decide) (by decide) (by omega)
  refine ⟨?_, digitRun_append hds hends (by omega), ?_⟩
  · have hhead := @head_places 10 n hzero
    cases hplaces : places 10 n with
    | nil => exact absurd hplaces hne
    | cons d ds =>
      rw [hplaces] at hhead
      have hd := hds d (hplaces ▸ List.mem_cons_self)
      have hchar : ∀ d < 10, digitChar d = '0' → d = 0 := by decide
      rw [List.map_cons, List.cons_append, skipZeros, if_pos]
      intro hyes
      exact hhead (congrArg some (hchar d hd hyes))
  · have hbase : baseLoop ((places 10 n).length - 1) 1 = 10 ^ ((places 10 n).length - 1) := by
      have hpow : 10 ^ ((places 10 n).length - 1) ≤ 10 ^ 9 := Nat.pow_le_pow_right (by decide) (by omega)
      rw [baseLoop_eq (by omega), Nat.one_mul]
    have hvalue := @valueLoop_append (places 10 n) text _ hds (fun _ => hbase) 0
    have hstart : i32 0 = 0 := rfl
    rw [hstart, ofDigits_places, Int.zero_add, i32_eq (by omega) (by omega)] at hvalue
    exact hvalue

theorem slibStrlen_pos (h : ∀ c ∈ s, c ≠ '\x00') (hne : s ≠ []) (text : CStr) :
    0 < slibStrlen (s ++ text) := by
  rw [slibStrlen_append h]
  have hpos := List.length_pos_of_ne_nil hne
  omega

/-- What follows the sign. -/
theorem slibAtoi_sign {t : CStr} {sign : Int} {m : Nat} (hsign : atoiSign s = (t, sign))
    (hs : 0 < slibStrlen s ∧ slibStrlen s < 2 ^ 31) (ht : 0 < slibStrlen t ∧ slibStrlen t < 2 ^ 31)
    {t' : CStr} {len : Int} (hskip : skipZeros t (slibStrlen t) = (t', len))
    (hrun : digitRun len.toNat t' = m) :
    slibAtoi s = if m = 0 then some 0 else
      if sign = -1 ∧ valueLoop m t' (baseLoop (m - 1) 1) 0 = -2 ^ 31 then none
      else some (sign * valueLoop m t' (baseLoop (m - 1) 1) 0) := by
  have hlenS : i32 (slibStrlen s) = slibStrlen s := i32_eq (by omega) (by omega)
  have hlenT : i32 (slibStrlen t) = slibStrlen t := i32_eq (by omega) (by omega)
  unfold slibAtoi
  rw [hlenS, if_neg (by omega), hsign]
  dsimp only
  rw [hlenT, if_neg (by omega), hskip]
  dsimp only
  rw [hrun]

/-- `__SLIB_atoi` reads a decimal numeral in a string whose length is an `int`. -/
theorem slibAtoi_decimal (h : -2 ^ 31 < input ∧ input < 2 ^ 31) (hends : Ends 10 text)
    (hlen : slibStrlen (decimal input ++ text) < 2 ^ 31) :
    slibAtoi (decimal input ++ text) = some input := by
  have hplaces := ne_nul_of_mem digits_digitChar (@places_lt 10 input.natAbs (by decide))
  have hposS := slibStrlen_pos (decimal_ne_nul input)
    (fun hnil => places_ne_nil 10 input.natAbs
      (List.map_eq_nil_iff.1 (List.append_eq_nil_iff.1 hnil).2)) text
  have hposT := slibStrlen_pos hplaces
    (fun hnil => places_ne_nil 10 input.natAbs (List.map_eq_nil_iff.1 hnil)) text
  have hle : slibStrlen ((places 10 input.natAbs).map digitChar ++ text) ≤
      slibStrlen (decimal input ++ text) := by
    rw [slibStrlen_append hplaces, slibStrlen_append (decimal_ne_nul input), decimal,
      List.length_append]
    omega
  by_cases hzero : input = 0
  · subst hzero
    have hskip : ∃ len, skipZeros ('0' :: text) (slibStrlen ('0' :: text)) = (text, len) := by
      rw [skipZeros, if_neg (by decide)]
      split
      · exact ⟨_, rfl⟩
      · cases text with
        | nil => exact ⟨_, rfl⟩
        | cons c text =>
          refine ⟨_, if_pos ?_⟩
          rintro rfl
          exact absurd (isdigit_of_ends hends (c := '0') rfl) (by decide)
    obtain ⟨len, hskip⟩ := hskip
    exact slibAtoi_sign rfl ⟨hposS, hlen⟩ ⟨hposS, hlen⟩ hskip (digitRun_of_ends hends len.toNat)
  · have hlength : (places 10 input.natAbs).length ≠ 0 := by
      exact fun hnil => places_ne_nil 10 input.natAbs (List.length_eq_zero_iff.1 hnil)
    have hlong : ((places 10 input.natAbs).length : Int) ≤
        slibStrlen ((places 10 input.natAbs).map digitChar ++ text) := by
      rw [slibStrlen_append hplaces, List.length_map]
      omega
    obtain ⟨hskip, hrun, hvalue⟩ := atoi_places (n := input.natAbs) (by omega) (by omega) hends hlong
    by_cases hneg : input < 0
    · have hsign : atoiSign (decimal input ++ text) =
          ((places 10 input.natAbs).map digitChar ++ text, -1) := by
        rw [decimal, if_pos hneg]
        rfl
      rw [slibAtoi_sign hsign ⟨hposS, hlen⟩ ⟨hposT, by omega⟩ hskip hrun, if_neg hlength, hvalue,
        if_neg (by omega), Option.some.injEq]
      omega
    · have hplain := plain_of_map digits_digitChar (@places_lt 10 input.natAbs (by decide))
        (places_ne_nil 10 input.natAbs) text
      have hsign : atoiSign (decimal input ++ text) =
          ((places 10 input.natAbs).map digitChar ++ text, 1) := by
        rw [decimal, if_neg hneg, List.nil_append]
        cases hs : (places 10 input.natAbs).map digitChar ++ text with
        | nil => rfl
        | cons c s =>
          rw [hs] at hplain
          have hminus : c ≠ '-' := hplain.2.1
          have hplus : c ≠ '+' := hplain.2.2
          rw [atoiSign, if_neg hminus, if_neg hplus]
      rw [slibAtoi_sign hsign ⟨hposS, hlen⟩ ⟨hposT, by omega⟩ hskip hrun, if_neg hlength, hvalue,
        if_neg (by omega), Option.some.injEq]
      omega

theorem slibAtoi_long (hlong : 2 ^ 31 ≤ slibStrlen s) (hmem : slibStrlen s < 2 ^ 32) :
    slibAtoi s = some 0 := by
  have hneg : i32 (slibStrlen s) ≤ 0 := by
    unfold i32
    rw [Int.bmod_def]
    split <;> omega
  unfold slibAtoi
  rw [if_pos hneg]

end Melis.Slib
