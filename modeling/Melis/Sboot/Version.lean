import Mathlib.Data.Nat.Size
import Melis.Lib.C
import Melis.Lib.Run

/-!
# The version fuses

`sboot_toc1.c` keeps the version of the newest image in one-way fuses. The mark
of a version is a fuse in a field of 32-bit words, read as an `int` from the top
word down. The addresses of the field are given in a header that is not there,
so they are a parameter (`Efuse`).
-/

namespace Melis.Sboot

open Lib Function

/-- `EFUSE_NV1` and the number of words in `EFUSE_NV_BIT` fuses, which are whole words. -/
structure Efuse where
  EFUSE_NV1 : Nat
  words : Nat
  words_pos : 0 < words

def Efuse.EFUSE_NV_BIT (P : Efuse) : Nat := 32 * P.words

/-- The word `i` of the field. -/
def Efuse.key (P : Efuse) (i : Nat) : Nat := P.EFUSE_NV1 + i * 4

/-- The words of the fuses by their key. -/
abbrev Sid := Nat → UInt32

def sid_read_key (sid : Sid) (key_index : Nat) : UInt32 := sid key_index

/-- A fuse that is burnt stays so. -/
def sid_program_key (sid : Sid) (key_index : Nat) (key_value : UInt32) : Sid :=
  update sid key_index (sid key_index ||| key_value)

variable (P : Efuse) (sid : Sid)

/-- `while (nv) { ++temp_nv; nv >>= 1; }`, for a number of at most as many bits as the first
argument. -/
def countShifts : Nat → Nat → Nat
  | 0, _ => 0
  | n + 1, nv => if nv = 0 then 0 else countShifts n (nv / 2) + 1

/-- The words below `i`, from the top down; `nv` is the word that was read last. -/
def readMark : Nat → Int → Int
  | 0, nv => nv
  | i + 1, _ =>
    let nv := (sid_read_key sid (P.key i)).toInt32.toInt
    if 0 < nv then countShifts 32 nv.toNat + i * 32 else readMark i nv

def get_old_verion : Int := readMark P sid P.words 0

/-- `none` where `1` is shifted by `-1`. -/
def set_new_version (new_ver : Nat) (old_ver : Int) (word_ofs bit_ofs_in_word : Nat) :
    Option Sid :=
  if old_ver < new_ver then
    if bit_ofs_in_word = 0 then none
    else some (sid_program_key sid (P.key word_ofs) (.ofNat (2 ^ (bit_ofs_in_word - 1))))
  else some sid

/-- What comes of an image. -/
inductive Verdict
  | refused
  | accepted (sid : Sid)
  | undefined

/-- Only one byte of `version_main` is the version. -/
def version (version_main : UInt32) : Nat := version_main.toNat % 256

def sboot_verify_version (version_main : UInt32) : Verdict :=
  let main_v := version version_main
  if P.EFUSE_NV_BIT < main_v then .refused
  else
    let nv := get_old_verion P sid
    if main_v < nv then .refused
    else
      match set_new_version P sid main_v nv (main_v / 32) (main_v % 32) with
      | none => .undefined
      | some sid => .accepted sid

/-- Boots with one image after another. -/
def boots : Machine Sid UInt32 where
  next sid version_main :=
    match sboot_verify_version P sid version_main with
    | .refused => some sid
    | .accepted sid' => some sid'
    | .undefined => none

/-- Every image that is accepted is at least as new as those before it (`olds`), its version
is what is read back if it is newer than what was, and only fuses of the field are burnt. -/
def AntiRollback : Sid → List Nat → List UInt32 → Prop
  | _, _, [] => True
  | sid, olds, v :: vs =>
    match sboot_verify_version P sid v with
    | .refused => AntiRollback sid olds vs
    | .accepted sid' =>
      (∀ old ∈ olds, old ≤ version v) ∧
        get_old_verion P sid' = max (version v : Int) (get_old_verion P sid) ∧
        (∀ key, sid' key ≠ sid key → ∃ i < P.words, key = P.key i) ∧
        AntiRollback sid' (version v :: olds) vs
    | .undefined => False

/-- An image that is newer than what was has a mark, and the top fuse of its word is not
burnt. -/
def MarkOk (sid : Sid) (version_main : UInt32) : Prop :=
  let v := version version_main
  v ≤ P.EFUSE_NV_BIT → get_old_verion P sid < v →
    v % 32 ≠ 0 ∧ (sid (P.key (v / 32))).toNat < 2 ^ 31

instance (v : UInt32) : Decidable (MarkOk P sid v) :=
  inferInstanceAs (Decidable (_ → _ → _))

/-! ## Reading the mark -/

variable {P sid}

theorem size_div_two {n : Nat} (h : n ≠ 0) : (n / 2).size + 1 = n.size := by
  have hbit := Nat.size_bit (b := n.bodd) (n := n.div2) (by rwa [Nat.bit_bodd_div2])
  rw [Nat.bit_bodd_div2, Nat.div2_val] at hbit
  exact hbit.symm

theorem countShifts_eq {n nv : Nat} (h : nv < 2 ^ n) : countShifts n nv = nv.size := by
  induction n generalizing nv with
  | zero =>
    obtain rfl : nv = 0 := by omega
    rfl
  | succ n ih =>
    rw [countShifts]
    split
    · rename_i hz
      rw [hz]
      rfl
    · rename_i hz
      rw [ih (by omega)]
      exact size_div_two hz

/-- The word `i` as an `int`. -/
theorem readMark_succ_of_pos {i : Nat} {nv : Int} (hpos : 0 < (sid (P.key i)).toNat)
    (hlt : (sid (P.key i)).toNat < 2 ^ 31) :
    readMark P sid (i + 1) nv = (sid (P.key i)).toNat.size + i * 32 := by
  have hint := toInt_of_lt hlt
  have hpos' : 0 < (sid_read_key sid (P.key i)).toInt32.toInt := by
    rw [sid_read_key, hint]
    omega
  rw [readMark, if_pos hpos', sid_read_key, hint, Int.toNat_natCast, countShifts_eq (by omega)]

/-- A word that is no positive `int` is passed over. -/
def Skipped (P : Efuse) (sid : Sid) (i : Nat) : Prop := (sid (P.key i)).toInt32.toInt ≤ 0

theorem skipped_iff {i : Nat} :
    Skipped P sid i ↔ (sid (P.key i)).toNat = 0 ∨ 2 ^ 31 ≤ (sid (P.key i)).toNat := by
  unfold Skipped
  by_cases hlt : (sid (P.key i)).toNat < 2 ^ 31
  · rw [toInt_of_lt hlt]
    omega
  · have hneg := toInt_of_le (not_lt.1 hlt)
    omega

theorem readMark_succ_of_skipped {i : Nat} {nv : Int} (h : Skipped P sid i) :
    readMark P sid (i + 1) nv = readMark P sid i (sid (P.key i)).toInt32.toInt := by
  rw [readMark]
  exact if_neg (Int.not_lt.2 h)

theorem lt_of_pos {i : Nat} (h : ¬ Skipped P sid i) :
    0 < (sid (P.key i)).toNat ∧ (sid (P.key i)).toNat < 2 ^ 31 := by
  rw [skipped_iff] at h
  omega

/-- Words that are passed over may as well not be there. -/
theorem readMark_of_skipped {i n : Nat} {nv : Int} (nv' : Int) (hin : i < n)
    (h : ∀ j, i < j → j < n → Skipped P sid j) :
    readMark P sid n nv = readMark P sid (i + 1) nv' := by
  induction n generalizing nv with
  | zero => omega
  | succ n ih =>
    by_cases hi : i = n
    · subst hi
      rfl
    · rw [readMark_succ_of_skipped (h n (by omega) (by omega))]
      exact ih (by omega) fun j hj hjn => h j hj (by omega)

/-- A mark lies in its word. -/
theorem readMark_le {n : Nat} {nv : Int} (h : nv ≤ 0) : readMark P sid n nv ≤ n * 32 := by
  induction n generalizing nv with
  | zero =>
    rw [readMark]
    omega
  | succ n ih =>
    by_cases hskip : Skipped P sid n
    · rw [readMark_succ_of_skipped hskip]
      have := ih hskip
      omega
    · obtain ⟨hpos, hlt⟩ := lt_of_pos hskip
      have hsize := Nat.size_le.2 hlt
      rw [readMark_succ_of_pos hpos hlt]
      omega

/-- Behind a word with a mark there is none that is older. -/
theorem lt_readMark {i n : Nat} {nv : Int} (hin : i < n) (h : ¬ Skipped P sid i) :
    (i * 32 : Int) < readMark P sid n nv := by
  induction n generalizing nv with
  | zero => omega
  | succ n ih =>
    by_cases hskip : Skipped P sid n
    · have hne : i ≠ n := by
        rintro rfl
        exact h hskip
      rw [readMark_succ_of_skipped hskip]
      exact ih (by omega)
    · obtain ⟨hpos, hlt⟩ := lt_of_pos hskip
      have hsize := Nat.size_pos.2 hpos
      rw [readMark_succ_of_pos hpos hlt]
      omega

/-! ## Burning a mark -/

theorem key_injective {i j : Nat} (h : P.key i = P.key j) : i = j := by
  unfold Efuse.key at h
  omega

section

variable {k b : Nat}

/-- What stands in the word `k` after the fuse `b` of it is burnt. -/
def burnt (w : UInt32) (b : Nat) : UInt32 := w ||| .ofNat (2 ^ b)

theorem toNat_burnt (w : UInt32) (hb : b < 32) : (burnt w b).toNat = w.toNat ||| 2 ^ b := by
  have hlt : 2 ^ b < 2 ^ 32 := Nat.pow_lt_pow_right (by omega) hb
  rw [burnt, UInt32.toNat_or, UInt32.toNat_ofNat_of_lt' hlt]

theorem program_self : sid_program_key sid (P.key k) (.ofNat (2 ^ b)) (P.key k) =
    burnt (sid (P.key k)) b := update_self ..

theorem program_of_ne {j : Nat} (h : j ≠ k) (v : UInt32) :
    sid_program_key sid (P.key k) v (P.key j) = sid (P.key j) :=
  update_of_ne (fun hk => h (key_injective hk)) _ _

theorem skipped_program {j : Nat} (h : j ≠ k) (v : UInt32) :
    Skipped P (sid_program_key sid (P.key k) v) j ↔ Skipped P sid j := by
  unfold Skipped
  rw [program_of_ne h]

/-- An older mark leaves the words above that of a newer one without one. -/
theorem skipped_above {v : Nat} (h : get_old_verion P sid ≤ v) {j : Nat} (hj : v / 32 < j)
    (hjn : j < P.words) : Skipped P sid j := by
  by_contra hskip
  have hlt : (j * 32 : Int) < readMark P sid P.words 0 := lt_readMark hjn hskip
  unfold get_old_verion at h
  omega

/-- A mark that is burnt in a word whose top fuse is not burnt is read back. -/
theorem old_program (hk : k < P.words) (hb : b < 31)
    (h : get_old_verion P sid < (32 * k + (b + 1) : Nat))
    (htop : (sid (P.key k)).toNat < 2 ^ 31) :
    get_old_verion P (sid_program_key sid (P.key k) (.ofNat (2 ^ b))) = (32 * k + (b + 1) : Nat) := by
  have habove : ∀ j, k < j → j < P.words → Skipped P sid j := fun j hj hjn =>
    skipped_above (v := 32 * k + (b + 1)) (by omega) (by omega) hjn
  have hsmall : (sid (P.key k)).toNat < 2 ^ b := by
    by_cases hz : (sid (P.key k)).toNat = 0
    · rw [hz]
      exact Nat.two_pow_pos b
    · have hold : get_old_verion P sid = (sid (P.key k)).toNat.size + k * 32 := by
        rw [get_old_verion, readMark_of_skipped 0 hk habove,
          readMark_succ_of_pos (by omega) htop]
      exact Nat.size_le.1 (by omega)
  have hor : (burnt (sid (P.key k)) b).toNat = 2 ^ b + (sid (P.key k)).toNat := by
    rw [toNat_burnt _ (by omega), Nat.or_two_pow_eq_add_of_lt hsmall, Nat.add_comm]
  have hsize : (burnt (sid (P.key k)) b).toNat.size = b + 1 := by
    rw [hor]
    refine le_antisymm (Nat.size_le.2 ?_) (Nat.lt_size.2 (Nat.le_add_right _ _))
    rw [Nat.pow_succ]
    omega
  have hlt : (burnt (sid (P.key k)) b).toNat < 2 ^ 31 := by
    rw [← Nat.size_le, hsize]
    omega
  rw [get_old_verion, readMark_of_skipped 0 hk fun j hj hjn =>
    (skipped_program (by omega) _).2 (habove j hj hjn)]
  rw [readMark_succ_of_pos (by rw [program_self, ← Nat.size_pos, hsize]; omega)
    (by rwa [program_self]), program_self, hsize]
  omega

/-- A mark in a word whose top fuse is burnt is not found. -/
theorem old_program_of_top (hk : k < P.words) (hb : b < 31)
    (h : get_old_verion P sid < (32 * k + (b + 1) : Nat))
    (htop : 2 ^ 31 ≤ (sid (P.key k)).toNat) :
    get_old_verion P (sid_program_key sid (P.key k) (.ofNat (2 ^ b))) < (32 * k + (b + 1) : Nat) := by
  have habove : ∀ j, k < j → j < P.words → Skipped P sid j := fun j hj hjn =>
    skipped_above (v := 32 * k + (b + 1)) (by omega) (by omega) hjn
  have hskip : Skipped P (sid_program_key sid (P.key k) (.ofNat (2 ^ b))) k := by
    rw [skipped_iff, program_self, toNat_burnt _ (by omega)]
    exact .inr (le_trans htop Nat.left_le_or)
  rw [get_old_verion, readMark_of_skipped 0 hk fun j hj hjn =>
    (skipped_program (by omega) _).2 (habove j hj hjn), readMark_succ_of_skipped hskip]
  have hle : readMark P (sid_program_key sid (P.key k) (.ofNat (2 ^ b))) k _ ≤ k * 32 :=
    readMark_le hskip
  omega

end

/-! ## A boot -/

variable {v : UInt32} {olds : List Nat} {vs : List UInt32}

/-- What becomes of an image. -/
theorem verify_cases (P : Efuse) (sid : Sid) (v : UInt32) :
    (¬ (version v ≤ P.EFUSE_NV_BIT ∧ get_old_verion P sid ≤ version v) ∧
        sboot_verify_version P sid v = .refused) ∨
      (version v ≤ P.EFUSE_NV_BIT ∧ get_old_verion P sid = version v ∧
        sboot_verify_version P sid v = .accepted sid) ∨
      (version v ≤ P.EFUSE_NV_BIT ∧ get_old_verion P sid < version v ∧
        (version v % 32 = 0 ∧ sboot_verify_version P sid v = .undefined ∨
          ∃ k b, version v = 32 * k + (b + 1) ∧ b < 31 ∧ sboot_verify_version P sid v =
            .accepted (sid_program_key sid (P.key k) (.ofNat (2 ^ b))))) := by
  unfold sboot_verify_version set_new_version
  dsimp only
  by_cases hbig : P.EFUSE_NV_BIT < version v
  · exact .inl ⟨by omega, if_pos hbig⟩
  by_cases hold : (version v : Int) < get_old_verion P sid
  · exact .inl ⟨by omega, by rw [if_neg hbig, if_pos hold]⟩
  rw [if_neg hbig, if_neg hold]
  refine .inr ?_
  by_cases hnew : get_old_verion P sid < version v
  · refine .inr ⟨by omega, hnew, ?_⟩
    rw [if_pos hnew]
    by_cases hz : version v % 32 = 0
    · exact .inl ⟨hz, by rw [if_pos hz]⟩
    · exact .inr ⟨version v / 32, version v % 32 - 1, by omega, by omega, by rw [if_neg hz]⟩
  · exact .inl ⟨by omega, by omega, by rw [if_neg hnew]⟩

theorem program_field {k : Nat} (hk : k < P.words) (w : UInt32) (key : Nat)
    (h : sid_program_key sid (P.key k) w key ≠ sid key) : ∃ i < P.words, key = P.key i := by
  refine ⟨k, hk, ?_⟩
  by_contra hne
  exact h (update_of_ne hne _ _)

/-- A mark is in the field. -/
theorem word_lt {k b : Nat} (h : version v = 32 * k + (b + 1)) (hb : b < 31)
    (hbit : version v ≤ P.EFUSE_NV_BIT) : k < P.words := by
  unfold Efuse.EFUSE_NV_BIT at hbit
  omega

theorem markOk_iff {k b : Nat} (h : version v = 32 * k + (b + 1)) (hb : b < 31)
    (hbit : version v ≤ P.EFUSE_NV_BIT) (hold : get_old_verion P sid < version v) :
    MarkOk P sid v ↔ (sid (P.key k)).toNat < 2 ^ 31 := by
  have hk : version v / 32 = k := by omega
  unfold MarkOk
  dsimp only
  rw [hk]
  exact ⟨fun hok => (hok hbit hold).2, fun htop _ _ => ⟨by omega, htop⟩⟩

/-- One boot after the others: `olds` are the versions that were accepted. -/
theorem antiRollback_iff_of_olds (holds : ∀ old ∈ olds, (old : Int) ≤ get_old_verion P sid) :
    AntiRollback P sid olds vs ↔ (boots P).Meets (MarkOk P) sid vs := by
  induction vs generalizing sid olds with
  | nil => exact Iff.rfl
  | cons v vs ih =>
    have hnext : (boots P).next sid v = match sboot_verify_version P sid v with
        | .refused => some sid
        | .accepted sid' => some sid'
        | .undefined => none := rfl
    rw [AntiRollback, Machine.meets_cons, hnext]
    rcases verify_cases P sid v with ⟨hno, hv⟩ | ⟨hbit, hold, hv⟩ | ⟨hbit, hold, hcase⟩
    · rw [hv]
      have hok : MarkOk P sid v := fun hbit hlt => absurd ⟨hbit, Int.le_of_lt hlt⟩ hno
      simp only [Option.some.injEq, forall_eq']
      rw [ih holds]
      exact ⟨fun h => ⟨hok, h⟩, fun h => h.2⟩
    · rw [hv]
      have hok : MarkOk P sid v := fun _ hlt => by omega
      simp only [Option.some.injEq, forall_eq']
      have holds' : ∀ old ∈ version v :: olds, (old : Int) ≤ get_old_verion P sid := by
        rw [List.forall_mem_cons, hold]
        exact ⟨Int.le_refl _, fun old hmem => hold ▸ holds old hmem⟩
      rw [ih holds']
      refine ⟨fun h => ⟨hok, h.2.2.2⟩, fun h => ⟨fun old hmem => ?_, ?_, ?_, h.2⟩⟩
      · have := holds old hmem
        omega
      · rw [hold]
        omega
      · exact fun key hkey => absurd rfl hkey
    · rcases hcase with ⟨hz, hv⟩ | ⟨k, b, hkb, hb, hv⟩
      · rw [hv]
        exact ⟨False.elim, fun h => (h.1 hbit hold).1 hz⟩
      · rw [hv]
        have hk := word_lt hkb hb hbit
        have hold' : get_old_verion P sid < (32 * k + (b + 1) : Nat) := by omega
        simp only [Option.some.injEq, forall_eq']
        rw [markOk_iff hkb hb hbit hold]
        have hread : get_old_verion P (sid_program_key sid (P.key k) (.ofNat (2 ^ b))) =
            max (version v : Int) (get_old_verion P sid) ↔ (sid (P.key k)).toNat < 2 ^ 31 := by
          have hmax : max (version v : Int) (get_old_verion P sid) = version v := by omega
          rw [hmax, hkb]
          refine ⟨fun hread => ?_, old_program hk hb hold'⟩
          by_contra htop
          have := old_program_of_top hk hb hold' (by omega)
          omega
        have holds' : (sid (P.key k)).toNat < 2 ^ 31 → ∀ old ∈ version v :: olds, (old : Int) ≤
            get_old_verion P (sid_program_key sid (P.key k) (.ofNat (2 ^ b))) := by
          intro htop
          rw [old_program hk hb hold' htop, List.forall_mem_cons, hkb]
          refine ⟨Int.le_refl _, fun old hmem => ?_⟩
          have := holds old hmem
          omega
        constructor
        · rintro ⟨-, hmax, -, h⟩
          have htop := hread.1 hmax
          exact ⟨htop, (ih (holds' htop)).1 h⟩
        · rintro ⟨htop, h⟩
          refine ⟨fun old hmem => ?_, hread.2 htop, program_field hk _, (ih (holds' htop)).2 h⟩
          have := holds old hmem
          omega

/-- No boot takes an image that is older than one before it, and the marks are read back, just
if every new mark has a fuse and the top fuse of its word is not burnt. -/
theorem antiRollback_iff (P : Efuse) (sid : Sid) (vs : List UInt32) :
    AntiRollback P sid [] vs ↔ (boots P).Meets (MarkOk P) sid vs :=
  antiRollback_iff_of_olds fun _ h => absurd h (List.not_mem_nil)

/-- Two words. -/
def twoWords : Efuse := ⟨0x30, 2, by decide⟩

/-- With the top fuse of the first word burnt, the mark of version 1 is not found, and version 0
is accepted behind it. -/
theorem rollback_top_fuse : ¬ ∀ (P : Efuse) (sid : Sid) (vs : List UInt32), AntiRollback P sid [] vs := by
  intro h
  have hrun := (antiRollback_iff_of_olds fun _ hmem => absurd hmem (List.not_mem_nil)).1
    (h twoWords (fun _ => 0x80000000) [1])
  exact absurd hrun.1 (by decide)

end Melis.Sboot
