import Melis.Lib.Flash
import Melis.Spinor.Driver

/-!
# Programming bytes of a chip

`programData` is `spinor_program_data` on any chip, with the calls around its
commands as outcomes. A page program that runs past the end of its page goes on
at the start of it (`Cmd.apply`), and the loop cuts the buffer into pieces of a
page wherever the address is. So a byte whose offset in its page is below that of
the start address gets the byte of the buffer that is a page further on
(`landed`).
-/

namespace Melis.Spinor

open Lib

/-- How the calls around the commands end, with 0 for success, and which commands succeed. -/
structure ProgramFate where
  norLock : Int
  /-- `nor->info` is there. -/
  info : Bool
  norWaitReadyMs : Int
  norUnprotectDo : Int
  succeeds : Cmd → Bool
  norUnlock : Int

structure ProgramFate.Good (fate : ProgramFate) : Prop where
  lock : fate.norLock = 0
  info : fate.info = true
  wait : fate.norWaitReadyMs = 0
  unprotect : fate.norUnprotectDo = 0
  succeeds : ∀ c, fate.succeeds c = true
  unlock : fate.norUnlock = 0

/-- `spinor_program_data`: the commands issued and the result. An address in range fits in the
address bytes of a command. -/
def programData (fate : ProgramFate) (addr : Nat) (buf : List UInt8) : List Cmd × Int :=
  if fate.norLock ≠ 0 then ([], fate.norLock)
  else
    let r :=
      -- -EBUSY
      if fate.info = false ∨ fate.norWaitReadyMs ≠ 0 then ([], -16)
      else if fate.norUnprotectDo ≠ 0 then ([], fate.norUnprotectDo)
      else programLoop fate.succeeds buf.length addr buf
    (r.1, if fate.norUnlock ≠ 0 then -16 else r.2)

/-! ## What a command does to the bytes -/

/-- The byte that a page program of `data` at `addr` has for the byte `x` of the chip, 0xFF for
none: the address counts within the page. -/
def pageByte (addr : Nat) (data : List UInt8) (x : Nat) : UInt8 :=
  if x / norPageSize = addr / norPageSize then
    data.getD ((x + norPageSize - addr % norPageSize) % norPageSize) 0xFF
  else 0xFF

/-- What a command leaves of the bytes. -/
def Cmd.apply (mem : Flash) : Cmd → Flash
  | .program addr data => fun x => mem x &&& pageByte addr data x
  | .erase unit addr => mem.erase (alignDown addr unit) unit
  | .eraseAll => fun _ => 0xFF

section

variable {mem : Flash} {addr x i : Nat} {data buf : List UInt8} {succeeds : Cmd → Bool}
  {fuel : Nat}

@[simp] theorem and_erased (b : UInt8) : b &&& 0xFF = b := UInt8.and_neg_one

/-! ## What the loop does -/

/-- The byte of the buffer that gets to the byte `x` of the chip. -/
def landed (addr : Nat) (buf : List UInt8) (x : Nat) : UInt8 :=
  if x < alignDown addr norPageSize then 0xFF
  else if x % norPageSize < addr % norPageSize then buf.getD (x + norPageSize - addr) 0xFF
  else buf.getD (x - addr) 0xFF

theorem getD_take {l : List UInt8} {n : Nat} (h : i < n) : (l.take n).getD i 0xFF = l.getD i 0xFF := by
  simp [List.getD, List.getElem?_take_of_lt h]

theorem getD_drop {l : List UInt8} {n : Nat} : (l.drop n).getD i 0xFF = l.getD (n + i) 0xFF := by
  simp [List.getD, List.getElem?_drop]

theorem index_behind (h : addr / 256 * 256 + 256 ≤ x) :
    256 + (x + 256 - (addr + 256)) = x + 256 - addr := by omega

theorem index_in_page (h : addr / 256 * 256 + 256 ≤ x) (hoff : ¬ x % 256 < addr % 256) :
    256 + (x - (addr + 256)) = x - addr := by omega

/-- One piece, and what the loop does behind it. -/
theorem pageByte_and_landed : pageByte addr (buf.take norPageSize) x &&&
    landed (addr + norPageSize) (buf.drop norPageSize) x = landed addr buf x := by
  unfold pageByte landed alignDown norPageSize
  have hnext : (addr + 256) / 256 * 256 = addr / 256 * 256 + 256 := by omega
  rw [hnext, Nat.add_mod_right]
  by_cases hx : x / 256 = addr / 256
  · rw [if_pos hx, getD_take (Nat.mod_lt _ (by decide)), if_pos (by omega), and_erased,
      if_neg (by omega)]
    by_cases hoff : x % 256 < addr % 256
    · rw [if_pos hoff]
      congr 1
      omega
    · rw [if_neg hoff]
      congr 1
      omega
  · rw [if_neg hx, erased_and]
    by_cases hlt : x < addr / 256 * 256
    · rw [if_pos (Nat.lt_add_right 256 hlt), if_pos hlt]
    · have hle : addr / 256 * 256 + 256 ≤ x := by
        have hdiv : addr / 256 ≤ x / 256 := (Nat.le_div_iff_mul_le (by decide)).2 (Nat.not_lt.1 hlt)
        have hdiv' : addr / 256 + 1 ≤ x / 256 := Nat.lt_of_le_of_ne hdiv (Ne.symm hx)
        rw [← Nat.succ_mul]
        exact (Nat.le_div_iff_mul_le (by decide)).1 hdiv'
      rw [if_neg (Nat.not_lt.2 hle), if_neg hlt]
      by_cases hoff : x % 256 < addr % 256
      · rw [if_pos hoff, if_pos hoff, getD_drop, index_behind hle]
      · rw [if_neg hoff, if_neg hoff, getD_drop, index_in_page hle hoff]

theorem landed_nil : landed addr [] x = 0xFF := by
  unfold landed
  split
  · rfl
  · split <;> rfl

theorem programLoop_nil : programLoop succeeds fuel addr [] = ([], 0) := by
  cases fuel with
  | zero => rfl
  | succ fuel => rw [programLoop, if_pos rfl]

/-- The commands of the loop together. -/
theorem programLoop_apply (hs : ∀ c, succeeds c = true) (hb : addr + buf.length < 2 ^ 32)
    (hf : buf.length ≤ fuel) : (programLoop succeeds fuel addr buf).2 = 0 ∧
      (programLoop succeeds fuel addr buf).1.foldl Cmd.apply mem =
        fun x => mem x &&& landed addr buf x := by
  induction fuel generalizing mem addr buf with
  | zero =>
    obtain rfl := List.eq_nil_of_length_eq_zero (Nat.le_zero.1 hf)
    refine ⟨rfl, funext fun x => ?_⟩
    rw [landed_nil, and_erased]
    rfl
  | succ fuel ih =>
    rw [programLoop]
    by_cases hnil : buf = []
    · subst hnil
      rw [if_pos rfl]
      refine ⟨rfl, funext fun x => ?_⟩
      rw [landed_nil, and_erased]
      rfl
    · rw [if_neg hnil]
      dsimp only
      rw [if_pos (hs _), List.foldl_cons]
      by_cases hlong : norPageSize ≤ buf.length
      · rw [Nat.min_eq_right hlong]
        have hlen : (buf.drop norPageSize).length = buf.length - norPageSize := List.length_drop
        have hle : addr + norPageSize + (buf.length - norPageSize) = addr + buf.length := by omega
        have hnext : (addr + norPageSize) % 2 ^ 32 = addr + norPageSize :=
          Nat.mod_eq_of_lt (by omega)
        have hpos : 0 < norPageSize := by decide
        rw [hnext]
        have hb' : addr + norPageSize + (buf.drop norPageSize).length < 2 ^ 32 := by
          rw [hlen, hle]
          exact hb
        obtain ⟨hret, hfold⟩ := @ih (Cmd.apply mem (.program addr (buf.take norPageSize)))
          (addr + norPageSize) (buf.drop norPageSize) hb' (by omega)
        refine ⟨hret, hfold.trans (funext fun x => ?_)⟩
        dsimp only [Cmd.apply]
        rw [UInt8.and_assoc, pageByte_and_landed]
      · -- the last piece
        have hshort : buf.length ≤ norPageSize := Nat.le_of_not_le hlong
        rw [Nat.min_eq_left hshort, List.take_length, List.drop_length, programLoop_nil]
        refine ⟨rfl, funext fun x => ?_⟩
        have hpiece : pageByte addr (buf.take norPageSize) x &&&
            landed (addr + norPageSize) (buf.drop norPageSize) x = landed addr buf x :=
          pageByte_and_landed
        rw [List.take_of_length_le hshort, List.drop_of_length_le hshort, landed_nil,
          and_erased] at hpiece
        dsimp only [List.foldl_nil, Cmd.apply]
        rw [hpiece]

end

/-! ## When the bytes get where they should -/

section

variable {fate : ProgramFate} {mem : Flash} {addr x : Nat} {buf : List UInt8}

theorem programData_apply (hgood : fate.Good) (hb : addr + buf.length < 2 ^ 32) :
    (programData fate addr buf).2 = 0 ∧
      (programData fate addr buf).1.foldl Cmd.apply mem = fun x => mem x &&& landed addr buf x := by
  obtain ⟨hlock, hinfo, hwait, hunprotect, hs, hunlock⟩ := hgood
  have hno : ¬ (fate.info = false ∨ fate.norWaitReadyMs ≠ 0) := by simp [hinfo, hwait]
  unfold programData
  rw [if_neg (not_not.2 hlock), if_neg hno, if_neg (not_not.2 hunprotect)]
  dsimp only
  rw [if_neg (not_not.2 hunlock)]
  exact programLoop_apply hs hb (Nat.le_refl _)

/-- The bytes that go round the end of their page change nothing: where they are missing, and where
they get to, the byte of the chip has the same AND with the byte of the buffer that is meant for
it, if any, and with the one that is a page further on, if any. -/
def Harmless (mem : Flash) (addr : Nat) (buf : List UInt8) : Prop :=
  ∀ x, alignDown addr norPageSize ≤ x → x < addr + buf.length →
    x % norPageSize < addr % norPageSize →
      mem x &&& (if addr ≤ x then buf.getD (x - addr) 0xFF else 0xFF) =
        mem x &&& buf.getD (x + norPageSize - addr) 0xFF

/-- No byte goes round the end of a page from an aligned address, or within one page. -/
theorem harmless_of_page (h : addr % norPageSize = 0 ∨
    addr % norPageSize + buf.length ≤ norPageSize) : Harmless mem addr buf := by
  intro x hpage hx hoff
  unfold norPageSize alignDown at *
  rcases h with h | h
  · omega
  · have hout : buf.length ≤ x + 256 - addr := by omega
    rw [if_neg (by omega), List.getD_eq_getElem?_getD, List.getElem?_eq_none hout, Option.getD_none]

theorem program_eq_iff : (fun x => mem x &&& landed addr buf x) = mem.program addr buf ↔
    Harmless mem addr buf := by
  have hmeant : ∀ x, mem.program addr buf x =
      mem x &&& if addr ≤ x then buf.getD (x - addr) 0xFF else 0xFF := by
    intro x
    by_cases hin : addr ≤ x ∧ x < addr + buf.length
    · rw [Flash.program_in hin.1 hin.2, if_pos hin.1, List.getD_eq_getElem?_getD,
        List.getD_eq_getElem?_getD, List.getElem?_eq_getElem (by omega), Option.getD_some,
        Option.getD_some]
    · rw [Flash.program_out (by omega)]
      split
      · rw [List.getD_eq_getElem?_getD, List.getElem?_eq_none (by omega), Option.getD_none, and_erased]
      · rw [and_erased]
  constructor
  · intro h x hpage hx hoff
    have hx' : mem x &&& landed addr buf x = _ := (congrFun h x).trans (hmeant x)
    rw [landed, if_neg (Nat.not_lt.2 hpage), if_pos hoff] at hx'
    exact hx'.symm
  · intro h
    funext x
    rw [hmeant, landed]
    by_cases hpage : x < alignDown addr norPageSize
    · rw [if_pos hpage, if_neg (by have := alignDown_le addr norPageSize; omega)]
    · rw [if_neg hpage]
      by_cases hoff : x % norPageSize < addr % norPageSize
      · rw [if_pos hoff]
        by_cases hx : x < addr + buf.length
        · exact (h x (Nat.not_lt.1 hpage) hx hoff).symm
        · rw [if_pos (by omega), List.getD_eq_getElem?_getD, List.getElem?_eq_none (by omega),
            List.getD_eq_getElem?_getD, List.getElem?_eq_none (by omega)]
      · rw [if_neg hoff, if_pos]
        unfold norPageSize alignDown at *
        omega

end

/-- The chip has what the call is for if and only if the bytes that go round the end of their page
change nothing. -/
theorem programData_iff (fate : ProgramFate) (hgood : fate.Good) (mem : Flash) (addr : Nat)
    (buf : List UInt8) (hb : addr + buf.length < 2 ^ 32) :
    (programData fate addr buf).1.foldl Cmd.apply mem = mem.program addr buf ↔
      Harmless mem addr buf := by
  rw [(programData_apply hgood hb).2]
  exact program_eq_iff

/-- All calls succeed. -/
def ProgramFate.good : ProgramFate := ⟨0, true, 0, 0, fun _ => true, 0⟩

theorem ProgramFate.good_good : ProgramFate.good.Good := ⟨rfl, rfl, rfl, rfl, fun _ => rfl, rfl⟩

theorem programData_iff_page : Flash.program (fun _ => 0xFF) 0x1010 [1, 2] =
    (programData .good 0x1010 [1, 2]).1.foldl Cmd.apply fun _ => 0xFF :=
  ((programData_iff .good ProgramFate.good_good (fun _ => 0xFF) 0x1010 [1, 2] (by decide)).2
    (harmless_of_page (.inr (by decide)))).symm

/-- Two bytes at the last address of a page: the second one gets to the first address of it. -/
theorem programData_wraps :
    ((programData .good 0x10ff [1, 2]).1.foldl Cmd.apply (fun _ => 0xFF)) 0x1000 = 2 ∧
      (programData .good 0x10ff [1, 2]).1.foldl Cmd.apply (fun _ => 0xFF) ≠
        Flash.program (fun _ => 0xFF) 0x10ff [1, 2] := by
  have hwrap : ((programData .good 0x10ff [1, 2]).1.foldl Cmd.apply (fun _ => 0xFF)) 0x1000 = 2 := by
    decide
  refine ⟨hwrap, fun h => ?_⟩
  rw [h] at hwrap
  revert hwrap
  decide

end Melis.Spinor
