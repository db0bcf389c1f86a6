import Melis.Lib.Ring
import Melis.Snd.Pcm

/-!
# The pointers of a stream

`hw_ptr` and `appl_ptr` are positions modulo the boundary, and the number of
frames between them says what the code's differences come to. An update of the
position moves `hw_ptr` on by less than the ring (`update_eq`).
-/

namespace Melis.Snd

open Lib

variable {α : Type} {c : Config α} {s : Substream α} {pos n : Nat}

/-! ## The boundary -/

theorem doubleBoundary_induction {p : Nat → Prop} {buffer_size : Nat}
    (hp : ∀ b, 0 < b → b * 2 ≤ LONG_MAX - buffer_size → p b → p (b * 2)) {b : Nat} (h : p b) :
    p (doubleBoundary buffer_size b) := by
  fun_induction doubleBoundary buffer_size b with
  | case1 b hb ih => exact ih (hp b hb.1 hb.2 h)
  | case2 b hb => exact h

namespace HwParams

variable (hw : HwParams)

theorem dvd_boundary : hw.buffer_size ∣ hw.boundary :=
  doubleBoundary_induction (p := (hw.buffer_size ∣ ·)) (fun _ _ _ hb => Dvd.dvd.mul_right hb 2)
    dvd_rfl

theorem two_mul_le_boundary : 2 * hw.buffer_size ≤ hw.boundary := by
  have hsize := hw.size_le
  have hpos := hw.size_pos
  unfold boundary
  rw [doubleBoundary, if_pos ⟨hpos, by omega⟩]
  exact doubleBoundary_induction (p := fun b => 2 * hw.buffer_size ≤ b) (fun b _ _ hb => by omega)
    (by omega)

end HwParams

/-- Where the ring is concerned, a position counts modulo the boundary. -/
theorem read_mod_boundary (c : Config α) (buf : Nat → α) (p n : Nat) :
    Ring.read buf c.buffer_size (p % c.boundary) n = Ring.read buf c.buffer_size p n := by
  rw [← Ring.read_mod, Nat.mod_mod_of_dvd _ c.hw.dvd_boundary, Ring.read_mod]

/-! ## Queued frames -/

/-- From `a` on to `b`, modulo the boundary. -/
def ahead (boundary a b : Nat) : Nat := (b + boundary - a) % boundary

/-- The frames that are queued: of playback those to be played, of capture those to be read. -/
def queued (c : Config α) (s : Substream α) : Nat :=
  match c.stream with
  | .PLAYBACK => ahead c.boundary s.hw_ptr s.appl_ptr
  | .CAPTURE => ahead c.boundary s.appl_ptr s.hw_ptr

theorem ahead_eq {B a b : Nat} (ha : a < B) (hb : b < B) :
    ahead B a b = if a ≤ b then b - a else b + B - a := by
  unfold ahead
  split
  · rw [show b + B - a = b - a + B by omega, Nat.add_mod_right, Nat.mod_eq_of_lt (by omega)]
  · exact Nat.mod_eq_of_lt (by omega)

theorem add_ahead {B a b : Nat} (ha : a < B) (hb : b < B) : (a + ahead B a b) % B = b := by
  rw [ahead_eq ha hb]
  split
  · rw [Nat.add_sub_cancel' ‹a ≤ b›, Nat.mod_eq_of_lt hb]
  · rw [show a + (b + B - a) = b + B by omega, Nat.add_mod_right, Nat.mod_eq_of_lt hb]

theorem mod_boundary {B a n : Nat} (ha : a < B) (hn : n ≤ B) :
    (a + n) % B = if B ≤ a + n then a + n - B else a + n := by
  split
  · rw [Nat.mod_eq_sub_mod ‹B ≤ a + n›, Nat.mod_eq_of_lt (by omega)]
  · exact Nat.mod_eq_of_lt (by omega)

/-- The pointer behind moves on by what is ahead of it, or past it. -/
theorem ahead_add_left {B a b n : Nat} (ha : a < B) (hb : b < B) (hn : n < B) :
    ahead B ((a + n) % B) b = if n ≤ ahead B a b then ahead B a b - n else B - (n - ahead B a b) := by
  have hlt : (a + n) % B < B := Nat.mod_lt _ (by omega)
  rw [ahead_eq hlt hb, ahead_eq ha hb, mod_boundary ha hn.le]
  split_ifs <;> omega

/-- The pointer ahead moves on. -/
theorem ahead_add_right {B a b n : Nat} (ha : a < B) (hb : b < B) (hn : ahead B a b + n < B) :
    ahead B a ((b + n) % B) = ahead B a b + n := by
  have hlt : (b + n) % B < B := Nat.mod_lt _ (by omega)
  have hnB : n ≤ B := (Nat.le_add_left n _).trans hn.le
  rw [ahead_eq ha hb] at hn ⊢
  rw [ahead_eq ha hlt, mod_boundary hb hnB]
  split_ifs at hn ⊢ <;> omega

/-- The pointer ahead is taken back. -/
theorem ahead_back_right {B a b n : Nat} (ha : a < B) (hb : b < B) (hn : n ≤ ahead B a b) :
    ahead B a ((b + (B - n)) % B) = ahead B a b - n := by
  have hlt : (b + (B - n)) % B < B := Nat.mod_lt _ (by omega)
  rw [ahead_eq ha hb] at hn ⊢
  rw [ahead_eq ha hlt, mod_boundary hb (Nat.sub_le _ _)]
  split_ifs at hn ⊢ <;> omega

/-- The pointer behind is taken back. -/
theorem ahead_back_left {B a b n : Nat} (ha : a < B) (hb : b < B) (hn : ahead B a b + n < B) :
    ahead B ((a + (B - n)) % B) b = ahead B a b + n := by
  have hlt : (a + (B - n)) % B < B := Nat.mod_lt _ (by omega)
  rw [ahead_eq ha hb] at hn ⊢
  rw [ahead_eq hlt hb, mod_boundary ha (Nat.sub_le _ _)]
  split_ifs at hn ⊢ <;> omega

/-- The pointers are in the range. -/
structure InRange (c : Config α) (s : Substream α) : Prop where
  hw_lt : s.hw_ptr < c.boundary
  appl_lt : s.appl_ptr < c.boundary

theorem capture_avail_eq (hs : c.stream = .CAPTURE) (h : InRange c s) :
    snd_pcm_capture_avail c s = queued c s := by
  have ha := h.appl_lt
  have hh := h.hw_lt
  unfold queued snd_pcm_capture_avail
  rw [hs]
  dsimp only
  rw [ahead_eq ha hh]
  split <;> split <;> omega

theorem playback_avail_eq (hs : c.stream = .PLAYBACK) (h : InRange c s) :
    snd_pcm_playback_avail c s = if queued c s ≤ c.buffer_size then c.buffer_size - queued c s
      else c.buffer_size + (c.boundary - queued c s) := by
  have ha := h.appl_lt
  have hh := h.hw_lt
  have htwo := c.hw.two_mul_le_boundary
  have hpos := c.hw.size_pos
  unfold queued snd_pcm_playback_avail
  rw [hs]
  dsimp only
  rw [ahead_eq hh ha]
  dsimp only [Config.buffer_size, Config.boundary] at *
  split_ifs <;> omega

/-! ## Updates of the position -/

/-- The position that an update takes. -/
def seenPos (c : Config α) (pos : Nat) : Nat :=
  let pos := if c.buffer_size ≤ pos then 0 else pos
  pos - pos % c.hw.min_align

/-- How far an update moves `hw_ptr` on. -/
def advance (c : Config α) (s : Substream α) (pos : Nat) : Nat :=
  (seenPos c pos + c.buffer_size - s.hw_ptr % c.buffer_size) % c.buffer_size

/-- `hw_ptr` moved on by `n`. -/
def advanceTo (c : Config α) (s : Substream α) (n : Nat) : Substream α :=
  let hw_ptr := (s.hw_ptr + n) % c.boundary
  let s := if c.stream = .PLAYBACK ∧ 0 < c.sw.silence_size then
    snd_pcm_playback_silence c s (some hw_ptr) else s
  { s with
    hw_ptr_base := hw_ptr - hw_ptr % c.buffer_size
    hw_ptr
    queue := s.queue.drop n }

theorem seenPos_lt (c : Config α) (pos : Nat) : seenPos c pos < c.buffer_size := by
  have hpos := c.hw.size_pos
  have hle : ∀ p, p - p % c.hw.min_align ≤ p := fun p => Nat.sub_le _ _
  unfold seenPos
  dsimp only
  split
  · exact (hle 0).trans_lt hpos
  · rename_i hlt
    exact (hle pos).trans_lt (Nat.lt_of_not_le hlt)

theorem advance_lt (c : Config α) (s : Substream α) (pos : Nat) : advance c s pos < c.buffer_size :=
  Nat.mod_lt _ c.hw.size_pos

theorem advance_eq (c : Config α) (s : Substream α) (pos : Nat) : advance c s pos =
    if s.hw_ptr % c.buffer_size ≤ seenPos c pos then seenPos c pos - s.hw_ptr % c.buffer_size
    else seenPos c pos + c.buffer_size - s.hw_ptr % c.buffer_size :=
  ahead_eq (Nat.mod_lt _ c.hw.size_pos) (seenPos_lt c pos)

/-- The base that an update takes and the pointer it comes to. -/
theorem hw_ptr_update (h : InRange c s) (pos : Nat)
    (hbase : s.hw_ptr_base = s.hw_ptr - s.hw_ptr % c.buffer_size) {hw_base : Nat}
    (hdef : hw_base = if s.hw_ptr_base + seenPos c pos < s.hw_ptr then
      if c.boundary ≤ s.hw_ptr_base + c.buffer_size then 0 else s.hw_ptr_base + c.buffer_size
      else s.hw_ptr_base) :
    hw_base + seenPos c pos = (s.hw_ptr + advance c s pos) % c.boundary ∧
      hw_base = (hw_base + seenPos c pos) - (hw_base + seenPos c pos) % c.buffer_size := by
  have hpos := c.hw.size_pos
  have htwo := c.hw.two_mul_le_boundary
  have hh := h.hw_lt
  have hp := seenPos_lt c pos
  have hr : s.hw_ptr % c.buffer_size < c.buffer_size := Nat.mod_lt _ hpos
  have hrle : s.hw_ptr % c.buffer_size ≤ s.hw_ptr := Nat.mod_le _ _
  obtain ⟨k, hk⟩ := c.hw.dvd_boundary
  have hdiv : s.hw_ptr % c.buffer_size + c.buffer_size * (s.hw_ptr / c.buffer_size) = s.hw_ptr :=
    Nat.mod_add_div _ _
  -- The base is a whole number of rings, so it and the ring behind it are below the boundary.
  have hq : s.hw_ptr / c.buffer_size < k := by
    rw [Nat.div_lt_iff_lt_mul hpos, Nat.mul_comm]
    exact hk ▸ hh
  have hring : s.hw_ptr_base = c.buffer_size * (s.hw_ptr / c.buffer_size) := by omega
  have hlast : c.boundary ≤ s.hw_ptr_base + c.buffer_size → c.boundary = s.hw_ptr_base + c.buffer_size := by
    intro hle
    have hmul := Nat.mul_le_mul_left c.buffer_size (Nat.succ_le_of_lt hq)
    rw [Nat.mul_succ, ← hring, ← hk] at hmul
    exact hle.antisymm hmul
  have hmore : ¬ c.boundary ≤ s.hw_ptr_base + c.buffer_size →
      s.hw_ptr_base + 2 * c.buffer_size ≤ c.boundary := by
    intro hlt
    have hlt' : c.buffer_size * (s.hw_ptr / c.buffer_size + 1) < c.buffer_size * k := by
      rw [Nat.mul_add, Nat.mul_one, ← hring, ← hk]
      exact Nat.lt_of_not_le hlt
    have hmul := Nat.mul_le_mul_left c.buffer_size
      (Nat.succ_le_of_lt (Nat.lt_of_mul_lt_mul_left hlt'))
    rw [Nat.mul_succ, Nat.mul_add, Nat.mul_one, ← hring, ← hk] at hmul
    show s.hw_ptr_base + 2 * c.buffer_size ≤ c.hw.boundary
    omega
  have hdvd : c.buffer_size ∣ s.hw_ptr_base := ⟨s.hw_ptr / c.buffer_size, hring⟩
  have hdvd' : c.buffer_size ∣ hw_base := by
    rw [hdef]
    split_ifs
    · exact dvd_zero _
    · exact Nat.dvd_add hdvd dvd_rfl
    · exact hdvd
  have hmod : (hw_base + seenPos c pos) % c.buffer_size = seenPos c pos := by
    rw [Nat.add_mod, Nat.mod_eq_zero_of_dvd hdvd', Nat.zero_add, Nat.mod_mod, Nat.mod_eq_of_lt hp]
  refine ⟨?_, by omega⟩
  have hadv := advance_lt c s pos
  rw [mod_boundary hh (by dsimp only [Config.buffer_size, Config.boundary] at *; omega),
    advance_eq, hdef]
  clear hdef hdvd hdvd' hmod hdiv hq hk hadv hring
  dsimp only [Config.buffer_size, Config.boundary] at *
  split_ifs <;> omega

/-- The difference of two positions, the way the code takes it. -/
theorem delta_eq {B a n : Nat} (ha : a < B) (hn : n < B) :
    (if (((a + n) % B : Nat) : Int) - a < 0 then (((a + n) % B : Nat) : Int) - a + B
      else (((a + n) % B : Nat) : Int) - a) = n := by
  rw [mod_boundary ha hn.le]
  split_ifs <;> omega

theorem eq_add_mod_iff {B a n : Nat} (ha : a < B) (hn : n < B) : a = (a + n) % B ↔ n = 0 := by
  rw [mod_boundary ha hn.le]
  split_ifs <;> omega

theorem advance_lt_boundary (c : Config α) (s : Substream α) (pos : Nat) :
    advance c s pos < c.boundary := by
  have hadv := advance_lt c s pos
  have htwo := c.hw.two_mul_le_boundary
  exact hadv.trans_le (by dsimp only [Config.buffer_size, Config.boundary]; omega)

/-- **An update moves the position on by less than the ring**, and looks at the state after it. -/
theorem update_eq (h : InRange c s)
    (hbase : s.hw_ptr_base = s.hw_ptr - s.hw_ptr % c.buffer_size) (pos : Nat) :
    snd_pcm_update_hw_ptr0 c s pos = if advance c s pos = 0 then (s, .ok ())
      else snd_pcm_update_state c (advanceTo c s (advance c s pos)) := by
  have hadv := advance_lt c s pos
  have hlt := advance_lt_boundary c s pos
  obtain ⟨hnew, hbase'⟩ := hw_ptr_update h pos hbase rfl
  have hdelta := delta_eq h.hw_lt hlt
  have hzero := eq_add_mod_iff h.hw_lt hlt
  unfold snd_pcm_update_hw_ptr0
  have hseen : (if c.buffer_size ≤ pos then 0 else pos) -
      (if c.buffer_size ≤ pos then 0 else pos) % c.hw.min_align = seenPos c pos := rfl
  dsimp only
  rw [hseen, hnew, hdelta, if_neg (by omega)]
  by_cases hn : advance c s pos = 0
  · rw [if_pos (hzero.2 hn), if_pos hn]
  · rw [if_neg fun he => hn (hzero.1 he), if_neg hn, hbase', hnew, Int.toNat_natCast]
    rfl

end Melis.Snd
