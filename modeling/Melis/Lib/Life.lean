import Mathlib.Order.Basic

/-!
# The lives of many things in one log

A log holds events, each of one of the things that `κ` names. `life` follows
one of them through an automaton: `next` takes what it was and an event to what
it is then, or to `none` where it does not allow the event.
-/

namespace Melis.Lib

universe u v w

variable {κ : Type u} {ε : Type v} {σ : Type w} [DecidableEq κ]

/-- What `k` is after `log`, the newest event first; `none` for good after an event that is not
allowed. -/
def life (next : σ → ε → Option σ) (start : σ) : List (κ × ε) → κ → Option σ
  | [], _ => some start
  | (k', e) :: log, k =>
    if k' = k then (life next start log k).bind (next · e) else life next start log k

variable {next : σ → ε → Option σ} {start s s' : σ} {log : List (κ × ε)} {k k' : κ} {e : ε}

@[simp] theorem life_nil : life next start [] k = some start := rfl

theorem life_cons_self :
    life next start ((k, e) :: log) k = (life next start log k).bind (next · e) := if_pos rfl

theorem life_cons_of_ne (h : k' ≠ k) :
    life next start ((k', e) :: log) k = life next start log k := if_neg h

theorem life_cons (hs : life next start log k = some s) (hn : next s e = some s') :
    life next start ((k, e) :: log) k = some s' := by
  rw [life_cons_self, hs]
  exact hn

end Melis.Lib
