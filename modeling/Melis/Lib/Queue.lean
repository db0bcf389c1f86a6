import Mathlib.Data.List.Perm.Basic
import Mathlib.Data.List.Range

/-!
# Linked queues

A queue of nodes that are linked through a field of their own, as the list of
the nodes from its head on. Nothing stops a program from linking a node that is
on the queue already, so `linkLast` and `linkFirst` say what then comes of it.
`replay` is the queue as its users see it: it goes through a log of what was put
and got, first in, first out.
-/

namespace Melis.Lib.Queue

universe u

variable {α : Type u} [DecidableEq α]

/-- Follows the links to the last node and links `p` behind it; `p` then ends
the queue, also where it was on it. -/
def linkLast (queue : List α) (p : α) : List α :=
  if p ∈ queue then queue.takeWhile (· ≠ p) ++ [p] else queue ++ [p]

/-- Links the head behind `p`; `none` where the queue is then a circle. -/
def linkFirst (p : α) (queue : List α) : Option (List α) :=
  if p ∈ queue then none else some (p :: queue)

variable {queue : List α} {p : α}

theorem linkLast_eq (h : p ∉ queue) : linkLast queue p = queue ++ [p] := if_neg h

theorem linkFirst_eq (h : p ∉ queue) : linkFirst p queue = some (p :: queue) := if_neg h

/-- The nodes of another queue, none of them on this one, linked one by one. -/
theorem foldl_linkLast {ps : List α} (h : (queue ++ ps).Nodup) :
    ps.foldl linkLast queue = queue ++ ps := by
  induction ps generalizing queue with
  | nil => simp
  | cons p ps ih =>
    have hp : p ∉ queue := fun hm => (List.nodup_append.1 h).2.2 p hm p List.mem_cons_self rfl
    have hassoc : queue ++ p :: ps = (queue ++ [p]) ++ ps := by simp
    rw [List.foldl_cons, linkLast_eq hp, hassoc]
    apply ih
    rwa [← hassoc]

theorem foldl_linkLast_range (n : Nat) : (List.range n).foldl linkLast [] = List.range n := by
  have h : ([] ++ List.range n).Nodup := List.nodup_range
  exact foldl_linkLast h

/-! ## What a queue has seen -/

/-- What happens to a queue, with what was put and what was got. -/
inductive Event (α : Type u)
  | put (a : α)
  | get (a : α)
  | flush

/-- What is left in the queue: what is got is the first there is. -/
def replay : List α → List (Event α) → Option (List α)
  | queue, [] => some queue
  | queue, .put a :: log => replay (queue ++ [a]) log
  | [], .get _ :: _ => none
  | b :: queue, .get a :: log => if a = b then replay queue log else none
  | _, .flush :: log => replay [] log

variable {log : List (Event α)} {a : α} {queue' : List α}

theorem replay_append (queue : List α) (log log' : List (Event α)) :
    replay queue (log ++ log') = (replay queue log).bind fun q => replay q log' := by
  induction log generalizing queue with
  | nil => rfl
  | cons e log ih =>
    cases e with
    | put a => exact ih (queue ++ [a])
    | flush => exact ih []
    | get a =>
      cases queue with
      | nil => rfl
      | cons b queue =>
        rw [List.cons_append, replay, replay]
        split
        · exact ih queue
        · rfl

theorem replay_put (h : replay queue log = some queue') (a : α) :
    replay queue (log ++ [.put a]) = some (queue' ++ [a]) := by
  rw [replay_append, h]
  rfl

theorem replay_get (h : replay queue log = some (a :: queue')) :
    replay queue (log ++ [.get a]) = some queue' := by
  rw [replay_append, h]
  exact if_pos rfl

theorem replay_flush (h : replay queue log = some queue') :
    replay queue (log ++ [.flush]) = some [] := by
  rw [replay_append, h]
  rfl

end Melis.Lib.Queue
