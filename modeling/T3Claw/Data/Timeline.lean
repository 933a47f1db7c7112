import Mathlib.Data.List.Basic
import Mathlib.Logic.Function.Iterate

/-!
# Timelines

A line of values with a place on it: what lies behind the place and what lies before it, the
nearest first. Going back and forward moves the place and leaves the line as it is
(`line_walk`), and going forward takes back what going back did (`iterate_forward_back`). A new
value cuts off what lies before the place.
-/

/-- A place on a line of values. -/
@[ext]
structure Timeline (α : Type*) where
  past : List α
  now : α
  future : List α

namespace Timeline

variable {α : Type*} {t : Timeline α}

/-- One value back, if there is one. -/
def back (t : Timeline α) : Timeline α :=
  match t.past with
  | [] => t
  | a :: past => ⟨past, a, t.now :: t.future⟩

/-- One value forward, if there is one. -/
def forward (t : Timeline α) : Timeline α :=
  match t.future with
  | [] => t
  | a :: future => ⟨t.now :: t.past, a, future⟩

/-- A new value, the last one, with no more than `bound` behind it. -/
def branch (bound : ℕ) (t : Timeline α) (a : α) : Timeline α :=
  ⟨(t.now :: t.past).take bound, a, []⟩

/-- The place is moved back, to the value behind `n` others, and nothing lies before it. -/
def rewind (n : ℕ) (t : Timeline α) : Timeline α :=
  match t.past.drop n with
  | [] => t
  | a :: past => ⟨past, a, []⟩

/-- The whole line. -/
def line (t : Timeline α) : List α := t.past.reverse ++ t.now :: t.future

/-- A move on a line. -/
inductive Move where
  | back
  | forward

/-- What a move does. -/
def move (t : Timeline α) : Move → Timeline α
  | .back => t.back
  | .forward => t.forward

/-- What moves do, one after another. -/
def walk (t : Timeline α) (moves : List Move) : Timeline α := moves.foldl move t

theorem line_back (t : Timeline α) : t.back.line = t.line := by
  obtain ⟨past, now, future⟩ := t
  cases past with
  | nil => rfl
  | cons a past => simp [back, line]

theorem line_forward (t : Timeline α) : t.forward.line = t.line := by
  obtain ⟨past, now, future⟩ := t
  cases future with
  | nil => rfl
  | cons a future => simp [forward, line]

/-- Moves leave the line as it is. -/
theorem line_walk (moves : List Move) (t : Timeline α) : (t.walk moves).line = t.line := by
  induction moves generalizing t with
  | nil => rfl
  | cons move moves ih =>
    refine (ih (t.move move)).trans ?_
    cases move with
    | back => exact line_back t
    | forward => exact line_forward t

theorem forward_back (h : t.past ≠ []) : t.back.forward = t := by
  obtain ⟨past, now, future⟩ := t
  cases past with
  | nil => exact absurd rfl h
  | cons a past => rfl

theorem length_past_back (t : Timeline α) : t.back.past.length = t.past.length - 1 := by
  obtain ⟨past, now, future⟩ := t
  cases past <;> rfl

/-- So many steps back, and as many forward. -/
theorem iterate_forward_back (n : ℕ) (h : n ≤ t.past.length) : forward^[n] (back^[n] t) = t := by
  induction n generalizing t with
  | zero => rfl
  | succ n ih =>
    have hpast : t.past ≠ [] := by
      intro hnil
      rw [hnil] at h
      cases h
    have hback : n ≤ t.back.past.length := by
      rw [length_past_back]
      omega
    rw [Function.iterate_succ_apply' forward, Function.iterate_succ_apply back, ih hback,
      forward_back hpast]

theorem walk_replicate (move : Move) (n : ℕ) (t : Timeline α) :
    t.walk (List.replicate n move) = (fun t : Timeline α => t.move move)^[n] t := by
  induction n generalizing t with
  | zero => rfl
  | succ n ih => rw [List.replicate_succ, Function.iterate_succ_apply, ← ih]; rfl

/-- The walk back and forth. -/
theorem walk_back_forward (n : ℕ) (h : n ≤ t.past.length) :
    t.walk (List.replicate n .back ++ List.replicate n .forward) = t := by
  rw [walk, List.foldl_append]
  refine (walk_replicate .forward n _).trans ?_
  exact (congrArg _ (walk_replicate .back n t)).trans (iterate_forward_back n h)

end Timeline
