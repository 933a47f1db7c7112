import Mathlib.Data.List.Basic
import Mathlib.Data.List.Infix

/-!
# Tallies

How often something happened since it was last interrupted. A tally that is bounded all along a
list bounds what is counted in any stretch of it that nothing interrupts (`Within.countP_le`).
-/

namespace MarkTally

/-- What an entry does to a tally. -/
inductive Mark where
  | counts
  | interrupts
  | passes
  deriving DecidableEq

/-- The tally behind an entry. -/
def Mark.next : Mark → ℕ → ℕ
  | counts, n => n + 1
  | interrupts, _ => 0
  | passes, n => n

variable {α : Type} {mark : α → Mark} {bound n : ℕ} {as bs : List α}

/-- The tally behind a list. -/
def tally (mark : α → Mark) (n : ℕ) (as : List α) : ℕ := as.foldl (fun n a => (mark a).next n) n

theorem tally_append (n : ℕ) (as bs : List α) :
    tally mark n (as ++ bs) = tally mark (tally mark n as) bs := List.foldl_append

/-- No tally along a list exceeds a bound. -/
def Within (mark : α → Mark) (bound : ℕ) : ℕ → List α → Prop
  | _, [] => True
  | n, a :: as => (mark a).next n ≤ bound ∧ Within mark bound ((mark a).next n) as

theorem within_append :
    Within mark bound n (as ++ bs) ↔
      Within mark bound n as ∧ Within mark bound (tally mark n as) bs := by
  induction as generalizing n with
  | nil => exact (iff_of_eq (true_and _)).symm
  | cons a as ih => exact (and_congr_right fun _ => ih).trans and_assoc.symm

theorem Within.tally_le (h : Within mark bound n as) (hn : n ≤ bound) :
    tally mark n as ≤ bound := by
  induction as generalizing n with
  | nil => exact hn
  | cons a as ih => exact ih h.2 h.1

/-- What passes leaves a tally as it is. -/
theorem tally_of_passes (h : ∀ a ∈ as, mark a = .passes) : tally mark n as = n := by
  induction as with
  | nil => rfl
  | cons a as ih =>
    obtain ⟨ha, has⟩ := List.forall_mem_cons.mp h
    rw [tally, List.foldl_cons, ha]
    exact ih has

theorem within_of_passes (hn : n ≤ bound) (h : ∀ a ∈ as, mark a = .passes) :
    Within mark bound n as := by
  induction as with
  | nil => trivial
  | cons a as ih =>
    obtain ⟨ha, has⟩ := List.forall_mem_cons.mp h
    rw [Within, ha]
    exact ⟨hn, ih has⟩

/-- Without an interruption everything that counts is added. -/
theorem tally_eq_add (h : ∀ a ∈ as, mark a ≠ .interrupts) :
    tally mark n as = n + as.countP (mark · = .counts) := by
  induction as generalizing n with
  | nil => rfl
  | cons a as ih =>
    obtain ⟨ha, has⟩ := List.forall_mem_cons.mp h
    rw [tally, List.foldl_cons, ← tally, ih has]
    cases hmark : mark a with
    | counts =>
      rw [List.countP_cons_of_pos (by simp [hmark]), Mark.next]
      omega
    | interrupts => exact absurd hmark ha
    | passes => rw [List.countP_cons_of_neg (by simp [hmark]), Mark.next]

/-- A stretch without an interruption counts no more than the bound. -/
theorem Within.countP_le (h : Within mark bound 0 as) (hbs : bs <:+: as)
    (hpass : ∀ b ∈ bs, mark b ≠ .interrupts) : bs.countP (mark · = .counts) ≤ bound := by
  obtain ⟨front, back, rfl⟩ := hbs
  have hfront := (within_append.mp h).1.tally_le (Nat.zero_le bound)
  rw [tally_append, tally_eq_add hpass] at hfront
  omega

end MarkTally
