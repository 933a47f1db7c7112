import Mathlib.Data.Multiset.Count
import Mathlib.Data.Multiset.AddSub
import T3Claw.Conc.System

/-!
# Counting in a log

How often instructions of a kind have been performed, by one task and by all of them. What
holds of the counts of every task holds of the totals: the totals are the sizes of two bags of
tasks, and the counts are the multiplicities in them.
-/

namespace Conc

variable {ι : Type} {p q : ι → Bool}

/-- How often an instruction of the kind has been performed. -/
def countOf (p : ι → Bool) (log : List (ℕ × ι)) : ℕ := log.countP fun entry => p entry.2

/-- How often task `k` has performed one. -/
def countBy (p : ι → Bool) (k : ℕ) (log : List (ℕ × ι)) : ℕ :=
  log.countP fun entry => entry.1 = k && p entry.2

theorem countOf_cons (j : ℕ) (i : ι) (log : List (ℕ × ι)) :
    countOf p ((j, i) :: log) = countOf p log + if p i then 1 else 0 := List.countP_cons

theorem countBy_cons (j k : ℕ) (i : ι) (log : List (ℕ × ι)) :
    countBy p k ((j, i) :: log) = countBy p k log + if j = k ∧ p i then 1 else 0 := by
  simp [countBy, List.countP_cons]

/-- What the others do is not counted. -/
theorem countBy_append_of_ne {new log : List (ℕ × ι)} {k : ℕ} (hnew : ∀ e ∈ new, e.1 ≠ k) :
    countBy p k (new ++ log) = countBy p k log := by
  rw [countBy, List.countP_append, List.countP_eq_zero.mpr, Nat.zero_add, countBy]
  intro e he
  simp [hnew e he]

/-- The tasks that have performed an instruction of the kind, as often as they have. -/
def tasksOf (p : ι → Bool) (log : List (ℕ × ι)) : Multiset ℕ :=
  ((log.filter fun entry => p entry.2).map Prod.fst : List ℕ)

theorem card_tasksOf (p : ι → Bool) (log : List (ℕ × ι)) :
    (tasksOf p log).card = countOf p log := by
  rw [tasksOf, Multiset.coe_card, List.length_map, countOf, List.countP_eq_length_filter]

theorem count_tasksOf (p : ι → Bool) (k : ℕ) (log : List (ℕ × ι)) :
    (tasksOf p log).count k = countBy p k log := by
  rw [tasksOf, Multiset.coe_count, List.count, List.countP_map, List.countP_filter, countBy]
  exact List.countP_congr fun entry _ => by simp

/-- **No task has done more of one than of the other.** -/
theorem countOf_le_of_countBy {log : List (ℕ × ι)}
    (h : ∀ k, countBy p k log ≤ countBy q k log) : countOf p log ≤ countOf q log := by
  rw [← card_tasksOf, ← card_tasksOf]
  refine Multiset.card_le_card (Multiset.le_iff_count.mpr fun k => ?_)
  rw [count_tasksOf, count_tasksOf]
  exact h k

/-- Nor has anyone, and one task has done less. -/
theorem countOf_lt_of_countBy {log : List (ℕ × ι)} {k : ℕ}
    (h : ∀ j, countBy p j log ≤ countBy q j log) (hk : countBy p k log < countBy q k log) :
    countOf p log < countOf q log := by
  rw [← card_tasksOf, ← card_tasksOf]
  refine Multiset.card_lt_card (lt_of_le_of_ne (Multiset.le_iff_count.mpr fun j => ?_) ?_)
  · rw [count_tasksOf, count_tasksOf]
    exact h j
  · intro heq
    rw [← count_tasksOf, ← count_tasksOf, heq] at hk
    exact lt_irrefl _ hk

end Conc
