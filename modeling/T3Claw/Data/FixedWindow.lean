import Mathlib.Data.Nat.Notation
import Mathlib.Order.Defs.LinearOrder
import Mathlib.Tactic.ByContra

/-!
# Fixed windows

A counter that is started anew once its window has run for `d`, and counts no further than
`L` in between. What it lets through in an interval of length `d` is at most `2 * L`: an
interval meets two windows at most, since the third begins `d` after the second, which begins
in the interval itself.
-/

namespace FixedWindow

variable {d L t start count n now : ℕ}

/-- Where the counter stands after `n` events in the interval `[t, t + d]`. -/
structure Bounds (d L t start count n : ℕ) : Prop where
  count_le : count ≤ L
  le_count : start ≤ t → n ≤ count
  le_add : start ≤ t + d → n ≤ L + count
  le_two : n ≤ 2 * L
  recent : 0 < n → t < start + d

theorem Bounds.zero (d L t start : ℕ) : Bounds d L t start 0 0 :=
  ⟨by omega, by omega, by omega, by omega, by omega⟩

/-- A window that has run out is started anew. -/
theorem Bounds.restart (h : Bounds d L t start count n) (hrun : start + d ≤ now) :
    Bounds d L t now 0 n := by
  have hrecent := h.recent
  refine ⟨Nat.zero_le _, fun hnow => ?_, fun hnow => ?_, h.le_two, fun hn => ?_⟩
  · -- an event of the interval was counted in the window that has just run out
    by_contra hn
    have := hrecent (by omega)
    omega
  · have := h.le_count (by omega)
    have := h.count_le
    omega
  · have := hrecent hn
    omega

/-- An event outside the interval. -/
theorem Bounds.skip (h : Bounds d L t start count n) (hcount : count < L) :
    Bounds d L t start (count + 1) n := by
  refine ⟨hcount, fun hs => ?_, fun hs => ?_, h.le_two, h.recent⟩
  · have := h.le_count hs
    omega
  · have := h.le_add hs
    omega

/-- An event of the interval, while the window is running. -/
theorem Bounds.count_one (h : Bounds d L t start count n) (hcount : count < L)
    (hstart : start ≤ now) (hrun : now < start + d) (hfrom : t ≤ now) (hto : now ≤ t + d) :
    Bounds d L t start (count + 1) (n + 1) := by
  have hadd := h.le_add (by omega)
  refine ⟨hcount, fun hs => ?_, fun hs => ?_, ?_, fun _ => ?_⟩
  · have := h.le_count hs
    omega
  · omega
  · omega
  · omega

end FixedWindow
