import Mathlib.Data.List.Nodup
import Mathlib.Data.List.Range

/-!
# Windows of a list

A window is a stretch of a list, given by where it starts and how many entries it has. In a list
without repeats the entries of a window give it away (`eq_of_slice_eq`). A covering is a row of
windows that moves on without waste: each starts behind the last one, and is not contained in it,
and each run of a number of entries is within one of them. Windows of one length, at steps of one
width, with a last one up to the end, are a covering (`covering_steps`).
-/

namespace T3Claw

/-- A stretch of a list. -/
structure Window where
  start : ℕ
  length : ℕ
  deriving DecidableEq

namespace Window

/-- Where a window ends. -/
def stop (w : Window) : ℕ := w.start + w.length

variable {α : Type}

/-- The entries of a window. -/
def slice (w : Window) (xs : List α) : List α := (xs.drop w.start).take w.length

theorem length_slice {w : Window} {xs : List α} (h : w.stop ≤ xs.length) :
    (w.slice xs).length = w.length := by
  have h : w.start + w.length ≤ xs.length := h
  rw [slice, List.length_take, List.length_drop]
  omega

theorem slice_sublist (w : Window) (xs : List α) : (w.slice xs).Sublist xs :=
  (List.take_sublist _ _).trans (List.drop_sublist _ _)

theorem getElem?_slice (w : Window) (xs : List α) {i : ℕ} (hi : i < w.length) :
    (w.slice xs)[i]? = xs[w.start + i]? := by
  rw [slice, List.getElem?_take_of_lt hi, List.getElem?_drop]

/-- Two windows, one behind the other, are one. -/
theorem slice_append (a l l' : ℕ) (xs : List α) :
    (⟨a, l⟩ : Window).slice xs ++ (⟨a + l, l'⟩ : Window).slice xs =
      (⟨a, l + l'⟩ : Window).slice xs := by
  rw [slice, slice, slice, List.take_add, List.drop_drop]

theorem eq_of_slice_eq {xs : List α} (hxs : xs.Nodup) {w v : Window} (hw : w.stop ≤ xs.length)
    (hv : v.stop ≤ xs.length) (hpos : 0 < w.length) (h : w.slice xs = v.slice xs) : w = v := by
  have hlength : w.length = v.length := by rw [← length_slice hw, h, length_slice hv]
  have hw' : w.start + w.length ≤ xs.length := hw
  have hv' : v.start + v.length ≤ xs.length := hv
  -- the first entries of the windows are one entry of the list
  have hfirst : xs[w.start]? = xs[v.start]? := by
    rw [← Nat.add_zero w.start, ← Nat.add_zero v.start, ← getElem?_slice w xs hpos, h,
      getElem?_slice v xs (hlength ▸ hpos)]
  have hstart : w.start = v.start :=
    (List.getElem?_inj (by omega) hxs).mp hfirst
  cases w
  cases v
  exact congrArg₂ Window.mk hstart hlength

/-- Two windows that share an entry are not next to each other in a list without repeats. -/
theorem not_nodup_append {xs : List α} {w v : Window} (hw : w.stop ≤ xs.length)
    (hle : w.start ≤ v.start) (hlt : v.start < w.stop) (hpos : 0 < v.length) :
    ¬(w.slice xs ++ v.slice xs).Nodup := by
  intro hnodup
  have hw' : w.start + w.length ≤ xs.length := hw
  have hlt' : v.start < w.start + w.length := hlt
  have hfirst := getElem?_slice v xs hpos
  have hlater := getElem?_slice w xs (i := v.start - w.start) (by omega)
  rw [Nat.add_zero, List.getElem?_eq_getElem (by omega : v.start < xs.length)] at hfirst
  rw [show w.start + (v.start - w.start) = v.start by omega,
    List.getElem?_eq_getElem (by omega : v.start < xs.length)] at hlater
  exact List.disjoint_of_nodup_append hnodup (List.mem_of_getElem? hlater)
    (List.mem_of_getElem? hfirst)

/-- A row of windows moves on, and covers all runs of `overlap + 1` entries of `n`. -/
structure Covering (overlap n : ℕ) (windows : List Window) : Prop where
  bounded : ∀ w ∈ windows, w.stop ≤ n
  ascending : windows.IsChain fun w v => w.start < v.start
  fresh : windows.IsChain fun w v => ¬(w.start ≤ v.start ∧ v.stop ≤ w.stop)
  runs : ∀ i, i + overlap + 1 ≤ n → ∃ w ∈ windows, w.start ≤ i ∧ i + overlap + 1 ≤ w.stop

/-- Of two windows that the entries of a covering show next to each other, the second is not
contained in the first. -/
theorem Covering.not_contained {xs : List α} (hxs : xs.Nodup) {overlap : ℕ}
    {windows : List Window} (h : Covering overlap xs.length windows) {w v : Window}
    (hw : w.stop ≤ xs.length) (hv : v.stop ≤ xs.length) (hwpos : 0 < w.length)
    (hvpos : 0 < v.length)
    (hpair : [w.slice xs, v.slice xs] <:+: windows.map fun w => w.slice xs) :
    ¬(w.start ≤ v.start ∧ v.stop ≤ w.stop) := by
  obtain ⟨pair, hpair, heq⟩ := List.infix_map_iff.mp hpair
  obtain ⟨w', rest, rfl, hfirst, hrest⟩ := List.map_eq_cons_iff.mp heq.symm
  obtain ⟨v', rest, rfl, hsecond, -⟩ := List.map_eq_cons_iff.mp hrest
  have hw' := eq_of_slice_eq hxs hw (h.bounded w' (hpair.subset (by simp))) hwpos hfirst.symm
  have hv' := eq_of_slice_eq hxs hv (h.bounded v' (hpair.subset (by simp))) hvpos hsecond.symm
  have hchain := h.fresh.infix hpair
  rw [List.isChain_cons_cons, ← hw', ← hv'] at hchain
  exact hchain.1

theorem covering_nil (overlap : ℕ) : Covering overlap 0 [] where
  bounded := nofun
  ascending := .nil
  fresh := .nil
  runs := fun i hi => by omega

/-- The window of a step, of `count` and a last one. -/
def step (size width count n k : ℕ) : Window :=
  ⟨k * width, if k < count then size else n - k * width⟩

/-- Windows of a size, at steps of a width, and a last one up to the end. -/
def steps (size width count n : ℕ) : List Window :=
  (List.range (count + 1)).map (step size width count n)

section

variable {size width overlap count n : ℕ}

theorem step_of_lt {k : ℕ} (h : k < count) : step size width count n k = ⟨k * width, size⟩ := by
  rw [step, if_pos h]

theorem step_last : step size width count n count = ⟨count * width, n - count * width⟩ := by
  rw [step, if_neg (Nat.lt_irrefl _)]

theorem steps_eq : steps size width count n =
    (List.range count).map (fun k => ⟨k * width, size⟩) ++
      [⟨count * width, n - count * width⟩] := by
  rw [steps, List.range_succ, List.map_append, List.map_singleton, step_last]
  congr 1
  exact List.map_congr_left fun k hk => step_of_lt (List.mem_range.mp hk)

theorem covering_steps (hwidth : 0 < width) (hsize : width + overlap = size)
    (hlast : count * width ≤ n) (hbefore : ∀ k < count, k * width + size < n) :
    Covering overlap n (steps size width count n) := by
  have hstop : ∀ k ≤ count, (step size width count n k).stop = k * width + size ∧ k < count ∨
      (step size width count n k).stop = n ∧ k = count := by
    intro k hk
    obtain hk | rfl := Nat.lt_or_eq_of_le hk
    · exact .inl ⟨by rw [step_of_lt hk, stop], hk⟩
    · exact .inr ⟨by rw [step_last, stop]; exact Nat.add_sub_of_le hlast, rfl⟩
  have hnext : ∀ k : ℕ, (k + 1) * width = k * width + width := fun k => Nat.succ_mul k width
  constructor
  · intro w hw
    obtain ⟨k, hk, rfl⟩ := List.mem_map.mp hw
    obtain ⟨h, hk⟩ | ⟨h, -⟩ := hstop k (Nat.lt_succ_iff.mp (List.mem_range.mp hk))
    · exact h ▸ (hbefore k hk).le
    · exact h.le
  · rw [steps, List.isChain_map, List.isChain_range_succ]
    intro k _
    show k * width < (k + 1) * width
    have hmove := hnext k
    omega
  · rw [steps, List.isChain_map, List.isChain_range_succ]
    rintro k hk ⟨-, hle⟩
    have hmove := hnext k
    have hlater := hbefore k hk
    rw [step_of_lt hk] at hle
    obtain ⟨h, -⟩ | ⟨h, -⟩ := hstop (k + 1) hk
    · rw [h, stop] at hle
      exact absurd hle (by simp only; omega)
    · rw [h, stop] at hle
      exact absurd hle (by simp only; omega)
  · intro i hi
    by_cases hlate : count * width ≤ i
    · refine ⟨step size width count n count, List.mem_map.mpr ⟨count, by simp, rfl⟩, ?_⟩
      rw [step_last, stop]
      exact ⟨hlate, by simp only; omega⟩
    · -- the run starts within one of the steps before the last
      have hk : i / width < count := (Nat.div_lt_iff_lt_mul hwidth).mpr (by omega)
      have hfloor := Nat.div_mul_le_self i width
      have hceil := Nat.lt_div_mul_add hwidth (a := i)
      refine ⟨step size width count n (i / width),
        List.mem_map.mpr ⟨i / width, List.mem_range.mpr (by omega), rfl⟩, ?_⟩
      rw [step_of_lt hk, stop]
      exact ⟨hfloor, by simp only; omega⟩

end

end Window

end T3Claw
