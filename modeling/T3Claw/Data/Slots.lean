import Mathlib.Data.List.Basic

/-!
# Slots

A row of slots that are written one at a time, in any order: a slot keeps what was last
written to it, so an order in which every writer comes up determines the row whatever the
order is.
-/

namespace Slots

variable {α β : Type*}

/-- The writers put their values in the slots of their own numbers, in the order given; a
writer without a value leaves its slot as it is. -/
def fill (value : ℕ → Option α) (order : List ℕ) (slots : List (Option α)) : List (Option α) :=
  order.foldl (fun slots i => slots.modify i (value i).or) slots

@[simp] theorem length_fill (value : ℕ → Option α) (order : List ℕ) (slots : List (Option α)) :
    (fill value order slots).length = slots.length := by
  induction order generalizing slots with
  | nil => rfl
  | cons j order ih =>
    rw [fill, List.foldl_cons]
    exact (ih _).trans (List.length_modify _ _ _)

theorem getElem?_fill (value : ℕ → Option α) (order : List ℕ) (slots : List (Option α))
    (i : ℕ) :
    (fill value order slots)[i]?
      = slots[i]?.map fun s => if i ∈ order then (value i).or s else s := by
  induction order generalizing slots with
  | nil => simp [fill]
  | cons j order ih =>
    have hrest := ih (slots.modify j (value j).or)
    rw [fill, List.foldl_cons]
    refine hrest.trans ?_
    rw [List.getElem?_modify]
    by_cases hj : j = i
    · subst hj
      by_cases hmem : j ∈ order
      · -- the writer comes up again, with the same value
        cases hv : value j with
        | none => simp [hmem]
        | some v => simp [hmem, Function.comp_def]
      · simp [hmem, Function.comp_def]
    · simp [hj, Ne.symm hj]

/-- The members that a list keeps, by position. -/
theorem filterMap_eq_range (l : List α) (f : α → Option β) :
    l.filterMap f = (List.range l.length).filterMap fun i => l[i]?.bind f := by
  induction l with
  | nil => rfl
  | cons a l ih =>
    rw [List.length_cons, List.range_succ_eq_map, List.filterMap_cons, List.filterMap_cons,
      List.filterMap_map, ih]
    rfl

/-- The members that are kept, beside those that they come from. -/
theorem forall₂_filterMap {P : α → Prop} [DecidablePred P] {f : α → Option β} {R : α → β → Prop}
    {l : List α} (h : ∀ a ∈ l, if P a then ∃ b, f a = some b ∧ R a b else f a = none) :
    List.Forall₂ R (l.filter fun a => P a) (l.filterMap f) := by
  induction l with
  | nil => exact .nil
  | cons a l ih =>
    obtain ⟨ha, hl⟩ := List.forall_mem_cons.mp h
    by_cases hkept : P a
    · rw [if_pos hkept] at ha
      obtain ⟨b, hb, hR⟩ := ha
      rw [List.filter_cons_of_pos (by simpa using hkept), List.filterMap_cons_some hb]
      exact .cons hR (ih hl)
    · rw [if_neg hkept] at ha
      rw [List.filter_cons_of_neg (by simpa using hkept), List.filterMap_cons_none ha]
      exact ih hl

end Slots
