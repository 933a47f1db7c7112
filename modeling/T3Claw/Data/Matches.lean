import Mathlib.Data.List.Infix

/-!
# The matches of a pattern

A pattern is what it matches at the front of a text. `findIter` are its leftmost matches that do
not overlap. The lemmas find them piece by piece, where no match goes past the end of a piece.
-/

namespace T3Claw.Matches

variable {α β : Type}

/-- A pattern: the length of the match at the front of a text, if there is one, and what it
captures. No match is empty. -/
structure Pattern (α β : Type) where
  matchAt : List α → Option (β × ℕ)
  pos : ∀ {text found}, matchAt text = some found → 0 < found.2

/-- A match. -/
structure Match (β : Type) where
  start : ℕ
  stop : ℕ
  group : β

variable (pattern : Pattern α β)

/-- The matches of the text, which begins at `pos`. -/
def findIter (pos : ℕ) : List α → List (Match β)
  | [] => []
  | c :: cs =>
    match _h : pattern.matchAt (c :: cs) with
    | some (group, n) => ⟨pos, pos + n, group⟩ :: findIter (pos + n) ((c :: cs).drop n)
    | none => findIter (pos + 1) cs
termination_by text => text.length
decreasing_by
  · rw [List.length_drop]
    exact Nat.sub_lt (Nat.succ_pos _) (pattern.pos _h)
  · exact Nat.lt_succ_self _

/-- There is a match. -/
def isMatch (text : List α) : Bool := !(findIter pattern 0 text).isEmpty

/-- No text behind a position of this one begins with a match. -/
def Free (text : List α) : Prop := ∀ back, back ≠ [] → back <:+ text → pattern.matchAt back = none

variable {pattern}

theorem Free.of_suffix {text back : List α} (h : Free pattern text) (hback : back <:+ text) :
    Free pattern back := fun more hne hmore => h more hne (hmore.trans hback)

theorem findIter_cons_none {c : α} {cs : List α} (h : pattern.matchAt (c :: cs) = none) (pos : ℕ) :
    findIter pattern pos (c :: cs) = findIter pattern (pos + 1) cs := by
  rw [findIter]
  split
  · rename_i hsome
    exact absurd (hsome.symm.trans h) (Option.some_ne_none _)
  · rfl

theorem findIter_of_match {text : List α} {group : β} {n : ℕ}
    (h : pattern.matchAt text = some (group, n)) (hne : text ≠ []) (pos : ℕ) :
    findIter pattern pos text =
      ⟨pos, pos + n, group⟩ :: findIter pattern (pos + n) (text.drop n) := by
  obtain ⟨c, cs, rfl⟩ := List.exists_cons_of_ne_nil hne
  rw [findIter]
  split
  · rename_i hsome
    obtain ⟨rfl, rfl⟩ := Prod.mk.inj (Option.some.inj (hsome.symm.trans h))
    rfl
  · rename_i hnone
    exact absurd (h.symm.trans hnone) (Option.some_ne_none _)

/-- A piece that is a match, whatever is behind it. -/
theorem findIter_match_append {piece rest : List α} {group : β} (hne : piece ≠ [])
    (h : pattern.matchAt (piece ++ rest) = some (group, piece.length)) (pos : ℕ) :
    findIter pattern pos (piece ++ rest) = ⟨pos, pos + piece.length, group⟩ ::
      findIter pattern (pos + piece.length) rest := by
  rw [findIter_of_match h (List.append_ne_nil_of_left_ne_nil hne rest), List.drop_left]

/-- A piece in which no match begins. -/
theorem findIter_free_append {piece rest : List α}
    (h : ∀ back, back ≠ [] → back <:+ piece → pattern.matchAt (back ++ rest) = none) (pos : ℕ) :
    findIter pattern pos (piece ++ rest) = findIter pattern (pos + piece.length) rest := by
  induction piece generalizing pos with
  | nil => rfl
  | cons c piece ih =>
    have hfirst : pattern.matchAt (c :: (piece ++ rest)) = none :=
      h (c :: piece) (List.cons_ne_nil _ _) List.suffix_rfl
    rw [List.cons_append, findIter_cons_none hfirst,
      ih fun back hne hback => h back hne (hback.trans (List.suffix_cons _ _)),
      List.length_cons, Nat.add_right_comm, Nat.add_assoc]

/-- A piece in which no match begins, in front of a text without one. -/
theorem Free.append {piece rest : List α}
    (h : ∀ back, back ≠ [] → back <:+ piece → pattern.matchAt (back ++ rest) = none)
    (hrest : Free pattern rest) : Free pattern (piece ++ rest) := by
  intro back hne hback
  obtain ⟨front, htext⟩ := hback
  rcases List.append_eq_append_iff.mp htext with ⟨x, rfl, rfl⟩ | ⟨x, rfl, rfl⟩
  · cases x with
    | nil => exact hrest rest hne List.suffix_rfl
    | cons c x => exact h (c :: x) (List.cons_ne_nil _ _) (List.suffix_append _ _)
  · exact hrest back hne (List.suffix_append _ _)

theorem findIter_eq_nil {text : List α} (h : Free pattern text) (pos : ℕ) :
    findIter pattern pos text = [] := by
  have hnone : ∀ back, back ≠ [] → back <:+ text → pattern.matchAt (back ++ []) = none := by
    intro back hne hback
    rw [List.append_nil]
    exact h back hne hback
  have hfree := findIter_free_append hnone pos
  rw [List.append_nil] at hfree
  rw [hfree, findIter]

theorem free_of_findIter_eq_nil {pos : ℕ} {text : List α} (h : findIter pattern pos text = []) :
    Free pattern text := by
  induction text generalizing pos with
  | nil => exact fun back hne hback => absurd (List.suffix_nil.mp hback) hne
  | cons c cs ih =>
    cases hmatch : pattern.matchAt (c :: cs) with
    | some found =>
      rw [findIter_of_match hmatch (List.cons_ne_nil _ _)] at h
      cases h
    | none =>
      rw [findIter_cons_none hmatch] at h
      intro back hne hback
      rcases List.suffix_cons_iff.mp hback with rfl | hback
      · exact hmatch
      · exact ih h back hne hback

/-- Matches are found from the position on. -/
theorem le_start_of_mem_findIter {pos : ℕ} {text : List α} {m : Match β}
    (h : m ∈ findIter pattern pos text) : pos ≤ m.start := by
  induction pos, text using findIter.induct pattern with
  | case1 pos => rw [findIter] at h; cases h
  | case2 pos c cs group n hmatch ih =>
    rw [findIter_of_match hmatch (List.cons_ne_nil _ _)] at h
    rcases List.mem_cons.mp h with rfl | h
    · exact le_rfl
    · exact (Nat.le_add_right _ _).trans (ih h)
  | case3 pos c cs hmatch ih =>
    rw [findIter_cons_none hmatch] at h
    exact (Nat.le_succ _).trans (ih h)

theorem isMatch_eq_false {text : List α} : isMatch pattern text = false ↔ Free pattern text := by
  rw [isMatch, Bool.not_eq_false', List.isEmpty_iff]
  exact ⟨free_of_findIter_eq_nil, fun h => findIter_eq_nil h 0⟩

theorem isMatch_of_matchAt {text : List α} {found : β × ℕ} (hne : text ≠ [])
    (h : pattern.matchAt text = some found) : isMatch pattern text = true := by
  rw [isMatch, findIter_of_match h hne]
  rfl

end T3Claw.Matches
