import T3Claw.Data.Text

/-!
# Words of a text

The words that `splitWhitespace` finds are not empty and have no white space in them. A text that
is joined from words, with a space between them, has just these words.
-/

namespace T3Claw.Text

/-- A text that is not empty and has no white space in it. -/
def IsWord (word : List Char) : Prop := word ≠ [] ∧ ∀ c ∈ word, isWhitespace c = false

/-- No piece has a separator in it. -/
theorem eq_false_of_mem_splitOnP {α : Type} {p : α → Bool} {xs piece : List α} {y : α}
    (h : piece ∈ xs.splitOnP p) (hy : y ∈ piece) : p y = false := by
  induction xs generalizing piece with
  | nil =>
    rw [List.splitOnP_nil] at h
    exact absurd hy (List.mem_singleton.mp h ▸ List.not_mem_nil)
  | cons x xs ih =>
    cases hx : p x with
    | true =>
      rw [List.splitOnP_cons_eq_if_modifyHead, if_pos hx] at h
      obtain rfl | h := List.mem_cons.mp h
      · cases hy
      · exact ih h hy
    | false =>
      rw [List.splitOnP_cons_eq_if_modifyHead, if_neg (by simp [hx])] at h
      obtain ⟨first, rest, hsplit⟩ := List.exists_cons_of_ne_nil (List.splitOnP_ne_nil p xs)
      rw [hsplit] at h ih
      obtain rfl | h := List.mem_cons.mp h
      · obtain rfl | hy := List.mem_cons.mp hy
        · exact hx
        · exact ih List.mem_cons_self hy
      · exact ih (List.mem_cons_of_mem _ h) hy

theorem isWord_of_mem {text word : List Char} (h : word ∈ splitWhitespace text) : IsWord word := by
  obtain ⟨hmem, hne⟩ := List.mem_filter.mp h
  exact ⟨fun hnil => by simp [hnil] at hne, fun c hc => eq_false_of_mem_splitOnP hmem hc⟩

theorem IsWord.splitWhitespace {word : List Char} (h : IsWord word) :
    splitWhitespace word = [word] := by
  rw [Text.splitWhitespace, List.splitOnP_eq_singleton h.2]
  simp [h.1]

theorem splitWhitespace_append_cons (front back : List Char) {c : Char}
    (hc : isWhitespace c = true) :
    splitWhitespace (front ++ c :: back) = splitWhitespace front ++ splitWhitespace back := by
  rw [splitWhitespace, List.splitOnP_append_cons _ _ hc, List.filter_append, ← splitWhitespace,
    ← splitWhitespace]

theorem splitWhitespace_intercalate {words : List (List Char)} (h : ∀ word ∈ words, IsWord word) :
    splitWhitespace ([' '].intercalate words) = words := by
  induction words with
  | nil => rfl
  | cons word words ih =>
    obtain ⟨hword, hwords⟩ := List.forall_mem_cons.mp h
    cases words with
    | nil => simpa using hword.splitWhitespace
    | cons next words =>
      rw [List.intercalate_cons_cons, List.append_assoc, List.singleton_append,
        splitWhitespace_append_cons _ _ (by decide), hword.splitWhitespace, ih hwords]
      rfl

end T3Claw.Text
