import T3Claw.Data.Text

/-!
# Lines of a text

What stands in the pieces of a text that is split at a character, in its lines (`lines`), and in
a text that is joined from pieces.
-/

namespace T3Claw.Text

/-- The pieces of a text have no separator, and nothing that is not in the text. -/
theorem mem_splitOn {text piece : List Char} {d : Char} (h : piece ∈ text.splitOn d) :
    d ∉ piece ∧ ∀ c ∈ piece, c ∈ text := by
  induction text generalizing piece with
  | nil =>
    rw [List.splitOn_nil, List.mem_singleton] at h
    rw [h]
    exact ⟨nofun, nofun⟩
  | cons c cs ih =>
    have hlater : ∀ {piece : List Char}, piece ∈ cs.splitOn d →
        d ∉ piece ∧ ∀ e ∈ piece, e ∈ c :: cs := fun hpiece =>
      ⟨(ih hpiece).1, fun e he => List.mem_cons_of_mem c ((ih hpiece).2 e he)⟩
    rw [List.splitOn_cons_eq_if_modifyHead] at h
    split_ifs at h with hc
    · rcases List.mem_cons.mp h with rfl | h
      · exact ⟨nofun, nofun⟩
      · exact hlater h
    · obtain ⟨first, rest, hsplit⟩ := List.exists_cons_of_ne_nil (List.splitOn_ne_nil d cs)
      rw [hsplit, List.modifyHead_cons] at h
      rcases List.mem_cons.mp h with rfl | h
      · obtain ⟨hfirst, hsub⟩ := hlater (hsplit ▸ List.mem_cons_self (a := first))
        refine ⟨?_, fun e he => ?_⟩
        · rw [List.mem_cons, not_or]
          exact ⟨fun hd => hc (beq_iff_eq.mpr hd.symm), hfirst⟩
        · rcases List.mem_cons.mp he with rfl | he
          · exact List.mem_cons_self
          · exact hsub e he
      · exact hlater (hsplit ▸ List.mem_cons_of_mem _ h)

/-- A line is the front of a piece of the text. -/
theorem mem_lines {text line : List Char} (h : line ∈ lines text) :
    '\n' ∉ line ∧ ∀ c ∈ line, c ∈ text := by
  obtain ⟨piece, hpiece, hline⟩ : ∃ piece ∈ text.splitOn '\n', line <+: piece := by
    rcases List.mem_append.mp h with h | h
    · obtain ⟨piece, hpiece, rfl⟩ := List.mem_map.mp h
      refine ⟨piece, (List.dropLast_prefix _).subset hpiece, ?_⟩
      split_ifs
      · exact List.dropLast_prefix piece
      · exact List.prefix_refl piece
    · have hlast := (List.mem_filter.mp h).1
      exact ⟨line, List.mem_of_getLast? (Option.mem_toList.mp hlast), List.prefix_refl line⟩
  obtain ⟨hnone, hsub⟩ := mem_splitOn hpiece
  exact ⟨fun hmem => hnone (hline.subset hmem), fun c hc => hsub c (hline.subset hc)⟩

theorem mem_intercalate {c : Char} {separator : List Char} {pieces : List (List Char)}
    (h : c ∈ separator.intercalate pieces) : c ∈ separator ∨ ∃ piece ∈ pieces, c ∈ piece := by
  induction pieces with
  | nil => cases h
  | cons piece pieces ih =>
    rcases pieces with _ | ⟨next, pieces⟩
    · rw [List.intercalate_singleton] at h
      exact Or.inr ⟨piece, List.mem_singleton_self _, h⟩
    · rw [List.intercalate_cons_cons, List.append_assoc, List.mem_append] at h
      rcases h with h | h
      · exact Or.inr ⟨piece, List.mem_cons_self, h⟩
      · rcases List.mem_append.mp h with h | h
        · exact Or.inl h
        · obtain h | ⟨other, hother, hc⟩ := ih h
          · exact Or.inl h
          · exact Or.inr ⟨other, List.mem_cons_of_mem _ hother, hc⟩

/-- The lines of a text that begins with a line. -/
theorem lines_append_cons {front : List Char} (h : '\r' ∉ front) (back : List Char) :
    lines (front ++ '\n' :: back) = front.splitOn '\n' ++ lines back := by
  have hpieces : (front ++ '\n' :: back).splitOn '\n' =
      front.splitOn '\n' ++ back.splitOn '\n' :=
    List.splitOnP_append_cons _ _ (beq_self_eq_true '\n')
  have hne := List.splitOn_ne_nil '\n' back
  have hfront : ∀ piece ∈ front.splitOn '\n',
      (if piece.getLast? = some '\r' then piece.dropLast else piece) = piece := by
    intro piece hpiece
    refine if_neg fun hlast => h ((mem_splitOn hpiece).2 _ (List.mem_of_getLast? hlast))
  simp only [lines, hpieces]
  rw [List.dropLast_append_of_ne_nil hne, List.map_append, List.getLast?_append_of_ne_nil _ hne,
    List.append_assoc, List.map_congr_left hfront, List.map_id']

/-- The pieces of a text and the separators behind them are as long as the text, and one more. -/
theorem sum_splitOn (d : Char) (text : List Char) :
    ((text.splitOn d).map (·.length + 1)).sum = text.length + 1 := by
  induction text with
  | nil => simp
  | cons c cs ih =>
    rw [List.splitOn_cons_eq_if_modifyHead]
    split_ifs
    · rw [List.map_cons, List.sum_cons, ih]
      simp only [List.length_nil, List.length_cons]
      omega
    · obtain ⟨first, rest, hsplit⟩ := List.exists_cons_of_ne_nil (List.splitOn_ne_nil d cs)
      rw [hsplit] at ih ⊢
      rw [List.modifyHead_cons, List.map_cons, List.sum_cons, List.length_cons, List.length_cons]
      rw [List.map_cons, List.sum_cons] at ih
      omega

/-- A text of whole lines. -/
def Closed (text : List Char) : Prop := text = [] ∨ ∃ front, text = front ++ ['\n']

/-- Whole lines in front of a text are lines of it. -/
theorem Closed.lines_append {text : List Char} (h : Closed text) (hcr : '\r' ∉ text)
    (back : List Char) : lines (text ++ back) = lines text ++ lines back := by
  obtain rfl | ⟨front, rfl⟩ := h
  · rfl
  · have hfront : '\r' ∉ front := fun hmem => hcr (List.mem_append_left _ hmem)
    have hnil : lines [] = [] := rfl
    rw [List.append_assoc, List.singleton_append, lines_append_cons hfront,
      lines_append_cons hfront, hnil, List.append_nil]

theorem Closed.sum_lines {text : List Char} (h : Closed text) (hcr : '\r' ∉ text) :
    ((lines text).map (·.length + 1)).sum = text.length := by
  obtain rfl | ⟨front, rfl⟩ := h
  · rfl
  · have hfront : '\r' ∉ front := fun hmem => hcr (List.mem_append_left _ hmem)
    have hnil : lines [] = [] := rfl
    rw [lines_append_cons hfront, hnil, List.append_nil, sum_splitOn]
    simp

end T3Claw.Text
