import Mathlib.Data.List.Infix

/-!
# Cutting a text at its first occurrence

`cut? pattern text` is what stands in front of the first occurrence of a pattern, and what stands
behind it: `str::find` together with the two slices that are taken there.
-/

namespace T3Claw.Split

variable {α : Type} [DecidableEq α] {pattern : List α}

/-- What stands in front of the first occurrence of the pattern. -/
def beforeFirst? (pattern : List α) : List α → Option (List α)
  | [] => if pattern.isEmpty then some [] else none
  | c :: cs =>
    if pattern.isPrefixOf (c :: cs) then some []
    else (beforeFirst? pattern cs).map (c :: ·)

/-- The text in front of the first occurrence, and behind it. -/
def cut? (pattern text : List α) : Option (List α × List α) :=
  (beforeFirst? pattern text).map fun front =>
    (front, text.drop (front.length + pattern.length))

theorem beforeFirst?_eq_some_nil {text : List α} (h : pattern <+: text) :
    beforeFirst? pattern text = some [] := by
  cases text with
  | nil => rw [beforeFirst?, List.prefix_nil.mp h, List.isEmpty_nil, if_pos rfl]
  | cons c cs => rw [beforeFirst?, if_pos (List.isPrefixOf_iff_prefix.mpr h)]

theorem beforeFirst?_cons {c : α} {cs : List α} (h : ¬pattern <+: c :: cs) :
    beforeFirst? pattern (c :: cs) = (beforeFirst? pattern cs).map (c :: ·) := by
  rw [beforeFirst?, if_neg fun hpre => h (List.isPrefixOf_iff_prefix.mp hpre)]

/-- There is no occurrence where none is found. -/
theorem beforeFirst?_eq_none {text : List α} :
    beforeFirst? pattern text = none ↔ ¬pattern <:+: text := by
  induction text with
  | nil =>
    rw [beforeFirst?, List.infix_nil]
    split_ifs with h
    · simp [List.isEmpty_iff.mp h]
    · simp [mt List.isEmpty_iff.mpr h]
  | cons c cs ih =>
    rw [List.infix_cons_iff]
    by_cases hpre : pattern <+: c :: cs
    · simp [beforeFirst?_eq_some_nil hpre, hpre]
    · simp [beforeFirst?_cons hpre, hpre, ih]

/-- What is found: an occurrence, and none that ends before it does. -/
theorem beforeFirst?_eq_some {text front : List α} :
    beforeFirst? pattern text = some front ↔
      front ++ pattern <+: text ∧ ∀ shorter, shorter <+: front → shorter ≠ front →
        ¬shorter ++ pattern <+: text := by
  induction text generalizing front with
  | nil =>
    rw [beforeFirst?]
    split_ifs with h
    · rw [List.isEmpty_iff] at h
      subst h
      simp only [Option.some.injEq, List.append_nil, List.prefix_nil]
      constructor
      · rintro rfl
        exact ⟨rfl, fun shorter hshorter hne => absurd (List.prefix_nil.mp hshorter) hne⟩
      · exact fun h => h.1.symm
    · rw [List.isEmpty_iff] at h
      simp [h]
  | cons c cs ih =>
    by_cases hpre : pattern <+: c :: cs
    · rw [beforeFirst?_eq_some_nil hpre, Option.some.injEq]
      constructor
      · rintro rfl
        exact ⟨hpre, fun shorter hshorter hne => absurd (List.prefix_nil.mp hshorter) hne⟩
      · intro h
        by_contra hne
        exact h.2 [] List.nil_prefix hne hpre
    · rw [beforeFirst?_cons hpre]
      cases front with
      | nil =>
        simp [hpre]
      | cons d front =>
        simp only [Option.map_eq_some_iff, List.cons.injEq, ih, List.cons_append,
          List.cons_prefix_cons]
        constructor
        · rintro ⟨front', ⟨hfound, hfirst⟩, rfl, rfl⟩
          refine ⟨⟨rfl, hfound⟩, fun shorter hshorter hne hoccurs => ?_⟩
          cases shorter with
          | nil => exact hpre hoccurs
          | cons e shorter =>
            obtain ⟨rfl, htail⟩ := List.cons_prefix_cons.mp hshorter
            exact hfirst shorter htail (fun h => hne (by rw [h]))
              (List.cons_prefix_cons.mp hoccurs).2
        · rintro ⟨⟨rfl, hfound⟩, hfirst⟩
          refine ⟨front, ⟨hfound, fun shorter hshorter hne hoccurs => ?_⟩, rfl, rfl⟩
          exact hfirst (d :: shorter) (List.cons_prefix_cons.mpr ⟨rfl, hshorter⟩)
            (fun h => hne (List.cons.inj h).2) (List.cons_prefix_cons.mpr ⟨rfl, hoccurs⟩)

theorem cut?_eq_none {text : List α} : cut? pattern text = none ↔ ¬pattern <:+: text := by
  rw [cut?, Option.map_eq_none_iff, beforeFirst?_eq_none]

/-- The two parts, and the pattern between them. -/
theorem cut?_eq_some {text front back : List α} (h : cut? pattern text = some (front, back)) :
    text = front ++ pattern ++ back := by
  obtain ⟨found, hfound, hparts⟩ := Option.map_eq_some_iff.mp h
  obtain ⟨rfl, rfl⟩ := Prod.mk.inj hparts
  obtain ⟨rest, hrest⟩ := (beforeFirst?_eq_some.mp hfound).1
  rw [← hrest, ← List.length_append, List.drop_left]

theorem length_of_cut? {text front back : List α} (h : cut? pattern text = some (front, back)) :
    text.length = front.length + pattern.length + back.length := by
  rw [cut?_eq_some h, List.length_append, List.length_append]

/-- Cutting at an occurrence that no earlier one precedes. -/
theorem cut?_append {front back : List α}
    (h : ∀ shorter, shorter <+: front → shorter ≠ front →
      ¬shorter ++ pattern <+: front ++ (pattern ++ back)) :
    cut? pattern (front ++ (pattern ++ back)) = some (front, back) := by
  have hfirst : beforeFirst? pattern (front ++ (pattern ++ back)) = some front :=
    beforeFirst?_eq_some.mpr ⟨⟨back, List.append_assoc _ _ _⟩, h⟩
  rw [cut?, hfirst, Option.map_some, ← List.append_assoc, ← List.length_append, List.drop_left]

/-- What is found first is not in front of where it is found. -/
theorem not_infix_of_cut? {text front back : List α} (hne : pattern ≠ [])
    (h : cut? pattern text = some (front, back)) : ¬pattern <:+: front := by
  obtain ⟨found, hfound, hparts⟩ := Option.map_eq_some_iff.mp h
  obtain ⟨rfl, -⟩ := Prod.mk.inj hparts
  obtain ⟨hpre, hfirst⟩ := beforeFirst?_eq_some.mp hfound
  rintro ⟨shorter, rest, rfl⟩
  refine hfirst shorter ⟨pattern ++ rest, (List.append_assoc _ _ _).symm⟩ (fun heq => hne ?_)
    (List.IsPrefix.trans ⟨rest ++ pattern, (List.append_assoc _ _ _).symm⟩ hpre)
  have hlength := congrArg List.length heq
  rw [List.length_append, List.length_append] at hlength
  exact List.eq_nil_of_length_eq_zero (by omega)

/-- A pattern whose first character it has nowhere else is found where it is put behind a text
that it is not in. -/
theorem cut?_of_not_infix {x : α} {rest front : List α} (hx : x ∉ rest)
    (h : ¬x :: rest <:+: front) (back : List α) :
    cut? (x :: rest) (front ++ (x :: rest ++ back)) = some (front, back) := by
  refine cut?_append fun shorter hshorter hne hoccurs => ?_
  obtain ⟨gap, rfl⟩ := hshorter
  rw [List.append_assoc, List.prefix_append_right_inj] at hoccurs
  obtain hlong | hshort := Nat.lt_or_ge gap.length (x :: rest).length |>.symm
  · -- the pattern would be in the gap
    have hgap := List.prefix_of_prefix_length_le hoccurs (List.prefix_append gap _) hlong
    exact h (hgap.isInfix.trans (List.suffix_append shorter gap).isInfix)
  · -- the pattern behind the gap would begin within the pattern
    have hpre := List.prefix_of_prefix_length_le (List.prefix_append gap _) hoccurs hshort.le
    obtain ⟨tail, htail⟩ := hpre
    obtain _ | ⟨y, gap⟩ := gap
    · exact hne (List.append_nil _).symm
    · rw [List.cons_append, List.cons.injEq] at htail
      obtain ⟨rfl, rfl⟩ := htail
      have htail : tail <+: y :: (gap ++ tail) ++ back :=
        (List.prefix_append_right_inj gap).mp (List.cons_prefix_cons.mp hoccurs).2
      obtain _ | ⟨z, tail⟩ := tail
      · simp at hshort
      · obtain ⟨rfl, -⟩ := List.cons_prefix_cons.mp htail
        exact hx (List.mem_append_right _ List.mem_cons_self)

/-- The pattern at the very front. -/
theorem cut?_prefix (back : List α) : cut? pattern (pattern ++ back) = some ([], back) :=
  cut?_append fun _ hshorter hne => absurd (List.prefix_nil.mp hshorter) hne

/-- In front of the text there may be what the pattern cannot begin in. -/
theorem cut?_append_left {x : α} {front : List α} (hfirst : pattern.head? = some x)
    (hfront : x ∉ front) (text : List α) :
    cut? pattern (front ++ text) =
      (cut? pattern text).map fun parts => (front ++ parts.1, parts.2) := by
  have hbefore : beforeFirst? pattern (front ++ text) =
      (beforeFirst? pattern text).map (front ++ ·) := by
    induction front with
    | nil => simp
    | cons c front ih =>
      obtain ⟨hc, hrest⟩ := not_or.mp (mt List.mem_cons.mpr hfront)
      have hnot : ¬pattern <+: c :: (front ++ text) := by
        intro h
        cases pattern with
        | nil => cases hfirst
        | cons y pattern =>
          obtain rfl := Option.some.inj hfirst
          exact hc (List.cons_prefix_cons.mp h).1
      rw [List.cons_append, beforeFirst?_cons hnot, ih hrest, Option.map_map]
      rfl
  rw [cut?, cut?, hbefore, Option.map_map, Option.map_map]
  congr 1
  funext found
  change (front ++ found, _) = _
  rw [List.length_append, Nat.add_assoc, List.drop_append, List.drop_eq_nil_of_le (by omega),
    List.nil_append, Nat.add_sub_cancel_left]
  rfl

/-- What is found first stays so in a longer text. -/
theorem cut?_append_right {text front back : List α} (h : cut? pattern text = some (front, back))
    (more : List α) : cut? pattern (text ++ more) = some (front, back ++ more) := by
  obtain ⟨found, hfound, hparts⟩ := Option.map_eq_some_iff.mp h
  obtain ⟨rfl, -⟩ := Prod.mk.inj hparts
  have htext := cut?_eq_some h
  obtain ⟨-, hfirst⟩ := beforeFirst?_eq_some.mp hfound
  have hlonger : text ++ more = found ++ (pattern ++ (back ++ more)) := by
    rw [htext]
    simp only [List.append_assoc]
  rw [hlonger]
  refine cut?_append fun shorter hshorter hne hoccurs => hfirst shorter hshorter hne ?_
  rw [← hlonger] at hoccurs
  refine List.prefix_of_prefix_length_le hoccurs (List.prefix_append _ _) ?_
  rw [htext, List.length_append, List.length_append, List.length_append]
  have hle := hshorter.length_le
  omega

/-- A character that the front does not have is first found behind it. -/
theorem cut?_singleton {c : α} {front : List α} (h : c ∉ front) (back : List α) :
    cut? [c] (front ++ c :: back) = some (front, back) := by
  change cut? [c] (front ++ ([c] ++ back)) = _
  refine cut?_append fun shorter hshorter hne hoccurs => ?_
  obtain ⟨rest, rfl⟩ := hshorter
  obtain _ | ⟨d, rest⟩ := rest
  · exact hne (List.append_nil _).symm
  · rw [List.append_assoc, List.prefix_append_right_inj, List.cons_append,
      List.cons_prefix_cons] at hoccurs
    exact h (hoccurs.1 ▸ List.mem_append_right _ List.mem_cons_self)

omit [DecidableEq α] in
/-- A pattern without an element is in front of it or behind it. -/
theorem infix_append_cons_iff {c : α} (h : c ∉ pattern) (front back : List α) :
    pattern <:+: front ++ c :: back ↔ pattern <:+: front ∨ pattern <:+: back := by
  induction front with
  | nil =>
    rw [List.nil_append, List.infix_cons_iff, List.infix_nil]
    refine ⟨?_, fun h' => h'.elim (fun hnil => .inr (hnil ▸ List.nil_infix)) .inr⟩
    rintro (hpre | hin)
    · obtain _ | ⟨d, pattern⟩ := pattern
      · exact .inl rfl
      · exact absurd ((List.cons_prefix_cons.mp hpre).1 ▸ List.mem_cons_self) h
    · exact .inr hin
  | cons d front ih =>
    rw [List.cons_append, List.infix_cons_iff, List.infix_cons_iff, ih, ← or_assoc]
    refine or_congr_left (or_congr_left ⟨fun hpre => ?_, fun hpre => ?_⟩)
    · obtain hle | hlt := Nat.lt_or_ge (d :: front).length pattern.length |>.symm
      · exact List.prefix_of_prefix_length_le hpre (List.prefix_append (d :: front) _) hle
      · -- a longer pattern would have the element
        have hfront := List.prefix_of_prefix_length_le
          (List.prefix_append (d :: front) (c :: back)) hpre hlt.le
        obtain ⟨rest, rfl⟩ := hfront
        have hrest : rest <+: c :: back := (List.prefix_append_right_inj (d :: front)).mp hpre
        obtain _ | ⟨e, rest⟩ := rest
        · simp at hlt
        · obtain ⟨rfl, -⟩ := List.cons_prefix_cons.mp hrest
          exact absurd (List.mem_append_right _ List.mem_cons_self) h
    · exact hpre.trans (List.prefix_append (d :: front) _)

/-- An infix whose first element the front does not have, nor the back its last one, is one of the
middle. -/
theorem infix_of_ends {β : Type} {x y : β} {key front mid back : List β}
    (hfirst : key.head? = some x) (hlast : key.getLast? = some y)
    (hfront : x ∉ front) (hback : y ∉ back) (h : key <:+: front ++ (mid ++ back)) :
    key <:+: mid := by
  obtain ⟨p, q, hpq⟩ := h
  rw [List.append_assoc] at hpq
  -- the front ends before the key begins
  obtain ⟨p, rfl, hmid⟩ : ∃ p', p = front ++ p' ∧ p' ++ (key ++ q) = mid ++ back := by
    rcases List.append_eq_append_iff.mp hpq with ⟨t, rfl, ht⟩ | ⟨t, rfl, ht⟩
    · cases t with
      | nil => exact ⟨[], by simp, ht⟩
      | cons z t =>
        cases key with
        | nil => cases hfirst
        | cons w key =>
          obtain ⟨rfl, -⟩ := List.cons.inj ht
          obtain rfl := Option.some.inj hfirst
          exact absurd (List.mem_append_right _ List.mem_cons_self) hfront
    · exact ⟨t, rfl, ht.symm⟩
  rw [← List.append_assoc] at hmid
  rcases List.append_eq_append_iff.mp hmid with ⟨t, rfl, -⟩ | ⟨t, ht, rfl⟩
  · exact ⟨p, t, rfl⟩
  · rcases List.eq_nil_or_concat' t with rfl | ⟨t, z, rfl⟩
    · exact ⟨p, [], ht.trans (List.append_nil _) ▸ List.append_nil _⟩
    · have hz : (p ++ key).getLast? = some z := by
        rw [ht, ← List.append_assoc, List.getLast?_concat]
      rw [List.getLast?_append, hlast, Option.some_or] at hz
      obtain rfl := Option.some.inj hz
      exact absurd (List.mem_append_left _ (List.mem_append_right _ List.mem_cons_self)) hback

end T3Claw.Split
