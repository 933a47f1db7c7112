import T3Claw.Data.Occurrence

/-!
# Marks in a text

A replacement that only puts a mark in front of a pattern, or behind its first character, does
not move anything else. Several of them that use one mark come to one pass, which puts the marks
where the text behind says so (`marked`, `replace_marked`). Whatever stands in the marked text
without a mark in it stands in the text as well (`Inserted.prefix_text`), also when other characters
are dropped or mapped afterwards.
-/

namespace T3Claw.Text

/-- The mark, when there is one. -/
def mark (z : Char) (b : Bool) : List Char := if b then [z] else []

/-- The text with marks in front of its characters (`p`) and behind them (`q`), as the text that
begins with the character has it. -/
def marked (z : Char) (p q : List Char → Bool) : List Char → List Char
  | [] => []
  | c :: cs => mark z (p (c :: cs)) ++ c :: (mark z (q (c :: cs)) ++ marked z p q cs)

/-- The second text is the first one with marks somewhere. -/
inductive Inserted (z : Char) : List Char → List Char → Prop
  | nil : Inserted z [] []
  | mark {cs ms : List Char} (h : Inserted z cs ms) : Inserted z cs (z :: ms)
  | cons {cs ms : List Char} (c : Char) (h : Inserted z cs ms) : Inserted z (c :: cs) (c :: ms)

variable {z : Char} {p q : List Char → Bool} {cs ms : List Char}

@[simp] theorem mark_false : mark z false = [] := rfl

@[simp] theorem mark_true : mark z true = [z] := rfl

theorem marked_cons (c : Char) (cs : List Char) : marked z p q (c :: cs) =
    mark z (p (c :: cs)) ++ c :: (mark z (q (c :: cs)) ++ marked z p q cs) := rfl

/-- Without marks the text is as it was. -/
theorem marked_false (cs : List Char) :
    marked z (fun _ => false) (fun _ => false) cs = cs := by
  induction cs with
  | nil => rfl
  | cons c cs ih => rw [marked_cons, ih, mark_false, List.nil_append, List.nil_append]

/-! ### Places without a mark -/

namespace Inserted

theorem mark_append (h : Inserted z cs ms) (b : Bool) : Inserted z cs (Text.mark z b ++ ms) := by
  cases b with
  | false => exact h
  | true => exact h.mark

theorem map (f : Char → Char) (h : Inserted z cs ms) :
    Inserted (f z) (cs.map f) (ms.map f) := by
  induction h with
  | nil => exact .nil
  | mark _ ih => exact ih.mark
  | cons c _ ih => exact ih.cons (f c)

theorem filter {keep : Char → Bool} (hkeep : keep z = true) (h : Inserted z cs ms) :
    Inserted z (cs.filter keep) (ms.filter keep) := by
  induction h with
  | nil => exact .nil
  | mark _ ih =>
    rw [List.filter_cons_of_pos hkeep]
    exact ih.mark
  | cons c _ ih =>
    by_cases hc : keep c = true
    · rw [List.filter_cons_of_pos hc, List.filter_cons_of_pos hc]
      exact ih.cons c
    · rw [List.filter_cons_of_neg hc, List.filter_cons_of_neg hc]
      exact ih

/-- **What stands in front of the marked text without a mark** stands in front of the text. -/
theorem prefix_text {w : List Char} (h : Inserted z cs ms) (hz : z ∉ w) (hw : w <+: ms) :
    w <+: cs := by
  induction h generalizing w with
  | nil => exact hw
  | mark _ ih =>
    rcases w with _ | ⟨d, w⟩
    · exact List.nil_prefix
    · have hd : d = z := (List.cons_prefix_cons.mp hw).1
      exact absurd (hd ▸ List.mem_cons_self) hz
  | cons c _ ih =>
    rcases w with _ | ⟨d, w⟩
    · exact List.nil_prefix
    · obtain ⟨hd, htail⟩ := List.cons_prefix_cons.mp hw
      rw [List.mem_cons, not_or] at hz
      exact List.cons_prefix_cons.mpr ⟨hd, ih hz.2 htail⟩

end Inserted

theorem inserted_marked (cs : List Char) : Inserted z cs (marked z p q cs) := by
  induction cs with
  | nil => exact .nil
  | cons c cs ih => exact ((ih.mark_append _).cons c).mark_append _

/-! ### Replacements that put marks -/

/-- Characters at which no mark is put. -/
theorem marked_append {x y : List Char} (hp : ∀ v, v <:+ x → v ≠ [] → p (v ++ y) = false)
    (hq : ∀ v, v <:+ x → v ≠ [] → q (v ++ y) = false) :
    marked z p q (x ++ y) = x ++ marked z p q y := by
  induction x with
  | nil => rfl
  | cons c x ih =>
    have hc := hp (c :: x) (List.suffix_refl _) (List.cons_ne_nil c x)
    have hc' := hq (c :: x) (List.suffix_refl _) (List.cons_ne_nil c x)
    rw [List.cons_append] at hc hc'
    rw [List.cons_append, marked_cons, hc, hc',
      ih (fun v hv => hp v (hv.trans (List.suffix_cons c x)))
        fun v hv => hq v (hv.trans (List.suffix_cons c x))]
    rfl

/-- `other` begins nowhere inside `key`, whatever comes behind it. -/
def ClearOf (other key : List Char) : Prop :=
  ∀ v ∈ key.tails, v ≠ [] → ¬other <+: v ∧ ¬v <+: other

instance (other key : List Char) : Decidable (ClearOf other key) :=
  inferInstanceAs (Decidable (∀ _ ∈ _, _))

theorem ClearOf.isPrefixOf_append {other key v : List Char} (h : ClearOf other key)
    (hv : v <:+ key) (hne : v ≠ []) (y : List Char) : other.isPrefixOf (v ++ y) = false := by
  obtain ⟨hother, hself⟩ := h v ((List.mem_tails _ _).mpr hv) hne
  refine Bool.eq_false_iff.mpr fun hpre => ?_
  rcases List.prefix_or_prefix_of_prefix (List.isPrefixOf_iff_prefix.mp hpre)
    (List.prefix_append v y) with hle | hle
  · exact hother hle
  · exact hself hle

/-- **One more replacement that puts a mark.** No mark may be inside the key or at it so far, and
the key begins at its first character only. -/
theorem replace_marked {c : Char} {rest : List Char} {a b : Bool} (hz : z ∉ c :: rest)
    (hc : c ∉ rest)
    (hp : ∀ v, v <:+ c :: rest → v ≠ [] → ∀ y, p (v ++ y) = false)
    (hq : ∀ v, v <:+ c :: rest → v ≠ [] → ∀ y, q (v ++ y) = false) (cs : List Char) :
    replace (c :: rest) (mark z b ++ c :: (mark z a ++ rest)) (marked z p q cs) =
      marked z (fun s => p s || (b && (c :: rest).isPrefixOf s))
        (fun s => q s || (a && (c :: rest).isPrefixOf s)) cs := by
  have hne : c :: rest ≠ [] := List.cons_ne_nil c rest
  rw [List.mem_cons, not_or] at hz
  have hmark : ∀ (d : Bool) (ms : List Char),
      replace (c :: rest) (mark z b ++ c :: (mark z a ++ rest)) (mark z d ++ ms) =
        mark z d ++ replace (c :: rest) (mark z b ++ c :: (mark z a ++ rest)) ms := by
    intro d ms
    cases d with
    | false => rfl
    | true =>
      have hnot : ¬c :: rest <+: z :: ms := fun h => hz.1 (List.cons_prefix_cons.mp h).1.symm
      exact replace_cons hnot
  induction cs using replace_induction hne with
  | nil => rfl
  | skip d cs hnot ih =>
    have hfalse : (c :: rest).isPrefixOf (d :: cs) = false :=
      Bool.eq_false_iff.mpr fun h => hnot (List.isPrefixOf_iff_prefix.mp h)
    -- where the key stands in the marked text it stands in the text
    have hnot' : ¬c :: rest <+: d :: (mark z (q (d :: cs)) ++ marked z p q cs) := fun h =>
      hnot ((((inserted_marked cs).mark_append _).cons d).prefix_text
        (List.not_mem_cons_of_ne_of_not_mem hz.1 hz.2) h)
    rw [marked_cons, marked_cons, hmark, replace_cons hnot', hmark, ih, hfalse]
    simp
  | found cs ih =>
    have hself : (c :: rest).isPrefixOf (c :: (rest ++ cs)) = true :=
      List.isPrefixOf_iff_prefix.mpr (List.prefix_append (c :: rest) cs)
    -- inside the key it does not begin again
    have hinside : ∀ v, v <:+ rest → v ≠ [] → (c :: rest).isPrefixOf (v ++ cs) = false := by
      intro v hrest hv
      obtain ⟨d, v', rfl⟩ := List.exists_cons_of_ne_nil hv
      refine Bool.eq_false_iff.mpr fun h => hc ?_
      have hd : c = d := (List.cons_prefix_cons.mp (List.isPrefixOf_iff_prefix.mp h)).1
      exact hd ▸ hrest.subset List.mem_cons_self
    have hrest : ∀ {s : List Char → Bool} {e : Bool},
        (∀ v, v <:+ c :: rest → v ≠ [] → ∀ y, s (v ++ y) = false) → ∀ v, v <:+ rest →
          v ≠ [] → (s (v ++ cs) || (e && (c :: rest).isPrefixOf (v ++ cs))) = false := by
      intro s e hs v h hv
      rw [hs v (h.trans (List.suffix_cons c rest)) hv, hinside v h hv, Bool.and_false]
      rfl
    have hp0 := hp (c :: rest) (List.suffix_refl _) hne cs
    have hq0 := hq (c :: rest) (List.suffix_refl _) hne cs
    rw [List.cons_append] at hp0 hq0
    rw [marked_append (fun v h hv => hp v h hv cs) fun v h hv => hq v h hv cs,
      replace_self_append hne, ih, List.cons_append, marked_cons, hp0, hq0, hself,
      marked_append (hrest hp) (hrest hq)]
    simp

end T3Claw.Text
