import Mathlib.Data.List.TakeWhile
import T3Claw.Data.Matches
import T3Claw.Data.Text

/-!
# Tags of reasoning

The regular expressions of `llm/reasoning.rs` for the tags around reasoning and final answers. A
tag begins with its only `<` and ends with its only `>`, so no match goes past another `<`
(`tagAt_append_of_not_lt`), and a tag stays one whatever is behind it (`tagAt_append_of_some`).
-/

namespace T3Claw.Llm

open Text (isWhitespace)
open Matches (Pattern isMatch)

/-- `(?i)`: what a small letter stands for, with the Kelvin sign and the long s. -/
def foldsTo (letter c : Char) : Bool :=
  c.toLower = letter || (letter = 'k' && c.toNat = 0x212A) || (letter = 's' && c.toNat = 0x17F)

/-- The name at the front, in any case: what is behind it. -/
def foldPrefix? : List Char → List Char → Option (List Char)
  | [], cs => some cs
  | _ :: _, [] => none
  | letter :: name, c :: cs => if foldsTo letter c then foldPrefix? name cs else none

theorem foldPrefix?_append {name cs behind : List Char} (h : foldPrefix? name cs = some behind)
    (more : List Char) : foldPrefix? name (cs ++ more) = some (behind ++ more) := by
  induction name generalizing cs with
  | nil =>
    rw [foldPrefix?] at h ⊢
    rw [Option.some.inj h]
  | cons letter name ih =>
    cases cs with
    | nil => cases h
    | cons c cs =>
      rw [foldPrefix?] at h
      split_ifs at h with hletter
      rw [List.cons_append, foldPrefix?, if_pos hletter]
      exact ih h

/-- The names of thinking tags. -/
def THINKING_NAMES : List (List Char) :=
  ["thinking".toList, "think".toList, "thought".toList, "thoughts".toList, "antthinking".toList,
    "reasoning".toList, "reflection".toList, "scratchpad".toList, "inner_monologue".toList]

def FINAL_NAMES : List (List Char) := ["final".toList]

/-- What a tag cannot have between its ends. -/
def isAngle (c : Char) : Bool := c = '<' || c = '>'

section

variable (word : Char → Bool)

/-- `\w`, of which `word` is the part outside ASCII. -/
def isWordChar (c : Char) : Bool := if c.toNat < 128 then c.isAlphanum || c = '_' else word c

/-- `\b` behind a name. -/
def isBoundary (behind : List Char) : Bool :=
  match behind.head? with
  | none => true
  | some c => !isWordChar word c

/-- `\s*(/?)\s*(?:names)\b`: whether there is a slash, and what is behind the name. -/
def tagName (names : List (List Char)) (cs : List Char) : Option (Bool × List Char) :=
  let spaced := cs.dropWhile isWhitespace
  let is_close := spaced.head? == some '/'
  let named := (if is_close then spaced.tail else spaced).dropWhile isWhitespace
  (names.findSome? fun name => (foldPrefix? name named).filter (isBoundary word)).map
    (is_close, ·)

/-- `<\s*(/?)\s*(?:names)\b[^<>]*>`: the rest of it goes up to the next angle bracket. -/
def tagAt (names : List (List Char)) : List Char → Option (Bool × ℕ)
  | '<' :: cs =>
    let body := cs.takeWhile fun c => !isAngle c
    if (cs.dropWhile fun c => !isAngle c).head? = some '>' then
      (tagName word names body).map fun found => (found.1, body.length + 2)
    else none
  | _ => none

/-- `<\s*/?\s*(?:names)\b`. -/
def quickTagAt (names : List (List Char)) : List Char → Option (Unit × ℕ)
  | '<' :: cs =>
    (tagName word names cs).map fun found => ((), cs.length - found.2.length + 1)
  | _ => none

/-- `<\|(/?)\s*(?:names)\|>`. -/
def pipeTagAt (names : List (List Char)) : List Char → Option (Bool × ℕ)
  | '<' :: '|' :: cs =>
    let is_close := cs.head? == some '/'
    let named := (if is_close then cs.tail else cs).dropWhile isWhitespace
    names.findSome? fun name =>
      match foldPrefix? name named with
      | some ('|' :: '>' :: behind) => some (is_close, cs.length - behind.length + 2)
      | _ => none
  | _ => none

/-- A tag at the front: what is between its ends. -/
theorem tagAt_eq_some {names : List (List Char)} {text : List Char} {found : Bool × ℕ}
    (h : tagAt word names text = some found) :
    ∃ body rest behind, text = '<' :: (body ++ '>' :: rest) ∧
      (∀ c ∈ body, isAngle c = false) ∧ tagName word names body = some (found.1, behind) ∧
      found.2 = body.length + 2 := by
  unfold tagAt at h
  split at h
  · rename_i cs
    dsimp only at h
    split_ifs at h with hhead
    obtain ⟨⟨is_close, behind⟩, hname, rfl⟩ := Option.map_eq_some_iff.mp h
    obtain ⟨rest, hrest⟩ := List.head?_eq_some_iff.mp hhead
    refine ⟨_, rest, behind, ?_, fun c hc => ?_, hname, rfl⟩
    · rw [← hrest, List.takeWhile_append_dropWhile]
    · have hnot := List.mem_takeWhile_imp hc
      rwa [Bool.not_eq_true'] at hnot
  · cases h

/-- A tag, of what is between its ends. -/
theorem tagAt_tag (names : List (List Char)) {body : List Char}
    (hbody : ∀ c ∈ body, isAngle c = false) (rest : List Char) :
    tagAt word names ('<' :: (body ++ '>' :: rest)) =
      (tagName word names body).map fun found => (found.1, body.length + 2) := by
  have hall : ∀ c ∈ body, (!isAngle c) = true := fun c hc => by rw [hbody c hc]; rfl
  have htake : (body ++ '>' :: rest).takeWhile (fun c => !isAngle c) = body := by
    rw [List.takeWhile_append_of_pos hall, List.takeWhile_cons_of_neg (by decide),
      List.append_nil]
  have hdrop : (body ++ '>' :: rest).dropWhile (fun c => !isAngle c) = '>' :: rest := by
    rw [List.dropWhile_append_of_pos hall, List.dropWhile_cons_of_neg (by decide)]
  rw [tagAt, htake, hdrop, if_pos List.head?_cons]

theorem tagAt_append_of_some {names : List (List Char)} {text : List Char} {found : Bool × ℕ}
    (h : tagAt word names text = some found) (more : List Char) :
    tagAt word names (text ++ more) = some found := by
  obtain ⟨body, rest, behind, rfl, hbody, hname, hlength⟩ := tagAt_eq_some word h
  rw [List.cons_append, List.append_assoc, List.cons_append, tagAt_tag word names hbody, hname,
    Option.map_some, ← hlength]

/-- No tag goes past another `<`. -/
theorem tagAt_append_of_lt (names : List (List Char)) {text rest : List Char} (hne : text ≠ [])
    (hrest : rest = [] ∨ ∃ more, rest = '<' :: more) :
    tagAt word names (text ++ rest) = tagAt word names text := by
  cases hfound : tagAt word names text with
  | some found => exact tagAt_append_of_some word hfound rest
  | none =>
    cases hlonger : tagAt word names (text ++ rest) with
    | none => rfl
    | some found =>
      obtain ⟨body, behind, _, htext, hbody, hname, -⟩ := tagAt_eq_some word hlonger
      obtain ⟨c, cs, rfl⟩ := List.exists_cons_of_ne_nil hne
      obtain ⟨rfl, htail⟩ := List.cons.inj htext
      -- the end of the tag is in the text
      rcases List.append_eq_append_iff.mp htail with ⟨x, rfl, hx⟩ | ⟨x, rfl, hx⟩
      · cases x with
        | nil =>
          rcases hrest with rfl | ⟨more, rfl⟩
          · cases hx
          · exact absurd (List.cons.inj hx).1 (by decide)
        | cons d x =>
          rcases hrest with rfl | ⟨more, rfl⟩
          · cases hx
          · obtain ⟨rfl, -⟩ := List.cons.inj hx
            exact absurd (hbody '<' (List.mem_append_right _ List.mem_cons_self)) (by decide)
      · cases x with
        | nil =>
          rcases hrest with rfl | ⟨more, rfl⟩
          · cases hx
          · exact absurd (List.cons.inj hx).1 (by decide)
        | cons d x =>
          obtain ⟨rfl, -⟩ := List.cons.inj hx
          rw [tagAt_tag word names hbody, hname] at hfound
          cases hfound

/-- `THINKING_TAG_RE` and `FINAL_TAG_RE`, of their names. -/
def tagPattern (names : List (List Char)) : Pattern Char Bool where
  matchAt := tagAt word names
  pos h := by
    obtain ⟨body, rest, behind, -, -, -, hlength⟩ := tagAt_eq_some word h
    rw [hlength]
    exact Nat.succ_pos _

/-- `THINKING_TAG_RE`. -/
def THINKING_TAG_RE : Pattern Char Bool := tagPattern word THINKING_NAMES

/-- `FINAL_TAG_RE`. -/
def FINAL_TAG_RE : Pattern Char Bool := tagPattern word FINAL_NAMES

/-- `QUICK_TAG_RE`. -/
def QUICK_TAG_RE : Pattern Char Unit where
  matchAt := quickTagAt word (THINKING_NAMES ++ FINAL_NAMES)
  pos h := by
    unfold quickTagAt at h
    split at h
    · obtain ⟨found, -, rfl⟩ := Option.map_eq_some_iff.mp h
      exact Nat.succ_pos _
    · cases h

/-- `PIPE_REASONING_TAG_RE`. -/
def PIPE_REASONING_TAG_RE : Pattern Char Bool where
  matchAt := pipeTagAt THINKING_NAMES
  pos h := by
    unfold pipeTagAt at h
    split at h
    · obtain ⟨name, -, hname⟩ := List.exists_of_findSome?_eq_some h
      split at hname
      · obtain rfl := Option.some.inj hname
        exact Nat.succ_pos _
      · cases hname
    · cases h

/-! ### What a tag is not -/

variable {word}

/-- A tag begins with its only `<`. -/
theorem tagAt_eq_none {names : List (List Char)} {c : Char} (h : c ≠ '<') (cs : List Char) :
    tagAt word names (c :: cs) = none := by
  cases hfound : tagAt word names (c :: cs) with
  | none => rfl
  | some found =>
    obtain ⟨body, rest, behind, htext, -⟩ := tagAt_eq_some word hfound
    exact absurd (List.cons.inj htext).1 h

/-- The whole of a tag. -/
structure IsTag (word : Char → Bool) (names : List (List Char)) (is_close : Bool)
    (tag : List Char) : Prop where
  tagAt_eq : tagAt word names tag = some (is_close, tag.length)

namespace IsTag

variable {names : List (List Char)} {is_close : Bool} {tag : List Char}

theorem eq_body (h : IsTag word names is_close tag) :
    ∃ body behind, tag = '<' :: (body ++ ['>']) ∧ (∀ c ∈ body, isAngle c = false) ∧
      tagName word names body = some (is_close, behind) := by
  obtain ⟨body, rest, behind, rfl, hbody, hname, hlength⟩ := tagAt_eq_some word h.tagAt_eq
  have hrest : rest = [] := by
    rw [List.length_cons, List.length_append, List.length_cons] at hlength
    exact List.length_eq_zero_iff.mp (by omega)
  exact ⟨body, behind, by rw [hrest], hbody, hname⟩

theorem ne_nil (h : IsTag word names is_close tag) : tag ≠ [] := by
  obtain ⟨body, behind, rfl, -⟩ := h.eq_body
  exact List.cons_ne_nil _ _

theorem head_eq (h : IsTag word names is_close tag) : ∃ cs, tag = '<' :: cs := by
  obtain ⟨body, behind, rfl, -⟩ := h.eq_body
  exact ⟨_, rfl⟩

/-- No tag begins within a tag. -/
theorem tagAt_suffix (h : IsTag word names is_close tag) {other : List (List Char)}
    {back : List Char} (hne : back ≠ []) (hback : back <:+ tag) (hproper : back ≠ tag)
    (rest : List Char) : tagAt word other (back ++ rest) = none := by
  obtain ⟨body, behind, rfl, hbody, -⟩ := h.eq_body
  obtain ⟨c, cs, rfl⟩ := List.exists_cons_of_ne_nil hne
  refine tagAt_eq_none (fun hc => ?_) _
  have hmem : '<' ∈ body ++ ['>'] := by
    rcases List.suffix_cons_iff.mp hback with heq | hback
    · exact absurd heq hproper
    · exact hback.subset (hc ▸ List.mem_cons_self)
  rcases List.mem_append.mp hmem with hmem | hmem
  · exact absurd (hbody '<' hmem) (by decide)
  · exact absurd hmem (by decide)

end IsTag

/-- No other letter stands for the first one of `final`. -/
theorem foldsTo_of_final {letter c : Char} (hc : foldsTo 'f' c = true) (hne : letter ≠ 'f') :
    foldsTo letter c = false := by
  have hlower : c.toLower = 'f' := by simpa [foldsTo] using hc
  have hkelvin : c.toNat ≠ 0x212A := by
    intro h
    rw [← Char.ofNat_toNat c, h] at hlower
    exact absurd hlower (by decide)
  have hlong : c.toNat ≠ 0x17F := by
    intro h
    rw [← Char.ofNat_toNat c, h] at hlower
    exact absurd hlower (by decide)
  simp [foldsTo, hlower, hkelvin, hlong, hne.symm]

/-- Which name a tag has. -/
theorem tagName_isSome_iff {names : List (List Char)} {cs : List Char} :
    (tagName word names cs).isSome ↔ ∃ name ∈ names, ∃ behind,
      foldPrefix? name ((if (cs.dropWhile isWhitespace).head? == some '/' then
        (cs.dropWhile isWhitespace).tail else cs.dropWhile isWhitespace).dropWhile isWhitespace) =
          some behind ∧ isBoundary word behind = true := by
  rw [tagName, Option.isSome_map, List.findSome?_isSome_iff]
  refine exists_congr fun name => and_congr_right fun _ => ?_
  rw [Option.isSome_filter, Option.any_eq_true]

/-- A thinking tag is no final one. -/
theorem tagName_final {body : List Char} {found : Bool × List Char}
    (h : tagName word THINKING_NAMES body = some found) : tagName word FINAL_NAMES body = none := by
  obtain ⟨name, hname, behind, hpre, -⟩ :=
    tagName_isSome_iff.mp (Option.isSome_iff_exists.mpr ⟨found, h⟩)
  rw [← Option.not_isSome_iff_eq_none, tagName_isSome_iff]
  rintro ⟨final, hfinal, behind', hpre', -⟩
  rw [List.mem_singleton.mp hfinal] at hpre'
  have hletters : ∀ name ∈ THINKING_NAMES, name.head? ≠ none ∧ name.head? ≠ some 'f' := by decide
  obtain ⟨hne, hletter⟩ := hletters name hname
  cases name with
  | nil => exact absurd rfl hne
  | cons letter name =>
    generalize (if (body.dropWhile isWhitespace).head? == some '/' then
      (body.dropWhile isWhitespace).tail else body.dropWhile isWhitespace).dropWhile
        isWhitespace = named at hpre hpre'
    cases named with
    | nil => cases hpre
    | cons c named =>
      rw [foldPrefix?] at hpre
      change (if foldsTo 'f' c then _ else none) = some behind' at hpre'
      split_ifs at hpre hpre' with hfolds hfolds'
      have hother := foldsTo_of_final hfolds' (fun h => hletter (congrArg some h))
      exact absurd (hother.symm.trans hfolds) (by decide)

theorem dropWhile_append_gt (cs more : List Char) :
    (cs ++ '>' :: more).dropWhile isWhitespace = cs.dropWhile isWhitespace ++ '>' :: more := by
  rw [List.dropWhile_append]
  split_ifs with h
  · rw [List.isEmpty_iff.mp h, List.dropWhile_cons_of_neg (by decide), List.nil_append]
  · rfl

/-- A name that ends in a tag is one in front of its end. -/
theorem tagName_append {names more_names : List (List Char)} {body : List Char}
    {found : Bool × List Char} (hnames : names ⊆ more_names)
    (h : tagName word names body = some found) (more : List Char) :
    (tagName word more_names (body ++ '>' :: more)).isSome := by
  obtain ⟨name, hname, behind, hpre, hboundary⟩ :=
    tagName_isSome_iff.mp (Option.isSome_iff_exists.mpr ⟨found, h⟩)
  have hboundary' : isBoundary word (behind ++ '>' :: more) = true := by
    cases behind with
    | nil => rfl
    | cons c behind => exact hboundary
  refine tagName_isSome_iff.mpr ⟨name, hnames hname, behind ++ '>' :: more, ?_, hboundary'⟩
  rw [dropWhile_append_gt]
  cases hspaced : body.dropWhile isWhitespace with
  | nil =>
    rw [hspaced] at hpre
    exact foldPrefix?_append hpre _
  | cons c spaced =>
    rw [hspaced] at hpre
    rw [List.cons_append, List.head?_cons, List.tail_cons]
    rw [List.head?_cons, List.tail_cons] at hpre
    split_ifs at hpre ⊢
    · rw [dropWhile_append_gt]
      exact foldPrefix?_append hpre _
    · rw [← List.cons_append, dropWhile_append_gt]
      exact foldPrefix?_append hpre _

namespace IsTag

variable {is_close : Bool} {tag : List Char}

/-- A text that begins with a thinking tag is checked for tags. -/
theorem isMatch_quick (h : IsTag word THINKING_NAMES is_close tag) (rest : List Char) :
    isMatch (QUICK_TAG_RE word) (tag ++ rest) = true := by
  obtain ⟨body, behind, rfl, hbody, hname⟩ := h.eq_body
  have hsub : THINKING_NAMES ⊆ THINKING_NAMES ++ FINAL_NAMES := List.subset_append_left _ _
  obtain ⟨found, hfound⟩ := Option.isSome_iff_exists.mp (tagName_append hsub hname rest)
  have hquick : (QUICK_TAG_RE word).matchAt ('<' :: (body ++ '>' :: rest)) =
      some ((), (body ++ '>' :: rest).length - found.2.length + 1) := by
    change quickTagAt word (THINKING_NAMES ++ FINAL_NAMES) ('<' :: (body ++ '>' :: rest)) = _
    rw [quickTagAt, hfound]
    rfl
  have htext : '<' :: (body ++ ['>']) ++ rest = '<' :: (body ++ '>' :: rest) := by simp
  rw [htext]
  exact Matches.isMatch_of_matchAt (List.cons_ne_nil _ _) hquick

/-- It is no final tag. -/
theorem tagAt_final (h : IsTag word THINKING_NAMES is_close tag) (rest : List Char) :
    tagAt word FINAL_NAMES (tag ++ rest) = none := by
  obtain ⟨body, behind, rfl, hbody, hname⟩ := h.eq_body
  have htext : '<' :: (body ++ ['>']) ++ rest = '<' :: (body ++ '>' :: rest) := by simp
  rw [htext, tagAt_tag word FINAL_NAMES hbody, tagName_final hname]
  rfl

end IsTag

end

end T3Claw.Llm
