import T3Claw.Data.Lines
import T3Claw.Data.Marks
import T3Claw.Safety.Detection

/-!
# What the sanitizer escapes

`Sanitizer::escape_content` puts a backslash into each special token that stands in the content
in its own letters, takes the NULs out, and puts a word in front of each line that begins as a
message of a role. The tokens are looked for before the NULs are taken out and in one case of
their letters only, so it depends on the content whether they are all escaped in the end
(`neutralised_iff`).
-/

namespace T3Claw.Safety.Sanitizer

variable {Re : Type}

/-- The special tokens. -/
def specialTokens : List (List Char) :=
  ["<|".toList, "|>".toList, "[INST]".toList, "[/INST]".toList]

/-- The text without its NULs. -/
def dropNul (cs : List Char) : List Char := cs.filter (· ≠ '\x00')

/-! ### Tokens in the text -/

/-- A special token at the front of `text`, in any case of its letters, has a backslash before
it. The escaped form of `|>` has the backslash inside, so it is not there at all. -/
def EscapedAt (front text : List Char) : Prop :=
  ∀ token ∈ specialTokens, asciiLower token <+: asciiLower text →
    token ≠ "|>".toList ∧ front.getLast? = some '\\'

instance (front text : List Char) : Decidable (EscapedAt front text) :=
  inferInstanceAs (Decidable (∀ token ∈ specialTokens, _ → _))

/-- Behind `front`, the special tokens in `text` are all escaped. -/
def EscapedBehind (front text : List Char) : Prop :=
  ∀ l s, text = l ++ s → EscapedAt (front ++ l) s

/-- The special tokens in the text are all escaped. -/
def TokensEscaped (text : List Char) : Prop := EscapedBehind [] text

/-- A special token that is at the front of the content without its NULs is there as it is
written, with no NUL in it, or there is a backslash before it anyway. -/
def WrittenAt (front content : List Char) : Prop :=
  ∀ token ∈ specialTokens, asciiLower token <+: asciiLower (dropNul content) →
    token <+: content ∨ token ≠ "|>".toList ∧ front.getLast? = some '\\'

/-- The same of every place behind `front`. -/
def WrittenBehind (front content : List Char) : Prop :=
  ∀ l s, content = l ++ s → s.head? ≠ some '\x00' → WrittenAt (front ++ dropNul l) s

/-- Each special token in the content is one that is escaped, or is so already. -/
def TokensWritten (content : List Char) : Prop := WrittenBehind [] content

/-- The line begins as a message of a role. -/
def RoleLine (crates : SafetyCrates Re) (line : List Char) : Prop :=
  let trimmed := crates.to_lowercase (line.dropWhile Text.isWhitespace)
  "system:".toList <+: trimmed ∨ "user:".toList <+: trimmed ∨ "assistant:".toList <+: trimmed

/-- The output is neutralised. -/
structure Neutralised (crates : SafetyCrates Re) (output : SanitizedOutput) : Prop where
  critical : ∃ warning ∈ output.warnings, warning.severity = .critical
  no_nul : '\x00' ∉ output.content
  no_role : ∀ line ∈ output.content.splitOn '\n', ¬RoleLine crates line
  tokens : TokensEscaped output.content

/-! ### The tokens -/

/-- Two tokens do not begin at one place. -/
theorem token_unique {token other text : List Char} (htoken : token ∈ specialTokens)
    (hother : other ∈ specialTokens) (h : asciiLower token <+: asciiLower text)
    (h' : asciiLower other <+: asciiLower text) : token = other := by
  have hpairs : ∀ a ∈ specialTokens, ∀ b ∈ specialTokens, asciiLower a <+: asciiLower b →
      a = b := by decide
  rcases List.prefix_or_prefix_of_prefix h h' with hle | hle
  · exact hpairs token htoken other hother hle
  · exact (hpairs other hother token htoken hle).symm

/-- What the characters of a token are. -/
theorem token_shape {token : List Char} (h : token ∈ specialTokens) :
    asciiLower token ≠ [] ∧ '\\' ∉ asciiLower token ∧ dropNul token = token := by
  have hall : ∀ a ∈ specialTokens,
      asciiLower a ≠ [] ∧ '\\' ∉ asciiLower a ∧ dropNul a = a := by decide
  exact hall token h

/-- A character with which no token begins. -/
def NoToken (c : Char) : Prop := ∀ token ∈ specialTokens, (asciiLower token).head? ≠ some c.toLower

instance (c : Char) : Decidable (NoToken c) := inferInstanceAs (Decidable (∀ _ ∈ _, _))

theorem NoToken.escapedAt {c : Char} (h : NoToken c) (front cs : List Char) :
    EscapedAt front (c :: cs) := by
  intro token htoken hpre
  obtain ⟨d, rest, hlower⟩ := List.exists_cons_of_ne_nil (token_shape htoken).1
  rw [hlower] at hpre
  have hd : d = c.toLower := (List.cons_prefix_cons.mp hpre).1
  exact absurd (by rw [hlower, hd]; rfl) (h token htoken)

/-! ### Places one after the other -/

theorem escapedBehind_nil (front : List Char) : EscapedBehind front [] := by
  intro l s h token htoken hpre
  obtain ⟨-, rfl⟩ := List.append_eq_nil_iff.mp h.symm
  exact absurd (List.prefix_nil.mp hpre) (token_shape htoken).1

theorem escapedBehind_cons {front : List Char} {c : Char} {cs : List Char} :
    EscapedBehind front (c :: cs) ↔ EscapedAt front (c :: cs) ∧ EscapedBehind [c] cs := by
  have hlast : ∀ l : List Char, (front ++ c :: l).getLast? = ([c] ++ l).getLast? := fun l => by
    rw [List.getLast?_append, List.singleton_append, List.getLast?_cons]
    rfl
  constructor
  · intro h
    refine ⟨List.append_nil front ▸ h [] (c :: cs) rfl, fun l s hcs token htoken hpre => ?_⟩
    rw [← hlast]
    exact h (c :: l) s (by rw [hcs, List.cons_append]) token htoken hpre
  · rintro ⟨hhere, hbehind⟩ l s hcs
    rcases l with _ | ⟨d, l⟩
    · rw [List.append_nil, ← show c :: cs = s from hcs]
      exact hhere
    · obtain ⟨rfl, htail⟩ := List.cons.inj hcs
      intro token htoken hpre
      rw [hlast]
      exact hbehind l s htail token htoken hpre

instance decidableEscapedBehind : ∀ front text : List Char, Decidable (EscapedBehind front text)
  | front, [] => isTrue (escapedBehind_nil front)
  | _, c :: cs =>
    have := decidableEscapedBehind [c] cs
    decidable_of_iff' _ escapedBehind_cons

instance (text : List Char) : Decidable (TokensEscaped text) := decidableEscapedBehind [] text

theorem writtenBehind_nil (front : List Char) : WrittenBehind front [] := by
  intro l s h _ token htoken hpre
  obtain ⟨-, rfl⟩ := List.append_eq_nil_iff.mp h.symm
  exact absurd (List.prefix_nil.mp hpre) (token_shape htoken).1

theorem dropNul_cons {c : Char} (h : c ≠ '\x00') (cs : List Char) :
    dropNul (c :: cs) = c :: dropNul cs := List.filter_cons_of_pos (decide_eq_true h)

theorem dropNul_nul (cs : List Char) : dropNul ('\x00' :: cs) = dropNul cs := rfl

theorem writtenBehind_nul {front cs : List Char} :
    WrittenBehind front ('\x00' :: cs) ↔ WrittenBehind front cs := by
  constructor
  · intro h l s hcs
    have hlarger := h ('\x00' :: l) s (by rw [hcs, List.cons_append])
    rwa [dropNul_nul] at hlarger
  · intro h l s hcs hhead
    rcases l with _ | ⟨d, l⟩
    · rw [← show '\x00' :: cs = s from hcs] at hhead
      exact absurd rfl hhead
    · obtain ⟨rfl, htail⟩ := List.cons.inj hcs
      rw [dropNul_nul]
      exact h l s htail hhead

theorem writtenBehind_cons {front : List Char} {c : Char} (hc : c ≠ '\x00') {cs : List Char} :
    WrittenBehind front (c :: cs) ↔ WrittenAt front (c :: cs) ∧ WrittenBehind [c] cs := by
  have hlast : ∀ l : List Char,
      (front ++ dropNul (c :: l)).getLast? = ([c] ++ dropNul l).getLast? := fun l => by
    rw [dropNul_cons hc, List.getLast?_append, List.singleton_append, List.getLast?_cons]
    rfl
  constructor
  · intro h
    refine ⟨?_, fun l s hcs hhead token htoken hpre => ?_⟩
    · have hhere := h [] (c :: cs) rfl fun hnul => hc (Option.some.inj hnul)
      rwa [show dropNul [] = [] from rfl, List.append_nil] at hhere
    · rw [← hlast]
      exact h (c :: l) s (by rw [hcs, List.cons_append]) hhead token htoken hpre
  · rintro ⟨hhere, hbehind⟩ l s hcs hhead
    rcases l with _ | ⟨d, l⟩
    · rw [show dropNul [] = [] from rfl, List.append_nil, ← show c :: cs = s from hcs]
      exact hhere
    · obtain ⟨rfl, htail⟩ := List.cons.inj hcs
      intro token htoken hpre
      rw [hlast]
      exact hbehind l s htail hhead token htoken hpre

/-! ### The replacements -/

/-- A backslash is put in front. -/
def markedBefore (s : List Char) : Bool :=
  "<|".toList.isPrefixOf s || "[INST]".toList.isPrefixOf s || "[/INST]".toList.isPrefixOf s

/-- A backslash is put behind the first character. -/
def markedBehind (s : List Char) : Bool := "|>".toList.isPrefixOf s

/-- The content with its tokens escaped and without its NULs. -/
def escapeTokens (content : List Char) : List Char :=
  dropNul (Text.marked '\\' markedBefore markedBehind content)

/-- **The four replacements** come to one pass. -/
theorem replace_tokens (content : List Char) :
    Text.replace "[/INST]".toList "\\[/INST]".toList
      (Text.replace "[INST]".toList "\\[INST]".toList
        (Text.replace "|>".toList "|\\>".toList
          (Text.replace "<|".toList "\\<|".toList content))) =
      Text.marked '\\' markedBefore markedBehind content := by
  have hnever : ∀ {key : List Char}, ∀ v, v <:+ key → v ≠ [] → ∀ y : List Char,
      (fun _ : List Char => false) (v ++ y) = false := fun _ _ _ _ => rfl
  have hclear : ∀ {other key : List Char}, Text.ClearOf other key → ∀ v, v <:+ key → v ≠ [] →
      ∀ y : List Char, other.isPrefixOf (v ++ y) = false :=
    fun h _ hv hne y => h.isPrefixOf_append hv hne y
  -- each replacement marks its own token; the tokens never overlap
  have hopen : Text.replace "<|".toList "\\<|".toList content =
      Text.marked '\\' "<|".toList.isPrefixOf (fun _ => false) content := by
    have h := @Text.replace_marked '\\' (fun _ => false) (fun _ => false) '<' ['|'] false true
      (by decide) (by decide) hnever hnever content
    rw [Text.marked_false] at h
    exact h
  have hclose : Text.replace "|>".toList "|\\>".toList
      (Text.marked '\\' "<|".toList.isPrefixOf (fun _ => false) content) =
      Text.marked '\\' "<|".toList.isPrefixOf markedBehind content := by
    have h := @Text.replace_marked '\\' "<|".toList.isPrefixOf (fun _ => false) '|' ['>'] true false
      (by decide) (by decide) (hclear (by decide)) hnever content
    simp only [Bool.false_and, Bool.or_false] at h
    exact h
  have hinst : Text.replace "[INST]".toList "\\[INST]".toList
      (Text.marked '\\' "<|".toList.isPrefixOf markedBehind content) =
      Text.marked '\\' (fun s => "<|".toList.isPrefixOf s || "[INST]".toList.isPrefixOf s)
        markedBehind content := by
    have h := @Text.replace_marked '\\' "<|".toList.isPrefixOf markedBehind '[' "INST]".toList
      false true (by decide) (by decide) (hclear (by decide)) (hclear (by decide)) content
    simp only [Bool.false_and, Bool.or_false] at h
    exact h
  have hend : Text.replace "[/INST]".toList "\\[/INST]".toList
      (Text.marked '\\' (fun s => "<|".toList.isPrefixOf s || "[INST]".toList.isPrefixOf s)
        markedBehind content) = Text.marked '\\' markedBefore markedBehind content := by
    have h := @Text.replace_marked '\\'
      (fun s => "<|".toList.isPrefixOf s || "[INST]".toList.isPrefixOf s) markedBehind '['
      "/INST]".toList false true (by decide) (by decide)
      (fun v hv hne y => by
        rw [hclear (by decide) v hv hne, hclear (by decide) v hv hne]
        rfl)
      (hclear (by decide)) content
    simp only [Bool.false_and, Bool.or_false] at h
    exact h
  rw [hopen, hclose, hinst, hend]

theorem markedBefore_iff {s : List Char} : markedBefore s = true ↔
    ∃ token ∈ specialTokens, token ≠ "|>".toList ∧ token <+: s := by
  rw [markedBefore, Bool.or_eq_true, Bool.or_eq_true, List.isPrefixOf_iff_prefix,
    List.isPrefixOf_iff_prefix, List.isPrefixOf_iff_prefix]
  constructor
  · rintro ((h | h) | h)
    · exact ⟨_, by decide, by decide, h⟩
    · exact ⟨_, by decide, by decide, h⟩
    · exact ⟨_, by decide, by decide, h⟩
  · rintro ⟨token, htoken, hne, h⟩
    simp only [specialTokens, List.mem_cons, List.not_mem_nil, or_false] at htoken
    rcases htoken with rfl | rfl | rfl | rfl
    · exact Or.inl (Or.inl h)
    · exact absurd rfl hne
    · exact Or.inl (Or.inr h)
    · exact Or.inr h

theorem markedBehind_iff {s : List Char} : markedBehind s = true ↔ "|>".toList <+: s :=
  List.isPrefixOf_iff_prefix

/-- A token that is put behind a backslash begins with one of two characters. -/
theorem head_of_markedBefore {c : Char} {cs : List Char} (h : markedBefore (c :: cs) = true) :
    c = '<' ∨ c = '[' := by
  obtain ⟨token, htoken, hne, hpre⟩ := markedBefore_iff.mp h
  have hheads : ∀ a ∈ specialTokens, a ≠ "|>".toList → a.head? = some '<' ∨ a.head? = some '[' := by
    decide
  obtain ⟨rest, hrest⟩ := hpre
  rcases token with _ | ⟨d, token⟩
  · exact absurd htoken (by decide)
  · obtain ⟨rfl, -⟩ := List.cons.inj hrest
    rcases hheads _ htoken hne with hd | hd
    · exact Or.inl (Option.some.inj hd)
    · exact Or.inr (Option.some.inj hd)

theorem head_of_markedBehind {c : Char} {cs : List Char} (h : markedBehind (c :: cs) = true) :
    c = '|' ∧ ∃ rest, cs = '>' :: rest := by
  obtain ⟨rest, hrest⟩ := markedBehind_iff.mp h
  obtain ⟨rfl, hcs⟩ := List.cons.inj hrest
  exact ⟨rfl, rest, hcs.symm⟩

/-! ### One place of the content -/

theorem escapeTokens_cons (c : Char) (cs : List Char) : escapeTokens (c :: cs) =
    Text.mark '\\' (markedBefore (c :: cs)) ++
      dropNul (c :: Text.mark '\\' (markedBehind (c :: cs))) ++ escapeTokens cs := by
  have hmark : ∀ b : Bool, dropNul (Text.mark '\\' b) = Text.mark '\\' b := by decide
  rw [escapeTokens, Text.marked_cons, escapeTokens]
  conv_rhs => rw [← hmark]
  rw [dropNul, dropNul, dropNul, dropNul, ← List.filter_append, ← List.filter_append,
    List.append_assoc, List.cons_append]

theorem escapeTokens_nul (cs : List Char) : escapeTokens ('\x00' :: cs) = escapeTokens cs := by
  rw [escapeTokens_cons]
  rfl

/-- A NUL, a token that gets a backslash in front, one that gets it inside, or none of these. -/
theorem escapeTokens_before {c : Char} {cs : List Char} (h : markedBefore (c :: cs) = true) :
    escapeTokens (c :: cs) = '\\' :: c :: escapeTokens cs := by
  have hbehind : markedBehind (c :: cs) = false := by
    refine Bool.eq_false_iff.mpr fun hbehind => ?_
    obtain ⟨rfl, -⟩ := head_of_markedBehind hbehind
    rcases head_of_markedBefore h with hc | hc <;> exact absurd hc (by decide)
  have hnul : c ≠ '\x00' := by
    rintro rfl
    rcases head_of_markedBefore h with hc | hc <;> exact absurd hc (by decide)
  rw [escapeTokens_cons, h, hbehind, dropNul_cons hnul]
  rfl

theorem escapeTokens_plain {c : Char} {cs : List Char} (hnul : c ≠ '\x00')
    (hbefore : markedBefore (c :: cs) = false) (hbehind : markedBehind (c :: cs) = false) :
    escapeTokens (c :: cs) = c :: escapeTokens cs := by
  rw [escapeTokens_cons, hbefore, hbehind, dropNul_cons hnul]
  rfl

/-- What stands in the escaped text without a backslash stands in the content. -/
theorem prefix_of_escapeTokens {w : List Char} (hw : '\\' ∉ w) {c : Char} {cs : List Char}
    (h : w <+: asciiLower (c :: escapeTokens cs)) : w <+: asciiLower (c :: dropNul cs) := by
  have hkept : Text.Inserted '\\' (dropNul cs) (escapeTokens cs) :=
    (Text.inserted_marked cs).filter (by decide)
  exact ((hkept.cons c).map Char.toLower).prefix_text hw h

/-- The other way round, for what has no place for a backslash. -/
theorem prefix_escapeTokens {w : List Char} (hw : '<' ∉ w ∧ '[' ∉ w) (hlast : '|' ∉ w.dropLast)
    {cs : List Char} (h : w <+: asciiLower (dropNul cs)) : w <+: asciiLower (escapeTokens cs) := by
  induction cs generalizing w with
  | nil => exact h
  | cons c cs ih =>
    by_cases hnul : c = '\x00'
    · subst hnul
      rw [escapeTokens_nul]
      exact ih hw hlast h
    · rcases w with _ | ⟨d, w⟩
      · exact List.nil_prefix
      · rw [dropNul_cons hnul] at h
        obtain ⟨rfl, htail⟩ := List.cons_prefix_cons.mp h
        simp only [List.mem_cons, not_or] at hw
        have hbefore : markedBefore (c :: cs) = false := by
          refine Bool.eq_false_iff.mpr fun hbefore => ?_
          rcases head_of_markedBefore hbefore with rfl | rfl
          · exact hw.1.1 rfl
          · exact hw.2.1 rfl
        rw [escapeTokens_cons, hbefore, dropNul_cons hnul]
        refine List.cons_prefix_cons.mpr ⟨rfl, ?_⟩
        rcases w with _ | ⟨e, w⟩
        · exact List.nil_prefix
        · rw [List.dropLast_cons_of_ne_nil (List.cons_ne_nil e w), List.mem_cons, not_or] at hlast
          have hbehind : markedBehind (c :: cs) = false := by
            refine Bool.eq_false_iff.mpr fun hbehind => hlast.1 ?_
            obtain ⟨rfl, -⟩ := head_of_markedBehind hbehind
            rfl
          rw [hbehind]
          exact ih ⟨hw.1.2, hw.2.2⟩ hlast.2 htail

/-- A token that stands in the content as it is written. -/
theorem writtenAt_of_written {token content : List Char} (htoken : token ∈ specialTokens)
    (h : token <+: content) (front : List Char) : WrittenAt front content := by
  intro other hother hpre
  have hlower : asciiLower token <+: asciiLower (dropNul content) := by
    rw [← (token_shape htoken).2.2]
    exact (h.filter _).map _
  exact Or.inl (token_unique htoken hother hlower hpre ▸ h)

theorem NoToken.writtenAt {c : Char} (h : NoToken c) (hnul : c ≠ '\x00') (front cs : List Char) :
    WrittenAt front (c :: cs) := by
  intro token htoken hpre
  rw [dropNul_cons hnul] at hpre
  obtain ⟨d, rest, hlower⟩ := List.exists_cons_of_ne_nil (token_shape htoken).1
  rw [hlower] at hpre
  have hd : d = c.toLower := (List.cons_prefix_cons.mp hpre).1
  exact absurd (by rw [hlower, hd]; rfl) (h token htoken)

/-- A place at which no backslash is put. -/
theorem escapedAt_iff_writtenAt {c : Char} {cs : List Char} (hnul : c ≠ '\x00')
    (hbefore : markedBefore (c :: cs) = false) (hbehind : markedBehind (c :: cs) = false)
    (front : List Char) :
    EscapedAt front (c :: escapeTokens cs) ↔ WrittenAt front (c :: cs) := by
  have hinner : ∀ a ∈ specialTokens, ('<' ∉ (asciiLower a).tail ∧ '[' ∉ (asciiLower a).tail) ∧
      '|' ∉ (asciiLower a).tail.dropLast := by decide
  constructor
  · intro h token htoken hpre
    rw [dropNul_cons hnul] at hpre
    refine Or.inr (h token htoken ?_)
    obtain ⟨hw, hlast⟩ := hinner token htoken
    obtain ⟨d, w, hlower⟩ := List.exists_cons_of_ne_nil (token_shape htoken).1
    rw [hlower] at hpre hw hlast ⊢
    obtain ⟨hd, htail⟩ := List.cons_prefix_cons.mp hpre
    exact List.cons_prefix_cons.mpr ⟨hd, prefix_escapeTokens hw hlast htail⟩
  · intro h token htoken hpre
    have hstands := prefix_of_escapeTokens (token_shape htoken).2.1 hpre
    rw [← dropNul_cons hnul] at hstands
    rcases h token htoken hstands with hwritten | hescaped
    · -- it would have been given a backslash
      by_cases hne : token = "|>".toList
      · rw [markedBehind_iff.mpr (hne ▸ hwritten)] at hbehind
        cases hbehind
      · rw [markedBefore_iff.mpr ⟨token, htoken, hne, hwritten⟩] at hbefore
        cases hbefore
    · exact hescaped

/-- No token stands in front of a backslash with one character between. -/
theorem escapedAt_broken (front : List Char) (c : Char) (cs : List Char) :
    EscapedAt front (c :: '\\' :: cs) := by
  intro token htoken hpre
  have hlong : ∀ a ∈ specialTokens, 2 ≤ (asciiLower a).length := by decide
  have hlength := hlong token htoken
  have hfree := (token_shape htoken).2.1
  rcases hlower : asciiLower token with _ | ⟨a, _ | ⟨b, w⟩⟩
  · exact absurd hlower (token_shape htoken).1
  · rw [hlower] at hlength
    exact absurd hlength (by simp)
  · rw [hlower] at hpre hfree
    have htail := (List.cons_prefix_cons.mp hpre).2
    have hb : b = '\\' := (List.cons_prefix_cons.mp htail).1
    rw [hb] at hfree
    exact absurd (List.mem_cons_of_mem a List.mem_cons_self) hfree

/-- **The escaped text has its tokens escaped** just where the content has them written. -/
theorem escapedBehind_escapeTokens_iff (front content : List Char) :
    EscapedBehind front (escapeTokens content) ↔ WrittenBehind front content := by
  induction content generalizing front with
  | nil => exact iff_of_true (escapedBehind_nil front) (writtenBehind_nil front)
  | cons c cs ih =>
    by_cases hnul : c = '\x00'
    · subst hnul
      rw [escapeTokens_nul, writtenBehind_nul, ih]
    cases hbefore : markedBefore (c :: cs) with
    | true =>
      obtain ⟨token, htoken, hne, hpre⟩ := markedBefore_iff.mp hbefore
      have hescaped : EscapedAt ['\\'] (c :: escapeTokens cs) := by
        intro other hother hlower
        refine ⟨?_, rfl⟩
        rintro rfl
        have hc : '|' = c.toLower := (List.cons_prefix_cons.mp hlower).1
        rcases head_of_markedBefore hbefore with rfl | rfl <;> exact absurd hc (by decide)
      rw [escapeTokens_before hbefore, escapedBehind_cons, escapedBehind_cons, ih,
        writtenBehind_cons hnul]
      exact ⟨fun h => ⟨writtenAt_of_written htoken hpre front, h.2.2⟩, fun h =>
        ⟨NoToken.escapedAt (by decide) front _, hescaped, h.2⟩⟩
    | false =>
      cases hbehind : markedBehind (c :: cs) with
      | true =>
        have hpre := markedBehind_iff.mp hbehind
        obtain ⟨rfl, rest, rfl⟩ := head_of_markedBehind hbehind
        -- what is behind begins with `>`, so the character before it does not matter
        have hgt : NoToken '>' := by decide
        have hrest : ∀ other : List Char, WrittenBehind other ('>' :: rest) ↔
            WrittenBehind ['>'] rest := fun other => by
          rw [writtenBehind_cons (by decide)]
          exact and_iff_right (hgt.writtenAt (by decide) other rest)
        rw [escapeTokens_cons, hbefore, hbehind, writtenBehind_cons hnul, hrest]
        change EscapedBehind front ('|' :: '\\' :: escapeTokens ('>' :: rest)) ↔ _
        rw [escapedBehind_cons, escapedBehind_cons, ih, hrest]
        exact ⟨fun h => ⟨writtenAt_of_written (by decide) hpre front, h.2.2⟩, fun h =>
          ⟨escapedAt_broken front _ _, NoToken.escapedAt (by decide) _ _, h.2⟩⟩
      | false =>
        rw [escapeTokens_plain hnul hbefore hbehind, escapedBehind_cons, ih,
          writtenBehind_cons hnul, escapedAt_iff_writtenAt hnul hbefore hbehind]

/-! ### Lines -/

/-- A character that stands in no token and is no backslash. -/
def Foreign (d : Char) : Prop := d ≠ '\\' ∧ ∀ token ∈ specialTokens, d.toLower ∉ asciiLower token

instance (d : Char) : Decidable (Foreign d) := inferInstanceAs (Decidable (_ ∧ _))

theorem Foreign.noToken {d : Char} (h : Foreign d) : NoToken d := fun token htoken hhead =>
  h.2 token htoken (List.mem_of_head? hhead)

theorem escapedBehind_foreign {d : Char} (h : Foreign d) (text : List Char) :
    EscapedBehind [d] text ↔ TokensEscaped text := by
  rcases text with _ | ⟨c, cs⟩
  · exact iff_of_true (escapedBehind_nil _) (escapedBehind_nil _)
  · rw [TokensEscaped, escapedBehind_cons, escapedBehind_cons]
    refine and_congr_left fun _ => forall₂_congr fun token htoken => imp_congr_right fun hpre => ?_
    exact iff_of_false (fun hd => h.1 (Option.some.inj hd.2)) nofun

/-- The text falls into two at such a character. -/
theorem tokensEscaped_append {d : Char} (h : Foreign d) (front a b : List Char) :
    EscapedBehind front (a ++ d :: b) ↔ EscapedBehind front a ∧ TokensEscaped b := by
  induction a generalizing front with
  | nil =>
    rw [List.nil_append, escapedBehind_cons, escapedBehind_foreign h]
    exact ⟨fun hboth => ⟨escapedBehind_nil front, hboth.2⟩, fun hboth =>
      ⟨h.noToken.escapedAt front b, hboth.2⟩⟩
  | cons c a ih =>
    have hhere : EscapedAt front (c :: (a ++ d :: b)) ↔ EscapedAt front (c :: a) := by
      refine forall₂_congr fun token htoken => imp_congr_left ?_
      have hshape : asciiLower (c :: (a ++ d :: b)) =
          asciiLower (c :: a) ++ d.toLower :: asciiLower b := by simp [asciiLower]
      rw [hshape]
      exact Text.prefix_append_cons_iff (h.2 token htoken) _ _
    rw [List.cons_append, escapedBehind_cons, escapedBehind_cons, hhere, ih, and_assoc]

theorem tokensEscaped_intercalate (pieces : List (List Char)) :
    TokensEscaped (['\n'].intercalate pieces) ↔ ∀ piece ∈ pieces, TokensEscaped piece := by
  induction pieces with
  | nil => exact iff_of_true (escapedBehind_nil _) nofun
  | cons piece pieces ih =>
    rcases pieces with _ | ⟨next, pieces⟩
    · rw [List.intercalate_singleton, List.forall_mem_singleton]
    · rw [List.intercalate_cons_cons, List.append_assoc, List.singleton_append, TokensEscaped,
        tokensEscaped_append (by decide), ih, List.forall_mem_cons (a := piece)]
      rfl

/-- Dropping the end of a line keeps its tokens. -/
theorem tokensEscaped_chomp (line : List Char) :
    TokensEscaped (if line.getLast? = some '\r' then line.dropLast else line) ↔
      TokensEscaped line := by
  split_ifs with h
  · obtain ⟨front, rfl⟩ := List.getLast?_eq_some_iff.mp h
    rw [List.dropLast_concat, TokensEscaped, TokensEscaped,
      tokensEscaped_append (by decide)]
    exact (and_iff_left (escapedBehind_nil _)).symm
  · exact Iff.rfl

theorem tokensEscaped_lines (text : List Char) :
    (∀ line ∈ Text.lines text, TokensEscaped line) ↔ TokensEscaped text := by
  obtain ⟨pieces, last, hpieces⟩ : ∃ pieces last, text.splitOn '\n' = pieces ++ [last] :=
    ⟨_, _, (List.dropLast_append_getLast (List.splitOn_ne_nil '\n' text)).symm⟩
  have hlast : (∀ line ∈ [last].filter (· ≠ []), TokensEscaped line) ↔ TokensEscaped last := by
    rcases last with _ | ⟨c, cs⟩
    · exact iff_of_true nofun (escapedBehind_nil _)
    · exact List.forall_mem_singleton
  have htext : TokensEscaped text ↔ ∀ piece ∈ text.splitOn '\n', TokensEscaped piece := by
    rw [← tokensEscaped_intercalate, List.intercalate_splitOn]
  rw [htext, Text.lines, hpieces, List.dropLast_concat, List.getLast?_concat,
    List.forall_mem_append, List.forall_mem_append, List.forall_mem_singleton]
  refine and_congr ?_ hlast
  rw [List.forall_mem_map]
  exact forall₂_congr fun line _ => tokensEscaped_chomp line

/-! ### The whole output -/

/-- What is done to a line. -/
def escapeLine (crates : SafetyCrates Re) (line : List Char) : List Char :=
  let trimmed := crates.to_lowercase (line.dropWhile Text.isWhitespace)
  if "system:".toList.isPrefixOf trimmed ∨ "user:".toList.isPrefixOf trimmed ∨
      "assistant:".toList.isPrefixOf trimmed then "[ESCAPED] ".toList ++ line
  else line

theorem escapeContent_eq (crates : SafetyCrates Re) (content : List Char) :
    escapeContent crates content =
      ['\n'].intercalate ((Text.lines (escapeTokens content)).map (escapeLine crates)) := by
  rw [escapeContent, replace_tokens]
  rfl

/-- A line is as it was, or has a word in front. -/
theorem escapeLine_cases (crates : SafetyCrates Re) (line : List Char) :
    escapeLine crates line = "[ESCAPED] ".toList ++ line ∨
      escapeLine crates line = line ∧ ¬RoleLine crates line := by
  rw [escapeLine]
  split_ifs with h
  · exact Or.inl rfl
  · refine Or.inr ⟨rfl, ?_⟩
    simp only [List.isPrefixOf_iff_prefix] at h
    exact h

theorem tokensEscaped_escapeLine (crates : SafetyCrates Re) (line : List Char) :
    TokensEscaped (escapeLine crates line) ↔ TokensEscaped line := by
  rcases escapeLine_cases crates line with h | ⟨h, -⟩
  · have hword : EscapedBehind [] "[ESCAPED]".toList := by decide
    have hshape : "[ESCAPED] ".toList ++ line = "[ESCAPED]".toList ++ ' ' :: line := rfl
    rw [h, hshape, TokensEscaped, tokensEscaped_append (by decide)]
    exact and_iff_right hword
  · rw [h]

theorem tokensEscaped_escapeContent (crates : SafetyCrates Re) (content : List Char) :
    TokensEscaped (escapeContent crates content) ↔ TokensWritten content := by
  rw [escapeContent_eq, tokensEscaped_intercalate, List.forall_mem_map]
  simp only [tokensEscaped_escapeLine]
  rw [tokensEscaped_lines]
  exact escapedBehind_escapeTokens_iff [] content

/-- What stands in a line that is escaped. -/
theorem mem_escapeLine {crates : SafetyCrates Re} {line : List Char} {c : Char}
    (h : c ∈ escapeLine crates line) : c ∈ "[ESCAPED] ".toList ∨ c ∈ line := by
  rcases escapeLine_cases crates line with hline | ⟨hline, -⟩
  · exact List.mem_append.mp (hline ▸ h)
  · exact Or.inr (hline ▸ h)

theorem nul_not_mem_escapeContent (crates : SafetyCrates Re) (content : List Char) :
    '\x00' ∉ escapeContent crates content := by
  intro h
  rw [escapeContent_eq] at h
  rcases Text.mem_intercalate h with hc | ⟨_, hpiece, hc⟩
  · exact absurd hc (by decide)
  · obtain ⟨line, hline, rfl⟩ := List.mem_map.mp hpiece
    rcases mem_escapeLine hc with hc | hc
    · exact absurd hc (by decide)
    · have hkept := (Text.mem_lines hline).2 _ hc
      exact absurd rfl (of_decide_eq_true (List.mem_filter.mp hkept).2)

/-- No line begins as a message of a role when its first character is not that of a role. -/
theorem not_roleLine {crates : SafetyCrates Re} {line : List Char}
    (h : ∀ role ∈ ["system:".toList, "user:".toList, "assistant:".toList],
      (crates.to_lowercase (line.dropWhile Text.isWhitespace)).head? ≠ role.head?) :
    ¬RoleLine crates line := by
  have hhead : ∀ {role trimmed : List Char}, role ≠ [] → role <+: trimmed →
      trimmed.head? = role.head? := by
    intro role trimmed hne hpre
    obtain ⟨c, rest, rfl⟩ := List.exists_cons_of_ne_nil hne
    obtain ⟨back, rfl⟩ := hpre
    rfl
  rintro (hrole | hrole | hrole)
  · exact h _ (by decide) (hhead (by decide) hrole)
  · exact h _ (by decide) (hhead (by decide) hrole)
  · exact h _ (by decide) (hhead (by decide) hrole)

theorem not_roleLine_escapeLine {crates : SafetyCrates Re} (hcrates : crates.Documented)
    (line : List Char) : ¬RoleLine crates (escapeLine crates line) := by
  rcases escapeLine_cases crates line with h | ⟨h, hrole⟩
  · have hshape : (escapeLine crates line).dropWhile Text.isWhitespace =
        '[' :: ("ESCAPED] ".toList ++ line) := by
      rw [h]
      rfl
    refine not_roleLine fun role hrole => ?_
    rw [hshape, hcrates.to_lowercase_cons _ _ (by decide)]
    have hheads : ∀ r ∈ ["system:".toList, "user:".toList, "assistant:".toList],
        some '['.toLower ≠ r.head? := by decide
    exact hheads role hrole
  · rw [h]
    exact hrole

theorem not_roleLine_escapeContent {crates : SafetyCrates Re} (hcrates : crates.Documented)
    (content : List Char) :
    ∀ line ∈ (escapeContent crates content).splitOn '\n', ¬RoleLine crates line := by
  rw [escapeContent_eq]
  generalize hlines : Text.lines (escapeTokens content) = lines
  rcases lines with _ | ⟨first, rest⟩
  · intro line hline
    rw [List.map_nil, List.intercalate_nil, List.splitOn_nil, List.mem_singleton] at hline
    rw [hline]
    refine not_roleLine fun role hrole => ?_
    rw [List.dropWhile_nil, hcrates.to_lowercase_nil]
    have hheads : ∀ r ∈ ["system:".toList, "user:".toList, "assistant:".toList],
        (none : Option Char) ≠ r.head? := by decide
    exact hheads role hrole
  · have hnone : ∀ line ∈ (first :: rest).map (escapeLine crates), '\n' ∉ line := by
      intro _ hpiece hmem
      obtain ⟨line, hline, rfl⟩ := List.mem_map.mp hpiece
      rw [← hlines] at hline
      rcases mem_escapeLine hmem with hc | hc
      · exact absurd hc (by decide)
      · exact (Text.mem_lines hline).1 hc
    rw [List.splitOn_intercalate '\n' hnone (by simp)]
    intro _ hline
    obtain ⟨line, -, rfl⟩ := List.mem_map.mp hline
    exact not_roleLine_escapeLine hcrates line

/-- **What is neutralised**: content that is reported and whose tokens are written as they are
escaped. -/
theorem neutralised_iff {crates : SafetyCrates Re} (hcrates : crates.Documented)
    (content : List Char) :
    Neutralised crates ((Sanitizer.new crates.regex).sanitize crates content) ↔
      (Sanitizer.new crates.regex).Reported content ∧ TokensWritten content := by
  constructor
  · intro h
    refine ⟨(reported_iff hcrates content).mp h.critical, ?_⟩
    rw [← tokensEscaped_escapeContent crates, ← content_sanitize _ _ h.critical]
    exact h.tokens
  · rintro ⟨hreported, hwritten⟩
    have hcritical := (reported_iff hcrates content).mpr hreported
    have hcontent := content_sanitize _ _ hcritical
    exact
      { critical := hcritical
        no_nul := hcontent ▸ nul_not_mem_escapeContent crates content
        no_role := hcontent ▸ not_roleLine_escapeContent hcrates content
        tokens := hcontent ▸ (tokensEscaped_escapeContent crates content).mpr hwritten }

/-- **Content with a marker is neutralised** exactly when it is reported and its tokens are
written as they are escaped. -/
theorem marked_neutralised_iff {crates : SafetyCrates Re} (hcrates : crates.Documented)
    (content : List Char) :
    ((Sanitizer.new crates.regex).Marked content →
        Neutralised crates ((Sanitizer.new crates.regex).sanitize crates content)) ↔
      ((Sanitizer.new crates.regex).Marked content →
        (Sanitizer.new crates.regex).Reported content ∧ TokensWritten content) :=
  imp_congr_right fun _ => neutralised_iff hcrates content

/-! ### Markers that are left -/

/-- A regex that finds NULs, and nothing of the others. -/
def nulRegex : RegexCrate String where
  new pattern := pattern
  as_str re := re
  find_iter re content :=
    if re = "\\x00" then
      ((List.range content.length).filter fun i => content[i]? = some '\x00').map fun i =>
        ⟨i, i + 1⟩
    else []
  is_match _ _ := false

/-- A search by trying every place, and the lower case of ASCII letters. -/
def plainCrates : SafetyCrates String where
  regex := nulRegex
  aho needles := some (Search.search needles)
  aho_case_insensitive needles content :=
    (Search.search (needles.map asciiLower) (asciiLower content)).map fun hit =>
      ⟨hit.pattern.cast (List.length_map _), hit.start⟩
  to_lowercase := asciiLower

theorem plainCrates_documented : plainCrates.Documented where
  matcher := by
    intro needles hne content
    have hback : ((plainCrates.aho_case_insensitive needles content).map asciiLowerHit) =
        Search.search (needles.map asciiLower) (asciiLower content) := by
      change ((Search.search _ _).map _).map _ = _
      rw [List.map_map]
      exact List.map_id _
    rw [hback]
    refine Search.standardSearch_search (fun needle hneedle => ?_) _
    obtain ⟨upper, hupper, rfl⟩ := List.mem_map.mp hneedle
    exact fun h => hne upper hupper (List.map_eq_nil_iff.mp h)
  null_byte := by
    intro content
    have hfind : plainCrates.regex.find_iter (plainCrates.regex.new "\\x00") content =
        ((List.range content.length).filter fun i => content[i]? = some '\x00').map fun i =>
          ⟨i, i + 1⟩ := by simp [plainCrates, nulRegex]
    rw [hfind, List.map_eq_nil_iff, List.filter_eq_nil_iff, List.mem_iff_getElem?]
    constructor
    · rintro h ⟨i, hi⟩
      have hlt : i < content.length := (List.getElem?_eq_some_iff.mp hi).1
      exact h i (List.mem_range.mpr hlt) (decide_eq_true hi)
    · exact fun h i _ hi => h ⟨i, of_decide_eq_true hi⟩
  to_lowercase_nil := rfl
  to_lowercase_cons _ _ _ := rfl

theorem marked_neutralised_iff_plain :
    ((Sanitizer.new nulRegex).Marked "a <| b".toList →
        Neutralised plainCrates ((Sanitizer.new nulRegex).sanitize plainCrates "a <| b".toList)) ↔
      ((Sanitizer.new nulRegex).Marked "a <| b".toList →
        (Sanitizer.new nulRegex).Reported "a <| b".toList ∧ TokensWritten "a <| b".toList) :=
  marked_neutralised_iff plainCrates_documented "a <| b".toList

/-- Markers that cleaning the content leaves as they are. -/
def MarkersLeft (content : List Char) : Prop :=
  (Sanitizer.new nulRegex).Marked content ∧
    ¬Neutralised plainCrates ((Sanitizer.new nulRegex).sanitize plainCrates content)

/-- Small letters, a NUL inside a token, and a marker behind another one. -/
theorem markers_left : MarkersLeft "[inst]".toList ∧ MarkersLeft "<\x00|".toList ∧
    MarkersLeft "```system:".toList := by
  have hinst : ((Sanitizer.new nulRegex).sanitize plainCrates "[inst]".toList).content =
      "[inst]".toList := by decide +kernel
  have hnul : ((Sanitizer.new nulRegex).sanitize plainCrates "<\x00|".toList).content =
      "<|".toList := by decide +kernel
  have hsystem : ((Sanitizer.new nulRegex).sanitize plainCrates
      "```system:".toList).warnings.all (·.severity = .high) = true := by decide +kernel
  refine ⟨⟨Or.inr (by decide), fun h => ?_⟩, ⟨Or.inl (by decide), fun h => ?_⟩,
    Or.inr (by decide), fun h => ?_⟩
  · have htokens := h.tokens
    rw [hinst] at htokens
    exact absurd htokens (by decide)
  · have htokens := h.tokens
    rw [hnul] at htokens
    exact absurd htokens (by decide)
  · obtain ⟨warning, hwarning, hcritical⟩ := h.critical
    have hhigh := of_decide_eq_true (List.all_eq_true.mp hsystem warning hwarning)
    rw [hhigh] at hcritical
    cases hcritical

end T3Claw.Safety.Sanitizer
