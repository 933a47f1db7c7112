import Mathlib.Data.List.DropRight
import T3Claw.Data.Split
import T3Claw.Data.Text

/-!
# Syncing the profile into `USER.md`

`merge_profile_section` of `workspace/mod.rs`: the generated profile is put between two markers,
in place of the section that is there; a document with the old header, or one that looks like the
seed template, is replaced; to any other the section is appended.

What the user wrote is kept line by line, outside the one section, exactly if the document is not
taken for a template, has no marker of its own that a section could begin with, and no profile text
has the marker that a section ends with (`profile_sync_iff`). A template that the user has filled
in is taken for a template (`filled_in_lost`).
-/

namespace T3Claw.Workspace.ProfileSync

open T3Claw.Split

/-- `PROFILE_SECTION_BEGIN`. -/
def PROFILE_SECTION_BEGIN : List Char := "<!-- BEGIN:profile-sync -->".toList

/-- `PROFILE_SECTION_END`. -/
def PROFILE_SECTION_END : List Char := "<!-- END:profile-sync -->".toList

/-- What an old generated document starts with. -/
def OLD_HEADER : List Char := "<!-- Auto-generated from context/profile.json".toList

/-- `str::trim_end`. -/
def trimEnd (cs : List Char) : List Char := cs.rdropWhile Text.isWhitespace

/-- `wrap_profile_section`. -/
def wrapProfileSection (content : List Char) : List Char :=
  PROFILE_SECTION_BEGIN ++ '\n' :: content ++ '\n' :: PROFILE_SECTION_END

/-- `is_seed_template`. -/
def isSeedTemplate (content : List Char) : Bool :=
  let trimmed := Text.trim content
  "# User Context".toList.isPrefixOf trimmed && Text.contains "- **Name:**".toList trimmed

/-- The text in front of a section, and behind it. -/
def sectionAt (existing : List Char) : Option (List Char × List Char) :=
  match cut? PROFILE_SECTION_BEGIN existing with
  | none => none
  | some (front, rest) =>
    (cut? PROFILE_SECTION_END (PROFILE_SECTION_BEGIN ++ rest)).map fun parts => (front, parts.2)

/-- `merge_profile_section`. -/
def mergeProfileSection (existing new_content : List Char) : List Char :=
  let delimited := wrapProfileSection new_content
  match sectionAt existing with
  | some (front, back) => front ++ delimited ++ back
  | none =>
    if OLD_HEADER.isPrefixOf existing then delimited
    else if isSeedTemplate existing then delimited
    else
      let trimmed := trimEnd existing
      if trimmed.isEmpty then delimited else trimmed ++ "\n\n".toList ++ delimited

/-! ### What is promised -/

/-- A line of a text. -/
def IsLine (line text : List Char) : Prop :=
  ∃ front back, text = front ++ line ++ back ∧ '\n' ∉ line ∧
    (front = [] ∨ front.getLast? = some '\n') ∧ (back = [] ∨ back.head? = some '\n')

/-- The text outside the section. -/
def outsideParts (content : List Char) : List (List Char) :=
  match sectionAt content with
  | some (front, back) => [front, back]
  | none => [content]

/-- A document, and lines that the user wrote into it. -/
structure UserFile where
  content : List Char
  authored : List (List Char)
  authored_ne_nil : authored ≠ []
  outside : ∀ line ∈ authored, ∃ part ∈ outsideParts content, IsLine line part
  not_blank : ∀ line ∈ authored, trimEnd line ≠ []

/-- A line is still outside the section, but for white space at its end. -/
def LineKept (line content : List Char) : Prop :=
  ∃ part ∈ outsideParts content, ∃ line', IsLine line' part ∧ trimEnd line' = trimEnd line

/-- There is a section, of the text, and no other. -/
def OneSection (text content : List Char) : Prop :=
  ∃ front back, content = front ++ wrapProfileSection text ++ back ∧
    sectionAt content = some (front, back) ∧ sectionAt back = none

/-- After each merge the user's lines are kept, the section is the last text's, and merging this
text once more makes no difference. -/
def SyncKeeps (file : UserFile) (texts : List (List Char)) : Prop :=
  ∀ earlier text, earlier ++ [text] <+: texts →
    (∀ line ∈ file.authored,
      LineKept line ((earlier ++ [text]).foldl mergeProfileSection file.content)) ∧
    OneSection text ((earlier ++ [text]).foldl mergeProfileSection file.content) ∧
    mergeProfileSection ((earlier ++ [text]).foldl mergeProfileSection file.content) text =
      (earlier ++ [text]).foldl mergeProfileSection file.content

/-- No text ends the section early, and the document is not taken for a template and has no
marker that a second section could begin with. -/
def SyncSafe (existing : List Char) (texts : List (List Char)) : Prop :=
  (∀ text ∈ texts, ¬PROFILE_SECTION_END <:+: text) ∧
    match sectionAt existing with
    | some (_, back) => sectionAt back = none
    | none => OLD_HEADER.isPrefixOf existing = false ∧ isSeedTemplate existing = false ∧
      ¬PROFILE_SECTION_BEGIN <:+: existing

/-! ### The markers -/

theorem cut?_begin {front : List Char} (h : ¬PROFILE_SECTION_BEGIN <:+: front)
    (back : List Char) :
    cut? PROFILE_SECTION_BEGIN (front ++ (PROFILE_SECTION_BEGIN ++ back)) = some (front, back) :=
  cut?_of_not_infix (by decide) h back

theorem cut?_end {front : List Char} (h : ¬PROFILE_SECTION_END <:+: front)
    (back : List Char) :
    cut? PROFILE_SECTION_END (front ++ (PROFILE_SECTION_END ++ back)) = some (front, back) :=
  cut?_of_not_infix (by decide) h back

/-- A section ends where it should, unless its text has the marker. -/
theorem end_infix_iff (text : List Char) :
    PROFILE_SECTION_END <:+: PROFILE_SECTION_BEGIN ++ '\n' :: text ++ ['\n'] ↔
      PROFILE_SECTION_END <:+: text := by
  have hend : '\n' ∉ PROFILE_SECTION_END := by decide
  have hbegin : ¬PROFILE_SECTION_END <:+: PROFILE_SECTION_BEGIN := by decide
  have hnil : ¬PROFILE_SECTION_END <:+: [] := by decide
  rw [infix_append_cons_iff hend, infix_append_cons_iff hend]
  simp only [hbegin, hnil, false_or, or_false]

theorem wrap_append (text back : List Char) :
    wrapProfileSection text ++ back =
      PROFILE_SECTION_BEGIN ++ '\n' :: text ++ ['\n'] ++ (PROFILE_SECTION_END ++ back) := by
  simp [wrapProfileSection]

/-- A section is found where it is, behind a text in which none begins. -/
theorem sectionAt_append {front inside : List Char} (hfront : ¬PROFILE_SECTION_BEGIN <:+: front)
    (hinside : ¬PROFILE_SECTION_END <:+: PROFILE_SECTION_BEGIN ++ inside) (back : List Char) :
    sectionAt (front ++ (PROFILE_SECTION_BEGIN ++ (inside ++ (PROFILE_SECTION_END ++ back)))) =
      some (front, back) := by
  rw [sectionAt, cut?_begin hfront]
  simp only
  rw [← List.append_assoc, cut?_end hinside]
  rfl

theorem sectionAt_wrapped {front text : List Char} (hfront : ¬PROFILE_SECTION_BEGIN <:+: front)
    (htext : ¬PROFILE_SECTION_END <:+: text) (back : List Char) :
    sectionAt (front ++ wrapProfileSection text ++ back) = some (front, back) := by
  have hinside : ¬PROFILE_SECTION_END <:+:
      PROFILE_SECTION_BEGIN ++ ('\n' :: text ++ ['\n']) := by
    rw [← List.append_assoc]
    exact mt (end_infix_iff text).mp htext
  rw [← sectionAt_append hfront hinside back, List.append_assoc, wrap_append]
  simp only [List.append_assoc, List.cons_append]

/-- What a section that is found says about a document. -/
theorem sectionAt_eq_some {existing front back : List Char}
    (h : sectionAt existing = some (front, back)) :
    ¬PROFILE_SECTION_BEGIN <:+: front ∧ ∃ rest inside, existing =
      front ++ (PROFILE_SECTION_BEGIN ++ rest) ∧
        PROFILE_SECTION_BEGIN ++ rest = inside ++ (PROFILE_SECTION_END ++ back) ∧
        ¬PROFILE_SECTION_END <:+: inside := by
  rw [sectionAt] at h
  cases hcut : cut? PROFILE_SECTION_BEGIN existing with
  | none => simp [hcut] at h
  | some parts =>
    obtain ⟨found, rest⟩ := parts
    simp only [hcut, Option.map_eq_some_iff] at h
    obtain ⟨⟨inside, found_back⟩, hend, heq⟩ := h
    obtain ⟨rfl, rfl⟩ := Prod.mk.inj heq
    refine ⟨not_infix_of_cut? (by decide) hcut, rest, inside, ?_, ?_,
      not_infix_of_cut? (by decide) hend⟩
    · rw [cut?_eq_some hcut, List.append_assoc]
    · rw [cut?_eq_some hend, List.append_assoc]

/-- A section that is found whole has a text that does not end it. -/
theorem not_infix_of_sectionAt {front text back : List Char}
    (h : sectionAt (front ++ wrapProfileSection text ++ back) = some (front, back)) :
    ¬PROFILE_SECTION_END <:+: text := by
  obtain ⟨-, rest, inside, hexisting, hinside, hnot⟩ := sectionAt_eq_some h
  rw [List.append_assoc, List.append_cancel_left_eq] at hexisting
  rw [← hexisting, wrap_append, List.append_cancel_right_eq] at hinside
  exact fun htext => hnot (hinside ▸ (end_infix_iff text).mpr htext)

/-! ### A merge -/

theorem merge_of_section {existing front back : List Char}
    (h : sectionAt existing = some (front, back)) (text : List Char) :
    mergeProfileSection existing text = front ++ wrapProfileSection text ++ back := by
  rw [mergeProfileSection, h]

theorem merge_of_template {existing : List Char} (h : sectionAt existing = none)
    (htemplate : OLD_HEADER.isPrefixOf existing = true ∨ isSeedTemplate existing = true)
    (text : List Char) : mergeProfileSection existing text = wrapProfileSection text := by
  rw [mergeProfileSection, h]
  obtain hold | hseed := htemplate
  · rw [if_pos hold]
  · simp only [hseed, if_true, ite_self]

theorem merge_of_text {existing : List Char} (h : sectionAt existing = none)
    (hold : OLD_HEADER.isPrefixOf existing = false) (hseed : isSeedTemplate existing = false)
    (hne : trimEnd existing ≠ []) (text : List Char) :
    mergeProfileSection existing text =
      trimEnd existing ++ "\n\n".toList ++ wrapProfileSection text := by
  rw [mergeProfileSection, h]
  simp only [hold, hseed, Bool.false_eq_true, if_false, List.isEmpty_iff, hne]

/-! ### Lines -/

theorem trimEnd_isPrefix (cs : List Char) : trimEnd cs <+: cs := List.rdropWhile_prefix _ cs

theorem trimEnd_append_of_ne {front back : List Char} (h : trimEnd back ≠ []) :
    trimEnd (front ++ back) = front ++ trimEnd back := by
  induction back using List.reverseRecOn with
  | nil => exact absurd rfl h
  | append_singleton back c ih =>
    rw [trimEnd, List.rdropWhile_concat] at h
    rw [trimEnd, trimEnd, ← List.append_assoc, List.rdropWhile_concat, List.rdropWhile_concat]
    split_ifs at h ⊢ with hspace
    · exact ih h
    · exact List.append_assoc front back [c]

theorem trimEnd_append_of_eq (front : List Char) {back : List Char} (h : trimEnd back = []) :
    trimEnd (front ++ back) = trimEnd front := by
  induction back using List.reverseRecOn with
  | nil => rw [List.append_nil]
  | append_singleton back c ih =>
    rw [trimEnd, List.rdropWhile_concat] at h
    split_ifs at h with hspace
    · rw [trimEnd, ← List.append_assoc, List.rdropWhile_concat_pos _ _ _ hspace]
      exact ih h
    · simp at h

/-- Lines that are not blank are left when the end of a text is trimmed. -/
theorem exists_line_trimmed {line text : List Char} (h : IsLine line text)
    (hblank : trimEnd line ≠ []) :
    ∃ line', IsLine line' (trimEnd text ++ "\n\n".toList) ∧ trimEnd line' = trimEnd line := by
  obtain ⟨front, back, rfl, hline, hfront, hback⟩ := h
  by_cases hend : trimEnd back = []
  · -- it is the last line
    refine ⟨trimEnd line, ⟨front, "\n\n".toList, ?_, ?_, hfront, .inr rfl⟩,
      List.rdropWhile_idempotent _ _⟩
    · rw [trimEnd_append_of_eq _ hend, trimEnd_append_of_ne hblank]
    · exact fun hmem => hline ((trimEnd_isPrefix line).subset hmem)
  · refine ⟨line, ⟨front, trimEnd back ++ "\n\n".toList, ?_, hline, hfront, .inr ?_⟩, rfl⟩
    · rw [trimEnd_append_of_ne hend, List.append_assoc]
    · obtain rfl | hhead := hback
      · exact absurd rfl hend
      · obtain ⟨rest, hrest⟩ : trimEnd back <+: back := trimEnd_isPrefix back
        obtain ⟨c, cs, heq⟩ := List.exists_cons_of_ne_nil hend
        rw [← hrest, heq] at hhead
        rwa [heq]

theorem trimEnd_ne_nil {line text : List Char} (h : IsLine line text)
    (hblank : trimEnd line ≠ []) : trimEnd text ≠ [] := by
  obtain ⟨front, back, rfl, -, -, -⟩ := h
  by_cases hend : trimEnd back = []
  · rw [trimEnd_append_of_eq _ hend, trimEnd_append_of_ne hblank]
    exact fun hnil => hblank (List.append_eq_nil_iff.mp hnil).2
  · rw [trimEnd_append_of_ne hend]
    exact fun hnil => hend (List.append_eq_nil_iff.mp hnil).2

/-! ### Merging again and again -/

/-- The text in front of the section and behind it, once there is one. -/
def userParts (existing : List Char) : List Char × List Char :=
  (sectionAt existing).getD (trimEnd existing ++ "\n\n".toList, [])

section

variable {existing : List Char} {texts : List (List Char)}

theorem begin_not_infix_append (h : ¬PROFILE_SECTION_BEGIN <:+: existing) :
    ¬PROFILE_SECTION_BEGIN <:+: trimEnd existing ++ "\n\n".toList := by
  have hline : '\n' ∉ PROFILE_SECTION_BEGIN := by decide
  have hnil : ¬PROFILE_SECTION_BEGIN <:+: [] := by decide
  have htrimmed : ¬PROFILE_SECTION_BEGIN <:+: trimEnd existing := fun hin =>
    h (hin.trans (trimEnd_isPrefix existing).isInfix)
  change ¬PROFILE_SECTION_BEGIN <:+: trimEnd existing ++ '\n' :: ([] ++ '\n' :: [])
  rw [infix_append_cons_iff hline, infix_append_cons_iff hline]
  simp only [htrimmed, hnil, or_self, not_false_eq_true]

/-- A merge puts the section between the user's parts. -/
theorem merge_of_safe (h : SyncSafe existing texts)
    (hne : sectionAt existing = none → trimEnd existing ≠ []) (text : List Char) :
    mergeProfileSection existing text =
      (userParts existing).1 ++ wrapProfileSection text ++ (userParts existing).2 := by
  have hsafe := h.2
  rw [userParts]
  cases hsection : sectionAt existing with
  | some parts => exact merge_of_section hsection text
  | none =>
    rw [hsection] at hsafe
    rw [merge_of_text hsection hsafe.1 hsafe.2.1 (hne hsection)]
    exact (List.append_nil _).symm

theorem begin_not_infix_userParts (h : SyncSafe existing texts) :
    ¬PROFILE_SECTION_BEGIN <:+: (userParts existing).1 := by
  have hsafe := h.2
  rw [userParts]
  cases hsection : sectionAt existing with
  | some parts => exact (sectionAt_eq_some hsection).1
  | none =>
    rw [hsection] at hsafe
    exact begin_not_infix_append hsafe.2.2

theorem sectionAt_userParts (h : SyncSafe existing texts) :
    sectionAt (userParts existing).2 = none := by
  have hsafe := h.2
  rw [userParts]
  cases hsection : sectionAt existing with
  | some parts =>
    rw [hsection] at hsafe
    exact hsafe
  | none => rfl

/-- **Merges leave the last text's section** between the user's parts. -/
theorem foldl_merge (h : SyncSafe existing texts)
    (hne : sectionAt existing = none → trimEnd existing ≠ [])
    {earlier : List (List Char)} (hearlier : ∀ text ∈ earlier, ¬PROFILE_SECTION_END <:+: text)
    (text : List Char) :
    (earlier ++ [text]).foldl mergeProfileSection existing =
      (userParts existing).1 ++ wrapProfileSection text ++ (userParts existing).2 := by
  induction earlier using List.reverseRecOn generalizing text with
  | nil => exact merge_of_safe h hne text
  | append_singleton earlier last ih =>
    have hlast := hearlier last (List.mem_append_right _ List.mem_cons_self)
    rw [List.foldl_append, ih fun text htext => hearlier text (List.mem_append_left _ htext)]
    exact merge_of_section (sectionAt_wrapped (begin_not_infix_userParts h) hlast _) text

end

/-- Where no section is, there is a line that is not blank. -/
theorem UserFile.trimEnd_content (file : UserFile) (h : sectionAt file.content = none) :
    trimEnd file.content ≠ [] := by
  obtain ⟨line, rest, heq⟩ := List.exists_cons_of_ne_nil file.authored_ne_nil
  have hline : line ∈ file.authored := heq ▸ List.mem_cons_self
  obtain ⟨part, hpart, hof⟩ := file.outside line hline
  rw [outsideParts, h] at hpart
  obtain rfl := List.mem_singleton.mp hpart
  exact trimEnd_ne_nil hof (file.not_blank line hline)

/-- A line of the user is in one of the user's parts. -/
theorem UserFile.mem_userParts (file : UserFile) {line : List Char}
    (hline : line ∈ file.authored) :
    ∃ part ∈ [(userParts file.content).1, (userParts file.content).2], ∃ line',
      IsLine line' part ∧ trimEnd line' = trimEnd line := by
  obtain ⟨part, hpart, hof⟩ := file.outside line hline
  rw [outsideParts] at hpart
  rw [userParts]
  cases hsection : sectionAt file.content with
  | some parts =>
    rw [hsection] at hpart
    exact ⟨part, hpart, line, hof, rfl⟩
  | none =>
    rw [hsection] at hpart
    obtain rfl := List.mem_singleton.mp hpart
    obtain ⟨line', hof', heq⟩ := exists_line_trimmed hof (file.not_blank line hline)
    exact ⟨_, List.mem_cons_self, line', hof', heq⟩

/-- **Enough for the user's text to be kept.** -/
theorem syncKeeps_of_safe {file : UserFile} {texts : List (List Char)}
    (h : SyncSafe file.content texts) : SyncKeeps file texts := by
  intro earlier text htexts
  have hend : ∀ other ∈ earlier ++ [text], ¬PROFILE_SECTION_END <:+: other :=
    fun other hother => h.1 other (htexts.subset hother)
  have hsection := sectionAt_wrapped (begin_not_infix_userParts h)
    (hend text (List.mem_append_right _ List.mem_cons_self)) (userParts file.content).2
  rw [foldl_merge h file.trimEnd_content fun other hother =>
    hend other (List.mem_append_left _ hother)]
  refine ⟨fun line hline => ?_, ⟨_, _, rfl, hsection, sectionAt_userParts h⟩,
    merge_of_section hsection text⟩
  rw [LineKept, outsideParts, hsection]
  exact file.mem_userParts hline

/-! ### When it is not -/

section

variable {file : UserFile}

/-- A template is replaced, with all that the user wrote into it. -/
theorem not_lineKept_wrapped {text line : List Char} (htext : ¬PROFILE_SECTION_END <:+: text)
    (hblank : trimEnd line ≠ []) : ¬LineKept line (wrapProfileSection text) := by
  have hsection : sectionAt ([] ++ wrapProfileSection text ++ []) = some ([], []) :=
    sectionAt_wrapped (by decide) htext []
  rw [List.nil_append, List.append_nil] at hsection
  rintro ⟨part, hpart, line', ⟨front, back, hparts, -⟩, heq⟩
  rw [outsideParts, hsection] at hpart
  have hnil : part = [] := by simpa using hpart
  rw [hnil] at hparts
  obtain rfl : line' = [] := (List.append_eq_nil_iff.mp
    (List.append_eq_nil_iff.mp hparts.symm).1).2
  exact hblank heq.symm

theorem trimEnd_append_begin (front back : List Char) :
    trimEnd (front ++ PROFILE_SECTION_BEGIN ++ back) =
      front ++ PROFILE_SECTION_BEGIN ++ trimEnd back := by
  have hbegin : trimEnd PROFILE_SECTION_BEGIN = PROFILE_SECTION_BEGIN := by decide
  by_cases hend : trimEnd back = []
  · rw [trimEnd_append_of_eq _ hend, hend, List.append_nil,
      trimEnd_append_of_ne (by rw [hbegin]; decide), hbegin]
  · exact trimEnd_append_of_ne hend

/-- A marker of the user's own begins a section that is not the text's. -/
theorem not_oneSection_of_begin {existing text : List Char} (hnone : sectionAt existing = none)
    (hbegin : PROFILE_SECTION_BEGIN <:+: existing) (htext : ¬PROFILE_SECTION_END <:+: text) :
    ¬OneSection text (trimEnd existing ++ "\n\n".toList ++ wrapProfileSection text) := by
  rintro ⟨front, back, hcontent, hsection, -⟩
  have hline : '\n' ∉ PROFILE_SECTION_END := by decide
  have hnil : ¬PROFILE_SECTION_END <:+: [] := by decide
  -- the first marker of the user's, and no end behind it
  cases hcut : cut? PROFILE_SECTION_BEGIN existing with
  | none => exact cut?_eq_none.mp hcut hbegin
  | some parts =>
    obtain ⟨first, rest⟩ := parts
    have hend : ¬PROFILE_SECTION_END <:+: PROFILE_SECTION_BEGIN ++ rest := by
      rw [sectionAt, hcut] at hnone
      exact cut?_eq_none.mp (Option.map_eq_none_iff.mp hnone)
    have htrimmed : trimEnd existing = first ++ PROFILE_SECTION_BEGIN ++ trimEnd rest := by
      rw [cut?_eq_some hcut, trimEnd_append_begin]
    have hbefore : ¬PROFILE_SECTION_END <:+: PROFILE_SECTION_BEGIN ++ trimEnd rest ++
        '\n' :: ([] ++ '\n' :: (PROFILE_SECTION_BEGIN ++ '\n' :: text ++ ['\n'])) := by
      rw [infix_append_cons_iff hline, infix_append_cons_iff hline, end_infix_iff]
      simp only [hnil, htext, or_false]
      exact fun hin => hend (hin.trans
        ((List.prefix_append_right_inj _).mpr (trimEnd_isPrefix rest)).isInfix)
    have hfound : sectionAt (trimEnd existing ++ "\n\n".toList ++ wrapProfileSection text) =
        some (first, []) := by
      rw [← sectionAt_append (not_infix_of_cut? (by decide) hcut)
        (List.append_assoc PROFILE_SECTION_BEGIN _ _ ▸ hbefore) [], htrimmed]
      simp [wrapProfileSection]
    rw [hfound] at hsection
    obtain ⟨rfl, rfl⟩ := Prod.mk.inj (Option.some.inj hsection)
    have hlength := congrArg List.length hcontent
    rw [htrimmed] at hlength
    simp only [List.length_append, List.length_nil] at hlength
    have hmarker : PROFILE_SECTION_BEGIN.length = 27 := by decide
    omega

/-- **And necessary**, once there is a merge. -/
theorem safe_of_syncKeeps {texts : List (List Char)} (hne : texts ≠ [])
    (h : SyncKeeps file texts) : SyncSafe file.content texts := by
  have hend : ∀ text ∈ texts, ¬PROFILE_SECTION_END <:+: text := by
    intro text htext
    obtain ⟨earlier, later, rfl⟩ := List.append_of_mem htext
    obtain ⟨-, ⟨front, back, hcontent, hsection, -⟩, -⟩ := h earlier text ⟨later, by simp⟩
    rw [hcontent] at hsection
    exact not_infix_of_sectionAt hsection
  refine ⟨hend, ?_⟩
  obtain ⟨text, rest, rfl⟩ := List.exists_cons_of_ne_nil hne
  have htext := hend text List.mem_cons_self
  obtain ⟨hkept, hone, -⟩ := h [] text ⟨rest, rfl⟩
  have hone : OneSection text (mergeProfileSection file.content text) := hone
  have hkept : ∀ line ∈ file.authored,
      LineKept line (mergeProfileSection file.content text) := hkept
  obtain ⟨line, more, heq⟩ := List.exists_cons_of_ne_nil file.authored_ne_nil
  have hline : line ∈ file.authored := heq ▸ List.mem_cons_self
  cases hsection : sectionAt file.content with
  | some parts =>
    -- the section is the only one
    rw [merge_of_section hsection] at hone
    obtain ⟨front, back, -, hfound, hback⟩ := hone
    rw [sectionAt_wrapped (sectionAt_eq_some hsection).1 htext] at hfound
    obtain ⟨-, rfl⟩ := Prod.mk.inj (Option.some.inj hfound)
    exact hback
  | none =>
    have htemplate : ¬(OLD_HEADER.isPrefixOf file.content = true ∨
        isSeedTemplate file.content = true) := fun htemplate =>
      not_lineKept_wrapped htext (file.not_blank line hline)
        (merge_of_template hsection htemplate text ▸ hkept line hline)
    obtain ⟨hold, hseed⟩ := not_or.mp htemplate
    rw [Bool.not_eq_true] at hold hseed
    refine ⟨hold, hseed, fun hbegin => not_oneSection_of_begin hsection hbegin htext ?_⟩
    rwa [merge_of_text hsection hold hseed (file.trimEnd_content hsection)] at hone

end

/-- **The user's text is kept** by one merge after the other exactly if the document is not taken
for a template and no marker is in the wrong place. -/
theorem profile_sync_iff (file : UserFile) {texts : List (List Char)} (hne : texts ≠ []) :
    SyncKeeps file texts ↔ SyncSafe file.content texts :=
  ⟨safe_of_syncKeeps hne, syncKeeps_of_safe⟩

/-- A document of a single line. -/
def notesFile : UserFile where
  content := "Call me Al.".toList
  authored := ["Call me Al.".toList]
  authored_ne_nil := by decide
  outside line hline := by
    obtain rfl := List.mem_singleton.mp hline
    exact ⟨_, List.mem_cons_self, [], [], rfl, by decide, .inl rfl, .inl rfl⟩
  not_blank := by decide

theorem notes_kept : SyncKeeps notesFile ["Tone: warm".toList, "Tone: dry".toList] := by
  refine (profile_sync_iff notesFile (by decide)).mpr ⟨by decide, ?_⟩
  have hnone : sectionAt notesFile.content = none := by decide
  rw [hnone]
  decide

/-- The seed template, filled in. -/
def filledTemplate : UserFile where
  content := "# User Context\n\n- **Name:** Al\n".toList
  authored := ["- **Name:** Al".toList]
  authored_ne_nil := by decide
  outside line hline := by
    obtain rfl := List.mem_singleton.mp hline
    exact ⟨_, List.mem_cons_self, "# User Context\n\n".toList, ['\n'], rfl, by decide,
      .inr (by decide), .inr rfl⟩
  not_blank := by decide

/-- What the user has filled in is gone after the first merge. -/
theorem filled_in_lost : ¬SyncKeeps filledTemplate ["Tone: warm".toList] := by
  intro h
  have hkept := (h [] "Tone: warm".toList (List.prefix_refl _)).1 "- **Name:** Al".toList
    List.mem_cons_self
  have hmerge : mergeProfileSection filledTemplate.content "Tone: warm".toList =
      wrapProfileSection "Tone: warm".toList :=
    merge_of_template (by decide) (.inr (by decide)) _
  rw [List.nil_append, List.foldl_cons, List.foldl_nil, hmerge] at hkept
  exact not_lineKept_wrapped (by decide) (by decide) hkept

end T3Claw.Workspace.ProfileSync
