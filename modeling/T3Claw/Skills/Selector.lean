import Mathlib.Data.List.DropRight
import Mathlib.Data.List.Sort
import T3Claw.Skills.Registry

/-!
# Selecting skills

`selector.rs`: skills are scored against a message and taken greedily, in order of their scores,
while there are slots and tokens left. A skill that is taken in its turn brings the companions it
requires with it; these use the same slots and the same tokens, whatever they score themselves.

`attempts` is the trace of a selection: each skill that is tried, with the selection at that
time. A companion that has a score of its own is tried again in its turn, found selected, and
passed over together with its own companions, so that the selection keeps its promise about
companions exactly when none is lost in this way (`selection_correct_iff`).
-/

namespace T3Claw.Skills

def MAX_KEYWORD_SCORE : ℕ := 30
def MAX_TAG_SCORE : ℕ := 15
def MAX_REGEX_SCORE : ℕ := 40

/-- What scoring uses of Unicode and of regular expressions. -/
structure SelectorHost where
  lowercase : String → String
  is_alphanumeric : Char → Bool
  is_match : String → String → Bool

/-- `score_skill`. -/
def scoreSkill (host : SelectorHost) (skill : LoadedSkill)
    (message_lower message_original : String) : ℕ :=
  let message := message_lower.toList
  -- an excluded keyword is a veto
  if skill.lowercased_exclude_keywords.any fun excl => Text.contains excl.toList message then 0
  else
    let isSeparator := fun c => !host.is_alphanumeric c
    let words := (Text.splitWhitespace message).map fun word =>
      (word.dropWhile isSeparator).rdropWhile isSeparator
    let keyword_score := (skill.lowercased_keywords.map fun kw_lower =>
      if kw_lower.toList ∈ words then 10
      else if Text.contains kw_lower.toList message then 5
      else 0).sum
    let tag_score := (skill.lowercased_tags.map fun tag_lower =>
      if Text.contains tag_lower.toList message then 3 else 0).sum
    let regex_score := (skill.compiled_patterns.map fun re =>
      if host.is_match re message_original then 20 else 0).sum
    min keyword_score MAX_KEYWORD_SCORE + min tag_score MAX_TAG_SCORE +
      min regex_score MAX_REGEX_SCORE

/-- `skill_token_cost`. -/
def skillTokenCost (skill : LoadedSkill) : ℕ :=
  let declared_tokens := skill.manifest.activation.max_context_tokens
  let approx_tokens := skill.prompt_content.utf8ByteSize / 4
  -- doubling a declaration wraps around
  let raw_cost := if declared_tokens * 2 % 2 ^ 64 < approx_tokens then approx_tokens
    else declared_tokens
  max raw_cost 1

/-- The limits of a selection. -/
structure SelectionLimits where
  max_candidates : ℕ
  max_context_tokens : ℕ
  satisfied_setup_markers : List String

/-- `TrySelectOutcome`. -/
inductive TrySelectOutcome where
  | selected
  | alreadySelected
  | candidateLimit
  | markerSatisfied
  | budgetFull
  deriving DecidableEq

/-- What a selection keeps while it goes on. -/
structure Selection where
  result : List LoadedSkill
  selected_names : List String
  budget_remaining : ℕ
  notes : List String

/-- `ScoredSkill`. -/
structure ScoredSkill where
  skill : LoadedSkill
  score : ℕ

/-- Another note. -/
def Selection.note (s : Selection) (text : String) : Selection :=
  { s with notes := s.notes ++ [text] }

/-- A skill more. -/
def Selection.push (s : Selection) (skill : LoadedSkill) : Selection :=
  { s with
    result := s.result ++ [skill]
    selected_names := skill.manifest.name :: s.selected_names
    budget_remaining := s.budget_remaining - skillTokenCost skill }

section

variable (limits : SelectionLimits)

/-- The skill's setup is complete. -/
def isSetUp (skill : LoadedSkill) : Bool :=
  skill.manifest.activation.setup_marker.any fun marker =>
    limits.satisfied_setup_markers.contains marker

/-- `try_select`. -/
def trySelect (skill : LoadedSkill) (s : Selection) : TrySelectOutcome × Selection :=
  if limits.max_candidates ≤ s.result.length then (.candidateLimit, s)
  else if skill.manifest.name ∈ s.selected_names then (.alreadySelected, s)
  else if isSetUp limits skill then (.markerSatisfied, s)
  else if s.budget_remaining < skillTokenCost skill then (.budgetFull, s)
  else (.selected, s.push skill)

/-- What is noted of a companion. -/
def companionNote (companion_name parent_name : String) : TrySelectOutcome → Option String
  | .selected => some (companion_name ++ ": chain-loaded from " ++ parent_name)
  | .budgetFull => some (companion_name ++ ": chain-load skipped (budget full)")
  | .candidateLimit => some (companion_name ++ ": chain-load skipped (max active skills reached)")
  | .markerSatisfied => some (companion_name ++ ": chain-load skipped (setup already complete)")
  | .alreadySelected => none

variable (by_name : String → Option LoadedSkill)

/-- `prefilter_skills`, a companion of a skill. One that is not available is ignored. -/
def chainStep (parent : LoadedSkill) (s : Selection) (companion_name : String) : Selection :=
  match by_name companion_name with
  | none => s
  | some companion =>
    let (outcome, s') := trySelect limits companion s
    (companionNote companion_name parent.manifest.name outcome).elim s' s'.note

/-- `prefilter_skills`, the companions of a skill. -/
def chainLoad (parent : LoadedSkill) (s : Selection) : Selection :=
  parent.manifest.requires.skills.foldl (chainStep limits by_name parent) s

/-- `prefilter_skills`, the scored skills in turn. -/
def selectScored : List ScoredSkill → Selection → Selection
  | [], s => s
  | entry :: rest, s =>
    let skill := entry.skill
    match trySelect limits skill s with
    | (.selected, s') =>
      selectScored rest (chainLoad limits by_name skill s')
    | (.budgetFull, s') =>
      selectScored rest
        (s'.note (skill.manifest.name ++ ": skipped (skill context budget exhausted)"))
    | (.candidateLimit, s') => s'
    | (.alreadySelected, s') => selectScored rest s'
    | (.markerSatisfied, s') => selectScored rest s'

end

section

variable (host : SelectorHost) (message : String) (available_skills : List LoadedSkill)
  (limits : SelectionLimits)

/-- A skill's score for the message. -/
def scoreFor (skill : LoadedSkill) : ℕ := scoreSkill host skill (host.lowercase message) message

/-- The last skill of a name. -/
def skillByName (name : String) : Option LoadedSkill :=
  available_skills.reverse.find? fun skill => skill.manifest.name == name

/-- The skills that score, the highest score first. -/
def scoredSkills : List ScoredSkill :=
  (available_skills.filterMap fun skill =>
    if isSetUp limits skill then none
    else if 0 < scoreFor host message skill then some ⟨skill, scoreFor host message skill⟩
    else none).insertionSort fun a b => b.score ≤ a.score

/-- A selection that has not begun. -/
def Selection.start : Selection := ⟨[], [], limits.max_context_tokens, []⟩

/-- `prefilter_skills`. -/
def prefilterSkills : Selection :=
  if available_skills.isEmpty || message.isEmpty then .start limits
  else
    selectScored limits (skillByName available_skills)
      (scoredSkills host message available_skills limits) (.start limits)

end

/-! ### The trace of a selection -/

/-- A skill that is tried, for its score or as a companion. -/
structure Attempt where
  skill : LoadedSkill
  parent : Option LoadedSkill
  before : Selection

section

variable (limits : SelectionLimits)

/-- The attempt takes its skill. -/
def Attempt.Takes (a : Attempt) : Prop := (trySelect limits a.skill a.before).1 = .selected

instance (a : Attempt) : Decidable (a.Takes limits) := inferInstanceAs (Decidable (_ = _))

/-- There is no room for the attempt's skill: no slot, or too few tokens. -/
def Attempt.NoRoom (a : Attempt) : Prop :=
  limits.max_candidates ≤ a.before.result.length ∨
    a.before.budget_remaining < skillTokenCost a.skill

instance (a : Attempt) : Decidable (a.NoRoom limits) := inferInstanceAs (Decidable (_ ∨ _))

variable (by_name : String → Option LoadedSkill)

/-- The companions of a skill that are tried. -/
def chainAttempts (parent : LoadedSkill) : List String → Selection → List Attempt
  | [], _ => []
  | companion_name :: rest, s =>
    (by_name companion_name).toList.map (⟨·, some parent, s⟩) ++
      chainAttempts parent rest (chainStep limits by_name parent s companion_name)

/-- The skills that are tried. -/
def scoredAttempts : List ScoredSkill → Selection → List Attempt
  | [], _ => []
  | entry :: rest, s =>
    let skill := entry.skill
    ⟨skill, none, s⟩ :: match trySelect limits skill s with
    | (.selected, s') =>
      chainAttempts limits by_name skill skill.manifest.requires.skills s' ++
        scoredAttempts rest (chainLoad limits by_name skill s')
    | (.budgetFull, s') =>
      scoredAttempts rest
        (s'.note (skill.manifest.name ++ ": skipped (skill context budget exhausted)"))
    | (.candidateLimit, _) => []
    | (.alreadySelected, s') => scoredAttempts rest s'
    | (.markerSatisfied, s') => scoredAttempts rest s'

/-- Attempts in turn. What is noted between them makes no difference. -/
inductive Tries : Selection → List Attempt → Selection → Prop
  | nil (s : Selection) : Tries s [] s
  | note {s s' : Selection} {attempts : List Attempt} (text : String)
      (h : Tries (s.note text) attempts s') : Tries s attempts s'
  | attempt {s s' : Selection} {attempts : List Attempt} (skill : LoadedSkill)
      (parent : Option LoadedSkill) (h : Tries (trySelect limits skill s).2 attempts s') :
      Tries s (⟨skill, parent, s⟩ :: attempts) s'

end

section

variable {limits : SelectionLimits} {by_name : String → Option LoadedSkill}

/-- What a try can do. -/
theorem trySelect_cases (limits : SelectionLimits) (skill : LoadedSkill) (s : Selection) :
    (trySelect limits skill s = (.candidateLimit, s) ∧ limits.max_candidates ≤ s.result.length) ∨
    (trySelect limits skill s = (.alreadySelected, s) ∧
      skill.manifest.name ∈ s.selected_names) ∨
    (trySelect limits skill s = (.markerSatisfied, s) ∧ isSetUp limits skill = true) ∨
    (trySelect limits skill s = (.budgetFull, s) ∧
      s.budget_remaining < skillTokenCost skill) ∨
    (trySelect limits skill s = (.selected, s.push skill) ∧
      s.result.length < limits.max_candidates ∧ skill.manifest.name ∉ s.selected_names ∧
      isSetUp limits skill = false ∧ skillTokenCost skill ≤ s.budget_remaining) := by
  unfold trySelect
  by_cases hcount : limits.max_candidates ≤ s.result.length
  · exact .inl ⟨if_pos hcount, hcount⟩
  rw [if_neg hcount]
  by_cases hname : skill.manifest.name ∈ s.selected_names
  · exact .inr (.inl ⟨if_pos hname, hname⟩)
  rw [if_neg hname]
  by_cases hsetup : isSetUp limits skill = true
  · exact .inr (.inr (.inl ⟨if_pos hsetup, hsetup⟩))
  rw [if_neg hsetup]
  by_cases hcost : s.budget_remaining < skillTokenCost skill
  · exact .inr (.inr (.inr (.inl ⟨if_pos hcost, hcost⟩)))
  rw [if_neg hcost]
  exact .inr (.inr (.inr (.inr ⟨rfl, by omega, hname, by simpa using hsetup, by omega⟩)))

theorem Tries.append {s s' s'' : Selection} {as bs : List Attempt} (h : Tries limits s as s')
    (h' : Tries limits s' bs s'') : Tries limits s (as ++ bs) s'' := by
  induction h with
  | nil => exact h'
  | note text _ ih => exact .note text (ih h')
  | attempt skill parent _ ih => exact .attempt skill parent (ih h')

/-- A selection chain-loads by trying companions. -/
theorem tries_chainLoad (parent : LoadedSkill) (names : List String) (s : Selection) :
    Tries limits s (chainAttempts limits by_name parent names s)
      (names.foldl (chainStep limits by_name parent) s) := by
  induction names generalizing s with
  | nil => exact .nil s
  | cons companion_name rest ih =>
    rw [chainAttempts, List.foldl_cons]
    refine .append ?_ (ih _)
    rw [chainStep]
    cases hfind : by_name companion_name with
    | none => exact .nil s
    | some companion =>
      refine .attempt companion (some parent) ?_
      cases hnote : companionNote companion_name parent.manifest.name
          (trySelect limits companion s).1 with
      | none => simpa [hnote] using .nil _
      | some text => simpa [hnote] using .note text (.nil _)

/-- A selection goes on by trying skills. -/
theorem tries_selectScored (entries : List ScoredSkill) (s : Selection) :
    Tries limits s (scoredAttempts limits by_name entries s)
      (selectScored limits by_name entries s) := by
  induction entries generalizing s with
  | nil => exact .nil s
  | cons entry rest ih =>
    rw [scoredAttempts, selectScored]
    refine .attempt entry.skill none ?_
    obtain ⟨h, -⟩ | ⟨h, -⟩ | ⟨h, -⟩ | ⟨h, -⟩ | ⟨h, -⟩ := trySelect_cases limits entry.skill s
      <;> simp only [h]
    · exact .nil s
    · exact ih s
    · exact ih s
    · exact .note _ (ih _)
    · exact (tries_chainLoad entry.skill _ _).append (ih _)

/-! ### What holds of a selection at any time -/

/-- A selection keeps to its limits. -/
structure Selection.Within (limits : SelectionLimits) (s : Selection) : Prop where
  names : s.result.map (fun skill => skill.manifest.name) = s.selected_names.reverse
  nodup : s.selected_names.Nodup
  count : s.result.length ≤ limits.max_candidates
  budget : (s.result.map skillTokenCost).sum + s.budget_remaining = limits.max_context_tokens
  markers : ∀ skill ∈ s.result, isSetUp limits skill = false

theorem Selection.within_start : (Selection.start limits).Within limits where
  names := rfl
  nodup := .nil
  count := Nat.zero_le _
  budget := Nat.zero_add _
  markers := by simp [Selection.start]

theorem Selection.Within.trySelect {s : Selection} (h : s.Within limits) (skill : LoadedSkill) :
    (trySelect limits skill s).2.Within limits := by
  obtain ⟨h', -⟩ | ⟨h', -⟩ | ⟨h', -⟩ | ⟨h', -⟩ | ⟨h', hcount, hname, hsetup, hcost⟩ :=
    trySelect_cases limits skill s <;> rw [h']
  iterate 4 exact h
  constructor
  · simp [Selection.push, h.names]
  · exact List.nodup_cons.mpr ⟨hname, h.nodup⟩
  · simpa [Selection.push] using hcount
  · have hbudget := h.budget
    simp only [Selection.push, List.map_append, List.map_cons, List.map_nil, List.sum_append,
      List.sum_cons, List.sum_nil]
    omega
  · intro other hother
    obtain hother | hother := List.mem_append.mp hother
    · exact h.markers other hother
    · rwa [List.mem_singleton.mp hother]

theorem Tries.within {s s' : Selection} {attempts : List Attempt}
    (h : Tries limits s attempts s') (hs : s.Within limits) : s'.Within limits := by
  induction h with
  | nil => exact hs
  | note text _ ih => exact ih ⟨hs.names, hs.nodup, hs.count, hs.budget, hs.markers⟩
  | attempt skill parent _ ih => exact ih (hs.trySelect skill)

theorem result_subset_trySelect (skill : LoadedSkill) (s : Selection) :
    s.result ⊆ (trySelect limits skill s).2.result := by
  obtain ⟨h, -⟩ | ⟨h, -⟩ | ⟨h, -⟩ | ⟨h, -⟩ | ⟨h, -⟩ := trySelect_cases limits skill s <;> rw [h]
  iterate 4 exact fun _ hmem => hmem
  exact List.subset_append_left _ _

/-- Nothing is taken back. -/
theorem Tries.result_subset {s s' : Selection} {attempts : List Attempt}
    (h : Tries limits s attempts s') : s.result ⊆ s'.result := by
  induction h with
  | nil => exact fun _ hmem => hmem
  | note text _ ih => exact ih
  | attempt skill parent _ ih => exact List.Subset.trans (result_subset_trySelect skill _) ih

/-- What an attempt takes is selected. -/
theorem Tries.taken {s s' : Selection} {attempts : List Attempt}
    (h : Tries limits s attempts s') {a : Attempt} (ha : a ∈ attempts) (htakes : a.Takes limits) :
    a.skill ∈ s'.result := by
  induction h with
  | nil => cases ha
  | note text _ ih => exact ih ha
  | @attempt s _ _ skill parent hrest ih =>
    obtain rfl | ha := List.mem_cons.mp ha
    · apply hrest.result_subset
      have htakes : (trySelect limits skill s).1 = .selected := htakes
      obtain ⟨h', -⟩ | ⟨h', -⟩ | ⟨h', -⟩ | ⟨h', -⟩ | ⟨h', -⟩ := trySelect_cases limits skill s
        <;> rw [h'] at htakes ⊢
      iterate 4 cases htakes
      simp [Selection.push]
    · exact ih ha

/-- What is selected was taken by an attempt. -/
theorem Tries.origin {s s' : Selection} {attempts : List Attempt}
    (h : Tries limits s attempts s') {skill : LoadedSkill} (hskill : skill ∈ s'.result) :
    skill ∈ s.result ∨ ∃ a ∈ attempts, a.skill = skill ∧ a.Takes limits := by
  induction h with
  | nil => exact .inl hskill
  | note text _ ih => exact ih hskill
  | @attempt s _ attempts tried parent _ ih =>
    obtain hmem | ⟨a, ha, hrest⟩ := ih hskill
    · obtain ⟨h', -⟩ | ⟨h', -⟩ | ⟨h', -⟩ | ⟨h', -⟩ | ⟨h', -⟩ := trySelect_cases limits tried s
        <;> rw [h'] at hmem
      iterate 4 exact .inl hmem
      obtain hmem | hmem := List.mem_append.mp hmem
      · exact .inl hmem
      · exact .inr ⟨⟨tried, parent, s⟩, List.mem_cons_self, (List.mem_singleton.mp hmem).symm,
          congrArg Prod.fst h'⟩
    · exact .inr ⟨a, List.mem_cons_of_mem _ ha, hrest⟩

/-- Each attempt finds its skill selected, selects it, or says why not. -/
theorem Tries.resolved {s s' : Selection} {attempts : List Attempt}
    (h : Tries limits s attempts s') (hs : s.Within limits) {a : Attempt} (ha : a ∈ attempts) :
    (∃ other ∈ s'.result, other.manifest.name = a.skill.manifest.name) ∨
      isSetUp limits a.skill = true ∨ a.NoRoom limits := by
  induction h with
  | nil => cases ha
  | note text _ ih => exact ih ⟨hs.names, hs.nodup, hs.count, hs.budget, hs.markers⟩ ha
  | @attempt s _ _ skill parent hrest ih =>
    obtain rfl | ha := List.mem_cons.mp ha
    · have hsubset := hrest.result_subset
      obtain ⟨-, h'⟩ | ⟨h', hname⟩ | ⟨-, h'⟩ | ⟨-, h'⟩ | ⟨h', -⟩ := trySelect_cases limits skill s
      · exact .inr (.inr (.inl h'))
      · have hmem : skill.manifest.name ∈ s.result.map fun skill => skill.manifest.name := by
          rw [hs.names]
          exact List.mem_reverse.mpr hname
        obtain ⟨other, hother, heq⟩ := List.mem_map.mp hmem
        rw [h'] at hsubset
        exact .inl ⟨other, hsubset hother, heq⟩
      · exact .inr (.inl h')
      · exact .inr (.inr (.inr h'))
      · rw [h'] at hsubset
        exact .inl ⟨skill, hsubset (by simp [Selection.push]), rfl⟩
    · exact ih (hs.trySelect skill) ha

/-! ### Who is tried -/

theorem mem_chainAttempts {parent : LoadedSkill} {names : List String} {s : Selection}
    {a : Attempt} (h : a ∈ chainAttempts limits by_name parent names s) :
    a.parent = some parent ∧ ∃ name ∈ names, by_name name = some a.skill := by
  induction names generalizing s with
  | nil => cases h
  | cons name rest ih =>
    obtain h | h := List.mem_append.mp h
    · obtain ⟨companion, hfind, rfl⟩ := List.mem_map.mp h
      exact ⟨rfl, name, List.mem_cons_self, Option.mem_toList.mp hfind⟩
    · obtain ⟨hparent, other, hother, hfind⟩ := ih h
      exact ⟨hparent, other, List.mem_cons_of_mem _ hother, hfind⟩

/-- Each available companion is tried. -/
theorem exists_mem_chainAttempts (parent : LoadedSkill) {names : List String} (s : Selection)
    {name : String} (hname : name ∈ names) {companion : LoadedSkill}
    (hfind : by_name name = some companion) :
    ∃ a ∈ chainAttempts limits by_name parent names s, a.skill = companion := by
  induction names generalizing s with
  | nil => cases hname
  | cons first rest ih =>
    obtain rfl | hname := List.mem_cons.mp hname
    · exact ⟨⟨companion, some parent, s⟩, by simp [chainAttempts, hfind], rfl⟩
    · obtain ⟨a, ha, heq⟩ := ih (chainStep limits by_name parent s first) hname
      exact ⟨a, List.mem_append_right _ ha, heq⟩

/-- An attempt is a scored skill's turn, or is made for a skill that was taken in its turn. -/
theorem mem_scoredAttempts {entries : List ScoredSkill} {s : Selection} {a : Attempt}
    (h : a ∈ scoredAttempts limits by_name entries s) :
    (a.parent = none ∧ ∃ entry ∈ entries, entry.skill = a.skill) ∨
      ∃ entry ∈ entries, a.parent = some entry.skill ∧
        (∃ b ∈ scoredAttempts limits by_name entries s, b.skill = entry.skill ∧ b.Takes limits) ∧
        ∃ name ∈ entry.skill.manifest.requires.skills, by_name name = some a.skill := by
  induction entries generalizing s with
  | nil => cases h
  | cons entry rest ih =>
    -- a later turn, in the selection that this one leaves
    have hlater : ∀ s', (∀ b ∈ scoredAttempts limits by_name rest s',
        b ∈ scoredAttempts limits by_name (entry :: rest) s) →
        a ∈ scoredAttempts limits by_name rest s' →
        (a.parent = none ∧ ∃ e ∈ entry :: rest, e.skill = a.skill) ∨
          ∃ e ∈ entry :: rest, a.parent = some e.skill ∧
            (∃ b ∈ scoredAttempts limits by_name (entry :: rest) s,
              b.skill = e.skill ∧ b.Takes limits) ∧
            ∃ name ∈ e.skill.manifest.requires.skills, by_name name = some a.skill := by
      intro s' hsubset hmem
      obtain ⟨hnone, e, he, heq⟩ | ⟨e, he, hparent, ⟨b, hb, htakes⟩, hname⟩ := ih hmem
      · exact .inl ⟨hnone, e, List.mem_cons_of_mem _ he, heq⟩
      · exact .inr ⟨e, List.mem_cons_of_mem _ he, hparent, ⟨b, hsubset b hb, htakes⟩, hname⟩
    obtain rfl | h' := List.mem_cons.mp h
    · exact .inl ⟨rfl, entry, List.mem_cons_self, rfl⟩
    obtain ⟨htry, -⟩ | ⟨htry, -⟩ | ⟨htry, -⟩ | ⟨htry, -⟩ | ⟨htry, -⟩ :=
      trySelect_cases limits entry.skill s <;> simp only [htry] at h'
    · cases h'
    · exact hlater s (by simp +contextual [scoredAttempts, htry]) h'
    · exact hlater s (by simp +contextual [scoredAttempts, htry]) h'
    · exact hlater _ (by simp +contextual [scoredAttempts, htry]) h'
    · obtain hchain | hmem := List.mem_append.mp h'
      · obtain ⟨hparent, hname⟩ := mem_chainAttempts hchain
        exact .inr ⟨entry, List.mem_cons_self, hparent,
          ⟨⟨entry.skill, none, s⟩, List.mem_cons_self, rfl, congrArg Prod.fst htry⟩, hname⟩
      · exact hlater _ (by simp +contextual [scoredAttempts, htry]) hmem

/-- The companions of a skill that is taken in its turn are tried. -/
theorem exists_mem_scoredAttempts {entries : List ScoredSkill} {s : Selection} {a : Attempt}
    (h : a ∈ scoredAttempts limits by_name entries s) (hnone : a.parent = none)
    (htakes : a.Takes limits) {name : String} (hname : name ∈ a.skill.manifest.requires.skills)
    {companion : LoadedSkill} (hfind : by_name name = some companion) :
    ∃ b ∈ scoredAttempts limits by_name entries s, b.skill = companion := by
  induction entries generalizing s with
  | nil => cases h
  | cons entry rest ih =>
    obtain rfl | h' := List.mem_cons.mp h
    · have htakes : (trySelect limits entry.skill s).1 = .selected := htakes
      obtain ⟨htry, -⟩ | ⟨htry, -⟩ | ⟨htry, -⟩ | ⟨htry, -⟩ | ⟨htry, -⟩ :=
        trySelect_cases limits entry.skill s <;> rw [htry] at htakes
      iterate 4 cases htakes
      have hchain : ∃ b ∈ chainAttempts limits by_name entry.skill
          entry.skill.manifest.requires.skills (s.push entry.skill), b.skill = companion :=
        exists_mem_chainAttempts entry.skill _ hname hfind
      obtain ⟨b, hb, heq⟩ := hchain
      exact ⟨b, by simp [scoredAttempts, htry, hb], heq⟩
    · rw [scoredAttempts]
      obtain ⟨htry, -⟩ | ⟨htry, -⟩ | ⟨htry, -⟩ | ⟨htry, -⟩ | ⟨htry, -⟩ :=
        trySelect_cases limits entry.skill s <;> simp only [htry] at h' ⊢
      · cases h'
      iterate 3
        · obtain ⟨b, hb, heq⟩ := ih h'
          exact ⟨b, List.mem_cons_of_mem _ hb, heq⟩
      · obtain hchain | hmem := List.mem_append.mp h'
        · rw [(mem_chainAttempts hchain).1] at hnone
          cases hnone
        · obtain ⟨b, hb, heq⟩ := ih hmem
          exact ⟨b, List.mem_cons_of_mem _ (List.mem_append_right _ hb), heq⟩

end

/-! ### What is promised of a selection -/

section

variable (host : SelectorHost) (message : String) (available_skills : List LoadedSkill)
  (limits : SelectionLimits)

/-- The skills that a selection tries. -/
def attempts : List Attempt :=
  if available_skills.isEmpty || message.isEmpty then []
  else
    scoredAttempts limits (skillByName available_skills)
      (scoredSkills host message available_skills limits) (.start limits)

/-- A selection keeps to its limits, has a reason for each skill, and brings the companions of
the skills that score. -/
structure SelectionCorrect : Prop where
  count : (prefilterSkills host message available_skills limits).result.length ≤
    limits.max_candidates
  names : ((prefilterSkills host message available_skills limits).result.map
    fun skill => skill.manifest.name).Nodup
  budget : ((prefilterSkills host message available_skills limits).result.map
    skillTokenCost).sum ≤ limits.max_context_tokens
  reason : ∀ skill ∈ (prefilterSkills host message available_skills limits).result,
    0 < scoreFor host message skill ∨
      ∃ parent ∈ (prefilterSkills host message available_skills limits).result,
        0 < scoreFor host message parent ∧
          skill.manifest.name ∈ parent.manifest.requires.skills
  markers : ∀ skill ∈ (prefilterSkills host message available_skills limits).result,
    isSetUp limits skill = false
  companions : ∀ parent ∈ (prefilterSkills host message available_skills limits).result,
    0 < scoreFor host message parent → ∀ companion ∈ available_skills,
      companion.manifest.name ∈ parent.manifest.requires.skills →
        companion ∈ (prefilterSkills host message available_skills limits).result ∨
          isSetUp limits companion = true ∨
          ∃ a ∈ attempts host message available_skills limits,
            a.skill = companion ∧ a.NoRoom limits

/-- A skill that scores and is taken as a companion, so that its own turn brings nothing, has
no companions that are tried for no other reason. -/
def CompanionsTried : Prop :=
  ∀ a ∈ attempts host message available_skills limits, a.parent.isSome = true →
    a.Takes limits → 0 < scoreFor host message a.skill → ∀ companion ∈ available_skills,
      companion.manifest.name ∈ a.skill.manifest.requires.skills →
        isSetUp limits companion = true ∨
          ∃ b ∈ attempts host message available_skills limits, b.skill = companion

end

section

variable {host : SelectorHost} {message : String} {available_skills : List LoadedSkill}
  {limits : SelectionLimits}

theorem tries_prefilterSkills : Tries limits (.start limits)
    (attempts host message available_skills limits)
    (prefilterSkills host message available_skills limits) := by
  unfold attempts prefilterSkills
  split
  · exact .nil _
  · exact tries_selectScored _ _

theorem within_prefilterSkills :
    (prefilterSkills host message available_skills limits).Within limits :=
  tries_prefilterSkills.within Selection.within_start

theorem skillByName_eq_some {name : String} {skill : LoadedSkill}
    (h : skillByName available_skills name = some skill) :
    skill ∈ available_skills ∧ skill.manifest.name = name :=
  ⟨List.mem_reverse.mp (List.mem_of_find?_eq_some h), by simpa using List.find?_some h⟩

theorem mem_scoredSkills {entry : ScoredSkill}
    (h : entry ∈ scoredSkills host message available_skills limits) :
    entry.skill ∈ available_skills ∧ 0 < scoreFor host message entry.skill := by
  obtain ⟨skill, hskill, heq⟩ := List.mem_filterMap.mp ((List.mem_insertionSort _).mp h)
  split at heq
  · cases heq
  · split at heq
    · obtain rfl := Option.some.inj heq
      exact ⟨hskill, ‹_›⟩
    · cases heq

/-- An attempt is made for a skill that scores, or for a companion of one that was taken. -/
theorem mem_attempts {a : Attempt} (h : a ∈ attempts host message available_skills limits) :
    a.skill ∈ available_skills ∧
      ((a.parent = none ∧ 0 < scoreFor host message a.skill) ∨
        a.parent.isSome = true ∧
          ∃ parent ∈ (prefilterSkills host message available_skills limits).result,
            0 < scoreFor host message parent ∧
              a.skill.manifest.name ∈ parent.manifest.requires.skills) := by
  have htries : Tries limits (.start limits) (attempts host message available_skills limits)
      (prefilterSkills host message available_skills limits) := tries_prefilterSkills
  unfold attempts at h htries
  split at h
  · cases h
  · next hne =>
    rw [if_neg hne] at htries
    obtain ⟨hnone, entry, hentry, heq⟩ | ⟨entry, hentry, hparent, ⟨b, hb, hskill, htakes⟩,
      name, hname, hfind⟩ := mem_scoredAttempts h
    · have hscored := mem_scoredSkills hentry
      rw [heq] at hscored
      exact ⟨hscored.1, .inl ⟨hnone, hscored.2⟩⟩
    · obtain ⟨hmem, rfl⟩ := skillByName_eq_some hfind
      refine ⟨hmem, .inr ⟨by simp [hparent], entry.skill, ?_, (mem_scoredSkills hentry).2, hname⟩⟩
      exact hskill ▸ htries.taken hb htakes

/-- What is selected was tried. -/
theorem exists_attempt {skill : LoadedSkill}
    (h : skill ∈ (prefilterSkills host message available_skills limits).result) :
    ∃ a ∈ attempts host message available_skills limits, a.skill = skill ∧ a.Takes limits := by
  obtain h | h := tries_prefilterSkills.origin h
  · cases h
  · exact h

/-- So it is, whatever the limits, if a skill that scores and is named by another one that scores
names no skill itself that is not set up. -/
theorem companionsTried_of_unchained
    (h : ∀ skill ∈ available_skills, 0 < scoreFor host message skill →
      ∀ parent ∈ available_skills, 0 < scoreFor host message parent →
        skill.manifest.name ∈ parent.manifest.requires.skills → ∀ companion ∈ available_skills,
          companion.manifest.name ∈ skill.manifest.requires.skills →
            isSetUp limits companion = true) :
    CompanionsTried host message available_skills limits := by
  intro a ha hsome _ hscore companion hcompanion hname
  obtain ⟨havailable, ⟨hnone, -⟩ | ⟨-, parent, hparent, hscored, hrequires⟩⟩ := mem_attempts ha
  · rw [hnone] at hsome
    cases hsome
  · obtain ⟨b, hb, rfl, -⟩ := exists_attempt hparent
    exact .inl (h a.skill havailable hscore b.skill (mem_attempts hb).1 hscored hrequires companion
      hcompanion hname)

section

variable (hnames : (available_skills.map fun skill => skill.manifest.name).Nodup)
include hnames

theorem eq_of_name {skill other : LoadedSkill} (hskill : skill ∈ available_skills)
    (hother : other ∈ available_skills) (h : skill.manifest.name = other.manifest.name) :
    skill = other := List.inj_on_of_nodup_map hnames hskill hother h

theorem skillByName_of_mem {skill : LoadedSkill} (h : skill ∈ available_skills) :
    skillByName available_skills skill.manifest.name = some skill := by
  cases hfind : skillByName available_skills skill.manifest.name with
  | none =>
    have := List.find?_eq_none.mp hfind skill (List.mem_reverse.mpr h)
    simp at this
  | some other =>
    obtain ⟨hother, hname⟩ := skillByName_eq_some hfind
    rw [eq_of_name hnames hother h hname]

/-- The companions of a skill that is taken in its turn are tried. -/
theorem exists_companion_attempt {a : Attempt}
    (h : a ∈ attempts host message available_skills limits) (hnone : a.parent = none)
    (htakes : a.Takes limits) {companion : LoadedSkill} (hcompanion : companion ∈ available_skills)
    (hname : companion.manifest.name ∈ a.skill.manifest.requires.skills) :
    ∃ b ∈ attempts host message available_skills limits, b.skill = companion := by
  unfold attempts at h ⊢
  split at h
  · cases h
  · next hne =>
    rw [if_neg hne]
    exact exists_mem_scoredAttempts h hnone htakes hname (skillByName_of_mem hnames hcompanion)

/-- **A selection is correct** exactly if each companion of a skill that scores is tried. -/
theorem selection_correct_iff :
    SelectionCorrect host message available_skills limits ↔
      CompanionsTried host message available_skills limits := by
  have htries : Tries limits (.start limits) (attempts host message available_skills limits)
      (prefilterSkills host message available_skills limits) := tries_prefilterSkills
  have hwithin : (prefilterSkills host message available_skills limits).Within limits :=
    within_prefilterSkills
  constructor
  · intro hcorrect a ha hsome htakes hscore companion hcompanion hname
    obtain hmem | hsetup | ⟨b, hb, heq, -⟩ :=
      hcorrect.companions a.skill (htries.taken ha htakes) hscore companion hcompanion hname
    · obtain ⟨b, hb, heq, -⟩ := exists_attempt hmem
      exact .inr ⟨b, hb, heq⟩
    · exact .inl hsetup
    · exact .inr ⟨b, hb, heq⟩
  · intro htried
    refine ⟨hwithin.count, ?_, ?_, ?_, hwithin.markers, ?_⟩
    · rw [hwithin.names]
      exact List.nodup_reverse.mpr hwithin.nodup
    · have := hwithin.budget
      omega
    · intro skill hskill
      obtain ⟨a, ha, rfl, -⟩ := exists_attempt hskill
      obtain ⟨-, hscore⟩ | ⟨-, hparent⟩ := (mem_attempts ha).2
      · exact .inl hscore
      · exact .inr hparent
    · intro parent hparent hscore companion hcompanion hname
      -- a parent that is itself a companion is the condition's case
      have htry : isSetUp limits companion = true ∨
          ∃ b ∈ attempts host message available_skills limits, b.skill = companion := by
        obtain ⟨a, ha, rfl, htakes⟩ := exists_attempt hparent
        obtain ⟨hnone, -⟩ | ⟨hsome, -⟩ := (mem_attempts ha).2
        · exact .inr (exists_companion_attempt hnames ha hnone htakes hcompanion hname)
        · exact htried a ha hsome htakes hscore companion hcompanion hname
      obtain hsetup | ⟨b, hb, rfl⟩ := htry
      · exact .inr (.inl hsetup)
      obtain ⟨other, hother, heq⟩ | hsetup | hroom := htries.resolved Selection.within_start hb
      · obtain ⟨a, ha, rfl, -⟩ := exists_attempt hother
        have := eq_of_name hnames (mem_attempts ha).1 hcompanion heq
        exact .inl (this ▸ hother)
      · exact .inr (.inl hsetup)
      · exact .inr (.inr ⟨b, hb, rfl, hroom⟩)

end

/-! ### A companion that is lost -/

/-- A trusted skill of the workspace with a single keyword, or two. -/
def plainSkill (name : String) (keywords companions : List String) : LoadedSkill where
  manifest :=
    { name, version := "1.0.0"
      activation := ⟨keywords, [], [], [], 100, none⟩
      requires := ⟨[], [], [], companions⟩ }
  prompt_content := "Help."
  trust := .trusted
  source := .bundled name
  content_hash := ""
  compiled_patterns := []
  lowercased_keywords := keywords
  lowercased_exclude_keywords := []
  lowercased_tags := []

/-- Plain letters. -/
def plainSelector : SelectorHost := ⟨id, Char.isAlphanum, fun _ _ => false⟩

/-- A setup skill that requires an operational skill, which requires a third. -/
def chainedSkills : List LoadedSkill :=
  [plainSkill "setup" ["deploy", "server"] ["ops"], plainSkill "ops" ["server"] ["logs"],
    plainSkill "logs" [] []]

/-- On its own, the second skill brings the third. -/
theorem selection_correct_chained :
    SelectionCorrect plainSelector "server" chainedSkills.tail ⟨3, 4000, []⟩ :=
  (selection_correct_iff (by decide)).mpr (by unfold CompanionsTried; decide)

/-- The second skill scores, but is taken as the companion of the first: the third is lost. -/
theorem companion_lost :
    ¬SelectionCorrect plainSelector "deploy server" chainedSkills ⟨3, 4000, []⟩ := by
  intro h
  have := h.companions (plainSkill "ops" ["server"] ["logs"]) (by decide) (by decide)
    (plainSkill "logs" [] []) (by decide) (by decide)
  revert this
  decide

end

end T3Claw.Skills
