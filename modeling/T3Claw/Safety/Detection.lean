import T3Claw.Safety.Layer

/-!
# What the sanitizer detects

The markers of the sanitizer (`Sanitizer::new`) are looked for by a matcher that ignores the case
of ASCII letters and reports no overlapping occurrences. Content is escaped only where a marker
that is Critical is reported. Of the Critical ones `system:` can go unseen, behind a word with
which another marker ends (`reported_iff`).
-/

namespace T3Claw.Safety

variable {Re : Type}

/-- `to_ascii_lowercase`. -/
def asciiLower (cs : List Char) : List Char := cs.map Char.toLower

/-- A place for a needle as one for its lower case. -/
def asciiLowerHit {needles : List (List Char)} (mat : Search.Hit needles) :
    Search.Hit (needles.map asciiLower) :=
  ⟨mat.pattern.cast (List.length_map _).symm, mat.start⟩

/-- The documented behaviour of what the sanitizer uses of crates: the matcher is a standard
search up to the case of ASCII letters, `\x00` matches a NUL, and `str::to_lowercase` maps an
ASCII character to itself or its lower case. -/
structure SafetyCrates.Documented (crates : SafetyCrates Re) : Prop where
  matcher : ∀ needles, (∀ needle ∈ needles, needle ≠ []) → ∀ content,
    Search.StandardSearch (needles.map asciiLower) (asciiLower content) 0
      ((crates.aho_case_insensitive needles content).map asciiLowerHit)
  null_byte : ∀ content,
    crates.regex.find_iter (crates.regex.new "\\x00") content = [] ↔ '\x00' ∉ content
  to_lowercase_nil : crates.to_lowercase [] = []
  to_lowercase_cons : ∀ c cs, c.toNat < 128 →
    (crates.to_lowercase (c :: cs)).head? = some c.toLower

namespace Sanitizer

/-- The needles of the matcher. -/
def needles (S : Sanitizer Re) : List (List Char) := S.patterns.map fun info => info.pattern.toList

/-- The severity of a marker. -/
def severityOf (S : Sanitizer Re) (i : Fin (S.needles.map asciiLower).length) : Severity :=
  (S.patterns.get (i.cast ((List.length_map _).trans (List.length_map _)))).severity

/-- The content has a NUL, or a Critical marker, in any case of its letters. -/
def Marked (S : Sanitizer Re) (content : List Char) : Prop :=
  '\x00' ∈ content ∨
    ∃ info ∈ S.patterns, info.severity = .critical ∧
      asciiLower info.pattern.toList <:+: asciiLower content

/-- The content has a NUL, or a Critical marker somewhere in which no marker of another severity
stops. -/
def Reported (S : Sanitizer Re) (content : List Char) : Prop :=
  '\x00' ∈ content ∨
    ∃ place : Search.Hit (S.needles.map asciiLower), place.Occurs (asciiLower content) ∧
      S.severityOf place.pattern = .critical ∧
      ∀ other : Search.Hit (S.needles.map asciiLower), other.Occurs (asciiLower content) →
        place.start < other.stop → other.stop ≤ place.stop →
          S.severityOf other.pattern = .critical

/-! ### The markers -/

/-- The markers are the same over any regexes. -/
def markers : Sanitizer Unit := new ⟨fun _ => (), fun _ => "", fun _ _ => [], fun _ _ => false⟩

/-- No marker is empty. -/
theorem needles_ne_nil (regex : RegexCrate Re) :
    ∀ needle ∈ (Sanitizer.new regex).needles, needle ≠ [] := by
  have hmarkers : ∀ needle ∈ markers.needles, needle ≠ [] := by decide +kernel
  exact hmarkers

/-- A Critical marker and another one do not stop together, and no marker stops inside one that
is in the way of a Critical one. -/
theorem separate (regex : RegexCrate Re) :
    Search.Separate ((Sanitizer.new regex).needles.map asciiLower)
      fun i => (Sanitizer.new regex).severityOf i = .critical := by
  have hmarkers : Search.Separate (markers.needles.map asciiLower)
      fun i => markers.severityOf i = .critical := ⟨by decide +kernel, by decide +kernel⟩
  exact hmarkers

/-! ### Reports -/

/-- The warnings about markers. -/
theorem exists_critical_hit_iff {crates : SafetyCrates Re} (hcrates : crates.Documented)
    (content : List Char) :
    (∃ mat ∈ crates.aho_case_insensitive (Sanitizer.new crates.regex).needles content,
        ((Sanitizer.new crates.regex).patterns.get
          (mat.pattern.cast (List.length_map _))).severity = .critical) ↔
      ∃ place : Search.Hit ((Sanitizer.new crates.regex).needles.map asciiLower),
        place.Occurs (asciiLower content) ∧
        (Sanitizer.new crates.regex).severityOf place.pattern = .critical ∧
        ∀ other : Search.Hit ((Sanitizer.new crates.regex).needles.map asciiLower),
          other.Occurs (asciiLower content) → place.start < other.stop →
            other.stop ≤ place.stop →
              (Sanitizer.new crates.regex).severityOf other.pattern = .critical := by
  have hne := needles_ne_nil crates.regex
  have hsearch := hcrates.matcher _ hne content
  have hne' : ∀ needle ∈ (Sanitizer.new crates.regex).needles.map asciiLower, needle ≠ [] := by
    intro needle hneedle
    obtain ⟨upper, hupper, rfl⟩ := List.mem_map.mp hneedle
    exact fun h => hne upper hupper (List.map_eq_nil_iff.mp h)
  rw [← hsearch.exists_good_iff hne' (separate crates.regex)]
  constructor
  · rintro ⟨mat, hmat, hcritical⟩
    exact ⟨asciiLowerHit mat, List.mem_map_of_mem hmat, hcritical⟩
  · rintro ⟨_, hhit, hcritical⟩
    obtain ⟨mat, hmat, rfl⟩ := List.mem_map.mp hhit
    exact ⟨mat, hmat, hcritical⟩

/-- The warnings are about markers and about regexes. -/
theorem mem_warnings {S : Sanitizer Re} {crates : SafetyCrates Re} {content : List Char}
    {warning : InjectionWarning} : warning ∈ (S.sanitize crates content).warnings ↔
      (∃ mat ∈ crates.aho_case_insensitive S.needles content,
        let info := S.patterns.get (mat.pattern.cast (List.length_map _))
        ⟨info.pattern, info.severity, ⟨mat.start, mat.stop⟩, info.description⟩ = warning) ∨
      ∃ pattern ∈ S.regex_patterns, ∃ location ∈ crates.regex.find_iter pattern.regex content,
        ⟨pattern.name, pattern.severity, location, pattern.description⟩ = warning := by
  rw [sanitize, apply_ite SanitizedOutput.warnings, ite_self, List.mem_mergeSort, List.mem_append,
    List.mem_map, List.mem_flatMap]
  simp only [List.mem_map]
  rfl

/-- **Content is reported as Critical** where a marker is seen. -/
theorem reported_iff {crates : SafetyCrates Re} (hcrates : crates.Documented)
    (content : List Char) :
    (∃ warning ∈ ((Sanitizer.new crates.regex).sanitize crates content).warnings,
        warning.severity = .critical) ↔ (Sanitizer.new crates.regex).Reported content := by
  have hregex : ∀ pattern ∈ (Sanitizer.new crates.regex).regex_patterns,
      pattern.severity = .critical → pattern.regex = crates.regex.new "\\x00" := by
    intro pattern hpattern
    rw [new] at hpattern
    simp only [List.mem_cons, List.not_mem_nil, or_false] at hpattern
    rcases hpattern with rfl | rfl | rfl | rfl
    · exact nofun
    · exact nofun
    · exact nofun
    · exact fun _ => rfl
  rw [Reported, ← exists_critical_hit_iff hcrates]
  constructor
  · rintro ⟨warning, hwarning, hcritical⟩
    rcases mem_warnings.mp hwarning with ⟨mat, hmat, rfl⟩ | ⟨pattern, hpattern, location, hat, rfl⟩
    · exact Or.inr ⟨mat, hmat, hcritical⟩
    · rw [hregex pattern hpattern hcritical] at hat
      by_contra hnot
      rw [not_or] at hnot
      rw [(hcrates.null_byte content).mpr hnot.1] at hat
      cases hat
  · rintro (hnul | ⟨mat, hmat, hcritical⟩)
    · have hne : crates.regex.find_iter (crates.regex.new "\\x00") content ≠ [] := fun h =>
        (hcrates.null_byte content).mp h hnul
      obtain ⟨location, rest, hfound⟩ := List.exists_cons_of_ne_nil hne
      have hlocation : location ∈ crates.regex.find_iter (crates.regex.new "\\x00") content :=
        hfound ▸ List.mem_cons_self
      exact ⟨_, mem_warnings.mpr (Or.inr ⟨⟨crates.regex.new "\\x00", "null_byte", .critical,
        "Null byte injection attempt"⟩, by simp [new], location, hlocation, rfl⟩), rfl⟩
    · exact ⟨_, mem_warnings.mpr (Or.inl ⟨mat, hmat, rfl⟩), hcritical⟩

/-- Content with a Critical warning is escaped. -/
theorem content_sanitize {crates : SafetyCrates Re} (S : Sanitizer Re) (content : List Char)
    (h : ∃ warning ∈ (S.sanitize crates content).warnings, warning.severity = .critical) :
    (S.sanitize crates content).content = escapeContent crates content := by
  have hescaped : ∀ (escaped : List Char) (warnings : List InjectionWarning),
      (∃ warning ∈ (if warnings.any (·.severity = .critical) then
          SanitizedOutput.mk escaped warnings true else ⟨content, warnings, false⟩).warnings,
        warning.severity = .critical) →
      (if warnings.any (·.severity = .critical) then SanitizedOutput.mk escaped warnings true
        else ⟨content, warnings, false⟩).content = escaped := by
    intro escaped warnings h
    rw [apply_ite SanitizedOutput.warnings, ite_self] at h
    obtain ⟨warning, hwarning, hcritical⟩ := h
    rw [if_pos (List.any_eq_true.mpr ⟨warning, hwarning, decide_eq_true hcritical⟩)]
  exact hescaped _ _ h

end Sanitizer

end T3Claw.Safety
