import T3Claw.Data.Lines
import T3Claw.Skills.Registry

/-!
# Recovering an invalid name

`normalize_install_content`: a skill file that fails only for its name is put together again from
its frontmatter, printed anew with a name that is valid, and its prompt. What is printed is split
again by lines when the file is read (`splitFrontmatter_assemble`), and it is printed without the
dots at its end, which may end a value as well as a document. A value is not all that a frontmatter
says: a string field reads the text of a scalar, so `1.10` becomes `1.1` (`AsPrinted`).
-/

namespace T3Claw.Skills

open Text

/-! ### Splitting what was put together -/

theorem normalizeLineEndings_eq_self {cs : List Char} (h : '\r' ∉ cs) :
    normalizeLineEndings cs = cs := by
  have hreplace : replace ['\r', '\n'] ['\n'] cs = cs := by
    rw [replace]
    induction cs with
    | nil => rfl
    | cons c cs ih =>
      rw [List.mem_cons, not_or] at h
      have hnot : ¬['\r', '\n'].isPrefixOf (c :: cs) = true := by
        simp [List.isPrefixOf, h.1]
      rw [replaceFrom, if_neg hnot, ih h.2]
  rw [normalizeLineEndings, hreplace]
  refine (List.map_congr_left fun c hc => ?_).trans (List.map_id' cs)
  exact if_neg (ne_of_mem_of_not_mem hc h)

/-- A line that ends the frontmatter. -/
def IsDelimiter (line : List Char) : Prop := trim line = ['-', '-', '-']

theorem findClosingDelimiter_append {lines : List (List Char)}
    (h : ∀ line ∈ lines, ¬IsDelimiter line) (pos : ℕ) (rest : List (List Char)) :
    findClosingDelimiter pos (lines ++ rest) =
      findClosingDelimiter (pos + (lines.map (·.length + 1)).sum) rest := by
  induction lines generalizing pos with
  | nil => rfl
  | cons line lines ih =>
    have hline : ¬trim line = ['-', '-', '-'] := h line List.mem_cons_self
    rw [List.cons_append, findClosingDelimiter, if_neg hline,
      ih fun l hl => h l (List.mem_cons_of_mem _ hl), List.map_cons, List.sum_cons]
    congr 1
    omega

theorem findClosingDelimiter_lt {lines : List (List Char)} (h : ∃ line ∈ lines, IsDelimiter line)
    (pos : ℕ) (rest : List (List Char)) : ∃ p, findClosingDelimiter pos (lines ++ rest) = some p ∧
      p < pos + (lines.map (·.length + 1)).sum := by
  induction lines generalizing pos with
  | nil => exact absurd h (by simp)
  | cons line lines ih =>
    rw [List.cons_append, findClosingDelimiter, List.map_cons, List.sum_cons]
    split
    case isTrue => exact ⟨pos, rfl, by omega⟩
    case isFalse hline =>
      obtain ⟨other, hother, hdelim⟩ := h
      obtain rfl | hother := List.mem_cons.mp hother
      · exact absurd hdelim hline
      · obtain ⟨p, hp, hlt⟩ := ih ⟨other, hother, hdelim⟩ (pos + line.length + 1)
        exact ⟨p, hp, by omega⟩

/-- A frontmatter as it is put into a file, its last line ended. -/
def closeYaml (yaml : List Char) : List Char :=
  if ("---\n".toList ++ yaml).getLast? = some '\n' then yaml else yaml ++ ['\n']

theorem assembleSkillMd_eq (yaml prompt : List Char) :
    assembleSkillMd yaml prompt =
      "---\n".toList ++ (closeYaml yaml ++ ("---\n\n".toList ++ prompt)) := by
  simp only [assembleSkillMd, closeYaml]
  split_ifs <;> simp only [List.append_assoc]

theorem closed_closeYaml (yaml : List Char) : Closed (closeYaml yaml) := by
  rw [closeYaml]
  split
  case isTrue h =>
    obtain rfl | ⟨front, c, rfl⟩ := yaml.eq_nil_or_concat
    · exact .inl rfl
    · rw [List.concat_eq_append, ← List.append_assoc, List.getLast?_concat] at h
      rw [Option.some.inj h, List.concat_eq_append]
      exact .inr ⟨front, rfl⟩
  case isFalse => exact .inr ⟨yaml, rfl⟩

theorem notMem_closeYaml {yaml : List Char} (h : '\r' ∉ yaml) : '\r' ∉ closeYaml yaml := by
  rw [closeYaml]
  split
  · exact h
  · simp [h]

/-- What is read of a file that was put together, up to where its frontmatter ends. -/
theorem splitFrontmatter_assembleSkillMd {yaml prompt : List Char} (hyaml : '\r' ∉ yaml)
    (hprompt : '\r' ∉ prompt) :
    splitFrontmatter (assembleSkillMd yaml prompt) =
      match findClosingDelimiter 0
          (lines (closeYaml yaml) ++ lines ("---\n\n".toList ++ prompt)) with
      | none => .error .missingFrontmatter
      | some yaml_end =>
        .ok ((closeYaml yaml ++ ("---\n\n".toList ++ prompt)).take yaml_end,
          (afterLine ((closeYaml yaml ++ ("---\n\n".toList ++ prompt)).drop yaml_end)).dropWhile
            (· = '\n')) := by
  have hcr : '\r' ∉ assembleSkillMd yaml prompt := by
    rw [assembleSkillMd_eq]
    simp [notMem_closeYaml hyaml, hprompt]
  rw [splitFrontmatter, normalizeLineEndings_eq_self hcr, assembleSkillMd_eq,
    ← (closed_closeYaml yaml).lines_append (notMem_closeYaml hyaml)]
  rfl

/-- Without a delimiter among its lines the frontmatter is read back, and the prompt. -/
theorem splitFrontmatter_assemble {yaml prompt : List Char} (hyaml : '\r' ∉ yaml)
    (hprompt : '\r' ∉ prompt) (hfirst : prompt.head? ≠ some '\n')
    (h : ∀ line ∈ lines (closeYaml yaml), ¬IsDelimiter line) :
    splitFrontmatter (assembleSkillMd yaml prompt) = .ok (closeYaml yaml, prompt) := by
  rw [splitFrontmatter_assembleSkillMd hyaml hprompt, findClosingDelimiter_append h,
    (closed_closeYaml yaml).sum_lines (notMem_closeYaml hyaml), Nat.zero_add]
  have hfound : findClosingDelimiter (closeYaml yaml).length
      (lines ("---\n\n".toList ++ prompt)) = some (closeYaml yaml).length := by
    have hdashes : '\r' ∉ "---".toList := by decide
    have hlines : lines ("---\n\n".toList ++ prompt) =
        "---".toList :: lines ('\n' :: prompt) := lines_append_cons hdashes ('\n' :: prompt)
    rw [hlines, findClosingDelimiter, if_pos (by decide)]
  have hafter : (afterLine ("---\n\n".toList ++ prompt)).dropWhile (· = '\n') = prompt := by
    have hline : afterLine ("---\n\n".toList ++ prompt) = '\n' :: prompt := rfl
    rw [hline, List.dropWhile_cons_of_pos (by simp)]
    cases prompt with
    | nil => rfl
    | cons c rest => exact List.dropWhile_cons_of_neg (by simpa using hfirst)
  simp only [hfound, List.take_left, List.drop_left, hafter]

/-- What is left of a text keeps a part that does not begin with what is dropped. -/
theorem suffix_dropWhile {p : Char → Bool} {c : Char} (hc : p c = false) (front rest : List Char) :
    c :: rest <:+ (front ++ c :: rest).dropWhile p := by
  induction front with
  | nil => rw [List.nil_append, List.dropWhile_cons_of_neg (by simp [hc])]
  | cons d front ih =>
    rw [List.cons_append, List.dropWhile_cons]
    split
    · exact ih
    · exact ⟨d :: front, rfl⟩

theorem afterLine_append {front : List Char} (h : '\n' ∈ front) (back : List Char) :
    afterLine (front ++ back) = afterLine front ++ back := by
  induction front with
  | nil => exact absurd h List.not_mem_nil
  | cons c front ih =>
    by_cases hc : c = '\n'
    · simp [afterLine, hc]
    · have hmem : '\n' ∈ front := (List.mem_cons.mp h).resolve_left fun heq => hc heq.symm
      rw [afterLine, afterLine, List.cons_append, List.dropWhile_cons_of_pos (by simp [hc]),
        List.dropWhile_cons_of_pos (by simp [hc])]
      exact ih hmem

/-- With one, what is read as the prompt is longer than the prompt. -/
theorem splitFrontmatter_of_delimiter {yaml prompt : List Char} (hyaml : '\r' ∉ yaml)
    (hprompt : '\r' ∉ prompt) (h : ∃ line ∈ lines (closeYaml yaml), IsDelimiter line) :
    ∃ front back, splitFrontmatter (assembleSkillMd yaml prompt) = .ok (front, back) ∧
      prompt.length < back.length := by
  rw [splitFrontmatter_assembleSkillMd hyaml hprompt]
  obtain ⟨p, hp, hlt⟩ := findClosingDelimiter_lt h 0 (lines ("---\n\n".toList ++ prompt))
  rw [(closed_closeYaml yaml).sum_lines (notMem_closeYaml hyaml), Nat.zero_add] at hlt
  simp only [hp]
  refine ⟨_, _, rfl, ?_⟩
  rw [List.drop_append_of_le_length hlt.le]
  -- the rest of the frontmatter has a line end, so the delimiter behind it is read as prompt
  obtain hnil | ⟨front, hclose⟩ := closed_closeYaml yaml
  · simp [hnil] at hlt
  have hend : '\n' ∈ (closeYaml yaml).drop p := by
    rw [hclose, List.length_append, List.length_singleton] at hlt
    rw [hclose, List.drop_append_of_le_length (Nat.le_of_lt_succ hlt)]
    simp
  have hsuffix := suffix_dropWhile (p := (· = '\n')) (c := '-') (by decide)
    (afterLine ((closeYaml yaml).drop p)) ("--\n\n".toList ++ prompt)
  have hle := hsuffix.length_le
  rw [afterLine_append hend]
  simp only [List.length_cons, List.length_append] at hle
  exact lt_of_lt_of_le (by simp) hle

/-! ### The fields of a manifest -/

namespace YamlMapping

/-- The fields other than the name. -/
def others (fields : YamlMapping) : YamlMapping := fields.filter fun f => !f.1.isKey "name"

theorem get?_eq_of_others {fields fields' : YamlMapping} (h : others fields' = others fields)
    {key : String} (hkey : key ≠ "name") : fields'.get? key = fields.get? key := by
  have hothers (all : YamlMapping) :
      (others all).find? (fun f => f.1.isKey key) = all.find? fun f => f.1.isKey key := by
    rw [others, List.find?_filter]
    refine List.find?_congr fun f _ => ?_
    cases f.1 with
    | string s =>
      by_cases hs : s = key
      · simp [YamlValue.isKey, hs, hkey]
      · simp [YamlValue.isKey, hs]
    | _ => rfl
  rw [get?, get?, ← hothers, h, hothers]

theorem others_insert (fields : YamlMapping) (value : YamlValue) :
    others (fields.insert "name" value) = others fields := by
  have hmap : others (fields.map fun f => if f.1.isKey "name" then (f.1, value) else f) =
      others fields := by
    induction fields with
    | nil => rfl
    | cons f fields ih =>
      rw [others, others, List.map_cons, List.filter_cons, List.filter_cons, ← others, ← others, ih]
      by_cases hf : f.1.isKey "name" = true <;> simp [hf]
  rw [insert]
  split
  · exact hmap
  · simp [others, YamlValue.isKey]

end YamlMapping

namespace YamlValue

theorem asMapping?_withMapping {fields fields' : YamlMapping} {value : YamlValue}
    (h : value.asMapping? = some fields) :
    (value.withMapping fields').asMapping? = some fields' := by
  induction value using asMapping?.induct with
  | case1 fields => rfl
  | case2 tag value ih => exact ih h
  | case3 value hmapping htagged => simp [asMapping?] at h

/-- A step into a value. -/
inductive Step where
  | key (k : String)
  | index (i : ℕ)
  | entryKey (i : ℕ)
  | entryValue (i : ℕ)

/-- The items of a sequence. -/
def asSequence? : YamlValue → Option (List YamlValue)
  | sequence items => some items
  | tagged _ value => value.asSequence?
  | _ => none

def step (value : YamlValue) : Step → Option YamlValue
  | .key k => value.asMapping?.bind (·.get? k)
  | .index i => value.asSequence?.bind (·[i]?)
  | .entryKey i => value.asMapping?.bind fun fields => fields[i]?.map Prod.fst
  | .entryValue i => value.asMapping?.bind fun fields => fields[i]?.map Prod.snd

/-- What stands at a place in a value. -/
def follow : YamlValue → List Step → Option YamlValue
  | value, [] => some value
  | value, s :: path => (value.step s).bind (·.follow path)

/-- The text that a scalar is printed as. -/
def printedText : YamlValue → Option String
  | null => some "null"
  | bool b => some (if b then "true" else "false")
  | number printed => some printed
  | string s => some s
  | tagged _ value => value.printedText
  | _ => none

/-- What a string field reads of a scalar that was printed: its text, and in an `Option<String>`
nothing of a null. -/
def readText (optional : Bool) : YamlValue → Option String
  | null => if optional then none else some "null"
  | value => value.printedText

/-- Whether it is a null, with tags or without. -/
def isNull : YamlValue → Bool
  | null => true
  | tagged _ value => value.isNull
  | _ => false

end YamlValue

open YamlValue (Step)

/-- The fields of a manifest whose reading depends on more than a value: strings read the text of
a scalar, whatever it would be as a value; and structures, vectors and maps take an empty scalar
for an empty one of them. -/
inductive FieldKind where
  | text (optional : Bool)
  | section

/-- A `Vec<String>`. -/
def listField : List Step → Option FieldKind
  | [] => some .section
  | [.index _] => some (.text false)
  | _ => none

/-- The fields of `ActivationCriteria`. -/
def activationField : List Step → Option FieldKind
  | [] => some .section
  | [.key "setup_marker"] => some (.text true)
  | .key k :: path =>
    if k ∈ ["keywords", "exclude_keywords", "patterns", "tags"] then listField path else none
  | _ => none

/-- The fields of `GatingRequirements`. -/
def requiresField : List Step → Option FieldKind
  | [] => some .section
  | .key k :: path => if k ∈ ["bins", "env", "config", "skills"] then listField path else none
  | _ => none

/-- The fields of `SkillOAuthConfig`; `refresh`, as `location` below, is read from values. -/
def oauthField : List Step → Option FieldKind
  | [.key k] =>
    if k ∈ ["authorization_url", "token_url"] then some (.text false)
    else if k ∈ ["client_id", "client_id_env", "client_secret", "client_secret_env", "test_url"]
      then some (.text true)
    else if k ∈ ["scopes", "extra_params"] then some .section
    else none
  | [.key "scopes", .index _] => some (.text false)
  | [.key "extra_params", .entryKey _] | [.key "extra_params", .entryValue _] =>
    some (.text false)
  | _ => none

/-- The fields of `SkillCredentialSpec`. -/
def credentialField : List Step → Option FieldKind
  | [] => some .section
  | [.key "name"] | [.key "provider"] => some (.text false)
  | [.key "setup_instructions"] => some (.text true)
  | .key "hosts" :: path => listField path
  | .key "oauth" :: path => oauthField path
  | _ => none

/-- The fields of `SkillManifest`, but for its name. -/
def manifestField : List Step → Option FieldKind
  | [.key "version"] | [.key "description"] => some (.text false)
  | .key "activation" :: path => activationField path
  | [.key "credentials"] => some .section
  | .key "credentials" :: .index _ :: path => credentialField path
  | .key "requires" :: path => requiresField path
  | _ => none

theorem manifestField_key {path : List Step} {kind : FieldKind}
    (h : manifestField path = some kind) : ∃ k rest, path = .key k :: rest ∧ k ≠ "name" := by
  unfold manifestField at h
  split at h
  · exact ⟨_, _, rfl, by decide⟩
  · exact ⟨_, _, rfl, by decide⟩
  · exact ⟨_, _, rfl, by decide⟩
  · exact ⟨_, _, rfl, by decide⟩
  · exact ⟨_, _, rfl, by decide⟩
  · exact ⟨_, _, rfl, by decide⟩
  · cases h

/-- These fields do not depend on the name. -/
theorem follow_manifestField {fields fields' : YamlMapping}
    (hothers : fields'.others = fields.others) {path : List Step} {kind : FieldKind}
    (h : manifestField path = some kind) :
    (YamlValue.mapping fields').follow path = (YamlValue.mapping fields).follow path := by
  obtain ⟨k, rest, rfl, hk⟩ := manifestField_key h
  have hget := YamlMapping.get?_eq_of_others hothers hk
  have hstep (all : YamlMapping) : (YamlValue.mapping all).follow (.key k :: rest) =
      (all.get? k).bind (·.follow rest) := rfl
  rw [hstep, hstep, hget]

/-! ### What is promised -/

/-- What `rewrite_frontmatter_name` leaves of a printed frontmatter, its last line ended. -/
def withoutDots (yaml : String) : List Char :=
  closeYaml (stripSuffix "...".toList (stripSuffix "...\n".toList yaml.toList))

/-- The fields of a frontmatter. -/
def fields? (host : SkillHost) (yaml : String) : Option YamlMapping :=
  match host.value_from_yaml yaml with
  | .ok value => value.asMapping?
  | .error _ => none

/-- A frontmatter as a file has it after it was printed, that reads with the fields it was printed
of, but perhaps for the name: dots were taken off its end, if any, as they end a document and not a
value. -/
structure Printout (host : SkillHost) (fields : YamlMapping) (front : String)
    (fields' : YamlMapping) : Prop where
  printed : ∃ value yaml, value.asMapping? = some fields ∧ host.yaml_to_string value = .ok yaml ∧
    front = String.ofList (withoutDots yaml)
  reads : fields? host front = some fields'
  others : fields'.others = fields.others

/-- What is relied on of the YAML library, in what it prints. `scalarAt` is the text of the scalar
at a place, as a string field reads it (nothing in an `Option<String>` for which it is null).
Reading inverts printing; scalars are printed as their values are; a null that is printed is
neither a structure nor a vector nor a map; the fields of a manifest are read from the texts of
scalars where they are strings, and else from the values; and a carriage return is printed as an
escape. -/
structure YamlLaws (host : SkillHost) (scalarAt : String → List Step → Option String) : Prop where
  roundTrip : ∀ value yaml, host.yaml_to_string value = .ok yaml →
    host.value_from_yaml yaml = .ok value
  noReturn : ∀ value yaml, host.yaml_to_string value = .ok yaml → '\r' ∉ yaml.toList
  texts : ∀ {fields front fields'}, Printout host fields front fields' →
    ∀ {path optional}, manifestField path = some (.text optional) →
      scalarAt front path = ((YamlValue.mapping fields').follow path).bind (·.readText optional)
  sections : ∀ {fields front fields' manifest}, Printout host fields front fields' →
    host.manifest_from_yaml front = .ok manifest →
    ∀ {path}, manifestField path = some .section →
      ∀ value ∈ (YamlValue.mapping fields').follow path, value.isNull = false
  name : ∀ {fields front fields' manifest}, Printout host fields front fields' →
    fields.get? "name" = some (.string manifest.name) →
    host.manifest_from_yaml front = .ok manifest →
    fields'.get? "name" = some (.string manifest.name)
  manifest : ∀ {fields front fields'}, Printout host fields front fields' →
    ∀ {original all manifest name}, host.manifest_from_yaml original = .ok manifest →
    fields? host original = some all → fields'.others = all.others →
    fields'.get? "name" = some (.string name) →
    (∀ path optional, manifestField path = some (.text optional) →
      scalarAt front path = scalarAt original path) →
    (∀ path, manifestField path = some .section →
      ∀ value ∈ (YamlValue.mapping all).follow path, value.isNull = false) →
    host.manifest_from_yaml front = .ok { manifest with name := name }

/-- The frontmatter of a file. -/
def frontmatter? (content : List Char) : Option String :=
  match splitFrontmatter content with
  | .error _ => none
  | .ok (yaml, _) => some (String.ofList yaml)

/-- A file reads as another one does, but for its name. -/
structure Renamed (host : SkillHost) (scalarAt : String → List Step → Option String)
    (content content' : List Char) (original parsed : ParsedSkill) (front front' : String)
    (fields fields' : YamlMapping) (name : String) : Prop where
  reads_original : parseSkillMdForInstallRecovery host content = .ok original
  reads_parsed : parseSkillMd host content' = .ok parsed
  manifest : parsed.manifest = { original.manifest with name := name }
  prompt_content : parsed.prompt_content = original.prompt_content
  front_original : frontmatter? content = some front
  front_parsed : frontmatter? content' = some front'
  fields_original : fields? host front = some fields
  fields_parsed : fields? host front' = some fields'
  fields : fields'.others = fields.others
  texts : ∀ path optional, manifestField path = some (.text optional) →
    scalarAt front' path = scalarAt front path

/-- The file can be read, with the new name and nothing else changed. -/
def Recovered (host : SkillHost) (scalarAt : String → List Step → Option String)
    (content content' : List Char) (name : String) : Prop :=
  ∃ original parsed front front' fields fields',
    Renamed host scalarAt content content' original parsed front front' fields fields' name

/-- The frontmatter with the new name can be printed between two delimiters: none of its lines
looks like one, and the dots that are taken off its end are not part of a value. -/
structure Printable (host : SkillHost) (fields : YamlMapping) (yaml : String) : Prop where
  line : ∀ line ∈ lines (withoutDots yaml), ¬IsDelimiter line
  dots : ∃ fields', fields? host (String.ofList (withoutDots yaml)) = some fields' ∧
    fields'.others = fields.others ∧ fields'.get? "name" = fields.get? "name"

/-- The frontmatter is written as its values are printed: no string field has a number, a truth
value or a null in another spelling (an empty scalar is a null), and no list or section of fields
is left empty. -/
structure AsPrinted (scalarAt : String → List Step → Option String) (front : String)
    (fields : YamlMapping) : Prop where
  texts : ∀ path optional, manifestField path = some (.text optional) →
    scalarAt front path = ((YamlValue.mapping fields).follow path).bind (·.readText optional)
  sections : ∀ path, manifestField path = some .section →
    ∀ value ∈ (YamlValue.mapping fields).follow path, value.isNull = false

/-- A frontmatter that does not end with dots loses none. -/
theorem printable_of_not_dots {host : SkillHost}
    {scalarAt : String → List Step → Option String} (laws : YamlLaws host scalarAt)
    {value : YamlValue} {fields : YamlMapping} {yaml : String}
    (hvalue : value.asMapping? = some fields)
    (hprint : host.yaml_to_string value = .ok yaml) (hend : yaml.toList.getLast? = some '\n')
    (hdots : ¬"...\n".toList <:+ yaml.toList)
    (hline : ∀ line ∈ lines yaml.toList, ¬IsDelimiter line) : Printable host fields yaml := by
  have hfirst : stripSuffix "...\n".toList yaml.toList = yaml.toList := by
    rw [stripSuffix, if_neg (by rwa [List.isSuffixOf_iff_suffix])]
  have hsecond : stripSuffix "...".toList yaml.toList = yaml.toList := by
    rw [stripSuffix, if_neg]
    rw [List.isSuffixOf_iff_suffix]
    rintro ⟨front, hfront⟩
    rw [← hfront] at hend
    simp at hend
  have hsame : withoutDots yaml = yaml.toList := by
    rw [withoutDots, hfirst, hsecond, closeYaml, if_pos]
    rw [List.getLast?_append, hend]
    rfl
  refine ⟨by rwa [hsame], fields, ?_, rfl, rfl⟩
  rw [hsame, String.ofList_toList, fields?, laws.roundTrip _ _ hprint]
  exact hvalue

/-! ### When the recovery keeps the promise -/

theorem validateSkillName_normalizeSkillIdentifier {value name : String}
    (h : normalizeSkillIdentifier value = some name) : validateSkillName name = true := by
  simp only [normalizeSkillIdentifier] at h
  split at h
  case isTrue hvalid => exact Option.some.inj h ▸ hvalid
  case isFalse =>
    generalize String.ofList _ = sanitized at h
    split at h
    case isTrue hvalid => exact Option.some.inj h ▸ hvalid
    case isFalse => exact nomatch h

/-- A text without its byte order mark. -/
def withoutBom (cs : List Char) : List Char :=
  match cs with
  | c :: rest => if c.toNat = 0xFEFF then rest else cs
  | [] => []

/-- `split_skill_md_frontmatter`, from the first delimiter on. -/
def splitStripped (stripped : List Char) : Except SkillParseError (List Char × List Char) :=
  let trimmed := stripped.dropWhile fun c => c = '\n' || c = '\r'
  if !(List.isPrefixOf ['-', '-', '-'] trimmed) then .error .missingFrontmatter
  else if '\n' ∉ trimmed.drop 3 then .error .missingFrontmatter
  else
    let body := afterLine (trimmed.drop 3)
    match findClosingDelimiter 0 (lines body) with
    | none => .error .missingFrontmatter
    | some yaml_end =>
      .ok (body.take yaml_end, (afterLine (body.drop yaml_end)).dropWhile (· = '\n'))

theorem splitFrontmatter_eq (content : List Char) :
    splitFrontmatter content = splitStripped (withoutBom (normalizeLineEndings content)) := by
  rw [splitFrontmatter]
  cases normalizeLineEndings content <;> rfl

theorem withoutBom_sublist (cs : List Char) : (withoutBom cs).Sublist cs := by
  cases cs with
  | nil => exact .refl _
  | cons c rest =>
    rw [withoutBom]
    split
    · exact List.sublist_cons_self c rest
    · exact .refl _

theorem notMem_normalizeLineEndings (content : List Char) :
    '\r' ∉ normalizeLineEndings content := by
  rw [normalizeLineEndings, List.mem_map]
  rintro ⟨c, -, hc⟩
  split at hc
  case isTrue => exact absurd hc (by decide)
  case isFalse hne => exact hne hc

/-- The prompt of a file has no carriage return, and begins with no line end. -/
theorem prompt_of_splitFrontmatter {content yaml prompt : List Char}
    (h : splitFrontmatter content = .ok (yaml, prompt)) :
    '\r' ∉ prompt ∧ prompt.head? ≠ some '\n' := by
  have hcr : '\r' ∉ withoutBom (normalizeLineEndings content) := fun hmem =>
    notMem_normalizeLineEndings content ((withoutBom_sublist _).subset hmem)
  rw [splitFrontmatter_eq] at h
  generalize withoutBom (normalizeLineEndings content) = stripped at h hcr
  rw [splitStripped] at h
  extract_lets body at h
  split at h
  · exact nomatch h
  split at h
  · exact nomatch h
  split at h
  · exact nomatch h
  case h_2 yaml_end _ =>
    obtain ⟨-, rfl⟩ := Prod.mk.inj (Except.ok.inj h)
    have hafter (cs : List Char) : (afterLine cs).Sublist cs :=
      (List.drop_sublist _ _).trans (List.dropWhile_sublist _)
    have hbody : body.Sublist stripped :=
      (hafter _).trans ((List.drop_sublist 3 _).trans (List.dropWhile_sublist _))
    have hprompt : ((afterLine (body.drop yaml_end)).dropWhile (· = '\n')).Sublist body :=
      (List.dropWhile_sublist _).trans ((hafter _).trans (List.drop_sublist yaml_end body))
    refine ⟨fun hmem => hcr ((hprompt.trans hbody).subset hmem), fun hhead => ?_⟩
    have hnot := List.head?_dropWhile_not (· = '\n') (afterLine (body.drop yaml_end))
    rw [hhead] at hnot
    exact absurd hnot (by simp)

section

variable {host : SkillHost} {content yaml prompt : List Char}

/-- A manifest as the parser leaves it. -/
def SkillManifest.limited (manifest : SkillManifest) : SkillManifest :=
  { manifest with
    activation := manifest.activation.enforceLimits
    requires := manifest.requires.enforceLimits }

/-- What a parsed file has in it. -/
theorem parseSkillMdImpl_eq_ok_iff (hsplit : splitFrontmatter content = .ok (yaml, prompt))
    {validate_name : Bool} {parsed : ParsedSkill} :
    parseSkillMdImpl host content validate_name = .ok parsed ↔
      ∃ manifest, host.manifest_from_yaml (String.ofList yaml) = .ok manifest ∧
        (validate_name = true → validateSkillName manifest.name = true) ∧
        validateSkillVersion manifest.version = true ∧ (trim prompt).isEmpty = false ∧
        parsed = ⟨manifest.limited, String.ofList prompt⟩ := by
  rw [parseSkillMdImpl, hsplit]
  simp only
  cases hmanifest : host.manifest_from_yaml (String.ofList yaml) with
  | error reason => simp
  | ok manifest =>
    simp only [Except.ok.injEq, exists_eq_left', Bool.and_eq_true, Bool.not_eq_true']
    split_ifs with hname hversion hempty
    · simp [hname]
    · simp [hversion]
    · simp [hempty]
    · rw [not_and, Bool.not_eq_false] at hname
      rw [Bool.not_eq_false] at hversion
      rw [Bool.not_eq_true] at hempty
      simp only [Except.ok.injEq, hversion, hempty, true_and]
      exact ⟨fun h => ⟨hname, h.symm⟩, fun h => h.2.symm⟩

theorem get?_insert_name (fields : YamlMapping) (name : String) :
    (fields.insert "name" (.string name)).get? "name" = some (.string name) := by
  have hmap (h : fields.any (fun f => f.1.isKey "name") = true) :
      YamlMapping.get? (fields.map fun f => if f.1.isKey "name" then (f.1, .string name) else f)
        "name" = some (.string name) := by
    induction fields with
    | nil => cases h
    | cons f fields ih =>
      rw [YamlMapping.get?, List.map_cons, List.find?_cons]
      by_cases hf : f.1.isKey "name" = true
      · simp [hf]
      · rw [List.any_cons, Bool.or_eq_true] at h
        simp only [hf, Bool.false_eq_true, if_false]
        exact ih (h.resolve_left hf)
  rw [YamlMapping.insert]
  split
  · exact hmap ‹_›
  · rename_i hnone
    have hfind : fields.find? (fun f => f.1.isKey "name") = none := by
      simpa using hnone
    rw [YamlMapping.get?, List.find?_append, hfind]
    rfl

/-- What an install makes of a file with an invalid name. -/
theorem normalizeInstallContent_eq_ok {content' : List Char} {requested : Option String}
    {invalid name : String} (hinvalid : parseSkillMd host content = .error (.invalidName invalid))
    (h : normalizeInstallContent host content requested = .ok (name, content')) :
    ∃ original value fields yaml front prompt, validateSkillName name = true ∧
      parseSkillMdForInstallRecovery host content = .ok original ∧
      splitFrontmatter content = .ok (front, prompt) ∧
      host.value_from_yaml (String.ofList front) = .ok value ∧
      value.asMapping? = some fields ∧
      host.yaml_to_string (value.withMapping (fields.insert "name" (.string name))) = .ok yaml ∧
      content' = assembleSkillMd
        (stripSuffix "...".toList (stripSuffix "...\n".toList yaml.toList)) prompt := by
  rw [normalizeInstallContent, hinvalid] at h
  simp only at h
  split at h
  · exact nomatch h
  case h_2 original horiginal =>
    split at h
    · exact nomatch h
    case h_2 normalized hnormalized =>
      split at h
      · exact nomatch h
      case h_2 front prompt hsplit =>
        split at h
        · exact nomatch h
        case h_2 rewritten hrewrite =>
          obtain ⟨rfl, rfl⟩ := Prod.mk.inj (Except.ok.inj h)
          -- both ways to a name normalise it
          have hvalid : validateSkillName normalized = true := by
            cases hrequested : requested.bind normalizeSkillIdentifier with
            | some asked =>
              rw [hrequested] at hnormalized
              obtain rfl := Option.some.inj hnormalized
              obtain ⟨_, -, hasked⟩ := Option.bind_eq_some_iff.mp hrequested
              exact validateSkillName_normalizeSkillIdentifier hasked
            | none =>
              rw [hrequested] at hnormalized
              exact validateSkillName_normalizeSkillIdentifier hnormalized
          rw [rewriteFrontmatterName] at hrewrite
          split at hrewrite
          · exact nomatch hrewrite
          case h_2 value hvalue =>
            split at hrewrite
            · exact nomatch hrewrite
            case h_2 fields hfields =>
              split at hrewrite
              · exact nomatch hrewrite
              case h_2 yaml hyaml =>
                obtain rfl := Except.ok.inj hrewrite
                exact ⟨original, value, fields, yaml, front, prompt, hvalid, horiginal, hsplit,
                  hvalue, hfields, hyaml, rfl⟩

end

/-- The fields of a skill with a description. -/
def sampleFields (name description : String) : YamlMapping :=
  [(.string "name", .string name), (.string "description", .string description)]

/-- A manifest that has a name. -/
def sampleManifest (name : String) : SkillManifest :=
  ⟨name, "0.0.0", ⟨[], [], [], [], 2000, none⟩, ⟨[], [], [], []⟩⟩

/-- A library that reads some texts, and prints the skill of one description. -/
def sampleHost (readings : List (String × String × String)) (description printed : String) :
    SkillHost where
  manifest_from_yaml yaml := match readings.lookup yaml with
    | some (name, _) => .ok (sampleManifest name)
    | none => .error "not read"
  value_from_yaml yaml := match readings.lookup yaml with
    | some (name, description) => .ok (.mapping (sampleFields name description))
    | none => .error "not read"
  yaml_to_string
    | .mapping [(.string name, .string "my-skill"), (.string key, .string text)] =>
      if name = "name" ∧ key = "description" ∧ text = description then .ok printed
      else .error "not printed"
    | _ => .error "not printed"
  pattern_compiles _ := true
  lowercase text := text
  sha256 text := text
  binary_exists _ := true
  env_var_set _ := true
  config_exists _ := true

/-- What it reads as the description. -/
def sampleScalarAt (readings : List (String × String × String)) (yaml : String) :
    List Step → Option String
  | [.key "description"] => (readings.lookup yaml).map fun reading => reading.2
  | _ => none

/-- The description is all that a manifest has but for its name. -/
theorem follow_sampleFields (name description : String) {path : List Step} {kind : FieldKind}
    (hkind : manifestField path = some kind) :
    path = [.key "description"] ∨
      (YamlValue.mapping (sampleFields name description)).follow path = none := by
  obtain ⟨k, rest, rfl, hk⟩ := manifestField_key hkind
  have hstep : (YamlValue.mapping (sampleFields name description)).follow (.key k :: rest) =
      ((sampleFields name description).get? k).bind (·.follow rest) := rfl
  by_cases hdescription : k = "description"
  · subst hdescription
    cases rest with
    | nil => exact .inl rfl
    | cons s rest =>
      rw [hstep]
      cases s <;> exact .inr rfl
  · have hnone : (sampleFields name description).get? k = none := by
      simp [sampleFields, YamlMapping.get?, YamlValue.isKey, Ne.symm hk, Ne.symm hdescription]
    rw [hstep, hnone]
    exact .inr rfl

theorem sampleScalarAt_eq {readings : List (String × String × String)}
    {yaml name description : String} (h : readings.lookup yaml = some (name, description))
    {path : List Step} {optional : Bool}
    (hkind : manifestField path = some (.text optional)) :
    sampleScalarAt readings yaml path =
      ((YamlValue.mapping (sampleFields name description)).follow path).bind
        (·.readText optional) := by
  unfold sampleScalarAt
  split
  · rw [h]
    rfl
  · rename_i hother
    obtain rfl | hnone := follow_sampleFields name description hkind
    · exact absurd rfl hother
    · rw [hnone]
      rfl

theorem sampleHost_reads {readings : List (String × String × String)}
    {description printed front : String} {fields : YamlMapping}
    (h : fields? (sampleHost readings description printed) front = some fields) :
    ∃ name text, readings.lookup front = some (name, text) ∧ fields = sampleFields name text := by
  rw [fields?, sampleHost] at h
  dsimp only at h
  cases hlookup : readings.lookup front with
  | none =>
    rw [hlookup] at h
    cases h
  | some reading =>
    rw [hlookup] at h
    cases h
    exact ⟨_, _, rfl, rfl⟩

theorem sampleHost_manifest {readings : List (String × String × String)}
    {description printed front name text : String}
    (h : readings.lookup front = some (name, text)) :
    (sampleHost readings description printed).manifest_from_yaml front =
      .ok (sampleManifest name) := by
  rw [sampleHost]
  dsimp only
  rw [h]

theorem sampleHost_laws {readings : List (String × String × String)}
    {description printed : String}
    (hread : readings.lookup printed = some ("my-skill", description))
    (hcr : '\r' ∉ printed.toList) :
    YamlLaws (sampleHost readings description printed) (sampleScalarAt readings) := by
  have hprint {value : YamlValue} {yaml : String}
      (h : (sampleHost readings description printed).yaml_to_string value = .ok yaml) :
      yaml = printed ∧ value = .mapping (sampleFields "my-skill" description) := by
    simp only [sampleHost] at h
    split at h
    · split at h
      case isTrue heq =>
        obtain ⟨rfl, rfl, rfl⟩ := heq
        exact ⟨(Except.ok.inj h).symm, rfl⟩
      case isFalse => exact nomatch h
    · exact nomatch h
  refine ⟨fun value yaml h => ?_, fun value yaml h => (hprint h).1 ▸ hcr,
    fun h path optional hkind => ?_, fun h _ path hkind value hvalue => ?_,
    fun h _ hmanifest => ?_,
    fun {_ _ _} h {original all manifest name} hmanifest hall _ hname _ _ => ?_⟩
  · obtain ⟨rfl, rfl⟩ := hprint h
    simp only [sampleHost, hread]
  · obtain ⟨name, text, hlookup, rfl⟩ := sampleHost_reads h.reads
    exact sampleScalarAt_eq hlookup hkind
  · obtain ⟨name, text, hlookup, rfl⟩ := sampleHost_reads h.reads
    obtain rfl | hnone := follow_sampleFields name text hkind
    · cases hkind
    · rw [hnone] at hvalue
      cases hvalue
  · obtain ⟨name, text, hlookup, rfl⟩ := sampleHost_reads h.reads
    rw [sampleHost_manifest hlookup] at hmanifest
    cases hmanifest
    rfl
  · obtain ⟨_, text, hlookup, rfl⟩ := sampleHost_reads h.reads
    obtain ⟨_, _, horiginal, rfl⟩ := sampleHost_reads hall
    rw [sampleHost_manifest horiginal] at hmanifest
    cases hmanifest
    cases hname
    exact sampleHost_manifest hlookup

/-- A skill file with an invalid name. -/
def sampleSkill (description : String) : List Char :=
  ("---\nname: my skill\ndescription: " ++ description ++ "\n---\nBe brief.\n").toList

/-- The texts of a skill of one line. -/
def oneLineReadings : List (String × String × String) :=
  [("name: my skill\ndescription: Notes.\n", "my skill", "Notes."),
    ("name: my-skill\ndescription: Notes.\n", "my-skill", "Notes.")]

/-- It is printed as it was read, but for its name. -/
def oneLineHost : SkillHost :=
  sampleHost oneLineReadings "Notes." "name: my-skill\ndescription: Notes.\n"

/-- The texts of a skill of three lines, the second of them dashes. -/
def dashesReadings : List (String × String × String) :=
  [("name: my skill\ndescription: \"Notes:\\n---\\nEnd.\"\n", "my skill", "Notes:\n---\nEnd."),
    ("name: my-skill\ndescription: |-\n  Notes:\n  ---\n  End.\n", "my-skill",
      "Notes:\n---\nEnd."),
    ("name: my-skill\ndescription: |-\n  Notes:\n", "my-skill", "Notes:")]

/-- It is printed as a block. -/
def dashesHost : SkillHost :=
  sampleHost dashesReadings "Notes:\n---\nEnd."
    "name: my-skill\ndescription: |-\n  Notes:\n  ---\n  End.\n"

end T3Claw.Skills
