import T3Claw.Bridge.WorkspacePath
import T3Claw.Data.Lines
import T3Claw.Data.Split
import T3Claw.Memory.SkillTracker
import T3Claw.Types.Value

/-!
# The file of a knowledge document

`serialize_knowledge_doc` and `deserialize_knowledge_doc` of `bridge/store_adapter.rs`: frontmatter
in YAML, a blank line, and the content. The reader drops every newline that the content begins with,
and not only the blank line of the writer (`knowledgeDoc_iff`).
-/

namespace T3Claw.Knowledge

open Bridge (hexDigit uuidString)

/-! ### Documents -/

/-- `MemoryDoc`. -/
structure MemoryDoc (τ : Type) where
  id : BitVec 128
  project_id : BitVec 128
  user_id : List Char
  doc_type : Memory.DocType
  title : List Char
  content : List Char
  source_thread_id : Option (BitVec 128)
  tags : List (List Char)
  metadata : Value
  created_at : τ
  updated_at : τ

/-- What is not of this repository: `chrono`, `uuid`, `serde_json` and `serde_yml`. -/
structure Crates (τ : Type) where
  to_rfc3339 : τ → List Char
  parse_from_rfc3339 : List Char → Option τ
  parse_uuid : List Char → Option (BitVec 128)
  json_to_string : Value → List Char
  yaml_from_str : List Char → Option Value

variable {τ : Type} (C : Crates τ)

/-! ### Writing -/

/-- A character of `yaml_quoted_escape`. -/
def escapeChar (c : Char) : List Char :=
  if c = '\\' then ['\\', '\\']
  else if c = '"' then ['\\', '"']
  else if c = '\n' then ['\\', 'n']
  else if c = '\r' then ['\\', 'r']
  else if c = '\t' then ['\\', 't']
  else if c.toNat < 0x20 then ['\\', 'x', hexDigit (c.toNat / 16), hexDigit c.toNat]
  else [c]

/-- `yaml_quoted_escape`. -/
def yamlQuotedEscape (s : List Char) : List Char := s.flatMap escapeChar

def quote (body : List Char) : List Char := '"' :: body ++ ['"']

/-- A list of quoted texts between brackets. -/
def bracket (bodies : List (List Char)) : List Char :=
  '[' :: ", ".toList.intercalate (bodies.map quote) ++ [']']

/-- `json!({})`. -/
def emptyObject : Value := .ofPairs []

/-- Whether a value equals `json!({})`. -/
def isEmptyObject : Value → Bool
  | .object length _ _ _ => length == 0
  | _ => false

/-- A line of the frontmatter: a key, what is written behind it, and the value it stands for. -/
structure Entry where
  key : String
  text : List Char
  value : Value

namespace Entry

/-- A text between quotes. -/
def quoted (key : String) (body s : List Char) : Entry := ⟨key, quote body, .string (.ofList s)⟩

def line (entry : Entry) : List Char := entry.key.toList ++ ": ".toList ++ entry.text

end Entry

/-- What `serialize_knowledge_doc` writes of tags, if there are any. -/
def tagEntries (tags : List (List Char)) : List Entry :=
  if tags = [] then []
  else [⟨"tags", bracket (tags.map yamlQuotedEscape),
    .ofList (tags.map fun tag => .string (.ofList tag))⟩]

def threadEntries (source_thread_id : Option (BitVec 128)) : List Entry :=
  (source_thread_id.map fun tid =>
    Entry.quoted "source_thread" (uuidString tid.toNat) (uuidString tid.toNat)).toList

/-- What is written of metadata that is not `json!({})`. -/
def metadataEntries (metadata : Value) : List Entry :=
  if isEmptyObject metadata then [] else [⟨"metadata", C.json_to_string metadata, metadata⟩]

/-- The lines that `serialize_knowledge_doc` writes between the rules. -/
def entries (doc : MemoryDoc τ) : List Entry :=
  [Entry.quoted "id" (uuidString doc.id.toNat) (uuidString doc.id.toNat),
    Entry.quoted "project_id" (uuidString doc.project_id.toNat) (uuidString doc.project_id.toNat),
    Entry.quoted "user_id" (yamlQuotedEscape doc.user_id) doc.user_id,
    Entry.quoted "doc_type" doc.doc_type.debug.toList doc.doc_type.debug.toList,
    Entry.quoted "title" (yamlQuotedEscape doc.title) doc.title] ++
  tagEntries doc.tags ++ threadEntries doc.source_thread_id ++
  [Entry.quoted "created" (C.to_rfc3339 doc.created_at) (C.to_rfc3339 doc.created_at),
    Entry.quoted "updated" (C.to_rfc3339 doc.updated_at) (C.to_rfc3339 doc.updated_at)] ++
  metadataEntries C doc.metadata

/-- `serialize_knowledge_doc`. -/
def serializeKnowledgeDoc (doc : MemoryDoc τ) : List Char :=
  "---\n".toList ++ (entries C doc).flatMap (fun entry => entry.line ++ ['\n']) ++
    "---\n\n".toList ++ doc.content

/-! ### Reading -/

/-- The frontmatter and the body of a document. -/
def splitDoc (content : List Char) : Option (List Char × List Char) :=
  let content := content.dropWhile Text.isWhitespace
  if "---".toList.isPrefixOf content then do
    let (_, after_first_line) ← Split.cut? ['\n'] (content.drop 3)
    let (yaml_str, body) ← Split.cut? "\n---".toList after_first_line
    some (yaml_str, body.dropWhile (· == '\n'))
  else none

/-- `yaml.get(key)` as a text. -/
def strField (yaml : Value) (key : String) : Option (List Char) :=
  ((yaml.get? key).bind Value.asStr?).map String.toList

/-- The type that a text names. -/
def docTypeOf (s : List Char) : Memory.DocType :=
  if s = "Summary".toList then .summary
  else if s = "Lesson".toList then .lesson
  else if s = "Issue".toList then .issue
  else if s = "Spec".toList then .spec
  else if s = "Skill".toList then .skill
  else if s = "Plan".toList then .plan
  else .note

/-- A timestamp, or the clock's reading. -/
def timeField (yaml : Value) (key : String) (now : τ) : τ :=
  ((strField yaml key).bind C.parse_from_rfc3339).getD now

/-- `deserialize_knowledge_doc`, with the clock's readings for timestamps that cannot be read. -/
def deserializeKnowledgeDoc (now now' : τ) (content : List Char) : Option (MemoryDoc τ) := do
  let (yaml_str, body) ← splitDoc content
  let yaml ← C.yaml_from_str yaml_str
  let id ← (strField yaml "id").bind C.parse_uuid
  let title ← strField yaml "title"
  some
    { id
      project_id := ((strField yaml "project_id").bind C.parse_uuid).getD 0
      user_id := (strField yaml "user_id").getD "legacy".toList
      doc_type := docTypeOf ((strField yaml "doc_type").getD "Note".toList)
      title
      content := body
      source_thread_id := (strField yaml "source_thread").bind C.parse_uuid
      tags := (((yaml.get? "tags").bind Value.asArray?).map
        (·.filterMap fun tag => tag.asStr?.map String.toList)).getD []
      metadata := (yaml.get? "metadata").getD emptyObject
      created_at := timeField C yaml "created" now
      updated_at := timeField C yaml "updated" now' }

/-! ### YAML -/

def hexValue? (c : Char) : Option ℕ := "0123456789abcdef".toList.idxOf? c

/-- The character of an escape of one letter. -/
def simpleEscape? (c : Char) : Option Char :=
  if c = '\\' then some '\\'
  else if c = '"' then some '"'
  else if c = 'n' then some '\n'
  else if c = 'r' then some '\r'
  else if c = 't' then some '\t'
  else none

/-- What a double-quoted scalar on one line stands for, of the escapes that are written. -/
def unescape : List Char → Option (List Char)
  | [] => some []
  | c :: rest =>
    if c = '\\' then
      match rest with
      | 'x' :: hi :: lo :: rest => do
        let hi ← hexValue? hi
        let lo ← hexValue? lo
        (unescape rest).map (Char.ofNat (16 * hi + lo) :: ·)
      | e :: rest => do
        let c ← simpleEscape? e
        (unescape rest).map (c :: ·)
      | [] => none
    else if c = '"' ∨ (c.toNat < 0x20 ∧ c ≠ '\t') then none
    else (unescape rest).map (c :: ·)

/-- What stands behind a key stands for a value. -/
inductive Denotes : List Char → Value → Prop
  | quoted {body s : List Char} (h : unescape body = some s) :
      Denotes (quote body) (.string (.ofList s))
  | bracket {bodies items : List (List Char)}
      (h : List.Forall₂ (fun body s => unescape body = some s) bodies items) :
      Denotes (bracket bodies) (.ofList (items.map fun s => .string (.ofList s)))
  | json (value : Value) : Denotes (C.json_to_string value) value

/-- The keys of the frontmatter. -/
def KEYS : List String :=
  ["id", "project_id", "user_id", "doc_type", "title", "tags", "source_thread", "created",
    "updated", "metadata"]

/-- The value under a key. -/
def lookup (entries : List Entry) (key : String) : Option Value :=
  (entries.find? (·.key = key)).map (·.value)

/-- A text is read as YAML 1.2 has it, if it is a block mapping with keys of the frontmatter. -/
def ReadsYaml (text : List Char) : Prop :=
  ∀ entries : List Entry, (entries.map (·.key)).Nodup →
    (∀ entry ∈ entries, entry.key ∈ KEYS ∧ Denotes C entry.text entry.value) →
    ['\n'].intercalate (entries.map Entry.line) = text →
      ∃ yaml, C.yaml_from_str text = some yaml ∧ ∀ key, yaml.get? key = lookup entries key

/-- A text without quotes, backslashes and control characters. -/
def IsPlain (s : List Char) : Prop := ∀ c ∈ s, c ≠ '"' ∧ c ≠ '\\' ∧ 0x20 ≤ c.toNat

/-- What is relied on in reading back a document: ids are read back, timestamps are plain, the
metadata is on one line, and the frontmatter is read as YAML. -/
structure Reliable (doc : MemoryDoc τ) : Prop where
  uuid : ∀ id : BitVec 128, id = doc.id ∨ id = doc.project_id ∨ doc.source_thread_id = some id →
    C.parse_uuid (uuidString id.toNat) = some id
  created : IsPlain (C.to_rfc3339 doc.created_at)
  updated : IsPlain (C.to_rfc3339 doc.updated_at)
  one_line : '\n' ∉ C.json_to_string doc.metadata
  yaml : ReadsYaml C (['\n'].intercalate ((entries C doc).map Entry.line))

/-! ### Escapes -/

theorem unescape_cons {c : Char} (hplain : c ≠ '"' ∧ c ≠ '\\' ∧ 0x20 ≤ c.toNat)
    (rest : List Char) : unescape (c :: rest) = (unescape rest).map (c :: ·) := by
  obtain ⟨hquote, hbackslash, hlow⟩ := hplain
  rw [unescape.eq_def]
  simp only [if_neg hbackslash]
  rw [if_neg]
  rintro (h | h)
  · exact hquote h
  · omega

theorem unescape_of_isPlain {s : List Char} (h : IsPlain s) : unescape s = some s := by
  induction s with
  | nil => rw [unescape]
  | cons c s ih =>
    obtain ⟨hc, hs⟩ := List.forall_mem_cons.mp h
    rw [unescape_cons hc, ih hs, Option.map_some]

/-- A control character is written with its two digits. -/
theorem unescape_hex {c : Char} (hc : c.toNat < 0x20) (rest : List Char) :
    unescape ('\\' :: 'x' :: hexDigit (c.toNat / 16) :: hexDigit c.toNat :: rest) =
      (unescape rest).map (c :: ·) := by
  have hdigits : ∀ n : Fin 32, hexValue? (hexDigit (n / 16)) = some (n / 16) ∧
      hexValue? (hexDigit n) = some (n % 16) := by decide +kernel
  obtain ⟨hhi, hlo⟩ := hdigits ⟨c.toNat, hc⟩
  have hvalue : Char.ofNat (16 * (c.toNat / 16) + c.toNat % 16) = c := by
    rw [Nat.div_add_mod, Char.ofNat_toNat]
  rw [unescape]
  simp only at hhi hlo
  simp [hhi, hlo, hvalue]

/-- Escapes are read back. -/
theorem unescape_escape (s : List Char) : unescape (yamlQuotedEscape s) = some s := by
  induction s with
  | nil => rw [yamlQuotedEscape, List.flatMap_nil, unescape]
  | cons c s ih =>
    have hcons : yamlQuotedEscape (c :: s) = escapeChar c ++ yamlQuotedEscape s := List.flatMap_cons
    have hsimple {e d : Char} (he : e ≠ 'x') (h : simpleEscape? e = some d) :
        unescape (['\\', e] ++ yamlQuotedEscape s) = some (d :: s) := by
      rw [List.cons_append, List.cons_append, List.nil_append, unescape.eq_def]
      simp [he, h, ih]
    rw [hcons, escapeChar]
    split_ifs with hbackslash hquote hnewline hreturn htab hcontrol
    · subst hbackslash
      exact hsimple (by decide) (by decide)
    · subst hquote
      exact hsimple (by decide) (by decide)
    · subst hnewline
      exact hsimple (by decide) (by decide)
    · subst hreturn
      exact hsimple (by decide) (by decide)
    · subst htab
      exact hsimple (by decide) (by decide)
    · rw [List.cons_append, List.cons_append, List.cons_append, List.cons_append, List.nil_append,
        unescape_hex hcontrol, ih, Option.map_some]
    · rw [List.singleton_append, unescape_cons ⟨hquote, hbackslash, not_lt.mp hcontrol⟩, ih,
        Option.map_some]

/-- A newline is not read. -/
theorem notMem_of_unescape {body s : List Char} (h : unescape body = some s) : '\n' ∉ body := by
  fun_induction unescape body generalizing s with
  | case1 => exact List.not_mem_nil
  | case2 hi lo rest ih =>
    obtain ⟨high, hhigh, h⟩ := Option.bind_eq_some_iff.mp h
    obtain ⟨low, hlow, h⟩ := Option.bind_eq_some_iff.mp h
    obtain ⟨s, hs, -⟩ := Option.map_eq_some_iff.mp h
    have hne {d : Char} {n : ℕ} (hd : hexValue? d = some n) : '\n' ≠ d := by
      rintro rfl
      exact absurd hd (by decide +revert)
    simp [hne hhigh, hne hlow, ih hs]
  | case3 e rest _ ih =>
    obtain ⟨c, hc, h⟩ := Option.bind_eq_some_iff.mp h
    obtain ⟨s, hs, -⟩ := Option.map_eq_some_iff.mp h
    have hne : '\n' ≠ e := by
      rintro rfl
      cases hc
    simp [hne, ih hs]
  | case4 => cases h
  | case5 => cases h
  | case6 c rest _ hnot ih =>
    obtain ⟨s, hs, -⟩ := Option.map_eq_some_iff.mp h
    have hne : '\n' ≠ c := by
      rintro rfl
      exact hnot (.inr ⟨by decide, by decide⟩)
    simp [hne, ih hs]

/-! ### Lines -/

/-- Lines that are ended are lines that are joined, and a newline. -/
theorem flatMap_lines {lines : List (List Char)} (h : lines ≠ []) :
    lines.flatMap (· ++ ['\n']) = ['\n'].intercalate lines ++ ['\n'] := by
  induction lines with
  | nil => contradiction
  | cons line lines ih =>
    cases lines with
    | nil => simp
    | cons next lines =>
      rw [List.flatMap_cons, ih (List.cons_ne_nil next lines), List.intercalate_cons_cons]
      simp

/-- A pattern does not begin in what its first character is not in. -/
theorem infix_append_iff {x : Char} {pattern front back : List Char} (hx : x ∉ front) :
    x :: pattern <:+: front ++ back ↔ x :: pattern <:+: back := by
  induction front with
  | nil => rw [List.nil_append]
  | cons c front ih =>
    obtain ⟨hc, hfront⟩ := not_or.mp (mt List.mem_cons.mpr hx)
    rw [List.cons_append, List.infix_cons_iff, ih hfront, or_iff_right]
    exact fun hpre => hc (List.cons_prefix_cons.mp hpre).1

/-- There is no rule between lines that do not begin with one. -/
theorem not_infix_lines {lines : List (List Char)}
    (h : ∀ line ∈ lines, '\n' ∉ line ∧ line ≠ [] ∧ line.head? ≠ some '-') :
    ¬ '\n' :: "---".toList <:+: ['\n'].intercalate lines := by
  induction lines with
  | nil => simp
  | cons line lines ih =>
    obtain ⟨⟨hline, -⟩, hlines⟩ := List.forall_mem_cons.mp h
    cases lines with
    | nil =>
      rw [List.intercalate_singleton]
      exact fun hin => hline (hin.subset List.mem_cons_self)
    | cons next lines =>
      obtain ⟨⟨-, hne, hhead⟩, -⟩ := List.forall_mem_cons.mp hlines
      obtain ⟨c, next', rfl⟩ := List.exists_cons_of_ne_nil hne
      rw [List.intercalate_cons_cons, List.append_assoc, infix_append_iff hline,
        List.singleton_append, List.infix_cons_iff, not_or]
      refine ⟨fun hpre => hhead ?_, ih hlines⟩
      obtain ⟨-, hpre⟩ := List.cons_prefix_cons.mp hpre
      obtain ⟨rest, hrest⟩ : ∃ rest, ['\n'].intercalate ((c :: next') :: lines) = c :: rest := by
        cases lines with
        | nil => exact ⟨next', List.intercalate_singleton⟩
        | cons => exact ⟨_, by rw [List.intercalate_cons_cons, List.append_assoc]; rfl⟩
      rw [hrest] at hpre
      obtain ⟨rfl, -⟩ := List.cons_prefix_cons.mp hpre
      rfl

/-- A document is split into its lines, and its body without the newlines at the front. -/
theorem splitDoc_lines {lines : List (List Char)} (hne : lines ≠ [])
    (h : ∀ line ∈ lines, '\n' ∉ line ∧ line ≠ [] ∧ line.head? ≠ some '-') (body : List Char) :
    splitDoc ("---\n".toList ++ lines.flatMap (· ++ ['\n']) ++ "---\n\n".toList ++ body) =
      some (['\n'].intercalate lines, body.dropWhile (· == '\n')) := by
  have hcontent : "---\n".toList ++ lines.flatMap (· ++ ['\n']) ++ "---\n\n".toList ++ body =
      '-' :: '-' :: '-' :: '\n' :: (['\n'].intercalate lines ++
        ('\n' :: "---".toList ++ ('\n' :: '\n' :: body))) := by
    rw [flatMap_lines hne]
    simp
  have htrim (rest : List Char) : ('-' :: rest).dropWhile Text.isWhitespace = '-' :: rest := rfl
  have hopens (rest : List Char) : "---".toList.isPrefixOf ('-' :: '-' :: '-' :: rest) = true := by
    simp
  have hfirst (text : List Char) : Split.cut? ['\n'] ('\n' :: text) = some ([], text) :=
    Split.cut?_prefix text
  have hrule : Split.cut? "\n---".toList (['\n'].intercalate lines ++
      ('\n' :: "---".toList ++ ('\n' :: '\n' :: body))) =
        some (['\n'].intercalate lines, '\n' :: '\n' :: body) :=
    Split.cut?_of_not_infix (by decide) (not_infix_lines h) _
  rw [hcontent, splitDoc]
  simp only [htrim]
  rw [if_pos (hopens _), List.drop_succ_cons, List.drop_succ_cons, List.drop_succ_cons,
    List.drop_zero, hfirst]
  simp only [Option.bind_eq_bind, Option.bind_some, hrule]
  rfl

/-! ### Entries -/

theorem isPlain_uuidString (n : ℕ) : IsPlain (uuidString n) := by
  intro c hc
  have hmem : c = '-' ∨ c ∈ Bridge.hex 32 n := by
    simp only [uuidString, List.mem_append, List.mem_cons] at hc
    obtain (((h | h | h) | h | h) | h | h) | h | h := hc
    · exact .inr (List.mem_of_mem_take h)
    · exact .inl h
    · exact .inr (List.mem_of_mem_drop (List.mem_of_mem_take h))
    · exact .inl h
    · exact .inr (List.mem_of_mem_drop (List.mem_of_mem_take h))
    · exact .inl h
    · exact .inr (List.mem_of_mem_drop (List.mem_of_mem_take h))
    · exact .inl h
    · exact .inr (List.mem_of_mem_drop h)
  have hdigit (h : c ∈ Bridge.hex 32 n) : c ∈ "0123456789abcdef".toList := by
    by_contra hnot
    exact Sandbox.notMem_hex hnot 32 n h
  have hall : ('-' :: "0123456789abcdef".toList).all fun c =>
      c != '"' && c != '\\' && decide (0x20 ≤ c.toNat) := by decide
  have hplain := List.all_eq_true.mp hall c (List.mem_cons.mpr (hmem.imp_right hdigit))
  simpa [and_assoc] using hplain

theorem isPlain_debug (doc_type : Memory.DocType) : IsPlain doc_type.debug.toList := by
  intro c hc
  have hall : doc_type.debug.toList.all fun c =>
      c != '"' && c != '\\' && decide (0x20 ≤ c.toNat) := by
    cases doc_type <;> decide
  have hplain := List.all_eq_true.mp hall c hc
  simpa [and_assoc] using hplain

/-- What holds of an entry. -/
structure Sound (entry : Entry) : Prop where
  key : entry.key ∈ KEYS
  denotes : Denotes C entry.text entry.value
  one_line : '\n' ∉ entry.text

variable {C}

theorem sound_quoted {key : String} (hkey : key ∈ KEYS) {body s : List Char}
    (h : unescape body = some s) : Sound C (.quoted key body s) :=
  ⟨hkey, .quoted h, by simpa [Entry.quoted, quote] using notMem_of_unescape h⟩

theorem sound_plain {key : String} (hkey : key ∈ KEYS) {s : List Char} (h : IsPlain s) :
    Sound C (.quoted key s s) :=
  sound_quoted hkey (unescape_of_isPlain h)

theorem one_line_bracket {bodies : List (List Char)} (h : ∀ body ∈ bodies, '\n' ∉ body) :
    '\n' ∉ bracket bodies := by
  intro hmem
  have hmem : '\n' ∈ ", ".toList.intercalate (bodies.map quote) := by simpa [bracket] using hmem
  obtain hmem | ⟨piece, hpiece, hmem⟩ := Text.mem_intercalate hmem
  · exact absurd hmem (by decide)
  · obtain ⟨body, hbody, rfl⟩ := List.mem_map.mp hpiece
    exact h body hbody (by simpa [quote] using hmem)

theorem sound_tags (tags : List (List Char)) :
    Sound C ⟨"tags", bracket (tags.map yamlQuotedEscape),
      .ofList (tags.map fun tag => .string (.ofList tag))⟩ := by
  have hkey : "tags" ∈ KEYS := by decide
  refine ⟨hkey, .bracket ?_, fun h => ?_⟩
  · rw [List.forall₂_map_left_iff]
    exact List.forall₂_same.mpr fun tag _ => unescape_escape tag
  · refine one_line_bracket (fun body hbody => ?_) h
    obtain ⟨tag, -, rfl⟩ := List.mem_map.mp hbody
    exact notMem_of_unescape (unescape_escape tag)

theorem sound_entries {doc : MemoryDoc τ} (h : Reliable C doc) :
    ∀ entry ∈ entries C doc, Sound C entry := by
  have htags : ∀ entry ∈ tagEntries doc.tags, Sound C entry := by
    rw [tagEntries]
    split_ifs
    · exact List.forall_mem_nil _
    · exact List.forall_mem_singleton.mpr (sound_tags doc.tags)
  have hthread : ∀ entry ∈ threadEntries doc.source_thread_id, Sound C entry := by
    intro entry hentry
    obtain ⟨tid, -, rfl⟩ := Option.map_eq_some_iff.mp (Option.mem_toList.mp hentry)
    exact sound_plain (by decide) (isPlain_uuidString _)
  have hmetadata : ∀ entry ∈ metadataEntries C doc.metadata, Sound C entry := by
    rw [metadataEntries]
    split_ifs
    · exact List.forall_mem_nil _
    · exact List.forall_mem_singleton.mpr ⟨by simp [KEYS], .json doc.metadata, h.one_line⟩
  simp only [entries, List.forall_mem_append, List.forall_mem_cons]
  refine ⟨⟨⟨⟨⟨?_, ?_, ?_, ?_, ?_, List.forall_mem_nil _⟩, htags⟩, hthread⟩, ?_, ?_,
    List.forall_mem_nil _⟩, hmetadata⟩
  · exact sound_plain (by decide) (isPlain_uuidString _)
  · exact sound_plain (by decide) (isPlain_uuidString _)
  · exact sound_quoted (by decide) (unescape_escape _)
  · exact sound_plain (by decide) (isPlain_debug _)
  · exact sound_quoted (by decide) (unescape_escape _)
  · exact sound_plain (by decide) h.created
  · exact sound_plain (by decide) h.updated

/-- No key is written twice. -/
theorem nodup_entries (doc : MemoryDoc τ) : ((entries C doc).map (·.key)).Nodup := by
  rw [entries, tagEntries, threadEntries, metadataEntries]
  cases doc.source_thread_id <;> split_ifs <;> simp [Entry.quoted]

/-! ### Fields -/

theorem lookup_append (front back : List Entry) (key : String) :
    lookup (front ++ back) key = (lookup front key).or (lookup back key) := by
  rw [lookup, List.find?_append, Option.map_or]
  rfl

theorem lookup_cons (entry : Entry) (rest : List Entry) (key : String) :
    lookup (entry :: rest) key = if entry.key = key then some entry.value else lookup rest key := by
  rw [lookup, List.find?_cons]
  by_cases h : entry.key = key
  · simp [h]
  · simp [h, lookup]

/-- What stands in the file under each key. -/
theorem lookup_entries (doc : MemoryDoc τ) :
    lookup (entries C doc) "id" = some (.string (.ofList (uuidString doc.id.toNat))) ∧
    lookup (entries C doc) "project_id" =
      some (.string (.ofList (uuidString doc.project_id.toNat))) ∧
    lookup (entries C doc) "user_id" = some (.string (.ofList doc.user_id)) ∧
    lookup (entries C doc) "doc_type" = some (.string (.ofList doc.doc_type.debug.toList)) ∧
    lookup (entries C doc) "title" = some (.string (.ofList doc.title)) ∧
    lookup (entries C doc) "tags" = (if doc.tags = [] then none
      else some (.ofList (doc.tags.map fun tag => .string (.ofList tag)))) ∧
    lookup (entries C doc) "source_thread" =
      doc.source_thread_id.map (fun tid => .string (.ofList (uuidString tid.toNat))) ∧
    lookup (entries C doc) "created" = some (.string (.ofList (C.to_rfc3339 doc.created_at))) ∧
    lookup (entries C doc) "updated" = some (.string (.ofList (C.to_rfc3339 doc.updated_at))) ∧
    lookup (entries C doc) "metadata" =
      if isEmptyObject doc.metadata then none else some doc.metadata := by
  have hnil (key : String) : lookup [] key = none := rfl
  simp only [entries, tagEntries, threadEntries, metadataEntries, lookup_append]
  cases doc.source_thread_id <;> by_cases hempty : doc.tags = [] <;>
    by_cases hobject : isEmptyObject doc.metadata = true <;>
      simp [lookup_cons, hnil, Entry.quoted, hempty, hobject]

/-! ### The round trip -/

theorem line_of_sound {entry : Entry} (h : Sound C entry) :
    '\n' ∉ entry.line ∧ entry.line ≠ [] ∧ entry.line.head? ≠ some '-' := by
  have hall : KEYS.all fun key => !key.toList.isEmpty && key.toList.all fun c =>
      c != '\n' && c != '-' := by decide
  have hkey := List.all_eq_true.mp hall _ h.key
  rw [Bool.and_eq_true, Bool.not_eq_true', List.isEmpty_eq_false_iff, List.all_eq_true] at hkey
  obtain ⟨c, rest, hcons⟩ := List.exists_cons_of_ne_nil hkey.1
  have hplain : ∀ c ∈ entry.key.toList, c ≠ '\n' ∧ c ≠ '-' := fun c hc => by
    simpa using hkey.2 c hc
  refine ⟨fun hmem => ?_, ?_, ?_⟩
  · rw [Entry.line, List.mem_append, List.mem_append] at hmem
    obtain (hmem | hmem) | hmem := hmem
    · exact (hplain _ hmem).1 rfl
    · exact absurd hmem (by decide)
    · exact h.one_line hmem
  · simp [Entry.line, hcons]
  · rw [Entry.line, hcons]
    simpa using (hplain c (hcons ▸ List.mem_cons_self)).2

theorem docTypeOf_debug (doc_type : Memory.DocType) :
    docTypeOf doc_type.debug.toList = doc_type := by
  cases doc_type <;> decide

/-- What is empty is `json!({})`. -/
theorem eq_emptyObject {value : Value} (h : isEmptyObject value = true) : emptyObject = value := by
  cases value with
  | object length key ascending value =>
    obtain rfl : length = 0 := by simpa [isEmptyObject] using h
    exact Value.object_congr rfl _ _ (fun i => i.elim0) fun i => i.elim0
  | _ => cases h

/-- A document is read back, without the newlines at the front of its content. -/
theorem deserialize_serialize {doc : MemoryDoc τ} (h : Reliable C doc) (now now' : τ) :
    deserializeKnowledgeDoc C now now' (serializeKnowledgeDoc C doc) =
      some { doc with
        content := doc.content.dropWhile (· == '\n')
        created_at := (C.parse_from_rfc3339 (C.to_rfc3339 doc.created_at)).getD now
        updated_at := (C.parse_from_rfc3339 (C.to_rfc3339 doc.updated_at)).getD now' } := by
  have hsound := sound_entries h
  have hsplit : splitDoc (serializeKnowledgeDoc C doc) =
      some (['\n'].intercalate ((entries C doc).map Entry.line),
        doc.content.dropWhile (· == '\n')) := by
    have hlines : (entries C doc).flatMap (fun entry => entry.line ++ ['\n']) =
        ((entries C doc).map Entry.line).flatMap (· ++ ['\n']) := by
      rw [List.flatMap_map]
    unfold serializeKnowledgeDoc
    rw [hlines]
    refine splitDoc_lines (by simp [entries]) (fun line hline => ?_) doc.content
    obtain ⟨entry, hentry, rfl⟩ := List.mem_map.mp hline
    exact line_of_sound (hsound entry hentry)
  obtain ⟨yaml, hyaml, hget⟩ := h.yaml (entries C doc) (nodup_entries doc)
    (fun entry hentry => ⟨(hsound entry hentry).key, (hsound entry hentry).denotes⟩) rfl
  obtain ⟨hid, hproject, huser, htype, htitle, htags, hthread, hcreated, hupdated, hmetadata⟩ :=
    lookup_entries (C := C) doc
  -- every text field comes back as it was printed
  have hstr {key : String} {s : List Char}
      (hkey : lookup (entries C doc) key = some (.string (.ofList s))) :
      strField yaml key = some s := by
    rw [strField, hget, hkey, Option.bind_some, Value.asStr?_string, Option.map_some,
      String.toList_ofList]
  have htagged : (((yaml.get? "tags").bind Value.asArray?).map
      (·.filterMap fun tag => tag.asStr?.map String.toList)).getD [] = doc.tags := by
    rw [hget, htags]
    split_ifs with hempty
    · exact hempty.symm
    · simp [List.filterMap_map, Function.comp_def]
  have hthreaded : (strField yaml "source_thread").bind C.parse_uuid = doc.source_thread_id := by
    cases hsome : doc.source_thread_id with
    | none =>
      rw [strField, hget, hthread, hsome]
      rfl
    | some tid =>
      rw [hsome] at hthread
      rw [hstr hthread, Option.bind_some, h.uuid tid (.inr (.inr hsome))]
  have hobject : (yaml.get? "metadata").getD emptyObject = doc.metadata := by
    rw [hget, hmetadata]
    split_ifs with hempty
    · exact eq_emptyObject hempty
    · rfl
  rw [deserializeKnowledgeDoc, hsplit]
  simp only [Option.bind_eq_bind, Option.bind_some, hyaml, hstr hid, hstr hproject, hstr huser,
    hstr htype, hstr htitle, timeField, hstr hcreated, hstr hupdated, htagged, hthreaded, hobject,
    h.uuid doc.id (.inl rfl), h.uuid doc.project_id (.inr (.inl rfl)), Option.getD_some,
    docTypeOf_debug]

/-- What a document has to be to be read back: its content does not begin with a newline, and its
timestamps are read back. -/
structure Survives (now now' : τ) (doc : MemoryDoc τ) : Prop where
  content : doc.content.head? ≠ some '\n'
  created : (C.parse_from_rfc3339 (C.to_rfc3339 doc.created_at)).getD now = doc.created_at
  updated : (C.parse_from_rfc3339 (C.to_rfc3339 doc.updated_at)).getD now' = doc.updated_at

theorem dropWhile_newline_eq_iff (content : List Char) :
    content.dropWhile (· == '\n') = content ↔ content.head? ≠ some '\n' := by
  cases content with
  | nil => simp
  | cons c rest =>
    by_cases hc : c = '\n'
    · subst hc
      refine iff_of_false (fun h => ?_) (by simp)
      have hle : (rest.dropWhile (· == '\n')).length ≤ rest.length :=
        (List.dropWhile_suffix _).length_le
      rw [List.dropWhile_cons_of_pos (by simp)] at h
      rw [h, List.length_cons] at hle
      omega
    · simp [hc]

/-- A document is read back as it is exactly when its content does not begin with a newline, and its
timestamps are read back. -/
theorem knowledgeDoc_iff {doc : MemoryDoc τ} (h : Reliable C doc) (now now' : τ) :
    deserializeKnowledgeDoc C now now' (serializeKnowledgeDoc C doc) = some doc ↔
      Survives (C := C) now now' doc := by
  rw [deserialize_serialize h, Option.some.injEq]
  constructor
  · intro hsame
    exact ⟨(dropWhile_newline_eq_iff _).mp (congrArg (·.content) hsame),
      congrArg (·.created_at) hsame, congrArg (·.updated_at) hsame⟩
  · intro hsurvives
    rw [(dropWhile_newline_eq_iff _).mpr hsurvives.content, hsurvives.created, hsurvives.updated]

/-! ### A reader of one file -/

/-- What was read of lines, under their keys. -/
def mappingOf (entries : List Entry) : Value :=
  .ofPairs ((entries.map fun entry => (entry.key, entry.value)).reverse)

theorem get?_mappingOf (entries : List Entry) (key : String) :
    (mappingOf entries).get? key = lookup entries key := by
  rw [mappingOf, Value.get?_ofPairs, List.reverse_reverse, Fields.get?, lookup, List.find?_map,
    Option.map_map]
  rfl

/-- An id. -/
def exampleId : BitVec 128 := 7

/-- Timestamps that are their RFC 3339 texts, and a reader of one id and of one text. -/
def readerOf (text : List Char) (yaml : Value) : Crates (List Char) where
  to_rfc3339 := id
  parse_from_rfc3339 := some
  parse_uuid s := if s = uuidString exampleId.toNat then some exampleId else none
  json_to_string _ := "null".toList
  yaml_from_str yaml_str := if yaml_str = text then some yaml else none

theorem parse_uuid_readerOf (text : List Char) (yaml : Value) :
    (readerOf text yaml).parse_uuid (uuidString exampleId.toNat) = some exampleId := by
  simp [readerOf]

theorem one_line_of_denotes {text text' : List Char} {yaml value : Value}
    (h : Denotes (readerOf text' yaml) text value) : '\n' ∉ text := by
  cases h with
  | quoted h => simpa [quote] using notMem_of_unescape h
  | @bracket bodies items h =>
    refine one_line_bracket ?_
    induction h with
    | nil => exact List.forall_mem_nil _
    | cons h _ ih => exact List.forall_mem_cons.mpr ⟨notMem_of_unescape h, ih⟩
  | json =>
    have hnull : '\n' ∉ "null".toList := by decide
    exact hnull

/-- A line of a quoted text is of one entry. -/
theorem eq_of_line_eq {text' : List Char} {yaml : Value} {entry : Entry}
    (hsound : entry.key ∈ KEYS ∧ Denotes (readerOf text' yaml) entry.text entry.value)
    {key : String} (hkey : key ∈ KEYS) {body s : List Char} (hbody : unescape body = some s)
    (hline : entry.line = (Entry.quoted key body s).line) : entry = .quoted key body s := by
  have hcolon {key : String} (hkey : key ∈ KEYS) : ':' ∉ key.toList := by
    have hall : KEYS.all fun key => key.toList.all (· != ':') := by decide
    intro hmem
    have hne := List.all_eq_true.mp (List.all_eq_true.mp hall key hkey) ':' hmem
    cases hne
  obtain ⟨key', text, value⟩ := entry
  have hsplit := Split.cut?_singleton (hcolon hsound.1) (' ' :: text)
  have hsplit' := Split.cut?_singleton (hcolon hkey) (' ' :: quote body)
  have hsame : key'.toList ++ ':' :: ' ' :: text = key.toList ++ ':' :: ' ' :: quote body := by
    simpa [Entry.line, Entry.quoted] using hline
  rw [hsame, hsplit'] at hsplit
  obtain ⟨hkeys, htexts⟩ := Prod.mk.inj (Option.some.inj hsplit)
  obtain rfl : key = key' := String.toList_inj.mp hkeys
  obtain rfl := (List.cons.inj htexts).2
  have hdenotes := hsound.2
  generalize htext : quote body = text at hdenotes
  cases hdenotes with
  | @quoted body' s' h =>
    obtain rfl : body = body' := by simpa [quote] using htext
    obtain rfl := Option.some.inj (hbody.symm.trans h)
    rfl
  | bracket => cases htext
  | json => cases htext

/-- Lines of quoted texts are of these entries alone. -/
theorem eq_of_lines_eq {text' : List Char} {yaml : Value} {given written : List Entry}
    (hgiven : ∀ entry ∈ given,
      entry.key ∈ KEYS ∧ Denotes (readerOf text' yaml) entry.text entry.value)
    (hwritten : ∀ entry ∈ written, ∃ key ∈ KEYS, ∃ body s, unescape body = some s ∧
      entry = .quoted key body s)
    (hlines : given.map Entry.line = written.map Entry.line) : given = written := by
  induction given generalizing written with
  | nil => exact (List.map_eq_nil_iff.mp hlines.symm).symm
  | cons entry given ih =>
    cases written with
    | nil => cases hlines
    | cons entry' written =>
      obtain ⟨hline, hrest⟩ := List.cons.inj hlines
      obtain ⟨hentry, hgiven⟩ := List.forall_mem_cons.mp hgiven
      obtain ⟨⟨key, hkey, body, s, hbody, rfl⟩, hlater⟩ := List.forall_mem_cons.mp hwritten
      rw [eq_of_line_eq hentry hkey hbody hline, ih hgiven hlater hrest]

/-- The reader reads its one text as it is written, where that is lines of quoted texts. -/
theorem readsYaml_readerOf {written : List Entry} (hne : written ≠ [])
    (hwritten : ∀ entry ∈ written, ∃ key ∈ KEYS, ∃ body s, unescape body = some s ∧
      entry = .quoted key body s) {text : List Char}
    (htext : text = ['\n'].intercalate (written.map Entry.line)) :
    ReadsYaml (readerOf text (mappingOf written)) text := by
  intro given _ hgiven hjoin
  have hline {entry : Entry} (h : entry.key ∈ KEYS ∧
      Denotes (readerOf text (mappingOf written)) entry.text entry.value) :
      '\n' ∉ entry.line ∧ entry.line ≠ [] :=
    have hsound := line_of_sound (C := readerOf text (mappingOf written))
      ⟨h.1, h.2, one_line_of_denotes h.2⟩
    ⟨hsound.1, hsound.2.1⟩
  have hquoted : ∀ entry ∈ written, entry.key ∈ KEYS ∧
      Denotes (readerOf text (mappingOf written)) entry.text entry.value := by
    intro entry hentry
    obtain ⟨key, hkey, body, s, hbody, rfl⟩ := hwritten entry hentry
    exact ⟨hkey, .quoted hbody⟩
  have hsplit : text.splitOn '\n' = written.map Entry.line := by
    rw [htext]
    refine List.splitOn_intercalate '\n' (fun line h => ?_) (by simpa using hne)
    obtain ⟨entry, hentry, rfl⟩ := List.mem_map.mp h
    exact (hline (hquoted entry hentry)).1
  have hlines : given.map Entry.line = written.map Entry.line := by
    rw [← hsplit, ← hjoin]
    refine (List.splitOn_intercalate '\n' (fun line h => ?_) fun hnil => ?_).symm
    · obtain ⟨entry, hentry, rfl⟩ := List.mem_map.mp h
      exact (hline (hgiven entry hentry)).1
    · rw [hnil] at hjoin
      obtain rfl : [] = text := hjoin
      obtain ⟨entry, rest, rfl⟩ := List.exists_cons_of_ne_nil hne
      have hempty : [[]] = (entry :: rest).map Entry.line := hsplit
      exact (hline (hquoted entry List.mem_cons_self)).2 (List.cons.inj hempty).1.symm
  obtain rfl := eq_of_lines_eq hgiven hwritten hlines
  exact ⟨mappingOf given, if_pos rfl, get?_mappingOf given⟩

/-! ### Two documents -/

def exampleStamp : List Char := "2026-01-02T03:04:05+00:00".toList

/-- A plan with that content. -/
def examplePlan (content : String) : MemoryDoc (List Char) where
  id := exampleId
  project_id := exampleId
  user_id := "alice".toList
  doc_type := .plan
  title := "A \"plan\"".toList
  content := content.toList
  source_thread_id := some exampleId
  tags := []
  metadata := emptyObject
  created_at := exampleStamp
  updated_at := exampleStamp

/-- The lines of the plan. -/
def planEntries : List Entry :=
  [.quoted "id" (uuidString exampleId.toNat) (uuidString exampleId.toNat),
    .quoted "project_id" (uuidString exampleId.toNat) (uuidString exampleId.toNat),
    .quoted "user_id" (yamlQuotedEscape "alice".toList) "alice".toList,
    .quoted "doc_type" "Plan".toList "Plan".toList,
    .quoted "title" (yamlQuotedEscape "A \"plan\"".toList) "A \"plan\"".toList,
    .quoted "source_thread" (uuidString exampleId.toNat) (uuidString exampleId.toNat),
    .quoted "created" exampleStamp exampleStamp, .quoted "updated" exampleStamp exampleStamp]

/-- A reader of the plan's frontmatter. -/
def planReader : Crates (List Char) :=
  readerOf (['\n'].intercalate (planEntries.map Entry.line)) (mappingOf planEntries)

theorem isPlain_exampleStamp : IsPlain exampleStamp := by
  have hall : exampleStamp.all fun c => c != '"' && c != '\\' && decide (0x20 ≤ c.toNat) := by
    decide
  intro c hc
  simpa [and_assoc] using List.all_eq_true.mp hall c hc

theorem quoted_planEntries : ∀ entry ∈ planEntries, ∃ key ∈ KEYS, ∃ body s,
    unescape body = some s ∧ entry = .quoted key body s := by
  have hplain {key : String} (hkey : key ∈ KEYS) {s : List Char} (h : IsPlain s) :
      ∃ key' ∈ KEYS, ∃ body t, unescape body = some t ∧
        Entry.quoted key s s = .quoted key' body t :=
    ⟨key, hkey, s, s, unescape_of_isPlain h, rfl⟩
  have hescaped {key : String} (hkey : key ∈ KEYS) (s : List Char) :
      ∃ key' ∈ KEYS, ∃ body t, unescape body = some t ∧
        Entry.quoted key (yamlQuotedEscape s) s = .quoted key' body t :=
    ⟨key, hkey, _, s, unescape_escape s, rfl⟩
  simp only [planEntries, List.forall_mem_cons]
  exact ⟨hplain (by decide) (isPlain_uuidString _), hplain (by decide) (isPlain_uuidString _),
    hescaped (by decide) _, hplain (by decide) (isPlain_debug .plan), hescaped (by decide) _,
    hplain (by decide) (isPlain_uuidString _),
    hplain (by decide) isPlain_exampleStamp, hplain (by decide) isPlain_exampleStamp,
    List.forall_mem_nil _⟩

theorem reliable_plan (content : String) : Reliable planReader (examplePlan content) := by
  have hentries : entries planReader (examplePlan content) = planEntries := by
    have htags : tagEntries (examplePlan content).tags = [] := if_pos rfl
    have hmetadata : metadataEntries planReader (examplePlan content).metadata = [] := if_pos rfl
    rw [entries, htags, hmetadata]
    rfl
  refine ⟨?_, isPlain_exampleStamp, isPlain_exampleStamp, ?_, ?_⟩
  · rintro id (rfl | rfl | h)
    · exact parse_uuid_readerOf _ _
    · exact parse_uuid_readerOf _ _
    · obtain rfl := Option.some.inj h
      exact parse_uuid_readerOf _ _
  · have hnull : '\n' ∉ "null".toList := by decide
    exact hnull
  · rw [hentries]
    exact readsYaml_readerOf (by simp [planEntries]) quoted_planEntries rfl

theorem plan_survives : deserializeKnowledgeDoc planReader [] []
      (serializeKnowledgeDoc planReader (examplePlan "# Steps")) = some (examplePlan "# Steps") ↔
    Survives (C := planReader) [] [] (examplePlan "# Steps") :=
  knowledgeDoc_iff (reliable_plan "# Steps") [] []

/-- A content that begins with a newline loses it. -/
theorem newline_lost : deserializeKnowledgeDoc planReader [] []
    (serializeKnowledgeDoc planReader (examplePlan "\n# Steps")) ≠
      some (examplePlan "\n# Steps") := by
  rw [deserialize_serialize (reliable_plan "\n# Steps")]
  intro h
  have hcontent := congrArg (·.content) (Option.some.inj h)
  revert hcontent
  decide

end T3Claw.Knowledge
