import T3Claw.Data.KeyedStore
import T3Claw.Files.Path

/-!
# Reading, matching and encoding

`file_edit_guard.rs`: which files a job has read and when, the search for the text an edit
replaces (exactly, or up to trailing white space and quotes), and the encodings. Texts are
lists of characters and the offsets of a match count characters; the source's byte offsets
are the boundaries of the same characters.
-/

namespace T3Claw.Files

/-! ### What has been read -/

/-- `ReadEntry`, with its key. -/
structure ReadEntry where
  job_id : ℕ
  path : Path
  mtime : ℤ
  partial_view : Bool

/-- `ReadFileState`. -/
structure ReadFileState where
  entries : KeyedStore (ℕ × Path) ReadEntry fun entry => (entry.job_id, entry.path)

namespace ReadFileState

/-- `record_read`. -/
def recordRead (state : ReadFileState) (entry : ReadEntry) : ReadFileState :=
  ⟨state.entries.insert entry⟩

/-- `check_before_edit`; times are in nanoseconds. -/
def checkBeforeEdit (state : ReadFileState) (job_id : ℕ) (path : Path) (current_mtime : ℤ) :
    Except ToolError Unit :=
  match state.entries.get? (job_id, path) with
  | none => .error (.ExecutionFailed
      s!"File has not been read yet: {path.display}. Use read_file first before editing.")
  | some entry =>
    if entry.partial_view then
      .error (.ExecutionFailed
        (s!"File was read with offset/limit (partial view): {path.display}" ++
          ". Read the full file before editing to avoid overwriting unseen content."))
    else if 1 < (current_mtime - entry.mtime) / 1000000000 then
      .error (.ExecutionFailed
        (s!"File has been modified since it was last read: {path.display}" ++
          ". Read it again before editing to see the current content."))
    else .ok ()

/-- `update_mtime`. -/
def updateMtime (state : ReadFileState) (job_id : ℕ) (path : Path) (mtime : ℤ) :
    ReadFileState :=
  ⟨state.entries.modify (job_id, path)
    (fun entry => { entry with mtime := mtime, partial_view := false }) fun _ => rfl⟩

end ReadFileState

/-! ### Matching -/

inductive MatchMethod where
  | Exact
  | TrailingWhitespace
  | QuoteNormalization
  | Both
  deriving DecidableEq

/-- `FuzzyMatch`; `stop` is its `end`. -/
structure FuzzyMatch where
  actual : List Char
  method : MatchMethod
  start : ℕ
  stop : ℕ

/-- `str::find`, counted in characters. -/
def findText (pattern : List Char) : List Char → Option ℕ
  | [] => if pattern.isEmpty then some 0 else none
  | c :: cs =>
    if pattern.isPrefixOf (c :: cs) then some 0 else (findText pattern cs).map (· + 1)

/-- `str::matches(..).count()`. -/
def matchCount (pattern cs : List Char) : ℕ :=
  if pattern.isEmpty then cs.length + 1 else Text.count pattern cs

/-- `str::trim_end`. -/
def trimEnd (cs : List Char) : List Char := (cs.reverse.dropWhile Text.isWhitespace).reverse

/-- `strip_trailing_whitespace`. -/
def stripTrailingWhitespace (cs : List Char) : List Char :=
  List.intercalate ['\n'] ((Text.lines cs).map trimEnd)

/-- `normalize_quotes`. -/
def normalizeQuotes (cs : List Char) : List Char :=
  cs.map fun c =>
    if c.toNat = 0x2018 ∨ c.toNat = 0x2019 ∨ c.toNat = 0x2032 then '\''
    else if c.toNat = 0x201C ∨ c.toNat = 0x201D ∨ c.toNat = 0x2033 then '"'
    else c

/-- `str::split_inclusive('\n')`: each line, and whether a line feed ends it. -/
def segments (cs : List Char) : List (List Char × Bool) :=
  let pieces := cs.splitOn '\n'
  pieces.dropLast.map (·, true) ++
    (pieces.getLast?.toList.filter (· ≠ [])).map (·, false)

/-- The loop of `map_normalized_char_to_original_byte`. -/
def mapNormalizedFrom (index : ℕ) : (seen original : ℕ) → List (List Char × Bool) → Option ℕ
  | seen, original, [] => if index = seen then some original else none
  | seen, original, (line, has_newline) :: rest =>
    let trimmed := (trimEnd line).length
    if index ≤ seen + trimmed then some (original + (index - seen))
    else if has_newline then
      if index = seen + trimmed + 1 then some (original + line.length + 1)
      else mapNormalizedFrom index (seen + trimmed + 1) (original + line.length + 1) rest
    else mapNormalizedFrom index (seen + trimmed) (original + line.length) rest

/-- `map_normalized_char_to_original_byte`. -/
def mapNormalized (original : List Char) (index : ℕ) : Option ℕ :=
  if index = 0 then some 0 else mapNormalizedFrom index 0 0 (segments original)

/-- `find_original_span`. -/
def findOriginalSpan (original normalized_haystack normalized_needle : List Char) :
    Option (ℕ × ℕ) := do
  let index ← findText normalized_needle normalized_haystack
  let start ← mapNormalized original index
  let stop ← mapNormalized original (index + normalized_needle.length)
  if start ≤ stop then some (start, stop) else none

/-- The first match of a text behind its start, by each of the methods in turn. -/
def findInSearch (search needle : List Char) : Option (MatchMethod × ℕ × ℕ) :=
  let stripped := stripTrailingWhitespace search
  let needle_stripped := stripTrailingWhitespace needle
  let quotes := normalizeQuotes needle
  match findText needle search with
  | some index => some (.Exact, index, index + needle.length)
  | none =>
    match findOriginalSpan search stripped needle_stripped with
    | some (start, stop) => some (.TrailingWhitespace, start, stop)
    | none =>
      match findText quotes (normalizeQuotes search) with
      | some index => some (.QuoteNormalization, index, index + quotes.length)
      | none =>
        (findOriginalSpan search (normalizeQuotes stripped) (normalizeQuotes needle_stripped)).map
          fun (start, stop) => (.Both, start, stop)

/-- `find_match_from`. -/
def findMatchFrom (haystack needle : List Char) (start_offset : ℕ) : Option FuzzyMatch :=
  if haystack.length < start_offset then none
  else
    (findInSearch (haystack.drop start_offset) needle).map fun (method, start, stop) =>
      ⟨(haystack.drop (start_offset + start)).take (stop - start), method,
        start_offset + start, start_offset + stop⟩

theorem start_of_findMatchFrom {haystack needle : List Char} {start_offset : ℕ} {m : FuzzyMatch}
    (h : findMatchFrom haystack needle start_offset = some m) : start_offset ≤ m.start := by
  unfold findMatchFrom at h
  split at h
  · cases h
  · obtain ⟨_, -, rfl⟩ := Option.map_eq_some_iff.mp h
    exact Nat.le_add_right _ _

/-- `find_match`. -/
def findMatch (haystack needle : List Char) : Option FuzzyMatch := findMatchFrom haystack needle 0

/-- `count_matches`. -/
def countMatches (haystack needle : List Char) : ℕ × MatchMethod :=
  let stripped := stripTrailingWhitespace haystack
  let needle_stripped := stripTrailingWhitespace needle
  if 0 < matchCount needle haystack then (matchCount needle haystack, .Exact)
  else if 0 < matchCount needle_stripped stripped then
    (matchCount needle_stripped stripped, .TrailingWhitespace)
  else if 0 < matchCount (normalizeQuotes needle) (normalizeQuotes haystack) then
    (matchCount (normalizeQuotes needle) (normalizeQuotes haystack), .QuoteNormalization)
  else if 0 < matchCount (normalizeQuotes needle_stripped) (normalizeQuotes stripped) then
    (matchCount (normalizeQuotes needle_stripped) (normalizeQuotes stripped), .Both)
  else (0, .Exact)

/-! ### Encodings -/

inductive FileEncoding where
  | Utf8
  | Utf16Le
  deriving DecidableEq

inductive LineEnding where
  | Lf
  | CrLf
  | Cr
  deriving DecidableEq

/-- The bytes of a text. -/
def encodeUtf8 (cs : List Char) : List UInt8 := cs.flatMap String.utf8EncodeChar

/-- The bits of a first byte that count, for a character of `width` bytes. -/
def leadBits (width : ℕ) (b : UInt8) : ℕ :=
  b.toNat % (if width = 1 then 128 else 2 ^ (7 - width))

/-- The character that `width` bytes encode, when they are its encoding. -/
def utf8Char? (width : ℕ) (bytes : List UInt8) : Option (Char × List UInt8) :=
  match bytes.take width with
  | [] => none
  | b :: more =>
    let c := Char.ofNat (more.foldl (fun code b => 64 * code + b.toNat % 64) (leadBits width b))
    if String.utf8EncodeChar c = b :: more then some (c, bytes.drop width) else none

/-- `String::from_utf8`, over no more than `fuel` characters. -/
def decodeUtf8From : (fuel : ℕ) → List UInt8 → Option (List Char)
  | _, [] => some []
  | 0, _ :: _ => none
  | fuel + 1, bytes =>
    match [1, 2, 3, 4].findSome? fun width => utf8Char? width bytes with
    | some (c, rest) => (decodeUtf8From fuel rest).map (c :: ·)
    | none => none

/-- `String::from_utf8`. -/
def decodeUtf8 (bytes : List UInt8) : Option (List Char) := decodeUtf8From bytes.length bytes

/-- `u16` values, the low byte first. -/
def u16s : List UInt8 → List ℕ
  | low :: high :: rest => (low.toNat + 256 * high.toNat) :: u16s rest
  | _ => []

/-- `String::from_utf16`. -/
def decodeUtf16 : List ℕ → Option (List Char)
  | [] => some []
  | [u] => if 0xD800 ≤ u ∧ u < 0xE000 then none else some [Char.ofNat u]
  | u :: v :: rest =>
    if 0xD800 ≤ u ∧ u < 0xDC00 then
      if 0xDC00 ≤ v ∧ v < 0xE000 then
        (decodeUtf16 rest).map
          (Char.ofNat (0x10000 + 0x400 * (u - 0xD800) + (v - 0xDC00)) :: ·)
      else none
    else if 0xDC00 ≤ u ∧ u < 0xE000 then none
    else (decodeUtf16 (v :: rest)).map (Char.ofNat u :: ·)

/-- `str::encode_utf16`, of one character. -/
def encodeUtf16 (c : Char) : List ℕ :=
  if c.toNat < 0x10000 then [c.toNat]
  else [0xD800 + (c.toNat - 0x10000) / 0x400, 0xDC00 + (c.toNat - 0x10000) % 0x400]

/-- `detect_encoding`. -/
def detectEncoding : List UInt8 → FileEncoding
  | 0xFF :: 0xFE :: _ => .Utf16Le
  | _ => .Utf8

/-- `detect_line_ending`. -/
def detectLineEnding (content : List Char) : LineEnding :=
  let crlf := matchCount ['\r', '\n'] content
  let cr_only := matchCount ['\r'] content - crlf
  let lf_only := matchCount ['\n'] content - crlf
  if lf_only ≤ crlf ∧ cr_only ≤ crlf then if crlf = 0 then .Lf else .CrLf
  else if lf_only < cr_only then .Cr
  else .Lf

/-- What `read_file_with_encoding` makes of the bytes it has read. -/
def decodeFile (bytes : List UInt8) :
    Except ToolError (List Char × FileEncoding × LineEnding) := do
  let encoding := detectEncoding bytes
  let raw_content ←
    match encoding with
    | .Utf8 =>
      match decodeUtf8 bytes with
      | some cs => pure cs
      | none => .error (.ExecutionFailed "File is not valid UTF-8: invalid utf-8 sequence")
    | .Utf16Le =>
      match decodeUtf16 (u16s (bytes.drop 2)) with
      | some cs => pure cs
      | none => .error (.ExecutionFailed
          "File is not valid UTF-16LE: invalid utf-16: lone surrogate found")
  pure (Text.replace ['\r'] ['\n'] (Text.replace ['\r', '\n'] ['\n'] raw_content), encoding,
    detectLineEnding raw_content)

/-- The bytes `write_file_with_encoding` writes. -/
def encodeFile (content : List Char) (encoding : FileEncoding) (line_ending : LineEnding) :
    List UInt8 :=
  let output :=
    match line_ending with
    | .Lf => content
    | .CrLf => Text.replace ['\n'] ['\r', '\n'] content
    | .Cr => Text.replace ['\n'] ['\r'] content
  match encoding with
  | .Utf8 => encodeUtf8 output
  | .Utf16Le =>
    0xFF :: 0xFE :: (output.flatMap encodeUtf16).flatMap fun u =>
      [UInt8.ofNat (u % 256), UInt8.ofNat (u / 256)]

example : decodeUtf8 (encodeUtf8 "aé’😀".toList) = some "aé’😀".toList := by decide +kernel

end T3Claw.Files
