import T3Claw.Files.Encoding

/-!
# The HTTP allowlist

`tools/wasm/allowlist.rs`. A request is allowed when one of the patterns names its host, its method
and its path, and its path can be read: an encoded separator, and an encoding that is none, deny the
request whatever the patterns are (`validate_iff`).
-/

namespace T3Claw.Wasm

/-! ### Paths -/

/-- `u8::is_ascii_hexdigit`. -/
def isHexDigit (c : Char) : Bool :=
  c.isDigit || ('a' ≤ c && c ≤ 'f') || ('A' ≤ c && c ≤ 'F')

/-- `has_valid_percent_encoding`. -/
def hasValidPercentEncoding : List Char → Bool
  | [] => true
  | c :: rest =>
    if c = '%' then
      match rest with
      | hi :: lo :: rest => isHexDigit hi && isHexDigit lo && hasValidPercentEncoding rest
      | _ => false
    else hasValidPercentEncoding rest

/-- `url::Url`, as far as it is read. -/
structure Url where
  scheme : List Char
  username : List Char
  password : Option (List Char)
  host_str : Option (List Char)
  path : List Char

/-- What is not of this repository: the parser of URLs, percent encoding, and the cases of
letters. -/
structure UrlCrate where
  parse : List Char → Except (List Char) Url
  decode : List Char → Option (List Char)
  encode : List Char → List Char
  lowercase : List Char → List Char
  uppercase : List Char → List Char
  decode_encode : ∀ segment, decode (encode segment) = some segment
  valid_encode : ∀ segment, hasValidPercentEncoding (encode segment) = true
  slash_encode : ∀ segment, '/' ∉ encode segment
  encode_nil : encode [] = []

variable (U : UrlCrate)

/-- What a segment does to those before it. -/
def pushSegment (segments : List (List Char)) (segment : List Char) : List (List Char) :=
  if segment = [] ∨ segment = ['.'] then segments
  else if segment = ['.', '.'] then segments.dropLast
  else segments ++ [segment]

/-- The loop of `normalize_path`. -/
def normalizeSegments (segments : List (List Char)) :
    List (List Char) → Except (List Char) (List (List Char))
  | [] => .ok segments
  | raw_segment :: rest =>
    if hasValidPercentEncoding raw_segment = false then
      .error ("Invalid percent-encoding in path segment: ".toList ++ raw_segment)
    else
      match U.decode raw_segment with
      | none => .error ("Invalid percent-encoding in path segment: ".toList ++ raw_segment)
      | some segment =>
        if '/' ∈ segment ∨ '\\' ∈ segment then
          .error "Path segment contains encoded path separator".toList
        else normalizeSegments (pushSegment segments segment) rest

/-- `normalize_path`. -/
def normalizePath (path : List Char) : Except (List Char) (List Char) := do
  let segments ← normalizeSegments U [] (path.splitOn '/')
  let result := '/' :: ['/'].intercalate segments
  if 1 < path.length ∧ path.getLast? = some '/' ∧ result.getLast? ≠ some '/' then
    pure (result ++ ['/'])
  else pure result

/-! ### Patterns -/

/-- `EndpointPattern`. -/
structure EndpointPattern where
  host : List Char
  pathPrefix : Option (List Char)
  methods : List (List Char)

namespace EndpointPattern

/-- `strip_prefix("*.")`. -/
def stripWildcard : List Char → Option (List Char)
  | '*' :: '.' :: suffix => some suffix
  | _ => none

/-- `host_matches`. -/
def hostMatches (pattern : EndpointPattern) (url_host : List Char) : Bool :=
  if pattern.host = url_host then true
  else
    match stripWildcard pattern.host with
    | none => false
    | some suffix =>
      let front := url_host.take (url_host.length - suffix.length)
      suffix.isSuffixOf url_host && decide (suffix.length < url_host.length) &&
        (front.getLast? == some '.' || front.isEmpty)

/-- `path_prefix` is none, or begins the path. -/
def pathMatches (pattern : EndpointPattern) (url_path : List Char) : Bool :=
  pattern.pathPrefix.all (·.isPrefixOf url_path)

/-- `matches`. -/
def «matches» (pattern : EndpointPattern) (url_host url_path method : List Char) : Bool :=
  pattern.hostMatches url_host && pattern.pathMatches url_path &&
    (pattern.methods.isEmpty || pattern.methods.any fun m => U.uppercase m == U.uppercase method)

end EndpointPattern

/-! ### Requests -/

/-- `DenyReason`. -/
inductive DenyReason where
  | invalidUrl (error : List Char)
  | hostNotAllowed (host : List Char)
  | pathNotAllowed (host path : List Char)
  | methodNotAllowed (method host : List Char)
  | emptyAllowlist
  | insecureScheme (scheme : List Char)
  deriving DecidableEq

/-- `AllowlistResult`. -/
inductive AllowlistResult where
  | allowed
  | denied (reason : DenyReason)
  deriving DecidableEq

/-- `ParsedUrl`. -/
structure ParsedUrl where
  scheme : List Char
  host : List Char
  path : List Char

/-- A host without the brackets of an IPv6 address. -/
def stripBrackets : List Char → List Char
  | '[' :: rest => if rest.getLast? = some ']' then rest.dropLast else '[' :: rest
  | host => host

/-- The host that patterns are compared with. -/
def urlHost (host_str : List Char) : List Char := U.lowercase (stripBrackets host_str)

/-- `parse_url`. -/
def parseUrl (url : List Char) : Except (List Char) ParsedUrl := do
  let parsed ←
    match U.parse url with
    | .ok parsed => pure parsed
    | .error e => .error ("URL parse failed: ".toList ++ e)
  let scheme := U.lowercase parsed.scheme
  if scheme ≠ "http".toList ∧ scheme ≠ "https".toList then
    .error ("Unsupported scheme: ".toList ++ scheme)
  else if parsed.username ≠ [] ∨ parsed.password.isSome then
    .error "URL contains userinfo (@) which is not allowed".toList
  else
    match parsed.host_str with
    | none => .error "Empty host".toList
    | some host => do
      let normalized_path ← normalizePath U parsed.path
      pure ⟨scheme, urlHost U host, normalized_path⟩

/-- `AllowlistValidator`. -/
structure AllowlistValidator where
  patterns : List EndpointPattern
  require_https : Bool

/-- Why no pattern matches. -/
def denyReason (patterns : List EndpointPattern) (parsed : ParsedUrl) (method : List Char) :
    DenyReason :=
  let host_matches := patterns.filter (·.hostMatches parsed.host)
  if host_matches.isEmpty then .hostNotAllowed parsed.host
  else if (host_matches.filter (·.pathMatches parsed.path)).isEmpty then
    .pathNotAllowed parsed.host parsed.path
  else .methodNotAllowed method parsed.host

/-- `validate`. -/
def validate (validator : AllowlistValidator) (url method : List Char) : AllowlistResult :=
  if validator.patterns.isEmpty then .denied .emptyAllowlist
  else
    match parseUrl U url with
    | .error e => .denied (.invalidUrl e)
    | .ok parsed =>
      if validator.require_https ∧ parsed.scheme ≠ "https".toList then
        .denied (.insecureScheme parsed.scheme)
      else if validator.patterns.any (·.matches U parsed.host parsed.path method) then .allowed
      else .denied (denyReason validator.patterns parsed method)

/-! ### What patterns name -/

/-- A host is a domain with labels in front. -/
def ProperSubdomain (host domain : List Char) : Prop := ∃ labels, host = labels ++ '.' :: domain

/-- A pattern names a host, a path and a method. -/
structure Names (pattern : EndpointPattern) (host path method : List Char) : Prop where
  host : pattern.host = host ∨
    ∃ domain, pattern.host = '*' :: '.' :: domain ∧ ProperSubdomain host domain
  path : ∀ start, pattern.pathPrefix = some start → start <+: path
  method : pattern.methods ≠ [] → ∃ m ∈ pattern.methods, U.uppercase m = U.uppercase method

/-- A segment can be read, and is read as another one. -/
structure Reads (raw_segment segment : List Char) : Prop where
  valid : hasValidPercentEncoding raw_segment = true
  decoded : U.decode raw_segment = some segment
  slash : '/' ∉ segment
  backslash : '\\' ∉ segment

/-- The names that stand, from the last segment on, when so many were taken back behind it. -/
def standing : (taken : ℕ) → List (List Char) → List (List Char)
  | _, [] => []
  | taken, segment :: before =>
    if segment = [] ∨ segment = ['.'] then standing taken before
    else if segment = ['.', '.'] then standing (taken + 1) before
    else if taken = 0 then segment :: standing 0 before
    else standing (taken - 1) before

/-- The path of names, with a slash behind the last one or not. -/
def pathOf (names : List (List Char)) (slash : Bool) : List Char :=
  '/' :: ['/'].intercalate names ++ if slash ∧ names ≠ [] then ['/'] else []

/-- A path that can be read, and what it is when it is decoded and its dots are resolved. -/
def Resolves (path resolved : List Char) : Prop :=
  ∃ segments, List.Forall₂ (Reads U) (path.splitOn '/') segments ∧
    resolved = pathOf (standing 0 segments.reverse).reverse (path.getLast? = some '/')

/-- The segments of a path. -/
def segmentsOf (path : List Char) : List (List Char) := path.tail.splitOn '/'

/-- A path with its segments encoded. -/
def encodePath (path : List Char) : List Char := ['/'].intercalate ((path.splitOn '/').map U.encode)

/-- What is promised of a path that was normalised. -/
structure Normalised (path : List Char) : Prop where
  start : path.head? = some '/'
  nonempty : ∀ segment ∈ (segmentsOf path).dropLast, segment ≠ []
  dots : ∀ segment ∈ segmentsOf path, segment ≠ ['.'] ∧ segment ≠ ['.', '.']
  again : normalizePath U (encodePath U path) = .ok path

/-! ### Segments -/

section Segments

variable {U}

theorem normalizeSegments_eq_ok {raws before names : List (List Char)} :
    normalizeSegments U before raws = .ok names ↔
      ∃ segments, List.Forall₂ (Reads U) raws segments ∧
        names = segments.foldl pushSegment before := by
  induction raws generalizing before with
  | nil =>
    rw [normalizeSegments, Except.ok.injEq]
    constructor
    · rintro rfl
      exact ⟨[], .nil, rfl⟩
    · rintro ⟨segments, hreads, rfl⟩
      cases hreads
      rfl
  | cons raw raws ih =>
    rw [normalizeSegments]
    split_ifs with hvalid
    · refine iff_of_false (fun h => by cases h) ?_
      rintro ⟨segments, hreads, -⟩
      cases hreads with
      | cons hread =>
        rw [hread.valid] at hvalid
        cases hvalid
    · rw [Bool.not_eq_false] at hvalid
      cases hdecode : U.decode raw with
      | none =>
        refine iff_of_false (fun h => by cases h) ?_
        rintro ⟨segments, hreads, -⟩
        cases hreads with
        | cons hread =>
          rw [hread.decoded] at hdecode
          cases hdecode
      | some segment =>
        simp only
        split_ifs with hseparator
        · refine iff_of_false (fun h => by cases h) ?_
          rintro ⟨segments, hreads, -⟩
          cases hreads with
          | cons hread =>
            obtain rfl := Option.some.inj (hread.decoded.symm.trans hdecode)
            exact hseparator.elim hread.slash hread.backslash
        · rw [not_or] at hseparator
          -- the head is read as a whole; the induction carries the stack of names on
          rw [ih]
          constructor
          · rintro ⟨segments, hreads, rfl⟩
            exact ⟨segment :: segments,
              .cons ⟨hvalid, hdecode, hseparator.1, hseparator.2⟩ hreads, rfl⟩
          · rintro ⟨segments, hreads, rfl⟩
            cases hreads with
            | cons hread hreads =>
              obtain rfl := Option.some.inj (hread.decoded.symm.trans hdecode)
              exact ⟨_, hreads, rfl⟩

/-- What stands from the last segment on is what the loop has kept, less what is taken. -/
theorem drop_foldl_pushSegment (segments : List (List Char)) (taken : ℕ) :
    (segments.foldl pushSegment []).reverse.drop taken = standing taken segments.reverse := by
  induction segments using List.reverseRecOn generalizing taken with
  | nil => simp [standing]
  | append_singleton segments segment ih =>
    rw [List.foldl_append, List.foldl_cons, List.foldl_nil, List.reverse_append,
      List.reverse_singleton, List.singleton_append, standing, pushSegment]
    split_ifs with hskip hup htaken
    · exact ih taken
    · rw [← ih, ← List.tail_reverse, ← List.drop_one, List.drop_drop, Nat.add_comm]
    · rw [List.reverse_append, List.reverse_singleton, List.singleton_append, htaken,
        List.drop_zero, ← ih 0, List.drop_zero]
    · obtain ⟨taken, rfl⟩ := Nat.exists_eq_succ_of_ne_zero htaken
      rw [List.reverse_append, List.reverse_singleton, List.singleton_append, List.drop_succ_cons]
      exact ih taken

theorem foldl_pushSegment (segments : List (List Char)) :
    segments.foldl pushSegment [] = (standing 0 segments.reverse).reverse := by
  rw [← drop_foldl_pushSegment, List.drop_zero, List.reverse_reverse]

/-- A segment that names something. -/
structure IsName (segment : List Char) : Prop where
  nonempty : segment ≠ []
  dot : segment ≠ ['.']
  dots : segment ≠ ['.', '.']

/-- What stands are names among the segments. -/
theorem mem_standing {taken : ℕ} {segments : List (List Char)} {name : List Char}
    (h : name ∈ standing taken segments) : IsName name ∧ name ∈ segments := by
  induction segments generalizing taken with
  | nil => cases h
  | cons segment before ih =>
    have hlater {taken : ℕ} (h : name ∈ standing taken before) :
        IsName name ∧ name ∈ segment :: before :=
      ⟨(ih h).1, List.mem_cons_of_mem _ (ih h).2⟩
    rw [standing] at h
    split_ifs at h with hskip hup htaken
    · exact hlater h
    · exact hlater h
    · obtain rfl | h := List.mem_cons.mp h
      · rw [not_or] at hskip
        exact ⟨⟨hskip.1, hskip.2, hup⟩, List.mem_cons_self⟩
      · exact hlater h
    · exact hlater h

/-- Names stand as they are. -/
theorem foldl_pushSegment_names {names : List (List Char)} (h : ∀ name ∈ names, IsName name)
    (before : List (List Char)) : names.foldl pushSegment before = before ++ names := by
  induction names generalizing before with
  | nil => rw [List.foldl_nil, List.append_nil]
  | cons name names ih =>
    obtain ⟨hname, hnames⟩ := List.forall_mem_cons.mp h
    rw [List.foldl_cons, pushSegment, if_neg (not_or.mpr ⟨hname.nonempty, hname.dot⟩),
      if_neg hname.dots, ih hnames, List.append_assoc, List.singleton_append]

end Segments

/-! ### Normalised paths -/

section Normalised

variable {U}

/-- The pieces that a path is joined from. -/
def piecesOf (names : List (List Char)) (slash : Bool) : List (List Char) :=
  if names = [] ∨ slash then names ++ [[]] else names

/-- What is joined and is not empty ends in its last piece. -/
theorem intercalate_concat (pieces : List (List Char)) (last : List Char) :
    ∃ front, '/' :: ['/'].intercalate (pieces ++ [last]) = front ++ '/' :: last := by
  induction pieces with
  | nil => exact ⟨[], by simp⟩
  | cons piece pieces ih =>
    obtain ⟨front, hfront⟩ := ih
    have hne : pieces ++ [last] ≠ [] := by simp
    refine ⟨'/' :: piece ++ front, ?_⟩
    rw [List.cons_append, List.intercalate_cons_of_ne_nil hne, List.append_assoc, List.append_assoc,
      ← hfront]
    rfl

/-- A slash behind what is joined is an empty piece. -/
theorem intercalate_slash {pieces : List (List Char)} (h : pieces ≠ []) :
    ['/'].intercalate pieces ++ ['/'] = ['/'].intercalate (pieces ++ [[]]) := by
  induction pieces with
  | nil => contradiction
  | cons piece pieces ih =>
    have hne : pieces ++ [[]] ≠ [] := by simp
    rw [List.cons_append, List.intercalate_cons_of_ne_nil hne]
    cases pieces with
    | nil => simp
    | cons next pieces =>
      rw [← ih (List.cons_ne_nil next pieces), List.intercalate_cons_cons, List.append_assoc]

theorem piecesOf_ne_nil (names : List (List Char)) (slash : Bool) : piecesOf names slash ≠ [] := by
  rw [piecesOf]
  split_ifs with h
  · simp
  · exact fun hnil => h (.inl hnil)

theorem pathOf_eq (names : List (List Char)) (slash : Bool) :
    pathOf names slash = '/' :: ['/'].intercalate (piecesOf names slash) := by
  rw [pathOf, piecesOf]
  cases names with
  | nil => simp
  | cons name names =>
    cases slash with
    | false => simp
    | true =>
      rw [if_pos (by simp), if_pos (by simp)]
      rw [List.cons_append, intercalate_slash (List.cons_ne_nil name names)]

section

variable {names : List (List Char)} (hslash : ∀ name ∈ names, '/' ∉ name)
include hslash

theorem slash_notMem_piecesOf {slash : Bool} {piece : List Char}
    (h : piece ∈ piecesOf names slash) : '/' ∉ piece := by
  rw [piecesOf] at h
  split_ifs at h
  · obtain h | h := List.mem_append.mp h
    · exact hslash piece h
    · rw [List.mem_singleton.mp h]
      exact List.not_mem_nil
  · exact hslash piece h

theorem splitOn_pathOf (slash : Bool) :
    (pathOf names slash).splitOn '/' = [] :: piecesOf names slash := by
  have hjoin : '/' :: ['/'].intercalate (piecesOf names slash) =
      ['/'].intercalate ([] :: piecesOf names slash) := by
    rw [List.intercalate_cons_of_ne_nil (piecesOf_ne_nil names slash)]
    rfl
  rw [pathOf_eq, hjoin]
  refine List.splitOn_intercalate '/' (fun piece h => ?_) (List.cons_ne_nil _ _)
  obtain rfl | h := List.mem_cons.mp h
  · exact List.not_mem_nil
  · exact slash_notMem_piecesOf hslash h

theorem segmentsOf_pathOf (slash : Bool) :
    segmentsOf (pathOf names slash) = piecesOf names slash := by
  rw [segmentsOf, pathOf_eq, List.tail_cons]
  exact List.splitOn_intercalate '/' (fun piece h => slash_notMem_piecesOf hslash h)
    (piecesOf_ne_nil names slash)

end

/-- A path that is joined from pieces ends in a slash when the last of them is empty. -/
theorem getLast?_join {names : List (List Char)} (hnames : ∀ name ∈ names, IsName name)
    (slash : Bool) {encode : List Char → List Char}
    (hencode : ∀ piece ∈ piecesOf names slash, '/' ∉ encode piece)
    (hne : ∀ piece, encode piece = [] ↔ piece = []) :
    ('/' :: ['/'].intercalate ((piecesOf names slash).map encode)).getLast? = some '/' ↔
      names = [] ∨ slash := by
  obtain ⟨pieces, last, hpieces⟩ : ∃ pieces last, piecesOf names slash = pieces ++ [last] :=
    ⟨_, _, (List.dropLast_append_getLast (piecesOf_ne_nil names slash)).symm⟩
  obtain ⟨front, hfront⟩ := intercalate_concat (pieces.map encode) (encode last)
  have hlast : names = [] ∨ slash ↔ last = [] := by
    rw [piecesOf] at hpieces
    split_ifs at hpieces with h
    · obtain ⟨-, hlast⟩ := List.append_inj' hpieces rfl
      exact iff_of_true h (List.singleton_inj.mp hlast).symm
    · refine iff_of_false h fun hnil => ?_
      exact (hnames last (hpieces ▸ List.mem_append_right _ List.mem_cons_self)).nonempty hnil
  rw [hpieces, List.map_append, List.map_singleton, hfront, hlast, ← hne last,
    List.getLast?_append]
  cases hcase : encode last with
  | nil => simp
  | cons c rest =>
    have hmem : '/' ∉ c :: rest :=
      hcase ▸ hencode last (hpieces ▸ List.mem_append_right _ List.mem_cons_self)
    refine iff_of_false (fun h => ?_) (List.cons_ne_nil _ _)
    rw [List.getLast?_cons_cons] at h
    have hsome : (c :: rest).getLast?.isSome = true := by simp
    obtain ⟨d, hd⟩ := Option.isSome_iff_exists.mp hsome
    rw [hd, Option.some_or] at h
    exact hmem (List.mem_of_getLast? (hd.trans h))

/-- A path of names ends in a slash as it says, and always without names. -/
theorem getLast?_pathOf {names : List (List Char)} (hnames : ∀ name ∈ names, IsName name)
    (hslash : ∀ name ∈ names, '/' ∉ name) (slash : Bool) :
    (pathOf names slash).getLast? = some '/' ↔ names = [] ∨ slash := by
  have hpieces : ∀ piece ∈ piecesOf names slash, '/' ∉ id piece := fun piece h =>
    slash_notMem_piecesOf hslash h
  have hjoin := getLast?_join hnames slash hpieces fun _ => Iff.rfl
  rwa [List.map_id, ← pathOf_eq] at hjoin

theorem decode_nil : U.decode [] = some [] := by
  have hdecode := U.decode_encode []
  rwa [U.encode_nil] at hdecode

theorem encode_eq_nil (segment : List Char) : U.encode segment = [] ↔ segment = [] := by
  constructor
  · intro h
    have hdecode := U.decode_encode segment
    rw [h, decode_nil] at hdecode
    exact (Option.some.inj hdecode).symm
  · rintro rfl
    exact U.encode_nil

/-- A path of a slash alone has no names. -/
theorem length_of_names {path : List Char} {segments : List (List Char)}
    (hreads : List.Forall₂ (Reads U) (path.splitOn '/') segments)
    (hends : path.getLast? = some '/') (hnames : segments.foldl pushSegment [] ≠ []) :
    1 < path.length := by
  by_contra hle
  obtain ⟨front, rfl⟩ := List.getLast?_eq_some_iff.mp hends
  have hlength : (front ++ ['/']).length = front.length + 1 := List.length_append
  obtain rfl : front = [] := List.length_eq_zero_iff.mp (by omega)
  have hsplit : (['/'] : List Char).splitOn '/' = [[], []] := by decide
  rw [List.nil_append, hsplit] at hreads
  obtain _ | ⟨hfirst, hreads⟩ := hreads
  obtain _ | ⟨hlast, hreads⟩ := hreads
  cases hreads
  obtain rfl := Option.some.inj (hfirst.decoded.symm.trans decode_nil)
  obtain rfl := Option.some.inj (hlast.decoded.symm.trans decode_nil)
  exact hnames rfl

/-- What stands of segments that can be read is names without separators. -/
theorem names_of_reads {raws segments : List (List Char)}
    (hreads : List.Forall₂ (Reads U) raws segments) :
    ∀ name ∈ (standing 0 segments.reverse).reverse, IsName name ∧ '/' ∉ name ∧ '\\' ∉ name := by
  have hseparators : ∀ segment ∈ segments, '/' ∉ segment ∧ '\\' ∉ segment := by
    induction hreads with
    | nil => exact fun _ h => by cases h
    | cons hread _ ih => exact List.forall_mem_cons.mpr ⟨⟨hread.slash, hread.backslash⟩, ih⟩
  intro name hname
  obtain ⟨hisName, hmem⟩ := mem_standing (List.mem_reverse.mp hname)
  exact ⟨hisName, hseparators name (List.mem_reverse.mp hmem)⟩

/-- A path that can be read is normalised to the names that stand. -/
theorem normalizePath_of_reads {path : List Char} {segments : List (List Char)}
    (hreads : List.Forall₂ (Reads U) (path.splitOn '/') segments) :
    normalizePath U path =
      .ok (pathOf (standing 0 segments.reverse).reverse (path.getLast? = some '/')) := by
  have hloop : normalizeSegments U [] (path.splitOn '/') = .ok (segments.foldl pushSegment []) :=
    normalizeSegments_eq_ok.mpr ⟨segments, hreads, rfl⟩
  have hlong := length_of_names hreads
  have hnames := names_of_reads hreads
  rw [normalizePath, hloop]
  rw [foldl_pushSegment] at hlong ⊢
  generalize (standing 0 segments.reverse).reverse = names at hlong hnames ⊢
  have hbare : '/' :: ['/'].intercalate names = pathOf names false := by simp [pathOf]
  have hends : (pathOf names false).getLast? ≠ some '/' ↔ names ≠ [] := by
    rw [ne_eq, getLast?_pathOf (fun name h => (hnames name h).1)
      (fun name h => (hnames name h).2.1) false]
    simp
  change ite _ _ _ = _
  rw [hbare]
  by_cases hslash : path.getLast? = some '/'
  · by_cases hne : names = []
    · rw [if_neg fun h => hends.mp h.2.2 hne, hne]
      simp [pathOf, pure, Except.pure]
    · rw [if_pos ⟨hlong hslash hne, hslash, hends.mpr hne⟩]
      simp [pathOf, hslash, hne, pure, Except.pure]
  · rw [if_neg fun h => hslash h.2.1]
    simp [pathOf, hslash, pure, Except.pure]

/-- A path is normalised when it can be read, and to what it resolves to. -/
theorem normalizePath_eq_ok {path resolved : List Char} :
    normalizePath U path = .ok resolved ↔ Resolves U path resolved := by
  constructor
  · intro h
    have hok := h
    rw [normalizePath] at hok
    cases hloop : normalizeSegments U [] (path.splitOn '/') with
    | error e =>
      rw [hloop] at hok
      cases hok
    | ok names =>
      obtain ⟨segments, hreads, -⟩ := normalizeSegments_eq_ok.mp hloop
      rw [normalizePath_of_reads hreads] at h
      exact ⟨segments, hreads, (Except.ok.inj h).symm⟩
  · rintro ⟨segments, hreads, rfl⟩
    exact normalizePath_of_reads hreads

/-- What is read of an encoded segment is the segment. -/
theorem reads_encode {segment : List Char} (hslash : '/' ∉ segment) (hbackslash : '\\' ∉ segment) :
    Reads U (U.encode segment) segment :=
  ⟨U.valid_encode segment, U.decode_encode segment, hslash, hbackslash⟩

section

variable {names : List (List Char)} (hnames : ∀ name ∈ names, IsName name) (slash : Bool)
include hnames

theorem foldl_piecesOf : ([] :: piecesOf names slash).foldl pushSegment [] = names := by
  have hskip (before : List (List Char)) : pushSegment before [] = before :=
    if_pos (.inl rfl)
  rw [List.foldl_cons, hskip, piecesOf]
  split_ifs
  · rw [List.foldl_append, foldl_pushSegment_names hnames, List.nil_append, List.foldl_cons, hskip,
      List.foldl_nil]
  · rw [foldl_pushSegment_names hnames, List.nil_append]

/-- A path of names is what it is when its segments are encoded. -/
theorem resolves_encodePath (hslash : ∀ name ∈ names, '/' ∉ name)
    (hbackslash : ∀ name ∈ names, '\\' ∉ name) :
    Resolves U (encodePath U (pathOf names slash)) (pathOf names slash) := by
  have hpiece : ∀ piece ∈ [] :: piecesOf names slash, '/' ∉ piece ∧ '\\' ∉ piece := by
    refine List.forall_mem_cons.mpr ⟨⟨List.not_mem_nil, List.not_mem_nil⟩, fun piece h => ?_⟩
    rw [piecesOf] at h
    split_ifs at h
    · obtain h | h := List.mem_append.mp h
      · exact ⟨hslash piece h, hbackslash piece h⟩
      · rw [List.mem_singleton.mp h]
        exact ⟨List.not_mem_nil, List.not_mem_nil⟩
    · exact ⟨hslash piece h, hbackslash piece h⟩
  have hpath : encodePath U (pathOf names slash) =
      ['/'].intercalate (([] :: piecesOf names slash).map U.encode) := by
    rw [encodePath, splitOn_pathOf hslash]
  have hjoin : ['/'].intercalate (([] :: piecesOf names slash).map U.encode) =
      '/' :: ['/'].intercalate ((piecesOf names slash).map U.encode) := by
    rw [List.map_cons, U.encode_nil, List.intercalate_cons_of_ne_nil
      (by simpa using piecesOf_ne_nil names slash)]
    rfl
  refine ⟨[] :: piecesOf names slash, ?_, ?_⟩
  · rw [hpath, List.splitOn_intercalate '/' ?_ (by simp), List.forall₂_map_left_iff]
    · exact List.forall₂_same.mpr fun piece h =>
        reads_encode (hpiece piece h).1 (hpiece piece h).2
    · intro piece h
      obtain ⟨raw, -, rfl⟩ := List.mem_map.mp h
      exact U.slash_encode raw
  · rw [← foldl_pushSegment, foldl_piecesOf hnames, hpath, hjoin, pathOf, pathOf]
    have hends := getLast?_join hnames slash (fun piece _ => U.slash_encode piece) encode_eq_nil
    by_cases hne : names = []
    · simp [hne]
    · simp [hends, hne]

end

/-- A path that was normalised has no empty segment but the last, no dots, and stays as it is. -/
theorem Resolves.normalised {path resolved : List Char} (h : Resolves U path resolved) :
    Normalised U resolved := by
  obtain ⟨segments, hreads, rfl⟩ := h
  have hall := names_of_reads hreads
  generalize (standing 0 segments.reverse).reverse = names at hall ⊢
  generalize (decide (path.getLast? = some '/') : Bool) = slash
  have hnames : ∀ name ∈ names, IsName name := fun name h => (hall name h).1
  have hslash : ∀ name ∈ names, '/' ∉ name := fun name h => (hall name h).2.1
  have hbackslash : ∀ name ∈ names, '\\' ∉ name := fun name h => (hall name h).2.2
  refine ⟨by rw [pathOf_eq]; rfl, fun segment h => ?_, fun segment h => ?_,
    normalizePath_eq_ok.mpr (resolves_encodePath hnames slash hslash hbackslash)⟩
  · rw [segmentsOf_pathOf hslash, piecesOf] at h
    split_ifs at h
    · rw [List.dropLast_concat] at h
      exact (hnames segment h).nonempty
    · exact (hnames segment (List.dropLast_subset _ h)).nonempty
  · rw [segmentsOf_pathOf hslash, piecesOf] at h
    split_ifs at h
    · obtain h | h := List.mem_append.mp h
      · exact ⟨(hnames segment h).dot, (hnames segment h).dots⟩
      · rw [List.mem_singleton.mp h]
        exact ⟨by decide, by decide⟩
    · exact ⟨(hnames segment h).dot, (hnames segment h).dots⟩

end Normalised

/-! ### Allowed requests -/

section Requests

variable {U}

theorem stripWildcard_eq_some {host suffix : List Char} :
    EndpointPattern.stripWildcard host = some suffix ↔ host = '*' :: '.' :: suffix := by
  constructor
  · intro h
    rw [EndpointPattern.stripWildcard.eq_def] at h
    split at h
    · rw [Option.some.inj h]
    · cases h
  · rintro rfl
    rfl

/-- A host that is longer than a domain and ends in it, behind a dot. -/
theorem properSubdomain_iff (host domain : List Char) :
    (domain.isSuffixOf host && decide (domain.length < host.length) &&
      ((host.take (host.length - domain.length)).getLast? == some '.' ||
        (host.take (host.length - domain.length)).isEmpty)) = true ↔
      ProperSubdomain host domain := by
  rw [Bool.and_eq_true, Bool.and_eq_true, List.isSuffixOf_iff_suffix, decide_eq_true_eq,
    Bool.or_eq_true, beq_iff_eq, List.isEmpty_iff]
  constructor
  · rintro ⟨⟨⟨front, rfl⟩, hlength⟩, hdot⟩
    rw [List.length_append, Nat.add_sub_cancel, List.take_left' rfl] at hdot
    obtain hdot | rfl := hdot
    · obtain ⟨labels, rfl⟩ := List.getLast?_eq_some_iff.mp hdot
      exact ⟨labels, by rw [List.append_assoc, List.singleton_append]⟩
    · simp at hlength
  · rintro ⟨labels, rfl⟩
    have hsplit : labels ++ '.' :: domain = (labels ++ ['.']) ++ domain := by simp
    rw [hsplit, List.length_append, Nat.add_sub_cancel, List.take_left' rfl]
    exact ⟨⟨List.suffix_append _ _, by simp⟩, .inl List.getLast?_concat⟩

theorem hostMatches_iff (pattern : EndpointPattern) (url_host : List Char) :
    pattern.hostMatches url_host = true ↔ pattern.host = url_host ∨
      ∃ domain, pattern.host = '*' :: '.' :: domain ∧ ProperSubdomain url_host domain := by
  rw [EndpointPattern.hostMatches]
  split_ifs with hequal
  · exact iff_of_true rfl (.inl hequal)
  · rw [or_iff_right hequal]
    cases hstrip : EndpointPattern.stripWildcard pattern.host with
    | none =>
      refine iff_of_false Bool.false_ne_true ?_
      rintro ⟨domain, hdomain, -⟩
      rw [stripWildcard_eq_some.mpr hdomain] at hstrip
      cases hstrip
    | some suffix =>
      have hhost := stripWildcard_eq_some.mp hstrip
      refine (properSubdomain_iff url_host suffix).trans ⟨fun h => ⟨suffix, hhost, h⟩, ?_⟩
      rintro ⟨domain, hdomain, hsub⟩
      rw [hhost] at hdomain
      obtain rfl := (List.cons.inj (List.cons.inj hdomain).2).2
      exact hsub

/-- A pattern matches what it names. -/
theorem matches_iff {pattern : EndpointPattern} {url_host url_path method : List Char} :
    pattern.matches U url_host url_path method = true ↔
      Names U pattern url_host url_path method := by
  have hpath : pattern.pathMatches url_path = true ↔
      ∀ start, pattern.pathPrefix = some start → start <+: url_path := by
    rw [EndpointPattern.pathMatches]
    cases pattern.pathPrefix <;> simp
  have hmethod : (pattern.methods.isEmpty ||
      pattern.methods.any fun m => U.uppercase m == U.uppercase method) = true ↔
        (pattern.methods ≠ [] → ∃ m ∈ pattern.methods, U.uppercase m = U.uppercase method) := by
    rw [Bool.or_eq_true, List.isEmpty_iff, List.any_eq_true, or_iff_not_imp_left]
    simp only [beq_iff_eq, ne_eq]
  rw [EndpointPattern.matches, Bool.and_eq_true, Bool.and_eq_true, hostMatches_iff, hpath, hmethod]
  exact ⟨fun h => ⟨h.1.1, h.1.2, h.2⟩, fun h => ⟨⟨h.host, h.path⟩, h.method⟩⟩

end Requests

/-- A URL of a host, with http or https as it has to be, and without userinfo. -/
structure Admissible (validator : AllowlistValidator) (url : List Char) (parsed : Url)
    (host : List Char) : Prop where
  parse : U.parse url = .ok parsed
  scheme : U.lowercase parsed.scheme = "http".toList ∨ U.lowercase parsed.scheme = "https".toList
  https : validator.require_https = true → U.lowercase parsed.scheme = "https".toList
  username : parsed.username = []
  password : parsed.password = none
  host : parsed.host_str = some host

variable {U}

/-- What is made of a URL is its scheme, its host and its path, if that can be read. -/
theorem parseUrl_of_admissible {validator : AllowlistValidator} {url : List Char} {parsed : Url}
    {host : List Char} (h : Admissible U validator url parsed host) :
    parseUrl U url = (normalizePath U parsed.path).map fun path =>
      ⟨U.lowercase parsed.scheme, urlHost U host, path⟩ := by
  have hscheme : ¬(U.lowercase parsed.scheme ≠ "http".toList ∧
      U.lowercase parsed.scheme ≠ "https".toList) := fun hne => h.scheme.elim hne.1 hne.2
  have huserinfo : ¬(parsed.username ≠ [] ∨ parsed.password.isSome = true) := by
    rw [h.username, h.password]
    simp
  rw [parseUrl, h.parse]
  change ite _ _ _ = _
  rw [if_neg hscheme, if_neg huserinfo, h.host]
  cases normalizePath U parsed.path <;> rfl

/-- A request is allowed exactly when its path can be read and a pattern names it, and what its path
is normalised to stays as it is. -/
theorem validate_iff {validator : AllowlistValidator} {url : List Char} {parsed : Url}
    {host : List Char} (h : Admissible U validator url parsed host) (method : List Char) :
    (validate U validator url method = .allowed ↔ ∃ path, Resolves U parsed.path path ∧
      ∃ pattern ∈ validator.patterns, Names U pattern (urlHost U host) path method) ∧
      ∀ path, normalizePath U parsed.path = .ok path → Normalised U path := by
  refine ⟨?_, fun path hpath => (normalizePath_eq_ok.mp hpath).normalised⟩
  rw [validate, parseUrl_of_admissible h]
  split_ifs with hempty
  · rw [List.isEmpty_iff] at hempty
    refine iff_of_false (fun h => by cases h) ?_
    rintro ⟨path, -, pattern, hpattern, -⟩
    rw [hempty] at hpattern
    cases hpattern
  · cases hpath : normalizePath U parsed.path with
    | error e =>
      refine iff_of_false (fun h => by cases h) ?_
      rintro ⟨path, hresolves, -⟩
      rw [normalizePath_eq_ok.mpr hresolves] at hpath
      cases hpath
    | ok path =>
      have hresolves {path' : List Char} : Resolves U parsed.path path' ↔ path = path' := by
        rw [← normalizePath_eq_ok, hpath, Except.ok.injEq]
      have hsecure : ¬(validator.require_https = true ∧
          U.lowercase parsed.scheme ≠ "https".toList) := fun hne => hne.2 (h.https hne.1)
      simp only [Except.map, if_neg hsecure, hresolves, exists_eq_left']
      have hany : validator.patterns.any (·.matches U (urlHost U host) path method) = true ↔
          ∃ pattern ∈ validator.patterns, Names U pattern (urlHost U host) path method := by
        simp only [List.any_eq_true, matches_iff]
      rw [← hany]
      split_ifs with hmatch
      · exact iff_of_true rfl hmatch
      · exact iff_of_false (fun h => by cases h) hmatch

/-! ### Percent encoding -/

/-- Bytes that are not encoded. -/
def isUnreserved (b : ℕ) : Bool :=
  let c := Char.ofNat b
  decide (b < 128) && (c.isAlphanum || c == '-' || c == '_' || c == '.' || c == '~')

/-- A hexadecimal digit in upper case. -/
def upperHexDigit (n : ℕ) : Char := ("0123456789ABCDEF".toList[n]?).getD '0'

def encodeByte (b : UInt8) : List Char :=
  if isUnreserved b.toNat then [Char.ofNat b.toNat]
  else ['%', upperHexDigit (b.toNat / 16), upperHexDigit (b.toNat % 16)]

/-- `urlencoding::encode`. -/
def percentEncode (segment : List Char) : List Char :=
  (Files.encodeUtf8 segment).flatMap encodeByte

def hexDigitValue (c : Char) : ℕ :=
  if c.isDigit then c.toNat - 48 else if c.isLower then c.toNat - 87 else c.toNat - 55

/-- The bytes of a text whose encoding is valid. -/
def percentBytes : List Char → List UInt8
  | [] => []
  | c :: rest =>
    if c = '%' then
      match rest with
      | hi :: lo :: rest =>
        UInt8.ofNat (16 * hexDigitValue hi + hexDigitValue lo) :: percentBytes rest
      | _ => []
    else String.utf8EncodeChar c ++ percentBytes rest

/-- `urlencoding::decode`, of a text whose encoding is valid. -/
def percentDecode (segment : List Char) : Option (List Char) :=
  Files.decodeUtf8 (percentBytes segment)

theorem isUnreserved_spec {n : ℕ} (h : isUnreserved n = true) : Char.ofNat n ≠ '%' ∧
    Char.ofNat n ≠ '/' ∧ String.utf8EncodeChar (Char.ofNat n) = [UInt8.ofNat n] := by
  have hall : ∀ n : Fin 128, isUnreserved n = true → Char.ofNat n ≠ '%' ∧
      Char.ofNat n ≠ '/' ∧ String.utf8EncodeChar (Char.ofNat n) = [UInt8.ofNat n] := by
    decide +kernel
  have hlt : n < 128 := by
    rw [isUnreserved, Bool.and_eq_true, decide_eq_true_eq] at h
    exact h.1
  exact hall ⟨n, hlt⟩ h

theorem upperHexDigit_spec {n : ℕ} (h : n < 16) : isHexDigit (upperHexDigit n) = true ∧
    upperHexDigit n ≠ '/' ∧ hexDigitValue (upperHexDigit n) = n := by
  have hall : ∀ n : Fin 16, isHexDigit (upperHexDigit n) = true ∧
      upperHexDigit n ≠ '/' ∧ hexDigitValue (upperHexDigit n) = n := by decide +kernel
  exact hall ⟨n, h⟩

theorem digits_spec (b : UInt8) : (isHexDigit (upperHexDigit (b.toNat / 16)) = true ∧
    upperHexDigit (b.toNat / 16) ≠ '/' ∧
      hexDigitValue (upperHexDigit (b.toNat / 16)) = b.toNat / 16) ∧
    isHexDigit (upperHexDigit (b.toNat % 16)) = true ∧ upperHexDigit (b.toNat % 16) ≠ '/' ∧
      hexDigitValue (upperHexDigit (b.toNat % 16)) = b.toNat % 16 := by
  have hlt := b.toNat_lt
  exact ⟨upperHexDigit_spec (by omega), upperHexDigit_spec (by omega)⟩

theorem percentBytes_encodeByte (b : UInt8) (rest : List Char) :
    percentBytes (encodeByte b ++ rest) = b :: percentBytes rest := by
  rw [encodeByte]
  split_ifs with h
  · obtain ⟨hpercent, -, hbytes⟩ := isUnreserved_spec h
    rw [List.singleton_append, percentBytes.eq_def]
    simp only [if_neg hpercent, hbytes, UInt8.ofNat_toNat, List.singleton_append]
  · obtain ⟨⟨-, -, hhi⟩, -, -, hlo⟩ := digits_spec b
    simp only [List.cons_append, List.nil_append, percentBytes, if_pos, hhi, hlo, Nat.div_add_mod,
      UInt8.ofNat_toNat]

theorem valid_encodeByte (b : UInt8) (rest : List Char) :
    hasValidPercentEncoding (encodeByte b ++ rest) = hasValidPercentEncoding rest := by
  rw [encodeByte]
  split_ifs with h
  · rw [List.singleton_append, hasValidPercentEncoding.eq_def]
    simp only [if_neg (isUnreserved_spec h).1]
  · obtain ⟨⟨hhi, -, -⟩, hlo, -, -⟩ := digits_spec b
    simp only [List.cons_append, List.nil_append, hasValidPercentEncoding, if_pos, hhi, hlo,
      Bool.true_and]

theorem slash_notMem_encodeByte (b : UInt8) : '/' ∉ encodeByte b := by
  rw [encodeByte]
  split_ifs with h
  · simpa using (isUnreserved_spec h).2.1.symm
  · obtain ⟨⟨-, hhi, -⟩, -, hlo, -⟩ := digits_spec b
    simp [hhi.symm, hlo.symm]

/-- Encoding by bytes of UTF-8, letters of ASCII in their cases, and one URL that can be parsed. -/
def asciiCrate (url : List Char) (parsed : Url) : UrlCrate where
  parse u := if u = url then .ok parsed else .error "relative URL without a base".toList
  decode := percentDecode
  encode := percentEncode
  lowercase cs := cs.map Char.toLower
  uppercase cs := cs.map Char.toUpper
  decode_encode segment := by
    have hbytes (bytes : List UInt8) : percentBytes (bytes.flatMap encodeByte) = bytes := by
      induction bytes with
      | nil => rfl
      | cons b bytes ih => rw [List.flatMap_cons, percentBytes_encodeByte, ih]
    rw [percentDecode, percentEncode, hbytes, Files.decodeUtf8_encodeUtf8]
  valid_encode segment := by
    rw [percentEncode]
    induction Files.encodeUtf8 segment with
    | nil => rfl
    | cons b bytes ih => rw [List.flatMap_cons, valid_encodeByte, ih]
  slash_encode segment h := by
    obtain ⟨b, -, hb⟩ := List.mem_flatMap.mp h
    exact slash_notMem_encodeByte b hb
  encode_nil := rfl

theorem parse_asciiCrate (url : List Char) (parsed : Url) :
    (asciiCrate url parsed).parse url = .ok parsed := if_pos rfl

/-- A URL of one host. -/
def urlOf (path : String) : Url :=
  ⟨"https".toList, [], none, some "api.example.com".toList, path.toList⟩

def urlText (path : String) : List Char := "https://api.example.com".toList ++ path.toList

/-- All of a host's subdomains. -/
def exampleValidator : AllowlistValidator := ⟨[⟨"*.example.com".toList, none, []⟩], true⟩

/-- The parser of a URL with that path. -/
def exampleCrate (path : String) : UrlCrate := asciiCrate (urlText path) (urlOf path)

theorem example_validated : (validate (exampleCrate "/v1/a%20b/../c") exampleValidator (urlText "/v1/a%20b/../c")
      "GET".toList = .allowed ↔ ∃ path, Resolves (exampleCrate "/v1/a%20b/../c") "/v1/a%20b/../c".toList path ∧
        ∃ pattern ∈ exampleValidator.patterns, Names (exampleCrate "/v1/a%20b/../c") pattern
          (urlHost (exampleCrate "/v1/a%20b/../c") "api.example.com".toList) path "GET".toList) ∧
      ∀ path, normalizePath (exampleCrate "/v1/a%20b/../c") "/v1/a%20b/../c".toList = .ok path →
        Normalised (exampleCrate "/v1/a%20b/../c") path :=
  validate_iff ⟨parse_asciiCrate _ (urlOf "/v1/a%20b/../c"), .inr (by decide), fun _ => by decide, rfl, rfl,
    rfl⟩ _

/-- A path with an encoded separator is denied to a pattern that names every path. -/
theorem encoded_separator_denied : ¬ ∃ path,
    (validate (exampleCrate "/v1/%2Fadmin") exampleValidator (urlText "/v1/%2Fadmin")
      "GET".toList = .allowed ↔ ∃ pattern ∈ exampleValidator.patterns,
        Names (exampleCrate "/v1/%2Fadmin") pattern "api.example.com".toList path
          "GET".toList) := by
  rintro ⟨path, h⟩
  have hnamed : Names (exampleCrate "/v1/%2Fadmin") ⟨"*.example.com".toList, none, []⟩
      "api.example.com".toList path "GET".toList :=
    ⟨.inr ⟨"example.com".toList, by decide, "api".toList, by decide⟩,
      fun _ hstart => (by cases hstart), fun hne => absurd rfl hne⟩
  have hallowed := h.mpr ⟨_, List.mem_cons_self, hnamed⟩
  revert hallowed
  decide +kernel

end T3Claw.Wasm
