import T3Claw.Data.Disk
import T3Claw.Data.Text

/-!
# The paths the file tools accept

A path a tool is given names a file relative to the root, to the base directory or to the
working directory. `validatePath` makes it absolute and refuses what lies outside the base
directory; the file tools also refuse workspace files and files that hold credentials. What
these checks see of the disk is a look-up, which can fail at any path.
-/

namespace T3Claw.Files

/-- An absolute path: its components, without `.`. -/
abbrev Path : Type := List String

/-- `Path::display`. -/
def Path.display (path : Path) : String := "/" ++ String.intercalate "/" path

/-- `Path::file_name`. -/
def fileName (path : Path) : Option String := path.getLast?.filter (· ≠ "..")

/-- The components of a path as it is written. -/
def components (path_str : String) : Path :=
  ((path_str.toList.splitOn '/').map String.ofList).filter fun name => name ≠ "" ∧ name ≠ "."

/-- `Path::is_absolute`. -/
def isAbsolute (path_str : String) : Bool := path_str.toList.head? = some '/'

/-- `tool.rs::ToolError`, as far as the file tools return it. -/
inductive ToolError where
  | InvalidParameters (message : String)
  | ExecutionFailed (message : String)
  | NotAuthorized (message : String)
  deriving DecidableEq

/-- `normalize_lexical` of an absolute path. -/
def normalizeLexical (path : Path) : Path :=
  path.foldl (fun components name => if name = ".." then components.dropLast
    else components ++ [name]) []

def lowercase (text : String) : List Char := text.toList.map Char.toLower

/-- `is_path_safe_minimal`. -/
def isPathSafeMinimal (path : String) : Bool :=
  !path.toList.contains (Char.ofNat 0) &&
    !(Text.contains "%2e".toList (lowercase path) || Text.contains "%2f".toList (lowercase path) ||
      Text.contains "%5c".toList (lowercase path))

/-- Where the file tools run. -/
structure Place where
  current_dir : Path
  base_dir : Option Path

/-- What `canonicalize` gives during a call, where it may fail. -/
def lookUp (disk : Disk) (fails : Path → Bool) (path : Path) : Option Path :=
  if fails path then none else disk.canonicalize path

/-- The loop of `validate_path` up to the nearest ancestor that exists, below which the rest is
appended again. -/
def appendToAncestor (look : Path → Option Path) (resolved : Path) :
    (reversed tail : Path) → Path
  | [], tail => ((look []).map (· ++ tail)).getD resolved
  | name :: up, tail =>
    match look (up.reverse ++ [name]) with
    | some found => found ++ tail
    | none => appendToAncestor look resolved up (name :: tail)

/-- `validate_path`. -/
def validatePath (look : Path → Option Path) (place : Place) (path_str : String) :
    Except ToolError Path :=
  if !isPathSafeMinimal path_str then
    .error (.NotAuthorized s!"Path contains forbidden characters or sequences: {path_str}")
  else
    let path := components path_str
    let resolved :=
      if isAbsolute path_str then (look path).getD (normalizeLexical path)
      else
        match place.base_dir with
        | some base => (look (base ++ path)).getD (normalizeLexical (base ++ path))
        | none => normalizeLexical (place.current_dir ++ path)
    match place.base_dir with
    | none => .ok resolved
    | some base =>
      let base_canonical := (look base).getD (normalizeLexical base)
      let check_path := appendToAncestor look resolved resolved.reverse []
      if base_canonical.isPrefixOf check_path then .ok resolved
      else .error (.NotAuthorized s!"Path escapes sandbox: {path_str}")

/-- `WORKSPACE_FILES`. -/
def WORKSPACE_FILES : List String :=
  ["HEARTBEAT.md", "MEMORY.md", "IDENTITY.md", "SOUL.md", "AGENTS.md", "USER.md", "README.md"]

/-- `is_workspace_path`. -/
def isWorkspacePath (path : String) : Bool :=
  WORKSPACE_FILES.contains ((fileName (components path)).getD path) ||
    "daily/".toList.isPrefixOf path.toList || "context/".toList.isPrefixOf path.toList

/-! ### `sensitive_paths.rs` -/

def SENSITIVE_PATH_PATTERNS : List String :=
  [ "/.ssh/", "/.aws/", "/.netrc", "/.pgpass", "/.npmrc", "/.pypirc", "/.docker/", "/.kube/",
    "/.git-credentials", "/.gcloud/", "/.config/gcloud/", "/.gnupg/", "/.vault-token",
    "/.t3claw/secrets/", "/.config/gh/hosts.yml", "/etc/shadow", "/etc/gshadow",
    "/.terraform.d/credentials.tfrc.json", "/.azure/", "/.bash_history", "/.zsh_history",
    "/.histfile" ]

def SENSITIVE_EXTENSIONS : List String := [".pem", ".key", ".p12", ".pfx", ".jks", ".keystore"]

def SAFE_SUFFIXES : List String := [".dist"]

def ENV_SAFE_SUFFIXES : List String := [".example", ".template", ".sample", ".dist"]

def SENSITIVE_FILENAMES : List String :=
  ["id_rsa", "id_ed25519", "id_ecdsa", "id_dsa", "authorized_keys", "known_hosts"]

/-- The file names that hold credentials. -/
def isSensitiveName (name : List Char) : Bool :=
  ((name = ".env".toList || ".env.".toList.isPrefixOf name) &&
      !ENV_SAFE_SUFFIXES.any fun suffix => suffix.toList = name.drop 4) ||
    (!SAFE_SUFFIXES.any (fun suffix => suffix.toList.isSuffixOf name) &&
      SENSITIVE_EXTENSIONS.any fun ext => ext.toList.isSuffixOf name) ||
    SENSITIVE_FILENAMES.any fun file => file.toList = name

/-- `is_sensitive_path`. -/
def isSensitivePath (look : Path → Option Path) (path : Path) : Bool :=
  let resolved := (look path).getD path
  let path_str := (lowercase (Path.display resolved)).map fun c => if c = '\\' then '/' else c
  (fileName resolved).any (fun name => isSensitiveName (lowercase name)) ||
    SENSITIVE_PATH_PATTERNS.any fun pattern =>
      Text.contains pattern.toList path_str || Text.contains pattern.toList (path_str ++ ['/'])

end T3Claw.Files
