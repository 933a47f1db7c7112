import T3Claw.Types.Mission
import T3Claw.Types.Thread
import T3Claw.Data.Text

/-!
# Where the engine store keeps its records

The workspace paths of `store_adapter.rs`, as their segments. Threads, steps, events, leases and
conversations have a file of their own by their id. A project is kept under the slug of its
name alone, and a mission under the slug of its name and the first eight digits of its id, below
a directory named for its project.
-/

namespace T3Claw.Bridge

/-- A workspace path: its segments. -/
abbrev Path : Type := List (List Char)

/-! ### UUIDs -/

def hexDigit (n : ℕ) : Char := ("0123456789abcdef".toList[n % 16]?).getD '0'

/-- The last `width` hexadecimal digits of a number. -/
def hex : (width n : ℕ) → List Char
  | 0, _ => []
  | width + 1, n => hex width (n / 16) ++ [hexDigit n]

/-- `Uuid::to_string`. -/
def uuidString (uuid : ℕ) : List Char :=
  let digits := hex 32 uuid
  digits.take 8 ++ '-' :: (digits.drop 8).take 4 ++ '-' :: (digits.drop 12).take 4 ++
    '-' :: (digits.drop 16).take 4 ++ '-' :: digits.drop 20

/-- The first eight digits. -/
def shortId (uuid : ℕ) : List Char := (uuidString uuid).take 8

/-! ### Slugs -/

/-- `char::is_ascii_alphanumeric`. -/
def isAsciiAlphanumeric (c : Char) : Bool :=
  c.isDigit || ('a' ≤ c && c ≤ 'z') || ('A' ≤ c && c ≤ 'Z')

/-- `trim_end_matches('-')`. -/
def trimEndDashes (cs : List Char) : List Char := (cs.reverse.dropWhile (· = '-')).reverse

/-- The loop of `slugify`: of several dashes in a row the first stays, and none at the front. -/
def collapseDashes : (prev_dash started : Bool) → List Char → List Char
  | _, _, [] => []
  | prev_dash, started, c :: cs =>
    if c = '-' then
      if !prev_dash && started then c :: collapseDashes true started cs
      else collapseDashes true started cs
    else c :: collapseDashes false true cs

/-- The cut of `slugify` at sixty characters, where there is a dash to cut at. -/
def truncateSlug (slug : List Char) : List Char :=
  if 60 < slug.length then
    let window := slug.take 60
    match (window.reverse.findIdx? (· = '-')).map fun i => 59 - i with
    | some pos => if 20 < pos then slug.take pos else window
    | none => window
  else slug

/-- `slugify`. -/
def slugify (lowercase : List Char → List Char) (title : String) (uuid : ℕ) : List Char :=
  let slug := (lowercase title.toList).map fun c =>
    if isAsciiAlphanumeric c || c = '-' then c else '-'
  truncateSlug (trimEndDashes (collapseDashes false false slug)) ++ "--".toList ++ shortId uuid

/-- The loop of `slugify_simple`. -/
def slugifySimpleFrom : (prev_dash : Bool) → List Char → List Char
  | _, [] => []
  | prev_dash, c :: cs =>
    if isAsciiAlphanumeric c then c :: slugifySimpleFrom false cs
    else if prev_dash then slugifySimpleFrom true cs
    else '-' :: slugifySimpleFrom true cs

/-- `slugify_simple`. -/
def slugifySimple (lowercase : List Char → List Char) (name : String) : List Char :=
  trimEndDashes (slugifySimpleFrom true (lowercase name.toList))

/-- `project_slug_for_name`. -/
def projectSlugForName (lowercase : List Char → List Char) (name : String) : List Char :=
  let slug := slugifySimple lowercase name
  if slug.isEmpty then "untitled".toList else slug

/-! ### Paths -/

def SYSTEM_ENGINE : Path := [".system".toList, "engine".toList]

/-- `PROJECTS_PREFIX`. -/
def PROJECTS_PREFIX : Path := SYSTEM_ENGINE ++ ["projects".toList]

/-- `PROJECTS_ROOT`. -/
def PROJECTS_ROOT : Path := ["projects".toList]

/-- `PROJECT_METADATA_FILENAME`. -/
def PROJECT_METADATA_FILENAME : List Char := ".project.json".toList

def RUNTIME : Path := SYSTEM_ENGINE ++ ["runtime".toList]

/-- `THREADS_PREFIX`. -/
def THREADS_PREFIX : Path := RUNTIME ++ ["threads".toList, "active".toList]

/-- `THREAD_ARCHIVE_PREFIX`. -/
def THREAD_ARCHIVE_PREFIX : Path := RUNTIME ++ ["threads".toList, "archive".toList]

/-- `STEPS_PREFIX`. -/
def STEPS_PREFIX : Path := RUNTIME ++ ["steps".toList]

/-- `EVENTS_PREFIX`. -/
def EVENTS_PREFIX : Path := RUNTIME ++ ["events".toList]

/-- `LEASES_PREFIX`. -/
def LEASES_PREFIX : Path := RUNTIME ++ ["leases".toList]

/-- `CONVERSATIONS_PREFIX`. -/
def CONVERSATIONS_PREFIX : Path := RUNTIME ++ ["conversations".toList]

def jsonFile (stem : List Char) : List Char := stem ++ ".json".toList

def threadPath (id : ThreadId) : Path := THREADS_PREFIX ++ [jsonFile (uuidString id.uuid)]

def stepPath (id : ThreadId) : Path := STEPS_PREFIX ++ [jsonFile (uuidString id.uuid)]

def eventPath (id : ThreadId) : Path := EVENTS_PREFIX ++ [jsonFile (uuidString id.uuid)]

def leasePath (id : LeaseId) : Path := LEASES_PREFIX ++ [jsonFile (uuidString id.uuid)]

def conversationPath (id : ConversationId) : Path :=
  CONVERSATIONS_PREFIX ++ [jsonFile (uuidString id.uuid)]

/-- `project_path`. -/
def projectPath (lowercase : List Char → List Char) (name : String) : Path :=
  PROJECTS_ROOT ++ [projectSlugForName lowercase name, PROJECT_METADATA_FILENAME]

/-- `mission_path`. -/
def missionPath (lowercase : List Char → List Char) (project_slug : List Char) (name : String)
    (id : MissionId) : Path :=
  PROJECTS_PREFIX ++ [project_slug, "missions".toList, slugify lowercase name id.uuid,
    "mission.json".toList]

example :
    slugify (List.map Char.toLower) "Validate tool names!" 0x65c9f5cd000000000000000000000000 =
      "validate-tool-names--65c9f5cd".toList := by decide +kernel

end T3Claw.Bridge
