import T3Claw.Data.Text
import T3Claw.Runtime.Resume

/-!
# The helpers of the orchestrator script

The functions of `orchestrator/default.py` in front of its loop, as far as they read the texts of
a thread: the answer in a text, the signs that something is to be done, the output of code, and the
size of a transcript. Texts are lists of characters, as Python counts them.
-/

namespace T3Claw.Orchestrator

open T3Claw.Runtime (MessageRole)

/-- What the script uses of Python. -/
structure PyHost where
  /-- `str.lower`. -/
  lower : List Char → List Char
  /-- `str` of a value. -/
  str : Json → List Char

/-! ### Texts -/

/-- `str.find`, and what stands in front of the pattern. -/
def before? (pattern : List Char) : List Char → Option (List Char)
  | [] => if pattern.isEmpty then some [] else none
  | c :: cs => if pattern.isPrefixOf (c :: cs) then some [] else (before? pattern cs).map (c :: ·)

/-- `str.find`, and what stands behind the pattern. -/
def behind? (pattern text : List Char) : Option (List Char) :=
  (before? pattern text).map fun front => text.drop (front.length + pattern.length)

/-- `in`. -/
def isIn (pattern text : List Char) : Bool := (before? pattern text).isSome

/-- What stands in front of the parenthesis that closes, behind `depth` more that are open. -/
def balanced : (depth : ℕ) → List Char → Option (List Char)
  | _, [] => none
  | depth, c :: cs =>
    if c = '(' then (balanced (depth + 1) cs).map (c :: ·)
    else if c = ')' then
      match depth with
      | 0 => some []
      | depth + 1 => (balanced depth cs).map (c :: ·)
    else (balanced depth cs).map (c :: ·)

/-- What stands in quotes at the start of a text. -/
def quoted (quote text : List Char) : Option (List Char) :=
  if quote.isPrefixOf text then before? quote (text.drop quote.length) else none

/-- `extract_final`. -/
def extractFinal (text : List Char) : Option (List Char) :=
  (behind? "FINAL(".toList text).bind fun after =>
    (quoted ['"', '"', '"'] after).or <| (quoted ['\'', '\'', '\''] after).or <|
      (quoted ['"'] after).or <| (quoted ['\''] after).or <| balanced 0 after

/-- `strip_quoted_strings`, from inside or outside of a quote. -/
def stripQuotedStrings : (in_quote : Bool) → (prev : Option Char) → List Char → List Char
  | _, _, [] => []
  | in_quote, prev, c :: cs =>
    if c = '"' ∧ prev ≠ some '\\' then stripQuotedStrings (!in_quote) (some c) cs
    else if in_quote then stripQuotedStrings in_quote (some c) cs
    else c :: stripQuotedStrings in_quote (some c) cs

/-- `strip_code_blocks`, the lines from inside or outside of a fence. -/
def stripFences : (in_fence : Bool) → List (List Char) → List (List Char)
  | _, [] => []
  | in_fence, line :: rest =>
    if (List.replicate 3 '\x60').isPrefixOf (line.dropWhile Text.isWhitespace) then
      stripFences (!in_fence) rest
    else if in_fence || "    ".toList.isPrefixOf line || ['\t'].isPrefixOf line then
      stripFences in_fence rest
    else stripQuotedStrings false none line :: stripFences in_fence rest

/-- `strip_code_blocks`. -/
def stripCodeBlocks (text : List Char) : List Char :=
  ['\n'].intercalate (stripFences false (text.splitOn '\n'))

def EXCLUSIONS : List String :=
  [ "let me explain", "let me know", "let me think", "let me summarize", "let me clarify",
    "let me describe", "let me help", "let me understand", "let me break", "let me outline",
    "let me walk you", "let me provide", "let me suggest", "let me elaborate", "let me start by" ]

def PREFIXES : List String := ["let me ", "i'll ", "i will ", "i'm going to "]

def ACTION_VERBS : List String :=
  [ "search", "look up", "check", "fetch", "find", "read the", "write the", "create", "run the",
    "execute", "query", "retrieve", "add it", "add the", "add this", "add that", "update the",
    "delete", "remove the", "look into" ]

def EXEC_PHRASES : List String :=
  [ "run it", "run that", "run them", "run this", "run the ", "execute it", "execute that",
    "execute them", "execute this", "execute the ", "ship it", "deploy it", "deploy that",
    "deploy this", "deploy the ", "send it", "send that", "send the ", "fetch it", "fetch that",
    "fetch the ", "please run ", "please execute ", "please fetch ", "please send ",
    "please deploy " ]

/-- `signals_tool_intent`. -/
def signalsToolIntent (host : PyHost) (text : List Char) : Bool :=
  let lower := host.lower (stripCodeBlocks text)
  !(EXCLUSIONS.any fun exc => isIn exc.toList lower) &&
    PREFIXES.any fun start => lower.tails.any fun tail =>
      start.toList.isPrefixOf tail &&
        let after := tail.drop start.toList.length
        ACTION_VERBS.any fun verb =>
          verb.toList.isPrefixOf after || isIn (' ' :: verb.toList) (after.takeWhile (· ≠ '\n'))

/-- `signals_execution_intent`. -/
def signalsExecutionIntent (host : PyHost) (text : List Char) : Bool :=
  EXEC_PHRASES.any fun phrase => isIn phrase.toList (host.lower (stripCodeBlocks text))

/-! ### Messages -/

/-- A call of an action. -/
structure Call where
  name : String
  call_id : String
  params : Json

/-- A message of the working transcript. -/
structure Message where
  role : MessageRole
  content : List Char
  action_name : Option String
  action_call_id : Option String
  action_calls : Option (List Call)

/-- A message of a role and a content alone. -/
def Message.plain (role : MessageRole) (content : List Char) : Message :=
  ⟨role, content, none, none, none⟩

/-- `append_system_append`, where there is a system message. -/
def appendToSystem (content : List Char) : List Message → Option (List Message)
  | [] => none
  | msg :: rest =>
    if msg.role = .system then
      let existing := msg.content
      some ({ msg with content := if existing = [] then content
                                  else existing ++ ['\n', '\n'] ++ content } :: rest)
    else (appendToSystem content rest).map (msg :: ·)

/-- `append_system_append`. -/
def appendSystemAppend (content : List Char) (messages : List Message) : List Message :=
  (appendToSystem content messages).getD (.plain .system content :: messages)

def CHARS_PER_TOKEN : ℕ := 4

def MESSAGE_OVERHEAD_CHARS : ℕ := 4

/-- `estimate_context_tokens`. -/
def estimateContextTokens (messages : List Message) : ℕ :=
  let total_chars := (messages.map fun msg => msg.content.length +
    (msg.action_name.elim 0 fun name => name.toList.length) + MESSAGE_OVERHEAD_CHARS).sum
  (total_chars + CHARS_PER_TOKEN - 1) / CHARS_PER_TOKEN

/-! ### The output of code -/

/-- What stopped an action, and what a thread has to wait for then. -/
structure Pause where
  gate_paused : Bool
  need_authentication : Bool
  need_approval : Bool
  gate_name : String
  action_name : String
  call_id : String
  credential_name : String
  parameters : Json
  resume_kind : Json

/-- An action that code has executed. -/
structure CodeAction where
  action_name : String
  output : Json
  is_error : Bool

/-- What a step of code has come to. -/
structure CodeResult where
  stdout : List Char
  action_results : List CodeAction
  return_value : Option Json
  final_answer : Option (List Char)
  pending_gate : Option Pause
  need_approval : Option Pause
  had_error : Bool

/-- `format_output`. -/
def formatOutput (host : PyHost) (result : CodeResult) : List Char :=
  let stdout := if result.stdout = [] then [] else ["[stdout]\n".toList ++ result.stdout]
  let actions := result.action_results.map fun r =>
    let name := r.action_name.toList
    let output := host.str r.output
    if r.is_error then '[' :: name ++ " ERROR] ".toList ++ output
    else if 500 < output.length then
      '[' :: name ++ "] ".toList ++ output.take 500 ++
        "...\n(full result stored in state['".toList ++ name ++
        "']; do NOT retype the data — reference the variable in your next call.)".toList
    else '[' :: name ++ "] ".toList ++ output
  let ret := result.return_value.toList.map fun value => "[return] ".toList ++ host.str value
  let text := ['\n', '\n'].intercalate (stdout ++ actions ++ ret)
  let text := if 8000 < text.length then
    "... (truncated) ...\n".toList ++ text.drop (text.length - 8000) else text
  if text = [] then "[code executed, no output]".toList else text

end T3Claw.Orchestrator
