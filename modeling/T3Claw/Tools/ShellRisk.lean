import T3Claw.Data.Occurrence
import T3Claw.Data.Words

/-!
# The risk of a shell command

`classify_command_risk` of `tools/builtin/shell.rs`. A command is cut at `|`, `&` and `;`, and each
piece is ranked by patterns: those of one word against its first word, those of several words
against the text as it is written. A newline cuts nothing, and a pattern of several words misses a
command that is spaced otherwise (`shellRisk_iff`).
-/

namespace T3Claw.ShellTool

open Text (isWhitespace trim splitWhitespace IsWord)

/-! ### Patterns -/

/-- `RiskLevel`. -/
inductive RiskLevel where
  | low
  | medium
  | high
  deriving DecidableEq

namespace RiskLevel

/-- The order in which the levels are declared. -/
def rank : RiskLevel → ℕ
  | low => 0
  | medium => 1
  | high => 2

theorem rank_injective : Function.Injective rank := by
  intro a b h
  cases a <;> cases b <;> first | rfl | cases h

instance linearOrder : LinearOrder RiskLevel := LinearOrder.lift' rank rank_injective

end RiskLevel

def NEVER_AUTO_APPROVE_PATTERNS : List (List Char) :=
  ["rm -rf", "rm -fr", "chmod -r 777", "chmod 777", "chown -r", "shutdown", "reboot", "poweroff",
    "init 0", "init 6", "iptables", "nft", "useradd", "userdel", "passwd", "visudo", "crontab",
    "systemctl disable", "launchctl unload", "kill -9", "killall", "pkill", "docker rm",
    "docker rmi", "docker system prune", "git push --force", "git push --force-with-lease",
    "git push -f", "git reset --hard", "git clean -f", "DROP TABLE", "DROP DATABASE", "TRUNCATE",
    "DELETE FROM", "sudo"].map String.toList

def LOW_RISK_PATTERNS : List (List Char) :=
  ["ls", "ll", "la", "dir", "cat", "less", "more", "head", "tail", "grep", "rg", "ag", "fd",
    "locate", "echo", "printf", "pwd", "cd", "env", "printenv", "which", "whereis", "type", "date",
    "cal", "uptime", "uname", "df", "du", "free", "top", "htop", "ps", "git status", "git log",
    "git diff", "git show", "git branch", "git remote", "git fetch", "cargo check", "cargo clippy",
    "curl --head", "curl -I", "ping", "wc", "sort", "uniq", "tr", "cut", "jq", "yq", "file", "stat",
    "man"].map String.toList

def MEDIUM_RISK_PATTERNS : List (List Char) :=
  ["awk", "sed", "find", "mkdir", "rmdir", "touch", "cp", "copy", "mv", "move", "git commit",
    "git add", "git push", "git checkout", "git switch", "git merge", "git rebase", "git stash",
    "git tag", "cargo build", "cargo run", "cargo test", "npm test", "npm run test", "yarn test",
    "npm install", "npm ci", "npm update", "pip install", "pip uninstall", "brew install",
    "brew uninstall", "apt install", "apt remove", "make", "cmake", "tar", "zip", "unzip", "gzip",
    "gunzip", "ssh", "scp", "rsync", "curl", "wget", "docker build", "docker pull", "docker run",
    "kubectl apply", "kubectl create"].map String.toList

/-- `matches_command_pattern`. -/
def matchesCommandPattern (segment pattern : List Char) : Bool :=
  if ' ' ∈ pattern then segment == pattern || (pattern ++ [' ']).isPrefixOf segment
  else (splitWhitespace segment).head?.getD [] == pattern

/-- `str::to_lowercase`. What becomes of a letter may depend on its word, and on nothing else. -/
structure ToLowercase where
  lower : List Char → List Char
  ascii : ∀ text, (∀ c ∈ text, c.toNat < 128) → lower text = text.map Char.toLower
  whitespace : ∀ front c back, isWhitespace c = true →
    lower (front ++ c :: back) = lower front ++ c :: lower back
  word : ∀ text, IsWord text → IsWord (lower text)

variable (L : ToLowercase)

/-- The rank of a piece. -/
def segmentRisk (segment : List Char) : RiskLevel :=
  let seg_lower := L.lower segment
  if NEVER_AUTO_APPROVE_PATTERNS.any fun p => matchesCommandPattern seg_lower (L.lower p) then .high
  else if LOW_RISK_PATTERNS.any (matchesCommandPattern seg_lower) then .low
  else if MEDIUM_RISK_PATTERNS.any (matchesCommandPattern seg_lower) then .medium
  else .medium

/-- The characters a command is cut at. -/
def isCut (c : Char) : Bool := c == '|' || c == '&' || c == ';'

/-- The ranks of some pieces; nothing is ranked as unknown. -/
def segmentsRisk (segments : List (List Char)) : RiskLevel :=
  (((segments.map trim).filter (· ≠ [])).map (segmentRisk L)).max?.getD .medium

/-- `classify_command_risk`. -/
def classifyCommandRisk (command : List Char) : RiskLevel :=
  segmentsRisk L (command.splitOnP isCut)

/-! ### Commands -/

/-- What ends a command. -/
inductive Separator where
  | pipe
  | or
  | background
  | and
  | semicolon
  | newline
  deriving DecidableEq

def Separator.text : Separator → List Char
  | pipe => ['|']
  | or => ['|', '|']
  | background => ['&']
  | and => ['&', '&']
  | semicolon => [';']
  | newline => ['\n']

/-- A blank or a tab. -/
def isBlank (c : Char) : Bool := c == ' ' || c == '\t'

/-- A command: a word at least, and nothing that ends it. -/
structure SimpleCommand where
  text : List Char
  plain : ∀ c ∈ text, isCut c = false ∧ c ≠ '\n'
  runs : ∃ c ∈ text, isBlank c = false

/-- Runs of blanks and tabs in other lengths. -/
inductive Respaced : List Char → List Char → Prop
  | nil : Respaced [] []
  | char {c : Char} {text text' : List Char} (hc : isBlank c = false) (h : Respaced text text') :
      Respaced (c :: text) (c :: text')
  | run {run run' text text' : List Char} (hrun : run ≠ [] ∧ ∀ c ∈ run, isBlank c = true)
      (hrun' : run' ≠ [] ∧ ∀ c ∈ run', isBlank c = true) (h : Respaced text text') :
      Respaced (run ++ text) (run' ++ text')

/-- Commands that are joined. -/
structure CommandList where
  first : SimpleCommand
  rest : List (Separator × SimpleCommand)

namespace CommandList

def commands (list : CommandList) : List SimpleCommand := list.first :: list.rest.map Prod.snd

/-- What is written behind a command. -/
def tailText (rest : List (Separator × SimpleCommand)) : List Char :=
  rest.flatMap fun next => next.1.text ++ next.2.text

def text (list : CommandList) : List Char := list.first.text ++ tailText list.rest

/-- The stretches between separators that are no newlines, from the stretch so far. -/
def stretchesFrom (stretch : List Char) : List (Separator × SimpleCommand) → List (List Char)
  | [] => [stretch]
  | (.newline, command) :: rest => stretchesFrom (stretch ++ '\n' :: command.text) rest
  | (_, command) :: rest => stretch :: stretchesFrom command.text rest

def stretches (list : CommandList) : List (List Char) := stretchesFrom list.first.text list.rest

end CommandList

/-- What is promised of the rank of a command line. -/
structure RiskSound (list : CommandList) : Prop where
  max : ∀ command ∈ list.commands,
    classifyCommandRisk L command.text ≤ classifyCommandRisk L list.text
  spacing : ∀ command ∈ list.commands, ∀ text, Respaced command.text text →
    classifyCommandRisk L text = classifyCommandRisk L command.text

/-! ### The condition -/

/-- The patterns that decide. -/
def decidingPatterns : List (List Char) :=
  NEVER_AUTO_APPROVE_PATTERNS.map L.lower ++ LOW_RISK_PATTERNS

/-- No pattern of several words begins the text. -/
def NoPhrase (text : List Char) : Prop :=
  ∀ p ∈ decidingPatterns L, ' ' ∈ p → matchesCommandPattern (L.lower (trim text)) p = false

local instance lawfulBEqWord : LawfulBEq (List Char) := inferInstance

/-- The rank by the first word. -/
def wordRisk (text : List Char) : RiskLevel :=
  match (splitWhitespace text).head? with
  | none => .medium
  | some word =>
    if L.lower word ∈ NEVER_AUTO_APPROVE_PATTERNS.map L.lower then .high
    else if L.lower word ∈ LOW_RISK_PATTERNS then .low
    else .medium

/-- No command begins with a pattern of several words, however it is spaced, and none has a first
word of a higher rank than every stretch between separators that are no newlines. White space that
the shell takes for a word has no first word. -/
structure RiskCondition (list : CommandList) : Prop where
  phrase : ∀ command ∈ list.commands, ∀ text, Respaced command.text text → NoPhrase L text
  word : (∀ stretch ∈ list.stretches, splitWhitespace stretch = []) ∨
    ∀ command ∈ list.commands, ∃ stretch ∈ list.stretches, splitWhitespace stretch ≠ [] ∧
      wordRisk L command.text ≤ wordRisk L stretch

/-! ### White space and words -/

theorem splitWhitespace_of_blank {text : List Char} (h : ∀ c ∈ text, isWhitespace c = true) :
    splitWhitespace text = [] := by
  induction text with
  | nil => rfl
  | cons c text ih =>
    obtain ⟨hc, htext⟩ := List.forall_mem_cons.mp h
    rw [← List.nil_append (c :: text), Text.splitWhitespace_append_cons [] text hc, ih htext]
    rfl

theorem splitWhitespace_blank_append {front : List Char} (h : ∀ c ∈ front, isWhitespace c = true)
    (text : List Char) : splitWhitespace (front ++ text) = splitWhitespace text := by
  induction front with
  | nil => rfl
  | cons c front ih =>
    obtain ⟨hc, hfront⟩ := List.forall_mem_cons.mp h
    rw [List.cons_append, ← List.nil_append (c :: (front ++ text)),
      Text.splitWhitespace_append_cons [] _ hc, ih hfront]
    rfl

theorem splitWhitespace_append_blank (text : List Char) {back : List Char}
    (h : ∀ c ∈ back, isWhitespace c = true) :
    splitWhitespace (text ++ back) = splitWhitespace text := by
  cases back with
  | nil => rw [List.append_nil]
  | cons c back =>
    obtain ⟨hc, hback⟩ := List.forall_mem_cons.mp h
    rw [Text.splitWhitespace_append_cons _ _ hc, splitWhitespace_of_blank hback, List.append_nil]

theorem splitWhitespace_trim (text : List Char) :
    splitWhitespace (trim text) = splitWhitespace text := by
  obtain ⟨front, back, htext, hfront, hback, -⟩ := Text.exists_trim text
  conv_rhs => rw [htext, splitWhitespace_append_blank _ hback, splitWhitespace_blank_append hfront]

/-- A text has a first word, or is white space. -/
theorem exists_first_word (text : List Char) :
    (∀ c ∈ text, isWhitespace c = true) ∨ ∃ front word back, text = front ++ word ++ back ∧
      (∀ c ∈ front, isWhitespace c = true) ∧ IsWord word ∧
        ∀ c ∈ back.head?, isWhitespace c = true := by
  have hhead (p : Char → Bool) (l : List Char) : ∀ c ∈ (l.dropWhile p).head?, p c = false := by
    intro c hc
    have hnot := List.head?_dropWhile_not p l
    rw [hc] at hnot
    simpa using hnot
  have hsplit := List.takeWhile_append_dropWhile (p := isWhitespace) (l := text)
  cases hrest : text.dropWhile isWhitespace with
  | nil => exact .inl (List.dropWhile_eq_nil_iff.mp hrest)
  | cons c rest =>
    refine .inr ⟨text.takeWhile isWhitespace, (c :: rest).takeWhile (!isWhitespace ·),
      (c :: rest).dropWhile (!isWhitespace ·), ?_, fun c hc => List.mem_takeWhile_imp hc, ⟨?_, ?_⟩,
      fun d hd => by simpa using hhead _ _ d hd⟩
    · rw [List.append_assoc, List.takeWhile_append_dropWhile, ← hrest, hsplit]
    · have hc : isWhitespace c = false := hhead isWhitespace text c (by rw [hrest]; rfl)
      simp [hc]
    · intro d hd
      simpa using List.mem_takeWhile_imp hd

theorem splitWhitespace_first {front word back : List Char}
    (hfront : ∀ c ∈ front, isWhitespace c = true) (hword : IsWord word)
    (hback : ∀ c ∈ back.head?, isWhitespace c = true) :
    (splitWhitespace (front ++ word ++ back)).head? = some word := by
  rw [List.append_assoc, splitWhitespace_blank_append hfront]
  cases back with
  | nil => rw [List.append_nil, hword.splitWhitespace]; rfl
  | cons c back =>
    rw [Text.splitWhitespace_append_cons _ _ (hback c rfl), hword.splitWhitespace]
    rfl

theorem isWhitespace_of_isBlank {c : Char} (h : isBlank c = true) : isWhitespace c = true := by
  obtain rfl | rfl : c = ' ' ∨ c = '\t' := by simpa [isBlank] using h
  · decide
  · decide

/-- Another spacing has the same words. -/
theorem Respaced.splitWhitespace {text text' : List Char} (h : Respaced text text') :
    splitWhitespace text = splitWhitespace text' := by
  suffices hfront : ∀ front : List Char,
      Text.splitWhitespace (front ++ text) = Text.splitWhitespace (front ++ text') from hfront []
  have hskip {run : List Char} (hrun : run ≠ [] ∧ ∀ c ∈ run, isBlank c = true)
      (front text : List Char) : Text.splitWhitespace (front ++ (run ++ text)) =
        Text.splitWhitespace front ++ Text.splitWhitespace text := by
    obtain ⟨c, run, rfl⟩ := List.exists_cons_of_ne_nil hrun.1
    obtain ⟨hc, hrun⟩ := List.forall_mem_cons.mp hrun.2
    rw [List.cons_append, Text.splitWhitespace_append_cons _ _ (isWhitespace_of_isBlank hc),
      splitWhitespace_blank_append fun d hd => isWhitespace_of_isBlank (hrun d hd)]
  induction h with
  | nil => exact fun _ => rfl
  | @char c text text' _ _ ih =>
    intro front
    have hmove (l : List Char) : front ++ c :: l = front ++ [c] ++ l :=
      (List.append_assoc front [c] l).symm
    rw [hmove text, hmove text']
    exact ih (front ++ [c])
  | run hrun hrun' _ ih =>
    intro front
    rw [hskip hrun, hskip hrun']
    exact congrArg _ (ih [])

/-- Tabs for blanks. -/
def tabbed (text : List Char) : List Char := text.map fun c => if c = ' ' then '\t' else c

theorem Respaced.tabbed {text text' : List Char} (h : Respaced text text') :
    Respaced text (tabbed text') := by
  induction h with
  | nil => exact .nil
  | @char c text text' hc _ ih =>
    have hne : c ≠ ' ' := by
      rintro rfl
      cases hc
    rw [ShellTool.tabbed, List.map_cons, if_neg hne]
    exact .char hc ih
  | @run run run' text text' hrun hrun' _ ih =>
    rw [ShellTool.tabbed, List.map_append]
    refine .run hrun ⟨by simpa using hrun'.1, fun c hc => ?_⟩ ih
    obtain ⟨d, hd, rfl⟩ := List.mem_map.mp hc
    split
    · rfl
    · exact hrun'.2 d hd

theorem blank_notMem_tabbed (text : List Char) : ' ' ∉ tabbed text := by
  intro h
  obtain ⟨c, -, hc⟩ := List.mem_map.mp h
  split at hc
  · cases hc
  · contradiction

theorem Respaced.refl (text : List Char) : Respaced text text := by
  induction text with
  | nil => exact .nil
  | cons c text ih =>
    cases hc : isBlank c with
    | false => exact .char hc ih
    | true =>
      have hrun : [c] ≠ [] ∧ ∀ d ∈ [c], isBlank d = true := by simp [hc]
      exact .run hrun hrun ih

/-! ### Lower case -/

variable {L}

theorem lower_nil : L.lower [] = [] := L.ascii [] fun _ h => by cases h

theorem lower_blank_append {front : List Char} (h : ∀ c ∈ front, isWhitespace c = true)
    (text : List Char) : L.lower (front ++ text) = front ++ L.lower text := by
  induction front with
  | nil => rfl
  | cons c front ih =>
    obtain ⟨hc, hfront⟩ := List.forall_mem_cons.mp h
    rw [List.cons_append, ← List.nil_append (c :: (front ++ text)), L.whitespace [] c _ hc,
      lower_nil, ih hfront]
    rfl

/-- The first word in lower case. -/
theorem splitWhitespace_lower (text : List Char) :
    (splitWhitespace (L.lower text)).head? = (splitWhitespace text).head?.map L.lower := by
  obtain hblank | ⟨front, word, back, rfl, hfront, hword, hback⟩ := exists_first_word text
  · have hlower : L.lower text = text := by
      simpa [lower_nil] using lower_blank_append (L := L) hblank []
    rw [hlower, splitWhitespace_of_blank hblank]
    rfl
  · rw [splitWhitespace_first hfront hword hback, List.append_assoc, lower_blank_append hfront]
    cases back with
    | nil =>
      have hfirst : (splitWhitespace (front ++ L.lower word ++ [])).head? = some (L.lower word) :=
        splitWhitespace_first hfront (L.word word hword) fun _ h => by cases h
      simpa using hfirst
    | cons c back =>
      rw [L.whitespace _ _ _ (hback c rfl), ← List.append_assoc]
      exact splitWhitespace_first hfront (L.word word hword) fun d hd => hback d hd

/-- White space is as it was. -/
theorem mem_of_mem_lower {c : Char} (hc : isWhitespace c = true) {text : List Char}
    (h : c ∈ L.lower text) : c ∈ text := by
  suffices hfront : ∀ (text front : List Char), (∀ d ∈ front, isWhitespace d = false) →
      c ∈ L.lower (front ++ text) → c ∈ text from hfront text [] (fun _ h => by cases h) h
  intro text
  induction text with
  | nil =>
    intro front hfront hmem
    rw [List.append_nil] at hmem
    obtain rfl | hne := eq_or_ne front []
    · rwa [lower_nil] at hmem
    · have hnot := (L.word front ⟨hne, hfront⟩).2 c hmem
      rw [hc] at hnot
      cases hnot
  | cons d text ih =>
    intro front hfront hmem
    cases hd : isWhitespace d with
    | false =>
      refine List.mem_cons_of_mem _ (ih (front ++ [d]) ?_ (by simpa using hmem))
      exact List.forall_mem_append.mpr ⟨hfront, by simpa using hd⟩
    | true =>
      rw [L.whitespace _ _ _ hd] at hmem
      obtain hmem | hmem := List.mem_append.mp hmem
      · obtain rfl | hne := eq_or_ne front []
        · rw [lower_nil] at hmem
          cases hmem
        · have hnot := (L.word front ⟨hne, hfront⟩).2 c hmem
          rw [hc] at hnot
          cases hnot
      · obtain rfl | hmem := List.mem_cons.mp hmem
        · exact List.mem_cons_self
        · exact List.mem_cons_of_mem _ (ih [] (fun _ h => by cases h) hmem)

/-! ### The patterns that decide -/

/-- The patterns that decide, in lower case. -/
def plainPatterns : List (List Char) :=
  NEVER_AUTO_APPROVE_PATTERNS.map (·.map Char.toLower) ++ LOW_RISK_PATTERNS

theorem decidingPatterns_eq : decidingPatterns L = plainPatterns := by
  have hascii : ∀ p ∈ NEVER_AUTO_APPROVE_PATTERNS, p.all (·.toNat < 128) = true := by decide +kernel
  refine congrArg (· ++ LOW_RISK_PATTERNS) (List.map_congr_left fun p hp => ?_)
  refine L.ascii p fun c hc => ?_
  simpa using List.all_eq_true.mp (hascii p hp) c hc

/-- A pattern of several words. -/
structure Phrase (p : List Char) : Prop where
  first : ∃ word rest, p = word ++ ' ' :: rest ∧ IsWord word ∧ word ∉ plainPatterns
  last : ∀ c ∈ p.getLast?, isWhitespace c = false
  line : '\n' ∉ p

/-- No pattern of one word begins a pattern of several. -/
theorem phrase_of_mem {p : List Char} (hp : p ∈ plainPatterns) (hblank : ' ' ∈ p) : Phrase p := by
  have hcheck : ∀ p ∈ plainPatterns, ' ' ∈ p → p.takeWhile (· ≠ ' ') ≠ [] ∧
      (p.takeWhile (· ≠ ' ')).all (!isWhitespace ·) = true ∧
        p.takeWhile (· ≠ ' ') ∉ plainPatterns ∧
          p.getLast?.all (!isWhitespace ·) = true ∧ '\n' ∉ p := by decide +kernel
  obtain ⟨hne, hword, hnot, hlast, hline⟩ := hcheck p hp hblank
  refine ⟨⟨p.takeWhile (· ≠ ' '), (p.dropWhile (· ≠ ' ')).tail, ?_, ⟨hne, fun c hc => ?_⟩, hnot⟩,
    fun c hc => ?_, hline⟩
  · have hcons : p.dropWhile (· ≠ ' ') = ' ' :: (p.dropWhile (· ≠ ' ')).tail := by
      cases hdrop : p.dropWhile (· ≠ ' ') with
      | nil => simpa using List.dropWhile_eq_nil_iff.mp hdrop ' ' hblank
      | cons c rest =>
        have hnot := List.head?_dropWhile_not (· ≠ ' ') p
        rw [hdrop] at hnot
        have hc : c = ' ' := by simpa using hnot
        rw [hc, List.tail_cons]
    rw [← hcons, List.takeWhile_append_dropWhile]
  · simpa using List.all_eq_true.mp hword c hc
  · rw [Option.mem_def.mp hc] at hlast
    simpa using hlast

theorem NoPhrase.of_blank_notMem {text : List Char} (h : ' ' ∉ text) : NoPhrase L text := by
  intro p hp hblank
  rw [matchesCommandPattern, if_pos hblank]
  have hnot : ' ' ∉ L.lower (trim text) := fun hmem => by
    obtain ⟨front, back, htext, -⟩ := Text.exists_trim text
    exact h (htext ▸ List.mem_append_left _
      (List.mem_append_right _ (mem_of_mem_lower (by decide) hmem)))
  refine Bool.or_eq_false_iff.mpr ⟨beq_eq_false_iff_ne.mpr fun heq => hnot (heq ▸ hblank), ?_⟩
  rw [Bool.eq_false_iff]
  intro hstarts
  exact hnot ((List.isPrefixOf_iff_prefix.mp hstarts).subset (by simp))

/-- A text of two lines, trimmed. -/
theorem trim_newline (front back : List Char) :
    trim (front ++ '\n' :: back) = trim front ∨ trim (front ++ '\n' :: back) = trim back ∨
      ∃ between rest, (∀ c ∈ between, isWhitespace c = true) ∧
        trim (front ++ '\n' :: back) = trim front ++ between ++ '\n' :: rest := by
  obtain ⟨f, b, hfront, hf, hb, hfhead, hflast⟩ := Text.exists_trim front
  obtain ⟨f', b', hback, hf', hb', hbhead, hblast⟩ := Text.exists_trim back
  have hnewline : isWhitespace '\n' = true := by decide
  obtain hfnil | hfne := eq_or_ne (trim front) []
  · refine .inr (.inl ?_)
    have hsplit : front ++ '\n' :: back = (f ++ b ++ '\n' :: f') ++ trim back ++ b' := by
      conv_lhs => rw [hfront, hback, hfnil]
      simp
    have hspace : ∀ c ∈ f ++ b ++ '\n' :: f', isWhitespace c = true :=
      List.forall_mem_append.mpr ⟨List.forall_mem_append.mpr ⟨hf, hb⟩,
        List.forall_mem_cons.mpr ⟨hnewline, hf'⟩⟩
    rw [hsplit, Text.trim_append hspace hb' hbhead hblast]
  · obtain hbnil | hbne := eq_or_ne (trim back) []
    · refine .inl ?_
      have hsplit : front ++ '\n' :: back = f ++ trim front ++ (b ++ '\n' :: (f' ++ b')) := by
        conv_lhs => rw [hfront, hback, hbnil]
        simp
      have hspace : ∀ c ∈ b ++ '\n' :: (f' ++ b'), isWhitespace c = true :=
        List.forall_mem_append.mpr ⟨hb, List.forall_mem_cons.mpr
          ⟨hnewline, List.forall_mem_append.mpr ⟨hf', hb'⟩⟩⟩
      rw [hsplit, Text.trim_append hf hspace hfhead hflast]
    · refine .inr (.inr ⟨b, f' ++ trim back, hb, ?_⟩)
      have hsplit : front ++ '\n' :: back =
          f ++ (trim front ++ b ++ '\n' :: (f' ++ trim back)) ++ b' := by
        conv_lhs => rw [hfront, hback]
        simp
      rw [hsplit]
      refine Text.trim_append hf hb' (fun c hc => hfhead c ?_) fun c hc => hblast c ?_
      · obtain ⟨d, rest, htrim⟩ := List.exists_cons_of_ne_nil hfne
        rw [htrim] at hc ⊢
        exact hc
      · obtain hnil | ⟨rest, d, htrim⟩ := (trim back).eq_nil_or_concat
        · exact absurd hnil hbne
        rw [List.concat_eq_append] at htrim
        rw [htrim, List.getLast?_concat] at ⊢
        rwa [htrim, ← List.append_assoc, ← List.cons_append, ← List.append_assoc,
          List.getLast?_concat] at hc

theorem lower_append_blank (text : List Char) {back : List Char}
    (h : ∀ c ∈ back, isWhitespace c = true) : L.lower (text ++ back) = L.lower text ++ back := by
  cases back with
  | nil => simp
  | cons c back =>
    obtain ⟨hc, hback⟩ := List.forall_mem_cons.mp h
    have hlower := lower_blank_append (L := L) hback []
    rw [List.append_nil, lower_nil, List.append_nil] at hlower
    rw [L.whitespace _ _ _ hc, hlower]

/-- A front without a character stands before the character. -/
theorem prefix_of_notMem {c : Char} {p front back : List Char} (hp : c ∉ p)
    (h : p <+: front ++ c :: back) : p <+: front := by
  obtain ⟨rest, heq⟩ := h
  obtain ⟨m, rfl, -⟩ | ⟨m, hpm, hm⟩ := List.append_eq_append_iff.mp heq
  · exact List.prefix_append p m
  · cases m with
    | nil => exact ⟨[], by simpa using hpm⟩
    | cons d m =>
      obtain rfl : c = d := (List.cons_eq_cons.mp hm).1
      exact absurd (hpm ▸ List.mem_append_right _ List.mem_cons_self) hp

/-- A pattern of several words that begins a text begins its first line that is not blank. -/
theorem NoPhrase.newline {front back : List Char} (hfront : NoPhrase L front)
    (hback : NoPhrase L back) : NoPhrase L (front ++ '\n' :: back) := by
  intro p hp hblank
  obtain htrim | htrim | ⟨between, rest, hbetween, htrim⟩ := trim_newline front back
  · rw [htrim]
    exact hfront p hp hblank
  · rw [htrim]
    exact hback p hp hblank
  have hphrase := phrase_of_mem (decidingPatterns_eq (L := L) ▸ hp) hblank
  have hno := hfront p hp hblank
  rw [matchesCommandPattern, if_pos hblank, Bool.or_eq_false_iff, beq_eq_false_iff_ne] at hno ⊢
  rw [htrim, L.whitespace _ _ _ (by decide), lower_append_blank _ hbetween]
  refine ⟨?_, ?_⟩
  · rintro rfl
    exact hphrase.line (by simp)
  · rw [Bool.eq_false_iff]
    intro hstarts
    have hfirst : p ++ [' '] <+: L.lower (trim front) ++ between :=
      prefix_of_notMem (by simpa using hphrase.line) (List.isPrefixOf_iff_prefix.mp hstarts)
    have hnot : ¬ p ++ [' '] <+: L.lower (trim front) := fun h => by
      rw [List.isPrefixOf_iff_prefix.mpr h] at hno
      cases hno.2
    obtain ⟨t, ht⟩ := hfirst
    obtain ⟨m, hm, -⟩ | ⟨m, hm, hbm⟩ := List.append_eq_append_iff.mp ht
    · exact hnot ⟨m, hm.symm⟩
    · obtain rfl | ⟨m, d, rfl⟩ := m.eq_nil_or_concat
      · exact hnot ⟨[], by simpa using hm⟩
      · -- The pattern ends where the trimmed line does, since it does not end with white space.
        have hpm : p = L.lower (trim front) ++ m := by
          rw [List.concat_eq_append, ← List.append_assoc] at hm
          exact List.append_inj_left' hm rfl
        obtain rfl | ⟨m, e, rfl⟩ := m.eq_nil_or_concat
        · exact hno.1 (by simpa using hpm.symm)
        · have hspace := hbetween e (by simp [hbm])
          have hlast : p.getLast? = some e := by
            rw [hpm, List.concat_eq_append, ← List.append_assoc, List.getLast?_concat]
          rw [hphrase.last e hlast] at hspace
          cases hspace

/-! ### The rank of a piece -/

/-- Without a pattern of several words the first word decides. -/
theorem any_matches {text word : List Char} (h : NoPhrase L text)
    (hword : (splitWhitespace text).head? = some word) {ps : List (List Char)}
    (hps : ∀ p ∈ ps, p ∈ decidingPatterns L) :
    ps.any (matchesCommandPattern (L.lower (trim text))) = decide (L.lower word ∈ ps) := by
  have hfirst : (splitWhitespace (L.lower (trim text))).head? = some (L.lower word) := by
    rw [splitWhitespace_lower, splitWhitespace_trim, hword, Option.map_some]
  have hisWord : IsWord (L.lower word) := Text.isWord_of_mem (List.mem_of_mem_head? hfirst)
  rw [Bool.eq_iff_iff, List.any_eq_true, decide_eq_true_iff]
  constructor
  · rintro ⟨p, hp, hmatches⟩
    cases hblank : decide (' ' ∈ p) with
    | true => rw [h p (hps p hp) (by simpa using hblank)] at hmatches; cases hmatches
    | false =>
      rw [matchesCommandPattern, if_neg (by simpa using hblank), hfirst] at hmatches
      obtain rfl : L.lower word = p := by simpa using hmatches
      exact hp
  · intro hmem
    have hblank : ' ' ∉ L.lower word := fun hblank => by cases hisWord.2 _ hblank
    exact ⟨_, hmem, by simp [matchesCommandPattern, if_neg hblank, hfirst]⟩

theorem segmentRisk_of_noPhrase {text : List Char} (h : NoPhrase L text)
    (hne : splitWhitespace text ≠ []) : segmentRisk L (trim text) = wordRisk L text := by
  obtain ⟨word, words, hwords⟩ := List.exists_cons_of_ne_nil hne
  have hword : (splitWhitespace text).head? = some word := by rw [hwords, List.head?_cons]
  have hnever :
      (NEVER_AUTO_APPROVE_PATTERNS.map L.lower).any (matchesCommandPattern (L.lower (trim text))) =
        decide (L.lower word ∈ NEVER_AUTO_APPROVE_PATTERNS.map L.lower) :=
    any_matches h hword fun p hp => List.mem_append_left _ hp
  have hlow : LOW_RISK_PATTERNS.any (matchesCommandPattern (L.lower (trim text))) =
      decide (L.lower word ∈ LOW_RISK_PATTERNS) :=
    any_matches h hword fun p hp => List.mem_append_right _ hp
  rw [List.any_map] at hnever
  rw [wordRisk, hword]
  simp only [segmentRisk, Function.comp_def] at hnever ⊢
  rw [hnever, hlow]
  simp

theorem trim_eq_nil_iff (text : List Char) : trim text = [] ↔ splitWhitespace text = [] := by
  constructor
  · intro h
    rw [← splitWhitespace_trim, h]
    rfl
  · intro h
    obtain ⟨-, -, -, -, -, hhead, -⟩ := Text.exists_trim text
    rw [← splitWhitespace_trim] at h
    obtain hblank | ⟨front, word, back, htext, hfront, hword, hback⟩ :=
      exists_first_word (trim text)
    · cases htrim : trim text with
      | nil => rfl
      | cons c rest =>
        rw [htrim] at hhead hblank
        have hc := hhead c rfl
        rw [hblank c List.mem_cons_self] at hc
        cases hc
    · have hfirst := splitWhitespace_first hfront hword hback
      rw [← htext, h] at hfirst
      cases hfirst

/-- Pieces are ranked by their first words. -/
theorem segmentsRisk_of_noPhrase {segments : List (List Char)}
    (h : ∀ segment ∈ segments, NoPhrase L segment) :
    segmentsRisk L segments =
      ((segments.filter (splitWhitespace · ≠ [])).map (wordRisk L)).max?.getD .medium := by
  have hkept : (segments.map trim).filter (· ≠ []) =
      (segments.filter (splitWhitespace · ≠ [])).map trim := by
    rw [List.filter_map]
    refine congrArg _ (List.filter_congr fun segment _ => ?_)
    simp [trim_eq_nil_iff]
  rw [segmentsRisk, hkept, List.map_map]
  refine congrArg (fun ranks : List RiskLevel => ranks.max?.getD RiskLevel.medium)
    (List.map_congr_left fun segment hs => ?_)
  obtain ⟨hmem, hne⟩ := List.mem_filter.mp hs
  exact segmentRisk_of_noPhrase (h segment hmem) (by simpa using hne)

theorem classifyCommandRisk_of_noPhrase {text : List Char} (h : NoPhrase L text)
    (hplain : ∀ c ∈ text, isCut c = false) : classifyCommandRisk L text = wordRisk L text := by
  rw [classifyCommandRisk, List.splitOnP_eq_singleton hplain,
    segmentsRisk_of_noPhrase (List.forall_mem_singleton.mpr h)]
  by_cases hne : splitWhitespace text = []
  · simp [hne, wordRisk]
  · simp [hne]

/-! ### The stretches -/

namespace CommandList

/-- What is ranked of some pieces. -/
def kept (pieces : List (List Char)) : List (List Char) := (pieces.map trim).filter (· ≠ [])

theorem kept_cut {stretch : List Char} (h : ∀ c ∈ stretch, isCut c = false) {c : Char}
    (hc : isCut c = true) (text : List Char) :
    kept ((stretch ++ c :: text).splitOnP isCut) = kept (stretch :: text.splitOnP isCut) := by
  rw [List.splitOnP_append_cons _ _ hc, List.splitOnP_eq_singleton h, List.singleton_append]

/-- The pieces that are ranked are the stretches, up to empty ones. -/
theorem kept_pieces (rest : List (Separator × SimpleCommand)) {stretch : List Char}
    (h : ∀ c ∈ stretch, isCut c = false) :
    kept ((stretch ++ tailText rest).splitOnP isCut) = kept (stretchesFrom stretch rest) := by
  induction rest generalizing stretch with
  | nil => rw [tailText, List.flatMap_nil, List.append_nil, List.splitOnP_eq_singleton h]; rfl
  | cons next rest ih =>
    obtain ⟨separator, command⟩ := next
    have hcommand : ∀ c ∈ command.text, isCut c = false := fun c hc => (command.plain c hc).1
    have hkept (pieces pieces' : List (List Char)) (heq : kept pieces = kept pieces') :
        kept (stretch :: pieces) = kept (stretch :: pieces') := by
      simp only [kept, List.map_cons, List.filter_cons] at heq ⊢
      rw [heq]
    have hone {c : Char} (hc : isCut c = true) :
        kept ((stretch ++ c :: (command.text ++ tailText rest)).splitOnP isCut) =
          kept (stretch :: stretchesFrom command.text rest) := by
      rw [kept_cut h hc]
      exact hkept _ _ (ih hcommand)
    have htwo {c : Char} (hc : isCut c = true) :
        kept ((stretch ++ c :: c :: (command.text ++ tailText rest)).splitOnP isCut) =
          kept (stretch :: stretchesFrom command.text rest) := by
      rw [kept_cut h hc]
      refine hkept _ _ ?_
      rw [← List.nil_append (c :: _), kept_cut (List.forall_mem_nil _) hc]
      exact ih hcommand
    rw [tailText, List.flatMap_cons, ← tailText]
    cases separator with
    | pipe => exact hone rfl
    | or => exact htwo rfl
    | background => exact hone rfl
    | and => exact htwo rfl
    | semicolon => exact hone rfl
    | newline =>
      have hmove : stretch ++ (Separator.newline.text ++ command.text ++ tailText rest) =
          stretch ++ '\n' :: command.text ++ tailText rest := by simp [Separator.text]
      rw [hmove]
      exact ih (List.forall_mem_append.mpr ⟨h, List.forall_mem_cons.mpr ⟨rfl, hcommand⟩⟩)

theorem classifyCommandRisk_text (list : CommandList) :
    classifyCommandRisk L list.text = segmentsRisk L list.stretches := by
  have hpieces := kept_pieces list.rest fun c hc => (list.first.plain c hc).1
  simp only [kept] at hpieces
  rw [classifyCommandRisk, segmentsRisk, text, hpieces]
  rfl

theorem noPhrase_stretches {stretch : List Char} (h : NoPhrase L stretch)
    {rest : List (Separator × SimpleCommand)} (hrest : ∀ next ∈ rest, NoPhrase L next.2.text) :
    ∀ s ∈ stretchesFrom stretch rest, NoPhrase L s := by
  induction rest generalizing stretch with
  | nil => exact List.forall_mem_singleton.mpr h
  | cons next rest ih =>
    obtain ⟨separator, command⟩ := next
    obtain ⟨hcommand, hothers⟩ := List.forall_mem_cons.mp hrest
    cases separator with
    | newline => exact ih (h.newline hcommand) hothers
    | pipe | or | background | and | semicolon =>
      exact List.forall_mem_cons.mpr ⟨h, ih hcommand hothers⟩

/-- Where the stretches have no words, the commands have none. -/
theorem blank_of_stretches {stretch : List Char} {rest : List (Separator × SimpleCommand)}
    (h : ∀ s ∈ stretchesFrom stretch rest, splitWhitespace s = []) :
    splitWhitespace stretch = [] ∧ ∀ next ∈ rest, splitWhitespace next.2.text = [] := by
  induction rest generalizing stretch with
  | nil => exact ⟨h stretch List.mem_cons_self, fun _ h => by cases h⟩
  | cons next rest ih =>
    obtain ⟨separator, command⟩ := next
    cases separator with
    | newline =>
      obtain ⟨hstretch, hrest⟩ := ih h
      rw [Text.splitWhitespace_append_cons _ _ (by decide), List.append_eq_nil_iff] at hstretch
      exact ⟨hstretch.1, List.forall_mem_cons.mpr ⟨hstretch.2, hrest⟩⟩
    | pipe | or | background | and | semicolon =>
      obtain ⟨hstretch, hstretches⟩ := List.forall_mem_cons.mp h
      obtain ⟨hcommand, hrest⟩ := ih hstretches
      exact ⟨hstretch, List.forall_mem_cons.mpr ⟨hcommand, hrest⟩⟩

end CommandList

/-! ### The rank of a command line -/

theorem le_max_iff {ranks : List RiskLevel} {risk : RiskLevel} :
    risk ≤ ranks.max?.getD .medium ↔ (ranks = [] ∧ risk ≤ .medium) ∨ ∃ r ∈ ranks, risk ≤ r := by
  cases hmax : ranks.max? with
  | none => simp [List.max?_eq_none_iff.mp hmax]
  | some top =>
    obtain ⟨htop, hle⟩ := List.max?_eq_some_iff.mp hmax
    constructor
    · exact fun h => .inr ⟨top, htop, h⟩
    · rintro (⟨rfl, -⟩ | ⟨r, hr, h⟩)
      · cases htop
      · exact h.trans (hle r hr)

theorem Respaced.isCut {text text' : List Char} (h : Respaced text text')
    (hplain : ∀ c ∈ text, isCut c = false) : ∀ c ∈ text', isCut c = false := by
  have hblank {c : Char} (hc : isBlank c = true) : ShellTool.isCut c = false := by
    obtain rfl | rfl : c = ' ' ∨ c = '\t' := by simpa [isBlank] using hc
    · rfl
    · rfl
  induction h with
  | nil => exact hplain
  | char _ _ ih =>
    obtain ⟨hc, htext⟩ := List.forall_mem_cons.mp hplain
    exact List.forall_mem_cons.mpr ⟨hc, ih htext⟩
  | run _ hrun' _ ih =>
    obtain ⟨-, htext⟩ := List.forall_mem_append.mp hplain
    exact List.forall_mem_append.mpr ⟨fun c hc => hblank (hrun'.2 c hc), ih htext⟩

theorem wordRisk_congr {text text' : List Char}
    (h : splitWhitespace text = splitWhitespace text') : wordRisk L text = wordRisk L text' := by
  rw [wordRisk, wordRisk, h]

/-- A text that begins with a pattern of several words is not ranked by its first word. -/
theorem segmentRisk_ne_wordRisk {text p : List Char} (hp : p ∈ decidingPatterns L)
    (hblank : ' ' ∈ p) (h : matchesCommandPattern (L.lower (trim text)) p = true) :
    segmentRisk L (trim text) ≠ wordRisk L text ∧ splitWhitespace text ≠ [] := by
  obtain ⟨⟨word, rest, rfl, hword, hnot⟩, -, -⟩ :=
    phrase_of_mem (decidingPatterns_eq (L := L) ▸ hp) hblank
  rw [matchesCommandPattern, if_pos hblank] at h
  have hfirst : (splitWhitespace (L.lower (trim text))).head? = some word := by
    have hback : ∃ back, L.lower (trim text) = [] ++ word ++ ' ' :: back := by
      obtain heq | hstarts := Bool.or_eq_true_iff.mp h
      · exact ⟨rest, by simpa using heq⟩
      · obtain ⟨back, heq⟩ := List.isPrefixOf_iff_prefix.mp hstarts
        exact ⟨rest ++ ' ' :: back, by simp [← heq]⟩
    obtain ⟨back, heq⟩ := hback
    rw [heq]
    exact splitWhitespace_first (fun _ h => by cases h) hword fun c hc => by
      obtain rfl : ' ' = c := by simpa using hc
      decide
  rw [splitWhitespace_lower, splitWhitespace_trim] at hfirst
  obtain ⟨first, hhead, hlower⟩ := Option.map_eq_some_iff.mp hfirst
  have hmedium : wordRisk L text = .medium := by
    rw [← decidingPatterns_eq (L := L), decidingPatterns, List.mem_append, not_or] at hnot
    rw [wordRisk, hhead]
    simp only [hlower, if_neg hnot.1, if_neg hnot.2]
  have hmatches : matchesCommandPattern (L.lower (trim text)) (word ++ ' ' :: rest) = true := by
    rw [matchesCommandPattern, if_pos hblank]
    exact h
  refine ⟨?_, fun hnil => by simp [hnil] at hhead⟩
  rw [hmedium, segmentRisk]
  obtain hnever | hlow := List.mem_append.mp hp
  · obtain ⟨q, hq, heq⟩ := List.mem_map.mp hnever
    have hany : NEVER_AUTO_APPROVE_PATTERNS.any
        (fun p => matchesCommandPattern (L.lower (trim text)) (L.lower p)) = true :=
      List.any_eq_true.mpr ⟨q, hq, by rw [heq, hmatches]⟩
    simp [hany]
  · have hany : LOW_RISK_PATTERNS.any (matchesCommandPattern (L.lower (trim text))) = true :=
      List.any_eq_true.mpr ⟨_, hlow, hmatches⟩
    simp only [hany, if_true]
    split <;> simp

theorem classifyCommandRisk_of_words {text : List Char} (hne : splitWhitespace text ≠ [])
    (hplain : ∀ c ∈ text, isCut c = false) :
    classifyCommandRisk L text = segmentRisk L (trim text) := by
  have htrim : trim text ≠ [] := fun h => hne ((trim_eq_nil_iff text).mp h)
  simp [classifyCommandRisk, List.splitOnP_eq_singleton hplain, segmentsRisk, htrim]

/-- The ranks of a command line are sound exactly when first words decide, and newlines hide none
of a higher rank. -/
theorem shellRisk_iff (L : ToLowercase) (list : CommandList) :
    RiskSound L list ↔ RiskCondition L list := by
  have hplain (command : SimpleCommand) : ∀ c ∈ command.text, isCut c = false :=
    fun c hc => (command.plain c hc).1
  have hranks (hphrase : ∀ command ∈ list.commands, NoPhrase L command.text) :
      classifyCommandRisk L list.text = ((list.stretches.filter (splitWhitespace · ≠ [])).map
        (wordRisk L)).max?.getD .medium := by
    obtain ⟨hfirst, hrest⟩ := List.forall_mem_cons.mp hphrase
    rw [CommandList.classifyCommandRisk_text]
    exact segmentsRisk_of_noPhrase (CommandList.noPhrase_stretches hfirst fun next hnext =>
      hrest _ (List.mem_map_of_mem hnext))
  constructor
  · intro h
    have hphrase : ∀ command ∈ list.commands, ∀ text, Respaced command.text text →
        NoPhrase L text := by
      intro command hcommand text hrespaced p hp hblank
      rw [Bool.eq_false_iff]
      intro hmatches
      -- With tabs the pattern is missed, and the first word decides.
      have htabbed := hrespaced.tabbed
      obtain ⟨hne, hwords⟩ := segmentRisk_ne_wordRisk hp hblank hmatches
      refine hne ?_
      rw [← classifyCommandRisk_of_words hwords (hrespaced.isCut (hplain command)),
        h.spacing command hcommand text hrespaced, ← h.spacing command hcommand _ htabbed,
        classifyCommandRisk_of_noPhrase (.of_blank_notMem (blank_notMem_tabbed text))
          (htabbed.isCut (hplain command))]
      exact wordRisk_congr (htabbed.splitWhitespace.symm.trans hrespaced.splitWhitespace)
    have hown : ∀ command ∈ list.commands, NoPhrase L command.text :=
      fun command hcommand => hphrase command hcommand _ (.refl _)
    refine ⟨hphrase, or_iff_not_imp_left.mpr fun hsome command hcommand => ?_⟩
    have hle := h.max command hcommand
    rw [classifyCommandRisk_of_noPhrase (hown command hcommand) (hplain command), hranks hown,
      le_max_iff] at hle
    obtain ⟨hnil, -⟩ | ⟨risk, hrisk, hle⟩ := hle
    · refine absurd (fun stretch hstretch => ?_) hsome
      have hnot := List.filter_eq_nil_iff.mp (List.map_eq_nil_iff.mp hnil) stretch hstretch
      simpa using hnot
    · obtain ⟨stretch, hstretch, rfl⟩ := List.mem_map.mp hrisk
      obtain ⟨hmem, hne⟩ := List.mem_filter.mp hstretch
      exact ⟨stretch, hmem, by simpa using hne, hle⟩
  · intro h
    have hown : ∀ command ∈ list.commands, NoPhrase L command.text :=
      fun command hcommand => h.phrase command hcommand _ (.refl _)
    refine ⟨fun command hcommand => ?_, fun command hcommand text hrespaced => ?_⟩
    · rw [classifyCommandRisk_of_noPhrase (hown command hcommand) (hplain command), hranks hown,
        le_max_iff]
      obtain hblank | hword := h.word
      · obtain ⟨hfirst, hrest⟩ := CommandList.blank_of_stretches hblank
        have hnone : splitWhitespace command.text = [] := by
          obtain rfl | hmem := List.mem_cons.mp hcommand
          · exact hfirst
          · obtain ⟨next, hnext, rfl⟩ := List.mem_map.mp hmem
            exact hrest next hnext
        refine .inl ⟨?_, ?_⟩
        · rw [List.map_eq_nil_iff, List.filter_eq_nil_iff]
          exact fun stretch hstretch => by simp [hblank stretch hstretch]
        · rw [wordRisk, hnone]
          exact le_refl _
      · obtain ⟨stretch, hmem, hne, hle⟩ := hword command hcommand
        exact .inr ⟨_, List.mem_map_of_mem (List.mem_filter.mpr ⟨hmem, by simpa using hne⟩), hle⟩
    · rw [classifyCommandRisk_of_noPhrase (h.phrase command hcommand text hrespaced)
          (hrespaced.isCut (hplain command)),
        classifyCommandRisk_of_noPhrase (hown command hcommand) (hplain command)]
      exact wordRisk_congr hrespaced.splitWhitespace.symm

/-- Lower case of ASCII letters alone. -/
def asciiLowercase : ToLowercase where
  lower text := text.map Char.toLower
  ascii _ _ := rfl
  whitespace front c back hc := by
    rw [List.map_append, List.map_cons, Text.toLower_of_isWhitespace hc]
  word text h := by
    refine ⟨by simpa using h.1, fun c hc => ?_⟩
    obtain ⟨d, hd, rfl⟩ := List.mem_map.mp hc
    rw [Text.isWhitespace_toLower, h.2 d hd]

theorem plain_of_all {text : List Char} (h : (text.all fun c => !isCut c && c != '\n') = true) :
    ∀ c ∈ text, isCut c = false ∧ c ≠ '\n' :=
  fun c hc => by simpa using List.all_eq_true.mp h c hc

/-- A listing, and a deletion on the next line. -/
def hiddenDeletion : CommandList where
  first := ⟨['l', 's'], plain_of_all (by decide), 'l', List.mem_cons_self, rfl⟩
  rest := [(.newline, ⟨['r', 'm', ' ', '-', 'r', 'f', ' ', '/'], plain_of_all (by decide), 'r',
    List.mem_cons_self, rfl⟩)]

theorem deletion_hidden : ¬ RiskSound asciiLowercase hiddenDeletion := by
  intro h
  have hle := h.max ⟨['r', 'm', ' ', '-', 'r', 'f', ' ', '/'], plain_of_all (by decide), 'r',
    List.mem_cons_self, rfl⟩ (List.mem_cons_of_mem _ List.mem_cons_self)
  revert hle
  decide +kernel

end T3Claw.ShellTool
