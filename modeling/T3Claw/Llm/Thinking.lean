import T3Claw.Llm.Cleaning

/-!
# Reasoning in front of an answer

What `clean_response` leaves of reasoning blocks and the answer behind them. Tags in code regions
are ignored, and the regions are those of the whole text: a backtick or a fence in the reasoning can
take a closing tag with it. `reasoningRemoved_iff` says which tags have to be outside code.
-/

namespace T3Claw.Llm

open Matches (Match Pattern Free findIter isMatch)
open Text (isWhitespace trim)

/-! ### Reasoning blocks -/

/-- A block of reasoning: an opening tag, text without thinking or final tags, and a closing tag,
whose name the code does not compare. -/
structure ReasoningBlock (word : Char → Bool) where
  open_tag : List Char
  reasoning : List Char
  close_tag : List Char
  opens : IsTag word THINKING_NAMES false open_tag
  closes : IsTag word THINKING_NAMES true close_tag
  no_thinking : isMatch (THINKING_TAG_RE word) reasoning = false
  no_final : isMatch (FINAL_TAG_RE word) reasoning = false

section

variable {word : Char → Bool}

/-- The text of a block. -/
def ReasoningBlock.text (b : ReasoningBlock word) : List Char :=
  b.open_tag ++ (b.reasoning ++ b.close_tag)

/-- The text of blocks, one behind the other. -/
def blocksText (blocks : List (ReasoningBlock word)) : List Char :=
  blocks.flatMap ReasoningBlock.text

@[simp] theorem blocksText_nil : blocksText ([] : List (ReasoningBlock word)) = [] := rfl

@[simp] theorem blocksText_cons (b : ReasoningBlock word) (blocks : List (ReasoningBlock word)) :
    blocksText (b :: blocks) = b.text ++ blocksText blocks := rfl

/-- The position of the closing tag of a block. -/
def ReasoningBlock.closePosition (b : ReasoningBlock word) (pos : ℕ) : ℕ :=
  pos + b.open_tag.length + b.reasoning.length

theorem ReasoningBlock.closePosition_add (b : ReasoningBlock word) (pos : ℕ) :
    b.closePosition pos + b.close_tag.length = pos + b.text.length := by
  rw [closePosition, text, List.length_append, List.length_append]
  omega

/-- The position is outside the code regions of the text. -/
def Visible (text : List Char) (pos : ℕ) : Prop := isInsideCode pos (findCodeRegions text) = false

/-- Nothing but white space. -/
def Blank (text : List Char) : Prop := ∀ c ∈ text, isWhitespace c = true

/-- The tags from `pos` on that have to be outside code: behind a closing tag that is, the next
opening tag, and the last closing tag, unless the answer is blank. -/
def TagsVisible (text answer : List Char) : ℕ → List (ReasoningBlock word) → Prop
  | _, [] => True
  | pos, [b] => Visible text (b.closePosition pos) ∨ Blank answer
  | pos, b :: next :: blocks =>
    (Visible text (b.closePosition pos) → Visible text (pos + b.text.length)) ∧
      TagsVisible text answer (pos + b.text.length) (next :: blocks)

/-- The answer is left, or white space of white space. -/
def Leaves (answer left : List Char) : Prop := left = answer ∨ Blank left ∧ Blank answer

/-- What cleaning reasoning and an answer is for: the response is that of the answer, and of all
characters the thinking tags have left those of the answer. -/
structure ReasoningRemoved (blocks : List (ReasoningBlock word)) (answer : List Char) : Prop where
  cleaned : cleanResponse word (blocksText blocks ++ answer) = cleanResponse word answer
  kept : Leaves answer (stripThinkingTagsRegex word (blocksText blocks ++ answer)
    (findCodeRegions (blocksText blocks ++ answer)))

/-! ### The matches in blocks -/

/-- What is behind a text in which a tag begins: nothing, or another `<`. -/
def EndsTags (rest : List Char) : Prop := rest = [] ∨ ∃ more, rest = '<' :: more

/-- The matches of a text that has none, in front of another tag. -/
theorem matchAt_free_append {names : List (List Char)} {piece rest : List Char}
    (h : isMatch (tagPattern word names) piece = false) (hrest : EndsTags rest) :
    ∀ back, back ≠ [] → back <:+ piece → (tagPattern word names).matchAt (back ++ rest) = none := by
  intro back hne hback
  exact (tagAt_append_of_lt word names hne hrest).trans
    (Matches.isMatch_eq_false.mp h back hne hback)

theorem IsTag.endsTags {names : List (List Char)} {is_close : Bool} {tag : List Char}
    (h : IsTag word names is_close tag) (rest : List Char) : EndsTags (tag ++ rest) := by
  obtain ⟨cs, rfl⟩ := h.head_eq
  exact .inr ⟨_, rfl⟩

/-- The matches of thinking tags in a block. -/
theorem findIter_block (b : ReasoningBlock word) (pos : ℕ) (rest : List Char) :
    findIter (THINKING_TAG_RE word) pos (b.text ++ rest) =
      ⟨pos, pos + b.open_tag.length, false⟩ ::
        ⟨b.closePosition pos, pos + b.text.length, true⟩ ::
          findIter (THINKING_TAG_RE word) (pos + b.text.length) rest := by
  have htext : b.text ++ rest = b.open_tag ++ (b.reasoning ++ (b.close_tag ++ rest)) := by
    rw [ReasoningBlock.text]
    simp only [List.append_assoc]
  have hopen : (THINKING_TAG_RE word).matchAt
      (b.open_tag ++ (b.reasoning ++ (b.close_tag ++ rest))) =
        some (false, b.open_tag.length) := tagAt_append_of_some word b.opens.tagAt_eq _
  have hclose : (THINKING_TAG_RE word).matchAt (b.close_tag ++ rest) =
      some (true, b.close_tag.length) := tagAt_append_of_some word b.closes.tagAt_eq _
  have hfree : ∀ back, back ≠ [] → back <:+ b.reasoning →
      (THINKING_TAG_RE word).matchAt (back ++ (b.close_tag ++ rest)) = none :=
    matchAt_free_append b.no_thinking (b.closes.endsTags rest)
  rw [htext, Matches.findIter_match_append b.opens.ne_nil hopen,
    Matches.findIter_free_append hfree, Matches.findIter_match_append b.closes.ne_nil hclose,
    ← b.closePosition_add pos]
  rfl

/-- No final tag begins in a thinking tag. -/
theorem free_final_tag {is_close : Bool} {tag rest : List Char}
    (h : IsTag word THINKING_NAMES is_close tag) (hrest : Free (FINAL_TAG_RE word) rest) :
    Free (FINAL_TAG_RE word) (tag ++ rest) := by
  refine Matches.Free.append (fun back hne hback => ?_) hrest
  by_cases hproper : back = tag
  · rw [hproper]
    exact h.tagAt_final rest
  · exact h.tagAt_suffix hne hback hproper rest

/-- No final tag begins in a block. -/
theorem free_final_block (b : ReasoningBlock word) {rest : List Char}
    (hrest : Free (FINAL_TAG_RE word) rest) : Free (FINAL_TAG_RE word) (b.text ++ rest) := by
  have hclose := free_final_tag b.closes hrest
  have hreasoning : Free (FINAL_TAG_RE word) (b.reasoning ++ (b.close_tag ++ rest)) :=
    Matches.Free.append (matchAt_free_append b.no_final (b.closes.endsTags rest)) hclose
  have hopen := free_final_tag b.opens hreasoning
  rwa [ReasoningBlock.text, List.append_assoc, List.append_assoc]

/-- There is no final tag in blocks and an answer without one. -/
theorem free_final {blocks : List (ReasoningBlock word)} {answer : List Char}
    (h : isMatch (FINAL_TAG_RE word) answer = false) :
    Free (FINAL_TAG_RE word) (blocksText blocks ++ answer) := by
  induction blocks with
  | nil => exact Matches.isMatch_eq_false.mp h
  | cons b blocks ih =>
    rw [blocksText_cons, List.append_assoc]
    exact free_final_block b ih

/-! ### The loop over the tags of blocks -/

/-- What is left behind the loop, when there is no final answer in the reasoning. -/
def StripState.finish (s : StripState) (text : List Char) : List Char :=
  if !s.in_tag then s.result ++ text.drop s.last_index else s.result

variable {text answer : List Char}

theorem result_prefix_stripTag (s : StripState) (m : Match Bool) :
    s.result <+: (stripTag text s m).result := by
  rw [stripTag]
  split_ifs
  · exact List.prefix_append _ _
  · exact List.prefix_rfl
  · exact List.prefix_rfl

/-- What is pushed stays. -/
theorem result_prefix_finish (s : StripState) (found : List (Match Bool)) :
    s.result <+: (found.foldl (stripTag text) s).finish text := by
  induction found generalizing s with
  | nil =>
    rw [List.foldl_nil, StripState.finish]
    split_ifs
    · exact List.prefix_append _ _
    · exact List.prefix_rfl
  | cons m found ih => exact (result_prefix_stripTag s m).trans (ih _)

/-- A piece in front of all tags that are left is pushed, outside reasoning. -/
theorem piece_prefix_finish {before piece rest : List Char} {s : StripState}
    {found : List (Match Bool)} (htext : text = before ++ (piece ++ rest)) (hresult : s.result = [])
    (hout : s.in_tag = false) (hlast : s.last_index = before.length)
    (hfound : ∀ m ∈ found, before.length + piece.length ≤ m.start) :
    piece <+: (found.foldl (stripTag text) s).finish text := by
  cases found with
  | nil =>
    rw [List.foldl_nil, StripState.finish, hout, hresult, hlast, htext, List.drop_left]
    exact List.prefix_append _ _
  | cons m found =>
    have hle := hfound m List.mem_cons_self
    have hpushed : piece <+: (stripTag text s m).result := by
      have htake : text.take m.start =
          before ++ (piece ++ rest.take (m.start - before.length - piece.length)) := by
        rw [htext, List.take_append, List.take_append,
          List.take_of_length_le (by omega), List.take_of_length_le (by omega)]
      rw [stripTag, hout, hresult, hlast, htake, List.drop_left]
      exact List.prefix_append _ _
    exact hpushed.trans (result_prefix_finish _ found)

/-- The loop over a tag inside code, and outside. -/
theorem foldl_outsideCode_cons (regions : List CodeRegion) (m : Match Bool)
    (found : List (Match Bool)) (s : StripState) :
    (outsideCode regions (m :: found)).foldl (stripTag text) s =
      (outsideCode regions found).foldl (stripTag text)
        (if isInsideCode m.start regions then s else stripTag text s m) := by
  rw [outsideCode, List.filter_cons]
  cases isInsideCode m.start regions <;> rfl

/-- The tags of blocks from `pos` on that have to be outside code, in and outside of reasoning. -/
def KeptTags (text answer : List Char) : Bool → ℕ → List (ReasoningBlock word) → Prop
  | in_tag, _, [] => in_tag = true → Blank answer
  | in_tag, pos, b :: blocks => (in_tag = false → Visible text pos) ∧
      KeptTags text answer (isInsideCode (b.closePosition pos) (findCodeRegions text))
        (pos + b.text.length) blocks

/-- What begins with a thinking tag is neither blank nor without one. -/
theorem not_leaves {is_close : Bool} {tag left : List Char}
    (htag : IsTag word THINKING_NAMES is_close tag) (hleft : tag <+: left)
    (hanswer : isMatch (THINKING_TAG_RE word) answer = false) : ¬Leaves answer left := by
  obtain ⟨more, rfl⟩ := hleft
  rintro (heq | ⟨hblank, -⟩)
  · have hmatch : (THINKING_TAG_RE word).matchAt (tag ++ more) = some (is_close, tag.length) :=
      tagAt_append_of_some word htag.tagAt_eq more
    have hne : tag ++ more ≠ [] := List.append_ne_nil_of_left_ne_nil htag.ne_nil more
    rw [← heq, Matches.isMatch_of_matchAt hne hmatch] at hanswer
    cases hanswer
  · obtain ⟨cs, rfl⟩ := htag.head_eq
    exact absurd (hblank '<' List.mem_cons_self) (by decide)

/-- The tags behind an opening one begin behind it. -/
theorem start_of_mem_outsideCode_close (b : ReasoningBlock word) (regions : List CodeRegion)
    (pos : ℕ) (rest : List Char) : ∀ m ∈ outsideCode regions
      (⟨b.closePosition pos, pos + b.text.length, true⟩ ::
        findIter (THINKING_TAG_RE word) (pos + b.text.length) rest),
      pos + b.open_tag.length ≤ m.start := by
  intro m hm
  rcases List.mem_cons.mp (List.mem_of_mem_filter hm) with rfl | hm
  · exact Nat.le_add_right _ _
  · have hle := Matches.le_start_of_mem_findIter hm
    have hclose := b.closePosition_add pos
    rw [ReasoningBlock.closePosition] at hclose
    omega

/-- What the loop leaves of blocks and an answer, from a state that has pushed nothing. -/
theorem leaves_iff_keptTags {blocks : List (ReasoningBlock word)} {before : List Char}
    {s : StripState}
    (hanswer : isMatch (THINKING_TAG_RE word) answer = false)
    (htext : text = before ++ (blocksText blocks ++ answer)) (hresult : s.result = [])
    (hlast : s.in_tag = false → s.last_index = before.length) :
    Leaves answer (((outsideCode (findCodeRegions text) (findIter (THINKING_TAG_RE word)
        before.length (blocksText blocks ++ answer))).foldl (stripTag text) s).finish text) ↔
      KeptTags text answer s.in_tag before.length blocks := by
  induction blocks generalizing before s with
  | nil =>
    rw [blocksText_nil, List.nil_append,
      Matches.findIter_eq_nil (Matches.isMatch_eq_false.mp hanswer), KeptTags]
    change Leaves answer (s.finish text) ↔ _
    cases hin : s.in_tag with
    | true =>
      rw [StripState.finish, hin, hresult]
      have hblank : Blank [] := fun c hc => absurd hc List.not_mem_nil
      refine ⟨fun h _ => ?_, fun h => .inr ⟨hblank, h rfl⟩⟩
      rcases h with rfl | h
      · exact hblank
      · exact h.2
    | false =>
      have hleft : s.finish text = answer := by
        rw [StripState.finish, hin, hresult, hlast hin, htext, List.drop_left]
        rfl
      rw [hleft]
      exact ⟨fun _ h => absurd h Bool.false_ne_true, fun _ => .inl rfl⟩
  | cons b blocks ih =>
    have hshorter : text = (before ++ b.text) ++ (blocksText blocks ++ answer) := by
      rw [htext, blocksText_cons]
      simp only [List.append_assoc]
    have hlength : (before ++ b.text).length = before.length + b.text.length := List.length_append
    -- behind the opening tag: what is left depends on the closing one
    have hclose : ∀ opened : StripState, opened.result = [] → opened.in_tag = true →
        (Leaves answer (((outsideCode (findCodeRegions text)
            (⟨b.closePosition before.length, before.length + b.text.length, true⟩ ::
              findIter (THINKING_TAG_RE word) (before.length + b.text.length)
                (blocksText blocks ++ answer))).foldl (stripTag text) opened).finish text) ↔
          KeptTags text answer (isInsideCode (b.closePosition before.length)
            (findCodeRegions text)) (before.length + b.text.length) blocks) := by
      intro opened hempty hin
      rw [foldl_outsideCode_cons]
      cases hinside : isInsideCode (b.closePosition before.length) (findCodeRegions text) with
      | true =>
        have hnext := ih hshorter hempty fun h => absurd (h.symm.trans hin) Bool.false_ne_true
        rw [hlength, hin] at hnext
        exact hnext
      | false =>
        have hclosed : stripTag text opened
            ⟨b.closePosition before.length, before.length + b.text.length, true⟩ =
              ⟨[], before.length + b.text.length, false⟩ := by
          rw [stripTag, hin, hempty]
          rfl
        rw [if_neg Bool.false_ne_true, hclosed]
        have hnext := @ih (before ++ b.text) ⟨[], before.length + b.text.length, false⟩ hshorter rfl
          fun _ => hlength.symm
        rw [hlength] at hnext
        exact hnext
    rw [blocksText_cons, List.append_assoc, findIter_block, foldl_outsideCode_cons, KeptTags]
    cases hinside : isInsideCode before.length (findCodeRegions text) with
    | true =>
      rw [if_pos rfl]
      cases hin : s.in_tag with
      | true =>
        rw [hclose s hresult hin]
        exact ⟨fun h => ⟨fun hout => absurd hout.symm Bool.false_ne_true, h⟩, And.right⟩
      | false =>
        -- the opening tag is ignored, and so part of what is left
        have hbegins : text = before ++ (b.open_tag ++ (b.reasoning ++ b.close_tag ++
            (blocksText blocks ++ answer))) := by
          rw [htext, blocksText_cons, ReasoningBlock.text]
          simp only [List.append_assoc]
        have hpre := piece_prefix_finish hbegins hresult hin (hlast hin)
          (start_of_mem_outsideCode_close b (findCodeRegions text) before.length
            (blocksText blocks ++ answer))
        refine iff_of_false (not_leaves b.opens hpre hanswer) fun h => ?_
        have hvisible := h.1 rfl
        rw [Visible, hinside] at hvisible
        cases hvisible
    | false =>
      have hopened : (stripTag text s
          ⟨before.length, before.length + b.open_tag.length, false⟩).result = [] ∧
            (stripTag text s
              ⟨before.length, before.length + b.open_tag.length, false⟩).in_tag = true := by
        rw [stripTag]
        cases hin : s.in_tag with
        | true => exact ⟨hresult, rfl⟩
        | false =>
          refine ⟨?_, rfl⟩
          change s.result ++ (text.take before.length).drop s.last_index = []
          rw [hresult, hlast hin, List.nil_append, List.drop_eq_nil_iff]
          exact List.length_take_le _ _
      rw [if_neg Bool.false_ne_true, hclose _ hopened.1 hopened.2]
      exact ⟨fun h => ⟨fun _ => hinside, h⟩, And.right⟩

/-- The tags that have to be outside code, once more. -/
theorem keptTags_cons_iff {in_tag : Bool} {pos : ℕ} {b : ReasoningBlock word}
    {blocks : List (ReasoningBlock word)} :
    KeptTags text answer in_tag pos (b :: blocks) ↔
      (in_tag = false → Visible text pos) ∧ TagsVisible text answer pos (b :: blocks) := by
  induction blocks generalizing in_tag pos b with
  | nil =>
    rw [KeptTags, KeptTags, TagsVisible]
    refine and_congr_right fun _ => ?_
    change _ ↔ isInsideCode (b.closePosition pos) (findCodeRegions text) = false ∨ Blank answer
    cases isInsideCode (b.closePosition pos) (findCodeRegions text) <;> simp
  | cons next blocks ih =>
    rw [KeptTags, ih, TagsVisible]
    rfl

/-- The text begins outside code, where it begins with a tag. -/
theorem visible_zero (cs : List Char) : Visible ('<' :: cs) 0 :=
  not_inside_zero (by decide) (by decide) (by decide) cs

/-! ### What cleaning leaves -/

/-- No final answer is in a text without a final tag. -/
theorem extractFinalContent_eq_none (h : Free (FINAL_TAG_RE word) text)
    (regions : List CodeRegion) : extractFinalContent word text regions = none := by
  rw [extractFinalContent, Matches.findIter_eq_nil h]
  rfl

theorem stripThinkingTagsRegex_eq (h : Free (FINAL_TAG_RE word) text)
    (regions : List CodeRegion) : stripThinkingTagsRegex word text regions =
      (stripTags (THINKING_TAG_RE word) text regions).finish text := by
  have hnone : ∀ n, extractFinalContent word (text.drop n) (findCodeRegions (text.drop n)) = none :=
    fun n => extractFinalContent_eq_none (h.of_suffix (List.drop_suffix n text)) _
  rw [stripThinkingTagsRegex, StripState.finish]
  dsimp only
  rw [hnone]
  simp

/-- What the first steps leave of a text without tags. -/
theorem stripReasoning_of_free (hthinking : isMatch (THINKING_TAG_RE word) text = false)
    (hfinal : isMatch (FINAL_TAG_RE word) text = false) : stripReasoning word text = text := by
  have hfree := Matches.isMatch_eq_false.mp hfinal
  have hstrip : stripThinkingTagsRegex word text (findCodeRegions text) = text := by
    rw [stripThinkingTagsRegex_eq hfree, stripTags,
      Matches.findIter_eq_nil (Matches.isMatch_eq_false.mp hthinking)]
    rfl
  rw [stripReasoning, hstrip]
  dsimp only
  rw [hfinal, if_neg Bool.false_ne_true, ite_self]

/-- A text without a `<` has no tag. -/
theorem isMatch_eq_false_of_not_mem {names : List (List Char)} (h : '<' ∉ text) :
    isMatch (tagPattern word names) text = false := by
  refine Matches.isMatch_eq_false.mpr fun back hne hback => ?_
  obtain ⟨c, cs, rfl⟩ := List.exists_cons_of_ne_nil hne
  exact tagAt_eq_none (fun hc => h (hback.subset (hc ▸ List.mem_cons_self))) cs

/-! ### Blank text -/

theorem Blank.not_mem (h : Blank text) {c : Char} (hc : isWhitespace c = false) : c ∉ text :=
  fun hmem => absurd ((h c hmem).symm.trans hc) Bool.noConfusion

theorem Blank.collapseRuns (h : Blank text) : Blank (collapseRuns text) := by
  induction text using Llm.collapseRuns.induct with
  | case1 text hcontains ih =>
    rw [Llm.collapseRuns, dif_pos hcontains]
    have hsublist := Text.replace_sublist (by decide : TRIPLE ≠ [])
      (by decide : DOUBLE.Sublist TRIPLE) text
    exact ih fun c hc => h c (hsublist.mem hc)
  | case2 text hcontains =>
    rwa [Llm.collapseRuns, dif_neg hcontains]

/-- Nothing is left of white space. -/
theorem Blank.stripMarkup (h : Blank text) : stripMarkup text = [] := by
  rw [stripMarkup_of_not_mem (h.not_mem (by decide)) (h.not_mem (by decide)), collapseNewlines,
    trim, List.dropWhile_eq_nil_iff.mpr h.collapseRuns]
  rfl

/-! ### What is left of reasoning and an answer -/

/-- The first steps leave what the loop does, if there is no final tag in that. -/
theorem stripReasoning_blocks {blocks : List (ReasoningBlock word)} (hne : blocks ≠ [])
    (hleft : isMatch (FINAL_TAG_RE word) (stripThinkingTagsRegex word (blocksText blocks ++ answer)
      (findCodeRegions (blocksText blocks ++ answer))) = false) :
    stripReasoning word (blocksText blocks ++ answer) =
      stripThinkingTagsRegex word (blocksText blocks ++ answer)
        (findCodeRegions (blocksText blocks ++ answer)) := by
  obtain ⟨b, blocks, rfl⟩ := List.exists_cons_of_ne_nil hne
  have hquick : isMatch (QUICK_TAG_RE word) (blocksText (b :: blocks) ++ answer) = true := by
    rw [blocksText_cons, ReasoningBlock.text, List.append_assoc, List.append_assoc]
    exact b.opens.isMatch_quick _
  rw [stripReasoning, hquick]
  dsimp only
  rw [hleft]
  rfl

/-- What the thinking tags leave, by the tags that are outside code. -/
theorem leaves_iff_tagsVisible {blocks : List (ReasoningBlock word)}
    (hthinking : isMatch (THINKING_TAG_RE word) answer = false)
    (hfinal : isMatch (FINAL_TAG_RE word) answer = false) :
    Leaves answer (stripThinkingTagsRegex word (blocksText blocks ++ answer)
        (findCodeRegions (blocksText blocks ++ answer))) ↔
      TagsVisible (blocksText blocks ++ answer) answer 0 blocks := by
  have hkept := @leaves_iff_keptTags word (blocksText blocks ++ answer) answer blocks []
    ⟨[], 0, false⟩ hthinking rfl rfl fun _ => rfl
  rw [stripThinkingTagsRegex_eq (free_final hfinal)]
  refine hkept.trans ?_
  cases blocks with
  | nil => exact ⟨fun _ => trivial, fun _ h => absurd h Bool.false_ne_true⟩
  | cons b blocks =>
    obtain ⟨cs, hcs⟩ := b.opens.head_eq
    have hvisible : Visible (blocksText (b :: blocks) ++ answer) 0 := by
      rw [blocksText_cons, ReasoningBlock.text, hcs]
      exact visible_zero _
    rw [List.length_nil, keptTags_cons_iff]
    exact ⟨And.right, fun h => ⟨fun _ => hvisible, h⟩⟩

/-- **When reasoning is removed and the answer kept**: when the tags are outside code that have to
be. -/
theorem reasoningRemoved_iff {blocks : List (ReasoningBlock word)}
    (hthinking : isMatch (THINKING_TAG_RE word) answer = false)
    (hfinal : isMatch (FINAL_TAG_RE word) answer = false) :
    ReasoningRemoved blocks answer ↔
      TagsVisible (blocksText blocks ++ answer) answer 0 blocks := by
  rw [← leaves_iff_tagsVisible hthinking hfinal]
  refine ⟨ReasoningRemoved.kept, fun hleaves => ⟨?_, hleaves⟩⟩
  by_cases hne : blocks = []
  · rw [hne, blocksText_nil, List.nil_append]
  rw [cleanResponse, cleanResponse, stripReasoning_of_free hthinking hfinal]
  rcases hleaves with hleft | ⟨hleft, hblank⟩
  · rw [stripReasoning_blocks hne (by rw [hleft]; exact hfinal), hleft]
  · have hnone : '<' ∉ stripThinkingTagsRegex word (blocksText blocks ++ answer)
        (findCodeRegions (blocksText blocks ++ answer)) := hleft.not_mem (by decide)
    rw [stripReasoning_blocks hne (isMatch_eq_false_of_not_mem hnone), hleft.stripMarkup,
      hblank.stripMarkup]

/-- Reasoning and an answer without backticks and tildes. -/
theorem tagsVisible_of_not_mem {blocks : List (ReasoningBlock word)} (htick : '`' ∉ text)
    (htilde : '~' ∉ text) (pos : ℕ) : TagsVisible text answer pos blocks := by
  have hvisible : ∀ pos, Visible text pos := fun pos => by
    rw [Visible, findCodeRegions_eq_nil htick htilde]
    rfl
  induction blocks generalizing pos with
  | nil => trivial
  | cons b blocks ih =>
    cases blocks with
    | nil => exact .inl (hvisible _)
    | cons next blocks => exact ⟨fun _ => hvisible _, ih _⟩

/-- Nothing is left of an answer behind a closing tag inside code. -/
theorem cleanResponse_hidden (b : ReasoningBlock word)
    (hthinking : isMatch (THINKING_TAG_RE word) answer = false)
    (hfinal : isMatch (FINAL_TAG_RE word) answer = false)
    (hhidden : ¬Visible (b.text ++ answer) (b.closePosition 0)) :
    cleanResponse word (b.text ++ answer) = [] := by
  have hblocks : blocksText [b] ++ answer = b.text ++ answer := by
    rw [blocksText_cons, blocksText_nil, List.append_nil]
  have hfree : Free (FINAL_TAG_RE word) (b.text ++ answer) := hblocks ▸ free_final hfinal
  have hopen : isInsideCode 0 (findCodeRegions (b.text ++ answer)) = false := by
    obtain ⟨cs, hcs⟩ := b.opens.head_eq
    rw [ReasoningBlock.text, hcs]
    exact visible_zero _
  have hclose : isInsideCode (b.closePosition 0) (findCodeRegions (b.text ++ answer)) = true :=
    Bool.eq_true_of_not_eq_false hhidden
  have hleft : stripThinkingTagsRegex word (b.text ++ answer) (findCodeRegions (b.text ++ answer)) =
      [] := by
    rw [stripThinkingTagsRegex_eq hfree, stripTags, findIter_block, foldl_outsideCode_cons,
      foldl_outsideCode_cons, hopen, hclose,
      Matches.findIter_eq_nil (Matches.isMatch_eq_false.mp hthinking)]
    rfl
  have hnone : isMatch (FINAL_TAG_RE word) (stripThinkingTagsRegex word (blocksText [b] ++ answer)
      (findCodeRegions (blocksText [b] ++ answer))) = false := by
    rw [hblocks, hleft]
    exact isMatch_eq_false_of_not_mem List.not_mem_nil
  rw [cleanResponse, ← hblocks, stripReasoning_blocks (List.cons_ne_nil b []) hnone, hblocks, hleft]
  exact Blank.stripMarkup fun c hc => absurd hc List.not_mem_nil

end

/-- Reasoning between tags without attributes. -/
def thinkBlock (reasoning : List Char) (h : '<' ∉ reasoning) : ReasoningBlock fun _ => false where
  open_tag := "<think>".toList
  reasoning
  close_tag := "</think>".toList
  opens := ⟨by decide⟩
  closes := ⟨by decide⟩
  no_thinking := isMatch_eq_false_of_not_mem h
  no_final := isMatch_eq_false_of_not_mem h

/-- Reasoning without code is removed, twice. -/
theorem reasoningRemoved_plain :
    ReasoningRemoved [thinkBlock "hm".toList (by decide), thinkBlock "1 > 0".toList (by decide)]
      "yes".toList :=
  (reasoningRemoved_iff (isMatch_eq_false_of_not_mem (by decide))
    (isMatch_eq_false_of_not_mem (by decide))).mpr
      (tagsVisible_of_not_mem (by decide) (by decide) 0)

/-- Reasoning that opens a span, with the closing tag in it. -/
theorem not_visible_spanned : ¬Visible "<think>a `b</think>c` d".toList 11 := by
  have hfence : isInsideCode "<think>a ".toList.length
      (fencedBlocks 0 ("<think>a ".toList ++ '`' :: ("b</think>c".toList ++ '`' :: " d".toList))) =
        false := by
    have hline : lineLength "<think>a `b</think>c` d".toList = 23 := by decide
    have hfences : fencedBlocks 0 "<think>a `b</think>c` d".toList = [] := by
      rw [show "<think>a `b</think>c` d".toList = '<' :: "think>a `b</think>c` d".toList from rfl,
        fencedBlocks_of_opensFence (by decide)]
      rw [show '<' :: "think>a `b</think>c` d".toList = "<think>a `b</think>c` d".toList from rfl,
        hline, show "<think>a `b</think>c` d".toList.drop 23 = [] from rfl, fencedBlocks]
    exact (congrArg _ hfences).trans rfl
  have hregion := @mem_findCodeRegions_first "<think>a ".toList "b</think>c".toList " d".toList
    (by decide) (by decide) (by decide) (by decide) hfence
  intro hvisible
  exact absurd (List.any_eq_false.mp hvisible _ hregion) (by decide)

/-- The reasoning opens a span that the answer closes: the answer is lost. -/
theorem answer_lost : cleanResponse (fun _ => false) "<think>a `b</think>c` d".toList ≠
    cleanResponse (fun _ => false) "c` d".toList := by
  have hlost := cleanResponse_hidden (thinkBlock "a `b".toList (by decide))
    (isMatch_eq_false_of_not_mem (show '<' ∉ "c` d".toList by decide))
    (isMatch_eq_false_of_not_mem (by decide)) not_visible_spanned
  have hkept : cleanResponse (fun _ => false) "c` d".toList = "c` d".toList := by
    rw [cleanResponse, stripReasoning_of_free (isMatch_eq_false_of_not_mem (by decide))
      (isMatch_eq_false_of_not_mem (by decide)), stripMarkup_of_not_mem (by decide) (by decide),
      collapseNewlines, collapseRuns, dif_neg (by decide)]
    decide
  rw [hkept]
  exact fun h => absurd (hlost.symm.trans h) (by decide)

end T3Claw.Llm
