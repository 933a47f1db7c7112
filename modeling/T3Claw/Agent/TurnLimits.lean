import T3Claw.Agent.AgenticLoop
import T3Claw.Data.Tally

/-!
# The limits of a turn

What a turn promises of the requests to the model and of the batches of calls. The counters of the
loop keep their part in every run. The overrides of the settings are applied in iteration zero, and
there is none: the loop counts from one. Nor is text forced in an iteration in which the settings
cannot be read, since `before_llm_call` returns early. `turnLimits_iff` has the exact condition.
-/

namespace T3Claw.Agent

open Llm (ToolCall)
open Routines (FinishReason)
open MarkTally (Mark Within tally)

variable {F : Type}

/-! ### What is promised -/

namespace TurnStart

/-- The model that the settings resolve to. -/
def resolvedModel (start : TurnStart) : Option (List Char) :=
  start.store.bind fun store =>
    (store.getSettingWithAdminFallback "selected_model").bind selectedModelOverride

/-- The temperature that the settings resolve to. -/
def resolvedTemperature (host : LoopHost F) (start : TurnStart) : Option F :=
  start.store.bind fun store =>
    resolveSettingsTemperature host none (store.getSettingWithAdminFallback "temperature")

end TurnStart

open Classical in
/-- A failing batch counts, another batch or a reply interrupts. -/
noncomputable def failureMark (key : List (String × Value)) : LoopEvent F → Mark
  | .executed _ tool_calls all_failed =>
    if batchKey tool_calls = key ∧ all_failed = true then .counts else .interrupts
  | .replied => .interrupts
  | _ => .passes

/-- A nudge counts, a batch or a reply interrupts. -/
def nudgeMark : LoopEvent F → Mark
  | .nudged => .counts
  | .executed .. | .replied => .interrupts
  | _ => .passes

/-- The iteration that an event begins. -/
def LoopEvent.iteration? : LoopEvent F → Option ℕ
  | .started iteration => some iteration
  | _ => none

/-- A request with the overrides of the settings, and without tools from the limit on. -/
structure RequestOk (host : LoopHost F) (start : TurnStart) (iteration : ℕ) (request : Request F) :
    Prop where
  model : request.model = start.resolvedModel
  temperature : request.temperature =
    host.clamp ((start.resolvedTemperature host).getD host.default_temperature)
  tools : start.max_tool_iterations ≤ iteration → request.tools = []

/-- The limits of a turn. -/
structure TurnLimits (host : LoopHost F) (start : TurnStart) (events : List (LoopEvent F)) :
    Prop where
  requests : ∀ iteration request, .requested iteration request ∈ events →
    RequestOk host start iteration request
  truncated : ∀ finish_reason tool_calls all_failed,
    .executed finish_reason tool_calls all_failed ∈ events → finish_reason ≠ .length
  failing : ∀ key, ∀ stretch, stretch <:+: events →
    (∀ event ∈ stretch, failureMark key event ≠ .interrupts) →
    stretch.countP (failureMark key · = .counts) ≤ DUPLICATE_FORCE_TEXT_THRESHOLD
  nudges : ∀ stretch, stretch <:+: events → (∀ event ∈ stretch, nudgeMark event ≠ .interrupts) →
    stretch.countP (nudgeMark · = .counts) ≤ start.config.max_tool_intent_nudges
  iterations : ∃ n ≤ start.max_tool_iterations + 1,
    events.filterMap LoopEvent.iteration? = List.range' 1 n

/-! ### One iteration -/

section

variable {host : LoopHost F} {delegate : ChatDelegate} {config : AgenticLoopConfig}

/-- A context is changed, but not its overrides, and text is forced as before. -/
structure Kept (ctx ctx' : ReasoningContext F) : Prop where
  model_override : ctx'.model_override = ctx.model_override
  temperature : ctx'.temperature = ctx.temperature
  force_text : ctx.force_text = true → ctx'.force_text = true

theorem Kept.refl (ctx : ReasoningContext F) : Kept ctx ctx := ⟨rfl, rfl, id⟩

theorem Kept.trans {ctx ctx' ctx'' : ReasoningContext F} (h : Kept ctx ctx')
    (h' : Kept ctx' ctx'') : Kept ctx ctx'' :=
  ⟨h'.model_override.trans h.model_override, h'.temperature.trans h.temperature,
    h'.force_text ∘ h.force_text⟩

theorem kept_push (ctx : ReasoningContext F) (msg : Llm.ChatMessage) : Kept ctx (ctx.push msg) :=
  ⟨rfl, rfl, id⟩

theorem kept_beforeLlmCall (round : Round F) (iteration : ℕ) (ctx : ReasoningContext F) :
    Kept ctx (beforeLlmCall host delegate round iteration ctx) := by
  have hnudge : Kept ctx
      (if iteration = delegate.nudge_at then ctx.push (.system LIMIT_NUDGE) else ctx) := by
    split
    · exact kept_push ctx _
    · exact .refl ctx
  rw [beforeLlmCall]
  cases toolPermissions host delegate round with
  | none => exact hnudge
  | some tool_permissions =>
    refine ⟨hnudge.model_override, hnudge.temperature, fun hforce => ?_⟩
    simp [hnudge.force_text hforce]

/-- There is no iteration in which the settings are applied. -/
theorem applyOverrides_eq {iteration : ℕ} (h : iteration ≠ 0) (round : Round F)
    (ctx : ReasoningContext F) : applyOverrides host delegate round iteration ctx = ctx := by
  rw [applyOverrides]
  cases delegate.store with
  | none => rfl
  | some store => exact if_neg fun hzero => h hzero.1

/-- Calls are answered only where tools are offered. -/
theorem force_text_of_toolCalls {round : Round F} {retry : Bool} {ctx : ReasoningContext F}
    {output : RespondOutput} (h : respondWithTools host round retry ctx = .ok output)
    {tool_calls : List ToolCall} {content : Option (List Char)}
    (hcalls : output.result = .toolCalls tool_calls content) : ctx.force_text = false := by
  rw [respondWithTools] at h
  split at h
  case isTrue htools =>
    refine Bool.eq_false_iff.mpr fun hforce => htools ?_
    rw [ReasoningContext.effectiveTools, if_pos hforce]
  case isFalse htools =>
    cases hanswer : round.complete retry (ctx.request host) with
    | error error =>
      rw [hanswer] at h
      cases h
    | ok response =>
      rw [hanswer] at h
      obtain rfl := Except.ok.inj h
      cases hcalls

/-- What is answered to a call, and with what the loop goes on. -/
theorem callLlm_ok {round : Round F} {iteration : ℕ} (hi : iteration ≠ 0)
    {ctx ctx' : ReasoningContext F} {output : RespondOutput}
    (h : (callLlm host delegate round iteration ctx).2 = .ok (ctx', output)) :
    Kept ctx ctx' ∧ ∀ tool_calls content, output.result = .toolCalls tool_calls content →
      ctx.force_text = false := by
  rw [callLlm, applyOverrides_eq hi] at h
  split at h
  case isFalse => cases h
  case isTrue =>
    dsimp only at h
    split at h
    case h_1 output' hanswer =>
      obtain ⟨rfl, rfl⟩ := Prod.mk.inj (Except.ok.inj h)
      exact ⟨.refl ctx, fun _ _ => force_text_of_toolCalls hanswer⟩
    case h_2 =>
      dsimp only at h
      split at h
      case h_1 output' hanswer =>
        obtain ⟨rfl, rfl⟩ := Prod.mk.inj (Except.ok.inj h)
        exact ⟨⟨rfl, rfl, id⟩, fun _ _ => force_text_of_toolCalls hanswer⟩
      case h_2 => cases h
    case h_3 => cases h

variable (delegate) in
/-- The requests of a call differ in their messages only. -/
theorem callLlm_requests {round : Round F} {iteration : ℕ} (hi : iteration ≠ 0)
    (hcost : round.cost_allowed = true) (ctx : ReasoningContext F) :
    (∃ request, request ∈ (callLlm host delegate round iteration ctx).1) ∧
      ∀ request ∈ (callLlm host delegate round iteration ctx).1,
        request.tools = ctx.effectiveTools ∧ request.model = ctx.model_override ∧
          request.temperature = host.clamp (ctx.temperature.getD host.default_temperature) := by
  rw [callLlm, if_pos hcost, applyOverrides_eq hi]
  have hfirst : (ctx.request host).tools = ctx.effectiveTools ∧
      (ctx.request host).model = ctx.model_override ∧
      (ctx.request host).temperature =
        host.clamp (ctx.temperature.getD host.default_temperature) := ⟨rfl, rfl, rfl⟩
  dsimp only
  split
  case h_1 => exact ⟨⟨_, List.mem_cons_self⟩, List.forall_mem_singleton.mpr hfirst⟩
  case h_2 =>
    refine ⟨⟨_, List.mem_cons_self⟩,
      List.forall_mem_cons.mpr ⟨hfirst, List.forall_mem_singleton.mpr ⟨?_, rfl, rfl⟩⟩⟩
    simp only [ReasoningContext.request, ReasoningContext.effectiveTools]
    split <;> rfl
  case h_3 => exact ⟨⟨_, List.mem_cons_self⟩, List.forall_mem_singleton.mpr hfirst⟩

/-- What an output leads to: an event, and the end or the next state. -/
inductive Handled (host : LoopHost F) (config : AgenticLoopConfig) (state : LoopState F)
    (ctx : ReasoningContext F) : LoopEvent F → Continuation F → Prop
  | replied {result} : Handled host config state ctx .replied (.inl result)
  | nudged {next : LoopState F}
      (hlt : state.consecutive_tool_intent_nudges < config.max_tool_intent_nudges)
      (hkept : Kept ctx next.ctx)
      (hnudges : next.consecutive_tool_intent_nudges = state.consecutive_tool_intent_nudges + 1)
      (htracker : next.dup_tracker = state.dup_tracker) :
      Handled host config state ctx .nudged (.inr next)
  | discarded {tool_calls} {next : LoopState F} (hkept : Kept ctx next.ctx)
      (hnudges : next.consecutive_tool_intent_nudges = state.consecutive_tool_intent_nudges)
      (htracker : next.dup_tracker = state.dup_tracker) :
      Handled host config state ctx (.discarded tool_calls) (.inr next)
  | ended {finish_reason tool_calls all_failed result} (hreason : finish_reason ≠ .length) :
      Handled host config state ctx (.executed finish_reason tool_calls all_failed) (.inl result)
  | executed {finish_reason tool_calls all_failed} {next : LoopState F}
      (hreason : finish_reason ≠ .length) (hkept : Kept ctx next.ctx)
      (hnudges : next.consecutive_tool_intent_nudges = 0)
      (htracker : next.dup_tracker = state.dup_tracker.recordWithFingerprint
        (fingerprint host tool_calls) all_failed)
      (hforce : DUPLICATE_FORCE_TEXT_THRESHOLD ≤ next.dup_tracker.consecutive_count →
        next.ctx.force_text = true) :
      Handled host config state ctx (.executed finish_reason tool_calls all_failed) (.inr next)

theorem kept_discardBatch (state : LoopState F) (ctx : ReasoningContext F)
    (content : Option (List Char)) : Kept ctx (discardBatch state ctx content).ctx := by
  have hkept {pushed : ReasoningContext F} (h : Kept ctx pushed) :
      Kept ctx (if 3 ≤ state.truncation_count + 1 then { pushed with force_text := true }
        else pushed) := by
    split
    · exact ⟨h.model_override, h.temperature, fun _ => rfl⟩
    · exact h
  cases content with
  | none => exact hkept (kept_push ctx _)
  | some text => exact hkept ((kept_push ctx _).trans (kept_push _ _))

theorem kept_escalate (dup_count : ℕ) (ctx : ReasoningContext F) :
    Kept ctx (escalate dup_count ctx) := by
  rw [escalate]
  split
  · exact ⟨rfl, rfl, fun _ => rfl⟩
  · split
    · exact kept_push ctx _
    · exact .refl ctx

theorem escalate_force_text {dup_count : ℕ} (h : DUPLICATE_FORCE_TEXT_THRESHOLD ≤ dup_count)
    (ctx : ReasoningContext F) : (escalate dup_count ctx).force_text = true := by
  rw [escalate, if_pos h]
  rfl

theorem handleText_handled (state : LoopState F) (ctx : ReasoningContext F) (text : List Char) :
    Handled host config state ctx (handleText host config state ctx text).1
      (handleText host config state ctx text).2 := by
  rw [handleText]
  split
  case isTrue h =>
    exact .nudged h.2.2.2.1 ((kept_push ctx _).trans (kept_push _ _)) rfl rfl
  case isFalse => exact .replied

theorem handleToolCalls_handled (round : Round F) (state : LoopState F) (ctx : ReasoningContext F)
    (finish_reason : FinishReason) (tool_calls : List ToolCall) (content : Option (List Char)) :
    Handled host config state ctx
      (handleToolCalls host round state ctx finish_reason tool_calls content).1
      (handleToolCalls host round state ctx finish_reason tool_calls content).2 := by
  rw [handleToolCalls]
  split
  case isTrue => exact .discarded (kept_discardBatch state ctx content) rfl rfl
  case isFalse hreason =>
    have hkept : Kept ctx (executeToolCalls round tool_calls content
        { ctx with last_tool_batch_all_failed := false }).2 := ⟨rfl, rfl, id⟩
    cases houtcome : (executeToolCalls round tool_calls content
      { ctx with last_tool_batch_all_failed := false }).1 with
    | some outcome =>
      simp only [houtcome]
      exact .ended hreason
    | none =>
      simp only [houtcome]
      exact .executed hreason (hkept.trans (kept_escalate _ _)) rfl rfl
        fun hcount => escalate_force_text hcount _

theorem handleOutput_handled (round : Round F) (state : LoopState F) (ctx : ReasoningContext F)
    (output : RespondOutput) :
    Handled host config state ctx (handleOutput host config round state ctx output).1
      (handleOutput host config round state ctx output).2 := by
  rw [handleOutput]
  cases output.result with
  | text text => exact handleText_handled state ctx text
  | toolCalls tool_calls content => exact handleToolCalls_handled round state ctx _ _ _

/-- A batch that is executed was answered. -/
theorem handleOutput_executed {round : Round F} {state : LoopState F} {ctx : ReasoningContext F}
    {output : RespondOutput} {finish_reason : FinishReason} {tool_calls : List ToolCall}
    {all_failed : Bool} (h : (handleOutput host config round state ctx output).1 =
      .executed finish_reason tool_calls all_failed) :
    ∃ tool_calls content, output.result = .toolCalls tool_calls content := by
  cases hresult : output.result with
  | toolCalls tool_calls content => exact ⟨tool_calls, content, rfl⟩
  | text text =>
    rw [handleOutput, hresult] at h
    dsimp only [handleText] at h
    split at h <;> cases h

variable (host delegate) in
/-- The requests of an iteration. -/
def requestsOf (round : Round F) (iteration : ℕ) (state : LoopState F) : List (Request F) :=
  if round.interrupted then []
  else (callLlm host delegate round iteration
    (beforeLlmCall host delegate round iteration state.ctx)).1

variable (host delegate) in
/-- What an iteration begins with. -/
def calledIn (round : Round F) (iteration : ℕ) (state : LoopState F) : List (LoopEvent F) :=
  .started iteration ::
    (requestsOf host delegate round iteration state).map (.requested iteration)

/-- What an iteration with an output comes to; a batch is executed only if text was not forced. -/
structure Answered (host : LoopHost F) (config : AgenticLoopConfig) (state : LoopState F)
    (ctx : ReasoningContext F) (event : LoopEvent F) (next : Continuation F) : Prop where
  kept : Kept state.ctx ctx
  handled : Handled host config state ctx event next
  unforced : ∀ finish_reason tool_calls all_failed,
    event = .executed finish_reason tool_calls all_failed → state.ctx.force_text = false

variable (host delegate config) in
/-- An iteration ends with its requests, or goes on to handle an output. -/
theorem iterate_cases {iteration : ℕ} (hi : iteration ≠ 0) (round : Round F)
    (state : LoopState F) :
    (∃ result, iterate host delegate config round iteration state =
      (calledIn host delegate round iteration state, .inl result)) ∨
    ∃ ctx event next, iterate host delegate config round iteration state =
        (calledIn host delegate round iteration state ++ [event], next) ∧
      Answered host config state ctx event next := by
  rw [iterate, calledIn, requestsOf]
  cases round.interrupted with
  | true => exact .inl ⟨_, rfl⟩
  | false =>
    have hbefore : Kept state.ctx (beforeLlmCall host delegate round iteration state.ctx) :=
      kept_beforeLlmCall round iteration state.ctx
    cases hcall : callLlm host delegate round iteration
      (beforeLlmCall host delegate round iteration state.ctx) with
    | mk requests answer =>
      cases answer with
      | error error => exact .inl ⟨.error error, by simp [hcall]⟩
      | ok pair =>
        obtain ⟨ctx, output⟩ := pair
        obtain ⟨hkept, hcalls⟩ := callLlm_ok hi (congrArg Prod.snd hcall)
        refine .inr ⟨ctx, _, _, by simp [hcall], hbefore.trans hkept,
          handleOutput_handled round state ctx output, fun _ _ _ hevent => ?_⟩
        obtain ⟨tool_calls, content, hresult⟩ := handleOutput_executed hevent
        exact Bool.eq_false_iff.mpr fun hforce =>
          Bool.eq_false_iff.mp (hcalls tool_calls content hresult) (hbefore.force_text hforce)

/-! ### Every iteration -/

variable (host delegate) in
theorem forall_calledIn {P : LoopEvent F → Prop} {round : Round F} {iteration : ℕ}
    {state : LoopState F} (hstarted : P (.started iteration))
    (hrequested : ∀ request, P (.requested iteration request)) :
    ∀ event ∈ calledIn host delegate round iteration state, P event :=
  List.forall_mem_cons.mpr
    ⟨hstarted, List.forall_mem_map.mpr fun request _ => hrequested request⟩

variable (host delegate config) in
/-- What holds of a run, from its last iteration to its first. -/
theorem iterations_induction {rounds : ℕ → Round F}
    {P : ℕ → ℕ → LoopState F → List (LoopEvent F) → Prop}
    (zero : ∀ i state, P 0 i state [])
    (called : ∀ n i state result, i ≠ 0 →
      iterate host delegate config (rounds i) i state =
        (calledIn host delegate (rounds i) i state, .inl result) →
      P (n + 1) i state (calledIn host delegate (rounds i) i state))
    (ended : ∀ n i state ctx event result, i ≠ 0 →
      iterate host delegate config (rounds i) i state =
        (calledIn host delegate (rounds i) i state ++ [event], .inl result) →
      Answered host config state ctx event (.inl result) →
      P (n + 1) i state (calledIn host delegate (rounds i) i state ++ [event]))
    (next : ∀ n i state ctx event state' more, i ≠ 0 →
      iterate host delegate config (rounds i) i state =
        (calledIn host delegate (rounds i) i state ++ [event], .inr state') →
      Answered host config state ctx event (.inr state') → P n (i + 1) state' more →
      P (n + 1) i state (calledIn host delegate (rounds i) i state ++ [event] ++ more))
    (n : ℕ) {i : ℕ} (hi : i ≠ 0) (state : LoopState F) :
    P n i state (iterations host delegate config rounds n i state).1 := by
  induction n generalizing i state with
  | zero => exact zero i state
  | succ n ih =>
    rw [iterations]
    obtain ⟨result, heq⟩ | ⟨ctx, event, continuation, heq, hanswered⟩ :=
      iterate_cases host delegate config hi (rounds i) state
    · rw [heq]
      exact called n i state result hi heq
    · cases continuation with
      | inl result =>
        rw [heq]
        exact ended n i state ctx event result hi heq hanswered
      | inr state' =>
        rw [heq]
        exact next n i state ctx event state' _ hi heq hanswered (ih (Nat.succ_ne_zero i) state')

/-- A tally stays bounded if the handling of an output keeps it so. -/
theorem within_iterations {mark : LoopEvent F → Mark} {bound : ℕ}
    {Inv : ℕ → LoopState F → Prop} (hstarted : ∀ i, mark (.started i) = .passes)
    (hrequested : ∀ i request, mark (.requested i request) = .passes)
    (hbound : ∀ c state, Inv c state → c ≤ bound)
    (hstep : ∀ c state ctx event next, Inv c state → Answered host config state ctx event next →
      (mark event).next c ≤ bound ∧ ∀ state', next = .inr state' → Inv ((mark event).next c) state')
    (rounds : ℕ → Round F) (n : ℕ) {i : ℕ} (hi : i ≠ 0) {c : ℕ} {state : LoopState F}
    (h : Inv c state) :
    Within mark bound c (iterations host delegate config rounds n i state).1 := by
  have hcalled (i : ℕ) (state : LoopState F) :
      ∀ event ∈ calledIn host delegate (rounds i) i state, mark event = .passes :=
    forall_calledIn host delegate (hstarted i) (hrequested i)
  refine iterations_induction host delegate config
    (P := fun _ _ state events => ∀ c, Inv c state → Within mark bound c events)
    (fun _ _ _ _ => trivial) ?_ ?_ ?_ n hi state c h
  · intro _ i state _ _ _ c h
    exact MarkTally.within_of_passes (hbound c state h) (hcalled i state)
  · intro _ i state ctx event _ _ _ hanswered c h
    rw [MarkTally.within_append, MarkTally.tally_of_passes (hcalled i state)]
    exact ⟨MarkTally.within_of_passes (hbound c state h) (hcalled i state),
      (hstep c state ctx event _ h hanswered).1, trivial⟩
  · intro _ i state ctx event state' more _ _ hanswered ih c h
    obtain ⟨hle, hinv⟩ := hstep c state ctx event _ h hanswered
    rw [List.append_assoc, MarkTally.within_append, MarkTally.tally_of_passes (hcalled i state)]
    exact ⟨MarkTally.within_of_passes (hbound c state h) (hcalled i state), hle,
      ih _ (hinv state' rfl)⟩

/-- The failures of a batch in a row are counted by the tracker, which forces text at the limit. -/
structure FailureInv (host : LoopHost F) (key : List (String × Value)) (c : ℕ)
    (state : LoopState F) : Prop where
  tracked : c = 0 ∨ state.dup_tracker.last_fingerprint = some (host.hash key) ∧
    c ≤ state.dup_tracker.consecutive_count
  below : c ≤ DUPLICATE_FORCE_TEXT_THRESHOLD
  forced : DUPLICATE_FORCE_TEXT_THRESHOLD ≤ state.dup_tracker.consecutive_count →
    state.ctx.force_text = true

theorem FailureInv.lt {key : List (String × Value)} {c : ℕ} {state : LoopState F}
    (h : FailureInv host key c state) (hforce : state.ctx.force_text = false) :
    c < DUPLICATE_FORCE_TEXT_THRESHOLD := by
  have hcount : state.dup_tracker.consecutive_count < DUPLICATE_FORCE_TEXT_THRESHOLD := by
    refine Nat.lt_of_not_le fun hle => ?_
    rw [h.forced hle] at hforce
    cases hforce
  obtain rfl | ⟨-, hle⟩ := h.tracked
  · exact Nat.succ_pos 4
  · exact hle.trans_lt hcount

/-- One more failure of a batch is tracked. -/
theorem FailureInv.tracked_succ {key : List (String × Value)} {c : ℕ} {state : LoopState F}
    (h : FailureInv host key c state) {tool_calls : List ToolCall}
    (hkey : batchKey tool_calls = key) :
    (state.dup_tracker.recordWithFingerprint (fingerprint host tool_calls) true).last_fingerprint =
        some (host.hash key) ∧
      c + 1 ≤ (state.dup_tracker.recordWithFingerprint (fingerprint host tool_calls)
        true).consecutive_count := by
  rw [fingerprint, hkey, DuplicateToolCallTracker.recordWithFingerprint]
  split
  case isTrue hsame =>
    refine ⟨hsame.2, Nat.succ_le_succ ?_⟩
    obtain rfl | ⟨-, hle⟩ := h.tracked
    · exact Nat.zero_le _
    · exact hle
  case isFalse hother =>
    obtain rfl | ⟨hlast, -⟩ := h.tracked
    · exact ⟨rfl, le_rfl⟩
    · exact absurd ⟨rfl, hlast⟩ hother

theorem failureInv_step {key : List (String × Value)} {c : ℕ} {state : LoopState F}
    {ctx : ReasoningContext F} {event : LoopEvent F} (h : FailureInv host key c state)
    {next : Continuation F} (hanswered : Answered host config state ctx event next) :
    (failureMark key event).next c ≤ DUPLICATE_FORCE_TEXT_THRESHOLD ∧
      ∀ state', next = .inr state' →
        FailureInv host key ((failureMark key event).next c) state' := by
  have hle (finish_reason : FinishReason) (tool_calls : List ToolCall) (all_failed : Bool)
      (hevent : event = .executed finish_reason tool_calls all_failed) :
      (failureMark key event).next c ≤ DUPLICATE_FORCE_TEXT_THRESHOLD := by
    have hlt := h.lt (hanswered.unforced _ _ _ hevent)
    rw [hevent, failureMark]
    split
    · exact hlt
    · exact Nat.zero_le _
  have hkept := hanswered.kept
  cases hanswered.handled with
  | replied => exact ⟨Nat.zero_le _, nofun⟩
  | @nudged next _ hkept' _ htracker =>
    refine ⟨h.below, fun state' hnext => ?_⟩
    obtain rfl := Sum.inr.inj hnext
    exact ⟨htracker ▸ h.tracked, h.below,
      fun hcount => hkept'.force_text (hkept.force_text (h.forced (htracker ▸ hcount)))⟩
  | @discarded tool_calls next hkept' _ htracker =>
    refine ⟨h.below, fun state' hnext => ?_⟩
    obtain rfl := Sum.inr.inj hnext
    exact ⟨htracker ▸ h.tracked, h.below,
      fun hcount => hkept'.force_text (hkept.force_text (h.forced (htracker ▸ hcount)))⟩
  | ended => exact ⟨hle _ _ _ rfl, nofun⟩
  | @executed finish_reason tool_calls all_failed next _ _ _ htracker hforced =>
    refine ⟨hle _ _ _ rfl, fun state' hnext => ?_⟩
    obtain rfl := Sum.inr.inj hnext
    refine ⟨?_, hle _ _ _ rfl, hforced⟩
    rw [failureMark, htracker]
    split
    case isTrue hfails =>
      obtain ⟨hkey, rfl⟩ := hfails
      exact .inr (h.tracked_succ hkey)
    case isFalse => exact .inl rfl

/-- The nudges in a row are counted by the loop. -/
structure NudgeInv (config : AgenticLoopConfig) (c : ℕ) (state : LoopState F) : Prop where
  counted : c = state.consecutive_tool_intent_nudges
  below : c ≤ config.max_tool_intent_nudges

theorem nudgeInv_step {c : ℕ} {state : LoopState F} {ctx : ReasoningContext F}
    {event : LoopEvent F} (h : NudgeInv config c state) {next : Continuation F}
    (hanswered : Answered host config state ctx event next) :
    (nudgeMark event).next c ≤ config.max_tool_intent_nudges ∧
      ∀ state', next = .inr state' → NudgeInv config ((nudgeMark event).next c) state' := by
  cases hanswered.handled with
  | replied => exact ⟨Nat.zero_le _, nofun⟩
  | @nudged next hlt _ hnudges _ =>
    have hle : c + 1 ≤ config.max_tool_intent_nudges := h.counted ▸ hlt
    refine ⟨hle, fun state' hnext => ?_⟩
    obtain rfl := Sum.inr.inj hnext
    exact ⟨(congrArg Nat.succ h.counted).trans hnudges.symm, hle⟩
  | @discarded tool_calls next _ hnudges _ =>
    refine ⟨h.below, fun state' hnext => ?_⟩
    obtain rfl := Sum.inr.inj hnext
    exact ⟨h.counted.trans hnudges.symm, h.below⟩
  | ended => exact ⟨Nat.zero_le _, nofun⟩
  | @executed finish_reason tool_calls all_failed next _ _ hnudges _ _ =>
    refine ⟨Nat.zero_le _, fun state' hnext => ?_⟩
    obtain rfl := Sum.inr.inj hnext
    exact ⟨hnudges.symm, Nat.zero_le _⟩

theorem Handled.not_truncated {state : LoopState F} {ctx : ReasoningContext F}
    {event : LoopEvent F} {next : Continuation F} (h : Handled host config state ctx event next)
    {finish_reason : FinishReason} {tool_calls : List ToolCall} {all_failed : Bool}
    (hevent : event = .executed finish_reason tool_calls all_failed) : finish_reason ≠ .length := by
  cases h with
  | replied | nudged | discarded => cases hevent
  | ended hreason | executed hreason =>
    obtain ⟨rfl, -⟩ := LoopEvent.executed.inj hevent
    exact hreason

/-- No batch of a truncated response is executed. -/
theorem executed_not_truncated (rounds : ℕ → Round F) (n : ℕ) {i : ℕ} (hi : i ≠ 0)
    (state : LoopState F) {finish_reason : FinishReason} {tool_calls : List ToolCall}
    {all_failed : Bool} (h : .executed finish_reason tool_calls all_failed ∈
      (iterations host delegate config rounds n i state).1) : finish_reason ≠ .length := by
  have hcalled (i : ℕ) (state : LoopState F) : .executed finish_reason tool_calls all_failed ∉
      calledIn host delegate (rounds i) i state := fun hmem =>
    forall_calledIn host delegate (P := fun e => e ≠ .executed finish_reason tool_calls all_failed)
      (by simp) (by simp) _ hmem rfl
  refine iterations_induction host delegate config
    (P := fun _ _ _ events => .executed finish_reason tool_calls all_failed ∈ events →
      finish_reason ≠ .length)
    (fun _ _ hmem => absurd hmem List.not_mem_nil) ?_ ?_ ?_ n hi state h
  · intro _ i state _ _ _ hmem
    exact absurd hmem (hcalled i state)
  · intro _ i state ctx event _ _ _ hanswered hmem
    obtain hmem | hmem := List.mem_append.mp hmem
    · exact absurd hmem (hcalled i state)
    · exact hanswered.handled.not_truncated (List.mem_singleton.mp hmem).symm
  · intro _ i state ctx event state' more _ _ hanswered ih hmem
    simp only [List.mem_append, List.mem_singleton] at hmem
    obtain (hmem | hmem) | hmem := hmem
    · exact absurd hmem (hcalled i state)
    · exact hanswered.handled.not_truncated hmem.symm
    · exact ih hmem

theorem iteration?_calledIn (round : Round F) (i : ℕ) (state : LoopState F) :
    (calledIn host delegate round i state).filterMap LoopEvent.iteration? = [i] := by
  have hrequests : ((requestsOf host delegate round i state).map (.requested i)).filterMap
      (LoopEvent.iteration? (F := F)) = [] :=
    List.filterMap_eq_nil_iff.mpr (List.forall_mem_map.mpr fun _ _ => rfl)
  exact congrArg (i :: ·) hrequests

theorem Handled.iteration? {state : LoopState F} {ctx : ReasoningContext F}
    {event : LoopEvent F} {next : Continuation F} (h : Handled host config state ctx event next) :
    [event].filterMap LoopEvent.iteration? = [] := by
  cases h <;> rfl

/-- The iterations are counted up, as long as there are any. -/
theorem iterations_counted (rounds : ℕ → Round F) (n : ℕ) {i : ℕ} (hi : i ≠ 0)
    (state : LoopState F) :
    ∃ m ≤ n, (iterations host delegate config rounds n i state).1.filterMap LoopEvent.iteration? =
      List.range' i m := by
  refine iterations_induction host delegate config
    (P := fun n i _ events => ∃ m ≤ n, events.filterMap LoopEvent.iteration? = List.range' i m)
    (fun _ _ => ⟨0, le_rfl, rfl⟩) ?_ ?_ ?_ n hi state
  · intro n i state _ _ _
    exact ⟨1, Nat.succ_pos n, iteration?_calledIn (rounds i) i state⟩
  · intro n i state ctx event _ _ _ hanswered
    refine ⟨1, Nat.succ_pos n, ?_⟩
    rw [List.filterMap_append, iteration?_calledIn, hanswered.handled.iteration?]
    rfl
  · rintro n i state ctx event state' more _ _ hanswered ⟨m, hm, hmore⟩
    refine ⟨m + 1, Nat.succ_le_succ hm, ?_⟩
    rw [List.filterMap_append, List.filterMap_append, iteration?_calledIn,
      hanswered.handled.iteration?, hmore]
    rfl

/-- A condition on every iteration that is begun, and on the state before it. -/
def EachRound (host : LoopHost F) (delegate : ChatDelegate) (config : AgenticLoopConfig)
    (rounds : ℕ → Round F) (P : ℕ → Round F → LoopState F → Prop) : ℕ → ℕ → LoopState F → Prop
  | 0, _, _ => True
  | n + 1, i, state =>
    P i (rounds i) state ∧
      match (iterate host delegate config (rounds i) i state).2 with
      | .inl _ => True
      | .inr state' => EachRound host delegate config rounds P n (i + 1) state'

theorem requested_mem_calledIn {round : Round F} {i j : ℕ} {state : LoopState F}
    {request : Request F} : .requested j request ∈ calledIn host delegate round i state ↔
      i = j ∧ request ∈ requestsOf host delegate round i state := by
  simp [calledIn, and_comm]

/-- What holds of every request of a run, iteration by iteration. -/
theorem forall_requested_iff {rounds : ℕ → Round F} {Ok : ℕ → Request F → Prop}
    {Inv : LoopState F → Prop} {P : ℕ → Round F → LoopState F → Prop}
    (hinv : ∀ state ctx event state', Inv state →
      Answered host config state ctx event (.inr state') → Inv state')
    (hround : ∀ i state, i ≠ 0 → Inv state →
      ((∀ request ∈ requestsOf host delegate (rounds i) i state, Ok i request) ↔
        P i (rounds i) state))
    (n : ℕ) {i : ℕ} (hi : i ≠ 0) {state : LoopState F} (h : Inv state) :
    (∀ j request, .requested j request ∈
        (iterations host delegate config rounds n i state).1 → Ok j request) ↔
      EachRound host delegate config rounds P n i state := by
  have hcalled (i : ℕ) (state : LoopState F) (hi : i ≠ 0) (h : Inv state) :
      (∀ j request, .requested j request ∈ calledIn host delegate (rounds i) i state →
        Ok j request) ↔ P i (rounds i) state := by
    rw [← hround i state hi h]
    constructor
    · exact fun hok request hmem => hok i request (requested_mem_calledIn.mpr ⟨rfl, hmem⟩)
    · intro hok j request hmem
      obtain ⟨rfl, hrequest⟩ := requested_mem_calledIn.mp hmem
      exact hok request hrequest
  -- the handling of an answer asks for nothing
  have hevent {state : LoopState F} {ctx : ReasoningContext F} {event : LoopEvent F}
      {next : Continuation F} (h : Handled host config state ctx event next) (j : ℕ)
      (request : Request F) : .requested j request ≠ event := by
    cases h <;> simp
  refine iterations_induction host delegate config
    (P := fun n i state events => Inv state → ((∀ j request, .requested j request ∈ events →
      Ok j request) ↔ EachRound host delegate config rounds P n i state))
    (fun _ _ _ => iff_of_true (fun _ _ hmem => absurd hmem List.not_mem_nil) trivial)
    ?_ ?_ ?_ n hi state h
  · intro n i state result hi heq h
    rw [hcalled i state hi h, EachRound, heq]
    exact (iff_of_eq (and_true _)).symm
  · intro n i state ctx event result hi heq hanswered h
    rw [EachRound, heq, ← hcalled i state hi h]
    simp [hevent hanswered.handled]
  · intro n i state ctx event state' more hi heq hanswered ih h
    have hmore := ih (hinv state ctx event state' h hanswered)
    rw [EachRound, heq, ← hcalled i state hi h]
    dsimp only
    rw [← hmore]
    simp only [List.mem_append, List.mem_singleton, hevent hanswered.handled, or_false, or_imp,
      forall_and]

end

/-! ### The exact condition -/

/-- An iteration that asks the model does so with what the settings resolve to, which is nothing,
and from the limit on it finds the settings readable, or no tools to be offered. -/
structure RoundOk (host : LoopHost F) (start : TurnStart) (i : ℕ) (round : Round F)
    (ctx : ReasoningContext F) : Prop where
  model : start.resolvedModel = none
  temperature : host.clamp ((start.resolvedTemperature host).getD host.default_temperature) =
    host.clamp host.default_temperature
  tools : start.max_tool_iterations ≤ i → start.store = none ∨ round.settings_readable = true ∨
    ctx.force_text = true ∨ ctx.available_tools = []

/-- No overrides so far. -/
def Plain (state : LoopState F) : Prop :=
  state.ctx.model_override = none ∧ state.ctx.temperature = none

theorem plain_next {host : LoopHost F} {config : AgenticLoopConfig} {state state' : LoopState F}
    {ctx : ReasoningContext F} {event : LoopEvent F} (h : Plain state)
    (hanswered : Answered host config state ctx event (.inr state')) : Plain state' := by
  have hctx : ctx.model_override = none ∧ ctx.temperature = none :=
    ⟨hanswered.kept.model_override.trans h.1, hanswered.kept.temperature.trans h.2⟩
  cases hanswered.handled with
  | nudged _ hkept | discarded hkept | executed _ hkept =>
    exact ⟨hkept.model_override.trans hctx.1, hkept.temperature.trans hctx.2⟩

/-- What is offered from the limit on. -/
theorem effectiveTools_beforeLlmCall (host : LoopHost F) (delegate : ChatDelegate)
    (round : Round F) {i : ℕ} (hi : delegate.force_text_at ≤ i) (ctx : ReasoningContext F) :
    (beforeLlmCall host delegate round i ctx).effectiveTools = [] ↔
      delegate.store = none ∨ round.settings_readable = true ∨ ctx.force_text = true ∨
        ctx.available_tools = [] := by
  have hnudge (c : Prop) [Decidable c] :
      (if c then ctx.push (.system LIMIT_NUDGE) else ctx).effectiveTools = ctx.effectiveTools := by
    split <;> rfl
  have hforced : (beforeLlmCall host delegate round i ctx).effectiveTools = [] ↔
      toolPermissions host delegate round ≠ none ∨ ctx.effectiveTools = [] := by
    rw [beforeLlmCall]
    cases toolPermissions host delegate round with
    | none => simp [hnudge]
    | some tool_permissions => simp [ReasoningContext.effectiveTools, hi]
  have hpermissions : toolPermissions host delegate round ≠ none ↔
      delegate.store = none ∨ round.settings_readable = true := by
    rw [toolPermissions]
    cases delegate.store <;> simp
  have htools : ctx.effectiveTools = [] ↔ ctx.force_text = true ∨ ctx.available_tools = [] := by
    rw [ReasoningContext.effectiveTools]
    cases ctx.force_text <;> simp
  rw [hforced, hpermissions, htools, or_assoc]

theorem requestsOf_ok_iff (host : LoopHost F) (start : TurnStart) (round : Round F) {i : ℕ}
    (hi : i ≠ 0) {state : LoopState F} (h : Plain state) :
    (∀ request ∈ requestsOf host (start.delegate host) round i state,
        RequestOk host start i request) ↔
      (round.interrupted = false → round.cost_allowed = true →
        RoundOk host start i round state.ctx) := by
  rw [requestsOf]
  cases round.interrupted with
  | true => simp
  | false =>
    cases hcost : round.cost_allowed with
    | false => simp [callLlm, hcost]
    | true =>
      have hkept : Kept state.ctx (beforeLlmCall host (start.delegate host) round i state.ctx) :=
        kept_beforeLlmCall round i state.ctx
      have hmodel := hkept.model_override.trans h.1
      have htemperature := hkept.temperature.trans h.2
      obtain ⟨⟨first, hfirst⟩, hall⟩ := callLlm_requests (start.delegate host) hi hcost
        (beforeLlmCall host (start.delegate host) round i state.ctx)
      rw [hmodel, htemperature] at hall
      have htools (hle : start.max_tool_iterations ≤ i) :=
        effectiveTools_beforeLlmCall host (start.delegate host) round hle state.ctx
      constructor
      · intro hok _ _
        obtain ⟨htools', hmodel', htemperature'⟩ := hall first hfirst
        have hgood := hok first hfirst
        refine ⟨hgood.model.symm.trans hmodel', hgood.temperature.symm.trans htemperature',
          fun hle => (htools hle).mp (htools'.symm.trans (hgood.tools hle))⟩
      · intro hok request hrequest
        obtain ⟨htools', hmodel', htemperature'⟩ := hall request hrequest
        have hgood := hok rfl rfl
        exact ⟨hmodel'.trans hgood.model.symm, htemperature'.trans hgood.temperature.symm,
          fun hle => htools'.trans ((htools hle).mpr (hgood.tools hle))⟩

/-- Every iteration that asks the model is in order. -/
def TurnStart.InOrder (host : LoopHost F) (start : TurnStart) (rounds : ℕ → Round F) : Prop :=
  EachRound host (start.delegate host) start.config rounds
    (fun i round state => round.interrupted = false → round.cost_allowed = true →
      RoundOk host start i round state.ctx)
    start.config.max_iterations 1 ⟨start.context host, 0, 0, .new⟩

/-- A turn keeps its limits exactly when every iteration that asks the model is in order. -/
theorem turnLimits_iff (host : LoopHost F) (start : TurnStart) (rounds : ℕ → Round F) :
    TurnLimits host start (start.events host rounds) ↔ start.InOrder host rounds := by
  have hrequests : (∀ i request, .requested i request ∈ start.events host rounds →
      RequestOk host start i request) ↔ start.InOrder host rounds :=
    forall_requested_iff (fun _ _ _ _ => plain_next)
      (fun i state hi h => requestsOf_ok_iff host start (rounds i) hi h) _ one_ne_zero
      (show Plain ⟨start.context host, 0, 0, .new⟩ from ⟨rfl, rfl⟩)
  constructor
  · exact fun h => hrequests.mp h.requests
  · intro h
    refine ⟨hrequests.mpr h, fun _ _ _ => executed_not_truncated rounds _ one_ne_zero _, ?_, ?_,
      iterations_counted rounds _ one_ne_zero _⟩
    · intro key stretch hstretch hpass
      have hwithin : Within (failureMark key) DUPLICATE_FORCE_TEXT_THRESHOLD 0
          (start.events host rounds) :=
        within_iterations (fun _ => rfl) (fun _ _ => rfl)
          (fun _ _ (hinv : FailureInv host key _ _) => hinv.below)
          (fun _ _ _ _ _ hinv => failureInv_step hinv) rounds _ one_ne_zero
          ⟨.inl rfl, Nat.zero_le _, fun hle => absurd hle (Nat.not_succ_le_zero 4)⟩
      exact hwithin.countP_le hstretch hpass
    · intro stretch hstretch hpass
      have hwithin : Within nudgeMark start.config.max_tool_intent_nudges 0
          (start.events host rounds) :=
        within_iterations (fun _ => rfl) (fun _ _ => rfl)
          (fun _ _ (hinv : NudgeInv start.config _ _) => hinv.below)
          (fun _ _ _ _ _ hinv => nudgeInv_step hinv) rounds _ one_ne_zero
          ⟨rfl, Nat.zero_le _⟩
      exact hwithin.countP_le hstretch hpass

/-- A host without tools, whose only temperature is the default. -/
def plainLoopHost : LoopHost Unit where
  hash _ := 0
  llm_signals_tool_intent _ := false
  clean text := text
  recover_tool_calls _ _ := []
  strip_internal_tool_call_text text := text
  tool_risk_defaults _ := none
  tool_permissions _ _ := none
  build_system_prompt _ := []
  as_f32 _ := none
  clamp _ := ()
  default_temperature := ()

/-- A user who has selected a model. -/
def modelSelected : TurnStart where
  messages := [.user "hi".toList]
  initial_tool_defs := []
  max_tool_iterations := 1
  store := some
    ⟨fun key => if key = "selected_model" then some (.string "gpt") else none, fun _ => none⟩

/-- A model that answers at once. -/
def answersHello : Round Unit where
  interrupted := false
  tool_defs := []
  settings_readable := true
  cost_allowed := true
  complete_with_tools _ _ := .error (.emptyResponse "")
  complete _ _ := .ok ⟨"hello".toList, .stop⟩
  fate _ _ := .needsApproval
  awaiting_token := false

/-- The model of the settings is not asked. -/
theorem selected_model_ignored :
    ¬TurnLimits plainLoopHost modelSelected
      (modelSelected.events plainLoopHost fun _ => answersHello) := by
  intro h
  have hrequest : .requested 1 ((beforeLlmCall plainLoopHost (modelSelected.delegate plainLoopHost)
      answersHello 1 (modelSelected.context plainLoopHost)).request plainLoopHost) ∈
      modelSelected.events plainLoopHost fun _ => answersHello :=
    List.mem_cons_of_mem _ List.mem_cons_self
  have hmodel : none = modelSelected.resolvedModel := (h.requests _ _ hrequest).model
  exact absurd hmodel (by decide)

end T3Claw.Agent
