import T3Claw.Data.Slots
import T3Claw.Executor.Settlement

/-!
# A batch and its tasks

Phases 2 and 3 of the two batch paths with the tasks taken apart: each runnable call gets a
task of its own, the tasks come back in any order, each finds the executor as it is by then,
and a task that panics brings no result. The results are written to a slot for each call and
read off in call order.

The structured path leaves out a slot that nothing was written to, the orchestrator path
answers it with an error. A single runnable call has no task: it is executed in place.
-/

namespace T3Claw

/-- How the tasks of a batch went: the executor as the task of an index found it, the tasks
that panicked, and the order in which `join_next` returned them. -/
structure BatchRun where
  executor : ℕ → EffectExecutor
  panics : ℕ → Bool
  joined : List ℕ

/-- What the call at an index is executed with. -/
def BatchRun.env (run : BatchRun) (env : DispatchEnv) (i : ℕ) : DispatchEnv :=
  { env with effects := run.executor i }

/-- `runnable_indices`. -/
def runnableIndices : ℕ → List Settled → List ℕ
  | _, [] => []
  | i, .approved _ :: outcomes => i :: runnableIndices (i + 1) outcomes
  | i, _ :: outcomes => runnableIndices (i + 1) outcomes

/-- The slot of a call before Phase 2: written when preflight answered the call. -/
def preflightSlot {ρ : Type} (slot : ActionCall → Settled → ρ) (call : ActionCall) :
    Settled → Option ρ
  | .approved _ => none
  | outcome => some (slot call outcome)

/-- The slots before Phase 2. -/
def preflightSlots {ρ : Type} (slot : ActionCall → Settled → ρ) (calls : List ActionCall)
    (outcomes : List Settled) : List (Option ρ) :=
  (calls.zip outcomes).map fun s => preflightSlot slot s.1 s.2

section Phases

variable {ρ : Type} (slot : DispatchEnv → ActionCall → Settled → ρ) (env : DispatchEnv)
  (run : BatchRun) (calls : List ActionCall) (outcomes : List Settled)

/-- What the execution of the call at an index puts in its slot. -/
def executedSlot (i : ℕ) : Option ρ :=
  match calls[i]?, outcomes[i]? with
  | some call, some (.approved lease) => some (slot (run.env env i) call (.approved lease))
  | _, _ => none

/-- The refund after the execution of the call at an index. -/
def refundAt (m : LeaseManager) (i : ℕ) : LeaseManager :=
  match calls[i]?, outcomes[i]? with
  | some call, some (.approved lease) =>
    if interruptedCallNeedsRefund ((run.env env i).execute call lease).1 then m.refund lease.id
    else m
  | _, _ => m

/-- Phase 2: the slots and the leases it leaves. -/
def executePhase (m : LeaseManager) : List (Option ρ) × LeaseManager :=
  let slots := preflightSlots (slot env) calls outcomes
  match runnableIndices 0 outcomes with
  | [] => (slots, m)
  | [i] =>
    (Slots.fill (executedSlot slot env run calls outcomes) [i] slots,
      refundAt env run calls outcomes m i)
  | _ =>
    (Slots.fill (fun i => if run.panics i then none else executedSlot slot env run calls outcomes i)
        run.joined slots,
      (run.joined.filter fun i => !run.panics i).foldl (refundAt env run calls outcomes) m)

end Phases

/-- `structured.rs::execute_action_calls`, with its tasks. -/
def executeActionCallsJoined (env : DispatchEnv) (serde : Serde) (caps : List PolicyRule)
    (clock : ℕ → Readings) (run : BatchRun) (calls : List ActionCall) (leases : LeaseManager) :
    Dispatched (Except EngineError ActionBatchResult) :=
  match preflightAll (structuredGate env caps clock) 0 calls leases with
  | .ready outcomes m =>
    let (slots, m) := executePhase (structuredSlot · serde) env run calls outcomes m
    let filled := (calls.zip slots).filterMap fun s => s.2.map (Prod.mk s.1)
    ⟨.ok ⟨filled.map (·.2.1), filled.map (·.2.2),
        filled.findSome? fun s => slotInterrupt serde s.1 s.2⟩,
      m, executions 0 calls outcomes⟩
  -- Phase 1 returned early
  | _ => executeActionCalls env serde caps clock calls leases

/-- The answer of the orchestrator path for a slot that nothing was written to. -/
def emptySlotJson : Json :=
  .obj [("is_error", .bool true), ("output", errorJson "execution slot empty")]

/-- `orchestrator.rs::handle_execute_actions_parallel`, with its tasks. -/
def handleExecuteActionsParallelJoined (env : DispatchEnv) (serde : Serde)
    (clock : ℕ → Readings) (run : BatchRun) (calls : List ActionCall) (leases : LeaseManager) :
    Dispatched (Json × List EventKind) :=
  match preflightAll (orchestratorGate env clock) 0 calls leases with
  | .ready outcomes m =>
    let (slots, m) := executePhase (orchestratorSlot · serde) env run calls outcomes m
    ⟨(.arr (slots.map fun s => (s.map Prod.fst).getD emptySlotJson),
        slots.filterMap (·.map Prod.snd)),
      m, executions 0 calls outcomes⟩
  | _ => handleExecuteActionsParallel env serde clock calls leases

/-- The tasks of the batch are joined once each. -/
def BatchRun.Joins (run : BatchRun) (outcomes : List Settled) : Prop :=
  run.joined.Perm (runnableIndices 0 outcomes)

/-- The call at the index had a task, and the task panicked. -/
def BatchRun.Lost (run : BatchRun) (outcomes : List Settled) (i : ℕ) : Prop :=
  2 ≤ (runnableIndices 0 outcomes).length ∧ i ∈ runnableIndices 0 outcomes ∧ run.panics i = true

instance (run : BatchRun) (outcomes : List Settled) (i : ℕ) : Decidable (run.Lost outcomes i) :=
  inferInstanceAs (Decidable (_ ∧ _ ∧ _))

/-! ### The slots after Phase 2 -/

theorem mem_runnableIndices {i j : ℕ} {outcomes : List Settled} :
    j ∈ runnableIndices i outcomes
      ↔ i ≤ j ∧ ∃ lease, outcomes[j - i]? = some (.approved lease) := by
  induction outcomes generalizing i with
  | nil => simp [runnableIndices]
  | cons outcome outcomes ih =>
    have htail : j ∈ runnableIndices (i + 1) outcomes ↔
        i < j ∧ ∃ lease, (outcome :: outcomes)[j - i]? = some (.approved lease) := by
      rw [ih]
      refine and_congr_right fun hlt => ?_
      obtain ⟨d, rfl⟩ := Nat.exists_eq_add_of_lt hlt
      rw [show i + d + 1 - (i + 1) = d by omega, show i + d + 1 - i = d + 1 by omega,
        List.getElem?_cons_succ]
    have hskip : (∀ lease, outcome ≠ .approved lease) →
        (j ∈ runnableIndices (i + 1) outcomes ↔
          i ≤ j ∧ ∃ lease, (outcome :: outcomes)[j - i]? = some (.approved lease)) := by
      intro hne
      rw [htail]
      refine ⟨fun h => ⟨h.1.le, h.2⟩, fun ⟨hle, lease, hl⟩ => ⟨?_, lease, hl⟩⟩
      refine lt_of_le_of_ne hle fun hij => ?_
      rw [hij, Nat.sub_self, List.getElem?_cons_zero] at hl
      exact hne lease (Option.some.inj hl)
    cases outcome with
    | approved lease =>
      rw [runnableIndices, List.mem_cons, htail]
      constructor
      · rintro (rfl | h)
        · exact ⟨le_rfl, lease, by simp⟩
        · exact ⟨h.1.le, h.2⟩
      · rintro ⟨hle, h⟩
        rcases hle.eq_or_lt with rfl | hlt
        · exact .inl rfl
        · exact .inr ⟨hlt, h⟩
    | noLease => exact hskip nofun
    | denied reason => exact hskip nofun
    | notConsumed e => exact hskip nofun

section Slots

variable {ρ : Type} {slot : DispatchEnv → ActionCall → Settled → ρ} {env : DispatchEnv}
  {run : BatchRun} {calls : List ActionCall} {outcomes : List Settled} {m : LeaseManager}

theorem executedSlot_eq_none {i : ℕ} (h : i ∉ runnableIndices 0 outcomes) :
    executedSlot slot env run calls outcomes i = none := by
  rw [executedSlot]
  split
  case h_1 hc ho => exact absurd (mem_runnableIndices.mpr ⟨Nat.zero_le i, _, ho⟩) h
  case h_2 => rfl

/-- Whatever Phase 2 did, each runnable call that was not lost has written its slot. -/
theorem executePhase_slots (hjoins : run.Joins outcomes) :
    ∃ order, (∀ i, i ∈ order ↔ i ∈ runnableIndices 0 outcomes) ∧
      (executePhase slot env run calls outcomes m).1
        = Slots.fill (fun i => if run.Lost outcomes i then none
            else executedSlot slot env run calls outcomes i) order
          (preflightSlots (slot env) calls outcomes) := by
  rw [executePhase]
  split
  case h_1 hnone => exact ⟨[], fun i => by rw [hnone], rfl⟩
  case h_2 j hone =>
    refine ⟨[j], fun i => by rw [hone], ?_⟩
    have hnot : ∀ i, ¬ run.Lost outcomes i := fun i hlost => by
      have := hlost.1
      rw [hone, List.length_singleton] at this
      omega
    simp only [hnot, if_false]
  case h_3 hne hne' =>
    refine ⟨run.joined, fun i => hjoins.mem_iff, ?_⟩
    have htwo : 2 ≤ (runnableIndices 0 outcomes).length := by
      match h : runnableIndices 0 outcomes with
      | [] => exact absurd h hne
      | [j] => exact absurd h (hne' j)
      | _ :: _ :: _ => exact Nat.le_add_left 2 _
    have hvalue : (fun i => if run.panics i then none
          else executedSlot slot env run calls outcomes i)
        = fun i => if run.Lost outcomes i then none
          else executedSlot slot env run calls outcomes i := by
      funext i
      by_cases hi : i ∈ runnableIndices 0 outcomes
      · simp [BatchRun.Lost, htwo, hi]
      · rw [executedSlot_eq_none hi, ite_self, ite_self]
    rw [← hvalue]

theorem getElem?_preflightSlots {i : ℕ} {call : ActionCall} {outcome : Settled}
    {slot : ActionCall → Settled → ρ} (hcall : calls[i]? = some call)
    (houtcome : outcomes[i]? = some outcome) :
    (preflightSlots slot calls outcomes)[i]? = some (preflightSlot slot call outcome) := by
  have hzip : (calls.zip outcomes)[i]? = some (call, outcome) :=
    List.getElem?_zip_eq_some.mpr ⟨hcall, houtcome⟩
  rw [preflightSlots, List.getElem?_map, hzip, Option.map_some]

/-- The slot of a call after Phase 2. -/
theorem getElem?_executePhase {i : ℕ} {call : ActionCall} {outcome : Settled}
    (hjoins : run.Joins outcomes)
    (hslot : ∀ outcome, (∀ lease, outcome ≠ .approved lease) →
      slot (run.env env i) call outcome = slot env call outcome)
    (hcall : calls[i]? = some call) (houtcome : outcomes[i]? = some outcome) :
    (executePhase slot env run calls outcomes m).1[i]?
      = some (if run.Lost outcomes i then none
          else some (slot (run.env env i) call outcome)) := by
  obtain ⟨order, horder, heq⟩ : ∃ order, _ ∧ (executePhase slot env run calls outcomes m).1 = _ :=
    executePhase_slots hjoins
  rw [heq, Slots.getElem?_fill, getElem?_preflightSlots hcall houtcome, Option.map_some]
  have hmem : i ∈ order ↔ ∃ lease, outcome = .approved lease := by
    rw [horder, mem_runnableIndices, Nat.sub_zero, houtcome]
    simp
  by_cases happroved : ∃ lease, outcome = .approved lease
  · rw [if_pos (hmem.mpr happroved)]
    obtain ⟨lease, rfl⟩ := happroved
    rw [preflightSlot, Option.or_none, executedSlot, hcall, houtcome]
  · rw [if_neg (mt hmem.mp happroved)]
    have hnot : ¬ run.Lost outcomes i := fun hlost =>
      happroved (hmem.mp ((horder i).mpr hlost.2.1))
    have hne : ∀ lease, outcome ≠ .approved lease := fun lease h => happroved ⟨lease, h⟩
    rw [if_neg hnot, hslot outcome hne]
    cases outcome with
    | approved lease => exact absurd rfl (hne lease)
    | noLease => rfl
    | denied reason => rfl
    | notConsumed e => rfl

theorem length_executePhase (hjoins : run.Joins outcomes)
    (hlength : outcomes.length = calls.length) :
    (executePhase slot env run calls outcomes m).1.length = calls.length := by
  obtain ⟨order, -, heq⟩ : ∃ order, _ ∧ (executePhase slot env run calls outcomes m).1 = _ :=
    executePhase_slots hjoins
  rw [heq, Slots.length_fill, preflightSlots, List.length_map, List.length_zip, hlength,
    Nat.min_self]

end Slots

/-! ### The pause of the batch -/

/-- The pause an executor's answer stands for, on the parameters of the call. -/
def pauseOf (serde : Serde) (call : ActionCall) : Except EngineError ActionResult → Option GatePause
  | .error (.gatePaused gate_name action_name call_id _ resume_kind resume_output paused_lease) =>
    some
      { gate_name, action_name, call_id
        parameters := call.parameters
        resume_kind
        resume_output := some (resume_output.getD .null)
        paused_lease := serde.leaseOfJson? ((paused_lease.map serde.leaseToJson).getD .null) }
  | _ => none

/-- The pause of the call at an index: it was executed, its task came back, and what it
brought is a pause. -/
def taskPause (env : DispatchEnv) (serde : Serde) (run : BatchRun) (calls : List ActionCall)
    (outcomes : List Settled) (i : ℕ) : Option GatePause :=
  match calls[i]?, outcomes[i]? with
  | some call, some (.approved lease) =>
    if run.Lost outcomes i then none
    else pauseOf serde call ((run.env env i).execute call lease).1
  | _, _ => none

theorem slotInterrupt_classifyExecResult (env : DispatchEnv) (serde : Serde) (call : ActionCall)
    (result : Except EngineError ActionResult) (elapsed : ℕ) :
    slotInterrupt serde call (classifyExecResult env serde call result elapsed)
      = pauseOf serde call result := by
  cases result with
  | ok r =>
    have hnone : pauseOf serde call (.ok r) = none := rfl
    rw [classifyExecResult, hnone, resultEvent]
    cases r.is_error with
    | true => rfl
    | false => rfl
  | error e =>
    cases e with
    | gatePaused gate_name action_name call_id parameters resume_kind resume_output lease =>
      have hkind := ResumeKind.ofJson?_toJson resume_kind
      simp [classifyExecResult, slotInterrupt, pauseOf, Json.get?, Json.asStr?, hkind]
    | _ => rfl

section Structured

variable {env : DispatchEnv} {serde : Serde} {run : BatchRun} {calls : List ActionCall}
  {outcomes : List Settled} {m : LeaseManager}

/-- A call that preflight answered does not look at the executor. -/
theorem structuredSlot_env {i : ℕ} {call : ActionCall} {outcome : Settled}
    (hne : ∀ lease, outcome ≠ .approved lease) :
    structuredSlot (run.env env i) serde call outcome = structuredSlot env serde call outcome := by
  cases outcome with
  | approved lease => exact absurd rfl (hne lease)
  | noLease => rfl
  | denied reason => rfl
  | notConsumed e => rfl

theorem orchestratorSlot_env {i : ℕ} {call : ActionCall} {outcome : Settled}
    (hne : ∀ lease, outcome ≠ .approved lease) :
    orchestratorSlot (run.env env i) serde call outcome
      = orchestratorSlot env serde call outcome := by
  cases outcome with
  | approved lease => exact absurd rfl (hne lease)
  | noLease => rfl
  | denied reason => rfl
  | notConsumed e => rfl

/-- Every result of the structured path carries the id of its call. -/
theorem structuredSlot_call_id (env : DispatchEnv) (serde : Serde) (call : ActionCall)
    (outcome : Settled) : (structuredSlot env serde call outcome).1.call_id = call.id := by
  cases outcome with
  | approved lease =>
    rw [structuredSlot]
    cases hresult : (env.execute call lease).1 with
    | ok r => simp [hresult, classifyExecResult]
    | error e => cases e <;> simp [hresult, classifyExecResult]
  | noLease => rfl
  | denied reason => rfl
  | notConsumed e => rfl

/-- The slots of the structured path that Phase 3 reads, each with its call. -/
def filledSlots (env : DispatchEnv) (serde : Serde) (run : BatchRun) (calls : List ActionCall)
    (outcomes : List Settled) (m : LeaseManager) : List (ActionCall × ActionResult × EventKind) :=
  (calls.zip (executePhase (structuredSlot · serde) env run calls outcomes m).1).filterMap
    fun s => s.2.map (Prod.mk s.1)

theorem executeActionCallsJoined_ready {caps : List PolicyRule} {clock : ℕ → Readings}
    {leases : LeaseManager}
    (hready : preflightAll (structuredGate env caps clock) 0 calls leases = .ready outcomes m) :
    (executeActionCallsJoined env serde caps clock run calls leases).response
      = .ok ⟨(filledSlots env serde run calls outcomes m).map (·.2.1),
          (filledSlots env serde run calls outcomes m).map (·.2.2),
          (filledSlots env serde run calls outcomes m).findSome? fun s =>
            slotInterrupt serde s.1 s.2⟩ := by
  rw [executeActionCallsJoined, hready]
  rfl

/-- What the structured path reads in the slot of the call at an index: nothing when the call was
lost. -/
def survivor (env : DispatchEnv) (serde : Serde) (run : BatchRun) (calls : List ActionCall)
    (outcomes : List Settled) (i : ℕ) : Option (ActionCall × ActionResult × EventKind) :=
  (calls.zip outcomes)[i]?.bind fun s =>
    if run.Lost outcomes i then none
    else some (s.1, structuredSlot (run.env env i) serde s.1 s.2)

/-- Each call that is not lost has its result, in call order. -/
theorem filledSlots_eq (hjoins : run.Joins outcomes) (hlength : outcomes.length = calls.length) :
    filledSlots env serde run calls outcomes m
      = (List.range calls.length).filterMap (survivor env serde run calls outcomes) := by
  have hlen : (executePhase (structuredSlot · serde) env run calls outcomes m).1.length
      = calls.length := length_executePhase hjoins hlength
  rw [filledSlots, Slots.filterMap_eq_range, List.length_zip, hlen, Nat.min_self]
  refine List.filterMap_congr fun i hi => ?_
  have hcall := List.getElem?_eq_getElem (List.mem_range.mp hi)
  have houtcome := List.getElem?_eq_getElem (l := outcomes) (hlength ▸ List.mem_range.mp hi)
  have hget : (executePhase (structuredSlot · serde) env run calls outcomes m).1[i]? = _ :=
    getElem?_executePhase hjoins (fun _ => structuredSlot_env) hcall houtcome
  rw [survivor, List.getElem?_zip_eq_some (z := (_, _)) |>.mpr ⟨hcall, houtcome⟩]
  by_cases hlost : run.Lost outcomes i
  · rw [if_pos hlost] at hget
    rw [List.getElem?_zip_eq_some (z := (_, none)) |>.mpr ⟨hcall, hget⟩]
    simp [hlost]
  · rw [if_neg hlost] at hget
    rw [List.getElem?_zip_eq_some (z := (_, some _)) |>.mpr ⟨hcall, hget⟩]
    simp [hlost]

/-- With no task lost and the executor the same for all, the tasks make no difference. -/
theorem executeActionCallsJoined_eq {caps : List PolicyRule} {clock : ℕ → Readings}
    {leases : LeaseManager}
    (hready : preflightAll (structuredGate env caps clock) 0 calls leases = .ready outcomes m)
    (hjoins : run.Joins outcomes) (hkept : ∀ i, ¬ run.Lost outcomes i)
    (hexecutor : ∀ i, run.executor i = env.effects) :
    (executeActionCallsJoined env serde caps clock run calls leases).response
      = (executeActionCalls env serde caps clock calls leases).response := by
  have hlength := (takenUses_of_ready hready).1
  have hsurvivor : ∀ i, survivor env serde run calls outcomes i
      = (calls.zip outcomes)[i]?.bind fun s => some (s.1, structuredSlot env serde s.1 s.2) := by
    intro i
    have henv : run.env env i = env := by rw [BatchRun.env, hexecutor i]
    simp only [survivor, hkept i, if_false, henv]
  have hfilled : filledSlots env serde run calls outcomes m
      = (calls.zip outcomes).map fun s => (s.1, structuredSlot env serde s.1 s.2) := by
    rw [filledSlots_eq hjoins hlength, List.filterMap_congr fun i _ => hsurvivor i,
      ← List.filterMap_eq_map', Slots.filterMap_eq_range (calls.zip outcomes), List.length_zip,
      hlength, Nat.min_self]
  rw [executeActionCallsJoined_ready hready, executeActionCalls, hready, hfilled]

/-- The slot that Phase 3 takes the pause from. -/
theorem findSome?_filledSlots (hjoins : run.Joins outcomes)
    (hlength : outcomes.length = calls.length) :
    ((filledSlots env serde run calls outcomes m).findSome? fun s =>
        slotInterrupt serde s.1 s.2)
      = (List.range calls.length).findSome? (taskPause env serde run calls outcomes) := by
  rw [filledSlots_eq hjoins hlength, ← List.head?_filterMap, List.filterMap_filterMap,
    ← List.head?_filterMap]
  congr 1
  refine List.filterMap_congr fun i hi => ?_
  have hcall := List.getElem?_eq_getElem (List.mem_range.mp hi)
  have hlt : i < outcomes.length := hlength ▸ List.mem_range.mp hi
  have houtcome := List.getElem?_eq_getElem hlt
  rw [taskPause, survivor, List.getElem?_zip_eq_some (z := (_, _)) |>.mpr ⟨hcall, houtcome⟩,
    hcall, houtcome, Option.bind_some]
  by_cases hlost : run.Lost outcomes i
  · obtain ⟨lease, hlease⟩ := (mem_runnableIndices.mp hlost.2.1).2
    rw [Nat.sub_zero, houtcome, Option.some.injEq] at hlease
    rw [if_pos hlost, hlease]
    exact (if_pos hlost).symm
  · rw [if_neg hlost, Option.bind_some]
    cases outcomes[i] with
    | approved lease =>
      exact (slotInterrupt_classifyExecResult _ serde _ _ _).trans (if_neg hlost).symm
    | noLease => rfl
    | denied reason => rfl
    | notConsumed e => rfl

end Structured

/-! ### What the batches answer -/

section Orchestrator

variable {env : DispatchEnv} {serde : Serde} {run : BatchRun} {calls : List ActionCall}
  {outcomes : List Settled} {m : LeaseManager}

/-- The answers of the orchestrator path. -/
def slotAnswers (env : DispatchEnv) (serde : Serde) (run : BatchRun) (calls : List ActionCall)
    (outcomes : List Settled) (m : LeaseManager) : List Json :=
  (executePhase (orchestratorSlot · serde) env run calls outcomes m).1.map
    fun s => (s.map Prod.fst).getD emptySlotJson

theorem handleExecuteActionsParallelJoined_ready {clock : ℕ → Readings} {leases : LeaseManager}
    (hready : preflightAll (orchestratorGate env clock) 0 calls leases = .ready outcomes m) :
    (handleExecuteActionsParallelJoined env serde clock run calls leases).response.1
      = .arr (slotAnswers env serde run calls outcomes m) := by
  rw [handleExecuteActionsParallelJoined, hready]
  rfl

theorem getElem?_slotAnswers {i : ℕ} {call : ActionCall} {outcome : Settled}
    (hjoins : run.Joins outcomes) (hcall : calls[i]? = some call)
    (houtcome : outcomes[i]? = some outcome) :
    (slotAnswers env serde run calls outcomes m)[i]?
      = some (if run.Lost outcomes i then emptySlotJson
          else (orchestratorSlot (run.env env i) serde call outcome).1) := by
  have hget : (executePhase (orchestratorSlot · serde) env run calls outcomes m).1[i]? = _ :=
    getElem?_executePhase hjoins (fun _ => orchestratorSlot_env) hcall houtcome
  rw [slotAnswers, List.getElem?_map, hget, Option.map_some]
  split_ifs
  · rfl
  · rfl

end Orchestrator

/-- The calls of a batch that were not lost. -/
def BatchRun.survivors (run : BatchRun) (calls : List ActionCall) (outcomes : List Settled) :
    List ℕ :=
  (List.range calls.length).filter fun i => ¬ run.Lost outcomes i

/-- What a batch answers once preflight has gone through, in whatever order its tasks come
back. The structured path has a result for each call whose task did not panic, in call order and
with its id, and asks for approval with the first call whose task ended in a pause. The
orchestrator path answers each call in its place, a lost one with an error. -/
theorem batch_answers (env : DispatchEnv) (serde : Serde) (caps : List PolicyRule)
    (clock : ℕ → Readings) (run : BatchRun) (calls : List ActionCall) (leases : LeaseManager) :
    (∀ outcomes m,
      preflightAll (structuredGate env caps clock) 0 calls leases = .ready outcomes m →
      run.Joins outcomes →
      ∃ batch, (executeActionCallsJoined env serde caps clock run calls leases).response
          = .ok batch ∧
        List.Forall₂ (fun i result => ∃ call outcome, calls[i]? = some call ∧
            outcomes[i]? = some outcome ∧ result.call_id = call.id ∧
            result = (structuredSlot (run.env env i) serde call outcome).1)
          (run.survivors calls outcomes) batch.results ∧
        batch.need_approval
          = (List.range calls.length).findSome? (taskPause env serde run calls outcomes)) ∧
      ∀ outcomes m,
        preflightAll (orchestratorGate env clock) 0 calls leases = .ready outcomes m →
        run.Joins outcomes →
        ∃ answers,
          (handleExecuteActionsParallelJoined env serde clock run calls leases).response.1
            = .arr answers ∧
          answers.length = calls.length ∧
          ∀ i call outcome, calls[i]? = some call → outcomes[i]? = some outcome →
            answers[i]? = some (if run.Lost outcomes i then emptySlotJson
              else (orchestratorSlot (run.env env i) serde call outcome).1) := by
  refine ⟨fun outcomes m hready hjoins => ?_, fun outcomes m hready hjoins => ?_⟩
  · have hlength := (takenUses_of_ready hready).1
    refine ⟨_, executeActionCallsJoined_ready hready, ?_, ?_⟩
    · rw [filledSlots_eq hjoins hlength, List.map_filterMap]
      refine Slots.forall₂_filterMap fun i hi => ?_
      have hcall := List.getElem?_eq_getElem (List.mem_range.mp hi)
      have houtcome := List.getElem?_eq_getElem (l := outcomes) (hlength ▸ List.mem_range.mp hi)
      rw [survivor, List.getElem?_zip_eq_some (z := (_, _)) |>.mpr ⟨hcall, houtcome⟩]
      by_cases hlost : run.Lost outcomes i
      · simp [hlost]
      · rw [if_pos hlost]
        exact ⟨_, by simp [hlost], _, _, hcall, houtcome, structuredSlot_call_id .., rfl⟩
    · exact findSome?_filledSlots hjoins hlength
  · have hlength := (takenUses_of_ready hready).1
    refine ⟨_, handleExecuteActionsParallelJoined_ready hready, ?_, ?_⟩
    · rw [slotAnswers, List.length_map, length_executePhase hjoins hlength]
    · exact fun i call outcome hcall houtcome => getElem?_slotAnswers hjoins hcall houtcome

/-! ### Two calls of one action -/

section Shell

/-- Unlimited uses of `shell`. -/
private def shellLease : CapabilityLease where
  id := ⟨1⟩
  thread_id := ⟨1⟩
  capability_name := "tools"
  granted_actions := .specific ["shell"]
  granted_at := 0
  expires_at := none
  max_uses := none
  uses_remaining := none
  revoked := false
  revoked_reason := none

private def shellEnv : DispatchEnv where
  thread_id := ⟨1⟩
  step_id := ⟨1⟩
  policy := PolicyEngine.new
  effects := ⟨fun _ => .ok [⟨"shell", [], false⟩],
    fun _ _ _ _ => (.ok ⟨"", "shell", .null, false, 0⟩, 0)⟩

private def shellLeases : LeaseManager := ⟨[shellLease], by decide⟩

private def shellCalls : List ActionCall :=
  [⟨"call-1", "shell", .obj []⟩, ⟨"call-2", "shell", .obj []⟩]

private def shellSerde : Serde := ⟨fun _ => "", fun _ => .null, fun _ => none⟩

/-- The second task comes back first, with or without a panic. -/
private def shellRun (panics : Bool) : BatchRun :=
  ⟨fun _ => shellEnv.effects, fun i => panics && i == 1, [1, 0]⟩

/-- A task that panics takes its result with it on the structured path, and no answer of the
orchestrator path carries the id of its call. -/
theorem panicked_call_has_no_result :
    (∃ batch, (executeActionCallsJoined shellEnv shellSerde [] (fun _ => ⟨0, 0, 0⟩)
        (shellRun true) shellCalls shellLeases).response = .ok batch ∧
      batch.need_approval = none ∧ shellCalls.map ActionCall.id = ["call-1", "call-2"] ∧
      batch.results.map ActionResult.call_id = ["call-1"]) ∧
    ∃ answers, (handleExecuteActionsParallelJoined shellEnv shellSerde (fun _ => ⟨0, 0, 0⟩)
        (shellRun false) shellCalls shellLeases).response.1 = .arr answers ∧
      answers.map (·.get? "call_id") = [none, none] :=
  ⟨⟨_, rfl, rfl, rfl, rfl⟩, ⟨_, rfl, rfl⟩⟩

/-- The result of the call whose task did not panic. -/
theorem batch_answers_sample :
    ∃ batch, (executeActionCallsJoined shellEnv shellSerde [] (fun _ => ⟨0, 0, 0⟩)
        (shellRun true) shellCalls shellLeases).response = .ok batch ∧
      batch.results.map ActionResult.call_id = ["call-1"] := by
  obtain ⟨batch, hbatch, hresults, -⟩ := (batch_answers shellEnv shellSerde []
    (fun _ => ⟨0, 0, 0⟩) (shellRun true) shellCalls shellLeases).1 _ _ rfl (List.Perm.swap 0 1 [])
  refine ⟨batch, hbatch, ?_⟩
  obtain ⟨result, results, ⟨call, -, hcall, -, hid, -⟩, hrest, heq⟩ :=
    List.forall₂_cons_left_iff.mp hresults
  obtain rfl := Option.some.inj hcall
  obtain rfl := List.forall₂_nil_left_iff.mp hrest
  rw [heq, List.map_singleton, hid]

end Shell

end T3Claw
