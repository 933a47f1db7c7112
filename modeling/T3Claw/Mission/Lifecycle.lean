import T3Claw.Mission.World

/-!
# The life of a mission

`create_mission`, `update_mission`, `pause_mission`, `resume_mission`, `complete_mission`,
`bootstrap_project` and the helpers that keep the learning missions, each as a program over
the store and the in-memory index.

Each guards the status in its own way. `update_mission` never looks at it, `resume_mission`
insists on `Paused`, and `pause_mission` and `complete_mission` write theirs whatever was
there. All but those two write the whole record back from the copy they loaded.
-/

namespace T3Claw

open Conc

/-- Issue one instruction. -/
def await (i : Instr) : Act (Answer i) := Prog.perform i

@[simp] theorem await_bind {α : Type} (i : Instr) (f : Answer i → Act α) :
    (await i >>= f) = Prog.act i f := rfl

theorem run_await_bind {h : Host} {w : World} {α : Type} (i : Instr) (f : Answer i → Act α) :
    (await i >>= f).run (missionMachine h) w =
      (f (worldExec h i w).1).run (missionMachine h) (worldExec h i w).2 := rfl

def missionNotFound (id : MissionId) : EngineError :=
  .store ("mission " ++ uuidText id.uuid ++ " not found")

def missionDenied (id : MissionId) (user_id : String) : EngineError :=
  .accessDenied user_id ("mission " ++ uuidText id.uuid)

/-- `MissionUpdate`. -/
structure MissionUpdate where
  name : Option String := none
  description : Option String := none
  goal : Option String := none
  cadence : Option MissionCadence := none
  notify_channels : Option (List String) := none
  notify_user : Option String := none
  context_paths : Option (List String) := none
  max_threads_per_day : Option UInt32 := none
  success_criteria : Option String := none
  cooldown_secs : Option ℕ := none
  max_concurrent : Option UInt32 := none
  dedup_window_secs : Option ℕ := none

/-- The fields an update sets besides the cadence. -/
def MissionUpdate.apply (u : MissionUpdate) (m : Mission) : Mission :=
  { m with
    name := u.name.getD m.name
    description := u.description.orElse fun _ => m.description
    goal := u.goal.getD m.goal
    notify_channels := u.notify_channels.getD m.notify_channels
    notify_user := u.notify_user.orElse fun _ => m.notify_user
    context_paths := u.context_paths.getD m.context_paths
    max_threads_per_day := u.max_threads_per_day.getD m.max_threads_per_day
    success_criteria := u.success_criteria.orElse fun _ => m.success_criteria
    cooldown_secs := u.cooldown_secs.getD m.cooldown_secs
    max_concurrent := u.max_concurrent.getD m.max_concurrent
    dedup_window_secs := u.dedup_window_secs.getD m.dedup_window_secs }

section

variable (h : Host)

/-- The schedule of a new or resumed mission: a cron mission must have a next fire. -/
def scheduled (m : Mission) : Act (Except EngineError Mission) :=
  match m.cadence with
  | .cron expression timezone => do
    let now ← await .now
    match nextCronFireRequired h.cron expression timezone now with
    | .error e => pure (.error e)
    | .ok next => pure (.ok { m with next_fire_at := some next })
  | _ => pure (.ok m)

/-- The schedule after an update: a new cadence starts afresh. -/
def rescheduled (cadence : Option MissionCadence) (m : Mission) :
    Act (Except EngineError Mission) :=
  match cadence with
  | none => pure (.ok m)
  | some (.cron expression timezone) => do
    let now ← await .now
    match nextCronFireRequired h.cron expression timezone now with
    | .error e => pure (.error e)
    | .ok next =>
      pure (.ok { m with cadence := .cron expression timezone, next_fire_at := some next })
  | some cadence => pure (.ok { m with cadence := cadence, next_fire_at := none })

/-- `create_mission`. -/
def createMission (project_id : ProjectId) (user_id name goal : String)
    (cadence : MissionCadence) (notify_channels : List String) :
    Act (Except EngineError MissionId) := do
  let id ← await .newMissionId
  let now ← await .now
  match ← scheduled h (Mission.new id now project_id user_id name goal cadence) with
  | .error e => pure (.error e)
  | .ok mission =>
    await (.saveMission { mission with notify_channels := notify_channels })
    await (.pushActive mission.id)
    pure (.ok mission.id)

/-- `update_mission`. -/
def updateMission (id : MissionId) (user_id : String) (updates : MissionUpdate) :
    Act (Except EngineError Unit) := do
  match ← await (.loadMission id) with
  | none => pure (.error (missionNotFound id))
  | some mission =>
    if !mission.managedBy user_id then pure (.error (missionDenied id user_id))
    else
      match ← rescheduled h updates.cadence (updates.apply mission) with
      | .error e => pure (.error e)
      | .ok mission => do
        let now ← await .now
        await (.saveMission { mission with updated_at := now })
        await (.evictRegex id)
        pure (.ok ())

/-- `pause_mission`. -/
def pauseMission (id : MissionId) (user_id : String) : Act (Except EngineError Unit) := do
  match ← await (.loadMission id) with
  | none => pure (.error (missionNotFound id))
  | some mission =>
    if !mission.managedBy user_id then pure (.error (missionDenied id user_id))
    else do
      await (.updateMissionStatus id .paused)
      await (.retainActiveNe id)
      await (.removeFireAttempt id)
      pure (.ok ())

/-- `resume_mission`. -/
def resumeMission (id : MissionId) (user_id : String) : Act (Except EngineError Unit) := do
  match ← await (.loadMission id) with
  | none => pure (.error (missionNotFound id))
  | some mission =>
    if !mission.managedBy user_id then pure (.error (missionDenied id user_id))
    else if mission.status ≠ .paused then
      pure (.error (.store ("mission " ++ uuidText id.uuid ++ " is in state " ++
        mission.status.debug ++ ", only Paused missions can be resumed")))
    else
      match ← scheduled h { mission with status := .active } with
      | .error e => pure (.error e)
      | .ok mission => do
        let now ← await .now
        await (.saveMission { mission with updated_at := now })
        await (.pushActiveIfAbsent id)
        pure (.ok ())

/-- `complete_mission`. -/
def completeMission (id : MissionId) : Act (Except EngineError Unit) := do
  await (.updateMissionStatus id .completed)
  await (.retainActiveNe id)
  await (.removeFireAttempt id)
  await (.evictRegex id)
  pure (.ok ())

/-- The backfill of `bootstrap_project`: give an active cron mission without a next fire
one, on a record loaded again just before. -/
def backfill (m : Mission) : Act Unit :=
  match m.cadence, m.next_fire_at with
  | .cron expression timezone, none => do
    let now ← await .now
    match nextCronFire h.cron expression timezone now with
    | .ok (some next) => do
      match ← await (.loadMission m.id) with
      | some fresh =>
        if fresh.next_fire_at.isNone then
          await (.saveMission { fresh with next_fire_at := some next })
        else pure ()
      | none => pure ()
    | _ => pure ()
  | _, _ => pure ()

/-- The ids `bootstrap_project` puts in the index. -/
def bootstrapLoop : List Mission → Act (List MissionId)
  | [] => pure []
  | m :: missions =>
    if m.status = .active then do
      backfill h m
      let active_ids ← bootstrapLoop missions
      pure (m.id :: active_ids)
    else bootstrapLoop missions

/-- `bootstrap_project`: the index is overwritten, not extended. -/
def bootstrapProject (project_id : ProjectId) : Act (Except EngineError ℕ) := do
  let missions ← await (.listAllMissions project_id)
  let active_ids ← bootstrapLoop h missions
  await (.setActive active_ids)
  pure (.ok active_ids.length)

/-! ### The learning missions -/

/-- A learning mission as the helpers build it. -/
structure LearningMission where
  metadata_key : String
  name : String
  event_source : String
  event_type : String
  success_criteria : String
  max_per_day : UInt32

/-- The part `ensure_self_improvement_mission` and `ensure_mission_by_metadata` share: list a
mission that is there, else make one. `isOne` recognises it. -/
def ensureMission (project_id : ProjectId) (user_id : String) (isOne : Mission → Bool)
    (l : LearningMission) : Act (Except EngineError (MissionId × Bool)) := do
  let missions ← await (.listMissions project_id user_id)
  match missions.find? isOne with
  | some existing => do
    await (.pushActiveIfAbsent existing.id)
    pure (.ok (existing.id, false))
  | none => do
    let id ← await .newMissionId
    let now ← await .now
    let mission := { Mission.new id now project_id user_id l.name (h.learning_goal l.name)
      (.onSystemEvent l.event_source l.event_type []) with
      success_criteria := some l.success_criteria
      metadata := .obj [(l.metadata_key, .bool true)]
      max_threads_per_day := l.max_per_day }
    match ← scheduled h mission with
    | .error e => pure (.error e)
    | .ok mission => do
      await (.saveMission mission)
      await (.pushActive id)
      pure (.ok (id, true))

/-- `ensure_self_improvement_mission`; a new one also seeds the fix patterns. -/
def ensureSelfImprovementMission (project_id : ProjectId) (user_id : String) :
    Act (Except EngineError MissionId) := do
  match ← ensureMission h project_id user_id Mission.isSelfImprovement
    ⟨"self_improvement", "self-improvement", "engine", "thread_completed_with_issues",
      "Continuously improve system prompts and fix patterns based on execution traces", 5⟩ with
  | .error e => pure (.error e)
  | .ok (id, created) =>
    if created then do
      await (.seedFixPatterns project_id)
      pure (.ok id)
    else pure (.ok id)

/-- `ensure_mission_by_metadata`. -/
def ensureMissionByMetadata (project_id : ProjectId) (user_id : String) (l : LearningMission) :
    Act (Except EngineError MissionId) := do
  match ← ensureMission h project_id user_id
    (fun m => (m.metadata.get? l.metadata_key).isSome) l with
  | .error e => pure (.error e)
  | .ok (id, _) => pure (.ok id)

/-- The four learning missions besides self-improvement. -/
def LEARNING_MISSIONS : List LearningMission :=
  [⟨"skill_repair", "skill-repair", "engine", "thread_completed_with_skill_gap",
      "Repair versioned skills when execution reveals stale or incomplete instructions", 5⟩,
    ⟨"skill_extraction", "skill-extraction", "engine", "thread_completed_with_learnings",
      "Extract reusable skills from successful multi-step threads", 3⟩,
    ⟨"conversation_insights", "conversation-insights", "engine", "conversation_insights_due",
      "Extract user preferences, domain knowledge, and workflow patterns from conversations",
      2⟩,
    ⟨"expected_behavior", "expected-behavior", "user_feedback", "expected_behavior",
      "Investigate user-reported expectation gaps and apply fixes", 5⟩]

/-- One after another, up to the first error. -/
def ensureAll (project_id : ProjectId) (user_id : String) :
    List LearningMission → Act (Except EngineError Unit)
  | [] => pure (.ok ())
  | l :: ls => do
    match ← ensureMissionByMetadata h project_id user_id l with
    | .error e => pure (.error e)
    | .ok _ => ensureAll project_id user_id ls

/-- `ensure_learning_missions`. -/
def ensureLearningMissions (project_id : ProjectId) (user_id : String) :
    Act (Except EngineError Unit) := do
  await (.seedOrchestrator project_id)
  match ← ensureSelfImprovementMission h project_id user_id with
  | .error e => pure (.error e)
  | .ok _ => ensureAll h project_id user_id LEARNING_MISSIONS

end

end T3Claw
