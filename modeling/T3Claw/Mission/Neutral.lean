import T3Claw.Mission.Outcome

/-!
# Programs that write nothing of importance

Between the load of a record and its save, the operations mostly read: the clock, threads,
documents, compiled patterns. An instruction is *neutral* when it writes no mission, no
thread, no watcher, no fire log and not the index. It is *silent* when it does not touch the
tables of fire attempts and of events either. The helpers built of such instructions alone are
listed here once, each with what it returns; whoever follows an operation through its steps,
whatever for, can take them in one stride.
-/

namespace T3Claw

open Conc

/-- The instruction writes nothing but caches, notifications and documents. -/
def Instr.isNeutral : Instr → Prop
  | .saveMission _ | .updateMissionStatus .. | .newMissionId | .setActive _ | .pushActive _
  | .pushActiveIfAbsent _ | .retainActiveNe _ | .checkUserRate .. | .recordUserRate ..
  | .spawnThread .. | .spawnOutcomeWatcher .. => False
  | _ => True

/-- The instruction looks, or leaves a note nobody looks up. -/
def Instr.isSilent : Instr → Prop
  | .now | .loadMission _ | .loadThread _ | .readActive | .fireAttempt _ | .cachedRegex _
  | .compileRegex .. | .budgetAllows .. | .readDoc _ | .retrieveContext .. | .processOutput ..
  | .notify _ => True
  | _ => False

/-- The program is neutral, and its result meets `P`. -/
abbrev Neutral {α : Type} (p : Act α) (P : α → Prop := fun _ => True) : Prop :=
  p.Obeys (fun _ _ => True) Instr.isNeutral P

/-- The program is silent, and its result meets `P`. -/
abbrev Silent {α : Type} (p : Act α) (P : α → Prop := fun _ => True) : Prop :=
  p.Obeys (fun _ _ => True) Instr.isSilent P

theorem Instr.isSilent.isNeutral {i : Instr} (hi : i.isSilent) : i.isNeutral := by
  cases i with
  | saveMission | updateMissionStatus | newMissionId | setActive | pushActive
  | pushActiveIfAbsent | retainActiveNe | checkUserRate | recordUserRate | spawnThread
  | spawnOutcomeWatcher => exact hi.elim
  | _ => trivial

theorem Silent.neutral {α : Type} {p : Act α} {P : α → Prop} (hp : Silent p P) : Neutral p P :=
  hp.weaken (fun _ _ _ => trivial) fun _ hi => hi.isNeutral

/-- The state a neutral instruction leaves as it is. -/
structure World.SameCore (w w' : World) : Prop where
  clock : w'.clock = w.clock
  missions : w'.missions = w.missions
  threads : w'.threads = w.threads
  active : w'.active = w.active
  user_fire_log : w'.user_fire_log = w.user_fire_log
  watchers : w'.watchers = w.watchers

theorem sameCore_of_neutral {h : Host} {i : Instr} {w : World} (hi : i.isNeutral) :
    w.SameCore (worldExec h i w).2 := by
  cases i with
  | saveMission | updateMissionStatus | newMissionId | setActive | pushActive
  | pushActiveIfAbsent | retainActiveNe | checkUserRate | recordUserRate | spawnThread
  | spawnOutcomeWatcher => exact hi.elim
  | dedupEvent =>
    simp only [worldExec]
    split <;> exact ⟨rfl, rfl, rfl, rfl, rfl, rfl⟩
  | compileRegex =>
    simp only [worldExec]
    split
    · exact ⟨rfl, rfl, rfl, rfl, rfl, rfl⟩
    · split <;> exact ⟨rfl, rfl, rfl, rfl, rfl, rfl⟩
  | _ => exact ⟨rfl, rfl, rfl, rfl, rfl, rfl⟩

section

variable {h : Host} {α : Type} {P : α → Prop} {m : Mission}

/-- An instruction first. -/
theorem obeys_await {A : (i : Instr) → Answer i → Prop} {G : Instr → Prop} {i : Instr}
    {f : Answer i → Act α} (hi : G i) (hf : ∀ r, A i r → (f r).Obeys A G P) :
    (await i >>= f).Obeys A G P := ⟨hi, hf⟩

theorem Neutral.step {i : Instr} {f : Answer i → Act α} (hi : i.isNeutral)
    (hf : ∀ a, Neutral (f a) P) : Neutral (await i >>= f) P := obeys_await hi fun a _ => hf a

theorem Silent.step {i : Instr} {f : Answer i → Act α} (hi : i.isSilent)
    (hf : ∀ a, Silent (f a) P) : Silent (await i >>= f) P := obeys_await hi fun a _ => hf a

/-! ### Schedules -/

theorem neutral_scheduled : Neutral (scheduled h m) fun r =>
    ∀ m', r = .ok m' → ∃ next, m' = { m with next_fire_at := next } := by
  rw [scheduled]
  split
  · refine Neutral.step trivial fun now => ?_
    split
    · exact fun _ hr => nomatch hr
    · rintro m' ⟨⟩
      exact ⟨_, rfl⟩
  · rintro m' ⟨⟩
    exact ⟨m.next_fire_at, rfl⟩

/-- A new cadence is set with its next fire; without one nothing changes. -/
theorem neutral_rescheduled {cadence : Option MissionCadence} :
    Neutral (rescheduled h cadence m) fun r => ∀ m', r = .ok m' →
      ∃ next, m' = { m with cadence := cadence.getD m.cadence, next_fire_at := next } := by
  rw [rescheduled.eq_def]
  split
  · rintro m' ⟨⟩
    exact ⟨m.next_fire_at, rfl⟩
  · refine Neutral.step trivial fun now => ?_
    split
    · exact fun _ hr => nomatch hr
    · rintro m' ⟨⟩
      exact ⟨_, rfl⟩
  · rintro m' ⟨⟩
    exact ⟨none, rfl⟩

/-- The cron expression of a mission, if it has one, parses. -/
def Mission.schedulable (h : Host) (m : Mission) : Bool :=
  match m.cadence with
  | .cron expression _ => (parseCron h.cron expression).isOk
  | _ => true

theorem silent_advanced {t : Time} : Silent (advanced h m t) fun a =>
    (∃ next, a = { m with next_fire_at := next, last_fire_at := some t }) ∨
      (m.schedulable h = false ∧ a = m) := by
  rw [advanced]
  split
  case h_1 expression tz hcadence =>
    refine Silent.step trivial fun now => ?_
    split
    · exact .inl ⟨_, rfl⟩
    case h_2 herror =>
      have hok : (nextCronFire h.cron expression tz now).isOk =
        (parseCron h.cron expression).isOk := isOk_nextCronFire
      rw [herror] at hok
      refine .inr ⟨?_, rfl⟩
      rw [Mission.schedulable, hcadence]
      exact hok.symm
  · exact .inl ⟨m.next_fire_at, rfl⟩

/-- Reconciling puts a thread that is missing into the accounts. -/
theorem silent_reconcile {tid : ThreadId} {t : Time} : Silent (reconcile h m tid t) fun a =>
    (tid ∈ m.thread_history ∧ a = m) ∨
      (tid ∉ m.thread_history ∧ ∃ now next, a = { m with
        thread_history := m.thread_history ++ [tid], updated_at := now
        threads_today := saturatingSucc m.threads_today, last_fire_at := some t
        next_fire_at := next }) := by
  rw [reconcile]
  split
  case isTrue hin => exact .inl ⟨hin, rfl⟩
  case isFalse hout =>
  refine Silent.step trivial fun now => ?_
  dsimp only
  split
  case h_2 => exact .inr ⟨hout, now, m.next_fire_at, rfl⟩
  refine Silent.step trivial fun _ => ?_
  split
  case isFalse => exact .inr ⟨hout, now, m.next_fire_at, rfl⟩
  refine Silent.step trivial fun _ => ?_
  split
  · exact .inr ⟨hout, now, _, rfl⟩
  · exact .inr ⟨hout, now, m.next_fire_at, rfl⟩

/-! ### Checks -/

theorem silent_onCooldown : Silent (onCooldown m) := by
  rw [onCooldown]
  split
  · split
    · exact Silent.step trivial fun _ => trivial
    · trivial
  · trivial

theorem silent_countRunningThreads (tids : List ThreadId) :
    Silent (countRunningThreads tids) := by
  induction tids with
  | nil => trivial
  | cons tid rest ih =>
    exact Silent.step trivial fun _ => Prog.Obeys.bind ih fun _ _ => trivial

theorem silent_concurrencyReached : Silent (concurrencyReached m) := by
  rw [concurrencyReached]
  split
  · exact Prog.Obeys.bind (silent_countRunningThreads _) fun _ _ => trivial
  · trivial

theorem silent_contextBlocks (paths : List String) : Silent (contextBlocks paths) := by
  induction paths with
  | nil => trivial
  | cons path paths ih =>
    refine Silent.step trivial fun content => Prog.Obeys.bind ih fun blocks _ => ?_
    split <;> trivial

theorem neutral_dedupEvent {id : MissionId} {key : String} {window : ℕ} :
    Neutral (dedupEvent id key window) := by
  rw [dedupEvent]
  split
  · trivial
  · exact Neutral.step trivial fun _ => Neutral.step trivial fun _ => trivial

theorem silent_systemEventMatches {source event_type : String} {payload : Option Json} :
    Silent (systemEventMatches source event_type payload m) := by
  rw [systemEventMatches]
  split <;> trivial

theorem silent_webhookMatches {path : String} : Silent (webhookMatches path m) := by
  rw [webhookMatches]
  split <;> trivial

theorem silent_messageMatches {channel text : String} :
    Silent (messageMatches h channel text m) := by
  rw [messageMatches]
  split
  case h_2 => trivial
  split
  case isFalse => trivial
  rw [eventRegexMatches]
  split
  case h_2 => trivial
  refine Silent.step trivial fun cached => ?_
  split
  · trivial
  refine Silent.step trivial fun compiled => ?_
  split <;> trivial

/-! ### Fires -/

/-- The record with other accounts: what a fire writes of the record it read. -/
def Mission.FiredFrom (m m' : Mission) : Prop :=
  ∃ history today payload last next updated, m' = { m with
    thread_history := history, threads_today := today, last_trigger_payload := payload
    last_fire_at := last, next_fire_at := next, updated_at := updated }

theorem Mission.FiredFrom.refl (m : Mission) : m.FiredFrom m := ⟨_, _, _, _, _, _, rfl⟩

/-- What a contract must allow for a fire of `id` to obey it: the silent instructions, the log
of fires, and what is done with a record of which `P`. -/
structure FireRules (A : (i : Instr) → Answer i → Prop) (G : Instr → Prop) (id : MissionId)
    (P : Mission → Prop) : Prop where
  silent : ∀ i, i.isSilent → G i
  rate : ∀ user now, G (.checkUserRate user now) ∧ G (.recordUserRate user now)
  load : ∀ m, A (.loadMission id) (some m) → P m
  fired : ∀ m m', P m → m.FiredFrom m' → P m'
  save : ∀ m, P m → G (.saveMission m)
  spawn : ∀ m goal user, P m → G (.spawnThread m goal user)
  watch : ∀ m tid t, P m → G (.spawnOutcomeWatcher m.id tid t)
  attempt : ∀ m t, P m → G (.insertFireAttempt m.id t)

namespace FireRules

variable {A : (i : Instr) → Answer i → Prop} {G : Instr → Prop} {id : MissionId}
  {P : Mission → Prop} {payload : Option Json} {user : String}

theorem of_silent (C : FireRules A G id P) {p : Act α} {Q : α → Prop} (hp : Silent p Q) :
    p.Obeys A G Q :=
  hp.weaken (fun _ _ _ => trivial) C.silent

theorem dailyReset (C : FireRules A G id P) (hm : P m) :
    (dailyReset m).Obeys A G m.FiredFrom := by
  rw [T3Claw.dailyReset]
  split
  · refine obeys_await (C.silent _ trivial) fun now _ => ?_
    split
    · have hreset : m.FiredFrom { m with threads_today := 0 } := ⟨_, _, _, _, _, _, rfl⟩
      exact obeys_await (C.save _ (C.fired _ _ hm hreset)) fun _ _ => hreset
    · exact .refl m
  · exact .refl m

theorem recordFire (C : FireRules A G id P) (hm : P m) {tid : ThreadId} :
    (recordFire h m tid payload).Obeys A G fun _ => True := by
  refine obeys_await (C.silent _ trivial) fun t _ => obeys_await (C.watch _ _ _ hm) fun _ _ =>
    obeys_await (C.silent _ trivial) fun now _ =>
      Prog.Obeys.bind (C.of_silent silent_advanced) fun m' hm' => ?_
  have hfired : m.FiredFrom m' := by
    obtain ⟨next, rfl⟩ | ⟨-, rfl⟩ := hm'
    · exact ⟨_, _, _, _, _, _, rfl⟩
    · exact ⟨_, _, _, _, _, _, rfl⟩
  exact obeys_await (C.attempt _ _ hm) fun _ _ =>
    obeys_await (C.save _ (C.fired _ _ hm hfired)) fun _ _ =>
      obeys_await (C.silent _ trivial) fun _ _ => obeys_await (C.rate _ _).2 fun _ _ => trivial

theorem spawnFire (C : FireRules A G id P) (hm : P m) :
    (spawnFire h m user payload).Obeys A G fun _ => True := by
  refine Prog.Obeys.bind (C.of_silent (silent_contextBlocks _)) fun blocks _ =>
    obeys_await (C.silent _ trivial) fun docs _ => obeys_await (C.spawn _ _ _ hm) fun r _ => ?_
  split
  · trivial
  · exact Prog.Obeys.bind (C.recordFire hm) fun _ _ => trivial

theorem checkedFire (C : FireRules A G id P) (hm : P m) :
    (checkedFire h m user payload).Obeys A G fun _ => True := by
  refine Prog.Obeys.bind (C.dailyReset hm) fun m' hm' => ?_
  split
  · trivial
  refine Prog.Obeys.bind (C.of_silent silent_onCooldown) fun cooling _ => ?_
  split
  · trivial
  refine Prog.Obeys.bind (C.of_silent silent_concurrencyReached) fun full _ => ?_
  split
  · trivial
  refine obeys_await (C.silent _ trivial) fun _ _ => obeys_await (C.rate _ _).1
    fun rate_ok _ => ?_
  split
  · trivial
  refine obeys_await (C.silent _ trivial) fun allowed _ => ?_
  split
  · trivial
  · exact C.spawnFire (C.fired m m' hm hm')

/-- **A fire writes back the record it read**, with other accounts. -/
theorem fireMission (C : FireRules A G id P) :
    (fireMission h id user payload).Obeys A G fun _ => True := by
  refine obeys_await (C.silent _ trivial) fun r hr => ?_
  rcases r with _ | m
  · trivial
  dsimp only
  split
  · trivial
  split
  · trivial
  · exact C.checkedFire (C.load m hr)

end FireRules

/-! ### Outcomes -/

theorem silent_processOutputs {outcome : ThreadOutcome} :
    Silent (processOutputs m outcome) := by
  have hone : ∀ kind text, Silent (processOutputIf kind m text) := by
    intro kind text
    rw [processOutputIf]
    split
    · exact ⟨trivial, fun _ _ => trivial⟩
    · trivial
  rw [processOutputs.eq_def]
  split
  · exact Prog.Obeys.bind (hone _ _) fun _ _ => hone _ _
  · trivial

theorem silent_notifyOutcome {tid : ThreadId} {outcome : ThreadOutcome} :
    Silent (notifyOutcome m tid outcome) := by
  rw [notifyOutcome]
  split
  case h_2 => trivial
  split
  · trivial
  · exact ⟨trivial, fun _ _ => trivial⟩

end

end T3Claw
