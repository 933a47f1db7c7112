import T3Claw.Routines.Recovery

/-!
# Repeated messages

`check_event_triggers` on one message after the other, with whatever the engine, its spawned
runs and the environment do in between. The guardrails it looks at are the cooldown, the number
of runs in progress and the capacity of the engine; the window within which a repeated content
is not to fire again is kept with a routine and looked at nowhere. While a message is matched
the cache stays locked, so its check is taken to happen at once.
-/

namespace T3Claw.Routines

open Conc

/-! ### Messages that come in -/

/-- A message, and the state its check finds. -/
structure Arrival where
  state : EngineState
  message : IncomingMessage
  content : String

namespace Arrival

variable (h : Engine) (a : Arrival)

/-- The state `check_event_triggers` leaves. -/
def checked : EngineState :=
  ((checkEventTriggers h a.message a.content).run engineMachine a.state).2

/-- The routines it fires. -/
def fired : List Routine :=
  ((a.checked h).spawned.drop a.state.spawned.length).map Spawned.routine

end Arrival

/-- What happens to an engine: a move of one of its tasks or of the environment, or a message. -/
inductive Happening where
  | move (m : EngineMove)
  | message (message : IncomingMessage) (content : String)

/-- The messages of a run, each with the state it is checked in; a move that is not possible is
none. -/
def arrivals (h : Engine) : EngineConf → List Happening → List Arrival
  | _, [] => []
  | c, .move m :: rest => arrivals h (((engineSystem h).next c m).getD c) rest
  | c, .message message content :: rest =>
    let a : Arrival := ⟨c.state, message, content⟩
    a :: arrivals h ⟨⟨a.checked h, c.log⟩, c.tasks⟩ rest

/-- No routine is fired twice for one content within its dedup window. -/
def Deduplicated (h : Engine) (arrivals : List Arrival) : Prop :=
  arrivals.Pairwise fun a b => ∀ r ∈ a.fired h, ∀ r' ∈ b.fired h, r.id = r'.id →
    a.content = b.content → ∀ window : ℕ, r'.guardrails.dedup_window = some window →
    (window : ℤ) ≤ b.state.now - a.state.now

/-! ### What a message fires -/

/-- The routine of a matcher that a message is for. -/
def EventMatcher.accepts (message : IncomingMessage) (content : String) :
    EventMatcher → Option Routine
  | .message routine regex =>
    if routineMatchesMessage routine message && regex content then some routine else none
  | .system _ => none

/-- The routines a message is for. -/
def Arrival.matching (a : Arrival) : List Routine :=
  a.state.event_cache.filterMap (EventMatcher.accepts a.message a.content)

/-- The routine is cooling down, has all the runs it may have, or the engine has; or the runs
cannot be counted. -/
def refuses (h : Engine) (s : EngineState) (routine : Routine) : Bool :=
  s.store_error.isSome ||
    (routine.last_run_at.any fun last_run =>
      decide (s.now - last_run < routine.guardrails.cooldownDuration)) ||
    decide (routine.guardrails.max_concurrent ≤ s.running routine.id) ||
    decide (h.config.max_concurrent_routines ≤ s.running_count)

section

variable (h : Engine) (s : EngineState)

theorem run_checkCooldown (routine : Routine) :
    (checkCooldown routine).run engineMachine s =
      (!routine.last_run_at.any fun last_run =>
        decide (s.now - last_run < routine.guardrails.cooldownDuration), s) := by
  unfold checkCooldown
  cases routine.last_run_at <;> rfl

/-- The checks on a routine read the state and leave it. -/
theorem run_admitEvent (hup : s.store_error = none) {counts : RoutineId → Reading}
    {routine : Routine} (hcount : (counts routine.id).value = s.running routine.id) :
    (admitEvent h counts routine).run engineMachine s =
      (if refuses h s routine then none else some ⟨(counts routine.id).seen, s.begun⟩, s) := by
  have hload : EngineInstr.loadRunningCount.act.run engineMachine s =
      (⟨s.running_count, s.begun⟩, s) := rfl
  rw [admitEvent, Prog.run_bind, run_checkCooldown, refuses, hup]
  cases hcool : routine.last_run_at.any fun last_run =>
      decide (s.now - last_run < routine.guardrails.cooldownDuration) with
  | true => rfl
  | false =>
    by_cases hmax : routine.guardrails.max_concurrent ≤ s.running routine.id
    · simp [hcount, hmax]
    · by_cases hcap : h.config.max_concurrent_routines ≤ s.running_count <;>
        simp [hcount, hmax, hcap, hload]

/-- The matchers in turn. -/
theorem run_matchEach (hup : s.store_error = none) {counts : RoutineId → Reading}
    (message : IncomingMessage) (content : String) {cache : List EventMatcher}
    (hcounts : ∀ routine ∈ cache.filterMap (EventMatcher.accepts message content),
      (counts routine.id).value = s.running routine.id) :
    ∃ triggered, (matchEach h message content counts cache).run engineMachine s = (triggered, s) ∧
      triggered.map TriggeredRoutine.routine =
        (cache.filterMap (EventMatcher.accepts message content)).filter
          fun routine => !refuses h s routine := by
  induction cache with
  | nil => exact ⟨[], rfl, rfl⟩
  | cons matcher rest ih =>
    cases matcher with
    | system routine => exact ih hcounts
    | message routine regex =>
      cases haccepts : routineMatchesMessage routine message && regex content with
      | false =>
        have hskip : EventMatcher.accepts message content (.message routine regex) = none := by
          rw [EventMatcher.accepts, haccepts]
          rfl
        rw [List.filterMap_cons_none hskip] at hcounts ⊢
        obtain ⟨triggered, hrun, hmap⟩ := ih hcounts
        refine ⟨triggered, ?_, hmap⟩
        rw [matchEach, ← Bool.not_and, haccepts]
        exact hrun
      | true =>
        have htake : EventMatcher.accepts message content (.message routine regex) =
            some routine := by
          rw [EventMatcher.accepts, haccepts]
          rfl
        rw [List.filterMap_cons_some htake] at hcounts ⊢
        obtain ⟨triggered, hrun, hmap⟩ :=
          ih fun other hother => hcounts other (List.mem_cons_of_mem _ hother)
        -- the guard reads the count of its own routine, which is the one given
        have hadmit := run_admitEvent h s hup (hcounts routine List.mem_cons_self)
        rw [matchEach, ← Bool.not_and, haccepts, List.filter_cons]
        cases hrefuses : refuses h s routine with
        | true =>
          rw [hrefuses] at hadmit
          refine ⟨triggered, ?_, hmap⟩
          simp [Prog.run_bind, hadmit, hrun]
        | false =>
          rw [hrefuses] at hadmit
          refine ⟨⟨routine, truncate content 200, (counts routine.id).seen, s.begun⟩ :: triggered,
            ?_, ?_⟩
          · simp [Prog.run_bind, hadmit, hrun]
          · simp [hmap]

/-- The fires, each a future that is spawned. -/
theorem run_fireTriggered (triggered : List TriggeredRoutine) :
    ∃ futures, ((fireTriggered triggered).run engineMachine s).2.spawned = s.spawned ++ futures ∧
      futures.map Spawned.routine = triggered.map TriggeredRoutine.routine := by
  induction triggered generalizing s with
  | nil => exact ⟨[], (List.append_nil _).symm, rfl⟩
  | cons t rest ih =>
    let run := newRun ⟨s.drawn⟩ t.routine "event" (some t.detail) s.now
    let s' : EngineState := { s with
      drawn := s.drawn + 1, spawned := s.spawned ++ [.fire t.routine run t.checks] }
    have hspawn : (spawnFire t.routine "event" (some t.detail) t.checks).run engineMachine s =
        ((), s') := rfl
    obtain ⟨futures, hfutures, hmap⟩ := ih s'
    refine ⟨.fire t.routine run t.checks :: futures, ?_, ?_⟩
    · rw [fireTriggered, Prog.run_bind, hspawn, hfutures, List.append_assoc, List.singleton_append]
    · rw [List.map_cons, List.map_cons, hmap]
      rfl

end

/-- A matcher that accepts is one of those the runs are counted for. -/
theorem messageRoutine_of_accepts {message : IncomingMessage} {content : String}
    {cache : List EventMatcher} {routine : Routine}
    (h : routine ∈ cache.filterMap (EventMatcher.accepts message content)) :
    routine.id ∈ cache.filterMap EventMatcher.messageRoutine := by
  obtain ⟨matcher, hmem, haccepts⟩ := List.mem_filterMap.mp h
  refine List.mem_filterMap.mpr ⟨matcher, hmem, ?_⟩
  cases matcher with
  | system => cases haccepts
  | message other regex =>
    rw [EventMatcher.accepts] at haccepts
    split at haccepts
    · obtain rfl := Option.some.inj haccepts
      rfl
    · cases haccepts

/-- The triggers that match, from what is read of the runs. -/
theorem run_matchingEventTriggers_read (h : Engine) (s : EngineState) (message : IncomingMessage)
    (content : String) (ids : List RoutineId) (counts : RoutineId → Reading)
    (hids : s.event_cache.filterMap EventMatcher.messageRoutine = ids)
    (hcounts : (fun id => ⟨if id ∈ ids then s.running id else 0, s.recorded id⟩) = counts) :
    (matchingEventTriggers h message content).run engineMachine s =
      (if ids.isEmpty then pure [] else match (s.read counts).1 with
        | .error _ => pure []
        | .ok counts => matchEach h message content counts s.event_cache).run engineMachine s := by
  subst hids hcounts
  rw [matchingEventTriggers, EngineInstr.act_bind, Prog.run_act]
  let ids := s.event_cache.filterMap EventMatcher.messageRoutine
  show ((if ids.isEmpty then pure [] else (EngineInstr.countRunningBatch ids).act >>= _) :
    EngineProg (List TriggeredRoutine)).run engineMachine s = _
  split
  · rfl
  · have hexec : engineMachine.exec
        (.countRunningBatch (s.event_cache.filterMap EventMatcher.messageRoutine)) s =
          s.read fun id =>
            ⟨if id ∈ s.event_cache.filterMap EventMatcher.messageRoutine then s.running id else 0,
              s.recorded id⟩ := rfl
    rw [EngineInstr.act_bind, Prog.run_act, hexec, EngineState.stored_self]
    cases (s.read _).1 <;> rfl

theorem run_matchingEventTriggers (h : Engine) (s : EngineState) (message : IncomingMessage)
    (content : String) : ∃ triggered,
      (matchingEventTriggers h message content).run engineMachine s = (triggered, s) ∧
      triggered.map TriggeredRoutine.routine =
        (s.event_cache.filterMap (EventMatcher.accepts message content)).filter
          fun routine => !refuses h s routine := by
  let ids := s.event_cache.filterMap EventMatcher.messageRoutine
  let counts (id : RoutineId) : Reading :=
    ⟨if id ∈ ids then s.running id else 0, s.recorded id⟩
  have hrun := run_matchingEventTriggers_read h s message content ids counts rfl rfl
  rw [hrun]
  split
  case isTrue hempty =>
    have hnone : s.event_cache.filterMap (EventMatcher.accepts message content) = [] := by
      refine List.eq_nil_iff_forall_not_mem.mpr fun routine hmem => ?_
      have hcounted : routine.id ∈ ids := messageRoutine_of_accepts hmem
      rw [List.isEmpty_iff.mp hempty] at hcounted
      cases hcounted
    exact ⟨[], rfl, by rw [hnone]; rfl⟩
  case isFalse =>
    cases hup : s.store_error with
    | some e =>
      have hrefused : ∀ routine, refuses h s routine = true := fun _ => by simp [refuses, hup]
      refine ⟨[], ?_, by simp [hrefused]⟩
      rw [EngineState.read, EngineState.stored, hup]
      rfl
    | none =>
      rw [EngineState.read, EngineState.stored, hup]
      exact run_matchEach h s hup message content fun routine hmem =>
        if_pos (messageRoutine_of_accepts hmem)

/-- **A message fires the routines it is for**, those the guardrails refuse apart. -/
theorem Arrival.fired_eq (h : Engine) (a : Arrival) :
    a.fired h = a.matching.filter fun routine => !refuses h a.state routine := by
  obtain ⟨s, message, content⟩ := a
  obtain ⟨triggered, hmatch, hmap⟩ := run_matchingEventTriggers h s message content
  obtain ⟨futures, hfutures, hroutines⟩ := run_fireTriggered s triggered
  have hchecked : Arrival.checked h ⟨s, message, content⟩ =
      ((fireTriggered triggered).run engineMachine s).2 := by
    rw [Arrival.checked, checkEventTriggers, Prog.run_bind, hmatch, Prog.run_bind]
    rfl
  rw [Arrival.fired, hchecked, hfutures, List.drop_left, hroutines, hmap]
  rfl

theorem Arrival.mem_fired_iff {h : Engine} {a : Arrival} {routine : Routine} :
    routine ∈ a.fired h ↔ routine ∈ a.matching ∧ refuses h a.state routine = false := by
  rw [a.fired_eq h, List.mem_filter, Bool.not_eq_true']

/-! ### Repeats -/

/-- Whenever a message repeats one that a routine was not refused for, within the routine's
window, the guardrails refuse the routine. -/
def RepeatsRefused (h : Engine) (arrivals : List Arrival) : Prop :=
  arrivals.Pairwise fun a b => ∀ r ∈ a.matching, ∀ r' ∈ b.matching, r.id = r'.id →
    a.content = b.content → ∀ window : ℕ, r'.guardrails.dedup_window = some window →
    b.state.now - a.state.now < (window : ℤ) → refuses h a.state r = false →
    refuses h b.state r' = true

/-- **Repeats are kept from firing only by the other guardrails.** Over every run of the engine,
no routine is fired twice for one content within its dedup window exactly when at each repeat its
cooldown, the cap on its runs or the capacity of the engine happens to refuse it. -/
theorem deduplicated_iff (h : Engine) (c : EngineConf) (run : List Happening) :
    Deduplicated h (arrivals h c run) ↔ RepeatsRefused h (arrivals h c run) := by
  refine List.Pairwise.iff fun a b => ⟨?_, ?_⟩
  · intro hwindow r hr r' hr' hid hcontent window hw hlt hok
    by_contra hfires
    rw [Bool.not_eq_true] at hfires
    have hle := hwindow r (Arrival.mem_fired_iff.mpr ⟨hr, hok⟩) r'
      (Arrival.mem_fired_iff.mpr ⟨hr', hfires⟩) hid hcontent window hw
    exact absurd hlt (not_lt.mpr hle)
  · intro hrefused r hr r' hr' hid hcontent window hw
    obtain ⟨hr, hok⟩ := Arrival.mem_fired_iff.mp hr
    obtain ⟨hr', hfires⟩ := Arrival.mem_fired_iff.mp hr'
    by_contra hlt
    have htrue := hrefused r hr r' hr' hid hcontent window hw (not_le.mp hlt) hok
    rw [hfires] at htrue
    cases htrue

/-! ### A repeat that fires -/

/-- A routine for deployments, of which two runs may go on at a time; the same message is not to
fire it again for ten minutes. -/
def Routine.sampleEvent : Routine :=
  { Routine.sample with
    trigger := .event none "deploy"
    guardrails := ⟨300 * 10 ^ 9, 2, some (600 * 10 ^ 9)⟩ }

def EngineState.deployments : EngineState :=
  { EngineState.sample with routines := KeyedStore.empty.insert Routine.sampleEvent }

/-- The message comes again after fifteen seconds, the run it has fired still going on. -/
def repeatedMessage : List Happening :=
  (call .refreshEventCache 0 2).map .move ++
    .message ⟨"alice", "slack"⟩ "deploy now" :: (call (.poll 0) 1 3).map .move ++
    [.move (.env (.clock (15 * 10 ^ 9))), .message ⟨"alice", "slack"⟩ "deploy now"]

/-- It fires the routine again. -/
theorem repeat_fires_twice : ∃ a b,
    arrivals (.sample 0) (.idle EngineState.deployments.rebooted) repeatedMessage = [a, b] ∧
      a.content = b.content ∧ b.state.now - a.state.now = 15 * 10 ^ 9 ∧
      ¬ Deduplicated (.sample 0) [a, b] := by
  let messages :=
    arrivals (.sample 0) (.idle EngineState.deployments.rebooted) repeatedMessage
  have hfires : ∀ a ∈ messages, (a.fired (.sample 0)).any (fun r => decide (r.id = ⟨1⟩ ∧
      r.guardrails.dedup_window = some (600 * 10 ^ 9))) = true := by decide +kernel
  have hmessages : messages.map (fun a => (a.content, a.state.now)) =
      [("deploy now", 0), ("deploy now", 15 * 10 ^ 9)] := by decide +kernel
  obtain ⟨a, rest, hab, ha, hrest⟩ := List.map_eq_cons_iff.mp hmessages
  obtain ⟨b, rest, rfl, hb, hnil⟩ := List.map_eq_cons_iff.mp hrest
  obtain rfl := List.map_eq_nil_iff.mp hnil
  have hnow : b.state.now - a.state.now = 15 * 10 ^ 9 := by
    rw [show a.state.now = 0 from congrArg Prod.snd ha,
      show b.state.now = 15 * 10 ^ 9 from congrArg Prod.snd hb, sub_zero]
  have hcontent : a.content = b.content := (congrArg Prod.fst (ha.trans rfl)).trans
    (congrArg Prod.fst hb).symm
  refine ⟨a, b, hab, hcontent, hnow, fun hd => ?_⟩
  obtain ⟨r, hr, hr₁⟩ := List.any_eq_true.mp (hfires a (hab ▸ List.mem_cons_self))
  obtain ⟨r', hr', hr₂⟩ := List.any_eq_true.mp
    (hfires b (hab ▸ List.mem_cons_of_mem _ List.mem_cons_self))
  have hid : r.id = r'.id := (of_decide_eq_true hr₁).1.trans (of_decide_eq_true hr₂).1.symm
  have hle := List.rel_of_pairwise_cons hd List.mem_cons_self r hr r' hr' hid hcontent _
    (of_decide_eq_true hr₂).2
  rw [hnow] at hle
  exact absurd hle (by decide)

end T3Claw.Routines
