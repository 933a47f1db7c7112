import T3Claw.Routines.Trigger

/-!
# Routines in the database

`Trigger::from_db` and `RoutineAction::from_db`, which read what `to_config_json` writes: fields
of the wrong type are errors or take their defaults, a time zone that does not parse is dropped,
and the tool rounds are clamped. What is written is read back (`Routine.config_reread`), and the
fingerprint does not see in which order the map of the filters is walked.
-/

namespace T3Claw.Routines

/-- `RoutineError`, the variants that reading a configuration produces. -/
inductive ConfigError where
  | unknownTriggerType (trigger_type : String)
  | unknownActionType (action_type : String)
  | missingField (context field : String)
  deriving DecidableEq

/-- `Display`. -/
def ConfigError.display : ConfigError → String
  | unknownTriggerType trigger_type => "Unknown trigger type: " ++ trigger_type
  | unknownActionType action_type => "Unknown action type: " ++ action_type
  | missingField context field => "Missing field in " ++ context ++ ": " ++ field

/-- A field that has to be a string. -/
def requiredStr (config : Json) (context field : String) : Except ConfigError String :=
  match (config.get? field).bind Json.asStr? with
  | some s => .ok s
  | none => .error (.missingField context field)

/-- A field that may be a string. -/
def optionalStr (config : Json) (field : String) : Option String :=
  (config.get? field).bind Json.asStr?

/-- `Trigger::from_db`. -/
def Trigger.fromDb (crates : Crates) (trigger_type : String) (config : Json) :
    Except ConfigError Trigger :=
  match trigger_type with
  | "cron" => do
    let schedule ← requiredStr config "cron trigger" "schedule"
    let timezone := (optionalStr config "timezone").filter crates.parse_timezone
    .ok (.cron schedule timezone)
  | "event" => do
    let pattern ← requiredStr config "event trigger" "pattern"
    let channel := optionalStr config "channel"
    .ok (.event channel pattern)
  | "system_event" => do
    let source ← requiredStr config "system_event trigger" "source"
    let event_type ← requiredStr config "system_event trigger" "event_type"
    let filters :=
      match config.get? "filters" with
      | some (.obj m) => m.filterMap fun f => (jsonValueAsFilterString f.2).map fun s => (f.1, s)
      | _ => []
    .ok (.systemEvent source event_type filters)
  | "webhook" => .ok (.webhook (optionalStr config "path") (optionalStr config "secret"))
  | "manual" => .ok .manual
  | other => .error (.unknownTriggerType other)

def defaultMaxTokens : ℕ := 4096

def defaultMaxIterations : ℕ := 25

def defaultMaxToolRounds : ℕ := 3

def MAX_TOOL_ROUNDS_LIMIT : ℕ := 20

/-- `clamp_max_tool_rounds`. -/
def clampMaxToolRounds (value : ℕ) : ℕ := max 1 (min value MAX_TOOL_ROUNDS_LIMIT)

/-- A field of 64 bits without a sign, with a default. -/
def u64Or (config : Json) (field : String) (default : ℕ) : ℕ :=
  ((config.get? field).bind Json.asU64?).getD default

/-- `RoutineAction::from_db`; the casts to `u32` drop the upper bits. -/
def RoutineAction.fromDb (action_type : String) (config : Json) :
    Except ConfigError RoutineAction :=
  match action_type with
  | "lightweight" => do
    let prompt ← requiredStr config "lightweight action" "prompt"
    let context_paths :=
      (((config.get? "context_paths").bind Json.asArray?).map fun arr =>
        arr.filterMap Json.asStr?).getD []
    let max_tokens := u64Or config "max_tokens" defaultMaxTokens % 2 ^ 32
    let use_tools := ((config.get? "use_tools").bind Json.asBool?).getD false
    let max_tool_rounds :=
      clampMaxToolRounds (u64Or config "max_tool_rounds" defaultMaxToolRounds)
    .ok (.lightweight prompt context_paths max_tokens use_tools max_tool_rounds)
  | "full_job" => do
    let title ← requiredStr config "full_job action" "title"
    let description ← requiredStr config "full_job action" "description"
    let max_iterations := u64Or config "max_iterations" defaultMaxIterations % 2 ^ 32
    .ok (.fullJob title description max_iterations)
  | other => .error (.unknownActionType other)

/-! ### What can be stored -/

/-- The trigger is one that the source can build, the keys of its filters being distinct, and its
time zone parses. -/
structure Trigger.Storable (crates : Crates) (trigger : Trigger) : Prop where
  timezone : ∀ schedule tz, trigger = .cron schedule (some tz) → crates.parse_timezone tz = true
  filters : ∀ source event_type filters, trigger = .systemEvent source event_type filters →
    (filters.map Prod.fst).Nodup

/-- The numbers of the action are of 32 bits, and the rounds within their limits. -/
def RoutineAction.Storable : RoutineAction → Prop
  | .lightweight _ _ max_tokens _ max_tool_rounds =>
    max_tokens < 2 ^ 32 ∧ 1 ≤ max_tool_rounds ∧ max_tool_rounds ≤ 20
  | .fullJob _ _ max_iterations => max_iterations < 2 ^ 32

/-- The same trigger, its filters perhaps walked in another order. -/
inductive Trigger.Same : Trigger → Trigger → Prop where
  | refl (trigger : Trigger) : Same trigger trigger
  | filters (source event_type : String) {filters filters' : List (String × String)}
      (h : filters.Perm filters') :
      Same (.systemEvent source event_type filters) (.systemEvent source event_type filters')

/-! ### The fingerprint -/

/-- Canonical fields are the fields, sorted. -/
theorem canonicalizeFields_eq (fields : List (String × Json)) : canonicalizeFields fields =
    (fields.map canonicalizeField).insertionSort fun f g => f.1 ≤ g.1 := by
  induction fields with
  | nil => rfl
  | cons field fields ih => rw [canonicalizeFields, ih, List.map_cons, List.insertionSort_cons]

theorem canonicalizeField_fst (field : String × Json) : (canonicalizeField field).1 = field.1 := by
  rw [canonicalizeField]

/-- The order of the fields of a map is lost in its canonical form. -/
theorem canonicalizeFields_perm {fields fields' : List (String × Json)}
    (h : fields.Perm fields') (hnodup : (fields.map Prod.fst).Nodup) :
    canonicalizeFields fields = canonicalizeFields fields' := by
  let r : String × Json → String × Json → Prop := fun f g => f.1 ≤ g.1
  have : IsTrans (String × Json) r := ⟨fun _ _ _ => String.le_trans⟩
  have : Std.Total r := ⟨fun f g => String.le_total f.1 g.1⟩
  have hperm := h.map canonicalizeField
  have hkeys : ((fields.map canonicalizeField).map Prod.fst).Nodup := by
    rw [List.map_map, show Prod.fst ∘ canonicalizeField = Prod.fst from
      funext canonicalizeField_fst]
    exact hnodup
  rw [canonicalizeFields_eq, canonicalizeFields_eq]
  have hsorted := fun l => List.pairwise_insertionSort r l
  refine List.Perm.eq_of_pairwise ?_ (hsorted _) (hsorted _)
    ((List.perm_insertionSort r _).trans (hperm.trans (List.perm_insertionSort r _).symm))
  -- fields of one key are one field
  intro f g hf hg hfg hgf
  rw [List.mem_insertionSort] at hf hg
  exact List.inj_on_of_nodup_map hkeys hf (hperm.mem_iff.mpr hg) (String.le_antisymm hfg hgf)

/-- The configuration of the same trigger has the same canonical form. -/
theorem canonicalizeJsonValue_toConfigJson {crates : Crates} {trigger trigger' : Trigger}
    (hstorable : trigger.Storable crates) (h : trigger.Same trigger') :
    canonicalizeJsonValue trigger.toConfigJson = canonicalizeJsonValue trigger'.toConfigJson := by
  cases h with
  | refl => rfl
  | @filters source event_type filters filters' h =>
    have hfilters : canonicalizeFields (filters.map fun f => (f.1, .str f.2)) =
        canonicalizeFields (filters'.map fun f => (f.1, .str f.2)) := by
      refine canonicalizeFields_perm (h.map _) ?_
      rw [List.map_map]
      exact hstorable.filters source event_type filters rfl
    simp only [Trigger.toConfigJson, canonicalizeJsonValue, canonicalizeFields, canonicalizeField,
      hfilters]

theorem Trigger.Same.typeTag {trigger trigger' : Trigger} (h : trigger.Same trigger') :
    trigger'.typeTag = trigger.typeTag := by
  cases h with
  | refl => rfl
  | filters => rfl

/-- The fingerprint is of the trigger, not of an order of its filters. -/
theorem routineVerificationFingerprint_congr {crates : Crates} {routine : Routine}
    {trigger : Trigger} (hstorable : routine.trigger.Storable crates)
    (h : routine.trigger.Same trigger) :
    routineVerificationFingerprint crates { routine with trigger } =
      routineVerificationFingerprint crates routine := by
  have htag : trigger.typeTag = routine.trigger.typeTag := h.typeTag
  have hconfig := canonicalizeJsonValue_toConfigJson hstorable h
  simp only [routineVerificationFingerprint, canonicalizeJsonValue, canonicalizeFields,
    canonicalizeField, htag, hconfig]

/-! ### Reading back -/

section

variable {config : Json} {field : String}

theorem requiredStr_of_get? {s : String} (h : config.get? field = some (.str s))
    (context : String) : requiredStr config context field = .ok s := by
  rw [requiredStr, h]
  rfl

theorem optionalStr_of_get? {s : Option String} (h : config.get? field = some (optStr s)) :
    optionalStr config field = s := by
  rw [optionalStr, h]
  cases s <;> rfl

theorem u64Or_of_get? {n : ℕ} (h : config.get? field = some (.num n)) (default : ℕ) :
    u64Or config field default = n := by
  rw [u64Or, h]
  simp [Json.asU64?]

end

/-- The filters are read back one by one. -/
theorem filterMap_filters (filters : List (String × String)) :
    (filters.map fun f => (f.1, Json.str f.2)).filterMap
      (fun f => (jsonValueAsFilterString f.2).map fun s => (f.1, s)) = filters := by
  rw [List.filterMap_map]
  exact List.filterMap_some

theorem filterMap_context_paths (context_paths : List String) :
    (context_paths.map Json.str).filterMap Json.asStr? = context_paths := by
  rw [List.filterMap_map]
  exact List.filterMap_some

/-- Rounds within the limits are not clamped. -/
theorem clampMaxToolRounds_of_mem {n : ℕ} (hlow : 1 ≤ n) (hhigh : n ≤ 20) :
    clampMaxToolRounds n = n := by
  rw [clampMaxToolRounds, MAX_TOOL_ROUNDS_LIMIT]
  omega

theorem Trigger.fromDb_toConfigJson {crates : Crates} {trigger : Trigger}
    (h : trigger.Storable crates) :
    Trigger.fromDb crates trigger.typeTag trigger.toConfigJson = .ok trigger := by
  cases trigger with
  | cron schedule timezone =>
    have htimezone : timezone.filter crates.parse_timezone = timezone := by
      cases timezone with
      | none => rfl
      | some tz => simp [h.timezone schedule tz rfl]
    rw [typeTag, fromDb, requiredStr_of_get? (s := schedule) rfl,
      optionalStr_of_get? (s := timezone) rfl, htimezone]
    rfl
  | event channel pattern =>
    rw [typeTag, fromDb, requiredStr_of_get? (s := pattern) rfl,
      optionalStr_of_get? (s := channel) rfl]
    rfl
  | systemEvent source event_type filters =>
    rw [typeTag, fromDb, requiredStr_of_get? (s := source) rfl,
      requiredStr_of_get? (s := event_type) rfl]
    exact congrArg (fun filters => Except.ok (systemEvent source event_type filters))
      (filterMap_filters filters)
  | webhook path secret =>
    rw [typeTag, fromDb, optionalStr_of_get? (s := path) rfl,
      optionalStr_of_get? (s := secret) rfl]
  | manual => rfl

theorem RoutineAction.fromDb_toConfigJson {action : RoutineAction} (h : action.Storable) :
    RoutineAction.fromDb action.typeTag action.toConfigJson = .ok action := by
  cases action with
  | lightweight prompt context_paths max_tokens use_tools max_tool_rounds =>
    obtain ⟨htokens, hlow, hhigh⟩ := h
    rw [typeTag, fromDb, requiredStr_of_get? (s := prompt) rfl,
      u64Or_of_get? (n := max_tokens) rfl, u64Or_of_get? (n := max_tool_rounds) rfl,
      Nat.mod_eq_of_lt htokens, clampMaxToolRounds_of_mem hlow hhigh]
    exact congrArg
      (fun paths => Except.ok (lightweight prompt paths max_tokens use_tools max_tool_rounds))
      (filterMap_context_paths context_paths)
  | fullJob title description max_iterations =>
    rw [typeTag, fromDb, requiredStr_of_get? (s := title) rfl,
      requiredStr_of_get? (s := description) rfl, u64Or_of_get? (n := max_iterations) rfl,
      Nat.mod_eq_of_lt h]
    rfl

/-- **A routine's configuration survives the database**: trigger and action are read back as they
were, and the fingerprint is the same, in whatever order the filters are then walked. -/
theorem Routine.config_reread {crates : Crates} (routine : Routine)
    (htrigger : routine.trigger.Storable crates) (haction : routine.action.Storable) :
    ∃ trigger action,
      Trigger.fromDb crates routine.trigger.typeTag routine.trigger.toConfigJson = .ok trigger ∧
      RoutineAction.fromDb routine.action.typeTag routine.action.toConfigJson = .ok action ∧
      trigger = routine.trigger ∧ action = routine.action ∧
      ∀ trigger', trigger.Same trigger' →
        routineVerificationFingerprint crates { routine with trigger := trigger', action } =
          routineVerificationFingerprint crates routine :=
  ⟨routine.trigger, routine.action, Trigger.fromDb_toConfigJson htrigger,
    RoutineAction.fromDb_toConfigJson haction, rfl, rfl,
    fun _ hsame => routineVerificationFingerprint_congr htrigger hsame⟩

/-- The small instance, where the names of the time zones are known that are used below. -/
def Crates.zoned : Crates := { Crates.sample with parse_timezone := (· == "Europe/Berlin") }

/-- A routine with a time zone. -/
def Routine.sampleZoned : Routine :=
  { Routine.sample with
    trigger := .cron "0 9 * * MON-FRI" (some "Europe/Berlin")
    action := .lightweight "Summarise the inbox." ["context/priorities.md"] 4096 true 20 }

theorem Routine.config_reread_zoned : ∃ trigger action,
    Trigger.fromDb .zoned Routine.sampleZoned.trigger.typeTag
        Routine.sampleZoned.trigger.toConfigJson = .ok trigger ∧
      RoutineAction.fromDb Routine.sampleZoned.action.typeTag
        Routine.sampleZoned.action.toConfigJson = .ok action ∧
      trigger = Routine.sampleZoned.trigger ∧ action = Routine.sampleZoned.action ∧
      ∀ trigger', trigger.Same trigger' →
        routineVerificationFingerprint .zoned
            { Routine.sampleZoned with trigger := trigger', action } =
          routineVerificationFingerprint .zoned Routine.sampleZoned := by
  refine Routine.config_reread Routine.sampleZoned ⟨?_, ?_⟩ ⟨by decide, by decide, by decide⟩
  · intro schedule tz h
    cases h
    decide
  · intro source event_type filters h
    cases h

end T3Claw.Routines
