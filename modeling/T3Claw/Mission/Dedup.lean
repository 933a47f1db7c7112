import T3Claw.Conc.Interference
import T3Claw.Data.Dedup
import T3Claw.Mission.Neutral

/-!
# The deduplication of events

Events come one after another through `fire_on_system_event`, `fire_on_message_event` and
`fire_on_webhook`. While one is delivered the rest of the system goes on: time passes, threads
and missions change, a store call fails. Nobody else touches the table of `dedup_event`, and
the windows of the missions stay.

What `dedup_event` said of each mission it was asked about, and whether a thread was spawned
then, is returned beside the answer (`fireOnVisits`); leaving it out gives the code back
(`visits_fst`).
-/

namespace T3Claw

open Conc

/-- A mission and a payload that came to its `dedup_event`. -/
abbrev EventVisit := Dedup.Visit (MissionId × Option Json)

/-- An event, with its way in. -/
inductive Event where
  | system (source event_type user_id : String) (payload : Option Json)
  | message (channel text user_id : String) (payload : Option Json)
  | webhook (webhook_path user_id : String) (payload : Option Json)

def Event.user_id : Event → String
  | .system _ _ user_id _ | .message _ _ user_id _ | .webhook _ user_id _ => user_id

def Event.payload : Event → Option Json
  | .system _ _ _ payload | .message _ _ _ payload | .webhook _ _ payload => payload

section

variable (h : Host)

/-- The mission waits for the event. -/
def Event.awaitedBy : Event → Mission → Act Bool
  | .system source event_type _ payload => systemEventMatches source event_type payload
  | .message channel text _ _ => messageMatches h channel text
  | .webhook webhook_path _ _ => webhookMatches webhook_path

/-- The entry point of an event. -/
def Event.deliver : Event → Act (Except EngineError (List ThreadId))
  | .system source event_type user_id payload =>
    fireOnSystemEvent h source event_type user_id payload
  | .message channel text user_id payload => fireOnMessageEvent h channel text user_id payload
  | .webhook webhook_path user_id payload => fireOnWebhook h webhook_path user_id payload

/-- `dedup_event`, with the instant it looked at the table, if it did. -/
def dedupAsked (id : MissionId) (key : String) (window_secs : ℕ) : Act (Bool × Option Time) :=
  if window_secs = 0 then pure (false, none)
  else do
    let now ← await .now
    let seen ← await (.dedupEvent id key (asI64 window_secs * SECOND) now)
    pure (seen, some now)

/-- The visit to record, if the table was looked at. -/
def askedVisit (id : MissionId) (payload : Option Json) (window_secs : ℕ)
    (asked : Bool × Option Time) (fired : Bool) : List EventVisit :=
  (asked.2.map fun now => ⟨(id, payload), window_secs * SECOND, now, asked.1, fired⟩).toList

/-- `fireOnLoop`, with its visits. -/
def fireOnVisits (fires : Mission → Act Bool) (user_id : String) (payload : Option Json) :
    List MissionId → Act (Except EngineError (List ThreadId) × List EventVisit)
  | [] => pure (.ok [], [])
  | mid :: rest => do
    match ← await (.loadMission mid) with
    | none => fireOnVisits fires user_id payload rest
    | some mission =>
      if !mission.isLive || !mission.firedBy user_id then
        fireOnVisits fires user_id payload rest
      else do
        let hit ← fires mission
        if !hit then fireOnVisits fires user_id payload rest
        else do
          let asked ← dedupAsked mid (h.payload_dedup_key payload) mission.dedup_window_secs
          let visit := askedVisit mid payload mission.dedup_window_secs asked
          if asked.1 then do
            let r ← fireOnVisits fires user_id payload rest
            pure (r.1, visit false ++ r.2)
          else do
            match ← fireMission h mid user_id payload with
            | .error e => pure (.error e, visit false)
            | .ok fired => do
              let r ← fireOnVisits fires user_id payload rest
              match r.1 with
              | .error e => pure (.error e, visit fired.isSome ++ r.2)
              | .ok spawned => pure (.ok (fired.toList ++ spawned), visit fired.isSome ++ r.2)

/-- The delivery of an event, with its visits. -/
def Event.visits (e : Event) : Act (Except EngineError (List ThreadId) × List EventVisit) := do
  let active_ids ← await .readActive
  fireOnVisits h (e.awaitedBy h) e.user_id e.payload active_ids

theorem dedupAsked_fst (id : MissionId) (key : String) (window_secs : ℕ) :
    (dedupAsked id key window_secs >>= fun asked => pure asked.1)
      = dedupEvent id key window_secs := by
  rw [dedupAsked, dedupEvent]
  split_ifs
  · rfl
  · rfl

theorem fireOnVisits_fst (fires : Mission → Act Bool) (user_id : String)
    (payload : Option Json) (ids : List MissionId) :
    (fireOnVisits h fires user_id payload ids >>= fun r => pure r.1)
      = fireOnLoop h fires user_id payload ids := by
  induction ids with
  | nil => rfl
  | cons mid rest ih =>
    rw [fireOnVisits, fireOnLoop, Prog.bind_bind]
    refine congrArg _ (funext fun r => ?_)
    rcases r with _ | mission
    · exact ih
    dsimp only
    by_cases hskip : (!mission.isLive || !mission.firedBy user_id) = true
    · rw [if_pos hskip, if_pos hskip, ih]
    rw [if_neg hskip, if_neg hskip, Prog.bind_bind]
    refine congrArg _ (funext fun hit => ?_)
    by_cases hhit : (!hit) = true
    · rw [if_pos hhit, if_pos hhit, ih]
    rw [if_neg hhit, if_neg hhit, Prog.bind_bind, ← dedupAsked_fst, Prog.bind_bind]
    refine congrArg _ (funext fun asked => ?_)
    rw [Prog.pure_eq, Prog.done_bind]
    by_cases hseen : asked.1 = true
    · rw [if_pos hseen, if_pos hseen, Prog.bind_bind, ← ih]
      rfl
    rw [if_neg hseen, if_neg hseen, Prog.bind_bind]
    refine congrArg _ (funext fun fired => ?_)
    rcases fired with e | fired
    · rfl
    rw [Prog.bind_bind, ← ih]
    dsimp only
    rw [Prog.bind_bind]
    refine congrArg _ (funext fun rest => ?_)
    rcases rest with ⟨e | spawned, visits⟩
    · rfl
    · rfl

/-- Leaving the visits out gives the code back. -/
theorem visits_fst (e : Event) : (e.visits h >>= fun r => pure r.1) = e.deliver h := by
  have hloop := fireOnVisits_fst h (e.awaitedBy h) e.user_id e.payload
  rw [Event.visits, Prog.bind_bind]
  cases e with
  | system => exact congrArg _ (funext hloop)
  | message => exact congrArg _ (funext hloop)
  | webhook => exact congrArg _ (funext hloop)

end

/-! ### Deliveries among everything else -/

/-- What others do while events are delivered. -/
structure World.Meanwhile (window : MissionId → ℕ) (w w' : World) : Prop where
  clock : w.clock ≤ w'.clock
  dedup_table : w'.dedup_table = w.dedup_table
  windows : ∀ m ∈ w'.missions, m.dedup_window_secs = window m.id

/-- The answer of a store call that failed, as the deliveries take it: no record, or nothing
written. (An index entry that can not be loaded ends the loop; the index may end there.) -/
def storeFails : (i : Instr) → Answer i → Prop
  | .loadMission _, r => r = none
  | .loadThread _, r => r = none
  | .saveMission _, _ => True
  | _, _ => False

/-- An instruction of a delivery, after what others did. -/
def deliveryStep (h : Host) (window : MissionId → ℕ) (i : Instr) (w : World) (r : Answer i)
    (w'' : World) : Prop :=
  ∃ w', w.Meanwhile window w' ∧
    ((r = (worldExec h i w').1 ∧ w'' = (worldExec h i w').2) ∨ (storeFails i r ∧ w'' = w'))

/-- Events delivered one after another, with all their visits. -/
inductive Deliveries (h : Host) (window : MissionId → ℕ) :
    List Event → World → List EventVisit → World → Prop
  | nil {w : World} : Deliveries h window [] w [] w
  | cons {e : Event} {events : List Event} {w w' w'' : World}
      {r : Except EngineError (List ThreadId)} {visits visits' : List EventVisit}
      (hdeliver : (e.visits h).Ends (deliveryStep h window) w (r, visits) w')
      (hrest : Deliveries h window events w' visits' w'') :
    Deliveries h window (e :: events) w (visits ++ visits') w''

/-! ### Programs that do not ask -/

section Quiet

variable {h : Host} {window : MissionId → ℕ} {α : Type} {Q : α → Prop} {m : Mission}

/-- The records a program reads have the windows of their missions. -/
def ReadsWindows (window : MissionId → ℕ) : (i : Instr) → Answer i → Prop
  | .loadMission id, r => ∀ m : Mission, r = some m → m.id = id ∧ m.dedup_window_secs = window id
  | _, _ => True

/-- The instruction does not ask `dedup_event`, and a record it writes has its window. -/
def Instr.leavesDedup (window : MissionId → ℕ) : Instr → Prop
  | .saveMission m => m.dedup_window_secs = window m.id
  | .updateMissionStatus .. | .dedupEvent .. => False
  | _ => True

/-- The program does not ask `dedup_event`. -/
abbrev LeavesDedup (window : MissionId → ℕ) (p : Act α) (Q : α → Prop := fun _ => True) : Prop :=
  p.Obeys (ReadsWindows window) (Instr.leavesDedup window) Q

theorem Instr.isSilent.leavesDedup {i : Instr} (hi : i.isSilent) : i.leavesDedup window := by
  cases i with
  | saveMission | updateMissionStatus | dedupEvent => exact hi.elim
  | _ => trivial

/-- A silent program does not ask. -/
theorem Silent.leavesDedup {p : Act α} (hp : Silent p Q) : LeavesDedup window p Q :=
  hp.weaken (fun _ _ _ => trivial) fun _ hi => hi.leavesDedup

/-- A fire writes back the window it read. -/
theorem leavesDedup_fireMission {id : MissionId} {user : String} {payload : Option Json} :
    LeavesDedup window (fireMission h id user payload) := by
  refine FireRules.fireMission (P := fun m => m.dedup_window_secs = window m.id)
    ⟨fun _ hi => hi.leavesDedup, fun _ _ => ⟨trivial, trivial⟩, fun m hm => ?_, ?_,
      fun m hm => hm, fun _ _ _ _ => trivial, fun _ _ _ _ => trivial, fun _ _ _ => trivial⟩
  · obtain ⟨rfl, hwindow⟩ := hm m rfl
    exact hwindow
  · rintro m _ hm ⟨_, _, _, _, _, _, rfl⟩
    exact hm

theorem leavesDedup_awaitedBy (e : Event) (m : Mission) :
    LeavesDedup window (e.awaitedBy h m) := by
  cases e with
  | system => exact silent_systemEventMatches.leavesDedup
  | message => exact silent_messageMatches.leavesDedup
  | webhook => exact silent_webhookMatches.leavesDedup

end Quiet

/-! ### What a delivery does -/

/-- The key `dedup_event` keeps a mission and a payload under. -/
def dedupKey (h : Host) (key : MissionId × Option Json) : MissionId × String :=
  (key.1, h.payload_dedup_key key.2)

/-- From one world to another by visits of payloads in `P`. -/
structure Delivered (h : Host) (window : MissionId → ℕ) (P : Option Json → Prop) (w : World)
    (visits : List EventVisit) (w' : World) : Prop where
  follows : Dedup.Follows (dedupKey h) w.dedup_table visits w'.dedup_table
  clock : w.clock ≤ w'.clock
  windows : ∀ m ∈ w'.missions, m.dedup_window_secs = window m.id
  sorted : visits.Pairwise fun u v => u.now ≤ v.now
  within : ∀ v ∈ visits, w.clock ≤ v.now ∧ v.now ≤ w'.clock
  payload : ∀ v ∈ visits, P v.key.2
  window_eq : ∀ v ∈ visits, v.window = window v.key.1 * SECOND
  fired : ∀ v ∈ visits, v.fired = true → v.seen = false

section Delivered

variable {h : Host} {window : MissionId → ℕ} {P : Option Json → Prop} {w w' w'' : World}
  {visits visits' : List EventVisit}

theorem Delivered.trans (hw : Delivered h window P w visits w')
    (hw' : Delivered h window P w' visits' w'') :
    Delivered h window P w (visits ++ visits') w'' where
  follows := Dedup.follows_append.mpr ⟨_, hw.follows, hw'.follows⟩
  clock := hw.clock.trans hw'.clock
  windows := hw'.windows
  sorted := List.pairwise_append.mpr ⟨hw.sorted, hw'.sorted, fun u hu v hv =>
    (hw.within u hu).2.trans (hw'.within v hv).1⟩
  within v hv := by
    rcases List.mem_append.mp hv with hv | hv
    · exact ⟨(hw.within v hv).1, (hw.within v hv).2.trans hw'.clock⟩
    · exact ⟨hw.clock.trans (hw'.within v hv).1, (hw'.within v hv).2⟩
  payload v hv := (List.mem_append.mp hv).elim (hw.payload v) (hw'.payload v)
  window_eq v hv := (List.mem_append.mp hv).elim (hw.window_eq v) (hw'.window_eq v)
  fired v hv := (List.mem_append.mp hv).elim (hw.fired v) (hw'.fired v)

/-- Nothing was asked. -/
theorem Delivered.none (hclock : w.clock ≤ w'.clock) (htable : w'.dedup_table = w.dedup_table)
    (hwindows : ∀ m ∈ w'.missions, m.dedup_window_secs = window m.id) :
    Delivered h window P w [] w' :=
  ⟨htable, hclock, hwindows, .nil, nofun, nofun, nofun, nofun⟩

theorem clock_worldExec {i : Instr} : (worldExec h i w).2.clock = w.clock := by
  cases i with
  | pushActiveIfAbsent | dedupEvent | spawnThread =>
    simp only [worldExec]
    split <;> rfl
  | compileRegex =>
    simp only [worldExec]
    split
    · rfl
    · split <;> rfl
  | _ => rfl

theorem dedup_table_worldExec {i : Instr} (hi : i.leavesDedup window) :
    (worldExec h i w).2.dedup_table = w.dedup_table := by
  cases i with
  | dedupEvent => exact hi.elim
  | pushActiveIfAbsent | spawnThread =>
    simp only [worldExec]
    split <;> rfl
  | compileRegex =>
    simp only [worldExec]
    split
    · rfl
    · split <;> rfl
  | _ => rfl

theorem windows_worldExec {i : Instr} (hi : i.leavesDedup window)
    (hw : ∀ m ∈ w.missions, m.dedup_window_secs = window m.id) :
    ∀ m ∈ (worldExec h i w).2.missions, m.dedup_window_secs = window m.id := by
  by_cases hsave : ∃ m, i = .saveMission m
  · obtain ⟨m, rfl⟩ := hsave
    intro m' hm'
    rcases KeyedStore.mem_insert.mp hm' with rfl | ⟨hm', -⟩
    · exact hi
    · exact hw m' hm'
  · have hstatus : ∀ id s, i ≠ .updateMissionStatus id s := by
      rintro id s rfl
      exact hi
    rw [missions_worldExec (fun m hm => hsave ⟨m, hm⟩) hstatus]
    exact hw

/-- One instruction that does not ask. -/
theorem deliveryStep_leaves {i : Instr} {r : Answer i} (hi : i.leavesDedup window)
    (hstep : deliveryStep h window i w r w'') :
    ReadsWindows window i r ∧ Delivered h window P w [] w'' := by
  obtain ⟨w', hmeanwhile, ⟨rfl, rfl⟩ | ⟨hfail, rfl⟩⟩ := hstep
  · refine ⟨?_, Delivered.none ?_ ?_ ?_⟩
    · cases i with
      | loadMission id =>
        intro m hm
        obtain ⟨hmem, hid⟩ := KeyedStore.get?_eq_some_iff.mp hm
        exact ⟨hid, hid ▸ hmeanwhile.windows m hmem⟩
      | _ => trivial
    · rw [clock_worldExec]
      exact hmeanwhile.clock
    · rw [dedup_table_worldExec hi, hmeanwhile.dedup_table]
    · exact windows_worldExec hi hmeanwhile.windows
  · refine ⟨?_, Delivered.none hmeanwhile.clock hmeanwhile.dedup_table hmeanwhile.windows⟩
    cases i with
    | loadMission id =>
      intro m hm
      obtain rfl : r = none := hfail
      cases hm
    | _ => trivial

/-- A program that does not ask. -/
theorem LeavesDedup.delivered {α : Type} {p : Act α} {Q : α → Prop} {a : α}
    (hp : LeavesDedup window p Q) (hw : ∀ m ∈ w.missions, m.dedup_window_secs = window m.id)
    (hends : p.Ends (deliveryStep h window) w a w') :
    Delivered h window P w [] w' ∧ Q a := by
  refine Prog.Ends.of_obeys (fun i s r s' hs hi hstep => ?_) hp
    (Delivered.none le_rfl rfl hw) hends
  obtain ⟨hr, hd⟩ := deliveryStep_leaves hi hstep
  exact ⟨hr, hs.trans hd⟩

theorem asI64_of_lt {n : ℕ} (hn : n < 2 ^ 63) : asI64 n = n := by
  rw [asI64, Nat.mod_eq_of_lt (hn.trans (by decide)), if_pos hn]

/-- What `dedup_event` answers and does, as a visit. -/
theorem worldExec_dedupEvent {v : EventVisit} (hseen : v.seen
      = (w.dedup_table (dedupKey h v.key)).any fun last => v.now - last < v.window) :
    worldExec h (.dedupEvent v.key.1 (h.payload_dedup_key v.key.2) v.window v.now) w
      = (v.seen, { w with dedup_table := v.record (dedupKey h) w.dedup_table }) := by
  rw [dedupKey] at hseen
  cases hv : v.seen with
  | true =>
    rw [worldExec, if_pos (hseen.symm.trans hv), Dedup.Visit.record, hv, if_pos rfl]
  | false =>
    have hnot := Bool.eq_false_iff.mp (hseen.symm.trans hv)
    rw [worldExec, if_neg hnot, Dedup.Visit.record, hv, if_neg Bool.false_ne_true]
    rfl

/-- One visit. -/
theorem Delivered.visit {v : EventVisit} (hseen : v.seen
      = (w.dedup_table (dedupKey h v.key)).any fun last => v.now - last < v.window)
    (htable : w'.dedup_table = v.record (dedupKey h) w.dedup_table)
    (hwindows : ∀ m ∈ w'.missions, m.dedup_window_secs = window m.id)
    (hfrom : w.clock ≤ v.now) (hto : v.now ≤ w'.clock) (hpayload : P v.key.2)
    (hwindow : v.window = window v.key.1 * SECOND) (hfired : v.fired = true → v.seen = false) :
    Delivered h window P w [v] w' := by
  refine ⟨⟨hseen, htable⟩, hfrom.trans hto, hwindows, List.pairwise_singleton _ _, ?_, ?_, ?_, ?_⟩
  · intro u hu
    obtain rfl := List.mem_singleton.mp hu
    exact ⟨hfrom, hto⟩
  · intro u hu
    obtain rfl := List.mem_singleton.mp hu
    exact hpayload
  · intro u hu
    obtain rfl := List.mem_singleton.mp hu
    exact hwindow
  · intro u hu
    obtain rfl := List.mem_singleton.mp hu
    exact hfired

/-- The question of `dedup_event`, whatever is to come of the event. -/
theorem delivered_asked {id : MissionId} {payload : Option Json} {asked : Bool × Option Time}
    (hfit : window id < 2 ^ 63) (hpayload : P payload)
    (hw : ∀ m ∈ w.missions, m.dedup_window_secs = window m.id)
    (hends : (dedupAsked id (h.payload_dedup_key payload) (window id)).Ends
      (deliveryStep h window) w asked w') {fired : Bool} (hfired : fired = true → asked.1 = false) :
    Delivered h window P w (askedVisit id payload (window id) asked fired) w' := by
  rw [dedupAsked] at hends
  split_ifs at hends with hzero
  · obtain ⟨rfl, rfl⟩ := Prog.ends_done.mp hends
    exact Delivered.none le_rfl rfl hw
  · obtain ⟨now, wnow, hnow, hrest⟩ := Prog.ends_act.mp hends
    obtain ⟨seen, wasked, hask, hrest⟩ := Prog.ends_act.mp hrest
    obtain ⟨rfl, rfl⟩ := Prog.ends_done.mp hrest
    obtain ⟨w₁, hmeanwhile, ⟨rfl, hw₁⟩ | ⟨hfail, -⟩⟩ := hnow
    case inr => exact hfail.elim
    obtain rfl : wnow = w₁ := hw₁
    obtain ⟨wask, hmeanwhile', ⟨hseen, hw'⟩ | ⟨hfail, -⟩⟩ := hask
    case inr => exact hfail.elim
    have htable : wask.dedup_table = w.dedup_table :=
      hmeanwhile'.dedup_table.trans hmeanwhile.dedup_table
    let v : EventVisit := ⟨(id, payload), window id * SECOND, wnow.clock,
      (w.dedup_table (dedupKey h (id, payload))).any fun last =>
        wnow.clock - last < window id * SECOND, fired⟩
    have hv : v.seen
        = (wask.dedup_table (dedupKey h v.key)).any fun last => v.now - last < v.window := by
      rw [htable]
    have hexec : worldExec h (.dedupEvent id (h.payload_dedup_key payload)
        (asI64 (window id) * SECOND) wnow.clock) wask
          = (v.seen, { wask with dedup_table := v.record (dedupKey h) wask.dedup_table }) := by
      rw [asI64_of_lt hfit]
      exact worldExec_dedupEvent hv
    obtain rfl : seen = v.seen := hseen.trans (congrArg Prod.fst hexec)
    obtain rfl := hw'.trans (congrArg Prod.snd hexec)
    refine Delivered.visit (v := v) rfl ?_ hmeanwhile'.windows hmeanwhile.clock
      hmeanwhile'.clock hpayload rfl hfired
    rw [← htable]

/-- The loop over the missions, by induction on the index. -/
theorem delivered_loop {fires : Mission → Act Bool} {user : String} {payload : Option Json}
    (hfit : ∀ id, window id < 2 ^ 63) (hpayload : P payload)
    (hfires : ∀ m, LeavesDedup window (fires m)) (ids : List MissionId) :
    ∀ (w : World) (r : Except EngineError (List ThreadId) × List EventVisit) (w' : World),
      (∀ m ∈ w.missions, m.dedup_window_secs = window m.id) →
      (fireOnVisits h fires user payload ids).Ends (deliveryStep h window) w r w' →
      Delivered h window P w r.2 w' := by
  induction ids with
  | nil =>
    intro w r w' hw hends
    obtain ⟨rfl, rfl⟩ := Prog.ends_done.mp hends
    exact Delivered.none le_rfl rfl hw
  | cons mid rest ih =>
    intro w r w' hw hends
    -- whatever comes first, if it asks nothing the rest is the whole
    have hskip : ∀ w₁, Delivered h window P w [] w₁ →
        (fireOnVisits h fires user payload rest).Ends (deliveryStep h window) w₁ r w' →
        Delivered h window P w r.2 w' :=
      fun w₁ hd hrest => hd.trans (ih w₁ r w' hd.windows hrest)
    rw [fireOnVisits, await_bind] at hends
    obtain ⟨loaded, w₁, hload, hends⟩ := Prog.ends_act.mp hends
    obtain ⟨hloaded, hd₁⟩ : _ ∧ Delivered h window P w [] w₁ :=
      deliveryStep_leaves (i := .loadMission mid) trivial hload
    rcases loaded with _ | mission
    · exact hskip w₁ hd₁ hends
    obtain ⟨rfl, hwindow⟩ := hloaded mission rfl
    dsimp only at hends
    split_ifs at hends
    case pos => exact hskip w₁ hd₁ hends
    obtain ⟨hit, w₂, hfire, hends⟩ := Prog.ends_bind.mp hends
    have hd₂ := hd₁.trans ((hfires mission).delivered hd₁.windows hfire).1
    split_ifs at hends
    case pos => exact hskip w₂ hd₂ hends
    obtain ⟨asked, w₃, hask, hends⟩ := Prog.ends_bind.mp hends
    rw [hwindow] at hask hends
    have hasked : ∀ fired : Bool, (fired = true → asked.1 = false) → Delivered h window P w₂
        (askedVisit mission.id payload (window mission.id) asked fired) w₃ := fun fired hfired =>
      delivered_asked (hfit mission.id) hpayload hd₂.windows hask hfired
    split_ifs at hends with hseen
    · obtain ⟨later, w₄, hrest, hdone⟩ := Prog.ends_bind.mp hends
      obtain ⟨rfl, rfl⟩ := Prog.ends_done.mp hdone
      have hd₃ := hd₂.trans (hasked false nofun)
      exact hd₃.trans (ih w₃ later w' hd₃.windows hrest)
    · obtain ⟨outcome, w₄, hfired, hends⟩ := Prog.ends_bind.mp hends
      have hd₃ : ∀ fired : Bool, Delivered h window P w
          (askedVisit mission.id payload (window mission.id) asked fired) w₄ := fun fired => by
        have hvisit := hd₂.trans (hasked fired fun _ => Bool.eq_false_iff.mpr hseen)
        have hquiet : Delivered h window P w₃ [] w₄ :=
          (leavesDedup_fireMission.delivered hvisit.windows hfired).1
        simpa only [List.nil_append, List.append_nil] using hvisit.trans hquiet
      rcases outcome with e | fired
      · obtain ⟨rfl, rfl⟩ := Prog.ends_done.mp hends
        exact hd₃ false
      obtain ⟨later, w₅, hrest, hends⟩ := Prog.ends_bind.mp hends
      have hd₄ := (hd₃ fired.isSome).trans (ih w₄ later w₅ (hd₃ false).windows hrest)
      rcases later with ⟨e | spawned, visits⟩
      · obtain ⟨rfl, rfl⟩ := Prog.ends_done.mp hends
        exact hd₄
      · obtain ⟨rfl, rfl⟩ := Prog.ends_done.mp hends
        exact hd₄

theorem delivered_event {e : Event} {r : Except EngineError (List ThreadId) × List EventVisit}
    (hfit : ∀ id, window id < 2 ^ 63) (hpayload : P e.payload)
    (hends : (e.visits h).Ends (deliveryStep h window) w r w') :
    Delivered h window P w r.2 w' := by
  rw [Event.visits, await_bind] at hends
  obtain ⟨ids, w₁, hread, hloop⟩ := Prog.ends_act.mp hends
  obtain ⟨-, hd⟩ : _ ∧ Delivered h window P w [] w₁ :=
    deliveryStep_leaves (i := .readActive) trivial hread
  exact hd.trans (delivered_loop hfit hpayload (leavesDedup_awaitedBy e) ids w₁ r w' hd.windows
    hloop)

/-- The events of a run, one after another. -/
theorem Deliveries.delivered {events : List Event} (hrun : Deliveries h window events w visits w')
    (hfit : ∀ id, window id < 2 ^ 63) (hpayload : ∀ e ∈ events, P e.payload)
    (hw : ∀ m ∈ w.missions, m.dedup_window_secs = window m.id) :
    Delivered h window P w visits w' := by
  induction hrun with
  | nil => exact Delivered.none le_rfl rfl hw
  | cons hdeliver hrest ih =>
    have hd := delivered_event hfit (hpayload _ List.mem_cons_self) hdeliver
    exact hd.trans (ih (fun e he => hpayload e (List.mem_cons_of_mem _ he)) hd.windows)

/-- **When a skipped event is a repeat.** From a new manager on, an event is skipped for a
mission exactly when an equal one fired it within its window, if and only if no event that was
let through and did not fire is followed by an equal one within the window. -/
theorem skipped_iff_repeated {h : Host} {window : MissionId → ℕ} {events : List Event}
    {w w' : World} {visits : List EventVisit} (hnew : w.dedup_table = fun _ => none)
    (hw : ∀ m ∈ w.missions, m.dedup_window_secs = window m.id)
    (hfit : ∀ id, window id ≤ (2 ^ 63 - 1) / 1000)
    (hinj : ∀ e ∈ events, ∀ e' ∈ events, h.payload_dedup_key e.payload
      = h.payload_dedup_key e'.payload → e.payload = e'.payload)
    (hrun : Deliveries h window events w visits w') :
    Dedup.SkipsRepeats visits ↔ Dedup.WastesNone visits := by
  have hlt : ∀ id, window id < 2 ^ 63 := fun id => (hfit id).trans_lt (by decide)
  have hd : Delivered h window (fun p => ∃ e ∈ events, e.payload = p) w visits w' :=
    hrun.delivered hlt (fun e he => ⟨e, he, rfl⟩) hw
  have hfollows := hd.follows
  rw [hnew] at hfollows
  refine hfollows.skipsRepeats_iff hd.sorted (fun u hu v hv hkey => ?_) (fun u hu v hv hkey => ?_)
    hd.fired
  · obtain ⟨e, he, hpayload⟩ := hd.payload u hu
    obtain ⟨e', he', hpayload'⟩ := hd.payload v hv
    have hmission : (dedupKey h u.key).1 = (dedupKey h v.key).1 := congrArg Prod.fst hkey
    have htext : (dedupKey h u.key).2 = (dedupKey h v.key).2 := congrArg Prod.snd hkey
    have hhash : h.payload_dedup_key e.payload = h.payload_dedup_key e'.payload := by
      rw [hpayload, hpayload']
      exact htext
    exact Prod.ext hmission
      (hpayload.symm.trans ((hinj e he e' he' hhash).trans hpayload'))
  · rw [hd.window_eq u hu, hd.window_eq v hv, hkey]

end Delivered

/-! ### One event, twice -/

section Twice

/-- A mission that waits for failed builds; equal events within an hour are one. -/
private def buildMission : Mission :=
  { Mission.new ⟨1⟩ 0 ⟨1⟩ "ada" "builds" "look into failed builds"
      (.onSystemEvent "ci" "failed" []) with
    dedup_window_secs := 3600 }

private def buildWorld : World :=
  { World.fresh 0 with missions := KeyedStore.empty.insert buildMission, active := [⟨1⟩] }

private def buildFailed : Event := .system "ci" "failed" "ada" (some (.str "build 7"))

/-- No budget in the first minute. -/
private def poorHost : Host :=
  { plainHost with budget_gate := some fun now _ _ => 60 * SECOND ≤ now }

private def hourWindow : MissionId → ℕ := fun _ => 3600

private def inOrder (w : World) : Bool :=
  w.missions.values.all fun m => m.dedup_window_secs = hourWindow m.id

/-- The event comes at the start and again after 100 seconds, with nothing else going on. -/
private theorem buildFailed_twice (h : Host) {w' w'' : World}
    {r r' : Except EngineError (List ThreadId) × List EventVisit}
    (hfirst : (buildFailed.visits h).runWhile (missionMachine h) inOrder buildWorld
      = some (r, w'))
    (hsecond : (buildFailed.visits h).runWhile (missionMachine h) inOrder
      { w' with clock := 100 * SECOND } = some (r', w''))
    (hclock : w'.clock ≤ 100 * SECOND) :
    Deliveries h hourWindow [buildFailed, buildFailed] buildWorld (r.2 ++ (r'.2 ++ [])) w'' := by
  have hstep : ∀ i w, inOrder w = true →
      deliveryStep h hourWindow i w (worldExec h i w).1 (worldExec h i w).2 := by
    intro i w hw
    refine ⟨w, ⟨le_rfl, rfl, fun m hm => ?_⟩, .inl ⟨rfl, rfl⟩⟩
    exact of_decide_eq_true (List.all_eq_true.mp hw m hm)
  have hdeliver : (buildFailed.visits h).Ends (deliveryStep h hourWindow) w' (r'.1, r'.2) w'' := by
    obtain ⟨active, w₁, ⟨w₂, hmeanwhile, hanswer⟩, hrest⟩ :=
      Prog.ends_act.mp (Prog.ends_of_runWhile hstep hsecond)
    exact .act ⟨w₂, ⟨hclock.trans hmeanwhile.clock, hmeanwhile.dedup_table,
      hmeanwhile.windows⟩, hanswer⟩ hrest
  exact .cons (Prog.ends_of_runWhile hstep hfirst) (.cons hdeliver .nil)

private theorem hourWindow_fits (id : MissionId) : hourWindow id ≤ (2 ^ 63 - 1) / 1000 := by
  rw [hourWindow]
  decide

private theorem buildWorld_windows :
    ∀ m ∈ buildWorld.missions, m.dedup_window_secs = hourWindow m.id := by
  intro m hm
  obtain rfl := List.mem_singleton.mp (show m ∈ [buildMission] from hm)
  rfl

private theorem buildFailed_inj (h : Host) : ∀ e ∈ [buildFailed, buildFailed],
    ∀ e' ∈ [buildFailed, buildFailed], h.payload_dedup_key e.payload
      = h.payload_dedup_key e'.payload → e.payload = e'.payload := by
  intro e he e' he' _
  obtain rfl : e = buildFailed := by simpa using he
  obtain rfl : e' = buildFailed := by simpa using he'
  rfl

/-- The first time there is no budget, and no thread; the second time the event is taken for a
repeat. -/
theorem refused_event_hides_next : ¬ ∀ h window events w w' visits,
    (w.dedup_table = fun _ => none) →
    (∀ m ∈ w.missions, m.dedup_window_secs = window m.id) →
    (∀ id, window id ≤ (2 ^ 63 - 1) / 1000) →
    (∀ e ∈ events, ∀ e' ∈ events, h.payload_dedup_key e.payload
      = h.payload_dedup_key e'.payload → e.payload = e'.payload) →
    Deliveries h window events w visits w' → Dedup.SkipsRepeats visits := by
  intro hall
  have hskips := hall poorHost hourWindow [buildFailed, buildFailed] buildWorld _ _ rfl
    buildWorld_windows hourWindow_fits (buildFailed_inj poorHost)
    (buildFailed_twice poorHost rfl rfl (by decide))
  obtain ⟨j, u, hj, hu, hfired, -⟩ := (hskips 1 _ rfl).mp rfl
  obtain rfl : j = 0 := by omega
  obtain rfl := Option.some.inj hu
  cases hfired

theorem skipped_iff_repeated_sample : ∃ visits w',
    Deliveries plainHost hourWindow [buildFailed, buildFailed] buildWorld visits w' ∧
      (Dedup.SkipsRepeats visits ↔ Dedup.WastesNone visits) :=
  have hrun := buildFailed_twice plainHost rfl rfl (by decide)
  ⟨_, _, hrun, skipped_iff_repeated rfl buildWorld_windows hourWindow_fits
    (buildFailed_inj plainHost) hrun⟩

end Twice

end T3Claw
