import Mathlib.Data.List.Perm.Subperm
import Mathlib.Data.List.Range
import Mathlib.Data.List.TakeWhile
import T3Claw.Mission.Neutral

/-!
# What the accounts of a mission are worth

A mission record carries its own accounts: the threads spawned for it, how many of them today,
when it last fired. The limits are checked against them and never against the threads
themselves. `Fit` says what can be relied on however stale a copy of the record is: each
thread it lists is there, and no more of the listed threads are from today than it counts.
That survives everything the others do (`Fit.later`). What a stale copy can not promise is to
list all threads, so that is for a run to see to at the moment of a spawn.

The fire log of a user is a queue of instants that loses its front when a check finds it
expired. `RateKept` ties it to the fires recorded since the run began, which are read off the
log of the run.
-/

namespace T3Claw

open Conc

/-! ### Threads counted two ways -/

/-- Elements known by their position: those of a kind are no more than the list of positions
that has them all. -/
theorem countP_le_of_listed {α : Type*} {p : α → Bool} {l : List α} {ids : List ℕ}
    (h : ∀ i a, l[i]? = some a → p a = true → i ∈ ids) :
    l.countP p ≤ ids.countP fun i => (l[i]?).any p := by
  have hrange : l.countP p = ((List.range l.length).filter fun i => (l[i]?).any p).length := by
    clear h
    induction l using List.reverseRecOn with
    | nil => rfl
    | append_singleton l a ih =>
      have hold : (List.range l.length).filter (fun i => ((l ++ [a])[i]?).any p) =
          (List.range l.length).filter fun i => (l[i]?).any p := by
        refine List.filter_congr fun i hi => ?_
        rw [List.getElem?_append_left (List.mem_range.mp hi)]
      rw [List.countP_append, List.length_append, List.length_singleton, List.range_succ,
        List.filter_append, List.length_append, hold, ← ih, List.countP_singleton]
      simp only [List.filter_singleton, List.getElem?_concat_length, Option.any_some]
      cases p a <;> rfl
  rw [hrange, List.countP_eq_length_filter]
  refine (List.Nodup.subperm (List.nodup_range.filter _) fun i hi => ?_).length_le
  obtain ⟨-, hp⟩ := List.mem_filter.mp hi
  obtain ⟨a, ha, hpa⟩ := (Option.any_eq_true _ _).mp hp
  exact List.mem_filter.mpr ⟨h i a ha hpa, hp⟩

/-- One element replaced by one that is of the kind only if it was. -/
theorem countP_set_le {α : Type*} {p : α → Bool} {l : List α} {i : ℕ} {a b : α}
    (ha : l[i]? = some a) (h : p b = true → p a = true) : (l.set i b).countP p ≤ l.countP p := by
  induction l generalizing i with
  | nil => cases ha
  | cons x l ih =>
    cases i with
    | zero =>
      obtain rfl := Option.some.inj ha
      rw [List.set_cons_zero, List.countP_cons, List.countP_cons]
      by_cases hb : p b = true
      · rw [if_pos hb, if_pos (h hb)]
      · rw [if_neg hb]
        omega
    | succ i =>
      have hle := ih (i := i) ha
      rw [List.set_cons_succ, List.countP_cons, List.countP_cons]
      omega

/-! ### What the accounts are about -/

namespace World

/-- The threads spawned for a mission on a day. -/
def spawnedOn (w : World) (id : MissionId) (d : ℤ) : ℕ :=
  w.threads.countP fun t => t.mission = some id && day t.created_at = d

/-- The threads of a mission that are not terminal. -/
def running (w : World) (id : MissionId) : ℕ :=
  w.threads.countP fun t => t.mission = some id && !t.state.isTerminal

/-- The threads a record lists that were spawned on a day. -/
def listedOn (w : World) (m : Mission) (d : ℤ) : ℕ :=
  m.thread_history.countP fun tid => (w.thread? tid).any fun t => day t.created_at = d

end World

/-- The threads a record counts for a day. -/
def Mission.countedOn (m : Mission) (d : ℤ) : ℕ :=
  if m.last_fire_at.any fun last => day last = d then m.threads_today.toNat else 0

/-- The limits of a mission on its threads. -/
def Mission.limits (m : Mission) : UInt32 × UInt32 := (m.max_threads_per_day, m.max_concurrent)

/-- The accounts of a record, or of a copy of it, are worth something: the store still has the
mission under the same limits, each thread listed is there, and no more of them are from today
than are counted. (The counter may have stopped at its greatest value.) -/
structure Fit (w : World) (m : Mission) : Prop where
  limits : ∃ r, w.missions.get? m.id = some r ∧ r.limits = m.limits
  listed : ∀ tid ∈ m.thread_history, ∃ t, w.thread? tid = some t ∧ t.created_at ≤ w.clock
  honest : 0 < m.max_threads_per_day →
    min (w.listedOn m (day w.clock)) (2 ^ 32 - 1) ≤ m.countedOn (day w.clock)

/-- What nobody undoes: time passes, threads stay and stay terminal, limits stay. -/
structure World.Later (w w' : World) : Prop where
  clock : w.clock ≤ w'.clock
  threads : ∀ tid t, w.thread? tid = some t → ∃ t', w'.thread? tid = some t' ∧
    t'.mission = t.mission ∧ t'.created_at = t.created_at ∧
    (t.state.isTerminal = true → t'.state.isTerminal = true)
  limits : ∀ id r, w.missions.get? id = some r →
    ∃ r', w'.missions.get? id = some r' ∧ r'.limits = r.limits

theorem World.Later.refl (w : World) : w.Later w :=
  ⟨le_rfl, fun _ t ht => ⟨t, ht, rfl, rfl, id⟩, fun _ r hr => ⟨r, hr, rfl⟩⟩

theorem World.Later.trans {w w' w'' : World} (h : w.Later w') (h' : w'.Later w'') :
    w.Later w'' := by
  refine ⟨h.clock.trans h'.clock, fun tid t ht => ?_, fun id r hr => ?_⟩
  · obtain ⟨t', ht', hm', hc', hs'⟩ := h.threads tid t ht
    obtain ⟨t'', ht'', hm'', hc'', hs''⟩ := h'.threads tid t' ht'
    exact ⟨t'', ht'', hm''.trans hm', hc''.trans hc', fun hs => hs'' (hs' hs)⟩
  · obtain ⟨r', hr', hl'⟩ := h.limits id r hr
    obtain ⟨r'', hr'', hl''⟩ := h'.limits id r' hr'
    exact ⟨r'', hr'', hl''.trans hl'⟩

section

variable {w w' : World} {m : Mission}

/-- On the day of `w` a record lists the same threads later on. -/
theorem listedOn_later (hm : ∀ tid ∈ m.thread_history, ∃ t, w.thread? tid = some t)
    (h : w.Later w') (d : ℤ) : w'.listedOn m d = w.listedOn m d := by
  refine List.countP_congr fun tid htid => ?_
  obtain ⟨t, ht⟩ := hm tid htid
  obtain ⟨t', ht', -, hcreated, -⟩ := h.threads tid t ht
  rw [ht, ht', Option.any_some, Option.any_some, hcreated]

/-- A record lists no thread of a day later than all of them. -/
theorem listedOn_eq_zero {last : Time} {d : ℤ}
    (hm : ∀ tid ∈ m.thread_history, ∃ t, w.thread? tid = some t ∧ t.created_at ≤ last)
    (hd : day last < d) : w.listedOn m d = 0 := by
  refine List.countP_eq_zero.mpr fun tid htid => ?_
  obtain ⟨t, ht, hle⟩ := hm tid htid
  have hlt := (day_mono hle).trans_lt hd
  simp [ht, hlt.ne]

/-- **Accounts keep their worth.** -/
theorem Fit.later (hm : Fit w m) (h : w.Later w') : Fit w' m := by
  have hlisted : ∀ tid ∈ m.thread_history, ∃ t, w'.thread? tid = some t ∧
      t.created_at ≤ w.clock := by
    intro tid htid
    obtain ⟨t, ht, hle⟩ := hm.listed tid htid
    obtain ⟨t', ht', -, hcreated, -⟩ := h.threads tid t ht
    exact ⟨t', ht', hcreated.trans_le hle⟩
  refine ⟨?_, fun tid htid => ?_, fun hlimit => ?_⟩
  · obtain ⟨r, hr, hl⟩ := hm.limits
    obtain ⟨r', hr', hl'⟩ := h.limits _ r hr
    exact ⟨r', hr', hl'.trans hl⟩
  · obtain ⟨t, ht, hle⟩ := hlisted tid htid
    exact ⟨t, ht, hle.trans h.clock⟩
  · rcases (day_mono h.clock).eq_or_lt with hday | hday
    · rw [← hday, listedOn_later (fun tid htid => (hm.listed tid htid).imp fun _ => And.left) h]
      exact hm.honest hlimit
    · -- a new day, and no thread listed is of it
      rw [listedOn_eq_zero hlisted hday]
      exact Nat.zero_le _

end

/-! ### The fire log -/

/-- The fires recorded for a user since the run began, in order. -/
def fires (user : String) (m : Memory Instr World) : List Time :=
  (m.log.filterMap fun e =>
    match e.2 with
    | .recordUserRate user' ts => if user' = user then some ts else none
    | _ => none).reverse

/-- The instruction records no fire. -/
def Instr.recordsNoFire : Instr → Prop
  | .recordUserRate .. => False
  | _ => True

theorem fires_after {M : Machine Instr Answer World} {m : Memory Instr World} {k : ℕ}
    {i : Instr} {user : String} (hi : i.recordsNoFire) :
    fires user (m.after M k i) = fires user m := by
  cases i with
  | recordUserRate => exact hi.elim
  | _ => rfl

theorem fires_after_record {M : Machine Instr Answer World} {m : Memory Instr World} {k : ℕ}
    {user user' : String} {ts : Time} : fires user (m.after M k (.recordUserRate user' ts)) =
      fires user m ++ if user' = user then [ts] else [] := by
  rw [fires, Memory.log_after, List.filterMap_cons]
  by_cases huser : user' = user
  · simp only [if_pos huser]
    rw [List.reverse_cons, fires]
  · simp only [if_neg huser]
    rw [List.append_nil, fires]

/-- No fire recorded since the log was `old`. -/
theorem fires_append {s s' : World} {new old : List (ℕ × Instr)} {user : String}
    (hnew : ∀ e ∈ new, ∀ ts, e.2 ≠ .recordUserRate user ts) :
    fires user ⟨s', new ++ old⟩ = fires user ⟨s, old⟩ := by
  have hnone : (new.filterMap fun e : ℕ × Instr =>
      match e.2 with
      | .recordUserRate user' ts => if user' = user then some ts else none
      | _ => none) = [] := by
    refine List.filterMap_eq_nil_iff.mpr fun e he => ?_
    split
    case h_1 user' ts hts =>
      refine if_neg fun huser => ?_
      subst huser
      exact hnew e he ts hts
    case h_2 => rfl
  rw [fires, List.filterMap_append, hnone, List.nil_append, fires]

/-- The queue of a user is what is left of the recorded fires, all expired ones aside; it is
within the limit, and so is every window of the recorded fires. -/
structure RateKept (h : Host) (user : String) (m : Memory Instr World) : Prop where
  queue : ∃ gone, fires user m = gone ++ m.state.user_fire_log user ∧
    ∀ ts ∈ gone, ts < m.state.clock - h.rate_limit.window
  room : (m.state.user_fire_log user).length ≤ h.rate_limit.max_fires.toNat
  window : ∀ a : Time, (fires user m).countP
    (fun ts : Time => a ≤ ts && ts ≤ a + h.rate_limit.window) ≤ h.rate_limit.max_fires.toNat

/-! ### The invariant -/

/-- The watcher's thread was there when the fire took its instant. -/
def Watched (w : World) (tid : ThreadId) (t : Time) : Prop :=
  ∃ th, w.thread? tid = some th ∧ th.created_at ≤ t ∧ t ≤ w.clock

/-- **The accounts are in order and the limits kept.** -/
structure InOrder (h : Host) (m : Memory Instr World) : Prop where
  records : ∀ r ∈ m.state.missions, Fit m.state r
  created : ∀ t ∈ m.state.threads, t.created_at ≤ m.state.clock
  watched : ∀ x ∈ m.state.watchers, Watched m.state x.thread_id x.original_fire_at
  daily : ∀ r ∈ m.state.missions, 0 < r.max_threads_per_day →
    ∀ d, m.state.spawnedOn r.id d ≤ r.max_threads_per_day.toNat
  concurrent : ∀ r ∈ m.state.missions, 0 < r.max_concurrent →
    m.state.running r.id ≤ r.max_concurrent.toNat
  rate : ∀ user, RateKept h user m

/-- What nobody undoes, the log of the run included: no fire comes back into a queue. -/
structure Later (m m' : Memory Instr World) : Prop where
  world : m.state.Later m'.state
  fires : ∀ user, (T3Claw.fires user m).length + (m'.state.user_fire_log user).length ≤
    (T3Claw.fires user m').length + (m.state.user_fire_log user).length

theorem Later.refl (m : Memory Instr World) : Later m m := ⟨.refl _, fun _ => le_rfl⟩

theorem Later.trans {m m' m'' : Memory Instr World} (h : Later m m') (h' : Later m' m'') :
    Later m m'' := by
  refine ⟨h.world.trans h'.world, fun user => ?_⟩
  have h₁ := h.fires user
  have h₂ := h'.fires user
  omega

theorem Watched.later {w w' : World} {tid : ThreadId} {t : Time} (hw : Watched w tid t)
    (h : w.Later w') : Watched w' tid t := by
  obtain ⟨th, hth, hle, hclock⟩ := hw
  obtain ⟨th', hth', -, hcreated, -⟩ := h.threads tid th hth
  exact ⟨th', hth', hcreated.trans_le hle, hclock.trans h.clock⟩

/-! ### What a run must avoid -/

/-- The copy a fire spawns from lists every thread of the mission its limits ask about: those
of today, and those running. (And its cron expression parses: else the fire will not count for
today.) -/
def ListsAll (h : Host) (w : World) (c : Mission) : Prop :=
  (0 < c.max_threads_per_day → c.schedulable h = true ∧ ∀ tid t, w.thread? tid = some t →
    t.mission = some c.id → day t.created_at = day w.clock → tid ∈ c.thread_history) ∧
  (0 < c.max_concurrent → ∀ tid t, w.thread? tid = some t →
    t.mission = some c.id → t.state.isTerminal = false → tid ∈ c.thread_history)

/-- The record an outcome processor loads has its thread, or no fire of a later day than the
one the thread was spawned by. -/
def NotBackdated (w : World) (id : MissionId) (tid : ThreadId) (t : Time) : Prop :=
  ∀ r, w.missions.get? id = some r → 0 < r.max_threads_per_day → tid ∉ r.thread_history →
    ∀ last, r.last_fire_at = some last → day last ≤ day t

/-- Since task `k` last checked the user's log, no other fire of that user was recorded. -/
def NotOvertaken (k : ℕ) (user : String) (log : List (ℕ × Instr)) : Prop :=
  ∀ new t old, log = new ++ (k, .checkUserRate user t) :: old →
    (∀ e ∈ new, ∀ t', e ≠ (k, .checkUserRate user t')) →
    ∀ e ∈ new, ∀ ts, e.2 ≠ .recordUserRate user ts

/-- The step acts on no copy and on no check that others have overtaken. -/
def Unraced (h : Host) (op : Op) (k : ℕ) : Instr → Memory Instr World → Prop
  | .spawnThread c _ _, m => ListsAll h m.state c
  | .loadMission id, m =>
    match op with
    | .processOutcome _ tid _ t => NotBackdated m.state id tid t
    | _ => True
  | .recordUserRate user _, m => NotOvertaken k user m.log
  | _, _ => True

/-! ### One step -/

section

variable {h : Host} {m m' : Memory Instr World} {k : ℕ} {c : Mission}

theorem RateKept.passes {user : String} (hr : RateKept h user m)
    (hf : fires user m' = fires user m)
    (hq : m'.state.user_fire_log user = m.state.user_fire_log user)
    (hc : m.state.clock ≤ m'.state.clock) : RateKept h user m' := by
  refine ⟨?_, by rw [hq]; exact hr.room, by rw [hf]; exact hr.window⟩
  obtain ⟨gone, hgone, hold⟩ := hr.queue
  refine ⟨gone, by rw [hf, hq]; exact hgone, fun ts hts => (hold ts hts).trans_le ?_⟩
  exact Int.sub_le_sub_right hc _

/-- The limits bound the record of the store, so they bound every fit copy. -/
theorem Fit.stored (hc : Fit m.state c) : ∃ r ∈ m.state.missions, r.id = c.id ∧
    r.max_threads_per_day = c.max_threads_per_day ∧ r.max_concurrent = c.max_concurrent := by
  obtain ⟨r, hr, hl⟩ := hc.limits
  obtain ⟨hmem, hid⟩ := KeyedStore.get?_eq_some_iff.mp hr
  exact ⟨r, hmem, hid, congrArg Prod.fst hl, congrArg Prod.snd hl⟩

/-- **A step keeps everything in order** when it leads to a later state, the records it leaves
are fit, and the threads within the limits. -/
theorem InOrder.next (hm : InOrder h m) (hl : Later m m')
    (hrecords : ∀ r ∈ m'.state.missions, Fit m.state r)
    (hcreated : ∀ t ∈ m'.state.threads, t.created_at ≤ m'.state.clock)
    (hwatched : ∀ x ∈ m'.state.watchers, x ∈ m.state.watchers ∨
      Watched m'.state x.thread_id x.original_fire_at)
    (hdaily : ∀ r ∈ m.state.missions, 0 < r.max_threads_per_day →
      ∀ d, m'.state.spawnedOn r.id d ≤ r.max_threads_per_day.toNat)
    (hconcurrent : ∀ r ∈ m.state.missions, 0 < r.max_concurrent →
      m'.state.running r.id ≤ r.max_concurrent.toNat)
    (hrate : ∀ user, RateKept h user m') : InOrder h m' := by
  refine ⟨fun r hr => (hrecords r hr).later hl.world, hcreated, fun x hx => ?_, ?_, ?_, hrate⟩
  · exact (hwatched x hx).elim (fun hx => (hm.watched x hx).later hl.world) id
  · intro r hr hlimit d
    obtain ⟨r₀, hr₀, hid, hmax, -⟩ := (hrecords r hr).stored
    rw [← hid, ← hmax]
    exact hdaily r₀ hr₀ (hmax ▸ hlimit) d
  · intro r hr hlimit
    obtain ⟨r₀, hr₀, hid, -, hmax⟩ := (hrecords r hr).stored
    rw [← hid, ← hmax]
    exact hconcurrent r₀ hr₀ (hmax ▸ hlimit)

/-- The threads and the clock as they were. -/
theorem World.Later.of_threads {w w' : World} (hclock : w'.clock = w.clock)
    (hthreads : w'.threads = w.threads) (hlimits : ∀ id r, w.missions.get? id = some r →
      ∃ r', w'.missions.get? id = some r' ∧ r'.limits = r.limits) : w.Later w' := by
  refine ⟨hclock.ge, fun tid t ht => ⟨t, ?_, rfl, rfl, id⟩, hlimits⟩
  rw [World.thread?, hthreads]
  exact ht

theorem spawnedOn_congr {w w' : World} (hthreads : w'.threads = w.threads) (id : MissionId)
    (d : ℤ) : w'.spawnedOn id d = w.spawnedOn id d := by
  rw [World.spawnedOn, hthreads, World.spawnedOn]

theorem running_congr {w w' : World} (hthreads : w'.threads = w.threads) (id : MissionId) :
    w'.running id = w.running id := by
  rw [World.running, hthreads, World.running]

/-- A step that leaves threads and clock alone, and the missions fit. -/
theorem InOrder.keep (hm : InOrder h m) (hl : Later m m')
    (hclock : m'.state.clock = m.state.clock) (hthreads : m'.state.threads = m.state.threads)
    (hrecords : ∀ r ∈ m'.state.missions, Fit m.state r)
    (hwatched : ∀ x ∈ m'.state.watchers, x ∈ m.state.watchers ∨
      Watched m'.state x.thread_id x.original_fire_at)
    (hrate : ∀ user, RateKept h user m') : InOrder h m' := by
  refine hm.next hl hrecords (fun t ht => ?_) hwatched (fun r hr hlimit d => ?_)
    (fun r hr hlimit => ?_) hrate
  · rw [hthreads] at ht
    rw [hclock]
    exact hm.created t ht
  · rw [spawnedOn_congr hthreads]
    exact hm.daily r hr hlimit d
  · rw [running_congr hthreads]
    exact hm.concurrent r hr hlimit

/-- What is neutral keeps everything in order. -/
theorem InOrder.neutral (hm : InOrder h m) {i : Instr} (hi : i.isNeutral) :
    InOrder h (m.after (missionMachine h) k i) ∧ Later m (m.after (missionMachine h) k i) := by
  have hcore : m.state.SameCore (m.after (missionMachine h) k i).state := sameCore_of_neutral hi
  have hfires : ∀ user, fires user (m.after (missionMachine h) k i) = fires user m := by
    intro user
    refine fires_after ?_
    cases i with
    | recordUserRate => exact hi.elim
    | _ => trivial
  have hl : Later m (m.after (missionMachine h) k i) := by
    refine ⟨.of_threads hcore.clock hcore.threads fun id r hr => ⟨r, ?_, rfl⟩, fun user => ?_⟩
    · rw [hcore.missions]
      exact hr
    · rw [hfires, hcore.user_fire_log]
  refine ⟨hm.keep hl hcore.clock hcore.threads (fun r hr => ?_) (fun x hx => ?_) ?_, hl⟩
  · rw [hcore.missions] at hr
    exact hm.records r hr
  · rw [hcore.watchers] at hx
    exact .inl hx
  · intro user
    exact (hm.rate user).passes (hfires user) (by rw [hcore.user_fire_log]) hcore.clock.ge

/-- A fit copy may be saved. -/
theorem InOrder.save (hm : InOrder h m) (hc : Fit m.state c) :
    InOrder h (m.after (missionMachine h) k (.saveMission c)) ∧
      Later m (m.after (missionMachine h) k (.saveMission c)) := by
  have hl : Later m (m.after (missionMachine h) k (.saveMission c)) := by
    refine ⟨.of_threads rfl rfl fun id r hr => ?_, fun user => le_rfl⟩
    by_cases hid : id = c.id
    · subst hid
      obtain ⟨r₀, hr₀, hlimits⟩ := hc.limits
      obtain rfl := Option.some.inj (hr₀.symm.trans hr)
      exact ⟨c, KeyedStore.get?_insert_self _ _, hlimits.symm⟩
    · exact ⟨r, (KeyedStore.get?_insert_of_ne hid).trans hr, rfl⟩
  refine ⟨hm.keep hl rfl rfl (fun r hr => ?_) (fun x hx => .inl hx) fun user => ?_, hl⟩
  · rcases KeyedStore.mem_insert.mp hr with rfl | ⟨hr, -⟩
    · exact hc
    · exact hm.records r hr
  · exact (hm.rate user).passes rfl rfl le_rfl

/-- A watcher is installed for a thread that is there. -/
theorem InOrder.watch (hm : InOrder h m) {id : MissionId} {tid : ThreadId} {t : Time}
    (hw : Watched m.state tid t) :
    InOrder h (m.after (missionMachine h) k (.spawnOutcomeWatcher id tid t)) ∧
      Later m (m.after (missionMachine h) k (.spawnOutcomeWatcher id tid t)) := by
  have hl : Later m (m.after (missionMachine h) k (.spawnOutcomeWatcher id tid t)) :=
    ⟨.of_threads rfl rfl fun _ r hr => ⟨r, hr, rfl⟩, fun user => le_rfl⟩
  refine ⟨hm.keep hl rfl rfl hm.records (fun x hx => ?_) fun user => ?_, hl⟩
  · rcases List.mem_append.mp hx with hx | hx
    · exact .inl hx
    · obtain rfl := List.mem_singleton.mp hx
      exact .inr (hw.later hl.world)
  · exact (hm.rate user).passes rfl rfl le_rfl

/-! ### A spawn -/

/-- The threads a record lists that are not terminal. -/
def World.listedRunning (w : World) (c : Mission) : ℕ :=
  c.thread_history.countP fun tid => (w.thread? tid).any fun t => !t.state.isTerminal

/-- Threads of a kind that are all listed are counted by the list. -/
theorem countP_threads_le {w : World} {p q : SpawnedThread → Bool} {ids : List ThreadId}
    (h : ∀ tid t, w.thread? tid = some t → p t = true → tid ∈ ids)
    (hpq : ∀ t, p t = true → q t = true) :
    w.threads.countP p ≤ ids.countP fun tid => (w.thread? tid).any q := by
  have hlisted : w.threads.countP p ≤
      (ids.map ThreadId.uuid).countP fun i => (w.threads[i]?).any p :=
    countP_le_of_listed fun i t ht hp =>
      List.mem_map_of_mem (f := ThreadId.uuid) (h ⟨i⟩ t ht hp)
  rw [List.countP_map] at hlisted
  refine hlisted.trans (List.countP_mono_left fun tid _ hp => ?_)
  obtain ⟨t, ht, hpt⟩ := (Option.any_eq_true _ _).mp hp
  exact (Option.any_eq_true _ _).mpr ⟨t, ht, hpq t hpt⟩

/-- What a spawn does, refused or not. -/
theorem exec_spawnThread (w : World) (prompt user : String) :
    ∃ t, (worldExec h (.spawnThread c prompt user) w).2 = { w with threads := w.threads ++ [t] } ∧
      t.created_at = w.clock ∧ t.state = .created ∧
      (t.mission = none ∨ t.mission = some c.id) ∧
      ∀ tid, (worldExec h (.spawnThread c prompt user) w).1 = .ok tid →
        tid = ⟨w.threads.length⟩ := by
  rw [worldExec]
  split
  case h_1 => exact ⟨_, rfl, rfl, rfl, .inl rfl, fun tid htid => by cases htid⟩
  case h_2 => exact ⟨_, rfl, rfl, rfl, .inr rfl, fun tid htid => (Except.ok.inj htid).symm⟩

/-- Room for one more: a count that stops at the greatest 32-bit value is below a limit. -/
theorem lt_of_min_le {n a b : ℕ} (h : min n (2 ^ 32 - 1) ≤ a) (hab : a < b) (hb : b < 2 ^ 32) :
    n + 1 ≤ b := by
  omega

/-- **A spawn from a copy that lists what its limits ask about keeps the limits.** -/
theorem InOrder.spawn (hm : InOrder h m) (hc : Fit m.state c) (hall : ListsAll h m.state c)
    (hbudget : 0 < c.max_threads_per_day → c.threads_today < c.max_threads_per_day)
    (hroom : 0 < c.max_concurrent → m.state.listedRunning c < c.max_concurrent.toNat)
    {prompt user : String} :
    InOrder h (m.after (missionMachine h) k (.spawnThread c prompt user)) ∧
      Later m (m.after (missionMachine h) k (.spawnThread c prompt user)) := by
  obtain ⟨t, hstate, hcreated, hstarted, hmission, -⟩ :=
    @exec_spawnThread h c m.state prompt user
  have hstate' : (m.after (missionMachine h) k (.spawnThread c prompt user)).state =
      { m.state with threads := m.state.threads ++ [t] } := hstate
  have hl : Later m (m.after (missionMachine h) k (.spawnThread c prompt user)) := by
    refine ⟨?_, fun user' => ?_⟩
    · rw [hstate']
      refine ⟨le_rfl, fun tid th hth => ⟨th, ?_, rfl, rfl, id⟩, fun _ r hr => ⟨r, hr, rfl⟩⟩
      have hlt := (List.getElem?_eq_some_iff.mp hth).1
      exact (List.getElem?_append_left hlt).trans hth
    · rw [hstate']
      exact le_rfl
  refine ⟨hm.next hl ?_ ?_ ?_ ?_ ?_ fun user' => ?_, hl⟩
  · rw [hstate']
    exact hm.records
  · rw [hstate']
    intro th hth
    rcases List.mem_append.mp hth with hth | hth
    · exact hm.created th hth
    · obtain rfl := List.mem_singleton.mp hth
      exact hcreated.le
  · rw [hstate']
    exact fun x hx => .inl hx
  · intro r hr hlimit d
    rw [hstate', World.spawnedOn, List.countP_append, List.countP_singleton]
    split
    case isFalse => exact hm.daily r hr hlimit d
    case isTrue hnew =>
      -- the new thread is of this mission and of today
      obtain ⟨hid, hd⟩ : t.mission = some r.id ∧ day t.created_at = d := by simpa using hnew
      have hidc : r.id = c.id := by
        rw [hid] at hmission
        exact Option.some.inj (hmission.resolve_left nofun)
      obtain ⟨r₀, hr₀, hid₀, hmax, -⟩ := hc.stored
      obtain rfl := KeyedStore.eq_of_mem hr hr₀ (hidc.trans hid₀.symm)
      have hlimitc : 0 < c.max_threads_per_day := hmax ▸ hlimit
      have hlists := (hall.1 hlimitc).2
      rw [← hcreated, hd] at hlists
      have hle : m.state.spawnedOn r.id d ≤ m.state.listedOn c d := by
        refine countP_threads_le (fun tid th hth hp => ?_) fun th hp => ?_
        · obtain ⟨hthm, hthd⟩ : th.mission = some r.id ∧ day th.created_at = d := by
            simpa using hp
          exact hlists tid th hth (hidc ▸ hthm) hthd
        · exact (Bool.and_eq_true_iff.mp hp).2
      have hhonest := hc.honest hlimitc
      rw [← hcreated, hd] at hhonest
      have hcounted : c.countedOn d ≤ c.threads_today.toNat := by
        rw [Mission.countedOn]
        split
        · exact le_rfl
        · exact Nat.zero_le _
      have hlt := UInt32.lt_iff_toNat_lt.mp (hbudget hlimitc)
      rw [hmax]
      exact (Nat.add_le_add_right hle 1).trans
        (lt_of_min_le (hhonest.trans hcounted) hlt c.max_threads_per_day.toNat_lt)
  · intro r hr hlimit
    rw [hstate', World.running, List.countP_append, List.countP_singleton]
    split
    case isFalse => exact hm.concurrent r hr hlimit
    case isTrue hnew =>
      obtain ⟨hid, -⟩ : t.mission = some r.id ∧ _ := by simpa using hnew
      have hidc : r.id = c.id := by
        rw [hid] at hmission
        exact Option.some.inj (hmission.resolve_left nofun)
      obtain ⟨r₀, hr₀, hid₀, -, hmax⟩ := hc.stored
      obtain rfl := KeyedStore.eq_of_mem hr hr₀ (hidc.trans hid₀.symm)
      have hlimitc : 0 < c.max_concurrent := hmax ▸ hlimit
      have hle : m.state.running r.id ≤ m.state.listedRunning c := by
        refine countP_threads_le (fun tid th hth hp => ?_) fun th hp => ?_
        · obtain ⟨hthm, hths⟩ : th.mission = some r.id ∧ th.state.isTerminal = false := by
            simpa using hp
          exact hall.2 hlimitc tid th hth (hidc ▸ hthm) hths
        · exact (Bool.and_eq_true_iff.mp hp).2
      rw [hmax]
      exact Nat.succ_le_of_lt (hle.trans_lt (hroom hlimitc))
  · exact (hm.rate user').passes (fires_after trivial) (by rw [hstate']) (by rw [hstate'])

/-! ### The fire log under checks and records -/

/-- What a check that admits has seen, and nobody has recorded a fire since: of the fires
recorded so far, fewer than the limit can share a window with a fire at `t` or later. -/
def HasRoom (h : Host) (user : String) (t : Time) (m : Memory Instr World) : Prop :=
  ∃ gone left, fires user m = gone ++ left ∧ left.length < h.rate_limit.max_fires.toNat ∧
    (∀ ts ∈ gone, ts < t - h.rate_limit.window) ∧
    (m.state.user_fire_log user).length ≤ left.length

/-- What a check does to the log of its user: it takes expired fires off the front. -/
theorem evicted_spec (w : World) (user : String) (cutoff : Time) :
    ∃ old, w.user_fire_log user = old ++ w.evicted user cutoff ∧ ∀ ts ∈ old, ts < cutoff :=
  ⟨_, List.takeWhile_append_dropWhile.symm, fun _ hts =>
    of_decide_eq_true (List.mem_takeWhile_imp (p := fun ts => decide (ts < cutoff)) hts)⟩

theorem InOrder.check (hm : InOrder h m) {user : String} {now : Time}
    (hnow : now ≤ m.state.clock) :
    InOrder h (m.after (missionMachine h) k (.checkUserRate user now)) ∧
      Later m (m.after (missionMachine h) k (.checkUserRate user now)) ∧
      ((worldExec h (.checkUserRate user now) m.state).1 = true →
        HasRoom h user m.state.clock (m.after (missionMachine h) k (.checkUserRate user now))) := by
  have hfires : ∀ user', fires user' (m.after (missionMachine h) k (.checkUserRate user now)) =
      fires user' m := fun _ => rfl
  obtain ⟨old, hold, hexpired⟩ := evicted_spec m.state user (now - h.rate_limit.window)
  have hqueue : ∀ user',
      (m.after (missionMachine h) k (.checkUserRate user now)).state.user_fire_log user' =
        if user' = user then m.state.evicted user (now - h.rate_limit.window)
        else m.state.user_fire_log user' := fun user' => Function.update_apply ..
  have hlength : (m.state.evicted user (now - h.rate_limit.window)).length ≤
      (m.state.user_fire_log user).length := by
    rw [hold, List.length_append]
    omega
  have hl : Later m (m.after (missionMachine h) k (.checkUserRate user now)) := by
    refine ⟨.of_threads rfl rfl fun _ r hr => ⟨r, hr, rfl⟩, fun user' => ?_⟩
    rw [hfires, hqueue]
    split
    case isTrue huser =>
      subst huser
      exact Nat.add_le_add_left hlength _
    case isFalse => exact le_rfl
  have hrate : ∀ user', RateKept h user'
      (m.after (missionMachine h) k (.checkUserRate user now)) := by
    intro user'
    by_cases huser : user' = user
    · subst huser
      obtain ⟨gone, hgone, hout⟩ := (hm.rate user').queue
      refine ⟨⟨gone ++ old, ?_, fun ts hts => ?_⟩, ?_, (hm.rate user').window⟩
      · rw [hfires, hgone, hqueue, if_pos rfl, List.append_assoc, ← hold]
      · rcases List.mem_append.mp hts with hts | hts
        · exact hout ts hts
        · exact (hexpired ts hts).trans_le (Int.sub_le_sub_right hnow _)
      · rw [hqueue, if_pos rfl]
        exact hlength.trans (hm.rate user').room
    · exact (hm.rate user').passes rfl ((hqueue user').trans (if_neg huser)) le_rfl
  refine ⟨hm.keep hl rfl rfl hm.records (fun x hx => .inl hx) hrate, hl, fun hadmits => ?_⟩
  have hlt : (m.state.evicted user (now - h.rate_limit.window)).length % 2 ^ 32 <
      h.rate_limit.max_fires.toNat := of_decide_eq_true hadmits
  -- the queue is too short for the cast to have lost anything
  have hsmall : (m.state.evicted user (now - h.rate_limit.window)).length < 2 ^ 32 :=
    (hlength.trans (hm.rate user).room).trans_lt h.rate_limit.max_fires.toNat_lt
  rw [Nat.mod_eq_of_lt hsmall] at hlt
  obtain ⟨gone, hgone, hout⟩ := (hrate user).queue
  rw [hqueue, if_pos rfl] at hgone
  refine ⟨gone, _, hgone, hlt, hout, ?_⟩
  rw [hqueue, if_pos rfl]

theorem HasRoom.later {user : String} {t : Time} (hr : HasRoom h user t m) (hl : Later m m')
    (hf : fires user m' = fires user m) : HasRoom h user t m' := by
  obtain ⟨gone, left, hfires, hlt, hgone, hqueue⟩ := hr
  refine ⟨gone, left, hf.trans hfires, hlt, hgone, ?_⟩
  have hle := hl.fires user
  rw [hf] at hle
  omega

/-- **A fire recorded while there is room keeps every window within the limit.** -/
theorem InOrder.record (hm : InOrder h m) {user : String} {t ts : Time}
    (hr : HasRoom h user t m) (hts : t ≤ ts) :
    InOrder h (m.after (missionMachine h) k (.recordUserRate user ts)) ∧
      Later m (m.after (missionMachine h) k (.recordUserRate user ts)) := by
  have hqueue : ∀ user',
      (m.after (missionMachine h) k (.recordUserRate user ts)).state.user_fire_log user' =
        m.state.user_fire_log user' ++ if user = user' then [ts] else [] := by
    intro user'
    refine (Function.update_apply ..).trans ?_
    by_cases huser : user = user'
    · rw [if_pos huser, if_pos huser.symm, huser]
    · rw [if_neg huser, if_neg (Ne.symm huser), List.append_nil]
  have hl : Later m (m.after (missionMachine h) k (.recordUserRate user ts)) := by
    refine ⟨.of_threads rfl rfl fun _ r hr => ⟨r, hr, rfl⟩, fun user' => ?_⟩
    rw [fires_after_record, hqueue, List.length_append, List.length_append]
    omega
  refine ⟨hm.keep hl rfl rfl hm.records (fun x hx => .inl hx) fun user' => ?_, hl⟩
  by_cases huser : user = user'
  case neg =>
    refine (hm.rate user').passes ?_ ?_ le_rfl
    · rw [fires_after_record, if_neg huser, List.append_nil]
    · rw [hqueue, if_neg huser, List.append_nil]
  case pos =>
    subst huser
    obtain ⟨gone, left, hfires, hlt, hgone, hle⟩ := hr
    obtain ⟨out, hout, hold⟩ := (hm.rate user).queue
    refine ⟨⟨out, ?_, hold⟩, ?_, fun a => ?_⟩
    · rw [fires_after_record, hqueue, if_pos rfl, hout, List.append_assoc]
    · rw [hqueue, if_pos rfl, List.length_append, List.length_singleton]
      omega
    · rw [fires_after_record, if_pos rfl, List.countP_append, List.countP_singleton]
      split
      case isFalse => exact (hm.rate user).window a
      case isTrue hin =>
        -- the window holds the new fire, so it has left the expired ones behind
        obtain ⟨-, hle'⟩ : a ≤ ts ∧ ts ≤ a + h.rate_limit.window := by simpa using hin
        have hnone : gone.countP (fun u : Time => a ≤ u && u ≤ a + h.rate_limit.window) = 0 := by
          refine List.countP_eq_zero.mpr fun u hu => ?_
          have hlt' := hgone u hu
          have hnot : ¬ a ≤ u := by
            rw [not_le]
            refine hlt'.trans_le ?_
            rw [sub_le_iff_le_add]
            exact hts.trans hle'
          simp [hnot]
        have hleft : left.countP (fun u : Time => a ≤ u && u ≤ a + h.rate_limit.window) ≤
            left.length := List.countP_le_length
        rw [hfires, List.countP_append, hnone]
        omega

/-! ### The environment -/

theorem InOrder.clock (hm : InOrder h m) {now : Time} (hnow : m.state.clock ≤ now) :
    InOrder h ⟨{ m.state with clock := now }, m.log⟩ ∧
      Later m ⟨{ m.state with clock := now }, m.log⟩ := by
  have hl : Later m ⟨{ m.state with clock := now }, m.log⟩ :=
    ⟨⟨hnow, fun tid t ht => ⟨t, ht, rfl, rfl, id⟩, fun _ r hr => ⟨r, hr, rfl⟩⟩, fun _ => le_rfl⟩
  exact ⟨hm.next hl hm.records (fun t ht => (hm.created t ht).trans hnow) (fun x hx => .inl hx)
    hm.daily hm.concurrent fun user => (hm.rate user).passes rfl rfl hnow, hl⟩

/-- A thread moves along its state machine, and never out of a terminal state. -/
theorem InOrder.moveThread (hm : InOrder h m) {id : ThreadId} {state : ThreadState} {w : World}
    (hw : m.state.moveThread id state = some w) :
    InOrder h ⟨w, m.log⟩ ∧ Later m ⟨w, m.log⟩ := by
  rw [World.moveThread] at hw
  split at hw
  case h_2 => cases hw
  case h_1 t ht =>
  split at hw
  case isFalse => cases hw
  case isTrue hmove =>
  obtain rfl := Option.some.inj hw
  -- a terminal thread has no transition, so what counts as running only shrinks
  have hterminal : t.state.isTerminal = false := by
    by_contra hne
    have hstuck := ThreadState.isTerminal_iff.mp (by simpa using hne) state
    rw [hstuck] at hmove
    cases hmove
  have hl : Later m ⟨{ m.state with
      threads := m.state.threads.set id.uuid { t with state := state } }, m.log⟩ := by
    refine ⟨⟨le_rfl, fun tid th hth => ?_, fun _ r hr => ⟨r, hr, rfl⟩⟩, fun _ => le_rfl⟩
    have hlt := (List.getElem?_eq_some_iff.mp hth).1
    by_cases htid : id.uuid = tid.uuid
    · have heq : th = t := by
        have hth' : m.state.threads[tid.uuid]? = some th := hth
        rw [← htid] at hth'
        exact Option.some.inj (hth'.symm.trans ht)
      subst heq
      refine ⟨{ th with state := state }, ?_, rfl, rfl, fun hs => ?_⟩
      · rw [World.thread?, ← htid, List.getElem?_set_self (htid ▸ hlt)]
      · rw [hterminal] at hs
        cases hs
    · exact ⟨th, (List.getElem?_set_ne htid).trans hth, rfl, rfl, fun hs => hs⟩
  refine ⟨hm.next hl hm.records (fun th hth => ?_) (fun x hx => .inl hx) ?_ ?_
    fun user => (hm.rate user).passes rfl rfl le_rfl, hl⟩
  · rcases List.mem_or_eq_of_mem_set hth with hth | rfl
    · exact hm.created th hth
    · exact hm.created t (List.mem_of_getElem? ht)
  · intro r hr hlimit d
    refine le_trans (countP_set_le (b := { t with state := state }) ht fun hp => ?_)
      (hm.daily r hr hlimit d)
    exact hp
  · intro r hr hlimit
    refine (countP_set_le ht fun hp => ?_).trans (hm.concurrent r hr hlimit)
    rw [hterminal]
    exact Bool.and_eq_true_iff.mpr ⟨(Bool.and_eq_true_iff.mp hp).1, rfl⟩

/-- An outcome processor starts by taking its watcher. -/
theorem InOrder.start (hm : InOrder h m) {op : Op} {w : World}
    (hw : (missionSystem h).start op m.state = some w) :
    InOrder h ⟨w, m.log⟩ ∧ Later m ⟨w, m.log⟩ ∧ ∀ id tid outcome t,
      op = .processOutcome id tid outcome t → Watched w tid t := by
  obtain ⟨ws, rfl, hkept, htaken⟩ := start_missionSystem hw
  have hl : Later m ⟨{ m.state with watchers := ws }, m.log⟩ :=
    ⟨.of_threads rfl rfl fun _ r hr => ⟨r, hr, rfl⟩, fun _ => le_rfl⟩
  refine ⟨hm.keep hl rfl rfl hm.records (fun x hx => .inl (hkept x hx))
    fun user => (hm.rate user).passes rfl rfl le_rfl, hl, fun id tid outcome t hop => ?_⟩
  exact (hm.watched _ (htaken id tid outcome t hop)).later hl.world

end

end T3Claw
