import Mathlib.Data.List.TakeWhile
import T3Claw.Agent.CostGuard

/-!
# Spending limits over time

The guard against the sum over its history. What it has recorded is a list of records, and
what is promised of a check is said of that list alone (`expectedKind`). The guard's state is a
tally of it (`Tallied`): the total of the day that was recorded last, whether some beginning of
that day's costs has reached the limit, the records of the last hour, and for each user the
total of a day that has not been pruned.

The clock alone resets nothing. So after a day on which the limit was reached the guard goes on
refusing until something is recorded on a later day, although nothing can be recorded while it
refuses; `check_exact_iff` has the exact condition.
-/

namespace T3Claw

/-- A guard's surroundings: its crates, its configuration, and when the machine and the guard
were started. -/
structure GuardSetting (D : Type) where
  dec : DecimalCrate D
  prices : PriceTable D
  config : CostGuardConfig
  boot : Time
  start : Time
  booted : boot ≤ start

/-- A call on the guard. -/
inductive GuardCall (D : Type) where
  | checkAllowedForUser (user_id : String)
  | recordLlmCall (call : LlmCall D)
  | recordLlmCallForUser (user_id : String) (call : LlmCall D)

/-- A recorded cost. -/
structure SpendRecord (D : Type) where
  time : Time
  cost : D
  user : Option String

variable {D : Type}

/-- What a call at `now` leaves of the guard. -/
def GuardCall.perform (S : GuardSetting D) (g : CostGuard D) :
    Time × GuardCall D → CostGuard D
  | (now, .checkAllowedForUser user_id) => (g.checkAllowedForUser S.dec S.boot now user_id).2
  | (now, .recordLlmCall call) => (g.recordLlmCall S.dec S.prices now call).2
  | (now, .recordLlmCallForUser user_id call) =>
    (g.recordLlmCallForUser S.dec S.prices now user_id call).2

namespace GuardSetting

variable (S : GuardSetting D)

/-- The guard after a history of calls. -/
def run (history : List (Time × GuardCall D)) : CostGuard D :=
  history.foldl (GuardCall.perform S) (CostGuard.new S.dec S.config S.start)

/-- What a call records. -/
def record? : Time × GuardCall D → Option (SpendRecord D)
  | (_, .checkAllowedForUser _) => none
  | (now, .recordLlmCall call) => some ⟨now, call.cost S.dec S.prices, none⟩
  | (now, .recordLlmCallForUser user_id call) =>
    some ⟨now, call.cost S.dec S.prices, some user_id⟩

/-- What a history records. -/
def records (history : List (Time × GuardCall D)) : List (SpendRecord D) :=
  history.filterMap S.record?

/-- Costs added up as they come. -/
def total (costs : List D) : D := costs.foldl S.dec.add S.dec.zero

/-- Costs reach a limit, in whole cents. -/
def reaches (limit : Option ℕ) (costs : List D) : Bool :=
  limit.any fun limit_cents => limit_cents ≤ toCents S.dec (S.total costs)

end GuardSetting

/-- The costs recorded on a day. -/
def costsOn (d : ℤ) (rs : List (SpendRecord D)) : List D :=
  (rs.filter fun r => day r.time = d).map SpendRecord.cost

/-- A user's costs on a day. -/
def userCostsOn (user_id : String) (d : ℤ) (rs : List (SpendRecord D)) : List D :=
  (rs.filter fun r => day r.time = d ∧ r.user = some user_id).map SpendRecord.cost

/-- The actions recorded in the hour before `now`. -/
def actionsWithinHour (now : Time) (rs : List (SpendRecord D)) : ℕ :=
  rs.countP fun r => now - HOUR ≤ r.time

/-- The limits. -/
inductive LimitKind where
  | dailyBudget
  | hourlyRate
  | userDailyBudget
  deriving DecidableEq

/-- Which limit an error is about. -/
def CostLimitExceeded.kind : CostLimitExceeded → LimitKind
  | .dailyBudget .. => .dailyBudget
  | .hourlyRate .. => .hourlyRate
  | .userDailyBudget .. => .userDailyBudget

/-- Which limit a check finds exceeded. -/
def verdict : Except CostLimitExceeded Unit → Option LimitKind
  | .ok () => none
  | .error e => some e.kind

/-- Today's costs reach the daily limit. -/
def dailyReached (S : GuardSetting D) (rs : List (SpendRecord D)) (now : Time) : Bool :=
  S.reaches S.config.max_cost_per_day_cents (costsOn (day now) rs)

/-- The actions of the last hour reach the hourly limit. -/
def hourlyReached (S : GuardSetting D) (rs : List (SpendRecord D)) (now : Time) : Bool :=
  S.config.max_actions_per_hour.any fun limit => limit ≤ actionsWithinHour now rs

/-- The user's costs of today reach the per-user limit. -/
def userReached (S : GuardSetting D) (rs : List (SpendRecord D)) (now : Time)
    (user_id : String) : Bool :=
  S.reaches S.config.max_cost_per_user_per_day_cents (userCostsOn user_id (day now) rs)

/-- Which limit is exceeded, by the records. -/
def expectedKind (S : GuardSetting D) (rs : List (SpendRecord D)) (now : Time)
    (user_id : String) : Option LimitKind :=
  if dailyReached S rs now then some .dailyBudget
  else if hourlyReached S rs now then some .hourlyRate
  else if userReached S rs now user_id then some .userDailyBudget
  else none

/-- Some beginning of the costs, with the first of them, reaches the limit. -/
def ReachedBy (S : GuardSetting D) (limit : Option ℕ) (costs : List D) : Prop :=
  ∃ first, first ≠ [] ∧ first <+: costs ∧ S.reaches limit first = true

/-- If the costs of the day that was recorded last had reached the daily limit at some time,
today's costs reach it; and where nothing else is exceeded and a user may spend nothing, the
user has something recorded today. -/
structure LimitsCurrent (S : GuardSetting D) (rs : List (SpendRecord D)) (now : Time)
    (user_id : String) : Prop where
  daily : ∀ r, rs.getLast? = some r →
    ReachedBy S S.config.max_cost_per_day_cents (costsOn (day r.time) rs) →
    dailyReached S rs now = true
  user : dailyReached S rs now = false → hourlyReached S rs now = false →
    S.config.max_cost_per_user_per_day_cents = some 0 → userCostsOn user_id (day now) rs ≠ []

/-! ### The tally -/

section Tally

variable {S : GuardSetting D} {rs : List (SpendRecord D)} {r : SpendRecord D} {d : ℤ}
  {now : Time} {user_id : String} {costs : List D} {limit : Option ℕ}

theorem costsOn_append : costsOn d (rs ++ [r]) =
    if day r.time = d then costsOn d rs ++ [r.cost] else costsOn d rs := by
  unfold costsOn
  split_ifs with h <;> simp [List.filter_append, h]

theorem userCostsOn_append : userCostsOn user_id d (rs ++ [r]) =
    if day r.time = d ∧ r.user = some user_id then userCostsOn user_id d rs ++ [r.cost]
    else userCostsOn user_id d rs := by
  unfold userCostsOn
  rw [List.filter_append, List.map_append]
  split_ifs with h
  · simp [h]
  · have hnone : [r].filter (fun r => day r.time = d ∧ r.user = some user_id) = [] := by
      simpa using h
    rw [hnone, List.map_nil, List.append_nil]

theorem total_append (cost : D) : S.total (costs ++ [cost]) = S.dec.add (S.total costs) cost := by
  rw [GuardSetting.total, List.foldl_append]
  rfl

/-- A further cost. -/
theorem reachedBy_append {cost : D} : ReachedBy S limit (costs ++ [cost]) ↔
    ReachedBy S limit costs ∨ S.reaches limit (costs ++ [cost]) = true := by
  constructor
  · rintro ⟨first, hne, hpre, hreach⟩
    obtain rfl | hpre := List.prefix_concat_iff.mp hpre
    · exact .inr hreach
    · exact .inl ⟨first, hne, hpre, hreach⟩
  · rintro (⟨first, hne, hpre, hreach⟩ | hreach)
    · exact ⟨first, hne, hpre.trans (List.prefix_append _ _), hreach⟩
    · exact ⟨costs ++ [cost], by simp, List.prefix_rfl, hreach⟩

/-- What the guard knows at `now` of its records: the total is for day `d`. -/
structure Tally (S : GuardSetting D) (rs : List (SpendRecord D)) (now : Time) (d : ℤ)
    (g : CostGuard D) : Prop where
  config : g.config = S.config
  /-- The records came in order, since the start. -/
  times : (S.start :: (rs.map SpendRecord.time ++ [now])).Pairwise (· ≤ ·)
  date : g.daily_cost.reset_date = d
  past : d ≤ day now
  /-- Nothing was recorded later. -/
  latest : ∀ r ∈ rs, day r.time ≤ d
  total : g.daily_cost.total = S.total (costsOn d rs)
  /-- The flag tells that the limit was reached, unless it is nothing. -/
  flag : ReachedBy S S.config.max_cost_per_day_cents (costsOn d rs) → g.budget_exceeded = true
  flagged : g.budget_exceeded = true →
    ReachedBy S S.config.max_cost_per_day_cents (costsOn d rs) ∨
      S.config.max_cost_per_day_cents = some 0
  /-- The window has lost only what is older than an hour. -/
  window : ∃ old, rs.map SpendRecord.time = old ++ g.action_window ∧
    ∀ t ∈ old, t < now - HOUR
  /-- A user's entry is the total of a day on which something was recorded of the user. -/
  entries : ∀ user_id entry, g.per_user_daily_cost user_id = some entry →
    entry.reset_date ≤ d ∧ userCostsOn user_id entry.reset_date rs ≠ [] ∧
      entry.total = S.total (userCostsOn user_id entry.reset_date rs)
  /-- The users recorded on the day have an entry for it. -/
  current : ∀ user_id, userCostsOn user_id d rs ≠ [] →
    ∃ entry, g.per_user_daily_cost user_id = some entry ∧ entry.reset_date = d

/-- The total is for the day that was recorded last, if one was. -/
structure Tallied (S : GuardSetting D) (rs : List (SpendRecord D)) (now : Time)
    (g : CostGuard D) : Prop where
  tally : Tally S rs now g.daily_cost.reset_date g
  last : ∀ r, rs.getLast? = some r → day r.time = g.daily_cost.reset_date

theorem costsOn_eq_nil (h : ∀ r ∈ rs, day r.time < d) : costsOn d rs = [] := by
  have hnone : rs.filter (fun r => day r.time = d) = [] := by
    refine List.filter_eq_nil_iff.mpr fun r hr => ?_
    simpa using (h r hr).ne
  rw [costsOn, hnone, List.map_nil]

theorem userCostsOn_eq_nil (h : ∀ r ∈ rs, day r.time < d) : userCostsOn user_id d rs = [] := by
  have hnone : rs.filter (fun r => day r.time = d ∧ r.user = some user_id) = [] := by
    refine List.filter_eq_nil_iff.mpr fun r hr => ?_
    simp [(h r hr).ne]
  rw [userCostsOn, hnone, List.map_nil]

/-- Nothing reaches a limit by no cost at all. -/
theorem not_reachedBy_nil : ¬ReachedBy S limit [] := by
  rintro ⟨first, hne, hpre, -⟩
  exact hne (List.prefix_nil.mp hpre)

/-- Time goes by. -/
theorem Tally.later {g : CostGuard D} (h : Tally S rs now d g) {later : Time}
    (hle : now ≤ later) : Tally S rs later d g := by
  obtain ⟨old, hold, hbefore⟩ := h.window
  refine ⟨h.config, ?_, h.date, h.past.trans (day_mono hle), h.latest, h.total, h.flag,
    h.flagged, ⟨old, hold, fun t ht => ?_⟩, h.entries, h.current⟩
  · have htimes := h.times
    rw [← List.cons_append, List.pairwise_append] at htimes ⊢
    refine ⟨htimes.1, List.pairwise_singleton _ _, fun s hs t ht => ?_⟩
    rw [List.mem_singleton.mp ht]
    exact (htimes.2.2 s hs now (List.mem_singleton.mpr rfl)).trans hle
  · exact (hbefore t ht).trans_le (sub_le_sub_right hle HOUR)

/-- **The reset**: the tally is for today, whether or not the day is a new one. -/
theorem Tally.reset {g : CostGuard D} (h : Tally S rs now d g) :
    Tally S rs now (day now) (g.resetFor S.dec (day now)) := by
  rw [CostGuard.resetFor, h.date]
  by_cases hday : day now = d
  · rw [if_neg (not_not.mpr hday), hday]
    exact h
  · rw [if_pos hday]
    have hbefore : ∀ r ∈ rs, day r.time < day now := fun r hr =>
      lt_of_le_of_lt (h.latest r hr) (lt_of_le_of_ne h.past (Ne.symm hday))
    refine ⟨h.config, h.times, rfl, le_rfl, fun r hr => (hbefore r hr).le, ?_, fun hreached => ?_,
      nofun, h.window, fun user_id entry hentry => ?_, fun user_id hcosts => ?_⟩
    · rw [costsOn_eq_nil hbefore]
      rfl
    · rw [costsOn_eq_nil hbefore] at hreached
      exact (not_reachedBy_nil hreached).elim
    · obtain ⟨hold, htoday⟩ := Option.filter_eq_some_iff.mp hentry
      obtain ⟨-, hcosts, htotal⟩ := h.entries user_id entry hold
      exact ⟨(of_decide_eq_true htoday).le, hcosts, htotal⟩
    · exact absurd (userCostsOn_eq_nil hbefore) hcosts

/-- The instants of the records with one more. -/
theorem pairwise_record {cost : D} {user : Option String}
    (h : (S.start :: (rs.map SpendRecord.time ++ [now])).Pairwise (· ≤ ·)) :
    (S.start :: ((rs ++ [SpendRecord.mk now cost user]).map SpendRecord.time ++ [now])).Pairwise
      (· ≤ ·) := by
  rw [List.map_append, List.map_singleton, ← List.cons_append, List.pairwise_append]
  refine ⟨h, List.pairwise_singleton _ _, fun s hs t ht => ?_⟩
  rw [List.mem_singleton.mp ht]
  rw [← List.cons_append, List.pairwise_append] at h
  rw [← List.cons_append] at hs
  obtain hs | hs := List.mem_append.mp hs
  · exact h.2.2 s hs now (List.mem_singleton.mpr rfl)
  · exact (List.mem_singleton.mp hs).le

/-- **A recorded call**, of a user or of none; `per_user` is what becomes of the users'
entries. -/
theorem Tally.record {g : CostGuard D} (h : Tally S rs now d g) (call : LlmCall D)
    (user : Option String) {per_user : String → Option (DailyCost D)}
    (hothers : ∀ user_id, user ≠ some user_id →
      per_user user_id = (g.resetFor S.dec (day now)).per_user_daily_cost user_id)
    (hself : ∀ user_id, user = some user_id → per_user user_id = some
      ⟨S.dec.add (S.total (userCostsOn user_id (day now) rs)) (call.cost S.dec S.prices),
        day now⟩) :
    Tally S (rs ++ [⟨now, call.cost S.dec S.prices, user⟩]) now (day now)
      { (g.recordLlmCall S.dec S.prices now call).2 with per_user_daily_cost := per_user } := by
  have h₀ := h.reset
  set g₀ := g.resetFor S.dec (day now)
  set cost := call.cost S.dec S.prices
  set r : SpendRecord D := ⟨now, cost, user⟩
  have hcosts : costsOn (day now) (rs ++ [r]) = costsOn (day now) rs ++ [cost] :=
    costsOn_append.trans (if_pos rfl)
  have htotal : S.dec.add g₀.daily_cost.total cost = S.total (costsOn (day now) (rs ++ [r])) := by
    rw [hcosts, total_append, h₀.total]
  -- the flag is raised by the total after the call, over the same costs
  have hflag : (g₀.budget_exceeded || g₀.config.max_cost_per_day_cents.any fun limit_cents =>
      limit_cents ≤ toCents S.dec (S.dec.add g₀.daily_cost.total cost)) =
      (g₀.budget_exceeded || S.reaches S.config.max_cost_per_day_cents
        (costsOn (day now) (rs ++ [r]))) := by
    rw [htotal, h₀.config]
    rfl
  -- only the caller's own costs of the day grow
  have huser (user_id : String) (e : ℤ) : userCostsOn user_id e (rs ++ [r]) =
      if day now = e ∧ user = some user_id then userCostsOn user_id e rs ++ [cost]
      else userCostsOn user_id e rs := userCostsOn_append
  obtain ⟨old, hold, hbefore⟩ := h₀.window
  refine ⟨h₀.config, pairwise_record h.times, h₀.date, le_rfl, fun s hs => ?_, htotal,
    fun hreached => hflag.trans ?_, fun hflagged => ?_, ⟨old, ?_, hbefore⟩,
    fun user_id entry hentry => ?_, fun user_id hne => ?_⟩
  · obtain hs | hs := List.mem_append.mp hs
    · exact h₀.latest s hs
    · rw [List.mem_singleton.mp hs]
  · rw [hcosts, reachedBy_append] at hreached
    obtain hreached | hreached := hreached
    · rw [h₀.flag hreached, Bool.true_or]
    · rw [hcosts, hreached, Bool.or_true]
  · rw [hcosts, reachedBy_append]
    obtain hset | hcrossed := Bool.or_eq_true_iff.mp (hflag.symm.trans hflagged)
    · exact (h₀.flagged hset).imp_left .inl
    · exact .inl (.inr (hcosts ▸ hcrossed))
  · change (rs ++ [r]).map SpendRecord.time = old ++ (g₀.action_window ++ [now])
    rw [List.map_append, hold, List.append_assoc]
    rfl
  · by_cases hu : user = some user_id
    · obtain rfl := Option.some.inj ((hself user_id hu).symm.trans hentry)
      rw [huser, if_pos ⟨rfl, hu⟩, total_append]
      exact ⟨le_rfl, by simp, rfl⟩
    · rw [huser, if_neg fun hboth => hu hboth.2]
      exact h₀.entries user_id entry ((hothers user_id hu).symm.trans hentry)
  · by_cases hu : user = some user_id
    · exact ⟨_, hself user_id hu, rfl⟩
    · rw [huser, if_neg fun hboth => hu hboth.2] at hne
      obtain ⟨entry, hentry, hdate⟩ := h₀.current user_id hne
      exact ⟨entry, (hothers user_id hu).trans hentry, hdate⟩

/-- Today's entry of a user. -/
theorem Tally.entryFor {g : CostGuard D} (h : Tally S rs now (day now) g) (user_id : String) :
    g.entryFor S.dec (day now) user_id =
      ⟨S.total (userCostsOn user_id (day now) rs), day now⟩ := by
  have hnone : (∀ entry, g.per_user_daily_cost user_id = some entry →
      entry.reset_date ≠ day now) → userCostsOn user_id (day now) rs = [] := by
    intro hentry
    by_contra hne
    obtain ⟨entry, hsome, hdate⟩ := h.current user_id hne
    exact hentry entry hsome hdate
  rw [CostGuard.entryFor]
  cases hentry : g.per_user_daily_cost user_id with
  | none =>
    rw [hnone fun entry hsome => nomatch hentry.symm.trans hsome]
    exact if_neg (not_not.mpr rfl)
  | some entry =>
    by_cases hdate : entry.reset_date = day now
    · have htotal := (h.entries user_id entry hentry).2.2
      rw [hdate] at htotal
      rw [← htotal, ← hdate]
      exact if_neg (not_not.mpr rfl)
    · rw [hnone fun other hsome => by rwa [← Option.some.inj (hentry.symm.trans hsome)]]
      exact if_pos (Ne.symm hdate)

theorem Tallied.record {g : CostGuard D} (h : Tallied S rs now g) (call : LlmCall D) :
    Tallied S (rs ++ [⟨now, call.cost S.dec S.prices, none⟩]) now
      (g.recordLlmCall S.dec S.prices now call).2 := by
  have hrecord := h.tally.record call none (fun _ _ => rfl) fun _ hu => nomatch hu
  have hdate : (g.recordLlmCall S.dec S.prices now call).2.daily_cost.reset_date = day now :=
    hrecord.date
  refine ⟨hdate ▸ hrecord, fun r hr => ?_⟩
  rw [List.getLast?_concat] at hr
  rw [hdate, ← Option.some.inj hr]

theorem Tallied.recordForUser {g : CostGuard D} (h : Tallied S rs now g) (call : LlmCall D)
    (user_id : String) : Tallied S (rs ++ [⟨now, call.cost S.dec S.prices, some user_id⟩]) now
      (g.recordLlmCallForUser S.dec S.prices now user_id call).2 := by
  have hentry := h.tally.reset.entryFor user_id
  have hupdate : (g.recordLlmCallForUser S.dec S.prices now user_id
      call).2.per_user_daily_cost user_id = some
        { (g.resetFor S.dec (day now)).entryFor S.dec (day now) user_id with
          total := S.dec.add ((g.resetFor S.dec (day now)).entryFor S.dec (day now)
            user_id).total (call.cost S.dec S.prices) } := Function.update_self _ _ _
  have hrecord : Tally S (rs ++ [⟨now, call.cost S.dec S.prices, some user_id⟩]) now (day now)
      (g.recordLlmCallForUser S.dec S.prices now user_id call).2 := by
    refine h.tally.record call (some user_id) (fun other hother => ?_) fun other hother => ?_
    · exact Function.update_of_ne (fun heq => hother (congrArg some heq.symm)) _ _
    · obtain rfl := Option.some.inj hother
      refine hupdate.trans ?_
      rw [hentry]
  have hdate : (g.recordLlmCallForUser S.dec S.prices now user_id call).2.daily_cost.reset_date =
      day now := hrecord.date
  refine ⟨hdate ▸ hrecord, fun r hr => ?_⟩
  rw [List.getLast?_concat] at hr
  rw [hdate, ← Option.some.inj hr]

/-! ### Checks -/

/-- What is not before `c`, in a list in order. -/
theorem length_dropWhile_lt {α : Type*} [LinearOrder α] {c : α} :
    ∀ {l : List α}, l.Pairwise (· ≤ ·) → (l.dropWhile (· < c)).length = l.countP (c ≤ ·)
  | [], _ => rfl
  | t :: l, hsorted => by
    obtain ⟨hleast, hsorted⟩ := List.pairwise_cons.mp hsorted
    by_cases hlt : t < c
    · rw [List.dropWhile_cons, if_pos (decide_eq_true hlt), length_dropWhile_lt hsorted,
        List.countP_cons_of_neg (by simpa using hlt)]
    · have hall : ∀ s ∈ t :: l, c ≤ s := by
        intro s hs
        obtain rfl | hs := List.mem_cons.mp hs
        · exact not_lt.mp hlt
        · exact (not_lt.mp hlt).trans (hleast s hs)
      rw [List.dropWhile_cons, if_neg (by simpa using hlt)]
      exact (List.countP_eq_length.mpr fun s hs => decide_eq_true (hall s hs)).symm

/-- The window has the instants of the records in order, none before the machine started. -/
theorem Tally.window_sorted {g : CostGuard D} (h : Tally S rs now d g) :
    g.action_window.Pairwise (· ≤ ·) ∧ ∀ t ∈ g.action_window, S.boot ≤ t := by
  obtain ⟨old, hold, -⟩ := h.window
  obtain ⟨hstart, htimes⟩ := List.pairwise_cons.mp h.times
  rw [hold] at hstart htimes
  have hsub : g.action_window.Sublist (old ++ g.action_window ++ [now]) :=
    (List.sublist_append_right _ _).trans (List.sublist_append_left _ _)
  exact ⟨htimes.sublist hsub, fun t ht => S.booted.trans (hstart t (hsub.mem ht))⟩

/-- **The window**: what a check finds in it are the actions of the last hour. -/
theorem Tally.drained_length {g : CostGuard D} (h : Tally S rs now d g) :
    (g.drained S.boot now).length = actionsWithinHour now rs := by
  obtain ⟨hsorted, hboot⟩ := h.window_sorted
  obtain ⟨old, hold, hbefore⟩ := h.window
  have hgone : old.countP (now - HOUR ≤ ·) = 0 := by
    refine List.countP_eq_zero.mpr fun t ht => ?_
    rw [decide_eq_true_eq, not_le]
    exact hbefore t ht
  have hcount : actionsWithinHour now rs = g.action_window.countP (now - HOUR ≤ ·) := by
    calc
      actionsWithinHour now rs = (rs.map SpendRecord.time).countP (now - HOUR ≤ ·) := by
        rw [List.countP_map]
        rfl
      _ = g.action_window.countP (now - HOUR ≤ ·) := by
        rw [hold, List.countP_append, hgone, Nat.zero_add]
  rw [hcount, CostGuard.drained, hourAgo]
  by_cases hyoung : S.boot ≤ now - HOUR
  · rw [if_pos hyoung]
    exact length_dropWhile_lt hsorted
  · -- the machine has not run for an hour, and everything in the window is recent
    rw [if_neg hyoung]
    refine (List.countP_eq_length.mpr fun t ht => decide_eq_true ?_).symm
    exact (not_le.mp hyoung).le.trans (hboot t ht)

/-- A check drops from the window what is older than an hour. -/
theorem Tally.drain {g : CostGuard D} (h : Tally S rs now d g) :
    Tally S rs now d { g with action_window := g.drained S.boot now } := by
  refine ⟨h.config, h.times, h.date, h.past, h.latest, h.total, h.flag, h.flagged, ?_,
    h.entries, h.current⟩
  obtain ⟨old, hold, hbefore⟩ := h.window
  change ∃ old, rs.map SpendRecord.time = old ++ g.drained S.boot now ∧ _
  rw [CostGuard.drained, hourAgo]
  by_cases hyoung : S.boot ≤ now - HOUR
  · rw [if_pos hyoung]
    refine ⟨old ++ g.action_window.takeWhile (· < now - HOUR), ?_, fun t ht => ?_⟩
    · rw [hold, List.append_assoc, List.takeWhile_append_dropWhile]
    · obtain ht | ht := List.mem_append.mp ht
      · exact hbefore t ht
      · have hold := List.mem_takeWhile_imp ht
        exact of_decide_eq_true hold
  · rw [if_neg hyoung]
    exact ⟨old, hold, hbefore⟩

/-- No cost is no cents. -/
def DecimalCrate.ZeroCents (dec : DecimalCrate D) : Prop :=
  dec.toText (dec.trunc (dec.mul dec.zero dec.hundred)) = ['0']

theorem toCents_zero (hzero : S.dec.ZeroCents) : toCents S.dec S.dec.zero = 0 := by
  rw [toCents, hzero]
  decide

/-- A limit that nothing reaches is nothing. -/
theorem reaches_nil (hzero : S.dec.ZeroCents) : S.reaches limit [] = true ↔ limit = some 0 := by
  cases limit with
  | none => simp [GuardSetting.reaches]
  | some limit_cents =>
    simp [GuardSetting.reaches, GuardSetting.total, toCents_zero hzero]

/-- A check that finds the limit reached sets the flag. -/
theorem Tally.exceed {g : CostGuard D} (h : Tally S rs now d g) (hzero : S.dec.ZeroCents)
    (hreaches : S.reaches S.config.max_cost_per_day_cents (costsOn d rs) = true) :
    Tally S rs now d { g with budget_exceeded := true } := by
  refine ⟨h.config, h.times, h.date, h.past, h.latest, h.total, fun _ => rfl, fun _ => ?_,
    h.window, h.entries, h.current⟩
  by_cases hnil : costsOn d rs = []
  · rw [hnil, reaches_nil hzero] at hreaches
    exact .inr hreaches
  · exact .inl ⟨costsOn d rs, hnil, List.prefix_rfl, hreaches⟩

/-- The limit is found to be reached. -/
def dailyRefused (S : GuardSetting D) (rs : List (SpendRecord D)) (g : CostGuard D) : Bool :=
  g.budget_exceeded ||
    S.reaches S.config.max_cost_per_day_cents (costsOn g.daily_cost.reset_date rs)

/-- **The hourly check.** -/
theorem Tally.checkHourly {g : CostGuard D} (h : Tally S rs now d g) :
    verdict (g.checkHourly S.boot now).1 =
        (if hourlyReached S rs now then some .hourlyRate else none) ∧
      Tally S rs now d (g.checkHourly S.boot now).2 := by
  have hlength := h.drained_length
  rw [CostGuard.checkHourly, hourlyReached, ← h.config]
  cases g.config.max_actions_per_hour with
  | none => exact ⟨rfl, h⟩
  | some limit =>
    by_cases hle : limit ≤ actionsWithinHour now rs
    · simp only [hlength, Option.any_some, hle, if_true, decide_true]
      exact ⟨rfl, h.drain⟩
    · simp only [hlength, Option.any_some, hle, if_false, decide_false]
      exact ⟨rfl, h.drain⟩

/-- **The global check.** -/
theorem Tally.checkAllowed {g : CostGuard D} (h : Tally S rs now d g) (hzero : S.dec.ZeroCents) :
    verdict (g.checkAllowed S.dec S.boot now).1 =
        (if dailyRefused S rs g then some .dailyBudget
        else if hourlyReached S rs now then some .hourlyRate else none) ∧
      Tally S rs now d (g.checkAllowed S.dec S.boot now).2 := by
  rw [CostGuard.checkAllowed, dailyRefused, ← h.config, h.total, h.date]
  by_cases hexceeded : g.budget_exceeded = true
  · rw [if_pos hexceeded, hexceeded, Bool.true_or, if_pos rfl]
    exact ⟨rfl, h⟩
  · rw [if_neg hexceeded, Bool.eq_false_of_not_eq_true hexceeded, Bool.false_or]
    have hhourly := h.checkHourly
    have hexceed := h.exceed hzero
    revert hexceed
    rw [← h.config, GuardSetting.reaches]
    cases g.config.max_cost_per_day_cents with
    | none => exact fun _ => hhourly
    | some limit_cents =>
      rw [Option.any_some]
      by_cases hle : limit_cents ≤ toCents S.dec (S.total (costsOn d rs))
      · simp only [hle, if_true, decide_true]
        exact fun hexceed => ⟨rfl, hexceed trivial⟩
      · simp only [hle, if_false, decide_false]
        exact fun _ => hhourly

/-- What a check leaves is still a tally, for the same day. -/
theorem Tallied.check {g g' : CostGuard D} (h : Tallied S rs now g)
    (h' : Tally S rs now g.daily_cost.reset_date g') : Tallied S rs now g' := by
  refine ⟨h'.date.symm ▸ h', fun r hr => ?_⟩
  rw [h.last r hr, h'.date]

/-- A user recorded today has an entry of today. -/
theorem Tally.entry_today {g : CostGuard D} (h : Tally S rs now d g)
    (hne : userCostsOn user_id (day now) rs ≠ []) :
    ∃ entry, g.per_user_daily_cost user_id = some entry ∧ entry.reset_date = day now := by
  obtain hlt | rfl := lt_or_eq_of_le h.past
  · exact absurd (userCostsOn_eq_nil fun r hr => (h.latest r hr).trans_lt hlt) hne
  · exact h.current user_id hne

/-- **The user's check.** -/
theorem Tally.checkUser {g : CostGuard D} (h : Tally S rs now d g) (user_id : String) :
    verdict (g.checkUser S.dec now user_id) =
      if userReached S rs now user_id = true ∧ userCostsOn user_id (day now) rs ≠ [] then
        some .userDailyBudget
      else none := by
  rw [CostGuard.checkUser, userReached, ← h.config]
  cases g.config.max_cost_per_user_per_day_cents with
  | none => rfl
  | some limit_cents =>
    cases hentry : g.per_user_daily_cost user_id with
    | none =>
      have hnil : userCostsOn user_id (day now) rs = [] := by
        by_contra hne
        obtain ⟨entry, hsome, -⟩ := h.entry_today hne
        exact nomatch hentry.symm.trans hsome
      rw [if_neg fun hboth => hboth.2 hnil]
      rfl
    | some entry =>
      obtain ⟨-, hcosts, htotal⟩ := h.entries user_id entry hentry
      by_cases hdate : entry.reset_date = day now
      · rw [hdate] at hcosts htotal
        simp only [hdate, htotal, true_and, GuardSetting.reaches, Option.any_some,
          decide_eq_true_eq, ne_eq, hcosts, not_false_eq_true, and_true]
        split_ifs <;> rfl
      · have hnil : userCostsOn user_id (day now) rs = [] := by
          by_contra hne
          obtain ⟨other, hsome, htoday⟩ := h.entry_today hne
          rw [Option.some.inj (hentry.symm.trans hsome)] at hdate
          exact hdate htoday
        rw [if_neg fun hboth => hboth.2 hnil]
        exact congrArg verdict (if_neg fun hboth => hdate hboth.1)

theorem checkAllowedForUser_snd (g : CostGuard D) :
    (g.checkAllowedForUser S.dec S.boot now user_id).2 = (g.checkAllowed S.dec S.boot now).2 := by
  rw [CostGuard.checkAllowedForUser]
  rcases g.checkAllowed S.dec S.boot now with ⟨_ | _, g'⟩ <;> rfl

/-- **What a check finds.** -/
theorem Tallied.verdict_check {g : CostGuard D} (h : Tallied S rs now g)
    (hzero : S.dec.ZeroCents) (user_id : String) :
    verdict (g.checkAllowedForUser S.dec S.boot now user_id).1 =
      if dailyRefused S rs g then some .dailyBudget
      else if hourlyReached S rs now then some .hourlyRate
      else if userReached S rs now user_id = true ∧ userCostsOn user_id (day now) rs ≠ [] then
        some .userDailyBudget
      else none := by
  obtain ⟨hglobal, htally⟩ := h.tally.checkAllowed hzero
  rw [CostGuard.checkAllowedForUser]
  generalize g.checkAllowed S.dec S.boot now = checked at hglobal htally ⊢
  obtain ⟨e | ⟨⟨⟩⟩, g'⟩ := checked
  · -- an error is the global check's
    change some e.kind = _ at hglobal
    change some e.kind = _
    split_ifs at hglobal ⊢ with hdaily hhourly <;> exact hglobal
  · change none = _ at hglobal
    change verdict (g'.checkUser S.dec now user_id) = _
    rw [htally.checkUser]
    split_ifs at hglobal ⊢ with hdaily hhourly <;> rfl

/-- **One call.** -/
theorem Tallied.perform {g : CostGuard D} (h : Tallied S rs now g) (hzero : S.dec.ZeroCents)
    (call : GuardCall D) :
    Tallied S (rs ++ (S.record? (now, call)).toList) now (GuardCall.perform S g (now, call)) := by
  cases call with
  | checkAllowedForUser user_id =>
    change Tallied S (rs ++ []) now (g.checkAllowedForUser S.dec S.boot now user_id).2
    rw [checkAllowedForUser_snd, List.append_nil]
    exact h.check (h.tally.checkAllowed hzero).2
  | recordLlmCall call => exact h.record call
  | recordLlmCallForUser user_id call => exact h.recordForUser call user_id

theorem records_append (history : List (Time × GuardCall D)) (call : Time × GuardCall D) :
    S.records (history ++ [call]) = S.records history ++ (S.record? call).toList := by
  rw [GuardSetting.records, List.filterMap_append, GuardSetting.records]
  cases hrecord : S.record? call <;> simp [hrecord]

/-- **Any history.** -/
theorem GuardSetting.tallied_run (hzero : S.dec.ZeroCents) (history : List (Time × GuardCall D)) :
    ∀ now, (S.start :: (history.map Prod.fst ++ [now])).Pairwise (· ≤ ·) →
      Tallied S (S.records history) now (S.run history) := by
  induction history using List.reverseRecOn with
  | nil =>
    intro now htimes
    have hstart : day S.start ≤ day now :=
      day_mono ((List.pairwise_cons.mp htimes).1 now (List.mem_singleton.mpr rfl))
    refine ⟨⟨rfl, htimes, rfl, hstart, nofun, rfl, fun hreached => ?_, nofun, ⟨[], rfl, nofun⟩,
      nofun, fun user_id hne => ?_⟩, nofun⟩
    · exact (not_reachedBy_nil hreached).elim
    · exact (hne rfl).elim
  | append_singleton history call ih =>
    intro now htimes
    rw [List.map_append, List.map_singleton, ← List.cons_append, List.pairwise_append] at htimes
    obtain ⟨hbefore, -, hlast⟩ := htimes
    have hle : call.1 ≤ now :=
      hlast call.1 (by simp) now (List.mem_singleton.mpr rfl)
    have hperform := (ih call.1 hbefore).perform hzero call.2
    rw [records_append, GuardSetting.run, List.foldl_append]
    exact ⟨hperform.tally.later hle, hperform.last⟩

/-- **The daily limit**: what makes a check refuse. -/
theorem Tallied.dailyRefused_iff {g : CostGuard D} (h : Tallied S rs now g)
    (hzero : S.dec.ZeroCents) : dailyRefused S rs g = true ↔
      ReachedBy S S.config.max_cost_per_day_cents (costsOn g.daily_cost.reset_date rs) ∨
        S.config.max_cost_per_day_cents = some 0 := by
  rw [dailyRefused, Bool.or_eq_true]
  constructor
  · rintro (hflag | hreaches)
    · exact h.tally.flagged hflag
    · exact (h.tally.exceed hzero hreaches).flagged rfl
  · rintro (hreached | hlimit)
    · exact .inl (h.tally.flag hreached)
    · refine .inr ?_
      simp [GuardSetting.reaches, hlimit]

/-- Where today's costs reach the limit, a check refuses. -/
theorem Tallied.refuses {g : CostGuard D} (h : Tallied S rs now g) (hzero : S.dec.ZeroCents)
    (hreached : dailyReached S rs now = true) : dailyRefused S rs g = true := by
  rw [h.dailyRefused_iff hzero]
  by_cases hnil : costsOn (day now) rs = []
  · rw [dailyReached, hnil, reaches_nil hzero] at hreached
    exact .inr hreached
  · -- something was recorded today, so today is the day of the total
    obtain hlt | hday := lt_or_eq_of_le h.tally.past
    · exact absurd (costsOn_eq_nil fun r hr => (h.tally.latest r hr).trans_lt hlt) hnil
    · rw [hday]
      exact .inl ⟨_, hnil, List.prefix_rfl, hreached⟩

/-- A refusal is due exactly when the limit that was reached is still reached today. -/
theorem Tallied.refusal_due_iff {g : CostGuard D} (h : Tallied S rs now g)
    (hzero : S.dec.ZeroCents) :
    (dailyRefused S rs g = true → dailyReached S rs now = true) ↔
      ∀ r, rs.getLast? = some r →
        ReachedBy S S.config.max_cost_per_day_cents (costsOn (day r.time) rs) →
        dailyReached S rs now = true := by
  rw [h.dailyRefused_iff hzero]
  constructor
  · intro hdue r hr hreached
    rw [h.last r hr] at hreached
    exact hdue (.inl hreached)
  · rintro hdue (hreached | hlimit)
    · cases hlast : rs.getLast? with
      | none =>
        rw [List.getLast?_eq_none_iff.mp hlast] at hreached
        exact (not_reachedBy_nil hreached).elim
      | some r => exact hdue r hlast (h.last r hlast ▸ hreached)
    · simp [dailyReached, GuardSetting.reaches, hlimit]

/-- What reaches the user's limit is something the user spent, unless the limit is nothing. -/
theorem user_refusal_due_iff (hzero : S.dec.ZeroCents) (rs : List (SpendRecord D)) (now : Time)
    (user_id : String) :
    (userReached S rs now user_id = true → userCostsOn user_id (day now) rs ≠ []) ↔
      (S.config.max_cost_per_user_per_day_cents = some 0 →
        userCostsOn user_id (day now) rs ≠ []) := by
  constructor
  · intro hdue hlimit
    refine hdue ?_
    simp [userReached, GuardSetting.reaches, hlimit]
  · intro hdue hreached hnil
    rw [userReached, hnil, reaches_nil hzero] at hreached
    exact hdue hreached hnil

end Tally

/-- **Checks**: over any history of calls at times that do not go back, a check finds the limit
that the records say is exceeded exactly when the limits are current. -/
theorem check_exact_iff (S : GuardSetting D) (hzero : S.dec.ZeroCents)
    (history : List (Time × GuardCall D)) (now : Time) (user_id : String)
    (htimes : (S.start :: (history.map Prod.fst ++ [now])).Pairwise (· ≤ ·)) :
    verdict ((S.run history).checkAllowedForUser S.dec S.boot now user_id).1 =
        expectedKind S (S.records history) now user_id ↔
      LimitsCurrent S (S.records history) now user_id := by
  have h := S.tallied_run hzero history now htimes
  rw [h.verdict_check hzero, expectedKind]
  have hdaily := h.refusal_due_iff hzero
  have huser := user_refusal_due_iff hzero (S.records history) now user_id
  by_cases hreached : dailyReached S (S.records history) now = true
  · rw [if_pos (h.refuses hzero hreached), if_pos hreached]
    exact iff_of_true rfl ⟨fun _ _ _ => hreached, fun hnot => absurd hreached (by simp [hnot])⟩
  rw [if_neg hreached]
  by_cases hrefused : dailyRefused S (S.records history) (S.run history) = true
  · rw [if_pos hrefused]
    refine iff_of_false (fun heq => ?_) fun hcurrent =>
      hreached (hdaily.mpr hcurrent.daily hrefused)
    split_ifs at heq <;> exact (nomatch heq)
  rw [if_neg hrefused]
  have hcurrent := hdaily.mp fun h' => absurd h' hrefused
  by_cases hhourly : hourlyReached S (S.records history) now = true
  · rw [if_pos hhourly, if_pos hhourly]
    exact iff_of_true rfl ⟨hcurrent, fun _ hnot => absurd hhourly (by simp [hnot])⟩
  rw [if_neg hhourly, if_neg hhourly]
  constructor
  · intro heq
    refine ⟨hcurrent, fun _ _ => huser.mp fun hover hnil => ?_⟩
    rw [if_neg fun hboth => hboth.2 hnil, if_pos hover] at heq
    exact nomatch heq
  · intro hlimits
    have hdue := huser.mpr (hlimits.user (Bool.eq_false_of_not_eq_true hreached)
      (Bool.eq_false_of_not_eq_true hhourly))
    by_cases hover : userReached S (S.records history) now user_id = true
    · rw [if_pos ⟨hover, hdue hover⟩, if_pos hover]
    · rw [if_neg fun hboth => hover hboth.1, if_neg hover]

/-- Amounts in whole dollars. -/
def dollarCrate : DecimalCrate ℤ where
  zero := 0
  one := 1
  hundred := 100
  add := (· + ·)
  mul := (· * ·)
  div := (· / ·)
  ofU32 n := n.toNat
  isZero z := z = 0
  trunc z := z
  toText z := if 0 ≤ z then Nat.toDigits 10 z.toNat else '-' :: Nat.toDigits 10 (-z).toNat

/-- A guard with a limit of a dollar a day. -/
def dollarADay : GuardSetting ℤ where
  dec := dollarCrate
  prices := ⟨fun _ => none, (0, 0)⟩
  config := ⟨some 100, none, none⟩
  boot := 0
  start := 0
  booted := le_rfl

/-- A call that costs a dollar. -/
def dollarCall : LlmCall ℤ where
  model := "gpt-4o"
  input_tokens := 1
  output_tokens := 0
  cache_read_input_tokens := 0
  cache_creation_input_tokens := 0
  cache_read_discount := 1
  cache_write_multiplier := 1
  cost_per_token := some (1, 0)

theorem check_exact_iff_spent :
    verdict ((dollarADay.run [(0, .recordLlmCall dollarCall)]).checkAllowedForUser
        dollarCrate 0 SECOND "alice").1 =
      expectedKind dollarADay (dollarADay.records [(0, .recordLlmCall dollarCall)]) SECOND
        "alice" ↔
      LimitsCurrent dollarADay (dollarADay.records [(0, .recordLlmCall dollarCall)]) SECOND
        "alice" :=
  check_exact_iff dollarADay rfl [(0, .recordLlmCall dollarCall)] SECOND "alice"
    (by decide)

/-- A dollar spent on one day, and a check on the next: nothing was recorded that day, but the
check refuses. -/
theorem spent_budget_blocks_next_day :
    verdict ((dollarADay.run [(0, .recordLlmCall dollarCall)]).checkAllowedForUser
        dollarCrate 0 (86400 * SECOND) "alice").1 = some .dailyBudget ∧
      day 0 < day (86400 * SECOND) ∧
      expectedKind dollarADay (dollarADay.records [(0, .recordLlmCall dollarCall)])
        (86400 * SECOND) "alice" = none := by
  decide

end T3Claw
