import Mathlib.Algebra.Group.Nat.Defs
import Mathlib.Data.List.Basic
import Mathlib.Logic.Function.Basic
import T3Claw.Data.FixedWindow

/-!
# The tool rate limiter

`tools/rate_limiter.rs`. Each pair of a user and a tool has two windows, a minute and an hour,
each with its own start. A window is started anew by the first call that finds it run out,
whether or not that call is recorded; so the limits are limits of a window and not of every
interval, and an interval may hold twice as many calls.

Times are in nanoseconds. A call reads the clock once.
-/

namespace T3Claw.Tools

/-- `MINUTE_SECS`, as a `Duration`. -/
def MINUTE : ℕ := 60 * 10 ^ 9

/-- `HOUR_SECS`, as a `Duration`. -/
def HOUR : ℕ := 3600 * 10 ^ 9

structure ToolRateLimitConfig where
  requests_per_minute : ℕ
  requests_per_hour : ℕ
  deriving DecidableEq

/-- Which rate limit was exceeded. -/
inductive LimitType where
  | perMinute
  | perHour
  deriving DecidableEq

/-- Result of a rate limit check. -/
inductive RateLimitResult where
  | allowed (remaining_minute remaining_hour : ℕ)
  | limited (retry_after : ℕ) (limit_type : LimitType)
  deriving DecidableEq

def RateLimitResult.isAllowed : RateLimitResult → Bool
  | .allowed _ _ => true
  | .limited _ _ => false

/-- State for a single rate limit window. -/
structure WindowState where
  window_start : ℕ
  count : ℕ

namespace WindowState

def new (now : ℕ) : WindowState := ⟨now, 0⟩

def maybeReset (window_duration now : ℕ) (w : WindowState) : WindowState :=
  if window_duration ≤ now - w.window_start then ⟨now, 0⟩ else w

def timeUntilReset (window_duration now : ℕ) (w : WindowState) : ℕ :=
  let elapsed := now - w.window_start
  if window_duration ≤ elapsed then 0 else window_duration - elapsed

/-- `count += 1`. -/
def bump (w : WindowState) : WindowState := { w with count := w.count + 1 }

end WindowState

/-- Rate limit state for a single pair. -/
structure ToolRateLimitState where
  minute_window : WindowState
  hour_window : WindowState

namespace ToolRateLimitState

def new (now : ℕ) : ToolRateLimitState := ⟨.new now, .new now⟩

/-- Reset windows if expired. -/
def maybeReset (now : ℕ) (s : ToolRateLimitState) : ToolRateLimitState :=
  ⟨s.minute_window.maybeReset MINUTE now, s.hour_window.maybeReset HOUR now⟩

/-- The rest of `check_internal`: the minute limit, the hour limit, the record. -/
def checkLimits (config : ToolRateLimitConfig) (record : Bool) (now : ℕ) (s : ToolRateLimitState) :
    RateLimitResult × ToolRateLimitState :=
  if config.requests_per_minute ≤ s.minute_window.count then
    (.limited (s.minute_window.timeUntilReset MINUTE now) .perMinute, s)
  else if config.requests_per_hour ≤ s.hour_window.count then
    (.limited (s.hour_window.timeUntilReset HOUR now) .perHour, s)
  else
    let s := if record then ⟨s.minute_window.bump, s.hour_window.bump⟩ else s
    (.allowed (config.requests_per_minute - s.minute_window.count)
      (config.requests_per_hour - s.hour_window.count), s)

end ToolRateLimitState

/-- The `state` map of the limiter, by user and tool. -/
abbrev RateLimiter := String × String → Option ToolRateLimitState

namespace RateLimiter

def new : RateLimiter := fun _ => none

/-- `entry(key).or_insert_with(ToolRateLimitState::new)`. -/
def entry (limiter : RateLimiter) (key : String × String) (now : ℕ) : ToolRateLimitState :=
  (limiter key).getD (.new now)

/-- Shared logic: reset windows, check limits, and optionally record the request. -/
def checkInternal (limiter : RateLimiter) (user_id tool_name : String)
    (config : ToolRateLimitConfig) (record : Bool) (now : ℕ) : RateLimitResult × RateLimiter :=
  let key := (user_id, tool_name)
  let answer := ((limiter.entry key now).maybeReset now).checkLimits config record now
  (answer.1, Function.update limiter key (some answer.2))

def checkAndRecord (limiter : RateLimiter) (user_id tool_name : String)
    (config : ToolRateLimitConfig) (now : ℕ) : RateLimitResult × RateLimiter :=
  limiter.checkInternal user_id tool_name config true now

def check (limiter : RateLimiter) (user_id tool_name : String)
    (config : ToolRateLimitConfig) (now : ℕ) : RateLimitResult × RateLimiter :=
  limiter.checkInternal user_id tool_name config false now

/-- A call of `check_and_record` or of `check`, at the time `now`. -/
structure Call where
  user_id : String
  tool_name : String
  config : ToolRateLimitConfig
  record : Bool
  now : ℕ

def Call.key (c : Call) : String × String := (c.user_id, c.tool_name)

/-- The limiter answers a call. -/
def step (limiter : RateLimiter) (c : Call) : RateLimitResult × RateLimiter :=
  if c.record then limiter.checkAndRecord c.user_id c.tool_name c.config c.now
  else limiter.check c.user_id c.tool_name c.config c.now

/-- The answers to a sequence of calls, in order. -/
def answers (limiter : RateLimiter) : List Call → List RateLimitResult
  | [] => []
  | c :: calls => (limiter.step c).1 :: (limiter.step c).2.answers calls

/-- The limiter after a sequence of calls. -/
def after (limiter : RateLimiter) (calls : List Call) : RateLimiter :=
  calls.foldl (fun limiter c => (limiter.step c).2) limiter

/-- The answers to the calls of one pair. -/
def answersTo (key : String × String) (limiter : RateLimiter) (calls : List Call) :
    List RateLimitResult :=
  ((calls.zip (limiter.answers calls)).filter fun p => p.1.key = key).map Prod.snd

/-- How many recorded calls of one pair were allowed in the interval `[t, t + width]`. -/
def admittedWithin (key : String × String) (t width : ℕ) (limiter : RateLimiter)
    (calls : List Call) : ℕ :=
  (calls.zip (limiter.answers calls)).countP fun p =>
    p.1.record && p.1.key = key && t ≤ p.1.now && p.1.now ≤ t + width && p.2.isAllowed

/-- The pair has its two windows, and neither has run out. -/
def Running (limiter : RateLimiter) (key : String × String) (now : ℕ) : Prop :=
  ∃ s, limiter key = some s ∧ now - s.minute_window.window_start < MINUTE ∧
    now - s.hour_window.window_start < HOUR

end RateLimiter

/-! ### The two windows by their limits -/

namespace LimitType

def duration : LimitType → ℕ
  | perMinute => MINUTE
  | perHour => HOUR

def limit : LimitType → ToolRateLimitConfig → ℕ
  | perMinute => ToolRateLimitConfig.requests_per_minute
  | perHour => ToolRateLimitConfig.requests_per_hour

def window : LimitType → ToolRateLimitState → WindowState
  | perMinute => ToolRateLimitState.minute_window
  | perHour => ToolRateLimitState.hour_window

theorem duration_pos (k : LimitType) : 0 < k.duration := by
  cases k <;> decide

@[simp] theorem window_new (k : LimitType) (now : ℕ) : k.window (.new now) = ⟨now, 0⟩ := by
  cases k <;> rfl

@[simp] theorem window_maybeReset (k : LimitType) (now : ℕ) (s : ToolRateLimitState) :
    k.window (s.maybeReset now) = (k.window s).maybeReset k.duration now := by
  cases k <;> rfl

end LimitType

section Admit

variable {config : ToolRateLimitConfig} {record : Bool} {now : ℕ} {s : ToolRateLimitState}

/-- A call that is turned away leaves the windows as they are. -/
theorem ToolRateLimitState.checkLimits_limited {retry_after : ℕ} {k : LimitType}
    (h : (s.checkLimits config record now).1 = .limited retry_after k) :
    k.limit config ≤ (k.window s).count ∧
      retry_after = (k.window s).timeUntilReset k.duration now ∧
      (s.checkLimits config record now).2 = s := by
  rw [ToolRateLimitState.checkLimits] at h ⊢
  split_ifs at h ⊢ with hminute hhour
  · obtain ⟨rfl, rfl⟩ := RateLimitResult.limited.inj h
    exact ⟨hminute, rfl, rfl⟩
  · obtain ⟨rfl, rfl⟩ := RateLimitResult.limited.inj h
    exact ⟨hhour, rfl, rfl⟩

/-- A call that is allowed found both windows below their limits. -/
theorem ToolRateLimitState.checkLimits_allowed (h : (s.checkLimits config record now).1.isAllowed)
    (k : LimitType) :
    (k.window s).count < k.limit config ∧
      k.window (s.checkLimits config record now).2
        = if record then (k.window s).bump else k.window s := by
  have hminute : ¬ config.requests_per_minute ≤ s.minute_window.count := by
    intro hminute
    rw [ToolRateLimitState.checkLimits, if_pos hminute] at h
    cases h
  have hhour : ¬ config.requests_per_hour ≤ s.hour_window.count := by
    intro hhour
    rw [ToolRateLimitState.checkLimits, if_neg hminute, if_pos hhour] at h
    cases h
  rw [ToolRateLimitState.checkLimits, if_neg hminute, if_neg hhour]
  cases k with
  | perMinute => exact ⟨Nat.lt_of_not_le hminute, by cases record <;> rfl⟩
  | perHour => exact ⟨Nat.lt_of_not_le hhour, by cases record <;> rfl⟩

/-- A call that is not recorded leaves the windows as they are. -/
theorem ToolRateLimitState.checkLimits_check : (s.checkLimits config false now).2 = s := by
  by_cases hminute : config.requests_per_minute ≤ s.minute_window.count
  · rw [ToolRateLimitState.checkLimits, if_pos hminute]
  · by_cases hhour : config.requests_per_hour ≤ s.hour_window.count
    · rw [ToolRateLimitState.checkLimits, if_neg hminute, if_pos hhour]
    · rw [ToolRateLimitState.checkLimits, if_neg hminute, if_neg hhour]
      rfl

end Admit

namespace WindowState

variable {d now : ℕ} {w : WindowState}

/-- A window just looked at has begun and has not run out. -/
theorem maybeReset_running (hd : 0 < d) (hnow : w.window_start ≤ now) :
    (w.maybeReset d now).window_start ≤ now ∧ now < (w.maybeReset d now).window_start + d := by
  rw [maybeReset]
  split_ifs with hrun
  · show now ≤ now ∧ now < now + d
    omega
  · exact ⟨hnow, by omega⟩

theorem maybeReset_of_running (hrun : now - w.window_start < d) : w.maybeReset d now = w := by
  rw [maybeReset, if_neg (by omega)]

/-- `retry_after` reaches to the end of the window. -/
theorem le_timeUntilReset (hnow : w.window_start ≤ now) :
    w.window_start + d ≤ now + w.timeUntilReset d now := by
  rw [timeUntilReset]
  split_ifs with hrun
  · omega
  · omega

theorem bounds_maybeReset {L t n : ℕ} (hnow : w.window_start ≤ now)
    (h : FixedWindow.Bounds d L t w.window_start w.count n) :
    FixedWindow.Bounds d L t (w.maybeReset d now).window_start (w.maybeReset d now).count n := by
  rw [maybeReset]
  split_ifs with hrun
  · have hend : w.window_start + d ≤ now := by omega
    exact h.restart hend
  · exact h

end WindowState

namespace RateLimiter

variable {key : String × String} {limiter : RateLimiter} {c : Call} {k : LimitType}

/-- The state of the pair that a call looks at. -/
def touched (limiter : RateLimiter) (c : Call) : ToolRateLimitState :=
  (limiter.entry c.key c.now).maybeReset c.now

/-- One definition serves both kinds of call. -/
theorem step_eq (limiter : RateLimiter) (c : Call) :
    limiter.step c = limiter.checkInternal c.user_id c.tool_name c.config c.record c.now := by
  rw [step, checkAndRecord, check]
  by_cases hrecord : c.record = true
  · rw [if_pos hrecord, hrecord]
  · rw [if_neg hrecord, Bool.eq_false_iff.mpr hrecord]

theorem step_answer (limiter : RateLimiter) (c : Call) :
    (limiter.step c).1 = ((limiter.touched c).checkLimits c.config c.record c.now).1 := by
  rw [step_eq]
  rfl

theorem step_state (limiter : RateLimiter) (c : Call) :
    (limiter.step c).2 = Function.update limiter c.key
      (some ((limiter.touched c).checkLimits c.config c.record c.now).2) := by
  rw [step_eq]
  rfl

theorem step_key (limiter : RateLimiter) (c : Call) :
    (limiter.step c).2 c.key
      = some ((limiter.touched c).checkLimits c.config c.record c.now).2 := by
  rw [step_state, Function.update_self]

theorem step_other (hkey : c.key ≠ key) : (limiter.step c).2 key = limiter key := by
  rw [step_state, Function.update_of_ne (Ne.symm hkey)]

/-- Two limiters that agree on a pair answer its calls alike. -/
theorem step_congr {limiter' : RateLimiter} (h : limiter c.key = limiter' c.key) :
    (limiter.step c).1 = (limiter'.step c).1
      ∧ (limiter.step c).2 c.key = (limiter'.step c).2 c.key := by
  have htouched : limiter.touched c = limiter'.touched c := by
    rw [touched, touched, entry, entry, h]
  refine ⟨?_, ?_⟩
  · rw [step_answer, step_answer, htouched]
  · rw [step_key, step_key, htouched]

theorem answersTo_eq (key : String × String) (calls : List Call) :
    ∀ limiter limiter' : RateLimiter, limiter key = limiter' key →
      limiter.answersTo key calls = limiter'.answers (calls.filter fun c => c.key = key) := by
  induction calls with
  | nil => exact fun _ _ _ => rfl
  | cons c calls ih =>
    intro limiter limiter' hagree
    by_cases hkey : c.key = key
    · obtain ⟨hanswer, hstate⟩ := step_congr (c := c) (hkey ▸ hagree)
      have hrest := ih (limiter.step c).2 (limiter'.step c).2 (hkey ▸ hstate)
      rw [List.filter_cons_of_pos (by simpa using hkey), answers, ← hanswer, ← hrest]
      simp [answersTo, answers, hkey]
    · have hrest := ih (limiter.step c).2 limiter' ((step_other hkey).trans hagree)
      rw [List.filter_cons_of_neg (by simpa using hkey), ← hrest]
      simp [answersTo, answers, hkey]

theorem after_append (limiter : RateLimiter) (calls calls' : List Call) :
    limiter.after (calls ++ calls') = (limiter.after calls).after calls' :=
  List.foldl_append

/-- A check that finds both windows running changes nothing. -/
theorem step_check (hrecord : c.record = false) (hrun : limiter.Running c.key c.now) :
    (limiter.step c).2 = limiter := by
  obtain ⟨s, hs, hminute, hhour⟩ := hrun
  have htouched : limiter.touched c = s := by
    rw [touched, entry, hs, Option.getD_some, ToolRateLimitState.maybeReset,
      WindowState.maybeReset_of_running hminute, WindowState.maybeReset_of_running hhour]
  rw [step_state, htouched, hrecord, ToolRateLimitState.checkLimits_check, ← hs,
    Function.update_eq_self]

/-! ### What a pair is let through -/

/-- One window of the pair at the time `now`, after `n` of its calls were let through in
`[t, t + k.duration]`. -/
structure Tracked (k : LimitType) (key : String × String) (config : ToolRateLimitConfig)
    (t n now : ℕ) (limiter : RateLimiter) : Prop where
  fresh : limiter key = none → n = 0
  begun : ∀ s, limiter key = some s → (k.window s).window_start ≤ now
  bounds : ∀ s, limiter key = some s → FixedWindow.Bounds k.duration (k.limit config) t
    (k.window s).window_start (k.window s).count n

variable {config : ToolRateLimitConfig} {t n now : ℕ}

theorem Tracked.new (k : LimitType) (key : String × String) (config : ToolRateLimitConfig)
    (t now : ℕ) : Tracked k key config t 0 now RateLimiter.new :=
  ⟨fun _ => rfl, nofun, nofun⟩

theorem Tracked.later (h : Tracked k key config t n now limiter) {now' : ℕ} (hle : now ≤ now') :
    Tracked k key config t n now' limiter :=
  ⟨h.fresh, fun s hs => Nat.le_trans (h.begun s hs) hle, h.bounds⟩

/-- The window a call looks at, after the reset. -/
theorem Tracked.touched (h : Tracked k c.key config t n c.now limiter) :
    (k.window (limiter.touched c)).window_start ≤ c.now
      ∧ c.now < (k.window (limiter.touched c)).window_start + k.duration
      ∧ FixedWindow.Bounds k.duration (k.limit config) t
          (k.window (limiter.touched c)).window_start (k.window (limiter.touched c)).count n := by
  rw [RateLimiter.touched, LimitType.window_maybeReset]
  obtain ⟨hbegun, hbounds⟩ : (k.window (limiter.entry c.key c.now)).window_start ≤ c.now
      ∧ FixedWindow.Bounds k.duration (k.limit config) t
          (k.window (limiter.entry c.key c.now)).window_start
          (k.window (limiter.entry c.key c.now)).count n := by
    rw [entry]
    cases hs : limiter c.key with
    | none =>
      rw [h.fresh hs, Option.getD_none, LimitType.window_new]
      exact ⟨Nat.le_refl _, FixedWindow.Bounds.zero _ _ _ _⟩
    | some s => exact ⟨h.begun s hs, h.bounds s hs⟩
  obtain ⟨hle, hlt⟩ := WindowState.maybeReset_running k.duration_pos hbegun
  exact ⟨hle, hlt, WindowState.bounds_maybeReset hbegun hbounds⟩

/-- A call counts when it is recorded, allowed, and of the pair, within the interval. -/
def counts (key : String × String) (t width : ℕ) (c : Call) (r : RateLimitResult) : Bool :=
  c.record && c.key = key && t ≤ c.now && c.now ≤ t + width && r.isAllowed

theorem admittedWithin_cons (key : String × String) (t width : ℕ) (limiter : RateLimiter)
    (c : Call) (calls : List Call) :
    admittedWithin key t width limiter (c :: calls)
      = (if counts key t width c (limiter.step c).1 then 1 else 0)
        + admittedWithin key t width (limiter.step c).2 calls := by
  rw [admittedWithin, answers, List.zip_cons_cons, List.countP_cons, Nat.add_comm]
  rfl

theorem not_counts_of_limited {width retry_after : ℕ} {k' : LimitType} :
    counts key t width c (.limited retry_after k') = false := by
  rw [counts, RateLimitResult.isAllowed, Bool.and_false]

/-- The window after the answer. -/
theorem Tracked.checkLimits (h : Tracked k c.key config t n c.now limiter)
    (hconfig : c.config = config) :
    (k.window ((limiter.touched c).checkLimits c.config c.record c.now).2).window_start ≤ c.now
      ∧ FixedWindow.Bounds k.duration (k.limit config) t
          (k.window ((limiter.touched c).checkLimits c.config c.record c.now).2).window_start
          (k.window ((limiter.touched c).checkLimits c.config c.record c.now).2).count
          (n + if counts c.key t k.duration c (limiter.step c).1 then 1 else 0) := by
  obtain ⟨hle, hlt, hbounds⟩ := h.touched
  cases hanswer : (limiter.step c).1 with
  | limited retry_after k' =>
    rw [step_answer] at hanswer
    obtain ⟨-, -, hsame⟩ := ToolRateLimitState.checkLimits_limited hanswer
    rw [hsame, not_counts_of_limited]
    exact ⟨hle, hbounds⟩
  | allowed remaining_minute remaining_hour =>
    rw [step_answer] at hanswer
    have hallowed :
        ((limiter.touched c).checkLimits c.config c.record c.now).1.isAllowed = true := by
      rw [hanswer]
      rfl
    obtain ⟨hlimit, hwindow⟩ := ToolRateLimitState.checkLimits_allowed hallowed k
    rw [hconfig] at hlimit
    rw [hwindow]
    by_cases hrecord : c.record = true
    · rw [if_pos hrecord]
      refine ⟨hle, ?_⟩
      by_cases hin : t ≤ c.now ∧ c.now ≤ t + k.duration
      · have hcounts : counts c.key t k.duration c (.allowed remaining_minute remaining_hour) := by
          simp [counts, hrecord, hin, RateLimitResult.isAllowed]
        rw [hcounts]
        exact hbounds.count_one hlimit hle hlt hin.1 hin.2
      · have hnot : counts c.key t k.duration c (.allowed remaining_minute remaining_hour)
            = false := by
          simpa [counts, hrecord, RateLimitResult.isAllowed] using hin
        rw [hnot]
        exact hbounds.skip hlimit
    · have hnot : counts c.key t k.duration c (.allowed remaining_minute remaining_hour)
          = false := by
        simp [counts, hrecord]
      rw [if_neg hrecord, hnot]
      exact ⟨hle, hbounds⟩

/-- One call: the windows of the pair stay within their bounds, with the call counted. -/
theorem Tracked.step (h : Tracked k key config t n c.now limiter)
    (hconfig : c.key = key → c.config = config) :
    Tracked k key config t
      (n + if counts key t k.duration c (limiter.step c).1 then 1 else 0) c.now
      (limiter.step c).2 := by
  by_cases hkey : c.key = key
  · subst hkey
    obtain rfl := hconfig rfl
    obtain ⟨hbegun, hbounds⟩ := h.checkLimits rfl
    refine ⟨fun hnone => ?_, fun s hs => ?_, fun s hs => ?_⟩
    · rw [step_key] at hnone
      cases hnone
    · obtain rfl := Option.some.inj ((step_key limiter c).symm.trans hs)
      exact hbegun
    · obtain rfl := Option.some.inj ((step_key limiter c).symm.trans hs)
      exact hbounds
  · have hnot : counts key t k.duration c (limiter.step c).1 = false := by
      simp [counts, hkey]
    rw [hnot]
    refine ⟨fun hnone => ?_, fun s hs => ?_, fun s hs => ?_⟩
    · exact h.fresh ((step_other hkey).symm.trans hnone)
    · exact h.begun s ((step_other hkey).symm.trans hs)
    · exact h.bounds s ((step_other hkey).symm.trans hs)

/-- A run of calls, by induction on the run. -/
theorem Tracked.run {key : String × String} (calls : List Call) :
    ∀ (limiter : RateLimiter) (n now last : ℕ), Tracked k key config t n now limiter →
      (calls.Pairwise fun c c' => c.now ≤ c'.now) →
      (∀ c ∈ calls, c.key = key → c.config = config) →
      (∀ c ∈ calls, now ≤ c.now ∧ c.now ≤ last) → now ≤ last →
      Tracked k key config t (n + admittedWithin key t k.duration limiter calls) last
        (limiter.after calls) := by
  induction calls with
  | nil => exact fun limiter n now last h _ _ _ hle => h.later hle
  | cons c calls ih =>
    intro limiter n now last h hsorted hconfig htimes hle
    obtain ⟨hfirst, hsorted⟩ := List.pairwise_cons.mp hsorted
    obtain ⟨hnow, hlast⟩ := htimes c List.mem_cons_self
    have hstep := (h.later hnow).step (hconfig c List.mem_cons_self)
    have hrest := ih _ _ _ last hstep hsorted
      (fun c' hc' => hconfig c' (List.mem_cons_of_mem c hc'))
      (fun c' hc' => ⟨hfirst c' hc', (htimes c' (List.mem_cons_of_mem c hc')).2⟩) hlast
    rw [admittedWithin_cons, ← Nat.add_assoc]
    exact hrest

theorem Tracked.le_two (h : Tracked k key config t n now limiter) :
    n ≤ 2 * k.limit config := by
  cases hs : limiter key with
  | none =>
    rw [h.fresh hs]
    exact Nat.zero_le _
  | some s => exact (h.bounds s hs).le_two

/-- A new limiter, after any run. -/
theorem tracked_after {calls : List Call} {last : ℕ} (k : LimitType) (t : ℕ)
    (hsorted : calls.Pairwise fun c c' => c.now ≤ c'.now)
    (hconfig : ∀ c ∈ calls, c.key = key → c.config = config)
    (hlast : ∀ c ∈ calls, c.now ≤ last) :
    Tracked k key config t (admittedWithin key t k.duration new calls) last
      (new.after calls) := by
  have hrun := Tracked.run calls new 0 0 last (Tracked.new k key config t 0) hsorted hconfig
    (fun c hc => ⟨Nat.zero_le _, hlast c hc⟩) (Nat.zero_le _)
  rwa [Nat.zero_add] at hrun

theorem admittedWithin_le {calls : List Call} (k : LimitType) (t : ℕ)
    (hsorted : calls.Pairwise fun c c' => c.now ≤ c'.now)
    (hconfig : ∀ c ∈ calls, c.key = key → c.config = config) :
    admittedWithin key t k.duration new calls ≤ 2 * k.limit config := by
  have hlast : ∀ c ∈ calls, c.now ≤ (calls.map Call.now).max?.getD 0 := fun c hc =>
    List.le_max?_getD_of_mem (List.mem_map_of_mem hc)
  exact (tracked_after k t hsorted hconfig hlast).le_two

/-- Once `retry_after` is over, the window that turned the call away has run out. -/
theorem not_limited_again {c' : Call} {retry_after retry_after' : ℕ}
    (hbegun : ∀ s, limiter c.key = some s → (k.window s).window_start ≤ c.now)
    (hkey : c'.key = c.key) (hlimited : (limiter.step c).1 = .limited retry_after k)
    (hretry : c.now + retry_after ≤ c'.now) (hlimit : 0 < k.limit c'.config) :
    ((limiter.step c).2.step c').1 ≠ .limited retry_after' k := by
  intro hagain
  rw [step_answer] at hlimited hagain
  obtain ⟨-, rfl, hsame⟩ := ToolRateLimitState.checkLimits_limited hlimited
  obtain ⟨hcount, -, -⟩ := ToolRateLimitState.checkLimits_limited hagain
  have hentry : (k.window (limiter.entry c.key c.now)).window_start ≤ c.now := by
    rw [entry]
    cases hs : limiter c.key with
    | none =>
      have hnew : k.window (.new c.now) = ⟨c.now, 0⟩ := LimitType.window_new k c.now
      exact Nat.le_of_eq (congrArg WindowState.window_start hnew)
    | some s => exact hbegun s hs
  have hle := (WindowState.maybeReset_running k.duration_pos hentry).1
  rw [← LimitType.window_maybeReset] at hle
  have hend := WindowState.le_timeUntilReset (d := k.duration) hle
  have hfound : (limiter.step c).2.entry c'.key c'.now = limiter.touched c := by
    rw [entry, hkey, step_key, hsame, Option.getD_some]
  have hreset : k.window ((limiter.step c).2.touched c') = ⟨c'.now, 0⟩ := by
    rw [touched, hfound, LimitType.window_maybeReset, WindowState.maybeReset, if_pos]
    have : (k.window (limiter.touched c)).window_start + k.duration ≤ c'.now :=
      Nat.le_trans hend hretry
    omega
  rw [hreset] at hcount
  exact absurd hcount (Nat.not_le_of_lt hlimit)

/-- What the limiter promises a pair whose limits do not change: an interval as long as a
window holds at most twice the limit; other pairs do not matter to it, nor does a check while
both windows are running; and after `retry_after` the window that turned a call away is not
the one that turns away the next. -/
theorem calls_bounded (user_id tool_name : String) (config : ToolRateLimitConfig)
    (calls : List Call) (hsorted : calls.Pairwise fun c c' => c.now ≤ c'.now)
    (hconfig : ∀ c ∈ calls, c.key = (user_id, tool_name) → c.config = config) :
    (∀ t, admittedWithin (user_id, tool_name) t MINUTE new calls
        ≤ 2 * config.requests_per_minute) ∧
      (∀ t, admittedWithin (user_id, tool_name) t HOUR new calls
        ≤ 2 * config.requests_per_hour) ∧
      answersTo (user_id, tool_name) new calls
        = new.answers (calls.filter fun c => c.key = (user_id, tool_name)) ∧
      (∀ before c later, calls = before ++ c :: later → c.record = false →
        (new.after before).Running c.key c.now →
        new.after (before ++ [c]) = new.after before) ∧
      ∀ before c c' later retry_after retry_after' k, calls = before ++ c :: c' :: later →
        c.key = (user_id, tool_name) → c'.key = (user_id, tool_name) →
        ((new.after before).step c).1 = .limited retry_after k →
        c.now + retry_after ≤ c'.now → 0 < k.limit config →
        ((new.after (before ++ [c])).step c').1 ≠ .limited retry_after' k := by
  refine ⟨fun t => ?_, fun t => ?_, ?_, ?_, ?_⟩
  · exact admittedWithin_le .perMinute t hsorted hconfig
  · exact admittedWithin_le .perHour t hsorted hconfig
  · exact answersTo_eq _ calls new new rfl
  · intro before c later _ hrecord hrun
    rw [after_append]
    exact step_check hrecord hrun
  · intro before c c' later retry_after retry_after' k hcalls hkey hkey' hlimited hretry hlimit
    have hc' : c' ∈ calls := by simp [hcalls]
    subst hcalls
    obtain ⟨hbefore, -, hcross⟩ := List.pairwise_append.mp hsorted
    have htracked : Tracked k (user_id, tool_name) config 0 _ c.now (new.after before) :=
      tracked_after k 0 hbefore (fun b hb => hconfig b (List.mem_append_left _ hb))
        (fun b hb => hcross b hb c List.mem_cons_self)
    rw [after_append]
    refine not_limited_again (fun s hs => ?_) (hkey'.trans hkey.symm) hlimited hretry ?_
    · exact htracked.begun s (hkey ▸ hs)
    · rw [hconfig c' hc' hkey']
      exact hlimit

/-- A call of one user for one tool, in seconds. -/
private def shellCall (config : ToolRateLimitConfig) (record : Bool) (secs : ℕ) : Call :=
  ⟨"alice", "shell", config, record, secs * 10 ^ 9⟩

/-- Two calls a minute: three are allowed between 59 s and 61 s. One call a minute: a check at
the start decides whether the call after a minute is allowed. -/
theorem third_call_within_a_minute :
    2 < admittedWithin ("alice", "shell") (59 * 10 ^ 9) MINUTE new
        ([0, 59, 60, 61].map (shellCall ⟨2, 100⟩ true)) ∧
      (new.answers ([30, 60].map (shellCall ⟨1, 100⟩ true))).map RateLimitResult.isAllowed
        = [true, false] ∧
      ((new.step (shellCall ⟨1, 100⟩ false 0)).2.answers
        ([30, 60].map (shellCall ⟨1, 100⟩ true))).map RateLimitResult.isAllowed
        = [true, true] := by
  decide +kernel

theorem calls_bounded_sample :
    admittedWithin ("alice", "shell") (59 * 10 ^ 9) MINUTE new
      ([0, 59, 60, 61].map (shellCall ⟨2, 100⟩ true)) ≤ 2 * 2 :=
  (calls_bounded "alice" "shell" ⟨2, 100⟩ ([0, 59, 60, 61].map (shellCall ⟨2, 100⟩ true))
    (by decide) (by decide)).1 _

end RateLimiter

end T3Claw.Tools
