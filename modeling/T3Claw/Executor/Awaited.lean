import T3Claw.Executor.CodeAct
import T3Claw.Executor.Settlement

/-!
# Settling what a script started

An approved call of a script runs from its approval on. What becomes of it is read off from what
the script does afterwards (`fate`): it is awaited, or a builtin takes its id, or neither before
the script ends. Only when it is awaited, and its task has not panicked, it is answered with an
event, and a use that ended at a gate is given back (`Tracked`). And a pause that an execution
ended in is told to the script alone; a run is paused by a preflight only
(`step_accounted_iff`).
-/

namespace T3Claw

/-- What becomes of a future that does not stay pending. -/
inductive Fate where
  | awaited
  | replaced
  deriving DecidableEq

/-- What a turn does to the future under an id. -/
def Resumed.fateOf (monty_call_id : ℕ) : Resumed → Option Fate
  | .progress _ (.resolveFutures ids) => if monty_call_id ∈ ids then some .awaited else none
  | .progress _ (.functionCall call) =>
    if call.function_name ∈ CodeRun.futureBuiltins ∧ call.call_id = monty_call_id then
      some .replaced
    else none
  | _ => none

/-- What becomes of the future that is left under an id, by the rest of the script. -/
def fate (monty_call_id : ℕ) (rest : List Resumed) : Option Fate :=
  rest.findSome? (Resumed.fateOf monty_call_id)

/-- The fate of a call's future in a script. -/
def Preflighted.fate (script : List Resumed) (p : Preflighted) : Option Fate :=
  T3Claw.fate p.monty_call_id (script.drop (p.position + 1))

/-- The future was awaited, and its task did not panic. -/
def Preflighted.settled (E : CodeEnv) (f : Option Fate) (p : Preflighted) : Bool :=
  f = some .awaited && !E.panics p.position

/-- The call's execution ended at a gate. -/
def Preflighted.gatePaused (E : CodeEnv) (p : Preflighted) : Bool :=
  !E.panics p.position &&
    p.lease?.any fun lease => interruptedCallNeedsRefund (E.env.execute p.call lease).1

/-- What a returned run has to show for the calls it started. -/
structure Accounted (E : CodeEnv) (m : LeaseManager) (out : CodeExecutionResult × CodeRun) :
    Prop where
  /-- Each has one event. -/
  answered : ∀ p ∈ out.2.preflights, p.lease?.isSome →
    out.2.events.countP (fun event => event.1 = p.position) = 1
  /-- Its use was given back when it ended at a gate, and kept otherwise. -/
  refunded : ∀ p ∈ out.2.preflights, p.lease?.isSome →
    out.2.refunds.countP (fun refund => refund.1 = p.position) =
      if p.gatePaused E then 1 else 0
  charged : Charges ⟨out.2.preflights.filterMap fun p => p.lease?.map CapabilityLease.id,
    out.2.refunds.map Prod.snd⟩ m out.2.leases
  /-- A pause is reported. -/
  paused : (∃ p ∈ out.2.preflights, p.gatePaused E = true) → out.1.need_approval.isSome

/-- Each call that was started is awaited later, before a builtin takes its id, and its task does
not panic; and when an execution ended at a gate, some call is paused by its preflight. -/
structure AllAwaited (E : CodeEnv) (script : List Resumed) (preflights : List Preflighted) :
    Prop where
  awaited : ∀ p ∈ preflights, p.lease?.isSome →
    p.fate script = some .awaited ∧ E.panics p.position = false
  paused : (∃ p ∈ preflights, p.gatePaused E = true) →
    ∃ p ∈ preflights, p.answer = .needsApproval

/-! ### Following the calls -/

/-- One more member passes the test. -/
theorem countP_flip {α : Type*} {l : List α} {f : α → ℕ} {q q' : α → Bool} {a : α}
    (hnodup : (l.map f).Nodup) (ha : a ∈ l) (hq : q a = false) (hq' : q' a = true)
    (hsame : ∀ b ∈ l, f b ≠ f a → q' b = q b) : l.countP q' = l.countP q + 1 := by
  induction l with
  | nil => cases ha
  | cons b l ih =>
    rw [List.map_cons, List.nodup_cons] at hnodup
    obtain ⟨hb, hnodup⟩ := hnodup
    obtain rfl | ha := List.mem_cons.mp ha
    · have hrest : l.countP q' = l.countP q := List.countP_congr fun c hc => by
        rw [hsame c (List.mem_cons_of_mem _ hc) fun heq => hb (heq ▸ List.mem_map_of_mem hc)]
      rw [List.countP_cons_of_pos hq', List.countP_cons_of_neg (by simp [hq]), hrest]
    · have hne : f b ≠ f a := fun heq => hb (heq ▸ List.mem_map_of_mem ha)
      have hrest := ih hnodup ha fun c hc => hsame c (List.mem_cons_of_mem _ hc)
      rw [List.countP_cons, List.countP_cons, hrest, hsame b List.mem_cons_self hne]
      omega

/-- Fates after a turn: a future without a fate meets what the turn does under its id. -/
def fateAfter (st : Preflighted → Option Fate) (turn : ℕ → Option Fate) (p : Preflighted) :
    Option Fate :=
  (st p).or (turn p.monty_call_id)

/-- What is done under one id. -/
def under (id : ℕ) (f : Fate) (other : ℕ) : Option Fate := if other = id then some f else none

theorem fateAfter_of_ne_none {st : Preflighted → Option Fate} {turn : ℕ → Option Fate}
    {p : Preflighted} (h : st p ≠ none) : fateAfter st turn p = st p := by
  obtain ⟨f, hf⟩ := Option.ne_none_iff_exists'.mp h
  rw [fateAfter, hf, Option.some_or]

theorem fateAfter_under_of_ne {st : Preflighted → Option Fate} {id : ℕ} {f : Fate}
    {p : Preflighted} (h : p.monty_call_id ≠ id) : fateAfter st (under id f) p = st p := by
  rw [fateAfter, under, if_neg h, Option.or_none]

theorem fateAfter_under_self {st : Preflighted → Option Fate} {f : Fate} {p : Preflighted}
    (h : st p = none) : fateAfter st (under p.monty_call_id f) p = some f := by
  rw [fateAfter, h, under, if_pos rfl, Option.none_or]

/-- A run and its calls at place `n`: `st` is the fate of their futures so far, and `ans` says
which were answered. -/
structure Tracked (E : CodeEnv) (m : LeaseManager) (st : Preflighted → Option Fate)
    (ans : Preflighted → Bool) (n : ℕ) (s : CodeRun) : Prop where
  below : ∀ p ∈ s.preflights, p.position < n
  nodup : (s.preflights.map Preflighted.position).Nodup
  events_below : ∀ event ∈ s.events, event.1 < n
  refunds_below : ∀ refund ∈ s.refunds, refund.1 < n
  /-- The futures that are pending are those without a fate. -/
  pending : ∀ p ∈ s.preflights, ∀ lease, p.lease? = some lease →
    (s.pending_futures p.monty_call_id = some (.tool p.position p.call lease) ↔ st p = none)
  known : ∀ id position call lease, s.pending_futures id = some (.tool position call lease) →
    ∃ p ∈ s.preflights, p.position = position ∧ p.monty_call_id = id ∧ p.call = call ∧
      p.lease? = some lease
  answered : ∀ p ∈ s.preflights, p.lease?.isSome →
    s.events.countP (fun event => event.1 = p.position) = if ans p then 1 else 0
  refunded : ∀ p ∈ s.preflights, p.lease?.isSome →
    s.refunds.countP (fun refund => refund.1 = p.position) =
      if ans p && p.gatePaused E then 1 else 0
  /-- The refunds are those of the answered calls that ended at a gate. -/
  counts : ∀ id, (s.refunds.map Prod.snd).count id = s.preflights.countP fun p =>
    ans p && p.gatePaused E && (p.lease?.map CapabilityLease.id == some id)
  books : ∀ l ∈ m.active, ∀ c, l.Accounted c 0 → HasBooks l s.leases
    (c + (s.preflights.filterMap fun p => p.lease?.map CapabilityLease.id).count l.id)
    ((s.refunds.map Prod.snd).count l.id)

namespace Tracked

variable {E : CodeEnv} {m : LeaseManager} {st : Preflighted → Option Fate}
  {ans : Preflighted → Bool} {n : ℕ} {s : CodeRun} {p : Preflighted}

theorem later (h : Tracked E m st ans n s) {n' : ℕ} (hle : n ≤ n') : Tracked E m st ans n' s :=
  { h with
    below := fun p hp => (h.below p hp).trans_le hle
    events_below := fun event hevent => (h.events_below event hevent).trans_le hle
    refunds_below := fun refund hrefund => (h.refunds_below refund hrefund).trans_le hle }

/-- Nothing else of a run counts. -/
theorem of_fields (h : Tracked E m st ans n s) {s' : CodeRun}
    (hpreflights : s'.preflights = s.preflights)
    (hpending : s'.pending_futures = s.pending_futures) (hevents : s'.events = s.events)
    (hrefunds : s'.refunds = s.refunds) (hleases : s'.leases = s.leases) :
    Tracked E m st ans n s' := by
  constructor
  · exact hpreflights ▸ h.below
  · exact hpreflights ▸ h.nodup
  · exact hevents ▸ h.events_below
  · exact hrefunds ▸ h.refunds_below
  · exact hpreflights ▸ hpending ▸ h.pending
  · exact hpreflights ▸ hpending ▸ h.known
  · exact hpreflights ▸ hevents ▸ h.answered
  · exact hpreflights ▸ hrefunds ▸ h.refunded
  · exact hpreflights ▸ hrefunds ▸ h.counts
  · exact hpreflights ▸ hrefunds ▸ hleases ▸ h.books

/-- The places with one more. -/
theorem nodup_append (h : Tracked E m st ans n s) (hposition : p.position = n) :
    ((s.preflights ++ [p]).map Preflighted.position).Nodup := by
  rw [List.map_append, List.map_singleton, ← List.concat_eq_append]
  refine h.nodup.concat fun hmem => ?_
  obtain ⟨q, hq, heq⟩ := List.mem_map.mp hmem
  have hlt := h.below q hq
  omega

theorem below_append (h : Tracked E m st ans n s) (hposition : p.position = n) :
    ∀ q ∈ s.preflights ++ [p], q.position < n + 1 := by
  intro q hq
  obtain hq | hq := List.mem_append.mp hq
  · exact (h.below q hq).trans n.lt_succ_self
  · rw [List.mem_singleton.mp hq, hposition]
    exact n.lt_succ_self

/-- Events of a new call. -/
theorem countP_events (h : Tracked E m st ans n s) {q : Preflighted} (hq : q ∈ s.preflights)
    (events : List EventKind) :
    (s.events ++ events.map (n, ·)).countP (fun event => event.1 = q.position) =
      s.events.countP fun event => event.1 = q.position := by
  have hnone : (events.map (n, ·)).countP (fun event => event.1 = q.position) = 0 := by
    refine List.countP_eq_zero.mpr fun event hevent => ?_
    obtain ⟨e, -, rfl⟩ := List.mem_map.mp hevent
    simpa using (h.below q hq).ne'
  rw [List.countP_append, hnone, Nat.add_zero]

theorem events_below_append (h : Tracked E m st ans n s) (events : List EventKind) :
    ∀ event ∈ s.events ++ events.map (n, ·), event.1 < n + 1 := by
  intro event hevent
  obtain hevent | hevent := List.mem_append.mp hevent
  · exact (h.events_below event hevent).trans n.lt_succ_self
  · obtain ⟨e, -, rfl⟩ := List.mem_map.mp hevent
    exact n.lt_succ_self

/-- Only what is said of the calls that were started counts. -/
theorem congr (h : Tracked E m st ans n s) {st' : Preflighted → Option Fate}
    {ans' : Preflighted → Bool}
    (hst : ∀ p ∈ s.preflights, p.lease?.isSome → (st' p = none ↔ st p = none))
    (hans : ∀ p ∈ s.preflights, p.lease?.isSome → ans' p = ans p) :
    Tracked E m st' ans' n s := by
  refine { h with
    pending := fun p hp lease hlease => ?_
    answered := fun p hp hlease => ?_
    refunded := fun p hp hlease => ?_
    counts := fun id => ?_ }
  · rw [hst p hp (Option.isSome_of_eq_some hlease)]
    exact h.pending p hp lease hlease
  · rw [hans p hp hlease]
    exact h.answered p hp hlease
  · rw [hans p hp hlease]
    exact h.refunded p hp hlease
  · rw [h.counts id]
    refine List.countP_congr fun p hp => ?_
    cases hlease : p.lease? with
    | none => simp
    | some lease => rw [hans p hp (Option.isSome_of_eq_some hlease)]

/-- A future is taken out, or replaced by one of a builtin. -/
theorem remove (h : Tracked E m st ans n s) (id : ℕ) (f : Fate) {future : Option PendingFuture}
    (hfuture : ∀ position call lease, future ≠ some (.tool position call lease)) :
    Tracked E m (fateAfter st (under id f)) ans n
      { s with pending_futures := Function.update s.pending_futures id future } := by
  refine ⟨h.below, h.nodup, h.events_below, h.refunds_below, fun p hp lease hlease => ?_,
    fun other position call lease hother => ?_, h.answered, h.refunded, h.counts, h.books⟩
  · by_cases hid : p.monty_call_id = id
    · refine iff_of_false (fun heq => ?_) (by simp [fateAfter, under, hid])
      rw [hid] at heq
      exact hfuture _ _ _ ((Function.update_self id future s.pending_futures).symm.trans heq)
    · rw [fateAfter_under_of_ne hid, ← h.pending p hp lease hlease]
      exact Eq.congr_left (Function.update_of_ne hid _ _)
  · by_cases hid : other = id
    · subst hid
      exact absurd ((Function.update_self other future s.pending_futures).symm.trans hother)
        (hfuture _ _ _)
    · exact h.known other position call lease
        ((Function.update_of_ne hid _ _).symm.trans hother)

/-- Each place has one call. -/
theorem eq_of_position (h : Tracked E m st ans n s) {q : Preflighted} (hp : p ∈ s.preflights)
    (hq : q ∈ s.preflights) (hposition : q.position = p.position) : q = p :=
  List.inj_on_of_nodup_map h.nodup hq hp hposition

theorem gatePaused_eq {lease : CapabilityLease} (hlease : p.lease? = some lease)
    (hpanics : E.panics p.position = false) :
    p.gatePaused E = interruptedCallNeedsRefund (E.env.execute p.call lease).1 := by
  rw [Preflighted.gatePaused, hpanics, hlease]
  rfl

/-- The refunds of the answered calls, with one call more. -/
theorem countP_answer (h : Tracked E m st ans n s) (hp : p ∈ s.preflights)
    {lease : CapabilityLease} (hlease : p.lease? = some lease) (hans : ans p = false)
    (id : LeaseId) :
    (s.preflights.countP fun q => (ans q || q.position == p.position) && q.gatePaused E &&
        (q.lease?.map CapabilityLease.id == some id)) =
      (s.preflights.countP fun q => ans q && q.gatePaused E &&
        (q.lease?.map CapabilityLease.id == some id)) +
      if p.gatePaused E ∧ lease.id = id then 1 else 0 := by
  have hsame : ∀ q ∈ s.preflights, q.position ≠ p.position →
      ((ans q || q.position == p.position) && q.gatePaused E &&
        (q.lease?.map CapabilityLease.id == some id)) =
      (ans q && q.gatePaused E && (q.lease?.map CapabilityLease.id == some id)) :=
    fun q _ hne => by rw [beq_eq_false_iff_ne.mpr hne, Bool.or_false]
  by_cases hback : p.gatePaused E = true ∧ lease.id = id
  · rw [if_pos hback]
    exact countP_flip h.nodup hp (by simp [hans]) (by simp [hback.1, hback.2, hlease]) hsame
  · rw [if_neg hback, Nat.add_zero]
    refine List.countP_congr fun q hq => ?_
    by_cases hqp : q.position = p.position
    · obtain rfl := h.eq_of_position hp hq hqp
      have hnot : (q.gatePaused E && (q.lease?.map CapabilityLease.id == some id)) = false := by
        rw [Bool.and_eq_false_iff, hlease]
        by_contra hboth
        push Not at hboth
        exact hback ⟨Bool.eq_true_of_not_eq_false hboth.1, by simpa using hboth.2⟩
      rw [Bool.and_assoc, hnot, Bool.and_assoc, hnot, Bool.and_false, Bool.and_false]
    · rw [hsame q hq hqp]

/-- **A call is answered**, and its use given back when it ended at a gate. -/
theorem resolveTool (h : Tracked E m st ans n s) (hp : p ∈ s.preflights) {lease : CapabilityLease}
    (hlease : p.lease? = some lease) (hans : ans p = false)
    (hpanics : E.panics p.position = false) :
    Tracked E m st (fun q => ans q || q.position == p.position) n
      (s.resolveTool E p.position p.call lease) := by
  have hother : ∀ q ∈ s.preflights, q ≠ p → q.position ≠ p.position := fun q hq hne heq =>
    hne (h.eq_of_position hp hq heq)
  have hflip := h.countP_answer hp hlease hans
  rw [CodeRun.resolveTool, if_neg (by simp [hpanics])]
  dsimp only
  rw [← gatePaused_eq hlease hpanics]
  have hanswered : ∀ q ∈ s.preflights, q.lease?.isSome → ∀ event : EventKind,
      (s.events ++ [(p.position, event)]).countP (fun event => event.1 = q.position) =
        if ans q || q.position == p.position then 1 else 0 := by
    intro q hq hqlease event
    by_cases hqp : q = p
    · subst hqp
      simp [h.answered q hq hqlease, hans]
    · simp [h.answered q hq hqlease, hother q hq hqp, Ne.symm (hother q hq hqp)]
  have hbelow : ∀ event : EventKind, ∀ e ∈ s.events ++ [(p.position, event)], e.1 < n := by
    intro event e he
    obtain he | he := List.mem_append.mp he
    · exact h.events_below e he
    · rw [List.mem_singleton.mp he]
      exact h.below p hp
  by_cases hpaused : p.gatePaused E = true
  · simp only [hpaused, if_true, true_and] at hflip ⊢
    have hcounts : ∀ id, ((s.refunds ++ [(p.position, lease.id)]).map Prod.snd).count id =
        (s.refunds.map Prod.snd).count id + [lease.id].count id := fun id => by
      rw [List.map_append, List.count_append]
      rfl
    have hone : ∀ id, [lease.id].count id = if lease.id = id then 1 else 0 := fun id => by
      simp [List.count_singleton]
    refine ⟨h.below, h.nodup, hbelow _, fun refund hrefund => ?_, h.pending, h.known,
      fun q hq hqlease => hanswered q hq hqlease _, fun q hq hqlease => ?_, fun id => ?_,
      fun l hl c hacc => ?_⟩
    · obtain hrefund | hrefund := List.mem_append.mp hrefund
      · exact h.refunds_below refund hrefund
      · rw [List.mem_singleton.mp hrefund]
        exact h.below p hp
    · by_cases hqp : q = p
      · subst hqp
        simp [h.refunded q hq hqlease, hans, hpaused]
      · simp [h.refunded q hq hqlease, hother q hq hqp, Ne.symm (hother q hq hqp)]
    · rw [hcounts, hone, h.counts, hflip]
    · -- the use was taken, and not given back before
      change HasBooks l (s.leases.refund lease.id) _ _
      have hle : (s.refunds.map Prod.snd).count l.id + [lease.id].count l.id ≤
          c + (s.preflights.filterMap fun p => p.lease?.map CapabilityLease.id).count l.id := by
        rw [hone, h.counts, ← hflip, List.count_filterMap]
        refine le_trans (List.countP_mono_left fun q _ hq => ?_) (Nat.le_add_left _ _)
        exact (Bool.and_eq_true_iff.mp hq).2
      rw [hcounts]
      exact HasBooks.giveBack (h.books l hl c hacc) hle
  · simp only [hpaused] at hflip ⊢
    refine ⟨h.below, h.nodup, hbelow _, h.refunds_below, h.pending, h.known,
      fun q hq hqlease => hanswered q hq hqlease _, fun q hq hqlease => ?_, fun id => ?_, h.books⟩
    · refine (h.refunded q hq hqlease).trans ?_
      by_cases hqp : q = p
      · subst hqp
        simp [hpaused]
      · rw [beq_eq_false_iff_ne.mpr (hother q hq hqp), Bool.or_false]
    · rw [hflip]
      exact h.counts id

end Tracked

/-- The calls whose futures were awaited, without a panic, are those that were answered. -/
def Traced (E : CodeEnv) (m : LeaseManager) (st : Preflighted → Option Fate) (n : ℕ)
    (s : CodeRun) : Prop :=
  Tracked E m st (fun p => p.settled E (st p)) n s

namespace Traced

variable {E : CodeEnv} {m : LeaseManager} {st : Preflighted → Option Fate} {n : ℕ} {s : CodeRun}
  {p : Preflighted}

/-- A call without a pending future has a fate. -/
theorem ne_none_of_pending (h : Traced E m st n s) {mid : ℕ}
    (hfuture : ∀ position call lease,
      s.pending_futures mid ≠ some (.tool position call lease))
    (hp : p ∈ s.preflights) (hlease : p.lease?.isSome) (hid : p.monty_call_id = mid) :
    st p ≠ none := by
  obtain ⟨lease, hlease⟩ := Option.isSome_iff_exists.mp hlease
  intro hnone
  have hpending := (h.pending p hp lease hlease).mpr hnone
  rw [hid] at hpending
  exact hfuture _ _ _ hpending

/-- An id that no call's future is pending under. -/
theorem congr_of_notTool (h : Traced E m st n s) {mid : ℕ} {f : Fate}
    (hfuture : ∀ position call lease,
      s.pending_futures mid ≠ some (.tool position call lease)) :
    Traced E m (fateAfter st (under mid f)) n s := by
  have hsame : ∀ p ∈ s.preflights, p.lease?.isSome →
      fateAfter st (under mid f) p = st p := by
    intro p hp hlease
    by_cases hid : p.monty_call_id = mid
    · exact fateAfter_of_ne_none (h.ne_none_of_pending hfuture hp hlease hid)
    · exact fateAfter_under_of_ne hid
  refine Tracked.congr h (fun p hp hlease => ?_) fun p hp hlease => ?_
  · rw [hsame p hp hlease]
  · rw [hsame p hp hlease]

/-- **One future is awaited.** -/
theorem resolveFuture (h : Traced E m st n s) (mid : ℕ) :
    Traced E m (fateAfter st (under mid .awaited)) n (s.resolveFuture E mid) := by
  rw [CodeRun.resolveFuture]
  cases hfuture : s.pending_futures mid with
  | none => exact h.congr_of_notTool fun _ _ _ heq => nomatch hfuture.symm.trans heq
  | some future =>
    have hremoved : Tracked E m (fateAfter st (under mid .awaited)) (fun p => p.settled E (st p))
        n { s with pending_futures := Function.update s.pending_futures mid none } :=
      Tracked.remove h mid .awaited nofun
    cases future with
    | llm =>
      refine hremoved.congr (fun _ _ _ => Iff.rfl) fun p hp hlease => ?_
      have hne : ∀ position call lease,
          s.pending_futures mid ≠ some (.tool position call lease) :=
        fun _ _ _ heq => nomatch hfuture.symm.trans heq
      by_cases hid : p.monty_call_id = mid
      · rw [fateAfter_of_ne_none (h.ne_none_of_pending hne hp hlease hid)]
      · rw [fateAfter_under_of_ne hid]
    | tool position call lease =>
      obtain ⟨p, hp, rfl, rfl, rfl, hlease⟩ := h.known mid position call lease hfuture
      have hnone : st p = none := (h.pending p hp lease hlease).mp hfuture
      -- no other call has its future under the id
      have hothers : ∀ q ∈ s.preflights, q.lease?.isSome → q ≠ p →
          fateAfter st (under p.monty_call_id .awaited) q = st q := by
        intro q hq hqlease hne
        by_cases hid : q.monty_call_id = p.monty_call_id
        · refine fateAfter_of_ne_none fun hqnone => hne (h.eq_of_position hp hq ?_)
          obtain ⟨lease', hqlease⟩ := Option.isSome_iff_exists.mp hqlease
          have hpending := (h.pending q hq lease' hqlease).mpr hqnone
          rw [hid, hfuture] at hpending
          injection hpending with hpending
          injection hpending with hposition
          exact hposition.symm
        · exact fateAfter_under_of_ne hid
      change Traced E m _ n (CodeRun.resolveTool E _ p.position p.call lease)
      by_cases hpanics : E.panics p.position = true
      · rw [CodeRun.resolveTool, if_pos hpanics]
        refine hremoved.congr (fun _ _ _ => Iff.rfl) fun q hq hqlease => ?_
        by_cases hqp : q = p
        · subst hqp
          simp [Preflighted.settled, hpanics]
        · rw [hothers q hq hqlease hqp]
      · have hcalm := Bool.eq_false_of_not_eq_true hpanics
        have hans : p.settled E (st p) = false := by
          rw [Preflighted.settled, hnone]
          rfl
        refine (hremoved.resolveTool hp hlease hans hcalm).congr (fun _ _ _ => Iff.rfl)
          fun q hq hqlease => ?_
        have hq' : q ∈ s.preflights := by
          rw [CodeRun.resolveTool, if_neg hpanics] at hq
          exact hq
        by_cases hqp : q = p
        · subst hqp
          rw [fateAfter_under_self hnone, Preflighted.settled, hcalm]
          simp
        · have hne : q.position ≠ p.position := fun heq =>
            hqp (h.eq_of_position hp hq' heq)
          rw [hothers q hq' hqlease hqp, beq_eq_false_iff_ne.mpr hne, Bool.or_false]

/-- Some futures are awaited. -/
theorem resolveFutures (h : Traced E m st n s) (ids : List ℕ) :
    Traced E m (fateAfter st fun id => if id ∈ ids then some .awaited else none) n
      (ids.foldl (CodeRun.resolveFuture E) s) := by
  induction ids generalizing st s with
  | nil =>
    have hnone : (fateAfter st fun id => if id ∈ ([] : List ℕ) then some .awaited else none) = st :=
      funext fun p => by simp [fateAfter]
    rw [hnone]
    exact h
  | cons id ids ih =>
    have hcons : (fateAfter st fun other => if other ∈ id :: ids then some .awaited else none) =
        fateAfter (fateAfter st (under id .awaited)) fun other =>
          if other ∈ ids then some .awaited else none := by
      funext p
      rw [fateAfter, fateAfter, fateAfter, Option.or_assoc, under]
      by_cases hid : p.monty_call_id = id
      · rw [if_pos hid, if_pos (hid ▸ List.mem_cons_self), Option.some_or]
      · rw [if_neg hid, Option.none_or]
        simp [hid]
    rw [hcons]
    exact ih (h.resolveFuture id)

/-- A builtin leaves its future, over one that may be there. -/
theorem deferBuiltin (h : Traced E m st n s) (call : MontyCall) :
    Traced E m (fateAfter st fun id =>
      if call.function_name ∈ CodeRun.futureBuiltins ∧ call.call_id = id then some .replaced
      else none) n (s.deferBuiltin call) := by
  rw [CodeRun.deferBuiltin]
  by_cases hbuiltin : call.function_name ∈ CodeRun.futureBuiltins
  · rw [if_pos hbuiltin]
    have hturn : (fun id => if call.function_name ∈ CodeRun.futureBuiltins ∧ call.call_id = id
        then some Fate.replaced else none) = under call.call_id .replaced := by
      funext id
      simp [under, hbuiltin, eq_comm]
    rw [hturn]
    have hremoved : Tracked E m (fateAfter st (under call.call_id .replaced))
        (fun p => p.settled E (st p)) n { s with
          pending_futures := Function.update s.pending_futures call.call_id (some .llm) } :=
      Tracked.remove h call.call_id .replaced fun _ _ _ heq => nomatch heq
    refine (hremoved.congr (fun _ _ _ => Iff.rfl) fun p _ _ => ?_).of_fields rfl rfl rfl rfl rfl
    -- a future that is replaced is no more answered than one that is pending
    cases hst : st p with
    | some f => rw [fateAfter_of_ne_none (by simp [hst]), hst]
    | none =>
      by_cases hid : p.monty_call_id = call.call_id
      · rw [← hid, fateAfter_under_self hst]
        rfl
      · rw [fateAfter_under_of_ne hid, hst]
  · rw [if_neg hbuiltin]
    have hturn : (fateAfter st fun id =>
        if call.function_name ∈ CodeRun.futureBuiltins ∧ call.call_id = id then some .replaced
        else none) = st := funext fun p => by simp [fateAfter, hbuiltin]
    rw [hturn]
    exact h

/-- A call that is not approved. -/
theorem refuse (h : Traced E m st n s) (hposition : p.position = n) (hlease : p.lease? = none)
    (events : List EventKind) : Traced E m st (n + 1)
      { s with
        preflights := s.preflights ++ [p]
        events := s.events ++ events.map (n, ·) } := by
  have hold : ∀ q ∈ s.preflights ++ [p], q.lease?.isSome → q ∈ s.preflights := by
    intro q hq hqlease
    obtain hq | hq := List.mem_append.mp hq
    · exact hq
    · rw [List.mem_singleton.mp hq, hlease] at hqlease
      cases hqlease
  have hgate : p.gatePaused E = false := by simp [Preflighted.gatePaused, hlease]
  refine ⟨h.below_append hposition, h.nodup_append hposition, h.events_below_append events,
    fun refund hrefund => (h.refunds_below refund hrefund).trans n.lt_succ_self,
    fun q hq lease hqlease => h.pending q (hold q hq (Option.isSome_of_eq_some hqlease)) lease
      hqlease, fun id position call lease hfuture => ?_, fun q hq hqlease => ?_,
    fun q hq hqlease => h.refunded q (hold q hq hqlease) hqlease, fun id => ?_,
    fun l hl c hacc => ?_⟩
  · obtain ⟨q, hq, hrest⟩ := h.known id position call lease hfuture
    exact ⟨q, List.mem_append_left _ hq, hrest⟩
  · exact (h.countP_events (hold q hq hqlease) events).trans
      (h.answered q (hold q hq hqlease) hqlease)
  · refine (h.counts id).trans ?_
    simp [List.countP_append, hgate]
  · have hbooks := h.books l hl c hacc
    simpa [List.filterMap_append, hlease] using hbooks

/-- **A call that is approved and started.** -/
theorem start (h : Traced E m st n s) (hposition : p.position = n) {lease k : CapabilityLease}
    (hlease : p.lease? = some lease) (hnone : st p = none)
    (hfree : s.pending_futures p.monty_call_id = none) (hk : k ∈ s.leases.active)
    (hid : lease.id = k.id) (hused : k.consumeUse.2 = true) :
    Traced E m st (n + 1)
      { s with
        preflights := s.preflights ++ [p]
        leases := ⟨s.leases.active.insert k.consumeUse.1⟩
        pending_futures := Function.update s.pending_futures p.monty_call_id
          (some (.tool p.position p.call lease)) } := by
  have hans : p.settled E (st p) = false := by
    rw [Preflighted.settled, hnone]
    rfl
  -- positions are drawn in order, so no call before this one shares its own
  have hne : ∀ q ∈ s.preflights, q.position ≠ p.position := fun q hq =>
    (hposition ▸ h.below q hq).ne
  refine ⟨h.below_append hposition, h.nodup_append hposition,
    fun event hevent => (h.events_below event hevent).trans n.lt_succ_self,
    fun refund hrefund => (h.refunds_below refund hrefund).trans n.lt_succ_self,
    fun q hq lease' hqlease => ?_, fun id position call lease' hfuture => ?_,
    fun q hq hqlease => ?_, fun q hq hqlease => ?_, fun id => ?_, fun l hl c hacc => ?_⟩
  · obtain hq | hq := List.mem_append.mp hq
    · by_cases hmonty : q.monty_call_id = p.monty_call_id
      · refine iff_of_false (fun heq => ?_) (h.ne_none_of_pending ?_ hq
          (Option.isSome_of_eq_some hqlease) hmonty)
        · rw [hmonty] at heq
          have hsame := (Function.update_self p.monty_call_id _ s.pending_futures).symm.trans heq
          injection hsame with hsame
          injection hsame with hsame
          exact hne q hq hsame.symm
        · exact fun _ _ _ heq => nomatch hfree.symm.trans heq
      · rw [← h.pending q hq lease' hqlease]
        exact Eq.congr_left (Function.update_of_ne hmonty _ _)
    · obtain rfl := List.mem_singleton.mp hq
      obtain rfl := Option.some.inj (hlease.symm.trans hqlease)
      exact iff_of_true (Function.update_self _ _ _) hnone
  · by_cases hmonty : id = p.monty_call_id
    · subst hmonty
      have hsame := (Function.update_self p.monty_call_id _ s.pending_futures).symm.trans hfuture
      injection hsame with hsame
      injection hsame with hp hcall hlease'
      exact ⟨p, List.mem_append_right _ (List.mem_singleton.mpr rfl), hp, rfl, hcall,
        hlease' ▸ hlease⟩
    · obtain ⟨q, hq, hrest⟩ :=
        h.known id position call lease' ((Function.update_of_ne hmonty _ _).symm.trans hfuture)
      exact ⟨q, List.mem_append_left _ hq, hrest⟩
  · obtain hq | hq := List.mem_append.mp hq
    · exact h.answered q hq hqlease
    · rw [List.mem_singleton.mp hq, hans]
      refine List.countP_eq_zero.mpr fun event hevent => ?_
      simpa [hposition] using (h.events_below event hevent).ne
  · obtain hq | hq := List.mem_append.mp hq
    · exact h.refunded q hq hqlease
    · rw [List.mem_singleton.mp hq, hans]
      refine List.countP_eq_zero.mpr fun refund hrefund => ?_
      simpa [hposition] using (h.refunds_below refund hrefund).ne
  · refine (h.counts id).trans ?_
    simp [List.countP_append, hans]
  · have htaken := (h.books l hl c hacc).take hk hused
    have hcount : ((s.preflights ++ [p]).filterMap fun p =>
        p.lease?.map CapabilityLease.id).count l.id =
          (s.preflights.filterMap fun p => p.lease?.map CapabilityLease.id).count l.id +
            [k.id].count l.id := by
      rw [List.filterMap_append, List.count_append, ← hid]
      simp [hlease]
    rw [hcount, ← Nat.add_assoc]
    exact htaken

end Traced

/-! ### Following a script -/

/-- The gate of the CodeAct path takes one use for a call it approves, and no other. -/
theorem codeactGate_cases (env : DispatchEnv) (caps : List PolicyRule) (clock : ℕ → Readings)
    (i : ℕ) (m : LeaseManager) (name : String) :
    (∃ lease, ∃ k ∈ m.active, lease.id = k.id ∧ k.consumeUse.2 = true ∧
      codeactGate env caps clock i m name =
        (.settled (.approved lease), ⟨m.active.insert k.consumeUse.1⟩)) ∨
    ((codeactGate env caps clock i m name).1.verdict ≠ .allow ∧
      (codeactGate env caps clock i m name).2 = m) := by
  have htake : ∀ lease, (∃ lease', ∃ k ∈ m.active, lease'.id = k.id ∧ k.consumeUse.2 = true ∧
      codeactStyle.takeUse env (clock i) m lease name =
        (.settled (.approved lease'), ⟨m.active.insert k.consumeUse.1⟩)) ∨
      ((codeactStyle.takeUse env (clock i) m lease name).1.verdict ≠ .allow ∧
        (codeactStyle.takeUse env (clock i) m lease name).2 = m) := by
    intro lease
    have hconsume : codeactStyle.consume env (clock i).consume m lease name =
        (m.consumeUse (clock i).consume lease.id).map fun m => (lease, m) := rfl
    rw [LookupStyle.takeUse, hconsume]
    cases hused : m.consumeUse (clock i).consume lease.id with
    | ok m' =>
      obtain ⟨k, hk, -, hkused, rfl⟩ := LeaseManager.consumeUse_eq_ok hused
      exact .inl ⟨lease, k, KeyedStore.mem_of_get? hk, (KeyedStore.key_of_get? hk).symm, hkused,
        rfl⟩
    | error e => exact .inr ⟨by simp [Except.map, codeactStyle, Gate.verdict], rfl⟩
  rw [codeactGate, LookupStyle.gate]
  split
  case h_1 => exact .inr ⟨by simp [Gate.verdict], rfl⟩
  case h_2 lease hl =>
    split
    case h_1 => exact .inr ⟨by simp [Gate.verdict], rfl⟩
    case h_2 actions ha =>
      split
      case h_1 => exact .inr ⟨by simp [Gate.verdict], rfl⟩
      case h_2 => exact .inr ⟨by simp [Gate.verdict], rfl⟩
      case h_3 => exact htake lease
      case h_4 => exact htake lease

/-- A turn keeps the account; a run goes on until a preflight pauses it. -/
def Stays (E : CodeEnv) (m : LeaseManager) (st : Preflighted → Option Fate) (n : ℕ) :
    CodeRun ⊕ (CodeExecutionResult × CodeRun) → Prop
  | .inl s => Traced E m st n s ∧ ∀ p ∈ s.preflights, p.answer ≠ .needsApproval
  | .inr out => Traced E m st n out.2 ∧
    (out.1.need_approval.isSome ↔ ∃ p ∈ out.2.preflights, p.answer = .needsApproval)

section Script

variable {E : CodeEnv} {m : LeaseManager} {st : Preflighted → Option Fate} {n : ℕ} {s : CodeRun}

theorem dispatchTool_stays (h : Traced E m st n s)
    (hunpaused : ∀ p ∈ s.preflights, p.answer ≠ .needsApproval) (call : MontyCall)
    (hfree : s.pending_futures call.call_id = none) (hnew : ∀ p, p.position = n → st p = none) :
    Stays E m st (n + 1) (s.dispatchTool E n call) := by
  rw [CodeRun.dispatchTool]
  set action : ActionCall :=
    ⟨"code_call_" ++ toString s.call_counter, call.function_name, call.params⟩
  have happend : ∀ p : Preflighted, p.answer ≠ .needsApproval →
      ∀ q ∈ s.preflights ++ [p], q.answer ≠ .needsApproval := by
    intro p hp q hq
    obtain hq | hq := List.mem_append.mp hq
    · exact hunpaused q hq
    · exact List.mem_singleton.mp hq ▸ hp
  obtain ⟨lease, k, hk, hid, hused, hgate⟩ | ⟨hverdict, hsame⟩ :=
    codeactGate_cases E.env E.caps E.clock s.call_counter s.leases call.function_name
  · rw [hgate]
    have hstart := h.start (p := ⟨n, call.call_id, action, .settled (.approved lease)⟩) rfl rfl
      (hnew _ rfl) hfree hk hid hused
    exact ⟨hstart.of_fields rfl rfl rfl rfl rfl, happend _ nofun⟩
  · rcases hgate : codeactGate E.env E.caps E.clock s.call_counter s.leases call.function_name
      with ⟨answer, leases⟩
    -- nothing is taken from a lease: the call is only noted
    rw [hgate] at hverdict hsame
    obtain rfl : leases = s.leases := hsame
    clear hgate
    cases answer with
    | aborted e =>
      have hrefuse := h.refuse (p := ⟨n, call.call_id, action, .aborted e⟩) rfl rfl []
      rw [List.map_nil, List.append_nil] at hrefuse
      exact ⟨hrefuse.of_fields rfl rfl rfl rfl rfl, happend _ nofun⟩
    | needsApproval =>
      have hrefuse := h.refuse (p := ⟨n, call.call_id, action, .needsApproval⟩) rfl rfl
        [approvalEvent action]
      exact ⟨hrefuse.of_fields rfl rfl rfl rfl rfl, iff_of_true rfl
        ⟨_, List.mem_append_right _ (List.mem_singleton.mpr rfl), rfl⟩⟩
    | settled outcome =>
      cases outcome with
      | approved lease => exact absurd rfl hverdict
      | noLease =>
        have hrefuse := h.refuse (p := ⟨n, call.call_id, action, .settled .noLease⟩) rfl rfl
          (codeactSlot E.env E.serde action .noLease).2
        exact ⟨hrefuse.of_fields rfl rfl rfl rfl rfl, happend _ nofun⟩
      | denied reason =>
        have hrefuse := h.refuse (p := ⟨n, call.call_id, action, .settled (.denied reason)⟩) rfl
          rfl (codeactSlot E.env E.serde action (.denied reason)).2
        exact ⟨hrefuse.of_fields rfl rfl rfl rfl rfl, happend _ nofun⟩
      | notConsumed e =>
        have hrefuse := h.refuse (p := ⟨n, call.call_id, action, .settled (.notConsumed e)⟩) rfl
          rfl (codeactSlot E.env E.serde action (.notConsumed e)).2
        exact ⟨hrefuse.of_fields rfl rfl rfl rfl rfl, happend _ nofun⟩

/-- A turn without an effect on the futures. -/
theorem fateAfter_idle (st : Preflighted → Option Fate) : (fateAfter st fun _ => none) = st :=
  funext fun _ => Option.or_none

theorem functionCall_stays (h : Traced E m st n s)
    (hunpaused : ∀ p ∈ s.preflights, p.answer ≠ .needsApproval) (call : MontyCall)
    (hnew : ∀ p, p.position = n → st p = none) (printed : String) :
    Stays E m (fateAfter st fun id => Resumed.fateOf id (.progress printed (.functionCall call)))
      (n + 1) (s.functionCall E n call) := by
  have hcounted : Traced E m st (n + 1) { s with call_counter := s.call_counter + 1 } :=
    (Tracked.later h n.le_succ).of_fields rfl rfl rfl rfl rfl
  have hidle : call.function_name ∉ CodeRun.futureBuiltins →
      (fateAfter st fun id => Resumed.fateOf id (.progress printed (.functionCall call))) = st := by
    intro hbuiltin
    funext p
    simp [fateAfter, Resumed.fateOf, hbuiltin]
  rw [CodeRun.functionCall]
  by_cases hsync : call.function_name ∈ CodeRun.syncBuiltins
  · have hdisjoint : ∀ name ∈ CodeRun.syncBuiltins, name ∉ CodeRun.futureBuiltins := by decide
    rw [if_pos hsync, hidle (hdisjoint _ hsync)]
    exact ⟨hcounted.of_fields rfl rfl rfl rfl rfl, hunpaused⟩
  rw [if_neg hsync]
  dsimp only
  by_cases hbuiltin : call.function_name ∈ CodeRun.futureBuiltins
  · have hdeferred : Traced E m _ (n + 1)
        (CodeRun.deferBuiltin { s with call_counter := s.call_counter + 1 } call) :=
      Traced.deferBuiltin hcounted call
    rw [CodeRun.deferBuiltin, if_pos hbuiltin] at hdeferred ⊢
    have htaken : (Function.update s.pending_futures call.call_id (some PendingFuture.llm)
        call.call_id).isSome = true := by
      rw [Function.update_self]
      rfl
    rw [if_pos htaken]
    exact ⟨hdeferred.of_fields rfl rfl rfl rfl rfl, hunpaused⟩
  · rw [hidle hbuiltin, CodeRun.deferBuiltin, if_neg hbuiltin]
    cases hpending : s.pending_futures call.call_id with
    | some future =>
      rw [if_pos (by simp)]
      exact ⟨hcounted.of_fields rfl rfl rfl rfl rfl, hunpaused⟩
    | none =>
      rw [if_neg (by simp)]
      have hnow : Traced E m st n { s with call_counter := s.call_counter + 1 } :=
        h.of_fields rfl rfl rfl rfl rfl
      exact dispatchTool_stays hnow hunpaused call hpending hnew

theorem preflights_resolveTool (s : CodeRun) (position : ℕ) (call : ActionCall)
    (lease : CapabilityLease) :
    (s.resolveTool E position call lease).preflights = s.preflights := by
  rw [CodeRun.resolveTool]
  by_cases hpanics : E.panics position = true
  · rw [if_pos hpanics]
  · rw [if_neg hpanics]

theorem preflights_resolveFutures (ids : List ℕ) (s : CodeRun) :
    (ids.foldl (CodeRun.resolveFuture E) s).preflights = s.preflights := by
  induction ids generalizing s with
  | nil => rfl
  | cons id ids ih =>
    rw [List.foldl_cons, ih, CodeRun.resolveFuture]
    cases s.pending_futures id with
    | none => rfl
    | some future =>
      cases future with
      | llm => rfl
      | tool position call lease => exact preflights_resolveTool _ position call lease

/-- **One turn.** -/
theorem step_stays (h : Traced E m st n s)
    (hunpaused : ∀ p ∈ s.preflights, p.answer ≠ .needsApproval) (resumed : Resumed)
    (hnew : ∀ p, p.position = n → st p = none) :
    Stays E m (fateAfter st fun id => resumed.fateOf id) (n + 1) (s.step E n resumed) := by
  have hnone : ¬∃ p ∈ s.preflights, p.answer = .needsApproval := fun ⟨p, hp, hanswer⟩ =>
    hunpaused p hp hanswer
  have hidle : Traced E m (fateAfter st fun _ => none) (n + 1) s := by
    rw [fateAfter_idle]
    exact Tracked.later h n.le_succ
  cases resumed with
  | panic printed =>
    exact ⟨hidle.of_fields rfl rfl rfl rfl rfl, iff_of_false Bool.false_ne_true hnone⟩
  | error printed message =>
    exact ⟨hidle.of_fields rfl rfl rfl rfl rfl, iff_of_false Bool.false_ne_true hnone⟩
  | progress printed progress =>
    cases progress with
    | complete value =>
      exact ⟨hidle.of_fields rfl rfl rfl rfl rfl, iff_of_false Bool.false_ne_true hnone⟩
    | nameLookup name => exact ⟨hidle.of_fields rfl rfl rfl rfl rfl, hunpaused⟩
    | osCall => exact ⟨hidle.of_fields rfl rfl rfl rfl rfl, hunpaused⟩
    | functionCall call =>
      have hprinted : Traced E m st n { s with stdout := s.stdout ++ printed } :=
        h.of_fields rfl rfl rfl rfl rfl
      exact functionCall_stays hprinted hunpaused call hnew printed
    | resolveFutures ids =>
      have hprinted : Traced E m st n { s with stdout := s.stdout ++ printed } :=
        h.of_fields rfl rfl rfl rfl rfl
      have hresolved := Tracked.later (hprinted.resolveFutures ids) n.le_succ
      refine ⟨hresolved.of_fields rfl rfl rfl rfl rfl, fun p hp => hunpaused p ?_⟩
      rw [← preflights_resolveFutures ids { s with stdout := s.stdout ++ printed }]
      exact hp

end Script

/-- A turn that does something to a future starts no call. -/
theorem preflights_of_fateOf {E : CodeEnv} {n : ℕ} {s : CodeRun} {resumed : Resumed} {id : ℕ}
    {f : Fate} (h : resumed.fateOf id = some f) :
    ∃ t, s.step E n resumed = .inl t ∧ t.preflights = s.preflights := by
  cases resumed with
  | panic printed => cases h
  | error printed message => cases h
  | progress printed progress =>
    cases progress with
    | complete value => cases h
    | nameLookup name => cases h
    | osCall => cases h
    | resolveFutures ids => exact ⟨_, rfl, preflights_resolveFutures ids _⟩
    | functionCall call =>
      by_cases hbuiltin : call.function_name ∈ CodeRun.futureBuiltins ∧ call.call_id = id
      · have hdisjoint : ∀ name ∈ CodeRun.futureBuiltins, name ∉ CodeRun.syncBuiltins := by decide
        rw [CodeRun.step, CodeRun.functionCall, if_neg (hdisjoint _ hbuiltin.1),
          CodeRun.deferBuiltin, if_pos hbuiltin.1]
        have htaken : (Function.update s.pending_futures call.call_id (some PendingFuture.llm)
            call.call_id).isSome = true := by
          rw [Function.update_self]
          rfl
        rw [if_pos htaken]
        exact ⟨_, rfl, rfl⟩
      · rw [Resumed.fateOf, if_neg hbuiltin] at h
        cases h

/-- What the turns of `seen` do to a call's future, and then one more. -/
theorem fate_append_singleton {p : Preflighted} {seen : List Resumed} (resumed : Resumed)
    (hseen : p.position < seen.length) : p.fate (seen ++ [resumed]) =
      fateAfter (Preflighted.fate seen) (fun id => resumed.fateOf id) p := by
  have hdrop : (seen ++ [resumed]).drop (p.position + 1) =
      seen.drop (p.position + 1) ++ [resumed] :=
    List.drop_append_of_le_length (by omega)
  rw [Preflighted.fate, hdrop, T3Claw.fate, List.findSome?_append, fateAfter, Preflighted.fate,
    T3Claw.fate, List.findSome?_singleton]

theorem fate_of_le {p : Preflighted} {seen : List Resumed} (hseen : seen.length ≤ p.position + 1) :
    p.fate seen = none := by
  rw [Preflighted.fate, List.drop_of_length_le hseen]
  rfl

/-- **A run.** -/
theorem run_traced {E : CodeEnv} {m : LeaseManager} {seen rest : List Resumed} {s : CodeRun}
    {out : CodeExecutionResult × CodeRun} (h : Traced E m (Preflighted.fate seen) seen.length s)
    (hunpaused : ∀ p ∈ s.preflights, p.answer ≠ .needsApproval)
    (hrun : s.run E seen.length rest = some out) :
    Traced E m (Preflighted.fate (seen ++ rest)) (seen ++ rest).length out.2 ∧
      (out.1.need_approval.isSome ↔ ∃ p ∈ out.2.preflights, p.answer = .needsApproval) := by
  induction rest generalizing seen s with
  | nil => cases hrun
  | cons resumed rest ih =>
    have hstep := step_stays h hunpaused resumed fun p hp => fate_of_le (by omega)
    have happend : (seen ++ [resumed]).length = seen.length + 1 := List.length_append
    -- what the script is told by then is its fate under all that was told so far
    have hfates : ∀ t : CodeRun, Traced E m (fateAfter (Preflighted.fate seen)
        fun id => resumed.fateOf id) (seen.length + 1) t →
        (∀ p ∈ t.preflights, p.position = seen.length →
          resumed.fateOf p.monty_call_id = none) →
        Traced E m (Preflighted.fate (seen ++ [resumed])) (seen ++ [resumed]).length t := by
      intro t ht hstarted
      have hfate : ∀ p ∈ t.preflights, p.fate (seen ++ [resumed]) =
          fateAfter (Preflighted.fate seen) (fun id => resumed.fateOf id) p := by
        intro p hp
        obtain hlt | heq := Nat.lt_succ_iff_lt_or_eq.mp (ht.below p hp)
        · exact fate_append_singleton resumed hlt
        · rw [fateAfter, fate_of_le (by omega), fate_of_le (by omega), hstarted p hp heq]
          rfl
      rw [happend]
      refine Tracked.congr ht (fun p hp _ => ?_) fun p hp _ => ?_
      · rw [hfate p hp]
      · rw [hfate p hp]
    have hstarted : ∀ p, p ∈ s.preflights → p.position ≠ seen.length := fun p hp =>
      (h.below p hp).ne
    rw [CodeRun.run] at hrun
    cases hs : s.step E seen.length resumed with
    | inl t =>
      rw [hs] at hrun hstep
      -- a call of this very position can not be answered before it has been made
      have hnew : ∀ p ∈ t.preflights, p.position = seen.length →
          resumed.fateOf p.monty_call_id = none := by
        intro p hp hposition
        by_contra hfate
        obtain ⟨f, hfate⟩ := Option.ne_none_iff_exists'.mp hfate
        obtain ⟨t', ht', hpreflights⟩ := preflights_of_fateOf (E := E) (n := seen.length) (s := s)
          hfate
        obtain rfl : t' = t := Sum.inl.inj (ht'.symm.trans hs)
        exact hstarted p (hpreflights ▸ hp) hposition
      have hnext := ih (hfates t hstep.1 hnew) hstep.2 (happend ▸ hrun)
      rwa [List.append_assoc, List.singleton_append] at hnext
    | inr returned =>
      rw [hs] at hrun hstep
      cases rest with
      | cons other rest => cases hrun
      | nil =>
        obtain rfl : returned = out := Option.some.inj hrun
        refine ⟨hfates _ hstep.1 fun p _ _ => ?_, hstep.2⟩
        by_contra hfate
        obtain ⟨f, hfate⟩ := Option.ne_none_iff_exists'.mp hfate
        obtain ⟨t, ht, -⟩ := preflights_of_fateOf (E := E) (n := seen.length) (s := s) hfate
        cases ht.symm.trans hs

/-- The run before the script starts. -/
theorem traced_new (E : CodeEnv) (m : LeaseManager) :
    Traced E m (Preflighted.fate []) 0 (CodeRun.new m) where
  below := List.forall_mem_nil _
  nodup := List.nodup_nil
  events_below := List.forall_mem_nil _
  refunds_below := List.forall_mem_nil _
  pending := List.forall_mem_nil _
  known _ _ _ _ hfuture := by cases hfuture
  answered := List.forall_mem_nil _
  refunded := List.forall_mem_nil _
  counts _ := rfl
  books l hl _ hacc := ⟨l, hl, rfl, rfl, hacc⟩

/-- **When a CodeAct step accounts for its calls.** For every script, whatever it calls, awaits
and ends with, every policy and clock, and whatever the calls it starts end in. -/
theorem step_accounted_iff (E : CodeEnv) (m : LeaseManager) (script : List Resumed)
    (out : CodeExecutionResult × CodeRun) (hreturned : executeCode E m script = some out) :
    Accounted E m out ↔ AllAwaited E script out.2.preflights := by
  have hrun : (CodeRun.new m).run E ([] : List Resumed).length script = some out := hreturned
  obtain ⟨h, hpaused⟩ := run_traced (traced_new E m) (List.forall_mem_nil _) hrun
  rw [List.nil_append] at h
  have hsettled : ∀ p : Preflighted, p.settled E (p.fate script) = true ↔
      p.fate script = some .awaited ∧ E.panics p.position = false := fun p => by
    simp [Preflighted.settled]
  constructor
  · intro hacc
    refine ⟨fun p hp hlease => (hsettled p).mp ?_, fun hgate => hpaused.mp (hacc.paused hgate)⟩
    have hone := hacc.answered p hp hlease
    rw [h.answered p hp hlease] at hone
    by_contra hnot
    rw [if_neg hnot] at hone
    omega
  · intro hall
    refine ⟨fun p hp hlease => ?_, fun p hp hlease => ?_, charges_of_hasBooks h.books,
      fun hgate => hpaused.mpr (hall.paused hgate)⟩
    · rw [h.answered p hp hlease, if_pos ((hsettled p).mpr (hall.awaited p hp hlease))]
    · rw [h.refunded p hp hlease, (hsettled p).mpr (hall.awaited p hp hlease), Bool.true_and]

/-! ### A call that nobody waits for -/

section Unawaited

/-- A lease of two uses of `http`. -/
private def httpLease : CapabilityLease where
  id := ⟨1⟩
  thread_id := ⟨1⟩
  capability_name := "tools"
  granted_actions := .specific ["http"]
  granted_at := 0
  expires_at := none
  max_uses := some 2
  uses_remaining := some 2
  revoked := false
  revoked_reason := none

/-- `http` needs no approval by policy, and is paused by the authentication gate. -/
private def httpEnv : CodeEnv where
  env :=
    { thread_id := ⟨1⟩
      step_id := ⟨1⟩
      policy := PolicyEngine.new
      effects := ⟨fun _ => .ok [⟨"http", [], false⟩],
        fun _ _ _ _ => (.error (.gatePaused "authentication" "http" "code_call_1" .null
          (.authentication "github" "Paste a token" none) none none), 0)⟩ }
  serde := ⟨fun _ => "", fun _ => .null, fun _ => none⟩
  caps := []
  clock _ := ⟨0, 0, 0⟩
  panics _ := false

private def httpLeases : LeaseManager := ⟨⟨[httpLease], by decide⟩⟩

private def httpCall : Resumed := .progress "" (.functionCall ⟨0, "http", none, .obj []⟩)

private def httpScript : List Resumed :=
  [httpCall, .progress "" (.resolveFutures [0]), .progress "" (.complete .null)]

private def lostScript : List Resumed := [httpCall, .progress "" (.complete .null)]

/-- A script that waits for its request. -/
theorem step_accounted_iff_http : ∃ out, executeCode httpEnv httpLeases httpScript = some out ∧
    (Accounted httpEnv httpLeases out ↔ AllAwaited httpEnv httpScript out.2.preflights) := by
  have hreturned : (executeCode httpEnv httpLeases httpScript).isSome = true := by decide +kernel
  obtain ⟨out, hout⟩ := Option.isSome_iff_exists.mp hreturned
  exact ⟨out, hout, step_accounted_iff httpEnv httpLeases httpScript out hout⟩

/-- The script starts a request and completes: the request has no event, its use is gone, and
the gate it met is not reported. -/
theorem unawaited_call_unaccounted : ¬∀ E m script out, executeCode E m script = some out →
    Accounted E m out := by
  intro h
  have hreturned : (executeCode httpEnv httpLeases lostScript).isSome = true := by decide +kernel
  obtain ⟨out, hout⟩ := Option.isSome_iff_exists.mp hreturned
  have hlost : (executeCode httpEnv httpLeases lostScript).any (fun out =>
      out.2.preflights.any (Preflighted.gatePaused httpEnv) && !out.1.need_approval.isSome) =
        true := by decide +kernel
  rw [hout, Option.any_some, Bool.and_eq_true, Bool.not_eq_true'] at hlost
  obtain ⟨p, hp, hpaused⟩ := List.any_eq_true.mp hlost.1
  have hsome := (h _ _ _ out hout).paused ⟨p, hp, hpaused⟩
  rw [hlost.2] at hsome
  cases hsome

end Unawaited

end T3Claw
