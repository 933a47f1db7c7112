import T3Claw.Capability.Lease
import T3Claw.Capability.Planner
import T3Claw.Executor.Preflight

/-!
# Refreshing the dynamic tool lease

`runtime/lease_refresh.rs::reconcile_dynamic_tool_lease`. Before a thread runs, the actions
the effect executor lists for it are planned as one capability, `tools`, and whatever the
plan grants and the thread's `tools` lease lacks is added: to the active `tools` lease if
there is one, else by granting a new one with neither an expiry nor a use limit.

What a refresh adds to a thread's coverage is said once, in `holds_refreshed_iff`: exactly
the actions the plan admits, unless the `tools` lease already is the wildcard
(`Refresh.Admits`). It never touches a limit of a lease it finds (`limits_refreshed_iff`).
-/

namespace T3Claw

/-- What a refresh reads from outside: the listing, the clock and a fresh lease id. -/
structure Refresh where
  effects : EffectExecutor
  lookup_at : Time
  grant_at : Time
  lease_id : LeaseId

/-- The lease state of a thread: its manager, the ids it lists, the leases it saved. -/
structure ThreadLeases where
  leases : LeaseManager
  capability_leases : List LeaseId
  saved : List CapabilityLease

/-- Store the lease when there is a store. -/
def ThreadLeases.save (s : ThreadLeases) (store : Bool) (lease : CapabilityLease) :
    ThreadLeases :=
  if store then { s with saved := s.saved ++ [lease] } else s

/-- The plan for the listed actions, registered as the capability `tools`. -/
def toolsPlan (thread_type : ThreadType) (actions : List ActionDef) :
    Option CapabilityGrantPlan :=
  (planForThread thread_type
    (CapabilityRegistry.register KeyedStore.empty ⟨"tools", actions, []⟩)).find?
      fun grant => grant.capability_name == "tools"

/-- A set of names as a sorted list. -/
def sortedSet (names : List String) : List String := names.dedup.insertionSort (· ≤ ·)

@[simp] theorem mem_sortedSet {names : List String} {a : String} :
    a ∈ sortedSet names ↔ a ∈ names := by
  simp [sortedSet]

/-- The second half of the refresh: bring `desired_actions` into the active `tools` lease,
or grant them as a new one. `store` says whether the thread has one. -/
def addToolActions (thread_id : ThreadId) (store : Bool) (q : Refresh) (s : ThreadLeases)
    (active_leases : List CapabilityLease) (desired_actions : List String) :
    Except EngineError ThreadLeases :=
  match active_leases.find? fun lease => lease.capability_name == "tools" with
  | some existing =>
    if existing.granted_actions.isAll then .ok s
    else
      let before := existing.granted_actions.actions.dedup.length
      let merged := sortedSet (existing.granted_actions.actions ++ desired_actions)
      if merged.length = before then .ok s
      else
        match s.leases.updateGrantedActions existing.id (.specific merged) with
        | .error e => .error e
        | .ok (updated, leases) => .ok ({ s with leases }.save store updated)
  | none =>
    match s.leases.grant q.lease_id q.grant_at thread_id "tools"
        (.specific (sortedSet desired_actions)) none none with
    | .error e => .error e
    | .ok (lease, leases) =>
      let s := { s with leases }.save store lease
      if s.capability_leases.contains lease.id then .ok s
      else .ok { s with capability_leases := s.capability_leases ++ [lease.id] }

/-- `reconcile_dynamic_tool_lease`. -/
def reconcileDynamicToolLease (thread_id : ThreadId) (thread_type : ThreadType) (store : Bool)
    (q : Refresh) (s : ThreadLeases) : Except EngineError ThreadLeases :=
  let active_leases := s.leases.activeForThread q.lookup_at thread_id
  match q.effects.available_actions active_leases with
  | .error e => .error e
  | .ok actions =>
    if actions.isEmpty then .ok s
    else
      match toolsPlan thread_type actions with
      | none => .ok s
      | some grant =>
        match grant.granted_actions with
        | .all => .ok s
        | .specific desired_actions =>
          if desired_actions.isEmpty then .ok s
          else addToolActions thread_id store q s active_leases desired_actions

/-- A refresh whose error is dropped: the listing failed and nothing changed. -/
def refreshed (thread_id : ThreadId) (thread_type : ThreadType) (store : Bool) (q : Refresh)
    (s : ThreadLeases) : ThreadLeases :=
  (reconcileDynamicToolLease thread_id thread_type store q s).toOption.getD s

/-! ### What a refresh does -/

/-- The active `tools` lease of a thread, as the refresh finds it. -/
def Refresh.existing? (q : Refresh) (thread_id : ThreadId) (m : LeaseManager) :
    Option CapabilityLease :=
  (m.activeForThread q.lookup_at thread_id).find? fun lease => lease.capability_name == "tools"

/-- The names the plan admits. -/
def Refresh.desired (q : Refresh) (thread_id : ThreadId) (thread_type : ThreadType)
    (m : LeaseManager) : List String :=
  ((q.effects.available_actions (m.activeForThread q.lookup_at thread_id)).toOption.map
    (admittedActions thread_type)).getD []

/-- The plan admits the action and the thread's `tools` lease is not the wildcard. -/
def Refresh.Admits (q : Refresh) (thread_id : ThreadId) (thread_type : ThreadType)
    (m : LeaseManager) (name : String) : Prop :=
  (∀ lease, q.existing? thread_id m = some lease → lease.granted_actions.isAll = false) ∧
    (GrantedActions.specific (q.desired thread_id thread_type m)).covers name = true

/-- The plan admits something and there is no `tools` lease to add it to. -/
def Refresh.Creates (q : Refresh) (thread_id : ThreadId) (thread_type : ThreadType)
    (m : LeaseManager) : Prop :=
  q.existing? thread_id m = none ∧ q.desired thread_id thread_type m ≠ []

/-- The lease a refresh creates. -/
def Refresh.newLease (q : Refresh) (thread_id : ThreadId) (thread_type : ThreadType)
    (m : LeaseManager) : CapabilityLease where
  id := q.lease_id
  thread_id := thread_id
  capability_name := "tools"
  granted_actions := .specific (sortedSet (q.desired thread_id thread_type m))
  granted_at := q.grant_at
  expires_at := none
  max_uses := none
  uses_remaining := none
  revoked := false
  revoked_reason := none

@[simp] theorem leases_save (s : ThreadLeases) (store : Bool) (lease : CapabilityLease) :
    (s.save store lease).leases = s.leases := by
  cases store <;> rfl

theorem toolsPlan_eq (thread_type : ThreadType) (actions : List ActionDef) :
    toolsPlan thread_type actions =
      if (admittedActions thread_type actions).isEmpty then none
      else some ⟨"tools", .specific (admittedActions thread_type actions)⟩ := by
  rw [toolsPlan, planForThread, CapabilityRegistry.register_empty]
  by_cases h : (admittedActions thread_type actions).isEmpty = true
  · simp only [List.filterMap_cons, h, if_true, List.filterMap_nil, List.find?_nil]
  · simp only [List.filterMap_cons, h, if_false, List.filterMap_nil, Bool.false_eq_true]
    rfl

theorem Refresh.existing?_spec {q : Refresh} {tid : ThreadId} {m : LeaseManager}
    {l : CapabilityLease} (h : q.existing? tid m = some l) :
    l ∈ m.active ∧ l.thread_id = tid ∧ l.isValid q.lookup_at = true ∧
      l.capability_name = "tools" := by
  have hmem := List.mem_of_find?_eq_some h
  rw [LeaseManager.activeForThread, List.mem_filter] at hmem
  have hname : (l.capability_name == "tools") = true :=
    List.find?_some (p := fun lease : CapabilityLease => lease.capability_name == "tools") h
  refine ⟨hmem.1, ?_, ?_, by simpa using hname⟩
  · exact beq_iff_eq.mp (Bool.and_eq_true_iff.mp hmem.2).1
  · exact (Bool.and_eq_true_iff.mp hmem.2).2

/-- A refresh that wants something is its second half. -/
private theorem reconcile_eq (tid : ThreadId) (tt : ThreadType) (store : Bool) (q : Refresh)
    (s : ThreadLeases) : refreshed tid tt store q s =
      if q.desired tid tt s.leases = [] then s
      else (addToolActions tid store q s (s.leases.activeForThread q.lookup_at tid)
        (q.desired tid tt s.leases)).toOption.getD s := by
  simp only [refreshed, reconcileDynamicToolLease, Refresh.desired]
  have hlisted : (∃ e, q.effects.available_actions (s.leases.activeForThread q.lookup_at tid) =
      .error e) ∨ ∃ actions, q.effects.available_actions
      (s.leases.activeForThread q.lookup_at tid) = .ok actions := by
    cases q.effects.available_actions (s.leases.activeForThread q.lookup_at tid) <;> simp
  obtain ⟨e, ha⟩ | ⟨actions, ha⟩ := hlisted
  · simp [ha, Except.toOption]
  simp only [ha, Except.toOption, Option.map_some, Option.getD_some, toolsPlan_eq]
  by_cases hnil : admittedActions tt actions = []
  · by_cases hact : actions.isEmpty = true <;> simp [hnil, hact]
  · have hact : actions.isEmpty = false := by
      rcases actions with _ | ⟨a, as⟩
      · exact absurd rfl hnil
      · rfl
    simp [hnil, hact]

/-- A merge adds nothing exactly when the wanted names are all there. -/
private theorem length_merged_eq_iff {as desired : List String} :
    (sortedSet (as ++ desired)).length = as.dedup.length ↔ desired ⊆ as := by
  have hsub : as.dedup.Subperm (as ++ desired).dedup :=
    (List.nodup_dedup as).subperm fun a ha => by simp_all
  rw [sortedSet, List.length_insertionSort]
  constructor
  · intro hlen a ha
    have hperm := hsub.perm_of_length_le hlen.le
    simpa using hperm.symm.subset (by simp [ha] : a ∈ (as ++ desired).dedup)
  · intro hss
    refine (List.Perm.length_eq ?_).symm
    refine (List.perm_ext_iff_of_nodup (List.nodup_dedup _) (List.nodup_dedup _)).mpr fun a => ?_
    simp only [List.mem_dedup, List.mem_append]
    exact ⟨Or.inl, fun h => h.elim id fun h => hss h⟩

/-- **What a refresh can do.** It leaves the leases alone, extends the active `tools` lease
by the admitted actions, or creates one. -/
theorem refreshed_cases (tid : ThreadId) (tt : ThreadType) (store : Bool) (q : Refresh)
    (s : ThreadLeases) :
    ((refreshed tid tt store q s).leases = s.leases ∧ ¬q.Creates tid tt s.leases ∧
        ((∃ l, q.existing? tid s.leases = some l ∧ (l.granted_actions.isAll = true ∨
            ∃ as, l.granted_actions = .specific as ∧ q.desired tid tt s.leases ⊆ as)) ∨
          q.desired tid tt s.leases = [])) ∨
      (∃ l as, q.existing? tid s.leases = some l ∧ l.granted_actions = .specific as ∧
        (refreshed tid tt store q s).leases = ⟨s.leases.active.insert
          { l with granted_actions := .specific (sortedSet (as ++ q.desired tid tt s.leases)) }⟩) ∨
      (q.Creates tid tt s.leases ∧ (refreshed tid tt store q s).leases =
        ⟨s.leases.active.insert (q.newLease tid tt s.leases)⟩) := by
  rw [reconcile_eq]
  by_cases hnil : q.desired tid tt s.leases = []
  · exact .inl ⟨by rw [if_pos hnil], fun h => h.2 hnil, .inr hnil⟩
  rw [if_neg hnil, addToolActions]
  rcases hex : q.existing? tid s.leases with _ | l
  · refine .inr (.inr ⟨⟨hex, hnil⟩, ?_⟩)
    simp only [Refresh.existing?] at hex
    rw [hex]
    simp only [LeaseManager.grant, Option.any_none, Bool.false_eq_true, if_false, reduceCtorEq,
      Option.map_none, Except.toOption]
    split_ifs <;> simp [Refresh.newLease]
  · have hmem := (Refresh.existing?_spec hex).1
    have hfind := hex
    simp only [Refresh.existing?] at hfind
    rw [hfind]
    rcases hga : l.granted_actions with _ | as
    · exact .inl ⟨by simp [hga, GrantedActions.isAll, Except.toOption],
        fun h => by simpa [hex] using h.1,
        .inl ⟨l, rfl, .inl (by simp [hga, GrantedActions.isAll])⟩⟩
    · by_cases hlen : (sortedSet (as ++ q.desired tid tt s.leases)).length = as.dedup.length
      · refine .inl ⟨?_, fun h => by simpa [hex] using h.1,
          .inl ⟨l, rfl, .inr ⟨as, hga, length_merged_eq_iff.mp hlen⟩⟩⟩
        simp [hga, GrantedActions.isAll, GrantedActions.actions, hlen, Except.toOption]
      · refine .inr (.inl ⟨l, as, rfl, hga, ?_⟩)
        simp [hga, GrantedActions.isAll, GrantedActions.actions, hlen, Except.toOption,
          LeaseManager.updateGrantedActions, KeyedStore.get?_key hmem]

/-! ### Coverage and limits after refreshes -/

/-- Some lease of the thread, valid at some time, covers the action. -/
def LeaseManager.Holds (m : LeaseManager) (thread_id : ThreadId) (name : String) : Prop :=
  ∃ l ∈ m.active, l.thread_id = thread_id ∧ (∃ t, l.isValid t = true) ∧
    l.coversAction name = true

/-- A lease's id, the capability it is for, its uses and its expiry. -/
def CapabilityLease.limits (l : CapabilityLease) : LeaseId × String × Option ℕ × Option Time :=
  (l.id, l.capability_name, l.uses_remaining, l.expires_at)

/-- Coverage of a set of names is coverage by one of two parts. -/
private theorem covers_sortedSet_append {as bs : List String} {name : String} :
    (GrantedActions.specific (sortedSet (as ++ bs))).covers name = true ↔
      (GrantedActions.specific as).covers name = true ∨
        (GrantedActions.specific bs).covers name = true := by
  simp only [GrantedActions.covers_specific, mem_sortedSet, List.mem_append, or_and_right,
    exists_or]

theorem Refresh.admits_iff_of_specific {q : Refresh} {tid : ThreadId} {tt : ThreadType}
    {m : LeaseManager} {l : CapabilityLease} {as : List String} {name : String}
    (he : q.existing? tid m = some l) (hl : l.granted_actions = .specific as) :
    q.Admits tid tt m name ↔
      (GrantedActions.specific (q.desired tid tt m)).covers name = true := by
  refine and_iff_right fun l' hl' => ?_
  obtain rfl : l = l' := by simpa [he] using hl'
  simp [hl, GrantedActions.isAll]

theorem Refresh.newLease_isValid (q : Refresh) (tid : ThreadId) (tt : ThreadType)
    (m : LeaseManager) (t : Time) : (q.newLease tid tt m).isValid t = true := rfl

variable {tid : ThreadId} {tt : ThreadType} {store : Bool} {q : Refresh} {s : ThreadLeases}
  {name : String}

/-- **Coverage after a refresh**: what was covered, and what the plan admits. -/
theorem holds_refreshed_iff (store : Bool)
    (hfresh : ∀ l ∈ s.leases.active, l.id ≠ q.lease_id) :
    (refreshed tid tt store q s).leases.Holds tid name ↔
      s.leases.Holds tid name ∨ q.Admits tid tt s.leases name := by
  obtain ⟨hm, -, hnothing⟩ | ⟨l, as, he, hl, hm⟩ | ⟨⟨he, -⟩, hm⟩ :=
    refreshed_cases tid tt store q s
  · rw [hm]
    refine (or_iff_left_of_imp fun hadm => ?_).symm
    obtain ⟨l, he, hall | ⟨as, hl, hsub⟩⟩ | hnil := hnothing
    · simp [hadm.1 l he] at hall
    · obtain ⟨hmem, htid, hv, -⟩ := Refresh.existing?_spec he
      refine ⟨l, hmem, htid, ⟨_, hv⟩, ?_⟩
      rw [CapabilityLease.coversAction, hl]
      exact GrantedActions.covers_mono hsub hadm.2
    · simpa [hnil, GrantedActions.covers] using hadm.2
  · obtain ⟨hmem, htid, hv, -⟩ := Refresh.existing?_spec he
    rw [hm, Refresh.admits_iff_of_specific he hl]
    -- more granted actions leave a lease as valid as it was
    have hext : ∀ {t}, l.isValid t = true → CapabilityLease.isValid { l with
        granted_actions := .specific (sortedSet (as ++ q.desired tid tt s.leases)) } t = true :=
      fun h => h
    constructor
    · rintro ⟨a, ha, hat, hav, hac⟩
      rcases KeyedStore.mem_insert.mp ha with rfl | ⟨ha, -⟩
      · refine (covers_sortedSet_append.mp hac).imp_left fun hc => ?_
        exact ⟨l, hmem, htid, ⟨_, hv⟩, by rwa [CapabilityLease.coversAction, hl]⟩
      · exact .inl ⟨a, ha, hat, hav, hac⟩
    · rintro (⟨a, ha, hat, hav, hac⟩ | hdes)
      · by_cases hid : a.id = l.id
        · obtain rfl : a = l := KeyedStore.eq_of_mem ha hmem hid
          rw [CapabilityLease.coversAction, hl] at hac
          exact ⟨_, KeyedStore.mem_insert.mpr (.inl rfl), htid, ⟨_, hext hv⟩,
            covers_sortedSet_append.mpr (.inl hac)⟩
        · exact ⟨a, KeyedStore.mem_insert.mpr (.inr ⟨ha, hid⟩), hat, hav, hac⟩
      · exact ⟨_, KeyedStore.mem_insert.mpr (.inl rfl), htid, ⟨_, hext hv⟩,
          covers_sortedSet_append.mpr (.inr hdes)⟩
  · have hadm : q.Admits tid tt s.leases name ↔
        (q.newLease tid tt s.leases).coversAction name = true := by
      refine (and_iff_right fun l hl => by simp [he] at hl).trans ?_
      simp [CapabilityLease.coversAction, Refresh.newLease, GrantedActions.covers_specific]
    rw [hm, hadm]
    constructor
    · rintro ⟨a, ha, hat, hav, hac⟩
      rcases KeyedStore.mem_insert.mp ha with rfl | ⟨ha, -⟩
      · exact .inr hac
      · exact .inl ⟨a, ha, hat, hav, hac⟩
    · rintro (⟨a, ha, hat, hav, hac⟩ | hnew)
      · exact ⟨a, KeyedStore.mem_insert.mpr (.inr ⟨ha, hfresh a ha⟩), hat, hav, hac⟩
      · exact ⟨_, KeyedStore.mem_insert.mpr (.inl rfl), rfl,
          ⟨0, Refresh.newLease_isValid q tid tt _ 0⟩, hnew⟩

/-- **Limits after a refresh**: those there were, and none at all for a created lease. -/
theorem limits_refreshed_iff (store : Bool)
    (hfresh : ∀ l ∈ s.leases.active, l.id ≠ q.lease_id)
    {x : LeaseId × String × Option ℕ × Option Time} :
    (∃ l ∈ (refreshed tid tt store q s).leases.active, l.limits = x) ↔
      (∃ l ∈ s.leases.active, l.limits = x) ∨
        (q.Creates tid tt s.leases ∧ (q.lease_id, "tools", none, none) = x) := by
  obtain ⟨hm, hc, -⟩ | ⟨l, as, he, hl, hm⟩ | ⟨hc, hm⟩ := refreshed_cases tid tt store q s
  · simp [hm, hc]
  · have hc : ¬q.Creates tid tt s.leases := fun h => by simpa [he] using h.1
    have hmem := (Refresh.existing?_spec he).1
    rw [hm, or_iff_left fun h => hc h.1]
    constructor
    · rintro ⟨a, ha, rfl⟩
      rcases KeyedStore.mem_insert.mp ha with rfl | ⟨ha, -⟩
      · exact ⟨l, hmem, rfl⟩
      · exact ⟨a, ha, rfl⟩
    · rintro ⟨a, ha, rfl⟩
      by_cases hid : a.id = l.id
      · obtain rfl : a = l := KeyedStore.eq_of_mem ha hmem hid
        exact ⟨_, KeyedStore.mem_insert.mpr (.inl rfl), rfl⟩
      · exact ⟨a, KeyedStore.mem_insert.mpr (.inr ⟨ha, hid⟩), rfl⟩
  · rw [hm]
    constructor
    · rintro ⟨a, ha, rfl⟩
      rcases KeyedStore.mem_insert.mp ha with rfl | ⟨ha, -⟩
      · exact .inr ⟨hc, rfl⟩
      · exact .inl ⟨a, ha, rfl⟩
    · rintro (⟨a, ha, rfl⟩ | ⟨-, rfl⟩)
      · exact ⟨a, KeyedStore.mem_insert.mpr (.inr ⟨ha, hfresh a ha⟩), rfl⟩
      · exact ⟨_, KeyedStore.mem_insert.mpr (.inl rfl), rfl⟩

/-- A refresh only brings in its own lease id. -/
theorem id_of_mem_refreshed {l : CapabilityLease}
    (h : l ∈ (refreshed tid tt store q s).leases.active) :
    (∃ l' ∈ s.leases.active, l'.id = l.id) ∨ l.id = q.lease_id := by
  obtain ⟨hm, -⟩ | ⟨l', as, he, -, hm⟩ | ⟨-, hm⟩ := refreshed_cases tid tt store q s
  · exact .inl ⟨l, by rwa [hm] at h, rfl⟩
  · rw [hm] at h
    rcases KeyedStore.mem_insert.mp h with rfl | ⟨h, -⟩
    · exact .inl ⟨l', (Refresh.existing?_spec he).1, rfl⟩
    · exact .inl ⟨l, h, rfl⟩
  · rw [hm] at h
    rcases KeyedStore.mem_insert.mp h with rfl | ⟨h, -⟩
    · exact .inr rfl
    · exact .inl ⟨l, h, rfl⟩

/-- The refreshes of a thread's run, one after the other. -/
def refreshAll (thread_id : ThreadId) (thread_type : ThreadType) (store : Bool)
    (qs : List Refresh) (s : ThreadLeases) : ThreadLeases :=
  qs.foldl (fun s q => refreshed thread_id thread_type store q s) s

/-- No two refreshes bring the same lease id, and none brings one that is taken. -/
def FreshRefreshes (qs : List Refresh) (m : LeaseManager) : Prop :=
  (qs.map Refresh.lease_id).Nodup ∧ ∀ q ∈ qs, ∀ l ∈ m.active, l.id ≠ q.lease_id

theorem FreshRefreshes.tail {qs : List Refresh} (h : FreshRefreshes (q :: qs) s.leases) :
    FreshRefreshes qs (refreshed tid tt store q s).leases := by
  obtain ⟨hnodup, htaken⟩ := h
  rw [List.map_cons, List.nodup_cons] at hnodup
  refine ⟨hnodup.2, fun q' hq' l hl heq => ?_⟩
  obtain ⟨l', hl', hid⟩ | hid := id_of_mem_refreshed hl
  · exact htaken q' (List.mem_cons_of_mem _ hq') l' hl' (hid.trans heq)
  · exact hnodup.1 (List.mem_map.mpr ⟨q', hq', heq.symm.trans hid⟩)

/-- Some refresh of a run, in the state it meets, has a property. -/
def RefreshAlong (thread_id : ThreadId) (thread_type : ThreadType) (store : Bool)
    (P : Refresh → LeaseManager → Prop) (qs : List Refresh) (s : ThreadLeases) : Prop :=
  ∃ pre q post, qs = pre ++ q :: post ∧
    P q (refreshAll thread_id thread_type store pre s).leases

theorem refreshAlong_cons {P : Refresh → LeaseManager → Prop} {qs : List Refresh} :
    RefreshAlong tid tt store P (q :: qs) s ↔
      P q s.leases ∨ RefreshAlong tid tt store P qs (refreshed tid tt store q s) := by
  constructor
  · rintro ⟨pre, q', post, hsplit, hP⟩
    rcases pre with _ | ⟨q'', pre⟩
    · obtain ⟨rfl, rfl⟩ := List.cons.inj hsplit
      exact .inl hP
    · obtain ⟨rfl, rfl⟩ := List.cons.inj hsplit
      exact .inr ⟨pre, q', post, rfl, hP⟩
  · rintro (hP | ⟨pre, q', post, rfl, hP⟩)
    · exact ⟨[], q, qs, rfl, hP⟩
    · exact ⟨q :: pre, q', post, rfl, hP⟩

/-- **Coverage after a run of refreshes.** -/
theorem holds_refreshAll_iff {qs : List Refresh} (hfresh : FreshRefreshes qs s.leases) :
    (refreshAll tid tt store qs s).leases.Holds tid name ↔ s.leases.Holds tid name ∨
      RefreshAlong tid tt store (fun q m => q.Admits tid tt m name) qs s := by
  induction qs generalizing s with
  | nil => simp [refreshAll, RefreshAlong]
  | cons q qs ih =>
    have hhead := fun l hl => hfresh.2 q (List.mem_cons_self ..) l hl
    rw [refreshAlong_cons, ← or_assoc, ← holds_refreshed_iff store hhead]
    exact ih hfresh.tail

/-- **Limits after a run of refreshes.** -/
theorem limits_refreshAll_iff {qs : List Refresh} (hfresh : FreshRefreshes qs s.leases)
    {x : LeaseId × String × Option ℕ × Option Time} :
    (∃ l ∈ (refreshAll tid tt store qs s).leases.active, l.limits = x) ↔
      (∃ l ∈ s.leases.active, l.limits = x) ∨
        RefreshAlong tid tt store
          (fun q m => q.Creates tid tt m ∧ (q.lease_id, "tools", none, none) = x) qs s := by
  induction qs generalizing s with
  | nil => simp [refreshAll, RefreshAlong]
  | cons q qs ih =>
    have hhead := fun l hl => hfresh.2 q (List.mem_cons_self ..) l hl
    rw [refreshAlong_cons, ← or_assoc, ← limits_refreshed_iff store hhead]
    exact ih hfresh.tail

end T3Claw
