import T3Claw.Data.KeyedStore
import T3Claw.Types.Error

/-!
# The lease manager

`capability/lease.rs`. The manager's map is a `KeyedStore` of leases under their own ids;
its order is the iteration order of the map, which only `find`-like operations can see.
Every operation that reads the clock takes the reading it makes, every operation that
makes an id takes the fresh id.

The manager's two ways of spending a use differ in what they look for: `consume_use` wants
one particular lease, `find_and_consume` any lease that covers the action. On the lease a
lookup has just returned both succeed for as long as it stays valid
(`consumeUse_isSome_iff`, `findAndConsume_isSome_iff`).
-/

namespace T3Claw

/-- `LeaseManager::active`. -/
structure LeaseManager where
  active : KeyedStore LeaseId CapabilityLease CapabilityLease.id

namespace LeaseManager

/-- `LeaseManager::new`. -/
def new : LeaseManager := ⟨KeyedStore.empty⟩

/-- The text `{lease_id:?}` prints. -/
private def debugId (id : LeaseId) : String := "LeaseId(" ++ uuidText id.uuid ++ ")"

/-- `LeaseManager::grant`, with the fresh id and the clock reading of the call. -/
def grant (m : LeaseManager) (id : LeaseId) (now : Time) (thread_id : ThreadId)
    (capability_name : String) (granted_actions : GrantedActions) (duration : Option ℤ)
    (max_uses : Option ℕ) : Except EngineError (CapabilityLease × LeaseManager) :=
  if duration.any fun d => decide (d ≤ 0) then
    .error (.effect ("lease duration must be positive, got "
      ++ toString (Int.tdiv (duration.getD 0) 1000000000) ++ "s"))
  else if max_uses = some 0 then
    .error (.effect "lease max_uses must be > 0")
  else
    let lease : CapabilityLease :=
      { id, thread_id, capability_name, granted_actions
        granted_at := now
        expires_at := duration.map fun d => now + d
        max_uses
        uses_remaining := max_uses
        revoked := false
        revoked_reason := none }
    .ok (lease, ⟨m.active.insert lease⟩)

/-- `LeaseManager::check`. -/
def check (m : LeaseManager) (now : Time) (lease_id : LeaseId) :
    Except EngineError CapabilityLease :=
  match m.active.get? lease_id with
  | none => .error (.leaseNotFound (debugId lease_id))
  | some lease =>
    if !lease.isValid now then .error (.leaseExpired lease.capability_name) else .ok lease

/-- `LeaseManager::consume_use`. -/
def consumeUse (m : LeaseManager) (now : Time) (lease_id : LeaseId) :
    Except EngineError LeaseManager :=
  match m.active.get? lease_id with
  | none => .error (.leaseExpired ("lease " ++ debugId lease_id ++ " not found"))
  | some lease =>
    if !lease.isValid now then .error (.leaseExpired lease.capability_name)
    else if !lease.consumeUse.2 then .error (.leaseExpired lease.capability_name)
    else .ok ⟨m.active.insert lease.consumeUse.1⟩

/-- `LeaseManager::refund_use`. -/
def refundUse (m : LeaseManager) (lease_id : LeaseId) : Except EngineError LeaseManager :=
  match m.active.get? lease_id with
  | none => .error (.leaseExpired ("lease " ++ debugId lease_id ++ " not found"))
  | some lease => .ok ⟨m.active.insert lease.refundUse⟩

/-- `LeaseManager::update_granted_actions`. -/
def updateGrantedActions (m : LeaseManager) (lease_id : LeaseId)
    (granted_actions : GrantedActions) : Except EngineError (CapabilityLease × LeaseManager) :=
  match m.active.get? lease_id with
  | none => .error (.leaseNotFound (debugId lease_id))
  | some lease =>
    let lease := { lease with granted_actions }
    .ok (lease, ⟨m.active.insert lease⟩)

/-- `LeaseManager::revoke`: an id that is not there is ignored. -/
def revoke (m : LeaseManager) (lease_id : LeaseId) (reason : String) : LeaseManager :=
  match m.active.get? lease_id with
  | none => m
  | some lease => ⟨m.active.insert { lease with revoked := true, revoked_reason := some reason }⟩

/-- `LeaseManager::expire_stale`: how many leases went, and the manager without them. -/
def expireStale (m : LeaseManager) (now : Time) : ℕ × LeaseManager :=
  let active := m.active.retain fun l => l.isValid now
  (m.active.values.length - active.values.length, ⟨active⟩)

/-- `LeaseManager::active_for_thread`. -/
def activeForThread (m : LeaseManager) (now : Time) (thread_id : ThreadId) :
    List CapabilityLease :=
  m.active.values.filter fun l => l.thread_id == thread_id && l.isValid now

/-- `LeaseManager::find_lease_for_action`. -/
def findLeaseForAction (m : LeaseManager) (now : Time) (thread_id : ThreadId)
    (action_name : String) : Option CapabilityLease :=
  m.active.values.find? fun l => l.thread_id == thread_id && l.isValid now
    && (l.coversAction action_name || l.coversAction (hyphenated action_name)
      || l.coversAction (underscored action_name))

/-- `LeaseManager::find_and_consume`. -/
def findAndConsume (m : LeaseManager) (now : Time) (thread_id : ThreadId)
    (action_name : String) : Except EngineError (CapabilityLease × LeaseManager) :=
  match m.active.values.find? fun l =>
      l.thread_id == thread_id && l.isValid now && l.coversAction action_name with
  | none => .error (.leaseNotFound ("no valid lease for action '" ++ action_name ++ "'"))
  | some lease =>
    if !lease.consumeUse.2 then .error (.leaseExpired lease.capability_name)
    else .ok (lease.consumeUse.1, ⟨m.active.insert lease.consumeUse.1⟩)

/-- What a child is granted of one parent lease: everything, or the requested part of it. -/
def childGrants (granted_actions : GrantedActions) (requested_actions : Option (List String)) :
    GrantedActions :=
  match requested_actions with
  | none => granted_actions
  | some req =>
    match granted_actions with
    | .all => .specific req
    | .specific parent_actions => .specific (parent_actions.filter fun a => req.contains a)

/-- `LeaseManager::derive_child_leases`: the leases derived and the manager with them in.
`lookup_at` and `check_at` are the readings of the listing and of the second validity
check, `id i` the fresh id of the lease derived from the `i`-th parent lease. -/
def deriveChildLeases (m : LeaseManager) (lookup_at check_at granted_at : Time)
    (id : ℕ → LeaseId) (parent_thread_id child_thread_id : ThreadId)
    (requested_actions : Option (List String)) : List CapabilityLease × LeaseManager :=
  let parent_leases := m.activeForThread lookup_at parent_thread_id
  let child_leases := parent_leases.zipIdx.filterMap fun (parent, i) =>
    let child_grants := childGrants parent.granted_actions requested_actions
    if !parent.isValid check_at then none
    else if child_grants = .specific [] ∧ requested_actions.isSome then none
    else some
      { id := id i
        thread_id := child_thread_id
        capability_name := parent.capability_name
        granted_actions := child_grants
        granted_at
        expires_at := parent.expires_at
        max_uses := parent.uses_remaining
        uses_remaining := parent.uses_remaining
        revoked := false
        revoked_reason := none }
  (child_leases, ⟨child_leases.foldl KeyedStore.insert m.active⟩)

theorem covers_childGrants {g : GrantedActions} {req : Option (List String)} {name : String}
    (h : (childGrants g req).covers name = true) : g.covers name = true := by
  rcases req with _ | req
  · exact h
  · rcases g with _ | parent_actions
    · rfl
    · exact GrantedActions.covers_mono (List.filter_subset_self parent_actions) h

/-- What is granted of a request was asked for. -/
theorem covers_request_of_childGrants {g : GrantedActions} {req : List String} {name : String}
    (h : (childGrants g (some req)).covers name = true) :
    (GrantedActions.specific req).covers name = true := by
  rcases g with _ | parent_actions
  · exact h
  · refine GrantedActions.covers_mono (fun a ha => ?_) h
    simpa using (List.mem_filter.mp ha).2

/-! ### What the lookups find -/

/-- The lease is a thread's, valid at `now`, and covers the action. -/
def Grants (now : Time) (thread_id : ThreadId) (action_name : String)
    (lease : CapabilityLease) : Prop :=
  lease.thread_id = thread_id ∧ lease.isValid now = true ∧ lease.coversAction action_name = true

instance (now : Time) (tid : ThreadId) (name : String) (l : CapabilityLease) :
    Decidable (Grants now tid name l) :=
  inferInstanceAs (Decidable (_ ∧ _ ∧ _))

/-- Asking for a uniform respelling as well adds nothing: coverage tries both already. -/
theorem coversAction_respelled (l : CapabilityLease) (name : String) :
    (l.coversAction name || l.coversAction (hyphenated name)
      || l.coversAction (underscored name)) = l.coversAction name := by
  cases hg : l.granted_actions with
  | all => simp [CapabilityLease.coversAction, hg]
  | specific as =>
    have hh : GrantedActions.covers (.specific as) (hyphenated name) = true →
        GrantedActions.covers (.specific as) name = true := by
      intro h
      obtain ⟨a, ha, hn⟩ := GrantedActions.covers_specific.mp h
      refine GrantedActions.covers_specific.mpr ⟨a, ha, ?_⟩
      rw [hyphenated_hyphenated, underscored_hyphenated] at hn
      tauto
    have hu : GrantedActions.covers (.specific as) (underscored name) = true →
        GrantedActions.covers (.specific as) name = true := by
      intro h
      obtain ⟨a, ha, hn⟩ := GrantedActions.covers_specific.mp h
      refine GrantedActions.covers_specific.mpr ⟨a, ha, ?_⟩
      rw [hyphenated_underscored, underscored_underscored] at hn
      tauto
    simp only [CapabilityLease.coversAction, hg]
    cases h : GrantedActions.covers (.specific as) name with
    | true => simp
    | false =>
      have h1 : GrantedActions.covers (.specific as) (hyphenated name) = false := by
        by_contra hc
        simp [hh (by simpa using hc)] at h
      have h2 : GrantedActions.covers (.specific as) (underscored name) = false := by
        by_contra hc
        simp [hu (by simpa using hc)] at h
      simp [h1, h2]

/-- The lookup returns the first lease that grants the action. -/
theorem findLeaseForAction_eq (m : LeaseManager) (now : Time) (tid : ThreadId)
    (name : String) : m.findLeaseForAction now tid name =
      m.active.values.find? fun l => Grants now tid name l := by
  unfold findLeaseForAction
  congr 1
  funext l
  rw [coversAction_respelled]
  rw [Bool.eq_iff_iff, decide_eq_true_iff]
  simp [Grants, and_assoc]

theorem findLeaseForAction_spec {m : LeaseManager} {now : Time} {tid : ThreadId}
    {name : String} {l : CapabilityLease} (h : m.findLeaseForAction now tid name = some l) :
    l ∈ m.active ∧ Grants now tid name l := by
  rw [findLeaseForAction_eq] at h
  exact ⟨List.mem_of_find?_eq_some h, by simpa using List.find?_some h⟩

/-- A lookup finds a lease exactly when some lease grants the action. -/
theorem findLeaseForAction_isSome_iff {m : LeaseManager} {now : Time} {tid : ThreadId}
    {name : String} : (m.findLeaseForAction now tid name).isSome = true ↔
      ∃ l ∈ m.active, Grants now tid name l := by
  rw [findLeaseForAction_eq, List.find?_isSome]
  simp [KeyedStore.mem_def]

/-- Consuming from any covering lease succeeds exactly when one still grants the action. -/
theorem findAndConsume_isSome_iff {m : LeaseManager} {now : Time} {tid : ThreadId}
    {name : String} : (m.findAndConsume now tid name).toOption.isSome = true ↔
      ∃ l ∈ m.active, Grants now tid name l := by
  have hfind : (m.active.values.find? fun l => l.thread_id == tid && l.isValid now
      && l.coversAction name) = m.findLeaseForAction now tid name := by
    rw [findLeaseForAction_eq]
    congr 1
    funext l
    rw [Bool.eq_iff_iff, decide_eq_true_iff]
    simp [Grants, and_assoc]
  rw [← findLeaseForAction_isSome_iff]
  unfold findAndConsume
  rw [hfind]
  cases hl : m.findLeaseForAction now tid name with
  | none => simp [Except.toOption]
  | some l =>
    have hv := (findLeaseForAction_spec hl).2.2.1
    simp [CapabilityLease.consumeUse_of_isValid hv, Except.toOption]

/-- Consuming from one lease succeeds exactly when that lease is there and still valid. -/
theorem consumeUse_isSome_iff {m : LeaseManager} {now : Time} {l : CapabilityLease}
    (hl : l ∈ m.active) :
    (m.consumeUse now l.id).toOption.isSome = true ↔ l.isValid now = true := by
  unfold consumeUse
  rw [KeyedStore.get?_key hl]
  cases hv : l.isValid now with
  | false => simp [hv, Except.toOption]
  | true => simp [hv, CapabilityLease.consumeUse_of_isValid hv, Except.toOption]

/-! ### What a successful operation writes -/

/-- A grant puts in a lease with a full budget. -/
theorem grant_eq_ok {m m' : LeaseManager} {id : LeaseId} {now : Time} {tid : ThreadId}
    {cap : String} {acts : GrantedActions} {duration : Option ℤ} {max_uses : Option ℕ}
    {l : CapabilityLease} (h : m.grant id now tid cap acts duration max_uses = .ok (l, m')) :
    l.id = id ∧ l.uses_remaining = l.max_uses ∧ m' = ⟨m.active.insert l⟩ := by
  rw [grant] at h
  split_ifs at h
  cases h
  exact ⟨rfl, rfl, rfl⟩

/-- A use is taken from the lease with that id, which is valid. -/
theorem consumeUse_eq_ok {m m' : LeaseManager} {now : Time} {id : LeaseId}
    (h : m.consumeUse now id = .ok m') :
    ∃ l, m.active.get? id = some l ∧ l.isValid now = true ∧ l.consumeUse.2 = true ∧
      m' = ⟨m.active.insert l.consumeUse.1⟩ := by
  rw [consumeUse] at h
  cases hg : m.active.get? id with
  | none => simp [hg] at h
  | some l =>
    simp only [hg] at h
    split_ifs at h with hv hused
    cases h
    exact ⟨l, rfl, by simpa using hv, by simpa using hused, rfl⟩

/-- A use is taken from a lease that grants the action. -/
theorem findAndConsume_eq_ok {m m' : LeaseManager} {now : Time} {tid : ThreadId}
    {name : String} {l' : CapabilityLease} (h : m.findAndConsume now tid name = .ok (l', m')) :
    ∃ l ∈ m.active, Grants now tid name l ∧ l.consumeUse.2 = true ∧ l' = l.consumeUse.1 ∧
      m' = ⟨m.active.insert l.consumeUse.1⟩ := by
  rw [findAndConsume] at h
  split at h
  case h_1 => cases h
  case h_2 l hl =>
    have hgrants := List.find?_some hl
    simp only [Bool.and_eq_true, beq_iff_eq] at hgrants
    obtain ⟨⟨htid, hv⟩, hc⟩ := hgrants
    split_ifs at h with hused
    cases h
    exact ⟨l, List.mem_of_find?_eq_some hl, ⟨htid, hv, hc⟩, by simpa using hused, rfl, rfl⟩

/-- A refund goes to the lease with that id. -/
theorem refundUse_eq_ok {m m' : LeaseManager} {id : LeaseId} (h : m.refundUse id = .ok m') :
    ∃ l, m.active.get? id = some l ∧ m' = ⟨m.active.insert l.refundUse⟩ := by
  rw [refundUse] at h
  cases hg : m.active.get? id with
  | none => simp [hg] at h
  | some l =>
    simp only [hg] at h
    cases h
    exact ⟨l, rfl, rfl⟩

/-- An update changes the grant of the lease with that id, and nothing else. -/
theorem updateGrantedActions_eq_ok {m m' : LeaseManager} {id : LeaseId} {acts : GrantedActions}
    {l' : CapabilityLease} (h : m.updateGrantedActions id acts = .ok (l', m')) :
    ∃ l, m.active.get? id = some l ∧ l' = { l with granted_actions := acts } ∧
      m' = ⟨m.active.insert l'⟩ := by
  rw [updateGrantedActions] at h
  cases hg : m.active.get? id with
  | none => simp [hg] at h
  | some l =>
    simp only [hg] at h
    cases h
    exact ⟨l, rfl, rfl, rfl⟩

/-- A derived lease: its budget, its expiry and its grant come from a parent lease. -/
theorem mem_deriveChildLeases_budget {m : LeaseManager} {lookup_at check_at granted_at : Time}
    {id : ℕ → LeaseId} {parent child : ThreadId} {req : Option (List String)}
    {c : CapabilityLease}
    (h : c ∈ (m.deriveChildLeases lookup_at check_at granted_at id parent child req).1) :
    ∃ i < (m.activeForThread lookup_at parent).length,
      ∃ p ∈ m.activeForThread lookup_at parent, c.id = id i ∧ c.thread_id = child ∧
        c.max_uses = p.uses_remaining ∧ c.uses_remaining = p.uses_remaining ∧
        c.expires_at = p.expires_at ∧ c.granted_actions = childGrants p.granted_actions req := by
  obtain ⟨⟨p, i⟩, hp, hsome⟩ := List.mem_filterMap.mp h
  obtain ⟨-, hi, hpi⟩ := List.mem_zipIdx hp
  dsimp only at hsome
  split_ifs at hsome
  obtain rfl := Option.some.inj hsome
  refine ⟨i, by simpa using hi, p, ?_, rfl, rfl, rfl, rfl, rfl, rfl⟩
  simpa using hpi ▸ List.getElem_mem _

end LeaseManager

end T3Claw
