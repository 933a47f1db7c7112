import Mathlib.Data.List.AList
import T3Claw.Types.Error

/-!
# The pending gate store

`gate/pending.rs` and `gate/store.rs`. Under its lock the store is two maps, the gates by
(user, thread) and the keys by request id. Every operation is a pass through the lock, a
function of these maps and of one clock reading, and then calls of the persistence backend;
the backend never sees the maps.
-/

namespace T3Claw

/-- Composite key for the pending gate store. -/
structure PendingGateKey where
  user_id : String
  thread_id : ThreadId
  deriving DecidableEq, Repr

/-- Unified pending state for any gate that pauses execution. -/
structure PendingGate where
  request_id : ℕ
  gate_name : String
  user_id : String
  thread_id : ThreadId
  scope_thread_id : Option String
  conversation_id : ConversationId
  source_channel : String
  action_name : String
  call_id : String
  parameters : Json
  display_parameters : Option Json
  description : String
  resume_kind : ResumeKind
  created_at : Time
  expires_at : Time
  original_message : Option String
  resume_output : Option Json
  paused_lease : Option CapabilityLease
  approval_already_granted : Bool

namespace PendingGate

/-- `PendingGate::is_expired`, at the clock reading `now`. -/
def isExpired (gate : PendingGate) (now : Time) : Bool := gate.expires_at < now

/-- `PendingGate::key`. -/
def key (gate : PendingGate) : PendingGateKey := ⟨gate.user_id, gate.thread_id⟩

/-- Without the in-memory hint, as gates are restored. -/
def withoutHint (gate : PendingGate) : PendingGate :=
  { gate with approval_already_granted := false }

@[simp] theorem key_withoutHint (gate : PendingGate) : gate.withoutHint.key = gate.key := rfl

@[simp] theorem request_id_withoutHint (gate : PendingGate) :
    gate.withoutHint.request_id = gate.request_id := rfl

@[simp] theorem isExpired_withoutHint (gate : PendingGate) (now : Time) :
    gate.withoutHint.isExpired now = gate.isExpired now := rfl

/-- The hint decides neither the key nor the request id. -/
theorem key_eq_of_withoutHint {gate other : PendingGate}
    (h : gate.withoutHint = other.withoutHint) : gate.key = other.key := by
  rw [← key_withoutHint gate, h, key_withoutHint]

theorem request_id_eq_of_withoutHint {gate other : PendingGate}
    (h : gate.withoutHint = other.withoutHint) : gate.request_id = other.request_id := by
  rw [← request_id_withoutHint gate, h, request_id_withoutHint]

/-- A gate that has expired stays expired. -/
theorem isExpired_mono {gate : PendingGate} {now later : Time} (h : now ≤ later)
    (hexp : gate.isExpired now = true) : gate.isExpired later = true := by
  rw [isExpired, decide_eq_true_iff] at hexp ⊢
  exact lt_of_lt_of_le hexp h

end PendingGate

/-- A gate of one user and thread. -/
def shellGate (request_id : ℕ) : PendingGate where
  request_id := request_id
  gate_name := "approval"
  user_id := "u1"
  thread_id := ⟨7⟩
  scope_thread_id := none
  conversation_id := ⟨3⟩
  source_channel := "telegram"
  action_name := "shell"
  call_id := "call_1"
  parameters := .null
  display_parameters := none
  description := "run a command"
  resume_kind := .approval true
  created_at := 0
  expires_at := 100
  original_message := none
  resume_output := none
  paused_lease := none
  approval_already_granted := false

/-- Channels that may resolve gates created by any source channel. -/
def TRUSTED_GATE_CHANNELS : List String := ["web", "gateway"]

/-- Errors from the pending gate store. -/
inductive GateStoreError where
  | notFound
  | requestIdMismatch
  | channelMismatch (expected actual : String)
  | expired
  | alreadyExists
  | persistence (reason : String)
  deriving DecidableEq, Repr

/-- `Display` for `GateStoreError`. -/
def GateStoreError.display : GateStoreError → String
  | .notFound => "no pending gate for this thread"
  | .requestIdMismatch => "request ID mismatch (stale approval)"
  | .channelMismatch expected actual =>
    "channel '" ++ actual ++ "' cannot resolve gates from channel '" ++ expected ++ "'"
  | .expired => "pending gate has expired"
  | .alreadyExists => "a gate is already pending for this thread"
  | .persistence reason => "persistence error: " ++ reason

/-- What the lock guards. -/
structure StoreInner where
  by_key : AList fun _ : PendingGateKey => PendingGate
  by_request_id : AList fun _ : ℕ => PendingGateKey

namespace StoreInner

/-- The empty store. -/
def new : StoreInner := ⟨∅, ∅⟩

/-- The gates in memory. -/
def gates (s : StoreInner) : List PendingGate := s.by_key.entries.map Sigma.snd

/-- Put a gate under its key and its request id. -/
def put (s : StoreInner) (gate : PendingGate) : StoreInner :=
  ⟨s.by_key.insert gate.key gate, s.by_request_id.insert gate.request_id gate.key⟩

/-- Take the gate out of both maps, if there is one. -/
def remove (s : StoreInner) (key : PendingGateKey) : Option PendingGate × StoreInner :=
  match s.by_key.lookup key with
  | none => (none, s)
  | some gate => (some gate, ⟨s.by_key.erase key, s.by_request_id.erase gate.request_id⟩)

/-- Take several gates out. -/
def removeAll : List PendingGateKey → StoreInner → List PendingGate × StoreInner
  | [], s => ([], s)
  | key :: keys, s =>
    match s.remove key with
    | (none, s) => removeAll keys s
    | (some gate, s) =>
      let (gates, s) := removeAll keys s
      (gate :: gates, s)

/-! ### The passes through the lock -/

/-- `PendingGateStore::insert`. -/
def insert (s : StoreInner) (gate : PendingGate) : Except GateStoreError StoreInner :=
  if gate.key ∈ s.by_key then .error .alreadyExists else .ok (s.put gate)

/-- `PendingGateStore::take_verified`. -/
def takeVerified (s : StoreInner) (now : Time) (key : PendingGateKey) (request_id : ℕ)
    (responding_channel : String) : Except GateStoreError PendingGate × StoreInner :=
  match s.by_key.lookup key with
  | none => (.error .notFound, s)
  | some gate =>
    if gate.request_id ≠ request_id then (.error .requestIdMismatch, s)
    else if ¬(gate.source_channel = responding_channel ∨
        responding_channel ∈ TRUSTED_GATE_CHANNELS) then
      (.error (.channelMismatch gate.source_channel responding_channel), s)
    else if gate.isExpired now then (.error .expired, (s.remove key).2)
    else (.ok gate, (s.remove key).2)

/-- `PendingGateStore::discard_for_thread`: the keys looked at, the gates removed. -/
def discardForThread (s : StoreInner) (thread_id : ThreadId) :
    (List PendingGateKey × List PendingGate) × StoreInner :=
  let keys := s.by_key.keys.filter fun k => k.thread_id = thread_id
  let (gates, s) := removeAll keys s
  ((keys, gates), s)

/-- `PendingGateStore::discard`. -/
def discard (s : StoreInner) (key : PendingGateKey) : Except GateStoreError StoreInner :=
  match s.remove key with
  | (none, _) => .error .notFound
  | (some _, s) => .ok s

/-- `PendingGateStore::restore_from_persistence`, one loaded gate. -/
def restoreGate (now : Time) (acc : ℕ × StoreInner) (gate : PendingGate) : ℕ × StoreInner :=
  if gate.isExpired now then acc else (acc.1 + 1, acc.2.put gate.withoutHint)

/-- `PendingGateStore::restore_from_persistence`. -/
def restore (s : StoreInner) (now : Time) (gates : List PendingGate) : ℕ × StoreInner :=
  gates.foldl (restoreGate now) (0, s)

/-- `PendingGateStore::expire_stale`: the expired keys. -/
def expireStale (s : StoreInner) (now : Time) : List PendingGateKey × StoreInner :=
  let expired_keys := (s.by_key.entries.filter fun e => e.2.isExpired now).map Sigma.fst
  (expired_keys, (removeAll expired_keys s).2)

/-! ### What they do to the maps -/

section Maps

variable {s : StoreInner} {gate : PendingGate} {key k : PendingGateKey} {r : ℕ}

theorem mem_gates : gate ∈ s.gates ↔ ∃ k, s.by_key.lookup k = some gate := by
  simp only [gates, List.mem_map, Sigma.exists, exists_eq_right]
  exact exists_congr fun k => AList.mem_lookup_iff.symm

theorem lookup_put : (s.put gate).by_key.lookup k =
    if k = gate.key then some gate else s.by_key.lookup k := by
  split
  case isTrue h => rw [h, put, AList.lookup_insert]
  case isFalse h => rw [put, AList.lookup_insert_ne h]

theorem lookup_request_put : (s.put gate).by_request_id.lookup r =
    if r = gate.request_id then some gate.key else s.by_request_id.lookup r := by
  split
  case isTrue h => rw [h, put, AList.lookup_insert]
  case isFalse h => rw [put, AList.lookup_insert_ne h]

theorem lookup_remove : (s.remove key).2.by_key.lookup k =
    if k = key then none else s.by_key.lookup k := by
  unfold remove
  split
  case h_1 h =>
    split
    case isTrue hk => rw [hk, h]
    case isFalse => rfl
  case h_2 gate h =>
    split
    case isTrue hk => rw [hk, AList.lookup_erase]
    case isFalse hk => rw [AList.lookup_erase_ne hk]

theorem lookup_removeAll {keys : List PendingGateKey} :
    (removeAll keys s).2.by_key.lookup k =
      if k ∈ keys then none else s.by_key.lookup k := by
  induction keys generalizing s with
  | nil => simp [removeAll]
  | cons key keys ih =>
    have hstep : (removeAll (key :: keys) s).2 = (removeAll keys (s.remove key).2).2 := by
      rw [removeAll]
      split <;> simp [*]
    rw [hstep, ih, lookup_remove]
    by_cases hk : k = key <;> by_cases hmem : k ∈ keys <;> simp [hk, hmem]

/-- Taking a gate fails without a trace, cleans up an expired gate, or takes the one there is. -/
theorem takeVerified_cases (s : StoreInner) (now : Time) (key : PendingGateKey)
    (request_id : ℕ) (channel : String) :
    (∃ e, s.takeVerified now key request_id channel = (.error e, s)) ∨
    (∃ gate, s.by_key.lookup key = some gate ∧ gate.isExpired now = true ∧
      s.takeVerified now key request_id channel = (.error .expired, (s.remove key).2)) ∨
    (∃ gate, s.by_key.lookup key = some gate ∧ gate.request_id = request_id ∧
      s.takeVerified now key request_id channel = (.ok gate, (s.remove key).2)) := by
  rw [takeVerified]
  cases s.by_key.lookup key with
  | none => exact .inl ⟨_, rfl⟩
  | some gate =>
    dsimp only
    split_ifs with hr hc hexp
    · exact .inl ⟨_, rfl⟩
    · exact .inr (.inl ⟨gate, rfl, hexp, rfl⟩)
    · exact .inr (.inr ⟨gate, rfl, not_not.mp hr, rfl⟩)
    · exact .inl ⟨_, rfl⟩

end Maps

end StoreInner

/-! ### With a backend -/

/-- Backend for persisting pending gates across restarts, over a medium `β`. -/
structure GatePersistence (β : Type) where
  save : PendingGate → β → Except GateStoreError Unit × β
  remove : PendingGateKey → β → Except GateStoreError Unit × β
  load_all : β → Except GateStoreError (List PendingGate) × β

/-- `PendingGateStore`, and the medium behind its backend. -/
structure PendingGateStore (β : Type) where
  inner : StoreInner
  persistence : Option (GatePersistence β)
  medium : β

namespace PendingGateStore

variable {β : Type}

/-- `PendingGateStore::insert`. -/
def insert (st : PendingGateStore β) (gate : PendingGate) :
    Except GateStoreError Unit × PendingGateStore β :=
  match st.inner.insert gate with
  | .error e => (.error e, st)
  | .ok inner =>
    match st.persistence with
    | none => (.ok (), { st with inner })
    | some persistence =>
      let (saved, medium) := persistence.save gate st.medium
      (saved, { st with inner, medium })

/-- `PendingGateStore::discard`. -/
def discard (st : PendingGateStore β) (key : PendingGateKey) :
    Except GateStoreError Unit × PendingGateStore β :=
  match st.inner.discard key with
  | .error e => (.error e, st)
  | .ok inner =>
    match st.persistence with
    | none => (.ok (), { st with inner })
    | some persistence =>
      let (removed, medium) := persistence.remove key st.medium
      (removed, { st with inner, medium })

end PendingGateStore

end T3Claw
