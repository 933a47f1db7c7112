import Mathlib
import T3Claw.Conc.System
import T3Claw.Pairing.Requests

/-!
# The pairing store and its cache

Calls of the pairing store, cut where they wait: each reads or writes the cache, or runs one
transaction. Nothing keeps a task from caching what it read before another's transaction, and an
approval leaves the cache alone. As long as neither brings a stale entry (`keepsCurrent`), an
identity that is resolved while nobody changes it is resolved to what the database holds
(`resolves_current`).
-/

namespace T3Claw.Pairing

open Conc

/-! ### The store -/

/-- The steps of the calls. -/
inductive StoreInstr where
  | cacheGet (s : Sender)
  | cacheInsert (s : Sender) (identity : UserId)
  | cacheEvict (s : Sender)
  | resolveChannelIdentity (channel : List Char) (external_id : String)
  | upsertPairingRequest (channel : List Char) (external_id : String)
    (draws : ℕ → ℕ × PairingCode) (elapsed : ℕ)
  | approvePairing (channel code : List Char) (owner_id : String) (elapsed : ℕ)
  | revertPairingApproval (approval : PairingApprovalRecord)
  | removeChannelIdentity (channel : List Char) (external_id : String)

/-- What they answer. -/
abbrev StoreReply : StoreInstr → Type
  | .cacheGet _ | .resolveChannelIdentity .. => Option UserId
  | .cacheInsert .. | .cacheEvict _ | .removeChannelIdentity .. => Unit
  | .upsertPairingRequest .. => Except DatabaseError PairingRequest
  | .approvePairing .. => Except DatabaseError PairingApprovalRecord
  | .revertPairingApproval _ => Except DatabaseError Unit

/-- The database and `OwnershipCache`. -/
structure StoreState where
  db : Db
  cache : Sender → Option UserId

namespace StoreState

/-- `OwnershipCache::insert`, and `evict` with `none`. -/
def setCache (s : StoreState) (key : Sender) (entry : Option UserId) : StoreState :=
  { s with cache := Function.update s.cache key entry }

def exec : (i : StoreInstr) → StoreState → StoreReply i × StoreState
  | .cacheGet key, s => (s.cache key, s)
  | .cacheInsert key identity, s => ((), s.setCache key (some identity))
  | .cacheEvict key, s => ((), s.setCache key none)
  | .resolveChannelIdentity channel external_id, s =>
    (s.db.resolveChannelIdentity channel external_id, s)
  | .upsertPairingRequest channel external_id draws elapsed, s =>
    let (r, db) := s.db.upsertPairingRequest channel external_id draws elapsed
    (r, { s with db })
  | .approvePairing channel code owner_id elapsed, s =>
    let (r, db) := s.db.approvePairing channel code owner_id elapsed
    (r, { s with db })
  | .revertPairingApproval approval, s =>
    let (r, db) := s.db.revertPairingApproval approval
    (r, { s with db })
  | .removeChannelIdentity channel external_id, s =>
    ((), { s with db := s.db.removeChannelIdentity channel external_id })

end StoreState

abbrev StoreProg (α : Type) : Type := Prog StoreInstr StoreReply α

/-- One step of a call. -/
def perform (i : StoreInstr) : StoreProg (StoreReply i) := Prog.perform i

/-- What the calls answer. -/
inductive Answer where
  | identity (identity : Option UserId)
  | request (request : PairingRequest)
  | approval (approval : PairingApprovalRecord)
  | done

abbrev CallProg : Type := StoreProg (Except DatabaseError Answer)

/-- `resolve_identity` after a cache miss, for a normalized channel. -/
def readThrough (channel : List Char) (external_id : String) : CallProg := do
  match (← perform (.resolveChannelIdentity channel external_id) : Option UserId) with
  | some id =>
    perform (.cacheInsert (channel, external_id) id)
    return .ok (.identity (some id))
  | none => return .ok (.identity none)

/-- `resolve_identity`. -/
def resolveIdentity (channel : List Char) (external_id : String) : CallProg := do
  let channel := normalizeChannelName channel
  match (← perform (.cacheGet (channel, external_id)) : Option UserId) with
  | some identity => return .ok (.identity (some identity))
  | none => readThrough channel external_id

/-- `upsert_request`. -/
def upsertRequest (channel : List Char) (external_id : String) (draws : ℕ → ℕ × PairingCode)
    (elapsed : ℕ) : CallProg := do
  let channel := normalizeChannelName channel
  let r : Except DatabaseError PairingRequest ←
    perform (.upsertPairingRequest channel external_id draws elapsed)
  return r.map .request

/-- `approve`. The submission is normalized; a blank one stays. -/
def approve (channel code : List Char) (owner_id : String) (elapsed : ℕ) : CallProg := do
  let channel := normalizeChannelName channel
  let normalized := (Text.trim code).map Char.toUpper
  let r : Except DatabaseError PairingApprovalRecord ←
    perform (.approvePairing channel normalized owner_id elapsed)
  return r.map .approval

/-- `revert_approval`. -/
def revertApproval (approval : PairingApprovalRecord) : CallProg := do
  match (← perform (.revertPairingApproval approval) : Except DatabaseError Unit) with
  | .error e => return .error e
  | .ok () =>
    perform (.cacheEvict approval.sender)
    return .ok .done

/-- `remove`. -/
def remove (channel : List Char) (external_id : String) : CallProg := do
  let channel := normalizeChannelName channel
  perform (.removeChannelIdentity channel external_id)
  perform (.cacheEvict (channel, external_id))
  return .ok .done

/-- A call of the store. -/
inductive StoreCall where
  | resolveIdentity (channel : List Char) (external_id : String)
  | upsertRequest (channel : List Char) (external_id : String) (draws : ℕ → ℕ × PairingCode)
    (elapsed : ℕ)
  | approve (channel code : List Char) (owner_id : String) (elapsed : ℕ)
  | revertApproval (approval : PairingApprovalRecord)
  | remove (channel : List Char) (external_id : String)

namespace StoreCall

def code : StoreCall → CallProg
  | resolveIdentity channel external_id => Pairing.resolveIdentity channel external_id
  | upsertRequest channel external_id draws elapsed =>
    Pairing.upsertRequest channel external_id draws elapsed
  | approve channel code owner_id elapsed => Pairing.approve channel code owner_id elapsed
  | revertApproval approval => Pairing.revertApproval approval
  | remove channel external_id => Pairing.remove channel external_id

/-- The calls that change whose an identity is. -/
def binds : StoreCall → Bool
  | approve .. | revertApproval _ | remove .. => true
  | _ => false

end StoreCall

/-- Calls over one store; the clock goes on by itself. -/
def pairingSystem : System StoreCall ℕ StoreInstr StoreReply StoreState
    (Except DatabaseError Answer) where
  exec := StoreState.exec
  code := StoreCall.code
  env elapsed s := some { s with db := s.db.after elapsed }

abbrev PairingConf : Type :=
  Conf StoreCall StoreInstr StoreReply StoreState (Except DatabaseError Answer)

/-! ### What is to hold, and when it does -/

/-- What the database holds for a sender. -/
def StoreState.current (s : StoreState) (key : Sender) : Option UserId :=
  (s.db.ownerOf key).bind s.db.activeUser

/-- The cached entry of a sender is none or the current one. -/
def StoreState.Coherent (s : StoreState) (key : Sender) : Prop :=
  s.cache key = none ∨ s.cache key = s.current key

/-- A task that is about to evict the sender's entry. -/
def evicting (key : Sender) : CallProg → Bool
  | .act (.cacheEvict key') _ => key' = key
  | .act (.removeChannelIdentity channel external_id) _ =>
    (normalizeChannelName channel, external_id) = key
  | _ => false

/-- Some task is. -/
def PairingConf.evicting (c : PairingConf) (key : Sender) : Bool :=
  c.tasks.any fun t => Pairing.evicting key t.prog

/-- No step brings a stale entry that nobody is about to evict: what is inserted is current, and
an approval finds no entry of another owner. -/
def keepsCurrent (c : PairingConf) : Move StoreCall ℕ → Bool
  | .step k =>
    match c.tasks[k]? with
    | some ⟨_, .act (.cacheInsert key identity) _⟩ =>
      c.evicting key || decide (c.state.current key = some identity)
    | some ⟨_, .act (.approvePairing channel code owner_id _) _⟩ =>
      match c.state.db.findByCode (normalizeChannelName channel) code with
      | some r => !c.state.db.isUser owner_id || c.evicting r.sender ||
          decide (c.state.cache r.sender = none) ||
          decide (c.state.cache r.sender = c.state.db.activeUser owner_id)
      | none => true
    | _ => true
  | _ => true

/-- Nobody is changing whose an identity is. -/
def PairingConf.quiet (c : PairingConf) : Bool :=
  c.tasks.all fun t => !t.op.binds || t.returned

/-- Nobody starts to. -/
def startsNoBinding : Move StoreCall ℕ → Bool
  | .start call => !call.binds
  | _ => true

/-! ### The shape of the calls -/

theorem normalizeChannelName_idem (channel : List Char) :
    normalizeChannelName (normalizeChannelName channel) = normalizeChannelName channel := by
  rw [normalizeChannelName, normalizeChannelName, List.map_map]
  exact List.map_congr_left fun c _ => Char.toLower_toLower_eq_toLower c

/-- The steps that only the binding calls take. -/
def StoreInstr.binds : StoreInstr → Bool
  | approvePairing .. | revertPairingApproval _ | removeChannelIdentity .. | cacheEvict _ => true
  | _ => false

/-- After its transaction a reversal or removal is about to evict. -/
def Announces (p : CallProg) : (i : StoreInstr) → StoreReply i → Prop
  | .revertPairingApproval a, .ok () => evicting a.sender p = true
  | .removeChannelIdentity channel external_id, () =>
    evicting (normalizeChannelName channel, external_id) p = true
  | _, _ => True

/-- What is left of a call. -/
def WellFormed (call : StoreCall) : CallProg → Prop
  | .done _ => True
  | .act i f => (i.binds = true → call.binds = true) ∧ ∀ r, Announces (f r) i r ∧
      WellFormed call (f r)

theorem wellFormed_code (call : StoreCall) : WellFormed call call.code := by
  have hstep {i : StoreInstr} {f : StoreReply i → CallProg}
      (hbinds : i.binds = true → call.binds = true)
      (h : ∀ r, Announces (f r) i r ∧ WellFormed call (f r)) :
      WellFormed call (perform i >>= f) := ⟨hbinds, h⟩
  cases call with
  | resolveIdentity channel external_id =>
    refine hstep (fun h => nomatch h) fun r => ⟨trivial, ?_⟩
    cases r with
    | some id => trivial
    | none =>
      refine hstep (fun h => nomatch h) fun r => ⟨trivial, ?_⟩
      cases r with
      | some id => exact hstep (fun h => nomatch h) fun r => ⟨trivial, trivial⟩
      | none => trivial
  | upsertRequest channel external_id draws elapsed =>
    exact hstep (fun h => nomatch h) fun r => ⟨trivial, trivial⟩
  | approve channel code owner_id elapsed => exact hstep (fun _ => rfl) fun r => ⟨trivial, trivial⟩
  | revertApproval approval =>
    refine hstep (fun _ => rfl) fun r => ?_
    cases r with
    | ok => exact ⟨decide_eq_true rfl, hstep (fun _ => rfl) fun r => ⟨trivial, trivial⟩⟩
    | error e => exact ⟨trivial, trivial⟩
  | remove channel external_id =>
    refine hstep (fun _ => rfl) fun r => ⟨?_, hstep (fun _ => rfl) fun r => ⟨trivial, trivial⟩⟩
    refine decide_eq_true ?_
    rw [normalizeChannelName_idem]

/-! ### What the transactions change -/

variable {db db' : Db}

/-- The database holds the same for a sender. -/
theorem current_eq {s s' : StoreState} {key : Sender} (husers : s'.db.users = s.db.users)
    (howner : s'.db.ownerOf key = s.db.ownerOf key) : s'.current key = s.current key := by
  rw [StoreState.current, StoreState.current, howner]
  cases s.db.ownerOf key with
  | none => rfl
  | some owner_id => rw [Option.bind_some, Option.bind_some, Db.activeUser, Db.activeUser, husers]

/-- Issuing a request leaves the identities as they are. -/
theorem upsert_identities (db : Db) (channel : List Char) (external_id : String)
    (draws : ℕ → ℕ × PairingCode) (elapsed : ℕ) :
    (db.upsertPairingRequest channel external_id draws elapsed).2.users = db.users ∧
      (db.upsertPairingRequest channel external_id draws elapsed).2.channel_identities =
        db.channel_identities := by
  obtain h | ⟨r, db', h, -, -, hinsert⟩ :=
    db.upsertPairingRequest_cases channel external_id draws elapsed
  · rw [h]
    exact ⟨rfl, rfl⟩
  · rw [h]
    exact (Db.insertRequest_eq_ok hinsert).2.2.2

/-- A removal is of one sender. -/
theorem remove_identities (db : Db) (channel : List Char) (external_id : String) {key : Sender}
    (hkey : key ≠ (normalizeChannelName channel, external_id)) :
    (db.removeChannelIdentity channel external_id).ownerOf key = db.ownerOf key := by
  rw [Db.removeChannelIdentity, Db.ownerOf_deleteIdentities, Db.ownerOf]
  cases hi : db.channel_identities.get? key with
  | none => rfl
  | some i =>
    have hsender : i.sender ≠ (normalizeChannelName channel, external_id) :=
      (KeyedStore.key_of_get? hi).trans_ne hkey
    simp [hsender]

/-! ### One step -/

/-- The calls are what is left of them, and an entry that nobody is about to evict is current. -/
structure CacheInv (c : PairingConf) : Prop where
  shape : ∀ t ∈ c.tasks, WellFormed t.op t.prog
  coherent : ∀ key, c.evicting key = false → c.state.Coherent key

theorem evicting_eq_false_iff {c : PairingConf} {key : Sender} :
    c.evicting key = false ↔ ∀ t ∈ c.tasks, evicting key t.prog = false := by
  rw [PairingConf.evicting, List.any_eq_false]
  exact forall₂_congr fun t _ => Bool.eq_false_iff.symm

/-- Who was about to evict before a step, if the task that made it was not. -/
theorem evicting_of_set {c : PairingConf} {k : ℕ}
    {t t' : Task StoreCall StoreInstr StoreReply (Except DatabaseError Answer)} {key : Sender}
    (hk : c.tasks[k]? = some t) (ht : evicting key t.prog = false)
    (h : ∀ t'' ∈ c.tasks.set k t', evicting key t''.prog = false) : c.evicting key = false := by
  refine evicting_eq_false_iff.mpr fun t'' hmem => ?_
  obtain ⟨j, hj⟩ := List.mem_iff_getElem?.mp hmem
  by_cases hjk : j = k
  · subst hjk
    rwa [Option.some.inj (hj.symm.trans hk)]
  · refine h t'' (List.mem_of_getElem? (i := j) ?_)
    rwa [List.getElem?_set_ne (Ne.symm hjk)]

/-- An entry that was current is so after a step that leaves both as they are. -/
theorem StoreState.Coherent.congr {s s' : StoreState} {key : Sender} (h : s.Coherent key)
    (hcache : s'.cache key = s.cache key) (hcurrent : s'.current key = s.current key) :
    s'.Coherent key := by
  rw [StoreState.Coherent, hcache, hcurrent]
  exact h

/-- **One step** brings no stale entry. -/
theorem coherent_step {c : PairingConf} {k : ℕ} {call : StoreCall} {i : StoreInstr}
    {f : StoreReply i → CallProg} (h : CacheInv c) (hk : c.tasks[k]? = some ⟨call, .act i f⟩)
    (hkeeps : keepsCurrent c (.step k) = true) {key : Sender}
    (hevicting : ∀ t ∈ c.tasks.set k ⟨call, f (StoreState.exec i c.state).1⟩,
      evicting key t.prog = false) : (StoreState.exec i c.state).2.Coherent key := by
  have hnext : evicting key (f (StoreState.exec i c.state).1) = false :=
    hevicting _ (List.mem_set (List.getElem?_eq_some_iff.mp hk).1 _)
  obtain ⟨-, hshape⟩ := h.shape _ (List.mem_of_getElem? hk)
  obtain ⟨hannounces, -⟩ := hshape (StoreState.exec i c.state).1
  -- a task that evicts neither before nor after the step rests on the invariant
  have hbefore (hi : evicting key (.act i f) = false) : c.state.Coherent key :=
    h.coherent key (evicting_of_set hk hi hevicting)
  rw [keepsCurrent, hk] at hkeeps
  cases i with
  | cacheGet => exact hbefore rfl
  | resolveChannelIdentity => exact hbefore rfl
  | cacheInsert key' identity =>
    by_cases hkey : key = key'
    · subst hkey
      -- the step keeps what it inserts current, by the condition on the run
      dsimp only at hkeeps
      rw [evicting_of_set hk rfl hevicting, Bool.false_or, decide_eq_true_iff] at hkeeps
      refine .inr (Eq.trans (Function.update_self ..) ?_)
      exact hkeeps.symm
    · exact (hbefore rfl).congr (Function.update_of_ne hkey ..) rfl
  | cacheEvict key' =>
    by_cases hkey : key = key'
    · subst hkey
      exact .inl (Function.update_self ..)
    · exact (hbefore (decide_eq_false (Ne.symm hkey))).congr (Function.update_of_ne hkey ..) rfl
  | upsertPairingRequest channel external_id draws elapsed =>
    obtain ⟨husers, hidentities⟩ := upsert_identities c.state.db channel external_id draws elapsed
    refine (hbefore rfl).congr rfl (current_eq husers ?_)
    exact congrArg (fun l => (KeyedStore.get? l key).map ChannelIdentity.owner_id) hidentities
  | approvePairing channel code owner_id elapsed =>
    obtain ⟨e, heq⟩ | ⟨r, db', hfind, heq, hidentity⟩ :=
      c.state.db.approvePairing_cases channel code owner_id elapsed
    · have hdb : (StoreState.exec (.approvePairing channel code owner_id elapsed) c.state).2.db =
          c.state.db.after elapsed := congrArg Prod.snd heq
      exact (hbefore rfl).congr rfl (current_eq (by rw [hdb]; rfl) (by rw [hdb]; rfl))
    · have hdb : (StoreState.exec (.approvePairing channel code owner_id elapsed) c.state).2.db =
          db' := congrArg Prod.snd heq
      obtain ⟨huser, -, -, husers, howner⟩ := Db.upsertIdentity_eq_ok hidentity
      by_cases hkey : key = r.sender
      · subst hkey
        have huser : c.state.db.isUser owner_id = true := huser
        dsimp only at hkeeps
        rw [hfind] at hkeeps
        dsimp only at hkeeps
        rw [evicting_of_set hk rfl hevicting, huser] at hkeeps
        simp only [Bool.not_true, Bool.false_or, Bool.or_eq_true, decide_eq_true_eq] at hkeeps
        refine hkeeps.imp_right fun hcache => hcache.trans ?_
        rw [StoreState.current, hdb, howner, if_pos rfl, Option.bind_some, Db.activeUser,
          Db.activeUser, husers]
        rfl
      · refine (hbefore rfl).congr rfl (current_eq (by rw [hdb, husers]; rfl) ?_)
        rw [hdb, howner, if_neg hkey]
        rfl
  | revertPairingApproval a =>
    obtain ⟨-, e, heq⟩ | ⟨-, db', heq, -, -, -, husers, howner⟩ :=
      c.state.db.revertPairingApproval_cases a
    · have hdb : (StoreState.exec (.revertPairingApproval a) c.state).2.db = c.state.db :=
        congrArg Prod.snd heq
      exact (hbefore rfl).congr rfl (current_eq (by rw [hdb]) (by rw [hdb]))
    · have hdb : (StoreState.exec (.revertPairingApproval a) c.state).2.db = db' :=
        congrArg Prod.snd heq
      have hreply : (StoreState.exec (.revertPairingApproval a) c.state).1 = .ok () :=
        congrArg Prod.fst heq
      have hkey : key ≠ a.sender := by
        -- the reversal goes on to evict its own sender, so the key is another one
        rintro rfl
        rw [hreply] at hannounces hnext
        exact absurd hannounces (by rw [Announces, hnext]; exact Bool.false_ne_true)
      exact (hbefore rfl).congr rfl (current_eq (by rw [hdb, husers]) (by rw [hdb, howner _ hkey]))
  | removeChannelIdentity channel external_id =>
    have hkey : key ≠ (normalizeChannelName channel, external_id) := by
      rintro rfl
      exact absurd hannounces (by rw [Announces, hnext]; exact Bool.false_ne_true)
    exact (hbefore (decide_eq_false (Ne.symm hkey))).congr rfl
      (current_eq rfl (remove_identities c.state.db channel external_id hkey))

/-- **One move** keeps the cache current. -/
theorem CacheInv.next {c c' : PairingConf} {m : Move StoreCall ℕ} (h : CacheInv c)
    (hkeeps : keepsCurrent c m = true) (hnext : pairingSystem.next c m = some c') :
    CacheInv c' := by
  rcases m with k | call | elapsed
  · obtain ⟨call, i, f, hk, -, rfl⟩ := System.next_step_eq_some.mp hnext
    refine ⟨fun t ht => ?_, fun key hevicting => ?_⟩
    · obtain ht | rfl := List.mem_or_eq_of_mem_set ht
      · exact h.shape t ht
      · exact ((h.shape _ (List.mem_of_getElem? hk)).2 _).2
    · exact coherent_step h hk hkeeps (evicting_eq_false_iff.mp hevicting)
  · obtain ⟨s, hs, rfl⟩ := System.next_start_eq_some.mp hnext
    obtain rfl := Option.some.inj hs
    refine ⟨fun t ht => ?_, fun key hevicting => ?_⟩
    · obtain ht | ht := List.mem_append.mp ht
      · exact h.shape t ht
      · obtain rfl := List.mem_singleton.mp ht
        exact wellFormed_code call
    · refine h.coherent key (evicting_eq_false_iff.mpr fun t ht => ?_)
      exact evicting_eq_false_iff.mp hevicting t (List.mem_append_left _ ht)
  · obtain ⟨s, hs, rfl⟩ := System.next_env_eq_some.mp hnext
    obtain rfl := Option.some.inj hs
    exact ⟨h.shape, fun key hevicting => (h.coherent key hevicting).congr rfl (current_eq rfl rfl)⟩

/-! ### Runs -/

/-- How far a `resolve_identity` has got that is to answer `v`. -/
inductive Resolving (channel : List Char) (external_id : String) (v : Option UserId) :
    CallProg → Prop
  | start : Resolving channel external_id v (resolveIdentity channel external_id)
  | miss : Resolving channel external_id v
      (readThrough (normalizeChannelName channel) external_id)
  | insert (id : UserId) (h : v = some id) : Resolving channel external_id v
      (.act (.cacheInsert (normalizeChannelName channel, external_id) id)
        fun _ => .done (.ok (.identity v)))
  | done : Resolving channel external_id v (.done (.ok (.identity v)))

/-- Its next step. -/
theorem Resolving.step {channel : List Char} {external_id : String} {v : Option UserId}
    {s : StoreState} {p : CallProg} (h : Resolving channel external_id v p)
    (hcoherent : s.Coherent (normalizeChannelName channel, external_id))
    (hcurrent : s.current (normalizeChannelName channel, external_id) = v) {i : StoreInstr}
    {f : StoreReply i → CallProg} (hp : p = .act i f) :
    Resolving channel external_id v (f (StoreState.exec i s).1) := by
  cases h with
  | start =>
    obtain ⟨rfl, hf⟩ := Prog.act.inj hp
    obtain rfl := eq_of_heq hf
    generalize hr : (StoreState.exec (.cacheGet (normalizeChannelName channel, external_id)) s).1 =
      r
    have hcache : s.cache (normalizeChannelName channel, external_id) = r := hr
    cases r with
    | none => exact .miss
    | some id =>
      have hv : v = some id := by
        obtain hnone | hentry := hcoherent
        · rw [hnone] at hcache
          cases hcache
        · rw [← hcurrent, ← hentry, hcache]
      subst hv
      exact .done
  | miss =>
    obtain ⟨rfl, hf⟩ := Prog.act.inj hp
    obtain rfl := eq_of_heq hf
    generalize hr : (StoreState.exec
      (.resolveChannelIdentity (normalizeChannelName channel) external_id) s).1 = r
    have hread : s.db.resolveChannelIdentity (normalizeChannelName channel) external_id = r := hr
    rw [Db.resolveChannelIdentity, normalizeChannelName_idem] at hread
    obtain rfl : v = r := hcurrent.symm.trans hread
    cases v with
    | none => exact .done
    | some id => exact .insert id rfl
  | insert id hv =>
    obtain ⟨rfl, hf⟩ := Prog.act.inj hp
    obtain rfl := eq_of_heq hf
    exact .done
  | done => cases hp

/-- What holds while an identity is resolved that nobody changes. -/
structure Undisturbed (channel : List Char) (external_id : String) (v : Option UserId) (k : ℕ)
    (c : PairingConf) : Prop where
  inv : CacheInv c
  quiet : ∀ t ∈ c.tasks, t.op.binds = true → Task.returned t = true
  current : c.state.current (normalizeChannelName channel, external_id) = v
  task : ∃ t, c.tasks[k]? = some t ∧ Resolving channel external_id v t.prog

/-- A step of a call that binds nothing. -/
theorem current_exec {s : StoreState} {i : StoreInstr} (hi : i.binds = false) (key : Sender) :
    (StoreState.exec i s).2.current key = s.current key := by
  cases i with
  | approvePairing | revertPairingApproval | removeChannelIdentity | cacheEvict => cases hi
  | cacheGet | cacheInsert | resolveChannelIdentity => rfl
  | upsertPairingRequest channel external_id draws elapsed =>
    obtain ⟨husers, hidentities⟩ := upsert_identities s.db channel external_id draws elapsed
    refine current_eq husers ?_
    exact congrArg (fun l => (KeyedStore.get? l key).map ChannelIdentity.owner_id) hidentities

theorem Undisturbed.next {channel : List Char} {external_id : String} {v : Option UserId} {k : ℕ}
    {c c' : PairingConf} {m : Move StoreCall ℕ} (h : Undisturbed channel external_id v k c)
    (hkeeps : keepsCurrent c m = true) (hbinding : startsNoBinding m = true)
    (hnext : pairingSystem.next c m = some c') : Undisturbed channel external_id v k c' := by
  have hinv := h.inv.next hkeeps hnext
  obtain ⟨t, hk, hresolving⟩ := h.task
  rcases m with j | call | elapsed
  · obtain ⟨call, i, f, hj, -, rfl⟩ := System.next_step_eq_some.mp hnext
    have hcall : call.binds = false := by
      by_contra hbinds
      have hreturned := h.quiet _ (List.mem_of_getElem? hj) (Bool.eq_true_of_not_eq_false hbinds)
      cases hreturned
    have hi : i.binds = false := by
      by_contra hbinds
      have hshape := (h.inv.shape _ (List.mem_of_getElem? hj)).1
        (Bool.eq_true_of_not_eq_false hbinds)
      rw [hcall] at hshape
      cases hshape
    refine ⟨hinv, fun t' ht' hbinds => ?_, (current_exec hi _).trans h.current, ?_⟩
    · obtain ht' | rfl := List.mem_or_eq_of_mem_set ht'
      · exact h.quiet t' ht' hbinds
      · rw [hcall] at hbinds
        cases hbinds
    · by_cases hkj : k = j
      · subst hkj
        obtain rfl := Option.some.inj (hk.symm.trans hj)
        refine ⟨_, List.getElem?_set_self (List.getElem?_eq_some_iff.mp hk).1, ?_⟩
        refine hresolving.step (h.inv.coherent _ ?_) h.current rfl
        -- whoever is about to evict has not returned
        refine evicting_eq_false_iff.mpr fun t' ht' => ?_
        have hshape := h.inv.shape t' ht'
        have hquiet := h.quiet t' ht'
        obtain ⟨call', p⟩ := t'
        cases p with
        | done r => rfl
        | act i' f' =>
          have hi' : i'.binds = false := by
            by_contra hbinds
            cases hquiet (hshape.1 (Bool.eq_true_of_not_eq_false hbinds))
          cases i' with
          | cacheEvict | removeChannelIdentity => cases hi'
          | _ => rfl
      · exact ⟨t, (List.getElem?_set_ne (Ne.symm hkj)).trans hk, hresolving⟩
  · obtain ⟨s, hs, rfl⟩ := System.next_start_eq_some.mp hnext
    obtain rfl := Option.some.inj hs
    refine ⟨hinv, fun t' ht' hbinds => ?_, h.current, t, ?_, hresolving⟩
    · obtain ht' | ht' := List.mem_append.mp ht'
      · exact h.quiet t' ht' hbinds
      · obtain rfl := List.mem_singleton.mp ht'
        rw [startsNoBinding, hbinds] at hbinding
        cases hbinding
    · exact (List.getElem?_append_left (List.getElem?_eq_some_iff.mp hk).1).trans hk
  · obtain ⟨s, hs, rfl⟩ := System.next_env_eq_some.mp hnext
    obtain rfl := Option.some.inj hs
    exact ⟨hinv, h.quiet, h.current, t, hk, hresolving⟩

/-- **Resolved to what the database holds.** In a run from an empty cache that brings no stale
entry: a call of `resolve_identity` that starts when every `approve`, `revert_approval` and
`remove` has returned, and that returns before another starts, answers what the database holds. -/
theorem resolves_current {db : Db} {c₀ c₁ c : PairingConf} {channel : List Char}
    {external_id : String} {r : Except DatabaseError Answer}
    (h₀ : pairingSystem.Reach (fun c m => keepsCurrent c m = true) (.idle ⟨db, fun _ => none⟩) c₀)
    (hquiet : c₀.quiet = true)
    (hstart : pairingSystem.next c₀ (.start (.resolveIdentity channel external_id)) = some c₁)
    (h : pairingSystem.Reach (fun c m => keepsCurrent c m = true ∧ startsNoBinding m = true) c₁ c)
    (hreturned : c.tasks[c₀.tasks.length]? =
      some ⟨.resolveIdentity channel external_id, .done r⟩) :
    r = .ok (.identity (c.state.db.resolveChannelIdentity channel external_id)) := by
  have hinv₀ : CacheInv c₀ :=
    h₀.induction ⟨(fun t ht => nomatch ht), fun _ _ => .inl rfl⟩
      fun _ _ _ hinv hkeeps hnext => hinv.next hkeeps hnext
  obtain ⟨s, hs, rfl⟩ := System.next_start_eq_some.mp hstart
  obtain rfl := Option.some.inj hs
  have hundisturbed : Undisturbed channel external_id
      (c₀.state.current (normalizeChannelName channel, external_id)) c₀.tasks.length c := by
    refine h.induction ⟨hinv₀.next rfl hstart, fun t ht hbinds => ?_, rfl, _,
        List.getElem?_concat_length, .start⟩
      fun _ _ _ hundisturbed hok hnext => hundisturbed.next hok.1 hok.2 hnext
    obtain ht | ht := List.mem_append.mp ht
    · have hall := List.all_eq_true.mp hquiet t ht
      rwa [hbinds, Bool.not_true, Bool.false_or] at hall
    · obtain rfl := List.mem_singleton.mp ht
      cases hbinds
  obtain ⟨t, ht, hresolving⟩ := hundisturbed.task
  obtain rfl := Option.some.inj (ht.symm.trans hreturned)
  have hcurrent := hundisturbed.current
  cases hresolving
  exact congrArg (fun v => Except.ok (Answer.identity v)) hcurrent.symm

/-- One identity, of one user. -/
def pairedDb : Db :=
  ⟨[⟨"alice", "member".toList, "active"⟩], [],
    KeyedStore.empty.insert ⟨"alice", "telegram".toList, "7"⟩, 0, Db.unique_nil⟩

/-- A resolution is over before the identity is removed. -/
def resolvedThenRemoved : List (Move StoreCall ℕ) :=
  [.start (.resolveIdentity "telegram".toList "7"), .step 0, .step 0, .step 0,
    .start (.remove "Telegram".toList "7"), .step 1, .step 1]

theorem resolves_current_telegram : ∃ c₀ c₁ c,
    pairingSystem.play (.idle ⟨pairedDb, fun _ => none⟩) resolvedThenRemoved = some c₀ ∧
    pairingSystem.next c₀ (.start (.resolveIdentity "telegram".toList "7")) = some c₁ ∧
    pairingSystem.play c₁ [.step 2, .step 2] = some c ∧
    (Except.ok (.identity none) : Except DatabaseError Answer) =
      .ok (.identity (c.state.db.resolveChannelIdentity "telegram".toList "7")) := by
  have hallowed : System.Allowed pairingSystem (fun c m => keepsCurrent c m = true)
      (.idle ⟨pairedDb, fun _ => none⟩) resolvedThenRemoved := by
    decide +kernel
  refine ⟨_, _, _, rfl, rfl, rfl, ?_⟩
  refine resolves_current (System.Reach.init.of_play hallowed rfl) (by decide +kernel) rfl
    (System.Reach.init.of_play ?_ (show pairingSystem.play _ [.step 2, .step 2] = some _ from rfl))
    rfl
  decide +kernel

/-- A resolution has read the database when the identity is removed, and caches what it read. -/
def removedWhileResolving : List (Move StoreCall ℕ) :=
  [.start (.resolveIdentity "telegram".toList "7"), .step 0, .step 0,
    .start (.remove "telegram".toList "7"), .step 1, .step 1, .step 0]

/-- The identity is gone, and resolves. -/
theorem removed_identity_resolves : ∃ c₀ c₁ c,
    pairingSystem.play (.idle ⟨pairedDb, fun _ => none⟩) removedWhileResolving = some c₀ ∧
    PairingConf.quiet c₀ = true ∧
    pairingSystem.next c₀ (.start (.resolveIdentity "telegram".toList "7")) = some c₁ ∧
    pairingSystem.play c₁ [.step 2] = some c ∧
    c.tasks[2]? = some ⟨.resolveIdentity "telegram".toList "7",
      .done (.ok (.identity (some ⟨"alice", .regular⟩)))⟩ ∧
    c.state.db.resolveChannelIdentity "telegram".toList "7" = none :=
  ⟨_, _, _, rfl, by decide +kernel, rfl, rfl, rfl, by decide +kernel⟩

end T3Claw.Pairing
