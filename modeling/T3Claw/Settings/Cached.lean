import T3Claw.Conc.System
import T3Claw.Data.KeyedStore

/-!
# The cache over a settings store

Calls of `CachedSettingsStore`, cut where they wait, over any store inside. A reader that finds no
fresh entry loads under the write lock, and a write invalidates after the store inside has
answered, but only if it answered `Ok`. In every run in which a write that fails leaves no stale
entry behind (`failsClean`), a user's settings that are read while nobody writes them are those
that the store inside holds (`reads_current`), whatever is written for other users.
-/

namespace T3Claw.Settings

open Conc

/-! ### The store inside -/

/-- The settings of a user. -/
abbrev SettingsMap (V : Type) : Type := KeyedStore String (String × V) (·.1)

/-- A write of a user's settings. -/
inductive Write (V : Type) where
  | setSetting (user_id key : String) (value : V)
  | deleteSetting (user_id key : String)
  | setAllSettings (user_id : String) (settings : SettingsMap V)

def Write.user_id {V : Type} : Write V → String
  | setSetting user_id _ _ | deleteSetting user_id _ | setAllSettings user_id _ => user_id

/-- A `SettingsStore`. A write answers whether it deleted something, or fails, and may have changed
the user's settings all the same; those of others it leaves alone. -/
structure SettingsStore (σ V E : Type) where
  getAllSettings : String → σ → Except E (SettingsMap V)
  write : Write V → σ → Except E Bool × σ
  others : ∀ w s user_id, user_id ≠ w.user_id →
    getAllSettings user_id (write w s).2 = getAllSettings user_id s

/-! ### The cache -/

/-- `CacheEntry`, with its user. -/
structure CacheEntry (V : Type) where
  user_id : String
  settings : SettingsMap V
  loaded_at : ℕ

/-- The state: the store inside, the cache, whether the write lock is held, and the clock. -/
structure CacheState (σ V : Type) where
  inner : σ
  cache : KeyedStore String (CacheEntry V) (·.user_id)
  locked : Bool
  now : ℕ

/-- The steps of the calls. -/
inductive CacheInstr (V : Type) where
  | fastGet (user_id : String)
  | slowGet (user_id : String)
  | innerGetAll (user_id : String)
  | insertAndUnlock (user_id : String) (settings : SettingsMap V)
  | unlock
  | innerWrite (w : Write V)
  | invalidate (user_id : String)
  | clear

/-- What they answer. -/
abbrev CacheReply (V E : Type) : CacheInstr V → Type
  | .fastGet _ | .slowGet _ => Option (SettingsMap V)
  | .innerGetAll _ => Except E (SettingsMap V)
  | .innerWrite _ => Except E Bool
  | .insertAndUnlock .. | .unlock | .invalidate _ | .clear => Unit

/-- `CachedSettingsStore`. -/
structure CachedSettingsStore (σ V E : Type) where
  inner : SettingsStore σ V E
  ttl : ℕ
  max_entries : ℕ

variable {σ V E : Type}

namespace CacheState

/-- The entry of a user, filtered by `is_fresh`. -/
def fresh (S : CachedSettingsStore σ V E) (user_id : String) (s : CacheState σ V) :
    Option (CacheEntry V) :=
  (s.cache.get? user_id).filter fun e => s.now - e.loaded_at < S.ttl

/-- One step. -/
def exec (S : CachedSettingsStore σ V E) :
    (i : CacheInstr V) → CacheState σ V → CacheReply V E i × CacheState σ V
  | .fastGet user_id, s => ((s.fresh S user_id).map (·.settings), s)
  | .slowGet user_id, s =>
    match s.fresh S user_id with
    | some existing => (some existing.settings, s)
    | none => (none, { s with locked := true })
  | .innerGetAll user_id, s => (S.inner.getAllSettings user_id s.inner, s)
  | .insertAndUnlock user_id settings, s =>
    let cache := if S.max_entries ≤ s.cache.values.length then .empty else s.cache
    ((), { s with cache := cache.insert ⟨user_id, settings, s.now⟩, locked := false })
  | .unlock, s => ((), { s with locked := false })
  | .innerWrite w, s =>
    ((S.inner.write w s.inner).1, { s with inner := (S.inner.write w s.inner).2 })
  | .invalidate user_id, s => ((), { s with cache := s.cache.retain fun e => e.user_id ≠ user_id })
  | .clear, s => ((), { s with cache := .empty })

/-- Whether the lock that a step needs is free. -/
def ready : CacheInstr V → CacheState σ V → Bool
  | .fastGet _, s | .slowGet _, s | .invalidate _, s | .clear, s => !s.locked
  | _, _ => true

end CacheState

abbrev CacheProg (V E α : Type) : Type := Prog (CacheInstr V) (CacheReply V E) α

/-- One step of a call. -/
def perform (i : CacheInstr V) : CacheProg V E (CacheReply V E i) := Prog.perform i

/-- The load of `get_or_load`, which holds the lock. -/
def load (user_id : String) : CacheProg V E (Except E (SettingsMap V)) := do
  match (← perform (.innerGetAll user_id) : Except E (SettingsMap V)) with
  | .error e =>
    perform .unlock
    return .error e
  | .ok settings =>
    perform (.insertAndUnlock user_id settings)
    return .ok settings

/-- The slow path of `get_or_load`. -/
def slowPath (user_id : String) : CacheProg V E (Except E (SettingsMap V)) := do
  match (← perform (.slowGet user_id) : Option (SettingsMap V)) with
  | some settings => return .ok settings
  | none => load user_id

/-- `get_or_load`. -/
def getOrLoad (user_id : String) : CacheProg V E (Except E (SettingsMap V)) := do
  match (← perform (.fastGet user_id) : Option (SettingsMap V)) with
  | some settings => return .ok settings
  | none => slowPath user_id

/-- What the calls answer. -/
inductive Answer (V : Type) where
  | setting (value : Option V)
  | settings (settings : SettingsMap V)
  | bool (b : Bool)
  | done

/-- What is asked of a user's settings. -/
inductive Read where
  | getSetting (key : String)
  | getAllSettings
  | hasSettings

/-- What it comes to. -/
def Read.answer (settings : SettingsMap V) : Read → Answer V
  | getSetting key => .setting ((settings.get? key).map (·.2))
  | getAllSettings => .settings settings
  | hasSettings => .bool !settings.values.isEmpty

/-- A call of the cache. -/
inductive CacheCall (V : Type) where
  | read (user_id : String) (r : Read)
  | write (w : Write V)
  | invalidateUser (user_id : String)
  | flush

namespace CacheCall

/-- `get_setting`, `get_all_settings` and `has_settings`. -/
def readCode (user_id : String) (r : Read) : CacheProg V E (Except E (Answer V)) := do
  let all : Except E (SettingsMap V) ← getOrLoad user_id
  return all.map r.answer

/-- What a write answers. -/
def written : Write V → Bool → Answer V
  | .deleteSetting .., deleted => .bool deleted
  | _, _ => .done

/-- `set_setting`, `delete_setting` and `set_all_settings`: an error of the store inside is passed
on at once. -/
def writeCode (w : Write V) : CacheProg V E (Except E (Answer V)) := do
  match (← perform (.innerWrite w) : Except E Bool) with
  | .error e => return .error e
  | .ok deleted =>
    perform (.invalidate w.user_id)
    return .ok (written w deleted)

def code : CacheCall V → CacheProg V E (Except E (Answer V))
  | read user_id r => readCode user_id r
  | write w => writeCode w
  | invalidateUser user_id => do
    perform (.invalidate user_id)
    return .ok .done
  | flush => do
    perform .clear
    return .ok .done

/-- The call writes the settings of a user. -/
def writes (user_id : String) : CacheCall V → Bool
  | write w => w.user_id = user_id
  | _ => false

end CacheCall

/-- Calls over one cache; the clock goes on by itself. -/
def cacheSystem (S : CachedSettingsStore σ V E) :
    System (CacheCall V) ℕ (CacheInstr V) (CacheReply V E) (CacheState σ V)
      (Except E (Answer V)) where
  exec := CacheState.exec S
  ready := CacheState.ready
  code := CacheCall.code
  env elapsed s := some { s with now := s.now + elapsed }

abbrev CacheConf (σ V E : Type) : Type :=
  Conf (CacheCall V) (CacheInstr V) (CacheReply V E) (CacheState σ V) (Except E (Answer V))

/-- A task of a run. -/
abbrev CacheTask (V E : Type) : Type :=
  Task (CacheCall V) (CacheInstr V) (CacheReply V E) (Except E (Answer V))

/-! ### When a failing write is harmless -/

/-- What a task has loaded and is about to put into the cache. -/
def holding : CacheProg V E (Except E (Answer V)) → Option (String × SettingsMap V)
  | .act (.insertAndUnlock user_id settings) _ => some (user_id, settings)
  | _ => none

/-- A write of the user's settings that is about to invalidate. -/
def CacheTask.invalidating (user_id : String) (t : CacheTask V E) : Prop :=
  t.op.writes user_id = true ∧ ∃ f, t.prog = .act (.invalidate user_id) f

/-- Nobody has the user's settings: not the cache, and not a reader about to fill it. -/
def CacheConf.uncached (S : CachedSettingsStore σ V E) (c : CacheConf σ V E) (user_id : String) :
    Prop :=
  c.state.fresh S user_id = none ∧ ∀ t ∈ c.tasks, ∀ settings,
    holding t.prog ≠ some (user_id, settings)

/-- A write that fails has changed nothing, or nobody has the settings, or another write of theirs
is about to invalidate. -/
def failsClean (S : CachedSettingsStore σ V E) (c : CacheConf σ V E) : Move (CacheCall V) ℕ → Prop
  | .step k => ∀ call w f e, c.tasks[k]? = some ⟨call, .act (.innerWrite w) f⟩ →
    (S.inner.write w c.state.inner).1 = .error e →
      S.inner.getAllSettings w.user_id (S.inner.write w c.state.inner).2 =
          S.inner.getAllSettings w.user_id c.state.inner ∨
        CacheConf.uncached S c w.user_id ∨ ∃ t ∈ c.tasks, CacheTask.invalidating w.user_id t
  | _ => True

/-- The call of a task has returned. -/
def CacheTask.returned (t : CacheTask V E) : Prop := ∃ r, t.prog = .done r

/-- The move starts no write of the user's settings. -/
def startsNoWrite (user_id : String) : Move (CacheCall V) ℕ → Prop
  | .start call => call.writes user_id = false
  | _ => True

/-! ### The shape of the calls -/

/-- The task is between taking the write lock and giving it back. -/
def inSection : CacheProg V E (Except E (Answer V)) → Bool
  | .act (.innerGetAll _) _ | .act (.insertAndUnlock ..) _ | .act .unlock _ => true
  | _ => false

/-- What an answer hands to the rest of a call. -/
def handed : (i : CacheInstr V) → CacheReply V E i → Option (String × SettingsMap V)
  | .innerGetAll user_id, .ok settings => some (user_id, settings)
  | _, _ => none

/-- The answer leaves the lock with the task. -/
def keepsLock : (i : CacheInstr V) → CacheReply V E i → Bool
  | .slowGet _, none => true
  | .innerGetAll _, _ => true
  | _, _ => false

/-- After a write that succeeds the rest of the call invalidates. -/
def Invalidates (p : CacheProg V E (Except E (Answer V))) :
    (i : CacheInstr V) → CacheReply V E i → Prop
  | .innerWrite w, .ok _ => ∃ f, p = .act (.invalidate w.user_id) f
  | _, _ => True

/-- What the rest of a call begins with, after this answer. -/
structure Continues (p : CacheProg V E (Except E (Answer V))) (i : CacheInstr V)
    (r : CacheReply V E i) : Prop where
  holding : holding p = handed i r
  section_ : inSection p = keepsLock i r
  invalidates : Invalidates p i r

/-- What is left of a call. -/
def WellFormed (call : CacheCall V) : CacheProg V E (Except E (Answer V)) → Prop
  | .done _ => True
  | .act i f => (∀ w, i = .innerWrite w → call = .write w) ∧
      ∀ r, Continues (f r) i r ∧ WellFormed call (f r)

/-- A call starts outside the lock, with nothing loaded, and goes on as it should. -/
theorem wellFormed_code (call : CacheCall V) :
    WellFormed (E := E) call call.code ∧ inSection (E := E) call.code = false ∧
      holding (E := E) call.code = none := by
  have hlast {i : CacheInstr V} {r : CacheReply V E i} {a : Except E (Answer V)}
      (hhanded : handed i r = none) (hkeeps : keepsLock i r = false)
      (hinvalidates : Invalidates (.done a) i r) :
      Continues (.done a) i r ∧ WellFormed call (.done a) :=
    ⟨⟨hhanded.symm, hkeeps.symm, hinvalidates⟩, trivial⟩
  cases call with
  | invalidateUser user_id =>
    exact ⟨⟨nofun, fun _ => hlast rfl rfl trivial⟩, rfl, rfl⟩
  | flush => exact ⟨⟨nofun, fun _ => hlast rfl rfl trivial⟩, rfl, rfl⟩
  | write w =>
    refine ⟨⟨fun _ h => by cases h; rfl, fun r => ?_⟩, rfl, rfl⟩
    cases r with
    | error e => exact ⟨⟨rfl, rfl, trivial⟩, trivial⟩
    | ok deleted => exact ⟨⟨rfl, rfl, _, rfl⟩, nofun, fun _ => hlast rfl rfl trivial⟩
  | read user_id r =>
    refine ⟨⟨nofun, fun found => ?_⟩, rfl, rfl⟩
    cases found with
    | some settings => exact hlast rfl rfl trivial
    | none =>
      refine ⟨⟨rfl, rfl, trivial⟩, nofun, fun found => ?_⟩
      cases found with
      | some settings => exact hlast rfl rfl trivial
      | none =>
        refine ⟨⟨rfl, rfl, trivial⟩, nofun, fun loaded => ?_⟩
        cases loaded with
        | error e => exact ⟨⟨rfl, rfl, trivial⟩, nofun, fun _ => hlast rfl rfl trivial⟩
        | ok settings => exact ⟨⟨rfl, rfl, trivial⟩, nofun, fun _ => hlast rfl rfl trivial⟩

/-! ### One step -/

variable {S : CachedSettingsStore σ V E}

/-- What is cached or about to be cached of a user is what the store inside holds. -/
structure Coherent (S : CachedSettingsStore σ V E) (c : CacheConf σ V E) (user_id : String) :
    Prop where
  cached : ∀ entry, c.state.fresh S user_id = some entry →
    S.inner.getAllSettings user_id c.state.inner = .ok entry.settings
  held : ∀ t ∈ c.tasks, ∀ settings, holding t.prog = some (user_id, settings) →
    S.inner.getAllSettings user_id c.state.inner = .ok settings

/-- The calls are what is left of them, one task at most has the lock, and what nobody is about to
invalidate is coherent. -/
structure CacheInv (S : CachedSettingsStore σ V E) (c : CacheConf σ V E) : Prop where
  shape : ∀ t ∈ c.tasks, WellFormed t.op t.prog
  lock : c.tasks.countP (inSection ·.prog) = if c.state.locked then 1 else 0
  coherent : ∀ user_id, (∀ t ∈ c.tasks, ¬ CacheTask.invalidating user_id t) →
    Coherent S c user_id

/-- Who has the lock after a step. -/
theorem lock_step {c : CacheConf σ V E} {k : ℕ} {call : CacheCall V} {i : CacheInstr V}
    {f : CacheReply V E i → CacheProg V E (Except E (Answer V))} (h : CacheInv S c)
    (hk : c.tasks[k]? = some ⟨call, .act i f⟩) (hready : CacheState.ready i c.state = true) :
    (c.tasks.set k ⟨call, f (CacheState.exec S i c.state).1⟩).countP (inSection ·.prog) =
      if (CacheState.exec S i c.state).2.locked then 1 else 0 := by
  obtain ⟨hlt, hget⟩ := List.getElem?_eq_some_iff.mp hk
  obtain ⟨hcontinues, -⟩ := (h.shape _ (List.mem_of_getElem? hk)).2 (CacheState.exec S i c.state).1
  have hlock := h.lock
  -- the instructions of the section run in a task that counts among the holders
  have hcount : inSection (E := E) (.act i f) = true →
      0 < c.tasks.countP (inSection ·.prog) := fun hin =>
    List.countP_pos_iff.mpr ⟨_, List.mem_of_getElem? hk, hin⟩
  rw [List.countP_set hlt, hget, hcontinues.section_]
  cases i with
  | fastGet user_id =>
    rw [hlock]
    rfl
  | slowGet user_id =>
    have hfree : c.state.locked = false := by
      simpa [CacheState.ready] using hready
    rw [hfree, if_neg Bool.false_ne_true] at hlock
    rw [hlock, CacheState.exec]
    cases c.state.fresh S user_id with
    | some existing => simp [inSection, keepsLock, hfree]
    | none => simp [inSection, keepsLock]
  | innerGetAll user_id =>
    have hpos := hcount rfl
    rw [hlock] at hpos ⊢
    cases hlocked : c.state.locked with
    | true => simp [inSection, keepsLock, CacheState.exec, hlocked]
    | false => simp [hlocked] at hpos
  | insertAndUnlock user_id settings =>
    have hpos := hcount rfl
    rw [hlock] at hpos ⊢
    cases hlocked : c.state.locked with
    | true => simp [inSection, keepsLock, CacheState.exec]
    | false => simp [hlocked] at hpos
  | unlock =>
    have hpos := hcount rfl
    rw [hlock] at hpos ⊢
    cases hlocked : c.state.locked with
    | true => simp [inSection, keepsLock, CacheState.exec]
    | false => simp [hlocked] at hpos
  | innerWrite w =>
    rw [hlock]
    rfl
  | invalidate user_id =>
    rw [hlock]
    rfl
  | clear =>
    rw [hlock]
    rfl

/-- Nobody is about to fill the cache while the lock is free. -/
theorem holding_eq_none {c : CacheConf σ V E} (h : CacheInv S c) (hfree : c.state.locked = false)
    {t : CacheTask V E} (ht : t ∈ c.tasks) : holding t.prog = none := by
  have hlock := h.lock
  rw [hfree, if_neg Bool.false_ne_true, List.countP_eq_zero] at hlock
  have hout := hlock t ht
  obtain ⟨call, p⟩ := t
  cases p with
  | done r => rfl
  | act i f =>
    cases i with
    | insertAndUnlock user_id settings => exact absurd rfl hout
    | _ => rfl

/-- What stays coherent. -/
theorem Coherent.congr {c c' : CacheConf σ V E} {user_id : String} (h : Coherent S c user_id)
    (hinner : S.inner.getAllSettings user_id c'.state.inner =
      S.inner.getAllSettings user_id c.state.inner)
    (hfresh : ∀ entry, c'.state.fresh S user_id = some entry →
      c.state.fresh S user_id = some entry)
    (htasks : ∀ t ∈ c'.tasks, t ∈ c.tasks ∨ ∀ settings,
      holding t.prog = some (user_id, settings) →
        S.inner.getAllSettings user_id c.state.inner = .ok settings) : Coherent S c' user_id := by
  refine ⟨fun entry hentry => ?_, fun t ht settings hholding => ?_⟩
  · rw [hinner]
    exact h.cached entry (hfresh entry hentry)
  · rw [hinner]
    obtain ht | ht := htasks t ht
    · exact h.held t ht settings hholding
    · exact ht settings hholding

/-- The tasks after a step that hands nothing of the user on. -/
theorem tasks_step {c : CacheConf σ V E} {k : ℕ} {call : CacheCall V} {i : CacheInstr V}
    {f : CacheReply V E i → CacheProg V E (Except E (Answer V))} (h : CacheInv S c)
    (hk : c.tasks[k]? = some ⟨call, .act i f⟩) {user_id : String} {P : SettingsMap V → Prop}
    (hhanded : ∀ settings, handed i (CacheState.exec S i c.state).1 = some (user_id, settings) →
      P settings) :
    ∀ t ∈ c.tasks.set k ⟨call, f (CacheState.exec S i c.state).1⟩, t ∈ c.tasks ∨
      ∀ settings, holding t.prog = some (user_id, settings) → P settings := by
  intro t ht
  obtain ht | rfl := List.mem_or_eq_of_mem_set ht
  · exact .inl ht
  · obtain ⟨hcontinues, -⟩ :=
      (h.shape _ (List.mem_of_getElem? hk)).2 (CacheState.exec S i c.state).1
    refine .inr fun settings hholding => hhanded settings ?_
    rw [← hcontinues.holding]
    exact hholding

/-- Only a task that is at the instruction is about to invalidate. -/
theorem CacheTask.not_invalidating {call : CacheCall V} {i : CacheInstr V}
    {f : CacheReply V E i → CacheProg V E (Except E (Answer V))} {user_id : String}
    (h : i ≠ .invalidate user_id) :
    ¬ CacheTask.invalidating user_id (⟨call, .act i f⟩ : CacheTask V E) := by
  rintro ⟨-, g, hprog⟩
  exact h (Prog.act.inj hprog).1

section

variable {c : CacheConf σ V E} {k : ℕ} {call : CacheCall V} {user_id : String}

variable (S) in
/-- What a step of a task leaves. -/
def CacheConf.stepped (c : CacheConf σ V E) (k : ℕ) (call : CacheCall V) (i : CacheInstr V)
    (f : CacheReply V E i → CacheProg V E (Except E (Answer V))) : CacheConf σ V E :=
  ⟨c.toMemory.after (cacheSystem S).toMachine k i,
    c.tasks.set k ⟨call, f (CacheState.exec S i c.state).1⟩⟩

/-- What was loaded may be handed on. -/
theorem Coherent.innerGetAll (hcoherent : Coherent S c user_id) (h : CacheInv S c) {u : String}
    {f : CacheReply V E (.innerGetAll u) → CacheProg V E (Except E (Answer V))}
    (hk : c.tasks[k]? = some ⟨call, .act (.innerGetAll u) f⟩) :
    Coherent S (c.stepped S k call (.innerGetAll u) f) user_id := by
  refine hcoherent.congr rfl (fun _ hentry => hentry) (tasks_step h hk fun settings hhanded => ?_)
  have hhanded : handed (.innerGetAll u) (S.inner.getAllSettings u c.state.inner) =
      some (user_id, settings) := hhanded
  cases hload : S.inner.getAllSettings u c.state.inner with
  | error e =>
    rw [hload] at hhanded
    cases hhanded
  | ok loaded =>
    rw [hload] at hhanded
    obtain ⟨rfl, rfl⟩ := Prod.mk.inj (Option.some.inj hhanded)
    exact hload

/-- What is held may be put into the cache. -/
theorem Coherent.insertAndUnlock (hcoherent : Coherent S c user_id) (h : CacheInv S c) {u : String}
    {settings : SettingsMap V}
    {f : CacheReply V E (.insertAndUnlock u settings) → CacheProg V E (Except E (Answer V))}
    (hk : c.tasks[k]? = some ⟨call, .act (.insertAndUnlock u settings) f⟩) :
    Coherent S (c.stepped S k call (.insertAndUnlock u settings) f) user_id := by
  refine ⟨fun entry hentry => ?_, fun t ht => ?_⟩
  · obtain ⟨hget, hyoung⟩ := Option.filter_eq_some_iff.mp hentry
    have hget : (((if S.max_entries ≤ c.state.cache.values.length then .empty
        else c.state.cache) : KeyedStore String (CacheEntry V) (·.user_id)).insert
          ⟨u, settings, c.state.now⟩).get? user_id = some entry := hget
    rw [KeyedStore.get?_insert] at hget
    split at hget
    case isTrue hu =>
      obtain rfl := Option.some.inj hget
      obtain rfl : user_id = u := hu
      exact hcoherent.held _ (List.mem_of_getElem? hk) settings rfl
    case isFalse hu =>
      split at hget
      · cases hget
      · exact hcoherent.cached entry (Option.filter_eq_some_iff.mpr ⟨hget, hyoung⟩)
  · have hframe : Coherent S ⟨c.toMemory, c.tasks.set k _⟩ user_id :=
      hcoherent.congr rfl (fun _ hentry => hentry) (tasks_step h hk fun _ h => by cases h)
    exact hframe.held t ht

/-- A write of another user's settings, or one that fails cleanly: after one that succeeds the task
is about to invalidate. -/
theorem Coherent.innerWrite (hcoherent : Coherent S c user_id) (h : CacheInv S c)
    {w : Write V} {f : CacheReply V E (.innerWrite w) → CacheProg V E (Except E (Answer V))}
    (hk : c.tasks[k]? = some ⟨call, .act (.innerWrite w) f⟩)
    (hclean : failsClean S c (.step k))
    (hother : ∀ t ∈ c.tasks, ¬ CacheTask.invalidating user_id t)
    (hnone : ∀ t ∈ (c.stepped S k call (.innerWrite w) f).tasks,
      ¬ CacheTask.invalidating user_id t) :
    Coherent S (c.stepped S k call (.innerWrite w) f) user_id := by
  by_cases huser : user_id = w.user_id
  case neg =>
    exact hcoherent.congr (S.inner.others w c.state.inner user_id huser)
      (fun _ hentry => hentry) (tasks_step h hk fun _ h => by cases h)
  subst huser
  obtain ⟨hlt, -⟩ := List.getElem?_eq_some_iff.mp hk
  obtain ⟨hwrite, hcontinues⟩ := h.shape _ (List.mem_of_getElem? hk)
  cases hreply : (S.inner.write w c.state.inner).1 with
  | ok deleted =>
    have hexec : (CacheState.exec S (.innerWrite w) c.state).1 = .ok deleted := hreply
    have hlater := hnone _ (List.mem_set hlt _)
    rw [hexec] at hlater
    obtain rfl := hwrite w rfl
    exact absurd ⟨decide_eq_true rfl, (hcontinues (.ok deleted)).1.invalidates⟩ hlater
  | error e =>
    obtain hsame | ⟨hfresh, hheld⟩ | ⟨t, ht, hinvalidating⟩ := hclean call w f e hk hreply
    · exact hcoherent.congr hsame (fun _ hentry => hentry)
        (tasks_step h hk fun _ h => by cases h)
    · refine ⟨fun entry hentry => ?_, fun t ht settings hholding => ?_⟩
      · have hentry : c.state.fresh S w.user_id = some entry := hentry
        rw [hfresh] at hentry
        cases hentry
      · obtain ht | ht := tasks_step h hk (P := fun _ => False) (fun _ h => by cases h) t ht
        · exact absurd hholding (hheld t ht settings)
        · exact (ht settings hholding).elim
    · exact absurd hinvalidating (hother t ht)

/-- Nothing is held when the lock is free, nor behind a step that hands nothing on. -/
theorem not_holding_step {i : CacheInstr V}
    {f : CacheReply V E i → CacheProg V E (Except E (Answer V))} (h : CacheInv S c)
    (hk : c.tasks[k]? = some ⟨call, .act i f⟩) (hfree : c.state.locked = false)
    (hhanded : ∀ settings,
      handed i (CacheState.exec S i c.state).1 ≠ some (user_id, settings))
    {t : CacheTask V E} (ht : t ∈ (c.stepped S k call i f).tasks) (settings : SettingsMap V) :
    holding t.prog ≠ some (user_id, settings) := by
  obtain ht | ht := tasks_step h hk (P := fun _ => False) hhanded t ht
  · rw [holding_eq_none h hfree ht]
    nofun
  · exact ht settings

/-- What is invalidated is no longer in the cache, and for other users nothing changes. -/
theorem coherent_invalidate (h : CacheInv S c) {u : String}
    {f : CacheReply V E (.invalidate u) → CacheProg V E (Except E (Answer V))}
    (hk : c.tasks[k]? = some ⟨call, .act (.invalidate u) f⟩) (hfree : c.state.locked = false)
    (hbefore : u ≠ user_id → Coherent S c user_id) :
    Coherent S (c.stepped S k call (.invalidate u) f) user_id := by
  have hget : (c.state.cache.retain fun e => e.user_id ≠ u).get? user_id =
      (c.state.cache.get? user_id).filter fun e => e.user_id ≠ u := KeyedStore.get?_retain ..
  refine ⟨fun entry hentry => ?_, fun t ht settings hholding =>
    absurd hholding (not_holding_step h hk hfree nofun ht settings)⟩
  obtain ⟨hentry, hyoung⟩ := Option.filter_eq_some_iff.mp hentry
  obtain ⟨hentry, hne⟩ := Option.filter_eq_some_iff.mp (hget.symm.trans hentry)
  have huser : u ≠ user_id := fun hu =>
    of_decide_eq_true hne ((KeyedStore.key_of_get? hentry).trans hu.symm)
  exact (hbefore huser).cached entry (Option.filter_eq_some_iff.mpr ⟨hentry, hyoung⟩)

/-- **One step** leaves what nobody is about to invalidate coherent. -/
theorem coherent_step {i : CacheInstr V}
    {f : CacheReply V E i → CacheProg V E (Except E (Answer V))} (h : CacheInv S c)
    (hk : c.tasks[k]? = some ⟨call, .act i f⟩) (hready : CacheState.ready i c.state = true)
    (hclean : failsClean S c (.step k))
    (hnone : ∀ t ∈ (c.stepped S k call i f).tasks, ¬ CacheTask.invalidating user_id t) :
    Coherent S (c.stepped S k call i f) user_id := by
  -- who is about to invalidate is so after the step, but for the task itself
  have hother (hi : ¬ CacheTask.invalidating user_id (⟨call, .act i f⟩ : CacheTask V E)) :
      ∀ t ∈ c.tasks, ¬ CacheTask.invalidating user_id t := by
    intro t ht
    obtain ⟨j, hj⟩ := List.mem_iff_getElem?.mp ht
    by_cases hjk : j = k
    · subst hjk
      obtain rfl := Option.some.inj (hj.symm.trans hk)
      exact hi
    · refine hnone t (List.mem_of_getElem? (i := j) ?_)
      rwa [CacheConf.stepped, List.getElem?_set_ne (Ne.symm hjk)]
  have hbefore (hi : i ≠ .invalidate user_id) : Coherent S c user_id :=
    h.coherent user_id (hother (CacheTask.not_invalidating hi))
  cases i with
  | fastGet u =>
    exact (hbefore nofun).congr rfl (fun _ hentry => hentry) (tasks_step h hk fun _ h => by cases h)
  | slowGet u =>
    have hstate : (CacheState.exec S (.slowGet u) c.state).2.inner = c.state.inner ∧
        (CacheState.exec S (.slowGet u) c.state).2.fresh S user_id = c.state.fresh S user_id := by
      rw [CacheState.exec]
      cases c.state.fresh S u <;> exact ⟨rfl, rfl⟩
    refine (hbefore nofun).congr (congrArg (S.inner.getAllSettings user_id) hstate.1)
      (fun entry hentry => ?_) (tasks_step h hk fun _ h => by cases h)
    exact hstate.2.symm.trans hentry
  | innerGetAll u => exact (hbefore nofun).innerGetAll h hk
  | insertAndUnlock u settings => exact (hbefore nofun).insertAndUnlock h hk
  | unlock =>
    exact (hbefore nofun).congr rfl (fun _ hentry => hentry) (tasks_step h hk fun _ h => by cases h)
  | innerWrite w =>
    exact (hbefore nofun).innerWrite h hk hclean (hother (CacheTask.not_invalidating nofun)) hnone
  | invalidate u =>
    have hfree : c.state.locked = false := by
      simpa [CacheState.ready] using hready
    exact coherent_invalidate h hk hfree fun hu =>
      hbefore fun hi => hu (CacheInstr.invalidate.inj hi)
  | clear =>
    have hfree : c.state.locked = false := by
      simpa [CacheState.ready] using hready
    exact ⟨fun _ h => (by cases h), fun t ht settings hholding =>
      absurd hholding (not_holding_step h hk hfree nofun ht settings)⟩

end

/-- **One move** keeps what is cached coherent. -/
theorem CacheInv.next {c c' : CacheConf σ V E} {m : Move (CacheCall V) ℕ} (h : CacheInv S c)
    (hclean : failsClean S c m) (hnext : (cacheSystem S).next c m = some c') :
    CacheInv S c' := by
  rcases m with k | call | elapsed
  · obtain ⟨call, i, f, hk, hready, rfl⟩ := System.next_step_eq_some.mp hnext
    refine ⟨fun t ht => ?_, lock_step h hk hready, fun user_id => coherent_step h hk hready hclean⟩
    obtain ht | rfl := List.mem_or_eq_of_mem_set ht
    · exact h.shape t ht
    · exact ((h.shape _ (List.mem_of_getElem? hk)).2 _).2
  · obtain ⟨s, hs, rfl⟩ := System.next_start_eq_some.mp hnext
    obtain rfl := Option.some.inj hs
    obtain ⟨hshape, hout, hholding⟩ := wellFormed_code (E := E) call
    refine ⟨fun t ht => ?_, ?_, fun user_id hnone => ?_⟩
    · obtain ht | ht := List.mem_append.mp ht
      · exact h.shape t ht
      · obtain rfl := List.mem_singleton.mp ht
        exact hshape
    · rw [List.countP_append, h.lock, List.countP_singleton]
      exact (congrArg (_ + ·) (if_neg (Bool.eq_false_iff.mp hout))).trans (Nat.add_zero _)
    · have hcoherent := h.coherent user_id fun t ht => hnone t (List.mem_append_left _ ht)
      refine hcoherent.congr rfl (fun _ hentry => hentry) fun t ht => ?_
      obtain ht | ht := List.mem_append.mp ht
      · exact .inl ht
      · obtain rfl := List.mem_singleton.mp ht
        refine .inr fun settings hsome => ?_
        have hsome : holding (E := E) call.code = some (user_id, settings) := hsome
        rw [hholding] at hsome
        cases hsome
  · obtain ⟨s, hs, rfl⟩ := System.next_env_eq_some.mp hnext
    obtain rfl := Option.some.inj hs
    refine ⟨h.shape, h.lock, fun user_id hnone => ?_⟩
    refine (h.coherent user_id hnone).congr rfl (fun entry hentry => ?_) fun t ht => .inl ht
    obtain ⟨hget, hyoung⟩ := Option.filter_eq_some_iff.mp hentry
    refine Option.filter_eq_some_iff.mpr ⟨hget, decide_eq_true ?_⟩
    have hyoung : c.state.now + elapsed - entry.loaded_at < S.ttl := of_decide_eq_true hyoung
    omega

/-! ### Runs -/

/-- The rest of a reading call. -/
def answering (r : Read) (p : CacheProg V E (Except E (SettingsMap V))) :
    CacheProg V E (Except E (Answer V)) :=
  p >>= fun all => .done (all.map r.answer)

/-- How far a call has got that reads settings which the store inside answers by `v`. -/
inductive Reading (user_id : String) (r : Read) (v : Except E (SettingsMap V)) :
    CacheProg V E (Except E (Answer V)) → Prop
  | start : Reading user_id r v (CacheCall.readCode user_id r)
  | slow : Reading user_id r v (answering r (slowPath user_id))
  | load : Reading user_id r v (answering r (load user_id))
  | insert (settings : SettingsMap V) (h : v = .ok settings) : Reading user_id r v
      (.act (.insertAndUnlock user_id settings) fun _ => .done (v.map r.answer))
  | unlock : Reading user_id r v (.act .unlock fun _ => .done (v.map r.answer))
  | done : Reading user_id r v (.done (v.map r.answer))

/-- Its next step. -/
theorem Reading.step {user_id : String} {r : Read} {v : Except E (SettingsMap V)}
    {c : CacheConf σ V E} {p : CacheProg V E (Except E (Answer V))} (h : Reading user_id r v p)
    (hcoherent : Coherent S c user_id)
    (hv : S.inner.getAllSettings user_id c.state.inner = v) {i : CacheInstr V}
    {f : CacheReply V E i → CacheProg V E (Except E (Answer V))} (hp : p = .act i f) :
    Reading user_id r v (f (CacheState.exec S i c.state).1) := by
  -- a fresh entry is what the inner store holds, by coherence
  have hfresh : ∀ entry, c.state.fresh S user_id = some entry → v = .ok entry.settings :=
    fun entry hentry => hv.symm.trans (hcoherent.cached entry hentry)
  cases h with
  | start =>
    obtain ⟨rfl, hf⟩ := Prog.act.inj hp
    obtain rfl := eq_of_heq hf
    rw [CacheState.exec]
    cases hentry : c.state.fresh S user_id with
    | none => exact .slow
    | some entry =>
      obtain rfl := hfresh entry hentry
      exact .done
  | slow =>
    obtain ⟨rfl, hf⟩ := Prog.act.inj hp
    obtain rfl := eq_of_heq hf
    rw [CacheState.exec]
    cases hentry : c.state.fresh S user_id with
    | none => exact .load
    | some entry =>
      obtain rfl := hfresh entry hentry
      exact .done
  | load =>
    obtain ⟨rfl, hf⟩ := Prog.act.inj hp
    obtain rfl := eq_of_heq hf
    rw [CacheState.exec, hv]
    cases v with
    | error e => exact .unlock
    | ok settings => exact .insert settings rfl
  | insert settings hsettings =>
    obtain ⟨rfl, hf⟩ := Prog.act.inj hp
    obtain rfl := eq_of_heq hf
    exact .done
  | unlock =>
    obtain ⟨rfl, hf⟩ := Prog.act.inj hp
    obtain rfl := eq_of_heq hf
    exact .done
  | done => cases hp

/-- What holds while settings are read that nobody writes. -/
structure Undisturbed (S : CachedSettingsStore σ V E) (user_id : String) (r : Read)
    (v : Except E (SettingsMap V)) (k : ℕ) (c : CacheConf σ V E) : Prop where
  inv : CacheInv S c
  quiet : ∀ t ∈ c.tasks, t.op.writes user_id = true → CacheTask.returned t
  current : S.inner.getAllSettings user_id c.state.inner = v
  task : ∃ t, c.tasks[k]? = some t ∧ Reading user_id r v t.prog

/-- A step that writes for nobody or for another. -/
theorem inner_exec {i : CacheInstr V} {s : CacheState σ V} {user_id : String}
    (h : ∀ w, i = .innerWrite w → user_id ≠ w.user_id) :
    S.inner.getAllSettings user_id (CacheState.exec S i s).2.inner =
      S.inner.getAllSettings user_id s.inner := by
  cases i with
  | innerWrite w => exact S.inner.others w s.inner user_id (h w rfl)
  | slowGet u =>
    rw [CacheState.exec]
    cases s.fresh S u <;> rfl
  | _ => rfl

theorem Undisturbed.next {user_id : String} {r : Read} {v : Except E (SettingsMap V)} {k : ℕ}
    {c c' : CacheConf σ V E} {m : Move (CacheCall V) ℕ} (h : Undisturbed S user_id r v k c)
    (hclean : failsClean S c m) (hwrite : startsNoWrite user_id m)
    (hnext : (cacheSystem S).next c m = some c') : Undisturbed S user_id r v k c' := by
  have hinv := h.inv.next hclean hnext
  obtain ⟨t, hk, hreading⟩ := h.task
  rcases m with j | call | elapsed
  · obtain ⟨call, i, f, hj, -, rfl⟩ := System.next_step_eq_some.mp hnext
    -- a task that still runs writes no settings of this user
    have hcall : call.writes user_id = false := by
      by_contra hwrites
      obtain ⟨a, ha⟩ := h.quiet _ (List.mem_of_getElem? hj) (eq_true_of_ne_false hwrites)
      cases ha
    have hi : ∀ w, i = .innerWrite w → user_id ≠ w.user_id := by
      rintro w hw rfl
      have hsame : call = .write w := (h.inv.shape _ (List.mem_of_getElem? hj)).1 w hw
      rw [hsame] at hcall
      exact of_decide_eq_false hcall rfl
    refine ⟨hinv, fun t' ht' hwrites => ?_, (inner_exec hi).trans h.current, ?_⟩
    · obtain ht' | rfl := List.mem_or_eq_of_mem_set ht'
      · exact h.quiet t' ht' hwrites
      · rw [hcall] at hwrites
        cases hwrites
    · by_cases hkj : k = j
      · subst hkj
        obtain rfl := Option.some.inj (hk.symm.trans hj)
        refine ⟨_, List.getElem?_set_self (List.getElem?_eq_some_iff.mp hk).1, ?_⟩
        refine hreading.step (h.inv.coherent user_id fun t' ht' hinvalidating => ?_) h.current rfl
        obtain ⟨hwrites, f', hf'⟩ := hinvalidating
        obtain ⟨a, ha⟩ := h.quiet t' ht' hwrites
        rw [ha] at hf'
        cases hf'
      · exact ⟨t, (List.getElem?_set_ne (Ne.symm hkj)).trans hk, hreading⟩
  · obtain ⟨s, hs, rfl⟩ := System.next_start_eq_some.mp hnext
    obtain rfl := Option.some.inj hs
    refine ⟨hinv, fun t' ht' hwrites => ?_, h.current, t, ?_, hreading⟩
    · obtain ht' | ht' := List.mem_append.mp ht'
      · exact h.quiet t' ht' hwrites
      · obtain rfl := List.mem_singleton.mp ht'
        exact absurd hwrites (Bool.eq_false_iff.mp hwrite)
    · exact (List.getElem?_append_left (List.getElem?_eq_some_iff.mp hk).1).trans hk
  · obtain ⟨s, hs, rfl⟩ := System.next_env_eq_some.mp hnext
    obtain rfl := Option.some.inj hs
    exact ⟨hinv, h.quiet, h.current, t, hk, hreading⟩

/-- **Reads are current.** In a run from an empty cache in which a write that fails leaves nothing
stale behind: a call that starts to read a user's settings when every write of them has returned,
and that returns before another starts, answers what the store inside holds. -/
theorem reads_current {s : σ} {c₀ c₁ c : CacheConf σ V E} {user_id : String} {r : Read}
    {a : Except E (Answer V)} {now : ℕ}
    (h₀ : (cacheSystem S).Reach (failsClean S) (.idle ⟨s, .empty, false, now⟩) c₀)
    (hquiet : ∀ t ∈ c₀.tasks, t.op.writes user_id = true → CacheTask.returned t)
    (hstart : (cacheSystem S).next c₀ (.start (.read user_id r)) = some c₁)
    (h : (cacheSystem S).Reach (fun c m => failsClean S c m ∧ startsNoWrite user_id m) c₁ c)
    (hreturned : c.tasks[c₀.tasks.length]? = some ⟨.read user_id r, .done a⟩) :
    a = (S.inner.getAllSettings user_id c.state.inner).map r.answer := by
  have hinv₀ : CacheInv S c₀ := by
    refine h₀.induction ⟨(fun t ht => nomatch ht), rfl, fun u _ => ?_⟩
      fun _ _ _ hinv hclean hnext => hinv.next hclean hnext
    exact ⟨nofun, fun t ht => nomatch ht⟩
  obtain ⟨s, hs, rfl⟩ := System.next_start_eq_some.mp hstart
  obtain rfl := Option.some.inj hs
  have hundisturbed : Undisturbed S user_id r
      (S.inner.getAllSettings user_id c₀.state.inner) c₀.tasks.length c := by
    have hclean : failsClean S c₀ (.start (.read user_id r)) := trivial
    refine h.induction ⟨hinv₀.next hclean hstart, fun t ht hwrites => ?_, rfl, _,
        List.getElem?_concat_length, .start⟩
      fun _ _ _ hundisturbed hok hnext => hundisturbed.next hok.1 hok.2 hnext
    obtain ht | ht := List.mem_append.mp ht
    · exact hquiet t ht hwrites
    · obtain rfl := List.mem_singleton.mp ht
      cases hwrites
  obtain ⟨t, ht, hreading⟩ := hundisturbed.task
  obtain rfl := Option.some.inj (ht.symm.trans hreturned)
  rw [hundisturbed.current]
  cases hreading
  rfl

/-! ### A failing write -/

/-- A store of one setting of one user; storing zero changes it and fails. -/
def themeStore : SettingsStore ℕ ℕ String where
  getAllSettings user_id n :=
    .ok (if user_id = "alice" then .insert .empty ("theme", n) else .empty)
  write
    | .setSetting user_id _ value, n =>
      if user_id = "alice" then (if value = 0 then .error "disk full" else .ok true, value)
      else (.ok true, n)
    | _, n => (.ok false, n)
  others w n user_id h := by
    cases w with
    | setSetting u key value =>
      by_cases hu : u = "alice"
      · have huser : user_id ≠ "alice" := fun heq => h (heq.trans hu.symm)
        simp only [if_neg huser]
      · simp only [if_neg hu]
    | _ => rfl

def themeCache : CachedSettingsStore ℕ ℕ String := ⟨themeStore, 300, 1000⟩

/-- A write that succeeds between two reads. -/
def themeChanged : List (Move (CacheCall ℕ) ℕ) :=
  [.start (.read "alice" (.getSetting "theme")), .step 0, .step 0, .step 0, .step 0,
    .start (.write (.setSetting "alice" "theme" 2)), .step 1, .step 1]

/-- No write fails, and the clock stands still. -/
def succeeds (c : CacheConf ℕ ℕ String) : Move (CacheCall ℕ) ℕ → Bool
  | .step k =>
    match c.tasks[k]? with
    | some ⟨_, .act (.innerWrite w) _⟩ => (themeStore.write w c.state.inner).1.isOk
    | _ => true
  | .start _ => true
  | .env _ => false

theorem failsClean_of_succeeds {c : CacheConf ℕ ℕ String} {m : Move (CacheCall ℕ) ℕ}
    (h : succeeds c m = true) : failsClean themeCache c m := by
  rcases m with k | call | elapsed
  · intro call w f e hk herror
    rw [succeeds, hk] at h
    have herror : (themeStore.write w c.state.inner).1 = .error e := herror
    dsimp only at h
    rw [herror] at h
    cases h
  · trivial
  · trivial

theorem reads_current_theme : ∃ c₀ c₁ c,
    (cacheSystem themeCache).play (.idle ⟨1, .empty, false, 0⟩) themeChanged = some c₀ ∧
    (cacheSystem themeCache).next c₀ (.start (.read "alice" (.getSetting "theme"))) = some c₁ ∧
    (cacheSystem themeCache).play c₁ [.step 2, .step 2, .step 2, .step 2] = some c ∧
    (.ok (.setting (some 2)) : Except String (Answer ℕ)) =
      (themeStore.getAllSettings "alice" c.state.inner).map
        (Read.answer · (.getSetting "theme")) := by
  have hallowed : System.Allowed (cacheSystem themeCache) (fun c m => succeeds c m = true)
      (.idle ⟨1, .empty, false, 0⟩) themeChanged := by
    decide +kernel
  refine ⟨_, _, _, rfl, rfl, rfl, ?_⟩
  refine reads_current (S := themeCache) ((System.Reach.init.of_play hallowed rfl).induction .init
      fun _ _ _ hreach hok hnext => hreach.move (failsClean_of_succeeds hok) hnext)
    (fun t ht _ => Task.exists_done (List.all_eq_true.mp (by decide +kernel) t ht)) rfl ?_ rfl
  refine System.Reach.init.of_play ?_ (show (cacheSystem themeCache).play _
    [.step 2, .step 2, .step 2, .step 2] = some _ from rfl)
  refine ⟨⟨failsClean_of_succeeds (by decide +kernel), trivial⟩, ?_⟩
  refine ⟨⟨failsClean_of_succeeds (by decide +kernel), trivial⟩, ?_⟩
  refine ⟨⟨failsClean_of_succeeds (by decide +kernel), trivial⟩, ?_⟩
  exact ⟨⟨failsClean_of_succeeds (by decide +kernel), trivial⟩, trivial⟩

/-- A write changes the store inside and fails, after a read. -/
def themeChangedAndFailed : List (Move (CacheCall ℕ) ℕ) :=
  [.start (.read "alice" (.getSetting "theme")), .step 0, .step 0, .step 0, .step 0,
    .start (.write (.setSetting "alice" "theme" 0)), .step 1]

/-- The next read answers what the setting was before. -/
theorem failed_write_reads_old : ∃ c₀ c₁ c,
    (cacheSystem themeCache).play (.idle ⟨1, .empty, false, 0⟩) themeChangedAndFailed = some c₀ ∧
    c₀.tasks[1]? = some ⟨.write (.setSetting "alice" "theme" 0), .done (.error "disk full")⟩ ∧
    (cacheSystem themeCache).next c₀ (.start (.read "alice" (.getSetting "theme"))) = some c₁ ∧
    (cacheSystem themeCache).play c₁ [.step 2] = some c ∧
    c.tasks[2]? = some ⟨.read "alice" (.getSetting "theme"), .done (.ok (.setting (some 1)))⟩ ∧
    (themeStore.getAllSettings "alice" c.state.inner).map (Read.answer · (.getSetting "theme")) =
      .ok (.setting (some 0)) :=
  ⟨_, _, _, rfl, rfl, rfl, rfl, rfl, rfl⟩

end T3Claw.Settings
