import Mathlib.Algebra.Group.Nat.Defs
import Mathlib.Data.List.MinMax
import Mathlib.Data.Prod.Lex
import T3Claw.Conc.System
import T3Claw.Data.KeyedStore
import T3Claw.Data.Split
import T3Claw.Llm.Provider

/-!
# The response cache

`llm/response_cache.rs`. A call looks its key up, asks the inner provider when there is no answer
that is fresh, and stores that: two critical sections with an await between them. The key hashes
the fields of a request one behind the other, and nothing says where one ends: stop sequences
are told apart by a NUL that they may have themselves, and a field that is absent leaves nothing.
The cache is transparent in runs without two requests that come to the same bytes
(`cache_transparent`); `framed_injective` names requests among which there are none.

Which calls have been looked up, and what was served to which, is kept beside the cache for
statements about runs and is read by no code.
-/

namespace T3Claw.Llm

open Conc

/-- `CompletionRequest`. Of the messages only their JSON is read here; `temperature` is given by
its bits. -/
structure CompletionRequest (Message : Type) where
  messages : List Message
  model : Option String
  max_tokens : Option UInt32
  temperature : Option UInt32
  stop_sequences : Option (List String)

/-- `serde_json` on messages, and SHA-256 in hexadecimal digits. -/
structure Hashing (Message : Type) where
  to_json : List Message → Option String
  sha256 : List UInt8 → String

/-- `as_bytes`. -/
def utf8 (s : String) : List UInt8 := s.toByteArray.data.toList

/-- `to_le_bytes`. -/
def leBytes (n : UInt32) : List UInt8 :=
  (List.range 4).map fun i => UInt8.ofNat (n.toNat / 256 ^ i)

/-- `b"|"`. -/
def BAR : UInt8 := 124

/-- A call that is looked up: the effective model, the request, and when it came. -/
structure CachedCall (Message : Type) where
  model : String
  request : CompletionRequest Message
  now : ℕ

section

variable {Message Response : Type}

/-- The bytes of the stop sequences. -/
def stopBytes (stops : List String) : List UInt8 := stops.flatMap fun s => utf8 s ++ [0]

/-- What `cache_key` hashes of the parameters. -/
def parameterBytes (request : CompletionRequest Message) : List UInt8 :=
  BAR :: (request.max_tokens.elim [] leBytes ++
    BAR :: (request.temperature.elim [] leBytes ++
      BAR :: request.stop_sequences.elim [] stopBytes))

/-- What `cache_key` hashes. -/
def keyBytes (h : Hashing Message) (model : String) (request : CompletionRequest Message) :
    List UInt8 :=
  utf8 model ++ BAR :: ((h.to_json request.messages).elim [] utf8 ++ parameterBytes request)

/-- `cache_key`. -/
def cacheKey (h : Hashing Message) (model : String) (request : CompletionRequest Message) :
    String :=
  h.sha256 (keyBytes h model request)

/-- The bytes of a call's key. -/
def CachedCall.bytes (h : Hashing Message) (call : CachedCall Message) : List UInt8 :=
  keyBytes h call.model call.request

/-- `ResponseCacheConfig`. -/
structure ResponseCacheConfig where
  ttl : ℕ
  max_entries : ℕ

/-- `CacheEntry` with its key, and the call that it answers. -/
structure CacheEntry (Message Response : Type) where
  key : String
  response : Response
  created_at : ℕ
  last_accessed : ℕ
  hit_count : ℕ
  origin : CachedCall Message

/-- The entries of the cache. -/
abbrev CacheMap (Message Response : Type) : Type :=
  KeyedStore String (CacheEntry Message Response) CacheEntry.key

/-- The cache, its counters, the clock, what the inner provider is ready to answer, in which order
the map is iterated, and what has been asked and served. -/
structure CacheState (Message Response : Type) where
  cache : CacheMap Message Response
  request_count : ℕ
  total_hit_count : ℕ
  now : ℕ
  effective_model_name : Option String → String
  reply : Except LlmError Response
  order : String → ℕ
  asked : List (CachedCall Message)
  served : List (CachedCall Message × CachedCall Message)

/-- `CachedProvider::new`. -/
def CacheState.new (now : ℕ) (effective_model_name : Option String → String)
    (reply : Except LlmError Response) (order : String → ℕ) : CacheState Message Response :=
  ⟨.empty, 0, 0, now, effective_model_name, reply, order, [], []⟩

/-- The entry that was accessed first; of several the one that is iterated first. -/
def leastRecent (order : String → ℕ) (cache : CacheMap Message Response) :
    Option (CacheEntry Message Response) :=
  cache.values.argmin fun entry => toLex (entry.last_accessed, order entry.key)

/-- `HashMap::remove`. -/
def removeKey (cache : CacheMap Message Response) (key : String) : CacheMap Message Response :=
  cache.retain fun entry => entry.key ≠ key

theorem length_removeKey_lt {cache : CacheMap Message Response}
    {entry : CacheEntry Message Response} (h : entry ∈ cache.values) :
    (removeKey cache entry.key).values.length < cache.values.length :=
  List.length_filter_lt_length_iff_exists.mpr ⟨entry, h, by simp⟩

/-- So many rounds of the loop of the LRU eviction. -/
def evictRounds (max_entries : ℕ) (order : String → ℕ) :
    ℕ → CacheMap Message Response → CacheMap Message Response
  | 0, cache => cache
  | rounds + 1, cache =>
    if max_entries ≤ cache.values.length then
      match leastRecent order cache with
      | some entry => evictRounds max_entries order rounds (removeKey cache entry.key)
      | none => cache
    else cache

/-- The loop of the LRU eviction: every round but the last removes an entry. -/
def evict (max_entries : ℕ) (order : String → ℕ) (cache : CacheMap Message Response) :
    CacheMap Message Response := evictRounds max_entries order cache.values.length cache

/-! ### Calls -/

/-- The steps of a call. Both critical sections are told the call that makes them. -/
inductive CacheInstr (Message Response : Type) where
  | effectiveModelName (requested_model : Option String)
  | instant
  | countRequest
  | lookup (key : String) (call : CachedCall Message)
  | inner (request : CompletionRequest Message)
  | store (key : String) (call : CachedCall Message) (result : Except LlmError Response)

/-- What they answer. -/
abbrev CacheInstr.Answer (Message Response : Type) : CacheInstr Message Response → Type
  | effectiveModelName _ => String
  | instant => ℕ
  | countRequest => Unit
  | lookup .. => Option Response
  | inner _ | store .. => Except LlmError Response

/-- The code of a call. -/
abbrev CacheProg (Message Response α : Type) : Type :=
  Prog (CacheInstr Message Response) (CacheInstr.Answer Message Response) α

/-- `complete`. -/
def cachedComplete (h : Hashing Message) (request : CompletionRequest Message) :
    CacheProg Message Response (Except LlmError Response) := do
  let effective_model ← Prog.perform (CacheInstr.effectiveModelName request.model)
  let key := cacheKey h effective_model request
  let now ← Prog.perform CacheInstr.instant
  Prog.perform CacheInstr.countRequest
  let call := ⟨effective_model, request, now⟩
  match ← Prog.perform (CacheInstr.lookup key call) with
  | some cached_response => pure (.ok cached_response)
  | none =>
    let result ← Prog.perform (CacheInstr.inner request)
    Prog.perform (CacheInstr.store key call result)

/-- The first critical section. -/
def CacheState.lookup (config : ResponseCacheConfig) (key : String) (call : CachedCall Message)
    (s : CacheState Message Response) : Option Response × CacheState Message Response :=
  match s.cache.get? key with
  | some entry =>
    if call.now - entry.created_at < config.ttl then
      (some entry.response,
        { s with
          cache := s.cache.modify key
            (fun e => { e with last_accessed := call.now, hit_count := e.hit_count + 1 })
            fun _ => rfl
          total_hit_count := s.total_hit_count + 1
          asked := call :: s.asked
          served := (call, entry.origin) :: s.served })
    else (none, { s with cache := removeKey s.cache key, asked := call :: s.asked })
  | none => (none, { s with asked := call :: s.asked })

/-- The second critical section. -/
def CacheState.store (config : ResponseCacheConfig) (key : String) (call : CachedCall Message)
    (result : Except LlmError Response) (s : CacheState Message Response) :
    Except LlmError Response × CacheState Message Response :=
  match result with
  | .error e => (.error e, s)
  | .ok response =>
    let fresh := s.cache.retain fun entry => call.now - entry.created_at < config.ttl
    let evicted := evict config.max_entries s.order fresh
    (.ok response, { s with cache := evicted.insert ⟨key, response, call.now, call.now, 0, call⟩ })

/-- What a step answers and does. -/
def CacheState.exec (config : ResponseCacheConfig) :
    (i : CacheInstr Message Response) → CacheState Message Response →
      i.Answer Message Response × CacheState Message Response
  | .effectiveModelName requested_model, s => (s.effective_model_name requested_model, s)
  | .instant, s => (s.now, s)
  | .countRequest, s => ((), { s with request_count := s.request_count + 1 })
  | .lookup key call, s => s.lookup config key call
  | .inner _, s => (s.reply, s)
  | .store key call result, s => s.store config key call result

/-- What the environment does: time passes, the inner provider has another model or answer, the
map is laid out anew, and the cache is cleared. -/
inductive CacheChange (Response : Type) where
  | clock (nanoseconds : ℕ)
  | model (effective_model_name : Option String → String)
  | reply (answer : Except LlmError Response)
  | rehash (order : String → ℕ)
  | clear

/-- Any number of calls through one cache, in any order of their steps. -/
def cacheSystem (h : Hashing Message) (config : ResponseCacheConfig) :
    System (CompletionRequest Message) (CacheChange Response) (CacheInstr Message Response)
      (CacheInstr.Answer Message Response) (CacheState Message Response)
      (Except LlmError Response) where
  exec := CacheState.exec config
  code := cachedComplete h
  env
    | .clock nanoseconds, s => some { s with now := s.now + nanoseconds }
    | .model effective_model_name, s => some { s with effective_model_name }
    | .reply answer, s => some { s with reply := answer }
    | .rehash order, s => some { s with order }
    | .clear, s => some { s with cache := .empty }

/-! ### What the cache is for -/

/-- The same effective model, messages and parameters. -/
structure CachedCall.Same (call other : CachedCall Message) : Prop where
  model : call.model = other.model
  messages : call.request.messages = other.request.messages
  max_tokens : call.request.max_tokens = other.request.max_tokens
  temperature : call.request.temperature = other.request.temperature
  stop_sequences : call.request.stop_sequences = other.request.stop_sequences

instance CachedCall.Same.decidable [DecidableEq Message] (call other : CachedCall Message) :
    Decidable (call.Same other) :=
  decidable_of_iff (call.model = other.model ∧
      call.request.messages = other.request.messages ∧
        call.request.max_tokens = other.request.max_tokens ∧
          call.request.temperature = other.request.temperature ∧
            call.request.stop_sequences = other.request.stop_sequences)
    ⟨fun ⟨model, messages, max_tokens, temperature, stop_sequences⟩ =>
      ⟨model, messages, max_tokens, temperature, stop_sequences⟩,
    fun h => ⟨h.model, h.messages, h.max_tokens, h.temperature, h.stop_sequences⟩⟩

/-- The cache is transparent: what was served is the answer to a call that was the same, less than
the time to live before. And it has no more entries than it may. -/
structure Transparent (config : ResponseCacheConfig) (s : CacheState Message Response) : Prop where
  same : ∀ hit ∈ s.served, hit.1.Same hit.2
  fresh : ∀ hit ∈ s.served, hit.1.now < hit.2.now + config.ttl
  bounded : s.cache.values.length ≤ max config.max_entries 1

/-- The call that a task looks up next. -/
def nextLookup (c : Conf (CompletionRequest Message) (CacheInstr Message Response)
    (CacheInstr.Answer Message Response) (CacheState Message Response)
    (Except LlmError Response)) (k : ℕ) : Option (CachedCall Message) :=
  match c.tasks[k]? with
  | some ⟨_, .act (.lookup _ call) _⟩ => some call
  | _ => none

/-- A call that is looked up is the same as any before with the same bytes. -/
def toldApart (h : Hashing Message) (c : Conf (CompletionRequest Message)
    (CacheInstr Message Response) (CacheInstr.Answer Message Response)
    (CacheState Message Response) (Except LlmError Response)) :
    Move (CompletionRequest Message) (CacheChange Response) → Prop
  | .step k => ∀ call ∈ nextLookup c k, ∀ other ∈ c.state.asked,
      other.bytes h = call.bytes h → call.Same other
  | _ => True

instance toldApart.decidable [DecidableEq Message] (h : Hashing Message)
    (c : Conf (CompletionRequest Message) (CacheInstr Message Response)
      (CacheInstr.Answer Message Response) (CacheState Message Response)
      (Except LlmError Response)) :
    ∀ m : Move (CompletionRequest Message) (CacheChange Response), Decidable (toldApart h c m)
  | .step k => inferInstanceAs (Decidable (∀ call ∈ nextLookup c k, ∀ other ∈ c.state.asked,
      other.bytes h = call.bytes h → call.Same other))
  | .start _ | .env _ => .isTrue trivial

/-! ### The critical sections keep to it -/

/-- What holds at any time: entries have the key and the date of the call that they answer, which
has been looked up. -/
structure CacheState.Sound (h : Hashing Message) (config : ResponseCacheConfig)
    (s : CacheState Message Response) : Prop where
  keyed : ∀ entry ∈ s.cache, entry.key = h.sha256 (entry.origin.bytes h)
  dated : ∀ entry ∈ s.cache, entry.created_at = entry.origin.now
  asked : ∀ entry ∈ s.cache, entry.origin ∈ s.asked
  transparent : Transparent config s

/-- As many rounds as there are entries keep only entries, fewer than the maximum or none. -/
theorem evictRounds_spec (max_entries : ℕ) (order : String → ℕ) {rounds : ℕ}
    {cache : CacheMap Message Response} (hrounds : cache.values.length ≤ rounds) :
    (∀ entry ∈ evictRounds max_entries order rounds cache, entry ∈ cache) ∧
      ((evictRounds max_entries order rounds cache).values.length < max_entries ∨
        (evictRounds max_entries order rounds cache).values = []) := by
  induction rounds generalizing cache with
  | zero => exact ⟨fun _ => id, .inr (List.length_eq_zero_iff.mp (Nat.le_zero.mp hrounds))⟩
  | succ rounds ih =>
    rw [evictRounds]
    split_ifs with hfull
    · cases holdest : leastRecent order cache with
      | none => exact ⟨fun _ => id, .inr (List.argmin_eq_none.mp holdest)⟩
      | some entry =>
        have hlt := length_removeKey_lt (List.argmin_mem holdest)
        obtain ⟨hkept, hroom⟩ := ih (Nat.le_of_lt_succ (hlt.trans_le hrounds))
        exact ⟨fun e he => (KeyedStore.mem_retain.mp (hkept e he)).1, hroom⟩
    · exact ⟨fun _ => id, .inl (Nat.lt_of_not_le hfull)⟩

/-- The eviction keeps only entries, fewer than the maximum or none. -/
theorem evict_spec (max_entries : ℕ) (order : String → ℕ) (cache : CacheMap Message Response) :
    (∀ entry ∈ evict max_entries order cache, entry ∈ cache) ∧
      ((evict max_entries order cache).values.length < max_entries ∨
        (evict max_entries order cache).values = []) :=
  evictRounds_spec max_entries order le_rfl

namespace CacheState.Sound

variable {h : Hashing Message} {config : ResponseCacheConfig} {s : CacheState Message Response}
  {key : String} {call : CachedCall Message}

/-- A lookup keeps the cache sound, if the call is told apart from those before. -/
theorem lookup (hs : s.Sound h config) (hsha : Function.Injective h.sha256)
    (hkey : key = h.sha256 (call.bytes h))
    (happart : ∀ other ∈ s.asked, other.bytes h = call.bytes h → call.Same other) :
    (s.lookup config key call).2.Sound h config := by
  rw [CacheState.lookup]
  cases hget : s.cache.get? key with
  | none =>
    exact ⟨hs.keyed, hs.dated, fun entry he => List.mem_cons_of_mem _ (hs.asked entry he),
      hs.transparent.same, hs.transparent.fresh, hs.transparent.bounded⟩
  | some entry =>
    obtain ⟨hmem, hentry⟩ := KeyedStore.get?_eq_some_iff.mp hget
    dsimp only
    split_ifs with hfresh
    · have hmodified : ∀ e ∈ s.cache.modify key (fun e =>
          { e with last_accessed := call.now, hit_count := e.hit_count + 1 }) fun _ => rfl,
          ∃ old ∈ s.cache, e.key = old.key ∧ e.created_at = old.created_at ∧
            e.origin = old.origin := by
        intro e he
        obtain ⟨old, hold, rfl⟩ := (KeyedStore.mem_modify _).mp he
        refine ⟨old, hold, ?_⟩
        split_ifs
        · exact ⟨rfl, rfl, rfl⟩
        · exact ⟨rfl, rfl, rfl⟩
      -- the digest names its request: a hit is a hit of the same one
      have hsame : call.Same entry.origin := by
        refine happart _ (hs.asked entry hmem) (hsha ?_)
        rw [← hs.keyed entry hmem, hentry, hkey]
      have htime : call.now < entry.origin.now + config.ttl := by
        rw [hs.dated entry hmem] at hfresh
        omega
      refine ⟨fun e he => ?_, fun e he => ?_, fun e he => ?_, ?_⟩
      · obtain ⟨old, hold, hk, -, ho⟩ := hmodified e he
        rw [hk, ho]
        exact hs.keyed old hold
      · obtain ⟨old, hold, -, hc, ho⟩ := hmodified e he
        rw [hc, ho]
        exact hs.dated old hold
      · obtain ⟨old, hold, -, -, ho⟩ := hmodified e he
        rw [ho]
        exact List.mem_cons_of_mem _ (hs.asked old hold)
      · refine ⟨List.forall_mem_cons.mpr ⟨hsame, hs.transparent.same⟩,
          List.forall_mem_cons.mpr ⟨htime, hs.transparent.fresh⟩, ?_⟩
        have hlength : (s.cache.modify key (fun e => { e with
            last_accessed := call.now, hit_count := e.hit_count + 1 }) fun _ => rfl).values.length =
              s.cache.values.length := List.length_map _
        exact hlength.le.trans hs.transparent.bounded
    · have hkept : ∀ e ∈ removeKey s.cache key, e ∈ s.cache := fun e he =>
        (KeyedStore.mem_retain.mp he).1
      exact ⟨fun e he => hs.keyed e (hkept e he), fun e he => hs.dated e (hkept e he),
        fun e he => List.mem_cons_of_mem _ (hs.asked e (hkept e he)), hs.transparent.same,
        hs.transparent.fresh, (List.length_filter_le _ _).trans hs.transparent.bounded⟩

/-- Storing an answer keeps the cache sound, if the call was looked up. -/
theorem store (hs : s.Sound h config) (hkey : key = h.sha256 (call.bytes h))
    (hasked : call ∈ s.asked) (result : Except LlmError Response) :
    (s.store config key call result).2.Sound h config := by
  cases result with
  | error e => exact hs
  | ok response =>
    obtain ⟨hkept, hroom⟩ := evict_spec config.max_entries s.order
      (s.cache.retain fun entry => call.now - entry.created_at < config.ttl)
    have hmem : ∀ e ∈ (s.store config key call (.ok response)).2.cache,
        e = ⟨key, response, call.now, call.now, 0, call⟩ ∨ e ∈ s.cache := by
      intro e he
      rcases KeyedStore.mem_insert.mp he with rfl | ⟨he, -⟩
      · exact .inl rfl
      · exact .inr (KeyedStore.mem_retain.mp (hkept e he)).1
    refine ⟨fun e he => ?_, fun e he => ?_, fun e he => ?_, hs.transparent.same,
      hs.transparent.fresh, ?_⟩
    · rcases hmem e he with rfl | he
      · exact hkey
      · exact hs.keyed e he
    · rcases hmem e he with rfl | he
      · rfl
      · exact hs.dated e he
    · rcases hmem e he with rfl | he
      · exact hasked
      · exact hs.asked e he
    · refine (KeyedStore.length_insert_le _ _).trans ?_
      rcases hroom with hroom | hempty
      · exact (Nat.succ_le_of_lt hroom).trans (Nat.le_max_left _ _)
      · rw [hempty]
        exact Nat.le_max_right _ _

end CacheState.Sound

/-! ### Every run -/

/-- The rules between the calls: the cache stays sound, what has been looked up stays known, and
calls are told apart when they are looked up. -/
def cacheProtocol (h : Hashing Message) (config : ResponseCacheConfig) :
    Protocol (CompletionRequest Message) (CacheInstr Message Response)
      (CacheState Message Response) where
  inv m := m.state.Sound h config
  later m m' := m.state.asked ⊆ m'.state.asked
  allowed _ _ i m :=
    match i with
    | .lookup _ call => ∀ other ∈ m.state.asked, other.bytes h = call.bytes h → call.Same other
    | _ => True
  later_refl _ := List.Subset.refl _
  later_trans hm hm' := List.Subset.trans hm hm'

theorem CacheState.asked_store (config : ResponseCacheConfig) (key : String)
    (call : CachedCall Message) (result : Except LlmError Response)
    (s : CacheState Message Response) : (s.store config key call result).2.asked = s.asked := by
  cases result <;> rfl

theorem CacheState.asked_lookup (config : ResponseCacheConfig) (key : String)
    (call : CachedCall Message) (s : CacheState Message Response) :
    (s.lookup config key call).2.asked = call :: s.asked := by
  rw [CacheState.lookup]
  split
  · split_ifs
    · rfl
    · rfl
  · rfl

/-- A call keeps to the rules. -/
theorem safe_cachedComplete {h : Hashing Message} {config : ResponseCacheConfig}
    (hsha : Function.Injective h.sha256) (request : CompletionRequest Message) (k : ℕ)
    (m : Memory (CacheInstr Message Response) (CacheState Message Response)) :
    (cacheProtocol h config).Safe (cacheSystem h config).toMachine request k
      (fun (_ : Except LlmError Response) _ => True) (cachedComplete h request) m := by
  refine Protocol.safe_act fun m₁ _ hinv₁ _ =>
    ⟨_, m₁.state, rfl, hinv₁, List.Subset.refl _, ?_⟩
  set effective_model := m₁.state.effective_model_name request.model
  refine Protocol.safe_act fun m₂ _ hinv₂ _ =>
    ⟨_, m₂.state, rfl, hinv₂, List.Subset.refl _, ?_⟩
  refine Protocol.safe_act fun m₃ _ hinv₃ _ => ⟨(), _, rfl, ?_, List.Subset.refl _, ?_⟩
  · exact ⟨hinv₃.keyed, hinv₃.dated, hinv₃.asked, hinv₃.transparent.same, hinv₃.transparent.fresh,
      hinv₃.transparent.bounded⟩
  set call : CachedCall Message := ⟨effective_model, request, m₂.state.now⟩
  refine Protocol.safe_act fun m₄ _ hinv₄ happart => ?_
  have hsound := CacheState.Sound.lookup hinv₄ hsha rfl happart
  have hasked := CacheState.asked_lookup config (cacheKey h effective_model request) call m₄.state
  obtain ⟨answer, s', hlookup⟩ : ∃ answer s', m₄.state.lookup config
      (cacheKey h effective_model request) call = (answer, s') := ⟨_, _, rfl⟩
  rw [hlookup] at hasked
  refine ⟨answer, s', hlookup, ?_, ?_, ?_⟩
  · have hsound' : (m₄.state.lookup config (cacheKey h effective_model request) call).2.Sound h
        config := hsound
    rwa [hlookup] at hsound'
  · intro other hother
    change other ∈ s'.asked
    rw [show s'.asked = call :: m₄.state.asked from hasked]
    exact List.mem_cons_of_mem _ hother
  · have hknown : call ∈ s'.asked := by
      rw [show s'.asked = call :: m₄.state.asked from hasked]
      exact List.mem_cons_self
    cases answer with
    | some response => trivial
    | none =>
      refine Protocol.safe_act fun m₅ hgrown₅ hinv₅ _ =>
        ⟨_, m₅.state, rfl, hinv₅, List.Subset.refl _, ?_⟩
      refine Protocol.safe_act fun m₆ hgrown₆ hinv₆ _ => ⟨_, _, rfl,
        CacheState.Sound.store hinv₆ rfl (hgrown₆.1 (hgrown₅.1 hknown)) _, ?_, trivial⟩
      intro other hother
      change other ∈ (m₆.state.store config _ call _).2.asked
      rwa [CacheState.asked_store]

/-- **In every run that tells its calls apart the cache is transparent.** -/
theorem cache_transparent {h : Hashing Message} {config : ResponseCacheConfig} {now : ℕ}
    {effective_model_name : Option String → String} {reply : Except LlmError Response}
    {order : String → ℕ} (hsha : Function.Injective h.sha256)
    {c : Conf (CompletionRequest Message) (CacheInstr Message Response)
      (CacheInstr.Answer Message Response) (CacheState Message Response)
      (Except LlmError Response)}
    (hrun : (cacheSystem h config).Reach (toldApart h)
      (.idle (.new now effective_model_name reply order)) c) : Transparent config c.state := by
  have hsafe := System.Reach.safe (P := cacheProtocol h config) (Q := fun _ _ _ _ => True)
    (fun _ _ _ _ _ _ _ => trivial) (fun c k op i f hok hk => ?_) (fun c e s hinv _ hs => ?_)
    (fun c op s hinv _ hs => ?_) ?_ hrun
  · exact hsafe.1.transparent
  · cases i with
    | lookup key call => exact hok call (by rw [nextLookup, hk]; rfl)
    | _ => trivial
  · cases e with
    | clear =>
      obtain rfl := Option.some.inj hs
      exact ⟨⟨nofun, nofun, nofun, hinv.transparent.same, hinv.transparent.fresh, Nat.zero_le _⟩,
        List.Subset.refl _⟩
    | _ =>
      obtain rfl := Option.some.inj hs
      exact ⟨⟨hinv.keyed, hinv.dated, hinv.asked, hinv.transparent.same, hinv.transparent.fresh,
        hinv.transparent.bounded⟩, List.Subset.refl _⟩
  · obtain rfl := Option.some.inj hs
    exact ⟨hinv, List.Subset.refl _, fun k => safe_cachedComplete hsha op k _⟩
  · exact ⟨nofun, nofun, nofun, nofun, nofun, Nat.zero_le _⟩

/-! ### Requests that are told apart -/

/-- What is relied on of the JSON of messages: there is one, which determines them, and no array
is the beginning of another. -/
structure JsonArrays (h : Hashing Message) : Prop where
  total : ∀ messages, (h.to_json messages).isSome
  injective : Function.Injective h.to_json
  ends : ∀ messages others text other, h.to_json messages = some text →
    h.to_json others = some other → utf8 text <+: utf8 other → text = other

/-- A call whose fields end where they are said to: no bar in the model nor at the beginning of a
number, no NUL in the stop sequences, and no empty list of them. -/
structure CachedCall.Framed (call : CachedCall Message) : Prop where
  model : BAR ∉ utf8 call.model
  max_tokens : ∀ n ∈ call.request.max_tokens, n.toNat % 256 ≠ BAR.toNat
  temperature : ∀ n ∈ call.request.temperature, n.toNat % 256 ≠ BAR.toNat
  stops_ne_nil : call.request.stop_sequences ≠ some []
  stops : ∀ stops ∈ call.request.stop_sequences, ∀ s ∈ stops, (0 : UInt8) ∉ utf8 s

theorem utf8_injective : Function.Injective utf8 := by
  intro s t h
  exact String.toByteArray_inj.mp (ByteArray.ext (Array.toList_inj.mp h))

theorem leBytes_injective : Function.Injective leBytes := by
  intro a b h
  have hbyte : ∀ x y : ℕ, UInt8.ofNat x = UInt8.ofNat y → x % 256 = y % 256 := by
    intro x y hxy
    have htoNat := congrArg UInt8.toNat hxy
    rwa [UInt8.toNat_ofNat', UInt8.toNat_ofNat'] at htoNat
  have ha := a.toNat_lt
  have hb := b.toNat_lt
  obtain ⟨h₀, h₁, h₂, h₃, -⟩ : UInt8.ofNat (a.toNat / 1) = UInt8.ofNat (b.toNat / 1) ∧
      UInt8.ofNat (a.toNat / 256) = UInt8.ofNat (b.toNat / 256) ∧
        UInt8.ofNat (a.toNat / 65536) = UInt8.ofNat (b.toNat / 65536) ∧
          UInt8.ofNat (a.toNat / 16777216) = UInt8.ofNat (b.toNat / 16777216) ∧ True := by
    simpa [leBytes, List.range, List.range.loop] using h
  have h₀ := hbyte _ _ h₀
  have h₁ := hbyte _ _ h₁
  have h₂ := hbyte _ _ h₂
  have h₃ := hbyte _ _ h₃
  exact UInt32.toNat_inj.mp (by omega)

/-- What is cut off at a byte that is in neither part. -/
theorem append_cons_inj {b : UInt8} {front other rest more : List UInt8} (hfront : b ∉ front)
    (hother : b ∉ other) (h : front ++ b :: rest = other ++ b :: more) :
    front = other ∧ rest = more := by
  have hcut := Split.cut?_singleton hfront rest
  rw [h, Split.cut?_singleton hother more] at hcut
  obtain ⟨rfl, rfl⟩ := Prod.mk.inj (Option.some.inj hcut)
  exact ⟨rfl, rfl⟩

/-- A number that does not begin with a bar. -/
theorem leBytes_ne_bar {n : UInt32} (hn : n.toNat % 256 ≠ BAR.toNat) (rest more : List UInt8) :
    leBytes n ++ rest ≠ BAR :: more := by
  intro h
  have hfirst : UInt8.ofNat (n.toNat / 1) = BAR := (List.cons.inj h).1
  have htoNat := congrArg UInt8.toNat hfirst
  rw [UInt8.toNat_ofNat', Nat.div_one] at htoNat
  exact hn htoNat

/-- A number that may be absent, if it does not begin with a bar. -/
theorem number_inj {a b : Option UInt32} {rest more : List UInt8}
    (ha : ∀ n ∈ a, n.toNat % 256 ≠ BAR.toNat) (hb : ∀ n ∈ b, n.toNat % 256 ≠ BAR.toNat)
    (h : a.elim [] leBytes ++ BAR :: rest = b.elim [] leBytes ++ BAR :: more) :
    a = b ∧ rest = more := by
  cases a with
  | none =>
    cases b with
    | none => exact ⟨rfl, (List.cons.inj h).2⟩
    | some n => exact absurd h.symm (leBytes_ne_bar (hb n rfl) _ _)
  | some m =>
    cases b with
    | none => exact absurd h (leBytes_ne_bar (ha m rfl) _ _)
    | some n =>
      have hlength : (leBytes m).length = (leBytes n).length := rfl
      obtain ⟨hbytes, hrest⟩ := List.append_inj h hlength
      exact ⟨congrArg some (leBytes_injective hbytes), (List.cons.inj hrest).2⟩

theorem stopBytes_cons (s : String) (stops : List String) :
    stopBytes (s :: stops) = utf8 s ++ 0 :: stopBytes stops := by
  rw [stopBytes, List.flatMap_cons, List.append_assoc]
  rfl

/-- The stop sequences of their bytes. -/
theorem stopBytes_inj {stops others : List String} (hstops : ∀ s ∈ stops, (0 : UInt8) ∉ utf8 s)
    (hothers : ∀ s ∈ others, (0 : UInt8) ∉ utf8 s) (h : stopBytes stops = stopBytes others) :
    stops = others := by
  have hne : ∀ (s : String) (stops : List String), stopBytes (s :: stops) ≠ [] := fun s stops => by
    rw [stopBytes_cons]
    exact List.append_ne_nil_of_right_ne_nil _ (List.cons_ne_nil _ _)
  induction stops generalizing others with
  | nil =>
    cases others with
    | nil => rfl
    | cons t others => exact absurd h.symm (hne t others)
  | cons s stops ih =>
    cases others with
    | nil => exact absurd h (hne s stops)
    | cons t others =>
      obtain ⟨hs, hstops⟩ := List.forall_mem_cons.mp hstops
      obtain ⟨ht, hothers⟩ := List.forall_mem_cons.mp hothers
      rw [stopBytes_cons, stopBytes_cons] at h
      obtain ⟨hfirst, hrest⟩ := append_cons_inj hs ht h
      rw [utf8_injective hfirst, ih hstops hothers hrest]

/-- Stop sequences that may be absent, but are not an empty list. -/
theorem stops_inj {stops others : Option (List String)} (hne : stops ≠ some [])
    (hne' : others ≠ some []) (hstops : ∀ l ∈ stops, ∀ s ∈ l, (0 : UInt8) ∉ utf8 s)
    (hothers : ∀ l ∈ others, ∀ s ∈ l, (0 : UInt8) ∉ utf8 s)
    (h : stops.elim [] stopBytes = others.elim [] stopBytes) : stops = others := by
  cases stops with
  | none =>
    cases others with
    | none => rfl
    | some l =>
      have hl : [] = l := stopBytes_inj (fun _ hs => absurd hs List.not_mem_nil) (hothers l rfl) h
      exact absurd (congrArg some hl.symm) hne'
  | some l =>
    cases others with
    | none =>
      have hl : l = [] := stopBytes_inj (hstops l rfl) (fun _ hs => absurd hs List.not_mem_nil) h
      exact absurd (congrArg some hl) hne
    | some l' => exact congrArg some (stopBytes_inj (hstops l rfl) (hothers l' rfl) h)

/-- **Calls whose fields end where they are said to are told apart.** -/
theorem framed_injective {h : Hashing Message} (hjson : JsonArrays h)
    {call other : CachedCall Message} (hcall : call.Framed) (hother : other.Framed)
    (hbytes : call.bytes h = other.bytes h) : call.Same other := by
  obtain ⟨hmodel, hrest⟩ := append_cons_inj hcall.model hother.model hbytes
  obtain ⟨text, htext⟩ := Option.isSome_iff_exists.mp (hjson.total call.request.messages)
  obtain ⟨text', htext'⟩ := Option.isSome_iff_exists.mp (hjson.total other.request.messages)
  rw [htext, htext'] at hrest
  change utf8 text ++ parameterBytes call.request =
    utf8 text' ++ parameterBytes other.request at hrest
  -- one of the texts is the beginning of the other
  have heq : text = text' := by
    rcases List.prefix_or_prefix_of_prefix (List.prefix_append (utf8 text) _)
      (hrest ▸ List.prefix_append (utf8 text') _) with hle | hle
    · exact hjson.ends _ _ _ _ htext htext' hle
    · exact (hjson.ends _ _ _ _ htext' htext hle).symm
  have hmessages := hjson.injective (htext.trans (heq ▸ htext'.symm))
  rw [heq, List.append_cancel_left_eq] at hrest
  obtain ⟨hmax, hrest⟩ := number_inj hcall.max_tokens hother.max_tokens (List.cons.inj hrest).2
  obtain ⟨htemperature, hrest⟩ := number_inj hcall.temperature hother.temperature hrest
  exact ⟨utf8_injective hmodel, hmessages, hmax, htemperature,
    stops_inj hcall.stops_ne_nil hother.stops_ne_nil hcall.stops hother.stops hrest⟩

end

/-! ### Two runs -/

/-- Bytes as characters, for hexadecimal digits of their hash. -/
def sampleHashing : Hashing Unit where
  to_json messages :=
    some (String.ofList ('[' :: List.intercalate [','] (messages.map fun _ => "null".toList) ++
      [']']))
  sha256 bytes := String.ofList (bytes.map fun b => Char.ofNat b.toNat)

theorem sampleHashing_injective : Function.Injective sampleHashing.sha256 := by
  have hchar : Function.Injective fun b : UInt8 => Char.ofNat b.toNat := by
    intro a b h
    have hvalid : ∀ c : UInt8, c.toNat.isValidChar := fun c =>
      .inl (Nat.lt_trans c.toNat_lt (by decide))
    have hval : (Char.ofNat a.toNat).val = (Char.ofNat b.toNat).val := congrArg Char.val h
    rw [Char.ofNat, dif_pos (hvalid a), Char.ofNat, dif_pos (hvalid b)] at hval
    exact UInt8.toNat_inj.mp (congrArg UInt32.toNat hval)
  intro bytes others h
  exact List.map_injective_iff.mpr hchar (String.ofList_injective h)

/-- A request with these stop sequences. -/
def stopping (stop_sequences : List String) : CompletionRequest Unit :=
  ⟨[], none, none, none, some stop_sequences⟩

/-- One request, and another as soon as it is answered. -/
def twoRequests (first second : CompletionRequest Unit) :
    List (Move (CompletionRequest Unit) (CacheChange Unit)) :=
  [.start first, .step 0, .step 0, .step 0, .step 0, .step 0, .step 0,
    .start second, .step 1, .step 1, .step 1, .step 1]

/-- A cache for an hour, over a provider with one model. -/
abbrev sampleCache : Conf (CompletionRequest Unit) (CacheInstr Unit Unit)
    (CacheInstr.Answer Unit Unit) (CacheState Unit Unit) (Except LlmError Unit) :=
  .idle (.new 0 (fun _ => "m") (.ok ()) fun _ => 0)

/-- The theorem on a request that is repeated. -/
theorem cache_transparent_repeated : ∃ c, (cacheSystem sampleHashing ⟨3600, 1000⟩).play sampleCache
    (twoRequests (stopping ["a"]) (stopping ["a"])) = some c ∧ c.state.served.length = 1 ∧
      Transparent ⟨3600, 1000⟩ c.state := by
  have hplay : ((cacheSystem sampleHashing ⟨3600, 1000⟩).play sampleCache
      (twoRequests (stopping ["a"]) (stopping ["a"]))).any
        (fun c => decide (c.state.served.length = 1)) = true := by decide +kernel
  have hallowed : (cacheSystem sampleHashing ⟨3600, 1000⟩).Allowed (toldApart sampleHashing)
      sampleCache (twoRequests (stopping ["a"]) (stopping ["a"])) := by decide +kernel
  obtain ⟨c, hc, hserved⟩ := (Option.any_eq_true _ _).mp hplay
  exact ⟨c, hc, of_decide_eq_true hserved,
    cache_transparent sampleHashing_injective (System.Reach.init.of_play hallowed hc)⟩

/-- The stop sequences come to the same bytes, and the second request is served the answer to the
first. -/
theorem stops_confused : ∃ c, (cacheSystem sampleHashing ⟨3600, 1000⟩).play sampleCache
    (twoRequests (stopping ["a\x00b"]) (stopping ["a", "b"])) = some c ∧
      ¬Transparent ⟨3600, 1000⟩ c.state := by
  have hplay : ((cacheSystem sampleHashing ⟨3600, 1000⟩).play sampleCache
      (twoRequests (stopping ["a\x00b"]) (stopping ["a", "b"]))).any
        (fun c => c.state.served.any fun hit => decide (¬hit.1.Same hit.2)) = true := by
    decide +kernel
  obtain ⟨c, hc, hserved⟩ := (Option.any_eq_true _ _).mp hplay
  obtain ⟨hit, hmem, hdifferent⟩ := List.any_eq_true.mp hserved
  exact ⟨c, hc, fun h => of_decide_eq_true hdifferent (h.same hit hmem)⟩

end T3Claw.Llm
