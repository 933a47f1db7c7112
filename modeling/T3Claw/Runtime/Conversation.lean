import Mathlib.Data.List.AList
import T3Claw.Conc.System
import T3Claw.Data.KeyedStore
import T3Claw.Types.Error

/-!
# The conversation directory

`runtime/conversation.rs`: one conversation for each channel and user. Looking one up, listing
the stored ones, registering and saving happen in turn, the locks being released in between, so
another task may act after each of them. What keeps them in agreement is that an entry of the
index is never changed once it is there, and that whoever is about to add one looks again.

An id is drawn where it is first used, in the lock section that registers the new
conversation.
-/

namespace T3Claw

open Conc

/-- Strongly-typed entry identifier. -/
structure EntryId where
  val : ℕ
  deriving DecidableEq, Repr

/-- Who sent a conversation entry. -/
inductive EntrySender where
  | user
  | agent (thread_id : ThreadId)
  | system
  deriving DecidableEq, Repr

/-- A message visible to the user. -/
structure ConversationEntry where
  id : EntryId
  sender : EntrySender
  content : String
  origin_thread_id : Option ThreadId
  timestamp : Time
  metadata : Json

/-- The UI-facing view of a chat. -/
structure ConversationSurface where
  id : ConversationId
  channel : String
  user_id : String
  entries : List ConversationEntry
  active_threads : List ThreadId
  metadata : Json
  created_at : Time
  updated_at : Time

namespace ConversationSurface

/-- `ConversationSurface::new`. -/
def new (id : ConversationId) (now : Time) (channel user_id : String) : ConversationSurface where
  id := id
  channel := channel
  user_id := user_id
  entries := []
  active_threads := []
  metadata := .null
  created_at := now
  updated_at := now

/-- What the index knows it by. -/
def key (conv : ConversationSurface) : String × String := (conv.channel, conv.user_id)

end ConversationSurface

/-- The stored conversations, by id. -/
abbrev Conversations : Type :=
  KeyedStore ConversationId ConversationSurface ConversationSurface.id

/-- What the manager uses of `Store`. -/
structure ConversationStore where
  list_conversations : String → Conversations → Except EngineError (List ConversationSurface)
  save_conversation : ConversationSurface → Conversations → Except EngineError Conversations

/-- The store lists what it holds of a user, and saves. -/
structure ConversationStore.Reliable (store : ConversationStore) : Prop where
  lists : ∀ user_id stored, ∃ convs, store.list_conversations user_id stored = .ok convs ∧
    ∀ conv, conv ∈ convs ↔ conv ∈ stored ∧ conv.user_id = user_id
  saves : ∀ conv stored, store.save_conversation conv stored = .ok (stored.insert conv)

/-- The manager's maps, the store behind it, the ids drawn and the clock. A conversation's
mutex is known by its number: `cells` are those made so far, with what was put in them. -/
structure Directory where
  stored : Conversations
  drawn : ℕ
  now : Time
  cells : List ConversationSurface
  conversations : AList fun _ : ConversationId => ℕ
  channel_user_index : AList fun _ : String × String => ConversationId

namespace Directory

/-- A new manager in front of a store. -/
def new (stored : Conversations) (now : Time) : Directory := ⟨stored, 0, now, [], ∅, ∅⟩

/-- Put a conversation into a mutex of its own, and into both maps. -/
def register (d : Directory) (key : String × String) (conv : ConversationSurface) :
    Directory :=
  { d with
    cells := d.cells ++ [conv]
    conversations := d.conversations.insert conv.id d.cells.length
    channel_user_index := d.channel_user_index.insert key conv.id }

/-- `bootstrap_user`, one listed conversation. -/
def bootstrapOne (acc : ℕ × Directory) (conv : ConversationSurface) : ℕ × Directory :=
  let (inserted, d) := acc
  if conv.id ∈ d.conversations then
    if conv.key ∈ d.channel_user_index then (inserted, d)
    else (inserted,
      { d with channel_user_index := d.channel_user_index.insert conv.key conv.id })
  else (inserted + 1, d.register conv.key conv)

end Directory

/-- The steps between two awaits. -/
inductive ConversationInstr where
  | indexGet (key : String × String)
  | listConversations (user_id : String)
  | adopt (key : String × String) (conv : ConversationSurface)
  | create (channel user_id : String)
  | saveConversation (conv : ConversationSurface)
  | rollback (conv_id : ConversationId) (key : String × String)
  | bootstrap (conversations : List ConversationSurface)

/-- What they answer. -/
abbrev ConversationInstr.Answer : ConversationInstr → Type
  | indexGet _ => Option ConversationId
  | listConversations _ => Except EngineError (List ConversationSurface)
  | adopt .. => ConversationId
  | create .. => ConversationId ⊕ ConversationSurface
  | saveConversation _ => Except EngineError Unit
  | rollback .. => Unit
  | bootstrap _ => ℕ

/-- The calls on the manager. -/
inductive ConversationCall where
  | bootstrapUser (user_id : String)
  | getOrCreateConversation (channel user_id : String)

/-- What the calls return. -/
inductive ConversationResult where
  | bootstrapped (result : Except EngineError ℕ)
  | got (result : Except EngineError ConversationId)

/-- The code of a call. -/
abbrev ConversationProg (α : Type) : Type := Prog ConversationInstr ConversationInstr.Answer α

/-- One step of it. -/
def ConversationInstr.act (i : ConversationInstr) : ConversationProg i.Answer := Prog.perform i

/-- `bootstrap_user`. -/
def bootstrapUser (user_id : String) : ConversationProg ConversationResult := do
  match ← (ConversationInstr.listConversations user_id).act with
  | .error e => pure (.bootstrapped (.error e))
  | .ok conversations =>
    let inserted ← (ConversationInstr.bootstrap conversations).act
    pure (.bootstrapped (.ok inserted))

/-- `get_or_create_conversation`, from where a new conversation is made. -/
def createConversation (channel user_id : String) : ConversationProg ConversationResult := do
  match ← (ConversationInstr.create channel user_id).act with
  | .inl existing_id => pure (.got (.ok existing_id))
  | .inr conv =>
    match ← (ConversationInstr.saveConversation conv).act with
    | .ok () => pure (.got (.ok conv.id))
    | .error e =>
      (ConversationInstr.rollback conv.id (channel, user_id)).act
      pure (.got (.error (.store e.display)))

/-- `get_or_create_conversation`, from the listing on. -/
def adoptOrCreate (channel user_id : String) (conversations : List ConversationSurface) :
    ConversationProg ConversationResult :=
  match conversations.find? fun conv => conv.channel = channel with
  | some conv => do
    let conv_id ← (ConversationInstr.adopt (channel, user_id) conv).act
    pure (.got (.ok conv_id))
  | none => createConversation channel user_id

/-- `get_or_create_conversation`. -/
def getOrCreateConversation (channel user_id : String) :
    ConversationProg ConversationResult := do
  match ← (ConversationInstr.indexGet (channel, user_id)).act with
  | some conv_id => pure (.got (.ok conv_id))
  | none =>
    match ← (ConversationInstr.listConversations user_id).act with
    | .error e => pure (.got (.error e))
    | .ok conversations => adoptOrCreate channel user_id conversations

/-- The code of a call. -/
def ConversationCall.code : ConversationCall → ConversationProg ConversationResult
  | .bootstrapUser user_id => T3Claw.bootstrapUser user_id
  | .getOrCreateConversation channel user_id => T3Claw.getOrCreateConversation channel user_id

/-- What a step answers and does; `newId` is the sequence of ids that are drawn. -/
def Directory.exec (store : ConversationStore) (newId : ℕ → ConversationId) :
    (i : ConversationInstr) → Directory → i.Answer × Directory
  | .indexGet key, d => (d.channel_user_index.lookup key, d)
  | .listConversations user_id, d => (store.list_conversations user_id d.stored, d)
  | .adopt key conv, d =>
    match d.channel_user_index.lookup key with
    | some existing_id => (existing_id, d)
    | none => (conv.id, d.register key conv)
  | .create channel user_id, d =>
    match d.channel_user_index.lookup (channel, user_id) with
    | some existing_id => (.inl existing_id, d)
    | none =>
      let conv := ConversationSurface.new (newId d.drawn) d.now channel user_id
      (.inr conv, { d with drawn := d.drawn + 1 }.register (channel, user_id) conv)
  | .saveConversation conv, d =>
    match store.save_conversation conv d.stored with
    | .error e => (.error e, d)
    | .ok stored => (.ok (), { d with stored })
  | .rollback conv_id key, d =>
    ((), { d with
      conversations := d.conversations.erase conv_id
      channel_user_index := d.channel_user_index.erase key })
  | .bootstrap conversations, d => conversations.foldl Directory.bootstrapOne (0, d)

/-- Any number of calls on one manager, while the clock moves. -/
def directorySystem (store : ConversationStore) (newId : ℕ → ConversationId) :
    System ConversationCall ℕ ConversationInstr ConversationInstr.Answer Directory
      ConversationResult where
  exec := Directory.exec store newId
  code := ConversationCall.code
  env seconds d := some { d with now := d.now + seconds }

/-- A configuration of the directory. -/
abbrev DirectoryConf : Type :=
  Conf ConversationCall ConversationInstr ConversationInstr.Answer Directory ConversationResult

/-! ### What holds of the directory -/

/-- What is promised of a configuration. -/
structure Agreed (c : DirectoryConf) : Prop where
  /-- All calls for a channel and user return one id. -/
  same_id : ∀ channel user_id, ∃ conv_id, ∀ result,
    ⟨.getOrCreateConversation channel user_id, .done result⟩ ∈ c.tasks →
      result = .got (.ok conv_id)
  /-- No second mutex is made for a channel and user. -/
  one_cell : (c.state.cells.map ConversationSurface.key).Nodup
  /-- What the index names is registered, under the channel and user it is named for. -/
  indexed : ∀ key conv_id, c.state.channel_user_index.lookup key = some conv_id →
    ∃ cell conv, c.state.conversations.lookup conv_id = some cell ∧
      c.state.cells[cell]? = some conv ∧ conv.id = conv_id ∧ conv.key = key

/-- Ids are drawn once and for no stored conversation, and a channel and user have at most one
stored conversation. -/
structure FreshIds (newId : ℕ → ConversationId) (stored : Conversations) : Prop where
  injective : Function.Injective newId
  unused : ∀ n, ∀ conv ∈ stored, conv.id ≠ newId n
  one : ∀ conv ∈ stored, ∀ other ∈ stored, conv.key = other.key → conv = other

namespace Directory

variable {newId : ℕ → ConversationId} {stored : Conversations} {d d' : Directory}
  {conv : ConversationSurface}

/-- What holds after every step, of a manager in front of what was `stored` at first. -/
structure Sound (newId : ℕ → ConversationId) (stored : Conversations) (d : Directory) :
    Prop where
  /-- What the index names is registered. -/
  indexed : ∀ key conv_id, d.channel_user_index.lookup key = some conv_id →
    ∃ cell conv, d.conversations.lookup conv_id = some cell ∧ d.cells[cell]? = some conv ∧
      conv.id = conv_id ∧ conv.key = key
  /-- What is registered is named by the index. -/
  registered : ∀ conv_id ∈ d.conversations, ∃ conv ∈ d.cells, conv.id = conv_id ∧
    d.channel_user_index.lookup conv.key = some conv_id
  /-- A mutex was made for a stored conversation or a new one, and the index has its key. -/
  made : ∀ conv ∈ d.cells, (conv ∈ stored ∨ ∃ n < d.drawn, conv.id = newId n) ∧
    conv.key ∈ d.channel_user_index
  one_cell : (d.cells.map ConversationSurface.key).Nodup
  /-- What was stored still is. -/
  keeps : ∀ conv ∈ stored, conv ∈ d.stored
  /-- What is stored was so at first or is named by the index. -/
  saved : ∀ conv ∈ d.stored, conv ∈ stored ∨ conv.key ∈ d.channel_user_index
  /-- The index names what is stored. -/
  agrees : ∀ conv ∈ d.stored, ∀ conv_id,
    d.channel_user_index.lookup conv.key = some conv_id → conv.id = conv_id

/-- The index only grows. -/
def IndexGrows (d d' : Directory) : Prop := ∀ key conv_id,
  d.channel_user_index.lookup key = some conv_id → d'.channel_user_index.lookup key = some conv_id

theorem sound_new (now : Time) : Sound newId stored (new stored now) where
  indexed _ _ h := nomatch h
  registered _ h := nomatch h
  made _ h := nomatch h
  one_cell := List.nodup_nil
  keeps _ := id
  saved _ := .inl
  agrees _ _ _ h := nomatch h

theorem mem_of_lookup {α β : Type} [DecidableEq α] {s : AList fun _ : α => β} {a : α} {b : β}
    (h : s.lookup a = some b) : a ∈ s :=
  AList.lookup_isSome.mp (Option.isSome_iff_exists.mpr ⟨b, h⟩)

theorem indexGrows_register (h : conv.key ∉ d.channel_user_index) :
    d.IndexGrows (d.register conv.key conv) := by
  intro key conv_id hkey
  refine (AList.lookup_insert_ne ?_).trans hkey
  rintro rfl
  exact h (mem_of_lookup hkey)

/-- A conversation is registered under a key nobody has, with an id nobody has. -/
theorem Sound.register (h : d.Sound newId stored) (hkey : conv.key ∉ d.channel_user_index)
    (hid : conv.id ∉ d.conversations)
    (hmade : conv ∈ stored ∨ ∃ n < d.drawn, conv.id = newId n)
    (hagrees : ∀ other ∈ d.stored, other.key = conv.key → other.id = conv.id) :
    (d.register conv.key conv).Sound newId stored := by
  -- the registered key is new, so no other entry of the index moves
  have hgrows := indexGrows_register hkey
  have hself : (d.register conv.key conv).channel_user_index.lookup conv.key = some conv.id :=
    AList.lookup_insert _
  constructor
  · intro key conv_id hlookup
    by_cases hk : key = conv.key
    · subst hk
      obtain rfl := Option.some.inj (hself.symm.trans hlookup)
      exact ⟨d.cells.length, conv, AList.lookup_insert _, List.getElem?_concat_length, rfl, rfl⟩
    · obtain ⟨cell, other, hcell, hother, hoid, hokey⟩ :=
        h.indexed key conv_id ((AList.lookup_insert_ne hk).symm.trans hlookup)
      refine ⟨cell, other, (AList.lookup_insert_ne ?_).trans hcell, ?_, hoid, hokey⟩
      · rintro rfl
        exact hid (mem_of_lookup hcell)
      · exact (List.getElem?_append_left (List.getElem?_eq_some_iff.mp hother).1).trans hother
  · intro conv_id hmem
    obtain rfl | hmem := (AList.mem_insert _).mp hmem
    · exact ⟨conv, List.mem_append_right _ List.mem_cons_self, rfl, hself⟩
    · obtain ⟨other, hother, hoid, hokey⟩ := h.registered conv_id hmem
      exact ⟨other, List.mem_append_left _ hother, hoid, hgrows _ _ hokey⟩
  · intro other hother
    obtain hother | hother := List.mem_append.mp hother
    · exact ⟨(h.made other hother).1, (AList.mem_insert _).mpr (.inr (h.made other hother).2)⟩
    · obtain rfl := List.mem_singleton.mp hother
      exact ⟨hmade, (AList.mem_insert _).mpr (.inl rfl)⟩
  · change ((d.cells ++ [conv]).map ConversationSurface.key).Nodup
    rw [List.map_append, List.nodup_append_comm]
    refine List.nodup_cons.mpr ⟨fun hmem => ?_, h.one_cell⟩
    obtain ⟨other, hother, hokey⟩ := List.mem_map.mp hmem
    exact hkey (hokey ▸ (h.made other hother).2)
  · exact h.keeps
  · intro other hother
    exact (h.saved other hother).imp_right fun hk => (AList.mem_insert _).mpr (.inr hk)
  · intro other hother conv_id hlookup
    by_cases hk : other.key = conv.key
    · rw [hk] at hlookup
      exact (hagrees other hother hk).trans (Option.some.inj (hself.symm.trans hlookup))
    · exact h.agrees other hother conv_id ((AList.lookup_insert_ne hk).symm.trans hlookup)

/-- What is stored at first, and not in the index, is not registered. -/
theorem Sound.notMem_of_stored (h : d.Sound newId stored) (hfresh : FreshIds newId stored)
    (hkey : conv.key ∉ d.channel_user_index) (hstored : conv ∈ stored) :
    conv.id ∉ d.conversations := by
  intro hmem
  obtain ⟨other, hother, hid, hlookup⟩ := h.registered _ hmem
  obtain hin | ⟨n, -, hn⟩ := (h.made other hother).1
  · rw [KeyedStore.eq_of_mem hin hstored hid] at hlookup
    exact hkey (mem_of_lookup hlookup)
  · exact hfresh.unused n conv hstored (hid.symm.trans hn)

theorem Sound.adopt (h : d.Sound newId stored) (hfresh : FreshIds newId stored)
    (hkey : conv.key ∉ d.channel_user_index) (hstored : conv ∈ stored) :
    (d.register conv.key conv).Sound newId stored := by
  refine h.register hkey (h.notMem_of_stored hfresh hkey hstored) (.inl hstored)
    fun other hother hk => ?_
  obtain hin | hindexed := h.saved other hother
  · rw [hfresh.one other hin conv hstored hk]
  · exact absurd (hk ▸ hindexed) hkey

/-- A new conversation can be registered where nothing was stored at first. -/
theorem Sound.create (h : d.Sound newId stored) (hfresh : FreshIds newId stored)
    {channel user_id : String} (hkey : (channel, user_id) ∉ d.channel_user_index)
    (hnone : ∀ conv ∈ stored, conv.key ≠ (channel, user_id)) :
    ({ d with drawn := d.drawn + 1 }.register (channel, user_id)
      (.new (newId d.drawn) d.now channel user_id)).Sound newId stored := by
  have hdrawn : Sound newId stored { d with drawn := d.drawn + 1 } := by
    refine ⟨h.indexed, h.registered, fun conv hconv => ?_, h.one_cell, h.keeps, h.saved,
      h.agrees⟩
    refine (h.made conv hconv).imp_left (Or.imp_right fun ⟨n, hn, hid⟩ => ?_)
    exact ⟨n, Nat.lt_succ_of_lt hn, hid⟩
  refine hdrawn.register hkey (fun hmem => ?_) (.inr ⟨d.drawn, Nat.lt_succ_self _, rfl⟩)
    fun other hother hk => ?_
  · obtain ⟨other, hother, hid, -⟩ := h.registered _ hmem
    obtain hin | ⟨n, hn, hother⟩ := (h.made other hother).1
    · exact hfresh.unused d.drawn other hin hid
    · have heq := hfresh.injective (hother.symm.trans hid)
      omega
  · obtain hin | hindexed := h.saved other hother
    · exact absurd hk (hnone other hin)
    · rw [hk] at hindexed
      exact absurd hindexed hkey

/-- What the index names can be saved. -/
theorem Sound.save (h : d.Sound newId stored)
    (hlookup : d.channel_user_index.lookup conv.key = some conv.id)
    (hnew : ∀ other ∈ stored, other.id ≠ conv.id) :
    Sound newId stored { d with stored := d.stored.insert conv } := by
  refine ⟨h.indexed, h.registered, h.made, h.one_cell, fun other hother => ?_,
    fun other hother => ?_, fun other hother conv_id hid => ?_⟩
  · exact KeyedStore.mem_insert.mpr (.inr ⟨h.keeps other hother, hnew other hother⟩)
  · obtain rfl | ⟨hother, -⟩ := KeyedStore.mem_insert.mp hother
    · exact .inr (mem_of_lookup hlookup)
    · exact h.saved other hother
  · obtain rfl | ⟨hother, -⟩ := KeyedStore.mem_insert.mp hother
    · exact Option.some.inj (hlookup.symm.trans hid)
    · exact h.agrees other hother conv_id hid

/-- What a listing tells of a conversation, and what stays true of it. -/
def Listed (stored : Conversations) (d : Directory) (conv : ConversationSurface) : Prop :=
  conv ∈ stored ∨ d.channel_user_index.lookup conv.key = some conv.id

theorem Sound.listed (h : d.Sound newId stored) (hconv : conv ∈ d.stored) :
    d.Listed stored conv := by
  refine (h.saved conv hconv).imp_right fun hmem => ?_
  obtain ⟨conv_id, hid⟩ := Option.isSome_iff_exists.mp (AList.lookup_isSome.mpr hmem)
  rw [hid, h.agrees conv hconv conv_id hid]

theorem Listed.mono (h : d.Listed stored conv) (hgrows : d.IndexGrows d') :
    d'.Listed stored conv :=
  h.imp_right (hgrows _ _)

/-- A listed conversation that the index does not name was stored at first and is not
registered. -/
theorem Listed.mem_stored (h : d.Listed stored conv) (hkey : conv.key ∉ d.channel_user_index) :
    conv ∈ stored :=
  h.resolve_right fun hlookup => hkey (mem_of_lookup hlookup)

/-- A listed conversation whose key is in the index is the one the index names, and is
registered. -/
theorem Sound.mem_of_listed (h : d.Sound newId stored) (hlisted : d.Listed stored conv)
    (hkey : conv.key ∈ d.channel_user_index) :
    d.channel_user_index.lookup conv.key = some conv.id ∧ conv.id ∈ d.conversations := by
  obtain ⟨conv_id, hid⟩ := Option.isSome_iff_exists.mp (AList.lookup_isSome.mpr hkey)
  have hname : d.channel_user_index.lookup conv.key = some conv.id := by
    obtain hin | hname := hlisted
    · rw [hid, h.agrees conv (h.keeps conv hin) conv_id hid]
    · exact hname
  obtain ⟨cell, -, hcell, -⟩ := h.indexed _ _ hname
  exact ⟨hname, mem_of_lookup hcell⟩

/-- One listed conversation of `bootstrap_user`: it is registered unless the index has it. -/
theorem Sound.bootstrapOne (h : d.Sound newId stored) (hfresh : FreshIds newId stored)
    (hlisted : d.Listed stored conv) (n : ℕ) :
    (Directory.bootstrapOne (n, d) conv).2.Sound newId stored ∧
      d.IndexGrows (Directory.bootstrapOne (n, d) conv).2 := by
  by_cases hkey : conv.key ∈ d.channel_user_index
  · have hsame : Directory.bootstrapOne (n, d) conv = (n, d) := by
      rw [Directory.bootstrapOne, if_pos (h.mem_of_listed hlisted hkey).2, if_pos hkey]
    rw [hsame]
    exact ⟨h, fun _ _ => id⟩
  · have hstored := hlisted.mem_stored hkey
    rw [Directory.bootstrapOne, if_neg (h.notMem_of_stored hfresh hkey hstored)]
    exact ⟨h.adopt hfresh hkey hstored, indexGrows_register hkey⟩

theorem Sound.bootstrap (h : d.Sound newId stored) (hfresh : FreshIds newId stored)
    {convs : List ConversationSurface} (hlisted : ∀ conv ∈ convs, d.Listed stored conv)
    (n : ℕ) : (convs.foldl Directory.bootstrapOne (n, d)).2.Sound newId stored ∧
      d.IndexGrows (convs.foldl Directory.bootstrapOne (n, d)).2 := by
  induction convs generalizing d n with
  | nil => exact ⟨h, fun _ _ => id⟩
  | cons conv convs ih =>
    obtain ⟨hone, hgrows⟩ := h.bootstrapOne hfresh (hlisted conv List.mem_cons_self) n
    have hrest := ih hone (fun other hother =>
      (hlisted other (List.mem_cons_of_mem _ hother)).mono hgrows)
      (Directory.bootstrapOne (n, d) conv).1
    exact ⟨hrest.1, fun key conv_id hlookup => hrest.2 _ _ (hgrows _ _ hlookup)⟩

end Directory

/-! ### The calls keep to it -/

/-- The rules between the calls: the directory stays sound, the index only grows. -/
def directoryProtocol (newId : ℕ → ConversationId) (stored : Conversations) :
    Protocol ConversationCall ConversationInstr Directory where
  inv m := m.state.Sound newId stored
  later m m' := m.state.IndexGrows m'.state
  allowed _ _ _ _ := True
  later_refl _ _ _ := id
  later_trans h h' key conv_id hlookup := h' key conv_id (h key conv_id hlookup)

/-- What a call answers when it is done. -/
def Answers : ConversationCall → ConversationResult → Directory → Prop
  | .getOrCreateConversation channel user_id, .got (.ok conv_id), d =>
    d.channel_user_index.lookup (channel, user_id) = some conv_id
  | .bootstrapUser _, .bootstrapped (.ok _), _ => True
  | _, _, _ => False

theorem Answers.got {channel user_id : String} {result : ConversationResult} {d : Directory}
    (h : Answers (.getOrCreateConversation channel user_id) result d) : ∃ conv_id,
      result = .got (.ok conv_id) ∧
        d.channel_user_index.lookup (channel, user_id) = some conv_id := by
  rcases result with _ | e | conv_id
  · exact h.elim
  · exact h.elim
  · exact ⟨conv_id, rfl, h⟩

section Calls

variable {store : ConversationStore} {newId : ℕ → ConversationId} {stored : Conversations}
  {call : ConversationCall} {k : ℕ} {channel user_id : String}
  {m : Memory ConversationInstr Directory}

/-- A call for a new conversation, made where nothing was stored at first. -/
theorem safe_create (hreliable : store.Reliable) (hfresh : FreshIds newId stored)
    (hnone : ∀ conv ∈ stored, conv.key ≠ (channel, user_id)) :
    (directoryProtocol newId stored).Safe (directorySystem store newId).toMachine
      (.getOrCreateConversation channel user_id) k
      (fun result m => Answers (.getOrCreateConversation channel user_id) result m.state)
      (createConversation channel user_id) m := by
  refine Protocol.safe_act fun m' _ hinv _ => ?_
  cases hlookup : m'.state.channel_user_index.lookup (channel, user_id) with
  | some existing_id =>
    refine ⟨.inl existing_id, m'.state, ?_, hinv, fun _ _ => id, hlookup⟩
    change Directory.exec store newId (.create channel user_id) m'.state = _
    rw [Directory.exec, hlookup]
  | none =>
    have hkey := AList.lookup_eq_none.mp hlookup
    set conv := ConversationSurface.new (newId m'.state.drawn) m'.state.now channel user_id
    have hsound := hinv.create hfresh hkey hnone
    let d : Directory := { m'.state with drawn := m'.state.drawn + 1 }
    refine ⟨.inr conv, d.register (channel, user_id) conv, ?_, hsound, ?_, ?_⟩
    · change Directory.exec store newId (.create channel user_id) m'.state = _
      rw [Directory.exec, hlookup]
    · have hgrows : m'.state.IndexGrows (d.register conv.key conv) :=
        Directory.indexGrows_register hkey
      exact hgrows
    · -- now the index names the new conversation, and goes on doing so
      refine Protocol.safe_act fun m'' hgrown hinv' _ => ?_
      have hnamed : m''.state.channel_user_index.lookup conv.key = some conv.id :=
        hgrown.1 _ _ (AList.lookup_insert _)
      refine ⟨.ok (), { m''.state with stored := m''.state.stored.insert conv }, ?_,
        Directory.Sound.save hinv' hnamed fun other hother =>
          hfresh.unused m'.state.drawn other hother, fun _ _ => id, hnamed⟩
      change Directory.exec store newId (.saveConversation conv) m''.state = _
      rw [Directory.exec, hreliable.saves]

/-- A call that takes up a listed conversation. -/
theorem safe_adopt (hfresh : FreshIds newId stored) {conv : ConversationSurface}
    (hlisted : m.state.Listed stored conv) (hkey : conv.key = (channel, user_id)) :
    (directoryProtocol newId stored).Safe (directorySystem store newId).toMachine
      (.getOrCreateConversation channel user_id) k
      (fun result m => Answers (.getOrCreateConversation channel user_id) result m.state)
      ((ConversationInstr.adopt (channel, user_id) conv).act >>= fun conv_id =>
        pure (.got (.ok conv_id))) m := by
  refine Protocol.safe_act fun m' hgrown hinv _ => ?_
  have hlisted' := hlisted.mono hgrown.1
  rw [← hkey]
  cases hlookup : m'.state.channel_user_index.lookup conv.key with
  | some existing_id =>
    refine ⟨existing_id, m'.state, ?_, hinv, fun _ _ => id, ?_⟩
    · change Directory.exec store newId (.adopt conv.key conv) m'.state = _
      rw [Directory.exec, hlookup]
    · rw [hkey] at hlookup
      exact hlookup
  | none =>
    have habsent := AList.lookup_eq_none.mp hlookup
    have hsound := hinv.adopt hfresh habsent (hlisted'.mem_stored habsent)
    refine ⟨conv.id, m'.state.register conv.key conv, ?_, hsound,
      Directory.indexGrows_register habsent, ?_⟩
    · change Directory.exec store newId (.adopt conv.key conv) m'.state = _
      rw [Directory.exec, hlookup]
    · have hnamed : (m'.state.register conv.key conv).channel_user_index.lookup conv.key =
          some conv.id := AList.lookup_insert _
      rw [hkey] at hnamed ⊢
      exact hnamed

theorem safe_getOrCreateConversation (hreliable : store.Reliable)
    (hfresh : FreshIds newId stored) :
    (directoryProtocol newId stored).Safe (directorySystem store newId).toMachine
      (.getOrCreateConversation channel user_id) k
      (fun result m => Answers (.getOrCreateConversation channel user_id) result m.state)
      (getOrCreateConversation channel user_id) m := by
  refine Protocol.safe_act fun m' _ hinv _ => ⟨_, m'.state, rfl, hinv, fun _ _ => id, ?_⟩
  cases hlookup : m'.state.channel_user_index.lookup (channel, user_id) with
  | some conv_id => exact hlookup
  | none =>
    refine Protocol.safe_act fun m'' _ hinv _ => ?_
    obtain ⟨convs, hconvs, hmem⟩ := hreliable.lists user_id m''.state.stored
    refine ⟨.ok convs, m''.state, ?_, hinv, fun _ _ => id, ?_⟩
    · change Directory.exec store newId (.listConversations user_id) m''.state = _
      rw [Directory.exec, hconvs]
    change Protocol.Safe _ _ _ _ _ (adoptOrCreate channel user_id convs) _
    rw [adoptOrCreate]
    cases hfind : convs.find? fun conv => conv.channel = channel with
    | some conv =>
      obtain ⟨hstored, huser⟩ := (hmem conv).mp (List.mem_of_find?_eq_some hfind)
      have hchannel : conv.channel = channel := by simpa using List.find?_some hfind
      exact safe_adopt hfresh (Directory.Sound.listed hinv hstored)
        (Prod.ext hchannel huser)
    | none =>
      refine safe_create hreliable hfresh fun conv hconv hkey => ?_
      obtain ⟨hchannel, huser⟩ := Prod.mk.inj hkey
      have hlisted := (hmem conv).mpr ⟨hinv.keeps conv hconv, huser⟩
      exact List.find?_eq_none.mp hfind conv hlisted (decide_eq_true hchannel)

theorem safe_bootstrapUser (hreliable : store.Reliable) (hfresh : FreshIds newId stored) :
    (directoryProtocol newId stored).Safe (directorySystem store newId).toMachine
      (.bootstrapUser user_id) k
      (fun result m => Answers (.bootstrapUser user_id) result m.state)
      (bootstrapUser user_id) m := by
  refine Protocol.safe_act fun m' _ hinv _ => ?_
  obtain ⟨convs, hconvs, hmem⟩ := hreliable.lists user_id m'.state.stored
  refine ⟨.ok convs, m'.state, ?_, hinv, fun _ _ => id, ?_⟩
  · change Directory.exec store newId (.listConversations user_id) m'.state = _
    rw [Directory.exec, hconvs]
  refine Protocol.safe_act fun m'' hgrown hinv' _ => ?_
  have hlisted : ∀ conv ∈ convs, m''.state.Listed stored conv := fun conv hconv =>
    (Directory.Sound.listed hinv ((hmem conv).mp hconv).1).mono hgrown.1
  have hboot := Directory.Sound.bootstrap hinv' hfresh hlisted 0
  exact ⟨_, _, rfl, hboot.1, hboot.2, trivial⟩

end Calls

/-- **All calls for a channel and user agree on the conversation**, whatever the interleaving. -/
theorem conversations_agree {store : ConversationStore} {newId : ℕ → ConversationId}
    {stored : Conversations} {now : Time} {c : DirectoryConf} (hreliable : store.Reliable)
    (hfresh : FreshIds newId stored)
    (hrun : (directorySystem store newId).Reach (fun _ _ => True)
      (.idle (.new stored now)) c) : Agreed c := by
  have hcall : ∀ (call : ConversationCall) (k : ℕ) (m : Memory ConversationInstr Directory),
      (directoryProtocol newId stored).Safe (directorySystem store newId).toMachine call k
        (fun result m => Answers call result m.state) call.code m := by
    intro call k m
    cases call with
    | bootstrapUser user_id => exact safe_bootstrapUser hreliable hfresh
    | getOrCreateConversation channel user_id =>
      exact safe_getOrCreateConversation hreliable hfresh
  have hkept : ∀ (call : ConversationCall) (result : ConversationResult) (d d' : Directory),
      Answers call result d → d.IndexGrows d' → Answers call result d' := by
    intro call result d d' hanswers hgrows
    unfold Answers at hanswers ⊢
    split at hanswers
    · exact hgrows _ _ hanswers
    · trivial
    · exact hanswers.elim
  have hclock : ∀ (d : Directory) (seconds : ℕ), d.Sound newId stored →
      Directory.Sound newId stored { d with now := d.now + seconds } := fun d seconds h =>
    ⟨h.indexed, h.registered, h.made, h.one_cell, h.keeps, h.saved, h.agrees⟩
  -- every section keeps the directory sound and what answered calls rely on
  obtain ⟨hsound, htasks⟩ := System.Reach.safe (P := directoryProtocol newId stored)
    (Q := fun call _ result m => Answers call result m.state)
    (fun call k result m m' hanswers hgrown => hkept call result _ _ hanswers hgrown.1)
    (fun _ _ _ _ _ _ _ => trivial)
    (fun c seconds d hinv _ hd => by
      obtain rfl := Option.some.inj hd
      exact ⟨hclock _ seconds hinv, fun _ _ => id⟩)
    (fun c call d hinv _ hd => by
      obtain rfl := Option.some.inj hd
      exact ⟨hinv, fun _ _ => id, fun k => hcall call k _⟩)
    (by exact Directory.sound_new now) hrun
  refine ⟨fun channel user_id => ?_, hsound.one_cell, hsound.indexed⟩
  have hdone : ∀ result,
      ⟨.getOrCreateConversation channel user_id, .done result⟩ ∈ c.tasks → ∃ conv_id,
        result = .got (.ok conv_id) ∧
          c.state.channel_user_index.lookup (channel, user_id) = some conv_id := by
    intro result hmem
    obtain ⟨k, hk⟩ := List.mem_iff_getElem?.mp hmem
    exact Answers.got (htasks k _ hk)
  cases hlookup : c.state.channel_user_index.lookup (channel, user_id) with
  | some conv_id =>
    refine ⟨conv_id, fun result hmem => ?_⟩
    obtain ⟨other, hresult, hother⟩ := hdone result hmem
    rw [hresult, Option.some.inj (hlookup.symm.trans hother)]
  | none =>
    refine ⟨newId 0, fun result hmem => ?_⟩
    obtain ⟨other, -, hother⟩ := hdone result hmem
    exact nomatch hlookup.symm.trans hother

/-- The store that keeps everything in memory. -/
def mapStore : ConversationStore where
  list_conversations user_id stored :=
    .ok (stored.values.filter fun conv => conv.user_id = user_id)
  save_conversation conv stored := .ok (stored.insert conv)

theorem mapStore_reliable : mapStore.Reliable where
  lists user_id stored := ⟨_, rfl, fun conv => by simp [KeyedStore.mem_def]⟩
  saves _ _ := rfl

/-- Two first logins of one user: both find nothing stored before either has registered. -/
def firstLogins : List (Move ConversationCall ℕ) :=
  [.start (.getOrCreateConversation "web" "ada"), .start (.getOrCreateConversation "web" "ada"),
    .step 0, .step 1, .step 0, .step 1, .step 0, .step 1, .step 0]

/-- The theorem on them. -/
theorem conversations_agree_first_logins : ∃ c,
    (directorySystem mapStore fun n => ⟨n⟩).play (.idle (.new .empty 0)) firstLogins =
        some c ∧
      c.state.cells.length = 1 ∧ Agreed c := by
  have hfresh : FreshIds (fun n => ⟨n⟩) .empty := by
    refine ⟨fun _ _ h => ConversationId.mk.inj h, fun _ conv h => ?_, fun conv h => ?_⟩
    · cases h
    · cases h
  have hallowed : (directorySystem mapStore fun n => ⟨n⟩).Allowed (fun _ _ => True)
      (.idle (.new .empty 0)) firstLogins :=
    ⟨trivial, trivial, trivial, trivial, trivial, trivial, trivial, trivial, trivial, trivial⟩
  exact ⟨_, rfl, rfl, conversations_agree mapStore_reliable hfresh
    (System.Reach.init.of_play hallowed rfl)⟩

end T3Claw
