import Nio.Rooms.MatrixRoom
import Nio.Events.EventParsing

/-!
# The state of a room

`MatrixRoom.handle_event` on the state events of a room. The protocol keys the state of a room by
the type and the state key of an event; the room keeps one value for each type that it knows.

* `StateRoom.handleEvent` — what an event does
* `lastOf` — the last event of each type and state key
* `RoomFields`, `specified` — the fields as a function of the last events
-/

namespace Nio.Rooms

open Nio.Py
open Nio.Events (RoomEvent RoomEventClass EventFields)

/-! ## The room -/

structure StateLevels where
  defaults : Events.DefaultLevels
  users : List (Str × Json)
  events : List (Str × Json)
  creators : List Json

/-- `PowerLevels()` -/
def StateLevels.new : StateLevels :=
  ⟨⟨.int 50, .int 50, .int 50, .int 50, .int 0, .int 0, .int 0, .obj [(py "room", .int 50)]⟩,
    [], [], []⟩

/-- What the state events of a room change. -/
structure StateRoom where
  federate : Json
  roomVersion : Json
  roomType : Option Json
  guestAccess : Json
  joinRule : Json
  historyVisibility : Json
  canonicalAlias : Option Json
  topic : Option Json
  name : Option Json
  parents : List Json
  children : List Json
  /-- The power level of each user in the room -/
  members : List (Str × Json)
  encrypted : Bool
  powerLevels : StateLevels
  roomAvatarUrl : Option Json
  replacementRoom : Option Json
  creators : List Json

namespace StateRoom

/-- A room without state, with the users that it has -/
def new (encrypted : Bool) (members : List (Str × Json)) : StateRoom where
  federate := .bool true
  roomVersion := .str (py "1")
  roomType := none
  guestAccess := .str (py "forbidden")
  joinRule := .str (py "invite")
  historyVisibility := .str (py "shared")
  canonicalAlias := none
  topic := none
  name := none
  parents := []
  children := []
  members
  encrypted
  powerLevels := .new
  roomAvatarUrl := none
  replacementRoom := none
  creators := []

/-- `supports_room_version_12`; a version is a string. -/
def supportsVersion12 : Json → Bool
  | .str version => MatrixRoom.supportsRoomVersion12 version
  | _ => false

/-- `set(event.additional_creators)` with the sender -/
def creatorsOf (sender additionalCreators : Json) : List Json :=
  match additionalCreators with
  | .arr others => (sender :: others).dedup
  | _ => [sender]

/-- `dict.update` -/
def dictUpdate (d : List (Str × Json)) : Json → List (Str × Json)
  | .obj kvs => kvs.foldl (fun d p => dictSet d p.1 p.2) d
  | _ => d

/-- `PowerLevels.update`, which leaves the creators alone -/
def updateLevels (levels : StateLevels) (new : Events.PowerLevels) : StateLevels :=
  { levels with
    defaults := new.defaults
    events := dictUpdate levels.events new.events
    users := dictUpdate levels.users new.users }

/-- The levels of the users that are in the room -/
def updateMembers (members levels : List (Str × Json)) : List (Str × Json) :=
  levels.foldl (fun members p =>
    if (dictGet? members p.1).isSome then dictSet members p.1 p.2 else members) members

/-- `"via" in event.source.get("content", {})` -/
def hasVia (source : Json) : Bool :=
  ((source.get? (py "content")).bind (·.get? (py "via"))).isSome

/-- `add` for an event with a `via`, and `discard` for one without -/
def updateSpace (rooms : List Json) (stateKey : Json) (via : Bool) : List Json :=
  if via then rooms.insert stateKey else rooms.filter (· ≠ stateKey)

/-- `handle_event` for one class of events -/
def handleClass (room : StateRoom) (event : EventFields) : RoomEventClass → StateRoom
  | .roomCreate federate roomVersion roomType additionalCreators =>
    let room := { room with federate, roomVersion, roomType := some roomType }
    if supportsVersion12 roomVersion then
      let creators := creatorsOf event.sender additionalCreators
      { room with creators, powerLevels := { room.powerLevels with creators } }
    else room
  | .roomGuestAccess guestAccess => { room with guestAccess }
  | .roomHistoryVisibility historyVisibility => { room with historyVisibility }
  | .roomJoinRules joinRule => { room with joinRule }
  | .roomName name => { room with name := some name }
  | .roomAlias canonicalAlias => { room with canonicalAlias }
  | .roomTopic topic => { room with topic := some topic }
  | .roomAvatar avatarUrl => { room with roomAvatarUrl := avatarUrl }
  | .roomEncryption => { room with encrypted := true }
  | .roomUpgrade _ replacementRoom => { room with replacementRoom := some replacementRoom }
  | .powerLevels levels =>
    let powerLevels := updateLevels room.powerLevels levels
    { room with powerLevels, members := updateMembers room.members powerLevels.users }
  | .roomSpaceParent stateKey _ =>
    { room with parents := updateSpace room.parents stateKey (hasVia event.source) }
  | .roomSpaceChild stateKey _ =>
    { room with children := updateSpace room.children stateKey (hasVia event.source) }
  | _ => room

/-- `handle_event` -/
def handleEvent (room : StateRoom) : RoomEvent → StateRoom
  | .bad _ _ => room
  | .event event cls _ => room.handleClass event cls

def run (room : StateRoom) (events : List RoomEvent) : StateRoom := events.foldl handleEvent room

end StateRoom

/-! ## Types and state keys -/

/-- The types of state events that a room keeps -/
inductive StateType where
  | create
  | guestAccess
  | historyVisibility
  | joinRules
  | name
  | canonicalAlias
  | topic
  | avatar
  | encryption
  | tombstone
  | powerLevels
  | spaceParent
  | spaceChild
  deriving DecidableEq, Repr

/-- A room has one parent or child for each state key. -/
def StateType.isSpace : StateType → Bool
  | .spaceParent | .spaceChild => true
  | _ => false

def stateType? : RoomEventClass → Option StateType
  | .roomCreate .. => some .create
  | .roomGuestAccess _ => some .guestAccess
  | .roomHistoryVisibility _ => some .historyVisibility
  | .roomJoinRules _ => some .joinRules
  | .roomName _ => some .name
  | .roomAlias _ => some .canonicalAlias
  | .roomTopic _ => some .topic
  | .roomAvatar _ => some .avatar
  | .roomEncryption => some .encryption
  | .roomUpgrade .. => some .tombstone
  | .powerLevels _ => some .powerLevels
  | .roomSpaceParent .. => some .spaceParent
  | .roomSpaceChild .. => some .spaceChild
  | _ => none

/-- The type and the state key of a state event -/
def pairOf : RoomEvent → Option (StateType × Str)
  | .bad _ _ => none
  | .event event cls _ => do
    let type ← stateType? cls
    match event.source.get? (py "state_key") with
    | some (.str key) => some (type, key)
    | _ => none

/-- The last event of a type and state key -/
def lastOf (events : List RoomEvent) (pair : StateType × Str) : Option RoomEvent :=
  events.reverse.find? fun e => pairOf e = some pair

theorem lastOf_append (events : List RoomEvent) (e : RoomEvent) (pair : StateType × Str) :
    lastOf (events ++ [e]) pair = if pairOf e = some pair then some e else lastOf events pair := by
  unfold lastOf
  rw [List.reverse_append, List.reverse_singleton, List.singleton_append, List.find?_cons]
  split
  next h => rw [if_pos (by simpa using h)]
  next h => rw [if_neg (by simpa using h)]

theorem mem_of_lastOf {events : List RoomEvent} {pair : StateType × Str} {e : RoomEvent}
    (h : lastOf events pair = some e) : e ∈ events ∧ pairOf e = some pair :=
  ⟨List.mem_reverse.mp (List.mem_of_find?_eq_some h), by simpa using List.find?_some h⟩

/-! ## Fields as a function of the last events -/

/-- The fields of a room; dictionaries and sets are compared by what they hold. -/
@[ext] structure RoomFields where
  federate : Json
  roomVersion : Json
  roomType : Option Json
  guestAccess : Json
  joinRule : Json
  historyVisibility : Json
  canonicalAlias : Option Json
  topic : Option Json
  name : Option Json
  encrypted : Bool
  roomAvatarUrl : Option Json
  replacementRoom : Option Json
  creators : List Json
  defaultLevels : Events.DefaultLevels
  levelCreators : List Json
  userLevel : Str → Option Json
  eventLevel : Str → Option Json
  memberLevel : Str → Option Json
  isParent : Str → Prop
  isChild : Str → Prop

def StateRoom.fields (room : StateRoom) : RoomFields where
  federate := room.federate
  roomVersion := room.roomVersion
  roomType := room.roomType
  guestAccess := room.guestAccess
  joinRule := room.joinRule
  historyVisibility := room.historyVisibility
  canonicalAlias := room.canonicalAlias
  topic := room.topic
  name := room.name
  encrypted := room.encrypted
  roomAvatarUrl := room.roomAvatarUrl
  replacementRoom := room.replacementRoom
  creators := room.creators
  defaultLevels := room.powerLevels.defaults
  levelCreators := room.powerLevels.creators
  userLevel := dictGet? room.powerLevels.users
  eventLevel := dictGet? room.powerLevels.events
  memberLevel := dictGet? room.members
  isParent key := .str key ∈ room.parents
  isChild key := .str key ∈ room.children

/-- The state that a protocol keeps: the last event of each type and state key -/
abbrev StateMap := StateType × Str → Option RoomEvent

namespace StateMap

variable (last : StateMap)

/-- What the event under the empty state key says, if there is one -/
def single {α : Type} (type : StateType) (read : EventFields → RoomEventClass → Option α) :
    Option α :=
  match last (type, []) with
  | some (.event event cls _) => read event cls
  | _ => none

/-- The last event of the state key has a `via`. -/
def via (type : StateType) (key : Str) : Prop :=
  match last (type, key) with
  | some (.event event _ _) => StateRoom.hasVia event.source = true
  | _ => False

/-- The levels that the power levels event sets, as the dictionary that it holds -/
def levels : Option Events.PowerLevels := last.single .powerLevels fun _ cls =>
  match cls with
  | .powerLevels levels => some levels
  | _ => none

/-- The level under a key of one of its dictionaries -/
def levelOf (read : Events.PowerLevels → Json) (key : Str) : Option Json :=
  last.levels.bind fun levels => dictGet? (StateRoom.dictUpdate [] (read levels)) key

/-- The creators of a room whose version knows them -/
def creators : List Json := (last.single .create fun event cls =>
  match cls with
  | .roomCreate _ roomVersion _ additionalCreators =>
    if StateRoom.supportsVersion12 roomVersion then
      some (StateRoom.creatorsOf event.sender additionalCreators)
    else none
  | _ => none).getD []

end StateMap

/-- The fields that the state of a room specifies -/
def specified (encrypted : Bool) (members : List (Str × Json)) (last : StateMap) : RoomFields where
  federate := (last.single .create fun _ cls =>
    match cls with | .roomCreate federate .. => some federate | _ => none).getD (.bool true)
  roomVersion := (last.single .create fun _ cls =>
    match cls with | .roomCreate _ version .. => some version | _ => none).getD (.str (py "1"))
  roomType := last.single .create fun _ cls =>
    match cls with | .roomCreate _ _ type _ => some type | _ => none
  guestAccess := (last.single .guestAccess fun _ cls =>
    match cls with | .roomGuestAccess access => some access | _ => none).getD (.str (py "forbidden"))
  joinRule := (last.single .joinRules fun _ cls =>
    match cls with | .roomJoinRules rule => some rule | _ => none).getD (.str (py "invite"))
  historyVisibility := (last.single .historyVisibility fun _ cls =>
    match cls with | .roomHistoryVisibility v => some v | _ => none).getD (.str (py "shared"))
  canonicalAlias := last.single .canonicalAlias fun _ cls =>
    match cls with | .roomAlias canonicalAlias => canonicalAlias | _ => none
  topic := last.single .topic fun _ cls =>
    match cls with | .roomTopic topic => some topic | _ => none
  name := last.single .name fun _ cls =>
    match cls with | .roomName name => some name | _ => none
  encrypted := encrypted || (last (.encryption, [])).isSome
  roomAvatarUrl := last.single .avatar fun _ cls =>
    match cls with | .roomAvatar url => url | _ => none
  replacementRoom := last.single .tombstone fun _ cls =>
    match cls with | .roomUpgrade _ replacement => some replacement | _ => none
  creators := last.creators
  defaultLevels := (last.levels.map (·.defaults)).getD StateLevels.new.defaults
  levelCreators := last.creators
  userLevel := last.levelOf (·.users)
  eventLevel := last.levelOf (·.events)
  memberLevel user := (dictGet? members user).map fun level =>
    (last.levelOf (·.users) user).getD level
  isParent := last.via .spaceParent
  isChild := last.via .spaceChild

/-! ## Events as the parser returns them -/

/-- A state event has a state key, and the fields that its schema checks. -/
def WellKeyed : RoomEvent → Prop
  | .bad _ _ => True
  | .event event cls _ => (stateType? cls).isSome →
    ∃ key, event.source.get? (py "state_key") = some (.str key) ∧
      match cls with
      | .roomSpaceParent stateKey _ | .roomSpaceChild stateKey _ => stateKey = .str key
      | _ => True

/-- The last events after one more event of a pair -/
theorem lastOf_update {events : List RoomEvent} {e : RoomEvent} {pair : StateType × Str}
    (h : pairOf e = some pair) :
    lastOf (events ++ [e]) = Function.update (lastOf events) pair (some e) := by
  funext p
  rw [lastOf_append, h, Function.update_apply]
  simp only [Option.some.injEq, eq_comm]

theorem lastOf_of_none {events : List RoomEvent} {e : RoomEvent} (h : pairOf e = none) :
    lastOf (events ++ [e]) = lastOf events := by
  funext p
  rw [lastOf_append, h, if_neg (by simp)]

/-! ## Dictionaries of levels -/

def keysOf : Json → List Str
  | .obj kvs => kvs.map (·.1)
  | _ => []

theorem dictGet?_foldl (kvs d : List (Str × Json)) (k : Str) :
    dictGet? (kvs.foldl (fun d p => dictSet d p.1 p.2) d) k =
      (dictGet? (kvs.foldl (fun d p => dictSet d p.1 p.2) []) k).or (dictGet? d k) := by
  induction kvs using List.reverseRecOn with
  | nil => simp [dictGet?]
  | append_singleton kvs p ih =>
    rw [List.foldl_concat, List.foldl_concat, dictGet?_dictSet, dictGet?_dictSet, ih]
    split
    · rfl
    · rfl

theorem dictGet?_dictUpdate (d : List (Str × Json)) (v : Json) (k : Str) :
    dictGet? (StateRoom.dictUpdate d v) k =
      (dictGet? (StateRoom.dictUpdate [] v) k).or (dictGet? d k) := by
  cases v with
  | obj kvs => exact dictGet?_foldl kvs d k
  | _ => simp [StateRoom.dictUpdate, dictGet?]

/-- The keys that an update sets. -/
theorem isSome_dictUpdate (v : Json) (k : Str) :
    (dictGet? (StateRoom.dictUpdate [] v) k).isSome ↔ k ∈ keysOf v := by
  cases v with
  | obj kvs =>
    simp only [StateRoom.dictUpdate, keysOf]
    induction kvs using List.reverseRecOn with
    | nil => simp [dictGet?]
    | append_singleton kvs p ih =>
      rw [List.foldl_concat, dictGet?_dictSet, List.map_append, List.mem_append, ← ih]
      split
      next h => simp [h]
      next h => simp [h]
  | _ => simp [StateRoom.dictUpdate, keysOf, dictGet?]

theorem nodup_dictUpdate {d : List (Str × Json)} (hd : (d.map (·.1)).Nodup) (v : Json) :
    ((StateRoom.dictUpdate d v).map (·.1)).Nodup := by
  cases v with
  | obj kvs =>
    simp only [StateRoom.dictUpdate]
    induction kvs using List.reverseRecOn with
    | nil => exact hd
    | append_singleton kvs p ih =>
      rw [List.foldl_concat]
      exact nodup_dictSet ih _ _
  | _ => exact hd

/-- The members take the levels that are listed for them. -/
theorem dictGet?_updateMembers {levels : List (Str × Json)} (hlevels : (levels.map (·.1)).Nodup)
    (members : List (Str × Json)) (user : Str) :
    dictGet? (StateRoom.updateMembers members levels) user =
      (dictGet? members user).map fun level => (dictGet? levels user).getD level := by
  unfold StateRoom.updateMembers
  induction levels generalizing members with
  | nil =>
    rw [List.foldl_nil]
    cases dictGet? members user <;> rfl
  | cons p levels ih =>
    rw [List.map_cons, List.nodup_cons] at hlevels
    rw [List.foldl_cons, ih hlevels.2, dictGet?_cons]
    by_cases hp : p.1 = user
    · -- the key does not come again
      have hnone : dictGet? levels user = none := dictGet?_eq_none_iff.mpr (hp ▸ hlevels.1)
      subst hp
      rw [if_pos rfl, hnone]
      split
      next h =>
        obtain ⟨level, hlevel⟩ := Option.isSome_iff_exists.mp h
        simp [dictGet?_dictSet, hlevel]
      next h => simp [Option.not_isSome_iff_eq_none.mp h]
    · rw [if_neg hp]
      split
      · rw [dictGet?_dictSet, if_neg (Ne.symm hp)]
      · rfl

/-! ## Runs -/

def levels? : RoomEvent → Option Events.PowerLevels
  | .event _ (.powerLevels levels) _ => some levels
  | _ => none

/-- Whether a create event names creators, if it is one -/
def namesCreators? : RoomEvent → Option Bool
  | .event _ (.roomCreate _ roomVersion _ _) _ => some (StateRoom.supportsVersion12 roomVersion)
  | _ => none

/-- A later event of the same type takes nothing back that the room keeps of an earlier one. -/
structure Keeps (earlier later : RoomEvent) : Prop where
  creators : namesCreators? earlier = some true → namesCreators? later ≠ some false
  users : ∀ l l', levels? earlier = some l → levels? later = some l' →
    keysOf l.users ⊆ keysOf l'.users
  events : ∀ l l', levels? earlier = some l → levels? later = some l' →
    keysOf l.events ⊆ keysOf l'.events

/-- Only spaces have several state keys, and later events keep what earlier events have listed. -/
structure Conforms (events : List RoomEvent) : Prop where
  keys : ∀ e ∈ events, ∀ type key, pairOf e = some (type, key) → type.isSpace = false → key = []
  keeps : events.Pairwise Keeps

theorem Conforms.init {events : List RoomEvent} {e : RoomEvent} (h : Conforms (events ++ [e])) :
    Conforms events :=
  ⟨fun e' he => h.keys e' (List.mem_append_left _ he), (List.pairwise_append.mp h.keeps).1⟩

theorem Conforms.last {events : List RoomEvent} {e e' : RoomEvent} (h : Conforms (events ++ [e]))
    (he' : e' ∈ events) : Keeps e' e :=
  (List.pairwise_append.mp h.keeps).2.2 e' he' e (List.mem_singleton_self e)

theorem run_concat (room : StateRoom) (events : List RoomEvent) (e : RoomEvent) :
    room.run (events ++ [e]) = (room.run events).handleEvent e := by
  unfold StateRoom.run
  rw [List.foldl_concat]

/-- The users of the power levels are a dictionary. -/
theorem nodup_users (encrypted : Bool) (members : List (Str × Json)) (events : List RoomEvent) :
    ((((StateRoom.new encrypted members).run events).powerLevels.users).map (·.1)).Nodup := by
  induction events using List.reverseRecOn with
  | nil => exact List.nodup_nil
  | append_singleton events e ih =>
    rw [run_concat]
    cases e with
    | bad source tx => exact ih
    | event event cls tx =>
      cases cls with
      | roomCreate federate version type additional =>
        simp only [StateRoom.handleEvent, StateRoom.handleClass]
        split <;> exact ih
      | powerLevels levels => exact nodup_dictUpdate ih _
      | _ => exact ih

/-- The levels of one kind are those of the last event, if it lists what earlier events listed. -/
theorem levelOf_update {events : List RoomEvent} {e : RoomEvent} {levels : Events.PowerLevels}
    (he : levels? e = some levels) (read : Events.PowerLevels → Json)
    (hkeeps : ∀ e' ∈ events, ∀ l, levels? e' = some l → keysOf (read l) ⊆ keysOf (read levels))
    (key : Str) :
    (dictGet? (StateRoom.dictUpdate [] (read levels)) key).or
        (StateMap.levelOf (lastOf events) read key) =
      StateMap.levelOf (Function.update (lastOf events) (.powerLevels, []) (some e)) read key := by
  have hnew : StateMap.levels (Function.update (lastOf events) (.powerLevels, []) (some e)) =
      some levels := by
    unfold StateMap.levels StateMap.single
    rw [Function.update_self]
    cases e with
    | bad source tx => cases he
    | event event cls tx =>
      cases cls with
      | powerLevels l => exact he
      | _ => cases he
  simp only [StateMap.levelOf, hnew, Option.bind_some]
  cases hx : dictGet? (StateRoom.dictUpdate [] (read levels)) key with
  | some x => rfl
  | none =>
    rw [Option.none_or, Option.bind_eq_none_iff]
    intro l hl
    -- an earlier event that lists the key would make the new one list it
    cases hy : dictGet? (StateRoom.dictUpdate [] (read l)) key with
    | none => rfl
    | some y =>
      have hmem : key ∈ keysOf (read l) := (isSome_dictUpdate _ _).mp (by rw [hy]; rfl)
      obtain ⟨e', he', hl'⟩ : ∃ e' ∈ events, levels? e' = some l := by
        unfold StateMap.levels StateMap.single at hl
        cases hlast : lastOf events (.powerLevels, []) with
        | none => simp [hlast] at hl
        | some e' =>
          refine ⟨e', (mem_of_lastOf hlast).1, ?_⟩
          cases e' with
          | bad source tx => simp [hlast] at hl
          | event event cls tx =>
            rw [hlast] at hl
            cases cls with
            | powerLevels l' => exact hl
            | _ => cases hl
      have hsome := (isSome_dictUpdate _ _).mpr (hkeeps e' he' l hl' hmem)
      simp [hx] at hsome

/-! ### Lookups in the last events after an update -/

section Update

variable (last : StateMap) {α : Type}

@[simp] theorem single_update_self (type : StateType) (event : EventFields) (cls : RoomEventClass)
    (tx : Option Json) (read : EventFields → RoomEventClass → Option α) :
    StateMap.single (Function.update last (type, []) (some (.event event cls tx))) type read =
      read event cls := by
  simp only [StateMap.single, Function.update_self]

theorem pair_ne {type type' : StateType} (h : type' ≠ type) (key key' : Str) :
    (type', key') ≠ (type, key) :=
  fun he => h (Prod.ext_iff.mp he).1

@[simp] theorem single_update_of_ne {type type' : StateType} (h : type' ≠ type) (key : Str)
    (e : Option RoomEvent) (read : EventFields → RoomEventClass → Option α) :
    StateMap.single (Function.update last (type, key) e) type' read =
      StateMap.single last type' read := by
  simp only [StateMap.single, Function.update_of_ne (pair_ne h _ _)]

@[simp] theorem via_update_of_ne {type type' : StateType} (h : type' ≠ type) (key : Str)
    (e : Option RoomEvent) :
    StateMap.via (Function.update last (type, key) e) type' = StateMap.via last type' := by
  funext key'
  simp only [StateMap.via, Function.update_of_ne (pair_ne h _ _)]

@[simp] theorem levels_update_of_ne {type : StateType} (h : StateType.powerLevels ≠ type)
    (key : Str) (e : Option RoomEvent) :
    StateMap.levels (Function.update last (type, key) e) = StateMap.levels last :=
  single_update_of_ne last h key e _

@[simp] theorem levelOf_update_of_ne {type : StateType} (h : StateType.powerLevels ≠ type)
    (key : Str) (e : Option RoomEvent) :
    StateMap.levelOf (Function.update last (type, key) e) = StateMap.levelOf last := by
  funext read key'
  simp only [StateMap.levelOf, levels_update_of_ne last h]

@[simp] theorem creators_update_of_ne {type : StateType} (h : StateType.create ≠ type)
    (key : Str) (e : Option RoomEvent) :
    StateMap.creators (Function.update last (type, key) e) = StateMap.creators last := by
  simp only [StateMap.creators, single_update_of_ne last h]

end Update

/-- The state of a room under one parent or child -/
theorem mem_updateSpace {rooms : List Json} {key : Str} {via : Bool} {k : Str} :
    .str k ∈ StateRoom.updateSpace rooms (.str key) via ↔
      if k = key then via = true else .str k ∈ rooms := by
  unfold StateRoom.updateSpace
  cases via <;> by_cases hk : k = key <;> simp [hk]

/-- The rooms of one kind are the state keys whose last event has a `via`. -/
theorem via_update {rooms : List Json} {last : StateMap} {type : StateType}
    (h : (fun k => .str k ∈ rooms) = last.via type) (key : Str) (event : EventFields)
    (cls : RoomEventClass) (tx : Option Json) :
    (fun k => .str k ∈ StateRoom.updateSpace rooms (.str key) (StateRoom.hasVia event.source)) =
      StateMap.via (Function.update last (type, key) (some (.event event cls tx))) type := by
  funext k
  rw [mem_updateSpace]
  by_cases hk : k = key
  · subst hk
    simp only [if_true, StateMap.via, Function.update_self]
  · have hne : (type, k) ≠ (type, key) := fun he => hk (Prod.ext_iff.mp he).2
    rw [if_neg hk, show (.str k ∈ rooms) = last.via type k from congrFun h k]
    simp only [StateMap.via, Function.update_of_ne hne]

/-- A singleton type is kept under the empty state key. -/
theorem pairOf_single {events : List RoomEvent} {event : EventFields} {cls : RoomEventClass}
    {tx : Option Json} (hkeyed : WellKeyed (.event event cls tx))
    (hconf : Conforms (events ++ [.event event cls tx])) {type : StateType}
    (ht : stateType? cls = some type) (hs : type.isSpace = false) :
    pairOf (.event event cls tx) = some (type, []) := by
  obtain ⟨key, hkey, -⟩ := hkeyed (by rw [ht]; rfl)
  have hpair : pairOf (.event event cls tx) = some (type, key) := by
    simp [pairOf, ht, hkey]
  have hmem : RoomEvent.event event cls tx ∈ events ++ [.event event cls tx] := by simp
  obtain rfl := hconf.keys _ hmem type key hpair hs
  exact hpair

/-- Before an event that names no creators, none were named. -/
theorem creators_of_later {events : List RoomEvent} {e : RoomEvent}
    (hconf : Conforms (events ++ [e])) (he : namesCreators? e = some false) :
    StateMap.creators (lastOf events) = [] := by
  unfold StateMap.creators StateMap.single
  cases hlast : lastOf events (.create, []) with
  | none => rfl
  | some e' =>
    have hkeeps := (hconf.last (mem_of_lastOf hlast).1).creators
    cases e' with
    | bad source tx => rfl
    | event event cls tx =>
      cases cls with
      | roomCreate federate version type additional =>
        have hv : StateRoom.supportsVersion12 version ≠ true :=
          fun hv => hkeeps (congrArg some hv) he
        simp [hv]
      | _ => rfl

/-- One event changes the fields as the state of the protocol changes. -/
theorem fields_step {encrypted : Bool} {members : List (Str × Json)} {events : List RoomEvent}
    {e : RoomEvent} (hkeyed : WellKeyed e) (hconf : Conforms (events ++ [e]))
    (ih : ((StateRoom.new encrypted members).run events).fields =
      specified encrypted members (lastOf events)) :
    (((StateRoom.new encrypted members).run events).handleEvent e).fields =
      specified encrypted members (lastOf (events ++ [e])) := by
  have hnodup := nodup_users encrypted members events
  generalize hroom : (StateRoom.new encrypted members).run events = room at ih hnodup ⊢
  cases e with
  | bad source tx => rw [lastOf_of_none rfl]; exact ih
  | event event cls tx =>
    cases cls with
    | roomGuestAccess guestAccess =>
      rw [lastOf_update (pairOf_single hkeyed hconf rfl rfl)]
      show { room.fields with guestAccess := guestAccess } = _
      rw [ih]
      simp [specified]
    | roomJoinRules joinRule =>
      rw [lastOf_update (pairOf_single hkeyed hconf rfl rfl)]
      show { room.fields with joinRule := joinRule } = _
      rw [ih]
      simp [specified]
    | roomHistoryVisibility historyVisibility =>
      rw [lastOf_update (pairOf_single hkeyed hconf rfl rfl)]
      show { room.fields with historyVisibility := historyVisibility } = _
      rw [ih]
      simp [specified]
    | roomAlias canonicalAlias =>
      rw [lastOf_update (pairOf_single hkeyed hconf rfl rfl)]
      show { room.fields with canonicalAlias := canonicalAlias } = _
      rw [ih]
      simp [specified]
    | roomName name =>
      rw [lastOf_update (pairOf_single hkeyed hconf rfl rfl)]
      show { room.fields with name := some name } = _
      rw [ih]
      simp [specified]
    | roomTopic topic =>
      rw [lastOf_update (pairOf_single hkeyed hconf rfl rfl)]
      show { room.fields with topic := some topic } = _
      rw [ih]
      simp [specified]
    | roomAvatar avatarUrl =>
      rw [lastOf_update (pairOf_single hkeyed hconf rfl rfl)]
      show { room.fields with roomAvatarUrl := avatarUrl } = _
      rw [ih]
      simp [specified]
    | roomUpgrade body replacement =>
      rw [lastOf_update (pairOf_single hkeyed hconf rfl rfl)]
      show { room.fields with replacementRoom := some replacement } = _
      rw [ih]
      simp [specified]
    | roomEncryption =>
      rw [lastOf_update (pairOf_single hkeyed hconf rfl rfl)]
      show { room.fields with encrypted := true } = _
      rw [ih]
      simp [specified]
    | roomCreate federate version type additional =>
      have hpair := pairOf_single hkeyed hconf rfl rfl
      rw [lastOf_update hpair]
      cases hv : StateRoom.supportsVersion12 version with
      | true =>
        have hroom : (room.handleEvent (.event event (.roomCreate federate version type additional)
            tx)).fields = { room.fields with
              federate := federate
              roomVersion := version
              roomType := some type
              creators := StateRoom.creatorsOf event.sender additional
              levelCreators := StateRoom.creatorsOf event.sender additional } := by
          simp [StateRoom.handleEvent, StateRoom.handleClass, hv, StateRoom.fields]
        rw [hroom, ih]
        simp [specified, StateMap.creators, hv]
      | false =>
        have hroom : (room.handleEvent (.event event (.roomCreate federate version type additional)
            tx)).fields = { room.fields with
              federate := federate
              roomVersion := version
              roomType := some type } := by
          simp [StateRoom.handleEvent, StateRoom.handleClass, hv, StateRoom.fields]
        have hnone := creators_of_later hconf (congrArg some hv)
        rw [hroom, ih]
        simp only [specified, hnone]
        simp [StateMap.creators, hv]
    | powerLevels levels =>
      have hpair := pairOf_single hkeyed hconf rfl rfl
      have husers := levelOf_update (e := .event event (.powerLevels levels) tx) rfl (·.users)
        fun e' he' l hl => (hconf.last he').users l levels hl rfl
      have hevents := levelOf_update (e := .event event (.powerLevels levels) tx) rfl (·.events)
        fun e' he' l hl => (hconf.last he').events l levels hl rfl
      rw [lastOf_update hpair]
      have hu : dictGet? (StateRoom.dictUpdate room.powerLevels.users levels.users) =
          StateMap.levelOf (Function.update (lastOf events) (.powerLevels, [])
            (some (.event event (.powerLevels levels) tx))) (·.users) := by
        funext key
        have hold : dictGet? room.powerLevels.users key =
            StateMap.levelOf (lastOf events) (·.users) key :=
          congrFun (congrArg RoomFields.userLevel ih) key
        rw [dictGet?_dictUpdate, hold, husers]
      have hv : dictGet? (StateRoom.dictUpdate room.powerLevels.events levels.events) =
          StateMap.levelOf (Function.update (lastOf events) (.powerLevels, [])
            (some (.event event (.powerLevels levels) tx))) (·.events) := by
        funext key
        have hold : dictGet? room.powerLevels.events key =
            StateMap.levelOf (lastOf events) (·.events) key :=
          congrFun (congrArg RoomFields.eventLevel ih) key
        rw [dictGet?_dictUpdate, hold, hevents]
      have hm : dictGet? (StateRoom.updateMembers room.members
            (StateRoom.dictUpdate room.powerLevels.users levels.users)) = fun user =>
          (dictGet? members user).map fun level =>
            (StateMap.levelOf (Function.update (lastOf events) (.powerLevels, [])
              (some (.event event (.powerLevels levels) tx))) (·.users) user).getD level := by
        funext user
        have hold : dictGet? room.members user = (dictGet? members user).map fun level =>
            (StateMap.levelOf (lastOf events) (·.users) user).getD level :=
          congrFun (congrArg RoomFields.memberLevel ih) user
        rw [dictGet?_updateMembers (nodup_dictUpdate hnodup _), hu, hold, Option.map_map, ← husers]
        -- a level that the new event does not set was not set before
        cases dictGet? (StateRoom.dictUpdate [] levels.users) user <;>
          cases StateMap.levelOf (lastOf events) (·.users) user <;> rfl
      show { room.fields with
          defaultLevels := levels.defaults
          userLevel := dictGet? (StateRoom.dictUpdate room.powerLevels.users levels.users)
          eventLevel := dictGet? (StateRoom.dictUpdate room.powerLevels.events levels.events)
          memberLevel := dictGet? (StateRoom.updateMembers room.members
            (StateRoom.dictUpdate room.powerLevels.users levels.users)) } = _
      rw [hu, hv, hm, ih]
      simp [specified, StateMap.levels]
    | roomSpaceParent stateKey canonical =>
      obtain ⟨key, hkey, rfl⟩ := hkeyed rfl
      have hpair : pairOf (.event event (.roomSpaceParent (.str key) canonical) tx) =
          some (.spaceParent, key) := by simp [pairOf, stateType?, hkey]
      rw [lastOf_update hpair]
      show { room.fields with
          isParent := fun k => Json.str k ∈ StateRoom.updateSpace room.parents (.str key)
            (StateRoom.hasVia event.source) } = _
      rw [via_update (congrArg RoomFields.isParent ih) key event (.roomSpaceParent (.str key) canonical)
        tx, ih]
      simp [specified]
    | roomSpaceChild stateKey suggested =>
      obtain ⟨key, hkey, rfl⟩ := hkeyed rfl
      have hpair : pairOf (.event event (.roomSpaceChild (.str key) suggested) tx) =
          some (.spaceChild, key) := by simp [pairOf, stateType?, hkey]
      rw [lastOf_update hpair]
      show { room.fields with
          isChild := fun k => Json.str k ∈ StateRoom.updateSpace room.children (.str key)
            (StateRoom.hasVia event.source) } = _
      rw [via_update (congrArg RoomFields.isChild ih) key event (.roomSpaceChild (.str key) suggested)
        tx, ih]
      simp [specified]
    | _ =>
      rw [lastOf_of_none rfl]
      exact ih

end Nio.Rooms
