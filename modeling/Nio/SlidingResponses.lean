import Nio.Durable.WriteBack

/-!
# Sliding sync responses

`SlidingSyncResponse.from_dict` on the object of a response body. The extensions are copied before
their events are parsed, and what a parser leaves out is left out of the list.
-/

namespace Nio

open Nio.Py
open Nio.Events
open Nio.Durable (copyJson)

variable {E : EventTypes}

structure SlidingSyncStateStub where
  type : Json
  stateKey : Json

structure SlidingSyncHero where
  userId : Json
  displayname : Option Json
  avatarUrl : Option Json

structure SlidingSyncRoom (E : EventTypes) where
  bumpStamp : Option Json
  membership : Option Json
  lists : Option Json
  name : Option Json
  avatar : Option Json
  heroes : Option (List SlidingSyncHero)
  isDm : Option Json
  initial : Json
  expandedTimeline : Json
  /-- A state event that its parser leaves out stays in the list as `None`. -/
  requiredState : List (SlidingSyncStateStub ⊕ Option E.room)
  timeline : List E.room
  prevBatch : Option Json
  limited : Json
  numLive : Option Json
  joinedCount : Option Json
  invitedCount : Option Json
  notificationCount : Option Json
  highlightCount : Option Json
  strippedState : List E.invite

structure SlidingSyncResponse (E : EventTypes) where
  pos : Json
  lists : List (Str × Json)
  rooms : List (Str × SlidingSyncRoom E)
  extensions : Json
  toDeviceEvents : List ToDeviceEvent
  toDeviceNextBatch : Option Json
  deviceKeyCount : DeviceOneTimeKeyCount
  deviceList : DeviceList
  accountDataEvents : List E.accountData
  roomAccountData : List (Str × List E.accountData)

namespace SlidingSyncRoom

def getRequiredState (parsers : EventParsers E) (events : Json) :
    Except PyError (List (SlidingSyncStateStub ⊕ Option E.room)) := do
  (← iterate events).mapM fun event => do
    match ← getOptional event "content" with
    | none => return .inl ⟨← getItem event "type", ← getItem event "state_key"⟩
    | some _ => return .inr (← parsers.room event)

def getHero (hero : Json) : Except PyError SlidingSyncHero := do
  return ⟨← getItem hero "user_id", ← getOptional hero "displayname",
    ← getOptional hero "avatar_url"⟩

def getHeroes (room : Json) : Except PyError (Option (List SlidingSyncHero)) := do
  match ← getOptional room "heroes" with
  | none | some .null => return none
  | some heroes => return some (← (← iterate heroes).mapM getHero)

/-- A count must be an integer and not a boolean. -/
def checkNumLive : Option Json → Except PyError (Option Json)
  | none | some .null => .ok none
  | some (.int n) => .ok (some (.int n))
  | some _ => .error .type

/-- `parsed_dict.get(name, parsed_dict.get(other, default))` -/
def getEither (room : Json) (name other : String) (default : Json) : Except PyError Json := do
  getDefault room name (← getDefault room other default)

def fromDict (parsers : EventParsers E) (room : Json) : Except PyError (SlidingSyncRoom E) := do
  let numLive ← checkNumLive (← getOptional room "num_live")
  return {
    bumpStamp := ← getOptional room "bump_stamp"
    membership := ← getOptional room "membership"
    lists := ← getOptional room "lists"
    name := ← getOptional room "name"
    avatar := ← getOptional room "avatar"
    heroes := ← getHeroes room
    isDm := ← getOptional room "is_dm"
    initial := ← getDefault room "initial" (.bool false)
    expandedTimeline :=
      ← getEither room "unstable_expanded_timeline" "expanded_timeline" (.bool false)
    requiredState := ← getRequiredState parsers (← getDefault room "required_state" (.arr []))
    timeline := ← SyncResponse.getEvents parsers.room (← getDefault room "timeline" (.arr []))
    prevBatch := ← getOptional room "prev_batch"
    limited := ← getDefault room "limited" (.bool false)
    numLive
    joinedCount := ← getOptional room "joined_count"
    invitedCount := ← getOptional room "invited_count"
    notificationCount := ← getOptional room "notification_count"
    highlightCount := ← getOptional room "highlight_count"
    strippedState := ← SyncResponse.getEvents parsers.invite
      (← getEither room "stripped_state" "invite_state" (.arr [])) }

end SlidingSyncRoom

namespace SlidingSyncResponse

/-- The objects of `extensions.to_device.events`, as they are parsed -/
def toDeviceObjects (extensions : Json) : Except PyError (List Json) := do
  iterate (← getDefault (← getDefault extensions "to_device" (.obj [])) "events" (.arr []))

def parse (parsers : EventParsers E) (parsed : Json) : Except PyError (SlidingSyncResponse E) := do
  let lists ← (← getItems (← getDefault parsed "lists" (.obj []))).mapM fun p => do
    return (p.1, ← getItem p.2 "count")
  let rooms ← (← getItems (← getDefault parsed "rooms" (.obj []))).mapM fun p => do
    return (p.1, ← SlidingSyncRoom.fromDict parsers p.2)
  let extensions ← getDefault parsed "extensions" (.obj [])
  let copy ← (copyJson extensions).mapError fun _ => .value
  let toDevice ← getDefault copy "to_device" (.obj [])
  let events := (← (← toDeviceObjects copy).mapM parseToDeviceEvent).filterMap id
  let e2ee ← getDefault copy "e2ee" (.obj [])
  let counts ← getDefault e2ee "device_one_time_keys_count" (.obj [])
  let devices ← getDefault e2ee "device_lists" (.obj [])
  let accountData ← getDefault copy "account_data" (.obj [])
  let pos ← getItem parsed "pos"
  let nextBatch ← getOptional toDevice "next_batch"
  let keyCount := ⟨← getOptional counts "curve25519", ← getOptional counts "signed_curve25519"⟩
  let deviceList := ⟨← getDefault devices "changed" (.arr []), ← getDefault devices "left" (.arr [])⟩
  let globalData ← SyncResponse.parseAccountData parsers (← getDefault accountData "global" (.arr []))
  let roomData ← (← getItems (← getDefault accountData "rooms" (.obj []))).mapM fun p => do
    return (p.1, ← SyncResponse.parseAccountData parsers p.2)
  return ⟨pos, lists, rooms, extensions, events, nextBatch, keyCount, deviceList, globalData,
    roomData⟩

/-- `from_dict`; `none` is its error response, also for an event that a parser cannot read. -/
def fromDict (parsers : EventParsers E) (parsed : Json) :
    Except PyError (Option (SlidingSyncResponse E)) :=
  match Schemas.slidingSync parsed with
  | none => .ok none
  | some parsed =>
    match parse parsers parsed with
    | .ok response => .ok (some response)
    | .error .key | .error .type | .error .attribute => .ok none
    | .error e => .error e

end SlidingSyncResponse

end Nio
