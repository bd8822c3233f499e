import Nio.Events.ToDevice

/-!
# Sync responses

`SyncResponse.from_dict` on the object of a response body. The parsers of room events, invites,
ephemeral events, account data and presence are parameters: a response only keeps what they return.
-/

namespace Nio

open Nio.Py
open Nio.Events

/-- The classes of events whose parsers a response calls. -/
structure EventTypes where
  room : Type
  invite : Type
  ephemeral : Type
  accountData : Type
  presence : Type

/-- `parse_event` of each class; `none` is an event that it leaves out. -/
structure EventParsers (E : EventTypes) where
  room : Json → Except PyError (Option E.room)
  invite : Json → Except PyError (Option E.invite)
  ephemeral : Json → Except PyError (Option E.ephemeral)
  accountData : Json → Except PyError E.accountData
  presence : Json → Except PyError E.presence

variable {E : EventTypes}

structure Timeline (E : EventTypes) where
  events : List E.room
  limited : Json
  prevBatch : Option Json

structure RoomSummary where
  invitedMemberCount : Option Json
  joinedMemberCount : Option Json
  heroes : Option Json

structure UnreadNotifications where
  notificationCount : Option Json
  highlightCount : Option Json

structure RoomInfo (E : EventTypes) where
  timeline : Timeline E
  state : List E.room
  ephemeral : List E.ephemeral
  accountData : List E.accountData
  summary : Option RoomSummary
  unreadNotifications : Option UnreadNotifications
  unreadThreadNotifications : List (Str × UnreadNotifications)

structure Rooms (E : EventTypes) where
  invite : List (Str × List E.invite)
  join : List (Str × RoomInfo E)
  leave : List (Str × RoomInfo E)

structure DeviceOneTimeKeyCount where
  curve25519 : Option Json
  signedCurve25519 : Option Json

structure DeviceList where
  changed : Json
  left : Json

structure SyncResponse (E : EventTypes) where
  nextBatch : Json
  rooms : Rooms E
  deviceKeyCount : DeviceOneTimeKeyCount
  deviceList : DeviceList
  toDeviceEvents : List (Option ToDeviceEvent)
  presenceEvents : List E.presence
  accountDataEvents : List E.accountData

/-- `validate_json` -/
def validateJson (schema : Schema) (v : Json) : Except PyError Json :=
  match schema v with
  | some v => .ok v
  | none => .error .validation

namespace SyncResponse

/-- The events of a list that their parser does not leave out. -/
def getEvents {ε : Type} (parse : Json → Except PyError (Option ε)) (events : Json) :
    Except PyError (List ε) := do
  return (← (← iterate events).mapM parse).filterMap id

def getToDevice (parsed : Json) : Except PyError (List (Option ToDeviceEvent)) := do
  (← iterate (← getDefault parsed "events" (.arr []))).mapM parseToDeviceEvent

def getTimeline (parsers : EventParsers E) (parsed : Json) : Except PyError (Timeline E) := do
  let parsed ← validateJson Schemas.roomTimeline parsed
  let events ← getEvents parsers.room (← getDefault parsed "events" (.arr []))
  return ⟨events, ← getDefault parsed "limited" (.bool false), ← getOptional parsed "prev_batch"⟩

def getState {ε : Type} (parse : Json → Except PyError (Option ε)) (parsed : Json) :
    Except PyError (List ε) := do
  let parsed ← validateJson Schemas.syncRoomState parsed
  getEvents parse (← getDefault parsed "events" (.arr []))

/-- `RoomInfo.parse_account_data` -/
def parseAccountData (parsers : EventParsers E) (events : Json) :
    Except PyError (List E.accountData) := do
  (← iterate events).mapM parsers.accountData

/-- `room_dict.get(section, {}).get("events", [])` -/
def sectionEvents (room : Json) (name : String) : Except PyError Json := do
  getDefault (← getDefault room name (.obj [])) "events" (.arr [])

def getUnread (d : Json) : Except PyError UnreadNotifications := do
  return ⟨← getOptional d "notification_count", ← getOptional d "highlight_count"⟩

def getJoinInfo (parsers : EventParsers E) (room : Json) : Except PyError (RoomInfo E) := do
  let stateEvents ← sectionEvents room "state"
  let timelineEvents ← sectionEvents room "timeline"
  let prevBatch ← getOptional (← getDefault room "timeline" (.obj [])) "prev_batch"
  let limited ← getDefault (← getDefault room "timeline" (.obj [])) "limited" (.bool false)
  let ephemeralEvents ← sectionEvents room "ephemeral"
  let summary ← getDefault room "summary" (.obj [])
  let unread ← getDefault room "unread_notifications" (.obj [])
  let accountDataEvents ← sectionEvents room "account_data"
  let threads ← getDefault room "unread_thread_notifications" (.obj [])
  let state ← getEvents parsers.room stateEvents
  let events ← getEvents parsers.room timelineEvents
  let ephemeral ← getEvents parsers.ephemeral ephemeralEvents
  let summary := ⟨← getOptional summary "m.invited_member_count",
    ← getOptional summary "m.joined_member_count", ← getOptional summary "m.heroes"⟩
  let unread ← getUnread unread
  let threads ← (← getItems threads).mapM fun p => do return (p.1, ← getUnread p.2)
  let accountData ← parseAccountData parsers accountDataEvents
  return ⟨⟨events, limited, prevBatch⟩, state, ephemeral, accountData, some summary, some unread,
    threads⟩

def getLeaveInfo (parsers : EventParsers E) (room : Json) : Except PyError (RoomInfo E) := do
  let state ← getState parsers.room (← getDefault room "state" (.obj []))
  let timeline ← getTimeline parsers (← getDefault room "timeline" (.obj []))
  let accountData ← parseAccountData parsers (← sectionEvents room "account_data")
  return ⟨timeline, state, [], accountData, none, none, []⟩

def getRoomInfo (parsers : EventParsers E) (parsed : Json) : Except PyError (Rooms E) := do
  let invite ← (← getItems (← getDefault parsed "invite" (.obj []))).mapM fun p => do
    return (p.1, ← getState parsers.invite (← getDefault p.2 "invite_state" (.obj [])))
  let leave ← (← getItems (← getDefault parsed "leave" (.obj []))).mapM fun p => do
    return (p.1, ← getLeaveInfo parsers p.2)
  let join ← (← getItems (← getDefault parsed "join" (.obj []))).mapM fun p => do
    return (p.1, ← getJoinInfo parsers p.2)
  return ⟨invite, join, leave⟩

/-- `from_dict`; `none` is the error response of a body that fails the schema. -/
def fromDict (parsers : EventParsers E) (parsed : Json) :
    Except PyError (Option (SyncResponse E)) :=
  match Schemas.sync parsed with
  | none => .ok none
  | some parsed => do
    let toDevice ← getToDevice (← getDefault parsed "to_device" (.obj []))
    let keyCount ← getDefault parsed "device_one_time_keys_count" (.obj [])
    let keyCount := ⟨← getOptional keyCount "curve25519", ← getOptional keyCount "signed_curve25519"⟩
    let lists ← getDefault parsed "device_lists" (.obj [])
    let devices := ⟨← getDefault lists "changed" (.arr []), ← getDefault lists "left" (.arr [])⟩
    let presence ← (← iterate (← sectionEvents parsed "presence")).mapM parsers.presence
    let rooms ← getRoomInfo parsers (← getDefault parsed "rooms" (.obj []))
    let nextBatch ← getItem parsed "next_batch"
    let accountData ← parseAccountData parsers (← sectionEvents parsed "account_data")
    return some ⟨nextBatch, rooms, keyCount, devices, toDevice, presence, accountData⟩

end SyncResponse

end Nio
