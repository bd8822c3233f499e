import Nio.Durable.Processor

/-!
# The iterators of a response

`_iter_sync` and `iter_sliding_sync` as lists of moves. What the Olm machine answers during one
transaction is a parameter: the decrypted event for a Megolm event, the event that is delivered for a
to-device event, and the events that it adds at the end.

* `iterSync`, `iterSlidingSync` — the moves of a whole response
* `iterRoomTimeline` — the moves of a timeline, which a page of history shares
-/

namespace Nio.Durable

open Nio.Py
open Nio.Events

/-- What the Olm machine answers in one transaction. -/
structure Crypto where
  /-- `_decrypt_megolm_no_error` -/
  decrypt : Str → Event → Option Event
  /-- The event and the source of its item; `none` for a key request, which the machine keeps. -/
  toDevice : ToDeviceEvent → Option (Event × Json)
  expiredVerifications : List Event
  keyRequests : List Event

namespace Item

/-- A section of a response. -/
def ofSection (roomId : Str) (roomSection : RoomSection) : Item :=
  ⟨none, none, some roomId, some roomSection, none, none⟩

/-- A state event. -/
def ofState (roomId : Str) (roomSection : RoomSection) (event : Event) : Item :=
  ⟨none, some event, some roomId, some roomSection, none, none⟩

def ofInvite (roomId : Str) (event : Event) : Item :=
  ⟨some .invite, some event, some roomId, some .invite, none, none⟩

def ofAccountData (roomId : Str) (roomSection : RoomSection) (event : Event) : Item :=
  ⟨some .roomAccountData, some event, some roomId, some roomSection, none, none⟩

/-- An observation that belongs to no room. -/
def ofGlobal (route : Route) (event : Event) : Item :=
  ⟨some route, some event, none, none, none, none⟩

end Item

/-- `_iter_to_device` -/
def iterToDevice (crypto : Crypto) (toDevice : List (Option ToDeviceEvent)) :
    Except SessionError (List Move) := do
  let moves ← toDevice.mapM fun
    -- a parser that leaves out an event leaves `None` in the list, which has no source
    | none => .error .attribute
    | some event =>
      .ok ((crypto.toDevice event).map fun (event, source) =>
        .yield { Item.ofGlobal .toDevice event with source := some source })
  return moves.filterMap id

/-- `_iter_room_timeline`; `apply` is `apply_state`. -/
def iterRoomTimeline (crypto : Crypto) (roomId : Str) (timeline : List Event)
    (roomSection : RoomSection) (apply : Bool) (provenance : Option Provenance) : List Move :=
  timeline.flatMap fun event =>
    let decrypted := match event.cls with
      | .megolm => (crypto.decrypt roomId event).getD event
      | _ => event
    (if apply then [.timelineRoom roomId event] else []) ++
      [.yield ⟨some .event, some decrypted, some roomId, some roomSection, some event.source,
        provenance⟩]

def iterState (roomId : Str) (roomSection : RoomSection) (state : List Event) : List Move :=
  state.map fun event => .yield (.ofState roomId roomSection event)

def iterAccountData (roomId : Str) (roomSection : RoomSection) (accountData : List Event) : List Move :=
  accountData.map fun event => .yield (.ofAccountData roomId roomSection event)

/-- The end of both iterators, when the client has an Olm machine -/
def iterOlm (crypto : Crypto) : List Move :=
  crypto.expiredVerifications.map (fun event => .yield (.ofGlobal .expiredVerification event)) ++
    crypto.keyRequests.map fun event => .yield (.ofGlobal .toDevice event)

/-! ## Classic -/

def iterInvitedRoom (roomId : Str) (state : List Event) : List Move :=
  .inviteRoom roomId :: .yield (.ofSection roomId .invite) ::
    state.map fun event => .yield (.ofInvite roomId event)

def iterJoinedRoom (crypto : Crypto) (roomId : Str) (info : RoomInfo events) : List Move :=
  .enterRoom roomId :: .yield (.ofSection roomId .join) :: iterState roomId .join info.state ++
    iterRoomTimeline crypto roomId info.timeline.events .join true none ++
    iterAccountData roomId .join info.accountData

/-- A room that was left yields its section after its last event. -/
def iterLeftRoom (crypto : Crypto) (roomId : Str) (info : RoomInfo events) : List Move :=
  .enterRoom roomId :: iterState roomId .leave info.state ++
    iterRoomTimeline crypto roomId info.timeline.events .leave true none ++
    iterAccountData roomId .leave info.accountData ++
    [.yield (.ofSection roomId .leave), .leaveRoom roomId]

/-- `_iter_sync(response, include_left=True)` -/
def iterSync (crypto : Crypto) (response : SyncResponse events) : Except SessionError (List Move) := do
  let toDevice ← iterToDevice crypto response.toDeviceEvents
  return toDevice ++ response.rooms.invite.flatMap (fun p => iterInvitedRoom p.1 p.2) ++
    response.rooms.join.flatMap (fun p => iterJoinedRoom crypto p.1 p.2) ++
    response.rooms.leave.flatMap (fun p => iterLeftRoom crypto p.1 p.2) ++
    response.accountDataEvents.map (fun event => .yield (.ofGlobal .globalAccountData event)) ++
    iterOlm crypto

/-! ## Sliding -/

namespace SlidingRoom

/-- `live_event_count` -/
def liveCount (room : SlidingRoom) : Nat :=
  match room.numLive with
  | some n => min n.toNat room.timeline.length
  | none => if room.initial ∨ room.expandedTimeline then 0 else room.timeline.length

/-- `timeline_provenance` -/
def timelineProvenance (room : SlidingRoom) (index : Nat) (history recovered : Bool)
    (historyPrefix : Nat) : Provenance :=
  if history ∨ index < historyPrefix then .history
  else if room.timeline.length - room.liveCount ≤ index then .live
  else if recovered then .recovered else .history

def isInvited (room : SlidingRoom) : Bool :=
  room.membership = some (py "invite") ||
    (!room.strippedState.isEmpty && room.membership ≠ some (py "join") &&
      room.membership ≠ some (py "leave") && room.membership ≠ some (py "ban"))

def isLeaving (room : SlidingRoom) : Bool :=
  room.membership = some (py "leave") || room.membership = some (py "ban")

end SlidingRoom

/-- One event of the timeline of a Sliding room. -/
def iterSlidingEvent (crypto : Crypto) (roomId : Str) (roomSection : RoomSection)
    (suppressIds : List Json) (provenance : Provenance) (event : Event) :
    Except SessionError (List Move) := do
  if ← inSet event.eventId suppressIds then return []
  else
    return iterRoomTimeline crypto roomId [event] roomSection (provenance ≠ .history)
      (some provenance)

/-- `_room_state` of a room whose projection is not modelled -/
def iterSlidingState (roomId : Str) (roomSection : RoomSection) (state : List Event) : List Move :=
  state.map fun event => .yield { Item.ofState roomId roomSection event with
    source := some (payload event).1 }

/-- What the plan of the input says about a room of a Sliding response. -/
structure SlidingRoomPlan where
  recovered : Bool
  history : Bool
  historyPrefix : Nat
  suppressIds : List Json

def iterSlidingTimeline (crypto : Crypto) (roomId : Str) (room : SlidingRoom)
    (roomSection : RoomSection) (plan : SlidingRoomPlan) : Except SessionError (List Move) := do
  let moves ← room.timeline.zipIdx.mapM fun (event, index) =>
    iterSlidingEvent crypto roomId roomSection plan.suppressIds
      (room.timelineProvenance index plan.history plan.recovered plan.historyPrefix) event
  return moves.flatten

/-- One room of `iter_sliding_sync`; `known` says that the client has the room already. -/
def iterSlidingRoom (crypto : Crypto) (roomId : Str) (room : SlidingRoom) (plan : SlidingRoomPlan)
    (known : Bool) : Except SessionError (List Move) :=
  if room.isInvited then .ok (iterInvitedRoom roomId room.strippedState)
  else do
    let roomSection := if room.isLeaving then .leave else .join
    let start : List Move := .enterRoom roomId ::
      (if room.isLeaving then [] else [.yield (.ofSection roomId roomSection)])
    let state := iterSlidingState roomId roomSection room.requiredState
    let timeline ← iterSlidingTimeline crypto roomId room roomSection plan
    let stateFirst := !known || (room.initial && !plan.recovered &&
      (plan.history || room.liveCount = 0))
    let stop : List Move :=
      if room.isLeaving then [.yield (.ofSection roomId .leave), .leaveRoom roomId] else []
    return start ++ (if stateFirst then state ++ timeline else timeline ++ state) ++ stop

/-- The account data that waits for its room, by room and type. -/
def addAccountData (pending : List (Str × List (Str × Event)))
    (roomAccountData : List (Str × List (Option Str × Event))) : List (Str × List (Str × Event)) :=
  roomAccountData.foldl (fun pending (roomId, events) =>
    dictSet pending roomId (events.foldl (fun byType (type, event) =>
      match type with
      | some type => dictSet byType type event
      | none => byType) ((dictGet? pending roomId).getD []))) pending

/-- The recovered rooms and history prefixes of a plan, and the rooms that are history by now. -/
def Plan.slidingRoom (plan : Plan) (w : Work) (roomId : Str) : SlidingRoomPlan :=
  match plan.sliding with
  | some sliding =>
    ⟨roomId ∈ sliding.recoveredRooms, roomId ∈ w.historyRooms,
      (dictGet? sliding.historyPrefixes roomId).getD 0, (dictGet? plan.appliedIds roomId).getD []⟩
  | none => ⟨false, false, 0, []⟩

/-- A room of a Sliding response is looked up in the client and in the plan when it is reached. -/
def runSlidingRoom (env : Env) (crypto : Crypto) (plan : Plan) (w : Work)
    (entry : Str × SlidingRoom) : Except SessionError Work := do
  let moves ← iterSlidingRoom crypto entry.1 entry.2 (plan.slidingRoom w entry.1)
    (entry.1 ∈ w.session.rooms)
  moves.foldlM (runMove env) w

/-- The account data of the rooms that the client has by now. -/
def runPendingAccountData (env : Env) (w : Work) : Except SessionError Work := do
  let (found, waiting) := w.session.pendingAccountData.partition fun p => p.1 ∈ w.session.rooms
  let w := { w with session := { w.session with pendingAccountData := waiting } }
  (found.flatMap fun p => iterAccountData p.1 .join (p.2.map (·.2))).foldlM (runMove env) w

/-- `consume(iter_sliding_sync(...))` -/
def runSliding (env : Env) (crypto : Crypto) (plan : Plan) (w : Work)
    (response : SlidingResponse) : Except SessionError Work := do
  let w := { w with processor := { w.processor with pendingBytes := none } }
  let toDevice ← iterToDevice crypto response.toDeviceEvents
  let w ← toDevice.foldlM (runMove env) w
  let w ← response.rooms.foldlM (runSlidingRoom env crypto plan) w
  let w := { w with session := { w.session with
    pendingAccountData := addAccountData w.session.pendingAccountData response.roomAccountData } }
  let w ← (response.accountDataEvents.map fun event =>
    Move.yield (.ofGlobal .globalAccountData event)).foldlM (runMove env) w
  let w ← runPendingAccountData env w
  let w ← (iterOlm crypto).foldlM (runMove env) w
  w.flush env

end Nio.Durable
