import Nio.Durable.Model
import Nio.Events.Misc
import Nio.Py.Dict
import Nio.Py.Text

/-!
# Rooms

The members of a `MatrixRoom` and their power levels. A user that is invited is in two dictionaries,
which hold the same object: what changes it changes both entries.

* `MatrixRoom.handleMembership`, `MatrixRoom.handleJoinedMembers` — who is in the room
* `MatrixRoom.handlePowerLevels`, `MatrixRoom.deletePowerLevels` — what they may do
-/

namespace Nio.Rooms

open Nio.Py
open Nio.Events (PyError)
open Nio.Durable (Membership)

/-! ## Power levels -/

structure DefaultLevels where
  ban : Int
  invite : Int
  kick : Int
  redact : Int
  stateDefault : Int
  eventsDefault : Int
  usersDefault : Int
  notifications : List (Str × Int)
  deriving DecidableEq, Repr

/-- `DefaultLevels()`, which is not what an event without levels has: its `state_default` is 50. -/
def DefaultLevels.new : DefaultLevels := ⟨50, 50, 50, 50, 0, 0, 0, [(py "room", 50)]⟩

structure PowerLevels where
  defaults : DefaultLevels
  users : List (Str × Int)
  events : List (Str × Int)
  /-- The keys of a dictionary whose values are all `True` -/
  creators : List Str
  deriving DecidableEq, Repr

namespace PowerLevels

def new : PowerLevels := ⟨.new, [], [], []⟩

def getStateEventRequiredLevel (p : PowerLevels) (eventType : Str) : Int :=
  (dictGet? p.events eventType).getD p.defaults.stateDefault

def getMessageEventRequiredLevel (p : PowerLevels) (eventType : Str) : Int :=
  (dictGet? p.events eventType).getD p.defaults.eventsDefault

def getNotificationRequiredLevel (p : PowerLevels) (notificationType : Str) : Int :=
  (dictGet? p.defaults.notifications notificationType).getD 50

def getUserLevel (p : PowerLevels) (userId : Str) : Int :=
  if userId ∈ p.creators then 2 ^ 53 + 1 else (dictGet? p.users userId).getD p.defaults.usersDefault

def canUserSendState (p : PowerLevels) (userId eventType : Str) : Bool :=
  p.getUserLevel userId ≥ p.getStateEventRequiredLevel eventType

def canUserSendMessage (p : PowerLevels) (userId eventType : Str) : Bool :=
  p.getUserLevel userId ≥ p.getMessageEventRequiredLevel eventType

def canUserInvite (p : PowerLevels) (userId : Str) : Bool :=
  p.getUserLevel userId ≥ p.defaults.invite

/-- The shape of `can_user_kick` and `can_user_ban` -/
def outranks (p : PowerLevels) (required : Int) (userId : Str) (target : Option Str) : Bool :=
  match target with
  | none => p.getUserLevel userId ≥ required
  | some target => p.getUserLevel userId ≥ required && p.getUserLevel userId > p.getUserLevel target

def canUserKick (p : PowerLevels) (userId : Str) (target : Option Str) : Bool :=
  p.outranks p.defaults.kick userId target

def canUserBan (p : PowerLevels) (userId : Str) (target : Option Str) : Bool :=
  p.outranks p.defaults.ban userId target

def canUserRedact (p : PowerLevels) (userId : Str) : Bool :=
  p.getUserLevel userId ≥ p.defaults.redact

def canUserNotify (p : PowerLevels) (userId notificationType : Str) : Bool :=
  p.getUserLevel userId ≥ p.getNotificationRequiredLevel notificationType

/-- `dict.update` -/
def dictUpdate (d d' : List (Str × Int)) : List (Str × Int) :=
  d'.foldl (fun d p => dictSet d p.1 p.2) d

/-- The creators are not part of an event. -/
def update (p new : PowerLevels) : PowerLevels :=
  { p with
    defaults := new.defaults
    events := dictUpdate p.events new.events
    users := dictUpdate p.users new.users }

end PowerLevels

/-- The maps of an event are dictionaries. -/
structure PowerLevelsEvent where
  powerLevels : PowerLevels
  usersKeys : (powerLevels.users.map (·.1)).Nodup
  eventsKeys : (powerLevels.events.map (·.1)).Nodup

/-! ## Members -/

structure MatrixUser where
  userId : Str
  displayName : Option Str
  avatarUrl : Option Str
  powerLevel : Int
  invited : Bool
  deriving DecidableEq, Repr

/-- The property `name`: the display name, unless it is missing or empty. -/
def MatrixUser.name (user : MatrixUser) : Str :=
  match user.displayName with
  | some (c :: rest) => c :: rest
  | _ => user.userId

/-- The content of a membership event may lack a display name, have `null` there, or a string. -/
structure RoomMemberEvent where
  stateKey : Str
  membership : Membership
  displayname : Option (Option Str)
  avatarUrl : Option (Option Str)
  deriving DecidableEq

/-- A member in a `JoinedMembersResponse` -/
structure RoomMember where
  userId : Str
  displayName : Option Str
  avatarUrl : Option Str
  deriving DecidableEq

structure RoomCreateEvent where
  sender : Str
  roomVersion : Str
  additionalCreators : List Str
  deriving DecidableEq

/-! ## The index of names -/

/-- `self.names[name]` of a `defaultdict(list)` -/
def namesAt (names : List (Str × List Str)) (name : Str) : List Str :=
  (dictGet? names name).getD []

def appendName (names : List (Str × List Str)) (name userId : Str) : List (Str × List Str) :=
  dictSet names name (namesAt names name ++ [userId])

/-- `self.names[name].remove(user_id)`, which raises `ValueError` for a user that is not there -/
def removeName (names : List (Str × List Str)) (name userId : Str) :
    Except PyError (List (Str × List Str)) :=
  if userId ∈ namesAt names name then
    .ok (dictSet names name ((namesAt names name).erase userId))
  else .error .value

/-- The removal of a user's name, if there is a user -/
def removeNameOf (names : List (Str × List Str)) :
    Option MatrixUser → Except PyError (List (Str × List Str))
  | some user => removeName names user.name user.userId
  | none => .ok names

/-- The removal that passes over `ValueError`; the look-up leaves an entry in a `defaultdict`. -/
def discardNameOf (names : List (Str × List Str)) : Option MatrixUser → List (Str × List Str)
  | some user =>
    match removeName names user.name user.userId with
    | .ok names => names
    | .error _ => dictSet names user.name (namesAt names user.name)
  | none => names

structure MatrixRoom where
  roomVersion : Str
  users : List (Str × MatrixUser)
  invitedUsers : List (Str × MatrixUser)
  names : List (Str × List Str)
  powerLevels : PowerLevels
  creators : List Str
  membersSynced : Bool
  deriving DecidableEq, Repr

namespace MatrixRoom

/-- `MatrixRoom(room_id, own_user_id)` -/
def new : MatrixRoom := ⟨py "1", [], [], [], .new, [], false⟩

/-! ## Membership -/

/-- `add_member`; nothing when the user is a member -/
def addMember (room : MatrixRoom) (userId : Str) (displayName avatarUrl : Option Str)
    (invited : Bool) : MatrixRoom × Bool :=
  if (dictGet? room.users userId).isSome then (room, false)
  else
    let level :=
      (dictGet? room.powerLevels.users userId).getD room.powerLevels.defaults.usersDefault
    let user : MatrixUser := ⟨userId, displayName, avatarUrl, level, invited⟩
    -- `name = display_name or user_id`, which is the name of the new user
    ({ room with
        users := dictSet room.users userId user
        invitedUsers := if invited then dictSet room.invitedUsers userId user
          else room.invitedUsers
        names := appendName room.names user.name userId },
      true)

def removeMember (room : MatrixRoom) (userId : Str) : Except PyError (MatrixRoom × Bool) := do
  let user := dictGet? room.users userId
  let names ← removeNameOf room.names user
  let invitedUser := dictGet? room.invitedUsers userId
  return ({ room with
      users := dictErase room.users userId
      invitedUsers := dictErase room.invitedUsers userId
      names := discardNameOf names invitedUser },
    user.isSome || invitedUser.isSome)

/-- A change of one user's object, which both dictionaries see. -/
def modifyUser (room : MatrixRoom) (userId : Str) (f : MatrixUser → MatrixUser) : MatrixRoom :=
  let change := fun p : Str × MatrixUser => if p.1 = userId then (p.1, f p.2) else p
  { room with users := room.users.map change, invitedUsers := room.invitedUsers.map change }

/-- The membership change of `handle_membership` -/
def setInvited (room : MatrixRoom) (targetUser : Str) (invited : Bool) : MatrixRoom :=
  let room := room.modifyUser targetUser fun u => { u with invited }
  if invited then room
  else { room with invitedUsers := dictErase room.invitedUsers targetUser }

/-- `if "displayname" in event.content` -/
def changeDisplayName (room : MatrixRoom) (targetUser : Str) (user : MatrixUser) :
    Option (Option Str) → Except PyError MatrixRoom
  | none => .ok room
  | some displayName => do
    let names ← removeName room.names user.name user.userId
    return { room.modifyUser targetUser fun u => { u with displayName } with
      names := appendName names { user with displayName : MatrixUser }.name user.userId }

/-- `if "avatar_url" in event.content` -/
def changeAvatarUrl (room : MatrixRoom) (targetUser : Str) : Option (Option Str) → MatrixRoom
  | none => room
  | some avatarUrl => room.modifyUser targetUser fun u => { u with avatarUrl }

/-- `handle_membership` for `join` and `invite` -/
def enter (room : MatrixRoom) (event : RoomMemberEvent) (invited : Bool) :
    Except PyError (MatrixRoom × Bool) :=
  let displayName := event.displayname.getD none
  let avatarUrl := event.avatarUrl.getD none
  match dictGet? room.users event.stateKey with
  | none => .ok (room.addMember event.stateKey displayName avatarUrl invited)
  | some user =>
    -- a member that is invited goes the way of a new user, and `add_member` knows it already
    if invited && (dictGet? room.invitedUsers event.stateKey).isNone then
      .ok (room.addMember event.stateKey displayName avatarUrl invited)
    else do
      let room ← (room.setInvited event.stateKey invited).changeDisplayName event.stateKey user
        event.displayname
      return (room.changeAvatarUrl event.stateKey event.avatarUrl, false)

def handleMembership (room : MatrixRoom) (event : RoomMemberEvent) :
    Except PyError (MatrixRoom × Bool) :=
  match event.membership with
  | .join | .invite => room.enter event (event.membership = .invite)
  | .leave | .ban => room.removeMember event.stateKey
  | .knock => .ok (room, false)

/-- The first loop of `_handle_joined_members` -/
def removeAbsent (joined : List Str) (room : MatrixRoom) (userId : Str) :
    Except PyError MatrixRoom :=
  match dictGet? room.users userId with
  | none => .error .key
  | some user =>
    if ¬ user.invited ∧ userId ∉ joined then (room.removeMember userId).map Prod.fst else .ok room

/-- `_handle_joined_members` of a room that the client knows -/
def handleJoinedMembers (room : MatrixRoom) (members : List RoomMember) :
    Except PyError MatrixRoom := do
  let room ← (room.users.map (·.1)).foldlM (removeAbsent (members.map (·.userId))) room
  let room := members.foldl
    (fun room m => (room.addMember m.userId m.displayName m.avatarUrl false).1) room
  return { room with membersSynced := true }

/-! ## State events -/

/-- `_supports_room_version_12` -/
def supportsRoomVersion12 (roomVersion : Str) : Bool :=
  match roomVersion.toInt? with
  | some n => 12 ≤ n
  | none => roomVersion = py "org.matrix.hydra.11"

/-- `handle_event` for a `RoomCreateEvent` -/
def handleCreate (room : MatrixRoom) (event : RoomCreateEvent) : MatrixRoom :=
  let room := { room with roomVersion := event.roomVersion }
  if supportsRoomVersion12 room.roomVersion then
    let creators := (event.sender :: event.additionalCreators).dedup
    { room with creators, powerLevels := { room.powerLevels with creators } }
  else room

/-- `handle_event` for a `PowerLevelsEvent` -/
def handlePowerLevels (room : MatrixRoom) (event : PowerLevelsEvent) : MatrixRoom :=
  let room := { room with powerLevels := room.powerLevels.update event.powerLevels }
  room.powerLevels.users.foldl (fun room p =>
    if (dictGet? room.users p.1).isSome then
      room.modifyUser p.1 fun u => { u with powerLevel := p.2 }
    else room) room

/-- `_state_stub` for `m.room.power_levels` -/
def deletePowerLevels (room : MatrixRoom) : MatrixRoom :=
  let powerLevels : PowerLevels := { PowerLevels.new with creators := room.creators }
  let change := fun p : Str × MatrixUser =>
    (p.1, { p.2 with powerLevel := powerLevels.defaults.usersDefault })
  -- the invited users are among the users
  { room with
    powerLevels
    users := room.users.map change
    invitedUsers := room.invitedUsers.map change }

end MatrixRoom

end Nio.Rooms
