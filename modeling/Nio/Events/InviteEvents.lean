import Nio.Events.RoomEvents

/-!
# Events of an invited room

`InviteEvent.parse_event` on the stripped state that comes with an invite. A stripped event has
neither an event id nor a timestamp, and its `unsigned` section is not checked.
-/

namespace Nio.Events

open Nio.Py

inductive InviteEvent where
  | bad (event : BadEventType)
  | member (source sender stateKey membership : Json) (prevMembership : Option Json)
      (content : Json) (prevContent : Option Json)
  | alias (source sender : Json) (canonicalAlias : Option Json)
  | name (source sender name : Json)

/-- The content is taken out of the event that the class keeps. -/
def popContent : Json → Json
  | .obj kvs => .obj (dictErase kvs (py "content"))
  | v => v

def inviteMemberFromDict : Json → Except PyError InviteEvent :=
  verify Schemas.roomMembership .bad fun event => do
    let content ← getItem event "content"
    let event := popContent event
    let unsigned ← getDefault event "unsigned" (.obj [])
    let prevContent ← getOptional unsigned "prev_content"
    let membership ← getItem content "membership"
    let prevMembership ← prevMembership prevContent
    return .member event (← getItem event "sender") (← getItem event "state_key") membership
      prevMembership content prevContent

def inviteAliasFromDict : Json → Except PyError InviteEvent :=
  verify Schemas.roomCanonicalAlias .bad fun event => do
    let sender ← getItem event "sender"
    return .alias event sender (← getOptional (← getItem event "content") "alias")

def inviteNameFromDict : Json → Except PyError InviteEvent :=
  verify Schemas.roomName .bad fun event => do
    let sender ← getItem event "sender"
    return .name event sender (← getItem (← getItem event "content") "name")

/-- `InviteEvent.parse_event`; `none` for a redacted event and an unknown type -/
def parseInviteEvent : Json → Except PyError (Option InviteEvent) :=
  verify Schemas.inviteEvent (fun b => some (.bad b)) fun event => do
    if ← isRedacted event then return none
    else
      let type ← getStr event "type"
      if type = py "m.room.member" then return some (← inviteMemberFromDict event)
      else if type = py "m.room.canonical_alias" then return some (← inviteAliasFromDict event)
      else if type = py "m.room.name" then return some (← inviteNameFromDict event)
      else return none

end Nio.Events
