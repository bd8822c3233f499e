import Nio.Events.ToDevice
import Nio.RoomSchemas

/-!
# Room events

`Event.parse_event` and `Event.parse_decrypted_event` choose the class of an event by its type, and
the class checks the event against a schema of its own before it reads the fields. A field is kept
as the value that stands in the event; `none` is a `None` for a field that is not there.
-/

namespace Nio.Events

open Nio.Py

/-- The attributes of every `Event`. -/
structure EventFields where
  source : Json
  eventId : Json
  sender : Json
  serverTimestamp : Json

/-- `__post_init__` -/
def eventFields (source : Json) : Except PyError EventFields := do
  return ⟨source, ← getItem source "event_id", ← getItem source "sender",
    ← getItem source "origin_server_ts"⟩

structure DefaultLevels where
  ban : Json
  invite : Json
  kick : Json
  redact : Json
  stateDefault : Json
  eventsDefault : Json
  usersDefault : Json
  notifications : Json

structure PowerLevels where
  defaults : DefaultLevels
  users : Json
  events : Json

inductive MediaType where
  | image
  | audio
  | video
  | file
  deriving DecidableEq, Repr

/-- `thumbnail_file` of the `info` of a file -/
structure Thumbnail where
  url : Option Json
  key : Option Json
  hashes : Option Json
  iv : Option Json

inductive FormattedType where
  | text
  | emote
  | notice
  deriving DecidableEq, Repr

/-- The classes of `m.room.message`. -/
inductive RoomMessage where
  | media (type : MediaType) (url body : Json)
  | encryptedMedia (type : MediaType) (url body key hashes iv : Json) (mimetype : Option Json)
      (thumbnail : Thumbnail)
  | formatted (type : FormattedType) (body : Json) (formattedBody format : Option Json)
  | unknown (msgtype content : Json)

/-- The classes of room events, without the attributes of `Event`. -/
inductive RoomEventClass where
  | unknown (type : Json)
  | unknownEncrypted (type algorithm : Json)
  | megolm (senderKey sessionId deviceId ciphertext algorithm : Json) (roomId : Option Json)
  | callCandidates (callId version candidates : Json)
  | callInvite (callId version lifetime offer : Json)
  | callAnswer (callId version answer : Json)
  | callHangup (callId version : Json)
  | redacted (type redacter : Json) (reason : Option Json)
  | roomEncryption
  | roomCreate (federate roomVersion roomType additionalCreators : Json)
  | roomGuestAccess (guestAccess : Json)
  | roomJoinRules (joinRule : Json)
  | roomHistoryVisibility (historyVisibility : Json)
  | roomAlias (canonicalAlias : Option Json)
  | roomName (name : Json)
  | roomTopic (topic : Json)
  | roomAvatar (avatarUrl : Option Json)
  | roomSpaceParent (stateKey canonical : Json)
  | roomSpaceChild (stateKey suggested : Json)
  | roomMessage (message : RoomMessage)
  | powerLevels (levels : PowerLevels)
  | redaction (redacts reason : Option Json)
  | roomMember (stateKey membership : Json) (prevMembership : Option Json) (content : Json)
      (prevContent : Option Json)
  | sticker (body url content : Json)
  | reaction (reactsTo key : Json)
  | roomUpgrade (body replacementRoom : Json)

/-- What the parsers return. -/
inductive RoomEvent where
  | bad (event : BadEventType) (transactionId : Option Json)
  | event (event : EventFields) (cls : RoomEventClass) (transactionId : Option Json)

/-- An event without a transaction id, of a class that is read from the event. -/
def RoomEvent.of (event : Json) (cls : RoomEventClass) : Except PyError RoomEvent := do
  return .event (← eventFields event) cls none

/-- `verify` for a class of room events -/
def verifyRoomEvent (schema : Schema) (parse : Json → Except PyError RoomEventClass) :
    Json → Except PyError RoomEvent :=
  verify schema (.bad · none) fun event => do RoomEvent.of event (← parse event)

def unknownEventFromDict (event : Json) : Except PyError RoomEvent := do
  RoomEvent.of event (.unknown (← getItem event "type"))

/-! ## Encrypted events -/

def megolmFromDict : Json → Except PyError RoomEvent :=
  verify Schemas.roomMegolmEncrypted (.bad · none) fun event => do
    let content ← getItem event "content"
    let ciphertext ← getItem content "ciphertext"
    let senderKey ← getItem content "sender_key"
    let sessionId ← getItem content "session_id"
    let deviceId ← getItem content "device_id"
    let algorithm ← getItem content "algorithm"
    let roomId ← getOptional event "room_id"
    let txId ← unsignedTransactionId event
    return .event (← eventFields event)
      (.megolm senderKey sessionId deviceId ciphertext algorithm roomId) txId

def unknownEncryptedFromDict (event : Json) : Except PyError RoomEvent := do
  RoomEvent.of event (.unknownEncrypted (← getItem event "type")
    (← getItem (← getItem event "content") "algorithm"))

/-- `Event.parse_encrypted_event` -/
def parseEncryptedRoomEvent : Json → Except PyError RoomEvent :=
  verify Schemas.roomEncrypted (.bad · none) fun event => do
    let content ← getItem event "content"
    if (← getStr content "algorithm") = py "m.megolm.v1.aes-sha2" then megolmFromDict event
    else unknownEncryptedFromDict event

/-! ## Calls -/

def callCandidatesFromDict : Json → Except PyError RoomEvent :=
  verifyRoomEvent Schemas.callCandidates fun event => do
    let content ← getDefault event "content" (.obj [])
    return .callCandidates (← getItem content "call_id") (← getItem content "version")
      (← getItem content "candidates")

def callInviteFromDict : Json → Except PyError RoomEvent :=
  verifyRoomEvent Schemas.callInvite fun event => do
    let content ← getDefault event "content" (.obj [])
    return .callInvite (← getItem content "call_id") (← getItem content "version")
      (← getItem content "lifetime") (← getItem content "offer")

def callAnswerFromDict : Json → Except PyError RoomEvent :=
  verifyRoomEvent Schemas.callAnswer fun event => do
    let content ← getDefault event "content" (.obj [])
    return .callAnswer (← getItem content "call_id") (← getItem content "version")
      (← getItem content "answer")

def callHangupFromDict : Json → Except PyError RoomEvent :=
  verifyRoomEvent Schemas.callHangup fun event => do
    let content ← getDefault event "content" (.obj [])
    return .callHangup (← getItem content "call_id") (← getItem content "version")

/-- `CallEvent.parse_event` -/
def parseCallEvent (type : Str) (event : Json) : Except PyError RoomEvent :=
  if type = py "m.call.candidates" then callCandidatesFromDict event
  else if type = py "m.call.invite" then callInviteFromDict event
  else if type = py "m.call.answer" then callAnswerFromDict event
  else if type = py "m.call.hangup" then callHangupFromDict event
  else unknownEventFromDict event

/-! ## State events -/

def redactedFromDict : Json → Except PyError RoomEvent :=
  verifyRoomEvent Schemas.redactedEvent fun event => do
    let because ← getItem (← getItem event "unsigned") "redacted_because"
    let redacter ← getItem because "sender"
    let reason ← getOptional (← getItem because "content") "reason"
    return .redacted (← getItem event "type") redacter reason

def roomEncryptionFromDict : Json → Except PyError RoomEvent :=
  verifyRoomEvent Schemas.roomEncryption fun _ => return .roomEncryption

def roomCreateFromDict : Json → Except PyError RoomEvent :=
  verifyRoomEvent Schemas.roomCreate fun event => do
    let content ← getItem event "content"
    return .roomCreate (← getItem content "m.federate") (← getItem content "room_version")
      (← getDefault content "type" (.str [])) (← getDefault content "additional_creators" (.arr []))

/-- A class with one field that its schema requires -/
def requiredFromDict (schema : Schema) (field : String) (cls : Json → RoomEventClass) :
    Json → Except PyError RoomEvent :=
  verifyRoomEvent schema fun event => do
    return cls (← getItem (← getItem event "content") field)

def roomGuestAccessFromDict : Json → Except PyError RoomEvent :=
  requiredFromDict Schemas.roomGuestAccess "guest_access" .roomGuestAccess

def roomJoinRulesFromDict : Json → Except PyError RoomEvent :=
  requiredFromDict Schemas.roomJoinRules "join_rule" .roomJoinRules

def roomHistoryVisibilityFromDict : Json → Except PyError RoomEvent :=
  requiredFromDict Schemas.roomHistoryVisibility "history_visibility" .roomHistoryVisibility

def roomNameFromDict : Json → Except PyError RoomEvent :=
  requiredFromDict Schemas.roomName "name" .roomName

def roomTopicFromDict : Json → Except PyError RoomEvent :=
  requiredFromDict Schemas.roomTopic "topic" .roomTopic

/-- A class with one field that may be missing -/
def optionalFromDict (schema : Schema) (field : String) (cls : Option Json → RoomEventClass) :
    Json → Except PyError RoomEvent :=
  verifyRoomEvent schema fun event => do
    return cls (← getOptional (← getItem event "content") field)

def roomAliasFromDict : Json → Except PyError RoomEvent :=
  optionalFromDict Schemas.roomCanonicalAlias "alias" .roomAlias

def roomAvatarFromDict : Json → Except PyError RoomEvent :=
  optionalFromDict Schemas.roomAvatar "url" .roomAvatar

/-- An event about a space: its state key, and a flag that defaults to `False` -/
def spaceFromDict (schema : Schema) (flag : String) (cls : Json → Json → RoomEventClass) :
    Json → Except PyError RoomEvent :=
  verifyRoomEvent schema fun event => do
    let content ← getItem event "content"
    return cls (← getItem event "state_key") (← getDefault content flag (.bool false))

def roomSpaceParentFromDict : Json → Except PyError RoomEvent :=
  spaceFromDict Schemas.roomSpaceParent "canonical" .roomSpaceParent

def roomSpaceChildFromDict : Json → Except PyError RoomEvent :=
  spaceFromDict Schemas.roomSpaceChild "suggested" .roomSpaceChild

def defaultLevelsFromDict (event : Json) : Except PyError DefaultLevels := do
  let content ← getItem event "content"
  return ⟨← getItem content "ban", ← getItem content "invite", ← getItem content "kick",
    ← getItem content "redact", ← getItem content "state_default",
    ← getItem content "events_default", ← getItem content "users_default",
    ← getItem content "notifications"⟩

def powerLevelsFromDict : Json → Except PyError RoomEvent :=
  verifyRoomEvent Schemas.roomPowerLevels fun event => do
    let defaultLevels ← defaultLevelsFromDict event
    let users ← getDefault (← getItem event "content") "users" (.obj [])
    let events ← getDefault (← getItem event "content") "events" (.obj [])
    return .powerLevels ⟨defaultLevels, users, events⟩

/-- `prev_content.get("membership") if prev_content else None` -/
def prevMembership : Option Json → Except PyError (Option Json)
  | none => .ok none
  | some prevContent =>
    if truthy prevContent then getOptional prevContent "membership" else .ok none

def roomMemberFromDict : Json → Except PyError RoomEvent :=
  verifyRoomEvent Schemas.roomMembership fun event => do
    let content ← getDefault event "content" (.obj [])
    let unsigned ← getDefault event "unsigned" (.obj [])
    let prevContent ← getOptional unsigned "prev_content"
    let membership ← getItem content "membership"
    let prevMembership ← prevMembership prevContent
    return .roomMember (← getItem event "state_key") membership prevMembership content prevContent

def roomUpgradeFromDict : Json → Except PyError RoomEvent :=
  verifyRoomEvent Schemas.roomTombstone fun event => do
    let content ← getDefault event "content" (.obj [])
    return .roomUpgrade (← getDefault content "body" (.str []))
      (← getDefault content "replacement_room" (.str []))

/-! ## Other events -/

/-- `parsed_dict.get("redacts", content.get("redacts"))` -/
def redactionFromDict : Json → Except PyError RoomEvent :=
  verifyRoomEvent Schemas.roomRedaction fun event => do
    let content ← getDefault event "content" (.obj [])
    let reason ← getOptional content "reason"
    let inContent ← getOptional content "redacts"
    match ← getOptional event "redacts" with
    | some redacts => return .redaction (some redacts) reason
    | none => return .redaction inContent reason

def stickerFromDict : Json → Except PyError RoomEvent :=
  verifyRoomEvent Schemas.sticker fun event => do
    let content ← getDefault event "content" (.obj [])
    return .sticker (← getItem content "body") (← getItem content "url") content

def reactionFromDict : Json → Except PyError RoomEvent :=
  verifyRoomEvent Schemas.reaction fun event => do
    let content ← getItem (← getItem event "content") "m.relates_to"
    return .reaction (← getItem content "event_id") (← getItem content "key")

/-! ## Messages -/

def roomMessageMediaFromDict (type : MediaType) : Json → Except PyError RoomEvent :=
  verifyRoomEvent Schemas.roomMessageMedia fun event => do
    return .roomMessage (.media type (← getItem (← getItem event "content") "url")
      (← getItem (← getItem event "content") "body"))

def thumbnailOf (info : Json) : Except PyError Thumbnail := do
  let file ← getDefault info "thumbnail_file" (.obj [])
  return ⟨← getOptional file "url", ← getOptional file "key", ← getOptional file "hashes",
    ← getOptional file "iv"⟩

/-- `info.get("mimetype") or parsed_dict["content"]["file"].get("mimetype")` -/
def mimetypeOf (event info : Json) : Except PyError (Option Json) := do
  match ← getOptional info "mimetype" with
  | some mimetype =>
    if truthy mimetype then return some mimetype
    else getOptional (← getItem (← getItem event "content") "file") "mimetype"
  | none => getOptional (← getItem (← getItem event "content") "file") "mimetype"

def roomEncryptedMediaFromDict (type : MediaType) : Json → Except PyError RoomEvent :=
  verifyRoomEvent Schemas.roomEncryptedMedia fun event => do
    let info ← getDefault (← getItem event "content") "info" (.obj [])
    let thumbnail ← thumbnailOf info
    let mimetype ← mimetypeOf event info
    let content ← getItem event "content"
    let file ← getItem content "file"
    return .roomMessage (.encryptedMedia type (← getItem file "url") (← getItem content "body")
      (← getItem file "key") (← getItem file "hashes") (← getItem file "iv") mimetype thumbnail)

def formattedSchema : FormattedType → Schema
  | .text => Schemas.roomMessageText
  | .emote => Schemas.roomMessageEmote
  | .notice => Schemas.roomMessageNotice

/-- `RoomMessageFormatted.from_dict`; only an event with a format has a formatted body. -/
def roomMessageFormattedFromDict (type : FormattedType) : Json → Except PyError RoomEvent :=
  verifyRoomEvent (formattedSchema type) fun event => do
    let content ← getItem event "content"
    let body ← getItem content "body"
    let format ← getOptional content "format"
    let formattedBody ←
      if (format.map truthy).getD false then getOptional content "formatted_body" else .ok none
    return .roomMessage (.formatted type body formattedBody format)

def roomMessageUnknownFromDict (event : Json) : Except PyError RoomEvent := do
  RoomEvent.of event (.roomMessage (.unknown (← getItem (← getItem event "content") "msgtype")
    (← getDefault event "content" (.obj []))))

/-- The keys of `media_classes` -/
def mediaType? (msgtype : Str) : Option MediaType :=
  if msgtype = py "m.image" then some .image
  else if msgtype = py "m.audio" then some .audio
  else if msgtype = py "m.video" then some .video
  else if msgtype = py "m.file" then some .file
  else none

/-- The class of a message by its `msgtype`, and by whether an attachment has encryption metadata -/
def messageFromDict (msgtype : Str) (encrypted : Bool) (event : Json) : Except PyError RoomEvent :=
  match mediaType? msgtype with
  | some type =>
    if encrypted then roomEncryptedMediaFromDict type event else roomMessageMediaFromDict type event
  | none =>
    if msgtype = py "m.text" then roomMessageFormattedFromDict .text event
    else if msgtype = py "m.emote" then roomMessageFormattedFromDict .emote event
    else if msgtype = py "m.notice" then roomMessageFormattedFromDict .notice event
    else roomMessageUnknownFromDict event

/-- `event.transaction_id = txn_id`, which a bad event also takes -/
def RoomEvent.setTransactionId (e : RoomEvent) (transactionId : Option Json) : RoomEvent :=
  match e with
  | .bad source _ => .bad source transactionId
  | .event fields cls _ => .event fields cls transactionId

/-- `RoomMessage.parse_event`, which is `RoomMessage.parse_decrypted_event` as well -/
def parseRoomMessage : Json → Except PyError RoomEvent :=
  verify Schemas.roomMessage (.bad · none) fun event => do
    let content ← getItem event "content"
    let parsed ← messageFromDict (← getStr content "msgtype") (← contains content "file") event
    match event.get? (py "unsigned") with
    | none => return parsed
    | some unsigned => return parsed.setTransactionId (← getOptional unsigned "transaction_id")

/-! ## All events of a room -/

/-- The types that one class reads, without those of messages and encrypted events -/
def stateParsers : List (String × (Json → Except PyError RoomEvent)) :=
  [("m.room.create", roomCreateFromDict),
    ("m.room.guest_access", roomGuestAccessFromDict),
    ("m.room.join_rules", roomJoinRulesFromDict),
    ("m.room.history_visibility", roomHistoryVisibilityFromDict),
    ("m.room.member", roomMemberFromDict),
    ("m.room.canonical_alias", roomAliasFromDict),
    ("m.room.name", roomNameFromDict),
    ("m.room.topic", roomTopicFromDict),
    ("m.room.avatar", roomAvatarFromDict),
    ("m.room.power_levels", powerLevelsFromDict),
    ("m.room.encryption", roomEncryptionFromDict),
    ("m.room.redaction", redactionFromDict),
    ("m.room.tombstone", roomUpgradeFromDict),
    ("m.space.parent", roomSpaceParentFromDict),
    ("m.space.child", roomSpaceChildFromDict)]

def stateFromDict? (type : Str) : Option (Json → Except PyError RoomEvent) :=
  (stateParsers.find? fun p => py p.1 = type).map (·.2)

/-- `"redacted_because" in event_dict["unsigned"]`, if there is such a section -/
def isRedacted (event : Json) : Except PyError Bool :=
  match event.get? (py "unsigned") with
  | none => .ok false
  | some unsigned => contains unsigned "redacted_because"

/-- The class of an event that is not redacted -/
def roomEventFromDict (type : Str) (event : Json) : Except PyError RoomEvent :=
  if type = py "m.room.message" then parseRoomMessage event
  else match stateFromDict? type with
  | some fromDict => fromDict event
  | none =>
    if type = py "m.room.encrypted" then parseEncryptedRoomEvent event
    else if type = py "m.sticker" then stickerFromDict event
    else if type = py "m.reaction" then reactionFromDict event
    else if (py "m.call").isPrefixOf type then parseCallEvent type event
    else unknownEventFromDict event

/-- `Event.parse_event` -/
def parseEvent : Json → Except PyError RoomEvent :=
  verify Schemas.roomEvent (.bad · none) fun event => do
    if ← isRedacted event then redactedFromDict event
    else roomEventFromDict (← getStr event "type") event

/-- `Event.parse_decrypted_event` -/
def parseDecryptedEvent : Json → Except PyError RoomEvent :=
  verify Schemas.roomMegolmDecrypted (.bad · none) fun event => do
    if ← isRedacted event then redactedFromDict event
    else
      let type ← getStr event "type"
      -- an event that is encrypted twice would lead the parser into a loop
      if type = py "m.room.encrypted" then return .bad (← badOrUnknown event) none
      else if type = py "m.room.message" then parseRoomMessage event
      else parseEvent event

end Nio.Events
