import Nio.Schemas

/-!
# The schemas of room events

The schemas of the events that `Event.parse_event`, `InviteEvent.parse_event` and
`AccountDataEvent.parse_event` read, with the names that they have in the source. The `info` of an
avatar is described by words that are no keywords, so nothing in it is checked.
-/

namespace Nio.Schemas

open Nio.Py
open Nio.Py.Schema

/-- `^.+\..+` is found in the string. -/
def eventTypeRegex (s : Str) : Bool :=
  ((s.takeWhile (· ≠ chr '\n')).drop 1).dropLast.any (· = chr '.')

/-! ## Envelopes -/

def roomEvent : Schema := all [type .object,
  properties [
    prop "event_id" string,
    prop "sender" userId,
    prop "type" string,
    prop "origin_server_ts" (all [integer, minimum 0]),
    prop "unsigned" (all [type .object, properties [prop "transaction_id" string]])],
  required ["event_id", "sender", "type", "origin_server_ts"]]

def inviteEvent : Schema := all [type .object,
  properties [prop "content" (type .object), prop "type" string],
  required ["content", "type"]]

def redactedEvent : Schema := all [type .object,
  properties [prop "unsigned" (all [type .object,
    properties [prop "redacted_because" (all [type .object,
      properties [prop "sender" userId,
        prop "content" (all [type .object, properties [prop "reason" string]])],
      required ["sender", "content"]])],
    required ["redacted_because"]])],
  required ["unsigned"]]

def roomMegolmDecrypted : Schema := all [type .object,
  properties [prop "type" string, prop "content" (type .object)],
  required ["type", "content"]]

def roomMegolmEncrypted : Schema := all [type .object,
  properties [
    prop "type" (all [string, enum ["m.room.encrypted"]]),
    prop "event_id" string,
    prop "sender" userId,
    prop "origin_server_ts" (all [integer, minimum 0]),
    prop "room_id" string,
    prop "content" (all [type .object,
      properties [prop "sender_key" string,
        prop "algorithm" (all [string, enum ["m.megolm.v1.aes-sha2"]]),
        prop "ciphertext" string, prop "session_id" string, prop "device_id" string],
      required ["sender_key", "algorithm", "ciphertext", "session_id", "device_id"]])],
  required ["type", "content", "event_id", "sender", "origin_server_ts"]]

/-! ## Messages -/

def roomMessage : Schema := all [type .object,
  properties [prop "content" (all [type .object, properties [prop "msgtype" string],
    required ["msgtype"]])],
  negate (required ["state_key"])]

/-- `room_message_text`, `room_message_emote` and `room_message_notice` differ in a `const`, which
draft 4 does not know. -/
def formattedMessage : Schema := all [type .object,
  properties [prop "content" (all [type .object,
    properties [prop "msgtype" string, prop "body" string, prop "formatted_body" string,
      prop "format" string],
    required ["msgtype", "body"]])]]

def roomMessageText : Schema := formattedMessage
def roomMessageEmote : Schema := formattedMessage
def roomMessageNotice : Schema := formattedMessage

def mediaTypes : List String := ["m.image", "m.audio", "m.video", "m.file"]

def roomMessageMedia : Schema := all [type .object,
  properties [prop "content" (all [type .object,
    properties [prop "body" string, prop "url" string,
      prop "msgtype" (all [string, enum mediaTypes])],
    required ["body", "url", "msgtype"]])]]

/-- The place of an encrypted file and what decrypts it -/
def encryptedFile : Schema := all [type .object,
  properties [
    prop "url" string,
    prop "hashes" (all [type .object, properties [prop "sha256" string]]),
    prop "iv" string,
    prop "key" (all [type .object, properties [prop "alg" string, prop "k" string],
      required ["alg", "k"]])],
  required ["url", "hashes", "iv", "key"]]

def roomEncryptedMedia : Schema := all [type .object,
  properties [prop "content" (all [type .object,
    properties [
      prop "body" string,
      prop "msgtype" (all [string, enum mediaTypes]),
      prop "file" encryptedFile,
      prop "info" (all [type .object, properties [prop "thumbnail_file" encryptedFile]])],
    required ["body", "file", "msgtype"]])],
  required ["content"]]

/-! ## State -/

/-- A state event with the given content. -/
def stateContent (content : Schema) : Schema := all [type .object,
  properties [prop "sender" userId, prop "state_key" string, prop "type" string,
    prop "content" content],
  required ["type", "sender", "content", "state_key"]]

def roomCreate : Schema := stateContent (all [type .object,
  properties [
    ⟨"m.federate", some (.bool true), type .boolean⟩,
    ⟨"room_version", some (.str (py "1")), string⟩,
    ⟨"type", some (.str []), string⟩,
    prop "additional_creators" (all [type .array, items string]),
    prop "predecessor" (all [type .object, properties [prop "event_id" string,
      prop "room_id" string], required ["room_id"]])],
  required []])

/-- A content with one field that has a default among the values it may take. -/
def choice (name : String) (values : List String) (default : String) : Schema :=
  stateContent (all [type .object,
    properties [⟨name, some (.str (py default)), all [string, enum values]⟩], required [name]])

def roomGuestAccess : Schema := choice "guest_access" ["can_join", "forbidden"] "forbidden"

def roomJoinRules : Schema := choice "join_rule"
  ["public", "knock", "invite", "private", "restricted", "knock_restricted"] "invite"

def roomHistoryVisibility : Schema := choice "history_visibility"
  ["invited", "joined", "shared", "world_readable"] "shared"

def roomCanonicalAlias : Schema := stateContent (all [type .object,
  properties [prop "alias" (nullable .string)], required []])

def roomName : Schema := stateContent (all [type .object, properties [prop "name" string],
  required ["name"]])

def roomEncryption : Schema := stateContent (type .object)

def roomTopic : Schema := stateContent (all [type .object, properties [prop "topic" string],
  required ["topic"]])

def roomSpaceParent : Schema := stateContent (all [type .object,
  properties [⟨"canonical", some (.bool false), type .boolean⟩,
    prop "via" (all [type .array, items string])]])

def roomSpaceChild : Schema := stateContent (all [type .object,
  properties [⟨"suggested", some (.bool false), type .boolean⟩,
    prop "via" (all [type .array, items string]), prop "order" string]])

def roomAvatar : Schema := stateContent (all [type .object,
  properties [prop "info" (all []), prop "url" (nullable .string)], required []])

def roomPowerLevels : Schema := stateContent (all [type .object,
  properties [
    ⟨"ban", some (.int 50), integer⟩,
    ⟨"kick", some (.int 50), integer⟩,
    ⟨"invite", some (.int 50), integer⟩,
    ⟨"redact", some (.int 50), integer⟩,
    ⟨"users_default", some (.int 0), integer⟩,
    ⟨"events_default", some (.int 0), integer⟩,
    ⟨"state_default", some (.int 50), integer⟩,
    ⟨"events", some (.obj []), all [type .object, patternProperties eventTypeRegex integer]⟩,
    ⟨"users", some (.obj []), all [type .object, patternProperties userIdRegex integer]⟩,
    ⟨"notifications", some (.obj []), all [type .object,
      properties [⟨"room", some (.int 50), integer⟩]]⟩]])

def memberships : List String := ["invite", "join", "knock", "leave", "ban"]

def roomMembership : Schema := all [type .object,
  properties [
    prop "sender" userId,
    prop "state_key" userId,
    prop "type" (all [string, enum ["m.room.member"]]),
    prop "prev_content" (all [type .object,
      properties [prop "membership" (all [string, enum memberships]),
        prop "avatar_url" (nullable .string), prop "displayname" (nullable .string)],
      required ["membership"]]),
    prop "content" (all [type .object,
      properties [prop "membership" (all [string, enum memberships]),
        prop "reason" (nullable .string), prop "avatar_url" (nullable .string),
        prop "displayname" (nullable .string)],
      required ["membership"]])],
  required ["type", "sender", "state_key", "content"]]

def roomTombstone : Schema := all [type .object,
  properties [
    prop "type" string,
    prop "state_key" string,
    prop "content" (all [type .object,
      properties [prop "body" string, prop "replacement_room" string],
      required ["body", "replacement_room"]])],
  required ["sender", "type", "content", "state_key"]]

/-! ## Other events of a room -/

def roomRedaction : Schema := all [type .object,
  properties [
    prop "sender" userId,
    prop "redacts" string,
    prop "content" (all [type .object, properties [prop "reason" string, prop "redacts" string]])],
  required ["sender"],
  anyOf [required ["redacts"],
    all [required ["content"], properties [prop "content" (required ["redacts"])]]]]

def sticker : Schema := all [type .object,
  properties [
    prop "sender" userId,
    prop "content" (all [type .object, properties [prop "body" string, prop "url" string],
      required ["body", "url"]])],
  required ["sender"]]

def reaction : Schema := all [type .object,
  properties [
    prop "sender" userId,
    prop "content" (all [type .object,
      properties [prop "m.relates_to" (all [type .object,
        properties [prop "rel_type" string, prop "event_id" string, prop "key" string],
        required ["rel_type", "event_id", "key"]])],
      required ["m.relates_to"]])],
  required ["sender", "content"]]

/-- A call event: its `call_id`, its `version` and the given properties, all of them required -/
def callEvent (ps : List Property) : Schema := all [type .object,
  properties [prop "type" string, prop "content" (all [type .object,
    properties ([prop "call_id" string, prop "version" (types [.integer, .string])] ++ ps),
    required (["call_id", "version"] ++ ps.map (·.name))])],
  required ["type", "content"]]

/-- A session description of the given type -/
def sessionDescription (type : String) : Schema := all [Schema.type .object,
  properties [prop "type" (all [string, enum [type]]), prop "sdp" string],
  required ["type", "sdp"]]

def callInvite : Schema :=
  callEvent [prop "lifetime" integer, prop "offer" (sessionDescription "offer")]

def callAnswer : Schema := callEvent [prop "answer" (sessionDescription "answer")]

def callHangup : Schema := callEvent []

def callCandidates : Schema := callEvent [prop "candidates" (all [type .array,
  items (all [type .object,
    properties [prop "candidate" string, prop "sdpMLineIndex" integer, prop "sdpMid" string],
    required ["candidate", "sdpMLineIndex", "sdpMid"]])])]

end Nio.Schemas
