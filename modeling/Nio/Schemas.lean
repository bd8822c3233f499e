import Nio.Py.JsonSchema

/-!
# The schemas of responses and events

Each schema keeps the name and the order of keywords that it has in the source. `const` is no
keyword of draft 4 and the format `room_id` has no checker, so neither checks anything.
-/

namespace Nio.Schemas

open Nio.Py
open Nio.Py.Schema

/-- A line break at the end, before which `$` also matches, is taken off. -/
def chompLine (s : Str) : Str := if s.getLast? = some (chr '\n') then s.dropLast else s

/-- `^!.+$` is found in the string. -/
def roomRegex : Str → Bool
  | c :: rest => c = chr '!' && chompLine rest ≠ [] && (chompLine rest).all (· ≠ chr '\n')
  | [] => false

def isBase64Char (c : CodePoint) : Bool :=
  c = chr '-' || c = chr '+' || c = chr '/' || c = chr '=' ||
    (chr 'A' ≤ c && c ≤ chr 'Z') || (chr 'a' ≤ c && c ≤ chr 'z') || (chr '0' ≤ c && c ≤ chr '9')

/-- A `=` that something other than `=` follows. -/
def equalsInside : Str → Bool
  | c :: d :: rest => (c = chr '=' && d ≠ chr '=') || equalsInside (d :: rest)
  | _ => false

/-- `[^-A-Za-z0-9+/=]|=[^=]|={3,}$` is found in the string: it is not base64. -/
def base64Regex (s : Str) : Bool :=
  s.any (fun c => !isBase64Char c) || equalsInside s || 3 ≤ (s.reverse.takeWhile (· = chr '=')).length

/-- The checker of the format `user_id` -/
def checkUserId (s : Str) : Bool := s.head? = some (chr '@') && chr ':' ∈ s

def userId : Schema := all [type .string, format checkUserId]
def string : Schema := type .string
def integer : Schema := type .integer

def eventList : Property := ⟨"events", some (.arr []), type .array⟩

/-- An object with a list of events, both of which have a default. -/
def eventSection (name : String) : Property :=
  ⟨name, some (.obj []), all [type .object, properties [eventList]]⟩

def roomTimeline : Schema := all [type .object,
  properties [prop "events" (type .array), prop "limited" (type .boolean),
    prop "prev_batch" string],
  required ["events"]]

def syncRoomState : Schema := all [type .object,
  properties [prop "events" (type .array)],
  required ["events"]]

def sync : Schema := all [type .object,
  properties [
    ⟨"device_one_time_keys_count", some (.obj []), all [type .object,
      properties [prop "curve25519" integer, prop "signed_curve25519" integer]]⟩,
    ⟨"device_lists", some (.obj []), all [type .object,
      properties [prop "changed" (all [type .array, items string]),
        prop "left" (all [type .array, items string])]]⟩,
    prop "next_batch" string,
    ⟨"rooms", some (.obj []), all [type .object,
      properties [
        ⟨"invite", some (.obj []), all [type .object, patternProperties roomRegex (all [type .object,
          properties [eventSection "invite_state"]])]⟩,
        ⟨"join", some (.obj []), all [type .object, patternProperties roomRegex (all [type .object,
          properties [
            prop "timeline" roomTimeline,
            eventSection "state",
            eventSection "ephemeral",
            prop "summary" (all [type .object,
              properties [prop "m.invited_member_count" integer,
                prop "m.joined_member_count" integer,
                prop "m.heroes" (all [type .array, items string])]]),
            eventSection "account_data"]])]⟩,
        ⟨"leave", some (.obj []), all [type .object, patternProperties roomRegex (all [type .object,
          properties [eventSection "timeline", eventSection "state"]])]⟩]]⟩,
    eventSection "to_device",
    eventSection "presence"],
  required ["next_batch"]]

/-- `additionalProperties` where no property has a schema of its own -/
def each (s : Schema) : Schema := patternProperties (fun _ => true) s

def objects : Schema := all [type .array, items (type .object)]

def slidingSyncRoom : Schema := all [type .object,
  properties [
    prop "bump_stamp" (nullable .integer),
    prop "membership" (nullable .string),
    prop "lists" (all [nullable .array, items string]),
    prop "name" (nullable .string),
    prop "avatar" (nullable .string),
    prop "heroes" (all [nullable .array, items (all [type .object,
      properties [prop "user_id" string, prop "displayname" (nullable .string),
        prop "avatar_url" (nullable .string)],
      required ["user_id"]])]),
    prop "is_dm" (nullable .boolean),
    prop "initial" (type .boolean),
    prop "expanded_timeline" (type .boolean),
    prop "unstable_expanded_timeline" (type .boolean),
    prop "required_state" (all [type .array, items (all [type .object,
      properties [prop "type" string, prop "state_key" string],
      required ["type", "state_key"]])]),
    prop "timeline" objects,
    prop "prev_batch" (nullable .string),
    prop "limited" (type .boolean),
    prop "num_live" (nullable .integer),
    prop "joined_count" (nullable .integer),
    prop "invited_count" (nullable .integer),
    prop "notification_count" (nullable .integer),
    prop "highlight_count" (nullable .integer),
    prop "stripped_state" objects,
    prop "invite_state" objects]]

def slidingSync : Schema := all [type .object,
  properties [
    prop "pos" string,
    prop "lists" (all [type .object, each (all [type .object,
      properties [prop "count" integer], required ["count"]])]),
    prop "rooms" (all [type .object, each slidingSyncRoom]),
    prop "extensions" (all [type .object, properties [
      prop "to_device" (all [type .object,
        properties [prop "events" objects, prop "next_batch" string]]),
      prop "e2ee" (all [type .object, properties [
        prop "device_one_time_keys_count" (all [type .object,
          properties [prop "curve25519" integer, prop "signed_curve25519" integer]]),
        prop "device_lists" (all [type .object,
          properties [prop "changed" (all [type .array, items string]),
            prop "left" (all [type .array, items string])]])]]),
      prop "account_data" (all [type .object,
        properties [prop "global" objects, prop "rooms" (all [type .object, each objects])]])]])],
  required ["pos"]]

def toDevice : Schema := all [type .object,
  properties [prop "sender" userId, prop "type" string, prop "content" (type .object)],
  required ["sender", "type", "content"]]

def roomEncrypted : Schema := all [type .object,
  properties [prop "content" (all [type .object,
    properties [prop "sender_key" string, prop "algorithm" string],
    required ["sender_key", "algorithm"]])],
  required ["content"]]

def roomOlmEncrypted : Schema := all [type .object,
  properties [
    prop "type" (all [string, enum ["m.room.encrypted"]]),
    prop "content" (all [type .object,
      properties [
        prop "sender_key" string,
        prop "algorithm" (all [string, enum ["m.olm.v1.curve25519-aes-sha2"]]),
        prop "ciphertext" (all [type .object, patternProperties base64Regex (all [type .object,
          properties [prop "body" string, prop "type" integer],
          required ["type", "body"]])])],
      required ["sender_key", "algorithm", "ciphertext"]])],
  required ["type", "content"]]

def roomKeyRequest : Schema := all [type .object,
  properties [
    prop "sender" userId,
    prop "type" (all [string, enum ["m.room_key_request"]]),
    prop "content" (all [type .object,
      properties [
        prop "body" (all [type .object,
          properties [prop "algorithm" string, prop "room_id" string, prop "sender_key" string,
            prop "session_id" string],
          required ["algorithm", "room_id", "sender_key", "session_id"]]),
        prop "requesting_device_id" string,
        prop "action" (all [string, enum ["request", "request_cancellation"]]),
        prop "request_id" string],
      required ["requesting_device_id", "request_id", "action", "body"]])],
  required ["type", "sender", "content"]]

def roomKeyRequestCancel : Schema := all [type .object,
  properties [
    prop "sender" userId,
    prop "type" (all [string, enum ["m.room_key_request"]]),
    prop "content" (all [type .object,
      properties [prop "requesting_device_id" string,
        prop "action" (all [string, enum ["request", "request_cancellation"]]),
        prop "request_id" string],
      required ["requesting_device_id", "request_id", "action"]])],
  required ["type", "sender", "content"]]

def forwardedRoomKeyEvent : Schema := all [type .object,
  properties [
    prop "sender" userId,
    prop "sender_device" string,
    prop "type" (all [string, enum ["m.forwarded_room_key"]]),
    prop "content" (all [type .object,
      properties [prop "algorithm" string, prop "room_id" string, prop "sender_key" string,
        prop "sender_claimed_ed25519_key" string,
        prop "forwarding_curve25519_key_chain" (all [type .array, items string]),
        prop "session_id" string, prop "session_key" string],
      required ["algorithm", "room_id", "session_id", "session_key", "sender_key",
        "sender_claimed_ed25519_key", "forwarding_curve25519_key_chain"]])],
  required ["type", "sender", "content"]]

/-! ## Key verification -/

def strings : Schema := all [type .array, items string]

/-- An event with a sender and a content of the given properties. -/
def verificationEvent (ps : List Property) (names : List String) : Schema := all [type .object,
  properties [prop "sender" string, prop "content" (all [type .object, properties ps,
    required names])],
  required ["sender", "content"]]

def keyVerificationStart : Schema := verificationEvent
  [prop "transaction_id" string, prop "from_device" string, prop "method" string,
    prop "key_agreement_protocols" strings, prop "hashes" strings,
    prop "message_authentication_codes" strings, prop "short_authentication_string" strings]
  ["transaction_id", "from_device", "method", "key_agreement_protocols", "hashes",
    "message_authentication_codes", "short_authentication_string"]

def keyVerificationAccept : Schema := verificationEvent
  [prop "transaction_id" string, prop "commitment" string, prop "key_agreement_protocol" string,
    prop "hash" string, prop "message_authentication_code" string,
    prop "short_authentication_string" strings]
  ["transaction_id", "commitment", "key_agreement_protocol", "hash",
    "message_authentication_code", "short_authentication_string"]

def keyVerificationKey : Schema := verificationEvent
  [prop "transaction_id" string, prop "key" string] ["transaction_id", "key"]

/-- The transaction id is required but not checked; `.+` is found where a line is not empty. -/
def keyVerificationMac : Schema := verificationEvent
  [prop "mac" (all [type .object, patternProperties (fun k => k.any (· ≠ chr '\n')) string]),
    prop "keys" string]
  ["transaction_id", "mac", "keys"]

def keyVerificationCancel : Schema := verificationEvent
  [prop "transaction_id" string, prop "code" string, prop "reason" string]
  ["transaction_id", "code", "reason"]

/-! ## Key management -/

/-- `^@.*:.+$` is found in the string. -/
def userIdRegex : Str → Bool
  | c :: rest => c = chr '@' && (chompLine rest).all (· ≠ chr '\n') &&
      (chompLine rest).dropLast.any (· = chr ':')
  | [] => false

/-- The word with something other than a line break behind it is found in the string. -/
def foundBefore (word : String) (s : Str) : Bool :=
  s.tails.any fun t => (py word).isPrefixOf t && (t.drop (py word).length).head?.any (· ≠ chr '\n')

/-- `(ed25519|curve25519):.+` is found in the string. -/
def keyRegex (s : Str) : Bool := foundBefore "ed25519:" s || foundBefore "curve25519:" s

/-- `.+` is found in the string. -/
def someLine (s : Str) : Bool := s.any (· ≠ chr '\n')

def keysUpload : Schema := all [type .object,
  properties [prop "one_time_key_counts" (all [type .object,
    properties [⟨"curve25519", some (.int 0), integer⟩,
      ⟨"signed_curve25519", some (.int 0), integer⟩]])],
  required ["one_time_key_counts"]]

def keysQuery : Schema := all [type .object,
  properties [
    prop "device_keys" (all [type .object, patternProperties userIdRegex (all [type .object,
      patternProperties someLine (all [type .object,
        properties [
          prop "algorithms" strings,
          prop "device_id" string,
          prop "user_id" string,
          prop "keys" (all [type .object, patternProperties keyRegex string]),
          prop "signatures" (all [type .object, patternProperties userIdRegex
            (all [type .object, patternProperties keyRegex string])])],
        required ["algorithms", "device_id", "keys"]])])]),
    prop "failures" (type .object)]]

/-- The keys of a device stand under a property called `patternProperties`, so none is checked. -/
def keysClaim : Schema := all [type .object,
  properties [
    prop "one_time_keys" (all [type .object, patternProperties userIdRegex (all [type .object,
      patternProperties someLine (type .object)])]),
    prop "failures" (type .object)],
  required ["one_time_keys"]]

def empty : Schema := all [type .object, noAdditional []]

end Nio.Schemas
