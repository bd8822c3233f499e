import Nio.Events.Misc
import Nio.Schemas
import Nio.Crypto.Sas

/-!
# To-device events

`ToDeviceEvent.parse_event` chooses the class of an event by its type. The fields of the classes
are typed: the schema of a class has checked each of them before it is read.
-/

namespace Nio.Events

open Nio.Py
open Nio.Crypto (KeyVerificationStart KeyVerificationAccept KeyVerificationKey KeyVerificationMac
  KeyVerificationCancel)

structure OlmEvent where
  source : Json
  sender : Str
  senderKey : Str
  ciphertext : List (Str × Json)
  transactionId : Option Json

structure RoomKeyRequest where
  source : Json
  sender : Str
  requestingDeviceId : Str
  requestId : Str
  algorithm : Str
  roomId : Str
  senderKey : Str
  sessionId : Str

structure RoomKeyRequestCancellation where
  source : Json
  sender : Str
  requestingDeviceId : Str
  requestId : Str

inductive ToDeviceEvent where
  | bad (event : BadEventType)
  | olm (event : OlmEvent)
  | keyVerificationStart (event : KeyVerificationStart)
  | keyVerificationAccept (event : KeyVerificationAccept)
  | keyVerificationKey (event : KeyVerificationKey)
  | keyVerificationMac (event : KeyVerificationMac)
  | keyVerificationCancel (event : KeyVerificationCancel)
  | roomKeyRequest (event : RoomKeyRequest)
  | roomKeyRequestCancellation (event : RoomKeyRequestCancellation)
  | unknown (source : Json) (sender type : Str)

/-! ## Fields -/

/-- A field that the schema has found to be a string. -/
def getStr (v : Json) (key : String) : Except PyError Str := do
  match ← getItem v key with
  | .str s => .ok s
  | _ => .error .type

/-- A field that the schema has found to be an object. -/
def getObj (v : Json) (key : String) : Except PyError (List (Str × Json)) := do
  match ← getItem v key with
  | .obj kvs => .ok kvs
  | _ => .error .type

/-- A field that the schema has found to be a list of strings. -/
def getStrs (v : Json) (key : String) : Except PyError (List Str) := do
  match ← getItem v key with
  | .arr vs => .ok (vs.filterMap Json.asStr?)
  | _ => .error .type

/-- `event_dict["unsigned"].get("transaction_id", None) if "unsigned" in event_dict else None` -/
def unsignedTransactionId (event : Json) : Except PyError (Option Json) :=
  match event.get? (py "unsigned") with
  | none => .ok none
  | some (.obj kvs) => .ok (dictGet? kvs (py "transaction_id"))
  | some _ => .error .attribute

/-! ## Classes -/

def olmFromDict : Json → Except PyError ToDeviceEvent :=
  verify Schemas.roomOlmEncrypted .bad fun event => do
    let content ← getItem event "content"
    let ciphertext ← getObj content "ciphertext"
    let senderKey ← getStr content "sender_key"
    let txId ← unsignedTransactionId event
    return .olm ⟨event, ← getStr event "sender", senderKey, ciphertext, txId⟩

/-- `None` for an algorithm that is not Olm's -/
def parseEncryptedEvent : Json → Except PyError (Option ToDeviceEvent) :=
  verify Schemas.roomEncrypted (fun b => some (.bad b)) fun event => do
    let content ← getItem event "content"
    if (← getStr content "algorithm") = py "m.olm.v1.curve25519-aes-sha2" then
      return some (← olmFromDict event)
    else return none

def keyVerificationStartFromDict : Json → Except PyError ToDeviceEvent :=
  verify Schemas.keyVerificationStart .bad fun event => do
    let content ← getItem event "content"
    return .keyVerificationStart ⟨← getStr event "sender", ← getStr content "transaction_id", content,
      ← getStr content "from_device", ← getStr content "method",
      ← getStrs content "key_agreement_protocols", ← getStrs content "hashes",
      ← getStrs content "message_authentication_codes",
      ← getStrs content "short_authentication_string"⟩

def keyVerificationAcceptFromDict : Json → Except PyError ToDeviceEvent :=
  verify Schemas.keyVerificationAccept .bad fun event => do
    let content ← getItem event "content"
    return .keyVerificationAccept ⟨← getStr event "sender", ← getStr content "transaction_id",
      ← getStr content "commitment", ← getStr content "key_agreement_protocol",
      ← getStr content "hash", ← getStr content "message_authentication_code",
      ← getStrs content "short_authentication_string"⟩

def keyVerificationKeyFromDict : Json → Except PyError ToDeviceEvent :=
  verify Schemas.keyVerificationKey .bad fun event => do
    let content ← getItem event "content"
    return .keyVerificationKey ⟨← getStr event "sender", ← getStr content "transaction_id",
      ← getStr content "key"⟩

def keyVerificationMacFromDict : Json → Except PyError ToDeviceEvent :=
  verify Schemas.keyVerificationMac .bad fun event => do
    let content ← getItem event "content"
    return .keyVerificationMac ⟨← getStr event "sender", ← getItem content "transaction_id",
      ← getObj content "mac", ← getStr content "keys"⟩

def keyVerificationCancelFromDict : Json → Except PyError ToDeviceEvent :=
  verify Schemas.keyVerificationCancel .bad fun event => do
    let content ← getItem event "content"
    let _ ← getItem content "code"
    let _ ← getItem content "reason"
    return .keyVerificationCancel ⟨← getStr event "sender", ← getStr content "transaction_id"⟩

def roomKeyRequestFromDict : Json → Except PyError ToDeviceEvent :=
  verify Schemas.roomKeyRequest .bad fun event => do
    let content ← getItem event "content"
    let body ← getItem content "body"
    return .roomKeyRequest ⟨event, ← getStr event "sender", ← getStr content "requesting_device_id",
      ← getStr content "request_id", ← getStr body "algorithm", ← getStr body "room_id",
      ← getStr body "sender_key", ← getStr body "session_id"⟩

def roomKeyRequestCancellationFromDict : Json → Except PyError ToDeviceEvent :=
  verify Schemas.roomKeyRequestCancel .bad fun event => do
    let content ← getItem event "content"
    return .roomKeyRequestCancellation ⟨event, ← getStr event "sender",
      ← getStr content "requesting_device_id", ← getStr content "request_id"⟩

/-- `BaseRoomKeyRequest.parse_event` -/
def parseRoomKeyRequest : Json → Except PyError ToDeviceEvent :=
  verify Schemas.roomKeyRequestCancel .bad fun event => do
    let content ← getItem event "content"
    if (← getStr content "action") = py "request" then roomKeyRequestFromDict event
    else roomKeyRequestCancellationFromDict event

/-- `ToDeviceEvent.parse_event`; `none` for a redacted event and an unknown algorithm -/
def parseToDeviceEvent : Json → Except PyError (Option ToDeviceEvent) :=
  verify Schemas.toDevice (fun b => some (.bad b)) fun event => do
    if (← getObj event "content") = [] then return none
    else do
      let type ← getStr event "type"
      if type = py "m.room.encrypted" then parseEncryptedEvent event
      else if type = py "m.key.verification.start" then
        return some (← keyVerificationStartFromDict event)
      else if type = py "m.key.verification.accept" then
        return some (← keyVerificationAcceptFromDict event)
      else if type = py "m.key.verification.key" then
        return some (← keyVerificationKeyFromDict event)
      else if type = py "m.key.verification.mac" then
        return some (← keyVerificationMacFromDict event)
      else if type = py "m.key.verification.cancel" then
        return some (← keyVerificationCancelFromDict event)
      else if type = py "m.room_key_request" then return some (← parseRoomKeyRequest event)
      else return some (.unknown event (← getStr event "sender") type)

end Nio.Events
