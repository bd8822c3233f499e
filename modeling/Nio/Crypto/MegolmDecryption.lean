import Nio.Lib.LruCache
import Nio.Events.RoomEvents
import Nio.Crypto.Decryption

/-!
# Megolm decryption

`Olm.decrypt_megolm_event`: the session of an event decrypts it, the message index must be new or
that of the same event, and the event is verified when its device is. The sessions, the devices and
their trust are what the rest of the machine holds at that moment.

* `MegolmView.decryptMegolmEvent` — one event
* `decryptMegolmEvents` — the events of a run, each with its own view
-/

namespace Nio.Crypto

open Nio.Py
open Nio.Lib
open Nio.Events (PyError BadEventType RoomEvent getItem badOrUnknown parseDecryptedEvent)
open Nio.Durable (parseDecryptedJson)

variable {ρ : Type}

/-- `_message_index_store_size` -/
def messageIndexStoreSize : Nat := 100000

/-- A `MegolmEvent` that its schema accepts -/
structure MegolmEvent where
  source : Json
  eventId : Str
  sender : Str
  serverTimestamp : Int
  senderKey : Str
  sessionId : Str
  deviceId : Str
  ciphertext : Str
  roomId : Option Str
  transactionId : Option Json

/-- Sender key, session id and message index -/
abbrev MessageIndex := Str × Str × Nat

structure MegolmState where
  /-- `LRUCache(_message_index_store_size)` of event ids and timestamps -/
  messageIndexStore : LruCache MessageIndex (Str × Int)
  usersForKeyQuery : List Str
  /-- The events for which `as_key_request` was put into `outgoing_to_device_messages` -/
  keyRequests : List MegolmEvent
  keyReRequestsEvents : List ((Str × Str) × List MegolmEvent)

/-- What `decrypt_megolm_event` reads of the rest of the machine -/
structure MegolmView (ρ : Type) where
  userId : Str
  deviceId : Str
  curve25519 : Str
  ed25519 : Str
  inboundGroupStore : GroupSessionStore ρ
  deviceStore : List OlmDevice
  /-- `is_device_verified` -/
  isDeviceVerified : OlmDevice → Bool
  /-- `InboundGroupSession.decrypt`: the plaintext and the message index -/
  decrypt : ρ → Str → Option (Str × Nat)
  /-- Whether the newest Olm session with a device is recent, if there is one -/
  recentSession : OlmDevice → Option Bool
  outgoingKeyRequests : List Str
  wedgedDevices : List (Str × Str)

/-- The exceptions of `decrypt_megolm_event` -/
inductive MegolmError where
  /-- `EncryptionError` -/
  | encryption
  | escaped (e : PyError)
  deriving DecidableEq, Repr

/-- What `decrypt_megolm_event` returns -/
inductive MegolmResult where
  /-- A payload that is no event -/
  | bad (event : BadEventType)
  /-- The parsed event, with the attributes that are set on it -/
  | event (event : RoomEvent) (verified : Bool) (senderKey sessionId roomId : Str)

def MegolmResult.verified : MegolmResult → Bool
  | .bad _ => false
  | .event _ verified _ _ _ => verified

namespace MegolmView

variable (lib : Vodozemac ρ) (v : MegolmView ρ)

/-- `self.device_store[event.sender][event.device_id]` -/
def eventDevice (event : MegolmEvent) : Option OlmDevice :=
  lookup OlmDevice.key (event.sender, event.deviceId) v.deviceStore

/-- `check_if_wedged` -/
def checkIfWedged (s : MegolmState) (event : MegolmEvent) : MegolmState :=
  match v.eventDevice event with
  | none => { s with usersForKeyQuery := event.sender :: s.usersForKeyQuery }
  | some device =>
    match v.recentSession device with
    | none => s
    | some recent =>
      let s := if recent ∧ event.sessionId ∉ v.outgoingKeyRequests then
        { s with keyRequests := s.keyRequests ++ [event] } else s
      if device.key ∈ v.wedgedDevices then
        let events := (lookup Prod.fst device.key s.keyReRequestsEvents).elim [] Prod.snd
        { s with
          keyReRequestsEvents :=
            upsert Prod.fst (device.key, events ++ [event]) s.keyReRequestsEvents }
      else s

/-- `message_index_ok` -/
def messageIndexOk (s : MegolmState) (index : MessageIndex) (event : MegolmEvent) :
    MegolmState × Bool :=
  let (known, messageIndexStore) :=
    s.messageIndexStore.record messageIndexStoreSize index (event.eventId, event.serverTimestamp)
  ({ s with messageIndexStore }, known = (event.eventId, event.serverTimestamp))

/-- The event names this device, with both keys of this account. -/
def IsOwn (event : MegolmEvent) (session : InboundGroupSession ρ) : Prop :=
  event.sender = v.userId ∧ event.deviceId = v.deviceId ∧ session.ed25519 = v.ed25519 ∧
    event.senderKey = v.curve25519

instance (event : MegolmEvent) (session : InboundGroupSession ρ) :
    Decidable (v.IsOwn event session) :=
  inferInstanceAs (Decidable (_ ∧ _))

/-- The verified flag of an event that its session decrypted -/
def verify (s : MegolmState) (event : MegolmEvent) (session : InboundGroupSession ρ) :
    MegolmState × Except MegolmError Bool :=
  if v.IsOwn event session then (s, .ok true)
  else
    match v.eventDevice event with
    | none => ({ s with usersForKeyQuery := event.sender :: s.usersForKeyQuery }, .ok false)
    | some device =>
      if v.isDeviceVerified device ∧ session.forwardingChain = [] then
        if device.keys.ed25519 ≠ session.ed25519 ∨ device.keys.curve25519 ≠ event.senderKey then
          (s, .error .encryption)
        else (s, .ok true)
      else (s, .ok false)

/-- `parsed_dict["content"]["m.relates_to"]`, which a payload without one takes from the event -/
def relate (event : MegolmEvent) (payload : List (Str × Json)) : List (Str × Json) :=
  match dictGet? payload (py "content") with
  | some (.obj content) =>
    match dictGet? content (py "m.relates_to") with
    | some _ => payload
    | none =>
      match getItem event.source "content" >>= (getItem · "m.relates_to") with
      | .ok relation =>
        dictSet payload (py "content") (.obj (dictSet content (py "m.relates_to") relation))
      | .error _ => payload
  | _ => payload

/-- The payload with the attributes that the homeserver supplies -/
def eventPayload (event : MegolmEvent) (payload : List (Str × Json)) : Json :=
  let payload := dictSet payload (py "event_id") (.str event.eventId)
  let payload := relate event payload
  let payload := dictSet payload (py "sender") (.str event.sender)
  let payload := dictSet payload (py "origin_server_ts") (.int event.serverTimestamp)
  match event.transactionId with
  | some transactionId =>
    if Events.truthy transactionId then
      .obj (dictSet payload (py "unsigned") (.obj [(py "transaction_id", transactionId)]))
    else .obj payload
  | none => .obj payload

/-- The event of a plaintext -/
def eventOf (event : MegolmEvent) (roomId plaintext : Str) (verified : Bool) :
    Except MegolmError MegolmResult :=
  match parseDecryptedJson plaintext with
  | .ok (some (.obj parsed)) =>
    -- the sender's copies of these fields are never trusted
    let parsed := [py "event_id", py "sender", py "origin_server_ts", py "unsigned"].foldl
      dictErase parsed
    match Schemas.roomMegolmDecrypted (.obj parsed) with
    | none =>
      match badOrUnknown (.obj parsed) with
      | .ok bad => .ok (.bad bad)
      | .error e => .error (.escaped e)
    | some (.obj parsed) =>
      match parseDecryptedEvent (eventPayload event parsed) with
      | .error e => .error (.escaped e)
      | .ok (.bad (.unknownBadEvent source) _) => .ok (.bad (.unknownBadEvent source))
      | .ok parsed => .ok (.event parsed verified event.senderKey event.sessionId roomId)
    | some _ => .error (.escaped .type)
  | _ => .error .encryption

/-- `room_id or event.room_id` -/
def roomOf (event : MegolmEvent) (roomId : Option Str) : Option Str :=
  (roomId.filter (· ≠ [])).or (event.roomId.filter (· ≠ []))

/-- `decrypt_megolm_event` -/
def decryptMegolmEvent (s : MegolmState) (event : MegolmEvent) (roomId : Option Str) :
    MegolmState × Except MegolmError MegolmResult :=
  match roomOf event roomId with
  | none => (s, .error .encryption)
  | some roomId =>
    if event.senderKey = [] ∨ event.sessionId = [] then (s, .error (.escaped .assertion))
    else
      match v.inboundGroupStore.get lib roomId event.senderKey event.sessionId with
      | none => (v.checkIfWedged s event, .error .encryption)
      | some session =>
        match v.decrypt session.session event.ciphertext with
        | none => (s, .error .encryption)
        | some (plaintext, index) =>
          let (s, fresh) := messageIndexOk s (event.senderKey, event.sessionId, index) event
          if !fresh then (s, .error .encryption)
          else
            match v.verify s event session with
            | (s, .error e) => (s, .error e)
            | (s, .ok verified) => (s, eventOf event roomId plaintext verified)

/-- The session that decrypts an event, and the message index that it finds -/
def decryptsWith (event : MegolmEvent) (roomId : Option Str) :
    Option (InboundGroupSession ρ × Nat) := do
  let roomId ← roomOf event roomId
  let session ← v.inboundGroupStore.get lib roomId event.senderKey event.sessionId
  let (_, index) ← v.decrypt session.session event.ciphertext
  return (session, index)

end MegolmView

/-- An event that is to be decrypted, with what the machine holds then -/
structure MegolmStep (ρ : Type) where
  view : MegolmView ρ
  event : MegolmEvent
  roomId : Option Str

/-- The entry of the message index store that an event uses -/
def MegolmStep.usedIndex (lib : Vodozemac ρ) (step : MegolmStep ρ) : Option MessageIndex :=
  (step.view.decryptsWith lib step.event step.roomId).map fun p =>
    (step.event.senderKey, step.event.sessionId, p.2)

/-- The events of a run with what is returned for each -/
def decryptMegolmEvents (lib : Vodozemac ρ) :
    MegolmState → List (MegolmStep ρ) → List (MegolmStep ρ × Except MegolmError MegolmResult)
  | _, [] => []
  | s, step :: steps =>
    let (s, result) := step.view.decryptMegolmEvent lib s step.event step.roomId
    (step, result) :: decryptMegolmEvents lib s steps

def MegolmState.fresh : MegolmState := ⟨[], [], [], []⟩

end Nio.Crypto
