import Nio.Durable.Model
import Nio.Durable.Response
import Nio.Py.Dict

/-!
# Observations of a sync

The iterators of the client yield one item for each observation of a response. `freeze_event` turns
an item into a record. An event keeps the fields that the durable session reads, whatever its class.

The copies that `freeze_event` makes are not modelled here: a value of this development cannot be
changed by a later state. When a copy is equal to the original is the subject of
`Nio.Durable.WriteBack`.
-/

namespace Nio.Durable

open Nio.Py

/-- The classes of events that the session tells apart. -/
inductive EventClass where
  | roomMember (stateKey : Str) (membership : Membership) (prevJoin : Bool)
  | inviteMember (stateKey : Str) (membership : Membership) (content : Json)
  | invite
  | stateStub (type stateKey : Str)
  | megolm
  /-- `BadEvent` or `UnknownBadEvent` -/
  | bad
  | roomKey
  | forwardedRoomKey
  | dummy
  | authenticatedToDevice
  /-- A cancellation; the fields stand for its event when it has no source. -/
  | keyVerificationCancel (sender transactionId code reason : Json)
  | other
  deriving DecidableEq

structure Event where
  cls : EventClass
  source : Json
  /-- The attribute `event_id`, or `None` for a class that has none. -/
  eventId : Json
  decrypted : Bool
  verified : Option Bool
  senderKey : Option Str
  sessionId : Option Str
  authenticatedSender : Option AuthenticatedDevice
  deriving DecidableEq

/-- `source.get(key)` -/
def getSource (source : Json) (key : String) : Json := (source.get? (py key)).getD .null

/-- `event.source.get("event_id")` -/
def Event.sourceId (event : Event) : Json := getSource event.source "event_id"

inductive Route where
  | event
  | invite
  | roomAccountData
  | globalAccountData
  | toDevice
  | expiredVerification
  deriving DecidableEq, Repr

def Route.value : Route → Str
  | .event => py "event"
  | .invite => py "invite"
  | .roomAccountData => py "room_account_data"
  | .globalAccountData => py "global_account_data"
  | .toDevice => py "to_device"
  | .expiredVerification => py "expired_verification"

/-- The section of a response that a room is in. -/
inductive RoomSection where
  | join
  | leave
  | invite
  deriving DecidableEq, Repr

def RoomSection.membership : RoomSection → Membership
  | .join => .join
  | .leave => .leave
  | .invite => .invite

/-- `_SyncItem`. A room observation without an event is the section of the room. -/
structure Item where
  route : Option Route
  event : Option Event
  roomId : Option Str
  «section» : Option RoomSection
  source : Option Json
  provenance : Option Provenance

namespace Item

/-- The item comes from an `m.room.encrypted` event. -/
def fromEncrypted (item : Item) : Bool :=
  match item.source with
  | some source => getSource source "type" = .str (py "m.room.encrypted")
  | none => false

end Item

def lifecycleSource (membership : Option Membership) : Json :=
  .obj [(py "membership", optional (fun m => .str m.value) membership)]

/-- The source of an event as a record keeps it, and the codec that reads it back. -/
def payload (event : Event) : Json × Option Str :=
  match event.cls with
  | .stateStub type stateKey =>
    (.obj [(py "type", .str type), (py "state_key", .str stateKey)], some (py "state_stub"))
  | .invite => (event.source, some (py "invite"))
  | .inviteMember _ _ content =>
    match event.source with
    | .obj kvs => (.obj (dictSet kvs (py "content") content), some (py "invite"))
    | source => (source, some (py "invite"))
  | .forwardedRoomKey => (event.source, some (py "forwarded_room_key"))
  | .roomKey => (event.source, some (py "room_key"))
  | .dummy => (event.source, some (py "dummy"))
  | .keyVerificationCancel sender transactionId code reason =>
    if event.source = .obj [] then
      (.obj [(py "type", .str (py "m.key.verification.cancel")), (py "sender", sender),
        (py "content", .obj [(py "transaction_id", transactionId), (py "code", code),
          (py "reason", reason)])], none)
    else (event.source, none)
  | _ => (event.source, none)

/-- The event came in an encrypted envelope that its record keeps as the source. -/
def encryptedEnvelope (item : Item) (event : Event) : Bool :=
  item.fromEncrypted && (getSource event.source "type" ≠ .str (py "m.room.encrypted") ||
    event.cls = .authenticatedToDevice)

/-- `item.source.get("content", {}).get("sender_key", "")` -/
def envelopeSenderKey (item : Item) : Str :=
  match (item.source.getD (.obj [])).get? (py "content") with
  | some content => ((content.get? (py "sender_key")).bind Json.asStr?).getD []
  | none => []

def evidence (item : Item) (event : Event) : CryptoEvidence :=
  let senderKey := event.senderKey.getD []
  ⟨event.verified, if senderKey = [] then envelopeSenderKey item else senderKey, event.sessionId,
    event.authenticatedSender⟩

def recordKind : Option Route → RecordKind
  | some .toDevice | some .expiredVerification => .toDevice
  | some .roomAccountData => .roomAccountData
  | some .globalAccountData => .globalAccountData
  | some .event => .timeline
  | some .invite | none => .state

/-- `freeze_event` -/
def freezeEvent (item : Item) : SyncRecord :=
  match item.event with
  | none =>
    .of .roomLifecycle item.roomId
      (lifecycleSource (item.section.map RoomSection.membership))
  | some event =>
    let (payload, codec) := payload event
    let isKey := event.cls = .roomKey ∨ event.cls = .forwardedRoomKey ∨ event.cls = .dummy
    let envelope := encryptedEnvelope item event
    { kind := recordKind item.route
      roomId := item.roomId
      source := if item.source = none ∨ item.source = some event.source then payload
        else item.source.getD payload
      clear := if event.decrypted ∨ isKey ∨ envelope then some payload else none
      provenance := none
      membershipEpoch := none
      crypto := if event.decrypted ∨ isKey ∨ envelope then some (evidence item event) else none
      membership := none
      route := item.route.map Route.value
      codec }

theorem freezeEvent_roomId (item : Item) : (freezeEvent item).roomId = item.roomId := by
  unfold freezeEvent
  split <;> rfl

/-- Only observations of the route `event` are timeline records. -/
theorem freezeEvent_timeline {item : Item} (h : (freezeEvent item).kind = .timeline) :
    item.route = some .event ∧ item.event ≠ none := by
  unfold freezeEvent at h
  split at h
  · cases h
  · next event hevent =>
    refine ⟨?_, by rw [hevent]; simp⟩
    simp only [recordKind] at h
    split at h <;> first | assumption | cases h

theorem freezeEvent_ne_loss (item : Item) : (freezeEvent item).kind ≠ .loss := by
  unfold freezeEvent
  split
  · simp [SyncRecord.of]
  · simp only [recordKind]
    split <;> simp

/-- The codec of a record is one of the names that the source gives it. -/
theorem codec_payload (event : Event) :
    (payload event).2 = none ∨ ∃ s, (payload event).2 = some (py s) := by
  unfold payload
  split
  · exact Or.inr ⟨"state_stub", rfl⟩
  · exact Or.inr ⟨"invite", rfl⟩
  · split
    · exact Or.inr ⟨"invite", rfl⟩
    · exact Or.inr ⟨"invite", rfl⟩
  · exact Or.inr ⟨"forwarded_room_key", rfl⟩
  · exact Or.inr ⟨"room_key", rfl⟩
  · exact Or.inr ⟨"dummy", rfl⟩
  · split
    · exact Or.inl rfl
    · exact Or.inl rfl
  · exact Or.inl rfl

/-! ## Clean input -/

/-- What holds of all values in an object holds of all in the value under a key. -/
theorem all_get? {p : Json → Bool} {v w : Json} (h : v.all p = true) {k : Str}
    (hw : v.get? k = some w) : w.all p = true := by
  cases v with
  | obj kvs =>
    rw [Json.all, Bool.and_eq_true] at h
    exact Json.allPairs_iff.mp h.2 _ (mem_of_dictGet? hw)
  | _ => cases hw

/-- The sender key of an envelope that is clean can be encoded. -/
theorem encodable_envelopeSenderKey {item : Item} {source : Json} (hitem : item.source = some source)
    (h : source.Clean) : (envelopeSenderKey item).Encodable := by
  have hempty : Str.Encodable [] := List.forall_mem_nil _
  unfold envelopeSenderKey
  rw [hitem, Option.getD_some]
  cases hcontent : source.get? (py "content") with
  | none => exact hempty
  | some content =>
    dsimp only
    cases hkey : content.get? (py "sender_key") with
    | none => exact hempty
    | some key =>
      have hclean : key.Clean := all_get? (all_get? h hcontent) hkey
      cases key with
      | str s => exact Json.clean_str.mp hclean
      | _ => exact hempty

end Nio.Durable
