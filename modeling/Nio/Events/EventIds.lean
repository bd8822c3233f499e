import Nio.Events.RoomEvents
import Nio.Py.SchemaFields

/-!
# The id of a parsed event

An event is parsed from an object; its class takes the id from there. An `UnknownBadEvent` has no
id of its own.

* `parseEvent_keepsId`, `parseDecryptedEvent_keepsId` — the id of what the parsers return
-/

namespace Nio.Events

open Nio.Py

namespace RoomEvent

/-- `getattr(event, "event_id", None)` -/
def eventId? : RoomEvent → Option Json
  | .bad (.unknownBadEvent _) _ => none
  | .bad (.badEvent source) _ => source.get? (py "event_id")
  | .event fields _ _ => some fields.eventId

/-- `isinstance(event, MegolmEvent)` -/
def isMegolm : RoomEvent → Bool
  | .event _ (.megolm ..) _ => true
  | _ => false

/-- `isinstance(event, (UnknownBadEvent, BadEvent))` -/
def isBad : RoomEvent → Bool
  | .bad _ _ => true
  | .event .. => false

end RoomEvent

def RoomEventClass.isMegolm : RoomEventClass → Bool
  | .megolm .. => true
  | _ => false

/-- The event has no id, or the one of the object. -/
def OwnId (event : Json) (e : RoomEvent) : Prop :=
  e.eventId? = none ∨ e.eventId? = event.get? (py "event_id")

/-! ## Schemas -/

/-- What a schema lets through has the value of the key that it had before. -/
def Keeps (key : String) (s : Schema) : Prop :=
  ∀ v w, s v = some w → w.get? (py key) = v.get? (py key)

abbrev KeepsId : Schema → Prop := Keeps "event_id"

open Schema (Property Checking prop setDefaults checkProperties all_checks)

/-- The property is another one, or describes the key without a default. -/
def Spares (key : String) (p : Property) : Prop :=
  p.name ≠ key ∨ p.default = none ∧ Checking p.schema

variable {key : String}

/-- Defaults for other keys spare the key, -/
theorem setDefaults_spares {ps : List Property} (hps : ∀ p ∈ ps, Spares key p)
    (kvs : List (Str × Json)) :
    dictGet? (setDefaults ps kvs) (py key) = dictGet? kvs (py key) := by
  unfold setDefaults
  induction ps generalizing kvs with
  | nil => rfl
  | cons p ps ih =>
    rw [List.foldl_cons, ih fun q hq => hps q (List.mem_cons_of_mem _ hq)]
    split
    · rfl
    · next d hd =>
      split
      · rfl
      · rcases hps p List.mem_cons_self with hname | ⟨hnone, -⟩
        · rw [dictGet?_dictSet, if_neg fun he => hname (py_inj.mp he).symm]
        · rw [hnone] at hd
          cases hd

/-- and so do properties. -/
theorem checkProperties_spares {ps : List Property} (hps : ∀ p ∈ ps, Spares key p)
    {kvs kvs' : List (Str × Json)} (h : checkProperties ps kvs = some kvs') :
    dictGet? kvs' (py key) = dictGet? kvs (py key) := by
  induction ps generalizing kvs with
  | nil => rw [Option.some.inj h]
  | cons p ps ih =>
    have hrest := fun q hq => hps q (List.mem_cons_of_mem p hq)
    unfold checkProperties at h
    cases hv : dictGet? kvs (py p.name) with
    | none =>
      rw [hv] at h
      exact ih hrest h
    | some v =>
      simp only [hv] at h
      obtain ⟨v', hv', h⟩ := Option.bind_eq_some_iff.mp h
      rw [ih hrest h, dictGet?_dictSet]
      split
      · next hname =>
        rcases hps p List.mem_cons_self with hne | ⟨-, q, hq⟩
        · exact absurd (py_inj.mp hname).symm hne
        · -- the schema of the id returns what it checks
          rw [hq] at hv'
          unfold Schema.check at hv'
          split at hv'
          · rw [← Option.some.inj hv', hname, hv]
          · cases hv'
      · rfl

/-- An object schema keeps what its properties spare. -/
theorem keeps_object {ps : List Property} {ss : List Schema} (hps : ∀ p ∈ ps, Spares key p)
    (hss : ∀ s ∈ ss, Checking s) :
    Keeps key (Schema.all (Schema.type .object :: Schema.properties ps :: ss)) := by
  intro v w h
  obtain ⟨v₁, hv₁, h⟩ := Option.bind_eq_some_iff.mp h
  obtain ⟨v₂, hv₂, h⟩ := Option.bind_eq_some_iff.mp h
  obtain ⟨rfl, -⟩ := all_checks hss h
  cases v with
  | obj kvs =>
    obtain rfl := (Option.some.inj hv₁).symm
    obtain ⟨kvs', hkvs', rfl⟩ := Option.map_eq_some_iff.mp hv₂
    exact (checkProperties_spares hps hkvs').trans (setDefaults_spares hps kvs)
  | _ => cases hv₁

theorem keepsId_stateContent (content : Schema) : KeepsId (Schemas.stateContent content) :=
  keeps_object (by simp [Spares]) (by simp)

/-! ## Parsers -/

theorem get?_of_getItem {v w : Json} {key : String} (h : getItem v key = .ok w) :
    v.get? (py key) = some w := by
  unfold getItem at h
  split at h
  · split at h
    · next hget =>
      cases h
      exact hget
    · cases h
  · cases h

theorem get?_of_getStr {v : Json} {key : String} {s : Str} (h : getStr v key = .ok s) :
    v.get? (py key) = some (.str s) := by
  obtain ⟨w, hw, h⟩ := bind_eq_ok.mp h
  rw [get?_of_getItem hw]
  split at h
  · cases h
    rfl
  · cases h

/-- Every event that the parser returns has its own id and is not encrypted. -/
def ParsesPlain (parse : Json → Except PyError RoomEvent) : Prop :=
  ∀ event e, parse event = .ok e → OwnId event e ∧ e.isMegolm = false

/-- A bad event has the id of its source. -/
theorem badOrUnknown_ownId {event : Json} {bad : BadEventType} {transactionId : Option Json}
    (h : badOrUnknown event = .ok bad) : OwnId event (.bad bad transactionId) := by
  unfold badOrUnknown at h
  split at h
  · cases h
    exact Or.inl rfl
  · unfold badEventFromDict at h
    obtain ⟨_, -, h⟩ := bind_eq_ok.mp h
    split at h
    · cases h
    · obtain ⟨_, -, h⟩ := bind_eq_ok.mp h
      obtain ⟨_, -, h⟩ := bind_eq_ok.mp h
      obtain ⟨_, -, h⟩ := bind_eq_ok.mp h
      cases h
      exact Or.inr rfl

/-- So have the common fields. -/
theorem eventFields_id {event : Json} {fields : EventFields} (h : eventFields event = .ok fields) :
    some fields.eventId = event.get? (py "event_id") := by
  unfold eventFields at h
  obtain ⟨id, hid, h⟩ := bind_eq_ok.mp h
  obtain ⟨_, -, h⟩ := bind_eq_ok.mp h
  obtain ⟨_, -, h⟩ := bind_eq_ok.mp h
  cases h
  exact (get?_of_getItem hid).symm

/-- A class other than Megolm is parsed to a plain event with its own id. -/
theorem of_parsesPlain {event : Json} {cls : RoomEventClass} (hcls : cls.isMegolm = false)
    {e : RoomEvent} (h : RoomEvent.of event cls = .ok e) : OwnId event e ∧ e.isMegolm = false := by
  obtain ⟨fields, hfields, h⟩ := bind_eq_ok.mp h
  cases h
  refine ⟨Or.inr (eventFields_id hfields), ?_⟩
  cases cls with
  | megolm => cases hcls
  | _ => rfl

/-- A parser behind a schema that keeps the id -/
theorem verify_parsesPlain {schema : Schema} (hs : KeepsId schema)
    {parse : Json → Except PyError RoomEvent} (hparse : ParsesPlain parse) :
    ParsesPlain (verify schema (.bad · none) parse) := by
  intro event e h
  unfold verify at h
  split at h
  · next w hw =>
    obtain ⟨hid, hmegolm⟩ := hparse w e h
    unfold OwnId at hid ⊢
    rw [hs event w hw] at hid
    exact ⟨hid, hmegolm⟩
  · cases hbad : badOrUnknown event with
    | error e' =>
      rw [hbad] at h
      cases h
    | ok bad =>
      rw [hbad] at h
      cases h
      exact ⟨badOrUnknown_ownId hbad, rfl⟩

/-- A verified event is plain if its class is. -/
theorem verifyRoomEvent_parsesPlain {schema : Schema} (hs : KeepsId schema)
    {parse : Json → Except PyError RoomEventClass}
    (hparse : ∀ event cls, parse event = .ok cls → cls.isMegolm = false) :
    ParsesPlain (verifyRoomEvent schema parse) := by
  refine verify_parsesPlain hs fun event e h => ?_
  obtain ⟨cls, hcls, h⟩ := bind_eq_ok.mp h
  exact of_parsesPlain (hparse event cls hcls) h

/-! ### State events -/

/-- A class with one field -/
theorem requiredFromDict_parsesPlain {content : Schema} {field : String}
    {cls : Json → RoomEventClass} (hcls : ∀ x, (cls x).isMegolm = false) :
    ParsesPlain (requiredFromDict (Schemas.stateContent content) field cls) := by
  refine verifyRoomEvent_parsesPlain (keepsId_stateContent _) fun event c h => ?_
  obtain ⟨_, -, h⟩ := bind_eq_ok.mp h
  obtain ⟨_, -, h⟩ := bind_eq_ok.mp h
  cases h
  exact hcls _

theorem optionalFromDict_parsesPlain {content : Schema} {field : String}
    {cls : Option Json → RoomEventClass} (hcls : ∀ x, (cls x).isMegolm = false) :
    ParsesPlain (optionalFromDict (Schemas.stateContent content) field cls) := by
  refine verifyRoomEvent_parsesPlain (keepsId_stateContent _) fun event c h => ?_
  obtain ⟨_, -, h⟩ := bind_eq_ok.mp h
  obtain ⟨_, -, h⟩ := bind_eq_ok.mp h
  cases h
  exact hcls _

theorem spaceFromDict_parsesPlain {content : Schema} {flag : String}
    {cls : Json → Json → RoomEventClass} (hcls : ∀ x y, (cls x y).isMegolm = false) :
    ParsesPlain (spaceFromDict (Schemas.stateContent content) flag cls) := by
  refine verifyRoomEvent_parsesPlain (keepsId_stateContent _) fun event c h => ?_
  obtain ⟨_, -, h⟩ := bind_eq_ok.mp h
  obtain ⟨_, -, h⟩ := bind_eq_ok.mp h
  obtain ⟨_, -, h⟩ := bind_eq_ok.mp h
  cases h
  exact hcls _ _

/-- Every parser of room events but that of Megolm gives plain events. -/
theorem redactedFromDict_parsesPlain : ParsesPlain redactedFromDict := by
  refine verifyRoomEvent_parsesPlain (keeps_object (by simp [Spares]) (by simp)) fun event cls h => ?_
  repeat obtain ⟨_, -, h⟩ := bind_eq_ok.mp h
  cases h
  rfl

theorem roomEncryptionFromDict_parsesPlain : ParsesPlain roomEncryptionFromDict := by
  refine verifyRoomEvent_parsesPlain (keepsId_stateContent _) fun event cls h => ?_
  cases h
  rfl

theorem roomCreateFromDict_parsesPlain : ParsesPlain roomCreateFromDict := by
  refine verifyRoomEvent_parsesPlain (keepsId_stateContent _) fun event cls h => ?_
  repeat obtain ⟨_, -, h⟩ := bind_eq_ok.mp h
  cases h
  rfl

theorem powerLevelsFromDict_parsesPlain : ParsesPlain powerLevelsFromDict := by
  refine verifyRoomEvent_parsesPlain (keepsId_stateContent _) fun event cls h => ?_
  repeat obtain ⟨_, -, h⟩ := bind_eq_ok.mp h
  cases h
  rfl

theorem roomMemberFromDict_parsesPlain : ParsesPlain roomMemberFromDict := by
  refine verifyRoomEvent_parsesPlain (keeps_object (by simp [Spares]) (by simp)) fun event cls h => ?_
  repeat obtain ⟨_, -, h⟩ := bind_eq_ok.mp h
  cases h
  rfl

theorem roomUpgradeFromDict_parsesPlain : ParsesPlain roomUpgradeFromDict := by
  refine verifyRoomEvent_parsesPlain (keeps_object (by simp [Spares]) (by simp)) fun event cls h => ?_
  repeat obtain ⟨_, -, h⟩ := bind_eq_ok.mp h
  cases h
  rfl

theorem redactionFromDict_parsesPlain : ParsesPlain redactionFromDict := by
  refine verifyRoomEvent_parsesPlain
    (keeps_object (by simp [Spares]) (by simp)) fun event cls h => ?_
  obtain ⟨_, -, h⟩ := bind_eq_ok.mp h
  obtain ⟨_, -, h⟩ := bind_eq_ok.mp h
  obtain ⟨_, -, h⟩ := bind_eq_ok.mp h
  obtain ⟨redacts, -, h⟩ := bind_eq_ok.mp h
  cases redacts with
  | some redacts => cases h; rfl
  | none => cases h; rfl

/-- So do all parsers of state, -/
theorem stateParsers_parsesPlain : ∀ p ∈ stateParsers, ParsesPlain p.2 := by
  unfold stateParsers
  simp only [List.forall_mem_cons]
  exact ⟨roomCreateFromDict_parsesPlain, requiredFromDict_parsesPlain fun _ => rfl,
    requiredFromDict_parsesPlain fun _ => rfl, requiredFromDict_parsesPlain fun _ => rfl,
    roomMemberFromDict_parsesPlain, optionalFromDict_parsesPlain fun _ => rfl,
    requiredFromDict_parsesPlain fun _ => rfl, requiredFromDict_parsesPlain fun _ => rfl,
    optionalFromDict_parsesPlain fun _ => rfl, powerLevelsFromDict_parsesPlain,
    roomEncryptionFromDict_parsesPlain, redactionFromDict_parsesPlain,
    roomUpgradeFromDict_parsesPlain, spaceFromDict_parsesPlain fun _ _ => rfl,
    spaceFromDict_parsesPlain fun _ _ => rfl, List.forall_mem_nil _⟩

/-! ### Other events -/

theorem stickerFromDict_parsesPlain : ParsesPlain stickerFromDict := by
  refine verifyRoomEvent_parsesPlain (keeps_object (by simp [Spares]) (by simp)) fun event cls h => ?_
  repeat obtain ⟨_, -, h⟩ := bind_eq_ok.mp h
  cases h
  rfl

theorem reactionFromDict_parsesPlain : ParsesPlain reactionFromDict := by
  refine verifyRoomEvent_parsesPlain (keeps_object (by simp [Spares]) (by simp)) fun event cls h => ?_
  repeat obtain ⟨_, -, h⟩ := bind_eq_ok.mp h
  cases h
  rfl

theorem roomMessageMediaFromDict_parsesPlain (type : MediaType) :
    ParsesPlain (roomMessageMediaFromDict type) := by
  refine verifyRoomEvent_parsesPlain (keeps_object (by simp [Spares]) (by simp)) fun event cls h => ?_
  repeat obtain ⟨_, -, h⟩ := bind_eq_ok.mp h
  cases h
  rfl

theorem roomEncryptedMediaFromDict_parsesPlain (type : MediaType) :
    ParsesPlain (roomEncryptedMediaFromDict type) := by
  refine verifyRoomEvent_parsesPlain (keeps_object (by simp [Spares]) (by simp)) fun event cls h => ?_
  repeat obtain ⟨_, -, h⟩ := bind_eq_ok.mp h
  cases h
  rfl

theorem roomMessageFormattedFromDict_parsesPlain (type : FormattedType) :
    ParsesPlain (roomMessageFormattedFromDict type) := by
  have hschema : KeepsId (formattedSchema type) := by
    cases type <;> exact keeps_object (by simp [Spares]) (List.forall_mem_nil _)
  refine verifyRoomEvent_parsesPlain hschema fun event cls h => ?_
  obtain ⟨_, -, h⟩ := bind_eq_ok.mp h
  obtain ⟨_, -, h⟩ := bind_eq_ok.mp h
  obtain ⟨_, -, h⟩ := bind_eq_ok.mp h
  split at h
  all_goals
    obtain ⟨_, -, h⟩ := bind_eq_ok.mp h
    cases h
    rfl

theorem unknownEventFromDict_parsesPlain : ParsesPlain unknownEventFromDict := by
  intro event e h
  obtain ⟨_, -, h⟩ := bind_eq_ok.mp h
  exact of_parsesPlain rfl h

theorem roomMessageUnknownFromDict_parsesPlain : ParsesPlain roomMessageUnknownFromDict := by
  intro event e h
  obtain ⟨_, -, h⟩ := bind_eq_ok.mp h
  obtain ⟨_, -, h⟩ := bind_eq_ok.mp h
  obtain ⟨_, -, h⟩ := bind_eq_ok.mp h
  exact of_parsesPlain rfl h

theorem keepsId_callEvent (ps : List Property) : KeepsId (Schemas.callEvent ps) :=
  keeps_object (by simp [Spares]) (by simp)

theorem parseCallEvent_parsesPlain (type : Str) : ParsesPlain (parseCallEvent type) := by
  have hcandidates : ParsesPlain callCandidatesFromDict := by
    refine verifyRoomEvent_parsesPlain (keepsId_callEvent _) fun event cls h => ?_
    repeat obtain ⟨_, -, h⟩ := bind_eq_ok.mp h
    cases h
    rfl
  have hinvite : ParsesPlain callInviteFromDict := by
    refine verifyRoomEvent_parsesPlain (keepsId_callEvent _) fun event cls h => ?_
    repeat obtain ⟨_, -, h⟩ := bind_eq_ok.mp h
    cases h
    rfl
  have hanswer : ParsesPlain callAnswerFromDict := by
    refine verifyRoomEvent_parsesPlain (keepsId_callEvent _) fun event cls h => ?_
    repeat obtain ⟨_, -, h⟩ := bind_eq_ok.mp h
    cases h
    rfl
  have hhangup : ParsesPlain callHangupFromDict := by
    refine verifyRoomEvent_parsesPlain (keepsId_callEvent _) fun event cls h => ?_
    repeat obtain ⟨_, -, h⟩ := bind_eq_ok.mp h
    cases h
    rfl
  intro event e h
  unfold parseCallEvent at h
  split at h
  · exact hcandidates event e h
  · split at h
    · exact hinvite event e h
    · split at h
      · exact hanswer event e h
      · split at h
        · exact hhangup event e h
        · exact unknownEventFromDict_parsesPlain event e h

/-- those of messages -/
theorem messageFromDict_parsesPlain (msgtype : Str) (encrypted : Bool) :
    ParsesPlain (messageFromDict msgtype encrypted) := by
  intro event e h
  unfold messageFromDict at h
  split at h
  · next type _ =>
    split at h
    · exact roomEncryptedMediaFromDict_parsesPlain type event e h
    · exact roomMessageMediaFromDict_parsesPlain type event e h
  · split at h
    · exact roomMessageFormattedFromDict_parsesPlain _ event e h
    · split at h
      · exact roomMessageFormattedFromDict_parsesPlain _ event e h
      · split at h
        · exact roomMessageFormattedFromDict_parsesPlain _ event e h
        · exact roomMessageUnknownFromDict_parsesPlain event e h

/-- The transaction id changes neither the event id nor the class. -/
theorem setTransactionId_plain {event : Json} {e : RoomEvent} {transactionId : Option Json}
    (h : OwnId event e ∧ e.isMegolm = false) :
    OwnId event (e.setTransactionId transactionId) ∧
      (e.setTransactionId transactionId).isMegolm = false := by
  cases e with
  | bad source _ => cases source <;> exact h
  | event fields cls _ => cases cls <;> exact h

/-- and `parse_room_message`. -/
theorem parseRoomMessage_parsesPlain : ParsesPlain parseRoomMessage := by
  refine verify_parsesPlain (keeps_object (by simp [Spares]) (by simp)) fun event e h => ?_
  obtain ⟨content, -, h⟩ := bind_eq_ok.mp h
  obtain ⟨msgtype, -, h⟩ := bind_eq_ok.mp h
  obtain ⟨encrypted, -, h⟩ := bind_eq_ok.mp h
  obtain ⟨parsed, hparsed, h⟩ := bind_eq_ok.mp h
  have hplain := messageFromDict_parsesPlain msgtype encrypted event parsed hparsed
  split at h
  · cases h
    exact hplain
  · obtain ⟨transactionId, -, h⟩ := bind_eq_ok.mp h
    cases h
    exact setTransactionId_plain hplain

/-! ### All events of a room -/

/-- An event that is not encrypted -/
theorem roomEventFromDict_plain {type : Str} (htype : type ≠ py "m.room.encrypted") :
    ParsesPlain (roomEventFromDict type) := by
  intro event e h
  unfold roomEventFromDict at h
  split at h
  · exact parseRoomMessage_parsesPlain event e h
  · split at h
    · next fromDict hfromDict =>
      obtain ⟨p, hp, rfl⟩ := Option.map_eq_some_iff.mp hfromDict
      exact stateParsers_parsesPlain p (List.mem_of_find?_eq_some hp) event e h
    · split at h
      · exact stickerFromDict_parsesPlain event e h
      · split at h
        · exact reactionFromDict_parsesPlain event e h
        · split at h
          · exact parseCallEvent_parsesPlain type event e h
          · exact unknownEventFromDict_parsesPlain event e h

/-- The common schemas keep the id of an event. -/
theorem keepsId_roomEvent : KeepsId Schemas.roomEvent :=
  keeps_object (by simp [Spares, Schemas.string]) (by simp)

theorem keepsType_roomEvent : Keeps "type" Schemas.roomEvent :=
  keeps_object (by simp [Spares, Schemas.string]) (by simp)

theorem keepsId_roomMegolmDecrypted : KeepsId Schemas.roomMegolmDecrypted :=
  keeps_object (by simp [Spares]) (by simp)

/-- What `parse_event` returns for an event of another type -/
theorem parseEvent_plain {event : Json}
    (htype : event.get? (py "type") ≠ some (.str (py "m.room.encrypted"))) {e : RoomEvent}
    (h : parseEvent event = .ok e) : OwnId event e ∧ e.isMegolm = false := by
  have hparse : ParsesPlain (verify Schemas.roomEvent (.bad · none) fun w => do
      if w.get? (py "type") = some (.str (py "m.room.encrypted")) then .error .type
      else if ← isRedacted w then redactedFromDict w
      else roomEventFromDict (← getStr w "type") w) := by
    refine verify_parsesPlain keepsId_roomEvent fun w e h => ?_
    split at h
    · cases h
    · next hw =>
      obtain ⟨redacted, -, h⟩ := bind_eq_ok.mp h
      cases redacted with
      | true => exact redactedFromDict_parsesPlain w e h
      | false =>
        obtain ⟨type, hget, h⟩ := bind_eq_ok.mp h
        refine roomEventFromDict_plain (fun heq => hw ?_) w e h
        rw [get?_of_getStr hget, heq]
  refine hparse event e ?_
  rw [← h]
  unfold parseEvent verify
  cases hw : Schemas.roomEvent event with
  | none => rfl
  | some w =>
    dsimp only
    rw [if_neg]
    rw [keepsType_roomEvent event w hw]
    exact htype

/-- A decrypted event has the id that its payload was given, or none, and is not encrypted. -/
theorem parseDecryptedEvent_plain : ParsesPlain parseDecryptedEvent := by
  refine verify_parsesPlain keepsId_roomMegolmDecrypted fun event e h => ?_
  obtain ⟨redacted, -, h⟩ := bind_eq_ok.mp h
  cases redacted with
  | true => exact redactedFromDict_parsesPlain event e h
  | false =>
    obtain ⟨type, htype, h⟩ := bind_eq_ok.mp h
    split at h
    · obtain ⟨bad, hbad, h⟩ := bind_eq_ok.mp h
      cases h
      exact ⟨badOrUnknown_ownId hbad, rfl⟩
    · next hencrypted =>
      split at h
      · exact parseRoomMessage_parsesPlain event e h
      · refine parseEvent_plain (fun heq => hencrypted ?_) h
        rw [get?_of_getStr htype] at heq
        exact Json.str.inj (Option.some.inj heq)

end Nio.Events
