import Nio.Events.EventParsing

/-!
# The parsers of decrypted events, invites and to-device events

The parsers that take an event which no envelope schema has checked: its `unsigned` section may be
any value.

* `parseDecryptedEvent_returns`, `parseInviteEvent_returns`, `parseToDeviceEvent_returns`
* `parsers_return` — when each of the four parsers returns
-/

namespace Nio.Events

open Nio.Py
open Nio.Py.Schema
open Nio.Schemas (verificationEvent strings)

/-! ## Redactions -/

/-- `"redacted_because" in unsigned` is defined. -/
def redactionReads (event : Json) : Bool :=
  match event.get? (py "unsigned") with
  | none | some (.obj _) | some (.arr _) | some (.str _) => true
  | some _ => false

/-- `unsigned` is asked for `redacted_because` exactly if it is a dictionary, a list or a text. -/
theorem isRedacted_returns {event : Json} :
    Returns (isRedacted event) ↔ redactionReads event = true := by
  unfold isRedacted redactionReads
  cases event.get? (py "unsigned") with
  | none => simp
  | some unsigned => cases unsigned <;> simp [contains]

theorem notRedacted_of {event : Json} {redacted : Bool} (h : isRedacted event = .ok redacted) :
    notRedacted event = !redacted := by
  simp only [notRedacted, h]

/-! ## Decrypted events -/

/-- The event id, the sender and the timestamp that the caller copies from the encrypted event -/
structure Carries (event : Json) : Prop where
  isObj : event.isObj = true
  eventId : ∃ s, event.get? (py "event_id") = some (.str s)
  sender : ∃ s, Schemas.checkUserId s = true ∧ event.get? (py "sender") = some (.str s)
  timestamp : ∃ n, 0 ≤ n ∧ event.get? (py "origin_server_ts") = some (.int n)

/-- What `Event.parse_decrypted_event` needs of an object that its schema accepts -/
structure DecryptedReads (event : Json) : Prop where
  redaction : redactionReads event = true
  message : notRedacted event = true →
    event.get? (py "type") = some (.str (py "m.room.message")) →
    (Schemas.roomMessage event).isSome → unsignedReads event = true
  member : notRedacted event = true →
    event.get? (py "type") = some (.str (py "m.room.member")) →
    (Schemas.roomEvent event).isSome → (Schemas.roomMembership event).isSome →
      prevContentReads event = true

instance roomMegolmDecrypted_plain : Plain Schemas.roomMegolmDecrypted := by
  unfold Schemas.roomMegolmDecrypted
  infer_instance

/-- A decrypted event has a type and a content. -/
theorem roomMegolmDecrypted_fields {event : Json} (h : Accepts Schemas.roomMegolmDecrypted event) :
    (∃ s, event.get? (py "type") = some (.str s)) ∧ (event.get? (py "content")).isSome := by
  obtain ⟨kvs, rfl, hfield, -, hall⟩ := accepts_object (by simp) (by simp) h
  obtain ⟨type, ht⟩ := (hall _ List.mem_cons_self).required "type" (by simp)
  obtain ⟨content, hc⟩ := (hall _ List.mem_cons_self).required "content" (by simp)
  obtain ⟨type, rfl⟩ := (accepts_field hfield 0 rfl ht).string
  exact ⟨⟨type, ht⟩, by simp [Json.get?, hc]⟩

theorem Carries.hasFields {event : Json} (h : Carries event)
    (hs : Accepts Schemas.roomMegolmDecrypted event) : HasFields event := by
  obtain ⟨eventId, he⟩ := h.eventId
  obtain ⟨sender, -, hsender⟩ := h.sender
  obtain ⟨n, -, hn⟩ := h.timestamp
  exact ⟨h.isObj, (roomMegolmDecrypted_fields hs).1, by simp [he], by simp [hsender], ⟨n, hn⟩⟩

theorem getStr_of {event : Json} {key : String} {s : Str}
    (h : event.get? (py key) = some (.str s)) : getStr event key = .ok s := by
  cases event with
  | obj kvs => exact getStr_obj h
  | _ => cases h

/-- An event that is neither encrypted again nor a message goes to `Event.parse_event`. -/
theorem parseOther_returns {event : Json} {type : Str} (hf : HasFields event) (hd : event.Distinct)
    (hn : notRedacted event = true) (ht : event.get? (py "type") = some (.str type))
    (hc : (event.get? (py "content")).isSome) (hmessage : type ≠ py "m.room.message") :
    Returns (parseEvent event) ↔ (type = py "m.room.member" → (Schemas.roomEvent event).isSome →
      (Schemas.roomMembership event).isSome → prevContentReads event = true) := by
  rw [parseEvent_returns hf.isObj hd]
  constructor
  · rintro ⟨-, hcls⟩ hmember hs
    exact (hcls hs hn type ht).member hmember
  · intro h
    refine ⟨hf.compares, fun hs _ type' ht' => ?_⟩
    obtain rfl := Json.str.inj (Option.some.inj (ht.symm.trans ht'))
    exact ⟨fun he => absurd he hmessage, fun he => h he hs, fun _ _ => hc⟩

/-- A decrypted payload is parsed exactly when its class reads it. -/
theorem parseDecryptedEvent_returns {event : Json} (hd : event.Distinct) (h : Carries event) :
    Returns (parseDecryptedEvent event) ↔
      ((Schemas.roomMegolmDecrypted event).isSome → DecryptedReads event) := by
  have hts : TimestampCompares event := by
    obtain ⟨n, -, hn⟩ := h.timestamp
    intro timestamp ht
    obtain rfl := Option.some.inj (hn.symm.trans ht)
    rfl
  unfold parseDecryptedEvent
  rw [returns_verify_plain h.isObj hd, and_iff_right fun _ => hts]
  refine imp_congr_right fun hs => ?_
  obtain ⟨w, hw⟩ := Option.isSome_iff_exists.mp hs
  obtain rfl := roomMegolmDecrypted_plain.eq hd hw
  have hf := h.hasFields (accepts_of_eq hw)
  obtain ⟨⟨type, ht⟩, hc⟩ := roomMegolmDecrypted_fields (accepts_of_eq hw)
  rw [returns_bind]
  constructor
  · rintro ⟨redacted, hr, hret⟩
    have hn := notRedacted_of hr
    refine ⟨isRedacted_returns.mp ⟨_, hr⟩, fun hnot hmessage hmsg => ?_,
      fun hnot hmember hroom hs => ?_⟩
    all_goals
      cases redacted with
      | true => simp [hn] at hnot
      | false => ?_
    all_goals
      simp only [Bool.false_eq_true, if_false, getStr_of ht, ok_bind] at hret
    · obtain rfl := Json.str.inj (Option.some.inj (ht.symm.trans hmessage))
      rw [if_neg (by simp [py_inj]), if_pos rfl, parseRoomMessage_returns hf hd] at hret
      exact (hret hmsg).2
    · obtain rfl := Json.str.inj (Option.some.inj (ht.symm.trans hmember))
      rw [if_neg (by simp [py_inj]), if_neg (by simp [py_inj]),
        parseOther_returns hf hd hnot ht hc (by simp [py_inj])] at hret
      exact hret rfl hroom hs
  · rintro ⟨hred, hmessage, hmember⟩
    obtain ⟨redacted, hr⟩ := isRedacted_returns.mpr hred
    have hn := notRedacted_of hr
    refine ⟨redacted, hr, ?_⟩
    cases redacted with
    | true => exact redactedFromDict_returns hf hd
    | false =>
      simp only [Bool.false_eq_true, if_false, getStr_of ht, ok_bind]
      split_ifs with h₁ h₂
      · rw [returns_bind_pure]
        exact (badOrUnknown_returns h.isObj).mpr hts
      · subst h₂
        exact (parseRoomMessage_returns hf hd).mpr fun hmsg =>
          ⟨hc, hmessage (by simpa using hn) ht hmsg⟩
      · refine (parseOther_returns hf hd (by simpa using hn) ht hc h₂).mpr ?_
        rintro rfl
        exact hmember (by simpa using hn) ht

/-! ## Invites -/

instance inviteEvent_plain : Plain Schemas.inviteEvent := by
  unfold Schemas.inviteEvent
  infer_instance

/-- The schema of the class that reads a stripped event of the type -/
def inviteSchema? (type : Str) : Option Schema :=
  if type = py "m.room.member" then some Schemas.roomMembership
  else if type = py "m.room.canonical_alias" then some Schemas.roomCanonicalAlias
  else if type = py "m.room.name" then some Schemas.roomName
  else none

/-- The event fails the schema of its class. -/
def inviteClassFails (event : Json) : Prop :=
  ∃ type s, event.get? (py "type") = some (.str type) ∧ inviteSchema? type = some s ∧
    s event = none

/-- What an object needs for `InviteEvent.parse_event` -/
structure InviteReads (event : Json) : Prop where
  envelope : Schemas.inviteEvent event = none → TimestampCompares event
  redaction : (Schemas.inviteEvent event).isSome → redactionReads event = true
  cls : (Schemas.inviteEvent event).isSome → notRedacted event = true → inviteClassFails event →
    TimestampCompares event
  member : (Schemas.inviteEvent event).isSome → notRedacted event = true →
    event.get? (py "type") = some (.str (py "m.room.member")) →
    (Schemas.roomMembership event).isSome → prevContentReads event = true

theorem inviteEvent_fields {event : Json} (h : Accepts Schemas.inviteEvent event) :
    event.isObj = true ∧ ∃ s, event.get? (py "type") = some (.str s) := by
  obtain ⟨kvs, rfl, hfield, -, hall⟩ := accepts_object (by simp) (by simp) h
  obtain ⟨type, ht⟩ := (hall _ List.mem_cons_self).required "type" (by simp)
  obtain ⟨type, rfl⟩ := (accepts_field hfield 1 rfl ht).string
  exact ⟨rfl, type, ht⟩

theorem dictGet?_erase_content {kvs : List (Str × Json)} {key : String} (h : key ≠ "content") :
    dictGet? (dictErase kvs (py "content")) (py key) = dictGet? kvs (py key) := by
  rw [dictGet?_dictErase, if_neg fun he => h (py_inj.mp he)]

/-- A stripped membership returns unless its timestamp or its previous content cannot be read, -/
theorem inviteMemberFromDict_returns {event : Json} (hobj : event.isObj = true)
    (hd : event.Distinct) :
    Returns (inviteMemberFromDict event) ↔
      (Schemas.roomMembership event = none → TimestampCompares event) ∧
      ((Schemas.roomMembership event).isSome → prevContentReads event = true) := by
  unfold inviteMemberFromDict
  rw [returns_verify_plain hobj hd]
  refine and_congr_right fun _ => imp_congr_right fun hs => ?_
  obtain ⟨w, hw⟩ := Option.isSome_iff_exists.mp hs
  obtain rfl := roomMembership_plain.eq hd hw
  cases w with
  | obj kvs =>
    obtain ⟨c, membership, sender, k, hc, hm, hsender, hk⟩ :=
      roomMembership_fields (accepts_of_eq hw)
    have hprev : prevContentReads (popContent (.obj kvs)) = prevContentReads (.obj kvs) := by
      simp only [prevContentReads, popContent, Json.get?, dictGet?_erase_content, ne_eq,
        String.reduceEq, not_false_eq_true]
    rw [← hprev]
    unfold popContent
    rw [← prevContent_returns]
    -- the content is gone from the event, and the other fields are still there
    have hsender' := (dictGet?_erase_content (by simp)).trans hsender
    have hk' := (dictGet?_erase_content (by simp)).trans hk
    simp only [getItem_obj hc, getItem_obj hsender', getItem_obj hk', getItem_obj hm, ok_bind,
      getDefault, returns_bind, returns_pure, and_true]
    simp only [Returns]
  | _ => cases hobj

/-- a stripped alias unless its timestamp cannot, -/
theorem inviteAliasFromDict_returns {event : Json} (hobj : event.isObj = true) :
    Returns (inviteAliasFromDict event) ↔
      (Schemas.roomCanonicalAlias event = none → TimestampCompares event) := by
  unfold inviteAliasFromDict
  rw [returns_verify hobj, and_iff_left]
  intro w hw
  obtain ⟨kvs, rfl, hfield, -, hall⟩ := accepts_object (by simp) (by simp) (accepts_of_eq hw)
  obtain ⟨sender, hs⟩ := (hall _ List.mem_cons_self).required "sender" (by simp)
  obtain ⟨c, hc⟩ := (hall _ List.mem_cons_self).required "content" (by simp)
  obtain ⟨ckvs, rfl, -⟩ := accepts_object (by simp) (by simp) (accepts_field hfield 3 rfl hc)
  simp only [getItem_obj hs, getItem_obj hc, getOptional, ok_bind, returns_pure]

/-- and a stripped name alike. -/
theorem inviteNameFromDict_returns {event : Json} (hobj : event.isObj = true) :
    Returns (inviteNameFromDict event) ↔
      (Schemas.roomName event = none → TimestampCompares event) := by
  unfold inviteNameFromDict
  rw [returns_verify hobj, and_iff_left]
  intro w hw
  obtain ⟨kvs, rfl, hfield, -, hall⟩ := accepts_object (by simp) (by simp) (accepts_of_eq hw)
  obtain ⟨sender, hs⟩ := (hall _ List.mem_cons_self).required "sender" (by simp)
  obtain ⟨c, hc⟩ := (hall _ List.mem_cons_self).required "content" (by simp)
  obtain ⟨ckvs, rfl, -, -, hcall⟩ := accepts_object (by simp) (by simp)
    (accepts_field hfield 3 rfl hc)
  obtain ⟨name, hname⟩ := (hcall _ List.mem_cons_self).required "name" (by simp)
  simp only [getItem_obj hs, getItem_obj hc, getItem_obj hname, ok_bind, returns_pure]

/-- `parse_event` of stripped state returns exactly on `InviteReads`. -/
theorem parseInviteEvent_returns {event : Json} (hobj : event.isObj = true) (hd : event.Distinct) :
    Returns (parseInviteEvent event) ↔ InviteReads event := by
  unfold parseInviteEvent
  rw [returns_verify_plain hobj hd]
  cases hs : Schemas.inviteEvent event with
  | none =>
    simp only [Option.isSome_none, Bool.false_eq_true, false_imp_iff, and_true, forall_const]
    exact ⟨fun h => ⟨fun _ => h, by simp [hs], by simp [hs], by simp [hs]⟩, fun h => h.envelope hs⟩
  | some w =>
    have hsome : (Schemas.inviteEvent event).isSome := by rw [hs]; rfl
    obtain rfl := inviteEvent_plain.eq hd hs
    obtain ⟨-, type, ht⟩ := inviteEvent_fields (accepts_of_eq hs)
    simp only [reduceCtorEq, false_imp_iff, true_and, Option.isSome_some, forall_const]
    have hclass : ∀ {s : Schema}, inviteSchema? type = some s →
        (inviteClassFails w → TimestampCompares w) → s w = none → TimestampCompares w :=
      fun hschema h hnone => h ⟨type, _, ht, hschema, hnone⟩
    rw [returns_bind]
    constructor
    · rintro ⟨redacted, hr, hret⟩
      have hn := notRedacted_of hr
      have hred := isRedacted_returns.mp ⟨_, hr⟩
      cases redacted with
      | true =>
        refine ⟨by simp [hs], fun _ => hred, fun _ hnot => ?_, fun _ hnot => ?_⟩
        all_goals simp [hn] at hnot
      | false =>
        simp only [Bool.false_eq_true, if_false, getStr_of ht, ok_bind] at hret
        refine ⟨by simp [hs], fun _ => hred, fun _ _ => ?_, fun _ _ hmember hm => ?_⟩
        · rintro ⟨type', s, ht', hschema, hnone⟩
          obtain rfl := Json.str.inj (Option.some.inj (ht.symm.trans ht'))
          unfold inviteSchema? at hschema
          split_ifs at hschema hret with h₁ h₂ h₃
          · obtain rfl := Option.some.inj hschema
            exact ((inviteMemberFromDict_returns hobj hd).mp (returns_bind_pure.mp hret)).1 hnone
          · obtain rfl := Option.some.inj hschema
            exact (inviteAliasFromDict_returns hobj).mp (returns_bind_pure.mp hret) hnone
          · obtain rfl := Option.some.inj hschema
            exact (inviteNameFromDict_returns hobj).mp (returns_bind_pure.mp hret) hnone
        · obtain rfl := Json.str.inj (Option.some.inj (ht.symm.trans hmember))
          rw [if_pos rfl, returns_bind_pure, inviteMemberFromDict_returns hobj hd] at hret
          exact hret.2 hm
    · rintro ⟨-, hred, hcls, hmember⟩
      obtain ⟨redacted, hr⟩ := isRedacted_returns.mpr (hred hsome)
      have hn := notRedacted_of hr
      refine ⟨redacted, hr, ?_⟩
      cases redacted with
      | true => exact returns_pure _
      | false =>
        have hcls' := hcls hsome (by simpa using hn)
        simp only [Bool.false_eq_true, if_false, getStr_of ht, ok_bind]
        split_ifs with h₁ h₂ h₃
        · rw [returns_bind_pure, inviteMemberFromDict_returns hobj hd]
          subst h₁
          exact ⟨hclass (by simp [inviteSchema?]) hcls', hmember hsome (by simpa using hn) ht⟩
        · rw [returns_bind_pure, inviteAliasFromDict_returns hobj]
          subst h₂
          exact hclass (by simp [inviteSchema?, py_inj]) hcls'
        · rw [returns_bind_pure, inviteNameFromDict_returns hobj]
          subst h₃
          exact hclass (by simp [inviteSchema?, py_inj]) hcls'
        · exact returns_pure _

/-! ## To-device events -/

instance toDevice_plain : Plain Schemas.toDevice := by
  unfold Schemas.toDevice
  infer_instance

instance verificationEvent_plain {ps : List Property} [PlainProperties ps] {names : List String} :
    Plain (verificationEvent ps names) := by
  unfold verificationEvent
  infer_instance

instance strings_plain : Plain strings := by
  unfold strings
  infer_instance

/-- A field that the schema checked for text is read as text, -/
theorem getStr_returns {kvs : List (Str × Json)} {key : String} {w : Json}
    (h : Accepts Schemas.string w) (hw : dictGet? kvs (py key) = some w) :
    Returns (getStr (.obj kvs) key) := by
  obtain ⟨s, rfl⟩ := h.string
  exact ⟨s, getStr_obj hw⟩

/-- and one it checked for texts as texts. -/
theorem getStrs_returns {kvs : List (Str × Json)} {key : String} {w : Json}
    (h : Accepts strings w) (hw : dictGet? kvs (py key) = some w) :
    Returns (getStrs (.obj kvs) key) := by
  unfold getStrs
  rw [getItem_obj hw, ok_bind]
  obtain ⟨v, hv⟩ := h
  obtain ⟨u, hu, hitems⟩ := Option.bind_eq_some_iff.mp hv
  cases u with
  | arr vs =>
    simp only [all, items, Option.bind_eq_some_iff, Option.map_eq_some_iff] at hitems
    obtain ⟨_, ⟨ws, -, rfl⟩, hw⟩ := hitems
    obtain rfl := Option.some.inj hw
    exact returns_ok _
  | _ => cases (accepts_of_eq hu).type

/-- An object whose values are checked by the pattern of their keys. -/
theorem getObj_returns {p : Str → Bool} {s : Schema} {kvs : List (Str × Json)} {key : String}
    {w : Json} (h : Accepts (all [type .object, patternProperties p s]) w)
    (hw : dictGet? kvs (py key) = some w) : Returns (getObj (.obj kvs) key) := by
  unfold getObj
  rw [getItem_obj hw, ok_bind]
  obtain ⟨v, hv⟩ := h
  obtain ⟨u, hu, hpattern⟩ := Option.bind_eq_some_iff.mp hv
  obtain ⟨ukvs, rfl⟩ := (accepts_of_eq hu).object
  simp only [all, patternProperties, Option.bind_eq_some_iff, Option.map_eq_some_iff] at hpattern
  obtain ⟨_, ⟨wkvs, -, rfl⟩, hw⟩ := hpattern
  obtain rfl := Option.some.inj hw
  exact returns_ok _

/-- The required fields of a content, as the classes read them. -/
structure ReadableContent (ps : List Property) (names : List String) (ckvs : List (Str × Json)) :
    Prop where
  item : ∀ name ∈ names, Returns (getItem (.obj ckvs) name)
  str : ∀ name ∈ names, prop name Schemas.string ∈ ps → Returns (getStr (.obj ckvs) name)
  strs : ∀ name ∈ names, prop name strings ∈ ps → Returns (getStrs (.obj ckvs) name)
  obj : ∀ name ∈ names, ∀ p s, prop name (all [type .object, patternProperties p s]) ∈ ps →
    Returns (getObj (.obj ckvs) name)

/-- The content that a schema accepts can be read. -/
theorem readableContent {ps : List Property} {names : List String} (hps : (ps.map (·.name)).Nodup)
    {c : Json} (h : Accepts (all [type .object, properties ps, required names]) c) :
    ∃ ckvs, c = .obj ckvs ∧ ReadableContent ps names ckvs := by
  obtain ⟨ckvs, rfl, hfield, -, hall⟩ := accepts_object hps (by simp) h
  have hget : ∀ name ∈ names, ∃ x, dictGet? ckvs (py name) = some x :=
    fun name hn => (hall _ List.mem_cons_self).required name hn
  refine ⟨ckvs, rfl, fun name hn => ?_, fun name hn hp => ?_, fun name hn hp => ?_,
    fun name hn p s hp => ?_⟩
  all_goals obtain ⟨x, hx⟩ := hget name hn
  · exact ⟨x, getItem_obj hx⟩
  · exact getStr_returns (hfield _ hp x hx) hx
  · exact getStrs_returns (hfield _ hp x hx) hx
  · exact getObj_returns (hfield _ hp x hx) hx

/-- A class of key verification events reads the sender and required fields of the content. -/
theorem verification_returns {ps : List Property} {names : List String} [PlainProperties ps]
    {parse : Json → Except PyError ToDeviceEvent} {event : Json} (hps : (ps.map (·.name)).Nodup)
    (hobj : event.isObj = true) (hd : event.Distinct)
    (h : ∀ kvs ckvs sender, getStr (.obj kvs) "sender" = .ok sender →
      getItem (.obj kvs) "content" = .ok (.obj ckvs) → ReadableContent ps names ckvs →
      Returns (parse (.obj kvs))) :
    Returns (verify (verificationEvent ps names) .bad parse event) ↔
      (verificationEvent ps names event = none → TimestampCompares event) := by
  rw [returns_verify_plain hobj hd, and_iff_left]
  intro hs
  obtain ⟨w, hw⟩ := Option.isSome_iff_exists.mp hs
  obtain rfl := verificationEvent_plain.eq hd hw
  obtain ⟨kvs, rfl, hfield, -, hall⟩ := accepts_object (by simp) (by simp) (accepts_of_eq hw)
  obtain ⟨x, hx⟩ := (hall _ List.mem_cons_self).required "sender" (by simp)
  obtain ⟨sender, rfl⟩ := (accepts_field hfield 0 rfl hx).string
  obtain ⟨c, hc⟩ := (hall _ List.mem_cons_self).required "content" (by simp)
  obtain ⟨ckvs, rfl, hread⟩ := readableContent hps (accepts_field hfield 1 rfl hc)
  exact h kvs ckvs sender (getStr_obj hx) (getItem_obj hc) hread

/-- The verification events return unless they fail their schema with an odd timestamp. -/
theorem keyVerificationStartFromDict_returns {event : Json} (hobj : event.isObj = true)
    (hd : event.Distinct) :
    Returns (keyVerificationStartFromDict event) ↔
      (Schemas.keyVerificationStart event = none → TimestampCompares event) := by
  refine verification_returns (by simp) hobj hd fun kvs ckvs sender hsender hc h => ?_
  obtain ⟨transactionId, h₁⟩ := h.str "transaction_id" (by simp) (by simp)
  obtain ⟨fromDevice, h₂⟩ := h.str "from_device" (by simp) (by simp)
  obtain ⟨method, h₃⟩ := h.str "method" (by simp) (by simp)
  obtain ⟨protocols, h₄⟩ := h.strs "key_agreement_protocols" (by simp) (by simp)
  obtain ⟨hashes, h₅⟩ := h.strs "hashes" (by simp) (by simp)
  obtain ⟨codes, h₆⟩ := h.strs "message_authentication_codes" (by simp) (by simp)
  obtain ⟨sas, h₇⟩ := h.strs "short_authentication_string" (by simp) (by simp)
  simp only [hc, hsender, h₁, h₂, h₃, h₄, h₅, h₆, h₇, ok_bind, returns_pure]

theorem keyVerificationAcceptFromDict_returns {event : Json} (hobj : event.isObj = true)
    (hd : event.Distinct) :
    Returns (keyVerificationAcceptFromDict event) ↔
      (Schemas.keyVerificationAccept event = none → TimestampCompares event) := by
  refine verification_returns (by simp) hobj hd fun kvs ckvs sender hsender hc h => ?_
  obtain ⟨transactionId, h₁⟩ := h.str "transaction_id" (by simp) (by simp)
  obtain ⟨commitment, h₂⟩ := h.str "commitment" (by simp) (by simp)
  obtain ⟨protocol, h₃⟩ := h.str "key_agreement_protocol" (by simp) (by simp)
  obtain ⟨hash, h₄⟩ := h.str "hash" (by simp) (by simp)
  obtain ⟨code, h₅⟩ := h.str "message_authentication_code" (by simp) (by simp)
  obtain ⟨sas, h₆⟩ := h.strs "short_authentication_string" (by simp) (by simp)
  simp only [hc, hsender, h₁, h₂, h₃, h₄, h₅, h₆, ok_bind, returns_pure]

theorem keyVerificationKeyFromDict_returns {event : Json} (hobj : event.isObj = true)
    (hd : event.Distinct) :
    Returns (keyVerificationKeyFromDict event) ↔
      (Schemas.keyVerificationKey event = none → TimestampCompares event) := by
  refine verification_returns (by simp) hobj hd fun kvs ckvs sender hsender hc h => ?_
  obtain ⟨transactionId, h₁⟩ := h.str "transaction_id" (by simp) (by simp)
  obtain ⟨key, h₂⟩ := h.str "key" (by simp) (by simp)
  simp only [hc, hsender, h₁, h₂, ok_bind, returns_pure]

/-- The transaction id is read as the value that it is. -/
theorem keyVerificationMacFromDict_returns {event : Json} (hobj : event.isObj = true)
    (hd : event.Distinct) :
    Returns (keyVerificationMacFromDict event) ↔
      (Schemas.keyVerificationMac event = none → TimestampCompares event) := by
  refine verification_returns (by simp) hobj hd fun kvs ckvs sender hsender hc h => ?_
  obtain ⟨transactionId, h₁⟩ := h.item "transaction_id" (by simp)
  obtain ⟨mac, h₂⟩ := h.obj "mac" (by simp) _ _ (List.mem_cons_self)
  obtain ⟨keys, h₃⟩ := h.str "keys" (by simp) (by simp)
  simp only [hc, hsender, h₁, h₂, h₃, ok_bind, returns_pure]

theorem keyVerificationCancelFromDict_returns {event : Json} (hobj : event.isObj = true)
    (hd : event.Distinct) :
    Returns (keyVerificationCancelFromDict event) ↔
      (Schemas.keyVerificationCancel event = none → TimestampCompares event) := by
  refine verification_returns (by simp) hobj hd fun kvs ckvs sender hsender hc h => ?_
  obtain ⟨transactionId, h₁⟩ := h.str "transaction_id" (by simp) (by simp)
  obtain ⟨code, h₂⟩ := h.item "code" (by simp)
  obtain ⟨reason, h₃⟩ := h.item "reason" (by simp)
  simp only [hc, hsender, h₁, h₂, h₃, ok_bind, returns_pure]

instance roomKeyRequest_plain : Plain Schemas.roomKeyRequest := by
  unfold Schemas.roomKeyRequest
  infer_instance

instance roomKeyRequestCancel_plain : Plain Schemas.roomKeyRequestCancel := by
  unfold Schemas.roomKeyRequestCancel
  infer_instance

instance roomOlmEncrypted_plain : Plain Schemas.roomOlmEncrypted := by
  unfold Schemas.roomOlmEncrypted
  infer_instance

theorem Accepts.userId {w : Json} (h : Accepts Schemas.userId w) : ∃ s, w = .str s :=
  Accepts.stringAnd (by simp) h

/-- So do key requests, -/
theorem roomKeyRequestFromDict_returns {event : Json} (hobj : event.isObj = true)
    (hd : event.Distinct) :
    Returns (roomKeyRequestFromDict event) ↔
      (Schemas.roomKeyRequest event = none → TimestampCompares event) := by
  unfold roomKeyRequestFromDict
  rw [returns_verify_plain hobj hd, and_iff_left]
  intro hs
  obtain ⟨w, hw⟩ := Option.isSome_iff_exists.mp hs
  obtain rfl := roomKeyRequest_plain.eq hd hw
  obtain ⟨kvs, rfl, hfield, -, hall⟩ := accepts_object (by simp) (by simp) (accepts_of_eq hw)
  obtain ⟨x, hx⟩ := (hall _ List.mem_cons_self).required "sender" (by simp)
  obtain ⟨sender, rfl⟩ := Accepts.userId (accepts_field hfield 0 rfl hx)
  obtain ⟨c, hc⟩ := (hall _ List.mem_cons_self).required "content" (by simp)
  have hcontent := accepts_field hfield 2 rfl hc
  obtain ⟨ckvs, rfl, h⟩ := readableContent (by simp) hcontent
  obtain ⟨deviceId, h₁⟩ := h.str "requesting_device_id" (by simp) (by simp)
  obtain ⟨requestId, h₂⟩ := h.str "request_id" (by simp) (by simp)
  obtain ⟨_, hckvs, hcfield, -, hcall⟩ := accepts_object (by simp) (by simp) hcontent
  obtain rfl := Json.obj.inj hckvs
  obtain ⟨b, hb⟩ := (hcall _ List.mem_cons_self).required "body" (by simp)
  obtain ⟨bkvs, rfl, hbody⟩ := readableContent (by simp) (accepts_field hcfield 0 rfl hb)
  obtain ⟨algorithm, h₃⟩ := hbody.str "algorithm" (by simp) (by simp)
  obtain ⟨roomId, h₄⟩ := hbody.str "room_id" (by simp) (by simp)
  obtain ⟨senderKey, h₅⟩ := hbody.str "sender_key" (by simp) (by simp)
  obtain ⟨sessionId, h₆⟩ := hbody.str "session_id" (by simp) (by simp)
  simp only [getItem_obj hc, getItem_obj hb, getStr_obj hx, h₁, h₂, h₃, h₄, h₅, h₆, ok_bind,
    returns_pure]

/-- The fields of a cancellation, and the action that a request is told from it by -/
theorem roomKeyRequestCancel_fields {event : Json} (h : Accepts Schemas.roomKeyRequestCancel event) :
    ∃ kvs ckvs sender action deviceId requestId, event = .obj kvs ∧
      getStr event "sender" = .ok sender ∧ event.get? (py "content") = some (.obj ckvs) ∧
      dictGet? ckvs (py "action") = some (.str action) ∧
      getStr (.obj ckvs) "requesting_device_id" = .ok deviceId ∧
      getStr (.obj ckvs) "request_id" = .ok requestId := by
  obtain ⟨kvs, rfl, hfield, -, hall⟩ := accepts_object (by simp) (by simp) h
  obtain ⟨x, hx⟩ := (hall _ List.mem_cons_self).required "sender" (by simp)
  obtain ⟨sender, rfl⟩ := Accepts.userId (accepts_field hfield 0 rfl hx)
  obtain ⟨c, hc⟩ := (hall _ List.mem_cons_self).required "content" (by simp)
  have hcontent := accepts_field hfield 2 rfl hc
  obtain ⟨ckvs, rfl, hread⟩ := readableContent (by simp) hcontent
  obtain ⟨deviceId, h₁⟩ := hread.str "requesting_device_id" (by simp) (by simp)
  obtain ⟨requestId, h₂⟩ := hread.str "request_id" (by simp) (by simp)
  obtain ⟨_, hckvs, hcfield, -, hcall⟩ := accepts_object (by simp) (by simp) hcontent
  obtain rfl := Json.obj.inj hckvs
  obtain ⟨a, ha⟩ := (hcall _ List.mem_cons_self).required "action" (by simp)
  obtain ⟨action, rfl⟩ := Accepts.stringAnd (by simp) (accepts_field hcfield 1 rfl ha)
  exact ⟨kvs, ckvs, sender, action, deviceId, requestId, rfl, getStr_obj hx, hc, ha, h₁, h₂⟩

/-- and so do their cancellations. -/
theorem roomKeyRequestCancellationFromDict_returns {event : Json} (hobj : event.isObj = true)
    (hd : event.Distinct) :
    Returns (roomKeyRequestCancellationFromDict event) ↔
      (Schemas.roomKeyRequestCancel event = none → TimestampCompares event) := by
  unfold roomKeyRequestCancellationFromDict
  rw [returns_verify_plain hobj hd, and_iff_left]
  intro hs
  obtain ⟨w, hw⟩ := Option.isSome_iff_exists.mp hs
  obtain rfl := roomKeyRequestCancel_plain.eq hd hw
  obtain ⟨kvs, ckvs, sender, action, deviceId, requestId, -, hsender, hc, -, h₁, h₂⟩ :=
    roomKeyRequestCancel_fields (accepts_of_eq hw)
  simp only [getItem_of hc, hsender, h₁, h₂, ok_bind, returns_pure]

/-- The value of a string field inside the content -/
def contentStr? (event : Json) (key : String) : Option Str :=
  ((event.get? (py "content")).bind (·.get? (py key))).bind Json.asStr?

theorem contentStr?_of {event : Json} {ckvs : List (Str × Json)} {key : String} {s : Str}
    (hc : event.get? (py "content") = some (.obj ckvs))
    (hs : dictGet? ckvs (py key) = some (.str s)) : contentStr? event key = some s := by
  unfold contentStr?
  rw [hc, Option.bind_some, show Json.get? (.obj ckvs) (py key) = some (.str s) from hs]
  rfl

/-- The schemas of an encrypted event, in the order of the checks -/
def encryptedSchemas (event : Json) : List Schema :=
  Schemas.roomEncrypted ::
    if contentStr? event "algorithm" = some (py "m.olm.v1.curve25519-aes-sha2") then
      [Schemas.roomOlmEncrypted]
    else []

/-- The schemas of a room key request, in the order of the checks -/
def keyRequestSchemas (event : Json) : List Schema :=
  Schemas.roomKeyRequestCancel ::
    if contentStr? event "action" = some (py "request") then [Schemas.roomKeyRequest] else []

/-- The event fails one of the schemas. -/
def Fails (schemas : List Schema) (event : Json) : Prop := ∃ s ∈ schemas, s event = none

/-- A key request of either action returns exactly where its timestamp can be compared. -/
theorem parseRoomKeyRequest_returns {event : Json} (hobj : event.isObj = true)
    (hd : event.Distinct) :
    Returns (parseRoomKeyRequest event) ↔
      (Fails (keyRequestSchemas event) event → TimestampCompares event) := by
  unfold parseRoomKeyRequest
  rw [returns_verify_plain hobj hd]
  cases hs : Schemas.roomKeyRequestCancel event with
  | none =>
    have hfails : Fails (keyRequestSchemas event) event := ⟨_, List.mem_cons_self, hs⟩
    simp only [Option.isSome_none, Bool.false_eq_true, false_imp_iff, and_true, hfails]
  | some w =>
    obtain rfl := roomKeyRequestCancel_plain.eq hd hs
    obtain ⟨kvs, ckvs, sender, action, deviceId, requestId, rfl, -, hc, ha, -⟩ :=
      roomKeyRequestCancel_fields (accepts_of_eq hs)
    have haction := contentStr?_of hc ha
    simp only [reduceCtorEq, false_imp_iff, true_and, Option.isSome_some, forall_const,
      getItem_of hc, getStr_obj ha, ok_bind, keyRequestSchemas, haction, Option.some.injEq]
    split_ifs
    · rw [roomKeyRequestFromDict_returns hobj hd]
      simp [Fails, hs]
    · rw [roomKeyRequestCancellationFromDict_returns hobj hd]
      simp [Fails, hs]

/-- An Olm event needs an `unsigned` that can be asked for its transaction. -/
theorem olmFromDict_returns {event : Json} (hobj : event.isObj = true) (hd : event.Distinct)
    (hsender : ∃ s, event.get? (py "sender") = some (.str s)) :
    Returns (olmFromDict event) ↔ (Schemas.roomOlmEncrypted event = none → TimestampCompares event) ∧
      ((Schemas.roomOlmEncrypted event).isSome → unsignedReads event = true) := by
  unfold olmFromDict
  rw [returns_verify_plain hobj hd]
  refine and_congr_right fun _ => imp_congr_right fun hs => ?_
  obtain ⟨w, hw⟩ := Option.isSome_iff_exists.mp hs
  obtain rfl := roomOlmEncrypted_plain.eq hd hw
  obtain ⟨sender, hsender⟩ := hsender
  obtain ⟨kvs, rfl, hfield, -, hall⟩ := accepts_object (by simp) (by simp) (accepts_of_eq hw)
  obtain ⟨c, hc⟩ := (hall _ List.mem_cons_self).required "content" (by simp)
  obtain ⟨ckvs, rfl, hread⟩ := readableContent (by simp) (accepts_field hfield 1 rfl hc)
  obtain ⟨ciphertext, h₁⟩ := hread.obj "ciphertext" (by simp) _ _
    (List.mem_cons_of_mem _ (List.mem_cons_of_mem _ List.mem_cons_self))
  obtain ⟨senderKey, h₂⟩ := hread.str "sender_key" (by simp) (by simp)
  simp only [getItem_obj hc, h₁, h₂, getStr_of hsender, ok_bind, returns_bind_pure,
    unsignedTransactionId_returns]

/-- What an encrypted to-device event needs -/
structure EncryptedReads (event : Json) : Prop where
  timestamp : Fails (encryptedSchemas event) event → TimestampCompares event
  olm : ¬ Fails (encryptedSchemas event) event →
    contentStr? event "algorithm" = some (py "m.olm.v1.curve25519-aes-sha2") →
    unsignedReads event = true

/-- An encrypted to-device event is parsed exactly on `EncryptedReads`. -/
theorem parseEncryptedEvent_returns {event : Json} (hobj : event.isObj = true) (hd : event.Distinct)
    (hsender : ∃ s, event.get? (py "sender") = some (.str s)) :
    Returns (parseEncryptedEvent event) ↔ EncryptedReads event := by
  unfold parseEncryptedEvent
  rw [returns_verify_plain hobj hd]
  cases hs : Schemas.roomEncrypted event with
  | none =>
    have hfails : Fails (encryptedSchemas event) event := ⟨_, List.mem_cons_self, hs⟩
    simp only [Option.isSome_none, Bool.false_eq_true, false_imp_iff, and_true, forall_const]
    exact ⟨fun h => ⟨fun _ => h, fun hn => absurd hfails hn⟩, fun h => h.timestamp hfails⟩
  | some w =>
    obtain rfl := roomEncrypted_plain.eq hd hs
    obtain ⟨ckvs, algorithm, hc, ha⟩ := roomEncrypted_algorithm (accepts_of_eq hs)
    have halgorithm := contentStr?_of hc ha
    simp only [reduceCtorEq, false_imp_iff, true_and, Option.isSome_some, forall_const,
      getItem_of hc, getStr_obj ha, ok_bind]
    split_ifs with holm
    · have hfails : Fails (encryptedSchemas w) w ↔ Schemas.roomOlmEncrypted w = none := by
        simp [Fails, encryptedSchemas, halgorithm, holm, hs]
      rw [returns_bind_pure, olmFromDict_returns hobj hd hsender, ← hfails,
        ← Option.ne_none_iff_isSome, ne_eq, ← hfails]
      exact ⟨fun ⟨h₁, h₂⟩ => ⟨h₁, fun hn _ => h₂ hn⟩,
        fun h => ⟨h.timestamp, fun hn => h.olm hn (by rw [halgorithm, holm])⟩⟩
    · have hfails : ¬ Fails (encryptedSchemas w) w := by
        simp [Fails, encryptedSchemas, halgorithm, holm, hs]
      exact iff_of_true (returns_pure _)
        ⟨fun h => absurd h hfails, fun _ he => absurd (Option.some.inj (halgorithm.symm.trans he)) holm⟩

/-- The schemas of the class that reads a to-device event of the type -/
def toDeviceClassSchemas (type : Str) (event : Json) : List Schema :=
  if type = py "m.room.encrypted" then encryptedSchemas event
  else if type = py "m.key.verification.start" then [Schemas.keyVerificationStart]
  else if type = py "m.key.verification.accept" then [Schemas.keyVerificationAccept]
  else if type = py "m.key.verification.key" then [Schemas.keyVerificationKey]
  else if type = py "m.key.verification.mac" then [Schemas.keyVerificationMac]
  else if type = py "m.key.verification.cancel" then [Schemas.keyVerificationCancel]
  else if type = py "m.room_key_request" then keyRequestSchemas event
  else []

/-- What an object needs for `ToDeviceEvent.parse_event` -/
structure ToDeviceReads (event : Json) : Prop where
  envelope : Schemas.toDevice event = none → TimestampCompares event
  cls : (Schemas.toDevice event).isSome → event.get? (py "content") ≠ some (.obj []) →
    ∀ type, event.get? (py "type") = some (.str type) →
      Fails (toDeviceClassSchemas type event) event → TimestampCompares event
  olm : (Schemas.toDevice event).isSome → event.get? (py "content") ≠ some (.obj []) →
    event.get? (py "type") = some (.str (py "m.room.encrypted")) →
    ¬ Fails (encryptedSchemas event) event →
    contentStr? event "algorithm" = some (py "m.olm.v1.curve25519-aes-sha2") →
    unsignedReads event = true

/-- A to-device event has a sender, a type and a content. -/
theorem toDevice_fields {event : Json} (h : Accepts Schemas.toDevice event) :
    ∃ sender type ckvs, event.get? (py "sender") = some (.str sender) ∧
      event.get? (py "type") = some (.str type) ∧
      event.get? (py "content") = some (.obj ckvs) := by
  obtain ⟨kvs, rfl, hfield, -, hall⟩ := accepts_object (by simp) (by simp) h
  obtain ⟨x, hx⟩ := (hall _ List.mem_cons_self).required "sender" (by simp)
  obtain ⟨t, ht⟩ := (hall _ List.mem_cons_self).required "type" (by simp)
  obtain ⟨c, hc⟩ := (hall _ List.mem_cons_self).required "content" (by simp)
  obtain ⟨sender, rfl⟩ := Accepts.userId (accepts_field hfield 0 rfl hx)
  obtain ⟨type, rfl⟩ := (accepts_field hfield 1 rfl ht).string
  obtain ⟨ckvs, rfl⟩ := (accepts_field hfield 2 rfl hc).object
  exact ⟨sender, type, ckvs, hx, ht, hc⟩

theorem fails_singleton {s : Schema} {event : Json} : Fails [s] event ↔ s event = none := by
  simp [Fails]

/-- `parse_event` of to-device events returns exactly on `ToDeviceReads`. -/
theorem parseToDeviceEvent_returns {event : Json} (hobj : event.isObj = true)
    (hd : event.Distinct) : Returns (parseToDeviceEvent event) ↔ ToDeviceReads event := by
  unfold parseToDeviceEvent
  rw [returns_verify_plain hobj hd]
  cases hs : Schemas.toDevice event with
  | none =>
    simp only [Option.isSome_none, Bool.false_eq_true, false_imp_iff, and_true, forall_const]
    exact ⟨fun h => ⟨fun _ => h, by simp [hs], by simp [hs]⟩, fun h => h.envelope hs⟩
  | some w =>
    have hsome : (Schemas.toDevice event).isSome := by rw [hs]; rfl
    obtain rfl := toDevice_plain.eq hd hs
    obtain ⟨sender, type, ckvs, hsender, ht, hc⟩ := toDevice_fields (accepts_of_eq hs)
    have hcontent : getObj w "content" = .ok ckvs := by
      unfold getObj
      rw [getItem_of hc, ok_bind]
    simp only [reduceCtorEq, false_imp_iff, true_and, Option.isSome_some, forall_const, hcontent,
      ok_bind]
    by_cases hempty : ckvs = []
    · subst hempty
      exact iff_of_true (by simp) ⟨by simp [hs], fun _ hne => absurd hc hne,
        fun _ hne => absurd hc hne⟩
    rw [if_neg hempty, getStr_of ht, ok_bind]
    have hne : w.get? (py "content") ≠ some (.obj []) := by
      rw [hc]
      exact fun he => hempty (Json.obj.inj (Option.some.inj he))
    -- the class decides, and only encrypted events need more than their schemas
    have hclass : Returns (do
          if type = py "m.room.encrypted" then parseEncryptedEvent w
          else if type = py "m.key.verification.start" then
            return some (← keyVerificationStartFromDict w)
          else if type = py "m.key.verification.accept" then
            return some (← keyVerificationAcceptFromDict w)
          else if type = py "m.key.verification.key" then
            return some (← keyVerificationKeyFromDict w)
          else if type = py "m.key.verification.mac" then
            return some (← keyVerificationMacFromDict w)
          else if type = py "m.key.verification.cancel" then
            return some (← keyVerificationCancelFromDict w)
          else if type = py "m.room_key_request" then return some (← parseRoomKeyRequest w)
          else return some (.unknown w (← getStr w "sender") type)) ↔
        (Fails (toDeviceClassSchemas type w) w → TimestampCompares w) ∧
        (type = py "m.room.encrypted" → ¬ Fails (encryptedSchemas w) w →
          contentStr? w "algorithm" = some (py "m.olm.v1.curve25519-aes-sha2") →
          unsignedReads w = true) := by
      unfold toDeviceClassSchemas
      by_cases henc : type = py "m.room.encrypted"
      · rw [if_pos henc, if_pos henc, parseEncryptedEvent_returns hobj hd ⟨sender, hsender⟩]
        exact ⟨fun h => ⟨h.timestamp, fun _ => h.olm⟩, fun h => ⟨h.1, h.2 henc⟩⟩
      · rw [if_neg henc, if_neg henc, and_iff_left fun he => absurd he henc]
        split_ifs
        · rw [returns_bind_pure, keyVerificationStartFromDict_returns hobj hd, fails_singleton]
        · rw [returns_bind_pure, keyVerificationAcceptFromDict_returns hobj hd, fails_singleton]
        · rw [returns_bind_pure, keyVerificationKeyFromDict_returns hobj hd, fails_singleton]
        · rw [returns_bind_pure, keyVerificationMacFromDict_returns hobj hd, fails_singleton]
        · rw [returns_bind_pure, keyVerificationCancelFromDict_returns hobj hd, fails_singleton]
        · rw [returns_bind_pure, parseRoomKeyRequest_returns hobj hd]
        · simp [getStr_of hsender, Fails]
    refine hclass.trans ⟨fun h => ⟨by simp [hs], fun _ _ type' ht' => ?_, fun _ _ ht' => ?_⟩,
      fun h => ⟨h.cls hsome hne type ht, ?_⟩⟩
    · obtain rfl := Json.str.inj (Option.some.inj (ht.symm.trans ht'))
      exact h.1
    · exact h.2 (Json.str.inj (Option.some.inj (ht.symm.trans ht')))
    · rintro rfl
      exact h.olm hsome hne ht

/-! ## All parsers -/

/-- When the parsers return an event, a bad event or nothing, and do not raise. -/
theorem parsers_return (event : Json) (hobj : event.isObj = true) (hd : event.Distinct) :
    (Returns (parseEvent event) ↔ EventReads event) ∧
    (Returns (parseToDeviceEvent event) ↔ ToDeviceReads event) ∧
    (Returns (parseInviteEvent event) ↔ InviteReads event) ∧
    (Carries event → (Returns (parseDecryptedEvent event) ↔
      ((Schemas.roomMegolmDecrypted event).isSome → DecryptedReads event))) :=
  ⟨parseEvent_returns hobj hd, parseToDeviceEvent_returns hobj hd,
    parseInviteEvent_returns hobj hd, parseDecryptedEvent_returns hd⟩

/-- Alice joins; `unsigned` says what her membership was before. -/
def joinAfter (prevContent : Json) : Json := .obj [(py "type", .str (py "m.room.member")),
  (py "event_id", .str (py "$event")), (py "sender", .str (py "@alice:x")),
  (py "state_key", .str (py "@alice:x")), (py "origin_server_ts", .int 1),
  (py "content", .obj [(py "membership", .str (py "join"))]),
  (py "unsigned", .obj [(py "prev_content", prevContent)])]

theorem joinAfter_compares (prevContent : Json) : TimestampCompares (joinAfter prevContent) := by
  intro timestamp h
  obtain rfl := Option.some.inj h
  rfl

theorem joinAfter_carries (prevContent : Json) : Carries (joinAfter prevContent) :=
  ⟨rfl, ⟨_, rfl⟩, ⟨_, by decide, rfl⟩, ⟨1, by decide, rfl⟩⟩

theorem joinAfter_type {prevContent : Json} {type : Str}
    (h : (joinAfter prevContent).get? (py "type") = some (.str type)) : type = py "m.room.member" :=
  (Json.str.inj (Option.some.inj h)).symm

/-- The earlier membership, as it should be -/
def invitedBefore : Json := joinAfter (.obj [(py "membership", .str (py "invite"))])

/-- The earlier membership is a text, which has no `get`. -/
def garbledBefore : Json := joinAfter (.str (py "invite"))

theorem invitedBefore_reads : EventReads invitedBefore ∧ ToDeviceReads invitedBefore ∧
    InviteReads invitedBefore ∧ DecryptedReads invitedBefore := by
  have hprev : prevContentReads invitedBefore = true := by decide
  refine ⟨⟨joinAfter_compares _, fun _ _ type ht => ?_⟩, ⟨fun _ => joinAfter_compares _,
    fun _ _ _ _ _ => joinAfter_compares _, fun _ _ ht => ?_⟩, ⟨fun _ => joinAfter_compares _,
    fun _ => by decide, fun _ _ _ => joinAfter_compares _, fun _ _ _ _ => hprev⟩,
    ⟨by decide, fun _ ht => ?_, fun _ _ _ _ => hprev⟩⟩
  · obtain rfl := joinAfter_type ht
    exact ⟨fun h => by simp [py_inj] at h, fun _ _ => hprev, fun h => by simp [py_inj] at h⟩
  · have h := joinAfter_type ht
    simp [py_inj] at h
  · have h := joinAfter_type ht
    simp [py_inj] at h

theorem garbledBefore_prevContent : prevContentReads garbledBefore = false := by decide

/-- All parsers return the membership event; but for the to-device one they raise when the earlier
membership is a text. -/
theorem parsers_return_join :
    (Returns (parseEvent invitedBefore) ∧ Returns (parseToDeviceEvent invitedBefore) ∧
      Returns (parseInviteEvent invitedBefore) ∧ Returns (parseDecryptedEvent invitedBefore)) ∧
    ¬ Returns (parseEvent garbledBefore) ∧ Returns (parseToDeviceEvent garbledBefore) ∧
      ¬ Returns (parseInviteEvent garbledBefore) ∧ ¬ Returns (parseDecryptedEvent garbledBefore) := by
  have good := parsers_return invitedBefore rfl (by decide)
  have bad := parsers_return garbledBefore rfl (by decide)
  obtain ⟨hevent, htoDevice, hinvite, hdecrypted⟩ := invitedBefore_reads
  refine ⟨⟨good.1.mpr hevent, good.2.1.mpr htoDevice, good.2.2.1.mpr hinvite,
    (good.2.2.2 (joinAfter_carries _)).mpr fun _ => hdecrypted⟩, fun h => ?_, bad.2.1.mpr ?_,
    fun h => ?_, fun h => ?_⟩
  · have hreads := (bad.1.mp h).cls (by decide +kernel) (by decide) _ rfl
    have hprev := hreads.member rfl (by decide +kernel)
    rw [garbledBefore_prevContent] at hprev
    cases hprev
  · refine ⟨fun _ => joinAfter_compares _, fun _ _ _ _ _ => joinAfter_compares _, fun _ _ ht => ?_⟩
    have h := joinAfter_type ht
    simp [py_inj] at h
  · have hprev := (bad.2.2.1.mp h).member (by decide +kernel) (by decide) rfl (by decide +kernel)
    rw [garbledBefore_prevContent] at hprev
    cases hprev
  · have hreads := (bad.2.2.2 (joinAfter_carries _)).mp h (by decide +kernel)
    have hprev := hreads.member (by decide) rfl (by decide +kernel) (by decide +kernel)
    rw [garbledBefore_prevContent] at hprev
    cases hprev

/-- A message whose decrypted event has an `unsigned` section that is a number -/
def oddMessage : Json := .obj [(py "type", .str (py "m.room.message")),
  (py "event_id", .str (py "$event")), (py "sender", .str (py "@alice:example.org")),
  (py "origin_server_ts", .int 1), (py "content", .obj [(py "msgtype", .str (py "m.custom"))]),
  (py "unsigned", .int 0)]

theorem oddMessage_carries : Carries oddMessage :=
  ⟨rfl, ⟨_, rfl⟩, ⟨_, by decide, rfl⟩, ⟨1, by decide, rfl⟩⟩

/-- An event whose timestamp is not a number -/
def undatedEvent : Json := .obj [(py "origin_server_ts", .null)]

theorem undatedEvent_compares : ¬ TimestampCompares undatedEvent :=
  fun h => absurd (h .null rfl) (by decide)

/-- Each of the parsers raises on some object. -/
theorem parsers_raise : ¬ Returns (parseEvent undatedEvent) ∧
    ¬ Returns (parseToDeviceEvent undatedEvent) ∧ ¬ Returns (parseInviteEvent undatedEvent) ∧
    ¬ Returns (parseDecryptedEvent oddMessage) := by
  refine ⟨fun h => ?_, fun h => ?_, fun h => ?_, fun h => ?_⟩
  · exact undatedEvent_compares ((parseEvent_returns rfl (by decide)).mp h).timestamp
  · exact undatedEvent_compares
      (((parseToDeviceEvent_returns rfl (by decide)).mp h).envelope (by decide +kernel))
  · exact undatedEvent_compares
      (((parseInviteEvent_returns rfl (by decide)).mp h).envelope (by decide +kernel))
  · have hreads := (parseDecryptedEvent_returns (by decide) oddMessage_carries).mp h
    exact absurd (hreads (by decide +kernel)).redaction (by decide)

end Nio.Events
