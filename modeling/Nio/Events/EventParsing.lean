import Nio.Events.RoomParsing

/-!
# When the event parsers raise

Every parser returns an event, a bad event or nothing, except on a few kinds of objects, which are
named by predicates on the object.

* `roomEventFromDict_returns` — the classes of room events, by type
-/

namespace Nio.Events

open Nio.Py
open Nio.Py.Schema
open Nio.Schemas (callEvent encryptedFile formattedMessage mediaTypes)

/-! ## Calls, reactions and redactions -/

/-- A call event returns when its own class does on the fields that the schema checks. -/
theorem callEvent_returns {ps : List Property} {parse : Json → Except PyError RoomEventClass}
    {event : Json} (hf : HasFields event)
    (hps : (["call_id", "version"] ++ ps.map (·.name)).Nodup)
    (h : ∀ content, (∀ name ∈ ["call_id", "version"] ++ ps.map (·.name),
      ∃ x, getItem content name = .ok x) →
      ∀ w, getDefault w "content" (.obj []) = .ok content → Returns (parse w)) :
    Returns (verifyRoomEvent (callEvent ps) parse event) := by
  refine returns_class (by simp) (by simp) hf fun kvs hfield _ hall => ?_
  obtain ⟨c, hc⟩ := (hall _ List.mem_cons_self).required "content" (by simp)
  obtain ⟨ckvs, rfl, -, -, hcall⟩ := accepts_object (by simpa using hps) (by simp)
    (accepts_field hfield 1 rfl hc)
  refine h (.obj ckvs) (fun name hn => ?_) (.obj kvs) (getDefault_obj hc _)
  obtain ⟨x, hx⟩ := (hcall _ List.mem_cons_self).required name hn
  exact ⟨x, getItem_obj hx⟩

/-- The classes of call events return on every event that has the fields of one. -/
theorem callCandidatesFromDict_returns {event : Json} (hf : HasFields event) :
    Returns (callCandidatesFromDict event) := by
  refine callEvent_returns hf (by simp) fun content h w hw => ?_
  obtain ⟨callId, hcallId⟩ := h "call_id" (by simp)
  obtain ⟨version, hversion⟩ := h "version" (by simp)
  obtain ⟨candidates, hcandidates⟩ := h "candidates" (by simp)
  simp only [hw, hcallId, hversion, hcandidates, ok_bind, returns_pure]

theorem callInviteFromDict_returns {event : Json} (hf : HasFields event) :
    Returns (callInviteFromDict event) := by
  refine callEvent_returns hf (by simp) fun content h w hw => ?_
  obtain ⟨callId, hcallId⟩ := h "call_id" (by simp)
  obtain ⟨version, hversion⟩ := h "version" (by simp)
  obtain ⟨lifetime, hlifetime⟩ := h "lifetime" (by simp)
  obtain ⟨offer, hoffer⟩ := h "offer" (by simp)
  simp only [hw, hcallId, hversion, hlifetime, hoffer, ok_bind, returns_pure]

theorem callAnswerFromDict_returns {event : Json} (hf : HasFields event) :
    Returns (callAnswerFromDict event) := by
  refine callEvent_returns hf (by simp) fun content h w hw => ?_
  obtain ⟨callId, hcallId⟩ := h "call_id" (by simp)
  obtain ⟨version, hversion⟩ := h "version" (by simp)
  obtain ⟨answer, hanswer⟩ := h "answer" (by simp)
  simp only [hw, hcallId, hversion, hanswer, ok_bind, returns_pure]

theorem callHangupFromDict_returns {event : Json} (hf : HasFields event) :
    Returns (callHangupFromDict event) := by
  refine callEvent_returns hf (by simp) fun content h w hw => ?_
  obtain ⟨callId, hcallId⟩ := h "call_id" (by simp)
  obtain ⟨version, hversion⟩ := h "version" (by simp)
  simp only [hw, hcallId, hversion, ok_bind, returns_pure]

/-- An unknown event is built from those fields alone. -/
theorem unknownEventFromDict_returns {event : Json} (hf : HasFields event) :
    Returns (unknownEventFromDict event) := by
  obtain ⟨type, ht⟩ := hf.type
  unfold unknownEventFromDict
  rw [returns_bind_ok (getItem_of ht)]
  exact of_returns hf.returns _

/-- Whatever the type, a call event is parsed. -/
theorem parseCallEvent_returns {event : Json} (hf : HasFields event) (type : Str) :
    Returns (parseCallEvent type event) := by
  unfold parseCallEvent
  split_ifs
  · exact callCandidatesFromDict_returns hf
  · exact callInviteFromDict_returns hf
  · exact callAnswerFromDict_returns hf
  · exact callHangupFromDict_returns hf
  · exact unknownEventFromDict_returns hf

/-- A reaction is parsed, -/
theorem reactionFromDict_returns {event : Json} (hf : HasFields event) :
    Returns (reactionFromDict event) := by
  refine returns_class (by simp) (by simp) hf fun kvs hfield _ hall => ?_
  obtain ⟨c, hc⟩ := (hall _ List.mem_cons_self).required "content" (by simp)
  obtain ⟨ckvs, rfl, hcfield, -, hcall⟩ := accepts_object (by simp) (by simp)
    (accepts_field hfield 1 rfl hc)
  obtain ⟨r, hr⟩ := (hcall _ List.mem_cons_self).required "m.relates_to" (by simp)
  obtain ⟨rkvs, rfl, -, -, hrall⟩ := accepts_object (by simp) (by simp)
    (accepts_field hcfield 0 rfl hr)
  obtain ⟨eventId, he⟩ := (hrall _ List.mem_cons_self).required "event_id" (by simp)
  obtain ⟨key, hk⟩ := (hrall _ List.mem_cons_self).required "key" (by simp)
  simp only [getItem_obj hc, getItem_obj hr, getItem_obj he, getItem_obj hk, ok_bind, returns_pure]

/-- so is a redaction, -/
theorem redactionFromDict_returns {event : Json} (hf : HasFields event) :
    Returns (redactionFromDict event) := by
  refine returns_class (by simp) (by simp) hf fun kvs hfield _ _ => ?_
  have hcontent : ∃ ckvs, getDefault (.obj kvs) "content" (.obj []) = .ok (.obj ckvs) := by
    cases hc : dictGet? kvs (py "content") with
    | none => exact ⟨[], by simp [getDefault, hc]⟩
    | some c =>
      obtain ⟨ckvs, rfl, -⟩ := accepts_object (by simp) (List.forall_mem_nil _)
        (accepts_field hfield 2 rfl hc)
      exact ⟨ckvs, getDefault_obj hc _⟩
  obtain ⟨ckvs, hckvs⟩ := hcontent
  simp only [hckvs, getOptional, ok_bind]
  split <;> exact returns_pure _

instance redactedEvent_plain : Plain Schemas.redactedEvent := by
  unfold Schemas.redactedEvent
  infer_instance

/-- and so is an event that was redacted. -/
theorem redactedFromDict_returns {event : Json} (hf : HasFields event) (hd : event.Distinct) :
    Returns (redactedFromDict event) := by
  refine (returns_class_plain hf hd).mpr fun hs => ?_
  obtain ⟨w, hw⟩ := Option.isSome_iff_exists.mp hs
  obtain rfl := redactedEvent_plain.eq hd hw
  obtain ⟨type, ht⟩ := hf.type
  obtain ⟨kvs, rfl, hfield, -, hall⟩ := accepts_object (by simp) (by simp) (accepts_of_eq hw)
  obtain ⟨u, hu⟩ := (hall _ List.mem_cons_self).required "unsigned" (by simp)
  obtain ⟨ukvs, rfl, hufield, -, huall⟩ := accepts_object (by simp) (by simp)
    (accepts_field hfield 0 rfl hu)
  obtain ⟨r, hr⟩ := (huall _ List.mem_cons_self).required "redacted_because" (by simp)
  obtain ⟨rkvs, rfl, hrfield, -, hrall⟩ := accepts_object (by simp) (by simp)
    (accepts_field hufield 0 rfl hr)
  obtain ⟨sender, hs⟩ := (hrall _ List.mem_cons_self).required "sender" (by simp)
  obtain ⟨c, hc⟩ := (hrall _ List.mem_cons_self).required "content" (by simp)
  obtain ⟨ckvs, rfl, -⟩ := accepts_object (by simp) (List.forall_mem_nil _)
    (accepts_field hrfield 1 rfl hc)
  simp only [getItem_obj hu, getItem_obj hr, getItem_obj hs, getItem_obj hc, getItem_of ht,
    getOptional, ok_bind, returns_pure]

/-! ## Encrypted events -/

instance roomEncrypted_plain : Plain Schemas.roomEncrypted := by
  unfold Schemas.roomEncrypted
  infer_instance

instance roomMegolmEncrypted_plain : Plain Schemas.roomMegolmEncrypted := by
  unfold Schemas.roomMegolmEncrypted
  infer_instance

/-- The transaction id is read exactly from `unsigned` values that can be asked for it. -/
theorem unsignedTransactionId_returns {event : Json} :
    Returns (unsignedTransactionId event) ↔ unsignedReads event = true := by
  unfold unsignedTransactionId unsignedReads
  cases event.get? (py "unsigned") with
  | none => simp
  | some unsigned => cases unsigned <;> simp [Json.isObj]

/-- A Megolm event is parsed where the transaction id is read. -/
theorem megolmFromDict_returns {event : Json} (hf : HasFields event) (hd : event.Distinct)
    (hu : unsignedReads event = true) : Returns (megolmFromDict event) := by
  refine (returns_verify_plain hf.isObj hd).mpr ⟨fun _ => hf.compares, fun hs => ?_⟩
  obtain ⟨w, hw⟩ := Option.isSome_iff_exists.mp hs
  obtain rfl := roomMegolmEncrypted_plain.eq hd hw
  obtain ⟨txId, htx⟩ := unsignedTransactionId_returns.mpr hu
  obtain ⟨kvs, rfl, hfield, -, hall⟩ := accepts_object (by simp) (by simp) (accepts_of_eq hw)
  obtain ⟨c, hc⟩ := (hall _ List.mem_cons_self).required "content" (by simp)
  obtain ⟨ckvs, rfl, -, -, hcall⟩ := accepts_object (by simp) (by simp)
    (accepts_field hfield 5 rfl hc)
  have hreq := hcall _ List.mem_cons_self
  obtain ⟨ciphertext, hciphertext⟩ := hreq.required "ciphertext" (by simp)
  obtain ⟨senderKey, hsenderKey⟩ := hreq.required "sender_key" (by simp)
  obtain ⟨sessionId, hsessionId⟩ := hreq.required "session_id" (by simp)
  obtain ⟨deviceId, hdeviceId⟩ := hreq.required "device_id" (by simp)
  obtain ⟨algorithm, halgorithm⟩ := hreq.required "algorithm" (by simp)
  simp only [getItem_obj hc, getItem_obj hciphertext, getItem_obj hsenderKey,
    getItem_obj hsessionId, getItem_obj hdeviceId, getItem_obj halgorithm, getOptional, htx, ok_bind]
  exact returns_bind_pure.mpr hf.returns

/-- The algorithm of an encrypted event, which is read twice. -/
theorem roomEncrypted_algorithm {event : Json} (h : Accepts Schemas.roomEncrypted event) :
    ∃ ckvs algorithm, event.get? (py "content") = some (.obj ckvs) ∧
      dictGet? ckvs (py "algorithm") = some (.str algorithm) := by
  obtain ⟨kvs, rfl, hfield, -, hall⟩ := accepts_object (by simp) (by simp) h
  obtain ⟨c, hc⟩ := (hall _ List.mem_cons_self).required "content" (by simp)
  obtain ⟨ckvs, rfl, hcfield, -, hcall⟩ := accepts_object (by simp) (by simp)
    (accepts_field hfield 0 rfl hc)
  obtain ⟨x, hx⟩ := (hcall _ List.mem_cons_self).required "algorithm" (by simp)
  obtain ⟨algorithm, rfl⟩ := (accepts_field hcfield 1 rfl hx).string
  exact ⟨ckvs, algorithm, hc, hx⟩

/-- So is an encrypted event of any algorithm. -/
theorem parseEncryptedRoomEvent_returns {event : Json} (hf : HasFields event) (hd : event.Distinct)
    (hu : unsignedReads event = true) : Returns (parseEncryptedRoomEvent event) := by
  refine (returns_verify_plain hf.isObj hd).mpr ⟨fun _ => hf.compares, fun hs => ?_⟩
  obtain ⟨w, hw⟩ := Option.isSome_iff_exists.mp hs
  obtain rfl := roomEncrypted_plain.eq hd hw
  obtain ⟨ckvs, algorithm, hc, ha⟩ := roomEncrypted_algorithm (accepts_of_eq hw)
  rw [returns_bind_ok (getItem_of hc), returns_bind_ok (getStr_obj ha)]
  split
  · exact megolmFromDict_returns hf hd hu
  · obtain ⟨type, ht⟩ := hf.type
    unfold unknownEncryptedFromDict
    simp only [getItem_of ht, getItem_of hc, getItem_obj ha, ok_bind]
    exact of_returns hf.returns _

/-! ## Messages -/

instance encryptedFile_plain : Plain encryptedFile := by
  unfold encryptedFile
  infer_instance

instance roomMessage_plain : Plain Schemas.roomMessage := by
  unfold Schemas.roomMessage
  infer_instance

instance roomMessageMedia_plain : Plain Schemas.roomMessageMedia := by
  unfold Schemas.roomMessageMedia
  infer_instance

instance roomEncryptedMedia_plain : Plain Schemas.roomEncryptedMedia := by
  unfold Schemas.roomEncryptedMedia
  infer_instance

instance formattedMessage_plain : Plain formattedMessage := by
  unfold formattedMessage
  infer_instance

/-- Media messages are parsed, -/
theorem roomMessageMediaFromDict_returns {event c : Json} (hf : HasFields event)
    (hd : event.Distinct) (hc : event.get? (py "content") = some c) (type : MediaType) :
    Returns (roomMessageMediaFromDict type event) := by
  refine (returns_class_plain hf hd).mpr fun hs => ?_
  obtain ⟨w, hw⟩ := Option.isSome_iff_exists.mp hs
  obtain rfl := roomMessageMedia_plain.eq hd hw
  obtain ⟨kvs, rfl, hfield, -⟩ := accepts_object (by simp) (List.forall_mem_nil _)
    (accepts_of_eq hw)
  obtain ⟨ckvs, rfl, -, -, hcall⟩ := accepts_object (by simp) (by simp)
    (accepts_field hfield 0 rfl hc)
  obtain ⟨url, hu⟩ := (hcall _ List.mem_cons_self).required "url" (by simp)
  obtain ⟨body, hb⟩ := (hcall _ List.mem_cons_self).required "body" (by simp)
  simp only [getItem_of hc, getItem_obj hu, getItem_obj hb, ok_bind, returns_pure]

/-- and so are messages with a formatted body. -/
theorem roomMessageFormattedFromDict_returns {event c : Json} (hf : HasFields event)
    (hd : event.Distinct) (hc : event.get? (py "content") = some c) (type : FormattedType) :
    Returns (roomMessageFormattedFromDict type event) := by
  have hschema : formattedSchema type = formattedMessage := by cases type <;> rfl
  unfold roomMessageFormattedFromDict
  rw [hschema]
  refine (returns_class_plain hf hd).mpr fun hs => ?_
  obtain ⟨w, hw⟩ := Option.isSome_iff_exists.mp hs
  obtain rfl := formattedMessage_plain.eq hd hw
  obtain ⟨kvs, rfl, hfield, -⟩ := accepts_object (by simp) (List.forall_mem_nil _)
    (accepts_of_eq hw)
  obtain ⟨ckvs, rfl, -, -, hcall⟩ := accepts_object (by simp) (by simp)
    (accepts_field hfield 0 rfl hc)
  obtain ⟨body, hb⟩ := (hcall _ List.mem_cons_self).required "body" (by simp)
  simp only [getItem_of hc, getItem_obj hb, getOptional, ok_bind]
  split <;> exact returns_pure _

/-- The thumbnail is read from an info object that the schema accepts. -/
theorem thumbnailOf_returns {ikvs : List (Str × Json)}
    (h : Accepts (all [type .object, properties [prop "thumbnail_file" encryptedFile]]) (.obj ikvs)) :
    Returns (thumbnailOf (.obj ikvs)) := by
  obtain ⟨_, hkvs, hfield, -⟩ := accepts_object (by simp) (List.forall_mem_nil _) h
  obtain rfl := Json.obj.inj hkvs
  have hfile : ∃ fkvs, getDefault (.obj ikvs) "thumbnail_file" (.obj []) = .ok (.obj fkvs) := by
    cases hx : dictGet? ikvs (py "thumbnail_file") with
    | none => exact ⟨[], by simp [getDefault, hx]⟩
    | some x =>
      obtain ⟨fkvs, rfl, -⟩ := accepts_object (by simp) (by simp) (accepts_field hfield 0 rfl hx)
      exact ⟨fkvs, getDefault_obj hx _⟩
  obtain ⟨fkvs, hfkvs⟩ := hfile
  simp only [thumbnailOf, hfkvs, getOptional, ok_bind, returns_pure]

/-- The type of an attachment is read from its info or from its file. -/
theorem mimetypeOf_returns {kvs ckvs fkvs ikvs : List (Str × Json)}
    (hc : dictGet? kvs (py "content") = some (.obj ckvs))
    (hfile : dictGet? ckvs (py "file") = some (.obj fkvs)) :
    Returns (mimetypeOf (.obj kvs) (.obj ikvs)) := by
  unfold mimetypeOf
  simp only [getOptional, ok_bind, getItem_obj hc, getItem_obj hfile]
  split
  · split <;> simp
  · simp

/-- The schema of a file leaves nothing open that is read. -/
theorem roomEncryptedMediaFromDict_returns {event : Json} (hf : HasFields event)
    (hd : event.Distinct) (type : MediaType) : Returns (roomEncryptedMediaFromDict type event) := by
  refine (returns_class_plain hf hd).mpr fun hs => ?_
  obtain ⟨w, hw⟩ := Option.isSome_iff_exists.mp hs
  obtain rfl := roomEncryptedMedia_plain.eq hd hw
  obtain ⟨kvs, rfl, hfield, -, hall⟩ := accepts_object (by simp) (by simp) (accepts_of_eq hw)
  obtain ⟨c, hc⟩ := (hall _ List.mem_cons_self).required "content" (by simp)
  obtain ⟨ckvs, rfl, hcfield, -, hcall⟩ := accepts_object (by simp) (by simp)
    (accepts_field hfield 0 rfl hc)
  obtain ⟨body, hb⟩ := (hcall _ List.mem_cons_self).required "body" (by simp)
  obtain ⟨f, hfile⟩ := (hcall _ List.mem_cons_self).required "file" (by simp)
  obtain ⟨fkvs, rfl, -, -, hfall⟩ := accepts_object (by simp) (by simp)
    (accepts_field hcfield 2 rfl hfile)
  have hreq := hfall _ List.mem_cons_self
  obtain ⟨url, hu⟩ := hreq.required "url" (by simp)
  obtain ⟨key, hk⟩ := hreq.required "key" (by simp)
  obtain ⟨hashes, hh⟩ := hreq.required "hashes" (by simp)
  obtain ⟨iv, hi⟩ := hreq.required "iv" (by simp)
  -- an info that is there is an object
  obtain ⟨ikvs, hinfo, ht⟩ : ∃ ikvs, getDefault (.obj ckvs) "info" (.obj []) = .ok (.obj ikvs) ∧
      Returns (thumbnailOf (.obj ikvs)) := by
    cases hx : dictGet? ckvs (py "info") with
    | none =>
      exact ⟨[], by simp [getDefault, hx],
        by simp [thumbnailOf, getDefault, getOptional, ok_bind, dictGet?]⟩
    | some info =>
      have haccepts := accepts_field hcfield 3 rfl hx
      obtain ⟨ikvs, rfl, -⟩ := accepts_object (by simp) (List.forall_mem_nil _) haccepts
      exact ⟨ikvs, getDefault_obj hx _, thumbnailOf_returns haccepts⟩
  obtain ⟨thumbnail, ht⟩ := ht
  obtain ⟨mimetype, hm⟩ := @mimetypeOf_returns kvs ckvs fkvs ikvs hc hfile
  simp only [getItem_obj hc, hinfo, ok_bind]
  rw [returns_bind_ok ht, returns_bind_ok hm]
  simp only [getItem_obj hfile, getItem_obj hu, getItem_obj hb, getItem_obj hk, getItem_obj hh,
    getItem_obj hi, ok_bind, returns_pure]

/-- A message of any type is read by a class whose schema covers what it reads. -/
theorem messageFromDict_returns {event content : Json} {msgtype : Str} {encrypted : Bool}
    (hf : HasFields event) (hd : event.Distinct)
    (hc : event.get? (py "content") = some content)
    (hm : content.get? (py "msgtype") = some (.str msgtype)) :
    Returns (messageFromDict msgtype encrypted event) := by
  unfold messageFromDict
  cases mediaType? msgtype with
  | some type =>
    cases encrypted with
    | true => exact roomEncryptedMediaFromDict_returns hf hd type
    | false => exact roomMessageMediaFromDict_returns hf hd hc type
  | none =>
    dsimp only
    split_ifs
    · exact roomMessageFormattedFromDict_returns hf hd hc .text
    · exact roomMessageFormattedFromDict_returns hf hd hc .emote
    · exact roomMessageFormattedFromDict_returns hf hd hc .notice
    · unfold roomMessageUnknownFromDict
      simp only [getItem_of hc, getItem_of hm, ok_bind]
      cases event with
      | obj kvs =>
        simp only [getDefault, ok_bind]
        exact of_returns hf.returns _
      | _ => cases hc

/-- The schema of a message does not require a content. -/
theorem parseRoomMessage_returns {event : Json} (hf : HasFields event) (hd : event.Distinct) :
    Returns (parseRoomMessage event) ↔ ((Schemas.roomMessage event).isSome →
      (event.get? (py "content")).isSome ∧ unsignedReads event = true) := by
  unfold parseRoomMessage
  rw [returns_verify_plain hf.isObj hd, and_iff_right fun _ => hf.compares]
  refine imp_congr_right fun hs => ?_
  obtain ⟨w, hw⟩ := Option.isSome_iff_exists.mp hs
  obtain rfl := roomMessage_plain.eq hd hw
  obtain ⟨kvs, rfl, hfield, -, -⟩ := accepts_object (by simp) (by simp) (accepts_of_eq hw)
  simp only [Json.get?]
  cases hc : dictGet? kvs (py "content") with
  | none => simp [getItem, hc, bind, Except.bind]
  | some c =>
    obtain ⟨ckvs, rfl, hcfield, -, hcall⟩ := accepts_object (by simp) (by simp)
      (accepts_field hfield 0 rfl hc)
    obtain ⟨x, hx⟩ := (hcall _ List.mem_cons_self).required "msgtype" (by simp)
    obtain ⟨msgtype, rfl⟩ := (accepts_field hcfield 0 rfl hx).string
    obtain ⟨encrypted, he⟩ : ∃ b, contains (.obj ckvs) "file" = .ok b := ⟨_, rfl⟩
    obtain ⟨message, hmessage⟩ := @messageFromDict_returns (.obj kvs) (.obj ckvs) msgtype encrypted hf
      hd hc hx
    simp only [getItem_obj hc, getStr_obj hx, he, ok_bind, Option.isSome_some, true_and,
      unsignedReads, Json.get?]
    rw [returns_bind_ok hmessage]
    cases dictGet? kvs (py "unsigned") with
    | none => simp only [returns_pure]
    | some unsigned =>
      cases unsigned with
      | obj ukvs => simp only [getOptional, Json.isObj, ok_bind, returns_pure]
      | _ => simp [getOptional, Json.isObj, bind, Except.bind]

/-! ## Room events -/

/-- What a room event of the type must have, beyond what its schema asks for -/
structure RoomEventReads (type : Str) (event : Json) : Prop where
  message : type = py "m.room.message" → (Schemas.roomMessage event).isSome →
    (event.get? (py "content")).isSome
  member : type = py "m.room.member" → (Schemas.roomMembership event).isSome →
    prevContentReads event = true
  sticker : type = py "m.sticker" → (Schemas.sticker event).isSome →
    (event.get? (py "content")).isSome

/-- Every class of state events but the membership returns. -/
theorem stateFromDict?_returns {type : Str} {fromDict : Json → Except PyError RoomEvent}
    {event : Json} (h : stateFromDict? type = some fromDict) (ht : type ≠ py "m.room.member")
    (hf : HasFields event) : Returns (fromDict event) := by
  obtain ⟨p, hp, rfl⟩ := Option.map_eq_some_iff.mp h
  have hkey : py p.1 = type := by simpa using List.find?_some hp
  have hmem := List.mem_of_find?_eq_some hp
  simp only [stateParsers, List.mem_cons, List.not_mem_nil, or_false] at hmem
  rcases hmem with rfl | rfl | rfl | rfl | rfl | rfl | rfl | rfl | rfl | rfl | rfl | rfl | rfl |
    rfl | rfl
  · exact roomCreateFromDict_returns hf
  · exact requiredFromDict_returns hf (by simp) (by simp)
  · exact requiredFromDict_returns hf (by simp) (by simp)
  · exact requiredFromDict_returns hf (by simp) (by simp)
  · exact absurd hkey.symm ht
  · exact optionalFromDict_returns hf (by simp)
  · exact requiredFromDict_returns hf (by simp) (by simp)
  · exact requiredFromDict_returns hf (by simp) (by simp)
  · exact optionalFromDict_returns hf (by simp)
  · exact powerLevelsFromDict_returns hf
  · exact roomEncryptionFromDict_returns hf
  · exact redactionFromDict_returns hf
  · exact roomUpgradeFromDict_returns hf
  · exact spaceFromDict_returns hf (by simp)
  · exact spaceFromDict_returns hf (by simp)

theorem stateFromDict?_member : stateFromDict? (py "m.room.member") = some roomMemberFromDict := by
  simp [stateFromDict?, stateParsers, py_inj]

theorem stateFromDict?_sticker : stateFromDict? (py "m.sticker") = none := by
  simp [stateFromDict?, stateParsers, py_inj]

/-- A room event returns exactly when its own class reads it. -/
theorem roomEventFromDict_returns {type : Str} {event : Json} (hf : HasFields event)
    (hd : event.Distinct) (hu : unsignedReads event = true) :
    Returns (roomEventFromDict type event) ↔ RoomEventReads type event := by
  unfold roomEventFromDict
  by_cases hmessage : type = py "m.room.message"
  · rw [if_pos hmessage, parseRoomMessage_returns hf hd]
    simp only [hu, and_true]
    refine ⟨fun h => ⟨fun _ => h, ?_, ?_⟩, fun h => h.message hmessage⟩
    · rintro rfl
      simp [py_inj] at hmessage
    · rintro rfl
      simp [py_inj] at hmessage
  rw [if_neg hmessage]
  by_cases hmember : type = py "m.room.member"
  · subst hmember
    simp only [stateFromDict?_member, roomMemberFromDict_returns hf hd]
    exact ⟨fun h => ⟨fun he => absurd he hmessage, fun _ => h, fun he => by simp [py_inj] at he⟩,
      fun h => h.member rfl⟩
  by_cases hsticker : type = py "m.sticker"
  · subst hsticker
    simp only [stateFromDict?_sticker]
    rw [if_neg (by simp [py_inj]), if_pos trivial, stickerFromDict_returns hf hd]
    exact ⟨fun h => ⟨fun he => absurd he hmessage, fun he => absurd he hmember, fun _ => h⟩,
      fun h => h.sticker rfl⟩
  have hreads : RoomEventReads type event :=
    ⟨fun he => absurd he hmessage, fun he => absurd he hmember, fun he => absurd he hsticker⟩
  refine iff_of_true ?_ hreads
  cases hstate : stateFromDict? type with
  | some fromDict => exact stateFromDict?_returns hstate hmember hf
  | none =>
    dsimp only
    split_ifs
    · exact parseEncryptedRoomEvent_returns hf hd hu
    · exact reactionFromDict_returns hf
    · exact parseCallEvent_returns hf type
    · exact unknownEventFromDict_returns hf

instance roomEvent_plain : Plain Schemas.roomEvent := by
  unfold Schemas.roomEvent
  infer_instance

theorem Accepts.timestamp {w : Json} (h : Accepts (all [Schemas.integer, minimum 0]) w) :
    ∃ n, w = .int n := by
  obtain ⟨v, hv⟩ := h
  have htype := ((all_checks (by simp [Schemas.integer]) hv).2 _ List.mem_cons_self).type
  cases w with
  | int n => exact ⟨n, rfl⟩
  | _ => cases htype

/-- What `Schemas.room_event` accepts has the attributes of an event and a readable `unsigned`. -/
theorem roomEvent_fields {event : Json} (h : Accepts Schemas.roomEvent event) :
    HasFields event ∧ unsignedReads event = true := by
  obtain ⟨kvs, rfl, hfield, -, hall⟩ := accepts_object (by simp) (by simp) h
  have hreq := hall _ List.mem_cons_self
  obtain ⟨eventId, he⟩ := hreq.required "event_id" (by simp)
  obtain ⟨sender, hs⟩ := hreq.required "sender" (by simp)
  obtain ⟨type, ht⟩ := hreq.required "type" (by simp)
  obtain ⟨timestamp, hts⟩ := hreq.required "origin_server_ts" (by simp)
  obtain ⟨type, rfl⟩ := (accepts_field hfield 2 rfl ht).string
  obtain ⟨n, rfl⟩ := Accepts.timestamp (accepts_field hfield 3 rfl hts)
  refine ⟨⟨rfl, ⟨type, ht⟩, by simp [Json.get?, he], by simp [Json.get?, hs], ⟨n, hts⟩⟩, ?_⟩
  simp only [unsignedReads, Json.get?]
  cases hu : dictGet? kvs (py "unsigned") with
  | none => rfl
  | some unsigned =>
    obtain ⟨ukvs, rfl, -⟩ := accepts_object (by simp) (List.forall_mem_nil _)
      (accepts_field hfield 4 rfl hu)
    rfl

/-- An event without a `redacted_because` in its `unsigned` section. -/
def notRedacted (event : Json) : Bool :=
  match isRedacted event with
  | .ok redacted => !redacted
  | .error _ => false

/-- An event whose `unsigned` is read is asked whether it was redacted. -/
theorem isRedacted_of_unsignedReads {event : Json} (hu : unsignedReads event = true) :
    Returns (isRedacted event) := by
  unfold unsignedReads at hu
  unfold isRedacted
  cases h : event.get? (py "unsigned") with
  | none => simp
  | some unsigned =>
    rw [h] at hu
    cases unsigned with
    | obj ukvs => exact ⟨_, rfl⟩
    | _ => cases hu

/-- What an object needs for `Event.parse_event` -/
structure EventReads (event : Json) : Prop where
  timestamp : TimestampCompares event
  cls : (Schemas.roomEvent event).isSome → notRedacted event = true →
    ∀ type, event.get? (py "type") = some (.str type) → RoomEventReads type event

/-- An event of the common schema has the fields that every class reads. -/
theorem roomEvent_compares {event : Json} (hd : event.Distinct)
    (hs : (Schemas.roomEvent event).isSome) : HasFields event ∧ unsignedReads event = true := by
  obtain ⟨w, hw⟩ := Option.isSome_iff_exists.mp hs
  obtain rfl := roomEvent_plain.eq hd hw
  exact roomEvent_fields (accepts_of_eq hw)

/-- `parse_event` returns exactly on the events that `EventReads` names. -/
theorem parseEvent_returns {event : Json} (hobj : event.isObj = true) (hd : event.Distinct) :
    Returns (parseEvent event) ↔ EventReads event := by
  unfold parseEvent
  rw [returns_verify_plain hobj hd]
  -- an accepted event has a timestamp that compares
  have hts : (Schemas.roomEvent event = none → TimestampCompares event) ↔
      TimestampCompares event := by
    refine ⟨fun h => ?_, fun h _ => h⟩
    cases hs : Schemas.roomEvent event with
    | none => exact h hs
    | some w => exact (roomEvent_compares hd (by simp [hs])).1.compares
  rw [hts]
  have hcls : ((Schemas.roomEvent event).isSome → Returns (do
        if ← isRedacted event then redactedFromDict event
        else roomEventFromDict (← getStr event "type") event)) ↔
      ((Schemas.roomEvent event).isSome → notRedacted event = true →
        ∀ type, event.get? (py "type") = some (.str type) → RoomEventReads type event) := by
    refine imp_congr_right fun hs => ?_
    obtain ⟨hf, hu⟩ := roomEvent_compares hd hs
    obtain ⟨type, ht⟩ := hf.type
    obtain ⟨redacted, hr⟩ := isRedacted_of_unsignedReads hu
    rw [returns_bind_ok hr]
    cases redacted with
    | true => simp [notRedacted, hr, redactedFromDict_returns hf hd]
    | false =>
      have hstr : getStr event "type" = .ok type := by
        cases event with
        | obj kvs => exact getStr_obj ht
        | _ => cases hobj
      simp [notRedacted, hr, hstr, ok_bind, ht, roomEventFromDict_returns hf hd hu]
  rw [hcls]
  exact ⟨fun ⟨h₁, h₂⟩ => ⟨h₁, h₂⟩, fun ⟨h₁, h₂⟩ => ⟨h₁, h₂⟩⟩

end Nio.Events
