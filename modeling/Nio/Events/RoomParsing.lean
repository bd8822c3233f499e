import Nio.Events.InviteEvents
import Nio.Py.SchemaFields

/-!
# What the classes of room events read

A class reads fields that its schema has checked, so that it returns. The exceptions are the
fallback for an event that fails its schema, which compares an unchecked timestamp with zero, and
the few fields that a schema leaves open.

* `returns_verify` — a class returns on what its schema accepts, its fallback on a timestamp
* `stateFromDict_returns` — the classes of state events
-/

namespace Nio.Events

open Nio.Py
open Nio.Py.Schema
open Nio.Schemas (stateContent choice callEvent encryptedFile)

/-! ## Calls that return -/

def Returns {α : Type} (x : Except PyError α) : Prop := ∃ a, x = .ok a

section

variable {α β : Type}

@[simp] theorem returns_ok (a : α) : Returns (.ok a : Except PyError α) := ⟨a, rfl⟩

@[simp] theorem returns_pure (a : α) : Returns (pure a : Except PyError α) := ⟨a, rfl⟩

@[simp] theorem not_returns_error (e : PyError) : ¬ Returns (.error e : Except PyError α) := by
  rintro ⟨a, h⟩
  cases h

/-- A bind returns when both of its parts do. -/
theorem returns_bind {x : Except PyError α} {f : α → Except PyError β} :
    Returns (x >>= f) ↔ ∃ a, x = .ok a ∧ Returns (f a) := by
  unfold Returns
  simp only [bind_eq_ok]
  exact ⟨fun ⟨b, a, ha, hb⟩ => ⟨a, ha, b, hb⟩, fun ⟨a, ha, b, hb⟩ => ⟨b, a, ha, hb⟩⟩

theorem returns_bind_ok {x : Except PyError α} {f : α → Except PyError β} {a : α}
    (h : x = .ok a) : Returns (x >>= f) ↔ Returns (f a) := by
  rw [h, ok_bind]

theorem returns_map {x : Except PyError α} {f : α → β} : Returns (x.map f) ↔ Returns x := by
  cases x with
  | ok a => simp [Except.map]
  | error e => simp [Except.map]

/-- A continuation that cannot fail. -/
theorem returns_bind_pure {x : Except PyError α} {f : α → β} :
    Returns (x >>= fun a => pure (f a)) ↔ Returns x := by
  rw [returns_bind]
  exact ⟨fun ⟨a, ha, _⟩ => ⟨a, ha⟩, fun ⟨a, ha⟩ => ⟨a, ha, returns_pure _⟩⟩

end

/-! ## Fields -/

theorem getItem_obj {kvs : List (Str × Json)} {key : String} {x : Json}
    (h : dictGet? kvs (py key) = some x) : getItem (.obj kvs) key = .ok x := by
  simp only [getItem, h]

theorem getItem_of {v x : Json} {key : String} (h : v.get? (py key) = some x) :
    getItem v key = .ok x := by
  cases v with
  | obj kvs => exact getItem_obj h
  | _ => cases h

/-- A subscript returns exactly where the key is. -/
theorem getItem_returns {v : Json} {key : String} :
    Returns (getItem v key) ↔ (v.get? (py key)).isSome := by
  cases v with
  | obj kvs =>
    simp only [getItem, Json.get?]
    cases dictGet? kvs (py key) with
    | none => simp
    | some x => simp
  | _ => simp [getItem, Json.get?]

theorem getDefault_obj {kvs : List (Str × Json)} {key : String} {x : Json}
    (h : dictGet? kvs (py key) = some x) (d : Json) : getDefault (.obj kvs) key d = .ok x := by
  simp only [getDefault, h, Option.getD_some]

theorem getStr_obj {kvs : List (Str × Json)} {key : String} {s : Str}
    (h : dictGet? kvs (py key) = some (.str s)) : getStr (.obj kvs) key = .ok s := by
  unfold getStr
  rw [getItem_obj h]
  rfl

/-! ## The fallback -/

/-- The timestamp of the event, if it has one, compares with zero. -/
def TimestampCompares (event : Json) : Prop :=
  ∀ timestamp, event.get? (py "origin_server_ts") = some timestamp →
    comparesWithZero timestamp = true

/-- The bad form of an object is built exactly where its timestamp compares. -/
theorem badOrUnknown_returns {event : Json} (hobj : event.isObj = true) :
    Returns (badOrUnknown event) ↔ TimestampCompares event := by
  cases event with
  | obj kvs =>
    unfold badOrUnknown badEventFromDict TimestampCompares
    simp only [getItem, Json.get?]
    cases hts : dictGet? kvs (py "origin_server_ts") with
    | none => simp [bind, Except.bind]
    | some timestamp =>
      simp only [ok_bind, Option.some.injEq, forall_eq']
      by_cases hc : comparesWithZero timestamp = true
      · -- past the timestamp only keys can be missing
        cases dictGet? kvs (py "event_id") <;> cases dictGet? kvs (py "sender") <;>
          cases dictGet? kvs (py "type") <;> simp [hc, bind, Except.bind, pure, Except.pure]
      · simp [hc]
  | _ => cases hobj

/-- A verified event returns if its bad form and its parser do where they are asked. -/
theorem returns_verify {α : Type} {schema : Schema} {bad : BadEventType → α}
    {parse : Json → Except PyError α} {event : Json} (hobj : event.isObj = true) :
    Returns (verify schema bad parse event) ↔
      (schema event = none → TimestampCompares event) ∧
      ∀ w, schema event = some w → Returns (parse w) := by
  unfold verify
  cases schema event with
  | none => simp [returns_map, badOrUnknown_returns hobj]
  | some w => simp

/-- A schema without defaults hands the event on as it is. -/
theorem returns_verify_plain {α : Type} {schema : Schema} [hplain : Plain schema]
    {bad : BadEventType → α} {parse : Json → Except PyError α} {event : Json}
    (hobj : event.isObj = true) (hd : event.Distinct) :
    Returns (verify schema bad parse event) ↔
      (schema event = none → TimestampCompares event) ∧
      ((schema event).isSome → Returns (parse event)) := by
  rw [returns_verify hobj]
  refine and_congr_right fun _ => ⟨fun h hs => ?_, fun h w hw => ?_⟩
  · obtain ⟨w, hw⟩ := Option.isSome_iff_exists.mp hs
    obtain rfl := hplain.eq hd hw
    exact h _ hw
  · obtain rfl := hplain.eq hd hw
    exact h (by rw [hw]; rfl)

/-! ## The attributes of every event -/

/-- What `__post_init__` reads, a timestamp that compares, and a type. -/
structure HasFields (event : Json) : Prop where
  isObj : event.isObj = true
  type : ∃ s, event.get? (py "type") = some (.str s)
  eventId : (event.get? (py "event_id")).isSome
  sender : (event.get? (py "sender")).isSome
  timestamp : ∃ n, event.get? (py "origin_server_ts") = some (.int n)

theorem HasFields.compares {event : Json} (h : HasFields event) : TimestampCompares event := by
  obtain ⟨n, hn⟩ := h.timestamp
  intro timestamp ht
  obtain rfl := Option.some.inj (hn.symm.trans ht)
  rfl

/-- The fields are read from the instance that a schema returns, which keeps every key. -/
theorem eventFields_returns {ps : List Property} {ss : List Schema} (hss : ∀ s ∈ ss, Checking s)
    {event w : Json} (h : HasFields event)
    (hw : all (type .object :: properties ps :: ss) event = some w) : Returns (eventFields w) := by
  have hts : (event.get? (py "origin_server_ts")).isSome := by
    obtain ⟨n, hn⟩ := h.timestamp
    rw [hn]
    rfl
  obtain ⟨eventId, he⟩ := getItem_returns.mpr (Schema.keeps_object hss hw h.eventId)
  obtain ⟨sender, hs⟩ := getItem_returns.mpr (Schema.keeps_object hss hw h.sender)
  obtain ⟨timestamp, ht⟩ := getItem_returns.mpr (Schema.keeps_object hss hw hts)
  unfold eventFields
  simp only [he, hs, ht, ok_bind, returns_pure]

/-- An event with the common fields is read. -/
theorem HasFields.returns {event : Json} (h : HasFields event) : Returns (eventFields event) := by
  obtain ⟨eventId, he⟩ := getItem_returns.mpr h.eventId
  obtain ⟨sender, hs⟩ := getItem_returns.mpr h.sender
  obtain ⟨n, hn⟩ := h.timestamp
  unfold eventFields
  simp only [he, hs, getItem_of hn, ok_bind, returns_pure]

theorem of_returns {event : Json} (h : Returns (eventFields event)) (cls : RoomEventClass) :
    Returns (RoomEvent.of event cls) := by
  unfold RoomEvent.of
  exact returns_bind_pure.mpr h

/-- A class returns if it can read what its schema has accepted. -/
theorem returns_class {ps : List Property} {ss : List Schema} (hps : (ps.map (·.name)).Nodup)
    (hss : ∀ s ∈ ss, Checking s) {parse : Json → Except PyError RoomEventClass} {event : Json}
    (hf : HasFields event)
    (h : ∀ kvs, (∀ p ∈ ps, ∀ x, dictGet? kvs (py p.name) = some x → Accepts p.schema x) →
      (∀ p ∈ ps, p.default.isSome → (dictGet? kvs (py p.name)).isSome) →
      (∀ s ∈ ss, Accepts s (.obj kvs)) → Returns (parse (.obj kvs))) :
    Returns (verifyRoomEvent (all (type .object :: properties ps :: ss)) parse event) := by
  unfold verifyRoomEvent
  refine (returns_verify hf.isObj).mpr ⟨fun _ => hf.compares, fun w hw => ?_⟩
  obtain ⟨kvs, rfl, hfield, hdefault, hall⟩ := accepts_object hps hss (accepts_of_eq hw)
  obtain ⟨cls, hcls⟩ := h kvs hfield hdefault hall
  rw [hcls, ok_bind]
  exact of_returns (eventFields_returns hss hf hw) cls

/-! ## Schemas of single fields -/

instance plain_string : Plain Schemas.string := inferInstanceAs (Plain (type .string))

instance plain_integer : Plain Schemas.integer := inferInstanceAs (Plain (type .integer))

instance plain_userId : Plain Schemas.userId :=
  inferInstanceAs (Plain (all [type .string, format Schemas.checkUserId]))

/-! ## State events -/

/-- The content of a state event and its state key are there. -/
theorem returns_state {content : Schema} {parse : Json → Except PyError RoomEventClass}
    {event : Json} (hf : HasFields event)
    (h : ∀ kvs c k, dictGet? kvs (py "content") = some c → Accepts content c →
      dictGet? kvs (py "state_key") = some k → Returns (parse (.obj kvs))) :
    Returns (verifyRoomEvent (stateContent content) parse event) := by
  refine returns_class (by simp) (by simp) hf fun kvs hfield _ hall => ?_
  have hreq := hall _ List.mem_cons_self
  obtain ⟨c, hc⟩ := hreq.required "content" (by simp)
  obtain ⟨k, hk⟩ := hreq.required "state_key" (by simp)
  exact h kvs c k hc (accepts_field hfield 3 rfl hc) hk

/-- State with a required content field is parsed, -/
theorem requiredFromDict_returns {ps : List Property} {names : List String} {field : String}
    {cls : Json → RoomEventClass} {event : Json} (hf : HasFields event)
    (hps : (ps.map (·.name)).Nodup) (hn : field ∈ names) :
    Returns (requiredFromDict
      (stateContent (all [type .object, properties ps, required names])) field cls event) := by
  refine returns_state hf fun kvs c k hc hcontent _ => ?_
  obtain ⟨ckvs, rfl, -, -, hall⟩ := accepts_object hps (by simp) hcontent
  obtain ⟨x, hx⟩ := (hall _ List.mem_cons_self).required _ hn
  rw [returns_bind_ok (getItem_obj hc), returns_bind_ok (getItem_obj hx)]
  exact returns_pure _

/-- with an optional one -/
theorem optionalFromDict_returns {ps : List Property} {names : List String} {field : String}
    {cls : Option Json → RoomEventClass} {event : Json} (hf : HasFields event)
    (hps : (ps.map (·.name)).Nodup) :
    Returns (optionalFromDict
      (stateContent (all [type .object, properties ps, required names])) field cls event) := by
  refine returns_state hf fun kvs c k hc hcontent _ => ?_
  obtain ⟨ckvs, rfl, -⟩ := accepts_object hps (by simp) hcontent
  rw [returns_bind_ok (getItem_obj hc)]
  exact returns_pure _

/-- and with a state key that names a room. -/
theorem spaceFromDict_returns {ps : List Property} {flag : String}
    {cls : Json → Json → RoomEventClass} {event : Json} (hf : HasFields event)
    (hps : (ps.map (·.name)).Nodup) :
    Returns (spaceFromDict (stateContent (all [type .object, properties ps])) flag cls event) := by
  refine returns_state hf fun kvs c k hc hcontent hk => ?_
  obtain ⟨ckvs, rfl, -⟩ := accepts_object hps (by simp) hcontent
  rw [returns_bind_ok (getItem_obj hc), returns_bind_ok (getItem_obj hk)]
  exact returns_pure _

theorem roomCreateFromDict_returns {event : Json} (hf : HasFields event) :
    Returns (roomCreateFromDict event) := by
  refine returns_state hf fun kvs c k hc hcontent _ => ?_
  obtain ⟨ckvs, rfl, -, hdefault, -⟩ := accepts_object (by simp) (by simp) hcontent
  simp only [List.forall_mem_cons, Option.isSome_some, forall_const] at hdefault
  obtain ⟨⟨federate, hfed⟩, ⟨version, hver⟩, -⟩ :=
    hdefault.imp Option.isSome_iff_exists.mp (And.imp_left Option.isSome_iff_exists.mp)
  rw [returns_bind_ok (getItem_obj hc), returns_bind_ok (getItem_obj hfed),
    returns_bind_ok (getItem_obj hver)]
  exact returns_pure _

theorem powerLevelsFromDict_returns {event : Json} (hf : HasFields event) :
    Returns (powerLevelsFromDict event) := by
  refine returns_state hf fun kvs c k hc hcontent _ => ?_
  obtain ⟨ckvs, rfl, -, hdefault, -⟩ :=
    accepts_object (by simp) (by simp) hcontent
  -- every level has a default
  have hget : ∀ name, (name = "ban" ∨ name = "kick" ∨ name = "invite" ∨ name = "redact" ∨
      name = "users_default" ∨ name = "events_default" ∨ name = "state_default" ∨
      name = "notifications") → ∃ x, getItem (.obj ckvs) name = .ok x := by
    intro name hname
    refine getItem_returns.mpr ?_
    simp only [List.forall_mem_cons, Option.isSome_some, forall_const] at hdefault
    rcases hname with rfl | rfl | rfl | rfl | rfl | rfl | rfl | rfl <;> simp [Json.get?, hdefault]
  obtain ⟨ban, hban⟩ := hget "ban" (by simp)
  obtain ⟨invite, hinvite⟩ := hget "invite" (by simp)
  obtain ⟨kick, hkick⟩ := hget "kick" (by simp)
  obtain ⟨redact, hredact⟩ := hget "redact" (by simp)
  obtain ⟨state, hstate⟩ := hget "state_default" (by simp)
  obtain ⟨events, hevents⟩ := hget "events_default" (by simp)
  obtain ⟨users, husers⟩ := hget "users_default" (by simp)
  obtain ⟨notifications, hnotifications⟩ := hget "notifications" (by simp)
  unfold defaultLevelsFromDict
  simp only [getItem_obj hc, hban, hinvite, hkick, hredact, hstate, hevents, husers,
    hnotifications, ok_bind]
  exact returns_pure _

theorem roomEncryptionFromDict_returns {event : Json} (hf : HasFields event) :
    Returns (roomEncryptionFromDict event) :=
  returns_state hf fun _ _ _ _ _ _ => returns_pure _

theorem roomUpgradeFromDict_returns {event : Json} (hf : HasFields event) :
    Returns (roomUpgradeFromDict event) := by
  refine returns_class (by simp) (by simp) hf fun kvs hfield _ hall => ?_
  obtain ⟨c, hc⟩ := (hall _ List.mem_cons_self).required "content" (by simp)
  obtain ⟨ckvs, rfl, -⟩ := accepts_object (by simp) (by simp)
    (accepts_field hfield 2 rfl hc)
  rw [returns_bind_ok (getDefault_obj hc _)]
  exact returns_pure _

/-! ## Classes whose schema leaves a field open -/

/-- A class behind a schema without defaults returns exactly if it reads what is accepted. -/
theorem returns_class_plain {schema : Schema} [hplain : Plain schema]
    {parse : Json → Except PyError RoomEventClass} {event : Json} (hf : HasFields event)
    (hd : event.Distinct) :
    Returns (verifyRoomEvent schema parse event) ↔
      ((schema event).isSome → Returns (parse event)) := by
  unfold verifyRoomEvent
  rw [returns_verify_plain hf.isObj hd, and_iff_right fun _ => hf.compares]
  refine imp_congr_right fun _ => ⟨fun h => ?_, fun ⟨cls, hcls⟩ => ?_⟩
  · obtain ⟨cls, hcls, -⟩ := returns_bind.mp h
    exact ⟨cls, hcls⟩
  · rw [returns_bind_ok hcls]
    exact of_returns hf.returns cls

/-- The previous content is an object, or nothing. -/
def prevContentReads (event : Json) : Bool :=
  match event.get? (py "unsigned") with
  | none => true
  | some (.obj unsigned) =>
    match dictGet? unsigned (py "prev_content") with
    | none => true
    | some prevContent => !truthy prevContent || prevContent.isObj
  | some _ => false

/-- The `unsigned` section is an object, if it is there. -/
def unsignedReads (event : Json) : Bool :=
  match event.get? (py "unsigned") with
  | none => true
  | some unsigned => unsigned.isObj

/-- The previous membership is read from an object or from nothing. -/
theorem prevMembership_returns {v : Option Json} :
    Returns (prevMembership v) ↔ ∀ prev, v = some prev → (!truthy prev || prev.isObj) = true := by
  cases v with
  | none => simp [prevMembership]
  | some prev =>
    simp only [prevMembership]
    cases ht : truthy prev with
    | false => simp [ht]
    | true => cases prev <;> simp [ht, getOptional, Json.isObj]

/-- What `unsigned.get("prev_content", None)` and the membership in it need. -/
theorem prevContent_returns {kvs : List (Str × Json)} :
    Returns (do
      let unsigned ← getDefault (.obj kvs) "unsigned" (.obj [])
      prevMembership (← getOptional unsigned "prev_content")) ↔
      prevContentReads (.obj kvs) = true := by
  unfold prevContentReads
  simp only [getDefault, ok_bind, Json.get?]
  cases hu : dictGet? kvs (py "unsigned") with
  | none => simp [getOptional, ok_bind, dictGet?, prevMembership]
  | some unsigned =>
    simp only [Option.getD_some]
    cases unsigned with
    | obj ukvs =>
      simp only [getOptional, ok_bind, prevMembership_returns]
      cases dictGet? ukvs (py "prev_content") <;> simp
    | _ => simp [getOptional, bind, Except.bind]

instance roomMembership_plain : Plain Schemas.roomMembership := by
  unfold Schemas.roomMembership
  infer_instance

/-- The content and the state key of a membership event are there. -/
theorem roomMembership_fields {kvs : List (Str × Json)}
    (h : Accepts Schemas.roomMembership (.obj kvs)) :
    ∃ content membership sender stateKey, dictGet? kvs (py "content") = some (.obj content) ∧
      dictGet? content (py "membership") = some membership ∧
      dictGet? kvs (py "sender") = some sender ∧ dictGet? kvs (py "state_key") = some stateKey := by
  obtain ⟨_, hkvs, hfield, -, hall⟩ := accepts_object (by simp) (by simp) h
  obtain rfl := Json.obj.inj hkvs
  have hreq := hall _ List.mem_cons_self
  obtain ⟨c, hc⟩ := hreq.required "content" (by simp)
  obtain ⟨sender, hs⟩ := hreq.required "sender" (by simp)
  obtain ⟨k, hk⟩ := hreq.required "state_key" (by simp)
  obtain ⟨ckvs, rfl, -, -, hcall⟩ := accepts_object (by simp) (by simp)
    (accepts_field hfield 4 rfl hc)
  obtain ⟨membership, hm⟩ := (hcall _ List.mem_cons_self).required "membership" (by simp)
  exact ⟨ckvs, membership, sender, k, hc, hm, hs, hk⟩

/-- A membership returns exactly where its previous content is read. -/
theorem roomMemberFromDict_returns {event : Json} (hf : HasFields event) (hd : event.Distinct) :
    Returns (roomMemberFromDict event) ↔
      ((Schemas.roomMembership event).isSome → prevContentReads event = true) := by
  refine (returns_class_plain hf hd).trans (imp_congr_right fun hs => ?_)
  obtain ⟨w, hw⟩ := Option.isSome_iff_exists.mp hs
  obtain rfl := roomMembership_plain.eq hd hw
  cases w with
  | obj kvs =>
    obtain ⟨c, membership, -, k, hc, hm, -, hk⟩ := roomMembership_fields (accepts_of_eq hw)
    rw [← prevContent_returns]
    simp only [getDefault, hc, Option.getD_some, ok_bind, returns_bind, getItem_obj hm,
      getItem_obj hk, returns_pure, and_true]
    simp only [Returns]
  | _ => cases hf.isObj

instance sticker_plain : Plain Schemas.sticker := by
  unfold Schemas.sticker
  infer_instance

/-- The schema of a sticker does not require a content. -/
theorem stickerFromDict_returns {event : Json} (hf : HasFields event) (hd : event.Distinct) :
    Returns (stickerFromDict event) ↔
      ((Schemas.sticker event).isSome → (event.get? (py "content")).isSome) := by
  refine (returns_class_plain hf hd).trans (imp_congr_right fun hs => ?_)
  obtain ⟨w, hw⟩ := Option.isSome_iff_exists.mp hs
  obtain rfl := sticker_plain.eq hd hw
  obtain ⟨kvs, rfl, hfield, -, -⟩ := accepts_object (by simp) (by simp) (accepts_of_eq hw)
  simp only [getDefault, ok_bind, Json.get?]
  cases hc : dictGet? kvs (py "content") with
  | none => simp [getItem, dictGet?, bind, Except.bind]
  | some c =>
    obtain ⟨ckvs, rfl, -, -, hall⟩ := accepts_object (by simp) (by simp)
      (accepts_field hfield 1 rfl hc)
    obtain ⟨body, hb⟩ := (hall _ List.mem_cons_self).required "body" (by simp)
    obtain ⟨url, hu⟩ := (hall _ List.mem_cons_self).required "url" (by simp)
    simp [getItem_obj hb, getItem_obj hu, ok_bind]

end Nio.Events
