import Nio.Crypto.Decryption
import Nio.Durable.Sync
import Nio.SlidingResponses

/-!
# The to-device section of a response

`_iter_decrypted_to_device` goes through the to-device events of a response. What it yields is
frozen and encoded before the input counts as interpreted, so an event that stops it stops the
session at every reopen.

* `parseToDevice_eq_none` — the objects that the parser leaves out
* `deliverable_of_clean` — an event of clean input can be delivered
* `section_consumed_iff` — when a section is consumed
-/

namespace Nio.Durable

open Nio.Py
open Nio.Lib
open Nio.Events
open Nio.Crypto (DecryptedEvent)

variable {E : EventTypes}

/-! ## Sections -/

/-- An event with the object that it was parsed from, which is its source -/
structure ParsedToDevice where
  source : Json
  event : ToDeviceEvent

/-- `ToDeviceEvent.parse_event`, with the source of the event -/
def parseToDevice (object : Json) : Except PyError (Option ParsedToDevice) := do
  return (← parseToDeviceEvent object).map fun event => ⟨object, event⟩

/-- `to_device_events` of a Classic response: what the parser leaves out is `None` in the list. -/
def classicSection (parsers : EventParsers E) (body : Json) :
    Except PyError (Option (List (Option ParsedToDevice))) := do
  match ← SyncResponse.fromDict parsers body, Schemas.sync body with
  | some _, some parsed =>
    let toDevice ← getDefault parsed "to_device" (.obj [])
    let objects ← iterate (← getDefault toDevice "events" (.arr []))
    return some (← objects.mapM parseToDevice)
  | _, _ => return none

/-- `to_device_events` of a Sliding response: what the parser leaves out is not in the list. -/
def slidingSection (parsers : EventParsers E) (body : Json) :
    Except PyError (Option (List (Option ParsedToDevice))) := do
  match ← SlidingSyncResponse.fromDict parsers body with
  | some response =>
    let copy ← (copyJson response.extensions).mapError fun _ => .value
    let objects ← SlidingSyncResponse.toDeviceObjects copy
    return some ((← objects.mapM parseToDevice).filter Option.isSome)
  | none => return none

/-- The section of a response that `from_dict` accepts -/
def acceptedSection (parsers : EventParsers E) (sliding : Bool) (body : Json) :
    Except PyError (Option (List (Option ParsedToDevice))) :=
  if sliding then slidingSection parsers body else classicSection parsers body

/-! ## The iterator -/

/-- An event that no session has decrypted -/
def undecrypted (cls : EventClass) (source : Json) : Event :=
  ⟨cls, source, .null, false, none, none, none, none⟩

/-- A `BadEvent` or an `UnknownBadEvent`, which have an event id -/
def badEvent : BadEventType → Event
  | .badEvent source | .unknownBadEvent source =>
    { undecrypted .bad source with eventId := getSource source "event_id" }

namespace ParsedToDevice

def isKeyRequest (p : ParsedToDevice) : Bool :=
  match p.event with
  | .roomKeyRequest _ | .roomKeyRequestCancellation _ => true
  | _ => false

def isOlm (p : ParsedToDevice) : Bool :=
  match p.event with
  | .olm _ => true
  | _ => false

def toEvent (p : ParsedToDevice) : Event :=
  match p.event with
  | .bad _ => { undecrypted .bad p.source with eventId := getSource p.source "event_id" }
  | .olm e => { undecrypted .other p.source with senderKey := some e.senderKey }
  | .keyVerificationCancel e =>
    let content := (p.source.get? (py "content")).getD .null
    undecrypted (.keyVerificationCancel (.str e.sender) (.str e.transactionId)
      (.str ((getSource content "code").asStr?.getD []))
      (.str ((getSource content "reason").asStr?.getD []))) p.source
  | _ => undecrypted .other p.source

end ParsedToDevice

/-- The event that `handle_to_device_event` returns, as the codec sees it -/
def ofDecrypted : DecryptedEvent → Event
  | .bad event => badEvent event
  | .roomKey e => { undecrypted .roomKey e.source with
      senderKey := some e.senderKey, sessionId := some e.sessionId }
  | .forwardedRoomKey e => { undecrypted .forwardedRoomKey e.source with
      senderKey := some e.senderKey, sessionId := some e.sessionId }
  | .dummy e => { undecrypted .dummy e.source with senderKey := some e.senderKey }
  | .authenticated source _ _ identity =>
    { undecrypted .authenticatedToDevice source with authenticatedSender := some identity }
  | .unknown source _ _ => undecrypted .other source

/-- `handle_to_device_event` only returns an event for an encrypted one. -/
def handled (answer : Option DecryptedEvent) (p : ParsedToDevice) : Option DecryptedEvent :=
  if p.isOlm then answer else none

/-- The event that is yielded in the place of an event of the section -/
def ParsedToDevice.delivered (answer : Option DecryptedEvent) (p : ParsedToDevice) : Event :=
  ((handled answer p).map ofDecrypted).getD p.toEvent

/-- The source of an item: the source of an encrypted event is copied before it is decrypted. -/
def ParsedToDevice.itemSource (p : ParsedToDevice) : Except PyError Json :=
  if p.isOlm then (copyJson p.source).mapError fun _ => .value else .ok p.source

def ParsedToDevice.item (answer : Option DecryptedEvent) (p : ParsedToDevice) (source : Json) :
    Item :=
  { Item.ofGlobal .toDevice (p.delivered answer) with source := some source }

/-- One round of `_iter_decrypted_to_device` -/
def iterOne (answer : Option DecryptedEvent) (p : Option ParsedToDevice) :
    Except PyError (Option Item) :=
  match p with
  -- `None` has no source
  | none => .error .attribute
  | some p => do
    let source ← p.itemSource
    -- a key request is answered or cancelled, and not shown
    if p.isKeyRequest then return none
    else return some (p.item answer source)

/-- `_iter_to_device`; `answers` is what `handle_to_device_event` returns for each event. -/
def iterDecryptedToDevice (answers : Nat → Option DecryptedEvent)
    (toDevice : List (Option ParsedToDevice)) : Except PyError (List Item) := do
  return (← toDevice.zipIdx.mapM fun p => iterOne (answers p.2) p.1).filterMap id

/-! ## The codec -/

def Event.copied (event : Event) : Except ValueError Event := do
  return { event with source := ← copyJson event.source }

/-- The copies that `freeze_event` makes -/
def Item.copied (item : Item) : Except ValueError Item := do
  match item.event, item.source with
  | none, none => return item
  | none, some source => return { item with source := some (← copyJson source) }
  | some event, none => return { item with event := some (← event.copied) }
  | some event, some source =>
    let event ← event.copied
    return { item with event := some event, source := some (← copyJson source) }

/-- The items are frozen one after the other, and their records encoded. -/
def encodeItems (items : List Item) : Except ValueError (List Nat) := do
  let records ← items.mapM fun item => do return freezeEvent (← item.copied)
  (← encodeRecords records).encode

/-! ## The statement -/

/-- The events that a section is to yield, in order -/
def expected (answers : Nat → Option DecryptedEvent) (toDevice : List (Option ParsedToDevice)) :
    List Event :=
  toDevice.zipIdx.filterMap fun p =>
    (p.1.filter fun q => !q.isKeyRequest).map fun q => q.delivered (answers p.2)

/-- The whole section is yielded, frozen and encoded. -/
def SectionConsumed (answers : Nat → Option DecryptedEvent) (toDevice : List (Option ParsedToDevice)) :
    Prop :=
  ∃ items bytes, iterDecryptedToDevice answers toDevice = .ok items ∧
    items.filterMap Item.event = expected answers toDevice ∧ encodeItems items = .ok bytes

/-- What a record is to keep of an item can be written: no infinity, no NaN and no surrogate is in the
source, in the clear event and in the evidence. -/
def Storable (item : Item) : Prop :=
  ∃ copy, item.copied = .ok copy ∧ (freezeEvent copy).source.Clean ∧
    (∀ clear ∈ (freezeEvent copy).clear, clear.Clean) ∧
    ∀ evidence ∈ (freezeEvent copy).crypto, evidence.asdict.Clean

/-- The object of the event and what is delivered for it hold no infinite number, no NaN and no
surrogate, nor do the strings that the event names its sender with. -/
structure Presentable (answer : Option DecryptedEvent) (p : ParsedToDevice) : Prop where
  object : p.source.WF ∧ p.source.Clean
  event : (p.delivered answer).source.WF ∧ (p.delivered answer).source.Clean
  named : (p.delivered answer).source ≠ .obj []
  senderKey : ∀ k ∈ (p.delivered answer).senderKey, k.Encodable
  sessionId : ∀ k ∈ (p.delivered answer).sessionId, k.Encodable
  device : ∀ d ∈ (p.delivered answer).authenticatedSender, d.asdict.Clean

/-- The source of the event can be copied, and the event is not shown or can be stored. -/
def Deliverable (answer : Option DecryptedEvent) (p : ParsedToDevice) : Prop :=
  ∃ source, p.itemSource = .ok source ∧
    (p.isKeyRequest = false → Storable (p.item answer source))

/-! ## What is yielded -/

/-- A round only raises for an event that was left out, and for a source that cannot be copied. -/
theorem iterOne_eq_ok {answer : Option DecryptedEvent} {p : Option ParsedToDevice}
    {item : Option Item} :
    iterOne answer p = .ok item ↔ ∃ q source, p = some q ∧ q.itemSource = .ok source ∧
      item = if q.isKeyRequest then none else some (q.item answer source) := by
  cases p with
  | none => exact ⟨fun h => (nomatch h), fun ⟨_, _, h, _⟩ => (nomatch h)⟩
  | some q =>
    have hiter : iterOne answer (some q) = (do
        let source ← q.itemSource
        if q.isKeyRequest then return none else return some (q.item answer source)) := rfl
    rw [hiter, bind_eq_ok]
    constructor
    · rintro ⟨source, hsource, h⟩
      refine ⟨q, source, rfl, hsource, ?_⟩
      split at h
      · next hq =>
        rw [if_pos hq]
        exact (Except.ok.inj h).symm
      · next hq =>
        rw [if_neg hq]
        exact (Except.ok.inj h).symm
    · rintro ⟨_, source, h, hsource, rfl⟩
      obtain rfl := Option.some.inj h
      refine ⟨source, hsource, ?_⟩
      split
      · rfl
      · rfl

theorem event_of_iterOne {answer : Option DecryptedEvent} {p : Option ParsedToDevice}
    {item : Option Item} (h : iterOne answer p = .ok item) :
    item.bind Item.event = (p.filter fun q => !q.isKeyRequest).map fun q => q.delivered answer := by
  obtain ⟨q, source, rfl, -, rfl⟩ := iterOne_eq_ok.mp h
  cases hq : q.isKeyRequest with
  | true => simp [Option.filter_some, hq]
  | false => simp [Option.filter_some, hq, ParsedToDevice.item, Item.ofGlobal]

theorem yielded_in_order {answers : Nat → Option DecryptedEvent}
    {toDevice : List (Option ParsedToDevice)} {items : List Item}
    (h : iterDecryptedToDevice answers toDevice = .ok items) :
    items.filterMap Item.event = expected answers toDevice := by
  obtain ⟨rounds, hrounds, h⟩ := bind_eq_ok.mp h
  obtain rfl := Except.ok.inj h
  rw [List.filterMap_filterMap]
  exact filterMap_of_forall₂ (mapM_eq_ok.mp hrounds) fun p item hp => event_of_iterOne hp

/-! ## What is stored -/

/-- The rest of the record of a to-device event -/
structure FromToDevice (r : SyncRecord) : Prop where
  roomId : r.roomId = none
  provenance : r.provenance = none
  membershipEpoch : r.membershipEpoch = none
  membership : r.membership = none
  route : ∃ s, r.route = some (py s)
  codec : r.codec = none ∨ ∃ s, r.codec = some (py s)

theorem fromToDevice_freezeEvent {item : Item} {event : Event} (he : item.event = some event)
    (hroute : item.route = some .toDevice) (hroom : item.roomId = none) :
    FromToDevice (freezeEvent item) := by
  unfold freezeEvent
  rw [he]
  refine ⟨hroom, rfl, rfl, rfl, ⟨"to_device", ?_⟩, codec_payload event⟩
  show item.route.map Route.value = _
  rw [hroute]
  rfl

theorem clean_null : Json.null.Clean := rfl

/-- A test of all values of a record of a to-device event -/
theorem all_carrier_iff {p : Json → Bool} {r : SyncRecord} (h : FromToDevice r)
    (hpy : ∀ s, (Json.str (py s)).all p = true) (hnull : Json.null.all p = true)
    (hkeys : p r.carrier = true) :
    r.carrier.all p = true ↔ r.source.all p = true ∧ (∀ clear ∈ r.clear, clear.all p = true) ∧
      ∀ evidence ∈ r.crypto, evidence.asdict.all p = true := by
  obtain ⟨s, hs⟩ := h.route
  have hkind : (Json.str r.kind.value).all p = true := by
    cases r.kind <;> exact hpy _
  have hcodec : (optional Json.str r.codec).all p = true := by
    rcases h.codec with hc | ⟨c, hc⟩
    · rw [hc]
      exact hnull
    · rw [hc]
      exact hpy c
  have hroute : (optional Json.str r.route).all p = true := by
    rw [hs]
    exact hpy s
  have hopt : ∀ {α : Type} (f : α → Json) (x : Option α),
      (optional f x).all p = true ↔ ∀ a ∈ x, (f a).all p = true := by
    intro α f x
    cases x with
    | none => simp [optional, hnull]
    | some a => simp [optional]
  have hclear : (optional id r.clear).all p = true ↔ ∀ clear ∈ r.clear, clear.all p = true :=
    hopt id r.clear
  have hcrypto := hopt CryptoEvidence.asdict r.crypto
  have hnone : ∀ {α : Type} (f : α → Json), (optional f none).all p = true := fun _ => hnull
  have hobj : ∀ kvs, (Json.obj kvs).all p = (p (.obj kvs) && Json.allPairs p kvs) := fun _ => by
    rw [Json.all]
  unfold SyncRecord.carrier at hkeys ⊢
  rw [h.roomId, h.provenance, h.membershipEpoch, h.membership] at hkeys ⊢
  simp only [hobj, Json.allPairs, Bool.and_eq_true, hkeys, hkind, hroute, hcodec, hclear, hcrypto,
    hnone, true_and, and_true]

theorem clean_carrier_iff {r : SyncRecord} (h : FromToDevice r) :
    r.carrier.Clean ↔ r.source.Clean ∧ (∀ clear ∈ r.clear, clear.Clean) ∧
      ∀ evidence ∈ r.crypto, evidence.asdict.Clean :=
  all_carrier_iff h (fun s => Json.clean_str.mpr (encodable_py s)) rfl
    (by simp [SyncRecord.carrier, Json.nodeClean, encodable_py])

theorem wf_evidence (c : CryptoEvidence) : c.asdict.WF := by
  obtain ⟨verified, senderKey, sessionId, identity⟩ := c
  cases verified <;> cases sessionId <;> cases identity <;> rfl

/-- The records can be encoded exactly when each of them is clean. -/
theorem encodeRecords_isOk {records : List SyncRecord} (hwf : ∀ r ∈ records, r.carrier.WF) :
    (∃ bytes, (encodeRecords records >>= Str.encode) = .ok bytes) ↔
      ∀ r ∈ records, r.carrier.Clean := by
  have hall : ∀ p : Json → Bool, p (.arr (records.map SyncRecord.carrier)) = true →
      ((Json.arr (records.map SyncRecord.carrier)).all p = true ↔
        ∀ r ∈ records, r.carrier.all p = true) := by
    intro p hp
    simp only [Json.all, Bool.and_eq_true, hp, true_and, Json.allItems_iff, List.forall_mem_map]
  have hclean : (Json.arr (records.map SyncRecord.carrier)).Clean ↔ ∀ r ∈ records, r.carrier.Clean :=
    hall Json.nodeClean rfl
  have hwf' : (Json.arr (records.map SyncRecord.carrier)).WF := (hall Json.nodeWF rfl).mpr hwf
  rw [← hclean]
  constructor
  · rintro ⟨bytes, h⟩
    obtain ⟨text, htext, hbytes⟩ := bind_eq_ok.mp h
    exact (encodable_iff_clean ⟨rfl, rfl⟩ htext).mp ((Str.encode_isOk_iff text).mp ⟨bytes, hbytes⟩)
  · intro hc
    obtain ⟨text, htext⟩ := exists_dumps strict hwf' hc
    obtain ⟨bytes, hbytes⟩ :=
      (Str.encode_isOk_iff text).mpr ((encodable_iff_clean ⟨rfl, rfl⟩ htext).mpr hc)
    exact ⟨bytes, bind_eq_ok.mpr ⟨text, htext, hbytes⟩⟩

/-- What is kept of an event is read from a copy, or built of strings. -/
def Event.CopiesWell (event : Event) : Prop :=
  ∀ source : Json, source.WF → (payload { event with source }).1.WF

theorem copiesWell_toEvent (p : ParsedToDevice) : p.toEvent.CopiesWell := by
  intro source hw
  unfold ParsedToDevice.toEvent
  split
  · exact hw
  · exact hw
  · -- a cancellation without a source is written anew
    show (if source = .obj [] then _ else (source, none)).1.WF
    split
    · rfl
    · exact hw
  · exact hw

theorem copiesWell_ofDecrypted (d : DecryptedEvent) : (ofDecrypted d).CopiesWell := by
  intro source hw
  cases d with
  | bad event => cases event <;> exact hw
  | roomKey e => exact hw
  | forwardedRoomKey e => exact hw
  | dummy e => exact hw
  | authenticated s sender type identity => exact hw
  | unknown s sender type => exact hw

theorem copiesWell_delivered (answer : Option DecryptedEvent) (p : ParsedToDevice) :
    (p.delivered answer).CopiesWell := by
  unfold ParsedToDevice.delivered
  cases handled answer p with
  | none => exact copiesWell_toEvent p
  | some d => exact copiesWell_ofDecrypted d

theorem copied_item {answer : Option DecryptedEvent} {p : ParsedToDevice} {source : Json}
    {copy : Item} (h : (p.item answer source).copied = .ok copy) :
    ∃ c s, copyJson (p.delivered answer).source = .ok c ∧ copyJson source = .ok s ∧
      copy = { p.item answer source with
        event := some { p.delivered answer with source := c }, source := some s } := by
  obtain ⟨event, hevent, h⟩ := bind_eq_ok.mp h
  obtain ⟨s, hs, h⟩ := bind_eq_ok.mp h
  obtain ⟨c, hc, hevent⟩ := bind_eq_ok.mp hevent
  obtain rfl := Except.ok.inj hevent
  exact ⟨c, s, hc, hs, (Except.ok.inj h).symm⟩

theorem wf_of_copyJson {v copy : Json} (h : copyJson v = .ok copy) : copy.WF := by
  obtain ⟨text, -, hloads⟩ := bind_eq_ok.mp h
  exact loads_wf hloads

theorem frozen_item {answer : Option DecryptedEvent} {p : ParsedToDevice} {source : Json}
    {copy : Item} (h : (p.item answer source).copied = .ok copy) :
    FromToDevice (freezeEvent copy) ∧ (freezeEvent copy).carrier.WF := by
  obtain ⟨c, s, hc, hs, rfl⟩ := copied_item h
  have hpayload := copiesWell_delivered answer p c (wf_of_copyJson hc)
  have hfrom : FromToDevice (freezeEvent { p.item answer source with
      event := some { p.delivered answer with source := c }, source := some s }) :=
    fromToDevice_freezeEvent rfl rfl rfl
  refine ⟨hfrom, (all_carrier_iff hfrom (fun _ => rfl) rfl ?_).mpr ⟨?_, ?_, fun e _ => wf_evidence e⟩⟩
  · show decide (List.Nodup [py "kind", py "room_id", py "source", py "clear", py "provenance",
      py "membership_epoch", py "crypto", py "membership", py "route", py "codec"]) = true
    decide
  · show (ite _ _ _ : Json).WF
    split
    · exact hpayload
    · exact wf_of_copyJson hs
  · intro clear hclear
    have hclear : (if _ then some _ else none) = some clear := hclear
    split at hclear
    · exact Option.some.inj hclear ▸ hpayload
    · cases hclear

/-- The items of a section are frozen and encoded exactly when each can be stored. -/
theorem encodeItems_isOk {items : List Item}
    (h : ∀ item ∈ items, ∃ answer p source, item = ParsedToDevice.item answer p source) :
    (∃ bytes, encodeItems items = .ok bytes) ↔ ∀ item ∈ items, Storable item := by
  have hspec : ∀ records, (items.mapM fun item => do return freezeEvent (← item.copied)) = .ok records →
      ∀ r ∈ records, ∃ item ∈ items, ∃ copy, item.copied = .ok copy ∧ r = freezeEvent copy := by
    intro records hrecords r hr
    obtain ⟨item, hitem, hfreeze⟩ := mem_of_mapM hrecords hr
    obtain ⟨copy, hcopy, hfreeze⟩ := bind_eq_ok.mp hfreeze
    exact ⟨item, hitem, copy, hcopy, (Except.ok.inj hfreeze).symm⟩
  have hwf : ∀ records,
      (items.mapM fun item => do return freezeEvent (← item.copied)) = .ok records →
      ∀ r ∈ records, r.carrier.WF := by
    intro records hrecords r hr
    obtain ⟨item, hitem, copy, hcopy, rfl⟩ := hspec records hrecords r hr
    obtain ⟨answer, p, source, rfl⟩ := h item hitem
    exact (frozen_item hcopy).2
  constructor
  · rintro ⟨bytes, hbytes⟩ item hitem
    obtain ⟨records, hrecords, hencode⟩ := bind_eq_ok.mp hbytes
    have hclean := (encodeRecords_isOk (hwf records hrecords)).mp ⟨bytes, hencode⟩
    obtain ⟨r, hr, hfreeze⟩ := exists_of_mapM hrecords hitem
    obtain ⟨copy, hcopy, hfreeze⟩ := bind_eq_ok.mp hfreeze
    obtain rfl := Except.ok.inj hfreeze
    obtain ⟨answer, p, source, rfl⟩ := h item hitem
    exact ⟨copy, hcopy, (clean_carrier_iff (frozen_item hcopy).1).mp (hclean _ hr)⟩
  · intro hstorable
    obtain ⟨records, hrecords⟩ := mapM_isOk.mpr fun item hitem => by
      obtain ⟨copy, hcopy, -⟩ := hstorable item hitem
      exact ⟨freezeEvent copy, bind_eq_ok.mpr ⟨copy, hcopy, rfl⟩⟩
    have hclean : ∀ r ∈ records, r.carrier.Clean := by
      intro r hr
      obtain ⟨item, hitem, copy, hcopy, rfl⟩ := hspec records hrecords r hr
      obtain ⟨copy', hcopy', hkept⟩ := hstorable item hitem
      obtain rfl := Except.ok.inj (hcopy.symm.trans hcopy')
      obtain ⟨answer, p, source, rfl⟩ := h item hitem
      exact (clean_carrier_iff (frozen_item hcopy).1).mpr hkept
    obtain ⟨bytes, hbytes⟩ := (encodeRecords_isOk (hwf records hrecords)).mpr hclean
    exact ⟨bytes, bind_eq_ok.mpr ⟨records, hrecords, hbytes⟩⟩

/-! ## The whole section -/

/-- A section is consumed exactly when each of its events was parsed and can be delivered. -/
theorem consumed_iff (answers : Nat → Option DecryptedEvent)
    (toDevice : List (Option ParsedToDevice)) :
    SectionConsumed answers toDevice ↔
      ∀ q ∈ toDevice.zipIdx, ∃ p, q.1 = some p ∧ Deliverable (answers q.2) p := by
  have hmade : ∀ rounds, toDevice.zipIdx.mapM (fun q => iterOne (answers q.2) q.1) = .ok rounds →
      ∀ item ∈ rounds.filterMap id, ∃ q ∈ toDevice.zipIdx, ∃ p source, q.1 = some p ∧
        p.itemSource = .ok source ∧ p.isKeyRequest = false ∧ item = p.item (answers q.2) source := by
    intro rounds hrounds item hitem
    obtain ⟨round, hround, hsome⟩ := List.mem_filterMap.mp hitem
    obtain ⟨q, hq, hiter⟩ := mem_of_mapM hrounds hround
    obtain ⟨p, source, hp, hsource, hitem⟩ := iterOne_eq_ok.mp hiter
    obtain rfl : round = some item := hsome
    split at hitem
    · cases hitem
    · next hkey =>
      exact ⟨q, hq, p, source, hp, hsource, by simpa using hkey, Option.some.inj hitem⟩
  constructor
  · rintro ⟨items, bytes, hiter, -, hbytes⟩ q hq
    obtain ⟨rounds, hrounds, hiter⟩ := bind_eq_ok.mp hiter
    obtain rfl := Except.ok.inj hiter
    have hstorable := (encodeItems_isOk fun item hitem => by
      obtain ⟨q, -, p, source, -, -, -, rfl⟩ := hmade rounds hrounds item hitem
      exact ⟨_, p, source, rfl⟩).mp ⟨bytes, hbytes⟩
    obtain ⟨round, hround, hone⟩ := exists_of_mapM hrounds hq
    obtain ⟨p, source, hp, hsource, rfl⟩ := iterOne_eq_ok.mp hone
    refine ⟨p, hp, source, hsource, fun hkey => hstorable _ ?_⟩
    rw [if_neg (by simp [hkey])] at hround
    exact List.mem_filterMap.mpr ⟨_, hround, rfl⟩
  · intro h
    have hrounds : ∀ q ∈ toDevice.zipIdx, ∃ item, iterOne (answers q.2) q.1 = .ok item := by
      intro q hq
      obtain ⟨p, hp, source, hsource, -⟩ := h q hq
      exact ⟨_, iterOne_eq_ok.mpr ⟨p, source, hp, hsource, rfl⟩⟩
    obtain ⟨rounds, hrounds⟩ := mapM_isOk.mpr hrounds
    have hiter : iterDecryptedToDevice answers toDevice = .ok (rounds.filterMap id) :=
      bind_eq_ok.mpr ⟨rounds, hrounds, rfl⟩
    obtain ⟨bytes, hbytes⟩ := (encodeItems_isOk fun item hitem => by
        obtain ⟨q, -, p, source, -, -, -, rfl⟩ := hmade rounds hrounds item hitem
        exact ⟨_, p, source, rfl⟩).mpr fun item hitem => by
      obtain ⟨q, hq, p, source, hp, hsource, hkey, rfl⟩ := hmade rounds hrounds item hitem
      obtain ⟨p', hp', source', hsource', hstorable⟩ := h q hq
      obtain rfl := Option.some.inj (hp.symm.trans hp')
      obtain rfl := Except.ok.inj (hsource.symm.trans hsource')
      exact hstorable hkey
    exact ⟨_, bytes, hiter, yielded_in_order hiter, hbytes⟩

/-- An object that the parser leaves out: it has no content, or is encrypted otherwise than with Olm. -/
def LeftOut (object : Json) : Prop :=
  ∃ event, Schemas.toDevice object = some event ∧ (getObj event "content" = .ok [] ∨
    (∃ c cs, getObj event "content" = .ok (c :: cs)) ∧
      getStr event "type" = .ok (py "m.room.encrypted") ∧
      ∃ e content algorithm, Schemas.roomEncrypted event = some e ∧ getItem e "content" = .ok content ∧
        getStr content "algorithm" = .ok algorithm ∧ algorithm ≠ py "m.olm.v1.curve25519-aes-sha2")

theorem verify_eq_none {α : Type} {schema : Schema} {bad : BadEventType → α}
    {parse : Json → Except PyError (Option α)} {object : Json} :
    verify schema (fun b => some (bad b)) parse object = .ok none ↔
      ∃ event, schema object = some event ∧ parse event = .ok none := by
  unfold verify
  cases hschema : schema object with
  | some event => simp
  | none =>
    constructor
    · intro h
      cases hbad : badOrUnknown object with
      | error e => rw [hbad] at h; cases h
      | ok b => rw [hbad] at h; cases h
    · rintro ⟨event, h, -⟩
      cases h

theorem parseEncryptedEvent_eq_none {event : Json} :
    parseEncryptedEvent event = .ok none ↔ ∃ e content algorithm,
      Schemas.roomEncrypted event = some e ∧ getItem e "content" = .ok content ∧
      getStr content "algorithm" = .ok algorithm ∧
      algorithm ≠ py "m.olm.v1.curve25519-aes-sha2" := by
  unfold parseEncryptedEvent
  rw [verify_eq_none]
  constructor
  · rintro ⟨e, he, h⟩
    obtain ⟨content, hcontent, h⟩ := bind_eq_ok.mp h
    obtain ⟨algorithm, halgorithm, h⟩ := bind_eq_ok.mp h
    split at h
    · obtain ⟨olm, -, h⟩ := bind_eq_ok.mp h
      cases h
    · next hne => exact ⟨e, content, algorithm, he, hcontent, halgorithm, hne⟩
  · rintro ⟨e, content, algorithm, he, hcontent, halgorithm, hne⟩
    refine ⟨e, he, bind_eq_ok.mpr ⟨content, hcontent, bind_eq_ok.mpr ⟨algorithm, halgorithm, ?_⟩⟩⟩
    rw [if_neg hne]
    rfl

theorem parseToDeviceEvent_eq_none {object : Json} :
    parseToDeviceEvent object = .ok none ↔ LeftOut object := by
  unfold parseToDeviceEvent LeftOut
  rw [verify_eq_none]
  refine exists_congr fun event => and_congr_right fun _ => ?_
  have hmap : ∀ (x : Except PyError ToDeviceEvent), (do return some (← x)) ≠ Except.ok none := by
    intro x h
    obtain ⟨e, -, h⟩ := bind_eq_ok.mp h
    cases h
  constructor
  · intro h
    obtain ⟨content, hcontent, h⟩ := bind_eq_ok.mp h
    split at h
    · next hnil => exact Or.inl (hnil ▸ hcontent)
    · next hne =>
      obtain ⟨type, htype, h⟩ := bind_eq_ok.mp h
      split at h
      · next henc =>
        obtain ⟨c, cs, rfl⟩ := List.exists_cons_of_ne_nil hne
        exact Or.inr ⟨⟨c, cs, hcontent⟩, henc ▸ htype, parseEncryptedEvent_eq_none.mp h⟩
      · repeat' split at h
        all_goals first
          | exact absurd h (hmap _)
          | skip
        obtain ⟨sender, -, h⟩ := bind_eq_ok.mp h
        cases h
  · rintro (hnil | ⟨⟨c, cs, hcontent⟩, htype, hleft⟩)
    · exact bind_eq_ok.mpr ⟨[], hnil, rfl⟩
    · refine bind_eq_ok.mpr ⟨c :: cs, hcontent, ?_⟩
      rw [if_neg (by simp)]
      refine bind_eq_ok.mpr ⟨_, htype, ?_⟩
      rw [if_pos rfl]
      exact parseEncryptedEvent_eq_none.mpr hleft

theorem parseToDevice_eq_none {object : Json} :
    parseToDevice object = .ok none ↔ LeftOut object := by
  rw [← parseToDeviceEvent_eq_none]
  unfold parseToDevice
  cases parseToDeviceEvent object with
  | error e => exact ⟨fun h => (nomatch h), fun h => (nomatch h)⟩
  | ok event =>
    cases event with
    | none => exact ⟨fun _ => rfl, fun _ => rfl⟩
    | some event => exact ⟨fun h => (nomatch h), fun h => (nomatch h)⟩

/-! ### Events of clean input -/

/-- The payload of an event that is delivered is its source. -/
theorem payload_delivered {answer : Option DecryptedEvent} {p : ParsedToDevice}
    (hnamed : (p.delivered answer).source ≠ .obj []) :
    (payload (p.delivered answer)).1 = (p.delivered answer).source := by
  have hplain : p.toEvent.source ≠ .obj [] → (payload p.toEvent).1 = p.toEvent.source := by
    unfold ParsedToDevice.toEvent
    split
    · exact fun _ => rfl
    · exact fun _ => rfl
    · intro hne
      have hne : p.source ≠ .obj [] := hne
      show (if p.source = .obj [] then _ else (p.source, none)).1 = p.source
      rw [if_neg hne]
    · exact fun _ => rfl
  unfold ParsedToDevice.delivered at hnamed ⊢
  revert hnamed
  cases handled answer p with
  | none => exact hplain
  | some d =>
    intro _
    cases d with
    | bad event => cases event <;> rfl
    | _ => rfl

theorem clean_evidence {answer : Option DecryptedEvent} {p : ParsedToDevice}
    (h : Presentable answer p) :
    (evidence (p.item answer p.source) (p.delivered answer)).asdict.Clean := by
  have hsender : Str.Encodable (evidence (p.item answer p.source) (p.delivered answer)).senderKey := by
    show Str.Encodable (if (p.delivered answer).senderKey.getD [] = [] then _ else _)
    split
    · exact encodable_envelopeSenderKey rfl h.object.2
    · next hne =>
      cases hkey : (p.delivered answer).senderKey with
      | none =>
        rw [hkey] at hne
        exact absurd rfl hne
      | some k => exact h.senderKey k hkey
  have hsession : (optional Json.str (p.delivered answer).sessionId).Clean := by
    cases hid : (p.delivered answer).sessionId with
    | none => exact clean_null
    | some id => exact Json.clean_str.mpr (h.sessionId id hid)
  have hdevice :
      (optional AuthenticatedDevice.asdict (p.delivered answer).authenticatedSender).Clean := by
    cases hd : (p.delivered answer).authenticatedSender with
    | none => exact clean_null
    | some d => exact h.device d hd
  have hverified : (optional Json.bool (p.delivered answer).verified).Clean := by
    cases (p.delivered answer).verified <;> rfl
  have hkeys : Json.nodeClean (evidence (p.item answer p.source) (p.delivered answer)).asdict = true := by
    simp [CryptoEvidence.asdict, Json.nodeClean, encodable_py]
  unfold Json.Clean CryptoEvidence.asdict at *
  simp only [Json.all, Json.allPairs, Bool.and_eq_true, and_true]
  exact ⟨hkeys, hverified, Json.clean_str.mpr hsender, hsession, hdevice⟩

/-- An event of clean input can be delivered, whether it was decrypted or not. -/
theorem deliverable_of_clean {answer : Option DecryptedEvent} {p : ParsedToDevice}
    (h : Presentable answer p) : Deliverable answer p := by
  have hcopy := copyJson_clean h.object.1 h.object.2
  have hevent := copyJson_clean h.event.1 h.event.2
  have hsource : p.itemSource = .ok p.source := by
    unfold ParsedToDevice.itemSource
    rw [hcopy]
    split
    · rfl
    · rfl
  have hcopied : (p.item answer p.source).copied = .ok (p.item answer p.source) := by
    have hself : (p.delivered answer).copied = .ok (p.delivered answer) := by
      unfold Event.copied
      rw [hevent]
      rfl
    show (do
      let event ← (p.delivered answer).copied
      return { p.item answer p.source with
        event := some event, source := some (← copyJson p.source) }) = _
    rw [hself, ok_bind, hcopy]
    rfl
  have hpayload : (payload (p.delivered answer)).1.Clean := by
    rw [payload_delivered h.named]
    exact h.event.2
  refine ⟨p.source, hsource, fun _ => ⟨p.item answer p.source, hcopied, ?_, ?_, ?_⟩⟩
  · show (if _ then (payload (p.delivered answer)).1 else p.source : Json).Clean
    split
    · exact hpayload
    · exact h.object.2
  · intro clear hclear
    have hclear : (if _ then some (payload (p.delivered answer)).1 else none) = some clear := hclear
    split at hclear
    · exact Option.some.inj hclear ▸ hpayload
    · cases hclear
  · intro e he
    have he : (if _ then some (evidence (p.item answer p.source) (p.delivered answer)) else none) =
      some e := he
    split at he
    · exact Option.some.inj he ▸ clean_evidence h
    · cases he

/-- The to-device section of an accepted response is consumed, whatever is decrypted, exactly when
the parser left out no event of a Classic response, and every event can be delivered. The parser
leaves out what is redacted or encrypted otherwise than with Olm, and every event of clean input can
be delivered. -/
theorem section_consumed_iff {parsers : EventParsers E} {sliding : Bool} {body : Json}
    {toDevice : List (Option ParsedToDevice)}
    (h : acceptedSection parsers sliding body = .ok (some toDevice))
    (answers : Nat → Option DecryptedEvent) :
    (SectionConsumed answers toDevice ↔ (sliding = false → none ∉ toDevice) ∧
      ∀ p i, (some p, i) ∈ toDevice.zipIdx → Deliverable (answers i) p) ∧
    (∀ object, parseToDevice object = .ok none ↔ LeftOut object) ∧
    ∀ p i, (some p, i) ∈ toDevice.zipIdx → Presentable (answers i) p → Deliverable (answers i) p := by
  refine ⟨?_, fun _ => parseToDevice_eq_none, fun _ _ _ => deliverable_of_clean⟩
  rw [consumed_iff]
  constructor
  · intro hall
    refine ⟨fun _ hnone => ?_, fun p i hp => ?_⟩
    · obtain ⟨i, hi⟩ := List.mem_iff_getElem?.mp hnone
      obtain ⟨p, hp, -⟩ := hall (none, i) (List.mem_zipIdx_iff_getElem?.mpr hi)
      cases hp
    · obtain ⟨p', hp', hdeliver⟩ := hall (some p, i) hp
      obtain rfl := Option.some.inj hp'
      exact hdeliver
  · rintro ⟨hnone, hall⟩ ⟨p, i⟩ hp
    have hparsed : none ∉ toDevice := by
      cases sliding with
      | false => exact hnone rfl
      | true =>
        -- the list of a Sliding response is filtered
        obtain ⟨response, -, h⟩ := bind_eq_ok.mp h
        cases response with
        | none => cases h
        | some response =>
          obtain ⟨copy, -, h⟩ := bind_eq_ok.mp h
          obtain ⟨objects, -, h⟩ := bind_eq_ok.mp h
          obtain ⟨parsed, -, h⟩ := bind_eq_ok.mp h
          obtain rfl := Option.some.inj (Except.ok.inj h)
          intro hmem
          exact absurd (List.mem_filter.mp hmem).2 (by simp)
    cases p with
    | none =>
      exact absurd (List.mem_of_getElem? (List.mem_zipIdx_iff_getElem?.mp hp)) hparsed
    | some p => exact ⟨p, rfl, hall p i hp⟩

/-- A Classic body with these to-device events -/
def bodyOf (events : List Json) : Json := .obj [(py "next_batch", .str (py "s1")),
  (py "to_device", .obj [(py "events", .arr events)])]

def customEvent (content : List (Str × Json)) : Json := .obj [(py "sender", .str (py "@a:x")),
  (py "type", .str (py "m.custom")), (py "content", .obj content)]

/-- A message that Olm has encrypted -/
def olmMessage : Json := .obj [(py "sender", .str (py "@a:x")),
  (py "type", .str (py "m.room.encrypted")), (py "content", .obj [
    (py "algorithm", .str (py "m.olm.v1.curve25519-aes-sha2")), (py "sender_key", .str (py "A")),
    (py "ciphertext", .obj [(py "B", .obj [(py "type", .int 0), (py "body", .str (py "x"))])])])]

/-- The room key that the message brings -/
def roomKeyOf : DecryptedEvent := .roomKey {
  source := .obj [(py "sender", .str (py "@a:x")), (py "type", .str (py "m.room_key"))]
  sender := py "@a:x"
  senderKey := py "A"
  roomId := py "!r:x"
  sessionId := py "S"
  algorithm := py "m.megolm.v1.aes-sha2" }

/-- The two events, parsed -/
def customParsed : ParsedToDevice :=
  ⟨customEvent [(py "k", .int 1)], .unknown (customEvent [(py "k", .int 1)]) (py "@a:x") (py "m.custom")⟩

def olmParsed : ParsedToDevice := ⟨olmMessage, .olm {
  source := olmMessage
  sender := py "@a:x"
  senderKey := py "A"
  ciphertext := [(py "B", .obj [(py "type", .int 0), (py "body", .str (py "x"))])]
  transactionId := none }⟩

/-- The message is decrypted, the other event is shown as it is. -/
theorem section_consumed_iff_two :
    acceptedSection asciiParsers.toEventParsers false
      (bodyOf [customEvent [(py "k", .int 1)], olmMessage]) =
        .ok (some [some customParsed, some olmParsed]) ∧
    SectionConsumed (fun i => if i = 1 then some roomKeyOf else none)
      [some customParsed, some olmParsed] := by
  have haccepted : acceptedSection asciiParsers.toEventParsers false
      (bodyOf [customEvent [(py "k", .int 1)], olmMessage]) =
        .ok (some [some customParsed, some olmParsed]) := rfl
  refine ⟨haccepted, ?_⟩
  obtain ⟨hiff, -, hdeliver⟩ := section_consumed_iff haccepted
    fun i => if i = 1 then some roomKeyOf else none
  refine hiff.mpr ⟨fun _ => by simp, fun p i hp => hdeliver p i hp ?_⟩
  rcases List.mem_cons.mp hp with h | h
  · obtain ⟨hs, rfl⟩ := Prod.mk.inj h
    obtain rfl := Option.some.inj hs
    refine ⟨⟨rfl, rfl⟩, ⟨rfl, rfl⟩, by decide, ?_, ?_, ?_⟩
    · rintro k ⟨⟩
    · rintro k ⟨⟩
    · rintro d ⟨⟩
  · obtain ⟨hs, rfl⟩ := Prod.mk.inj (List.mem_singleton.mp h)
    obtain rfl := Option.some.inj hs
    refine ⟨⟨rfl, rfl⟩, ⟨rfl, rfl⟩, by decide, ?_, ?_, ?_⟩
    · rintro k ⟨⟩
      exact encodable_py "A"
    · rintro k ⟨⟩
      exact encodable_py "S"
    · rintro d ⟨⟩

/-- An event without content stops the section of a Classic response. -/
theorem redacted_stops_section : ∃ toDevice,
    acceptedSection asciiParsers.toEventParsers false (bodyOf [customEvent []]) =
      .ok (some toDevice) ∧ ¬ SectionConsumed (fun _ => none) toDevice := by
  refine ⟨[none], rfl, fun h => ?_⟩
  obtain ⟨p, hp, -⟩ := (consumed_iff _ _).mp h (none, 0) (by simp)
  cases hp

end Nio.Durable
