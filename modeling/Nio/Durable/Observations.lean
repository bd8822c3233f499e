import Nio.Durable.Consumption

/-!
# The observations of a response

What a response has to say, item by item, and the iterators that say it. The lists of this module
are read off the response alone; `iterSync` and `runSliding` are proved to take their items.

* `classicItems` — the observations of a Classic response in the order of the tail
* `SyncInput.records` — the records of the timelines and of the states of a response
* `itemsOf_iterSync`, `runSliding_consumes` — the tails take these observations
-/

namespace Nio.Durable

open Nio.Py
open Nio.Events
open Nio.Lib

variable {env : Env}

/-! ## Items of a response -/

/-- The event that an event of a timeline is shown as -/
def Crypto.shownAs (crypto : Crypto) (r : Str) (event : Event) : Event :=
  match event.cls with
  | .megolm => (crypto.decrypt r event).getD event
  | _ => event

def timelineItem (crypto : Crypto) (r : Str) (roomSection : RoomSection)
    (provenance : Option Provenance) (event : Event) : Item :=
  ⟨some .event, some (crypto.shownAs r event), some r, some roomSection, some event.source, provenance⟩

/-- The to-device events of a response that the Olm machine hands on, with their sources -/
def deliveries (crypto : Crypto) (toDevice : List (Option ToDeviceEvent)) : List Item :=
  toDevice.filterMap fun event => (event.bind crypto.toDevice).map fun (event, source) =>
    { Item.ofGlobal .toDevice event with source := some source }

/-- What the Olm machine adds at the end of a tail -/
def notices (crypto : Crypto) : List Item :=
  crypto.expiredVerifications.map (Item.ofGlobal .expiredVerification) ++
    crypto.keyRequests.map (Item.ofGlobal .toDevice)

/-- The identities of a room that recovered pages or earlier windows have applied -/
def Plan.applied (plan : Plan) (r : Str) : List Json := (dictGet? plan.appliedIds r).getD []

/-- The timeline of a room after its recovery -/
def freshTimeline (plan : Plan) (r : Str) (info : RoomInfo events) : List Event :=
  info.timeline.events.filter fun event => event.sourceId ∉ plan.applied r

/-- The observations of a Classic response in order -/
def classicItems (crypto : Crypto) (plan : Plan) (response : SyncResponse events) : List Item :=
  deliveries crypto response.toDeviceEvents ++
    (response.rooms.invite.flatMap fun p => .ofSection p.1 .invite :: p.2.map (.ofInvite p.1)) ++
    (response.rooms.join.flatMap fun p => .ofSection p.1 .join :: p.2.state.map (.ofState p.1 .join) ++
      (freshTimeline plan p.1 p.2).map (timelineItem crypto p.1 .join none) ++
      p.2.accountData.map (.ofAccountData p.1 .join)) ++
    (response.rooms.leave.flatMap fun p => p.2.state.map (.ofState p.1 .leave) ++
      (freshTimeline plan p.1 p.2).map (timelineItem crypto p.1 .leave none) ++
      p.2.accountData.map (.ofAccountData p.1 .leave) ++ [.ofSection p.1 .leave]) ++
    response.accountDataEvents.map (.ofGlobal .globalAccountData) ++ notices crypto

/-! ## Records of a response -/

/-- The identities that a Sliding window passes over, as earlier windows showed them -/
def Plan.passedOver (plan : Plan) (r : Str) : List Json :=
  if plan.sliding.isSome then plan.applied r else []

def slidingTimeline (plan : Plan) (r : Str) (room : SlidingRoom) : List Event :=
  room.timeline.filter fun event => event.eventId ∉ plan.passedOver r

/-- The records of a kind that a tail makes of a response -/
def classicRecords (crypto : Crypto) (plan : Plan) (response : SyncResponse events) :
    RecordKind → List SyncRecord
  | .timeline => (response.rooms.join ++ response.rooms.leave).flatMap fun p =>
      frozen plan.applied ((freshTimeline plan p.1 p.2).map (timelineItem crypto p.1 .join none))
  | .state => (response.rooms.invite.flatMap fun p =>
        frozen plan.applied (p.2.map (.ofInvite p.1))) ++
      (response.rooms.join ++ response.rooms.leave).flatMap fun p =>
        frozen plan.applied (p.2.state.map (.ofState p.1 .join))
  | .roomAccountData => (response.rooms.join ++ response.rooms.leave).flatMap fun p =>
      frozen plan.applied (p.2.accountData.map (.ofAccountData p.1 .join))
  | .globalAccountData => response.accountDataEvents.map fun event =>
      freezeEvent (.ofGlobal .globalAccountData event)
  | _ => []

/-- The state of a room of a Sliding response -/
def slidingState (entry : Str × SlidingRoom) : List Item :=
  if entry.2.isInvited then entry.2.strippedState.map (.ofInvite entry.1)
  else entry.2.requiredState.map fun event =>
    { Item.ofState entry.1 .join event with source := some (payload event).1 }

/-- The records of a kind that a tail makes of a room of a Sliding response -/
def slidingRoomRecords (crypto : Crypto) (plan : Plan) (entry : Str × SlidingRoom) :
    RecordKind → List SyncRecord
  | .timeline =>
    if entry.2.isInvited then []
    else (slidingTimeline plan entry.1 entry.2).map fun event =>
      freezeEvent (timelineItem crypto entry.1 .join none event)
  | .state => (slidingState entry).map freezeEvent
  | _ => []

def slidingRecords (crypto : Crypto) (plan : Plan) (response : SlidingResponse) :
    RecordKind → List SyncRecord
  | .globalAccountData => response.accountDataEvents.map fun event =>
      freezeEvent (.ofGlobal .globalAccountData event)
  | kind => response.rooms.flatMap fun entry => slidingRoomRecords crypto plan entry kind

def SyncInput.records (crypto : Crypto) (plan : Plan) : SyncInput → RecordKind → List SyncRecord
  | .classic response => classicRecords crypto plan response
  | .sliding response => slidingRecords crypto plan response

/-- The records of a kind -/
def ofKind (kind : RecordKind) (records : List SyncRecord) : List SyncRecord :=
  records.filter fun record => record.kind = kind

@[simp] theorem ofKind_append (kind : RecordKind) (rs rs' : List SyncRecord) :
    ofKind kind (rs ++ rs') = ofKind kind rs ++ ofKind kind rs' := List.filter_append rs rs'

/-! ### Records of items -/

/-- The kind of a record is that of its route. -/
theorem freezeEvent_kind {item : Item} (h : item.event.isSome) :
    (freezeEvent item).kind = recordKind item.route := by
  obtain ⟨event, he⟩ := Option.isSome_iff_exists.mp h
  unfold freezeEvent
  rw [he]

theorem frozen_flatMap {α : Type} (suppressed : Str → List Json) (as : List α) (f : α → List Item) :
    frozen suppressed (as.flatMap f) = as.flatMap fun a => frozen suppressed (f a) := by
  induction as with
  | nil => rfl
  | cons a as ih => rw [List.flatMap_cons, List.flatMap_cons, frozen_append, ih]

theorem ofKind_flatMap {α : Type} (kind : RecordKind) (as : List α) (f : α → List SyncRecord) :
    ofKind kind (as.flatMap f) = as.flatMap fun a => ofKind kind (f a) := by
  induction as with
  | nil => rfl
  | cons a as ih => rw [List.flatMap_cons, List.flatMap_cons, ofKind_append, ih]

/-- Only items with an event are shown. -/
theorem event_of_isShown {suppressed : Str → List Json} {item : Item}
    (h : item.isShown suppressed = true) : item.event.isSome := by
  unfold Item.isShown at h
  cases he : item.event with
  | none =>
    rw [he] at h
    cases h
  | some event => rfl

/-- Items of one route have records of one kind. -/
theorem ofKind_frozen {suppressed : Str → List Json} {items : List Item} {route : Option Route}
    (h : ∀ item ∈ items, item.route = route) (kind : RecordKind) :
    ofKind kind (frozen suppressed items) =
      if recordKind route = kind then frozen suppressed items else [] := by
  have hkind : ∀ record ∈ frozen suppressed items, record.kind = recordKind route := by
    intro record hr
    obtain ⟨item, hitem, rfl⟩ := List.mem_map.mp hr
    obtain ⟨hmem, hshown⟩ := List.mem_filter.mp hitem
    rw [freezeEvent_kind (event_of_isShown hshown), h item hmem]
  unfold ofKind
  split
  · next heq => exact List.filter_eq_self.mpr fun record hr => by simp [hkind record hr, heq]
  · next hne => exact List.filter_eq_nil_iff.mpr fun record hr => by simp [hkind record hr, hne]

/-- Items of one route are recorded under its kind. -/
theorem ofKind_frozen_map {α : Type} (suppressed : Str → List Json) (as : List α) (f : α → Item)
    {route : Option Route} (h : ∀ a, (f a).route = route) (kind : RecordKind) :
    ofKind kind (frozen suppressed (as.map f)) =
      if recordKind route = kind then frozen suppressed (as.map f) else [] :=
  ofKind_frozen (fun item hitem => by
    obtain ⟨a, -, rfl⟩ := List.mem_map.mp hitem
    exact h a) kind

/-- A record keeps nothing of the section of its item, nor of the provenance. -/
theorem frozen_map_congr {α : Type} {suppressed : Str → List Json} {as : List α} {f g : α → Item}
    (h : ∀ a, (f a).event.isSome ∧ (f a).route = (g a).route ∧ (f a).event = (g a).event ∧
      (f a).roomId = (g a).roomId ∧ (f a).source = (g a).source) :
    frozen suppressed (as.map f) = frozen suppressed (as.map g) := by
  have hshown : ∀ a, (f a).isShown suppressed = (g a).isShown suppressed := by
    intro a
    obtain ⟨-, -, he, hr, -⟩ := h a
    unfold Item.isShown
    rw [he, hr]
  have hfreeze : ∀ a, freezeEvent (f a) = freezeEvent (g a) := by
    intro a
    obtain ⟨hsome, hroute, he, hr, hs⟩ := h a
    obtain ⟨event, hevent⟩ := Option.isSome_iff_exists.mp hsome
    unfold freezeEvent encryptedEnvelope evidence envelopeSenderKey Item.fromEncrypted
    rw [he, hr, hs, hroute, ← he, hevent]
  unfold frozen
  simp only [List.filter_map, List.map_map, Function.comp_def, hshown, hfreeze]

/-- Without suppression every event is recorded. -/
theorem frozen_all {items : List Item} (h : ∀ item ∈ items, item.event.isSome) :
    frozen (fun _ => []) items = items.map freezeEvent := by
  unfold frozen
  rw [List.filter_eq_self.mpr fun item hitem => ?_]
  obtain ⟨event, he⟩ := Option.isSome_iff_exists.mp (h item hitem)
  unfold Item.isShown
  rw [he]
  cases item.roomId with
  | none => rfl
  | some r => simp

/-- Events outside of rooms are never suppressed. -/
theorem frozen_global {suppressed : Str → List Json} {items : List Item}
    (h : ∀ item ∈ items, item.event.isSome ∧ item.roomId = none) :
    frozen suppressed items = items.map freezeEvent := by
  unfold frozen
  rw [List.filter_eq_self.mpr fun item hitem => ?_]
  obtain ⟨hsome, hroom⟩ := h item hitem
  obtain ⟨event, he⟩ := Option.isSome_iff_exists.mp hsome
  unfold Item.isShown
  rw [he, hroom]

/-! ### The Classic tail -/

/-- To-device events are delivered outside of rooms. -/
theorem deliveries_route {crypto : Crypto} {toDevice : List (Option ToDeviceEvent)} {item : Item}
    (h : item ∈ deliveries crypto toDevice) :
    item.event.isSome ∧ item.route = some .toDevice ∧ item.roomId = none := by
  obtain ⟨event, -, hitem⟩ := List.mem_filterMap.mp h
  obtain ⟨p, -, rfl⟩ := Option.map_eq_some_iff.mp hitem
  exact ⟨rfl, rfl, rfl⟩

theorem frozen_deliveries (suppressed : Str → List Json) (crypto : Crypto)
    (toDevice : List (Option ToDeviceEvent)) :
    frozen suppressed (deliveries crypto toDevice) = (deliveries crypto toDevice).map freezeEvent :=
  frozen_global fun _ h => ⟨(deliveries_route h).1, (deliveries_route h).2.2⟩

theorem ofKind_deliveries (kind : RecordKind) (crypto : Crypto)
    (toDevice : List (Option ToDeviceEvent)) :
    ofKind kind ((deliveries crypto toDevice).map freezeEvent) =
      if kind = .toDevice then (deliveries crypto toDevice).map freezeEvent else [] := by
  rw [← frozen_deliveries (fun _ => []),
    ofKind_frozen (fun item h => (deliveries_route h).2.1)]
  simp only [recordKind, eq_comm]

theorem frozen_ofGlobal (suppressed : Str → List Json) (route : Route) (es : List Event) :
    frozen suppressed (es.map (Item.ofGlobal route)) =
      es.map fun event => freezeEvent (.ofGlobal route event) := by
  rw [frozen_global fun item hitem => ?_, List.map_map]
  · rfl
  · obtain ⟨event, -, rfl⟩ := List.mem_map.mp hitem
    exact ⟨rfl, rfl⟩

/-- Notices of Olm sessions are recorded as they are. -/
theorem frozen_notices (suppressed : Str → List Json) (crypto : Crypto) :
    frozen suppressed (notices crypto) = (notices crypto).map freezeEvent := by
  refine frozen_global fun item hitem => ?_
  rcases List.mem_append.mp hitem with hitem | hitem
  · obtain ⟨event, -, rfl⟩ := List.mem_map.mp hitem
    exact ⟨rfl, rfl⟩
  · obtain ⟨event, -, rfl⟩ := List.mem_map.mp hitem
    exact ⟨rfl, rfl⟩

theorem ofKind_notices (kind : RecordKind) (crypto : Crypto) :
    ofKind kind ((notices crypto).map freezeEvent) =
      if kind = .toDevice then (notices crypto).map freezeEvent else [] := by
  rw [← frozen_notices (fun _ => [])]
  unfold notices
  have hexpired := ofKind_frozen_map (fun _ => []) crypto.expiredVerifications
    (.ofGlobal .expiredVerification) (fun _ => rfl) kind
  have hrequests := ofKind_frozen_map (fun _ => []) crypto.keyRequests
    (.ofGlobal .toDevice) (fun _ => rfl) kind
  rw [frozen_append, ofKind_append, hexpired, hrequests]
  by_cases hk : kind = .toDevice
  · simp [recordKind, hk]
  · simp [recordKind, hk, Ne.symm hk]

/-- What a tail shows of its response -/
structure Conveys (crypto : Crypto) (plan : Plan) (response : SyncInput)
    (suppressed : Str → List Json) (items : List Item) : Prop where
  toDevice : ofKind .toDevice (frozen suppressed items) =
    (deliveries crypto (toDeviceOf response) ++ notices crypto).map freezeEvent
  timeline : ofKind .timeline (frozen suppressed items) = response.records crypto plan .timeline
  state : ofKind .state (frozen suppressed items) = response.records crypto plan .state
  globalAccountData : ofKind .globalAccountData (frozen suppressed items) =
    response.records crypto plan .globalAccountData
  roomAccountData : ∀ r, response = .classic r →
    ofKind .roomAccountData (frozen suppressed items) = response.records crypto plan .roomAccountData

/-- What a classic response records, section by section -/
theorem frozen_classicItems (crypto : Crypto) (plan : Plan) (response : SyncResponse events) :
    frozen plan.applied (classicItems crypto plan response) =
      (deliveries crypto response.toDeviceEvents).map freezeEvent ++
      (response.rooms.invite.flatMap fun p => frozen plan.applied (p.2.map (.ofInvite p.1))) ++
      ((response.rooms.join ++ response.rooms.leave).flatMap fun p =>
        frozen plan.applied (p.2.state.map (.ofState p.1 .join)) ++
        frozen plan.applied ((freshTimeline plan p.1 p.2).map (timelineItem crypto p.1 .join none)) ++
        frozen plan.applied (p.2.accountData.map (.ofAccountData p.1 .join))) ++
      (response.accountDataEvents.map fun event => freezeEvent (.ofGlobal .globalAccountData event)) ++
      (notices crypto).map freezeEvent := by
  have hstate : ∀ p : Str × RoomInfo events, frozen plan.applied (p.2.state.map (.ofState p.1 .leave)) =
      frozen plan.applied (p.2.state.map (.ofState p.1 .join)) :=
    fun p => frozen_map_congr fun _ => ⟨rfl, rfl, rfl, rfl, rfl⟩
  have htimeline : ∀ p : Str × RoomInfo events, frozen plan.applied
      ((freshTimeline plan p.1 p.2).map (timelineItem crypto p.1 .leave none)) =
      frozen plan.applied ((freshTimeline plan p.1 p.2).map (timelineItem crypto p.1 .join none)) :=
    fun p => frozen_map_congr fun _ => ⟨rfl, rfl, rfl, rfl, rfl⟩
  have haccount : ∀ p : Str × RoomInfo events,
      frozen plan.applied (p.2.accountData.map (.ofAccountData p.1 .leave)) =
      frozen plan.applied (p.2.accountData.map (.ofAccountData p.1 .join)) :=
    fun p => frozen_map_congr fun _ => ⟨rfl, rfl, rfl, rfl, rfl⟩
  have hcons : ∀ r roomSection items, frozen plan.applied (.ofSection r roomSection :: items) =
      frozen plan.applied items := fun _ _ _ => rfl
  unfold classicItems
  simp only [frozen_append, frozen_flatMap, frozen_deliveries, frozen_ofGlobal, frozen_notices,
    frozen_nil, hcons, hstate, htimeline, haccount, List.append_nil, List.flatMap_append,
    List.append_assoc, List.cons_append]

/-- The items of a Classic response show what is to be shown of it. -/
theorem conveys_classic (crypto : Crypto) (plan : Plan) (response : SyncResponse events) :
    Conveys crypto plan (.classic response) plan.applied (classicItems crypto plan response) := by
  have hinvite := fun p : Str × List Event => ofKind_frozen_map plan.applied p.2
    (.ofInvite p.1) fun _ => rfl
  have hstate := fun p : Str × RoomInfo events => ofKind_frozen_map plan.applied p.2.state
    (.ofState p.1 .join) fun _ => rfl
  have htimeline := fun p : Str × RoomInfo events => ofKind_frozen_map plan.applied
    (freshTimeline plan p.1 p.2) (timelineItem crypto p.1 .join none) fun _ => rfl
  have haccount := fun p : Str × RoomInfo events => ofKind_frozen_map plan.applied p.2.accountData
    (.ofAccountData p.1 .join) fun _ => rfl
  have hglobal := fun kind => ofKind_frozen_map plan.applied response.accountDataEvents
    (.ofGlobal .globalAccountData) (fun _ => rfl) kind
  have hnothing : ∀ {α : Type} (as : List α), as.flatMap (fun _ => ([] : List SyncRecord)) = [] :=
    fun as => List.flatMap_eq_nil_iff.mpr fun _ _ => rfl
  have hkind := fun kind => congrArg (ofKind kind) (frozen_classicItems crypto plan response)
  simp only [ofKind_append, ofKind_flatMap, ofKind_deliveries, ofKind_notices, hinvite, hstate,
    htimeline, haccount, ← frozen_ofGlobal plan.applied, hglobal, recordKind] at hkind
  refine ⟨(hkind _).trans ?_, (hkind _).trans ?_, (hkind _).trans ?_, (hkind _).trans ?_,
    fun r hr => (hkind _).trans ?_⟩
  · simp [toDeviceOf, hnothing]
  · simp [SyncInput.records, classicRecords, hnothing]
  · simp [SyncInput.records, classicRecords]
  · simp [SyncInput.records, classicRecords, hnothing, frozen_ofGlobal]
  · simp [SyncInput.records, classicRecords, hnothing]

/-! ### The moves of a Classic tail -/

/-- The moves of the to-device events yield the deliveries, -/
theorem itemsOf_iterToDevice {crypto : Crypto} {toDevice : List (Option ToDeviceEvent)}
    {moves : List Move} (h : iterToDevice crypto toDevice = .ok moves) :
    itemsOf moves = deliveries crypto toDevice := by
  unfold iterToDevice at h
  obtain ⟨opts, hmap, h⟩ := bind_eq_ok.mp h
  cases h
  unfold itemsOf deliveries
  rw [List.filterMap_filterMap]
  refine filterMap_of_forall₂ (mapM_eq_ok.mp hmap) fun event move hmove => ?_
  cases event with
  | none => cases hmove
  | some event =>
    cases hmove
    cases h : crypto.toDevice event with
    | none => simp [h]
    | some p => simp [h]

/-- those of a timeline its events -/
theorem itemsOf_iterRoomTimeline (crypto : Crypto) (r : Str) (timeline : List Event)
    (roomSection : RoomSection) (apply : Bool) (provenance : Option Provenance) :
    itemsOf (iterRoomTimeline crypto r timeline roomSection apply provenance) =
      timeline.map (timelineItem crypto r roomSection provenance) := by
  unfold iterRoomTimeline
  induction timeline with
  | nil => rfl
  | cons event timeline ih =>
    rw [List.flatMap_cons, itemsOf_append, ih, itemsOf_append, List.map_cons]
    cases apply with
    | true => rfl
    | false => rfl

theorem itemsOf_yields {α : Type} (as : List α) (f : α → Item) :
    itemsOf (as.map fun a => .yield (f a)) = as.map f := by
  induction as with
  | nil => rfl
  | cons a as ih => exact congrArg (f a :: ·) ih

theorem itemsOf_flatMap {α : Type} (as : List α) (f : α → List Move) :
    itemsOf (as.flatMap f) = as.flatMap fun a => itemsOf (f a) := by
  induction as with
  | nil => rfl
  | cons a as ih => rw [List.flatMap_cons, List.flatMap_cons, itemsOf_append, ih]

/-- and those of Olm the notices. -/
theorem itemsOf_iterOlm (crypto : Crypto) : itemsOf (iterOlm crypto) = notices crypto := by
  unfold iterOlm notices
  rw [itemsOf_append, itemsOf_yields, itemsOf_yields]

/-- The filter drops the events that were applied. -/
theorem filterTimeline_ok {applied : List Json} {timeline es : List Event}
    (h : filterTimeline applied timeline = .ok es) :
    es = timeline.filter fun event => event.sourceId ∉ applied := by
  unfold filterTimeline at h
  induction timeline generalizing es with
  | nil =>
    cases h
    rfl
  | cons event timeline ih =>
    rw [List.filterMapM_cons] at h
    obtain ⟨kept, hkept, h⟩ := bind_eq_ok.mp h
    obtain ⟨b, hb, hkept⟩ := bind_eq_ok.mp hkept
    have hb := inSet_ok hb
    cases b with
    | true =>
      cases hkept
      rw [List.filter_cons_of_neg (by simpa using hb)]
      exact ih h
    | false =>
      cases hkept
      obtain ⟨rest, hrest, h⟩ := bind_eq_ok.mp h
      cases h
      rw [List.filter_cons_of_pos (by simpa using hb), ih hrest]

/-- It does so in every room. -/
theorem filterRooms_ok {plan : Plan} {rooms rooms' : List (Str × RoomInfo events)}
    (h : rooms.mapM (filterRoom plan) = .ok rooms') :
    rooms' = rooms.map fun p => (p.1, { p.2 with
      timeline := { p.2.timeline with events := freshTimeline plan p.1 p.2 } }) := by
  have hall := mapM_eq_ok.mp h
  induction hall with
  | nil => rfl
  | @cons p p' rooms rooms' hp _ ih =>
    unfold filterRoom at hp
    obtain ⟨es, hes, hp⟩ := bind_eq_ok.mp hp
    cases hp
    rw [List.map_cons, ← ih (mapM_eq_ok.mpr ‹_›), filterTimeline_ok hes]
    rfl

/-- The moves of a Classic tail are those of the observations of its response. -/
theorem itemsOf_iterSync {crypto : Crypto} {plan : Plan} {response response' : SyncResponse events}
    {moves : List Move} (hf : filterResponse plan response = .ok response')
    (h : iterSync crypto response' = .ok moves) :
    itemsOf moves = classicItems crypto plan response := by
  unfold filterResponse at hf
  obtain ⟨join, hjoin, hf⟩ := bind_eq_ok.mp hf
  obtain ⟨leave, hleave, hf⟩ := bind_eq_ok.mp hf
  cases hf
  unfold iterSync at h
  obtain ⟨toDevice, htd, h⟩ := bind_eq_ok.mp h
  cases h
  rw [filterRooms_ok hjoin, filterRooms_ok hleave]
  have hinvited : ∀ (r : Str) (state : List Event), itemsOf (iterInvitedRoom r state) =
      .ofSection r .invite :: state.map (.ofInvite r) :=
    fun r state => congrArg (Item.ofSection r .invite :: ·) (itemsOf_yields state (.ofInvite r))
  have hjoined : ∀ (r : Str) (info : RoomInfo events), itemsOf (iterJoinedRoom crypto r info) =
      .ofSection r .join :: info.state.map (.ofState r .join) ++
        info.timeline.events.map (timelineItem crypto r .join none) ++
        info.accountData.map (.ofAccountData r .join) := by
    intro r info
    unfold iterJoinedRoom iterState iterAccountData
    rw [itemsOf_append, itemsOf_append, itemsOf_iterRoomTimeline, itemsOf_yields]
    exact congrArg (· ++ _ ++ _) (congrArg (Item.ofSection r .join :: ·) (itemsOf_yields _ _))
  have hleft : ∀ (r : Str) (info : RoomInfo events), itemsOf (iterLeftRoom crypto r info) =
      info.state.map (.ofState r .leave) ++
        info.timeline.events.map (timelineItem crypto r .leave none) ++
        info.accountData.map (.ofAccountData r .leave) ++ [.ofSection r .leave] := by
    intro r info
    unfold iterLeftRoom iterState iterAccountData
    rw [itemsOf_append, itemsOf_append, itemsOf_append, itemsOf_iterRoomTimeline, itemsOf_yields]
    exact congrArg (· ++ _ ++ _ ++ _) (itemsOf_yields _ _)
  simp only [itemsOf_append, itemsOf_flatMap, itemsOf_iterToDevice htd, itemsOf_iterOlm, hinvited,
    hjoined, hleft, itemsOf_yields, List.flatMap_map]
  rfl

/-! ### The Sliding tail -/

/-- The records of the items where nothing is suppressed -/
abbrev told (items : List Item) : List SyncRecord := frozen (fun _ => []) items

/-- A sliding room passes over the ids of the plan. -/
theorem suppressIds_slidingRoom (plan : Plan) (w : Work) (r : Str) :
    (plan.slidingRoom w r).suppressIds = plan.passedOver r := by
  unfold Plan.slidingRoom Plan.passedOver Plan.applied
  split
  · next sliding hs =>
    rw [hs]
    rfl
  · next hs =>
    rw [hs]
    rfl

/-- The timeline is told event by event, whatever provenance the window gives to each. -/
theorem told_iterSlidingTimeline {crypto : Crypto} {r : Str} {room : SlidingRoom}
    {roomSection : RoomSection} {plan : SlidingRoomPlan} {moves : List Move}
    (h : iterSlidingTimeline crypto r room roomSection plan = .ok moves) :
    told (itemsOf moves) = (room.timeline.filter fun event => event.eventId ∉ plan.suppressIds).map
      fun event => freezeEvent (timelineItem crypto r .join none event) := by
  unfold iterSlidingTimeline at h
  obtain ⟨lists, hlists, h⟩ := bind_eq_ok.mp h
  cases h
  have hone : ∀ (event : Event) (provenance : Provenance) (moves : List Move),
      iterSlidingEvent crypto r roomSection plan.suppressIds provenance event = .ok moves →
      told (itemsOf moves) = ([event].filter fun event => event.eventId ∉ plan.suppressIds).map
        fun event => freezeEvent (timelineItem crypto r .join none event) := by
    intro event provenance moves hmoves
    unfold iterSlidingEvent at hmoves
    obtain ⟨b, hb, hmoves⟩ := bind_eq_ok.mp hmoves
    have hb := inSet_ok hb
    cases b with
    | true =>
      cases hmoves
      rw [List.filter_cons_of_neg (by simpa using hb)]
      rfl
    | false =>
      cases hmoves
      rw [List.filter_cons_of_pos (by simpa using hb), itemsOf_iterRoomTimeline]
      unfold told
      rw [frozen_all fun item hitem => by rw [List.mem_singleton.mp hitem]; rfl]
      rfl
  have hall : ∀ (entries : List (Event × Nat)) (lists : List (List Move)),
      List.Forall₂ (fun entry moves => iterSlidingEvent crypto r roomSection plan.suppressIds
        (room.timelineProvenance entry.2 plan.history plan.recovered plan.historyPrefix)
        entry.1 = .ok moves) entries lists →
      told (itemsOf lists.flatten) = ((entries.map Prod.fst).filter fun event =>
        event.eventId ∉ plan.suppressIds).map
          fun event => freezeEvent (timelineItem crypto r .join none event) := by
    intro entries lists hforall
    induction hforall with
    | nil => rfl
    | @cons entry moves entries lists hmoves _ ih =>
      unfold told at ih ⊢
      rw [List.flatten_cons, itemsOf_append, frozen_append, ih, List.map_cons,
        ← List.singleton_append, List.filter_append, List.map_append]
      exact congrArg (· ++ _) (hone _ _ _ hmoves)
  have hfst : room.timeline.zipIdx.map Prod.fst = room.timeline := by simp
  rw [hall _ _ (mapM_eq_ok.mp hlists), hfst]

theorem told_yields {α : Type} (as : List α) (f : α → Item) (h : ∀ a, (f a).event.isSome) :
    told (itemsOf (as.map fun a => .yield (f a))) = as.map fun a => freezeEvent (f a) := by
  unfold told
  rw [itemsOf_yields, frozen_all fun item hitem => ?_, List.map_map]
  · rfl
  · obtain ⟨a, -, rfl⟩ := List.mem_map.mp hitem
    exact h a

theorem ofKind_map_freezeEvent {α : Type} (as : List α) (f : α → Item) {route : Option Route}
    (h : ∀ a, (f a).event.isSome ∧ (f a).route = route) (kind : RecordKind) :
    ofKind kind (as.map fun a => freezeEvent (f a)) =
      if recordKind route = kind then as.map fun a => freezeEvent (f a) else [] := by
  have htold := told_yields as f fun a => (h a).1
  rw [itemsOf_yields] at htold
  rw [← htold]
  exact ofKind_frozen_map _ _ _ (fun a => (h a).2) kind

theorem told_append (moves moves' : List Move) :
    told (itemsOf (moves ++ moves')) = told (itemsOf moves) ++ told (itemsOf moves') := by
  unfold told
  rw [itemsOf_append, frozen_append]

/-- The section that stands before or behind the events of a room has no event. -/
theorem told_sections {start stop : List Move} (rest : List Move) (hstart : told (itemsOf start) = [])
    (hstop : told (itemsOf stop) = []) :
    told (itemsOf (start ++ rest ++ stop)) = told (itemsOf rest) := by
  rw [told_append, told_append, hstart, hstop, List.nil_append, List.append_nil]

theorem told_ite {p : Prop} [Decidable p] {moves moves' : List Move}
    (h : told (itemsOf moves) = []) (h' : told (itemsOf moves') = []) :
    told (itemsOf (if p then moves else moves')) = [] := by
  split
  · exact h
  · exact h'

/-- The state and the timeline of a room, whichever comes first -/
theorem ofKind_told_either (kind : RecordKind) (stateFirst : Bool) (state timeline : List Move) :
    ofKind kind (told (itemsOf (if stateFirst then state ++ timeline else timeline ++ state))) =
      if stateFirst then ofKind kind (told (itemsOf state)) ++ ofKind kind (told (itemsOf timeline))
      else ofKind kind (told (itemsOf timeline)) ++ ofKind kind (told (itemsOf state)) := by
  cases stateFirst with
  | true => rw [if_pos rfl, if_pos rfl, told_append, ofKind_append]
  | false =>
    rw [if_neg Bool.false_ne_true, if_neg Bool.false_ne_true, told_append, ofKind_append]

/-- The moves of a room tell of its timeline and of its state. -/
theorem ofKind_iterSlidingRoom {crypto : Crypto} {plan : Plan} {w : Work} {known : Bool}
    {entry : Str × SlidingRoom} {moves : List Move}
    (h : iterSlidingRoom crypto entry.1 entry.2 (plan.slidingRoom w entry.1) known = .ok moves)
    (kind : RecordKind) :
    ofKind kind (told (itemsOf moves)) = slidingRoomRecords crypto plan entry kind := by
  have hinvite := ofKind_map_freezeEvent entry.2.strippedState (.ofInvite entry.1)
    (fun _ => ⟨rfl, rfl⟩) kind
  have hstate := ofKind_map_freezeEvent entry.2.requiredState (fun event =>
    { Item.ofState entry.1 .join event with source := some (payload event).1 })
    (fun _ => ⟨rfl, rfl⟩) kind
  have htimeline := ofKind_map_freezeEvent (slidingTimeline plan entry.1 entry.2)
    (timelineItem crypto entry.1 .join none) (fun _ => ⟨rfl, rfl⟩) kind
  unfold iterSlidingRoom at h
  split at h
  · next hinvited =>
    cases h
    have hmoves : told (itemsOf (iterInvitedRoom entry.1 entry.2.strippedState)) =
        entry.2.strippedState.map fun event => freezeEvent (.ofInvite entry.1 event) :=
      told_yields _ _ fun _ => rfl
    rw [hmoves, hinvite]
    unfold slidingRoomRecords slidingState
    rw [if_pos hinvited, if_pos hinvited]
    cases kind <;> simp [recordKind]
  · next hinvited =>
    obtain ⟨timeline, ht, h⟩ := bind_eq_ok.mp h
    cases h
    have hstates := told_yields entry.2.requiredState (fun event =>
      { Item.ofState entry.1 (if entry.2.isLeaving then .leave else .join) event with
        source := some (payload event).1 }) fun _ => rfl
    have htimelines := told_iterSlidingTimeline ht
    rw [suppressIds_slidingRoom] at htimelines
    have hstates' : ofKind kind (told (itemsOf (iterSlidingState entry.1
        (if entry.2.isLeaving then .leave else .join) entry.2.requiredState))) =
        if recordKind none = kind then (slidingState entry).map freezeEvent else [] := by
      unfold slidingState
      rw [if_neg hinvited, List.map_map]
      exact (congrArg (ofKind kind) hstates).trans hstate
    have htimelines' : ofKind kind (told (itemsOf timeline)) =
        if recordKind (some .event) = kind then slidingRoomRecords crypto plan entry .timeline
          else [] := by
      unfold slidingRoomRecords
      rw [if_neg hinvited]
      exact (congrArg (ofKind kind) htimelines).trans htimeline
    have hstart : told (itemsOf (Move.enterRoom entry.1 :: if entry.2.isLeaving = true then []
        else [.yield (.ofSection entry.1 (if entry.2.isLeaving then .leave else .join))])) = [] :=
      @told_ite _ _ [] _ rfl rfl
    rw [told_sections _ hstart (told_ite rfl rfl), ofKind_told_either, hstates', htimelines']
    -- state and timeline are of different kinds, so that their order does not matter
    cases kind <;> simp [recordKind, slidingRoomRecords]

/-! ### The run of a Sliding tail -/

/-- The account data that waits for its room changes between two loops. -/
theorem foldlM_waiting_consumes {w w' : Work} {waiting : List (Str × List (Str × Event))}
    {moves : List Move} (hstop : w.processor.stopOnOversized = false)
    (hover : w.processor.oversized = false)
    (h : moves.foldlM (runMove env)
      { w with session := { w.session with pendingAccountData := waiting } } = .ok w') :
    Consumes env w (itemsOf moves) w' :=
  .aside ⟨still_client w w.session.rooms w.session.invited w.session.resets waiting, rfl⟩
    (foldlM_runMove_consumes hstop hover h)

/-- A sliding room consumes its items, -/
theorem runSlidingRoom_consumes {crypto : Crypto} {plan : Plan} {w w' : Work}
    {entry : Str × SlidingRoom} (hstop : w.processor.stopOnOversized = false)
    (hover : w.processor.oversized = false) (h : runSlidingRoom env crypto plan w entry = .ok w') :
    ∃ items, Consumes env w items w' ∧
      ∀ kind, ofKind kind (told items) = slidingRoomRecords crypto plan entry kind := by
  unfold runSlidingRoom at h
  obtain ⟨moves, hmoves, h⟩ := bind_eq_ok.mp h
  exact ⟨_, foldlM_runMove_consumes hstop hover h, ofKind_iterSlidingRoom hmoves⟩

/-- and the rooms theirs one after the other. -/
theorem runSlidingRooms_consumes {crypto : Crypto} {plan : Plan} {entries : List (Str × SlidingRoom)}
    {w w' : Work} (hstop : w.processor.stopOnOversized = false)
    (hover : w.processor.oversized = false)
    (h : entries.foldlM (runSlidingRoom env crypto plan) w = .ok w') :
    ∃ items, Consumes env w items w' ∧
      ∀ kind, ofKind kind (told items) =
        entries.flatMap fun entry => slidingRoomRecords crypto plan entry kind := by
  induction entries generalizing w with
  | nil =>
    cases h
    exact ⟨[], .nil w', fun kind => rfl⟩
  | cons entry entries ih =>
    rw [List.foldlM_cons] at h
    obtain ⟨w₁, h₁, h⟩ := bind_eq_ok.mp h
    obtain ⟨items, hitems, hkind⟩ := runSlidingRoom_consumes hstop hover h₁
    obtain ⟨hsame, -⟩ := hitems.shown hstop
    obtain ⟨items', hitems', hkind'⟩ := ih (hsame.stopOnOversized.trans hstop)
      (hsame.oversized.trans hover) h
    refine ⟨items ++ items', hitems.append hitems', fun kind => ?_⟩
    unfold told at hkind hkind' ⊢
    rw [frozen_append, ofKind_append, hkind, hkind', List.flatMap_cons]

/-- The account data that waited for its room -/
theorem runPendingAccountData_consumes {w w' : Work} (hstop : w.processor.stopOnOversized = false)
    (hover : w.processor.oversized = false) (h : runPendingAccountData env w = .ok w') :
    ∃ items, Consumes env w items w' ∧
      ∀ kind, kind ≠ .roomAccountData → ofKind kind (told items) = [] := by
  unfold runPendingAccountData at h
  dsimp only at h
  refine ⟨_, foldlM_waiting_consumes hstop hover h, fun kind hkind => ?_⟩
  unfold told
  refine (@ofKind_frozen _ _ (some .roomAccountData) (fun item hitem => ?_) kind).trans
    (if_neg fun heq => hkind heq.symm)
  rw [itemsOf_flatMap] at hitem
  obtain ⟨p, -, hitem⟩ := List.mem_flatMap.mp hitem
  unfold iterAccountData at hitem
  rw [itemsOf_yields] at hitem
  obtain ⟨event, -, rfl⟩ := List.mem_map.mp hitem
  rfl

/-- The run of a Sliding tail takes the observations of its response. -/
theorem runSliding_consumes {crypto : Crypto} {plan : Plan} {w w' : Work}
    {response : SlidingResponse} (hstop : w.processor.stopOnOversized = false)
    (hover : w.processor.oversized = false) (h : runSliding env crypto plan w response = .ok w') :
    ∃ items, Consumes env w items w' ∧
      Conveys crypto plan (.sliding response) (fun _ => []) items := by
  unfold runSliding at h
  dsimp only at h
  obtain ⟨toDevice, htd, h⟩ := bind_eq_ok.mp h
  obtain ⟨w₁, h₁, h⟩ := bind_eq_ok.mp h
  obtain ⟨w₂, h₂, h⟩ := bind_eq_ok.mp h
  obtain ⟨w₃, h₃, h⟩ := bind_eq_ok.mp h
  obtain ⟨w₄, h₄, h⟩ := bind_eq_ok.mp h
  obtain ⟨w₅, h₅, h⟩ := bind_eq_ok.mp h
  have hgoes : ∀ {w w' : Work} {items : List Item}, Consumes env w items w' →
      w.processor.stopOnOversized = false → w.processor.oversized = false →
      w'.processor.stopOnOversized = false ∧ w'.processor.oversized = false :=
    fun hc hs ho => ⟨(hc.shown hs).1.stopOnOversized.trans hs, (hc.shown hs).1.oversized.trans ho⟩
  have hc₁ := Consumes.aside (aside_pendingBytes w none) (@foldlM_runMove_consumes env
    { w with processor := { w.processor with pendingBytes := none } } w₁ toDevice hstop hover h₁)
  obtain ⟨hs₁, ho₁⟩ := hgoes hc₁ hstop hover
  obtain ⟨rooms, hc₂, hrooms⟩ := runSlidingRooms_consumes hs₁ ho₁ h₂
  obtain ⟨hs₂, ho₂⟩ := hgoes hc₂ hs₁ ho₁
  have hc₃ := foldlM_waiting_consumes hs₂ ho₂ h₃
  obtain ⟨hs₃, ho₃⟩ := hgoes hc₃ hs₂ ho₂
  obtain ⟨waiting, hc₄, hwaiting⟩ := runPendingAccountData_consumes hs₃ ho₃ h₄
  obtain ⟨hs₄, ho₄⟩ := hgoes hc₄ hs₃ ho₃
  have hc₅ := foldlM_runMove_consumes hs₄ ho₄ h₅
  have hend := (hc₅.append (.aside (aside_flush h) (.nil w')))
  refine ⟨_, hc₁.append (hc₂.append (hc₃.append (hc₄.append hend))), ?_⟩
  rw [itemsOf_yields, itemsOf_iterToDevice htd, itemsOf_iterOlm, List.append_nil]
  have hglobal := fun kind => ofKind_frozen_map (fun _ => []) response.accountDataEvents
    (.ofGlobal .globalAccountData) (fun _ => rfl) kind
  have hnothing : ∀ {α : Type} (as : List α), as.flatMap (fun _ => ([] : List SyncRecord)) = [] :=
    fun as => List.flatMap_eq_nil_iff.mpr fun _ _ => rfl
  unfold told at hrooms hwaiting
  refine ⟨?_, ?_, ?_, ?_, fun r hr => nomatch hr⟩
  all_goals
    simp only [frozen_append, ofKind_append, frozen_deliveries, frozen_notices, ofKind_deliveries,
      ofKind_notices, hrooms, hglobal, recordKind]
    rw [hwaiting _ (by simp)]
  · simp [toDeviceOf, slidingRoomRecords, hnothing]
  · simp [SyncInput.records, slidingRecords]
  · simp [SyncInput.records, slidingRecords]
  · simp [SyncInput.records, slidingRecords, slidingRoomRecords, hnothing, frozen_ofGlobal]

end Nio.Durable
