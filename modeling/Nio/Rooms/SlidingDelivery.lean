import Mathlib.Data.List.TakeWhile
import Nio.Lib.FifoDict
import Nio.Rooms.DecryptedIds
import Nio.Crypto.MegolmSoundness
import Nio.SlidingResponses

/-!
# Ordinary Sliding delivery

A client without a durable session remembers the last events of each room that it has seen, and
which of them were encrypted then. Windows of a room overlap; an event that was delivered in clear
is left out of later ones, and a ciphertext is delivered again only when it could be decrypted.

* `OrdinarySliding.handleSync` — one response
* `slidingDelivery_sound` — every event of the windows is seen, none is delivered twice, and none is
  lost
-/

namespace Nio.Rooms

open Nio.Py
open Nio.Lib
open Nio.Events
open Nio.Crypto (Vodozemac MegolmView unaryLibrary bobsEvent)

variable {ρ : Type}

/-! ## Windows -/

/-- What `iter_sliding_sync` reads of a room of a response -/
structure RoomWindow (ρ : Type) where
  membership : Option Str
  hasStrippedState : Bool
  initial : Bool
  expandedTimeline : Bool
  numLive : Option Int
  requiredState : List (SlidingSyncStateStub ⊕ RoomEvent)
  timeline : List (Sighting ρ)

namespace RoomWindow

variable (w : RoomWindow ρ)

/-- `live_event_count` -/
def liveEventCount : Nat :=
  match w.numLive with
  | some n => (max 0 (min n w.timeline.length)).toNat
  | none => if w.initial || w.expandedTimeline then 0 else w.timeline.length

def invited : Bool :=
  w.membership = some (py "invite") ||
    w.hasStrippedState && w.membership ∉ [some (py "join"), some (py "leave"), some (py "ban")]

def leaving : Bool := w.membership ∈ [some (py "leave"), some (py "ban")]

/-- The events of the timeline, each with whether it is live -/
def sightings : List (Bool × Sighting ρ) :=
  w.timeline.zipIdx.map fun p => (w.timeline.length - w.liveEventCount ≤ p.2, p.1)

/-- The snapshot is applied before the timeline. -/
def stateFirst (known : Bool) : Bool :=
  !known || w.initial && w.timeline.length - w.liveEventCount = w.timeline.length

end RoomWindow

/-! ## The client -/

/-- `_sliding_seen_events` of a room: whether an event was encrypted when it was last seen -/
abbrev SeenEvents := FifoDict Json Bool

@[irreducible] def seenSize : Nat := 4096

theorem seenSize_pos : 0 < seenSize := by
  unfold seenSize
  omega

/-- What became of an event of a timeline -/
structure Visit (ρ : Type) where
  roomId : Str
  sighting : Sighting ρ
  /-- The timeline applied its state. -/
  applied : Bool
  /-- The event that the callbacks got -/
  delivered : Option RoomEvent
  /-- The exception with which the response ends here -/
  raised : Option PyError

/-- What a response does to a room, in order -/
inductive SlidingEffect (ρ : Type) where
  /-- An entry of `required_state` is applied. -/
  | state (roomId : Str) (entry : SlidingSyncStateStub ⊕ RoomEvent)
  | visit (v : Visit ρ)

def SlidingEffect.raises : SlidingEffect ρ → Bool
  | .state .. => false
  | .visit v => v.raised.isSome

/-- The events of a room while a response is handled -/
structure RoomSeen where
  /-- The events that were seen, if the room has an entry -/
  seen : Option SeenEvents
  /-- The ids that are left out, if the room has an entry -/
  completed : Option (List Json)

/-- `{event_id for event_id, encrypted in seen.items() if not encrypted}` -/
def completedOf (seen : SeenEvents) : List Json :=
  (seen.filter fun p => !p.2).map Prod.fst

namespace RoomSeen

variable (lib : Vodozemac ρ) (r : RoomSeen) (roomId : Str)

def known : SeenEvents := r.seen.getD []

def leftOut : List Json := r.completed.getD []

@[simp] theorem known_some (seen : SeenEvents) (completed : Option (List Json)) :
    (RoomSeen.mk (some seen) completed).known = seen := rfl

@[simp] theorem leftOut_mk (seen : Option SeenEvents) (completed : Option (List Json)) :
    (RoomSeen.mk seen completed).leftOut = completed.getD [] := rfl

/-- `getattr(event, "event_id", None) in suppress_ids.get(room_id, ())`. The empty tuple does not ask
for a hash. -/
def suppressed (event : RoomEvent) : Except PyError Bool :=
  match r.completed, event.eventId? with
  | some completed, some id => (dictKey id).map fun key => decide (key ∈ completed)
  | _, _ => .ok false

/-- One event of a timeline -/
def visit (live : Bool) (s : Sighting ρ) : RoomSeen × Visit ρ :=
  match r.suppressed s.event, s.decrypt lib roomId with
  | .error e, _ => (r, ⟨roomId, s, false, none, some e⟩)
  | .ok true, _ => (r, ⟨roomId, s, false, none, none⟩)
  | .ok false, .error e => (r, ⟨roomId, s, false, none, some e⟩)
  | .ok false, .ok decrypted =>
    -- a decrypted event and a bad one never change the room
    let applied := live && decrypted.isNone && !s.event.isBad
    let event := decrypted.getD s.event
    match event.eventId?.filter truthy with
    | none => (r, ⟨roomId, s, applied, some event, none⟩)
    | some id =>
      match dictKey id with
      | .error e => (⟨some r.known, r.completed⟩, ⟨roomId, s, applied, none, some e⟩)
      | .ok key =>
        let encrypted := event.isMegolm
        let duplicateCiphertext := encrypted && key ∈ r.known.map Prod.fst
        let seen := some (r.known.set seenSize key encrypted)
        if duplicateCiphertext then ({ r with seen }, ⟨roomId, s, applied, none, none⟩)
        else
          ({ seen, completed := if encrypted then r.completed else some (key :: r.leftOut) },
            ⟨roomId, s, applied, some event, none⟩)

/-- The events of a timeline, one after the other, until one raises -/
def visits (r : RoomSeen) : List (Bool × Sighting ρ) → RoomSeen × List (Visit ρ)
  | [] => (r, [])
  | (live, s) :: rest =>
    let (r, v) := r.visit lib roomId live s
    if v.raised.isSome then (r, [v])
    else
      let (r, vs) := r.visits rest
      (r, v :: vs)

end RoomSeen

structure OrdinarySliding where
  rooms : List Str
  /-- `_sliding_seen_events`, of the rooms that have an entry -/
  slidingSeenEvents : Str → Option SeenEvents

namespace OrdinarySliding

variable (lib : Vodozemac ρ)

def new : OrdinarySliding := ⟨[], fun _ => none⟩

/-- A room of a response, with the ids that are left out so far -/
def handleRoom (c : OrdinarySliding) (completed : Str → Option (List Json)) (roomId : Str)
    (w : RoomWindow ρ) : OrdinarySliding × (Str → Option (List Json)) × List (SlidingEffect ρ) :=
  if w.invited then (c, completed, [])
  else if w.leaving then ({ c with rooms := c.rooms.filter (· ≠ roomId) }, completed, [])
  else
    let state := w.requiredState.map (SlidingEffect.state roomId)
    let (r, vs) := RoomSeen.visits lib roomId ⟨c.slidingSeenEvents roomId, completed roomId⟩ w.sightings
    let timeline := vs.map SlidingEffect.visit
    ({ rooms := c.rooms.insert roomId
       slidingSeenEvents := Function.update c.slidingSeenEvents roomId r.seen },
      Function.update completed roomId r.completed,
      if w.stateFirst (roomId ∈ c.rooms) then state ++ timeline
      else if timeline.any SlidingEffect.raises then timeline
      else timeline ++ state)

/-- The rooms of a response, one after the other, until one raises -/
def handleRooms (c : OrdinarySliding) (completed : Str → Option (List Json)) :
    List (Str × RoomWindow ρ) → OrdinarySliding × List (SlidingEffect ρ)
  | [] => (c, [])
  | (roomId, w) :: rest =>
    let (c, completed, effects) := c.handleRoom lib completed roomId w
    if effects.any SlidingEffect.raises then (c, effects)
    else
      let (c, more) := c.handleRooms completed rest
      (c, effects ++ more)

/-- `_handle_sliding_sync`, as far as the timelines of rooms go -/
def handleSync (c : OrdinarySliding) (rooms : List (Str × RoomWindow ρ)) :
    OrdinarySliding × List (SlidingEffect ρ) :=
  c.handleRooms lib (fun roomId => (c.slidingSeenEvents roomId).map completedOf) rooms

/-- The effects of each response of a sequence; the client goes on after one that raises. -/
def effects (c : OrdinarySliding) : List (List (Str × RoomWindow ρ)) → List (List (SlidingEffect ρ))
  | [] => []
  | rooms :: rest => (c.handleSync lib rooms).2 :: (c.handleSync lib rooms).1.effects rest

end OrdinarySliding

/-- What became of the events of a room -/
def visitsOf (roomId : Str) (effects : List (SlidingEffect ρ)) : List (Visit ρ) :=
  effects.filterMap fun
    | .visit v => if v.roomId = roomId then some v else none
    | .state _ _ => none

/-! ## What is to hold -/

/-- The events of the timelines of a room that the client neither is invited to nor has left -/
def shown (roomId : Str) (rooms : List (Str × RoomWindow ρ)) : List (Sighting ρ) :=
  rooms.flatMap fun p =>
    if p.1 = roomId ∧ p.2.invited = false ∧ p.2.leaving = false then p.2.timeline else []

/-- The id of the event has a hash, and decrypting the event does not raise. -/
def Sighting.Readable (lib : Vodozemac ρ) (roomId : Str) (s : Sighting ρ) : Prop :=
  (∀ id ∈ s.event.eventId?, (dictKey id).isOk) ∧ (s.decrypt lib roomId).isOk

instance (lib : Vodozemac ρ) (roomId : Str) (s : Sighting ρ) : Decidable (s.Readable lib roomId) :=
  inferInstanceAs (Decidable (_ ∧ _))

/-- The events of the windows of a room are seen one after the other, and all of them unless one of
the response cannot be read. -/
structure AllSeen (lib : Vodozemac ρ) (roomId : Str) (rooms : List (Str × RoomWindow ρ))
    (effects : List (SlidingEffect ρ)) : Prop where
  inOrder : (visitsOf roomId effects).map Visit.sighting <+: shown roomId rooms
  complete : (∀ other, ∀ s ∈ shown other rooms, s.Readable lib other) →
    (visitsOf roomId effects).map Visit.sighting = shown roomId rooms

def Visit.id (v : Visit ρ) : Option Json := v.sighting.id

/-- The event was delivered under the id. -/
def Visit.Tracks (id : Json) (v : Visit ρ) : Prop := ∃ e ∈ v.delivered, trackedId e = some id

/-- The event was delivered in clear or decrypted. -/
def Visit.Completes (id : Json) (v : Visit ρ) : Prop :=
  ∃ e ∈ v.delivered, trackedId e = some id ∧ e.isMegolm = false

/-- The event was delivered as a ciphertext. -/
def Visit.Encrypted (id : Json) (v : Visit ρ) : Prop :=
  ∃ e ∈ v.delivered, trackedId e = some id ∧ e.isMegolm = true

/-- The other ids that were seen since the first sighting of an id -/
def othersSince (id : Json) (vs : List (Visit ρ)) : List Json :=
  ((vs.dropWhile fun v => v.id ≠ some id).filterMap Visit.id).filter (· ≠ id)

/-- Fewer ids came after the first sighting than the client remembers. -/
def FewSince (id : Json) (vs : List (Visit ρ)) : Prop := (othersSince id vs).dedup.length < seenSize

/-- What holds of an event, given what became of the events of the room before -/
structure VisitSound (lib : Vodozemac ρ) (before : List (Visit ρ)) (v : Visit ρ) : Prop where
  /-- An event that was delivered in clear or decrypted is left out. -/
  noRepeat : ∀ id, v.id = some id → FewSince id before → (∃ u ∈ before, u.Completes id) →
    v.delivered = none ∧ v.applied = false
  /-- A ciphertext is delivered once. -/
  oneCiphertext : ∀ id, v.id = some id → FewSince id before → (∃ u ∈ before, u.Encrypted id) →
    ¬ v.Encrypted id
  /-- A ciphertext that can be decrypted is delivered unless this happened before. -/
  decrypted : ∀ id, v.id = some id → (∀ u ∈ before, ¬ u.Completes id) →
    ∀ d, v.sighting.decrypt lib v.roomId = .ok (some d) → trackedId d = some id →
      v.delivered = some d
  /-- An event that is new is delivered, and so is one without an id. -/
  first : v.sighting.Readable lib v.roomId →
    (∀ id, v.id = some id → ∀ u ∈ before, u.id ≠ some id) →
      v.delivered = some (v.sighting.observed lib v.roomId)

def AllSound (lib : Vodozemac ρ) (vs : List (Visit ρ)) : Prop :=
  ∀ before v after, vs = before ++ v :: after → VisitSound lib before v

/-! ## Ids since a sighting -/

section Since

variable {id : Json} {vs : List (Visit ρ)} {v : Visit ρ}

theorem othersSince_subset (id : Json) (vs : List (Visit ρ)) (v : Visit ρ) :
    othersSince id vs ⊆ othersSince id (vs ++ [v]) := by
  intro x hx
  unfold othersSince at hx ⊢
  rw [List.dropWhile_append]
  split
  · next hempty =>
    rw [List.isEmpty_iff.mp hempty] at hx
    cases hx
  · rw [List.filterMap_append, List.filter_append]
    exact List.mem_append_left _ hx

theorem mem_othersSince (hid : ∃ u ∈ vs, u.id = some id) {other : Json} (hother : v.id = some other)
    (hne : other ≠ id) : other ∈ othersSince id (vs ++ [v]) := by
  unfold othersSince
  rw [List.dropWhile_append, if_neg]
  · rw [List.filterMap_append, List.filter_append]
    exact List.mem_append_right _ (by simp [hother, hne])
  · intro hempty
    obtain ⟨u, hu, huid⟩ := hid
    have hall := List.dropWhile_eq_nil_iff.mp (List.isEmpty_iff.mp hempty) u hu
    simp [huid] at hall

theorem FewSince.before (h : FewSince id (vs ++ [v])) : FewSince id vs := by
  have hsub : (othersSince id vs).dedup ⊆ (othersSince id (vs ++ [v])).dedup := fun x hx =>
    List.mem_dedup.mpr (othersSince_subset id vs v (List.mem_dedup.mp hx))
  exact Nat.lt_of_le_of_lt ((List.nodup_dedup _).subperm hsub).length_le h

end Since

/-! ## One event -/

variable {lib : Vodozemac ρ}

theorem observed_of_decrypt {roomId : Str} {s : Sighting ρ} {decrypted : Option RoomEvent}
    (h : s.decrypt lib roomId = .ok decrypted) :
    s.observed lib roomId = decrypted.getD s.event := by
  unfold Sighting.observed
  rw [h]
  cases decrypted <;> rfl

/-- The event that is observed has the id of the event of the window, if it has one. -/
theorem eventId_observed (lib : Vodozemac ρ) (roomId : Str) (s : Sighting ρ) :
    (s.observed lib roomId).eventId? = none ∨
      (s.observed lib roomId).eventId? = s.event.eventId? := by
  unfold Sighting.observed
  split
  · next d hd => exact (decrypt_plain hd).2
  · exact Or.inr rfl

theorem id_of_observed {roomId : Str} {s : Sighting ρ} {id : Json}
    (h : trackedId (s.observed lib roomId) = some id) : s.id = some id := by
  unfold Sighting.id
  unfold trackedId at h ⊢
  rcases eventId_observed lib roomId s with hnone | heq
  · rw [hnone] at h
    cases h
  · rw [← heq]
    exact h

/-- The key of an id that is not empty is what the event is remembered by. -/
theorem trackedId_of_key {e : RoomEvent} {id key : Json} (hid : e.eventId? = some id)
    (hkey : dictKey id = .ok key) (htruthy : truthy key = true) : trackedId e = some key := by
  unfold trackedId
  rw [hid, Option.filter_some, if_pos ((truthy_dictKey hkey).symm.trans htruthy), Option.bind_some,
    hkey]
  rfl

/-- What an event is remembered by is the key of its id. -/
theorem key_of_trackedId {e : RoomEvent} {key : Json} (h : trackedId e = some key) :
    ∃ id, e.eventId? = some id ∧ truthy id = true ∧ dictKey id = .ok key := by
  unfold trackedId at h
  obtain ⟨id, hid, hkey⟩ := Option.bind_eq_some_iff.mp h
  obtain ⟨hid, htruthy⟩ := Option.filter_eq_some_iff.mp hid
  refine ⟨id, hid, htruthy, ?_⟩
  cases hd : dictKey id with
  | error e =>
    rw [hd] at hkey
    cases hkey
  | ok k =>
    rw [hd] at hkey
    cases hkey
    rfl

/-- What one event of a timeline does -/
inductive Visited (lib : Vodozemac ρ) (r : RoomSeen) (roomId : Str) (s : Sighting ρ) :
    RoomSeen × Visit ρ → Prop where
  | leftOut {id key : Json} (hid : s.event.eventId? = some id) (hkey : dictKey id = .ok key)
      (hin : key ∈ r.leftOut) : Visited lib r roomId s (r, ⟨roomId, s, false, none, none⟩)
  | raised {r' : RoomSeen} {applied : Bool} {e : PyError}
      (hnot : ∀ id, s.id = some id → id ∉ r.leftOut) (hread : ¬ s.Readable lib roomId)
      (hknown : r'.known = r.known) (hleft : r'.leftOut = r.leftOut) :
      Visited lib r roomId s (r', ⟨roomId, s, applied, none, some e⟩)
  | untracked {applied : Bool} (hnot : ∀ id, s.id = some id → id ∉ r.leftOut)
      (hnone : trackedId (s.observed lib roomId) = none) :
      Visited lib r roomId s (r, ⟨roomId, s, applied, some (s.observed lib roomId), none⟩)
  | repeated {applied : Bool} {id : Json} (hnot : ∀ id, s.id = some id → id ∉ r.leftOut)
      (htracked : trackedId (s.observed lib roomId) = some id)
      (hmegolm : (s.observed lib roomId).isMegolm = true) (hin : id ∈ r.known.map Prod.fst) :
      Visited lib r roomId s
        (⟨some (r.known.set seenSize id true), r.completed⟩, ⟨roomId, s, applied, none, none⟩)
  | recorded {applied : Bool} {id : Json} (hnot : ∀ id, s.id = some id → id ∉ r.leftOut)
      (htracked : trackedId (s.observed lib roomId) = some id)
      (hfresh : (s.observed lib roomId).isMegolm = true → id ∉ r.known.map Prod.fst) :
      Visited lib r roomId s
        (⟨some (r.known.set seenSize id (s.observed lib roomId).isMegolm),
          if (s.observed lib roomId).isMegolm then r.completed else some (id :: r.leftOut)⟩,
          ⟨roomId, s, applied, some (s.observed lib roomId), none⟩)

/-- An event is left out when its key is among those that are. -/
theorem suppressed_cases (r : RoomSeen) (e : RoomEvent) :
    (∃ err, r.suppressed e = .error err ∧ trackedId e = none ∧
      ∃ id, e.eventId? = some id ∧ ¬ (dictKey id).isOk) ∨
    (r.suppressed e = .ok true ∧
      ∃ id key, e.eventId? = some id ∧ dictKey id = .ok key ∧ key ∈ r.leftOut) ∨
    (r.suppressed e = .ok false ∧ ∀ key, trackedId e = some key → key ∉ r.leftOut) := by
  unfold RoomSeen.suppressed RoomSeen.leftOut
  cases hcompleted : r.completed with
  | none => exact Or.inr (Or.inr ⟨rfl, fun _ _ => List.not_mem_nil⟩)
  | some completed =>
    cases hid : e.eventId? with
    | none =>
      refine Or.inr (Or.inr ⟨rfl, fun key hkey => ?_⟩)
      obtain ⟨id, hsome, -⟩ := key_of_trackedId hkey
      cases hid.symm.trans hsome
    | some id =>
      dsimp only
      cases hkey : dictKey id with
      | error err =>
        have hnone : trackedId e = none := by
          refine Option.eq_none_iff_forall_ne_some.mpr fun key htracked => ?_
          obtain ⟨id', hid', -, hother⟩ := key_of_trackedId htracked
          obtain rfl := Option.some.inj (hid.symm.trans hid')
          cases hkey.symm.trans hother
        exact Or.inl ⟨err, rfl, hnone, id, rfl, by simp [hkey, Except.isOk, Except.toBool]⟩
      | ok key =>
        by_cases hin : key ∈ completed
        · exact Or.inr (Or.inl ⟨congrArg Except.ok (decide_eq_true hin), id, key, rfl, hkey, hin⟩)
        · refine Or.inr (Or.inr ⟨congrArg Except.ok (decide_eq_false hin), fun other hother => ?_⟩)
          obtain ⟨id', hid', -, hother⟩ := key_of_trackedId hother
          obtain rfl := Option.some.inj (hid.symm.trans hid')
          obtain rfl := Except.ok.inj (hkey.symm.trans hother)
          exact hin

theorem visited_visit (lib : Vodozemac ρ) (r : RoomSeen) (roomId : Str) (live : Bool)
    (s : Sighting ρ) : Visited lib r roomId s (r.visit lib roomId live s) := by
  unfold RoomSeen.visit
  rcases suppressed_cases r s.event with
    ⟨err, heq, hnone, id, hid, hhash⟩ | ⟨heq, id, key, hid, hkey, hin⟩ | ⟨heq, hnot⟩
  · rw [heq]
    refine .raised (fun key hkey => ?_) (fun hread => hhash (hread.1 id hid)) rfl rfl
    cases hnone.symm.trans hkey
  · rw [heq]
    exact .leftOut hid hkey hin
  · rw [heq]
    cases hdecrypt : s.decrypt lib roomId with
    | error err =>
      refine .raised hnot (fun hread => ?_) rfl rfl
      have hok := hread.2
      rw [hdecrypt] at hok
      cases hok
    | ok decrypted =>
      dsimp only
      rw [← observed_of_decrypt hdecrypt]
      cases hraw : (s.observed lib roomId).eventId?.filter truthy with
      | none =>
        refine .untracked hnot ?_
        unfold trackedId
        rw [hraw]
        rfl
      | some id =>
        dsimp only
        obtain ⟨hid, -⟩ := Option.filter_eq_some_iff.mp hraw
        cases hkey : dictKey id with
        | error err =>
          refine .raised hnot (fun hread => ?_) rfl rfl
          -- only the id of the event itself can lack a hash
          rcases eventId_observed lib roomId s with hnone | hown
          · cases hid.symm.trans hnone
          · have hok := hread.1 id (hown ▸ hid)
            rw [hkey] at hok
            cases hok
        | ok key =>
          have htracked : trackedId (s.observed lib roomId) = some key := by
            unfold trackedId
            rw [hraw, Option.bind_some, hkey]
            rfl
          dsimp only
          by_cases hdup : (s.observed lib roomId).isMegolm = true ∧ key ∈ r.known.map Prod.fst
          · rw [if_pos (by simpa using hdup), hdup.1]
            exact .repeated hnot htracked hdup.1 hdup.2
          · rw [if_neg (by simpa using hdup)]
            exact .recorded hnot htracked fun hm hin => hdup ⟨hm, hin⟩

/-- What the client remembers of a room is about its past. -/
structure RoomInv (lib : Vodozemac ρ) (seen : SeenEvents) (leftOut : List Json)
    (vs : List (Visit ρ)) : Prop where
  bounded : seen.Bounded seenSize
  observed : ∀ v ∈ vs, ∀ e ∈ v.delivered, e = v.sighting.observed lib v.roomId
  known : ∀ p ∈ seen, ∃ v ∈ vs, v.Tracks p.1
  past : ∀ id ∈ leftOut, ∃ v ∈ vs, v.Completes id
  completed : ∀ p ∈ seen, p.2 = false → p.1 ∈ leftOut
  kept : ∀ id, (∃ v ∈ vs, v.Tracks id) → FewSince id vs →
    ∃ encrypted, seen.After id encrypted (othersSince id vs) ∧
      ((∃ v ∈ vs, v.Completes id) → encrypted = false)

section Step

variable {r : RoomSeen} {seen : SeenEvents} {leftOut : List Json} {vs : List (Visit ρ)}
  {roomId : Str} {live : Bool} {s : Sighting ρ} {id : Json}

theorem Visit.Completes.tracks {v : Visit ρ} (h : v.Completes id) : v.Tracks id := by
  obtain ⟨e, he, hid, -⟩ := h
  exact ⟨e, he, hid⟩

theorem RoomInv.id_of_tracks (h : RoomInv lib seen leftOut vs) {v : Visit ρ} (hv : v ∈ vs)
    (ht : v.Tracks id) : v.id = some id := by
  obtain ⟨e, he, hid⟩ := ht
  rw [h.observed v hv e he] at hid
  exact id_of_observed hid

/-- An event that was completed is still left out. -/
theorem RoomInv.completed_of_few (h : RoomInv lib seen leftOut vs) (hfew : FewSince id vs)
    (hc : ∃ v ∈ vs, v.Completes id) : id ∈ leftOut := by
  obtain ⟨v, hv, hvc⟩ := hc
  obtain ⟨encrypted, hafter, hflag⟩ := h.kept id ⟨v, hv, hvc.tracks⟩ hfew
  obtain rfl := hflag ⟨v, hv, hvc⟩
  exact h.completed _ (FifoDict.mem_of_after hafter) rfl

/-- An event that is left out is remembered by the id. -/
theorem RoomInv.id_of_leftOut (h : RoomInv lib seen leftOut vs) {raw : Json}
    (hraw : s.event.eventId? = some raw) (hkey : dictKey raw = .ok id) (hin : id ∈ leftOut) :
    s.id = some id := by
  obtain ⟨v, -, e, -, hid, -⟩ := h.past id hin
  obtain ⟨_, -, htruthy, hother⟩ := key_of_trackedId hid
  exact trackedId_of_key hraw hkey ((truthy_dictKey hother).trans htruthy)

/-- What becomes of one event is sound with regard to the events before. -/
theorem visit_sound (h : RoomInv lib r.known r.leftOut vs) :
    VisitSound lib vs (r.visit lib roomId live s).2 := by
  have hunseen : ∀ {id}, id ∈ r.leftOut → ¬ ∀ u ∈ vs, ¬ u.Completes id := by
    intro id hin hnone
    obtain ⟨u, hu, huc⟩ := h.past id hin
    exact hnone u hu huc
  have hrepeat : ∀ {id}, id ∉ r.leftOut → FewSince id vs → ¬ ∃ u ∈ vs, u.Completes id :=
    fun hnot hfew hc => hnot (h.completed_of_few hfew hc)
  have hdecrypted : ∀ {d}, s.decrypt lib roomId = .ok (some d) →
      s.observed lib roomId = d ∧ d.isMegolm = false := fun hd =>
    ⟨observed_of_decrypt hd, (decrypt_plain hd).1⟩
  have hvisited := visited_visit lib r roomId live s
  generalize r.visit lib roomId live s = after at hvisited ⊢
  cases hvisited with
  | @leftOut raw key hraw hkey hin =>
    -- the event is left out
    have hid : s.id = some key := h.id_of_leftOut hraw hkey hin
    refine ⟨fun _ _ _ _ => ⟨rfl, rfl⟩, fun _ _ _ _ he => ?_, fun id hother hnone => ?_,
      fun _ hnew => ?_⟩
    · obtain ⟨e, he, -⟩ := he
      cases he
    · obtain rfl := Option.some.inj (hid.symm.trans hother)
      exact absurd hnone (hunseen hin)
    · exact absurd (fun u hu huc => hnew key hid u hu (h.id_of_tracks hu huc.tracks)) (hunseen hin)
  | raised hnot hread =>
    -- nothing is delivered, and the event cannot be read
    refine ⟨fun id hid hfew hc => absurd hc (hrepeat (hnot id hid) hfew), fun _ _ _ _ he => ?_,
      fun id hid _ d hd _ => ?_, fun h => absurd h hread⟩
    · obtain ⟨e, he, -⟩ := he
      cases he
    · obtain ⟨raw, hraw, -, hkey⟩ := key_of_trackedId hid
      refine absurd ⟨fun other hother => ?_, ?_⟩ hread
      · obtain rfl := Option.some.inj (hraw.symm.trans hother)
        rw [hkey]
        rfl
      · exact congrArg Except.isOk hd
  | untracked hnot hnone =>
    -- the event is delivered without an id
    refine ⟨fun id hid hfew hc => absurd hc (hrepeat (hnot id hid) hfew), fun _ _ _ _ he => ?_,
      fun _ _ _ d hd htd => ?_, fun _ _ => rfl⟩
    · obtain ⟨e, he, htd, -⟩ := he
      rw [← Option.some.inj he, hnone] at htd
      cases htd
    · rw [(hdecrypted hd).1, htd] at hnone
      cases hnone
  | @repeated applied id hnot htracked hmegolm hin =>
    -- a ciphertext that is known is kept back
    refine ⟨fun id hid hfew hc => absurd hc (hrepeat (hnot id hid) hfew), fun _ _ _ _ he => ?_,
      fun _ _ _ d hd _ => ?_, fun _ hnew => ?_⟩
    · obtain ⟨e, he, -⟩ := he
      cases he
    · obtain ⟨heq, hplain⟩ := hdecrypted hd
      rw [heq, hplain] at hmegolm
      cases hmegolm
    · obtain ⟨p, hp, rfl⟩ := List.mem_map.mp hin
      obtain ⟨u, hu, hut⟩ := h.known p hp
      exact absurd (h.id_of_tracks hu hut) (hnew _ (id_of_observed htracked) u hu)
  | @recorded applied id hnot htracked hfresh =>
    -- an earlier ciphertext with this id would still be in the dictionary
    refine ⟨fun id hid hfew hc => absurd hc (hrepeat (hnot id hid) hfew),
      fun other hother hfew hc he => ?_, fun _ _ _ d hd _ => congrArg some (hdecrypted hd).1,
      fun _ _ => rfl⟩
    obtain rfl := Option.some.inj ((id_of_observed htracked).symm.trans hother)
    obtain ⟨e, he, -, hmegolm⟩ := he
    rw [← Option.some.inj he] at hmegolm
    obtain ⟨u, hu, e', he', hid', -⟩ := hc
    obtain ⟨encrypted, hafter, -⟩ := h.kept _ ⟨u, hu, e', he', hid'⟩ hfew
    exact hfresh hmegolm (List.mem_map.mpr ⟨_, FifoDict.mem_of_after hafter, rfl⟩)

theorem exists_concat {p : Visit ρ → Prop} {v : Visit ρ} (h : ∃ u ∈ vs, p u) : ∃ u ∈ vs ++ [v], p u := by
  obtain ⟨u, hu, hpu⟩ := h
  exact ⟨u, List.mem_append_left _ hu, hpu⟩

theorem exists_of_concat {p : Visit ρ → Prop} {v : Visit ρ} (h : ∃ u ∈ vs ++ [v], p u) :
    (∃ u ∈ vs, p u) ∨ p v := by
  obtain ⟨u, hu, hpu⟩ := h
  rcases List.mem_append.mp hu with hu | hu
  · exact Or.inl ⟨u, hu, hpu⟩
  · exact Or.inr (List.mem_singleton.mp hu ▸ hpu)

theorem RoomInv.observed_concat (h : RoomInv lib seen leftOut vs) {v : Visit ρ}
    (hobserved : ∀ e ∈ v.delivered, e = v.sighting.observed lib v.roomId) :
    ∀ u ∈ vs ++ [v], ∀ e ∈ u.delivered, e = u.sighting.observed lib u.roomId := by
  intro u hu
  rcases List.mem_append.mp hu with hu | hu
  · exact h.observed u hu
  · rw [List.mem_singleton.mp hu]
    exact hobserved

/-- An id that is set is remembered from its first sighting on. -/
theorem RoomInv.after_self (h : RoomInv lib seen leftOut vs) {v : Visit ρ} {encrypted : Bool}
    (hfew : FewSince id vs) :
    (seen.set seenSize id encrypted).After id encrypted (othersSince id (vs ++ [v])) := by
  by_cases hpast : ∃ u ∈ vs, u.Tracks id
  · obtain ⟨flag, hafter, -⟩ := h.kept id hpast hfew
    exact (FifoDict.after_set_self h.bounded hafter).mono (othersSince_subset id vs v)
  · have hnew : id ∉ seen.map Prod.fst := by
      intro hin
      obtain ⟨p, hp, rfl⟩ := List.mem_map.mp hin
      exact hpast (h.known p hp)
    exact (FifoDict.after_set_new seenSize_pos h.bounded hnew).mono (List.nil_subset _)

/-- Setting another id pushes it out only after as many ids as are remembered. -/
theorem RoomInv.after_other (h : RoomInv lib seen leftOut vs) {v : Visit ρ} {encrypted flag : Bool}
    {other : Json} (hid : v.id = some id) (hne : id ≠ other) (hpast : ∃ u ∈ vs, u.Tracks other)
    (hafter : seen.After other flag (othersSince other vs)) (hfew : FewSince other (vs ++ [v])) :
    (seen.set seenSize id encrypted).After other flag (othersSince other (vs ++ [v])) := by
  have hseen : ∃ u ∈ vs, u.id = some other := by
    obtain ⟨u, hu, hut⟩ := hpast
    exact ⟨u, hu, h.id_of_tracks hu hut⟩
  exact FifoDict.after_set_other h.bounded (hafter.mono (othersSince_subset other vs v)) hne
    (mem_othersSince hseen hid hne) hfew

/-- An event that is not recorded -/
theorem roomInv_untracked (h : RoomInv lib seen leftOut vs) {v : Visit ρ}
    (hobserved : ∀ e ∈ v.delivered, e = v.sighting.observed lib v.roomId)
    (hnone : ∀ e ∈ v.delivered, trackedId e = none) :
    RoomInv lib seen leftOut (vs ++ [v]) := by
  have htracks : ∀ id, ¬ v.Tracks id := by
    rintro id ⟨e, he, hid⟩
    rw [hnone e he] at hid
    cases hid
  refine ⟨h.bounded, h.observed_concat hobserved, fun p hp => exists_concat (h.known p hp),
    fun id hid => exists_concat (h.past id hid), h.completed, fun id ht hfew => ?_⟩
  have hold := (exists_of_concat ht).resolve_right (htracks id)
  obtain ⟨encrypted, hafter, hflag⟩ := h.kept id hold hfew.before
  refine ⟨encrypted, hafter.mono (othersSince_subset id vs v), fun hc => hflag ?_⟩
  exact (exists_of_concat hc).resolve_right fun hvc => htracks id hvc.tracks

/-- An event that is recorded, and delivered unless it is a ciphertext that was there -/
theorem roomInv_tracked (h : RoomInv lib seen leftOut vs) {v : Visit ρ} {encrypted : Bool}
    {completed : List Json} (hid : v.id = some id) (hnot : id ∉ leftOut)
    (hobserved : ∀ e ∈ v.delivered, e = v.sighting.observed lib v.roomId)
    (htracked : trackedId (v.sighting.observed lib v.roomId) = some id)
    (hmegolm : (v.sighting.observed lib v.roomId).isMegolm = encrypted)
    (hdelivered : v.Tracks id ∨ encrypted = true ∧ id ∈ seen.map Prod.fst)
    (hcompleted : completed = if encrypted then leftOut else id :: leftOut) :
    RoomInv lib (seen.set seenSize id encrypted) completed (vs ++ [v]) := by
  have honly : ∀ other, v.Tracks other → other = id := by
    rintro other ⟨e, he, hother⟩
    rw [hobserved e he, htracked] at hother
    exact (Option.some.inj hother).symm
  have hplain : ∀ other, v.Completes other → encrypted = false := by
    rintro other ⟨e, he, -, hclear⟩
    rw [hobserved e he, hmegolm] at hclear
    exact hclear
  have hold : ∀ p ∈ seen, ∃ u ∈ vs ++ [v], u.Tracks p.1 := fun p hp =>
    exists_concat (h.known p hp)
  have hself : ∃ u ∈ vs ++ [v], u.Tracks id := by
    rcases hdelivered with hv | ⟨-, hin⟩
    · exact ⟨v, by simp, hv⟩
    · obtain ⟨p, hp, rfl⟩ := List.mem_map.mp hin
      exact hold p hp
  have hgrows : leftOut ⊆ completed := by
    rw [hcompleted]
    split
    · exact List.Subset.refl _
    · exact List.subset_cons_self _ _
  have hbounded : (seen.set seenSize id encrypted).Bounded seenSize :=
    FifoDict.bounded_set h.bounded
  refine ⟨hbounded, h.observed_concat hobserved, fun p hp => ?_, fun other hother => ?_,
    fun p hp hp2 => ?_, fun other ht hfew => ?_⟩
  · rcases FifoDict.mem_set hp with rfl | hp
    · exact hself
    · exact hold p hp
  · -- what is left out was delivered in clear
    cases encrypted with
    | true =>
      rw [hcompleted, if_pos rfl] at hother
      exact exists_concat (h.past other hother)
    | false =>
      rw [hcompleted, if_neg (by simp)] at hother
      rcases List.mem_cons.mp hother with rfl | hother
      · obtain ⟨e, he, htd⟩ := hdelivered.resolve_right fun hd => nomatch hd.1
        exact ⟨v, by simp, e, he, htd, by rw [hobserved e he, hmegolm]⟩
      · exact exists_concat (h.past other hother)
  · rcases FifoDict.mem_set hp with rfl | hp
    · dsimp only at hp2 ⊢
      rw [hcompleted, hp2, if_neg (by simp)]
      exact List.mem_cons_self
    · exact hgrows (h.completed p hp hp2)
  · by_cases hsame : other = id
    · subst hsame
      refine ⟨encrypted, h.after_self hfew.before, fun hc => ?_⟩
      rcases exists_of_concat hc with hc | hc
      · exact absurd (h.completed_of_few hfew.before hc) hnot
      · exact hplain other hc
    · have hpast := (exists_of_concat ht).resolve_right fun hv => hsame (honly other hv)
      obtain ⟨flag, hafter, hflag⟩ := h.kept other hpast hfew.before
      refine ⟨flag, h.after_other hid (Ne.symm hsame) hpast hafter hfew, fun hc => hflag ?_⟩
      exact (exists_of_concat hc).resolve_right fun hv => hsame (honly other hv.tracks)

/-- One event keeps what the client remembers. -/
theorem roomInv_visit (h : RoomInv lib r.known r.leftOut vs) :
    RoomInv lib (r.visit lib roomId live s).1.known (r.visit lib roomId live s).1.leftOut
      (vs ++ [(r.visit lib roomId live s).2]) := by
  have hvisited := visited_visit lib r roomId live s
  generalize r.visit lib roomId live s = after at hvisited ⊢
  cases hvisited with
  | leftOut => exact roomInv_untracked h (fun e he => nomatch he) fun e he => nomatch he
  | raised hnot hread hknown hleft =>
    rw [hknown, hleft]
    exact roomInv_untracked h (fun e he => nomatch he) fun e he => nomatch he
  | untracked hnot hnone =>
    refine roomInv_untracked h (fun e he => (Option.some.inj he).symm) fun e he => ?_
    rw [← Option.some.inj he]
    exact hnone
  | repeated hnot htracked hmegolm hin =>
    rw [RoomSeen.known_some]
    exact roomInv_tracked h (id_of_observed htracked) (hnot _ (id_of_observed htracked))
      (fun e he => nomatch he) htracked hmegolm (Or.inr ⟨rfl, hin⟩) rfl
  | @recorded applied id hnot htracked hfresh =>
    rw [RoomSeen.known_some, RoomSeen.leftOut_mk]
    refine roomInv_tracked h (id_of_observed htracked) (hnot _ (id_of_observed htracked))
      (fun e he => (Option.some.inj he).symm) htracked rfl
      (Or.inl ⟨s.observed lib roomId, rfl, htracked⟩) ?_
    split <;> rfl

/-- A response begins with the ids that are not encrypted. -/
theorem roomInv_start (h : RoomInv lib seen leftOut vs) : RoomInv lib seen (completedOf seen) vs := by
  have hmem : ∀ p ∈ seen, p.2 = false → p.1 ∈ completedOf seen := by
    intro p hp hp2
    exact List.mem_map.mpr ⟨p, List.mem_filter.mpr ⟨hp, by simp [hp2]⟩, rfl⟩
  refine ⟨h.bounded, h.observed, h.known, fun id hid => ?_, hmem, h.kept⟩
  obtain ⟨p, hp, rfl⟩ := List.mem_map.mp hid
  obtain ⟨hp, hp2⟩ := List.mem_filter.mp hp
  exact h.past p.1 (h.completed p hp (by simpa using hp2))

theorem roomInv_new : RoomInv lib [] [] [] := by
  refine ⟨⟨List.nodup_nil, Nat.zero_le _⟩, ?_, ?_, ?_, ?_, fun id ht => ?_⟩
  · exact List.forall_mem_nil _
  · exact List.forall_mem_nil _
  · exact List.forall_mem_nil _
  · exact List.forall_mem_nil _
  · obtain ⟨u, hu, -⟩ := ht
    cases hu

theorem allSound_concat {v : Visit ρ} (h : AllSound lib vs) (hv : VisitSound lib vs v) :
    AllSound lib (vs ++ [v]) := by
  intro before u after heq
  rcases List.eq_nil_or_concat after with rfl | ⟨after', last, rfl⟩
  · obtain ⟨rfl, hlast⟩ := List.append_inj' heq rfl
    obtain rfl := (List.cons.inj hlast).1
    exact hv
  · rw [List.concat_eq_append, ← List.cons_append, ← List.append_assoc] at heq
    obtain ⟨rfl, -⟩ := List.append_inj' heq rfl
    exact h before u after' rfl

theorem visit_snd (r : RoomSeen) (roomId : Str) (live : Bool) (s : Sighting ρ) :
    (r.visit lib roomId live s).2.sighting = s ∧ (r.visit lib roomId live s).2.roomId = roomId ∧
      (s.Readable lib roomId → (r.visit lib roomId live s).2.raised = none) := by
  have hvisited := visited_visit lib r roomId live s
  generalize r.visit lib roomId live s = after at hvisited ⊢
  cases hvisited with
  | raised hnot hread => exact ⟨rfl, rfl, fun h => absurd h hread⟩
  | _ => exact ⟨rfl, rfl, fun _ => rfl⟩

/-- The events of a timeline -/
theorem roomInv_visits (h : RoomInv lib r.known r.leftOut vs) (hsound : AllSound lib vs)
    (timeline : List (Bool × Sighting ρ)) :
    RoomInv lib (RoomSeen.visits lib roomId r timeline).1.known
        (RoomSeen.visits lib roomId r timeline).1.leftOut
        (vs ++ (RoomSeen.visits lib roomId r timeline).2) ∧
      AllSound lib (vs ++ (RoomSeen.visits lib roomId r timeline).2) := by
  induction timeline generalizing r vs with
  | nil =>
    rw [RoomSeen.visits, List.append_nil]
    exact ⟨h, hsound⟩
  | cons p rest ih =>
    obtain ⟨live, s⟩ := p
    have hinv := @roomInv_visit _ _ _ _ roomId live s h
    have hconcat : AllSound lib (vs ++ [(r.visit lib roomId live s).2]) :=
      allSound_concat hsound (visit_sound h)
    rw [RoomSeen.visits]
    dsimp only
    split
    · exact ⟨hinv, hconcat⟩
    · have hrest := ih hinv hconcat
      dsimp only
      rw [List.append_cons]
      exact hrest

theorem roomId_visits (r : RoomSeen) (timeline : List (Bool × Sighting ρ)) :
    ∀ v ∈ (RoomSeen.visits lib roomId r timeline).2, v.roomId = roomId := by
  induction timeline generalizing r with
  | nil => exact List.forall_mem_nil _
  | cons p rest ih =>
    obtain ⟨live, s⟩ := p
    have hroom := (@visit_snd _ lib r roomId live s).2.1
    rw [RoomSeen.visits]
    dsimp only
    split
    · exact List.forall_mem_singleton.mpr hroom
    · exact List.forall_mem_cons.mpr ⟨hroom, ih _⟩

/-- The events of a timeline are gone through until one raises, which no event does that can be
read. -/
theorem sightings_visits (r : RoomSeen) (timeline : List (Bool × Sighting ρ)) :
    (RoomSeen.visits lib roomId r timeline).2.map Visit.sighting <+: timeline.map Prod.snd ∧
    (((RoomSeen.visits lib roomId r timeline).2.any fun v => v.raised.isSome) = false →
      (RoomSeen.visits lib roomId r timeline).2.map Visit.sighting = timeline.map Prod.snd) ∧
    ((∀ s ∈ timeline.map Prod.snd, s.Readable lib roomId) →
      ((RoomSeen.visits lib roomId r timeline).2.any fun v => v.raised.isSome) = false) := by
  induction timeline generalizing r with
  | nil => exact ⟨List.prefix_rfl, fun _ => rfl, fun _ => rfl⟩
  | cons p rest ih =>
    obtain ⟨live, s⟩ := p
    obtain ⟨hsighting, -, hraised⟩ := @visit_snd _ lib r roomId live s
    obtain ⟨hpre, hall, hread⟩ := ih (r.visit lib roomId live s).1
    rw [RoomSeen.visits]
    dsimp only
    split
    · next hsome =>
      refine ⟨?_, fun hnone => ?_, fun h => ?_⟩
      · rw [List.map_singleton, hsighting]
        exact List.prefix_append [s] _
      · rw [List.any_cons, hsome] at hnone
        cases hnone
      · rw [hraised (h s List.mem_cons_self)] at hsome
        cases hsome
    · next hnone =>
      rw [List.map_cons, List.map_cons, hsighting, List.any_cons, Bool.eq_false_of_not_eq_true hnone,
        Bool.false_or]
      refine ⟨List.prefix_cons_inj s |>.mpr hpre, fun h => congrArg (s :: ·) (hall h),
        fun h => hread fun u hu => h u (List.mem_cons_of_mem _ hu)⟩

end Step

/-! ## Whole runs -/

section Run

variable {c : OrdinarySliding} {completed : Str → Option (List Json)}
  {before : List (SlidingEffect ρ)}

theorem visitsOf_append (roomId : Str) (xs ys : List (SlidingEffect ρ)) :
    visitsOf roomId (xs ++ ys) = visitsOf roomId xs ++ visitsOf roomId ys :=
  List.filterMap_append

theorem visitsOf_state (roomId other : Str) (entries : List (SlidingSyncStateStub ⊕ RoomEvent)) :
    visitsOf roomId (entries.map (@SlidingEffect.state ρ other)) = [] := by
  unfold visitsOf
  rw [List.filterMap_map]
  exact List.filterMap_eq_nil_iff.mpr fun _ _ => rfl

theorem visitsOf_visits (roomId : Str) {other : Str} {vs : List (Visit ρ)}
    (h : ∀ v ∈ vs, v.roomId = other) :
    visitsOf roomId (vs.map SlidingEffect.visit) = if roomId = other then vs else [] := by
  unfold visitsOf
  rw [List.filterMap_map]
  split
  · next heq =>
    refine (List.filterMap_congr fun v hv => ?_).trans List.filterMap_some
    exact if_pos ((h v hv).trans heq.symm)
  · next hne =>
    refine List.filterMap_eq_nil_iff.mpr fun v hv => ?_
    exact if_neg fun heq => hne (heq.symm.trans (h v hv))

theorem raises_visits (vs : List (Visit ρ)) :
    (vs.map SlidingEffect.visit).any SlidingEffect.raises = vs.any fun v => v.raised.isSome :=
  List.any_map

theorem raises_state (other : Str) (entries : List (SlidingSyncStateStub ⊕ RoomEvent)) :
    (entries.map (@SlidingEffect.state ρ other)).any SlidingEffect.raises = false := by
  rw [List.any_map]
  exact List.any_eq_false.mpr fun _ _ => Bool.false_ne_true

/-- What a room of a response does is what its timeline does, if that is gone through at all. -/
theorem handleRoom_cases (lib : Vodozemac ρ) (c : OrdinarySliding)
    (completed : Str → Option (List Json)) (roomId : Str) (w : RoomWindow ρ) :
    ((w.invited = true ∨ w.leaving = true) ∧
      (c.handleRoom lib completed roomId w).1.slidingSeenEvents = c.slidingSeenEvents ∧
      (c.handleRoom lib completed roomId w).2 = (completed, [])) ∨
    (w.invited = false ∧ w.leaving = false) ∧ ∃ r vs,
      RoomSeen.visits lib roomId ⟨c.slidingSeenEvents roomId, completed roomId⟩ w.sightings = (r, vs) ∧
      (c.handleRoom lib completed roomId w).1.slidingSeenEvents =
        Function.update c.slidingSeenEvents roomId r.seen ∧
      (c.handleRoom lib completed roomId w).2.1 = Function.update completed roomId r.completed ∧
      (∀ other, visitsOf other (c.handleRoom lib completed roomId w).2.2 =
        if other = roomId then vs else []) ∧
      (c.handleRoom lib completed roomId w).2.2.any SlidingEffect.raises =
        vs.any fun v => v.raised.isSome := by
  unfold OrdinarySliding.handleRoom
  split
  · next hinvited => exact Or.inl ⟨Or.inl hinvited, rfl, rfl⟩
  next hinvited =>
  split
  · next hleaving => exact Or.inl ⟨Or.inr hleaving, rfl, rfl⟩
  next hleaving =>
  refine Or.inr ⟨⟨Bool.eq_false_of_not_eq_true hinvited, Bool.eq_false_of_not_eq_true hleaving⟩, ?_⟩
  have hids := @roomId_visits _ lib roomId ⟨c.slidingSeenEvents roomId, completed roomId⟩ w.sightings
  generalize RoomSeen.visits lib roomId ⟨c.slidingSeenEvents roomId, completed roomId⟩ w.sightings =
    result at hids ⊢
  obtain ⟨r, vs⟩ := result
  refine ⟨r, vs, rfl, rfl, rfl, fun other => ?_, ?_⟩
  · dsimp only
    split
    · rw [visitsOf_append, visitsOf_state, visitsOf_visits other hids, List.nil_append]
    · split
      · exact visitsOf_visits other hids
      · rw [visitsOf_append, visitsOf_state, visitsOf_visits other hids, List.append_nil]
  · dsimp only
    split
    · rw [List.any_append, raises_state, raises_visits, Bool.false_or]
    · split
      · exact raises_visits vs
      · rw [List.any_append, raises_state, raises_visits, Bool.or_false]

/-- What the client remembers is about the past of each room, which was sound. -/
structure ClientInv (lib : Vodozemac ρ) (c : OrdinarySliding)
    (completed : Str → Option (List Json)) (before : List (SlidingEffect ρ)) : Prop where
  rooms : ∀ roomId, RoomInv lib ((c.slidingSeenEvents roomId).getD [])
    ((completed roomId).getD []) (visitsOf roomId before)
  sound : ∀ roomId, AllSound lib (visitsOf roomId before)

theorem clientInv_handleRoom (h : ClientInv lib c completed before) (roomId : Str)
    (w : RoomWindow ρ) :
    ClientInv lib (c.handleRoom lib completed roomId w).1 (c.handleRoom lib completed roomId w).2.1
      (before ++ (c.handleRoom lib completed roomId w).2.2) := by
  rcases handleRoom_cases lib c completed roomId w with ⟨-, hseen, heq⟩ |
    ⟨-, r, vs, hresult, hseen, hcompleted, hvisits, -⟩
  · rw [heq, List.append_nil]
    refine ⟨fun other => ?_, h.sound⟩
    rw [hseen]
    exact h.rooms other
  · have hroom := @roomInv_visits _ _ ⟨c.slidingSeenEvents roomId, completed roomId⟩ _ roomId
      (h.rooms roomId) (h.sound roomId) w.sightings
    rw [hresult] at hroom
    refine ⟨fun other => ?_, fun other => ?_⟩
    · rw [visitsOf_append, hvisits, hseen, hcompleted]
      by_cases hother : other = roomId
      · subst hother
        rw [if_pos rfl, Function.update_self, Function.update_self]
        exact hroom.1
      · rw [if_neg hother, List.append_nil, Function.update_of_ne hother,
          Function.update_of_ne hother]
        exact h.rooms other
    · rw [visitsOf_append, hvisits]
      by_cases hother : other = roomId
      · subst hother
        rw [if_pos rfl]
        exact hroom.2
      · rw [if_neg hother, List.append_nil]
        exact h.sound other

theorem clientInv_handleRooms (h : ClientInv lib c completed before)
    (rooms : List (Str × RoomWindow ρ)) :
    ∃ completed', ClientInv lib (c.handleRooms lib completed rooms).1 completed'
      (before ++ (c.handleRooms lib completed rooms).2) := by
  induction rooms generalizing c completed before with
  | nil =>
    rw [OrdinarySliding.handleRooms, List.append_nil]
    exact ⟨completed, h⟩
  | cons p rest ih =>
    obtain ⟨roomId, w⟩ := p
    have hroom := clientInv_handleRoom h roomId w
    rw [OrdinarySliding.handleRooms]
    dsimp only
    split
    · exact ⟨_, hroom⟩
    · dsimp only
      rw [← List.append_assoc]
      exact ih hroom

theorem clientInv_handleSync (h : ClientInv lib c completed before)
    (rooms : List (Str × RoomWindow ρ)) :
    ∃ completed', ClientInv lib (c.handleSync lib rooms).1 completed'
      (before ++ (c.handleSync lib rooms).2) := by
  refine clientInv_handleRooms ⟨fun roomId => ?_, h.sound⟩ rooms
  have hstart := roomInv_start (h.rooms roomId)
  cases hseen : c.slidingSeenEvents roomId with
  | none =>
    rw [hseen] at hstart
    exact hstart
  | some seen =>
    rw [hseen] at hstart
    exact hstart

theorem sound_effects (h : ClientInv lib c completed before)
    (responses : List (List (Str × RoomWindow ρ))) (roomId : Str) :
    AllSound lib (visitsOf roomId (before ++ (c.effects lib responses).flatten)) := by
  induction responses generalizing c completed before with
  | nil =>
    rw [OrdinarySliding.effects, List.flatten_nil, List.append_nil]
    exact h.sound roomId
  | cons rooms rest ih =>
    obtain ⟨completed', hnext⟩ := clientInv_handleSync h rooms
    rw [OrdinarySliding.effects, List.flatten_cons, ← List.append_assoc]
    exact ih hnext

/-! ### Every event of the windows is seen -/

theorem sightings_snd (w : RoomWindow ρ) : w.sightings.map Prod.snd = w.timeline := by
  unfold RoomWindow.sightings
  rw [List.map_map]
  exact List.zipIdx_map_fst 0 w.timeline

theorem shown_singleton (roomId other : Str) (w : RoomWindow ρ) :
    shown roomId [(other, w)] =
      if other = roomId ∧ w.invited = false ∧ w.leaving = false then w.timeline else [] :=
  List.flatMap_singleton _ _

/-- The events of one window -/
theorem allSeen_handleRoom (lib : Vodozemac ρ) (c : OrdinarySliding)
    (completed : Str → Option (List Json)) (roomId other : Str) (w : RoomWindow ρ) :
    (visitsOf roomId (c.handleRoom lib completed other w).2.2).map Visit.sighting <+:
      shown roomId [(other, w)] ∧
    ((c.handleRoom lib completed other w).2.2.any SlidingEffect.raises = false →
      (visitsOf roomId (c.handleRoom lib completed other w).2.2).map Visit.sighting =
        shown roomId [(other, w)]) ∧
    ((∀ s ∈ shown other [(other, w)], s.Readable lib other) →
      (c.handleRoom lib completed other w).2.2.any SlidingEffect.raises = false) := by
  rcases handleRoom_cases lib c completed other w with ⟨hskipped, -, heq⟩ |
    ⟨hgone, r, vs, hresult, -, -, hvisits, hraises⟩
  · have hnot : ¬(other = roomId ∧ w.invited = false ∧ w.leaving = false) := by
      rintro ⟨-, hinvited, hleaving⟩
      rw [hinvited, hleaving] at hskipped
      simp at hskipped
    rw [heq, shown_singleton, if_neg hnot]
    exact ⟨List.prefix_rfl, fun _ => rfl, fun _ => rfl⟩
  · have hself : shown other [(other, w)] = w.timeline := by
      rw [shown_singleton, if_pos ⟨rfl, hgone⟩]
    obtain ⟨hpre, hall, hread⟩ := @sightings_visits _ lib other
      ⟨c.slidingSeenEvents other, completed other⟩ w.sightings
    rw [hresult, sightings_snd] at hpre hall hread
    rw [hvisits, hraises, hself]
    by_cases hroom : roomId = other
    · subst hroom
      rw [if_pos rfl, hself]
      exact ⟨hpre, hall, hread⟩
    · rw [if_neg hroom]
      refine ⟨List.nil_prefix, fun _ => ?_, hread⟩
      rw [shown_singleton, if_neg fun h => hroom h.1.symm]
      rfl

theorem allSeen_handleRooms (lib : Vodozemac ρ) (c : OrdinarySliding)
    (completed : Str → Option (List Json)) (roomId : Str) (rooms : List (Str × RoomWindow ρ)) :
    AllSeen lib roomId rooms (c.handleRooms lib completed rooms).2 := by
  induction rooms generalizing c completed with
  | nil => exact ⟨List.prefix_rfl, fun _ => rfl⟩
  | cons p rest ih =>
    obtain ⟨other, w⟩ := p
    have hshown : ∀ id, shown id ((other, w) :: rest) = shown id [(other, w)] ++ shown id rest :=
      fun id => @List.flatMap_append _ _ [(other, w)] rest _
    obtain ⟨hpre, hall, hread⟩ := allSeen_handleRoom lib c completed roomId other w
    have hhere : (∀ id, ∀ s ∈ shown id ((other, w) :: rest), s.Readable lib id) →
        (c.handleRoom lib completed other w).2.2.any SlidingEffect.raises = false := fun h =>
      hread fun s hs => h other s (hshown other ▸ List.mem_append_left _ hs)
    rw [OrdinarySliding.handleRooms]
    dsimp only
    split
    · next hraises =>
      refine ⟨?_, fun h => ?_⟩
      · rw [hshown]
        exact hpre.trans (List.prefix_append _ _)
      · rw [hhere h] at hraises
        cases hraises
    · next hraises =>
      have hfirst := hall (Bool.eq_false_of_not_eq_true hraises)
      have hrest := ih (c.handleRoom lib completed other w).1 (c.handleRoom lib completed other w).2.1
      refine ⟨?_, fun h => ?_⟩
      · rw [hshown, visitsOf_append, List.map_append, hfirst]
        exact (List.prefix_append_right_inj _).mpr hrest.inOrder
      · rw [hshown, visitsOf_append, List.map_append, hfirst]
        exact congrArg _ (hrest.complete fun id s hs =>
          h id s (hshown id ▸ List.mem_append_right _ hs))

theorem allSeen_effects (lib : Vodozemac ρ) (c : OrdinarySliding) (roomId : Str)
    (responses : List (List (Str × RoomWindow ρ))) :
    List.Forall₂ (AllSeen lib roomId) responses (c.effects lib responses) := by
  induction responses generalizing c with
  | nil => exact .nil
  | cons rooms rest ih => exact .cons (allSeen_handleRooms lib c _ roomId rooms) (ih _)

/-- In every run from a new client, the events of the windows of a room are seen in order, and all of
them unless one of the response cannot be read; what becomes of each is sound with regard to the
events of its room before. -/
theorem slidingDelivery_sound (lib : Vodozemac ρ) (responses : List (List (Str × RoomWindow ρ)))
    (roomId : Str) :
    List.Forall₂ (AllSeen lib roomId) responses (OrdinarySliding.new.effects lib responses) ∧
    AllSound lib (visitsOf roomId (OrdinarySliding.new.effects lib responses).flatten) := by
  refine ⟨allSeen_effects lib .new roomId responses, ?_⟩
  have hnew : ClientInv lib .new (fun _ => none) [] :=
    ⟨fun _ => roomInv_new, fun _ before v after h => by cases before <;> cases h⟩
  exact sound_effects hnew responses roomId

/-- Where every event can be read, the client sees all events of the windows of a room. -/
theorem allSeen_flatten {roomId : Str} {responses : List (List (Str × RoomWindow ρ))}
    {effects : List (List (SlidingEffect ρ))}
    (h : List.Forall₂ (AllSeen lib roomId) responses effects)
    (hread : ∀ rooms ∈ responses, ∀ other, ∀ s ∈ shown other rooms, s.Readable lib other) :
    (visitsOf roomId effects.flatten).map Visit.sighting = responses.flatMap (shown roomId) := by
  induction h with
  | nil => rfl
  | @cons rooms effect responses effects hseen _ ih =>
    rw [List.flatten_cons, visitsOf_append, List.map_append, List.flatMap_cons,
      hseen.complete (hread rooms List.mem_cons_self),
      ih fun rooms' hrooms' => hread rooms' (List.mem_cons_of_mem _ hrooms')]

/-! ## A key that arrives between two windows -/

/-- A live window of a joined room -/
def liveWindow (requiredState : List RoomEvent) (timeline : List (Sighting Nat)) :
    RoomWindow Nat :=
  ⟨some (py "join"), false, false, false, none, requiredState.map .inr, timeline⟩

/-- A name event, and one that lacks its sender -/
def roomNameSource (sender : List (Str × Json)) : Json :=
  .obj (sender ++ [(py "event_id", .str (py "$n")), (py "type", .str (py "m.room.name")),
    (py "origin_server_ts", .int 1), (py "state_key", .str []),
    (py "content", .obj [(py "name", .str (py "n"))])])

def namedRoomSource : Json := roomNameSource [(py "sender", .str (py "@a:x"))]

def namedEvent : RoomEvent :=
  .event ⟨namedRoomSource, .str (py "$n"), .str (py "@a:x"), .int 1⟩ (.roomName (.str (py "n"))) none

def senderlessEvent : RoomEvent := .bad (.unknownBadEvent (roomNameSource [])) none

/-- A ciphertext of Bob -/
def ciphertextOfBob : RoomEvent :=
  .event ⟨.obj [(py "content", .obj [])], .str (py "$a"), .str (py "@bob:x"), .int 1⟩
    (.megolm (.str (py "curve")) (.str (py "Sxx")) (.str (py "D"))
      (.str (py "\x7b\"type\":\"a\",\"content\":\x7b\x7d\x7d")) (.str (py "m.megolm.v1.aes-sha2")) none)
    none

/-- The machine before Bob's session arrives, and after -/
def beforeKey : MegolmView Nat := { (bobsEvent "$a").view with inboundGroupStore := [] }

def afterKey : MegolmView Nat := (bobsEvent "$a").view

/-- Four windows that overlap; the session arrives after the second. -/
def overlappingWindows : List (List (Sighting Nat)) :=
  [[⟨namedEvent, none⟩, ⟨ciphertextOfBob, some (beforeKey, .fresh)⟩],
    [⟨ciphertextOfBob, some (beforeKey, .fresh)⟩, ⟨namedEvent, none⟩],
    [⟨ciphertextOfBob, some (afterKey, .fresh)⟩], [⟨ciphertextOfBob, some (afterKey, .fresh)⟩]]

def overlappingResponses : List (List (Str × RoomWindow Nat)) :=
  overlappingWindows.map fun timeline => [(py "!a:x", liveWindow [] timeline)]

/-- Whether an event that is delivered is encrypted -/
def Visit.mark (v : Visit ρ) : Option Bool := v.delivered.map RoomEvent.isMegolm

/-- The name is delivered once, and the event of Bob once as a ciphertext and once decrypted. -/
theorem slidingDelivery_overlapping :
    (visitsOf (py "!a:x") (OrdinarySliding.new.effects unaryLibrary overlappingResponses).flatten).map
      Visit.mark = [some false, some true, none, none, some false, none] ∧
    (visitsOf (py "!a:x") (OrdinarySliding.new.effects unaryLibrary overlappingResponses).flatten).map
      Visit.sighting = overlappingWindows.flatten ∧
    AllSound unaryLibrary (visitsOf (py "!a:x")
      (OrdinarySliding.new.effects unaryLibrary overlappingResponses).flatten) := by
  obtain ⟨hseen, hsound⟩ := slidingDelivery_sound unaryLibrary overlappingResponses (py "!a:x")
  refine ⟨by decide +kernel, (allSeen_flatten hseen fun rooms hrooms other s hs => ?_).trans rfl, hsound⟩
  obtain ⟨timeline, htimeline, rfl⟩ := List.mem_map.mp hrooms
  rw [shown_singleton] at hs
  split at hs
  · next hroom =>
    have hread : ∀ timeline ∈ overlappingWindows, ∀ s ∈ timeline,
        s.Readable unaryLibrary (py "!a:x") := by decide +kernel
    exact hroom.1 ▸ hread timeline htimeline s hs
  · cases hs

/-- For each effect whether it is a state entry, an event that is delivered, and one that is
applied -/
def SlidingEffect.marks : SlidingEffect ρ → Bool × Bool × Bool
  | .state _ _ => (true, false, true)
  | .visit v => (false, v.delivered.isSome, v.applied)

/-- The windows of one room, one a response, and what they do -/
def marksOf (windows : List (RoomWindow Nat)) : List (Bool × Bool × Bool) :=
  (OrdinarySliding.new.effects unaryLibrary
    (windows.map fun w => [(py "!r:x", w)])).flatten.map SlidingEffect.marks

/-- An event whose parser found no id is delivered from every window, and the state of an event that
was delivered is applied again when a snapshot repeats it. -/
theorem window_repeats :
    parseEvent (roomNameSource []) = .ok senderlessEvent ∧ parseEvent namedRoomSource = .ok namedEvent ∧
    marksOf [liveWindow [] [⟨senderlessEvent, none⟩], liveWindow [] [⟨senderlessEvent, none⟩]] =
      [(false, true, false), (false, true, false)] ∧
    marksOf [liveWindow [] [⟨namedEvent, none⟩], liveWindow [namedEvent] [⟨namedEvent, none⟩]] =
      [(false, true, true), (false, false, false), (true, false, true)] := by
  refine ⟨rfl, rfl, ?_, ?_⟩
  · decide +kernel
  · decide +kernel

end Run

end Nio.Rooms
