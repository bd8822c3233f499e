import Nio.Rooms.StateEvents

/-!
# Room state by type and state key

The events that the parser accepts carry their state key, and a room that follows a run in which
only spaces have several state keys has the fields that the last events specify.

* `wellKeyed_of_parsed` — what the parser accepts has a state key
* `fields_run` — the fields after a run
* `state_by_key` — the same for the events of the parser, and that events of different keys commute
-/

namespace Nio.Rooms

open Nio.Py
open Nio.Py.Schema
open Nio.Events
open Nio.Schemas (stateContent)

/-! ## What a parser returns -/

/-- Whatever the call returns has the property. -/
def Yields {α : Type} (P : α → Prop) (x : Except PyError α) : Prop := ∀ a, x = .ok a → P a

section

variable {α β : Type} {P : β → Prop}

theorem yields_pure {b : β} (h : P b) : Yields P (pure b) := by
  intro a ha
  obtain rfl := Except.ok.inj ha
  exact h

/-- What a bind yields is what its second part yields. -/
theorem yields_bind {x : Except PyError α} {f : α → Except PyError β}
    (h : ∀ a, x = .ok a → Yields P (f a)) : Yields P (x >>= f) := by
  intro b hb
  obtain ⟨a, ha, hf⟩ := bind_eq_ok.mp hb
  exact h a ha b hf

/-- A verified event yields its bad form or what is parsed. -/
theorem yields_verify {schema : Schema} {bad : BadEventType → β} {parse : Json → Except PyError β}
    {event : Json} (hbad : ∀ b, P (bad b))
    (h : ∀ w, schema event = some w → Yields P (parse w)) :
    Yields P (verify schema bad parse event) := by
  unfold verify
  cases hs : schema event with
  | none =>
    intro b hb
    cases hr : badOrUnknown event with
    | error e => rw [hr] at hb; cases hb
    | ok r =>
      rw [hr] at hb
      obtain rfl := Except.ok.inj hb
      exact hbad r
  | some w => exact h w hs

end

/-! ## Classes that are no state -/

/-- A class that the room does not keep. -/
def Stateless : RoomEvent → Prop
  | .bad _ _ => True
  | .event _ cls _ => stateType? cls = none

/-- An event without state is well keyed. -/
theorem Stateless.wellKeyed {e : RoomEvent} (h : Stateless e) : WellKeyed e := by
  cases e with
  | bad source tx => trivial
  | event event cls tx =>
    intro hsome
    rw [show stateType? cls = none from h] at hsome
    cases hsome

theorem stateless_of {event : Json} {cls : RoomEventClass} (h : stateType? cls = none) :
    Yields Stateless (RoomEvent.of event cls) :=
  yields_bind fun _ _ => yields_pure h

/-- Classes that hold no state parse to events without state. -/
theorem stateless_class {schema : Schema} {parse : Json → Except PyError RoomEventClass}
    {event : Json} (h : ∀ w, Yields (fun cls => stateType? cls = none) (parse w)) :
    Yields Stateless (verifyRoomEvent schema parse event) :=
  yields_verify (fun _ => trivial) fun w _ => yields_bind fun cls hcls => stateless_of (h w cls hcls)

theorem stateless_unknown (event : Json) : Yields Stateless (unknownEventFromDict event) :=
  yields_bind fun _ _ => stateless_of rfl

theorem stateless_redacted (event : Json) : Yields Stateless (redactedFromDict event) := by
  refine stateless_class fun w => ?_
  iterate 6 refine yields_bind fun _ _ => ?_
  exact yields_pure rfl

theorem stateless_member (event : Json) : Yields Stateless (roomMemberFromDict event) := by
  refine stateless_class fun w => ?_
  iterate 6 refine yields_bind fun _ _ => ?_
  exact yields_pure rfl

theorem stateless_redaction (event : Json) : Yields Stateless (redactionFromDict event) := by
  refine stateless_class fun w => ?_
  iterate 4 refine yields_bind fun _ _ => ?_
  split <;> exact yields_pure rfl

theorem stateless_sticker (event : Json) : Yields Stateless (stickerFromDict event) := by
  refine stateless_class fun w => ?_
  iterate 3 refine yields_bind fun _ _ => ?_
  exact yields_pure rfl

theorem stateless_reaction (event : Json) : Yields Stateless (reactionFromDict event) := by
  refine stateless_class fun w => ?_
  iterate 4 refine yields_bind fun _ _ => ?_
  exact yields_pure rfl

theorem stateless_call (type : Str) (event : Json) : Yields Stateless (parseCallEvent type event) := by
  unfold parseCallEvent
  split_ifs
  · refine stateless_class fun w => ?_
    iterate 4 refine yields_bind fun _ _ => ?_
    exact yields_pure rfl
  · refine stateless_class fun w => ?_
    iterate 5 refine yields_bind fun _ _ => ?_
    exact yields_pure rfl
  · refine stateless_class fun w => ?_
    iterate 4 refine yields_bind fun _ _ => ?_
    exact yields_pure rfl
  · refine stateless_class fun w => ?_
    iterate 3 refine yields_bind fun _ _ => ?_
    exact yields_pure rfl
  · exact stateless_unknown event

theorem stateless_encrypted (event : Json) : Yields Stateless (parseEncryptedRoomEvent event) := by
  refine yields_verify (fun _ => trivial) fun w _ => ?_
  iterate 2 refine yields_bind fun _ _ => ?_
  split
  · refine yields_verify (fun _ => trivial) fun w _ => ?_
    iterate 9 refine yields_bind fun _ _ => ?_
    exact yields_pure rfl
  · unfold unknownEncryptedFromDict
    iterate 3 refine yields_bind fun _ _ => ?_
    exact stateless_of rfl

/-- Messages hold no state, -/
theorem stateless_messageFromDict (msgtype : Str) (encrypted : Bool) (event : Json) :
    Yields Stateless (messageFromDict msgtype encrypted event) := by
  have hformatted : ∀ type, Yields Stateless (roomMessageFormattedFromDict type event) := by
    intro type
    refine stateless_class fun w => ?_
    iterate 3 refine yields_bind fun _ _ => ?_
    dsimp only
    split <;> exact yields_bind fun _ _ => yields_pure rfl
  unfold messageFromDict
  cases mediaType? msgtype with
  | some type =>
    cases encrypted with
    | true =>
      refine stateless_class fun w => ?_
      iterate 11 refine yields_bind fun _ _ => ?_
      exact yields_pure rfl
    | false =>
      refine stateless_class fun w => ?_
      iterate 4 refine yields_bind fun _ _ => ?_
      exact yields_pure rfl
  | none =>
    dsimp only
    split_ifs
    · exact hformatted .text
    · exact hformatted .emote
    · exact hformatted .notice
    · unfold roomMessageUnknownFromDict
      iterate 3 refine yields_bind fun _ _ => ?_
      exact stateless_of rfl

/-- whatever their type is. -/
theorem stateless_message (event : Json) : Yields Stateless (parseRoomMessage event) := by
  refine yields_verify (fun _ => trivial) fun w _ => ?_
  iterate 3 refine yields_bind fun _ _ => ?_
  refine yields_bind fun parsed hparsed => ?_
  have hstate := stateless_messageFromDict _ _ _ parsed hparsed
  split
  · exact yields_pure hstate
  · refine yields_bind fun tx _ => yields_pure ?_
    cases parsed with
    | bad source tx => trivial
    | event event cls tx => exact hstate

/-! ## Classes of state -/

/-- A space event keeps the state key of its source. -/
def KeyMatches (w : Json) : RoomEventClass → Prop
  | .roomSpaceParent stateKey _ | .roomSpaceChild stateKey _ =>
    w.get? (py "state_key") = some stateKey
  | _ => True

/-- A class whose schema requires a state key. -/
theorem wellKeyed_class {schema : Schema} {parse : Json → Except PyError RoomEventClass}
    {event : Json}
    (hkey : ∀ w, Accepts schema w → ∃ key, w.get? (py "state_key") = some (.str key))
    (h : ∀ w, Yields (KeyMatches w) (parse w)) :
    Yields WellKeyed (verifyRoomEvent schema parse event) := by
  refine yields_verify (fun _ => trivial) fun w hw => yields_bind fun cls hcls => ?_
  refine yields_bind fun fields hfields => yields_pure fun _ => ?_
  obtain ⟨key, hk⟩ := hkey w (accepts_of_eq hw)
  have hsource : fields.source = w := by
    unfold eventFields at hfields
    obtain ⟨_, -, hfields⟩ := bind_eq_ok.mp hfields
    obtain ⟨_, -, hfields⟩ := bind_eq_ok.mp hfields
    obtain ⟨_, -, hfields⟩ := bind_eq_ok.mp hfields
    rw [← Except.ok.inj hfields]
  have hmatch := h w cls hcls
  refine ⟨key, by rw [hsource, hk], ?_⟩
  cases cls with
  | roomSpaceParent stateKey canonical =>
    exact Option.some.inj ((show w.get? _ = some stateKey from hmatch).symm.trans hk)
  | roomSpaceChild stateKey suggested =>
    exact Option.some.inj ((show w.get? _ = some stateKey from hmatch).symm.trans hk)
  | _ => trivial

/-- An event of the state schema has a text as its key. -/
theorem stateContent_key {content : Schema} {w : Json} (h : Accepts (stateContent content) w) :
    ∃ key, w.get? (py "state_key") = some (.str key) := by
  obtain ⟨kvs, rfl, hfield, -, hall⟩ := accepts_object (by simp) (by simp) h
  obtain ⟨k, hk⟩ := (hall _ List.mem_cons_self).required "state_key" (by simp)
  obtain ⟨key, rfl⟩ := (accepts_field hfield 1 rfl hk).string
  exact ⟨key, hk⟩

theorem tombstone_key {w : Json} (h : Accepts Schemas.roomTombstone w) :
    ∃ key, w.get? (py "state_key") = some (.str key) := by
  obtain ⟨kvs, rfl, hfield, -, hall⟩ := accepts_object (by simp) (by simp) h
  obtain ⟨k, hk⟩ := (hall _ List.mem_cons_self).required "state_key" (by simp)
  obtain ⟨key, rfl⟩ := (accepts_field hfield 1 rfl hk).string
  exact ⟨key, hk⟩

/-- A class of state events whose parser keeps no state key of its own. -/
theorem wellKeyed_single {content : Schema} {parse : Json → Except PyError RoomEventClass}
    {event : Json} (h : ∀ w, Yields (fun cls => ∀ w, KeyMatches w cls) (parse w)) :
    Yields WellKeyed (verifyRoomEvent (stateContent content) parse event) :=
  wellKeyed_class (fun _ => stateContent_key) fun w cls hcls => h w cls hcls w

theorem wellKeyed_space {content : Schema} {flag : String} {cls : Json → Json → RoomEventClass}
    {event : Json} (hcls : ∀ w k b, w.get? (py "state_key") = some k → KeyMatches w (cls k b)) :
    Yields WellKeyed (spaceFromDict (stateContent content) flag cls event) := by
  refine wellKeyed_class (fun _ => stateContent_key) fun w => ?_
  refine yields_bind fun _ _ => yields_bind fun k hk => yields_bind fun _ _ => yields_pure ?_
  refine hcls w k _ ?_
  cases w with
  | obj kvs =>
    unfold getItem at hk
    cases hx : dictGet? kvs (py "state_key") with
    | none => simp [hx] at hk
    | some x =>
      simp only [hx] at hk
      obtain rfl := Except.ok.inj hk
      exact hx
  | _ => cases hk

/-- Every state class keeps the key that the schema asks for. -/
theorem wellKeyed_state {type : Str} {fromDict : Json → Except PyError RoomEvent} (event : Json)
    (h : stateFromDict? type = some fromDict) : Yields WellKeyed (fromDict event) := by
  obtain ⟨p, hp, rfl⟩ := Option.map_eq_some_iff.mp h
  have hmem := List.mem_of_find?_eq_some hp
  have hrequired : ∀ {content : Schema} {field : String} {cls : Json → RoomEventClass},
      (∀ x w, KeyMatches w (cls x)) →
      Yields WellKeyed (requiredFromDict (stateContent content) field cls event) :=
    fun hcls => wellKeyed_single fun w =>
      yields_bind fun _ _ => yields_bind fun x _ => yields_pure (hcls x)
  have hoptional : ∀ {content : Schema} {field : String} {cls : Option Json → RoomEventClass},
      (∀ x w, KeyMatches w (cls x)) →
      Yields WellKeyed (optionalFromDict (stateContent content) field cls event) :=
    fun hcls => wellKeyed_single fun w =>
      yields_bind fun _ _ => yields_bind fun x _ => yields_pure (hcls x)
  simp only [stateParsers, List.mem_cons, List.not_mem_nil, or_false] at hmem
  rcases hmem with rfl | rfl | rfl | rfl | rfl | rfl | rfl | rfl | rfl | rfl | rfl | rfl | rfl |
    rfl | rfl
  · refine wellKeyed_single fun w => ?_
    iterate 5 refine yields_bind fun _ _ => ?_
    exact yields_pure fun _ => trivial
  · exact hrequired fun _ _ => trivial
  · exact hrequired fun _ _ => trivial
  · exact hrequired fun _ _ => trivial
  · exact fun e he => (stateless_member event e he).wellKeyed
  · exact hoptional fun _ _ => trivial
  · exact hrequired fun _ _ => trivial
  · exact hrequired fun _ _ => trivial
  · exact hoptional fun _ _ => trivial
  · refine wellKeyed_single fun w => ?_
    iterate 5 refine yields_bind fun _ _ => ?_
    exact yields_pure fun _ => trivial
  · exact wellKeyed_single fun w => yields_pure fun _ => trivial
  · exact fun e he => (stateless_redaction event e he).wellKeyed
  · refine wellKeyed_class (fun _ => tombstone_key) fun w => ?_
    iterate 3 refine yields_bind fun _ _ => ?_
    exact yields_pure trivial
  · exact wellKeyed_space fun _ _ _ hk => hk
  · exact wellKeyed_space fun _ _ _ hk => hk

/-- What the parser accepts as a state event has a state key. -/
theorem wellKeyed_of_parsed {source : Json} {e : RoomEvent} (h : parseEvent source = .ok e) :
    WellKeyed e := by
  suffices hall : Yields WellKeyed (parseEvent source) from hall e h
  unfold parseEvent
  refine yields_verify (fun _ => trivial) fun w _ => ?_
  refine yields_bind fun redacted _ => ?_
  cases redacted with
  | true => exact fun e he => (stateless_redacted w e he).wellKeyed
  | false =>
    rw [if_neg (by simp)]
    refine yields_bind fun type _ => ?_
    unfold roomEventFromDict
    split
    · exact fun e he => (stateless_message w e he).wellKeyed
    · split
      next fromDict hstate => exact wellKeyed_state w hstate
      next =>
        intro e he
        refine Stateless.wellKeyed ?_
        split_ifs at he
        · exact stateless_encrypted w e he
        · exact stateless_sticker w e he
        · exact stateless_reaction w e he
        · exact stateless_call type w e he
        · exact stateless_unknown w e he

/-! ## Runs of accepted events -/

/-- The fields after a run are those that the last events specify. -/
theorem fields_run {encrypted : Bool} {members : List (Str × Json)} {events : List RoomEvent}
    (hkeyed : ∀ e ∈ events, WellKeyed e) (hconf : Conforms events) :
    ((StateRoom.new encrypted members).run events).fields =
      specified encrypted members (lastOf events) := by
  induction events using List.reverseRecOn with
  | nil =>
    have hlast : lastOf [] = fun _ => none := rfl
    rw [hlast]
    ext <;> simp [StateRoom.run, StateRoom.new, StateRoom.fields, specified, StateMap.single,
      StateMap.creators, StateMap.levels, StateMap.levelOf, StateMap.via, StateLevels.new, dictGet?]
  | append_singleton events e ih =>
    rw [run_concat]
    exact fields_step (hkeyed e (by simp)) hconf
      (ih (fun e' he' => hkeyed e' (List.mem_append_left _ he')) hconf.init)

/-- The last event of a pair is looked for from the end. -/
theorem lastOf_append_list (xs ys : List RoomEvent) (pair : StateType × Str) :
    lastOf (xs ++ ys) pair = (lastOf ys pair).or (lastOf xs pair) := by
  unfold lastOf
  rw [List.reverse_append, List.find?_append]

/-- Two events of different pairs leave the same last events in either order. -/
theorem lastOf_swap {pre post : List RoomEvent} {a b : RoomEvent} (hab : pairOf a ≠ pairOf b) :
    lastOf (pre ++ b :: a :: post) = lastOf (pre ++ a :: b :: post) := by
  funext pair
  have hsplit : ∀ x y : RoomEvent, pre ++ x :: y :: post = pre ++ ([x] ++ [y] ++ post) := by simp
  have htwo : ∀ x y : RoomEvent, lastOf ([x] ++ [y]) pair =
      if pairOf y = some pair then some y else if pairOf x = some pair then some x else none := by
    intro x y
    rw [lastOf_append]
    simp [lastOf]
  rw [hsplit, hsplit]
  simp only [lastOf_append_list _ post, lastOf_append_list pre, htwo]
  by_cases ha : pairOf a = some pair <;> by_cases hb : pairOf b = some pair
  · exact absurd (ha.trans hb.symm) hab
  · simp [ha, hb]
  · simp [ha, hb]
  · simp [ha, hb]

/-- An event of another pair takes nothing back. -/
theorem keeps_of_ne {events : List RoomEvent} (hkeyed : ∀ e ∈ events, WellKeyed e)
    (hconf : Conforms events) {a b : RoomEvent} (ha : a ∈ events) (hb : b ∈ events)
    (hab : pairOf a ≠ pairOf b) : Keeps b a := by
  -- a singleton type is kept under one pair, so two such events have the same pair
  have hpair : ∀ e ∈ events, ∀ event cls tx type, e = .event event cls tx →
      stateType? cls = some type → type.isSpace = false → pairOf e = some (type, []) := by
    rintro e he event cls tx type rfl ht hs
    obtain ⟨key, hkey, -⟩ := hkeyed _ he (by rw [ht]; rfl)
    have hp : pairOf (.event event cls tx) = some (type, key) := by simp [pairOf, ht, hkey]
    rw [hp, hconf.keys _ he type key hp hs]
  have hcreate : ∀ e ∈ events, ∀ v, namesCreators? e = some v →
      pairOf e = some (.create, []) := by
    intro e he v hv
    cases e with
    | bad source tx => cases hv
    | event event cls tx =>
      cases cls with
      | roomCreate f v' t c => exact hpair _ he event _ tx .create rfl rfl rfl
      | _ => cases hv
  have hlevels : ∀ e ∈ events, ∀ l, levels? e = some l → pairOf e = some (.powerLevels, []) := by
    intro e he l hl
    cases e with
    | bad source tx => cases hl
    | event event cls tx =>
      cases cls with
      | powerLevels l' => exact hpair _ he event _ tx .powerLevels rfl rfl rfl
      | _ => cases hl
  refine ⟨fun h h' => hab ?_, fun l l' h h' => absurd ?_ hab, fun l l' h h' => absurd ?_ hab⟩
  · rw [hcreate a ha _ h', hcreate b hb _ h]
  · rw [hlevels a ha _ h', hlevels b hb _ h]
  · rw [hlevels a ha _ h', hlevels b hb _ h]

/-- Neighbours of different pairs may change places. -/
theorem Conforms.swap {pre post : List RoomEvent} {a b : RoomEvent}
    (hkeyed : ∀ e ∈ pre ++ a :: b :: post, WellKeyed e)
    (h : Conforms (pre ++ a :: b :: post)) (hab : pairOf a ≠ pairOf b) :
    Conforms (pre ++ b :: a :: post) := by
  have hmem : ∀ e, e ∈ pre ++ b :: a :: post ↔ e ∈ pre ++ a :: b :: post := by
    intro e
    simp only [List.mem_append, List.mem_cons]
    tauto
  have hba := keeps_of_ne hkeyed h (a := a) (b := b) (by simp) (by simp) hab
  refine ⟨fun e he => h.keys e ((hmem e).mp he), ?_⟩
  have hkeeps := h.keeps
  simp only [List.pairwise_append, List.pairwise_cons, List.mem_cons, forall_eq_or_imp] at hkeeps ⊢
  obtain ⟨hpre, ⟨⟨-, hapost⟩, hbpost, hpost⟩, hcross⟩ := hkeeps
  refine ⟨hpre, ⟨⟨hba, hbpost⟩, hapost, hpost⟩, fun e he => ?_⟩
  obtain ⟨h₁, h₂, h₃⟩ := hcross e he
  exact ⟨h₂, h₁, h₃⟩

/-- A run of accepted events in which only spaces have several state keys, and later events keep
what earlier events have listed, leaves the fields that the last events specify, and two events of
different types or state keys may change places. -/
theorem state_by_key (encrypted : Bool) (members : List (Str × Json)) (events : List RoomEvent)
    (hparsed : ∀ e ∈ events, ∃ source, parseEvent source = .ok e) (hconf : Conforms events) :
    ((StateRoom.new encrypted members).run events).fields =
      specified encrypted members (lastOf events) ∧
    ∀ pre a b post, events = pre ++ a :: b :: post → pairOf a ≠ pairOf b →
      ((StateRoom.new encrypted members).run (pre ++ b :: a :: post)).fields =
        ((StateRoom.new encrypted members).run events).fields := by
  have hkeyed : ∀ e ∈ events, WellKeyed e := by
    intro e he
    obtain ⟨source, hs⟩ := hparsed e he
    exact wellKeyed_of_parsed hs
  refine ⟨fields_run hkeyed hconf, ?_⟩
  rintro pre a b post rfl hab
  have hkeyed' : ∀ e ∈ pre ++ b :: a :: post, WellKeyed e := by
    intro e he
    refine hkeyed e ?_
    simp only [List.mem_append, List.mem_cons] at he ⊢
    tauto
  rw [fields_run hkeyed' (hconf.swap hkeyed hab), fields_run hkeyed hconf, lastOf_swap hab]

/-- A name event under a state key, as a server sends it -/
def nameSource (stateKey name : String) : Json := .obj [(py "type", .str (py "m.room.name")),
  (py "event_id", .str (py "$name")), (py "sender", .str (py "@alice:example.org")),
  (py "origin_server_ts", .int 1), (py "state_key", .str (py stateKey)),
  (py "content", .obj [(py "name", .str (py name))])]

def nameEvent (stateKey name : String) : RoomEvent :=
  .event ⟨nameSource stateKey name, .str (py "$name"), .str (py "@alice:example.org"), .int 1⟩
    (.roomName (.str (py name))) none

/-- A child of a space -/
def childSource : Json := .obj [(py "type", .str (py "m.space.child")),
  (py "event_id", .str (py "$child")), (py "sender", .str (py "@alice:example.org")),
  (py "origin_server_ts", .int 1), (py "state_key", .str (py "!room:example.org")),
  (py "content", .obj [(py "via", .arr [.str (py "example.org")]),
    (py "suggested", .bool true)])]

def childEvent : RoomEvent :=
  .event ⟨childSource, .str (py "$child"), .str (py "@alice:example.org"), .int 1⟩
    (.roomSpaceChild (.str (py "!room:example.org")) (.bool true)) none

theorem state_by_key_lobby :
    ((StateRoom.new false []).run [nameEvent "" "Lobby", childEvent]).fields =
      specified false [] (lastOf [nameEvent "" "Lobby", childEvent]) ∧
    ((StateRoom.new false []).run [childEvent, nameEvent "" "Lobby"]).fields =
      ((StateRoom.new false []).run [nameEvent "" "Lobby", childEvent]).fields := by
  have hname : pairOf (nameEvent "" "Lobby") = some (.name, []) := rfl
  have hchild : pairOf childEvent = some (.spaceChild, py "!room:example.org") := rfl
  have hconf : Conforms [nameEvent "" "Lobby", childEvent] := by
    refine ⟨fun e he type key hpair hs => ?_, List.pairwise_pair.mpr ⟨?_, ?_, ?_⟩⟩
    · rcases List.mem_pair.mp he with rfl | rfl
      · exact (Prod.ext_iff.mp (Option.some.inj (hname.symm.trans hpair))).2.symm
      · -- a child of a space is of a type that has many keys
        have ht : StateType.spaceChild = type :=
          (Prod.ext_iff.mp (Option.some.inj (hchild.symm.trans hpair))).1
        subst ht
        cases hs
    · rintro ⟨⟩
    · rintro l l' ⟨⟩
    · rintro l l' ⟨⟩
  have hparsed : ∀ e ∈ [nameEvent "" "Lobby", childEvent],
      ∃ source, parseEvent source = .ok e := by
    intro e he
    rcases List.mem_pair.mp he with rfl | rfl
    · exact ⟨nameSource "" "Lobby", rfl⟩
    · exact ⟨childSource, rfl⟩
  have h := state_by_key false [] [nameEvent "" "Lobby", childEvent] hparsed hconf
  exact ⟨h.1, h.2 [] _ _ [] rfl (by simp [hname, hchild])⟩

/-- A name event under another state key overwrites the name of the room, and the two events of
different state keys do not commute. -/
theorem other_key_overwrites :
    (∀ e ∈ [nameEvent "" "Lobby", nameEvent "attic" "Attic"], ∃ source, parseEvent source = .ok e) ∧
    ((StateRoom.new false []).run [nameEvent "" "Lobby", nameEvent "attic" "Attic"]).fields.name =
      some (.str (py "Attic")) ∧
    (specified false [] (lastOf [nameEvent "" "Lobby", nameEvent "attic" "Attic"])).name =
      some (.str (py "Lobby")) ∧
    pairOf (nameEvent "" "Lobby") ≠ pairOf (nameEvent "attic" "Attic") ∧
    ((StateRoom.new false []).run [nameEvent "attic" "Attic", nameEvent "" "Lobby"]).fields.name =
      some (.str (py "Lobby")) := by
  refine ⟨fun e he => ?_, rfl, rfl, by decide, rfl⟩
  rcases List.mem_pair.mp he with rfl | rfl
  · exact ⟨nameSource "" "Lobby", rfl⟩
  · exact ⟨nameSource "attic" "Attic", rfl⟩

end Nio.Rooms
