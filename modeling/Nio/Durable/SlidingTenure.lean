import Nio.Durable.Termination
import Nio.Py.Dict

/-!
# Continuity of a tenure in Sliding responses

The own membership events of a room form a history. A checkpoint holds the id of one of them as the
proof of a joined tenure, and `SlidingSource.membership` says whether a response continues it.

* `Truthful` — a response that shows the history as it is
* `Unbroken` — the join events that a chain of links has passed
* `CheckpointReached` — the checkpoints that truthful responses leave
* `sliding_continuity` — what continues a tenure
-/

namespace Nio.Durable

open Nio.Py

/-! ## Histories -/

/-- An own membership event. -/
structure OwnEvent where
  id : Str
  membership : Membership
  deriving DecidableEq, Repr

/-- An own membership event as a response shows it. -/
def isOwnEvent (userId : Str) (event : Event) : Bool :=
  match event.cls with
  | .roomMember stateKey _ _ => stateKey = userId && !event.decrypted
  | _ => false

/-- The event is the one of the history behind `before`, and its previous content and its
`replaces_state` are those of the event right before it. -/
structure Tells (userId : Str) (before : List OwnEvent) (own : OwnEvent) (event : Event) : Prop where
  cls : event.cls = .roomMember userId own.membership
    (before.getLast?.any fun e => e.membership = .join)
  eventId : event.eventId = .str own.id
  replaces : ∀ id, replacesState event = some (.str id) ↔
    ∃ previous, before.getLast? = some previous ∧ previous.id = id

/-- The own membership events that a response lists: those of the state, then the live ones. -/
def SlidingRoom.own (room : SlidingRoom) (userId : Str) : List Event :=
  (room.requiredState ++ room.live).filter (isOwnMember userId)

/-- The response shows own events as they are in the history, and shows the current one when it
has changed since the held proof. -/
structure Shows (userId : Str) (history : List OwnEvent) (held : Json) (room : SlidingRoom) :
    Prop where
  tells : ∀ event ∈ room.requiredState ++ room.live, isOwnEvent userId event = true →
    ∃ before own after, history = before ++ own :: after ∧ Tells userId before own event
  current : ∀ own, history.getLast? = some own → held ≠ .str own.id →
    ∃ event ∈ room.own userId, event.eventId = .str own.id
  /-- The membership of the response and its stripped state are those of the current event. -/
  status : ∀ own, history.getLast? = some own → own.membership = .join →
    room.membership ≠ some (py "leave") ∧ room.membership ≠ some (py "ban") ∧
      room.membership ≠ some (py "invite") ∧ room.strippedState = []

/-- And the own event that it lists last is the current one. -/
structure Truthful (userId : Str) (history : List OwnEvent) (held : Json) (room : SlidingRoom) :
    Prop extends Shows userId history held room where
  last : ∀ event, (room.own userId).getLast? = some event →
    isOwnEvent userId event = true ∧
      ∃ own, history.getLast? = some own ∧ event.eventId = .str own.id

/-- Since the held proof the user has been joined all the time. -/
def JoinedSince (history : List OwnEvent) (held : Json) : Prop :=
  ∃ before proof after, history = before ++ proof :: after ∧ held = .str proof.id ∧
    ∀ e ∈ after, e.membership = .join

/-! ## Chains of links -/

/-- From one event of the history to another the user has been joined all the time. -/
def Unbroken (history : List OwnEvent) (held proof : Json) : Prop :=
  ∃ before first between after, history = before ++ (first :: between) ++ after ∧
    held = .str first.id ∧ proof = .str ((first :: between).getLast (List.cons_ne_nil _ _)).id ∧
    ∀ e ∈ between, e.membership = .join

/-- An event stands in one place of a history. -/
theorem split_unique {before before' after after' : List OwnEvent} {own own' : OwnEvent}
    (hnodup : ((before ++ own :: after).map (·.id)).Nodup)
    (heq : before ++ own :: after = before' ++ own' :: after') (hid : own.id = own'.id) :
    before = before' ∧ own = own' ∧ after = after' := by
  induction before generalizing before' with
  | nil =>
    cases before' with
    | nil =>
      obtain ⟨rfl, rfl⟩ := List.cons.inj heq
      exact ⟨rfl, rfl, rfl⟩
    | cons x before' =>
      obtain ⟨rfl, rfl⟩ := List.cons.inj heq
      simp [hid] at hnodup
  | cons x before ih =>
    cases before' with
    | nil =>
      obtain ⟨rfl, rfl⟩ := List.cons.inj heq
      simp [hid] at hnodup
    | cons y before' =>
      obtain ⟨rfl, hrest⟩ := List.cons.inj heq
      obtain ⟨rfl, rfl, rfl⟩ := ih (List.nodup_cons.mp (by simpa using hnodup)).2 hrest
      exact ⟨rfl, rfl, rfl⟩

theorem Unbroken.refl {history : List OwnEvent} {own : OwnEvent} (h : own ∈ history) :
    Unbroken history (.str own.id) (.str own.id) := by
  obtain ⟨before, after, rfl⟩ := List.append_of_mem h
  exact ⟨before, own, [], after, by simp, rfl, rfl, fun _ he => (nomatch he)⟩

/-- A join event that names the end of the chain as the one that it replaces is its next link. -/
theorem Unbroken.link {userId : Str} {history : List OwnEvent}
    (hnodup : (history.map (·.id)).Nodup) {held proof : Json} (h : Unbroken history held proof)
    {before after : List OwnEvent} {own : OwnEvent} (hhistory : history = before ++ own :: after)
    {event : Event} (htells : Tells userId before own event) (hjoin : own.membership = .join)
    (hreplaces : replacesState event = some proof) : Unbroken history held event.eventId := by
  obtain ⟨front, first, between, rest, hsplit, hheld, hproof, hbetween⟩ := h
  rw [hproof] at hreplaces
  obtain ⟨previous, hprevious, hid⟩ := (htells.replaces _).mp hreplaces
  obtain ⟨start, rfl⟩ := List.getLast?_eq_some_iff.mp hprevious
  have hends : (first :: between).dropLast ++ [(first :: between).getLast (by simp)] =
      first :: between := List.dropLast_append_getLast (by simp)
  have hparts : start ++ previous :: (own :: after) =
      (front ++ (first :: between).dropLast) ++
        (first :: between).getLast (by simp) :: rest := by
    calc start ++ previous :: (own :: after) = history := by rw [hhistory]; simp
      _ = front ++ (first :: between) ++ rest := hsplit
      _ = front ++ ((first :: between).dropLast ++ [(first :: between).getLast (by simp)]) ++
          rest := by rw [hends]
      _ = _ := by simp
  have hids : ((start ++ previous :: (own :: after)).map (·.id)).Nodup := by
    rw [show start ++ previous :: (own :: after) = history by rw [hhistory]; simp]
    exact hnodup
  obtain ⟨-, -, hrest⟩ := split_unique hids hparts hid
  refine ⟨front, first, between ++ [own], after, ?_, hheld, ?_, ?_⟩
  · rw [hsplit, ← hrest]
    simp
  · rw [htells.eventId]
    simp
  · intro e he
    rcases List.mem_append.mp he with he | he
    · exact hbetween e he
    · rw [List.mem_singleton.mp he]
      exact hjoin

/-- A chain that has reached the current event -/
theorem Unbroken.joinedSince {history : List OwnEvent} (hnodup : (history.map (·.id)).Nodup)
    {held : Json} {own : OwnEvent} (h : Unbroken history held (.str own.id))
    (hlast : history.getLast? = some own) : JoinedSince history held := by
  obtain ⟨front, first, between, rest, hsplit, hheld, hproof, hbetween⟩ := h
  obtain ⟨start, rfl⟩ := List.getLast?_eq_some_iff.mp hlast
  have hends : (first :: between).dropLast ++ [(first :: between).getLast (by simp)] =
      first :: between := List.dropLast_append_getLast (by simp)
  have hparts : start ++ own :: [] =
      (front ++ (first :: between).dropLast) ++
        (first :: between).getLast (by simp) :: rest := by
    calc start ++ own :: [] = front ++ (first :: between) ++ rest := hsplit
      _ = front ++ ((first :: between).dropLast ++ [(first :: between).getLast (by simp)]) ++
          rest := by rw [hends]
      _ = _ := by simp
  obtain ⟨-, -, hrest⟩ := split_unique hnodup hparts (Json.str.inj hproof)
  refine ⟨front, first, between, ?_, hheld, hbetween⟩
  rw [hsplit, ← hrest, List.append_nil]

/-! ## The scan of the live suffix -/

/-- One step of `scanLive` -/
def scanStep (userId : Str) (known : List Json) (found : Json × Bool) (event : Event) :
    Json × Bool :=
  match event.cls with
  | .roomMember stateKey membership prevJoin =>
    if event.decrypted ∨ stateKey ≠ userId ∨ event.eventId = found.1 ∨ event.eventId ∈ known then
      found
    else if membership ≠ .join ∨ prevJoin = false ∨ replacesState event ≠ some found.1 then
      (.null, true)
    else if found.2 then found
    else (event.eventId, found.2)
  | _ => found

theorem scanLive_eq (userId : Str) (known : List Json) (live : List Event) (proof : Json) :
    scanLive userId known live proof = live.foldl (scanStep userId known) (proof, false) := rfl

/-- Until it has met a new join, the scan has gone along a chain. -/
def Scanned (history : List OwnEvent) (held : Json) (found : Json × Bool) : Prop :=
  found.2 = false → found.1 = held ∨ Unbroken history held found.1

theorem scanned_step {userId : Str} {known : List Json} {history : List OwnEvent}
    (hnodup : (history.map (·.id)).Nodup) {held : Json} {found : Json × Bool}
    (h : Scanned history held found) {event : Event}
    (htells : isOwnEvent userId event = true →
      ∃ before own after, history = before ++ own :: after ∧ Tells userId before own event) :
    Scanned history held (scanStep userId known found event) := by
  unfold scanStep
  split
  next stateKey membership prevJoin hcls =>
    split
    · exact h
    next hnew =>
      split
      · exact fun hjoin => (nomatch hjoin)
      next hlink =>
        split
        · exact h
        · -- a join that replaces the end of the chain
          intro hstill
          simp only [not_or, not_not, Bool.not_eq_false, Bool.not_eq_true] at hnew hlink
          obtain ⟨hplain, hkey, -, -⟩ := hnew
          obtain ⟨hjoin, hprev, hreplaces⟩ := hlink
          obtain ⟨before, own, after, hhistory, ht⟩ :=
            htells (by unfold isOwnEvent; rw [hcls]; simp [hplain, hkey])
          have hc := ht.cls
          rw [hcls] at hc
          obtain ⟨-, hmembership, hlast⟩ := EventClass.roomMember.inj hc
          rw [hprev] at hlast
          cases hprevious : before.getLast? with
          | none => rw [hprevious] at hlast; exact (nomatch hlast)
          | some previous =>
            have hid := (ht.replaces previous.id).mpr ⟨previous, hprevious, rfl⟩
            rw [hreplaces] at hid
            have hmem : previous ∈ history := by
              rw [hhistory]
              exact List.mem_append_left _ (List.mem_of_getLast? hprevious)
            right
            refine Unbroken.link hnodup ?_ hhistory ht (hmembership ▸ hjoin) hreplaces
            rcases h hstill with hheld | hchain
            · rw [← hheld, Option.some.inj hid]
              exact .refl hmem
            · exact hchain
  · exact h

theorem scanned_scan {userId : Str} {known : List Json} {history : List OwnEvent}
    (hnodup : (history.map (·.id)).Nodup) {held : Json} {live : List Event}
    (htells : ∀ event ∈ live, isOwnEvent userId event = true →
      ∃ before own after, history = before ++ own :: after ∧ Tells userId before own event) :
    ∀ found, Scanned history held found →
      Scanned history held (live.foldl (scanStep userId known) found) := by
  induction live with
  | nil => exact fun _ h => h
  | cons event live ih =>
    intro found h
    exact ih (fun e he => htells e (List.mem_cons_of_mem _ he)) _
      (scanned_step hnodup h (htells event List.mem_cons_self))

/-! ## Soundness -/

theorem joinedSince_last {history : List OwnEvent} {own : OwnEvent}
    (h : history.getLast? = some own) : JoinedSince history (.str own.id) := by
  obtain ⟨before, rfl⟩ := List.getLast?_eq_some_iff.mp h
  exact ⟨before, own, [], rfl, rfl, fun _ he => (nomatch he)⟩

/-- An own event of the history whose id is that of the current one is the current one. -/
theorem tells_last {userId : Str} {history before after : List OwnEvent} {own own' : OwnEvent}
    {event : Event} (hnodup : (history.map (·.id)).Nodup)
    (hhistory : history = before ++ own :: after) (htells : Tells userId before own event)
    (hlast : history.getLast? = some own') (hid : event.eventId = .str own'.id) :
    own = own' ∧ after = [] := by
  obtain ⟨start, hstart⟩ := List.getLast?_eq_some_iff.mp hlast
  have hids : own.id = own'.id := Json.str.inj (htells.eventId.symm.trans hid)
  subst hhistory
  obtain ⟨-, hown, hafter⟩ := split_unique hnodup hstart hids
  exact ⟨hown, hafter⟩

/-- The held proof of a checkpoint is the id of a join of the history. -/
def Proven (history : List OwnEvent) (held : Json) : Prop :=
  held ≠ .null → ∃ own ∈ history, own.membership = .join ∧ held = .str own.id

/-- A response that continues the held tenure -/
theorem slidingMembership_sound {env : Env} {s : Session} {roomId : Str} {room : SlidingRoom}
    {history : List OwnEvent} (hnodup : (history.map (·.id)).Nodup)
    (hproven : Proven history (s.checkpoint roomId).membership)
    (h : Truthful env.userId history (s.checkpoint roomId).membership room)
    (hcontinues : (s.slidingMembership env roomId room).2 = true) :
    JoinedSince history (s.checkpoint roomId).membership := by
  have hscan : Scanned history (s.checkpoint roomId).membership
      (scanLive env.userId (s.checkpoint roomId).eventIds room.live
        (s.checkpoint roomId).membership) :=
    scanned_scan hnodup (fun e he => h.tells e (List.mem_append_right _ he)) _
      (fun _ => Or.inl rfl)
  unfold Session.slidingMembership at hcontinues
  dsimp only at hcontinues
  split at hcontinues
  · exact (nomatch hcontinues)
  split at hcontinues
  next hown =>
    -- nothing shown: the current event is the proof
    split at hcontinues
    · exact (nomatch hcontinues)
    · cases hlast : history.getLast? with
      | none =>
        obtain ⟨own, hmem, -⟩ := hproven fun hnull => by
          rw [hnull] at hcontinues
          exact (nomatch hcontinues)
        rw [List.getLast?_eq_none_iff.mp hlast] at hmem
        exact (nomatch hmem)
      | some own =>
        by_cases hheld : (s.checkpoint roomId).membership = .str own.id
        · rw [hheld]
          exact joinedSince_last hlast
        · obtain ⟨event, hmem, -⟩ := h.current own hlast hheld
          have hnone : room.own env.userId = [] := List.getLast?_eq_none_iff.mp hown
          rw [hnone] at hmem
          exact (nomatch hmem)
  next event hown =>
    obtain ⟨hevent, own, hlast, hid⟩ := h.last event hown
    split at hcontinues
    next stateKey prevJoin hcls =>
      simp only [Bool.and_eq_true, Bool.or_eq_true, decide_eq_true_eq,
        Bool.not_eq_true'] at hcontinues
      obtain ⟨hstill, (hheld | hproof) | ⟨hprev, hreplaces⟩⟩ := hcontinues
      · rw [← hheld, hid]
        exact joinedSince_last hlast
      · rcases hscan hstill with hheld | hchain
        · rw [← hheld, ← hproof, hid]
          exact joinedSince_last hlast
        · rw [← hproof, hid] at hchain
          exact hchain.joinedSince hnodup hlast
      · -- the current event replaces the held one
        have hmem : event ∈ room.requiredState ++ room.live :=
          List.mem_of_mem_filter (List.mem_of_getLast? hown)
        obtain ⟨before, own', after, hhistory, ht⟩ := h.tells event hmem hevent
        obtain ⟨rfl, rfl⟩ := tells_last hnodup hhistory ht hlast hid
        have hc := ht.cls
        rw [hcls, hprev] at hc
        obtain ⟨-, hmembership, hbefore⟩ := EventClass.roomMember.inj hc
        cases hprevious : before.getLast? with
        | none => rw [hprevious] at hbefore; exact (nomatch hbefore)
        | some previous =>
          have hprevId := (ht.replaces previous.id).mpr ⟨previous, hprevious, rfl⟩
          obtain ⟨start, rfl⟩ := List.getLast?_eq_some_iff.mp hprevious
          refine ⟨start, previous, [own'], by simpa using hhistory, ?_, ?_⟩
          · exact Option.some.inj (hreplaces.symm.trans hprevId)
          · intro e he
            rw [List.mem_singleton.mp he]
            exact hmembership.symm
    · exact (nomatch hcontinues)

/-- What a response proves is the current event, a join. -/
theorem slidingMembership_proves {env : Env} {s : Session} {roomId : Str} {room : SlidingRoom}
    {history : List OwnEvent} (hnodup : (history.map (·.id)).Nodup)
    (hproven : Proven history (s.checkpoint roomId).membership)
    (h : Truthful env.userId history (s.checkpoint roomId).membership room)
    (hproof : (s.slidingMembership env roomId room).1 ≠ .null) :
    ∃ own, history.getLast? = some own ∧ own.membership = .join ∧
      (s.slidingMembership env roomId room).1 = .str own.id := by
  unfold Session.slidingMembership at hproof ⊢
  dsimp only at hproof ⊢
  split at hproof
  · exact absurd rfl hproof
  next hstatus =>
    rw [if_neg hstatus]
    split at hproof
    next hown =>
      cases hinitial : room.initial with
      | true => rw [hinitial] at hproof; exact absurd rfl hproof
      | false =>
        rw [hinitial] at hproof
        obtain ⟨own, hmem, hjoin, hheld⟩ := hproven hproof
        cases hlast : history.getLast? with
        | none => rw [List.getLast?_eq_none_iff.mp hlast] at hmem; exact (nomatch hmem)
        | some current =>
          by_cases heq : (s.checkpoint roomId).membership = .str current.id
          · refine ⟨own, ?_, hjoin, hheld⟩
            have hid : own.id = current.id := Json.str.inj (hheld.symm.trans heq)
            rw [List.inj_on_of_nodup_map hnodup hmem (List.mem_of_getLast? hlast) hid]
          · obtain ⟨event, hevent, -⟩ := h.current current hlast heq
            have hnone : room.own env.userId = [] := List.getLast?_eq_none_iff.mp hown
            rw [hnone] at hevent
            exact (nomatch hevent)
    next event hown =>
      obtain ⟨hevent, own, hlast, hid⟩ := h.last event hown
      split at hproof
      next stateKey prevJoin hcls =>
        have hmem : event ∈ room.requiredState ++ room.live :=
          List.mem_of_mem_filter (List.mem_of_getLast? hown)
        obtain ⟨before, own', after, hhistory, ht⟩ := h.tells event hmem hevent
        obtain ⟨rfl, rfl⟩ := tells_last hnodup hhistory ht hlast hid
        have hc := ht.cls
        rw [hcls] at hc
        exact ⟨own', hlast, (EventClass.roomMember.inj hc).2.1.symm, hid⟩
      · exact absurd rfl hproof

/-! ## Completeness -/

/-- What a checkpoint knows of the history: its proof is a join of it, and none of the events after
that join was applied. -/
structure Holds (history : List OwnEvent) (c : Checkpoint) : Prop where
  nodup : (history.map (·.id)).Nodup
  proof : c.membership = .null ∨ ∃ before proof after, history = before ++ proof :: after ∧
    proof.membership = .join ∧ c.membership = .str proof.id ∧
    ∀ e ∈ after, .str e.id ∉ c.eventIds

theorem Holds.proven {history : List OwnEvent} {c : Checkpoint} (h : Holds history c) :
    Proven history c.membership := by
  intro hne
  rcases h.proof with hnull | ⟨before, proof, after, rfl, hjoin, hheld, -⟩
  · exact absurd hnull hne
  · exact ⟨proof, List.mem_append_right _ List.mem_cons_self, hjoin, hheld⟩

theorem scanStep_other {userId : Str} {known : List Json} {found : Json × Bool} {event : Event}
    (h : isOwnEvent userId event = false) : scanStep userId known found event = found := by
  unfold scanStep
  split
  next stateKey membership prevJoin hcls =>
    unfold isOwnEvent at h
    rw [hcls] at h
    have hskip : event.decrypted = true ∨ stateKey ≠ userId := by
      cases hd : event.decrypted with
      | true => exact Or.inl rfl
      | false => exact Or.inr fun hk => by simp [hk, hd] at h
    rw [if_pos (hskip.elim Or.inl fun hk => Or.inr (Or.inl hk))]
  · rfl

/-- Only own events count in the scan. -/
theorem scan_filter (userId : Str) (known : List Json) (live : List Event) (found : Json × Bool) :
    live.foldl (scanStep userId known) found =
      (live.filter (isOwnEvent userId)).foldl (scanStep userId known) found := by
  induction live generalizing found with
  | nil => rfl
  | cons event live ih =>
    cases h : isOwnEvent userId event with
    | true => rw [List.filter_cons_of_pos h, List.foldl_cons, List.foldl_cons, ih]
    | false =>
      rw [List.filter_cons_of_neg (by simp [h]), List.foldl_cons, scanStep_other h, ih]

/-- Events that were applied already, and the proof itself, do not change what the scan found. -/
theorem scan_old {userId : Str} {known : List Json} {found : Json × Bool} {old : List Event}
    (h : ∀ event ∈ old, event.eventId = found.1 ∨ event.eventId ∈ known) :
    old.foldl (scanStep userId known) found = found := by
  induction old with
  | nil => rfl
  | cons event old ih =>
    have hstep : scanStep userId known found event = found := by
      unfold scanStep
      split
      · rw [if_pos (Or.inr (Or.inr (h event List.mem_cons_self)))]
      · rfl
    rw [List.foldl_cons, hstep]
    exact ih fun e he => h e (List.mem_cons_of_mem _ he)

/-- The scan goes along a chain of join events to its end. -/
theorem scan_chain {userId : Str} {known : List Json} {history : List OwnEvent}
    (hnodup : (history.map (·.id)).Nodup) (chain : List OwnEvent) :
    ∀ (events : List Event) (before : List OwnEvent) (proof : OwnEvent),
      history = before ++ proof :: chain → proof.membership = .join →
      (∀ e ∈ chain, e.membership = .join ∧ .str e.id ∉ known) →
      events.map (·.eventId) = chain.map (fun e => .str e.id) →
      (∀ event ∈ events, ∃ before own after, history = before ++ own :: after ∧
        Tells userId before own event ∧ isOwnEvent userId event = true) →
      events.foldl (scanStep userId known) (.str proof.id, false) =
        (.str ((proof :: chain).getLast (List.cons_ne_nil _ _)).id, false) := by
  induction chain with
  | nil =>
    intro events before proof _ _ _ hids _
    rw [List.map_eq_nil_iff.mp hids]
    rfl
  | cons own chain ih =>
    intro events before proof hhistory hjoin hchain hids htells
    cases events with
    | nil => exact (nomatch hids)
    | cons event events =>
      obtain ⟨hid, hrest⟩ := List.cons.inj hids
      obtain ⟨front, own', after, hsplit, ht, hown⟩ := htells event List.mem_cons_self
      have hparts : (before ++ [proof]) ++ own :: chain = front ++ own' :: after := by
        rw [← hsplit, hhistory]
        simp
      have hnodup' : (((before ++ [proof]) ++ own :: chain).map (·.id)).Nodup := by
        rw [hparts, ← hsplit]
        exact hnodup
      obtain ⟨rfl, rfl, rfl⟩ := split_unique hnodup' hparts
        (Json.str.inj (hid.symm.trans ht.eventId))
      obtain ⟨hnext, hknown⟩ := hchain own List.mem_cons_self
      have hreplaces : replacesState event = some (.str proof.id) :=
        (ht.replaces proof.id).mpr ⟨proof, List.getLast?_concat, rfl⟩
      have hne : own.id ≠ proof.id := by
        intro heq
        rw [hhistory] at hnodup
        simp [heq, List.nodup_append] at hnodup
      have hstep : scanStep userId known (.str proof.id, false) event = (.str own.id, false) := by
        unfold isOwnEvent at hown
        unfold scanStep
        rw [ht.cls] at hown ⊢
        dsimp only
        rw [if_neg, if_neg, if_neg (by simp), ht.eventId]
        · simp [hnext, hreplaces, hjoin]
        · rw [ht.eventId]
          simp only [Bool.and_eq_true, decide_eq_true_eq, Bool.not_eq_true'] at hown
          simp [hown.2, hne, hknown]
      rw [List.foldl_cons, hstep]
      exact ih events (before ++ [proof]) own (by rw [hhistory]; simp) hnext
        (fun e he => hchain e (List.mem_cons_of_mem _ he)) hrest
        (fun e he => htells e (List.mem_cons_of_mem _ he))

/-- The live suffix lists, after events that were applied already, exactly the events since the held
proof, and the response shows a joined room. -/
structure ShowsChanges (userId : Str) (history : List OwnEvent) (c : Checkpoint)
    (room : SlidingRoom) : Prop where
  shown : ∃ before proof chain old fresh, history = before ++ proof :: chain ∧
    c.membership = .str proof.id ∧ (∀ e ∈ chain, e.membership = .join) ∧
    room.live.filter (isOwnEvent userId) = old ++ fresh ∧
    (∀ event ∈ old, event.eventId = c.membership ∨ event.eventId ∈ c.eventIds) ∧
    fresh.map (·.eventId) = chain.map (fun e => .str e.id)
  listed : room.own userId ≠ []

theorem slidingMembership_complete {env : Env} {s : Session} {roomId : Str} {room : SlidingRoom}
    {history : List OwnEvent} (hholds : Holds history (s.checkpoint roomId))
    (h : Truthful env.userId history (s.checkpoint roomId).membership room)
    (hshows : ShowsChanges env.userId history (s.checkpoint roomId) room) :
    (s.slidingMembership env roomId room).2 = true := by
  obtain ⟨before, proof, chain, old, fresh, hhistory, hheld, hjoins, hlive, hold, hfresh⟩ :=
    hshows.shown
  have hheldJoin : proof.membership = .join ∧
      ∀ e ∈ chain, .str e.id ∉ (s.checkpoint roomId).eventIds := by
    rcases hholds.proof with hnull | ⟨before', proof', after', hhistory', hjoin', hheld', hnew'⟩
    · rw [hheld] at hnull
      exact (nomatch hnull)
    · have hnodup := hholds.nodup
      rw [hhistory] at hnodup
      obtain ⟨-, rfl, rfl⟩ := split_unique hnodup (hhistory.symm.trans hhistory')
        (Json.str.inj (hheld.symm.trans hheld'))
      exact ⟨hjoin', hnew'⟩
  have htells : ∀ event ∈ fresh, ∃ before own after, history = before ++ own :: after ∧
      Tells env.userId before own event ∧ isOwnEvent env.userId event = true := by
    intro event he
    have hmem : event ∈ room.live.filter (isOwnEvent env.userId) := by
      rw [hlive]
      exact List.mem_append_right _ he
    obtain ⟨hin, hown⟩ := List.mem_filter.mp hmem
    obtain ⟨front, own, after, hsplit, ht⟩ := h.tells event (List.mem_append_right _ hin) hown
    exact ⟨front, own, after, hsplit, ht, hown⟩
  have hcurrent : history.getLast? = some ((proof :: chain).getLast (by simp)) := by
    rw [hhistory, List.getLast?_append, List.getLast?_eq_some_getLast (by simp)]
    rfl
  have hscan : scanLive env.userId (s.checkpoint roomId).eventIds room.live
      (s.checkpoint roomId).membership =
        (.str ((proof :: chain).getLast (by simp)).id, false) := by
    have hskipped : old.foldl (scanStep env.userId (s.checkpoint roomId).eventIds)
        ((s.checkpoint roomId).membership, false) = ((s.checkpoint roomId).membership, false) :=
      scan_old hold
    rw [scanLive_eq, scan_filter, hlive, List.foldl_append, hskipped, hheld]
    exact scan_chain hholds.nodup chain fresh before proof hhistory hheldJoin.1
      (fun e he => ⟨hjoins e he, hheldJoin.2 e he⟩) hfresh htells
  have hjoined : ((proof :: chain).getLast (by simp)).membership = .join := by
    rcases List.mem_cons.mp (List.getLast_mem (List.cons_ne_nil proof chain)) with heq | hmem
    · rw [heq]
      exact hheldJoin.1
    · exact hjoins _ hmem
  obtain ⟨hleave, hban, hinvite, hstripped⟩ := h.status _ hcurrent hjoined
  unfold Session.slidingMembership
  dsimp only
  rw [if_neg (by simp [hleave, hban, hinvite, hstripped]), hscan]
  cases hown : (room.own env.userId).getLast? with
  | none => exact absurd (List.getLast?_eq_none_iff.mp hown) hshows.listed
  | some event =>
    obtain ⟨hevent, own, hlast, hid⟩ := h.last event hown
    rw [hcurrent] at hlast
    obtain rfl := Option.some.inj hlast
    have hmem : event ∈ room.requiredState ++ room.live :=
      List.mem_of_mem_filter (List.mem_of_getLast? hown)
    obtain ⟨front, own', after, hsplit, ht⟩ := h.tells event hmem hevent
    obtain ⟨rfl, -⟩ := tells_last hholds.nodup hsplit ht hcurrent hid
    unfold SlidingRoom.own at hown
    rw [hown]
    dsimp only
    rw [ht.cls, hjoined]
    simp [hid]

/-! ## Checkpoints -/

/-- The room as `SlidingSource.commit` sees it -/
def SlidingRoom.replaced (room : SlidingRoom) (crypto : Crypto) (roomId : Str)
    (suppressIds : List Json) : SlidingRoom :=
  { room with timeline := replacedTimeline crypto roomId suppressIds room.timeline }

/-- The checkpoints that truthful responses leave while the history goes on. -/
inductive CheckpointReached (env : Env) (roomId : Str) : List OwnEvent → Checkpoint → Prop
  | start {history : List OwnEvent} (nodup : (history.map (·.id)).Nodup) :
      CheckpointReached env roomId history .empty
  /-- Events happen that no response has shown. -/
  | happen {history new : List OwnEvent} {c : Checkpoint}
      (reached : CheckpointReached env roomId history c)
      (nodup : ((history ++ new).map (·.id)).Nodup) (unseen : ∀ e ∈ new, .str e.id ∉ c.eventIds) :
      CheckpointReached env roomId (history ++ new) c
  /-- `SlidingSource.commit` -/
  | commit {history : List OwnEvent} {crypto : Crypto} {plan : Plan} {w : Work}
      {room : SlidingRoom} {c' : Checkpoint}
      (reached : CheckpointReached env roomId history (w.session.checkpoint roomId))
      (truthful : Truthful env.userId history (w.session.checkpoint roomId).membership
        (room.replaced crypto roomId (plan.slidingRoom w roomId).suppressIds))
      (run : (commitSlidingRoom env crypto plan w (roomId, room)).map
        (fun w' => w'.session.checkpoint roomId) = .ok c') :
      CheckpointReached env roomId history c'
  /-- `forget_room` -/
  | forget {history : List OwnEvent} {c : Checkpoint}
      (reached : CheckpointReached env roomId history c) :
      CheckpointReached env roomId history .empty

theorem Session.checkpoint_setCheckpoint (s : Session) (roomId : Str) (c : Checkpoint) :
    (s.setCheckpoint roomId c).checkpoint roomId = c := by
  unfold Session.setCheckpoint Session.checkpoint
  rw [dictGet?_dictSet, if_pos rfl]
  rfl

theorem Session.checkpoint_forgetRoom (s : Session) (roomId : Str) :
    (s.forgetRoom roomId).checkpoint roomId = .empty := by
  unfold Session.forgetRoom Session.checkpoint
  rw [dictGet?_dictErase, if_pos rfl]
  rfl

theorem nextCheckpoint_membership (prior : Checkpoint) (proof : Json) (room : SlidingRoom)
    (plan : SlidingRoomPlan) : (nextCheckpoint prior proof room plan).membership = proof := by
  unfold nextCheckpoint
  dsimp only
  rw [apply_ite Checkpoint.membership]
  exact ite_self _

/-- A commit leaves no checkpoint, or one whose proof is that of the response. -/
theorem commitSlidingRoom_checkpoint {env : Env} {crypto : Crypto} {plan : Plan} {w : Work}
    {roomId : Str} {room : SlidingRoom} {c : Checkpoint}
    (h : (commitSlidingRoom env crypto plan w (roomId, room)).map
      (fun w' => w'.session.checkpoint roomId) = .ok c) :
    c = .empty ∨ c.membership ≠ .null ∧ c.membership =
      (w.session.slidingMembership env roomId
        (room.replaced crypto roomId (plan.slidingRoom w roomId).suppressIds)).1 := by
  cases hrun : commitSlidingRoom env crypto plan w (roomId, room) with
  | error e => rw [hrun] at h; exact (nomatch h)
  | ok w' =>
    rw [hrun] at h
    cases h
    unfold commitSlidingRoom at hrun
    dsimp only at hrun
    split at hrun
    next hproof =>
      obtain ⟨size, -, hrun⟩ := bind_eq_ok.mp hrun
      split at hrun
      · exact (nomatch hrun)
      · cases hrun
        right
        dsimp only
        rw [Session.checkpoint_setCheckpoint, nextCheckpoint_membership]
        exact ⟨hproof.1, rfl⟩
    · cases hrun
      left
      exact Session.checkpoint_forgetRoom _ _

theorem Holds.empty {history : List OwnEvent} (h : (history.map (·.id)).Nodup) :
    Holds history .empty :=
  ⟨h, Or.inl rfl⟩

theorem holds_of_reached {env : Env} {roomId : Str} {history : List OwnEvent} {c : Checkpoint}
    (h : CheckpointReached env roomId history c) : Holds history c := by
  induction h with
  | start nodup => exact .empty nodup
  | @happen history new c reached nodup unseen ih =>
    refine ⟨nodup, ih.proof.imp_right ?_⟩
    rintro ⟨before, proof, after, rfl, hjoin, hheld, hnew⟩
    refine ⟨before, proof, after ++ new, by simp, hjoin, hheld, ?_⟩
    intro e he
    exact (List.mem_append.mp he).elim (hnew e) (unseen e)
  | commit reached truthful run ih =>
    rcases commitSlidingRoom_checkpoint run with rfl | ⟨hne, hproof⟩
    · exact .empty ih.nodup
    · rw [hproof] at hne
      obtain ⟨own, hlast, hjoin, hid⟩ := slidingMembership_proves ih.nodup ih.proven truthful hne
      obtain ⟨start, hstart⟩ := List.getLast?_eq_some_iff.mp hlast
      -- the proof is the current event: nothing comes after it
      exact ⟨ih.nodup, Or.inr ⟨start, own, [], hstart, hjoin, hproof.trans hid,
        fun _ he => (nomatch he)⟩⟩
  | forget reached ih => exact .empty ih.nodup

/-! ## Continuity -/

theorem recoveryStart_continues {env : Env} {s : Session} {roomId : Str} {room : SlidingRoom}
    (h : (recoveryStart env s roomId room).isSome) :
    (s.slidingMembership env roomId room).2 = true := by
  unfold recoveryStart at h
  split at h
  next hcontinues => exact hcontinues.1
  · exact (nomatch h)

/-- A truthful response continues the held tenure, and is recovered from its checkpoint, only when
the user was joined ever since; and a live suffix that lists the changes since the held proof, all
joins, continues it. -/
theorem sliding_continuity {env : Env} {roomId : Str} {history : List OwnEvent} {s : Session}
    {room : SlidingRoom} (hreached : CheckpointReached env roomId history (s.checkpoint roomId))
    (h : Truthful env.userId history (s.checkpoint roomId).membership room) :
    ((s.slidingMembership env roomId room).2 = true →
      JoinedSince history (s.checkpoint roomId).membership) ∧
    ((recoveryStart env s roomId room).isSome →
      JoinedSince history (s.checkpoint roomId).membership) ∧
    (ShowsChanges env.userId history (s.checkpoint roomId) room →
      (s.slidingMembership env roomId room).2 = true) := by
  have hholds := holds_of_reached hreached
  have hsound := slidingMembership_sound hholds.nodup hholds.proven h
  exact ⟨hsound, fun hstart => hsound (recoveryStart_continues hstart),
    slidingMembership_complete hholds h⟩

/-! ### An old event behind the current one -/

/-- An own event as a truthful response shows it -/
def ownEvent (own : OwnEvent) (previous : Option OwnEvent) : Event :=
  { plainEvent (.obj [(py "event_id", .str own.id),
      (py "unsigned", .obj (previous.toList.map fun e => (py "replaces_state", .str e.id)))]) with
    cls := .roomMember plainEnv.userId own.membership (previous.any fun e => e.membership = .join) }

theorem tells_ownEvent (before : List OwnEvent) (own : OwnEvent) :
    Tells plainEnv.userId before own (ownEvent own before.getLast?) := by
  refine ⟨rfl, rfl, fun id => ?_⟩
  cases before.getLast? with
  | none =>
    change some Json.null = some (.str id) ↔ _
    simp
  | some previous =>
    change some (Json.str previous.id) = some (.str id) ↔ _
    simp

/-- A response of a joined room with the own events of its state and of its live suffix -/
def joinedRoom (initial : Bool) (requiredState live : List Event) : SlidingRoom :=
  ⟨some (py "join"), [], initial, false, requiredState, live, some (py "p"), true,
    some live.length, []⟩

theorem shows_joinedRoom {history : List OwnEvent} {held : Json} {initial : Bool}
    {requiredState live : List Event}
    (hlisted : ∀ event ∈ requiredState ++ live, ∃ before own after,
      history = before ++ own :: after ∧ event = ownEvent own before.getLast?)
    (hcurrent : ∀ own, history.getLast? = some own →
      ∃ event ∈ requiredState ++ live, event.eventId = .str own.id) :
    Shows plainEnv.userId history held (joinedRoom initial requiredState live) := by
  have hlive : (joinedRoom initial requiredState live).live = live := by
    simp [SlidingRoom.live, SlidingRoom.liveCount, joinedRoom]
  have hown : ∀ event ∈ requiredState ++ live, isOwnMember plainEnv.userId event = true := by
    intro event he
    obtain ⟨before, own, after, -, rfl⟩ := hlisted event he
    simp [isOwnMember, ownEvent, plainEvent]
  refine ⟨?_, ?_, fun _ _ _ => by simp [joinedRoom, py_inj]⟩
  · intro event he _
    rw [hlive] at he
    obtain ⟨before, own, after, hhistory, rfl⟩ := hlisted event he
    exact ⟨before, own, after, hhistory, tells_ownEvent before own⟩
  · intro own hlast _
    obtain ⟨event, he, hid⟩ := hcurrent own hlast
    refine ⟨event, ?_, hid⟩
    unfold SlidingRoom.own
    rw [hlive]
    exact List.mem_filter.mpr ⟨he, hown event he⟩

def joinEvent : OwnEvent := ⟨py "$j", .join⟩

def profileEvent : OwnEvent := ⟨py "$p", .join⟩

def leaveEvent : OwnEvent := ⟨py "$l", .leave⟩

def rejoinEvent : OwnEvent := ⟨py "$r", .join⟩

/-- A session that has a baseline of the room -/
def baselineSession : Session :=
  ⟨.fresh none, [(py "!r", { Metadata.empty with baseline := true })], [], [], [], [], none, [], [],
    true⟩

/-- What the first response of the joined room leaves -/
def joinedSession : Session :=
  baselineSession.setCheckpoint (py "!r") ⟨some (py "p"), .str joinEvent.id, [], []⟩

theorem reached_joined : CheckpointReached plainEnv (py "!r") [joinEvent]
    (joinedSession.checkpoint (py "!r")) := by
  refine @CheckpointReached.commit _ _ _ plainCrypto ⟨none, 0, [], [], [], [], none, none⟩
    ⟨baselineSession, [], .new []⟩ (joinedRoom true [ownEvent joinEvent none] []) _
    (.start (by decide +kernel)) ⟨shows_joinedRoom ?_ ?_, ?_⟩ (by decide +kernel)
  · intro event he
    exact ⟨[], joinEvent, [], rfl, List.mem_singleton.mp he⟩
  · intro own hlast
    exact ⟨_, List.mem_cons_self, by rw [← Option.some.inj hlast]; rfl⟩
  · intro event hlast
    rw [← Option.some.inj hlast]
    exact ⟨rfl, joinEvent, rfl, rfl⟩

/-- A live suffix with a change of the profile -/
def profileRoom : SlidingRoom := joinedRoom false [] [ownEvent profileEvent (some joinEvent)]

theorem truthful_profile : Truthful plainEnv.userId [joinEvent, profileEvent]
    (joinedSession.checkpoint (py "!r")).membership profileRoom := by
  refine ⟨shows_joinedRoom ?_ ?_, ?_⟩
  · intro event he
    exact ⟨[joinEvent], profileEvent, [], rfl, List.mem_singleton.mp he⟩
  · intro own hlast
    exact ⟨_, List.mem_cons_self, by rw [← Option.some.inj hlast]; rfl⟩
  · intro event hlast
    rw [← Option.some.inj hlast]
    exact ⟨by decide +kernel, profileEvent, rfl, rfl⟩

theorem sliding_continuity_profile :
    (joinedSession.slidingMembership plainEnv (py "!r") profileRoom).2 = true ∧
      JoinedSince [joinEvent, profileEvent] (joinedSession.checkpoint (py "!r")).membership := by
  have hreached : CheckpointReached plainEnv (py "!r") [joinEvent, profileEvent]
      (joinedSession.checkpoint (py "!r")) :=
    @CheckpointReached.happen _ _ [joinEvent] [profileEvent] _ reached_joined (by decide +kernel)
      (by decide +kernel)
  obtain ⟨hsound, -, hcomplete⟩ := sliding_continuity hreached truthful_profile
  have hcontinues := hcomplete ⟨⟨[], joinEvent, [profileEvent], [],
    [ownEvent profileEvent (some joinEvent)], rfl, by decide +kernel, by decide +kernel,
    by decide +kernel, fun _ he => (nomatch he), by decide +kernel⟩, by decide +kernel⟩
  exact ⟨hcontinues, hsound hcontinues⟩

/-- The own member left and joined again, as the state says, and the live suffix repeats the old
join. -/
def repeatedRoom : SlidingRoom :=
  joinedRoom false [ownEvent rejoinEvent (some leaveEvent)] [ownEvent joinEvent none]

theorem old_event_continues :
    CheckpointReached plainEnv (py "!r") [joinEvent, leaveEvent, rejoinEvent]
      (joinedSession.checkpoint (py "!r")) ∧
    Shows plainEnv.userId [joinEvent, leaveEvent, rejoinEvent]
      (joinedSession.checkpoint (py "!r")).membership repeatedRoom ∧
    (joinedSession.slidingMembership plainEnv (py "!r") repeatedRoom).2 = true ∧
    (recoveryStart plainEnv joinedSession (py "!r") repeatedRoom).isSome ∧
    ¬ JoinedSince [joinEvent, leaveEvent, rejoinEvent]
      (joinedSession.checkpoint (py "!r")).membership := by
  refine ⟨@CheckpointReached.happen _ _ [joinEvent] [leaveEvent, rejoinEvent] _ reached_joined
    (by decide +kernel) (by decide +kernel), shows_joinedRoom ?_ ?_, by decide +kernel,
    by decide +kernel, ?_⟩
  · intro event he
    rcases List.mem_cons.mp he with rfl | he
    · exact ⟨[joinEvent, leaveEvent], rejoinEvent, [], rfl, rfl⟩
    · exact ⟨[], joinEvent, [leaveEvent, rejoinEvent], rfl, List.mem_singleton.mp he⟩
  · intro own hlast
    exact ⟨_, List.mem_cons_self, by rw [← Option.some.inj hlast]; rfl⟩
  · rintro ⟨before, proof, after, hhistory, hheld, hjoins⟩
    obtain ⟨-, -, hafter⟩ := @split_unique [] before [leaveEvent, rejoinEvent] after joinEvent
      proof (by decide +kernel) hhistory (Json.str.inj hheld)
    exact absurd (hjoins leaveEvent (hafter ▸ List.mem_cons_self)) (by decide +kernel)

end Nio.Durable
