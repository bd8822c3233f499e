import Mathlib.Data.List.Dedup
import Nio.Rooms.Membership

/-!
# Power levels follow the latest state

A room keeps power levels in a map, in defaults and in a copy for each member. What it reports is
compared with what a room reports that has seen nothing but the current state: the create event,
the latest power-level event and then the members that are there.

* `Current` — the current state of a sequence of events
* `Holds` — what a room that follows the state keeps
* `levels_current` — the sequences of events after which a room reports the current state
-/

namespace Nio.Rooms

open Nio.Py Nio.Lib
open Nio.Events (PyError)
open Nio.Durable (Membership)

inductive LevelInput where
  | create (event : RoomCreateEvent)
  | powerLevels (event : PowerLevelsEvent)
  | membership (event : RoomMemberEvent)
  /-- A Sliding response says that there is no `m.room.power_levels` event. -/
  | deletePowerLevels

namespace MatrixRoom

def applyLevel (room : MatrixRoom) : LevelInput → Except PyError MatrixRoom
  | .create event => .ok (room.handleCreate event)
  | .powerLevels event => .ok (room.handlePowerLevels event)
  | .membership event => (room.handleMembership event).map Prod.fst
  | .deletePowerLevels => .ok room.deletePowerLevels

def applyLevels (room : MatrixRoom) (inputs : List LevelInput) : Except PyError MatrixRoom :=
  inputs.foldlM applyLevel room

/-- Two rooms answer every question about power levels alike. -/
structure SameReports (room ref : MatrixRoom) : Prop where
  userLevel : ∀ u, room.powerLevels.getUserLevel u = ref.powerLevels.getUserLevel u
  sendState : ∀ u type,
    room.powerLevels.canUserSendState u type = ref.powerLevels.canUserSendState u type
  sendMessage : ∀ u type,
    room.powerLevels.canUserSendMessage u type = ref.powerLevels.canUserSendMessage u type
  invite : ∀ u, room.powerLevels.canUserInvite u = ref.powerLevels.canUserInvite u
  kick : ∀ u target, room.powerLevels.canUserKick u target = ref.powerLevels.canUserKick u target
  ban : ∀ u target, room.powerLevels.canUserBan u target = ref.powerLevels.canUserBan u target
  redact : ∀ u, room.powerLevels.canUserRedact u = ref.powerLevels.canUserRedact u
  notify : ∀ u type, room.powerLevels.canUserNotify u type = ref.powerLevels.canUserNotify u type
  members : ∀ u, (dictGet? room.users u).map (·.powerLevel) =
    (dictGet? ref.users u).map (·.powerLevel)

end MatrixRoom

/-! ## The current state -/

/-- Of each kind the latest event; of the members those that are there. -/
structure Current where
  create : Option RoomCreateEvent
  levels : Option PowerLevelsEvent
  members : List RoomMemberEvent

namespace Current

def step (c : Current) : LevelInput → Current
  | .create event => { c with create := some event }
  | .powerLevels event => { c with levels := some event }
  | .deletePowerLevels => { c with levels := none }
  | .membership event =>
    let others := c.members.filter fun m => m.stateKey ≠ event.stateKey
    match event.membership with
    | .join | .invite => { c with members := others ++ [event] }
    | .leave | .ban => { c with members := others }
    | .knock => c

def afterAll (inputs : List LevelInput) : Current := inputs.foldl step ⟨none, none, []⟩

/-- The events of a room that has seen only the current state. -/
def inputs (c : Current) : List LevelInput :=
  c.create.toList.map .create ++ c.levels.toList.map .powerLevels ++ c.members.map .membership

def levelsOf (c : Current) : PowerLevels := (c.levels.map (·.powerLevels)).getD .new

def creators (c : Current) : List Str :=
  match c.create with
  | none => []
  | some event =>
    if MatrixRoom.supportsRoomVersion12 event.roomVersion then
      event.sender :: event.additionalCreators
    else []

/-- The level of a user, creators apart. -/
def userLevel (c : Current) (u : Str) : Int :=
  (dictGet? c.levelsOf.users u).getD c.levelsOf.defaults.usersDefault

/-- The members that are there are there by one event each. -/
structure Plain (c : Current) : Prop where
  keys : (c.members.map (·.stateKey)).Nodup
  present : ∀ m ∈ c.members, m.membership = .join ∨ m.membership = .invite

theorem Plain.step {c : Current} (h : c.Plain) (input : LevelInput) :
    (c.step input).Plain := by
  have hothers (event : RoomMemberEvent) :
      Plain { c with members := c.members.filter fun m => m.stateKey ≠ event.stateKey } :=
    ⟨h.keys.sublist (List.filter_sublist.map _), fun m hm => h.present m (List.mem_of_mem_filter hm)⟩
  have hadd (event : RoomMemberEvent) (hevent : event.membership = .join ∨ event.membership = .invite) :
      Plain { c with members :=
        (c.members.filter fun m => m.stateKey ≠ event.stateKey) ++ [event] } := by
    refine ⟨?_, fun m hm => ?_⟩
    · rw [List.map_append]
      refine List.nodup_append.mpr ⟨(hothers event).keys, List.nodup_singleton _, ?_⟩
      intro u hu v hv huv
      obtain ⟨m, hm, rfl⟩ := List.mem_map.mp hu
      have hne := of_decide_eq_true (List.mem_filter.mp hm).2
      exact hne (huv.trans (List.mem_singleton.mp hv))
    · rcases List.mem_append.mp hm with hm | hm
      · exact (hothers event).present m hm
      · exact List.mem_singleton.mp hm ▸ hevent
  cases input with
  | create event => exact ⟨h.keys, h.present⟩
  | powerLevels event => exact ⟨h.keys, h.present⟩
  | deletePowerLevels => exact ⟨h.keys, h.present⟩
  | membership event =>
    simp only [Current.step]
    cases hm : event.membership with
    | join => exact hadd event (.inl hm)
    | invite => exact hadd event (.inr hm)
    | leave => exact hothers event
    | ban => exact hothers event
    | knock => exact h

theorem plain_afterAll (seen : List LevelInput) : (afterAll seen).Plain := by
  induction seen using List.reverseRecOn with
  | nil => exact ⟨List.nodup_nil, fun _ hm => (nomatch hm)⟩
  | append_singleton seen input ih =>
    rw [afterAll, List.foldl_append]
    exact Plain.step ih input

theorem foldl_members {c : Current} {ms : List RoomMemberEvent}
    (hkeys : ((c.members ++ ms).map (·.stateKey)).Nodup)
    (hpresent : ∀ m ∈ ms, m.membership = .join ∨ m.membership = .invite) :
    (ms.map LevelInput.membership).foldl step c = { c with members := c.members ++ ms } := by
  induction ms generalizing c with
  | nil => simp
  | cons m ms ih =>
    have hout : (c.members.filter fun m' => m'.stateKey ≠ m.stateKey) = c.members := by
      refine List.filter_eq_self.mpr fun m' hm' => decide_eq_true fun he => ?_
      rw [List.map_append, List.nodup_append] at hkeys
      exact hkeys.2.2 m'.stateKey (List.mem_map_of_mem hm') m.stateKey
        (List.mem_map_of_mem List.mem_cons_self) he
    have hstep : c.step (.membership m) = { c with members := c.members ++ [m] } := by
      rcases hpresent m List.mem_cons_self with hm | hm
      · simp only [step, hm, hout]
      · simp only [step, hm, hout]
    rw [List.map_cons, List.foldl_cons, hstep, ih]
    · simp
    · simpa using hkeys
    · exact fun m' hm' => hpresent m' (List.mem_cons_of_mem _ hm')

/-- The current state of the current state is the current state. -/
theorem afterAll_inputs {c : Current} (hc : c.Plain) : afterAll c.inputs = c := by
  have hstate : (c.create.toList.map LevelInput.create ++
      c.levels.toList.map LevelInput.powerLevels).foldl step ⟨none, none, []⟩ =
      ⟨c.create, c.levels, []⟩ := by
    cases c.create <;> cases c.levels <;> rfl
  unfold afterAll inputs
  rw [List.foldl_append, hstate]
  exact @foldl_members ⟨c.create, c.levels, []⟩ c.members hc.keys hc.present

end Current

namespace MatrixRoom

/-! ## What a room keeps -/

/-- The level that a member's object has. -/
def level (room : MatrixRoom) (u : Str) : Option Int := (dictGet? room.users u).map (·.powerLevel)

structure Holds (room : MatrixRoom) (c : Current) : Prop where
  wellFormed : WellFormed room
  keys : (room.powerLevels.users.map (·.1)).Nodup
  defaults : room.powerLevels.defaults = c.levelsOf.defaults
  users : ∀ u,
    (dictGet? room.powerLevels.users u).getD c.levelsOf.defaults.usersDefault = c.userLevel u
  state : ∀ type, room.powerLevels.getStateEventRequiredLevel type =
    c.levelsOf.getStateEventRequiredLevel type
  message : ∀ type, room.powerLevels.getMessageEventRequiredLevel type =
    c.levelsOf.getMessageEventRequiredLevel type
  creators : ∀ u, u ∈ room.powerLevels.creators ↔ u ∈ c.creators
  sameCreators : room.creators = room.powerLevels.creators
  level : ∀ u, room.level u =
    if u ∈ c.members.map (·.stateKey) then some (c.userLevel u) else none

/-- Two rooms that keep the same state answer alike. -/
theorem Holds.sameReports {room ref : MatrixRoom} {c : Current} (h : Holds room c)
    (h' : Holds ref c) : SameReports room ref := by
  have hlevel (u : Str) : room.powerLevels.getUserLevel u = ref.powerLevels.getUserLevel u := by
    unfold PowerLevels.getUserLevel
    rw [h.defaults, h'.defaults, h.users, h'.users]
    simp only [h.creators, h'.creators]
  have hdefaults : room.powerLevels.defaults = ref.powerLevels.defaults :=
    h.defaults.trans h'.defaults.symm
  have hrank (required : Int) (u : Str) (target : Option Str) :
      room.powerLevels.outranks required u target = ref.powerLevels.outranks required u target := by
    unfold PowerLevels.outranks
    cases target <;> simp only [hlevel]
  constructor
  · exact hlevel
  · intro u type
    rw [PowerLevels.canUserSendState, PowerLevels.canUserSendState, hlevel, h.state, h'.state]
  · intro u type
    rw [PowerLevels.canUserSendMessage, PowerLevels.canUserSendMessage, hlevel, h.message,
      h'.message]
  · intro u
    rw [PowerLevels.canUserInvite, PowerLevels.canUserInvite, hlevel, hdefaults]
  · intro u target
    rw [PowerLevels.canUserKick, PowerLevels.canUserKick, hrank, hdefaults]
  · intro u target
    rw [PowerLevels.canUserBan, PowerLevels.canUserBan, hrank, hdefaults]
  · intro u
    rw [PowerLevels.canUserRedact, PowerLevels.canUserRedact, hlevel, hdefaults]
  · intro u type
    rw [PowerLevels.canUserNotify, PowerLevels.canUserNotify, hlevel,
      PowerLevels.getNotificationRequiredLevel, PowerLevels.getNotificationRequiredLevel, hdefaults]
  · intro u
    exact (h.level u).trans (h'.level u).symm

theorem holds_new : Holds new ⟨none, none, []⟩ where
  wellFormed := wellFormed_new
  keys := List.nodup_nil
  defaults := rfl
  users := fun _ => rfl
  state := fun _ => rfl
  message := fun _ => rfl
  creators := fun _ => Iff.rfl
  sameCreators := rfl
  level := fun _ => rfl

/-! ## Dictionaries -/

theorem dictGet?_map_values {α : Type} (d : List (Str × α)) (f : α → α) (k : Str) :
    dictGet? (d.map fun p => (p.1, f p.2)) k = (dictGet? d k).map f := by
  induction d with
  | nil => rfl
  | cons p d ih =>
    rw [List.map_cons, dictGet?_cons, dictGet?_cons, ih]
    split <;> rfl

/-- What the argument of `update` has wins. -/
theorem dictGet?_dictUpdate (d : List (Str × Int)) {d' : List (Str × Int)}
    (hd' : (d'.map (·.1)).Nodup) (k : Str) :
    dictGet? (PowerLevels.dictUpdate d d') k = (dictGet? d' k).or (dictGet? d k) := by
  unfold PowerLevels.dictUpdate
  induction d' generalizing d with
  | nil => rfl
  | cons p d' ih =>
    rw [List.map_cons, List.nodup_cons] at hd'
    rw [List.foldl_cons, ih _ hd'.2, dictGet?_dictSet, dictGet?_cons]
    by_cases hk : p.1 = k
    · subst hk
      rw [dictGet?_eq_none_iff.mpr hd'.1]
      simp
    · simp [hk, Ne.symm hk]

/-! ## State events -/

theorem Holds.handleCreate {room : MatrixRoom} {c : Current} (h : Holds room c)
    (event : RoomCreateEvent)
    (hversion : supportsRoomVersion12 event.roomVersion = true ∨ room.creators = []) :
    Holds (room.handleCreate event) (c.step (.create event)) := by
  unfold MatrixRoom.handleCreate
  by_cases hv : supportsRoomVersion12 event.roomVersion = true
  · simp only [hv, if_true]
    exact
      { wellFormed := ⟨h.wellFormed.keys, h.wellFormed.userId, h.wellFormed.same,
          h.wellFormed.invited, h.wellFormed.names⟩
        keys := h.keys
        defaults := h.defaults
        users := h.users
        state := h.state
        message := h.message
        creators := fun u => by simp [Current.step, Current.creators, hv]
        sameCreators := rfl
        level := h.level }
  · have hnone := hversion.resolve_left hv
    simp only [hv, Bool.false_eq_true, if_false]
    exact
      { wellFormed := ⟨h.wellFormed.keys, h.wellFormed.userId, h.wellFormed.same,
          h.wellFormed.invited, h.wellFormed.names⟩
        keys := h.keys
        defaults := h.defaults
        users := h.users
        state := h.state
        message := h.message
        creators := fun u => by
          simp [Current.step, Current.creators, hv, ← h.sameCreators, hnone]
        sameCreators := h.sameCreators
        level := h.level }

/-- A change of every object that leaves the id, the name and the flag alone. -/
theorem WellFormed.mapUsers {room room' : MatrixRoom} (h : WellFormed room)
    {f : MatrixUser → MatrixUser} (hid : ∀ user, (f user).userId = user.userId)
    (hname : ∀ user, (f user).name = user.name) (hflag : ∀ user, (f user).invited = user.invited)
    (husers : room'.users = room.users.map fun p => (p.1, f p.2))
    (hinvited : room'.invitedUsers = room.invitedUsers.map fun p => (p.1, f p.2))
    (hnames : room'.names = room.names) : WellFormed room' := by
  have hlookup (u : Str) : dictGet? room'.users u = (dictGet? room.users u).map f := by
    rw [husers, dictGet?_map_values]
  have hentry (u : Str) : dictGet? room'.invitedUsers u = (dictGet? room.invitedUsers u).map f := by
    rw [hinvited, dictGet?_map_values]
  refine ⟨?_, fun u w hw => ?_, fun u w hw => ?_, fun u w hw => ?_, ?_⟩
  · rw [husers, List.map_map]
    exact h.keys
  · rw [hlookup] at hw
    obtain ⟨user, hu, rfl⟩ := Option.map_eq_some_iff.mp hw
    rw [hid, h.userId u user hu]
  · rw [hentry] at hw
    obtain ⟨user, hu, rfl⟩ := Option.map_eq_some_iff.mp hw
    rw [hlookup, h.same u user hu, Option.map_some]
  · rw [hlookup] at hw
    obtain ⟨user, hu, rfl⟩ := Option.map_eq_some_iff.mp hw
    rw [hflag, hentry, Option.isSome_map]
    exact h.invited u user hu
  · have hbears : bears room'.users = bears room.users := by
      funext u
      rw [bears, hlookup, Option.map_map, bears]
      exact congrArg (fun g => Option.map g _) (funext hname)
    rw [hnames, hbears]
    exact h.names

/-- The deletion replaces the levels, and those of the members. -/
theorem Holds.deletePowerLevels {room : MatrixRoom} {c : Current} (h : Holds room c) :
    Holds room.deletePowerLevels (c.step .deletePowerLevels) where
  wellFormed := h.wellFormed.mapUsers (f := fun user => { user with powerLevel := 0 })
    (fun _ => rfl) (fun _ => rfl) (fun _ => rfl) rfl rfl rfl
  keys := List.nodup_nil
  defaults := rfl
  users := fun _ => rfl
  state := fun _ => rfl
  message := fun _ => rfl
  creators := fun u => by
    change u ∈ room.creators ↔ u ∈ c.creators
    rw [h.sameCreators]
    exact h.creators u
  sameCreators := rfl
  level := fun u => by
    have hu := h.level u
    change (dictGet? (room.users.map fun p => (p.1, { p.2 with powerLevel := 0 })) u).map _ = _
    rw [@dictGet?_map_values MatrixUser room.users (fun user => { user with powerLevel := 0 }) u,
      Option.map_map]
    unfold MatrixRoom.level at hu
    split at hu
    next hin =>
      obtain ⟨user, hlookup, -⟩ := Option.map_eq_some_iff.mp hu
      rw [hlookup]
      exact (if_pos hin).symm
    next hin =>
      rw [Option.map_eq_none_iff.mp hu]
      exact (if_neg hin).symm

/-! ## Power-level events -/

/-- The merge of an event into the held maps drops nothing: each user and each event type that the
event leaves out has the level that the event's defaults give, and so have the members that neither
map lists. -/
structure Replaces (room : MatrixRoom) (event : PowerLevelsEvent) : Prop where
  users : ∀ u level, dictGet? room.powerLevels.users u = some level →
    dictGet? event.powerLevels.users u = none → level = event.powerLevels.defaults.usersDefault
  events : ∀ type level, dictGet? room.powerLevels.events type = some level →
    dictGet? event.powerLevels.events type = none →
    level = event.powerLevels.defaults.stateDefault ∧
      level = event.powerLevels.defaults.eventsDefault
  members : ∀ u user, dictGet? room.users u = some user →
    dictGet? room.powerLevels.users u = none → dictGet? event.powerLevels.users u = none →
    room.powerLevels.defaults.usersDefault = event.powerLevels.defaults.usersDefault

/-- The loop over the levels gives each listed member its level. -/
theorem WellFormed.setLevels {room : MatrixRoom} (h : WellFormed room) {levels : List (Str × Int)}
    (hlevels : (levels.map (·.1)).Nodup) {room' : MatrixRoom}
    (hroom' : room' = levels.foldl (fun room p =>
      if (dictGet? room.users p.1).isSome then
        room.modifyUser p.1 fun u => { u with powerLevel := p.2 }
      else room) room) :
    WellFormed room' ∧ room'.powerLevels = room.powerLevels ∧ room'.creators = room.creators ∧
      ∀ u, room'.level u = (room.level u).map ((dictGet? levels u).getD ·) := by
  induction levels generalizing room with
  | nil =>
    subst hroom'
    exact ⟨h, rfl, rfl, fun u => by simp [dictGet?]⟩
  | cons p levels ih =>
    rw [List.map_cons, List.nodup_cons] at hlevels
    rw [List.foldl_cons] at hroom'
    have hround : ∀ room₁, room₁ = (if (dictGet? room.users p.1).isSome then
        room.modifyUser p.1 fun u => { u with powerLevel := p.2 } else room) →
        WellFormed room₁ ∧ room₁.powerLevels = room.powerLevels ∧ room₁.creators = room.creators ∧
          ∀ u, room₁.level u = if u = p.1 then (room.level u).map fun _ => p.2 else room.level u := by
      rintro room₁ rfl
      split
      next hin =>
        have hnames : bears (room.modifyUser p.1 fun w => { w with powerLevel := p.2 }).users =
            bears room.users :=
          bears_modifyUser_of_name (f := fun w => { w with powerLevel := p.2 }) (fun _ => rfl) p.1
        have hkeep := @WellFormed.modifyUser room h p.1 (fun w => { w with powerLevel := p.2 })
          (fun _ => rfl) (fun _ => rfl) _ (hnames ▸ h.names)
        refine ⟨hkeep.1, rfl, rfl, fun u => ?_⟩
        unfold MatrixRoom.level
        rw [dictGet?_modifyUser]
        split
        next => simp [Option.map_map, Function.comp_def]
        next => rfl
      next hin =>
        refine ⟨h, rfl, rfl, fun u => ?_⟩
        split
        next hu =>
          have hnone : dictGet? room.users u = none := by
            rw [hu]
            simpa using hin
          simp [MatrixRoom.level, hnone]
        next => rfl
    obtain ⟨hwf, hpower, hcreators, hlevel⟩ := hround _ rfl
    obtain ⟨hwf', hpower', hcreators', hlevel'⟩ := ih hwf hlevels.2 hroom'
    refine ⟨hwf', hpower'.trans hpower, hcreators'.trans hcreators, fun u => ?_⟩
    rw [hlevel', hlevel, dictGet?_cons]
    by_cases hu : u = p.1
    · subst hu
      rw [dictGet?_eq_none_iff.mpr hlevels.1]
      cases room.level p.1 <;> simp
    · simp [hu, Ne.symm hu]

/-- An old value that a new list leaves out is that of the new default. -/
theorem getD_or_replaced {α : Type} {new old : Option α} {default : α}
    (h : ∀ value, old = some value → new = none → value = default) :
    (new.or old).getD default = new.getD default := by
  cases new with
  | some value => rfl
  | none =>
    cases old with
    | some value => exact h value rfl rfl
    | none => rfl

theorem Holds.handlePowerLevels {room : MatrixRoom} {c : Current} (h : Holds room c)
    {event : PowerLevelsEvent} (hreplaces : Replaces room event) :
    Holds (room.handlePowerLevels event) (c.step (.powerLevels event)) := by
  have husers (u : Str) : dictGet? (room.powerLevels.update event.powerLevels).users u =
      (dictGet? event.powerLevels.users u).or (dictGet? room.powerLevels.users u) :=
    dictGet?_dictUpdate _ event.usersKeys u
  have hevents (type : Str) : dictGet? (room.powerLevels.update event.powerLevels).events type =
      (dictGet? event.powerLevels.events type).or (dictGet? room.powerLevels.events type) :=
    dictGet?_dictUpdate _ event.eventsKeys type
  have hkeys : ((room.powerLevels.update event.powerLevels).users.map (·.1)).Nodup :=
    (foldl_dictSet h.keys event.powerLevels.users).1
  have hwf : WellFormed { room with powerLevels := room.powerLevels.update event.powerLevels } :=
    ⟨h.wellFormed.keys, h.wellFormed.userId, h.wellFormed.same, h.wellFormed.invited,
      h.wellFormed.names⟩
  obtain ⟨hwf', hpower, hcreators, hlevel⟩ :=
    @WellFormed.setLevels _ hwf _ hkeys (room.handlePowerLevels event) rfl
  refine ⟨hwf', ?_, ?_, fun u => ?_, fun type => ?_, fun type => ?_, fun u => ?_, ?_, fun u => ?_⟩
  · rw [hpower]
    exact hkeys
  · rw [hpower]
    rfl
  · rw [hpower]
    change (dictGet? _ u).getD event.powerLevels.defaults.usersDefault =
      (dictGet? event.powerLevels.users u).getD event.powerLevels.defaults.usersDefault
    rw [husers]
    exact getD_or_replaced (hreplaces.users u)
  · rw [hpower]
    change (dictGet? _ type).getD event.powerLevels.defaults.stateDefault =
      (dictGet? event.powerLevels.events type).getD event.powerLevels.defaults.stateDefault
    rw [hevents]
    exact getD_or_replaced fun level hold hnew => (hreplaces.events type level hold hnew).1
  · rw [hpower]
    change (dictGet? _ type).getD event.powerLevels.defaults.eventsDefault =
      (dictGet? event.powerLevels.events type).getD event.powerLevels.defaults.eventsDefault
    rw [hevents]
    exact getD_or_replaced fun level hold hnew => (hreplaces.events type level hold hnew).2
  · rw [hpower]
    exact h.creators u
  · rw [hpower, hcreators]
    exact h.sameCreators
  · rw [hlevel]
    change (room.level u).map _ = if u ∈ c.members.map (·.stateKey) then
      some ((dictGet? event.powerLevels.users u).getD event.powerLevels.defaults.usersDefault)
      else none
    rw [husers, h.level u]
    by_cases hin : u ∈ c.members.map (·.stateKey)
    · rw [if_pos hin, if_pos hin, Option.map_some]
      cases hnew : dictGet? event.powerLevels.users u with
      | some level => rfl
      | none =>
        cases hold : dictGet? room.powerLevels.users u with
        | some level => exact congrArg some (hreplaces.users u level hold hnew)
        | none =>
          -- a member that neither map lists keeps the level of the held defaults
          obtain ⟨user, huser, -⟩ := Option.map_eq_some_iff.mp ((h.level u).trans (if_pos hin))
          have hheld := h.users u
          rw [hold, Option.getD_none, ← h.defaults] at hheld
          rw [Option.or_none, Option.getD_none, Option.getD_none, ← hheld,
            hreplaces.members u user huser hold hnew]
    · rw [if_neg hin, if_neg hin, Option.map_none]

/-! ## Membership -/

theorem level_modifyUser {room : MatrixRoom} {f : MatrixUser → MatrixUser}
    (hf : ∀ user, (f user).powerLevel = user.powerLevel) (u v : Str) :
    (room.modifyUser u f).level v = room.level v := by
  unfold level
  rw [dictGet?_modifyUser]
  split
  next =>
    rw [Option.map_map]
    exact congrArg (fun g => Option.map g _) (funext hf)
  next => rfl

theorem levels_removeMember {room room' : MatrixRoom} {u : Str} {changed : Bool}
    (hok : room.removeMember u = .ok (room', changed)) :
    room'.powerLevels = room.powerLevels ∧ room'.creators = room.creators ∧
      ∀ v, room'.level v = if v = u then none else room.level v := by
  unfold removeMember at hok
  cases hn : removeNameOf room.names (dictGet? room.users u) with
  | error e =>
    simp only [hn] at hok
    cases hok
  | ok names =>
    simp only [hn] at hok
    cases hok
    refine ⟨rfl, rfl, fun v => ?_⟩
    simp only [level, dictGet?_dictErase]
    split <;> rfl

theorem levels_addMember (room : MatrixRoom) (u : Str) (displayName avatarUrl : Option Str)
    (invited : Bool) :
    (room.addMember u displayName avatarUrl invited).1.powerLevels = room.powerLevels ∧
      (room.addMember u displayName avatarUrl invited).1.creators = room.creators ∧
      ∀ v, (room.addMember u displayName avatarUrl invited).1.level v =
        if v = u then some ((room.level u).getD
          ((dictGet? room.powerLevels.users u).getD room.powerLevels.defaults.usersDefault))
        else room.level v := by
  by_cases habsent : room.presenceOf u = .absent
  · rw [addMember_of_absent habsent]
    refine ⟨rfl, rfl, fun v => ?_⟩
    simp only [level, dictGet?_dictSet, presenceOf_eq_absent_iff.mp habsent]
    split <;> rfl
  · rw [addMember_of_present habsent]
    refine ⟨rfl, rfl, fun v => ?_⟩
    split
    next hv =>
      obtain ⟨user, huser⟩ := Option.ne_none_iff_exists'.mp
        fun hn => habsent (presenceOf_eq_absent_iff.mpr hn)
      simp [level, hv, huser]
    next => rfl

theorem levels_setInvited (room : MatrixRoom) (u : Str) (invited : Bool) :
    (room.setInvited u invited).powerLevels = room.powerLevels ∧
      (room.setInvited u invited).creators = room.creators ∧
      ∀ v, (room.setInvited u invited).level v = room.level v := by
  have hlevel := @level_modifyUser room (fun w => { w with invited }) (fun _ => rfl) u
  cases invited with
  | true => exact ⟨rfl, rfl, hlevel⟩
  | false => exact ⟨rfl, rfl, hlevel⟩

theorem levels_changeDisplayName {room room' : MatrixRoom} {u : Str} {user : MatrixUser}
    {displayName : Option (Option Str)} (hok : room.changeDisplayName u user displayName = .ok room') :
    room'.powerLevels = room.powerLevels ∧ room'.creators = room.creators ∧
      ∀ v, room'.level v = room.level v := by
  cases displayName with
  | none =>
    cases hok
    exact ⟨rfl, rfl, fun _ => rfl⟩
  | some displayName =>
    unfold changeDisplayName at hok
    cases hn : removeName room.names user.name user.userId with
    | error e =>
      rw [hn] at hok
      cases hok
    | ok names =>
      rw [hn] at hok
      cases hok
      exact ⟨rfl, rfl, level_modifyUser (f := fun w => { w with displayName }) (fun _ => rfl) u⟩

theorem levels_changeAvatarUrl (room : MatrixRoom) (u : Str) (avatarUrl : Option (Option Str)) :
    (room.changeAvatarUrl u avatarUrl).powerLevels = room.powerLevels ∧
      (room.changeAvatarUrl u avatarUrl).creators = room.creators ∧
      ∀ v, (room.changeAvatarUrl u avatarUrl).level v = room.level v := by
  cases avatarUrl with
  | none => exact ⟨rfl, rfl, fun _ => rfl⟩
  | some avatarUrl =>
    exact ⟨rfl, rfl, level_modifyUser (f := fun w => { w with avatarUrl }) (fun _ => rfl) u⟩

/-- A user that joins or is invited has the level that it had, or the one that the maps give it. -/
theorem levels_enter {room room' : MatrixRoom} {event : RoomMemberEvent} {invited changed : Bool}
    (hok : room.enter event invited = .ok (room', changed)) :
    room'.powerLevels = room.powerLevels ∧ room'.creators = room.creators ∧
      ∀ v, room'.level v =
        if v = event.stateKey then some ((room.level event.stateKey).getD
          ((dictGet? room.powerLevels.users event.stateKey).getD
            room.powerLevels.defaults.usersDefault))
        else room.level v := by
  unfold enter at hok
  cases hu : dictGet? room.users event.stateKey with
  | none =>
    simp only [hu] at hok
    have hadd := levels_addMember room event.stateKey (event.displayname.getD none)
      (event.avatarUrl.getD none) invited
    rw [Except.ok.inj hok] at hadd
    exact hadd
  | some user =>
    simp only [hu] at hok
    split at hok
    next =>
      have hadd := levels_addMember room event.stateKey (event.displayname.getD none)
        (event.avatarUrl.getD none) invited
      rw [Except.ok.inj hok] at hadd
      exact hadd
    next =>
      obtain ⟨hpower, hcreators, hlevel⟩ := levels_setInvited room event.stateKey invited
      cases hn : (room.setInvited event.stateKey invited).changeDisplayName event.stateKey user
          event.displayname with
      | error e =>
        rw [hn] at hok
        cases hok
      | ok room₁ =>
        rw [hn] at hok
        cases hok
        obtain ⟨hpower₁, hcreators₁, hlevel₁⟩ := levels_changeDisplayName hn
        obtain ⟨hpower₂, hcreators₂, hlevel₂⟩ :=
          levels_changeAvatarUrl room₁ event.stateKey event.avatarUrl
        refine ⟨hpower₂.trans (hpower₁.trans hpower), hcreators₂.trans (hcreators₁.trans hcreators),
          fun v => ?_⟩
        rw [hlevel₂, hlevel₁, hlevel]
        split
        next hv => simp [level, hv, hu]
        next => rfl

/-- The levels of a room whose members the event has changed. -/
theorem Holds.of_members {room room' : MatrixRoom} {c c' : Current} (h : Holds room c)
    (hwf : WellFormed room') (hpower : room'.powerLevels = room.powerLevels)
    (hcreators : room'.creators = room.creators) (hcreate : c'.create = c.create)
    (hlevels : c'.levels = c.levels)
    (hlevel : ∀ u, room'.level u =
      if u ∈ c'.members.map (·.stateKey) then some (c.userLevel u) else none) : Holds room' c' := by
  have hof : c'.levelsOf = c.levelsOf := by rw [Current.levelsOf, hlevels, Current.levelsOf]
  have hcr : c'.creators = c.creators := by rw [Current.creators, hcreate, Current.creators]
  have huser (u : Str) : c'.userLevel u = c.userLevel u := by
    rw [Current.userLevel, hof, Current.userLevel]
  exact
    { wellFormed := hwf
      keys := hpower ▸ h.keys
      defaults := by rw [hpower, hof, h.defaults]
      users := fun u => by rw [hpower, hof, huser, h.users]
      state := fun type => by rw [hpower, hof, h.state]
      message := fun type => by rw [hpower, hof, h.message]
      creators := fun u => by rw [hpower, hcr, h.creators]
      sameCreators := by rw [hcreators, hpower, h.sameCreators]
      level := fun u => by rw [hlevel, huser] }

theorem Holds.handleMembership {room : MatrixRoom} {c : Current} (h : Holds room c)
    (event : RoomMemberEvent) :
    ∃ room', (room.handleMembership event).map Prod.fst = .ok room' ∧
      Holds room' (c.step (.membership event)) := by
  obtain ⟨room', changed, hok, hwf, -⟩ := h.wellFormed.handleMembership event
  refine ⟨room', by rw [hok]; rfl, ?_⟩
  have hothers (u : Str) :
      u ∈ (c.members.filter fun m => m.stateKey ≠ event.stateKey).map (·.stateKey) ↔
        u ∈ c.members.map (·.stateKey) ∧ u ≠ event.stateKey := by
    simp only [List.mem_map, List.mem_filter, decide_eq_true_eq]
    constructor
    · rintro ⟨m, ⟨hm, hne⟩, rfl⟩
      exact ⟨⟨m, hm, rfl⟩, hne⟩
    · rintro ⟨⟨m, hm, rfl⟩, hne⟩
      exact ⟨m, ⟨hm, hne⟩, rfl⟩
  -- the level that a new member gets is the one that the state gives it
  have hnew (u : Str) : (room.level u).getD ((dictGet? room.powerLevels.users u).getD
      room.powerLevels.defaults.usersDefault) = c.userLevel u := by
    rw [h.level, h.defaults, h.users]
    split <;> rfl
  have henter (invited : Bool) (hin : room.enter event invited = .ok (room', changed)) :
      Holds room' { c with members :=
        (c.members.filter fun m => m.stateKey ≠ event.stateKey) ++ [event] } := by
    obtain ⟨hpower, hcreators, hlevel⟩ := levels_enter hin
    refine h.of_members hwf hpower hcreators rfl rfl fun u => ?_
    simp only [hlevel, hnew, List.map_append, List.mem_append, hothers, List.map_cons, List.map_nil,
      List.mem_singleton]
    by_cases hu : u = event.stateKey
    · simp [hu]
    · rw [if_neg hu, h.level]
      simp [hu]
  have hleave (hout : room.removeMember event.stateKey = .ok (room', changed)) :
      Holds room' { c with members := c.members.filter fun m => m.stateKey ≠ event.stateKey } := by
    obtain ⟨hpower, hcreators, hlevel⟩ := levels_removeMember hout
    refine h.of_members hwf hpower hcreators rfl rfl fun u => ?_
    simp only [hlevel, hothers]
    by_cases hu : u = event.stateKey
    · simp [hu]
    · rw [if_neg hu, h.level]
      simp [hu]
  unfold MatrixRoom.handleMembership at hok
  simp only [Current.step]
  cases hm : event.membership with
  | join =>
    rw [hm] at hok
    exact henter _ hok
  | invite =>
    rw [hm] at hok
    exact henter _ hok
  | leave =>
    rw [hm] at hok
    exact hleave hok
  | ban =>
    rw [hm] at hok
    exact hleave hok
  | knock =>
    rw [hm] at hok
    cases hok
    exact h

/-! ## Sequences of events -/

/-- What an event must meet in the room that it is applied to. -/
def Keeps (room : MatrixRoom) : LevelInput → Prop
  | .create event => supportsRoomVersion12 event.roomVersion = true ∨ room.creators = []
  | .powerLevels event => Replaces room event
  | .membership _ | .deletePowerLevels => True

theorem Holds.applyLevel {room : MatrixRoom} {c : Current} (h : Holds room c) {input : LevelInput}
    (hkeeps : Keeps room input) :
    ∃ room', room.applyLevel input = .ok room' ∧ Holds room' (c.step input) := by
  cases input with
  | create event => exact ⟨_, rfl, h.handleCreate event hkeeps⟩
  | powerLevels event => exact ⟨_, rfl, h.handlePowerLevels hkeeps⟩
  | membership event => exact h.handleMembership event
  | deletePowerLevels => exact ⟨_, rfl, h.deletePowerLevels⟩

/-- Every event meets its condition in the room that the events before it have made. -/
def KeepsAlong (inputs : List LevelInput) : Prop :=
  ∀ seen input rest, inputs = seen ++ input :: rest → ∀ room, new.applyLevels seen = .ok room →
    Keeps room input

theorem applyLevels_concat (room : MatrixRoom) (seen : List LevelInput) (input : LevelInput) :
    room.applyLevels (seen ++ [input]) =
      room.applyLevels seen >>= fun room => room.applyLevel input := by
  unfold applyLevels
  rw [List.foldlM_append]
  refine bind_congr fun room => ?_
  exact bind_pure _

theorem holds_along {inputs : List LevelInput} (h : KeepsAlong inputs) {seen rest : List LevelInput}
    (hinputs : inputs = seen ++ rest) :
    ∃ room, new.applyLevels seen = .ok room ∧ Holds room (Current.afterAll seen) := by
  induction seen using List.reverseRecOn generalizing rest with
  | nil => exact ⟨new, rfl, holds_new⟩
  | append_singleton seen input ih =>
    have hsplit : inputs = seen ++ input :: rest := by simp [hinputs]
    obtain ⟨room, hok, hholds⟩ := ih hsplit
    obtain ⟨room', hok', hholds'⟩ := hholds.applyLevel (h seen input rest hsplit room hok)
    refine ⟨room', ?_, ?_⟩
    · rw [applyLevels_concat, hok]
      exact hok'
    · rw [Current.afterAll, List.foldl_append]
      exact hholds'

/-! ## The room that has seen only the current state -/

theorem handleCreate_frame (room : MatrixRoom) (event : RoomCreateEvent) :
    (room.handleCreate event).users = room.users ∧
      (room.handleCreate event).powerLevels.users = room.powerLevels.users ∧
      (room.handleCreate event).powerLevels.events = room.powerLevels.events := by
  unfold handleCreate
  by_cases hv : supportsRoomVersion12 event.roomVersion = true
  · simp [hv]
  · simp [hv]

theorem replaces_of_empty {room : MatrixRoom} {event : PowerLevelsEvent}
    (hlevels : room.powerLevels.users = [] ∧ room.powerLevels.events = [])
    (husers : room.users = []) : Replaces room event := by
  refine ⟨fun u level h => ?_, fun type level h => ?_, fun u user h => ?_⟩
  · rw [hlevels.1] at h
    cases h
  · rw [hlevels.2] at h
    cases h
  · rw [husers] at h
    cases h

/-- The current state drops nothing: there is one event of each kind, and the members come last. -/
theorem keepsAlong_inputs (c : Current) : KeepsAlong c.inputs := by
  intro seen input rest hinputs room hok
  have hmember (h : input ∈ c.members.map LevelInput.membership) : Keeps room input := by
    obtain ⟨m, -, rfl⟩ := List.mem_map.mp h
    trivial
  have hfresh (create : Option RoomCreateEvent) (hseen : seen = create.toList.map .create)
      (event : PowerLevelsEvent) : Replaces room event := by
    subst hseen
    cases create with
    | none =>
      cases hok
      exact replaces_of_empty ⟨rfl, rfl⟩ rfl
    | some e =>
      obtain rfl := Except.ok.inj hok
      obtain ⟨husers, hlevels⟩ := handleCreate_frame new e
      exact replaces_of_empty hlevels husers
  have hlater (before : List LevelInput)
      (hbefore : c.members.map LevelInput.membership = before ++ input :: rest) :
      Keeps room input := by
    refine hmember ?_
    rw [hbefore]
    simp
  unfold Current.inputs at hinputs
  cases hc : c.create with
  | none =>
    rw [hc] at hinputs
    cases hl : c.levels with
    | none =>
      rw [hl] at hinputs
      exact hlater seen hinputs
    | some event =>
      rw [hl] at hinputs
      cases seen with
      | nil =>
        obtain ⟨rfl, -⟩ := List.cons.inj hinputs
        exact hfresh none rfl event
      | cons x seen => exact hlater seen (List.cons.inj hinputs).2
  | some e =>
    rw [hc] at hinputs
    cases seen with
    | nil =>
      obtain rfl := Except.ok.inj hok
      obtain ⟨rfl, -⟩ := List.cons.inj hinputs
      exact .inr rfl
    | cons x seen =>
      cases hl : c.levels with
      | none =>
        rw [hl] at hinputs
        exact hlater seen (List.cons.inj hinputs).2
      | some event =>
        rw [hl] at hinputs
        obtain ⟨rfl, hrest⟩ := List.cons.inj hinputs
        cases seen with
        | nil =>
          obtain ⟨rfl, -⟩ := List.cons.inj hrest
          exact hfresh (some e) rfl event
        | cons y seen => exact hlater seen (List.cons.inj hrest).2

/-- **A room reports the current state after every sequence of events each of which drops nothing**:
a power-level event leaves out no user and no event type whose held level differs from the
event's defaults, and finds its default where a member is listed nowhere; and a create event of an
older version follows none that names creators. -/
theorem levels_current (inputs : List LevelInput) (h : KeepsAlong inputs) (seen rest : List LevelInput)
    (hinputs : inputs = seen ++ rest) :
    ∃ room ref, new.applyLevels seen = .ok room ∧
      new.applyLevels (Current.afterAll seen).inputs = .ok ref ∧ SameReports room ref := by
  obtain ⟨room, hok, hholds⟩ := holds_along h hinputs
  obtain ⟨ref, hok', hholds'⟩ :=
    holds_along (keepsAlong_inputs (Current.afterAll seen)) (List.append_nil _).symm
  rw [Current.afterAll_inputs (Current.plain_afterAll seen)] at hholds'
  exact ⟨room, ref, hok, hok', hholds.sameReports hholds'⟩

/-- An event with the given levels of users, and the defaults that its schema fills in. -/
def levelsEvent (users : List (Str × Int)) (husers : (users.map (·.1)).Nodup) : PowerLevelsEvent :=
  ⟨⟨⟨50, 50, 50, 50, 50, 0, 0, [(py "room", 50)]⟩, users, [], []⟩, husers, List.nodup_nil⟩

/-- Bob joins as an administrator; a second event lowers his level and raises Carol's. -/
def lowered : List LevelInput :=
  [.powerLevels (levelsEvent [(py "@bob:x", 100)] (List.nodup_singleton _)),
    .membership ⟨py "@bob:x", .join, none, none⟩,
    .powerLevels (levelsEvent [(py "@bob:x", 50), (py "@carol:x", 10)] (by decide)),
    .membership ⟨py "@carol:x", .join, none, none⟩]

theorem dictGet?_singleton {α : Type} {k u : Str} {v w : α} (h : dictGet? [(k, v)] u = some w) :
    u = k := by
  by_contra hne
  rw [dictGet?_cons, if_neg (Ne.symm hne)] at h
  cases h

/-- The second event lists Bob, whom both maps of the room have, and nobody else is there. -/
theorem keepsAlong_lowered : KeepsAlong lowered := by
  intro seen input rest hinputs room hok
  unfold lowered at hinputs
  match seen with
  | [] =>
    obtain ⟨rfl, -⟩ := List.cons.inj hinputs
    cases hok
    exact replaces_of_empty ⟨rfl, rfl⟩ rfl
  | [x] =>
    obtain ⟨-, hrest⟩ := List.cons.inj hinputs
    obtain ⟨rfl, -⟩ := List.cons.inj hrest
    trivial
  | [x, y] =>
    simp only [List.cons_append, List.nil_append, List.cons.injEq] at hinputs
    obtain ⟨rfl, rfl, rfl, -⟩ := hinputs
    cases hok
    refine ⟨fun u level hheld hevent => ?_, fun type level hheld => (nomatch hheld),
      fun u user hmember hheld => ?_⟩
    · obtain rfl := dictGet?_singleton hheld
      cases hevent
    · obtain rfl := dictGet?_singleton hmember
      cases hheld
  | x :: y :: z :: seen =>
    simp only [List.cons_append, List.cons.injEq] at hinputs
    obtain ⟨-, -, -, hrest⟩ := hinputs
    obtain ⟨rfl, -⟩ := (List.append_eq_singleton_iff.mp hrest.symm).elim
      (fun h => List.cons.inj h.2) fun h => (nomatch h.2)
    trivial

/-- The room reports the lower level, as the one that has seen only the second event does. -/
theorem levels_current_lowered :
    ∃ room ref, new.applyLevels lowered = .ok room ∧
      new.applyLevels (Current.afterAll lowered).inputs = .ok ref ∧ SameReports room ref ∧
      room.powerLevels.getUserLevel (py "@bob:x") = 50 ∧
      (Current.afterAll lowered).inputs.length = 3 := by
  obtain ⟨room, ref, hroom, href, hsame⟩ :=
    levels_current lowered keepsAlong_lowered lowered [] (List.append_nil _).symm
  refine ⟨room, ref, hroom, href, hsame, ?_, rfl⟩
  have hlevel : (new.applyLevels lowered).map (fun r => r.powerLevels.getUserLevel (py "@bob:x")) =
      .ok 50 := by decide +kernel
  rw [hroom] at hlevel
  exact Except.ok.inj hlevel

/-- The second event takes Bob's level away. -/
def demotion : List LevelInput :=
  [.powerLevels (levelsEvent [(py "@bob:x", 100)] (List.nodup_singleton _)),
    .powerLevels (levelsEvent [] List.nodup_nil)]

theorem demoted_keeps_level :
    ¬ ∃ room ref, new.applyLevels demotion = .ok room ∧
      new.applyLevels (Current.afterAll demotion).inputs = .ok ref ∧ SameReports room ref := by
  rintro ⟨room, ref, hroom, href, hsame⟩
  have hlevel : (new.applyLevels demotion).map (fun r => r.powerLevels.getUserLevel (py "@bob:x")) =
      .ok 100 := by decide +kernel
  have hlevel' : (new.applyLevels (Current.afterAll demotion).inputs).map
      (fun r => r.powerLevels.getUserLevel (py "@bob:x")) = .ok 0 := by decide +kernel
  rw [hroom] at hlevel
  rw [href] at hlevel'
  have held : room.powerLevels.getUserLevel (py "@bob:x") = 100 := Except.ok.inj hlevel
  have current : ref.powerLevels.getUserLevel (py "@bob:x") = 0 := Except.ok.inj hlevel'
  have hreport := hsame.userLevel (py "@bob:x")
  rw [held, current] at hreport
  exact absurd hreport (by decide)

end MatrixRoom

end Nio.Rooms
