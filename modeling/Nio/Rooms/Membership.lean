import Nio.Lib.Index
import Nio.Lib.Run
import Nio.Rooms.MatrixRoom

/-!
# Who is in a room

What the membership events and the answers about the joined members say of each user, and what the
three structures of a room make of them: the users, the invited users and the index of names.

* `WellFormed` — what every operation keeps, whatever the order of events
* `membership_follows_iff` — the sequences of events that the room follows
-/

namespace Nio.Rooms

open Nio.Py Nio.Lib
open Nio.Events (PyError)
open Nio.Durable (Membership)

/-! ## What the events say -/

/-- Where a user is. -/
inductive Presence where
  | absent
  | joined
  | invited
  deriving DecidableEq, Repr

inductive RoomInput where
  | membership (event : RoomMemberEvent)
  /-- The members of a `JoinedMembersResponse` for the room -/
  | joinedMembers (members : List RoomMember)

namespace Presence

/-- What one event leaves of a user; an event with another membership says nothing. -/
def after : Membership → Presence → Presence
  | .join, _ => .joined
  | .invite, _ => .invited
  | .leave, _ | .ban, _ => .absent
  | .knock, p => p

/-- An answer lists the users that have joined, and says nothing of the invited ones. -/
def afterAnswer (listed : Bool) (p : Presence) : Presence :=
  if listed then .joined else if p = .joined then .absent else p

def step (p : Str → Presence) : RoomInput → Str → Presence
  | .membership event, userId =>
    if userId = event.stateKey then after event.membership (p userId) else p userId
  | .joinedMembers members, userId =>
    afterAnswer (members.any fun m => m.userId = userId) (p userId)

/-- Where each user is after a sequence of events in a room that nobody was in. -/
def afterAll (inputs : List RoomInput) : Str → Presence := inputs.foldl step fun _ => .absent

/-- `invited` of a user that is present -/
def flag : Presence → Option Bool
  | .absent => none
  | .joined => some false
  | .invited => some true

end Presence

namespace MatrixRoom

def apply (room : MatrixRoom) : RoomInput → Except PyError MatrixRoom
  | .membership event => (room.handleMembership event).map Prod.fst
  | .joinedMembers members => room.handleJoinedMembers members

def applyAll (room : MatrixRoom) (inputs : List RoomInput) : Except PyError MatrixRoom :=
  inputs.foldlM apply room

/-- The three structures say of every user where the user is. -/
structure Follows (room : MatrixRoom) (p : Str → Presence) : Prop where
  users : ∀ u, (dictGet? room.users u).map (·.invited) = (p u).flag
  invitedUsers : ∀ u, (dictGet? room.invitedUsers u).isSome ↔ p u = .invited
  names : ∀ name, (namesAt room.names name).Nodup ∧ ∀ u, u ∈ namesAt room.names name ↔
    ∃ user, dictGet? room.users u = some user ∧ user.name = name

/-! ## What every operation keeps -/

/-- The name that a user is listed under. -/
def bears (users : List (Str × MatrixUser)) (u : Str) : Option Str :=
  (dictGet? users u).map MatrixUser.name

structure WellFormed (room : MatrixRoom) : Prop where
  keys : (room.users.map (·.1)).Nodup
  userId : ∀ u user, dictGet? room.users u = some user → user.userId = u
  /-- Both dictionaries hold the same object. -/
  same : ∀ u user, dictGet? room.invitedUsers u = some user → dictGet? room.users u = some user
  invited : ∀ u user, dictGet? room.users u = some user →
    (user.invited = true ↔ (dictGet? room.invitedUsers u).isSome)
  names : Indexes (namesAt room.names) (bears room.users)

/-- Where the room has a user. -/
def presenceOf (room : MatrixRoom) (u : Str) : Presence :=
  match dictGet? room.users u with
  | none => .absent
  | some user => if user.invited then .invited else .joined

theorem wellFormed_new : WellFormed new where
  keys := List.nodup_nil
  userId := fun _ _ h => (nomatch h)
  same := fun _ _ h => (nomatch h)
  invited := fun _ _ h => (nomatch h)
  names := fun _ => ⟨List.nodup_nil, fun _ => ⟨fun h => (nomatch h), fun h => (nomatch h)⟩⟩

theorem WellFormed.follows_iff {room : MatrixRoom} (h : WellFormed room) {p : Str → Presence} :
    room.Follows p ↔ ∀ u, room.presenceOf u = p u := by
  have hflag (u : Str) : (dictGet? room.users u).map (·.invited) = (room.presenceOf u).flag := by
    unfold presenceOf
    cases dictGet? room.users u with
    | none => rfl
    | some user => cases hi : user.invited <;> simp [hi, Presence.flag]
  have hinvited (u : Str) :
      (dictGet? room.invitedUsers u).isSome ↔ room.presenceOf u = .invited := by
    unfold presenceOf
    cases hu : dictGet? room.users u with
    | none =>
      refine ⟨fun hs => ?_, fun he => (nomatch he)⟩
      obtain ⟨user, hi⟩ := Option.isSome_iff_exists.mp hs
      rw [h.same u user hi] at hu
      cases hu
    | some user =>
      rw [← h.invited u user hu]
      cases hi : user.invited <;> simp [hi]
  have hflagInj (q q' : Presence) (hq : q.flag = q'.flag) : q = q' := by
    cases q <;> cases q' <;> simp_all [Presence.flag]
  constructor
  · intro hf u
    exact hflagInj _ _ ((hflag u).symm.trans (hf.users u))
  · intro hp
    refine ⟨fun u => ?_, fun u => ?_, fun name => ⟨(h.names name).1, fun u => ?_⟩⟩
    · rw [hflag, hp]
    · rw [hinvited, hp]
    · rw [(h.names name).2 u, bears, Option.map_eq_some_iff]

/-! ### The dictionaries -/

theorem namesAt_dictSet (names : List (Str × List Str)) (name : Str) (ids : List Str) :
    namesAt (dictSet names name ids) = Function.update (namesAt names) name ids := by
  funext n
  unfold namesAt
  rw [dictGet?_dictSet]
  by_cases hn : n = name
  · subst hn
    simp
  · simp [hn]

theorem namesAt_touch (names : List (Str × List Str)) (name : Str) :
    namesAt (dictSet names name (namesAt names name)) = namesAt names := by
  rw [namesAt_dictSet, Function.update_eq_self]

theorem bears_dictSet (users : List (Str × MatrixUser)) (u : Str) (user : MatrixUser) :
    bears (dictSet users u user) = Function.update (bears users) u (some user.name) := by
  funext v
  unfold bears
  rw [dictGet?_dictSet]
  by_cases hv : v = u
  · subst hv
    simp
  · simp [hv]

theorem bears_dictErase (users : List (Str × MatrixUser)) (u : Str) :
    bears (dictErase users u) = Function.update (bears users) u none := by
  funext v
  unfold bears
  rw [dictGet?_dictErase]
  by_cases hv : v = u
  · subst hv
    simp
  · simp [hv]

theorem presenceOf_eq_absent_iff {room : MatrixRoom} {u : Str} :
    room.presenceOf u = .absent ↔ dictGet? room.users u = none := by
  unfold presenceOf
  cases dictGet? room.users u with
  | none => simp
  | some user => cases hi : user.invited <;> simp [hi]

/-! ### `add_member` -/

theorem addMember_of_present {room : MatrixRoom} {u : Str} (h : room.presenceOf u ≠ .absent)
    (displayName avatarUrl : Option Str) (invited : Bool) :
    room.addMember u displayName avatarUrl invited = (room, false) := by
  unfold addMember
  rw [if_pos]
  exact Option.isSome_iff_ne_none.mpr fun hu => h (presenceOf_eq_absent_iff.mpr hu)

/-- The object that `add_member` makes. -/
def newMember (room : MatrixRoom) (u : Str) (displayName avatarUrl : Option Str) (invited : Bool) :
    MatrixUser :=
  ⟨u, displayName, avatarUrl,
    (dictGet? room.powerLevels.users u).getD room.powerLevels.defaults.usersDefault, invited⟩

theorem addMember_of_absent {room : MatrixRoom} {u : Str} (h : room.presenceOf u = .absent)
    (displayName avatarUrl : Option Str) (invited : Bool) :
    room.addMember u displayName avatarUrl invited = ({ room with
        users := dictSet room.users u (room.newMember u displayName avatarUrl invited)
        invitedUsers :=
          if invited then
            dictSet room.invitedUsers u (room.newMember u displayName avatarUrl invited)
          else room.invitedUsers
        names := appendName room.names (room.newMember u displayName avatarUrl invited).name u },
      true) := by
  unfold addMember
  rw [if_neg (by simp [presenceOf_eq_absent_iff.mp h])]
  rfl

/-- A user that was not there is there as it was added, and nobody else is moved. -/
theorem WellFormed.addMember {room : MatrixRoom} (h : WellFormed room) {u : Str}
    (hu : room.presenceOf u = .absent) (displayName avatarUrl : Option Str) (invited : Bool) :
    WellFormed (room.addMember u displayName avatarUrl invited).1 ∧
      ∀ v, (room.addMember u displayName avatarUrl invited).1.presenceOf v =
        if v = u then (if invited then .invited else .joined) else room.presenceOf v := by
  have habsent := presenceOf_eq_absent_iff.mp hu
  have hout : dictGet? room.invitedUsers u = none := by
    cases hi : dictGet? room.invitedUsers u with
    | none => rfl
    | some user =>
      rw [h.same u user hi] at habsent
      cases habsent
  have hbears : bears room.users u = none := by rw [bears, habsent, Option.map_none]
  rw [addMember_of_absent hu]
  have hid : (room.newMember u displayName avatarUrl invited).userId = u := rfl
  have hflag : (room.newMember u displayName avatarUrl invited).invited = invited := rfl
  generalize room.newMember u displayName avatarUrl invited = user at *
  have hinvited (v : Str) :
      dictGet? (if invited then dictSet room.invitedUsers u user else room.invitedUsers) v =
        if v = u then (if invited then some user else none) else dictGet? room.invitedUsers v := by
    cases invited with
    | true => rw [if_pos rfl, dictGet?_dictSet, if_pos rfl]
    | false =>
      by_cases hv : v = u
      · simp [hv, hout]
      · simp [hv]
  refine ⟨⟨nodup_dictSet h.keys u user, fun v w hw => ?_, fun v w hw => ?_, fun v w hw => ?_, ?_⟩,
    fun v => ?_⟩
  · simp only [dictGet?_dictSet] at hw
    split at hw
    next hv => rw [← Option.some.inj hw, hid, hv]
    next => exact h.userId v w hw
  · simp only [hinvited, dictGet?_dictSet] at hw ⊢
    split at hw
    next hv =>
      cases invited with
      | true => rw [if_pos hv, ← hw, if_pos rfl]
      | false => cases hw
    next hv => rw [if_neg hv, h.same v w hw]
  · simp only [hinvited, dictGet?_dictSet] at hw ⊢
    split at hw
    next hv =>
      rw [← Option.some.inj hw, hflag, if_pos hv]
      cases invited <;> simp
    next hv =>
      rw [if_neg hv]
      exact h.invited v w hw
  · have hinsert := h.names.insert hbears user.name
    rwa [← namesAt_dictSet, ← bears_dictSet] at hinsert
  · simp only [presenceOf, dictGet?_dictSet]
    by_cases hv : v = u
    · simp [hv, hflag]
    · simp [hv]

/-! ### `remove_member` -/

/-- A user is removed from wherever it is. The name of an invited user is looked for twice. -/
theorem WellFormed.removeMember {room : MatrixRoom} (h : WellFormed room) (u : Str) :
    ∃ room' changed, room.removeMember u = .ok (room', changed) ∧ WellFormed room' ∧
      ∀ v, room'.presenceOf v = if v = u then .absent else room.presenceOf v := by
  have hnames : ∃ names, removeNameOf room.names (dictGet? room.users u) = .ok names ∧
      Indexes (namesAt names) (bears (dictErase room.users u)) := by
    rw [bears_dictErase]
    cases hu : dictGet? room.users u with
    | none =>
      refine ⟨_, rfl, ?_⟩
      rw [Function.update_eq_self_iff.mpr (by rw [bears, hu, Option.map_none])]
      exact h.names
    | some user =>
      have hbears : bears room.users u = some user.name := by rw [bears, hu, Option.map_some]
      have hin : user.userId ∈ namesAt room.names user.name := by
        rw [h.userId u user hu]
        exact ((h.names user.name).2 u).mpr hbears
      refine ⟨_, if_pos hin, ?_⟩
      rw [namesAt_dictSet, h.userId u user hu]
      exact h.names.erase hbears
  obtain ⟨names, hremoved, hindex⟩ := hnames
  -- the second removal finds no name, and leaves the index as it is
  have hsame : namesAt (discardNameOf names (dictGet? room.invitedUsers u)) = namesAt names := by
    cases hi : dictGet? room.invitedUsers u with
    | none => rfl
    | some user =>
      have hout : user.userId ∉ namesAt names user.name := by
        rw [h.userId u user (h.same u user hi), (hindex user.name).2 u, bears, dictGet?_dictErase,
          if_pos rfl]
        simp
      simp only [discardNameOf, removeName, if_neg hout]
      exact namesAt_touch names user.name
  refine ⟨{ room with
      users := dictErase room.users u
      invitedUsers := dictErase room.invitedUsers u
      names := discardNameOf names (dictGet? room.invitedUsers u) },
    (dictGet? room.users u).isSome || (dictGet? room.invitedUsers u).isSome,
    ?_, ⟨nodup_dictErase h.keys u, fun v w hw => ?_, fun v w hw => ?_, fun v w hw => ?_, ?_⟩,
    fun v => ?_⟩
  · simp only [MatrixRoom.removeMember, hremoved]
    rfl
  · rw [dictGet?_dictErase] at hw
    split at hw
    next => cases hw
    next => exact h.userId v w hw
  · simp only [dictGet?_dictErase] at hw ⊢
    split at hw
    next => cases hw
    next hv => rw [if_neg hv, h.same v w hw]
  · simp only [dictGet?_dictErase] at hw ⊢
    split at hw
    next => cases hw
    next hv =>
      rw [if_neg hv]
      exact h.invited v w hw
  · simp only [hsame]
    exact hindex
  · simp only [presenceOf, dictGet?_dictErase]
    by_cases hv : v = u
    · simp [hv]
    · simp [hv]

/-! ### `handle_membership` -/

theorem dictGet?_modifyUser (room : MatrixRoom) (u v : Str) (f : MatrixUser → MatrixUser) :
    dictGet? (room.modifyUser u f).users v =
      if v = u then (dictGet? room.users v).map f else dictGet? room.users v :=
  dictGet?_map_modify room.users u v f

theorem invitedUsers_modifyUser (room : MatrixRoom) (u v : Str) (f : MatrixUser → MatrixUser) :
    dictGet? (room.modifyUser u f).invitedUsers v =
      if v = u then (dictGet? room.invitedUsers v).map f else dictGet? room.invitedUsers v :=
  dictGet?_map_modify room.invitedUsers u v f

theorem keys_modifyUser (room : MatrixRoom) (u : Str) (f : MatrixUser → MatrixUser) :
    (room.modifyUser u f).users.map (·.1) = room.users.map (·.1) :=
  keys_map_modify room.users u f

/-- A change of an object that leaves the id and the flag alone, with an index that follows it. -/
theorem WellFormed.modifyUser {room : MatrixRoom} (h : WellFormed room) (u : Str)
    {f : MatrixUser → MatrixUser} (hid : ∀ user, (f user).userId = user.userId)
    (hflag : ∀ user, (f user).invited = user.invited) {names : List (Str × List Str)}
    (hnames : Indexes (namesAt names) (bears (room.modifyUser u f).users)) :
    WellFormed { room.modifyUser u f with names } ∧
      ∀ v, presenceOf { room.modifyUser u f with names } v = room.presenceOf v := by
  refine ⟨⟨?_, fun v w hw => ?_, fun v w hw => ?_, fun v w hw => ?_, hnames⟩, fun v => ?_⟩
  · rw [keys_modifyUser]
    exact h.keys
  · rw [dictGet?_modifyUser] at hw
    split at hw
    next =>
      obtain ⟨user, hu, rfl⟩ := Option.map_eq_some_iff.mp hw
      rw [hid, h.userId v user hu]
    next => exact h.userId v w hw
  · simp only [dictGet?_modifyUser, invitedUsers_modifyUser] at hw ⊢
    split at hw
    next hv =>
      obtain ⟨user, hu, rfl⟩ := Option.map_eq_some_iff.mp hw
      rw [if_pos hv, h.same v user hu, Option.map_some]
    next hv => rw [if_neg hv, h.same v w hw]
  · simp only [dictGet?_modifyUser, invitedUsers_modifyUser] at hw ⊢
    split at hw
    next hv =>
      obtain ⟨user, hu, rfl⟩ := Option.map_eq_some_iff.mp hw
      rw [if_pos hv, hflag, Option.isSome_map]
      exact h.invited v user hu
    next hv =>
      rw [if_neg hv]
      exact h.invited v w hw
  · simp only [presenceOf, dictGet?_modifyUser]
    by_cases hv : v = u
    · rw [if_pos hv]
      cases dictGet? room.users v <;> simp [hflag]
    · rw [if_neg hv]

theorem bears_modifyUser_of_name {room : MatrixRoom} {f : MatrixUser → MatrixUser}
    (hf : ∀ user, (f user).name = user.name) (u : Str) :
    bears (room.modifyUser u f).users = bears room.users := by
  funext v
  unfold bears
  rw [dictGet?_modifyUser]
  split
  next =>
    rw [Option.map_map]
    exact congrArg (fun g => Option.map g _) (funext hf)
  next => rfl

/-- A member takes another display name, and its place in the index with it. -/
theorem WellFormed.changeDisplayName {room : MatrixRoom} (h : WellFormed room) {u : Str}
    {user : MatrixUser} (hid : user.userId = u) (hname : bears room.users u = some user.name)
    (displayName : Option (Option Str)) :
    ∃ room', room.changeDisplayName u user displayName = .ok room' ∧ WellFormed room' ∧
      ∀ v, room'.presenceOf v = room.presenceOf v := by
  cases displayName with
  | none => exact ⟨room, rfl, h, fun _ => rfl⟩
  | some displayName =>
    have hin : user.userId ∈ namesAt room.names user.name := by
      rw [hid]
      exact ((h.names user.name).2 u).mpr hname
    have hbears : bears (room.modifyUser u fun w => { w with displayName }).users =
        Function.update (bears room.users) u
          (some { user with displayName : MatrixUser }.name) := by
      funext v
      unfold bears
      rw [dictGet?_modifyUser]
      by_cases hv : v = u
      · obtain ⟨w, hw, -⟩ := Option.map_eq_some_iff.mp hname
        subst hv
        rw [if_pos rfl, Function.update_self, hw]
        simp [MatrixUser.name, h.userId v w hw, hid]
      · rw [if_neg hv, Function.update_of_ne hv]
    have hindex := h.names.rename hname { user with displayName : MatrixUser }.name
    rw [← hbears] at hindex
    rw [← namesAt_dictSet, ← namesAt_dictSet] at hindex
    have hkeep := @WellFormed.modifyUser room h u (fun w => { w with displayName })
      (fun _ => rfl) (fun _ => rfl) _ hindex
    refine ⟨_, ?_, hkeep⟩
    unfold MatrixRoom.changeDisplayName removeName
    rw [if_pos hin, hid]
    rfl

theorem WellFormed.changeAvatarUrl {room : MatrixRoom} (h : WellFormed room) (u : Str)
    (avatarUrl : Option (Option Str)) :
    WellFormed (room.changeAvatarUrl u avatarUrl) ∧
      ∀ v, (room.changeAvatarUrl u avatarUrl).presenceOf v = room.presenceOf v := by
  cases avatarUrl with
  | none => exact ⟨h, fun _ => rfl⟩
  | some avatarUrl =>
    have hnames : bears (room.modifyUser u fun w => { w with avatarUrl }).users =
        bears room.users :=
      bears_modifyUser_of_name (f := fun w => { w with avatarUrl }) (fun _ => rfl) u
    exact @WellFormed.modifyUser room h u (fun w => { w with avatarUrl }) (fun _ => rfl)
      (fun _ => rfl) _ (hnames ▸ h.names)

/-- The flag of a member changes, and its place among the invited users with it. -/
theorem WellFormed.setInvited {room : MatrixRoom} (h : WellFormed room) {u : Str}
    (hu : room.presenceOf u ≠ .absent) {invited : Bool}
    (hinvited : invited = true → room.presenceOf u = .invited) :
    WellFormed (room.setInvited u invited) ∧
      bears (room.setInvited u invited).users = bears room.users ∧
      ∀ v, (room.setInvited u invited).presenceOf v =
        if v = u then (if invited then .invited else .joined) else room.presenceOf v := by
  have husers : (room.setInvited u invited).users =
      (room.modifyUser u fun w => { w with invited }).users := by
    cases invited <;> rfl
  have hlookup (v : Str) : dictGet? (room.setInvited u invited).users v =
      if v = u then (dictGet? room.users v).map fun w => { w with invited }
      else dictGet? room.users v := by
    rw [husers]
    exact dictGet?_modifyUser room u v _
  have hentries (v : Str) : dictGet? (room.setInvited u invited).invitedUsers v =
      if v = u then (if invited then (dictGet? room.invitedUsers v).map fun w => { w with invited }
        else none)
      else dictGet? room.invitedUsers v := by
    cases invited with
    | true => exact invitedUsers_modifyUser room u v fun w => { w with invited := true }
    | false =>
      simp only [MatrixRoom.setInvited, Bool.false_eq_true, if_false, dictGet?_dictErase,
        invitedUsers_modifyUser]
      split <;> rfl
  have hbears : bears (room.setInvited u invited).users = bears room.users := by
    rw [husers]
    exact bears_modifyUser_of_name (f := fun w => { w with invited }) (fun _ => rfl) u
  have hkeys : ((room.setInvited u invited).users.map (·.1)).Nodup := by
    rw [husers, keys_modifyUser]
    exact h.keys
  have hnames : namesAt (room.setInvited u invited).names = namesAt room.names := by
    cases invited <;> rfl
  obtain ⟨user, huser⟩ := Option.ne_none_iff_exists'.mp fun hn => hu (presenceOf_eq_absent_iff.mpr hn)
  refine ⟨⟨hkeys, fun v w hw => ?_, fun v w hw => ?_, fun v w hw => ?_, ?_⟩, hbears, fun v => ?_⟩
  · rw [hlookup] at hw
    split at hw
    next =>
      obtain ⟨w', hw', rfl⟩ := Option.map_eq_some_iff.mp hw
      exact h.userId v w' hw'
    next => exact h.userId v w hw
  · rw [hentries] at hw
    rw [hlookup]
    split at hw
    next hv =>
      cases invited with
      | true =>
        obtain ⟨w', hw', rfl⟩ := Option.map_eq_some_iff.mp hw
        rw [if_pos hv, h.same v w' hw', Option.map_some]
      | false => cases hw
    next hv => rw [if_neg hv, h.same v w hw]
  · rw [hlookup] at hw
    rw [hentries]
    split at hw
    next hv =>
      obtain ⟨w', hw', rfl⟩ := Option.map_eq_some_iff.mp hw
      subst hv
      cases invited with
      | true =>
        have hi := hinvited rfl
        rw [if_pos rfl, if_pos rfl, Option.isSome_map, ← h.invited v w' hw']
        unfold presenceOf at hi
        rw [hw'] at hi
        cases hf : w'.invited <;> simp_all
      | false => simp
    next hv =>
      rw [if_neg hv]
      exact h.invited v w hw
  · rw [hnames, hbears]
    exact h.names
  · unfold presenceOf
    rw [hlookup]
    by_cases hv : v = u
    · subst hv
      rw [if_pos rfl, if_pos rfl, huser, Option.map_some]
    · rw [if_neg hv, if_neg hv]

theorem presenceOf_eq_invited_iff {room : MatrixRoom} (h : WellFormed room) {u : Str} :
    room.presenceOf u = .invited ↔ (dictGet? room.invitedUsers u).isSome := by
  exact ((h.follows_iff.mpr fun _ => rfl).invitedUsers u).symm

/-- A user that joins or is invited. An invitation does not reach a user that has joined. -/
theorem WellFormed.enter {room : MatrixRoom} (h : WellFormed room) (event : RoomMemberEvent)
    (invited : Bool) :
    ∃ room' changed, room.enter event invited = .ok (room', changed) ∧ WellFormed room' ∧
      ∀ v, room'.presenceOf v =
        if v = event.stateKey then
          if invited ∧ room.presenceOf v ≠ .joined then .invited else .joined
        else room.presenceOf v := by
  unfold MatrixRoom.enter
  generalize event.stateKey = u
  cases hu : dictGet? room.users u with
  | none =>
    have habsent := presenceOf_eq_absent_iff.mpr hu
    have hadd := h.addMember habsent (event.displayname.getD none) (event.avatarUrl.getD none)
      invited
    refine ⟨_, _, rfl, hadd.1, fun v => (hadd.2 v).trans ?_⟩
    by_cases hv : v = u
    · simp [hv, habsent]
    · simp [hv]
  | some user =>
    have hpresent : room.presenceOf u ≠ .absent := fun ha => by
      rw [presenceOf_eq_absent_iff.mp ha] at hu
      cases hu
    by_cases hjoined : invited = true ∧ room.presenceOf u = .joined
    · have hout : (dictGet? room.invitedUsers u).isNone = true := by
        rw [Option.isNone_iff_eq_none]
        by_contra hin
        have hinv := (presenceOf_eq_invited_iff h).mpr (Option.isSome_iff_ne_none.mpr hin)
        rw [hinv] at hjoined
        exact nomatch hjoined.2
      simp only [hjoined.1, hout, Bool.and_self, if_true, addMember_of_present hpresent]
      refine ⟨room, false, rfl, h, fun v => ?_⟩
      by_cases hv : v = u
      · simp [hv, hjoined.2]
      · simp [hv]
    · have hinvited : invited = true → room.presenceOf u = .invited := by
        intro hi
        cases hp : room.presenceOf u with
        | absent => exact absurd hp hpresent
        | joined => exact absurd ⟨hi, hp⟩ hjoined
        | invited => rfl
      obtain ⟨hwf, hbears, hpresence⟩ := h.setInvited hpresent hinvited
      have hname : bears (room.setInvited u invited).users u = some user.name := by
        rw [hbears, bears, hu, Option.map_some]
      obtain ⟨room₁, hok, hwf₁, hpresence₁⟩ :=
        hwf.changeDisplayName (h.userId u user hu) hname event.displayname
      obtain ⟨hwf₂, hpresence₂⟩ := hwf₁.changeAvatarUrl u event.avatarUrl
      have hbranch : ¬ (invited && (dictGet? room.invitedUsers u).isNone) = true := by
        intro hb
        obtain ⟨hi, hnone⟩ := Bool.and_eq_true_iff.mp hb
        have hsome := (presenceOf_eq_invited_iff h).mp (hinvited hi)
        rw [Option.isNone_iff_eq_none.mp hnone] at hsome
        cases hsome
      refine ⟨_, false, ?_, hwf₂, fun v => ?_⟩
      · simp only [if_neg hbranch, hok]
        rfl
      · rw [hpresence₂, hpresence₁, hpresence]
        by_cases hv : v = u
        · subst hv
          cases invited with
          | true => simp [hinvited rfl]
          | false => simp
        · simp [hv]

/-- **One membership event**: where it leaves its user, and nobody else is moved. An invitation does
not reach a user that has joined. -/
theorem WellFormed.handleMembership {room : MatrixRoom} (h : WellFormed room)
    (event : RoomMemberEvent) :
    ∃ room' changed, room.handleMembership event = .ok (room', changed) ∧ WellFormed room' ∧
      ∀ v, room'.presenceOf v =
        if v = event.stateKey then
          if event.membership = .invite ∧ room.presenceOf v = .joined then .joined
          else Presence.after event.membership (room.presenceOf v)
        else room.presenceOf v := by
  unfold MatrixRoom.handleMembership
  cases hm : event.membership with
  | knock => exact ⟨room, false, rfl, h, by simp [Presence.after]⟩
  | leave =>
    obtain ⟨room', changed, hok, hwf, hpresence⟩ := h.removeMember event.stateKey
    exact ⟨room', changed, hok, hwf, by simpa [Presence.after] using hpresence⟩
  | ban =>
    obtain ⟨room', changed, hok, hwf, hpresence⟩ := h.removeMember event.stateKey
    exact ⟨room', changed, hok, hwf, by simpa [Presence.after] using hpresence⟩
  | join =>
    obtain ⟨room', changed, hok, hwf, hpresence⟩ := h.enter event false
    exact ⟨room', changed, hok, hwf, by simpa [Presence.after] using hpresence⟩
  | invite =>
    obtain ⟨room', changed, hok, hwf, hpresence⟩ := h.enter event true
    refine ⟨room', changed, hok, hwf, fun v => (hpresence v).trans ?_⟩
    cases room.presenceOf v <;> simp [Presence.after]

/-! ### `_handle_joined_members` -/

/-- The first loop removes the users that have joined and are not listed. -/
theorem WellFormed.removeAbsent {room : MatrixRoom} (h : WellFormed room) (joined ids : List Str)
    (hids : ids.Nodup) (hpresent : ∀ u ∈ ids, room.presenceOf u ≠ .absent) :
    ∃ room', ids.foldlM (MatrixRoom.removeAbsent joined) room = .ok room' ∧ WellFormed room' ∧
      ∀ v, room'.presenceOf v =
        if v ∈ ids ∧ v ∉ joined ∧ room.presenceOf v = .joined then .absent
        else room.presenceOf v := by
  induction ids generalizing room with
  | nil => exact ⟨room, rfl, h, by simp⟩
  | cons u ids ih =>
    rw [List.nodup_cons] at hids
    have hround : ∃ room₁, MatrixRoom.removeAbsent joined room u = .ok room₁ ∧ WellFormed room₁ ∧
        ∀ v, room₁.presenceOf v =
          if v = u ∧ v ∉ joined ∧ room.presenceOf v = .joined then .absent
          else room.presenceOf v := by
      have hhere := hpresent u List.mem_cons_self
      obtain ⟨user, hu⟩ := Option.ne_none_iff_exists'.mp
        fun hn => hhere (presenceOf_eq_absent_iff.mpr hn)
      have hflag : user.invited = false ↔ room.presenceOf u = .joined := by
        rw [presenceOf, hu]
        cases hi : user.invited <;> simp [hi]
      unfold MatrixRoom.removeAbsent
      simp only [hu]
      by_cases hleaves : ¬ user.invited = true ∧ u ∉ joined
      · obtain ⟨room₁, changed, hok, hwf, hpresence⟩ := h.removeMember u
        have hjoined := hflag.mp (Bool.eq_false_iff.mpr hleaves.1)
        refine ⟨room₁, ?_, hwf, fun v => ?_⟩
        · rw [if_pos hleaves, hok]
          rfl
        · rw [hpresence]
          by_cases hv : v = u
          · simp [hv, hleaves.2, hjoined]
          · simp [hv]
      · refine ⟨room, if_neg hleaves, h, fun v => ?_⟩
        rw [if_neg]
        rintro ⟨rfl, hout, hjoined⟩
        exact hleaves ⟨Bool.eq_false_iff.mp (hflag.mpr hjoined), hout⟩
    obtain ⟨room₁, hok, hwf, hpresence⟩ := hround
    obtain ⟨room', hrest, hwf', hpresence'⟩ := ih hwf hids.2 fun v hv => by
      have hne : v ≠ u := fun hu => hids.1 (hu ▸ hv)
      rw [hpresence v, if_neg (not_and_of_not_left _ hne)]
      exact hpresent v (List.mem_cons_of_mem _ hv)
    refine ⟨room', ?_, hwf', fun v => ?_⟩
    · rw [List.foldlM_cons, hok]
      exact hrest
    · rw [hpresence', hpresence]
      by_cases hv : v = u
      · subst hv
        simp [hids.1]
      · simp [hv]

/-- The second loop adds the listed users that are not there. -/
theorem WellFormed.addMembers {room : MatrixRoom} (h : WellFormed room)
    (members : List RoomMember) :
    WellFormed (members.foldl
        (fun room m => (room.addMember m.userId m.displayName m.avatarUrl false).1) room) ∧
      ∀ v, (members.foldl
        (fun room m => (room.addMember m.userId m.displayName m.avatarUrl false).1)
          room).presenceOf v =
        if room.presenceOf v = .absent ∧ v ∈ members.map (·.userId) then .joined
        else room.presenceOf v := by
  induction members generalizing room with
  | nil => exact ⟨h, by simp⟩
  | cons m members ih =>
    rw [List.foldl_cons]
    have hround : WellFormed (room.addMember m.userId m.displayName m.avatarUrl false).1 ∧
        ∀ v, (room.addMember m.userId m.displayName m.avatarUrl false).1.presenceOf v =
          if room.presenceOf v = .absent ∧ v = m.userId then .joined else room.presenceOf v := by
      by_cases hm : room.presenceOf m.userId = .absent
      · have hadd := h.addMember hm m.displayName m.avatarUrl false
        refine ⟨hadd.1, fun v => (hadd.2 v).trans ?_⟩
        by_cases hv : v = m.userId
        · simp [hv, hm]
        · simp [hv]
      · rw [addMember_of_present hm]
        refine ⟨h, fun v => ?_⟩
        rw [if_neg]
        rintro ⟨hv, rfl⟩
        exact hm hv
    obtain ⟨hwf, hpresence⟩ := ih hround.1
    refine ⟨hwf, fun v => (hpresence v).trans ?_⟩
    rw [hround.2]
    by_cases hv : v = m.userId
    · cases hp : room.presenceOf v <;> simp [hv]
    · simp [hv]

/-- **One answer about the joined members**: it removes who is not listed and adds who is listed and
not there. An invited user stays invited. -/
theorem WellFormed.handleJoinedMembers {room : MatrixRoom} (h : WellFormed room)
    (members : List RoomMember) :
    ∃ room', room.handleJoinedMembers members = .ok room' ∧ WellFormed room' ∧
      ∀ v, room'.presenceOf v =
        if room.presenceOf v = .invited then .invited
        else Presence.afterAnswer (members.any fun m => m.userId = v) (room.presenceOf v) := by
  have hkey (v : Str) : v ∈ room.users.map (·.1) ↔ room.presenceOf v ≠ .absent := by
    rw [ne_eq, presenceOf_eq_absent_iff, dictGet?_eq_none_iff, not_not]
  obtain ⟨room₁, hok, hwf, hpresence⟩ := h.removeAbsent (members.map (·.userId))
    (room.users.map (·.1)) h.keys fun u hu => (hkey u).mp hu
  obtain ⟨hwf₂, hpresence₂⟩ := hwf.addMembers members
  refine ⟨{ members.foldl
      (fun room m => (room.addMember m.userId m.displayName m.avatarUrl false).1) room₁ with
      membersSynced := true }, ?_,
    ⟨hwf₂.keys, hwf₂.userId, hwf₂.same, hwf₂.invited, hwf₂.names⟩, fun v => ?_⟩
  · unfold MatrixRoom.handleJoinedMembers
    rw [hok]
    rfl
  · have hlisted : (members.any fun m => m.userId = v) = true ↔ v ∈ members.map (·.userId) := by
      simp [List.any_eq_true, List.mem_map]
    refine (hpresence₂ v).trans ?_
    simp only [hpresence, hkey]
    by_cases hl : v ∈ members.map (·.userId)
    · rw [hlisted.mpr hl]
      cases hp : room.presenceOf v <;> simp [hl, Presence.afterAnswer]
    · rw [Bool.eq_false_iff.mpr fun hc => hl (hlisted.mp hc)]
      cases hp : room.presenceOf v <;> simp [hl, Presence.afterAnswer]

/-! ## Sequences of events -/

/-- An event that the room's handlers have no branch for: an invitation of a user that has joined,
or an answer that lists an invited user. -/
def Straight (p : Str → Presence) : RoomInput → Prop
  | .membership event => event.membership = .invite → p event.stateKey ≠ .joined
  | .joinedMembers members => ∀ m ∈ members, p m.userId ≠ .invited

/-- One event is followed exactly when it is straight. -/
theorem WellFormed.apply {room : MatrixRoom} (h : WellFormed room) (input : RoomInput) :
    ∃ room', room.apply input = .ok room' ∧ WellFormed room' ∧
      ((∀ v, room'.presenceOf v = Presence.step room.presenceOf input v) ↔
        Straight room.presenceOf input) := by
  cases input with
  | membership event =>
    obtain ⟨room', changed, hok, hwf, hpresence⟩ := h.handleMembership event
    refine ⟨room', by rw [MatrixRoom.apply, hok]; rfl, hwf, ?_⟩
    simp only [hpresence, Presence.step, Straight]
    constructor
    · intro hall hm hjoined
      have hu := hall event.stateKey
      simp [hm, hjoined, Presence.after] at hu
    · intro hs v
      by_cases hv : v = event.stateKey
      · subst hv
        rw [if_pos rfl, if_pos rfl, if_neg fun hc => hs hc.1 hc.2]
      · simp [hv]
  | joinedMembers members =>
    obtain ⟨room', hok, hwf, hpresence⟩ := h.handleJoinedMembers members
    refine ⟨room', hok, hwf, ?_⟩
    simp only [hpresence, Presence.step, Straight]
    constructor
    · intro hall m hm hinvited
      have hu := hall m.userId
      rw [if_pos hinvited, List.any_eq_true.mpr ⟨m, hm, by simp⟩] at hu
      cases hu
    · intro hs v
      by_cases hv : room.presenceOf v = .invited
      · have hout : (members.any fun m => m.userId = v) = false := by
          rw [List.any_eq_false]
          intro m hm
          simpa using fun he : m.userId = v => hs m hm (he ▸ hv)
        simp [hv, hout, Presence.afterAnswer]
      · rw [if_neg hv]

/-- After every part of the sequence the room has its users where the events say. -/
def FollowsAlong (inputs : List RoomInput) : Prop :=
  ∀ seen rest, inputs = seen ++ rest →
    ∃ room, new.applyAll seen = .ok room ∧ room.Follows (Presence.afterAll seen)

theorem applyAll_concat (room : MatrixRoom) (seen : List RoomInput) (input : RoomInput) :
    room.applyAll (seen ++ [input]) = room.applyAll seen >>= fun room => room.apply input := by
  unfold applyAll
  rw [List.foldlM_append]
  refine bind_congr fun room => ?_
  exact bind_pure _

theorem afterAll_concat (seen : List RoomInput) (input : RoomInput) :
    Presence.afterAll (seen ++ [input]) = Presence.step (Presence.afterAll seen) input := by
  unfold Presence.afterAll
  rw [List.foldl_append]
  rfl

/-- No sequence of events makes a handler raise. -/
theorem applyAll_wellFormed (seen : List RoomInput) :
    ∃ room, new.applyAll seen = .ok room ∧ WellFormed room := by
  induction seen using List.reverseRecOn with
  | nil => exact ⟨new, rfl, wellFormed_new⟩
  | append_singleton seen input ih =>
    obtain ⟨room, hok, hwf⟩ := ih
    obtain ⟨room', hok', hwf', -⟩ := hwf.apply input
    refine ⟨room', ?_, hwf'⟩
    rw [applyAll_concat, hok]
    exact hok'

/-- **The room follows a sequence of events exactly when no invitation is of a user that has joined
and no answer lists an invited user.** -/
theorem membership_follows_iff (inputs : List RoomInput) :
    FollowsAlong inputs ↔ ∀ seen input rest, inputs = seen ++ input :: rest →
      Straight (Presence.afterAll seen) input := by
  constructor
  · intro h seen input rest hinputs
    obtain ⟨room, hok, hfollows⟩ := h seen (input :: rest) hinputs
    obtain ⟨room', hok', hfollows'⟩ := h (seen ++ [input]) rest (by simp [hinputs])
    obtain ⟨room₁, hok₁, hwf⟩ := applyAll_wellFormed seen
    rw [hok] at hok₁
    cases hok₁
    obtain ⟨room₂, hok₂, hwf₂, hiff⟩ := hwf.apply input
    rw [applyAll_concat, hok] at hok'
    cases hok₂.symm.trans hok'
    have hpresence := funext (hwf.follows_iff.mp hfollows)
    rw [hpresence] at hiff
    refine hiff.mp fun v => ?_
    rw [hwf₂.follows_iff.mp hfollows' v, afterAll_concat]
  · intro h seen
    induction seen using List.reverseRecOn with
    | nil => exact fun _ _ => ⟨new, rfl, wellFormed_new.follows_iff.mpr fun _ => rfl⟩
    | append_singleton seen input ih =>
      intro rest hinputs
      have hsplit : inputs = seen ++ input :: rest := by simp [hinputs]
      obtain ⟨room, hok, hfollows⟩ := ih (input :: rest) hsplit
      obtain ⟨room₁, hok₁, hwf⟩ := applyAll_wellFormed seen
      rw [hok] at hok₁
      cases hok₁
      obtain ⟨room₂, hok₂, hwf₂, hiff⟩ := hwf.apply input
      have hpresence := funext (hwf.follows_iff.mp hfollows)
      rw [hpresence] at hiff
      refine ⟨room₂, ?_, hwf₂.follows_iff.mpr fun v => ?_⟩
      · rw [applyAll_concat, hok]
        exact hok₂
      · rw [afterAll_concat]
        exact hiff.mpr (h seen input rest hsplit) v

/-! ## Two sequences -/

def aliceEvent (membership : Membership) : RoomInput :=
  .membership ⟨py "@alice:x", membership, some (some (py "Alice")), none⟩

/-- Between the two events the user has left, which a limited timeline leaves out. -/
theorem joined_then_invited : ¬ FollowsAlong [aliceEvent .join, aliceEvent .invite] := by
  intro h
  obtain ⟨room, hok, hfollows⟩ := h _ [] (List.append_nil _).symm
  have hroom : (new.applyAll [aliceEvent .join, aliceEvent .invite]).map
      (fun room => (dictGet? room.invitedUsers (py "@alice:x")).isSome) = .ok false := by
    decide +kernel
  rw [hok] at hroom
  have hnone := Except.ok.inj hroom
  have hsome := (hfollows.invitedUsers (py "@alice:x")).mpr (by decide +kernel)
  exact absurd hsome (Bool.eq_false_iff.mp hnone)

end MatrixRoom

end Nio.Rooms
