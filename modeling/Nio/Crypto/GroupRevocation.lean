import Nio.Crypto.GroupSharing

/-!
# Revocations in an ordinary client

A session of a room that is shared is thrown away when a member leaves or a device loses its trust or
its keys. A session that is not shared yet is kept, also when its key is in a request already; so a
message can be encrypted with a key that an affected device has.

* `sparesRevoked` — the steps that do not come upon such a session
* `Stands` — what holds of the stored sessions along the other steps
* `revocation_ordinary` — in a run of such steps no message is exposed
-/

namespace Nio.Crypto

open Nio.Py
open Nio.Lib
open Nio.Durable (Membership)

/-- When a device lost its right to read on, its key had not been requested. -/
def OutboundGroupSession.Unexposed (s : OutboundGroupSession) : Prop :=
  ∀ p ∈ s.revocations, ∀ d ∈ p.2, p.1.covers d = false

instance (s : OutboundGroupSession) : Decidable s.Unexposed :=
  inferInstanceAs (Decidable (∀ p ∈ s.revocations, ∀ d ∈ p.2, p.1.covers d = false))

namespace SharingClient

/-- The sessions that are shared are thrown away with the revocation. -/
def invalidates (env : KeyQueryEnv) (c : SharingClient) : SharingAction → Bool
  | .member .. | .trust .. => true
  | .keysQuery response _ =>
    match handleKeyQuery env c.machine.keeper response with
    | .ok _ => true
    | .error _ => false
  | _ => false

/-- No revocation comes upon a stored session whose key was requested for an affected device, unless
it is shared and the step invalidates. -/
def sparesRevoked (env : KeyQueryEnv) (c : SharingClient) (action : SharingAction) : Bool :=
  (c.revocations env action).all fun rev => c.machine.outbound.all fun entry =>
    rev.1.any (· ≠ entry.1) ||
      (c.machine.session entry.2).shared && c.invalidates env action ||
        (c.machine.session entry.2).requested.all fun d => !rev.2.covers d

end SharingClient

/-! ## The stored sessions -/

/-- The members of the room of a session include the users of the devices that can have its key. -/
structure Stand (rooms : List (Str × GroupRoom)) (r : Str) (s : OutboundGroupSession) : Prop where
  room : ∃ room, dictGet? rooms r = some room ∧ room.encrypted = true ∧
    ∀ d ∈ s.requested, d.1 ∈ room.users
  unexposed : s.Unexposed

structure Standing (rooms : List (Str × GroupRoom)) (m : GroupMachine) : Prop where
  wellFormed : m.WellFormed
  stand : ∀ r i, m.stored r = some i → Stand rooms r (m.session i)

/-- The invariant of the runs -/
structure Stands (c : SharingClient) : Prop where
  standing : Standing c.rooms c.machine
  sharing : ∀ r phase, dictGet? c.sharing r = some phase →
    ∃ room, dictGet? c.rooms r = some room ∧ room.encrypted = true
  messages : ∀ s ∈ c.messages, s.Unexposed

namespace Standing

variable {rooms rooms' : List (Str × GroupRoom)} {m m' : GroupMachine} {r : Str} {i : Nat}

/-- A session is changed apart from its ghosts. -/
theorem modify (h : Standing rooms m) (i : Nat) {f : OutboundGroupSession → OutboundGroupSession}
    (hroom : ∀ s, (f s).roomId = s.roomId) (hrequested : ∀ s, (f s).requested = s.requested)
    (hrevocations : ∀ s, (f s).revocations = s.revocations) : Standing rooms (m.modify i f) := by
  refine ⟨h.wellFormed.modify i hroom, fun r j hj => ?_⟩
  obtain ⟨hs, hu⟩ := h.stand r j hj
  have hcases := GroupMachine.session_modify_cases m i f j
  rcases hcases with hsame | ⟨-, hsame⟩
  · rw [hsame]
    exact ⟨hs, hu⟩
  · rw [hsame]
    refine ⟨?_, ?_⟩
    · rw [hrequested]
      exact hs
    · unfold OutboundGroupSession.Unexposed
      rw [hrevocations]
      exact hu

theorem create (h : Standing rooms m) {room : GroupRoom} (hroom : dictGet? rooms r = some room)
    (hencrypted : room.encrypted = true) :
    Standing rooms (m.createOutboundGroupSession r).1 := by
  refine ⟨h.wellFormed.create r, fun r' i hi => ?_⟩
  rw [GroupMachine.stored_create] at hi
  split at hi
  · next hr =>
    cases hi
    rw [GroupMachine.session_create_new, hr]
    exact ⟨⟨room, hroom, hencrypted, by simp [OutboundGroupSession.new]⟩,
      by simp [OutboundGroupSession.Unexposed, OutboundGroupSession.new]⟩
  · rw [GroupMachine.session_create m r i (h.wellFormed r' i hi).1]
    exact h.stand r' i hi

theorem shareable (h : Standing rooms m) {room : GroupRoom} (hroom : dictGet? rooms r = some room)
    (hencrypted : room.encrypted = true) : Standing rooms (m.shareable r).1 := by
  rcases m.shareable_cases r with ⟨hs, -⟩ | ⟨i, hs, -⟩
  · rw [hs]
    exact h.create hroom hencrypted
  · rw [hs]
    exact h

/-- Keys are requested for devices of members. -/
theorem request (h : Standing rooms m) (hi : m.stored r = some i) {room : GroupRoom}
    (hroom : dictGet? rooms r = some room) {keys : List (Str × Str)}
    (hkeys : ∀ k ∈ keys, k.1 ∈ room.users) :
    Standing rooms (m.modify i (·.request keys)) := by
  refine ⟨h.wellFormed.modify i fun _ => rfl, fun r' j hj => ?_⟩
  obtain ⟨hs, hu⟩ := h.stand r' j hj
  rw [GroupMachine.session_modify m i _ j (h.wellFormed r i hi).1]
  split
  · next hji =>
    rw [GroupMachine.stored_modify, hji] at hj
    obtain rfl := h.wellFormed.injective hi hj
    obtain ⟨room', hroom', hencrypted, husers⟩ := hs
    rw [hroom] at hroom'
    cases hroom'
    refine ⟨⟨room, hroom, hencrypted, fun d hd => ?_⟩, hu⟩
    rcases List.mem_append.mp hd with hd | hd
    · exact husers d hd
    · exact hkeys d hd
  · exact ⟨hs, hu⟩

/-- The rooms that are there keep their members. -/
theorem grow (h : Standing rooms m) (hrooms : ∀ r room, dictGet? rooms r = some room →
      ∃ room', dictGet? rooms' r = some room' ∧ (room.encrypted = true → room'.encrypted = true) ∧
        room.users ⊆ room'.users) : Standing rooms' m := by
  refine ⟨h.wellFormed, fun r i hi => ?_⟩
  obtain ⟨⟨room, hroom, hencrypted, husers⟩, hu⟩ := h.stand r i hi
  obtain ⟨room', hroom', hkeep, hsub⟩ := hrooms r room hroom
  exact ⟨⟨room', hroom', hkeep hencrypted, fun d hd => hsub (husers d hd)⟩, hu⟩

/-- Only the sessions and their dictionary count. -/
theorem of_eq (h : Standing rooms m) (hsessions : m'.sessions = m.sessions)
    (houtbound : m'.outbound = m.outbound) : Standing rooms m' := by
  cases m
  cases m'
  cases hsessions
  cases houtbound
  exact ⟨h.wellFormed, h.stand⟩

end Standing

/-! ## Revocations -/

/-- A revocation of the list concerns a room and a device. -/
def Hits (revs : List (Option Str × Revocation)) (r : Str) (d : Str × Str) : Prop :=
  ∃ rev ∈ revs, (rev.1 = none ∨ rev.1 = some r) ∧ rev.2.covers d = true

/-- The session after revocations -/
structure Recorded (revs : List (Option Str × Revocation)) (s s' : OutboundGroupSession) : Prop where
  roomId : s'.roomId = s.roomId
  shared : s'.shared = s.shared
  requested : s'.requested = s.requested
  usersSharedWith : s'.usersSharedWith = s.usersSharedWith
  usersIgnored : s'.usersIgnored = s.usersIgnored
  revocations : ∀ p ∈ s'.revocations, p ∈ s.revocations ∨
    p.2 = s.requested ∧ ∀ d, p.1.covers d = true → Hits revs s.roomId d

theorem Recorded.refl (revs : List (Option Str × Revocation)) (s : OutboundGroupSession) :
    Recorded revs s s := ⟨rfl, rfl, rfl, rfl, rfl, fun _ hp => Or.inl hp⟩

theorem session_revokes (revs : List (Option Str × Revocation)) (m : GroupMachine) :
    let m' := revs.foldl (fun m rev => m.revoke rev.1 rev.2) m
    m'.outbound = m.outbound ∧ m'.keeper = m.keeper ∧ m'.olmSessions = m.olmSessions ∧
      m'.sessions.length = m.sessions.length ∧
      ∀ i, i < m.sessions.length → Recorded revs (m.session i) (m'.session i) := by
  dsimp only
  induction revs using List.reverseRecOn with
  | nil => exact ⟨rfl, rfl, rfl, rfl, fun i _ => Recorded.refl _ _⟩
  | append_singleton revs rev ih =>
    obtain ⟨houtbound, hkeeper, holm, hlen, hrec⟩ := ih
    rw [List.foldl_concat]
    generalize revs.foldl (fun m rev => m.revoke rev.1 rev.2) m = m₁ at houtbound hkeeper holm hlen hrec
    refine ⟨houtbound, hkeeper, holm, by rw [GroupMachine.length_revoke, hlen], fun i hi => ?_⟩
    have hr := hrec i hi
    have hold : ∀ p ∈ (m₁.session i).revocations, p ∈ (m.session i).revocations ∨
        p.2 = (m.session i).requested ∧
          ∀ d, p.1.covers d = true → Hits (revs ++ [rev]) (m.session i).roomId d := by
      intro p hp
      rcases hr.revocations p hp with hp | ⟨hp, hhits⟩
      · exact Or.inl hp
      · refine Or.inr ⟨hp, fun d hd => ?_⟩
        obtain ⟨rev', hrev', h⟩ := hhits d hd
        exact ⟨rev', List.mem_append_left _ hrev', h⟩
    rw [GroupMachine.session_revoke m₁ rev.1 rev.2 (hlen ▸ hi)]
    split
    · next hscope =>
      refine ⟨hr.roomId, hr.shared, hr.requested, hr.usersSharedWith, hr.usersIgnored,
        fun p hp => ?_⟩
      rcases List.mem_cons.mp hp with rfl | hp
      · refine Or.inr ⟨hr.requested, fun d hd => ⟨rev, by simp, ?_, hd⟩⟩
        rw [← hr.roomId]
        exact hscope
      · exact hold p hp
    · exact ⟨hr.roomId, hr.shared, hr.requested, hr.usersSharedWith, hr.usersIgnored, hold⟩

/-- The stored sessions once the ghosts have seen the revocations -/
structure Fallen (revs : List (Option Str × Revocation)) (invalidates : Bool) (c : SharingClient) :
    Prop where
  wellFormed : c.machine.WellFormed
  room : ∀ r i, c.machine.stored r = some i → ∃ room, dictGet? c.rooms r = some room ∧
    room.encrypted = true ∧ ∀ d ∈ (c.machine.session i).requested, d.1 ∈ room.users
  /-- The sessions that are to go are shared, and the step invalidates. -/
  stand : ∀ r i, c.machine.stored r = some i → (c.machine.session i).Unexposed ∨
    (c.machine.session i).shared = true ∧ invalidates = true
  spared : ∀ r i, c.machine.stored r = some i →
    ((c.machine.session i).shared && invalidates) = false →
    ∀ d ∈ (c.machine.session i).requested, ¬ Hits revs r d
  clean : ∀ r i, c.machine.stored r = some i →
    (∀ d ∈ (c.machine.session i).requested, ¬ Hits revs r d) → (c.machine.session i).Unexposed
  sharing : ∀ r phase, dictGet? c.sharing r = some phase →
    ∃ room, dictGet? c.rooms r = some room ∧ room.encrypted = true
  messages : ∀ s ∈ c.messages, s.Unexposed

theorem Stands.revoke {env : KeyQueryEnv} {c : SharingClient} {action : SharingAction}
    (h : Stands c) (hspare : c.sparesRevoked env action = true) :
    Fallen (c.revocations env action) (c.invalidates env action)
      (c.revoke (c.revocations env action)) := by
  obtain ⟨houtbound, -, -, hlen, hrec⟩ := session_revokes (c.revocations env action) c.machine
  have hstored : ∀ r, (c.revoke (c.revocations env action)).machine.stored r = c.machine.stored r :=
    fun r => congrArg (dictGet? · r) houtbound
  have hwf := h.standing.wellFormed
  have hsessions : ∀ r i, c.machine.stored r = some i →
      Recorded (c.revocations env action) (c.machine.session i)
        ((c.revoke (c.revocations env action)).machine.session i) := fun r i hi => hrec i (hwf r i hi).1
  have hspared : ∀ r i, c.machine.stored r = some i →
      ((c.machine.session i).shared && c.invalidates env action) = false →
      ∀ d ∈ (c.machine.session i).requested, ¬ Hits (c.revocations env action) r d := by
    rintro r i hi hnot d hd ⟨rev, hrev, hscope, hcovers⟩
    have hall := List.all_eq_true.mp (List.all_eq_true.mp hspare rev hrev) (r, i) (mem_of_dictGet? hi)
    dsimp only at hall
    rw [hnot, Bool.or_false, Bool.or_eq_true] at hall
    rcases hall with hother | hfree
    · rcases hscope with hs | hs
      · rw [hs] at hother
        cases hother
      · rw [hs] at hother
        simp at hother
    · have := List.all_eq_true.mp hfree d hd
      rw [hcovers] at this
      cases this
  have hclean : ∀ r i, c.machine.stored r = some i →
      (∀ d ∈ (c.machine.session i).requested, ¬ Hits (c.revocations env action) r d) →
      ((c.revoke (c.revocations env action)).machine.session i).Unexposed := by
    intro r i hi hno p hp d hd
    have hr := hsessions r i hi
    rcases hr.revocations p hp with hp | ⟨hp, hhits⟩
    · exact (h.standing.stand r i hi).unexposed p hp d hd
    · cases hcovers : p.1.covers d with
      | false => rfl
      | true =>
        rw [hp] at hd
        refine absurd (hhits d hcovers) ?_
        rw [(hwf r i hi).2]
        exact hno d hd
  refine ⟨fun r i hi => ?_, fun r i hi => ?_, fun r i hi => ?_, fun r i hi => ?_, fun r i hi => ?_,
    h.sharing, h.messages⟩
  · rw [hstored] at hi
    obtain ⟨hlt, hroom⟩ := hwf r i hi
    exact ⟨lt_of_lt_of_eq hlt hlen.symm, (hsessions r i hi).roomId.trans hroom⟩
  · rw [hstored] at hi
    rw [(hsessions r i hi).requested]
    exact (h.standing.stand r i hi).room
  · rw [hstored] at hi
    rw [(hsessions r i hi).shared]
    cases hnot : (c.machine.session i).shared && c.invalidates env action with
    | false => exact Or.inl (hclean r i hi (hspared r i hi hnot))
    | true => exact Or.inr (by simpa using hnot)
  · rw [hstored] at hi
    rw [(hsessions r i hi).shared, (hsessions r i hi).requested]
    exact hspared r i hi
  · rw [hstored] at hi
    rw [(hsessions r i hi).requested]
    exact hclean r i hi

/-- No session is left that has to go, and the members of a room that stay are in it. -/
theorem Fallen.stands {revs : List (Option Str × Revocation)} {invalidates : Bool}
    {c c' : SharingClient} (h : Fallen revs invalidates c)
    (hsessions : c'.machine.sessions = c.machine.sessions) (hmessages : c'.messages = c.messages)
    (hsharing : c'.sharing = c.sharing)
    (hstored : ∀ r i, c'.machine.stored r = some i → c.machine.stored r = some i)
    (hkept : ∀ r i room, c'.machine.stored r = some i → dictGet? c.rooms r = some room →
      room.encrypted = true → (∀ d ∈ (c.machine.session i).requested, d.1 ∈ room.users) →
      (c.machine.session i).shared = true → invalidates = true →
      ∀ d ∈ (c.machine.session i).requested, ¬ Hits revs r d)
    (hrooms : ∀ r room, dictGet? c.rooms r = some room → room.encrypted = true →
      ∃ room', dictGet? c'.rooms r = some room' ∧ room'.encrypted = true ∧
        ∀ d, d.1 ∈ room.users → ¬ Hits revs r d → d.1 ∈ room'.users) : Stands c' := by
  have hsession : ∀ i, c'.machine.session i = c.machine.session i := fun i => by
    unfold GroupMachine.session
    rw [hsessions]
  refine ⟨⟨fun r i hi => ?_, fun r i hi => ?_⟩, fun r phase hphase => ?_,
    by rw [hmessages]; exact h.messages⟩
  · rw [hsession, hsessions]
    exact h.wellFormed r i (hstored r i hi)
  · have hi' := hstored r i hi
    obtain ⟨room, hroom, hencrypted, husers⟩ := h.room r i hi'
    have hno : ∀ d ∈ (c.machine.session i).requested, ¬ Hits revs r d := by
      cases hgoes : (c.machine.session i).shared && invalidates with
      | false => exact h.spared r i hi' hgoes
      | true =>
        have hboth := Bool.and_eq_true_iff.mp hgoes
        exact hkept r i room hi hroom hencrypted husers hboth.1 hboth.2
    obtain ⟨room', hroom', hencrypted', hmembers⟩ := hrooms r room hroom hencrypted
    rw [hsession]
    exact ⟨⟨room', hroom', hencrypted', fun d hd => hmembers d (husers d hd) (hno d hd)⟩,
      h.clean r i hi' hno⟩
  · rw [hsharing] at hphase
    obtain ⟨room, hroom, hencrypted⟩ := h.sharing r phase hphase
    obtain ⟨room', hroom', hencrypted', -⟩ := hrooms r room hroom hencrypted
    exact ⟨room', hroom', hencrypted'⟩

/-- The step revokes nothing. -/
theorem Fallen.of_nil {invalidates : Bool} {c : SharingClient} (h : Fallen [] invalidates c) :
    Stands c := by
  have hno : ∀ r d, ¬ Hits [] r d := fun r d hits => by
    obtain ⟨rev, hrev, -⟩ := hits
    cases hrev
  exact h.stands rfl rfl rfl (fun _ _ hi => hi) (fun r _ _ _ _ _ _ _ _ d _ => hno r d)
    fun _ room hroom hencrypted => ⟨room, hroom, hencrypted, fun _ hd _ => hd⟩

namespace Stands

variable {env : KeyQueryEnv} {c : SharingClient}

theorem setMachine (h : Stands c) {m : GroupMachine} (hm : Standing c.rooms m) :
    Stands { c with machine := m } := ⟨hm, h.sharing, h.messages⟩

theorem setSharing (h : Stands c) {roomId : Str} {room : GroupRoom}
    (hroom : c.room roomId = some room) (hencrypted : room.encrypted = true) (phase : SharePhase) :
    Stands { c with sharing := dictSet c.sharing roomId phase } := by
  refine ⟨h.standing, fun r phase' hphase => ?_, h.messages⟩
  rw [dictGet?_dictSet] at hphase
  split at hphase
  · next hr => exact ⟨room, by rw [hr]; exact hroom, hencrypted⟩
  · exact h.sharing r phase' hphase

theorem release (h : Stands c) (roomId : Str) : Stands (c.release roomId) := by
  refine ⟨h.standing, fun r phase hphase => ?_, h.messages⟩
  rw [show dictGet? (c.release roomId).sharing r = _ from dictGet?_dictErase c.sharing roomId r] at hphase
  split at hphase
  · cases hphase
  · exact h.sharing r phase hphase

/-- A machine that has other Olm sessions -/
theorem setOlmSessions (h : Stands c) (keys : List Str) :
    Stands { c with machine := { c.machine with olmSessions := keys } } :=
  h.setMachine (h.standing.of_eq rfl rfl)

theorem markAsShared (h : Stands c) (room : GroupRoom) (i : Nat) (p : ShareProgress) :
    Stands (c.markAsShared env room i p) := by
  unfold SharingClient.markAsShared
  split
  · exact h
  · exact ⟨h.standing.modify i (fun _ => rfl) (fun _ => rfl) (fun _ => rfl), h.sharing, h.messages⟩

end Stands

namespace SharingClient

variable {env : KeyQueryEnv} {c : SharingClient}

/-- A room is there after the members of one have changed. -/
theorem room_setRoom {c : SharingClient} {roomId r : Str} {room₀ room room₁ : GroupRoom}
    (h₀ : c.room roomId = some room₀) (hroom : dictGet? c.rooms r = some room) :
    ∃ room', dictGet? (c.setRoom roomId room₁).rooms r = some room' ∧
      (room' = room ∧ r ≠ roomId ∨ room = room₀ ∧ room' = room₁ ∧ r = roomId) := by
  by_cases hr : r = roomId
  · subst hr
    refine ⟨room₁, ?_, Or.inr ⟨?_, rfl, rfl⟩⟩
    · show dictGet? (dictSet c.rooms r room₁) r = _
      rw [dictGet?_dictSet, if_pos rfl]
    · exact Option.some.inj (hroom.symm.trans h₀)
  · refine ⟨room, ?_, Or.inl ⟨rfl, hr⟩⟩
    show dictGet? (dictSet c.rooms roomId room₁) r = _
    rw [dictGet?_dictSet, if_neg hr]
    exact hroom

/-! ### Members -/

/-- Who is a member stays one, unless it is the one who leaves. -/
theorem handleMembership_users (room : GroupRoom) (userId : Str) (m : Membership) :
    (room.handleMembership userId m).1.encrypted = room.encrypted ∧
    ∀ u ∈ room.users, ((m = .leave ∨ m = .ban) → u ≠ userId) →
      u ∈ (room.handleMembership userId m).1.users := by
  unfold GroupRoom.handleMembership
  have hjoin : ∀ room' : GroupRoom, room.users ⊆ room'.users → ∀ u ∈ room.users, _ → u ∈ room'.users :=
    fun room' hsub u hu (_ : (m = .leave ∨ m = .ban) → u ≠ userId) => hsub hu
  cases m with
  | join | invite =>
    dsimp only
    split
    · split
      · exact ⟨rfl, hjoin _ (List.Subset.refl _)⟩
      · exact ⟨rfl, hjoin _ (List.subset_append_left _ _)⟩
    · exact ⟨rfl, hjoin _ (List.Subset.refl _)⟩
  | leave | ban =>
    refine ⟨rfl, fun u hu hne => ?_⟩
    exact List.mem_filter.mpr ⟨hu, decide_eq_true (hne (by simp))⟩
  | knock => exact ⟨rfl, hjoin _ (List.Subset.refl _)⟩

/-- A leave or a ban of a joined user changes the room. -/
theorem handleMembership_changed {room : GroupRoom} {userId : Str} {m : Membership}
    (hm : m = .leave ∨ m = .ban) (hu : userId ∈ room.users) :
    (room.handleMembership userId m).2 = true := by
  rcases hm with rfl | rfl <;> simp [GroupRoom.handleMembership, hu]

/-- A member event revokes its user in its room exactly on a leave or a ban. -/
theorem mem_revocations_member {roomId userId : Str} {m : Membership} {rev : Option Str × Revocation} :
    rev ∈ c.revocations env (.member roomId userId m) ↔
      (m = .leave ∨ m = .ban) ∧ rev = (some roomId, .user userId) := by
  show rev ∈ (if m = .leave ∨ m = .ban then [(some roomId, Revocation.user userId)] else []) ↔ _
  split
  · next hm => simp [hm]
  · next hm => simp [hm]

/-- A member event keeps the invariant after its revocation. -/
theorem stands_member {roomId userId : Str} {m : Membership}
    (h : Fallen (c.revocations env (.member roomId userId m)) true c) :
    Stands (c.member roomId userId m) := by
  unfold member
  cases hroom : c.room roomId with
  | none =>
    dsimp only
    refine h.stands rfl rfl rfl (fun _ _ hi => hi) ?_
      fun _ room hr hencrypted => ⟨room, hr, hencrypted, fun _ hd _ => hd⟩
    rintro r i room hi hr - - - - d - ⟨rev, hrev, hscope, -⟩
    -- the room of a session is there
    obtain ⟨-, rfl⟩ := mem_revocations_member.mp hrev
    rcases hscope with hs | hs
    · cases hs
    · cases hs
      rw [show dictGet? c.rooms roomId = none from hroom] at hr
      cases hr
  | some room₀ =>
    dsimp only
    obtain ⟨hencrypted₀, husers₀⟩ := handleMembership_users room₀ userId m
    have hpruned : Pruned (c.setRoom roomId (room₀.handleMembership userId m).1)
        (if (room₀.handleMembership userId m).2 = true then
          (c.setRoom roomId (room₀.handleMembership userId m).1).invalidateOutboundSession roomId
        else c.setRoom roomId (room₀.handleMembership userId m).1) := by
      split
      · exact pruned_invalidateOutboundSession _ _
      · exact Pruned.refl _
    refine h.stands hpruned.sessions hpruned.messages hpruned.sharing hpruned.stored ?_ ?_
    · rintro r i room hi hr hencrypted husers hshared - d hd ⟨rev, hrev, hscope, hcovers⟩
      obtain ⟨hm, rfl⟩ := mem_revocations_member.mp hrev
      rcases hscope with hs | hs
      · cases hs
      · cases hs
        have huser : d.1 = userId := Revocation.user_of_covers hcovers
        have hmember := husers d hd
        rw [huser, Option.some.inj (hr.symm.trans hroom)] at hmember
        have hun := stored_invalidateOutboundSession
          (by rw [if_pos (handleMembership_changed hm hmember)] at hi; exact hi)
        rw [show (c.setRoom roomId (room₀.handleMembership userId m).1).machine.session i =
          c.machine.session i from rfl, hshared] at hun
        cases hun
    · intro r room hr hencrypted
      rw [hpruned.rooms]
      obtain ⟨room', hr', hcase⟩ := @room_setRoom c roomId r room₀ room
        (room₀.handleMembership userId m).1 hroom hr
      refine ⟨room', hr', ?_⟩
      rcases hcase with ⟨rfl, -⟩ | ⟨rfl, rfl, rfl⟩
      · exact ⟨hencrypted, fun d hd _ => hd⟩
      · refine ⟨hencrypted₀.trans hencrypted, fun d hd hno => husers₀ d.1 hd fun hm he => ?_⟩
        exact hno ⟨(some r, .user userId), mem_revocations_member.mpr ⟨hm, rfl⟩, Or.inr rfl,
          decide_eq_true he⟩

/-- So it is with the answer to a member lookup, -/
theorem stands_joinedMembers {roomId : Str} {joined : List Str}
    (h : Fallen (c.revocations env (.joinedMembers roomId joined)) false c) :
    Stands (c.joinedMembers roomId joined) := by
  unfold joinedMembers
  cases hroom : c.room roomId with
  | none =>
    dsimp only
    refine h.stands rfl rfl rfl (fun _ _ hi => hi) ?_
      fun _ room hr hencrypted => ⟨room, hr, hencrypted, fun _ hd _ => hd⟩
    rintro r i room hi hr - - - hfalse
    cases hfalse
  | some room₀ =>
    dsimp only
    refine h.stands rfl rfl rfl (fun _ _ hi => hi) ?_ ?_
    · rintro r i room hi hr - - - hfalse
      cases hfalse
    · intro r room hr hencrypted
      obtain ⟨room', hr', hcase⟩ := @room_setRoom c roomId r room₀ room
        (room₀.handleJoinedMembers joined) hroom hr
      refine ⟨room', hr', ?_⟩
      rcases hcase with ⟨rfl, -⟩ | ⟨rfl, rfl, rfl⟩
      · exact ⟨hencrypted, fun d hd _ => hd⟩
      · refine ⟨hencrypted, fun d hd hno => ?_⟩
        by_cases hstays : d.1 ∈ (room.handleJoinedMembers joined).users
        · exact hstays
        · refine absurd ⟨(some r, .user d.1), ?_, Or.inr rfl, decide_eq_true rfl⟩ hno
          unfold revocations
          dsimp only
          rw [hroom]
          exact List.mem_map_of_mem (List.mem_filter.mpr ⟨hd, decide_eq_true hstays⟩)

/-! ### Devices and trust -/

/-- with a key query -/
theorem stands_keysQuery {response : KeysQueryResponse} {left : DeviceKeeper}
    (h : Fallen (c.revocations env (.keysQuery response left))
      (c.invalidates env (.keysQuery response left)) c) :
    Stands (c.keysQuery env response left) := by
  unfold keysQuery
  unfold revocations invalidates at h
  dsimp only at h
  cases hq : handleKeyQuery env c.machine.keeper response with
  | error e =>
    rw [hq] at h
    dsimp only at h ⊢
    refine h.stands rfl rfl rfl (fun _ _ hi => hi) ?_
      fun _ room hr hencrypted => ⟨room, hr, hencrypted, fun _ hd _ => hd⟩
    rintro r i room hi hr - - - hfalse
    cases hfalse
  | ok res =>
    obtain ⟨keeper, changed⟩ := res
    rw [hq] at h
    dsimp only at h ⊢
    have hpruned : Pruned (c.setKeeper keeper) (changed.foldl (fun c key =>
        c.invalidateRooms fun room => room.encrypted && key.1 ∈ room.users) (c.setKeeper keeper)) :=
      pruned_foldl (fun c key => pruned_invalidateRooms c _) changed _
    refine h.stands hpruned.sessions hpruned.messages hpruned.sharing hpruned.stored ?_
      fun r room hr hencrypted => ⟨room, ?_, hencrypted, fun _ hd _ => hd⟩
    · rintro r i room hi hr hencrypted husers hshared - d hd ⟨rev, hrev, -, hcovers⟩
      obtain ⟨key, hkey, rfl⟩ := List.mem_map.mp hrev
      have huser : d.1 = key.1 := Revocation.user_of_covers hcovers
      obtain ⟨c', hc', hs⟩ := stored_foldl (fun c key => pruned_invalidateRooms c _) hkey hi
      have hr' : dictGet? c'.rooms r = some room := by
        rw [hc'.rooms]
        exact hr
      have hun := stored_invalidateRooms hs hr' (by rw [hencrypted, ← huser]; simp [husers d hd])
      rw [hc'.session, show (c.setKeeper keeper).machine.session i = c.machine.session i from rfl,
        hshared] at hun
      cases hun
    · rw [hpruned.rooms]
      exact hr

/-- and with a change of trust. -/
theorem stands_trust {change : TrustChange} {userId deviceId : Str}
    (h : Fallen (c.revocations env (.trust change userId deviceId)) true c) :
    Stands (c.trust change userId deviceId) := by
  unfold trust
  unfold revocations at h
  dsimp only at h
  cases ht : change.apply c.machine.keeper userId deviceId with
  | error e =>
    rw [ht] at h
    exact h.of_nil
  | ok res =>
    obtain ⟨keeper, changed⟩ := res
    rw [ht] at h
    dsimp only at h ⊢
    have hpruned : Pruned (c.setKeeper keeper)
        (if changed = true then
          (c.setKeeper keeper).invalidateRooms fun room => userId ∈ room.users
        else c.setKeeper keeper) := by
      split
      · exact pruned_invalidateRooms _ _
      · exact Pruned.refl _
    refine h.stands hpruned.sessions hpruned.messages hpruned.sharing hpruned.stored ?_
      fun r room hr hencrypted => ⟨room, ?_, hencrypted, fun _ hd _ => hd⟩
    · rintro r i room hi hr hencrypted husers hshared - d hd ⟨rev, hrev, -, hcovers⟩
      split at hrev
      · next hboth =>
        rcases List.mem_singleton.mp hrev with rfl
        have huser : d.1 = userId := Revocation.user_of_covers hcovers
        rw [if_pos (Bool.and_eq_true_iff.mp hboth).1] at hi
        have hun := stored_invalidateRooms hi hr (by rw [← huser]; simp [husers d hd])
        rw [show (c.setKeeper keeper).machine.session i = c.machine.session i from rfl, hshared] at hun
        cases hun
      · cases hrev
    · rw [hpruned.rooms]
      exact hr

/-! ### The share -/

/-- Sharing and sending reach devices that are not revoked. -/
theorem stands_sendKeys {roomId : Str} {room : GroupRoom} {ign : Bool} (h : Stands c)
    (hroom : c.room roomId = some room) (hencrypted : room.encrypted = true) :
    Stands (c.sendKeys env roomId room ign) := by
  unfold sendKeys
  dsimp only
  rcases hpar : c.machine.shareGroupSessionParallel env roomId room.users ign with ⟨machine, res⟩
  obtain ⟨i, ignored, hc, hres⟩ := shareGroupSessionParallel_cases hpar
  have hmachine : Standing c.rooms machine :=
    ((h.standing.shareable hroom hencrypted).modify i (f := .setIgnored ignored) (fun _ => rfl)
      (fun _ => rfl) (fun _ => rfl)).of_eq hc.sessions hc.outbound
  cases res with
  | error e => exact (h.setMachine hmachine).release roomId
  | ok res =>
    obtain ⟨j, parts⟩ := res
    obtain ⟨rfl, hchosen⟩ := hres j parts rfl
    have hstored : machine.stored roomId = some j := by
      have hshareable := c.machine.stored_shareable roomId
      rw [← hc.session] at hshareable
      rw [← hshareable]
      unfold GroupMachine.stored
      rw [hc.outbound]
    have hrequest := hmachine.request hstored hroom fun k hk => (hchosen.eligible k hk).1
    exact (h.setMachine hrequest).setSharing hroom hencrypted _

theorem stands_share {roomId : Str} {ign : Bool} (h : Stands c) :
    Stands (c.share env roomId ign) := by
  unfold share
  split
  · exact h
  · next room hroom =>
    split
    · exact h
    · next hboth =>
      have hencrypted : room.encrypted = true := by
        cases he : room.encrypted with
        | true => rfl
        | false => simp [he] at hboth
      split
      · exact h.setSharing hroom hencrypted _
      · exact stands_sendKeys h hroom hencrypted

theorem stands_claimed {roomId : Str} {keys : List Str} (h : Stands c) :
    Stands (c.claimed env roomId keys) := by
  unfold claimed
  split
  · next room ign hroom hphase =>
    obtain ⟨room', hroom', hencrypted⟩ := h.sharing roomId _ hphase
    rw [show dictGet? c.rooms roomId = some room from hroom] at hroom'
    cases hroom'
    exact stands_sendKeys (h.setOlmSessions _) hroom hencrypted
  · exact h

theorem stands_answered {roomId : Str} {index : Nat} {success : Bool} (h : Stands c) :
    Stands (c.answered env roomId index success) := by
  unfold answered
  split
  · next p hphase =>
    split
    · exact h
    · next keys hkeys =>
      obtain ⟨room, hroom, hencrypted⟩ := h.sharing roomId _ hphase
      have hset := h.setSharing hroom hencrypted
        (.sending { p with pending := p.pending.eraseIdx index, failed := p.failed || !success })
      dsimp only
      split
      · have hdeliver := hset.setMachine (hset.standing.modify p.session (f := (·.deliver keys))
          (fun _ => rfl) (fun _ => rfl) (fun _ => rfl))
        unfold handleShared
        split
        · next i room' hi hroom' =>
          have hshare := hdeliver.setMachine (hdeliver.standing.modify i (f := (·.shareWith keys))
            (fun _ => rfl) (fun _ => rfl) (fun _ => rfl))
          dsimp only
          split
          · exact hshare.markAsShared room' i _
          · exact hshare
        · exact hdeliver
      · exact hset
  · exact h

theorem stands_finish {roomId : Str} (h : Stands c) : Stands (c.finish env roomId) := by
  unfold finish
  split
  · next p hphase =>
    split
    · have hrelease := h.release roomId
      dsimp only
      split
      · next i room hi hroom => exact hrelease.markAsShared room i p
      · exact hrelease
    · exact h
  · exact h

/-- An encryption uses a session that stands. -/
theorem stands_encrypt {roomId : Str} {aged count : Bool} (h : Stands c) :
    Stands (c.encrypt roomId aged count) := by
  unfold encrypt
  split
  · exact h
  · next room hroom =>
    split
    · next hboth =>
      have hencrypted := (Bool.and_eq_true_iff.mp hboth).1
      rcases henc : c.machine.groupEncrypt roomId aged count with ⟨machine, res⟩
      rcases groupEncrypt_cases henc with ⟨rfl, rfl⟩ | ⟨rfl, rfl⟩ | ⟨i, n, rfl, hi, -, rfl⟩
      · exact h
      · exact h.setMachine (h.standing.create hroom hencrypted)
      · refine ⟨h.standing.modify i (fun _ => rfl) (fun _ => rfl) (fun _ => rfl), h.sharing,
          fun s hs => ?_⟩
        rcases List.mem_cons.mp hs with rfl | hs
        · exact (h.standing.stand roomId i hi).unexposed
        · exact h.messages s hs
    · exact h

/-! ### The other actions -/

theorem stands_room {roomId : Str} {encrypted : Bool} (h : Stands c) :
    Stands (c.act env (.room roomId encrypted)) := by
  show Stands (if (c.room roomId).isSome then c else c.setRoom roomId ⟨[], [], encrypted, false⟩)
  split
  · exact h
  · next hnone =>
    have hkeep : ∀ r room, dictGet? c.rooms r = some room →
        dictGet? (c.setRoom roomId ⟨[], [], encrypted, false⟩).rooms r = some room := by
      intro r room hr
      show dictGet? (dictSet c.rooms roomId _) r = _
      rw [dictGet?_dictSet, if_neg ?_, hr]
      rintro rfl
      exact hnone (by rw [SharingClient.room, hr]; rfl)
    refine ⟨h.standing.grow fun r room hr => ⟨room, hkeep r room hr, id, List.Subset.refl _⟩,
      fun r phase hphase => ?_, h.messages⟩
    obtain ⟨room, hr, hencrypted⟩ := h.sharing r phase hphase
    exact ⟨room, hkeep r room hr, hencrypted⟩

theorem stands_encryption {roomId : Str} (h : Stands c) :
    Stands (c.act env (.encryption roomId)) := by
  unfold act
  dsimp only
  split
  · next room₀ hroom₀ =>
    have hkeep : ∀ r room, dictGet? c.rooms r = some room →
        ∃ room', dictGet? (c.setRoom roomId { room₀ with encrypted := true }).rooms r = some room' ∧
          (room.encrypted = true → room'.encrypted = true) ∧ room.users ⊆ room'.users := by
      intro r room hr
      obtain ⟨room', hr', hcase⟩ := @room_setRoom c roomId r room₀ room
        { room₀ with encrypted := true } hroom₀ hr
      rcases hcase with ⟨rfl, -⟩ | ⟨rfl, rfl, -⟩
      · exact ⟨room', hr', id, List.Subset.refl _⟩
      · exact ⟨_, hr', fun _ => rfl, List.Subset.refl _⟩
    refine ⟨h.standing.grow hkeep, fun r phase hphase => ?_, h.messages⟩
    obtain ⟨room, hr, hencrypted⟩ := h.sharing r phase hphase
    obtain ⟨room', hr', hkept, -⟩ := hkeep r room hr
    exact ⟨room', hr', hkept hencrypted⟩
  · exact h

/-- What an action revokes does not depend on earlier revocations. -/
theorem revoke_congr (c : SharingClient) (revs : List (Option Str × Revocation))
    (action : SharingAction) :
    (c.revoke revs).revocations env action = c.revocations env action ∧
      (c.revoke revs).invalidates env action = c.invalidates env action := by
  have hkeeper : (c.revoke revs).machine.keeper = c.machine.keeper :=
    (session_revokes revs c.machine).2.1
  cases action with
  | keysQuery response left =>
    unfold revocations invalidates
    dsimp only
    rw [hkeeper]
    exact ⟨rfl, rfl⟩
  | trust change userId deviceId =>
    unfold revocations invalidates
    dsimp only
    rw [hkeeper]
    exact ⟨rfl, rfl⟩
  | _ => exact ⟨rfl, rfl⟩

/-- A step that comes upon no session with a key in requests keeps the invariant. -/
theorem stands_step {action : SharingAction} (hspare : c.sparesRevoked env action = true)
    (h : Stands c) : Stands (c.step env action) := by
  have hf := h.revoke hspare
  obtain ⟨hrevs, hinv⟩ := @revoke_congr env c (c.revocations env action) action
  unfold step
  generalize c.revoke (c.revocations env action) = c₁ at hf hrevs hinv
  rw [← hrevs, ← hinv] at hf
  cases action with
  | member roomId userId membership => exact stands_member hf
  | joinedMembers roomId joined => exact stands_joinedMembers hf
  | keysQuery response left => exact stands_keysQuery hf
  | trust change userId deviceId => exact stands_trust hf
  | room roomId encrypted => exact stands_room hf.of_nil
  | encryption roomId => exact stands_encryption hf.of_nil
  | olmSession curve25519 => exact hf.of_nil.setOlmSessions _
  | share roomId ignoreUnverifiedDevices => exact stands_share hf.of_nil
  | claimed roomId curve25519 => exact stands_claimed hf.of_nil
  | shareRaises roomId => exact hf.of_nil.release roomId
  | answered roomId index success => exact stands_answered hf.of_nil
  | finish roomId => exact stands_finish hf.of_nil
  | encrypt roomId aged count => exact stands_encrypt hf.of_nil

end SharingClient

theorem SharingClient.Started.stands {c : SharingClient} (h : c.Started) : Stands c := by
  have hstored : ∀ r, c.machine.stored r = none := fun r => by
    unfold GroupMachine.stored
    rw [h.outbound]
    rfl
  refine ⟨⟨fun r i hi => ?_, fun r i hi => ?_⟩, fun r phase hphase => ?_, fun s hs => ?_⟩
  · rw [hstored] at hi
    cases hi
  · rw [hstored] at hi
    cases hi
  · rw [h.sharing] at hphase
    cases hphase
  · rw [h.messages] at hs
    cases hs

/-! ## Requests -/

namespace GroupMachine

/-- No key is requested. -/
def Keeps (m m' : GroupMachine) : Prop :=
  ∀ i, (m'.session i).requested ⊆ (m.session i).requested

theorem Keeps.refl (m : GroupMachine) : m.Keeps m := fun _ => List.Subset.refl _

theorem Keeps.trans {m₁ m₂ m₃ : GroupMachine} (h₁ : m₁.Keeps m₂) (h₂ : m₂.Keeps m₃) : m₁.Keeps m₃ :=
  fun i => List.Subset.trans (h₂ i) (h₁ i)

theorem keeps_of_sessions {m m' : GroupMachine} (h : m'.sessions = m.sessions) : m.Keeps m' := by
  intro i
  unfold session
  rw [h]
  exact List.Subset.refl _

/-- A change of a session that keeps its requests keeps those of the machine. -/
theorem keeps_modify (m : GroupMachine) (i : Nat) {f : OutboundGroupSession → OutboundGroupSession}
    (hf : ∀ s, (f s).requested = s.requested) : m.Keeps (m.modify i f) := by
  intro j
  rcases session_modify_cases m i f j with h | ⟨-, h⟩
  · rw [h]
    exact List.Subset.refl _
  · rw [h, hf]
    exact List.Subset.refl _

theorem keeps_create (m : GroupMachine) (r : Str) : m.Keeps (m.createOutboundGroupSession r).1 := by
  intro i
  by_cases hi : i < m.sessions.length
  · rw [session_create m r i hi]
    exact List.Subset.refl _
  · have hnew : ((m.createOutboundGroupSession r).1.session i).requested = [] := by
      show (((m.sessions ++ [OutboundGroupSession.new r])[i]?).getD (.new [])).requested = []
      rw [List.getElem?_append_right (Nat.le_of_not_lt hi)]
      cases i - m.sessions.length with
      | zero => rfl
      | succ n => rfl
    rw [hnew]
    exact List.nil_subset _

theorem keeps_shareable (m : GroupMachine) (r : Str) : m.Keeps (m.shareable r).1 := by
  rcases shareable_cases m r with ⟨h, -⟩ | ⟨i, h, -⟩
  · rw [h]
    exact keeps_create m r
  · rw [h]
    exact Keeps.refl m

/-- A revocation takes no request back. -/
theorem keeps_revoke (m : GroupMachine) (scope : Option Str) (rev : Revocation) :
    m.Keeps (m.revoke scope rev) := by
  intro i
  by_cases hi : i < m.sessions.length
  · rw [session_revoke m scope rev hi]
    split
    · exact List.Subset.refl _
    · exact List.Subset.refl _
  · have hnone : (m.revoke scope rev).sessions[i]? = none := by
      rw [List.getElem?_eq_none_iff, length_revoke]
      exact Nat.le_of_not_lt hi
    rw [session, hnone]
    exact List.nil_subset _

end GroupMachine

namespace SharingClient

variable {env : KeyQueryEnv} {c c' : SharingClient}

/-- A key is requested for devices of members only, and for those that a key can be sent to. -/
def Requests (env : KeyQueryEnv) (c c' : SharingClient) : Prop :=
  ∀ i, ∀ d ∈ (c'.machine.session i).requested, d ∈ (c.machine.session i).requested ∨
    ∃ room, c.room (c'.machine.session i).roomId = some room ∧ d.1 ∈ room.users ∧
      d ∈ c'.machine.eligible env d.1

theorem Requests.of_keeps (h : c.machine.Keeps c'.machine) : Requests env c c' :=
  fun i _ hd => Or.inl (h i hd)

/-- Sending keys adds requests for the devices it is meant for. -/
theorem requests_sendKeys (hwf : c.machine.WellFormed) {roomId : Str} {room : GroupRoom} {ign : Bool}
    (hroom : c.room roomId = some room) : Requests env c (c.sendKeys env roomId room ign) := by
  unfold sendKeys
  dsimp only
  rcases hpar : c.machine.shareGroupSessionParallel env roomId room.users ign with ⟨machine, res⟩
  obtain ⟨i, ignored, hc, hres⟩ := shareGroupSessionParallel_cases hpar
  have hset := (c.machine.shareable roomId).1.keeps_modify i (f := .setIgnored ignored) fun _ => rfl
  have hkeeps : c.machine.Keeps machine := ((c.machine.keeps_shareable roomId).trans hset).trans
    (GroupMachine.keeps_of_sessions hc.sessions)
  cases res with
  | error e => exact Requests.of_keeps hkeeps
  | ok res =>
    obtain ⟨j, parts⟩ := res
    obtain ⟨rfl, hchosen⟩ := hres j parts rfl
    intro k d hd
    rcases machine.session_modify_cases j (·.request parts.flatten) k with h | ⟨rfl, h⟩
    · exact Or.inl (hkeeps k (h ▸ hd))
    · have hd' : d ∈ (machine.session k).requested ++ parts.flatten := by
        have h' : ((machine.modify k (·.request parts.flatten)).session k).requested =
            (machine.session k).requested ++ parts.flatten := congrArg (·.requested) h
        exact h' ▸ hd
      rcases List.mem_append.mp hd' with hd' | hd'
      · exact Or.inl (hkeeps k hd')
      · right
        obtain ⟨huser, helig⟩ := hchosen.eligible d hd'
        refine ⟨room, ?_, huser, (hc.eligible d.1 d).mpr helig⟩
        -- the session is the one of the room
        have hstored := c.machine.stored_shareable roomId
        rw [← hc.session] at hstored
        have hid := (((hwf.shareable roomId).modify k (f := .setIgnored ignored) fun _ => rfl)
          roomId k hstored).2
        have hid' : (machine.session k).roomId = roomId := by
          unfold GroupMachine.session at hid ⊢
          rw [hc.sessions]
          exact hid
        have hid'' : ((machine.modify k (·.request parts.flatten)).session k).roomId = roomId :=
          (congrArg (·.roomId) h).trans hid'
        show c.room ((machine.modify k (·.request parts.flatten)).session k).roomId = some room
        rw [hid'', hroom]

theorem keeps_markAsShared (c : SharingClient) (room : GroupRoom) (i : Nat) (p : ShareProgress) :
    c.machine.Keeps (c.markAsShared env room i p).machine := by
  unfold markAsShared
  split
  · exact GroupMachine.Keeps.refl _
  · exact c.machine.keeps_modify i fun _ => rfl

theorem keeps_answered (c : SharingClient) (roomId : Str) (index : Nat) (success : Bool) :
    c.machine.Keeps (c.answered env roomId index success).machine := by
  unfold answered
  split
  · next p hphase =>
    split
    · exact GroupMachine.Keeps.refl _
    · next keys hkeys =>
      dsimp only
      split
      · refine (c.machine.keeps_modify p.session (f := (·.deliver keys)) fun _ => rfl).trans ?_
        unfold handleShared
        split
        · next i room hi hroom =>
          refine (GroupMachine.keeps_modify _ i (f := (·.shareWith keys)) fun _ => rfl).trans ?_
          dsimp only
          split
          · exact keeps_markAsShared _ room i _
          · exact GroupMachine.Keeps.refl _
        · exact GroupMachine.Keeps.refl _
      · exact GroupMachine.Keeps.refl _
  · exact GroupMachine.Keeps.refl _

theorem keeps_encrypt (c : SharingClient) (roomId : Str) (aged count : Bool) :
    c.machine.Keeps (c.encrypt roomId aged count).machine := by
  unfold encrypt
  split
  · exact GroupMachine.Keeps.refl _
  · split
    · rcases henc : c.machine.groupEncrypt roomId aged count with ⟨machine, res⟩
      rcases groupEncrypt_cases henc with ⟨rfl, rfl⟩ | ⟨rfl, rfl⟩ | ⟨i, n, rfl, -, -, rfl⟩
      · exact GroupMachine.Keeps.refl _
      · exact c.machine.keeps_create roomId
      · exact c.machine.keeps_modify i fun _ => rfl
    · exact GroupMachine.Keeps.refl _

theorem Pruned.keeps (h : Pruned c c') : c.machine.Keeps c'.machine :=
  GroupMachine.keeps_of_sessions h.sessions

/-- Every action adds such requests only, -/
theorem act_requests (hwf : c.machine.WellFormed) (action : SharingAction) :
    Requests env c (c.act env action) := by
  cases action with
  | room roomId encrypted =>
    refine Requests.of_keeps (GroupMachine.keeps_of_sessions ?_)
    unfold act
    dsimp only
    split <;> rfl
  | encryption roomId =>
    refine Requests.of_keeps (GroupMachine.keeps_of_sessions ?_)
    unfold act
    dsimp only
    split <;> rfl
  | member roomId userId membership =>
    refine Requests.of_keeps ?_
    show c.machine.Keeps (c.member roomId userId membership).machine
    unfold member
    split
    · exact GroupMachine.Keeps.refl _
    · dsimp only
      split
      · exact (pruned_invalidateOutboundSession _ _).keeps
      · exact GroupMachine.Keeps.refl _
  | joinedMembers roomId joined =>
    refine Requests.of_keeps ?_
    show c.machine.Keeps (c.joinedMembers roomId joined).machine
    unfold joinedMembers
    split <;> exact GroupMachine.Keeps.refl _
  | keysQuery response left =>
    refine Requests.of_keeps ?_
    show c.machine.Keeps (c.keysQuery env response left).machine
    unfold keysQuery
    split
    · exact GroupMachine.Keeps.refl _
    · exact (pruned_foldl (fun c key => pruned_invalidateRooms c _) _ _).keeps
  | trust change userId deviceId =>
    refine Requests.of_keeps ?_
    show c.machine.Keeps (c.trust change userId deviceId).machine
    unfold trust
    split
    · exact GroupMachine.Keeps.refl _
    · dsimp only
      split
      · exact (pruned_invalidateRooms _ _).keeps
      · exact GroupMachine.Keeps.refl _
  | olmSession curve25519 => exact Requests.of_keeps (GroupMachine.Keeps.refl _)
  | share roomId ignoreUnverifiedDevices =>
    show Requests env c (c.share env roomId ignoreUnverifiedDevices)
    unfold share
    split
    · exact Requests.of_keeps (GroupMachine.Keeps.refl _)
    · next room hroom =>
      split
      · exact Requests.of_keeps (GroupMachine.Keeps.refl _)
      · split
        · exact Requests.of_keeps (GroupMachine.Keeps.refl _)
        · exact requests_sendKeys hwf hroom
  | claimed roomId curve25519 =>
    show Requests env c (c.claimed env roomId curve25519)
    unfold claimed
    split
    · next room ign hroom hphase =>
      exact @requests_sendKeys env
        { c with machine := { c.machine with olmSessions := c.machine.olmSessions ++ curve25519 } }
        hwf roomId room ign hroom
    · exact Requests.of_keeps (GroupMachine.Keeps.refl _)
  | shareRaises roomId => exact Requests.of_keeps (GroupMachine.Keeps.refl _)
  | answered roomId index success => exact Requests.of_keeps (keeps_answered c roomId index success)
  | finish roomId =>
    refine Requests.of_keeps ?_
    show c.machine.Keeps (c.finish env roomId).machine
    unfold finish
    split
    · split
      · dsimp only
        split
        · exact keeps_markAsShared (c.release roomId) _ _ _
        · exact GroupMachine.Keeps.refl _
      · exact GroupMachine.Keeps.refl _
    · exact GroupMachine.Keeps.refl _
  | encrypt roomId aged count => exact Requests.of_keeps (keeps_encrypt c roomId aged count)

/-- and so does every step. -/
theorem step_requests (hwf : c.machine.WellFormed) (action : SharingAction) :
    Requests env c (c.step env action) := by
  have hrevoked : ∀ (revs : List (Option Str × Revocation)) (m : GroupMachine), m.WellFormed →
      (revs.foldl (fun m rev => m.revoke rev.1 rev.2) m).WellFormed ∧
        m.Keeps (revs.foldl (fun m rev => m.revoke rev.1 rev.2) m) := by
    intro revs
    induction revs with
    | nil => exact fun m hm => ⟨hm, GroupMachine.Keeps.refl m⟩
    | cons rev revs ih =>
      intro m hm
      obtain ⟨hm', hkeeps⟩ := ih _ (hm.revoke rev.1 rev.2)
      exact ⟨hm', (m.keeps_revoke rev.1 rev.2).trans hkeeps⟩
  obtain ⟨hwf', hkeeps⟩ := hrevoked (c.revocations env action) c.machine hwf
  intro i d hd
  rcases act_requests (c := c.revoke (c.revocations env action)) hwf' action i d hd with h | h
  · exact Or.inl (hkeeps i h)
  · exact Or.inr h

end SharingClient

/-! ## Runs -/

/-- No message is encrypted with a key that was requested for a device before it lost the right to
read on; and a key is requested only for devices of members of the room then. -/
theorem revocation_ordinary (env : KeyQueryEnv) {c : SharingClient} (hstart : c.Started)
    {actions : List SharingAction}
    (hspare : Along (SharingClient.step env) (fun c action => c.sparesRevoked env action = true) c
      actions) :
    (∀ s ∈ (run (SharingClient.step env) c actions).messages, s.Unexposed) ∧
    ∀ action, SharingClient.Requests env (run (SharingClient.step env) c actions)
      ((run (SharingClient.step env) c actions).step env action) := by
  have hstands : Stands (run (SharingClient.step env) c actions) :=
    run_invariant_along (fun c action hok h => SharingClient.stands_step hok h) hspare hstart.stands
  exact ⟨hstands.messages, SharingClient.step_requests hstands.standing.wellFormed⟩

namespace SharingClient

def aliceEnv : KeyQueryEnv := ⟨py "@alice:x", py "ALICE", false, fun _ _ _ => .ok true, fun _ => []⟩

def bobDevice : OlmDevice :=
  ⟨py "@bob:x", py "BOB", ⟨py "bob ed25519", py "bob curve25519"⟩, .str (py "Bob"), false, .verified⟩

def bobRow : DeviceKeys :=
  ⟨py "@bob:x", py "BOB", py "Bob", false, ⟨py "bob ed25519", py "bob curve25519"⟩, some .verified⟩

/-- A client that has a device of Bob, with whom it is in a room -/
def started : SharingClient where
  machine := ⟨⟨[bobDevice], [bobRow], [], [], []⟩, [py "bob curve25519"], [], []⟩
  rooms := [(py "!room:x", ⟨[py "@bob:x"], [], true, true⟩)]
  sharing := []
  messages := []
  marks := []

theorem started_started : started.Started := ⟨rfl, rfl, rfl, rfl, rfl⟩

end SharingClient

/-- Bob leaves when the session is shared: the next message has another one. -/
theorem revocation_ordinary_leave :
    (run (SharingClient.step SharingClient.aliceEnv) SharingClient.started
      [.share (py "!room:x") false, .answered (py "!room:x") 0 true, .finish (py "!room:x"),
        .encrypt (py "!room:x") false true, .member (py "!room:x") (py "@bob:x") .leave,
        .share (py "!room:x") false, .finish (py "!room:x"),
        .encrypt (py "!room:x") false true]).messages.length = 2 ∧
    ∀ s ∈ (run (SharingClient.step SharingClient.aliceEnv) SharingClient.started
      [.share (py "!room:x") false, .answered (py "!room:x") 0 true, .finish (py "!room:x"),
        .encrypt (py "!room:x") false true, .member (py "!room:x") (py "@bob:x") .leave,
        .share (py "!room:x") false, .finish (py "!room:x"),
        .encrypt (py "!room:x") false true]).messages, s.Unexposed :=
  ⟨by decide +kernel, (@revocation_ordinary SharingClient.aliceEnv SharingClient.started
    SharingClient.started_started
    [.share (py "!room:x") false, .answered (py "!room:x") 0 true, .finish (py "!room:x"),
      .encrypt (py "!room:x") false true, .member (py "!room:x") (py "@bob:x") .leave,
      .share (py "!room:x") false, .finish (py "!room:x"), .encrypt (py "!room:x") false true]
    ⟨by decide +kernel, by decide +kernel, by decide +kernel, by decide +kernel, by decide +kernel,
      by decide +kernel, by decide +kernel, by decide +kernel, trivial⟩).1⟩

/-- Bob leaves while the request with his key is not answered: the session is kept, and the share
marks it when the answer is there. -/
theorem revocation_in_flight_exposed :
    ¬ ∀ (env : KeyQueryEnv) (c : SharingClient), c.Started → ∀ actions,
      ∀ s ∈ (run (SharingClient.step env) c actions).messages, s.Unexposed := by
  intro h
  have hall := h SharingClient.aliceEnv SharingClient.started SharingClient.started_started
    [.share (py "!room:x") false, .member (py "!room:x") (py "@bob:x") .leave,
      .answered (py "!room:x") 0 true, .finish (py "!room:x"), .encrypt (py "!room:x") false true]
  revert hall
  decide +kernel

end Nio.Crypto
