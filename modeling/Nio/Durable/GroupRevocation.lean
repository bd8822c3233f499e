import Nio.Crypto.EligibleDevices
import Nio.Crypto.GroupRevocation
import Nio.Durable.GroupSharing

/-!
# Revocations in an attached client

An attached client throws every session away that a revocation concerns, also one that is not shared
yet. Whom a session concerns it knows from the list of the members and from the devices it was
shared with. While a lookup is in flight there is no list; a device that loses its trust then can
have the key of a session in a request that failed.

* `sparesLookups` — the steps in which no device of such a list loses its trust
* `Stands` — what holds of the stored sessions along the other steps
* `revocation_attached` — no message of a run of such steps is encrypted with a session that was there
  before a revocation and whose key was requested for a device that it concerns
-/

namespace Nio.Crypto

open Nio.Py

/-- The key was requested for no device that has lost its right to read on since. -/
def OutboundGroupSession.Unrevoked (s : OutboundGroupSession) : Prop :=
  ∀ p ∈ s.revocations, ∀ d ∈ s.requested, p.1.covers d = false

instance (s : OutboundGroupSession) : Decidable s.Unrevoked :=
  inferInstanceAs (Decidable (∀ p ∈ s.revocations, ∀ d ∈ s.requested, p.1.covers d = false))

end Nio.Crypto

namespace Nio.Durable

open Nio.Py
open Nio.Lib
open Nio.Crypto

namespace AttachedClient

/-- While the members of a room are looked up again, no device of the members that were known loses
its trust, unless the room's session does not matter (none is stored, it is shared, or the entry of
the lookup is gone) or is thrown away (the room has the user as a member, or the session was shared
with a device of the user). -/
def sparesLookups (env : KeyQueryEnv) (c : AttachedClient) (action : AttachedAction) : Bool :=
  match action, c.lock with
  | .trust change userId deviceId, some (.lookup roomId (some previous)) =>
    (c.revocations env (.trust change userId deviceId)).isEmpty || userId ∉ previous ||
      (c.cached roomId).isNone || (c.room roomId).any (fun o => userId ∈ o.room.users) ||
      (c.machine.stored roomId).all fun i =>
        (c.machine.session i).shared || (c.machine.session i).usersSharedWith.any (·.1 = userId)
  | _, _ => true

/-- The list that the answer of the next lookup is compared with -/
def known (c : AttachedClient) (roomId : Str) : Option (List Str) :=
  match c.cached roomId, c.lock with
  | some (.members _ users), _ => some users
  | some .pending, some (.lookup r previous) => if r = roomId then previous else none
  | _, _ => none

/-- The devices to which the share of a room has not sent the key yet -/
def rest (c : AttachedClient) (roomId : Str) (i : Nat) : List (Str × Str) :=
  match dictGet? c.sharing roomId with
  | some ⟨_, _, .sending p⟩ => if p.group = i then p.rest.flatten else []
  | _ => []

end AttachedClient

/-! ## The invariant -/

/-- A stored session, if the members `U` are known: all devices that have the key will have been
named when the session is shared, unless their users are not asked about any more. -/
structure Held (env : KeyQueryEnv) (m : GroupMachine) (s : OutboundGroupSession)
    (rest : List (Str × Str)) (U : List Str) : Prop where
  shared : s.shared = true → s.requested ⊆ s.usersSharedWith ∧ s.Unrevoked
  asked : s.shared = false → ∀ d, d ∈ s.requested ∨ d ∈ rest → d.1 ∈ U ∧
    (d ∈ s.usersSharedWith ∨
      d ∈ m.eligible env d.1 ∧ d ∉ s.usersIgnored ∧ d.2 ≠ env.deviceId)
  revoked : s.shared = false → ∀ p ∈ s.revocations, p.1.userId ∉ U

/-- Where a share that sends nothing waits -/
def Listed (c : AttachedClient) (roomId : Str) : AttachedPhase → Prop
  | .waiting users ref | .finishing users ref => ∃ n, ref = some n ∧ n < c.fresh ∧
      ∀ users', c.cached roomId = some (.members n users') → users' = users
  | .sending _ => False
  | _ => True

/-- A share that sends: the key of its group is out for devices that have it or that it still names. -/
structure Sends (m : GroupMachine) (roomId : Str) (p : SendProgress) : Prop where
  group : p.group < m.sessions.length
  roomId : (m.session p.group).roomId = roomId
  unshared : (m.session p.group).shared = false
  named : ∀ d ∈ (m.session p.group).requested, d ∈ (m.session p.group).usersSharedWith ∨
    d ∈ p.current ∨ d ∈ p.rest.flatten

def Phase (c : AttachedClient) (roomId : Str) (phase : AttachedPhase) : Prop :=
  Listed c roomId phase ∨ ∃ p, phase = .sending p ∧ Sends c.machine roomId p

/-- What does not depend on the ghosts -/
structure Basis (c : AttachedClient) : Prop where
  wellFormed : c.machine.WellFormed
  devices : (c.machine.keeper.deviceStore.map OlmDevice.key).Nodup
  rooms : ∀ r o, c.room r = some o → o.room.membersSynced = false
  refs : ∀ r n users, c.cached r = some (.members n users) → n < c.fresh
  lookups : ∀ r previous, c.lock = some (.lookup r previous) →
    ∀ n users, c.cached r ≠ some (.members n users)
  phases : ∀ r s, dictGet? c.sharing r = some s → Phase c r s.phase

/-- The invariant of the runs -/
structure Stands (env : KeyQueryEnv) (c : AttachedClient) : Prop where
  basis : Basis c
  held : ∀ r i U, c.machine.stored r = some i → c.known r = some U →
    Held env c.machine (c.machine.session i) (c.rest r i) U
  messages : ∀ s ∈ c.messages, s.Unrevoked

/-! ## Frames -/

/-- The sessions are the same apart from ghosts; there may be more. -/
structure SameSessions (revs : List (Option Str × Revocation)) (m m' : GroupMachine) : Prop where
  length : m.sessions.length ≤ m'.sessions.length
  session : ∀ i, i < m.sessions.length → Crypto.Recorded revs (m.session i) (m'.session i)

theorem SameSessions.of_eq {revs : List (Option Str × Revocation)} {m m' : GroupMachine}
    (h : m'.sessions = m.sessions) : SameSessions revs m m' := by
  refine ⟨le_of_eq (congrArg List.length h.symm), fun i _ => ?_⟩
  unfold GroupMachine.session
  rw [h]
  exact Crypto.Recorded.refl _ _

theorem SameSessions.revoke (revs : List (Option Str × Revocation)) {m m' : GroupMachine}
    (h : m'.sessions = (revs.foldl (fun m rev => m.revoke rev.1 rev.2) m).sessions) :
    SameSessions revs m m' := by
  obtain ⟨-, -, -, hlen, hrec⟩ := session_revokes revs m
  refine ⟨le_of_eq ((congrArg List.length h).trans hlen).symm, fun i hi => ?_⟩
  have hsession : m'.session i =
      (revs.foldl (fun m rev => m.revoke rev.1 rev.2) m).session i := by
    unfold GroupMachine.session
    rw [h]
  rw [hsession]
  exact hrec i hi

/-- The same sessions under fewer rooms stay well formed. -/
theorem SameSessions.wellFormed {revs : List (Option Str × Revocation)} {m m' : GroupMachine}
    (h : SameSessions revs m m') (hwf : m.WellFormed)
    (hstored : ∀ r i, m'.stored r = some i → m.stored r = some i) : m'.WellFormed := by
  intro r i hi
  obtain ⟨hlt, hroom⟩ := hwf r i (hstored r i hi)
  exact ⟨lt_of_lt_of_le hlt h.length, (h.session i hlt).roomId.trans hroom⟩

theorem Sends.kept {revs : List (Option Str × Revocation)} {m m' : GroupMachine} {r : Str}
    {p : SendProgress} (h : Sends m r p) (hk : SameSessions revs m m') : Sends m' r p := by
  have hrec := hk.session p.group h.group
  refine ⟨lt_of_lt_of_le h.group hk.length, hrec.roomId.trans h.roomId,
    hrec.shared.trans h.unshared, fun d hd => ?_⟩
  rw [hrec.usersSharedWith]
  rw [hrec.requested] at hd
  exact h.named d hd

/-- No list of the cache comes back, and one that is new is there when the lookup is over. -/
structure Caches (c c' : AttachedClient) : Prop where
  fresh : c.fresh ≤ c'.fresh
  cached : ∀ r n users, c'.cached r = some (.members n users) →
    c.cached r = some (.members n users) ∨ c.fresh ≤ n ∧ n < c'.fresh ∧ c'.lock = none
  lookups : ∀ r previous, c'.lock = some (.lookup r previous) →
    c.lock = some (.lookup r previous) ∨ ∀ n users, c'.cached r ≠ some (.members n users)

theorem Listed.caches {c c' : AttachedClient} {r : Str} {phase : AttachedPhase}
    (h : Listed c r phase) (hc : Caches c c') : Listed c' r phase := by
  cases phase with
  | waiting users ref | finishing users ref =>
    obtain ⟨n, hn, hlt, hsame⟩ := h
    refine ⟨n, hn, lt_of_lt_of_le hlt hc.fresh, fun users' hu => ?_⟩
    rcases hc.cached r n users' hu with hold | ⟨hge, -⟩
    · exact hsame users' hold
    · exact absurd hlt (Nat.not_lt.mpr hge)
  | ensuring | looking => trivial
  | sending p => exact h.elim

/-- What does not touch sessions, caches and locks keeps the basis. -/
theorem Basis.frame {revs : List (Option Str × Revocation)} {c c' : AttachedClient} (h : Basis c)
    (hkept : SameSessions revs c.machine c'.machine) (hwf : c'.machine.WellFormed)
    (hdevices : (c.machine.keeper.deviceStore.map OlmDevice.key).Nodup →
      (c'.machine.keeper.deviceStore.map OlmDevice.key).Nodup)
    (hrooms : ∀ r o, c'.room r = some o → o.room.membersSynced = false)
    (hcaches : Caches c c')
    (hsharing : ∀ r s, dictGet? c'.sharing r = some s →
      dictGet? c.sharing r = some s ∨ Phase c' r s.phase) : Basis c' := by
  refine ⟨hwf, hdevices h.devices, hrooms, fun r n users hc => ?_, fun r previous hl n users hc => ?_,
    fun r s hs => ?_⟩
  · rcases hcaches.cached r n users hc with hold | ⟨-, hlt, -⟩
    · exact lt_of_lt_of_le (h.refs r n users hold) hcaches.fresh
    · exact hlt
  · rcases hcaches.lookups r previous hl with hold | hnot
    · rcases hcaches.cached r n users hc with hc' | ⟨-, -, hfree⟩
      · exact h.lookups r previous hold n users hc'
      · rw [hfree] at hl
        cases hl
    · exact hnot n users hc
  · rcases hsharing r s hs with hold | hnew
    · rcases h.phases r s hold with hl | ⟨p, hp, hsend⟩
      · exact Or.inl (hl.caches hcaches)
      · exact Or.inr ⟨p, hp, hsend.kept hkept⟩
    · exact hnew

/-- A session that is kept, with a list of the same members and devices that are as eligible as
before, and that the new revocations do not concern -/
theorem Held.record {env : KeyQueryEnv} {revs : List (Option Str × Revocation)} {m m' : GroupMachine}
    {s s' : OutboundGroupSession} {rest rest' : List (Str × Str)} {U U' : List Str}
    (h : Held env m s rest U) (hrec : Crypto.Recorded revs s s') (hrest : rest' ⊆ rest)
    (hU : ∀ u, u ∈ U' ↔ u ∈ U)
    (helig : s.shared = false → ∀ d, d.1 ∈ U → d ∈ m.eligible env d.1 → d ∈ m'.eligible env d.1)
    (hrevs : ∀ d, Hits revs s.roomId d →
      (s.shared = true → d ∉ s.requested) ∧ (s.shared = false → d.1 ∉ U)) :
    Held env m' s' rest' U' := by
  refine ⟨fun hs => ?_, fun hs d hd => ?_, fun hs p hp => ?_⟩
  · rw [hrec.shared] at hs
    obtain ⟨hsub, hunrevoked⟩ := h.shared hs
    rw [OutboundGroupSession.Unrevoked, hrec.requested, hrec.usersSharedWith]
    refine ⟨hsub, fun p hp d hd => ?_⟩
    rcases hrec.revocations p hp with hold | ⟨-, hhits⟩
    · exact hunrevoked p hold d hd
    · cases hcovers : p.1.covers d with
      | false => rfl
      | true => exact absurd hd ((hrevs d (hhits d hcovers)).1 hs)
  · rw [hrec.shared] at hs
    rw [hrec.requested] at hd
    rw [hU, hrec.usersSharedWith, hrec.usersIgnored]
    obtain ⟨hmem, hcase⟩ := h.asked hs d (hd.imp_right fun hr => hrest hr)
    refine ⟨hmem, hcase.imp_right fun he => ⟨?_, he.2⟩⟩
    exact helig hs d hmem he.1
  · rw [hrec.shared] at hs
    rw [hU]
    rcases hrec.revocations p hp with hold | ⟨-, hhits⟩
    · exact h.revoked hs p hold
    · -- every revocation covers some device of its user
      have hsome : ∃ d : Str × Str, p.1.covers d = true ∧ d.1 = p.1.userId := by
        cases p.1 with
        | device key => exact ⟨key, decide_eq_true rfl, rfl⟩
        | user u => exact ⟨(u, []), decide_eq_true rfl, rfl⟩
      obtain ⟨d, hcovers, huser⟩ := hsome
      rw [← huser]
      exact (hrevs d (hhits d hcovers)).2 hs

/-- The cached members are known. -/
theorem known_members {c : AttachedClient} {r : Str} {n : Nat} {users : List Str}
    (h : c.cached r = some (.members n users)) : c.known r = some users := by
  unfold AttachedClient.known
  rw [h]

/-- Nothing is left to send for a room without a share that sends. -/
theorem rest_subset {c c' : AttachedClient} {r : Str}
    (h : ∀ s, dictGet? c'.sharing r = some s → dictGet? c.sharing r = some s ∨ Listed c' r s.phase)
    (i : Nat) : c'.rest r i ⊆ c.rest r i := by
  unfold AttachedClient.rest
  split
  · next room ign p hs =>
    rcases h _ hs with hold | hlisted
    · rw [hold]
      exact List.Subset.refl _
    · exact hlisted.elim
  · exact List.nil_subset _

/-- Sessions are only taken out, and what is known of the members gets less. -/
theorem Stands.prune {env : KeyQueryEnv} {revs : List (Option Str × Revocation)}
    {c c' : AttachedClient} (h : Stands env c) (hkept : SameSessions revs c.machine c'.machine)
    (hstored : ∀ r i, c'.machine.stored r = some i → c.machine.stored r = some i)
    (hdevices : (c.machine.keeper.deviceStore.map OlmDevice.key).Nodup →
      (c'.machine.keeper.deviceStore.map OlmDevice.key).Nodup)
    (hrooms : ∀ r o, c'.room r = some o → o.room.membersSynced = false)
    (hcaches : Caches c c')
    (hsharing : ∀ r s, dictGet? c'.sharing r = some s →
      dictGet? c.sharing r = some s ∨ Listed c' r s.phase)
    (hmessages : c'.messages = c.messages)
    (hheld : ∀ r i U', c'.machine.stored r = some i → c'.known r = some U' →
      ∃ U, c.known r = some U ∧ (∀ u, u ∈ U' ↔ u ∈ U) ∧
        (∀ d, Hits revs r d → ((c.machine.session i).shared = true →
          d ∉ (c.machine.session i).requested) ∧ ((c.machine.session i).shared = false → d.1 ∉ U)) ∧
        ((c.machine.session i).shared = false → ∀ d, d.1 ∈ U → d ∈ c.machine.eligible env d.1 →
          d ∈ c'.machine.eligible env d.1)) : Stands env c' := by
  refine ⟨h.basis.frame hkept (hkept.wellFormed h.basis.wellFormed hstored) hdevices hrooms hcaches
    fun r s hs => (hsharing r s hs).imp_right Or.inl, fun r i U' hi hU' => ?_, ?_⟩
  · obtain ⟨U, hU, hsame, hrevs, helig⟩ := hheld r i U' hi hU'
    have hi' := hstored r i hi
    obtain ⟨hlt, hroom⟩ := h.basis.wellFormed r i hi'
    refine (h.held r i U hi' hU).record (hkept.session i hlt) (rest_subset (hsharing r) i) hsame
      helig ?_
    rw [hroom]
    exact hrevs
  · rw [hmessages]
    exact h.messages

theorem not_hits_nil (r : Str) (d : Str × Str) : ¬ Hits [] r d := by
  rintro ⟨rev, hrev, -⟩
  cases hrev

/-- Nothing is revoked, and no device becomes less eligible. -/
theorem Stands.quiet {env : KeyQueryEnv} {c c' : AttachedClient} (h : Stands env c)
    (hkept : SameSessions [] c.machine c'.machine)
    (hstored : ∀ r i, c'.machine.stored r = some i → c.machine.stored r = some i)
    (hkeeper : c'.machine.keeper = c.machine.keeper)
    (holm : c.machine.olmSessions ⊆ c'.machine.olmSessions)
    (hrooms : ∀ r o, c'.room r = some o → o.room.membersSynced = false)
    (hcaches : Caches c c')
    (hsharing : ∀ r s, dictGet? c'.sharing r = some s →
      dictGet? c.sharing r = some s ∨ Listed c' r s.phase)
    (hmessages : c'.messages = c.messages)
    (hknown : ∀ r i U', c'.machine.stored r = some i → c'.known r = some U' →
      ∃ U, c.known r = some U ∧ ∀ u, u ∈ U' ↔ u ∈ U) : Stands env c' := by
  refine h.prune hkept hstored (by rw [hkeeper]; exact id) hrooms hcaches hsharing hmessages
    fun r i U' hi hU' => ?_
  obtain ⟨U, hU, hsame⟩ := hknown r i U' hi hU'
  refine ⟨U, hU, hsame, fun d hits => absurd hits (not_hits_nil r d), fun _ d _ helig => ?_⟩
  obtain ⟨dev, hd, hu, hdel, hkey, hown, hblack, hhas⟩ := GroupMachine.mem_eligible.mp helig
  refine GroupMachine.mem_eligible.mpr ⟨dev, by rw [hkeeper]; exact hd, hu, hdel, hkey, hown, ?_, ?_⟩
  · unfold GroupMachine.isBlacklisted at hblack ⊢
    rw [hkeeper]
    exact hblack
  · unfold GroupMachine.hasOlmSession at hhas ⊢
    exact decide_eq_true (holm (of_decide_eq_true hhas))

/-! ## Invalidation -/

/-- Sessions were taken out of the dictionary. -/
structure Culled (c c' : AttachedClient) : Prop where
  eq : c' = { c with machine := { c.machine with outbound := c'.machine.outbound } }
  stored : ∀ r i, c'.machine.stored r = some i → c.machine.stored r = some i

theorem Culled.refl (c : AttachedClient) : Culled c c := ⟨rfl, fun _ _ h => h⟩

theorem Culled.trans {c₁ c₂ c₃ : AttachedClient} (h₁ : Culled c₁ c₂) (h₂ : Culled c₂ c₃) :
    Culled c₁ c₃ := by
  refine ⟨?_, fun r i h => h₁.stored r i (h₂.stored r i h)⟩
  rw [h₂.eq, h₁.eq]

/-- Invalidating the session of a room culls it, -/
theorem culled_invalidateOutboundSession (c : AttachedClient) (r : Str) :
    Culled c (c.invalidateOutboundSession r) := by
  refine ⟨rfl, fun r' i h => ?_⟩
  rw [show (c.invalidateOutboundSession r).machine.stored r' = _ from
    GroupMachine.stored_pop c.machine r r'] at h
  split at h
  · cases h
  · exact h

theorem stored_invalidateOutboundSession (c : AttachedClient) (r : Str) :
    (c.invalidateOutboundSession r).machine.stored r = none := by
  show (c.machine.pop r).stored r = none
  rw [GroupMachine.stored_pop, if_pos rfl]

theorem culled_foldl {α : Type} {f : AttachedClient → α → AttachedClient}
    (hf : ∀ c a, Culled c (f c a)) (as : List α) (c : AttachedClient) :
    Culled c (as.foldl f c) := by
  induction as generalizing c with
  | nil => exact Culled.refl c
  | cons a as ih => exact (hf c a).trans (ih (f c a))

/-- What one round takes out stays out. -/
theorem stored_foldl_culled {α : Type} {f : AttachedClient → α → AttachedClient}
    (hf : ∀ c a, Culled c (f c a)) {as : List α} {a : α} (ha : a ∈ as) {c : AttachedClient} {r : Str}
    {i : Nat} (h : (as.foldl f c).machine.stored r = some i) :
    ∃ c', Culled c c' ∧ (f c' a).machine.stored r = some i := by
  induction as generalizing c with
  | nil => cases ha
  | cons b as ih =>
    rcases List.mem_cons.mp ha with rfl | ha
    · exact ⟨c, Culled.refl c, (culled_foldl hf as (f c a)).stored r i h⟩
    · obtain ⟨c', hc', hs⟩ := ih ha h
      exact ⟨c', (hf c b).trans hc', hs⟩

/-- and so does invalidating those of many rooms -/
theorem culled_invalidateRooms (c : AttachedClient) (p : GroupRoom → Bool) :
    Culled c (c.invalidateRooms p) := by
  refine culled_foldl (fun c entry => ?_) c.rooms c
  split
  · exact culled_invalidateOutboundSession c entry.1
  · exact Culled.refl c

/-- The rooms that are invalidated have no session left. -/
theorem not_stored_invalidateRooms {c : AttachedClient} {p : GroupRoom → Bool} {r : Str}
    {o : RoomObject} (hroom : c.room r = some o) (hp : p o.room = true) :
    (c.invalidateRooms p).machine.stored r = none := by
  rw [Option.eq_none_iff_forall_not_mem]
  intro i hi
  obtain ⟨c', -, hs⟩ := stored_foldl_culled (fun c entry => by
    split
    · exact culled_invalidateOutboundSession c entry.1
    · exact Culled.refl c) (mem_of_dictGet? hroom) hi
  rw [if_pos hp] at hs
  rw [stored_invalidateOutboundSession] at hs
  cases hs

/-- or of the rooms of some users. -/
theorem culled_invalidateUsers (c : AttachedClient) (changed : List Str) :
    Culled c (c.invalidateUsers changed) := by
  refine culled_foldl (fun c entry => ?_) c.machine.outbound c
  split
  · exact culled_invalidateOutboundSession c entry.1
  · exact Culled.refl c

/-- A session that is left is none that the change concerns. -/
theorem stored_invalidateUsers {c : AttachedClient} {changed : List Str} {r : Str} {i : Nat}
    (h : (c.invalidateUsers changed).machine.stored r = some i) :
    c.concerns changed r (c.machine.session i) = false := by
  have hi := (culled_invalidateUsers c changed).stored r i h
  obtain ⟨c', hc', hs⟩ := stored_foldl_culled (fun c entry => by
    split
    · exact culled_invalidateOutboundSession c entry.1
    · exact Culled.refl c) (mem_of_dictGet? hi) h
  cases hconcerns : c.concerns changed r (c.machine.session i) with
  | false => rfl
  | true =>
    have hsame : c'.concerns changed r (c'.machine.session i) =
        c.concerns changed r (c.machine.session i) := by
      rw [hc'.eq]
      rfl
    rw [if_pos (hsame.trans hconcerns), stored_invalidateOutboundSession] at hs
    cases hs

/-! ## Rooms and the cache -/

theorem Caches.of_same {c c' : AttachedClient} (h : c'.memberCache = c.memberCache)
    (hfresh : c.fresh ≤ c'.fresh)
    (hlock : ∀ r previous, c'.lock = some (.lookup r previous) → c.lock = some (.lookup r previous)) :
    Caches c c' := by
  refine ⟨hfresh, fun r n users hc => Or.inl ?_, fun r previous hl => Or.inl (hlock r previous hl)⟩
  unfold AttachedClient.cached at hc ⊢
  rw [← h]
  exact hc

theorem cached_popped {c c' : AttachedClient} {r : Str} (h : c'.memberCache = dictErase c.memberCache r)
    (r' : Str) : c'.cached r' = if r' = r then none else c.cached r' := by
  unfold AttachedClient.cached
  rw [h, dictGet?_dictErase]

theorem Caches.of_pop {c c' : AttachedClient} {r : Str} (h : c'.memberCache = dictErase c.memberCache r)
    (hfresh : c.fresh ≤ c'.fresh) (hlock : c'.lock = c.lock) : Caches c c' := by
  refine ⟨hfresh, fun r' n users hc => Or.inl ?_, fun r' previous hl => Or.inl (hlock ▸ hl)⟩
  rw [cached_popped h] at hc
  split at hc
  · cases hc
  · exact hc

theorem known_congr {c c' : AttachedClient} {r : Str} (hcached : c'.cached r = c.cached r)
    (hlock : c'.lock = c.lock) : c'.known r = c.known r := by
  unfold AttachedClient.known
  rw [hcached, hlock]

/-- A popped room knows its members no longer. -/
theorem known_popped {c c' : AttachedClient} {r : Str} (h : c'.memberCache = dictErase c.memberCache r)
    (hlock : c'.lock = c.lock) (r' : Str) : c'.known r' = if r' = r then none else c.known r' := by
  split
  · next hr =>
    unfold AttachedClient.known
    rw [cached_popped h, if_pos hr]
  · next hr => exact known_congr (by rw [cached_popped h, if_neg hr]) hlock

/-- No room is synced. -/
def Unsynced (rooms : List (Str × RoomObject)) : Prop :=
  ∀ r o, dictGet? rooms r = some o → o.room.membersSynced = false

theorem Unsynced.set {rooms : List (Str × RoomObject)} (h : Unsynced rooms) {r : Str} {o : RoomObject}
    (ho : o.room.membersSynced = false) : Unsynced (dictSet rooms r o) := by
  intro r' o' hr'
  rw [dictGet?_dictSet] at hr'
  split at hr'
  · cases hr'
    exact ho
  · exact h r' o' hr'

theorem Unsynced.erase {rooms : List (Str × RoomObject)} (h : Unsynced rooms) (r : Str) :
    Unsynced (dictErase rooms r) := by
  intro r' o' hr'
  rw [dictGet?_dictErase] at hr'
  split at hr'
  · cases hr'
  · exact h r' o' hr'

/-- A member event does not make the members synced. -/
theorem handleMembership_synced (room : GroupRoom) (userId : Str) (m : Membership) :
    (room.handleMembership userId m).1.membersSynced = room.membersSynced := by
  unfold GroupRoom.handleMembership
  cases m with
  | join | invite =>
    dsimp only
    split
    · split <;> rfl
    · rfl
  | leave | ban | knock => rfl

/-- A room loses its session, and what the cache has of its members. -/
theorem Stands.forgetRoom {env : KeyQueryEnv} {revs : List (Option Str × Revocation)}
    {c c' : AttachedClient} {r : Str} (h : Stands env c)
    (hsessions : c'.machine.sessions =
      (revs.foldl (fun m rev => m.revoke rev.1 rev.2) c.machine).sessions)
    (houtbound : c'.machine.outbound = dictErase c.machine.outbound r)
    (hkeeper : c'.machine.keeper = c.machine.keeper)
    (holm : c'.machine.olmSessions = c.machine.olmSessions)
    (hrooms : Unsynced c'.rooms) (hcache : c'.memberCache = dictErase c.memberCache r)
    (hfresh : c.fresh ≤ c'.fresh) (hlock : c'.lock = c.lock) (hsharing : c'.sharing = c.sharing)
    (hmessages : c'.messages = c.messages) (hrevs : ∀ rev ∈ revs, rev.1 = some r) : Stands env c' := by
  have hstored : ∀ r', c'.machine.stored r' = if r' = r then none else c.machine.stored r' := by
    intro r'
    unfold GroupMachine.stored
    rw [houtbound, dictGet?_dictErase]
  refine h.prune (SameSessions.revoke revs hsessions) (fun r' i hi => ?_) (by rw [hkeeper]; exact id)
    hrooms (Caches.of_pop hcache hfresh hlock) (fun r' s hs => Or.inl (by rw [← hsharing]; exact hs))
    hmessages fun r' i U' hi hU' => ?_
  · rw [hstored] at hi
    split at hi
    · cases hi
    · exact hi
  · have hne : r' ≠ r := by
      rintro rfl
      rw [hstored, if_pos rfl] at hi
      cases hi
    rw [known_popped hcache hlock, if_neg hne] at hU'
    refine ⟨U', hU', fun _ => Iff.rfl, fun d hits => ?_, fun _ d _ helig => ?_⟩
    · -- the revocations are of the room
      obtain ⟨rev, hrev, hscope, -⟩ := hits
      rw [hrevs rev hrev] at hscope
      rcases hscope with hs | hs
      · cases hs
      · exact absurd (Option.some.inj hs).symm hne
    · rw [@GroupMachine.eligible_congr env c.machine c'.machine hkeeper holm]
      exact helig

namespace AttachedClient

variable {env : KeyQueryEnv} {c : AttachedClient}

/-- A member event stands after its revocation. -/
theorem stands_member {roomId userId : Str} {m : Membership} (h : Stands env c) :
    Stands env ((c.revoke (c.revocations env (.member roomId userId m))).member roomId userId m) := by
  have hunsynced : Unsynced c.rooms := h.basis.rooms
  unfold member
  dsimp only
  split
  · exact h.forgetRoom rfl rfl rfl rfl hunsynced rfl (Nat.le_refl _) rfl rfl rfl
      (by simp [revocations])
  · next o ho =>
    refine h.forgetRoom rfl rfl rfl rfl (hunsynced.set ?_) rfl (Nat.le_refl _) rfl rfl rfl
      (by simp [revocations])
    rw [handleMembership_synced]
    exact hunsynced roomId o ho

theorem stands_resetJoinedRoom {roomId : Str} {encrypted : Bool} (h : Stands env c) :
    Stands env (c.resetJoinedRoom roomId encrypted) :=
  @Stands.forgetRoom env [] c _ roomId h rfl rfl rfl rfl (Unsynced.set h.basis.rooms rfl) rfl
    (Nat.le_succ _) rfl rfl rfl (by simp)

theorem stands_leaveRoom {roomId : Str} (h : Stands env c) : Stands env (c.leaveRoom roomId) :=
  @Stands.forgetRoom env [] c _ roomId h rfl rfl rfl rfl (Unsynced.erase h.basis.rooms roomId) rfl
    (Nat.le_refl _) rfl rfl rfl (by simp)

theorem stands_popMembers {roomId : Str} (h : Stands env c) : Stands env (c.popMembers roomId) := by
  refine h.quiet (SameSessions.of_eq rfl) (fun _ _ hi => hi) rfl (List.Subset.refl _) h.basis.rooms
    (Caches.of_pop rfl (Nat.le_refl _) rfl) (fun _ _ hs => Or.inl hs) rfl fun r i U' hi hU' => ?_
  rw [@known_popped c (c.popMembers roomId) roomId rfl rfl r] at hU'
  split at hU'
  · cases hU'
  · exact ⟨U', hU', fun _ => Iff.rfl⟩

/-- The rooms change, and nothing else. -/
theorem stands_rooms {rooms : List (Str × RoomObject)} {fresh : Nat} (h : Stands env c)
    (hrooms : Unsynced rooms) (hfresh : c.fresh ≤ fresh) : Stands env { c with rooms, fresh } :=
  h.quiet (SameSessions.of_eq rfl) (fun _ _ hi => hi) rfl (List.Subset.refl _) hrooms
    (Caches.of_same rfl hfresh fun _ _ hl => hl) (fun _ _ hs => Or.inl hs) rfl
    fun _ _ U' _ hU' => ⟨U', hU', fun _ => Iff.rfl⟩

theorem stands_resetSnapshot {roomId : Str} (h : Stands env c) :
    Stands env (c.resetSnapshot roomId) := by
  unfold resetSnapshot
  dsimp only
  split
  · exact stands_popMembers h
  · next o ho =>
    have hunsynced : Unsynced (dictSet c.rooms roomId
        { o with room := ⟨[], [], o.room.encrypted, false⟩ }) := Unsynced.set h.basis.rooms rfl
    split
    · exact @Stands.forgetRoom env [] c _ roomId h rfl rfl rfl rfl hunsynced rfl (Nat.le_refl _) rfl
        rfl rfl (by simp)
    · exact stands_rooms (stands_popMembers h) hunsynced (Nat.le_refl _)

theorem stands_hero {roomId userId : Str} (h : Stands env c) : Stands env (c.hero roomId userId) := by
  unfold hero
  split
  · exact h
  · next o ho =>
    split
    · exact h
    · exact stands_rooms h (Unsynced.set h.basis.rooms (h.basis.rooms roomId o ho)) (Nat.le_refl _)

/-! ### Devices and trust -/

/-- A change of devices has gone through the sessions; the ones that are left have no device that
it concerns. -/
theorem stands_devices {revs : List (Option Str × Revocation)} {keeper : DeviceKeeper}
    {changed : List Str} {c₁ : AttachedClient} (h : Stands env c)
    (hculled : Culled ((c.revoke revs).setKeeper keeper) c₁)
    (hnodup : (c.machine.keeper.deviceStore.map OlmDevice.key).Nodup →
      (keeper.deviceStore.map OlmDevice.key).Nodup)
    (hrevs : ∀ r d, Hits revs r d → d.1 ∈ changed)
    (helig : ∀ r i U d, c.known r = some U → (c₁.invalidateUsers changed).machine.stored r = some i →
      (c.machine.session i).shared = false →
      d.1 ∈ U → d ∈ c.machine.eligible env d.1 →
        d ∈ ({ c.machine with keeper } : GroupMachine).eligible env d.1)
    (hlist : ∀ r i U, c.known r = some U → (c₁.invalidateUsers changed).machine.stored r = some i →
      (c.machine.session i).shared = false → ∀ d, Hits revs r d → d.1 ∉ U) :
    Stands env (c₁.invalidateUsers changed) := by
  have hall := hculled.trans (culled_invalidateUsers c₁ changed)
  obtain ⟨houtbound, hkeeper, holm, -, -⟩ := session_revokes revs c.machine
  have hstored : ∀ r i, (c₁.invalidateUsers changed).machine.stored r = some i →
      c.machine.stored r = some i := fun r i hi => by
    have hi' := hall.stored r i hi
    unfold GroupMachine.stored at hi' ⊢
    rw [← houtbound]
    exact hi'
  have heligible : ∀ u, (c₁.invalidateUsers changed).machine.eligible env u =
      ({ c.machine with keeper } : GroupMachine).eligible env u := fun u =>
    GroupMachine.eligible_congr (by rw [hall.eq]; rfl) (by rw [hall.eq]; exact holm) u
  refine h.prune (SameSessions.revoke revs (by rw [hall.eq]; rfl)) hstored
    (by rw [hall.eq]; exact hnodup) (by rw [hall.eq]; exact h.basis.rooms)
    (Caches.of_same (by rw [hall.eq]; rfl) (by rw [hall.eq]; exact Nat.le_refl _)
      fun _ _ hl => by rw [hall.eq] at hl; exact hl)
    (fun r s hs => Or.inl (by rw [hall.eq] at hs; exact hs)) (by rw [hall.eq]; rfl)
    fun r i U' hi hU' => ?_
  have hU : c.known r = some U' := by
    rw [hall.eq] at hU'
    exact hU'
  have hi' := hstored r i hi
  refine ⟨U', hU, fun _ => Iff.rfl, fun d hits => ⟨fun hs hd => ?_, fun hs => ?_⟩, fun hs d hd hel => ?_⟩
  · -- a device with the key of a shared session is named, and its user has changed
    have hnamed := (h.held r i U' hi' hU).shared hs |>.1 hd
    have hnot := stored_invalidateUsers hi
    have hsession : c₁.machine.session i =
        (revs.foldl (fun m rev => m.revoke rev.1 rev.2) c.machine).session i := by
      rw [hculled.eq]
      rfl
    obtain ⟨-, -, -, -, hrec⟩ := session_revokes revs c.machine
    have hrec := hrec i (h.basis.wellFormed r i hi').1
    unfold concerns at hnot
    rw [hsession, hrec.usersSharedWith, Bool.or_eq_false_iff] at hnot
    have hany := List.any_eq_false.mp hnot.2 d hnamed
    exact hany (by simpa using hrevs r d hits)
  · exact hlist r i U' hU hi hs d hits
  · rw [heligible]
    exact helig r i U' d hU hi hs hd hel

theorem stands_dispose (h : Stands env c) : Stands env c.dispose :=
  h.quiet (SameSessions.of_eq rfl) (fun _ _ hi => hi) rfl (List.Subset.refl _) h.basis.rooms
    (Caches.of_same rfl (Nat.le_refl _) fun _ _ hl => hl) (fun _ _ hs => Or.inl hs) rfl
    fun _ _ U' _ hU' => ⟨U', hU', fun _ => Iff.rfl⟩

/-- The members of the list of a session that is left have not changed. -/
theorem not_concerned {c₁ : AttachedClient} {changed : List Str} {r : Str} {i : Nat} {U : List Str}
    (hi : (c₁.invalidateUsers changed).machine.stored r = some i) (hU : c₁.members r = some U) :
    ∀ u ∈ U, u ∉ changed := by
  intro u hu hchanged
  have hnot := stored_invalidateUsers hi
  unfold concerns at hnot
  rw [hU, Bool.or_eq_false_iff] at hnot
  exact List.any_eq_false.mp hnot.1 u hu (by simpa using hchanged)

/-- The members of a room are known from the cache, or from the lookup in flight. -/
theorem known_cases {r : Str} {U : List Str} (h : c.known r = some U) :
    c.members r = some U ∨ c.cached r = some .pending ∧ c.lock = some (.lookup r (some U)) := by
  unfold known at h
  unfold members
  split at h
  · next n users hl hc =>
    rw [hc]
    exact Or.inl h
  · next r' previous hc hl =>
    split at h
    · next hr => exact Or.inr ⟨hc, by rw [hl, hr, h]⟩
    · cases h
  · cases h

theorem revocations_keysQuery {response : KeysQueryResponse} :
    c.revocations env (.keysQuery response) =
      match c.finishesPending, handleKeyQuery env c.machine.keeper response with
      | true, .ok (_, changed) => changed.map fun key => (none, .user key.1)
      | _, _ => [] := rfl

/-- A key query stands after its revocations. -/
theorem stands_keysQuery {response : KeysQueryResponse} (h : Stands env c) :
    Stands env ((c.revoke (c.revocations env (.keysQuery response))).keysQuery env response) := by
  obtain ⟨-, hkeeper, -, -, -⟩ := session_revokes (c.revocations env (.keysQuery response)) c.machine
  unfold keysQuery
  rw [show (c.revoke (c.revocations env (.keysQuery response))).finishesPending = c.finishesPending
    from rfl, show (c.revoke (c.revocations env (.keysQuery response))).machine.keeper =
      c.machine.keeper from hkeeper]
  have hrevs := @revocations_keysQuery env c response
  cases hf : c.finishesPending with
  | false =>
    rw [hf] at hrevs
    rw [hrevs]
    exact h
  | true =>
    rw [if_pos rfl]
    cases hq : handleKeyQuery env c.machine.keeper response with
    | error e =>
      rw [hf, hq] at hrevs
      rw [hrevs]
      exact stands_dispose h
    | ok res =>
      obtain ⟨keeper, changed⟩ := res
      rw [hf, hq] at hrevs
      rw [hrevs]
      dsimp only
      have huntouched := untouched_handleKeyQuery hq
      -- no lookup is in flight, so the members are known from the cache
      have hmembers : ∀ r U, c.known r = some U → c.members r = some U := by
        intro r U hU
        rcases known_cases hU with hc | ⟨-, hl⟩
        · exact hc
        · unfold finishesPending at hf
          rw [hl] at hf
          cases hf
      have hculled : Culled ((c.revoke (changed.map fun key =>
          ((none : Option Str), Revocation.user key.1))).setKeeper keeper)
          (changed.foldl (fun c key => c.invalidateRooms fun room =>
            room.encrypted && key.1 ∈ room.users) ((c.revoke (changed.map fun key =>
              ((none : Option Str), Revocation.user key.1))).setKeeper keeper)) :=
        culled_foldl (fun c key => culled_invalidateRooms c _) changed _
      have hnot : ∀ r i U, c.known r = some U → ((changed.foldl (fun c key =>
          c.invalidateRooms fun room => room.encrypted && key.1 ∈ room.users)
            ((c.revoke (changed.map fun key => ((none : Option Str),
              Revocation.user key.1))).setKeeper keeper)).invalidateUsers
                (changed.map (·.1))).machine.stored r = some i →
          ∀ u ∈ U, u ∉ changed.map (·.1) := by
        intro r i U hU hi
        refine not_concerned hi ?_
        rw [hculled.eq]
        exact hmembers r U hU
      have hhits : ∀ r d, Hits (changed.map fun key => ((none : Option Str), Revocation.user key.1))
          r d → d.1 ∈ changed.map (·.1) := by
        rintro r d ⟨rev, hrev, -, hcovers⟩
        obtain ⟨key, hkey, rfl⟩ := List.mem_map.mp hrev
        exact List.mem_map.mpr ⟨key, hkey, (of_decide_eq_true hcovers).symm⟩
      refine stands_devices h hculled huntouched.nodup hhits ?_ ?_
      · intro r i U d hU hi _ hd helig
        exact eligible_untouched huntouched h.basis.devices
          (fun hin => hnot r i U hU hi d.1 hd (List.mem_map_of_mem hin)) helig
      · intro r i U hU hi _ d hits hd
        exact hnot r i U hU hi d.1 hd (hhits r d hits)

/-- Blacklisting a device that is blacklisted changes nothing. -/
theorem blacklisted_of_unchanged {keeper keeper' : DeviceKeeper} {userId deviceId : Str}
    (h : (TrustChange.mark .blacklisted).apply keeper userId deviceId = .ok (keeper', false))
    {d : OlmDevice} (hd : d.key = (userId, deviceId)) :
    isMarked keeper.deviceKeys .blacklisted d = true := by
  unfold TrustChange.apply at h
  split at h
  · cases h
  · next d' hd' =>
    dsimp only at h
    cases hc : changeTrust (fun rows d => markDevice rows .blacklisted d) keeper userId deviceId with
    | error e =>
      rw [hc] at h
      cases h
    | ok k =>
      rw [hc] at h
      have hpair := Prod.mk.inj (Except.ok.inj h)
      have hmarked : isMarked keeper.deviceKeys .blacklisted d' = true := by simpa using hpair.2
      rw [← hmarked]
      unfold isMarked
      rw [hd, key_of_lookup hd']

theorem revocations_trust {change : TrustChange} {userId deviceId : Str} :
    c.revocations env (.trust change userId deviceId) =
      match change.apply c.machine.keeper userId deviceId with
      | .ok (_, true) => if change.revokes then [(none, .device (userId, deviceId))] else []
      | _ => [] := rfl

/-- So does a change of trust that spares the lookups. -/
theorem stands_trust {change : TrustChange} {userId deviceId : Str} (h : Stands env c)
    (hspare : c.sparesLookups env (.trust change userId deviceId) = true) :
    Stands env ((c.revoke (c.revocations env (.trust change userId deviceId))).trust change userId
      deviceId) := by
  obtain ⟨-, hkeeper, -, -, -⟩ :=
    session_revokes (c.revocations env (.trust change userId deviceId)) c.machine
  unfold trust
  rw [show (c.revoke (c.revocations env (.trust change userId deviceId))).machine.keeper =
    c.machine.keeper from hkeeper]
  have hrevs := @revocations_trust env c change userId deviceId
  cases ha : change.apply c.machine.keeper userId deviceId with
  | error e =>
    rw [ha] at hrevs
    rw [hrevs]
    exact stands_dispose h
  | ok res =>
    obtain ⟨keeper, changed⟩ := res
    have htrusted := trusted_apply ha
    cases changed with
    | false =>
      rw [ha] at hrevs
      rw [hrevs]
      dsimp only
      rw [if_neg Bool.false_ne_true]
      refine @Stands.prune env [] c _ h (SameSessions.of_eq rfl) (fun _ _ hi => hi)
        htrusted.untouched.nodup
        h.basis.rooms (Caches.of_same rfl (Nat.le_refl _) fun _ _ hl => hl) (fun _ _ hs => Or.inl hs) rfl
        fun r i U' hi hU' => ⟨U', hU', fun _ => Iff.rfl, fun d hits => absurd hits (not_hits_nil r d),
          fun _ d _ helig => ?_⟩
      refine eligible_trust htrusted h.basis.devices ?_ helig
      by_cases hd : d = (userId, deviceId)
      · right
        rintro rfl
        obtain ⟨dev, -, -, -, hkey, -, hblack, -⟩ := GroupMachine.mem_eligible.mp helig
        have hmarked := blacklisted_of_unchanged ha (hkey.trans hd)
        unfold GroupMachine.isBlacklisted at hblack
        rw [hmarked] at hblack
        cases hblack
      · exact Or.inl hd
    | true =>
      rw [ha] at hrevs
      dsimp only at hrevs ⊢
      rw [if_pos rfl]
      have hdevice : ∀ r d, Hits (c.revocations env (.trust change userId deviceId)) r d →
          d = (userId, deviceId) ∧
            (c.revocations env (.trust change userId deviceId)).isEmpty = false := by
        rintro r d ⟨rev, hrev, -, hcovers⟩
        refine ⟨?_, List.isEmpty_eq_false_iff.mpr (List.ne_nil_of_mem hrev)⟩
        rw [hrevs] at hrev
        split at hrev
        · rw [List.mem_singleton.mp hrev] at hcovers
          exact of_decide_eq_true hcovers
        · cases hrev
      have hculled : Culled ((c.revoke (c.revocations env
            (.trust change userId deviceId))).setKeeper keeper)
          (((c.revoke (c.revocations env (.trust change userId deviceId))).setKeeper
            keeper).invalidateRooms fun room => userId ∈ room.users) := culled_invalidateRooms _ _
      have hhits : ∀ r d, Hits (c.revocations env (.trust change userId deviceId)) r d →
          d.1 ∈ [userId] := by
        intro r d hits
        rw [(hdevice r d hits).1]
        exact List.mem_singleton.mpr rfl
      have hlist : ∀ r i U, c.known r = some U → ((((c.revoke (c.revocations env
            (.trust change userId deviceId))).setKeeper keeper).invalidateRooms fun room =>
              userId ∈ room.users).invalidateUsers [userId]).machine.stored r = some i →
          (c.machine.session i).shared = false →
          ∀ d, Hits (c.revocations env (.trust change userId deviceId)) r d → d.1 ∉ U := by
        intro r i U hU hi hs d hits hd
        obtain ⟨rfl, hempty⟩ := hdevice r d hits
        rcases known_cases hU with hmembers | ⟨hcached, hlock⟩
        · -- the list of the cache has the user
          refine not_concerned hi ?_ userId hd (List.mem_singleton.mpr rfl)
          rw [hculled.eq]
          exact hmembers
        · -- a lookup is in flight: the session is not left, or the step is spared
          unfold sparesLookups at hspare
          rw [hlock] at hspare
          simp only [hempty, hcached, Bool.false_or, Bool.or_eq_true, Option.isNone_some,
            Bool.or_false, decide_eq_true_eq] at hspare
          have hi₁ := (culled_invalidateUsers _ _).stored r i hi
          have hi₀ : c.machine.stored r = some i := by
            have hstored := hculled.stored r i hi₁
            obtain ⟨houtbound, -⟩ :=
              session_revokes (c.revocations env (.trust change userId deviceId)) c.machine
            unfold GroupMachine.stored at hstored ⊢
            rw [← houtbound]
            exact hstored
          rcases hspare with (hnot | hroom) | hsession
          · exact hnot hd
          · obtain ⟨o, ho, huser⟩ := (Option.any_eq_true _ _).mp hroom
            rw [not_stored_invalidateRooms (c := (c.revoke _).setKeeper keeper) (o := o) ho huser] at hi₁
            cases hi₁
          · rw [hi₀, Option.all_some, hs, Bool.false_or] at hsession
            have hnot := stored_invalidateUsers hi
            have hrec : ((((c.revoke (c.revocations env (.trust change userId deviceId))).setKeeper
                keeper).invalidateRooms fun room => userId ∈ room.users).machine.session
                  i).usersSharedWith = (c.machine.session i).usersSharedWith := by
              obtain ⟨-, -, -, -, hrec⟩ :=
                session_revokes (c.revocations env (.trust change userId deviceId)) c.machine
              rw [hculled.eq]
              exact (hrec i (h.basis.wellFormed r i hi₀).1).usersSharedWith
            unfold concerns at hnot
            rw [hrec, Bool.or_eq_false_iff] at hnot
            obtain ⟨k, hk, huser⟩ := List.any_eq_true.mp hsession
            exact List.any_eq_false.mp hnot.2 k hk (by simpa using huser)
      refine stands_devices h hculled htrusted.untouched.nodup hhits ?_ hlist
      intro r i U d hU hi hs hd helig
      refine eligible_trust htrusted h.basis.devices ?_ helig
      by_cases hkey : d = (userId, deviceId)
      · -- a device that is blacklisted now concerns the session
        right
        rintro rfl
        refine hlist r i U hU hi hs d ⟨(none, .device (userId, deviceId)), ?_, Or.inl rfl, ?_⟩ hd
        · rw [hrevs]
          exact List.mem_singleton.mpr rfl
        · exact decide_eq_true hkey
      · exact Or.inl hkey

/-! ### Lookups and shares that wait -/

theorem known_of_members {r : Str} {U : List Str} (h : c.members r = some U) : c.known r = some U := by
  unfold members at h
  split at h
  · next n users hc =>
    cases h
    exact known_members hc
  · cases h

/-- Without a lookup only the lists of the cache are known. -/
theorem known_subset {c' : AttachedClient} {r : Str} {U : List Str} (h : c'.known r = some U)
    (hcached : ∀ r n users, c'.cached r = some (.members n users) →
      c.cached r = some (.members n users))
    (hlock : ∀ r previous, c'.lock ≠ some (.lookup r previous)) : c.known r = some U := by
  rcases known_cases h with hmembers | ⟨-, hl⟩
  · unfold members at hmembers
    split at hmembers
    · next n users hc =>
      cases hmembers
      exact known_members (hcached r n _ hc)
    · cases hmembers
  · exact absurd hl (hlock r _)

/-- Neither the machine nor the rooms change. -/
theorem stands_waiting {c' : AttachedClient} (h : Stands env c) (hmachine : c'.machine = c.machine)
    (hrooms : c'.rooms = c.rooms) (hcaches : Caches c c') (hmessages : c'.messages = c.messages)
    (hsharing : ∀ r s, dictGet? c'.sharing r = some s →
      dictGet? c.sharing r = some s ∨ Listed c' r s.phase)
    (hknown : ∀ r U, c'.known r = some U → c.known r = some U) : Stands env c' := by
  refine h.quiet (SameSessions.of_eq (by rw [hmachine])) (fun _ _ hi => by rw [← hmachine]; exact hi)
    (by rw [hmachine]) (by rw [hmachine]; exact List.Subset.refl _) ?_ hcaches hsharing hmessages
    fun r _ U' _ hU' => ⟨U', hknown r U' hU', fun _ => Iff.rfl⟩
  unfold room
  rw [hrooms]
  exact h.basis.rooms

theorem sharing_set {roomId r : Str} {s s' : AttachedShare}
    (h : dictGet? (dictSet c.sharing roomId s) r = some s') :
    r ≠ roomId ∧ dictGet? c.sharing r = some s' ∨ r = roomId ∧ s' = s := by
  rw [dictGet?_dictSet] at h
  split at h
  · next hr => exact Or.inr ⟨hr, (Option.some.inj h).symm⟩
  · next hr => exact Or.inl ⟨hr, h⟩

theorem sharing_erase {roomId r : Str} {s : AttachedShare}
    (h : dictGet? (dictErase c.sharing roomId) r = some s) :
    r ≠ roomId ∧ dictGet? c.sharing r = some s := by
  rw [dictGet?_dictErase] at h
  split at h
  · cases h
  · next hr => exact ⟨hr, h⟩

/-- A share stands on members that are listed. -/
theorem stands_setShare {roomId : Str} {s : AttachedShare} (h : Stands env c)
    (hs : Listed c roomId s.phase) : Stands env (c.setShare roomId s) := by
  refine stands_waiting h rfl rfl (Caches.of_same rfl (Nat.le_refl _) fun _ _ hl => hl) rfl (fun r s' hs' => ?_)
    fun _ _ hU => hU
  rcases sharing_set hs' with ⟨-, hold⟩ | ⟨rfl, rfl⟩
  · exact Or.inl hold
  · exact Or.inr (hs.caches (Caches.of_same rfl (Nat.le_refl _) fun _ _ hl => hl))

theorem stands_popShare {roomId : Str} (h : Stands env c) : Stands env (c.popShare roomId) :=
  stands_waiting h rfl rfl (Caches.of_same rfl (Nat.le_refl _) fun _ _ hl => hl) rfl
    (fun _ _ hs => Or.inl (sharing_erase hs).2) fun _ _ hU => hU

/-- The lock is free now, or a share has it. -/
theorem stands_setLock {lock : Option CryptoLock} (h : Stands env c)
    (hlock : ∀ r previous, lock ≠ some (.lookup r previous)) : Stands env { c with lock } :=
  stands_waiting h rfl rfl
    (Caches.of_same rfl (Nat.le_refl _) fun r previous hl => absurd hl (hlock r previous)) rfl
    (fun _ _ hs => Or.inl hs) fun _ _ hU => known_subset hU (fun _ _ _ hc => hc) hlock

theorem stands_release {roomId : Str} (h : Stands env c) : Stands env (c.release roomId) :=
  stands_setLock (stands_popShare h) (by simp)

/-- A lookup may start at any time, -/
theorem stands_startLookup {roomId : Str} (h : Stands env c) : Stands env (c.startLookup roomId) := by
  have hcached : ∀ r, (c.startLookup roomId).cached r =
      if r = roomId then some .pending else c.cached r :=
    fun r => dictGet?_dictSet c.memberCache roomId r .pending
  refine stands_waiting h rfl rfl ⟨Nat.le_refl _, fun r n users hc => ?_, fun r previous hl =>
    Or.inr fun n users hc => ?_⟩ rfl (fun _ _ hs => Or.inl hs) fun r U hU => ?_
  · rw [hcached] at hc
    split at hc
    · cases hc
    · exact Or.inl hc
  · obtain ⟨rfl, -⟩ := CryptoLock.lookup.inj (Option.some.inj hl)
    rw [hcached, if_pos rfl] at hc
    cases hc
  · rcases known_cases hU with hmembers | ⟨-, hl⟩
    · -- the list of another room
      unfold members at hmembers
      rw [hcached] at hmembers
      split at hmembers
      · next n users hc =>
        split at hc
        · cases hc
        · cases hmembers
          exact known_members hc
      · cases hmembers
    · -- the list that the cache has had
      obtain ⟨rfl, hprevious⟩ := CryptoLock.lookup.inj (Option.some.inj hl)
      exact known_of_members hprevious

/-- The entry of a lookup that raises goes, unless it is settled. -/
theorem stands_popPending {roomId : Str} (h : Stands env c) :
    Stands env (match c.cached roomId with
      | some .pending => c.popMembers roomId
      | _ => c) := by
  split
  · exact stands_popMembers h
  · exact h

/-- and may fail. -/
theorem stands_lookupRaises (h : Stands env c) : Stands env c.lookupRaises := by
  unfold lookupRaises
  split
  · next roomId previous hlock =>
    dsimp only
    have hfree := @stands_setLock env _ none (@stands_popPending env c roomId h) (by simp)
    split
    · exact stands_popShare hfree
    · exact hfree
  · exact h

/-- Equal member lists have no change between them. -/
theorem changedMembers_of_same {users joined : List Str} (h : sameMembers users joined = true) :
    changedMembers users joined = [] := by
  unfold sameMembers at h
  rw [Bool.and_eq_true, List.all_eq_true, List.all_eq_true] at h
  unfold changedMembers
  rw [List.append_eq_nil_iff, List.filter_eq_nil_iff, List.filter_eq_nil_iff]
  exact ⟨fun u hu => by simpa using h.1 u hu, fun u hu => by simpa using h.2 u hu⟩

theorem mem_of_same {users joined : List Str} (h : sameMembers users joined = true) (u : Str) :
    u ∈ joined ↔ u ∈ users := by
  unfold sameMembers at h
  rw [Bool.and_eq_true, List.all_eq_true, List.all_eq_true] at h
  exact ⟨fun hu => by simpa using h.2 u hu, fun hu => by simpa using h.1 u hu⟩

/-- New members stand when those that left are revoked. -/
theorem stands_newMembers {revs : List (Option Str × Revocation)} {c₂ : AttachedClient}
    {roomId : Str} {previous : Option (List Str)} {joined : List Str} (h : Stands env c)
    (hculled : Culled (c.revoke revs) c₂) (hlock : c.lock = some (.lookup roomId previous))
    (hcached : (c.cached roomId).isSome = true)
    (hgone : ∀ i, c₂.machine.stored roomId = some i →
      ∃ p, previous = some p ∧ sameMembers p joined = true)
    (hhits : ∀ r d, Hits revs r d →
      r = roomId ∧ ∀ p, previous = some p → sameMembers p joined = false) :
    Stands env { c₂ with
      memberCache := dictSet c₂.memberCache roomId (.members c.fresh joined)
      fresh := c.fresh + 1
      lock := none } := by
  obtain ⟨houtbound, hkeeper, holm, -, -⟩ := session_revokes revs c.machine
  have hcache : c₂.memberCache = c.memberCache := by
    rw [hculled.eq]
    rfl
  have hkeeper₂ : c₂.machine.keeper = c.machine.keeper := by
    rw [hculled.eq]
    exact hkeeper
  have hsharing : c₂.sharing = c.sharing := by
    rw [hculled.eq]
    rfl
  have hstored : ∀ r i, c₂.machine.stored r = some i → c.machine.stored r = some i := by
    intro r i hi
    have hi' := hculled.stored r i hi
    unfold GroupMachine.stored at hi' ⊢
    rw [← houtbound]
    exact hi'
  have hset : ∀ r, dictGet? (dictSet c₂.memberCache roomId (.members c.fresh joined)) r =
      if r = roomId then some (.members c.fresh joined) else c.cached r := fun r => by
    rw [dictGet?_dictSet, hcache]
    rfl
  -- no lookup is in flight any more
  have hknown : ∀ r U', ({ c₂ with
      memberCache := dictSet c₂.memberCache roomId (.members c.fresh joined)
      fresh := c.fresh + 1
      lock := none } : AttachedClient).known r = some U' →
      r = roomId ∧ U' = joined ∨ r ≠ roomId ∧ c.known r = some U' := by
    intro r U' hU'
    rcases known_cases hU' with hmembers | ⟨-, hl⟩
    · unfold members cached at hmembers
      dsimp only at hmembers
      rw [hset] at hmembers
      by_cases hr : r = roomId
      · rw [if_pos hr] at hmembers
        exact Or.inl ⟨hr, (Option.some.inj hmembers).symm⟩
      · rw [if_neg hr] at hmembers
        exact Or.inr ⟨hr, known_of_members hmembers⟩
    · cases hl
  refine h.prune (SameSessions.revoke revs (by rw [hculled.eq]; rfl)) hstored
    (by dsimp only; rw [hkeeper₂]; exact id) (by rw [hculled.eq]; exact h.basis.rooms)
    ⟨Nat.le_succ _, fun r n users hc => ?_, fun r previous hl => (nomatch hl)⟩
    (fun r s hs => Or.inl (by dsimp only at hs; rw [← hsharing]; exact hs))
    (by rw [hculled.eq]; rfl) fun r i U' hi hU' => ?_
  · unfold cached at hc
    dsimp only at hc
    rw [hset] at hc
    split at hc
    · cases hc
      exact Or.inr ⟨Nat.le_refl _, Nat.lt_succ_self _, rfl⟩
    · exact Or.inl hc
  · have heligible : ∀ u, c₂.machine.eligible env u = c.machine.eligible env u := fun u =>
      GroupMachine.eligible_congr hkeeper₂ (by rw [hculled.eq]; exact holm) u
    rcases hknown r U' hU' with ⟨rfl, rfl⟩ | ⟨hr, hU⟩
    · obtain ⟨p, hp, hsame⟩ := hgone i hi
      have hpending : c.known r = some p := by
        have hnot := h.basis.lookups r previous hlock
        unfold known
        cases hc : c.cached r with
        | none =>
          rw [hc] at hcached
          cases hcached
        | some entry =>
          cases entry with
          | members n users => exact absurd hc (hnot n users)
          | pending =>
            rw [hlock, hp]
            exact if_pos rfl
      refine ⟨p, hpending, mem_of_same hsame, fun d hits => ?_, fun _ d _ helig => ?_⟩
      · have hdiffers := (hhits r d hits).2 p hp
        rw [hsame] at hdiffers
        cases hdiffers
      · dsimp only
        rw [heligible]
        exact helig
    · refine ⟨U', hU, fun _ => Iff.rfl, fun d hits => absurd (hhits r d hits).1 hr, fun _ d _ helig => ?_⟩
      dsimp only
      rw [heligible]
      exact helig

theorem revocations_lookupAnswered {joined : List Str} :
    c.revocations env (.lookupAnswered joined) =
      match c.lock with
      | some (.lookup roomId (some previous)) =>
        if (c.cached roomId).isSome then
          (changedMembers previous joined).map fun u => (some roomId, .user u)
        else []
      | _ => [] := rfl

/-- A share that waits for the lookup goes on with its members. -/
theorem stands_resume {c' : AttachedClient} {share : Option AttachedShare} {roomId : Str}
    {joined : List Str} {n : Nat}
    (h : Stands env c' ∧ ∀ room ign, Stands env
      (c'.setShare roomId ⟨room, ign, .waiting joined (some n)⟩)) :
    Stands env (match share with
      | some ⟨room, ign, .looking⟩ => c'.setShare roomId ⟨room, ign, .waiting joined (some n)⟩
      | _ => c') := by
  split
  · exact h.2 _ _
  · exact h.1

/-- The answer to a lookup stands after its revocations. -/
theorem stands_lookupAnswered {joined : List Str} (h : Stands env c) :
    Stands env ((c.revoke (c.revocations env (.lookupAnswered joined))).lookupAnswered joined) := by
  have hrevs := @revocations_lookupAnswered env c joined
  obtain ⟨houtbound, hkeeper, holm, -, -⟩ :=
    session_revokes (c.revocations env (.lookupAnswered joined)) c.machine
  unfold lookupAnswered
  rw [show (c.revoke (c.revocations env (.lookupAnswered joined))).lock = c.lock from rfl]
  split
  · next roomId previous hlock =>
    rw [show (c.revoke (c.revocations env (.lookupAnswered joined))).cached roomId = c.cached roomId
      from rfl]
    split
    · next hcached =>
      have hnil : c.revocations env (.lookupAnswered joined) = [] := by
        rw [hrevs, hlock]
        cases previous with
        | none => rfl
        | some previous => simp [hcached]
      rw [hnil]
      exact stands_lookupRaises h
    · next entry hcached =>
      dsimp only
      have hhits : ∀ r d, Hits (c.revocations env (.lookupAnswered joined)) r d →
          r = roomId ∧ ∀ p, previous = some p → sameMembers p joined = false := by
        rintro r d ⟨rev, hrev, hscope, -⟩
        rw [hrevs, hlock] at hrev
        cases previous with
        | none => cases hrev
        | some p =>
          dsimp only at hrev
          rw [hcached, Option.isSome_some, if_pos rfl] at hrev
          obtain ⟨u, hu, rfl⟩ := List.mem_map.mp hrev
          refine ⟨?_, fun p' hp' => ?_⟩
          · rcases hscope with hs | hs
            · cases hs
            · exact (Option.some.inj hs).symm
          · cases hp'
            cases hsame : sameMembers p joined with
            | false => rfl
            | true =>
              rw [changedMembers_of_same hsame] at hu
              cases hu
      have hnew : ∀ c₂, Culled (c.revoke (c.revocations env (.lookupAnswered joined))) c₂ →
          (∀ i, c₂.machine.stored roomId = some i →
            ∃ p, previous = some p ∧ sameMembers p joined = true) →
          Stands env { c₂ with
              memberCache := dictSet c₂.memberCache roomId (.members c.fresh joined)
              fresh := c.fresh + 1
              lock := none } ∧
            ∀ room ign, Stands env ({ c₂ with
              memberCache := dictSet c₂.memberCache roomId (.members c.fresh joined)
              fresh := c.fresh + 1
              lock := none }.setShare roomId ⟨room, ign, .waiting joined (some c.fresh)⟩) := by
        intro c₂ hculled hgone
        have hstands := stands_newMembers h hculled hlock (by rw [hcached]; rfl) hgone hhits
        refine ⟨hstands, fun room ign => ?_⟩
        refine stands_setShare hstands ⟨c.fresh, rfl, Nat.lt_succ_self _, fun users' hu => ?_⟩
        unfold cached at hu
        dsimp only at hu
        rw [dictGet?_dictSet, if_pos rfl] at hu
        cases hu
        rfl
      cases hdiffers : (previous.all fun p => !sameMembers p joined) with
      | true =>
        refine stands_resume (hnew _ (culled_invalidateOutboundSession _ roomId) fun i hi => ?_)
        rw [if_pos rfl, stored_invalidateOutboundSession] at hi
        cases hi
      | false =>
        refine stands_resume (hnew _ (Culled.refl _) fun i _ => ?_)
        cases previous with
        | none => cases hdiffers
        | some p => exact ⟨p, rfl, by simpa using hdiffers⟩
  · next hlock =>
    have hnil : c.revocations env (.lookupAnswered joined) = [] := by
      rw [hrevs]
      split
      · next roomId previous hl => exact absurd hl (hlock roomId (some previous))
      · rfl
    rw [hnil]
    exact h

theorem stands_share {roomId : Str} {ign : Bool} (h : Stands env c) :
    Stands env (c.share roomId ign) := by
  unfold share
  split
  · exact h
  · next o ho =>
    rw [h.basis.rooms roomId o ho]
    split
    · exact h
    · rw [if_neg Bool.false_ne_true]
      exact stands_setShare h trivial

theorem stands_ensureMembers {roomId : Str} (h : Stands env c) :
    Stands env (c.ensureMembers roomId) := by
  unfold ensureMembers
  split
  · next room ign hlock hs =>
    split
    · exact stands_setShare (stands_startLookup h) trivial
    · exact stands_popShare h
    · next ref users hc =>
      refine stands_setShare h ⟨ref, rfl, h.basis.refs roomId ref users hc, fun users' hu => ?_⟩
      rw [hc] at hu
      cases hu
      rfl
  · exact h

theorem stands_locked {roomId : Str} (h : Stands env c) : Stands env (c.locked roomId) := by
  unfold locked
  split
  · next room ign users ref hlock hs =>
    have hphase := h.basis.phases roomId _ hs
    refine stands_setLock (stands_setShare h ?_) (by simp)
    rcases hphase with hl | ⟨p, hp, -⟩
    · exact hl
    · cases hp
  · exact h

theorem stands_shareRaises {roomId : Str} (h : Stands env c) : Stands env (c.shareRaises roomId) := by
  unfold shareRaises
  split
  · exact stands_lookupRaises h
  · exact stands_release h
  · exact stands_release h
  · exact stands_popShare h

theorem stands_deliverPending (h : Stands env c) : Stands env c.deliverPending := by
  unfold deliverPending
  split
  · next i keys hp =>
    refine h.quiet ⟨by simp, fun j hj => ?_⟩ (fun _ _ hi => hi) rfl (List.Subset.refl _) h.basis.rooms
      (Caches.of_same rfl (Nat.le_refl _) fun _ _ hl => hl) (fun _ _ hs => Or.inl hs) rfl
      fun _ _ U' _ hU' => ⟨U', hU', fun _ => Iff.rfl⟩
    rcases GroupMachine.session_modify_cases c.machine i (·.deliver keys) j with hsame | ⟨-, hsame⟩
    · exact (congrArg (Crypto.Recorded [] (c.machine.session j)) hsame).mpr (Crypto.Recorded.refl _ _)
    · exact (congrArg (Crypto.Recorded [] (c.machine.session j)) hsame).mpr
        ⟨rfl, rfl, rfl, rfl, rfl, fun _ hp => Or.inl hp⟩
  · exact stands_waiting h rfl rfl (Caches.of_same rfl (Nat.le_refl _) fun _ _ hl => hl) rfl
      (fun _ _ hs => Or.inl hs) fun _ _ hU => hU

/-! ### The requests of a share -/

/-- What is left of a send are the chunks that were not answered. -/
theorem rest_sending {roomId : Str} {room : Nat} {ign : Bool} {p : SendProgress}
    (hs : dictGet? c.sharing roomId = some ⟨room, ign, .sending p⟩) (i : Nat) :
    c.rest roomId i = if p.group = i then p.rest.flatten else [] := by
  unfold rest
  rw [hs]

theorem rest_congr {c' : AttachedClient} {r : Str} (i : Nat)
    (h : dictGet? c'.sharing r = dictGet? c.sharing r) : c'.rest r i = c.rest r i := by
  unfold rest
  rw [h]

/-- Before the next request: the room's session is the one of the share, and its key is out only for
devices that have it or that the share still names. -/
structure Ready (env : KeyQueryEnv) (c : AttachedClient) (roomId : Str) (p : SendProgress) : Prop where
  basis : Basis c
  messages : ∀ s ∈ c.messages, s.Unrevoked
  others : ∀ r i U, r ≠ roomId → c.machine.stored r = some i → c.known r = some U →
    Held env c.machine (c.machine.session i) (c.rest r i) U
  stored : c.machine.stored roomId = some p.group
  unshared : (c.machine.session p.group).shared = false
  named : ∀ d ∈ (c.machine.session p.group).requested,
    d ∈ (c.machine.session p.group).usersSharedWith ∨ d ∈ p.rest.flatten
  held : ∀ U, c.known roomId = some U →
    Held env c.machine (c.machine.session p.group) p.rest.flatten U

/-- One session is changed, and the sessions of the other rooms stay as they are. -/
theorem basis_modify (h : Basis c) {c' : AttachedClient} {roomId : Str} {i : Nat}
    {f : OutboundGroupSession → OutboundGroupSession} (hmachine : c'.machine = c.machine.modify i f)
    (hf : ∀ s, (f s).roomId = s.roomId) (hi : i < c.machine.sessions.length)
    (hroom : (c.machine.session i).roomId = roomId) (hrooms : c'.rooms = c.rooms)
    (hcache : c'.memberCache = c.memberCache) (hfresh : c'.fresh = c.fresh)
    (hlock : ∀ r previous, c'.lock = some (.lookup r previous) → c.lock = some (.lookup r previous))
    (hsharing : ∀ r s, dictGet? c'.sharing r = some s →
      r ≠ roomId ∧ dictGet? c.sharing r = some s ∨ Phase c' r s.phase) : Basis c' := by
  have hcaches : Caches c c' := Caches.of_same hcache (le_of_eq hfresh.symm) hlock
  refine ⟨by rw [hmachine]; exact h.wellFormed.modify i hf, by rw [hmachine]; exact h.devices, ?_,
    fun r n users hc => ?_, fun r previous hl n users hc => ?_, fun r s hs => ?_⟩
  · unfold room
    rw [hrooms]
    exact h.rooms
  · rw [hfresh]
    refine h.refs r n users ?_
    unfold cached at hc ⊢
    rw [← hcache]
    exact hc
  · refine h.lookups r previous (hlock r previous hl) n users ?_
    unfold cached at hc ⊢
    rw [← hcache]
    exact hc
  · rcases hsharing r s hs with ⟨hr, hold⟩ | hnew
    · rcases h.phases r s hold with hl | ⟨p, hp, hsend⟩
      · exact Or.inl (hl.caches hcaches)
      · -- the group of another room is another session
        refine Or.inr ⟨p, hp, ?_⟩
        have hne : p.group ≠ i := by
          rintro rfl
          exact hr (hsend.roomId.symm.trans hroom)
        have hsame : c'.machine.session p.group = c.machine.session p.group := by
          rw [hmachine, GroupMachine.session_modify c.machine i f p.group hi, if_neg hne]
        refine ⟨by rw [hmachine, GroupMachine.length_modify]; exact hsend.group, ?_, ?_, ?_⟩
        · rw [hsame]
          exact hsend.roomId
        · rw [hsame]
          exact hsend.unshared
        · rw [hsame]
          exact hsend.named
    · exact hnew

/-- The sessions of the other rooms are held as before. -/
theorem held_others {c' : AttachedClient} {roomId : Str} {i : Nat}
    {f : OutboundGroupSession → OutboundGroupSession} (hwf : c.machine.WellFormed)
    (hmachine : c'.machine = c.machine.modify i f) (hi : i < c.machine.sessions.length)
    (hroom : (c.machine.session i).roomId = roomId) {r : Str} {j : Nat} {U : List Str}
    {rest : List (Str × Str)} (hr : r ≠ roomId) (hj : c.machine.stored r = some j)
    (h : Held env c.machine (c.machine.session j) rest U) :
    Held env c'.machine (c'.machine.session j) rest U := by
  have hne : j ≠ i := by
    rintro rfl
    exact hr ((hwf r j hj).2.symm.trans hroom)
  rw [hmachine, GroupMachine.session_modify c.machine i f j hi, if_neg hne]
  refine ⟨h.shared, fun hs d hd => ?_, h.revoked⟩
  obtain ⟨hmem, hcase⟩ := h.asked hs d hd
  exact ⟨hmem, hcase⟩

/-- The next chunk of a send stands. -/
theorem stands_sendNext {roomId : Str} {s : AttachedShare} {p : SendProgress}
    (h : Ready env c roomId p) : Stands env (c.sendNext env roomId s p) := by
  obtain ⟨hlt, hroom⟩ := h.basis.wellFormed roomId p.group h.stored
  unfold sendNext
  split
  · next hrest =>
    -- all requests are answered: the session is marked as shared
    unfold markAsShared
    rw [if_pos h.stored]
    have hnamed : ∀ d ∈ (c.machine.session p.group).requested,
        d ∈ (c.machine.session p.group).usersSharedWith := fun d hd => by
      have hcase := h.named d hd
      rw [hrest] at hcase
      simpa using hcase
    refine ⟨basis_modify h.basis rfl (fun _ => rfl) hlt hroom rfl rfl rfl (fun _ _ hl => nomatch hl)
      fun r s' hs' => ?_, fun r j U hj hU => ?_, h.messages⟩
    · exact Or.inl (sharing_erase hs')
    · have hU' : c.known r = some U := known_subset hU (fun _ _ _ hc => hc) fun _ _ hl => (nomatch hl)
      have hj' : c.machine.stored r = some j := hj
      by_cases hr : r = roomId
      · subst hr
        obtain rfl := Option.some.inj (h.stored.symm.trans hj')
        have hheld := h.held U hU'
        dsimp only
        rw [GroupMachine.session_modify c.machine p.group .markAsShared p.group hlt, if_pos rfl]
        refine ⟨fun _ => ⟨hnamed, fun q hq d hd => ?_⟩, fun hs => (nomatch hs), fun hs => (nomatch hs)⟩
        cases hcovers : q.1.covers d with
        | false => rfl
        | true =>
          refine absurd ?_ (hheld.revoked h.unshared q hq)
          rw [← Revocation.user_of_covers hcovers]
          exact (hheld.asked h.unshared d (Or.inl hd)).1
      · refine held_others h.basis.wellFormed rfl hlt hroom hr hj' ?_
        have hold := h.others r j U hr hj' hU'
        rw [@rest_congr c]
        · exact hold
        · show dictGet? (dictErase c.sharing roomId) r = _
          rw [dictGet?_dictErase, if_neg hr]
  · next chunk rest hrest =>
    -- the key is put in a request for the next devices
    have hsplit : ∀ d, d ∈ p.rest.flatten ↔ d ∈ chunk ∨ d ∈ rest.flatten := fun d => by
      rw [hrest, List.flatten_cons, List.mem_append]
    have hsession : ∀ j, (c.machine.modify p.group (·.request chunk)).session j =
        if j = p.group then (c.machine.session j).request chunk else c.machine.session j :=
      fun j => GroupMachine.session_modify c.machine p.group _ j hlt
    have hsends : Sends (c.machine.modify p.group (·.request chunk)) roomId
        { p with current := chunk, rest } := by
      refine ⟨?_, ?_, ?_, fun d hd => ?_⟩
      · rw [GroupMachine.length_modify]
        exact hlt
      · dsimp only
        rw [hsession, if_pos rfl]
        exact hroom
      · dsimp only
        rw [hsession, if_pos rfl]
        exact h.unshared
      · dsimp only at hd ⊢
        rw [hsession, if_pos rfl] at hd ⊢
        rcases List.mem_append.mp hd with hd | hd
        · rcases h.named d hd with hn | hn
          · exact Or.inl hn
          · exact Or.inr ((hsplit d).mp hn)
        · exact Or.inr (Or.inl hd)
    refine ⟨basis_modify h.basis rfl (fun _ => rfl) hlt hroom rfl rfl rfl (fun _ _ hl => hl)
      fun r s' hs' => ?_, fun r j U hj hU => ?_, h.messages⟩
    · rcases sharing_set hs' with hold | ⟨rfl, rfl⟩
      · exact Or.inl hold
      · exact Or.inr (Or.inr ⟨_, rfl, hsends⟩)
    · have hU' : c.known r = some U := hU
      have hj' : c.machine.stored r = some j := hj
      by_cases hr : r = roomId
      · subst hr
        obtain rfl := Option.some.inj (h.stored.symm.trans hj')
        have hheld := h.held U hU'
        rw [rest_sending (c := AttachedClient.setShare _ r _)
          (by show dictGet? (dictSet c.sharing r _) r = _; rw [dictGet?_dictSet, if_pos rfl]),
          if_pos rfl]
        show Held env (c.machine.modify p.group (·.request chunk))
          ((c.machine.modify p.group (·.request chunk)).session p.group) rest.flatten U
        rw [hsession, if_pos rfl]
        refine ⟨fun hs => ?_, fun hs d hd => ?_, fun hs => hheld.revoked hs⟩
        · have hfalse := h.unshared
          rw [show (c.machine.session p.group).shared = true from hs] at hfalse
          cases hfalse
        · refine hheld.asked hs d ?_
          rcases hd with hd | hd
          · rcases List.mem_append.mp hd with hd | hd
            · exact Or.inl hd
            · exact Or.inr ((hsplit d).mpr (Or.inl hd))
          · exact Or.inr ((hsplit d).mpr (Or.inr hd))
      · refine held_others h.basis.wellFormed rfl hlt hroom hr hj' ?_
        have hold := h.others r j U hr hj' hU'
        rw [@rest_congr c]
        · exact hold
        · show dictGet? (dictSet c.sharing roomId _) r = _
          rw [dictGet?_dictSet, if_neg hr]

/-- The sessions after the recipients of one were computed; this one is new, or the room's own. -/
structure Recomputed (c : AttachedClient) (machine : GroupMachine) (roomId : Str) (i : Nat)
    (ignored : List (Str × Str)) : Prop where
  wellFormed : machine.WellFormed
  stored : ∀ r, machine.stored r = if r = roomId then some i else c.machine.stored r
  length : c.machine.sessions.length ≤ machine.sessions.length
  others : ∀ j, j < c.machine.sessions.length → j ≠ i → machine.session j = c.machine.session j
  session : machine.session i = ((c.machine.shareable roomId).1.session i).setIgnored ignored
  start : i = c.machine.sessions.length ∧
      (c.machine.shareable roomId).1.session i = .new roomId ∨
    c.machine.stored roomId = some i ∧ (c.machine.session i).shared = false ∧
      (c.machine.shareable roomId).1.session i = c.machine.session i

/-- A computed share has the recipients of the room at this time. -/
theorem recomputed {machine : GroupMachine} {roomId : Str} {i : Nat} {ignored : List (Str × Str)}
    (hwf : c.machine.WellFormed) (hc : Computed env c.machine machine roomId i ignored) :
    Recomputed c machine roomId i ignored := by
  have hshareable := c.machine.stored_shareable roomId
  rw [← hc.session] at hshareable
  have hwf' := hwf.shareable roomId
  obtain ⟨hlt, -⟩ := hwf' roomId i hshareable
  have hsession : ∀ j, machine.session j =
      if j = i then ((c.machine.shareable roomId).1.session j).setIgnored ignored
      else (c.machine.shareable roomId).1.session j := by
    intro j
    rw [← GroupMachine.session_modify _ i _ j hlt]
    unfold GroupMachine.session
    rw [hc.sessions]
  have hstored : ∀ r, machine.stored r = (c.machine.shareable roomId).1.stored r := fun r => by
    unfold GroupMachine.stored
    rw [hc.outbound]
  have hlen : machine.sessions.length = (c.machine.shareable roomId).1.sessions.length := by
    rw [hc.sessions]
    exact GroupMachine.length_modify _ i _
  have hwfm : machine.WellFormed := by
    intro r j hj
    rw [hstored] at hj
    obtain ⟨hlt', hroom'⟩ := hwf' r j hj
    refine ⟨by rw [hlen]; exact hlt', ?_⟩
    rw [hsession]
    split
    · exact hroom'
    · exact hroom'
  have hown := hsession i
  rw [if_pos rfl] at hown
  rcases c.machine.shareable_cases roomId with ⟨hs, -⟩ | ⟨j, hs, hj, hunshared⟩
  · -- a new session
    have hi : i = c.machine.sessions.length := by
      rw [hc.session, hs]
      rfl
    refine ⟨hwfm, fun r => ?_, ?_, fun j hj hne => ?_, hown, Or.inl ⟨hi, ?_⟩⟩
    · rw [hstored, hs, GroupMachine.stored_create, hi]
    · rw [hlen, hs, GroupMachine.length_create]
      exact Nat.le_succ _
    · rw [hsession, if_neg hne, hs, GroupMachine.session_create _ _ _ hj]
    · rw [hs, hi, GroupMachine.session_create_new]
  · -- the session of the room
    have hi : i = j := by
      rw [hc.session, hs]
    subst hi
    refine ⟨hwfm, fun r => ?_, ?_, fun j hj' hne => ?_, hown, Or.inr ⟨hj, hunshared, ?_⟩⟩
    · rw [hstored, hs]
      split
      · next hr =>
        rw [hr]
        exact hj
      · rfl
    · rw [hlen, hs]
    · rw [hsession, if_neg hne, hs]
    · rw [hs]

/-- Its session is not shared yet. -/
theorem Recomputed.unshared {machine : GroupMachine} {roomId : Str} {i : Nat}
    {ignored : List (Str × Str)} (h : Recomputed c machine roomId i ignored) :
    (machine.session i).shared = false := by
  rw [h.session]
  rcases h.start with ⟨-, hs⟩ | ⟨-, hunshared, hs⟩
  · rw [hs]
    rfl
  · rw [hs]
    exact hunshared

/-- The devices that are ignored are none that a key can be sent to. -/
theorem not_ignored {machine : GroupMachine} {roomId : Str} {i : Nat} {ignored : List (Str × Str)}
    (hc : Computed env c.machine machine roomId i ignored) {d : Str × Str}
    (helig : d ∈ c.machine.eligible env d.1)
    (hnot : d ∉ ((c.machine.shareable roomId).1.session i).usersIgnored)
    (hown : d.2 ≠ env.deviceId) : d ∉ ignored := by
  intro hin
  rcases hc.ignored d hin with h | h | ⟨dev, -, hkey, hblack⟩
  · exact hnot h
  · exact hown h
  · obtain ⟨dev', -, -, -, hkey', -, hfree, -⟩ := GroupMachine.mem_eligible.mp helig
    unfold GroupMachine.isBlacklisted at hblack hfree
    unfold isMarked at hblack hfree
    rw [hkey] at hblack
    rw [hkey', hblack] at hfree
    cases hfree

/-- What is chosen can be sent, and a device that has the key is not left out. -/
theorem held_recomputed {machine : GroupMachine} {roomId : Str} {i : Nat}
    {ignored keys : List (Str × Str)} {users : List Str} (hwf : c.machine.WellFormed)
    (hc : Computed env c.machine machine roomId i ignored)
    (hheld : ∀ j, c.machine.stored roomId = some j →
      Held env c.machine (c.machine.session j) [] users)
    (hkeys : ∀ d ∈ keys, d.1 ∈ users ∧ d ∈ c.machine.eligible env d.1 ∧
      d ∉ ((c.machine.shareable roomId).1.session i).usersIgnored ∧ d.2 ≠ env.deviceId) :
    Held env machine (machine.session i) keys users := by
  have hr := recomputed hwf hc
  have hunshared := hr.unshared
  have hasked : ∀ d, d.1 ∈ users → d ∈ c.machine.eligible env d.1 →
      d ∉ ((c.machine.shareable roomId).1.session i).usersIgnored → d.2 ≠ env.deviceId →
      d ∈ machine.eligible env d.1 ∧ d ∉ (machine.session i).usersIgnored ∧ d.2 ≠ env.deviceId := by
    intro d _ helig hnot hown
    refine ⟨(hc.eligible d.1 d).mpr helig, ?_, hown⟩
    rw [hr.session]
    exact not_ignored hc helig hnot hown
  refine ⟨fun hs => ?_, fun _ d hd => ?_, fun _ p hp => ?_⟩
  · rw [hunshared] at hs
    cases hs
  · rcases hd with hd | hd
    · rw [hr.session] at hd
      rcases hr.start with ⟨-, hnew⟩ | ⟨hj, hfree, hold⟩
      · rw [hnew] at hd
        cases hd
      · rw [hold] at hd hasked
        obtain ⟨hmem, hcase⟩ := (hheld i hj).asked hfree d (Or.inl hd)
        refine ⟨hmem, ?_⟩
        rcases hcase with hnamed | ⟨helig, hnot, hown⟩
        · left
          rw [hr.session, hold]
          exact hnamed
        · exact Or.inr (hasked d hmem helig hnot hown)
    · obtain ⟨hmem, helig, hnot, hown⟩ := hkeys d hd
      exact ⟨hmem, Or.inr (hasked d hmem helig hnot hown)⟩
  · rw [hr.session] at hp
    rcases hr.start with ⟨-, hnew⟩ | ⟨hj, hfree, hold⟩
    · rw [hnew] at hp
      cases hp
    · rw [hold] at hp
      exact (hheld i hj).revoked hfree p hp

/-- The session is none of another room. -/
theorem Recomputed.ne_of_room {machine : GroupMachine} {roomId r : Str} {i j : Nat}
    {ignored : List (Str × Str)} (h : Recomputed c machine roomId i ignored)
    (hwf : c.machine.WellFormed) (hj : j < c.machine.sessions.length)
    (hroom : (c.machine.session j).roomId = r) (hr : r ≠ roomId) : j ≠ i := by
  rintro rfl
  rcases h.start with ⟨hlen, -⟩ | ⟨hstored, -⟩
  · exact absurd hj (by rw [hlen]; exact Nat.lt_irrefl _)
  · exact hr (hroom.symm.trans (hwf roomId j hstored).2)

theorem basis_recomputed {machine : GroupMachine} {roomId : Str} {i : Nat} {ignored : List (Str × Str)}
    (h : Basis c) (hr : Recomputed c machine roomId i ignored)
    (hdevices : (c.machine.keeper.deviceStore.map OlmDevice.key).Nodup →
      (machine.keeper.deviceStore.map OlmDevice.key).Nodup)
    (hphase : ∀ s, dictGet? c.sharing roomId = some s → Listed c roomId s.phase) :
    Basis { c with machine } := by
  refine ⟨hr.wellFormed, hdevices h.devices, h.rooms, h.refs, h.lookups, fun r s hs => ?_⟩
  by_cases hroom : r = roomId
  · subst hroom
    exact Or.inl ((hphase s hs).caches (Caches.of_same rfl (Nat.le_refl _) fun _ _ hl => hl))
  · rcases h.phases r s hs with hl | ⟨p, hp, hsend⟩
    · exact Or.inl (hl.caches (Caches.of_same rfl (Nat.le_refl _) fun _ _ hl => hl))
    · have hsame := hr.others p.group hsend.group
        (hr.ne_of_room h.wellFormed hsend.group hsend.roomId hroom)
      refine Or.inr ⟨p, hp, lt_of_lt_of_le hsend.group hr.length, ?_, ?_, ?_⟩
      · rw [hsame]
        exact hsend.roomId
      · rw [hsame]
        exact hsend.unshared
      · rw [hsame]
        exact hsend.named

theorem others_recomputed {machine : GroupMachine} {roomId : Str} {i : Nat} {ignored : List (Str × Str)}
    (h : Stands env c) (hr : Recomputed c machine roomId i ignored)
    (helig : ∀ u d, d ∈ machine.eligible env u ↔ d ∈ c.machine.eligible env u)
    (r : Str) (j : Nat) (U : List Str) (hne : r ≠ roomId) (hj : machine.stored r = some j)
    (hU : c.known r = some U) : Held env machine (machine.session j) (c.rest r j) U := by
  rw [hr.stored, if_neg hne] at hj
  obtain ⟨hlt, hroom⟩ := h.basis.wellFormed r j hj
  rw [hr.others j hlt (hr.ne_of_room h.basis.wellFormed hlt hroom hne)]
  have hheld := h.held r j U hj hU
  refine ⟨hheld.shared, fun hs d hd => ?_, hheld.revoked⟩
  obtain ⟨hmem, hcase⟩ := hheld.asked hs d hd
  exact ⟨hmem, hcase.imp_right fun he => ⟨(helig d.1 d).mpr he.1, he.2⟩⟩

/-- A share that was computed again stands. -/
theorem stands_recomputed {machine : GroupMachine} {roomId : Str} {i : Nat} {ignored : List (Str × Str)}
    {users : List Str} (h : Stands env c) (hc : Computed env c.machine machine roomId i ignored)
    (hphase : ∀ s, dictGet? c.sharing roomId = some s → Listed c roomId s.phase)
    (hknown : c.known roomId = some users) (hrest : ∀ j, c.rest roomId j = []) :
    Stands env { c with machine } := by
  have hr := recomputed h.basis.wellFormed hc
  refine ⟨basis_recomputed h.basis hr (by rw [hc.devices]; exact id) hphase, fun r j U hj hU => ?_,
    h.messages⟩
  by_cases hroom : r = roomId
  · subst hroom
    obtain rfl := Option.some.inj (hknown.symm.trans hU)
    obtain rfl : i = j := by
      have hj' : machine.stored r = some j := hj
      rw [hr.stored, if_pos rfl] at hj'
      exact Option.some.inj hj'
    rw [show AttachedClient.rest { c with machine } r i = [] from hrest i]
    refine held_recomputed h.basis.wellFormed hc (fun k hk => ?_) (by simp)
    rw [← hrest k]
    exact h.held r k users hk hknown
  · exact others_recomputed h hr hc.eligible r j U hroom hj hU

/-- A share that finds its room again knows the members. -/
theorem known_of_sameRoom {roomId : Str} {room : Nat} {users : List Str} {ref : Option Nat}
    (h : Basis c) (hlisted : Listed c roomId (.finishing users ref))
    (hsame : c.sameRoom roomId room users ref = true) : c.known roomId = some users := by
  obtain ⟨n, hn, -, hold⟩ := hlisted
  unfold sameRoom at hsame
  split at hsame
  · cases hsame
  · next o ho =>
    rw [h.rooms roomId o ho, Bool.and_eq_true] at hsame
    rw [if_neg Bool.false_ne_true] at hsame
    split at hsame
    · next ref' users' hc =>
      have href : ref = some ref' := by simpa using hsame.2
      rw [hn] at href
      cases href
      rw [known_members hc, hold users' hc]
    · simp at hsame

theorem stands_sendKeys {roomId : Str} (h : Stands env c) : Stands env (c.sendKeys env roomId) := by
  unfold sendKeys
  split
  · next r room ign users ref hlock hs hpending =>
    split
    · exact h
    · split
      · next hsame =>
        have hphase : ∀ s, dictGet? c.sharing roomId = some s → Listed c roomId s.phase := by
          intro s hs'
          rw [hs] at hs'
          cases hs'
          rcases h.basis.phases roomId _ hs with hl | ⟨p, hp, -⟩
          · exact hl
          · cases hp
        have hknown := known_of_sameRoom h.basis (hphase _ hs) hsame
        have hrest : ∀ j, c.rest roomId j = [] := fun j => by
          unfold rest
          rw [hs]
        rcases hpar : c.machine.shareGroupSessionParallel env roomId users ign with ⟨machine, res⟩
        obtain ⟨i, ignored, hc, hres⟩ := shareGroupSessionParallel_cases hpar
        have hstands := stands_recomputed h hc hphase hknown hrest
        split
        · next heq =>
          cases heq
          exact stands_release hstands
        · next heq =>
          cases heq
          exact stands_dispose hstands
        · next heq =>
          cases heq
          obtain ⟨rfl, hchosen⟩ := hres _ _ rfl
          have hr := recomputed h.basis.wellFormed hc
          have hheld : ∀ k, c.machine.stored roomId = some k →
              Held env c.machine (c.machine.session k) [] users := fun k hk => by
            rw [← hrest k]
            exact h.held roomId k users hk hknown
          have hnew := held_recomputed h.basis.wellFormed hc hheld fun d hd =>
            ⟨(hchosen.eligible d hd).1, (hchosen.eligible d hd).2, (hchosen.fresh d hd).2⟩
          refine stands_sendNext ⟨hstands.basis, h.messages,
            fun r' j U hne hj hU => others_recomputed h hr hc.eligible r' j U hne hj hU,
            by show machine.stored roomId = _; rw [hr.stored, if_pos rfl], hr.unshared,
            fun d hd => ?_, fun U hU => ?_⟩
          · -- a device with the key that is not named is chosen again
            obtain ⟨huser, hcase⟩ := hnew.asked hr.unshared d (Or.inl hd)
            rcases hcase with hnamed | ⟨helig, hnot, -⟩
            · exact Or.inl hnamed
            · rw [hr.session] at hnot
              rcases hchosen.complete d.1 huser d ((hc.eligible d.1 d).mp helig) with hd' | hd' | hd'
              · left
                show d ∈ (machine.session _).usersSharedWith
                rw [hr.session]
                exact hd'
              · exact absurd hd' hnot
              · exact Or.inr hd'
          · obtain rfl := Option.some.inj (hknown.symm.trans hU)
            exact hnew
      · exact stands_release h
  · exact h

/-- The answer to a chunk stands. -/
theorem stands_chunkAnswered {roomId : Str} {success : Bool} (h : Stands env c) :
    Stands env (c.chunkAnswered env roomId success) := by
  unfold chunkAnswered
  split
  · next r room ign p hlock hs =>
    split
    · exact h
    · split
      · have hd := stands_deliverPending h
        have hsharing : c.deliverPending.sharing = c.sharing := by
          unfold deliverPending
          split <;> rfl
        rw [← hsharing] at hs
        generalize c.deliverPending = c₁ at hd hs
        dsimp only
        split
        · next hstored =>
          obtain ⟨hlt, hroom⟩ := hd.basis.wellFormed roomId p.group hstored
          have hsends : Sends c₁.machine roomId p := by
            rcases hd.basis.phases roomId _ hs with hl | ⟨p', hp', hsends⟩
            · exact hl.elim
            · cases hp'
              exact hsends
          have hsession : ∀ j, (c₁.machine.modify p.group (·.shareWith p.current)).session j =
              if j = p.group then (c₁.machine.session j).shareWith p.current
              else c₁.machine.session j :=
            fun j => GroupMachine.session_modify c₁.machine p.group _ j hlt
          have hown := hsession p.group
          rw [if_pos rfl] at hown
          refine stands_sendNext ⟨basis_modify hd.basis rfl (fun _ => rfl) hlt hroom rfl rfl rfl
            (fun _ _ hl => hl) fun r' s' hs' => ?_, hd.messages, fun r' j U hne hj hU =>
              held_others hd.basis.wellFormed rfl hlt hroom hne hj (hd.held r' j U hj hU),
            hstored, ?_, fun d hd' => ?_, fun U hU => ?_⟩
          · by_cases hr : r' = roomId
            · subst hr
              obtain rfl := Option.some.inj (hs.symm.trans hs')
              refine Or.inr (Or.inr ⟨p, rfl, ?_, ?_, ?_, fun d hd' => ?_⟩)
              · rw [GroupMachine.length_modify]
                exact hlt
              · rw [hown]
                exact hroom
              · rw [hown]
                exact hsends.unshared
              · rw [hown] at hd' ⊢
                exact (hsends.named d hd').imp_left fun hn => List.mem_append_left _ hn
            · exact Or.inl ⟨hr, hs'⟩
          · show ((c₁.machine.modify p.group (·.shareWith p.current)).session p.group).shared = false
            rw [hown]
            exact hsends.unshared
          · -- the devices of the answered request are named now
            have hreq : d ∈ ((c₁.machine.modify p.group
              (·.shareWith p.current)).session p.group).requested := hd'
            show d ∈ ((c₁.machine.modify p.group
              (·.shareWith p.current)).session p.group).usersSharedWith ∨ _
            rw [hown] at hreq ⊢
            rcases hsends.named d hreq with hn | hn | hn
            · exact Or.inl (List.mem_append_left _ hn)
            · exact Or.inl (List.mem_append_right _ hn)
            · exact Or.inr hn
          · have hheld := hd.held roomId p.group U hstored hU
            rw [rest_sending hs, if_pos rfl] at hheld
            show Held env (c₁.machine.modify p.group (·.shareWith p.current))
              ((c₁.machine.modify p.group (·.shareWith p.current)).session p.group) p.rest.flatten U
            rw [hown]
            refine ⟨fun hshared => ?_, fun hu d hd' => ?_, fun hu => hheld.revoked hu⟩
            · have hfalse := hsends.unshared
              rw [show (c₁.machine.session p.group).shared = true from hshared] at hfalse
              cases hfalse
            · obtain ⟨hmem, hcase⟩ := hheld.asked hu d hd'
              exact ⟨hmem, hcase.imp_left fun hn => List.mem_append_left _ hn⟩
        · exact stands_release hd
      · exact stands_release h
  · exact h

/-! ### Messages -/

theorem stands_message {s : OutboundGroupSession} (h : Stands env c) (hs : s.Unrevoked) :
    Stands env { c with messages := s :: c.messages } := by
  refine ⟨⟨h.basis.wellFormed, h.basis.devices, h.basis.rooms, h.basis.refs, h.basis.lookups,
    h.basis.phases⟩, h.held, fun s' hs' => ?_⟩
  rcases List.mem_cons.mp hs' with rfl | hs'
  · exact hs
  · exact h.messages s' hs'

/-- A new session has neither requests nor revocations. -/
theorem stands_create {roomId : Str} (h : Stands env c) :
    Stands env { c with machine := (c.machine.createOutboundGroupSession roomId).1 } := by
  refine ⟨⟨h.basis.wellFormed.create roomId, h.basis.devices, h.basis.rooms, h.basis.refs,
    h.basis.lookups, fun r s hs => ?_⟩, fun r i U hi hU => ?_, h.messages⟩
  · rcases h.basis.phases r s hs with hl | ⟨p, hp, hsends⟩
    · exact Or.inl hl
    · have hsame := c.machine.session_create roomId p.group hsends.group
      refine Or.inr ⟨p, hp, ?_, ?_, ?_, ?_⟩
      · rw [GroupMachine.length_create]
        exact Nat.lt_succ_of_lt hsends.group
      · rw [hsame]
        exact hsends.roomId
      · rw [hsame]
        exact hsends.unshared
      · rw [hsame]
        exact hsends.named
  · dsimp only at hi ⊢
    rw [GroupMachine.stored_create] at hi
    split at hi
    · next hr =>
      cases hi
      rw [GroupMachine.session_create_new]
      have hrest : c.rest r c.machine.sessions.length = [] := by
        unfold rest
        split
        · next room ign p hs =>
          rcases h.basis.phases r _ hs with hl | ⟨p', hp', hsends⟩
          · exact hl.elim
          · cases hp'
            rw [if_neg (Nat.ne_of_lt hsends.group)]
        · rfl
      refine ⟨fun hs => (nomatch hs), fun _ d hd => ?_, fun _ p hp => (nomatch hp)⟩
      rcases hd with hd | hd
      · cases hd
      · have hd' : d ∈ c.rest r c.machine.sessions.length := hd
        rw [hrest] at hd'
        cases hd'
    · obtain ⟨hlt, -⟩ := h.basis.wellFormed r i hi
      rw [c.machine.session_create roomId i hlt]
      have hheld := h.held r i U hi hU
      exact ⟨hheld.shared, hheld.asked, hheld.revoked⟩

/-- An encryption sends under a session that stands. -/
theorem stands_encrypt {roomId : Str} {aged count : Bool} (h : Stands env c) :
    Stands env (c.encrypt roomId aged count) := by
  unfold encrypt
  split
  · exact h
  · next o ho =>
    rw [h.basis.rooms roomId o ho, Bool.false_or]
    split
    · next hboth =>
      obtain ⟨U, hmembers⟩ := Option.isSome_iff_exists.mp (Bool.and_eq_true_iff.mp hboth).2
      rcases henc : c.machine.groupEncrypt roomId aged count with ⟨machine, res⟩
      rcases groupEncrypt_cases henc with ⟨rfl, rfl⟩ | ⟨rfl, rfl⟩ | ⟨i, n, rfl, hi, hshared, rfl⟩
      · exact h
      · exact stands_create h
      · have hheld := h.held roomId i U hi (known_of_members hmembers)
        have hsame : Stands env { c with machine := c.machine.modify i fun s =>
            { s with messageCount := s.messageCount + n } } := by
          refine h.quiet ⟨by simp, fun j hj => ?_⟩ (fun _ _ hi => hi) rfl (List.Subset.refl _)
            h.basis.rooms (Caches.of_same rfl (Nat.le_refl _) fun _ _ hl => hl)
            (fun _ _ hs => Or.inl hs) rfl fun _ _ U' _ hU' => ⟨U', hU', fun _ => Iff.rfl⟩
          rcases GroupMachine.session_modify_cases c.machine i
            (fun s => { s with messageCount := s.messageCount + n }) j with heq | ⟨-, heq⟩
          · exact (congrArg (Crypto.Recorded [] (c.machine.session j)) heq).mpr (Crypto.Recorded.refl _ _)
          · exact (congrArg (Crypto.Recorded [] (c.machine.session j)) heq).mpr
              ⟨rfl, rfl, rfl, rfl, rfl, fun _ hp => Or.inl hp⟩
        exact stands_message hsame (hheld.shared hshared).2
    · exact h

/-! ### Steps -/

/-- Every action stands after its revocations. -/
theorem stands_step {action : AttachedAction} (hspare : c.sparesLookups env action = true)
    (h : Stands env c) : Stands env (c.step env action) := by
  unfold step
  split
  · exact h
  · cases action with
    | member roomId userId membership => exact stands_member h
    | lookupAnswered joined => exact stands_lookupAnswered h
    | keysQuery response => exact stands_keysQuery h
    | trust change userId deviceId => exact stands_trust h hspare
    | room roomId encrypted =>
      show Stands env (if (c.room roomId).isSome then c
        else { c.setRoom roomId ⟨c.fresh, ⟨[], [], encrypted, false⟩⟩ with fresh := c.fresh + 1 })
      split
      · exact h
      · exact @stands_rooms env c (dictSet c.rooms roomId ⟨c.fresh, ⟨[], [], encrypted, false⟩⟩) _ h
          (Unsynced.set h.basis.rooms rfl) (Nat.le_succ _)
    | encryption roomId =>
      change Stands env (act env c (.encryption roomId))
      unfold act
      dsimp only
      split
      · next o ho =>
        exact stands_rooms h (Unsynced.set h.basis.rooms (h.basis.rooms roomId o ho)) (Nat.le_refl _)
      · exact h
    | hero roomId userId => exact stands_hero h
    | resetJoinedRoom roomId encrypted => exact stands_resetJoinedRoom h
    | resetSnapshot roomId => exact stands_resetSnapshot h
    | leaveRoom roomId => exact stands_leaveRoom h
    | forgetMembers roomId => exact stands_popMembers h
    | lookup roomId =>
      show Stands env (if c.lock.isNone then c.startLookup roomId else c)
      split
      · exact stands_startLookup h
      · exact h
    | lookupRaises => exact stands_lookupRaises h
    | retain =>
      show Stands env (if c.lock.isNone && c.pending.isNone then
        { c with pending := some ⟨none, []⟩ } else c)
      split
      · exact stands_waiting h rfl rfl (Caches.of_same rfl (Nat.le_refl _) fun _ _ hl => hl) rfl
          (fun _ _ hs => Or.inl hs) fun _ _ hU => hU
      · exact h
    | pendingAnswered =>
      show Stands env (if c.finishesPending then c.deliverPending else c)
      split
      · exact stands_deliverPending h
      · exact h
    | olmSession curve25519 =>
      exact h.quiet (SameSessions.of_eq rfl) (fun _ _ hi => hi) rfl (List.subset_append_left _ _)
        h.basis.rooms (Caches.of_same rfl (Nat.le_refl _) fun _ _ hl => hl)
        (fun _ _ hs => Or.inl hs) rfl fun _ _ U' _ hU' => ⟨U', hU', fun _ => Iff.rfl⟩
    | share roomId ignoreUnverifiedDevices => exact stands_share h
    | ensureMembers roomId => exact stands_ensureMembers h
    | locked roomId => exact stands_locked h
    | sendKeys roomId => exact stands_sendKeys h
    | chunkAnswered roomId success => exact stands_chunkAnswered h
    | shareRaises roomId => exact stands_shareRaises h
    | encrypt roomId aged count => exact stands_encrypt h

theorem Attached.stands (h : c.Attached) : Stands env c := by
  have hstored : ∀ r, c.machine.stored r = none := fun r => by
    unfold GroupMachine.stored
    rw [h.outbound]
    rfl
  refine ⟨⟨fun r i hi => ?_, h.devices, fun r o ho => ?_, fun r n users hc => ?_,
    fun r previous hl => ?_, fun r s hs => ?_⟩, fun r i U hi => ?_, fun s hs => ?_⟩
  · rw [hstored] at hi
    cases hi
  · exact h.rooms (r, o) (mem_of_dictGet? ho)
  · unfold cached at hc
    rw [h.memberCache] at hc
    cases hc
  · rw [h.lock] at hl
    cases hl
  · rw [h.sharing] at hs
    cases hs
  · rw [hstored] at hi
    cases hi
  · rw [h.messages] at hs
    cases hs

end AttachedClient

/-- No message is encrypted with a session that was there before a revocation and whose key was
requested for a device that it concerns. -/
theorem revocation_attached (env : KeyQueryEnv) {c : AttachedClient} (hattached : c.Attached)
    {actions : List AttachedAction}
    (hspare : Along (AttachedClient.step env) (fun c action => c.sparesLookups env action = true) c
      actions) :
    ∀ s ∈ (run (AttachedClient.step env) c actions).messages, s.Unrevoked :=
  (run_invariant_along (P := Stands env) (fun _ _ hok h => AttachedClient.stands_step hok h) hspare
    hattached.stands).messages

namespace AttachedClient

/-- A client that has a device of Bob, and an encrypted room whose members it does not know -/
def attached : AttachedClient where
  machine := SharingClient.started.machine
  rooms := [(py "!room:x", ⟨0, ⟨[], [], true, false⟩⟩)]
  memberCache := []
  lock := none
  sharing := []
  pending := none
  disposed := false
  fresh := 1
  messages := []
  marks := []

theorem attached_attached : attached.Attached :=
  ⟨rfl, rfl, by decide +kernel, rfl, rfl, rfl, fun _ hp => (nomatch hp), rfl, rfl, by decide +kernel⟩

end AttachedClient

/-- Bob's device is blacklisted when it has the key: the next message has another session. -/
theorem revocation_attached_blacklisted :
    (run (AttachedClient.step SharingClient.aliceEnv) AttachedClient.attached
      [.share (py "!room:x") false, .ensureMembers (py "!room:x"), .lookupAnswered [py "@bob:x"],
        .locked (py "!room:x"), .sendKeys (py "!room:x"), .chunkAnswered (py "!room:x") true,
        .encrypt (py "!room:x") false true, .trust (.mark .blacklisted) (py "@bob:x") (py "BOB"),
        .share (py "!room:x") false, .ensureMembers (py "!room:x"), .locked (py "!room:x"),
        .sendKeys (py "!room:x"), .encrypt (py "!room:x") false true]).messages.length = 2 ∧
    ∀ s ∈ (run (AttachedClient.step SharingClient.aliceEnv) AttachedClient.attached
      [.share (py "!room:x") false, .ensureMembers (py "!room:x"), .lookupAnswered [py "@bob:x"],
        .locked (py "!room:x"), .sendKeys (py "!room:x"), .chunkAnswered (py "!room:x") true,
        .encrypt (py "!room:x") false true, .trust (.mark .blacklisted) (py "@bob:x") (py "BOB"),
        .share (py "!room:x") false, .ensureMembers (py "!room:x"), .locked (py "!room:x"),
        .sendKeys (py "!room:x"), .encrypt (py "!room:x") false true]).messages, s.Unrevoked :=
  ⟨by decide +kernel, @revocation_attached SharingClient.aliceEnv AttachedClient.attached
    AttachedClient.attached_attached
    [.share (py "!room:x") false, .ensureMembers (py "!room:x"), .lookupAnswered [py "@bob:x"],
      .locked (py "!room:x"), .sendKeys (py "!room:x"), .chunkAnswered (py "!room:x") true,
      .encrypt (py "!room:x") false true, .trust (.mark .blacklisted) (py "@bob:x") (py "BOB"),
      .share (py "!room:x") false, .ensureMembers (py "!room:x"), .locked (py "!room:x"),
      .sendKeys (py "!room:x"), .encrypt (py "!room:x") false true]
    ⟨by decide +kernel, by decide +kernel, by decide +kernel, by decide +kernel, by decide +kernel,
      by decide +kernel, by decide +kernel, by decide +kernel, by decide +kernel, by decide +kernel,
      by decide +kernel, by decide +kernel, by decide +kernel, trivial⟩⟩

/-- The request with Bob's key fails and is retained. Bob's device is blacklisted while the members
are looked up again; the session is kept, and the next share has nobody left to send it to. -/
theorem revocation_during_lookup :
    ¬ ∀ (env : KeyQueryEnv) (c : AttachedClient), c.Attached → ∀ actions,
      ∀ s ∈ (run (AttachedClient.step env) c actions).messages, s.Unrevoked := by
  intro h
  have hall := h SharingClient.aliceEnv AttachedClient.attached AttachedClient.attached_attached
    [.share (py "!room:x") false, .ensureMembers (py "!room:x"), .lookupAnswered [py "@bob:x"],
      .locked (py "!room:x"), .sendKeys (py "!room:x"), .chunkAnswered (py "!room:x") false,
      .lookup (py "!room:x"), .trust (.mark .blacklisted) (py "@bob:x") (py "BOB"),
      .lookupAnswered [py "@bob:x"], .share (py "!room:x") false, .ensureMembers (py "!room:x"),
      .locked (py "!room:x"), .pendingAnswered, .sendKeys (py "!room:x"),
      .encrypt (py "!room:x") false true]
  revert hall
  decide +kernel

end Nio.Durable
