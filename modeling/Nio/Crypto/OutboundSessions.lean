import Nio.Crypto.KeyQueryHistory
import Nio.Durable.Model
import Nio.Py.Dict

/-!
# Outbound group sessions

The part of the Olm machine that encrypts for a room. A session is an object: its identity is its
place in `sessions`, and the dictionary `outbound` holds the one of each room. What a share
coroutine or an answer marks can be another object than the one whose key was sent.

`requested`, `delivered` and `revocations` of a session are ghosts.

* `shareGroupSessionParallel_cases` — what the computation of the recipients can do
* `mem_recipients`, `recipients_complete` — who is a recipient
* `groupEncrypt_cases` — a message is encrypted with a shared session of the room
-/

namespace Nio.Crypto

open Nio.Py
open Nio.Lib
open Nio.Events (PyError)
open Nio.Store (TrustState Mark)
open Nio.Durable (Membership)

/-- What takes the right to read on from devices -/
inductive Revocation where
  | device (key : Str × Str)
  /-- All devices of the user -/
  | user (userId : Str)
  deriving DecidableEq

def Revocation.covers : Revocation → Str × Str → Bool
  | .device key, d => d = key
  | .user userId, d => d.1 = userId

def Revocation.userId : Revocation → Str
  | .device key => key.1
  | .user userId => userId

/-- A revocation covers devices of its own user only. -/
theorem Revocation.user_of_covers {rev : Revocation} {d : Str × Str} (h : rev.covers d = true) :
    d.1 = rev.userId := by
  cases rev with
  | device key =>
    have hd : d = key := of_decide_eq_true h
    rw [hd]
    rfl
  | user userId => exact of_decide_eq_true h

structure OutboundGroupSession where
  /-- The room that the session was created for -/
  roomId : Str
  usersSharedWith : List (Str × Str)
  usersIgnored : List (Str × Str)
  shared : Bool
  messageCount : Nat
  /-- Ghost: the devices for which the key was put in a request -/
  requested : List (Str × Str)
  /-- Ghost: those of the requests that the server answered with success -/
  delivered : List (Str × Str)
  /-- Ghost: the revocations since its creation, with what had been requested by then -/
  revocations : List (Revocation × List (Str × Str))
  deriving DecidableEq

namespace OutboundGroupSession

def new (roomId : Str) : OutboundGroupSession := ⟨roomId, [], [], false, 0, [], [], []⟩

/-- `expired`; `aged` is whether the session has reached its age. -/
def expired (s : OutboundGroupSession) (aged : Bool) : Bool := 100 ≤ s.messageCount || aged

def request (s : OutboundGroupSession) (keys : List (Str × Str)) : OutboundGroupSession :=
  { s with requested := s.requested ++ keys }

def deliver (s : OutboundGroupSession) (keys : List (Str × Str)) : OutboundGroupSession :=
  { s with delivered := s.delivered ++ keys }

/-- `users_shared_with.update` -/
def shareWith (s : OutboundGroupSession) (keys : List (Str × Str)) : OutboundGroupSession :=
  { s with usersSharedWith := s.usersSharedWith ++ keys }

/-- `users_ignored` -/
def setIgnored (ignored : List (Str × Str)) (s : OutboundGroupSession) : OutboundGroupSession :=
  { s with usersIgnored := ignored }

def markAsShared (s : OutboundGroupSession) : OutboundGroupSession := { s with shared := true }

def revoke (rev : Revocation) (s : OutboundGroupSession) : OutboundGroupSession :=
  { s with revocations := (rev, s.requested) :: s.revocations }

end OutboundGroupSession

structure GroupMachine where
  keeper : DeviceKeeper
  /-- The Curve25519 keys with an Olm session -/
  olmSessions : List Str
  /-- Every session object -/
  sessions : List OutboundGroupSession
  /-- `outbound_group_sessions` -/
  outbound : List (Str × Nat)

namespace GroupMachine

def stored (m : GroupMachine) (roomId : Str) : Option Nat := dictGet? m.outbound roomId

def session (m : GroupMachine) (i : Nat) : OutboundGroupSession := (m.sessions[i]?).getD (.new [])

def modify (m : GroupMachine) (i : Nat) (f : OutboundGroupSession → OutboundGroupSession) :
    GroupMachine :=
  { m with sessions := m.sessions.modify i f }

/-- `create_outbound_group_session` -/
def createOutboundGroupSession (m : GroupMachine) (roomId : Str) : GroupMachine × Nat :=
  ({ m with
      sessions := m.sessions ++ [.new roomId]
      outbound := dictSet m.outbound roomId m.sessions.length }, m.sessions.length)

/-- `outbound_group_sessions.pop(room_id, None)` -/
def pop (m : GroupMachine) (roomId : Str) : GroupMachine :=
  { m with outbound := dictErase m.outbound roomId }

/-- Sessions of one room, or of all, have seen a revocation. -/
def revoke (m : GroupMachine) (roomId : Option Str) (rev : Revocation) : GroupMachine :=
  { m with sessions := m.sessions.map fun s =>
      if roomId = none ∨ roomId = some s.roomId then s.revoke rev else s }

/-- `group_encrypt`, with the session of the message; `none` is `GroupEncryptionError`. -/
def groupEncrypt (m : GroupMachine) (roomId : Str) (aged count : Bool) : GroupMachine × Option Nat :=
  let (m, i) :=
    match m.stored roomId with
    | none => m.createOutboundGroupSession roomId
    | some i => if (m.session i).expired aged then m.createOutboundGroupSession roomId else (m, i)
  if (m.session i).shared then
    (m.modify i fun s => { s with messageCount := s.messageCount + if count then 1 else 0 }, some i)
  else (m, none)

/-! ### Devices -/

def isBlacklisted (m : GroupMachine) (d : OlmDevice) : Bool :=
  isMarked m.keeper.deviceKeys .blacklisted d

def hasOlmSession (m : GroupMachine) (d : OlmDevice) : Bool := d.keys.curve25519 ∈ m.olmSessions

/-- The devices of a user that a key can be sent to -/
def eligible (env : KeyQueryEnv) (m : GroupMachine) (userId : Str) : List (Str × Str) :=
  ((activeUserDevices m.keeper.deviceStore userId).filter fun d =>
    d.key ≠ (env.userId, env.deviceId) && !m.isBlacklisted d && m.hasOlmSession d).map OlmDevice.key

end GroupMachine

/-! ## Recipients -/

inductive Recipient where
  | ignored
  /-- The session was shared with the device before, or the device is ignored. -/
  | known
  | missingSession
  | unverified
  | send (markAsIgnored : Bool)

/-- What a device is to a session -/
def recipient (env : KeyQueryEnv) (m : GroupMachine) (sharedWith ignored : List (Str × Str))
    (ignoreUnverifiedDevices : Bool) (d : OlmDevice) : Recipient :=
  if d.deviceId = env.deviceId then .ignored
  else if m.isBlacklisted d then .ignored
  else if d.key ∈ sharedWith ∨ d.key ∈ ignored then .known
  else if !m.hasOlmSession d then .missingSession
  else if isMarked m.keeper.deviceKeys .verified d then .send false
  else if isMarked m.keeper.deviceKeys .ignored d then .send false
  else if ignoreUnverifiedDevices then .send true
  else .unverified

/-- The locals of the loop over the devices -/
structure Recipients where
  ignored : List (Str × Str)
  userMap : List OlmDevice
  markAsIgnored : List OlmDevice
  /-- `OlmUnverifiedDeviceError` was raised. -/
  refused : Bool

def Recipients.add (env : KeyQueryEnv) (m : GroupMachine) (sharedWith : List (Str × Str))
    (ignoreUnverifiedDevices : Bool) (rs : Recipients) (d : OlmDevice) : Recipients :=
  if rs.refused then rs
  else
    match recipient env m sharedWith rs.ignored ignoreUnverifiedDevices d with
    | .ignored => { rs with ignored := d.key :: rs.ignored }
    | .known | .missingSession => rs
    | .unverified => { rs with refused := true }
    | .send mark => { rs with
        userMap := rs.userMap ++ [d]
        markAsIgnored := if mark then rs.markAsIgnored ++ [d] else rs.markAsIgnored }

/-- The loop over the users and their devices -/
def recipients (env : KeyQueryEnv) (m : GroupMachine) (s : OutboundGroupSession) (users : List Str)
    (ignoreUnverifiedDevices : Bool) : Recipients :=
  (users.flatMap (activeUserDevices m.keeper.deviceStore)).foldl
    (Recipients.add env m s.usersSharedWith ignoreUnverifiedDevices) ⟨s.usersIgnored, [], [], false⟩

/-- `ignore_devices` of the store: every device has a row. -/
def ignoreDevices (keeper : DeviceKeeper) (devices : List OlmDevice) : Except PyError DeviceKeeper :=
  if ∀ d ∈ devices, (lookup DeviceKeys.key d.key keeper.deviceKeys).isSome then
    .ok { keeper with
      deviceStore := keeper.deviceStore.map fun d =>
        if d.key ∈ devices.map OlmDevice.key then { d with trustState := .ignored } else d
      deviceKeys := keeper.deviceKeys.map fun row =>
        if row.key ∈ devices.map OlmDevice.key then row.setTrust .ignored else row }
  else .error .assertion

/-- Slices of at most `n`; `fuel` is one for each. -/
def chunks {α : Type} (n : Nat) : Nat → List α → List (List α)
  | 0, _ => []
  | fuel + 1, xs => if xs.isEmpty then [] else xs.take n :: chunks n fuel (xs.drop n)

inductive ShareError where
  | unverified
  | assertion
  deriving DecidableEq

namespace GroupMachine

/-- The session to share: a session that is shared already is replaced. -/
def shareable (m : GroupMachine) (roomId : Str) : GroupMachine × Nat :=
  match m.stored roomId with
  | none => m.createOutboundGroupSession roomId
  | some i => if (m.session i).shared then m.createOutboundGroupSession roomId else (m, i)

/-- `share_group_session_parallel` up to its first request: the session and the recipients of each
request, of at most `_maxToDeviceMessagesPerRequest` devices -/
def shareGroupSessionParallel (env : KeyQueryEnv) (m : GroupMachine) (roomId : Str)
    (users : List Str) (ignoreUnverifiedDevices : Bool) :
    GroupMachine × Except ShareError (Nat × List (List (Str × Str))) :=
  let (m, i) := m.shareable roomId
  let rs := recipients env m (m.session i) users ignoreUnverifiedDevices
  let m := m.modify i (.setIgnored rs.ignored)
  if rs.refused then (m, .error .unverified)
  else
    match ignoreDevices m.keeper rs.markAsIgnored with
    | .error _ => (m, .error .assertion)
    | .ok keeper =>
      ({ m with keeper }, .ok (i, chunks 20 rs.userMap.length (rs.userMap.map OlmDevice.key)))

end GroupMachine

/-! ## Trust -/

/-- `verify_device` and the other trust changes of a client -/
inductive TrustChange where
  | mark (m : Mark)
  | unmark (m : Mark)
  deriving DecidableEq

namespace TrustChange

/-- The change of the device, and whether there was one -/
def apply (change : TrustChange) (keeper : DeviceKeeper) (userId deviceId : Str) :
    Except PyError (DeviceKeeper × Bool) :=
  match lookup OlmDevice.key (userId, deviceId) keeper.deviceStore with
  | none => .error .key
  | some d =>
    match change with
    | .mark m => (changeTrust (fun rows d => markDevice rows m d) keeper userId deviceId).map
        (·, !isMarked keeper.deviceKeys m d)
    | .unmark m => (changeTrust (fun rows d => unmarkDevice rows m d) keeper userId deviceId).map
        (·, isMarked keeper.deviceKeys m d)

/-- A device that is blacklisted or unverified is not to read on. -/
def revokes : TrustChange → Bool
  | .mark m => m = .blacklisted
  | .unmark m => m = .verified

end TrustChange

/-! ## Rooms -/

structure GroupRoom where
  users : List Str
  invitedUsers : List Str
  encrypted : Bool
  membersSynced : Bool
  deriving DecidableEq

/-- `MatrixRoom.handle_membership`, and whether the members have changed -/
def GroupRoom.handleMembership (room : GroupRoom) (userId : Str) (m : Membership) :
    GroupRoom × Bool :=
  match m with
  | .join | .invite =>
    if userId ∉ room.users ∨ m = .invite ∧ userId ∉ room.invitedUsers then
      -- `add_member`
      if userId ∈ room.users then (room, false)
      else ({ room with
        users := room.users ++ [userId]
        invitedUsers := if m = .invite then room.invitedUsers ++ [userId] else room.invitedUsers },
        true)
    else
      ({ room with invitedUsers :=
        if m = .join then room.invitedUsers.filter (· ≠ userId) else room.invitedUsers }, false)
  | .leave | .ban =>
    ({ room with
        users := room.users.filter (· ≠ userId)
        invitedUsers := room.invitedUsers.filter (· ≠ userId) },
      userId ∈ room.users || userId ∈ room.invitedUsers)
  | .knock => (room, false)

/-- `_handle_joined_members`: members that are not joined are removed, unless they are invited. -/
def GroupRoom.handleJoinedMembers (room : GroupRoom) (joined : List Str) : GroupRoom :=
  { room with
    users := (room.users.filter fun u => u ∈ room.invitedUsers || u ∈ joined) ++
      joined.filter (· ∉ room.users)
    membersSynced := true }

/-! ## Sessions and their dictionary -/

namespace GroupMachine

variable {m : GroupMachine} {i j : Nat} {r r' : Str}

@[simp] theorem stored_modify (m : GroupMachine) (i : Nat)
    (f : OutboundGroupSession → OutboundGroupSession) (r : Str) :
    (m.modify i f).stored r = m.stored r := rfl

theorem stored_pop (m : GroupMachine) (r r' : Str) :
    (m.pop r).stored r' = if r' = r then none else m.stored r' := dictGet?_dictErase m.outbound r r'

theorem stored_create (m : GroupMachine) (r r' : Str) :
    (m.createOutboundGroupSession r).1.stored r' =
      if r' = r then some m.sessions.length else m.stored r' :=
  dictGet?_dictSet m.outbound r r' m.sessions.length

/-- Changing one session leaves the others, -/
theorem session_modify (m : GroupMachine) (i : Nat)
    (f : OutboundGroupSession → OutboundGroupSession) (j : Nat) (hi : i < m.sessions.length) :
    (m.modify i f).session j = if j = i then f (m.session j) else m.session j := by
  unfold session modify
  dsimp only
  rw [List.getElem?_modify]
  by_cases h : i = j
  · subst h
    simp [hi]
  · simp [h, Ne.symm h]

/-- A session is changed, or stays as it is. -/
theorem session_modify_cases (m : GroupMachine) (i : Nat)
    (f : OutboundGroupSession → OutboundGroupSession) (j : Nat) :
    (m.modify i f).session j = m.session j ∨ j = i ∧ (m.modify i f).session j = f (m.session j) := by
  by_cases hi : i < m.sessions.length
  · rw [session_modify m i f j hi]
    split
    · next hj => exact Or.inr ⟨hj, rfl⟩
    · exact Or.inl rfl
  · left
    unfold session modify
    dsimp only
    rw [List.modify_eq_self (Nat.le_of_not_lt hi)]

/-- and so does a new one. -/
theorem session_create (m : GroupMachine) (r : Str) (i : Nat) (hi : i < m.sessions.length) :
    (m.createOutboundGroupSession r).1.session i = m.session i := by
  show (((m.sessions ++ [_])[i]?).getD _) = _
  rw [List.getElem?_append_left hi]
  rfl

theorem session_create_new (m : GroupMachine) (r : Str) :
    (m.createOutboundGroupSession r).1.session m.sessions.length = .new r := by
  show (((m.sessions ++ [_])[m.sessions.length]?).getD _) = _
  simp

/-- A revocation reaches the sessions of its room, or all of them. -/
theorem session_revoke (m : GroupMachine) (scope : Option Str) (rev : Revocation) {i : Nat}
    (hi : i < m.sessions.length) :
    (m.revoke scope rev).session i =
      if scope = none ∨ scope = some (m.session i).roomId then (m.session i).revoke rev
      else m.session i := by
  have hget : m.sessions[i]? = some (m.session i) := by
    unfold session
    rw [List.getElem?_eq_getElem hi]
    rfl
  show (((m.sessions.map _)[i]?).getD _) = _
  rw [List.getElem?_map, hget]
  rfl

@[simp] theorem length_modify (m : GroupMachine) (i : Nat)
    (f : OutboundGroupSession → OutboundGroupSession) :
    (m.modify i f).sessions.length = m.sessions.length := List.length_modify f m.sessions i

@[simp] theorem length_revoke (m : GroupMachine) (scope : Option Str) (rev : Revocation) :
    (m.revoke scope rev).sessions.length = m.sessions.length := List.length_map _

theorem length_create (m : GroupMachine) (r : Str) :
    (m.createOutboundGroupSession r).1.sessions.length = m.sessions.length + 1 := by
  show (m.sessions ++ [_]).length = _
  rw [List.length_append]
  rfl

/-- The dictionary holds sessions of the rooms under which they stand. -/
def WellFormed (m : GroupMachine) : Prop :=
  ∀ r i, m.stored r = some i → i < m.sessions.length ∧ (m.session i).roomId = r

/-- No two rooms have the same session. -/
theorem WellFormed.injective (h : m.WellFormed) (hr : m.stored r = some i)
    (hr' : m.stored r' = some i) : r = r' :=
  (h r i hr).2.symm.trans (h r' i hr').2

/-- A change that keeps the room keeps the machine well formed. -/
theorem WellFormed.modify (h : m.WellFormed) (i : Nat)
    {f : OutboundGroupSession → OutboundGroupSession} (hf : ∀ s, (f s).roomId = s.roomId) :
    (m.modify i f).WellFormed := by
  intro r j hj
  obtain ⟨hlt, hroom⟩ := h r j hj
  refine ⟨by rw [length_modify]; exact hlt, ?_⟩
  by_cases hi : i < m.sessions.length
  · rw [session_modify m i f j hi]
    split
    · rw [hf, hroom]
    · exact hroom
  · have hsame : m.modify i f = m := by
      unfold GroupMachine.modify
      rw [List.modify_eq_self (Nat.le_of_not_lt hi)]
    rw [hsame, hroom]

/-- A new session keeps the machine well formed. -/
theorem WellFormed.create (h : m.WellFormed) (r : Str) :
    (m.createOutboundGroupSession r).1.WellFormed := by
  intro r' i hi
  rw [stored_create] at hi
  rw [length_create]
  split at hi
  · next hr =>
    cases hi
    refine ⟨Nat.lt_succ_self _, ?_⟩
    rw [session_create_new, hr]
    rfl
  · obtain ⟨hlt, hroom⟩ := h r' i hi
    refine ⟨Nat.lt_succ_of_lt hlt, ?_⟩
    rw [session_create m r i hlt, hroom]

/-- So does a revocation. -/
theorem WellFormed.revoke (h : m.WellFormed) (scope : Option Str) (rev : Revocation) :
    (m.revoke scope rev).WellFormed := by
  intro r i hi
  obtain ⟨hlt, hroom⟩ := h r i hi
  refine ⟨by rw [length_revoke]; exact hlt, ?_⟩
  rw [session_revoke m scope rev hlt]
  split
  · exact hroom
  · exact hroom

end GroupMachine

/-! ## Who is a recipient -/

/-- What the test of a device has found -/
def Recipient.Means (env : KeyQueryEnv) (m : GroupMachine) (sharedWith ignored : List (Str × Str))
    (d : OlmDevice) : Recipient → Prop
  | .ignored => d.deviceId = env.deviceId ∨ m.isBlacklisted d = true
  | .known => d.key ∈ sharedWith ∨ d.key ∈ ignored
  | .missingSession => m.hasOlmSession d = false
  | .unverified => True
  | .send _ => d.deviceId ≠ env.deviceId ∧ m.isBlacklisted d = false ∧ d.key ∉ sharedWith ∧
      d.key ∉ ignored ∧ m.hasOlmSession d = true

/-- The choice of `should_share` says what it does with the device. -/
theorem recipient_means (env : KeyQueryEnv) (m : GroupMachine) (sharedWith ignored : List (Str × Str))
    (ignoreUnverifiedDevices : Bool) (d : OlmDevice) :
    (recipient env m sharedWith ignored ignoreUnverifiedDevices d).Means env m sharedWith ignored d := by
  unfold recipient
  split
  · next hown => exact Or.inl hown
  · next hown =>
    split
    · next hblack => exact Or.inr hblack
    · next hblack =>
      split
      · next hknown => exact hknown
      · next hknown =>
        have hkeys := not_or.mp hknown
        cases holm : m.hasOlmSession d with
        | false => exact holm
        | true =>
          have hsend : ∀ mark, (Recipient.send mark).Means env m sharedWith ignored d := fun _ =>
            ⟨hown, by simpa using hblack, hkeys.1, hkeys.2, holm⟩
          rw [if_neg (by simp)]
          split
          · exact hsend false
          · split
            · exact hsend false
            · split
              · exact hsend true
              · trivial

/-- What the loop over the devices has gathered -/
structure Gathered (env : KeyQueryEnv) (m : GroupMachine) (sharedWith : List (Str × Str))
    (start : List (Str × Str)) (devices : List OlmDevice) (rs : Recipients) : Prop where
  userMap : ∀ d ∈ rs.userMap, d ∈ devices ∧ d.deviceId ≠ env.deviceId ∧ m.isBlacklisted d = false ∧
    d.key ∉ sharedWith ∧ d.key ∉ start ∧ m.hasOlmSession d = true
  markAsIgnored : ∀ d ∈ rs.markAsIgnored, d ∈ rs.userMap
  ignored : ∀ k ∈ rs.ignored, k ∈ start ∨ ∃ d ∈ devices, d.key = k ∧
    (d.deviceId = env.deviceId ∨ m.isBlacklisted d = true)
  start : start ⊆ rs.ignored
  complete : rs.refused = false → ∀ d ∈ devices, m.hasOlmSession d = true →
    d.key ∈ sharedWith ∨ d.key ∈ rs.ignored ∨ d ∈ rs.userMap

/-- The loop goes over the devices one by one. -/
theorem gathered_foldl (env : KeyQueryEnv) (m : GroupMachine) (sharedWith start : List (Str × Str))
    (ignoreUnverifiedDevices : Bool) (devices : List OlmDevice) :
    Gathered env m sharedWith start devices
      (devices.foldl (Recipients.add env m sharedWith ignoreUnverifiedDevices)
        ⟨start, [], [], false⟩) := by
  induction devices using List.reverseRecOn with
  | nil => exact ⟨by simp, by simp, fun k hk => Or.inl hk, fun k hk => hk, by simp⟩
  | append_singleton devices d ih =>
    rw [List.foldl_concat]
    generalize devices.foldl (Recipients.add env m sharedWith ignoreUnverifiedDevices)
      ⟨start, [], [], false⟩ = rs at ih
    have hmem : ∀ d' ∈ devices, d' ∈ devices ++ [d] := fun d' hd' => List.mem_append_left _ hd'
    have hd : d ∈ devices ++ [d] := by simp
    have hold : ∀ d' ∈ rs.userMap, d' ∈ devices ++ [d] ∧ d'.deviceId ≠ env.deviceId ∧
        m.isBlacklisted d' = false ∧ d'.key ∉ sharedWith ∧ d'.key ∉ start ∧
        m.hasOlmSession d' = true := fun d' hd' =>
      ⟨hmem d' (ih.userMap d' hd').1, (ih.userMap d' hd').2⟩
    have hignored : ∀ k ∈ rs.ignored, k ∈ start ∨ ∃ d' ∈ devices ++ [d], d'.key = k ∧
        (d'.deviceId = env.deviceId ∨ m.isBlacklisted d' = true) := by
      intro k hk
      rcases ih.ignored k hk with h | ⟨d', hd', h⟩
      · exact Or.inl h
      · exact Or.inr ⟨d', hmem d' hd', h⟩
    -- what is left to say of the new device
    have hcomplete : ∀ rs' : Recipients, rs.ignored ⊆ rs'.ignored → rs.userMap ⊆ rs'.userMap →
        rs.refused = false → (m.hasOlmSession d = true →
          d.key ∈ sharedWith ∨ d.key ∈ rs'.ignored ∨ d ∈ rs'.userMap) →
        ∀ d' ∈ devices ++ [d], m.hasOlmSession d' = true →
          d'.key ∈ sharedWith ∨ d'.key ∈ rs'.ignored ∨ d' ∈ rs'.userMap := by
      intro rs' hsub hmap hrefused hlast d' hd' holm
      rcases List.mem_append.mp hd' with hd' | hd'
      · rcases ih.complete hrefused d' hd' holm with h | h | h
        · exact Or.inl h
        · exact Or.inr (Or.inl (hsub h))
        · exact Or.inr (Or.inr (hmap h))
      · rw [List.mem_singleton.mp hd'] at holm ⊢
        exact hlast holm
    unfold Recipients.add
    split
    · next hrefused =>
      refine ⟨hold, ih.markAsIgnored, hignored, ih.start, fun h => ?_⟩
      rw [hrefused] at h
      cases h
    · next hrefused =>
      have hrefused : rs.refused = false := by simpa using hrefused
      have hmeans := recipient_means env m sharedWith rs.ignored ignoreUnverifiedDevices d
      cases hr : recipient env m sharedWith rs.ignored ignoreUnverifiedDevices d with
      | ignored =>
        rw [hr] at hmeans
        refine ⟨hold, ih.markAsIgnored, fun k hk => ?_, fun k hk => List.mem_cons_of_mem _ (ih.start hk),
          fun _ => hcomplete _ (List.subset_cons_self _ _) (fun _ h => h) hrefused fun _ => ?_⟩
        · rcases List.mem_cons.mp hk with rfl | hk
          · exact Or.inr ⟨d, hd, rfl, hmeans⟩
          · exact hignored k hk
        · exact Or.inr (Or.inl List.mem_cons_self)
      | known =>
        rw [hr] at hmeans
        refine ⟨hold, ih.markAsIgnored, hignored, ih.start,
          fun _ => hcomplete _ (fun _ h => h) (fun _ h => h) hrefused fun _ => ?_⟩
        rcases hmeans with h | h
        · exact Or.inl h
        · exact Or.inr (Or.inl h)
      | missingSession =>
        rw [hr] at hmeans
        refine ⟨hold, ih.markAsIgnored, hignored, ih.start,
          fun _ => hcomplete _ (fun _ h => h) (fun _ h => h) hrefused fun holm => ?_⟩
        rw [(hmeans : m.hasOlmSession d = false)] at holm
        cases holm
      | unverified => exact ⟨hold, ih.markAsIgnored, hignored, ih.start, fun h => by cases h⟩
      | send mark =>
        rw [hr] at hmeans
        obtain ⟨hown, hblack, hshared, hig, holm⟩ := hmeans
        refine ⟨fun d' hd' => ?_, fun d' hd' => ?_, hignored, ih.start,
          fun _ => hcomplete _ (fun _ h => h) (List.subset_append_left _ _) hrefused fun _ => ?_⟩
        · rcases List.mem_append.mp hd' with hd' | hd'
          · exact hold d' hd'
          · rw [List.mem_singleton.mp hd']
            exact ⟨hd, hown, hblack, hshared, fun h => hig (ih.start h), holm⟩
        · cases mark with
          | false => exact List.mem_append_left _ (ih.markAsIgnored d' hd')
          | true =>
            rcases List.mem_append.mp hd' with hd' | hd'
            · exact List.mem_append_left _ (ih.markAsIgnored d' hd')
            · exact List.mem_append_right _ hd'
        · exact Or.inr (Or.inr (by simp))

/-- All recipients are gathered from the active devices of the users. -/
theorem gathered_recipients (env : KeyQueryEnv) (m : GroupMachine) (s : OutboundGroupSession)
    (users : List Str) (ignoreUnverifiedDevices : Bool) :
    Gathered env m s.usersSharedWith s.usersIgnored
      (users.flatMap (activeUserDevices m.keeper.deviceStore))
      (recipients env m s users ignoreUnverifiedDevices) :=
  gathered_foldl env m s.usersSharedWith s.usersIgnored ignoreUnverifiedDevices _

/-- The parts of the parallel loop make up the list. -/
theorem chunks_flatten {α : Type} {n : Nat} (hn : 0 < n) {fuel : Nat} {xs : List α}
    (h : xs.length ≤ fuel) : (chunks n fuel xs).flatten = xs := by
  induction fuel generalizing xs with
  | zero =>
    have hnil : xs = [] := List.length_eq_zero_iff.mp (Nat.le_zero.mp h)
    rw [hnil]
    rfl
  | succ fuel ih =>
    unfold chunks
    cases xs with
    | nil => rfl
    | cons x xs =>
      have hlen : ((x :: xs).drop n).length ≤ fuel := by
        rw [List.length_drop]
        simp only [List.length_cons] at h ⊢
        omega
      show ((x :: xs).take n :: chunks n fuel ((x :: xs).drop n)).flatten = _
      rw [List.flatten_cons, ih hlen, List.take_append_drop]

/-- The active devices are those of the user that are not deleted. -/
theorem mem_activeUserDevices {store : List OlmDevice} {u : Str} {d : OlmDevice} :
    d ∈ activeUserDevices store u ↔ d ∈ store ∧ d.userId = u ∧ d.deleted = false := by
  simp [activeUserDevices]

namespace GroupMachine

variable {env : KeyQueryEnv} {m m' : GroupMachine} {r u : Str}

/-- A device is eligible if it is active, foreign, not blacklisted and has an Olm session. -/
theorem mem_eligible {k : Str × Str} :
    k ∈ m.eligible env u ↔ ∃ d, d ∈ m.keeper.deviceStore ∧ d.userId = u ∧ d.deleted = false ∧
      d.key = k ∧ k ≠ (env.userId, env.deviceId) ∧ m.isBlacklisted d = false ∧
      m.hasOlmSession d = true := by
  unfold eligible
  simp only [List.mem_map, List.mem_filter, mem_activeUserDevices]
  constructor
  · rintro ⟨d, ⟨⟨hd, hu, hdel⟩, hp⟩, rfl⟩
    simp only [Bool.and_eq_true, decide_eq_true_eq, Bool.not_eq_true'] at hp
    exact ⟨d, hd, hu, hdel, rfl, hp.1.1, hp.1.2, hp.2⟩
  · rintro ⟨d, hd, hu, hdel, rfl, hown, hblack, holm⟩
    exact ⟨d, ⟨⟨hd, hu, hdel⟩, by simp [hown, hblack, holm]⟩, rfl⟩

/-- Eligibility depends on the devices and the Olm sessions only. -/
theorem eligible_congr (hkeeper : m'.keeper = m.keeper) (holm : m'.olmSessions = m.olmSessions)
    (u : Str) : m'.eligible env u = m.eligible env u := by
  cases m
  cases m'
  cases hkeeper
  cases holm
  rfl

/-- The session to share is a new one, or the room's own that is not shared yet. -/
theorem shareable_cases (m : GroupMachine) (r : Str) :
    (m.shareable r = m.createOutboundGroupSession r ∧
      ∀ i, m.stored r = some i → (m.session i).shared = true) ∨
    ∃ i, m.shareable r = (m, i) ∧ m.stored r = some i ∧ (m.session i).shared = false := by
  unfold shareable
  cases hs : m.stored r with
  | none => exact Or.inl ⟨rfl, by simp⟩
  | some i =>
    cases hshared : (m.session i).shared with
    | true =>
      refine Or.inl ⟨by simp [hshared], fun j hj => ?_⟩
      cases hj
      exact hshared
    | false => exact Or.inr ⟨i, by simp [hshared], rfl, hshared⟩

/-- Making a session to share changes neither. -/
theorem shareable_keeper (m : GroupMachine) (r : Str) :
    (m.shareable r).1.keeper = m.keeper ∧ (m.shareable r).1.olmSessions = m.olmSessions := by
  rcases shareable_cases m r with ⟨h, -⟩ | ⟨i, h, -⟩ <;> rw [h] <;> exact ⟨rfl, rfl⟩

theorem stored_shareable (m : GroupMachine) (r : Str) :
    (m.shareable r).1.stored r = some (m.shareable r).2 := by
  rcases shareable_cases m r with ⟨h, -⟩ | ⟨i, h, hs, -⟩
  · rw [h, stored_create, if_pos rfl]
    rfl
  · rw [h]
    exact hs

/-- It keeps the machine well formed. -/
theorem WellFormed.shareable (h : m.WellFormed) (r : Str) : (m.shareable r).1.WellFormed := by
  rcases shareable_cases m r with ⟨hs, -⟩ | ⟨i, hs, -⟩
  · rw [hs]
    exact h.create r
  · rw [hs]
    exact h

end GroupMachine

/-- Ignoring devices sets their trust and nothing else. -/
theorem ignoreDevices_eq {keeper keeper' : DeviceKeeper} {devices : List OlmDevice}
    (h : ignoreDevices keeper devices = .ok keeper') :
    keeper' = { keeper with
      deviceStore := keeper.deviceStore.map fun d =>
        if d.key ∈ devices.map OlmDevice.key then { d with trustState := .ignored } else d
      deviceKeys := keeper.deviceKeys.map fun row =>
        if row.key ∈ devices.map OlmDevice.key then row.setTrust .ignored else row } := by
  unfold ignoreDevices at h
  split at h
  · exact (Except.ok.inj h).symm
  · cases h

/-- No device comes or goes. -/
theorem keys_ignoreDevices {keeper keeper' : DeviceKeeper} {devices : List OlmDevice}
    (h : ignoreDevices keeper devices = .ok keeper') :
    keeper'.deviceStore.map OlmDevice.key = keeper.deviceStore.map OlmDevice.key := by
  rw [ignoreDevices_eq h]
  dsimp only
  rw [List.map_map]
  refine List.map_congr_left fun d _ => ?_
  rw [Function.comp_apply]
  split
  · rfl
  · rfl

theorem lookup_setIgnored (rows : List DeviceKeys) (keys : List (Str × Str)) (k : Str × Str) :
    lookup DeviceKeys.key k (rows.map fun row =>
      if row.key ∈ keys then row.setTrust .ignored else row) =
      (lookup DeviceKeys.key k rows).map fun row =>
        if row.key ∈ keys then row.setTrust .ignored else row := by
  refine lookup_map (fun row => ?_) k rows
  split
  · rfl
  · rfl

/-- Devices that are ignored from now on were not blacklisted; so nothing changes in who is eligible. -/
theorem eligible_ignoreDevices {env : KeyQueryEnv} {m : GroupMachine} {keeper : DeviceKeeper}
    {devices : List OlmDevice} (h : ignoreDevices m.keeper devices = .ok keeper)
    (hnot : ∀ d ∈ devices, m.isBlacklisted d = false) (u : Str) (k : Str × Str) :
    k ∈ ({ m with keeper } : GroupMachine).eligible env u ↔ k ∈ m.eligible env u := by
  have hk := ignoreDevices_eq h
  have hblack : ∀ d : OlmDevice, isMarked keeper.deviceKeys .blacklisted d =
      isMarked m.keeper.deviceKeys .blacklisted d := by
    intro d
    unfold isMarked
    rw [hk]
    dsimp only
    rw [lookup_setIgnored]
    cases hrow : lookup DeviceKeys.key d.key m.keeper.deviceKeys with
    | none => rfl
    | some row =>
      rw [Option.map_some, Option.any_some, Option.any_some]
      split
      · next hmem =>
        obtain ⟨d', hd', hkey⟩ := List.mem_map.mp hmem
        have hd'' := hnot d' hd'
        unfold GroupMachine.isBlacklisted isMarked at hd''
        rw [hkey, key_of_lookup hrow, hrow, Option.any_some] at hd''
        rw [hd'']
        rfl
      · rfl
  rw [GroupMachine.mem_eligible, GroupMachine.mem_eligible]
  unfold GroupMachine.isBlacklisted GroupMachine.hasOlmSession
  dsimp only
  constructor
  · rintro ⟨d, hd, hu, hdel, hkey, hown, hb, holm⟩
    rw [hk] at hd
    obtain ⟨d₀, hd₀, rfl⟩ := List.mem_map.mp hd
    refine ⟨d₀, hd₀, ?_⟩
    rw [hblack] at hb
    by_cases hmem : d₀.key ∈ devices.map OlmDevice.key
    · rw [if_pos hmem] at hu hdel hkey hb holm
      exact ⟨hu, hdel, hkey, hown, hb, holm⟩
    · rw [if_neg hmem] at hu hdel hkey hb holm
      exact ⟨hu, hdel, hkey, hown, hb, holm⟩
  · rintro ⟨d, hd, hu, hdel, hkey, hown, hb, holm⟩
    refine ⟨if d.key ∈ devices.map OlmDevice.key then { d with trustState := .ignored } else d, ?_, ?_⟩
    · rw [hk]
      exact List.mem_map_of_mem hd
    · rw [hblack]
      split <;> exact ⟨hu, hdel, hkey, hown, hb, holm⟩

/-- The machine after the recipients of a session were computed -/
structure Computed (env : KeyQueryEnv) (m m' : GroupMachine) (roomId : Str) (i : Nat)
    (ignored : List (Str × Str)) : Prop where
  session : i = (m.shareable roomId).2
  sessions : m'.sessions = ((m.shareable roomId).1.modify i (.setIgnored ignored)).sessions
  outbound : m'.outbound = (m.shareable roomId).1.outbound
  olmSessions : m'.olmSessions = m.olmSessions
  grows : ((m.shareable roomId).1.session i).usersIgnored ⊆ ignored
  ignored : ∀ k ∈ ignored, k ∈ ((m.shareable roomId).1.session i).usersIgnored ∨
    k.2 = env.deviceId ∨ ∃ d ∈ m.keeper.deviceStore, d.key = k ∧ m.isBlacklisted d = true
  eligible : ∀ u k, k ∈ m'.eligible env u ↔ k ∈ m.eligible env u
  devices : m'.keeper.deviceStore.map OlmDevice.key = m.keeper.deviceStore.map OlmDevice.key

/-- The recipients of a session: of all devices that a key can be sent to, those that do not have it
and are not ignored -/
structure Chosen (env : KeyQueryEnv) (m : GroupMachine) (s : OutboundGroupSession) (users : List Str)
    (ignored keys : List (Str × Str)) : Prop where
  eligible : ∀ k ∈ keys, k.1 ∈ users ∧ k ∈ m.eligible env k.1
  fresh : ∀ k ∈ keys, k ∉ s.usersSharedWith ∧ k ∉ s.usersIgnored ∧ k.2 ≠ env.deviceId
  complete : ∀ u ∈ users, ∀ k ∈ m.eligible env u, k ∈ s.usersSharedWith ∨ k ∈ ignored ∨ k ∈ keys

/-- What the parallel share computes, and what it returns when it succeeds -/
theorem shareGroupSessionParallel_cases {env : KeyQueryEnv} {m m' : GroupMachine} {r : Str}
    {users : List Str} {ign : Bool} {res : Except ShareError (Nat × List (List (Str × Str)))}
    (h : m.shareGroupSessionParallel env r users ign = (m', res)) :
    ∃ i ignored, Computed env m m' r i ignored ∧ ∀ j parts, res = .ok (j, parts) → j = i ∧
      Chosen env m ((m.shareable r).1.session i) users ignored parts.flatten := by
  obtain ⟨hkeeper, holm⟩ := m.shareable_keeper r
  have hblack : ∀ d, (m.shareable r).1.isBlacklisted d = m.isBlacklisted d := fun d => by
    unfold GroupMachine.isBlacklisted
    rw [hkeeper]
  have hhas : ∀ d, (m.shareable r).1.hasOlmSession d = m.hasOlmSession d := fun d => by
    unfold GroupMachine.hasOlmSession
    rw [holm]
  unfold GroupMachine.shareGroupSessionParallel at h
  rcases hshare : m.shareable r with ⟨m₁, i⟩
  rw [hshare] at h hkeeper holm hblack hhas
  dsimp only at h hkeeper holm hblack hhas
  have hg := gathered_recipients env m₁ (m₁.session i) users ign
  generalize recipients env m₁ (m₁.session i) users ign = rs at h hg
  have hsame : ∀ keeper : DeviceKeeper, keeper = m.keeper → ∀ u k,
      k ∈ ({ m₁.modify i (.setIgnored rs.ignored) with keeper } : GroupMachine).eligible env u ↔
        k ∈ m.eligible env u := by
    intro keeper hk u k
    exact iff_of_eq (congrArg (k ∈ ·) (@GroupMachine.eligible_congr env m
      { m₁.modify i (.setIgnored rs.ignored) with keeper } hk holm u))
  have hignored : ∀ k ∈ rs.ignored, k ∈ (m₁.session i).usersIgnored ∨ k.2 = env.deviceId ∨
      ∃ d ∈ m.keeper.deviceStore, d.key = k ∧ m.isBlacklisted d = true := by
    intro k hk
    rcases hg.ignored k hk with hin | ⟨d, hd, rfl, hown | hb⟩
    · exact Or.inl hin
    · exact Or.inr (Or.inl hown)
    · refine Or.inr (Or.inr ⟨d, ?_, rfl, by rw [← hblack]; exact hb⟩)
      obtain ⟨u, -, hactive⟩ := List.mem_flatMap.mp hd
      rw [← hkeeper]
      exact (mem_activeUserDevices.mp hactive).1
  have hcomputed : ∀ keeper : DeviceKeeper, (∀ u k,
      k ∈ ({ m₁.modify i (.setIgnored rs.ignored) with keeper } : GroupMachine).eligible env u ↔
        k ∈ m.eligible env u) →
      keeper.deviceStore.map OlmDevice.key = m.keeper.deviceStore.map OlmDevice.key →
      Computed env m { m₁.modify i (.setIgnored rs.ignored) with keeper } r i rs.ignored := by
    intro keeper helig hkeys
    refine ⟨by rw [hshare], by rw [hshare], by rw [hshare]; rfl, holm, ?_, ?_, helig, hkeys⟩
    · rw [hshare]
      exact hg.start
    · rw [hshare]
      exact hignored
  split at h
  · cases h
    refine ⟨i, rs.ignored, hcomputed m₁.keeper (hsame m₁.keeper hkeeper) (by rw [hkeeper]),
      fun j parts hj => ?_⟩
    cases hj
  · next hrefused =>
    have hrefused : rs.refused = false := by simpa using hrefused
    split at h
    · cases h
      refine ⟨i, rs.ignored, hcomputed m₁.keeper (hsame m₁.keeper hkeeper) (by rw [hkeeper]),
        fun j parts hj => ?_⟩
      cases hj
    · next keeper hkeep =>
      cases h
      have hnot : ∀ d ∈ rs.markAsIgnored, m₁.isBlacklisted d = false := fun d hd =>
        (hg.userMap d (hg.markAsIgnored d hd)).2.2.1
      have helig : ∀ u k,
          k ∈ ({ m₁.modify i (.setIgnored rs.ignored) with keeper } : GroupMachine).eligible env u ↔
            k ∈ m.eligible env u := by
        intro u k
        have hmark := @eligible_ignoreDevices env (m₁.modify i (.setIgnored rs.ignored)) _ _ hkeep
          hnot u k
        exact hmark.trans (hsame m₁.keeper hkeeper u k)
      have hkeys : keeper.deviceStore.map OlmDevice.key = m.keeper.deviceStore.map OlmDevice.key :=
        (keys_ignoreDevices hkeep).trans (by rw [← hkeeper]; rfl)
      refine ⟨i, rs.ignored, hcomputed keeper helig hkeys, fun j parts hj => ?_⟩
      cases hj
      refine ⟨rfl, ?_⟩
      rw [chunks_flatten (by decide) (by rw [List.length_map])]
      refine ⟨fun k hk => ?_, fun k hk => ?_, fun u hu k hk => ?_⟩
      · obtain ⟨d, hd, rfl⟩ := List.mem_map.mp hk
        obtain ⟨hdev, hown, hb, -, -, hsession⟩ := hg.userMap d hd
        obtain ⟨u, hu, hactive⟩ := List.mem_flatMap.mp hdev
        obtain ⟨hstore, huser, hdel⟩ := mem_activeUserDevices.mp hactive
        refine ⟨by rw [show d.key.1 = u from huser]; exact hu, ?_⟩
        refine GroupMachine.mem_eligible.mpr ⟨d, by rw [← hkeeper]; exact hstore, rfl, hdel, rfl,
          fun he => hown (congrArg Prod.snd he), by rw [← hblack]; exact hb, by rw [← hhas]; exact hsession⟩
      · obtain ⟨d, hd, rfl⟩ := List.mem_map.mp hk
        obtain ⟨-, hown, -, hshared, hig, -⟩ := hg.userMap d hd
        exact ⟨hshared, hig, hown⟩
      · obtain ⟨d, hd, huser, hdel, rfl, -, -, hsession⟩ := GroupMachine.mem_eligible.mp hk
        have hdev : d ∈ users.flatMap (activeUserDevices m₁.keeper.deviceStore) :=
          List.mem_flatMap.mpr ⟨u, hu, mem_activeUserDevices.mpr ⟨by rw [hkeeper]; exact hd, huser, hdel⟩⟩
        rcases hg.complete hrefused d hdev (by rw [hhas]; exact hsession) with hc | hc | hc
        · exact Or.inl hc
        · exact Or.inr (Or.inl hc)
        · exact Or.inr (Or.inr (List.mem_map_of_mem hc))

/-- A message is encrypted with the shared session of the room; a session is created otherwise, or
before its time. -/
theorem groupEncrypt_cases {m m' : GroupMachine} {r : Str} {aged count : Bool} {res : Option Nat}
    (h : m.groupEncrypt r aged count = (m', res)) :
    (res = none ∧ m' = m) ∨
    (res = none ∧ m' = (m.createOutboundGroupSession r).1) ∨
    ∃ i n, res = some i ∧ m.stored r = some i ∧ (m.session i).shared = true ∧
      m' = m.modify i fun s => { s with messageCount := s.messageCount + n } := by
  have hnew : ((m.createOutboundGroupSession r).1.session m.sessions.length).shared = false := by
    rw [GroupMachine.session_create_new]
    rfl
  unfold GroupMachine.groupEncrypt at h
  cases hs : m.stored r with
  | none =>
    rw [hs] at h
    dsimp only at h
    rw [show (m.createOutboundGroupSession r).2 = m.sessions.length from rfl, hnew,
      if_neg Bool.false_ne_true] at h
    cases h
    exact Or.inr (Or.inl ⟨rfl, rfl⟩)
  | some i =>
    rw [hs] at h
    dsimp only at h
    split at h
    · rw [show (m.createOutboundGroupSession r).2 = m.sessions.length from rfl, hnew,
        if_neg Bool.false_ne_true] at h
      cases h
      exact Or.inr (Or.inl ⟨rfl, rfl⟩)
    · split at h
      · next hshared =>
        cases h
        exact Or.inr (Or.inr ⟨i, _, rfl, rfl, hshared, rfl⟩)
      · cases h
        exact Or.inl ⟨rfl, rfl⟩

end Nio.Crypto
