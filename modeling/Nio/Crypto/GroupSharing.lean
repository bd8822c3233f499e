import Nio.Crypto.OutboundSessions

/-!
# Sharing of group sessions in an ordinary client

`AsyncClient.share_group_session` is a coroutine: between its awaits a sync can change the members
of the room, a key query the devices, and a call of the client the trust in them. Each action here
is what happens between two awaits; the answers of a share come in any order.

* `SharingClient.step` — the client, with ghosts for the messages and for the sessions it marks
* `revocation_ordinary` — no message for a session whose key was out before a revocation
-/

namespace Nio.Crypto

open Nio.Py
open Nio.Lib
open Nio.Store (Mark)
open Nio.Durable (Membership)

/-- The requests of a share -/
structure ShareProgress where
  /-- Ghost: the session whose key the requests hold -/
  session : Nat
  /-- The devices of each request that was not answered -/
  pending : List (List (Str × Str))
  /-- Ghost: a request was not answered with success. -/
  failed : Bool
  /-- Ghost: the devices that a key could be sent to when the recipients were computed -/
  covered : List (Str × Str)

/-- Where a share waits -/
inductive SharePhase where
  | claiming (ignoreUnverifiedDevices : Bool)
  | sending (progress : ShareProgress)

/-- Ghost: what holds when a session is marked as shared -/
structure SharedMark where
  /-- It is the session whose key the share has sent. -/
  sameSession : Bool
  failed : Bool
  /-- The devices of the members that a key can be sent to and that did not get this one -/
  unreached : List (Str × Str)

structure SharingClient where
  machine : GroupMachine
  rooms : List (Str × GroupRoom)
  /-- `sharing_session`, with the coroutine of each room -/
  sharing : List (Str × SharePhase)
  /-- Ghost: the session of each message, as it was when the message was encrypted -/
  messages : List OutboundGroupSession
  marks : List SharedMark

inductive SharingAction where
  /-- A sync has a room that the client does not have. -/
  | room (roomId : Str) (encrypted : Bool)
  | encryption (roomId : Str)
  | member (roomId userId : Str) (membership : Membership)
  /-- The answer to a request for the joined members -/
  | joinedMembers (roomId : Str) (joined : List Str)
  /-- The answer to a key query; `left` are the devices that a handler leaves which raises. -/
  | keysQuery (response : KeysQueryResponse) (left : DeviceKeeper)
  | trust (change : TrustChange) (userId deviceId : Str)
  /-- There is an Olm session now for a Curve25519 key. -/
  | olmSession (curve25519 : Str)
  | share (roomId : Str) (ignoreUnverifiedDevices : Bool)
  /-- The answer to the claim of a share, with the keys that have a session now -/
  | claimed (roomId : Str) (curve25519 : List Str)
  /-- A share is cancelled, or what it awaits raises. -/
  | shareRaises (roomId : Str)
  /-- A request of a share is answered with success, or with an error, or raises. -/
  | answered (roomId : Str) (index : Nat) (success : Bool)
  /-- All requests of a share are answered. -/
  | finish (roomId : Str)
  | encrypt (roomId : Str) (aged count : Bool)

/-- The members of a room that did not get the key of a session, although they can -/
def unreached (env : KeyQueryEnv) (m : GroupMachine) (users : List Str) (i : Nat) :
    List (Str × Str) :=
  (users.flatMap (m.eligible env)).filter fun k =>
    k ∉ (m.session i).delivered && !(k ∈ (m.session i).usersIgnored && k.2 ≠ env.deviceId)

/-- `get_missing_sessions` finds a device. -/
def hasMissingSessions (env : KeyQueryEnv) (m : GroupMachine) (users : List Str) : Bool :=
  users.any fun u => (activeUserDevices m.keeper.deviceStore u).any fun d =>
    d.deviceId ≠ env.deviceId && !m.hasOlmSession d

/-- Every active device has the key or is ignored. -/
def allReached (m : GroupMachine) (users : List Str) (i : Nat) : Bool :=
  users.all fun u => (activeUserDevices m.keeper.deviceStore u).all fun d =>
    d.key ∈ (m.session i).usersSharedWith || d.key ∈ (m.session i).usersIgnored

namespace SharingClient

def room (c : SharingClient) (roomId : Str) : Option GroupRoom := dictGet? c.rooms roomId

def setRoom (c : SharingClient) (roomId : Str) (room : GroupRoom) : SharingClient :=
  { c with rooms := dictSet c.rooms roomId room }

/-- `invalidate_outbound_session`: a session that is not shared yet is kept. -/
def invalidateOutboundSession (c : SharingClient) (roomId : Str) : SharingClient :=
  match c.machine.stored roomId with
  | some i => if (c.machine.session i).shared then { c with machine := c.machine.pop roomId } else c
  | none => c

/-- The sessions of the rooms that meet a condition are invalidated. -/
def invalidateRooms (c : SharingClient) (p : GroupRoom → Bool) : SharingClient :=
  c.rooms.foldl (fun c entry => if p entry.2 then c.invalidateOutboundSession entry.1 else c) c

/-- `session.shared = True`; the ghost is for a session that was not shared before. -/
def markAsShared (env : KeyQueryEnv) (c : SharingClient) (room : GroupRoom) (i : Nat)
    (p : ShareProgress) : SharingClient :=
  if (c.machine.session i).shared then c
  else { c with
    machine := c.machine.modify i .markAsShared
    marks := ⟨i = p.session, p.failed, unreached env c.machine room.users i⟩ :: c.marks }

/-! ### Members, devices and trust -/

def member (c : SharingClient) (roomId userId : Str) (membership : Membership) : SharingClient :=
  match c.room roomId with
  | none => c
  | some room =>
    let (room, changed) := room.handleMembership userId membership
    let c := c.setRoom roomId room
    if changed then c.invalidateOutboundSession roomId else c

def joinedMembers (c : SharingClient) (roomId : Str) (joined : List Str) : SharingClient :=
  match c.room roomId with
  | none => c
  | some room => c.setRoom roomId (room.handleJoinedMembers joined)

def setKeeper (c : SharingClient) (keeper : DeviceKeeper) : SharingClient :=
  { c with machine := { c.machine with keeper } }

/-- `_handle_olm_response` of a key query -/
def keysQuery (env : KeyQueryEnv) (c : SharingClient) (response : KeysQueryResponse)
    (left : DeviceKeeper) : SharingClient :=
  match handleKeyQuery env c.machine.keeper response with
  | .error _ => c.setKeeper left
  | .ok (keeper, changed) =>
    changed.foldl (fun c key => c.invalidateRooms fun room => room.encrypted && key.1 ∈ room.users)
      (c.setKeeper keeper)

/-- `_change_device_trust` -/
def trust (c : SharingClient) (change : TrustChange) (userId deviceId : Str) : SharingClient :=
  match change.apply c.machine.keeper userId deviceId with
  | .error _ => c
  | .ok (keeper, changed) =>
    let c := c.setKeeper keeper
    if changed then c.invalidateRooms fun room => userId ∈ room.users else c

/-! ### The coroutine -/

def release (c : SharingClient) (roomId : Str) : SharingClient :=
  { c with sharing := dictErase c.sharing roomId }

/-- The part of `share_group_session` from the recipients to the requests -/
def sendKeys (env : KeyQueryEnv) (c : SharingClient) (roomId : Str) (room : GroupRoom)
    (ignoreUnverifiedDevices : Bool) : SharingClient :=
  let covered := room.users.flatMap (c.machine.eligible env)
  match c.machine.shareGroupSessionParallel env roomId room.users ignoreUnverifiedDevices with
  | (machine, .error _) => { c with machine }.release roomId
  | (machine, .ok (i, parts)) => { c with
      machine := machine.modify i (·.request parts.flatten)
      sharing := dictSet c.sharing roomId (.sending ⟨i, parts, false, covered⟩) }

def share (env : KeyQueryEnv) (c : SharingClient) (roomId : Str) (ignoreUnverifiedDevices : Bool) :
    SharingClient :=
  match c.room roomId with
  | none => c
  | some room =>
    if !room.encrypted || (dictGet? c.sharing roomId).isSome then c
    else if hasMissingSessions env c.machine room.users then
      { c with sharing := dictSet c.sharing roomId (.claiming ignoreUnverifiedDevices) }
    else c.sendKeys env roomId room ignoreUnverifiedDevices

def claimed (env : KeyQueryEnv) (c : SharingClient) (roomId : Str) (curve25519 : List Str) :
    SharingClient :=
  match c.room roomId, dictGet? c.sharing roomId with
  | some room, some (.claiming ignoreUnverifiedDevices) =>
    { c with machine := { c.machine with olmSessions := c.machine.olmSessions ++ curve25519 } }.sendKeys
      env roomId room ignoreUnverifiedDevices
  | _, _ => c

/-- `_handle_olm_response` of a share: the session that the room has now was shared with them. -/
def handleShared (env : KeyQueryEnv) (c : SharingClient) (roomId : Str) (p : ShareProgress)
    (keys : List (Str × Str)) : SharingClient :=
  match c.machine.stored roomId, c.room roomId with
  | some i, some room =>
    let c := { c with machine := c.machine.modify i (·.shareWith keys) }
    if allReached c.machine room.users i then c.markAsShared env room i p else c
  | _, _ => c

def answered (env : KeyQueryEnv) (c : SharingClient) (roomId : Str) (index : Nat) (success : Bool) :
    SharingClient :=
  match dictGet? c.sharing roomId with
  | some (.sending p) =>
    match p.pending[index]? with
    | none => c
    | some keys =>
      let p' := { p with pending := p.pending.eraseIdx index, failed := p.failed || !success }
      let c := { c with sharing := dictSet c.sharing roomId (.sending p') }
      if success then
        { c with machine := c.machine.modify p.session (·.deliver keys) }.handleShared env roomId p' keys
      else c
  | _ => c

/-- The session that the room has now is marked; without one the share raises. -/
def finish (env : KeyQueryEnv) (c : SharingClient) (roomId : Str) : SharingClient :=
  match dictGet? c.sharing roomId with
  | some (.sending p) =>
    if p.pending = [] then
      let c := c.release roomId
      match c.machine.stored roomId, c.room roomId with
      | some i, some room => c.markAsShared env room i p
      | _, _ => c
    else c
  | _ => c

/-! ### Messages -/

/-- `_group_encrypt` -/
def encrypt (c : SharingClient) (roomId : Str) (aged count : Bool) : SharingClient :=
  match c.room roomId with
  | none => c
  | some room =>
    if room.encrypted && room.membersSynced then
      match c.machine.groupEncrypt roomId aged count with
      | (machine, none) => { c with machine }
      | (machine, some i) => { c with machine, messages := c.machine.session i :: c.messages }
    else c

/-- What the client does -/
def act (env : KeyQueryEnv) (c : SharingClient) : SharingAction → SharingClient
  | .room roomId encrypted =>
    if (c.room roomId).isSome then c else c.setRoom roomId ⟨[], [], encrypted, false⟩
  | .encryption roomId =>
    match c.room roomId with
    | some room => c.setRoom roomId { room with encrypted := true }
    | none => c
  | .member roomId userId membership => c.member roomId userId membership
  | .joinedMembers roomId joined => c.joinedMembers roomId joined
  | .keysQuery response left => c.keysQuery env response left
  | .trust change userId deviceId => c.trust change userId deviceId
  | .olmSession curve25519 =>
    { c with machine := { c.machine with olmSessions := c.machine.olmSessions ++ [curve25519] } }
  | .share roomId ignoreUnverifiedDevices => c.share env roomId ignoreUnverifiedDevices
  | .claimed roomId curve25519 => c.claimed env roomId curve25519
  | .shareRaises roomId => c.release roomId
  | .answered roomId index success => c.answered env roomId index success
  | .finish roomId => c.finish env roomId
  | .encrypt roomId aged count => c.encrypt roomId aged count

/-! ### Revocations -/

/-- The users with a device whose keys or existence differ -/
def changedUsers (keeper keeper' : DeviceKeeper) : List Str :=
  ((keeper.deviceStore ++ keeper'.deviceStore).filter fun d =>
    (lookup OlmDevice.key d.key keeper.deviceStore).map (fun d => (d.keys, d.deleted)) ≠
      (lookup OlmDevice.key d.key keeper'.deviceStore).map (fun d => (d.keys, d.deleted))).map
    (·.userId)

/-- What an action takes the right to read from, in a room or in all -/
def revocations (env : KeyQueryEnv) (c : SharingClient) : SharingAction → List (Option Str × Revocation)
  | .member roomId userId membership =>
    if membership = .leave ∨ membership = .ban then [(some roomId, .user userId)] else []
  | .joinedMembers roomId joined =>
    match c.room roomId with
    | none => []
    | some room => (room.users.filter (· ∉ (room.handleJoinedMembers joined).users)).map
        fun u => (some roomId, .user u)
  | .keysQuery response left =>
    match handleKeyQuery env c.machine.keeper response with
    | .error _ => (changedUsers c.machine.keeper left).map fun u => (none, .user u)
    | .ok (_, changed) => changed.map fun key => (none, .user key.1)
  | .trust change userId deviceId =>
    match change.apply c.machine.keeper userId deviceId with
    | .error _ => []
    | .ok (_, changed) =>
      if changed && change.revokes then [(none, .device (userId, deviceId))] else []
  | _ => []

def revoke (c : SharingClient) (revs : List (Option Str × Revocation)) : SharingClient :=
  { c with machine := revs.foldl (fun m rev => m.revoke rev.1 rev.2) c.machine }

/-- The ghosts see a revocation before the client acts. -/
def step (env : KeyQueryEnv) (c : SharingClient) (action : SharingAction) : SharingClient :=
  (c.revoke (c.revocations env action)).act env action

/-- A client that was just started: the sessions are in memory only. -/
structure Started (c : SharingClient) : Prop where
  sessions : c.machine.sessions = []
  outbound : c.machine.outbound = []
  sharing : c.sharing = []
  messages : c.messages = []
  marks : c.marks = []

/-! ## Invalidation -/

/-- Sessions were taken out of the dictionary. -/
structure Pruned (c c' : SharingClient) : Prop where
  rooms : c'.rooms = c.rooms
  sharing : c'.sharing = c.sharing
  messages : c'.messages = c.messages
  marks : c'.marks = c.marks
  keeper : c'.machine.keeper = c.machine.keeper
  olmSessions : c'.machine.olmSessions = c.machine.olmSessions
  sessions : c'.machine.sessions = c.machine.sessions
  stored : ∀ r i, c'.machine.stored r = some i → c.machine.stored r = some i

theorem Pruned.refl (c : SharingClient) : Pruned c c :=
  ⟨rfl, rfl, rfl, rfl, rfl, rfl, rfl, fun _ _ h => h⟩

theorem Pruned.trans {c₁ c₂ c₃ : SharingClient} (h₁ : Pruned c₁ c₂) (h₂ : Pruned c₂ c₃) :
    Pruned c₁ c₃ :=
  ⟨h₂.rooms.trans h₁.rooms, h₂.sharing.trans h₁.sharing, h₂.messages.trans h₁.messages,
    h₂.marks.trans h₁.marks, h₂.keeper.trans h₁.keeper, h₂.olmSessions.trans h₁.olmSessions,
    h₂.sessions.trans h₁.sessions, fun r i h => h₁.stored r i (h₂.stored r i h)⟩

/-- Pruning sessions of the store changes none of them. -/
theorem Pruned.session {c c' : SharingClient} (h : Pruned c c') (i : Nat) :
    c'.machine.session i = c.machine.session i := by
  unfold GroupMachine.session
  rw [h.sessions]

/-- Invalidating the session of a room prunes it. -/
theorem pruned_invalidateOutboundSession (c : SharingClient) (roomId : Str) :
    Pruned c (c.invalidateOutboundSession roomId) := by
  unfold invalidateOutboundSession
  split
  · split
    · refine ⟨rfl, rfl, rfl, rfl, rfl, rfl, rfl, fun r i h => ?_⟩
      rw [GroupMachine.stored_pop] at h
      split at h
      · cases h
      · exact h
    · exact Pruned.refl c
  · exact Pruned.refl c

/-- The session that is left is not shared. -/
theorem stored_invalidateOutboundSession {c : SharingClient} {r : Str} {i : Nat}
    (h : (c.invalidateOutboundSession r).machine.stored r = some i) :
    (c.machine.session i).shared = false := by
  unfold invalidateOutboundSession at h
  cases hs : c.machine.stored r with
  | none =>
    rw [hs] at h
    dsimp only at h
    rw [hs] at h
    cases h
  | some j =>
    rw [hs] at h
    dsimp only at h
    split at h
    · rw [GroupMachine.stored_pop, if_pos rfl] at h
      cases h
    · next hshared =>
      rw [hs] at h
      cases h
      simpa using hshared

theorem pruned_foldl {α : Type} {f : SharingClient → α → SharingClient}
    (hf : ∀ c a, Pruned c (f c a)) (as : List α) (c : SharingClient) :
    Pruned c (as.foldl f c) := by
  induction as generalizing c with
  | nil => exact Pruned.refl c
  | cons a as ih => exact (hf c a).trans (ih (f c a))

/-- What one round takes out stays out. -/
theorem stored_foldl {α : Type} {f : SharingClient → α → SharingClient}
    (hf : ∀ c a, Pruned c (f c a)) {as : List α} {a : α} (ha : a ∈ as) {c : SharingClient} {r : Str}
    {i : Nat} (h : (as.foldl f c).machine.stored r = some i) :
    ∃ c', Pruned c c' ∧ (f c' a).machine.stored r = some i := by
  induction as generalizing c with
  | nil => cases ha
  | cons b as ih =>
    rcases List.mem_cons.mp ha with rfl | ha
    · exact ⟨c, Pruned.refl c, (pruned_foldl hf as (f c a)).stored r i h⟩
    · obtain ⟨c', hc', hs⟩ := ih ha h
      exact ⟨c', (hf c b).trans hc', hs⟩

/-- So does invalidating those of many rooms, -/
theorem pruned_invalidateRooms (c : SharingClient) (p : GroupRoom → Bool) :
    Pruned c (c.invalidateRooms p) := by
  refine pruned_foldl (fun c entry => ?_) c.rooms c
  split
  · exact pruned_invalidateOutboundSession c entry.1
  · exact Pruned.refl c

/-- after which none of these rooms has a shared session. -/
theorem stored_invalidateRooms {c : SharingClient} {p : GroupRoom → Bool} {r : Str} {i : Nat}
    {room : GroupRoom} (h : (c.invalidateRooms p).machine.stored r = some i)
    (hroom : dictGet? c.rooms r = some room) (hp : p room = true) :
    (c.machine.session i).shared = false := by
  obtain ⟨c', hc', hs⟩ := stored_foldl (fun c entry => by
    split
    · exact pruned_invalidateOutboundSession c entry.1
    · exact Pruned.refl c) (mem_of_dictGet? hroom) h
  rw [if_pos hp] at hs
  rw [← hc'.session]
  exact stored_invalidateOutboundSession hs

end SharingClient

end Nio.Crypto
