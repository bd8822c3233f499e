import Nio.Crypto.GroupSharing

/-!
# Sharing of group sessions in an attached client

`OutboundCrypto` sends one request after the other, each retained before it is sent, and holds the
crypto lock meanwhile. A request that fails stays retained; maintenance, or the next share, sends it
again. The members come from `member_cache`, the lists of the `joined_members` lookups.

Each action is what happens between two awaits. An action that finds the lock taken does nothing;
the one that waits for it acts when it has it.

* `AttachedClient.step` — the client, with ghosts for the messages and for the sessions it marks
* `AttachedClient.invalidateUsers` — the sessions that are thrown away for a change of devices
-/

namespace Nio.Durable

open Nio.Py
open Nio.Lib
open Nio.Crypto

/-- A room object; a room that is joined again is another one. -/
structure RoomObject where
  ref : Nat
  room : GroupRoom

/-- An entry of `member_cache` -/
inductive CachedMembers where
  /-- A lookup is in flight. -/
  | pending
  /-- The list that a lookup has brought; lists are compared by `ref`. -/
  | members (ref : Nat) (users : List Str)

/-- The retained request. If it holds the keys of a group session, `session` is this one, unless it
was retained by another process. -/
structure RetainedShare where
  session : Option Nat
  keys : List (Str × Str)

/-- The requests of a share -/
structure SendProgress where
  group : Nat
  users : List Str
  /-- The devices of the request that is not answered -/
  current : List (Str × Str)
  rest : List (List (Str × Str))
  /-- Ghost: the devices of all requests -/
  all : List (Str × Str)
  /-- Ghost: the devices that a key could be sent to when the recipients were computed -/
  covered : List (Str × Str)

/-- Where a share waits -/
inductive AttachedPhase where
  /-- For the lock, to look up the members -/
  | ensuring
  /-- For the answer of its lookup -/
  | looking
  /-- For a claim and for the lock; `ref` is the list of the cache, if the members are from there. -/
  | waiting (users : List Str) (ref : Option Nat)
  /-- For the answer to the request that was pending -/
  | finishing (users : List Str) (ref : Option Nat)
  | sending (progress : SendProgress)

structure AttachedShare where
  /-- The room object -/
  room : Nat
  ignoreUnverifiedDevices : Bool
  phase : AttachedPhase

/-- Who has the crypto lock across an await; requests other than those of a share are answered in
one action. -/
inductive CryptoLock where
  /-- A lookup of members, with the list that the cache had before -/
  | lookup (roomId : Str) (previous : Option (List Str))
  | share (roomId : Str)

structure AttachedClient where
  machine : GroupMachine
  rooms : List (Str × RoomObject)
  memberCache : List (Str × CachedMembers)
  lock : Option CryptoLock
  /-- `sharing_session`, with the coroutine of each room -/
  sharing : List (Str × AttachedShare)
  pending : Option RetainedShare
  disposed : Bool
  /-- The next identity -/
  fresh : Nat
  /-- Ghost: the session of each message, as it was when the message was encrypted -/
  messages : List OutboundGroupSession
  marks : List SharedMark

inductive AttachedAction where
  | room (roomId : Str) (encrypted : Bool)
  | encryption (roomId : Str)
  | member (roomId userId : Str) (membership : Membership)
  /-- A room of a Sliding response names a user. -/
  | hero (roomId userId : Str)
  /-- `_reset_joined_room` -/
  | resetJoinedRoom (roomId : Str) (encrypted : Bool)
  /-- `_reset_snapshot` for an initial room of a Sliding response -/
  | resetSnapshot (roomId : Str)
  /-- The room is left. -/
  | leaveRoom (roomId : Str)
  /-- `_observe` of a local operation -/
  | forgetMembers (roomId : Str)
  /-- A call of `joined_members` has the lock. -/
  | lookup (roomId : Str)
  | lookupAnswered (joined : List Str)
  | lookupRaises
  | keysQuery (response : KeysQueryResponse)
  /-- Another request is retained, and not answered. -/
  | retain
  /-- The retained request is answered. -/
  | pendingAnswered
  | trust (change : TrustChange) (userId deviceId : Str)
  | olmSession (curve25519 : Str)
  | share (roomId : Str) (ignoreUnverifiedDevices : Bool)
  /-- `ensure_members` of a share has the lock. -/
  | ensureMembers (roomId : Str)
  /-- A share has the lock. -/
  | locked (roomId : Str)
  /-- Nothing is pending: the recipients are computed. -/
  | sendKeys (roomId : Str)
  /-- The request of a share is answered, with success or not. -/
  | chunkAnswered (roomId : Str) (success : Bool)
  | shareRaises (roomId : Str)
  | encrypt (roomId : Str) (aged count : Bool)

/-- The sets are equal. -/
def sameMembers (users joined : List Str) : Bool :=
  users.all (· ∈ joined) && joined.all (· ∈ users)

namespace AttachedClient

def room (c : AttachedClient) (roomId : Str) : Option RoomObject := dictGet? c.rooms roomId

def setRoom (c : AttachedClient) (roomId : Str) (o : RoomObject) : AttachedClient :=
  { c with rooms := dictSet c.rooms roomId o }

def cached (c : AttachedClient) (roomId : Str) : Option CachedMembers :=
  dictGet? c.memberCache roomId

/-- `member_cache.get(room_id)` -/
def members (c : AttachedClient) (roomId : Str) : Option (List Str) :=
  match c.cached roomId with
  | some (.members _ users) => some users
  | _ => none

/-- `member_cache.pop(room_id, None)` -/
def popMembers (c : AttachedClient) (roomId : Str) : AttachedClient :=
  { c with memberCache := dictErase c.memberCache roomId }

/-- `invalidate_outbound_session` -/
def invalidateOutboundSession (c : AttachedClient) (roomId : Str) : AttachedClient :=
  { c with machine := c.machine.pop roomId }

def invalidateRooms (c : AttachedClient) (p : GroupRoom → Bool) : AttachedClient :=
  c.rooms.foldl (fun c entry => if p entry.2.room then c.invalidateOutboundSession entry.1 else c) c

/-- A change of devices of users concerns a session. -/
def concerns (c : AttachedClient) (changed : List Str) (roomId : Str) (s : OutboundGroupSession) :
    Bool :=
  ((c.members roomId).getD []).any (· ∈ changed) || s.usersSharedWith.any (·.1 ∈ changed)

/-- `invalidate_users` -/
def invalidateUsers (c : AttachedClient) (changed : List Str) : AttachedClient :=
  c.machine.outbound.foldl (fun c entry =>
    if c.concerns changed entry.1 (c.machine.session entry.2) then
      c.invalidateOutboundSession entry.1
    else c) c

def setKeeper (c : AttachedClient) (keeper : DeviceKeeper) : AttachedClient :=
  { c with machine := { c.machine with keeper } }

/-- An exception in a transaction disposes the client. -/
def dispose (c : AttachedClient) : AttachedClient := { c with disposed := true }

/-! ### Rooms -/

/-- `handle_membership`; what `Processor.consume` does then does not ask whether a member changed. -/
def member (c : AttachedClient) (roomId userId : Str) (membership : Membership) : AttachedClient :=
  let c :=
    match c.room roomId with
    | none => c
    | some o => c.setRoom roomId { o with room := (o.room.handleMembership userId membership).1 }
  (c.invalidateOutboundSession roomId).popMembers roomId

def hero (c : AttachedClient) (roomId userId : Str) : AttachedClient :=
  match c.room roomId with
  | none => c
  | some o =>
    if userId ∈ o.room.users then c
    else c.setRoom roomId { o with room := { o.room with users := o.room.users ++ [userId] } }

def resetJoinedRoom (c : AttachedClient) (roomId : Str) (encrypted : Bool) : AttachedClient :=
  let c := { c.setRoom roomId ⟨c.fresh, ⟨[], [], encrypted, false⟩⟩ with fresh := c.fresh + 1 }
  (c.popMembers roomId).invalidateOutboundSession roomId

/-- The room object stays, and an encrypted room loses its session. -/
def resetSnapshot (c : AttachedClient) (roomId : Str) : AttachedClient :=
  let c := c.popMembers roomId
  match c.room roomId with
  | none => c
  | some o =>
    let c := c.setRoom roomId { o with room := ⟨[], [], o.room.encrypted, false⟩ }
    if o.room.encrypted then c.invalidateOutboundSession roomId else c

def leaveRoom (c : AttachedClient) (roomId : Str) : AttachedClient :=
  let c := (c.invalidateOutboundSession roomId).popMembers roomId
  { c with rooms := dictErase c.rooms roomId }

/-! ### Shares -/

def setShare (c : AttachedClient) (roomId : Str) (s : AttachedShare) : AttachedClient :=
  { c with sharing := dictSet c.sharing roomId s }

/-- `sharing_session.pop(room_id)` -/
def popShare (c : AttachedClient) (roomId : Str) : AttachedClient :=
  { c with sharing := dictErase c.sharing roomId }

/-- A share that has the lock ends. -/
def release (c : AttachedClient) (roomId : Str) : AttachedClient :=
  { c.popShare roomId with lock := none }

/-! ### Lookups -/

/-- The first part of `_joined_members` -/
def startLookup (c : AttachedClient) (roomId : Str) : AttachedClient :=
  { c with
    lock := some (.lookup roomId (c.members roomId))
    memberCache := dictSet c.memberCache roomId .pending }

/-- A lookup raises: its entry goes, and the share that waits for it ends. -/
def lookupRaises (c : AttachedClient) : AttachedClient :=
  match c.lock with
  | some (.lookup roomId _) =>
    let c :=
      match c.cached roomId with
      | some .pending => c.popMembers roomId
      | _ => c
    let c : AttachedClient := { c with lock := none }
    match dictGet? c.sharing roomId with
    | some ⟨_, _, .looking⟩ => c.popShare roomId
    | _ => c
  | _ => c

/-- The second part of `_joined_members`, without the users that are to be queried -/
def lookupAnswered (c : AttachedClient) (joined : List Str) : AttachedClient :=
  match c.lock with
  | some (.lookup roomId previous) =>
    match c.cached roomId with
    | none => c.lookupRaises
    | some _ =>
      let ref := c.fresh
      -- `previous is None or set(previous) != set(users)`
      let c := if previous.all fun p => !sameMembers p joined then
        c.invalidateOutboundSession roomId else c
      let c : AttachedClient := { c with
        memberCache := dictSet c.memberCache roomId (.members ref joined)
        fresh := ref + 1
        lock := none }
      match dictGet? c.sharing roomId with
      | some ⟨room, ign, .looking⟩ => c.setShare roomId ⟨room, ign, .waiting joined (some ref)⟩
      | _ => c
  | _ => c

/-! ### Requests, devices and trust -/

/-- The lock is free, or its holder finishes what is pending. -/
def finishesPending (c : AttachedClient) : Bool :=
  match c.lock with
  | none => true
  | some (.lookup _ _) => false
  | some (.share roomId) =>
    match dictGet? c.sharing roomId with
    | some ⟨_, _, .finishing _ _⟩ => true
    | _ => false

/-- `pending`, as far as it has the keys of a session that this process has -/
def deliverPending (c : AttachedClient) : AttachedClient :=
  match c.pending with
  | some ⟨some i, keys⟩ => { c with pending := none, machine := c.machine.modify i (·.deliver keys) }
  | _ => { c with pending := none }

/-- The answer to a key query is applied. -/
def keysQuery (env : KeyQueryEnv) (c : AttachedClient) (response : KeysQueryResponse) :
    AttachedClient :=
  if c.finishesPending then
    match handleKeyQuery env c.machine.keeper response with
    | .error _ => c.dispose
    | .ok (keeper, changed) =>
      (changed.foldl (fun c key => c.invalidateRooms fun room =>
        room.encrypted && key.1 ∈ room.users) (c.setKeeper keeper)).invalidateUsers (changed.map (·.1))
  else c

/-- `_change_device_trust` -/
def trust (c : AttachedClient) (change : TrustChange) (userId deviceId : Str) : AttachedClient :=
  match change.apply c.machine.keeper userId deviceId with
  | .error _ => c.dispose
  | .ok (keeper, changed) =>
    let c := c.setKeeper keeper
    if changed then (c.invalidateRooms fun room => userId ∈ room.users).invalidateUsers [userId]
    else c

/-! ### `share_group_session` -/

def share (c : AttachedClient) (roomId : Str) (ignoreUnverifiedDevices : Bool) : AttachedClient :=
  match c.room roomId with
  | none => c
  | some o =>
    if !o.room.encrypted || (dictGet? c.sharing roomId).isSome then c
    else if o.room.membersSynced then
      c.setShare roomId ⟨o.ref, ignoreUnverifiedDevices, .waiting o.room.users none⟩
    else c.setShare roomId ⟨o.ref, ignoreUnverifiedDevices, .ensuring⟩

/-- `ensure_members`, and the members of the cache -/
def ensureMembers (c : AttachedClient) (roomId : Str) : AttachedClient :=
  match c.lock, dictGet? c.sharing roomId with
  | none, some ⟨room, ign, .ensuring⟩ =>
    match c.cached roomId with
    | none => (c.startLookup roomId).setShare roomId ⟨room, ign, .looking⟩
    | some .pending => c.popShare roomId
    | some (.members ref users) => c.setShare roomId ⟨room, ign, .waiting users (some ref)⟩
  | _, _ => c

def locked (c : AttachedClient) (roomId : Str) : AttachedClient :=
  match c.lock, dictGet? c.sharing roomId with
  | none, some ⟨room, ign, .waiting users ref⟩ =>
    { c.setShare roomId ⟨room, ign, .finishing users ref⟩ with lock := some (.share roomId) }
  | _, _ => c

/-- The room object and its members are still those of the share. -/
def sameRoom (c : AttachedClient) (roomId : Str) (room : Nat) (users : List Str)
    (ref : Option Nat) : Bool :=
  match c.room roomId with
  | none => false
  | some o => o.ref = room &&
    if o.room.membersSynced then users = o.room.users
    else match c.cached roomId with
      | some (.members ref' _) => ref = some ref'
      | _ => false

/-- The members of a room, as they are known now -/
def memberList (c : AttachedClient) (roomId : Str) : List Str :=
  match c.room roomId with
  | some ⟨_, room⟩ => if room.membersSynced then room.users else (c.members roomId).getD []
  | none => []

/-- `group.shared = True`, unless the session is another one now -/
def markAsShared (env : KeyQueryEnv) (c : AttachedClient) (roomId : Str) (p : SendProgress) :
    AttachedClient :=
  if c.machine.stored roomId = some p.group then
    { c.release roomId with
      machine := c.machine.modify p.group .markAsShared
      marks := ⟨c.machine.stored roomId = some p.group,
        p.all.any (· ∉ (c.machine.session p.group).delivered),
        unreached env c.machine (c.memberList roomId) p.group⟩ :: c.marks }
  else c.release roomId

/-- The next round of the loop over the requests: one is retained and sent. -/
def sendNext (env : KeyQueryEnv) (c : AttachedClient) (roomId : Str) (s : AttachedShare)
    (p : SendProgress) : AttachedClient :=
  match p.rest with
  | [] => c.markAsShared env roomId p
  | chunk :: rest =>
    { c with
      machine := c.machine.modify p.group (·.request chunk)
      pending := some ⟨some p.group, chunk⟩ }.setShare roomId
        { s with phase := .sending { p with current := chunk, rest } }

def sendKeys (env : KeyQueryEnv) (c : AttachedClient) (roomId : Str) : AttachedClient :=
  match c.lock, dictGet? c.sharing roomId, c.pending with
  | some (.share r), some ⟨room, ign, .finishing users ref⟩, none =>
    if r ≠ roomId then c
    else if c.sameRoom roomId room users ref then
      match c.machine.shareGroupSessionParallel env roomId users ign with
      | (machine, .error .unverified) => { c with machine }.release roomId
      | (machine, .error .assertion) => { c with machine }.dispose
      | (machine, .ok (i, parts)) =>
        { c with machine }.sendNext env roomId ⟨room, ign, .finishing users ref⟩
          ⟨i, users, [], parts, parts.flatten, users.flatMap (c.machine.eligible env)⟩
    else c.release roomId
  | _, _, _ => c

/-- A request that is not answered with success stays retained, and the share raises. -/
def chunkAnswered (env : KeyQueryEnv) (c : AttachedClient) (roomId : Str) (success : Bool) :
    AttachedClient :=
  match c.lock, dictGet? c.sharing roomId with
  | some (.share r), some ⟨room, ign, .sending p⟩ =>
    if r ≠ roomId then c
    else if success then
      let c := c.deliverPending
      if c.machine.stored roomId = some p.group then
        { c with machine := c.machine.modify p.group (·.shareWith p.current) }.sendNext env roomId
          ⟨room, ign, .sending p⟩ p
      else c.release roomId
    else c.release roomId
  | _, _ => c

/-- An await of a share raises; the lock is free if the share had it. -/
def shareRaises (c : AttachedClient) (roomId : Str) : AttachedClient :=
  match dictGet? c.sharing roomId with
  | some ⟨_, _, .looking⟩ => c.lookupRaises
  | some ⟨_, _, .finishing _ _⟩ | some ⟨_, _, .sending _⟩ => c.release roomId
  | _ => c.popShare roomId

/-! ### Messages -/

/-- `_group_encrypt` -/
def encrypt (c : AttachedClient) (roomId : Str) (aged count : Bool) : AttachedClient :=
  match c.room roomId with
  | none => c
  | some o =>
    if o.room.encrypted && (o.room.membersSynced || (c.members roomId).isSome) then
      match c.machine.groupEncrypt roomId aged count with
      | (machine, none) => { c with machine }
      | (machine, some i) => { c with machine, messages := c.machine.session i :: c.messages }
    else c

/-- What the client does -/
def act (env : KeyQueryEnv) (c : AttachedClient) : AttachedAction → AttachedClient
  | .room roomId encrypted =>
    if (c.room roomId).isSome then c
    else { c.setRoom roomId ⟨c.fresh, ⟨[], [], encrypted, false⟩⟩ with fresh := c.fresh + 1 }
  | .encryption roomId =>
    match c.room roomId with
    | some o => c.setRoom roomId { o with room := { o.room with encrypted := true } }
    | none => c
  | .member roomId userId membership => c.member roomId userId membership
  | .hero roomId userId => c.hero roomId userId
  | .resetJoinedRoom roomId encrypted => c.resetJoinedRoom roomId encrypted
  | .resetSnapshot roomId => c.resetSnapshot roomId
  | .leaveRoom roomId => c.leaveRoom roomId
  | .forgetMembers roomId => c.popMembers roomId
  | .lookup roomId => if c.lock.isNone then c.startLookup roomId else c
  | .lookupAnswered joined => c.lookupAnswered joined
  | .lookupRaises => c.lookupRaises
  | .keysQuery response => c.keysQuery env response
  | .retain => if c.lock.isNone && c.pending.isNone then { c with pending := some ⟨none, []⟩ } else c
  | .pendingAnswered => if c.finishesPending then c.deliverPending else c
  | .trust change userId deviceId => c.trust change userId deviceId
  | .olmSession curve25519 =>
    { c with machine := { c.machine with olmSessions := c.machine.olmSessions ++ [curve25519] } }
  | .share roomId ignoreUnverifiedDevices => c.share roomId ignoreUnverifiedDevices
  | .ensureMembers roomId => c.ensureMembers roomId
  | .locked roomId => c.locked roomId
  | .sendKeys roomId => c.sendKeys env roomId
  | .chunkAnswered roomId success => c.chunkAnswered env roomId success
  | .shareRaises roomId => c.shareRaises roomId
  | .encrypt roomId aged count => c.encrypt roomId aged count

/-! ### Revocations -/

/-- The users that one of two lists has alone -/
def changedMembers (users joined : List Str) : List Str :=
  users.filter (· ∉ joined) ++ joined.filter (· ∉ users)

/-- What an action takes the right to read from, in a room or in all -/
def revocations (env : KeyQueryEnv) (c : AttachedClient) :
    AttachedAction → List (Option Str × Revocation)
  | .member roomId userId _ => [(some roomId, .user userId)]
  | .lookupAnswered joined =>
    match c.lock with
    | some (.lookup roomId (some previous)) =>
      if (c.cached roomId).isSome then
        (changedMembers previous joined).map fun u => (some roomId, .user u)
      else []
    | _ => []
  | .keysQuery response =>
    match c.finishesPending, handleKeyQuery env c.machine.keeper response with
    | true, .ok (_, changed) => changed.map fun key => (none, .user key.1)
    | _, _ => []
  | .trust change userId deviceId =>
    match change.apply c.machine.keeper userId deviceId with
    | .ok (_, true) => if change.revokes then [(none, .device (userId, deviceId))] else []
    | _ => []
  | _ => []

def revoke (c : AttachedClient) (revs : List (Option Str × Revocation)) : AttachedClient :=
  { c with machine := revs.foldl (fun m rev => m.revoke rev.1 rev.2) c.machine }

/-- The ghosts see a revocation before the client acts. -/
def step (env : KeyQueryEnv) (c : AttachedClient) (action : AttachedAction) : AttachedClient :=
  if c.disposed then c else (c.revoke (c.revocations env action)).act env action

/-- A client that was just attached: its sessions are in memory only, and a request that is retained
is of another process. Only the ordinary `joined_members` takes a room as synced. -/
structure Attached (c : AttachedClient) : Prop where
  sessions : c.machine.sessions = []
  outbound : c.machine.outbound = []
  rooms : ∀ entry ∈ c.rooms, entry.2.room.membersSynced = false
  memberCache : c.memberCache = []
  lock : c.lock = none
  sharing : c.sharing = []
  pending : ∀ p, c.pending = some p → p.session = none
  messages : c.messages = []
  marks : c.marks = []
  /-- The device store is a dictionary. -/
  devices : (c.machine.keeper.deviceStore.map OlmDevice.key).Nodup

end AttachedClient

end Nio.Durable
