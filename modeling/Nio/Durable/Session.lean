import Nio.Durable.Codec

/-!
# The state of a durable session

A session mirrors a part of the store in memory: the metadata of the rooms, the checkpoints of a
Sliding source and the response whose input is retained. What is on disk is written inside the
transactions of `Nio.Durable.Client`, which commit as a whole or leave the disk as it was.

The disk keeps every batch that was ever published, in the order of their sequences, so that a
sequence is a position; the consumer acknowledges the oldest one. `effects` and `history` are ghosts:
what a transaction has done so far, and what the committed ones did.
-/

namespace Nio.Durable

open Nio.Py
open Nio.Events

/-! ## Stored rows -/

/-- The metadata of a room but for the projection. -/
structure Metadata where
  membership : Option Membership
  membershipEpoch : Nat
  baseline : Bool
  nonjoinedCursor : Option Str
  deriving DecidableEq

/-- What `.get` finds in the metadata of a room that has none. -/
def Metadata.empty : Metadata := ⟨none, 0, false, none⟩

def Metadata.joined (m : Metadata) : Bool := m.membership = some .join

/-- `membership in ("leave", "ban")` -/
def Metadata.left (m : Metadata) : Bool := m.membership = some .leave || m.membership = some .ban

inductive LocalMembership where
  | join
  | leave
  deriving DecidableEq, Repr

def LocalMembership.membership : LocalMembership → Membership
  | .join => .join
  | .leave => .leave

/-- A local join or leave from before its request until it was observed and acknowledged. -/
structure Intent where
  operationId : Str
  roomId : Str
  previousMembership : LocalMembership
  previousEpoch : Nat
  currentMembership : LocalMembership
  /-- The key is missing, or holds a cursor or `None`. -/
  joinBaselineCursor : Option (Option Str)
  /-- The batch of the successful operation. -/
  sequence : Option Nat
  observed : Bool
  deriving DecidableEq

/-- The checkpoint of a room of a Sliding source. -/
structure Checkpoint where
  token : Option Str
  membership : Json
  eventIds : List Json
  windowIds : List Json
  deriving DecidableEq

/-- The request of a response: whether it was one for full state, and the room whose initial state it
includes. -/
structure Flags where
  fullState : Bool
  newlyJoinedRoom : Option Str
  deriving DecidableEq

/-- Where the recovery of one room stands. -/
structure Position where
  «from» : Option Str
  pages : Nat
  seenTokens : List (Option Str)
  limit : Nat
  deriving DecidableEq

structure SlidingPlan where
  starts : List (Str × Str)
  recoveredRooms : List Str
  historyPrefixes : List (Str × Nat)
  deriving DecidableEq

/-- The keys of a continuation once it has a phase. -/
structure Plan where
  oldCursor : Option Str
  roomIndex : Nat
  historyRooms : List Str
  explicitRooms : List Str
  appliedIds : List (Str × List Json)
  unknownRooms : List Str
  sliding : Option SlidingPlan
  /-- The keys from `from` to `limit`, which only a recovery writes. -/
  position : Option Position
  deriving DecidableEq

/-- The continuation of the retained input. -/
inductive Continuation where
  /-- There is no key `phase` yet. -/
  | captured (flags : Flags)
  | recover (flags : Flags) (plan : Plan)
  | tail (flags : Flags) (plan : Plan)
  | prepared
  deriving DecidableEq

structure Batch where
  records : List SyncRecord
  completesSync : Bool
  size : Nat
  deriving DecidableEq

/-- What a transaction does. -/
inductive Effect where
  | captured (body : List Nat)
  /-- The to-device events of the retained response were decrypted. -/
  | decrypted
  | page (roomId : Str)
  | tail
  | cursor (cursor : Str)
  | finished
  /-- A change of the own membership had no record. -/
  | dropped (roomId : Str) (change : OwnMembership)
  deriving DecidableEq

structure Disk where
  cursor : Option Str
  input : Option (List Nat × Continuation)
  batches : List Batch
  acked : Nat
  rooms : List (Str × Metadata)
  intent : Option Intent
  checkpoints : List (Str × Checkpoint)
  accountData : List (Str × List (Str × Event))
  history : List (List Effect)
  deriving DecidableEq

namespace Disk

/-- A store that a session opens for the first time. -/
def fresh (cursor : Option Str) : Disk := ⟨cursor, none, [], 0, [], none, [], [], []⟩

/-- All records in the order of their batches. -/
def published (d : Disk) : List SyncRecord := d.batches.flatMap (·.records)

def pending (d : Disk) : List Batch := d.batches.drop d.acked

def hasBatches (d : Disk) : Bool := d.acked < d.batches.length

def pendingBytes (d : Disk) : Nat := (d.pending.map (·.size)).sum

def continuation (d : Disk) : Option Continuation := d.input.map (·.2)

def metadata (d : Disk) (roomId : Str) : Metadata := (dictGet? d.rooms roomId).getD .empty

end Disk

/-! ## Responses -/

/-- The classes of the events of this model. Ephemeral events and presence are never parsed. -/
abbrev events : EventTypes := ⟨Event, Event, Unit, Event, Unit⟩

/-- A room of a Sliding response. -/
structure SlidingRoom where
  membership : Option Str
  heroes : List Str
  initial : Bool
  expandedTimeline : Bool
  requiredState : List Event
  timeline : List Event
  prevBatch : Option Str
  limited : Bool
  numLive : Option Int
  strippedState : List Event

structure SlidingResponse where
  pos : Str
  rooms : List (Str × SlidingRoom)
  toDeviceEvents : List (Option ToDeviceEvent)
  accountDataEvents : List Event
  /-- The account data of rooms, each with its type on the wire. -/
  roomAccountData : List (Str × List (Option Str × Event))

abbrev SyncInput := Response events SlidingResponse

def stringOf : Json → Str
  | .str s => s
  | _ => []

/-- The position after the response. -/
def nextCursor : SyncInput → Str
  | .classic response => stringOf response.nextBatch
  | .sliding response => response.pos

/-! ## The session -/

/-- What a session is opened with. -/
structure Env where
  userId : Str
  config : DurableSyncConfig
  /-- `config.sync_filter is not None` -/
  filtered : Bool
  parsers : ResponseParsers events SlidingResponse

structure Session where
  disk : Disk
  metadata : List (Str × Metadata)
  /-- The keys of `client.rooms` and of `client.invited_rooms`. -/
  rooms : List Str
  invited : List Str
  baselines : List (Str × Checkpoint)
  resets : List Str
  response : Option SyncInput
  pendingAccountData : List (Str × List (Str × Event))
  effects : List Effect
  isOpen : Bool

inductive SessionError where
  | localProtocol (message : String)
  | value (e : ValueError)
  | type
  | key
  | attribute
  | assertion
  deriving DecidableEq, Repr

/-- `list.append` unless the element is there already -/
def insertNew {α : Type} [DecidableEq α] (xs : List α) (x : α) : List α :=
  if x ∈ xs then xs else xs ++ [x]

/-- `pop(x, None)` of a set of keys -/
def removeKey (xs : List Str) (x : Str) : List Str := xs.filter (· ≠ x)

namespace Session

def getMetadata (s : Session) (roomId : Str) : Metadata := (dictGet? s.metadata roomId).getD .empty

/-- Keys of the metadata of a room are set; a room without metadata gets an entry. -/
def updateMetadata (s : Session) (roomId : Str) (f : Metadata → Metadata) : Session :=
  { s with metadata := dictSet s.metadata roomId (f (s.getMetadata roomId)) }

def clearBaseline (s : Session) (roomId : Str) : Session :=
  s.updateMetadata roomId fun m => { m with baseline := false }

def effect (s : Session) (e : Effect) : Session := { s with effects := s.effects ++ [e] }

/-- The local operation on this room has succeeded and no response has observed it. -/
def unobserved (s : Session) (roomId : Str) : Bool :=
  match s.disk.intent with
  | some i => i.sequence.isSome && i.roomId = roomId && !i.observed
  | none => false

/-- `_change_membership` -/
def changeMembership (s : Session) (roomId : Str) (membership : Membership) :
    Session × Option OwnMembership :=
  if s.unobserved roomId then (s, none)
  else
    let previous := (s.getMetadata roomId).membership
    let epoch := (s.getMetadata roomId).membershipEpoch
    if previous = some membership then
      -- `setdefault` leaves an entry
      (s.updateMetadata roomId id, none)
    else
      let nextEpoch := epoch + if previous = some .join ∧ membership ≠ .join then 1 else 0
      (s.updateMetadata roomId fun m =>
          { m with membership := some membership, membershipEpoch := nextEpoch },
        some ⟨previous, membership, epoch, nextEpoch, .reported⟩)

/-- `_reset_joined_room` -/
def resetJoinedRoom (s : Session) (roomId : Str) : Session :=
  { s.clearBaseline roomId with
    rooms := insertNew s.rooms roomId
    invited := removeKey s.invited roomId }

/-- `_timeline_room`, called with each event before it changes the room -/
def timelineRoom (env : Env) (s : Session) (roomId : Str) (event : Event) : Session :=
  match event.cls with
  | .roomMember stateKey .join _ =>
    if stateKey = env.userId ∧ (s.getMetadata roomId).membership ≠ none ∧
        (s.getMetadata roomId).membership ≠ some .join ∧ s.unobserved roomId = false then
      let s := s.resetJoinedRoom roomId
      { s with resets := insertNew s.resets roomId }
    else s
  | _ => s

/-! ### Batches -/

def encodedSize (records : List SyncRecord) : Except SessionError Nat :=
  match encodeRecords records with
  | .error e => .error (.value e)
  | .ok text =>
    match text.encode with
    | .error e => .error (.value e)
    | .ok bytes => .ok bytes.length

/-- `DurableStore.publish` -/
def storeBatch (s : Session) (records : List SyncRecord) (completesSync : Bool) (size : Nat) :
    Session :=
  { s with disk := { s.disk with batches := s.disk.batches ++ [⟨records, completesSync, size⟩] } }

/-- A batch that is not measured against the bounds first. -/
def publish (s : Session) (records : List SyncRecord) (completesSync : Bool) :
    Except SessionError Session := do
  let size ← encodedSize records
  return s.storeBatch records completesSync size

/-- `_publish_records` on records that one batch may hold; `fuel` is one for each halving. -/
def publishSized (env : Env) : Nat → List SyncRecord → Nat → Session →
    Except SessionError (Session × Nat)
  | fuel, records, pendingBytes, s => do
    let size ← encodedSize records
    if size ≤ env.config.maxBatchBytes then
      if env.config.maxPendingBytes < pendingBytes + size then
        .error (.localProtocol "prepared output exceeds the durable pending bound")
      else return (s.storeBatch records false size, pendingBytes + size)
    else
      match fuel with
      | 0 => .error (.localProtocol "prepared event exceeds the durable batch bound")
      | fuel + 1 =>
        if records.length ≤ 1 then
          .error (.localProtocol "prepared event exceeds the durable batch bound")
        else do
          let middle := records.length / 2
          let (s, pendingBytes) ← publishSized env fuel (records.take middle) pendingBytes s
          publishSized env fuel (records.drop middle) pendingBytes s

/-- Slices of at most `limit` records; `fuel` is one for each slice. -/
def slices (limit : Nat) : Nat → List SyncRecord → List (List SyncRecord)
  | 0, records => [records]
  | fuel + 1, records =>
    if records.length ≤ limit then [records]
    else records.take limit :: slices limit fuel (records.drop limit)

/-- `_publish_records` -/
def publishRecords (env : Env) (s : Session) (records : List SyncRecord) (pendingBytes : Option Nat) :
    Except SessionError (Session × Nat) :=
  (slices env.config.maxBatchRecords records.length records).foldlM
    (fun (s, pendingBytes) slice => publishSized env slice.length slice pendingBytes s)
    (s, pendingBytes.getD s.disk.pendingBytes)

/-! ### Rooms -/

/-- `_save_rooms` but for the projections and the member rows -/
def saveRooms (s : Session) (rooms : List Str) : Session :=
  rooms.foldl (fun s roomId =>
    { s.updateMetadata roomId id with
      disk := { s.disk with rooms := dictSet s.disk.rooms roomId (s.getMetadata roomId) } }) s

/-- `_local_position_matches` -/
def localPositionMatches (s : Session) (intent : Intent) : Bool :=
  (s.getMetadata intent.roomId).joined = (intent.previousMembership = .join) &&
    (s.getMetadata intent.roomId).membershipEpoch = intent.previousEpoch

end Session

end Nio.Durable
