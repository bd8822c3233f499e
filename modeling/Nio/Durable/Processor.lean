import Nio.Durable.Session
import Nio.Lib.Run

/-!
# The processor

`Processor.consume` takes the items of an iterator one by one inside the transaction of its caller.
An iterator changes the client between two items; `Move` lists both, so that a response is consumed
by `runMoves` over its moves.

`Work` is a transaction in progress: the session, the list of rooms whose timeline is history, which
planning, pages, losses and the processor share, and the processor.

* `observe_cases`, `fence_cases` — what an item can do to the membership of its room
* `consumeItem_cases` — what an item can do to a transaction
-/

namespace Nio.Durable

open Nio.Py
open Nio.Lib

structure Processor where
  explicitMemberships : List Str
  provenance : Provenance
  suppressIds : List (Str × List Json)
  stopOnOversized : Bool
  /-- The rooms that `save` writes. -/
  rooms : List Str
  records : List SyncRecord
  pendingBytes : Option Nat
  oversized : Bool
  oversizedMembership : Option OwnMembership
  processedRecords : Nat

namespace Processor

/-- `Processor(session, history_rooms, explicit_memberships)` -/
def new (explicitMemberships : List Str) : Processor :=
  ⟨explicitMemberships, .live, [], false, [], [], none, false, none, 0⟩

end Processor

structure Work where
  session : Session
  historyRooms : List Str
  processor : Processor

namespace Work

def addRoom (w : Work) (roomId : Str) : Work :=
  { w with processor := { w.processor with rooms := insertNew w.processor.rooms roomId } }

def addExplicit (w : Work) (roomId : Str) : Work :=
  { w with processor := { w.processor with
    explicitMemberships := insertNew w.processor.explicitMemberships roomId } }

def addHistory (w : Work) (roomId : Str) : Work :=
  { w with historyRooms := insertNew w.historyRooms roomId }

/-- Change the membership of a room in the session. -/
def changeMembership (w : Work) (roomId : Str) (membership : Membership) :
    Work × Option OwnMembership :=
  let (session, change) := w.session.changeMembership roomId membership
  ({ w with session }, change)

/-- `flush` -/
def flush (env : Env) (w : Work) : Except SessionError Work :=
  if w.processor.records = [] then .ok w
  else do
    let (session, pendingBytes) ←
      w.session.publishRecords env w.processor.records w.processor.pendingBytes
    return { w with
      session
      processor := { w.processor with records := [], pendingBytes := some pendingBytes } }

end Work

/-! ## One item -/

namespace Item

/-- `isinstance(event, (RoomMemberEvent, InviteMemberEvent)) and not decrypted` -/
def isMember (item : Item) : Bool :=
  match item.event with
  | some event =>
    match event.cls with
    | .roomMember .. | .inviteMember .. => !item.fromEncrypted
    | _ => false
  | none => false

/-- A deletion of the member state of a user. -/
def memberDeleted (item : Item) : Option Str :=
  match item.event with
  | some event =>
    match event.cls with
    | .stateStub type stateKey => if type = py "m.room.member" then some stateKey else none
    | _ => none
  | none => none

/-- A room state that could not be parsed. -/
def isMalformedState (item : Item) : Bool :=
  match item.event with
  | some event =>
    event.cls = .bad && !item.fromEncrypted &&
      (item.route = none || item.route = some .invite ||
        (event.source.get? (py "state_key")).isSome ||
        ["m.room.member", "m.room.create", "m.room.power_levels", "m.room.encryption"].any fun t =>
          getSource event.source "type" = .str (py t))
  | none => false

/-- The own membership that an event of the item reports. -/
def reported (userId : Str) (item : Item) : Option Membership :=
  match item.memberDeleted with
  | some stateKey => if stateKey = userId then some .leave else none
  | none =>
    if item.isMember ∧ item.provenance ≠ some .history then
      match item.event.map Event.cls with
      | some (.roomMember stateKey membership _) | some (.inviteMember stateKey membership _) =>
        if stateKey = userId then some membership else none
      | _ => none
    else none

end Item

/-- What the membership part of an item comes to. -/
inductive Observed where
  /-- The item is passed over. -/
  | skip
  | go (change : Option OwnMembership)

/-- An item without an event: the section of its room. -/
def observeSection (w : Work) (roomId : Str) (roomSection : Option RoomSection) : Work × Observed :=
  if roomSection = some .leave ∧ (w.session.getMetadata roomId).left then
    -- an empty leave section also confirms a local leave: the membership stays as it is
    (w, .skip)
  else if roomSection ≠ some .leave ∧ roomId ∈ w.processor.explicitMemberships then (w, .skip)
  else
    match roomSection with
    | none => (w, .skip)
    | some roomSection =>
      match w.changeMembership roomId roomSection.membership with
      | (w, none) => (w, .skip)
      | (w, some change) => (w, .go (some change))

/-- An item with an event. -/
def observeEvent (env : Env) (w : Work) (roomId : Str) (item : Item) : Work × Observed :=
  match item.reported env.userId with
  | none => (w, .go none)
  | some membership =>
    let (w, change) := (w.addExplicit roomId).changeMembership roomId membership
    (w, .go change)

def observe (env : Env) (w : Work) (roomId : Str) (item : Item) : Work × Observed :=
  match item.event with
  | none => observeSection w roomId item.section
  | some _ => observeEvent env w roomId item

/-- A departure from join ends the live tenure of the room. -/
def fence (w : Work) (roomId : Str) (change : Option OwnMembership) : Work :=
  match change with
  | some c =>
    if c.previous = some .join then
      ({ w with session := w.session.clearBaseline roomId }).addHistory roomId
    else w
  | none => w

/-- `id in ids` of a Python set: what cannot be hashed raises. -/
def inSet (id : Json) (ids : List Json) : Except SessionError Bool :=
  match id with
  | .arr _ | .obj _ => .error .type
  | _ => .ok (id ∈ ids)

/-- `getattr(item.event, "source", {}).get("event_id")`: a stub has no source, and so no identity. -/
def Event.identity (event : Event) : Json :=
  match event.cls with
  | .stateStub .. => .null
  | _ => event.sourceId

/-- `suppress_ids.get(room_id, set())` -/
def Processor.suppressed (p : Processor) (roomId : Str) : List Json :=
  (dictGet? p.suppressIds roomId).getD []

/-- The event was applied by an earlier page or window. -/
def isSuppressed (w : Work) (roomId : Str) (item : Item) : Except SessionError Bool :=
  match item.event with
  | none => .ok false
  | some event => inSet event.identity (w.processor.suppressed roomId)

/-- The record of an item of a room. -/
def roomRecord (w : Work) (roomId : Str) (item : Item) (change : Option OwnMembership) : SyncRecord :=
  let record := freezeEvent item
  { record with
    membership := change
    membershipEpoch := some (w.session.getMetadata roomId).membershipEpoch
    provenance :=
      if record.kind = .timeline then
        some (if roomId ∈ w.historyRooms then .history
          else item.provenance.getD w.processor.provenance)
      else record.provenance }

namespace Work

/-- A recovered record that no batch can hold -/
def isOversized (env : Env) (w : Work) (record : SyncRecord) : Except SessionError Bool :=
  if w.processor.stopOnOversized then
    (Session.encodedSize [record]).map fun size => decide (env.config.maxBatchBytes < size)
  else .ok false

def flushIf (env : Env) (w : Work) (barrier : Bool) : Except SessionError Work :=
  if barrier then w.flush env else .ok w

def push (w : Work) (record : SyncRecord) : Work :=
  { w with processor := { w.processor with
    records := w.processor.records ++ [record]
    processedRecords := w.processor.processedRecords + 1 } }

/-- The iterator has already changed the client: a loss stands for the record. -/
def overflow (w : Work) (membership : Option OwnMembership) : Work :=
  { w with processor := { w.processor with
    oversized := true
    oversizedMembership := membership } }

end Work

/-- The bounds of a batch, the barriers around membership, and the batch that is full -/
def appendRecord (env : Env) (w : Work) (record : SyncRecord) (barrier : Bool) :
    Except SessionError Work := do
  if ← w.isOversized env record then return w.overflow record.membership
  else do
    let w ← w.flushIf env barrier
    let w := w.push record
    w.flushIf env (barrier || env.config.maxBatchRecords ≤ w.processor.records.length)

/-- The change of an item that is passed over after the membership was changed has no record. -/
def dropChange (w : Work) (roomId : Str) (change : Option OwnMembership) : Work :=
  match change with
  | some c => { w with session := w.session.effect (.dropped roomId c) }
  | none => w

/-- The part of an item after its membership. -/
def recordItem (env : Env) (w : Work) (roomId : Str) (item : Item) (change : Option OwnMembership) :
    Except SessionError Work := do
  if ← isSuppressed w roomId item then return dropChange w roomId change
  else appendRecord env w (roomRecord w roomId item change) (change.isSome || item.isMember)

/-- `for item in items` of `consume` -/
def consumeItem (env : Env) (w : Work) (item : Item) : Except SessionError Work :=
  match item.roomId with
  | none => appendRecord env w (freezeEvent item) item.isMember
  | some roomId =>
    if item.isMalformedState then .error (.localProtocol "malformed durable room state")
    else if item.event = none ∧ item.section = none ∧
        roomId ∉ w.processor.explicitMemberships then .error .assertion
    else
      let w := if item.section = some .invite then
        { w with session := { w.session with rooms := removeKey w.session.rooms roomId } } else w
      match observe env (w.addRoom roomId) roomId item with
      | (w, .skip) => .ok w
      | (w, .go change) => recordItem env (fence w roomId change) roomId item change

/-! ## Iterators -/

/-- A step of an iterator: a change of the client, or an item. -/
inductive Move where
  /-- `_timeline_room` before an event -/
  | timelineRoom (roomId : Str) (event : Event)
  /-- The room is one of the client's rooms from here on. -/
  | enterRoom (roomId : Str)
  | inviteRoom (roomId : Str)
  | leaveRoom (roomId : Str)
  | yield (item : Item)

def clientMove (env : Env) (s : Session) : Move → Session
  | .timelineRoom roomId event => s.timelineRoom env roomId event
  | .enterRoom roomId =>
    { s with rooms := insertNew s.rooms roomId, invited := removeKey s.invited roomId }
  | .inviteRoom roomId => { s with invited := insertNew s.invited roomId }
  | .leaveRoom roomId =>
    { s with rooms := removeKey s.rooms roomId, invited := removeKey s.invited roomId }
  | .yield _ => s

/-- The loop is left at an oversized record, and with it the iterator. -/
def runMove (env : Env) (w : Work) (move : Move) : Except SessionError Work :=
  if w.processor.oversized then .ok w
  else
    match move with
    | .yield item => consumeItem env w item
    | move => .ok { w with session := clientMove env w.session move }

/-- `consume`; the counter of queued bytes starts anew with each call. -/
def runMoves (env : Env) (w : Work) (moves : List Move) : Except SessionError Work := do
  let w := { w with processor := { w.processor with pendingBytes := none } }
  let w ← moves.foldlM (runMove env) w
  w.flush env

/-- `save` -/
def Work.save (w : Work) : Work :=
  { w with session := w.session.saveRooms w.processor.rooms }

end Nio.Durable
