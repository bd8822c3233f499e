import Nio.Durable.Sync

/-!
# The Sliding source

`SlidingSource` keeps a checkpoint for each joined room whose current membership it could prove. A
window that continues the proven tenure may be recovered from the checkpoint's token. The position
and the generation of the connection only shape requests; they are not modelled.
-/

namespace Nio.Durable

open Nio.Py
open Nio.Events

namespace SlidingRoom

def live (room : SlidingRoom) : List Event :=
  room.timeline.drop (room.timeline.length - room.liveCount)

end SlidingRoom

/-- The event tells of the user's own membership in an unencrypted state event. -/
def isOwnMember (userId : Str) (event : Event) : Bool :=
  match event.cls with
  | .roomMember stateKey _ _ => stateKey = userId && !event.decrypted
  | .stateStub type stateKey => type = py "m.room.member" && stateKey = userId
  | _ => false

/-- `unsigned.get("replaces_state")` of the event, when it has an object there -/
def replacesState (event : Event) : Option Json :=
  match (event.source.get? (py "unsigned")).getD (.obj []) with
  | .obj kvs => some ((dictGet? kvs (py "replaces_state")).getD .null)
  | _ => none

/-- The proof that an unbroken series of own join events reaches, and whether a join is new. -/
def scanLive (userId : Str) (known : List Json) (live : List Event) (proof : Json) : Json × Bool :=
  live.foldl (fun (proof, newJoin) event =>
    match event.cls with
    | .roomMember stateKey membership prevJoin =>
      if event.decrypted ∨ stateKey ≠ userId ∨ event.eventId = proof ∨ event.eventId ∈ known then
        (proof, newJoin)
      else if membership ≠ .join ∨ prevJoin = false ∨ replacesState event ≠ some proof then
        (.null, true)
      else if newJoin then (proof, newJoin)
      else (event.eventId, newJoin)
    | _ => (proof, newJoin)) (proof, false)

/-- The checkpoint of a room that has none, as its `.get` calls see it. -/
def Checkpoint.empty : Checkpoint := ⟨none, .null, [], []⟩

namespace Session

def checkpoint (s : Session) (roomId : Str) : Checkpoint :=
  (dictGet? s.baselines roomId).getD .empty

/-- `SlidingSource.membership`: the current proof, or `None`, and whether it continues the held
tenure -/
def slidingMembership (env : Env) (s : Session) (roomId : Str) (room : SlidingRoom) : Json × Bool :=
  let held := s.checkpoint roomId
  let own := (room.requiredState ++ room.live).filter (isOwnMember env.userId)
  let (continuousProof, newJoin) := scanLive env.userId held.eventIds room.live held.membership
  if room.membership = some (py "leave") ∨ room.membership = some (py "ban") ∨
      room.membership = some (py "invite") ∨ room.strippedState ≠ [] then (.null, false)
  else
    match own.getLast? with
    | none =>
      let proof := if room.initial then .null else held.membership
      (proof, truthy proof)
    | some event =>
      match event.cls with
      | .roomMember _ .join prevJoin =>
        let linked := prevJoin && replacesState event = some held.membership
        (event.eventId, !newJoin &&
          (event.eventId = held.membership || event.eventId = continuousProof || linked))
      | _ => (.null, false)

/-- `forget_room` -/
def forgetRoom (s : Session) (roomId : Str) : Session :=
  { s with
    baselines := dictErase s.baselines roomId
    disk := { s.disk with checkpoints := dictErase s.disk.checkpoints roomId } }

def setCheckpoint (s : Session) (roomId : Str) (c : Checkpoint) : Session :=
  { s with
    baselines := dictSet s.baselines roomId c
    disk := { s.disk with checkpoints := dictSet s.disk.checkpoints roomId c } }

end Session

/-- A membership that a boundary can have -/
def boundaryOf : Membership → Option Membership
  | .knock => none
  | m => some m

/-- `boundary_membership` -/
def boundaryMembership (userId : Str) (room : SlidingRoom) : Option Membership :=
  match [Membership.join, .leave, .invite, .ban].find? fun m => room.membership = some m.value with
  | some m => some m
  | none =>
    (room.requiredState ++ room.strippedState).reverse.findSome? fun event =>
      match event.cls with
      | .roomMember stateKey membership _ | .inviteMember stateKey membership _ =>
        if stateKey = userId then boundaryOf membership else none
      | .stateStub type stateKey =>
        if type = py "m.room.member" ∧ stateKey = userId then some .leave else none
      | _ => none

/-- `if value` of a string -/
def present : Option Str → Option Str
  | some [] => none
  | t => t

/-- The position of the first event that an earlier window showed -/
def firstObserved (observed : List Json) : List Event → Except SessionError (Option Nat)
  | [] => .ok none
  | event :: rest => do
    if ← inSet event.sourceId observed then return some 0
    else return (← firstObserved observed rest).map (· + 1)

/-- The token from which a window that continues the held tenure is recovered. -/
def recoveryStart (env : Env) (s : Session) (roomId : Str) (room : SlidingRoom) : Option Str :=
  if (s.slidingMembership env roomId room).2 ∧ (present room.prevBatch).isSome then
    present (s.checkpoint roomId).token
  else none

/-- `SlidingSource.plan` for one room -/
def planSlidingRoom (env : Env) (s : Session) (plan : Plan × SlidingPlan)
    (entry : Str × SlidingRoom) : Except SessionError (Plan × SlidingPlan) := do
  let (roomId, room) := entry
  let (plan, sliding) := plan
  let held := s.checkpoint roomId
  let n := (← firstObserved held.windowIds room.timeline).getD 0
  let plan := { plan with appliedIds := dictSet plan.appliedIds roomId held.eventIds }
  let sliding := { sliding with historyPrefixes := dictSet sliding.historyPrefixes roomId n }
  if room.initial ∨ room.limited then
    match recoveryStart env s roomId room with
    | some token =>
      return (plan, { sliding with
        starts := dictSet sliding.starts roomId token
        recoveredRooms := sliding.recoveredRooms ++ [roomId] })
    | none =>
      return ({ plan with
        historyRooms := plan.historyRooms ++ [roomId]
        unknownRooms := if (dictGet? s.metadata roomId).isSome then plan.unknownRooms ++ [roomId]
          else plan.unknownRooms }, sliding)
  else if (s.getMetadata roomId).baseline then return (plan, sliding)
  else return ({ plan with historyRooms := plan.historyRooms ++ [roomId] }, sliding)

/-- `SlidingSource.plan` -/
def planSliding (env : Env) (s : Session) (response : SlidingResponse) (plan : Plan) :
    Except SessionError Plan := do
  let (plan, sliding) ← response.rooms.foldlM (planSlidingRoom env s)
    ({ plan with historyRooms := [], unknownRooms := [] }, ⟨[], [], []⟩)
  return { plan with sliding := some sliding }

/-! ## Commit -/

/-- `list(dict.fromkeys(ids))` -/
def fromKeys (ids : List Json) : List Json := ids.foldl insertNew []

/-- The timeline after its Megolm events were replaced by what they decrypt to. -/
def replacedTimeline (crypto : Crypto) (roomId : Str) (suppressIds : List Json)
    (timeline : List Event) : List Event :=
  timeline.map fun event =>
    if event.eventId ∈ suppressIds then event
    else
      match event.cls with
      | .megolm => (crypto.decrypt roomId event).getD event
      | _ => event

def Checkpoint.json (c : Checkpoint) : Json :=
  .obj [(py "token", optional .str c.token), (py "membership", c.membership),
    (py "event_ids", .arr c.eventIds), (py "window_ids", .arr c.windowIds)]

def encodedJsonSize (v : Json) : Except SessionError Nat :=
  match encodeJson v with
  | .error e => .error (.value e)
  | .ok text =>
    match text.encode with
    | .error e => .error (.value e)
    | .ok bytes => .ok bytes.length

/-- The checkpoint that a proven window leaves. -/
def nextCheckpoint (prior : Checkpoint) (proof : Json) (room : SlidingRoom)
    (plan : SlidingRoomPlan) : Checkpoint :=
  let token :=
    if plan.historyPrefix ≠ 0 ∧ plan.recovered ∧ plan.history = false then prior.token
    else if room.initial ∨ room.limited then room.prevBatch
    else (present room.prevBatch).or prior.token
  -- only actionable ciphertext awaits promotion; history stays observed
  let ids := (room.timeline.zipIdx.filter fun (event, index) => event.cls ≠ .megolm ∨
    room.timelineProvenance index plan.history plan.recovered plan.historyPrefix = .history).map
      fun p => p.1.sourceId
  let windowIds := (room.timeline.drop plan.historyPrefix).map Event.sourceId
  if token = prior.token then
    ⟨token, proof, fromKeys (prior.eventIds ++ ids), fromKeys (prior.windowIds ++ windowIds)⟩
  else ⟨token, proof, ids, windowIds⟩

/-- `SlidingSource.commit` for one room -/
def commitSlidingRoom (env : Env) (crypto : Crypto) (plan : Plan) (w : Work)
    (entry : Str × SlidingRoom) : Except SessionError Work := do
  let (roomId, room) := entry
  let roomPlan := plan.slidingRoom w roomId
  let room := { room with
    timeline := replacedTimeline crypto roomId roomPlan.suppressIds room.timeline }
  let (proof, _) := w.session.slidingMembership env roomId room
  if proof ≠ .null ∧ (w.session.getMetadata roomId).baseline then
    let c := nextCheckpoint (w.session.checkpoint roomId) proof room roomPlan
    if 2 * 1024 * 1024 < (← encodedJsonSize c.json) then
      .error (.localProtocol "Sliding room checkpoint exceeds its bound")
    else return { w with session := w.session.setCheckpoint roomId c }
  else return { w with session := w.session.forgetRoom roomId }

/-- The events of one room as a commit stores them -/
def accountDataJson (events : List (Str × Event)) : Except SessionError Json := do
  let pairs ← events.mapM fun (kind, event) =>
    match event.source with
    | .obj kvs => .ok (kind, Json.obj (dictSet kvs (py "type") (.str kind)))
    -- `{**event.source}` of a value that is no dictionary
    | _ => .error .type
  return .obj pairs

/-- The bytes of the account data that waits for its rooms -/
def accountDataSize (pending : List (Str × List (Str × Event))) : Except SessionError Nat := do
  let sizes ← pending.mapM fun p => do encodedJsonSize (← accountDataJson p.2)
  return sizes.sum

/-- `SlidingSource.commit` but for the cursor of the devices -/
def commitSliding (env : Env) (crypto : Crypto) (plan : Plan) (w : Work)
    (response : SlidingResponse) : Except SessionError Work := do
  if env.config.maxPendingBytes < (← accountDataSize w.session.pendingAccountData) then
    .error (.localProtocol "Sliding account data exceeds the durable pending bound")
  else
    response.rooms.foldlM (commitSlidingRoom env crypto plan)
      { w with session := { w.session with
        disk := { w.session.disk with accountData := w.session.pendingAccountData } } }

end Nio.Durable
