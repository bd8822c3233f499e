import Nio.Durable.Sliding

/-!
# Recovery

`Recovery` interprets the retained input: a prologue that plans it, the pages of history of each
limited room, and the tail. Its functions are bodies of transactions; what they return is committed
by `Nio.Durable.Client`.

* `prepare` — the prologue or the tail
* `commitPage` — one page, or the end of the recovery of a room
-/

namespace Nio.Durable

open Nio.Py
open Nio.Events

/-! ## Rooms of a response -/

/-- A room of a response with its timeline: `_rooms` yields these. -/
structure RoomEntry where
  roomId : Str
  info : RoomInfo events
  «section» : RoomSection

def SlidingRoom.info (room : SlidingRoom) : RoomInfo events :=
  ⟨⟨room.timeline, .bool room.limited, room.prevBatch.map .str⟩, [], [], [], none, none, []⟩

/-- `_rooms` -/
def roomEntries : SyncInput → List RoomEntry
  | .classic response =>
    response.rooms.join.map (fun p => ⟨p.1, p.2, .join⟩) ++
      response.rooms.leave.map fun p => ⟨p.1, p.2, .leave⟩
  | .sliding response =>
    (response.rooms.filter fun p =>
      p.2.membership ≠ some (py "invite") && p.2.strippedState.isEmpty).map fun p =>
        ⟨p.1, p.2.info, if p.2.isLeaving then .leave else .join⟩

/-- `_candidates` -/
def candidates (env : Env) (s : Session) : SyncInput → List RoomEntry
  | .classic response =>
    (roomEntries (.classic response)).filter fun entry => truthy entry.info.timeline.limited
  | .sliding response =>
    (roomEntries (.sliding response)).filter fun entry =>
      match dictGet? response.rooms entry.roomId with
      | some room =>
        (room.initial || room.limited) && (recoveryStart env s entry.roomId room).isSome
      | none => false

def Env.isSliding (env : Env) : Bool := env.config.transport = .sliding

/-- `min(recovery_page_size, 100)` -/
def Env.pageLimit (env : Env) : Nat := min env.config.recoveryPageSize 100

def Env.maxPages (env : Env) : Nat := min env.config.maxRecoveryPages 1000

/-- The token that the recovery of a room starts from -/
def startToken (plan : Plan) : Option RoomEntry → Except SessionError (Option Str)
  | some entry =>
    match plan.sliding with
    | some sliding =>
      match dictGet? sliding.starts entry.roomId with
      | some token => .ok (some token)
      | none => .error .key
    | none => .ok plan.oldCursor
  | none => .ok plan.oldCursor

/-- `_next_room`; the flag says that no room is left. -/
def nextRoom (env : Env) (plan : Plan) (rooms : List RoomEntry) (index : Nat) :
    Except SessionError (Plan × Bool) := do
  let start ← startToken plan rooms[index]?
  return ({ plan with
    roomIndex := index
    position := some ⟨start, 0, [start], env.pageLimit⟩ }, decide (rooms.length ≤ index))

/-! ## Losses and boundaries -/

def lossSource (reason : String) (pages : Nat) : Json :=
  .obj [(py "reason", .str (py reason)), (py "pages", .int (pages : Nat))]

/-- The record of a loss -/
def lossRecord (roomId : Str) (reason : String) (pages epoch : Nat)
    (membership : Option OwnMembership) : SyncRecord :=
  { SyncRecord.of .loss (some roomId) (lossSource reason pages) with
    membership
    membershipEpoch := some epoch }

def lifecycleRecord (roomId : Str) (change : OwnMembership) : SyncRecord :=
  { SyncRecord.of .roomLifecycle (some roomId) (lifecycleSource (some change.current)) with
    membership := some change
    membershipEpoch := some change.currentEpoch }

/-- Publish one record that is not an observation of the iterator. -/
def publishOne (env : Env) (w : Work) (record : SyncRecord) : Except SessionError Work := do
  let (session, _) ← w.session.publishRecords env [record] none
  return { w with session }

/-- `_loss` -/
def loss (env : Env) (w : Work) (roomId : Str) (reason : String) (pages : Nat)
    (membership : Option OwnMembership) : Except SessionError Work :=
  let w := ({ w with session := w.session.clearBaseline roomId }).addHistory roomId
  publishOne env w (lossRecord roomId reason pages (w.session.getMetadata roomId).membershipEpoch
    membership)

/-- The client keeps a room that it left or was invited to no longer among its rooms. -/
def dropRoom (s : Session) (roomId : Str) (membership : Membership) : Session :=
  match membership with
  | .leave | .ban =>
    { s with rooms := removeKey s.rooms roomId, invited := removeKey s.invited roomId }
  | .invite => { s with rooms := removeKey s.rooms roomId }
  | _ => s

/-- The change of an authoritative membership that differs from the local operation -/
def boundaryChange (w : Work) (roomId : Str) (intent : Intent) (membership : Membership) :
    Work × Option OwnMembership :=
  if membership = intent.currentMembership.membership then (w, none)
  else w.changeMembership roomId membership

/-- `_reconcile_membership_boundary`; the flag says that the room was reset. -/
def reconcile (env : Env) (w : Work) (roomId : Str) (membership : Membership) :
    Except SessionError (Work × Bool) :=
  match w.session.disk.intent with
  | none => .ok (w, false)
  | some intent =>
    if w.session.unobserved roomId = false then .ok (w, false)
    else do
      let w := { w with session := { w.session with
        disk := { w.session.disk with intent := some { intent with observed := true } } } }
      let (w, change) := boundaryChange w roomId intent membership
      let w := { w with session := dropRoom w.session roomId membership }
      let w := if change.isSome then { w with session := w.session.clearBaseline roomId } else w
      let reset := membership = .join ∧ intent.currentMembership ≠ .join
      let w := if reset then { w with session := w.session.resetJoinedRoom roomId } else w
      match change with
      | none => return (w, decide reset)
      | some c => return (← publishOne env w (lifecycleRecord roomId c), decide reset)

/-! ## The tail of a Classic response -/

/-- The last own membership event of a room of the response -/
def lastOwnMembership (userId : Str) (info : RoomInfo events) : Option Membership :=
  (info.state ++ info.timeline.events).reverse.findSome? fun event =>
    match event.cls with
    | .roomMember stateKey membership _ => if stateKey = userId then some membership else none
    | _ => none

/-- The membership that the response ends with -/
def finalMembership (userId : Str) (entry : RoomEntry) : Membership :=
  (lastOwnMembership userId entry.info).getD entry.section.membership

/-- `memberships[room_id]`; a room in both sections keeps the later one. -/
def boundaryMemberships (userId : Str) (entries : List RoomEntry) : List (Str × Membership) :=
  entries.foldl (fun d entry => dictSet d entry.roomId (finalMembership userId entry)) []

/-- The timeline without the events that recovered pages applied -/
def filterTimeline (applied : List Json) (timeline : List Event) : Except SessionError (List Event) :=
  timeline.filterMapM fun event => do
    if ← inSet event.sourceId applied then return none else return some event

def filterRoom (plan : Plan) (p : Str × RoomInfo events) :
    Except SessionError (Str × RoomInfo events) := do
  let events ← filterTimeline ((dictGet? plan.appliedIds p.1).getD []) p.2.timeline.events
  return (p.1, { p.2 with timeline := { p.2.timeline with events } })

/-- The response of the tail -/
def filterResponse (plan : Plan) (response : SyncResponse events) :
    Except SessionError (SyncResponse events) := do
  let join ← response.rooms.join.mapM (filterRoom plan)
  let leave ← response.rooms.leave.mapM (filterRoom plan)
  return { response with rooms := { response.rooms with join, leave } }

/-- `_timeline_room` for the state of the rooms that the client has -/
def resetFromState (env : Env) (s : Session) (entries : List RoomEntry) : Session :=
  entries.foldl (fun s entry => entry.info.state.foldl (fun s event =>
    if entry.roomId ∈ s.rooms then s.timelineRoom env entry.roomId event else s) s) s

def setNonjoined (w : Work) (roomId : Str) (cursor : Str) : Work :=
  { w with session := w.session.updateMetadata roomId fun m =>
    { m with nonjoinedCursor := some cursor } }

/-- A room that the client has is saved. -/
def Work.addKnownRoom (w : Work) (roomId : Str) : Work :=
  if roomId ∈ w.session.rooms then w.addRoom roomId else w

/-- What the tail does for a room of the response after its events -/
def settleRoom (env : Env) (completeState : Bool) (flags : Flags) (cursor : Str)
    (memberships : List (Str × Membership)) (w : Work) (entry : RoomEntry) :
    Except SessionError Work := do
  let roomId := entry.roomId
  let membership := (dictGet? memberships roomId).getD entry.section.membership
  let complete := completeState ∨ flags.newlyJoinedRoom = some roomId
  let w := { w with session := w.session.updateMetadata roomId fun m =>
    if entry.section = RoomSection.join ∧ complete ∧ roomId ∉ w.session.resets then
      { m with baseline := m.joined } else m }
  let w := w.addKnownRoom roomId
  let (w, _) ← reconcile env w roomId membership
  if entry.section = .leave ∧ (w.session.getMetadata roomId).left then
    return setNonjoined w roomId cursor
  else return w

/-- What the tail does for an invitation -/
def settleInvite (env : Env) (cursor : Str) (w : Work) (roomId : Str) : Except SessionError Work := do
  let (w, _) ← reconcile env w roomId .invite
  return setNonjoined w roomId cursor

/-- A joined room that a complete response does not name was left and forgotten. -/
def settleAbsent (env : Env) (pages : Nat) (cursor : Str) (present : List Str) (w : Work)
    (roomId : Str) : Except SessionError Work :=
  if (w.session.getMetadata roomId).joined = false ∨ roomId ∈ present then .ok w
  else do
    let w ← loss env w roomId "joined room absent from complete sync" pages none
    if roomId ∉ w.session.rooms then .error .key
    else
      let w ← runMoves env w [.yield (.ofSection roomId .leave)]
      let (w, _) ← reconcile env w roomId .leave
      return setNonjoined w roomId cursor

/-- Only a complete response proves that a room is absent. -/
def settleAbsentRooms (env : Env) (flags : Flags) (pages : Nat) (cursor : Str) (present : List Str)
    (w : Work) : Except SessionError Work :=
  if flags.fullState then
    (w.session.metadata.map (·.1)).foldlM (settleAbsent env pages cursor present) w
  else .ok w

/-- Pre-boundary joined history must not restore a locally revoked room. -/
def dropLeft (w : Work) : Work :=
  let session := w.processor.rooms.foldl (fun s roomId =>
    if (s.getMetadata roomId).left then dropRoom s roomId .leave else s) w.session
  { w with session }

def Plan.pages (plan : Plan) : Nat := (plan.position.map Position.pages).getD 0

/-- The position and the continuation that a tail commits -/
def finishTail (s : Session) (cursor : Str) : Session :=
  { (s.effect .tail).effect (.cursor cursor) with
    disk := { s.disk with
      cursor := some cursor
      input := s.disk.input.map fun p => (p.1, .prepared) } }

/-- A recovery prologue that was committed has decrypted the to-device events already. -/
def clearToDevice (plan : Plan) (response : SyncInput) : SyncInput :=
  if plan.position = none then response
  else
    match response with
    | .classic r => .classic { r with toDeviceEvents := [] }
    | .sliding r => .sliding { r with toDeviceEvents := [] }

/-- The ghost that goes with `clearToDevice` -/
def tailDecrypts (plan : Plan) (s : Session) : Session :=
  if plan.position = none then s.effect .decrypted else s

def classicTail (env : Env) (crypto : Crypto) (flags : Flags) (plan : Plan) (w : Work)
    (response : SyncResponse events) : Except SessionError Work := do
  let entries := roomEntries (.classic response)
  let memberships := boundaryMemberships env.userId entries
  let explicit := (entries.filter fun entry =>
    (lastOwnMembership env.userId entry.info).isSome).foldl
      (fun xs entry => insertNew xs entry.roomId) plan.explicitRooms
  let response ← filterResponse plan response
  let session := resetFromState env w.session entries
  let w := { w with
    session := { session with resets := [] }
    processor := { Processor.new explicit with suppressIds := plan.appliedIds } }
  let w ← runMoves env w (← iterSync crypto response)
  let cursor := stringOf response.nextBatch
  let completeState := flags.fullState || (plan.oldCursor.isNone && !env.filtered)
  let w ← entries.foldlM (settleRoom env completeState flags cursor memberships) w
  let w ← (response.rooms.invite.map (·.1)).foldlM (settleInvite env cursor) w
  let present := response.rooms.join.map (·.1) ++ response.rooms.leave.map (·.1) ++
    response.rooms.invite.map (·.1)
  let w ← settleAbsentRooms env flags plan.pages cursor present w
  let w := dropLeft w.save
  return { w with session := finishTail w.session cursor }

/-! ## The tail of a Sliding response -/

/-- What the tail does for a room of a Sliding response after its events; the rooms to reset are
collected. -/
def settleSliding (env : Env) (w : Work × List Str) (entry : Str × SlidingRoom) :
    Except SessionError (Work × List Str) := do
  let (roomId, room) := entry
  let (w, resets) := w
  let (proof, _) := w.session.slidingMembership env roomId room
  let w := { w with session := w.session.updateMetadata roomId fun m =>
    { m with baseline := proof ≠ Json.null && m.joined && (room.initial || m.baseline) } }
  let m := w.session.getMetadata roomId
  let resets := if m.joined ∧ m.baseline = false then insertNew resets roomId else resets
  let w := w.addKnownRoom roomId
  match boundaryMembership env.userId room with
  | none => return (w, resets)
  | some boundary =>
    let (w, reset) ← reconcile env w roomId boundary
    return (w, if reset ∧ boundary = .join then insertNew resets roomId else resets)

/-- A Sliding tail keeps the projections of invitations. -/
def dropLeftSliding (w : Work) : Work :=
  let session := w.processor.rooms.foldl (fun s roomId =>
    if (s.getMetadata roomId).left then { s with rooms := removeKey s.rooms roomId } else s) w.session
  { w with session }

def slidingTail (env : Env) (crypto : Crypto) (plan : Plan) (w : Work) (response : SlidingResponse) :
    Except SessionError Work := do
  let explicit := (response.rooms.filter fun p =>
    p.2.membership ≠ some (py "invite") && p.2.strippedState.isEmpty).foldl
      (fun xs p => insertNew xs p.1) plan.explicitRooms
  let w := { w with processor := Processor.new explicit }
  let w ← runSliding env crypto plan w response
  let (w, resets) ← response.rooms.foldlM (settleSliding env) (w, [])
  let w := dropLeftSliding w.save
  let w ← commitSliding env crypto plan w response
  let session := (resets ++ w.session.resets).foldl Session.forgetRoom w.session
  return { w with session := finishTail { session with resets := [] } response.pos }

/-- `_tail` -/
def tail (env : Env) (crypto : Crypto) (flags : Flags) (plan : Plan) (w : Work)
    (response : SyncInput) : Except SessionError Work :=
  let w := { w with session := tailDecrypts plan w.session }
  match clearToDevice plan response with
  | .classic r => classicTail env crypto flags plan w r
  | .sliding r => slidingTail env crypto plan w r

/-! ## The prologue -/

/-- The continuation of an input that has no phase yet -/
def initialPlan (s : Session) (response : SyncInput) : Plan :=
  let unknown := ((roomEntries response).filter fun entry =>
    !(s.getMetadata entry.roomId).baseline).map RoomEntry.roomId
  ⟨s.disk.cursor, 0, unknown, [], [], unknown, none, none⟩

def makePlan (env : Env) (s : Session) (response : SyncInput) : Except SessionError Plan :=
  match response with
  | .classic _ => .ok (initialPlan s response)
  | .sliding r => planSliding env s r (initialPlan s response)

/-- `session.cursor or session._sliding` -/
def Session.continues (env : Env) (s : Session) : Bool :=
  (present s.disk.cursor).isSome || env.isSliding

/-- The losses of the rooms without a baseline -/
def unknownLosses (env : Env) (plan : Plan) (w : Work) : Except SessionError Work :=
  plan.unknownRooms.foldlM
    (fun w roomId => loss env w roomId "unknown authorization baseline" plan.pages none) w

/-- The first response of all has nothing to lose. -/
def initialLosses (env : Env) (plan : Plan) (w : Work) : Except SessionError Work :=
  if w.session.continues env then unknownLosses env plan w else .ok w

def toDeviceOf : SyncInput → List (Option ToDeviceEvent)
  | .classic r => r.toDeviceEvents
  | .sliding r => r.toDeviceEvents

def Session.saveContinuation (s : Session) (c : Continuation) : Session :=
  { s with disk := { s.disk with input := s.disk.input.map fun p => (p.1, c) } }

/-- The prologue of an input that has rooms to recover -/
def prologue (env : Env) (crypto : Crypto) (flags : Flags) (plan : Plan) (s : Session)
    (response : SyncInput) : Except SessionError Session := do
  let (plan, _) ← nextRoom env plan (candidates env s response) 0
  let w : Work := ⟨s.effect .decrypted, plan.historyRooms, .new []⟩
  let w ← runMoves env w (← iterToDevice crypto (toDeviceOf response))
  let w ← unknownLosses env plan w
  let w := w.save
  return w.session.saveContinuation (.recover flags { plan with historyRooms := w.historyRooms })

/-- An input without a room to recover is interpreted at once. -/
def prepareAll (env : Env) (crypto : Crypto) (flags : Flags) (plan : Plan) (s : Session)
    (response : SyncInput) : Except SessionError Session := do
  let w ← initialLosses env plan ⟨s, plan.historyRooms, .new []⟩
  return (← tail env crypto flags plan w response).session

/-- The body of `prepare` for an input in the phase of the continuation -/
def prepare (env : Env) (crypto : Crypto) (s : Session) (response : SyncInput) :
    Continuation → Except SessionError Session
  | .captured flags => do
    let plan ← makePlan env s response
    if s.continues env ∧ candidates env s response ≠ [] then
      prologue env crypto flags plan s response
    else prepareAll env crypto flags plan s response
  | .tail flags plan => do
    return (← tail env crypto flags plan ⟨s, plan.historyRooms, .new []⟩ response).session
  | .recover _ _ | .prepared => .ok s

/-! ## Pages -/

/-- What the HTTP request of a page comes to -/
inductive Answer where
  | body (body : List Nat)
  | tooLarge
  /-- An HTTP error, or retries that are exhausted -/
  | failed

inductive PageError where
  | tooLarge
  | malformed
  | uncaught
  deriving DecidableEq, Repr

structure Page where
  chunk : List Event
  «end» : Option Str

/-- An event of a page has an identity of at most 8192 characters. -/
def hasIdentity (event : Json) : Bool :=
  match event.get? (py "event_id") with
  | some (.str id) => id ≠ [] && id.length ≤ 8192
  | _ => false

/-- `except (LocalProtocolError, ValueError, TypeError, KeyError)` -/
def pageError : PyError → PageError
  | .value | .type | .key | .protocol => .malformed
  | _ => .uncaught

/-- `RoomMessagesResponse.from_dict`; `none` is an error response. -/
def messagesFromDict (env : Env) (raw : Json) : Except PyError (Option Page) :=
  let schema := Schema.all [Schema.type .object,
    Schema.properties [Schema.prop "chunk" (Schema.type .array), Schema.prop "start" Schemas.string,
      Schema.prop "end" Schemas.string],
    Schema.required ["chunk", "start"]]
  match schema raw with
  | none => .ok none
  | some raw => do
    let chunk ← SyncResponse.getEvents env.parsers.room (← getItem raw "chunk")
    let stop := (← getOptional raw "end").map stringOf
    return some ⟨chunk, stop⟩

/-- The checks of a page of history -/
def parsePage (env : Env) (position : Position) (body : List Nat) : Except PageError Page :=
  match loadsBody env.parsers body with
  | .error _ => .error .malformed
  | .ok raw =>
    match raw.get? (py "chunk") with
    | some (.arr chunk) =>
      if getSource raw "start" ≠ optional .str position.from then .error .malformed
      else if position.limit < chunk.length then .error .tooLarge
      else if chunk.all hasIdentity = false then .error .malformed
      else
        match messagesFromDict env raw with
        | .error e => .error (pageError e)
        | .ok none => .error .malformed
        | .ok (some page) =>
          if page.chunk.length ≠ chunk.length then .error .malformed
          else if page.chunk.any (fun event => event.cls = .bad) then .error .malformed
          else .ok page
    | _ => .error .malformed

def readAnswer (env : Env) (position : Position) : Answer → Except PageError Page
  | .body body => parsePage env position body
  | .tooLarge => .error .tooLarge
  | .failed => .error .malformed

/-- What `advance` is to do for the room of the current index -/
inductive PageStep where
  /-- The recovery of the room is over, with a loss or without one. -/
  | finish (loss : Option String)
  | request
  deriving DecidableEq, Repr

/-- The target of the recovery: the position before the retained tail -/
def RoomEntry.target (entry : RoomEntry) : Option Str :=
  match entry.info.timeline.prevBatch with
  | some (.str target) => if target ≠ [] ∧ target.length ≤ 8192 then some target else none
  | _ => none

def pageStep (env : Env) (plan : Plan) (position : Position) (entry : RoomEntry) : PageStep :=
  if entry.roomId ∈ plan.unknownRooms then .finish none
  else
    match entry.target with
    | none => .finish (some "missing or oversized history boundary")
    | some target =>
      if position.from = some target then .finish none
      else if env.maxPages ≤ position.pages then .finish (some "history page limit exhausted")
      else .request

/-- The events of a page that were not applied yet, up to the retained tail; the flag says that the
page reaches the tail. A Sliding page goes on after an event of the tail. -/
def newEvents (isSliding : Bool) (tailIds : List Json) : List Json → List Event → List Event × Bool
  | _, [] => ([], false)
  | seen, event :: rest =>
    if event.sourceId ∈ tailIds then
      if isSliding then ((newEvents isSliding tailIds seen rest).1, true) else ([], true)
    else if event.sourceId ∈ seen then newEvents isSliding tailIds seen rest
    else
      let (events, overlap) := newEvents isSliding tailIds (seen ++ [event.sourceId]) rest
      (event :: events, overlap)

def Position.json (p : Position) : List (Str × Json) :=
  [(py "from", optional .str p.from), (py "pages", .int (p.pages : Nat)),
    (py "seen_tokens", .arr (p.seenTokens.map (optional .str))), (py "limit", .int (p.limit : Nat))]

def strings (xs : List Str) : Json := .arr (xs.map .str)

/-- `encode_json(state)` of a continuation in its recovery -/
def Plan.json (flags : Flags) (plan : Plan) (isSliding : Bool) : Json :=
  .obj ([(py "full_state", .bool flags.fullState),
    (py "newly_joined_room", optional .str flags.newlyJoinedRoom),
    (py "transport", .str (py (if isSliding then "sliding" else "classic"))),
    (py "phase", .str (py "recover")), (py "old_cursor", optional .str plan.oldCursor),
    (py "room_index", .int (plan.roomIndex : Nat)), (py "history_rooms", strings plan.historyRooms),
    (py "explicit_rooms", strings plan.explicitRooms),
    (py "applied_ids", .obj (plan.appliedIds.map fun p => (p.1, .arr p.2))),
    (py "unknown_rooms", strings plan.unknownRooms)] ++
    (match plan.sliding with
      | some sliding =>
        [(py "sliding_starts", .obj (sliding.starts.map fun p => (p.1, .str p.2))),
          (py "recovered_rooms", strings sliding.recoveredRooms),
          (py "sliding_history_prefixes",
            .obj (sliding.historyPrefixes.map fun p => (p.1, .int (p.2 : Nat))))]
      | none => []) ++ (plan.position.map Position.json).getD [])

/-- `CONTROL_BYTES` -/
def controlBytes : Nat := 2 * 1024 * 1024

/-- What is committed of a page -/
structure PageCommit where
  plan : Plan
  position : Position
  events : List Event
  «end» : Option Str
  done : Bool
  loss : Option String

/-- A page that ends the recovery of its room without events -/
def PageCommit.finish (plan : Plan) (position : Position) (loss : Option String) : PageCommit :=
  ⟨plan, position, [], none, true, loss⟩

/-- The token is one that a later request can start from and that none has started from. -/
def freshToken (position : Position) : Option Str → Bool
  | some token => token ≠ [] && token.length ≤ 8192 && some token ∉ position.seenTokens
  | none => false

/-- The page of history is measured against the tail and the bounds of the continuation. -/
def planPage (env : Env) (flags : Flags) (plan : Plan) (position : Position) (entry : RoomEntry)
    (page : Page) : Except SessionError PageCommit := do
  let tailIds := entry.info.timeline.events.map Event.sourceId
  let previousIds := (dictGet? plan.appliedIds entry.roomId).getD []
  let (events, overlap) := newEvents env.isSliding tailIds previousIds page.chunk
  let done := page.end = entry.target ∧ entry.target.isSome ∨
    (if env.isSliding then page.chunk = [] ∧ page.end = none else overlap)
  let error := if ¬ done ∧ freshToken position page.end = false then
    some "history boundary missing or token cycle" else none
  let seen := previousIds ++ events.map Event.sourceId
  let position := { position with
    pages := position.pages + 1
    seenTokens := if (present page.end).isSome ∧ ¬ done ∧ error = none then
      position.seenTokens ++ [page.end] else position.seenTokens }
  let applied := { plan with appliedIds := dictSet plan.appliedIds entry.roomId seen }
  let size ← encodedJsonSize (Plan.json flags { applied with position := some position } env.isSliding)
  if controlBytes < size then
    -- the page is not applied: the table of identities stays bounded
    return ⟨{ plan with appliedIds := dictSet plan.appliedIds entry.roomId previousIds }, position, [],
      page.end, true, some "history continuation bound exhausted"⟩
  else return ⟨applied, position, events, page.end, decide (done ∨ error.isSome), error⟩

/-- The identities that an oversized page leaves applied: those of the records, and that of the event
which the loss stands for -/
def dropUntouched (plan : Plan) (roomId : Str) (events : List Event) (processed : Nat) : Plan :=
  let untouched := (events.drop (processed + 1)).map Event.sourceId
  let kept := ((dictGet? plan.appliedIds roomId).getD []).filter fun id => id ∉ untouched
  { plan with appliedIds := dictSet plan.appliedIds roomId kept }

/-- The events of a page change the room like a timeline. -/
def consumePage (env : Env) (crypto : Crypto) (w : Work) (entry : RoomEntry) (events : List Event) :
    Except SessionError Work :=
  if events = [] then .ok w
  else
    let w := { w with session := { w.session with rooms := insertNew w.session.rooms entry.roomId } }
    runMoves env w (iterRoomTimeline crypto entry.roomId events entry.section true none)

/-- The processor of a page -/
def Processor.page (plan : Plan) : Processor :=
  { Processor.new plan.explicitRooms with provenance := .recovered, stopOnOversized := true }

/-- The loss of a page, if it has one -/
def pageLoss (env : Env) (w : Work) (roomId : Str) (pages : Nat) :
    Option String → Except SessionError Work
  | none => .ok w
  | some reason => do
    let w ← loss env w roomId reason pages w.processor.oversizedMembership
    return w.addKnownRoom roomId

/-- `_commit_page` -/
def commitPage (env : Env) (crypto : Crypto) (flags : Flags) (s : Session) (rooms : List RoomEntry)
    (entry : RoomEntry) (c : PageCommit) : Except SessionError Session := do
  let w : Work := ⟨s.effect (.page entry.roomId), c.plan.historyRooms, .page c.plan⟩
  let w ← consumePage env crypto w entry c.events
  let plan := if w.processor.oversized then
    dropUntouched c.plan entry.roomId c.events w.processor.processedRecords else c.plan
  let lossReason := if w.processor.oversized then some "oversized recovered event" else c.loss
  let w ← pageLoss env w entry.roomId c.position.pages lossReason
  let plan := { plan with
    historyRooms := w.historyRooms
    explicitRooms := w.processor.explicitMemberships }
  let w := w.save
  if c.done ∨ w.processor.oversized then
    let (plan, isLast) ← nextRoom env plan rooms (plan.roomIndex + 1)
    return w.session.saveContinuation (if isLast then .tail flags plan else .recover flags plan)
  else
    return w.session.saveContinuation (.recover flags { plan with
      position := some { c.position with «from» := c.end } })

/-- `advance` in the phase `recover`, with the answer to its request -/
def advance (env : Env) (crypto : Crypto) (flags : Flags) (plan : Plan) (position : Position)
    (s : Session) (response : SyncInput) (answer : Answer) : Except SessionError Session := do
  let rooms := candidates env s response
  match rooms[plan.roomIndex]? with
  | none => .error .key
  | some entry =>
    match pageStep env plan position entry with
    | .finish reason => commitPage env crypto flags s rooms entry (.finish plan position reason)
    | .request =>
      match readAnswer env position answer with
      | .error .uncaught => .error .attribute
      | .error .tooLarge =>
        if 1 < position.limit then
          return s.saveContinuation (.recover flags { plan with
            position := some { position with limit := max 1 (position.limit / 2) } })
        else
          commitPage env crypto flags s rooms entry
            (.finish plan position (some "oversized history event"))
      | .error .malformed =>
        commitPage env crypto flags s rooms entry
          (.finish plan position (some "history unavailable or malformed"))
      | .ok page =>
        commitPage env crypto flags s rooms entry (← planPage env flags plan position entry page)

end Nio.Durable
