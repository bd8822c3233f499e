import Nio.Durable.Recovery

/-!
# Runs of a durable session

The committed transactions of a session, one action each, and what happens between them: an
acknowledgement of the consumer, and the end of the process, after which the store is opened again.
The runner, the consumer and local commands only meet between transactions, so that a run is a list
of actions in any order that the guards of the source allow.

An action carries what the outside answers. `commits` says whether the transaction goes through; one
that fails leaves the disk as it was, and a failed interpretation closes the session until it is
opened again.
-/

namespace Nio.Durable

open Nio.Py
open Nio.Lib

inductive Action where
  /-- `_capture_response` -/
  | capture (body : List Nat) (flags : Flags) (commits : Bool)
  /-- `Recovery.prepare` -/
  | prepare (crypto : Crypto) (commits : Bool)
  /-- `Recovery.advance` in the phase `recover` -/
  | page (answer : Answer) (crypto : Crypto) (commits : Bool)
  /-- The end of an input, after the maintenance of the crypto state -/
  | finish (commits : Bool)
  | ack
  /-- The local operation that `change_membership` retains -/
  | changeMembership (operationId roomId : Str) (previous : Option LocalMembership)
      (previousEpoch : Nat) (current : LocalMembership) (commits : Bool)
  /-- The proof of a nonjoined boundary that `_apply_local_intent` retains before its request -/
  | proveJoin (commits : Bool)
  /-- The request of `_apply_local_intent` -/
  | request (accepted commits : Bool)
  /-- `wait_for_membership_idle` -/
  | membershipIdle (commits : Bool)
  /-- The process ends, and the store is opened again; the stored projections say which rooms are
  invitations. -/
  | reopen (isInvited : Str → Bool)

namespace Session

/-- What `open_durable_sync` finds on the disk -/
def opened (disk : Disk) (isInvited : Str → Bool) : Session :=
  let rooms := (disk.rooms.filter fun p => !p.2.left).map (·.1)
  { disk
    metadata := disk.rooms
    rooms := rooms.filter fun r => !isInvited r
    invited := rooms.filter isInvited
    baselines := disk.checkpoints
    resets := []
    response := none
    pendingAccountData := disk.accountData
    effects := []
    isOpen := true }

/-- The transaction commits what its body did. -/
def commit (s : Session) : Session :=
  { s with
    disk := { s.disk with history := s.disk.history ++ [s.effects] }
    effects := [] }

/-- A transaction whose failure leaves the session as it was -/
def attempt (s : Session) (commits : Bool) (body : Except SessionError Session) : Session :=
  match body with
  | .ok s' => if commits then s'.commit else s
  | .error _ => s

/-- A transaction whose failure closes the session: `_poison` -/
def interpret (s : Session) (commits : Bool) (body : Except SessionError Session) : Session :=
  match body with
  | .ok s' => if commits then s'.commit else { s with isOpen := false }
  | .error _ => { s with isOpen := false }

/-- The response of the retained input: the one in memory, or the body decoded again -/
def currentResponse (env : Env) (s : Session) : Option SyncInput :=
  match s.response with
  | some response => some response
  | none =>
    match s.disk.input with
    | some (body, _) => ((decodeResponse env.config env.parsers body).toOption).map (·.1)
    | none => none

def withResponse (s : Session) (response : SyncInput) : Session := { s with response := some response }

/-! ## Input -/

def capture (env : Env) (s : Session) (body : List Nat) (flags : Flags) (commits : Bool) : Session :=
  match decodeResponse env.config env.parsers body with
  | .error _ => s
  | .ok (response, _) =>
    if s.disk.input.isSome then s
    else
      s.attempt commits (.ok ({ s.effect (.captured body) with
        disk := { s.disk with input := some (body, .captured flags) }
        response := some response }))

def prepareStep (env : Env) (s : Session) (crypto : Crypto) (commits : Bool) : Session :=
  match s.disk.continuation, s.currentResponse env with
  | some (.captured flags), some response =>
    let s := s.withResponse response
    s.interpret commits (prepare env crypto s response (.captured flags))
  | some (.tail flags plan), some response =>
    let s := s.withResponse response
    s.interpret commits (prepare env crypto s response (.tail flags plan))
  | some (.recover _ _), some response => s.withResponse response
  | _, _ => s

/-- A page waits until the consumer has acknowledged every batch. -/
def pageStep (env : Env) (s : Session) (answer : Answer) (crypto : Crypto) (commits : Bool) :
    Session :=
  match s.disk.continuation, s.currentResponse env with
  | some (.recover flags plan), some response =>
    match plan.position with
    | none => s
    | some position =>
      if s.disk.hasBatches then s
      else
        let s := s.withResponse response
        s.interpret commits (advance env crypto flags plan position s response answer)
  | _, _ => s

/-- The transaction that ends an input needs that everything was acknowledged. -/
def finish (s : Session) (commits : Bool) : Session :=
  match s.disk.continuation with
  | some .prepared =>
    if s.disk.hasBatches then s
    else
      let s' := { s.effect .finished with
        disk := { s.disk with input := none }
        response := none }
      s.attempt commits (s'.publish [] true)
  | _ => s

/-- `ack` of the oldest batch -/
def ack (s : Session) : Session :=
  if s.disk.hasBatches then { s with disk := { s.disk with acked := s.disk.acked + 1 } } else s

/-! ## Local membership -/

def saveIntent (s : Session) (intent : Option Intent) : Session :=
  { s with disk := { s.disk with intent } }

/-- `change_membership` up to the transaction that retains the intent -/
def changeMembershipStep (env : Env) (s : Session) (operationId roomId : Str)
    (previous : Option LocalMembership) (previousEpoch : Nat) (current : LocalMembership)
    (commits : Bool) : Session :=
  let intent : Intent := ⟨operationId, roomId, previous.getD .leave, previousEpoch, current, none,
    none, false⟩
  if env.config.transport = .toDevice ∨ roomId = [] ∨ s.disk.intent.isSome ∨
      s.localPositionMatches intent = false then s
  else s.attempt commits (.ok (s.saveIntent (some intent)))

/-- A nonjoined observation at exactly the current cursor -/
def joinBaseline (s : Session) (roomId : Str) : Option Str :=
  let m := s.getMetadata roomId
  if (m.membership = some .invite ∨ m.left) ∧ m.nonjoinedCursor = s.disk.cursor then s.disk.cursor
  else none

/-- `_apply_local_intent` before its request; an operation without one is left as it is. -/
def proveJoin (s : Session) (commits : Bool) : Session :=
  match s.disk.intent with
  | some intent =>
    if s.disk.input.isSome ∨ intent.sequence.isSome then s
    else if s.localPositionMatches intent = false then s.attempt commits (.ok (s.saveIntent none))
    else if intent.currentMembership = .join ∧ intent.joinBaselineCursor = none then
      s.attempt commits (.ok (s.saveIntent (some { intent with
        joinBaselineCursor := some (s.joinBaseline intent.roomId) })))
    else s
  | none => s

/-- The change that a successful local operation publishes -/
def localChange (intent : Intent) : OwnMembership :=
  ⟨some intent.previousMembership.membership, intent.currentMembership.membership,
    intent.previousEpoch,
    intent.previousEpoch + if intent.previousMembership = .join ∧ intent.currentMembership = .leave
      then 1 else 0, .local⟩

/-- What a successful request changes in the client -/
def localRooms (s : Session) (intent : Intent) : Session :=
  match intent.currentMembership with
  | .join => (s.resetJoinedRoom intent.roomId).forgetRoom intent.roomId
  | .leave =>
    { s with
      rooms := removeKey s.rooms intent.roomId
      invited := removeKey s.invited intent.roomId }

/-- The transaction of `_apply_local_intent` after a successful request -/
def applyLocal (s : Session) (intent : Intent) : Except SessionError Session := do
  let change := localChange intent
  let s := s.updateMetadata intent.roomId fun m => { m with
    membership := some change.current
    membershipEpoch := change.currentEpoch
    baseline := false }
  let s := (s.localRooms intent).saveRooms [intent.roomId]
  let s ← s.publish [lifecycleRecord intent.roomId change] false
  return s.saveIntent (some { intent with sequence := some s.disk.batches.length })

/-- The request of `_apply_local_intent`: it is only sent while no input is retained. -/
def request (s : Session) (accepted commits : Bool) : Session :=
  match s.disk.intent with
  | some intent =>
    if s.disk.input.isSome ∨ intent.sequence.isSome ∨ s.localPositionMatches intent = false ∨
        (intent.currentMembership = .join ∧ intent.joinBaselineCursor = none) then s
    else if accepted then s.interpret commits (s.applyLocal intent)
    else s.attempt commits (.ok (s.saveIntent none))
  | none => s

/-- The operation that was observed and acknowledged is forgotten. -/
def membershipIdle (s : Session) (commits : Bool) : Session :=
  match s.disk.intent with
  | some intent =>
    match intent.sequence with
    | some sequence =>
      if sequence ≤ s.disk.acked ∧ intent.observed then s.attempt commits (.ok (s.saveIntent none))
      else s
    | none => s
  | none => s

end Session

/-- One action. A session that is closed only opens again. -/
def step (env : Env) (s : Session) (action : Action) : Session :=
  match action with
  | .reopen isInvited => .opened s.disk isInvited
  | action =>
    if s.isOpen = false then s
    else
      match action with
      | .capture body flags commits => s.capture env body flags commits
      | .prepare crypto commits => s.prepareStep env crypto commits
      | .page answer crypto commits => s.pageStep env answer crypto commits
      | .finish commits => s.finish commits
      | .ack => s.ack
      | .changeMembership operationId roomId previous previousEpoch current commits =>
        s.changeMembershipStep env operationId roomId previous previousEpoch current commits
      | .proveJoin commits => s.proveJoin commits
      | .request accepted commits => s.request accepted commits
      | .membershipIdle commits => s.membershipIdle commits
      | .reopen isInvited => .opened s.disk isInvited

/-- The session of a store that is opened for the first time -/
def Session.fresh (cursor : Option Str) : Session := .opened (.fresh cursor) fun _ => false

end Nio.Durable
