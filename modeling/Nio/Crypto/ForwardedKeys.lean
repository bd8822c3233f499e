import Nio.Crypto.GroupSessions
import Nio.Crypto.KeyQuery
import Nio.Events.ToDevice

/-!
# Forwarded room keys

`Olm._handle_forwarded_room_key_event` takes a session that one of our other devices forwards when
it answers a key request that we sent. The request is found under the session id that the payload
names, and the session is stored under the id that its key has.

* `answersOneRequest_iff` — when a forward answers the one request that it names
-/

namespace Nio.Crypto

open Nio.Py
open Nio.Lib
open Nio.Events (PyError BadEventType verify getItem getStr getObj getStrs)

variable {ρ : Type}

/-! ## The database -/

/-- A row of `outgoingkeyrequests`, where `request_id` and `account_id` are unique -/
structure OutgoingKeyRequests where
  requestId : Str
  sessionId : Str
  roomId : Str
  algorithm : Str
  account : Nat
  deriving DecidableEq, Repr

namespace OutgoingKeyRequests

def key (row : OutgoingKeyRequests) : Str × Nat := (row.requestId, row.account)

/-- `add_outgoing_key_request` -/
def add (account : Nat) (rows : List OutgoingKeyRequests) (r : OutgoingKeyRequest) :
    List OutgoingKeyRequests :=
  insertIgnore key ⟨r.requestId, r.sessionId, r.roomId, r.algorithm, account⟩ rows

/-- `remove_outgoing_key_request` -/
def drop (account : Nat) (rows : List OutgoingKeyRequests) (r : OutgoingKeyRequest) :
    List OutgoingKeyRequests :=
  remove key (r.requestId, account) rows

/-- `OutgoingKeyRequest.from_database` -/
def toRequest (row : OutgoingKeyRequests) : OutgoingKeyRequest :=
  ⟨row.requestId, row.sessionId, row.roomId, row.algorithm⟩

/-- `load_outgoing_key_requests` -/
def load (account : Nat) (rows : List OutgoingKeyRequests) : List (Str × OutgoingKeyRequest) :=
  (rows.filter fun row => row.account = account).foldl
    (fun requests row => dictSet requests row.requestId row.toRequest) []

end OutgoingKeyRequests

/-! ## Payloads -/

structure ForwardedRoomKeyEvent where
  source : Json
  sender : Str
  senderKey : Str
  roomId : Str
  sessionId : Str
  algorithm : Str

def forwardedContent (payload : Json) : Except PyError ForwardedRoomKey := do
  let content ← getItem payload "content"
  return ⟨← getStr content "algorithm", ← getStr content "room_id", ← getStr content "session_id",
    ← getStr content "session_key", ← getStr content "sender_key",
    ← getStr content "sender_claimed_ed25519_key",
    ← getStrs content "forwarding_curve25519_key_chain"⟩

/-- A payload without the session key -/
def shownSource (payload : Json) : Except PyError Json := do
  let content ← getObj payload "content"
  match payload with
  | .obj kvs => return .obj (dictSet kvs (py "content") (.obj (dictErase content (py "session_key"))))
  | _ => .error .type

/-- `ForwardedRoomKeyEvent.from_dict`, with the content that its handler reads -/
def forwardedRoomKeyFromDict (sender senderKey : Str) :
    Json → Except PyError (BadEventType ⊕ ForwardedRoomKeyEvent × ForwardedRoomKey) :=
  verify Schemas.forwardedRoomKeyEvent .inl fun payload => do
    let key ← forwardedContent payload
    let source ← shownSource payload
    return .inr (⟨source, sender, senderKey, key.roomId, key.sessionId, key.algorithm⟩, key)

/-- What the handler returns: the bad event, nothing, or the event. -/
inductive ForwardedKeyResult where
  | bad (event : BadEventType)
  | none
  | event (event : ForwardedRoomKeyEvent)

/-! ## `Olm` -/

/-- `as_cancellation` -/
def OutgoingKeyRequest.asCancellation (r : OutgoingKeyRequest) (userId requestingDeviceId : Str) :
    ToDeviceMessage :=
  ⟨py "m.room_key_request", userId, py "*", .obj [
    (py "action", .str (py "request_cancellation")),
    (py "request_id", .str r.requestId),
    (py "requesting_device_id", .str requestingDeviceId)]⟩

structure KeyForwards (ρ : Type) where
  deviceId : Str
  sessions : GroupSessions ρ
  deviceStore : List OlmDevice
  outKeyRequests : List OutgoingKeyRequests
  outgoingToDeviceMessages : List ToDeviceMessage

namespace KeyForwards

def fresh (userId deviceId curve25519 ed25519 : Str) (account : Nat) : KeyForwards ρ :=
  ⟨deviceId, .fresh userId curve25519 ed25519 account, [], [], []⟩

def senderDevice (o : KeyForwards ρ) (sender senderKey : Str) : Option SenderDevice :=
  (deviceFromSenderKey o.deviceStore sender senderKey).map fun d =>
    ⟨d.userId, d.trustState = .verified⟩

/-- The session is kept; the request is popped, deleted and cancelled. -/
def answer (lib : Vodozemac ρ) (o : KeyForwards ρ) (s : InboundGroupSession ρ) (sessionId : Str) :
    Except PyError (KeyForwards ρ) :=
  let sessions := o.sessions.keep lib false s
  match dictGet? sessions.outgoingKeyRequests sessionId with
  | none => .error .key
  | some request => .ok { o with
      sessions := { sessions with
        outgoingKeyRequests := dictErase sessions.outgoingKeyRequests sessionId }
      outKeyRequests := OutgoingKeyRequests.drop sessions.store.account o.outKeyRequests request
      outgoingToDeviceMessages := o.outgoingToDeviceMessages ++
        [request.asCancellation sessions.userId o.deviceId] }

/-- `_handle_forwarded_room_key_event` -/
def handleForwardedRoomKeyEvent (lib : Vodozemac ρ) (o : KeyForwards ρ) (sender senderKey : Str)
    (payload : Json) : Except PyError (KeyForwards ρ × ForwardedKeyResult) := do
  match ← forwardedRoomKeyFromDict sender senderKey payload with
  | .inl bad => return (o, .bad bad)
  | .inr (event, key) =>
    if !o.sessions.shouldAcceptForward key (o.senderDevice sender senderKey) then return (o, .none)
    else
      match GroupSessions.forwardedSession lib key with
      | none => return (o, .none)
      -- the id of the session is not compared with the one that was asked for
      | some s => return (← o.answer lib s event.sessionId, .event event)

/-- `handle_response` of a `RoomKeyRequestResponse`, and a room key request that was sent -/
def keyRequestSent (o : KeyForwards ρ) (r : OutgoingKeyRequest) : KeyForwards ρ :=
  { o with
    sessions := o.sessions.keyRequestSent r
    outKeyRequests := OutgoingKeyRequests.add o.sessions.store.account o.outKeyRequests r }

/-- A process that starts with the database of the last one -/
def restart (lib : Vodozemac ρ) (o : KeyForwards ρ) : KeyForwards ρ :=
  { o with
    sessions := { o.sessions with
      inboundGroupStore := o.sessions.store.loadInboundGroupSessions lib
      outgoingKeyRequests := OutgoingKeyRequests.load o.sessions.store.account o.outKeyRequests
      objects := o.sessions.store.megolmInboundSessions.length }
    outgoingToDeviceMessages := [] }

end KeyForwards

/-! ## Runs -/

inductive KeyForwardAction where
  | roomKey (senderKey : Str) (e : RoomKey)
  | outbound (roomId sessionId sessionKey : Str)
  | importKeys (entries : List ExportedKey)
  | keyRequest (r : OutgoingKeyRequest)
  | forwarded (sender senderKey : Str) (payload : Json)
  /-- The devices and the messages are as the rest of the machine makes them. -/
  | others (deviceStore : List OlmDevice) (messages : List ToDeviceMessage)
  | restart

namespace KeyForwards

/-- A payload of which the handler raises leaves everything as it was. -/
def step (lib : Vodozemac ρ) (o : KeyForwards ρ) : KeyForwardAction → KeyForwards ρ
  | .roomKey senderKey e => { o with sessions := o.sessions.handleRoomKeyEvent lib senderKey e }
  | .outbound roomId sessionId sessionKey =>
    { o with sessions := o.sessions.createOutboundGroupSession lib roomId sessionId sessionKey }
  | .importKeys entries => { o with sessions := o.sessions.importKeys lib entries }
  | .keyRequest r => o.keyRequestSent r
  | .forwarded sender senderKey payload =>
    match o.handleForwardedRoomKeyEvent lib sender senderKey payload with
    | .ok (o, _) => o
    | .error _ => o
  | .others deviceStore messages =>
    { o with deviceStore, outgoingToDeviceMessages := messages }
  | .restart => o.restart lib

/-- The session object under a room, a sender key and a session id -/
def entry (lib : Vodozemac ρ) (o : KeyForwards ρ) (k : Str × Str × Str) : Option (Ref ρ) :=
  lookup (Ref.key lib) k o.sessions.inboundGroupStore

/-- The row of a request of this account -/
def row (o : KeyForwards ρ) (requestId : Str) : Option OutgoingKeyRequests :=
  lookup OutgoingKeyRequests.key (requestId, o.sessions.store.account) o.outKeyRequests

end KeyForwards

/-! ## The statement -/

/-- One outstanding request is answered by a device of ours, and its session stored. -/
structure Answers (lib : Vodozemac ρ) (o o' : KeyForwards ρ) (sender senderKey : Str)
    (key : ForwardedRoomKey) (request : OutgoingKeyRequest) : Prop where
  own : sender = o.sessions.userId
  device : ∃ d ∈ o.deviceStore, d.userId = sender ∧ d.deleted = false ∧
    d.keys.curve25519 = senderKey ∧ d.trustState = .verified
  outstanding : dictGet? o.sessions.outgoingKeyRequests request.requestId = some request
  row : (o.row request.requestId).isSome
  room : request.roomId = key.roomId
  session : request.sessionId = key.sessionId
  memory : o'.sessions.outgoingKeyRequests =
    dictErase o.sessions.outgoingKeyRequests request.requestId
  stored : o'.outKeyRequests = remove OutgoingKeyRequests.key
    (request.requestId, o.sessions.store.account) o.outKeyRequests
  cancelled : o'.outgoingToDeviceMessages = o.outgoingToDeviceMessages ++
    [request.asCancellation o.sessions.userId o.deviceId]
  entry : (o'.entry lib (request.roomId, key.senderKey, request.sessionId)).isSome
  others : ∀ k, k ≠ (request.roomId, key.senderKey, request.sessionId) →
    o'.entry lib k = o.entry lib k

/-- What a forwarded key may do -/
structure AnswersOneRequest (lib : Vodozemac ρ) (o o' : KeyForwards ρ) (sender senderKey : Str)
    (payload : Json) : Prop where
  changed : o'.sessions.inboundGroupStore ≠ o.sessions.inboundGroupStore →
    ∃ event key request, forwardedRoomKeyFromDict sender senderKey payload = .ok (.inr (event, key)) ∧
      Answers lib o o' sender senderKey key request
  misnamed : ∀ event key r, forwardedRoomKeyFromDict sender senderKey payload = .ok (.inr (event, key)) →
    lib.importSession key.sessionKey = some r → lib.sessionId r ≠ key.sessionId → o' = o
  consumed : o'.sessions.outgoingKeyRequests ≠ o.sessions.outgoingKeyRequests ∨
      o'.outKeyRequests ≠ o.outKeyRequests →
    ∃ event key request, forwardedRoomKeyFromDict sender senderKey payload = .ok (.inr (event, key)) ∧
      Answers lib o o' sender senderKey key request

/-- The forward is accepted, and its key is that of another session than the one asked for. -/
def Misnamed (lib : Vodozemac ρ) (o : KeyForwards ρ) (sender senderKey : Str) (payload : Json) :
    Prop :=
  ∃ event key r, forwardedRoomKeyFromDict sender senderKey payload = .ok (.inr (event, key)) ∧
    o.sessions.shouldAcceptForward key (o.senderDevice sender senderKey) ∧
    lib.importSession key.sessionKey = some r ∧ lib.sessionId r ≠ key.sessionId


/-! ## What a step keeps -/

namespace GroupSessions

/-- Sessions came, and nothing else changed. -/
structure Grows (o o' : GroupSessions ρ) : Prop where
  userId : o'.userId = o.userId
  account : o'.store.account = o.store.account
  requests : o'.outgoingKeyRequests = o.outgoingKeyRequests
  objects : (∀ x ∈ o.inboundGroupStore, x.object < o.objects) →
    ∀ x ∈ o'.inboundGroupStore, x.object < o'.objects

theorem Grows.refl (o : GroupSessions ρ) : Grows o o := ⟨rfl, rfl, rfl, id⟩

theorem Grows.trans {o₁ o₂ o₃ : GroupSessions ρ} (h : Grows o₁ o₂) (h' : Grows o₂ o₃) :
    Grows o₁ o₃ :=
  ⟨h'.userId.trans h.userId, h'.account.trans h.account, h'.requests.trans h.requests,
    fun ho => h'.objects (h.objects ho)⟩

/-- Objects are numbered below the next one. -/
theorem object_add (lib : Vodozemac ρ) {store : GroupSessionStore ρ} {x : Ref ρ} {n : Nat}
    (h : ∀ y ∈ store, y.object < n) (hx : x.object = n) :
    ∀ y ∈ (store.add lib x).1, y.object < n + 1 := by
  unfold GroupSessionStore.add
  intro y hy
  split at hy
  · exact Nat.lt_succ_of_lt (h y hy)
  · rcases mem_upsert hy with rfl | hy
    · omega
    · exact Nat.lt_succ_of_lt (h y hy)

/-- Keeping a session lets the store grow only, -/
theorem grows_keep (lib : Vodozemac ρ) (always : Bool) (o : GroupSessions ρ)
    (s : InboundGroupSession ρ) : Grows o (o.keep lib always s) := by
  unfold keep
  constructor
  · dsimp only
    split
    · rfl
    · rfl
  · dsimp only
    split
    · rfl
    · rfl
  · dsimp only
    split
    · rfl
    · rfl
  · intro h
    have hadd : ∀ y ∈ (o.inboundGroupStore.add lib ⟨o.objects, s⟩).1, y.object < o.objects + 1 :=
      object_add lib h rfl
    dsimp only
    split
    · exact hadd
    · exact hadd

/-- as do new sessions, -/
theorem grows_create (lib : Vodozemac ρ) (o : GroupSessions ρ)
    (senderKey fpKey roomId sessionId sessionKey : Str) :
    Grows o (o.createGroupSession lib senderKey fpKey roomId sessionId sessionKey) := by
  unfold createGroupSession
  split
  · exact Grows.refl o
  · exact grows_keep lib true o _

/-- room keys -/
theorem grows_roomKey (lib : Vodozemac ρ) (o : GroupSessions ρ) (senderKey : Str) (e : RoomKey) :
    Grows o (o.handleRoomKeyEvent lib senderKey e) := by
  unfold handleRoomKeyEvent
  split
  · exact Grows.refl o
  · exact grows_create lib o senderKey _ e.roomId e.sessionId e.sessionKey

/-- and imports. -/
theorem grows_importKeys (lib : Vodozemac ρ) (o : GroupSessions ρ) (entries : List ExportedKey) :
    Grows o (o.importKeys lib entries) := by
  unfold importKeys
  induction importKeysStatic lib entries generalizing o with
  | nil => exact Grows.refl o
  | cons s rest ih => exact (grows_keep lib false o s).trans (ih _)

end GroupSessions

namespace MatrixStore

/-- Each object that is loaded has a number of its own. -/
theorem object_loaded (lib : Vodozemac ρ) (m : MatrixStore) :
    ∀ x ∈ m.loadInboundGroupSessions lib, x.object < m.megolmInboundSessions.length := by
  have hfold : ∀ (rows : List MegolmInboundSessions) (p : GroupSessionStore ρ × Nat),
      (∀ x ∈ p.1, x.object < p.2) →
      ∀ x ∈ (rows.foldl (fun (p : GroupSessionStore ρ × Nat) row =>
        ((p.1.add lib ⟨p.2, m.fromRow lib row⟩).1, p.2 + 1)) p).1, x.object < p.2 + rows.length := by
    intro rows
    induction rows with
    | nil => exact fun p hp => hp
    | cons row rows ih =>
      intro p hp x hx
      have hlt := ih _ (GroupSessions.object_add lib hp rfl) x hx
      rw [List.length_cons]
      dsimp only at hlt
      omega
  intro x hx
  have hlt := hfold _ ([], 0) (fun _ h => nomatch h) x hx
  have hle := List.length_filter_le (fun row : MegolmInboundSessions => row.account = m.account)
    m.megolmInboundSessions
  dsimp only at hlt
  omega

end MatrixStore

namespace OutgoingKeyRequests

/-- What is loaded under an id is a row of that id. -/
theorem load_spec {account : Nat} {rows : List OutgoingKeyRequests} {k : Str}
    {r : OutgoingKeyRequest} (h : dictGet? (load account rows) k = some r) :
    r.requestId = k ∧ (lookup key (k, account) rows).isSome := by
  have hfold : ∀ (xs : List OutgoingKeyRequests) (requests : List (Str × OutgoingKeyRequest)),
      dictGet? (xs.foldl (fun requests row => dictSet requests row.requestId row.toRequest)
        requests) k = some r →
      dictGet? requests k = some r ∨ ∃ row ∈ xs, row.requestId = k ∧ r = row.toRequest := by
    intro xs
    induction xs with
    | nil => exact fun requests h => Or.inl h
    | cons row xs ih =>
      intro requests h
      rcases ih _ h with h | ⟨row', hrow, hk, hr⟩
      · rw [dictGet?_dictSet] at h
        split at h
        · next hk => exact Or.inr ⟨row, List.mem_cons_self, hk.symm, (Option.some.inj h).symm⟩
        · exact Or.inl h
      · exact Or.inr ⟨row', List.mem_cons_of_mem _ hrow, hk, hr⟩
  rcases hfold _ [] h with h | ⟨row, hrow, hk, rfl⟩
  · exact absurd h nofun
  · obtain ⟨hmem, haccount⟩ := List.mem_filter.mp hrow
    refine ⟨hk, lookup_isSome.mpr ⟨row, hmem, ?_⟩⟩
    exact Prod.ext hk (of_decide_eq_true haccount)

end OutgoingKeyRequests

namespace KeyForwards

/-- What holds between the memory and the database -/
structure Sound (o : KeyForwards ρ) : Prop where
  objects : ∀ x ∈ o.sessions.inboundGroupStore, x.object < o.sessions.objects
  requests : ∀ k r, dictGet? o.sessions.outgoingKeyRequests k = some r →
    r.requestId = k ∧ (o.row k).isSome

theorem sound_fresh (userId deviceId curve25519 ed25519 : Str) (account : Nat) :
    Sound (fresh userId deviceId curve25519 ed25519 account : KeyForwards ρ) :=
  ⟨fun _ h => (nomatch h), fun _ _ h => (nomatch h)⟩

/-- A store that grows keeps the answers sound. -/
theorem sound_grows {o : KeyForwards ρ} (h : Sound o) {sessions : GroupSessions ρ}
    (hg : GroupSessions.Grows o.sessions sessions) : Sound { o with sessions } := by
  refine ⟨hg.objects h.objects, fun k r hr => ?_⟩
  unfold row
  rw [hg.requests] at hr
  rw [hg.account]
  exact h.requests k r hr

theorem sound_keyRequest {o : KeyForwards ρ} (h : Sound o) (r : OutgoingKeyRequest) :
    Sound (o.keyRequestSent r) := by
  refine ⟨h.objects, fun k r' hr => ?_⟩
  unfold row
  show _ ∧ (lookup OutgoingKeyRequests.key (k, o.sessions.store.account)
    (insertIgnore OutgoingKeyRequests.key _ o.outKeyRequests)).isSome
  rw [lookup_insertIgnore]
  have hr : dictGet? (dictSet o.sessions.outgoingKeyRequests r.requestId r) k = some r' := hr
  rw [dictGet?_dictSet] at hr
  split at hr
  · next hk =>
    obtain rfl := Option.some.inj hr
    subst hk
    refine ⟨rfl, ?_⟩
    rw [if_pos (by rfl)]
    simp
  · have hold := h.requests k r' hr
    refine ⟨hold.1, ?_⟩
    have hrow : (lookup OutgoingKeyRequests.key (k, o.sessions.store.account)
      o.outKeyRequests).isSome := hold.2
    simp [hrow]

theorem sound_restart {o : KeyForwards ρ} (lib : Vodozemac ρ) : Sound (o.restart lib) :=
  ⟨MatrixStore.object_loaded lib o.sessions.store, fun _ _ hr => OutgoingKeyRequests.load_spec hr⟩

/-- The state after the session was kept and the request answered -/
def answered (lib : Vodozemac ρ) (o : KeyForwards ρ) (s : InboundGroupSession ρ)
    (request : OutgoingKeyRequest) : KeyForwards ρ :=
  { o with
    sessions := { o.sessions with
      inboundGroupStore := upsert (Ref.key lib) ⟨o.sessions.objects, s⟩ o.sessions.inboundGroupStore
      objects := o.sessions.objects + 1
      store := o.sessions.store.saveInboundGroupSession lib s
      outgoingKeyRequests := dictErase o.sessions.outgoingKeyRequests request.requestId }
    outKeyRequests := remove OutgoingKeyRequests.key
      (request.requestId, o.sessions.store.account) o.outKeyRequests
    outgoingToDeviceMessages := o.outgoingToDeviceMessages ++
      [request.asCancellation o.sessions.userId o.deviceId] }

/-- Answering a request that is listed never fails. -/
theorem answer_eq {lib : Vodozemac ρ} {o : KeyForwards ρ} (h : Sound o) (s : InboundGroupSession ρ)
    {sessionId : Str} {request : OutgoingKeyRequest}
    (hr : dictGet? o.sessions.outgoingKeyRequests sessionId = some request) :
    o.answer lib s sessionId = .ok (o.answered lib s request) := by
  have hadd : o.sessions.inboundGroupStore.add lib ⟨o.sessions.objects, s⟩ =
      (upsert (Ref.key lib) ⟨o.sessions.objects, s⟩ o.sessions.inboundGroupStore, true) :=
    GroupSessions.add_new o.sessions.inboundGroupStore h.objects
  obtain ⟨rfl, -⟩ := h.requests sessionId request hr
  unfold answer GroupSessions.keep
  simp only [hadd, Bool.or_true, if_true, hr]
  rfl

/-- The event and the key of a forward name one session. -/
theorem sessionId_read {sender senderKey : Str} {payload : Json} {event : ForwardedRoomKeyEvent}
    {key : ForwardedRoomKey}
    (h : forwardedRoomKeyFromDict sender senderKey payload = .ok (.inr (event, key))) :
    event.sessionId = key.sessionId := by
  unfold forwardedRoomKeyFromDict verify at h
  split at h
  · obtain ⟨key', -, h⟩ := bind_eq_ok.mp h
    obtain ⟨source, -, h⟩ := bind_eq_ok.mp h
    cases h
    rfl
  · next hschema =>
    cases hbad : Events.badOrUnknown payload with
    | error e =>
      rw [hbad] at h
      cases h
    | ok bad =>
      rw [hbad] at h
      cases h

/-- A forward that is refused, or whose key does not import, changes nothing. -/
theorem forwarded_cases {lib : Vodozemac ρ} {o : KeyForwards ρ} (h : Sound o)
    (sender senderKey : Str) (payload : Json) :
    (o.step lib (.forwarded sender senderKey payload) = o ∧ ∀ event key,
      forwardedRoomKeyFromDict sender senderKey payload = .ok (.inr (event, key)) →
      o.sessions.shouldAcceptForward key (o.senderDevice sender senderKey) →
      lib.importSession key.sessionKey = none) ∨
    ∃ event key s request,
      forwardedRoomKeyFromDict sender senderKey payload = .ok (.inr (event, key)) ∧
      o.sessions.shouldAcceptForward key (o.senderDevice sender senderKey) ∧
      GroupSessions.forwardedSession lib key = some s ∧
      dictGet? o.sessions.outgoingKeyRequests key.sessionId = some request ∧
      o.step lib (.forwarded sender senderKey payload) = o.answered lib s request := by
  have hstep : o.step lib (.forwarded sender senderKey payload) =
      match o.handleForwardedRoomKeyEvent lib sender senderKey payload with
      | .ok (o, _) => o
      | .error _ => o := rfl
  rw [hstep]
  unfold handleForwardedRoomKeyEvent
  cases hread : forwardedRoomKeyFromDict sender senderKey payload with
  | error e => exact Or.inl ⟨rfl, fun _ _ he => (nomatch he)⟩
  | ok read =>
    rw [ok_bind]
    rcases read with bad | ⟨event, key⟩
    · exact Or.inl ⟨rfl, fun _ _ he => (nomatch he)⟩
    · by_cases ha : o.sessions.shouldAcceptForward key (o.senderDevice sender senderKey)
      · cases hs : GroupSessions.forwardedSession lib key with
        | none =>
          refine Or.inl ⟨?_, ?_⟩
          · simp only [ha, hs, Bool.not_true, Bool.false_eq_true, if_false]
            rfl
          · rintro _ _ he -
            cases he
            exact Option.map_eq_none_iff.mp hs
        | some s =>
          have haccept := ha
          unfold GroupSessions.shouldAcceptForward at haccept
          obtain ⟨-, ⟨request, hrequest, -⟩, -⟩ := of_decide_eq_true haccept
          refine Or.inr ⟨event, key, s, request, rfl, ha, hs, hrequest, ?_⟩
          simp only [ha, hs, Bool.not_true, Bool.false_eq_true, if_false, sessionId_read hread,
            answer_eq h s (Option.mem_def.mp hrequest), ok_bind]
          rfl
      · refine Or.inl ⟨?_, ?_⟩
        · simp only [Bool.not_eq_true] at ha
          simp only [ha, Bool.not_false, if_true]
          rfl
        · rintro _ _ he hacc
          cases he
          exact absurd hacc ha

theorem sound_answered (lib : Vodozemac ρ) {o : KeyForwards ρ} (h : Sound o)
    (s : InboundGroupSession ρ) (request : OutgoingKeyRequest) :
    Sound (o.answered lib s request) := by
  constructor
  · intro x hx
    rcases mem_upsert hx with rfl | hx
    · exact Nat.lt_succ_self _
    · exact Nat.lt_succ_of_lt (h.objects x hx)
  · intro k r hr
    have hr : dictGet? (dictErase o.sessions.outgoingKeyRequests request.requestId) k = some r := hr
    rw [dictGet?_dictErase] at hr
    split at hr
    · cases hr
    · next hk =>
      have hold := h.requests k r hr
      refine ⟨hold.1, ?_⟩
      show (lookup OutgoingKeyRequests.key (k, o.sessions.store.account)
        (remove OutgoingKeyRequests.key _ o.outKeyRequests)).isSome
      rw [lookup_remove, if_neg fun he => hk (Prod.ext_iff.mp he).1]
      exact hold.2

/-- Every action keeps the answers sound. -/
theorem sound_step (lib : Vodozemac ρ) {o : KeyForwards ρ} (h : Sound o) (a : KeyForwardAction) :
    Sound (o.step lib a) := by
  cases a with
  | roomKey senderKey e => exact sound_grows h (GroupSessions.grows_roomKey lib _ senderKey e)
  | outbound roomId sessionId sessionKey =>
    exact sound_grows h (GroupSessions.grows_create lib _ _ _ roomId sessionId sessionKey)
  | importKeys entries => exact sound_grows h (GroupSessions.grows_importKeys lib _ entries)
  | keyRequest r => exact sound_keyRequest h r
  | forwarded sender senderKey payload =>
    rcases forwarded_cases h sender senderKey payload with
      ⟨hsame, -⟩ | ⟨_, _, s, request, -, -, -, -, heq⟩
    · rwa [hsame]
    · rw [heq]
      exact sound_answered lib h s request
  | others deviceStore messages => exact ⟨h.objects, h.requests⟩
  | restart => exact sound_restart lib

/-- What an accepted forward whose key has the right id does -/
theorem answers_answered {lib : Vodozemac ρ} {o : KeyForwards ρ} (h : Sound o)
    {sender senderKey : Str} {key : ForwardedRoomKey} {request : OutgoingKeyRequest}
    {s : InboundGroupSession ρ}
    (ha : o.sessions.shouldAcceptForward key (o.senderDevice sender senderKey))
    (hs : GroupSessions.forwardedSession lib key = some s)
    (hr : dictGet? o.sessions.outgoingKeyRequests key.sessionId = some request)
    (hid : s.id lib = key.sessionId) :
    Answers lib o (o.answered lib s request) sender senderKey key request := by
  obtain ⟨hrequestId, hrow⟩ := h.requests key.sessionId request hr
  unfold GroupSessions.shouldAcceptForward at ha
  obtain ⟨-, ⟨request', hrequest', halgorithm, hroom, hsession⟩, ⟨device, hdevice, hverified, huser⟩⟩ :=
    of_decide_eq_true ha
  obtain rfl : request' = request := Option.some.inj (hrequest'.symm.trans hr)
  obtain ⟨d, hfound, rfl⟩ := Option.map_eq_some_iff.mp hdevice
  obtain ⟨hmem, hsender, hdeleted, hcurve⟩ := deviceFromSenderKey_spec hfound
  have hkey : Ref.key lib ⟨o.sessions.objects, s⟩ =
      (request'.roomId, key.senderKey, request'.sessionId) := by
    show s.key lib = _
    obtain ⟨r, -, rfl⟩ := Option.map_eq_some_iff.mp hs
    unfold InboundGroupSession.key
    rw [hid, ← hroom, ← hsession]
  refine ⟨hsender.symm.trans huser, ⟨d, hmem, hsender, hdeleted, hcurve, ?_⟩, ?_, ?_,
    hroom.symm, hsession.symm, rfl, rfl, rfl, ?_, ?_⟩
  · exact of_decide_eq_true hverified
  · rw [hrequestId]
    exact hr
  · rw [hrequestId]
    exact hrow
  · show (lookup (Ref.key lib) _ (upsert (Ref.key lib) ⟨_, s⟩ _)).isSome
    rw [lookup_upsert, if_pos hkey.symm]
    rfl
  · intro k hk
    show lookup (Ref.key lib) _ (upsert (Ref.key lib) ⟨_, s⟩ _) = _
    rw [lookup_upsert, if_neg fun he => hk (he.trans hkey)]
    rfl

/-- In every reachable state, a forward answers exactly one request of ours, or changes nothing,
unless it is accepted and its key is that of another session than the one asked for. -/
theorem answersOneRequest_iff (lib : Vodozemac ρ) (userId deviceId curve25519 ed25519 : Str)
    (account : Nat) (actions : List KeyForwardAction) (sender senderKey : Str) (payload : Json) :
    let o := run (step lib) (fresh userId deviceId curve25519 ed25519 account) actions
    AnswersOneRequest lib o (o.step lib (.forwarded sender senderKey payload)) sender senderKey
      payload ↔ ¬ Misnamed lib o sender senderKey payload := by
  intro o
  have hstep : ∀ (o : KeyForwards ρ) a, Sound o → Sound (o.step lib a) :=
    fun _ a hs => sound_step lib hs a
  have h : Sound o :=
    run_invariant hstep actions (sound_fresh userId deviceId curve25519 ed25519 account)
  constructor
  · rintro hone ⟨event, key, r, hread, ha, himport, hne⟩
    rcases forwarded_cases h sender senderKey payload with ⟨-, hnone⟩ |
      ⟨event', key', s, request, hread', -, -, hrequest, heq⟩
    · rw [hnone event key hread ha] at himport
      cases himport
    · -- the request is gone although nothing may change
      cases hread.symm.trans hread'
      have hsame := hone.misnamed event key r hread himport hne
      have hgone : dictGet? (o.answered lib s request).sessions.outgoingKeyRequests key.sessionId =
          none := by
        show dictGet? (dictErase _ request.requestId) key.sessionId = none
        rw [dictGet?_dictErase, if_pos (h.requests _ _ hrequest).1.symm]
      rw [← heq, hsame, hrequest] at hgone
      cases hgone
  · intro hnot
    rcases forwarded_cases h sender senderKey payload with ⟨hsame, -⟩ |
      ⟨event, key, s, request, hread, ha, hs, hrequest, heq⟩
    · rw [hsame]
      refine ⟨fun hc => absurd rfl hc, fun _ _ _ _ _ _ => rfl, fun hc => ?_⟩
      exact hc.elim (absurd rfl) (absurd rfl)
    · obtain ⟨r, himport, hsession⟩ := Option.map_eq_some_iff.mp hs
      have hid : lib.sessionId r = key.sessionId := by
        by_contra hne
        exact hnot ⟨event, key, r, hread, ha, himport, hne⟩
      have hanswers : Answers lib o (o.answered lib s request) sender senderKey key request :=
        answers_answered h ha hs hrequest (hsession ▸ hid)
      rw [heq]
      refine ⟨fun _ => ⟨event, key, request, hread, hanswers⟩, ?_,
        fun _ => ⟨event, key, request, hread, hanswers⟩⟩
      intro event' key' r' hread' himport' hne
      cases hread.symm.trans hread'
      cases himport.symm.trans himport'
      exact absurd hid hne

/-- A forward of the session `Sxx` in answer to the request for `Sxxx` -/
def otherSession : Json := .obj [
  (py "type", .str (py "m.forwarded_room_key")),
  (py "sender", .str (py "@me:x")),
  (py "content", .obj [
    (py "algorithm", .str (py "m.megolm.v1.aes-sha2")),
    (py "room_id", .str (py "!a:x")),
    (py "session_id", .str (py "Sxxx")),
    (py "session_key", .str (py "kk")),
    (py "sender_key", .str (py "curve")),
    (py "sender_claimed_ed25519_key", .str (py "ed")),
    (py "forwarding_curve25519_key_chain", .arr [])])]

/-- A verified device of ours, and a request for `Sxxx` -/
def oneRequest : List KeyForwardAction :=
  [.others [⟨py "@me:x", py "B", ⟨py "edB", py "curveB"⟩, .str [], false, .verified⟩] [],
    .keyRequest ⟨py "Sxxx", py "Sxxx", py "!a:x", py "m.megolm.v1.aes-sha2"⟩]

/-- The request is consumed, and the session that it asked for is not there. -/
theorem answered_otherwise :
    let o := run (step unaryLibrary)
      (fresh (py "@me:x") (py "A") (py "c") (py "e") 1) oneRequest
    ¬ AnswersOneRequest unaryLibrary o
      (o.step unaryLibrary (.forwarded (py "@me:x") (py "curveB") otherSession))
      (py "@me:x") (py "curveB") otherSession := by
  intro o hone
  have hread : ∃ event key, forwardedRoomKeyFromDict (py "@me:x") (py "curveB") otherSession =
      .ok (.inr (event, key)) ∧ key.sessionKey = py "kk" ∧ key.sessionId = py "Sxxx" :=
    ⟨_, _, rfl, rfl, rfl⟩
  obtain ⟨event, key, hread, hkey, hid⟩ := hread
  have hsame := hone.misnamed event key 2 hread (by rw [hkey]; rfl) (by rw [hid]; decide)
  have hkept : (dictGet? o.sessions.outgoingKeyRequests (py "Sxxx")).isSome := by decide +kernel
  have hgone : (dictGet? (o.step unaryLibrary
      (.forwarded (py "@me:x") (py "curveB") otherSession)).sessions.outgoingKeyRequests
      (py "Sxxx")).isSome = false := by decide +kernel
  rw [hsame, hkept] at hgone
  cases hgone

end KeyForwards

end Nio.Crypto
