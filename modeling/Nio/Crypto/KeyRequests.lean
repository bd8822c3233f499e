import Nio.Events.ToDevice
import Nio.Lib.Run
import Nio.Lib.Table

/-!
# Room-key requests

`Olm` keeps the room-key requests it received in three places: those that just arrived, those that
wait for an Olm session with their device, and those of devices that nobody verified yet.

* `keyRequests_conserved` — when each request is in one place until it is answered, refused or
  cancelled
-/

namespace Nio.Crypto

open Nio.Py (Str py)
open Nio.Lib
open Nio.Events (RoomKeyRequest RoomKeyRequestCancellation)

/-- What identifies a request: its sender, the device that asks, and its request id -/
structure RequestKey where
  sender : Str
  device : Str
  requestId : Str
  deriving DecidableEq, Repr

deriving instance DecidableEq for RoomKeyRequest

def requestKey (e : RoomKeyRequest) : RequestKey := ⟨e.sender, e.requestingDeviceId, e.requestId⟩

def cancellationKey (c : RoomKeyRequestCancellation) : RequestKey :=
  ⟨c.sender, c.requestingDeviceId, c.requestId⟩

inductive KeyRequestEvent where
  | request (e : RoomKeyRequest)
  | cancellation (c : RoomKeyRequestCancellation)

namespace KeyRequestEvent

def key : KeyRequestEvent → RequestKey
  | .request e => requestKey e
  | .cancellation c => cancellationKey c

def requestId (e : KeyRequestEvent) : Str := e.key.requestId

end KeyRequestEvent

/-- What happened to a request -/
inductive RequestStatus where
  | requested
  | answered
  | refused
  | cancelled
  deriving DecidableEq, Repr

structure KeyRequests where
  /-- `received_key_requests`, by request id -/
  received : List KeyRequestEvent
  /-- `key_requests_waiting_for_session`, by user, device and request id -/
  waiting : List RoomKeyRequest
  /-- `key_request_devices_no_session` -/
  noSession : List (Str × Str)
  /-- `key_request_from_untrusted`, by request id -/
  untrusted : List RoomKeyRequest
  /-- Ghost: what happened to the requests, newest first -/
  log : List (RequestKey × RequestStatus)

/-- A device of the device store -/
structure RequestingDevice where
  curve25519 : Str
  verified : Bool

/-- The rest of the Olm machine at the time of a step -/
structure KeyShareEnv where
  userId : Str
  /-- `inbound_group_store.get(room_id, sender_key, session_id)` finds a session. -/
  groupSession : Str → Str → Str → Bool
  device : Str → Str → Option RequestingDevice
  /-- `session_store.get(curve25519)` finds a session. -/
  session : Str → Bool

namespace KeyRequests

def fresh : KeyRequests := ⟨[], [], [], [], []⟩

def megolmAlgorithm : Str := py "m.megolm.v1.aes-sha2"

def record (s : KeyRequests) (k : RequestKey) (status : RequestStatus) : KeyRequests :=
  { s with log := (k, status) :: s.log }

/-! ## Events -/

def receive (s : KeyRequests) (e : KeyRequestEvent) : KeyRequests :=
  { s with received := upsert KeyRequestEvent.requestId e s.received }

/-- The request that just arrived under the id is of the device that cancels. -/
def dropReceived (s : KeyRequests) (c : RoomKeyRequestCancellation) : KeyRequests :=
  match lookup KeyRequestEvent.requestId c.requestId s.received with
  | none => s
  | some queued =>
    if queued.key = cancellationKey c then
      { s with received := remove KeyRequestEvent.requestId c.requestId s.received }
    else s

/-- A device none of whose requests waits any more needs no session. -/
def dropWaiting (env : KeyShareEnv) (s : KeyRequests) (c : RoomKeyRequestCancellation) :
    KeyRequests :=
  let waiting := remove requestKey (cancellationKey c) s.waiting
  let idle := waiting.all fun e => (e.sender, e.requestingDeviceId) ≠ (c.sender, c.requestingDeviceId)
  { s with
    waiting
    noSession :=
      if idle ∧ (env.device c.sender c.requestingDeviceId).isSome then
        s.noSession.erase (c.sender, c.requestingDeviceId)
      else s.noSession }

/-- A request that was shown to the user is cancelled in sight of the user as well. -/
def dropUntrusted (s : KeyRequests) (c : RoomKeyRequestCancellation) : KeyRequests :=
  match lookup RoomKeyRequest.requestId c.requestId s.untrusted with
  | none => s
  | some pending =>
    if requestKey pending = cancellationKey c then
      receive { s with untrusted := remove RoomKeyRequest.requestId c.requestId s.untrusted }
        (.cancellation c)
    else s

/-- `_handle_key_requests` -/
def handleKeyRequests (env : KeyShareEnv) (s : KeyRequests) : KeyRequestEvent → KeyRequests
  | .request e =>
    if e.algorithm = megolmAlgorithm then (s.receive (.request e)).record (requestKey e) .requested
    else s
  | .cancellation c =>
    (dropUntrusted (dropWaiting env (dropReceived s c) c) c).record (cancellationKey c) .cancelled

/-! ## Sharing -/

/-- The outcomes of `share_with_ourselves` -/
inductive ShareResult where
  | shared
  | keyShareError
  | encryptionError
  | trustError
  deriving DecidableEq, Repr

/-- What `share_with_ourselves` comes to -/
def shareResult (env : KeyShareEnv) (e : RoomKeyRequest) : ShareResult :=
  if !env.groupSession e.roomId e.senderKey e.sessionId then .keyShareError
  else
    match env.device e.sender e.requestingDeviceId with
    | none => .keyShareError
    | some device =>
      if !device.verified then .trustError
      else if !env.session device.curve25519 then .encryptionError
      else .shared

/-- The request waits until its device was claimed. -/
def wait (s : KeyRequests) (e : RoomKeyRequest) : KeyRequests :=
  let device := (e.sender, e.requestingDeviceId)
  { s with
    waiting := upsert requestKey e s.waiting
    noSession := if device ∈ s.noSession then s.noSession else s.noSession ++ [device] }

/-- `_collect_single_key_share`; only our own devices are answered. -/
def collectSingleKeyShare (env : KeyShareEnv) (s : KeyRequests) (e : RoomKeyRequest) :
    KeyRequests × Bool :=
  if e.sender = env.userId then
    match shareResult env e with
    | .shared => (s.record (requestKey e) .answered, true)
    | .keyShareError => (s.record (requestKey e) .refused, true)
    | .encryptionError => (s.wait e, true)
    | .trustError => (s, false)
  else (s.record (requestKey e) .refused, true)

/-- An event of `collect_key_requests`; a request that is not trusted is shown to the user. -/
def collectEvent (env : KeyShareEnv) (s : KeyRequests) : KeyRequestEvent → KeyRequests
  | .cancellation _ => s
  | .request e =>
    match s.collectSingleKeyShare env e with
    | (s, true) => s
    | (s, false) => { s with untrusted := upsert RoomKeyRequest.requestId e s.untrusted }

def collectKeyRequests (env : KeyShareEnv) (s : KeyRequests) : KeyRequests :=
  { s.received.foldl (collectEvent env) s with received := [] }

/-- `continue_key_share` of a request that is pending; of any other it raises. -/
def continueKeyShare (env : KeyShareEnv) (s : KeyRequests) (e : RoomKeyRequest) : KeyRequests :=
  if e ∉ s.untrusted then s
  else
    match s.collectSingleKeyShare env e with
    | (s, false) => s
    | (s, true) => { s with untrusted := remove RoomKeyRequest.requestId e.requestId s.untrusted }

/-- `cancel_key_share` -/
def cancelKeyShare (s : KeyRequests) (e : RoomKeyRequest) : KeyRequests :=
  match lookup RoomKeyRequest.requestId e.requestId s.untrusted with
  | none => s
  | some pending =>
    record { s with untrusted := remove RoomKeyRequest.requestId e.requestId s.untrusted }
      (requestKey pending) .cancelled

/-- `_handle_key_claiming`, for a device with which a session was created -/
def claimDevice (s : KeyRequests) (device : Str × Str) : KeyRequests :=
  if device ∉ s.noSession then s
  else
    let events := s.waiting.filter fun e => (e.sender, e.requestingDeviceId) = device
    { s with
      noSession := s.noSession.erase device
      waiting := s.waiting.filter fun e => (e.sender, e.requestingDeviceId) ≠ device
      received := events.foldl (fun received e =>
        upsert KeyRequestEvent.requestId (.request e) received) s.received }

end KeyRequests

/-! ## Runs -/

inductive KeyRequestAction where
  | event (env : KeyShareEnv) (e : KeyRequestEvent)
  | collect (env : KeyShareEnv)
  /-- A response to a key claim, as the devices with which it created a session -/
  | claimed (devices : List (Str × Str))
  | continueShare (env : KeyShareEnv) (e : RoomKeyRequest)
  | cancelShare (e : RoomKeyRequest)

namespace KeyRequests

def step (s : KeyRequests) : KeyRequestAction → KeyRequests
  | .event env e => s.handleKeyRequests env e
  | .collect env => s.collectKeyRequests env
  | .claimed devices => devices.foldl claimDevice s
  | .continueShare env e => s.continueKeyShare env e
  | .cancelShare e => s.cancelKeyShare e

/-! ## Where a request is -/

def receivedAt (s : KeyRequests) (k : RequestKey) : Option RoomKeyRequest :=
  match lookup KeyRequestEvent.requestId k.requestId s.received with
  | some (.request e) => if requestKey e = k then some e else none
  | _ => none

def waitingAt (s : KeyRequests) (k : RequestKey) : Option RoomKeyRequest :=
  lookup requestKey k s.waiting

def untrustedAt (s : KeyRequests) (k : RequestKey) : Option RoomKeyRequest :=
  (lookup RoomKeyRequest.requestId k.requestId s.untrusted).filter fun e => requestKey e = k

/-- The number of places where a request is -/
def places (s : KeyRequests) (k : RequestKey) : Nat :=
  (s.receivedAt k).toList.length + (s.waitingAt k).toList.length + (s.untrustedAt k).toList.length

/-- What happened last to a request -/
def status (log : List (RequestKey × RequestStatus)) (k : RequestKey) : Option RequestStatus :=
  (lookup Prod.fst k log).map Prod.snd

/-- A request is in exactly one place after it was made, and in none once it was answered, refused
or cancelled. -/
def Conserved (s : KeyRequests) : Prop :=
  ∀ k, s.places k = if status s.log k = some .requested then 1 else 0

/-- Nothing but a pending request is answered: not one that was cancelled and not made again. -/
def Justified : List (RequestKey × RequestStatus) → Prop
  | [] => True
  | (k, s) :: log => (s = .answered → status log k = some .requested) ∧ Justified log

/-! ## When no two requests meet -/

/-- Just arrived, there is no request of another device under the id of this one. -/
def FreeInReceived (s : KeyRequests) (k : RequestKey) : Prop :=
  ∀ e, lookup KeyRequestEvent.requestId k.requestId s.received = some (.request e) →
    requestKey e = k

/-- No request of another device is pending under the id of this one. -/
def FreeInUntrusted (s : KeyRequests) (k : RequestKey) : Prop :=
  ∀ e, lookup RoomKeyRequest.requestId k.requestId s.untrusted = some e → requestKey e = k

/-- The requests of claimed devices go back to those that just arrived, device by device. -/
def ClearClaims : KeyRequests → List (Str × Str) → Prop
  | _, [] => True
  | s, device :: devices =>
    (device ∈ s.noSession → ∀ e ∈ s.waiting, (e.sender, e.requestingDeviceId) = device →
      s.FreeInReceived (requestKey e)) ∧ ClearClaims (s.claimDevice device) devices

/-- A step puts no request where one of another device has its request id, and no request arrives
again while it is pending. -/
def Clear (s : KeyRequests) : KeyRequestAction → Prop
  | .event _ (.request e) => e.algorithm = megolmAlgorithm →
    s.FreeInReceived (requestKey e) ∧ s.waitingAt (requestKey e) = none ∧
      s.untrustedAt (requestKey e) = none
  | .event _ (.cancellation c) =>
    s.untrustedAt (cancellationKey c) ≠ none → s.FreeInReceived (cancellationKey c)
  | .collect env => ∀ e, .request e ∈ s.received → e.sender = env.userId →
    shareResult env e = .trustError → s.FreeInUntrusted (requestKey e)
  | .claimed devices => ClearClaims s devices
  | .continueShare _ _ => True
  | .cancelShare _ => True

/-- A condition on the requests that just arrived, not on the cancellations -/
def KeyRequestEvent.requestAll (p : RoomKeyRequest → Bool) : KeyRequestEvent → Bool
  | .request e => p e
  | .cancellation _ => true

instance (s : KeyRequests) (k : RequestKey) : Decidable (s.FreeInReceived k) :=
  decidable_of_iff (∀ queued ∈ lookup KeyRequestEvent.requestId k.requestId s.received,
    KeyRequestEvent.requestAll (fun e => requestKey e = k) queued = true) <| by
    constructor
    · intro h e he
      exact of_decide_eq_true (h _ he)
    · intro h queued hq
      cases queued with
      | request e => exact decide_eq_true (h e hq)
      | cancellation c => rfl

instance (s : KeyRequests) (k : RequestKey) : Decidable (s.FreeInUntrusted k) :=
  inferInstanceAs (Decidable (∀ e ∈ lookup RoomKeyRequest.requestId k.requestId s.untrusted,
    requestKey e = k))

instance decidableClearClaims :
    (s : KeyRequests) → (devices : List (Str × Str)) → Decidable (ClearClaims s devices)
  | _, [] => .isTrue trivial
  | s, device :: devices =>
    have := decidableClearClaims (s.claimDevice device) devices
    inferInstanceAs (Decidable ((device ∈ s.noSession → ∀ e ∈ s.waiting,
      (e.sender, e.requestingDeviceId) = device → s.FreeInReceived (requestKey e)) ∧
        ClearClaims (s.claimDevice device) devices))

/-- A collection is clear when it is for each of the requests that just arrived. -/
theorem clear_collect_iff {s : KeyRequests} {env : KeyShareEnv} :
    (∀ queued ∈ s.received, KeyRequestEvent.requestAll (fun e => decide (e.sender = env.userId →
      shareResult env e = .trustError → s.FreeInUntrusted (requestKey e))) queued = true) ↔
    s.Clear (.collect env) := by
  constructor
  · intro h e he
    exact of_decide_eq_true (h _ he)
  · intro h queued hq
    cases queued with
    | request e => exact decide_eq_true (h e hq)
    | cancellation c => rfl

instance (s : KeyRequests) : (a : KeyRequestAction) → Decidable (s.Clear a)
  | .event _ (.request e) => inferInstanceAs (Decidable (e.algorithm = megolmAlgorithm →
      s.FreeInReceived (requestKey e) ∧ s.waitingAt (requestKey e) = none ∧
        s.untrustedAt (requestKey e) = none))
  | .event _ (.cancellation c) => inferInstanceAs (Decidable
      (s.untrustedAt (cancellationKey c) ≠ none → s.FreeInReceived (cancellationKey c)))
  | .collect _ => decidable_of_iff _ clear_collect_iff
  | .claimed devices => decidableClearClaims s devices
  | .continueShare _ _ | .cancelShare _ => .isTrue trivial

/-! ## The places after a change -/

variable {s : KeyRequests}

/-- Each place has one request under a key. -/
structure Unique (s : KeyRequests) : Prop where
  received : (s.received.map KeyRequestEvent.requestId).Nodup
  waiting : (s.waiting.map requestKey).Nodup
  untrusted : (s.untrusted.map RoomKeyRequest.requestId).Nodup

theorem receivedAt_receive {e : RoomKeyRequest} (h : s.FreeInReceived (requestKey e))
    (k : RequestKey) :
    (s.receive (.request e)).receivedAt k =
      if requestKey e = k then some e else s.receivedAt k := by
  unfold receivedAt receive
  dsimp only
  rw [lookup_upsert]
  by_cases hid : k.requestId = e.requestId
  · rw [if_pos (show k.requestId = (KeyRequestEvent.request e).requestId from hid)]
    by_cases hk : requestKey e = k
    · rw [if_pos hk]
      exact if_pos hk
    · -- Under this id there is at most a request of the device itself, which has another key.
      rw [if_neg hk]
      dsimp only
      rw [if_neg hk, hid]
      split
      · next e' he' => rw [if_neg fun hk' => hk ((h e' he').symm.trans hk')]
      · rfl
  · rw [if_neg (show k.requestId ≠ (KeyRequestEvent.request e).requestId from hid), if_neg]
    rintro rfl
    exact hid rfl

theorem receivedAt_dropReceived (c : RoomKeyRequestCancellation) (k : RequestKey) :
    (s.dropReceived c).receivedAt k =
      if k = cancellationKey c then none else s.receivedAt k := by
  unfold dropReceived
  cases hq : lookup KeyRequestEvent.requestId c.requestId s.received with
  | none =>
    by_cases hk : k = cancellationKey c
    · subst hk
      rw [if_pos rfl]
      unfold receivedAt
      rw [show (cancellationKey c).requestId = c.requestId from rfl, hq]
    · rw [if_neg hk]
  | some queued =>
    dsimp only
    by_cases hkey : queued.key = cancellationKey c
    · rw [if_pos hkey]
      unfold receivedAt
      dsimp only
      rw [lookup_remove]
      by_cases hid : k.requestId = c.requestId
      · rw [if_pos hid, hid, hq]
        by_cases hk : k = cancellationKey c
        · rw [if_pos hk]
        · rw [if_neg hk]
          cases queued with
          | request e => exact (if_neg fun he => hk (he.symm.trans hkey)).symm
          | cancellation c' => rfl
      · rw [if_neg hid, if_neg]
        rintro rfl
        exact hid rfl
    · rw [if_neg hkey]
      by_cases hk : k = cancellationKey c
      · subst hk
        rw [if_pos rfl]
        unfold receivedAt
        rw [show (cancellationKey c).requestId = c.requestId from rfl, hq]
        cases queued with
        | request e => exact if_neg hkey
        | cancellation c' => rfl
      · rw [if_neg hk]

theorem untrustedAt_put {e : RoomKeyRequest} (h : s.FreeInUntrusted (requestKey e))
    (k : RequestKey) :
    untrustedAt { s with untrusted := upsert RoomKeyRequest.requestId e s.untrusted } k =
      if requestKey e = k then some e else s.untrustedAt k := by
  unfold untrustedAt
  dsimp only
  rw [lookup_upsert]
  by_cases hid : k.requestId = e.requestId
  · rw [if_pos hid, Option.filter_some]
    by_cases hk : requestKey e = k
    · rw [if_pos (decide_eq_true hk), if_pos hk]
    · rw [if_neg (by simpa using hk), if_neg hk, hid]
      cases hl : lookup RoomKeyRequest.requestId e.requestId s.untrusted with
      | none => rfl
      | some e' =>
        have hne : requestKey e' ≠ k := fun he => hk ((h e' hl).symm.trans he)
        rw [Option.filter_some, if_neg (by simpa using hne)]
  · rw [if_neg hid, if_neg]
    rintro rfl
    exact hid rfl

/-- A request that is taken out of those not trusted, by its own id -/
theorem untrustedAt_remove {pending : RoomKeyRequest} {requestId : Str}
    (h : lookup RoomKeyRequest.requestId requestId s.untrusted = some pending) (k : RequestKey) :
    untrustedAt { s with untrusted := remove RoomKeyRequest.requestId requestId s.untrusted } k =
      if k = requestKey pending then none else s.untrustedAt k := by
  have hpending : pending.requestId = requestId := key_of_lookup h
  unfold untrustedAt
  dsimp only
  rw [lookup_remove]
  by_cases hid : k.requestId = requestId
  · rw [if_pos hid, hid, h, Option.filter_none, Option.filter_some]
    by_cases hk : k = requestKey pending
    · rw [if_pos hk]
    · rw [if_neg hk, if_neg (by simpa using Ne.symm hk)]
  · rw [if_neg hid, if_neg]
    rintro rfl
    exact hid hpending

theorem receivedAt_dropUntrusted {c : RoomKeyRequestCancellation}
    (h : s.untrustedAt (cancellationKey c) ≠ none →
      ∀ e, lookup KeyRequestEvent.requestId c.requestId s.received ≠ some (.request e))
    (k : RequestKey) : (s.dropUntrusted c).receivedAt k = s.receivedAt k := by
  unfold dropUntrusted
  cases hp : lookup RoomKeyRequest.requestId c.requestId s.untrusted with
  | none => rfl
  | some pending =>
    dsimp only
    split
    · next hkey =>
      have hfree := h (by
        unfold untrustedAt
        rw [show (cancellationKey c).requestId = c.requestId from rfl, hp, Option.filter_some,
          if_pos (decide_eq_true hkey)]
        exact Option.some_ne_none pending)
      unfold receivedAt receive
      dsimp only
      rw [lookup_upsert]
      by_cases hid : k.requestId = c.requestId
      · rw [if_pos (show k.requestId = (KeyRequestEvent.cancellation c).requestId from hid), hid]
        show none = _
        split
        · next e he => exact absurd he (hfree e)
        · rfl
      · rw [if_neg (show k.requestId ≠ (KeyRequestEvent.cancellation c).requestId from hid)]
    · rfl

theorem untrustedAt_dropUntrusted (c : RoomKeyRequestCancellation) (k : RequestKey) :
    (s.dropUntrusted c).untrustedAt k =
      if k = cancellationKey c then none else s.untrustedAt k := by
  unfold dropUntrusted
  cases hp : lookup RoomKeyRequest.requestId c.requestId s.untrusted with
  | none =>
    by_cases hk : k = cancellationKey c
    · subst hk
      rw [if_pos rfl]
      unfold untrustedAt
      rw [show (cancellationKey c).requestId = c.requestId from rfl, hp, Option.filter_none]
    · rw [if_neg hk]
  | some pending =>
    dsimp only
    by_cases hkey : requestKey pending = cancellationKey c
    · rw [if_pos hkey, ← hkey]
      exact untrustedAt_remove hp k
    · rw [if_neg hkey]
      by_cases hk : k = cancellationKey c
      · subst hk
        rw [if_pos rfl]
        unfold untrustedAt
        rw [show (cancellationKey c).requestId = c.requestId from rfl, hp, Option.filter_some,
          if_neg (by simpa using hkey)]
      · rw [if_neg hk]

/-! ## One step -/

theorem status_cons (k k' : RequestKey) (r : RequestStatus) (log : List (RequestKey × RequestStatus)) :
    status ((k, r) :: log) k' = if k = k' then some r else status log k' := by
  unfold status
  rw [lookup_cons]
  by_cases hk : k = k'
  · rw [if_pos (show (k, r).fst = k' from hk), if_pos hk]
    rfl
  · rw [if_neg (show ¬(k, r).fst = k' from hk), if_neg hk]

/-- What holds of the requests after every step -/
structure Good (s : KeyRequests) : Prop where
  unique : Unique s
  conserved : Conserved s
  justified : Justified s.log

theorem good_fresh : Good fresh where
  unique := ⟨List.nodup_nil, List.nodup_nil, List.nodup_nil⟩
  conserved _ := rfl
  justified := trivial

theorem places_eq (s : KeyRequests) (k : RequestKey) :
    s.places k = (s.receivedAt k).toList.length + (s.waitingAt k).toList.length +
      (s.untrustedAt k).toList.length := rfl

/-- A change that concerns one request alone, which is then either requested and in one place, or
settled and in none -/
theorem conserved_of_one {s' : KeyRequests} (k : RequestKey) (h : Conserved s)
    (hone : status s'.log k = some .requested ∧ s'.places k = 1 ∨
      status s'.log k ≠ some .requested ∧ s'.places k = 0)
    (hother : ∀ k', k' ≠ k → s'.places k' = s.places k' ∧ status s'.log k' = status s.log k') :
    Conserved s' := by
  intro k'
  by_cases hk : k' = k
  · subst hk
    rcases hone with ⟨hs, hp⟩ | ⟨hs, hp⟩
    · rw [if_pos hs, hp]
    · rw [if_neg hs, hp]
  · obtain ⟨hp, hs⟩ := hother k' hk
    rw [hp, hs, h k']

/-- A request that is somewhere was made and not settled. -/
theorem requested_of_places {k : RequestKey} (h : Conserved s) (hk : 0 < s.places k) :
    status s.log k = some .requested ∧ s.places k = 1 := by
  have hc := h k
  by_cases hs : status s.log k = some .requested
  · rw [if_pos hs] at hc
    exact ⟨hs, hc⟩
  · rw [if_neg hs] at hc
    omega

theorem good_request {e : RoomKeyRequest} (h : Good s) (hfree : s.FreeInReceived (requestKey e))
    (hw : s.waitingAt (requestKey e) = none) (hu : s.untrustedAt (requestKey e) = none) :
    Good ((s.receive (.request e)).record (requestKey e) .requested) := by
  refine ⟨⟨nodup_upsert h.unique.received, h.unique.waiting, h.unique.untrusted⟩, ?_, ?_⟩
  · refine conserved_of_one (requestKey e) h.conserved (Or.inl ⟨?_, ?_⟩) fun k hk => ⟨?_, ?_⟩
    · exact (status_cons _ _ _ _).trans (if_pos rfl)
    · change ((s.receive (.request e)).receivedAt (requestKey e)).toList.length +
        (s.waitingAt (requestKey e)).toList.length + (s.untrustedAt (requestKey e)).toList.length = 1
      rw [receivedAt_receive hfree, if_pos rfl, hw, hu]
      rfl
    · change ((s.receive (.request e)).receivedAt k).toList.length +
        (s.waitingAt k).toList.length + (s.untrustedAt k).toList.length = _
      rw [receivedAt_receive hfree, if_neg (Ne.symm hk), places_eq]
    · exact (status_cons _ _ _ _).trans (if_neg (Ne.symm hk))
  · exact ⟨fun hs => (nomatch hs), h.justified⟩

/-- After a cancellation that the device made, the device has no request under this id. -/
theorem noRequest_dropReceived {c : RoomKeyRequestCancellation}
    (h : s.FreeInReceived (cancellationKey c)) (e : RoomKeyRequest) :
    lookup KeyRequestEvent.requestId c.requestId (s.dropReceived c).received ≠
      some (.request e) := by
  intro he
  unfold dropReceived at he
  cases hq : lookup KeyRequestEvent.requestId c.requestId s.received with
  | none =>
    rw [hq] at he
    dsimp only at he
    rw [hq] at he
    cases he
  | some queued =>
    rw [hq] at he
    dsimp only at he
    by_cases hkey : queued.key = cancellationKey c
    · rw [if_pos hkey] at he
      dsimp only at he
      rw [lookup_remove, if_pos rfl] at he
      cases he
    · rw [if_neg hkey, hq] at he
      obtain rfl := Option.some.inj he
      exact hkey (h e hq)

theorem dropReceived_frame (c : RoomKeyRequestCancellation) :
    (s.dropReceived c).waiting = s.waiting ∧ (s.dropReceived c).untrusted = s.untrusted ∧
      (s.dropReceived c).log = s.log := by
  unfold dropReceived
  split
  · exact ⟨rfl, rfl, rfl⟩
  · split
    · exact ⟨rfl, rfl, rfl⟩
    · exact ⟨rfl, rfl, rfl⟩

theorem dropUntrusted_frame (c : RoomKeyRequestCancellation) :
    (s.dropUntrusted c).waiting = s.waiting ∧ (s.dropUntrusted c).log = s.log := by
  unfold dropUntrusted
  split
  · exact ⟨rfl, rfl⟩
  · split
    · exact ⟨rfl, rfl⟩
    · exact ⟨rfl, rfl⟩

/-- A cancellation takes the request of its own device out of every place, and touches no other. -/
theorem places_cancellation {env : KeyShareEnv} {c : RoomKeyRequestCancellation}
    (h : s.untrustedAt (cancellationKey c) ≠ none → s.FreeInReceived (cancellationKey c))
    (k : RequestKey) :
    let s' := s.handleKeyRequests env (.cancellation c)
    s'.receivedAt k = (if k = cancellationKey c then none else s.receivedAt k) ∧
      s'.waitingAt k = (if k = cancellationKey c then none else s.waitingAt k) ∧
      s'.untrustedAt k = (if k = cancellationKey c then none else s.untrustedAt k) := by
  intro s'
  obtain ⟨hw, hu, -⟩ := @dropReceived_frame s c
  refine ⟨?_, ?_, ?_⟩
  · change (dropUntrusted (dropWaiting env (s.dropReceived c) c) c).receivedAt k = _
    rw [receivedAt_dropUntrusted]
    · exact receivedAt_dropReceived c k
    · intro hne
      refine noRequest_dropReceived (h ?_)
      unfold untrustedAt dropWaiting at hne
      dsimp only at hne
      rw [hu] at hne
      exact hne
  · change lookup requestKey k
      (dropUntrusted (dropWaiting env (s.dropReceived c) c) c).waiting = _
    rw [(dropUntrusted_frame c).1]
    unfold dropWaiting
    dsimp only
    rw [hw]
    exact lookup_remove k (cancellationKey c) s.waiting
  · change (dropUntrusted (dropWaiting env (s.dropReceived c) c) c).untrustedAt k = _
    rw [untrustedAt_dropUntrusted]
    unfold untrustedAt dropWaiting
    dsimp only
    rw [hu]

theorem unique_dropReceived {c : RoomKeyRequestCancellation} (h : Unique s) :
    Unique (s.dropReceived c) := by
  unfold dropReceived
  split
  · exact h
  · split
    · exact ⟨nodup_remove h.received, h.waiting, h.untrusted⟩
    · exact h

theorem unique_dropUntrusted {c : RoomKeyRequestCancellation} (h : Unique s) :
    Unique (s.dropUntrusted c) := by
  unfold dropUntrusted
  split
  · exact h
  · split
    · exact ⟨nodup_upsert h.received, h.waiting, nodup_remove h.untrusted⟩
    · exact h

theorem good_cancellation {env : KeyShareEnv} {c : RoomKeyRequestCancellation} (h : Good s)
    (hc : s.untrustedAt (cancellationKey c) ≠ none → s.FreeInReceived (cancellationKey c)) :
    Good (s.handleKeyRequests env (.cancellation c)) := by
  have hlog : (s.handleKeyRequests env (.cancellation c)).log =
      (cancellationKey c, .cancelled) :: s.log := by
    change (cancellationKey c, RequestStatus.cancelled) ::
      (dropUntrusted (dropWaiting env (s.dropReceived c) c) c).log = _
    rw [(dropUntrusted_frame c).2]
    exact congrArg (_ :: ·) (dropReceived_frame c).2.2
  refine ⟨?_, ?_, ?_⟩
  · have hd : Unique (dropWaiting env (s.dropReceived c) c) := by
      have hr := @unique_dropReceived s c h.unique
      exact ⟨hr.received, nodup_remove hr.waiting, hr.untrusted⟩
    exact ⟨(unique_dropUntrusted hd).received, (unique_dropUntrusted hd).waiting,
      (unique_dropUntrusted hd).untrusted⟩
  · refine conserved_of_one (cancellationKey c) h.conserved (Or.inr ⟨?_, ?_⟩) fun k hk => ⟨?_, ?_⟩
    · rw [hlog, status_cons, if_pos rfl]
      exact fun hs => nomatch hs
    · obtain ⟨hr, hw, hu⟩ := @places_cancellation s env c hc (cancellationKey c)
      rw [places_eq, hr, hw, hu, if_pos rfl, if_pos rfl, if_pos rfl]
      rfl
    · obtain ⟨hr, hw, hu⟩ := @places_cancellation s env c hc k
      rw [places_eq, hr, hw, hu, if_neg hk, if_neg hk, if_neg hk, places_eq]
    · rw [hlog, status_cons, if_neg (Ne.symm hk)]
  · rw [hlog]
    exact ⟨fun hs => (nomatch hs), h.justified⟩

/-! ## Settling a request -/

/-- The state after a request left its place -/
structure Left (s s' : KeyRequests) (e : RoomKeyRequest) : Prop where
  log : s'.log = s.log
  unique : Unique s'
  gone : s'.places (requestKey e) = 0
  other : ∀ k, k ≠ requestKey e → s'.places k = s.places k

/-- A request that left its place is answered or refused. -/
theorem good_settled {s' : KeyRequests} {e : RoomKeyRequest} (h : Good s)
    (hin : 0 < s.places (requestKey e)) (hleft : Left s s' e) {r : RequestStatus}
    (hr : r ≠ .requested) : Good (s'.record (requestKey e) r) := by
  refine ⟨⟨hleft.unique.received, hleft.unique.waiting, hleft.unique.untrusted⟩, ?_, ?_⟩
  · refine conserved_of_one (requestKey e) h.conserved (Or.inr ⟨?_, hleft.gone⟩) fun k hk =>
      ⟨hleft.other k hk, ?_⟩
    · intro hs
      exact hr (Option.some.inj (((status_cons _ _ _ _).trans (if_pos rfl)).symm.trans hs))
    · exact ((status_cons _ _ _ _).trans (if_neg (Ne.symm hk))).trans
        (congrArg (status · k) hleft.log)
  · change Justified ((requestKey e, r) :: s'.log)
    rw [hleft.log]
    exact ⟨fun _ => (requested_of_places h.conserved hin).1, h.justified⟩

/-- A request that left its place is put in another. -/
theorem good_moved {s' t : KeyRequests} {e : RoomKeyRequest} (h : Good s)
    (hin : 0 < s.places (requestKey e)) (hleft : Left s s' e) (hlog : t.log = s'.log)
    (hunique : Unique t) (hone : t.places (requestKey e) = 1)
    (hother : ∀ k, k ≠ requestKey e → t.places k = s'.places k) : Good t := by
  refine ⟨hunique, ?_, ?_⟩
  · refine conserved_of_one (requestKey e) h.conserved (Or.inl ⟨?_, hone⟩) fun k hk =>
      ⟨(hother k hk).trans (hleft.other k hk), ?_⟩
    · rw [hlog, hleft.log]
      exact (requested_of_places h.conserved hin).1
    · rw [hlog, hleft.log]
  · rw [hlog, hleft.log]
    exact h.justified

theorem waitingAt_wait (e : RoomKeyRequest) (k : RequestKey) :
    (s.wait e).waitingAt k = if k = requestKey e then some e else s.waitingAt k :=
  lookup_upsert k e s.waiting

/-- A request that comes to nowhere yet has none of its own in any place. -/
theorem none_of_places {k : RequestKey} (h : s.places k = 0) :
    s.receivedAt k = none ∧ s.waitingAt k = none ∧ s.untrustedAt k = none := by
  rw [places_eq] at h
  refine ⟨?_, ?_, ?_⟩
  · cases hr : s.receivedAt k with
    | none => rfl
    | some e => rw [hr] at h; simp at h
  · cases hw : s.waitingAt k with
    | none => rfl
    | some e => rw [hw] at h; simp at h
  · cases hu : s.untrustedAt k with
    | none => rfl
    | some e => rw [hu] at h; simp at h

theorem good_wait {s' : KeyRequests} {e : RoomKeyRequest} (h : Good s)
    (hin : 0 < s.places (requestKey e)) (hleft : Left s s' e) : Good (s'.wait e) := by
  obtain ⟨hr, hw, hu⟩ := none_of_places hleft.gone
  refine good_moved h hin hleft rfl
    ⟨hleft.unique.received, nodup_upsert hleft.unique.waiting, hleft.unique.untrusted⟩ ?_ ?_
  · change (s'.receivedAt (requestKey e)).toList.length +
      ((s'.wait e).waitingAt (requestKey e)).toList.length +
      (s'.untrustedAt (requestKey e)).toList.length = 1
    rw [waitingAt_wait, if_pos rfl, hr, hu]
    rfl
  · intro k hk
    change (s'.receivedAt k).toList.length + ((s'.wait e).waitingAt k).toList.length +
      (s'.untrustedAt k).toList.length = _
    rw [waitingAt_wait, if_neg hk, places_eq]

/-- Everything but a request of an untrusted device is settled or waits. -/
theorem good_collectSingleKeyShare {env : KeyShareEnv} {s' : KeyRequests} {e : RoomKeyRequest}
    (h : Good s) (hin : 0 < s.places (requestKey e)) (hleft : Left s s' e)
    (hdone : (s'.collectSingleKeyShare env e).2 = true) :
    Good (s'.collectSingleKeyShare env e).1 := by
  unfold collectSingleKeyShare at hdone ⊢
  split
  · next hown =>
    rw [if_pos hown] at hdone
    cases hs : shareResult env e with
    | shared => exact good_settled h hin hleft fun hr => nomatch hr
    | keyShareError => exact good_settled h hin hleft fun hr => nomatch hr
    | encryptionError => exact good_wait h hin hleft
    | trustError => rw [hs] at hdone; cases hdone
  · exact good_settled h hin hleft fun hr => nomatch hr

/-! ## Collecting -/

theorem collectSingleKeyShare_false {env : KeyShareEnv} {e : RoomKeyRequest}
    (h : (s.collectSingleKeyShare env e).2 = false) :
    e.sender = env.userId ∧ shareResult env e = .trustError ∧
      (s.collectSingleKeyShare env e).1 = s := by
  unfold collectSingleKeyShare at h ⊢
  split at h
  · next hown =>
    rw [if_pos hown]
    cases hs : shareResult env e with
    | shared => rw [hs] at h; cases h
    | keyShareError => rw [hs] at h; cases h
    | encryptionError => rw [hs] at h; cases h
    | trustError => exact ⟨hown, rfl, rfl⟩
  · cases h

/-- The requests that just arrived are not read while one of them is shared. -/
theorem collectSingleKeyShare_received (env : KeyShareEnv) (e : RoomKeyRequest)
    (received : List KeyRequestEvent) :
    collectSingleKeyShare env { s with received } e =
      ({ (s.collectSingleKeyShare env e).1 with received }, (s.collectSingleKeyShare env e).2) := by
  unfold collectSingleKeyShare
  split
  · cases shareResult env e with
    | shared => rfl
    | keyShareError => rfl
    | encryptionError => rfl
    | trustError => rfl
  · rfl

theorem collectEvent_received (env : KeyShareEnv) (e : KeyRequestEvent)
    (received : List KeyRequestEvent) :
    { s.collectEvent env e with received } = collectEvent env { s with received } e := by
  cases e with
  | cancellation c => rfl
  | request e =>
    unfold collectEvent
    dsimp only
    rw [collectSingleKeyShare_received env e received]
    obtain ⟨s', b⟩ := s.collectSingleKeyShare env e
    cases b with
    | true => rfl
    | false => rfl

theorem collectEvent_untrusted (env : KeyShareEnv) (e : RoomKeyRequest) :
    (s.collectEvent env (.request e)).untrusted = s.untrusted ∨
      (s.collectEvent env (.request e)).untrusted =
        upsert RoomKeyRequest.requestId e s.untrusted := by
  have hframe : (s.collectSingleKeyShare env e).1.untrusted = s.untrusted := by
    unfold collectSingleKeyShare
    split
    · cases shareResult env e with
      | shared => rfl
      | keyShareError => rfl
      | encryptionError => rfl
      | trustError => rfl
    · rfl
  unfold collectEvent
  dsimp only
  rcases hc : s.collectSingleKeyShare env e with ⟨s', b⟩
  rw [hc] at hframe
  cases b with
  | true => exact Or.inl hframe
  | false => exact Or.inr (congrArg (upsert RoomKeyRequest.requestId e) hframe)

/-- The first of those that just arrived -/
theorem receivedAt_head {e : RoomKeyRequest} {rest : List KeyRequestEvent}
    (hs : s.received = .request e :: rest) : s.receivedAt (requestKey e) = some e := by
  have hhead : lookup KeyRequestEvent.requestId (requestKey e).requestId s.received =
      some (.request e) := by
    rw [hs, lookup_cons]
    exact if_pos rfl
  unfold receivedAt
  rw [hhead]
  exact if_pos rfl

theorem receivedAt_tail {head : KeyRequestEvent} {rest : List KeyRequestEvent}
    (hs : s.received = head :: rest) (hnodup : (s.received.map KeyRequestEvent.requestId).Nodup)
    (k : RequestKey) : receivedAt { s with received := rest } k =
      if k = head.key then none else s.receivedAt k := by
  rw [hs, List.map_cons, List.nodup_cons] at hnodup
  unfold receivedAt
  rw [hs, lookup_cons]
  dsimp only
  by_cases hid : head.requestId = k.requestId
  · rw [if_pos hid, lookup_eq_none_of_notMem (hid ▸ hnodup.1)]
    by_cases hk : k = head.key
    · rw [if_pos hk]
    · rw [if_neg hk]
      cases head with
      | cancellation c => rfl
      | request e => exact (if_neg (Ne.symm hk)).symm
  · rw [if_neg hid, if_neg]
    rintro rfl
    exact hid rfl

/-- A cancellation is no request. -/
theorem receivedAt_cancellation {c : RoomKeyRequestCancellation} {rest : List KeyRequestEvent}
    (hs : s.received = .cancellation c :: rest) : s.receivedAt (cancellationKey c) = none := by
  have hhead : lookup KeyRequestEvent.requestId (cancellationKey c).requestId s.received =
      some (.cancellation c) := by
    rw [hs, lookup_cons]
    exact if_pos rfl
  unfold receivedAt
  rw [hhead]

theorem left_head {e : RoomKeyRequest} {rest : List KeyRequestEvent} (h : Good s)
    (hs : s.received = .request e :: rest) : Left s { s with received := rest } e := by
  have hone := receivedAt_head hs
  have htail := receivedAt_tail hs h.unique.received
  have hin : 0 < s.places (requestKey e) := by
    rw [places_eq, hone]
    simp only [Option.toList_some, List.length_singleton]
    omega
  refine ⟨rfl, ⟨?_, h.unique.waiting, h.unique.untrusted⟩, ?_, ?_⟩
  · have hnodup := h.unique.received
    rw [hs, List.map_cons, List.nodup_cons] at hnodup
    exact hnodup.2
  · have hplaces := (requested_of_places h.conserved hin).2
    rw [places_eq, hone] at hplaces
    change (receivedAt { s with received := rest } (requestKey e)).toList.length +
      (s.waitingAt (requestKey e)).toList.length + (s.untrustedAt (requestKey e)).toList.length = 0
    rw [htail, if_pos (show requestKey e = (KeyRequestEvent.request e).key from rfl)]
    simp only [Option.toList_some, Option.toList_none, List.length_singleton,
      List.length_nil] at hplaces ⊢
    omega
  · intro k hk
    change (receivedAt { s with received := rest } k).toList.length +
      (s.waitingAt k).toList.length + (s.untrustedAt k).toList.length = _
    rw [htail, if_neg (show k ≠ (KeyRequestEvent.request e).key from hk), places_eq]

theorem good_collectEvent {env : KeyShareEnv} {head : KeyRequestEvent}
    {rest : List KeyRequestEvent} (h : Good s) (hs : s.received = head :: rest)
    (hfree : ∀ e, head = .request e → e.sender = env.userId → shareResult env e = .trustError →
      s.FreeInUntrusted (requestKey e)) :
    Good (collectEvent env { s with received := rest } head) := by
  cases head with
  | cancellation c =>
    have hplaces : ∀ k, places { s with received := rest } k = s.places k := fun k => by
      change (receivedAt { s with received := rest } k).toList.length +
        (s.waitingAt k).toList.length + (s.untrustedAt k).toList.length = _
      rw [receivedAt_tail hs h.unique.received, places_eq]
      by_cases hk : k = (KeyRequestEvent.cancellation c).key
      · rw [if_pos hk, hk]
        rw [show s.receivedAt (KeyRequestEvent.cancellation c).key = none from
          receivedAt_cancellation hs]
      · rw [if_neg hk]
    have hnodup := h.unique.received
    rw [hs, List.map_cons, List.nodup_cons] at hnodup
    exact ⟨⟨hnodup.2, h.unique.waiting, h.unique.untrusted⟩,
      fun k => (hplaces k).trans (h.conserved k), h.justified⟩
  | request e =>
    have hleft := left_head h hs
    have hin : 0 < s.places (requestKey e) := by
      rw [places_eq, receivedAt_head hs]
      simp only [Option.toList_some, List.length_singleton]
      omega
    cases hdone : (collectSingleKeyShare env { s with received := rest } e).2 with
    | true =>
      have hgood := good_collectSingleKeyShare h hin hleft hdone
      unfold collectEvent
      dsimp only
      rcases hc : collectSingleKeyShare env { s with received := rest } e with ⟨s', b⟩
      rw [hc] at hdone hgood
      obtain rfl : b = true := hdone
      exact hgood
    | false =>
      obtain ⟨hown, htrust, hsame⟩ := collectSingleKeyShare_false hdone
      obtain ⟨hr, hw, hu⟩ := none_of_places hleft.gone
      have hput := @untrustedAt_put { s with received := rest } e (hfree e rfl hown htrust)
      unfold collectEvent
      dsimp only
      rcases hc : collectSingleKeyShare env { s with received := rest } e with ⟨s', b⟩
      rw [hc] at hdone hsame
      obtain rfl : b = false := hdone
      obtain rfl : s' = { s with received := rest } := hsame
      refine good_moved h hin hleft rfl
        ⟨hleft.unique.received, hleft.unique.waiting, nodup_upsert hleft.unique.untrusted⟩ ?_ ?_
      · rw [places_eq, hput, if_pos rfl]
        change (receivedAt { s with received := rest } (requestKey e)).toList.length +
          (waitingAt { s with received := rest } (requestKey e)).toList.length + _ = 1
        rw [hr, hw]
        rfl
      · intro k hk
        rw [places_eq, hput, if_neg (Ne.symm hk)]
        rfl

/-- The requests of a round go one after the other; each finds those before it settled. -/
theorem good_collect_fold {env : KeyShareEnv} (rest : List KeyRequestEvent)
    (h : Good { s with received := rest })
    (hfree : ∀ e, .request e ∈ rest → e.sender = env.userId → shareResult env e = .trustError →
      s.FreeInUntrusted (requestKey e)) :
    Good { rest.foldl (collectEvent env) s with received := [] } := by
  induction rest generalizing s with
  | nil => exact h
  | cons head rest ih =>
    have hnodup := h.unique.received
    rw [List.map_cons, List.nodup_cons] at hnodup
    have hhead : Good (collectEvent env { s with received := rest } head) :=
      @good_collectEvent { s with received := head :: rest } env head rest h rfl
        fun e he hown htrust => hfree e (he ▸ List.mem_cons_self) hown htrust
    rw [← @collectEvent_received s env head rest] at hhead
    rw [List.foldl_cons]
    refine ih hhead fun e he hown htrust e' he' => ?_
    have hold := hfree e (List.mem_cons_of_mem _ he) hown htrust
    cases head with
    | cancellation c => exact hold e' he'
    | request f =>
      rcases @collectEvent_untrusted s env f with hsame | hput
      · rw [hsame] at he'
        exact hold e' he'
      · rw [hput, lookup_upsert, if_neg] at he'
        · exact hold e' he'
        · -- Another request of the same round has another id.
          intro hid
          refine hnodup.1 (List.mem_map.mpr ⟨.request e, he, ?_⟩)
          exact hid

theorem good_collectKeyRequests {env : KeyShareEnv} (h : Good s)
    (hfree : ∀ e, .request e ∈ s.received → e.sender = env.userId →
      shareResult env e = .trustError → s.FreeInUntrusted (requestKey e)) :
    Good (s.collectKeyRequests env) :=
  good_collect_fold s.received h hfree

/-! ## Pending requests and claims -/

theorem untrustedAt_of_lookup {e : RoomKeyRequest}
    (h : lookup RoomKeyRequest.requestId e.requestId s.untrusted = some e) :
    s.untrustedAt (requestKey e) = some e := by
  unfold untrustedAt
  rw [show (requestKey e).requestId = e.requestId from rfl, h, Option.filter_some]
  exact if_pos (decide_eq_true rfl)

theorem left_untrusted {e : RoomKeyRequest} (h : Good s)
    (he : lookup RoomKeyRequest.requestId e.requestId s.untrusted = some e) :
    0 < s.places (requestKey e) ∧ Left s
      { s with untrusted := remove RoomKeyRequest.requestId e.requestId s.untrusted } e := by
  have hone := untrustedAt_of_lookup he
  have hin : 0 < s.places (requestKey e) := by
    rw [places_eq, hone]
    simp only [Option.toList_some, List.length_singleton]
    omega
  have hrest := untrustedAt_remove he
  refine ⟨hin, rfl, ⟨h.unique.received, h.unique.waiting, nodup_remove h.unique.untrusted⟩, ?_, ?_⟩
  · have hplaces := (requested_of_places h.conserved hin).2
    rw [places_eq, hone] at hplaces
    rw [places_eq, hrest, if_pos rfl]
    change (s.receivedAt (requestKey e)).toList.length + (s.waitingAt (requestKey e)).toList.length +
      _ = 0
    simp only [Option.toList_some, Option.toList_none, List.length_singleton,
      List.length_nil] at hplaces ⊢
    omega
  · intro k hk
    rw [places_eq, hrest, if_neg hk]
    rfl

theorem good_continueKeyShare {env : KeyShareEnv} {e : RoomKeyRequest} (h : Good s) :
    Good (s.continueKeyShare env e) := by
  unfold continueKeyShare
  split
  · exact h
  · next hmem =>
    have he := lookup_of_mem h.unique.untrusted (not_not.mp hmem)
    obtain ⟨hin, hleft⟩ := left_untrusted h he
    -- The request is taken out only after it was shared, which does not look at its queue.
    have hcomm : collectSingleKeyShare env
        { s with untrusted := remove RoomKeyRequest.requestId e.requestId s.untrusted } e =
        ({ (s.collectSingleKeyShare env e).1 with
          untrusted := remove RoomKeyRequest.requestId e.requestId
            (s.collectSingleKeyShare env e).1.untrusted }, (s.collectSingleKeyShare env e).2) := by
      unfold collectSingleKeyShare
      split
      · cases shareResult env e with
        | shared => rfl
        | keyShareError => rfl
        | encryptionError => rfl
        | trustError => rfl
      · rfl
    rcases hc : s.collectSingleKeyShare env e with ⟨s', b⟩
    rw [hc] at hcomm
    cases b with
    | false =>
      have hsame := (@collectSingleKeyShare_false s env e (by rw [hc])).2.2
      rw [hc] at hsame
      obtain rfl : s' = s := hsame
      exact h
    | true =>
      have hgood := @good_collectSingleKeyShare s env _ e h hin hleft (by rw [hcomm])
      rw [hcomm] at hgood
      exact hgood

theorem good_cancelKeyShare {e : RoomKeyRequest} (h : Good s) : Good (s.cancelKeyShare e) := by
  unfold cancelKeyShare
  cases hl : lookup RoomKeyRequest.requestId e.requestId s.untrusted with
  | none => exact h
  | some pending =>
    have hid : pending.requestId = e.requestId := key_of_lookup hl
    rw [← hid] at hl ⊢
    obtain ⟨hin, hleft⟩ := left_untrusted h hl
    exact good_settled h hin hleft fun hr => nomatch hr

theorem waitingAt_claimDevice {device : Str × Str} (hd : device ∈ s.noSession) (k : RequestKey) :
    (s.claimDevice device).waitingAt k =
      if (k.sender, k.device) = device then none else s.waitingAt k := by
  unfold claimDevice waitingAt
  rw [if_neg (not_not.mpr hd)]
  have hfilter := @lookup_filter _ _ _ requestKey
    (fun k : RequestKey => (k.sender, k.device) ≠ device) _ k s.waiting
  by_cases hk : (k.sender, k.device) = device
  · rw [if_pos hk]
    exact hfilter.trans (if_neg (not_not.mpr hk))
  · rw [if_neg hk]
    exact hfilter.trans (if_pos hk)

/-- The requests of one device have different ids. -/
theorem nodup_ofDevice (h : Unique s) (device : Str × Str) :
    (((s.waiting.filter fun e => (e.sender, e.requestingDeviceId) = device).map
      KeyRequestEvent.request).map KeyRequestEvent.requestId).Nodup := by
  have hkeys : ((s.waiting.filter fun e => (e.sender, e.requestingDeviceId) = device).map
      requestKey).Nodup := (List.Sublist.map requestKey List.filter_sublist).nodup h.waiting
  have hids := List.Nodup.map_on (f := RequestKey.requestId) (fun k hk k' hk' hid => ?_) hkeys
  · rw [List.map_map] at hids ⊢
    exact hids
  · obtain ⟨e, he, rfl⟩ := List.mem_map.mp hk
    obtain ⟨e', he', rfl⟩ := List.mem_map.mp hk'
    have hd : (e.sender, e.requestingDeviceId) = device :=
      of_decide_eq_true (List.mem_filter.mp he).2
    have hd' : (e'.sender, e'.requestingDeviceId) = device :=
      of_decide_eq_true (List.mem_filter.mp he').2
    obtain ⟨hs, hdev⟩ := Prod.mk.inj (hd.trans hd'.symm)
    unfold requestKey at hid ⊢
    rw [hs, hdev, show e.requestId = e'.requestId from hid]

theorem receivedAt_claimDevice (h : Unique s) {device : Str × Str} (hd : device ∈ s.noSession)
    (hfree : ∀ e ∈ s.waiting, (e.sender, e.requestingDeviceId) = device →
      s.FreeInReceived (requestKey e)) (k : RequestKey) :
    (s.claimDevice device).receivedAt k =
      if (k.sender, k.device) = device then (s.waitingAt k).or (s.receivedAt k)
      else s.receivedAt k := by
  have hlookup : lookup KeyRequestEvent.requestId k.requestId (s.claimDevice device).received =
      ((lookup RoomKeyRequest.requestId k.requestId
        (s.waiting.filter fun e => (e.sender, e.requestingDeviceId) = device)).map
          KeyRequestEvent.request).or (lookup KeyRequestEvent.requestId k.requestId s.received) := by
    unfold claimDevice
    rw [if_neg (not_not.mpr hd)]
    dsimp only
    rw [← List.foldl_map (f := KeyRequestEvent.request)
      (g := fun received e => upsert KeyRequestEvent.requestId e received),
      lookup_foldl_upsert _ _ (nodup_ofDevice h device)]
    exact congrArg (Option.or · _) (lookup_map (fun _ => rfl) _ _)
  unfold receivedAt
  rw [hlookup]
  by_cases hk : (k.sender, k.device) = device
  · -- Of this device, a request is the one under the id.
    have hsame : lookup RoomKeyRequest.requestId k.requestId
        (s.waiting.filter fun e => (e.sender, e.requestingDeviceId) = device) = s.waitingAt k := by
      have hfilter := @lookup_filter _ _ _ requestKey
        (fun k : RequestKey => (k.sender, k.device) = device) _ k s.waiting
      refine (lookup_congr fun e he => ?_).trans (hfilter.trans (if_pos hk))
      have hde : (e.sender, e.requestingDeviceId) = device :=
        of_decide_eq_true (List.mem_filter.mp he).2
      obtain ⟨hs, hdev⟩ := Prod.mk.inj (hde.trans hk.symm)
      constructor
      · intro hid
        unfold requestKey
        rw [hs, hdev, hid]
      · rintro rfl
        rfl
    rw [if_pos hk, hsame]
    cases hw : s.waitingAt k with
    | none => rfl
    | some e => exact if_pos (key_of_lookup hw)
  · rw [if_neg hk]
    cases he : lookup RoomKeyRequest.requestId k.requestId
        (s.waiting.filter fun e => (e.sender, e.requestingDeviceId) = device) with
    | none => rfl
    | some e =>
      have hmem := List.mem_filter.mp (mem_of_lookup he)
      have hde : (e.sender, e.requestingDeviceId) = device := of_decide_eq_true hmem.2
      have hid : e.requestId = k.requestId := key_of_lookup he
      have hne : requestKey e ≠ k := by
        rintro rfl
        exact hk hde
      change (if requestKey e = k then some e else none) = _
      rw [if_neg hne]
      split
      · next e' he' =>
        have hkey := hfree e hmem.1 hde e' (show lookup _ e.requestId _ = _ from hid ▸ he')
        rw [if_neg fun hk' => hne (hkey.symm.trans hk')]
      · rfl

theorem good_claimDevice {device : Str × Str} (h : Good s)
    (hfree : device ∈ s.noSession → ∀ e ∈ s.waiting, (e.sender, e.requestingDeviceId) = device →
      s.FreeInReceived (requestKey e)) : Good (s.claimDevice device) := by
  by_cases hd : device ∈ s.noSession
  · have hr := receivedAt_claimDevice h.unique hd (hfree hd)
    have hw := @waitingAt_claimDevice s device hd
    have hlog : (s.claimDevice device).log = s.log := by
      unfold claimDevice
      rw [if_neg (not_not.mpr hd)]
    have hu : ∀ k, (s.claimDevice device).untrustedAt k = s.untrustedAt k := fun k => by
      unfold claimDevice
      rw [if_neg (not_not.mpr hd)]
      rfl
    refine ⟨?_, fun k => ?_, ?_⟩
    · unfold claimDevice
      rw [if_neg (not_not.mpr hd)]
      refine ⟨?_, (List.Sublist.map requestKey List.filter_sublist).nodup h.unique.waiting,
        h.unique.untrusted⟩
      dsimp only
      rw [← List.foldl_map (f := KeyRequestEvent.request)
        (g := fun received e => upsert KeyRequestEvent.requestId e received)]
      exact nodup_foldl_upsert _ _ h.unique.received
    · rw [hlog, ← h.conserved k, places_eq, places_eq, hr, hw, hu]
      by_cases hk : (k.sender, k.device) = device
      · rw [if_pos hk, if_pos hk]
        cases hwk : s.waitingAt k with
        | none => simp
        | some e =>
          have hin : 0 < s.places k := by
            rw [places_eq, hwk]
            simp only [Option.toList_some, List.length_singleton]
            omega
          have hone := (requested_of_places h.conserved hin).2
          rw [places_eq, hwk] at hone
          simp only [Option.toList_some, List.length_singleton, Option.some_or,
            Option.toList_none, List.length_nil] at hone ⊢
          omega
      · rw [if_neg hk, if_neg hk]
    · rw [hlog]
      exact h.justified
  · unfold claimDevice
    rw [if_pos hd]
    exact h

theorem good_claimed {devices : List (Str × Str)} (h : Good s) (hclear : ClearClaims s devices) :
    Good (devices.foldl claimDevice s) := by
  induction devices generalizing s with
  | nil => exact h
  | cons device devices ih => exact ih (good_claimDevice h hclear.1) hclear.2

/-! ## Runs of requests -/

theorem good_step (s : KeyRequests) (a : KeyRequestAction) (hclear : s.Clear a) (h : Good s) :
    Good (s.step a) := by
  cases a with
  | event env e =>
    cases e with
    | cancellation c => exact good_cancellation h hclear
    | request e =>
      by_cases ha : e.algorithm = megolmAlgorithm
      · obtain ⟨hfree, hw, hu⟩ := hclear ha
        have hgood := good_request h hfree hw hu
        rwa [← show s.step (.event env (.request e)) = _ from if_pos ha] at hgood
      · rwa [show s.step (.event env (.request e)) = s from if_neg ha]
  | collect env => exact good_collectKeyRequests h hclear
  | claimed devices => exact good_claimed h hclear
  | continueShare env e => exact good_continueKeyShare h
  | cancelShare e => exact good_cancelKeyShare h

/-- An event of a device leaves the requests of the others where they are. -/
theorem places_event {env : KeyShareEnv} {e : KeyRequestEvent} (hclear : s.Clear (.event env e))
    {k : RequestKey} (hk : (k.sender, k.device) ≠ (e.key.sender, e.key.device)) :
    (s.step (.event env e)).receivedAt k = s.receivedAt k ∧
      (s.step (.event env e)).waitingAt k = s.waitingAt k ∧
      (s.step (.event env e)).untrustedAt k = s.untrustedAt k := by
  have hne : k ≠ e.key := by
    rintro rfl
    exact hk rfl
  cases e with
  | cancellation c =>
    obtain ⟨hr, hw, hu⟩ := @places_cancellation s env c hclear k
    change k ≠ cancellationKey c at hne
    rw [if_neg hne] at hr hw hu
    exact ⟨hr, hw, hu⟩
  | request e =>
    by_cases ha : e.algorithm = megolmAlgorithm
    · rw [show s.step (.event env (.request e)) =
        (s.receive (.request e)).record (requestKey e) .requested from if_pos ha]
      refine ⟨?_, rfl, rfl⟩
      exact (receivedAt_receive (hclear ha).1 k).trans (if_neg (Ne.symm hne))
    · rw [show s.step (.event env (.request e)) = s from if_neg ha]
      exact ⟨rfl, rfl, rfl⟩

/-- While no two requests meet: after every step each request is in exactly one place until it is
answered, refused or cancelled by its own device (or here); a cancelled request is not answered
unless it is made again; and an event of one device leaves the requests of every other alone. -/
theorem keyRequests_conserved (actions : List KeyRequestAction)
    (hclear : Along step Clear fresh actions) :
    Conserved (run step fresh actions) ∧ Justified (run step fresh actions).log ∧
      ∀ env e k, (run step fresh actions).Clear (.event env e) →
        (k.sender, k.device) ≠ (e.key.sender, e.key.device) →
        let s := run step fresh actions
        (s.step (.event env e)).receivedAt k = s.receivedAt k ∧
          (s.step (.event env e)).waitingAt k = s.waitingAt k ∧
          (s.step (.event env e)).untrustedAt k = s.untrustedAt k := by
  have hgood := run_invariant_along good_step hclear good_fresh
  exact ⟨hgood.conserved, hgood.justified, fun env e k hc hk => places_event hc hk⟩

/-- A request of one of Alice's devices, under an id that its device chose -/
def aliceRequest (device : String) : RoomKeyRequest where
  source := .null
  sender := py "@alice:x"
  requestingDeviceId := py device
  requestId := py "1"
  algorithm := megolmAlgorithm
  roomId := py "!r:x"
  senderKey := py "C"
  sessionId := py "S"

/-- No device of hers is known here. -/
def noDevices : KeyShareEnv := ⟨py "@alice:x", fun _ _ _ => true, fun _ _ => none, fun _ => false⟩

/-- Her device A is known and not verified, B is verified, and there is the session that is asked
for. -/
def aliceDevices (session : Bool) : KeyShareEnv where
  userId := py "@alice:x"
  groupSession := fun _ _ _ => true
  device := fun _ deviceId => some ⟨deviceId, decide (deviceId = py "B")⟩
  session := fun _ => session

def aliceCancellation (device : String) : RoomKeyRequestCancellation :=
  ⟨.null, py "@alice:x", py device, py "1"⟩

/-- Both devices ask under the same id, A until somebody decides about it and B until there is an Olm
session. -/
def bothAsk : List KeyRequestAction :=
  [.event (aliceDevices false) (.request (aliceRequest "A")), .collect (aliceDevices false),
    .event (aliceDevices false) (.request (aliceRequest "B")), .collect (aliceDevices false)]

/-- A cancels, and B is answered when its session was claimed. -/
def aliceActions : List KeyRequestAction :=
  bothAsk ++ [.event (aliceDevices false) (.cancellation (aliceCancellation "A")),
    .collect (aliceDevices false), .claimed [(py "@alice:x", py "B")], .collect (aliceDevices true)]

/-- The request of A is cancelled and that of B answered, and the cancellation of A left the request
of B where it waited. -/
theorem keyRequests_conserved_alice :
    (Conserved (run step fresh aliceActions) ∧ Justified (run step fresh aliceActions).log ∧
      status (run step fresh aliceActions).log (requestKey (aliceRequest "A")) = some .cancelled ∧
      status (run step fresh aliceActions).log (requestKey (aliceRequest "B")) = some .answered) ∧
    (run step fresh bothAsk).waitingAt (requestKey (aliceRequest "B")) = some (aliceRequest "B") ∧
    ((run step fresh bothAsk).step
        (.event (aliceDevices false) (.cancellation (aliceCancellation "A")))).waitingAt
      (requestKey (aliceRequest "B")) =
        (run step fresh bothAsk).waitingAt (requestKey (aliceRequest "B")) := by
  have hclear : Along step Clear fresh aliceActions :=
    ⟨by decide +kernel, by decide +kernel, by decide +kernel, by decide +kernel, by decide +kernel,
      by decide +kernel, by decide +kernel, by decide +kernel, trivial⟩
  obtain ⟨hconserved, hjustified, -⟩ := keyRequests_conserved aliceActions hclear
  obtain ⟨h₁, h₂, h₃, h₄, h₅, -⟩ := hclear
  obtain ⟨-, -, hothers⟩ := keyRequests_conserved bothAsk ⟨h₁, h₂, h₃, h₄, trivial⟩
  exact ⟨⟨hconserved, hjustified, by decide +kernel, by decide +kernel⟩, by decide +kernel,
    (hothers _ (.cancellation (aliceCancellation "A")) _ h₅ (by decide +kernel)).2.1⟩

/-- Two devices that ask under the same id before their requests are collected: the request of the
first is nowhere, though nobody answered, refused or cancelled it. -/
theorem same_request_id_lost :
    let s := run step fresh [.event noDevices (.request (aliceRequest "A")),
      .event noDevices (.request (aliceRequest "B"))]
    status s.log (requestKey (aliceRequest "A")) = some .requested ∧
      s.places (requestKey (aliceRequest "A")) = 0 ∧ ¬s.Conserved := by
  refine ⟨by decide +kernel, by decide +kernel, fun h => ?_⟩
  have hA := h (requestKey (aliceRequest "A"))
  revert hA
  decide +kernel

end KeyRequests

end Nio.Crypto
