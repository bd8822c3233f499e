import Nio.Crypto.Sas
import Nio.Events.Misc
import Nio.Lib.Run
import Nio.Schemas

/-!
# Retained crypto requests

`CryptoMaintenance` keeps the queue of to-device messages, the users whose devices must be queried
and the one HTTP request that waits for its answer; `OutboundCrypto` sends that request for the
public calls and for the maintenance loop, which take turns under a lock.

* `CryptoOwner.nextRequest`, `CryptoOwner.apply` — the request that is retained and its answer
* `OutboundCrypto.step` — what can happen between two `await`s
-/

namespace Nio.Durable

open Nio.Py
open Nio.Crypto (ToDeviceMessage)
open Nio.Events (PyError)

/-! ## Messages and requests -/

/-- The classes of the messages in the queue, with the fields that they add. -/
inductive MessageClass where
  | toDevice
  | dummy
  | roomKeyRequest (requestId sessionId roomId algorithm : Str)
  deriving DecidableEq

structure QueuedMessage where
  type : MessageClass
  message : ToDeviceMessage
  deriving DecidableEq

inductive RequestKind where
  | upload
  | query
  | claim
  | toDevice
  deriving DecidableEq, Repr

/-- `path` has the parts that are joined to the path, `body` the value whose text is sent. -/
structure CryptoRequest where
  requestId : Str
  kind : RequestKind
  method : String
  path : List Str
  body : Json
  deriving DecidableEq

/-- The row of kind `request` -/
structure RetainedRequest where
  request : CryptoRequest
  messageId : Option Str
  encryptedFingerprint : Option Str

/-- The row of kind `facts`, as far as the queue and the queries go -/
structure Facts where
  usersForKeyQuery : List Str
  messages : List (Str × QueuedMessage)

/-- `NioDurableCrypto`, which has one row of each kind at most -/
structure CryptoRows where
  facts : Option Facts
  request : Option RetainedRequest

/-! ### `Api` -/

def usersBody (users : List Str) : Json :=
  .obj (dictOf (users.map fun user => (user, .arr [])))

def keysUpload (keys : List (Str × Json)) : String × List Str × Json :=
  ("POST", [py "keys", py "upload"], .obj keys)

def keysQuery (users : List Str) (token : Option Str) : String × List Str × Json :=
  ("POST", [py "keys", py "query"], .obj ((py "device_keys", usersBody users) ::
    match token with
    | some (c :: cs) => [(py "token", .str (c :: cs))]
    | _ => []))

def claimBody (users : List (Str × List Str)) : Json :=
  .obj (dictOf ((users.filter fun u => u.2 ≠ []).map fun u =>
    (u.1, .obj (dictOf (u.2.map fun device => (device, .str (py "signed_curve25519")))))))

def keysClaim (users : List (Str × List Str)) : String × List Str × Json :=
  ("POST", [py "keys", py "claim"], .obj [(py "one_time_keys", claimBody users)])

def toDevice (type : Str) (content : List (Str × Json)) (txId : Str) : String × List Str × Json :=
  ("PUT", [py "sendToDevice", type, txId], .obj content)

/-- `ToDeviceMessage.as_dict` -/
def asDict (m : ToDeviceMessage) : List (Str × Json) :=
  [(py "messages", .obj [(m.recipient, .obj [(m.recipientDevice, m.content)])])]

/-! ### Responses -/

def isDict : Json → Bool
  | .obj _ => true
  | _ => false

inductive CryptoResponse where
  | error
  | toDevice (message : Option Nat)
  | upload
  /-- The users of `device_keys` -/
  | query (users : List Str)
  | claim

def CryptoResponse.users : CryptoResponse → List Str
  | .query users => users
  | _ => []

/-- `json.loads(request.body)["device_keys"]` -/
def queriedUsers (request : CryptoRequest) : List Str :=
  match request.body with
  | .obj kvs =>
    match dictGet? kvs (py "device_keys") with
    | some (.obj users) => users.map (·.1)
    | _ => []
  | _ => []

/-- `user.partition(":")[2]` -/
def serverName (user : Str) : Str := (user.dropWhile (· ≠ chr ':')).drop 1

def keysOf (kvs : List (Str × Json)) (name : String) : List Str :=
  match dictGet? kvs (py name) with
  | some (.obj entries) => entries.map (·.1)
  | _ => []

/-- `KeysQueryResponse.from_dict` -/
def responseUsers (kvs : List (Str × Json)) (requested : List Str) : List Str :=
  (keysOf kvs "device_keys").filter fun user =>
    user ∈ requested ∧ serverName user ∉ keysOf kvs "failures"

/-- The class that an answer is read as: an `errcode` and a refusal by the schema are errors. -/
def decodeAnswer (request : CryptoRequest) (message : Option Nat) : Json → CryptoResponse
  | .obj kvs =>
    if (dictGet? kvs (py "errcode")).isSome then .error
    else match request.kind with
      | .toDevice => if (Schemas.empty (.obj kvs)).isSome then .toDevice message else .error
      | .upload => if (Schemas.keysUpload (.obj kvs)).isSome then .upload else .error
      | .query =>
        if (Schemas.keysQuery (.obj kvs)).isSome then
          .query (responseUsers kvs (queriedUsers request))
        else .error
      | .claim => if (Schemas.keysClaim (.obj kvs)).isSome then .claim else .error
  | _ => .error

/-! ## State -/

/-- What the process holds. A message is an object: its number is its identity. -/
structure LiveCrypto where
  usersForKeyQuery : List Str
  /-- The messages of this process -/
  objects : List QueuedMessage
  outgoingToDeviceMessages : List Nat
  /-- `_messages`: the ids that the objects are retained under -/
  messages : List (Str × Nat)

/-- What a run observes of requests and of the users to query, oldest first. -/
inductive CryptoEvent where
  /-- Users are marked dirty. -/
  | marked (users : List Str)
  | retained (request : CryptoRequest)
  /-- The request is sent. -/
  | attempted (request : CryptoRequest)
  /-- A success response is applied; its `device_keys` have the users. -/
  | applied (request : CryptoRequest) (users : List Str)
  deriving DecidableEq

/-- `uuid4()` and `==` of two messages, which compares their classes and fields -/
structure CryptoLibrary where
  uuid : Nat → Str
  equal : QueuedMessage → QueuedMessage → Bool

structure CryptoOwner where
  rows : CryptoRows
  live : LiveCrypto
  /-- How many ids `uuid4` has drawn -/
  drawn : Nat
  log : List CryptoEvent

/-- What the rest of the Olm machine does in a step: users it marks and messages it queues. -/
structure OlmEffect where
  marks : List Str
  queued : List QueuedMessage

/-- The checks of `encrypted_to_device` on the recipient -/
inductive EncryptedCheck where
  | refused
  | claim (users : List (Str × List Str))
  | message (message : QueuedMessage)

/-- What a call reads of the rest of the machine -/
structure OlmView where
  shouldUploadKeys : Bool
  /-- `share_keys()` -/
  shareKeys : List (Str × Json)
  /-- `get_users_for_key_claiming()`, empty if no device waits for a session -/
  claimTargets : List (Str × List Str)
  /-- `store.cursor` -/
  cursor : Option Str
  encrypted : EncryptedCheck
  /-- The next chunk of a group share that goes on -/
  chunk : Option (List (Str × Json))

namespace LiveCrypto

def fresh : LiveCrypto := ⟨[], [], [], []⟩

/-- The id that the object is retained under: `previous is message` -/
def idOf (l : LiveCrypto) (m : Nat) : Option Str :=
  (l.messages.find? (·.2 = m)).map (·.1)

/-- An object of this process -/
def object (l : LiveCrypto) (m : Nat) : Except PyError QueuedMessage :=
  match l.objects[m]? with
  | some message => .ok message
  | none => .error .attribute

/-- The queue with its ids, as it is stored -/
def snapshot (l : LiveCrypto) : List (Str × QueuedMessage) :=
  l.messages.filterMap fun m => l.objects[m.2]?.map (m.1, ·)

/-- New objects at the end of the queue -/
def queue (l : LiveCrypto) (ms : List QueuedMessage) : LiveCrypto :=
  { l with
    objects := l.objects ++ ms
    outgoingToDeviceMessages :=
      l.outgoingToDeviceMessages ++ List.range' l.objects.length ms.length }

end LiveCrypto

/-- A value for each `None or str(uuid4())` -/
def CryptoLibrary.idOr (lib : CryptoLibrary) (drawn : Nat) : Option Str → Str × Nat
  | some (c :: cs) => (c :: cs, drawn)
  | _ => (lib.uuid drawn, drawn + 1)

/-- Python's `sorted` of a set of strings -/
def sortedUsers (users : List Str) : List Str := users.dedup.insertionSort (· ≤ ·)

def isFingerprint (s : Str) : Bool :=
  s.length = 64 && s.all (· ∈ "0123456789abcdef".toList.map CodePoint.ofChar)

namespace CryptoOwner

variable (lib : CryptoLibrary)

def record (o : CryptoOwner) (e : CryptoEvent) : CryptoOwner := { o with log := o.log ++ [e] }

/-! ## `CryptoMaintenance` -/

def retainEach (l : LiveCrypto) : List Nat → Nat → List (Str × Nat) × Nat
  | [], drawn => ([], drawn)
  | m :: ms, drawn =>
    let (id, drawn) := lib.idOr drawn (l.idOf m)
    let (rest, drawn) := retainEach l ms drawn
    ((id, m) :: rest, drawn)

/-- `_retain_messages` -/
def retainMessages (o : CryptoOwner) : CryptoOwner :=
  let (messages, drawn) := retainEach lib o.live o.live.outgoingToDeviceMessages o.drawn
  { o with live := { o.live with messages }, drawn }

def capture (o : CryptoOwner) : CryptoOwner :=
  let o := o.retainMessages lib
  { o with rows.facts := some ⟨sortedUsers o.live.usersForKeyQuery, o.live.snapshot⟩ }

/-- `_pending`, which checks the row against the ids of the queue -/
def pendingOf (rows : CryptoRows) (ids : List Str) :
    Except PyError (Option (CryptoRequest × Option Str)) :=
  match rows.request with
  | none => .ok none
  | some data =>
    if data.encryptedFingerprint.any fun f => !isFingerprint f then .error .protocol
    else if ¬ isDict data.request.body then .error .protocol
    else if data.encryptedFingerprint.isSome ∧ data.request.kind ≠ .toDevice then .error .protocol
    else if data.messageId.any fun id => data.request.kind ≠ .toDevice || id ∉ ids then
      .error .protocol
    else .ok (some (data.request, data.messageId))

def pending (o : CryptoOwner) : Except PyError (Option (CryptoRequest × Option Str)) :=
  pendingOf o.rows (o.live.messages.map (·.1))

/-- What a new process makes of the stored facts -/
def restored (facts : Facts) : LiveCrypto where
  usersForKeyQuery := facts.usersForKeyQuery
  objects := facts.messages.map (·.2)
  outgoingToDeviceMessages := List.range facts.messages.length
  messages := (facts.messages.map (·.1)).zipIdx

def restore (rows : CryptoRows) : Except PyError LiveCrypto :=
  match rows.facts with
  | none => .ok .fresh
  | some facts =>
    if ∃ m ∈ facts.messages, m.1 = [] then .error .protocol
    else if ¬ (facts.messages.map (·.1)).Nodup then .error .protocol
    else (fun _ => restored facts) <$> pendingOf rows (facts.messages.map (·.1))

/-- `_retain_request` -/
def retainRequest (o : CryptoOwner) (kind : RequestKind) (result : String × List Str × Json)
    (requestId messageId fingerprint : Option Str) : CryptoOwner × CryptoRequest :=
  let (id, drawn) := lib.idOr o.drawn requestId
  let request : CryptoRequest := ⟨id, kind, result.1, result.2.1, result.2.2⟩
  let o := { o with drawn, rows.request := some ⟨request, messageId, fingerprint⟩ }
  ((o.capture lib).record (.retained request), request)

def enqueueUpload (view : OlmView) (o : CryptoOwner) : CryptoOwner × CryptoRequest :=
  o.retainRequest lib .upload (keysUpload view.shareKeys) none none none

/-- New invalidations are told from those that the query covers. -/
def enqueueQuery (view : OlmView) (users : Option (List Str)) (o : CryptoOwner) :
    CryptoOwner × CryptoRequest :=
  let users := sortedUsers (users.getD o.live.usersForKeyQuery)
  let o := { o with live.usersForKeyQuery := o.live.usersForKeyQuery.filter (· ∉ users) }
  o.retainRequest lib .query (keysQuery users view.cursor) none none none

def enqueueClaim (users : List (Str × List Str)) (o : CryptoOwner) : CryptoOwner × CryptoRequest :=
  o.retainRequest lib .claim (keysClaim users) none none none

/-- The object is in the queue under an id, or it is appended with one. -/
def appendMessage (message : Nat) (requestId : Option Str) (o : CryptoOwner) : Str × CryptoOwner :=
  match o.live.idOf message with
  | some id => (id, o)
  | none =>
    let (id, drawn) := lib.idOr o.drawn requestId
    let outgoing := o.live.outgoingToDeviceMessages
    (id, { o with
      drawn
      live.messages := o.live.messages ++ [(id, message)]
      live.outgoingToDeviceMessages :=
        if message ∈ outgoing then outgoing else outgoing ++ [message] })

def enqueueMessage (message : Nat) (requestId fingerprint : Option Str) (o : CryptoOwner) :
    Except PyError (CryptoOwner × CryptoRequest) := do
  match ← o.pending with
  | some (request, messageId) =>
    if messageId = o.live.idOf message ∧ messageId.isSome then .ok (o, request)
    else .error .protocol
  | none =>
    let value ← o.live.object message
    let (id, o) := o.appendMessage lib message requestId
    .ok (o.retainRequest lib .toDevice (toDevice value.message.type (asDict value.message) id)
      (some id) (some id) fingerprint)

def enqueueToDevice (type : Str) (content : List (Str × Json)) (o : CryptoOwner) :
    Except PyError (CryptoOwner × CryptoRequest) := do
  if (← o.pending).isSome then .error .protocol
  let id := lib.uuid o.drawn
  .ok ({ o with drawn := o.drawn + 1 }.retainRequest lib .toDevice (toDevice type content id)
    (some id) none none)

/-- `next_request`: the retained request, the first message of the queue, or what else is due -/
def nextRequest (view : OlmView) (completed : List RequestKind) (o : CryptoOwner) :
    Except PyError (CryptoOwner × Option CryptoRequest) := do
  match ← o.pending with
  | some (request, _) => .ok (o, some request)
  | none =>
    let o := o.retainMessages lib
    match o.live.messages with
    | (_, message) :: _ =>
      let (o, request) ← o.enqueueMessage lib message none none
      .ok (o, some request)
    | [] =>
      if .upload ∉ completed ∧ view.shouldUploadKeys then
        let (o, request) := o.enqueueUpload lib view
        .ok (o, some request)
      else if .query ∉ completed ∧ o.live.usersForKeyQuery ≠ [] then
        let (o, request) := o.enqueueQuery lib view none
        .ok (o, some request)
      else if .claim ∉ completed ∧ view.claimTargets ≠ [] then
        let (o, request) := o.enqueueClaim lib view.claimTargets
        .ok (o, some request)
      else .ok (o, none)

/-- What the rest of the machine does: users it marks, messages it queues. -/
def absorb (effect : OlmEffect) (o : CryptoOwner) : CryptoOwner :=
  { o with
    live := { o.live with usersForKeyQuery := o.live.usersForKeyQuery ++ effect.marks }.queue
      effect.queued
    log := o.log ++ [.marked effect.marks] }

/-- `outgoing_to_device_messages.remove(message)`: the first that is the message or equals it -/
def removeMessage (m : Nat) (o : CryptoOwner) : CryptoOwner :=
  { o with live.outgoingToDeviceMessages := o.live.outgoingToDeviceMessages.eraseP fun e =>
      e = m || match o.live.objects[e]?, o.live.objects[m]? with
        | some a, some b => lib.equal a b
        | _, _ => false }

/-- `_handle_olm_response` as far as it touches the queue -/
def handleResponse (response : CryptoResponse) (o : CryptoOwner) : CryptoOwner :=
  match response with
  | .toDevice (some m) => o.removeMessage lib m
  | _ => o

/-- A query keeps the users that were marked meanwhile, and marks those again that its answer
misses. -/
def markMissing (request : CryptoRequest) (response : CryptoResponse) (dirty : List Str)
    (o : CryptoOwner) : CryptoOwner :=
  match response with
  | .query users =>
    let missing := (queriedUsers request).filter (· ∉ users)
    { o with live.usersForKeyQuery := o.live.usersForKeyQuery ++ (dirty ++ missing) }
  | _ => o

/-- What a success response does; the request is retained no longer. -/
def settle (request : CryptoRequest) (response : CryptoResponse) (effect : OlmEffect)
    (o : CryptoOwner) : CryptoOwner :=
  let dirty := o.live.usersForKeyQuery
  let o := (o.handleResponse lib response).markMissing request response dirty
  let o := o.absorb effect
  ({ o with rows.request := none }.capture lib).record (.applied request response.users)

/-- The object that the pending request carries -/
def pendingMessage (messageId : Option Str) (o : CryptoOwner) : Option Nat :=
  messageId.bind fun id => (o.live.messages.find? (·.1 = id)).map (·.2)

/-- `apply`: the answer to the retained request -/
def apply (request : CryptoRequest) (body : Json) (effect : OlmEffect) (o : CryptoOwner) :
    Except PyError (CryptoOwner × CryptoResponse) := do
  match ← o.pending with
  | none => .error .protocol
  | some (pending, messageId) =>
    if pending ≠ request then .error .protocol
    else
      let message := o.pendingMessage messageId
      if request.kind = .toDevice ∧ messageId.isSome ∧ message.isNone then .error .protocol
      else match decodeAnswer request message body with
        | .error => .ok (o, .error)
        | response => .ok (o.settle lib request response effect, response)

/-- The transaction of `_send`: an error response makes it fail. -/
def send (request : CryptoRequest) (body : Json) (effect : OlmEffect) (o : CryptoOwner) :
    Except PyError CryptoOwner := do
  let (o, response) ← o.apply lib request body effect
  match response with
  | .error => .error .protocol
  | _ => .ok o

end CryptoOwner

/-! ## `OutboundCrypto` -/

/-- `EncryptedToDevice`: an operation keeps its fingerprint across retries. -/
structure EncryptedToDevice where
  recipient : Str
  fingerprint : Str
  valid : isFingerprint fingerprint = true

inductive OutboundCall where
  | maintain
  | toDevice (message : Nat) (txId : Option Str)
  | encryptedToDevice (operation : EncryptedToDevice) (txId : Option Str)
  | keysUpload
  | keysQuery (users : Option (List Str))
  | keysClaim (users : List (Str × List Str))
  | shareGroupSession

/-- What the holder of the lock goes on with when its request is answered -/
inductive OutboundTask where
  | done
  | maintain (completed : List RequestKind)
  | enqueueMessage (message : Nat) (txId : Option Str)
  | enqueueUpload
  | enqueueQuery (users : Option (List Str))
  | enqueueClaim (users : List (Str × List Str))
  | encryptedQuery (operation : EncryptedToDevice) (txId : Option Str)
  | encryptedResolve (operation : EncryptedToDevice) (txId : Option Str)
  | encryptedSend (operation : EncryptedToDevice) (txId : Option Str)
  | share

/-- The request to send next and how to go on, or nothing when the call is over -/
abbrev OutboundNext := Except PyError (CryptoOwner × Option (CryptoRequest × OutboundTask))

namespace OutboundTask

variable (lib : CryptoLibrary)

/-- A request and what follows it -/
def sending (next : OutboundTask) (r : CryptoOwner × CryptoRequest) :
    CryptoOwner × Option (CryptoRequest × OutboundTask) :=
  (r.1, some (r.2, next))

def encrypted (view : OlmView) (operation : EncryptedToDevice) (txId : Option Str)
    (o : CryptoOwner) : OutboundNext :=
  match view.encrypted with
  | .message value =>
    let message := o.live.objects.length
    (sending .done) <$> { o with live.objects := o.live.objects ++ [value] }.enqueueMessage lib
      message txId (some operation.fingerprint)
  | _ => .ok (o, none)

/-- To the next `await` of a request -/
def proceed (view : OlmView) (o : CryptoOwner) : OutboundTask → OutboundNext
  | .done => .ok (o, none)
  | .maintain completed => do
    let (o, request) ← o.nextRequest lib view completed
    .ok (o, request.map fun r => (r, .maintain (r.kind :: completed)))
  | .enqueueMessage message txId =>
    (sending .done) <$> o.enqueueMessage lib message txId none
  | .enqueueUpload =>
    if view.shouldUploadKeys then .ok (sending .done (o.enqueueUpload lib view))
    else .ok (o, none)
  | .enqueueQuery users =>
    if users.getD o.live.usersForKeyQuery ≠ [] then
      .ok (sending .done (o.enqueueQuery lib view users))
    else .ok (o, none)
  | .enqueueClaim users => .ok (sending .done (o.enqueueClaim lib users))
  | .encryptedQuery operation txId =>
    .ok (sending (.encryptedResolve operation txId)
      (o.enqueueQuery lib view (some [operation.recipient])))
  | .encryptedResolve operation txId =>
    match view.encrypted with
    | .claim users => .ok (sending (.encryptedSend operation txId) (o.enqueueClaim lib users))
    | _ => encrypted lib view operation txId o
  | .encryptedSend operation txId => encrypted lib view operation txId o
  | .share =>
    match view.chunk with
    | some content => (sending .share) <$> o.enqueueToDevice lib (py "m.room.encrypted") content
    | none => .ok (o, none)

/-- `_finish_pending`, and then the task -/
def finishPending (view : OlmView) (o : CryptoOwner) (next : OutboundTask) : OutboundNext :=
  match o.pending with
  | .error _ => .ok (o, none)
  | .ok (some (request, _)) => .ok (o, some (request, next))
  | .ok none => proceed lib view o next

end OutboundTask

open OutboundTask in
/-- A public call that has the lock, to its first request -/
def OutboundCall.start (lib : CryptoLibrary) (view : OlmView) (o : CryptoOwner) :
    OutboundCall → OutboundNext
  | .maintain => proceed lib view o (.maintain [])
  | .toDevice message txId =>
    -- the application has no other objects than those of this process
    if o.live.objects.length ≤ message then .ok (o, none) else
    match o.pending with
    | .ok (some (request, messageId)) =>
      if some request.requestId = txId ∨
          o.live.messages.any (fun m => some m.1 = messageId ∧ m.2 = message) then
        .ok (o, some (request, .done))
      else .ok (o, some (request, .enqueueMessage message txId))
    | .ok none => proceed lib view o (.enqueueMessage message txId)
    | .error _ => .ok (o, none)
  | .encryptedToDevice operation txId =>
    match o.pending with
    | .ok (some (request, _)) =>
      let fingerprint := o.rows.request.bind (·.encryptedFingerprint)
      if some request.requestId = txId ∧ fingerprint ≠ some operation.fingerprint then .ok (o, none)
      else if some request.requestId = txId ∨
          (txId = none ∧ fingerprint = some operation.fingerprint) then
        .ok (o, some (request, .done))
      else .ok (o, some (request, .encryptedQuery operation txId))
    | .ok none => proceed lib view o (.encryptedQuery operation txId)
    | .error _ => .ok (o, none)
  | .keysUpload =>
    match o.pending with
    | .ok (some (request, _)) =>
      .ok (o, some (request, if request.kind = .upload then .done else .enqueueUpload))
    | .ok none => proceed lib view o .enqueueUpload
    | .error _ => .ok (o, none)
  | .keysQuery users =>
    match o.pending with
    | .ok (some (request, _)) =>
      .ok (o, some (request,
        if users.isNone ∧ request.kind = .query then .done else .enqueueQuery users))
    | .ok none => proceed lib view o (.enqueueQuery users)
    | .error _ => .ok (o, none)
  | .keysClaim users => finishPending lib view o (.enqueueClaim users)
  | .shareGroupSession => finishPending lib view o .share

/-- The session with the call that holds the lock. After a transaction that failed the client is
disposed of, until the session is opened again. -/
structure OutboundCrypto where
  owner : CryptoOwner
  alive : Bool
  /-- The request that is being sent, and how its call goes on -/
  flight : Option (CryptoRequest × OutboundTask)

inductive OutboundAction where
  /-- The application makes a message of its own. -/
  | construct (message : QueuedMessage)
  /-- A call takes the lock. -/
  | call (call : OutboundCall) (view : OlmView)
  /-- The attempt raises or is cancelled. -/
  | fail
  | answer (body : Json) (effect : OlmEffect) (view : OlmView)
  /-- A transaction of the sync engine, a changed key share or a trust change -/
  | sync (effect : OlmEffect)
  /-- `decrypt_event`, which the application calls outside of transactions -/
  | decryptEvent (effect : OlmEffect)
  /-- The answer to a lookup of members, which marks the untracked ones -/
  | joinedMembers (untracked : List Str)
  /-- A transaction fails, or the process ends. -/
  | crash
  /-- The session is opened again. -/
  | restart

namespace OutboundCrypto

variable (lib : CryptoLibrary)

def fresh : OutboundCrypto := ⟨⟨⟨none, none⟩, .fresh, 0, []⟩, true, none⟩

/-- The call goes on to its next request, is over, or fails in a transaction. -/
def launch (w : OutboundCrypto) : OutboundNext → OutboundCrypto
  | .error _ => { w with alive := false, flight := none }
  | .ok (o, none) => { w with owner := o, flight := none }
  | .ok (o, some (request, next)) =>
    { w with owner := o.record (.attempted request), flight := some (request, next) }

def answer (w : OutboundCrypto) (body : Json) (effect : OlmEffect) (view : OlmView) :
    OutboundCrypto :=
  match w.flight with
  | none => w
  | some (request, next) =>
    match w.owner.send lib request body effect with
    | .error _ => { w with alive := false, flight := none }
    | .ok o => launch { w with owner := o } (next.proceed lib view o)

def restart (w : OutboundCrypto) : OutboundCrypto :=
  match CryptoOwner.restore w.owner.rows with
  | .ok live => { w with owner := { w.owner with live }, alive := true, flight := none }
  | .error _ => { w with alive := false, flight := none }

def step (w : OutboundCrypto) : OutboundAction → OutboundCrypto
  | .restart => w.restart
  | .crash => { w with alive := false, flight := none }
  | .fail => { w with flight := none }
  | .construct message =>
    if w.alive then { w with owner.live.objects := w.owner.live.objects ++ [message] } else w
  | .call call view =>
    if w.alive ∧ w.flight.isNone then w.launch (call.start lib view w.owner) else w
  | .answer body effect view => if w.alive then w.answer lib body effect view else w
  | .sync effect =>
    if w.alive then { w with owner := (w.owner.absorb effect).capture lib } else w
  | .decryptEvent effect => if w.alive then { w with owner := w.owner.absorb effect } else w
  | .joinedMembers untracked =>
    if w.alive ∧ w.flight.isNone then
      { w with owner := (w.owner.absorb ⟨untracked, []⟩).capture lib }
    else w

/-- Ids that differ in their lengths -/
def countingLibrary : CryptoLibrary :=
  ⟨fun n => List.replicate (n + 1) (chr '#'), fun a b => a = b⟩

def run (actions : List OutboundAction) : OutboundCrypto := Lib.run (step lib) fresh actions

end OutboundCrypto

end Nio.Durable
