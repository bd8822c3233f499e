import Nio.Crypto.Decryption
import Nio.Crypto.KeyQueryHistory
import Nio.Crypto.KeyRequests
import Nio.Durable.CryptoMaintenance
import Nio.Lib.Keyed

/-!
# Answers to key queries and key claims

The schemas look at a part of an answer only, so its devices, their payloads and their one-time keys
can be any JSON. `Olm.handle_response` goes through all of it.

* `verifyJsonObject` — `Olm.verify_json` of any value
* `KeyMachine.handleKeyQuery`, `KeyMachine.handleKeyClaiming` — the loops, with what they raise
-/

namespace Nio.Crypto

open Nio.Py
open Nio.Lib
open Nio.Events (PyError getItem getDefault getItems)
open Nio.Durable (serverName keysOf CryptoOwner CryptoRequest CryptoLibrary CryptoResponse OlmEffect
  decodeAnswer queriedUsers)

variable {S : Type}

/-- `value[key]` of a key that is computed -/
def subscript (v : Json) (key : Str) : Except PyError Json :=
  match v with
  | .obj kvs =>
    match dictGet? kvs key with
    | some w => .ok w
    | none => .error .key
  | _ => .error .type

/-! ## Signatures -/

mutual

/-- An object is written with its keys in order. -/
def sortKeys : Json → Json
  | .arr vs => .arr (sortItems vs)
  | .obj kvs => .obj ((sortPairs kvs).insertionSort fun p q => p.1 ≤ q.1)
  | v => v

def sortItems : List Json → List Json
  | [] => []
  | v :: vs => sortKeys v :: sortItems vs

def sortPairs : List (Str × Json) → List (Str × Json)
  | [] => []
  | (k, v) :: kvs => (k, sortKeys v) :: sortPairs kvs

end

/-- `Api.to_canonical_json` -/
def toCanonicalJson (v : Json) : Except ValueError Str := dumps ⟨false, true, true⟩ (sortKeys v)

/-- `to_canonical_json(json).encode()` -/
def canonicalBytes (v : Json) : Except PyError (List Nat) :=
  match do (← toCanonicalJson v).encode with
  | .ok bytes => .ok bytes
  | .error _ => .error .value

/-- What the library answers about keys and signatures -/
structure SignatureLibrary where
  /-- `Ed25519PublicKey.from_base64` -/
  publicKey : Str → Except LibraryException Unit
  /-- `Ed25519Signature.from_base64` -/
  signature : Str → Except LibraryException Unit
  /-- `verify_signature` -/
  verify : Str → List Nat → Str → Except LibraryException Unit
  /-- `Curve25519PublicKey.from_base64` -/
  curveKey : Str → Except LibraryException Unit

/-- An argument of the library that has to be text -/
def textArgument : Json → Except PyError Str
  | .str s => if s.Encodable then .ok s else .error .value
  | _ => .error .type

/-- `verify_json` catches the exceptions of signatures and of keys. -/
def attempt : Except LibraryException Unit → Except PyError Bool
  | .ok () => .ok true
  | .error .signature | .error .key => .ok false
  | .error _ => .error .library

/-- An exception of the library that nobody catches -/
def uncaught {α : Type} : Except LibraryException α → Except PyError α
  | .ok a => .ok a
  | .error _ => .error .library

def checkSignature (lib : SignatureLibrary) (userKey signed signature : Json) :
    Except PyError Bool := do
  let userKey ← textArgument userKey
  if !(← attempt (lib.publicKey userKey)) then return false
  else
    let signature ← textArgument signature
    if !(← attempt (lib.signature signature)) then return false
    else attempt (lib.verify userKey (← canonicalBytes signed) signature)

/-- What is signed of an object -/
def signedPart (kvs : List (Str × Json)) : Json :=
  .obj (dictErase (dictErase kvs (py "signatures")) (py "unsigned"))

/-- `signatures[user_id][key_id]` -/
def lookUpSignature (userId deviceId : Str) (signatures : Json) : Except PyError Json := do
  subscript (← subscript signatures userId) (py "ed25519:" ++ deviceId)

/-- `Olm.verify_json`; what it takes out of the object it puts back. -/
def verifyJsonObject (lib : SignatureLibrary) (json userKey : Json) (userId deviceId : Str) :
    Except PyError Bool :=
  match json with
  | .obj kvs =>
    match dictGet? kvs (py "signatures") with
    | none => .ok false
    | some signatures =>
      match lookUpSignature userId deviceId signatures with
      | .error .key => .ok false
      | .error e => .error e
      | .ok signature => checkSignature lib userKey (signedPart kvs) signature
  -- `pop` of a list takes a position
  | .arr _ => .error .type
  | _ => .error .attribute

/-! ## Responses -/

/-- The schema lets a device be anything under an id that its patterns do not find. -/
structure KeysQueryAnswer where
  deviceKeys : List (Str × Json)
  queriedUsers : Option (List Str)

structure KeysClaimAnswer where
  oneTimeKeys : List (Str × Json)

/-- `parsed_dict.get(name, {})` where the schema leaves nothing but an object -/
def objectAt (kvs : List (Str × Json)) (name : String) : List (Str × Json) :=
  match dictGet? kvs (py name) with
  | some (.obj entries) => entries
  | _ => []

/-- `KeysQueryResponse.from_dict`; the schema has no default that it fills in. -/
def KeysQueryAnswer.fromDict (userSet : Option (List Str)) (body : Json) : Option KeysQueryAnswer :=
  match body with
  | .obj kvs =>
    if (Schemas.keysQuery body).isSome then
      let deviceKeys := objectAt kvs "device_keys"
      match userSet with
      | none => some ⟨deviceKeys, none⟩
      | some users =>
        some ⟨deviceKeys.filter fun p => p.1 ∈ users ∧ serverName p.1 ∉ keysOf kvs "failures",
          some users⟩
    else none
  | _ => none

/-- `KeysClaimResponse.from_dict` -/
def KeysClaimAnswer.fromDict (body : Json) : Option KeysClaimAnswer :=
  match body with
  | .obj kvs =>
    if (Schemas.keysClaim body).isSome then some ⟨objectAt kvs "one_time_keys"⟩ else none
  | _ => none

/-! ## Key queries -/

/-- A curve key that is no string, under ids that the schema does not find, is kept as its text. -/
def keyText (env : KeyQueryEnv) : Json → Str
  | .str s => s
  | v => env.text v

/-- The keys and the name in a payload: what the `try` block reads -/
def readKeys (payload : Json) (deviceId : Str) : Except PyError (Json × Json × Json) := do
  let keys ← getItem payload "keys"
  let signingKey ← subscript keys (py "ed25519:" ++ deviceId)
  let curveKey ← subscript keys (py "curve25519:" ++ deviceId)
  match payload.get? (py "unsigned") with
  | none => return (signingKey, curveKey, .str [])
  | some unsigned =>
    return (signingKey, curveKey, ← getDefault unsigned "device_display_name" (.str []))

/-- The keys and the name of a payload that is not skipped; the warning about a mismatch reads both
ids. -/
def acceptJson (env : KeyQueryEnv) (lib : SignatureLibrary) (userId deviceId : Str)
    (payload : Json) : Except PyError (Option (Keys × Json)) := do
  let payloadUser ← getItem payload "user_id"
  let payloadDevice ← getItem payload "device_id"
  if payloadUser ≠ .str userId ∨ payloadDevice ≠ .str deviceId then return none
  else
    match readKeys payload deviceId with
    | .error .key => return none
    | .error e => .error e
    | .ok (signingKey, curveKey, name) =>
      if ← verifyJsonObject lib payload signingKey userId deviceId then
        return some (⟨keyText env signingKey, keyText env curveKey⟩, name)
      else return none

/-- A device of an answer -/
def answerDevice (env : KeyQueryEnv) (lib : SignatureLibrary) (userId : Str) (w : KeyQueryWork)
    (p : Str × Json) : Except PyError KeyQueryWork :=
  let (deviceId, payload) := p
  if userId = env.userId ∧ deviceId = env.deviceId then .ok w
  else do
    match ← acceptJson env lib userId deviceId payload with
    | none => return w
    | some (keys, name) =>
      match lookup OlmDevice.key (userId, deviceId) w.1.deviceStore with
      | none =>
        return putDevice w w.1.deviceKeys ⟨userId, deviceId, keys, name, false, .unset⟩ false
      | some d =>
        match ← refreshDevice env w.1.deviceKeys d keys name with
        | none => return w
        | some (rows, d') => return putDevice w rows d' (d'.displayName ≠ d.displayName)

/-- The devices of a user in an answer -/
def answerUser (env : KeyQueryEnv) (lib : SignatureLibrary) (queriedUsers : Option (List Str))
    (w : KeyQueryWork) (p : Str × Json) : Except PyError KeyQueryWork := do
  let (userId, devices) := p
  let keeper := w.1
  let keeper := { keeper with
    usersForKeyQuery :=
      if queriedUsers.isNone then keeper.usersForKeyQuery.filter (· ≠ userId)
      else keeper.usersForKeyQuery
    trackedUsers := userId :: keeper.trackedUsers }
  let entries ← getItems devices
  let w ← entries.foldlM (answerDevice env lib userId) (keeper, w.2)
  return dropDevices userId (entries.map (·.1)) w

/-- `_handle_key_query` of any answer -/
def handleKeyQueryAnswer (env : KeyQueryEnv) (lib : SignatureLibrary) (keeper : DeviceKeeper)
    (answer : KeysQueryAnswer) : Except PyError (DeviceKeeper × List (Str × Str)) := do
  let w ← answer.deviceKeys.foldlM (answerUser env lib answer.queriedUsers) (keeper, [])
  let rows ← saveDeviceKeys env w.1.deviceKeys (changedDevices w)
  return ({ w.1 with deviceKeys := rows }, w.2)

/-! ## Key claims -/

/-- Sessions are made and used by the library, for each device of an answer as it will. -/
structure ClaimLibrary (S : Type) extends SignatureLibrary where
  /-- `Account.create_outbound_session` -/
  outbound : Str × Str → Str → Str → Except LibraryException S
  /-- `_olm_encrypt` of a dummy message: the session goes on, the content goes out. -/
  encrypt : Str × Str → S → Except LibraryException (S × Json)

/-- What answers to key queries and key claims change -/
structure KeyMachine (S : Type) where
  keeper : DeviceKeeper
  /-- `session_store` and the rows of it, the newest session of a key first -/
  sessions : List (Str × S)
  requests : KeyRequests
  wedgedDevices : List (Str × Str)
  outgoingToDeviceMessages : List ToDeviceMessage

/-- `next(iter(value.values()))` -/
def firstValue (v : Json) : Except PyError Json := do
  match ← getItems v with
  | [] => .error .stopIteration
  | p :: _ => .ok p.2

/-- `create_session` -/
def createSession (lib : ClaimLibrary S) (k : Str × Str) (oneTimeKey : Json) (curveKey : Str) :
    Except PyError S := do
  let identityKey ← textArgument (.str curveKey)
  uncaught (lib.curveKey identityKey)
  let oneTimeKey ← textArgument oneTimeKey
  uncaught (lib.curveKey oneTimeKey)
  uncaught (lib.outbound k identityKey oneTimeKey)

/-- `_queue_dummy_message`, for a device that waits to be unwedged -/
def unwedge (lib : ClaimLibrary S) (m : KeyMachine S) (d : OlmDevice) (session : S) :
    Except PyError (KeyMachine S) := do
  if d.key ∉ m.wedgedDevices then return { m with sessions := (d.keys.curve25519, session) :: m.sessions }
  else
    let (session, content) ← uncaught (lib.encrypt d.key session)
    return { m with
      sessions := (d.keys.curve25519, session) :: m.sessions
      wedgedDevices := m.wedgedDevices.erase d.key
      outgoingToDeviceMessages := m.outgoingToDeviceMessages ++
        [⟨py "m.room.encrypted", d.userId, d.deviceId, content⟩] }

/-- A one-time key of an answer -/
def claimKey (lib : ClaimLibrary S) (userId : Str) (m : KeyMachine S) (p : Str × Json) :
    Except PyError (KeyMachine S) :=
  let (deviceId, oneTimeKey) := p
  match lookup OlmDevice.key (userId, deviceId) m.keeper.deviceStore with
  | none => .ok m
  | some d => do
    let keyObject ← firstValue oneTimeKey
    if ← verifyJsonObject lib.toSignatureLibrary keyObject (.str d.keys.ed25519) userId deviceId then
      let session ← createSession lib d.key (← getItem keyObject "key") d.keys.curve25519
      let m ← unwedge lib m d session
      return { m with requests := m.requests.claimDevice d.key }
    else return m

def claimUser (lib : ClaimLibrary S) (m : KeyMachine S) (p : Str × Json) :
    Except PyError (KeyMachine S) := do
  (← getItems p.2).foldlM (claimKey lib p.1) m

/-- `_handle_key_claiming` -/
def handleKeyClaiming (lib : ClaimLibrary S) (m : KeyMachine S) (answer : KeysClaimAnswer) :
    Except PyError (KeyMachine S) :=
  answer.oneTimeKeys.foldlM (claimUser lib) m

/-! ## The machine -/

inductive KeysAnswer where
  | query (answer : KeysQueryAnswer)
  | claim (answer : KeysClaimAnswer)

namespace KeyMachine

/-- `Olm.handle_response` -/
def handleResponse (env : KeyQueryEnv) (lib : ClaimLibrary S) (m : KeyMachine S) :
    KeysAnswer → Except PyError (KeyMachine S)
  | .query answer => do
    let (keeper, _) ← handleKeyQueryAnswer env lib.toSignatureLibrary m.keeper answer
    return { m with keeper }
  | .claim answer => handleKeyClaiming lib m answer

/-- The answer that `apply` makes of the body of a response -/
def answerOf (request : CryptoRequest) (body : Json) : Option KeysAnswer :=
  match request.kind with
  | .query => (KeysQueryAnswer.fromDict (some (queriedUsers request)) body).map .query
  | .claim => (KeysClaimAnswer.fromDict body).map .claim
  | _ => none

/-- `CryptoMaintenance.apply` with the machine; nothing of it is kept when it raises. -/
def apply (env : KeyQueryEnv) (lib : ClaimLibrary S) (ids : CryptoLibrary) (request : CryptoRequest)
    (body : Json) (effect : OlmEffect) (s : CryptoOwner × KeyMachine S) :
    Except PyError ((CryptoOwner × KeyMachine S) × CryptoResponse) := do
  let (owner, response) ← s.1.apply ids request body effect
  match response, answerOf request body with
  | .query _, some answer | .claim, some answer =>
    return ((owner, ← s.2.handleResponse env lib answer), response)
  | _, _ => return ((owner, s.2), response)

end KeyMachine

end Nio.Crypto
