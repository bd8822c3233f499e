import Nio.Py.Json
import Nio.Store.FileTrustdb

/-!
# Key verification by short authentication string

`Sas` holds one verification with one device of another user. Its methods change the object in
place; here they return the changed object, and an exception leaves it as it was, because every
`raise` and every `assert` comes before the first assignment.

The primitives of the cryptographic library are the fields of `SasLibrary`. Of the strings that the
users compare, this module has the text `Sas.extraInfo` that they are derived from.

* `Sas.extraInfo` — what the short authentication string covers
* `Sas.receiveMacEvent` — the check of the keys that the other device authenticates
* `OlmMachine.handleKeyVerification`, `OlmMachine.confirmKeyVerification` — where a device is marked
-/

namespace Nio.Crypto

open Nio.Py
open Nio.Store (OlmDevice)

/-- What the verification uses of `vodozemac` and `hashlib`. -/
structure SasLibrary where
  Established : Type
  /-- `EstablishedSas.calculate_mac` -/
  calculateMac : Established → Str → Str → Str
  /-- The digest of a public key and the canonical JSON of a content; encoding may fail. -/
  commitment : Str → Json → Except ValueError Str

inductive SasState where
  | created
  | started
  | accepted
  | keyReceived
  | macReceived
  | canceled
  deriving DecidableEq, Repr

inductive SasError where
  | localProtocol (message : String)
  | assertion
  | value (e : ValueError)
  /-- An exception of the cryptographic library. -/
  | library
  /-- `ValueError` for a key agreement protocol that is not known -/
  | keyAgreement (protocol : Option Str)
  /-- A dictionary was asked for a value that cannot be hashed. -/
  | unhashable
  /-- `LocalProtocolError` for a transaction id that no session has. -/
  | noVerification (transactionId : Str)
  /-- The trust store refuses to mark a device. -/
  | trust
  deriving DecidableEq, Repr

/-- A cancel code and its reason. -/
abbrev CancelError := String × String

structure ToDeviceMessage where
  type : Str
  recipient : Str
  recipientDevice : Str
  content : Json
  deriving DecidableEq

structure Sas (L : SasLibrary) where
  ownUser : Str
  ownDevice : Str
  ownFpKey : Str
  otherOlmDevice : OlmDevice
  transactionId : Str
  pubkey : Str
  shortAuthString : List Str
  chosenMacMethod : Str
  keyAgreementProtocols : List Str
  chosenKeyAgreement : Option Str
  state : SasState
  weStartedIt : Bool
  sasAccepted : Bool
  commitment : Option Str
  cancelReason : Str
  cancelCode : Str
  establishedSas : Option L.Established
  /-- Set together with `establishedSas`, and not read before. -/
  theirSasKey : Str
  verifiedDevices : List Str
  creationTime : Int

/-! ## Events -/

structure KeyVerificationStart where
  sender : Str
  transactionId : Str
  content : Json
  fromDevice : Str
  method : Str
  keyAgreementProtocols : List Str
  hashes : List Str
  messageAuthenticationCodes : List Str
  shortAuthenticationString : List Str

structure KeyVerificationAccept where
  sender : Str
  transactionId : Str
  commitment : Str
  keyAgreementProtocol : Str
  hash : Str
  messageAuthenticationCode : Str
  shortAuthenticationString : List Str

structure KeyVerificationKey where
  sender : Str
  transactionId : Str
  key : Str

/-- The schema of this event does not check the transaction id, nor the values under keys that hold
nothing but line breaks. -/
structure KeyVerificationMac where
  sender : Str
  transactionId : Json
  mac : List (Str × Json)
  keys : Str

structure KeyVerificationCancel where
  sender : Str
  transactionId : Str

namespace Sas

variable {L : SasLibrary}

/-! ## Constants -/

def sasMethodV1 : Str := py "m.sas.v1"
def keyAgreementV1 : Str := py "curve25519"
def keyAgreementV2 : Str := py "curve25519-hkdf-sha256"
def keyAgreementProtocolsAll : List Str := [keyAgreementV1, keyAgreementV2]
def hashV1 : Str := py "sha256"
def macNormal : Str := py "hkdf-hmac-sha256"
def macV1 : List Str := [macNormal]
def stringsV1 : List Str := [py "emoji", py "decimal"]

def userCancelError : CancelError := ("m.user", "Canceled by user")
def timeoutError : CancelError := ("m.timeout", "Timed out")
def txidError : CancelError := ("m.unknown_transaction", "Unknown transaction")
def unknownMethodError : CancelError := ("m.unknown_method", "Unknown method")
def unexpectedMessageError : CancelError := ("m.unexpected_message", "Unexpected message")
def keyMismatchError : CancelError := ("m.key_mismatch", "Key mismatch")
def userMismatchError : CancelError := ("m.user_error", "User mismatch")
def invalidMessageError : CancelError := ("m.invalid_message", "Invalid message")
def commitmentMismatchError : CancelError := ("m.mismatched_commitment", "Mismatched commitment")
def sasMismatchError : CancelError :=
  ("m.mismatched_sas", "Mismatched short authentication string")

/-- In microseconds. -/
def maxAge : Int := 5 * 60 * 1000000
def maxEventTimeout : Int := 60 * 1000000

/-! ## Creation -/

/-- `Sas.__init__`; the public key comes from the library. -/
def init (ownUser ownDevice ownFpKey : Str) (otherOlmDevice : OlmDevice) (transactionId pubkey : Str)
    (shortAuthString : List Str) (now : Int) : Sas L where
  ownUser := ownUser
  ownDevice := ownDevice
  ownFpKey := ownFpKey
  otherOlmDevice := otherOlmDevice
  transactionId := transactionId
  pubkey := pubkey
  shortAuthString := if shortAuthString = [] then stringsV1 else shortAuthString
  chosenMacMethod := []
  keyAgreementProtocols := keyAgreementProtocolsAll
  chosenKeyAgreement := none
  state := .created
  weStartedIt := true
  sasAccepted := false
  commitment := none
  cancelReason := []
  cancelCode := []
  establishedSas := none
  theirSasKey := []
  verifiedDevices := []
  creationTime := now

def cancelWith (s : Sas L) (error : CancelError) : Sas L :=
  { s with state := .canceled, cancelCode := py error.1, cancelReason := py error.2 }

/-- `from_key_verification_start`; `uuid` stands in for an empty transaction id. -/
def fromKeyVerificationStart (ownUser ownDevice ownFpKey : Str) (otherOlmDevice : OlmDevice)
    (event : KeyVerificationStart) (pubkey uuid : Str) (now : Int) : Except SasError (Sas L) :=
  let obj : Sas L := init ownUser ownDevice ownFpKey otherOlmDevice
    (if event.transactionId = [] then uuid else event.transactionId) pubkey
    event.shortAuthenticationString now
  match L.commitment pubkey event.content with
  | .error e => .error (.value e)
  | .ok commitment =>
    let obj := { obj with
      weStartedIt := false
      state := .started
      commitment := some commitment
      keyAgreementProtocols := event.keyAgreementProtocols }
    if sasMethodV1 ≠ event.method ∨
        (keyAgreementV1 ∉ event.keyAgreementProtocols ∧
          keyAgreementV2 ∉ event.keyAgreementProtocols) ∨
        hashV1 ∉ event.hashes ∨ macNormal ∉ event.messageAuthenticationCodes ∨
        (py "emoji" ∉ event.shortAuthenticationString ∧
          py "decimal" ∉ event.shortAuthenticationString) then
      .ok (obj.cancelWith unknownMethodError)
    else .ok obj

/-! ## The user's side -/

/-- The property `canceled`. -/
def isCanceled (s : Sas L) : Bool := s.state = .canceled

def verified (s : Sas L) : Bool := s.state = .macReceived && s.sasAccepted

/-- The property `timed_out`, which cancels. -/
def timedOut (s : Sas L) (now : Int) : Bool × Sas L :=
  if s.verified || s.isCanceled then (false, s)
  else if now - s.creationTime ≥ maxAge ∨ now - s.creationTime ≥ maxEventTimeout then
    (true, s.cancelWith timeoutError)
  else (false, s)

def acceptSas (s : Sas L) : Except SasError (Sas L) :=
  if s.state = .canceled then
    .error (.localProtocol
      "Key verification process was canceled can't accept short authentication string")
  else if s.establishedSas.isNone then
    .error (.localProtocol
      "Other public key isn't set yet, can't generate nor accept a short authentication string.")
  else .ok { s with sasAccepted := true }

def rejectSas (s : Sas L) : Except SasError (Sas L) :=
  if s.establishedSas.isNone then
    .error (.localProtocol
      "Other public key isn't set yet, can't generate nor reject a short authentication string.")
  else .ok (s.cancelWith sasMismatchError)

def cancel (s : Sas L) : Sas L := s.cancelWith userCancelError

/-! ## The short authentication string -/

/-- `_extra_info_v1` -/
def extraInfoV1 (s : Sas L) : Str :=
  let ourInfo := s.ownUser ++ s.ownDevice
  let theirInfo := s.otherOlmDevice.userId ++ s.otherOlmDevice.deviceId
  if s.weStartedIt then
    py "MATRIX_KEY_VERIFICATION_SAS" ++ ourInfo ++ theirInfo ++ s.transactionId
  else py "MATRIX_KEY_VERIFICATION_SAS" ++ theirInfo ++ ourInfo ++ s.transactionId

/-- `_extra_info_v2` -/
def extraInfoV2 (s : Sas L) : Except SasError Str :=
  if s.establishedSas.isNone then .error .assertion
  else
    let ourInfo := s.ownUser ++ py "|" ++ s.ownDevice ++ py "|" ++ s.pubkey
    let theirInfo :=
      s.otherOlmDevice.userId ++ py "|" ++ s.otherOlmDevice.deviceId ++ py "|" ++ s.theirSasKey
    .ok (if s.weStartedIt then
      py "MATRIX_KEY_VERIFICATION_SAS|" ++ ourInfo ++ py "|" ++ theirInfo ++ py "|" ++
        s.transactionId
    else
      py "MATRIX_KEY_VERIFICATION_SAS|" ++ theirInfo ++ py "|" ++ ourInfo ++ py "|" ++
        s.transactionId)

/-- `_extra_info`, which the emoji and the decimals are derived from -/
def extraInfo (s : Sas L) : Except SasError Str :=
  if s.chosenKeyAgreement = some keyAgreementV1 then .ok s.extraInfoV1
  else if s.chosenKeyAgreement = some keyAgreementV2 then s.extraInfoV2
  else .error (.keyAgreement s.chosenKeyAgreement)

/-! ## Messages -/

def message (s : Sas L) (type : String) (content : Json) : ToDeviceMessage :=
  ⟨py type, s.otherOlmDevice.userId, s.otherOlmDevice.deviceId, content⟩

def strs (l : List Str) : Json := .arr (l.map .str)

def startVerification (s : Sas L) : Except SasError ToDeviceMessage :=
  if ¬ s.weStartedIt then
    .error (.localProtocol
      "Verification was not started by us, can't send start verification message.")
  else if s.state = .canceled then
    .error (.localProtocol "SAS verification was canceled, can't send start verification message.")
  else
    .ok (s.message "m.key.verification.start" (.obj [
      (py "from_device", .str s.ownDevice), (py "method", .str sasMethodV1),
      (py "transaction_id", .str s.transactionId),
      (py "key_agreement_protocols", strs keyAgreementProtocolsAll),
      (py "hashes", strs [hashV1]), (py "message_authentication_codes", strs macV1),
      (py "short_authentication_string", strs stringsV1)]))

def acceptVerification (s : Sas L) : Except SasError (ToDeviceMessage × Sas L) :=
  if s.weStartedIt then
    .error (.localProtocol "Verification was started by us, can't accept offer.")
  else if s.state = .canceled then
    .error (.localProtocol "SAS verification was canceled, can't accept offer.")
  else
    let sasMethods := stringsV1.filter (· ∈ s.shortAuthString)
    let agreement :=
      if keyAgreementV2 ∈ s.keyAgreementProtocols then keyAgreementV2 else keyAgreementV1
    .ok (s.message "m.key.verification.accept" (.obj [
        (py "transaction_id", .str s.transactionId), (py "key_agreement_protocol", .str agreement),
        (py "hash", .str hashV1), (py "message_authentication_code", .str macNormal),
        (py "short_authentication_string", strs sasMethods),
        (py "commitment", (s.commitment.map Json.str).getD .null)]),
      { s with chosenMacMethod := macNormal, chosenKeyAgreement := some agreement })

def shareKey (s : Sas L) : Except SasError ToDeviceMessage :=
  if s.state = .canceled then
    .error (.localProtocol "SAS verification was canceled, can't share our public key.")
  else
    .ok (s.message "m.key.verification.key" (.obj [
      (py "transaction_id", .str s.transactionId), (py "key", .str s.pubkey)]))

/-- What each MAC that this device sends covers beside the key. -/
def ownMacInfo (s : Sas L) : Str :=
  py "MATRIX_KEY_VERIFICATION_MAC" ++ s.ownUser ++ s.ownDevice ++ s.otherOlmDevice.userId ++
    s.otherOlmDevice.deviceId ++ s.transactionId

/-- `calculate_mac`, which takes strings that UTF-8 can hold -/
def calculateMac (established : L.Established) (input info : Str) : Except SasError Str :=
  if input.Encodable ∧ info.Encodable then .ok (L.calculateMac established input info)
  else .error (.value .unicodeEncode)

def getMac (s : Sas L) : Except SasError ToDeviceMessage :=
  if ¬ s.sasAccepted then .error (.localProtocol "SAS string wasn't yet accepted")
  else if s.state = .canceled then
    .error (.localProtocol "SAS verification was canceled, can't generate MAC.")
  else
    let keyId := py "ed25519:" ++ s.ownDevice
    match s.establishedSas with
    | none => .error .assertion
    | some established =>
      if s.chosenMacMethod = [] then .error .assertion
      else do
        let info := s.ownMacInfo
        let mac ← calculateMac established s.ownFpKey (info ++ keyId)
        let keys ← calculateMac established keyId (info ++ py "KEY_IDS")
        .ok (s.message "m.key.verification.mac" (.obj [
          (py "mac", .obj [(keyId, .str mac)]), (py "keys", .str keys),
          (py "transaction_id", .str s.transactionId)]))

def getCancellation (s : Sas L) : Except SasError ToDeviceMessage :=
  if s.state ≠ .canceled then .error (.localProtocol "Sas process isn't canceled.")
  else if s.cancelCode = [] ∨ s.cancelReason = [] then .error .assertion
  else
    .ok (s.message "m.key.verification.cancel" (.obj [
      (py "code", .str s.cancelCode), (py "reason", .str s.cancelReason),
      (py "transaction_id", .str s.transactionId)]))

/-! ## The other device's side -/

/-- `_event_ok` -/
def eventOk (s : Sas L) (sender : Str) (transactionId : Json) : Bool × Sas L :=
  if s.state = .canceled then (false, s)
  else if transactionId ≠ .str s.transactionId then (false, s.cancelWith txidError)
  else if s.otherOlmDevice.userId ≠ sender then (false, s.cancelWith userMismatchError)
  else (true, s)

def receiveAcceptEvent (s : Sas L) (event : KeyVerificationAccept) : Sas L :=
  match s.eventOk event.sender (.str event.transactionId) with
  | (false, s) => s
  | (true, s) =>
    if s.state ≠ .created then s.cancelWith unexpectedMessageError
    else if event.keyAgreementProtocol ∉ keyAgreementProtocolsAll ∨ event.hash ≠ hashV1 ∨
        event.messageAuthenticationCode ∉ macV1 ∨
        (py "emoji" ∉ event.shortAuthenticationString ∧
          py "decimal" ∉ event.shortAuthenticationString) then
      s.cancelWith unknownMethodError
    else
      { s with
        commitment := some event.commitment
        chosenMacMethod := event.messageAuthenticationCode
        chosenKeyAgreement := some event.keyAgreementProtocol
        shortAuthString := event.shortAuthenticationString
        state := .accepted }

/-- `_check_commitment` -/
def checkCommitment (s : Sas L) (key : Str) : Except SasError Bool := do
  match s.commitment with
  | none => .error .assertion
  | some commitment =>
    if commitment = [] then .error .assertion
    else do
      let start ← s.startVerification
      match L.commitment key start.content with
      | .error e => .error (.value e)
      | .ok calculated => .ok (commitment = calculated)

/-- `receive_key_event`; `diffieHellman` is what the library answers for the key. -/
def receiveKeyEvent (s : Sas L) (event : KeyVerificationKey)
    (diffieHellman : Option L.Established) : Except SasError (Sas L) :=
  if s.establishedSas.isSome ∨ (s.state ≠ .started ∧ s.state ≠ .accepted) then
    .ok (s.cancelWith unexpectedMessageError)
  else
    match s.eventOk event.sender (.str event.transactionId) with
    | (false, s) => .ok s
    | (true, s) =>
      -- only the device that started has a commitment to check
      match if s.weStartedIt then s.checkCommitment event.key else .ok true with
      | .error e => .error e
      | .ok false => .ok (s.cancelWith commitmentMismatchError)
      | .ok true =>
        match diffieHellman with
        | none => .error .library
        | some established =>
          .ok { s with
            establishedSas := some established
            theirSasKey := event.key
            state := .keyReceived }

/-- What each MAC of the other device covers beside the key. -/
def macInfo (s : Sas L) : Str :=
  py "MATRIX_KEY_VERIFICATION_MAC" ++ s.otherOlmDevice.userId ++ s.otherOlmDevice.deviceId ++
    s.ownUser ++ s.ownDevice ++ s.transactionId

/-- `",".join(sorted(event.mac.keys()))` -/
def keyIds (mac : List (Str × Json)) : Str :=
  (py ",").intercalate ((mac.map (·.1)).mergeSort fun a b => decide (a ≤ b))

/-- `str.split(sep, n)` for a separator of one character -/
def split (sep : CodePoint) : Nat → Str → List Str
  | 0, s => [s]
  | n + 1, s =>
    match s.dropWhile (· ≠ sep) with
    | [] => [s]
    | _ :: rest => s.takeWhile (· ≠ sep) :: split sep n rest

/-- How the loop over the keys ends -/
inductive MacLoop (L : SasLibrary) where
  | raised (e : SasError)
  /-- A `return` from inside the loop -/
  | returned (s : Sas L)
  | finished (s : Sas L)

/-- The loop of `receive_mac_event` -/
def checkMacs (established : L.Established) (info : Str) (s : Sas L) :
    List (Str × Json) → MacLoop L
  | [] => .finished s
  | (keyId, keyMac) :: rest =>
    match split (chr ':') 2 keyId with
    | [keyType, deviceId] =>
      if keyType ≠ py "ed25519" then .returned (s.cancelWith keyMismatchError)
      else if deviceId ≠ s.otherOlmDevice.deviceId then s.checkMacs established info rest
      else
        match calculateMac established s.otherOlmDevice.ed25519 (info ++ keyId) with
        | .error e => .raised e
        | .ok mac =>
          if keyMac ≠ .str mac then .returned (s.cancelWith keyMismatchError)
          else checkMacs established info
            { s with verifiedDevices := s.verifiedDevices ++ [deviceId] } rest
    | _ => .returned (s.cancelWith invalidMessageError)

def receiveMacEvent (s : Sas L) (event : KeyVerificationMac) : Except SasError (Sas L) :=
  if s.verified then .ok s
  else
    match s.eventOk event.sender event.transactionId with
    | (false, s) => .ok s
    | (true, s) =>
      if s.state ≠ .keyReceived then .ok (s.cancelWith unexpectedMessageError)
      else
        match s.establishedSas with
        | none => .error .assertion
        | some established =>
          if s.chosenMacMethod = [] then .error .assertion
          else
            match calculateMac established (keyIds event.mac) (s.macInfo ++ py "KEY_IDS") with
            | .error e => .error e
            | .ok keys =>
              if event.keys ≠ keys then .ok (s.cancelWith keyMismatchError)
              else
                match s.checkMacs established s.macInfo event.mac with
                | .raised e => .error e
                | .returned s => .ok s
                | .finished s =>
                  let s := if s.verifiedDevices = [] then s.cancelWith keyMismatchError else s
                  .ok { s with state := .macReceived }

end Sas

end Nio.Crypto
