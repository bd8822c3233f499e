import Mathlib.Data.List.TakeWhile
import Nio.Py.Validation
import Nio.Events.ToDevice

/-!
# Honest verifications

Two `Sas` objects that hold each other's devices exchange their messages unmodified: start, accept,
key, key and, after both users have accepted, the MACs. The messages go through the event parsers
of the receiving side.

* `SasExchange` — the key agreement of the cryptographic library
* `honestRun` — the exchange
* `honestRun_agrees_iff` — the devices for which it ends with both sides verified
-/

namespace Nio.Crypto

open Nio.Py Nio.Events
open Nio.Store (OlmDevice)

/-- What the library's ephemeral keys do, and what it derives from an established secret. -/
structure SasExchange (L : SasLibrary) where
  Secret : Type
  /-- `public_key.to_base64()` -/
  publicKey : Secret → Str
  /-- `diffie_hellman(Curve25519PublicKey.from_base64(key))` -/
  diffieHellman : Secret → Str → Option L.Established
  /-- `bytes(info).emoji_indices` -/
  emojiIndices : L.Established → Str → List (BitVec 8)
  /-- `bytes(info).decimals` -/
  decimals : L.Established → Str → Nat × Nat × Nat

namespace Sas

variable {L : SasLibrary}

/-! ## What the users compare -/

/-- `bytes(extra_info)` of the established secret -/
def generate {α : Type} (derive : L.Established → Str → α) (s : Sas L) : Except SasError α := do
  let info ← s.extraInfo
  match s.establishedSas with
  | none => .error .assertion
  | some established =>
    if info.Encodable then .ok (derive established info) else .error (.value .unicodeEncode)

/-- `format(x, "08b")` -/
def binary (x : BitVec 8) : List Bool := (List.range 8).map x.getMsbD

/-- `int(x, 2)` -/
def ofBinary (bits : List Bool) : Nat := bits.foldl (fun n b => 2 * n + b.toNat) 0

/-- `_generate_emoji`, as positions in the table of emoji -/
def emojiPositions (indices : List (BitVec 8)) : List Nat :=
  (((indices.flatMap binary).take 42).toChunks 6).map ofBinary

def getEmoji (X : SasExchange L) (s : Sas L) : Except SasError (List Nat) :=
  s.generate fun established info => emojiPositions (X.emojiIndices established info)

def getDecimals (X : SasExchange L) (s : Sas L) : Except SasError (Nat × Nat × Nat) :=
  s.generate X.decimals

/-- The content of the message that starts a verification. -/
def startContent (device transactionId : Str) : Json := .obj [
  (py "from_device", .str device), (py "method", .str sasMethodV1),
  (py "transaction_id", .str transactionId),
  (py "key_agreement_protocols", strs keyAgreementProtocolsAll),
  (py "hashes", strs [hashV1]), (py "message_authentication_codes", strs macV1),
  (py "short_authentication_string", strs stringsV1)]

end Sas

/-- The laws of the key agreement and of the digest. -/
structure SasExchange.Lawful {L : SasLibrary} (X : SasExchange L) : Prop where
  /-- Every public key of the library is accepted by it. -/
  defined : ∀ a b, (X.diffieHellman a (X.publicKey b)).isSome
  mac : ∀ a b e e', X.diffieHellman a (X.publicKey b) = some e →
    X.diffieHellman b (X.publicKey a) = some e' → L.calculateMac e = L.calculateMac e'
  emoji : ∀ a b e e', X.diffieHellman a (X.publicKey b) = some e →
    X.diffieHellman b (X.publicKey a) = some e' → X.emojiIndices e = X.emojiIndices e'
  decimal : ∀ a b e e', X.diffieHellman a (X.publicKey b) = some e →
    X.diffieHellman b (X.publicKey a) = some e' → X.decimals e = X.decimals e'
  /-- A key in base 64 -/
  encodable : ∀ a, (X.publicKey a).Encodable
  digest_ne_nil : ∀ key content digest, L.commitment key content = .ok digest → digest ≠ []
  digest_defined : ∀ key device transactionId, key.Encodable → device.Encodable →
    transactionId.Encodable → ∃ digest, L.commitment key (Sas.startContent device transactionId) =
      .ok digest

/-- One side: its device, which the other side knows, and its ephemeral key. -/
structure Party {L : SasLibrary} (X : SasExchange L) where
  device : OlmDevice
  secret : X.Secret

namespace Honest

variable {L : SasLibrary} {X : SasExchange L}

/-! ## The exchange -/

/-- The event that the receiver of a message gets. -/
def event (sender : Party X) (m : ToDeviceMessage) : Json :=
  .obj [(py "type", .str m.type), (py "sender", .str sender.device.userId), (py "content", m.content)]

def readStart (sender : Party X) (m : ToDeviceMessage) : Option KeyVerificationStart :=
  match keyVerificationStartFromDict (event sender m) with
  | .ok (.keyVerificationStart e) => some e
  | _ => none

def readAccept (sender : Party X) (m : ToDeviceMessage) : Option KeyVerificationAccept :=
  match keyVerificationAcceptFromDict (event sender m) with
  | .ok (.keyVerificationAccept e) => some e
  | _ => none

def readKey (sender : Party X) (m : ToDeviceMessage) : Option KeyVerificationKey :=
  match keyVerificationKeyFromDict (event sender m) with
  | .ok (.keyVerificationKey e) => some e
  | _ => none

def readMac (sender : Party X) (m : ToDeviceMessage) : Option KeyVerificationMac :=
  match keyVerificationMacFromDict (event sender m) with
  | .ok (.keyVerificationMac e) => some e
  | _ => none

/-- `Sas.__init__`; `uuid` stands in for an empty transaction id. -/
def starter (alice bob : Party X) (transactionId uuid : Str) (now : Int) : Sas L :=
  .init alice.device.userId alice.device.deviceId alice.device.ed25519 bob.device
    (if transactionId = [] then uuid else transactionId) (X.publicKey alice.secret) [] now

/-- Start, accept and both keys. The answering side is offered the protocols `offered`. -/
def exchangeKeys (alice bob : Party X) (transactionId uuid : Str) (offered : List Str) (now : Int) :
    Option (Sas L × Sas L) := do
  let a : Sas L := starter alice bob transactionId uuid now
  let m ← a.startVerification.toOption
  let start ← readStart alice m
  let b : Sas L ← (Sas.fromKeyVerificationStart bob.device.userId bob.device.deviceId
    bob.device.ed25519 alice.device { start with keyAgreementProtocols := offered }
    (X.publicKey bob.secret) uuid now).toOption
  let (m, b) ← b.acceptVerification.toOption
  let a := a.receiveAcceptEvent (← readAccept bob m)
  let m ← a.shareKey.toOption
  let key ← readKey alice m
  let b ← (b.receiveKeyEvent key (X.diffieHellman bob.secret key.key)).toOption
  let m ← b.shareKey.toOption
  let key ← readKey bob m
  let a ← (a.receiveKeyEvent key (X.diffieHellman alice.secret key.key)).toOption
  return (a, b)

/-- Which MAC is delivered before the other one is made. -/
inductive MacOrder where
  | crossing
  | starterFirst
  | answererFirst
  deriving DecidableEq, Repr

def deliverMac (sender : Party X) (m : ToDeviceMessage) (s : Sas L) : Option (Sas L) := do
  (s.receiveMacEvent (← readMac sender m)).toOption

def exchangeMacs (order : MacOrder) (alice bob : Party X) (a b : Sas L) :
    Option (Sas L × Sas L) := do
  match order with
  | .crossing =>
    let fromAlice ← a.getMac.toOption
    let fromBob ← b.getMac.toOption
    return (← deliverMac bob fromBob a, ← deliverMac alice fromAlice b)
  | .starterFirst =>
    let b ← deliverMac alice (← a.getMac.toOption) b
    return (← deliverMac bob (← b.getMac.toOption) a, b)
  | .answererFirst =>
    let a ← deliverMac bob (← b.getMac.toOption) a
    return (a, ← deliverMac alice (← a.getMac.toOption) b)

/-- An honest run, or nothing when one of its calls raises. -/
def honestRun (order : MacOrder) (alice bob : Party X) (transactionId uuid : Str)
    (offered : List Str) (now : Int) : Option (Sas L × Sas L) := do
  let (a, b) ← exchangeKeys alice bob transactionId uuid offered now
  exchangeMacs order alice bob (← a.acceptSas.toOption) (← b.acceptSas.toOption)

/-! ## Reading the messages -/

@[simp] theorem string_str (t : Str) : Schemas.string (.str t) = some (.str t) := rfl

@[simp] theorem strings_strs (l : List Str) : Schemas.strings (Sas.strs l) = some (Sas.strs l) := by
  have hitems : Schema.mapItems Schemas.string (l.map .str) = some (l.map .str) := by
    refine Schema.mapItems_self fun v hv => ?_
    obtain ⟨t, _, rfl⟩ := List.mem_map.mp hv
    rfl
  refine Schema.all_self ?_
  simp [Sas.strs, Schema.items, hitems]

@[simp] theorem filterMap_asStr (l : List Str) : l.filterMap (Json.asStr? ∘ Json.str) = l :=
  List.filterMap_some

/-- A message whose content has what its schema asks for is read as it was sent. -/
theorem verificationEvent_event {ps : List Schema.Property} {names : List String}
    {content : List (Str × Json)} (hps : ∀ p ∈ ps, p.default = none)
    (hcontent : (content.map (·.1)).Nodup)
    (h : ∀ p ∈ ps, ∀ v, dictGet? content (py p.name) = some v → p.schema v = some v)
    (hnames : ∀ k ∈ names, (dictGet? content (py k)).isSome)
    (sender : Party X) (type user recipient : Str) :
    Schemas.verificationEvent ps names (event sender ⟨type, user, recipient, .obj content⟩) =
      some (event sender ⟨type, user, recipient, .obj content⟩) := by
  have hbody : Schema.all [.type .object, .properties ps, .required names] (.obj content) =
      some (.obj content) := by
    refine Schema.all_self ?_
    simp [Schema.properties_self hps hcontent h, Schema.required_self hnames]
  have hevent : Schema.properties [Schema.prop "sender" Schemas.string,
      Schema.prop "content" (Schema.all [.type .object, .properties ps, .required names])]
      (event sender ⟨type, user, recipient, .obj content⟩) =
      some (event sender ⟨type, user, recipient, .obj content⟩) := by
    refine Schema.properties_self ?_ ?_ ?_
    · simp [Schema.prop]
    · simp [py_inj]
    · simp [Schema.prop, dictGet?_cons, py_inj, hbody]
  have hrequired : Schema.required ["sender", "content"]
      (event sender ⟨type, user, recipient, .obj content⟩) =
      some (event sender ⟨type, user, recipient, .obj content⟩) := by
    refine Schema.required_self ?_
    simp [dictGet?_cons, py_inj]
  refine Schema.all_self fun s hs => ?_
  rcases List.mem_cons.mp hs with rfl | hs
  · rfl
  rcases List.mem_cons.mp hs with rfl | hs
  · exact hevent
  rcases List.mem_singleton.mp hs with rfl
  exact hrequired

/-- The start event of the code is read back as it was written. -/
theorem readStart_startContent (sender : Party X) (type user recipient device id : Str) :
    readStart sender ⟨type, user, recipient, Sas.startContent device id⟩ =
      some ⟨sender.device.userId, id, Sas.startContent device id, device, Sas.sasMethodV1,
        Sas.keyAgreementProtocolsAll, [Sas.hashV1], Sas.macV1, Sas.stringsV1⟩ := by
  have hschema : Schemas.keyVerificationStart
      (event sender ⟨type, user, recipient, Sas.startContent device id⟩) =
      some (event sender ⟨type, user, recipient, Sas.startContent device id⟩) := by
    refine verificationEvent_event ?_ ?_ ?_ ?_ sender type user recipient
    · simp [Schema.prop]
    · simp [py_inj]
    · simp [Schema.prop, dictGet?_cons, py_inj]
    · simp [dictGet?_cons, py_inj]
  unfold readStart keyVerificationStartFromDict verify
  rw [hschema]
  simp [event, Sas.startContent, getItem, getStr, getStrs, dictGet?_cons, py_inj, bind, Except.bind,
    Sas.strs, Json.asStr?, pure, Except.pure]

/-- So is the accept event, -/
theorem readAccept_event (sender : Party X)
    (type user recipient id agreement hash mac commitment : Str) (strings : List Str) :
    readAccept sender ⟨type, user, recipient, .obj [
        (py "transaction_id", .str id), (py "key_agreement_protocol", .str agreement),
        (py "hash", .str hash), (py "message_authentication_code", .str mac),
        (py "short_authentication_string", Sas.strs strings),
        (py "commitment", .str commitment)]⟩ =
      some ⟨sender.device.userId, id, commitment, agreement, hash, mac, strings⟩ := by
  unfold readAccept keyVerificationAcceptFromDict verify
  rw [Schemas.keyVerificationAccept, verificationEvent_event]
  · simp [event, getItem, getStr, getStrs, dictGet?_cons, py_inj, bind, Except.bind, Sas.strs,
      Json.asStr?, pure, Except.pure]
  · simp [Schema.prop]
  · simp [py_inj]
  · simp [Schema.prop, dictGet?_cons, py_inj]
  · simp [dictGet?_cons, py_inj]

/-- and so is the key event. -/
theorem readKey_event (sender : Party X) (type user recipient id key : Str) :
    readKey sender ⟨type, user, recipient, .obj [
        (py "transaction_id", .str id), (py "key", .str key)]⟩ =
      some ⟨sender.device.userId, id, key⟩ := by
  unfold readKey keyVerificationKeyFromDict verify
  rw [Schemas.keyVerificationKey, verificationEvent_event]
  · simp [event, getItem, getStr, dictGet?_cons, py_inj, bind, Except.bind, pure, Except.pure]
  · simp [Schema.prop]
  · simp [py_inj]
  · simp [Schema.prop, dictGet?_cons, py_inj]
  · simp [dictGet?_cons, py_inj]

/-- The schema looks into the MACs, which are strings under any key. -/
theorem readMac_event (sender : Party X) (type user recipient id keyId mac keys : Str) :
    readMac sender ⟨type, user, recipient, .obj [
        (py "mac", .obj [(keyId, .str mac)]), (py "keys", .str keys),
        (py "transaction_id", .str id)]⟩ =
      some ⟨sender.device.userId, .str id, [(keyId, .str mac)], keys⟩ := by
  have hmac (p : Str → Bool) : Schema.all [.type .object, .patternProperties p Schemas.string]
      (.obj [(keyId, .str mac)]) = some (.obj [(keyId, .str mac)]) := by
    refine Schema.all_self ?_
    simp [Schema.patternProperties, Schema.mapValues]
  unfold readMac keyVerificationMacFromDict verify
  rw [Schemas.keyVerificationMac, verificationEvent_event]
  · simp [event, getItem, getStr, getObj, dictGet?_cons, py_inj, bind, Except.bind, pure,
      Except.pure]
  · simp [Schema.prop]
  · simp [py_inj]
  · simp [Schema.prop, dictGet?_cons, py_inj, hmac]
  · simp [dictGet?_cons, py_inj]

/-! ## The keys -/

/-- What the answering side chooses from the protocols it is offered. -/
def agreement (offered : List Str) : Str :=
  if Sas.keyAgreementV2 ∈ offered then Sas.keyAgreementV2 else Sas.keyAgreementV1

/-- The answering side, as it is made for the message that starts the verification. -/
def answererMade (alice bob : Party X) (id digest : Str) (offered : List Str) (now : Int) : Sas L :=
  { (Sas.init bob.device.userId bob.device.deviceId bob.device.ed25519 alice.device id
      (X.publicKey bob.secret) Sas.stringsV1 now : Sas L) with
    weStartedIt := false
    commitment := some digest
    keyAgreementProtocols := offered
    state := .started }

/-- The answering side, after it has chosen what both sides use. -/
def answererAgreed (alice bob : Party X) (id digest : Str) (offered : List Str) (now : Int) :
    Sas L :=
  { answererMade alice bob id digest offered now with
    chosenMacMethod := Sas.macNormal
    chosenKeyAgreement := some (agreement offered) }

/-- The answering side, when it has both keys. -/
def answererKeyed (alice bob : Party X) (id digest : Str) (offered : List Str) (now : Int)
    (established : L.Established) : Sas L :=
  { answererAgreed alice bob id digest offered now with
    establishedSas := some established
    theirSasKey := X.publicKey alice.secret
    state := .keyReceived }

/-- The side that starts, after it has been told what both sides use. -/
def starterAgreed (alice bob : Party X) (id digest : Str) (offered : List Str) (now : Int) : Sas L :=
  { (Sas.init alice.device.userId alice.device.deviceId alice.device.ed25519 bob.device id
      (X.publicKey alice.secret) [] now : Sas L) with
    commitment := some digest
    chosenMacMethod := Sas.macNormal
    chosenKeyAgreement := some (agreement offered)
    state := .accepted }

/-- The side that starts, when it has both keys. -/
def starterKeyed (alice bob : Party X) (id digest : Str) (offered : List Str) (now : Int)
    (established : L.Established) : Sas L :=
  { starterAgreed alice bob id digest offered now with
    establishedSas := some established
    theirSasKey := X.publicKey bob.secret
    state := .keyReceived }

/-- The answerer reads the start event and accepts it. -/
theorem fromKeyVerificationStart_start {alice bob : Party X} {id digest : Str} {offered : List Str}
    (hid : id ≠ []) (hoffered : Sas.keyAgreementV1 ∈ offered ∨ Sas.keyAgreementV2 ∈ offered)
    (hdigest : L.commitment (X.publicKey bob.secret)
      (Sas.startContent alice.device.deviceId id) = .ok digest) (uuid : Str) (now : Int) :
    Sas.fromKeyVerificationStart bob.device.userId bob.device.deviceId bob.device.ed25519
        alice.device ⟨alice.device.userId, id, Sas.startContent alice.device.deviceId id,
          alice.device.deviceId, Sas.sasMethodV1, offered, [Sas.hashV1], Sas.macV1, Sas.stringsV1⟩
        (X.publicKey bob.secret) uuid now =
      .ok (answererMade alice bob id digest offered now) := by
  have hprotocol : ¬ (Sas.keyAgreementV1 ∉ offered ∧ Sas.keyAgreementV2 ∉ offered) :=
    fun h => hoffered.elim h.1 h.2
  unfold Sas.fromKeyVerificationStart
  simp only [hdigest, hid, if_false]
  rw [if_neg]
  · rfl
  · simp [hprotocol, Sas.macV1, Sas.stringsV1]

/-- The starter takes the accept event as agreed. -/
theorem receiveAcceptEvent_accept (alice bob : Party X) (id digest : Str) (offered : List Str)
    (now : Int) :
    (Sas.init alice.device.userId alice.device.deviceId alice.device.ed25519 bob.device id
        (X.publicKey alice.secret) [] now : Sas L).receiveAcceptEvent
      ⟨bob.device.userId, id, digest, agreement offered, Sas.hashV1, Sas.macNormal,
        Sas.stringsV1⟩ = starterAgreed alice bob id digest offered now := by
  have hagreement : agreement offered ∈ Sas.keyAgreementProtocolsAll := by
    unfold agreement Sas.keyAgreementProtocolsAll
    split <;> simp
  simp [Sas.receiveAcceptEvent, Sas.eventOk, Sas.init, hagreement, Sas.macV1, Sas.stringsV1,
    starterAgreed]

/-- The answerer takes the key of the starter, -/
theorem receiveKeyEvent_answerer (alice bob : Party X) (id digest : Str) (offered : List Str)
    (now : Int) (established : L.Established) :
    (answererAgreed alice bob id digest offered now).receiveKeyEvent
        ⟨alice.device.userId, id, X.publicKey alice.secret⟩ (some established) =
      .ok (answererKeyed alice bob id digest offered now established) := by
  simp [Sas.receiveKeyEvent, Sas.eventOk, answererAgreed, answererMade, answererKeyed, Sas.init]

/-- and the starter that of the answerer, whose commitment it checks. -/
theorem receiveKeyEvent_starter {alice bob : Party X} {id digest : Str} (hne : digest ≠ [])
    (hdigest : L.commitment (X.publicKey bob.secret)
      (Sas.startContent alice.device.deviceId id) = .ok digest) (offered : List Str) (now : Int)
    (established : L.Established) :
    (starterAgreed alice bob id digest offered now).receiveKeyEvent
        ⟨bob.device.userId, id, X.publicKey bob.secret⟩ (some established) =
      .ok (starterKeyed alice bob id digest offered now established) := by
  have hcheck : (starterAgreed alice bob id digest offered now).checkCommitment
      (X.publicKey bob.secret) = .ok true := by
    have hstart : (starterAgreed alice bob id digest offered now : Sas L).startVerification =
        .ok ⟨py "m.key.verification.start", bob.device.userId, bob.device.deviceId,
          Sas.startContent alice.device.deviceId id⟩ := rfl
    have hcommitment : (starterAgreed alice bob id digest offered now).commitment = some digest :=
      rfl
    unfold Sas.checkCommitment
    simp [hcommitment, hne, hstart, bind, Except.bind, hdigest]
  have hok : (starterAgreed alice bob id digest offered now).eventOk bob.device.userId (.str id) =
      (true, starterAgreed alice bob id digest offered now) := by
    simp [Sas.eventOk, starterAgreed, Sas.init]
  have hstarted : (starterAgreed alice bob id digest offered now).weStartedIt = true := rfl
  unfold Sas.receiveKeyEvent
  rw [if_neg (by simp [starterAgreed, Sas.init]), hok]
  simp only [hstarted, if_true, hcheck]
  rfl

/-- The exchange ends with both keys known on both sides. -/
theorem exchangeKeys_eq {alice bob : Party X} {transactionId uuid : Str} {offered : List Str}
    {digest : Str} (huuid : uuid ≠ [])
    (hoffered : Sas.keyAgreementV1 ∈ offered ∨ Sas.keyAgreementV2 ∈ offered)
    (hdigest : L.commitment (X.publicKey bob.secret) (Sas.startContent alice.device.deviceId
      (if transactionId = [] then uuid else transactionId)) = .ok digest) (hne : digest ≠ [])
    {e e' : L.Established} (he : X.diffieHellman alice.secret (X.publicKey bob.secret) = some e)
    (he' : X.diffieHellman bob.secret (X.publicKey alice.secret) = some e') (now : Int) :
    exchangeKeys alice bob transactionId uuid offered now =
      some (starterKeyed alice bob (if transactionId = [] then uuid else transactionId) digest
          offered now e,
        answererKeyed alice bob (if transactionId = [] then uuid else transactionId) digest
          offered now e') := by
  unfold exchangeKeys starter
  have hid : (if transactionId = [] then uuid else transactionId) ≠ [] := by
    split <;> assumption
  generalize (if transactionId = [] then uuid else transactionId) = id at *
  have hstart : (Sas.init alice.device.userId alice.device.deviceId alice.device.ed25519 bob.device
      id (X.publicKey alice.secret) [] now : Sas L).startVerification =
      .ok ⟨py "m.key.verification.start", bob.device.userId, bob.device.deviceId,
        Sas.startContent alice.device.deviceId id⟩ := rfl
  have haccept : (answererMade alice bob id digest offered now).acceptVerification =
      .ok (⟨py "m.key.verification.accept", alice.device.userId, alice.device.deviceId, .obj [
        (py "transaction_id", .str id), (py "key_agreement_protocol", .str (agreement offered)),
        (py "hash", .str Sas.hashV1), (py "message_authentication_code", .str Sas.macNormal),
        (py "short_authentication_string", Sas.strs Sas.stringsV1),
        (py "commitment", .str digest)]⟩, answererAgreed alice bob id digest offered now) := by
    simp [Sas.acceptVerification, answererMade, answererAgreed, Sas.init, Sas.stringsV1, agreement,
      Sas.message]
  have hshare : (starterAgreed alice bob id digest offered now).shareKey =
      .ok ⟨py "m.key.verification.key", bob.device.userId, bob.device.deviceId, .obj [
        (py "transaction_id", .str id), (py "key", .str (X.publicKey alice.secret))]⟩ := rfl
  have hshare' : (answererKeyed alice bob id digest offered now e').shareKey =
      .ok ⟨py "m.key.verification.key", alice.device.userId, alice.device.deviceId, .obj [
        (py "transaction_id", .str id), (py "key", .str (X.publicKey bob.secret))]⟩ := rfl
  simp only [hstart, Except.toOption, Option.bind_eq_bind, Option.bind_some, readStart_startContent]
  rw [fromKeyVerificationStart_start hid hoffered hdigest]
  simp only [Option.bind_some, haccept, readAccept_event, receiveAcceptEvent_accept, hshare,
    readKey_event, he', receiveKeyEvent_answerer, hshare', he,
    receiveKeyEvent_starter hne hdigest]
  rfl

/-! ## The MACs -/

/-- UTF-8 can hold what the MACs of this side cover. -/
def Sendable (s : Sas L) : Prop := s.ownFpKey.Encodable ∧ s.ownMacInfo.Encodable

instance (s : Sas L) : Decidable (Sendable s) := inferInstanceAs (Decidable (_ ∧ _))

def keyId (s : Sas L) : Str := py "ed25519:" ++ s.ownDevice

/-- The one MAC of a side and the MAC of its key id. -/
def macMessage (s : Sas L) (established : L.Established) : ToDeviceMessage :=
  s.message "m.key.verification.mac" (.obj [
    (py "mac", .obj [(keyId s, .str (L.calculateMac established s.ownFpKey
      (s.ownMacInfo ++ keyId s)))]),
    (py "keys", .str (L.calculateMac established (keyId s) (s.ownMacInfo ++ py "KEY_IDS"))),
    (py "transaction_id", .str s.transactionId)])

/-- A device whose MAC info is text has an id that is text. -/
theorem encodable_ownDevice {s : Sas L} (h : s.ownMacInfo.Encodable) : s.ownDevice.Encodable := by
  simp only [Sas.ownMacInfo, Str.Encodable.append] at h
  exact h.1.1.1.2

/-- The MAC message is sent exactly when everything it covers can be encoded. -/
theorem getMac_eq {s : Sas L} {e : L.Established} (haccepted : s.sasAccepted = true)
    (hstate : s.state ≠ .canceled) (he : s.establishedSas = some e)
    (hmethod : s.chosenMacMethod ≠ []) :
    s.getMac.toOption = if Sendable s then some (macMessage s e) else none := by
  have hkeyId : s.ownMacInfo.Encodable → (keyId s).Encodable := fun h =>
    Str.Encodable.append.mpr ⟨encodable_py _, encodable_ownDevice h⟩
  unfold Sas.getMac
  rw [if_neg (by simp [haccepted]), if_neg hstate]
  simp only [he, if_neg hmethod]
  by_cases hs : Sendable s
  · have hinfo (t : Str) (ht : t.Encodable) : (s.ownMacInfo ++ t).Encodable :=
      Str.Encodable.append.mpr ⟨hs.2, ht⟩
    rw [if_pos hs]
    simp only [Sas.calculateMac]
    rw [if_pos ⟨hs.1, hinfo _ (hkeyId hs.2)⟩, if_pos ⟨hkeyId hs.2, hinfo _ (encodable_py _)⟩]
    rfl
  · rw [if_neg hs]
    simp only [Sas.calculateMac]
    rw [if_neg fun h => hs ⟨h.1, (Str.Encodable.append.mp h.2).1⟩]
    rfl

/-- `s` waits for the MACs of `t`, and both know each other. -/
structure Awaits (s t : Sas L) (e e' : L.Established) : Prop where
  theirs : s.otherOlmDevice = ⟨t.ownUser, t.ownDevice, t.ownFpKey⟩
  ours : t.otherOlmDevice = ⟨s.ownUser, s.ownDevice, s.ownFpKey⟩
  transactionId : t.transactionId = s.transactionId
  state : s.state = .keyReceived
  established : s.establishedSas = some e
  mac : L.calculateMac e = L.calculateMac e'
  method : s.chosenMacMethod ≠ []
  verifiedDevices : s.verifiedDevices = []

/-- What the receiving side makes of the MACs of the other one. -/
def received (t s : Sas L) : Sas L :=
  if chr ':' ∈ t.ownDevice then s.cancelWith Sas.invalidMessageError
  else { s with verifiedDevices := [t.ownDevice], state := .macReceived }

/-- A key id is split at its first colon, -/
theorem split_keyId (device : Str) :
    Sas.split (chr ':') 2 (py "ed25519:" ++ device) =
      py "ed25519" :: Sas.split (chr ':') 1 device := by
  have hdrop : (py "ed25519:" ++ device).dropWhile (· ≠ chr ':') = chr ':' :: device := rfl
  have htake : (py "ed25519:" ++ device).takeWhile (· ≠ chr ':') = py "ed25519" := rfl
  rw [Sas.split]
  simp only [hdrop, htake]

/-- a device id without a colon stays whole, -/
theorem split_one_eq_singleton {device : Str} (h : chr ':' ∉ device) :
    Sas.split (chr ':') 1 device = [device] := by
  have hdrop : device.dropWhile (· ≠ chr ':') = [] := by
    refine List.dropWhile_eq_nil_iff.mpr fun c hc => decide_eq_true fun hcolon => ?_
    exact h (hcolon ▸ hc)
  rw [Sas.split]
  simp only [hdrop]

/-- and one with a colon falls apart. -/
theorem split_one_eq_pair {device : Str} (h : chr ':' ∈ device) :
    ∃ front back, Sas.split (chr ':') 1 device = [front, back] := by
  rw [Sas.split]
  cases hdrop : device.dropWhile (· ≠ chr ':') with
  | nil =>
    have := List.dropWhile_eq_nil_iff.mp hdrop (chr ':') h
    simp at this
  | cons c rest => exact ⟨_, _, rfl⟩

/-- The MAC message of the other side is taken as it was sent. -/
theorem deliverMac_eq {s t : Sas L} {e e' : L.Established} (h : Awaits s t e e')
    (ht : Sendable t) {sender : Party X} (hsender : sender.device.userId = t.ownUser) :
    deliverMac sender (macMessage t e') s = some (received t s) := by
  have hinfo : s.macInfo = t.ownMacInfo := by
    simp only [Sas.macInfo, Sas.ownMacInfo, h.theirs, h.ours, h.transactionId]
  have hkeyId : (keyId t).Encodable :=
    Str.Encodable.append.mpr ⟨encodable_py _, encodable_ownDevice ht.2⟩
  have hverified : s.verified = false := by simp [Sas.verified, h.state]
  have hok : s.eventOk sender.device.userId (.str t.transactionId) = (true, s) := by
    simp [Sas.eventOk, h.state, h.transactionId, h.theirs, hsender]
  have hids (mac : Json) : Sas.keyIds [(keyId t, mac)] = keyId t := by
    simp [Sas.keyIds, List.intercalate]
  have hencodable (u : Str) (hu : u.Encodable) : (t.ownMacInfo ++ u).Encodable :=
    Str.Encodable.append.mpr ⟨ht.2, hu⟩
  have hloop : s.checkMacs e t.ownMacInfo [(keyId t, .str (L.calculateMac e' t.ownFpKey
      (t.ownMacInfo ++ keyId t)))] =
      if chr ':' ∈ t.ownDevice then .returned (s.cancelWith Sas.invalidMessageError)
      else .finished { s with verifiedDevices := [t.ownDevice] } := by
    unfold Sas.checkMacs
    rw [keyId, split_keyId, ← keyId]
    by_cases hcolon : chr ':' ∈ t.ownDevice
    · obtain ⟨front, back, hsplit⟩ := split_one_eq_pair hcolon
      rw [hsplit, if_pos hcolon]
    · rw [split_one_eq_singleton hcolon, if_neg hcolon]
      simp [h.theirs, Sas.calculateMac, ht.1, hencodable _ hkeyId, h.mac, Sas.checkMacs,
        h.verifiedDevices]
  unfold deliverMac macMessage Sas.message
  rw [readMac_event]
  simp only [Option.bind_eq_bind, Option.bind_some]
  unfold Sas.receiveMacEvent
  simp only [hverified, Bool.false_eq_true, if_false, hok, h.state, h.established, h.method,
    hinfo, hids]
  simp [Sas.calculateMac, hkeyId, hencodable _ (encodable_py _), h.mac, hloop, received]
  by_cases hcolon : chr ':' ∈ t.ownDevice
  · simp only [if_pos hcolon]
    rfl
  · simp only [if_neg hcolon, List.cons_ne_nil, if_false]
    rfl

/-- Both sides derive the same strings from the same text, and both are verified. -/
structure Agreed (X : SasExchange L) (a b : Sas L) : Prop where
  info : ∃ info, a.extraInfo = .ok info ∧ b.extraInfo = .ok info
  emoji : ∃ emoji, a.getEmoji X = .ok emoji ∧ b.getEmoji X = .ok emoji
  decimals : ∃ decimals, a.getDecimals X = .ok decimals ∧ b.getDecimals X = .ok decimals
  verified : a.verified ∧ b.verified

/-- A device whose id is one word of a key id, and that UTF-8 can hold. -/
structure Presentable (device : OlmDevice) : Prop where
  colon : chr ':' ∉ device.deviceId
  userId : device.userId.Encodable
  deviceId : device.deviceId.Encodable
  ed25519 : device.ed25519.Encodable

/-- The side that starts, when its user has accepted. -/
def starterAccepted (alice bob : Party X) (id digest : Str) (offered : List Str) (now : Int)
    (established : L.Established) : Sas L :=
  { starterKeyed alice bob id digest offered now established with sasAccepted := true }

/-- The answering side, when its user has accepted. -/
def answererAccepted (alice bob : Party X) (id digest : Str) (offered : List Str) (now : Int)
    (established : L.Established) : Sas L :=
  { answererKeyed alice bob id digest offered now established with sasAccepted := true }

/-- The starter waits for the MAC of the answerer, -/
theorem awaits_starter (hX : X.Lawful) {alice bob : Party X} {e e' : L.Established}
    (he : X.diffieHellman alice.secret (X.publicKey bob.secret) = some e)
    (he' : X.diffieHellman bob.secret (X.publicKey alice.secret) = some e')
    (id digest : Str) (offered : List Str) (now : Int) :
    Awaits (starterAccepted alice bob id digest offered now e)
      (answererAccepted alice bob id digest offered now e') e e' where
  theirs := rfl
  ours := rfl
  transactionId := rfl
  state := rfl
  established := rfl
  mac := hX.mac _ _ _ _ he he'
  method := by simp [starterAccepted, starterKeyed, starterAgreed, Sas.macNormal, py, ofChars]
  verifiedDevices := rfl

/-- and the answerer for that of the starter. -/
theorem awaits_answerer (hX : X.Lawful) {alice bob : Party X} {e e' : L.Established}
    (he : X.diffieHellman alice.secret (X.publicKey bob.secret) = some e)
    (he' : X.diffieHellman bob.secret (X.publicKey alice.secret) = some e')
    (id digest : Str) (offered : List Str) (now : Int) :
    Awaits (answererAccepted alice bob id digest offered now e')
      (starterAccepted alice bob id digest offered now e) e' e where
  theirs := rfl
  ours := rfl
  transactionId := rfl
  state := rfl
  established := rfl
  mac := hX.mac _ _ _ _ he' he
  method := by simp [answererAccepted, answererKeyed, answererAgreed, Sas.macNormal, py, ofChars]
  verifiedDevices := rfl

/-- The MAC that one side sends is the one that the other computes. -/
theorem getMac_of_awaits {s t : Sas L} {e e' : L.Established} (h : Awaits s t e e')
    (haccepted : s.sasAccepted = true) :
    s.getMac.toOption = if Sendable s then some (macMessage s e) else none :=
  getMac_eq haccepted (by simp [h.state]) h.established h.method

/-- A side that has taken the other's MACs still makes its own, and one that has refused them
does not. -/
theorem getMac_received {s t : Sas L} {e e' : L.Established} (h : Awaits s t e e')
    (haccepted : s.sasAccepted = true) :
    (received t s).getMac.toOption =
      if chr ':' ∉ t.ownDevice ∧ Sendable s then some (macMessage s e) else none := by
  unfold received
  by_cases hcolon : chr ':' ∈ t.ownDevice
  · rw [if_pos hcolon, if_neg fun h => h.1 hcolon]
    simp [Sas.getMac, Sas.cancelWith, haccepted, Except.toOption]
  · have hmac := @getMac_eq L { s with verifiedDevices := [t.ownDevice], state := .macReceived } e
      haccepted (by simp) h.established h.method
    rw [if_neg hcolon]
    by_cases hs : Sendable s
    · rw [if_pos ⟨hcolon, hs⟩]
      exact hmac.trans (if_pos hs)
    · rw [if_neg fun h => hs h.2]
      exact hmac.trans (if_neg hs)

/-- The device is verified exactly when its id has no colon. -/
theorem verified_received {s t : Sas L} (haccepted : s.sasAccepted = true) :
    (received t s).verified = true ↔ chr ':' ∉ t.ownDevice := by
  unfold received
  by_cases hcolon : chr ':' ∈ t.ownDevice
  · simp [hcolon, Sas.verified, Sas.cancelWith]
  · simp [hcolon, Sas.verified, haccepted]

/-- Once both users have accepted, the MACs of both sides decide. -/
theorem exchangeMacs_eq {a b : Sas L} {e e' : L.Established} (hab : Awaits a b e e')
    (hba : Awaits b a e' e) (ha : a.sasAccepted = true) (hb : b.sasAccepted = true)
    {alice bob : Party X} (halice : alice.device.userId = a.ownUser)
    (hbob : bob.device.userId = b.ownUser) (order : MacOrder) :
    exchangeMacs order alice bob a b =
      if Sendable a ∧ Sendable b ∧ (order = .starterFirst → chr ':' ∉ a.ownDevice) ∧
          (order = .answererFirst → chr ':' ∉ b.ownDevice) then
        some (received b a, received a b)
      else none := by
  have hmacA := getMac_of_awaits hab ha
  have hmacB := getMac_of_awaits hba hb
  have hmacA' := getMac_received hab ha
  have hmacB' := getMac_received hba hb
  cases order with
  | crossing =>
    simp only [exchangeMacs, hmacA, hmacB]
    by_cases hsa : Sendable a
    · by_cases hsb : Sendable b
      · simp [hsa, hsb, deliverMac_eq hab hsb hbob, deliverMac_eq hba hsa halice]
      · simp [hsa, hsb]
    · simp [hsa]
  | starterFirst =>
    simp only [exchangeMacs, hmacA]
    by_cases hsa : Sendable a
    · simp only [if_pos hsa, Option.bind_eq_bind, Option.bind_some, deliverMac_eq hba hsa halice,
        hmacB']
      by_cases hsb : chr ':' ∉ a.ownDevice ∧ Sendable b
      · simp [hsa, hsb, deliverMac_eq hab hsb.2 hbob]
      · rw [if_neg hsb, if_neg fun h => hsb ⟨h.2.2.1 trivial, h.2.1⟩]
        rfl
    · simp [hsa]
  | answererFirst =>
    simp only [exchangeMacs, hmacB]
    by_cases hsb : Sendable b
    · simp only [if_pos hsb, Option.bind_eq_bind, Option.bind_some, deliverMac_eq hab hsb hbob,
        hmacA']
      by_cases hsa : chr ':' ∉ b.ownDevice ∧ Sendable a
      · simp [hsa, hsb, deliverMac_eq hba hsa.2 halice]
      · rw [if_neg hsa, if_neg fun h => hsa ⟨h.2.2.2 trivial, h.1⟩]
        rfl
    · simp [hsb]

/-! ## The strings -/

/-- The text that both sides derive the strings from: the starting side comes first. -/
def verificationInfo (alice bob : Party X) (id : Str) (offered : List Str) : Str :=
  if agreement offered = Sas.keyAgreementV1 then
    py "MATRIX_KEY_VERIFICATION_SAS" ++ (alice.device.userId ++ alice.device.deviceId) ++
      (bob.device.userId ++ bob.device.deviceId) ++ id
  else
    py "MATRIX_KEY_VERIFICATION_SAS|" ++
      (alice.device.userId ++ py "|" ++ alice.device.deviceId ++ py "|" ++
        X.publicKey alice.secret) ++ py "|" ++
      (bob.device.userId ++ py "|" ++ bob.device.deviceId ++ py "|" ++ X.publicKey bob.secret) ++
      py "|" ++ id

/-- The agreement is one of the two protocols that the code knows. -/
theorem agreement_eq (offered : List Str) :
    agreement offered = Sas.keyAgreementV1 ∨ agreement offered = Sas.keyAgreementV2 := by
  unfold agreement
  split
  · exact .inr rfl
  · exact .inl rfl

theorem keyAgreementV2_ne : Sas.keyAgreementV2 ≠ Sas.keyAgreementV1 := by
  simp [Sas.keyAgreementV1, Sas.keyAgreementV2, py_inj]

/-- The starter derives its bytes from the common info, -/
theorem extraInfo_starter (alice bob : Party X) (id digest : Str) (offered : List Str) (now : Int)
    (e : L.Established) :
    (starterAccepted alice bob id digest offered now e).extraInfo =
      .ok (verificationInfo alice bob id offered) := by
  have hchosen : (starterAccepted alice bob id digest offered now e).chosenKeyAgreement =
      some (agreement offered) := rfl
  unfold Sas.extraInfo verificationInfo
  rw [hchosen]
  rcases agreement_eq offered with h | h
  · rw [h, if_pos rfl, if_pos rfl]
    rfl
  · rw [h, if_neg fun h => keyAgreementV2_ne (Option.some.inj h), if_pos rfl,
      if_neg keyAgreementV2_ne]
    rfl

/-- and so does the answerer. -/
theorem extraInfo_answerer (alice bob : Party X) (id digest : Str) (offered : List Str) (now : Int)
    (e : L.Established) :
    (answererAccepted alice bob id digest offered now e).extraInfo =
      .ok (verificationInfo alice bob id offered) := by
  have hchosen : (answererAccepted alice bob id digest offered now e).chosenKeyAgreement =
      some (agreement offered) := rfl
  unfold Sas.extraInfo verificationInfo
  rw [hchosen]
  rcases agreement_eq offered with h | h
  · rw [h, if_pos rfl, if_pos rfl]
    rfl
  · rw [h, if_neg fun h => keyAgreementV2_ne (Option.some.inj h), if_pos rfl,
      if_neg keyAgreementV2_ne]
    rfl

/-- Receiving the other side's MACs does not change what the users have compared. -/
theorem extraInfo_received (t s : Sas L) : (received t s).extraInfo = s.extraInfo := by
  unfold received
  split <;> rfl

theorem establishedSas_received (t s : Sas L) :
    (received t s).establishedSas = s.establishedSas := by
  unfold received
  split <;> rfl

/-- The bytes are derived from the established secret and the info. -/
theorem generate_eq {α : Type} {s : Sas L} {info : Str} {e : L.Established}
    (hinfo : s.extraInfo = .ok info) (he : s.establishedSas = some e) (hencodable : info.Encodable)
    (derive : L.Established → Str → α) : s.generate derive = .ok (derive e info) := by
  simp [Sas.generate, hinfo, he, hencodable, bind, Except.bind]

theorem encodable_verificationInfo (hX : X.Lawful) {alice bob : Party X} {id : Str}
    (halice : Presentable alice.device) (hbob : Presentable bob.device) (hid : id.Encodable)
    (offered : List Str) : (verificationInfo alice bob id offered).Encodable := by
  unfold verificationInfo
  split
  · simp only [Str.Encodable.append]
    exact ⟨⟨⟨encodable_py _, halice.userId, halice.deviceId⟩, hbob.userId, hbob.deviceId⟩, hid⟩
  · simp only [Str.Encodable.append]
    simp [encodable_py, halice.userId, halice.deviceId, hbob.userId, hbob.deviceId, hid,
      hX.encodable]

/-! ## Honest runs -/

/-- What the starter must encode to send its MAC -/
theorem sendable_starter (alice bob : Party X) (id digest : Str) (offered : List Str) (now : Int)
    (e : L.Established) :
    Sendable (starterAccepted alice bob id digest offered now e) ↔
      alice.device.ed25519.Encodable ∧ alice.device.userId.Encodable ∧
        alice.device.deviceId.Encodable ∧ bob.device.userId.Encodable ∧
        bob.device.deviceId.Encodable ∧ id.Encodable := by
  simp [Sendable, Sas.ownMacInfo, starterAccepted, starterKeyed, starterAgreed, Sas.init,
    Str.Encodable.append, encodable_py]

/-- What the answerer must encode -/
theorem sendable_answerer (alice bob : Party X) (id digest : Str) (offered : List Str) (now : Int)
    (e : L.Established) :
    Sendable (answererAccepted alice bob id digest offered now e) ↔
      bob.device.ed25519.Encodable ∧ bob.device.userId.Encodable ∧
        bob.device.deviceId.Encodable ∧ alice.device.userId.Encodable ∧
        alice.device.deviceId.Encodable ∧ id.Encodable := by
  simp [Sendable, Sas.ownMacInfo, answererAccepted, answererKeyed, answererAgreed, answererMade,
    Sas.init, Str.Encodable.append, encodable_py]

/-- A run whose commitment can be computed gets to the MACs. -/
theorem honestRun_of_digest {alice bob : Party X} {transactionId uuid : Str} {offered : List Str}
    {digest : Str} (huuid : uuid ≠ [])
    (hoffered : Sas.keyAgreementV1 ∈ offered ∨ Sas.keyAgreementV2 ∈ offered)
    (hdigest : L.commitment (X.publicKey bob.secret) (Sas.startContent alice.device.deviceId
      (if transactionId = [] then uuid else transactionId)) = .ok digest) (hne : digest ≠ [])
    {e e' : L.Established} (he : X.diffieHellman alice.secret (X.publicKey bob.secret) = some e)
    (he' : X.diffieHellman bob.secret (X.publicKey alice.secret) = some e') (now : Int)
    (order : MacOrder) :
    honestRun order alice bob transactionId uuid offered now =
      exchangeMacs order alice bob
        (starterAccepted alice bob (if transactionId = [] then uuid else transactionId) digest
          offered now e)
        (answererAccepted alice bob (if transactionId = [] then uuid else transactionId) digest
          offered now e') := by
  unfold honestRun
  rw [exchangeKeys_eq huuid hoffered hdigest hne he he' now]
  rfl

/-- Without a commitment there is no exchange. -/
theorem exchangeKeys_undigested {alice bob : Party X} {transactionId uuid : Str} {error : ValueError}
    (huuid : uuid ≠ [])
    (hdigest : L.commitment (X.publicKey bob.secret) (Sas.startContent alice.device.deviceId
      (if transactionId = [] then uuid else transactionId)) = .error error) (offered : List Str)
    (now : Int) : exchangeKeys alice bob transactionId uuid offered now = none := by
  unfold exchangeKeys starter
  have hid : (if transactionId = [] then uuid else transactionId) ≠ [] := by
    split <;> assumption
  generalize (if transactionId = [] then uuid else transactionId) = id at *
  have hstart : (Sas.init alice.device.userId alice.device.deviceId alice.device.ed25519 bob.device
      id (X.publicKey alice.secret) [] now : Sas L).startVerification =
      .ok ⟨py "m.key.verification.start", bob.device.userId, bob.device.deviceId,
        Sas.startContent alice.device.deviceId id⟩ := rfl
  simp only [hstart, Except.toOption, Option.bind_eq_bind, Option.bind_some, readStart_startContent]
  simp [Sas.fromKeyVerificationStart, hdigest]

/-- **An honest run agrees and completes exactly when no device id holds a colon**, given that
UTF-8 can hold the ids and the fingerprint keys. -/
theorem honestRun_agrees_iff (hX : X.Lawful) (alice bob : Party X) (transactionId uuid : Str)
    (huuid : uuid ≠ []) (offered : List Str)
    (hoffered : Sas.keyAgreementV1 ∈ offered ∨ Sas.keyAgreementV2 ∈ offered) (now : Int)
    (order : MacOrder) :
    (∃ a b, honestRun order alice bob transactionId uuid offered now = some (a, b) ∧
        Agreed X a b) ↔
      Presentable alice.device ∧ Presentable bob.device ∧
        Str.Encodable (if transactionId = [] then uuid else transactionId) := by
  obtain ⟨e, he⟩ := Option.isSome_iff_exists.mp (hX.defined alice.secret bob.secret)
  obtain ⟨e', he'⟩ := Option.isSome_iff_exists.mp (hX.defined bob.secret alice.secret)
  cases hdigest : L.commitment (X.publicKey bob.secret) (Sas.startContent alice.device.deviceId
      (if transactionId = [] then uuid else transactionId)) with
  | error error =>
    -- the answering side cannot even be made, and then some id cannot be encoded
    constructor
    · rintro ⟨a, b, hrun, -⟩
      unfold honestRun at hrun
      rw [exchangeKeys_undigested huuid hdigest] at hrun
      cases hrun
    · rintro ⟨halice, -, hid⟩
      obtain ⟨digest, hok⟩ := hX.digest_defined _ _ _ (hX.encodable bob.secret) halice.deviceId hid
      rw [hok] at hdigest
      cases hdigest
  | ok digest =>
    have hne := hX.digest_ne_nil _ _ _ hdigest
    rw [honestRun_of_digest huuid hoffered hdigest hne he he' now order]
    generalize (if transactionId = [] then uuid else transactionId) = id at *
    have hab := awaits_starter hX he he' id digest offered now
    have hba := awaits_answerer hX he he' id digest offered now
    rw [exchangeMacs_eq hab hba rfl rfl rfl rfl order]
    have hsa := sendable_starter alice bob id digest offered now e
    have hsb := sendable_answerer alice bob id digest offered now e'
    have hva := @verified_received L (starterAccepted alice bob id digest offered now e)
      (answererAccepted alice bob id digest offered now e') rfl
    have hvb := @verified_received L (answererAccepted alice bob id digest offered now e')
      (starterAccepted alice bob id digest offered now e) rfl
    constructor
    · rintro ⟨a, b, hrun, hagreed⟩
      split at hrun
      next hmacs =>
        cases hrun
        obtain ⟨ha, hau, had, -, -, hid⟩ := hsa.mp hmacs.1
        obtain ⟨hb, hbu, hbd, -, -, -⟩ := hsb.mp hmacs.2.1
        exact ⟨⟨hvb.mp hagreed.verified.2, hau, had, ha⟩,
          ⟨hva.mp hagreed.verified.1, hbu, hbd, hb⟩, hid⟩
      next => cases hrun
    · rintro ⟨halice, hbob, hid⟩
      refine ⟨_, _, if_pos ⟨hsa.mpr ⟨halice.ed25519, halice.userId, halice.deviceId, hbob.userId,
        hbob.deviceId, hid⟩, hsb.mpr ⟨hbob.ed25519, hbob.userId, hbob.deviceId, halice.userId,
        halice.deviceId, hid⟩, fun _ => halice.colon, fun _ => hbob.colon⟩, ?_⟩
      have hinfo := (extraInfo_received (answererAccepted alice bob id digest offered now e') _).trans
        (extraInfo_starter alice bob id digest offered now e)
      have hinfo' := (extraInfo_received (starterAccepted alice bob id digest offered now e) _).trans
        (extraInfo_answerer alice bob id digest offered now e')
      have hencodable := encodable_verificationInfo hX halice hbob hid offered
      have hea := (establishedSas_received (answererAccepted alice bob id digest offered now e')
        (starterAccepted alice bob id digest offered now e)).trans hab.established
      have heb := (establishedSas_received (starterAccepted alice bob id digest offered now e)
        (answererAccepted alice bob id digest offered now e')).trans hba.established
      refine ⟨⟨_, hinfo, hinfo'⟩, ⟨_, generate_eq hinfo hea hencodable _, ?_⟩,
        ⟨_, generate_eq hinfo hea hencodable _, ?_⟩, hva.mpr hbob.colon, hvb.mpr halice.colon⟩
      · rw [hX.emoji _ _ _ _ he he']
        exact generate_eq hinfo' heb hencodable _
      · rw [hX.decimal _ _ _ _ he he']
        exact generate_eq hinfo' heb hencodable _

/-! ## Two devices -/

/-- A library whose MACs and digests show what they cover. -/
def echoLibrary : SasLibrary where
  Established := Str
  calculateMac := fun established input info => established ++ input ++ info
  commitment := fun key _ => .ok (py "sha256" ++ key)

/-- A key agreement in unary numbers, where a public key is multiplied with a secret. -/
def echoExchange : SasExchange echoLibrary where
  Secret := Nat
  publicKey := fun secret => List.replicate secret (chr 'g')
  diffieHellman := fun secret key => some (List.replicate (secret * key.length) (chr 'g'))
  emojiIndices := fun established info =>
    (List.range 7).map fun i => BitVec.ofNat 8 (established.length + info.length + i)
  decimals := fun established info => (established.length, info.length, 0)

theorem echo_agree {a b : Nat} {e e' : Str}
    (he : echoExchange.diffieHellman a (echoExchange.publicKey b) = some e)
    (he' : echoExchange.diffieHellman b (echoExchange.publicKey a) = some e') : e = e' := by
  obtain rfl := Option.some.inj he
  obtain rfl := Option.some.inj he'
  simp [echoExchange, Nat.mul_comm]

theorem encodable_replicate (n : Nat) : Str.Encodable (List.replicate n (chr 'g')) := by
  intro c hc
  rw [List.eq_of_mem_replicate hc]
  rfl

theorem echo_lawful : echoExchange.Lawful where
  defined := fun _ _ => rfl
  mac := fun _ _ _ _ he he' => by rw [echo_agree he he']
  emoji := fun _ _ _ _ he he' => by rw [echo_agree he he']
  decimal := fun _ _ _ _ he he' => by rw [echo_agree he he']
  encodable := encodable_replicate
  digest_ne_nil := by
    intro key content digest h
    cases h
    simp [py, ofChars]
  digest_defined := fun key _ _ _ _ _ => ⟨py "sha256" ++ key, rfl⟩

def alice : Party echoExchange :=
  ⟨⟨py "@alice:example.org", py "ALICEDEV", py "alice-ed25519"⟩, (3 : Nat)⟩

/-- A side with the given device id -/
def bobWith (deviceId : Str) : Party echoExchange :=
  ⟨⟨py "@bob:example.org", deviceId, py "bob-ed25519"⟩, (5 : Nat)⟩

theorem honestRun_agrees_bob :
    ∃ a b, honestRun .crossing alice (bobWith (py "BOBDEV")) (py "tx") (py "uuid")
      [Sas.keyAgreementV1] 0 = some (a, b) ∧ Agreed echoExchange a b :=
  (honestRun_agrees_iff echo_lawful alice (bobWith (py "BOBDEV")) (py "tx") (py "uuid")
    (by simp [py, ofChars]) [Sas.keyAgreementV1] (.inl List.mem_cons_self) 0 .crossing).mpr
    ⟨⟨by decide +kernel, encodable_py _, encodable_py _, encodable_py _⟩,
      ⟨by decide +kernel, encodable_py _, encodable_py _, encodable_py _⟩, by
        rw [if_neg (by simp [py, ofChars])]
        exact encodable_py _⟩

/-- A key id with two colons is not taken apart into two words. -/
theorem colon_cancels :
    ¬ ∃ a b, honestRun .crossing alice (bobWith (py "BOB:DEV")) (py "tx") (py "uuid")
      Sas.keyAgreementProtocolsAll 0 = some (a, b) ∧ Agreed echoExchange a b := by
  rintro ⟨a, b, hrun, hagreed⟩
  have hcanceled : (honestRun .crossing alice (bobWith (py "BOB:DEV")) (py "tx") (py "uuid")
      Sas.keyAgreementProtocolsAll 0).map (fun p => p.1.verified) = some false := by
    decide +kernel
  rw [hrun] at hcanceled
  exact absurd hagreed.verified.1 (by simpa using hcanceled)

end Honest

end Nio.Crypto
