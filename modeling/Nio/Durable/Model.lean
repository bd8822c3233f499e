import Nio.Py.JsonRoundtrip

/-!
# The records of a durable batch

A batch is stored as one JSON text. `decode_records` checks every field again, so that a text that
something else wrote is refused before a record is exposed.

* `encodeRecords`, `decodeRecords` — the carrier of a batch and its strict reader
* `decodeRecords_encodeRecords` — a stored batch is read back as it was published
-/

namespace Nio.Durable

open Nio.Py

/-- `TimelineEventProvenance` -/
inductive Provenance where
  | live
  | recovered
  | history
  deriving DecidableEq, Repr

inductive RecordKind where
  | timeline
  | state
  | roomAccountData
  | globalAccountData
  | toDevice
  | roomLifecycle
  | loss
  deriving DecidableEq, Repr

def Provenance.value : Provenance → Str
  | .live => py "live"
  | .recovered => py "recovered"
  | .history => py "history"

def Provenance.all : List Provenance := [.live, .recovered, .history]

def RecordKind.value : RecordKind → Str
  | .timeline => py "timeline"
  | .state => py "state"
  | .roomAccountData => py "room_account_data"
  | .globalAccountData => py "global_account_data"
  | .toDevice => py "to_device"
  | .roomLifecycle => py "room_lifecycle"
  | .loss => py "loss"

def RecordKind.all : List RecordKind :=
  [.timeline, .state, .roomAccountData, .globalAccountData, .toDevice, .roomLifecycle, .loss]

/-- A signed device identity. Its strings are not empty. -/
structure AuthenticatedDevice where
  userId : Str
  deviceId : Str
  curve25519 : Str
  ed25519 : Str
  nonempty : userId ≠ [] ∧ deviceId ≠ [] ∧ curve25519 ≠ [] ∧ ed25519 ≠ []
  deriving DecidableEq

structure CryptoEvidence where
  verified : Option Bool
  senderKey : Str
  sessionId : Option Str
  authenticatedSender : Option AuthenticatedDevice
  deriving DecidableEq

inductive Membership where
  | join
  | invite
  | leave
  | ban
  | knock
  deriving DecidableEq, Repr

def Membership.value : Membership → Str
  | .join => py "join"
  | .invite => py "invite"
  | .leave => py "leave"
  | .ban => py "ban"
  | .knock => py "knock"

/-- The membership states that a stored record may name. -/
def Membership.all : List Membership := [.join, .invite, .leave, .ban, .knock]

inductive MembershipSource where
  | local
  | reported
  deriving DecidableEq, Repr

def MembershipSource.value : MembershipSource → Str
  | .local => py "local"
  | .reported => py "reported"

structure OwnMembership where
  previous : Option Membership
  current : Membership
  previousEpoch : Nat
  currentEpoch : Nat
  source : MembershipSource
  deriving DecidableEq

structure SyncRecord where
  kind : RecordKind
  roomId : Option Str
  source : Json
  clear : Option Json
  provenance : Option Provenance
  membershipEpoch : Option Nat
  crypto : Option CryptoEvidence
  membership : Option OwnMembership
  route : Option Str
  codec : Option Str
  deriving DecidableEq

/-- `SyncRecord(kind, room_id, source)` -/
def SyncRecord.of (kind : RecordKind) (roomId : Option Str) (source : Json) : SyncRecord :=
  ⟨kind, roomId, source, none, none, none, none, none, none, none⟩

structure SyncBatch where
  streamId : Nat
  sequence : Nat
  records : List SyncRecord
  completesSync : Bool
  deriving DecidableEq

/-! ## Writing -/

/-- The options of `encode_json`. -/
def strict : DumpOptions := ⟨false, false, true⟩

def encodeJson (v : Json) : Except ValueError Str := dumps strict v

def optional {α : Type} (f : α → Json) : Option α → Json
  | none => .null
  | some a => f a

def AuthenticatedDevice.asdict (d : AuthenticatedDevice) : Json :=
  .obj [(py "user_id", .str d.userId), (py "device_id", .str d.deviceId),
    (py "curve25519", .str d.curve25519), (py "ed25519", .str d.ed25519)]

def CryptoEvidence.asdict (c : CryptoEvidence) : Json :=
  .obj [(py "verified", optional .bool c.verified), (py "sender_key", .str c.senderKey),
    (py "session_id", optional .str c.sessionId),
    (py "authenticated_sender", optional AuthenticatedDevice.asdict c.authenticatedSender)]

def OwnMembership.asdict (m : OwnMembership) : Json :=
  .obj [(py "previous", optional (fun p => .str p.value) m.previous),
    (py "current", .str m.current.value),
    (py "previous_epoch", .int m.previousEpoch), (py "current_epoch", .int m.currentEpoch),
    (py "source", .str m.source.value)]

/-- The object that stands for a record in a batch. -/
def SyncRecord.carrier (r : SyncRecord) : Json :=
  .obj [(py "kind", .str r.kind.value), (py "room_id", optional .str r.roomId),
    (py "source", r.source), (py "clear", optional id r.clear),
    (py "provenance", optional (fun p => .str p.value) r.provenance),
    (py "membership_epoch", optional (fun e => .int (e : Nat)) r.membershipEpoch),
    (py "crypto", optional CryptoEvidence.asdict r.crypto),
    (py "membership", optional OwnMembership.asdict r.membership),
    (py "route", optional .str r.route), (py "codec", optional .str r.codec)]

def encodeRecords (records : List SyncRecord) : Except ValueError Str :=
  encodeJson (.arr (records.map SyncRecord.carrier))

/-! ## Reading -/

inductive DecodeError where
  | codec (e : ValueError)
  | value (message : String)
  | type
  | key (name : String)
  deriving DecidableEq, Repr

/-- `value.get(key)` unless that is `None` -/
def field (kvs : List (Str × Json)) (key : String) : Option Json :=
  match dictGet? kvs (py key) with
  | none => none
  | some .null => none
  | some v => some v

/-- `Class(**kvs)` binds: every key is a parameter, and each required parameter has a value. -/
def binds (kvs : List (Str × Json)) (required optional : List String) : Bool :=
  kvs.all (fun p => p.1 ∈ (required ++ optional).map py) &&
    required.all fun k => (dictGet? kvs (py k)).isSome

/-- An optional field that has a decoder. -/
def decodeField {α : Type} (kvs : List (Str × Json)) (key : String)
    (decode : Json → Except DecodeError α) : Except DecodeError (Option α) :=
  match field kvs key with
  | none => .ok none
  | some v => (decode v).map some

/-- A field whose decoder also sees that it is missing. -/
def required {α : Type} (kvs : List (Str × Json)) (key : String)
    (decode : Json → Except DecodeError α) : Except DecodeError α :=
  decode ((dictGet? kvs (py key)).getD .null)

def decodeStr (message : String) : Json → Except DecodeError Str
  | .str s => .ok s
  | _ => .error (.value message)

def decodeBool (message : String) : Json → Except DecodeError Bool
  | .bool b => .ok b
  | _ => .error (.value message)

def decodeObj (message : String) : Json → Except DecodeError Json
  | .obj kvs => .ok (.obj kvs)
  | _ => .error (.value message)

/-- `_validate_epoch` -/
def validateEpoch : Json → Except DecodeError Nat
  | .int i =>
    if i < 0 then .error (.value "stored membership epoch must be a nonnegative integer")
    else .ok i.toNat
  | _ => .error (.value "stored membership epoch must be a nonnegative integer")

def decodeIdentity : Json → Except DecodeError AuthenticatedDevice
  | .obj kvs =>
    if binds kvs ["user_id", "device_id", "curve25519", "ed25519"] [] then
      match dictGet? kvs (py "user_id"), dictGet? kvs (py "device_id"),
          dictGet? kvs (py "curve25519"), dictGet? kvs (py "ed25519") with
      | some (.str u), some (.str d), some (.str c), some (.str e) =>
        if h : u ≠ [] ∧ d ≠ [] ∧ c ≠ [] ∧ e ≠ [] then .ok ⟨u, d, c, e, h⟩
        else .error (.value "authenticated device identity requires nonempty strings")
      | _, _, _, _ => .error (.value "authenticated device identity requires nonempty strings")
    else .error (.value "invalid stored crypto evidence")
  | _ => .error (.value "stored authenticated identity must be an object")

def decodeCrypto : Json → Except DecodeError CryptoEvidence
  | .obj kvs => do
    let verified ← decodeField kvs "verified"
      (decodeBool "stored verification must be boolean or null")
    let senderKey ← required kvs "sender_key" (decodeStr "stored sender key must be a string")
    let sessionId ← decodeField kvs "session_id"
      (decodeStr "stored session ID must be a string or null")
    let authenticatedSender ← decodeField kvs "authenticated_sender" decodeIdentity
    if binds kvs ["verified", "sender_key"] ["session_id", "authenticated_sender"] then
      .ok ⟨verified, senderKey, sessionId, authenticatedSender⟩
    else .error (.value "invalid stored crypto evidence")
  | _ => .error (.value "stored crypto evidence must be an object")

def decodeMembershipState : Json → Except DecodeError Membership
  | .str s =>
    match Membership.all.find? fun m => m.value = s with
    | some m => .ok m
    | none => .error (.value "invalid stored membership state")
  | _ => .error (.value "invalid stored membership state")

def decodeMembershipSource : Json → Except DecodeError MembershipSource
  | .str s =>
    if s = py "local" then .ok .local
    else if s = py "reported" then .ok .reported
    else .error (.value "invalid stored membership source")
  | _ => .error (.value "invalid stored membership source")

def decodeMembership : Json → Except DecodeError OwnMembership
  | .obj kvs => do
    let current ← required kvs "current" decodeMembershipState
    let previous ← decodeField kvs "previous" decodeMembershipState
    let source ← decodeMembershipSource ((dictGet? kvs (py "source")).getD (.str (py "reported")))
    let previousEpoch ← required kvs "previous_epoch" validateEpoch
    let currentEpoch ← required kvs "current_epoch" validateEpoch
    if binds kvs ["previous", "current", "previous_epoch", "current_epoch"] ["source"] then
      .ok ⟨previous, current, previousEpoch, currentEpoch, source⟩
    else .error (.value "invalid stored membership")
  | _ => .error (.value "stored membership must be an object")

def decodeKind : Option Json → Except DecodeError RecordKind
  | none => .error (.key "kind")
  | some (.str s) =>
    match RecordKind.all.find? fun k => k.value = s with
    | some k => .ok k
    | none => .error (.value "not a valid RecordKind")
  | some _ => .error (.value "not a valid RecordKind")

def decodeProvenance : Json → Except DecodeError Provenance
  | .str s =>
    match Provenance.all.find? fun p => p.value = s with
    | some p => .ok p
    | none => .error (.value "not a valid TimelineEventProvenance")
  | _ => .error (.value "not a valid TimelineEventProvenance")

def decodeRecord : Json → Except DecodeError SyncRecord
  | .obj kvs => do
    let source ← required kvs "source" (decodeObj "stored record requires an event object")
    let clear ← decodeField kvs "clear" (decodeObj "stored clear event must be an object")
    let roomId ← decodeField kvs "room_id" (decodeStr "stored room_id must be a string")
    let route ← decodeField kvs "route" (decodeStr "stored route must be a string")
    let codec ← decodeField kvs "codec" (decodeStr "stored codec must be a string")
    let kind ← decodeKind (dictGet? kvs (py "kind"))
    let provenance ← decodeField kvs "provenance" decodeProvenance
    let crypto ← decodeField kvs "crypto" decodeCrypto
    let membershipEpoch ← decodeField kvs "membership_epoch" validateEpoch
    let membership ← decodeField kvs "membership" decodeMembership
    if binds kvs ["kind", "room_id", "source"]
        ["clear", "provenance", "membership_epoch", "crypto", "membership", "route", "codec"] then
      .ok ⟨kind, roomId, source, clear, provenance, membershipEpoch, crypto, membership, route, codec⟩
    else .error .type
  | _ => .error (.value "stored record requires an event object")

def decodeEach : List Json → Except DecodeError (List SyncRecord)
  | [] => .ok []
  | v :: vs => do
    let r ← decodeRecord v
    let rs ← decodeEach vs
    return r :: rs

def decodeRecords (encoded : Str) : Except DecodeError (List SyncRecord) :=
  match loads encoded with
  | .error e => .error (.codec e)
  | .ok (.arr vs) => decodeEach vs
  | .ok _ => .error (.value "stored batch records must be an array")

/-! ## Reading back -/

/-- What the type annotations of a record promise and its decoder checks. -/
structure SyncRecord.WellTyped (r : SyncRecord) : Prop where
  source : r.source.isObj = true ∧ r.source.Distinct
  clear : ∀ e, r.clear = some e → e.isObj = true ∧ e.Distinct


theorem map_ok {ε α β : Type} (f : α → β) (a : α) :
    (Except.ok a : Except ε α).map f = .ok (f a) := rfl

theorem decodeMembershipState_value (m : Membership) :
    decodeMembershipState (.str m.value) = .ok m := by
  cases m <;> rfl

theorem decodeKind_value (k : RecordKind) : decodeKind (some (.str k.value)) = .ok k := by
  cases k <;> rfl

theorem decodeProvenance_value (p : Provenance) : decodeProvenance (.str p.value) = .ok p := by
  cases p <;> rfl

theorem decodeMembershipSource_value (m : MembershipSource) :
    decodeMembershipSource (.str m.value) = .ok m := by
  cases m <;> rfl

/-- An epoch that was written is accepted. -/
theorem validateEpoch_nat (e : Nat) : validateEpoch (.int e) = .ok e := by
  have h : ¬ ((e : Int) < 0) := by omega
  simp only [validateEpoch, if_neg h, Int.toNat_natCast]

/-- An optional field comes back through its decoder. -/
theorem decodeField_optional {α : Type} {kvs : List (Str × Json)} {key : String}
    {decode : Json → Except DecodeError α} {f : α → Json} {x : Option α}
    (hget : dictGet? kvs (py key) = some (optional f x))
    (h : ∀ a, x = some a → f a ≠ .null ∧ decode (f a) = .ok a) :
    decodeField kvs key decode = .ok x := by
  cases x with
  | none => simp only [decodeField, field, hget, optional]
  | some a =>
    obtain ⟨hne, hdec⟩ := h a rfl
    have hfield : field kvs key = some (f a) := by
      simp only [field, hget, optional]
    simp only [decodeField, hfield, hdec, map_ok]

/-- A required field is decoded from its value. -/
theorem required_of {α : Type} {kvs : List (Str × Json)} {key : String}
    {decode : Json → Except DecodeError α} {v : Json} {a : α} (hget : dictGet? kvs (py key) = some v)
    (h : decode v = .ok a) : required kvs key decode = .ok a := by
  rw [required, hget, Option.getD_some, h]

/-- A device identity is read back as it was written. -/
theorem decodeIdentity_asdict (d : AuthenticatedDevice) : decodeIdentity d.asdict = .ok d := by
  obtain ⟨u, i, c, e, h⟩ := d
  have hget : ∀ kvs, kvs = [(py "user_id", Json.str u), (py "device_id", .str i),
      (py "curve25519", .str c), (py "ed25519", .str e)] →
      dictGet? kvs (py "user_id") = some (.str u) ∧ dictGet? kvs (py "device_id") = some (.str i) ∧
      dictGet? kvs (py "curve25519") = some (.str c) ∧
      dictGet? kvs (py "ed25519") = some (.str e) ∧
      binds kvs ["user_id", "device_id", "curve25519", "ed25519"] [] = true := by
    rintro kvs rfl
    exact ⟨rfl, rfl, rfl, rfl, rfl⟩
  obtain ⟨h1, h2, h3, h4, h5⟩ := hget _ rfl
  simp only [AuthenticatedDevice.asdict, decodeIdentity, h5, if_true, h1, h2, h3, h4, dif_pos h]

/-- So is the evidence of a decryption, -/
theorem decodeCrypto_asdict (c : CryptoEvidence) : decodeCrypto c.asdict = .ok c := by
  obtain ⟨v, k, s, a⟩ := c
  simp only [CryptoEvidence.asdict, decodeCrypto]
  rw [decodeField_optional (f := .bool) (x := v) rfl fun _ _ => ⟨by simp, rfl⟩, ok_bind,
    required_of (a := k) rfl rfl, ok_bind,
    decodeField_optional (f := .str) (x := s) rfl fun _ _ => ⟨by simp, rfl⟩, ok_bind,
    decodeField_optional (f := AuthenticatedDevice.asdict) (x := a) rfl
      fun d _ => ⟨by simp [AuthenticatedDevice.asdict], decodeIdentity_asdict d⟩, ok_bind]
  rfl

/-- and so is a change of a membership. -/
theorem decodeMembership_asdict (m : OwnMembership) : decodeMembership m.asdict = .ok m := by
  obtain ⟨p, c, pe, ce, s⟩ := m
  simp only [OwnMembership.asdict, decodeMembership]
  rw [required_of rfl (decodeMembershipState_value c), ok_bind,
    decodeField_optional (f := fun p => .str p.value) (x := p) rfl
      fun p _ => ⟨by simp, decodeMembershipState_value p⟩, ok_bind,
    show dictGet? _ (py "source") = some (.str s.value) from rfl, Option.getD_some,
    decodeMembershipSource_value s, ok_bind, required_of rfl (validateEpoch_nat pe), ok_bind,
    required_of rfl (validateEpoch_nat ce), ok_bind]
  rfl

/-- A record is read back from its object. -/
theorem decodeRecord_carrier {r : SyncRecord} (h : r.WellTyped) :
    decodeRecord r.carrier = .ok r := by
  obtain ⟨kind, roomId, source, clear, prov, epoch, crypto, mem, route, codec⟩ := r
  have hobj : ∀ {message : String} {e : Json}, e.isObj = true → e ≠ .null ∧
      decodeObj message e = .ok e := by
    intro message e he
    cases e with
    | obj kvs => exact ⟨by simp, rfl⟩
    | _ => cases he
  simp only [SyncRecord.carrier, decodeRecord]
  rw [required_of rfl (hobj h.source.1).2, ok_bind,
    decodeField_optional (f := id) (x := clear) rfl fun e he => hobj (h.clear e he).1, ok_bind,
    decodeField_optional (f := .str) (x := roomId) rfl fun _ _ => ⟨by simp, rfl⟩, ok_bind,
    decodeField_optional (f := .str) (x := route) rfl fun _ _ => ⟨by simp, rfl⟩, ok_bind,
    decodeField_optional (f := .str) (x := codec) rfl fun _ _ => ⟨by simp, rfl⟩, ok_bind,
    show dictGet? _ (py "kind") = some (.str kind.value) from rfl, decodeKind_value kind, ok_bind,
    decodeField_optional (f := fun p => .str p.value) (x := prov) rfl
      fun p _ => ⟨by simp, decodeProvenance_value p⟩, ok_bind,
    decodeField_optional (f := CryptoEvidence.asdict) (x := crypto) rfl
      fun c _ => ⟨by simp [CryptoEvidence.asdict], decodeCrypto_asdict c⟩, ok_bind,
    decodeField_optional (f := fun e : Nat => .int e) (x := epoch) rfl
      fun e _ => ⟨by simp, validateEpoch_nat e⟩, ok_bind,
    decodeField_optional (f := OwnMembership.asdict) (x := mem) rfl
      fun m _ => ⟨by simp [OwnMembership.asdict], decodeMembership_asdict m⟩, ok_bind]
  rfl

/-- So are the records of a batch, in order. -/
theorem decodeEach_carrier {rs : List SyncRecord} (h : ∀ r ∈ rs, r.WellTyped) :
    decodeEach (rs.map SyncRecord.carrier) = .ok rs := by
  induction rs with
  | nil => rfl
  | cons r rs ih =>
    simp only [List.map_cons, decodeEach, decodeRecord_carrier (h r List.mem_cons_self), ok_bind,
      ih fun r' hr' => h r' (List.mem_cons_of_mem _ hr')]
    rfl

/-! ### The carrier repeats no key -/

/-- An optional field has distinct keys if its value has. -/
theorem distinct_optional {α : Type} {f : α → Json} {x : Option α}
    (h : ∀ a, x = some a → (f a).Distinct) :
    (optional f x).Distinct := by
  cases x with
  | none => rfl
  | some a => exact h a rfl

/-- An object of such values has distinct keys if its own are distinct. -/
theorem distinct_obj {kvs : List (Str × Json)} (hkeys : (kvs.map (·.1)).Nodup)
    (h : ∀ q ∈ kvs, q.2.Distinct) : (Json.obj kvs).Distinct := by
  simp only [Json.Distinct, Json.all, Json.nodeDistinct, Bool.and_eq_true, decide_eq_true_eq]
  exact ⟨hkeys, Json.allPairs_iff.mpr h⟩

theorem distinct_identity (d : AuthenticatedDevice) : d.asdict.Distinct := by
  refine distinct_obj ?_ ?_
  · show List.Nodup [py "user_id", py "device_id", py "curve25519", py "ed25519"]
    decide
  · simp only [List.forall_mem_cons]
    exact ⟨rfl, rfl, rfl, rfl, by simp⟩

theorem distinct_crypto (c : CryptoEvidence) : c.asdict.Distinct := by
  refine distinct_obj ?_ ?_
  · show List.Nodup [py "verified", py "sender_key", py "session_id", py "authenticated_sender"]
    decide
  · simp only [List.forall_mem_cons]
    exact ⟨distinct_optional fun _ _ => rfl, rfl, distinct_optional fun _ _ => rfl,
      distinct_optional fun d _ => distinct_identity d, by simp⟩

theorem distinct_membership (m : OwnMembership) : m.asdict.Distinct := by
  refine distinct_obj ?_ ?_
  · show List.Nodup [py "previous", py "current", py "previous_epoch", py "current_epoch",
      py "source"]
    decide
  · simp only [List.forall_mem_cons]
    exact ⟨distinct_optional fun _ _ => rfl, rfl, rfl, rfl, rfl, by simp⟩

/-- The object of a record has distinct keys throughout. -/
theorem distinct_carrier {r : SyncRecord} (h : r.WellTyped) : r.carrier.Distinct := by
  refine distinct_obj ?_ ?_
  · show List.Nodup [py "kind", py "room_id", py "source", py "clear", py "provenance",
      py "membership_epoch", py "crypto", py "membership", py "route", py "codec"]
    decide
  · simp only [List.forall_mem_cons]
    exact ⟨rfl, distinct_optional fun _ _ => rfl, h.source.2, distinct_optional fun e he => (h.clear e he).2,
      distinct_optional fun _ _ => rfl, distinct_optional fun _ _ => rfl,
      distinct_optional fun c _ => distinct_crypto c,
      distinct_optional fun m _ => distinct_membership m,
      distinct_optional fun _ _ => rfl, distinct_optional fun _ _ => rfl, by simp⟩

theorem distinct_arr {vs : List Json} (h : ∀ v ∈ vs, v.Distinct) : (Json.arr vs).Distinct := by
  simp only [Json.Distinct, Json.all, Json.nodeDistinct, Bool.true_and]
  exact Json.allItems_iff.mpr h

/-- A batch that was stored, and so could be encoded, is read back as it was published. -/
theorem decodeRecords_encodeRecords {records : List SyncRecord}
    (h : ∀ r ∈ records, r.WellTyped) {t : Str} (henc : encodeRecords records = .ok t)
    (ht : t.Encodable) : decodeRecords t = .ok records := by
  have hd : (Json.arr (records.map SyncRecord.carrier)).Distinct := by
    refine distinct_arr fun v hv => ?_
    obtain ⟨r, hr, rfl⟩ := List.mem_map.mp hv
    exact distinct_carrier (h r hr)
  have hclean := (encodable_iff_clean ⟨rfl, rfl⟩ henc).mp ht
  rw [decodeRecords, loads_dumps hd hclean henc]
  exact decodeEach_carrier h

end Nio.Durable
