import Nio.Events.Misc
import Nio.Lib.Run
import Nio.Lib.Table
import Nio.Store.Database

/-!
# Key queries

`Olm._handle_key_query` brings the device store up to date with the answer to a key query and saves
the devices that changed. The devices of a user are added, renamed, given another key, rotated and
deleted; a device is never removed.
-/

namespace Nio.Crypto

open Nio.Py
open Nio.Lib
open Nio.Events (PyError)
open Nio.Store (TrustState Mark)

/-- The identity keys of a device -/
structure Keys where
  ed25519 : Str
  curve25519 : Str
  deriving DecidableEq, Repr

structure OlmDevice where
  userId : Str
  deviceId : Str
  keys : Keys
  /-- The schema does not look at names, so a name can be any value. -/
  displayName : Json
  deleted : Bool
  trustState : TrustState

def OlmDevice.key (d : OlmDevice) : Str × Str := (d.userId, d.deviceId)

/-- The devices of a user that are not deleted -/
def activeUserDevices (deviceStore : List OlmDevice) (userId : Str) : List OlmDevice :=
  deviceStore.filter fun d => d.userId = userId ∧ d.deleted = false

def deviceFromSenderKey (deviceStore : List OlmDevice) (userId senderKey : Str) :
    Option OlmDevice :=
  (activeUserDevices deviceStore userId).find? fun d => d.keys.curve25519 = senderKey

/-- The device that is found is a device of the user that is not deleted and has this key. -/
theorem deviceFromSenderKey_spec {deviceStore : List OlmDevice} {userId senderKey : Str}
    {d : OlmDevice} (h : deviceFromSenderKey deviceStore userId senderKey = some d) :
    d ∈ deviceStore ∧ d.userId = userId ∧ d.deleted = false ∧ d.keys.curve25519 = senderKey := by
  unfold deviceFromSenderKey at h
  have hcurve : decide (d.keys.curve25519 = senderKey) = true := by simpa using List.find?_some h
  obtain ⟨hmem, hactive⟩ := List.mem_filter.mp (List.mem_of_find?_eq_some h)
  obtain ⟨huser, hdeleted⟩ := of_decide_eq_true hactive
  exact ⟨hmem, huser, hdeleted, of_decide_eq_true hcurve⟩

/-- A row of `devicekeys` of the store's account, with its rows of `keys` and `devicetruststate` -/
structure DeviceKeys where
  userId : Str
  deviceId : Str
  displayName : Str
  deleted : Bool
  keys : Keys
  trustState : Option TrustState
  deriving DecidableEq, Repr

def DeviceKeys.key (d : DeviceKeys) : Str × Str := (d.userId, d.deviceId)

/-- What a response says of a device; the schema gives the fields their types. -/
structure DevicePayload where
  /-- The schema does not ask for it. -/
  userId : Option Str
  deviceId : Str
  keys : List (Str × Str)
  unsigned : Option Json
  signatures : Option (List (Str × List (Str × Str)))
  /-- The payload without its signatures and what is not signed -/
  signed : Json

structure KeysQueryResponse where
  deviceKeys : List (Str × List (Str × DevicePayload))
  queriedUsers : Option (List Str)
  users_nodup : (deviceKeys.map (·.1)).Nodup
  devices_nodup : ∀ p ∈ deviceKeys, (p.2.map (·.1)).Nodup

/-- The configuration of `Olm`, its library and `str` of a value that is no string -/
structure KeyQueryEnv where
  userId : Str
  deviceId : Str
  replaceRotatedDeviceKeys : Bool
  /-- `verify_signature`, `false` for an exception that `verify_json` catches -/
  verifySignature : Str → Json → Str → Except PyError Bool
  text : Json → Str

structure DeviceKeeper where
  deviceStore : List OlmDevice
  deviceKeys : List DeviceKeys
  usersForKeyQuery : List Str
  trackedUsers : List Str
  /-- Ghost: the devices of the store that were given another name -/
  renamed : List (Str × Str)

def DeviceKeeper.fresh : DeviceKeeper := ⟨[], [], [], [], []⟩

/-! ## The database -/

/-- `display_name` as the database has it; there is no row with a null name. -/
def nameText (env : KeyQueryEnv) : Json → Option Str
  | .null => none
  | .str s => some s
  | v => some (env.text v)

def insertDevice (env : KeyQueryEnv) (rows : List DeviceKeys) (d : OlmDevice) : List DeviceKeys :=
  match nameText env d.displayName with
  | none => rows
  | some name =>
    insertIgnore DeviceKeys.key ⟨d.userId, d.deviceId, name, d.deleted, d.keys, none⟩ rows

def DeviceKeys.update (d : OlmDevice) (row : DeviceKeys) : DeviceKeys :=
  { row with deleted := d.deleted, keys := d.keys }

/-- The driver takes no string that UTF-8 cannot encode. -/
def Insertable (env : KeyQueryEnv) (d : OlmDevice) : Prop :=
  d.userId.Encodable ∧ d.deviceId.Encodable ∧ ∀ name, nameText env d.displayName = some name →
    name.Encodable

instance (env : KeyQueryEnv) (d : OlmDevice) : Decidable (Insertable env d) :=
  decidable_of_iff (d.userId.Encodable ∧ d.deviceId.Encodable ∧
    ∀ name ∈ (nameText env d.displayName).toList, name.Encodable) (by simp [Insertable])

/-- `DeviceKeys.get` raises for a device without a row. -/
def updateDevice (rows : List DeviceKeys) (d : OlmDevice) : Except PyError (List DeviceKeys) :=
  match lookup DeviceKeys.key d.key rows with
  | none => .error .protocol
  | some _ =>
    if d.keys.ed25519.Encodable ∧ d.keys.curve25519.Encodable then
      .ok (updateWhere DeviceKeys.key d.key (DeviceKeys.update d) rows)
    else .error .value

/-- All rows are inserted, each unless there is one, and then brought up to date. -/
def saveDeviceKeys (env : KeyQueryEnv) (rows : List DeviceKeys) (devices : List OlmDevice) :
    Except PyError (List DeviceKeys) :=
  if ∀ d ∈ devices, Insertable env d then
    devices.foldlM updateDevice (devices.foldl (insertDevice env) rows)
  else .error .value

def DeviceKeys.toDevice (row : DeviceKeys) : OlmDevice :=
  ⟨row.userId, row.deviceId, row.keys, .str row.displayName, row.deleted,
    row.trustState.getD .unset⟩

def DeviceKeys.setTrust (t : TrustState) (row : DeviceKeys) : DeviceKeys :=
  { row with trustState := some t }

/-- `is_device_verified`, `is_device_blacklisted` and `is_device_ignored` of `SqliteStore` -/
def isMarked (rows : List DeviceKeys) (m : Mark) (d : OlmDevice) : Bool :=
  (lookup DeviceKeys.key d.key rows).any fun row => row.trustState = some m.state

/-- A mark is set or removed in the row and in the device object. -/
def assignTrust (rows : List DeviceKeys) (d : OlmDevice) (t : TrustState) :
    Except PyError (List DeviceKeys × OlmDevice) :=
  match lookup DeviceKeys.key d.key rows with
  | none => .error .assertion
  | some _ => .ok (updateWhere DeviceKeys.key d.key (DeviceKeys.setTrust t) rows,
      { d with trustState := t })

/-- The body of `verify_device`, `blacklist_device` and `ignore_device` -/
def markDevice (rows : List DeviceKeys) (m : Mark) (d : OlmDevice) :
    Except PyError (List DeviceKeys × OlmDevice) :=
  if isMarked rows m d then .ok (rows, d) else assignTrust rows d m.state

/-- The body of `unverify_device`, `unblacklist_device` and `unignore_device` -/
def unmarkDevice (rows : List DeviceKeys) (m : Mark) (d : OlmDevice) :
    Except PyError (List DeviceKeys × OlmDevice) :=
  if isMarked rows m d then assignTrust rows d .unset else .ok (rows, d)

/-! ## Payloads -/

/-- `verify_json`; what it takes out of the payload it puts back. -/
def verifyJson (env : KeyQueryEnv) (p : DevicePayload) (userKey userId deviceId : Str) :
    Except PyError Bool :=
  match p.signatures with
  | none => .ok false
  | some signatures =>
    match (dictGet? signatures userId).bind (dictGet? · (py "ed25519:" ++ deviceId)) with
    | none => .ok false
    | some signature => env.verifySignature userKey p.signed signature

/-- `payload["unsigned"].get("device_display_name", "")` -/
def payloadName (p : DevicePayload) : Except PyError Json :=
  match p.unsigned with
  | none => .ok (.str [])
  | some (.obj kvs) => .ok ((dictGet? kvs (py "device_display_name")).getD (.str []))
  | some _ => .error .attribute

/-- The user id and the device id of a payload are those under which it stands. -/
def payloadMatches (p : DevicePayload) (userId deviceId : Str) : Except PyError Bool :=
  match p.userId with
  | none => .error .key
  | some u => .ok (u = userId ∧ p.deviceId = deviceId)

def payloadKeys (p : DevicePayload) (deviceId : Str) : Option Keys :=
  match dictGet? p.keys (py "ed25519:" ++ deviceId), dictGet? p.keys (py "curve25519:" ++ deviceId) with
  | some ed25519, some curve25519 => some ⟨ed25519, curve25519⟩
  | _, _ => none

/-- The keys and the name of a payload that is not refused -/
def acceptPayload (env : KeyQueryEnv) (userId deviceId : Str) (p : DevicePayload) :
    Except PyError (Option (Keys × Json)) := do
  if !(← payloadMatches p userId deviceId) then return none
  else
    match payloadKeys p deviceId with
    | none => return none
    | some keys =>
      let name ← payloadName p
      if ← verifyJson env p keys.ed25519 userId deviceId then return some (keys, name)
      else return none

/-! ## Devices -/

/-- Earned trust is taken back while the device still has its old identity. -/
def dropEarnedTrust (rows : List DeviceKeys) (d : OlmDevice) :
    Except PyError (List DeviceKeys × OlmDevice) :=
  match d.trustState with
  | .verified => unmarkDevice rows .verified d
  | .ignored => unmarkDevice rows .ignored d
  | _ => .ok (rows, d)

/-- A device that re-uploaded a fresh identity; a blacklist entry survives. -/
def rotateDevice (rows : List DeviceKeys) (d : OlmDevice) (keys : Keys) (name : Json) :
    Except PyError (List DeviceKeys × OlmDevice) := do
  let (rows, d) ← dropEarnedTrust rows d
  let d := { d with keys, displayName := name, deleted := false }
  if d.trustState = .blacklisted then markDevice rows .blacklisted d
  else return (rows, { d with trustState := .unset })

/-- A known device, with the rows; `none` when nothing changes -/
def refreshDevice (env : KeyQueryEnv) (rows : List DeviceKeys) (d : OlmDevice) (keys : Keys)
    (name : Json) : Except PyError (Option (List DeviceKeys × OlmDevice)) :=
  if d.keys.ed25519 ≠ keys.ed25519 then
    if env.replaceRotatedDeviceKeys then (rotateDevice rows d keys name).map some else .ok none
  else if d.keys.curve25519 = keys.curve25519 ∧ d.displayName = name then .ok none
  else if d.keys.curve25519 ≠ keys.curve25519 then
    .ok (some (rows, { d with keys := ⟨d.keys.ed25519, keys.curve25519⟩ }))
  else .ok (some (rows, { d with displayName := name }))

/-- The state of the loops: the keeper, and the devices of `changed` -/
abbrev KeyQueryWork := DeviceKeeper × List (Str × Str)

/-- A device object that changed -/
def putDevice (w : KeyQueryWork) (rows : List DeviceKeys) (d : OlmDevice) (renamed : Bool) :
    KeyQueryWork :=
  let keeper := w.1
  ({ keeper with
      deviceStore := upsert OlmDevice.key d keeper.deviceStore
      deviceKeys := rows
      renamed := if renamed then d.key :: keeper.renamed else keeper.renamed }, d.key :: w.2)

def handleDevice (env : KeyQueryEnv) (userId : Str) (w : KeyQueryWork)
    (p : Str × DevicePayload) : Except PyError KeyQueryWork :=
  let (deviceId, payload) := p
  if userId = env.userId ∧ deviceId = env.deviceId then .ok w
  else do
    match ← acceptPayload env userId deviceId payload with
    | none => return w
    | some (keys, name) =>
      match lookup OlmDevice.key (userId, deviceId) w.1.deviceStore with
      | none =>
        return putDevice w w.1.deviceKeys ⟨userId, deviceId, keys, name, false, .unset⟩ false
      | some d =>
        match ← refreshDevice env w.1.deviceKeys d keys name with
        | none => return w
        | some (rows, d') => return putDevice w rows d' (d'.displayName ≠ d.displayName)

/-- `stored_devices - current_devices` -/
def isDropped (userId : Str) (current : List Str) (d : OlmDevice) : Bool :=
  d.userId = userId ∧ d.deleted = false ∧ d.deviceId ∉ current

def dropDevice (userId : Str) (current : List Str) (d : OlmDevice) : OlmDevice :=
  if isDropped userId current d then { d with deleted := true } else d

def dropDevices (userId : Str) (current : List Str) (w : KeyQueryWork) : KeyQueryWork :=
  let dropped := w.1.deviceStore.filter (isDropped userId current)
  ({ w.1 with deviceStore := w.1.deviceStore.map (dropDevice userId current) },
    dropped.map OlmDevice.key ++ w.2)

def handleUser (env : KeyQueryEnv) (queriedUsers : Option (List Str)) (w : KeyQueryWork)
    (p : Str × List (Str × DevicePayload)) : Except PyError KeyQueryWork := do
  let (userId, devices) := p
  let keeper := w.1
  let keeper := { keeper with
    usersForKeyQuery :=
      if queriedUsers.isNone then keeper.usersForKeyQuery.filter (· ≠ userId)
      else keeper.usersForKeyQuery
    trackedUsers := userId :: keeper.trackedUsers }
  let w ← devices.foldlM (handleDevice env userId) (keeper, w.2)
  return dropDevices userId (devices.map (·.1)) w

/-- The objects of `changed`, as they are when they are saved -/
def changedDevices (w : KeyQueryWork) : List OlmDevice :=
  w.2.filterMap fun k => lookup OlmDevice.key k w.1.deviceStore

/-- `_handle_key_query`, with the devices of `response.changed` -/
def handleKeyQuery (env : KeyQueryEnv) (keeper : DeviceKeeper) (response : KeysQueryResponse) :
    Except PyError (DeviceKeeper × List (Str × Str)) := do
  let w ← response.deviceKeys.foldlM (handleUser env response.queriedUsers) (keeper, [])
  let rows ← saveDeviceKeys env w.1.deviceKeys (changedDevices w)
  return ({ w.1 with deviceKeys := rows }, w.2)

/-! ## Runs -/

/-- A device of the store is marked, or a mark is taken back. -/
def changeTrust (change : List DeviceKeys → OlmDevice → Except PyError (List DeviceKeys × OlmDevice))
    (keeper : DeviceKeeper) (userId deviceId : Str) : Except PyError DeviceKeeper :=
  match lookup OlmDevice.key (userId, deviceId) keeper.deviceStore with
  | none => .error .key
  | some d => do
    let (rows, d) ← change keeper.deviceKeys d
    return { keeper with deviceStore := upsert OlmDevice.key d keeper.deviceStore, deviceKeys := rows }

inductive KeyQueryAction where
  | query (response : KeysQueryResponse)
  | mark (m : Mark) (userId deviceId : Str)
  | unmark (m : Mark) (userId deviceId : Str)

def DeviceKeeper.step (env : KeyQueryEnv) (keeper : DeviceKeeper) :
    KeyQueryAction → Except PyError DeviceKeeper
  | .query response => (handleKeyQuery env keeper response).map (·.1)
  | .mark m userId deviceId => changeTrust (fun rows d => markDevice rows m d) keeper userId deviceId
  | .unmark m userId deviceId =>
    changeTrust (fun rows d => unmarkDevice rows m d) keeper userId deviceId

end Nio.Crypto
