import Nio.Store.FileTrustdb

/-!
# Trust operations of the two matrix stores

`DefaultStore` keeps one key list for each of the three marks a device can carry, `SqliteStore`
one row for each device. Both also write the `trust_state` of the device object they were given;
an operation that raises leaves behind what it did before it raised, except that `SqliteStore`
runs in a transaction and so leaves nothing.

The methods come in families of three that differ in the mark alone: `mark` and `unmark` are the
common body, and each method is that body at its own mark.
-/

namespace Nio.Store

open Nio.Py (Str py)

inductive TrustState where
  | unset
  | verified
  | blacklisted
  | ignored
  deriving DecidableEq, Repr

/-- The trust states that a store records. -/
inductive Mark where
  | verified
  | blacklisted
  | ignored
  deriving DecidableEq, Repr

def Mark.state : Mark → TrustState
  | .verified => .verified
  | .blacklisted => .blacklisted
  | .ignored => .ignored

theorem Mark.state_ne_unset (m : Mark) : m.state ≠ .unset := by
  cases m <;> decide

/-- A mark is told by its trust state. -/
theorem Mark.state_inj {m m' : Mark} : m.state = m'.state ↔ m = m' := by
  cases m <;> cases m' <;> decide

/-- A trust state is unset or that of a mark. -/
theorem Mark.eq_unset_or_state (t : TrustState) : t = .unset ∨ ∃ m : Mark, t = m.state := by
  cases t with
  | unset => exact Or.inl rfl
  | verified => exact Or.inr ⟨.verified, rfl⟩
  | blacklisted => exact Or.inr ⟨.blacklisted, rfl⟩
  | ignored => exact Or.inr ⟨.ignored, rfl⟩

/-- The `trust_state` attribute of the device objects. -/
abbrev TrustStates := OlmDevice → TrustState

/-- The attribute after an assignment to each of the devices. -/
def TrustStates.assign (ts : TrustStates) (devices : List OlmDevice) (t : TrustState) :
    TrustStates :=
  fun d => if d ∈ devices then t else ts d

/-! ## `DefaultStore` -/

structure DefaultStore where
  trustDb : KeyStore
  blacklistDb : KeyStore
  ignoreDb : KeyStore
  trustState : TrustStates

namespace DefaultStore

/-- A store without key files, and devices that no operation has touched. -/
def fresh : DefaultStore := ⟨.empty, .empty, .empty, fun _ => .unset⟩

/-- The key list of one mark. -/
def db (s : DefaultStore) : Mark → KeyStore
  | .verified => s.trustDb
  | .blacklisted => s.blacklistDb
  | .ignored => s.ignoreDb

def setDb (s : DefaultStore) (m : Mark) (k : KeyStore) : DefaultStore :=
  match m with
  | .verified => { s with trustDb := k }
  | .blacklisted => { s with blacklistDb := k }
  | .ignored => { s with ignoreDb := k }

/-- A file is written without a change of the others. -/
theorem db_setDb (s : DefaultStore) (m n : Mark) (k : KeyStore) :
    (s.setDb m k).db n = if m = n then k else s.db n := by
  cases m <;> cases n <;> rfl

@[simp] theorem trustState_setDb (s : DefaultStore) (m : Mark) (k : KeyStore) :
    (s.setDb m k).trustState = s.trustState := by
  cases m <;> rfl

/-- The body of `verify_device`, `blacklist_device` and `ignore_device`: the key leaves the lists
of the other two marks, in the order of the source, and is then added. -/
def mark (s : DefaultStore) (m first second : Mark) (device : OlmDevice) :
    DefaultStore × Except OlmTrustError Bool :=
  let key := Key.fromOlmdevice device
  let s := s.setDb first ((s.db first).remove key).1
  let s := s.setDb second ((s.db second).remove key).1
  let s := { s with trustState := s.trustState.assign [device] m.state }
  let (k, r) := (s.db m).add key
  (s.setDb m k, r)

/-- The body of `unverify_device`, `unblacklist_device` and `unignore_device`. -/
def unmark (s : DefaultStore) (m : Mark) (device : OlmDevice) : DefaultStore × Bool :=
  let (k, removed) := (s.db m).remove (Key.fromOlmdevice device)
  let s := s.setDb m k
  if removed then ({ s with trustState := s.trustState.assign [device] .unset }, true)
  else (s, false)

def blacklistDevice (s : DefaultStore) := s.mark .blacklisted .verified .ignored
def unblacklistDevice (s : DefaultStore) := s.unmark .blacklisted
def verifyDevice (s : DefaultStore) := s.mark .verified .blacklisted .ignored
def unverifyDevice (s : DefaultStore) := s.unmark .verified
def ignoreDevice (s : DefaultStore) := s.mark .ignored .blacklisted .verified
def unignoreDevice (s : DefaultStore) := s.unmark .ignored

def isDeviceVerified (s : DefaultStore) (device : OlmDevice) : Bool :=
  Key.fromOlmdevice device ∈ s.trustDb

def isDeviceBlacklisted (s : DefaultStore) (device : OlmDevice) : Bool :=
  Key.fromOlmdevice device ∈ s.blacklistDb

def isDeviceIgnored (s : DefaultStore) (device : OlmDevice) : Bool :=
  Key.fromOlmdevice device ∈ s.ignoreDb

def ignoreDevices (s : DefaultStore) (devices : List OlmDevice) :
    DefaultStore × Except OlmTrustError Unit :=
  let keys := devices.map Key.fromOlmdevice
  let s := { s with blacklistDb := s.blacklistDb.removeMany keys }
  let s := { s with trustDb := s.trustDb.removeMany keys }
  match s.ignoreDb.addMany keys with
  | (k, .error e) => ({ s with ignoreDb := k }, .error e)
  | (k, .ok _) =>
    ({ s with ignoreDb := k, trustState := s.trustState.assign devices .ignored }, .ok ())

end DefaultStore

/-! ## `SqliteStore` -/

/-- `values[idx : idx + n] for idx in range(0, len(values), n)` -/
def chunks {α : Type} (n : Nat) (values : List α) : List (List α) :=
  (List.range ((values.length + n - 1) / n)).map fun i => (values.drop (i * n)).take n

/-- A row of the table `devicekeys`. -/
structure DeviceKeys where
  id : Nat
  userId : Str
  deviceId : Str
  account : Nat
  deriving DecidableEq, Repr

/-- The table `devicekeys` with its primary key and its unique constraint. -/
structure DeviceKeysTable where
  rows : List DeviceKeys
  id_nodup : (rows.map (·.id)).Nodup
  unique : (rows.map fun r => (r.account, r.userId, r.deviceId)).Nodup

inductive AssertionError where
  | mk
  deriving DecidableEq, Repr

structure SqliteStore where
  /-- `sqlite3.sqlite_version_info >= (3, 15, 2)` -/
  rowValues : Bool
  /-- The row id of the store's own account, `_get_account`. -/
  account : Option Nat
  deviceKeys : DeviceKeysTable
  /-- The table `devicetruststate`, whose primary key is the device. -/
  deviceTrustState : List (Nat × TrustState)
  trustState : TrustStates

namespace SqliteStore

/-- A store whose devices are known and carry no mark. -/
def fresh (rowValues : Bool) (account : Option Nat) (deviceKeys : DeviceKeysTable) : SqliteStore :=
  ⟨rowValues, account, deviceKeys, [], fun _ => .unset⟩

def getDevice (s : SqliteStore) (device : OlmDevice) : Option DeviceKeys :=
  match s.account with
  | none => none
  | some acc => s.deviceKeys.rows.find? fun r =>
      r.userId = device.userId ∧ r.deviceId = device.deviceId ∧ r.account = acc

/-- `INSERT OR REPLACE` into `devicetruststate` -/
def replace (rows : List (Nat × TrustState)) (device : Nat) (state : TrustState) :
    List (Nat × TrustState) :=
  rows.filter (fun r => r.1 ≠ device) ++ [(device, state)]

/-- `d.trust_state[0].state`, with `none` for the `IndexError`. -/
def rowState (rows : List (Nat × TrustState)) (device : Nat) : Option TrustState :=
  (rows.find? fun r => r.1 = device).map (·.2)

/-- The body of `is_device_verified`, `is_device_blacklisted` and `is_device_ignored`. -/
def isMarked (s : SqliteStore) (m : Mark) (device : OlmDevice) : Bool :=
  match s.getDevice device with
  | none => false
  | some d =>
    match rowState s.deviceTrustState d.id with
    | none => false
    | some trustState => trustState = m.state

/-- The body of `verify_device`, `blacklist_device` and `ignore_device`. -/
def mark (s : SqliteStore) (m : Mark) (device : OlmDevice) :
    SqliteStore × Except AssertionError Bool :=
  if s.isMarked m device then (s, .ok false)
  else
    match s.getDevice device with
    | none => (s, .error .mk)
    | some d =>
      ({ s with
          deviceTrustState := replace s.deviceTrustState d.id m.state
          trustState := s.trustState.assign [device] m.state }, .ok true)

/-- The body of `unverify_device`, `unblacklist_device` and `unignore_device`. -/
def unmark (s : SqliteStore) (m : Mark) (device : OlmDevice) :
    SqliteStore × Except AssertionError Bool :=
  if s.isMarked m device then
    match s.getDevice device with
    | none => (s, .error .mk)
    | some d =>
      ({ s with
          deviceTrustState := replace s.deviceTrustState d.id .unset
          trustState := s.trustState.assign [device] .unset }, .ok true)
  else (s, .ok false)

def verifyDevice (s : SqliteStore) := s.mark .verified
def unverifyDevice (s : SqliteStore) := s.unmark .verified
def isDeviceVerified (s : SqliteStore) := s.isMarked .verified
def blacklistDevice (s : SqliteStore) := s.mark .blacklisted
def unblacklistDevice (s : SqliteStore) := s.unmark .blacklisted
def isDeviceBlacklisted (s : SqliteStore) := s.isMarked .blacklisted
def ignoreDevice (s : SqliteStore) := s.mark .ignored
def unignoreDevice (s : SqliteStore) := s.unmark .ignored
def isDeviceIgnored (s : SqliteStore) := s.isMarked .ignored

/-- One query per device; a device without a row fails the assertion. -/
def legacyGetDeviceIds (s : SqliteStore) (account : Nat) :
    List OlmDevice → Except AssertionError (List Nat)
  | [] => .ok []
  | device :: devices =>
    match s.deviceKeys.rows.find? fun r =>
        r.account = account ∧ r.userId = device.userId ∧ r.deviceId = device.deviceId with
    | none => .error .mk
    | some d => do return d.id :: (← s.legacyGetDeviceIds account devices)

/-- One query for 150 devices at a time: the rows whose ids are among the values. -/
def getDeviceIds (s : SqliteStore) (account : Nat) (devices : List OlmDevice) : List Nat :=
  (chunks 150 (devices.map fun d => (d.userId, d.deviceId))).flatMap fun data =>
    (s.deviceKeys.rows.filter fun r => r.account = account ∧ (r.userId, r.deviceId) ∈ data).map
      (·.id)

/-- `replace_many` of the given devices, 100 rows at a time -/
def replaceMany (rows : List (Nat × TrustState)) (deviceIds : List Nat) : List (Nat × TrustState) :=
  (chunks 100 deviceIds).foldl
    (fun rows trustData => trustData.foldl (fun rows id => replace rows id .ignored) rows) rows

def ignoreDevices (s : SqliteStore) (devices : List OlmDevice) :
    SqliteStore × Except AssertionError Unit :=
  match s.account with
  | none => (s, .ok ())
  | some acc =>
    match if s.rowValues then .ok (s.getDeviceIds acc devices)
        else s.legacyGetDeviceIds acc devices with
    | .error e => (s, .error e)
    | .ok deviceIds =>
      if deviceIds.length = devices.length then
        ({ s with
            deviceTrustState := replaceMany s.deviceTrustState deviceIds
            trustState := s.trustState.assign devices .ignored }, .ok ())
      else (s, .error .mk)

end SqliteStore

end Nio.Store
