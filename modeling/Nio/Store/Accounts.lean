import Nio.Crypto.ForwardedKeys
import Nio.Store.TrustRefinement

/-!
# The tables of a matrix store

One database holds the rows of every account whose store was opened on it. Each operation finds the
row of its own account by user id and device id, and the rows of the other tables refer to it.

* `Database` — the tables, with the unique constraints that the device rows need
* `step` — one operation of the store of an account; one that raises is rolled back
* `loads` — what the `load_*` methods of an account return
-/

namespace Nio.Store

open Nio.Py (Str py)
open Nio.Lib
open Nio.Crypto (Vodozemac InboundGroupSession MegolmInboundSessions ForwardedChains
  OutgoingKeyRequest OutgoingKeyRequests)

variable {ρ : Type}

/-! ## Rows -/

/-- The user id and the device id of a store -/
abbrev Owner := Str × Str

/-- A row of `accounts`, where user id and device id are unique together -/
structure Accounts where
  id : Nat
  owner : Owner
  shared : Bool
  account : List UInt8
  deriving DecidableEq, Repr

/-- A row of `olmsessions` -/
structure OlmSessions where
  creationTime : Nat
  lastUsageDate : Nat
  senderKey : Str
  account : Nat
  session : List UInt8
  /-- The primary key -/
  sessionId : Str
  deriving DecidableEq, Repr

/-- A row of `devicekeys` with the columns that trust does not read -/
structure DeviceRow extends DeviceKeys where
  displayName : Str
  deleted : Bool
  deriving DecidableEq, Repr

/-- The columns of the unique constraint -/
def DeviceRow.key (r : DeviceRow) : Nat × Str × Str := (r.account, r.userId, r.deviceId)

structure DeviceTable where
  rows : List DeviceRow
  id_nodup : (rows.map fun r => r.id).Nodup
  unique : (rows.map DeviceRow.key).Nodup

/-- A row of `keys` -/
structure Keys where
  keyType : Str
  key : Str
  device : Nat
  deriving DecidableEq, Repr

/-- The columns of the unique constraint -/
def Keys.unique (k : Keys) : Nat × Str := (k.device, k.keyType)

/-- A row of `encryptedrooms`, where room id and account are unique together -/
structure EncryptedRooms where
  roomId : Str
  account : Nat
  deriving DecidableEq, Repr

/-- A row of `synctokens`, where the account is unique -/
structure SyncTokens where
  token : Str
  account : Nat
  deriving DecidableEq, Repr

structure Database where
  accounts : List Accounts
  olmSessions : List OlmSessions
  megolmInboundSessions : List MegolmInboundSessions
  forwardedChains : List ForwardedChains
  deviceKeys : DeviceTable
  keys : List Keys
  deviceTrustState : List (Nat × TrustState)
  encryptedRooms : List EncryptedRooms
  outgoingKeyRequests : List OutgoingKeyRequests
  syncTokens : List SyncTokens

def Database.empty : Database :=
  ⟨[], [], [], [], ⟨[], List.nodup_nil, List.nodup_nil⟩, [], [], [], [], []⟩

/-! ## What is saved -/

/-- An Olm session, with the bytes that it pickles to -/
structure Session where
  id : Str
  pickle : List UInt8
  creationTime : Nat
  useTime : Nat
  deriving DecidableEq, Repr

/-- A device under its user id and device id, with its dictionary of keys -/
structure SavedDevice where
  userId : Str
  deviceId : Str
  displayName : Str
  deleted : Bool
  keys : List (Str × Str)
  keys_nodup : (keys.map (·.1)).Nodup
  deriving DecidableEq, Repr

def SavedDevice.key (d : SavedDevice) : Str × Str := (d.userId, d.deviceId)

/-- A dictionary of dictionaries of devices -/
structure SavedDevices where
  devices : List SavedDevice
  nodup : (devices.map SavedDevice.key).Nodup

inductive StoreOp (ρ : Type) where
  | saveAccount (account : List UInt8) (shared : Bool)
  | saveSession (curveKey : Str) (session : Session)
  | saveInboundGroupSession (session : InboundGroupSession ρ)
  | saveDeviceKeys (devices : SavedDevices)
  | saveEncryptedRooms (rooms : List Str)
  | deleteEncryptedRoom (room : Str)
  | addOutgoingKeyRequest (keyRequest : OutgoingKeyRequest)
  | removeOutgoingKeyRequest (keyRequest : OutgoingKeyRequest)
  | saveSyncToken (token : Str)
  | trust (op : TrustOp)

inductive StoreError where
  | assertion
  | doesNotExist
  deriving DecidableEq, Repr

/-- The libraries: `SELECT` without an order gives any of the rows that it finds. -/
structure StoreEnv (ρ : Type) where
  lib : Vodozemac ρ
  /-- `sqlite3.sqlite_version_info >= (3, 15, 2)` -/
  rowValues : Bool
  getOrNone : List EncryptedRooms → Option EncryptedRooms
  mem_of_getOrNone : ∀ rows row, getOrNone rows = some row → row ∈ rows
  nil_of_getOrNone : ∀ rows, getOrNone rows = none → rows = []

/-! ## The operations -/

/-- The row id after all others -/
def freshId (ids : List Nat) : Nat := ids.foldr max 0 + 1

/-- A fresh row id is greater than all ids of the table. -/
theorem lt_freshId {ids : List Nat} {i : Nat} (h : i ∈ ids) : i < freshId ids := by
  unfold freshId
  induction ids with
  | nil => exact (nomatch h)
  | cons j ids ih =>
    rw [List.foldr_cons]
    rcases List.mem_cons.mp h with rfl | h
    · omega
    · have := ih h
      omega

/-- So it is none of them. -/
theorem freshId_notMem (ids : List Nat) : freshId ids ∉ ids :=
  fun h => Nat.lt_irrefl _ (lt_freshId h)

/-- `_get_account` -/
def getAccount (db : Database) (owner : Owner) : Option Accounts :=
  lookup Accounts.owner owner db.accounts

def saveAccount (db : Database) (owner : Owner) (account : List UInt8) (shared : Bool) : Database :=
  let row : Accounts := ⟨freshId (db.accounts.map (·.id)), owner, shared, account⟩
  { db with
    accounts := updateWhere Accounts.owner owner (fun r => { r with account, shared })
      (insertIgnore Accounts.owner row db.accounts) }

def saveSession (db : Database) (account : Nat) (curveKey : Str) (session : Session) : Database :=
  { db with
    olmSessions := replace OlmSessions.sessionId
      ⟨session.creationTime, session.useTime, curveKey, account, session.pickle, session.id⟩
      db.olmSessions }

def saveInboundGroupSession (lib : Vodozemac ρ) (db : Database) (account : Nat)
    (session : InboundGroupSession ρ) : Database :=
  let store := Nio.Crypto.MatrixStore.saveInboundGroupSession lib
    ⟨account, db.megolmInboundSessions, db.forwardedChains⟩ session
  { db with
    megolmInboundSessions := store.megolmInboundSessions
    forwardedChains := store.forwardedChains }

/-- The row that a device gets when it has none -/
def DeviceTable.newRow (t : DeviceTable) (account : Nat) (d : SavedDevice) : DeviceRow :=
  ⟨⟨freshId (t.rows.map fun r => r.id), d.userId, d.deviceId, account⟩, d.displayName, d.deleted⟩

/-- `DeviceKeys.insert_many` with one row -/
def DeviceTable.insert (t : DeviceTable) (account : Nat) (d : SavedDevice) : DeviceTable where
  rows := insertIgnore DeviceRow.key (t.newRow account d) t.rows
  id_nodup := by
    unfold insertIgnore
    split
    · exact t.id_nodup
    · rw [List.map_append, List.map_singleton]
      exact List.nodup_append.mpr ⟨t.id_nodup, List.nodup_singleton _, fun i hi j hj heq =>
        freshId_notMem _ (List.mem_singleton.mp hj ▸ heq ▸ hi)⟩
  unique := nodup_insertIgnore t.unique

/-- `d.save()` -/
def DeviceTable.setDeleted (t : DeviceTable) (id : Nat) (deleted : Bool) : DeviceTable where
  rows := updateWhere (fun r => r.id) id (fun r => { r with deleted }) t.rows
  id_nodup := by
    have hids := @map_key_updateWhere DeviceRow Nat _ (fun r => r.id) id
      (fun r => { r with deleted }) (fun _ => rfl) t.rows
    rw [hids]
    exact t.id_nodup
  unique := by
    have hkeys : (updateWhere (fun r : DeviceRow => r.id) id (fun r => { r with deleted })
        t.rows).map DeviceRow.key = t.rows.map DeviceRow.key := by
      unfold updateWhere
      rw [List.map_map]
      refine List.map_congr_left fun r _ => ?_
      dsimp only [Function.comp]
      split <;> rfl
    rw [hkeys]
    exact t.unique

/-- A device that has a row by now: its columns, and its keys one after the other -/
def updateDevice (account : Nat) (tables : DeviceTable × List Keys) (d : SavedDevice) :
    Except StoreError (DeviceTable × List Keys) :=
  match lookup DeviceRow.key (account, d.userId, d.deviceId) tables.1.rows with
  | none => .error .doesNotExist
  | some row =>
    .ok (tables.1.setDeleted row.id d.deleted,
      d.keys.foldl (fun rows k => replace Keys.unique ⟨k.1, k.2, row.id⟩ rows) tables.2)

def saveDeviceKeys (db : Database) (account : Nat) (devices : SavedDevices) :
    Except StoreError Database := do
  let table := devices.devices.foldl (fun t d => t.insert account d) db.deviceKeys
  let (deviceKeys, keys) ← devices.devices.foldlM (updateDevice account) (table, db.keys)
  return { db with deviceKeys, keys }

def saveEncryptedRooms (db : Database) (account : Nat) (rooms : List Str) : Database :=
  { db with
    encryptedRooms :=
      rooms.foldl (fun rows room => insertIgnore id ⟨room, account⟩ rows) db.encryptedRooms }

/-- The query does not ask whose row it is. -/
def deleteEncryptedRoom (env : StoreEnv ρ) (db : Database) (room : Str) : Database :=
  match env.getOrNone (db.encryptedRooms.filter fun r => r.roomId = room) with
  | none => db
  | some row => { db with encryptedRooms := remove id row db.encryptedRooms }

def saveSyncToken (db : Database) (account : Nat) (token : Str) : Database :=
  { db with syncTokens := replace SyncTokens.account ⟨token, account⟩ db.syncTokens }

/-- The tables as the trust methods of the store of an account see them -/
def sqliteStore (env : StoreEnv ρ) (db : Database) (account : Option Nat) : SqliteStore :=
  ⟨env.rowValues, account,
    ⟨db.deviceKeys.rows.map (·.toDeviceKeys),
      by simpa [Function.comp_def] using db.deviceKeys.id_nodup,
      by
        rw [List.map_map]
        exact db.deviceKeys.unique⟩,
    db.deviceTrustState, fun _ => .unset⟩

/-- A trust method of the store and whether it raised -/
def SqliteStore.run (s : SqliteStore) : TrustOp → SqliteStore × Bool
  | .mark m device => ((s.mark m device).1, (s.mark m device).2.toBool)
  | .unmark m device => ((s.unmark m device).1, (s.unmark m device).2.toBool)
  | .ignoreDevices devices => ((s.ignoreDevices devices).1, (s.ignoreDevices devices).2.toBool)

/-- The row of the own account, which most operations need -/
def withAccount (db : Database) (owner : Owner) (f : Nat → Except StoreError Database) :
    Except StoreError Database :=
  match getAccount db owner with
  | none => .error .assertion
  | some account => f account.id

/-- One operation of the store of an account, in a transaction of its own -/
def step (env : StoreEnv ρ) (db : Database) (owner : Owner) : StoreOp ρ → Except StoreError Database
  | .saveAccount account shared => .ok (saveAccount db owner account shared)
  | .saveSession curveKey session =>
    withAccount db owner fun account => .ok (saveSession db account curveKey session)
  | .saveInboundGroupSession session =>
    withAccount db owner fun account => .ok (saveInboundGroupSession env.lib db account session)
  | .saveDeviceKeys devices => withAccount db owner fun account => saveDeviceKeys db account devices
  | .saveEncryptedRooms rooms =>
    match getAccount db owner with
    | none => .error .doesNotExist
    | some account => .ok (saveEncryptedRooms db account.id rooms)
  | .deleteEncryptedRoom room => .ok (deleteEncryptedRoom env db room)
  | .addOutgoingKeyRequest keyRequest => withAccount db owner fun account =>
    .ok { db with
      outgoingKeyRequests := OutgoingKeyRequests.add account db.outgoingKeyRequests keyRequest }
  | .removeOutgoingKeyRequest keyRequest => withAccount db owner fun account =>
    .ok { db with
      outgoingKeyRequests := OutgoingKeyRequests.drop account db.outgoingKeyRequests keyRequest }
  | .saveSyncToken token =>
    withAccount db owner fun account => .ok (saveSyncToken db account token)
  | .trust op =>
    match (sqliteStore env db ((getAccount db owner).map (·.id))).run op with
    | (_, false) => .error .assertion
    | (s, true) => .ok { db with deviceTrustState := s.deviceTrustState }

/-! ## What is loaded -/

/-- A device with the trust state that `SqliteStore` gives it -/
structure Device where
  userId : Str
  deviceId : Str
  keys : List (Str × Str)
  displayName : Str
  deleted : Bool
  trustState : TrustState
  deriving DecidableEq, Repr

def Device.key (d : Device) : Str × Str := (d.userId, d.deviceId)

/-- What the `load_*` methods of a store return: the account with whether it was shared, the Olm
sessions with their sender keys, and so on. -/
structure AccountStore (ρ : Type) where
  account : Option (List UInt8 × Bool)
  sessions : List (Str × Session)
  inboundGroupSessions : List (InboundGroupSession ρ)
  deviceKeys : List Device
  encryptedRooms : List Str
  outgoingKeyRequests : List OutgoingKeyRequest
  syncToken : Option Str

def AccountStore.empty : AccountStore ρ := ⟨none, [], [], [], [], [], none⟩

/-- `Session.from_pickle` of a row: the time of the last use is not read. -/
def OlmSessions.load (r : OlmSessions) : Str × Session :=
  (r.senderKey, ⟨r.sessionId, r.session, r.creationTime, r.creationTime⟩)

/-- `{k.key_type: k.key for k in d.keys}` -/
def keysOf (keys : List Keys) (device : Nat) : List (Str × Str) :=
  (keys.filter fun k => k.device = device).map fun k => (k.keyType, k.key)

def DeviceRow.load (keys : List Keys) (trust : List (Nat × TrustState)) (r : DeviceRow) : Device :=
  ⟨r.userId, r.deviceId, keysOf keys r.id, r.displayName, r.deleted,
    (SqliteStore.rowState trust r.id).getD .unset⟩

/-- The `load_*` methods of the store of an account that has a row -/
def loadsOf (lib : Vodozemac ρ) (db : Database) (row : Accounts) : AccountStore ρ where
  account := some (row.account, row.shared)
  sessions := (db.olmSessions.filter fun r => r.account = row.id).map OlmSessions.load
  inboundGroupSessions := (db.megolmInboundSessions.filter fun r => r.account = row.id).map
    (Nio.Crypto.MatrixStore.fromRow lib ⟨row.id, db.megolmInboundSessions, db.forwardedChains⟩)
  deviceKeys := (db.deviceKeys.rows.filter fun r => r.account = row.id).map
    (DeviceRow.load db.keys db.deviceTrustState)
  encryptedRooms := (db.encryptedRooms.filter fun r => r.account = row.id).map (·.roomId)
  outgoingKeyRequests := (db.outgoingKeyRequests.filter fun r => r.account = row.id).map
    OutgoingKeyRequests.toRequest
  syncToken := (lookup SyncTokens.account row.id db.syncTokens).map (·.token)

/-- The `load_*` methods of the store of an account -/
def loads (lib : Vodozemac ρ) (db : Database) (owner : Owner) : AccountStore ρ :=
  match getAccount db owner with
  | none => .empty
  | some row => loadsOf lib db row

end Nio.Store
