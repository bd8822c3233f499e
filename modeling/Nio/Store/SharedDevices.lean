import Nio.Store.Isolation

/-!
# Devices of accounts that share a database

`save_device_keys` and the trust methods find the row of a device by its account, and the keys and
the trust state by the row.

* `separate_saveDeviceKeys` — devices are saved in the record of their own account
* `separate_trust` — a trust state is that of a device of the own account
-/

namespace Nio.Store

open Nio.Py (Str py)
open Nio.Lib

variable {ρ : Type} {env : StoreEnv ρ} {db db' : Database} {owner : Owner}

/-- The devices of an account -/
def devicesOf (table : DeviceTable) (keys : List Keys) (trust : List (Nat × TrustState))
    (account : Nat) : List Device :=
  (table.rows.filter fun r => r.account = account).map (DeviceRow.load keys trust)

def DeviceTable.ids (table : DeviceTable) : List Nat := table.rows.map fun r => r.id

/-- A row is known by its id, -/
theorem DeviceTable.eq_of_id {table : DeviceTable} {x y : DeviceRow} (hx : x ∈ table.rows)
    (hy : y ∈ table.rows) (h : x.id = y.id) : x = y :=
  List.inj_on_of_nodup_map table.id_nodup hx hy h

/-- and by the account, user and device it is for. -/
theorem DeviceTable.eq_of_key {table : DeviceTable} {x y : DeviceRow} (hx : x ∈ table.rows)
    (hy : y ∈ table.rows) (h : x.key = y.key) : x = y :=
  List.inj_on_of_nodup_map table.unique hx hy h

theorem rowState_notMem {trust : List (Nat × TrustState)} {ids : List Nat}
    (h : ∀ t ∈ trust, t.1 ∈ ids) {id : Nat} (hid : id ∉ ids) :
    SqliteStore.rowState trust id = none := by
  have hnone : trust.find? (fun t => t.1 = id) = none :=
    List.find?_eq_none.mpr fun t ht he => hid (of_decide_eq_true he ▸ h t ht)
  unfold SqliteStore.rowState
  rw [hnone]
  rfl

theorem keysOf_notMem {keys : List Keys} {ids : List Nat} (h : ∀ k ∈ keys, k.device ∈ ids)
    {id : Nat} (hid : id ∉ ids) : keysOf keys id = [] := by
  have hnone : keys.filter (fun k => k.device = id) = [] :=
    List.filter_eq_nil_iff.mpr fun k hk he => hid (of_decide_eq_true he ▸ h k hk)
  unfold keysOf
  rw [hnone]
  rfl

/-! ## New rows -/

/-- An insert adds a device that its account did not have. -/
theorem devicesOf_insert {table : DeviceTable} {keys : List Keys} {trust : List (Nat × TrustState)}
    (hkeys : ∀ k ∈ keys, k.device ∈ table.ids) (htrust : ∀ t ∈ trust, t.1 ∈ table.ids)
    (account : Nat) (d : SavedDevice) :
    devicesOf (table.insert account d) keys trust account =
      insertIgnore Device.key d.start (devicesOf table keys trust account) := by
  have hstart : DeviceRow.load keys trust (table.newRow account d) = d.start := by
    unfold DeviceRow.load SavedDevice.start
    change Device.mk _ _ (keysOf keys (freshId table.ids)) _ _
      ((SqliteStore.rowState trust (freshId table.ids)).getD .unset) = _
    rw [keysOf_notMem hkeys (freshId_notMem _), rowState_notMem htrust (freshId_notMem _)]
    rfl
  have hview := @view_insertIgnore DeviceRow Device (Nat × Str × Str) (Str × Str) _ _ DeviceRow.key
    Device.key (fun r => r.account = account) (DeviceRow.load keys trust) (table.newRow account d)
    table.rows (decide_eq_true rfl) (fun x _ hx => decide_eq_true (congrArg Prod.fst hx))
    (fun x _ hx => by
      obtain rfl : x.account = account := of_decide_eq_true hx
      change (x.account, x.userId, x.deviceId) = (x.account, d.userId, d.deviceId) ↔
        (x.userId, x.deviceId) = (d.userId, d.deviceId)
      rw [Prod.mk.injEq, eq_self, true_and])
  rw [hstart] at hview
  exact hview

/-- Other accounts read their devices as before. -/
theorem devicesOf_insert_others {table : DeviceTable} {account other : Nat} (hne : other ≠ account)
    (keys : List Keys) (trust : List (Nat × TrustState)) (d : SavedDevice) :
    devicesOf (table.insert account d) keys trust other = devicesOf table keys trust other := by
  unfold devicesOf DeviceTable.insert
  have hfilter := @filter_insertIgnore_others DeviceRow (Nat × Str × Str) _ DeviceRow.key
    (table.newRow account d) table.rows Nat _ (fun r => r.account) other hne.symm
  rw [hfilter]

theorem mem_insert {table : DeviceTable} {account : Nat} {d : SavedDevice} {x : DeviceRow}
    (h : x ∈ (table.insert account d).rows) : x ∈ table.rows ∨ x = table.newRow account d :=
  mem_insertIgnore h

theorem ids_insert {table : DeviceTable} (account : Nat) (d : SavedDevice) {id : Nat}
    (h : id ∈ table.ids) : id ∈ (table.insert account d).ids := by
  obtain ⟨x, hx, rfl⟩ := List.mem_map.mp h
  refine List.mem_map_of_mem ?_
  change x ∈ insertIgnore _ _ _
  unfold insertIgnore
  split
  · exact hx
  · exact List.mem_append_left _ hx

/-- After its row was inserted, a device that agreed with its row agrees with it still. -/
theorem agrees_insert {table : DeviceTable} {keys : List Keys} {account : Nat}
    (hkeys : ∀ k ∈ keys, k.device ∈ table.ids) {d d' : SavedDevice}
    (h : Agrees table keys account d) (hd : d'.key = d.key → d' = d) :
    Agrees (table.insert account d') keys account d := by
  intro x hx hkey
  rcases mem_insert hx with hx | rfl
  · exact h x hx hkey
  · have heq : d' = d := hd (congrArg Prod.snd hkey)
    subst heq
    refine ⟨rfl, fun k hk he => absurd (hkeys k hk) ?_⟩
    rw [he]
    exact freshId_notMem _

/-! ## Rows brought up to date -/

/-- The key rows of a device after its keys were saved -/
def savedKeys (keys : List Keys) (id : Nat) (ks : List (Str × Str)) : List Keys :=
  ks.foldl (fun rows k => replace Keys.unique ⟨k.1, k.2, id⟩ rows) keys

/-- The saved keys are what is read back if they cover the old ones. -/
theorem keysOf_saved {keys : List Keys} {id : Nat} {ks : List (Str × Str)}
    (hks : (ks.map (·.1)).Nodup)
    (hold : ∀ k ∈ keys, k.device = id → k.keyType ∈ ks.map (·.1)) :
    keysOf (savedKeys keys id ks) id = ks := by
  have hunique : ((ks.map fun k => (⟨k.1, k.2, id⟩ : Keys)).map Keys.unique).Nodup := by
    rw [List.map_map]
    have hpairs := hks.map (f := fun t => (id, t)) fun _ _ he => (Prod.mk.inj he).2
    rwa [List.map_map] at hpairs
  have hfold := @foldl_replace_keys Keys (Nat × Str) _ Keys.unique keys _ hunique
  rw [List.foldl_map] at hfold
  obtain ⟨rest, hrows, hrest⟩ : ∃ rest, savedKeys keys id ks =
      rest ++ ks.map (fun k => (⟨k.1, k.2, id⟩ : Keys)) ∧ ∀ k ∈ rest, k ∈ keys ∧
        k.unique ∉ (ks.map fun k => (⟨k.1, k.2, id⟩ : Keys)).map Keys.unique := by
    refine ⟨_, hfold, fun k hk => ?_⟩
    obtain ⟨hmem, hnew⟩ := List.mem_filter.mp hk
    refine ⟨hmem, fun hin => ?_⟩
    simp only [hin, not_true, decide_false] at hnew
    exact (nomatch hnew)
  -- the rows of the device that stay are none: their types are saved again
  have hnone : rest.filter (fun k => k.device = id) = [] := by
    refine List.filter_eq_nil_iff.mpr fun k hk he => ?_
    have hdevice : k.device = id := of_decide_eq_true he
    obtain ⟨hmem, hnew⟩ := hrest k hk
    obtain ⟨x, hx, htype⟩ := List.mem_map.mp (hold k hmem hdevice)
    refine hnew (List.mem_map.mpr ⟨⟨x.1, x.2, id⟩, List.mem_map_of_mem hx, ?_⟩)
    exact Prod.ext hdevice.symm htype
  have hall : (ks.map fun k => (⟨k.1, k.2, id⟩ : Keys)).filter (fun k => k.device = id) =
      ks.map fun k => ⟨k.1, k.2, id⟩ := by
    refine List.filter_eq_self.mpr fun k hk => ?_
    obtain ⟨x, -, rfl⟩ := List.mem_map.mp hk
    exact decide_eq_true rfl
  unfold keysOf
  rw [hrows, List.filter_append, hnone, hall, List.nil_append, List.map_map]
  exact List.map_id ks

theorem mem_savedKeys {keys : List Keys} {id : Nat} {ks : List (Str × Str)} {k : Keys}
    (h : k ∈ savedKeys keys id ks) : k ∈ keys ∨ k.device = id := by
  induction ks generalizing keys with
  | nil => exact Or.inl h
  | cons x ks ih =>
    rcases ih h with h | h
    · rcases List.mem_append.mp h with h | h
      · exact Or.inl (List.mem_filter.mp h).1
      · exact Or.inr (by rw [List.mem_singleton.mp h])
    · exact Or.inr h

/-- The keys of other rows stay. -/
theorem keysOf_saved_others {keys : List Keys} {id id' : Nat} (hne : id' ≠ id)
    (ks : List (Str × Str)) : keysOf (savedKeys keys id ks) id' = keysOf keys id' := by
  induction ks generalizing keys with
  | nil => rfl
  | cons x ks ih =>
    refine ih.trans ?_
    unfold keysOf
    rw [filter_replace_others Keys.device id' hne.symm fun k _ hk he =>
      hne (he.symm.trans (congrArg Prod.fst hk))]

/-- An update writes the keys and the deleted flag of the row that is found. -/
theorem updateDevice_cases {account : Nat} {table table' : DeviceTable} {keys keys' : List Keys}
    {d : SavedDevice} (h : updateDevice account (table, keys) d = .ok (table', keys')) :
    ∃ row ∈ table.rows, row.key = (account, d.userId, d.deviceId) ∧
      table' = table.setDeleted row.id d.deleted ∧ keys' = savedKeys keys row.id d.keys := by
  unfold updateDevice at h
  split at h
  · exact (nomatch h)
  next row hrow =>
    cases h
    exact ⟨row, mem_of_lookup hrow, key_of_lookup hrow, rfl, rfl⟩

theorem ids_setDeleted (table : DeviceTable) (id : Nat) (deleted : Bool) :
    (table.setDeleted id deleted).ids = table.ids := by
  have hids := @map_key_updateWhere DeviceRow Nat _ (fun r => r.id) id
    (fun r => { r with deleted }) (fun _ => rfl) table.rows
  exact hids

section Update

variable {account : Nat} {table : DeviceTable} {keys : List Keys} {row : DeviceRow}
  {d : SavedDevice}

/-- An update is read back under the key of its device, -/
theorem devicesOf_update (hrow : row ∈ table.rows)
    (hkey : row.key = (account, d.userId, d.deviceId)) (hagrees : Agrees table keys account d)
    (trust : List (Nat × TrustState)) :
    devicesOf (table.setDeleted row.id d.deleted) (savedKeys keys row.id d.keys) trust account =
      updateWhere Device.key d.key d.over (devicesOf table keys trust account) := by
  obtain ⟨hname, hold⟩ := hagrees row hrow hkey
  obtain ⟨huser, hdevice⟩ : row.userId = d.userId ∧ row.deviceId = d.deviceId :=
    Prod.mk.inj (congrArg Prod.snd hkey)
  have hview := @view_updateWhere DeviceRow Device Nat (Str × Str) _ _ (fun r => r.id) Device.key
    (fun r => r.account = account) (DeviceRow.load keys trust) table.rows row.id d.key
    (fun r => { r with deleted := d.deleted })
    (DeviceRow.load (savedKeys keys row.id d.keys) trust) d.over (fun _ => rfl)
    (fun x hx haccount => by
      constructor
      · intro hid
        rw [DeviceTable.eq_of_id hx hrow hid]
        exact congrArg Prod.snd hkey
      · intro hk
        obtain rfl : x.account = account := of_decide_eq_true haccount
        have heq : x.key = row.key := hkey.symm ▸ congrArg (Prod.mk x.account) hk
        rw [DeviceTable.eq_of_key hx hrow heq])
    (fun x hx _ hid => by
      obtain rfl := DeviceTable.eq_of_id hx hrow hid
      change Device.mk x.userId x.deviceId (keysOf (savedKeys keys x.id d.keys) x.id) x.displayName
        d.deleted _ = Device.mk d.userId d.deviceId d.keys d.displayName d.deleted _
      rw [keysOf_saved d.keys_nodup hold, huser, hdevice, hname]
      rfl)
    (fun x _ _ hid => by
      unfold DeviceRow.load
      rw [keysOf_saved_others hid])
  exact hview

/-- and by no other account. -/
theorem devicesOf_update_others {other : Nat} (hne : other ≠ account) (hrow : row ∈ table.rows)
    (hkey : row.key = (account, d.userId, d.deviceId)) (trust : List (Nat × TrustState)) :
    devicesOf (table.setDeleted row.id d.deleted) (savedKeys keys row.id d.keys) trust other =
      devicesOf table keys trust other := by
  have hforeign : ∀ x ∈ table.rows, x.id = row.id → x.account ≠ other := by
    intro x hx hid he
    rw [DeviceTable.eq_of_id hx hrow hid] at he
    exact hne (he.symm.trans (congrArg Prod.fst hkey))
  have hfilter := @filter_updateWhere_others DeviceRow Nat _ (fun r => r.id) table.rows Nat _
    (fun r => r.account) other row.id (fun r => { r with deleted := d.deleted }) (fun _ => rfl)
    hforeign
  unfold devicesOf DeviceTable.setDeleted
  rw [hfilter]
  refine List.map_congr_left fun x hx => ?_
  obtain ⟨hx, haccount⟩ := List.mem_filter.mp hx
  unfold DeviceRow.load
  rw [keysOf_saved_others fun hid => hforeign x hx hid (of_decide_eq_true haccount)]

/-- Another device is no less in agreement with its row. -/
theorem agrees_update (hrow : row ∈ table.rows)
    (hkey : row.key = (account, d.userId, d.deviceId)) {d' : SavedDevice} (hne : d'.key ≠ d.key)
    (h : Agrees table keys account d') :
    Agrees (table.setDeleted row.id d.deleted) (savedKeys keys row.id d.keys) account d' := by
  intro x' hx' hkey'
  obtain ⟨x, hx, rfl⟩ := List.mem_map.mp hx'
  have hsame : ∀ y : DeviceRow, (if y.id = row.id then { y with deleted := d.deleted } else y).key =
      y.key ∧ (if y.id = row.id then { y with deleted := d.deleted } else y).id = y.id ∧
      (if y.id = row.id then { y with deleted := d.deleted } else y).displayName =
        y.displayName := by
    intro y
    split <;> exact ⟨rfl, rfl, rfl⟩
  obtain ⟨hk, hid, hname⟩ := hsame x
  rw [hk] at hkey'
  obtain ⟨hname', hold⟩ := h x hx hkey'
  refine ⟨hname.trans hname', fun k hmem hdevice => ?_⟩
  rw [hid] at hdevice
  rcases mem_savedKeys hmem with hmem | hrowId
  · exact hold k hmem hdevice
  · have heq := DeviceTable.eq_of_id hx hrow (hdevice.symm.trans hrowId)
    rw [heq, hkey] at hkey'
    exact absurd (congrArg Prod.snd hkey').symm hne

end Update

/-! ## `save_device_keys` -/

/-- The first pass inserts rows. -/
theorem devicesOf_inserts (trust : List (Nat × TrustState)) (keys : List Keys) (account : Nat)
    (devices : List SavedDevice) :
    ∀ table : DeviceTable, (∀ k ∈ keys, k.device ∈ table.ids) → (∀ t ∈ trust, t.1 ∈ table.ids) →
      devicesOf (devices.foldl (fun t d => t.insert account d) table) keys trust account =
        devices.foldl (fun store d => insertIgnore Device.key d.start store)
          (devicesOf table keys trust account) := by
  induction devices with
  | nil => exact fun _ _ _ => rfl
  | cons d devices ih =>
    intro table hkeys htrust
    rw [List.foldl_cons, List.foldl_cons,
      ih _ (fun k hk => ids_insert account d (hkeys k hk))
        (fun t ht => ids_insert account d (htrust t ht)),
      devicesOf_insert hkeys htrust]

/-- No insert of a list is read by another account. -/
theorem devicesOf_inserts_others (trust : List (Nat × TrustState)) (keys : List Keys)
    {account other : Nat} (hne : other ≠ account) (devices : List SavedDevice)
    (table : DeviceTable) :
    devicesOf (devices.foldl (fun t d => t.insert account d) table) keys trust other =
      devicesOf table keys trust other := by
  induction devices generalizing table with
  | nil => rfl
  | cons d devices ih => rw [List.foldl_cons, ih, devicesOf_insert_others hne]

theorem agrees_inserts {keys : List Keys} {account : Nat} (devices : List SavedDevice)
    {d : SavedDevice} (hd : ∀ d' ∈ devices, d'.key = d.key → d' = d) :
    ∀ table : DeviceTable, (∀ k ∈ keys, k.device ∈ table.ids) → Agrees table keys account d →
      Agrees (devices.foldl (fun t d => t.insert account d) table) keys account d := by
  induction devices with
  | nil => exact fun _ _ h => h
  | cons d' devices ih =>
    intro table hkeys h
    exact ih (fun x hx => hd x (List.mem_cons_of_mem _ hx)) _
      (fun k hk => ids_insert account d' (hkeys k hk))
      (agrees_insert hkeys h (hd d' List.mem_cons_self))

/-- The second pass brings the rows up to date. -/
theorem devicesOf_updates (trust : List (Nat × TrustState)) (account : Nat)
    (devices : List SavedDevice) :
    ∀ (tables tables' : DeviceTable × List Keys), (devices.map SavedDevice.key).Nodup →
      (∀ d ∈ devices, Agrees tables.1 tables.2 account d) →
      devices.foldlM (updateDevice account) tables = .ok tables' →
      devicesOf tables'.1 tables'.2 trust account =
        devices.foldl (fun store d => updateWhere Device.key d.key d.over store)
          (devicesOf tables.1 tables.2 trust account) ∧
      ∀ other, other ≠ account → devicesOf tables'.1 tables'.2 trust other =
        devicesOf tables.1 tables.2 trust other := by
  induction devices with
  | nil =>
    intro tables tables' _ _ hrun
    obtain rfl := Except.ok.inj hrun
    exact ⟨rfl, fun _ _ => rfl⟩
  | cons d devices ih =>
    intro tables tables' hnodup hagrees hrun
    obtain ⟨hd, hdevices⟩ := List.nodup_cons.mp hnodup
    rw [List.foldlM_cons] at hrun
    cases hfirst : updateDevice account tables d with
    | error e => rw [hfirst] at hrun; exact (nomatch hrun)
    | ok next =>
      rw [hfirst] at hrun
      obtain ⟨row, hrow, hkey, htable, hkeys⟩ := updateDevice_cases hfirst
      obtain ⟨hown, hothers⟩ := ih next tables' hdevices (fun d' hd' => by
        rw [htable, hkeys]
        refine agrees_update hrow hkey (fun he => hd ?_) (hagrees d' (List.mem_cons_of_mem _ hd'))
        exact he ▸ List.mem_map_of_mem hd') hrun
      constructor
      · rw [hown, htable, hkeys,
          devicesOf_update hrow hkey (hagrees d List.mem_cons_self) trust]
        rfl
      · intro other hne
        rw [hothers other hne, htable, hkeys, devicesOf_update_others hne hrow hkey trust]

/-- Saving conforming devices is separate from the other accounts. -/
theorem separate_saveDeviceKeys (hw : WellFormed env.lib db) {row : Accounts}
    (hrow : getAccount db owner = some row) {devices : SavedDevices}
    (h : ConformsTo env.lib db row.id (.saveDeviceKeys devices))
    (hrun : saveDeviceKeys db row.id devices = .ok db') :
    Separate env.lib db db' owner (.saveDeviceKeys devices) := by
  unfold saveDeviceKeys at hrun
  dsimp only at hrun
  cases hupdates : devices.devices.foldlM (updateDevice row.id)
      (devices.devices.foldl (fun t d => t.insert row.id d) db.deviceKeys, db.keys) with
  | error e => rw [hupdates] at hrun; exact (nomatch hrun)
  | ok tables =>
    rw [hupdates] at hrun
    obtain rfl := Except.ok.inj hrun
    have hagrees : ∀ d ∈ devices.devices, Agrees
        (devices.devices.foldl (fun t d => t.insert row.id d) db.deviceKeys) db.keys row.id d :=
      fun d hd => agrees_inserts devices.devices
        (fun d' hd' he => List.inj_on_of_nodup_map devices.nodup hd' hd he) _ hw.keys (h d hd)
    obtain ⟨hown, hothers⟩ := devicesOf_updates db.deviceTrustState row.id devices.devices _ _
      devices.nodup hagrees hupdates
    refine separate_of_rows hw rfl hrow ?_ ?_
    · rw [devicesOf_inserts _ _ _ _ _ hw.keys hw.deviceTrustState] at hown
      exact congrArg (fun store => AccountStore.mk _ _ _ store _ _ _) hown
    · intro other _ hne
      have hsame := hothers other.id hne
      rw [devicesOf_inserts_others _ _ hne] at hsame
      exact congrArg (fun store => AccountStore.mk _ _ _ store _ _ _) hsame

/-! ## Trust methods -/

section Trust

variable {account : Option Nat} {device : OlmDevice}

/-- The row is that of the device in the account. -/
def Matches (account : Option Nat) (device : OlmDevice) (x : DeviceRow) : Prop :=
  account = some x.account ∧ (x.userId, x.deviceId) = (device.userId, device.deviceId)

/-- The row of a device is the one that the store finds. -/
theorem getDevice_of_matches {x : DeviceRow} (hx : x ∈ db.deviceKeys.rows)
    (h : Matches account device x) :
    (sqliteStore env db account).getDevice device = some x.toDeviceKeys := by
  obtain ⟨rfl, hkey⟩ := h
  obtain ⟨huser, hdevice⟩ := Prod.mk.inj hkey
  have hsome : ((db.deviceKeys.rows.map (·.toDeviceKeys)).find? fun r =>
      r.userId = device.userId ∧ r.deviceId = device.deviceId ∧ r.account = x.account).isSome :=
    List.find?_isSome.mpr ⟨_, List.mem_map_of_mem hx, decide_eq_true ⟨huser, hdevice, rfl⟩⟩
  obtain ⟨found, hfound⟩ := Option.isSome_iff_exists.mp hsome
  obtain ⟨y, hy, rfl⟩ := List.mem_map.mp (List.mem_of_find?_eq_some hfound)
  have hcols := List.find?_some hfound
  obtain ⟨huser', hdevice', haccount⟩ := of_decide_eq_true hcols
  have heq : y = x := DeviceTable.eq_of_key hy hx
    (Prod.ext haccount (Prod.ext (huser'.trans huser.symm) (hdevice'.trans hdevice.symm)))
  rw [heq] at hfound
  exact hfound

theorem matches_of_getDevice {d : DeviceKeys}
    (h : (sqliteStore env db account).getDevice device = some d) :
    ∃ x ∈ db.deviceKeys.rows, d = x.toDeviceKeys ∧ Matches account device x := by
  cases account with
  | none => exact (nomatch h)
  | some i =>
    obtain ⟨x, hx, rfl⟩ := List.mem_map.mp (List.mem_of_find?_eq_some h)
    have hcols := List.find?_some h
    obtain ⟨huser, hdevice, haccount⟩ := of_decide_eq_true hcols
    exact ⟨x, hx, rfl, congrArg some haccount.symm, Prod.ext huser hdevice⟩

/-- The trust state that is loaded for a row -/
def trustOf (trust : List (Nat × TrustState)) (x : DeviceRow) : TrustState :=
  (SqliteStore.rowState trust x.id).getD .unset

/-- A mark is read from the trust state of that row. -/
theorem isMarked_of_matches {x : DeviceRow} (hx : x ∈ db.deviceKeys.rows)
    (h : Matches account device x) (m : Mark) :
    (sqliteStore env db account).isMarked m device = true ↔
      trustOf db.deviceTrustState x = m.state := by
  rw [SqliteStore.isMarked_iff]
  unfold SqliteStore.stateOf trustOf
  rw [getDevice_of_matches hx h, Option.bind_some]
  change SqliteStore.rowState db.deviceTrustState x.id = _ ↔ _
  cases SqliteStore.rowState db.deviceTrustState x.id with
  | none => simpa using fun he => Mark.state_ne_unset m he.symm
  | some t => simp

/-- The trust state that a row of the account is to have after a trust method -/
def TrustOp.state (x : DeviceRow) (t : TrustState) (op : TrustOp) : TrustState :=
  op.next (x.userId, x.deviceId) t

theorem TrustOp.on_load (op : TrustOp) (keys : List Keys) (trust trust' : List (Nat × TrustState))
    (x : DeviceRow) (h : trustOf trust' x = op.state x (trustOf trust x)) :
    DeviceRow.load keys trust' x = op.on (DeviceRow.load keys trust x) :=
  congrArg (Device.mk x.userId x.deviceId (keysOf keys x.id) x.displayName x.deleted) h

/-- What the rows of devices are after a trust method -/
structure Marked (db : Database) (account : Option Nat) (op : TrustOp)
    (trust : List (Nat × TrustState)) : Prop where
  own : ∀ x ∈ db.deviceKeys.rows, account = some x.account →
    trustOf trust x = op.state x (trustOf db.deviceTrustState x)
  others : ∀ x ∈ db.deviceKeys.rows, account ≠ some x.account →
    trustOf trust x = trustOf db.deviceTrustState x
  rows : ∀ t ∈ trust, t ∈ db.deviceTrustState ∨ t.1 ∈ db.deviceKeys.ids

theorem state_mark {x : DeviceRow} (hx : account = some x.account) (m : Mark) (t : TrustState)
    [Decidable (Matches account device x)] :
    (TrustOp.mark m device).state x t = if Matches account device x then m.state else t := by
  unfold TrustOp.state TrustOp.next
  dsimp only
  by_cases h : (x.userId, x.deviceId) = (device.userId, device.deviceId)
  · rw [if_pos h, if_pos ⟨hx, h⟩]
  · rw [if_neg h, if_neg fun hm => h hm.2]

theorem state_unmark {x : DeviceRow} (hx : account = some x.account) (m : Mark) (t : TrustState)
    [Decidable (Matches account device x)] :
    (TrustOp.unmark m device).state x t =
      if Matches account device x ∧ t = m.state then .unset else t := by
  unfold TrustOp.state TrustOp.next
  dsimp only
  by_cases h : (x.userId, x.deviceId) = (device.userId, device.deviceId) ∧ t = m.state
  · rw [if_pos h, if_pos ⟨⟨hx, h.1⟩, h.2⟩]
  · rw [if_neg h, if_neg fun hm => h ⟨hm.1.2, hm.2⟩]

/-- The row of one device is replaced. -/
theorem trustOf_replace {d : DeviceKeys}
    (h : (sqliteStore env db account).getDevice device = some d) {x : DeviceRow}
    (hx : x ∈ db.deviceKeys.rows) (t : TrustState) [Decidable (Matches account device x)] :
    trustOf (SqliteStore.replace db.deviceTrustState d.id t) x =
      if Matches account device x then t else trustOf db.deviceTrustState x := by
  obtain ⟨y, hy, rfl, hmatch⟩ := matches_of_getDevice h
  unfold trustOf
  rw [SqliteStore.rowState_replace]
  by_cases hm : Matches account device x
  · have heq := @getDevice_of_matches ρ env db account device x hx hm
    rw [h] at heq
    rw [if_pos hm, if_pos (congrArg DeviceKeys.id (Option.some.inj heq)).symm]
    rfl
  · rw [if_neg hm, if_neg fun hid => hm (DeviceTable.eq_of_id hx hy hid ▸ hmatch)]

/-- An operation that asks for what already holds writes nothing. -/
theorem Marked.same (op : TrustOp)
    (h : ∀ x ∈ db.deviceKeys.rows, account = some x.account →
      op.state x (trustOf db.deviceTrustState x) = trustOf db.deviceTrustState x) :
    Marked db account op db.deviceTrustState :=
  ⟨fun x hx haccount => (h x hx haccount).symm, fun _ _ _ => rfl, fun _ ht => Or.inl ht⟩

/-- The row of one device was replaced. -/
theorem Marked.replace {op : TrustOp} {d : DeviceKeys} {t : TrustState}
    (hget : (sqliteStore env db account).getDevice device = some d)
    (h : ∀ x ∈ db.deviceKeys.rows, account = some x.account →
      [Decidable (Matches account device x)] → op.state x (trustOf db.deviceTrustState x) =
        if Matches account device x then t else trustOf db.deviceTrustState x) :
    Marked db account op (SqliteStore.replace db.deviceTrustState d.id t) := by
  classical
  refine ⟨fun x hx haccount => ?_, fun x hx haccount => ?_, fun t ht => ?_⟩
  · rw [trustOf_replace hget hx, h x hx haccount]
  · rw [trustOf_replace hget hx, if_neg fun hm => haccount hm.1]
  · rcases List.mem_append.mp ht with ht | ht
    · exact Or.inl (List.mem_filter.mp ht).1
    · obtain ⟨y, hy, rfl, -⟩ := matches_of_getDevice hget
      rw [List.mem_singleton.mp ht]
      exact Or.inr (List.mem_map_of_mem hy)

/-- Marking a device writes the trust of its row only. -/
theorem marked_mark {m : Mark} {s : SqliteStore}
    (h : (sqliteStore env db account).run (.mark m device) = (s, true)) :
    Marked db account (.mark m device) s.deviceTrustState := by
  classical
  unfold SqliteStore.run SqliteStore.mark at h
  dsimp only at h
  split at h
  next hmarked =>
    -- the row has the state already
    obtain rfl := (Prod.mk.inj h).1
    refine .same _ fun x hx haccount => ?_
    rw [state_mark haccount]
    split
    next hm => exact ((isMarked_of_matches hx hm m).mp hmarked).symm
    · rfl
  · split at h
    · cases (Prod.mk.inj h).2
    next d hget =>
      obtain rfl := (Prod.mk.inj h).1
      refine .replace hget fun x _ haccount inst => ?_
      exact state_mark haccount m _

/-- So does taking the mark back. -/
theorem marked_unmark {m : Mark} {s : SqliteStore}
    (h : (sqliteStore env db account).run (.unmark m device) = (s, true)) :
    Marked db account (.unmark m device) s.deviceTrustState := by
  classical
  unfold SqliteStore.run SqliteStore.unmark at h
  dsimp only at h
  split at h
  next hmarked =>
    split at h
    · cases (Prod.mk.inj h).2
    next d hget =>
      obtain rfl := (Prod.mk.inj h).1
      refine .replace hget fun x hx haccount inst => ?_
      rw [state_unmark haccount]
      by_cases hm : Matches account device x
      · rw [if_pos hm, if_pos ⟨hm, (isMarked_of_matches hx hm m).mp hmarked⟩]
      · rw [if_neg hm, if_neg fun h' => hm h'.1]
  next hmarked =>
    obtain rfl := (Prod.mk.inj h).1
    refine .same _ fun x hx haccount => ?_
    rw [state_unmark haccount, if_neg]
    exact fun hm => hmarked ((isMarked_of_matches hx hm.1 m).mpr hm.2)

/-! ### `ignore_devices` -/

/-- The ids are those of the rows of the devices in the account. -/
structure Finds (db : Database) (account : Nat) (devices : List OlmDevice) (ids : List Nat) :
    Prop where
  sound : ∀ id ∈ ids, ∃ x ∈ db.deviceKeys.rows, x.id = id ∧ x.account = account ∧
    (x.userId, x.deviceId) ∈ devices.map fun device => (device.userId, device.deviceId)
  complete : ∀ x ∈ db.deviceKeys.rows, x.account = account →
    (x.userId, x.deviceId) ∈ devices.map (fun device => (device.userId, device.deviceId)) →
      x.id ∈ ids

/-- The newer lookup finds the ids of the given devices, -/
theorem finds_getDeviceIds (i : Nat) (devices : List OlmDevice) :
    Finds db i devices ((sqliteStore env db account).getDeviceIds i devices) := by
  have hchunks := flatten_chunks (n := 150) (by decide)
    (devices.map fun device => (device.userId, device.deviceId))
  unfold SqliteStore.getDeviceIds
  constructor
  · intro id hid
    obtain ⟨data, hdata, hid⟩ := List.mem_flatMap.mp hid
    obtain ⟨r, hr, rfl⟩ := List.mem_map.mp hid
    obtain ⟨hr, hcols⟩ := List.mem_filter.mp hr
    obtain ⟨x, hx, rfl⟩ := List.mem_map.mp hr
    obtain ⟨haccount, hkey⟩ := of_decide_eq_true hcols
    exact ⟨x, hx, rfl, haccount, hchunks ▸ List.mem_flatten_of_mem hdata hkey⟩
  · intro x hx haccount hkey
    rw [← hchunks] at hkey
    obtain ⟨data, hdata, hkey⟩ := List.mem_flatten.mp hkey
    refine List.mem_flatMap.mpr ⟨data, hdata, List.mem_map.mpr ⟨x.toDeviceKeys, ?_, rfl⟩⟩
    exact List.mem_filter.mpr ⟨List.mem_map_of_mem hx, decide_eq_true ⟨haccount, hkey⟩⟩

/-- and so does the older one when it succeeds. -/
theorem finds_legacyGetDeviceIds (i : Nat) (devices : List OlmDevice) :
    ∀ ids, (sqliteStore env db account).legacyGetDeviceIds i devices = .ok ids →
      Finds db i devices ids := by
  induction devices with
  | nil =>
    intro ids h
    obtain rfl := Except.ok.inj h
    exact ⟨fun _ h => (nomatch h), fun _ _ _ h => (nomatch h)⟩
  | cons device devices ih =>
    intro ids h
    unfold SqliteStore.legacyGetDeviceIds at h
    split at h
    · exact (nomatch h)
    next d hfind =>
      cases hrest : (sqliteStore env db account).legacyGetDeviceIds i devices with
      | error e => rw [hrest] at h; exact (nomatch h)
      | ok rest =>
        rw [hrest] at h
        obtain rfl := Except.ok.inj h
        obtain ⟨y, hy, rfl⟩ := List.mem_map.mp (List.mem_of_find?_eq_some hfind)
        have hcols := List.find?_some hfind
        obtain ⟨haccount, huser, hdevice⟩ := of_decide_eq_true hcols
        obtain ⟨hsound, hcomplete⟩ := ih rest hrest
        constructor
        · intro id hid
          rcases List.mem_cons.mp hid with rfl | hid
          · exact ⟨y, hy, rfl, haccount, List.mem_cons.mpr (Or.inl (Prod.ext huser hdevice))⟩
          · obtain ⟨x, hx, hxid, hxaccount, hkey⟩ := hsound id hid
            exact ⟨x, hx, hxid, hxaccount, List.mem_cons_of_mem _ hkey⟩
        · intro x hx hxaccount hkey
          rcases List.mem_cons.mp hkey with hkey | hkey
          · have heq : x = y := DeviceTable.eq_of_key hx hy (Prod.ext
              (hxaccount.trans haccount.symm) (hkey.trans (Prod.ext huser hdevice).symm))
            rw [heq]
            exact List.mem_cons_self
          · exact List.mem_cons_of_mem _ (hcomplete x hx hxaccount hkey)

theorem mem_replaceMany {trust : List (Nat × TrustState)} {ids : List Nat} {t : Nat × TrustState}
    (h : t ∈ SqliteStore.replaceMany trust ids) : t ∈ trust ∨ t.1 ∈ ids := by
  rw [SqliteStore.replaceMany_eq] at h
  induction ids generalizing trust with
  | nil => exact Or.inl h
  | cons i ids ih =>
    rcases ih h with h | h
    · rcases List.mem_append.mp h with h | h
      · exact Or.inl (List.mem_filter.mp h).1
      · rw [List.mem_singleton.mp h]
        exact Or.inr List.mem_cons_self
    · exact Or.inr (List.mem_cons_of_mem _ h)

/-- Ignoring devices writes the trust of the rows that were found. -/
theorem Marked.ignored {i : Nat} {devices : List OlmDevice} {ids : List Nat}
    (h : Finds db i devices ids) : Marked db (some i) (.ignoreDevices devices)
      (SqliteStore.replaceMany db.deviceTrustState ids) := by
  have htrust : ∀ x ∈ db.deviceKeys.rows,
      trustOf (SqliteStore.replaceMany db.deviceTrustState ids) x =
        if x.id ∈ ids then .ignored else trustOf db.deviceTrustState x := by
    intro x _
    unfold trustOf
    rw [SqliteStore.rowState_replaceMany]
    split <;> rfl
  have hfound : ∀ x ∈ db.deviceKeys.rows, x.id ∈ ids → x.account = i ∧ (x.userId, x.deviceId) ∈
      devices.map fun device => (device.userId, device.deviceId) := by
    intro x hx hid
    obtain ⟨y, hy, hyid, haccount, hkey⟩ := h.sound x.id hid
    obtain rfl := DeviceTable.eq_of_id hy hx hyid
    exact ⟨haccount, hkey⟩
  refine ⟨fun x hx haccount => ?_, fun x hx haccount => ?_, fun t ht => ?_⟩
  · rw [htrust x hx]
    unfold TrustOp.state TrustOp.next
    dsimp only
    by_cases hid : x.id ∈ ids
    · rw [if_pos hid, if_pos (hfound x hx hid).2]
    · rw [if_neg hid, if_neg fun hkey =>
        hid (h.complete x hx (Option.some.inj haccount).symm hkey)]
  · rw [htrust x hx, if_neg fun hid => haccount (congrArg some (hfound x hx hid).1.symm)]
  · refine (mem_replaceMany ht).imp_right fun hid => ?_
    obtain ⟨x, hx, hxid, -⟩ := h.sound t.1 hid
    exact hxid ▸ List.mem_map_of_mem hx

/-- Ignoring devices writes the trust of their rows only. -/
theorem marked_ignoreDevices {devices : List OlmDevice} {s : SqliteStore}
    (h : (sqliteStore env db account).run (.ignoreDevices devices) = (s, true)) :
    Marked db account (.ignoreDevices devices) s.deviceTrustState := by
  unfold SqliteStore.run SqliteStore.ignoreDevices at h
  cases account with
  | none =>
    obtain rfl := (Prod.mk.inj h).1
    exact ⟨fun _ _ he => (nomatch he), fun _ _ _ => rfl, fun _ ht => Or.inl ht⟩
  | some i =>
    have haccount : (sqliteStore env db (some i)).account = some i := rfl
    simp only [haccount] at h
    split at h
    · cases (Prod.mk.inj h).2
    next ids hids =>
      have hfinds : Finds db i devices ids := by
        split at hids
        · obtain rfl := Except.ok.inj hids
          exact @finds_getDeviceIds ρ env db (some i) i devices
        · exact @finds_legacyGetDeviceIds ρ env db (some i) i devices ids hids
      split at h
      · obtain rfl := (Prod.mk.inj h).1
        exact .ignored hfinds
      · cases (Prod.mk.inj h).2

/-- Every trust operation writes the rows it names only. -/
theorem marked_run {op : TrustOp} {s : SqliteStore}
    (h : (sqliteStore env db account).run op = (s, true)) :
    Marked db account op s.deviceTrustState := by
  cases op with
  | mark m device => exact marked_mark h
  | unmark m device => exact marked_unmark h
  | ignoreDevices devices => exact marked_ignoreDevices h

end Trust

/-- A trust operation is separate from the other accounts. -/
theorem separate_trust (hw : WellFormed env.lib db) {op : TrustOp} {trust : List (Nat × TrustState)}
    (h : Marked db ((getAccount db owner).map (·.id)) op trust) :
    Separate env.lib db { db with deviceTrustState := trust } owner (.trust op) := by
  have hothers : ∀ i, (getAccount db owner).map (·.id) ≠ some i →
      devicesOf db.deviceKeys db.keys trust i =
        devicesOf db.deviceKeys db.keys db.deviceTrustState i := by
    intro i hne
    refine List.map_congr_left fun x hx => ?_
    obtain ⟨hx, haccount⟩ := List.mem_filter.mp hx
    have hx := h.others x hx fun he => hne (he.trans (congrArg some (of_decide_eq_true haccount)))
    exact congrArg (Device.mk x.userId x.deviceId (keysOf db.keys x.id) x.displayName x.deleted) hx
  cases hrow : getAccount db owner with
  | none =>
    intro b
    rw [hrow] at hothers
    unfold loads
    rw [show getAccount { db with deviceTrustState := trust } b = getAccount db b from rfl]
    by_cases hb : b = owner
    · subst hb
      rw [if_pos rfl, hrow]
      rfl
    · rw [if_neg hb]
      cases getAccount db b with
      | none => rfl
      | some other =>
        have hsame := hothers other.id (fun he => by cases he)
        exact congrArg (fun store => AccountStore.mk _ _ _ store _ _ _) hsame
  | some row =>
    rw [hrow] at h hothers
    refine separate_of_rows hw rfl hrow ?_ ?_
    · have hown : devicesOf db.deviceKeys db.keys trust row.id =
          (devicesOf db.deviceKeys db.keys db.deviceTrustState row.id).map op.on := by
        unfold devicesOf
        rw [List.map_map]
        refine List.map_congr_left fun x hx => ?_
        obtain ⟨hx, haccount⟩ := List.mem_filter.mp hx
        exact op.on_load _ _ _ x (h.own x hx (congrArg some (of_decide_eq_true haccount).symm))
      exact congrArg (fun store => AccountStore.mk _ _ _ store _ _ _) hown
    · intro other _ hne
      have hsame := hothers other.id fun he => hne (Option.some.inj he).symm
      exact congrArg (fun store => AccountStore.mk _ _ _ store _ _ _) hsame

end Nio.Store
