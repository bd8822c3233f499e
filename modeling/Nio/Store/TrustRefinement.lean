import Nio.Store.Database
import Mathlib.Data.List.Dedup
import Mathlib.Data.List.Perm.Basic

/-!
# The trust rows of `SqliteStore` refine a map

What a trust store is for is a map from devices to trust states. Each operation on the database is
the operation on that map, except an `ignore_devices` that reads too few rows: its assertion fails
and the transaction leaves the map as it was.

* `SqliteStore.Refines.call` — one operation on the database is one step of the map
* `SqliteStore.getDeviceIds_length_iff` — the query finds a row for each device exactly when no
  150 devices that are looked up together repeat one
-/

namespace Nio.Store

open Nio.Py (Str py)

/-- A call of one of the trust methods. -/
inductive TrustOp where
  | mark (m : Mark) (device : OlmDevice)
  | unmark (m : Mark) (device : OlmDevice)
  | ignoreDevices (devices : List OlmDevice)
  deriving DecidableEq, Repr

/-- The devices that a call is about. -/
def TrustOp.devices : TrustOp → List OlmDevice
  | .mark _ device => [device]
  | .unmark _ device => [device]
  | .ignoreDevices devices => devices

/-- What a call does to the map of trust states. -/
def TrustOp.spec (a : TrustStates) : TrustOp → TrustStates
  | .mark m device => a.assign [device] m.state
  | .unmark m device => if a device = m.state then a.assign [device] .unset else a
  | .ignoreDevices devices => a.assign devices .ignored

namespace DefaultStore

/-- The call of one method; what it returns or raises is dropped. -/
def call (s : DefaultStore) : TrustOp → DefaultStore
  | .mark .verified device => (s.verifyDevice device).1
  | .mark .blacklisted device => (s.blacklistDevice device).1
  | .mark .ignored device => (s.ignoreDevice device).1
  | .unmark .verified device => (s.unverifyDevice device).1
  | .unmark .blacklisted device => (s.unblacklistDevice device).1
  | .unmark .ignored device => (s.unignoreDevice device).1
  | .ignoreDevices devices => (s.ignoreDevices devices).1

/-- `is_device_verified`, `is_device_blacklisted` or `is_device_ignored` -/
def answer (s : DefaultStore) : Mark → OlmDevice → Bool
  | .verified => s.isDeviceVerified
  | .blacklisted => s.isDeviceBlacklisted
  | .ignored => s.isDeviceIgnored

theorem answer_iff {s : DefaultStore} {m : Mark} {d : OlmDevice} :
    s.answer m d = true ↔ Key.fromOlmdevice d ∈ s.db m := by
  cases m <;> simp [answer, isDeviceVerified, isDeviceBlacklisted, isDeviceIgnored, db]

end DefaultStore

namespace SqliteStore

def call (s : SqliteStore) : TrustOp → SqliteStore
  | .mark .verified device => (s.verifyDevice device).1
  | .mark .blacklisted device => (s.blacklistDevice device).1
  | .mark .ignored device => (s.ignoreDevice device).1
  | .unmark .verified device => (s.unverifyDevice device).1
  | .unmark .blacklisted device => (s.unblacklistDevice device).1
  | .unmark .ignored device => (s.unignoreDevice device).1
  | .ignoreDevices devices => (s.ignoreDevices devices).1

def answer (s : SqliteStore) : Mark → OlmDevice → Bool
  | .verified => s.isDeviceVerified
  | .blacklisted => s.isDeviceBlacklisted
  | .ignored => s.isDeviceIgnored

end SqliteStore

/-! ## `SqliteStore` -/

/-- The chunks make up the list. -/
theorem flatten_chunks {α : Type} {n : Nat} (hn : 0 < n) (l : List α) : (chunks n l).flatten = l := by
  have htake : ∀ k, (((List.range k).map fun i => (l.drop (i * n)).take n)).flatten
      = l.take (k * n) := by
    intro k
    induction k with
    | zero => simp
    | succ k ih =>
      rw [List.range_succ, List.map_append, List.flatten_append, ih, Nat.succ_mul, List.take_add]
      simp
  rw [chunks, htake]
  refine List.take_of_length_le ?_
  have h := Nat.lt_div_mul_add hn (a := l.length + n - 1)
  omega

namespace SqliteStore

/-- Replacing a row is seen under its id only. -/
theorem rowState_replace (rows : List (Nat × TrustState)) (i j : Nat) (t : TrustState) :
    rowState (replace rows i t) j = if j = i then some t else rowState rows j := by
  unfold rowState replace
  rw [List.find?_append, List.find?_filter]
  split
  · next h =>
    subst h
    rw [List.find?_eq_none.mpr]
    · simp
    · intro r _
      simp
  · next h =>
    have hne : (fun r : Nat × TrustState => decide (r.1 ≠ i ∧ r.1 = j))
        = fun r => decide (r.1 = j) := by
      funext r
      by_cases hr : r.1 = j
      · simp [hr, h]
      · simp [hr]
    simp only [decide_eq_true_eq, hne, List.find?_singleton]
    rw [if_neg (fun h' => h h'.symm), Option.or_none]

theorem replaceMany_eq (rows : List (Nat × TrustState)) (ids : List Nat) :
    replaceMany rows ids = ids.foldl (fun rows id => replace rows id .ignored) rows := by
  rw [replaceMany, ← List.foldl_flatten, flatten_chunks (by decide)]

/-- So is replacing many. -/
theorem rowState_replaceMany (rows : List (Nat × TrustState)) (ids : List Nat) (j : Nat) :
    rowState (replaceMany rows ids) j = if j ∈ ids then some .ignored else rowState rows j := by
  rw [replaceMany_eq]
  induction ids generalizing rows with
  | nil => simp
  | cons i ids ih =>
    rw [List.foldl_cons, ih, rowState_replace]
    by_cases h1 : j ∈ ids
    · simp [h1]
    · simp [h1]

/-- The state in the row of a device. -/
def stateOf (s : SqliteStore) (device : OlmDevice) : Option TrustState :=
  (s.getDevice device).bind fun d => rowState s.deviceTrustState d.id

theorem isMarked_iff {s : SqliteStore} {m : Mark} {d : OlmDevice} :
    s.isMarked m d = true ↔ s.stateOf d = some m.state := by
  unfold isMarked stateOf
  cases s.getDevice d with
  | none => simp
  | some r =>
    simp only [Option.bind_some]
    cases rowState s.deviceTrustState r.id <;> simp

theorem answer_iff {s : SqliteStore} {m : Mark} {d : OlmDevice} :
    s.answer m d = true ↔ s.stateOf d = some m.state := by
  rw [← isMarked_iff]
  cases m <;> rfl

/-- Every device has a row of the store's own account. -/
def Knows (s : SqliteStore) (known : List OlmDevice) : Prop :=
  ∃ acc, s.account = some acc ∧ ∀ d ∈ known, ∃ r ∈ s.deviceKeys.rows,
    r.userId = d.userId ∧ r.deviceId = d.deviceId ∧ r.account = acc

/-- A device that the store knows has a row. -/
theorem getDevice_of_knows {s : SqliteStore} {known : List OlmDevice} (hk : s.Knows known)
    {d : OlmDevice} (hd : d ∈ known) :
    ∃ r ∈ s.deviceKeys.rows, s.getDevice d = some r ∧ r.userId = d.userId ∧
      r.deviceId = d.deviceId ∧ s.account = some r.account := by
  obtain ⟨acc, hacc, hrows⟩ := hk
  obtain ⟨r, hr, h1, h2, h3⟩ := hrows d hd
  have hsome : (s.deviceKeys.rows.find? fun r =>
      r.userId = d.userId ∧ r.deviceId = d.deviceId ∧ r.account = acc).isSome := by
    rw [List.find?_isSome]
    exact ⟨r, hr, by simp [h1, h2, h3]⟩
  obtain ⟨r', hr'⟩ := Option.isSome_iff_exists.mp hsome
  have hprop : r'.userId = d.userId ∧ r'.deviceId = d.deviceId ∧ r'.account = acc := by
    simpa using List.find?_some hr'
  refine ⟨r', List.mem_of_find?_eq_some hr', ?_, hprop.1, hprop.2.1, by rw [hacc, hprop.2.2]⟩
  simp only [getDevice, hacc, hr']

/-- Two rows of the table with one id are one row. -/
theorem row_ext {s : SqliteStore} {r r' : DeviceKeys} (hr : r ∈ s.deviceKeys.rows)
    (hr' : r' ∈ s.deviceKeys.rows) (h : r.id = r'.id) : r = r' :=
  List.inj_on_of_nodup_map s.deviceKeys.id_nodup hr hr' h

/-- The rows of two known devices are different rows. -/
theorem id_eq_iff {s : SqliteStore} {known : List OlmDevice} (hfix : KeyStore.FixedKeys known)
    (hk : s.Knows known) {d d' : OlmDevice} (hd : d ∈ known) (hd' : d' ∈ known) {r r' : DeviceKeys}
    (hr : s.getDevice d = some r) (hr' : s.getDevice d' = some r') : r.id = r'.id ↔ d = d' := by
  constructor
  · intro h
    obtain ⟨q, hq, hqd, h1, h2, -⟩ := getDevice_of_knows hk hd
    obtain ⟨q', hq', hqd', h1', h2', -⟩ := getDevice_of_knows hk hd'
    rw [hr, Option.some.injEq] at hqd
    rw [hr', Option.some.injEq] at hqd'
    subst hqd hqd'
    have hrow := row_ext hq hq' h
    subst hrow
    exact hfix d hd d' hd' (h1.symm.trans h1') (h2.symm.trans h2')
  · intro h
    subst h
    rw [hr, Option.some.injEq] at hr'
    rw [hr']

/-- An update of the row of one known device is seen by that device alone. -/
theorem stateOf_replace {s s' : SqliteStore} {known : List OlmDevice}
    (hfix : KeyStore.FixedKeys known) (hk : s.Knows known) {d d' : OlmDevice} (hd : d ∈ known)
    (hd' : d' ∈ known) {r : DeviceKeys} {t : TrustState} (hr : s.getDevice d = some r)
    (hacc : s'.account = s.account) (hkeys : s'.deviceKeys = s.deviceKeys)
    (hrows : s'.deviceTrustState = replace s.deviceTrustState r.id t) :
    s'.stateOf d' = if d' ∈ [d] then some t else s.stateOf d' := by
  obtain ⟨r', -, hr', -⟩ := getDevice_of_knows hk hd'
  have hget : s'.getDevice d' = s.getDevice d' := by
    unfold getDevice
    rw [hacc, hkeys]
  have hid : r'.id = r.id ↔ d' = d := id_eq_iff hfix hk hd' hd hr' hr
  simp only [stateOf, hget, hr', Option.bind_some, hrows, rowState_replace, hid,
    List.mem_singleton]

/-- The map that the database and the device objects stand for. -/
structure Refines (s : SqliteStore) (known : List OlmDevice) (a : TrustStates) : Prop where
  row : ∀ d ∈ known, ∀ m : Mark, s.stateOf d = some m.state ↔ a d = m.state
  object : ∀ d ∈ known, s.trustState d = a d

theorem Refines.congr {s : SqliteStore} {known : List OlmDevice} {a b : TrustStates}
    (h : s.Refines known a) (hab : ∀ d ∈ known, a d = b d) : s.Refines known b :=
  ⟨fun d hd m => by rw [← hab d hd]; exact h.row d hd m,
    fun d hd => by rw [← hab d hd]; exact h.object d hd⟩

/-- An update of the rows and of the objects of the same devices. -/
theorem Refines.assign {s s' : SqliteStore} {known ds : List OlmDevice} {a : TrustStates}
    (h : s.Refines known a) (t : TrustState)
    (hrow : ∀ d ∈ known, s'.stateOf d = if d ∈ ds then some t else s.stateOf d)
    (hobj : s'.trustState = s.trustState.assign ds t) : s'.Refines known (a.assign ds t) := by
  constructor
  · intro d hd m
    rw [hrow d hd]
    simp only [TrustStates.assign]
    split
    · simp
    · exact h.row d hd m
  · intro d hd
    rw [hobj]
    simp only [TrustStates.assign, h.object d hd]

/-- Marking a device refines the assignment of its state, -/
theorem Refines.mark {s : SqliteStore} {known : List OlmDevice} {a : TrustStates}
    (hfix : KeyStore.FixedKeys known) (hk : s.Knows known) (h : s.Refines known a) (m : Mark)
    {d : OlmDevice} (hd : d ∈ known) :
    (s.mark m d).1.Refines known (a.assign [d] m.state) := by
  obtain ⟨r, -, hr, -⟩ := getDevice_of_knows hk hd
  unfold SqliteStore.mark
  split
  · next hm =>
    -- nothing is written, and the map has the state already
    refine h.congr fun d' hd' => ?_
    rw [isMarked_iff, h.row d hd] at hm
    simp only [TrustStates.assign, List.mem_singleton]
    split
    · next he => rw [he, hm]
    · rfl
  · simp only [hr]
    exact h.assign _ (fun d' hd' => stateOf_replace hfix hk hd hd' hr rfl rfl rfl) rfl

/-- taking a mark back that of the unset state -/
theorem Refines.unmark {s : SqliteStore} {known : List OlmDevice} {a : TrustStates}
    (hfix : KeyStore.FixedKeys known) (hk : s.Knows known) (h : s.Refines known a) (m : Mark)
    {d : OlmDevice} (hd : d ∈ known) :
    (s.unmark m d).1.Refines known ((TrustOp.unmark m d).spec a) := by
  obtain ⟨r, -, hr, -⟩ := getDevice_of_knows hk hd
  unfold SqliteStore.unmark
  simp only [TrustOp.spec]
  split
  · next hm =>
    rw [isMarked_iff, h.row d hd] at hm
    rw [if_pos hm]
    simp only [hr]
    exact h.assign _ (fun d' hd' => stateOf_replace hfix hk hd hd' hr rfl rfl rfl) rfl
  · next hm =>
    rw [isMarked_iff, h.row d hd] at hm
    rwa [if_neg hm]

/-! ### `ignore_devices` -/

/-- The query finds one row for each device: where the row-value query runs, no 150 devices that
are looked up together hold one device twice. -/
def OneRowEach (s : SqliteStore) (devices : List OlmDevice) : Prop :=
  s.rowValues = true → ∀ data ∈ chunks 150 devices, data.Nodup

instance (s : SqliteStore) (devices : List OlmDevice) : Decidable (s.OneRowEach devices) :=
  inferInstanceAs (Decidable (_ → _))

theorem chunks_map {α β : Type} (n : Nat) (f : α → β) (l : List α) :
    chunks n (l.map f) = (chunks n l).map (List.map f) := by
  simp [chunks, List.map_drop, List.map_take]

/-- The rows that one query returns, for devices that all have a row. -/
theorem query_perm {s : SqliteStore} {known data : List OlmDevice}
    (hfix : KeyStore.FixedKeys known) (hk : s.Knows known) (hdata : ∀ d ∈ data, d ∈ known) {acc : Nat}
    (hacc : s.account = some acc) :
    ((s.deviceKeys.rows.filter fun r => r.account = acc ∧
        (r.userId, r.deviceId) ∈ data.map fun d => (d.userId, d.deviceId)).map
          fun r => (r.userId, r.deviceId)).Perm
      (data.dedup.map fun d => (d.userId, d.deviceId)) := by
  refine (List.perm_ext_iff_of_nodup ?_ ?_).mpr ?_
  · -- rows of one account that agree in both ids are one row
    refine List.Nodup.map_on ?_ ?_
    · intro r hr r' hr' he
      obtain ⟨hr, hp⟩ := List.mem_filter.mp hr
      obtain ⟨hr', hp'⟩ := List.mem_filter.mp hr'
      refine List.inj_on_of_nodup_map s.deviceKeys.unique hr hr' ?_
      rw [(of_decide_eq_true hp).1, (of_decide_eq_true hp').1, he]
    · exact List.Nodup.filter _ (List.Nodup.of_map _ s.deviceKeys.id_nodup)
  · refine List.Nodup.map_on ?_ (List.nodup_dedup data)
    intro d hd d' hd' he
    simp only [Prod.mk.injEq] at he
    exact hfix d (hdata d (List.mem_dedup.mp hd)) d' (hdata d' (List.mem_dedup.mp hd')) he.1 he.2
  · intro p
    constructor
    · intro hp
      obtain ⟨r, hr, rfl⟩ := List.mem_map.mp hp
      obtain ⟨-, hq⟩ := List.mem_filter.mp hr
      obtain ⟨d, hd, he⟩ := List.mem_map.mp (of_decide_eq_true hq).2
      exact List.mem_map.mpr ⟨d, List.mem_dedup.mpr hd, he⟩
    · intro hp
      obtain ⟨d, hd, rfl⟩ := List.mem_map.mp hp
      have hd := List.mem_dedup.mp hd
      obtain ⟨r, hr, -, h1, h2, h3⟩ := getDevice_of_knows hk (hdata d hd)
      rw [hacc, Option.some.injEq] at h3
      refine List.mem_map.mpr ⟨r, List.mem_filter.mpr ⟨hr, decide_eq_true ⟨h3.symm, ?_⟩⟩, ?_⟩
      · exact List.mem_map.mpr ⟨d, hd, by rw [h1, h2]⟩
      · rw [h1, h2]

/-- The query finds as many rows as the data has devices. -/
theorem query_length {s : SqliteStore} {known data : List OlmDevice}
    (hfix : KeyStore.FixedKeys known) (hk : s.Knows known) (hdata : ∀ d ∈ data, d ∈ known) {acc : Nat}
    (hacc : s.account = some acc) :
    (s.deviceKeys.rows.filter fun r => r.account = acc ∧
        (r.userId, r.deviceId) ∈ data.map fun d => (d.userId, d.deviceId)).length
      = data.dedup.length := by
  have h := (query_perm hfix hk hdata hacc).length_eq
  rwa [List.length_map, List.length_map] at h

theorem length_dedup_le {α : Type} [DecidableEq α] (l : List α) : l.dedup.length ≤ l.length :=
  (List.dedup_sublist l).length_le

theorem nodup_iff_length_dedup {α : Type} [DecidableEq α] {l : List α} :
    l.Nodup ↔ l.dedup.length = l.length :=
  ⟨fun h => by rw [List.dedup_eq_self.mpr h],
    fun h => List.dedup_eq_self.mp ((List.dedup_sublist l).eq_of_length h)⟩

/-- The ids are as many as the devices exactly when none is given twice. -/
theorem getDeviceIds_length_iff {s : SqliteStore} {known ds : List OlmDevice}
    (hfix : KeyStore.FixedKeys known) (hk : s.Knows known) (hds : ∀ d ∈ ds, d ∈ known) {acc : Nat}
    (hacc : s.account = some acc) :
    (s.getDeviceIds acc ds).length = ds.length ↔ ∀ data ∈ chunks 150 ds, data.Nodup := by
  have hin : ∀ data ∈ chunks 150 ds, ∀ d ∈ data, d ∈ known := by
    intro data hdata d hd
    refine hds d ?_
    rw [← flatten_chunks (by decide : 0 < 150) ds]
    exact List.mem_flatten.mpr ⟨data, hdata, hd⟩
  have hlen : (s.getDeviceIds acc ds).length = ((chunks 150 ds).map (·.dedup.length)).sum := by
    rw [getDeviceIds, chunks_map, List.length_flatMap, List.map_map]
    congr 1
    refine List.map_congr_left fun data hdata => ?_
    simp only [Function.comp, List.length_map]
    exact query_length hfix hk (hin data hdata) hacc
  have hall : ds.length = ((chunks 150 ds).map (·.length)).sum := by
    rw [← List.length_flatten, flatten_chunks (by decide)]
  rw [hlen, hall]
  clear hlen hall hin
  generalize chunks 150 ds = cs
  -- the dedups are no longer than the chunks, so the sums agree only chunk by chunk
  have hle : ∀ cs : List (List OlmDevice),
      (cs.map (·.dedup.length)).sum ≤ (cs.map (·.length)).sum := by
    intro cs
    induction cs with
    | nil => simp
    | cons c cs ih =>
      have := length_dedup_le c
      simp only [List.map_cons, List.sum_cons]
      omega
  induction cs with
  | nil => simp
  | cons c cs ih =>
    have h1 := hle cs
    have h2 := length_dedup_le c
    rw [List.forall_mem_cons, nodup_iff_length_dedup, List.map_cons, List.map_cons,
      List.sum_cons, List.sum_cons]
    constructor
    · intro h
      exact ⟨by omega, ih.mp (by omega)⟩
    · rintro ⟨hc, hcs⟩
      have := ih.mpr hcs
      omega

/-- The id of a device is found exactly when the device is given. -/
theorem mem_getDeviceIds {s : SqliteStore} {known ds : List OlmDevice}
    (hfix : KeyStore.FixedKeys known) (hk : s.Knows known) (hds : ∀ d ∈ ds, d ∈ known) {acc : Nat}
    (hacc : s.account = some acc) {d : OlmDevice} (hd : d ∈ known) {r : DeviceKeys}
    (hr : s.getDevice d = some r) : r.id ∈ s.getDeviceIds acc ds ↔ d ∈ ds := by
  obtain ⟨q, hq, hqd, hq1, hq2, hq3⟩ := getDevice_of_knows hk hd
  rw [hr, Option.some.injEq] at hqd
  subst hqd
  rw [hacc, Option.some.injEq] at hq3
  simp only [getDeviceIds, chunks_map, List.mem_flatMap, List.mem_map]
  constructor
  · rintro ⟨_, ⟨data, hdata, rfl⟩, r', hr', hid⟩
    obtain ⟨hr', hp⟩ := List.mem_filter.mp hr'
    have := row_ext hr' hq hid
    subst this
    obtain ⟨d', hd', he⟩ := List.mem_map.mp (of_decide_eq_true hp).2
    simp only [Prod.mk.injEq, hq1, hq2] at he
    have hmem : d' ∈ ds := by
      rw [← flatten_chunks (by decide : 0 < 150) ds]
      exact List.mem_flatten.mpr ⟨data, hdata, hd'⟩
    rw [← hfix d' (hds d' hmem) d hd he.1 he.2]
    exact hmem
  · intro hmem
    rw [← flatten_chunks (by decide : 0 < 150) ds] at hmem
    obtain ⟨data, hdata, hdd⟩ := List.mem_flatten.mp hmem
    refine ⟨_, ⟨data, hdata, rfl⟩, r, List.mem_filter.mpr ⟨hq, decide_eq_true ⟨hq3.symm, ?_⟩⟩, rfl⟩
    exact List.mem_map.mpr ⟨d, hdd, by rw [hq1, hq2]⟩

/-- The older lookup gives the ids of the given devices in order. -/
theorem legacyGetDeviceIds_eq {s : SqliteStore} {known : List OlmDevice} (hk : s.Knows known)
    {acc : Nat} (hacc : s.account = some acc) (ds : List OlmDevice) (hds : ∀ d ∈ ds, d ∈ known) :
    s.legacyGetDeviceIds acc ds
      = .ok (ds.filterMap fun d => (s.getDevice d).map (·.id)) := by
  induction ds with
  | nil => rfl
  | cons d ds ih =>
    obtain ⟨r, -, hr, -⟩ := getDevice_of_knows hk (hds d List.mem_cons_self)
    have hfind : (s.deviceKeys.rows.find? fun r =>
        r.account = acc ∧ r.userId = d.userId ∧ r.deviceId = d.deviceId) = some r := by
      rw [← hr, getDevice, hacc]
      congr 1
      funext r
      exact decide_eq_decide.mpr ⟨fun h => ⟨h.2.1, h.2.2, h.1⟩, fun h => ⟨h.2.2, h.1, h.2.1⟩⟩
    rw [legacyGetDeviceIds, hfind]
    simp only [ih fun d' hd' => hds d' (List.mem_cons_of_mem _ hd'), List.filterMap_cons, hr]
    rfl

theorem legacy_length {s : SqliteStore} {known : List OlmDevice} (hk : s.Knows known)
    (ds : List OlmDevice) (hds : ∀ d ∈ ds, d ∈ known) :
    (ds.filterMap fun d => (s.getDevice d).map (·.id)).length = ds.length := by
  induction ds with
  | nil => rfl
  | cons d ds ih =>
    obtain ⟨r, -, hr, -⟩ := getDevice_of_knows hk (hds d List.mem_cons_self)
    simp [hr, ih fun d' hd' => hds d' (List.mem_cons_of_mem _ hd')]

theorem mem_legacy {s : SqliteStore} {known ds : List OlmDevice}
    (hfix : KeyStore.FixedKeys known) (hk : s.Knows known) (hds : ∀ d ∈ ds, d ∈ known)
    {d : OlmDevice} (hd : d ∈ known) {r : DeviceKeys} (hr : s.getDevice d = some r) :
    (r.id ∈ ds.filterMap fun d => (s.getDevice d).map (·.id)) ↔ d ∈ ds := by
  simp only [List.mem_filterMap, Option.map_eq_some_iff]
  constructor
  · rintro ⟨d', hd', r', hr', hid⟩
    rw [← (id_eq_iff hfix hk (hds d' hd') hd hr' hr).mp hid]
    exact hd'
  · intro hmem
    exact ⟨d, hmem, r, hr, rfl⟩

/-- Either every device gets its row, or the assertion fails and nothing is written. -/
theorem ignoreDevices_cases {s : SqliteStore} {known ds : List OlmDevice}
    (hfix : KeyStore.FixedKeys known) (hk : s.Knows known) (hds : ∀ d ∈ ds, d ∈ known) :
    (s.OneRowEach ds ∧ ∃ ids : List Nat,
      (∀ d ∈ known, ∀ r, s.getDevice d = some r → (r.id ∈ ids ↔ d ∈ ds)) ∧
      (s.ignoreDevices ds).1 = { s with
        deviceTrustState := replaceMany s.deviceTrustState ids
        trustState := s.trustState.assign ds .ignored }) ∨
    (¬ s.OneRowEach ds ∧ (s.ignoreDevices ds).1 = s) := by
  obtain ⟨acc, hacc, -⟩ := id hk
  cases hrv : s.rowValues with
  | true =>
    have hiff := getDeviceIds_length_iff hfix hk hds hacc
    by_cases hlen : (s.getDeviceIds acc ds).length = ds.length
    · refine Or.inl ⟨fun _ => hiff.mp hlen, s.getDeviceIds acc ds, ?_, ?_⟩
      · intro d hd r hr
        exact mem_getDeviceIds hfix hk hds hacc hd hr
      · simp [ignoreDevices, hacc, hrv, hlen]
    · refine Or.inr ⟨fun h => hlen (hiff.mpr (h hrv)), ?_⟩
      simp [ignoreDevices, hacc, hrv, hlen]
  | false =>
    refine Or.inl ⟨fun h => ?_, _, fun d hd r hr => mem_legacy hfix hk hds hd hr, ?_⟩
    · rw [hrv] at h
      cases h
    · simp [ignoreDevices, hacc, hrv, legacyGetDeviceIds_eq hk hacc ds hds, legacy_length hk ds hds]

/-- and ignoring devices that of many, where the lookup finds one row for each. -/
theorem Refines.ignoreDevices {s : SqliteStore} {known ds : List OlmDevice} {a : TrustStates}
    (hfix : KeyStore.FixedKeys known) (hk : s.Knows known) (h : s.Refines known a)
    (hds : ∀ d ∈ ds, d ∈ known) :
    (s.ignoreDevices ds).1.Refines known
      (if s.OneRowEach ds then a.assign ds .ignored else a) := by
  rcases ignoreDevices_cases hfix hk hds with ⟨hone, ids, hids, heq⟩ | ⟨hone, heq⟩
  · rw [if_pos hone, heq]
    refine h.assign _ (fun d hd => ?_) rfl
    obtain ⟨r, -, hr, -⟩ := getDevice_of_knows hk hd
    have hget : ∀ rows ts, ({ s with deviceTrustState := rows, trustState := ts } :
        SqliteStore).getDevice d = some r := fun _ _ => hr
    rw [stateOf, stateOf, hr, hget]
    simp only [Option.bind_some, rowState_replaceMany, hids d hd r hr]
  · rw [if_neg hone, heq]
    exact h

/-- The map after one operation on the database. -/
def specWith (s : SqliteStore) (a : TrustStates) (op : TrustOp) : TrustStates :=
  match op with
  | .ignoreDevices ds => if s.OneRowEach ds then op.spec a else a
  | _ => op.spec a

/-- One operation on the database is the operation on the map, unless `ignore_devices` reads too
few rows and its assertion undoes it. -/
theorem Refines.call {s : SqliteStore} {known : List OlmDevice} {a : TrustStates}
    (hfix : KeyStore.FixedKeys known) (hk : s.Knows known) (h : s.Refines known a) {op : TrustOp}
    (hop : ∀ d ∈ op.devices, d ∈ known) : (s.call op).Refines known (s.specWith a op) := by
  cases op with
  | mark m d =>
    have hm := h.mark hfix hk m (hop d List.mem_cons_self)
    cases m <;> exact hm
  | unmark m d =>
    have hm := h.unmark hfix hk m (hop d List.mem_cons_self)
    cases m <;> exact hm
  | ignoreDevices ds => exact h.ignoreDevices hfix hk hop

/-- Trust operations leave the devices alone. -/
theorem call_tables (s : SqliteStore) (op : TrustOp) :
    (s.call op).account = s.account ∧ (s.call op).deviceKeys = s.deviceKeys := by
  have hmark : ∀ m d, (s.mark m d).1.account = s.account ∧
      (s.mark m d).1.deviceKeys = s.deviceKeys := by
    intro m d
    unfold mark
    split
    · exact ⟨rfl, rfl⟩
    · split <;> exact ⟨rfl, rfl⟩
  have hunmark : ∀ m d, (s.unmark m d).1.account = s.account ∧
      (s.unmark m d).1.deviceKeys = s.deviceKeys := by
    intro m d
    unfold unmark
    split
    · split <;> exact ⟨rfl, rfl⟩
    · exact ⟨rfl, rfl⟩
  cases op with
  | mark m d => cases m <;> exact hmark _ d
  | unmark m d => cases m <;> exact hunmark _ d
  | ignoreDevices ds =>
    simp only [call, ignoreDevices]
    split
    · exact ⟨rfl, rfl⟩
    · split
      · exact ⟨rfl, rfl⟩
      · split <;> exact ⟨rfl, rfl⟩

theorem Knows.call {s : SqliteStore} {known : List OlmDevice} (hk : s.Knows known)
    (op : TrustOp) : (s.call op).Knows known := by
  unfold Knows
  rw [(call_tables s op).1, (call_tables s op).2]
  exact hk

end SqliteStore

end Nio.Store
