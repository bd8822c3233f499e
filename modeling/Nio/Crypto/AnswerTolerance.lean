import Nio.Crypto.AnswerDevices

/-!
# Which answers to key queries are tolerated

An answer is tolerated when it is handled without an exception and its entries that are malformed,
unsigned or undecodable are skipped. Of the answers to key queries that the schema lets through, not
all are: an id can be missing, or a name that cannot be written.

* `ToleratesQuery` — what is asked of the answer to a key query
* `HarmlessQuery` — the entries with which it holds
-/

namespace Nio.Crypto

open Nio.Py
open Nio.Lib

variable {env : KeyQueryEnv} {lib : SignatureLibrary}

/-! ## Entries -/

/-- A user and a device have an entry in an answer. -/
def HasEntry (users : List (Str × Json)) (k : Str × Str) (v : Json) : Prop :=
  ∃ entries, (k.1, .obj entries) ∈ users ∧ (k.2, v) ∈ entries

def dropEntry (deviceId : Str) : Json → Json
  | .obj entries => .obj (dictErase entries deviceId)
  | v => v

/-- An answer in which an entry is absent -/
def withoutEntry (users : List (Str × Json)) (k : Str × Str) : List (Str × Json) :=
  users.map fun p => (p.1, if p.1 = k.1 then dropEntry k.2 p.2 else p.2)

/-- A dictionary has each key once. -/
structure DistinctEntries (users : List (Str × Json)) : Prop where
  userIds : (users.map (·.1)).Nodup
  deviceIds : ∀ user entries, (user, .obj entries) ∈ users → (entries.map (·.1)).Nodup

theorem map_fst_withoutEntry (users : List (Str × Json)) (k : Str × Str) :
    (withoutEntry users k).map (·.1) = users.map (·.1) := by
  unfold withoutEntry
  rw [List.map_map]
  rfl

/-- The entries of a user in an answer that lacks one -/
theorem mem_withoutEntry {users : List (Str × Json)} {k : Str × Str} {user : Str}
    {entries : List (Str × Json)} :
    (user, .obj entries) ∈ withoutEntry users k ↔
      ∃ entries₀, (user, .obj entries₀) ∈ users ∧
        entries = if user = k.1 then dictErase entries₀ k.2 else entries₀ := by
  unfold withoutEntry
  rw [List.mem_map]
  constructor
  · rintro ⟨⟨user', v⟩, hmem, h⟩
    obtain ⟨rfl, hv⟩ := Prod.mk.inj h
    dsimp only at hv
    split at hv
    · next hu =>
      cases v with
      | obj entries₀ =>
        obtain rfl := Json.obj.inj hv
        exact ⟨entries₀, hmem, by rw [if_pos hu]⟩
      | null | bool _ | int _ | float _ | str _ | arr _ => cases hv
    · next hu => exact ⟨entries, hv ▸ hmem, by rw [if_neg hu]⟩
  · rintro ⟨entries₀, hmem, rfl⟩
    refine ⟨_, hmem, ?_⟩
    dsimp only
    split
    · rfl
    · rfl

theorem DistinctEntries.without {users : List (Str × Json)} (h : DistinctEntries users)
    (k : Str × Str) : DistinctEntries (withoutEntry users k) := by
  refine ⟨by rw [map_fst_withoutEntry]; exact h.userIds, fun user entries hmem => ?_⟩
  obtain ⟨entries₀, hmem₀, rfl⟩ := mem_withoutEntry.mp hmem
  have hn := h.deviceIds user entries₀ hmem₀
  split
  · exact (List.Sublist.map _ (List.filter_sublist)).nodup hn
  · exact hn

/-! ## The outcome for a device -/

/-- What is seen of a device after a key query: what its entry does, or nothing if its user is not
in the answer; a device that is not in it is dropped. -/
structure OutcomeAt (env : KeyQueryEnv) (lib : SignatureLibrary) (keeper : DeviceKeeper)
    (users : List (Str × Json)) (k : Str × Str) (view : DeviceView) : Prop where
  other : k.1 ∉ users.map (·.1) → view = viewOf k (keeper, [])
  listed : ∀ payload, HasEntry users k payload →
    ∃ w, answerDevice env lib k.1 (keeper, []) (k.2, payload) = .ok w ∧ view = viewOf k w
  dropped : ∀ entries, (k.1, .obj entries) ∈ users → k.2 ∉ entries.map (·.1) →
    view = viewOf k (dropDevices k.1 [] (keeper, []))

theorem isDropped_listed {userId : Str} {current : List Str} {d : OlmDevice}
    (h : d.deviceId ∈ current) : isDropped userId current d = false := by
  simp [isDropped, h]

theorem isDropped_unlisted {userId : Str} {current : List Str} {d : OlmDevice}
    (h : d.deviceId ∉ current) : isDropped userId current d = isDropped userId [] d := by
  simp [isDropped, h]

theorem key_of_mem_view {k : Str × Str} {w : KeyQueryWork} {d : OlmDevice}
    (h : d ∈ (viewOf k w).devices) : d.key = k :=
  of_decide_eq_true (List.mem_filter.mp h).2

/-- A device of the answer is not dropped. -/
theorem viewOf_dropDevices_listed {userId : Str} {current : List Str} {deviceId : Str}
    (h : deviceId ∈ current) (w : KeyQueryWork) :
    viewOf (userId, deviceId) (dropDevices userId current w) = viewOf (userId, deviceId) w := by
  rw [viewOf_dropDevices]
  have hnot : ∀ d ∈ (viewOf (userId, deviceId) w).devices, isDropped userId current d = false := by
    intro d hd
    refine isDropped_listed ?_
    rw [show d.deviceId = deviceId from congrArg Prod.snd (key_of_mem_view hd)]
    exact h
  have hmap : (viewOf (userId, deviceId) w).devices.map (dropDevice userId current) =
      (viewOf (userId, deviceId) w).devices := by
    rw [List.map_congr_left fun d hd => show dropDevice userId current d = d by
      simp [dropDevice, hnot d hd], List.map_id']
  have hchanged : ((∃ d ∈ (viewOf (userId, deviceId) w).devices, isDropped userId current d = true) ∨
      (viewOf (userId, deviceId) w).changed) = (viewOf (userId, deviceId) w).changed := by
    refine propext ⟨fun h => h.resolve_left ?_, Or.inr⟩
    rintro ⟨d, hd, hdropped⟩
    rw [hnot d hd] at hdropped
    cases hdropped
  rw [hmap, hchanged]

/-- Which other devices the answer has does not matter to a device that it lacks. -/
theorem viewOf_dropDevices_unlisted {userId : Str} {current : List Str} {deviceId : Str}
    (h : deviceId ∉ current) (w : KeyQueryWork) :
    viewOf (userId, deviceId) (dropDevices userId current w) =
      viewOf (userId, deviceId) (dropDevices userId [] w) := by
  rw [viewOf_dropDevices, viewOf_dropDevices]
  have hsame : ∀ d ∈ (viewOf (userId, deviceId) w).devices,
      isDropped userId current d = isDropped userId [] d := by
    intro d hd
    refine isDropped_unlisted ?_
    rw [show d.deviceId = deviceId from congrArg Prod.snd (key_of_mem_view hd)]
    exact h
  have hmap : (viewOf (userId, deviceId) w).devices.map (dropDevice userId current) =
      (viewOf (userId, deviceId) w).devices.map (dropDevice userId []) :=
    List.map_congr_left fun d hd => by
      unfold dropDevice
      rw [hsame d hd]
  have hchanged : (∃ d ∈ (viewOf (userId, deviceId) w).devices, isDropped userId current d = true) =
      ∃ d ∈ (viewOf (userId, deviceId) w).devices, isDropped userId [] d = true :=
    propext (exists_congr fun d => and_congr_right fun hd => by rw [hsame d hd])
  rw [hmap, hchanged]

theorem viewOf_dropDevices_congr {userId deviceId : Str} {current : List Str} {w w' : KeyQueryWork}
    (h : viewOf (userId, deviceId) w = viewOf (userId, deviceId) w') :
    viewOf (userId, deviceId) (dropDevices userId current w) =
      viewOf (userId, deviceId) (dropDevices userId current w') := by
  rw [viewOf_dropDevices, viewOf_dropDevices, h]

theorem outcomeAt_of_run {queriedUsers : Option (List Str)} {keeper : DeviceKeeper}
    {users : List (Str × Json)} {w : KeyQueryWork} (hd : DistinctEntries users)
    (h : users.foldlM (answerUser env lib queriedUsers) (keeper, []) = .ok w) (k : Str × Str) :
    OutcomeAt env lib keeper users k (viewOf k w) := by
  obtain ⟨userId, deviceId⟩ := k
  -- What is seen of a user is what its devices do in the keeper as it was.
  have huser : ∀ entries, (userId, .obj entries) ∈ users → ∃ w₁,
      entries.foldlM (answerDevice env lib userId) (enterUser queriedUsers userId keeper, []) =
        .ok w₁ ∧
      viewOf (userId, deviceId) w =
        viewOf (userId, deviceId) (dropDevices userId (entries.map (·.1)) w₁) := by
    intro entries hmem
    obtain ⟨w', hw', hview⟩ := foldlM_own (answerUser_concerns queriedUsers) hd.userIds hmem rfl h
    obtain ⟨entries', w₁, hobj, hrun, rfl⟩ := answerUser_eq_ok.mp hw'
    obtain rfl := Json.obj.inj hobj
    exact ⟨w₁, hrun, congrFun hview deviceId⟩
  refine ⟨fun hnot => ?_, fun payload hentry => ?_, fun entries hmem hnot => ?_⟩
  · exact congrFun (foldlM_others (answerUser_concerns queriedUsers) h hnot) deviceId
  · obtain ⟨entries, hmem, hentry⟩ := hentry
    obtain ⟨w₁, hrun, hview⟩ := huser entries hmem
    have hkeys : (entries.map fun p : Str × Json => (userId, p.1)).Nodup := by
      have := (hd.deviceIds userId entries hmem).map (Prod.mk_right_injective userId)
      rwa [List.map_map] at this
    obtain ⟨w₂, hw₂, hview₂⟩ := @foldlM_own _ _ _ _ _ _ _ _ (answerDevice_concerns userId) entries
      hkeys _ _ (keeper, []) _ hentry (viewOf_enterUser queriedUsers userId (keeper, []) _) hrun
    have hlisted : deviceId ∈ entries.map (·.1) := List.mem_map.mpr ⟨_, hentry, rfl⟩
    exact ⟨w₂, hw₂, (hview.trans (viewOf_dropDevices_listed hlisted w₁)).trans hview₂⟩
  · obtain ⟨w₁, hrun, hview⟩ := huser entries hmem
    rw [hview, viewOf_dropDevices_unlisted hnot]
    refine viewOf_dropDevices_congr ?_
    refine (foldlM_others (answerDevice_concerns userId) hrun ?_).trans
      (viewOf_enterUser queriedUsers userId (keeper, []) _)
    intro hmem'
    obtain ⟨p, hp, hkey⟩ := List.mem_map.mp hmem'
    exact hnot (List.mem_map.mpr ⟨p, hp, congrArg Prod.snd hkey⟩)

/-- The users of an answer are gone through when each entry can be handled by itself. -/
theorem usersRun_isOk {queriedUsers : Option (List Str)} {keeper : DeviceKeeper}
    {users : List (Str × Json)} (hd : DistinctEntries users) :
    (∃ w, users.foldlM (answerUser env lib queriedUsers) (keeper, []) = .ok w) ↔
      (∀ p ∈ users, ∃ entries, p.2 = .obj entries) ∧
        ∀ k payload, HasEntry users k payload →
          ∃ w, answerDevice env lib k.1 (keeper, []) (k.2, payload) = .ok w := by
  rw [foldlM_isOk (answerUser_concerns queriedUsers) hd.userIds]
  have hinner : ∀ userId entries, (userId, .obj entries) ∈ users →
      ((∃ w, entries.foldlM (answerDevice env lib userId)
        (enterUser queriedUsers userId keeper, []) = .ok w) ↔
      ∀ p ∈ entries, ∃ w, answerDevice env lib userId (keeper, []) p = .ok w) := by
    intro userId entries hmem
    have hkeys : (entries.map fun p : Str × Json => (userId, p.1)).Nodup := by
      have := (hd.deviceIds userId entries hmem).map (Prod.mk_right_injective userId)
      rwa [List.map_map] at this
    rw [foldlM_isOk (answerDevice_concerns userId) hkeys]
    exact forall_congr' fun p => imp_congr_right fun _ =>
      (answerDevice_concerns userId).isOk_congr (viewOf_enterUser queriedUsers userId (keeper, []) _)
  constructor
  · intro hall
    have hobj : ∀ p ∈ users, ∃ entries, p.2 = .obj entries := by
      intro p hp
      obtain ⟨w, hw⟩ := hall p hp
      obtain ⟨entries, w₁, he, -, -⟩ := answerUser_eq_ok.mp hw
      exact ⟨entries, he⟩
    refine ⟨hobj, ?_⟩
    rintro ⟨userId, deviceId⟩ payload ⟨entries, hmem, hentry⟩
    obtain ⟨w, hw⟩ := hall _ hmem
    obtain ⟨entries', w₁, he, hrun, -⟩ := answerUser_eq_ok.mp hw
    obtain rfl := Json.obj.inj he
    exact (hinner userId entries hmem).mp ⟨w₁, hrun⟩ _ hentry
  · rintro ⟨hobj, hentries⟩ ⟨userId, devices⟩ hp
    obtain ⟨entries, rfl⟩ := hobj _ hp
    obtain ⟨w₁, hrun⟩ := (hinner userId entries hp).mpr fun p hmem =>
      hentries (userId, p.1) p.2 ⟨entries, hp, hmem⟩
    exact ⟨_, answerUser_eq_ok.mpr ⟨entries, w₁, rfl, hrun, rfl⟩⟩

/-! ## Key queries -/

/-- A device that is taken can be written, unless nothing of it changes; so can its row, when it
keeps a blacklist entry. -/
def CanTake (env : KeyQueryEnv) (keeper : DeviceKeeper) (userId deviceId : Str) (keys : Keys)
    (name : Json) : Prop :=
  match lookup OlmDevice.key (userId, deviceId) keeper.deviceStore with
  | none => Storable env keeper.deviceKeys ⟨userId, deviceId, keys, name, false, .unset⟩
  | some d => ¬ Unmoved env d keys name →
    (d.keys.ed25519 ≠ keys.ed25519 → d.trustState = .blacklisted →
      (lookup DeviceKeys.key d.key keeper.deviceKeys).isSome) ∧
    Storable env keeper.deviceKeys (refreshed env d keys name)

/-- A device that is taken changes nothing. -/
def Unchanged (env : KeyQueryEnv) (keeper : DeviceKeeper) (userId deviceId : Str) (keys : Keys)
    (name : Json) : Prop :=
  ∃ d, lookup OlmDevice.key (userId, deviceId) keeper.deviceStore = some d ∧ Unmoved env d keys name

/-- What a key query asks of the entries of its answer, well formed or not, not to raise -/
structure Handleable (env : KeyQueryEnv) (lib : SignatureLibrary) (keeper : DeviceKeeper)
    (answer : KeysQueryAnswer) : Prop where
  objects : ∀ p ∈ answer.deviceKeys, ∃ entries, p.2 = .obj entries
  /-- Every payload can be read, but for the one of this device itself. -/
  readable : ∀ userId deviceId payload, HasEntry answer.deviceKeys (userId, deviceId) payload →
    ¬ (userId = env.userId ∧ deviceId = env.deviceId) → ReadablePayload lib userId deviceId payload
  /-- What is offered can be taken. -/
  taken : ∀ userId deviceId payload, HasEntry answer.deviceKeys (userId, deviceId) payload →
    ¬ (userId = env.userId ∧ deviceId = env.deviceId) →
    ∀ signingKey curveKey name, OffersDevice lib userId deviceId payload signingKey curveKey name →
      CanTake env keeper userId deviceId ⟨keyText env signingKey, keyText env curveKey⟩ name
  /-- A device that is dropped can be written. -/
  dropped : ∀ userId entries, (userId, .obj entries) ∈ answer.deviceKeys →
    ∀ d, lookup OlmDevice.key (userId, d.deviceId) keeper.deviceStore = some d →
      d.deleted = false → d.deviceId ∉ entries.map (·.1) → Storable env keeper.deviceKeys d

/-- The answers to key queries that do no harm: what changes is well formed as well. -/
structure HarmlessQuery (env : KeyQueryEnv) (lib : SignatureLibrary) (keeper : DeviceKeeper)
    (answer : KeysQueryAnswer) : Prop extends Handleable env lib keeper answer where
  wellFormed : ∀ userId deviceId payload, HasEntry answer.deviceKeys (userId, deviceId) payload →
    ¬ (userId = env.userId ∧ deviceId = env.deviceId) →
    ∀ signingKey curveKey name, OffersDevice lib userId deviceId payload signingKey curveKey name →
      WellFormedDevice lib userId deviceId payload ∨
        Unchanged env keeper userId deviceId ⟨keyText env signingKey, keyText env curveKey⟩ name

def KeysQueryAnswer.without (answer : KeysQueryAnswer) (k : Str × Str) : KeysQueryAnswer :=
  { answer with deviceKeys := withoutEntry answer.deviceKeys k }

/-- A device and its row are as they were. -/
def DeviceKeeper.SameAt (k : Str × Str) (keeper keeper' : DeviceKeeper) : Prop :=
  lookup OlmDevice.key k keeper'.deviceStore = lookup OlmDevice.key k keeper.deviceStore ∧
    lookup DeviceKeys.key k keeper'.deviceKeys = lookup DeviceKeys.key k keeper.deviceKeys

/-- A key query is handled without an exception; a device with a payload that is not well formed is
skipped, and all others come out as if it were absent. -/
def ToleratesQuery (env : KeyQueryEnv) (lib : SignatureLibrary) (keeper : DeviceKeeper)
    (answer : KeysQueryAnswer) : Prop :=
  ∃ keeper' changed, handleKeyQueryAnswer env lib keeper answer = .ok (keeper', changed) ∧
    ∀ k payload, HasEntry answer.deviceKeys k payload → ¬ WellFormedDevice lib k.1 k.2 payload →
      keeper.SameAt k keeper' ∧
      ∀ absent changed', handleKeyQueryAnswer env lib keeper (answer.without k) =
        .ok (absent, changed') →
        (∀ k', k' ≠ k → absent.SameAt k' keeper') ∧
          keeper'.usersForKeyQuery = absent.usersForKeyQuery ∧
          keeper'.trackedUsers = absent.trackedUsers

theorem answered_isOk {keeper : DeviceKeeper} {userId deviceId : Str} {keys : Keys} {name : Json} :
    (∃ w, Answered env userId deviceId keys name (keeper, []) w) ↔
      ∀ d, lookup OlmDevice.key (userId, deviceId) keeper.deviceStore = some d →
        ∃ r, refreshDevice env keeper.deviceKeys d keys name = .ok r := by
  constructor
  · rintro ⟨w, hw⟩ d hd
    cases hw with
    | added hnew => exact (nomatch hnew.symm.trans hd)
    | unmoved d' hknown hsame =>
      obtain rfl := Option.some.inj (hknown.symm.trans hd)
      exact ⟨none, refreshDevice_eq_none.mpr hsame⟩
    | refreshed d' d'' rows hknown hrefresh =>
      obtain rfl := Option.some.inj (hknown.symm.trans hd)
      exact ⟨_, hrefresh⟩
  · intro h
    cases hold : lookup OlmDevice.key (userId, deviceId) keeper.deviceStore with
    | none => exact ⟨_, .added hold⟩
    | some d =>
      obtain ⟨r, hr⟩ := h d hold
      cases r with
      | none => exact ⟨_, .unmoved d hold (refreshDevice_eq_none.mp hr)⟩
      | some r => exact ⟨_, .refreshed d r.2 r.1 hold hr⟩

/-- A device that changed can be written, by what is seen of it. -/
def SavableAt (env : KeyQueryEnv) (k : Str × Str) (w : KeyQueryWork) : Prop :=
  k ∈ w.2 → ∀ d, lookup OlmDevice.key k w.1.deviceStore = some d →
    Storable env w.1.deviceKeys d

theorem saveDeviceKeys_isOk_iff {w : KeyQueryWork} :
    (∃ rows, saveDeviceKeys env w.1.deviceKeys (changedDevices w) = .ok rows) ↔
      ∀ k, SavableAt env k w := by
  rw [saveDeviceKeys_isOk]
  constructor
  · intro h k hk d hd
    obtain rfl := key_of_lookup hd
    exact h d ((mem_changedDevices hd).mpr hk)
  · intro h d hd
    have hlookup := ofStore_changedDevices w d hd
    exact h d.key ((mem_changedDevices hlookup).mp hd) d hlookup

/-- Neither the trust in a device nor its deletion matters. -/
theorem storable_congr {rows rows' : List DeviceKeys} {d d' : OlmDevice} (hkey : d'.key = d.key)
    (hkeys : d'.keys = d.keys) (hname : d'.displayName = d.displayName)
    (hrow : (lookup DeviceKeys.key d.key rows').isSome = (lookup DeviceKeys.key d.key rows).isSome) :
    Storable env rows' d' ↔ Storable env rows d := by
  have huser : d'.userId = d.userId := congrArg Prod.fst hkey
  have hdevice : d'.deviceId = d.deviceId := congrArg Prod.snd hkey
  have hinsert : Insertable env d' ↔ Insertable env d := by
    unfold Insertable
    rw [huser, hdevice, hname]
  constructor
  · rintro ⟨h₁, h₂, h₃⟩
    rw [hname, hkey, hrow] at h₂
    rw [hkeys] at h₃
    exact ⟨hinsert.mp h₁, h₂, h₃⟩
  · rintro ⟨h₁, h₂, h₃⟩
    refine ⟨hinsert.mpr h₁, ?_, by rw [hkeys]; exact h₃⟩
    rw [hname, hkey, hrow]
    exact h₂

theorem savableAt_congr {k : Str × Str} {w w' : KeyQueryWork} (h : viewOf k w = viewOf k w') :
    SavableAt env k w ↔ SavableAt env k w' := by
  unfold SavableAt
  rw [lookup_of_viewOf h, changed_of_viewOf h]
  refine imp_congr_right fun _ => forall_congr' fun d => imp_congr_right fun hd => ?_
  obtain rfl := key_of_lookup hd
  exact storable_congr rfl rfl rfl (congrArg Option.isSome (row_of_viewOf h))

theorem savableAt_start (k : Str × Str) (keeper : DeviceKeeper) :
    SavableAt env k (keeper, []) := fun h => absurd h List.not_mem_nil

theorem savableAt_answered {keeper : DeviceKeeper} {userId deviceId : Str} {keys : Keys}
    {name : Json} {w : KeyQueryWork} (h : Answered env userId deviceId keys name (keeper, []) w) :
    SavableAt env (userId, deviceId) w ↔
      match lookup OlmDevice.key (userId, deviceId) keeper.deviceStore with
      | none => Storable env keeper.deviceKeys ⟨userId, deviceId, keys, name, false, .unset⟩
      | some d => ¬ Unmoved env d keys name →
        Storable env keeper.deviceKeys (refreshed env d keys name) := by
  -- the device that is put is the one that is saved
  have hput : ∀ (rows : List DeviceKeys) (d : OlmDevice) (renamed : Bool),
      d.key = (userId, deviceId) →
      (SavableAt env (userId, deviceId) (putDevice (keeper, []) rows d renamed) ↔
        Storable env rows d) := by
    intro rows d renamed hkey
    unfold SavableAt
    rw [lookup_putDevice, if_pos hkey.symm]
    constructor
    · exact fun h => h (by simp [putDevice, hkey]) d rfl
    · rintro h - d' hd'
      obtain rfl := Option.some.inj hd'
      exact h
  cases h with
  | added hnew =>
    rw [show lookup OlmDevice.key (userId, deviceId) keeper.deviceStore = none from hnew]
    exact hput _ _ _ rfl
  | unmoved d hknown hsame =>
    rw [show lookup OlmDevice.key (userId, deviceId) keeper.deviceStore = some d from hknown]
    exact ⟨fun _ hnot => absurd hsame hnot, fun _ => savableAt_start _ keeper⟩
  | refreshed d d' rows hknown hrefresh =>
    rw [show lookup OlmDevice.key (userId, deviceId) keeper.deviceStore = some d from hknown]
    have hr := refreshDevice_eq_some hrefresh
    have hmoved : ¬ Unmoved env d keys name := fun hsame =>
      absurd (hrefresh.symm.trans (refreshDevice_eq_none.mpr hsame)) (by simp)
    have hkey : d.key = (userId, deviceId) := key_of_lookup hknown
    dsimp only
    rw [hput _ _ _ (hr.key.trans hkey)]
    have hsame : Storable env rows d' ↔ Storable env keeper.deviceKeys (refreshed env d keys name) := by
      refine storable_congr (hr.key.trans (key_refreshed d keys name).symm) ?_ ?_ ?_
      · rw [hr.fields]
      · rw [hr.fields]
      · rw [key_refreshed]
        exact hr.present
    rw [hsame]
    exact ⟨fun h _ => h, fun h => h hmoved⟩

theorem savableAt_dropped {keeper : DeviceKeeper}
    (hn : (keeper.deviceStore.map OlmDevice.key).Nodup) {userId deviceId : Str} :
    SavableAt env (userId, deviceId) (dropDevices userId [] (keeper, [])) ↔
      ∀ d, lookup OlmDevice.key (userId, deviceId) keeper.deviceStore = some d →
        d.deleted = false → Storable env keeper.deviceKeys d := by
  have hlookup : ∀ d, lookup OlmDevice.key (userId, deviceId) keeper.deviceStore = some d →
      lookup OlmDevice.key (userId, deviceId)
        (dropDevices userId [] (keeper, [])).1.deviceStore = some (dropDevice userId [] d) := by
    intro d hd
    rw [lookup_dropDevices]
    exact congrArg (Option.map (dropDevice userId [])) hd
  have hstorable : ∀ d, Storable env keeper.deviceKeys (dropDevice userId [] d) ↔
      Storable env keeper.deviceKeys d := by
    intro d
    unfold dropDevice
    split
    · exact storable_congr rfl rfl rfl rfl
    · rfl
  -- a device that was deleted before is not dropped once more
  have hdropped : ∀ d, lookup OlmDevice.key (userId, deviceId) keeper.deviceStore = some d →
      ((userId, deviceId) ∈ (dropDevices userId [] (keeper, [])).2 ↔ d.deleted = false) := by
    intro d hd
    have hkey : d.key = (userId, deviceId) := key_of_lookup hd
    have huser : d.userId = userId := congrArg Prod.fst hkey
    unfold dropDevices
    simp only [List.append_nil, List.mem_map, List.mem_filter]
    constructor
    · rintro ⟨d', ⟨hmem, hdrop⟩, hkey'⟩
      obtain rfl : d' = d := by
        have := lookup_of_mem hn hmem
        rw [hkey', hd] at this
        exact (Option.some.inj this).symm
      simpa [isDropped, huser] using hdrop
    · intro hdeleted
      exact ⟨d, ⟨mem_of_lookup hd, by simp [isDropped, huser, hdeleted]⟩, hkey⟩
  unfold SavableAt
  constructor
  · intro h d hd hdeleted
    exact (hstorable d).mp (h ((hdropped d hd).mpr hdeleted) _ (hlookup d hd))
  · intro h hchanged d' hd'
    cases hd : lookup OlmDevice.key (userId, deviceId) keeper.deviceStore with
    | none =>
      rw [lookup_dropDevices] at hd'
      have : Option.map (dropDevice userId [])
          (lookup OlmDevice.key (userId, deviceId) keeper.deviceStore) = some d' := hd'
      rw [hd] at this
      cases this
    | some d =>
      obtain rfl := Option.some.inj ((hlookup d hd).symm.trans hd')
      exact (hstorable d).mpr (h d hd ((hdropped d hd).mp hchanged))

theorem canTake_iff {keeper : DeviceKeeper} {userId deviceId : Str} {keys : Keys} {name : Json} :
    CanTake env keeper userId deviceId keys name ↔
      (∃ w, Answered env userId deviceId keys name (keeper, []) w) ∧
        ∀ w, Answered env userId deviceId keys name (keeper, []) w →
          SavableAt env (userId, deviceId) w := by
  have hsavable : (∃ w, Answered env userId deviceId keys name (keeper, []) w) →
      ((∀ w, Answered env userId deviceId keys name (keeper, []) w →
          SavableAt env (userId, deviceId) w) ↔
        match lookup OlmDevice.key (userId, deviceId) keeper.deviceStore with
        | none => Storable env keeper.deviceKeys ⟨userId, deviceId, keys, name, false, .unset⟩
        | some d => ¬ Unmoved env d keys name →
          Storable env keeper.deviceKeys (refreshed env d keys name)) := by
    rintro ⟨w, hw⟩
    exact ⟨fun h => (savableAt_answered hw).mp (h w hw),
      fun h w' hw' => (savableAt_answered hw').mpr h⟩
  refine Iff.trans ?_ (and_congr_right fun h => hsavable h).symm
  rw [answered_isOk]
  unfold CanTake
  cases lookup OlmDevice.key (userId, deviceId) keeper.deviceStore with
  | none => exact ⟨fun h => ⟨fun d hd => (nomatch hd), h⟩, fun h => h.2⟩
  | some d =>
    simp only [Option.some.injEq, forall_eq', refreshDevice_isOk]
    constructor
    · intro h
      refine ⟨fun hed hr => (h ?_).1 hed, fun hmoved => (h hmoved).2⟩
      rintro (⟨-, hr'⟩ | ⟨hsame, -⟩)
      · rw [hr] at hr'
        cases hr'
      · exact hed (congrArg Keys.ed25519 hsame)
    · rintro ⟨hrow, hstore⟩ hmoved
      refine ⟨fun hed => hrow hed ?_, hstore hmoved⟩
      cases hr : env.replaceRotatedDeviceKeys with
      | true => rfl
      | false => exact absurd (Or.inl ⟨hed, hr⟩) hmoved

theorem acceptJson_of_offers {userId deviceId : Str} {payload signingKey curveKey name : Json}
    (h : OffersDevice lib userId deviceId payload signingKey curveKey name) :
    acceptJson env lib userId deviceId payload =
      .ok (some (⟨keyText env signingKey, keyText env curveKey⟩, name)) :=
  acceptJson_eq_some.mpr ⟨signingKey, curveKey, h, rfl⟩

theorem answerDevice_isOk {keeper : DeviceKeeper} {userId deviceId : Str} {payload : Json}
    (hown : ¬ (userId = env.userId ∧ deviceId = env.deviceId)) :
    (∃ w, answerDevice env lib userId (keeper, []) (deviceId, payload) = .ok w) ↔
      ReadablePayload lib userId deviceId payload ∧
        ∀ signingKey curveKey name, OffersDevice lib userId deviceId payload signingKey curveKey name →
          ∃ w, Answered env userId deviceId ⟨keyText env signingKey, keyText env curveKey⟩ name
            (keeper, []) w := by
  constructor
  · rintro ⟨w, hw⟩
    rcases (answerDevice_eq_ok hown).mp hw with ⟨haccept, -⟩ | ⟨keys, name, haccept, hanswered⟩
    · refine ⟨acceptJson_isOk.mp ⟨none, haccept⟩, fun signingKey curveKey name hoffers => ?_⟩
      exact absurd (haccept.symm.trans (acceptJson_of_offers hoffers)) (by simp)
    · refine ⟨acceptJson_isOk.mp ⟨_, haccept⟩, fun signingKey curveKey name' hoffers => ?_⟩
      obtain ⟨rfl, rfl⟩ := Prod.mk.inj (Option.some.inj (Except.ok.inj
        (haccept.symm.trans (acceptJson_of_offers hoffers))))
      exact ⟨w, hanswered⟩
  · rintro ⟨hread, htake⟩
    obtain ⟨accepted, haccept⟩ := (@acceptJson_isOk lib userId deviceId env payload).mpr hread
    cases accepted with
    | none => exact ⟨_, (answerDevice_eq_ok hown).mpr (Or.inl ⟨haccept, rfl⟩)⟩
    | some kn =>
      obtain ⟨keys, name⟩ := kn
      obtain ⟨signingKey, curveKey, hoffers, rfl⟩ := acceptJson_eq_some.mp haccept
      obtain ⟨w, hw⟩ := htake signingKey curveKey name hoffers
      exact ⟨w, (answerDevice_eq_ok hown).mpr (Or.inr ⟨_, name, haccept, hw⟩)⟩

/-- The outcome under a key can be saved. -/
theorem savableAt_outcome {keeper : DeviceKeeper} {users : List (Str × Json)}
    {w : KeyQueryWork} {k : Str × Str} (hobj : ∀ p ∈ users, ∃ entries, p.2 = .obj entries)
    (h : OutcomeAt env lib keeper users k (viewOf k w)) :
    SavableAt env k w ↔
      (∀ payload w', HasEntry users k payload →
        answerDevice env lib k.1 (keeper, []) (k.2, payload) = .ok w' → SavableAt env k w') ∧
      ∀ entries, (k.1, .obj entries) ∈ users → k.2 ∉ entries.map (·.1) →
        SavableAt env k (dropDevices k.1 [] (keeper, [])) := by
  constructor
  · intro hs
    refine ⟨fun payload w' hentry hw' => ?_, fun entries hmem hnot => ?_⟩
    · obtain ⟨w₂, hw₂, hview⟩ := h.listed payload hentry
      obtain rfl := Except.ok.inj (hw₂.symm.trans hw')
      exact (savableAt_congr hview).mp hs
    · exact (savableAt_congr (h.dropped entries hmem hnot)).mp hs
  · rintro ⟨hlisted, hdropped⟩
    -- The user is not in the answer, or the device is in it, or it is dropped.
    intro hchanged
    by_cases hentry : ∃ payload, HasEntry users k payload
    · obtain ⟨payload, hentry⟩ := hentry
      obtain ⟨w₂, hw₂, hview⟩ := h.listed payload hentry
      exact (savableAt_congr hview).mpr (hlisted payload w₂ hentry hw₂) hchanged
    · by_cases huser : k.1 ∈ users.map (·.1)
      · obtain ⟨⟨user, v⟩, hp, hkey⟩ := List.mem_map.mp huser
        obtain ⟨entries, rfl⟩ := hobj _ hp
        have hmem : (k.1, Json.obj entries) ∈ users := by
          rw [← hkey]
          exact hp
        have hnot : k.2 ∉ entries.map (·.1) := by
          intro hid
          obtain ⟨p, hp, hkey⟩ := List.mem_map.mp hid
          exact hentry ⟨p.2, entries, hmem, by rw [← hkey]; exact hp⟩
        exact (savableAt_congr (h.dropped entries hmem hnot)).mpr (hdropped entries hmem hnot)
          hchanged
      · exact (savableAt_congr (h.other huser)).mpr (savableAt_start k keeper) hchanged

theorem handleKeyQueryAnswer_eq_ok {keeper keeper' : DeviceKeeper} {answer : KeysQueryAnswer}
    {changed : List (Str × Str)} :
    handleKeyQueryAnswer env lib keeper answer = .ok (keeper', changed) ↔
      ∃ w rows, answer.deviceKeys.foldlM (answerUser env lib answer.queriedUsers) (keeper, []) =
          .ok w ∧ saveDeviceKeys env w.1.deviceKeys (changedDevices w) = .ok rows ∧
        keeper' = { w.1 with deviceKeys := rows } ∧ changed = w.2 := by
  unfold handleKeyQueryAnswer
  constructor
  · intro h
    obtain ⟨w, hw, h₁⟩ := bind_eq_ok.mp h
    obtain ⟨rows, hrows, h₂⟩ := bind_eq_ok.mp h₁
    obtain ⟨rfl, rfl⟩ := Prod.mk.inj (Except.ok.inj h₂)
    exact ⟨w, rows, hw, hrows, rfl, rfl⟩
  · rintro ⟨w, rows, hw, hrows, rfl, rfl⟩
    rw [hw, ok_bind, hrows, ok_bind]
    rfl

theorem handleKeyQueryAnswer_isOk {keeper : DeviceKeeper} {answer : KeysQueryAnswer}
    (hd : DistinctEntries answer.deviceKeys) (hn : (keeper.deviceStore.map OlmDevice.key).Nodup) :
    (∃ r, handleKeyQueryAnswer env lib keeper answer = .ok r) ↔
      Handleable env lib keeper answer := by
  have hrun := @usersRun_isOk env lib answer.queriedUsers keeper _ hd
  constructor
  · rintro ⟨⟨keeper', changed⟩, h⟩
    obtain ⟨w, rows, hw, hrows, -, -⟩ := handleKeyQueryAnswer_eq_ok.mp h
    obtain ⟨hobj, hentries⟩ := hrun.mp ⟨w, hw⟩
    -- what is saved under a key depends on its own entries
    have hsave := fun k => (savableAt_outcome hobj (outcomeAt_of_run hd hw k)).mp
      (saveDeviceKeys_isOk_iff.mp ⟨rows, hrows⟩ k)
    refine ⟨hobj, fun userId deviceId payload hentry hown => ?_,
      fun userId deviceId payload hentry hown signingKey curveKey name hoffers => ?_,
      fun userId entries hmem d hlookup hdeleted hnot => ?_⟩
    · exact ((answerDevice_isOk hown).mp (hentries _ _ hentry)).1
    · refine canTake_iff.mpr ⟨?_, fun w' hw' => ?_⟩
      · exact ((answerDevice_isOk hown).mp (hentries _ _ hentry)).2 signingKey curveKey name hoffers
      · exact (hsave (userId, deviceId)).1 payload w' hentry ((answerDevice_eq_ok hown).mpr
          (Or.inr ⟨_, name, acceptJson_of_offers hoffers, hw'⟩))
    · exact (savableAt_dropped hn).mp ((hsave (userId, d.deviceId)).2 entries hmem hnot) d hlookup
        hdeleted
  · intro h
    have hentries : ∀ k payload, HasEntry answer.deviceKeys k payload →
        ∃ w, answerDevice env lib k.1 (keeper, []) (k.2, payload) = .ok w := by
      intro k payload hentry
      by_cases hown : k.1 = env.userId ∧ k.2 = env.deviceId
      · exact ⟨_, answerDevice_own hown⟩
      · exact (answerDevice_isOk hown).mpr ⟨h.readable k.1 k.2 payload hentry hown,
          fun signingKey curveKey name hoffers => (canTake_iff.mp
            (h.taken k.1 k.2 payload hentry hown signingKey curveKey name hoffers)).1⟩
    obtain ⟨w, hw⟩ := hrun.mpr ⟨h.objects, hentries⟩
    have hsave : ∀ k, SavableAt env k w := by
      intro k
      refine (savableAt_outcome h.objects (outcomeAt_of_run hd hw k)).mpr
        ⟨fun payload w' hentry hw' => ?_, fun entries hmem hnot => ?_⟩
      · by_cases hown : k.1 = env.userId ∧ k.2 = env.deviceId
        · rw [answerDevice_own hown] at hw'
          rw [← Except.ok.inj hw']
          exact savableAt_start k keeper
        · rcases (answerDevice_eq_ok hown).mp hw' with ⟨-, rfl⟩ | ⟨keys, name, haccept, hanswered⟩
          · exact savableAt_start k keeper
          · obtain ⟨signingKey, curveKey, hoffers, rfl⟩ := acceptJson_eq_some.mp haccept
            exact (canTake_iff.mp
              (h.taken k.1 k.2 payload hentry hown signingKey curveKey name hoffers)).2 w' hanswered
      · refine (savableAt_dropped hn).mpr fun d hlookup hdeleted => ?_
        have hdevice : d.deviceId = k.2 := congrArg Prod.snd (key_of_lookup hlookup)
        refine h.dropped k.1 entries hmem d ?_ hdeleted ?_
        · rw [hdevice]
          exact hlookup
        · rw [hdevice]
          exact hnot
    obtain ⟨rows, hrows⟩ := saveDeviceKeys_isOk_iff.mpr hsave
    exact ⟨_, handleKeyQueryAnswer_eq_ok.mpr ⟨w, rows, hw, hrows, rfl, rfl⟩⟩

theorem hasEntry_withoutEntry {users : List (Str × Json)} {k k' : Str × Str} (hne : k' ≠ k)
    {payload : Json} : HasEntry (withoutEntry users k) k' payload ↔ HasEntry users k' payload := by
  unfold HasEntry
  constructor
  · rintro ⟨entries, hmem, hentry⟩
    obtain ⟨entries₀, hmem₀, rfl⟩ := mem_withoutEntry.mp hmem
    refine ⟨entries₀, hmem₀, ?_⟩
    split at hentry
    · exact (List.mem_filter.mp hentry).1
    · exact hentry
  · rintro ⟨entries, hmem, hentry⟩
    refine ⟨_, mem_withoutEntry.mpr ⟨entries, hmem, rfl⟩, ?_⟩
    split
    · next hu =>
      refine List.mem_filter.mpr ⟨hentry, decide_eq_true fun hd => hne (Prod.ext hu hd)⟩
    · exact hentry

/-- What is seen of the other devices does not depend on the entry. -/
theorem outcome_unique {keeper : DeviceKeeper} {users : List (Str × Json)} {k k' : Str × Str}
    {view view' : DeviceView} (hobj : ∀ p ∈ users, ∃ entries, p.2 = .obj entries) (hne : k' ≠ k)
    (h : OutcomeAt env lib keeper users k' view)
    (h' : OutcomeAt env lib keeper (withoutEntry users k) k' view') : view = view' := by
  by_cases hentry : ∃ payload, HasEntry users k' payload
  · obtain ⟨payload, hentry⟩ := hentry
    obtain ⟨w, hw, rfl⟩ := h.listed payload hentry
    obtain ⟨w', hw', rfl⟩ := h'.listed payload ((hasEntry_withoutEntry hne).mpr hentry)
    rw [Except.ok.inj (hw.symm.trans hw')]
  · by_cases huser : k'.1 ∈ users.map (·.1)
    · obtain ⟨⟨user, v⟩, hp, hkey⟩ := List.mem_map.mp huser
      obtain ⟨entries, rfl⟩ := hobj _ hp
      have hmem : (k'.1, Json.obj entries) ∈ users := by
        rw [← hkey]
        exact hp
      have hnot : ∀ entries' : List (Str × Json), (∀ p ∈ entries', p ∈ entries) →
          k'.2 ∉ entries'.map (·.1) := by
        intro entries' hsub hid
        obtain ⟨p, hp', hkey'⟩ := List.mem_map.mp hid
        refine hentry ⟨p.2, entries, hmem, ?_⟩
        rw [← hkey']
        exact hsub p hp'
      rw [h.dropped entries hmem (hnot entries fun _ h => h)]
      refine (h'.dropped _ (mem_withoutEntry.mpr ⟨entries, hmem, rfl⟩) (hnot _ ?_)).symm
      intro p hp'
      split at hp'
      · exact (List.mem_filter.mp hp').1
      · exact hp'
    · rw [h.other huser, h'.other (by rw [map_fst_withoutEntry]; exact huser)]

/-- A payload that is not well formed is skipped by a harmless answer. -/
theorem skipped_of_harmless {keeper : DeviceKeeper} {answer : KeysQueryAnswer} {k : Str × Str}
    {payload : Json} {w : KeyQueryWork} (h : HarmlessQuery env lib keeper answer)
    (hentry : HasEntry answer.deviceKeys k payload) (hbad : ¬ WellFormedDevice lib k.1 k.2 payload)
    (hout : OutcomeAt env lib keeper answer.deviceKeys k (viewOf k w)) :
    viewOf k w = viewOf k (keeper, []) := by
  obtain ⟨w₂, hw₂, hview⟩ := hout.listed payload hentry
  by_cases hown : k.1 = env.userId ∧ k.2 = env.deviceId
  · rw [answerDevice_own hown] at hw₂
    rw [hview, ← Except.ok.inj hw₂]
  · rcases (answerDevice_eq_ok hown).mp hw₂ with ⟨-, rfl⟩ | ⟨keys, name, haccept, hanswered⟩
    · exact hview
    · obtain ⟨signingKey, curveKey, hoffers, rfl⟩ := acceptJson_eq_some.mp haccept
      obtain ⟨d, hknown, hsame⟩ := (h.wellFormed k.1 k.2 payload hentry hown signingKey curveKey name
        hoffers).resolve_left hbad
      cases hanswered with
      | added hnew => exact (nomatch hnew.symm.trans hknown)
      | unmoved d' hknown' hsame' => exact hview
      | refreshed d' d'' rows hknown' hrefresh =>
        obtain rfl := Option.some.inj (hknown.symm.trans hknown')
        exact absurd (hrefresh.symm.trans (refreshDevice_eq_none.mpr hsame)) (by simp)

/-- The devices, the rows and the users after a key query -/
theorem sameAt_of_view {keeper keeper' : DeviceKeeper} {w w' : KeyQueryWork}
    {rows rows' : List DeviceKeys} {k : Str × Str}
    (hrows : saveDeviceKeys env w.1.deviceKeys (changedDevices w) = .ok rows)
    (hrows' : saveDeviceKeys env w'.1.deviceKeys (changedDevices w') = .ok rows')
    (hkeeper : keeper = { w.1 with deviceKeys := rows })
    (hkeeper' : keeper' = { w'.1 with deviceKeys := rows' }) (h : viewOf k w = viewOf k w') :
    keeper'.SameAt k keeper := by
  subst hkeeper hkeeper'
  refine ⟨lookup_of_viewOf h, ?_⟩
  dsimp only
  rw [lookup_saveDeviceKeys hrows, lookup_saveDeviceKeys hrows', lookup_of_viewOf h, row_of_viewOf h]
  simp only [changed_of_viewOf h]

theorem answerDevice_users {w w' : KeyQueryWork} {userId : Str} {p : Str × Json}
    (h : answerDevice env lib userId w p = .ok w') :
    w'.1.usersForKeyQuery = w.1.usersForKeyQuery ∧ w'.1.trackedUsers = w.1.trackedUsers := by
  obtain ⟨deviceId, payload⟩ := p
  by_cases hown : userId = env.userId ∧ deviceId = env.deviceId
  · rw [answerDevice_own hown] at h
    rw [Except.ok.inj h]
    exact ⟨rfl, rfl⟩
  · rcases (answerDevice_eq_ok hown).mp h with ⟨-, rfl⟩ | ⟨keys, name, -, hanswered⟩
    · exact ⟨rfl, rfl⟩
    · cases hanswered with
      | added hnew => exact ⟨rfl, rfl⟩
      | unmoved d hknown hsame => exact ⟨rfl, rfl⟩
      | refreshed d d' rows hknown hrefresh => exact ⟨rfl, rfl⟩

/-- The users to query and the tracked ones depend on the users of the answer alone. -/
theorem users_of_run {queriedUsers : Option (List Str)} {users : List (Str × Json)}
    {w w' : KeyQueryWork} (h : users.foldlM (answerUser env lib queriedUsers) w = .ok w') :
    (w'.1.usersForKeyQuery, w'.1.trackedUsers) =
      (users.map (·.1)).foldl (fun s userId =>
        (if queriedUsers.isNone then s.1.filter (· ≠ userId) else s.1, userId :: s.2))
        (w.1.usersForKeyQuery, w.1.trackedUsers) := by
  induction users generalizing w with
  | nil => rw [Except.ok.inj h]; rfl
  | cons p users ih =>
    rw [List.foldlM_cons] at h
    obtain ⟨w₁, hw₁, hrest⟩ := bind_eq_ok.mp h
    obtain ⟨entries, w₂, -, hrun, rfl⟩ := answerUser_eq_ok.mp hw₁
    rw [ih hrest, List.map_cons, List.foldl_cons]
    let w₀ : KeyQueryWork := (enterUser queriedUsers p.1 w.1, w.2)
    have hstep : ∀ q ∈ entries, ∀ w w' : KeyQueryWork, answerDevice env lib p.1 w q = .ok w' →
        (w.1.usersForKeyQuery, w.1.trackedUsers) = (w₀.1.usersForKeyQuery, w₀.1.trackedUsers) →
        (w'.1.usersForKeyQuery, w'.1.trackedUsers) = (w₀.1.usersForKeyQuery, w₀.1.trackedUsers) := by
      intro q _ w w' hw h
      rw [(answerDevice_users hw).1, (answerDevice_users hw).2]
      exact h
    have hrun' : (w₂.1.usersForKeyQuery, w₂.1.trackedUsers) =
        (w₀.1.usersForKeyQuery, w₀.1.trackedUsers) := foldlM_invariant hstep hrun rfl
    exact congrArg (fun s => List.foldl _ s _) hrun'

/-- A key query is tolerated exactly when its answer does no harm. -/
theorem toleratesQuery_iff {keeper : DeviceKeeper} {answer : KeysQueryAnswer}
    (hd : DistinctEntries answer.deviceKeys) (hn : (keeper.deviceStore.map OlmDevice.key).Nodup) :
    ToleratesQuery env lib keeper answer ↔ HarmlessQuery env lib keeper answer := by
  constructor
  · rintro ⟨keeper', changed, hrun, hskips⟩
    refine ⟨(handleKeyQueryAnswer_isOk hd hn).mp ⟨_, hrun⟩,
      fun userId deviceId payload hentry hown signingKey curveKey name hoffers => ?_⟩
    by_cases hgood : WellFormedDevice lib userId deviceId payload
    · exact Or.inl hgood
    · -- The device is as it was, so nothing of it can have changed.
      refine Or.inr ?_
      have hsame := (hskips (userId, deviceId) payload hentry hgood).1.1
      obtain ⟨w, rows, hw, hrows, rfl, -⟩ := handleKeyQueryAnswer_eq_ok.mp hrun
      obtain ⟨w₂, hw₂, hview⟩ := (outcomeAt_of_run hd hw (userId, deviceId)).listed payload hentry
      have hlookup := (lookup_of_viewOf hview).symm.trans hsame
      rcases (answerDevice_eq_ok hown).mp hw₂ with ⟨haccept, -⟩ | ⟨keys, name', haccept, hanswered⟩
      · exact absurd (haccept.symm.trans (acceptJson_of_offers hoffers)) (by simp)
      · obtain ⟨rfl, rfl⟩ := Prod.mk.inj (Option.some.inj (Except.ok.inj
          (haccept.symm.trans (acceptJson_of_offers hoffers))))
        cases hanswered with
        | added hnew =>
          have hadded := (lookup_putDevice (keeper, []) keeper.deviceKeys
            ⟨userId, deviceId, ⟨keyText env signingKey, keyText env curveKey⟩, name', false, .unset⟩
            false (userId, deviceId)).trans (if_pos rfl)
          exact (nomatch hadded.symm.trans (hlookup.trans hnew))
        | unmoved d hknown hsame' => exact ⟨d, hknown, hsame'⟩
        | refreshed d d' rows' hknown hrefresh =>
          have hkey : (userId, deviceId) = d'.key :=
            ((refreshDevice_eq_some hrefresh).key.trans (key_of_lookup hknown)).symm
          rw [lookup_putDevice, if_pos hkey] at hlookup
          exact absurd (Option.some.inj (hlookup.trans hknown)) (ne_of_refreshDevice hrefresh)
  · intro h
    obtain ⟨⟨keeper', changed⟩, hrun⟩ := (handleKeyQueryAnswer_isOk hd hn).mpr h.toHandleable
    refine ⟨keeper', changed, hrun, fun k payload hentry hbad => ?_⟩
    obtain ⟨w, rows, hw, hrows, hkeeper', -⟩ := handleKeyQueryAnswer_eq_ok.mp hrun
    refine ⟨?_, fun absent changed' habsent => ?_⟩
    · have hview := skipped_of_harmless h hentry hbad (outcomeAt_of_run hd hw k)
      subst hkeeper'
      refine ⟨lookup_of_viewOf hview, ?_⟩
      dsimp only
      rw [lookup_saveDeviceKeys hrows, if_neg fun hk =>
        absurd ((changed_of_viewOf hview).mp hk) List.not_mem_nil]
      exact row_of_viewOf hview
    · -- the other devices come out the same without the entry
      obtain ⟨w', rows', hw', hrows', habsent', -⟩ := handleKeyQueryAnswer_eq_ok.mp habsent
      have husers := users_of_run hw
      have husers' := users_of_run hw'
      rw [show (answer.without k).deviceKeys.map (·.1) = answer.deviceKeys.map (·.1) from
        map_fst_withoutEntry _ _, show (answer.without k).queriedUsers = answer.queriedUsers from rfl,
        ← husers] at husers'
      obtain ⟨hquery, htracked⟩ := Prod.mk.inj husers'
      refine ⟨fun k' hne => ?_, ?_, ?_⟩
      · have hview := outcome_unique h.objects hne (outcomeAt_of_run hd hw k')
          (outcomeAt_of_run (hd.without k) hw' k')
        exact sameAt_of_view hrows hrows' hkeeper' habsent' hview
      · rw [hkeeper', habsent']
        exact hquery.symm
      · rw [hkeeper', habsent']
        exact htracked.symm

end Nio.Crypto
