import Nio.Crypto.OutboundSessions

/-!
# Changes of the eligible devices

Who can be sent a key changes with the answer to a key query and with trust. A query leaves every
device alone that it does not report as changed, and a change of trust all devices but one.

* `untouched_handleKeyQuery`, `untouched_trust` — the devices that stay as they are
* `eligible_untouched` — a device that stays as it is stays eligible
* `eligible_trust` — so does one that is not blacklisted
-/

namespace Nio.Crypto

open Nio.Py
open Nio.Lib
open Nio.Events (PyError)
open Nio.Store (TrustState Mark)

/-- All devices but those under some keys are as they were. -/
structure Untouched (keys : List (Str × Str)) (keeper keeper' : DeviceKeeper) : Prop where
  nodup : (keeper.deviceStore.map OlmDevice.key).Nodup →
    (keeper'.deviceStore.map OlmDevice.key).Nodup
  devices : ∀ k, k ∉ keys →
    lookup OlmDevice.key k keeper'.deviceStore = lookup OlmDevice.key k keeper.deviceStore
  rows : ∀ k, k ∉ keys →
    lookup DeviceKeys.key k keeper'.deviceKeys = lookup DeviceKeys.key k keeper.deviceKeys

namespace Untouched

variable {keys keys' : List (Str × Str)} {keeper₁ keeper₂ keeper₃ : DeviceKeeper}

theorem refl (keys : List (Str × Str)) (keeper : DeviceKeeper) : Untouched keys keeper keeper :=
  ⟨id, fun _ _ => rfl, fun _ _ => rfl⟩

theorem trans (h₁ : Untouched keys keeper₁ keeper₂) (h₂ : Untouched keys' keeper₂ keeper₃)
    (hsub : keys ⊆ keys') : Untouched keys' keeper₁ keeper₃ :=
  ⟨fun hn => h₂.nodup (h₁.nodup hn),
    fun k hk => (h₂.devices k hk).trans (h₁.devices k fun hin => hk (hsub hin)),
    fun k hk => (h₂.rows k hk).trans (h₁.rows k fun hin => hk (hsub hin))⟩

end Untouched

/-! ## One device -/

/-- The rows of the other devices stay as they are. -/
def RowsBut (key : Str × Str) (rows rows' : List DeviceKeys) : Prop :=
  ∀ k, k ≠ key → lookup DeviceKeys.key k rows' = lookup DeviceKeys.key k rows

/-- Assigning trust writes the row of the device only. -/
theorem rowsBut_assignTrust {rows rows' : List DeviceKeys} {d d' : OlmDevice} {t : TrustState}
    (h : assignTrust rows d t = .ok (rows', d')) : d'.key = d.key ∧ RowsBut d.key rows rows' := by
  obtain ⟨rfl, hs, -⟩ := assignTrust_eq h
  exact ⟨rfl, hs.others⟩

/-- So does a mark, -/
theorem rowsBut_markDevice {rows rows' : List DeviceKeys} {m : Mark} {d d' : OlmDevice}
    (h : markDevice rows m d = .ok (rows', d')) : d'.key = d.key ∧ RowsBut d.key rows rows' := by
  unfold markDevice at h
  split at h
  · cases h
    exact ⟨rfl, fun _ _ => rfl⟩
  · exact rowsBut_assignTrust h

/-- taking it back, -/
theorem rowsBut_unmarkDevice {rows rows' : List DeviceKeys} {m : Mark} {d d' : OlmDevice}
    (h : unmarkDevice rows m d = .ok (rows', d')) : d'.key = d.key ∧ RowsBut d.key rows rows' := by
  unfold unmarkDevice at h
  split at h
  · exact rowsBut_assignTrust h
  · cases h
    exact ⟨rfl, fun _ _ => rfl⟩

/-- dropping earned trust -/
theorem rowsBut_dropEarnedTrust {rows rows' : List DeviceKeys} {d d' : OlmDevice}
    (h : dropEarnedTrust rows d = .ok (rows', d')) : d'.key = d.key ∧ RowsBut d.key rows rows' := by
  unfold dropEarnedTrust at h
  split at h
  · exact rowsBut_unmarkDevice h
  · exact rowsBut_unmarkDevice h
  · cases h
    exact ⟨rfl, fun _ _ => rfl⟩

/-- and a rotation. -/
theorem rowsBut_rotateDevice {rows rows' : List DeviceKeys} {d d' : OlmDevice} {keys : Keys}
    {name : Json} (h : rotateDevice rows d keys name = .ok (rows', d')) :
    d'.key = d.key ∧ RowsBut d.key rows rows' := by
  unfold rotateDevice at h
  obtain ⟨⟨rows₁, d₁⟩, hdrop, h⟩ := bind_eq_ok.mp h
  obtain ⟨hkey, hrows⟩ := rowsBut_dropEarnedTrust hdrop
  dsimp only at h
  split at h
  · obtain ⟨hkey', hrows'⟩ := rowsBut_markDevice h
    refine ⟨hkey'.trans hkey, fun k hk => (hrows' k ?_).trans (hrows k hk)⟩
    rw [show OlmDevice.key { d₁ with keys, displayName := name, deleted := false } = d.key from hkey]
    exact hk
  · cases h
    exact ⟨hkey, hrows⟩

/-- A refresh writes the row of its device only. -/
theorem rowsBut_refreshDevice {env : KeyQueryEnv} {rows rows' : List DeviceKeys} {d d' : OlmDevice}
    {keys : Keys} {name : Json} (h : refreshDevice env rows d keys name = .ok (some (rows', d'))) :
    d'.key = d.key ∧ RowsBut d.key rows rows' := by
  unfold refreshDevice at h
  split at h
  · split at h
    · cases hrotate : rotateDevice rows d keys name with
      | error e => rw [hrotate] at h; cases h
      | ok r =>
        rw [hrotate] at h
        cases h
        exact rowsBut_rotateDevice hrotate
    · cases h
  · split at h
    · cases h
    · split at h <;> cases h <;> exact ⟨rfl, fun _ _ => rfl⟩

/-! ## The answer to a key query -/

/-- The loops of a key query only touch what they report. -/
structure Reports (w w' : KeyQueryWork) : Prop where
  changed : w.2 ⊆ w'.2
  untouched : Untouched w'.2 w.1 w'.1

theorem Reports.trans {w₁ w₂ w₃ : KeyQueryWork} (h₁ : Reports w₁ w₂) (h₂ : Reports w₂ w₃) :
    Reports w₁ w₃ :=
  ⟨List.Subset.trans h₁.changed h₂.changed, h₁.untouched.trans h₂.untouched h₂.changed⟩

/-- A device that is put is reported as changed. -/
theorem reports_putDevice (w : KeyQueryWork) {rows : List DeviceKeys} {d : OlmDevice} (renamed : Bool)
    (hrows : RowsBut d.key w.1.deviceKeys rows) : Reports w (putDevice w rows d renamed) := by
  refine ⟨List.subset_cons_self _ _, fun hn => nodup_upsert hn, fun k hk => ?_, fun k hk => ?_⟩
  · show lookup OlmDevice.key k (upsert OlmDevice.key d w.1.deviceStore) = _
    rw [lookup_upsert, if_neg]
    rintro rfl
    exact hk List.mem_cons_self
  · refine hrows k ?_
    rintro rfl
    exact hk List.mem_cons_self

/-- So is every device that a payload moves, -/
theorem reports_handleDevice {env : KeyQueryEnv} {userId : Str} {p : Str × DevicePayload}
    {w w' : KeyQueryWork} (h : handleDevice env userId w p = .ok w') : Reports w w' := by
  have hrefl : Reports w w := ⟨List.Subset.refl _, Untouched.refl _ _⟩
  unfold handleDevice at h
  dsimp only at h
  split at h
  · cases h
    exact hrefl
  · obtain ⟨accepted, -, h⟩ := bind_eq_ok.mp h
    cases accepted with
    | none =>
      cases h
      exact hrefl
    | some res =>
      obtain ⟨keys, name⟩ := res
      dsimp only at h
      split at h
      · cases h
        exact reports_putDevice w false fun _ _ => rfl
      · next d hd =>
        obtain ⟨res, hrefresh, h⟩ := bind_eq_ok.mp h
        cases res with
        | none =>
          cases h
          exact hrefl
        | some res =>
          obtain ⟨rows, d'⟩ := res
          cases h
          obtain ⟨hkey, hrows⟩ := rowsBut_refreshDevice hrefresh
          refine reports_putDevice w _ fun k hk => hrows k ?_
          rw [← hkey]
          exact hk

/-- every device that is dropped -/
theorem reports_dropDevices (userId : Str) (current : List Str) (w : KeyQueryWork) :
    Reports w (dropDevices userId current w) := by
  refine ⟨List.subset_append_right _ _, fun hn => ?_, fun k hk => ?_, fun _ _ => rfl⟩
  · show ((w.1.deviceStore.map (dropDevice userId current)).map OlmDevice.key).Nodup
    rw [List.map_map, show OlmDevice.key ∘ dropDevice userId current = OlmDevice.key from
      funext (key_dropDevice userId current)]
    exact hn
  · rw [lookup_dropDevices]
    cases hd : lookup OlmDevice.key k w.1.deviceStore with
    | none => rfl
    | some d =>
      -- a device that is dropped is reported
      have hnot : isDropped userId current d = false := by
        cases hdrop : isDropped userId current d with
        | false => rfl
        | true =>
          refine absurd (List.mem_append_left _ (List.mem_map.mpr ⟨d, ?_, key_of_lookup hd⟩)) hk
          exact List.mem_filter.mpr ⟨mem_of_lookup hd, hdrop⟩
      rw [Option.map_some, dropDevice, hnot]
      rfl

/-- and whatever the answer for a user moves. -/
theorem reports_handleUser {env : KeyQueryEnv} {queried : Option (List Str)}
    {p : Str × List (Str × DevicePayload)} {w w' : KeyQueryWork}
    (h : handleUser env queried w p = .ok w') : Reports w w' := by
  unfold handleUser at h
  dsimp only at h
  obtain ⟨w₁, hrun, h⟩ := bind_eq_ok.mp h
  cases h
  generalize hstart : (({ w.1 with
    usersForKeyQuery :=
      if queried.isNone = true then w.1.usersForKeyQuery.filter (· ≠ p.1) else w.1.usersForKeyQuery
    trackedUsers := p.1 :: w.1.trackedUsers } : DeviceKeeper), w.2) = start at hrun
  have hfirst : Reports w start := by
    rw [← hstart]
    exact ⟨List.Subset.refl _, id, fun _ _ => rfl, fun _ _ => rfl⟩
  have hloop : Reports start w₁ := foldlM_invariant (P := Reports start)
    (fun q _ v v' hv h => h.trans (reports_handleDevice hv)) hrun
    ⟨List.Subset.refl _, Untouched.refl _ _⟩
  exact (hfirst.trans hloop).trans (reports_dropDevices p.1 _ w₁)

/-- What a query does not report it has not touched. -/
theorem untouched_handleKeyQuery {env : KeyQueryEnv} {keeper keeper' : DeviceKeeper}
    {response : KeysQueryResponse} {changed : List (Str × Str)}
    (h : handleKeyQuery env keeper response = .ok (keeper', changed)) :
    Untouched changed keeper keeper' := by
  unfold handleKeyQuery at h
  obtain ⟨w, hrun, h⟩ := bind_eq_ok.mp h
  obtain ⟨rows, hsave, h⟩ := bind_eq_ok.mp h
  cases h
  have hloop : Reports (keeper, []) w := foldlM_invariant (P := Reports (keeper, []))
    (fun q _ v v' hv h => h.trans (reports_handleUser hv)) hrun
    ⟨List.Subset.refl _, Untouched.refl _ _⟩
  refine ⟨hloop.untouched.nodup, hloop.untouched.devices, fun k hk => ?_⟩
  have hnot : k ∉ (changedDevices w).map OlmDevice.key := fun hin => by
    obtain ⟨d, hd, rfl⟩ := List.mem_map.mp hin
    exact hk ((mem_changedDevices (ofStore_changedDevices w d hd)).mp hd)
  obtain ⟨-, hrows⟩ := saveDeviceKeys_eq.mp hsave
  show lookup DeviceKeys.key k rows = _
  rw [(lookup_updateDevices (ofStore_changedDevices w) hrows k).1 hnot,
    lookup_insertDevices_of_notMem hnot]
  exact hloop.untouched.rows k hk

/-! ## Trust -/

/-- What a change of trust does to the device -/
structure Trusted (change : TrustChange) (keeper keeper' : DeviceKeeper) (key : Str × Str) : Prop where
  untouched : Untouched [key] keeper keeper'
  device : ∀ d, lookup OlmDevice.key key keeper.deviceStore = some d →
    ∃ t, lookup OlmDevice.key key keeper'.deviceStore = some { d with trustState := t }
  row : change ≠ .mark .blacklisted → ∀ d : OlmDevice, d.key = key →
    isMarked keeper.deviceKeys .blacklisted d = false →
      isMarked keeper'.deviceKeys .blacklisted d = false

theorem isMarked_assignTrust {rows rows' : List DeviceKeys} {d d' d₀ : OlmDevice} {t : TrustState}
    (h : assignTrust rows d t = .ok (rows', d')) (hkey : d₀.key = d.key) (ht : t ≠ .blacklisted) :
    isMarked rows' .blacklisted d₀ = false := by
  obtain ⟨-, -, row, hrow, htrust⟩ := assignTrust_eq h
  unfold isMarked
  rw [hkey, hrow, Option.any_some, htrust]
  exact decide_eq_false fun he => ht (Option.some.inj he)

/-- A change of trust touches its device only. -/
theorem trusted_apply {change : TrustChange} {keeper keeper' : DeviceKeeper} {userId deviceId : Str}
    {changed : Bool} (h : change.apply keeper userId deviceId = .ok (keeper', changed)) :
    Trusted change keeper keeper' (userId, deviceId) := by
  have hput : ∀ (d d' : OlmDevice) (rows : List DeviceKeys), d.key = (userId, deviceId) →
      lookup OlmDevice.key (userId, deviceId) keeper.deviceStore = some d →
      (∃ t, d' = { d with trustState := t }) → RowsBut d.key keeper.deviceKeys rows →
      (change ≠ .mark .blacklisted → ∀ d₀ : OlmDevice, d₀.key = d.key →
        isMarked keeper.deviceKeys .blacklisted d₀ = false →
          isMarked rows .blacklisted d₀ = false) →
      Trusted change keeper { keeper with
        deviceStore := upsert OlmDevice.key d' keeper.deviceStore, deviceKeys := rows }
        (userId, deviceId) := by
    rintro d d' rows hkey hd ⟨t, rfl⟩ hrows hblack
    have hkey' : ({ d with trustState := t } : OlmDevice).key = (userId, deviceId) := hkey
    refine ⟨⟨fun hn => nodup_upsert hn, fun k hk => ?_, fun k hk => ?_⟩, fun d₀ hd₀ => ⟨t, ?_⟩,
      fun hne d₀ hd₀ => hblack hne d₀ (hd₀.trans hkey.symm)⟩
    · dsimp only
      rw [lookup_upsert, if_neg fun he => hk (by rw [he, hkey']; exact List.mem_cons_self)]
    · exact hrows k fun he => hk (by rw [he, hkey]; exact List.mem_cons_self)
    · dsimp only
      rw [hd] at hd₀
      cases hd₀
      rw [lookup_upsert, if_pos hkey'.symm]
  unfold TrustChange.apply at h
  split at h
  · cases h
  · next d hd =>
    have hkey := key_of_lookup hd
    cases change with
    | mark m =>
      dsimp only at h
      unfold changeTrust at h
      rw [hd] at h
      dsimp only at h
      cases hm : markDevice keeper.deviceKeys m d with
      | error e =>
        rw [hm] at h
        cases h
      | ok res =>
        rw [hm] at h
        cases h
        refine hput d _ _ hkey hd ?_ (rowsBut_markDevice hm).2 fun hne d₀ hd₀ hfree => ?_
        · unfold markDevice at hm
          split at hm
          · cases hm
            exact ⟨d.trustState, rfl⟩
          · exact ⟨_, (assignTrust_eq hm).1⟩
        · unfold markDevice at hm
          split at hm
          · cases hm
            exact hfree
          · refine isMarked_assignTrust hm hd₀ fun ht => hne ?_
            cases m with
            | blacklisted => rfl
            | verified => cases ht
            | ignored => cases ht
    | unmark m =>
      dsimp only at h
      unfold changeTrust at h
      rw [hd] at h
      dsimp only at h
      cases hm : unmarkDevice keeper.deviceKeys m d with
      | error e =>
        rw [hm] at h
        cases h
      | ok res =>
        rw [hm] at h
        cases h
        refine hput d _ _ hkey hd ?_ (rowsBut_unmarkDevice hm).2 fun hne d₀ hd₀ hfree => ?_
        · unfold unmarkDevice at hm
          split at hm
          · exact ⟨_, (assignTrust_eq hm).1⟩
          · cases hm
            exact ⟨d.trustState, rfl⟩
        · unfold unmarkDevice at hm
          split at hm
          · exact isMarked_assignTrust hm hd₀ (by decide)
          · cases hm
            exact hfree

/-! ## Eligible devices -/

/-- A mark is read from the row alone. -/
theorem isMarked_of_lookup {rows rows' : List DeviceKeys} {d : OlmDevice} (m : Mark)
    (h : lookup DeviceKeys.key d.key rows' = lookup DeviceKeys.key d.key rows) :
    isMarked rows' m d = isMarked rows m d := by
  unfold isMarked
  rw [h]

section

variable {env : KeyQueryEnv} {m : GroupMachine} {keeper : DeviceKeeper} {u : Str} {k : Str × Str}

/-- A device that is not touched can be sent a key as before. -/
theorem eligible_untouched {keys : List (Str × Str)} (h : Untouched keys m.keeper keeper)
    (hn : (m.keeper.deviceStore.map OlmDevice.key).Nodup) (hk : k ∉ keys)
    (helig : k ∈ m.eligible env u) : k ∈ ({ m with keeper } : GroupMachine).eligible env u := by
  obtain ⟨d, hd, hu, hdel, rfl, hown, hblack, holm⟩ := GroupMachine.mem_eligible.mp helig
  refine GroupMachine.mem_eligible.mpr ⟨d, ?_, hu, hdel, rfl, hown, ?_, holm⟩
  · have hlookup := h.devices d.key hk
    rw [lookup_of_mem hn hd] at hlookup
    exact mem_of_lookup hlookup
  · exact (isMarked_of_lookup .blacklisted (h.rows d.key hk)).trans hblack

/-- Nothing but blacklisting makes a device one that a key cannot be sent to. -/
theorem eligible_trust {change : TrustChange} {key : Str × Str}
    (h : Trusted change m.keeper keeper key)
    (hn : (m.keeper.deviceStore.map OlmDevice.key).Nodup)
    (hk : k ≠ key ∨ change ≠ .mark .blacklisted)
    (helig : k ∈ m.eligible env u) : k ∈ ({ m with keeper } : GroupMachine).eligible env u := by
  by_cases hkey : k = key
  · subst hkey
    have hchange := hk.resolve_left fun hne => hne rfl
    obtain ⟨d, hd, hu, hdel, rfl, hown, hblack, holm⟩ := GroupMachine.mem_eligible.mp helig
    obtain ⟨t, ht⟩ := h.device d (lookup_of_mem hn hd)
    refine GroupMachine.mem_eligible.mpr ⟨{ d with trustState := t }, mem_of_lookup ht, hu, hdel, rfl,
      hown, ?_, holm⟩
    exact h.row hchange { d with trustState := t } rfl hblack
  · exact eligible_untouched h.untouched hn (by simpa using hkey) helig

end

end Nio.Crypto
