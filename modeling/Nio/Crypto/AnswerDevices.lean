import Nio.Crypto.AnswerPayloads

/-!
# The devices of an answer do not meet

What a device of an answer does depends on the device object and on the row under its own key, and
only these change: `answerDevice` and `answerUser` concern their own keys.

* `refreshDevice_isOk`, `saveDeviceKeys_isOk` — when a known device can be refreshed and saved
* `answerDevice_concerns`, `answerUser_concerns` — a device, and a user, concern themselves alone
-/

namespace Nio.Crypto

open Nio.Py
open Nio.Lib
open Nio.Events (PyError getItems)
open Nio.Store (TrustState Mark)

variable {env : KeyQueryEnv} {lib : SignatureLibrary}

/-! ## Rows -/

/-- A change of rows that looks at the row under a key and changes no other. -/
structure ActsAt (k : Str × Str)
    (f : List DeviceKeys → Except PyError (List DeviceKeys × OlmDevice)) : Prop where
  others : ∀ rows rows' d', f rows = .ok (rows', d') → ∀ k', k' ≠ k →
    lookup DeviceKeys.key k' rows' = lookup DeviceKeys.key k' rows
  own : ∀ rows rows' rows₂ d', lookup DeviceKeys.key k rows = lookup DeviceKeys.key k rows₂ →
    f rows = .ok (rows', d') → ∃ rows₂', f rows₂ = .ok (rows₂', d') ∧
      lookup DeviceKeys.key k rows' = lookup DeviceKeys.key k rows₂'
  present : ∀ rows rows' d', f rows = .ok (rows', d') →
    (lookup DeviceKeys.key k rows').isSome = (lookup DeviceKeys.key k rows).isSome

theorem ActsAt.pure (k : Str × Str) (d : OlmDevice) : ActsAt k fun rows => .ok (rows, d) where
  others := by
    rintro rows rows' d' ⟨⟩ k' -
    rfl
  own := by
    rintro rows rows' rows₂ d' h ⟨⟩
    exact ⟨rows₂, rfl, h⟩
  present := by
    rintro rows rows' d' ⟨⟩
    rfl

theorem ActsAt.bind {k : Str × Str}
    {f : List DeviceKeys → Except PyError (List DeviceKeys × OlmDevice)}
    {g : OlmDevice → List DeviceKeys → Except PyError (List DeviceKeys × OlmDevice)}
    (hf : ActsAt k f) (hg : ∀ rows rows' d, f rows = .ok (rows', d) → ActsAt k (g d)) :
    ActsAt k fun rows => f rows >>= fun r => g r.2 r.1 where
  others := by
    intro rows rows' d' h k' hk'
    obtain ⟨⟨rows₁, d₁⟩, h₁, h₂⟩ := bind_eq_ok.mp h
    exact ((hg _ _ d₁ h₁).others _ _ _ h₂ k' hk').trans (hf.others _ _ _ h₁ k' hk')
  own := by
    intro rows rows' rows₂ d' hk h
    obtain ⟨⟨rows₁, d₁⟩, h₁, h₂⟩ := bind_eq_ok.mp h
    obtain ⟨rows₂₁, h₂₁, hk₁⟩ := hf.own _ _ _ _ hk h₁
    obtain ⟨rows₂', h₂', hk'⟩ := (hg _ _ d₁ h₁).own _ _ _ _ hk₁ h₂
    exact ⟨rows₂', by rw [h₂₁]; exact h₂', hk'⟩
  present := by
    intro rows rows' d' h
    obtain ⟨⟨rows₁, d₁⟩, h₁, h₂⟩ := bind_eq_ok.mp h
    exact ((hg _ _ d₁ h₁).present _ _ _ h₂).trans (hf.present _ _ _ h₁)

/-- Assigning trust reads and writes one key only. -/
theorem assignTrust_acts (d : OlmDevice) (t : TrustState) :
    ActsAt d.key fun rows => assignTrust rows d t := by
  have hlookup := fun k rows => lookup_updateWhere k d.key (key_setTrust t) rows
  have hok : ∀ rows rows' d', assignTrust rows d t = .ok (rows', d') →
      rows' = updateWhere DeviceKeys.key d.key (DeviceKeys.setTrust t) rows := by
    intro rows rows' d' h
    unfold assignTrust at h
    split at h
    · cases h
    · cases h
      rfl
  refine ⟨?_, ?_, ?_⟩
  · intro rows rows' d' h k' hk'
    rw [hok _ _ _ h, hlookup, if_neg hk']
  · intro rows rows' rows₂ d' hk h
    have hrows := hok _ _ _ h
    unfold assignTrust at h ⊢
    rw [hk] at h
    split at h
    · cases h
    · next row hrow =>
      obtain ⟨-, rfl⟩ := Prod.mk.inj (Except.ok.inj h)
      refine ⟨_, rfl, ?_⟩
      rw [hrows, hlookup, hlookup, hk]
  · intro rows rows' d' h
    rw [hok _ _ _ h, hlookup, if_pos rfl, Option.isSome_map]

/-- A mark is read from the row of the device alone. -/
theorem isMarked_congr {rows rows₂ : List DeviceKeys} {m : Mark} {d : OlmDevice}
    (h : lookup DeviceKeys.key d.key rows = lookup DeviceKeys.key d.key rows₂) :
    isMarked rows m d = isMarked rows₂ m d := by
  unfold isMarked
  rw [h]

/-- A branch that looks at the row of the device -/
theorem ActsAt.ite {k : Str × Str} {c : List DeviceKeys → Bool}
    {f g : List DeviceKeys → Except PyError (List DeviceKeys × OlmDevice)}
    (hc : ∀ rows rows₂, lookup DeviceKeys.key k rows = lookup DeviceKeys.key k rows₂ →
      c rows = c rows₂)
    (hf : ActsAt k f) (hg : ActsAt k g) : ActsAt k fun rows => if c rows then f rows else g rows := by
  refine ⟨fun rows rows' d' h => ?_, fun rows rows' rows₂ d' hk h => ?_, fun rows rows' d' h => ?_⟩
  · cases hcase : c rows with
    | true => exact hf.others _ _ _ (by simpa [hcase] using h)
    | false => exact hg.others _ _ _ (by simpa [hcase] using h)
  · rw [← hc rows rows₂ hk]
    cases hcase : c rows with
    | true => simpa using hf.own _ _ _ _ hk (by simpa [hcase] using h)
    | false => simpa using hg.own _ _ _ _ hk (by simpa [hcase] using h)
  · cases hcase : c rows with
    | true => exact hf.present _ _ _ (by simpa [hcase] using h)
    | false => exact hg.present _ _ _ (by simpa [hcase] using h)

/-- Marking a device reads and writes one key only. -/
theorem markDevice_acts (m : Mark) (d : OlmDevice) : ActsAt d.key fun rows => markDevice rows m d :=
  ActsAt.ite (fun _ _ h => isMarked_congr h) (.pure _ d) (assignTrust_acts d m.state)

/-- So does taking a mark back, -/
theorem unmarkDevice_acts (m : Mark) (d : OlmDevice) :
    ActsAt d.key fun rows => unmarkDevice rows m d :=
  ActsAt.ite (fun _ _ h => isMarked_congr h) (assignTrust_acts d .unset) (.pure _ d)

/-- and so does dropping earned trust, -/
theorem dropEarnedTrust_acts (d : OlmDevice) : ActsAt d.key fun rows => dropEarnedTrust rows d := by
  unfold dropEarnedTrust
  cases d.trustState with
  | verified => exact unmarkDevice_acts .verified d
  | ignored => exact unmarkDevice_acts .ignored d
  | unset | blacklisted => exact .pure _ d

/-- The device that comes out of a change of trust differs in its trust at most. -/
theorem fields_of_dropEarnedTrust {rows rows' : List DeviceKeys} {d d' : OlmDevice}
    (h : dropEarnedTrust rows d = .ok (rows', d')) :
    d' = { d with trustState := d'.trustState } := by
  have hassign : ∀ t, assignTrust rows d t = .ok (rows', d') →
      d' = { d with trustState := d'.trustState } := by
    intro t h
    rw [(assignTrust_eq h).1]
  have hunmark : ∀ m, unmarkDevice rows m d = .ok (rows', d') →
      d' = { d with trustState := d'.trustState } := by
    intro m h
    unfold unmarkDevice at h
    split at h
    · exact hassign _ h
    · cases h
      rfl
  unfold dropEarnedTrust at h
  split at h
  · exact hunmark _ h
  · exact hunmark _ h
  · cases h
    rfl

/-- which never fails. -/
theorem dropEarnedTrust_isOk (rows : List DeviceKeys) (d : OlmDevice) :
    ∃ r, dropEarnedTrust rows d = .ok r := by
  have hunmark : ∀ m, ∃ r, unmarkDevice rows m d = .ok r := by
    intro m
    unfold unmarkDevice assignTrust
    cases hmarked : isMarked rows m d with
    | false => exact ⟨_, rfl⟩
    | true =>
      unfold isMarked at hmarked
      cases hrow : lookup DeviceKeys.key d.key rows with
      | none => rw [hrow] at hmarked; cases hmarked
      | some row => exact ⟨_, rfl⟩
  unfold dropEarnedTrust
  cases d.trustState with
  | verified => exact hunmark .verified
  | ignored => exact hunmark .ignored
  | unset | blacklisted => exact ⟨_, rfl⟩

/-- What `rotateDevice` does after the earned trust was dropped -/
def takeKeys (keys : Keys) (name : Json) (d : OlmDevice) (rows : List DeviceKeys) :
    Except PyError (List DeviceKeys × OlmDevice) :=
  let d := { d with keys, displayName := name, deleted := false }
  if d.trustState = .blacklisted then markDevice rows .blacklisted d
  else .ok (rows, { d with trustState := .unset })

/-- A rotation drops earned trust and then takes the new keys. -/
theorem rotateDevice_takeKeys (rows : List DeviceKeys) (d : OlmDevice) (keys : Keys) (name : Json) :
    rotateDevice rows d keys name =
      dropEarnedTrust rows d >>= fun r => takeKeys keys name r.2 r.1 := rfl

theorem takeKeys_acts (keys : Keys) (name : Json) (d : OlmDevice) :
    ActsAt d.key (takeKeys keys name d) := by
  unfold takeKeys
  dsimp only
  split
  · exact markDevice_acts .blacklisted { d with keys, displayName := name, deleted := false }
  · exact .pure _ _

/-- A rotation reads and writes one key only. -/
theorem rotateDevice_acts (d : OlmDevice) (keys : Keys) (name : Json) :
    ActsAt d.key fun rows => rotateDevice rows d keys name := by
  have htake : ∀ rows rows' d₁, dropEarnedTrust rows d = .ok (rows', d₁) →
      ActsAt d.key (takeKeys keys name d₁) := by
    intro rows rows' d₁ h
    have hkey : d₁.key = d.key := by
      rw [fields_of_dropEarnedTrust h]
      rfl
    rw [← hkey]
    exact takeKeys_acts keys name d₁
  exact (dropEarnedTrust_acts d).bind htake

theorem fields_of_markDevice {rows rows' : List DeviceKeys} {m : Mark} {d d' : OlmDevice}
    (h : markDevice rows m d = .ok (rows', d')) : d' = { d with trustState := d'.trustState } := by
  unfold markDevice at h
  split at h
  · cases h
    rfl
  · rw [(assignTrust_eq h).1]

theorem fields_of_rotateDevice {rows rows' : List DeviceKeys} {d d' : OlmDevice} {keys : Keys}
    {name : Json} (h : rotateDevice rows d keys name = .ok (rows', d')) :
    d' = ⟨d.userId, d.deviceId, keys, name, false, d'.trustState⟩ := by
  rw [rotateDevice_takeKeys] at h
  obtain ⟨⟨rows₁, d₁⟩, hdrop, htake⟩ := bind_eq_ok.mp h
  have hfields := fields_of_dropEarnedTrust hdrop
  unfold takeKeys at htake
  dsimp only at htake
  split at htake
  · rw [fields_of_markDevice htake, hfields]
  · cases htake
    rw [hfields]

/-- A device that is blacklisted cannot be rotated without a row. -/
theorem rotateDevice_isOk {rows : List DeviceKeys} {d : OlmDevice} {keys : Keys} {name : Json} :
    (∃ r, rotateDevice rows d keys name = .ok r) ↔
      (d.trustState = .blacklisted → (lookup DeviceKeys.key d.key rows).isSome) := by
  obtain ⟨⟨rows₁, d₁⟩, hdrop⟩ := dropEarnedTrust_isOk rows d
  have hfields := fields_of_dropEarnedTrust hdrop
  have hpresent := (dropEarnedTrust_acts d).present _ _ _ hdrop
  have htrust : d₁.trustState = .blacklisted ↔ d.trustState = .blacklisted := by
    have hearned : ∀ m t, d.trustState = t → t ≠ .blacklisted →
        unmarkDevice rows m d = .ok (rows₁, d₁) → d₁.trustState ≠ .blacklisted := by
      intro m t ht hne h
      unfold unmarkDevice at h
      split at h
      · rw [(assignTrust_eq h).1]
        simp
      · cases h
        rw [ht]
        exact hne
    unfold dropEarnedTrust at hdrop
    cases ht : d.trustState with
    | verified =>
      rw [ht] at hdrop
      simpa using hearned .verified _ ht (by simp) hdrop
    | ignored =>
      rw [ht] at hdrop
      simpa using hearned .ignored _ ht (by simp) hdrop
    | unset | blacklisted =>
      rw [ht] at hdrop
      cases hdrop
      rw [ht]
  rw [rotateDevice_takeKeys, hdrop, ok_bind, ← htrust, ← hpresent]
  unfold takeKeys
  dsimp only
  by_cases hb : d₁.trustState = .blacklisted
  · rw [if_pos hb]
    have hkey : d₁.key = d.key := by
      rw [hfields]
      rfl
    have hlookup : lookup DeviceKeys.key
        (OlmDevice.key { d₁ with keys, displayName := name, deleted := false }) rows₁ =
        lookup DeviceKeys.key d.key rows₁ := congrArg (lookup DeviceKeys.key · rows₁) hkey
    unfold markDevice isMarked assignTrust
    rw [hlookup]
    cases lookup DeviceKeys.key d.key rows₁ with
    | none => simp [hb]
    | some row =>
      simp only [Option.any_some, Option.isSome_some, implies_true, iff_true]
      split
      · exact ⟨_, rfl⟩
      · exact ⟨_, rfl⟩
  · rw [if_neg hb]
    exact ⟨fun _ h => absurd h hb, fun _ => ⟨_, rfl⟩⟩

/-! ## A known device -/

/-- Nothing changes: the device is pinned, or it is as it was. -/
def Unmoved (env : KeyQueryEnv) (d : OlmDevice) (keys : Keys) (name : Json) : Prop :=
  (d.keys.ed25519 ≠ keys.ed25519 ∧ env.replaceRotatedDeviceKeys = false) ∨
    (d.keys = keys ∧ d.displayName = name)

/-- Nothing is saved exactly for a device that did not move. -/
theorem refreshDevice_eq_none {rows : List DeviceKeys} {d : OlmDevice} {keys : Keys} {name : Json} :
    refreshDevice env rows d keys name = .ok none ↔ Unmoved env d keys name := by
  obtain ⟨ed25519, curve25519⟩ := keys
  obtain ⟨userId, deviceId, ⟨ed, curve⟩, displayName, deleted, trustState⟩ := d
  unfold refreshDevice Unmoved
  dsimp only
  split
  · next hed =>
    split
    · next hr =>
      have hsame : ¬ (Keys.mk ed curve = ⟨ed25519, curve25519⟩ ∧ displayName = name) :=
        fun h => hed (congrArg Keys.ed25519 h.1)
      simp only [hr, Bool.true_eq_false, and_false, false_or, hsame, iff_false]
      cases rotateDevice rows ⟨userId, deviceId, ⟨ed, curve⟩, displayName, deleted, trustState⟩
        ⟨ed25519, curve25519⟩ name <;> simp [Except.map]
    · next hr => simp [hed, hr]
  · next hed =>
    rw [not_not] at hed
    subst hed
    split
    · next hsame => simp [hsame]
    · next hsame =>
      have hsame' : ¬ (Keys.mk ed curve = ⟨ed, curve25519⟩ ∧ displayName = name) :=
        fun h => hsame ⟨congrArg Keys.curve25519 h.1, h.2⟩
      split <;> simpa using fun h => not_and.mp hsame h

/-- A refresh fails only on a blacklisted device without a row whose keys are replaced. -/
theorem refreshDevice_isOk {rows : List DeviceKeys} {d : OlmDevice} {keys : Keys} {name : Json} :
    (∃ r, refreshDevice env rows d keys name = .ok r) ↔
      (d.keys.ed25519 ≠ keys.ed25519 → env.replaceRotatedDeviceKeys = true →
        d.trustState = .blacklisted → (lookup DeviceKeys.key d.key rows).isSome) := by
  unfold refreshDevice
  split
  · next hed =>
    split
    · next hr =>
      refine Iff.trans ?_ ((@rotateDevice_isOk rows d keys name).trans
        ⟨fun h _ _ => h, fun h => h hed hr⟩)
      cases rotateDevice rows d keys name with
      | error e => simp [Except.map]
      | ok r => simp [Except.map]
    · next hr => exact ⟨fun _ _ hr' => absurd hr' hr, fun _ => ⟨none, rfl⟩⟩
  · next hed =>
    refine ⟨fun _ hed' => absurd hed' hed, fun _ => ?_⟩
    split
    · exact ⟨_, rfl⟩
    · split
      · exact ⟨_, rfl⟩
      · exact ⟨_, rfl⟩

/-- A known device that changes takes the keys and the name, and its row keeps its place. -/
structure RefreshedBy (env : KeyQueryEnv) (d : OlmDevice) (keys : Keys) (name : Json)
    (rows rows' : List DeviceKeys) (d' : OlmDevice) : Prop where
  fields : d' = { refreshed env d keys name with trustState := d'.trustState }
  others : ∀ k, k ≠ d.key → lookup DeviceKeys.key k rows' = lookup DeviceKeys.key k rows
  present : (lookup DeviceKeys.key d.key rows').isSome = (lookup DeviceKeys.key d.key rows).isSome
  own : ∀ rows₂, lookup DeviceKeys.key d.key rows = lookup DeviceKeys.key d.key rows₂ →
    ∃ rows₂', refreshDevice env rows₂ d keys name = .ok (some (rows₂', d')) ∧
      lookup DeviceKeys.key d.key rows' = lookup DeviceKeys.key d.key rows₂'

theorem refreshDevice_eq_some {rows rows' : List DeviceKeys} {d d' : OlmDevice} {keys : Keys}
    {name : Json} (h : refreshDevice env rows d keys name = .ok (some (rows', d'))) :
    RefreshedBy env d keys name rows rows' d' := by
  by_cases hed : d.keys.ed25519 ≠ keys.ed25519
  · by_cases hr : env.replaceRotatedDeviceKeys = true
    · have hrotate : ∀ rows, refreshDevice env rows d keys name =
          (rotateDevice rows d keys name).map some := by
        intro rows
        unfold refreshDevice
        rw [if_pos hed, if_pos hr]
      have hsome : ∀ {rows r}, (rotateDevice rows d keys name).map some = .ok (some r) ↔
          rotateDevice rows d keys name = .ok r := by
        intro rows r
        cases rotateDevice rows d keys name <;> simp [Except.map]
      have hacts := rotateDevice_acts d keys name
      have h' := hsome.mp ((hrotate rows).symm.trans h)
      refine ⟨?_, hacts.others _ _ _ h', hacts.present _ _ _ h', fun rows₂ hk => ?_⟩
      · have hfields := fields_of_rotateDevice h'
        unfold refreshed
        rw [if_pos hed, if_pos hr]
        exact hfields
      · obtain ⟨rows₂', h₂, hk'⟩ := hacts.own _ _ _ _ hk h'
        exact ⟨rows₂', (hrotate rows₂).trans (hsome.mpr h₂), hk'⟩
    · unfold refreshDevice at h
      rw [if_pos hed, if_neg hr] at h
      cases h
  · -- The rows are not looked at.
    have hrows : ∀ rows₁ rows₂ r, refreshDevice env rows₁ d keys name = .ok (some r) →
        r.1 = rows₁ ∧ refreshDevice env rows₂ d keys name = .ok (some (rows₂, r.2)) := by
      intro rows₁ rows₂ r hr
      unfold refreshDevice at hr ⊢
      rw [if_neg hed] at hr ⊢
      split at hr
      · cases hr
      · next hsame =>
        rw [if_neg hsame]
        split at hr
        · next hc =>
          cases hr
          exact ⟨rfl, if_pos hc⟩
        · next hc =>
          cases hr
          exact ⟨rfl, if_neg hc⟩
    obtain rfl : rows' = rows := (hrows rows rows (rows', d') h).1
    refine ⟨?_, fun _ _ => rfl, rfl, fun rows₂ hk => ⟨rows₂, (hrows _ _ _ h).2, hk⟩⟩
    unfold refreshed
    unfold refreshDevice at h
    rw [if_neg hed] at h ⊢
    split at h
    · cases h
    · split at h
      · next hc =>
        cases h
        rw [if_pos hc]
      · next hc =>
        cases h
        rw [if_neg hc]

theorem RefreshedBy.key {rows rows' : List DeviceKeys} {d d' : OlmDevice} {keys : Keys}
    {name : Json} (h : RefreshedBy env d keys name rows rows' d') : d'.key = d.key := by
  rw [h.fields]
  exact key_refreshed d keys name

/-- A device that changes is not what it was. -/
theorem ne_of_refreshDevice {rows rows' : List DeviceKeys} {d d' : OlmDevice} {keys : Keys}
    {name : Json} (h : refreshDevice env rows d keys name = .ok (some (rows', d'))) : d' ≠ d := by
  rintro rfl
  have hfields := (refreshDevice_eq_some h).fields
  refine absurd (refreshDevice_eq_none.mpr ?_) (fun hnone : refreshDevice env rows d' keys name =
    .ok none => absurd (h.symm.trans hnone) (by simp))
  unfold refreshed at hfields
  unfold Unmoved
  split at hfields
  · next hed =>
    split at hfields
    · exact absurd (congrArg (fun d : OlmDevice => d.keys.ed25519) hfields) hed
    · next hr => exact Or.inl ⟨hed, by simpa using hr⟩
  · next hed =>
    rw [not_not] at hed
    split at hfields
    · next hc => exact absurd (congrArg (fun d : OlmDevice => d.keys.curve25519) hfields) hc
    · next hc =>
      rw [not_not] at hc
      refine Or.inr ⟨?_, congrArg OlmDevice.displayName hfields⟩
      cases hk : d'.keys with
      | mk ed curve =>
        rw [hk] at hed hc
        cases keys
        exact congrArg₂ Keys.mk hed hc

/-! ## What is seen under a key -/

structure DeviceView where
  devices : List OlmDevice
  row : Option DeviceKeys
  changed : Prop

def viewOf (k : Str × Str) (w : KeyQueryWork) : DeviceView :=
  ⟨w.1.deviceStore.filter (·.key = k), lookup DeviceKeys.key k w.1.deviceKeys, k ∈ w.2⟩

/-- Two working states look alike at a key if their devices, rows and marks there do. -/
theorem viewOf_congr {k : Str × Str} {w w' : KeyQueryWork}
    (hd : w.1.deviceStore.filter (·.key = k) = w'.1.deviceStore.filter (·.key = k))
    (hr : lookup DeviceKeys.key k w.1.deviceKeys = lookup DeviceKeys.key k w'.1.deviceKeys)
    (hc : k ∈ w.2 ↔ k ∈ w'.2) : viewOf k w = viewOf k w' := by
  unfold viewOf
  rw [hd, hr, propext hc]

theorem lookup_of_viewOf {k : Str × Str} {w w' : KeyQueryWork} (h : viewOf k w = viewOf k w') :
    lookup OlmDevice.key k w.1.deviceStore = lookup OlmDevice.key k w'.1.deviceStore := by
  rw [lookup_eq_head?, lookup_eq_head?]
  exact congrArg List.head? (congrArg DeviceView.devices h)

theorem row_of_viewOf {k : Str × Str} {w w' : KeyQueryWork} (h : viewOf k w = viewOf k w') :
    lookup DeviceKeys.key k w.1.deviceKeys = lookup DeviceKeys.key k w'.1.deviceKeys :=
  congrArg DeviceView.row h

theorem changed_of_viewOf {k : Str × Str} {w w' : KeyQueryWork} (h : viewOf k w = viewOf k w') :
    k ∈ w.2 ↔ k ∈ w'.2 :=
  iff_of_eq (congrArg DeviceView.changed h)

/-- Putting a device changes no other view. -/
theorem viewOf_putDevice_others {w : KeyQueryWork} {rows : List DeviceKeys} {d : OlmDevice}
    {renamed : Bool} {k : Str × Str} (hk : k ≠ d.key)
    (hrows : lookup DeviceKeys.key k rows = lookup DeviceKeys.key k w.1.deviceKeys) :
    viewOf k (putDevice w rows d renamed) = viewOf k w := by
  refine viewOf_congr ?_ hrows (by simp [putDevice, hk])
  exact (filter_upsert k d _).trans (if_neg hk)

/-- It changes equal views alike. -/
theorem viewOf_putDevice_own {w w₂ : KeyQueryWork} {rows rows₂ : List DeviceKeys} {d : OlmDevice}
    {renamed : Bool} (h : viewOf d.key w = viewOf d.key w₂)
    (hrows : lookup DeviceKeys.key d.key rows = lookup DeviceKeys.key d.key rows₂) :
    viewOf d.key (putDevice w rows d renamed) = viewOf d.key (putDevice w₂ rows₂ d renamed) := by
  refine viewOf_congr ?_ hrows (by simp [putDevice])
  unfold putDevice
  rw [filter_upsert, filter_upsert, if_pos rfl, if_pos rfl]
  exact congrArg (upsert OlmDevice.key d) (congrArg DeviceView.devices h)

/-! ## A device of an answer -/

/-- A device of an answer that is taken: a new one, or a known one that changes -/
inductive Answered (env : KeyQueryEnv) (userId deviceId : Str) (keys : Keys) (name : Json)
    (w : KeyQueryWork) : KeyQueryWork → Prop where
  | added (hnew : lookup OlmDevice.key (userId, deviceId) w.1.deviceStore = none) :
    Answered env userId deviceId keys name w
      (putDevice w w.1.deviceKeys ⟨userId, deviceId, keys, name, false, .unset⟩ false)
  | unmoved (d : OlmDevice)
    (hknown : lookup OlmDevice.key (userId, deviceId) w.1.deviceStore = some d)
    (hsame : Unmoved env d keys name) : Answered env userId deviceId keys name w w
  | refreshed (d d' : OlmDevice) (rows : List DeviceKeys)
    (hknown : lookup OlmDevice.key (userId, deviceId) w.1.deviceStore = some d)
    (hrefresh : refreshDevice env w.1.deviceKeys d keys name = .ok (some (rows, d'))) :
    Answered env userId deviceId keys name w
      (putDevice w rows d' (d'.displayName ≠ d.displayName))

/-- A payload for the own device is skipped. -/
theorem answerDevice_own {w : KeyQueryWork} {userId deviceId : Str} {payload : Json}
    (h : userId = env.userId ∧ deviceId = env.deviceId) :
    answerDevice env lib userId w (deviceId, payload) = .ok w := by
  unfold answerDevice
  exact if_pos h

/-- A payload is skipped, or its keys are taken for its device. -/
theorem answerDevice_eq_ok {w w' : KeyQueryWork} {userId deviceId : Str} {payload : Json}
    (hown : ¬ (userId = env.userId ∧ deviceId = env.deviceId)) :
    answerDevice env lib userId w (deviceId, payload) = .ok w' ↔
      (acceptJson env lib userId deviceId payload = .ok none ∧ w' = w) ∨
      ∃ keys name, acceptJson env lib userId deviceId payload = .ok (some (keys, name)) ∧
        Answered env userId deviceId keys name w w' := by
  unfold answerDevice
  dsimp only
  rw [if_neg hown]
  constructor
  · intro h
    obtain ⟨accepted, haccept, h₁⟩ := bind_eq_ok.mp h
    cases accepted with
    | none =>
      cases h₁
      exact Or.inl ⟨haccept, rfl⟩
    | some kn =>
      obtain ⟨keys, name⟩ := kn
      refine Or.inr ⟨keys, name, haccept, ?_⟩
      dsimp only at h₁
      cases hold : lookup OlmDevice.key (userId, deviceId) w.1.deviceStore with
      | none =>
        rw [hold] at h₁
        cases h₁
        exact .added hold
      | some d =>
        rw [hold] at h₁
        obtain ⟨r, hrefresh, h₂⟩ := bind_eq_ok.mp h₁
        cases r with
        | none =>
          cases h₂
          exact .unmoved d hold (refreshDevice_eq_none.mp hrefresh)
        | some r =>
          obtain ⟨rows, d'⟩ := r
          cases h₂
          exact .refreshed d d' rows hold hrefresh
  · rintro (⟨haccept, rfl⟩ | ⟨keys, name, haccept, hanswered⟩)
    · rw [haccept, ok_bind]
      rfl
    · rw [haccept, ok_bind]
      cases hanswered with
      | added hnew =>
        dsimp only
        rw [hnew]
        rfl
      | unmoved d hknown hsame =>
        dsimp only
        rw [hknown]
        dsimp only
        rw [refreshDevice_eq_none.mpr hsame]
        rfl
      | refreshed d d' rows hknown hrefresh =>
        dsimp only
        rw [hknown]
        dsimp only
        rw [hrefresh]
        rfl

/-- A payload is seen only at its own device. -/
theorem Answered.others {w w' : KeyQueryWork} {userId deviceId : Str} {keys : Keys} {name : Json}
    (h : Answered env userId deviceId keys name w w') {k : Str × Str}
    (hk : k ≠ (userId, deviceId)) : viewOf k w' = viewOf k w := by
  cases h with
  | added hnew => exact viewOf_putDevice_others hk rfl
  | unmoved d hknown hsame => rfl
  | refreshed d d' rows hknown hrefresh =>
    have hr := refreshDevice_eq_some hrefresh
    have hkey : d.key = (userId, deviceId) := key_of_lookup hknown
    have hkd : k ≠ d.key := fun he => hk (he.trans hkey)
    exact viewOf_putDevice_others (fun he => hkd (he.trans hr.key)) (hr.others k hkd)

/-- What it does there depends only on the view of that device. -/
theorem Answered.own {w w' w₂ : KeyQueryWork} {userId deviceId : Str} {keys : Keys} {name : Json}
    (h : Answered env userId deviceId keys name w w')
    (hview : viewOf (userId, deviceId) w = viewOf (userId, deviceId) w₂) :
    ∃ w₂', Answered env userId deviceId keys name w₂ w₂' ∧
      viewOf (userId, deviceId) w' = viewOf (userId, deviceId) w₂' := by
  have hlookup := lookup_of_viewOf hview
  have hrow := row_of_viewOf hview
  cases h with
  | added hnew =>
    refine ⟨_, .added (hlookup.symm.trans hnew), ?_⟩
    have hput := fun d : OlmDevice => fun hd : d.key = (userId, deviceId) =>
      @viewOf_putDevice_own w w₂ w.1.deviceKeys w₂.1.deviceKeys d false
        (by rw [hd]; exact hview) (by rw [hd]; exact hrow)
    exact hput ⟨userId, deviceId, keys, name, false, .unset⟩ rfl
  | unmoved d hknown hsame => exact ⟨w₂, .unmoved d (hlookup.symm.trans hknown) hsame, hview⟩
  | refreshed d d' rows hknown hrefresh =>
    have hr := refreshDevice_eq_some hrefresh
    have hkey : d.key = (userId, deviceId) := key_of_lookup hknown
    obtain ⟨rows₂, hrefresh₂, hrows⟩ := hr.own w₂.1.deviceKeys (by rw [hkey]; exact hrow)
    refine ⟨_, .refreshed d d' rows₂ (hlookup.symm.trans hknown) hrefresh₂, ?_⟩
    have hkey' : d'.key = (userId, deviceId) := hr.key.trans hkey
    rw [← hkey']
    rw [← hkey'] at hview
    refine viewOf_putDevice_own hview ?_
    rw [hr.key]
    exact hrows

/-- A device of an answer concerns itself alone. -/
theorem answerDevice_concerns (userId : Str) :
    Concerns (fun p : Str × Json => (userId, p.1)) viewOf (answerDevice env lib userId) := by
  refine ⟨fun w p w' h k hk => ?_, fun w w₂ p w' hview h => ?_⟩
  · obtain ⟨deviceId, payload⟩ := p
    by_cases hown : userId = env.userId ∧ deviceId = env.deviceId
    · rw [answerDevice_own hown] at h
      rw [Except.ok.inj h]
    · rcases (answerDevice_eq_ok hown).mp h with ⟨-, rfl⟩ | ⟨keys, name, -, hanswered⟩
      · rfl
      · exact hanswered.others hk
  · obtain ⟨deviceId, payload⟩ := p
    by_cases hown : userId = env.userId ∧ deviceId = env.deviceId
    · rw [answerDevice_own hown] at h
      exact ⟨w₂, answerDevice_own hown, by rw [← Except.ok.inj h]; exact hview⟩
    · rcases (answerDevice_eq_ok hown).mp h with ⟨haccept, rfl⟩ | ⟨keys, name, haccept, hanswered⟩
      · exact ⟨w₂, (answerDevice_eq_ok hown).mpr (Or.inl ⟨haccept, rfl⟩), hview⟩
      · obtain ⟨w₂', hanswered₂, hview'⟩ := hanswered.own hview
        exact ⟨w₂', (answerDevice_eq_ok hown).mpr (Or.inr ⟨keys, name, haccept, hanswered₂⟩), hview'⟩

/-! ## A user of an answer -/

theorem filter_dropDevice (userId : Str) (current : List Str) (k : Str × Str)
    (store : List OlmDevice) :
    (store.map (dropDevice userId current)).filter (·.key = k) =
      (store.filter (·.key = k)).map (dropDevice userId current) := by
  rw [List.filter_map]
  refine congrArg _ (List.filter_congr fun d _ => ?_)
  simp [key_dropDevice]

/-- Dropping devices is seen at each key by itself. -/
theorem viewOf_dropDevices (userId : Str) (current : List Str) (k : Str × Str) (w : KeyQueryWork) :
    viewOf k (dropDevices userId current w) =
      ⟨(viewOf k w).devices.map (dropDevice userId current), (viewOf k w).row,
        (∃ d ∈ (viewOf k w).devices, isDropped userId current d) ∨ (viewOf k w).changed⟩ := by
  unfold viewOf dropDevices
  dsimp only
  rw [filter_dropDevice]
  refine congrArg _ (propext ?_)
  rw [List.mem_append, List.mem_map]
  refine or_congr ⟨?_, ?_⟩ Iff.rfl
  · rintro ⟨d, hd, rfl⟩
    obtain ⟨hmem, hdropped⟩ := List.mem_filter.mp hd
    exact ⟨d, List.mem_filter.mpr ⟨hmem, by simp⟩, hdropped⟩
  · rintro ⟨d, hd, hdropped⟩
    obtain ⟨hmem, hk⟩ := List.mem_filter.mp hd
    exact ⟨d, List.mem_filter.mpr ⟨hmem, hdropped⟩, of_decide_eq_true hk⟩

/-- It is not seen at the devices of other users. -/
theorem viewOf_dropDevices_others {userId : Str} {current : List Str} {k : Str × Str}
    (hk : k.1 ≠ userId) (w : KeyQueryWork) :
    viewOf k (dropDevices userId current w) = viewOf k w := by
  rw [viewOf_dropDevices]
  have hnot : ∀ d ∈ (viewOf k w).devices, isDropped userId current d = false := by
    intro d hd
    have hkey : d.key = k := of_decide_eq_true (List.mem_filter.mp hd).2
    have huser : d.userId ≠ userId := by
      rw [show d.userId = k.1 from congrArg Prod.fst hkey]
      exact hk
    simp [isDropped, huser]
  have hmap : (viewOf k w).devices.map (dropDevice userId current) = (viewOf k w).devices := by
    rw [List.map_congr_left fun d hd => show dropDevice userId current d = d by
      simp [dropDevice, hnot d hd], List.map_id']
  have hchanged : ((∃ d ∈ (viewOf k w).devices, isDropped userId current d = true) ∨
      (viewOf k w).changed) = (viewOf k w).changed := by
    refine propext ⟨fun h => h.resolve_left ?_, Or.inr⟩
    rintro ⟨d, hd, hdropped⟩
    rw [hnot d hd] at hdropped
    cases hdropped
  rw [hmap, hchanged]

/-- The keeper with which the devices of a user are gone through -/
def enterUser (queriedUsers : Option (List Str)) (userId : Str) (keeper : DeviceKeeper) :
    DeviceKeeper :=
  { keeper with
    usersForKeyQuery :=
      if queriedUsers.isNone then keeper.usersForKeyQuery.filter (· ≠ userId)
      else keeper.usersForKeyQuery
    trackedUsers := userId :: keeper.trackedUsers }

theorem viewOf_enterUser (queriedUsers : Option (List Str)) (userId : Str) (w : KeyQueryWork)
    (k : Str × Str) : viewOf k (enterUser queriedUsers userId w.1, w.2) = viewOf k w := rfl

theorem getItems_eq_ok {v : Json} {entries : List (Str × Json)} :
    getItems v = .ok entries ↔ v = .obj entries := by
  cases v <;> simp [getItems]

/-- The answer for a user is handled exactly when it is an object whose payloads are. -/
theorem answerUser_eq_ok {queriedUsers : Option (List Str)} {w w' : KeyQueryWork} {userId : Str}
    {devices : Json} :
    answerUser env lib queriedUsers w (userId, devices) = .ok w' ↔
      ∃ entries w₁, devices = .obj entries ∧
        entries.foldlM (answerDevice env lib userId) (enterUser queriedUsers userId w.1, w.2) =
          .ok w₁ ∧ w' = dropDevices userId (entries.map (·.1)) w₁ := by
  unfold answerUser
  constructor
  · intro h
    obtain ⟨entries, hentries, h₁⟩ := bind_eq_ok.mp h
    obtain ⟨w₁, hrun, h₂⟩ := bind_eq_ok.mp h₁
    exact ⟨entries, w₁, getItems_eq_ok.mp hentries, hrun, (Except.ok.inj h₂).symm⟩
  · rintro ⟨entries, w₁, rfl, hrun, rfl⟩
    dsimp only
    rw [getItems_eq_ok.mpr rfl, ok_bind]
    exact bind_eq_ok.mpr ⟨w₁, hrun, rfl⟩

/-- All that is seen of a user -/
def userView (userId : Str) (w : KeyQueryWork) : Str → DeviceView :=
  fun deviceId => viewOf (userId, deviceId) w

/-- A user of an answer concerns itself alone. -/
theorem answerUser_concerns (queriedUsers : Option (List Str)) :
    Concerns (fun p : Str × Json => p.1) userView (answerUser env lib queriedUsers) := by
  refine ⟨fun w p w' h user huser => ?_, fun w w₂ p w' hview h => ?_⟩
  · obtain ⟨userId, devices⟩ := p
    obtain ⟨entries, w₁, rfl, hrun, rfl⟩ := answerUser_eq_ok.mp h
    funext deviceId
    unfold userView
    rw [viewOf_dropDevices_others (show (user, deviceId).1 ≠ userId from huser)]
    have hnot : (user, deviceId) ∉ entries.map fun p : Str × Json => (userId, p.1) := by
      intro hmem
      obtain ⟨p, -, hp⟩ := List.mem_map.mp hmem
      exact huser (congrArg Prod.fst hp).symm
    exact foldlM_others (answerDevice_concerns userId) hrun hnot
  · obtain ⟨userId, devices⟩ := p
    obtain ⟨entries, w₁, rfl, hrun, rfl⟩ := answerUser_eq_ok.mp h
    obtain ⟨w₂₁, hrun₂, hview₂⟩ := @foldlM_congr _ _ _ _ _ _ _ _ (answerDevice_concerns userId)
      (fun k => k.1 = userId) entries (fun _ _ => rfl) _ _
      (enterUser queriedUsers userId w₂.1, w₂.2) (fun k hk => by
        have := congrFun hview k.2
        unfold userView at this
        rw [viewOf_enterUser, viewOf_enterUser]
        rw [show k = (userId, k.2) from Prod.ext hk rfl]
        exact this) hrun
    refine ⟨_, answerUser_eq_ok.mpr ⟨entries, w₂₁, rfl, hrun₂, rfl⟩, ?_⟩
    funext deviceId
    unfold userView
    rw [viewOf_dropDevices, viewOf_dropDevices, hview₂ (userId, deviceId) rfl]

/-! ## Saving -/

/-- A device can be written: its texts are text, and it has a row or a name for a new one. -/
structure Storable (env : KeyQueryEnv) (rows : List DeviceKeys) (d : OlmDevice) : Prop where
  insertable : Insertable env d
  row : nameText env d.displayName = none → (lookup DeviceKeys.key d.key rows).isSome
  keys : d.keys.ed25519.Encodable ∧ d.keys.curve25519.Encodable

/-- The updates succeed exactly on devices that have a row and keys that can be stored. -/
theorem updateDevices_isOk {rows : List DeviceKeys} {devices : List OlmDevice} :
    (∃ rows', devices.foldlM updateDevice rows = .ok rows') ↔
      ∀ d ∈ devices, (lookup DeviceKeys.key d.key rows).isSome ∧
        d.keys.ed25519.Encodable ∧ d.keys.curve25519.Encodable := by
  induction devices generalizing rows with
  | nil => exact ⟨fun _ _ hd => absurd hd List.not_mem_nil, fun _ => ⟨rows, rfl⟩⟩
  | cons d devices ih =>
    have hpresent : ∀ k, (lookup DeviceKeys.key k
        (updateWhere DeviceKeys.key d.key (DeviceKeys.update d) rows)).isSome =
        (lookup DeviceKeys.key k rows).isSome := by
      intro k
      rw [lookup_updateWhere k d.key (key_update d) rows]
      split
      · exact Option.isSome_map
      · rfl
    rw [List.foldlM_cons, List.forall_mem_cons]
    constructor
    · rintro ⟨rows', h⟩
      obtain ⟨rows₁, hfirst, hrest⟩ := bind_eq_ok.mp h
      obtain ⟨row, hrow, hkeys, rfl⟩ := updateDevice_eq.mp hfirst
      refine ⟨⟨by rw [hrow]; rfl, hkeys⟩, fun x hx => ?_⟩
      rw [← hpresent]
      exact ih.mp ⟨rows', hrest⟩ x hx
    · rintro ⟨⟨hrow, hkeys⟩, hall⟩
      obtain ⟨row, hrow⟩ := Option.isSome_iff_exists.mp hrow
      obtain ⟨rows', hrest⟩ := ih.mpr fun x hx => by
        rw [hpresent]
        exact hall x hx
      exact ⟨rows', bind_eq_ok.mpr ⟨_, updateDevice_eq.mpr ⟨row, hrow, hkeys, rfl⟩, hrest⟩⟩

/-- Saving succeeds exactly when every changed device can be stored. -/
theorem saveDeviceKeys_isOk {w : KeyQueryWork} :
    (∃ rows, saveDeviceKeys env w.1.deviceKeys (changedDevices w) = .ok rows) ↔
      ∀ d ∈ changedDevices w, Storable env w.1.deviceKeys d := by
  have hof := ofStore_changedDevices w
  have hrow : ∀ d ∈ changedDevices w,
      ((lookup DeviceKeys.key d.key
        ((changedDevices w).foldl (insertDevice env) w.1.deviceKeys)).isSome ↔
      (nameText env d.displayName = none → (lookup DeviceKeys.key d.key w.1.deviceKeys).isSome)) := by
    intro d hd
    rw [lookup_insertDevices hof _ (hof d hd), if_pos (List.mem_map_of_mem hd), newRow]
    cases lookup DeviceKeys.key d.key w.1.deviceKeys with
    | some row => simp
    | none => cases nameText env d.displayName <;> simp
  constructor
  · rintro ⟨rows, h⟩ d hd
    obtain ⟨hinsert, hrun⟩ := saveDeviceKeys_eq.mp h
    have hupdate := updateDevices_isOk.mp ⟨rows, hrun⟩ d hd
    exact ⟨hinsert d hd, (hrow d hd).mp hupdate.1, hupdate.2⟩
  · intro hall
    obtain ⟨rows, hrun⟩ := updateDevices_isOk.mpr fun d hd =>
      ⟨(hrow d hd).mpr (hall d hd).row, (hall d hd).keys⟩
    exact ⟨rows, saveDeviceKeys_eq.mpr ⟨fun d hd => (hall d hd).insertable, hrun⟩⟩

/-- The row of a device after the devices that changed were saved -/
def savedRow (env : KeyQueryEnv) (row : Option DeviceKeys) : Option OlmDevice → Option DeviceKeys
  | some d => (row.or (newRow env d)).map (·.update d)
  | none => row

/-- A changed key holds the device that was saved, every other key its old row. -/
theorem lookup_saveDeviceKeys {w : KeyQueryWork} {rows : List DeviceKeys}
    (h : saveDeviceKeys env w.1.deviceKeys (changedDevices w) = .ok rows) (k : Str × Str) :
    lookup DeviceKeys.key k rows =
      if k ∈ w.2 then savedRow env (lookup DeviceKeys.key k w.1.deviceKeys)
        (lookup OlmDevice.key k w.1.deviceStore)
      else lookup DeviceKeys.key k w.1.deviceKeys := by
  obtain ⟨-, hrun⟩ := saveDeviceKeys_eq.mp h
  have hof := ofStore_changedDevices w
  have hunsaved : k ∉ (changedDevices w).map OlmDevice.key →
      lookup DeviceKeys.key k rows = lookup DeviceKeys.key k w.1.deviceKeys := by
    intro hk
    rw [(lookup_updateDevices hof hrun k).1 hk, lookup_insertDevices_of_notMem hk]
  split
  · next hk =>
    cases hd : lookup OlmDevice.key k w.1.deviceStore with
    | none =>
      refine hunsaved fun hmem => ?_
      obtain ⟨d, hmem', rfl⟩ := List.mem_map.mp hmem
      rw [hof d hmem'] at hd
      cases hd
    | some d =>
      obtain rfl := key_of_lookup hd
      have hmem := (mem_changedDevices hd).mpr hk
      obtain ⟨row, hrow, hrow'⟩ := (lookup_updateDevices hof hrun d.key).2 d hmem rfl
      rw [lookup_insertDevices hof _ hd, if_pos (List.mem_map_of_mem hmem)] at hrow
      rw [hrow']
      unfold savedRow
      dsimp only
      rw [hrow, Option.map_some]
  · next hk =>
    refine hunsaved fun hmem => hk ?_
    obtain ⟨d, hmem', rfl⟩ := List.mem_map.mp hmem
    exact (mem_changedDevices (hof d hmem')).mp hmem'

end Nio.Crypto
