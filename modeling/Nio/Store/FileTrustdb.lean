import Nio.Py.Str

/-!
# Key files of the default trust store

A `KeyStore` is a list of fingerprint keys in the order in which they were added. It is written
to its file after every change and read back when it is opened; only the list is modelled.

* `KeyStore.add_of_fixed` — a key whose fingerprint agrees with the list is always appended
* `KeyStore.mem_remove` — removing takes one occurrence out of the list, not all of them
-/

namespace Nio.Store

open Nio.Py (Str py)

/-- The fingerprint key of a device, `Ed25519Key`. -/
structure Key where
  userId : Str
  deviceId : Str
  key : Str
  deriving DecidableEq, Repr

/-- A device whose identity keys are fixed. Its `trust_state` is kept beside the store. -/
structure OlmDevice where
  userId : Str
  deviceId : Str
  ed25519 : Str
  deriving DecidableEq, Repr

/-- `Key.from_olmdevice` -/
def Key.fromOlmdevice (device : OlmDevice) : Key :=
  ⟨device.userId, device.deviceId, device.ed25519⟩

/-- A key tells its device. -/
theorem Key.fromOlmdevice_inj {d d' : OlmDevice} :
    Key.fromOlmdevice d = Key.fromOlmdevice d' ↔ d = d' := by
  cases d
  cases d'
  simp [Key.fromOlmdevice]

structure OlmTrustError where
  message : Str
  deriving DecidableEq, Repr

structure KeyStore where
  entries : List Key
  deriving DecidableEq, Repr

namespace KeyStore

/-- A store whose file does not exist. -/
def empty : KeyStore := ⟨[]⟩

/-- `key in store`, which runs over the entries. -/
instance : Membership Key KeyStore := ⟨fun s k => k ∈ s.entries⟩

instance (k : Key) (s : KeyStore) : Decidable (k ∈ s) := inferInstanceAs (Decidable (k ∈ s.entries))

def getKey (s : KeyStore) (userId deviceId : Str) : Option Key :=
  s.entries.find? fun entry => userId = entry.userId ∧ deviceId = entry.deviceId

/-- `_add_without_save`: a key that is there already is appended once more. -/
def addWithoutSave (s : KeyStore) (key : Key) : KeyStore × Except OlmTrustError Bool :=
  match s.getKey key.userId key.deviceId with
  | some existingKey =>
    if existingKey.userId = key.userId ∧ existingKey.deviceId = key.deviceId ∧
        existingKey.key ≠ key.key then
      (s, .error ⟨py "Error: adding existing device to trust store with mismatching fingerprint "
        ++ key.key ++ py " " ++ existingKey.key⟩)
    else (⟨s.entries ++ [key]⟩, .ok true)
  | none => (⟨s.entries ++ [key]⟩, .ok true)

def add (s : KeyStore) (key : Key) : KeyStore × Except OlmTrustError Bool := s.addWithoutSave key

def addMany (s : KeyStore) : List Key → KeyStore × Except OlmTrustError Unit
  | [] => (s, .ok ())
  | key :: keys =>
    match s.addWithoutSave key with
    | (s, .error e) => (s, .error e)
    | (s, .ok _) => s.addMany keys

def remove (s : KeyStore) (key : Key) : KeyStore × Bool :=
  if key ∈ s then (⟨s.entries.erase key⟩, true) else (s, false)

def removeMany (s : KeyStore) (keys : List Key) : KeyStore :=
  keys.foldl (fun s key => (s.remove key).1) s

/-! ## Membership after each operation -/

/-- How often a key is in the list. -/
def count (s : KeyStore) (key : Key) : Nat := s.entries.count key

/-- A key is in a store if it counts at least once. -/
theorem mem_iff_count {s : KeyStore} {key : Key} : key ∈ s ↔ 0 < s.count key :=
  List.count_pos_iff.symm

@[simp] theorem mem_empty {key : Key} : ¬ key ∈ empty := List.not_mem_nil

/-- Every fingerprint of the list belongs to one of the given devices. -/
def Within (s : KeyStore) (known : List OlmDevice) : Prop :=
  ∀ k ∈ s, ∃ d ∈ known, k = Key.fromOlmdevice d

/-- A store that only gains keys of known devices stays within them. -/
theorem Within.mono {s s' : KeyStore} {known : List OlmDevice} (h : s.Within known)
    (hs : ∀ k, k ∈ s' → k ∈ s ∨ ∃ d ∈ known, k = Key.fromOlmdevice d) : s'.Within known := by
  intro k hk
  rcases hs k hk with hk | hk
  · exact h k hk
  · exact hk

/-- No two devices share their ids and differ in their fingerprint. -/
def FixedKeys (known : List OlmDevice) : Prop :=
  ∀ d ∈ known, ∀ d' ∈ known, d.userId = d'.userId → d.deviceId = d'.deviceId → d = d'

instance (known : List OlmDevice) : Decidable (FixedKeys known) :=
  inferInstanceAs (Decidable (∀ d ∈ known, ∀ d' ∈ known, _ → _ → _))

/-- With fixed identity keys the fingerprint check never fires. -/
theorem add_of_fixed {s : KeyStore} {known : List OlmDevice} (hfix : FixedKeys known)
    (hs : s.Within known) {d : OlmDevice} (hd : d ∈ known) :
    s.addWithoutSave (Key.fromOlmdevice d) = (⟨s.entries ++ [Key.fromOlmdevice d]⟩, .ok true) := by
  unfold addWithoutSave
  split
  · next e he =>
    unfold getKey at he
    have hmem : e ∈ s := List.mem_of_find?_eq_some he
    have hids := List.find?_some he
    obtain ⟨d', hd', rfl⟩ := hs e hmem
    have hids := of_decide_eq_true hids
    have : d = d' := hfix d hd d' hd' hids.1 hids.2
    subst this
    simp
  · rfl

/-- `add` always adds an entry. -/
theorem count_add {s : KeyStore} {known : List OlmDevice} (hfix : FixedKeys known)
    (hs : s.Within known) {d : OlmDevice} (hd : d ∈ known) (k : Key) :
    (s.add (Key.fromOlmdevice d)).1.count k
      = s.count k + if Key.fromOlmdevice d = k then 1 else 0 := by
  simp only [add, add_of_fixed hfix hs hd, count, List.count_append, List.count_singleton]
  simp [beq_iff_eq]

/-- It stays within the known devices. -/
theorem within_add {s : KeyStore} {known : List OlmDevice} (hfix : FixedKeys known)
    (hs : s.Within known) {d : OlmDevice} (hd : d ∈ known) :
    (s.add (Key.fromOlmdevice d)).1.Within known := by
  refine hs.mono fun k hk => ?_
  rw [add, add_of_fixed hfix hs hd] at hk
  rcases List.mem_append.mp hk with hk | hk
  · exact Or.inl hk
  · exact Or.inr ⟨d, hd, List.mem_singleton.mp hk⟩

/-- `remove` takes one entry away. -/
theorem count_remove (s : KeyStore) (key k : Key) :
    (s.remove key).1.count k = if key = k then s.count k - 1 else s.count k := by
  unfold remove
  split
  · split
    · next h => subst h; exact List.count_erase_self
    · next h => exact List.count_erase_of_ne fun h' => h h'.symm
  · next hmem =>
    split
    · next h =>
      subst h
      rw [mem_iff_count] at hmem
      show s.count key = _
      omega
    · rfl

/-- It tells whether there was one. -/
theorem remove_snd (s : KeyStore) (key : Key) : (s.remove key).2 = decide (key ∈ s) := by
  unfold remove
  split <;> simp_all

/-- A key that was there twice is still there once. -/
theorem mem_remove {s : KeyStore} {key k : Key} :
    k ∈ (s.remove key).1 ↔ if key = k then 2 ≤ s.count k else k ∈ s := by
  rw [mem_iff_count, count_remove]
  split
  · omega
  · exact mem_iff_count.symm

/-- `remove` stays within the known devices. -/
theorem within_remove {s : KeyStore} {known : List OlmDevice} (hs : s.Within known) (key : Key) :
    (s.remove key).1.Within known := by
  refine hs.mono fun k hk => Or.inl ?_
  rw [mem_remove] at hk
  split at hk
  · rw [mem_iff_count]
    omega
  · exact hk

/-- Each key of the list takes one of its entries away. -/
theorem count_removeMany (s : KeyStore) (keys : List Key) (k : Key) :
    (s.removeMany keys).count k = s.count k - keys.count k := by
  induction keys generalizing s with
  | nil => simp [removeMany]
  | cons key keys ih =>
    have h : (s.removeMany (key :: keys)) = (s.remove key).1.removeMany keys := rfl
    rw [h, ih, count_remove, List.count_cons]
    by_cases hk : key = k
    · simp only [hk, if_true, beq_self_eq_true]
      omega
    · simp only [hk, if_false, beq_iff_eq]
      omega

/-- `remove_many` stays within the known devices. -/
theorem within_removeMany {s : KeyStore} {known : List OlmDevice} (hs : s.Within known)
    (keys : List Key) : (s.removeMany keys).Within known := by
  refine hs.mono fun k hk => Or.inl ?_
  rw [mem_iff_count, count_removeMany] at hk
  rw [mem_iff_count]
  omega

/-- `add_many` appends the keys of known devices, in order. -/
theorem addMany_of_fixed {known : List OlmDevice} (hfix : FixedKeys known) (ds : List OlmDevice)
    (hds : ∀ d ∈ ds, d ∈ known) {s : KeyStore} (hs : s.Within known) :
    s.addMany (ds.map Key.fromOlmdevice) = (⟨s.entries ++ ds.map Key.fromOlmdevice⟩, .ok ()) := by
  induction ds generalizing s with
  | nil => simp [addMany]
  | cons d ds ih =>
    have hd : d ∈ known := hds d List.mem_cons_self
    have hs' := within_add hfix hs hd
    rw [add, add_of_fixed hfix hs hd] at hs'
    simp only [List.map_cons, addMany, add_of_fixed hfix hs hd]
    rw [ih (fun d' hd' => hds d' (List.mem_cons_of_mem _ hd')) hs']
    simp

/-- It adds them to those that were there. -/
theorem mem_addMany {known : List OlmDevice} (hfix : FixedKeys known) {ds : List OlmDevice}
    (hds : ∀ d ∈ ds, d ∈ known) {s : KeyStore} (hs : s.Within known) (k : Key) :
    k ∈ (s.addMany (ds.map Key.fromOlmdevice)).1 ↔ k ∈ s ∨ k ∈ ds.map Key.fromOlmdevice := by
  rw [addMany_of_fixed hfix ds hds hs]
  exact List.mem_append

/-- It stays within the known devices. -/
theorem within_addMany {known : List OlmDevice} (hfix : FixedKeys known) {ds : List OlmDevice}
    (hds : ∀ d ∈ ds, d ∈ known) {s : KeyStore} (hs : s.Within known) :
    (s.addMany (ds.map Key.fromOlmdevice)).1.Within known := by
  refine hs.mono fun k hk => ?_
  rw [mem_addMany hfix hds hs] at hk
  rcases hk with hk | hk
  · exact Or.inl hk
  · obtain ⟨d, hd, rfl⟩ := List.mem_map.mp hk
    exact Or.inr ⟨d, hds d hd, rfl⟩

end KeyStore

end Nio.Store
