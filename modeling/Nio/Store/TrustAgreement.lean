import Nio.Store.TrustRefinement
import Mathlib.Data.List.Induction

/-!
# The two trust stores over a run of calls

`DefaultStore` adds a key without looking for it, and removes one occurrence. Its lists therefore
stand for the map of trust states exactly as long as no call leaves an occurrence behind.

* `DefaultStore.refines_call_iff` — one operation on the key files
* `Stores.agree_call_iff` — one operation on both stores
* `trust_stores_agree_iff` — a run of calls on fresh stores
-/

namespace Nio.Store

open Nio.Py (Str py)

/-! ## `DefaultStore` -/

namespace DefaultStore

/-- The map that the key files and the device objects stand for. -/
structure Refines (s : DefaultStore) (known : List OlmDevice) (a : TrustStates) : Prop where
  file : ∀ d ∈ known, ∀ m : Mark, Key.fromOlmdevice d ∈ s.db m ↔ a d = m.state
  object : ∀ d ∈ known, s.trustState d = a d

theorem Refines.congr {s : DefaultStore} {known : List OlmDevice} {a b : TrustStates}
    (h : s.Refines known a) (hab : ∀ d ∈ known, a d = b d) : s.Refines known b :=
  ⟨fun d hd m => by rw [← hab d hd]; exact h.file d hd m,
    fun d hd => by rw [← hab d hd]; exact h.object d hd⟩

/-- Every key of the three files belongs to a known device. -/
def Within (s : DefaultStore) (known : List OlmDevice) : Prop := ∀ m, (s.db m).Within known

/-- A call leaves no occurrence of a key in a list that it removes the key from. -/
def RemovesAll (s : DefaultStore) : TrustOp → Prop
  | .mark m device => ∀ n, n ≠ m → (s.db n).count (Key.fromOlmdevice device) ≤ 1
  | .unmark m device => (s.db m).count (Key.fromOlmdevice device) ≤ 1
  | .ignoreDevices devices => ∀ d ∈ devices, ∀ n, n ≠ .ignored →
      (s.db n).count (Key.fromOlmdevice d)
        ≤ (devices.map Key.fromOlmdevice).count (Key.fromOlmdevice d)

/-- The three marks in the order in which a method names them. -/
def Order (m first second : Mark) : Prop :=
  first ≠ m ∧ second ≠ m ∧ first ≠ second ∧ ∀ n, n = m ∨ n = first ∨ n = second

/-- A mark adds the key to its own file and removes it from the others. -/
theorem db_mark {s : DefaultStore} {m first second : Mark} (ho : Order m first second)
    (d : OlmDevice) (n : Mark) :
    (s.mark m first second d).1.db n = if n = m then ((s.db m).add (Key.fromOlmdevice d)).1
      else ((s.db n).remove (Key.fromOlmdevice d)).1 := by
  obtain ⟨h1, h2, h3, hall⟩ := ho
  have hdb : ∀ (s : DefaultStore) ts n, ({ s with trustState := ts } : DefaultStore).db n = s.db n :=
    fun s ts n => by cases n <;> rfl
  simp only [DefaultStore.mark, db_setDb, hdb, if_neg h1, if_neg h2, if_neg h3]
  rcases hall n with rfl | rfl | rfl
  · simp
  · rw [if_neg h1.symm, if_neg h3.symm, if_neg h1, if_pos rfl]
  · rw [if_neg h2.symm, if_neg h2, if_pos rfl]

theorem trustState_mark (s : DefaultStore) (m first second : Mark) (d : OlmDevice) :
    (s.mark m first second d).1.trustState = s.trustState.assign [d] m.state := by
  simp [DefaultStore.mark]

theorem within_mark {s : DefaultStore} {known : List OlmDevice} (hfix : KeyStore.FixedKeys known)
    (hw : s.Within known) {m first second : Mark} (ho : Order m first second) {d : OlmDevice}
    (hd : d ∈ known) : (s.mark m first second d).1.Within known := by
  intro n
  rw [db_mark ho]
  split
  · exact KeyStore.within_add hfix (hw m) hd
  · exact KeyStore.within_remove (hw n) _

/-- Marking refines the assignment exactly if no other file lists the key twice. -/
theorem refines_mark_iff {s : DefaultStore} {known : List OlmDevice} {a : TrustStates}
    (hfix : KeyStore.FixedKeys known) (hw : s.Within known) (h : s.Refines known a)
    {m first second : Mark} (ho : Order m first second) {d : OlmDevice} (hd : d ∈ known) :
    (s.mark m first second d).1.Refines known (a.assign [d] m.state)
      ↔ ∀ n, n ≠ m → (s.db n).count (Key.fromOlmdevice d) ≤ 1 := by
  have hmem : ∀ d' n, Key.fromOlmdevice d' ∈ (s.mark m first second d).1.db n ↔
      if d = d' then n = m ∨ 2 ≤ (s.db n).count (Key.fromOlmdevice d)
      else Key.fromOlmdevice d' ∈ s.db n := by
    intro d' n
    rw [db_mark ho]
    by_cases hn : n = m
    · subst hn
      rw [if_pos rfl, KeyStore.mem_iff_count, KeyStore.count_add hfix (hw n) hd,
        KeyStore.mem_iff_count]
      by_cases hdd : d = d' <;> simp [hdd, Key.fromOlmdevice_inj]
    · rw [if_neg hn, KeyStore.mem_remove]
      by_cases hdd : d = d' <;> simp [hdd, hn, Key.fromOlmdevice_inj]
  constructor
  · intro hr n hn
    have hfile := hr.file d hd n
    rw [hmem, if_pos rfl] at hfile
    simp only [TrustStates.assign, List.mem_singleton, if_true, Mark.state_inj] at hfile
    by_contra hcount
    exact hn (hfile.mp (Or.inr (by omega))).symm
  · intro hcount
    constructor
    · intro d' hd' n
      rw [hmem]
      simp only [TrustStates.assign, List.mem_singleton]
      by_cases hdd : d = d'
      · subst hdd
        rw [if_pos rfl, if_pos rfl, Mark.state_inj]
        constructor
        · rintro (hn | hn)
          · exact hn.symm
          · by_contra hne
            have := hcount n (fun h => hne h.symm)
            omega
        · intro hn
          exact Or.inl hn.symm
      · rw [if_neg hdd, if_neg fun h' => hdd h'.symm]
        exact h.file d' hd' n
    · intro d' hd'
      rw [trustState_mark]
      simp only [TrustStates.assign, h.object d' hd']

/-- Taking a mark back removes the key from its file. -/
theorem db_unmark (s : DefaultStore) (m : Mark) (d : OlmDevice) (n : Mark) :
    (s.unmark m d).1.db n
      = if n = m then ((s.db m).remove (Key.fromOlmdevice d)).1 else s.db n := by
  have hdb : ∀ (s : DefaultStore) ts n, ({ s with trustState := ts } : DefaultStore).db n = s.db n :=
    fun s ts n => by cases n <;> rfl
  simp only [DefaultStore.unmark]
  split
  · rw [hdb, db_setDb]
    exact if_congr eq_comm rfl rfl
  · rw [db_setDb]
    exact if_congr eq_comm rfl rfl

theorem trustState_unmark (s : DefaultStore) (m : Mark) (d : OlmDevice) :
    (s.unmark m d).1.trustState
      = if Key.fromOlmdevice d ∈ s.db m then s.trustState.assign [d] .unset else s.trustState := by
  simp only [DefaultStore.unmark, KeyStore.remove_snd, decide_eq_true_eq]
  split <;> simp

/-- It refines the unset state exactly if the file lists the key at most once. -/
theorem refines_unmark_iff {s : DefaultStore} {known : List OlmDevice} {a : TrustStates}
    (h : s.Refines known a) (m : Mark) {d : OlmDevice} (hd : d ∈ known) :
    (s.unmark m d).1.Refines known ((TrustOp.unmark m d).spec a)
      ↔ (s.db m).count (Key.fromOlmdevice d) ≤ 1 := by
  simp only [TrustOp.spec]
  by_cases hm : a d = m.state
  · rw [if_pos hm]
    constructor
    · intro hr
      have hfile := hr.file d hd m
      rw [db_unmark, if_pos rfl, KeyStore.mem_remove, if_pos rfl] at hfile
      simp only [TrustStates.assign, List.mem_singleton, if_true] at hfile
      by_contra hcount
      exact m.state_ne_unset (hfile.mp (by omega)).symm
    · intro hcount
      constructor
      · intro d' hd' n
        rw [db_unmark]
        simp only [TrustStates.assign, List.mem_singleton]
        by_cases hdd : d' = d
        · subst hdd
          rw [if_pos rfl]
          refine iff_of_false ?_ fun h' => n.state_ne_unset h'.symm
          split
          · rw [KeyStore.mem_remove, if_pos rfl]
            omega
          · next hn =>
            rw [h.file d' hd, hm, Mark.state_inj]
            exact fun h' => hn h'.symm
        · rw [if_neg hdd]
          split
          · next hn =>
            rw [KeyStore.mem_remove, if_neg fun h' => hdd (Key.fromOlmdevice_inj.mp h').symm, hn]
            exact h.file d' hd' m
          · exact h.file d' hd' n
      · intro d' hd'
        rw [trustState_unmark, if_pos ((h.file d hd m).mpr hm)]
        simp only [TrustStates.assign, h.object d' hd']
  · -- the key is not in the list, and nothing changes
    have hnot : Key.fromOlmdevice d ∉ s.db m := fun h' => hm ((h.file d hd m).mp h')
    rw [if_neg hm]
    refine iff_of_true ⟨?_, ?_⟩ ?_
    · intro d' hd' n
      rw [db_unmark]
      split
      · next hn => rw [KeyStore.remove, if_neg hnot, hn, h.file d' hd' m]
      · exact h.file d' hd' n
    · intro d' hd'
      rw [trustState_unmark, if_neg hnot]
      exact h.object d' hd'
    · rw [KeyStore.mem_iff_count] at hnot
      omega

/-- Ignoring devices moves their keys to one file. -/
theorem ignoreDevices_eq {s : DefaultStore} {known ds : List OlmDevice}
    (hfix : KeyStore.FixedKeys known) (hw : s.Within known) (hds : ∀ d ∈ ds, d ∈ known) :
    (s.ignoreDevices ds).1 = {
      trustDb := s.trustDb.removeMany (ds.map Key.fromOlmdevice)
      blacklistDb := s.blacklistDb.removeMany (ds.map Key.fromOlmdevice)
      ignoreDb := (s.ignoreDb.addMany (ds.map Key.fromOlmdevice)).1
      trustState := s.trustState.assign ds .ignored } := by
  have hadd := KeyStore.addMany_of_fixed hfix ds hds (hw .ignored)
  rw [show s.db .ignored = s.ignoreDb from rfl] at hadd
  simp only [DefaultStore.ignoreDevices, hadd]

theorem mem_ignoreDevices {s : DefaultStore} {known ds : List OlmDevice}
    (hfix : KeyStore.FixedKeys known) (hw : s.Within known) (hds : ∀ d ∈ ds, d ∈ known)
    (d : OlmDevice) (n : Mark) :
    Key.fromOlmdevice d ∈ (s.ignoreDevices ds).1.db n ↔
      if n = .ignored then Key.fromOlmdevice d ∈ s.db n ∨ d ∈ ds
      else (ds.map Key.fromOlmdevice).count (Key.fromOlmdevice d)
        < (s.db n).count (Key.fromOlmdevice d) := by
  have hmap : Key.fromOlmdevice d ∈ ds.map Key.fromOlmdevice ↔ d ∈ ds := by
    refine List.mem_map_of_injective fun d d' h => Key.fromOlmdevice_inj.mp h
  have hremove : ∀ k : KeyStore, Key.fromOlmdevice d ∈ k.removeMany (ds.map Key.fromOlmdevice) ↔
      (ds.map Key.fromOlmdevice).count (Key.fromOlmdevice d) < k.count (Key.fromOlmdevice d) := by
    intro k
    rw [KeyStore.mem_iff_count, KeyStore.count_removeMany]
    omega
  rw [ignoreDevices_eq hfix hw hds]
  cases n with
  | verified => exact hremove _
  | blacklisted => exact hremove _
  | ignored =>
    rw [if_pos rfl, ← hmap]
    exact KeyStore.mem_addMany hfix hds (hw .ignored) _

/-- It refines the assignment of many. -/
theorem refines_ignoreDevices_iff {s : DefaultStore} {known ds : List OlmDevice} {a : TrustStates}
    (hfix : KeyStore.FixedKeys known) (hw : s.Within known) (h : s.Refines known a)
    (hds : ∀ d ∈ ds, d ∈ known) :
    (s.ignoreDevices ds).1.Refines known (a.assign ds .ignored)
      ↔ s.RemovesAll (.ignoreDevices ds) := by
  have hmem := mem_ignoreDevices hfix hw hds
  constructor
  · intro hr d hd n hn
    have hfile := hr.file d (hds d hd) n
    rw [hmem, if_neg hn] at hfile
    simp only [TrustStates.assign, hd, if_true] at hfile
    by_contra hcount
    exact hn (Mark.state_inj (m := .ignored).mp (hfile.mp (by omega))).symm
  · intro hcount
    constructor
    · intro d hd n
      rw [hmem]
      simp only [TrustStates.assign]
      by_cases hn : n = .ignored
      · subst hn
        rw [if_pos rfl, h.file d hd]
        by_cases hdd : d ∈ ds
        · simp [hdd, Mark.state]
        · simp [hdd]
      · rw [if_neg hn]
        by_cases hdd : d ∈ ds
        · have hle := hcount d hdd n hn
          rw [if_pos hdd]
          refine iff_of_false (by omega) fun h' => hn ?_
          exact (Mark.state_inj (m := .ignored).mp h').symm
        · rw [if_neg hdd, ← h.file d hd, KeyStore.mem_iff_count, List.count_eq_zero.mpr]
          intro hin
          obtain ⟨d', hd', he⟩ := List.mem_map.mp hin
          exact hdd (Key.fromOlmdevice_inj.mp he ▸ hd')
    · intro d hd
      rw [ignoreDevices_eq hfix hw hds]
      simp only [TrustStates.assign, h.object d hd]

theorem order_verified : Order .verified .blacklisted .ignored :=
  ⟨by decide, by decide, by decide, fun n => by cases n <;> decide⟩

theorem order_blacklisted : Order .blacklisted .verified .ignored :=
  ⟨by decide, by decide, by decide, fun n => by cases n <;> decide⟩

theorem order_ignored : Order .ignored .blacklisted .verified :=
  ⟨by decide, by decide, by decide, fun n => by cases n <;> decide⟩

/-- One operation on the key files is the operation on the map exactly when it leaves no
occurrence of a key behind. -/
theorem refines_call_iff {s : DefaultStore} {known : List OlmDevice} {a : TrustStates}
    (hfix : KeyStore.FixedKeys known) (hw : s.Within known) (h : s.Refines known a) {op : TrustOp}
    (hop : ∀ d ∈ op.devices, d ∈ known) :
    (s.call op).Refines known (op.spec a) ↔ s.RemovesAll op := by
  cases op with
  | mark m d =>
    have hd : d ∈ known := hop d List.mem_cons_self
    cases m with
    | verified => exact refines_mark_iff hfix hw h order_verified hd
    | blacklisted => exact refines_mark_iff hfix hw h order_blacklisted hd
    | ignored => exact refines_mark_iff hfix hw h order_ignored hd
  | unmark m d =>
    have hd : d ∈ known := hop d List.mem_cons_self
    cases m <;> exact refines_unmark_iff h _ hd
  | ignoreDevices ds => exact refines_ignoreDevices_iff hfix hw h hop

/-- No call leaves the devices that are known. -/
theorem Within.call {s : DefaultStore} {known : List OlmDevice} (hfix : KeyStore.FixedKeys known)
    (hw : s.Within known) {op : TrustOp} (hop : ∀ d ∈ op.devices, d ∈ known) :
    (s.call op).Within known := by
  cases op with
  | mark m d =>
    have hd : d ∈ known := hop d List.mem_cons_self
    cases m with
    | verified => exact within_mark hfix hw order_verified hd
    | blacklisted => exact within_mark hfix hw order_blacklisted hd
    | ignored => exact within_mark hfix hw order_ignored hd
  | unmark m d =>
    have hun : ∀ m, (s.unmark m d).1.Within known := by
      intro m n
      rw [db_unmark]
      split
      · exact KeyStore.within_remove (hw m) _
      · exact hw n
    cases m <;> exact hun _
  | ignoreDevices ds =>
    intro n
    show ((s.ignoreDevices ds).1.db n).Within known
    have hds : ∀ d ∈ ds, d ∈ known := hop
    rw [ignoreDevices_eq hfix hw hds]
    cases n with
    | verified => exact KeyStore.within_removeMany (hw .verified) _
    | blacklisted => exact KeyStore.within_removeMany (hw .blacklisted) _
    | ignored => exact KeyStore.within_addMany hfix hds (hw .ignored)

end DefaultStore

/-! ## Both stores -/

/-- Two stores that are given the same calls, each with device objects of its own. -/
structure Stores where
  default : DefaultStore
  sqlite : SqliteStore

namespace Stores

def call (p : Stores) (op : TrustOp) : Stores := ⟨p.default.call op, p.sqlite.call op⟩

def run (p : Stores) (ops : List TrustOp) : Stores := ops.foldl call p

/-- The stores give the same answers, a device has at most one mark, and the device objects say
what the stores say. -/
structure Agree (p : Stores) (known : List OlmDevice) : Prop where
  answers : ∀ d ∈ known, ∀ m, p.default.answer m d = p.sqlite.answer m d
  exclusive : ∀ d ∈ known, ∀ m m', p.default.answer m d = true → p.default.answer m' d = true →
    m = m'
  defaultObject : ∀ d ∈ known, ∀ m : Mark, p.default.trustState d = m.state ↔
    p.default.answer m d = true
  sqliteObject : ∀ d ∈ known, ∀ m : Mark, p.sqlite.trustState d = m.state ↔
    p.sqlite.answer m d = true

/-- After an un-verify, un-blacklist or un-ignore the device no longer has the mark. -/
def Removed (p : Stores) : TrustOp → Prop
  | .unmark m device => p.default.answer m device = false ∧ p.sqlite.answer m device = false
  | _ => True

/-- The call does the same to both stores: it leaves no occurrence of a key behind in the key
files, and an `ignore_devices` either reads one row for each device or ignores nothing new. -/
def Meets (p : Stores) (op : TrustOp) : Prop :=
  p.default.RemovesAll op ∧
    ∀ ds, op = .ignoreDevices ds →
      p.sqlite.OneRowEach ds ∨ ∀ d ∈ ds, p.default.isDeviceIgnored d = true

/-- The trust state of the map that has exactly the marks of the answers. -/
theorem ext_marks {t t' : TrustState} (h : ∀ m : Mark, t = m.state ↔ t' = m.state) : t = t' := by
  rcases Mark.eq_unset_or_state t with rfl | ⟨m, rfl⟩
  · rcases Mark.eq_unset_or_state t' with rfl | ⟨m', rfl⟩
    · rfl
    · exact ((h m').mpr rfl)
  · exact ((h m).mp rfl).symm

/-- The stores agree when both refine the same assignment. -/
theorem agree_iff {p : Stores} {known : List OlmDevice} :
    p.Agree known ↔ p.default.Refines known p.sqlite.trustState ∧
      p.sqlite.Refines known p.sqlite.trustState := by
  constructor
  · intro h
    have hdef : ∀ d ∈ known, ∀ m : Mark, p.default.answer m d = true ↔
        p.sqlite.trustState d = m.state := by
      intro d hd m
      rw [h.answers d hd m, h.sqliteObject d hd m]
    refine ⟨⟨fun d hd m => ?_, fun d hd => ext_marks fun m => ?_⟩, ⟨fun d hd m => ?_, fun _ _ => rfl⟩⟩
    · rw [← DefaultStore.answer_iff, hdef d hd m]
    · rw [h.defaultObject d hd m, hdef d hd m]
    · rw [← SqliteStore.answer_iff, h.sqliteObject d hd m]
  · rintro ⟨hdef, hsql⟩
    have hd1 : ∀ d ∈ known, ∀ m, p.default.answer m d = true ↔ p.sqlite.trustState d = m.state :=
      fun d hd m => by rw [DefaultStore.answer_iff, hdef.file d hd m]
    have hs1 : ∀ d ∈ known, ∀ m, p.sqlite.answer m d = true ↔ p.sqlite.trustState d = m.state :=
      fun d hd m => by rw [SqliteStore.answer_iff, hsql.row d hd m]
    constructor
    · intro d hd m
      rw [Bool.eq_iff_iff, hd1 d hd m, hs1 d hd m]
    · intro d hd m m' hm hm'
      rw [hd1 d hd] at hm hm'
      exact Mark.state_inj.mp (hm.symm.trans hm')
    · intro d hd m
      rw [hdef.object d hd, hd1 d hd m]
    · intro d hd m
      rw [hs1 d hd m]

/-- What the harmless calls keep, whether the stores agree or not. -/
structure Inv (p : Stores) (known : List OlmDevice) : Prop where
  within : p.default.Within known
  knows : p.sqlite.Knows known

theorem Inv.call {p : Stores} {known : List OlmDevice} (hfix : KeyStore.FixedKeys known)
    (h : p.Inv known) {op : TrustOp} (hop : ∀ d ∈ op.devices, d ∈ known) :
    (p.call op).Inv known :=
  ⟨h.within.call hfix hop, h.knows.call op⟩

/-- Every run keeps the invariant of both stores. -/
theorem Inv.run {p : Stores} {known : List OlmDevice} (hfix : KeyStore.FixedKeys known)
    (h : p.Inv known) {ops : List TrustOp} (hops : ∀ op ∈ ops, ∀ d ∈ op.devices, d ∈ known) :
    (p.run ops).Inv known := by
  induction ops generalizing p with
  | nil => exact h
  | cons op ops ih =>
    exact ih (h.call hfix (hops op List.mem_cons_self))
      fun op' hop' => hops op' (List.mem_cons_of_mem _ hop')

/-- Where the database becomes the map `b`, the stores agree when the key files become `b` too. -/
theorem agree_iff_of_refines {p : Stores} {known : List OlmDevice} {b : TrustStates}
    (h : p.sqlite.Refines known b) : p.Agree known ↔ p.default.Refines known b := by
  rw [agree_iff]
  constructor
  · rintro ⟨hd, -⟩
    exact hd.congr h.object
  · intro hd
    exact ⟨hd.congr fun d hd => (h.object d hd).symm, h.congr fun d hd => (h.object d hd).symm⟩

/-- Stores that agree go on to agree exactly when the call does the same to both. -/
theorem agree_call_iff {p : Stores} {known : List OlmDevice} (hfix : KeyStore.FixedKeys known)
    (hi : p.Inv known) (h : p.Agree known) {op : TrustOp} (hop : ∀ d ∈ op.devices, d ∈ known) :
    (p.call op).Agree known ↔ p.Meets op := by
  obtain ⟨hdef, hsql⟩ := agree_iff.mp h
  have hstep := hsql.call hfix hi.knows hop
  have hiff := DefaultStore.refines_call_iff hfix hi.within hdef hop
  rw [agree_iff_of_refines hstep]
  show (p.default.call op).Refines known _ ↔ _
  have hsame : p.sqlite.specWith p.sqlite.trustState op = op.spec p.sqlite.trustState →
      (∀ ds, op = .ignoreDevices ds →
        p.sqlite.OneRowEach ds ∨ ∀ d ∈ ds, p.default.isDeviceIgnored d = true) →
      ((p.default.call op).Refines known (p.sqlite.specWith p.sqlite.trustState op) ↔
        p.Meets op) := by
    intro heq hcond
    rw [heq, hiff]
    exact ⟨fun hr => ⟨hr, hcond⟩, fun hm => hm.1⟩
  cases op with
  | mark m d => exact hsame rfl fun ds h' => by cases h'
  | unmark m d => exact hsame rfl fun ds h' => by cases h'
  | ignoreDevices ds =>
    by_cases hone : p.sqlite.OneRowEach ds
    · refine hsame (if_pos hone) fun ds' h' => ?_
      cases h'
      exact Or.inl hone
    · -- the database keeps its map, so the key files must have ignored the devices before
      have hspec : p.sqlite.specWith p.sqlite.trustState (.ignoreDevices ds) = p.sqlite.trustState :=
        if_neg hone
      have hignored : ∀ d ∈ ds, p.default.isDeviceIgnored d = true ↔
          p.sqlite.trustState d = .ignored := fun d hd =>
        (DefaultStore.answer_iff (m := .ignored)).trans (hdef.file d (hop d hd) .ignored)
      rw [hspec]
      constructor
      · intro hr
        have hall : ∀ d ∈ ds, p.sqlite.trustState d = .ignored := by
          intro d hd
          refine (hr.file d (hop d hd) .ignored).mp ?_
          exact (DefaultStore.mem_ignoreDevices hfix hi.within hop d .ignored).mpr (Or.inr hd)
        refine ⟨hiff.mp (hr.congr fun d _ => ?_), fun ds' h' => ?_⟩
        · simp only [TrustOp.spec, TrustStates.assign]
          split
          · next hd => exact hall d hd
          · rfl
        · cases h'
          exact Or.inr fun d hd => (hignored d hd).mpr (hall d hd)
      · rintro ⟨hr, hcond⟩
        refine (hiff.mpr hr).congr fun d _ => ?_
        simp only [TrustOp.spec, TrustStates.assign]
        split
        · next hd =>
          have hig := (hcond ds rfl).resolve_left hone d hd
          exact ((hignored d hd).mp hig).symm
        · rfl

/-- Stores that agree after an un-mark have both removed the mark. -/
theorem removed_of_agree {p : Stores} {known : List OlmDevice} (hfix : KeyStore.FixedKeys known)
    (hi : p.Inv known) (h : p.Agree known) {op : TrustOp} (hop : ∀ d ∈ op.devices, d ∈ known)
    (h' : (p.call op).Agree known) : (p.call op).Removed op := by
  cases op with
  | mark m d => trivial
  | ignoreDevices ds => trivial
  | unmark m d =>
    have hd : d ∈ known := hop d List.mem_cons_self
    have hstep := (agree_iff.mp h).2.call hfix hi.knows hop
    have hsql : (p.call (.unmark m d)).sqlite.answer m d = false := by
      rw [Bool.eq_false_iff, ne_eq, SqliteStore.answer_iff]
      intro hm
      have := (hstep.row d hd m).mp hm
      simp only [SqliteStore.specWith, TrustOp.spec] at this
      split at this
      · simp only [TrustStates.assign, List.mem_singleton, if_true] at this
        exact m.state_ne_unset this.symm
      · next hne => exact hne this
    exact ⟨(h'.answers d hd m).trans hsql, hsql⟩

/-- Stores on which no trust method has been called. -/
def fresh (rowValues : Bool) (account : Option Nat) (deviceKeys : DeviceKeysTable) : Stores :=
  ⟨.fresh, .fresh rowValues account deviceKeys⟩

theorem inv_fresh {rowValues : Bool} {account : Option Nat} {deviceKeys : DeviceKeysTable}
    {known : List OlmDevice} (hk : (fresh rowValues account deviceKeys).sqlite.Knows known) :
    (fresh rowValues account deviceKeys).Inv known :=
  ⟨fun m k hk => by cases m <;> exact absurd hk KeyStore.mem_empty, hk⟩

theorem agree_fresh {rowValues : Bool} {account : Option Nat} {deviceKeys : DeviceKeysTable}
    {known : List OlmDevice} (hk : (fresh rowValues account deviceKeys).sqlite.Knows known) :
    (fresh rowValues account deviceKeys).Agree known := by
  refine agree_iff.mpr ⟨⟨fun d hd m => ?_, fun _ _ => rfl⟩, ⟨fun d hd m => ?_, fun _ _ => rfl⟩⟩
  · refine iff_of_false ?_ fun h => m.state_ne_unset h.symm
    cases m <;> exact KeyStore.mem_empty
  · obtain ⟨r, -, hr, -⟩ := SqliteStore.getDevice_of_knows hk hd
    refine iff_of_false ?_ fun h => m.state_ne_unset h.symm
    rw [SqliteStore.stateOf, hr]
    simp [fresh, SqliteStore.fresh, SqliteStore.rowState]

end Stores

/-! ## Runs of calls -/

/-- Over any sequence of calls on fresh stores, the stores agree after every call and every
un-mark removes its mark, exactly when each call meets `Stores.Meets` in the state it is made
in. -/
theorem trust_stores_agree_iff {rowValues : Bool} {account : Option Nat}
    {deviceKeys : DeviceKeysTable} {known : List OlmDevice} {ops : List TrustOp}
    (hfix : KeyStore.FixedKeys known)
    (hk : (Stores.fresh rowValues account deviceKeys).sqlite.Knows known)
    (hops : ∀ op ∈ ops, ∀ d ∈ op.devices, d ∈ known) :
    (∀ pre op, pre ++ [op] <+: ops →
      ((Stores.fresh rowValues account deviceKeys).run (pre ++ [op])).Agree known ∧
      ((Stores.fresh rowValues account deviceKeys).run (pre ++ [op])).Removed op) ↔
    (∀ pre op, pre ++ [op] <+: ops →
      ((Stores.fresh rowValues account deviceKeys).run pre).Meets op) := by
  generalize hp : Stores.fresh rowValues account deviceKeys = p at hk
  have hinv : ∀ pre, pre <+: ops → (p.run pre).Inv known := by
    intro pre hpre
    refine Stores.Inv.run hfix ?_ fun op hop => hops op (hpre.subset hop)
    subst hp
    exact Stores.inv_fresh hk
  have hstart : p.Agree known := by
    subst hp
    exact Stores.agree_fresh hk
  have hsnoc : ∀ pre op, p.run (pre ++ [op]) = (p.run pre).call op := by
    intro pre op
    simp [Stores.run]
  have hlast : ∀ pre op, pre ++ [op] <+: ops → ∀ d ∈ op.devices, d ∈ known := by
    intro pre op hpre
    exact hops op (hpre.subset (List.mem_append_right _ List.mem_cons_self))
  have hinit : ∀ pre op, pre ++ [op] <+: ops → pre <+: ops :=
    fun pre op hpre => (List.prefix_append pre [op]).trans hpre
  constructor
  · intro h pre op hpre
    have hagree : (p.run pre).Agree known := by
      rcases List.eq_nil_or_concat pre with rfl | ⟨pre', op', rfl⟩
      · exact hstart
      · rw [List.concat_eq_append] at hpre ⊢
        exact (h pre' op' (hinit _ _ hpre)).1
    rw [← Stores.agree_call_iff hfix (hinv pre (hinit pre op hpre)) hagree (hlast pre op hpre),
      ← hsnoc]
    exact (h pre op hpre).1
  · intro h
    have hagree : ∀ pre, pre <+: ops → (p.run pre).Agree known := by
      intro pre
      induction pre using List.reverseRecOn with
      | nil => exact fun _ => hstart
      | append_singleton pre op ih =>
        intro hpre
        rw [hsnoc, Stores.agree_call_iff hfix (hinv pre (hinit pre op hpre))
          (ih (hinit pre op hpre)) (hlast pre op hpre)]
        exact h pre op hpre
    intro pre op hpre
    refine ⟨hagree _ hpre, ?_⟩
    have hafter := hagree _ hpre
    rw [hsnoc] at hafter ⊢
    exact Stores.removed_of_agree hfix (hinv pre (hinit pre op hpre))
      (hagree pre (hinit pre op hpre)) (hlast pre op hpre) hafter

/-! ### One device -/

def alice : OlmDevice := ⟨py "@alice:example.org", py "ALICEDEVICE", py "alice-ed25519"⟩

/-- The table of a store that knows one device. -/
def aliceKeys : DeviceKeysTable where
  rows := [⟨1, alice.userId, alice.deviceId, 1⟩]
  id_nodup := by decide
  unique := by decide

def aliceStores : Stores := .fresh true (some 1) aliceKeys

theorem aliceStores_knows : aliceStores.sqlite.Knows [alice] :=
  ⟨1, rfl, fun d hd => by
    rw [List.mem_singleton] at hd
    subst hd
    exact ⟨_, List.mem_singleton_self _, rfl, rfl, rfl⟩⟩

/-- Verifying, moving to the blacklist and taking it off again. -/
theorem aliceStores_agree :
    (aliceStores.run [.mark .verified alice, .mark .blacklisted alice,
        .unmark .blacklisted alice]).Agree [alice] ∧
      (aliceStores.run [.mark .verified alice, .mark .blacklisted alice,
        .unmark .blacklisted alice]).Removed (.unmark .blacklisted alice) := by
  refine (trust_stores_agree_iff (by decide) aliceStores_knows (by decide)).mpr ?_
    [.mark .verified alice, .mark .blacklisted alice] (.unmark .blacklisted alice)
    (List.prefix_refl _)
  intro pre op hpre
  obtain ⟨rest, hrest⟩ := hpre
  rcases pre with _ | ⟨o1, _ | ⟨o2, _ | ⟨o3, pre⟩⟩⟩
  · cases hrest
    exact ⟨by intro n _; cases n <;> decide, fun _ h => by cases h⟩
  · cases hrest
    exact ⟨by intro n _; cases n <;> decide, fun _ h => by cases h⟩
  · cases hrest
    exact ⟨(by decide : KeyStore.count _ _ ≤ 1), fun _ h => by cases h⟩
  · have := congrArg List.length hrest
    simp at this

/-- A device that is verified twice stays verified in the key files after one un-verify. -/
theorem verify_twice_unverify_disagrees :
    let p := aliceStores.run
      [.mark .verified alice, .mark .verified alice, .unmark .verified alice]
    p.default.isDeviceVerified alice = true ∧ p.sqlite.isDeviceVerified alice = false ∧
      p.default.trustState alice = .unset ∧ ¬ p.Agree [alice] := by
  have hdefault : (aliceStores.run [.mark .verified alice, .mark .verified alice,
      .unmark .verified alice]).default.isDeviceVerified alice = true := by decide
  have hsqlite : (aliceStores.run [.mark .verified alice, .mark .verified alice,
      .unmark .verified alice]).sqlite.isDeviceVerified alice = false := by decide
  refine ⟨hdefault, hsqlite, by decide, fun h => ?_⟩
  have hanswers := h.answers alice (List.mem_singleton_self _) .verified
  exact Bool.noConfusion (hdefault.symm.trans (hanswers.trans hsqlite))

end Nio.Store
