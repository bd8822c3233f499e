import Nio.Py.Text
import Nio.Store.Database

/-!
# The files of the default trust store

A `KeyStore` writes one line for each entry, the fields separated by blanks, and nothing is
escaped. It reads its file back line by line when the store is opened again.

* `KeyStore.reopen_eq_iff` — which lists of keys survive their file
* `trust_files_restore_iff` — which devices keep their trust state over a restart
-/

namespace Nio.Store

open Nio.Py

/-! ## The file format -/

/-- `Key.to_line`; every key is an `Ed25519Key`. -/
def Key.toLine (k : Key) : Str :=
  k.userId ++ py " " ++ k.deviceId ++ py " " ++ py "matrix-ed25519" ++ py " " ++ k.key ++ py "\n"

/-- `Key.from_line` -/
def Key.fromLine (line : Str) : Option Key :=
  match line.split with
  | userId :: deviceId :: keyType :: key :: _ =>
    if keyType = py "matrix-ed25519" then some ⟨userId.strip, deviceId.strip, key.strip⟩ else none
  | _ => none

namespace KeyStore

/-- The text that `_save` writes. -/
def text (s : KeyStore) : Str := s.entries.flatMap Key.toLine

/-- `_save`: the file is replaced only after all of the text was encoded. -/
def save (s : KeyStore) : Except ValueError (List Nat) := s.text.encode

/-- The body of the loop in `_load`. -/
def loadLine (line : Str) : Option Key :=
  let line := line.strip
  if line = [] ∨ line.head? = some (chr '#') then none else Key.fromLine line

/-- `_load`, which fails where the file is not text. -/
def load (file : List Nat) : Option KeyStore := do
  let text ← Str.decode file
  return ⟨(fileLines text).filterMap loadLine⟩

/-- The store that is opened after this one was saved, if saving and opening do not raise. -/
def reopen (s : KeyStore) : Option KeyStore :=
  match s.save with
  | .ok file => load file
  | .error _ => none

end KeyStore

/-! ## Keys that survive -/

/-- A string that the format leaves as it is between its separators. -/
def IsField (s : Str) : Prop := (∀ c ∈ s, c ≠ chr ' ' ∧ isLineEnd c = false) ∧ s.strip = s

instance (s : Str) : Decidable (IsField s) :=
  @instDecidableAnd _ _ (List.decidableBAll (fun c => c ≠ chr ' ' ∧ isLineEnd c = false) s)
    inferInstance

/-- The fields of a key can be told apart in its line. -/
structure Key.Fields (k : Key) : Prop where
  userId : IsField k.userId
  deviceId : IsField k.deviceId
  key : IsField k.key

/-- The line of a key is not skipped. A device id may be empty, since white space at the ends of a
line is taken off before its fields are counted. -/
def Key.Kept (k : Key) : Prop :=
  k.userId ≠ [] ∧ k.key ≠ [] ∧ k.userId.head? ≠ some (chr '#')

instance (k : Key) : Decidable k.Kept := inferInstanceAs (Decidable (_ ∧ _ ∧ _))

/-- A key that its file gives back. -/
structure Key.Plain (k : Key) : Prop extends Key.Fields k where
  kept : k.Kept
  encodable : k.userId.Encodable ∧ k.deviceId.Encodable ∧ k.key.Encodable

instance (k : Key) : Decidable k.Plain :=
  decidable_of_iff ((IsField k.userId ∧ IsField k.deviceId ∧ IsField k.key) ∧ k.Kept ∧
      k.userId.Encodable ∧ k.deviceId.Encodable ∧ k.key.Encodable)
    ⟨fun ⟨⟨h1, h2, h3⟩, h4, h5⟩ => ⟨⟨h1, h2, h3⟩, h4, h5⟩,
      fun ⟨⟨h1, h2, h3⟩, h4, h5⟩ => ⟨⟨h1, h2, h3⟩, h4, h5⟩⟩

/-- The line of a key without the line end. -/
def Key.body (k : Key) : Str :=
  k.userId ++ chr ' ' :: (k.deviceId ++ chr ' ' :: (py "matrix-ed25519" ++ chr ' ' :: k.key))

theorem Key.toLine_eq (k : Key) : k.toLine = k.body ++ [chr '\n'] := by
  have hblank : py " " = [chr ' '] := rfl
  have hnl : py "\n" = [chr '\n'] := rfl
  simp [Key.toLine, Key.body, hblank, hnl]

theorem keyType_field : ∀ c ∈ py "matrix-ed25519", c ≠ chr ' ' ∧ isLineEnd c = false := by
  have h : (py "matrix-ed25519").all (fun c => c != chr ' ' && !isLineEnd c) = true := by decide
  simpa using h

theorem IsField.blank {s : Str} (h : IsField s) : chr ' ' ∉ s := fun hc => (h.1 _ hc).1 rfl

/-- A line of plain fields has three blanks. -/
theorem Key.Fields.count_body {k : Key} (h : k.Fields) : k.body.count (chr ' ') = 3 := by
  have h1 := List.count_eq_zero.mpr h.userId.blank
  have h2 := List.count_eq_zero.mpr h.deviceId.blank
  have h3 := List.count_eq_zero.mpr h.key.blank
  have h4 : (py "matrix-ed25519").count (chr ' ') = 0 := by decide
  simp [Key.body, List.count_append, List.count_cons_self, h1, h2, h3, h4]

/-- It is split at them, -/
theorem Key.Fields.split_body {k : Key} (h : k.Fields) :
    k.body.split = [k.userId, k.deviceId, py "matrix-ed25519", k.key] := by
  have h4 : chr ' ' ∉ py "matrix-ed25519" := fun hc => (keyType_field _ hc).1 rfl
  rw [Key.body, Str.split, List.splitOn_append_cons_self_of_not_mem h.userId.blank,
    List.splitOn_append_cons_self_of_not_mem h.deviceId.blank,
    List.splitOn_append_cons_self_of_not_mem h4, List.splitOn_eq_singleton h.key.blank]

theorem isLineEnd_blank : isLineEnd (chr ' ') = false := by decide

/-- and is one line. -/
theorem Key.Fields.oneLine {k : Key} (h : k.Fields) : ∀ c ∈ k.body, isLineEnd c = false := by
  intro c hc
  simp only [Key.body, List.mem_append, List.mem_cons] at hc
  rcases hc with hc | rfl | hc | rfl | hc | rfl | hc
  · exact (h.userId.1 c hc).2
  · exact isLineEnd_blank
  · exact (h.deviceId.1 c hc).2
  · exact isLineEnd_blank
  · exact (keyType_field c hc).2
  · exact isLineEnd_blank
  · exact (h.key.1 c hc).2

/-- A line of fewer than four fields is not a key. -/
theorem fromLine_short {line : Str} (h : line.count (chr ' ') < 3) : Key.fromLine line = none := by
  have hlen := Str.length_split line
  unfold Key.fromLine
  split
  · next heq =>
    rw [heq] at hlen
    simp only [List.length_cons] at hlen
    omega
  · rfl

/-- Stripping adds no blank. -/
theorem strip_count_le (s : Str) (c : CodePoint) : s.strip.count c ≤ s.count c :=
  ((( List.rdropWhile_prefix isWhite _).sublist).trans
    ((List.dropWhile_suffix isWhite).sublist)).count_le c

theorem isWhite_blank : isWhite (chr ' ') = true := by decide

/-- What is read from the line of a key whose fields can be told apart: the key, or nothing. -/
theorem Key.Fields.loadLine {k : Key} (h : k.Fields) :
    KeyStore.loadLine k.body = if k.Kept then some k else none := by
  have hcount := h.count_body
  have hshort : ∀ line : Str, line.strip.count (chr ' ') < 3 → KeyStore.loadLine line = none := by
    intro line hline
    simp only [KeyStore.loadLine, fromLine_short hline, ite_self]
  by_cases hu : k.userId = []
  · rw [if_neg fun h' => h'.1 hu]
    -- the blank after the empty user id is the first character of the line, and `strip` takes it
    have hbody : k.body = chr ' ' :: k.body.tail := by simp [Key.body, hu]
    have htail : k.body.tail.count (chr ' ') = 2 := by
      rw [hbody, List.count_cons_self] at hcount
      omega
    refine hshort _ ?_
    rw [hbody, Str.strip_cons_space isWhite_blank]
    exact lt_of_le_of_lt (strip_count_le _ _) (by omega)
  · by_cases hk : k.key = []
    · rw [if_neg fun h' => h'.2.1 hk]
      -- the same at the other end
      obtain ⟨front, hbody⟩ : ∃ front, k.body = front ++ [chr ' '] :=
        ⟨k.userId ++ chr ' ' :: (k.deviceId ++ chr ' ' :: py "matrix-ed25519"), by
          simp [Key.body, hk]⟩
      have hfront : front.count (chr ' ') = 2 := by
        rw [hbody, List.count_append, List.count_singleton_self] at hcount
        omega
      refine hshort _ ?_
      have hlt : k.body.strip.count (chr ' ') ≤ front.count (chr ' ') := by
        rw [hbody, Str.strip_concat_space isWhite_blank]
        exact strip_count_le _ _
      omega
    · have hstrip : k.body.strip = k.body := by
        have hbody : k.body = k.userId ++ (chr ' ' :: (k.deviceId ++ chr ' ' ::
            (py "matrix-ed25519" ++ [chr ' ']))) ++ k.key := by simp [Key.body]
        rw [hbody]
        exact Str.strip_append hu hk h.userId.2 h.key.2 _
      obtain ⟨c, rest, hcons⟩ := List.exists_cons_of_ne_nil hu
      have hhead : k.body.head? = k.userId.head? := by simp [Key.body, hcons]
      have hne : k.body ≠ [] := by simp [Key.body, hcons]
      have hfrom : Key.fromLine k.body = some k := by
        rw [Key.fromLine, h.split_body]
        simp only [if_true, h.userId.2, h.deviceId.2, h.key.2]
      simp only [KeyStore.loadLine, hstrip, hhead, hfrom, hne, false_or]
      by_cases hc : k.userId.head? = some (chr '#')
      · rw [if_pos hc, if_neg fun h' => h'.2.2 hc]
      · rw [if_neg hc, if_pos ⟨hu, hk, hc⟩]

/-! ## Whole files -/

namespace KeyStore

/-- What is read from the lines of one key. -/
def loadKey (k : Key) : List Key := (k.body.splitOnP isLineEnd).filterMap loadLine

theorem loadLine_nil : loadLine [] = none := rfl

theorem isLineEnd_newline : isLineEnd (chr '\n') = true := by decide

/-- Every line ends with its own line end, so a file is read key by key. -/
theorem load_text (entries : List Key) :
    (fileLines (text ⟨entries⟩)).filterMap loadLine = entries.flatMap loadKey := by
  rw [lines_universal loadLine_nil]
  show ((entries.flatMap Key.toLine).splitOnP isLineEnd).filterMap loadLine = _
  induction entries with
  | nil => rfl
  | cons k entries ih =>
    rw [List.flatMap_cons, Key.toLine_eq, List.append_assoc, List.singleton_append,
      List.splitOnP_append_cons _ _ isLineEnd_newline, List.filterMap_append, ih,
      List.flatMap_cons, loadKey]

/-- A key that was read from a file has fields that can be told apart. -/
theorem fields_of_mem_loadKey {k k' : Key} (h : k ∈ loadKey k') : k.Fields := by
  obtain ⟨line, hline, hload⟩ := List.mem_filterMap.mp h
  have hends : ∀ c ∈ line, isLineEnd c = false := eq_false_of_mem_splitOnP hline
  have hfield : ∀ f ∈ line.strip.split, IsField f.strip := by
    intro f hf
    refine ⟨fun c hc => ⟨?_, ?_⟩, Str.strip_strip f⟩
    · rintro rfl
      exact Str.notMem_of_mem_split hf (Str.mem_of_mem_strip hc)
    · exact hends c (Str.mem_of_mem_strip (Str.mem_of_mem_split hf (Str.mem_of_mem_strip hc)))
  simp only [loadLine] at hload
  split at hload
  · cases hload
  · unfold Key.fromLine at hload
    split at hload
    · next userId deviceId keyType key rest heq =>
      rw [heq] at hfield
      split at hload
      · cases hload
        exact ⟨hfield userId (by simp), hfield deviceId (by simp), hfield key (by simp)⟩
      · cases hload
    · cases hload

/-- A plain key is read back if it is one that is kept. -/
theorem loadKey_of_fields {k : Key} (h : k.Fields) :
    loadKey k = if k.Kept then [k] else [] := by
  rw [loadKey, List.splitOnP_eq_singleton h.oneLine, List.filterMap_cons, h.loadLine]
  by_cases hk : k.Kept <;> simp [hk]

/-- So are all of them. -/
theorem flatMap_loadKey {entries : List Key} (h : ∀ k ∈ entries, k.Fields) :
    entries.flatMap loadKey = entries.filter (fun k => k.Kept) := by
  induction entries with
  | nil => rfl
  | cons k entries ih =>
    rw [List.forall_mem_cons] at h
    rw [List.flatMap_cons, loadKey_of_fields h.1, ih h.2, List.filter_cons]
    by_cases hk : k.Kept <;> simp [hk]

/-- The file can be written exactly when the keys are text. -/
theorem text_encodable_iff (entries : List Key) :
    (text ⟨entries⟩).Encodable ↔
      ∀ k ∈ entries, k.userId.Encodable ∧ k.deviceId.Encodable ∧ k.key.Encodable := by
  have h1 : Str.Encodable (py " ") := by decide
  have h2 : Str.Encodable (py "matrix-ed25519") := by decide
  have h3 : Str.Encodable (py "\n") := by decide
  induction entries with
  | nil => simp [text, Str.Encodable]
  | cons k entries ih =>
    have htext : text ⟨k :: entries⟩ = k.toLine ++ text ⟨entries⟩ := rfl
    simp only [htext, Str.Encodable.append, ih, Key.toLine, h1, h2, h3, and_true,
      and_assoc, List.forall_mem_cons]

/-- The store that is opened again, if the text can be written at all. -/
theorem reopen_eq (s : KeyStore) :
    s.reopen = if s.text.Encodable then some ⟨s.entries.flatMap loadKey⟩ else none := by
  unfold reopen
  by_cases h : s.text.Encodable
  · obtain ⟨file, hfile⟩ := (Str.encode_isOk_iff s.text).mpr h
    rw [if_pos h, save, hfile]
    show load file = _
    rw [load, Str.decode_encode hfile]
    exact congrArg (fun l => some (KeyStore.mk l)) (load_text s.entries)
  · rw [if_neg h, save]
    cases hfile : s.text.encode with
    | ok file => exact absurd ((Str.encode_isOk_iff s.text).mp ⟨file, hfile⟩) h
    | error e => rfl

/-- The lists of keys that survive their file are those of keys that survive, each by itself. -/
theorem reopen_eq_iff (s : KeyStore) : s.reopen = some s ↔ ∀ k ∈ s.entries, k.Plain := by
  rw [reopen_eq]
  constructor
  · intro h
    split at h
    · next henc =>
      have henc := (text_encodable_iff s.entries).mp henc
      have hload : s.entries.flatMap loadKey = s.entries := congrArg entries (Option.some.inj h)
      -- each entry is read from some line, so its fields can be told apart
      have hfields : ∀ k ∈ s.entries, k.Fields := by
        intro k hk
        rw [← hload] at hk
        obtain ⟨k', _, hk'⟩ := List.mem_flatMap.mp hk
        exact fields_of_mem_loadKey hk'
      -- and then its own lines give at most itself, so that none may be skipped
      have hfilter : s.entries.filter (fun k => k.Kept) = s.entries := by
        rw [← flatMap_loadKey hfields, hload]
      intro k hk
      exact ⟨hfields k hk, of_decide_eq_true (List.filter_eq_self.mp hfilter k hk), henc k hk⟩
    · cases h
  · intro h
    have henc := (text_encodable_iff s.entries).mpr fun k hk => (h k hk).encodable
    have hfilter : s.entries.filter (fun k => k.Kept) = s.entries :=
      List.filter_eq_self.mpr fun k hk => decide_eq_true (h k hk).kept
    rw [if_pos henc, flatMap_loadKey fun k hk => (h k hk).toFields, hfilter]

end KeyStore

/-! ## Restarts -/

namespace DefaultStore

/-- The trust state that `load_device_keys` gives to a device of its tables. -/
def loadTrustState (s : DefaultStore) (device : OlmDevice) : TrustState :=
  let key := Key.fromOlmdevice device
  if key ∈ s.trustDb then .verified
  else if key ∈ s.blacklistDb then .blacklisted
  else if key ∈ s.ignoreDb then .ignored
  else .unset

/-- `__post_init__` of the next process, which opens the three files that this one has written. -/
def reopen (s : DefaultStore) : Option DefaultStore := do
  let trustDb ← s.trustDb.reopen
  let blacklistDb ← s.blacklistDb.reopen
  let ignoreDb ← s.ignoreDb.reopen
  return ⟨trustDb, blacklistDb, ignoreDb, fun _ => .unset⟩

/-- The files can be written, hold the same keys in the next process, and give every device the
state that it has now. -/
def Restores (s : DefaultStore) : Prop :=
  ∃ s', s.reopen = some s' ∧ (∀ m, s'.db m = s.db m) ∧
    ∀ d, s'.loadTrustState d = s.loadTrustState d

/-- The store is restored exactly when its files are read back. -/
theorem restores_iff (s : DefaultStore) :
    s.Restores ↔ ∀ m, (s.db m).reopen = some (s.db m) := by
  constructor
  · rintro ⟨s', hs', hdb, -⟩
    unfold reopen at hs'
    simp only [Option.bind_eq_bind, Option.bind_eq_some_iff] at hs'
    obtain ⟨trustDb, h1, blacklistDb, h2, ignoreDb, h3, heq⟩ := hs'
    cases heq
    intro m
    cases m with
    | verified => exact h1.trans (congrArg some (hdb .verified))
    | blacklisted => exact h2.trans (congrArg some (hdb .blacklisted))
    | ignored => exact h3.trans (congrArg some (hdb .ignored))
  · intro h
    have h1 : s.trustDb.reopen = some s.trustDb := h .verified
    have h2 : s.blacklistDb.reopen = some s.blacklistDb := h .blacklisted
    have h3 : s.ignoreDb.reopen = some s.ignoreDb := h .ignored
    refine ⟨⟨s.trustDb, s.blacklistDb, s.ignoreDb, fun _ => .unset⟩, ?_, ?_, fun _ => rfl⟩
    · simp [reopen, h1, h2, h3]
    · intro m
      cases m <;> rfl

/-- The lists of known devices that hold a mark. -/
def ofDevices (devices : Mark → List OlmDevice) : DefaultStore where
  trustDb := ⟨(devices .verified).map Key.fromOlmdevice⟩
  blacklistDb := ⟨(devices .blacklisted).map Key.fromOlmdevice⟩
  ignoreDb := ⟨(devices .ignored).map Key.fromOlmdevice⟩
  trustState := fun _ => .unset

theorem entries_ofDevices (devices : Mark → List OlmDevice) (m : Mark) :
    ((ofDevices devices).db m).entries = (devices m).map Key.fromOlmdevice := by
  cases m <;> rfl

/-- Whatever devices were marked, the marks are restored exactly when the line of each of them can
be taken apart again. -/
theorem trust_files_restore_iff (devices : Mark → List OlmDevice) :
    (ofDevices devices).Restores ↔ ∀ m, ∀ d ∈ devices m, (Key.fromOlmdevice d).Plain := by
  rw [restores_iff]
  refine forall_congr' fun m => ?_
  rw [KeyStore.reopen_eq_iff, entries_ofDevices, List.forall_mem_map]

/-! ### A device id that holds a line -/

def carol : OlmDevice := ⟨py "@carol:example.org", py "CAROLDEVICE", py "carol-ed25519"⟩

/-- A device whose owner has put the line of another device into its id. -/
def forging : OlmDevice where
  userId := py "@bob:example.org"
  deviceId := py "X\n@carol:example.org CAROLDEVICE matrix-ed25519 carol-ed25519 "
  ed25519 := py "bob-ed25519"

def marked : DefaultStore := ofDevices fun m => if m = .verified then [forging] else []

/-- After a restart the verified device is gone, and a device that nobody verified is verified. -/
theorem verified_line_forges :
    ¬ marked.Restores ∧ marked.loadTrustState forging = .verified ∧
    marked.loadTrustState carol = .unset ∧
    ∃ s', marked.reopen = some s' ∧
      s'.loadTrustState forging = .unset ∧ s'.loadTrustState carol = .verified := by
  have hfile : marked.trustDb.reopen = some ⟨[Key.fromOlmdevice carol]⟩ := by decide +kernel
  have hempty : KeyStore.empty.reopen = some .empty := by decide +kernel
  have hreopen : marked.reopen
      = some ⟨⟨[Key.fromOlmdevice carol]⟩, .empty, .empty, fun _ => .unset⟩ := by
    have h2 : marked.blacklistDb = .empty := rfl
    have h3 : marked.ignoreDb = .empty := rfl
    simp only [reopen, hfile, h2, h3, hempty]
    rfl
  refine ⟨?_, by decide +kernel, by decide +kernel, _, hreopen, by decide +kernel,
    by decide +kernel⟩
  rw [restores_iff]
  intro h
  have h1 := h .verified
  rw [show marked.db .verified = marked.trustDb from rfl, hfile] at h1
  exact absurd h1 (by decide +kernel)

end DefaultStore

end Nio.Store
