import Nio.Py.Json

/-!
# Sizes of JSON texts

How many bytes the text of a value takes, from the sizes of its parts.

* `takes_arr`, `takes_obj` — the text of an array or of an object
* `takes_plainStr` — the text of a string without an escape
-/

namespace Nio.Py

/-! ## Texts -/

/-- The text encodes to this many bytes. -/
def Str.Takes (s : Str) (n : Nat) : Prop := ∃ b, s.encode = .ok b ∧ b.length = n

theorem Str.encode_cons (c : CodePoint) (s : Str) : Str.encode (c :: s) =
    if isSurrogate c then .error .unicodeEncode
    else Str.encode s >>= fun b => .ok (utf8Bytes c ++ b) := rfl

/-- A text is encoded part by part. -/
theorem Str.encode_append (s t : Str) :
    Str.encode (s ++ t) = s.encode >>= fun b => t.encode >>= fun b' => .ok (b ++ b') := by
  induction s with
  | nil =>
    change t.encode = t.encode >>= fun b' => .ok b'
    cases t.encode <;> rfl
  | cons c s ih =>
    rw [List.cons_append, Str.encode_cons, Str.encode_cons]
    split
    · rfl
    · rw [ih]
      cases Str.encode s with
      | error e => rfl
      | ok b =>
        cases t.encode with
        | error e => rfl
        | ok b' => exact congrArg Except.ok (List.append_assoc _ _ _).symm

/-- The bytes of a text are those of its parts. -/
theorem Str.takes_append {s t : Str} {n : Nat} :
    Str.Takes (s ++ t) n ↔ ∃ a b, s.Takes a ∧ t.Takes b ∧ n = a + b := by
  unfold Str.Takes
  rw [Str.encode_append]
  constructor
  · rintro ⟨bytes, hbytes, rfl⟩
    obtain ⟨b, hb, hbytes⟩ := bind_eq_ok.mp hbytes
    obtain ⟨b', hb', hbytes⟩ := bind_eq_ok.mp hbytes
    cases hbytes
    exact ⟨_, _, ⟨b, hb, rfl⟩, ⟨b', hb', rfl⟩, List.length_append⟩
  · rintro ⟨_, _, ⟨b, hb, rfl⟩, ⟨b', hb', rfl⟩, rfl⟩
    exact ⟨b ++ b', by rw [hb, hb']; rfl, List.length_append⟩

theorem Str.Takes.unique {s : Str} {m n : Nat} (hm : s.Takes m) (hn : s.Takes n) : m = n := by
  obtain ⟨b, hb, rfl⟩ := hm
  obtain ⟨b', hb', rfl⟩ := hn
  rw [hb] at hb'
  rw [Except.ok.inj hb']

theorem Str.takes_nil {n : Nat} : Str.Takes [] n ↔ n = 0 := by
  constructor
  · rintro ⟨b, hb, rfl⟩
    cases hb
    rfl
  · rintro rfl
    exact ⟨[], rfl, rfl⟩

theorem Str.takes_cons {c : CodePoint} (hc : isSurrogate c = false) {s : Str} {n : Nat} :
    Str.Takes (c :: s) n ↔ ∃ m, s.Takes m ∧ n = (utf8Bytes c).length + m := by
  unfold Str.Takes
  rw [Str.encode_cons, if_neg (by simp [hc])]
  constructor
  · rintro ⟨bytes, hbytes, rfl⟩
    obtain ⟨b, hb, hbytes⟩ := bind_eq_ok.mp hbytes
    cases hbytes
    exact ⟨_, ⟨b, hb, rfl⟩, List.length_append⟩
  · rintro ⟨_, ⟨b, hb, rfl⟩, rfl⟩
    exact ⟨utf8Bytes c ++ b, by rw [hb]; rfl, List.length_append⟩

/-! ## Values -/

variable {o : DumpOptions}

/-- The text of the value takes this many bytes. -/
def Takes (o : DumpOptions) (v : Json) (n : Nat) : Prop := ∃ t, dumps o v = .ok t ∧ t.Takes n

/-- The value has a text that encodes. -/
def Writes (o : DumpOptions) (v : Json) : Prop := ∃ n, Takes o v n

/-- The bytes of the text of the value, if it has one -/
def bytes (o : DumpOptions) (v : Json) : Nat :=
  match dumps o v >>= Str.encode with
  | .ok b => b.length
  | .error _ => 0

/-- A value that is written takes the bytes that are counted for it. -/
theorem Takes.bytes_eq {v : Json} {n : Nat} (h : Takes o v n) : bytes o v = n := by
  obtain ⟨t, ht, b, hb, rfl⟩ := h
  unfold bytes
  rw [ht, ok_bind, hb]

/-- A value takes those bytes exactly when it can be written. -/
theorem takes_iff {v : Json} {n : Nat} : Takes o v n ↔ Writes o v ∧ n = bytes o v := by
  constructor
  · intro h
    exact ⟨⟨n, h⟩, h.bytes_eq.symm⟩
  · rintro ⟨⟨m, h⟩, rfl⟩
    rw [h.bytes_eq]
    exact h

theorem itemSeparator_takes (o : DumpOptions) {n : Nat} :
    o.itemSeparator.Takes n ↔ n = o.itemSeparator.length := by
  have h : o.itemSeparator.Takes o.itemSeparator.length := by
    unfold DumpOptions.itemSeparator
    split <;> exact ⟨_, rfl, rfl⟩
  exact ⟨fun hn => hn.unique h, fun hn => hn ▸ h⟩

theorem keySeparator_takes (o : DumpOptions) {n : Nat} :
    o.keySeparator.Takes n ↔ n = o.keySeparator.length := by
  have h : o.keySeparator.Takes o.keySeparator.length := by
    unfold DumpOptions.keySeparator
    split <;> exact ⟨_, rfl, rfl⟩
  exact ⟨fun hn => hn.unique h, fun hn => hn ▸ h⟩

/-- The bytes of items, each with a separator -/
def itemBytes (o : DumpOptions) (xs : List Json) : Nat :=
  (xs.map fun x => o.itemSeparator.length + bytes o x).sum

/-- The items of an array take their bytes and the separators, -/
theorem itemsTake (xs : List Json) (n : Nat) :
    (∃ t, dumpsItems o xs = .ok t ∧ t.Takes n) ↔ (∀ x ∈ xs, Writes o x) ∧ n = itemBytes o xs := by
  induction xs generalizing n with
  | nil => simp [dumpsItems, Str.takes_nil, itemBytes]
  | cons x xs ih =>
    rw [List.forall_mem_cons]
    constructor
    · rintro ⟨t, ht, hn⟩
      obtain ⟨first, hfirst, ht⟩ := bind_eq_ok.mp ht
      obtain ⟨rest, hrest, ht⟩ := bind_eq_ok.mp ht
      cases ht
      obtain ⟨_, b, hfront, hb, rfl⟩ := Str.takes_append.mp hn
      obtain ⟨s, a, hs, ha, rfl⟩ := Str.takes_append.mp hfront
      obtain ⟨hall, rfl⟩ := (ih b).mp ⟨rest, hrest, hb⟩
      obtain ⟨hx, rfl⟩ := takes_iff.mp ⟨first, hfirst, ha⟩
      obtain rfl := (itemSeparator_takes o).mp hs
      exact ⟨⟨hx, hall⟩, by simp [itemBytes]⟩
    · rintro ⟨⟨hx, hall⟩, rfl⟩
      obtain ⟨first, hfirst, ha⟩ := takes_iff.mpr ⟨hx, rfl⟩
      obtain ⟨rest, hrest, hb⟩ := (ih _).mpr ⟨hall, rfl⟩
      refine ⟨o.itemSeparator ++ first ++ rest, ?_, Str.takes_append.mpr ⟨_, _, Str.takes_append.mpr
        ⟨_, _, (itemSeparator_takes o).mpr rfl, ha, rfl⟩, hb, by simp [itemBytes]⟩⟩
      rw [dumpsItems, hfirst, ok_bind, hrest]
      rfl

/-- The text of an array: its brackets and its items, the first one without a separator -/
theorem takes_arr {xs : List Json} {n : Nat} : Takes o (.arr xs) n ↔
    (∀ x ∈ xs, Writes o x) ∧ n = 2 + (itemBytes o xs - o.itemSeparator.length) := by
  have hopen : Str.Takes (py "[") 1 := ⟨_, rfl, rfl⟩
  have hclose : Str.Takes (py "]") 1 := ⟨_, rfl, rfl⟩
  cases xs with
  | nil =>
    have hempty : Takes o (.arr []) 2 := ⟨_, rfl, _, rfl, rfl⟩
    rw [takes_iff, hempty.bytes_eq]
    simp [itemBytes, show Writes o (.arr []) from ⟨2, hempty⟩]
  | cons x xs =>
    rw [List.forall_mem_cons]
    constructor
    · rintro ⟨t, ht, hn⟩
      obtain ⟨first, hfirst, ht⟩ := bind_eq_ok.mp ht
      obtain ⟨rest, hrest, ht⟩ := bind_eq_ok.mp ht
      cases ht
      obtain ⟨_, c, hfront, hc, rfl⟩ := Str.takes_append.mp hn
      obtain ⟨_, b, hfront₂, hb, rfl⟩ := Str.takes_append.mp hfront
      obtain ⟨s, a, hs, ha, rfl⟩ := Str.takes_append.mp hfront₂
      obtain ⟨hall, rfl⟩ := (itemsTake xs b).mp ⟨rest, hrest, hb⟩
      obtain ⟨hx, rfl⟩ := takes_iff.mp ⟨first, hfirst, ha⟩
      obtain rfl := hs.unique hopen
      obtain rfl := hc.unique hclose
      refine ⟨⟨hx, hall⟩, ?_⟩
      simp only [itemBytes, List.map_cons, List.sum_cons]
      omega
    · rintro ⟨⟨hx, hall⟩, rfl⟩
      obtain ⟨first, hfirst, ha⟩ := takes_iff.mpr ⟨hx, rfl⟩
      obtain ⟨rest, hrest, hb⟩ := (itemsTake xs _).mpr ⟨hall, rfl⟩
      refine ⟨py "[" ++ first ++ rest ++ py "]", ?_, ?_⟩
      · rw [dumps, hfirst, ok_bind, hrest]
        rfl
      · refine Str.takes_append.mpr ⟨_, _, Str.takes_append.mpr ⟨_, _, Str.takes_append.mpr
          ⟨_, _, hopen, ha, rfl⟩, hb, rfl⟩, hclose, ?_⟩
        simp only [itemBytes, List.map_cons, List.sum_cons]
        omega

/-- The bytes of pairs, each with its separators -/
def pairBytes (o : DumpOptions) (kvs : List (Str × Json)) : Nat :=
  (kvs.map fun p => o.itemSeparator.length + bytes o (.str p.1) + o.keySeparator.length +
    bytes o p.2).sum

theorem dumps_str (s : Str) : dumps o (.str s) = .ok (dumpsStr o s) := by rw [dumps]

theorem takes_str {s : Str} {n : Nat} : Takes o (.str s) n ↔ (dumpsStr o s).Takes n := by
  unfold Takes
  simp [dumps_str]

/-- and the members of an object theirs. -/
theorem pairsTake (kvs : List (Str × Json)) (n : Nat) :
    (∃ t, dumpsPairs o kvs = .ok t ∧ t.Takes n) ↔
      (∀ p ∈ kvs, Writes o (.str p.1) ∧ Writes o p.2) ∧ n = pairBytes o kvs := by
  induction kvs generalizing n with
  | nil => simp [dumpsPairs, Str.takes_nil, pairBytes]
  | cons p kvs ih =>
    obtain ⟨k, x⟩ := p
    rw [List.forall_mem_cons]
    constructor
    · rintro ⟨t, ht, hn⟩
      obtain ⟨value, hvalue, ht⟩ := bind_eq_ok.mp ht
      obtain ⟨rest, hrest, ht⟩ := bind_eq_ok.mp ht
      cases ht
      obtain ⟨_, b, hfront, hb, rfl⟩ := Str.takes_append.mp hn
      obtain ⟨_, a, hfront₂, ha, rfl⟩ := Str.takes_append.mp hfront
      obtain ⟨_, c, hfront₃, hc, rfl⟩ := Str.takes_append.mp hfront₂
      obtain ⟨s, d, hs, hd, rfl⟩ := Str.takes_append.mp hfront₃
      obtain ⟨hall, rfl⟩ := (ih b).mp ⟨rest, hrest, hb⟩
      obtain ⟨hx, rfl⟩ := takes_iff.mp ⟨value, hvalue, ha⟩
      obtain ⟨hk, rfl⟩ := takes_iff.mp (takes_str.mpr hd)
      obtain rfl := (itemSeparator_takes o).mp hs
      obtain rfl := (keySeparator_takes o).mp hc
      exact ⟨⟨⟨hk, hx⟩, hall⟩, by simp [pairBytes]⟩
    · rintro ⟨⟨⟨hk, hx⟩, hall⟩, rfl⟩
      obtain ⟨value, hvalue, ha⟩ := takes_iff.mpr ⟨hx, rfl⟩
      obtain ⟨rest, hrest, hb⟩ := (ih _).mpr ⟨hall, rfl⟩
      have hd := takes_str.mp (takes_iff.mpr ⟨hk, rfl⟩)
      refine ⟨o.itemSeparator ++ dumpsStr o k ++ o.keySeparator ++ value ++ rest, ?_, ?_⟩
      · rw [dumpsPairs, hvalue, ok_bind, hrest]
        rfl
      · exact Str.takes_append.mpr ⟨_, _, Str.takes_append.mpr ⟨_, _, Str.takes_append.mpr
          ⟨_, _, Str.takes_append.mpr ⟨_, _, (itemSeparator_takes o).mpr rfl, hd, rfl⟩,
            (keySeparator_takes o).mpr rfl, rfl⟩, ha, rfl⟩, hb, by simp [pairBytes]⟩

/-- The text of an object: its braces and its pairs, the first one without a separator -/
theorem takes_obj {kvs : List (Str × Json)} {n : Nat} : Takes o (.obj kvs) n ↔
    (∀ p ∈ kvs, Writes o (.str p.1) ∧ Writes o p.2) ∧
      n = 2 + (pairBytes o kvs - o.itemSeparator.length) := by
  have hopen : Str.Takes (py "\x7b") 1 := ⟨_, rfl, rfl⟩
  have hclose : Str.Takes (py "\x7d") 1 := ⟨_, rfl, rfl⟩
  cases kvs with
  | nil =>
    have hempty : Takes o (.obj []) 2 := ⟨_, rfl, _, rfl, rfl⟩
    rw [takes_iff, hempty.bytes_eq]
    simp [pairBytes, show Writes o (.obj []) from ⟨2, hempty⟩]
  | cons p kvs =>
    obtain ⟨k, x⟩ := p
    rw [List.forall_mem_cons]
    constructor
    · rintro ⟨t, ht, hn⟩
      obtain ⟨value, hvalue, ht⟩ := bind_eq_ok.mp ht
      obtain ⟨rest, hrest, ht⟩ := bind_eq_ok.mp ht
      cases ht
      obtain ⟨_, e, hfront, he, rfl⟩ := Str.takes_append.mp hn
      obtain ⟨_, b, hfront₂, hb, rfl⟩ := Str.takes_append.mp hfront
      obtain ⟨_, a, hfront₃, ha, rfl⟩ := Str.takes_append.mp hfront₂
      obtain ⟨_, c, hfront₄, hc, rfl⟩ := Str.takes_append.mp hfront₃
      obtain ⟨s, d, hs, hd, rfl⟩ := Str.takes_append.mp hfront₄
      obtain ⟨hall, rfl⟩ := (pairsTake kvs b).mp ⟨rest, hrest, hb⟩
      obtain ⟨hx, rfl⟩ := takes_iff.mp ⟨value, hvalue, ha⟩
      obtain ⟨hk, rfl⟩ := takes_iff.mp (takes_str.mpr hd)
      obtain rfl := hs.unique hopen
      obtain rfl := he.unique hclose
      obtain rfl := (keySeparator_takes o).mp hc
      refine ⟨⟨⟨hk, hx⟩, hall⟩, ?_⟩
      simp only [pairBytes, List.map_cons, List.sum_cons]
      omega
    · rintro ⟨⟨⟨hk, hx⟩, hall⟩, rfl⟩
      obtain ⟨value, hvalue, ha⟩ := takes_iff.mpr ⟨hx, rfl⟩
      obtain ⟨rest, hrest, hb⟩ := (pairsTake kvs _).mpr ⟨hall, rfl⟩
      have hd := takes_str.mp (takes_iff.mpr ⟨hk, rfl⟩)
      refine ⟨py "\x7b" ++ dumpsStr o k ++ o.keySeparator ++ value ++ rest ++ py "\x7d", ?_, ?_⟩
      · rw [dumps, hvalue, ok_bind, hrest]
        rfl
      · refine Str.takes_append.mpr ⟨_, _, Str.takes_append.mpr ⟨_, _, Str.takes_append.mpr
          ⟨_, _, Str.takes_append.mpr ⟨_, _, Str.takes_append.mpr ⟨_, _, hopen, hd, rfl⟩,
            (keySeparator_takes o).mpr rfl, rfl⟩, ha, rfl⟩, hb, rfl⟩, hclose, ?_⟩
        simp only [pairBytes, List.map_cons, List.sum_cons]
        omega

/-- Beyond ASCII a character stands for itself. -/
theorem escapeChar_high {c : CodePoint} (h : 0x80 ≤ c.val) : escapeChar false c = [c] := by
  have hne : ∀ d : Char, d.toNat < 0x80 → c ≠ chr d := by
    rintro d hd rfl
    exact absurd h (Nat.not_le_of_lt hd)
  unfold escapeChar
  rw [if_neg (hne _ (by decide)), if_neg (hne _ (by decide)), if_neg (hne _ (by decide)),
    if_neg (hne _ (by decide)), if_neg (hne _ (by decide)), if_neg (by omega), if_neg (by omega),
    if_neg (by omega), if_neg (by simp)]

/-- A string whose characters are written as they are -/
theorem takes_plainStr {s : Str}
    (h : ∀ c ∈ s, escapeChar o.ensureAscii c = [c] ∧ isSurrogate c = false) :
    Takes o (.str s) (2 + (s.map fun c => (utf8Bytes c).length).sum) := by
  have hquote : Str.Takes (py "\"") 1 := ⟨_, rfl, rfl⟩
  have hchars : Str.Takes (s.flatMap (escapeChar o.ensureAscii))
      (s.map fun c => (utf8Bytes c).length).sum := by
    induction s with
    | nil => exact Str.takes_nil.mpr rfl
    | cons c s ih =>
      obtain ⟨hc, hs⟩ := List.forall_mem_cons.mp h
      rw [List.flatMap_cons, hc.1, List.singleton_append]
      exact (Str.takes_cons hc.2).mpr ⟨_, ih hs, by simp⟩
  refine takes_str.mpr (Str.takes_append.mpr ⟨_, _, Str.takes_append.mpr
    ⟨_, _, hquote, hchars, rfl⟩, hquote, ?_⟩)
  omega

end Nio.Py
