import Nio.Py.Json

/-!
# `json.loads` reads back what `json.dumps` wrote

* `Json.Distinct` — no object repeats a key
* `Json.WF` — what `loads` returns: distinct keys, and integers that the interpreter can write
* `Json.Clean` — no infinity, no NaN and no surrogate anywhere
* `loads_wf` — every value that is read is well-formed
* `loads_dumps` — a clean value with distinct keys comes back from its text
* `encodable_iff_clean` — the text of the strict writer can be encoded exactly when the value is
  clean
-/

namespace Nio.Py

/-! ## Strings -/

theorem hexValue?_hexDigit (n : Nat) : hexValue? (chr (hexDigit n)) = some (n % 16) := by
  have hall : ∀ k < 16, hexValue? (chr (Nat.digitChar k)) = some k := by decide
  exact hall (n % 16) (Nat.mod_lt _ (by decide))

/-- Four hexadecimal digits are read back. -/
theorem hexValue4?_hexDigit (n : Fin 0x10000) :
    hexValue4? (chr (hexDigit (n / 4096))) (chr (hexDigit (n / 256))) (chr (hexDigit (n / 16)))
      (chr (hexDigit n)) = some n := by
  simp only [hexValue4?, hexValue?_hexDigit, Option.bind_eq_bind, Option.bind_some, Option.pure_def]
  have hn := n.isLt
  congr 1
  apply Fin.ext
  simp only [Fin.ofNat]
  omega

/-- A `\u` escape of a number that is not a high surrogate. -/
theorem scanString_unicodeEscape {n : Nat} (u : Fin 0x10000)
    (hu : ¬ (0xD800 ≤ u.val ∧ u.val ≤ 0xDBFF)) (s : Str) :
    scanString (n + 1) (unicodeEscape u.val ++ s) = do
      let (t, r) ← scanString n s
      return (u.castLE (by decide) :: t, r) := by
  simp only [unicodeEscape, ofChars, List.map_cons, List.map_nil, List.cons_append, List.nil_append,
    scanString, CodePoint.ofChar_inj]
  rw [if_neg (by decide), if_pos trivial, if_pos trivial]
  simp only [hexValue4?_hexDigit]
  rw [if_neg hu]

theorem lowSurrogate?_unicodeEscape (w : Fin 0x10000) (hw : 0xDC00 ≤ w.val ∧ w.val ≤ 0xDFFF)
    (s : Str) : lowSurrogate? (unicodeEscape w.val ++ s) = some w := by
  simp only [unicodeEscape, ofChars, List.map_cons, List.map_nil, List.cons_append, List.nil_append,
    lowSurrogate?]
  rw [if_pos ⟨trivial, trivial⟩, hexValue4?_hexDigit, Option.filter_some, if_pos]
  exact decide_eq_true hw

/-- The escapes of a surrogate pair are one character. -/
theorem scanString_pair {n : Nat} (u w : Fin 0x10000) (hu : 0xD800 ≤ u.val ∧ u.val ≤ 0xDBFF)
    (hw : 0xDC00 ≤ w.val ∧ w.val ≤ 0xDFFF) (s : Str) :
    scanString (n + 1) (unicodeEscape u.val ++ (unicodeEscape w.val ++ s)) = do
      let (t, r) ← scanString n s
      return (joinSurrogates u w :: t, r) := by
  have hlow := lowSurrogate?_unicodeEscape w hw s
  have hdrop : (unicodeEscape w.val ++ s).drop 6 = s := rfl
  generalize unicodeEscape w.val ++ s = s' at hlow hdrop
  simp only [unicodeEscape, ofChars, List.map_cons, List.map_nil, List.cons_append, List.nil_append,
    scanString, CodePoint.ofChar_inj]
  rw [if_neg (by decide), if_pos trivial, if_pos trivial]
  simp only [hexValue4?_hexDigit]
  rw [if_pos hu]
  simp only [hlow, hdrop]

/-- A pair of surrogates is joined to the code point it was split from. -/
theorem joinSurrogates_split (c : CodePoint) (hc : 0x10000 ≤ c.val) :
    joinSurrogates (Fin.ofNat _ (0xD800 + (c.val - 0x10000) / 1024))
      (Fin.ofNat _ (0xDC00 + (c.val - 0x10000) % 1024)) = c := by
  have hlt := c.isLt
  apply Fin.ext
  simp only [joinSurrogates, Fin.ofNat]
  omega

/-- A one-letter escape. -/
theorem scanString_escape {n : Nat} {e : Char} {d : CodePoint} (hu : e ≠ 'u')
    (he : escapeOf? (chr e) = some d) (s : Str) :
    scanString (n + 1) (chr '\\' :: chr e :: s) = do
      let (t, r) ← scanString n s
      return (d :: t, r) := by
  simp only [scanString, CodePoint.ofChar_inj]
  rw [if_neg (by decide), if_pos trivial, if_neg hu]
  simp only [he]

/-- One character of a literal is read back from its escape. -/
theorem scanString_escapeChar {n : Nat} (a : Bool) {c : CodePoint} (hc : isSurrogate c = false)
    (s : Str) :
    scanString (n + 1) (escapeChar a c ++ s) = do
      let (t, r) ← scanString n s
      return (c :: t, r) := by
  have hlt := c.isLt
  have hval : ∀ m : Nat, ∀ h : m < 0x110000, c.val = m → c = ⟨m, h⟩ := fun m h he => Fin.ext he
  have hcast : ∀ h : c.val < 0x10000, (⟨c.val, h⟩ : Fin 0x10000).castLE (by decide) = c :=
    fun _ => rfl
  have hsur : ¬ (0xD800 ≤ c.val ∧ c.val ≤ 0xDFFF) := by
    simpa [isSurrogate] using hc
  unfold escapeChar
  split
  · next h => subst h; exact scanString_escape (e := '"') (by decide) (by decide) s
  · next h1 =>
    split
    · next h => subst h; exact scanString_escape (e := '\\') (by decide) (by decide) s
    · next h2 =>
      split
      · next h => subst h; exact scanString_escape (e := 'n') (by decide) (by decide) s
      · split
        · next h => subst h; exact scanString_escape (e := 'r') (by decide) (by decide) s
        · split
          · next h => subst h; exact scanString_escape (e := 't') (by decide) (by decide) s
          · split
            · next h =>
              rw [hval _ (by decide) h]
              exact scanString_escape (e := 'f') (by decide) (by decide) s
            · split
              · next h =>
                rw [hval _ (by decide) h]
                exact scanString_escape (e := 'b') (by decide) (by decide) s
              · split
                · next h =>
                  have hh := scanString_unicodeEscape (n := n) ⟨c.val, by omega⟩
                    (fun h' => by simp only at h'; omega) s
                  exact hh
                · next hctl =>
                  split
                  · split
                    · next h =>
                      have hh := scanString_unicodeEscape (n := n) ⟨c.val, h⟩
                        (fun h' => hsur ⟨h'.1, Nat.le_trans h'.2 (by decide)⟩) s
                      exact hh
                    · next h =>
                      have hh := scanString_pair (n := n)
                        (Fin.ofNat _ (0xD800 + (c.val - 0x10000) / 1024))
                        (Fin.ofNat _ (0xDC00 + (c.val - 0x10000) % 1024))
                        (by simp only [Fin.ofNat]; omega) (by simp only [Fin.ofNat]; omega) s
                      rw [joinSurrogates_split c (by omega)] at hh
                      simp only [Fin.ofNat] at hh
                      rw [Nat.mod_eq_of_lt (by omega), Nat.mod_eq_of_lt (by omega)] at hh
                      rw [List.append_assoc]
                      exact hh
                  · simp only [List.cons_append, List.nil_append, scanString]
                    rw [if_neg h1, if_neg h2, if_neg hctl]

/-- A string literal is read back after its opening quote. -/
theorem scanString_dumps (a : Bool) {t : Str} (ht : t.Encodable) {n : Nat} (hn : t.length < n)
    (rest : Str) :
    scanString n (t.flatMap (escapeChar a) ++ chr '"' :: rest) = .ok (t, rest) := by
  induction t generalizing n with
  | nil =>
    obtain ⟨n, rfl⟩ : ∃ k, n = k + 1 := ⟨n - 1, by omega⟩
    simp [scanString]
  | cons c t ih =>
    obtain ⟨n, rfl⟩ : ∃ k, n = k + 1 := ⟨n - 1, by omega⟩
    obtain ⟨hc, ht⟩ := Str.encodable_cons.mp ht
    rw [List.flatMap_cons, List.append_assoc, scanString_escapeChar a hc,
      ih ht (by simp only [List.length_cons] at hn; omega)]
    rfl

theorem escapeChar_ne_nil (a : Bool) (c : CodePoint) : escapeChar a c ≠ [] := by
  unfold escapeChar
  repeat' split
  all_goals simp [py, ofChars, unicodeEscape]

theorem length_le_flatMap_escapeChar (a : Bool) (t : Str) :
    t.length ≤ (t.flatMap (escapeChar a)).length := by
  induction t with
  | nil => simp
  | cons c t ih =>
    have := List.length_pos_iff.mpr (escapeChar_ne_nil a c)
    simp only [List.flatMap_cons, List.length_append, List.length_cons]
    omega

/-! ## Numbers -/

/-- What may follow a number: nothing that would continue it. -/
def Boundary (s : Str) : Prop :=
  ∀ c, s.head? = some c → digit? c = none ∧ c ≠ chr '.' ∧ c ≠ chr 'e' ∧ c ≠ chr 'E'

theorem digit?_ofChar {c : Char} (h : c.isDigit = true) : digit? (chr c) = some c := by
  have hb : 48 ≤ c.toNat ∧ c.toNat ≤ 57 := Char.isDigit_iff_toNat.mp h
  have hall : ∀ k < 10, Nat.digitChar k = Char.ofNat (48 + k) := by decide
  simp only [digit?, CodePoint.ofChar]
  rw [if_pos hb, hall _ (by omega), Nat.add_sub_cancel' hb.1, Char.ofNat_toNat]

theorem spanDigits_of_head {s : Str} (h : ∀ c, s.head? = some c → digit? c = none) :
    spanDigits s = ([], s) := by
  cases s with
  | nil => rfl
  | cons c s => simp only [spanDigits, h c rfl]

/-- The digits are read up to the first character that is none. -/
theorem spanDigits_append {ds : List Char} (hds : ∀ c ∈ ds, c.isDigit = true) {s : Str}
    (hs : ∀ c, s.head? = some c → digit? c = none) : spanDigits (ofChars ds ++ s) = (ds, s) := by
  induction ds with
  | nil => exact spanDigits_of_head hs
  | cons d ds ih =>
    have ih := ih fun c hc => hds c (List.mem_cons_of_mem _ hc)
    rw [show ofChars (d :: ds) ++ s = chr d :: (ofChars ds ++ s) from rfl]
    simp only [spanDigits, digit?_ofChar (hds d List.mem_cons_self), ih]

/-- An integer literal is read back. -/
theorem matchInt_append {ds : List Char} (hds : Decimal.Digits ds)
    (hzero : ds.head? = some '0' → ds = ['0']) {s : Str}
    (hs : ∀ c, s.head? = some c → digit? c = none) : matchInt (ofChars ds ++ s) = some (ds, s) := by
  obtain ⟨hne, hdig⟩ := hds
  cases ds with
  | nil => exact absurd rfl hne
  | cons d ds =>
    have hspan := spanDigits_append hdig hs
    rw [show ofChars (d :: ds) ++ s = chr d :: (ofChars ds ++ s) from rfl] at hspan ⊢
    simp only [matchInt, CodePoint.ofChar_inj]
    split
    · next h =>
      subst h
      have := hzero rfl
      cases this
      rfl
    · rw [hspan]

/-- The fraction of a literal, with what follows it. -/
theorem matchFrac_append {frac : Option (List Char)} (hf : ∀ ds, frac = some ds → Decimal.Digits ds)
    {s : Str} (hs : ∀ c, s.head? = some c → digit? c = none ∧ c ≠ chr '.') :
    matchFrac (ofChars (Decimal.fracChars frac) ++ s) = (frac, s) := by
  cases frac with
  | none =>
    cases s with
    | nil => rfl
    | cons c s => simp [Decimal.fracChars, ofChars, matchFrac, (hs c rfl).2]
  | some ds =>
    obtain ⟨hne, hdig⟩ := hf ds rfl
    have hspan := spanDigits_append hdig fun c hc => (hs c hc).1
    rw [show ofChars (Decimal.fracChars (some ds)) ++ s = chr '.' :: (ofChars ds ++ s) from rfl]
    cases ds with
    | nil => exact absurd rfl hne
    | cons d ds => simp only [matchFrac, if_true, hspan]

/-- The exponent of a literal, with what follows it. -/
theorem matchExp_append {exp : Option (Bool × List Char)}
    (he : ∀ neg ds, exp = some (neg, ds) → Decimal.Digits ds) {s : Str} (hs : Boundary s) :
    matchExp (ofChars (Decimal.expChars exp) ++ s) = (exp, s) := by
  cases exp with
  | none =>
    cases s with
    | nil => rfl
    | cons c s => simp [Decimal.expChars, ofChars, matchExp, (hs c rfl).2.2.1, (hs c rfl).2.2.2]
  | some p =>
    obtain ⟨neg, ds⟩ := p
    obtain ⟨hne, hdig⟩ := he neg ds rfl
    have hspan := spanDigits_append hdig fun c hc => (hs c hc).1
    rw [show ofChars (Decimal.expChars (some (neg, ds))) ++ s
      = chr 'e' :: chr (if neg then '-' else '+') :: (ofChars ds ++ s) from rfl]
    cases ds with
    | nil => exact absurd rfl hne
    | cons d ds => cases neg <;> simp [matchExp, expSign, hspan, CodePoint.ofChar_inj]

/-- A number is read back from its characters. -/
theorem matchNumber_chars {d : Decimal} (hd : d.Lexes) {s : Str} (hs : Boundary s) :
    matchNumber (ofChars d.chars ++ s) = some (d, s) := by
  obtain ⟨neg, ip, frac, exp⟩ := d
  obtain ⟨hi, hz, hf, he⟩ := hd
  simp only at hi hz hf he
  have hexp := matchExp_append he hs
  have hhead1 : ∀ c, (ofChars (Decimal.expChars exp) ++ s).head? = some c →
      digit? c = none ∧ c ≠ chr '.' := by
    intro c hc
    cases exp with
    | none => exact ⟨(hs c hc).1, (hs c hc).2.1⟩
    | some p => cases hc; exact ⟨by decide, by decide⟩
  have hfrac := matchFrac_append hf hhead1
  have hhead2 : ∀ c, (ofChars (Decimal.fracChars frac) ++
      (ofChars (Decimal.expChars exp) ++ s)).head? = some c → digit? c = none := by
    intro c hc
    cases frac with
    | none => exact (hhead1 c hc).1
    | some p => cases hc; decide
  have hint := matchInt_append hi hz hhead2
  have htext : ofChars (Decimal.chars ⟨neg, ip, frac, exp⟩) ++ s
      = ofChars (if neg then ['-'] else []) ++ (ofChars ip ++ (ofChars (Decimal.fracChars frac) ++
        (ofChars (Decimal.expChars exp) ++ s))) := by
    simp [Decimal.chars, ofChars]
  rw [htext]
  generalize ofChars (Decimal.expChars exp) ++ s = s1 at hexp hfrac hint
  generalize ofChars (Decimal.fracChars frac) ++ s1 = s2 at hfrac hint
  cases neg with
  | true =>
    rw [show ofChars (if true = true then ['-'] else []) ++ (ofChars ip ++ s2)
      = chr '-' :: (ofChars ip ++ s2) from rfl]
    simp only [matchNumber, List.head?_cons, if_true, List.tail_cons, hint, hfrac, hexp]
  | false =>
    have hhead : (ofChars ip ++ s2).head? ≠ some (chr '-') := by
      obtain ⟨hne, hdig⟩ := hi
      cases ip with
      | nil => exact absurd rfl hne
      | cons c ip =>
        intro h
        rw [show (ofChars (c :: ip) ++ s2).head? = some (chr c) from rfl, Option.some.injEq,
          CodePoint.ofChar_inj] at h
        subst h
        exact absurd (hdig '-' List.mem_cons_self) (by decide)
    simp only [Bool.false_eq_true, if_false, ofChars, List.map_nil, List.nil_append] at hhead ⊢
    simp only [matchNumber, if_neg hhead]
    simp only [ofChars] at hint
    simp only [hint, hfrac, hexp]

/-! ## Well-formed and clean values -/

namespace Json

mutual

/-- Every value in the tree, the root included, satisfies the test. -/
def all (p : Json → Bool) : Json → Bool
  | .arr xs => p (.arr xs) && allItems p xs
  | .obj kvs => p (.obj kvs) && allPairs p kvs
  | v => p v

def allItems (p : Json → Bool) : List Json → Bool
  | [] => true
  | x :: xs => all p x && allItems p xs

def allPairs (p : Json → Bool) : List (Str × Json) → Bool
  | [] => true
  | (_, x) :: kvs => all p x && allPairs p kvs

end

theorem allItems_iff {p : Json → Bool} {xs : List Json} :
    allItems p xs = true ↔ ∀ x ∈ xs, all p x = true := by
  induction xs with
  | nil => simp [allItems]
  | cons x xs ih => simp [allItems, ih]

theorem allPairs_iff {p : Json → Bool} {kvs : List (Str × Json)} :
    allPairs p kvs = true ↔ ∀ q ∈ kvs, all p q.2 = true := by
  induction kvs with
  | nil => simp [allPairs]
  | cons q kvs ih =>
    obtain ⟨k, x⟩ := q
    simp only [allPairs, Bool.and_eq_true, ih, List.forall_mem_cons]

mutual

/-- A weaker test holds wherever a stronger one does. -/
theorem all_mono {p q : Json → Bool} (h : ∀ v, p v = true → q v = true) (v : Json)
    (hv : all p v = true) : all q v = true := by
  cases v with
  | arr xs =>
    simp only [all, Bool.and_eq_true] at hv ⊢
    exact ⟨h _ hv.1, allItems_mono h xs hv.2⟩
  | obj kvs =>
    simp only [all, Bool.and_eq_true] at hv ⊢
    exact ⟨h _ hv.1, allPairs_mono h kvs hv.2⟩
  | _ => exact h _ hv

theorem allItems_mono {p q : Json → Bool} (h : ∀ v, p v = true → q v = true) (xs : List Json)
    (hxs : allItems p xs = true) : allItems q xs = true := by
  cases xs with
  | nil => rfl
  | cons x xs =>
    simp only [allItems, Bool.and_eq_true] at hxs ⊢
    exact ⟨all_mono h x hxs.1, allItems_mono h xs hxs.2⟩

theorem allPairs_mono {p q : Json → Bool} (h : ∀ v, p v = true → q v = true)
    (kvs : List (Str × Json)) (hkvs : allPairs p kvs = true) : allPairs q kvs = true := by
  cases kvs with
  | nil => rfl
  | cons e kvs =>
    obtain ⟨k, x⟩ := e
    simp only [allPairs, Bool.and_eq_true] at hkvs ⊢
    exact ⟨all_mono h x hkvs.1, allPairs_mono h kvs hkvs.2⟩

end

/-- The keys of the object are distinct. -/
def nodeDistinct : Json → Bool
  | .obj kvs => decide (kvs.map (·.1)).Nodup
  | _ => true

/-- The integer can be written, and the keys of the object are distinct. -/
def nodeWF : Json → Bool
  | .int i => (Nat.toDigits 10 i.natAbs).length ≤ maxStrDigits
  | .obj kvs => decide (kvs.map (·.1)).Nodup
  | _ => true

/-- The number is finite, and no string or key holds a surrogate. -/
def nodeClean : Json → Bool
  | .float x => x.isFinite
  | .str s => decide s.Encodable
  | .obj kvs => kvs.all fun q => decide q.1.Encodable
  | _ => true

/-- A value as Python code builds it from dictionaries and lists. -/
def Distinct (v : Json) : Prop := v.all nodeDistinct = true

/-- A value as `loads` returns it. -/
def WF (v : Json) : Prop := v.all nodeWF = true

/-- A value that a strict writer accepts and UTF-8 can encode. -/
def Clean (v : Json) : Prop := v.all nodeClean = true

theorem clean_str {s : Str} : (Json.str s).Clean ↔ s.Encodable := by
  simp only [Clean, all, nodeClean]
  exact decide_eq_true_iff

theorem WF.distinct {v : Json} (h : v.WF) : v.Distinct := by
  refine all_mono (fun v hv => ?_) v h
  cases v with
  | obj kvs => exact hv
  | _ => rfl

instance (v : Json) : Decidable v.WF := inferInstanceAs (Decidable (_ = true))

instance (v : Json) : Decidable v.Clean := inferInstanceAs (Decidable (_ = true))

end Json

open Json (nodeDistinct nodeWF nodeClean)

/-! ### Dictionaries -/

section Dict

variable {α : Type}

theorem keys_dictSet (d : List (Str × α)) (k : Str) (v : α) :
    (dictSet d k v).map (·.1) = if k ∈ d.map (·.1) then d.map (·.1) else d.map (·.1) ++ [k] := by
  have hany : (d.any fun p => p.1 = k) = true ↔ k ∈ d.map (·.1) := by
    simp [List.any_eq_true, List.mem_map]
  unfold dictSet
  by_cases hk : k ∈ d.map (·.1)
  · rw [if_pos (hany.mpr hk), if_pos hk, List.map_map]
    refine List.map_congr_left fun p _ => ?_
    simp only [Function.comp]
    split
    · next h => exact h.symm
    · rfl
  · rw [if_neg (fun h => hk (hany.mp h)), if_neg hk, List.map_append]
    rfl

/-- Setting a key keeps the keys distinct. -/
theorem nodup_dictSet {d : List (Str × α)} (hd : (d.map (·.1)).Nodup) (k : Str) (v : α) :
    ((dictSet d k v).map (·.1)).Nodup := by
  rw [keys_dictSet]
  split
  · exact hd
  · next h => exact List.Nodup.append hd (List.nodup_singleton k) (by simpa using h)

theorem mem_dictSet {d : List (Str × α)} {k : Str} {v : α} {q : Str × α}
    (h : q ∈ dictSet d k v) : q ∈ d ∨ q = (k, v) := by
  unfold dictSet at h
  split at h
  · obtain ⟨p, hp, rfl⟩ := List.mem_map.mp h
    split
    · exact Or.inr rfl
    · exact Or.inl hp
  · simpa using h

/-- The loop of `dict(pairs)` started from some dictionary. -/
theorem foldl_dictSet {d : List (Str × α)} (hd : (d.map (·.1)).Nodup) (pairs : List (Str × α)) :
    ((pairs.foldl (fun d p => dictSet d p.1 p.2) d).map (·.1)).Nodup ∧
      ∀ q ∈ pairs.foldl (fun d p => dictSet d p.1 p.2) d, q ∈ d ∨ q ∈ pairs := by
  induction pairs generalizing d with
  | nil => exact ⟨hd, fun q hq => Or.inl hq⟩
  | cons p pairs ih =>
    obtain ⟨h1, h2⟩ := ih (nodup_dictSet hd p.1 p.2)
    refine ⟨h1, fun q hq => ?_⟩
    rcases h2 q hq with hq | hq
    · rcases mem_dictSet hq with hq | hq
      · exact Or.inl hq
      · exact Or.inr (hq ▸ List.mem_cons_self)
    · exact Or.inr (List.mem_cons_of_mem _ hq)

/-- The keys of a dictionary that was read are distinct. -/
theorem nodup_dictOf (pairs : List (Str × α)) : ((dictOf pairs).map (·.1)).Nodup :=
  (foldl_dictSet (d := []) List.nodup_nil pairs).1

theorem mem_of_mem_dictOf {pairs : List (Str × α)} {q : Str × α} (h : q ∈ dictOf pairs) :
    q ∈ pairs := by
  rcases (foldl_dictSet (d := []) List.nodup_nil pairs).2 q h with h | h
  · cases h
  · exact h

/-- Pairs with distinct keys are the dictionary. -/
theorem dictOf_eq_self {pairs : List (Str × α)} (h : (pairs.map (·.1)).Nodup) :
    dictOf pairs = pairs := by
  have hgen : ∀ (pairs d : List (Str × α)), ((d ++ pairs).map (·.1)).Nodup →
      pairs.foldl (fun d p => dictSet d p.1 p.2) d = d ++ pairs := by
    intro pairs
    induction pairs with
    | nil => simp
    | cons p pairs ih =>
      intro d hd
      have hnot : p.1 ∉ d.map (·.1) := by
        rw [List.map_append, List.map_cons] at hd
        exact fun hk => (List.disjoint_of_nodup_append hd) hk List.mem_cons_self
      have hset : dictSet d p.1 p.2 = d ++ [p] := by
        unfold dictSet
        rw [if_neg]
        simpa [List.any_eq_true, List.mem_map] using hnot
      rw [List.foldl_cons, hset, ih]
      · simp
      · simpa using hd
  have hself := hgen pairs [] (by simpa using h)
  rwa [List.nil_append] at hself

end Dict

/-! ### What is read is well-formed -/

theorem ofDigitChars_lt {ds : List Char} (hds : ∀ c ∈ ds, c.isDigit = true) (init : Nat) :
    Nat.ofDigitChars 10 ds init < (init + 1) * 10 ^ ds.length := by
  induction ds generalizing init with
  | nil => simp
  | cons d ds ih =>
    have hd : d.toNat - '0'.toNat < 10 := by
      have hdig := Char.isDigit_iff_toNat.mp (hds d List.mem_cons_self)
      have h9 : '9'.toNat = 57 := rfl
      have h0 : '0'.toNat = 48 := rfl
      omega
    rw [Nat.ofDigitChars_cons]
    refine Nat.lt_of_lt_of_le (ih (fun c hc => hds c (List.mem_cons_of_mem _ hc)) _) ?_
    rw [List.length_cons, pow_succ, mul_comm (10 ^ ds.length) 10, ← mul_assoc]
    exact Nat.mul_le_mul_right _ (by omega)

theorem digits_of_spanDigits {s : Str} : ∀ c ∈ (spanDigits s).1, c.isDigit = true := by
  induction s with
  | nil => simp [spanDigits]
  | cons c s ih =>
    unfold spanDigits
    cases hc : digit? c with
    | none => simp
    | some d =>
      intro e he
      rcases List.mem_cons.mp he with rfl | he
      · unfold digit? at hc
        split at hc
        · next h =>
          cases hc
          rw [Nat.isDigit_digitChar, decide_eq_true_eq]
          omega
        · cases hc
      · exact ih e he

theorem digits_of_matchInt {s r : Str} {ds : List Char} (h : matchInt s = some (ds, r)) :
    ∀ c ∈ ds, c.isDigit = true := by
  unfold matchInt at h
  split at h
  · cases h
  · next c s =>
    split at h
    · cases h
      exact List.forall_mem_singleton.mpr rfl
    · have hd := digits_of_spanDigits (s := c :: s)
      cases hs : spanDigits (c :: s) with
      | mk ds' r' =>
        rw [hs] at h hd
        cases ds' with
        | nil => cases h
        | cons d ds' => cases h; exact hd

/-- A number that is read is well formed. -/
theorem wf_numberValue {d : Decimal} (hd : ∀ c ∈ d.intPart, c.isDigit = true) {v : Json}
    (h : numberValue d = .ok v) : v.WF := by
  unfold numberValue at h
  split at h
  · split at h
    · cases h
    · next hlen =>
      cases h
      have hlt := ofDigitChars_lt hd 0
      have hpos : 0 < maxStrDigits := by decide
      have hbound : (Nat.toDigits 10 (Nat.ofDigitChars 10 d.intPart 0)).length ≤ maxStrDigits := by
        rw [Nat.length_toDigits_le_iff (by decide) hpos]
        refine Nat.lt_of_lt_of_le hlt ?_
        rw [Nat.zero_add, Nat.one_mul]
        exact Nat.pow_le_pow_right (by decide) (by omega)
      cases d.neg <;> simpa [Json.WF, Json.all, nodeWF] using hbound
  · cases h
    rfl

theorem wf_numberParts {neg : Bool} {s r : Str} {d : Decimal}
    (h : (match matchInt s with
      | none => none
      | some (intPart, s) =>
        let (frac, s) := matchFrac s
        let (exp, s) := matchExp s
        some ((⟨neg, intPart, frac, exp⟩ : Decimal), s)) = some (d, r)) :
    ∀ c ∈ d.intPart, c.isDigit = true := by
  split at h
  · cases h
  · next hi =>
    cases h
    exact digits_of_matchInt hi

theorem wf_matchNumber {s r : Str} {d : Decimal} (h : matchNumber s = some (d, r)) :
    ∀ c ∈ d.intPart, c.isDigit = true := by
  unfold matchNumber at h
  split at h
  exact wf_numberParts h

theorem wf_matchConstant {s r : Str} {v : Json} (h : matchConstant s = some (v, r)) : v.WF := by
  unfold matchConstant at h
  obtain ⟨⟨name, w⟩, hmem, hw⟩ := List.exists_of_findSome?_eq_some h
  simp only at hw
  split at hw
  · cases hw
    have hall : ∀ p ∈ constants, p.2.WF := by
      simp only [constants, List.forall_mem_cons]
      exact ⟨rfl, rfl, rfl, rfl, rfl, rfl, by simp⟩
    exact hall _ hmem
  · cases hw

/-- Whatever the fuel, what is read is well-formed. -/
theorem wf_parse (n : Nat) :
    (∀ s v r, parseValue n s = .ok (v, r) → v.WF) ∧
    (∀ s xs r, parseItems n s = .ok (xs, r) → Json.allItems nodeWF xs = true) ∧
    (∀ s kvs r, parsePairs n s = .ok (kvs, r) → Json.allPairs nodeWF kvs = true) := by
  induction n with
  | zero =>
    refine ⟨?_, ?_, ?_⟩ <;> intro s v r h
    · simp [parseValue] at h
    · simp [parseItems] at h
    · simp [parsePairs] at h
  | succ n ih =>
    obtain ⟨ihv, ihi, ihp⟩ := ih
    refine ⟨?_, ?_, ?_⟩
    · intro s v r h
      cases s with
      | nil => simp [parseValue] at h
      | cons c s =>
        unfold parseValue at h
        split at h
        · obtain ⟨⟨t, r'⟩, -, h⟩ := bind_eq_ok.mp h
          cases h
          rfl
        · split at h
          · split at h
            · cases h
            · split at h
              · cases h
                rfl
              · obtain ⟨⟨kvs, r'⟩, hp, h⟩ := bind_eq_ok.mp h
                cases h
                have hall := Json.allPairs_iff.mp (ihp _ _ _ hp)
                have hnodup := nodup_dictOf kvs
                simp only [Json.WF, Json.all, nodeWF, Bool.and_eq_true, decide_eq_true_eq]
                exact ⟨hnodup, Json.allPairs_iff.mpr fun q hq => hall q (mem_of_mem_dictOf hq)⟩
          · split at h
            · split at h
              · cases h
              · split at h
                · cases h
                  rfl
                · obtain ⟨⟨xs, r'⟩, hi, h⟩ := bind_eq_ok.mp h
                  cases h
                  simpa [Json.WF, Json.all, nodeWF] using ihi _ _ _ hi
            · split at h
              · next hc =>
                cases h
                exact wf_matchConstant hc
              · split at h
                · cases h
                · next hm =>
                  obtain ⟨v', hv, h⟩ := bind_eq_ok.mp h
                  cases h
                  exact wf_numberValue (wf_matchNumber hm) hv
    · intro s xs r h
      unfold parseItems at h
      obtain ⟨⟨v, r'⟩, hv, h⟩ := bind_eq_ok.mp h
      have hwf := ihv _ _ _ hv
      simp only at h
      split at h
      · cases h
      · split at h
        · obtain ⟨⟨vs, r''⟩, hi, h⟩ := bind_eq_ok.mp h
          cases h
          simpa [Json.allItems] using ⟨hwf, ihi _ _ _ hi⟩
        · split at h
          · cases h
            rw [Json.allItems, Json.allItems, Bool.and_true]
            exact hwf
          · cases h
    · intro s kvs r h
      cases s with
      | nil => simp [parsePairs] at h
      | cons q s =>
        unfold parsePairs at h
        split at h
        · obtain ⟨⟨k, r1⟩, -, h⟩ := bind_eq_ok.mp h
          simp only at h
          split at h
          · cases h
          · split at h
            · obtain ⟨⟨v, r2⟩, hv, h⟩ := bind_eq_ok.mp h
              have hwf := ihv _ _ _ hv
              simp only at h
              split at h
              · cases h
              · split at h
                · obtain ⟨⟨kvs', r3⟩, hp, h⟩ := bind_eq_ok.mp h
                  cases h
                  simpa [Json.allPairs] using ⟨hwf, ihp _ _ _ hp⟩
                · split at h
                  · cases h
                    rw [Json.allPairs, Json.allPairs, Bool.and_true]
                    exact hwf
                  · cases h
            · cases h
        · cases h

/-- Every value that `loads` returns has distinct keys and integers that can be written. -/
theorem loads_wf {s : Str} {v : Json} (h : loads s = .ok v) : v.WF := by
  unfold loads at h
  split at h
  · cases h
  · obtain ⟨⟨w, r⟩, hw, h⟩ := bind_eq_ok.mp h
    simp only at h
    split at h
    · cases h
      exact (wf_parse _).1 _ _ _ hw
    · cases h

/-! ## Reading back -/

/-- The first character of a value's text: no space, no byte-order mark, and nothing that closes a
list. -/
def Opens (s : Str) : Prop :=
  ∃ c r, s = c :: r ∧ isSpace c = false ∧ c ≠ chr ']' ∧ c ≠ chr '\x7d' ∧ c ≠ 0xFEFF

theorem Opens.append {s : Str} (h : Opens s) (t : Str) : Opens (s ++ t) := by
  obtain ⟨c, r, rfl, hc⟩ := h
  exact ⟨c, r ++ t, rfl, hc⟩

theorem Opens.skipSpaces {s : Str} (h : Opens s) : skipSpaces s = s := by
  obtain ⟨c, r, rfl, hc, -⟩ := h
  simp [Nio.Py.skipSpaces, hc]

/-- The separators are read as one sign and spaces, -/
theorem skipSpaces_itemSeparator (o : DumpOptions) {s : Str} (h : Opens s) :
    ∃ r, o.itemSeparator ++ s = chr ',' :: r ∧ skipSpaces r = s := by
  unfold DumpOptions.itemSeparator
  split
  · exact ⟨s, rfl, h.skipSpaces⟩
  · exact ⟨chr ' ' :: s, rfl, h.skipSpaces⟩

/-- of items and of keys alike. -/
theorem skipSpaces_keySeparator (o : DumpOptions) {s : Str} (h : Opens s) :
    ∃ r, o.keySeparator ++ s = chr ':' :: r ∧ skipSpaces r = s := by
  unfold DumpOptions.keySeparator
  split
  · exact ⟨s, rfl, h.skipSpaces⟩
  · exact ⟨chr ' ' :: s, rfl, h.skipSpaces⟩

theorem skipSpaces_cons {c : CodePoint} (hc : isSpace c = false) (s : Str) :
    skipSpaces (c :: s) = c :: s := by
  simp [skipSpaces, hc]

theorem boundary_cons {c : CodePoint} (h : digit? c = none ∧ c ≠ chr '.' ∧ c ≠ chr 'e' ∧ c ≠ chr 'E')
    (s : Str) : Boundary (c :: s) := by
  intro d hd
  cases hd
  exact h

theorem boundary_itemSeparator (o : DumpOptions) (s : Str) : Boundary (o.itemSeparator ++ s) := by
  unfold DumpOptions.itemSeparator
  split <;> exact boundary_cons (by decide) _

/-! ### The texts of the leaves -/

theorem dumpsStr_eq (o : DumpOptions) (t rest : Str) :
    dumpsStr o t ++ rest = chr '"' :: (t.flatMap (escapeChar o.ensureAscii) ++ chr '"' :: rest) := by
  simp [dumpsStr, py, ofChars]

theorem opens_dumpsStr (o : DumpOptions) (t : Str) : Opens (dumpsStr o t) := by
  exact ⟨chr '"', _, dumpsStr_eq o t [] ▸ (List.append_nil _).symm, by decide, by decide, by decide,
    by decide⟩

/-- A string or key is read back after its opening quote, with the fuel that the reader takes. -/
theorem scanString_dumpsStr (o : DumpOptions) {t : Str} (ht : t.Encodable) (rest : Str) :
    scanString ((t.flatMap (escapeChar o.ensureAscii) ++ chr '"' :: rest).length + 1)
      (t.flatMap (escapeChar o.ensureAscii) ++ chr '"' :: rest) = .ok (t, rest) := by
  refine scanString_dumps _ ht ?_ rest
  have := length_le_flatMap_escapeChar o.ensureAscii t
  simp only [List.length_append, List.length_cons]
  omega

/-- A text that starts with a digit, or with a minus sign and a digit. -/
def NumberHead (s : Str) : Prop :=
  ∃ c r, s = c :: r ∧ ((digit? c).isSome ∨ c = chr '-' ∧ ∃ e r', r = e :: r' ∧ (digit? e).isSome)

theorem numberHead_chars {d : Decimal} (hd : d.Lexes) (rest : Str) :
    NumberHead (ofChars d.chars ++ rest) := by
  obtain ⟨neg, ip, frac, exp⟩ := d
  obtain ⟨hne, hdig⟩ := hd.intPart
  cases ip with
  | nil => exact absurd rfl hne
  | cons c ip =>
    have hc : (digit? (chr c)).isSome := by
      rw [digit?_ofChar (hdig c List.mem_cons_self)]
      rfl
    cases neg with
    | true => exact ⟨chr '-', _, rfl, Or.inr ⟨rfl, chr c, _, rfl, hc⟩⟩
    | false => exact ⟨chr c, _, rfl, Or.inl hc⟩

theorem val_of_digit? {c : CodePoint} (h : (digit? c).isSome) : 48 ≤ c.val ∧ c.val ≤ 57 := by
  unfold digit? at h
  split at h
  · next h' => exact h'
  · cases h

theorem ne_chr_of_digit {c : CodePoint} (h : (digit? c).isSome) {d : Char}
    (hd : ¬ (48 ≤ d.toNat ∧ d.toNat ≤ 57)) : c ≠ chr d := by
  rintro rfl
  exact hd (val_of_digit? h)

theorem NumberHead.ne_chr {c : CodePoint} {s : Str} (h : NumberHead (c :: s)) {d : Char}
    (hd : d ≠ '-' ∧ ¬ (48 ≤ d.toNat ∧ d.toNat ≤ 57)) : c ≠ chr d := by
  obtain ⟨c', r, heq, hc⟩ := h
  cases heq
  rcases hc with hc | ⟨rfl, -⟩
  · exact ne_chr_of_digit hc hd.2
  · exact fun h => hd.1 (CodePoint.ofChar_inj.mp h).symm

theorem not_prefix_of_head {c : CodePoint} {s : Str} {d : Char} {ds : List Char} (h : c ≠ chr d) :
    ¬ ofChars (d :: ds) <+: c :: s := by
  rintro ⟨r, hr⟩
  exact h (List.cons.inj hr).1.symm

/-- Before a number none of the words that stand for a value matches. -/
theorem NumberHead.matchConstant {s : Str} (h : NumberHead s) : matchConstant s = none := by
  obtain ⟨c, r, rfl, hc⟩ := id h
  have hinf : ¬ py "-Infinity" <+: c :: r := by
    rcases hc with hc | ⟨rfl, e, r', rfl, he⟩
    · exact not_prefix_of_head (ne_chr_of_digit hc (by decide))
    · rintro ⟨t, ht⟩
      exact ne_chr_of_digit he (d := 'I') (by decide) (List.cons.inj (List.cons.inj ht).2).1.symm
  have h1 : ¬ py "null" <+: c :: r := not_prefix_of_head (h.ne_chr (d := 'n') (by decide))
  have h2 : ¬ py "true" <+: c :: r := not_prefix_of_head (h.ne_chr (d := 't') (by decide))
  have h3 : ¬ py "false" <+: c :: r := not_prefix_of_head (h.ne_chr (d := 'f') (by decide))
  have h4 : ¬ py "NaN" <+: c :: r := not_prefix_of_head (h.ne_chr (d := 'N') (by decide))
  have h5 : ¬ py "Infinity" <+: c :: r := not_prefix_of_head (h.ne_chr (d := 'I') (by decide))
  simp [Nio.Py.matchConstant, constants, h1, h2, h3, h4, h5, hinf]

theorem NumberHead.opens {s : Str} (h : NumberHead s) : Opens s := by
  obtain ⟨c, r, rfl, -⟩ := id h
  have hsp : isSpace c = false := by
    simp [isSpace, h.ne_chr (d := ' ') (by decide), h.ne_chr (d := '\t') (by decide),
      h.ne_chr (d := '\n') (by decide), h.ne_chr (d := '\r') (by decide)]
  exact ⟨c, r, rfl, hsp, h.ne_chr (by decide), h.ne_chr (by decide),
    h.ne_chr (d := Char.ofNat 0xFEFF) (by decide)⟩

/-- A number is read back in front of anything that does not continue it. -/
theorem parseValue_number {d : Decimal} (hd : d.Lexes) {v : Json} (hv : numberValue d = .ok v)
    {rest : Str} (hrest : Boundary rest) {n : Nat} (hn : 0 < n) :
    parseValue n (ofChars d.chars ++ rest) = .ok (v, rest) := by
  obtain ⟨n, rfl⟩ : ∃ k, n = k + 1 := ⟨n - 1, by omega⟩
  have hm := matchNumber_chars hd hrest
  have hh := numberHead_chars hd rest
  obtain ⟨c, s, hcs, -⟩ := id hh
  rw [hcs] at hm hh ⊢
  unfold parseValue
  rw [if_neg (hh.ne_chr (by decide)), if_neg (hh.ne_chr (by decide)),
    if_neg (hh.ne_chr (by decide)), hh.matchConstant]
  simp only [hm, hv]
  rfl

/-- The literal of an integer. -/
def intLiteral (i : Int) : Decimal := ⟨i < 0, Nat.toDigits 10 i.natAbs, none, none⟩

theorem lexes_intLiteral (i : Int) : (intLiteral i).Lexes := by
  refine ⟨Decimal.digits_toDigits _, fun h => ?_, by simp [intLiteral], by simp [intLiteral]⟩
  simp only [intLiteral] at h ⊢
  rcases Nat.eq_zero_or_pos i.natAbs with h0 | hpos
  · rw [h0, Nat.toDigits_zero]
  · exact absurd h (Decimal.head_toDigits hpos)

/-- An integer is written as its literal, -/
theorem dumpsInt_eq {i : Int} {t : Str} (h : dumpsInt i = .ok t) :
    t = ofChars (intLiteral i).chars ∧ numberValue (intLiteral i) = .ok (.int i) := by
  simp only [dumpsInt] at h
  split at h
  · cases h
  · next hlen =>
    cases h
    refine ⟨?_, ?_⟩
    · by_cases hi : i < 0 <;> simp [intLiteral, Decimal.chars, Decimal.fracChars, Decimal.expChars, hi]
    · simp only [numberValue, intLiteral, and_self, if_true, if_neg hlen,
        Nat.ofDigitChars_ten_toDigits, decide_eq_true_eq]
      congr 2
      split <;> omega

/-- and a finite float as its `repr`. -/
theorem dumpsFloat_eq {o : DumpOptions} {x : PyFloat} (hx : x.isFinite = true) {t : Str}
    (h : dumpsFloat o x = .ok t) :
    t = ofChars (repr x).chars ∧ numberValue (repr x) = .ok (.float x) := by
  simp only [dumpsFloat, hx, if_true, Except.ok.injEq] at h
  refine ⟨h.symm, ?_⟩
  have hfloat := (wf_repr x).float
  rw [numberValue, if_neg, value_repr hx]
  rintro ⟨h1, h2⟩
  rw [h1, h2] at hfloat
  simp at hfloat

/-! ### Values -/

/-- What is written starts with no space. -/
theorem opens_dumps (o : DumpOptions) {v : Json} (hc : v.Clean) {t : Str} (h : dumps o v = .ok t) :
    Opens t := by
  have hlit : ∀ {c : Char} {s : Str}, isSpace (chr c) = false ∧ chr c ≠ chr ']' ∧
      chr c ≠ chr '\x7d' ∧ chr c ≠ 0xFEFF → Opens (chr c :: s) := fun h => ⟨_, _, rfl, h⟩
  cases v with
  | null => cases h; exact hlit (c := 'n') (by decide)
  | bool b =>
    cases h
    cases b with
    | true => exact hlit (c := 't') (by decide)
    | false => exact hlit (c := 'f') (by decide)
  | int i =>
    simp only [dumps] at h
    rw [(dumpsInt_eq h).1]
    have hh := numberHead_chars (lexes_intLiteral i) []
    rw [List.append_nil] at hh
    exact hh.opens
  | float x =>
    have hx : x.isFinite = true := hc
    simp only [dumps] at h
    rw [(dumpsFloat_eq hx h).1]
    have hh := numberHead_chars (wf_repr x).toLexes []
    rw [List.append_nil] at hh
    exact hh.opens
  | str s => cases h; exact opens_dumpsStr o s
  | arr xs =>
    cases xs with
    | nil => cases h; exact hlit (c := '[') (by decide)
    | cons x xs =>
      simp only [dumps] at h
      obtain ⟨t1, -, h⟩ := bind_eq_ok.mp h
      obtain ⟨t2, -, h⟩ := bind_eq_ok.mp h
      cases h
      exact hlit (c := '[') (by decide)
  | obj kvs =>
    cases kvs with
    | nil => cases h; exact hlit (c := '\x7b') (by decide)
    | cons p kvs =>
      obtain ⟨k, x⟩ := p
      simp only [dumps] at h
      obtain ⟨t1, -, h⟩ := bind_eq_ok.mp h
      obtain ⟨t2, -, h⟩ := bind_eq_ok.mp h
      cases h
      exact hlit (c := '\x7b') (by decide)

theorem matchConstant_null (rest : Str) :
    matchConstant (py "null" ++ rest) = some (.null, rest) := by
  simp [matchConstant, constants, py, ofChars]

theorem matchConstant_bool (b : Bool) (rest : Str) :
    matchConstant ((if b then py "true" else py "false") ++ rest) = some (.bool b, rest) := by
  cases b <;> simp [matchConstant, constants, py, ofChars, CodePoint.ofChar_inj]

/-- A word that stands for a value, in front of anything. -/
theorem parseValue_constant {c : Char} {cs : List Char} {v : Json} {rest : Str} {n : Nat}
    (hc : c ≠ '"' ∧ c ≠ '\x7b' ∧ c ≠ '[')
    (h : matchConstant (ofChars (c :: cs) ++ rest) = some (v, rest)) :
    parseValue (n + 1) (ofChars (c :: cs) ++ rest) = .ok (v, rest) := by
  rw [show ofChars (c :: cs) ++ rest = chr c :: (ofChars cs ++ rest) from rfl] at h ⊢
  have hne : ∀ {d : Char}, c ≠ d → ¬ chr c = chr d := fun h h' => h (CodePoint.ofChar_inj.mp h')
  unfold parseValue
  rw [if_neg (hne hc.1), if_neg (hne hc.2.1), if_neg (hne hc.2.2), h]

theorem length_pos_of_opens {s : Str} (h : Opens s) : 0 < s.length := by
  obtain ⟨c, r, rfl, -⟩ := h
  simp

/-- The texts of the values after the first one, up to what closes the list. -/
theorem boundary_items (o : DumpOptions) {xs : List Json} {ts : Str} (h : dumpsItems o xs = .ok ts)
    (rest : Str) : Boundary (ts ++ chr ']' :: rest) := by
  cases xs with
  | nil => cases h; exact boundary_cons (by decide) _
  | cons y ys =>
    simp only [dumpsItems] at h
    obtain ⟨t1, -, h⟩ := bind_eq_ok.mp h
    obtain ⟨t2, -, h⟩ := bind_eq_ok.mp h
    cases h
    rw [List.append_assoc, List.append_assoc]
    exact boundary_itemSeparator o _

theorem boundary_pairs (o : DumpOptions) {kvs : List (Str × Json)} {ts : Str}
    (h : dumpsPairs o kvs = .ok ts) (rest : Str) : Boundary (ts ++ chr '\x7d' :: rest) := by
  cases kvs with
  | nil => cases h; exact boundary_cons (by decide) _
  | cons q kvs =>
    obtain ⟨k, y⟩ := q
    simp only [dumpsPairs] at h
    obtain ⟨t1, -, h⟩ := bind_eq_ok.mp h
    obtain ⟨t2, -, h⟩ := bind_eq_ok.mp h
    cases h
    rw [List.append_assoc, List.append_assoc, List.append_assoc, List.append_assoc]
    exact boundary_itemSeparator o _

/-- Whatever the writer's options, the reader with enough fuel takes a text apart as it was put
together. -/
theorem parse_dumps (o : DumpOptions) (n : Nat) :
    (∀ (v : Json) t rest, v.Distinct → v.Clean → dumps o v = .ok t → Boundary rest →
      2 * (t ++ rest).length ≤ n → parseValue n (t ++ rest) = .ok (v, rest)) ∧
    (∀ x (xs : List Json) t ts rest, Json.allItems nodeDistinct (x :: xs) = true →
      Json.allItems nodeClean (x :: xs) = true → dumps o x = .ok t → dumpsItems o xs = .ok ts →
      2 * (t ++ (ts ++ chr ']' :: rest)).length + 1 ≤ n →
      parseItems n (t ++ (ts ++ chr ']' :: rest)) = .ok (x :: xs, rest)) ∧
    (∀ k x (kvs : List (Str × Json)) t ts rest, Json.allPairs nodeDistinct ((k, x) :: kvs) = true →
      Json.allPairs nodeClean ((k, x) :: kvs) = true → (∀ q ∈ (k, x) :: kvs, q.1.Encodable) →
      dumps o x = .ok t → dumpsPairs o kvs = .ok ts →
      2 * (dumpsStr o k ++ (o.keySeparator ++ (t ++ (ts ++ chr '\x7d' :: rest)))).length + 1 ≤ n →
      parsePairs n (dumpsStr o k ++ (o.keySeparator ++ (t ++ (ts ++ chr '\x7d' :: rest))))
        = .ok ((k, x) :: kvs, rest)) := by
  induction n with
  | zero =>
    refine ⟨?_, by omega, by omega⟩
    intro v t rest _ hclean h _ hn
    have := length_pos_of_opens (opens_dumps o hclean h)
    simp only [List.length_append] at hn
    omega
  | succ n ih =>
    obtain ⟨ihv, ihi, ihp⟩ := ih
    refine ⟨?_, ?_, ?_⟩
    · intro v t rest hkeys hclean h hrest hn
      cases v with
      | null => cases h; exact parseValue_constant (by decide) (matchConstant_null rest)
      | bool b =>
        cases h
        have hm := matchConstant_bool b rest
        cases b with
        | true => exact parseValue_constant (c := 't') (by decide) hm
        | false => exact parseValue_constant (c := 'f') (by decide) hm
      | int i =>
        simp only [dumps] at h
        obtain ⟨rfl, hv⟩ := dumpsInt_eq h
        exact parseValue_number (lexes_intLiteral i) hv hrest (by omega)
      | float x =>
        simp only [dumps] at h
        obtain ⟨rfl, hv⟩ := dumpsFloat_eq hclean h
        exact parseValue_number (wf_repr x).toLexes hv hrest (by omega)
      | str s =>
        cases h
        rw [dumpsStr_eq]
        unfold parseValue
        rw [if_pos rfl, scanString_dumpsStr o (Json.clean_str.mp hclean)]
        rfl
      | arr xs =>
        cases xs with
        | nil =>
          cases h
          rfl
        | cons x xs =>
          simp only [dumps] at h
          obtain ⟨t1, h1, h⟩ := bind_eq_ok.mp h
          obtain ⟨ts, hts, h⟩ := bind_eq_ok.mp h
          cases h
          simp only [Json.Distinct, Json.Clean, Json.all, nodeDistinct, nodeClean,
            Bool.true_and] at hkeys hclean
          have hx : x.Clean := Json.allItems_iff.mp hclean x List.mem_cons_self
          have htext : py "[" ++ t1 ++ ts ++ py "]" ++ rest
              = chr '[' :: (t1 ++ (ts ++ chr ']' :: rest)) := by
            simp [py, ofChars]
          rw [htext] at hn ⊢
          have hitems := ihi x xs t1 ts rest hkeys hclean h1 hts
            (by simp only [List.length_cons] at hn; omega)
          have hopen := (opens_dumps o hx h1).append (ts ++ chr ']' :: rest)
          unfold parseValue
          rw [if_neg (by decide), if_neg (by decide), if_pos rfl, hopen.skipSpaces]
          obtain ⟨c, r, hcr, -, hc, -, -⟩ := hopen
          rw [hcr] at hitems ⊢
          simp only [if_neg hc, hitems]
          rfl
      | obj kvs =>
        cases kvs with
        | nil =>
          cases h
          rfl
        | cons q kvs =>
          obtain ⟨k, x⟩ := q
          simp only [dumps] at h
          obtain ⟨t1, h1, h⟩ := bind_eq_ok.mp h
          obtain ⟨ts, hts, h⟩ := bind_eq_ok.mp h
          cases h
          simp only [Json.Distinct, Json.Clean, Json.all, nodeDistinct, nodeClean, Bool.and_eq_true,
            decide_eq_true_eq, List.all_eq_true] at hkeys hclean
          have htext : py "\x7b" ++ dumpsStr o k ++ o.keySeparator ++ t1 ++ ts ++ py "\x7d" ++ rest
              = chr '\x7b' ::
                (dumpsStr o k ++ (o.keySeparator ++ (t1 ++ (ts ++ chr '\x7d' :: rest)))) := by
            simp [py, ofChars]
          rw [htext] at hn ⊢
          have hpairs := ihp k x kvs t1 ts rest hkeys.2 hclean.2 hclean.1 h1 hts
            (by simp only [List.length_cons] at hn; omega)
          have hopen := (opens_dumpsStr o k).append
            (o.keySeparator ++ (t1 ++ (ts ++ chr '\x7d' :: rest)))
          unfold parseValue
          rw [if_neg (by decide), if_pos rfl, hopen.skipSpaces]
          obtain ⟨c, r, hcr, -, -, hc, -⟩ := hopen
          rw [hcr] at hpairs ⊢
          simp only [if_neg hc, hpairs, ok_bind]
          rw [dictOf_eq_self hkeys.1]
          rfl
    · intro x xs t ts rest hkeys hclean h hts hn
      simp only [Json.allItems, Bool.and_eq_true] at hkeys hclean
      have hvalue := ihv x t (ts ++ chr ']' :: rest) hkeys.1 hclean.1 h (boundary_items o hts rest)
        (by omega)
      unfold parseItems
      simp only [hvalue, ok_bind]
      cases xs with
      | nil =>
        cases hts
        rfl
      | cons y ys =>
        simp only [dumpsItems] at hts
        obtain ⟨t1, h1, hts⟩ := bind_eq_ok.mp hts
        obtain ⟨t2, h2, hts⟩ := bind_eq_ok.mp hts
        cases hts
        have hy : y.Clean := Json.allItems_iff.mp hclean.2 y List.mem_cons_self
        obtain ⟨r, hr, hskip⟩ := skipSpaces_itemSeparator o
          ((opens_dumps o hy h1).append (t2 ++ chr ']' :: rest))
        have htext : o.itemSeparator ++ t1 ++ t2 ++ chr ']' :: rest = chr ',' :: r := by
          rw [← hr]
          simp
        have hlen := length_pos_of_opens (opens_dumps o hclean.1 h)
        have hitems := ihi y ys t1 t2 rest hkeys.2 hclean.2 h1 h2 (by
          rw [htext] at hn
          have := congrArg List.length hr
          simp only [List.length_append, List.length_cons] at hn this ⊢
          have hsep : 1 ≤ o.itemSeparator.length := by
            unfold DumpOptions.itemSeparator
            split <;> decide
          omega)
        rw [htext, skipSpaces_cons (by decide)]
        simp only [if_true, hskip, hitems, ok_bind]
        rfl
    · intro k x kvs t ts rest hd hclean hkeys h hts hn
      simp only [Json.allPairs, Bool.and_eq_true] at hd hclean
      obtain ⟨hk, hkeys⟩ := List.forall_mem_cons.mp hkeys
      obtain ⟨r, hr, hskip⟩ := skipSpaces_keySeparator o
        ((opens_dumps o hclean.1 h).append (ts ++ chr '\x7d' :: rest))
      have hkey := length_pos_of_opens (opens_dumpsStr o k)
      have hlen := length_pos_of_opens (opens_dumps o hclean.1 h)
      have hvalue := ihv x t (ts ++ chr '\x7d' :: rest) hd.1 hclean.1 h (boundary_pairs o hts rest)
        (by simp only [List.length_append, List.length_cons] at hn ⊢; omega)
      rw [dumpsStr_eq]
      unfold parsePairs
      rw [if_pos rfl, scanString_dumpsStr o hk]
      simp only [ok_bind]
      rw [hr, skipSpaces_cons (by decide)]
      simp only [if_true, hskip, hvalue, ok_bind]
      cases kvs with
      | nil =>
        cases hts
        rfl
      | cons q kvs =>
        obtain ⟨k', y⟩ := q
        simp only [dumpsPairs] at hts
        obtain ⟨t1, h1, hts⟩ := bind_eq_ok.mp hts
        obtain ⟨t2, h2, hts⟩ := bind_eq_ok.mp hts
        cases hts
        obtain ⟨r', hr', hskip'⟩ := skipSpaces_itemSeparator o
          ((opens_dumpsStr o k').append (o.keySeparator ++ (t1 ++ (t2 ++ chr '\x7d' :: rest))))
        have htext : o.itemSeparator ++ dumpsStr o k' ++ o.keySeparator ++ t1 ++ t2 ++
            chr '\x7d' :: rest = chr ',' :: r' := by
          rw [← hr']
          simp
        have hpairs := ihp k' y kvs t1 t2 rest hd.2 hclean.2 hkeys h1 h2 (by
          rw [htext] at hn
          have := congrArg List.length hr'
          simp only [List.length_append, List.length_cons] at hn this ⊢
          have hsep : 1 ≤ o.itemSeparator.length := by
            unfold DumpOptions.itemSeparator
            split <;> decide
          omega)
        rw [htext, skipSpaces_cons (by decide)]
        simp only [if_true, hskip', hpairs, ok_bind]
        rfl

/-- A clean value with distinct keys comes back from its text, whichever options wrote it. -/
theorem loads_dumps {o : DumpOptions} {v : Json} (hkeys : v.Distinct) (hc : v.Clean) {t : Str}
    (h : dumps o v = .ok t) : loads t = .ok v := by
  have hopen := opens_dumps o hc h
  have hparse := (parse_dumps o (2 * t.length)).1 v t [] hkeys hc h (by simp [Boundary]) (by simp)
  rw [List.append_nil] at hparse
  unfold loads
  rw [if_neg, hopen.skipSpaces]
  · simp only [hparse, ok_bind]
    rfl
  · obtain ⟨c, r, rfl, -, -, -, hc⟩ := hopen
    intro hbom
    exact hc (Option.some.inj hbom)

/-! ## The strict writer -/

/-- A clean well-formed value can be written. -/
theorem dumps_isOk (o : DumpOptions) (n : Nat) :
    (∀ v : Json, sizeOf v ≤ n → v.WF → v.Clean → ∃ t, dumps o v = .ok t) ∧
    (∀ xs : List Json, sizeOf xs ≤ n → Json.allItems nodeWF xs = true →
      Json.allItems nodeClean xs = true → ∃ t, dumpsItems o xs = .ok t) ∧
    (∀ kvs : List (Str × Json), sizeOf kvs ≤ n → Json.allPairs nodeWF kvs = true →
      Json.allPairs nodeClean kvs = true → ∃ t, dumpsPairs o kvs = .ok t) := by
  induction n with
  | zero =>
    refine ⟨fun v hv => ?_, fun xs hxs => ?_, fun kvs hkvs => ?_⟩
    · cases v <;> simp at hv
    · cases xs <;> simp at hxs
    · cases kvs <;> simp at hkvs
  | succ n ih =>
    obtain ⟨ihv, ihi, ihp⟩ := ih
    refine ⟨?_, ?_, ?_⟩
    · intro v hsize hwf hclean
      cases v with
      | null => exact ⟨_, rfl⟩
      | bool b => exact ⟨_, rfl⟩
      | int i =>
        have hlen : ¬ maxStrDigits < (Nat.toDigits 10 i.natAbs).length := by
          simpa [Json.WF, Json.all, nodeWF] using hwf
        simp only [dumps, dumpsInt, if_neg hlen]
        exact ⟨_, rfl⟩
      | float x =>
        have hx : x.isFinite = true := hclean
        simp only [dumps, dumpsFloat, hx, if_true]
        exact ⟨_, rfl⟩
      | str s => exact ⟨_, rfl⟩
      | arr xs =>
        cases xs with
        | nil => exact ⟨_, rfl⟩
        | cons x xs =>
          simp only [Json.WF, Json.Clean, Json.all, Json.allItems, nodeWF, nodeClean, Bool.true_and,
            Bool.and_eq_true] at hwf hclean
          simp only [Json.arr.sizeOf_spec, List.cons.sizeOf_spec] at hsize
          obtain ⟨t, ht⟩ := ihv x (by omega) hwf.1 hclean.1
          obtain ⟨ts, hts⟩ := ihi xs (by omega) hwf.2 hclean.2
          exact ⟨_, by simp only [dumps, ht, hts, ok_bind]; rfl⟩
      | obj kvs =>
        cases kvs with
        | nil => exact ⟨_, rfl⟩
        | cons q kvs =>
          obtain ⟨k, x⟩ := q
          simp only [Json.WF, Json.Clean, Json.all, Json.allPairs, Bool.and_eq_true] at hwf hclean
          simp only [Json.obj.sizeOf_spec, List.cons.sizeOf_spec, Prod.mk.sizeOf_spec] at hsize
          obtain ⟨t, ht⟩ := ihv x (by omega) hwf.2.1 hclean.2.1
          obtain ⟨ts, hts⟩ := ihp kvs (by omega) hwf.2.2 hclean.2.2
          exact ⟨_, by simp only [dumps, ht, hts, ok_bind]; rfl⟩
    · intro xs hsize hwf hclean
      cases xs with
      | nil => exact ⟨_, rfl⟩
      | cons x xs =>
        simp only [Json.allItems, Bool.and_eq_true] at hwf hclean
        simp only [List.cons.sizeOf_spec] at hsize
        obtain ⟨t, ht⟩ := ihv x (by omega) hwf.1 hclean.1
        obtain ⟨ts, hts⟩ := ihi xs (by omega) hwf.2 hclean.2
        exact ⟨_, by simp only [dumpsItems, ht, hts, ok_bind]; rfl⟩
    · intro kvs hsize hwf hclean
      cases kvs with
      | nil => exact ⟨_, rfl⟩
      | cons q kvs =>
        obtain ⟨k, x⟩ := q
        simp only [Json.allPairs, Bool.and_eq_true] at hwf hclean
        simp only [List.cons.sizeOf_spec, Prod.mk.sizeOf_spec] at hsize
        obtain ⟨t, ht⟩ := ihv x (by omega) hwf.1 hclean.1
        obtain ⟨ts, hts⟩ := ihp kvs (by omega) hwf.2 hclean.2
        exact ⟨_, by simp only [dumpsPairs, ht, hts, ok_bind]; rfl⟩

/-- A clean value is written. -/
theorem exists_dumps (o : DumpOptions) {v : Json} (hwf : v.WF) (hc : v.Clean) :
    ∃ t, dumps o v = .ok t := (dumps_isOk o (sizeOf v)).1 v (Nat.le_refl _) hwf hc

theorem isSurrogate_ofChar (c : Char) : isSurrogate (CodePoint.ofChar c) = false := by
  have h := c.valid
  have hval : (CodePoint.ofChar c).val = c.val.toNat := rfl
  rw [isSurrogate, hval, Bool.and_eq_false_iff, decide_eq_false_iff_not, decide_eq_false_iff_not]
  rcases h with h | ⟨h, -⟩
  · have : c.val.toNat < 0xD800 := h
    omega
  · have : 0xDFFF < c.val.toNat := h
    omega

theorem encodable_ofChars (cs : List Char) : (ofChars cs).Encodable := by
  intro c hc
  obtain ⟨d, -, rfl⟩ := List.mem_map.mp hc
  exact isSurrogate_ofChar d

theorem encodable_py (s : String) : (py s).Encodable := encodable_ofChars _

theorem encodable_itemSeparator (o : DumpOptions) : Str.Encodable o.itemSeparator := by
  unfold DumpOptions.itemSeparator
  split <;> exact encodable_py _

theorem encodable_keySeparator (o : DumpOptions) : Str.Encodable o.keySeparator := by
  unfold DumpOptions.keySeparator
  split <;> exact encodable_py _

/-- Only a surrogate that is written as itself keeps its literal from being encoded. -/
theorem encodable_escapeChar (a : Bool) (c : CodePoint) :
    Str.Encodable (escapeChar a c) ↔ (a = false → isSurrogate c = false) := by
  have hu : ∀ n, Str.Encodable (unicodeEscape n) := fun n => encodable_ofChars _
  have hlow : c.val < 0x80 → isSurrogate c = false := by
    intro h
    rw [isSurrogate, Bool.and_eq_false_iff, decide_eq_false_iff_not]
    omega
  have hchr : ∀ d : Char, c = chr d → isSurrogate c = false := by
    rintro d rfl
    exact isSurrogate_ofChar d
  unfold escapeChar
  split
  · next h => exact iff_of_true (encodable_py _) fun _ => hchr _ h
  · split
    · next h => exact iff_of_true (encodable_py _) fun _ => hchr _ h
    · split
      · next h => exact iff_of_true (encodable_py _) fun _ => hchr _ h
      · split
        · next h => exact iff_of_true (encodable_py _) fun _ => hchr _ h
        · split
          · next h => exact iff_of_true (encodable_py _) fun _ => hchr _ h
          · split
            · next h => exact iff_of_true (encodable_py _) fun _ => hlow (by omega)
            · split
              · next h => exact iff_of_true (encodable_py _) fun _ => hlow (by omega)
              · split
                · next h => exact iff_of_true (hu _) fun _ => hlow (by omega)
                · split
                  · next h =>
                    refine iff_of_true ?_ fun ha => ?_
                    · split
                      · exact hu _
                      · exact Str.Encodable.append.mpr ⟨hu _, hu _⟩
                    · rw [ha] at h
                      exact Bool.noConfusion h.1
                  · next h =>
                    have hself : Str.Encodable [c] ↔ isSurrogate c = false := by
                      simp [Str.Encodable]
                    rw [hself]
                    cases a with
                    | false => simp
                    | true => exact iff_of_true (hlow (by simp at h; omega)) (by simp)

/-- A string is written encodable if it is, or in ASCII. -/
theorem encodable_dumpsStr {o : DumpOptions} {t : Str} :
    Str.Encodable (dumpsStr o t) ↔ (o.ensureAscii = false → t.Encodable) := by
  have hflat : Str.Encodable (t.flatMap (escapeChar o.ensureAscii)) ↔
      (o.ensureAscii = false → t.Encodable) := by
    induction t with
    | nil => simp [Str.Encodable]
    | cons c t ih =>
      rw [List.flatMap_cons, Str.Encodable.append, encodable_escapeChar, ih, Str.encodable_cons]
      exact ⟨fun h ha => ⟨h.1 ha, h.2 ha⟩, fun h => ⟨fun ha => (h ha).1, fun ha => (h ha).2⟩⟩
  rw [dumpsStr, Str.Encodable.append, Str.Encodable.append, hflat]
  exact ⟨fun h => h.1.2, fun h => ⟨⟨encodable_py _, h⟩, encodable_py _⟩⟩

/-- The text of the strict writer can be encoded exactly when the value is clean. -/
theorem strict_dumps (o : DumpOptions) (ho : o.ensureAscii = false ∧ o.allowNan = false) (n : Nat) :
    (∀ (v : Json) t, sizeOf v ≤ n → dumps o v = .ok t → (t.Encodable ↔ v.Clean)) ∧
    (∀ (xs : List Json) t, sizeOf xs ≤ n → dumpsItems o xs = .ok t →
      (t.Encodable ↔ Json.allItems nodeClean xs = true)) ∧
    (∀ (kvs : List (Str × Json)) t, sizeOf kvs ≤ n → dumpsPairs o kvs = .ok t →
      (t.Encodable ↔ (∀ q ∈ kvs, q.1.Encodable) ∧ Json.allPairs nodeClean kvs = true)) := by
  have hstr : ∀ s, Str.Encodable (dumpsStr o s) ↔ s.Encodable := by
    intro s
    rw [encodable_dumpsStr]
    exact ⟨fun h => h ho.1, fun h _ => h⟩
  induction n with
  | zero =>
    refine ⟨fun v t hv => ?_, fun xs t hxs => ?_, fun kvs t hkvs => ?_⟩
    · cases v <;> simp at hv
    · cases xs <;> simp at hxs
    · cases kvs <;> simp at hkvs
  | succ n ih =>
    obtain ⟨ihv, ihi, ihp⟩ := ih
    refine ⟨?_, ?_, ?_⟩
    · intro v t hsize h
      cases v with
      | null => cases h; exact iff_of_true (encodable_py _) rfl
      | bool b => cases h; exact iff_of_true (by split <;> exact encodable_py _) rfl
      | int i =>
        simp only [dumps] at h
        rw [(dumpsInt_eq h).1]
        exact iff_of_true (encodable_ofChars _) rfl
      | float x =>
        simp only [dumps] at h
        cases hx : x.isFinite with
        | true =>
          rw [(dumpsFloat_eq hx h).1]
          exact iff_of_true (encodable_ofChars _) hx
        | false =>
          simp only [dumpsFloat, hx, ho.2, Bool.false_eq_true, if_false] at h
          cases h
      | str s =>
        cases h
        rw [hstr, Json.clean_str]
      | arr xs =>
        cases xs with
        | nil => cases h; exact iff_of_true (encodable_py _) rfl
        | cons x xs =>
          simp only [dumps] at h
          obtain ⟨t1, h1, h⟩ := bind_eq_ok.mp h
          obtain ⟨t2, h2, h⟩ := bind_eq_ok.mp h
          cases h
          simp only [Json.arr.sizeOf_spec, List.cons.sizeOf_spec] at hsize
          simp only [Str.Encodable.append, ihv x t1 (by omega) h1, ihi xs t2 (by omega) h2,
            encodable_py, true_and, and_true]
          simp [Json.Clean, Json.all, Json.allItems, nodeClean]
      | obj kvs =>
        cases kvs with
        | nil => cases h; exact iff_of_true (encodable_py _) rfl
        | cons q kvs =>
          obtain ⟨k, x⟩ := q
          simp only [dumps] at h
          obtain ⟨t1, h1, h⟩ := bind_eq_ok.mp h
          obtain ⟨t2, h2, h⟩ := bind_eq_ok.mp h
          cases h
          simp only [Json.obj.sizeOf_spec, List.cons.sizeOf_spec, Prod.mk.sizeOf_spec] at hsize
          simp only [Str.Encodable.append, ihv x t1 (by omega) h1, ihp kvs t2 (by omega) h2, hstr,
            encodable_py, encodable_keySeparator, true_and, and_true]
          simp only [Json.Clean, Json.all, Json.allPairs, nodeClean, Bool.and_eq_true,
            List.all_eq_true, List.forall_mem_cons, decide_eq_true_eq]
          exact ⟨fun ⟨⟨h1, h2⟩, h3, h4⟩ => ⟨⟨h1, h3⟩, h2, h4⟩,
            fun ⟨⟨h1, h3⟩, h2, h4⟩ => ⟨⟨h1, h2⟩, h3, h4⟩⟩
    · intro xs t hsize h
      cases xs with
      | nil => cases h; exact iff_of_true (encodable_py "") rfl
      | cons x xs =>
        simp only [dumpsItems] at h
        obtain ⟨t1, h1, h⟩ := bind_eq_ok.mp h
        obtain ⟨t2, h2, h⟩ := bind_eq_ok.mp h
        cases h
        simp only [List.cons.sizeOf_spec] at hsize
        simp only [Str.Encodable.append, ihv x t1 (by omega) h1, ihi xs t2 (by omega) h2,
          encodable_itemSeparator, true_and]
        simp [Json.Clean, Json.allItems]
    · intro kvs t hsize h
      cases kvs with
      | nil => cases h; exact iff_of_true (encodable_py "") ⟨by simp, rfl⟩
      | cons q kvs =>
        obtain ⟨k, x⟩ := q
        simp only [dumpsPairs] at h
        obtain ⟨t1, h1, h⟩ := bind_eq_ok.mp h
        obtain ⟨t2, h2, h⟩ := bind_eq_ok.mp h
        cases h
        simp only [List.cons.sizeOf_spec, Prod.mk.sizeOf_spec] at hsize
        simp only [Str.Encodable.append, ihv x t1 (by omega) h1, ihp kvs t2 (by omega) h2, hstr,
          encodable_itemSeparator, encodable_keySeparator, true_and, and_true]
        simp only [Json.Clean, Json.allPairs, Bool.and_eq_true, List.forall_mem_cons]
        exact ⟨fun ⟨⟨h1, h2⟩, h3, h4⟩ => ⟨⟨h1, h3⟩, h2, h4⟩,
          fun ⟨⟨h1, h3⟩, h2, h4⟩ => ⟨⟨h1, h2⟩, h3, h4⟩⟩

/-- The text is encodable exactly for a clean value. -/
theorem encodable_iff_clean {o : DumpOptions} (ho : o.ensureAscii = false ∧ o.allowNan = false)
    {v : Json} {t : Str} (h : dumps o v = .ok t) : t.Encodable ↔ v.Clean :=
  (strict_dumps o ho (sizeOf v)).1 v t (Nat.le_refl _) h

end Nio.Py
