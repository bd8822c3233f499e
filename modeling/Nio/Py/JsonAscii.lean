import Nio.Py.Bytes
import Nio.Py.JsonRoundtrip

/-!
# The text of the default writer

With `ensure_ascii` the text of a value has no character beyond ASCII, so that its bytes are its
characters.

* `ascii_dumps` — what the writer wrote is ASCII
* `loads_default` — the bytes of the text are read as the value
-/

namespace Nio.Py

/-! ## Characters -/

theorem ascii_ofChars {cs : List Char} (h : ∀ c ∈ cs, 0 < c.toNat ∧ c.toNat < 0x80) :
    Str.Ascii (ofChars cs) := by
  intro c hc
  obtain ⟨d, hd, rfl⟩ := List.mem_map.mp hc
  exact h d hd

theorem ascii_digit {c : Char} (h : c.isDigit = true) : 0 < c.toNat ∧ c.toNat < 0x80 := by
  have hdigit : 48 ≤ c.toNat ∧ c.toNat ≤ 57 := Char.isDigit_iff_toNat.mp h
  omega

theorem ascii_hexDigit (n : Nat) : 0 < (hexDigit n).toNat ∧ (hexDigit n).toNat < 0x80 := by
  have hall : ∀ k < 16, 0 < (Nat.digitChar k).toNat ∧ (Nat.digitChar k).toNat < 0x80 := by decide
  exact hall (n % 16) (Nat.mod_lt n (by omega))

/-- An escaped code point is written in ASCII. -/
theorem ascii_unicodeEscape (n : Nat) : Str.Ascii (unicodeEscape n) := by
  refine ascii_ofChars fun c hc => ?_
  simp only [List.mem_cons, List.not_mem_nil, or_false] at hc
  rcases hc with rfl | rfl | rfl | rfl | rfl | rfl
  · decide
  · decide
  all_goals exact ascii_hexDigit _

/-- So is every code point when `ensure_ascii` is set, -/
theorem ascii_escapeChar (c : CodePoint) : Str.Ascii (escapeChar true c) := by
  have hascii : ∀ s : String, (py s).all (fun c => decide (0 < c.val ∧ c.val < 0x80)) = true →
      Str.Ascii (py s) := fun s h => Str.ascii_of_all h
  unfold escapeChar
  repeat' split
  all_goals first
    | exact hascii _ (by decide)
    | exact ascii_unicodeEscape _
    | exact (ascii_unicodeEscape _).append (ascii_unicodeEscape _)
    | skip
  next hcontrol hhigh =>
    intro d hd
    rw [List.mem_singleton.mp hd]
    simp only [true_and] at hhigh
    omega

/-- and with it every string. -/
theorem ascii_dumpsStr {o : DumpOptions} (ho : o.ensureAscii = true) (s : Str) :
    Str.Ascii (dumpsStr o s) := by
  have hquote : Str.Ascii (py "\"") := Str.ascii_of_all (by decide)
  have hbody : Str.Ascii (s.flatMap (escapeChar o.ensureAscii)) := by
    intro c hc
    obtain ⟨d, -, hd⟩ := List.mem_flatMap.mp hc
    rw [ho] at hd
    exact ascii_escapeChar d c hd
  exact (hquote.append hbody).append hquote

/-! ## Numbers -/

theorem ascii_chars {d : Decimal} (hd : d.Lexes) : Str.Ascii (ofChars d.chars) := by
  refine ascii_ofChars fun c hc => ?_
  unfold Decimal.chars at hc
  rcases List.mem_append.mp hc with hc | hc
  · rcases List.mem_append.mp hc with hc | hc
    · rcases List.mem_append.mp hc with hc | hc
      · split at hc
        · rw [List.mem_singleton.mp hc]
          decide
        · cases hc
      · exact ascii_digit (hd.intPart.2 c hc)
    · cases hfrac : d.frac with
      | none => simp [hfrac, Decimal.fracChars] at hc
      | some ds =>
        rw [hfrac, Decimal.fracChars] at hc
        rcases List.mem_cons.mp hc with rfl | hc
        · decide
        · exact ascii_digit ((hd.frac ds hfrac).2 c hc)
  · cases hexp : d.exp with
    | none => simp [hexp, Decimal.expChars] at hc
    | some e =>
      obtain ⟨neg, ds⟩ := e
      rw [hexp, Decimal.expChars] at hc
      rcases List.mem_cons.mp hc with rfl | hc
      · decide
      · rcases List.mem_cons.mp hc with rfl | hc
        · cases neg <;> decide
        · exact ascii_digit ((hd.exp neg ds hexp).2 c hc)

/-- A number is written in ASCII under every option. -/
theorem ascii_dumpsFloat {o : DumpOptions} {x : PyFloat} {t : Str} (h : dumpsFloat o x = .ok t) :
    t.Ascii := by
  cases hx : x.isFinite with
  | true =>
    rw [(dumpsFloat_eq hx h).1]
    exact ascii_chars (wf_repr x).toLexes
  | false =>
    simp only [dumpsFloat, hx, Bool.false_eq_true, if_false] at h
    split at h
    · cases h
      split <;> exact Str.ascii_of_all (by decide)
    · cases h

/-! ## Values -/

theorem ascii_itemSeparator (o : DumpOptions) : Str.Ascii o.itemSeparator := by
  unfold DumpOptions.itemSeparator
  split <;> exact Str.ascii_of_all (by decide)

theorem ascii_keySeparator (o : DumpOptions) : Str.Ascii o.keySeparator := by
  unfold DumpOptions.keySeparator
  split <;> exact Str.ascii_of_all (by decide)

mutual

/-- What the writer wrote is ASCII. -/
theorem ascii_dumps {o : DumpOptions} (ho : o.ensureAscii = true) :
    ∀ (v : Json) {t : Str}, dumps o v = .ok t → t.Ascii
  | .null, t, h => by
    cases h
    exact Str.ascii_of_all (by decide)
  | .bool b, t, h => by
    cases h
    split <;> exact Str.ascii_of_all (by decide)
  | .int i, t, h => by
    rw [dumps] at h
    rw [(dumpsInt_eq h).1]
    exact ascii_chars (lexes_intLiteral i)
  | .float x, t, h => by
    rw [dumps] at h
    exact ascii_dumpsFloat h
  | .str s, t, h => by
    cases h
    exact ascii_dumpsStr ho s
  | .arr [], t, h => by
    cases h
    exact Str.ascii_of_all (by decide)
  | .arr (x :: xs), t, h => by
    rw [dumps] at h
    obtain ⟨t1, h1, h⟩ := bind_eq_ok.mp h
    obtain ⟨t2, h2, h⟩ := bind_eq_ok.mp h
    cases h
    have hopen : Str.Ascii (py "[") := Str.ascii_of_all (by decide)
    have hclose : Str.Ascii (py "]") := Str.ascii_of_all (by decide)
    exact ((hopen.append (ascii_dumps ho x h1)).append (ascii_dumpsItems ho xs h2)).append hclose
  | .obj [], t, h => by
    cases h
    exact Str.ascii_of_all (by decide)
  | .obj ((k, x) :: kvs), t, h => by
    rw [dumps] at h
    obtain ⟨t1, h1, h⟩ := bind_eq_ok.mp h
    obtain ⟨t2, h2, h⟩ := bind_eq_ok.mp h
    cases h
    have hopen : Str.Ascii (py "\x7b") := Str.ascii_of_all (by decide)
    have hclose : Str.Ascii (py "\x7d") := Str.ascii_of_all (by decide)
    exact ((((hopen.append (ascii_dumpsStr ho k)).append (ascii_keySeparator o)).append
      (ascii_dumps ho x h1)).append (ascii_dumpsPairs ho kvs h2)).append hclose

/-- The items of an array are written in ASCII, -/
theorem ascii_dumpsItems {o : DumpOptions} (ho : o.ensureAscii = true) :
    ∀ (xs : List Json) {t : Str}, dumpsItems o xs = .ok t → t.Ascii
  | [], t, h => by
    cases h
    exact fun c hc => nomatch hc
  | x :: xs, t, h => by
    rw [dumpsItems] at h
    obtain ⟨t1, h1, h⟩ := bind_eq_ok.mp h
    obtain ⟨t2, h2, h⟩ := bind_eq_ok.mp h
    cases h
    exact ((ascii_itemSeparator o).append (ascii_dumps ho x h1)).append
      (ascii_dumpsItems ho xs h2)

/-- and so are the members of an object. -/
theorem ascii_dumpsPairs {o : DumpOptions} (ho : o.ensureAscii = true) :
    ∀ (kvs : List (Str × Json)) {t : Str}, dumpsPairs o kvs = .ok t → t.Ascii
  | [], t, h => by
    cases h
    exact fun c hc => nomatch hc
  | (k, x) :: kvs, t, h => by
    rw [dumpsPairs] at h
    obtain ⟨t1, h1, h⟩ := bind_eq_ok.mp h
    obtain ⟨t2, h2, h⟩ := bind_eq_ok.mp h
    cases h
    exact ((((ascii_itemSeparator o).append (ascii_dumpsStr ho k)).append
      (ascii_keySeparator o)).append (ascii_dumps ho x h1)).append (ascii_dumpsPairs ho kvs h2)

end

/-- The bytes of the text are read as the value. -/
theorem loads_default {v : Json} (hkeys : v.Distinct) (hc : v.Clean) {t : Str}
    (h : dumps .default v = .ok t) :
    jsonText (asciiBytes t) = some t ∧ loads t = .ok v :=
  ⟨jsonText_ascii (ascii_dumps rfl v h), loads_dumps hkeys hc h⟩

end Nio.Py
