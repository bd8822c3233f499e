import Mathlib.Algebra.Group.Nat.Defs
import Mathlib.Data.List.Basic
import Mathlib.Data.List.Infix
import Mathlib.Data.List.Lex
import Mathlib.Data.List.Sort
import Mathlib.Order.Fin.Basic

/-!
# Python strings

A Python `str` is a sequence of code points that, unlike a sequence of `Char`, may hold
surrogates. The JSON reader produces such strings, and only the UTF-8 encoder refuses them, so
the difference is observable.

* `py` — a literal as a Python string
* `Str.encode` — `str.encode()`, which fails on the first surrogate
-/

namespace Nio.Py

/-- A Unicode code point, surrogates included. -/
abbrev CodePoint := Fin 0x110000

/-- A Python `str`. -/
abbrev Str := List CodePoint

instance neZeroCodePoint : @NeZero Nat Zero.ofOfNat0 0x110000 := ⟨by decide⟩

instance lawfulBEqCodePoint : LawfulBEq CodePoint := inferInstance

instance lawfulBEqStr : LawfulBEq Str := inferInstance

instance lawfulBEqOptionStr : LawfulBEq (Option Str) := inferInstance

instance lawfulBEqPairStr : LawfulBEq (Str × Str) := inferInstance

/-- The exceptions of the standard library's codecs, all of them a Python `ValueError`. -/
inductive ValueError where
  /-- `json.JSONDecodeError` -/
  | jsonDecode
  /-- `json.dumps(..., allow_nan=False)` met a float that is not finite. -/
  | outOfRange
  /-- An integer has more digits than the interpreter converts. -/
  | intDigits
  /-- `UnicodeEncodeError` -/
  | unicodeEncode
  deriving DecidableEq, Repr

def CodePoint.ofChar (c : Char) : CodePoint :=
  ⟨c.toNat, by
    have h := c.valid
    rw [Char.toNat]
    rcases h with h | ⟨_, h⟩
    · have : c.val.toNat < 0xD800 := h
      omega
    · exact h⟩

abbrev chr (c : Char) : CodePoint := CodePoint.ofChar c

theorem CodePoint.ofChar_inj {c d : Char} : CodePoint.ofChar c = CodePoint.ofChar d ↔ c = d := by
  simp only [CodePoint.ofChar, Fin.mk.injEq]
  exact ⟨fun h => Char.toNat_inj.mp h, fun h => by rw [h]⟩

/-- A list of characters as a Python string. -/
def ofChars (cs : List Char) : Str := cs.map CodePoint.ofChar

/-- A string literal as a Python string. -/
def py (s : String) : Str := ofChars s.toList

def isSurrogate (c : CodePoint) : Bool := 0xD800 ≤ c.val && c.val ≤ 0xDFFF

/-- No unpaired surrogate occurs, which is what `str.encode` needs. -/
def Str.Encodable (s : Str) : Prop := ∀ c ∈ s, isSurrogate c = false

instance (s : Str) : Decidable s.Encodable := List.decidableBAll (fun c => isSurrogate c = false) s

/-! ## UTF-8 -/

/-- The UTF-8 bytes of one code point. -/
def utf8Bytes (c : CodePoint) : List Nat :=
  if c.val < 0x80 then [c.val]
  else if c.val < 0x800 then [0xC0 + c.val / 64, 0x80 + c.val % 64]
  else if c.val < 0x10000 then
    [0xE0 + c.val / 4096, 0x80 + c.val / 64 % 64, 0x80 + c.val % 64]
  else
    [0xF0 + c.val / 262144, 0x80 + c.val / 4096 % 64, 0x80 + c.val / 64 % 64, 0x80 + c.val % 64]

/-- `str.encode()` -/
def Str.encode : Str → Except ValueError (List Nat)
  | [] => .ok []
  | c :: rest =>
    if isSurrogate c then .error .unicodeEncode
    else do return utf8Bytes c ++ (← Str.encode rest)

/-- Encoding succeeds exactly on the strings without a surrogate. -/
theorem Str.encode_isOk_iff (s : Str) : (∃ b, s.encode = .ok b) ↔ s.Encodable := by
  induction s with
  | nil => simp [Str.encode, Str.Encodable]
  | cons c rest ih =>
    cases hc : isSurrogate c with
    | true =>
      simp only [Str.encode, hc, if_true, reduceCtorEq, exists_false, false_iff]
      intro h
      have := h c List.mem_cons_self
      rw [hc] at this
      exact Bool.noConfusion this
    | false =>
      simp only [Str.encode, hc, Bool.false_eq_true, if_false]
      constructor
      · rintro ⟨b, hb⟩
        have hrest : Str.Encodable rest := by
          rw [← ih]
          cases h : Str.encode rest with
          | error e => rw [h] at hb; cases hb
          | ok b' => exact ⟨b', rfl⟩
        intro d hd
        rcases List.mem_cons.mp hd with rfl | hd
        · exact hc
        · exact hrest d hd
      · intro h
        obtain ⟨b, hb⟩ := ih.mpr fun d hd => h d (List.mem_cons_of_mem _ hd)
        exact ⟨_, by rw [hb]; rfl⟩

theorem Str.Encodable.append {s t : Str} : Str.Encodable (s ++ t) ↔ s.Encodable ∧ t.Encodable := by
  simp only [Str.Encodable, List.mem_append]
  exact ⟨fun h => ⟨fun c hc => h c (Or.inl hc), fun c hc => h c (Or.inr hc)⟩,
    fun h c hc => hc.elim (h.1 c) (h.2 c)⟩

theorem Str.encodable_cons {c : CodePoint} {s : Str} :
    Str.Encodable (c :: s) ↔ isSurrogate c = false ∧ s.Encodable := by
  simp [Str.Encodable]

end Nio.Py
