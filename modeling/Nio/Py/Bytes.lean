import Nio.Py.Text

/-!
# Bytes

Python `bytes`, integers as bytes, and the text that `json.loads` makes of bytes.

* `fromBytes_toBytes` — an integer that fits comes back from its bytes
* `jsonText_ascii` — ASCII text is read as it is
-/

namespace Nio.Py

abbrev Bytes := List UInt8

/-- The bytes as numbers -/
def Bytes.codes (b : Bytes) : List Nat := b.map UInt8.toNat

/-! ## Integers -/

/-- `int.to_bytes(n, length, "big")` of an integer that fits -/
def toBytes (n : Nat) : Nat → Bytes
  | 0 => []
  | length + 1 => toBytes (n / 256) length ++ [UInt8.ofNat n]

/-- `int.from_bytes(b, "big")` -/
def fromBytes (b : Bytes) : Nat := b.foldl (fun n x => n * 256 + x.toNat) 0

@[simp] theorem length_toBytes (n length : Nat) : (toBytes n length).length = length := by
  induction length generalizing n with
  | zero => rfl
  | succ length ih => simp [toBytes, ih]

/-- The last byte is the lowest one. -/
theorem fromBytes_concat (b : Bytes) (x : UInt8) :
    fromBytes (b ++ [x]) = fromBytes b * 256 + x.toNat := by
  unfold fromBytes
  rw [List.foldl_append]
  rfl

/-- A number that fits is read back from its bytes. -/
theorem fromBytes_toBytes {n length : Nat} (h : n < 256 ^ length) :
    fromBytes (toBytes n length) = n := by
  induction length generalizing n with
  | zero =>
    have hzero : n = 0 := by simpa using h
    rw [hzero]
    rfl
  | succ length ih =>
    have hdiv : n / 256 < 256 ^ length := by
      rw [Nat.pow_succ] at h
      exact Nat.div_lt_of_lt_mul (by rw [Nat.mul_comm]; exact h)
    rw [toBytes, fromBytes_concat, ih hdiv, UInt8.toNat_ofNat']
    omega

/-! ## Decoding -/

/-- `b.decode("utf-8", "surrogatepass")` -/
def decodeUtf8 : List Nat → Option Str
  | [] => some []
  | b0 :: rest =>
    if b0 < 0x80 then do return (← codePoint b0) :: (← decodeUtf8 rest)
    else match rest with
      | [] => none
      | b1 :: rest =>
        if isContinuation b1 = false then none
        else if 0xC2 ≤ b0 ∧ b0 < 0xE0 then do
          return (← codePoint ((b0 - 0xC0) * 64 + (b1 - 0x80))) :: (← decodeUtf8 rest)
        else match rest with
          | [] => none
          | b2 :: rest =>
            if isContinuation b2 = false then none
            else if 0xE0 ≤ b0 ∧ b0 < 0xF0 then
              let v := (b0 - 0xE0) * 4096 + (b1 - 0x80) * 64 + (b2 - 0x80)
              if v < 0x800 then none
              else do return (← codePoint v) :: (← decodeUtf8 rest)
            else match rest with
              | [] => none
              | b3 :: rest =>
                if isContinuation b3 = false then none
                else if 0xF0 ≤ b0 ∧ b0 < 0xF5 then
                  let v := (b0 - 0xF0) * 262144 + (b1 - 0x80) * 4096 + (b2 - 0x80) * 64 + (b3 - 0x80)
                  if v < 0x10000 then none
                  else do return (← codePoint v) :: (← decodeUtf8 rest)
                else none

/-- The 16-bit units of the bytes -/
def units16 (big : Bool) : List Nat → Option (List Nat)
  | [] => some []
  | [_] => none
  | a :: b :: rest => do
    let unit := if big then a * 256 + b else b * 256 + a
    return unit :: (← units16 big rest)

/-- Pairs of surrogates are joined, and other surrogates pass. -/
def joinUnits : List Nat → Option Str
  | [] => some []
  | [u] => do return [← codePoint u]
  | u :: w :: rest =>
    if 0xD800 ≤ u ∧ u < 0xDC00 ∧ 0xDC00 ≤ w ∧ w < 0xE000 then do
      return (← codePoint (0x10000 + (u - 0xD800) * 1024 + (w - 0xDC00))) :: (← joinUnits rest)
    else do return (← codePoint u) :: (← joinUnits (w :: rest))

/-- `b.decode("utf-16-be", "surrogatepass")` or `"utf-16-le"` -/
def decodeUtf16 (big : Bool) (b : List Nat) : Option Str := (units16 big b).bind joinUnits

/-- `b.decode("utf-32-be", "surrogatepass")` or `"utf-32-le"` -/
def decodeUtf32 (big : Bool) : List Nat → Option Str
  | [] => some []
  | a :: b :: c :: d :: rest => do
    let v := if big then ((a * 256 + b) * 256 + c) * 256 + d else ((d * 256 + c) * 256 + b) * 256 + a
    return (← codePoint v) :: (← decodeUtf32 big rest)
  | _ => none

/-- `b.decode(json.detect_encoding(b), "surrogatepass")` -/
def jsonText (b : Bytes) : Option Str :=
  match b.codes with
  | 0x00 :: 0x00 :: 0xFE :: 0xFF :: rest => decodeUtf32 true rest
  | 0xFF :: 0xFE :: 0x00 :: 0x00 :: rest => decodeUtf32 false rest
  | 0xFE :: 0xFF :: rest => decodeUtf16 true rest
  | 0xFF :: 0xFE :: rest => decodeUtf16 false rest
  | 0xEF :: 0xBB :: 0xBF :: rest => decodeUtf8 rest
  | a :: b :: c :: d :: rest =>
    let codes := a :: b :: c :: d :: rest
    if a = 0 then if b = 0 then decodeUtf32 true codes else decodeUtf16 true codes
    else if b = 0 then
      if c = 0 ∧ d = 0 then decodeUtf32 false codes else decodeUtf16 false codes
    else decodeUtf8 codes
  | [a, b] =>
    if a = 0 then decodeUtf16 true [a, b]
    else if b = 0 then decodeUtf16 false [a, b]
    else decodeUtf8 [a, b]
  | codes => decodeUtf8 codes

/-! ### ASCII -/

/-- ASCII text without the null character -/
def Str.Ascii (s : Str) : Prop := ∀ c ∈ s, 0 < c.val ∧ c.val < 0x80

theorem Str.ascii_of_all {s : Str}
    (h : s.all (fun c => decide (0 < c.val ∧ c.val < 0x80)) = true) : s.Ascii :=
  fun c hc => of_decide_eq_true (List.all_eq_true.mp h c hc)

theorem Str.Ascii.append {s t : Str} (hs : s.Ascii) (ht : t.Ascii) : Str.Ascii (s ++ t) := by
  intro c hc
  exact (List.mem_append.mp hc).elim (hs c) (ht c)

/-- `s.encode()` of ASCII text -/
def asciiBytes (s : Str) : Bytes := s.map fun c => UInt8.ofNat c.val

/-- The bytes of an ASCII string are its code points. -/
theorem codes_asciiBytes {s : Str} (h : s.Ascii) : (asciiBytes s).codes = s.map Fin.val := by
  unfold asciiBytes Bytes.codes
  rw [List.map_map]
  refine List.map_congr_left fun c hc => ?_
  have := h c hc
  change (UInt8.ofNat c.val).toNat = c.val
  rw [UInt8.toNat_ofNat']
  omega

/-- UTF-8 encodes them so. -/
theorem encode_ascii {s : Str} (h : s.Ascii) : s.encode = .ok (s.map Fin.val) := by
  induction s with
  | nil => rfl
  | cons c s ih =>
    have hc := h c List.mem_cons_self
    have hsur : isSurrogate c = false := by
      unfold isSurrogate
      rw [Bool.and_eq_false_iff, decide_eq_false_iff_not]
      left
      omega
    have hbytes : utf8Bytes c = [c.val] := by
      unfold utf8Bytes
      rw [if_pos hc.2]
    rw [Str.encode, hsur, ih fun d hd => h d (List.mem_cons_of_mem _ hd), hbytes]
    rfl

/-- UTF-8 reads them back. -/
theorem decodeUtf8_ascii {s : Str} (h : s.Ascii) : decodeUtf8 (s.map Fin.val) = some s := by
  induction s with
  | nil => rfl
  | cons c s ih =>
    rw [List.map_cons, decodeUtf8.eq_def]
    simp only [if_pos (h c List.mem_cons_self).2, codePoint_val,
      ih fun d hd => h d (List.mem_cons_of_mem _ hd)]
    rfl

/-- So does the detection of an encoding. -/
theorem jsonText_ascii {s : Str} (h : s.Ascii) : jsonText (asciiBytes s) = some s := by
  have hcodes := codes_asciiBytes h
  have hdecode := decodeUtf8_ascii h
  have hsmall : ∀ n ∈ s.map Fin.val, 0 < n ∧ n < 0x80 := by
    intro n hn
    obtain ⟨c, hc, rfl⟩ := List.mem_map.mp hn
    exact h c hc
  unfold jsonText
  rw [hcodes]
  generalize s.map Fin.val = codes at hsmall hdecode
  split
  · exact absurd (hsmall 0 (by simp)).1 (by omega)
  · exact absurd (hsmall 0xFF (by simp)).2 (by omega)
  · exact absurd (hsmall 0xFE (by simp)).2 (by omega)
  · exact absurd (hsmall 0xFF (by simp)).2 (by omega)
  · exact absurd (hsmall 0xEF (by simp)).2 (by omega)
  · next a b c d rest _ _ _ _ _ =>
    have ha := (hsmall a (by simp)).1
    have hb := (hsmall b (by simp)).1
    dsimp only
    rw [if_neg (by omega), if_neg (by omega)]
    exact hdecode
  · next a b _ _ =>
    have ha := (hsmall a (by simp)).1
    have hb := (hsmall b (by simp)).1
    rw [if_neg (by omega), if_neg (by omega)]
    exact hdecode
  · exact hdecode

end Nio.Py
