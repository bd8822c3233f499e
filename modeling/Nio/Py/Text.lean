import Nio.Py.Str
import Mathlib.Data.List.DropRight

/-!
# Text files

What `open` gives for a file of UTF-8 text, and the methods of `str` that take a line apart.

* `Str.decode_encode` — the decoder reads what the encoder wrote
* `lines_universal` — where empty lines do not count, `\r` ends a line as `\n` does
* `Str.strip_eq_self_iff` — a string without white space at its ends is left alone
-/

namespace Nio.Py

/-! ## UTF-8 -/

def codePoint (n : Nat) : Option CodePoint := if h : n < 0x110000 then some ⟨n, h⟩ else none

theorem codePoint_val (c : CodePoint) : codePoint c.val = some c := dif_pos c.isLt

/-- A byte that continues a character. -/
def isContinuation (b : Nat) : Bool := 0x80 ≤ b && b < 0xC0

/-- `bytes.decode`, which is strict: no surrogate, and each character in its shortest form. -/
def Str.decode : List Nat → Option Str
  | [] => some []
  | b0 :: rest =>
    if b0 < 0x80 then do return (← codePoint b0) :: (← decode rest)
    else match rest with
      | [] => none
      | b1 :: rest =>
        if isContinuation b1 = false then none
        else if 0xC2 ≤ b0 ∧ b0 < 0xE0 then do
          return (← codePoint ((b0 - 0xC0) * 64 + (b1 - 0x80))) :: (← decode rest)
        else match rest with
          | [] => none
          | b2 :: rest =>
            if isContinuation b2 = false then none
            else if 0xE0 ≤ b0 ∧ b0 < 0xF0 then
              let v := (b0 - 0xE0) * 4096 + (b1 - 0x80) * 64 + (b2 - 0x80)
              if v < 0x800 ∨ 0xD800 ≤ v ∧ v ≤ 0xDFFF then none
              else do return (← codePoint v) :: (← decode rest)
            else match rest with
              | [] => none
              | b3 :: rest =>
                if isContinuation b3 = false then none
                else if 0xF0 ≤ b0 ∧ b0 < 0xF5 then
                  let v := (b0 - 0xF0) * 262144 + (b1 - 0x80) * 4096 + (b2 - 0x80) * 64 + (b3 - 0x80)
                  if v < 0x10000 then none
                  else do return (← codePoint v) :: (← decode rest)
                else none

theorem isContinuation_low (n : Nat) : isContinuation (0x80 + n % 64) = true := by
  simp only [isContinuation, Bool.and_eq_true, decide_eq_true_eq]
  omega

/-- The bytes of one character are read back, whatever follows them. -/
theorem decode_utf8Bytes {c : CodePoint} (hc : isSurrogate c = false) (rest : List Nat) :
    Str.decode (utf8Bytes c ++ rest) = (Str.decode rest).map (c :: ·) := by
  have hlt := c.isLt
  have hsur : ¬ (0xD800 ≤ c.val ∧ c.val ≤ 0xDFFF) := by
    simpa [isSurrogate] using hc
  unfold utf8Bytes
  split
  · next h1 =>
    rw [List.singleton_append, Str.decode.eq_def]
    simp only [if_pos h1, codePoint_val]
    cases Str.decode rest <;> rfl
  · next h1 =>
    split
    · next h2 =>
      have hv : (0xC0 + c.val / 64 - 0xC0) * 64 + (0x80 + c.val % 64 - 0x80) = c.val := by omega
      simp only [List.cons_append, List.nil_append]
      rw [Str.decode.eq_def]
      simp only [isContinuation_low, Bool.true_eq_false, if_false]
      rw [if_neg (by omega), if_pos (by omega), hv, codePoint_val]
      cases Str.decode rest <;> rfl
    · next h2 =>
      split
      · next h3 =>
        have hv : (0xE0 + c.val / 4096 - 0xE0) * 4096 + (0x80 + c.val / 64 % 64 - 0x80) * 64
            + (0x80 + c.val % 64 - 0x80) = c.val := by omega
        simp only [List.cons_append, List.nil_append]
        rw [Str.decode.eq_def]
        simp only [isContinuation_low, Bool.true_eq_false, if_false]
        rw [if_neg (by omega), if_neg (by omega), if_pos (by omega), hv, if_neg (by omega), codePoint_val]
        cases Str.decode rest <;> rfl
      · next h3 =>
        have hv : (0xF0 + c.val / 262144 - 0xF0) * 262144 + (0x80 + c.val / 4096 % 64 - 0x80) * 4096
            + (0x80 + c.val / 64 % 64 - 0x80) * 64 + (0x80 + c.val % 64 - 0x80) = c.val := by omega
        simp only [List.cons_append, List.nil_append]
        rw [Str.decode.eq_def]
        simp only [isContinuation_low, Bool.true_eq_false, if_false]
        rw [if_neg (by omega), if_neg (by omega), if_neg (by omega), if_pos (by omega), hv,
          if_neg (by omega), codePoint_val]
        cases Str.decode rest <;> rfl

/-- The decoder reads what the encoder wrote. -/
theorem Str.decode_encode {s : Str} {bytes : List Nat} (h : s.encode = .ok bytes) :
    Str.decode bytes = some s := by
  induction s generalizing bytes with
  | nil =>
    cases h
    rfl
  | cons c rest ih =>
    rw [Str.encode] at h
    split at h
    · cases h
    · next hc =>
      cases hrest : Str.encode rest with
      | error e => rw [hrest] at h; cases h
      | ok tail =>
        rw [hrest] at h
        cases h
        rw [decode_utf8Bytes (by simpa using hc), ih hrest]
        rfl

/-! ## Lines -/

/-- The text layer's translation of line ends: `\r\n` and a lone `\r` are read as `\n`. -/
def universalNewlines : Str → Str
  | [] => []
  | [c] => if c = chr '\r' then [chr '\n'] else [c]
  | c :: d :: rest =>
    if c = chr '\r' then
      if d = chr '\n' then chr '\n' :: universalNewlines rest
      else chr '\n' :: universalNewlines (d :: rest)
    else c :: universalNewlines (d :: rest)

/-- The lines of a file, each without the `\n` at its end. After a last `\n` an empty line is
added, which a reader that skips blank lines does not notice. -/
def fileLines (text : Str) : List Str := (universalNewlines text).splitOn (chr '\n')

/-- A character that ends a line. -/
def isLineEnd (c : CodePoint) : Bool := c = chr '\n' || c = chr '\r'

/-- Where empty lines do not count, `\r` ends a line as `\n` does. -/
theorem lines_universal {β : Type} {f : Str → Option β} (hf : f [] = none) (text : Str) :
    ((fileLines text).filterMap f) = (text.splitOnP isLineEnd).filterMap f := by
  have hsplit : ∀ (c : CodePoint) (s : Str), (c :: s).splitOn (chr '\n')
      = if c = chr '\n' then [] :: s.splitOn (chr '\n')
        else (s.splitOn (chr '\n')).modifyHead (List.cons c) := by
    intro c s
    rw [List.splitOn_cons_eq_if_modifyHead]
    simp only [beq_iff_eq]
  -- the head of the two lists of lines is the same, so that a character may be put before it
  suffices h : ∃ head t t', fileLines text = head :: t ∧ text.splitOnP isLineEnd = head :: t' ∧
      t.filterMap f = t'.filterMap f by
    obtain ⟨head, t, t', h1, h2, h3⟩ := h
    rw [h1, h2, List.filterMap_cons, List.filterMap_cons, h3]
  unfold fileLines
  have hnl : (chr '\n' : CodePoint) ≠ chr '\r' := by decide
  fun_induction universalNewlines text with
  | case1 => exact ⟨[], [], [], by simp, by simp, rfl⟩
  | case2 =>
    refine ⟨[], [[]], [[]], by simp [hsplit], ?_, rfl⟩
    simp [List.splitOnP_cons_eq_if_modifyHead, isLineEnd]
  | case3 c hc =>
    rw [hsplit, List.splitOnP_cons_eq_if_modifyHead]
    by_cases hn : c = chr '\n'
    · exact ⟨[], [[]], [[]], by simp [hn], by simp [hn, isLineEnd], rfl⟩
    · exact ⟨[c], [], [], by simp [hn], by simp [hn, hc, isLineEnd], rfl⟩
  | case4 rest ih =>
    obtain ⟨head, t, t', h1, h2, h3⟩ := ih
    refine ⟨[], head :: t, [] :: head :: t', ?_, ?_, ?_⟩
    · rw [hsplit, if_pos rfl, h1]
    · rw [List.splitOnP_cons_eq_if_modifyHead, List.splitOnP_cons_eq_if_modifyHead, h2]
      simp [isLineEnd]
    · rw [List.filterMap_cons, List.filterMap_cons, List.filterMap_cons, hf, h3]
  | case5 d rest hd ih =>
    obtain ⟨head, t, t', h1, h2, h3⟩ := ih
    refine ⟨[], head :: t, head :: t', ?_, ?_, ?_⟩
    · rw [hsplit, if_pos rfl, h1]
    · rw [List.splitOnP_cons_eq_if_modifyHead, h2]
      simp [isLineEnd]
    · rw [List.filterMap_cons, List.filterMap_cons, h3]
  | case6 c d rest hc ih =>
    obtain ⟨head, t, t', h1, h2, h3⟩ := ih
    rw [hsplit, List.splitOnP_cons_eq_if_modifyHead, h1, h2]
    by_cases hn : c = chr '\n'
    · refine ⟨[], head :: t, head :: t', by simp [hn], by simp [hn, isLineEnd], ?_⟩
      rw [List.filterMap_cons, List.filterMap_cons, h3]
    · exact ⟨c :: head, t, t', by simp [hn], by simp [hn, hc, isLineEnd], h3⟩

/-! ## `str.strip` and `str.split` -/

/-- `str.isspace` of one character. -/
def isWhite (c : CodePoint) : Bool :=
  (9 ≤ c.val && c.val ≤ 13) || (0x1C ≤ c.val && c.val ≤ 0x20) || c.val = 0x85 || c.val = 0xA0
    || c.val = 0x1680 || (0x2000 ≤ c.val && c.val ≤ 0x200A) || c.val = 0x2028 || c.val = 0x2029
    || c.val = 0x202F || c.val = 0x205F || c.val = 0x3000

/-- `str.strip()` -/
def Str.strip (s : Str) : Str := (s.dropWhile isWhite).rdropWhile isWhite

/-- Where the ranges of ten decimal digits start that Unicode 15 has. -/
def decimalZeros : List Nat :=
  [0x30, 0x660, 0x6F0, 0x7C0, 0x966, 0x9E6, 0xA66, 0xAE6, 0xB66, 0xBE6, 0xC66, 0xCE6, 0xD66, 0xDE6,
    0xE50, 0xED0, 0xF20, 0x1040, 0x1090, 0x17E0, 0x1810, 0x1946, 0x19D0, 0x1A80, 0x1A90, 0x1B50,
    0x1BB0, 0x1C40, 0x1C50, 0xA620, 0xA8D0, 0xA900, 0xA9D0, 0xA9F0, 0xAA50, 0xABF0, 0xFF10, 0x104A0,
    0x10D30, 0x11066, 0x110F0, 0x11136, 0x111D0, 0x112F0, 0x11450, 0x114D0, 0x11650, 0x116C0,
    0x11730, 0x118E0, 0x11950, 0x11C50, 0x11D50, 0x11DA0, 0x11F50, 0x16A60, 0x16AC0, 0x16B50,
    0x1D7CE, 0x1D7D8, 0x1D7E2, 0x1D7EC, 0x1D7F6, 0x1E140, 0x1E2F0, 0x1E4F0, 0x1E950, 0x1FBF0]

def decimal (c : CodePoint) : Option Nat :=
  (decimalZeros.find? fun z => z ≤ c.val ∧ c.val < z + 10).map (c.val - ·)

/-- Decimal digits, between which single underscores may stand. -/
def decimals (s : Str) : Option (List Nat) :=
  let groups := s.splitOn (chr '_')
  if [] ∈ groups then none else groups.flatten.mapM decimal

/-- `int(text)`, or nothing for its `ValueError` -/
def Str.toInt? (s : Str) : Option Int :=
  let body := s.strip
  let signed : Bool × Str :=
    match body with
    | c :: rest =>
      if c = chr '-' then (true, rest) else if c = chr '+' then (false, rest) else (false, body)
    | [] => (false, [])
  (decimals signed.2).bind fun digits =>
    -- the interpreter's limit on conversions
    if digits.length > 4300 then none
    else
      let n : Nat := digits.foldl (fun n d => 10 * n + d) 0
      some (if signed.1 then -(n : Int) else n)

/-- `str.split(" ")` -/
def Str.split (s : Str) : List Str := s.splitOn (chr ' ')

theorem Str.mem_of_mem_strip {s : Str} {c : CodePoint} (h : c ∈ s.strip) : c ∈ s :=
  (List.dropWhile_suffix isWhite).subset (List.IsPrefix.subset ( List.rdropWhile_prefix isWhite _) h)

/-- A string is left alone when neither end of it is white space. -/
theorem Str.strip_eq_self_iff {s : Str} :
    s.strip = s ↔ s.dropWhile isWhite = s ∧ s.rdropWhile isWhite = s := by
  constructor
  · intro h
    have hdrop : s.dropWhile isWhite = s := by
      refine (List.dropWhile_suffix isWhite).eq_of_length_le ?_
      have hlen := ( List.rdropWhile_prefix isWhite (s.dropWhile isWhite)).length_le
      rw [← Str.strip, h] at hlen
      exact hlen
    refine ⟨hdrop, ?_⟩
    rwa [Str.strip, hdrop] at h
  · rintro ⟨h1, h2⟩
    rw [Str.strip, h1, h2]

theorem Str.strip_strip (s : Str) : s.strip.strip = s.strip := by
  rw [Str.strip_eq_self_iff]
  refine ⟨?_, List.rdropWhile_idempotent _ _⟩
  rw [List.dropWhile_eq_self_iff]
  intro hl
  -- the first character that is kept is the first one after the white space in front
  have hpre := List.rdropWhile_prefix isWhite (s.dropWhile isWhite)
  have hl' : 0 < (s.dropWhile isWhite).length := lt_of_lt_of_le hl hpre.length_le
  have hhead := List.dropWhile_get_zero_not isWhite s hl'
  have : s.strip[0] = (s.dropWhile isWhite)[0] := hpre.getElem hl
  simpa [this] using hhead

theorem Str.strip_cons_space {c : CodePoint} (hc : isWhite c = true) (s : Str) :
    Str.strip (c :: s) = s.strip := by
  rw [Str.strip, List.dropWhile_cons_of_pos hc, Str.strip]

theorem Str.strip_concat_space {c : CodePoint} (hc : isWhite c = true) (s : Str) :
    Str.strip (s ++ [c]) = s.strip := by
  unfold Str.strip
  rw [List.dropWhile_append]
  split
  · next h =>
    rw [List.isEmpty_iff] at h
    rw [h, List.dropWhile_cons_of_pos hc]
    rfl
  · rw [List.rdropWhile_concat_pos _ _ _ hc]

theorem Str.strip_append {s t : Str} (hs : s ≠ []) (ht : t ≠ []) (hs' : s.strip = s)
    (ht' : t.strip = t) (m : Str) : Str.strip (s ++ m ++ t) = s ++ m ++ t := by
  rw [Str.strip_eq_self_iff] at hs' ht' ⊢
  rw [List.dropWhile_eq_self_iff] at hs' ⊢
  rw [List.rdropWhile_eq_self_iff] at ht' ⊢
  constructor
  · intro hl
    have h0 : 0 < s.length := List.length_pos_iff.mpr hs
    simpa [List.getElem_append_left, h0] using hs'.1 h0
  · intro hl
    rw [List.getLast_append_of_ne_nil hl ht]
    exact ht'.2 ht

theorem Str.length_split (s : Str) : s.split.length = s.count (chr ' ') + 1 := by
  unfold Str.split
  induction s with
  | nil => simp [List.splitOn_nil]
  | cons c s ih =>
    rw [List.splitOn_cons_eq_if_modifyHead, List.count_cons]
    split <;> simp_all

/-- No piece holds a separator. -/
theorem eq_false_of_mem_splitOnP {p : CodePoint → Bool} {s f : Str} (hf : f ∈ s.splitOnP p) :
    ∀ c ∈ f, p c = false := by
  induction s generalizing f with
  | nil =>
    rw [List.splitOnP_nil, List.mem_singleton] at hf
    simp [hf]
  | cons c s ih =>
    rw [List.splitOnP_cons_eq_if_modifyHead] at hf
    split at hf
    · rcases List.mem_cons.mp hf with rfl | hf
      · simp
      · exact ih hf
    · next hc =>
      obtain ⟨head, tail, hcons⟩ := List.exists_cons_of_ne_nil (List.splitOnP_ne_nil p s)
      rw [hcons] at hf ih
      rcases List.mem_cons.mp hf with rfl | hf
      · rw [List.forall_mem_cons]
        exact ⟨by simpa using hc, ih List.mem_cons_self⟩
      · exact ih (List.mem_cons_of_mem _ hf)

theorem Str.notMem_of_mem_split {s f : Str} (hf : f ∈ s.split) : chr ' ' ∉ f := by
  rw [Str.split, List.splitOn_eq_splitOnP] at hf
  intro h
  have := eq_false_of_mem_splitOnP hf _ h
  simp at this

/-- A field holds only characters of the string. -/
theorem Str.mem_of_mem_split {s f : Str} (hf : f ∈ s.split) {c : CodePoint} (hc : c ∈ f) :
    c ∈ s := by
  rw [show s = [chr ' '].intercalate (s.splitOn (chr ' ')) from
    (List.intercalate_splitOn (chr ' ')).symm, List.intercalate]
  refine List.mem_flatten.mpr ⟨f, ?_, hc⟩
  unfold Str.split at hf
  generalize s.splitOn (chr ' ') = fields at hf
  induction fields with
  | nil => cases hf
  | cons g fields ih =>
    cases fields with
    | nil => simpa using hf
    | cons g' fields =>
      rw [List.intersperse_cons_cons]
      rcases List.mem_cons.mp hf with rfl | hf
      · exact List.mem_cons_self
      · exact List.mem_cons_of_mem _ (List.mem_cons_of_mem _ (ih hf))

end Nio.Py
