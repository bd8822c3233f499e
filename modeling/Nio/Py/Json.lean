import Nio.Py.Float

/-!
# The `json` module

JSON values as Python holds them, the writer `json.dumps` and the reader `json.loads`. The writer
takes the options that the library's callers set; the reader is strict about control characters and
accepts what Python accepts beyond JSON: `NaN`, `Infinity`, and escapes of unpaired surrogates.

* `Json` — a value; an object keeps its keys in order and `loads` makes them distinct
* `dumps`, `loads` — the writer and the reader, whose fuel is never what stops it

The interpreter's recursion limit is not modelled.
-/

namespace Nio.Py

/-! ## Exceptions -/

/-- A sequence of two computations returns where both do. -/
theorem bind_eq_ok {ε α β : Type} {x : Except ε α} {f : α → Except ε β} {b : β} :
    (x >>= f) = .ok b ↔ ∃ a, x = .ok a ∧ f a = .ok b := by
  cases x with
  | error e => simp [bind, Except.bind]
  | ok a => simp [bind, Except.bind]

/-- A computation that has returned goes on with its result. -/
theorem ok_bind {ε α β : Type} (a : α) (f : α → Except ε β) : (Except.ok a >>= f) = f a := rfl

/-! ## Values -/

inductive Json where
  | null
  | bool (b : Bool)
  | int (i : Int)
  | float (x : PyFloat)
  | str (s : Str)
  | arr (xs : List Json)
  | obj (kvs : List (Str × Json))
  deriving Inhabited

/-! ## Equality -/

namespace Json

mutual

def beq : Json → Json → Bool
  | .null, .null => true
  | .bool b, .bool b' => b == b'
  | .int i, .int i' => i == i'
  | .float x, .float x' => decide (x = x')
  | .str s, .str s' => decide (s = s')
  | .arr xs, .arr xs' => beqItems xs xs'
  | .obj kvs, .obj kvs' => beqPairs kvs kvs'
  | _, _ => false

def beqItems : List Json → List Json → Bool
  | [], [] => true
  | x :: xs, x' :: xs' => beq x x' && beqItems xs xs'
  | _, _ => false

def beqPairs : List (Str × Json) → List (Str × Json) → Bool
  | [], [] => true
  | (k, x) :: xs, (k', x') :: xs' => decide (k = k') && beq x x' && beqPairs xs xs'
  | _, _ => false

end

mutual

/-- The comparison of values is equality. -/
theorem beq_iff (v w : Json) : beq v w = true ↔ v = w := by
  cases v with
  | arr xs =>
    cases w with
    | arr xs' => simpa [beq] using beqItems_iff xs xs'
    | _ => simp [beq]
  | obj kvs =>
    cases w with
    | obj kvs' => simpa [beq] using beqPairs_iff kvs kvs'
    | _ => simp [beq]
  | _ => cases w <;> simp [beq]

theorem beqItems_iff (xs ys : List Json) : beqItems xs ys = true ↔ xs = ys := by
  cases xs with
  | nil => cases ys <;> simp [beqItems]
  | cons x xs =>
    cases ys with
    | nil => simp [beqItems]
    | cons y ys => simp [beqItems, beq_iff x y, beqItems_iff xs ys]

theorem beqPairs_iff (xs ys : List (Str × Json)) : beqPairs xs ys = true ↔ xs = ys := by
  cases xs with
  | nil => cases ys <;> simp [beqPairs]
  | cons p xs =>
    obtain ⟨k, x⟩ := p
    cases ys with
    | nil => simp [beqPairs]
    | cons q ys =>
      obtain ⟨k', y⟩ := q
      simp [beqPairs, beq_iff x y, beqPairs_iff xs ys]

end

instance : DecidableEq Json := fun v w => decidable_of_iff _ (beq_iff v w)

end Json

/-! ## Dictionaries

A Python `dict` with string keys is the list of its items in order; setting a key that is there
keeps its place. -/

section Dict

variable {α : Type}

def dictGet? (d : List (Str × α)) (k : Str) : Option α := (d.find? fun p => p.1 = k).map (·.2)

def dictSet (d : List (Str × α)) (k : Str) (v : α) : List (Str × α) :=
  if d.any fun p => p.1 = k then d.map fun p => if p.1 = k then (k, v) else p
  else d ++ [(k, v)]

/-- `dict(pairs)` -/
def dictOf (pairs : List (Str × α)) : List (Str × α) :=
  pairs.foldl (fun d p => dictSet d p.1 p.2) []

def dictErase (d : List (Str × α)) (k : Str) : List (Str × α) := d.filter fun p => p.1 ≠ k

end Dict

namespace Json

/-- `value.get(key)` of an object -/
def get? (v : Json) (key : Str) : Option Json :=
  match v with
  | .obj kvs => dictGet? kvs key
  | _ => none

def isObj : Json → Bool
  | .obj _ => true
  | _ => false

def asStr? : Json → Option Str
  | .str s => some s
  | _ => none

end Json

/-! ## Writing -/

structure DumpOptions where
  ensureAscii : Bool
  allowNan : Bool
  /-- `separators=(",", ":")` instead of `(", ", ": ")` -/
  compact : Bool
  deriving DecidableEq, Repr

namespace DumpOptions

/-- `json.dumps(value)` -/
def default : DumpOptions := ⟨true, true, false⟩

def itemSeparator (o : DumpOptions) : Str := if o.compact then py "," else py ", "

def keySeparator (o : DumpOptions) : Str := if o.compact then py ":" else py ": "

end DumpOptions

/-- The digits that the interpreter converts at most, in either direction. -/
def maxStrDigits : Nat := 4300

def hexDigit (n : Nat) : Char := Nat.digitChar (n % 16)

/-- `\uXXXX` -/
def unicodeEscape (n : Nat) : Str :=
  ofChars ['\\', 'u', hexDigit (n / 4096), hexDigit (n / 256), hexDigit (n / 16), hexDigit n]

/-- One character of a string literal. -/
def escapeChar (ensureAscii : Bool) (c : CodePoint) : Str :=
  if c = chr '"' then py "\\\""
  else if c = chr '\\' then py "\\\\"
  else if c = chr '\n' then py "\\n"
  else if c = chr '\r' then py "\\r"
  else if c = chr '\t' then py "\\t"
  else if c.val = 0x0C then py "\\f"
  else if c.val = 0x08 then py "\\b"
  else if c.val < 0x20 then unicodeEscape c.val
  else if ensureAscii ∧ 0x7F ≤ c.val then
    if c.val < 0x10000 then unicodeEscape c.val
    else
      -- beyond the basic plane: a surrogate pair
      unicodeEscape (0xD800 + (c.val - 0x10000) / 1024)
        ++ unicodeEscape (0xDC00 + (c.val - 0x10000) % 1024)
  else [c]

def dumpsStr (o : DumpOptions) (s : Str) : Str :=
  py "\"" ++ s.flatMap (escapeChar o.ensureAscii) ++ py "\""

/-- `int.__repr__` -/
def dumpsInt (i : Int) : Except ValueError Str :=
  let digits := Nat.toDigits 10 i.natAbs
  if maxStrDigits < digits.length then .error .intDigits
  else .ok (ofChars ((if i < 0 then ['-'] else []) ++ digits))

def dumpsFloat (o : DumpOptions) (x : PyFloat) : Except ValueError Str :=
  if x.isFinite then .ok (ofChars (repr x).chars)
  else if o.allowNan then
    .ok (match x.unpack with
      | .infinity .positive => py "Infinity"
      | .infinity .negative => py "-Infinity"
      | _ => py "NaN")
  else .error .outOfRange

mutual

/-- `json.dumps(value, ...)` -/
def dumps (o : DumpOptions) : Json → Except ValueError Str
  | .null => .ok (py "null")
  | .bool b => .ok (if b then py "true" else py "false")
  | .int i => dumpsInt i
  | .float x => dumpsFloat o x
  | .str s => .ok (dumpsStr o s)
  | .arr [] => .ok (py "[]")
  | .arr (x :: xs) => do
    let t ← dumps o x
    let ts ← dumpsItems o xs
    return py "[" ++ t ++ ts ++ py "]"
  | .obj [] => .ok (py "\x7b\x7d")
  | .obj ((k, x) :: kvs) => do
    let t ← dumps o x
    let ts ← dumpsPairs o kvs
    return py "\x7b" ++ dumpsStr o k ++ o.keySeparator ++ t ++ ts ++ py "\x7d"

/-- The items after the first one, each with its separator. -/
def dumpsItems (o : DumpOptions) : List Json → Except ValueError Str
  | [] => .ok []
  | x :: xs => do
    let t ← dumps o x
    let ts ← dumpsItems o xs
    return o.itemSeparator ++ t ++ ts

/-- The pairs after the first one, each with its separator. -/
def dumpsPairs (o : DumpOptions) : List (Str × Json) → Except ValueError Str
  | [] => .ok []
  | (k, x) :: kvs => do
    let t ← dumps o x
    let ts ← dumpsPairs o kvs
    return o.itemSeparator ++ dumpsStr o k ++ o.keySeparator ++ t ++ ts

end

/-! ## Reading -/

def isSpace (c : CodePoint) : Bool :=
  c = chr ' ' || c = chr '\t' || c = chr '\n' || c = chr '\r'

def skipSpaces (s : Str) : Str := s.dropWhile isSpace

def hexValue? (c : CodePoint) : Option Nat :=
  if 0x30 ≤ c.val ∧ c.val ≤ 0x39 then some (c.val - 0x30)
  else if 0x41 ≤ c.val ∧ c.val ≤ 0x46 then some (c.val - 0x41 + 10)
  else if 0x61 ≤ c.val ∧ c.val ≤ 0x66 then some (c.val - 0x61 + 10)
  else none

/-- The value of the four digits after `\u`. -/
def hexValue4? (a b c d : CodePoint) : Option (Fin 0x10000) := do
  let a ← hexValue? a
  let b ← hexValue? b
  let c ← hexValue? c
  let d ← hexValue? d
  return Fin.ofNat 0x10000 (a * 4096 + b * 256 + c * 16 + d)

/-- `\uXXXX` at the front of the text, which is a low surrogate. -/
def lowSurrogate? : Str → Option (Fin 0x10000)
  | e :: u :: a :: b :: c :: d :: _ =>
    if e = chr '\\' ∧ u = chr 'u' then
      (hexValue4? a b c d).filter fun w => 0xDC00 ≤ w.val ∧ w.val ≤ 0xDFFF
    else none
  | _ => none

/-- The character of a one-letter escape. -/
def escapeOf? (c : CodePoint) : Option CodePoint :=
  if c = chr '"' then some (chr '"')
  else if c = chr '\\' then some (chr '\\')
  else if c = chr '/' then some (chr '/')
  else if c = chr 'b' then some 0x08
  else if c = chr 'f' then some 0x0C
  else if c = chr 'n' then some (chr '\n')
  else if c = chr 'r' then some (chr '\r')
  else if c = chr 't' then some (chr '\t')
  else none

/-- The code point of a surrogate pair. -/
def joinSurrogates (high low : Fin 0x10000) : CodePoint :=
  Fin.ofNat 0x110000 (0x10000 + (high.val - 0xD800) * 1024 + (low.val - 0xDC00))

/-- The rest of a string literal after its opening quote, and what follows the literal. The first
argument bounds the number of characters read. -/
def scanString : Nat → Str → Except ValueError (Str × Str)
  | 0, _ => .error .jsonDecode
  | _ + 1, [] => .error .jsonDecode
  | n + 1, c :: s =>
    if c = chr '"' then .ok ([], s)
    else if c = chr '\\' then
      match s with
      | [] => .error .jsonDecode
      | e :: s =>
        if e = chr 'u' then
          match s with
          | h1 :: h2 :: h3 :: h4 :: s =>
            match hexValue4? h1 h2 h3 h4 with
            | none => .error .jsonDecode
            | some u =>
              if 0xD800 ≤ u.val ∧ u.val ≤ 0xDBFF then
                match lowSurrogate? s with
                | some w => do
                  let (t, r) ← scanString n (s.drop 6)
                  return (joinSurrogates u w :: t, r)
                | none => do
                  let (t, r) ← scanString n s
                  return (u.castLE (by decide) :: t, r)
              else do
                let (t, r) ← scanString n s
                return (u.castLE (by decide) :: t, r)
          | _ => .error .jsonDecode
        else
          match escapeOf? e with
          | none => .error .jsonDecode
          | some d => do
            let (t, r) ← scanString n s
            return (d :: t, r)
    else if c.val < 0x20 then .error .jsonDecode
    else do
      let (t, r) ← scanString n s
      return (c :: t, r)

def digit? (c : CodePoint) : Option Char :=
  if 0x30 ≤ c.val ∧ c.val ≤ 0x39 then some (Nat.digitChar (c.val - 0x30)) else none

/-- The digits at the front of the text, and what follows them. -/
def spanDigits : Str → List Char × Str
  | [] => ([], [])
  | c :: s =>
    match digit? c with
    | none => ([], c :: s)
    | some d => (d :: (spanDigits s).1, (spanDigits s).2)

/-- The integer part of a number: a zero, or digits without a leading zero. -/
def matchInt : Str → Option (List Char × Str)
  | [] => none
  | c :: s =>
    if c = chr '0' then some (['0'], s)
    else match spanDigits (c :: s) with
      | ([], _) => none
      | (ds, r) => some (ds, r)

def matchFrac : Str → Option (List Char) × Str
  | [] => (none, [])
  | c :: s =>
    if c = chr '.' then
      match spanDigits s with
      | ([], _) => (none, c :: s)
      | (ds, r) => (some ds, r)
    else (none, c :: s)

/-- The sign of an exponent, and what follows it. -/
def expSign : Str → Bool × Str
  | [] => (false, [])
  | c :: s =>
    if c = chr '-' then (true, s)
    else if c = chr '+' then (false, s)
    else (false, c :: s)

def matchExp : Str → Option (Bool × List Char) × Str
  | [] => (none, [])
  | c :: s =>
    if c = chr 'e' ∨ c = chr 'E' then
      match spanDigits (expSign s).2 with
      | ([], _) => (none, c :: s)
      | (ds, r) => (some ((expSign s).1, ds), r)
    else (none, c :: s)

/-- `(-?(?:0|[1-9][0-9]*))(\.[0-9]+)?([eE][-+]?[0-9]+)?` -/
def matchNumber (s : Str) : Option (Decimal × Str) :=
  let (neg, s) := if s.head? = some (chr '-') then (true, s.tail) else (false, s)
  match matchInt s with
  | none => none
  | some (intPart, s) =>
    let (frac, s) := matchFrac s
    let (exp, s) := matchExp s
    some (⟨neg, intPart, frac, exp⟩, s)

/-- `int(text)` or `float(text)` of the matched number -/
def numberValue (d : Decimal) : Except ValueError Json :=
  if d.frac = none ∧ d.exp = none then
    if maxStrDigits < d.intPart.length then .error .intDigits
    else
      let n := Nat.ofDigitChars 10 d.intPart 0
      .ok (.int (if d.neg then -(n : Int) else n))
  else .ok (.float d.value)

def PyFloat.nan : PyFloat := .pack .notANumber

def PyFloat.inf (s : Float.Model.UnpackedFloat.Sign) : PyFloat := .pack (.infinity s)

/-- The words that stand for a value. -/
def constants : List (Str × Json) :=
  [(py "null", .null), (py "true", .bool true), (py "false", .bool false),
    (py "NaN", .float .nan), (py "Infinity", .float (.inf .positive)),
    (py "-Infinity", .float (.inf .negative))]

def matchConstant (s : Str) : Option (Json × Str) :=
  constants.findSome? fun (name, v) =>
    if name.isPrefixOf s then some (v, s.drop name.length) else none

mutual

/-- One value at the front of the text, and what follows it. -/
def parseValue : Nat → Str → Except ValueError (Json × Str)
  | 0, _ => .error .jsonDecode
  | _ + 1, [] => .error .jsonDecode
  | n + 1, c :: s =>
    if c = chr '"' then do
      let (t, r) ← scanString (s.length + 1) s
      return (.str t, r)
    else if c = chr '{' then
      match skipSpaces s with
      | [] => .error .jsonDecode
      | d :: r =>
        if d = chr '}' then .ok (.obj [], r)
        else do
          let (kvs, r) ← parsePairs n (d :: r)
          return (.obj (dictOf kvs), r)
    else if c = chr '[' then
      match skipSpaces s with
      | [] => .error .jsonDecode
      | d :: r =>
        if d = chr ']' then .ok (.arr [], r)
        else do
          let (xs, r) ← parseItems n (d :: r)
          return (.arr xs, r)
    else
      match matchConstant (c :: s) with
      | some (v, r) => .ok (v, r)
      | none =>
        match matchNumber (c :: s) with
        | none => .error .jsonDecode
        | some (d, r) => do
          let v ← numberValue d
          return (v, r)

/-- The items of an array from the front of the text to its closing bracket. -/
def parseItems : Nat → Str → Except ValueError (List Json × Str)
  | 0, _ => .error .jsonDecode
  | n + 1, s => do
    let (v, r) ← parseValue n s
    match skipSpaces r with
    | [] => .error .jsonDecode
    | c :: r =>
      if c = chr ',' then do
        let (vs, r) ← parseItems n (skipSpaces r)
        return (v :: vs, r)
      else if c = chr ']' then .ok ([v], r)
      else .error .jsonDecode

/-- The pairs of an object from the front of the text to its closing brace. -/
def parsePairs : Nat → Str → Except ValueError (List (Str × Json) × Str)
  | 0, _ => .error .jsonDecode
  | _ + 1, [] => .error .jsonDecode
  | n + 1, q :: s =>
    if q = chr '"' then do
      let (k, r) ← scanString (s.length + 1) s
      match skipSpaces r with
      | [] => .error .jsonDecode
      | c :: r =>
        if c = chr ':' then do
          let (v, r) ← parseValue n (skipSpaces r)
          match skipSpaces r with
          | [] => .error .jsonDecode
          | c :: r =>
            if c = chr ',' then do
              let (kvs, r) ← parsePairs n (skipSpaces r)
              return ((k, v) :: kvs, r)
            else if c = chr '}' then .ok ([(k, v)], r)
            else .error .jsonDecode
        else .error .jsonDecode
    else .error .jsonDecode

end

/-- `json.loads(text)` -/
def loads (s : Str) : Except ValueError Json :=
  if s.head? = some 0xFEFF then .error .jsonDecode
  else do
    let s := skipSpaces s
    let (v, r) ← parseValue (2 * s.length) s
    if skipSpaces r = [] then .ok v else .error .jsonDecode

end Nio.Py
