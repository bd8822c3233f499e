import Nio.Py.Str
import Mathlib.Data.Nat.Log
import Mathlib.Tactic.Ring
import Mathlib.Tactic.NormNum

/-!
# Python floats

A Python `float` is an IEEE 754 binary64 number, Lean's `Float.Model`. This file gives the two
directions a text codec needs.

* `Decimal.value` — `float(text)` on the text of a decimal literal, correctly rounded; a literal
  beyond the range becomes an infinity
* `repr` — `float.__repr__`, the shortest decimal that reads back as the same number
* `value_repr` — reading back what `repr` wrote gives the number
* `wf_repr` — what `repr` writes is a JSON number

`repr` tries 1 to 17 significant digits. That 17 always suffice is not used: the exact decimal
expansion stands behind them, so that reading back needs no bound on the digits.
-/

namespace Nio.Py

open Float.Model (UnpackedFloat Format totalExponent)
open Float.Model.UnpackedFloat

/-- A Python `float`. -/
abbrev PyFloat := Float.Model

/-! ## Decimal literals -/

/-- A decimal literal with a fraction or an exponent, digit by digit. -/
structure Decimal where
  neg : Bool
  intPart : List Char
  frac : Option (List Char)
  /-- The sign (`true` for minus) and the digits of the exponent. -/
  exp : Option (Bool × List Char)
  deriving DecidableEq, Repr

namespace Decimal

/-- The integer that all digits together denote. -/
def mantissa (d : Decimal) : Nat := Nat.ofDigitChars 10 (d.intPart ++ d.frac.getD []) 0

/-- The power of ten that scales `mantissa`. -/
def scale (d : Decimal) : Int :=
  (match d.exp with
    | none => 0
    | some (neg, ds) => if neg then -(Nat.ofDigitChars 10 ds 0 : Int) else Nat.ofDigitChars 10 ds 0)
    - (d.frac.getD []).length

/-- `float(text)` -/
def value (d : Decimal) : PyFloat :=
  let x := UnpackedFloat.ofScientific .binary64 d.mantissa d.scale
  .pack (if d.neg then x.neg else x)

def fracChars : Option (List Char) → List Char
  | none => []
  | some ds => '.' :: ds

def expChars : Option (Bool × List Char) → List Char
  | none => []
  | some (neg, ds) => 'e' :: (if neg then '-' else '+') :: ds

/-- The characters of the literal. -/
def chars (d : Decimal) : List Char :=
  (if d.neg then ['-'] else []) ++ d.intPart ++ fracChars d.frac ++ expChars d.exp

/-- A list of decimal digits that is not empty. -/
def Digits (ds : List Char) : Prop := ds ≠ [] ∧ ∀ c ∈ ds, c.isDigit = true

/-- The literal is in the grammar of JSON numbers. -/
structure Lexes (d : Decimal) : Prop where
  intPart : Digits d.intPart
  noLeadingZero : d.intPart.head? = some '0' → d.intPart = ['0']
  frac : ∀ ds, d.frac = some ds → Digits ds
  exp : ∀ neg ds, d.exp = some (neg, ds) → Digits ds

/-- The literal is a JSON number that denotes a float. -/
structure WF (d : Decimal) : Prop extends Lexes d where
  float : d.frac.isSome ∨ d.exp.isSome

end Decimal

/-! ## Packing -/

/-- The bits of a float are packed from its parts. -/
theorem components_eq (b : BitVec Format.binary64.numBits) :
    packComponents .binary64 (Sign.ofBitVec (unpackSign b)) (unpackExponent b) (unpackMantissa b)
      = b := by
  have hs : (Sign.ofBitVec (unpackSign b)).toBitVec = unpackSign b := by
    generalize unpackSign b = v
    revert v
    decide
  rw [packComponents, hs]
  apply BitVec.eq_of_getLsbD_eq
  intro i hi
  unfold unpackSign
  simp only [unpackExponent, unpackMantissa, BitVec.getLsbD_append, BitVec.getLsbD_cast,
    BitVec.getLsbD_extractLsb]
  grind

/-- The parts of a packed number, with the exponent and the mantissa named. -/
theorem components_eq_of {b : BitVec Format.binary64.numBits} {e : BitVec 11} {m : BitVec 52}
    (he : unpackExponent b = e) (hm : unpackMantissa b = m) :
    packComponents .binary64 (Sign.ofBitVec (unpackSign b)) e m = b := by
  rw [← he, ← hm, components_eq]

theorem implicit_toNat (m : BitVec 52) : (1#1 ++ m).toNat = 2 ^ 52 + m.toNat := by
  rw [BitVec.toNat_append, ← Nat.shiftLeft_add_eq_or_of_lt m.isLt]
  rfl

theorem log2_of_bounds {m : Nat} (h1 : 2 ^ 52 ≤ m) (h2 : m < 2 ^ 53) : m.log2 = 52 := by
  have ha : 52 ≤ m.log2 := (Nat.le_log2 (by omega)).mpr h1
  have hb : m.log2 < 53 := (Nat.log2_lt (by omega)).mpr h2
  omega

/-- Unpacking a valid pattern and packing it again gives the pattern. -/
theorem pack_unpackBits {b : BitVec Format.binary64.numBits} (hv : Format.binary64.Valid b) :
    UnpackedFloat.pack .binary64 (UnpackedFloat.unpack .binary64 b) = b := by
  have hm := (unpackMantissa b).isLt
  have he := (unpackExponent b).isLt
  have h53 : Format.binary64.mantissaBits = 53 := rfl
  simp only [Format.binary64] at hm he
  unfold UnpackedFloat.unpack
  dsimp only
  by_cases hexp : unpackExponent b = -BitVec.ofNat Format.binary64.exponentBits 1
  · rw [if_pos hexp]
    by_cases hzero : unpackMantissa b = BitVec.ofNat Format.binary64.mantissaBitsWithoutImplicit 0
    · rw [if_pos hzero]
      exact components_eq_of hexp hzero
    · rw [if_neg hzero]
      exact (hv.eq_packedNaN hexp hzero).symm
  · rw [if_neg hexp]
    have hinf : (unpackExponent b).toNat ≠ 2047 := fun h =>
      hexp (BitVec.toNat_inj.mp (by rw [h]; rfl))
    by_cases hleast : unpackExponent b = BitVec.ofNat Format.binary64.exponentBits 0
    · rw [if_pos hleast]
      by_cases hzero : unpackMantissa b = BitVec.ofNat Format.binary64.mantissaBitsWithoutImplicit 0
      · rw [dif_pos hzero]
        exact components_eq_of hleast hzero
      · rw [dif_neg hzero]
        -- a subnormal number keeps the least exponent and has no implicit bit
        have hlog : (unpackMantissa b).toNat.log2 < 52 := by
          refine (Nat.log2_lt ?_).mpr hm
          exact fun h => hzero (BitVec.toNat_inj.mp (by rw [h]; rfl))
        unfold UnpackedFloat.pack
        dsimp only
        rw [hleast, if_neg (by decide), if_neg (by rw [h53]; omega)]
        refine components_eq_of hleast ?_
        exact (BitVec.ofNat_toNat _ _).symm ▸ (BitVec.setWidth_eq _).symm
    · rw [if_neg hleast]
      have hleast' : (unpackExponent b).toNat ≠ 0 := fun h =>
        hleast (BitVec.toNat_inj.mp (by rw [h]; rfl))
      have hi := implicit_toNat (unpackMantissa b)
      have hlog : (1#1 ++ unpackMantissa b).toNat.log2 = 52 :=
        log2_of_bounds (by omega) (by omega)
      have hbias : ((unpackExponent b).toNat
          - ((Format.binary64.exponentBias : Int) + Format.binary64.mantissaBitsWithoutImplicit)
          + Format.binary64.exponentBias + Format.binary64.mantissaBitsWithoutImplicit).toNat
          = (unpackExponent b).toNat := by
        omega
      unfold UnpackedFloat.pack
      dsimp only
      rw [hbias, if_neg (by simp only [Format.binary64]; omega), if_pos (by rw [h53]; omega)]
      refine components_eq_of ?_ ?_
      · rw [BitVec.ofNat_toNat, BitVec.setWidth_eq]
      · apply BitVec.toNat_inj.mp
        rw [BitVec.toNat_ofNat, hi]
        exact ((Nat.add_mod_left _ _).trans (Nat.mod_eq_of_lt hm)).symm

/-- Packing what `unpack` decoded gives the number back. -/
theorem pack_unpack (x : Float.Model) : Float.Model.pack x.unpack = x := by
  obtain ⟨bits, hv⟩ := x
  have hmk : ∀ (b : UInt64) (hb : Format.binary64.Valid b.toBitVec), b = bits →
      Float.Model.mk b hb = Float.Model.mk bits hv := by
    rintro b hb rfl
    rfl
  exact hmk _ _ (UInt64.toBitVec_inj.mp (pack_unpackBits hv))

/-! ## The exact decimal expansion -/

/-- A finite number as `unpack` gives it: 53 bits of mantissa, all of them used unless the
exponent is the least one. -/
structure Canonical (m : Nat) (e : Int) : Prop where
  lt : m < 2 ^ 53
  min : -1074 ≤ e
  max : e ≤ 971
  normal : 2 ^ 52 ≤ m ∨ e = -1074

theorem canonical_of_unpackBits {b : BitVec Format.binary64.numBits} {s : Sign} {m : Nat} {e : Int}
    {h : 0 < m} (hx : UnpackedFloat.unpack .binary64 b = .finite s m e h) : Canonical m e := by
  unfold UnpackedFloat.unpack at hx
  dsimp only at hx
  have hm := (unpackMantissa b).isLt
  have he := (unpackExponent b).isLt
  simp only [Format.binary64] at hm he
  by_cases hexp : unpackExponent b = -BitVec.ofNat Format.binary64.exponentBits 1
  · rw [if_pos hexp] at hx
    by_cases hzero : unpackMantissa b = BitVec.ofNat Format.binary64.mantissaBitsWithoutImplicit 0
    · rw [if_pos hzero] at hx
      cases hx
    · rw [if_neg hzero] at hx
      cases hx
  · rw [if_neg hexp] at hx
    have hinf : (unpackExponent b).toNat ≠ 2047 := fun h =>
      hexp (BitVec.toNat_inj.mp (by rw [h]; rfl))
    by_cases hleast : unpackExponent b = BitVec.ofNat Format.binary64.exponentBits 0
    · rw [if_pos hleast] at hx
      by_cases hzero : unpackMantissa b = BitVec.ofNat Format.binary64.mantissaBitsWithoutImplicit 0
      · rw [dif_pos hzero] at hx
        cases hx
      · rw [dif_neg hzero] at hx
        injection hx with _ hm' he'
        rw [hleast] at he'
        have : e = -1074 := he'.symm
        exact ⟨by omega, by omega, by omega, .inr this⟩
    · rw [if_neg hleast] at hx
      have hleast' : (unpackExponent b).toNat ≠ 0 := fun h =>
        hleast (BitVec.toNat_inj.mp (by rw [h]; rfl))
      injection hx with _ hm' he'
      have hi := implicit_toNat (unpackMantissa b)
      have hb : (Format.binary64.exponentBias : Int) = 1023 := rfl
      rw [hb] at he'
      simp only [Format.binary64] at he'
      exact ⟨by omega, by omega, by omega, .inl (by omega)⟩

/-- A finite float is unpacked to a canonical mantissa and exponent. -/
theorem canonical_of_unpack {x : Float.Model} {s : Sign} {m : Nat} {e : Int} {h : 0 < m}
    (hx : x.unpack = .finite s m e h) : Canonical m e := canonical_of_unpackBits hx

/-- Shifting the zeros out again rounds nothing. -/
theorem shift_exact (m k : Nat) :
    ((ExtendedMantissa.mk (m * 2 ^ k) false false) >>> k) = ExtendedMantissa.mk m false false := by
  induction k generalizing m with
  | zero => simp [HShiftRight.hShiftRight, Nat.repeat]
  | succ k ih =>
    have hk := ih (m * 2)
    rw [show m * 2 * 2 ^ k = m * 2 ^ (k + 1) by ring] at hk
    change ExtendedMantissa.shiftRightOne (ExtendedMantissa.mk (m * 2 ^ (k + 1)) false false >>> k) = _
    rw [hk]
    simp [ExtendedMantissa.shiftRightOne]

/-- A canonical value is rounded at its own exponent. -/
theorem targetExponent_canonical {m : Nat} {e : Int} (hm : 0 < m) (hc : Canonical m e) :
    Format.binary64.targetExponent (m.log2 + 1 + e) = e := by
  have h53 : Format.binary64.mantissaBits = 53 := rfl
  have hmin : Format.binary64.minExponent = -1074 := rfl
  rw [Format.targetExponent, h53, hmin]
  rcases hc.normal with h | h
  · rw [log2_of_bounds h hc.lt]
    have := hc.min
    omega
  · have : m.log2 < 53 := (Nat.log2_lt (by omega)).mpr hc.lt
    omega

theorem log2_mul_pow {m k : Nat} (hm : 0 < m) : (m * 2 ^ k).log2 = m.log2 + k := by
  induction k with
  | zero => simp
  | succ k ih =>
    have hpos : m * 2 ^ k ≠ 0 := by positivity
    rw [pow_succ, ← Nat.mul_assoc, Nat.log2_def, if_pos (by omega), Nat.mul_div_cancel _ (by decide),
      ih]
    omega

/-- Rounding a number that is representable, written with `k` trailing zero bits. -/
theorem roundWithAccuracy_exact {m k : Nat} {e : Int} (s : Sign) (hm : 0 < m) (hc : Canonical m e) :
    roundWithAccuracy .binary64 s (m * 2 ^ k) (e - k) .exact = .finite s m e hm := by
  have htarget := targetExponent_canonical hm hc
  have h1 : shiftToTargetExponent .binary64 (m * 2 ^ k) (e - k) .exact
      = (ExtendedMantissa.mk m false false, e) := by
    rw [shiftToTargetExponent, totalExponent, log2_mul_pow hm]
    rw [show ((m.log2 + k : Nat) : Int) + 1 + (e - k) = m.log2 + 1 + e by push_cast; ring, htarget]
    simp only [shiftToExponent, show (e - (e - (k : Int))).toNat = k by omega,
      ExtendedMantissa.ofMantissaAndAccuracy, shift_exact]
    simp
  have h2 : shiftToTargetExponent .binary64 m e .exact = (ExtendedMantissa.mk m false false, e) := by
    rw [shiftToTargetExponent, totalExponent, htarget]
    simp [shiftToExponent, ExtendedMantissa.ofMantissaAndAccuracy, HShiftRight.hShiftRight,
      Nat.repeat]
  have hrounded : (ExtendedMantissa.mk m false false).roundedMantissa = m := rfl
  unfold roundWithAccuracy
  dsimp only
  rw [h1]
  dsimp only
  rw [hrounded, h2]
  exact dif_neg (Nat.ne_of_gt hm)

/-- The decimal expansion of `m * 2 ^ e`, as an integer and a power of ten. -/
def expansion (m : Nat) (e : Int) : Nat × Int :=
  if 0 ≤ e then (m * 2 ^ e.toNat, 0) else (m * 5 ^ (-e).toNat, e)

/-- A large value is read back from its exact expansion, -/
theorem mul_expansion {m : Nat} {e : Int} (hm : 0 < m) (hc : Canonical m e) (he : 0 ≤ e) :
    UnpackedFloat.ofScientific .binary64 (m * 2 ^ e.toNat) 0 = .finite .positive m e hm := by
  have hpos : m * 2 ^ e.toNat ≠ 0 := by positivity
  have hbits : (2 ^ Format.binary64.exponentBits : Int) = 2048 := rfl
  rw [UnpackedFloat.ofScientific, dif_neg hpos, if_neg (by omega), if_neg (by omega),
    if_pos (le_refl _)]
  have hround := roundWithAccuracy_exact (k := e.toNat + 53) .positive hm hc
  rw [show e - ((e.toNat + 53 : Nat) : Int) = -53 + 0 by omega] at hround
  unfold UnpackedFloat.mul
  dsimp only
  have h53 : Format.binary64.mantissaBits = 53 := rfl
  rw [← hround, Nat.shiftLeft_eq, pow_add, ← Nat.mul_assoc]
  simp [h53]
  rfl

/-- The quotient is scaled down to the exponent of the result or below it. -/
theorem divCore_exponent_le {m : Nat} {e : Int} (hm : 0 < m) (hc : Canonical m e) (he : e < 0) :
    min (0 - 0) (Format.binary64.targetExponent
      (totalExponent (m * 5 ^ (-e).toNat) 0 - totalExponent (10 ^ (-e).toNat) 0)) ≤ e := by
  have h5 : (5 : Nat) ^ (-e).toNat ≠ 0 := by positivity
  have hlog5 := Nat.lt_log2_self (n := 5 ^ (-e).toNat)
  have hlogm := Nat.lt_log2_self (n := m)
  have hprod : m * 5 ^ (-e).toNat < 2 ^ (m.log2 + 1 + ((5 ^ (-e).toNat).log2 + 1)) := by
    rw [pow_add]
    exact Nat.mul_lt_mul'' hlogm hlog5
  have h1 : (m * 5 ^ (-e).toNat).log2 < m.log2 + 1 + ((5 ^ (-e).toNat).log2 + 1) :=
    (Nat.log2_lt (by positivity)).mpr hprod
  have h2 : (10 ^ (-e).toNat).log2 = (5 ^ (-e).toNat).log2 + (-e).toNat := by
    rw [show (10 : Nat) ^ (-e).toNat = 5 ^ (-e).toNat * 2 ^ (-e).toNat by rw [← Nat.mul_pow]]
    exact log2_mul_pow (Nat.pos_of_ne_zero h5)
  have hlt : m.log2 < 53 := (Nat.log2_lt (by omega)).mpr hc.lt
  have hmin := hc.min
  have h53 : Format.binary64.mantissaBits = 53 := rfl
  have hmine : Format.binary64.minExponent = -1074 := rfl
  simp only [Format.targetExponent, totalExponent, h53, hmine, h2]
  omega

/-- and so is a small one. -/
theorem div_expansion {m : Nat} {e : Int} (hm : 0 < m) (hc : Canonical m e) (he : e < 0) :
    UnpackedFloat.ofScientific .binary64 (m * 5 ^ (-e).toNat) e = .finite .positive m e hm := by
  have hpos : m * 5 ^ (-e).toNat ≠ 0 := by positivity
  have hbits : (2 ^ Format.binary64.exponentBits : Int) = 2048 := rfl
  have hmin := hc.min
  rw [UnpackedFloat.ofScientific, dif_neg hpos, if_neg (by omega), if_neg (by omega),
    if_neg (by omega)]
  have hle := divCore_exponent_le hm hc he
  unfold UnpackedFloat.div divCore
  dsimp only
  generalize min (0 - 0) (Format.binary64.targetExponent
      (totalExponent (m * 5 ^ (-e).toNat) 0 - totalExponent (10 ^ (-e).toNat) 0)) = t at hle ⊢
  have hshift : (m * 5 ^ (-e).toNat) <<< (0 - 0 - t).toNat
      = m * 2 ^ (e - t).toNat * 10 ^ (-e).toNat := by
    rw [Nat.shiftLeft_eq, show (0 - 0 - t).toNat = (e - t).toNat + (-e).toNat by omega, pow_add,
      show (10 : Nat) ^ (-e).toNat = 5 ^ (-e).toNat * 2 ^ (-e).toNat by rw [← Nat.mul_pow]]
    ring
  have h10 : 0 < (10 : Nat) ^ (-e).toNat := by positivity
  rw [hshift, Nat.mul_div_cancel _ h10, Nat.mul_mod_left, accuracyOfFraction, if_pos rfl]
  have hround := roundWithAccuracy_exact (k := (e - t).toNat) .positive hm hc
  rw [show e - ((e - t).toNat : Int) = t by omega] at hround
  exact hround

/-- Every canonical value is read back from its exact expansion. -/
theorem ofScientific_expansion {m : Nat} {e : Int} (hm : 0 < m) (hc : Canonical m e) :
    UnpackedFloat.ofScientific .binary64 (expansion m e).1 (expansion m e).2
      = .finite .positive m e hm := by
  unfold expansion
  by_cases he : 0 ≤ e
  · rw [if_pos he]
    exact mul_expansion hm hc he
  · rw [if_neg he]
    exact div_expansion hm hc (by omega)

/-! ## The shortest decimal -/

/-- The number of digits of `num / den` before the decimal point; leading zeros after the point
count negatively. -/
def decpt (num den : Nat) : Int :=
  if den ≤ num then (Nat.toDigits 10 (num / den)).length
  else
    let j := (Nat.toDigits 10 (den / num)).length
    if den ≤ num * 10 ^ (j - 1) then 2 - (j : Int) else 1 - (j : Int)

/-- The two neighbours of `num / den` with `n` significant digits, the nearer one first. -/
def neighbours (num den n : Nat) : List Nat :=
  let s := (n : Int) - decpt num den
  let top := num * 10 ^ s.toNat
  let bottom := den * 10 ^ (-s).toNat
  let q := top / bottom
  let r := 2 * (top % bottom)
  if r < bottom ∨ r = bottom ∧ q % 2 = 0 then [q, q + 1] else [q + 1, q]

/-- The digits of a positive number without its trailing zeros. -/
def significant (d : Nat) : List Char := ((Nat.toDigits 10 d).reverse.dropWhile (· = '0')).reverse

/-- At least two digits, as the exponent has. -/
def twoDigits (n : Nat) : List Char := if n < 10 then '0' :: Nat.toDigits 10 n else Nat.toDigits 10 n

/-- The layout of `repr`: digits `ds` whose decimal point stands after the first `k` of them. -/
def layout (neg : Bool) (ds : List Char) (k : Int) : Decimal :=
  if -4 < k ∧ k ≤ 16 then
    if k ≤ 0 then ⟨neg, ['0'], some (List.replicate (-k).toNat '0' ++ ds), none⟩
    else if k < ds.length then ⟨neg, ds.take k.toNat, some (ds.drop k.toNat), none⟩
    else ⟨neg, ds ++ List.replicate (k.toNat - ds.length) '0', some ['0'], none⟩
  else
    ⟨neg, ds.take 1, if ds.length ≤ 1 then none else some (ds.drop 1),
      some (k ≤ 0, twoDigits (k - 1).natAbs)⟩

/-- The literals that `repr` may choose for `num / den`, from one significant digit on. -/
def literals (neg : Bool) (num den : Nat) : List Decimal :=
  (List.range 17).flatMap fun n =>
    ((neighbours num den (n + 1)).filter (· ≠ 0)).map fun d =>
      layout neg (significant d)
        (decpt num den + (Nat.toDigits 10 d).length - (n + 1 : Nat))

/-- The exact expansion as a literal. -/
def exactLiteral (neg : Bool) (m : Nat) (e : Int) : Decimal :=
  let (num, scale) := expansion m e
  ⟨neg, Nat.toDigits 10 num, none, some (decide (scale < 0), Nat.toDigits 10 scale.natAbs)⟩

/-- `float.__repr__` on a finite number: the first literal that reads back as the number. -/
def repr (x : PyFloat) : Decimal :=
  match x.unpack with
  | .finite s m e _ =>
    let neg := s == .negative
    ((literals neg (m * 2 ^ e.toNat) (2 ^ (-e).toNat)).find? fun d => d.value = x).getD
      (exactLiteral neg m e)
  | .zero .negative => ⟨true, ['0'], some ['0'], none⟩
  | _ => ⟨false, ['0'], some ['0'], none⟩

/-- Neither an infinity nor the NaN. -/
def PyFloat.isFinite (x : PyFloat) : Bool :=
  match x.unpack with
  | .finite .. => true
  | .zero _ => true
  | _ => false

/-! ### Reading it back -/

/-- The exact literal has the value that it was made from. -/
theorem value_exactLiteral {m : Nat} {e : Int} (neg : Bool) (hm : 0 < m) (hc : Canonical m e) :
    (exactLiteral neg m e).value
      = .pack (.finite (if neg then .negative else .positive) m e hm) := by
  have hscale : (exactLiteral neg m e).scale = (expansion m e).2 := by
    simp only [exactLiteral, Decimal.scale, Nat.ofDigitChars_ten_toDigits, decide_eq_true_eq,
      Option.getD_none, List.length_nil]
    split <;> omega
  have hmantissa : (exactLiteral neg m e).mantissa = (expansion m e).1 := by
    simp [exactLiteral, Decimal.mantissa, Nat.ofDigitChars_ten_toDigits]
  rw [Decimal.value, hscale, hmantissa, ofScientific_expansion hm hc]
  cases neg <;> rfl

/-- Reading back what `repr` wrote gives the number. -/
theorem value_repr {x : PyFloat} (hx : x.isFinite = true) : (repr x).value = x := by
  have hpack := pack_unpack x
  unfold PyFloat.isFinite at hx
  unfold repr
  cases hu : x.unpack with
  | finite s m e hm =>
    simp only
    rw [hu] at hpack
    cases hf : (literals (s == .negative) (m * 2 ^ e.toNat) (2 ^ (-e).toNat)).find?
        fun d => d.value = x with
    | some d =>
      have hd := List.find?_some hf
      exact of_decide_eq_true hd
    | none =>
      rw [Option.getD_none, value_exactLiteral _ hm (canonical_of_unpack hu), ← hpack]
      cases s <;> rfl
  | zero s =>
    rw [hu] at hpack
    cases s with
    | negative => exact hpack ▸ by decide
    | positive => exact hpack ▸ by decide
  | infinity s => rw [hu] at hx; cases hx
  | notANumber => rw [hu] at hx; cases hx

/-! ### The grammar of what it writes -/

namespace Decimal

theorem Digits.append {ds es : List Char} (h : Digits ds) (he : ∀ c ∈ es, c.isDigit = true) :
    Digits (ds ++ es) :=
  ⟨by simp [h.1], fun c hc => (List.mem_append.mp hc).elim (h.2 c) (he c)⟩

theorem isDigit_of_mem_zeros {n : Nat} {c : Char} (h : c ∈ List.replicate n '0') :
    c.isDigit = true := by
  rw [(List.mem_replicate.mp h).2]
  decide

theorem digits_zero : Digits ['0'] := ⟨by decide, List.forall_mem_singleton.mpr rfl⟩

theorem digits_toDigits (n : Nat) : Digits (Nat.toDigits 10 n) :=
  ⟨Nat.toDigits_ne_nil, fun _ hc => Nat.isDigit_of_mem_toDigits (by decide) (by decide) hc⟩

/-- A positive number has no leading zero. -/
theorem head_toDigits {n : Nat} (hn : 0 < n) : (Nat.toDigits 10 n).head? ≠ some '0' := by
  induction n using Nat.strongRecOn with
  | ind n ih =>
    by_cases h : n < 10
    · rw [Nat.toDigits_of_lt_base h]
      have hall : ∀ k < 10, 0 < k → [Nat.digitChar k].head? ≠ some '0' := by decide
      exact hall n h hn
    · rw [Nat.toDigits_of_base_le (by decide) (by omega), List.head?_append_of_ne_nil _
        Nat.toDigits_ne_nil]
      exact ih (n / 10) (by omega) (by omega)

end Decimal

open Decimal (Digits digits_zero digits_toDigits head_toDigits isDigit_of_mem_zeros)

theorem significant_eq_append (d : Nat) :
    ∃ zeros, Nat.toDigits 10 d = significant d ++ zeros ∧ ∀ c ∈ zeros, c = '0' := by
  refine ⟨((Nat.toDigits 10 d).reverse.takeWhile (· = '0')).reverse, ?_, ?_⟩
  · rw [significant, ← List.reverse_append, List.takeWhile_append_dropWhile, List.reverse_reverse]
  · intro c hc
    have hall := List.all_eq_true.mp List.all_takeWhile c (List.mem_reverse.mp hc)
    exact of_decide_eq_true hall

/-- The significant digits of a number start with no zero. -/
theorem digits_significant {d : Nat} (hd : d ≠ 0) :
    Digits (significant d) ∧ (significant d).head? ≠ some '0' := by
  obtain ⟨zeros, heq, hzeros⟩ := significant_eq_append d
  have hhead := head_toDigits (Nat.pos_of_ne_zero hd)
  have hne : significant d ≠ [] := by
    intro hnil
    rw [hnil, List.nil_append] at heq
    rw [heq] at hhead
    cases zeros with
    | nil => exact Nat.toDigits_ne_nil heq
    | cons c cs => exact hhead (by rw [hzeros c List.mem_cons_self]; rfl)
  refine ⟨⟨hne, fun c hc => ?_⟩, ?_⟩
  · refine (digits_toDigits d).2 c ?_
    rw [heq]
    exact List.mem_append_left _ hc
  · rwa [heq, List.head?_append_of_ne_nil _ hne] at hhead

theorem digits_twoDigits (n : Nat) : Digits (twoDigits n) := by
  unfold twoDigits
  split
  · refine ⟨List.cons_ne_nil _ _, fun c hc => ?_⟩
    rcases List.mem_cons.mp hc with rfl | hc
    · decide
    · exact (digits_toDigits n).2 c hc
  · exact digits_toDigits n

/-- The layout of `repr` is a literal, -/
theorem wf_layout (neg : Bool) {ds : List Char} (k : Int) (hds : Digits ds)
    (hhead : ds.head? ≠ some '0') : (layout neg ds k).WF := by
  obtain ⟨hne, hdig⟩ := hds
  have hlen : 0 < ds.length := List.length_pos_iff.mpr hne
  have htake : ∀ n, 0 < n → (ds.take n).head? ≠ some '0' := by
    intro n hn
    rwa [List.head?_take, if_neg (by omega)]
  unfold layout
  split
  · split
    · next hk =>
      refine ⟨⟨digits_zero, fun _ => rfl, ?_, by simp⟩, Or.inl rfl⟩
      rintro fs hfs
      cases hfs
      refine ⟨by simp [hne], fun c hc => ?_⟩
      exact (List.mem_append.mp hc).elim isDigit_of_mem_zeros (hdig c)
    · next hk =>
      split
      · next hlt =>
        refine ⟨⟨⟨?_, fun c hc => hdig c (List.mem_of_mem_take hc)⟩,
          fun h => absurd h (htake _ (by omega)), ?_, by simp⟩, Or.inl rfl⟩
        · rw [ne_eq, List.take_eq_nil_iff]
          rintro (h | h)
          · omega
          · exact hne h
        · rintro fs hfs
          cases hfs
          refine ⟨?_, fun c hc => hdig c (List.mem_of_mem_drop hc)⟩
          rw [ne_eq, List.drop_eq_nil_iff]
          omega
      · refine ⟨⟨Digits.append ⟨hne, hdig⟩ fun c hc => isDigit_of_mem_zeros hc, fun h => ?_, ?_,
          by simp⟩, Or.inl rfl⟩
        · rw [List.head?_append_of_ne_nil _ hne] at h
          exact absurd h hhead
        · rintro fs hfs
          cases hfs
          exact digits_zero
  · refine ⟨⟨⟨?_, fun c hc => hdig c (List.mem_of_mem_take hc)⟩,
      fun h => absurd h (htake 1 (by decide)), ?_, ?_⟩, Or.inr rfl⟩
    · rw [ne_eq, List.take_eq_nil_iff]
      rintro (h | h)
      · cases h
      · exact hne h
    · intro fs hfs
      split at hfs
      · cases hfs
      · next hl =>
        cases hfs
        refine ⟨?_, fun c hc => hdig c (List.mem_of_mem_drop hc)⟩
        rw [ne_eq, List.drop_eq_nil_iff]
        omega
    · rintro n es hes
      cases hes
      exact digits_twoDigits _

/-- so are the short candidates -/
theorem wf_of_mem_literals {neg : Bool} {num den : Nat} {d : Decimal}
    (h : d ∈ literals neg num den) : d.WF := by
  obtain ⟨n, -, hd⟩ := List.mem_flatMap.mp h
  obtain ⟨k, hk, rfl⟩ := List.mem_map.mp hd
  have hk0 : k ≠ 0 := by simpa using (List.mem_filter.mp hk).2
  obtain ⟨hdig, hhead⟩ := digits_significant hk0
  exact wf_layout neg _ hdig hhead

/-- and the exact one. -/
theorem wf_exactLiteral (neg : Bool) {m : Nat} {e : Int} (hm : 0 < m) :
    (exactLiteral neg m e).WF := by
  have hpos : 0 < (expansion m e).1 := by
    unfold expansion
    split <;> exact Nat.mul_pos hm (by positivity)
  refine ⟨⟨digits_toDigits _, fun h => absurd h (head_toDigits hpos), by simp [exactLiteral], ?_⟩,
    Or.inr rfl⟩
  rintro n es hes
  cases hes
  exact digits_toDigits _

/-- What `repr` writes is a JSON number with a fraction or an exponent. -/
theorem wf_repr (x : PyFloat) : (repr x).WF := by
  have hzero : ∀ neg, (⟨neg, ['0'], some ['0'], none⟩ : Decimal).WF := fun neg =>
    ⟨⟨digits_zero, fun _ => rfl, by rintro ds hds; cases hds; exact digits_zero, by simp⟩,
      Or.inl rfl⟩
  unfold repr
  split
  · next s m e hm _ =>
    simp only
    cases hf : (literals (s == .negative) (m * 2 ^ e.toNat) (2 ^ (-e).toNat)).find?
        fun d => d.value = x with
    | some d => exact wf_of_mem_literals (List.mem_of_find?_eq_some hf)
    | none => exact wf_exactLiteral _ hm
  · exact hzero true
  · exact hzero false

end Nio.Py
