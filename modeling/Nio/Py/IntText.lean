import Nio.Py.Text
import Nio.Py.JsonRoundtrip

/-!
# Integers in texts

`str` writes an integer in decimal digits, with a sign in front where it is negative, and `int`
reads it. Both refuse more than 4300 digits.

* `toInt?_dumpsInt` — `int(str(i)) == i`
* `dumpsInt_of_toInt?` — an integer that was read can be written
-/

namespace Nio.Py

/-- The digits of `[0-9]` denote themselves. -/
theorem decimal_digit {c : Char} (h : c.isDigit = true) :
    decimal (chr c) = some (c.toNat - 48) := by
  have hrange : 48 ≤ c.toNat ∧ c.toNat < 48 + 10 := by
    simp only [Char.isDigit, Bool.and_eq_true, decide_eq_true_eq] at h
    have h1 := UInt32.le_iff_toNat_le.mp h.1
    have h2 := UInt32.le_iff_toNat_le.mp h.2
    change 48 ≤ c.toNat at h1
    change c.toNat ≤ 57 at h2
    omega
  have hval : (chr c).val = c.toNat := rfl
  unfold decimal decimalZeros
  rw [List.find?_cons_of_pos (by simpa [hval] using hrange), Option.map_some, hval]

theorem val_of_isDigit {c : Char} (h : c.isDigit = true) :
    48 ≤ (chr c).val ∧ (chr c).val ≤ 57 := by
  simp only [Char.isDigit, Bool.and_eq_true, decide_eq_true_eq] at h
  exact ⟨UInt32.le_iff_toNat_le.mp h.1, UInt32.le_iff_toNat_le.mp h.2⟩

theorem isWhite_digit {c : Char} (h : c.isDigit = true) : isWhite (chr c) = false := by
  obtain ⟨h1, h2⟩ := val_of_isDigit h
  unfold isWhite
  simp only [Bool.or_eq_false_iff, Bool.and_eq_false_iff, decide_eq_false_iff_not]
  omega

/-- The digits of a literal are read back. -/
theorem decimals_ofChars {ds : List Char} (h : Decimal.Digits ds) :
    decimals (ofChars ds) = some (ds.map fun c => c.toNat - 48) := by
  obtain ⟨hne, hdigits⟩ := h
  have hsplit : (ofChars ds).splitOn (chr '_') = [ofChars ds] := by
    refine List.splitOn_eq_singleton fun hmem => ?_
    obtain ⟨d, hd, heq⟩ := List.mem_map.mp hmem
    obtain ⟨h1, h2⟩ := val_of_isDigit (hdigits d hd)
    have hval := congrArg Fin.val heq
    change (chr d).val = 95 at hval
    omega
  have hmap : (ofChars ds).mapM decimal = some (ds.map fun c => c.toNat - 48) := by
    clear hsplit hne
    induction ds with
    | nil => rfl
    | cons d ds ih =>
      rw [List.forall_mem_cons] at hdigits
      have hd : decimal (CodePoint.ofChar d) = some (d.toNat - 48) := decimal_digit hdigits.1
      unfold ofChars at ih ⊢
      rw [List.map_cons, List.mapM_cons, hd, ih hdigits.2]
      rfl
  have hnil : ¬ [] ∈ [ofChars ds] := by
    intro hmem
    have hempty := List.mem_singleton.mp hmem
    exact hne (List.map_eq_nil_iff.mp hempty.symm)
  unfold decimals
  rw [hsplit]
  dsimp only
  rw [if_neg hnil]
  simpa using hmap

/-- Their value is that of the literal. -/
theorem foldl_digits (ds : List Char) (n : Nat) :
    (ds.map fun c => c.toNat - 48).foldl (fun n d => 10 * n + d) n = Nat.ofDigitChars 10 ds n := by
  rw [Nat.ofDigitChars_eq_foldl, List.foldl_map]
  rfl

/-- A text without blanks is stripped of nothing. -/
theorem strip_ofChars {cs : List Char} (h : ∀ c ∈ cs, isWhite (chr c) = false) :
    Str.strip (ofChars cs) = ofChars cs := by
  have hwhite : ∀ c ∈ ofChars cs, isWhite c = false := by
    intro c hc
    obtain ⟨d, hd, rfl⟩ := List.mem_map.mp hc
    exact h d hd
  rw [Str.strip_eq_self_iff, List.dropWhile_eq_self_iff, List.rdropWhile_eq_self_iff]
  exact ⟨fun hl => by simp [hwhite _ (List.getElem_mem hl)],
    fun hl => by simp [hwhite _ (List.getLast_mem hl)]⟩

/-- `int(str(i)) == i` -/
theorem toInt?_dumpsInt {i : Int} {t : Str} (h : dumpsInt i = .ok t) : t.toInt? = some i := by
  have hdigits := Decimal.digits_toDigits i.natAbs
  unfold dumpsInt at h
  dsimp only at h
  split at h
  · cases h
  · next hlen =>
    cases h
    have hvalue : (Nat.toDigits 10 i.natAbs).foldl (fun n c => 10 * n + (c.toNat - 48)) 0 =
        i.natAbs := by
      have hfold := foldl_digits (Nat.toDigits 10 i.natAbs) 0
      rw [List.foldl_map] at hfold
      rw [hfold, Nat.ofDigitChars_ten_toDigits]
    have hmax : ¬ (Nat.toDigits 10 i.natAbs).length > 4300 := hlen
    have hstrip : Str.strip (ofChars ((if i < 0 then ['-'] else []) ++ Nat.toDigits 10 i.natAbs)) =
        ofChars ((if i < 0 then ['-'] else []) ++ Nat.toDigits 10 i.natAbs) := by
      refine strip_ofChars fun c hc => ?_
      rcases List.mem_append.mp hc with hc | hc
      · split at hc
        · rw [List.mem_singleton.mp hc]
          rfl
        · cases hc
      · exact isWhite_digit (hdigits.2 c hc)
    unfold Str.toInt?
    rw [hstrip]
    by_cases hneg : i < 0
    · rw [if_pos hneg]
      change (decimals (ofChars (Nat.toDigits 10 i.natAbs))).bind _ = _
      rw [decimals_ofChars hdigits, Option.bind_some, List.length_map, if_neg hmax, List.foldl_map,
        hvalue]
      have habs : -(i.natAbs : Int) = i := by omega
      exact congrArg some habs
    · rw [if_neg hneg, List.nil_append]
      have habs : (i.natAbs : Int) = i := by omega
      have hbody : ∀ d ds, Nat.toDigits 10 i.natAbs = d :: ds →
          chr d ≠ chr '-' ∧ chr d ≠ chr '+' := by
        intro d ds hds
        obtain ⟨h1, -⟩ := val_of_isDigit (hdigits.2 d (by simp [hds]))
        refine ⟨fun heq => ?_, fun heq => ?_⟩
        · have hval := congrArg Fin.val heq
          change (chr d).val = 45 at hval
          omega
        · have hval := congrArg Fin.val heq
          change (chr d).val = 43 at hval
          omega
      cases hds : Nat.toDigits 10 i.natAbs with
      | nil => exact absurd hds hdigits.1
      | cons d ds =>
        obtain ⟨hminus, hplus⟩ := hbody d ds hds
        have hcons : ofChars (d :: ds) = chr d :: ofChars ds := rfl
        rw [hcons]
        simp only [hminus, hplus, if_false, Bool.false_eq_true]
        rw [← hcons, ← hds, decimals_ofChars hdigits, Option.bind_some, List.length_map, if_neg hmax,
          List.foldl_map, hvalue]
        exact congrArg some habs

theorem decimal_lt {c : CodePoint} {d : Nat} (h : decimal c = some d) : d < 10 := by
  unfold decimal at h
  obtain ⟨z, hz, rfl⟩ := Option.map_eq_some_iff.mp h
  have hrange := List.find?_some hz
  simp only [decide_eq_true_eq] at hrange
  omega

theorem lt_ten_of_decimals {s : Str} {ds : List Nat} (h : decimals s = some ds) :
    ∀ d ∈ ds, d < 10 := by
  unfold decimals at h
  dsimp only at h
  split at h
  · cases h
  · generalize (s.splitOn (chr '_')).flatten = cs at h
    induction cs generalizing ds with
    | nil =>
      cases h
      exact List.forall_mem_nil _
    | cons c cs ih =>
      rw [List.mapM_cons] at h
      obtain ⟨d, hd, h⟩ := Option.bind_eq_some_iff.mp h
      obtain ⟨rest, hrest, h⟩ := Option.bind_eq_some_iff.mp h
      cases h
      exact List.forall_mem_cons.mpr ⟨decimal_lt hd, ih hrest⟩

theorem foldl_lt {ds : List Nat} (h : ∀ d ∈ ds, d < 10) (n : Nat) :
    ds.foldl (fun n d => 10 * n + d) n < (n + 1) * 10 ^ ds.length := by
  induction ds generalizing n with
  | nil => simp
  | cons d ds ih =>
    rw [List.forall_mem_cons] at h
    have hrest := ih h.2 (10 * n + d)
    rw [List.foldl_cons, List.length_cons, pow_succ', ← Nat.mul_assoc]
    exact Nat.lt_of_lt_of_le hrest (Nat.mul_le_mul_right _ (by omega))

/-- An integer that was read has at most 4300 digits. -/
theorem dumpsInt_of_toInt? {s : Str} {i : Int} (h : s.toInt? = some i) :
    ∃ t, dumpsInt i = .ok t := by
  unfold Str.toInt? at h
  dsimp only at h
  obtain ⟨ds, hds, h⟩ := Option.bind_eq_some_iff.mp h
  split at h
  · cases h
  · next hlen =>
    have hlt := foldl_lt (lt_ten_of_decimals hds) 0
    have habs : i.natAbs = ds.foldl (fun n d => 10 * n + d) 0 := by
      have hi := Option.some.inj h
      split at hi
      · omega
      · omega
    have hmax : i.natAbs < 10 ^ maxStrDigits := by
      rw [habs, Nat.zero_add, Nat.one_mul] at *
      exact Nat.lt_of_lt_of_le hlt (Nat.pow_le_pow_right (by decide) (Nat.le_of_not_gt hlen))
    have hdigits : (Nat.toDigits 10 i.natAbs).length ≤ maxStrDigits :=
      (Nat.length_toDigits_le_iff (by decide) (by decide)).mpr hmax
    unfold dumpsInt
    dsimp only
    rw [if_neg (Nat.not_lt.mpr hdigits)]
    exact ⟨_, rfl⟩

end Nio.Py
