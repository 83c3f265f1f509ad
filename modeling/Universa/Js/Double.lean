import Mathlib.Algebra.Order.Field.Power
import Mathlib.Data.List.TakeWhile
import Mathlib.Tactic.Linarith
import Universa.Js.Value

/-! Integers as doubles: rounding is odd, keeps the integers up to `2 ^ 53`, and the decimal text of an
    integer is read as the double nearest to it. -/

namespace Universa.Js
namespace Number

/-! ### Rounding -/

theorem roundEven_int (z : ℤ) : roundEven z = z := by
  simp [roundEven]

theorem roundEven_neg (q : ℚ) : roundEven (-q) = -roundEven q := by
  rcases eq_or_lt_of_le (Int.floor_le q) with hz | hlt
  · rw [← hz, ← Int.cast_neg, roundEven_int, roundEven_int]
  · have hfloor : ⌊-q⌋ = -⌊q⌋ - 1 := by
      rw [Int.floor_eq_iff]
      push_cast
      have hup := Int.lt_floor_add_one q
      constructor <;> linarith
    have hrest : -q - (⌊-q⌋ : ℚ) = 1 - (q - ⌊q⌋) := by
      rw [hfloor]
      push_cast
      ring
    unfold roundEven
    rw [hrest, hfloor]
    rcases lt_trichotomy (q - ⌊q⌋) (1 / 2) with hlow | hmid | hhigh
    · rw [if_neg, if_pos (.inl hlow)]
      · ring
      · rintro (h | ⟨h, -⟩) <;> linarith
    · rw [hmid]
      by_cases heven : ⌊q⌋ % 2 = 0
      · have hodd : ¬ (-⌊q⌋ - 1) % 2 = 0 := by omega
        rw [if_neg, if_pos (.inr ⟨rfl, heven⟩)]
        · ring
        · rintro (h | ⟨-, h⟩)
          · norm_num at h
          · exact hodd h
      · have heven' : (-⌊q⌋ - 1) % 2 = 0 := by omega
        rw [if_pos (.inr ⟨by norm_num, heven'⟩), if_neg]
        · ring
        · rintro (h | ⟨-, h⟩)
          · norm_num at h
          · exact heven h
    · rw [if_pos (.inl (by linarith)), if_neg]
      · ring
      · rintro (h | ⟨h, -⟩) <;> linarith

theorem exponent_neg (q : ℚ) : exponent (-q) = exponent q := by
  simp [exponent]

/-- The double nearest to `-q`. -/
theorem ofRat_neg (q : ℚ) : ofRat (-q) = Number.sub (.fin 0) (ofRat q) := by
  have hbig : (0 : ℚ) < 2 ^ 1024 := by positivity
  simp only [ofRat, exponent_neg, neg_div, roundEven_neg, Int.cast_neg, neg_mul]
  generalize (roundEven (q / 2 ^ max (exponent q - 52) (-1074)) : ℚ) *
    2 ^ max (exponent q - 52) (-1074) = r
  generalize (2 : ℚ) ^ 1024 = big at hbig ⊢
  by_cases hup : big ≤ r
  · have hneg : ¬ big ≤ -r := by linarith
    have hdown : -r ≤ -big := by linarith
    simp only [hup, hneg, hdown, if_true, if_false, Number.sub]
  · by_cases hdown : r ≤ -big
    · have hpos : big ≤ -r := by linarith
      simp only [hup, hdown, hpos, if_true, if_false, Number.sub]
    · have hpos : ¬ big ≤ -r := by linarith
      have hneg : ¬ -r ≤ -big := by linarith
      simp only [hup, hdown, hpos, hneg, if_false, Number.sub, zero_sub]

/-- A number of the grid that rounding uses for it stays. -/
theorem ofRat_grid {q : ℚ} {z : ℤ} (hz : q = z * 2 ^ max (exponent q - 52) (-1074))
    (hup : q < 2 ^ 1024) (hdown : -2 ^ 1024 < q) : ofRat q = .fin q := by
  have hne : (2 : ℚ) ^ max (exponent q - 52) (-1074) ≠ 0 := zpow_ne_zero _ (by norm_num)
  have hdiv : q / 2 ^ max (exponent q - 52) (-1074) = z := by
    rw [div_eq_iff hne]
    exact hz
  unfold ofRat
  simp only [hdiv, roundEven_int, ← hz, not_le.mpr hup, not_le.mpr hdown, if_false]

theorem exponent_int {z : ℤ} (hz : z ≠ 0) : exponent z = z.natAbs.log2 := by
  have hpow : (2 : ℚ) ^ (z.natAbs.log2 : ℤ) ≤ |(z : ℚ)| := by
    have hle : 2 ^ z.natAbs.log2 ≤ z.natAbs := Nat.log2_self_le (by omega)
    rw [zpow_natCast, ← Int.cast_abs, Int.abs_eq_natAbs]
    exact_mod_cast hle
  have hone : (Nat.log2 1 : ℤ) = 0 := rfl
  simp only [exponent, Rat.num_intCast, Rat.den_intCast, hone, sub_zero, hpow, if_true]

/-- The integers up to `2 ^ 53` are doubles. -/
theorem ofRat_int {z : ℤ} (h : z.natAbs ≤ 2 ^ 53) : ofRat z = .fin z := by
  rcases eq_or_ne z 0 with rfl | hz
  · decide +kernel
  have habs : |(z : ℚ)| ≤ 2 ^ 53 := by
    rw [← Int.cast_abs, Int.abs_eq_natAbs]
    exact_mod_cast h
  have hbig : (2 : ℚ) ^ 53 < 2 ^ 1024 := pow_lt_pow_right₀ (by norm_num) (by norm_num)
  have hup : (z : ℚ) < 2 ^ 1024 := (abs_le.mp habs).2.trans_lt hbig
  have hdown : -2 ^ 1024 < (z : ℚ) := (neg_lt_neg hbig).trans_le (abs_le.mp habs).1
  rcases Nat.lt_or_eq_of_le h with hlt | heq
  · have hlog : z.natAbs.log2 < 53 := (Nat.log2_lt (by omega)).mpr hlt
    have hmax : max (exponent z - 52) (-1074) = -((52 - z.natAbs.log2 : ℕ) : ℤ) := by
      rw [exponent_int hz]
      omega
    refine ofRat_grid (z := z * 2 ^ (52 - z.natAbs.log2)) ?_ hup hdown
    rw [hmax, zpow_neg, zpow_natCast]
    push_cast
    field_simp
  · have hlog : z.natAbs.log2 = 53 := by rw [heq]; decide
    have hmax : max (exponent z - 52) (-1074) = 1 := by
      rw [exponent_int hz, hlog]
      rfl
    have hhalf : z = (z / 2) * 2 := by omega
    refine ofRat_grid (z := z / 2) ?_ hup hdown
    rw [hmax, zpow_one]
    exact_mod_cast hhalf

end Number

/-! ### The text of an integer -/

theorem decimalLiteral_digits {ds : List Char} (hne : ds ≠ []) (hall : ∀ d ∈ ds, d.isDigit = true) :
    decimalLiteral ds = some (digitsValue ds : ℚ) := by
  have htake : ds.takeWhile Char.isDigit = ds := List.takeWhile_eq_self_iff.mpr hall
  have hdrop : ds.dropWhile Char.isDigit = [] := List.dropWhile_eq_nil_iff.mpr hall
  simp [decimalLiteral, htake, hdrop, hne]

theorem digit_bounds {c : Char} (h : c.isDigit = true) : 48 ≤ c.toNat ∧ c.toNat ≤ 57 := by
  simpa [Char.isDigit, UInt32.le_iff_toNat_le] using h

theorem isSpace_digit {c : Char} (h : c.isDigit = true) : isSpace c = false := by
  have hbounds := digit_bounds h
  rw [isSpace, decide_eq_false_iff_not]
  simp only [List.mem_cons, List.not_mem_nil, or_false]
  omega

theorem baseDigit_digit {c : Char} (h : c.isDigit = true) : baseDigit 10 c = some (c.toNat - 48) := by
  have hbounds := digit_bounds h
  simp only [baseDigit, h, if_true]
  exact if_pos (by omega)

theorem numeral_digits {ds : List Char} (hne : ds ≠ []) (hall : ∀ d ∈ ds, d.isDigit = true) :
    numeral ds = .ofRat (digitsValue ds) := by
  have hword : ds ≠ "Infinity".toList := by
    rintro rfl
    exact absurd (hall 'I' (by decide)) (by decide)
  rw [numeral, if_neg hword, decimalLiteral_digits hne hall]

/-- Trimming leaves a text whose first and last characters are no spaces. -/
theorem trim_eq {cs : List Char} (h : ∀ c ∈ cs, isSpace c = false) :
    ((cs.dropWhile isSpace).reverse.dropWhile isSpace).reverse = cs := by
  have hkeep : ∀ {l : List Char}, (∀ c ∈ l, isSpace c = false) → l.dropWhile isSpace = l := by
    intro l hl
    cases l with
    | nil => rfl
    | cons c l => rw [List.dropWhile_cons_of_neg (by simp [hl c (List.mem_cons_self ..)])]
  rw [hkeep h, hkeep (fun c hc => h c (List.mem_reverse.mp hc)), List.reverse_reverse]

/-- A row of digits as a number. -/
theorem textNumber_digits {s : String} (hne : s.toList ≠ [])
    (hall : ∀ d ∈ s.toList, d.isDigit = true) : textNumber s = .ofRat (digitsValue s.toList) := by
  rw [textNumber, trim_eq fun c hc => isSpace_digit (hall c hc), ← numeral_digits hne hall]
  split
  case h_1 heq => exact absurd heq hne
  case h_10 => rfl
  all_goals
    rename_i heq
    rw [heq] at hall
    simp [Char.isDigit] at hall

/-- A minus sign and a row of digits as a number. -/
theorem textNumber_minus {s : String} {ds : List Char} (hs : s.toList = '-' :: ds) (hne : ds ≠ [])
    (hall : ∀ d ∈ ds, d.isDigit = true) :
    textNumber s = Number.sub (.fin 0) (.ofRat (digitsValue ds)) := by
  have hspace : ∀ c ∈ s.toList, isSpace c = false := by
    rw [hs]
    intro c hc
    rcases List.mem_cons.mp hc with rfl | hc
    · decide
    · exact isSpace_digit (hall c hc)
  rw [textNumber, trim_eq hspace, hs, ← numeral_digits hne hall]
  rfl

theorem toDigits_digit {n : ℕ} {d : Char} (h : d ∈ Nat.toDigits 10 n) : d.isDigit = true :=
  Nat.isDigit_of_mem_toDigits (by decide) (by decide) h

theorem digitsValue_toDigits (n : ℕ) : digitsValue (Nat.toDigits 10 n) = n :=
  Nat.ofDigitChars_ten_toDigits

/-- The text of an integer is read as the double nearest to it. -/
theorem textNumber_int (z : ℤ) : textNumber (toString z) = .ofRat z := by
  have hdigits (n : ℕ) : ∀ d ∈ Nat.toDigits 10 n, d.isDigit = true := fun d hd => toDigits_digit hd
  rw [Int.toString_eq_repr, Int.repr_eq_if]
  by_cases hz : 0 ≤ z
  · have hlist : z.toNat.repr.toList = Nat.toDigits 10 z.toNat := Nat.toList_repr
    have hcast : ((z.toNat : ℕ) : ℚ) = z := by exact_mod_cast Int.toNat_of_nonneg hz
    rw [if_pos hz, textNumber_digits (hlist ▸ Nat.toDigits_ne_nil) (hlist ▸ hdigits _), hlist,
      digitsValue_toDigits, hcast]
  · have hlist : ("-" ++ (-z).toNat.repr).toList = '-' :: Nat.toDigits 10 (-z).toNat := by
      rw [String.toList_append, Nat.toList_repr]
      rfl
    have hcast : (((-z).toNat : ℕ) : ℚ) = -z := by
      exact_mod_cast Int.toNat_of_nonneg (by omega : 0 ≤ -z)
    rw [if_neg hz, textNumber_minus hlist Nat.toDigits_ne_nil (hdigits _), digitsValue_toDigits,
      hcast, ← Number.ofRat_neg, neg_neg]

end Universa.Js
