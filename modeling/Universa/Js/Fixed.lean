import Mathlib.Algebra.IsPrimePow
import Mathlib.Data.Nat.Prime.Pow
import Universa.Js.Double

/-! Decimals in positional notation (`big.js`): `toFixed` writes a decimal, `new BigDecimal` reads it back,
    and the unit of its last digit is no smaller than a power of ten that it is a multiple of. -/

namespace Universa.Js

/-- Finitely many digits after the point, as in every `BigDecimal`. -/
def Terminating (q : ℚ) : Prop := ∃ n : ℕ, q.den ∣ 10 ^ n

/-- A whole number of units. -/
def MultipleOf (unit q : ℚ) : Prop := ∃ m : ℤ, q = m * unit

/-- The digits of `toFixed`, at least one of them before the point. -/
def fixedDigits (q : ℚ) : List Char :=
  let ds := Nat.toDigits 10 (q * 10 ^ places q).num.natAbs
  List.replicate (places q + 1 - ds.length) '0' ++ ds

/-- `toFixed()`: all digits, without an exponent. -/
def toFixed (q : ℚ) : String :=
  let ds := fixedDigits q
  let point := ds.length - places q
  String.ofList ((if q < 0 then ['-'] else []) ++
    (ds.take point ++ if places q = 0 then [] else '.' :: ds.drop point))

example : toFixed (-1 / 400) = "-0.0025" := by decide +kernel

/-! ### Places -/

theorem dvd_ten_pow_log2 {d n : ℕ} (h : d ∣ 10 ^ n) : d ∣ 10 ^ d.log2 := by
  have hpow : (10 : ℕ) ^ n = 2 ^ n * 5 ^ n := by rw [← Nat.mul_pow]
  obtain ⟨x, y, hx, hy, rfl⟩ := (Nat.dvd_mul).mp (hpow ▸ h)
  obtain ⟨a, -, rfl⟩ := (Nat.dvd_prime_pow Nat.prime_two).mp hx
  obtain ⟨b, -, rfl⟩ := (Nat.dvd_prime_pow Nat.prime_five).mp hy
  have hne : 2 ^ a * 5 ^ b ≠ 0 := by positivity
  have ha : a ≤ (2 ^ a * 5 ^ b).log2 :=
    (Nat.le_log2 hne).mpr (Nat.le_mul_of_pos_right _ (by positivity))
  have hb : b ≤ (2 ^ a * 5 ^ b).log2 := by
    refine (Nat.le_log2 hne).mpr ?_
    calc 2 ^ b ≤ 5 ^ b := Nat.pow_le_pow_left (by decide) b
      _ ≤ 2 ^ a * 5 ^ b := Nat.le_mul_of_pos_left _ (by positivity)
  have hten (m : ℕ) : (10 : ℕ) ^ m = 2 ^ m * 5 ^ m := by rw [← Nat.mul_pow]
  rw [hten]
  exact Nat.mul_dvd_mul (pow_dvd_pow 2 ha) (pow_dvd_pow 5 hb)

/-- The digits after the point are the first number of them that is enough. -/
theorem places_spec {q : ℚ} (h : Terminating q) :
    q.den ∣ 10 ^ places q ∧ ∀ n, q.den ∣ 10 ^ n → places q ≤ n := by
  obtain ⟨n, hn⟩ := h
  have hin : q.den.log2 ∈ List.range (q.den.log2 + 1) := List.mem_range.mpr (Nat.lt_succ_self _)
  have hfound : (10 ^ q.den.log2 % q.den == 0) = true :=
    beq_iff_eq.mpr (Nat.mod_eq_zero_of_dvd (dvd_ten_pow_log2 hn))
  obtain ⟨i, hi⟩ := Option.isSome_iff_exists.mp
    ((List.find?_isSome (p := fun i => 10 ^ i % q.den == 0)).mpr ⟨_, hin, hfound⟩)
  have hplaces : places q = i := by rw [places, hi, Option.getD_some]
  obtain ⟨hdvd, -, hfirst⟩ := List.find?_range_eq_some.mp hi
  rw [hplaces]
  refine ⟨Nat.dvd_of_mod_eq_zero (beq_iff_eq.mp hdvd), fun m hm => ?_⟩
  by_contra hlt
  have hnot := hfirst m (not_le.mp hlt)
  rw [Nat.mod_eq_zero_of_dvd hm] at hnot
  cases hnot

/-- A decimal without its point. -/
theorem shifted_eq {q : ℚ} (h : Terminating q) :
    q * 10 ^ places q = (q * 10 ^ places q).num := by
  obtain ⟨c, hc⟩ := (places_spec h).1
  have hcast : (10 : ℚ) ^ places q = q.den * c := by exact_mod_cast hc
  have hint : q * 10 ^ places q = (q.num * c : ℤ) := by
    rw [hcast, ← mul_assoc, Rat.mul_den_eq_num]
    push_cast
    rfl
  rw [hint, Rat.num_intCast]

theorem den_whole (m : ℤ) (n : ℕ) : ((m : ℚ) * 10 ^ (n : ℤ)).den = 1 := by
  have hint : (m : ℚ) * 10 ^ (n : ℤ) = ((m * 10 ^ n : ℤ) : ℚ) := by push_cast; rfl
  rw [hint, Rat.den_intCast]

theorem den_fraction (m : ℤ) (n : ℕ) : ((m : ℚ) * 10 ^ (-(n : ℤ))).den ∣ 10 ^ n := by
  have hdiv : (m : ℚ) * 10 ^ (-(n : ℤ)) = Rat.divInt m (10 ^ n : ℕ) := by
    rw [Rat.divInt_eq_div, zpow_neg, zpow_natCast, div_eq_mul_inv]
    push_cast
    rfl
  rw [hdiv]
  exact_mod_cast Rat.den_dvd m (10 ^ n : ℕ)

theorem MultipleOf.terminating {k : ℤ} {q : ℚ} (h : MultipleOf (10 ^ k) q) : Terminating q := by
  obtain ⟨m, rfl⟩ := h
  obtain ⟨n, rfl | rfl⟩ := Int.eq_nat_or_neg k
  · exact ⟨0, (den_whole m n).symm ▸ one_dvd _⟩
  · exact ⟨n, den_fraction m n⟩

/-! ### Written and read -/

theorem digitsValue_zeros (n : ℕ) (ds : List Char) :
    digitsValue (List.replicate n '0' ++ ds) = digitsValue ds := by
  induction n with
  | zero => rfl
  | succ n ih =>
      rw [← ih]
      rfl

theorem decimalLiteral_point {whole fraction : List Char} (hne : whole ≠ [])
    (hw : ∀ d ∈ whole, d.isDigit = true) (hf : ∀ d ∈ fraction, d.isDigit = true) :
    decimalLiteral (whole ++ '.' :: fraction) =
      some ((digitsValue (whole ++ fraction) : ℚ) * 10 ^ (-(fraction.length : ℤ))) := by
  have hpoint : Char.isDigit '.' = false := by decide
  have htake : (whole ++ '.' :: fraction).takeWhile Char.isDigit = whole := by
    rw [List.takeWhile_append_of_pos hw, List.takeWhile_cons_of_neg (by simp [hpoint]), List.append_nil]
  have hdrop : (whole ++ '.' :: fraction).dropWhile Char.isDigit = '.' :: fraction := by
    rw [List.dropWhile_append_of_pos hw, List.dropWhile_cons_of_neg (by simp [hpoint])]
  have hall : fraction.takeWhile Char.isDigit = fraction := List.takeWhile_eq_self_iff.mpr hf
  have hnone : fraction.dropWhile Char.isDigit = [] := List.dropWhile_eq_nil_iff.mpr hf
  simp [decimalLiteral, htake, hdrop, hall, hnone, hne]

theorem places_lt_length (q : ℚ) : places q < (fixedDigits q).length := by
  simp only [fixedDigits, List.length_append, List.length_replicate]
  omega

theorem fixedDigits_digit {q : ℚ} {d : Char} (h : d ∈ fixedDigits q) : d.isDigit = true := by
  rcases List.mem_append.mp h with h | h
  · rw [List.eq_of_mem_replicate h]
    decide
  · exact toDigits_digit h

theorem fixedDigits_value {q : ℚ} (h : Terminating q) :
    (digitsValue (fixedDigits q) : ℚ) * 10 ^ (-(places q : ℤ)) = |q| := by
  have hvalue : (digitsValue (fixedDigits q) : ℚ) = |q| * 10 ^ places q := by
    rw [fixedDigits, digitsValue_zeros, digitsValue_toDigits, Nat.cast_natAbs, Int.cast_abs,
      ← shifted_eq h, abs_mul, abs_of_pos (by positivity : (0 : ℚ) < 10 ^ places q)]
  rw [hvalue, zpow_neg, zpow_natCast, mul_assoc, mul_inv_cancel₀ (by positivity), mul_one]

/-- The digits with their point, without a sign. -/
theorem decimalLiteral_fixed {q : ℚ} (h : Terminating q) :
    decimalLiteral ((fixedDigits q).take ((fixedDigits q).length - places q) ++
      if places q = 0 then [] else '.' :: (fixedDigits q).drop ((fixedDigits q).length - places q)) =
    some |q| := by
  have hlt := places_lt_length q
  split
  next hzero =>
    have hvalue := fixedDigits_value h
    rw [hzero, Int.natCast_zero, neg_zero, zpow_zero, mul_one] at hvalue
    rw [hzero, Nat.sub_zero, List.take_length, List.append_nil,
      decimalLiteral_digits (List.ne_nil_of_length_pos (by omega)) fun d hd => fixedDigits_digit hd, hvalue]
  next =>
    have hdrop : ((fixedDigits q).drop ((fixedDigits q).length - places q)).length = places q := by
      rw [List.length_drop]
      omega
    rw [decimalLiteral_point, List.take_append_drop, hdrop, fixedDigits_value h]
    · refine List.ne_nil_of_length_pos ?_
      rw [List.length_take]
      omega
    · exact fun d hd => fixedDigits_digit (List.mem_of_mem_take hd)
    · exact fun d hd => fixedDigits_digit (List.mem_of_mem_drop hd)

/-- `new BigDecimal` reads what `toFixed` writes. -/
theorem bigText_toFixed {q : ℚ} (h : Terminating q) : bigText (toFixed q) = some q := by
  have hread := decimalLiteral_fixed h
  have htext : (toFixed q).toList = (if q < 0 then ['-'] else []) ++
      ((fixedDigits q).take ((fixedDigits q).length - places q) ++
        if places q = 0 then [] else '.' :: (fixedDigits q).drop ((fixedDigits q).length - places q)) := by
    rw [toFixed, String.toList_ofList]
  rw [bigText, htext]
  rcases lt_or_ge q 0 with hneg | hpos
  · rw [if_pos hneg, List.singleton_append]
    change (decimalLiteral _).map _ = _
    rw [hread, Option.map_some, abs_of_neg hneg, neg_neg]
  · rw [if_neg (not_lt.mpr hpos), List.nil_append]
    obtain ⟨d, ds, hds⟩ := List.exists_cons_of_length_pos (l := fixedDigits q)
      ((Nat.zero_le _).trans_lt (places_lt_length q))
    have hd : d.isDigit = true := fixedDigits_digit (hds ▸ List.mem_cons_self ..)
    split
    next cs heq =>
      obtain ⟨n, hn⟩ : ∃ n, (fixedDigits q).length - places q = n + 1 :=
        ⟨_, (Nat.succ_pred_eq_of_pos (Nat.sub_pos_of_lt (places_lt_length q))).symm⟩
      rw [hn, hds, List.take_succ_cons, List.cons_append] at heq
      rw [(List.cons.inj heq).1] at hd
      cases hd
    next => rw [hread, abs_of_nonneg hpos]

theorem bigDecimal_toFixed {q : ℚ} (h : Terminating q) : bigDecimal (.str (toFixed q)) = some q :=
  bigText_toFixed h

/-! ### The unit of the last digit -/

theorem le_zeros {n N : ℕ} (hN : N ≠ 0) (h : 10 ^ n ∣ N) : n ≤ zeros N := by
  have hlog : n ≤ N.log2 := (Nat.le_log2 hN).mpr
    ((Nat.pow_le_pow_left (by decide) n).trans (Nat.le_of_dvd (Nat.pos_of_ne_zero hN) h))
  have hin : n ∈ (List.range (N.log2 + 1)).reverse := by
    rw [List.mem_reverse, List.mem_range]
    omega
  have hn : (N % 10 ^ n == 0) = true := beq_iff_eq.mpr (Nat.mod_eq_zero_of_dvd h)
  obtain ⟨i, hi⟩ := Option.isSome_iff_exists.mp
    ((List.find?_isSome (p := fun i => N % 10 ^ i == 0)).mpr ⟨_, hin, hn⟩)
  have hzeros : zeros N = i := by rw [zeros, hi, Option.getD_some]
  obtain ⟨-, before, after, hsplit, hbefore⟩ := List.find?_eq_some_iff_append.mp hi
  rw [hzeros]
  rw [hsplit] at hin
  have hdesc : (before ++ i :: after).Pairwise (· > ·) := by
    rw [← hsplit, List.pairwise_reverse]
    exact List.pairwise_lt_range
  rcases List.mem_append.mp hin with hin | hin
  · exact absurd hn (by simpa using hbefore n hin)
  · rcases List.mem_cons.mp hin with rfl | hin
    · exact le_rfl
    · exact ((List.pairwise_cons.mp (List.pairwise_append.mp hdesc).2.1).1 n hin).le

/-- A multiple of a power of ten has no digit below it. -/
theorem le_ulp {k : ℤ} {q : ℚ} (hq : q ≠ 0) (h : MultipleOf (10 ^ k) q) : (10 : ℚ) ^ k ≤ ulp q := by
  suffices hplace : k ≤ lastPlace q from zpow_le_zpow_right₀ (by norm_num) hplace
  have hfirst := (places_spec h.terminating).2
  rw [lastPlace, if_neg hq]
  obtain ⟨m, rfl⟩ := h
  obtain ⟨n, rfl | rfl⟩ := Int.eq_nat_or_neg k
  · have hzero := Nat.le_zero.mp (hfirst 0 ((den_whole m n).symm ▸ one_dvd _))
    have hint : (m : ℚ) * 10 ^ (n : ℤ) = ((m * 10 ^ n : ℤ) : ℚ) := by push_cast; rfl
    have hm : m ≠ 0 := by
      rintro rfl
      simp at hq
    rw [hzero, pow_zero, mul_one, hint, Rat.num_intCast, Int.natAbs_mul, Int.natAbs_pow, Int.natCast_zero,
      sub_zero]
    exact_mod_cast le_zeros (mul_ne_zero (Int.natAbs_ne_zero.mpr hm) (by positivity)) (Dvd.intro_left _ rfl)
  · have hle := hfirst n (den_fraction m n)
    omega

/-! ### Whole numbers as text -/

theorem toDigits_zeros {m : ℕ} (hm : 0 < m) (n : ℕ) :
    Nat.toDigits 10 (m * 10 ^ n) = Nat.toDigits 10 m ++ List.replicate n '0' := by
  induction n with
  | zero => simp
  | succ n ih =>
      have hmul : m * 10 ^ (n + 1) = 10 * (m * 10 ^ n) + 0 := by ring
      rw [hmul, ← Nat.toDigits_append_toDigits (by decide) (by positivity) (by decide), ih,
        List.replicate_succ', List.append_assoc]
      rfl

theorem zeros_dvd (N : ℕ) : 10 ^ zeros N ∣ N := by
  unfold zeros
  cases hi : (List.range (N.log2 + 1)).reverse.find? fun i => N % 10 ^ i == 0 with
  | none => exact one_dvd N
  | some i =>
      have hfound := List.find?_some (p := fun i => N % 10 ^ i == 0) hi
      exact Nat.dvd_of_mod_eq_zero (beq_iff_eq.mp hfound)

/-- A number below `10 ^ 21` is written without an exponent. -/
theorem decimalText_nat {n : ℕ} (hpos : 0 < n) (h : n < 10 ^ 21) : decimalText n = toString n := by
  have hzero : places (n : ℚ) = 0 := Nat.le_zero.mp ((places_spec ⟨0, by simp⟩).2 0 (by simp))
  have hplace : lastPlace (n : ℚ) = zeros n := by
    rw [lastPlace, if_neg (by exact_mod_cast hpos.ne'), hzero]
    simp
  obtain ⟨m, hm⟩ := zeros_dvd n
  have hmpos : 0 < m := Nat.pos_of_ne_zero (by rintro rfl; omega)
  have hshift : (n : ℚ) * 10 ^ (-(zeros n : ℤ)) = m := by
    rw [zpow_neg, zpow_natCast, ← div_eq_mul_inv, div_eq_iff (by positivity)]
    exact_mod_cast hm.trans (Nat.mul_comm _ _)
  have hdigits : Nat.toDigits 10 n = Nat.toDigits 10 m ++ List.replicate (zeros n) '0' := by
    conv_lhs => rw [hm, Nat.mul_comm]
    exact toDigits_zeros hmpos _
  have hlen := (Nat.length_toDigits_le_iff (b := 10) (by decide) (by decide : 0 < 21)).mpr h
  rw [hdigits, List.length_append, List.length_replicate] at hlen
  have hsign : ¬ (n : ℚ) < 0 := not_lt.mpr (Nat.cast_nonneg n)
  simp only [decimalText, hplace, hshift, Rat.num_natCast, Int.natAbs_natCast, if_neg hsign,
    Nat.toString_eq_repr, Nat.toList_repr]
  rw [if_pos ⟨by omega, by omega⟩, Int.toNat_natCast, ← hdigits]
  exact String.empty_append

/-- The digits of a number are read as the double nearest to it. -/
theorem baseLiteral_toDigits (n : ℕ) : baseLiteral 10 (Nat.toDigits 10 n) = .ofRat n := by
  have hread : ∀ {ds : List Char}, (∀ d ∈ ds, d.isDigit = true) →
      ds.mapM (baseDigit 10) = some (ds.map fun d => d.toNat - 48) := by
    intro ds h
    induction ds with
    | nil => rfl
    | cons d ds ih =>
        rw [List.mapM_cons, baseDigit_digit (h d List.mem_cons_self),
          ih fun d' hd' => h d' (List.mem_cons_of_mem _ hd')]
        rfl
  rw [baseLiteral, if_neg Nat.toDigits_ne_nil, hread fun d hd => toDigits_digit hd]
  simp only [List.foldl_map]
  exact congrArg (fun m : ℕ => Number.ofRat m) (digitsValue_toDigits n)

end Universa.Js
