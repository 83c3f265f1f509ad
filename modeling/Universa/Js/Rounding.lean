import Universa.Js.Arithmetic
import Universa.Js.Double

/-! Operations on doubles, each rounded to the nearest: a rounding never crosses an integer, and a product of
    a few factors is off by a part in `2 ^ 50` at most. Dates are moved by such results, and are invalid
    outside the range of `Date`. -/

namespace Universa.Js
namespace Number

/-! ### One rounding -/

/-- The step between doubles near `q`. -/
def spacing (q : ℚ) : ℚ := 2 ^ max (exponent q - 52) (-1074)

theorem spacing_pos (q : ℚ) : 0 < spacing q := zpow_pos (by norm_num) _

theorem log2_bounds {n : ℕ} (h : n ≠ 0) : (2 : ℚ) ^ n.log2 ≤ n ∧ (n : ℚ) < 2 ^ (n.log2 + 1) := by
  constructor
  · exact_mod_cast Nat.log2_self_le h
  · exact_mod_cast Nat.lt_log2_self

/-- The first binary digit of `q` stands at the place `exponent q`. -/
theorem exponent_bounds {q : ℚ} (h : q ≠ 0) : (2 : ℚ) ^ exponent q ≤ |q| ∧ |q| < 2 ^ (exponent q + 1) := by
  obtain ⟨hnum, hnum'⟩ := log2_bounds (Int.natAbs_ne_zero.mpr (Rat.num_ne_zero.mpr h))
  obtain ⟨hden, hden'⟩ := log2_bounds q.den_nz
  have hq : |q| = q.num.natAbs / q.den := by
    conv_lhs => rw [← Rat.num_div_den q, abs_div, ← Int.cast_abs, Int.abs_eq_natAbs, Nat.abs_cast]
    rfl
  have hpos : (0 : ℚ) < q.den := by exact_mod_cast q.den_pos
  have htwo : (2 : ℚ) ≠ 0 := two_ne_zero
  have hlow : (2 : ℚ) ^ ((q.num.natAbs.log2 : ℤ) - q.den.log2 - 1) ≤ |q| := by
    rw [hq, le_div_iff₀ hpos, sub_sub, zpow_sub₀ htwo, zpow_natCast, div_mul_eq_mul_div,
      div_le_iff₀ (zpow_pos (by norm_num) _)]
    exact mul_le_mul hnum (by exact_mod_cast hden'.le) hpos.le (by positivity)
  have hhigh : |q| < (2 : ℚ) ^ ((q.num.natAbs.log2 : ℤ) - q.den.log2 + 1) := by
    rw [hq, div_lt_iff₀ hpos, sub_add_eq_add_sub, zpow_sub₀ htwo, zpow_natCast, div_mul_eq_mul_div,
      lt_div_iff₀ (by positivity)]
    exact mul_lt_mul (by exact_mod_cast hnum') hden (by positivity) (by positivity)
  simp only [exponent]
  split
  · exact ⟨by assumption, hhigh⟩
  · refine ⟨hlow, ?_⟩
    rw [sub_add_cancel]
    exact not_le.mp (by assumption)

theorem le_roundEven {z : ℤ} {q : ℚ} (h : z ≤ q) : z ≤ roundEven q := by
  have hfloor : z ≤ ⌊q⌋ := Int.le_floor.mpr h
  unfold roundEven
  split <;> omega

theorem roundEven_near (q : ℚ) : |(roundEven q : ℚ) - q| ≤ 1 / 2 := by
  have hlow := Int.floor_le q
  have hhigh := Int.lt_floor_add_one q
  unfold roundEven
  split
  · rename_i h
    rw [abs_le]
    rcases h with h | ⟨h, -⟩ <;> constructor <;> linarith
  · rename_i h
    have hhalf : 1 / 2 ≤ q - ⌊q⌋ := not_lt.mp fun hlt => h (.inl hlt)
    rw [abs_le]
    push_cast
    constructor <;> linarith

theorem eq_of_ofRat {q y : ℚ} (h : ofRat q = .fin y) : y = roundEven (q / spacing q) * spacing q := by
  simp only [ofRat] at h
  split at h
  · cases h
  · split at h
    · cases h
    · exact (Number.fin.inj h).symm

/-- A double is off by half a part in `2 ^ 52`, or by half the least step. -/
theorem ofRat_near {q y : ℚ} (h : ofRat q = .fin y) : |y - q| ≤ |q| / 2 ^ 53 + 2 ^ (-1075 : ℤ) := by
  have hpos := spacing_pos q
  have hleast : (0 : ℚ) < 2 ^ (-1075 : ℤ) := zpow_pos (by norm_num) _
  have hrest : 0 ≤ |q| / 2 ^ 53 := by positivity
  rcases eq_or_ne q 0 with rfl | hq
  · have hy : y = 0 := by simpa [roundEven] using eq_of_ofRat h
    rw [hy, sub_zero, abs_zero]
    linarith
  have hstep : |y - q| ≤ spacing q / 2 := by
    have hdiv : q = q / spacing q * spacing q := (div_mul_cancel₀ q hpos.ne').symm
    calc |y - q| = |(roundEven (q / spacing q) : ℚ) - q / spacing q| * spacing q := by
          rw [eq_of_ofRat h, ← abs_of_pos hpos, ← abs_mul, abs_of_pos hpos, sub_mul, ← hdiv]
      _ ≤ 1 / 2 * spacing q := mul_le_mul_of_nonneg_right (roundEven_near _) hpos.le
      _ = spacing q / 2 := by ring
  refine hstep.trans ?_
  rcases max_choice (exponent q - 52) (-1074) with hmax | hmax
  · have hexp : spacing q / 2 ≤ |q| / 2 ^ 53 := by
      rw [spacing, hmax, zpow_sub₀ two_ne_zero, div_div]
      refine (div_le_div_of_nonneg_right (exponent_bounds hq).1 (by positivity)).trans (le_of_eq ?_)
      norm_num
    linarith
  · have hexp : spacing q / 2 = 2 ^ (-1075 : ℤ) := by
      rw [spacing, hmax, div_eq_iff two_ne_zero, ← zpow_add_one₀ two_ne_zero]
      rfl
    linarith

/-- Rounding does not cross a number of the grid that it uses. -/
theorem le_of_grid {q y b : ℚ} (h : ofRat q = .fin y) {z : ℤ} (hz : b = z * spacing q) (hle : b ≤ q) : b ≤ y := by
  have hpos := spacing_pos q
  have hround : z ≤ roundEven (q / spacing q) := le_roundEven ((le_div_iff₀ hpos).mpr (hz ▸ hle))
  rw [eq_of_ofRat h, hz]
  exact mul_le_mul_of_nonneg_right (by exact_mod_cast hround) hpos.le

/-- Where a number has `53 + j` digits before the point, the multiples of `2 ^ j` are on its grid. -/
theorem multiple_on_grid {q : ℚ} {j : ℕ} (hq : exponent q ≤ 52 + j) (z : ℤ) :
    ∃ w : ℤ, (z : ℚ) * 2 ^ j = w * spacing q := by
  obtain ⟨k, hk⟩ : ∃ k : ℕ, max (exponent q - 52) (-1074) = j - (k : ℤ) :=
    ⟨(j - max (exponent q - 52) (-1074)).toNat, by omega⟩
  refine ⟨z * 2 ^ k, ?_⟩
  rw [spacing, hk, zpow_sub₀ two_ne_zero, zpow_natCast, zpow_natCast]
  push_cast
  field_simp

/-- Rounding does not go below a double. -/
theorem double_le_of_ofRat {q y : ℚ} (h : ofRat q = .fin y) (j : ℕ) {z : ℤ} (hz : z.natAbs ≤ 2 ^ 53)
    (hle : z * 2 ^ j ≤ q) : z * 2 ^ j ≤ y := by
  rcases le_or_gt (exponent q) (52 + j) with hexp | hexp
  · obtain ⟨w, hw⟩ := multiple_on_grid hexp z
    exact le_of_grid h hw hle
  · have hne : q ≠ 0 := by
      rintro rfl
      have hzero : exponent 0 = -1 := by decide +kernel
      omega
    have hlow : (2 : ℚ) ^ 53 * 2 ^ j ≤ 2 ^ exponent q := by
      rw [← pow_add, ← zpow_natCast]
      exact zpow_le_zpow_right₀ (by norm_num) (by push_cast; omega)
    have hgrid : (2 : ℚ) ^ exponent q = (2 ^ 52 : ℤ) * spacing q := by
      rw [spacing, max_eq_left (by omega), zpow_sub₀ two_ne_zero]
      push_cast
      field_simp
    have hbound : |(z : ℚ)| ≤ 2 ^ 53 := by
      rw [← Int.cast_abs, Int.abs_eq_natAbs]
      exact_mod_cast hz
    have hwide : |(z : ℚ) * 2 ^ j| ≤ 2 ^ 53 * 2 ^ j := by
      rw [abs_mul, abs_of_pos (by positivity : (0 : ℚ) < 2 ^ j)]
      exact mul_le_mul_of_nonneg_right hbound (by positivity)
    rw [abs_le] at hwide
    have hdigit := (exponent_bounds hne).1
    rcases abs_cases q with ⟨hq, -⟩ | ⟨hq, -⟩
    · exact hwide.2.trans (hlow.trans (le_of_grid h hgrid (hdigit.trans hq.le)))
    · have heq : (z : ℚ) * 2 ^ j = (-2 ^ 52 : ℤ) * spacing q := by
        push_cast at hgrid ⊢
        linarith [hwide.1]
      exact le_of_grid h heq hle

/-- Rounding does not go above a double. -/
theorem ofRat_le_double {q y : ℚ} (h : ofRat q = .fin y) (j : ℕ) {z : ℤ} (hz : z.natAbs ≤ 2 ^ 53)
    (hle : q ≤ z * 2 ^ j) : y ≤ z * 2 ^ j := by
  have hneg : ofRat (-q) = .fin (-y) := by rw [ofRat_neg, h, sub_fin, zero_sub]
  have hbound := double_le_of_ofRat (z := -z) hneg j (by rwa [Int.natAbs_neg]) (by push_cast; linarith)
  push_cast at hbound
  linarith

theorem int_le_of_ofRat {q y : ℚ} (h : ofRat q = .fin y) {z : ℤ} (hz : z.natAbs ≤ 2 ^ 53) (hle : z ≤ q) : z ≤ y := by
  simpa using double_le_of_ofRat h 0 hz (by simpa using hle)

theorem ofRat_le_int {q y : ℚ} (h : ofRat q = .fin y) {z : ℤ} (hz : z.natAbs ≤ 2 ^ 53) (hle : q ≤ z) : y ≤ z := by
  simpa using ofRat_le_double h 0 hz (by simpa using hle)

/-- A rounded number lies between the same integers. -/
theorem ofRat_between {q y : ℚ} (h : ofRat q = .fin y) (hup : y < 2 ^ 53) (hdown : -2 ^ 53 < y) :
    (⌊q⌋ : ℚ) ≤ y ∧ y ≤ ⌈q⌉ := by
  have hq : q < 2 ^ 53 := by
    by_contra hge
    have hle := int_le_of_ofRat (z := 2 ^ 53) h (by decide) (by push_cast; linarith)
    push_cast at hle
    linarith
  have hq' : -2 ^ 53 < q := by
    by_contra hge
    have hle := ofRat_le_int (z := -2 ^ 53) h (by decide) (by push_cast; linarith)
    push_cast at hle
    linarith
  have hfloor : ⌊q⌋ < 2 ^ 53 ∧ -2 ^ 53 ≤ ⌊q⌋ :=
    ⟨Int.floor_lt.mpr (by push_cast; exact hq), Int.le_floor.mpr (by push_cast; exact hq'.le)⟩
  have hceil : ⌈q⌉ ≤ 2 ^ 53 ∧ -2 ^ 53 < ⌈q⌉ :=
    ⟨Int.ceil_le.mpr (by push_cast; exact hq.le), Int.lt_ceil.mpr (by push_cast; exact hq')⟩
  exact ⟨int_le_of_ofRat h (by omega) (Int.floor_le q), ofRat_le_int h (by omega) (Int.le_ceil q)⟩

/-! ### Operations -/

/-- `x + y`, rounded. -/
def plus (x y : Number) : Number := (x.add y).round

/-- `x - y`, rounded. -/
def minus (x y : Number) : Number := (x.sub y).round

/-- `x * y`, rounded. -/
def times (x y : Number) : Number := (x.mul y).round

/-- `x / y`, rounded. -/
def dividedBy (x y : Number) : Number := (x.div y).round

theorem plus_fin (a b : ℚ) : (Number.fin a).plus (.fin b) = ofRat (a + b) := rfl

/-- A factor of a finite product is finite. -/
theorem times_eq_fin {x : Number} {a y : ℚ} (ha : a ≠ 0) (h : x.times (.fin a) = .fin y) :
    ∃ q, x = .fin q ∧ ofRat (q * a) = .fin y := by
  cases x with
  | fin q => exact ⟨q, rfl, h⟩
  | nan => exact absurd h nofun
  | posInf | negInf =>
      simp only [times, mul, Number.fin.injEq, ha, reduceCtorEq, or_self, if_false, infinity] at h
      split at h <;> exact absurd h nofun

/-- A dividend of a finite quotient is finite. -/
theorem dividedBy_eq_fin {x : Number} {a y : ℚ} (ha : a ≠ 0) (h : x.dividedBy (.fin a) = .fin y) :
    ∃ q, x = .fin q ∧ ofRat (q * a⁻¹) = .fin y := by
  cases x with
  | fin q =>
      rw [dividedBy, div_fin q ha, div_eq_mul_inv] at h
      exact ⟨q, rfl, h⟩
  | nan => exact absurd h nofun
  | posInf | negInf =>
      simp only [dividedBy, div, infinity] at h
      split at h <;> exact absurd h nofun

theorem minus_eq_fin {x : Number} {a y : ℚ} (h : (Number.fin a).minus x = .fin y) :
    ∃ q, x = .fin q ∧ ofRat (a - q) = .fin y := by
  cases x with
  | fin q => exact ⟨q, rfl, h⟩
  | nan | posInf | negInf => exact absurd h nofun

/-! ### Products -/

/-- `y` is `d` after `k` roundings. -/
structure Rounded (k : ℕ) (y d : ℚ) : Prop where
  near : |y - d| ≤ 9 / 8 * k * (|d| / 2 ^ 53) + 2 ^ (14 * k - 1075 : ℤ)
  nonneg : 0 ≤ d → 0 ≤ y
  nonpos : d ≤ 0 → y ≤ 0

theorem Rounded.refl (d : ℚ) : Rounded 0 d d := by
  refine ⟨?_, id, id⟩
  have hleast : (0 : ℚ) < 2 ^ (14 * (0 : ℕ) - 1075 : ℤ) := zpow_pos (by norm_num) _
  rw [sub_self, abs_zero, Nat.cast_zero, mul_zero, zero_mul, zero_add]
  exact hleast.le

/-- One more factor, one more rounding. -/
theorem Rounded.times {k : ℕ} {y d a y' : ℚ} (h : Rounded k y d) (hk : k ≤ 7) (ha : 0 < a) (ha' : a ≤ 2 ^ 12)
    (hy : ofRat (y * a) = .fin y') : Rounded (k + 1) y' (d * a) := by
  refine ⟨?_, fun hd => ?_, fun hd => ?_⟩
  · have hround := ofRat_near hy
    have hpos : (0 : ℚ) < 2 ^ (14 * k - 1075 : ℤ) := zpow_pos (by norm_num) _
    have hmove : |y * a - d * a| ≤ 9 / 8 * k * (|d * a| / 2 ^ 53) + 2 ^ (14 * k - 1075 : ℤ) * 2 ^ 12 := by
      calc |y * a - d * a| = |y - d| * a := by rw [← sub_mul, abs_mul, abs_of_pos ha]
        _ ≤ (9 / 8 * k * (|d| / 2 ^ 53) + 2 ^ (14 * k - 1075 : ℤ)) * a := mul_le_mul_of_nonneg_right h.near ha.le
        _ = 9 / 8 * k * (|d * a| / 2 ^ 53) + 2 ^ (14 * k - 1075 : ℤ) * a := by
            rw [abs_mul, abs_of_pos ha]
            ring
        _ ≤ _ := add_le_add_right (mul_le_mul_of_nonneg_left ha' hpos.le) _
    have hsize : |y * a| ≤ |d * a| + |y * a - d * a| := by
      have := abs_add_le (d * a) (y * a - d * a)
      rwa [add_sub_cancel] at this
    have hsum : |y' - d * a| ≤ |y' - y * a| + |y * a - d * a| := abs_sub_le _ _ _
    have hfew : (k : ℚ) * (|d * a| / 2 ^ 53) ≤ 7 * (|d * a| / 2 ^ 53) :=
      mul_le_mul_of_nonneg_right (by exact_mod_cast hk) (by positivity)
    have hleast : (2 : ℚ) ^ (-1075 : ℤ) ≤ 2 ^ (14 * k - 1075 : ℤ) := zpow_le_zpow_right₀ (by norm_num) (by omega)
    have hnext : (2 : ℚ) ^ (14 * (k + 1 : ℕ) - 1075 : ℤ) = 2 ^ (14 * k - 1075 : ℤ) * 2 ^ 14 := by
      rw [← zpow_natCast, ← zpow_add₀ two_ne_zero]
      congr 1
      push_cast
      ring
    have hpart : 0 ≤ |d * a| / 2 ^ 53 := by positivity
    rw [hnext]
    push_cast
    generalize (2 : ℚ) ^ (14 * k - 1075 : ℤ) = least at *
    generalize (2 : ℚ) ^ (-1075 : ℤ) = half at *
    linarith
  · exact_mod_cast int_le_of_ofRat (z := 0) hy (by decide)
      (by exact_mod_cast mul_nonneg (h.nonneg (nonneg_of_mul_nonneg_left hd ha)) ha.le)
  · exact_mod_cast ofRat_le_int (z := 0) hy (by decide)
      (by exact_mod_cast mul_nonpos_of_nonpos_of_nonneg (h.nonpos (nonpos_of_mul_nonpos_left hd ha)) ha.le)

/-- A quotient by what a last factor was. -/
theorem Rounded.quotient {k : ℕ} {y d a : ℚ} (h : Rounded k y (d * a)) (ha : 1 ≤ a) : Rounded k (y / a) d := by
  have hpos : 0 < a := lt_of_lt_of_le one_pos ha
  refine ⟨?_, fun hd => div_nonneg (h.nonneg (mul_nonneg hd hpos.le)) hpos.le, fun hd =>
    div_nonpos_of_nonpos_of_nonneg (h.nonpos (mul_nonpos_of_nonpos_of_nonneg hd hpos.le)) hpos.le⟩
  have hleast : (0 : ℚ) < 2 ^ (14 * k - 1075 : ℤ) := zpow_pos (by norm_num) _
  calc |y / a - d| = |y - d * a| / a := by
        rw [← abs_of_pos hpos, ← abs_div, abs_of_pos hpos, sub_div, mul_div_cancel_right₀ _ hpos.ne']
    _ ≤ (9 / 8 * k * (|d * a| / 2 ^ 53) + 2 ^ (14 * k - 1075 : ℤ)) / a := div_le_div_of_nonneg_right h.near hpos.le
    _ = 9 / 8 * k * (|d| / 2 ^ 53) + 2 ^ (14 * k - 1075 : ℤ) / a := by
        rw [abs_mul, abs_of_pos hpos]
        field_simp
    _ ≤ _ := add_le_add_right (div_le_self hleast.le ha) _

/-- An integer, or a number further from the integers than a few roundings take it. -/
def Apart (d : ℚ) : Prop := d = ⌊d⌋ ∨ |d| / 2 ^ 50 < d - ⌊d⌋ ∧ |d| / 2 ^ 50 < ⌈d⌉ - d

instance (d : ℚ) : Decidable (Apart d) := inferInstanceAs (Decidable (_ ∨ _))

/-- Where the integers are apart, a few roundings stay between those next to the number, and one more where it
    is an integer. -/
theorem Rounded.within {k : ℕ} {y d : ℚ} (h : Rounded k y d) (hk : k ≤ 5) (hy : |y| ≤ 2 ^ 49) (hd : Apart d) :
    ⌈y⌉ ≤ d + 1 ∧ d ≤ ⌊y⌋ + 1 := by
  have hleast : (2 : ℚ) ^ (14 * k - 1075 : ℤ) ≤ 1 / 2 ^ 60 := by
    rw [show (1 : ℚ) / 2 ^ 60 = 2 ^ (-60 : ℤ) by norm_num]
    exact zpow_le_zpow_right₀ (by norm_num) (by omega)
  have hfew : (k : ℚ) * (|d| / 2 ^ 53) ≤ 5 * (|d| / 2 ^ 53) :=
    mul_le_mul_of_nonneg_right (by exact_mod_cast hk) (by positivity)
  have hnear : |y - d| ≤ 9 / 8 * 5 * (|d| / 2 ^ 53) + 1 / 2 ^ 60 := by linarith [h.near]
  have hsize : |d| ≤ 2 ^ 50 := by
    have hsum : |d| ≤ |d - y| + |y| := by simpa using abs_add_le (d - y) y
    rw [abs_sub_comm] at hsum
    linarith
  rcases hd with hwhole | ⟨hbelow, habove⟩
  · have hclose : |y - d| < 1 := by linarith
    rw [abs_lt] at hclose
    have hceil : ⌈y⌉ ≤ ⌊d⌋ + 1 := Int.ceil_le.mpr (by push_cast; linarith)
    have hfloor : ⌊d⌋ - 1 ≤ ⌊y⌋ := Int.le_floor.mpr (by push_cast; linarith)
    rw [hwhole]
    exact ⟨by exact_mod_cast hceil, by exact_mod_cast (by omega : ⌊d⌋ ≤ ⌊y⌋ + 1)⟩
  · have hbetween : (⌊d⌋ : ℚ) ≤ y ∧ y ≤ ⌈d⌉ := by
      rw [abs_le] at hnear
      rcases le_or_gt (1 / 2) |d| with hbig | hsmall
      · constructor <;> linarith [hnear.1, hnear.2]
      · -- near zero the sign is kept
        rw [abs_lt] at hsmall
        have hpart : |d| / 2 ^ 53 ≤ 1 / 2 ^ 53 := by
          refine div_le_div_of_nonneg_right (abs_le.mpr ⟨?_, ?_⟩) (by positivity) <;> linarith
        have hgap : 0 ≤ |d| / 2 ^ 50 := by positivity
        rcases le_or_gt 0 d with hpos | hneg
        · have hceil : 1 ≤ ⌈d⌉ := Int.one_le_ceil_iff.mpr (lt_of_le_of_ne hpos fun h0 => by simp [← h0] at hbelow)
          have hceil' : (1 : ℚ) ≤ ⌈d⌉ := by exact_mod_cast hceil
          have hfloor : ⌊d⌋ = 0 := Int.floor_eq_zero_iff.mpr ⟨hpos, by linarith⟩
          rw [hfloor, Int.cast_zero]
          exact ⟨h.nonneg hpos, by linarith [hnear.2]⟩
        · have hfloor : ⌊d⌋ ≤ -1 := by
            have : ⌊d⌋ < 0 := Int.floor_lt.mpr (by exact_mod_cast hneg)
            omega
          have hfloor' : (⌊d⌋ : ℚ) ≤ -1 := by exact_mod_cast hfloor
          have hceil : ⌈d⌉ = 0 := Int.ceil_eq_zero_iff.mpr ⟨by linarith, hneg.le⟩
          rw [hceil, Int.cast_zero]
          exact ⟨by linarith [hnear.1], h.nonpos hneg.le⟩
    have hceil : ⌈y⌉ ≤ ⌈d⌉ := Int.ceil_le.mpr hbetween.2
    have hfloor : ⌊d⌋ ≤ ⌊y⌋ := Int.le_floor.mpr hbetween.1
    have hceil' : (⌈y⌉ : ℚ) ≤ ⌈d⌉ := by exact_mod_cast hceil
    have hfloor' : (⌊d⌋ : ℚ) ≤ ⌊y⌋ := by exact_mod_cast hfloor
    have hup := Int.ceil_lt_add_one d
    have hdown := Int.lt_floor_add_one d
    constructor <;> linarith

end Number

/-! ### Dates -/

namespace Date

/-- The last date, in milliseconds. -/
def limit : ℤ := 8640000000000000

/-- `TimeClip`: outside the range of dates the date is invalid. -/
def clip (t : ℤ) : Option ℤ := if |t| ≤ limit then some t else none

/-- `new Date(x)`, in the range of dates. -/
def ofDouble : Number → Option ℤ
  | .fin q => clip (ofMilliseconds q)
  | _ => none

/-- `date.setSeconds(x)`, in the range of dates. -/
def putSeconds (date : ℤ) : Number → Option ℤ
  | .fin q => clip (setSeconds date q)
  | _ => none

theorem clip_eq_some {t t' : ℤ} (h : clip t = some t') : t' = t ∧ |t'| ≤ limit := by
  obtain ⟨hle, ht⟩ := Option.ite_none_right_eq_some.mp h
  obtain rfl := Option.some.inj ht
  exact ⟨rfl, hle⟩

theorem ofDouble_eq_some {x : Number} {t : ℤ} (h : ofDouble x = some t) :
    ∃ y, x = .fin y ∧ t = toInteger y ∧ |t| ≤ limit := by
  cases x with
  | fin y => exact ⟨y, rfl, clip_eq_some h⟩
  | nan | posInf | negInf => exact absurd h nofun

theorem putSeconds_eq_some {t t' : ℤ} {x : Number} (h : putSeconds t x = some t') :
    ∃ y, x = .fin y ∧ t' = setSeconds t y ∧ |t'| ≤ limit := by
  cases x with
  | fin y => exact ⟨y, rfl, clip_eq_some h⟩
  | nan | posInf | negInf => exact absurd h nofun

/-- What is cut to an integer up to `n` is less than `n + 1`. -/
theorem lt_of_toInteger {y : ℚ} {n : ℤ} (h : |toInteger y| ≤ n) : |y| < n + 1 := by
  have hlow := Int.lt_floor_add_one y
  have hhigh := Int.ceil_lt_add_one y
  have hfloor := Int.floor_le y
  have hceil := Int.le_ceil y
  have habs : |(toInteger y : ℚ)| ≤ n := by exact_mod_cast h
  rw [abs_le] at habs
  rw [abs_lt]
  unfold toInteger at habs
  split at habs <;> constructor <;> linarith

/-- A difference cut to an integer after rounding moves by an integer next to what is taken. -/
theorem toInteger_minus {n : ℤ} {q y : ℚ} (h : Number.ofRat (n - q) = .fin y) (hy : |y| < 2 ^ 53) :
    n - ⌈q⌉ ≤ toInteger y ∧ toInteger y ≤ n - ⌊q⌋ := by
  rw [abs_lt] at hy
  obtain ⟨hlow, hhigh⟩ := Number.ofRat_between h hy.2 hy.1
  rw [sub_eq_add_neg, Int.floor_intCast_add, Int.floor_neg, ← sub_eq_add_neg] at hlow
  rw [sub_eq_add_neg, Int.ceil_intCast_add, Int.ceil_neg, ← sub_eq_add_neg] at hhigh
  exact ⟨(Int.le_floor.mpr hlow).trans (floor_le_toInteger y), (toInteger_le_ceil y).trans (Int.ceil_le.mpr hhigh)⟩

/-- A date moved back by a duration in milliseconds moves by a whole number next to it. -/
theorem ofDouble_minus {t t' : ℤ} {x : Number} (h : ofDouble ((Number.fin t).minus x) = some t') :
    ∃ q, x = .fin q ∧ t - ⌈q⌉ ≤ t' ∧ t' ≤ t - ⌊q⌋ ∧ |t'| ≤ limit := by
  obtain ⟨y, hy, rfl, hrange⟩ := ofDouble_eq_some h
  obtain ⟨q, rfl, hround⟩ := Number.minus_eq_fin hy
  have hbound := lt_of_toInteger hrange
  have hsmall : |y| < 2 ^ 53 := hbound.trans (by norm_num [limit])
  obtain ⟨hlow, hhigh⟩ := toInteger_minus hround hsmall
  exact ⟨q, rfl, hlow, hhigh, hrange⟩

/-- Moving the seconds back by a duration moves the date by a whole number of seconds next to it. -/
theorem putSeconds_minus {t t' : ℤ} (ht : |t| ≤ limit) {x : Number}
    (h : putSeconds t ((Number.fin (getSeconds t)).minus x) = some t') :
    ∃ q, x = .fin q ∧ |q| ≤ 2 ^ 45 ∧ t - 1000 * ⌈q⌉ ≤ t' ∧ t' ≤ t - 1000 * ⌊q⌋ ∧ t' % 1000 = t % 1000 ∧ |t'| ≤ limit := by
  obtain ⟨y, hy, rfl, hrange⟩ := putSeconds_eq_some h
  obtain ⟨q, rfl, hround⟩ := Number.minus_eq_fin hy
  have hseconds : |toInteger y| ≤ 2 ^ 44 := by
    rw [abs_le] at ht hrange ⊢
    unfold setSeconds getSeconds limit at hrange
    unfold limit at ht
    omega
  have hbound := lt_of_toInteger hseconds
  have hsmall : |y| < 2 ^ 53 := hbound.trans (by norm_num)
  obtain ⟨hlow, hhigh⟩ := toInteger_minus hround hsmall
  refine ⟨q, rfl, ?_, ?_, ?_, setSeconds_emod t y, hrange⟩
  · rw [abs_le] at hseconds ⊢
    have hs : 0 ≤ getSeconds t ∧ getSeconds t < 60 := by
      unfold getSeconds
      omega
    have hceil : -2 ^ 45 ≤ ⌈q⌉ - 1 := by omega
    have hfloor : ⌊q⌋ + 1 ≤ 2 ^ 45 := by omega
    have hceil' : (-2 ^ 45 : ℚ) ≤ ⌈q⌉ - 1 := by exact_mod_cast hceil
    have hfloor' : (⌊q⌋ : ℚ) + 1 ≤ 2 ^ 45 := by exact_mod_cast hfloor
    constructor
    · linarith [Int.ceil_lt_add_one q]
    · linarith [Int.lt_floor_add_one q]
  · unfold setSeconds
    linarith
  · unfold setSeconds
    linarith

/-- A date of whole seconds moved back by a duration, and cut to its second, is off by a second at most where
    the seconds next to the duration are. -/
theorem clearMilliseconds_near {t t' : ℤ} {q d : ℚ} (ht : t % 1000 = 0) (hlow : t - ⌈q⌉ ≤ t') (hhigh : t' ≤ t - ⌊q⌋)
    (hd : ⌈q / 1000⌉ ≤ d + 1 ∧ d ≤ ⌊q / 1000⌋ + 1) : |(clearMilliseconds t' : ℚ) - (t - d * 1000)| ≤ 1000 := by
  have hceil : ⌈q⌉ ≤ 1000 * ⌈q / 1000⌉ := Int.ceil_le.mpr (by push_cast; linarith [Int.le_ceil (q / 1000)])
  have hfloor : 1000 * ⌊q / 1000⌋ ≤ ⌊q⌋ := Int.le_floor.mpr (by push_cast; linarith [Int.floor_le (q / 1000)])
  have hclear : t - 1000 * ⌈q / 1000⌉ ≤ clearMilliseconds t' ∧ clearMilliseconds t' ≤ t - 1000 * ⌊q / 1000⌋ := by
    unfold clearMilliseconds
    omega
  have hbelow : (t : ℚ) - 1000 * ⌈q / 1000⌉ ≤ clearMilliseconds t' := by exact_mod_cast hclear.1
  have habove : (clearMilliseconds t' : ℚ) ≤ t - 1000 * ⌊q / 1000⌋ := by exact_mod_cast hclear.2
  rw [abs_le]
  constructor <;> linarith [hd.1, hd.2]

/-- A duration in seconds, as milliseconds after rounding, is between the same whole seconds. -/
theorem milliseconds_between {q w : ℚ} (h : Number.ofRat (q * 1000) = .fin w) (hq : |q| ≤ 2 ^ 45) :
    1000 * ⌊q⌋ ≤ ⌊w⌋ ∧ ⌈w⌉ ≤ 1000 * ⌈q⌉ := by
  rw [abs_le] at hq
  have hfloor : -2 ^ 45 - 1 ≤ ⌊q⌋ ∧ ⌊q⌋ ≤ 2 ^ 45 := by
    have hlow : (-2 ^ 45 - 1 : ℚ) ≤ ⌊q⌋ := by linarith [Int.lt_floor_add_one q]
    have hhigh : (⌊q⌋ : ℚ) ≤ 2 ^ 45 := by linarith [Int.floor_le q]
    exact ⟨by exact_mod_cast hlow, by exact_mod_cast hhigh⟩
  have hgap := Int.ceil_le_floor_add_one q
  have hle := Int.floor_le_ceil q
  have hbelow := Number.double_le_of_ofRat (z := 125 * ⌊q⌋) h 3 (by omega)
    (by push_cast; linarith [Int.floor_le q])
  have habove := Number.ofRat_le_double (z := 125 * ⌈q⌉) h 3 (by omega)
    (by push_cast; linarith [Int.le_ceil q])
  push_cast at hbelow habove
  exact ⟨Int.le_floor.mpr (by push_cast; linarith), Int.ceil_le.mpr (by push_cast; linarith)⟩

end Date

end Universa.Js
