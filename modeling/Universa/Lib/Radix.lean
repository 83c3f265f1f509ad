import Mathlib.Data.List.TakeWhile
import Mathlib.Data.Nat.Digits.Lemmas
import Mathlib.Tactic.Ring

/-! Digits with the most significant first, and the long division of such a row by a small number: what is
    left is the quotient, digit for digit, and the remainder goes from each digit to the next. -/

namespace Universa.Radix

/-- The number that a row of digits stands for. -/
def value (base : ℕ) (digits : List ℕ) : ℕ := Nat.ofDigits base digits.reverse

/-- The row of a number, without leading zeros. -/
def canonical (base n : ℕ) : List ℕ := (Nat.digits base n).reverse

@[simp] theorem value_nil (base : ℕ) : value base [] = 0 := rfl

theorem value_concat (base : ℕ) (digits : List ℕ) (d : ℕ) :
    value base (digits ++ [d]) = value base digits * base + d := by
  rw [value, List.reverse_append, List.reverse_singleton, List.singleton_append, Nat.ofDigits_cons, value]
  ring

theorem value_cons (base d : ℕ) (digits : List ℕ) :
    value base (d :: digits) = d * base ^ digits.length + value base digits := by
  rw [value, List.reverse_cons, Nat.ofDigits_append, Nat.ofDigits_singleton, List.length_reverse, value]
  ring

@[simp] theorem value_zero_cons (base : ℕ) (digits : List ℕ) :
    value base (0 :: digits) = value base digits := by
  rw [value_cons, Nat.zero_mul, Nat.zero_add]

@[simp] theorem value_replicate_append (base n : ℕ) (digits : List ℕ) :
    value base (List.replicate n 0 ++ digits) = value base digits := by
  induction n with
  | zero => rfl
  | succ n ih => rw [List.replicate_succ, List.cons_append, value_zero_cons, ih]

/-- Leading zeros do not count. -/
theorem value_dropWhile (base : ℕ) (digits : List ℕ) :
    value base (digits.dropWhile (· = 0)) = value base digits := by
  induction digits with
  | nil => rfl
  | cons d digits ih =>
      rw [List.dropWhile_cons]
      split_ifs with hd
      · rw [ih, of_decide_eq_true hd, value_zero_cons]
      · rfl

theorem value_canonical (base n : ℕ) : value base (canonical base n) = n := by
  rw [value, canonical, List.reverse_reverse, Nat.ofDigits_digits]

theorem canonical_lt {base n d : ℕ} (hbase : 1 < base) (hd : d ∈ canonical base n) : d < base :=
  Nat.digits_lt_base hbase (List.mem_reverse.1 hd)

@[simp] theorem canonical_zero (base : ℕ) : canonical base 0 = [] := by simp [canonical]

/-- The row of a number begins with no zero. -/
theorem canonical_dropWhile (base n : ℕ) :
    (canonical base n).dropWhile (· = 0) = canonical base n := by
  cases hrow : canonical base n with
  | nil => rfl
  | cons d digits =>
      have hdigits : Nat.digits base n = digits.reverse ++ [d] := by
        rw [← List.reverse_cons, ← hrow, canonical, List.reverse_reverse]
      have hn : n ≠ 0 := by
        rintro rfl
        simp at hdigits
      have hlast := Nat.getLast_digit_ne_zero base hn
      have hd : d ≠ 0 := by simpa [hdigits] using hlast
      rw [List.dropWhile_cons_of_neg (by simpa using hd)]

theorem canonical_head_ne_zero (base n : ℕ) : (canonical base n).head? ≠ some 0 := by
  have hdrop := canonical_dropWhile base n
  intro hhead
  obtain ⟨tail, hcons⟩ := List.head?_eq_some_iff.1 hhead
  rw [hcons, List.dropWhile_cons_of_pos (by simp)] at hdrop
  have := congrArg List.length hdrop
  have hle := (List.dropWhile_sublist (fun d => decide (d = 0)) (l := tail)).length_le
  rw [List.length_cons] at this
  omega

/-- A row is that of its number but for the leading zeros. -/
theorem canonical_value {base : ℕ} {digits : List ℕ} (hbase : 1 < base)
    (hdigits : ∀ d ∈ digits, d < base) :
    canonical base (value base digits) = digits.dropWhile (· = 0) := by
  rw [← value_dropWhile, value, canonical, Nat.digits_ofDigits base hbase, List.reverse_reverse]
  · intro d hd
    exact hdigits d ((List.dropWhile_sublist _).subset (List.mem_reverse.1 hd))
  · intro hne
    rw [List.getLast_reverse]
    have hne' : digits.dropWhile (· = 0) ≠ [] := by simpa using hne
    simpa using List.head_dropWhile_not (fun d => decide (d = 0)) hne'

/-- As many zeros as there are, and the row of the number. -/
theorem eq_replicate_append {base : ℕ} {digits : List ℕ} (hbase : 1 < base)
    (hdigits : ∀ d ∈ digits, d < base) :
    digits = List.replicate (digits.length - (canonical base (value base digits)).length) 0 ++
      canonical base (value base digits) := by
  rw [canonical_value hbase hdigits]
  have hzeros : digits.takeWhile (· = 0) = List.replicate (digits.takeWhile (· = 0)).length 0 :=
    List.eq_replicate_of_mem fun d hd => by simpa using List.mem_takeWhile_imp hd
  have hsplit := List.takeWhile_append_dropWhile (p := (· = 0)) (l := digits)
  have hlength := congrArg List.length hsplit
  rw [List.length_append] at hlength
  have hcount : (digits.takeWhile (· = 0)).length =
      digits.length - (digits.dropWhile (· = 0)).length := by omega
  rw [← hcount, ← hzeros, hsplit]

/-! ### Long division -/

/-- The quotient, digit for digit, and the remainder. -/
def divmod (base divisor : ℕ) : ℕ → List ℕ → List ℕ × ℕ
  | remainder, [] => ([], remainder)
  | remainder, d :: digits =>
      let rest := divmod base divisor ((remainder * base + d) % divisor) digits
      ((remainder * base + d) / divisor :: rest.1, rest.2)

variable {base divisor : ℕ}

@[simp] theorem divmod_length (remainder : ℕ) (digits : List ℕ) :
    (divmod base divisor remainder digits).1.length = digits.length := by
  induction digits generalizing remainder with
  | nil => rfl
  | cons d digits ih => simp [divmod, ih]

theorem divmod_remainder_lt (hdivisor : 0 < divisor) {remainder : ℕ} (hr : remainder < divisor)
    (digits : List ℕ) : (divmod base divisor remainder digits).2 < divisor := by
  induction digits generalizing remainder with
  | nil => exact hr
  | cons d digits ih => exact ih (Nat.mod_lt _ hdivisor)

/-- The digits of the quotient are digits of the same base. -/
theorem divmod_lt (hdivisor : 0 < divisor) {remainder : ℕ} (hr : remainder < divisor)
    {digits : List ℕ} (hdigits : ∀ d ∈ digits, d < base) :
    ∀ d ∈ (divmod base divisor remainder digits).1, d < base := by
  induction digits generalizing remainder with
  | nil => exact nofun
  | cons d digits ih =>
      obtain ⟨hd, hdigits⟩ := List.forall_mem_cons.1 hdigits
      refine List.forall_mem_cons.2 ⟨?_, ih (Nat.mod_lt _ hdivisor) hdigits⟩
      have hle : (remainder + 1) * base ≤ divisor * base := Nat.mul_le_mul_right _ hr
      rw [Nat.div_lt_iff_lt_mul hdivisor, Nat.mul_comm base]
      rw [Nat.add_mul] at hle
      omega

/-- What the division says of the numbers. -/
theorem divmod_value (remainder : ℕ) (digits : List ℕ) :
    remainder * base ^ digits.length + value base digits =
      divisor * value base (divmod base divisor remainder digits).1 +
        (divmod base divisor remainder digits).2 := by
  induction digits generalizing remainder with
  | nil => simp [divmod]
  | cons d digits ih =>
      have hstep := Nat.div_add_mod (remainder * base + d) divisor
      have hrest := ih ((remainder * base + d) % divisor)
      rw [divmod, value_cons, value_cons, divmod_length, List.length_cons, Nat.mul_add, Nat.add_assoc,
        ← hrest]
      calc remainder * base ^ (digits.length + 1) + (d * base ^ digits.length + value base digits)
          = (remainder * base + d) * base ^ digits.length + value base digits := by ring
        _ = (divisor * ((remainder * base + d) / divisor) + (remainder * base + d) % divisor) *
              base ^ digits.length + value base digits := by rw [hstep]
        _ = _ := by ring

/-! ### Repeated division -/

/-- A row without its leading digit where that is zero. -/
def dropZero : List ℕ → List ℕ
  | 0 :: tail => tail
  | row => row

/-- The quotient, without the leading digit where that is zero. -/
def quotient (base divisor : ℕ) (digits : List ℕ) : List ℕ := dropZero (divmod base divisor 0 digits).1

/-- The remainders of the division over and over, the last of them first, until no digit is left. -/
inductive Remainders (base divisor : ℕ) : List ℕ → List ℕ → Prop
  | nil : Remainders base divisor [] []
  | step {digits remainders : List ℕ} (hne : digits ≠ [])
      (rest : Remainders base divisor (quotient base divisor digits) remainders) :
      Remainders base divisor digits (remainders ++ [(divmod base divisor 0 digits).2])

theorem quotient_value (digits : List ℕ) :
    value base (quotient base divisor digits) = value base (divmod base divisor 0 digits).1 := by
  unfold quotient dropZero
  split
  · rename_i tail hrow
    rw [hrow, value_zero_cons]
  · rfl

theorem quotient_lt (hdivisor : 0 < divisor) {digits : List ℕ} (hdigits : ∀ d ∈ digits, d < base) :
    ∀ d ∈ quotient base divisor digits, d < base := by
  have hlt := divmod_lt hdivisor hdivisor hdigits
  unfold quotient dropZero
  split
  · rename_i tail hrow
    exact fun d hd => hlt d (hrow ▸ List.mem_cons_of_mem 0 hd)
  · exact hlt

/-- One division takes away one digit at most. -/
theorem length_le_quotient (digits : List ℕ) :
    digits.length ≤ (quotient base divisor digits).length + 1 := by
  have hlength := @divmod_length base divisor 0 digits
  unfold quotient dropZero
  split
  · rename_i tail hrow
    rw [hrow, List.length_cons] at hlength
    omega
  · omega

/-- The remainders are the digits of the number in the other base. -/
theorem Remainders.value_eq {digits remainders : List ℕ} (h : Remainders base divisor digits remainders) :
    value divisor remainders = value base digits := by
  induction h with
  | nil => rfl
  | @step digits remainders hne rest ih =>
      have hdivision := @divmod_value base divisor 0 digits
      rw [Nat.zero_mul, Nat.zero_add] at hdivision
      rw [value_concat, ih, quotient_value, hdivision, Nat.mul_comm]

theorem Remainders.lt {digits remainders : List ℕ} (hdivisor : 0 < divisor)
    (h : Remainders base divisor digits remainders) : ∀ r ∈ remainders, r < divisor := by
  induction h with
  | nil => exact nofun
  | step hne rest ih =>
      intro r hr
      rcases List.mem_append.1 hr with hr | hr
      · exact ih r hr
      · rw [List.mem_singleton.1 hr]
        exact divmod_remainder_lt hdivisor hdivisor _

theorem Remainders.length_le {digits remainders : List ℕ}
    (h : Remainders base divisor digits remainders) : digits.length ≤ remainders.length := by
  induction h with
  | nil => exact Nat.le_refl _
  | @step digits remainders hne rest ih =>
      have := @length_le_quotient base divisor digits
      rw [List.length_append, List.length_singleton]
      omega

/-- How long the division goes on: a digit below a power of the divisor is gone after as many steps. -/
def Within (divisor k n : ℕ) (digits : List ℕ) : Prop :=
  ∀ d tail, digits = d :: tail → ∃ i, 1 ≤ i ∧ d < divisor ^ i ∧ k * tail.length + i ≤ n

/-- Where a digit is below the `k`-th power of the divisor, `k` steps for each digit are enough. -/
theorem within_of_lt {k n : ℕ} (hk : 1 ≤ k) (hbase : base ≤ divisor ^ k) {digits : List ℕ}
    (hdigits : ∀ d ∈ digits, d < base) (hn : k * digits.length ≤ n) : Within divisor k n digits := by
  rintro d tail rfl
  refine ⟨k, hk, (hdigits d List.mem_cons_self).trans_le hbase, ?_⟩
  rw [List.length_cons, Nat.mul_add, Nat.mul_one] at hn
  exact hn

/-- One step of those that are left. -/
theorem Within.quotient {k n : ℕ} (hdivisor : 0 < divisor) (hk : 1 ≤ k) (hbase : base ≤ divisor ^ k)
    {digits : List ℕ} (hdigits : ∀ d ∈ digits, d < base) (h : Within divisor k (n + 1) digits) :
    Within divisor k n (Radix.quotient base divisor digits) := by
  cases digits with
  | nil => exact nofun
  | cons d tail =>
      obtain ⟨i, hi, hd, hn⟩ := h d tail rfl
      have hrow : (divmod base divisor 0 (d :: tail)).1 =
          d / divisor :: (divmod base divisor (d % divisor) tail).1 := by
        simp [divmod]
      have hquotient := quotient_lt hdivisor hdigits
      have hlength := @divmod_length base divisor (d % divisor) tail
      by_cases hzero : d / divisor = 0
      · -- the leading digit goes, and the next has its `k` steps
        have heq : Radix.quotient base divisor (d :: tail) =
            (divmod base divisor (d % divisor) tail).1 := by
          rw [Radix.quotient, hrow, hzero]
          rfl
        rw [heq] at hquotient ⊢
        refine within_of_lt hk hbase hquotient ?_
        rw [hlength]
        omega
      · have heq : Radix.quotient base divisor (d :: tail) =
            d / divisor :: (divmod base divisor (d % divisor) tail).1 := by
          rw [Radix.quotient, hrow]
          unfold dropZero
          split
          · rename_i hcons
            exact absurd (List.cons.inj hcons).1 hzero
          · rfl
        rw [heq]
        rintro d' tail' hcons
        obtain ⟨rfl, rfl⟩ := List.cons.inj hcons
        have hpow : divisor ^ i = divisor ^ (i - 1) * divisor := by
          rw [← Nat.pow_succ, Nat.succ_eq_add_one, Nat.sub_add_cancel hi]
        have hi2 : i ≠ 1 := by
          rintro rfl
          exact hzero (Nat.div_eq_of_lt (by simpa using hd))
        refine ⟨i - 1, by omega, ?_, ?_⟩
        · rw [Nat.div_lt_iff_lt_mul hdivisor, ← hpow]
          exact hd
        · rw [hlength]
          omega

/-- The division ends, within the steps that are left. -/
theorem exists_remainders {k n : ℕ} (hdivisor : 0 < divisor) (hk : 1 ≤ k) (hbase : base ≤ divisor ^ k)
    {digits : List ℕ} (hdigits : ∀ d ∈ digits, d < base) (h : Within divisor k n digits) :
    ∃ remainders, Remainders base divisor digits remainders ∧ remainders.length ≤ n := by
  induction n generalizing digits with
  | zero =>
      cases digits with
      | nil => exact ⟨[], .nil, Nat.le_refl _⟩
      | cons d tail =>
          obtain ⟨i, hi, -, hn⟩ := h d tail rfl
          omega
  | succ n ih =>
      by_cases hne : digits = []
      · subst hne
        exact ⟨[], .nil, Nat.zero_le _⟩
      · obtain ⟨remainders, hrest, hlength⟩ := ih (quotient_lt hdivisor hdigits)
          (h.quotient hdivisor hk hbase hdigits)
        refine ⟨_, .step hne hrest, ?_⟩
        rw [List.length_append, List.length_singleton]
        omega

end Universa.Radix
