import Universa.Contracts.Prunes
import Universa.Js.Double

/-! `ChangeNumberPermission.checkChanges` against integer arithmetic. Bounds, the old and the new value
    are integers, each given as a number or as its decimal text.

    The step is a difference, so it and its bounds are compared as numbers. The new value is compared
    with `max_value` and `min_value` as it stands: two texts are compared unit by unit, and so are two
    defaults with a text. Every other comparison is one of doubles. -/

namespace Universa.Contracts
open Universa.Js

/-- An integer as a number, which is a double, or as its decimal text. -/
inductive Given where
  | number (z : ℤ) (double : Number.ofRat z = .fin z)
  | text (z : ℤ)

namespace Given

/-- The integer. -/
def int : Given → ℤ
  | number z _ | text z => z

/-- The value that stands for it. -/
def value : Given → Value
  | number z _ => .num (.fin z)
  | text z => .str (toString z)

/-- The number that arithmetic makes of it. -/
def double (g : Given) : Number := .ofRat g.int

theorem primitive_value (g : Given) : primitive g.value = some g.value := by
  cases g <;> rfl

theorem number_value (g : Given) : primitiveNumber g.value = g.double := by
  cases g with
  | number z hz => exact hz.symm
  | text z => exact textNumber_int z

theorem toNumber_value (g : Given) : toNumber g.value = some g.double := by
  rw [toNumber, primitive_value, Option.map_some, number_value]

/-- `a <= b`: texts unit by unit, anything else as doubles. -/
def le : Given → Given → Bool
  | text a, text b => decide (units (toString a) ≤ units (toString b))
  | a, b => a.double.le b.double

theorem lessEq_value (a b : Given) : lessEq a.value b.value = some (a.le b) := by
  have ha := number_value a
  have hb := number_value b
  cases a <;> cases b <;> simp_all [lessEq, value, primitive, le, primitiveNumber]

theorem lessEq_number (a : Given) (x : Number) : lessEq a.value (.num x) = some (a.double.le x) := by
  have ha := number_value a
  cases a <;> simp_all [lessEq, value, primitive, primitiveNumber]

theorem number_lessEq (x : Number) (b : Given) : lessEq (.num x) b.value = some (x.le b.double) := by
  have hb := number_value b
  cases b <;> simp_all [lessEq, value, primitive, primitiveNumber]

/-- `a <= b` answers other than the order of the integers: the texts of two integers are in another
    order than these, or rounding to doubles changes the order. -/
def Misordered : Given → Given → Prop
  | text a, text b => ¬ (units (toString a) ≤ units (toString b) ↔ a ≤ b)
  | a, b => ¬ (a.double.le b.double = true ↔ a.int ≤ b.int)

theorem le_iff (a b : Given) : a.le b = true ↔ (a.int ≤ b.int ↔ ¬ Misordered a b) := by
  have hiff : ∀ p q : Prop, p ↔ (q ↔ ¬ ¬ (p ↔ q)) := fun p q => by tauto
  cases a <;> cases b <;> simp only [le, Misordered, int, decide_eq_true_eq] <;> exact hiff _ _

end Given

/-! ### A changed number -/

/-- A permission over integers at a changed item of its field. -/
structure NumberChange where
  fieldName : String
  minValue : Given
  maxValue : Given
  minStep : Given
  maxStep : Given
  oldValue : Given
  newValue : Given
  progress : Progress
  dataChanges : Changes
  data : progress.mapOf "data" = some dataChanges
  changed : dataChanges.lookup fieldName = some (.changed oldValue.value newValue.value)

/-- The four bounds of a permission. -/
inductive Bound where
  | minStep
  | maxStep
  | maxValue
  | minValue

namespace NumberChange

variable (c : NumberChange)

/-- The permission. -/
def rule : ChangeNumberPermission where
  fieldName := c.fieldName
  minValue := c.minValue.value
  maxValue := c.maxValue.value
  minStep := c.minStep.value
  maxStep := c.maxStep.value

/-- `valueDelta` as the code has it. -/
def step : Number := (c.newValue.double.sub c.oldValue.double).round

/-- A bound holds of the integers. -/
def Holds : Bound → Prop
  | .minStep => c.minStep.int ≤ c.newValue.int - c.oldValue.int
  | .maxStep => c.newValue.int - c.oldValue.int ≤ c.maxStep.int
  | .maxValue => c.newValue.int ≤ c.maxValue.int
  | .minValue => c.minValue.int ≤ c.newValue.int

instance (b : Bound) : Decidable (c.Holds b) := by
  cases b <;> exact inferInstanceAs (Decidable (_ ≤ _))

/-- All bounds hold of the integers. -/
def InRange : Prop := c.Holds .minStep ∧ c.Holds .maxStep ∧ c.Holds .maxValue ∧ c.Holds .minValue

instance : Decidable c.InRange := inferInstanceAs (Decidable (_ ∧ _))

/-- A bound is compared with another answer than that of the integers: for a step when rounding changes
    the order, for a value also when it and the bound are texts in another order. -/
def Misjudged : Bound → Prop
  | .minStep => ¬ (c.minStep.double.le c.step = true ↔ c.minStep.int ≤ c.newValue.int - c.oldValue.int)
  | .maxStep => ¬ (c.step.le c.maxStep.double = true ↔ c.newValue.int - c.oldValue.int ≤ c.maxStep.int)
  | .maxValue => Given.Misordered c.newValue c.maxValue
  | .minValue => Given.Misordered c.minValue c.newValue

/-- The comparison of a bound. -/
def compare : Bound → Bool
  | .minStep => c.minStep.double.le c.step
  | .maxStep => c.step.le c.maxStep.double
  | .maxValue => c.newValue.le c.maxValue
  | .minValue => c.minValue.le c.newValue

theorem compare_iff (b : Bound) : c.compare b = true ↔ (c.Holds b ↔ ¬ c.Misjudged b) := by
  cases b with
  | minStep | maxStep => simp only [compare, Holds, Misjudged]; tauto
  | maxValue => exact Given.le_iff _ _
  | minValue => exact Given.le_iff _ _

theorem acceptsChange_eq : c.rule.acceptsChange c.oldValue.value c.newValue.value =
    some (c.compare .minStep && c.compare .maxStep && c.compare .maxValue && c.compare .minValue) := by
  have hstep : minus c.newValue.value c.oldValue.value = some c.step := by
    simp [minus, Given.toNumber_value, step]
  simp only [ChangeNumberPermission.acceptsChange, hstep, rule, Given.lessEq_number,
    Given.number_lessEq, Given.lessEq_value, Option.bind_eq_bind, Option.bind_some, compare]
  cases c.minStep.double.le c.step <;> cases c.step.le c.maxStep.double <;>
    cases c.newValue.le c.maxValue <;> rfl

/-- The progress without the change of the field. -/
def removed : Progress := c.progress.setMap "data" (erase c.dataChanges c.fieldName)

theorem removed_ne : c.removed ≠ c.progress := by
  intro heq
  have hmap := @mapOf_setMap _ _ _ (erase c.dataChanges c.fieldName) c.data
  rw [← removed, heq, c.data] at hmap
  have hgone : (erase c.dataChanges c.fieldName).lookup c.fieldName = none := by
    refine not_mem_keys fun hin => ?_
    obtain ⟨e, he, hk⟩ := List.mem_map.mp hin
    simp [erase, hk] at he
  rw [← Option.some.inj hmap, c.changed] at hgone
  cases hgone

/-- `checkChanges` throws where a data field named `hasOwnProperty` changes too, and else removes the
    change iff all comparisons pass. -/
theorem checkChanges_eq : c.rule.checkChanges c.progress =
    if "hasOwnProperty" ∈ keys c.dataChanges then none
    else some (if c.compare .minStep && c.compare .maxStep && c.compare .maxValue && c.compare .minValue
      then c.removed else c.progress) := by
  have hin : c.fieldName ∈ keys c.dataChanges := mem_keys_iff.mpr ⟨_, c.changed⟩
  have hfield : c.rule.fieldName = c.fieldName := rfl
  simp only [ChangeNumberPermission.checkChanges, c.data, hfield, c.changed, hasOwn, hin, decide_true]
  split
  · rfl
  · simp only [Option.bind_eq_bind, Option.bind_some, Bool.not_true, Bool.false_eq_true, if_false,
      acceptsChange_eq]
    split <;> rfl

theorem compare_all : (c.compare .minStep && c.compare .maxStep && c.compare .maxValue &&
    c.compare .minValue) = true ↔ ∀ b, c.compare b = true := by
  simp only [Bool.and_eq_true]
  constructor
  · rintro ⟨⟨⟨h₁, h₂⟩, h₃⟩, h₄⟩ b
    cases b <;> assumption
  · intro h
    exact ⟨⟨⟨h _, h _⟩, h _⟩, h _⟩

theorem inRange_iff : c.InRange ↔ ∀ b, c.Holds b := by
  constructor
  · rintro ⟨h₁, h₂, h₃, h₄⟩ b
    cases b <;> assumption
  · intro h
    exact ⟨h _, h _, h _, h _⟩

/-- CODE DEFECT (change_number): the change of the field is removed exactly in the integer range, and no
    other one, iff no data field `hasOwnProperty` changes, in the range no bound is misjudged, and out
    of it some bound that fails is judged right or one that holds is misjudged too. -/
theorem checkChanges_numeric_iff :
    c.rule.checkChanges c.progress = some (if c.InRange then c.removed else c.progress) ↔
      "hasOwnProperty" ∉ keys c.dataChanges ∧ (c.InRange → ∀ b, ¬ c.Misjudged b) ∧
      (¬ c.InRange → ∃ b, ¬ c.Holds b ∧ ¬ c.Misjudged b ∨ c.Holds b ∧ c.Misjudged b) := by
  rw [checkChanges_eq]
  by_cases hown : "hasOwnProperty" ∈ keys c.dataChanges
  · simp [hown]
  have hremoved : c.removed = c.progress ↔ False := iff_of_false c.removed_ne id
  have hkept : c.progress = c.removed ↔ False := iff_of_false c.removed_ne.symm id
  by_cases hin : c.InRange
  · have hjudged : (∀ b, c.compare b = true) ↔ ∀ b, ¬ c.Misjudged b :=
      forall_congr' fun b => by simp [compare_iff, c.inRange_iff.mp hin b]
    by_cases hcmp : ∀ b, c.compare b = true
    · simp [hown, hin, c.compare_all.mpr hcmp, hjudged.mp hcmp]
    · have hcmp' := mt c.compare_all.mp hcmp
      rw [hjudged] at hcmp
      simp only [hown, hin, hcmp', if_true, if_false, Option.some.injEq, hcmp, hkept,
        forall_true_left, false_and, and_false, Bool.false_eq_true, not_false_eq_true]
  · have hjudged : (∀ b, c.compare b = true) ↔
        ¬ ∃ b, ¬ c.Holds b ∧ ¬ c.Misjudged b ∨ c.Holds b ∧ c.Misjudged b := by
      rw [not_exists]
      refine forall_congr' fun b => ?_
      rw [compare_iff]
      tauto
    by_cases hcmp : ∀ b, c.compare b = true
    · have hnot := hjudged.mp hcmp
      simp only [hown, hin, c.compare_all.mpr hcmp, if_true, if_false, hremoved, Option.some.injEq,
        hnot, forall_true_left, not_false_eq_true, and_false]
    · have hcmp' := mt c.compare_all.mp hcmp
      have hsome := not_not.mp (mt hjudged.mpr hcmp)
      simp only [hown, hin, hcmp', if_false, not_false_eq_true, hsome, false_implies, implies_true,
        and_true]
      simp

/-- From "8" to "9" with the default bounds. -/
def eightToNine : NumberChange where
  fieldName := "amount"
  minValue := .text 0
  maxValue := .text 2147483647
  minStep := .text (-2147483648)
  maxStep := .text 2147483647
  oldValue := .text 8
  newValue := .text 9
  progress := ⟨[("data", .map (.obj [("amount", .str "8")]) (.obj [("amount", .str "9")])
    [("amount", .changed (.str "8") (.str "9"))])], []⟩
  dataChanges := [("amount", .changed (.str "8") (.str "9"))]
  data := rfl
  changed := rfl

example : eightToNine.rule = ChangeNumberPermission.initFromParams "amount" [] := rfl

/-- The change from "8" to "9" is kept, as "9" does not come before "2147483647". -/
theorem checkChanges_not_numeric : ¬ ∀ c : NumberChange,
    c.rule.checkChanges c.progress = some (if c.InRange then c.removed else c.progress) := by
  intro h
  have hin : eightToNine.InRange := by decide
  have hmax : eightToNine.compare .maxValue = false := by decide
  have hkept := h eightToNine
  rw [checkChanges_eq, if_neg (by decide), hmax, if_pos hin] at hkept
  simp only [Bool.and_false, Bool.false_and, Bool.false_eq_true, if_false, Option.some.injEq] at hkept
  exact eightToNine.removed_ne hkept.symm

/-! ### Where nothing is misjudged -/

/-- Integers up to `2 ^ 52`, not both given as texts, are compared right. -/
theorem misordered_small {a b : Given} (ha : a.int.natAbs ≤ 2 ^ 52) (hb : b.int.natAbs ≤ 2 ^ 52)
    (htexts : ∀ x y, a = .text x → b ≠ .text y) : ¬ Given.Misordered a b := by
  have hda : a.double = .fin a.int := Number.ofRat_int (ha.trans (by norm_num))
  have hdb : b.double = .fin b.int := Number.ofRat_int (hb.trans (by norm_num))
  cases a with
  | number x hx => simp [Given.Misordered, hda, hdb, Number.le]
  | text x =>
      cases b with
      | number y hy => simp [Given.Misordered, hda, hdb, Number.le]
      | text y => exact absurd rfl (htexts x y rfl)

/-- CORRECT (small numbers): with integers up to `2 ^ 52` and a new value given as a number the
    permission is numeric. -/
theorem checkChanges_small (hown : "hasOwnProperty" ∉ keys c.dataChanges)
    (hnumber : ∀ z, c.newValue ≠ .text z)
    (hsmall : ∀ g ∈ [c.minValue, c.maxValue, c.minStep, c.maxStep, c.oldValue, c.newValue],
      g.int.natAbs ≤ 2 ^ 52) :
    c.rule.checkChanges c.progress = some (if c.InRange then c.removed else c.progress) := by
  simp only [List.forall_mem_cons, List.not_mem_nil, false_implies, implies_true, and_true] at hsmall
  obtain ⟨hminV, hmaxV, hminS, hmaxS, hold, hnew⟩ := hsmall
  have hdouble {g : Given} (h : g.int.natAbs ≤ 2 ^ 52) : g.double = .fin g.int :=
    Number.ofRat_int (h.trans (by norm_num))
  have hstep : c.step = .fin ((c.newValue.int - c.oldValue.int : ℤ) : ℚ) := by
    rw [step, hdouble hold, hdouble hnew, Number.sub, Number.round, ← Int.cast_sub,
      Number.ofRat_int (by omega)]
  have hnone (b : Bound) : ¬ c.Misjudged b := by
    cases b with
    | minStep => simp [Misjudged, hstep, hdouble hminS, Number.le]; norm_cast
    | maxStep => simp [Misjudged, hstep, hdouble hmaxS, Number.le]; norm_cast
    | maxValue => exact misordered_small hnew hmaxV fun x _ hx => absurd hx (hnumber x)
    | minValue => exact misordered_small hminV hnew fun _ y _ hy => hnumber y hy
  have hcompare : (∀ b, c.compare b = true) ↔ c.InRange := by
    rw [inRange_iff]
    exact forall_congr' fun b => by simp [compare_iff, hnone b]
  rw [checkChanges_eq, if_neg hown, if_congr (c.compare_all.trans hcompare) rfl rfl]

end NumberChange

end Universa.Contracts
