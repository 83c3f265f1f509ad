import Universa.Js.Date
import Universa.Js.Value

/-! Arithmetic of numbers, with what the language answers where one of them is not finite. Zero has one sign, the
    positive one. -/

namespace Universa.Js
namespace Number

/-- `x < y`. -/
def lt (x y : Number) : Bool := x.le y && !x.eq y

/-- `x + y`. -/
def add : Number → Number → Number
  | .fin a, .fin b => .fin (a + b)
  | .nan, _ | _, .nan | .posInf, .negInf | .negInf, .posInf => .nan
  | .posInf, _ | _, .posInf => .posInf
  | .negInf, _ | _, .negInf => .negInf

/-- Whether the sign is a minus. -/
def isNegative : Number → Bool
  | .negInf => true
  | .fin q => q < 0
  | _ => false

/-- The infinity of a sign. -/
def infinity (negative : Bool) : Number := if negative then .negInf else .posInf

/-- `x * y`. -/
def mul : Number → Number → Number
  | .fin a, .fin b => .fin (a * b)
  | .nan, _ | _, .nan => .nan
  | x, y => if x = .fin 0 ∨ y = .fin 0 then .nan else infinity (x.isNegative != y.isNegative)

/-- `x / y`. -/
def div : Number → Number → Number
  | .fin a, .fin b => if b = 0 then (if a = 0 then .nan else infinity (a < 0)) else .fin (a / b)
  | .fin _, .posInf | .fin _, .negInf => .fin 0
  | .posInf, .fin b => infinity (b < 0)
  | .negInf, .fin b => infinity (0 ≤ b)
  | _, _ => .nan

/-- `Math.ceil(x)`. -/
def ceil : Number → Number
  | .fin q => .fin ⌈q⌉
  | n => n

@[simp] theorem add_fin (a b : ℚ) : (Number.fin a).add (.fin b) = .fin (a + b) := rfl

@[simp] theorem sub_fin (a b : ℚ) : (Number.fin a).sub (.fin b) = .fin (a - b) := rfl

@[simp] theorem mul_fin (a b : ℚ) : (Number.fin a).mul (.fin b) = .fin (a * b) := rfl

@[simp] theorem ceil_fin (a : ℚ) : (Number.fin a).ceil = .fin ⌈a⌉ := rfl

@[simp] theorem le_fin (a b : ℚ) : (Number.fin a).le (.fin b) = decide (a ≤ b) := rfl

@[simp] theorem eq_fin (a b : ℚ) : (Number.fin a).eq (.fin b) = decide (a = b) := rfl

theorem div_fin (a : ℚ) {b : ℚ} (hb : b ≠ 0) : (Number.fin a).div (.fin b) = .fin (a / b) := if_neg hb

@[simp] theorem lt_fin (a b : ℚ) : (Number.fin a).lt (.fin b) = decide (a < b) := by
  rw [Bool.eq_iff_iff]
  simp [lt, lt_iff_le_and_ne]

protected theorem add_comm (x y : Number) : x.add y = y.add x := by
  cases x <;> cases y <;> simp [add, Rat.add_comm]

/-- A number that is `===` to another is that number. -/
theorem eq_of_eq {x y : Number} (h : x.eq y = true) : x = y := by
  cases x <;> cases y <;> simp_all [eq]

end Number

/-- `new Date(x)`; where `x` is not finite the date is invalid. -/
def Date.ofNumber : Number → Option ℤ
  | .fin q => some (Date.ofMilliseconds q)
  | _ => none

/-- A date made from a number not less than an integer is not before it. -/
theorem Date.le_ofMilliseconds {d : ℤ} {q : ℚ} (h : (d : ℚ) ≤ q) : d ≤ Date.ofMilliseconds q :=
  (Int.le_floor.mpr h).trans (Date.floor_le_toInteger q)

end Universa.Js
