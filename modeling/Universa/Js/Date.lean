import Mathlib.Algebra.Order.Floor.Ring
import Mathlib.Data.Rat.Floor
import Mathlib.Tactic.Linarith

/-! Dates of the runtime, as milliseconds since the epoch in a time zone that is off by a constant number of
    whole minutes. A number that is not an integer is cut towards zero (`ToIntegerOrInfinity`), by `new Date`
    as by the setters. -/

namespace Universa.Js.Date

/-- `ToIntegerOrInfinity`. -/
def toInteger (x : ℚ) : ℤ := if 0 ≤ x then ⌊x⌋ else ⌈x⌉

/-- `new Date(milliseconds)`. -/
def ofMilliseconds (milliseconds : ℚ) : ℤ := toInteger milliseconds

/-- `date.getSeconds()`. -/
def getSeconds (date : ℤ) : ℤ := date / 1000 % 60

/-- `date.setSeconds(seconds)`. -/
def setSeconds (date : ℤ) (seconds : ℚ) : ℤ := date + 1000 * (toInteger seconds - getSeconds date)

/-- `date.setMilliseconds(0)`. -/
def clearMilliseconds (date : ℤ) : ℤ := date / 1000 * 1000

theorem floor_le_toInteger (x : ℚ) : ⌊x⌋ ≤ toInteger x := by
  unfold toInteger
  split
  · exact le_refl _
  · exact Int.floor_le_ceil x

theorem toInteger_le_ceil (x : ℚ) : toInteger x ≤ ⌈x⌉ := by
  unfold toInteger
  split
  · exact Int.floor_le_ceil x
  · exact le_refl _

theorem setSeconds_emod (date : ℤ) (s : ℚ) : setSeconds date s % 1000 = date % 1000 := by
  unfold setSeconds
  omega

theorem clearMilliseconds_emod (date : ℤ) : clearMilliseconds date % 1000 = 0 := by
  unfold clearMilliseconds
  omega

end Universa.Js.Date
