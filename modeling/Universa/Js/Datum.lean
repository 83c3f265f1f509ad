import Universa.Js.Value
import Mathlib.Data.List.Forall2

/-! Values with the containers that `t.valuesEqual` of `tools.js` tells apart, and with the identity of each
    object, which `===` goes by. `Object.prototype.equals` stands on the prototype of every class; here
    its branches are one function over the kind of container, and each of its loops one function.

    An answer `none` is a thrown exception. -/

namespace Universa.Js

/-- A value that is no object. -/
inductive Primitive where
  | null
  | bool (b : Bool)
  | num (n : Number)
  | str (s : String)
  deriving DecidableEq

/-- A value; `ref` is the identity of an object, `generic` tells a `GenericMap` from a `Map` and a
    `GenericSet` from a `Set`. -/
inductive Datum where
  | prim (p : Primitive)
  | date (ref : ℕ) (time : ℤ)
  | bytes (ref : ℕ) (bs : List UInt8)
  | arr (ref : ℕ) (xs : List Datum)
  | obj (ref : ℕ) (es : List (String × Datum))
  | map (ref : ℕ) (generic : Bool) (ps : List (Datum × Datum))
  | set (ref : ℕ) (generic : Bool) (xs : List Datum)

namespace Datum

/-! ### Identity and class -/

/-- The identity of an object. -/
def ref : Datum → Option ℕ
  | .prim _ => none
  | .date r _ | .bytes r _ | .arr r _ | .obj r _ | .map r _ _ | .set r _ _ => some r

/-- `===` on primitives. -/
def samePrimitive : Primitive → Primitive → Bool
  | .num a, .num b => a.eq b
  | p, q => decide (p = q)

/-- `x === y`. -/
def identical : Datum → Datum → Bool
  | .prim p, .prim q => samePrimitive p q
  | x, y => x.ref.isSome && x.ref == y.ref

/-- `===` where `undefined` may stand on either side. -/
def identicalOrUndefined : Option Datum → Option Datum → Bool
  | none, none => true
  | some x, some y => identical x y
  | _, _ => false

/-- A class name. -/
def named (s : String) : Option (Option Datum) := some (some (.prim (.str s)))

/-- `x.constructor.name`: an own `constructor` is read instead of the class, and only an object has a `name`. -/
def constructorName : Datum → Option (Option Datum)
  | .prim _ => some none
  | .date _ _ => named "Date"
  | .bytes _ _ => named "Uint8Array"
  | .arr _ _ => named "Array"
  | .map _ generic _ => named (if generic then "GenericMap" else "Map")
  | .set _ generic _ => named (if generic then "GenericSet" else "Set")
  | .obj _ es =>
      match es.lookup "constructor" with
      | none => named "Object"
      | some (.prim .null) => none
      | some (.obj _ fs) => some (fs.lookup "name")
      | some _ => some none

/-- `x.constructor.name === y.constructor.name`. -/
def sameName (x y : Datum) : Option Bool := do
  let a ← constructorName x
  let b ← constructorName y
  return identicalOrUndefined a b

/-! ### The comparison -/

/-- The tests of `valuesEqual` on an object `x` before `x.equals(y)`. -/
def compared (x y : Datum) (equals : Option Bool) : Option Bool :=
  if identical x y then some true
  else if y.ref = none then some false
  else match sameName x y with
    | none => none
    | some false => some false
    | some true => equals

/-- The inner loop over a set: some element is found equal. -/
def foundIn (equal : Datum → Option Bool) : List Datum → Option Bool
  | [] => some false
  | y :: ys =>
      match equal y with
      | none => none
      | some true => some true
      | some false => foundIn equal ys

/-- The inner loop over a map: the first entry with an equal key has an equal value. -/
def entryIn (equalKey equalValue : Datum → Option Bool) : List (Datum × Datum) → Option Bool
  | [] => some false
  | (k, v) :: qs =>
      match equalKey k with
      | none => none
      | some true => equalValue v
      | some false => entryIn equalKey equalValue qs

/-- `if (!answer) return false;` and then the rest. -/
def andThen : Option Bool → Option Bool → Option Bool
  | some true, rest => rest
  | answer, _ => answer

mutual
/-- `t.valuesEqual(x, y)` with `x.equals(y)`. -/
def valuesEqual : Datum → Datum → Option Bool
  | .prim p, y => some (identical (.prim p) y)
  | .date r t, y => compared (.date r t) y
      -- Date.prototype.equals: only an own `prototype` differs from the one a date lacks
      (match y with
      | .date _ t' => some (decide (t = t'))
      | .obj _ fs => if "prototype" ∈ keys fs then some false else none
      | _ => none)
  | .bytes r bs, y => compared (.bytes r bs) y
      (match y with
      | .bytes _ cs => some (decide (bs = cs))
      | _ => some false)
  | .arr r xs, y => compared (.arr r xs) y
      (match y with
      | .arr _ ys => if xs.length ≠ ys.length then some false else itemsEqual xs ys
      | _ => some false)
  | .obj r es, y => compared (.obj r es) y
      (if "equals" ∈ keys es then none
      else match y with
      -- Object.keys(..).size is undefined on both sides, so no count is compared
      | .obj _ fs => entriesEqual es fs
      | _ => some false)
  | .map r generic ps, y => compared (.map r generic ps) y
      (match y with
      | .map _ generic' qs =>
          if generic ≠ generic' ∨ ps.length ≠ qs.length then some false else pairsFound ps qs
      | _ => some false)
  | .set r generic xs, y => compared (.set r generic xs) y
      (match y with
      | .set _ generic' ys =>
          if generic ≠ generic' ∨ xs.length ≠ ys.length then some false else elementsFound xs ys
      | _ => some false)
termination_by structural x => x

/-- The loop over an array. -/
def itemsEqual : List Datum → List Datum → Option Bool
  | x :: xs, y :: ys => andThen (valuesEqual x y) (itemsEqual xs ys)
  | [], _ | _ :: _, [] => some true
termination_by structural xs => xs

/-- The loop over `Object.keys(this)`; an own `hasOwnProperty` is no function. -/
def entriesEqual : List (String × Datum) → List (String × Datum) → Option Bool
  | [], _ => some true
  | (k, v) :: es, fs =>
      if "hasOwnProperty" ∈ keys fs then none
      else match fs.lookup k with
        | none => some false
        | some w => andThen (valuesEqual v w) (entriesEqual es fs)
termination_by structural es => es

/-- The loop over a map. -/
def pairsFound : List (Datum × Datum) → List (Datum × Datum) → Option Bool
  | [], _ => some true
  | (k, v) :: ps, qs => andThen (entryIn (valuesEqual k) (valuesEqual v) qs) (pairsFound ps qs)
termination_by structural ps => ps

/-- The loop over a set. -/
def elementsFound : List Datum → List Datum → Option Bool
  | [], _ => some true
  | x :: xs, ys => andThen (foundIn (valuesEqual x) ys) (elementsFound xs ys)
termination_by structural xs => xs
end

end Datum
end Universa.Js
