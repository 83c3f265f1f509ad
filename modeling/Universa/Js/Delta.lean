import Universa.Js.Value

/-! `deltas.js`: the structural difference of two values, and what it leaves out.

    `Object.prototype` is extended with `equals` and `stringId`, so `MapDelta` passes over these two
    names, also where they are an object's own keys. Assigning to the key `__proto__` of `changes`
    sets its prototype, so no node is kept there. A created item carries its value as `oldValue`, as
    its constructor is called with one value. -/

namespace Universa.Js

/-- A node of the difference of two values. -/
inductive Delta where
  | changed (oldValue newValue : Value)
  | created (oldValue newValue : Value)
  | removed (oldValue newValue : Value)
  | map (oldValue newValue : Value) (changes : List (String × Delta))
  | list (oldValue newValue : Value) (changes : List (ℕ × Delta))

namespace Delta

/-- `delta.oldValue`. -/
def oldValue : Delta → Value
  | changed o _ | created o _ | removed o _ | map o _ _ | list o _ _ => o

/-- `delta.newValue`. -/
def newValue : Delta → Value
  | changed _ n | created _ n | removed _ n | map _ n _ | list _ n _ => n

/-- `delta.isEmpty()`. -/
def isEmpty : Delta → Bool
  | map _ _ changes => changes.isEmpty
  | list _ _ changes => changes.isEmpty
  | _ => false

end Delta

/-- A key the loops of `MapDelta` pass over. -/
def passedOver (k : String) : Bool := k == "equals" || k == "stringId"

/-- A key that has no node. -/
def skipped (k : String) : Bool := passedOver k || k == "__proto__"

/-- `this.changes[key] = d`, which is the setter of `Object.prototype` for `__proto__`. -/
def setChange (k : String) (d : Delta) (changes : List (String × Delta)) : List (String × Delta) :=
  if k == "__proto__" then changes else (k, d) :: changes

/-- The second loop of `MapDelta`: keys of the new map that the old one has not. -/
def newKeys (old : List (String × Value)) : List (String × Value) → Option (List (String × Delta))
  | [] => some []
  | (k, v) :: fs =>
      if passedOver k then newKeys old fs else do
      if ← hasOwn old k then newKeys old fs
      else return setChange k (.created v .null) (← newKeys old fs)

/-- New elements after the old list's end. -/
def newItems : ℕ → List Value → List (ℕ × Delta)
  | _, [] => []
  | i, v :: ys => (i, .created v .null) :: newItems (i + 1) ys

/-- Neither a pair of arrays nor of plain objects: compared by `t.valuesEqual`. -/
def leafBetween (x y : Value) : Option (Option Delta) := do
  if ← valuesEqual x y then return none else return some (.changed x y)

mutual
/-- `Delta.between(parent, oldValue, newValue)`. -/
def between : Value → Value → Option (Option Delta)
  | .null, .null => some none
  | .null, y => some (some (.changed .null y))
  | x, .null => some (some (.changed x .null))
  | .arr xs, .arr ys => do
      let changes ← listChanges 0 xs ys
      return if changes.isEmpty then none else some (.list (.arr xs) (.arr ys) changes)
  | .obj es, .obj fs => do
      let changes ← mapChanges es fs
      let created ← newKeys es fs
      return if (changes ++ created).isEmpty then none
        else some (.map (.obj es) (.obj fs) (changes ++ created))
  | x, y => leafBetween x y
termination_by structural x => x

/-- The elements of `ListDelta`. -/
def listChanges : ℕ → List Value → List Value → Option (List (ℕ × Delta))
  | i, [], ys => some (newItems i ys)
  | i, x :: xs, [] => do return (i, .removed x .null) :: (← listChanges (i + 1) xs [])
  | i, x :: xs, y :: ys => do
      match ← between x y with
      | none => listChanges (i + 1) xs ys
      | some d => return (i, d) :: (← listChanges (i + 1) xs ys)
termination_by structural _ x => x

/-- The first loop of `MapDelta`: keys of the old map. -/
def mapChanges : List (String × Value) → List (String × Value) → Option (List (String × Delta))
  | [], _ => some []
  | (k, v) :: es, fs =>
      if passedOver k then mapChanges es fs else do
      if ← hasOwn fs k then
        match ← between v ((fs.lookup k).getD .null) with
        | none => mapChanges es fs
        | some d => return setChange k d (← mapChanges es fs)
      else return setChange k (.removed v .null) (← mapChanges es fs)
termination_by structural x => x
end

/-! ### Deep equality, and what the delta does not compare -/

mutual
/-- Deep equality: same keys and equal values all the way down. -/
def Same : Value → Value → Prop
  | .null, .null => True
  | .bool a, .bool b => a = b
  | .num a, .num b => a.eq b = true
  | .str a, .str b => a = b
  | .date a, .date b => a = b
  | .bytes a, .bytes b => a = b
  | .arr xs, .arr ys => SameItems xs ys
  | .obj es, .obj fs => SameEntries es fs ∧ ∀ k ∈ keys fs, k ∈ keys es
  | _, _ => False
termination_by structural x => x

/-- Two arrays of one length with equal elements. -/
def SameItems : List Value → List Value → Prop
  | [], [] => True
  | x :: xs, y :: ys => Same x y ∧ SameItems xs ys
  | _, _ => False
termination_by structural x => x

/-- The second object has every entry of the first with an equal value. -/
def SameEntries : List (String × Value) → List (String × Value) → Prop
  | [], _ => True
  | (k, v) :: es, fs => (∃ w, fs.lookup k = some w ∧ Same v w) ∧ SameEntries es fs
termination_by structural x => x
end

mutual
/-- Two values agree at every own key without a node that lies in both on one path. -/
def SkippedSame : Value → Value → Prop
  | .arr xs, .arr ys => SkippedItems xs ys
  | .obj es, .obj fs => SkippedEntries es fs ∧ ∀ k ∈ keys fs, skipped k = true → k ∈ keys es
  | _, _ => True
termination_by structural x => x

/-- `SkippedSame` of the elements of two arrays. -/
def SkippedItems : List Value → List Value → Prop
  | x :: xs, y :: ys => SkippedSame x y ∧ SkippedItems xs ys
  | _, _ => True
termination_by structural x => x

/-- `SkippedSame` of two objects: their skipped keys are equal, the other common ones agree. -/
def SkippedEntries : List (String × Value) → List (String × Value) → Prop
  | [], _ => True
  | (k, v) :: es, fs =>
      (if skipped k then ∃ w, fs.lookup k = some w ∧ Same v w
        else ∀ w, fs.lookup k = some w → SkippedSame v w) ∧ SkippedEntries es fs
termination_by structural x => x
end

end Universa.Js
