import Mathlib.Data.Nat.Notation
import Universa.Lib.OrderedMap

/-! Plain objects whose values are of one type: the names in the order in which they came. `Object.entries` puts the
    array indices first, and assigning to `__proto__` makes no name. -/

namespace Universa.Js
open Universa.Lib

variable {V : Type}

/-- The name is an array index. -/
def arrayIndex? (name : String) : Option ℕ := name.toNat?.filter fun n => toString n = name ∧ n < 4294967295

/-- `Object.entries(o)`: first the array indices by number, then the other names as they came. -/
def objectEntries (o : OrderedMap String V) : List (String × V) :=
  (o.entries.filter fun e => (arrayIndex? e.1).isSome).mergeSort
      (fun a b => (arrayIndex? a.1).getD 0 ≤ (arrayIndex? b.1).getD 0) ++
    o.entries.filter fun e => !(arrayIndex? e.1).isSome

/-- `o[name] = value`; under the name `__proto__` it sets the prototype. -/
def assignProperty (o : OrderedMap String V) (name : String) (value : V) : OrderedMap String V :=
  if name = "__proto__" then o else o.set name value

theorem objectEntries_perm (o : OrderedMap String V) : (objectEntries o).Perm o.entries := by
  refine ((List.mergeSort_perm _ _).append_right _).trans ?_
  exact List.filter_append_perm _ _

theorem nodup_objectEntries (o : OrderedMap String V) : ((objectEntries o).map Prod.fst).Nodup :=
  ((objectEntries_perm o).map Prod.fst).nodup_iff.mpr o.nodup

theorem lookup_objectEntries (o : OrderedMap String V) (name : String) :
    (objectEntries o).lookup name = o.get? name :=
  OrderedMap.lookup_perm (objectEntries_perm o).symm o.nodup name

end Universa.Js
