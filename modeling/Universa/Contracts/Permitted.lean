import Universa.Contracts.ContractDelta
import Universa.Js.DeltaShows

/-! What "only permitted changes pass" means for a revision that `ContractDelta.check` accepts: it has
    the definition of the existing contract, the next revision number and a later creation date if any,
    and each other changed place of its state is covered by a permission the keys allow.

    A change slips through in four ways: it lies at a key the delta skips; a created item, whose
    `newValue` is not set, meets a whitelist with a blank; a whitelisted object is only a part of the
    new value; a bound of change_number is compared as text. -/

namespace Universa.Contracts
open Universa.Js

/-! ### Places of the state -/

/-- The places of a serialized state that a permission may free: a key of the state, a key of its
    roles, a key of its data. -/
inductive Place where
  | field (k : String)
  | role (k : String)
  | data (k : String)

namespace Place

/-- The key of a place. -/
def key : Place → String
  | field k | role k | data k => k

/-- The value at a place of the serialized state. -/
def value (c : Contract) : Place → Option Value
  | field k => c.serializeState.lookup k
  | role k => (c.state.roles.map fun r => (r.1, r.2.tree)).lookup k
  | data k => c.state.data.lookup k

/-- The state keys with rules of their own, and the two that are looked into. -/
def Checked : Place → Prop
  | field k => k ∉ ["created_by", "parent", "origin", "revision", "created_at", "data", "roles"]
  | _ => True

end Place

/-! ### What a permission covers -/

/-- `a <= b` as numbers. -/
def NumLe (a b : Value) : Prop :=
  ∃ x y, toNumber a = some x ∧ toNumber b = some y ∧ x.le y = true

/-- The new value lies in the range and its distance to the old one in the step. -/
def ChangeNumberPermission.Within (p : ChangeNumberPermission) (o n : Value) : Prop :=
  (∃ step, minus n o = some step ∧ NumLe p.minStep (.num step) ∧ NumLe (.num step) p.maxStep) ∧
    NumLe n p.maxValue ∧ NumLe p.minValue n

/-- The field is listed, with no whitelist or with one that holds the new value. -/
def Listed (fields : Option (List (String × Value))) (k : String) (new : Option Value) : Prop :=
  ∃ fs w, fields = some fs ∧ fs.lookup k = some w ∧ (w = .null ∨ ∃ vs, iterate w = some vs ∧
    ∃ v ∈ vs, Same v (new.getD .null) ∨ (blank v = true ∧ blank (new.getD .null) = true))

/-- The sums of split_join balance for a change of its field. -/
def SplitJoinPermission.Balances (rule : SplitJoinPermission) (params : List (String × Value))
    (changed : Contract) (context : Option Context) (o n : Value) : Prop :=
  ∃ taken, SplitJoin.verdict ⟨rule, params, changed, context, changed.effectiveKeys⟩ o n =
    some (true, taken)

/-- A permission of the existing contract that the changed one's keys allow. -/
def Allows (existing changed : Contract) (p : Permission) : Prop :=
  p ∈ existing.definition.allPermissions ∧ p.isAllowedForKeys changed.effectiveKeys = true

end Universa.Contracts
