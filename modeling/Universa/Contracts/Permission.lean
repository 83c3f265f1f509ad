import Mathlib.Data.List.Pairwise
import Universa.Contracts.Contract
import Universa.Js.Delta

/-! `permissions.js`: what each permission deletes from the tree of changes of a new revision. Only
    the deleted entries matter to the verdict, and split_join also takes the contracts it merges out
    of the revoked ones that still need a revoke permission. -/

namespace Universa.Contracts
open Universa.Js

/-- Own keys of a node with their changes. -/
abbrev Changes := List (String × Delta)

/-- `delete changes[k]`. -/
def erase (changes : Changes) (k : String) : Changes := changes.filter fun e => e.1 ≠ k

/-- A `MapDelta` with other changes. -/
def withChanges : Delta → Changes → Delta
  | .map o n _, changes => .map o n changes
  | d, _ => d

/-- What the permissions work on: the changes of the state, and the revoked contracts left. -/
structure Progress where
  stateChanges : Changes
  revokingItems : List Contract

namespace Progress

/-- `delete stateChanges[k]`. -/
def delete (s : Progress) (k : String) : Progress :=
  { s with stateChanges := erase s.stateChanges k }

/-- The changes of `stateChanges[field]` where it is a `MapDelta`. -/
def mapOf (s : Progress) (field : String) : Option Changes :=
  match s.stateChanges.lookup field with
  | some (.map _ _ changes) => some changes
  | _ => none

/-- `stateChanges[field]` where its changes became `changes`. -/
def setMap (s : Progress) (field : String) (changes : Changes) : Progress :=
  { s with stateChanges := s.stateChanges.map fun e =>
      (e.1, if e.1 = field then withChanges e.2 changes else e.2) }

/-- `revokingItems.delete(ri)` for each of `items`. -/
def release (s : Progress) (items : List Contract) : Progress :=
  { s with revokingItems := s.revokingItems.filter fun c => ∀ ri ∈ items, ri.id ≠ c.id }

end Progress

/-! ### change_number, change_owner, change_role -/

/-- The comparisons of `ChangeNumberPermission.checkChanges`. -/
def ChangeNumberPermission.acceptsChange (p : ChangeNumberPermission) (oldValue newValue : Value) :
    Option Bool := do
  let valueDelta := .num (← minus newValue oldValue)
  if !(← lessEq p.minStep valueDelta) then return false
  if !(← lessEq valueDelta p.maxStep) then return false
  if !(← lessEq newValue p.maxValue) then return false
  lessEq p.minValue newValue

/-- `ChangeNumberPermission.checkChanges`. -/
def ChangeNumberPermission.checkChanges (p : ChangeNumberPermission) (s : Progress) :
    Option Progress :=
  match s.mapOf "data" with
  | none => some s
  | some dataChanges => do
      if !(← hasOwn dataChanges p.fieldName) then return s
      match dataChanges.lookup p.fieldName with
      | some (.changed oldValue newValue) =>
          if ← p.acceptsChange oldValue newValue then
            return s.setMap "data" (erase dataChanges p.fieldName)
          else return s
      | _ => return s

/-- `ChangeRolePermission.checkChanges`. -/
def changeRole (roleName : String) (s : Progress) : Progress :=
  match s.mapOf "roles" with
  | none => s
  | some roles => s.setMap "roles" (erase roles roleName)

/-! ### modify_data -/

/-- What `for (let v of w)` runs over; anything else throws. -/
def iterate : Value → Option (List Value)
  | .arr xs => some xs
  | .str s => some (s.toList.map fun c => .str (String.ofList [c]))
  | .bytes bs => some (bs.map fun b => .num (.fin b.toNat))
  | _ => none

/-- The loop over a whitelist: an equal value, or both blank. -/
def whitelisted (value : Value) : List Value → Option Bool
  | [] => some false
  | v :: vs => do
      if ← valuesEqual v value then return true
      if blank value && blank v then return true
      whitelisted value vs

/-- `ModifyDataPermission.acceptsChange`. -/
def acceptsChange (fields : Option (List (String × Value))) (field : String) (value : Value) :
    Option Bool :=
  match fields with
  | none => none
  | some fs => do
      if !(← hasOwn fs field) then return false
      match fs.lookup field with
      | none | some .null => return true
      | some whitelist => whitelisted value (← iterate whitelist)

/-- The loop over `Object.keys(dataChanges.changes)`: what a whitelist accepts is deleted. -/
def dataLoop (fields : Option (List (String × Value))) : List String → Changes → Option Changes
  | [], changes => some changes
  | key :: rest, changes =>
      match changes.lookup key with
      | none => dataLoop fields rest changes
      | some item => do
          if ← acceptsChange fields key item.newValue then dataLoop fields rest (erase changes key)
          else dataLoop fields rest changes

/-- The loop meant for `references` and `expires_at`: `for..in` runs over the indexes of the list
    and the extended prototype; on one of these names it throws or refuses. -/
def rootFieldsLoop (fields : Option (List (String × Value))) (s : Progress) :
    List String → Option Unit
  | [] => some ()
  | rootField :: rest => do
      match s.stateChanges.lookup rootField with
      | none => rootFieldsLoop fields s rest
      | some item =>
          if ← acceptsChange fields ("/" ++ rootField) item.newValue then none
          else rootFieldsLoop fields s rest

/-- The part of `ModifyDataPermission.checkChanges` on data fields. -/
def modifyFields (fields : Option (List (String × Value))) (s : Progress) : Option Progress :=
  match s.mapOf "data" with
  | none => some s
  | some dataChanges => (dataLoop fields (keys dataChanges) dataChanges).map (s.setMap "data")

/-- `ModifyDataPermission.checkChanges`. -/
def modifyData (fields : Option (List (String × Value))) (s : Progress) : Option Progress := do
  let s ← modifyFields fields s
  rootFieldsLoop fields s ["0", "1", "equals", "stringId"]
  return s

/-! ### split_join -/

/-- `hasSimilarPermission` over the permissions named split_join. -/
def similarAmong (params : Value) (keys : KeySet) (checkAllowance : Bool) :
    List Permission → Option Bool
  | [] => some false
  | p :: ps => do
      if !(← valuesEqual params (.obj p.params)) then similarAmong params keys checkAllowance ps
      else if checkAllowance && !p.isAllowedForKeys keys then
        similarAmong params keys checkAllowance ps
      else return true

/-- `hasSimilarPermission(contract, keys, checkAllowance)`. -/
def hasSimilarPermission (params : List (String × Value)) (contract : Contract) (keys : KeySet)
    (checkAllowance : Bool) : Option Bool :=
  match contract.definition.permissions.lookup "split_join" with
  | none => some false
  | some permissions => similarAmong (.obj params) keys checkAllowance permissions

/-- `validateMergeFields(c1, c2)`. -/
def validateMergeFields (c1 c2 : Contract) : List String → Option Bool
  | [] => some true
  | field :: rest => do
      if !(← valuesEqual (← c1.get field) (← c2.get field)) then return false
      validateMergeFields c1 c2 rest

/-- `isMergeable(c)`. -/
def isMergeable (fieldName : String) (c : Contract) : Option Bool := do
  if !(← hasOwn c.state.data fieldName) then return false
  match c.state.data.lookup fieldName with
  | some .null => return false
  | _ => return true

/-- `new BigDecimal(c.state.data[fieldName])`. -/
def amount (fieldName : String) (c : Contract) : Option ℚ :=
  bigDecimal ((c.state.data.lookup fieldName).getD .null)

/-- A split_join permission at work on one changed contract; reading a missing context throws. -/
structure SplitJoin where
  rule : SplitJoinPermission
  params : List (String × Value)
  changed : Contract
  context : Option Context
  keys : KeySet

namespace SplitJoin

/-- The three tests a contract passes to take part in a sum. -/
def takesPart (p : SplitJoin) (checkAllowance : Bool) (c : Contract) : Option Bool := do
  if !(← isMergeable p.rule.fieldName c) then return false
  if !(← validateMergeFields p.changed c p.rule.mergeFields) then return false
  hasSimilarPermission p.params c p.keys checkAllowance

/-- The sum over the siblings; it is off when one of them takes no part. -/
def siblingSum (p : SplitJoin) : List Contract → Option (Option ℚ)
  | [] => some (some 0)
  | s :: rest => do
      if !(← p.takesPart false s) then return none
      let value ← amount p.rule.fieldName s
      return (← p.siblingSum rest).map (value + ·)

/-- The sum over revoked contracts that take part, and these contracts. -/
def revokedSum (p : SplitJoin) : List Contract → Option (ℚ × List Contract)
  | [] => some (0, [])
  | c :: rest => do
      if !(← p.takesPart true c) then p.revokedSum rest
      else
        let value ← amount p.rule.fieldName c
        let (sum, taken) ← p.revokedSum rest
        return (value + sum, c :: taken)

/-- `allRevoking`: what the siblings revoke, by id. -/
def allRevoking (siblings : List Contract) : List Contract :=
  (siblings.flatMap (·.revokingItems)).pwFilter fun a b => a.id ≠ b.id

/-- `checkSplitJoinCase`: the siblings' sum against the sum of all they revoke. -/
def checkSplitJoinCase (p : SplitJoin) : Option (Bool × List Contract) := do
  let context ← p.context
  match ← p.siblingSum context.siblings with
  | none => return (false, [])
  | some sum =>
      let (revoked, taken) ← p.revokedSum (allRevoking context.siblings)
      return (decide (revoked = sum), taken)

/-- `isValid` of `checkSplit`: the siblings' sum is the old value, or the split-join case holds. -/
def isValidSplit (p : SplitJoin) (sum oldValue : ℚ) : Option (Bool × List Contract) :=
  if sum = oldValue then some (true, []) else p.checkSplitJoinCase

/-- The verdict of `checkSplit`, with the contracts to release: a valid split whose new value is at
    least `min_value` in steps of `min_unit`. -/
def checkSplit (p : SplitJoin) (oldValue newValue : ℚ) : Option (Bool × List Contract) := do
  let context ← p.context
  match ← p.siblingSum context.siblings with
  | none => return (false, [])
  | some sum =>
      let (isValid, taken) ← p.isValidSplit sum oldValue
      if !isValid then return (false, [])
      let minValue ← bigDecimal p.rule.minValue
      if newValue < minValue then return (false, [])
      let minUnit ← bigDecimal p.rule.minUnit
      return (decide (minUnit ≤ ulp newValue), taken)

/-- The verdict of `checkMerge`: the contract's own revoked sum is the new value, or the split-join
    case holds. -/
def checkMerge (p : SplitJoin) (newValue : ℚ) : Option (Bool × List Contract) := do
  let (sum, taken) ← p.revokedSum p.changed.revokingItems
  if sum = newValue then return (true, taken)
  p.checkSplitJoinCase

/-- The verdict for a changed amount: a smaller one is a split, a larger one a merge. -/
def verdict (p : SplitJoin) (oldValue newValue : Value) : Option (Bool × List Contract) := do
  let o ← bigDecimal oldValue
  let n ← bigDecimal newValue
  if n < o then p.checkSplit o n
  else if o < n then p.checkMerge n
  else return (false, [])

/-- `SplitJoinPermission.checkChanges`. -/
def checkChanges (p : SplitJoin) (s : Progress) : Option Progress :=
  match s.mapOf "data" with
  | none => some s
  | some dataChanges => do
      if !(← hasOwn dataChanges p.rule.fieldName) then return s
      match dataChanges.lookup p.rule.fieldName with
      | some (.changed oldValue newValue) =>
          let (isValid, taken) ← p.verdict oldValue newValue
          if isValid then
            return ((s.setMap "data" (erase dataChanges p.rule.fieldName)).delete "branch_id").release
              taken
          else return s
      | _ => return s

end SplitJoin

/-! ### All classes -/

/-- `permission.checkChanges`. -/
def Permission.checkChanges (p : Permission) (changed : Contract) (context : Option Context)
    (keys : KeySet) (s : Progress) : Option Progress :=
  match p.rule with
  | .revoke => some s
  | .changeOwner => some (s.delete "owner")
  | .changeRole roleName => some (changeRole roleName s)
  | .modifyData fields => modifyData fields s
  | .changeNumber c => c.checkChanges s
  | .splitJoin rule =>
      SplitJoin.checkChanges ⟨rule, p.params, changed, context, keys⟩ s

end Universa.Contracts
