import Universa.Contracts.ContractDelta
import Universa.Lib.Base64

/-! The check of a transaction (`contract.js`): a root contract with its tree of new items. Loading gives
    every contract a context of its own, and then gives each new item the context of the contract that
    holds it; the check reads the siblings of a split from there.

    The checks that do not look at the sums (constraints, dates, roles, payment limits) are one function
    of the contract, which may add any errors or throw. -/

namespace Universa.Contracts
open Universa.Js

/-! ### Identifiers -/

/-- `id.base64`. -/
def HashId.base64 (id : HashId) : String := String.ofList (Base64.encode id.digest)

/-- `getRevisionId()`. -/
def Contract.getRevisionId (c : Contract) : Option String := do
  let parentId := match c.state.parent with
    | none => ""
    | some parent => parent.base64 ++ "/"
  let branchId ← match c.state.branchId with
    | .null => some ""
    | branch => (text branch).map ("/" ++ ·)
  return c.getOrigin.base64 ++ parentId ++ c.state.revision.text ++ branchId

/-! ### One contract -/

/-- `checkRevokePermissions(revokes)`: the parent needs no permission. -/
def Contract.checkRevokePermissions (c : Contract) (revokes : List Contract) : List ErrorRecord :=
  revokes.flatMap fun rc =>
    if some rc.id = c.state.parent then []
    else errorUnless (((rc.definition.permissions.lookup "revoke").getD []).any
        (·.isAllowedForKeys c.effectiveKeys))
      ⟨.FORBIDDEN, "revokingItem",
        "revocation not permitted for item " ++ String.ofList (rc.id.base64.toList.take 6) ++ "..."⟩

/-- The revision and creation time of a root contract; comparing a missing date throws. -/
def Contract.rootRevisionErrors (c : Contract) : Option (List ErrorRecord) :=
  if !c.state.revision.eq (.fin 1) then
    some [⟨.BAD_VALUE, "undefinedstate.revision", "must be 1 in a root contract"⟩]
  else match c.state.createdAt, c.definition.createdAt with
    | some s, some d => some (errorUnless (decide (s = d)) ⟨.BAD_VALUE, "undefinedstate.created_at",
        "should match definition.create_at in a root contract"⟩)
    | _, _ => none

/-- `checkRootContract()`: it is called without a prefix. -/
def Contract.checkRootContract (c : Contract) : Option (List ErrorRecord) := do
  let issuer := errorUnless
    (!c.roles.issuer.isValid || c.roles.issuer.isAllowedForKeys c.effectiveKeys)
    ⟨.ISSUER_MUST_CREATE, "undefined", "missing issuer signature(s)"⟩
  let revision ← c.rootRevisionErrors
  let origin := errorUnless c.state.origin.isNone
    ⟨.BAD_VALUE, "undefinedstate.origin", "must be empty in a root contract"⟩
  let parent := errorUnless c.state.parent.isNone
    ⟨.BAD_VALUE, "undefinedstate.parent", "must be empty in a root contract"⟩
  return issuer ++ revision ++ origin ++ parent ++ c.checkRevokePermissions c.revokingItems

/-- The parent that `checkChangedContract` takes: from the context when there are siblings. -/
def Contract.parentIn (c : Contract) (context : Context) : Option Contract :=
  if 1 < context.siblings.length then context.base else c.getRevokingItem c.state.parent

/-- `checkChangedContract()`. -/
def Contract.checkChangedContract (c : Contract) (context : Context) : Option (List ErrorRecord) :=
  match c.parentIn context with
  | none => some [⟨.BAD_REF, "parent", "parent contract must be included"⟩]
  | some parent => do
      let origin := errorUnless (decide (some parent.getOrigin = c.state.origin))
        ⟨.BAD_VALUE, "state.origin", "wrong origin, should be root"⟩
      let parentId := errorUnless (decide (some parent.id = c.state.parent))
        ⟨.BAD_VALUE, "state.parent", "illegal parent reference"⟩
      let (delta, left) ← checkDelta parent c (some context)
      return origin ++ parentId ++ delta ++ c.checkRevokePermissions left

/-- A contract without an origin is checked as a root contract, another against its parent. -/
def Contract.checkByOrigin (c : Contract) (context : Context) : Option (List ErrorRecord) :=
  if c.state.origin = none then c.checkRootContract else c.checkChangedContract context

/-! ### The tree -/

/-- A contract with its new items. -/
inductive Item where
  | mk (contract : Contract) (newItems : List Item)

namespace Item

/-- The contract of the item. -/
def contract : Item → Contract
  | mk c _ => c

/-- Its new items. -/
def newItems : Item → List Item
  | mk _ items => items

/-- A new item of a contract is its sibling: both have one parent. -/
def isSibling (c : Contract) (i : Item) : Bool :=
  i.contract.state.parent.isSome && decide (i.contract.state.parent = c.state.parent)

/-- `updateContext()`: the contract's parent among the revoked, and the contracts that share it. -/
def updateContext (i : Item) : Context where
  base := i.contract.getRevokingItem i.contract.state.parent
  siblings := i.contract :: (i.newItems.filter (isSibling i.contract)).map contract

mutual
/-- The item and all items below it. -/
def items : Item → List Item
  | mk c news => mk c news :: itemsOf news

/-- The items of a list and below. -/
def itemsOf : List Item → List Item
  | [] => []
  | i :: is => i.items ++ itemsOf is
end

mutual
/-- `check(prefix, contractsTree)` of a contract in its context, and of its new items in the context it
    gave them; `others` are the checks that do not look at sums. -/
def check (others : Contract → Option (List ErrorRecord)) (context : Context) :
    Item → Option (List ErrorRecord)
  | mk c news => do
      let rest ← others c
      let own ← c.checkByOrigin context
      let below ← checkNewItems others (mk c news).updateContext news
      return rest ++ own ++ below

/-- The checks of new items. -/
def checkNewItems (others : Contract → Option (List ErrorRecord)) (context : Context) :
    List Item → Option (List ErrorRecord)
  | [] => some []
  | i :: is => do
      let errors ← check others context i
      let rest ← checkNewItems others context is
      return errors ++ rest
end

/-- `contractsTree`: the contracts of the transaction by id. -/
def contractsTree (root : Item) : List Contract :=
  (root.items.flatMap fun i => i.contract :: i.contract.revokingItems).pwFilter fun a b => a.id ≠ b.id

/-- The loop of `checkDupesCreation`. -/
def dupes (seen : List String) : List Contract → Option (List ErrorRecord)
  | [] => some []
  | c :: rest => do
      let cid ← c.getRevisionId
      if cid ∈ seen then
        return ⟨.BAD_VALUE, "", "duplicated revision id: " ++ cid⟩ :: (← dupes seen rest)
      else dupes (cid :: seen) rest

/-- `check()` of the root of a transaction. -/
def checkRoot (others : Contract → Option (List ErrorRecord)) (root : Item) :
    Option (List ErrorRecord) := do
  let errors ← check others root.updateContext root
  let dupes ← dupes [] root.contractsTree
  return errors ++ dupes

end Item

end Universa.Contracts
