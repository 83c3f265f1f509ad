import Mathlib.Algebra.BigOperators.Group.List.Basic
import Universa.Lib.Budget
import Universa.Lib.Comp

/-! The quantas a check of a transaction costs (`quantiser.js`, `Contract.check`, `verifySignatures`,
    `ContractDelta.excludePermittedChanges`). Every contract of the tree has its own `Quantiser`: it is reset to
    what is left of the one above, and added back to it.

    What a check finds in a contract enters as data: its signatures, what its permissions answer for its keys,
    which referenced items the constraints verify, and wherever something else can be thrown, whether it is. -/

namespace Universa.Contracts.Quanta
open Budget

/-! ### The quantiser -/

/-- `Quantiser`. -/
structure Quantiser where
  quantaSum : ℕ
  quantaLimit : ℤ
  deriving DecidableEq

/-! `QuantiserProcesses`. -/

def priceCheck2048Sig : ℕ := 1
def priceCheck4096Sig : ℕ := 8
def priceApplicablePerm : ℕ := 1
def priceSplitjoinPerm : ℕ := 2
def priceRegisterVersion : ℕ := 20
def priceRevokeVersion : ℕ := 20
def priceCheckConstraint : ℕ := 1

/-- What ends a check early: `QuantiserException`, or another one. -/
inductive Thrown where
  | quantiserException
  | other
  deriving DecidableEq

/-- The quantiser of the contract that is checked, and what was charged so far in the whole tree. -/
structure Meter where
  quantiser : Quantiser
  charged : ℕ
  deriving DecidableEq

/-- Work of a check. -/
abbrev Work := Comp Thrown Empty Meter Unit

/-- `reset(limit)`. -/
def reset (limit : ℤ) : Work := Comp.modify fun m => { m with quantiser := ⟨0, limit⟩ }

/-- `addWorkCost(cost)`. -/
def addWorkCost (cost : ℕ) : Work := fun m =>
  let quantiser := { m.quantiser with quantaSum := m.quantiser.quantaSum + cost }
  if 0 ≤ quantiser.quantaLimit ∧ quantiser.quantaLimit < quantiser.quantaSum then
    .throw .quantiserException { m with quantiser }
  else .ok () { m with quantiser }

/-- `quantasLeft()`. -/
def Quantiser.quantasLeft (q : Quantiser) : ℤ := if 0 ≤ q.quantaLimit then q.quantaLimit - q.quantaSum else -1

/-- `addWorkCost` for work that is done: its cost is charged. -/
def charge (cost : ℕ) : Work := do
  Comp.modify fun m => { m with charged := m.charged + cost }
  addWorkCost cost

/-- `addWorkCost` on the quantiser of a referenced item. It was never reset, so it has no limit. -/
def chargeReferenced (cost : ℕ) : Work := Comp.modify fun m => { m with charged := m.charged + cost }

/-- `addWorkCostFrom(quantiser)`, for the quantiser of work that came back. -/
def addBack (quantiser : Quantiser) : Outcome Thrown Empty Meter Unit → Outcome Thrown Empty Meter Unit
  | .ok () below => addWorkCost below.quantiser.quantaSum ⟨quantiser, below.charged⟩
  | .throw e below => .throw e ⟨quantiser, below.charged⟩
  | .crash k below => .crash k below

/-- Work on a contract below, whose quantiser is reset to `quantasLeft()` and then added back. -/
def subItem (work : Work) : Work := fun m =>
  addBack m.quantiser (work ⟨⟨0, m.quantiser.quantasLeft⟩, m.charged⟩)

/-- A `for` loop. -/
def each {α : Type} (work : α → Work) : List α → Work
  | [] => pure ()
  | a :: as => do
      work a
      each work as

/-- The end of a check by another exception, where there is one. -/
def throwIf (b : Bool) : Work := if b then Comp.fail .other else pure ()

/-! ### Contracts -/

/-- A key, by its strength. -/
structure Key where
  bitStrength : ℕ
  deriving DecidableEq

/-- The price of checking a signature with the key. -/
def Key.price (key : Key) : ℕ := if key.bitStrength = 2048 then priceCheck2048Sig else priceCheck4096Sig

/-- A signature: one that cannot be read, one whose key is not found, or one that is verified with a key, which
    may throw. -/
inductive Signature where
  | unreadable
  | noKey
  | verified (key : Key) (verifyThrows : Bool)

/-- What `verifySealedKeys` loads: whether it is a unicapsule whose keys can be gone through, and its signatures. -/
structure Capsule where
  opens : Bool
  signatures : List Signature

/-- What `verifySealedKeys` reads of a contract. -/
structure Sealing where
  sealedBinary : Option Capsule
  isNeedVerifySealedKeys : Bool
  sealedByKeys : List Key

/-- A condition of a constraint: `can_perform` of a referenced item, or one that throws. Others cost
    nothing. -/
inductive Condition where
  | canPerform (referenced : Sealing)
  | throws

/-- What `isAllowedForKeys` comes to: a role may throw. -/
inductive Answer where
  | allowed
  | denied
  | throws
  deriving DecidableEq

/-- A permission of the parent: whether the keys are allowed, whether it is a `SplitJoinPermission`, and
    whether its `checkChanges` throws. -/
structure PermissionAnswer where
  isAllowedForKeys : Answer
  isSplitJoin : Bool
  checkChangesThrows : Bool

/-- A revoked contract: whether it is the parent, what its `revoke` permissions answer, and whether the delta
    leaves it among its revoking items. -/
structure RevokingItem where
  sealing : Sealing
  conditions : List Condition
  isParent : Bool
  revokePermissions : List Answer
  leftByDelta : Bool

/-- What is checked by the origin: a root contract, a change without its parent, or a change, with the
    permissions of the parent by name, and whether something before or after these throws. -/
inductive Changes where
  | root
  | parentMissing
  | changed (throws : Bool) (permissions : List (List PermissionAnswer)) (deltaThrows : Bool)

/-- A contract as its check reads it; `treeThrows` is of the tree of contracts, `basicCheckThrows` of all up to
    the `revoke` permissions of a root or up to the change, the last field of the last checks. -/
structure Contract where
  sealing : Sealing
  treeThrows : Bool
  constraints : ℕ
  conditions : List Condition
  revokingItems : List RevokingItem
  basicCheckThrows : Bool
  changes : Changes
  lastChecksThrow : Bool

/-- A contract with its new items. -/
inductive Item where
  | mk (contract : Contract) (newItems : List Item)

/-! ### The check -/

/-- The turn of a signature, with the way to charge. -/
def Signature.check (charge : ℕ → Work) : Signature → Work
  | .unreadable => Comp.fail .other
  | .noKey => pure ()
  | .verified key verifyThrows => do
      charge key.price
      throwIf verifyThrows

/-- `verifySealedKeys(true)`, with the way to charge. -/
def Sealing.verifySealedKeys (charge : ℕ → Work) (s : Sealing) : Work :=
  match s.sealedBinary with
  | none => pure ()
  | some data =>
      if !s.isNeedVerifySealedKeys then each (fun key => charge key.price) s.sealedByKeys
      else if !data.opens then Comp.fail .other
      else each (Signature.check charge) data.signatures

/-- A condition of a constraint: keys of a referenced item are verified where it has none yet. -/
def Condition.check : Condition → Work
  | .canPerform referenced =>
      if referenced.sealedByKeys.length = 0 then referenced.verifySealedKeys chargeReferenced else pure ()
  | .throws => Comp.fail .other

/-- The loop over the `revoke` permissions of one contract. -/
def checkRevokePermission : List Answer → Work
  | [] => pure ()
  | answer :: permissions => do
      charge priceApplicablePerm
      match answer with
      | .allowed => pure ()
      | .denied => checkRevokePermission permissions
      | .throws => Comp.fail .other

/-- `checkRevokePermissions(revokes)`. -/
def checkRevokePermissions (revokes : List RevokingItem) : Work :=
  each (fun rc => checkRevokePermission rc.revokePermissions) (revokes.filter (!·.isParent))

/-- The price of a permission that is allowed. -/
def quantisePermission (p : PermissionAnswer) : Work := do
  charge priceApplicablePerm
  if p.isSplitJoin then charge priceSplitjoinPerm else pure ()

/-- A permission in the loop of `excludePermittedChanges`: the first allowed one of its name is charged. -/
def excludePermission (permissionQuantized : Bool) (p : PermissionAnswer) : Work :=
  match p.isAllowedForKeys with
  | .allowed =>
      let quantised : Work := if permissionQuantized then pure () else quantisePermission p
      quantised >>= fun _ => throwIf p.checkChangesThrows
  | .denied => pure ()
  | .throws => Comp.fail .other

/-- The loop of `excludePermittedChanges` over the permissions of one name. -/
def excludePermitted : Bool → List PermissionAnswer → Work
  | _, [] => pure ()
  | permissionQuantized, p :: permissions => do
      excludePermission permissionQuantized p
      excludePermitted (permissionQuantized || p.isAllowedForKeys = .allowed) permissions

/-- `checkRootContract()` or `checkChangedContract()`. -/
def Contract.checkByOrigin (c : Contract) : Work :=
  match c.changes with
  | .root => checkRevokePermissions c.revokingItems
  | .parentMissing => pure ()
  | .changed throws permissions deltaThrows => do
      throwIf throws
      each (excludePermitted false) permissions
      throwIf deltaThrows
      checkRevokePermissions (c.revokingItems.filter (·.leftByDelta))

mutual
/-- `verifySignatures()`. -/
def Item.verifySignatures : Item → Work
  | .mk c newItems => do
      c.sealing.verifySealedKeys charge
      verifyNewItems newItems
      each (fun ri => subItem (ri.sealing.verifySealedKeys charge)) c.revokingItems

/-- Its loop over the new items. -/
def verifyNewItems : List Item → Work
  | [] => pure ()
  | ni :: newItems => do
      subItem ni.verifySignatures
      verifyNewItems newItems
end

/-- `check` of a contract, up to its new items. -/
def Contract.check (c : Contract) : Work := do
  throwIf c.treeThrows
  charge priceRegisterVersion
  charge (priceRevokeVersion * c.revokingItems.length)
  charge (priceCheckConstraint * c.constraints)
  each Condition.check c.conditions
  each (fun ri => each Condition.check ri.conditions) c.revokingItems
  throwIf c.basicCheckThrows
  c.checkByOrigin

mutual
/-- `check(prefix)`, where the prefix is empty for the root. -/
def Item.check : Bool → Item → Work
  | isRoot, .mk c newItems => do
      fun m => reset m.quantiser.quantaLimit m
      let signatures : Work := if isRoot then (Item.mk c newItems).verifySignatures else pure ()
      signatures
      c.check
      checkNewItems newItems
      throwIf c.lastChecksThrow

/-- Its loop over the new items: `checkSubItemQuantized`. -/
def checkNewItems : List Item → Work
  | [] => pure ()
  | ni :: newItems => do
      subItem (ni.check false)
      checkNewItems newItems
end

end Universa.Contracts.Quanta
