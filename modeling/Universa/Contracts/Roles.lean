import Universa.Js.Value

/-! Roles of a contract (`roles.js`): simple roles of keys and addresses, lists of roles, and links to
    roles by name, each with the constraints it requires. Roles are objects that refer to objects, so
    a contract's roles are a graph over references `R`; `K` are public keys and `A` addresses.

    `registerRole` and `deserialize` give a contract its own roles only: the sub-roles of a list that is
    unpacked have no `contract`. No role is named `hasOwnProperty`.

    Evaluation reads the keys it is given with `for … of`. A `Set` starts anew at every reading, while the
    iterator of `keys()` goes on where the last reading stopped. Recursion takes fuel; `none` is a
    call that has not returned. -/

namespace Universa.Contracts
open Universa.Js

/-! ### Roles -/

/-- `ListRoleMode`, with the size of a quorum. -/
inductive ListRoleMode where
  | ALL
  | ANY
  | QUORUM (quorumSize : Number)

/-- The classes of roles with their own fields. A `QuorumVoteRole` evaluates no other role; it enters by
    its answer and its special constraints, as they are with its contract. -/
inductive RoleKind (K A R : Type) where
  | simple (keys : List K) (addresses : List A)
  | list (mode : ListRoleMode) (roles : List R)
  | link (roleName : String)
  | vote (answer : Except Unit Bool) (specialConstraints : Except Unit (List String))

/-- A role: whether its `contract` is set, and the constraints it requires. -/
structure RoleNode (K A R : Type) where
  hasContract : Bool
  requiredAllConstraints : List String
  requiredAnyConstraints : List String
  kind : RoleKind K A R

/-- The roles of a contract: `contract.roles` and `contract.state.roles` by name, and the constraints
    that hold for its roles. `isMatch` is `address.match(key)`. -/
structure RoleGraph (K A R : Type) where
  role : R → RoleNode K A R
  roles : String → Option R
  stateRoles : String → Option R
  validRoleConstraints : List String
  isMatch : A → K → Bool

/-! ### Keys -/

/-- Something to read keys from: whether a reading that stops at the first hit has one, and what a
    later reading starts from. -/
structure KeySource (K S : Type) where
  find : (K → Bool) → S → Bool × S

/-- A set: every reading starts anew. -/
def KeySource.collection {K : Type} : KeySource K (List K) where
  find p keys := (keys.any p, keys)

/-- An iterator: a reading goes on where the last one stopped. -/
def KeySource.iterator {K : Type} : KeySource K (List K) where
  find p rest := (rest.any p, (rest.dropWhile fun k => !p k).tail)

/-! ### Evaluation -/

namespace RoleGraph
variable {K A R S : Type} [DecidableEq K] (g : RoleGraph K A R) (source : KeySource K S)

/-- `contract.validRoleConstraints`, and none without a contract. -/
def constraintsFor (r : R) : List String := if (g.role r).hasContract then g.validRoleConstraints else []

/-- `isAllowedForConstraints(contract == null ? new Set() : contract.validRoleConstraints)`. -/
def isAllowedForConstraints (r : R) : Bool :=
  (g.role r).requiredAllConstraints.all (· ∈ g.constraintsFor r) &&
    ((g.role r).requiredAnyConstraints.isEmpty ||
      (g.role r).requiredAnyConstraints.any (· ∈ g.constraintsFor r))

/-- The role requires no constraints. -/
def unconstrained (r : R) : Bool :=
  (g.role r).requiredAllConstraints.isEmpty && (g.role r).requiredAnyConstraints.isEmpty

/-- What reading a property of a plain object finds that is not there: the names of `Object.prototype`,
    two of them added by `tools.js`. -/
def inheritedNames : List String :=
  ["constructor", "__defineGetter__", "__defineSetter__", "hasOwnProperty", "__lookupGetter__",
    "__lookupSetter__", "isPrototypeOf", "propertyIsEnumerable", "toString", "valueOf", "__proto__",
    "toLocaleString", "equals", "stringId"]

/-- What a link leads to: a role, nothing, an object that is no role, or a throw. -/
inductive Target (R : Type) where
  | role (r : R)
  | missing
  | other
  | thrown

/-- What the contract has under a name. -/
def named (roleName : String) : Target R :=
  match g.roles roleName with
  | some r => .role r
  | none =>
      if roleName ∈ inheritedNames then .other
      else match g.stateRoles roleName with
        | some r => .role r
        | none => .missing

/-- `getRole()`; without a contract `this.contract.roles` throws. -/
def getRole (r : R) (roleName : String) : Target R := if (g.role r).hasContract then g.named roleName else .thrown

/-- The loop of `resolve`, at a value and with the steps left. -/
def resolveLoop (ignoreConstrs : Bool) : ℕ → Target R → Target R
  | 0, _ => .missing
  | maxDepth + 1, .role r =>
      match (g.role r).kind with
      | .link roleName =>
          if ignoreConstrs || g.unconstrained r then
            match g.getRole r roleName with
            | .missing => .missing
            | .thrown => .thrown
            | t => resolveLoop ignoreConstrs maxDepth t
          else .role r
      | _ => .role r
  | _ + 1, t => t

/-- `resolve(ignoreConstrs)`. -/
def resolve (ignoreConstrs : Bool) (r : R) : Target R := g.resolveLoop ignoreConstrs 40 (.role r)

/-- The number of allowed sub-roles is the one the list requires. -/
def reached (mode : ListRoleMode) (size valid : ℕ) : Bool :=
  match mode with
  | .ALL => decide (size ≤ valid)
  | .ANY => decide (1 ≤ valid)
  | .QUORUM quorumSize => quorumSize.le (.fin valid)

/-- One reading for each key and address, until one is not found. -/
def readAll : List (K → Bool) → S → Bool × S
  | [], s => (true, s)
  | p :: ps, s =>
      match source.find p s with
      | (true, s') => readAll ps s'
      | (false, s') => (false, s')

/-- What the keys and addresses of a simple role look for. -/
def wanted (keys : List K) (addresses : List A) : List (K → Bool) :=
  keys.map (fun key k => decide (k = key)) ++ addresses.map g.isMatch

/-- The loop over the sub-roles of a list: it stops when the required number is reached. -/
def anyReached (eval : R → S → Option (Except Unit (Bool × S))) (enough : ℕ → Bool) :
    ℕ → List R → S → Option (Except Unit (Bool × S))
  | valid, [], s => some (.ok (enough valid, s))
  | valid, r :: rs, s =>
      match eval r s with
      | none => none
      | some (.error e) => some (.error e)
      | some (.ok (true, s')) =>
          if enough (valid + 1) then some (.ok (true, s')) else anyReached eval enough (valid + 1) rs s'
      | some (.ok (false, s')) => anyReached eval enough valid rs s'

/-- The special constraints of a vote role; only a source `this` has none, and does without the contract. -/
def specialConstraints (r : R) : Except Unit (List String) :=
  match (g.role r).kind with
  | .vote _ (.ok []) => .ok []
  | .vote _ special => if (g.role r).hasContract then special else .error ()
  | _ => .ok []

/-- `answer` of a vote role; without a contract its list is not found, and it is denied. -/
def voted (r : R) (answer : Except Unit Bool) (special : Except Unit (List String)) : Except Unit Bool :=
  match special with
  | .ok [] => answer
  | _ => if (g.role r).hasContract then answer else .ok false

/-- `role.isAllowedForKeys(keys)`: the answer with what is left of the keys, or a throw. -/
def isAllowedForKeys : ℕ → R → S → Option (Except Unit (Bool × S))
  | 0, _, _ => none
  | fuel + 1, r, s =>
      if !g.isAllowedForConstraints r then some (.ok (false, s))
      else match (g.role r).kind with
        | .simple keys addresses => some (.ok (readAll source (g.wanted keys addresses) s))
        | .list mode roles =>
            anyReached (isAllowedForKeys fuel) (reached mode roles.length) 0 roles s
        | .link _ =>
            match g.resolve false r with
            | .role r' => isAllowedForKeys fuel r' s
            | .missing => some (.ok (false, s))
            | .other | .thrown => some (.error ())
        | .vote answer special => some ((g.voted r answer special).map (·, s))

/-! ### Constraints and keys of roles -/

/-- `Role.containConstraint(name)`: the constraints of the role itself. -/
def ownConstraint (name : String) (r : R) : Except Unit Bool :=
  if name ∈ (g.role r).requiredAllConstraints ∨ name ∈ (g.role r).requiredAnyConstraints then .ok true
  else (g.specialConstraints r).map fun special => decide (name ∈ special)

/-- Some of the roles contain it, asked in turn. -/
def anyContains (contains : R → Option (Except Unit Bool)) : List R → Option (Except Unit Bool)
  | [] => some (.ok false)
  | r :: rs =>
      match contains r with
      | none => none
      | some (.error e) => some (.error e)
      | some (.ok true) => some (.ok true)
      | some (.ok false) => anyContains contains rs

/-- The roles that `containConstraint` asks: a list its sub-roles, and a link the roles of its name in `roles` and
    `state.roles`, both with a contract only. -/
def asked (r : R) : List R :=
  if (g.role r).hasContract then
    match (g.role r).kind with
    | .link roleName => (g.roles roleName).toList ++ (g.stateRoles roleName).toList
    | .list _ roles => roles
    | _ => []
  else []

/-- `containConstraint(name)`. -/
def containConstraint (name : String) : ℕ → R → Option (Except Unit Bool)
  | 0, _ => none
  | fuel + 1, r =>
      match g.ownConstraint name r with
      | .error e => some (.error e)
      | .ok true => some (.ok true)
      | .ok false => anyContains (containConstraint name fuel) (g.asked r)

/-- What is extracted from each role, all of them together. -/
def extractEach {X : Type} (extract : R → Option (Except Unit (List X))) : List R → Option (Except Unit (List X))
  | [] => some (.ok [])
  | r :: rs =>
      match extract r with
      | none => none
      | some (.error e) => some (.error e)
      | some (.ok xs) => (extractEach extract rs).map fun rest => rest.map (xs ++ ·)

/-- `RoleExtractor`: what the simple roles have, down through links and lists. -/
def extract {X : Type} (own : List K → List A → List X) : ℕ → R → Option (Except Unit (List X))
  | 0, _ => none
  | fuel + 1, r =>
      match (g.role r).kind with
      | .simple keys addresses => some (.ok (own keys addresses))
      | .link _ =>
          match g.resolve true r with
          | .role r' => extract own fuel r'
          | .missing | .other => some (.ok [])
          | .thrown => some (.error ())
      | .list _ roles => extractEach (extract own fuel) roles
      | .vote _ _ => some (.ok [])

/-- `RoleExtractor.extractKeys(role)`. -/
def extractKeys : ℕ → R → Option (Except Unit (List K)) := g.extract fun keys _ => keys

/-- `RoleExtractor.extractAddresses(role)`. -/
def extractAddresses : ℕ → R → Option (Except Unit (List A)) := g.extract fun _ addresses => addresses

end RoleGraph
end Universa.Contracts
