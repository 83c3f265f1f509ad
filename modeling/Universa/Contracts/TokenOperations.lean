import Universa.Contracts.Check
import Universa.Contracts.QuorumVote
import Universa.Js.Fixed

/-! Token contracts and the operations on them (`contractsservice.js`, and the revisions of `contract.js`
    that they are built of): split one, join two, or join several and split the sum among new owners.

    A public key or address enters packed, and a set of keys by fingerprints: `fits` tells which
    fingerprint is of the packed key or matches the packed address. Amounts are the decimals that
    `new BigDecimal` makes of the arguments, and `now` is the time a new revision is dated with, in the
    seconds a contract keeps. -/

namespace Universa.Contracts.Tokens
open Universa.Js

/-- Packed keys and addresses. -/
abbrev Packed := List UInt8

variable (fits : Packed → String → Bool)

/-! ### Roles -/

/-- Own fields of a `SimpleRole`. -/
structure SimpleRole where
  keys : List Packed
  addresses : List Packed

/-- `isAllowedForKeys`: each key and each address is found among the keys. -/
def SimpleRole.isAllowedForKeys (r : SimpleRole) (keys : KeySet) : Bool :=
  (r.keys ++ r.addresses).all fun p => keys.any (fits p)

/-- The serialized record of a key. -/
def keyRecord (key : Packed) : Value :=
  .obj [("key", .obj [("packed", .bytes key), ("__type", .str "RSAPublicKey")]),
    ("__type", .str "KeyRecord")]

/-- The serialized address. -/
def keyAddress (address : Packed) : Value :=
  .obj [("uaddress", .bytes address), ("__type", .str "KeyAddress")]

/-- `new SimpleRole(name, ...)`. -/
def simpleRole (name : String) (r : SimpleRole) : Role where
  tree := .obj [("name", .str name), ("keys", .arr (r.keys.map keyRecord)),
    ("addresses", .arr (r.addresses.map keyAddress)), ("__type", .str "SimpleRole")]
  isValid := !(r.keys.isEmpty && r.addresses.isEmpty)
  isAllowedForKeys := r.isAllowedForKeys fits

/-- `new RoleLink(name, roleName)` where that name is of `role`. -/
def roleLink (name roleName : String) (role : Role) : Role where
  tree := .obj [("name", .str name), ("target_name", .str roleName), ("__type", .str "RoleLink")]
  isValid := role.isValid
  isAllowedForKeys := role.isAllowedForKeys

/-- The role is a link to that name. -/
def linksTo (roleName : String) (r : Role) : Bool :=
  match r.tree with
  | .obj es => match es.lookup "target_name" with
    | some (.str target) => target == roleName
    | _ => false
  | _ => false

/-- A role of a contract where `roleName` became another role: a link answers as that role does. -/
def resolved (roleName : String) (role r : Role) : Role :=
  if linksTo roleName r then
    { r with isValid := role.isValid, isAllowedForKeys := role.isAllowedForKeys }
  else r

/-- A definition where `roleName` became another role. -/
def resolvedIn (roleName : String) (role : Role) (d : Definition) : Definition :=
  { d with permissions := d.permissions.map fun e =>
      (e.1, e.2.map fun p => { p with role := resolved roleName role p.role }) }

/-- `registerRole(role)` for a role named owner. -/
def registerOwner (role : Role) (c : Contract) : Contract :=
  { c with
    roles := { issuer := resolved "owner" role c.roles.issuer, owner := role,
               creator := resolved "owner" role c.roles.creator }
    definition := resolvedIn "owner" role c.definition }

/-- `registerRole(role)` for a role named creator. -/
def registerCreator (role : Role) (c : Contract) : Contract :=
  { c with roles := { c.roles with creator := role } }

/-! ### Permissions read and written -/

/-- The entries of an object. -/
def entriesOf : Value → List (String × Value)
  | .obj es => es
  | _ => []

/-- `params` of a permission in a loaded contract: all that was read, until `SplitJoinPermission.serialize`
    sets it to the fields of the class. -/
def loadedPermission (written : Bool) (p : Permission) : Permission :=
  { p with params := match p.rule, written with
      | .splitJoin _, true => p.serializedParams
      | _, _ => entriesOf p.serialize }

/-- The definition of a loaded contract; `written` where it was serialized since. -/
def loadedDefinition (written : Bool) (d : Definition) : Definition :=
  { d with permissions := d.permissions.map fun e => (e.1, e.2.map (loadedPermission written)) }

/-- A loaded contract. -/
def loadedContract (written : Bool) (c : Contract) : Contract :=
  { c with definition := loadedDefinition written c.definition }

/-! ### createTokenContract -/

/-- What all revisions of a token have in common: the arguments of `createTokenContract` apart from the
    owner and the amount, the dates it sets and the random ids of the permissions. -/
structure Terms where
  issuer : SimpleRole
  minValue : ℚ
  currency : String
  name : String
  description : String
  createdAt : ℤ
  expiresAt : ℤ
  changeOwnerId : String
  splitJoinId : String
  revokeOwnerId : String
  revokeIssuerId : String
  distinctIds : [changeOwnerId, splitJoinId, revokeOwnerId, revokeIssuerId].Nodup
  randomIds : ∀ id ∈ [changeOwnerId, splitJoinId, revokeOwnerId, revokeIssuerId], id.length = 6

namespace Terms
variable (t : Terms)

/-- `params` of the split_join permission. -/
def params : List (String × Value) :=
  [("min_value", .str (toFixed t.minValue)), ("min_unit", .str (toFixed t.minValue)),
    ("field_name", .str "amount"), ("join_match_fields", .arr [.str "state.origin"])]

/-- The permissions of a token with this issuer and owner. -/
def permissions (issuer owner : Role) : List (String × List Permission) :=
  let ownerLink := roleLink "@owner_link" "owner" owner
  let issuerLink := roleLink "@issuer_link" "issuer" issuer
  [("change_owner", [⟨t.changeOwnerId, "change_owner", ownerLink, [], .changeOwner⟩]),
    ("split_join", [⟨t.splitJoinId, "split_join", ownerLink, t.params,
      .splitJoin (.initFromParams "amount" t.params)⟩]),
    ("revoke", [⟨t.revokeOwnerId, "revoke", ownerLink, [], .revoke⟩,
      ⟨t.revokeIssuerId, "revoke", issuerLink, [], .revoke⟩])]

/-- The definition of a token of this owner. -/
def definition (owner : SimpleRole) : Definition where
  createdAt := some t.createdAt
  expiresAt := some t.expiresAt
  data := [("currency", .str t.currency), ("short_currency", .str t.currency), ("name", .str t.name),
    ("description", .str t.description)]
  references := []
  extendedType := .null
  permissions := t.permissions (simpleRole fits "issuer" t.issuer) (simpleRole fits "owner" owner)

end Terms

/-- `createTokenContract(issuerKeys, ownerKeys, amount, ...)`, sealed with this id. -/
def createTokenContract (t : Terms) (owner : SimpleRole) (amount : ℚ) (id : HashId) (issuerKeys : KeySet)
    (otherFields : String → Option Value) : Contract where
  id := id
  apiLevel := .fin 4
  roles := { issuer := simpleRole fits "issuer" t.issuer, owner := simpleRole fits "owner" owner,
             creator := roleLink "creator" "issuer" (simpleRole fits "issuer" t.issuer) }
  definition := t.definition fits owner
  state := { revision := .fin 1, createdAt := some t.createdAt, expiresAt := none, origin := none,
             parent := none, data := [("amount", .str (toFixed amount))], dataKeys := by simp [keys],
             branchId := .null, references := [], roles := [] }
  transactional := none
  effectiveKeys := issuerKeys
  otherFields := otherFields
  revokingItems := []

/-! ### Revisions -/

theorem keys_assign (o : List (String × Value)) (k : String) (v : Value) :
    keys (assign o k v) = if k ∈ keys o then keys o else keys o ++ [k] := by
  unfold assign
  split
  · rw [keys, List.map_map]
    refine List.map_congr_left fun e _ => ?_
    by_cases he : e.1 = k <;> simp [he]
  · simp [keys]

theorem nodup_assign {o : List (String × Value)} (h : (keys o).Nodup) (k : String) (v : Value) :
    (keys (assign o k v)).Nodup := by
  rw [keys_assign]
  split
  · exact h
  next hk => exact List.nodup_append.mpr ⟨h, by simp, by rintro a ha b hb rfl; simp_all⟩

/-- `state.data[fieldName] = value`. -/
def setData (fieldName : String) (value : Value) (c : Contract) : Contract :=
  { c with state := { c.state with
      data := assign c.state.data fieldName value, dataKeys := nodup_assign c.state.dataKeys _ _ } }

/-- `state.getBranchRevision()`; anything but a text has no `split`. -/
def getBranchRevision (s : State) : Option Number :=
  match s.branchId with
  | .null => some (.fin 0)
  | .str branchId => some (QuorumVote.parseInt (branchId.toList.takeWhile (· ≠ ':')))
  | _ => none

/-- `state.setBranchNumber(number)`. -/
def setBranchNumber (number : ℕ) (c : Contract) : Contract :=
  { c with state := { c.state with branchId := .str (c.state.revision.text ++ ":" ++ toString number) } }

/-- `copy()`: what is not serialized is not copied; the id comes with the seal. -/
def copy (c : Contract) : Contract :=
  { c with effectiveKeys := [], revokingItems := [] }

/-- `createRevision(keys)` for these creators. -/
def createRevision (now : ℤ) (creators : Option SimpleRole) (c : Contract) : Contract :=
  let newRevision := copy c
  let newRevision := { newRevision with
    state := { newRevision.state with
      revision := c.state.revision.succ
      createdAt := some now
      parent := some c.id
      origin := if c.state.revision.eq (.fin 1) then some c.id else c.state.origin }
    revokingItems := [c]
    transactional := none }
  match creators with
  | none => newRevision
  | some keys => registerCreator (simpleRole fits "creator" keys) newRevision

/-- `revokingItems.add(item)`. -/
def addRevoking (c item : Contract) : Contract :=
  if c.revokingItems.any (·.id = item.id) then c
  else { c with revokingItems := c.revokingItems ++ [item] }

/-- `split(count)`: the contract as branch 0 and the copies it gets as new items; the errors are of a
    revision that is split already and of a count below one. -/
def split (count : ℕ) (c : Contract) : Option (Contract × List Contract) := do
  if (← getBranchRevision c.state).eq c.state.revision then none
  else if count < 1 then none
  else
    let c := setBranchNumber 0 c
    return (c, (List.range count).map fun i => setBranchNumber (i + 1) (copy c))

/-- `splitValue(fieldName, valueToExtract)`: the contract and its new sibling. -/
def splitValue (fieldName : String) (valueToExtract : ℚ) (c : Contract) : Option (Contract × Contract) := do
  let (c, siblings) ← split 1 c
  let sibling ← siblings.head?
  match c.state.data.lookup fieldName with
  | some (.str text) =>
      let value ← bigText text
      return (setData fieldName (.str (toFixed (value - valueToExtract))) c,
        setData fieldName (.str (toFixed valueToExtract)) sibling)
  | _ => none

/-! ### Operations -/

section Operations
variable (idOf : Contract → HashId) (now : ℤ) (fieldName : String)

/-- `seal()`: the contract gets the id of its sealed binary. -/
def sealContract (c : Contract) : Contract := { c with id := idOf c }

/-- `createSplit(c, amount, fieldName, keys, andSetCreator)`: the root and its new items. -/
def createSplit (c : Contract) (amount : ℚ) (andSetCreator : Bool) : Option (Contract × List Contract) := do
  let (splitFrom, splitTo) ← splitValue fieldName amount (createRevision fits now none c)
  let created (c : Contract) : Contract :=
    if andSetCreator then registerCreator (roleLink "creator" "owner" c.roles.owner) c else c
  return (sealContract idOf (created splitFrom), [sealContract idOf (created splitTo)])

/-- `createJoin(contract1, contract2, fieldName, keys)`. -/
def createJoin (contract1 contract2 : Contract) : Option (Contract × List Contract) := do
  let joinTo := createRevision fits now none contract1
  let sum := (← amount fieldName contract1) + (← amount fieldName contract2)
  let joinTo := setData fieldName (.str (toFixed sum)) joinTo
  return (sealContract idOf (addRevoking joinTo contract2), [])

/-- `createSplitJoin(contractsToJoin, amountsToSplit, addressesToSplit, ownerKeys, fieldName)` for as many
    amounts as addresses: the amounts with the addresses of their new owners. -/
def createSplitJoin (contractsToJoin : List Contract) (partsToSplit : List (ℚ × Packed))
    (ownerKeys : Option SimpleRole) : Option (Contract × List Contract) :=
  match contractsToJoin with
  | [] => none -- no contract to split or to write the sum in
  | first :: others => do
      let contract := others.foldl addRevoking (createRevision fits now ownerKeys first)
      let amounts ← (first :: others).mapM (amount fieldName)
      let (contract, parts) ←
        if partsToSplit.isEmpty then some (contract, []) else split partsToSplit.length contract
      let parts := List.zipWith (fun part p =>
        sealContract idOf (setData fieldName (.str (toFixed p.1))
          (registerOwner (simpleRole fits "owner" ⟨[], [p.2]⟩) part))) parts partsToSplit
      let sum := amounts.sum - (partsToSplit.map Prod.fst).sum
      return (sealContract idOf (setData fieldName (.str (toFixed sum)) contract), parts)

end Operations

/-! ### The transaction as it is checked -/

/-- The packed transaction of a root, read again: the signatures of the root are in force for its new
    items, and a contract was written or not when its `params` are compared, the parent always. -/
def loaded (keys : KeySet) (written : Contract → Bool) (root : Contract) (newItems : List Contract) :
    Item :=
  .mk { loadedContract (written root) root with
      effectiveKeys := keys
      revokingItems := root.revokingItems.map fun c =>
        loadedContract (written c || decide (some c.id = root.state.parent)) c }
    (newItems.map fun c => .mk { loadedContract (written c) c with effectiveKeys := keys } [])

/-- The check of all contracts of a transaction against their parents, each in its context. -/
def checkPermissions (root : Item) : Option (List ErrorRecord) :=
  Item.check (fun _ => some []) root.updateContext root

/-- The token operations with their arguments. -/
inductive Operation where
  | split (c : Contract) (amount : ℚ) (andSetCreator : Bool)
  | join (contract1 contract2 : Contract)
  | splitJoin (contractsToJoin : List Contract) (partsToSplit : List (ℚ × Packed))
      (ownerKeys : Option SimpleRole)

namespace Operation

/-- The contract made, with its new items. -/
def run (idOf : Contract → HashId) (now : ℤ) : Operation → Option (Contract × List Contract)
  | split c amount andSetCreator => createSplit fits idOf now "amount" c amount andSetCreator
  | join contract1 contract2 => createJoin fits idOf now "amount" contract1 contract2
  | splitJoin contractsToJoin partsToSplit ownerKeys =>
      createSplitJoin fits idOf now "amount" contractsToJoin partsToSplit ownerKeys

/-- The contracts that go in. -/
def inputs : Operation → List Contract
  | split c _ _ => [c]
  | join contract1 contract2 => [contract1, contract2]
  | splitJoin contractsToJoin _ _ => contractsToJoin

/-- The amounts split off. -/
def parts : Operation → List ℚ
  | split _ amount _ => [amount]
  | join _ _ => []
  | splitJoin _ partsToSplit _ => partsToSplit.map Prod.fst

end Operation
end Universa.Contracts.Tokens
