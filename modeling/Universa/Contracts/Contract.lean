import Universa.Js.Value

/-! The contract as its checks read it: definition, state and roles, the permissions a definition
    holds, and the tree `BossBiMapper` serializes a contract to (`contract.js`, `permissions.js`).

    A role enters by its serialized tree and its answer for a set of keys; a constraint by its
    serialized tree. Data of states and definitions is the plain tree the mapper makes of it. -/

namespace Universa.Contracts
open Universa.Js

/-! ### Parts of a contract -/

/-- The id of an item: the digest of its sealed binary. -/
structure HashId where
  digest : List UInt8
  deriving DecidableEq

/-- `hashidAdapter.serialize`. -/
def HashId.serialize (h : HashId) : Value :=
  .obj [("composite3", .bytes h.digest), ("__type", .str "HashId")]

/-- Keys by their fingerprints. -/
abbrev KeySet := List String

/-- A role: its serialized tree, whether it is valid, and which keys may play it. -/
structure Role where
  tree : Value
  isValid : Bool
  isAllowedForKeys : KeySet → Bool

/-- `params` or a default where the key is absent. -/
def paramOr (params : List (String × Value)) (k : String) (default : Value) : Value :=
  (params.lookup k).getD default

/-- Own fields of `ChangeNumberPermission`. -/
structure ChangeNumberPermission where
  fieldName : String
  minValue : Value
  maxValue : Value
  minStep : Value
  maxStep : Value

/-- `ChangeNumberPermission.initFromParams`: the defaults are texts. -/
def ChangeNumberPermission.initFromParams (fieldName : String) (params : List (String × Value)) :
    ChangeNumberPermission where
  fieldName := fieldName
  minValue := paramOr params "min_value" (.str "0")
  maxValue := paramOr params "max_value" (.str "2147483647")
  minStep := paramOr params "min_step" (.str "-2147483648")
  maxStep := paramOr params "max_step" (.str "2147483647")

/-- Own fields of `SplitJoinPermission`. -/
structure SplitJoinPermission where
  fieldName : String
  minValue : Value
  minUnit : Value
  mergeFields : List String

/-- `SplitJoinPermission.initFromParams`, without a list of match fields in `params`. -/
def SplitJoinPermission.initFromParams (fieldName : String) (params : List (String × Value)) :
    SplitJoinPermission where
  fieldName := fieldName
  minValue := paramOr params "min_value" (.str "0")
  minUnit := paramOr params "min_unit" (.str "1e-9")
  mergeFields := ["state.origin"]

/-- The classes of permissions with their own fields. -/
inductive Rule where
  | revoke
  | changeOwner
  | changeRole (roleName : String)
  | modifyData (fields : Option (List (String × Value)))
  | changeNumber (p : ChangeNumberPermission)
  | splitJoin (p : SplitJoinPermission)

/-- The tag of a permission's class in the mapper. -/
def Rule.tag : Rule → String
  | .revoke => "RevokePermission"
  | .changeOwner => "ChangeOwnerPermission"
  | .changeRole _ => "ChangeRolePermission"
  | .modifyData _ => "ModifyDataPermission"
  | .changeNumber _ => "ChangeNumberPermission"
  | .splitJoin _ => "SplitJoinPermission"

/-- A permission; `params` as it stands when the contracts are compared. -/
structure Permission where
  id : String
  name : String
  role : Role
  params : List (String × Value)
  rule : Rule

/-- `permission.isAllowedForKeys`. -/
def Permission.isAllowedForKeys (p : Permission) (keys : KeySet) : Bool :=
  p.role.isAllowedForKeys keys

/-- The definition section. -/
structure Definition where
  createdAt : Option ℤ
  expiresAt : Option ℤ
  data : List (String × Value)
  references : List Value
  extendedType : Value
  permissions : List (String × List Permission)

/-- The state section; its data is an object, so no key is there twice. -/
structure State where
  revision : Number
  createdAt : Option ℤ
  expiresAt : Option ℤ
  origin : Option HashId
  parent : Option HashId
  data : List (String × Value)
  dataKeys : (keys data).Nodup
  branchId : Value
  references : List Value
  roles : List (String × Role)

/-- `contract.roles`. -/
structure Roles where
  issuer : Role
  owner : Role
  creator : Role

/-- A contract with the contracts it revokes; `otherFields` are the answers of `get` that the model
    does not compute. -/
structure Contract where
  id : HashId
  apiLevel : Number
  roles : Roles
  definition : Definition
  state : State
  transactional : Option Value
  effectiveKeys : KeySet
  otherFields : String → Option Value
  revokingItems : List Contract

/-- `Context`: the contract revoked as parent, and the contracts that share it. -/
structure Context where
  base : Option Contract
  siblings : List Contract

/-! ### Serialization -/

/-- `o[k] = v`. -/
def assign (o : List (String × Value)) (k : String) (v : Value) : List (String × Value) :=
  if k ∈ keys o then o.map fun e => if e.1 = k then (k, v) else e else o ++ [(k, v)]

/-- `params` after `serialize`: the classes with bounds rebuild it from their fields. -/
def Permission.serializedParams (p : Permission) : List (String × Value) :=
  match p.rule with
  | .changeNumber c =>
      [("field_name", .str c.fieldName), ("max_step", c.maxStep), ("min_step", c.minStep),
        ("max_value", c.maxValue), ("min_value", c.minValue)]
  | .splitJoin s =>
      [("field_name", .str s.fieldName), ("min_unit", s.minUnit), ("min_value", s.minValue),
        ("join_match_fields", .arr (s.mergeFields.map .str))]
  | _ => p.params

/-- The serialized permission. -/
def Permission.serialize (p : Permission) : Value :=
  let result := p.serializedParams.foldl (fun o e => assign o e.1 e.2)
    [("name", .str p.name), ("role", p.role.tree)]
  let result := match p.rule with
    | .modifyData fields => assign result "fields" ((fields.map .obj).getD .null)
    | _ => result
  .obj (assign result "__type" (.str p.rule.tag))

/-- An optional date. -/
def dateValue : Option ℤ → Value
  | none => .null
  | some time => .date time

/-- An optional id. -/
def idValue : Option HashId → Value
  | none => .null
  | some id => id.serialize

/-- The permissions one by one, in the order of the maps. -/
def Definition.allPermissions (d : Definition) : List Permission :=
  d.permissions.flatMap Prod.snd

/-- `Definition.serialize`; two permissions of one id throw. -/
def Contract.serializeDefinition (c : Contract) : Option Value :=
  let d := c.definition
  let pb := d.allPermissions.map fun p => (p.id, p.serialize)
  if ¬ (keys pb).Nodup then none else
  some (.obj (
    [("issuer", c.roles.issuer.tree), ("created_at", dateValue d.createdAt), ("data", .obj d.data),
      ("permissions", .obj pb)] ++
    (match d.expiresAt with | some time => [("expires_at", .date time)] | none => []) ++
    [("references", .arr d.references)] ++
    (match d.extendedType with | .null => [] | v => [("extended_type", v)])))

/-- `State.serialize`. -/
def Contract.serializeState (c : Contract) : List (String × Value) :=
  let s := c.state
  [("created_at", dateValue s.createdAt), ("revision", .num s.revision),
    ("owner", c.roles.owner.tree), ("created_by", c.roles.creator.tree),
    ("branch_id", s.branchId), ("origin", idValue s.origin), ("parent", idValue s.parent),
    ("data", .obj s.data), ("roles", .obj (s.roles.map fun r => (r.1, r.2.tree)))] ++
  (match s.expiresAt with | some time => [("expires_at", .date time)] | none => []) ++
  [("references", .arr s.references)]

/-- `Contract.serialize` with the tag the mapper adds. -/
def Contract.serialize (c : Contract) : Option (List (String × Value)) := do
  let definition ← c.serializeDefinition
  return [("api_level", .num c.apiLevel), ("definition", definition),
      ("state", .obj c.serializeState)] ++
    (match c.transactional with | some t => [("transactional", t)] | none => []) ++
    [("__type", .str "UniversaContract")]

/-! ### Reading a contract -/

/-- `getOrigin`: a contract without an origin is its own. -/
def Contract.getOrigin (c : Contract) : HashId := c.state.origin.getD c.id

/-- A data field, null where absent. -/
def dataField (data : List (String × Value)) (k : String) : Option Value := do
  if ← hasOwn data k then return (data.lookup k).getD .null else return .null

/-- `get(name)`: the value of a field in dotted notation. -/
def Contract.get (c : Contract) (name : String) : Option Value :=
  if name = "state.origin" ∨ name = "definition.origin" ∨ name = "origin" then
    some c.getOrigin.serialize
  else if name = "id" then some c.id.serialize
  else if name = "state.parent" then some (idValue c.state.parent)
  else if name = "state.revision" then some (.num c.state.revision)
  else if name = "state.branchId" then some c.state.branchId
  else if name = "state.created_at" then some (dateValue c.state.createdAt)
  else if name = "state.expires_at" then some (dateValue c.state.expiresAt)
  else if name = "definition.created_at" then some (dateValue c.definition.createdAt)
  else if name = "definition.expires_at" then some (dateValue c.definition.expiresAt)
  else if name = "definition.extended_type" then some c.definition.extendedType
  else if "state.data.".toList.isPrefixOf name.toList then
    dataField c.state.data (String.ofList (name.toList.drop 11))
  else if "definition.data.".toList.isPrefixOf name.toList then
    dataField c.definition.data (String.ofList (name.toList.drop 16))
  else c.otherFields name

/-- `getRevokingItem(id)`. -/
def Contract.getRevokingItem (c : Contract) (id : Option HashId) : Option Contract :=
  c.revokingItems.find? fun ri => decide (some ri.id = id)

end Universa.Contracts
