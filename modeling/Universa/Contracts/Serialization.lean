import Universa.Contracts.RoleSerialization

/-! Constraints and permissions as data (`constraint.js`, `permissions.js`), and what of roles, permissions and
    constraints survives being written and read back.

    A permission is an object that `deserialize` gives whatever fields the data has, with `for … in` over
    them: the loop also meets the methods that `tools.js` adds to `Object.prototype`, and makes them fields
    of the permission. So a permission is its class with its own properties. -/

namespace Universa.Contracts.Serial
open Universa.Js

section
variable {K A H : Type} (codecs : Codecs K A H)

/-! ### Constraints -/

/-- `Constraint.TYPE_…`. -/
inductive ConstraintType where
  | TYPE_TRANSACTIONAL
  | TYPE_EXISTING_DEFINITION
  | TYPE_EXISTING_STATE
  deriving DecidableEq

/-- The number of a type. -/
def ConstraintType.number : ConstraintType → Number
  | .TYPE_TRANSACTIONAL => .fin 1
  | .TYPE_EXISTING_DEFINITION => .fin 2
  | .TYPE_EXISTING_STATE => .fin 3

/-- A constraint, without its contract and the contracts that match it. -/
structure Constraint (K A H : Type) where
  name : Option String
  type : Option ConstraintType
  transactional_id : Option String
  contract_id : Option H
  required : Bool
  origin : Option H
  signed_by : List (Role K A)
  fields : List String
  roles : List String
  conditions : Value
  comment : Option String

/-- An entry that is left out for null. -/
def unlessNull {X : Type} (k : String) (write : X → Value) : Option X → List (String × Value)
  | some x => [(k, write x)]
  | none => []

/-- The entries of `Constraint.serialize` with the conditions as data. -/
def constraintEntries (c : Constraint K A H) (conditions : Value) : List (String × Value) :=
  [("name", orNull .str c.name), ("type", orNull (fun t => .num t.number) c.type),
    ("transactional_id", orNull .str c.transactional_id), ("required", .bool c.required),
    ("signed_by", .arr (serializeAll codecs c.signed_by)), ("roles", strings c.roles),
    ("fields", strings c.fields), ("where", conditions)] ++
  (unlessNull "contract_id" (hashIdData codecs) c.contract_id ++
    (unlessNull "origin" (hashIdData codecs) c.origin ++ unlessNull "comment" .str c.comment))

/-- `serializer.serialize(constraint)`; the adapter of `Reference` is the last one registered for the class. -/
def Constraint.serialize (c : Constraint K A H) : Option Value :=
  (writeData c.conditions).map fun conditions => tagged "Reference" (constraintEntries codecs c conditions)

/-- The type of a number. -/
def readType : Value → Option ConstraintType
  | .num n =>
      if n = .fin 1 then some .TYPE_TRANSACTIONAL
      else if n = .fin 2 then some .TYPE_EXISTING_DEFINITION
      else if n = .fin 3 then some .TYPE_EXISTING_STATE
      else none
  | _ => none

/-- A list, empty where it is absent or null. -/
def readOrEmpty {X : Type} (read : Value → Option (List X)) : Option Value → Option (List X)
  | none | some .null => some []
  | some v => read v

/-- `data.transactional_id`, or the empty text where it is absent. -/
def readTransactionalId : Option Value → Option (Option String)
  | none => some (some "")
  | v => readOrNull readString v

/-- `data.where`, or no conditions. -/
def readWhere : Option Value → Option Value
  | none | some .null => some (.obj [])
  | some v => readData v

variable [DecidableEq K] [DecidableEq A]

/-- The array of roles that signed. -/
def readRoles : Value → Option (List (Role K A))
  | .arr xs => deserializeAll codecs xs
  | _ => none

/-- `Constraint.deserialize` on a new constraint, which is required; `data.required` is not read. -/
def Constraint.ofEntries (es : List (String × Value)) : Option (Constraint K A H) := do
  let name ← readOrNull readString (es.lookup "name")
  let type ← readOrNull readType (es.lookup "type")
  let comment ← readOrNull readString (es.lookup "comment")
  let transactional_id ← readTransactionalId (es.lookup "transactional_id")
  let contract_id ← readOrNull (readHashId codecs) (es.lookup "contract_id")
  let origin ← readOrNull (readHashId codecs) (es.lookup "origin")
  let signed_by ← readOrEmpty (readRoles codecs) (es.lookup "signed_by")
  let roles ← readOrEmpty (readList readString) (es.lookup "roles")
  let fields ← readOrEmpty (readList readString) (es.lookup "fields")
  let conditions ← readWhere (es.lookup "where")
  return { name, type, comment, transactional_id, contract_id, origin, signed_by, roles, fields, conditions
           required := true }

/-- `deserializer.deserialize(data)` where a constraint is expected. -/
def Constraint.deserialize (v : Value) : Option (Constraint K A H) :=
  match ofClass "Reference" v, ofClass "Constraint" v with
  | some es, _ | none, some es => Constraint.ofEntries codecs es
  | none, none => none

/-- `valuesEqual` of two arrays of roles. -/
def rolesEqual : List (Role K A) → List (Role K A) → Bool
  | [], [] => true
  | r :: rs, r' :: rs' => equals r r' && rolesEqual rs rs'
  | _, _ => false

variable [DecidableEq H]

/-- `constraint.equals(to)`. -/
def Constraint.equals (c c' : Constraint K A H) : Option Bool :=
  if c.type = c'.type ∧ c.name = c'.name ∧ c.comment = c'.comment ∧ c.transactional_id = c'.transactional_id ∧
      c.required = c'.required ∧ rolesEqual c.signed_by c'.signed_by = true ∧ c.roles = c'.roles ∧
      c.fields = c'.fields then
    match valuesEqual c.conditions c'.conditions with
    | some true => some (decide (c.contract_id = c'.contract_id) && decide (c.origin = c'.origin))
    | answer => answer
  else some false

end

/-! ### A constraint written and read back -/

section
variable {K A H : Type} (codecs : Codecs K A H)

theorem readType_number (t : ConstraintType) : readType (.num t.number) = some t := by
  cases t <;> simp [readType, ConstraintType.number]

/-- The keys of a constraint's data in front of those that may be left out. -/
theorem lookup_unlessNull {X : Type} {k k' : String} {write : X → Value} {x : Option X}
    (es : List (String × Value)) :
    (unlessNull k write x ++ es).lookup k' =
      if k' = k then (x.map write).or (es.lookup k') else es.lookup k' := by
  cases x with
  | none => simp [unlessNull]
  | some x =>
    by_cases h : k' = k
    · simp [unlessNull, h]
    · simp [unlessNull, List.lookup_cons, h, beq_false_of_ne h]

/-- A constraint as it comes back, with its conditions. -/
def Constraint.restored (c : Constraint K A H) (conditions : Value) : Option (Constraint K A H) :=
  (rereadAll c.signed_by).map fun signed_by => { c with required := true, signed_by, conditions }

variable [DecidableEq K] [DecidableEq A]

theorem ofEntries_entries (c : Constraint K A H) (conditions : Value) :
    Constraint.ofEntries codecs (constraintEntries codecs c conditions ++ [("__type", .str "Reference")]) =
      (readWhere (some conditions)).bind c.restored := by
  obtain ⟨name, type, transactional_id, contract_id, required, origin, signed_by, fields, roles, old,
    comment⟩ := c
  have htype :=
    @readOrNull_orNull _ readType (fun t => .num (ConstraintType.number t)) readType_number fun _ => by simp
  have hroles : readOrEmpty (readRoles codecs) (some (.arr (serializeAll codecs signed_by))) =
      rereadAll signed_by :=
    deserializeAll_serializeAll codecs signed_by
  have hstrings : ∀ l, readOrEmpty (readList readString) (some (strings l)) = some l := readList_strings
  have hid : ∀ id : Option H, readOrNull (readHashId codecs) (id.map (hashIdData codecs)) = some id := by
    rintro (- | id)
    · rfl
    · exact congrArg (Option.map some) (readHashId_data codecs id)
  have hcomment : readOrNull readString (comment.map Value.str) = some comment := by
    cases comment <;> rfl
  simp only [Constraint.ofEntries, constraintEntries, List.append_assoc, List.cons_append, List.nil_append]
  simp [List.lookup_cons, lookup_unlessNull, readOrNull_text, htype, hroles, hstrings, hid, hcomment,
    readTransactionalId]
  cases hback : rereadAll signed_by <;> cases readWhere (some conditions) <;>
    simp [Constraint.restored, hback]

/-- A constraint that is written and read back is required and has its roles without their comments. -/
theorem deserialize_constraint (c : Constraint K A H) :
    (c.serialize codecs).bind (Constraint.deserialize codecs) =
      ((writeData c.conditions).bind fun w => readWhere (some w)).bind c.restored := by
  cases hw : writeData c.conditions with
  | none => simp [Constraint.serialize, hw]
  | some w =>
    have hnew : ∀ k ∈ ["__t", "__type", "hasOwnProperty"], (constraintEntries codecs c w).lookup k = none := by
      intro k hk
      simp only [List.mem_cons, List.not_mem_nil, or_false] at hk
      rcases hk with rfl | rfl | rfl
      all_goals
        simp [constraintEntries, List.lookup_cons, lookup_unlessNull]
        cases c.comment <;> simp [unlessNull]
    have htag := @typeTag_tagged _ "Reference" (by decide) (hnew "__t" (by simp)) (hnew "__type" (by simp))
    have hown : "hasOwnProperty" ∉ keys (constraintEntries codecs c w ++ [("__type", .str "Reference")]) := by
      intro hmem
      obtain ⟨v, hv⟩ := mem_keys_iff.mp hmem
      rw [List.lookup_append, hnew _ (by simp)] at hv
      cases hv
    have hclass : ofClass "Reference" (tagged "Reference" (constraintEntries codecs c w)) =
        some (constraintEntries codecs c w ++ [("__type", .str "Reference")]) := by
      simp only [ofClass, tagged, hown, htag, ne_eq, not_true, or_self, if_false]
    simp only [Constraint.serialize, hw, Option.map_some, Option.bind_some, Constraint.deserialize, hclass]
    exact ofEntries_entries codecs c w

/-- Conditions that come back as they are. -/
theorem readWhere_iff (v : Value) :
    ((writeData v).bind fun w => readWhere (some w)) = some v ↔ v ≠ .null ∧ NoProto v ∧ Untagged v := by
  by_cases hnull : v = .null
  · subst hnull
    simp [writeData, readWhere]
  have hw : ∀ w, writeData v = some w → readWhere (some w) = readData w := by
    intro w hw
    cases v <;> simp_all [writeData, readWhere]
    all_goals
      obtain ⟨x, -, rfl⟩ := hw
      rfl
  rw [← read_write_iff]
  cases hv : writeData v with
  | none => simp
  | some w => simp [hw w hv, hnull]

theorem rolesEqual_self_iff (rs : List (Role K A)) : rolesEqual rs rs = true ↔ NoNaNAll rs := by
  induction rs with
  | nil => simp [rolesEqual, NoNaNAll]
  | cons r rs ih =>
      have hr : equals r r = true ↔ NoNaN r := ⟨noNaN_of_equals r r, equals_self r⟩
      rw [rolesEqual, Bool.and_eq_true, hr, ih, NoNaNAll]

variable [DecidableEq H]

theorem constraint_equals_self {c : Constraint K A H} (hd : Distinct c.conditions) :
    c.equals c = some true ↔ NoNaNAll c.signed_by ∧ SelfEqual c.conditions := by
  rw [← rolesEqual_self_iff, ← equal_copy_iff c.conditions hd, Constraint.equals]
  cases hr : rolesEqual c.signed_by c.signed_by with
  | false => simp
  | true =>
    cases hv : valuesEqual c.conditions c.conditions with
    | none => simp
    | some b => cases b <;> simp

omit [DecidableEq K] [DecidableEq A] [DecidableEq H] in
theorem restored_iff {c : Constraint K A H} {conditions : Value} :
    c.restored conditions = some c ↔
      c.required = true ∧ BareAll c.signed_by ∧ conditions = c.conditions := by
  rw [← rereadAll_iff]
  obtain ⟨name, type, transactional_id, contract_id, required, origin, signed_by, fields, roles, old,
    comment⟩ := c
  simp only [Constraint.restored, Option.map_eq_some_iff, Constraint.mk.injEq, true_and, and_true,
    eq_comm (a := true)]
  constructor
  · rintro ⟨signed_by', hback, hreq, rfl, hconditions⟩
    exact ⟨hreq, hback, hconditions⟩
  · rintro ⟨hreq, hback, hconditions⟩
    exact ⟨signed_by, hback, hreq, rfl, hconditions⟩

end

/-! ### Permissions -/

section
variable {K A H : Type} (codecs : Codecs K A H)

/-- The six classes of permissions. -/
inductive PermissionKind where
  | ChangeNumberPermission
  | ChangeOwnerPermission
  | ModifyDataPermission
  | RevokePermission
  | SplitJoinPermission
  | ChangeRolePermission
  deriving DecidableEq

/-- The tag of a class. -/
def PermissionKind.tag : PermissionKind → String
  | .ChangeNumberPermission => "ChangeNumberPermission"
  | .ChangeOwnerPermission => "ChangeOwnerPermission"
  | .ModifyDataPermission => "ModifyDataPermission"
  | .RevokePermission => "RevokePermission"
  | .SplitJoinPermission => "SplitJoinPermission"
  | .ChangeRolePermission => "ChangeRolePermission"

/-- What `initFromParams` sets: a field, the parameter it is taken from, and a default where it has one. -/
def PermissionKind.fromParams : PermissionKind → List (String × String × Option Value)
  | .ChangeNumberPermission =>
      [("fieldName", "field_name", none), ("minValue", "min_value", some (.str "0")),
        ("maxValue", "max_value", some (.str "2147483647")), ("minStep", "min_step", some (.str "-2147483648")),
        ("maxStep", "max_step", some (.str "2147483647"))]
  | .SplitJoinPermission =>
      [("fieldName", "field_name", none), ("minValue", "min_value", some (.str "0")),
        ("minUnit", "min_unit", some (.str "1e-9")),
        ("mergeFields", "join_match_fields", some (.arr [.str "state.origin"]))]
  | .ChangeRolePermission => [("roleName", "role_name", none)]
  | .ModifyDataPermission => [("fields", "fields", none)]
  | .ChangeOwnerPermission | .RevokePermission => []

/-- The parameters that `serialize` writes anew, with the fields they are taken from. -/
def PermissionKind.writtenParams : PermissionKind → Option (List (String × String))
  | .ChangeNumberPermission =>
      some [("field_name", "fieldName"), ("max_step", "maxStep"), ("min_step", "minStep"),
        ("max_value", "maxValue"), ("min_value", "minValue")]
  | .SplitJoinPermission =>
      some [("field_name", "fieldName"), ("min_unit", "minUnit"), ("min_value", "minValue"),
        ("join_match_fields", "mergeFields")]
  | _ => none

/-- A property of a permission: data, a role, or a method of `Object.prototype`. -/
inductive Slot (K A : Type) where
  | data (v : Value)
  | role (r : Role K A)
  | inherited (name : String)

/-- A permission: its class and its own properties. -/
structure Permission (K A : Type) where
  kind : PermissionKind
  own : List (String × Slot K A)

namespace Permission

/-- `object[key] = value` on an object with these properties. -/
def assign {X : Type} (own : List (String × X)) (k : String) (x : X) : List (String × X) :=
  Keyed.inserted Prod.fst own (k, x)

/-- A property as data; one that is not there is undefined. -/
def dataOf (own : List (String × Slot K A)) (k : String) : Option Value :=
  match own.lookup k with
  | some (.data v) => some v
  | none => some .null
  | _ => none

/-- `initFromParams()`. -/
def initFromParams (kind : PermissionKind) (own : List (String × Slot K A)) :
    Option (List (String × Slot K A)) :=
  match kind.fromParams, own.lookup "params" with
  | [], _ => some own
  | fields, some (.data (.obj params)) =>
      if "hasOwnProperty" ∈ keys params then none
      else some (fields.foldl (fun own field =>
        assign own field.1 (.data ((params.lookup field.2.1).getD (field.2.2.getD .null)))) own)
  | _, _ => none

/-- The properties of `result`, each assigned in turn; `__proto__` is no property. -/
def assignAll (result : List (String × Value)) : List (String × Value) → Option (List (String × Value))
  | [] => some result
  | (k, v) :: es => do
      let added ← assigned k v []
      assignAll (added.foldl (fun result e => assign result e.1 e.2) result) es

/-- `serializer.serialize(this.role)`. -/
def writeRole (own : List (String × Slot K A)) : Option Value :=
  match own.lookup "role" with
  | some (.role r) => some (serialize codecs r)
  | _ => (dataOf own "role").bind writeData

/-- `this.params` as `serialize` of the class leaves it. -/
def writtenParams (p : Permission K A) : Option (List (String × Value)) :=
  match p.kind.writtenParams with
  | some fields => fields.mapM fun field => (dataOf p.own field.2).map (field.1, ·)
  | none => match p.own.lookup "params" with
    | some (.data (.obj params)) => some params
    | none | some (.data .null) => some []
    | _ => none

/-- `serializer.serialize(permission)`. -/
def serialize (p : Permission K A) : Option Value := do
  let name ← dataOf p.own "name"
  let role ← writeRole codecs p.own
  let entries ← assignAll [("name", name), ("role", role)] (← p.writtenParams)
  let entries ← if p.kind = .ModifyDataPermission then
      (dataOf p.own "fields").bind fun fields => (writeData fields).map (assign entries "fields")
    else some entries
  return .obj (assign entries "__type" (.str p.kind.tag))

variable [DecidableEq K] [DecidableEq A]

/-- `deserializer.deserialize(data.role)`. -/
def readRole (v : Value) : Option (Slot K A) :=
  match deserialize codecs v with
  | some r => some (.role r)
  | none => (readData v).map .data

/-- What `for (let key in data)` meets after the own keys: what `tools.js` adds to `Object.prototype`. -/
def enumerable : List String := ["equals", "stringId"]

/-- `this[key] = data[key]` for the own keys of the data and those it inherits. -/
def takeOver (es : List (String × Value)) (own : List (String × Slot K A)) : List (String × Slot K A) :=
  let taken := (es.filter fun e => e.1 ≠ "name" ∧ e.1 ≠ "role").foldl
    (fun own e => assign own e.1 (.data e.2)) own
  (enumerable.filter fun k => k ∉ keys es).foldl (fun own k => assign own k (.inherited k)) taken

/-- `deserializer.deserialize(data)` where a permission of this class is expected. -/
def deserialize (kind : PermissionKind) (v : Value) : Option (Permission K A) := do
  let es ← ofClass kind.tag v
  let role ← readRole codecs ((es.lookup "role").getD .null)
  let own := takeOver es
    [("name", .data ((es.lookup "name").getD .null)), ("role", role), ("params", .data (.obj es))]
  return ⟨kind, ← initFromParams kind own⟩

/-- `valuesEqual` of two properties. -/
def slotEqual : Option (Slot K A) → Option (Slot K A) → Option Bool
  | none, none => some true
  | some (.data v), some (.data w) => valuesEqual v w
  | some (.role r), some (.role r') => some (equals r r')
  | some (.inherited k), some (.inherited k') => some (decide (k = k'))
  | _, _ => some false

/-- `permission.equals(to)` for two objects. An own `equals` is called instead of the method of the class: that
    of `Object.prototype` throws for two permissions of one class, and data is no function. -/
def equals (p p' : Permission K A) : Option Bool :=
  match p.own.lookup "equals" with
  | some (.inherited _) => if p.kind ≠ p'.kind then some false else none
  | some _ => none
  | none =>
      if p.kind ≠ p'.kind then some false
      else
        ["name", "role", "params"].foldlM (fun same k =>
          if same then slotEqual (p.own.lookup k) (p'.own.lookup k) else some false) true

/-! ### A permission read back -/

omit [DecidableEq K] [DecidableEq A] in
theorem mem_keys_assign {X : Type} {own : List (String × X)} {k k' : String} {x : X} :
    k' ∈ keys (assign own k x) ↔ k' ∈ keys own ∨ k' = k := by
  unfold assign Keyed.inserted keys
  split
  · next hk =>
    have hmap : (own.map fun b => if b.1 = k then (k, x) else b).map Prod.fst = own.map Prod.fst := by
      rw [List.map_map]
      refine List.map_congr_left fun b _ => ?_
      by_cases hb : b.1 = k <;> simp [hb]
    rw [hmap]
    exact ⟨.inl, fun h => h.elim id fun hk' => hk' ▸ hk⟩
  · simp

omit [DecidableEq K] [DecidableEq A] in
theorem mem_keys_foldl {X Y : Type} (key : Y → String) (value : Y → X) (k : String) :
    ∀ (l : List Y) (own : List (String × X)),
      k ∈ keys (l.foldl (fun own y => assign own (key y) (value y)) own) ↔ k ∈ keys own ∨ k ∈ l.map key
  | [], own => by simp
  | y :: l, own => by
    rw [List.foldl_cons, mem_keys_foldl key value k l, mem_keys_assign, List.map_cons, List.mem_cons, or_assoc]

omit [DecidableEq K] [DecidableEq A] in
/-- Whatever the data, the permission gets an own `equals`. -/
theorem equals_mem_takeOver (es : List (String × Value)) (own : List (String × Slot K A)) :
    "equals" ∈ keys (takeOver es own) := by
  rw [takeOver, mem_keys_foldl (fun k => k) Slot.inherited]
  by_cases h : "equals" ∈ keys es
  · obtain ⟨e, he, hk⟩ := List.mem_map.mp h
    refine .inl ((mem_keys_foldl Prod.fst (fun e => Slot.data e.2) _ _ _).mpr (.inr ?_))
    exact List.mem_map.mpr ⟨e, by simp [he, hk], hk⟩
  · exact .inr (by simp [enumerable, h])

omit [DecidableEq K] [DecidableEq A] in
theorem initFromParams_keys {kind : PermissionKind} {own own' : List (String × Slot K A)} {k : String}
    (h : initFromParams kind own = some own') (hk : k ∈ keys own) : k ∈ keys own' := by
  unfold initFromParams at h
  split at h
  · cases h
    exact hk
  · split at h
    · cases h
    · cases h
      exact (mem_keys_foldl _ _ k _ own).mpr (.inl hk)
  · cases h

/-- No permission that was read back is found equal to another of its class. -/
theorem equals_read {kind : PermissionKind} {v : Value} {p p' : Permission K A}
    (h : deserialize codecs kind v = some p) : p.equals p' ≠ some true := by
  obtain ⟨es, -, h⟩ := Option.bind_eq_some_iff.mp h
  obtain ⟨role, -, h⟩ := Option.bind_eq_some_iff.mp h
  obtain ⟨own, hown, h⟩ := Option.bind_eq_some_iff.mp h
  cases h
  obtain ⟨slot, hslot⟩ := mem_keys_iff.mp (initFromParams_keys hown (equals_mem_takeOver es _))
  cases slot with
  | inherited k => simp [equals, hslot]
  | data v => simp [equals, hslot]
  | role r => simp [equals, hslot]

end Permission

/-! ### What survives -/

/-- A role, a permission or a constraint; the conditions of a constraint have no key twice. -/
inductive Item (K A H : Type) where
  | role (r : Role K A)
  | permission (p : Permission K A)
  | constraint (c : Constraint K A H) (distinct : Distinct c.conditions)

variable [DecidableEq K] [DecidableEq A] [DecidableEq H]

/-- Written and read back it is equal by its `equals` and in every field, and is written as before. -/
def Survives : Item K A H → Prop
  | .role r =>
      (∃ y, deserialize codecs (serialize codecs r) = some y ∧ equals y r = true ∧ y = r) ∧
        ∃ y, deserialize codecs (serialize codecs r) = some y ∧ serialize codecs y = serialize codecs r
  | .permission p =>
      (∃ y, (p.serialize codecs).bind (Permission.deserialize codecs p.kind) = some y ∧
        y.equals p = some true ∧ y = p) ∧
      ∃ y, (p.serialize codecs).bind (Permission.deserialize codecs p.kind) = some y ∧
        y.serialize codecs = p.serialize codecs
  | .constraint c _ =>
      (∃ y, (c.serialize codecs).bind (Constraint.deserialize codecs) = some y ∧ y.equals c = some true ∧
        y = c) ∧
        ∃ y, (c.serialize codecs).bind (Constraint.deserialize codecs) = some y ∧
          y.serialize codecs = c.serialize codecs

/-- Nothing is lost: a role has only what is written, a constraint is required, is signed by such roles and has
    plain conditions; and what is there is equal to a copy of itself. -/
def Kept : Item K A H → Prop
  | .role r => Bare r ∧ NoNaN r
  | .permission _ => False
  | .constraint c _ =>
      (c.required = true ∧ BareAll c.signed_by ∧ NoNaNAll c.signed_by) ∧
        c.conditions ≠ .null ∧ NoProto c.conditions ∧ Untagged c.conditions ∧ SelfEqual c.conditions

theorem role_survives_iff (r : Role K A) : Survives codecs (.role r) ↔ Bare r ∧ NoNaN r := by
  rw [← reread_iff, ← deserialize_serialize codecs r]
  constructor
  · rintro ⟨⟨y, hy, heq, rfl⟩, -⟩
    exact ⟨hy, noNaN_of_equals y y heq⟩
  · rintro ⟨hback, hnan⟩
    exact ⟨⟨r, hback, equals_self r hnan, rfl⟩, r, hback, rfl⟩

theorem constraint_survives_iff (c : Constraint K A H) (hd : Distinct c.conditions) :
    Survives codecs (.constraint c hd) ↔ Kept (.constraint c hd) := by
  have hround := deserialize_constraint codecs c
  have hback : (c.serialize codecs).bind (Constraint.deserialize codecs) = some c ↔
      (c.required = true ∧ BareAll c.signed_by) ∧ c.conditions ≠ .null ∧ NoProto c.conditions ∧
        Untagged c.conditions := by
    rw [hround, ← readWhere_iff, Option.bind_eq_some_iff]
    constructor
    · rintro ⟨v, hv, hc⟩
      obtain ⟨hreq, hbare, rfl⟩ := restored_iff.mp hc
      exact ⟨⟨hreq, hbare⟩, hv⟩
    · rintro ⟨⟨hreq, hbare⟩, hv⟩
      exact ⟨c.conditions, hv, restored_iff.mpr ⟨hreq, hbare, rfl⟩⟩
  constructor
  · rintro ⟨⟨y, hy, heq, rfl⟩, -⟩
    obtain ⟨⟨hreq, hbare⟩, hnull, hproto, htag⟩ := hback.mp hy
    obtain ⟨hnan, hself⟩ := (constraint_equals_self hd).mp heq
    exact ⟨⟨hreq, hbare, hnan⟩, hnull, hproto, htag, hself⟩
  · rintro ⟨⟨hreq, hbare, hnan⟩, hnull, hproto, htag, hself⟩
    have hy := hback.mpr ⟨⟨hreq, hbare⟩, hnull, hproto, htag⟩
    exact ⟨⟨c, hy, (constraint_equals_self hd).mpr ⟨hnan, hself⟩, rfl⟩, c, hy, rfl⟩

/-- CODE DEFECT (written and read back): a role survives when it has no comment and nothing else that is not
    written, a constraint when it is required, no permission at all. -/
theorem survives_iff (item : Item K A H) : Survives codecs item ↔ Kept item := by
  cases item with
  | role r => exact role_survives_iff codecs r
  | permission p =>
    refine iff_of_false ?_ id
    rintro ⟨⟨y, hy, heq, -⟩, -⟩
    obtain ⟨v, -, hv⟩ := Option.bind_eq_some_iff.mp hy
    exact Permission.equals_read codecs hv heq
  | constraint c hd => exact constraint_survives_iff codecs c hd

end

/-! ### A constraint that is not required -/

/-- A codec of texts. -/
def textCodec : Codec String := ⟨.str, fun v => match v with | .str s => some s | _ => none, fun _ => rfl⟩

/-- A constraint that has nothing but that it is not required. -/
def optionalConstraint : Constraint String String String where
  name := some "ref"
  type := some .TYPE_EXISTING_STATE
  transactional_id := some ""
  contract_id := none
  required := false
  origin := none
  signed_by := []
  fields := []
  roles := []
  conditions := .obj []
  comment := none

/-- It comes back required. -/
theorem optionalConstraint_lost :
    ¬ Survives ⟨textCodec, textCodec, textCodec⟩
      (.constraint optionalConstraint ⟨List.nodup_nil, trivial⟩) := by
  rintro ⟨⟨y, hy, -, rfl⟩, -⟩
  rw [deserialize_constraint] at hy
  obtain ⟨v, -, hv⟩ := Option.bind_eq_some_iff.mp hy
  exact Bool.false_ne_true (restored_iff.mp hv).1

end Universa.Contracts.Serial
