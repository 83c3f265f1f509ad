import Universa.Contracts.RevisionDelta
import Universa.Contracts.SplitJoinSum
import Universa.Contracts.TokenOperations

/-! What the check of a revision says of a token's next revision. A contract of a token's origin `Holds` an
    amount, a `Family` of siblings holds together what it revokes, and a `Revised` contract changes nothing but
    what the three permissions of a token name. Each stage of `checkChangedContract` gets its answer: split_join
    finds the sums balanced, change_owner and split_join are allowed for the owner's keys, and the rest of the
    delta is empty. -/

namespace Universa.Contracts.Tokens
open Universa.Js

variable (fits : Packed → String → Bool)

/-! ### Tokens -/

/-- The branch id that `setBranchNumber` makes. -/
def branchText (revision number : ℕ) : String := (Number.fin revision).text ++ ":" ++ toString number

/-- No branch id, or one from a revision up to this one. -/
def BranchUpTo (n : ℕ) (branchId : Value) : Prop :=
  branchId = .null ∨ ∃ revision number, 0 < revision ∧ revision ≤ n ∧
    branchId = .str (branchText revision number)

/-- A contract of that origin with that revision number, a safe integer: the first revision is the origin, and a
    branch id is from this revision or an earlier one. -/
structure Numbered (O : HashId) (c : Contract) (n : ℕ) : Prop where
  positive : 0 < n
  safe : n < 2 ^ 53
  revision : c.state.revision = .fin n
  origin : if n = 1 then c.state.origin = none ∧ c.id = O else c.state.origin = some O
  branch : BranchUpTo n c.state.branchId

/-- A token of that origin and owner: what `createTokenContract` makes and later revisions keep. -/
structure Token (t : Terms) (O : HashId) (owner : SimpleRole) (c : Contract) : Prop where
  apiLevel : c.apiLevel = .fin 4
  definition : ∀ written, loadedDefinition written c.definition =
    loadedDefinition written (t.definition fits owner)
  issuer : c.roles.issuer = simpleRole fits "issuer" t.issuer
  owner : c.roles.owner = simpleRole fits "owner" owner
  creator : Ordinary c.roles.creator.tree
  transactional : c.transactional = none
  numbered : ∃ n, Numbered O c n
  createdAt : ∃ time, c.state.createdAt = some time
  data : ∃ a, Terminating a ∧ c.state.data = [("amount", .str (toFixed a))]
  noRoles : c.state.roles = []
  noExpiration : c.state.expiresAt = none
  noReferences : c.state.references = []

/-- The contract as one of a token's revisions holds an amount of it. -/
structure Holds (t : Terms) (O : HashId) (owner : SimpleRole) (c : Contract) (a : ℚ) : Prop where
  origin : c.getOrigin = O
  definition : ∃ w, c.definition = loadedDefinition w (t.definition fits owner)
  data : c.state.data = [("amount", .str (toFixed a))]
  terminating : Terminating a

/-- The `params` of the permission after `SplitJoinPermission.serialize`. -/
def Terms.writtenParams (t : Terms) : List (String × Value) :=
  [("field_name", .str "amount"), ("min_unit", .str (toFixed t.minValue)),
    ("min_value", .str (toFixed t.minValue)), ("join_match_fields", .arr [.str "state.origin"])]

/-- The split_join permission of a token of that owner. -/
def Terms.splitJoin (t : Terms) (owner : SimpleRole) : Permission :=
  ⟨t.splitJoinId, "split_join", roleLink "@owner_link" "owner" (simpleRole fits "owner" owner), t.params,
    .splitJoin (.initFromParams "amount" t.params)⟩

variable {fits} {t : Terms} {O : HashId} {owner : SimpleRole} {c : Contract} {a : ℚ}

theorem Holds.permissions (h : Holds fits t O owner c a) : ∃ w,
    c.definition.permissions.lookup "split_join" = some [loadedPermission w (t.splitJoin fits owner)] := by
  obtain ⟨w, hw⟩ := h.definition
  exact ⟨w, by rw [hw]; rfl⟩

/-- The written `params` are among those of a loaded permission, written since or not. -/
theorem params_equal (w : Bool) :
    valuesEqual (.obj t.writtenParams) (.obj (loadedPermission w (t.splitJoin fits owner)).params) =
      some true := by
  cases w <;>
    simp [loadedPermission, Terms.splitJoin, entriesOf, Permission.serialize, Permission.serializedParams,
      SplitJoinPermission.initFromParams, assign, Terms.writtenParams, valuesEqual, isObject,
      sameConstructor, constructorName, strictEq, entriesEqual, hasOwn, keys, itemsEqual, paramOr, Terms.params,
      Rule.tag, List.lookup_cons]

/-! ### Sums of split_join -/

/-- The permission of a token at work on a contract of that origin. -/
structure AtWork (t : Terms) (O : HashId) (p : SplitJoin) : Prop where
  rule : p.rule = .initFromParams "amount" t.params
  params : p.params = t.writtenParams
  origin : p.changed.getOrigin = O

variable {p : SplitJoin}

theorem serialize_self (id : HashId) : valuesEqual id.serialize id.serialize = some true := by
  simp [HashId.serialize, valuesEqual, entriesEqual, sameConstructor, constructorName, isObject, strictEq,
    hasOwn, keys, List.lookup_cons]

theorem Holds.amount (h : Holds fits t O owner c a) : amount "amount" c = some a := by
  rw [Contracts.amount, h.data]
  exact bigDecimal_toFixed h.terminating

theorem Holds.amountOf (h : Holds fits t O owner c a) : amountOf "amount" c = a := by
  rw [Contracts.amountOf, h.amount, Option.getD_some]

/-- A token of the origin takes part in a sum, where its owner is not asked for or has the keys. -/
theorem Holds.takesPart (h : Holds fits t O owner c a) (hp : AtWork t O p) {checkAllowance : Bool}
    (hkeys : checkAllowance = true → owner.isAllowedForKeys fits p.keys = true) :
    p.takesPart checkAllowance c = some true := by
  obtain ⟨w, hw⟩ := h.permissions
  have hmergeable : isMergeable p.rule.fieldName c = some true := by
    rw [hp.rule, isMergeable, h.data]
    rfl
  have hfields : validateMergeFields p.changed c p.rule.mergeFields = some true := by
    have hget (c : Contract) : c.get "state.origin" = some c.getOrigin.serialize := rfl
    rw [hp.rule]
    simp [SplitJoinPermission.initFromParams, validateMergeFields, hget, hp.origin, h.origin, serialize_self]
  have hallowed : (loadedPermission w (t.splitJoin fits owner)).isAllowedForKeys p.keys =
      owner.isAllowedForKeys fits p.keys := rfl
  have hsimilar : hasSimilarPermission p.params c p.keys checkAllowance = some true := by
    rw [hasSimilarPermission, hw, hp.params]
    dsimp only
    rw [similarAmong, params_equal, hallowed]
    cases checkAllowance with
    | false => rfl
    | true => simp [hkeys rfl]
  simp [SplitJoin.takesPart, hmergeable, hfields, hsimilar]

/-- The siblings' sum is that of the amounts they hold. -/
theorem siblingSum_holds (hp : AtWork t O p) : ∀ {siblings : List Contract},
    (∀ s ∈ siblings, ∃ owner a, Holds fits t O owner s a) →
    p.siblingSum siblings = some (some (siblings.map (amountOf "amount")).sum)
  | [], _ => rfl
  | s :: rest, h => by
      obtain ⟨owner, a, hs⟩ := h s List.mem_cons_self
      have hrest := siblingSum_holds hp fun s' hs' => h s' (List.mem_cons_of_mem _ hs')
      have hfield : p.rule.fieldName = "amount" := by rw [hp.rule]; rfl
      have hpart : p.takesPart false s = some true := hs.takesPart hp (by simp)
      simp [SplitJoin.siblingSum, hpart, hfield, hs.amount, hrest, hs.amountOf]

/-- All revoked tokens of an owner with the keys are in the sum of revoked contracts. -/
theorem revokedSum_holds (hp : AtWork t O p) (hkeys : owner.isAllowedForKeys fits p.keys = true) :
    ∀ {revoked : List Contract}, (∀ c ∈ revoked, ∃ a, Holds fits t O owner c a) →
    p.revokedSum revoked = some ((revoked.map (amountOf "amount")).sum, revoked)
  | [], _ => rfl
  | c :: rest, h => by
      obtain ⟨a, hc⟩ := h c List.mem_cons_self
      have hrest := revokedSum_holds hp hkeys fun c' hc' => h c' (List.mem_cons_of_mem _ hc')
      have hfield : p.rule.fieldName = "amount" := by rw [hp.rule]; rfl
      simp [SplitJoin.revokedSum, hc.takesPart hp (fun _ => hkeys), hfield, hc.amount, hrest, hc.amountOf]

/-! ### The verdict -/

/-- The siblings of a context hold together what they revoke, all of it tokens of one owner. -/
structure Family (fits : Packed → String → Bool) (t : Terms) (O : HashId) (owner : SimpleRole)
    (context : Context) : Prop where
  siblings : ∀ s ∈ context.siblings, ∃ owner a, Holds fits t O owner s a
  revoked : ∀ c ∈ SplitJoin.allRevoking context.siblings, ∃ a, Holds fits t O owner c a
  balanced : ((SplitJoin.allRevoking context.siblings).map (amountOf "amount")).sum =
    (context.siblings.map (amountOf "amount")).sum

/-- The terms of a token whose unit is a power of ten. -/
def Terms.PowerOfTen (t : Terms) : Prop := ∃ k : ℤ, t.minValue = 10 ^ k

/-- An amount that the permission lets a contract hold. -/
def Terms.Allows (t : Terms) (x : ℚ) : Prop := MultipleOf t.minValue x ∧ t.minValue ≤ x

theorem Terms.PowerOfTen.terminating (h : t.PowerOfTen) {x : ℚ} (hx : MultipleOf t.minValue x) :
    Terminating x := by
  obtain ⟨k, hk⟩ := h
  rw [hk] at hx
  exact hx.terminating

theorem Terms.PowerOfTen.minValue (h : t.PowerOfTen) :
    bigDecimal (.str (toFixed t.minValue)) = some t.minValue :=
  bigDecimal_toFixed (h.terminating ⟨1, by simp⟩)

theorem Terms.PowerOfTen.le_ulp (h : t.PowerOfTen) {x : ℚ} (hx : t.Allows x) : t.minValue ≤ ulp x := by
  obtain ⟨k, hk⟩ := h
  obtain ⟨hmultiple, hle⟩ := hx
  rw [hk] at hmultiple hle ⊢
  have hpos : (0 : ℚ) < 10 ^ k := zpow_pos (by norm_num) k
  exact Universa.Js.le_ulp (hpos.trans_le hle).ne' hmultiple

section Verdict
variable {context : Context} (hp : AtWork t O p) (hcontext : p.context = some context)
  (hfamily : Family fits t O owner context) (hkeys : owner.isAllowedForKeys fits p.keys = true)
include hp hcontext hfamily hkeys

theorem checkSplitJoinCase_family :
    p.checkSplitJoinCase = some (true, SplitJoin.allRevoking context.siblings) := by
  simp [SplitJoin.checkSplitJoinCase, hcontext, siblingSum_holds hp hfamily.siblings,
    revokedSum_holds hp hkeys hfamily.revoked, hfamily.balanced]

/-- A smaller amount is accepted as a split. -/
theorem checkSplit_family (hten : t.PowerOfTen) {x y : ℚ} (hy : t.Allows y) :
    ∃ taken, p.checkSplit x y = some (true, taken) := by
  have hvalid : ∃ taken, p.isValidSplit (context.siblings.map (amountOf "amount")).sum x =
      some (true, taken) := by
    unfold SplitJoin.isValidSplit
    split
    · exact ⟨[], rfl⟩
    · exact ⟨_, checkSplitJoinCase_family hp hcontext hfamily hkeys⟩
  obtain ⟨taken, hvalid⟩ := hvalid
  have hmin : bigDecimal p.rule.minValue = some t.minValue := by
    rw [hp.rule]
    exact hten.minValue
  have hunit : bigDecimal p.rule.minUnit = some t.minValue := by
    rw [hp.rule]
    exact hten.minValue
  refine ⟨taken, ?_⟩
  simp [SplitJoin.checkSplit, hcontext, siblingSum_holds hp hfamily.siblings, hvalid, hmin, hunit,
    not_lt.mpr hy.2, hten.le_ulp hy]

/-- A larger amount is accepted as a merge. -/
theorem checkMerge_family {y : ℚ} (hown : ∀ c ∈ p.changed.revokingItems, ∃ a, Holds fits t O owner c a) :
    ∃ taken, p.checkMerge y = some (true, taken) := by
  by_cases hy : (p.changed.revokingItems.map (amountOf "amount")).sum = y
  · exact ⟨p.changed.revokingItems, by simp [SplitJoin.checkMerge, revokedSum_holds hp hkeys hown, hy]⟩
  · refine ⟨SplitJoin.allRevoking context.siblings, ?_⟩
    simp only [SplitJoin.checkMerge, revokedSum_holds hp hkeys hown, Option.bind_eq_bind, Option.bind_some,
      if_neg hy]
    exact checkSplitJoinCase_family hp hcontext hfamily hkeys

/-- Every other amount is accepted. -/
theorem verdict_family (hten : t.PowerOfTen)
    (hown : ∀ c ∈ p.changed.revokingItems, ∃ a, Holds fits t O owner c a) {x y : ℚ} (hx : Terminating x)
    (hy : t.Allows y) (hne : y ≠ x) :
    ∃ taken, p.verdict (.str (toFixed x)) (.str (toFixed y)) = some (true, taken) := by
  have hread := bigDecimal_toFixed (hten.terminating hy.1)
  simp only [SplitJoin.verdict, bigDecimal_toFixed hx, hread, Option.bind_eq_bind, Option.bind_some]
  rcases lt_or_gt_of_ne hne with hlt | hgt
  · rw [if_pos hlt]
    exact checkSplit_family hp hcontext hfamily hkeys hten hy
  · rw [if_neg hgt.not_gt, if_pos hgt]
    exact checkMerge_family hp hcontext hfamily hkeys hown

end Verdict

/-! ### The permissions of a token -/

theorem exclude_cons {context : Option Context} {p : Permission} {ps : List Permission}
    (h : p.isAllowedForKeys c.effectiveKeys = true) (s : Progress) :
    excludePermittedChanges c context (p :: ps) s =
      (p.checkChanges c context c.effectiveKeys s).bind (excludePermittedChanges c context ps) := by
  rw [excludePermittedChanges, if_pos h]
  rfl

theorem exclude_revoke {context : Option Context} {ps : List Permission} (id : String) (link : Role)
    (s : Progress) :
    excludePermittedChanges c context (loadedPermission true ⟨id, "revoke", link, [], .revoke⟩ :: ps) s =
      excludePermittedChanges c context ps s := by
  rw [excludePermittedChanges]
  split <;> rfl

/-- The permissions of a token take away the owner and what its split_join lets go. -/
theorem exclude_token (hkeys : owner.isAllowedForKeys fits c.effectiveKeys = true)
    (context : Option Context) (s : Progress) :
    excludePermittedChanges c context (loadedDefinition true (t.definition fits owner)).allPermissions s =
      SplitJoin.checkChanges
        ⟨.initFromParams "amount" t.params, t.writtenParams, c, context, c.effectiveKeys⟩
        (s.delete "owner") := by
  let ownerLink := roleLink "@owner_link" "owner" (simpleRole fits "owner" owner)
  let issuerLink := roleLink "@issuer_link" "issuer" (simpleRole fits "issuer" t.issuer)
  have hperms : (loadedDefinition true (t.definition fits owner)).allPermissions =
      [loadedPermission true ⟨t.changeOwnerId, "change_owner", ownerLink, [], .changeOwner⟩,
        loadedPermission true (t.splitJoin fits owner),
        loadedPermission true ⟨t.revokeOwnerId, "revoke", ownerLink, [], .revoke⟩,
        loadedPermission true ⟨t.revokeIssuerId, "revoke", issuerLink, [], .revoke⟩] := rfl
  have hchange : (loadedPermission true ⟨t.changeOwnerId, "change_owner", ownerLink, [], .changeOwner⟩).checkChanges
      c context c.effectiveKeys s = some (s.delete "owner") := rfl
  have hsplit (s : Progress) : (loadedPermission true (t.splitJoin fits owner)).checkChanges c context
      c.effectiveKeys s = SplitJoin.checkChanges
        ⟨.initFromParams "amount" t.params, t.writtenParams, c, context, c.effectiveKeys⟩ s := rfl
  have hnil : excludePermittedChanges c context [] = some := rfl
  have hallowed : (loadedPermission true
      ⟨t.changeOwnerId, "change_owner", ownerLink, [], .changeOwner⟩).isAllowedForKeys c.effectiveKeys =
      true := hkeys
  have hallowed' : (loadedPermission true (t.splitJoin fits owner)).isAllowedForKeys c.effectiveKeys =
      true := hkeys
  rw [hperms, exclude_cons hallowed, hchange, Option.bind_some, exclude_cons hallowed', hsplit]
  simp only [exclude_revoke, hnil]
  exact Option.bind_fun_some _

/-- The owner of a token may revoke it. -/
theorem Holds.revocable (h : Holds fits t O owner c a) {keys : KeySet}
    (hkeys : owner.isAllowedForKeys fits keys = true) :
    ((c.definition.permissions.lookup "revoke").getD []).any (·.isAllowedForKeys keys) = true := by
  obtain ⟨w, hw⟩ := h.definition
  have hlink : (loadedPermission w ⟨t.revokeOwnerId, "revoke",
      roleLink "@owner_link" "owner" (simpleRole fits "owner" owner), [], .revoke⟩).isAllowedForKeys keys = true :=
    hkeys
  rw [hw]
  exact Bool.or_eq_true_iff.mpr (.inl hlink)

/-! ### The definition of a token -/

/-- A link of a token as it is serialized. -/
def linkTree (name target : String) : Value :=
  .obj [("name", .str name), ("target_name", .str target), ("__type", .str "RoleLink")]

/-- A revoke or change_owner permission as it is serialized. -/
def bareTree (name tag : String) (link : Value) : Value :=
  .obj [("name", .str name), ("role", link), ("__type", .str tag)]

/-- The serialized permissions, the same for every owner. -/
def Terms.permissionsTree (t : Terms) : Value :=
  .obj [(t.changeOwnerId, bareTree "change_owner" "ChangeOwnerPermission" (linkTree "@owner_link" "owner")),
    (t.splitJoinId, .obj ([("name", .str "split_join"), ("role", linkTree "@owner_link" "owner")] ++
      t.writtenParams ++ [("__type", .str "SplitJoinPermission")])),
    (t.revokeOwnerId, bareTree "revoke" "RevokePermission" (linkTree "@owner_link" "owner")),
    (t.revokeIssuerId, bareTree "revoke" "RevokePermission" (linkTree "@issuer_link" "issuer"))]

variable (fits) in
/-- The serialized definition. -/
def Terms.definitionTree (t : Terms) : Value :=
  .obj [("issuer", (simpleRole fits "issuer" t.issuer).tree), ("created_at", .date t.createdAt),
    ("data", .obj [("currency", .str t.currency), ("short_currency", .str t.currency), ("name", .str t.name),
      ("description", .str t.description)]),
    ("permissions", t.permissionsTree), ("expires_at", .date t.expiresAt), ("references", .arr [])]

theorem serialize_bare (w : Bool) (id name : String) (link : Role) {rule : Rule}
    (hrule : rule = .revoke ∨ rule = .changeOwner) :
    (loadedPermission w ⟨id, name, link, [], rule⟩).serialize = bareTree name rule.tag link.tree := by
  rcases hrule with rfl | rfl <;> cases w <;> rfl

theorem serialize_splitJoin (w : Bool) : (loadedPermission w (t.splitJoin fits owner)).serialize =
    .obj ([("name", .str "split_join"), ("role", linkTree "@owner_link" "owner")] ++ t.writtenParams ++
      [("__type", .str "SplitJoinPermission")]) := by
  cases w <;> rfl

theorem serializeDefinition_token {w : Bool} (hd : c.definition = loadedDefinition w (t.definition fits owner))
    (hissuer : c.roles.issuer = simpleRole fits "issuer" t.issuer) :
    c.serializeDefinition = some (t.definitionTree fits) := by
  let ownerLink := roleLink "@owner_link" "owner" (simpleRole fits "owner" owner)
  let issuerLink := roleLink "@issuer_link" "issuer" (simpleRole fits "issuer" t.issuer)
  have hperms : c.definition.allPermissions =
      [loadedPermission w ⟨t.changeOwnerId, "change_owner", ownerLink, [], .changeOwner⟩,
        loadedPermission w (t.splitJoin fits owner),
        loadedPermission w ⟨t.revokeOwnerId, "revoke", ownerLink, [], .revoke⟩,
        loadedPermission w ⟨t.revokeIssuerId, "revoke", issuerLink, [], .revoke⟩] := by
    rw [hd]
    rfl
  have hpb : .obj (c.definition.allPermissions.map fun p => (p.id, p.serialize)) = t.permissionsTree := by
    simp only [hperms, List.map_cons, List.map_nil, serialize_bare _ _ _ _ (.inr rfl),
      serialize_bare _ _ _ _ (.inl rfl), serialize_splitJoin]
    rfl
  have hnodup : (keys (c.definition.allPermissions.map fun p => (p.id, p.serialize))).Nodup := by
    rw [hperms]
    exact t.distinctIds
  rw [Contract.serializeDefinition]
  simp only [hnodup, not_true_eq_false, if_false]
  rw [hpb, hd, hissuer]
  rfl

theorem ordinary_simpleRole (name : String) (r : SimpleRole) : Ordinary (simpleRole fits name r).tree := by
  have hkeys : OrdinaryItems (r.keys.map keyRecord) := ordinaryItems_map (fun key => by
    simp [keyRecord, Ordinary, OrdinaryEntries, comparedBy, keys]) _
  have haddresses : OrdinaryItems (r.addresses.map keyAddress) := ordinaryItems_map (fun address => by
    simp [keyAddress, Ordinary, OrdinaryEntries, comparedBy, keys]) _
  simp [simpleRole, Ordinary, OrdinaryEntries, comparedBy, keys, hkeys, haddresses]

theorem ordinary_roleLink (name target : String) (role : Role) : Ordinary (roleLink name target role).tree := by
  simp [roleLink, Ordinary, OrdinaryEntries, comparedBy, keys]

theorem distinct_simpleRole (name : String) (r : SimpleRole) : Distinct (simpleRole fits name r).tree := by
  have hkeys : DistinctItems (r.keys.map keyRecord) := distinctItems_map (fun key => by
    simp [keyRecord, Distinct, DistinctEntries, keys]) _
  have haddresses : DistinctItems (r.addresses.map keyAddress) := distinctItems_map (fun address => by
    simp [keyAddress, Distinct, DistinctEntries, keys]) _
  simp [simpleRole, Distinct, DistinctEntries, keys, hkeys, haddresses]

theorem ordinary_definitionTree : Ordinary (t.definitionTree fits) := by
  have hids : ∀ k ∈ comparedBy, k ∉ [t.changeOwnerId, t.splitJoinId, t.revokeOwnerId, t.revokeIssuerId] := by
    intro k hk hid
    have hlen := t.randomIds k hid
    rcases List.mem_cons.mp hk with rfl | hk
    · cases hlen
    · rw [List.mem_singleton.mp hk] at hlen
      cases hlen
  have hpermissions : Ordinary t.permissionsTree := by
    refine ⟨hids, ?_⟩
    simp [OrdinaryEntries, Ordinary, OrdinaryItems, bareTree, linkTree, Terms.writtenParams, comparedBy, keys]
  simp [Terms.definitionTree, Ordinary, OrdinaryEntries, OrdinaryItems, hpermissions, ordinary_simpleRole,
    comparedBy, keys]

theorem distinct_definitionTree : Distinct (t.definitionTree fits) := by
  have hids := t.distinctIds
  have hpermissions : Distinct t.permissionsTree := by
    refine ⟨hids, ?_⟩
    simp [DistinctEntries, Distinct, DistinctItems, bareTree, linkTree, Terms.writtenParams, keys]
  simp [Terms.definitionTree, Distinct, DistinctEntries, DistinctItems, hpermissions, distinct_simpleRole, keys]

/-! ### A revision against its parent -/

variable {first : Contract} {now : ℤ} {keys : KeySet} {x : ℚ}

variable (fits) in
/-- The next revision of a token with that amount, in a transaction that these keys signed. -/
structure Revised (t : Terms) (O : HashId) (first : Contract) (now : ℤ) (keys : KeySet) (c : Contract)
    (x : ℚ) : Prop where
  holds : ∃ owner, Holds fits t O owner c x
  apiLevel : c.apiLevel = .fin 4
  issuer : c.roles.issuer = simpleRole fits "issuer" t.issuer
  owner : Ordinary c.roles.owner.tree
  creator : Ordinary c.roles.creator.tree
  transactional : c.transactional = none
  revision : c.state.revision = first.state.revision.succ
  createdAt : c.state.createdAt = some now
  origin : c.state.origin = some O
  parent : c.state.parent = some first.id
  branch : c.state.branchId = .null ∨ ∃ s, c.state.branchId = .str s
  noRoles : c.state.roles = []
  noExpiration : c.state.expiresAt = none
  noReferences : c.state.references = []
  keys : c.effectiveKeys = keys

theorem ordinary_idValue (id : Option HashId) : Ordinary (idValue id) := by
  cases id with
  | none => trivial
  | some id => simp [idValue, HashId.serialize, Ordinary, OrdinaryEntries, comparedBy, Js.keys]

theorem ordinary_dateValue (time : Option ℤ) : Ordinary (dateValue time) := by
  cases time <;> trivial

/-- The difference of two amounts. -/
def amountDelta (s u : String) : Option Delta :=
  if s = u then none
  else some (.map (.obj [("amount", .str s)]) (.obj [("amount", .str u)])
    [("amount", .changed (.str s) (.str u))])

theorem between_amount (s u : String) :
    between (.obj [("amount", .str s)]) (.obj [("amount", .str u)]) = some (amountDelta s u) := by
  have hchanges : mapChanges [("amount", .str s)] [("amount", .str u)] =
      some (withNode "amount" (if s = u then none else some (.changed (.str s) (.str u))) []) :=
    mapChanges_node (by decide) (by simp [Js.keys]) rfl (between_str s u) rfl
  have hcreated : newKeys [("amount", Value.str s)] [("amount", Value.str u)] = some [] :=
    newKeys_nil (by simp [Js.keys]) fun k hk => hk
  simp only [between, hchanges, hcreated, Option.bind_eq_bind, Option.bind_some, amountDelta]
  by_cases h : s = u <;> simp [withNode, h]

/-- Branch ids: no text or another one. -/
theorem between_branch {v w : Value} (hv : v = .null ∨ ∃ s, v = .str s) (hw : w = .null ∨ ∃ s, w = .str s) :
    (v = w ∧ between v w = some none) ∨ (v ≠ w ∧ between v w = some (some (.changed v w))) := by
  rcases hv with rfl | ⟨s, rfl⟩ <;> rcases hw with rfl | ⟨u, rfl⟩
  · simp [between]
  · simp [between]
  · simp [between]
  · rw [between_str]
    by_cases h : s = u <;> simp [h]

theorem BranchUpTo.cases {n : ℕ} {v : Value} (h : BranchUpTo n v) : v = .null ∨ ∃ s, v = .str s := by
  rcases h with h | ⟨_, _, -, -, h⟩
  · exact .inl h
  · exact .inr ⟨_, h⟩

theorem Token.holds (h : Token fits t O owner c) (w : Bool) :
    ∃ a, Holds fits t O owner (loadedContract w c) a := by
  obtain ⟨a, ha, hdata⟩ := h.data
  obtain ⟨n, hn⟩ := h.numbered
  refine ⟨a, ?_, ⟨w, h.definition w⟩, hdata, ha⟩
  have horigin := hn.origin
  unfold Contract.getOrigin
  split at horigin
  · rw [loadedContract, horigin.1, Option.getD_none]
    exact horigin.2
  · rw [loadedContract, horigin, Option.getD_some]

/-- A revision differs from its parent in the fields of the state, with these differences of the branch, the
    owner and the amount. -/
theorem Revised.differ (hfirst : Token fits t O owner first) (h : Revised fits t O first now keys c x)
    (ha : Holds fits t O owner (loadedContract true first) a) : ∃ d, Differ (loadedContract true first) c d ∧
      between first.roles.owner.tree c.roles.owner.tree = some d.owner ∧
      between first.state.branchId c.state.branchId = some d.branch ∧
      d.data = amountDelta (toFixed a) (toFixed x) := by
  obtain ⟨owner', hx⟩ := h.holds
  obtain ⟨w, hdef⟩ := hx.definition
  obtain ⟨n, hn⟩ := hfirst.numbered
  obtain ⟨created, hcreated⟩ := between_ordinary (ordinary_dateValue first.state.createdAt)
    (ordinary_dateValue c.state.createdAt)
  obtain ⟨owned, howned⟩ := between_ordinary (hfirst.owner ▸ ordinary_simpleRole _ _) h.owner
  obtain ⟨creator, hcreator⟩ := between_ordinary hfirst.creator h.creator
  obtain ⟨origin, horigin⟩ := between_ordinary (ordinary_idValue first.state.origin)
    (ordinary_idValue c.state.origin)
  obtain ⟨parent, hparent⟩ := between_ordinary (ordinary_idValue first.state.parent)
    (ordinary_idValue c.state.parent)
  obtain ⟨branch, hbranch⟩ : ∃ r, between first.state.branchId c.state.branchId = some r := by
    rcases between_branch hn.branch.cases h.branch with ⟨-, hb⟩ | ⟨-, hb⟩
    · exact ⟨_, hb⟩
    · exact ⟨_, hb⟩
  refine ⟨⟨created, owned, creator, branch, origin, parent, amountDelta (toFixed a) (toFixed x)⟩, ?_, howned,
    hbranch, rfl⟩
  exact
    { apiLevel := by
        rw [h.apiLevel]
        exact ⟨hfirst.apiLevel, by rw [show (loadedContract true first).apiLevel = _ from hfirst.apiLevel]; simp⟩
      definition := ⟨t.definitionTree fits, serializeDefinition_token (hfirst.definition true) hfirst.issuer,
        serializeDefinition_token hdef h.issuer, between_self distinct_definitionTree ordinary_definitionTree⟩
      transactional := ⟨hfirst.transactional, h.transactional⟩
      revision := ⟨n, hn.revision, by rw [h.revision, hn.revision]; rfl⟩
      created := hcreated
      owner := howned
      creator := hcreator
      branch := hbranch
      origin := horigin
      parent := hparent
      data := by
        rw [ha.data, hx.data]
        exact between_amount _ _
      noRoles := ⟨hfirst.noRoles, h.noRoles⟩
      noExpiration := ⟨hfirst.noExpiration, h.noExpiration⟩
      noReferences := ⟨hfirst.noReferences, h.noReferences⟩ }

/-- The error of a revision that is older than its parent. -/
def clockErrors (time now : ℤ) : List ErrorRecord :=
  errorUnless (decide (time ≤ now))
    ⟨.BAD_VALUE, "state.created_at", "new creation datetime is before old one"⟩

/-- The check of a revision: what is left is up to split_join. -/
theorem checkDelta_revised (hfirst : Token fits t O owner first) (h : Revised fits t O first now keys c x)
    (hkeys : owner.isAllowedForKeys fits keys = true) {time : ℤ} (htime : first.state.createdAt = some time)
    {d : Differences} (hd : Differ (loadedContract true first) c d) (context : Option Context) :
    checkDelta (loadedContract true first) c context = (do
      let progress ← SplitJoin.checkChanges
        ⟨.initFromParams "amount" t.params, t.writtenParams, c, context, keys⟩
        ⟨withNode "branch_id" d.branch (withNode "data" d.data []), c.revokingItems⟩
      let left ← forbidden progress.stateChanges
      return (identicalErrors d ++ clockErrors time now ++ left, progress.revokingItems)) := by
  obtain ⟨n, hn⟩ := hfirst.numbered
  have hkeys' : owner.isAllowedForKeys fits c.effectiveKeys = true := by rw [h.keys, hkeys]
  have hleft : (⟨d.left, c.revokingItems⟩ : Progress).delete "owner" =
      ⟨withNode "branch_id" d.branch (withNode "data" d.data []), c.revokingItems⟩ := by
    simp [Progress.delete, Differences.left]
  have hdef : (loadedContract true first).definition = loadedDefinition true (t.definition fits owner) :=
    hfirst.definition true
  rw [checkDelta_differ hd hn.revision, checkStateChange_differ hd htime h.createdAt, hdef,
    exclude_token hkeys', hleft, h.keys]
  rfl

theorem splitJoin_same {p : SplitJoin} (b : Option Delta) (revoked : List Contract) :
    p.checkChanges ⟨withNode "branch_id" b (withNode "data" none []), revoked⟩ =
      some ⟨withNode "branch_id" b (withNode "data" none []), revoked⟩ := by
  simp [SplitJoin.checkChanges, Progress.mapOf]

theorem splitJoin_valid {p : SplitJoin} (hfield : p.rule.fieldName = "amount") {o n : Value} {s u : String}
    {taken : List Contract} (hverdict : p.verdict (.str s) (.str u) = some (true, taken)) (b : Option Delta)
    (revoked : List Contract) :
    p.checkChanges ⟨withNode "branch_id" b (withNode "data"
        (some (.map o n [("amount", .changed (.str s) (.str u))])) []), revoked⟩ =
      some ⟨withNode "data" (some (.map o n [])) [],
        revoked.filter fun c => ∀ ri ∈ taken, ri.id ≠ c.id⟩ := by
  have hown : hasOwn [("amount", Delta.changed (.str s) (.str u))] "amount" = some true := by
    simp [hasOwn, Js.keys]
  have hmap : (⟨withNode "branch_id" b (withNode "data"
      (some (.map o n [("amount", .changed (.str s) (.str u))])) []), revoked⟩ : Progress).mapOf "data" =
      some [("amount", .changed (.str s) (.str u))] := by
    cases b <;> rfl
  rw [SplitJoin.checkChanges, hmap]
  simp only [hfield, hown, Option.bind_eq_bind, Option.bind_some, Bool.not_true, Bool.false_eq_true, if_false,
    List.lookup_cons, BEq.rfl, hverdict, if_true]
  cases b <;> rfl

theorem forbidden_ne_nil {k : String} {d : Delta} {rest : Changes} {left : List ErrorRecord}
    (hd : d.isEmpty = false) (h : forbidden (withNode k (some d) rest) = some left) : left ≠ [] := by
  rw [forbidden_withNode] at h
  simp only [hd, Bool.false_eq_true, if_false, Option.bind_eq_bind, Option.bind_eq_some_iff] at h
  obtain ⟨message, -, errors, -, h⟩ := h
  cases h
  exact List.cons_ne_nil _ _

/-- Another amount than the parent's is accepted. -/
theorem checkDelta_accepts (hfirst : Token fits t O owner first) (h : Revised fits t O first now keys c x)
    (hkeys : owner.isAllowedForKeys fits keys = true) {time : ℤ} (htime : first.state.createdAt = some time)
    (ha : Holds fits t O owner (loadedContract true first) a) {context : Context}
    (hfamily : Family fits t O owner context) (hten : t.PowerOfTen) (hx : t.Allows x)
    (hown : ∀ ri ∈ c.revokingItems, ∃ b, Holds fits t O owner ri b) (hne : x ≠ a) :
    ∃ left, left ⊆ c.revokingItems ∧
      checkDelta (loadedContract true first) c (some context) = some (clockErrors time now, left) := by
  obtain ⟨d, hd, -, -, hdata⟩ := h.differ hfirst ha
  obtain ⟨owner', hc⟩ := h.holds
  have hp : AtWork t O ⟨.initFromParams "amount" t.params, t.writtenParams, c, some context, keys⟩ :=
    ⟨rfl, rfl, hc.origin⟩
  obtain ⟨taken, htaken⟩ := verdict_family hp rfl hfamily hkeys hten hown ha.terminating hx hne
  have htexts : toFixed a ≠ toFixed x := by
    intro heq
    have hread := bigText_toFixed ha.terminating
    rw [heq, bigText_toFixed hc.terminating] at hread
    exact hne (Option.some.inj hread)
  rw [amountDelta, if_neg htexts] at hdata
  have hidentical : identicalErrors d = [] := by simp [identicalErrors, hdata, errorUnless]
  refine ⟨c.revokingItems.filter fun ri => ∀ item ∈ taken, item.id ≠ ri.id,
    fun _ hri => List.mem_of_mem_filter hri, ?_⟩
  rw [checkDelta_revised hfirst h hkeys htime hd, hdata, hidentical, splitJoin_valid rfl htaken]
  simp [forbidden, withNode, Delta.isEmpty]

/-- The parent's amount is an error: nothing is new, or the branch id is left over. -/
theorem checkDelta_rejects (hfirst : Token fits t O owner first) (h : Revised fits t O first now keys c a)
    (hkeys : owner.isAllowedForKeys fits keys = true) {time : ℤ} (htime : first.state.createdAt = some time)
    (ha : Holds fits t O owner (loadedContract true first) a)
    (hnew : first.state.branchId ≠ c.state.branchId ∨ first.roles.owner.tree = c.roles.owner.tree)
    {context : Option Context} {errors : List ErrorRecord} {left : List Contract}
    (hcheck : checkDelta (loadedContract true first) c context = some (errors, left)) : errors ≠ [] := by
  obtain ⟨d, hd, howner, hbranch, hdata⟩ := h.differ hfirst ha
  obtain ⟨n, hn⟩ := hfirst.numbered
  rw [amountDelta, if_pos rfl] at hdata
  rw [checkDelta_revised hfirst h hkeys htime hd, hdata, splitJoin_same] at hcheck
  simp only [Option.bind_eq_bind, Option.bind_some, Option.bind_eq_some_iff] at hcheck
  obtain ⟨forbiddenErrors, hforbidden, hcheck⟩ := hcheck
  obtain rfl := (Prod.ext_iff.mp (Option.some.inj hcheck)).1
  rcases between_branch hn.branch.cases h.branch with ⟨heq, -⟩ | ⟨-, hb⟩
  · -- the branch is that of the parent, and so is the owner
    have hself : between first.roles.owner.tree first.roles.owner.tree = some none := by
      rw [hfirst.owner]
      exact between_self (distinct_simpleRole _ _) (ordinary_simpleRole _ _)
    rw [← hnew.resolve_left (not_not.mpr heq), hself] at howner
    have hsame : d.owner = none := (Option.some.inj howner).symm
    simp [identicalErrors, hsame, hdata, errorUnless]
  · have hchanged := Option.some.inj (hbranch.symm.trans hb)
    rw [hchanged] at hforbidden
    have hleft := forbidden_ne_nil rfl hforbidden
    simp [hleft]

theorem clockErrors_nil {time now : ℤ} : clockErrors time now = [] ↔ time ≤ now := by
  by_cases h : time ≤ now <;> simp [clockErrors, errorUnless, h]

/-- A revision passes iff it is no older than its parent and has another amount. -/
theorem checkChangedContract_iff (hfirst : Token fits t O owner first)
    (h : Revised fits t O first now keys c x) (hkeys : owner.isAllowedForKeys fits keys = true) {time : ℤ}
    (htime : first.state.createdAt = some time) (ha : Holds fits t O owner (loadedContract true first) a)
    {context : Context} (hfamily : Family fits t O owner context) (hten : t.PowerOfTen) (hx : t.Allows x)
    (hown : ∀ ri ∈ c.revokingItems, ∃ b, Holds fits t O owner ri b)
    (hnew : first.state.branchId ≠ c.state.branchId ∨ first.roles.owner.tree = c.roles.owner.tree)
    (hparent : c.parentIn context = some (loadedContract true first)) :
    c.checkChangedContract context = some [] ↔ time ≤ now ∧ x ≠ a := by
  have hid : (loadedContract true first).id = first.id := rfl
  have hrun : c.checkChangedContract context =
      (checkDelta (loadedContract true first) c (some context)).map fun r =>
        r.1 ++ c.checkRevokePermissions r.2 := by
    rw [Contract.checkChangedContract, hparent]
    simp only [ha.origin, h.origin, h.parent, hid, decide_true, errorUnless, if_true, List.nil_append,
      Option.bind_eq_bind]
    exact Option.map_eq_bind.symm
  rw [hrun]
  constructor
  · intro hpass
    obtain ⟨⟨errors, left⟩, hcheck, hnil⟩ := Option.map_eq_some_iff.mp hpass
    obtain ⟨herrors, -⟩ := List.append_eq_nil_iff.mp hnil
    have hne : x ≠ a := by
      rintro rfl
      exact checkDelta_rejects hfirst h hkeys htime ha hnew hcheck herrors
    obtain ⟨left', -, haccept⟩ := checkDelta_accepts hfirst h hkeys htime ha hfamily hten hx hown hne
    rw [hcheck] at haccept
    have hclock : errors = clockErrors time now := (Prod.ext_iff.mp (Option.some.inj haccept)).1
    exact ⟨clockErrors_nil.mp (hclock.symm.trans herrors), hne⟩
  · rintro ⟨hclock, hne⟩
    obtain ⟨left, hleft, haccept⟩ := checkDelta_accepts hfirst h hkeys htime ha hfamily hten hx hown hne
    have hrevoke : c.checkRevokePermissions left = [] := by
      refine List.flatMap_eq_nil_iff.mpr fun rc hrc => ?_
      obtain ⟨b, hb⟩ := hown rc (hleft hrc)
      rw [hb.revocable (by rw [h.keys, hkeys])]
      simp [errorUnless]
    simp [haccept, clockErrors_nil.mpr hclock, hrevoke]

end Universa.Contracts.Tokens
