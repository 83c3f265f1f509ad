import Universa.Contracts.ContractDelta
import Universa.Js.Ordinary

/-! The delta of a revision, computed: a contract without roles, references and expiration of its own in
    the state, against the next revision of it. What the check of the state works on is put together from
    the differences of the single fields. -/

namespace Universa.Contracts
open Universa.Js

/-! ### One node -/

theorem mapChanges_node {es fs : List (String × Value)} {k : String} {v w : Value} {r : Option Delta}
    {rest : List (String × Delta)} (hk : skipped k = false) (hown : "hasOwnProperty" ∉ keys fs)
    (hw : fs.lookup k = some w) (hb : between v w = some r) (hrest : mapChanges es fs = some rest) :
    mapChanges ((k, v) :: es) fs = some (withNode k r rest) := by
  have hpassed : passedOver k = false := (Bool.or_eq_false_iff.mp ((skipped_eq k).symm.trans hk)).1
  have hproto : (k == "__proto__") = false := (Bool.or_eq_false_iff.mp ((skipped_eq k).symm.trans hk)).2
  have hin : hasOwn fs k = some true := by
    rw [hasOwn, if_neg hown, decide_eq_true (mem_keys_iff.mpr ⟨w, hw⟩)]
  rw [mapChanges]
  simp only [hpassed, Bool.false_eq_true, if_false, hin, hw, Option.getD_some, hb, hrest]
  cases r with
  | none => rfl
  | some d => simp [setChange, hproto, withNode]

theorem newKeys_nil {es fs : List (String × Value)} (hown : "hasOwnProperty" ∉ keys es)
    (h : ∀ k ∈ keys fs, k ∈ keys es) : newKeys es fs = some [] := by
  induction fs with
  | nil => rfl
  | cons f fs ih =>
      have hin : hasOwn es f.1 = some true := by
        rw [hasOwn, if_neg hown, decide_eq_true (h f.1 List.mem_cons_self)]
      have hrest := ih fun k hk => h k (List.mem_cons_of_mem _ hk)
      rw [newKeys, hin, hrest]
      split <;> rfl

@[simp] theorem erase_withNode (k k' : String) (r : Option Delta) (rest : Changes) :
    erase (withNode k r rest) k' = if k = k' then erase rest k' else withNode k r (erase rest k') := by
  cases r with
  | none => simp [withNode]
  | some d => by_cases hk : k = k' <;> simp [erase, withNode, hk]

@[simp] theorem erase_nil (k : String) : erase [] k = [] := rfl

@[simp] theorem lookup_withNode (k k' : String) (r : Option Delta) (rest : Changes) :
    (withNode k r rest).lookup k' = if k' = k then r.or (rest.lookup k') else rest.lookup k' := by
  by_cases hk : k' = k
  · subst hk
    cases r <;> simp [withNode]
  · rw [if_neg hk, lookup_withNode_ne hk]

@[simp] theorem any_keys_withNode (k : String) (r : Option Delta) (rest : Changes) (p : String → Bool) :
    (keys (withNode k r rest)).any p = ((r.isSome && p k) || (keys rest).any p) := by
  cases r <;> simp [withNode, keys]

@[simp] theorem any_keys_nil (p : String → Bool) : (keys ([] : Changes)).any p = false := rfl

@[simp] theorem map_withNode (k field : String) (r : Option Delta) (rest changes : Changes) :
    (withNode k r rest).map (fun e => (e.1, if e.1 = field then withChanges e.2 changes else e.2)) =
      withNode k (r.map fun d => if k = field then withChanges d changes else d)
        (rest.map fun e => (e.1, if e.1 = field then withChanges e.2 changes else e.2)) := by
  cases r <;> rfl

/-- A change left over is an error, one without changes is none. -/
theorem forbidden_withNode (k : String) (r : Option Delta) (rest : Changes) :
    forbidden (withNode k r rest) = match r with
      | none => forbidden rest
      | some d => if d.isEmpty then forbidden rest else do
          let message ← forbiddenMessage d
          return ⟨.FORBIDDEN, "state." ++ k, message⟩ :: (← forbidden rest) := by
  cases r <;> rfl

/-! ### The tree of a revision -/

/-- The differences of the fields that a revision may change, apart from its number. -/
structure Differences where
  created : Option Delta
  owner : Option Delta
  creator : Option Delta
  branch : Option Delta
  origin : Option Delta
  parent : Option Delta
  data : Option Delta

/-- `b` is the next revision of `a` with these differences, and nothing else of it is another. -/
structure Differ (a b : Contract) (d : Differences) : Prop where
  apiLevel : a.apiLevel = b.apiLevel ∧ a.apiLevel ≠ .nan
  definition : ∃ v, a.serializeDefinition = some v ∧ b.serializeDefinition = some v ∧
    between v v = some none
  transactional : a.transactional = none ∧ b.transactional = none
  revision : ∃ q, a.state.revision = .fin q ∧ b.state.revision = .fin (q + 1)
  created : between (dateValue a.state.createdAt) (dateValue b.state.createdAt) = some d.created
  owner : between a.roles.owner.tree b.roles.owner.tree = some d.owner
  creator : between a.roles.creator.tree b.roles.creator.tree = some d.creator
  branch : between a.state.branchId b.state.branchId = some d.branch
  origin : between (idValue a.state.origin) (idValue b.state.origin) = some d.origin
  parent : between (idValue a.state.parent) (idValue b.state.parent) = some d.parent
  data : between (.obj a.state.data) (.obj b.state.data) = some d.data
  noRoles : a.state.roles = [] ∧ b.state.roles = []
  noExpiration : a.state.expiresAt = none ∧ b.state.expiresAt = none
  noReferences : a.state.references = [] ∧ b.state.references = []

/-- The changes of the state from revision `q`. -/
def Differences.changes (d : Differences) (q : ℚ) : Changes :=
  withNode "created_at" d.created <|
  withNode "revision" (some (.changed (.num (.fin q)) (.num (.fin (q + 1))))) <|
  withNode "owner" d.owner <| withNode "created_by" d.creator <| withNode "branch_id" d.branch <|
  withNode "origin" d.origin <| withNode "parent" d.parent <| withNode "data" d.data []

theorem between_num {a b : ℚ} (h : a ≠ b) :
    between (.num (.fin a)) (.num (.fin b)) = some (some (.changed (.num (.fin a)) (.num (.fin b)))) := by
  simp [between, leafBetween, valuesEqual, strictEq, Number.eq, h]

theorem between_str (s t : String) :
    between (.str s) (.str t) = some (if s = t then none else some (.changed (.str s) (.str t))) := by
  by_cases h : s = t <;> simp [between, leafBetween, valuesEqual, strictEq, h]

theorem between_date (s t : ℤ) :
    between (.date s) (.date t) = some (if s = t then none else some (.changed (.date s) (.date t))) := by
  by_cases h : s = t <;>
    simp [between, leafBetween, valuesEqual, strictEq, isObject, sameConstructor, constructorName, h]

theorem between_empty : between (.obj []) (.obj []) = some none := rfl

/-- The delta of the states. -/
theorem between_state {a b : Contract} {d : Differences} (h : Differ a b d) {q : ℚ}
    (hq : a.state.revision = .fin q) :
    between (.obj a.serializeState) (.obj b.serializeState) =
      some (some (.map (.obj a.serializeState) (.obj b.serializeState) (d.changes q))) := by
  obtain ⟨q', hq', hnext⟩ := h.revision
  obtain rfl : q' = q := by simpa [hq] using hq'.symm
  have hrev := between_num (a := q') (b := q' + 1) (by simp)
  have hkeys : keys b.serializeState = ["created_at", "revision", "owner", "created_by", "branch_id",
      "origin", "parent", "data", "roles", "references"] := by
    simp [Contract.serializeState, h.noExpiration.2, keys]
  have hown : "hasOwnProperty" ∉ keys b.serializeState := by rw [hkeys]; decide
  have hchanges : mapChanges a.serializeState b.serializeState = some (d.changes q') := by
    simp only [Contract.serializeState, h.noRoles.1, h.noExpiration.1, h.noReferences.1, h.noRoles.2,
      h.noExpiration.2, h.noReferences.2, List.map_nil, List.append_nil, List.cons_append,
      List.nil_append, hq, hnext] at hown ⊢
    refine mapChanges_node (by decide) hown rfl h.created ?_
    refine mapChanges_node (by decide) hown rfl hrev ?_
    refine mapChanges_node (by decide) hown rfl h.owner ?_
    refine mapChanges_node (by decide) hown rfl h.creator ?_
    refine mapChanges_node (by decide) hown rfl h.branch ?_
    refine mapChanges_node (by decide) hown rfl h.origin ?_
    refine mapChanges_node (by decide) hown rfl h.parent ?_
    refine mapChanges_node (by decide) hown rfl h.data ?_
    refine mapChanges_node (r := none) (by decide) hown rfl between_empty ?_
    exact mapChanges_node (r := none) (by decide) hown rfl rfl rfl
  have hcreated : newKeys a.serializeState b.serializeState = some [] := by
    have hkeysa : keys a.serializeState = keys b.serializeState := by
      rw [hkeys]
      simp [Contract.serializeState, h.noExpiration.1, keys]
    exact newKeys_nil (hkeysa ▸ hown) fun k hk => hkeysa ▸ hk
  have hsome : d.changes q' ≠ [] := by
    unfold Differences.changes
    cases d.created <;> simp [withNode]
  simp [between, hchanges, hcreated, hsome]

/-- A serialized contract without a transactional section. -/
def withoutTransactional (definition : Value) (c : Contract) : List (String × Value) :=
  [("api_level", .num c.apiLevel), ("definition", definition), ("state", .obj c.serializeState),
    ("__type", .str "UniversaContract")]

/-- The state is all that differs. -/
theorem between_contracts {a b : Contract} {d : Differences} (h : Differ a b d) {q : ℚ}
    (hq : a.state.revision = .fin q) {v : Value} (hv : between v v = some none) :
    between (.obj (withoutTransactional v a)) (.obj (withoutTransactional v b)) =
      some (some (.map (.obj (withoutTransactional v a)) (.obj (withoutTransactional v b))
        [("state", .map (.obj a.serializeState) (.obj b.serializeState) (d.changes q))])) := by
  have hapi : between (.num a.apiLevel) (.num b.apiLevel) = some none := by
    obtain ⟨heq, hne⟩ := h.apiLevel
    rw [← heq]
    exact between_self trivial hne
  have hown (c : Contract) : "hasOwnProperty" ∉ keys (withoutTransactional v c) := by
    simp [withoutTransactional, keys]
  have hchanges : mapChanges (withoutTransactional v a) (withoutTransactional v b) =
      some [("state", .map (.obj a.serializeState) (.obj b.serializeState) (d.changes q))] := by
    refine mapChanges_node (r := none) (by decide) (hown b) rfl hapi ?_
    refine mapChanges_node (r := none) (by decide) (hown b) rfl hv ?_
    refine mapChanges_node (r := some _) (by decide) (hown b) rfl (between_state h hq) ?_
    exact mapChanges_node (r := none) (by decide) (hown b) rfl (between_str _ _) rfl
  have hcreated : newKeys (withoutTransactional v a) (withoutTransactional v b) = some [] :=
    newKeys_nil (hown a) fun k hk => hk
  simp [between, hchanges, hcreated]

theorem checkDelta_differ {a b : Contract} {d : Differences} (h : Differ a b d) {q : ℚ}
    (hq : a.state.revision = .fin q) (context : Option Context) :
    checkDelta a b context = checkStateChange a b context (d.changes q) := by
  obtain ⟨v, ha, hb, hv⟩ := h.definition
  have hserialize {c : Contract} (hdef : c.serializeDefinition = some v) (htrans : c.transactional = none) :
      c.serialize = some (withoutTransactional v c) := by
    simp [Contract.serialize, hdef, htrans, withoutTransactional]
  have herrors : rootErrors [("state", .map (.obj a.serializeState) (.obj b.serializeState)
      (d.changes q))] = [] := by
    simp [rootErrors, errorUnless, keys]
  rw [checkDelta, hserialize ha h.transactional.1, hserialize hb h.transactional.2]
  simp only [Option.bind_eq_bind, Option.bind_some, between_contracts h hq hv, List.lookup_cons, BEq.rfl,
    herrors, List.nil_append]
  exact Option.bind_fun_some _

/-! ### The check of the state -/

/-- The changes that only permissions take away. -/
def Differences.left (d : Differences) : Changes :=
  withNode "owner" d.owner <| withNode "branch_id" d.branch <| withNode "data" d.data []

/-- The error of a revision with nothing new. -/
def identicalErrors (d : Differences) : List ErrorRecord :=
  errorUnless (d.owner.isSome || d.data.isSome) ⟨.BADSTATE, "", "new state is identical"⟩

theorem createdAtErrors_changes {s t : ℤ} {d : Differences}
    (hd : between (.date s) (.date t) = some d.created) {q : ℚ} :
    createdAtErrors (erase (checkedChanges (d.changes q)) "revision") = some (errorUnless (decide (s ≤ t))
      ⟨.BAD_VALUE, "state.created_at", "new creation datetime is before old one"⟩) := by
  rw [between_date] at hd
  obtain hd := Option.some.inj hd
  by_cases hst : s = t
  · rw [if_pos hst] at hd
    simp [createdAtErrors, checkedChanges, Differences.changes, ← hd, errorUnless, hst]
  · rw [if_neg hst] at hd
    have hle : (!decide (t ≤ s)) = decide (s ≤ t) := by
      rw [← decide_not]
      exact decide_eq_decide.mpr (by omega)
    simp [createdAtErrors, checkedChanges, Differences.changes, ← hd, notLater, hle]

/-- The check of the state: nothing new, a creation time before the old one, and what the permissions leave. -/
theorem checkStateChange_differ {a b : Contract} {d : Differences} (h : Differ a b d) {q : ℚ} {s t : ℤ}
    (hs : a.state.createdAt = some s) (ht : b.state.createdAt = some t) (context : Option Context) :
    checkStateChange a b context (d.changes q) = (do
      let progress ← excludePermittedChanges b context a.definition.allPermissions
        ⟨d.left, b.revokingItems⟩
      let left ← forbidden progress.stateChanges
      return (identicalErrors d ++ errorUnless (decide (s ≤ t))
        ⟨.BAD_VALUE, "state.created_at", "new creation datetime is before old one"⟩ ++ left,
        progress.revokingItems)) := by
  have hcreated := h.created
  rw [hs, ht, dateValue, dateValue] at hcreated
  have hrevision : revisionErrors (checkedChanges (d.changes q)) = [] := by
    simp [revisionErrors, checkedChanges, Differences.changes, incremented, Number.succ, Number.eq,
      errorUnless]
  have hidentical : (keys (checkedChanges (d.changes q))).any (· ∉ insignificantKeys) =
      (d.owner.isSome || d.data.isSome) := by
    simp [checkedChanges, Differences.changes, insignificantKeys]
  have hleft : erase (erase (checkedChanges (d.changes q)) "revision") "created_at" = d.left := by
    simp [checkedChanges, Differences.changes, Differences.left]
  simp only [checkStateChange, hrevision, hidentical, hleft, createdAtErrors_changes hcreated,
    Option.bind_eq_bind, Option.bind_some, List.append_nil, identicalErrors]

end Universa.Contracts
