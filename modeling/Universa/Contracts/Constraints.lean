import Mathlib.Data.List.Induction
import Universa.Contracts.Roles
import Universa.Lib.Comp

/-! The check of a contract's constraints against the contracts of its transaction (`Contract.checkConstraints`), and
    the map in which a contract keeps them by name. Conditions enter by what `checkConditions` answers. A throw is
    an error, and so is a recursion that is deeper than the stack.

    Keys are read from the iterator `effectiveKeys.keys()`: each role of `signed_by` gets a new one, and a simple
    role with two keys reads on where it found the first. -/

namespace Universa.Contracts.Constraints

/-! ### Constraints and contracts -/

/-- `Constraint.TYPE_…`. -/
inductive ConstraintType where
  | TRANSACTIONAL
  | EXISTING_DEFINITION
  | EXISTING_STATE
  deriving DecidableEq

/-- A role of `signed_by`, which is of no contract. One that is not simple enters by its answer for some keys. -/
inductive SignRole (K A : Type) where
  | simple (requires : List String) (keys : List K) (addresses : List A)
  | other (answer : List K → Except Unit Bool)

/-- `Constraint`. Its conditions are `{}` where it has `none`, and `matchingItems` are the ids of the contracts. -/
structure Constraint (K A H C : Type) where
  name : String
  type : ConstraintType
  transactionalId : Option String
  contractId : Option H
  origin : Option H
  signedBy : List (SignRole K A)
  fields : List String
  roles : List String
  conditions : Option C
  matchingItems : List H

/-- `Transactional`. -/
structure Transactional (K A H C : Type) where
  id : Option String
  constraints : List (Constraint K A H C)

/-- What `checkConstraints` reads of a contract: roles are numbered as they are made, `body` is what only conditions
    read, and `constraints` is the map from names. -/
structure Contract (K A H C D : Type) where
  graph : RoleGraph K A ℕ
  roleCount : ℕ
  roleNames : List String
  stateRoleNames : List String
  permissionRoles : List ℕ
  origin : Option H
  dataFields : List String
  body : D
  transactional : Option (Transactional K A H C)
  definitionConstraints : List (Constraint K A H C)
  stateConstraints : List (Constraint K A H C)
  constraints : List (String × Constraint K A H C)

/-- A contract in a transaction: with its id, and the keys of all signatures that are good for it. -/
structure Entry (K A H C D : Type) where
  contract : Contract K A H C D
  id : H
  effectiveKeys : List K
  keysDiffer : effectiveKeys.Nodup

/-- An `ErrorRecord` with the `objectName` "contract (hashId=…)". -/
structure ConstraintError (H : Type) where
  error : String
  contract : H
  message : String
  deriving DecidableEq

/-- The address check, the depth of the stack, and what conditions are: their `length`, where there is one, and the
    answer of `checkConditions` for the contract of the constraint, with the role constraints of it that were found
    valid so far, another contract and all contracts. -/
structure CheckSetup (K A H C D : Type) where
  isMatch : A → K → Bool
  depth : ℕ
  conditionsLength : C → ℕ
  checkConditions : C → Entry K A H C D → List String → Entry K A H C D → List (Entry K A H C D) → Except Unit Bool

variable {K A H C D : Type}

/-! ### The map of constraints -/

/-- `constraints.set(c.name, c)`. -/
def setConstraint (m : List (String × Constraint K A H C)) (c : Constraint K A H C) :
    List (String × Constraint K A H C) :=
  if c.name ∈ m.map Prod.fst then m.map fun p => if p.1 = c.name then (c.name, c) else p else m ++ [(c.name, c)]

/-- Its loop over some constraints. -/
def setConstraints (m : List (String × Constraint K A H C)) (cs : List (Constraint K A H C)) :
    List (String × Constraint K A H C) := cs.foldl setConstraint m

/-- The last constraint of a name. -/
def lastNamed (name : String) (cs : List (Constraint K A H C)) : Option (Constraint K A H C) :=
  (cs.filter fun c => c.name = name).getLast?

/-- A constraint as it is read back from its data, with no matching items. -/
def Constraint.fresh (c : Constraint K A H C) : Constraint K A H C := { c with matchingItems := [] }

/-- The sub-roles of a list, as roles that have no contract. -/
def unpackedKind : RoleKind K A ℕ → RoleKind K A ℕ
  | .list mode roles => .list mode (roles.map fun r => 2 * r + 1)
  | kind => kind

/-- Roles as they are unpacked: a role `r` is at `2 * r` as one of the contract, and at `2 * r + 1` as a sub-role, which
    has no contract. -/
def unpacked (g : RoleGraph K A ℕ) : RoleGraph K A ℕ where
  role n := { g.role (n / 2) with hasContract := decide (n % 2 = 0), kind := unpackedKind (g.role (n / 2)).kind }
  roles name := (g.roles name).map fun r => 2 * r
  stateRoles name := (g.stateRoles name).map fun r => 2 * r
  validRoleConstraints := []
  isMatch := g.isMatch

namespace Contract

/-- The constraints of the sections in the order in which `deserialize` sets them. -/
def sectionConstraints (c : Contract K A H C D) : List (Constraint K A H C) :=
  (c.transactional.map Transactional.constraints).getD [] ++ c.definitionConstraints ++ c.stateConstraints

/-- `copy()`, as packing and unpacking does it. -/
def copy (c : Contract K A H C D) : Contract K A H C D :=
  { c with
    graph := unpacked c.graph
    roleCount := 2 * c.roleCount
    permissionRoles := c.permissionRoles.map fun r => 2 * r
    transactional := c.transactional.map fun t => { t with constraints := t.constraints.map Constraint.fresh }
    definitionConstraints := c.definitionConstraints.map Constraint.fresh
    stateConstraints := c.stateConstraints.map Constraint.fresh
    constraints := setConstraints [] (c.sectionConstraints.map Constraint.fresh) }

/-- `addConstraint(c)`, of a transactional constraint to a contract that has the section. -/
def addConstraint (added : Constraint K A H C) (c : Contract K A H C D) : Contract K A H C D :=
  { c with
    transactional := c.transactional.map fun t => { t with constraints := t.constraints ++ [added] }
    constraints := setConstraint c.constraints added }

/-- `registerRole(role)`, of a predefined role. -/
def registerRole (name : String) (role : RoleNode K A ℕ) (c : Contract K A H C D) : Contract K A H C D :=
  { c with
    graph := { c.graph with
      role := fun r => if r = c.roleCount then role else c.graph.role r
      roles := fun n => if n = name then some c.roleCount else c.graph.roles n }
    roleCount := c.roleCount + 1
    roleNames := if name ∈ c.roleNames then c.roleNames else c.roleNames ++ [name] }

/-- Whether a role or the role of a permission requires the constraint, asked in turn. -/
def roleConstraint (depth : ℕ) (name : String) (c : Contract K A H C D) : Except Unit Bool :=
  let asked := c.roleNames.filterMap c.graph.roles ++ c.stateRoleNames.filterMap c.graph.stateRoles ++
    c.permissionRoles
  (RoleGraph.anyContains (c.graph.containConstraint name depth) asked).getD (.error ())

/-- `transactional.id`, where there is one. -/
def transactionalId (c : Contract K A H C D) : Option String := c.transactional.bind Transactional.id

end Contract

namespace Entry

/-- The transactional id of its contract. -/
def transactionalId (e : Entry K A H C D) : Option String := e.contract.transactionalId

/-- `getOrigin()`. -/
def getOrigin (e : Entry K A H C D) : H := e.contract.origin.getD e.id

end Entry

/-! ### The check -/

namespace CheckSetup
variable [DecidableEq K] [DecidableEq H] (setup : CheckSetup K A H C D)

/-- What the keys and addresses of a simple role look for. -/
def wanted (keys : List K) (addresses : List A) : List (K → Bool) :=
  keys.map (fun key k => decide (k = key)) ++ addresses.map setup.isMatch

/-- `isSignedBy(role)`. -/
def isSignedBy (e : Entry K A H C D) : SignRole K A → Except Unit Bool
  | .simple requires keys addresses =>
      .ok (requires.isEmpty && (RoleGraph.readAll .iterator (setup.wanted keys addresses) e.effectiveKeys).1)
  | .other answer => answer e.effectiveKeys

/-- The first of the checks in `checkOneConstraint`. -/
def transactionalErrors (this : Entry K A H C D) (c : Constraint K A H C) (ref : Entry K A H C D) :
    List (ConstraintError H) :=
  if c.type = .TRANSACTIONAL then
    if c.transactionalId = none ∨ ref.transactionalId = none ∨ c.transactionalId = some "" ∨
        ref.transactionalId = some "" then
      [⟨"BAD_REF", this.id, "transactional is missing"⟩]
    else if c.transactionalId ≠ ref.transactionalId then [⟨"BAD_REF", this.id, "transactional_id mismatch"⟩]
    else []
  else []

/-- `checkOneConstraint(c, refContract)`: it is good where it has no errors. -/
def checkOneConstraint (this : Entry K A H C D) (c : Constraint K A H C) (ref : Entry K A H C D) :
    Except Unit (List (ConstraintError H)) := do
  let contractId := if ∀ id ∈ c.contractId, id = ref.id then []
    else [⟨"BAD_REF", this.id, "contract_id mismatch"⟩]
  let origin := if ∀ id ∈ c.origin, id = ref.getOrigin then [] else [⟨"BAD_REF", this.id, "origin mismatch"⟩]
  let answers ← c.signedBy.mapM (setup.isSignedBy ref)
  let signatures := (answers.filter fun signed => !signed).map fun _ =>
    ⟨"BAD_SIGNATURE", this.id, "fingerprint mismatch"⟩
  return transactionalErrors this c ref ++ contractId ++ origin ++ signatures

/-- `isMatchingWith(contract, contracts)`: an origin is one that the contract must not have. -/
def isMatchingWith (this : Entry K A H C D) (valid : List String) (c : Constraint K A H C)
    (contract : Entry K A H C D) (contracts : List (Entry K A H C D)) : Except Unit Bool :=
  if (c.roles = [] ∨ ∃ role ∈ c.roles, role ∈ contract.contract.roleNames) ∧
      (∀ origin ∈ c.origin, contract.getOrigin ≠ origin) ∧
      (c.fields = [] ∨ ∃ field ∈ c.fields, field ∈ contract.contract.dataFields) then
    match c.conditions with
    | none => .ok true
    | some conditions => setup.checkConditions conditions this valid contract contracts
  else .ok false

/-- A transactional constraint refers to a neighbour by its transactional id or by its id. -/
def refersTo (c : Constraint K A H C) (neighbour : Entry K A H C D) : Bool :=
  decide ((∃ id ∈ c.transactionalId, neighbour.transactionalId = some id) ∨ c.contractId = some neighbour.id)

/-- `c.conditions.length > 0`. -/
def hasConditionList (c : Constraint K A H C) : Bool := decide (∃ cs ∈ c.conditions, 0 < setup.conditionsLength cs)

/-- The loop of a transactional constraint over the neighbours, until one matches. -/
def seekNeighbour (this : Entry K A H C D) (valid : List String) (c : Constraint K A H C)
    (neighbours : List (Entry K A H C D)) : List (Entry K A H C D) →
      Except Unit (Bool × List (ConstraintError H) × Constraint K A H C)
  | [] => .ok (false, [], c)
  | neighbour :: rest => do
      let refers := refersTo c neighbour
      let errors ← if refers then setup.checkOneConstraint this c neighbour else .ok []
      let isMatch ← if (refers && errors.isEmpty) || setup.hasConditionList c then
        setup.isMatchingWith this valid c neighbour neighbours else .ok false
      if isMatch then return (true, errors, { c with matchingItems := c.matchingItems ++ [neighbour.id] })
      else do
        let (check, errors', c) ← seekNeighbour this valid c neighbours rest
        return (check, errors ++ errors', c)

/-- The loop of an existing constraint over the neighbours, which adds all that match. -/
def matchNeighbours (this : Entry K A H C D) (valid : List String) (c : Constraint K A H C)
    (neighbours : List (Entry K A H C D)) : List (Entry K A H C D) → Except Unit (Constraint K A H C)
  | [] => .ok c
  | neighbour :: rest => do
      let isMatch ← setup.isMatchingWith this valid c neighbour neighbours
      let c := if isMatch then { c with matchingItems := c.matchingItems ++ [neighbour.id] } else c
      matchNeighbours this valid c neighbours rest

/-- The part of a constraint's turn that sets `c_check`, with the errors it adds. -/
def matchConstraint (this : Entry K A H C D) (valid : List String) (neighbours : List (Entry K A H C D))
    (c : Constraint K A H C) : Except Unit (Bool × List (ConstraintError H) × Constraint K A H C) :=
  match c.type with
  | .TRANSACTIONAL => setup.seekNeighbour this valid c neighbours neighbours
  | .EXISTING_DEFINITION | .EXISTING_STATE => do
      let c ← setup.matchNeighbours this valid c neighbours neighbours
      return (!c.matchingItems.isEmpty, [], c)

/-- What comes of a constraint's turn, and of all: the constraints are as they are left. -/
structure Checked (K A H C : Type) where
  valid : Bool
  errors : List (ConstraintError H)
  validRoleConstraints : List String
  constraints : List (Constraint K A H C)

/-- The turn of a constraint. -/
def checkConstraint (roleConstraintsOnly : Bool) (this : Entry K A H C D) (neighbours : List (Entry K A H C D))
    (valid : List String) (c : Constraint K A H C) : Except Unit (Checked K A H C) := do
  let roleConstraint ← this.contract.roleConstraint setup.depth c.name
  if roleConstraintsOnly && !roleConstraint then return ⟨true, [], valid, [c]⟩
  else do
    let (check, errors, c) ← setup.matchConstraint this valid neighbours c
    if check then return ⟨true, errors, if roleConstraint then valid ++ [c.name] else valid, [c]⟩
    else if roleConstraint then return ⟨true, errors, valid, [c]⟩
    else
      let failed : ConstraintError H := ⟨"FAILED_CHECK", this.id, "checkConstraints return false"⟩
      return ⟨false, errors ++ [failed], valid, [c]⟩

/-- The loop over the constraints. -/
def checkEach (roleConstraintsOnly : Bool) (this : Entry K A H C D) (neighbours : List (Entry K A H C D)) :
    List (Constraint K A H C) → List String → Except Unit (Checked K A H C)
  | [], valid => .ok ⟨true, [], valid, []⟩
  | c :: cs, valid => do
      let first ← setup.checkConstraint roleConstraintsOnly this neighbours valid c
      let rest ← checkEach roleConstraintsOnly this neighbours cs first.validRoleConstraints
      return ⟨first.valid && rest.valid, first.errors ++ rest.errors, rest.validRoleConstraints,
        first.constraints ++ rest.constraints⟩

/-- `checkConstraints(contractsTree, roleConstraintsOnly)`. -/
def checkConstraints (roleConstraintsOnly : Bool) (this : Entry K A H C D)
    (contractsTree : List (Entry K A H C D)) : Except Unit (Checked K A H C) :=
  setup.checkEach roleConstraintsOnly this contractsTree (this.contract.constraints.map Prod.snd) []

/-- `checkConstraints` returns true for an entry. -/
def Passes (this : Entry K A H C D) (contractsTree : List (Entry K A H C D)) : Prop :=
  ∃ checked, setup.checkConstraints false this contractsTree = .ok checked ∧ checked.valid = true

/-- So does the turn of one constraint. -/
def ConstraintPasses (this : Entry K A H C D) (contractsTree : List (Entry K A H C D)) (valid : List String)
    (c : Constraint K A H C) : Prop :=
  ∃ checked, setup.checkConstraint false this contractsTree valid c = .ok checked ∧ checked.valid = true

end CheckSetup

/-! ### Constraints by name -/

theorem mem_setConstraint {m : List (String × Constraint K A H C)} {c : Constraint K A H C}
    {p : String × Constraint K A H C} :
    p ∈ setConstraint m c ↔ p = (c.name, c) ∨ (p.1 ≠ c.name ∧ p ∈ m) := by
  rw [setConstraint]
  split
  · rename_i hmem
    rw [List.mem_map]
    constructor
    · rintro ⟨q, hq, rfl⟩
      split
      · exact Or.inl rfl
      · rename_i hne
        exact Or.inr ⟨hne, hq⟩
    · rintro (rfl | ⟨hne, hp⟩)
      · obtain ⟨q, hq, hname⟩ := List.mem_map.mp hmem
        exact ⟨q, hq, if_pos hname⟩
      · exact ⟨p, hp, if_neg hne⟩
  · rename_i hmem
    rw [List.mem_append, List.mem_singleton]
    constructor
    · rintro (hp | rfl)
      · exact Or.inr ⟨fun hname => hmem (hname ▸ List.mem_map_of_mem hp), hp⟩
      · exact Or.inl rfl
    · rintro (rfl | ⟨-, hp⟩)
      · exact Or.inr rfl
      · exact Or.inl hp

theorem lastNamed_concat (name : String) (cs : List (Constraint K A H C)) (c : Constraint K A H C) :
    lastNamed name (cs ++ [c]) = if c.name = name then some c else lastNamed name cs := by
  by_cases hname : c.name = name <;> simp [lastNamed, hname]

/-- Of the constraints of a name the last is kept. -/
theorem mem_setConstraints {m : List (String × Constraint K A H C)} {cs : List (Constraint K A H C)}
    {p : String × Constraint K A H C} : p ∈ setConstraints m cs ↔
      lastNamed p.1 cs = some p.2 ∨ (lastNamed p.1 cs = none ∧ p ∈ m) := by
  induction cs using List.reverseRecOn with
  | nil => simp [setConstraints, lastNamed]
  | append_singleton cs c ih =>
      have hset : setConstraints m (cs ++ [c]) = setConstraint (setConstraints m cs) c := by
        simp [setConstraints]
      rw [hset, mem_setConstraint, ih, lastNamed_concat]
      obtain ⟨name, c'⟩ := p
      by_cases hname : c.name = name
      · subst hname
        simp [eq_comm]
      · simp [hname, Ne.symm hname]

theorem lastNamed_eq_some {name : String} {cs : List (Constraint K A H C)} {c : Constraint K A H C}
    (h : lastNamed name cs = some c) : c ∈ cs ∧ c.name = name := by
  simpa using List.mem_of_getLast? h

/-! ### The loop over the constraints -/

namespace CheckSetup
variable [DecidableEq K] [DecidableEq H] (setup : CheckSetup K A H C D)

theorem constraintPasses_of_passes {e : Entry K A H C D} {tree : List (Entry K A H C D)} (h : setup.Passes e tree)
    {name : String} {c : Constraint K A H C} (hc : (name, c) ∈ e.contract.constraints) :
    ∃ valid, setup.ConstraintPasses e tree valid c := by
  have hloop : ∀ (cs : List (Constraint K A H C)) (valid : List String) (checked : Checked K A H C),
      setup.checkEach false e tree cs valid = .ok checked → checked.valid = true → c ∈ cs →
        ∃ valid, setup.ConstraintPasses e tree valid c := by
    intro cs
    induction cs with
    | nil => simp
    | cons c' cs ih =>
        intro valid checked hok hvalid hmem
        rw [checkEach] at hok
        obtain ⟨first, hfirst, hok⟩ := Except.bind_eq_ok.mp hok
        obtain ⟨rest, hrest, hok⟩ := Except.bind_eq_ok.mp hok
        obtain rfl := Except.ok.inj hok
        obtain ⟨hvalid, hvalid'⟩ := Bool.and_eq_true_iff.mp hvalid
        rcases List.mem_cons.mp hmem with rfl | hmem
        · exact ⟨valid, first, hfirst, hvalid⟩
        · exact ih _ rest hrest hvalid' hmem
  obtain ⟨checked, hok, hvalid⟩ := h
  exact hloop _ _ checked hok hvalid (List.mem_map_of_mem hc)

theorem passes_of_constraintPasses {e : Entry K A H C D} {tree : List (Entry K A H C D)}
    (h : ∀ p ∈ e.contract.constraints, ∀ valid, setup.ConstraintPasses e tree valid p.2) : setup.Passes e tree := by
  have hloop : ∀ (cs : List (Constraint K A H C)) (valid : List String),
      (∀ c ∈ cs, ∀ valid, setup.ConstraintPasses e tree valid c) →
        ∃ checked, setup.checkEach false e tree cs valid = .ok checked ∧ checked.valid = true := by
    intro cs
    induction cs with
    | nil => exact fun valid _ => ⟨_, rfl, rfl⟩
    | cons c cs ih =>
        intro valid hcs
        obtain ⟨hc, hcs⟩ := List.forall_mem_cons.mp hcs
        obtain ⟨first, hfirst, hvalid⟩ := hc valid
        obtain ⟨rest, hrest, hvalid'⟩ := ih first.validRoleConstraints hcs
        have hok : setup.checkEach false e tree (c :: cs) valid = .ok ⟨first.valid && rest.valid,
            first.errors ++ rest.errors, rest.validRoleConstraints, first.constraints ++ rest.constraints⟩ :=
          Except.bind_eq_ok.mpr ⟨first, hfirst, Except.bind_eq_ok.mpr ⟨rest, hrest, rfl⟩⟩
        exact ⟨_, hok, Bool.and_eq_true_iff.mpr ⟨hvalid, hvalid'⟩⟩
  refine hloop _ [] fun c hc => ?_
  obtain ⟨p, hp, rfl⟩ := List.mem_map.mp hc
  exact h p hp

/-- A constraint that is not of a role passes just by a match. -/
theorem matched_of_constraintPasses {e : Entry K A H C D} {tree : List (Entry K A H C D)} {valid : List String}
    {c : Constraint K A H C} (h : setup.ConstraintPasses e tree valid c)
    (hrole : e.contract.roleConstraint setup.depth c.name ≠ .ok true) :
    ∃ errors c', setup.matchConstraint e valid tree c = .ok (true, errors, c') := by
  obtain ⟨checked, hok, hvalid⟩ := h
  obtain ⟨role, hasked, hok⟩ := Except.bind_eq_ok.mp hok
  cases role with
  | true => exact absurd hasked hrole
  | false =>
      obtain ⟨⟨check, errors, c'⟩, hmatch, hok⟩ := Except.bind_eq_ok.mp hok
      cases check with
      | true => exact ⟨errors, c', hmatch⟩
      | false =>
          obtain rfl := Except.ok.inj hok
          exact absurd hvalid Bool.false_ne_true

/-- A match has it pass, and one of a role passes without. -/
theorem constraintPasses_of_match {e : Entry K A H C D} {tree : List (Entry K A H C D)} {valid : List String}
    {c : Constraint K A H C} {role check : Bool} {errors : List (ConstraintError H)} {c' : Constraint K A H C}
    (hrole : e.contract.roleConstraint setup.depth c.name = .ok role)
    (hmatch : setup.matchConstraint e valid tree c = .ok (check, errors, c')) (h : role = true ∨ check = true) :
    setup.ConstraintPasses e tree valid c := by
  have hturn : setup.checkConstraint false e tree valid c =
      if check then .ok ⟨true, errors, if role then valid ++ [c'.name] else valid, [c']⟩
      else if role then .ok ⟨true, errors, valid, [c']⟩
      else .ok ⟨false, errors ++ [⟨"FAILED_CHECK", e.id, "checkConstraints return false"⟩], valid, [c']⟩ := by
    rw [checkConstraint, hrole]
    show (setup.matchConstraint e valid tree c).bind _ = _
    rw [hmatch]
    rfl
  cases check with
  | true => exact ⟨_, hturn, rfl⟩
  | false =>
      obtain rfl := h.resolve_right Bool.false_ne_true
      exact ⟨_, hturn, rfl⟩

end CheckSetup

end Universa.Contracts.Constraints
