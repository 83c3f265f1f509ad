import Mathlib.Data.List.Basic
import Universa.Contracts.Constraints
import Universa.Lib.Run

/-! When `Contract.checkConstraints` judges a constraint by its matches, over repeated calls. A constraint that no
    role requires is to pass without an error iff some contract of the transaction matches it.

    The test of the origin is the wrong way round, an existing constraint keeps its matching items from call to
    call, and a transactional one stops at the first candidate and keeps the errors of those it tried before; it
    asks for a transactional id also where only a contract id is set. -/

namespace Universa.Contracts.Constraints

/-! ### Conditions -/

/-- Conditions as `checkConditions` goes through them: an object with `all_of`, else with `any_of`, a single
    condition, and an object with entries but none of these keys. -/
inductive Conditions (L : Type) where
  | empty
  | condition (l : L)
  | allOf (items : List (Conditions L))
  | anyOf (items : List (Conditions L))
  | unknown

/-- The object in `where`, with what it has as `length`. -/
structure Where (L : Type) where
  length : ℕ
  conditions : Conditions L

namespace Conditions
variable {L : Type} (leaf : L → Except Unit Bool)

mutual
/-- `checkConditions`, for the answers of `checkCondition`. -/
def check : Conditions L → Except Unit Bool
  | empty => .ok true
  | condition l => leaf l
  | allOf items => checkAll items
  | anyOf items => checkAny items
  | unknown => .error ()

/-- The items of `all_of`, until one fails. -/
def checkAll : List (Conditions L) → Except Unit Bool
  | [] => .ok true
  | item :: items => do if ← check item then checkAll items else return false

/-- The items of `any_of`, until one holds. -/
def checkAny : List (Conditions L) → Except Unit Bool
  | [] => .ok false
  | item :: items => do if ← check item then return true else checkAny items
end

mutual
/-- The boolean combination of the single conditions. -/
def Holds : Conditions L → Prop
  | empty => True
  | condition l => leaf l = .ok true
  | allOf items => AllHold items
  | anyOf items => AnyHolds items
  | unknown => False

def AllHold : List (Conditions L) → Prop
  | [] => True
  | item :: items => Holds item ∧ AllHold items

def AnyHolds : List (Conditions L) → Prop
  | [] => False
  | item :: items => Holds item ∨ AnyHolds items
end

mutual
/-- The answer is the boolean combination. -/
theorem check_holds : ∀ {c : Conditions L} {b : Bool}, c.check leaf = .ok b → (b = true ↔ c.Holds leaf)
  | empty, b, h => by
      obtain rfl := Except.ok.inj h
      simp [Holds]
  | condition l, b, h => by
      have h' : leaf l = .ok b := h
      rw [Holds, h']
      cases b <;> simp
  | allOf items, b, h => by
      rw [Holds]
      exact checkAll_holds h
  | anyOf items, b, h => by
      rw [Holds]
      exact checkAny_holds h
  | unknown, b, h => by cases h

theorem checkAll_holds : ∀ {items : List (Conditions L)} {b : Bool}, checkAll leaf items = .ok b →
    (b = true ↔ AllHold leaf items)
  | [], b, h => by
      obtain rfl := Except.ok.inj h
      simp [AllHold]
  | item :: items, b, h => by
      obtain ⟨first, hfirst, h⟩ := Except.bind_eq_ok.mp h
      rw [AllHold, ← check_holds hfirst]
      cases first with
      | false =>
          obtain rfl := Except.ok.inj h
          simp
      | true => simp [checkAll_holds h]

theorem checkAny_holds : ∀ {items : List (Conditions L)} {b : Bool}, checkAny leaf items = .ok b →
    (b = true ↔ AnyHolds leaf items)
  | [], b, h => by
      obtain rfl := Except.ok.inj h
      simp [AnyHolds]
  | item :: items, b, h => by
      obtain ⟨first, hfirst, h⟩ := Except.bind_eq_ok.mp h
      rw [AnyHolds, ← check_holds hfirst]
      cases first with
      | true =>
          obtain rfl := Except.ok.inj h
          simp
      | false => simp [checkAny_holds h]
end

end Conditions

/-- What `checkCondition` answers for a single condition, and the rest of a check's setup. -/
structure ConditionSetup (K A H L D : Type) where
  isMatch : A → K → Bool
  depth : ℕ
  checkCondition : L → Entry K A H (Where L) D → List String → Entry K A H (Where L) D →
    List (Entry K A H (Where L) D) → Except Unit Bool

/-- The check over these conditions. -/
def ConditionSetup.setup {K A H L D : Type} (s : ConditionSetup K A H L D) : CheckSetup K A H (Where L) D where
  isMatch := s.isMatch
  depth := s.depth
  conditionsLength := Where.length
  checkConditions w this valid contract contracts :=
    w.conditions.check fun l => s.checkCondition l this valid contract contracts

variable {K A H L D : Type}

/-! ### What a match is -/

/-- The turn of a constraint: the contract, the candidates, the role constraints found valid so far. -/
structure Turn (K A H L D : Type) where
  setup : ConditionSetup K A H L D
  this : Entry K A H (Where L) D
  tree : List (Entry K A H (Where L) D)
  valid : List String
  constraint : Constraint K A H (Where L)

namespace Turn
variable (t : Turn K A H L D) (n : Entry K A H (Where L) D)

/-- The candidate has one of the listed roles, if any. -/
def HasRole : Prop :=
  t.constraint.roles = [] ∨ ∃ role ∈ t.constraint.roles, role ∈ n.contract.roleNames

/-- The candidate has one of the listed fields, if any. -/
def HasField : Prop :=
  t.constraint.fields = [] ∨ ∃ field ∈ t.constraint.fields, field ∈ n.contract.dataFields

/-- The candidate has the constraint's origin, if set. -/
def HasOrigin : Prop := ∀ origin ∈ t.constraint.origin, n.getOrigin = origin

/-- The candidate has another origin than the constraint's, if set. -/
def LacksOrigin : Prop := ∀ origin ∈ t.constraint.origin, n.getOrigin ≠ origin

/-- What a condition answers for the candidate. -/
def leaf (l : L) : Except Unit Bool := t.setup.checkCondition l t.this t.valid n t.tree

/-- The candidate satisfies the conditions. -/
def Satisfies : Prop := ∀ w ∈ t.constraint.conditions, w.conditions.Holds (t.leaf n)

/-- The candidate has the named transactional id or contract id, if one is set. -/
def Named : Prop :=
  ((∃ id ∈ t.constraint.transactionalId, id ≠ "") ∨ t.constraint.contractId ≠ none) →
    (∃ id ∈ t.constraint.transactionalId, id ≠ "" ∧ n.transactionalId = some id) ∨
      t.constraint.contractId = some n.id

/-- A role of `signed_by` is played by the keys of the candidate. -/
def Signs : SignRole K A → Prop
  | .simple requires keys addresses => requires = [] ∧ (∀ key ∈ keys, key ∈ n.effectiveKeys) ∧
      ∀ address ∈ addresses, ∃ key ∈ n.effectiveKeys, t.setup.isMatch address key = true
  | .other answer => answer n.effectiveKeys = .ok true

/-- The candidate matches the constraint. -/
structure Matches : Prop where
  role : t.HasRole n
  origin : t.HasOrigin n
  field : t.HasField n
  satisfies : t.Satisfies n
  named : t.constraint.type = .TRANSACTIONAL → t.Named n
  signed : t.constraint.type = .TRANSACTIONAL → ∀ role ∈ t.constraint.signedBy, t.Signs n role

/-- Some contract among the candidates matches. -/
def Matched : Prop := ∃ n ∈ t.tree, t.Matches n

/-! ### What the check asks of a candidate -/

/-- What `isMatchingWith` asks: an origin other than the constraint's. -/
structure Seen : Prop where
  role : t.HasRole n
  origin : t.LacksOrigin n
  field : t.HasField n
  satisfies : t.Satisfies n

/-- The conditions, where they are reached, do not throw. -/
def Answers : Prop := t.HasRole n → t.LacksOrigin n → t.HasField n →
  ∀ w ∈ t.constraint.conditions, ∃ b, w.conditions.check (t.leaf n) = .ok b

section
variable [DecidableEq K] [DecidableEq H]

/-- A transactional constraint refers to the candidate. -/
def Refers : Prop := CheckSetup.refersTo t.constraint n = true

/-- What `checkOneConstraint` asks of a transactional constraint: both ids, the transactional one not empty,
    the origin, and the signatures, read from one iterator for each role. -/
structure Sound : Prop where
  transactionalId : ∃ id ∈ t.constraint.transactionalId, id ≠ "" ∧ n.transactionalId = some id
  contractId : ∀ id ∈ t.constraint.contractId, id = n.id
  origin : t.HasOrigin n
  signed : ∀ role ∈ t.constraint.signedBy, t.setup.setup.isSignedBy n role = .ok true

/-- The roles of `signed_by` do not throw. -/
def Reads : Prop := ∀ role ∈ t.constraint.signedBy, ∃ b, t.setup.setup.isSignedBy n role = .ok b

/-- `c.conditions.length > 0`: the conditions have an own `length`. -/
def Listed : Prop := t.setup.setup.hasConditionList t.constraint = true

/-- The loop of a transactional constraint stops at the candidate. -/
def Hit : Prop := ((t.Refers n ∧ t.Sound n) ∨ t.Listed) ∧ t.Seen n

/-- No step of that loop throws. -/
def Quiet : List (Entry K A H (Where L) D) → Prop
  | [] => True
  | n :: rest => (t.Refers n → t.Reads n) ∧ ((t.Refers n ∧ t.Sound n) ∨ t.Listed → t.Answers n) ∧
      (¬ t.Hit n → Quiet rest)

/-- A candidate stops the loop, and up to it none that the constraint refers to is unsound. -/
def Found : List (Entry K A H (Where L) D) → Prop
  | [] => False
  | n :: rest => (t.Refers n → t.Sound n) ∧ (t.Hit n ∨ Found rest)

/-- `P` holds of a candidate of the tree, and none before it is referred to and unsound. -/
def First (P : Entry K A H (Where L) D → Prop) (rest : List (Entry K A H (Where L) D)) : Prop :=
  ∃ before n after, rest = before ++ n :: after ∧ P n ∧ ∀ m ∈ before, t.Refers m → t.Sound m

omit [DecidableEq K] in
theorem isMatchingWith_true {b : Bool}
    (h : t.setup.setup.isMatchingWith t.this t.valid t.constraint n t.tree = .ok b) :
    b = true ↔ t.Seen n := by
  unfold CheckSetup.isMatchingWith at h
  split at h
  next htests =>
    obtain ⟨hrole, horigin, hfield⟩ := htests
    have hseen : t.Seen n ↔ t.Satisfies n := ⟨Seen.satisfies, fun hs => ⟨hrole, horigin, hfield, hs⟩⟩
    rw [hseen, Satisfies]
    cases hc : t.constraint.conditions with
    | none =>
        rw [hc] at h
        obtain rfl := Except.ok.inj h
        simp
    | some w =>
        rw [hc] at h
        have h' : w.conditions.check (t.leaf n) = .ok b := h
        simp [Conditions.check_holds _ h']
  next htests =>
    obtain rfl := Except.ok.inj h
    simp only [Bool.false_eq_true, false_iff]
    exact fun hs => htests ⟨hs.role, hs.origin, hs.field⟩

theorem mapM_all {X : Type} {f : X → Except Unit Bool} : ∀ {xs : List X} {ys : List Bool},
    xs.mapM f = .ok ys → ((ys.filter fun b => !b) = [] ↔ ∀ x ∈ xs, f x = .ok true)
  | [], ys, h => by
      obtain rfl := Except.ok.inj h
      simp
  | x :: xs, ys, h => by
      rw [List.mapM_cons] at h
      obtain ⟨b, hb, h⟩ := Except.bind_eq_ok.mp h
      obtain ⟨bs, hbs, h⟩ := Except.bind_eq_ok.mp h
      obtain rfl := Except.ok.inj h
      rw [List.forall_mem_cons, ← mapM_all hbs, hb]
      cases b <;> simp

theorem checkOneConstraint_sound (htype : t.constraint.type = .TRANSACTIONAL)
    {errors : List (ConstraintError H)}
    (h : t.setup.setup.checkOneConstraint t.this t.constraint n = .ok errors) :
    errors = [] ↔ t.Sound n := by
  obtain ⟨answers, hanswers, h⟩ := Except.bind_eq_ok.mp h
  obtain rfl := Except.ok.inj h
  have hsigned := mapM_all hanswers
  have hids : CheckSetup.transactionalErrors t.this t.constraint n = [] ↔
      ∃ id ∈ t.constraint.transactionalId, id ≠ "" ∧ n.transactionalId = some id := by
    unfold CheckSetup.transactionalErrors
    rw [if_pos htype]
    cases ht : t.constraint.transactionalId with
    | none => simp
    | some id =>
        cases hn : n.transactionalId with
        | none => simp
        | some id' =>
            by_cases he : id = ""
            · simp [he]
            by_cases heq : id' = id
            · simp [he, heq]
            · have heq' : id ≠ id' := fun h => heq h.symm
              by_cases he' : id' = "" <;> simp [he, he', heq, heq']
  rw [List.append_eq_nil_iff, List.append_eq_nil_iff, List.append_eq_nil_iff, hids, List.map_eq_nil_iff,
    hsigned]
  constructor
  · rintro ⟨⟨⟨h₁, h₂⟩, h₃⟩, h₄⟩
    refine ⟨h₁, ?_, ?_, h₄⟩
    · by_contra hno
      rw [if_neg hno] at h₂
      cases h₂
    · by_contra hno
      rw [if_neg] at h₃
      · cases h₃
      · exact fun hall => hno fun origin ho => (hall origin ho).symm
  · intro hs
    refine ⟨⟨⟨hs.transactionalId, if_pos hs.contractId⟩, if_pos ?_⟩, hs.signed⟩
    exact fun origin ho => (hs.origin origin ho).symm

/-! ### The loops -/

/-- The errors of one candidate in the loop of a transactional constraint. -/
def oneErrors : Except Unit (List (ConstraintError H)) :=
  if CheckSetup.refersTo t.constraint n then t.setup.setup.checkOneConstraint t.this t.constraint n else .ok []

/-- Whether it is a match, after these errors. -/
def oneMatch (errors : List (ConstraintError H)) : Except Unit Bool :=
  if (CheckSetup.refersTo t.constraint n && errors.isEmpty) || t.setup.setup.hasConditionList t.constraint then
    t.setup.setup.isMatchingWith t.this t.valid t.constraint n t.tree else .ok false

/-- What the loop of a transactional constraint computes for one candidate. -/
def tryOne : Except Unit (List (ConstraintError H) × Bool) := do
  let errors ← t.oneErrors n
  let isMatch ← t.oneMatch n errors
  return (errors, isMatch)

/-- The loop goes on where a candidate is no match. -/
theorem seekNeighbour_cons {rest : List (Entry K A H (Where L) D)} :
    t.setup.setup.seekNeighbour t.this t.valid t.constraint t.tree (n :: rest) = (do
      let (errors, isMatch) ← t.tryOne n
      if isMatch then
        return (true, errors, { t.constraint with matchingItems := t.constraint.matchingItems ++ [n.id] })
      else do
        let (check, errors', c) ← t.setup.setup.seekNeighbour t.this t.valid t.constraint t.tree rest
        return (check, errors ++ errors', c)) := by
  rw [CheckSetup.seekNeighbour, tryOne, oneErrors]
  cases hrefers : CheckSetup.refersTo t.constraint n with
  | true =>
      cases t.setup.setup.checkOneConstraint t.this t.constraint n with
      | error e => rfl
      | ok errors =>
          cases hin : errors.isEmpty || t.setup.setup.hasConditionList t.constraint with
          | false => simp [oneMatch, hrefers, bind, Except.bind, hin, pure, Except.pure]
          | true =>
              cases hmatch : t.setup.setup.isMatchingWith t.this t.valid t.constraint n t.tree <;>
                simp [oneMatch, hrefers, bind, Except.bind, hin, hmatch, pure, Except.pure]
  | false =>
      cases hin : t.setup.setup.hasConditionList t.constraint with
      | false => simp [oneMatch, hrefers, bind, Except.bind, hin, pure, Except.pure]
      | true =>
          cases hmatch : t.setup.setup.isMatchingWith t.this t.valid t.constraint n t.tree <;>
            simp [oneMatch, hrefers, bind, Except.bind, hin, hmatch, pure, Except.pure]

/-- Errors and match of one candidate. -/
theorem tryOne_result (htype : t.constraint.type = .TRANSACTIONAL) {errors : List (ConstraintError H)}
    {isMatch : Bool} (h : t.tryOne n = .ok (errors, isMatch)) :
    (errors = [] ↔ (t.Refers n → t.Sound n)) ∧ (isMatch = true ↔ t.Hit n) := by
  obtain ⟨found, hfound, h⟩ := Except.bind_eq_ok.mp h
  obtain ⟨b, hb, h⟩ := Except.bind_eq_ok.mp h
  obtain ⟨rfl, rfl⟩ := Prod.mk.inj (Except.ok.inj h)
  have herrors : found = [] ↔ (t.Refers n → t.Sound n) := by
    unfold Refers
    unfold oneErrors at hfound
    split at hfound
    next hrefers => rw [t.checkOneConstraint_sound n htype hfound]; simp [hrefers]
    next hrefers =>
      obtain rfl := Except.ok.inj hfound
      simp [hrefers]
  refine ⟨herrors, ?_⟩
  have henters : (CheckSetup.refersTo t.constraint n && found.isEmpty ||
      t.setup.setup.hasConditionList t.constraint) = true ↔ (t.Refers n ∧ t.Sound n) ∨ t.Listed := by
    rw [Bool.or_eq_true, Bool.and_eq_true, List.isEmpty_iff, herrors, Listed, Refers]
    tauto
  rw [Hit, ← henters]
  unfold oneMatch at hb
  split at hb
  next henter => simp [henter, t.isMatchingWith_true n hb]
  next henter =>
    obtain rfl := Except.ok.inj hb
    simp [henter]

/-- The loop of a transactional constraint ends with a match and without errors iff a candidate is found. -/
theorem seekNeighbour_found (htype : t.constraint.type = .TRANSACTIONAL) :
    ∀ {rest : List (Entry K A H (Where L) D)} {found : Bool} {errors : List (ConstraintError H)}
      {c : Constraint K A H (Where L)},
      t.setup.setup.seekNeighbour t.this t.valid t.constraint t.tree rest = .ok (found, errors, c) →
      (found = true ∧ errors = [] ↔ t.Found rest)
  | [], found, errors, c, h => by
      obtain ⟨rfl, rfl, rfl⟩ := by simpa using Except.ok.inj h
      simp [Found]
  | n :: rest, found, errors, c, h => by
      rw [seekNeighbour_cons] at h
      obtain ⟨⟨first, isMatch⟩, hone, h⟩ := Except.bind_eq_ok.mp h
      obtain ⟨herrors, hhit⟩ := t.tryOne_result n htype hone
      rw [Found, ← herrors, ← hhit]
      cases isMatch with
      | true =>
          obtain ⟨rfl, rfl, rfl⟩ := by simpa using Except.ok.inj h
          simp
      | false =>
          obtain ⟨⟨check, errors', c'⟩, hrest, h⟩ := Except.bind_eq_ok.mp h
          obtain ⟨rfl, rfl, rfl⟩ := by simpa using Except.ok.inj h
          rw [← seekNeighbour_found htype hrest, List.append_eq_nil_iff]
          simp only [Bool.false_eq_true, false_or]
          tauto

/-- The turn ends without an exception. -/
def Ends : Prop :=
  match t.constraint.type with
  | .TRANSACTIONAL => t.Quiet t.tree
  | _ => ∀ n ∈ t.tree, t.Answers n

/-- The constraint is judged by its matches. A transactional one: if some candidate matches, no origin is set,
    and one that matches is sound, with none before it that is referred to and unsound; if the conditions
    have an own `length`, some candidate matches iff one meets the tests but for ids and signatures, with
    none up to it that is referred to and unsound. An existing one: if it has matching items from before,
    some candidate matches now, and if it has none and an origin is set, some candidate with another origin
    meets the rest iff one with that origin does. -/
def Judged : Prop :=
  match t.constraint.type with
  | .TRANSACTIONAL =>
      (¬ t.Listed → t.Matched →
        t.constraint.origin = none ∧ t.First (fun n => t.Matches n ∧ t.Sound n) t.tree) ∧
      (t.Listed → (t.Matched ↔ t.First (fun n => t.Seen n ∧ (t.Refers n → t.Sound n)) t.tree))
  | _ => (t.constraint.matchingItems ≠ [] → t.Matched) ∧
      (t.constraint.matchingItems = [] → ∀ _origin ∈ t.constraint.origin, (∃ n ∈ t.tree, t.Seen n) ↔ t.Matched)

/-- Sound candidates are referred to. -/
theorem Sound.refers {n : Entry K A H (Where L) D} (h : t.Sound n) : t.Refers n := by
  obtain ⟨id, hid, hne, heq⟩ := h.transactionalId
  simp [Refers, CheckSetup.refersTo, Option.mem_def.mp hid, heq]

/-- The turn answers, and where the constraint is checked for itself it ends without an error iff some
    candidate matches. -/
def Right (roleConstraintsOnly : Bool) : Prop :=
  ∃ checked, t.setup.setup.checkConstraint roleConstraintsOnly t.this t.tree t.valid t.constraint = .ok checked ∧
    (roleConstraintsOnly = false → t.this.contract.roleConstraint t.setup.depth t.constraint.name = .ok false →
      (checked.errors = [] ↔ t.Matched))

/-- Whether roles require the constraint is answered; where it has a turn the turn ends, and where no role
    requires it it is judged by its matches. -/
def Fits (roleConstraintsOnly : Bool) : Prop :=
  ∃ role, t.this.contract.roleConstraint t.setup.depth t.constraint.name = .ok role ∧
    ((roleConstraintsOnly && !role) = true ∨ (t.Ends ∧ (role = false → t.Judged)))

end

end Turn

/-! ### Calls one after another -/

/-- A call of `checkConstraints`: the contract as it is then, but for its constraints, and the tree. -/
structure Call (K A H L D : Type) where
  this : Entry K A H (Where L) D
  contractsTree : List (Entry K A H (Where L) D)
  roleConstraintsOnly : Bool

namespace Call
variable [DecidableEq K] [DecidableEq H] (s : ConditionSetup K A H L D) (call : Call K A H L D)

/-- The contract with its constraints as the calls before have left them. -/
def entry (m : List (String × Constraint K A H (Where L))) : Entry K A H (Where L) D :=
  { call.this with contract := { call.this.contract with constraints := m } }

/-- The turn of a constraint in the call. -/
def turn (m : List (String × Constraint K A H (Where L))) (valid : List String)
    (c : Constraint K A H (Where L)) : Turn K A H L D :=
  ⟨s, call.entry m, call.contractsTree, valid, c⟩

/-- The constraints after the call, with the matching items it left. -/
def step (m : List (String × Constraint K A H (Where L))) (call : Call K A H L D) :
    Option (List (String × Constraint K A H (Where L))) :=
  match s.setup.checkConstraints call.roleConstraintsOnly (call.entry m) call.contractsTree with
  | .ok checked => some ((m.map Prod.fst).zip checked.constraints)
  | .error _ => none

/-- A property of every turn of the call, in their order. -/
def EachTurn (P : Turn K A H L D → Prop) (m : List (String × Constraint K A H (Where L))) :
    List (Constraint K A H (Where L)) → List String → Prop
  | [], _ => True
  | c :: cs, valid => P (call.turn s m valid c) ∧
      ∀ first, s.setup.checkConstraint call.roleConstraintsOnly (call.entry m) call.contractsTree valid c =
        .ok first → EachTurn P m cs first.validRoleConstraints

/-- Every turn of the call is right. -/
def Right (m : List (String × Constraint K A H (Where L))) (call : Call K A H L D) : Prop :=
  call.EachTurn s (fun t => t.Right call.roleConstraintsOnly) m (m.map Prod.snd) []

/-- Every turn of the call fits. -/
def Fits (m : List (String × Constraint K A H (Where L))) (call : Call K A H L D) : Prop :=
  call.EachTurn s (fun t => t.Fits call.roleConstraintsOnly) m (m.map Prod.snd) []

/-- A call whose turns are right returns. -/
theorem right_returns {m : List (String × Constraint K A H (Where L))} (h : call.Right s m) :
    ∃ m', step s m call = some m' := by
  have hloop : ∀ {cs : List (Constraint K A H (Where L))} {valid : List String},
      call.EachTurn s (fun t => t.Right call.roleConstraintsOnly) m cs valid →
      ∃ checked, s.setup.checkEach call.roleConstraintsOnly (call.entry m) call.contractsTree cs valid =
        .ok checked := by
    intro cs
    induction cs with
    | nil => exact fun _ => ⟨_, rfl⟩
    | cons c cs ih =>
        rintro valid ⟨⟨first, hfirst, -⟩, hrest⟩
        obtain ⟨rest, hrest⟩ := ih (hrest first hfirst)
        exact ⟨_, Except.bind_eq_ok.mpr ⟨first, hfirst, Except.bind_eq_ok.mpr ⟨rest, hrest, rfl⟩⟩⟩
  obtain ⟨checked, hchecked⟩ := hloop h
  have hcall : s.setup.checkConstraints call.roleConstraintsOnly (call.entry m) call.contractsTree =
      .ok checked := hchecked
  exact ⟨_, by rw [step, hcall]⟩

end Call

/-! ### A constraint with an origin -/

end Universa.Contracts.Constraints
