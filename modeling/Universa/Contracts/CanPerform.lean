import Universa.Contracts.InternalConstraints

/-! Evaluation of conditions and the keys of the checking context. `can_perform` with a left operand other than
    `this` is to set `constraintContextKeys` of every contract of the transaction pack, to check the role, and
    to set them back.

    `Contract.setConstraintContextKeys` calls `forEach` of what `Map.values()` returns. That is an iterator, and
    in the engine of this code (V8 8.0) an iterator has no `forEach`: the call throws between the clearing of
    `validRoleConstraints` and the assignment. So the keys are never changed, and such a condition never
    returns. -/

namespace Universa.Contracts.CanPerform
open Universa.Contracts.Expressions Universa.Contracts.ConditionParse Universa.Contracts.InternalConstraints

/-! ### The state and what is read -/

/-- What a field of a contract holds. -/
inductive Field (Q R : Type) where
  | role (role : R)
  | constraint (constraint : Q)
  | datum (value : Datum)

/-- A value in arithmetic: a role and a constraint are objects that are no number. -/
def Field.toDatum {Q R : Type} : Field Q R → Datum
  | .datum value => value
  | .role _ | .constraint _ => .other "object" .nan

/-- An operand when it is resolved: its text or its expression, the contract it is about, its value, and whether
    it counts as a field. -/
structure Side (C Q R : Type) where
  operand : Option Text
  expression : Option Expression
  contract : Option C
  value : Field Q R
  isField : Bool

/-- A transaction pack; the items are keyed by their ids. -/
structure TransactionPack (C H : Type) where
  contract : Option C
  subItems : List (H × C)
  referencedItems : List (H × C)

/-- What evaluation changes: of contracts the keys of the context and the role constraints that are valid, of
    constraints the matching items, and the rest (verified keys, quantas, iterators over keys). -/
structure State (C Q K S : Type) where
  constraintContextKeys : C → Option K
  validRoleConstraints : C → List Text
  matchingItems : Q → List C
  rest : S

/-- What evaluation reads: constraints `Q`, contracts `C` with ids `H`, roles `R` and collections of keys `K`.
    The functions of contracts and roles on the way see the state; what they change is in the rest.
    `meetsCriteria` is the test of roles, origin and fields in `isMatchingWithIteration`, `compare` the
    operators that look at two values. -/
structure World (C H Q R K S : Type) where
  baseContract : Q → Option C
  conditions : Q → Conditions
  equals : Q → Q → Except String Bool
  id : C → H
  apiLevel : C → ℕ
  constraints : C → List (Text × Q)
  transactionPack : C → Option (TransactionPack C H)
  get : State C Q K S → C → Text → Except String (Field Q R)
  effectiveKeys : S → C → K
  sealedByKeys : S → C → K
  sealedByKeysSize : S → C → ℕ
  verifySealedKeys : C → S → Except String Unit × S
  resolve : State C Q K S → R → Except String R
  requiresConstraints : R → Bool
  isAllowedForKeys : State C Q K S → R → Option K → Except String Bool × S
  meetsCriteria : State C Q K S → Q → C → Except String Bool
  compare : State C Q K S → Operator → Side C Q R → Side C Q R → Bool → Except String Bool
  now : Datum

variable {C H Q R K S : Type}

/-- A computation of the evaluation. -/
abbrev M (C Q K S α : Type) := Comp String Empty (State C Q K S) α

/-- A function that changes nothing but the rest of the state. -/
def onRest {α : Type} (f : State C Q K S → Except String α × S) : M C Q K S α := fun s =>
  match f s with
  | (.ok a, rest) => .ok a { s with rest }
  | (.error e, rest) => .throw e { s with rest }

/-- A function that reads the state. -/
def reading {α : Type} (f : State C Q K S → Except String α) : M C Q K S α := do Comp.lift (f (← Comp.read))

/-- `forEach` of a map's iterator, which has no such function; elsewhere the code makes an array of it first. -/
def iteratorForEach {α : Type} (iterator : String) (_ : List α) (_ : α → M C Q K S Unit) : M C Q K S Unit :=
  Comp.fail ("TypeError: " ++ iterator ++ ".forEach is not a function")

variable (w : World C H Q R K S)

/-! ### The context -/

section
variable [DecidableEq C] [DecidableEq Q]

/-- `Contract.setConstraintContextKeys(effectiveKeys)`. -/
def contractSetConstraintContextKeys (contract : C) (effectiveKeys : Option K) : M C Q K S Unit := do
  Comp.modify fun s => { s with validRoleConstraints := Function.update s.validRoleConstraints contract [] }
  iteratorForEach "this.constraints.values(...)" (w.constraints contract) fun r =>
    Comp.modify fun s => { s with matchingItems := Function.update s.matchingItems r.2 [] }
  Comp.modify fun s =>
    { s with constraintContextKeys := Function.update s.constraintContextKeys contract effectiveKeys }

/-- The main contract of a transaction pack, for the property of it that is called. -/
def mainContract (pack : TransactionPack C H) : M C Q K S C :=
  match pack.contract with
  | none => Comp.fail "TypeError: Cannot read property 'setConstraintContextKeys' of undefined"
  | some contract => pure contract

/-- `TransactionPack.setConstraintContextKeys(constraintEffectiveKeys)`. -/
def setConstraintContextKeys (pack : TransactionPack C H) (constraintEffectiveKeys : Option K) :
    M C Q K S Unit := do
  contractSetConstraintContextKeys w (← mainContract pack) constraintEffectiveKeys
  iteratorForEach "this.subItems.values(...)" pack.subItems fun si =>
    contractSetConstraintContextKeys w si.2 constraintEffectiveKeys
  iteratorForEach "this.referencedItems.values(...)" pack.referencedItems fun ri =>
    contractSetConstraintContextKeys w ri.2 constraintEffectiveKeys

end

/-- The transaction pack of a contract, for a property of it. -/
def packOf (property : String) (contract : C) : M C Q K S (TransactionPack C H) :=
  match w.transactionPack contract with
  | none => Comp.fail ("TypeError: Cannot read property '" ++ property ++ "' of null")
  | some pack => pure pack

/-- `verifySealedKeys(true)` of a contract that has no sealing keys. -/
def verifyUnsealed (contract : C) : M C Q K S Unit :=
  onRest fun s => if w.sealedByKeysSize s.rest contract = 0 then w.verifySealedKeys contract s.rest
    else (.ok (), s.rest)

/-- The keys for a contract other than `this`: of a referenced item those it is sealed by, which are verified
    first when there are none, of another the effective ones. -/
def contextKeys [DecidableEq H] (leftOperandContract : C) : M C Q K S K := do
  let pack ← packOf w "referencedItems" leftOperandContract
  if (pack.referencedItems.map Prod.fst).contains (w.id leftOperandContract) then
    verifyUnsealed w leftOperandContract
    reading fun s => .ok (w.sealedByKeys s.rest leftOperandContract)
  else reading fun s => .ok (w.effectiveKeys s.rest leftOperandContract)

/-- The context of a base contract's pack is set. -/
def setContext [DecidableEq C] [DecidableEq Q] (baseContract : C) (effectiveKeys : Option K) :
    M C Q K S Unit := do
  setConstraintContextKeys w (← packOf w "setConstraintContextKeys" baseContract) effectiveKeys

/-- The branch `CAN_PERFORM` for a right operand that is a role. -/
def canPerform [DecidableEq C] [DecidableEq Q] [DecidableEq H] (constraint : Q) (leftOperand : Text)
    (leftOperandContract : C) (right : R) :
    M C Q K S Bool := do
  if leftOperand = "this".toList then
    let keys1 ← reading fun s => .ok (s.constraintContextKeys leftOperandContract)
    onRest fun s => w.isAllowedForKeys s right keys1
  else
    let keys1 ← contextKeys w leftOperandContract
    let savedContext ← reading fun s => .ok (s.constraintContextKeys leftOperandContract)
    match w.baseContract constraint with
    | none => Comp.fail "Need base contract for setting context keys. But this contract not initialized."
    | some baseContract => do
        setContext w baseContract (some keys1)
        let ret ← onRest fun s => w.isAllowedForKeys s right (some keys1)
        if savedContext.isSome then
          setContext w baseContract savedContext
          return ret
        else return ret

/-- The branch `CAN_PLAY` for a right operand that is a role. -/
def canPlay (leftOperand : Text) (leftOperandContract : C) (right : R) : M C Q K S Bool := do
  let keys ← reading fun s => .ok
    (if leftOperand = "this".toList then w.effectiveKeys s.rest leftOperandContract
      else w.sealedByKeys s.rest leftOperandContract)
  let roleToBePlayed ← reading fun s => w.resolve s right
  if w.requiresConstraints roleToBePlayed then return false
  else onRest fun s => w.isAllowedForKeys s roleToBePlayed (some keys)

/-! ### Operands -/

section
variable (contracts : List C) (isMatching : Q → C → M C Q K S Bool)

/-- The loop over `contracts`: the last one that matches. -/
def lastMatching (constraint : Q) : Option C → List C → M C Q K S (Option C)
  | found, [] => pure found
  | found, checkedContract :: rest => do
      if ← isMatching constraint checkedContract then lastMatching constraint (some checkedContract) rest
      else lastMatching constraint found rest

/-- The contract that matches the constraint of the base contract with a name. -/
def namedContract (constraint : Q) (notInitialized notFound : String) (name : Text) : M C Q K S (Option C) :=
  match w.baseContract constraint with
  | none => Comp.fail notInitialized
  | some baseContract =>
      match (w.constraints baseContract).lookup name with
      | none => Comp.fail (notFound ++ String.ofList name)
      | some ref => lastMatching isMatching ref none contracts

/-- The contract and the field that a field operand is about; nothing, when no contract matches the constraint.
    -/
def fieldOperand (constraint : Q) (refContract : C) (notInitialized notFound invalidFormat : String)
    (operand : Text) : M C Q K S (Option (C × Text)) := do
  if "ref.".toList.isPrefixOf operand then return some (refContract, operand.drop 4)
  else if "this.".toList.isPrefixOf operand then
    match w.baseContract constraint with
    | none => Comp.fail notInitialized
    | some baseContract => return some (baseContract, operand.drop 5)
  else match indexOf operand '.' with
    | none | some 0 => Comp.fail invalidFormat
    | some firstPointPos =>
        let found ← namedContract w contracts isMatching constraint notInitialized notFound
          (substring operand 0 firstPointPos)
        return found.map (·, operand.drop (firstPointPos + 1))

mutual
/-- `evaluateOperand`. -/
def evaluateOperand (constraint : Q) (refContract : C) : Operand → Conversion → M C Q K S (Field Q R)
  | .EXPRESSION e, _ => evaluateExpression constraint refContract e
  | .FIELD path, _ => do
      let what := String.ofList path ++ ". "
      match ← fieldOperand w contracts isMatching constraint refContract
          ("Use left operand in expression: " ++ what ++ "But this contract not initialized.")
          "Not found reference: "
          ("Invalid format of left operand in expression: " ++ what ++ "Missing contract field.") path with
      | none => Comp.fail ("Not found referenced contract for constraint: " ++
          String.ofList (path.takeWhile (· ≠ '.')))
      | some (contract, field) => reading fun s => w.get s contract field
  | .CONSTOTHER text, conversion => Field.datum <$> Comp.lift (constantValue text conversion)
termination_by structural operand => operand

/-- `evaluateExpression`. -/
def evaluateExpression (constraint : Q) (refContract : C) : Expression → M C Q K S (Field Q R)
  | .mk operation leftOperand rightOperand leftConversion rightConversion _ _ => do
      let result ← Comp.catching do
        let left ← evaluateOperand constraint refContract leftOperand leftConversion
        let right ← evaluateOperand constraint refContract rightOperand rightConversion
        match left.toDatum, right.toDatum with
        | .null, _ | _, .null => return .datum .null
        | left, right => Field.datum <$> Comp.lift (operate operation leftConversion rightConversion left right)
      Comp.lift (result.mapError ("Error evaluate expression: Error: " ++ ·))
termination_by structural e => e
end

/-- An operand that is a constant. -/
def constantSide (text : Text) (value : Datum) : Side C Q R := ⟨some text, none, none, .datum value, false⟩

/-- The operand in front of `can_play` or `can_perform`; nothing, when no contract matches. -/
def playerOperand (constraint : Q) (refContract : C) (operand : Text) : M C Q K S (Option (Side C Q R)) := do
  let side (contract : C) : Side C Q R := ⟨some operand, none, some contract, .datum .null, false⟩
  let notInitialized := "Use left operand in condition: " ++ String.ofList operand ++
    ". But this contract not initialized."
  if operand = "ref".toList then return some (side refContract)
  else if operand = "this".toList then
    match w.baseContract constraint with
    | none => Comp.fail notInitialized
    | some baseContract => return some (side baseContract)
  else
    let found ← namedContract w contracts isMatching constraint notInitialized "Not found constraint: " operand
    return found.map side

/-- An operand of a condition; nothing, when no contract matches the constraint it names. -/
def resolveOperand (sideName : String) (player : Bool) (constraint : Q) (refContract : C) :
    Option ConditionOperand → M C Q K S (Option (Side C Q R))
  | none => return some ⟨none, none, none, .datum .null, false⟩
  | some (.EXPRESSION e) => return some ⟨none, some e, none, .datum .null, false⟩
  | some (.CONSTSTR text) => return some (constantSide text .null)
  | some (.CONSTOTHER text) =>
      if player then playerOperand w contracts isMatching constraint refContract text
      else return some (constantSide text (if text = "now".toList then w.now else .null))
  | some (.FIELD path) => do
      let what := sideName ++ " operand in condition: " ++ String.ofList path ++ ". "
      let found ← fieldOperand w contracts isMatching constraint refContract
        ("Use " ++ what ++ "But this contract not initialized.") "Not found constraint: "
        ("Invalid format of " ++ what ++ "Missing contract field.") path
      return found.map fun (contract, field) => ⟨some field, none, some contract, .datum .null, true⟩

/-- The value of a field; the left operand of `can_play` and `can_perform` has none. -/
def fetch (player : Bool) (side : Side C Q R) : M C Q K S (Side C Q R) :=
  match side.contract, side.operand with
  | some contract, some field =>
      if player then return side
      else do return { side with value := ← reading fun s => w.get s contract field }
  | _, _ => return side

/-- The value of an expression; nothing, when no contract matches a constraint it names. -/
def evaluateSide (constraint : Q) (refContract : C) (side : Side C Q R) : M C Q K S (Option (Side C Q R)) :=
  match side.expression with
  | none => return some side
  | some e => do
      match ← Comp.catching (evaluateExpression w contracts isMatching constraint refContract e) with
      | .ok value => return some { side with value, isField := true }
      | .error message =>
          if (places "Not found referenced contract for constraint".toList 0 message.toList).isEmpty then
            Comp.fail message
          else return none

/-! ### Inheritance -/

/-- The right operand of a condition in a text, if it is one of inheritance. -/
def inheritedOperand (condition : Text) : List (Operator × String) → Except String (Option Text)
  | [] => return none
  | (_, name) :: rest =>
      match (places name.toList 0 condition).head? with
      | none => inheritedOperand condition rest
      | some operPos =>
          if 0 < operPos ∧ condition[operPos - 1]? = some '_' then inheritedOperand condition rest
          else
            let text := condition.drop (operPos + name.length)
            if text = [] then throw (invalidCondition condition "Missing right operand.")
            else return some (withoutSpaces text)

/-- `isInheritedOperand` of a constraint. -/
def isInheritedOperand (constraint constr : Q) (constrContract : C) (rightOperand : Text) :
    M C Q K S Bool := do
  let what := "right operand in condition: " ++ String.ofList rightOperand ++ ". "
  match ← fieldOperand w contracts isMatching constraint constrContract
      ("Use " ++ what ++ "But this contract not initialized.") "Not found constraint: "
      ("Invalid format of " ++ what ++ "Missing contract field.") rightOperand with
  | none => return false
  | some (contract, field) => do
      match ← reading fun s => w.get s contract field with
      | .constraint right => Comp.lift (w.equals right constr)
      | _ => Comp.fail ("Expected constraint in condition in right operand: " ++ String.ofList field)

/-- `isInheritedParsed` of a constraint. -/
def isInheritedParsed (constraint constr : Q) (constrContract : C) (condition : Condition) : M C Q K S Bool :=
  if condition.operator = .INHERITS ∨ condition.operator = .INHERIT then
    match condition.rightOperand with
    | none => return false
    | some (.FIELD rightOperand) | some (.CONSTSTR rightOperand) | some (.CONSTOTHER rightOperand) =>
        isInheritedOperand w contracts isMatching constraint constr constrContract rightOperand
    | some (.EXPRESSION _) => Comp.fail "TypeError: rightOperand.startsWith is not a function"
  else return false

/-- `isInheritedCondition` of a constraint. -/
def isInheritedCondition (constraint constr : Q) (constrContract : C) (condition : Text) : M C Q K S Bool := do
  match ← Comp.lift (inheritedOperand condition inheritanceOperators) with
  | none => return false
  | some rightOperand => isInheritedOperand w contracts isMatching constraint constr constrContract rightOperand

mutual
/-- `isInheritedConditions` of a constraint. -/
def isInheritedConditions (constraint constr : Q) (constrContract : C) : Conditions → M C Q K S Bool
  | .empty => return false
  | .all_of condList => isInheritedItems constraint constr constrContract condList
  | .any_of condList => isInheritedItems constraint constr constrContract condList
  | .withoutList mode => Comp.fail ("Expected " ++ mode ++ " conditions")
  | .text condition => if condition = [] then return false else Comp.fail "Expected all_of or any_of"
  | .parsed condition => isInheritedParsed w contracts isMatching constraint constr constrContract condition
  | .unknown => Comp.fail "Expected all_of or any_of"
termination_by structural conditions => conditions

/-- The items of a list, until one is of inheritance. -/
def isInheritedItems (constraint constr : Q) (constrContract : C) : List Conditions → M C Q K S Bool
  | [] => return false
  | .text condition :: items => do
      if ← isInheritedCondition w contracts isMatching constraint constr constrContract condition then
        return true
      else isInheritedItems constraint constr constrContract items
  | item :: items => do
      if ← isInheritedConditions constraint constr constrContract item then return true
      else isInheritedItems constraint constr constrContract items
termination_by structural items => items
end

end

/-! ### Conditions -/

section
variable [DecidableEq C] [DecidableEq Q] [DecidableEq H]
variable (contracts : List C) (isMatching isMatchingDeeper : Q → C → M C Q K S Bool)

/-- A role condition, for the branch of its operator. -/
def checkRole (branch : Text → C → R → M C Q K S Bool) (left right : Side C Q R) : M C Q K S Bool :=
  match right.value with
  | .datum .null => return false
  | .role role =>
      match left.contract, left.operand with
      | some contract, some operand => branch operand contract role
      | _, _ => Comp.fail "TypeError: Cannot read property of null"
  | _ => Comp.fail ("Expected role in condition in right operand: " ++ String.ofList (right.operand.getD []))

/-- The switch over the operator. `isMatching` is `isMatchingWithIteration` with the iteration after this one,
    the other with the one after that. -/
def checkOperator (constraint : Q) (refContract : C) (operator : Operator) (left right : Side C Q R)
    (isBigDecimalConversion : Bool) : M C Q K S Bool :=
  let expected (side : String) (s : Side C Q R) : M C Q K S Bool := Comp.fail
    ("Expected constraint in condition in " ++ side ++ " operand: " ++ String.ofList (s.operand.getD []))
  match operator with
  | .IS_A | .IS_INHERIT =>
      match left.value, right.value with
      | .constraint leftConstr, .constraint rightConstr => isInheritedConditions w contracts isMatchingDeeper
          leftConstr rightConstr refContract (w.conditions leftConstr)
      | .constraint _, _ => expected "right" right
      | _, _ => expected "left" left
  | .INHERITS | .INHERIT =>
      match right.value with
      | .constraint rightConstr => isMatching rightConstr refContract
      | _ => expected "right" right
  | .CAN_PLAY => checkRole (canPlay w) left right
  | .CAN_PERFORM => checkRole (canPerform w constraint) left right
  | .DEFINED | .UNDEFINED => Comp.fail "Invalid operator in condition"
  | operator => reading fun s => w.compare s operator left right isBigDecimalConversion

/-- A condition without a right operand: `defined` and `undefined`, which catch what `get` throws. -/
def checkDefined (operator : Operator) (left : Side C Q R) : M C Q K S Bool := do
  let get : M C Q K S (Field Q R) := match left.contract, left.operand with
    | some contract, some field => reading fun s => w.get s contract field
    | _, _ => Comp.fail "TypeError: Cannot read property 'get' of null"
  let isNull : Except String (Field Q R) → Bool
    | .ok (.datum .null) | .error _ => true
    | .ok _ => false
  match operator with
  | .DEFINED => return !isNull (← Comp.catching get)
  | .UNDEFINED => return isNull (← Comp.catching get)
  | _ => Comp.fail "Invalid operator in condition"

/-- The part of `compareOperands` after the operands are resolved, for a condition with a right operand. -/
def compareResolved (constraint : Q) (refContract : C) (condition : Condition) (left right : Side C Q R) :
    M C Q K S Bool := do
  let player := decide (condition.operator = .CAN_PLAY ∨ condition.operator = .CAN_PERFORM)
  let left ← fetch w player left
  let right ← fetch w false right
  match ← evaluateSide w contracts isMatching constraint refContract left with
  | none => return false
  | some left => do
      match ← evaluateSide w contracts isMatching constraint refContract right with
      | none => return false
      | some right => do
          let converted := decide (condition.leftConversion = .CONVERSION_BIG_DECIMAL ∨
            condition.rightConversion = .CONVERSION_BIG_DECIMAL)
          let big (side : Side C Q R) : Bool := side.expression.isSome && side.value.toDatum.isBigDecimal
          let ret ← Comp.catching (checkOperator w contracts isMatching isMatchingDeeper constraint refContract
            condition.operator left right (converted || big left || big right))
          Comp.lift (ret.mapError ("Error compare operands in condition: " ++ ·))

/-- `checkCondition` for a parsed condition: `compareOperands`. -/
def checkCondition (constraint : Q) (refContract : C) (condition : Condition) : M C Q K S Bool := do
  let player := decide (condition.operator = .CAN_PLAY ∨ condition.operator = .CAN_PERFORM)
  match ← resolveOperand w contracts isMatching "left" player constraint refContract condition.leftOperand with
  | none => return false
  | some left => do
      match ← resolveOperand w contracts isMatching "right" false constraint refContract
          condition.rightOperand with
      | none => return false
      | some right =>
          if right.operand.isSome || right.expression.isSome then
            compareResolved w contracts isMatching isMatchingDeeper constraint refContract condition left right
          else checkDefined w condition.operator left

/-- `checkCondition` for a condition in a text. -/
def checkText (constraint : Q) (refContract : C) (condition : Text) : M C Q K S Bool := do
  let parsed ← Comp.lift (parseCondition ((w.baseContract constraint).map w.apiLevel) condition)
  checkCondition w contracts isMatching isMatchingDeeper constraint refContract parsed

mutual
/-- `checkConditions`. -/
def checkConditions (constraint : Q) (refContract : C) : Conditions → M C Q K S Bool
  | .empty => return true
  | .all_of condList => checkAll constraint refContract condList
  | .any_of condList => checkAny constraint refContract condList
  | .withoutList mode => Comp.fail ("Expected " ++ mode ++ " conditions")
  | .text condition => if condition = [] then return true else Comp.fail "Expected all_of or any_of"
  | .parsed condition => checkCondition w contracts isMatching isMatchingDeeper constraint refContract condition
  | .unknown => Comp.fail "Expected all_of or any_of"
termination_by structural conditions => conditions

/-- The items of `all_of`, until one fails. -/
def checkAll (constraint : Q) (refContract : C) : List Conditions → M C Q K S Bool
  | [] => return true
  | .text condition :: items => do
      if ← checkText w contracts isMatching isMatchingDeeper constraint refContract condition then
        checkAll constraint refContract items
      else return false
  | item :: items => do
      if ← checkConditions constraint refContract item then checkAll constraint refContract items
      else return false
termination_by structural items => items

/-- The items of `any_of`, until one holds. -/
def checkAny (constraint : Q) (refContract : C) : List Conditions → M C Q K S Bool
  | [] => return false
  | .text condition :: items => do
      if ← checkText w contracts isMatching isMatchingDeeper constraint refContract condition then return true
      else checkAny constraint refContract items
  | item :: items => do
      if ← checkConditions constraint refContract item then return true
      else checkAny constraint refContract items
termination_by structural items => items
end

end

section
variable [DecidableEq C] [DecidableEq Q] [DecidableEq H]

/-- `isMatchingWithIteration`, with so many more iterations before they are 16. -/
def isMatchingWithin (contracts : List C) : ℕ → Q → C → M C Q K S Bool
  | 0, _, _ => Comp.fail "Recursive checking constraints have more 16 iterations"
  | left + 1, constraint, contract => do
      if ← reading fun s => w.meetsCriteria s constraint contract then
        checkConditions w contracts (isMatchingWithin contracts left) (isMatchingWithin contracts (left - 1))
          constraint contract (w.conditions constraint)
      else return false

/-- `isMatchingWithIteration(contract, contracts, iteration)`. -/
def isMatchingWithIteration (constraint : Q) (contract : C) (contracts : List C) (iteration : ℕ) :
    M C Q K S Bool :=
  isMatchingWithin w contracts (17 - iteration) constraint contract

/-- `checkConditions(conditions, ref, contracts, iteration)` of a constraint. -/
def checkConditionsAt (contracts : List C) (iteration : ℕ) (constraint : Q) (ref : C)
    (conditions : Conditions) : M C Q K S Bool :=
  checkConditions w contracts (fun q c => isMatchingWithIteration w q c contracts (iteration + 1))
    (fun q c => isMatchingWithIteration w q c contracts (iteration + 2)) constraint ref conditions

end

/-! ### The context is kept -/

/-- The keys of the context are these, before and after. -/
structure Holds (keys : C → Option K) {α : Type} (m : M C Q K S α) : Prop where
  keeps : Comp.Keeps (fun s => s.constraintContextKeys = keys) (fun _ => False) m

section
variable {w} {keys : C → Option K}

theorem holds_pure {α : Type} (a : α) : Holds keys (pure a : M C Q K S α) := ⟨Comp.keeps_pure a⟩

theorem holds_fail {α : Type} (e : String) : Holds keys (Comp.fail e : M C Q K S α) :=
  ⟨Comp.keeps_fail e⟩

theorem holds_bind {α β : Type} {m : M C Q K S α} {f : α → M C Q K S β} (hm : Holds keys m)
    (hf : ∀ a, Holds keys (f a)) : Holds keys (m >>= f) := ⟨Comp.keeps_bind hm.keeps fun a => (hf a).keeps⟩

theorem holds_map {α β : Type} {m : M C Q K S α} (f : α → β) (hm : Holds keys m) : Holds keys (f <$> m) :=
  holds_bind hm fun _ => holds_pure _

theorem holds_lift {α : Type} (x : Except String α) : Holds keys (Comp.lift x : M C Q K S α) :=
  ⟨Comp.keeps_lift x⟩

theorem holds_catching {α : Type} {m : M C Q K S α} (hm : Holds keys m) : Holds keys (Comp.catching m) :=
  ⟨Comp.keeps_catching hm.keeps⟩

theorem holds_reading {α : Type} (f : State C Q K S → Except String α) : Holds keys (reading f) :=
  ⟨Comp.keeps_bind Comp.keeps_read fun _ => Comp.keeps_lift _⟩

theorem holds_onRest {α : Type} (f : State C Q K S → Except String α × S) : Holds keys (onRest f) := by
  refine ⟨fun s hs => ?_⟩
  rw [onRest]
  rcases f s with ⟨_ | _, _⟩
  · exact hs
  · exact hs

theorem holds_ite {α : Type} {b : Bool} {m m' : M C Q K S α} (hm : Holds keys m) (hm' : Holds keys m') :
    Holds keys (if b then m else m') := by
  split_ifs
  · exact hm
  · exact hm'

/-- A computation that begins with `forEach` of an iterator ends there. -/
theorem holds_iteratorForEach {α β : Type} (iterator : String) (xs : List α) (f : α → M C Q K S Unit)
    (next : Unit → M C Q K S β) : Holds keys (iteratorForEach iterator xs f >>= next) :=
  holds_fail _

theorem packOf_holds (property : String) (contract : C) : Holds keys (packOf w property contract) := by
  rw [packOf]
  cases w.transactionPack contract with
  | none => exact holds_fail _
  | some pack => exact holds_pure pack

theorem canPlay_holds (leftOperand : Text) (contract : C) (right : R) :
    Holds keys (canPlay w leftOperand contract right) := by
  refine holds_bind (holds_reading _) fun _ => holds_bind (holds_reading _) fun role => ?_
  split_ifs
  · exact holds_pure _
  · exact holds_onRest _

theorem contextKeys_holds [DecidableEq H] (contract : C) : Holds keys (contextKeys w contract) := by
  refine holds_bind (packOf_holds _ _) fun pack => ?_
  split_ifs
  · exact holds_bind (holds_onRest _) fun _ => holds_reading _
  · exact holds_reading _

section
variable [DecidableEq C] [DecidableEq Q]

/-- The assignment of the keys is not reached. -/
theorem contractSet_holds (contract : C) (effectiveKeys : Option K) :
    Holds keys (contractSetConstraintContextKeys w contract effectiveKeys) :=
  holds_bind ⟨Comp.keeps_modify fun _ h => h⟩ fun _ => holds_iteratorForEach _ _ _ _

theorem setContext_holds (baseContract : C) (effectiveKeys : Option K) :
    Holds keys (setContext w baseContract effectiveKeys) := by
  refine holds_bind (packOf_holds _ _) fun pack => ?_
  have hmain : Holds keys (mainContract pack : M C Q K S C) := by
    rw [mainContract]
    cases pack.contract with
    | none => exact holds_fail _
    | some contract => exact holds_pure contract
  refine holds_bind hmain fun contract => ?_
  exact holds_bind (contractSet_holds contract effectiveKeys) fun _ => holds_iteratorForEach _ _ _ _

theorem canPerform_holds [DecidableEq H] (constraint : Q) (leftOperand : Text) (contract : C) (right : R) :
    Holds keys (canPerform w constraint leftOperand contract right) := by
  rw [canPerform]
  split_ifs
  · exact holds_bind (holds_reading _) fun _ => holds_onRest _
  · refine holds_bind (contextKeys_holds contract) fun keys1 => ?_
    refine holds_bind (holds_reading _) fun savedContext => ?_
    cases w.baseContract constraint with
    | none => exact holds_fail _
    | some baseContract =>
        refine holds_bind (setContext_holds _ _) fun _ => holds_bind (holds_onRest _) fun ret => ?_
        split_ifs
        · exact holds_bind (setContext_holds _ _) fun _ => holds_pure ret
        · exact holds_pure ret

end

theorem fetch_holds (player : Bool) (side : Side C Q R) : Holds keys (fetch w player side) := by
  rw [fetch]
  split
  · split_ifs
    · exact holds_pure _
    · exact holds_bind (holds_reading _) fun _ => holds_pure _
  · exact holds_pure _

theorem checkRole_holds {branch : Text → C → R → M C Q K S Bool}
    (hbranch : ∀ operand contract role, Holds keys (branch operand contract role)) (left right : Side C Q R) :
    Holds keys (checkRole branch left right) := by
  rw [checkRole]
  split
  · exact holds_pure _
  · split
    · exact hbranch ..
    · exact holds_fail _
  · exact holds_fail _

theorem checkDefined_holds (operator : Operator) (left : Side C Q R) :
    Holds keys (checkDefined w operator left) := by
  have hget : Holds keys (match left.contract, left.operand with
      | some contract, some field => reading fun s => w.get s contract field
      | _, _ => Comp.fail "TypeError: Cannot read property 'get' of null") := by
    split
    · exact holds_reading _
    · exact holds_fail _
  cases operator with
  | DEFINED => exact holds_bind (holds_catching hget) fun _ => holds_pure _
  | UNDEFINED => exact holds_bind (holds_catching hget) fun _ => holds_pure _
  | _ => exact holds_fail _

section
variable {contracts : List C} {isMatching : Q → C → M C Q K S Bool}
  (hmatching : ∀ q c, Holds keys (isMatching q c))
include hmatching

theorem lastMatching_holds (constraint : Q) :
    ∀ (cs : List C) (found : Option C), Holds keys (lastMatching isMatching constraint found cs)
  | [], found => holds_pure found
  | c :: cs, found => by
      refine holds_bind (hmatching constraint c) fun b => ?_
      split_ifs
      · exact lastMatching_holds constraint cs (some c)
      · exact lastMatching_holds constraint cs found

theorem namedContract_holds (constraint : Q)
    (notInitialized notFound : String) (name : Text) :
    Holds keys (namedContract w contracts isMatching constraint notInitialized notFound name) := by
  rw [namedContract]
  cases w.baseContract constraint with
  | none => exact holds_fail _
  | some base =>
      dsimp only
      cases (w.constraints base).lookup name with
      | none => exact holds_fail _
      | some ref => exact lastMatching_holds hmatching ref contracts none

theorem fieldOperand_holds (constraint : Q) (refContract : C)
    (notInitialized notFound invalidFormat : String) (operand : Text) : Holds keys (fieldOperand w contracts
      isMatching constraint refContract notInitialized notFound invalidFormat operand) := by
  rw [fieldOperand]
  split_ifs
  · exact holds_pure _
  · cases w.baseContract constraint with
    | none => exact holds_fail _
    | some base => exact holds_pure _
  · match indexOf operand '.' with
    | none => exact holds_fail _
    | some 0 => exact holds_fail _
    | some (p + 1) => exact holds_bind (namedContract_holds hmatching ..) fun _ => holds_pure _

set_option linter.unusedSectionVars false in
mutual
theorem evaluateOperand_holds (constraint : Q)
    (refContract : C) : ∀ (operand : Operand) (conversion : Conversion),
      Holds keys (evaluateOperand w contracts isMatching constraint refContract operand conversion)
  | .EXPRESSION e, _ => evaluateExpression_holds constraint refContract e
  | .FIELD path, _ => by
      refine holds_bind (fieldOperand_holds hmatching ..) fun found => ?_
      cases found with
      | none => exact holds_fail _
      | some found => exact holds_reading _
  | .CONSTOTHER text, conversion => holds_map _ (holds_lift _)

theorem evaluateExpression_holds (constraint : Q)
    (refContract : C) : ∀ e : Expression,
      Holds keys (evaluateExpression w contracts isMatching constraint refContract e)
  | .mk operation leftOperand rightOperand leftConversion rightConversion _ _ => by
      refine holds_bind (holds_catching ?_) fun result => holds_lift _
      refine holds_bind (evaluateOperand_holds constraint refContract leftOperand _) fun left => ?_
      refine holds_bind (evaluateOperand_holds constraint refContract rightOperand _) fun right => ?_
      split
      · exact holds_pure _
      · exact holds_pure _
      · exact holds_map _ (holds_lift _)
end

theorem playerOperand_holds (constraint : Q) (refContract : C)
    (operand : Text) : Holds keys (playerOperand w contracts isMatching constraint refContract operand) := by
  rw [playerOperand]
  split_ifs
  · exact holds_pure _
  · cases w.baseContract constraint with
    | none => exact holds_fail _
    | some base => exact holds_pure _
  · exact holds_bind (namedContract_holds hmatching ..) fun _ => holds_pure _

theorem resolveOperand_holds (sideName : String) (player : Bool)
    (constraint : Q) (refContract : C) : ∀ operand : Option ConditionOperand, Holds keys
      (resolveOperand w contracts isMatching sideName player constraint refContract operand)
  | none => holds_pure _
  | some (.EXPRESSION _) => holds_pure _
  | some (.CONSTSTR _) => holds_pure _
  | some (.CONSTOTHER text) => by
      rw [resolveOperand]
      split_ifs
      · exact playerOperand_holds hmatching constraint refContract text
      · exact holds_pure _
      · exact holds_pure _
  | some (.FIELD path) => holds_bind (fieldOperand_holds hmatching ..) fun _ => holds_pure _

theorem evaluateSide_holds (constraint : Q) (refContract : C)
    (side : Side C Q R) : Holds keys (evaluateSide w contracts isMatching constraint refContract side) := by
  rw [evaluateSide]
  cases side.expression with
  | none => exact holds_pure _
  | some e =>
      refine holds_bind (holds_catching (evaluateExpression_holds hmatching constraint refContract e)) ?_
      rintro (message | value)
      · dsimp only
        split_ifs
        · exact holds_fail _
        · exact holds_pure _
      · exact holds_pure _

theorem isInheritedOperand_holds (constraint constr : Q)
    (constrContract : C) (rightOperand : Text) : Holds keys
      (isInheritedOperand w contracts isMatching constraint constr constrContract rightOperand) := by
  refine holds_bind (fieldOperand_holds hmatching ..) fun found => ?_
  cases found with
  | none => exact holds_pure _
  | some found =>
      refine holds_bind (holds_reading _) fun value => ?_
      cases value with
      | constraint right => exact holds_lift _
      | role role => exact holds_fail _
      | datum value => exact holds_fail _

theorem isInheritedParsed_holds (constraint constr : Q)
    (constrContract : C) (condition : Condition) : Holds keys
      (isInheritedParsed w contracts isMatching constraint constr constrContract condition) := by
  rw [isInheritedParsed]
  split_ifs
  · split
    · exact holds_pure _
    · exact isInheritedOperand_holds hmatching ..
    · exact isInheritedOperand_holds hmatching ..
    · exact isInheritedOperand_holds hmatching ..
    · exact holds_fail _
  · exact holds_pure _

theorem isInheritedCondition_holds (constraint constr : Q)
    (constrContract : C) (condition : Text) : Holds keys
      (isInheritedCondition w contracts isMatching constraint constr constrContract condition) := by
  refine holds_bind (holds_lift _) fun operand => ?_
  cases operand with
  | none => exact holds_pure _
  | some operand => exact isInheritedOperand_holds hmatching ..

mutual
theorem isInheritedConditions_holds (constraint constr : Q)
    (constrContract : C) : ∀ conditions : Conditions, Holds keys
      (isInheritedConditions w contracts isMatching constraint constr constrContract conditions)
  | .empty => holds_pure _
  | .all_of condList => isInheritedItems_holds constraint constr constrContract condList
  | .any_of condList => isInheritedItems_holds constraint constr constrContract condList
  | .withoutList _ => holds_fail _
  | .text condition => by
      rw [isInheritedConditions]
      split_ifs
      · exact holds_pure _
      · exact holds_fail _
  | .parsed condition => isInheritedParsed_holds hmatching constraint constr constrContract condition
  | .unknown => holds_fail _

theorem isInheritedItems_holds (constraint constr : Q)
    (constrContract : C) : ∀ items : List Conditions, Holds keys
      (isInheritedItems w contracts isMatching constraint constr constrContract items)
  | [] => holds_pure _
  | item :: items => by
      have hrest := isInheritedItems_holds constraint constr constrContract items
      have hnext (b : Bool) : Holds keys (if b then pure true
          else isInheritedItems w contracts isMatching constraint constr constrContract items) :=
        holds_ite (holds_pure _) hrest
      have hitem := isInheritedConditions_holds constraint constr constrContract item
      cases item with
      | text condition => exact holds_bind (isInheritedCondition_holds hmatching ..) hnext
      | _ => exact holds_bind hitem hnext
end

variable [DecidableEq C] [DecidableEq Q] [DecidableEq H] {isMatchingDeeper : Q → C → M C Q K S Bool}
  (hdeeper : ∀ q c, Holds keys (isMatchingDeeper q c))
include hdeeper

theorem checkOperator_holds (constraint : Q) (refContract : C) (operator : Operator)
    (left right : Side C Q R) (big : Bool) : Holds keys (checkOperator w contracts isMatching isMatchingDeeper
      constraint refContract operator left right big) := by
  have hinherited : Holds keys (checkOperator w contracts isMatching isMatchingDeeper constraint refContract
      .IS_A left right big) := by
    rw [checkOperator]
    split
    · exact isInheritedConditions_holds hdeeper ..
    · exact holds_fail _
    · exact holds_fail _
  have hmatches : Holds keys (checkOperator w contracts isMatching isMatchingDeeper constraint refContract
      .INHERITS left right big) := by
    rw [checkOperator]
    split
    · exact hmatching ..
    · exact holds_fail _
  cases operator with
  | IS_A => exact hinherited
  | IS_INHERIT => exact hinherited
  | INHERITS => exact hmatches
  | INHERIT => exact hmatches
  | CAN_PLAY => exact checkRole_holds canPlay_holds left right
  | CAN_PERFORM => exact checkRole_holds (canPerform_holds constraint) left right
  | DEFINED => exact holds_fail _
  | UNDEFINED => exact holds_fail _
  | _ => exact holds_reading _

theorem compareResolved_holds (constraint : Q) (refContract : C)
    (condition : Condition) (left right : Side C Q R) : Holds keys (compareResolved w contracts isMatching
      isMatchingDeeper constraint refContract condition left right) := by
  refine holds_bind (fetch_holds _ left) fun left => holds_bind (fetch_holds _ right) fun right => ?_
  refine holds_bind (evaluateSide_holds hmatching constraint refContract left) fun left => ?_
  cases left with
  | none => exact holds_pure _
  | some left =>
      refine holds_bind (evaluateSide_holds hmatching constraint refContract right) fun right => ?_
      cases right with
      | none => exact holds_pure _
      | some right =>
          refine holds_bind (holds_catching ?_) fun _ => holds_lift _
          exact checkOperator_holds hmatching hdeeper ..

/-- A single condition of any operator. -/
theorem checkCondition_holds (constraint : Q) (refContract : C)
    (condition : Condition) : Holds keys (checkCondition w contracts isMatching isMatchingDeeper constraint
      refContract condition) := by
  refine holds_bind (resolveOperand_holds hmatching ..) fun left => ?_
  cases left with
  | none => exact holds_pure _
  | some left =>
      refine holds_bind (resolveOperand_holds hmatching ..) fun right => ?_
      cases right with
      | none => exact holds_pure _
      | some right =>
          dsimp only
          split_ifs
          · exact compareResolved_holds hmatching hdeeper ..
          · exact checkDefined_holds _ _

theorem checkText_holds (constraint : Q) (refContract : C) (condition : Text) :
    Holds keys (checkText w contracts isMatching isMatchingDeeper constraint refContract condition) :=
  holds_bind (holds_lift _) fun _ => checkCondition_holds hmatching hdeeper ..

mutual
theorem checkConditions_holds (constraint : Q) (refContract : C) :
    ∀ conditions : Conditions, Holds keys
      (checkConditions w contracts isMatching isMatchingDeeper constraint refContract conditions)
  | .empty => holds_pure _
  | .all_of condList => checkAll_holds constraint refContract condList
  | .any_of condList => checkAny_holds constraint refContract condList
  | .withoutList _ => holds_fail _
  | .text condition => by
      rw [checkConditions]
      split_ifs
      · exact holds_pure _
      · exact holds_fail _
  | .parsed condition => checkCondition_holds hmatching hdeeper constraint refContract condition
  | .unknown => holds_fail _

theorem checkAll_holds (constraint : Q) (refContract : C) :
    ∀ items : List Conditions, Holds keys
      (checkAll w contracts isMatching isMatchingDeeper constraint refContract items)
  | [] => holds_pure _
  | item :: items => by
      have hrest := checkAll_holds constraint refContract items
      have hnext (b : Bool) : Holds keys (if b then
          checkAll w contracts isMatching isMatchingDeeper constraint refContract items else pure false) :=
        holds_ite hrest (holds_pure _)
      have hitem := checkConditions_holds constraint refContract item
      cases item with
      | text condition => exact holds_bind (checkText_holds hmatching hdeeper ..) hnext
      | _ => exact holds_bind hitem hnext

theorem checkAny_holds (constraint : Q) (refContract : C) :
    ∀ items : List Conditions, Holds keys
      (checkAny w contracts isMatching isMatchingDeeper constraint refContract items)
  | [] => holds_pure _
  | item :: items => by
      have hrest := checkAny_holds constraint refContract items
      have hnext (b : Bool) : Holds keys (if b then pure true
          else checkAny w contracts isMatching isMatchingDeeper constraint refContract items) :=
        holds_ite (holds_pure _) hrest
      have hitem := checkConditions_holds constraint refContract item
      cases item with
      | text condition => exact holds_bind (checkText_holds hmatching hdeeper ..) hnext
      | _ => exact holds_bind hitem hnext
end

omit hmatching hdeeper in
/-- Matching at any iteration, by induction on those that are left. -/
theorem isMatchingWithin_holds : ∀ (left : ℕ) (constraint : Q) (contract : C),
    Holds keys (isMatchingWithin w contracts left constraint contract)
  | 0, _, _ => by
      rw [isMatchingWithin]
      exact holds_fail _
  | left + 1, constraint, contract => by
      rw [isMatchingWithin]
      refine holds_bind (holds_reading _) fun meets => ?_
      split_ifs
      · exact checkConditions_holds (isMatchingWithin_holds left) (isMatchingWithin_holds (left - 1)) ..
      · exact holds_pure _

omit hmatching hdeeper in
theorem checkConditionsAt_holds (iteration : ℕ) (constraint : Q) (ref : C) (conditions : Conditions) :
    Holds keys (checkConditionsAt w contracts iteration constraint ref conditions) :=
  checkConditions_holds (fun q c => isMatchingWithin_holds _ q c) (fun q c => isMatchingWithin_holds _ q c) ..

end

/-- What a computation leaves the keys of a context at. -/
theorem Holds.state {α : Type} {m : M C Q K S α} {s : State C Q K S}
    (h : Holds s.constraintContextKeys m) : (m s).state.constraintContextKeys = s.constraintContextKeys := by
  have hkeeps := h.keeps s rfl
  cases hm : m s with
  | ok a s' => rwa [hm] at hkeeps
  | throw e s' => rwa [hm] at hkeeps
  | crash k s' => exact k.elim

end

/-! ### Evaluation of `can_perform` -/

section
variable [DecidableEq C] [DecidableEq Q]

/-- A computation that does not return. -/
def Throws {α : Type} (m : M C Q K S α) : Prop := ∀ s, ∃ e s', m s = .throw e s'

omit [DecidableEq C] [DecidableEq Q] in
theorem throws_fail {α : Type} (e : String) : Throws (Comp.fail e : M C Q K S α) := fun s => ⟨e, s, rfl⟩

omit [DecidableEq C] [DecidableEq Q] in
theorem Throws.bind {α β : Type} {m : M C Q K S α} (h : Throws m) (f : α → M C Q K S β) : Throws (m >>= f) := by
  intro s
  obtain ⟨e, s', hm⟩ := h s
  refine ⟨e, s', ?_⟩
  change Comp.bind m f s = _
  rw [Comp.bind, hm]

omit [DecidableEq C] [DecidableEq Q] in
theorem throws_after {α β : Type} (m : M C Q K S α) {f : α → M C Q K S β} (h : ∀ a, Throws (f a)) :
    Throws (m >>= f) := by
  intro s
  change ∃ e s', Comp.bind m f s = .throw e s'
  rw [Comp.bind]
  cases m s with
  | ok a s' => exact h a s'
  | throw e s' => exact ⟨e, s', rfl⟩
  | crash k s' => exact k.elim

variable {w}

theorem setContext_throws (baseContract : C) (effectiveKeys : Option K) :
    Throws (setContext w baseContract effectiveKeys) := by
  have hset (contract : C) : Throws (contractSetConstraintContextKeys w contract effectiveKeys) :=
    throws_after _ fun _ => (throws_fail _).bind _
  exact throws_after _ fun _ => throws_after _ fun contract => (hset contract).bind _

/-- CODE DEFECT (can_perform): a check by another contract than `this` never returns. -/
theorem canPerform_throws [DecidableEq H] (constraint : Q) {leftOperand : Text}
    (hleft : leftOperand ≠ "this".toList) (contract : C) (right : R) :
    Throws (canPerform w constraint leftOperand contract right) := by
  rw [canPerform, if_neg hleft]
  refine throws_after _ fun keys1 => throws_after _ fun savedContext => ?_
  cases w.baseContract constraint with
  | none => exact throws_fail _
  | some baseContract => exact (setContext_throws baseContract _).bind _

/-- CORRECT (checking context): a `can_perform` condition, in any constraint and over any contracts, returns or
    throws with the keys of the context of every contract as they were, and so do conditions it is nested in. -/
theorem canPerform_keepsContext [DecidableEq H] (contracts : List C) (iteration : ℕ) (constraint : Q) (ref : C)
    (s : State C Q K S) :
    (∀ leftOperand leftOperandContract right,
      (canPerform w constraint leftOperand leftOperandContract right s).state.constraintContextKeys =
        s.constraintContextKeys) ∧
    ∀ conditions,
      (checkConditionsAt w contracts iteration constraint ref conditions s).state.constraintContextKeys =
        s.constraintContextKeys :=
  ⟨fun leftOperand leftOperandContract right =>
    (canPerform_holds constraint leftOperand leftOperandContract right).state,
   fun conditions => (checkConditionsAt_holds iteration constraint ref conditions).state⟩

end

end Universa.Contracts.CanPerform
