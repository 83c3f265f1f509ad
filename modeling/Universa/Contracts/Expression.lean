import Universa.Js.Arithmetic

/-! Expressions in conditions of constraints (`constraint.js`): `parseExpression` with the scans it makes of the
    text, and `evaluateExpression`. A text is the list of its characters. A throw is an error with its message.

    `parseExpression` calls itself on operands, which are shorter than the text: it gets as many calls as
    the text has characters, and one. `big.js` is taken to be exact. -/

namespace Universa.Contracts.Expressions
open Universa.Js

/-- A text as its characters. -/
abbrev Text := List Char

/-! ### Operations -/

/-- The operations below `ROUND_OPERATIONS`. -/
inductive Arithmetic where
  | PLUS
  | MINUS
  | MULT
  | DIV
  deriving DecidableEq

/-- The operations from `ROUND_OPERATIONS` on. -/
inductive Rounding where
  | ROUND
  | FLOOR
  | CEIL

/-- An operation. -/
inductive Operation where
  | arithmetic (operation : Arithmetic)
  | rounding (operation : Rounding)

/-- `operations`. -/
def operations : List (Arithmetic × Char) := [(.PLUS, '+'), (.MINUS, '-'), (.MULT, '*'), (.DIV, '/')]

/-- `roundOperations`. -/
def roundOperations : List (Rounding × String) := [(.ROUND, "round("), (.FLOOR, "floor("), (.CEIL, "ceil(")]

/-- `NO_CONVERSION` and `CONVERSION_BIG_DECIMAL`. -/
inductive Conversion where
  | NO_CONVERSION
  | CONVERSION_BIG_DECIMAL
  deriving DecidableEq

mutual
/-- An operand, with its type as the constructor. -/
inductive Operand where
  | EXPRESSION (e : Expression)
  | FIELD (path : Text)
  | CONSTOTHER (text : Text)

/-- The object that `parseExpression` returns. -/
inductive Expression where
  | mk (operation : Operation) (leftOperand rightOperand : Operand)
      (leftConversion rightConversion : Conversion) (leftParentheses rightParentheses : Bool)
end

/-! ### Texts -/

/-- `s.substring(a, b)`, which takes the smaller number first. -/
def substring (s : Text) (a b : ℕ) : Text := (s.drop (min a b)).take (max a b - min a b)

/-- The places of a character in a text that begins at place `p`. -/
def occurrences (c : Char) (p : ℕ) : Text → List ℕ
  | [] => []
  | x :: s => if x = c then p :: occurrences c (p + 1) s else occurrences c (p + 1) s

/-- `s.indexOf(c)`. -/
def indexOf (s : Text) (c : Char) : Option ℕ := (occurrences c 0 s).head?

/-- `s.lastIndexOf(c)`. -/
def lastIndexOf (s : Text) (c : Char) : Option ℕ := (occurrences c 0 s).getLast?

/-- The message of an `IllegalArgumentError` about an expression. -/
def invalid (expression : Text) (what : String) : String :=
  "Invalid format of expression: " ++ String.ofList expression ++ ". " ++ what

/-- `Constraint.isFieldOperand(operand)`. -/
def isFieldOperand (operand : Text) : Bool :=
  match indexOf operand '.' with
  | none => false
  | some firstPointPos =>
      decide (0 < firstPointPos) &&
        match operand[firstPointPos + 1]? with
        | some c => decide (c < '0') || decide ('9' < c)
        | none => false

/-- `isExpression(operand)`; the level is that of the base contract, if there is one. -/
def isExpression (apiLevel : Option ℕ) (operand : Text) : Bool :=
  apiLevel.any (4 ≤ ·) &&
      operations.any (fun op => operand.contains op.2 &&
        (op.1 ≠ .MINUS || (lastIndexOf operand op.2).any (0 < ·))) ||
    roundOperations.any fun op => op.2.toList.isPrefixOf operand

/-- The first loop of `countCommonParentheses`, on what is left of the text, and what follows it. -/
def commonParentheses (expression : Text) : Text → (level commonLevel : ℕ) → Except String ℕ
  | [], level, commonLevel =>
      if commonLevel ≠ level then throw (invalid expression "Expected ')'.") else return commonLevel
  | c :: s, level, commonLevel =>
      if (c :: s).length ≤ commonLevel then
        if commonLevel ≠ level then throw (invalid expression "Expected ')'.")
        else if (c :: s).any (· ≠ ')') then throw (invalid expression "Expected ')'.")
        else return commonLevel
      else if c = '(' then commonParentheses expression s (level + 1) commonLevel
      else if c = ')' then
        if level - 1 = 0 then return 0
        else commonParentheses expression s (level - 1) (min commonLevel (level - 1))
      else commonParentheses expression s level commonLevel

/-- `Constraint.countCommonParentheses(expression)`. -/
def countCommonParentheses (expression : Text) : Except String ℕ :=
  let commonLevel := (expression.takeWhile (· = '(')).length
  if commonLevel = 0 then return 0
  else commonParentheses expression (expression.drop commonLevel) commonLevel commonLevel

/-- The loop of `isTopLevelOperation`, `left` characters before the operation. -/
def topLevelFrom (expression : Text) : Text → (level left : ℕ) → Except String Bool
  | [], _, _ =>
      throw ("Internal parsing error in expression: " ++ String.ofList expression ++ ". opPos not reached.")
  | _ :: _, level, 0 => return level = 0
  | c :: s, level, left + 1 =>
      if c = '(' then topLevelFrom expression s (level + 1) left
      else if c = ')' then
        if level = 0 then throw (invalid expression "Not expected ')'.")
        else topLevelFrom expression s (level - 1) left
      else topLevelFrom expression s level left

/-- `Constraint.isTopLevelOperation(expression, opPos)`. -/
def isTopLevelOperation (expression : Text) (opPos : ℕ) : Except String Bool :=
  topLevelFrom expression expression 0 opPos

/-! ### Parsing -/

/-- `while ((opPos = indexOf(c, opPos + 1)) > 0 && !isTopLevelOperation(expression, opPos))` over the places
    that `indexOf` finds. -/
def seek (expression : Text) : List ℕ → Except String (Option ℕ)
  | [] => return none
  | opPos :: rest => do
      if opPos = 0 then return some 0
      if ← isTopLevelOperation expression opPos then return some opPos
      seek expression rest

/-- That loop for a character from a place on. -/
def seekFrom (expression : Text) (c : Char) (start : ℕ) : Except String (Option ℕ) :=
  seek expression ((occurrences c 0 expression).filter (start ≤ ·))

/-- The loop over `operations`: the operation that is found with its place, or from where the search goes on. A
    sign in front of the expression ends the search for its operation. -/
def seekOperation (expression : Text) :
    List (Arithmetic × Char) → (start : ℕ) → Except String (ℕ ⊕ Arithmetic × ℕ)
  | [], start => return .inl start
  | (operation, c) :: rest, start => do
      match ← seekFrom expression c start with
      | none => seekOperation expression rest 0
      | some 0 => seekOperation expression rest 1
      | some opPos => return .inr (operation, opPos)

/-- The loop over `roundOperations`: the operation, its arguments and the place of the comma between them. -/
def roundingOf (expression : Text) (start : ℕ) :
    List (Rounding × String) → Except String (Rounding × Text × ℕ)
  | [] => throw (invalid expression "Not found top-level operation.")
  | (operation, name) :: rest => do
      if name.toList.isPrefixOf expression then
        if expression.getLast? ≠ some ')' then
          throw (invalid expression "Not expected ')' after rounding operation.")
        let arguments := substring expression name.length (expression.length - 1)
        match ← seekFrom arguments ',' start with
        | none | some 0 => throw (invalid arguments "Not expected ',' after rounding operation.")
        | some opPos => return (operation, arguments, opPos)
      else roundingOf expression start rest

/-- The text in its common parentheses. -/
def withoutParentheses (operand : Text) : Except String (Text × Bool) := do
  let countParentheses ← countCommonParentheses operand
  if 0 < countParentheses then
    return (substring operand countParentheses (operand.length - countParentheses), true)
  return (operand, false)

/-- The type of an operand that is not in parentheses, and its conversion. -/
def operandOf (parse : Text → Except String Expression) (apiLevel : Option ℕ) (operand : Text) :
    Except String (Operand × Conversion) := do
  if isExpression apiLevel operand then return (.EXPRESSION (← parse operand), .NO_CONVERSION)
  else if isFieldOperand operand then
    if "::number".toList.isSuffixOf operand then
      return (.FIELD (substring operand 0 (operand.length - 8)), .CONVERSION_BIG_DECIMAL)
    return (.FIELD operand, .NO_CONVERSION)
  else return (.CONSTOTHER operand, .NO_CONVERSION)

/-- How `parseExpression` reads its left or right operand: with its conversion and whether it was in
    parentheses. -/
def parseOperand (parse : Text → Except String Expression) (apiLevel : Option ℕ) (expression : Text)
    (missing : String) (operand : Text) : Except String (Operand × Conversion × Bool) := do
  if operand = [] then throw (invalid expression missing)
  let (operand, parentheses) ← withoutParentheses operand
  let (operand, conversion) ← operandOf parse apiLevel operand
  return (operand, conversion, parentheses)

/-- `parseExpression(expression, false)` with so many calls of itself. -/
def parse (apiLevel : Option ℕ) : ℕ → Text → Except String Expression
  | 0, _ => throw "RangeError"
  | calls + 1, expression => do
      let (operation, expression, opPos) ← match ← seekOperation expression operations 0 with
        | .inr (operation, opPos) => pure (.arithmetic operation, expression, opPos)
        | .inl start => do
            let (operation, arguments, opPos) ← roundingOf expression start roundOperations
            pure (.rounding operation, arguments, opPos)
      let (leftOperand, leftConversion, leftParentheses) ←
        parseOperand (parse apiLevel calls) apiLevel expression "Missing left operand."
          (substring expression 0 opPos)
      let (rightOperand, rightConversion, rightParentheses) ←
        parseOperand (parse apiLevel calls) apiLevel expression "Missing right operand."
          (substring expression (opPos + 1) expression.length)
      return .mk operation leftOperand rightOperand leftConversion rightConversion leftParentheses rightParentheses

/-- `parseExpression(expression, topLevel)`. -/
def parseExpression (apiLevel : Option ℕ) (expression : Text) (topLevel : Bool) :
    Except String Expression := do
  let expression ← if topLevel then Prod.fst <$> withoutParentheses expression else pure expression
  parse apiLevel (expression.length + 1) expression

/-! ### Values -/

/-- What a field of a contract can hold: `null` stands for `undefined` too, `other` for a value that is none of
    these, with its `typeof` and what `Number` makes of it. -/
inductive Datum where
  | null
  | number (n : Number)
  | bigDecimal (q : ℚ)
  | string (s : String)
  | date (time : ℤ)
  | other (typeOf : String) (asNumber : Number)

/-- What `evaluateExpression` reads: the contracts, their `get`, and the base contract's constraints by name
    with what `isMatchingWithIteration` of them answers. -/
structure Scene (C : Type) where
  get : C → Text → Except String Datum
  baseContract : Option C
  refContract : C
  contracts : List C
  findConstraintByName : C → Text → Option (C → Except String Bool)

/-- A sign in front of a text. -/
def signed : Text → Bool × Text
  | '-' :: s => (true, s)
  | '+' :: s => (false, s)
  | s => (false, s)

/-- A number with its sign. -/
def withSign (minus : Bool) (q : ℚ) : Number := .ofRat (if minus then -q else q)

/-- The digits in front of a text. -/
def leadingDigits (base : ℕ) (s : Text) : List ℕ :=
  ((s.map (baseDigit base)).takeWhile Option.isSome).reduceOption

/-- The base that a text without its sign is read in, and its digits. -/
def radix : Text → ℕ × Text
  | '0' :: 'x' :: s | '0' :: 'X' :: s => (16, s)
  | s => (10, s)

/-- `parseInt(s)`. -/
def parseInt (s : Text) : Number :=
  let (minus, s) := signed (s.dropWhile isSpace)
  let (base, s) := radix s
  match leadingDigits base s with
  | [] => .nan
  | ds => withSign minus (ds.foldl (base * · + ·) 0 : ℕ)

/-- `parseFloat(s)`. -/
def parseFloat (s : Text) : Number :=
  let (minus, s) := signed (s.dropWhile isSpace)
  if "Infinity".toList.isPrefixOf s then Number.infinity minus
  else match s.inits.reverse.findSome? decimalLiteral with
    | none => .nan
    | some q => withSign minus q

/-- `new BigDecimal(s)`. -/
def bigDecimalOf (s : String) : Except String ℚ :=
  match bigText s with
  | none => throw "[big.js] Invalid number"
  | some q => return q

/-- `Constraint.objectCastToBigDecimal(obj, null, compareOperandType.FIELD)`. -/
def objectCastToBigDecimal : Datum → Except String ℚ
  | .null => throw "Error getting operand: null"
  | .bigDecimal q => return q
  | .string s => bigDecimalOf s
  | .number (.fin q) => return q
  | .number _ => throw "[big.js] Invalid number"
  | .date time => return (time / 1000 : ℤ)
  | .other .. => throw "Error parsing BigDecimal from operand: null"

/-- `Number(obj)`. -/
def toNumber : Datum → Number
  | .null => .nan
  | .number n => n
  | .bigDecimal q => .ofRat q
  | .string s => textNumber s
  | .date time => .fin time
  | .other _ n => n

/-- The last contract that matches. -/
def lastMatching {C : Type} (isMatching : C → Except String Bool) :
    Option C → List C → Except String (Option C)
  | found, [] => return found
  | found, c :: cs => do
      if ← isMatching c then lastMatching isMatching (some c) cs else lastMatching isMatching found cs

/-- `evaluateOperand` for a field. -/
def fieldValue {C : Type} (scene : Scene C) (operand : Text) : Except String Datum :=
  let notInitialized := "Use left operand in expression: " ++ String.ofList operand ++
    ". But this contract not initialized."
  if "ref.".toList.isPrefixOf operand then scene.get scene.refContract (operand.drop 4)
  else if "this.".toList.isPrefixOf operand then
    match scene.baseContract with
    | none => throw notInitialized
    | some baseContract => scene.get baseContract (operand.drop 5)
  else match indexOf operand '.' with
    | none | some 0 => throw ("Invalid format of left operand in expression: " ++ String.ofList operand ++
        ". Missing contract field.")
    | some firstPointPos =>
        let name := substring operand 0 firstPointPos
        match scene.baseContract with
        | none => throw notInitialized
        | some baseContract =>
            match scene.findConstraintByName baseContract name with
            | none => throw ("Not found reference: " ++ String.ofList name)
            | some isMatching => do
                match ← lastMatching isMatching none scene.contracts with
                | none => throw ("Not found referenced contract for constraint: " ++ String.ofList name)
                | some c => scene.get c (operand.drop (firstPointPos + 1))

/-- `evaluateOperand` for a constant. -/
def constantValue (operand : Text) (conversion : Conversion) : Except String Datum :=
  if conversion = .CONVERSION_BIG_DECIMAL ∨ 7 < operand.length then
    .bigDecimal <$> bigDecimalOf (String.ofList operand)
  else if operand.contains '.' then return .number (parseFloat operand)
  else return .number (parseInt operand)

/-- The rounding modes of `big.js` that are used. -/
inductive RoundingMode where
  | ROUND_DOWN
  | ROUND_HALF_UP
  | ROUND_UP

/-- `x.round(dp, rm)`. -/
def bigRound (q : ℚ) (dp : Number) (rm : RoundingMode) : Except String ℚ :=
  match dp with
  | .fin d =>
      if d.den ≠ 1 ∨ d < -1000000 ∨ 1000000 < d then throw "[big.js] Invalid decimal places"
      else
        let scale : ℚ := 10 ^ d.num
        let scaled : ℚ := |q * scale|
        let magnitude : ℤ := match rm with
          | .ROUND_DOWN => ⌊scaled⌋
          | .ROUND_HALF_UP => ⌊scaled + 1 / 2⌋
          | .ROUND_UP => ⌈scaled⌉
        return (if q < 0 then -magnitude else magnitude) / scale
  | _ => throw "[big.js] Invalid decimal places"

/-- The rounding mode of an operation on a value. -/
def Rounding.mode (operation : Rounding) (value : ℚ) : RoundingMode :=
  match operation with
  | .ROUND => .ROUND_HALF_UP
  | .FLOOR => if value < 0 then .ROUND_UP else .ROUND_DOWN
  | .CEIL => if value < 0 then .ROUND_DOWN else .ROUND_UP

/-- `left.add(right)` and so on. -/
def Arithmetic.big (operation : Arithmetic) (left right : ℚ) : Except String ℚ :=
  match operation with
  | .PLUS => return left + right
  | .MINUS => return left - right
  | .MULT => return left * right
  | .DIV => if right = 0 then throw "[big.js] Division by zero" else return left / right

/-- `left + right` and so on, each result rounded to a double. -/
def Arithmetic.number (operation : Arithmetic) (left right : Number) : Number :=
  match operation with
  | .PLUS => (left.add right).round
  | .MINUS => (left.sub right).round
  | .MULT => (left.mul right).round
  | .DIV => (left.div right).round

/-- `typeof` for the message about operands. -/
def Datum.typeOf : Datum → String
  | .number _ => "number"
  | .string _ => "string"
  | .other typeOf _ => typeOf
  | .null | .bigDecimal _ | .date _ => "object"

/-- `left instanceof BigDecimal`. -/
def Datum.isBigDecimal : Datum → Bool
  | .bigDecimal _ => true
  | _ => false

/-- The operation on operands that are not null. -/
def operate (operation : Operation) (leftConversion rightConversion : Conversion) (left right : Datum) :
    Except String Datum :=
  match operation with
  | .rounding operation => do
      let value ← objectCastToBigDecimal left
      .bigDecimal <$> bigRound value (toNumber right) (operation.mode value)
  | .arithmetic operation =>
      if leftConversion = .CONVERSION_BIG_DECIMAL ∨ rightConversion = .CONVERSION_BIG_DECIMAL ∨
          left.isBigDecimal ∨ right.isBigDecimal then do
        let left ← objectCastToBigDecimal left
        let right ← objectCastToBigDecimal right
        .bigDecimal <$> operation.big left right
      else match left, right with
        | .number left, .number right => return .number (operation.number left right)
        | left, right =>
            throw ("Incompatible operand types. Left: " ++ left.typeOf ++ ". Right: " ++ right.typeOf)

mutual
/-- `left` or `right` in `evaluateExpression`. -/
def evaluateOperand {C : Type} (scene : Scene C) : Operand → Conversion → Except String Datum
  | .EXPRESSION e, _ => evaluateExpression scene e
  | .FIELD path, _ => fieldValue scene path
  | .CONSTOTHER text, conversion => constantValue text conversion
termination_by structural operand => operand

/-- `evaluateExpression(expression, refContract, contracts, iteration)`. -/
def evaluateExpression {C : Type} (scene : Scene C) : Expression → Except String Datum
  | .mk operation leftOperand rightOperand leftConversion rightConversion _ _ =>
      Except.mapError ("Error evaluate expression: Error: " ++ ·) do
        let left ← evaluateOperand scene leftOperand leftConversion
        let right ← evaluateOperand scene rightOperand rightConversion
        match left, right with
        | .null, _ | _, .null => return .null
        | left, right => operate operation leftConversion rightConversion left right
termination_by structural e => e
end


end Universa.Contracts.Expressions
