import Universa.Contracts.Expression
import Universa.Js.Value

/-! How a condition in a text is read: `parseCondition` of a constraint. The operators are tried in the order of
    their groups, and the first place of an operator that is not between quotes parts the text. -/

namespace Universa.Contracts.ConditionParse
open Universa.Js Universa.Contracts.Expressions

/-- The operators of conditions. -/
inductive Operator where
  | DEFINED
  | UNDEFINED
  | LESS_OR_EQUAL
  | MORE_OR_EQUAL
  | LESS
  | MORE
  | NOT_EQUAL
  | EQUAL
  | MATCHES
  | IS_A
  | IS_INHERIT
  | INHERITS
  | INHERIT
  | CAN_PLAY
  | IN
  | CAN_PERFORM
  deriving DecidableEq

/-- `simpleUnaryOperators` in their order, with their texts. -/
def simpleUnaryOperators : List (Operator × String) := [(.DEFINED, " defined"), (.UNDEFINED, " undefined")]

/-- `simpleBinaryOperators` in their order. -/
def simpleBinaryOperators : List (Operator × String) :=
  [(.LESS_OR_EQUAL, "<="), (.MORE_OR_EQUAL, ">="), (.LESS, "<"), (.MORE, ">"), (.NOT_EQUAL, "!="),
    (.EQUAL, "=="), (.MATCHES, " matches "), (.IS_A, " is_a "), (.IS_INHERIT, " is_inherit "), (.IN, " in ")]

/-- `inheritanceOperators`. -/
def inheritanceOperators : List (Operator × String) := [(.INHERITS, "inherits "), (.INHERIT, "inherit ")]

/-- `roleOperators`. -/
def roleOperators : List (Operator × String) := [(.CAN_PLAY, " can_play "), (.CAN_PERFORM, " can_perform ")]

/-- The binary operators whose number is above that of `EQUAL`. -/
def Operator.afterEqual : Operator → Bool
  | .MATCHES | .IS_A | .IS_INHERIT | .IN => true
  | _ => false

/-- An operand of a condition, with its type as the constructor. -/
inductive ConditionOperand where
  | EXPRESSION (e : Expression)
  | FIELD (path : Text)
  | CONSTSTR (text : Text)
  | CONSTOTHER (text : Text)

/-- The object that `parseCondition` returns; an operand can be null. -/
structure Condition where
  operator : Operator
  leftOperand : Option ConditionOperand
  rightOperand : Option ConditionOperand
  leftConversion : Conversion
  rightConversion : Conversion

/-- The places of a text in another that begins at place `p`. -/
def places (part : Text) (p : ℕ) : Text → List ℕ
  | [] => if part = [] then [p] else []
  | c :: s => if part.isPrefixOf (c :: s) then p :: places part (p + 1) s else places part (p + 1) s

/-- `s.replace(/\s/g, "")`. -/
def withoutSpaces (s : Text) : Text := s.filter (!isSpace ·)

/-- The message of an `IllegalArgumentError` about a condition. -/
def invalidCondition (condition : Text) (what : String) : String :=
  "Invalid format of condition: " ++ String.ofList condition ++ ". " ++ what

/-- A field with the conversion that ends it. -/
def convertedField (operand : Text) : Text × Conversion :=
  if "::number".toList.isSuffixOf operand then
    (substring operand 0 (operand.length - 8), .CONVERSION_BIG_DECIMAL)
  else (operand, .NO_CONVERSION)

/-- The first place of an operator that is not between the first and the last quote. -/
def operatorPlace (condition operator : Text) : Option ℕ :=
  (places operator 0 condition).find? fun operPos =>
    !((indexOf condition '"').any (· < operPos) && (lastIndexOf condition '"').any (operPos < ·))

/-- How one side of a binary operator is read. -/
def binaryOperand (apiLevel : Option ℕ) (condition : Text) (operator : Operator) (side : String)
    (text : Text) : Except String (ConditionOperand × Conversion) := do
  if text = [] then throw (invalidCondition condition ("Missing " ++ side ++ " operand."))
  match indexOf text '"', lastIndexOf text '"' with
  | some markPos1, some markPos2 =>
      if markPos1 = markPos2 then
        throw (invalidCondition condition ("Only one quote is found for " ++ side ++ " operand."))
      return (.CONSTSTR (substring text (markPos1 + 1) markPos2), .NO_CONVERSION)
  | _, _ =>
      let operand := withoutSpaces text
      if isExpression apiLevel operand then
        if operator.afterEqual then
          throw (invalidCondition condition
            ("Operator incompatible with expression in " ++ side ++ " operand."))
        return (.EXPRESSION (← parseExpression apiLevel operand true), .NO_CONVERSION)
      else if isFieldOperand operand then
        return ((.FIELD (convertedField operand).1), (convertedField operand).2)
      else return (.CONSTOTHER operand, .NO_CONVERSION)

/-- The loop over `simpleUnaryOperators`: a condition that ends with the operator. -/
def parseUnary (condition : Text) : Option Condition :=
  simpleUnaryOperators.findSome? fun (operator, name) =>
    if name.toList.isSuffixOf condition then
      let field := convertedField (withoutSpaces (substring condition 0 (condition.length - name.length)))
      some ⟨operator, some (.FIELD field.1), none, field.2, .NO_CONVERSION⟩
    else none

/-- The loop over `simpleBinaryOperators`. -/
def parseBinary (apiLevel : Option ℕ) (condition : Text) :
    List (Operator × String) → Except String (Option Condition)
  | [] => return none
  | (operator, name) :: rest =>
      match operatorPlace condition name.toList with
      | none => parseBinary apiLevel condition rest
      | some operPos => do
          let (leftOperand, leftConversion) ←
            binaryOperand apiLevel condition operator "left" (condition.take operPos)
          let (rightOperand, rightConversion) ←
            binaryOperand apiLevel condition operator "right" (condition.drop (operPos + name.length))
          return some ⟨operator, some leftOperand, some rightOperand, leftConversion, rightConversion⟩

/-- The loop over `inheritanceOperators`: the first place of the operator, unless it is the end of a name. -/
def parseInheritance (condition : Text) : List (Operator × String) → Except String (Option Condition)
  | [] => return none
  | (operator, name) :: rest =>
      match (places name.toList 0 condition).head? with
      | none => parseInheritance condition rest
      | some operPos => do
          if 0 < operPos ∧ condition[operPos - 1]? = some '_' then parseInheritance condition rest
          else
            let text := condition.drop (operPos + name.length)
            if text = [] then throw (invalidCondition condition "Missing right operand.")
            let field := convertedField (withoutSpaces text)
            return some ⟨operator, none, some (.FIELD field.1), .NO_CONVERSION, field.2⟩

/-- The loop over `roleOperators`; the left text is not empty, since the place of the operator is not 0. -/
def parseRole (condition : Text) : List (Operator × String) → Except String (Option Condition)
  | [] => return none
  | (operator, name) :: rest =>
      match (places name.toList 0 condition).head? with
      | none | some 0 => parseRole condition rest
      | some operPos => do
          let leftOperand := withoutSpaces (condition.take operPos)
          if leftOperand.contains '.' then
            throw (invalidCondition condition "Left operand must be a constraint to a contract.")
          let text := condition.drop (operPos + name.length)
          if text = [] then throw (invalidCondition condition "Missing right operand.")
          let rightOperand := withoutSpaces text
          if ¬ isFieldOperand rightOperand then
            throw (invalidCondition condition "Right operand must be a role field.")
          return some ⟨operator, some (.CONSTOTHER leftOperand), some (.FIELD rightOperand),
            .NO_CONVERSION, .NO_CONVERSION⟩

/-- `parseCondition(condition)`; the level is that of the base contract, if there is one. -/
def parseCondition (apiLevel : Option ℕ) (condition : Text) : Except String Condition := do
  if let some parsed := parseUnary condition then return parsed
  if let some parsed ← parseBinary apiLevel condition simpleBinaryOperators then return parsed
  if let some parsed ← parseInheritance condition inheritanceOperators then return parsed
  if let some parsed ← parseRole condition roleOperators then return parsed
  throw ("Invalid format of condition: " ++ String.ofList condition)

end Universa.Contracts.ConditionParse
