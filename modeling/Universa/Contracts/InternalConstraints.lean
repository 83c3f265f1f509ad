import Mathlib.Data.Finset.Insert
import Mathlib.Data.Finset.Lattice.Basic
import Mathlib.Data.List.Basic
import Universa.Contracts.ConditionParse
import Universa.Lib.Acyclic
import Universa.Lib.Comp
import Universa.Lib.References

/-! The names of constraints that `getInternalConstraints` finds in the conditions of a constraint. It follows
    the names in front of the first point of a field operand, through the constraints of the contract that have
    them, 16 constraints deep; a further one is refused. An expression, and the left operand of `can_play` and
    `can_perform`, is not read for names, though evaluation looks the names in them up. -/

namespace Universa.Contracts.InternalConstraints
open Relation Universa.Lib.References Universa.Contracts.Expressions Universa.Contracts.ConditionParse

/-! ### Conditions -/

/-- Conditions as they are stored: nothing (null or an object without entries), an object with `all_of`, else
    with `any_of`, one of the two that is null, a text, a parsed condition, and an object with none of these
    keys. Only the items of a list are texts that `setConditions` or a deserialization of old data leaves. -/
inductive Conditions where
  | empty
  | all_of (condList : List Conditions)
  | any_of (condList : List Conditions)
  | withoutList (mode : String)
  | text (condition : Text)
  | parsed (condition : Condition)
  | unknown

/-- A contract; the constraints that it holds have it as their base contract. -/
structure Contract where
  apiLevel : ℕ
  constraints : List (Text × Conditions)

/-- `findConstraintByName(name)`. -/
def Contract.findConstraintByName (contract : Contract) (name : Text) : Option Conditions :=
  contract.constraints.lookup name

/-- A constraint. -/
structure Constraint where
  baseContract : Option Contract
  conditions : Conditions

/-! ### The search -/

/-- The name in front of the first point of a field, unless it is that of the contracts at hand. -/
def fieldName (path : Text) : Option Text :=
  if "ref.".toList.isPrefixOf path || "this.".toList.isPrefixOf path then none
  else match indexOf path '.' with
    | none | some 0 => none
    | some firstPointPos => some (substring path 0 firstPointPos)

section
variable (baseContract : Option Contract) (internal : Conditions → Except String (Finset Text))

/-- The API level that parsing depends on. -/
def level : Option ℕ := baseContract.map Contract.apiLevel

/-- A name that is found, with what its constraint has. -/
def fromName (side : String) (path constrName : Text) : Except String (Finset Text) :=
  match baseContract with
  | none => throw ("Use " ++ side ++ " operand in condition: " ++ String.ofList path ++
      ". But this contract not initialized.")
  | some contract =>
      match contract.findConstraintByName constrName with
      | none => return {constrName}
      | some constr => do return {constrName} ∪ (← internal constr)

/-- The part of `getInternalConstraintsFromCondition` about one operand. -/
def fromOperand (side : String) : Option ConditionOperand → Except String (Finset Text)
  | some (.FIELD path) =>
      match fieldName path with
      | none => return ∅
      | some constrName => fromName baseContract internal side path constrName
  | _ => return ∅

/-- `getInternalConstraintsFromCondition(condition, iteration)` for a parsed condition; `internal` is
    `getInternalConstraints(iteration + 1)` of the constraint with the conditions. -/
def fromCondition (condition : Condition) : Except String (Finset Text) := do
  let left ← fromOperand baseContract internal "left" condition.leftOperand
  let right ← fromOperand baseContract internal "right" condition.rightOperand
  return left ∪ right

mutual
/-- `getInternalConstraintsFromConditions(conditions, iteration)`. -/
def fromConditions : Conditions → Except String (Finset Text)
  | .empty => return ∅
  | .all_of condList => fromItems condList
  | .any_of condList => fromItems condList
  | .withoutList mode => throw ("Expected " ++ mode ++ " conditions")
  | .text condition => if condition = [] then return ∅ else throw "Expected all_of or any_of"
  | .parsed condition => fromCondition baseContract internal condition
  | .unknown => throw "Expected all_of or any_of"
termination_by structural conditions => conditions

/-- The items of a list; a text is parsed first. -/
def fromItems : List Conditions → Except String (Finset Text)
  | [] => return ∅
  | .text condition :: items => do
      let names ← fromCondition baseContract internal (← parseCondition (level baseContract) condition)
      return names ∪ (← fromItems items)
  | item :: items => do
      let names ← fromConditions item
      return names ∪ (← fromItems items)
termination_by structural items => items
end

end

/-- `getInternalConstraints` with so many more calls before `iteration` is greater than 16. -/
def searchDown (baseContract : Option Contract) : ℕ → Conditions → Except String (Finset Text)
  | 0, _ => throw "Recursive checking constraints have more 16 iterations"
  | left + 1, conditions => fromConditions baseContract (searchDown baseContract left) conditions

/-- `getInternalConstraints(iteration)`. -/
def getInternalConstraints (constraint : Constraint) (iteration : ℕ) : Except String (Finset Text) :=
  searchDown constraint.baseContract (17 - iteration) constraint.conditions

/-! ### What conditions mention -/

mutual
/-- The names that evaluation of an operand looks up. -/
def operandNames : Operand → List Text
  | .EXPRESSION e => expressionNames e
  | .FIELD path => (fieldName path).toList
  | .CONSTOTHER _ => []
termination_by structural operand => operand

/-- The names that `evaluateExpression` looks up. -/
def expressionNames : Expression → List Text
  | .mk _ leftOperand rightOperand _ _ _ _ => operandNames leftOperand ++ operandNames rightOperand
termination_by structural e => e
end

/-- The names in an operand of a condition. -/
def sideNames : Option ConditionOperand → List Text
  | some (.EXPRESSION e) => expressionNames e
  | some (.FIELD path) => (fieldName path).toList
  | _ => []

/-- The name that is the left operand of `can_play` or `can_perform`. -/
def playerName (condition : Condition) : List Text :=
  match condition.leftOperand with
  | some (.CONSTOTHER text) =>
      if (condition.operator = .CAN_PLAY ∨ condition.operator = .CAN_PERFORM) ∧
        text ≠ "ref".toList ∧ text ≠ "this".toList then [text] else []
  | _ => []

/-- The names that a condition mentions, in every form of operand. -/
def names (condition : Condition) : List Text :=
  sideNames condition.leftOperand ++ playerName condition ++ sideNames condition.rightOperand

/-- The name in a field operand. -/
def fieldNames : Option ConditionOperand → List Text
  | some (.FIELD path) => (fieldName path).toList
  | _ => []

/-- The names in the field operands of a condition. -/
def plainNames (condition : Condition) : List Text :=
  fieldNames condition.leftOperand ++ fieldNames condition.rightOperand

mutual
/-- The single conditions, parsed. -/
def conditionsOf (apiLevel : Option ℕ) : Conditions → Except String (List Condition)
  | .empty => return []
  | .all_of condList => conditionsOfItems apiLevel condList
  | .any_of condList => conditionsOfItems apiLevel condList
  | .withoutList mode => throw ("Expected " ++ mode ++ " conditions")
  | .text condition => if condition = [] then return [] else throw "Expected all_of or any_of"
  | .parsed condition => return [condition]
  | .unknown => throw "Expected all_of or any_of"
termination_by structural conditions => conditions

/-- The single conditions of a list. -/
def conditionsOfItems (apiLevel : Option ℕ) : List Conditions → Except String (List Condition)
  | [] => return []
  | .text condition :: items => do
      let parsed ← parseCondition apiLevel condition
      return [parsed] ++ (← conditionsOfItems apiLevel items)
  | item :: items => do
      let conditions ← conditionsOf apiLevel item
      return conditions ++ (← conditionsOfItems apiLevel items)
termination_by structural items => items
end

namespace Contract
variable (contract : Contract)

/-- Conditions that mention a name; `of` says which names of a single condition are looked at. -/
def Mentions (of : Condition → List Text) (conditions : Conditions) (name : Text) : Prop :=
  ∃ cs, conditionsOf (some contract.apiLevel) conditions = .ok cs ∧ ∃ c ∈ cs, name ∈ of c

/-- The names of constraints that are reached from conditions, by operands of every form. -/
def Reachable (conditions : Conditions) (name : Text) : Prop :=
  Reaches (contract.Mentions names) contract.findConstraintByName conditions name

/-- The conditions of a constraint refer to a constraint of the contract. -/
def Refers : Conditions → Conditions → Prop := Leads (contract.Mentions names) contract.findConstraintByName

/-- A chain of so many constraints that refer to the next begins in the conditions. -/
def Chained (k : ℕ) (conditions : Conditions) : Prop :=
  Deep (contract.Mentions names) contract.findConstraintByName k conditions

/-- Conditions that can be parsed, where each name that is mentioned is mentioned by a field operand. -/
def Plain (conditions : Conditions) : Prop :=
  ∃ cs, conditionsOf (some contract.apiLevel) conditions = .ok cs ∧
    ∀ c ∈ cs, ∀ name ∈ names c, ∃ c' ∈ cs, name ∈ plainNames c'

end Contract

/-! ### What the search finds -/

/-- A search that finds what has the property, unless it goes too deep. -/
def Searched (P : Text → Prop) (deep : Prop) (result : Except String (Finset Text)) : Prop :=
  (¬ deep → ∃ names, result = .ok names ∧ ∀ name, name ∈ names ↔ P name) ∧
    (deep → result = .error "Recursive checking constraints have more 16 iterations")

theorem searched_pure {P : Text → Prop} {deep : Prop} {names : Finset Text} (hdeep : ¬ deep)
    (h : ∀ name, name ∈ names ↔ P name) : Searched P deep (pure names) :=
  ⟨fun _ => ⟨names, rfl, h⟩, fun hd => absurd hd hdeep⟩

theorem searched_union {P Q : Text → Prop} {d e : Prop} {r r' : Except String (Finset Text)}
    (h : Searched P d r) (h' : Searched Q e r') :
    Searched (fun name => P name ∨ Q name) (d ∨ e) (do return (← r) ∪ (← r')) := by
  refine ⟨fun hno => ?_, fun hdeep => ?_⟩
  · obtain ⟨names, rfl, hnames⟩ := h.1 fun hd => hno (Or.inl hd)
    obtain ⟨names', rfl, hnames'⟩ := h'.1 fun he => hno (Or.inr he)
    exact ⟨names ∪ names', rfl, fun name => by rw [Finset.mem_union, hnames, hnames']⟩
  · by_cases hd : d
    · rw [h.2 hd]
      rfl
    · obtain ⟨names, rfl, -⟩ := h.1 hd
      rw [h'.2 (hdeep.resolve_left hd)]
      rfl

theorem searched_congr {P Q : Text → Prop} {d e : Prop} {r : Except String (Finset Text)} (h : Searched P d r)
    (hPQ : ∀ name, P name ↔ Q name) (hde : d ↔ e) : Searched Q e r := by
  obtain rfl : d = e := propext hde
  obtain rfl : P = Q := funext fun name => propext (hPQ name)
  exact h

section
variable {contract : Contract} {internal : Conditions → Except String (Finset Text)}
  {R : Conditions → Text → Prop} {D : Conditions → Prop}

/-- The searches that a name leads to are as they should be. -/
def Onward (contract : Contract) (internal : Conditions → Except String (Finset Text))
    (R : Conditions → Text → Prop) (D : Conditions → Prop) (via : Text) : Prop :=
  ∀ constr, contract.findConstraintByName via = some constr → Searched (R constr) (D constr) (internal constr)

/-- What is found by way of some names. -/
def Via (contract : Contract) (R : Conditions → Text → Prop) (vias : List Text) (name : Text) : Prop :=
  ∃ via ∈ vias, name = via ∨ ∃ constr, contract.findConstraintByName via = some constr ∧ R constr name

/-- One of the names leads too deep. -/
def ViaDeep (contract : Contract) (D : Conditions → Prop) (vias : List Text) : Prop :=
  ∃ via ∈ vias, ∃ constr, contract.findConstraintByName via = some constr ∧ D constr

theorem searched_none : Searched (Via contract R []) (ViaDeep contract D []) (pure ∅) :=
  searched_pure (by simp [ViaDeep]) (by simp [Via])

theorem searched_append {vias vias' : List Text} {r r' : Except String (Finset Text)}
    (h : Searched (Via contract R vias) (ViaDeep contract D vias) r)
    (h' : Searched (Via contract R vias') (ViaDeep contract D vias') r') :
    Searched (Via contract R (vias ++ vias')) (ViaDeep contract D (vias ++ vias'))
      (do return (← r) ∪ (← r')) := by
  refine searched_congr (searched_union h h') (fun name => ?_) ?_
  · simp only [Via, List.mem_append, or_and_right, exists_or]
  · simp only [ViaDeep, List.mem_append, or_and_right, exists_or]

theorem fromName_searched (side : String) (path via : Text) (h : Onward contract internal R D via) :
    Searched (Via contract R [via]) (ViaDeep contract D [via])
      (fromName (some contract) internal side path via) := by
  rw [fromName]
  cases hfind : contract.findConstraintByName via with
  | none => exact searched_pure (by simp [ViaDeep, hfind]) (by simp [Via, hfind])
  | some constr =>
      have hown : Searched (fun name => name = via) False (pure {via}) :=
        searched_pure id fun name => Finset.mem_singleton
      refine searched_congr (searched_union hown (h constr hfind)) (fun name => ?_) ?_
      · simp [Via, hfind]
      · simp [ViaDeep, hfind]

theorem fromOperand_searched (side : String) (operand : Option ConditionOperand)
    (h : ∀ via ∈ fieldNames operand, Onward contract internal R D via) :
    Searched (Via contract R (fieldNames operand)) (ViaDeep contract D (fieldNames operand))
      (fromOperand (some contract) internal side operand) := by
  rcases operand with _ | e | path | text | text
  · exact searched_none
  · exact searched_none
  · rw [fieldNames] at h ⊢
    rw [fromOperand]
    cases hname : fieldName path with
    | none => exact searched_none
    | some via => exact fromName_searched side path via (h via (by simp [hname]))
  · exact searched_none
  · exact searched_none

theorem fromCondition_searched (c : Condition) (h : ∀ via ∈ plainNames c, Onward contract internal R D via) :
    Searched (Via contract R (plainNames c)) (ViaDeep contract D (plainNames c))
      (fromCondition (some contract) internal c) := by
  refine searched_append ?_ ?_
  · exact fromOperand_searched _ _ fun via hvia => h via (List.mem_append_left _ hvia)
  · exact fromOperand_searched _ _ fun via hvia => h via (List.mem_append_right _ hvia)

mutual
/-- The search of conditions that can be parsed. -/
theorem fromConditions_searched : ∀ (conditions : Conditions) (cs : List Condition),
    conditionsOf (some contract.apiLevel) conditions = .ok cs →
    (∀ via ∈ cs.flatMap plainNames, Onward contract internal R D via) →
    Searched (Via contract R (cs.flatMap plainNames)) (ViaDeep contract D (cs.flatMap plainNames))
      (fromConditions (some contract) internal conditions)
  | .empty, cs, hcs, _ => by
      rw [conditionsOf] at hcs
      cases hcs
      exact searched_none
  | .all_of items, cs, hcs, h => by
      rw [conditionsOf] at hcs
      rw [fromConditions]
      exact fromItems_searched items cs hcs h
  | .any_of items, cs, hcs, h => by
      rw [conditionsOf] at hcs
      rw [fromConditions]
      exact fromItems_searched items cs hcs h
  | .withoutList mode, cs, hcs, _ => by
      rw [conditionsOf] at hcs
      cases hcs
  | .text condition, cs, hcs, _ => by
      rw [conditionsOf] at hcs
      by_cases hempty : condition = []
      · rw [if_pos hempty] at hcs
        cases hcs
        rw [fromConditions, if_pos hempty]
        exact searched_none
      · rw [if_neg hempty] at hcs
        cases hcs
  | .parsed condition, cs, hcs, h => by
      rw [conditionsOf] at hcs
      cases hcs
      rw [List.flatMap_singleton] at h ⊢
      rw [fromConditions]
      exact fromCondition_searched condition h
  | .unknown, cs, hcs, _ => by
      rw [conditionsOf] at hcs
      cases hcs

theorem fromItems_searched : ∀ (items : List Conditions) (cs : List Condition),
    conditionsOfItems (some contract.apiLevel) items = .ok cs →
    (∀ via ∈ cs.flatMap plainNames, Onward contract internal R D via) →
    Searched (Via contract R (cs.flatMap plainNames)) (ViaDeep contract D (cs.flatMap plainNames))
      (fromItems (some contract) internal items)
  | [], cs, hcs, _ => by
      rw [conditionsOfItems] at hcs
      cases hcs
      exact searched_none
  | item :: items, cs, hcs, h => by
      by_cases htext : ∃ condition, item = .text condition
      · obtain ⟨condition, rfl⟩ := htext
        rw [conditionsOfItems] at hcs
        obtain ⟨parsed, hparsed, hcs⟩ := Except.bind_eq_ok.mp hcs
        obtain ⟨cs, htail, hcs⟩ := Except.bind_eq_ok.mp hcs
        cases hcs
        rw [List.singleton_append, List.flatMap_cons] at h ⊢
        have hhead := fromCondition_searched parsed fun via hvia => h via (List.mem_append_left _ hvia)
        have hrest := fromItems_searched items cs htail fun via hvia => h via (List.mem_append_right _ hvia)
        rw [fromItems, show parseCondition (level (some contract)) condition = .ok parsed from hparsed]
        exact searched_append hhead hrest
      · have hitem : ∀ condition, item = .text condition → False := fun condition he => htext ⟨condition, he⟩
        rw [conditionsOfItems.eq_3 _ _ _ hitem] at hcs
        obtain ⟨head, hhead, hcs⟩ := Except.bind_eq_ok.mp hcs
        obtain ⟨cs, htail, hcs⟩ := Except.bind_eq_ok.mp hcs
        cases hcs
        rw [List.flatMap_append] at h ⊢
        rw [fromItems.eq_3 _ _ _ _ hitem]
        exact searched_append
          (fromConditions_searched item head hhead fun via hvia => h via (List.mem_append_left _ hvia))
          (fromItems_searched items cs htail fun via hvia => h via (List.mem_append_right _ hvia))
end

end

namespace Contract
variable {contract : Contract}

theorem mem_of_find {name : Text} {constr : Conditions} (h : contract.findConstraintByName name = some constr) :
    (name, constr) ∈ contract.constraints := by
  obtain ⟨before, after, hsplit, -⟩ := List.lookup_eq_some_iff.mp h
  exact hsplit ▸ List.mem_append_right _ (List.mem_cons_self ..)

/-- What field operands mention is mentioned. -/
theorem mentions_of_plain {conditions : Conditions} {name : Text}
    (h : contract.Mentions plainNames conditions name) : contract.Mentions names conditions name := by
  obtain ⟨cs, hcs, c, hc, hname⟩ := h
  refine ⟨cs, hcs, c, hc, ?_⟩
  have hside : ∀ operand, name ∈ fieldNames operand → name ∈ sideNames operand := by
    rintro (_ | e | path | text | text) ho
    · exact absurd ho List.not_mem_nil
    · exact absurd ho List.not_mem_nil
    · exact ho
    · exact absurd ho List.not_mem_nil
    · exact absurd ho List.not_mem_nil
  rcases List.mem_append.mp hname with hl | hr
  · exact List.mem_append_left _ (List.mem_append_left _ (hside _ hl))
  · exact List.mem_append_right _ (hside _ hr)

theorem Plain.mentions {conditions : Conditions} (h : contract.Plain conditions) {name : Text}
    (hname : contract.Mentions names conditions name) : contract.Mentions plainNames conditions name := by
  obtain ⟨cs, hcs, hplain⟩ := h
  obtain ⟨cs', hcs', c, hc, hn⟩ := hname
  obtain rfl : cs = cs' := Except.ok.inj (hcs.symm.trans hcs')
  obtain ⟨c', hc', hn'⟩ := hplain c hc name hn
  exact ⟨cs, hcs, c', hc', hn'⟩

theorem mentions_iff {of : Condition → List Text} {conditions : Conditions} {cs : List Condition}
    (hcs : conditionsOf (some contract.apiLevel) conditions = .ok cs) {name : Text} :
    contract.Mentions of conditions name ↔ name ∈ cs.flatMap of := by
  rw [List.mem_flatMap]
  constructor
  · rintro ⟨cs', hcs', hname⟩
    obtain rfl : cs = cs' := Except.ok.inj (hcs.symm.trans hcs')
    exact hname
  · exact fun hname => ⟨cs, hcs, hname⟩

/-- The search with so many calls left, where all conditions on the way can be parsed: it finds what is reached
    by field operands. -/
theorem searchDown_searched : ∀ (left : ℕ) (conditions : Conditions),
    (∀ c, ReflTransGen (Leads (contract.Mentions plainNames) contract.findConstraintByName) conditions c →
      ∃ cs, conditionsOf (some contract.apiLevel) c = .ok cs) →
    Searched (Reaches (contract.Mentions plainNames) contract.findConstraintByName conditions)
      (Deep (contract.Mentions plainNames) contract.findConstraintByName left conditions)
      (searchDown (some contract) left conditions)
  | 0, _, _ => ⟨fun hno => absurd trivial hno, fun _ => rfl⟩
  | left + 1, conditions, hparsed => by
      obtain ⟨cs, hcs⟩ := hparsed conditions .refl
      have honward : ∀ via ∈ cs.flatMap plainNames, Onward contract (searchDown (some contract) left)
          (Reaches (contract.Mentions plainNames) contract.findConstraintByName)
          (Deep (contract.Mentions plainNames) contract.findConstraintByName left) via := by
        intro via hvia constr hfind
        have hleads : Leads (contract.Mentions plainNames) contract.findConstraintByName conditions constr :=
          ⟨via, (mentions_iff hcs).mpr hvia, hfind⟩
        exact searchDown_searched left constr fun c hc => hparsed c (.head hleads hc)
      refine searched_congr (fromConditions_searched conditions cs hcs honward) (fun name => ?_) ?_
      · rw [reaches_iff, mentions_iff hcs]
        constructor
        · rintro ⟨via, hvia, rfl | ⟨constr, hfind, hreach⟩⟩
          · exact Or.inl hvia
          · exact Or.inr ⟨constr, ⟨via, (mentions_iff hcs).mpr hvia, hfind⟩, hreach⟩
        · rintro (hname | ⟨constr, ⟨via, hvia, hfind⟩, hreach⟩)
          · exact ⟨name, hname, Or.inl rfl⟩
          · exact ⟨via, (mentions_iff hcs).mp hvia, Or.inr ⟨constr, hfind, hreach⟩⟩
      · constructor
        · rintro ⟨via, hvia, constr, hfind, hdeep⟩
          exact ⟨constr, ⟨via, (mentions_iff hcs).mpr hvia, hfind⟩, hdeep⟩
        · rintro ⟨constr, ⟨via, hvia, hfind⟩, hdeep⟩
          exact ⟨via, (mentions_iff hcs).mp hvia, constr, hfind, hdeep⟩

end Contract

/-- CORRECT (internal constraints): where each name is mentioned by a field operand too, the names that are
    found are those that are reached, in a graph of any shape without a chain of more than 16 constraints; with
    a longer chain, or a cycle, the search is refused. -/
theorem getInternalConstraints_complete (contract : Contract) (conditions : Conditions)
    (hplain : ∀ c, ReflTransGen contract.Refers conditions c → contract.Plain c) :
    (¬ contract.Chained 17 conditions → ∃ names,
      getInternalConstraints ⟨some contract, conditions⟩ 0 = .ok names ∧
        ∀ name, name ∈ names ↔ contract.Reachable conditions name) ∧
    (contract.Chained 17 conditions → getInternalConstraints ⟨some contract, conditions⟩ 0 =
      .error "Recursive checking constraints have more 16 iterations") := by
  have hpart : ∀ c name, contract.Mentions plainNames c name → contract.Mentions names c name :=
    fun _ _ => Contract.mentions_of_plain
  have hall : ∀ c, ReflTransGen contract.Refers conditions c → ∀ name, contract.Mentions names c name →
      contract.Mentions plainNames c name := fun c hc _ => (hplain c hc).mentions
  have hparsed : ∀ c, ReflTransGen (Leads (contract.Mentions plainNames) contract.findConstraintByName)
      conditions c → ∃ cs, conditionsOf (some contract.apiLevel) c = .ok cs := by
    intro c hc
    have hrefers : ReflTransGen contract.Refers conditions c :=
      ReflTransGen.mono (fun _ _ ⟨via, hvia, hfind⟩ => ⟨via, hpart _ _ hvia, hfind⟩) _ _ hc
    obtain ⟨cs, hcs, -⟩ := hplain c hrefers
    exact ⟨cs, hcs⟩
  exact searched_congr (Contract.searchDown_searched 17 conditions hparsed)
    (fun _ => reaches_congr hpart hall) (deep_congr hpart 17 conditions hall)

/-- A contract with a constraint that a condition in a text refers to. -/
def oneConstraint : Contract := ⟨4, [("other".toList, .empty)]⟩

/-- That condition. -/
def aboutOther : Conditions := .all_of [.text "other.state.data.x defined".toList]

/-- What the condition is when it is parsed. -/
def aboutOtherParsed : Condition :=
  ⟨.DEFINED, some (.FIELD "other.state.data.x".toList), none, .NO_CONVERSION, .NO_CONVERSION⟩

theorem aboutOther_conditions : conditionsOf (some 4) aboutOther = .ok [aboutOtherParsed] := by
  have hparse : parseCondition (some 4) "other.state.data.x defined".toList = .ok aboutOtherParsed := rfl
  rw [aboutOther, conditionsOf, conditionsOfItems, hparse]
  rfl

theorem oneConstraint_refers {c d : Conditions} (h : oneConstraint.Refers c d) : d = .empty := by
  obtain ⟨name, -, hfind⟩ := h
  exact (Prod.mk.inj (List.mem_singleton.mp (Contract.mem_of_find hfind))).2

theorem getInternalConstraints_complete_one : ∃ found,
    getInternalConstraints ⟨some oneConstraint, aboutOther⟩ 0 = .ok found ∧
      ∀ name, name ∈ found ↔ oneConstraint.Reachable aboutOther name := by
  have hempty : ∀ name, ¬ oneConstraint.Mentions names .empty name := by
    rintro name ⟨cs, hcs, c, hc, -⟩
    rw [conditionsOf] at hcs
    cases hcs
    exact absurd hc List.not_mem_nil
  refine (getInternalConstraints_complete oneConstraint aboutOther fun c hc => ?_).1 ?_
  · rcases ReflTransGen.cases_tail hc with rfl | ⟨b, -, hstep⟩
    · refine ⟨_, aboutOther_conditions, fun c hc name hname => ⟨c, hc, ?_⟩⟩
      rw [List.mem_singleton] at hc
      subst hc
      exact hname
    · obtain rfl := oneConstraint_refers hstep
      exact ⟨[], by rw [conditionsOf]; rfl, fun _ hc => absurd hc List.not_mem_nil⟩
  · rintro ⟨b, hab, c, ⟨name, hname, -⟩, -⟩
    obtain rfl := oneConstraint_refers hab
    exact hempty name hname

/-! ### A chain of 17 constraints -/

/-- The name `aa…a` of a constraint. -/
def chainName (i : ℕ) : Text := List.replicate (i + 1) 'a'

/-- The condition that a field of the contract of the constraint with that name is defined. -/
def chainLink (i : ℕ) : Conditions :=
  .parsed ⟨.DEFINED, some (.FIELD (chainName i ++ ".b".toList)), none, .NO_CONVERSION, .NO_CONVERSION⟩

/-- 17 constraints, each with a condition about the next; the last has no conditions. -/
def chainContract : Contract :=
  ⟨4, (List.range 17).map fun i => (chainName i, if i < 16 then chainLink (i + 1) else .empty)⟩

theorem chainContract_find {name : Text} {constr : Conditions}
    (h : chainContract.findConstraintByName name = some constr) :
    ∃ i < 17, name = chainName i ∧ constr = if i < 16 then chainLink (i + 1) else .empty := by
  obtain ⟨i, hi, he⟩ := List.mem_map.mp (Contract.mem_of_find h)
  obtain ⟨rfl, rfl⟩ := Prod.mk.inj he
  exact ⟨i, List.mem_range.mp hi, rfl, rfl⟩

theorem chainLink_mentions {i : ℕ} (hi : i < 17) {name : Text}
    (h : chainContract.Mentions names (chainLink i) name) : name = chainName i := by
  have hfield : ∀ i < 17, fieldName (chainName i ++ ".b".toList) = some (chainName i) := by decide
  obtain ⟨cs, hcs, c, hc, hname⟩ := h
  rw [chainLink, conditionsOf] at hcs
  cases hcs
  rw [List.mem_singleton] at hc
  subst hc
  have hname : fieldName (chainName i ++ ".b".toList) = some name := by
    simpa [names, sideNames, playerName] using hname
  exact (Option.some.inj ((hfield i hi).symm.trans hname)).symm

/-- A constraint of one name refers to the other name. -/
def Contract.NameRefers (contract : Contract) (a b : Text) : Prop :=
  ∃ constr, contract.findConstraintByName a = some constr ∧ contract.Mentions names constr b

theorem chainContract_acyclic : Lib.Acyclic chainContract.NameRefers := by
  refine Lib.acyclic_of_rank (fun name => 18 - name.length) ?_
  rintro a b ⟨constr, hfind, hmentions⟩
  obtain ⟨i, hi, rfl, rfl⟩ := chainContract_find hfind
  by_cases hlast : i < 16
  · rw [if_pos hlast] at hmentions
    rw [chainLink_mentions (by omega) hmentions]
    simp only [chainName, List.length_replicate]
    omega
  · rw [if_neg hlast] at hmentions
    obtain ⟨cs, hcs, c, hc, -⟩ := hmentions
    rw [conditionsOf] at hcs
    cases hcs
    exact absurd hc List.not_mem_nil

/-- The names are not found in every graph without cycles. -/
theorem getInternalConstraints_tooDeep : ¬ ∀ (contract : Contract) (conditions : Conditions),
    Lib.Acyclic contract.NameRefers → ∃ names,
      getInternalConstraints ⟨some contract, conditions⟩ 0 = .ok names ∧
        ∀ name, name ∈ names ↔ contract.Reachable conditions name := by
  intro h
  obtain ⟨names, hnames, -⟩ := h chainContract (chainLink 0) chainContract_acyclic
  have herror : getInternalConstraints ⟨some chainContract, chainLink 0⟩ 0 =
      .error "Recursive checking constraints have more 16 iterations" := rfl
  rw [herror] at hnames
  cases hnames

end Universa.Contracts.InternalConstraints
