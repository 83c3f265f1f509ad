import Mathlib.Tactic.Ring
import Universa.Contracts.Expression
import Universa.Lib.Chain

/-! Arithmetic as it is written by convention: sums of products of constants, fields and sums in parentheses,
    with operators of one rank associating to the left. Beside the conventional value stands the grouping that a
    parser makes which splits at the first operator of a kind, and where the two have one value. -/

namespace Universa.Contracts.Expressions
open Universa.Js Universa.Lib

/-! ### Formulas -/

/-- An integer constant without its sign. -/
structure Constant where
  digits : Text
  nonempty : digits ≠ []
  areDigits : ∀ d ∈ digits, d.isDigit = true

/-- A field, with or without `::number`. -/
structure Field where
  path : Text
  converted : Bool
  plain : ∀ c ∈ path, c ∉ "+-*/()".toList
  isField : isFieldOperand path = true
  named : converted = false → ¬ "::number".toList <:+ path

mutual
/-- Terms with `+` and `-` between them. -/
inductive Formula where
  | term (t : Term)
  | plus (s : Formula) (t : Term)
  | minus (s : Formula) (t : Term)

/-- Factors with `*` and `/` between them. -/
inductive Term where
  | factor (f : Factor)
  | times (t : Term) (f : Factor)
  | over (t : Term) (f : Factor)

/-- A constant, a field or a formula in parentheses, each with a minus sign or without. -/
inductive Factor where
  | constant (sign : Bool) (c : Constant)
  | field (sign : Bool) (f : Field)
  | parentheses (sign : Bool) (s : Formula)
end

/-! ### Texts -/

/-- A sign as text. -/
def signText (sign : Bool) : Text := if sign then ['-'] else []

/-- The text of a field. -/
def Field.text (f : Field) : Text := f.path ++ if f.converted then "::number".toList else []

mutual
/-- How the formula is written. -/
def Formula.text : Formula → Text
  | .term t => t.text
  | .plus s t => s.text ++ '+' :: t.text
  | .minus s t => s.text ++ '-' :: t.text

/-- How the term is written. -/
def Term.text : Term → Text
  | .factor f => f.text
  | .times t f => t.text ++ '*' :: f.text
  | .over t f => t.text ++ '/' :: f.text

/-- How the factor is written. -/
def Factor.text : Factor → Text
  | .constant sign c => signText sign ++ c.digits
  | .field sign f => signText sign ++ f.text
  | .parentheses sign s => signText sign ++ '(' :: (s.text ++ [')'])
end

/-! ### Conventional values -/

section
variable (fields : Text → ℚ)

/-- A number with a sign. -/
def signedValue (sign : Bool) (q : ℚ) : ℚ := if sign then -q else q

mutual
/-- The value of the formula, given those of the fields. -/
def Formula.value : Formula → ℚ
  | .term t => t.value
  | .plus s t => s.value + t.value
  | .minus s t => s.value - t.value

/-- The value of the term. -/
def Term.value : Term → ℚ
  | .factor f => f.value
  | .times t f => t.value * f.value
  | .over t f => t.value / f.value

/-- The value of the factor. -/
def Factor.value : Factor → ℚ
  | .constant sign c => signedValue sign (digitsValue c.digits)
  | .field sign f => signedValue sign (fields f.path)
  | .parentheses sign s => signedValue sign s.value
end

end

/-! ### Grouping at the first operator -/

/-- Operations on constants and fields. -/
inductive Tree where
  | constant (c : Constant)
  | field (f : Field)
  | opposite (t : Tree)
  | node (operation : Arithmetic) (left right : Tree)

/-- A tree with a sign. -/
def signedTree (sign : Bool) (t : Tree) : Tree := if sign then .opposite t else t

/-- A sum grouped at its first `+`, or else at its first `-`. -/
def Tree.sum (trees : Chain Tree) : Tree := trees.grouped (.node .PLUS) (.node .MINUS)

/-- A product grouped at its first `*`, or else at its first `/`. -/
def Tree.product (trees : Chain Tree) : Tree := trees.grouped (.node .MULT) (.node .DIV)

mutual
/-- The trees of the terms. -/
def Formula.trees : Formula → Chain Tree
  | .term t => .one (.product t.trees)
  | .plus s t => .weak s.trees (.product t.trees)
  | .minus s t => .strong s.trees (.product t.trees)

/-- The trees of the factors. -/
def Term.trees : Term → Chain Tree
  | .factor f => .one f.tree
  | .times t f => .weak t.trees f.tree
  | .over t f => .strong t.trees f.tree

/-- The tree of a factor. -/
def Factor.tree : Factor → Tree
  | .constant sign c => signedTree sign (.constant c)
  | .field sign f => signedTree sign (.field f)
  | .parentheses sign s => signedTree sign (.sum s.trees)
end

/-- The tree of a formula. -/
def Formula.tree (s : Formula) : Tree := .sum s.trees

/-- The tree of a term. -/
def Term.tree (t : Term) : Tree := .product t.trees

/-- What an operation makes of two rational numbers. -/
def Arithmetic.exact : Arithmetic → ℚ → ℚ → ℚ
  | .PLUS, x, y => x + y
  | .MINUS, x, y => x - y
  | .MULT, x, y => x * y
  | .DIV, x, y => x / y

/-- The value of a tree, given those of the fields. -/
def Tree.value (fields : Text → ℚ) : Tree → ℚ
  | .constant c => digitsValue c.digits
  | .field f => fields f.path
  | .opposite t => -t.value fields
  | .node operation l r => operation.exact (l.value fields) (r.value fields)

/-! ### Where the grouping keeps the value -/

mutual
/-- No `-` follows on a `-` of its sum, and no `/` on a `/` of its product. -/
def Formula.Short : Formula → Prop
  | .term t => t.Short
  | .plus s t => s.Short ∧ t.Short
  | .minus s t => s.Short ∧ t.Short ∧ s.trees.EndsWeak

/-- The same in a term. -/
def Term.Short : Term → Prop
  | .factor f => f.Short
  | .times t f => t.Short ∧ f.Short
  | .over t f => t.Short ∧ f.Short ∧ t.trees.EndsWeak

/-- The same in parentheses. -/
def Factor.Short : Factor → Prop
  | .constant _ _ => True
  | .field _ _ => True
  | .parentheses _ s => s.Short
end

theorem Formula.Short.trees {s : Formula} (h : s.Short) : s.trees.Short := by
  induction s using Formula.rec (motive_2 := fun _ => True) (motive_3 := fun _ => True) with
  | term t => trivial
  | plus s t ih => exact ih h.1
  | minus s t ih => exact ⟨ih h.1, h.2.2⟩
  | _ => trivial

theorem Term.Short.trees {t : Term} (h : t.Short) : t.trees.Short := by
  induction t using Term.rec (motive_1 := fun _ => True) (motive_3 := fun _ => True) with
  | factor f => trivial
  | times t f ih => exact ih h.1
  | «over» t f ih => exact ⟨ih h.1, h.2.2⟩
  | _ => trivial

section
variable (fields : Text → ℚ)

theorem sum_value {c : Chain Tree} (h : c.Short) :
    (Tree.sum c).value fields = (c.map (Tree.value fields)).fold (· + ·) (· - ·) :=
  (Chain.map_grouped (fun _ _ => rfl) (fun _ _ => rfl) c).trans
    (Chain.grouped_eq_fold add_assoc (fun x y z => add_sub_assoc x y z) h.map)

theorem product_value {c : Chain Tree} (h : c.Short) :
    (Tree.product c).value fields = (c.map (Tree.value fields)).fold (· * ·) (· / ·) :=
  (Chain.map_grouped (fun _ _ => rfl) (fun _ _ => rfl) c).trans
    (Chain.grouped_eq_fold mul_assoc (fun x y z => mul_div_assoc x y z) h.map)

theorem signedTree_value (sign : Bool) (t : Tree) :
    (signedTree sign t).value fields = signedValue sign (t.value fields) := by
  cases sign <;> rfl

mutual
theorem Formula.Short.fold_value : ∀ {s : Formula}, s.Short →
    (s.trees.map (Tree.value fields)).fold (· + ·) (· - ·) = s.value fields
  | .term t, h => (product_value fields (Term.Short.trees (t := t) h)).trans (Term.Short.fold_value (t := t) h)
  | .plus _ _, h => congrArg₂ (· + ·) (Formula.Short.fold_value h.1)
      ((product_value fields h.2.trees).trans (Term.Short.fold_value h.2))
  | .minus _ _, h => congrArg₂ (· - ·) (Formula.Short.fold_value h.1)
      ((product_value fields h.2.1.trees).trans (Term.Short.fold_value h.2.1))

theorem Term.Short.fold_value : ∀ {t : Term}, t.Short →
    (t.trees.map (Tree.value fields)).fold (· * ·) (· / ·) = t.value fields
  | .factor _, h => Factor.Short.tree_value h
  | .times _ _, h => congrArg₂ (· * ·) (Term.Short.fold_value h.1) (Factor.Short.tree_value h.2)
  | .over _ _, h => congrArg₂ (· / ·) (Term.Short.fold_value h.1) (Factor.Short.tree_value h.2.1)

theorem Factor.Short.tree_value : ∀ {f : Factor}, f.Short → f.tree.value fields = f.value fields
  | .constant sign c, _ => signedTree_value fields sign (.constant c)
  | .field sign f, _ => signedTree_value fields sign (.field f)
  | .parentheses sign s, h => (signedTree_value fields sign (.sum s.trees)).trans
      (congrArg (signedValue sign) ((sum_value fields (Formula.Short.trees h)).trans (Formula.Short.fold_value h)))
end

/-- Grouped at its first operators a short formula has its conventional value. -/
theorem Formula.Short.tree_value {s : Formula} (h : s.Short) : s.tree.value fields = s.value fields :=
  (sum_value fields h.trees).trans (h.fold_value fields)

end

/-! ### Where the signs are readable -/

/-- Whether the factor has a minus sign. -/
def Factor.sign : Factor → Bool
  | .constant sign _ => sign
  | .field sign _ => sign
  | .parentheses sign _ => sign

/-- The factors of a term. -/
def Term.factors : Term → Chain Factor
  | .factor f => .one f
  | .times t f => .weak t.factors f
  | .over t f => .strong t.factors f

/-- The terms of a formula. -/
def Formula.terms : Formula → Chain Term
  | .term t => .one t
  | .plus s t => .weak s.terms t
  | .minus s t => .strong s.terms t

/-- No factor of the term has a sign. -/
def Term.Unsigned (t : Term) : Prop := t.factors.All fun f => f.sign = false

/-- The first factor has a sign, and the first one after each `*`. -/
def PartsSigned : Chain Factor → Prop
  | .one f => f.sign = true
  | .weak c f => PartsSigned c ∧ f.sign = true
  | .strong c _ => PartsSigned c

/-- Every factor after the last `*` has a sign. -/
def LastPartSigned : Chain Factor → Prop
  | .one f => f.sign = true
  | .weak _ f => f.sign = true
  | .strong c f => LastPartSigned c ∧ f.sign = true

/-- A sign after an operator stands only behind factors with signs. -/
def SignsInOrder : Chain Factor → Prop
  | .one _ => True
  | .weak c f => SignsInOrder c ∧ (f.sign = true → PartsSigned c)
  | .strong c f => SignsInOrder c ∧ (f.sign = true → PartsSigned c ∧ LastPartSigned c)

mutual
/-- Signs stand only in front of constants, those after an operator in order, and none in a term before a `-`.
    -/
def Formula.Readable : Formula → Prop
  | .term t => t.Readable
  | .plus s t => s.Readable ∧ t.Readable
  | .minus s t => s.Readable ∧ t.Readable ∧ s.terms.last.Unsigned

/-- The same in a term. -/
def Term.Readable : Term → Prop
  | .factor f => f.Readable
  | .times t f => t.Readable ∧ f.Readable ∧ (f.sign = true → PartsSigned t.factors)
  | .over t f => t.Readable ∧ f.Readable ∧ (f.sign = true → PartsSigned t.factors ∧ LastPartSigned t.factors)

/-- The same in parentheses. -/
def Factor.Readable : Factor → Prop
  | .constant _ _ => True
  | .field sign _ => sign = false
  | .parentheses sign s => sign = false ∧ s.Readable
end

theorem PartsSigned.of_weakly {d c : Chain Factor} (h : PartsSigned (d.weakly c)) : PartsSigned c := by
  induction c with
  | one f => exact h.2
  | weak c f ih => exact ⟨ih h.1, h.2⟩
  | strong c f ih => exact ih h

theorem LastPartSigned.of_weakly {d c : Chain Factor} (h : LastPartSigned (d.weakly c)) : LastPartSigned c := by
  induction c with
  | one f => exact h
  | weak c f ih => exact h
  | strong c f ih => exact ⟨ih h.1, h.2⟩

theorem SignsInOrder.of_weakly {d c : Chain Factor} (h : SignsInOrder (d.weakly c)) :
    SignsInOrder d ∧ SignsInOrder c := by
  induction c with
  | one f => exact ⟨h.1, trivial⟩
  | weak c f ih => exact ⟨(ih h.1).1, (ih h.1).2, fun hf => (h.2 hf).of_weakly⟩
  | strong c f ih =>
    exact ⟨(ih h.1).1, (ih h.1).2, fun hf => ⟨(h.2 hf).1.of_weakly, (h.2 hf).2.of_weakly⟩⟩

theorem LastPartSigned.of_strongly {f : Factor} {c : Chain Factor} (hc : c.NoWeak)
    (h : LastPartSigned ((Chain.one f).strongly c)) : LastPartSigned c ∧ PartsSigned c := by
  induction c with
  | one g => exact ⟨h.2, h.2⟩
  | weak c g ih => exact False.elim hc
  | strong c g ih => exact ⟨⟨(ih hc h.1).1, h.2⟩, (ih hc h.1).2⟩

theorem SignsInOrder.of_strongly {f : Factor} {c : Chain Factor} (hc : c.NoWeak)
    (h : SignsInOrder ((Chain.one f).strongly c)) : SignsInOrder c := by
  induction c with
  | one g => trivial
  | weak c g ih => exact False.elim hc
  | strong c g ih => exact ⟨ih hc h.1, fun hg => (LastPartSigned.of_strongly (c := c) hc (h.2 hg).2).symm⟩

theorem PartsSigned.first {c : Chain Factor} (h : PartsSigned c) : c.first.sign = true := by
  induction c with
  | one f => exact h
  | weak c f ih => exact ih h.1
  | strong c f ih => exact ih h

/-- Behind a first factor without a sign there are no signs. -/
theorem SignsInOrder.unsigned {c : Chain Factor} (h : SignsInOrder c) (hfirst : c.first.sign = false) :
    c.All fun f => f.sign = false := by
  have hparts : ¬ PartsSigned c := fun hparts => Bool.noConfusion (hfirst.symm.trans hparts.first)
  induction c with
  | one f => exact hfirst
  | weak c f ih =>
    have hc : ¬ PartsSigned c := fun hc => Bool.noConfusion (hfirst.symm.trans hc.first)
    exact ⟨ih h.1 hfirst hc, Bool.eq_false_iff.mpr fun hf => hc (h.2 hf)⟩
  | strong c f ih => exact ⟨ih h.1 hfirst hparts, Bool.eq_false_iff.mpr fun hf => hparts (h.2 hf).1⟩

theorem Formula.Readable.terms {s : Formula} (h : s.Readable) :
    s.terms.All Term.Readable ∧ s.terms.BeforeStrong Term.Unsigned := by
  induction s using Formula.rec (motive_2 := fun _ => True) (motive_3 := fun _ => True) with
  | term t => exact ⟨h, trivial⟩
  | plus s t ih => exact ⟨⟨(ih h.1).1, h.2⟩, (ih h.1).2⟩
  | minus s t ih => exact ⟨⟨(ih h.1).1, h.2.1⟩, (ih h.1).2, h.2.2⟩
  | _ => trivial

theorem Term.Readable.factors {t : Term} (h : t.Readable) :
    t.factors.All Factor.Readable ∧ SignsInOrder t.factors := by
  induction t using Term.rec (motive_1 := fun _ => True) (motive_3 := fun _ => True) with
  | factor f => exact ⟨h, trivial⟩
  | times t f ih => exact ⟨⟨(ih h.1).1, h.2.1⟩, (ih h.1).2, h.2.2⟩
  | «over» t f ih => exact ⟨⟨(ih h.1).1, h.2.1⟩, (ih h.1).2, h.2.2⟩
  | _ => trivial

/-! ### Formulas and terms as chains -/

/-- Texts with an operator between them. -/
def joinedBy (c : Char) (u v : Text) : Text := u ++ c :: v

/-- The text of terms with `+` and `-` between them. -/
def sumText (c : Chain Term) : Text := (c.map Term.text).fold (joinedBy '+') (joinedBy '-')

/-- The text of factors with `*` and `/` between them. -/
def productText (c : Chain Factor) : Text := (c.map Factor.text).fold (joinedBy '*') (joinedBy '/')

theorem Formula.text_eq : ∀ s : Formula, s.text = sumText s.terms
  | .term _ => rfl
  | .plus s t => congrArg (joinedBy '+' · t.text) (Formula.text_eq s)
  | .minus s t => congrArg (joinedBy '-' · t.text) (Formula.text_eq s)

theorem Term.text_eq : ∀ t : Term, t.text = productText t.factors
  | .factor _ => rfl
  | .times t f => congrArg (joinedBy '*' · f.text) (Term.text_eq t)
  | .over t f => congrArg (joinedBy '/' · f.text) (Term.text_eq t)

theorem Formula.trees_eq : ∀ s : Formula, s.trees = s.terms.map Term.tree
  | .term _ => rfl
  | .plus s t => congrArg (Chain.weak · t.tree) (Formula.trees_eq s)
  | .minus s t => congrArg (Chain.strong · t.tree) (Formula.trees_eq s)

theorem Term.trees_eq : ∀ t : Term, t.trees = t.factors.map Factor.tree
  | .factor _ => rfl
  | .times t f => congrArg (Chain.weak · f.tree) (Term.trees_eq t)
  | .over t f => congrArg (Chain.strong · f.tree) (Term.trees_eq t)

theorem joinedBy_assoc (c d : Char) (u v w : Text) :
    joinedBy d (joinedBy c u v) w = joinedBy c u (joinedBy d v w) := by
  simp [joinedBy]

theorem sumText_weakly (d c : Chain Term) : sumText (d.weakly c) = joinedBy '+' (sumText d) (sumText c) := by
  rw [sumText, Chain.map_weakly, Chain.fold_weakly (joinedBy_assoc _ _) (joinedBy_assoc _ _)]
  rfl

theorem sumText_strongly (t : Term) (c : Chain Term) :
    sumText ((Chain.one t).strongly c) = joinedBy '-' t.text (sumText c) := by
  rw [sumText, Chain.map_strongly, Chain.fold_strongly (joinedBy_assoc _ _) (joinedBy_assoc _ _)]
  rfl

theorem productText_weakly (d c : Chain Factor) :
    productText (d.weakly c) = joinedBy '*' (productText d) (productText c) := by
  rw [productText, Chain.map_weakly, Chain.fold_weakly (joinedBy_assoc _ _) (joinedBy_assoc _ _)]
  rfl

theorem productText_strongly (f : Factor) (c : Chain Factor) :
    productText ((Chain.one f).strongly c) = joinedBy '/' f.text (productText c) := by
  rw [productText, Chain.map_strongly, Chain.fold_strongly (joinedBy_assoc _ _) (joinedBy_assoc _ _)]
  rfl

end Universa.Contracts.Expressions
