import Universa.Contracts.ExpressionParse

/-! The value of a parsed formula: `evaluateExpression` keeps it in a double or in a `BigDecimal`, exactly where
    no operation between two doubles rounds. With the parser this settles where a text has its conventional
    value: signs where they can be read, no `-` behind a `-` and no `/` behind a `/` of one rank. -/

namespace Universa.Contracts.Expressions
open Universa.Js Universa.Lib

/-! ### Constants -/

theorem foldl_digits (ds : Text) (n : ℕ) :
    ds.foldl (fun n d => 10 * n + (d.toNat - 48)) n = n * 10 ^ ds.length + digitsValue ds := by
  induction ds generalizing n with
  | nil => simp [digitsValue]
  | cons d ds ih =>
    have hfirst : digitsValue (d :: ds) = (d.toNat - 48) * 10 ^ ds.length + digitsValue ds := by
      simpa [digitsValue] using ih (10 * 0 + (d.toNat - 48))
    rw [List.foldl_cons, ih, hfirst, List.length_cons]
    ring

theorem digitsValue_cons (d : Char) (ds : Text) :
    digitsValue (d :: ds) = (d.toNat - 48) * 10 ^ ds.length + digitsValue ds := by
  simpa [digitsValue] using foldl_digits ds (10 * 0 + (d.toNat - 48))

/-- A row of digits is below the power of ten of its length. -/
theorem digitsValue_lt {ds : Text} (h : ∀ d ∈ ds, d.isDigit = true) : digitsValue ds < 10 ^ ds.length := by
  induction ds with
  | nil => decide
  | cons d ds ih =>
    have hd := digit_bounds (h d (List.mem_cons_self ..))
    have hrest := ih fun d hd => h d (List.mem_cons_of_mem _ hd)
    have hfirst : (d.toNat - 48) * 10 ^ ds.length ≤ 9 * 10 ^ ds.length := Nat.mul_le_mul_right _ (by omega)
    rw [digitsValue_cons, List.length_cons, pow_succ]
    omega

theorem leadingDigits_digits {ds : Text} (h : ∀ d ∈ ds, d.isDigit = true) :
    leadingDigits 10 ds = ds.map fun d => d.toNat - 48 := by
  have hmap : ds.map (baseDigit 10) = (ds.map fun d => d.toNat - 48).map some := by
    rw [List.map_map]
    exact List.map_congr_left fun d hd => baseDigit_digit (h d hd)
  have hall : ∀ o ∈ (ds.map fun d => d.toNat - 48).map some, o.isSome = true := by
    intro o ho
    obtain ⟨n, -, rfl⟩ := List.mem_map.mp ho
    rfl
  rw [leadingDigits, hmap, List.takeWhile_eq_self_iff.mpr hall]
  change List.filterMap id _ = _
  rw [List.filterMap_map]
  exact List.filterMap_some

theorem parseInt_digits (sign : Bool) (c : Constant) :
    parseInt (signText sign ++ c.digits) = withSign sign (digitsValue c.digits : ℕ) := by
  obtain ⟨d, ds, hds⟩ := List.exists_cons_of_ne_nil c.nonempty
  have hd := c.areDigits d (hds ▸ List.mem_cons_self ..)
  have hne : ∀ x : Char, x.isDigit = false → d ≠ x := by
    rintro x hx rfl
    rw [hd] at hx
    cases hx
  have hspace : (signText sign ++ c.digits).dropWhile isSpace = signText sign ++ c.digits := by
    cases sign with
    | false =>
      rw [hds]
      exact List.dropWhile_cons_of_neg (by simp [isSpace_digit hd])
    | true => exact List.dropWhile_cons_of_neg (by decide)
  have hsigned : signed (signText sign ++ c.digits) = (sign, c.digits) := by
    cases sign with
    | false =>
      rw [hds]
      change signed (d :: ds) = _
      unfold signed
      split
      · next h => exact absurd (List.cons.inj h).1 (hne '-' (by decide))
      · next h => exact absurd (List.cons.inj h).1 (hne '+' (by decide))
      · rfl
    | true => rfl
  have hbase : radix c.digits = (10, c.digits) := by
    unfold radix
    split
    · next s h => exact absurd (c.areDigits 'x' (h ▸ by simp)) (by decide)
    · next s h => exact absurd (c.areDigits 'X' (h ▸ by simp)) (by decide)
    · rfl
  have hvalue : (c.digits.map fun d => d.toNat - 48).foldl (10 * · + ·) 0 = digitsValue c.digits := by
    rw [List.foldl_map, digitsValue]
  unfold parseInt
  rw [hspace, hsigned]
  dsimp only
  rw [hbase]
  dsimp only
  rw [leadingDigits_digits c.areDigits, ← hvalue]
  rw [hds]
  rfl

/-- What `new BigDecimal` reads. -/
theorem bigDecimalOf_constant (sign : Bool) (c : Constant) :
    bigDecimalOf (String.ofList (signText sign ++ c.digits)) = .ok (signedValue sign (digitsValue c.digits)) := by
  have hread := decimalLiteral_digits c.nonempty c.areDigits
  have htext : bigText (String.ofList (signText sign ++ c.digits)) =
      some (signedValue sign (digitsValue c.digits)) := by
    rw [bigText, String.toList_ofList]
    cases sign with
    | true =>
      change (decimalLiteral c.digits).map (- ·) = _
      rw [hread]
      rfl
    | false =>
      have hsign : signText false ++ c.digits = c.digits := rfl
      rw [hsign]
      split
      · next cs h => exact absurd (c.areDigits '-' (h ▸ by simp)) (by decide)
      · exact hread
  rw [bigDecimalOf, htext]
  rfl

/-- Where a value is kept. -/
inductive Kind where
  | number
  | bigDecimal
  | other
  deriving DecidableEq

/-- Where a datum keeps its value. -/
def Datum.kind : Datum → Kind
  | .number _ => .number
  | .bigDecimal _ => .bigDecimal
  | _ => .other

/-- A constant of more than seven characters is a `BigDecimal`. -/
def constantKind (text : Text) : Kind := if 7 < text.length then .bigDecimal else .number

theorem constantValue_eq (sign : Bool) (c : Constant) : ∃ d,
    constantValue (signText sign ++ c.digits) .NO_CONVERSION = .ok d ∧
      objectCastToBigDecimal d = .ok (signedValue sign (digitsValue c.digits)) ∧
        d.kind = constantKind (signText sign ++ c.digits) := by
  rw [constantKind]
  by_cases hlen : 7 < (signText sign ++ c.digits).length
  · refine ⟨.bigDecimal (signedValue sign (digitsValue c.digits)), ?_, rfl, by rw [if_pos hlen]; rfl⟩
    rw [constantValue, if_pos (.inr hlen), bigDecimalOf_constant]
    rfl
  · have hpoint : (signText sign ++ c.digits).contains '.' = false := by
      rw [Bool.eq_false_iff, ne_eq, List.contains_iff_mem]
      intro h
      rcases List.mem_append.mp h with h | h
      · cases sign with
        | false => cases h
        | true => exact absurd (List.mem_singleton.mp h) (by decide)
      · exact absurd (c.areDigits _ h) (by decide)
    have hsmall : digitsValue c.digits ≤ 2 ^ 53 := by
      have hlt := digitsValue_lt c.areDigits
      have hle : c.digits.length ≤ 7 := by
        rw [List.length_append] at hlen
        omega
      have hpow : 10 ^ c.digits.length ≤ 10 ^ 7 := Nat.pow_le_pow_right (by decide) hle
      omega
    have hnumber : parseInt (signText sign ++ c.digits) = .fin (signedValue sign (digitsValue c.digits)) := by
      rw [parseInt_digits, withSign]
      cases sign with
      | false => exact_mod_cast Number.ofRat_int (z := digitsValue c.digits) (by omega)
      | true => exact_mod_cast Number.ofRat_int (z := -digitsValue c.digits) (by omega)
    refine ⟨.number (.fin (signedValue sign (digitsValue c.digits))), ?_, rfl, by rw [if_neg hlen]; rfl⟩
    rw [constantValue, if_neg (by simpa using hlen), hpoint, hnumber]
    rfl

/-! ### Trees -/

section
variable {C : Type} (scene : Scene C)

/-- The number that a field holds. -/
def Scene.number (path : Text) : ℚ :=
  match (fieldValue scene path).bind objectCastToBigDecimal with
  | .ok q => q
  | .error _ => 0

/-- A field with `::number`. -/
def Tree.converted : Tree → Bool
  | .field f => f.converted
  | _ => false

/-- An operation in which a `BigDecimal` or a conversion takes part is done in these. -/
def inDecimals (lc rc : Bool) (l r : Kind) : Prop := lc = true ∨ rc = true ∨ l = .bigDecimal ∨ r = .bigDecimal

instance (lc rc : Bool) (l r : Kind) : Decidable (inDecimals lc rc l r) :=
  inferInstanceAs (Decidable (_ ∨ _ ∨ _ ∨ _))

/-- Where the value of a tree is kept. -/
def Tree.kind : Tree → Kind
  | .constant c => constantKind c.digits
  | .opposite (.constant c) => constantKind ('-' :: c.digits)
  | .opposite _ => .other
  | .field f =>
      match fieldValue scene f.path with
      | .ok d => d.kind
      | .error _ => .other
  | .node _ l r => if inDecimals l.converted r.converted l.kind r.kind then .bigDecimal else .number

/-- The fields hold numbers, nothing is divided by zero, and an operation on two doubles has a double as result.
    -/
def Tree.Exact : Tree → Prop
  | .constant _ => True
  | .opposite _ => True
  | .field f => ∃ d, fieldValue scene f.path = .ok d ∧ objectCastToBigDecimal d = .ok (scene.number f.path)
  | .node operation l r =>
      l.Exact ∧ r.Exact ∧ (operation = .DIV → r.value scene.number ≠ 0) ∧
        (inDecimals l.converted r.converted (l.kind scene) (r.kind scene) ∨
          (l.kind scene = .number ∧ r.kind scene = .number) ∧
            Number.ofRat (operation.exact (l.value scene.number) (r.value scene.number)) =
              .fin (operation.exact (l.value scene.number) (r.value scene.number)))

/-- The datum has the value, and is kept as a tree of this kind. -/
def Holds (d : Datum) (q : ℚ) (k : Kind) : Prop := objectCastToBigDecimal d = .ok q ∧ d.kind = k

variable {scene}

theorem Holds.ne_null {d : Datum} {q : ℚ} {k : Kind} (h : Holds d q k) : d ≠ .null := by
  rintro rfl
  cases h.1

theorem Holds.number {d : Datum} {q : ℚ} (h : Holds d q .number) : d = .number (.fin q) := by
  obtain ⟨hvalue, hkind⟩ := h
  cases d with
  | number n =>
    cases n with
    | fin p =>
      cases hvalue
      rfl
    | _ => cases hvalue
  | _ => cases hkind

theorem isBigDecimal_iff {d : Datum} : d.isBigDecimal = true ↔ d.kind = .bigDecimal := by
  cases d <;> simp [Datum.isBigDecimal, Datum.kind]

/-- Exact operations in `BigDecimal`. -/
theorem Arithmetic.big_exact {operation : Arithmetic} {x y : ℚ} (h : operation = .DIV → y ≠ 0) :
    operation.big x y = .ok (operation.exact x y) := by
  cases operation with
  | DIV => exact if_neg (h rfl)
  | _ => rfl

/-- Exact operations on doubles. -/
theorem Arithmetic.number_exact {operation : Arithmetic} {x y : ℚ} (h : operation = .DIV → y ≠ 0)
    (hround : Number.ofRat (operation.exact x y) = .fin (operation.exact x y)) :
    operation.number (.fin x) (.fin y) = .fin (operation.exact x y) := by
  cases operation with
  | DIV => exact (congrArg Number.round (Number.div_fin x (h rfl))).trans hround
  | _ => exact hround

/-- What an operation makes of two data, where it does not round. -/
theorem operate_eq {operation : Arithmetic} {lc rc : Conversion} {left right : Datum} {x y : ℚ} {k k' : Kind}
    {b b' : Bool} (hl : Holds left x k) (hr : Holds right y k') (hlc : lc = .CONVERSION_BIG_DECIMAL ↔ b = true)
    (hrc : rc = .CONVERSION_BIG_DECIMAL ↔ b' = true) (hdiv : operation = .DIV → y ≠ 0)
    (hexact : inDecimals b b' k k' ∨ (k = .number ∧ k' = .number) ∧
      Number.ofRat (operation.exact x y) = .fin (operation.exact x y)) :
    ∃ d, operate (.arithmetic operation) lc rc left right = .ok d ∧
      Holds d (operation.exact x y) (if inDecimals b b' k k' then .bigDecimal else .number) := by
  have hmode : (lc = .CONVERSION_BIG_DECIMAL ∨ rc = .CONVERSION_BIG_DECIMAL ∨ left.isBigDecimal = true ∨
      right.isBigDecimal = true) ↔ inDecimals b b' k k' := by
    rw [hlc, hrc, isBigDecimal_iff, isBigDecimal_iff, hl.2, hr.2, inDecimals]
  by_cases h : inDecimals b b' k k'
  · refine ⟨.bigDecimal (operation.exact x y), ?_, rfl, by rw [if_pos h]; rfl⟩
    simp [operate, hmode.mpr h, hl.1, hr.1, Arithmetic.big_exact hdiv, bind, Except.bind, Functor.map, Except.map]
  · obtain ⟨⟨rfl, rfl⟩, hround⟩ := hexact.resolve_left h
    obtain rfl := hl.number
    obtain rfl := hr.number
    refine ⟨.number (.fin (operation.exact x y)), ?_, rfl, by rw [if_neg h]; rfl⟩
    rw [operate, if_neg (hmode.not.mpr h), Arithmetic.number_exact hdiv hround]
    rfl

/-- A parsed tree without rounding is evaluated to its value. -/
theorem Shows.evaluates {t : Tree} {operand : Operand} {conversion : Conversion}
    (h : Shows t operand conversion) (hexact : t.Exact scene) : ∃ d, evaluateOperand scene operand conversion = .ok d ∧
      Holds d (t.value scene.number) (t.kind scene) ∧
        (conversion = .CONVERSION_BIG_DECIMAL ↔ t.converted = true) := by
  induction h with
  | constant c =>
    obtain ⟨d, hd, hvalue, hkind⟩ := constantValue_eq false c
    exact ⟨d, hd, ⟨hvalue, hkind⟩, by simp [Tree.converted]⟩
  | opposite c =>
    obtain ⟨d, hd, hvalue, hkind⟩ := constantValue_eq true c
    exact ⟨d, hd, ⟨hvalue, hkind⟩, by simp [Tree.converted]⟩
  | field f =>
    obtain ⟨d, hd, hvalue⟩ := hexact
    refine ⟨d, hd, ⟨hvalue, by rw [Tree.kind, hd]⟩, ?_⟩
    cases hc : f.converted <;> simp [Tree.converted, hc]
  | @node operation l r left right lc rc lp rp _ _ ihl ihr =>
    obtain ⟨hexactl, hexactr, hdiv, hround⟩ := hexact
    obtain ⟨dl, hdl, hholdsl, hlc⟩ := ihl hexactl
    obtain ⟨dr, hdr, hholdsr, hrc⟩ := ihr hexactr
    obtain ⟨d, hd, hholds⟩ := operate_eq hholdsl hholdsr hlc hrc hdiv hround
    refine ⟨d, ?_, hholds, by simp [Tree.converted]⟩
    have hnull : ∀ {d : Datum} {q k}, Holds d q k → d ≠ .null := fun h => h.ne_null
    rw [evaluateOperand, evaluateExpression, hdl, hdr]
    cases dl <;> cases dr <;> first
      | exact absurd rfl (hnull hholdsl)
      | exact absurd rfl (hnull hholdsr)
      | exact congrArg (Except.mapError _) hd

end

/-- CODE DEFECT (values of formulas): on a level of the API from 4 on a text is parsed and evaluated to its
    conventional value where signs are readable, no `-` follows on a `-` and no `/` on a `/` of one rank, and
    nothing is rounded. -/
theorem conventional_value {C : Type} (scene : Scene C) {level : ℕ} (hlevel : 4 ≤ level) {s : Formula}
    {operation : Arithmetic} {l r : Tree} (htree : s.tree = .node operation l r) (hreadable : s.Readable)
    (hshort : s.Short) (hexact : s.tree.Exact scene) : ∃ e d,
      parseExpression (some level) s.text true = .ok e ∧ evaluateExpression scene e = .ok d ∧
        objectCastToBigDecimal d = .ok (s.value scene.number) := by
  obtain ⟨e, he, hshows⟩ := Formula.parses hlevel hreadable htree
  obtain ⟨d, hd, ⟨hvalue, -⟩, -⟩ := hshows.evaluates hexact
  exact ⟨e, d, he, hd, hvalue.trans (congrArg Except.ok (hshort.tree_value scene.number))⟩

/-! ### Two differences -/

/-- A constant of one digit. -/
def digit (d : Char) (h : d.isDigit = true) : Term :=
  .factor (.constant false ⟨[d], List.cons_ne_nil _ _, fun _ hx => List.mem_singleton.mp hx ▸ h⟩)

/-- `9-3`. -/
def oneDifference : Formula := .minus (.term (digit '9' rfl)) (digit '3' rfl)

/-- `9-3-2`. -/
def twoDifferences : Formula := .minus oneDifference (digit '2' rfl)

/-- No contract has anything. -/
def emptyScene : Scene Unit := ⟨fun _ _ => .ok .null, none, (), [], fun _ _ => none⟩

/-- `9-3` is six. -/
theorem oneDifference_value : 4 ≤ 4 ∧ ∃ e d,
    parseExpression (some 4) oneDifference.text true = .ok e ∧ evaluateExpression emptyScene e = .ok d ∧
      objectCastToBigDecimal d = .ok (oneDifference.value emptyScene.number) := by
  have hround : Number.ofRat ((9 : ℤ) - (3 : ℤ) : ℚ) = .fin ((9 : ℤ) - (3 : ℤ)) := by
    exact_mod_cast Number.ofRat_int (z := 9 - 3) (by decide)
  refine ⟨le_rfl, conventional_value emptyScene le_rfl rfl ?_ ?_ ?_⟩
  · exact ⟨trivial, trivial, rfl⟩
  · exact ⟨trivial, trivial, trivial⟩
  · exact ⟨trivial, trivial, fun h => (by cases h), .inr ⟨⟨rfl, rfl⟩, hround⟩⟩

/-- `9-3-2` is evaluated to eight, and not to four. -/
theorem twoDifferences_value : ¬ ∃ e d,
    parseExpression (some 4) twoDifferences.text true = .ok e ∧ evaluateExpression emptyScene e = .ok d ∧
      objectCastToBigDecimal d = .ok (twoDifferences.value emptyScene.number) := by
  have hinner : Number.ofRat ((3 : ℤ) - (2 : ℤ) : ℚ) = .fin ((3 : ℤ) - (2 : ℤ)) := by
    exact_mod_cast Number.ofRat_int (z := 3 - 2) (by decide)
  have houter : Number.ofRat ((9 : ℤ) - ((3 : ℤ) - (2 : ℤ)) : ℚ) = .fin ((9 : ℤ) - ((3 : ℤ) - (2 : ℤ))) := by
    exact_mod_cast Number.ofRat_int (z := 9 - (3 - 2)) (by decide)
  have hexact : twoDifferences.tree.Exact emptyScene :=
    ⟨trivial, ⟨trivial, trivial, fun h => (by cases h), .inr ⟨⟨rfl, rfl⟩, hinner⟩⟩, fun h => (by cases h),
      .inr ⟨⟨rfl, rfl⟩, houter⟩⟩
  have hreadable : twoDifferences.Readable := ⟨⟨trivial, trivial, rfl⟩, trivial, rfl⟩
  rintro ⟨e, d, he, hd, hvalue⟩
  obtain ⟨e', he', hshows⟩ := Formula.parses le_rfl hreadable rfl
  obtain rfl : e = e' := Except.ok.inj (he.symm.trans he')
  obtain ⟨d', hd', ⟨hvalue', -⟩, -⟩ := hshows.evaluates hexact
  obtain rfl : d = d' := Except.ok.inj (hd.symm.trans hd')
  have heq : twoDifferences.tree.value emptyScene.number = twoDifferences.value emptyScene.number :=
    Except.ok.inj (hvalue'.symm.trans hvalue)
  have hnine : ((9 : ℤ) - ((3 : ℤ) - (2 : ℤ)) : ℚ) = (9 : ℤ) - (3 : ℤ) - (2 : ℤ) := heq
  norm_num at hnine

end Universa.Contracts.Expressions
