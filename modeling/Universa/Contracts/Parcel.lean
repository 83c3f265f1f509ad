import Universa.Contracts.PermittedChanges
import Universa.Contracts.Check
import Universa.Contracts.QuantaLimit
import Universa.Js.Arithmetic

/-! What a parcel pays for its payload: `Parcel.prepareForNode` sets the limit of quantas from the units of the
    payment and of its parent, `Contract.paymentCheck` accepts the payment. An absent field is `none`; a number
    made of it is `NaN`. An answer `none` of a function is a thrown exception. Units may have fractions; they are
    taken as exact, and so is their product with `quantaPerU`.

    `paymentCheck` refuses a payment that spends both fields, and does not ask that it spends one: its limit is
    then not positive, and no limit at all where units rise. -/

namespace Universa.Contracts
open Universa.Js

/-! ### The limit -/

/-- The number of a field: an absent one has none. -/
def fieldNumber : Option Value → Option Number
  | none => some .nan
  | some v => toNumber v

/-- `was - is`, for fields that may be absent. -/
def fieldMinus (was is : Option Value) : Option Number := do
  let x ← fieldNumber was
  let y ← fieldNumber is
  return x.sub y

/-- `Config.quantiser_quantaPerU`. -/
def quantaPerU : ℚ := 200

/-- `Quantiser.quantaPerU * n`. -/
def timesQuantaPerU : Number → Number
  | .fin q => .fin (quantaPerU * q)
  | n => n

/-- What `prepareForNode` sets. -/
structure Parcel where
  quantasLimit : Number
  isTestPayment : Bool
  deriving DecidableEq

/-- The units of a contract. -/
def Contract.units (c : Contract) : Option Value := c.state.data.lookup "transaction_units"

/-- The test units of a contract. -/
def Contract.testUnits (c : Contract) : Option Value := c.state.data.lookup "test_transaction_units"

/-- The parent of the payment among its revoking items. -/
def Contract.revokedParent (payment : Contract) : Option Contract :=
  payment.revokingItems.find? fun c => decide (payment.state.parent = some c.id)

/-- `x != null`. -/
def notNull : Option Value → Bool
  | none | some .null => false
  | some _ => true

/-- `prepareForNode()`, for the payment. -/
def prepareForNode (payment : Contract) : Option Parcel :=
  match payment.revokedParent with
  | none => some ⟨.fin 0, false⟩
  | some parent => do
      let parcel ←
        if notNull payment.testUnits then
          (fieldMinus parent.testUnits payment.testUnits).map fun d => ⟨timesQuantaPerU d, true⟩
        else some (⟨.fin 0, false⟩ : Parcel)
      if parcel.quantasLimit.le (.fin 0) then
        (fieldMinus parent.units payment.units).map fun d => ⟨timesQuantaPerU d, false⟩
      else return parcel

/-! ### The check of the payment -/

/-- The codes of errors that `paymentCheck` adds. -/
inductive PaymentErrors where
  | BAD_VALUE
  | BAD_NEW_ITEM
  | BAD_REVOKE
  deriving DecidableEq

/-- An `ErrorRecord` of `paymentCheck`; the field path is empty. -/
structure PaymentError where
  error : PaymentErrors
  message : String
  deriving DecidableEq

/-- `isPermitted(permissionName, keys)`. -/
def Contract.isPermitted (c : Contract) (permissionName : String) (keys : KeySet) : Bool :=
  match c.definition.permissions.lookup permissionName with
  | none => false
  | some cp => cp.any fun p => p.isAllowedForKeys keys

/-- What keys answer: those that sealed the payment, and whether the network's keys are addresses of its issuer,
    which throws where the issuer is no simple role. -/
structure Answers where
  sealedByKeys : KeySet
  issuerKeys : Option Bool

/-- `t.getOrDefault(data, key, -1)`. -/
def unitsOrMinusOne (c : Contract) (key : String) : Option Value := do
  if ← hasOwn c.state.data key then return (c.state.data.lookup key).getD .null else return .num (.fin (-1))

/-- `x == null || typeof x !== "number"`. -/
def notNumber : Value → Bool
  | .num _ => false
  | _ => true

/-- An error where the test says so. -/
def errorIf (b : Bool) (error : PaymentErrors) (message : String) : List PaymentError :=
  if b then [⟨error, message⟩] else []

/-- `x < 0`, for a value that may be no number. -/
def negative (v : Value) : Option Bool := (toNumber v).map fun n => n.le (.fin 0) && !n.eq (.fin 0)

/-- The errors of the two fields of units. The parent is the item that the payment revokes: `context.base` takes its
    place where the payment has siblings, which are new items, and a payment with a new item is refused anyway. -/
def unitErrors (payment : Contract) (limitedForTestnet : Bool) : Option (List PaymentError) := do
  let u ← unitsOrMinusOne payment "transaction_units"
  let testU ← unitsOrMinusOne payment "test_transaction_units"
  let own := errorIf (strictEq (some u) (some (.num (.fin (-1))))) .BAD_VALUE "u < 0" ++
    errorIf (notNumber u) .BAD_VALUE "u name/type mismatch"
  if strictEq (some testU) (some (.num (.fin (-1)))) then
    return own ++ errorIf limitedForTestnet .BAD_VALUE
      "Payment contract that marked as for testnet has not test_u."
  else
    let type := errorIf (notNumber testU) .BAD_VALUE "test_u name/type mismatch"
    let sign := errorIf (← negative testU) .BAD_VALUE "test_u < 0"
    if payment.state.origin.isSome then
      let parent ← payment.getRevokingItem payment.state.parent
      let wasU ← unitsOrMinusOne parent "transaction_units"
      let wasTestU ← unitsOrMinusOne parent "test_transaction_units"
      return own ++ type ++ sign ++
        errorIf (!strictEq (some u) (some wasU) && !strictEq (some testU) (some wasTestU)) .BAD_VALUE
          "u and test_u can not be spent both"
    else
      return own ++ type ++ sign ++ errorIf limitedForTestnet .BAD_VALUE
        "Payment contract has not origin but it is not allowed for parcel. Use standalone register for payment contract."

/-- The errors of permission and issuer. -/
def issuerErrors (answers : Answers) (payment : Contract) : Option (List PaymentError) := do
  let permitted := payment.isPermitted "decrement_permission" answers.sealedByKeys
  let issued ← answers.issuerKeys
  return errorIf (!permitted) .BAD_VALUE "decrement_permission is missing" ++
    errorIf (!issued) .BAD_VALUE "issuerKeys is not valid"

/-- The errors of a payment that is no initial contract. -/
def paymentRevisionErrors (payment : Contract) : List PaymentError :=
  if payment.state.revision.eq (.fin 1) && payment.state.parent.isNone then []
  else
    errorIf (decide (payment.getOrigin = payment.id)) .BAD_VALUE "can't origin itself" ++
      errorIf (payment.state.revision.le (.fin 1)) .BAD_VALUE "revision must be greater than 1" ++
      match payment.revokingItems with
      | [revoking] => errorIf (decide (revoking.getOrigin ≠ payment.getOrigin)) .BAD_REVOKE "origin mismatch"
      | _ => errorIf true .BAD_REVOKE "revokingItems.size != 1"

/-- `paymentCheck(issuerKeys)`: whether it succeeds. -/
def Item.paymentCheck (others : Contract → Option (List ErrorRecord)) (answers : Answers)
    (limitedForTestnet : Bool) (payment : Item) : Option Bool := do
  let units ← unitErrors payment.contract limitedForTestnet
  let issuer ← issuerErrors answers payment.contract
  if units ++ issuer ≠ [] then return false
  else if errorIf (0 < payment.newItems.length) .BAD_NEW_ITEM "payment contract can not have any new items" ≠ [] then
    return false
  else if paymentRevisionErrors payment.contract ≠ [] then return false
  else
    let errors ← payment.checkRoot others
    return decide (errors.length = 0)

/-! ### What a parcel promises -/

/-- The limit as the quantiser of the payload takes it: sums are whole, so a limit counts by its floor, and one
    that is not at least zero is none. -/
def quantaLimit : Number → ℤ
  | .fin q => if 0 ≤ q then ⌊q⌋ else -1
  | _ => -1

/-- No payload whose check runs with the limit succeeds with a larger sum. -/
def PayloadsWithin (parcel : Parcel) : Prop :=
  ∀ (payload : Quanta.Item) (spent : ℕ) (m : Quanta.Meter),
    payload.check true ⟨⟨spent, quantaLimit parcel.quantasLimit⟩, 0⟩ = .ok () m →
      (Number.fin m.quantiser.quantaSum).le parcel.quantasLimit = true

/-- The field is lower by `d`. -/
def FellBy (d : ℚ) (was is : Option Value) : Prop := fieldMinus was is = some (.fin d)

/-- The limit of the parcel is what its payment paid: from one field, the other unchanged. -/
def LimitIsPaid (payment : Contract) (parcel : Parcel) : Prop :=
  ∃ parent d, payment.revokedParent = some parent ∧ 0 < d ∧ parcel.quantasLimit = .fin (quantaPerU * d) ∧
    (parcel.isTestPayment = true ∧ FellBy d parent.testUnits payment.testUnits ∧ parent.units = payment.units ∨
      parcel.isTestPayment = false ∧ FellBy d parent.units payment.units ∧
        parent.testUnits = payment.testUnits) ∧
    PayloadsWithin parcel

/-- The field is lower. -/
def Fell (was is : Option Value) : Prop := ∃ d, 0 < d ∧ FellBy d was is

/-- The field is the same and, where there is one, a finite number. -/
def Kept (was is : Option Value) : Prop := was = is ∧ ∀ v ∈ is, ∃ q, v = .num (.fin q)

/-- The payment has a revoked parent, one of its two fields is lower, and each is lower or the same. -/
def Pays (payment : Contract) : Prop :=
  ∃ parent, payment.revokedParent = some parent ∧
    (Fell parent.testUnits payment.testUnits ∨ Fell parent.units payment.units) ∧
    (Fell parent.testUnits payment.testUnits ∨ Kept parent.testUnits payment.testUnits) ∧
    (Fell parent.units payment.units ∨ parent.units = payment.units)

/-! ### What the check of a payment says -/

theorem lookup_eq_none_of_not_mem {data : List (String × Value)} {key : String} (h : key ∉ keys data) :
    data.lookup key = none := by
  induction data with
  | nil => rfl
  | cons e data ih =>
      simp only [keys, List.map_cons, List.mem_cons, not_or] at h
      rw [List.lookup_cons, beq_eq_false_iff_ne.mpr h.1]
      exact ih h.2

theorem lookup_isSome_of_mem {data : List (String × Value)} {key : String} (h : key ∈ keys data) :
    ∃ v, data.lookup key = some v := by
  induction data with
  | nil => simp [keys] at h
  | cons e data ih =>
      rw [List.lookup_cons]
      split
      · exact ⟨_, rfl⟩
      · rename_i hne
        refine ih ((List.mem_cons.mp h).resolve_left fun heq => ?_)
        simp [heq] at hne

/-- A field, or -1 where it is absent. -/
theorem unitsOrMinusOne_eq {c : Contract} {key : String} {v : Value} (h : unitsOrMinusOne c key = some v) :
    v = (c.state.data.lookup key).getD (.num (.fin (-1))) := by
  simp only [unitsOrMinusOne, hasOwn, Option.bind_eq_bind] at h
  split at h
  · simp at h
  · by_cases hmem : key ∈ keys c.state.data
    · obtain ⟨w, hw⟩ := lookup_isSome_of_mem hmem
      simpa [hmem, hw, eq_comm] using h
    · simpa [hmem, lookup_eq_none_of_not_mem hmem, eq_comm] using h

theorem errorIf_nil {b : Bool} {error : PaymentErrors} {message : String} (h : errorIf b error message = []) :
    b = false := by
  cases b
  · rfl
  · simp [errorIf] at h

theorem isNumber {v : Value} (h : notNumber v = false) : ∃ n, v = .num n := by
  cases v <;> simp_all [notNumber]

/-- What holds of the two fields of an accepted payment. -/
structure UnitsAccepted (payment : Contract) (limitedForTestnet : Bool) : Prop where
  unitsNumber : ∃ n, payment.units = some (.num n)
  testNumber : ∀ v ∈ payment.testUnits, ∃ n, v = .num n
  notBoth : limitedForTestnet = true → ∀ parent, payment.revokedParent = some parent →
    strictEq payment.units parent.units = true ∨ strictEq payment.testUnits parent.testUnits = true
  hasTest : limitedForTestnet = true → payment.testUnits.isSome

/-- What is not -1 and is `===` to a field or -1 is `===` to the field. -/
theorem strictEq_field {x : Value} {field : Option Value}
    (hne : strictEq (some x) (some (.num (.fin (-1)))) = false)
    (h : strictEq (some x) (some (field.getD (.num (.fin (-1))))) = true) : strictEq (some x) field = true := by
  cases field with
  | none => exact absurd (hne.symm.trans h) nofun
  | some v => exact h

/-- What is not -1 is a field that is present. -/
theorem field_of_not_minusOne {x : Value} {field : Option Value} (hx : x = field.getD (.num (.fin (-1))))
    (hne : strictEq (some x) (some (.num (.fin (-1)))) = false) : field = some x := by
  cases field with
  | none =>
      subst hx
      exact absurd hne (by decide)
  | some v => rw [hx, Option.getD_some]

/-- `prepareForNode` and `paymentCheck` take the same parent. -/
theorem getRevokingItem_parent (payment : Contract) :
    payment.getRevokingItem payment.state.parent = payment.revokedParent := by
  unfold Contract.getRevokingItem Contract.revokedParent
  congr 1
  funext c
  rw [decide_eq_decide, eq_comm]

theorem unitErrors_nil {payment : Contract} {limitedForTestnet : Bool}
    (h : unitErrors payment limitedForTestnet = some []) : UnitsAccepted payment limitedForTestnet := by
  simp only [unitErrors, Option.bind_eq_bind, Option.bind_eq_some_iff] at h
  obtain ⟨u, hu, testU, htestU, h⟩ := h
  have hu := unitsOrMinusOne_eq hu
  have htestU := unitsOrMinusOne_eq htestU
  cases hone : strictEq (some testU) (some (.num (.fin (-1)))) with
  | true =>
      simp only [hone, if_true, pure, Option.some.injEq, List.append_eq_nil_iff] at h
      obtain ⟨⟨hnegative, hnumber⟩, hlimited⟩ := h
      obtain ⟨n, rfl⟩ := isNumber (errorIf_nil hnumber)
      have hlimited := errorIf_nil hlimited
      refine ⟨⟨n, field_of_not_minusOne hu (errorIf_nil hnegative)⟩, ?_, by simp [hlimited], by simp [hlimited]⟩
      intro v hv
      have hv : payment.state.data.lookup "test_transaction_units" = some v := hv
      rw [hv, Option.getD_some] at htestU
      subst htestU
      cases testU <;> simp_all [strictEq]
  | false =>
      have htest : payment.testUnits = some testU := field_of_not_minusOne htestU hone
      simp only [hone, Bool.false_eq_true, if_false, Option.bind_eq_some_iff] at h
      obtain ⟨sign, -, h⟩ := h
      split at h
      · rename_i horigin
        simp only [Option.bind_eq_some_iff] at h
        obtain ⟨parent, hparent, wasU, hwasU, wasTestU, hwasTestU, h⟩ := h
        simp only [pure, Option.some.injEq, List.append_eq_nil_iff] at h
        obtain ⟨⟨⟨⟨hnegative, hnumber⟩, htype⟩, -⟩, hboth⟩ := h
        have hfield := field_of_not_minusOne hu (errorIf_nil hnegative)
        obtain ⟨n, rfl⟩ := isNumber (errorIf_nil hnumber)
        obtain ⟨m, rfl⟩ := isNumber (errorIf_nil htype)
        refine ⟨⟨n, hfield⟩, fun v hv => ⟨m, ?_⟩, fun _ other hother => ?_, fun _ => by simp [htest]⟩
        · simpa [htest, eq_comm] using hv
        · obtain rfl : other = parent := by
            rw [← getRevokingItem_parent, hparent] at hother
            exact (Option.some.inj hother).symm
          rw [unitsOrMinusOne_eq hwasU, unitsOrMinusOne_eq hwasTestU] at hboth
          have hboth := errorIf_nil hboth
          rw [Bool.and_eq_false_iff, Bool.not_eq_false', Bool.not_eq_false'] at hboth
          refine hboth.imp (fun hs => ?_) fun hs => ?_
          · rw [show payment.units = _ from hfield]
            exact strictEq_field (errorIf_nil hnegative) hs
          · rw [htest]
            exact strictEq_field hone hs
      · simp only [pure, Option.some.injEq, List.append_eq_nil_iff] at h
        obtain ⟨⟨⟨⟨hnegative, hnumber⟩, htype⟩, -⟩, hlimited⟩ := h
        obtain ⟨n, rfl⟩ := isNumber (errorIf_nil hnumber)
        obtain ⟨m, rfl⟩ := isNumber (errorIf_nil htype)
        have hlimited := errorIf_nil hlimited
        refine ⟨⟨n, field_of_not_minusOne hu (errorIf_nil hnegative)⟩, fun v hv => ⟨m, ?_⟩, by simp [hlimited],
          by simp [hlimited]⟩
        simpa [htest, eq_comm] using hv

/-- An accepted payment has accepted units. -/
theorem paymentCheck_units {others : Contract → Option (List ErrorRecord)} {answers : Answers} {payment : Item}
    {limitedForTestnet : Bool} (h : payment.paymentCheck others answers limitedForTestnet = some true) :
    UnitsAccepted payment.contract limitedForTestnet := by
  simp only [Item.paymentCheck, Option.bind_eq_bind, Option.bind_eq_some_iff] at h
  obtain ⟨units, hunits, issuer, -, h⟩ := h
  split at h
  · simp at h
  · rename_i hnil
    rw [not_not, List.append_eq_nil_iff] at hnil
    exact unitErrors_nil (hnil.1 ▸ hunits)

/-! ### The limit is what was paid -/

/-- A field that is `===` to another does not differ from it. -/
theorem field_eq_of_strictEq {was is : Option Value} {n : Number} (his : is = some (.num n))
    (h : strictEq is was = true) : was = is := by
  subst his
  cases was with
  | none => simp [strictEq] at h
  | some v =>
      cases v with
      | num m => rw [Number.eq_of_eq h]
      | _ => simp [strictEq] at h

/-- A field that is the same did not fall. -/
theorem not_fellBy_same {d : ℚ} (hd : 0 < d) {field : Option Value} : ¬FellBy d field field := by
  intro h
  simp only [FellBy, fieldMinus, Option.bind_eq_bind, Option.bind_eq_some_iff] at h
  obtain ⟨x, hx, y, hy, h⟩ := h
  obtain rfl : x = y := Option.some.inj (hx.symm.trans hy)
  cases x <;> simp_all [Number.sub]

/-- The difference of a kept field is nothing. -/
theorem fieldMinus_same {q : ℚ} : fieldMinus (some (.num (.fin q))) (some (.num (.fin q))) = some (.fin 0) := by
  simp [fieldMinus, fieldNumber, toNumber, primitive, primitiveNumber, Number.sub]

/-- A field that fell is there, unless it is null. -/
theorem isSome_of_fellBy {d : ℚ} {was is : Option Value} (h : FellBy d was is) : is.isSome := by
  cases is with
  | some v => rfl
  | none =>
      simp only [FellBy, fieldMinus, Option.bind_eq_bind, Option.bind_eq_some_iff] at h
      obtain ⟨x, -, y, hy, h⟩ := h
      obtain rfl : Number.nan = y := Option.some.inj hy
      cases x <;> simp [Number.sub] at h

/-- With a limit that is not negative no payload spends more. -/
theorem payloadsWithin {q : ℚ} {isTest : Bool} (hq : 0 ≤ q) : PayloadsWithin ⟨.fin q, isTest⟩ := by
  intro payload spent m h
  have hlimit : quantaLimit (.fin q) = (⌊q⌋.toNat : ℤ) := by
    rw [quantaLimit, if_pos hq, Int.toNat_of_nonneg (Int.floor_nonneg.mpr hq)]
  rw [hlimit] at h
  have hagrees := Quanta.check_root payload ⌊q⌋.toNat spent 0
  rw [h] at hagrees
  obtain ⟨sum, charged, hok, hdone⟩ | ⟨_, hthrow, -⟩ | ⟨_, hthrow, -⟩ := hagrees.cases
  · injection hok with _ hm
    subst hm
    have hle := Budget.spend_le (Nat.zero_le _) hdone
    have hfloor : ((⌊q⌋.toNat : ℕ) : ℚ) ≤ q := by
      have : ((⌊q⌋.toNat : ℤ) : ℚ) ≤ q := by
        rw [Int.toNat_of_nonneg (Int.floor_nonneg.mpr hq)]
        exact Int.floor_le q
      exact_mod_cast this
    simp only [Number.le, decide_eq_true_eq]
    have hsum : ((sum : ℕ) : ℚ) ≤ (⌊q⌋.toNat : ℕ) := by exact_mod_cast hle
    exact_mod_cast hsum.trans hfloor
  · exact absurd hthrow nofun
  · exact absurd hthrow nofun

/-- A payment whose test field fell: the limit is taken from it. -/
theorem prepareForNode_test {payment parent : Contract} {n : Number} {d : ℚ} (hd : 0 < d)
    (hparent : payment.revokedParent = some parent) (hnumber : payment.testUnits = some (.num n))
    (hfell : FellBy d parent.testUnits payment.testUnits) :
    prepareForNode payment = some ⟨.fin (quantaPerU * d), true⟩ := by
  have hpositive : ¬quantaPerU * d ≤ 0 := by
    rw [quantaPerU, not_le]
    positivity
  have hminus : fieldMinus parent.testUnits (some (.num n)) = some (.fin d) := hnumber ▸ hfell
  simp [prepareForNode, hparent, hnumber, notNull, hminus, timesQuantaPerU, Number.le, hpositive]

/-- A payment whose test field is kept: the limit is taken from the units. -/
theorem prepareForNode_units {payment parent : Contract} (hparent : payment.revokedParent = some parent)
    (hkept : Kept parent.testUnits payment.testUnits) :
    prepareForNode payment =
      (fieldMinus parent.units payment.units).map fun d => ⟨timesQuantaPerU d, false⟩ := by
  cases htest : payment.testUnits with
  | none => simp [prepareForNode, hparent, htest, notNull, Number.le]
  | some v =>
      obtain ⟨q, rfl⟩ := hkept.2 v (by simp [htest])
      simp [prepareForNode, hparent, hkept.1, htest, notNull, fieldMinus_same, timesQuantaPerU, Number.le]

/-- The units are in use only where the test field, if any, is finite. -/
theorem kept_of_units {payment parent : Contract} {parcel : Parcel}
    (hparent : payment.revokedParent = some parent) (hprepared : prepareForNode payment = some parcel)
    (hunits : parcel.isTestPayment = false) (hnumber : ∀ v ∈ payment.testUnits, ∃ n, v = .num n)
    (hsame : parent.testUnits = payment.testUnits) : Kept parent.testUnits payment.testUnits := by
  refine ⟨hsame, fun v hv => ?_⟩
  obtain ⟨n, rfl⟩ := hnumber v hv
  cases n with
  | fin q => exact ⟨q, rfl⟩
  | _ =>
      have hv : payment.testUnits = some _ := hv
      simp [prepareForNode, hparent, hsame, hv, notNull, fieldMinus, fieldNumber, toNumber, primitive,
        primitiveNumber, Number.sub, timesQuantaPerU, Number.le] at hprepared
      simp [← hprepared] at hunits

/-- CODE DEFECT (the payment): `paymentCheck` refuses that both fields change and never asks that one of them
    falls, so a payment of nothing, or one whose units rise, is accepted; the first gives a limit of zero, the
    second a negative one, which the quantiser reads as no limit. The limit of a parcel whose payment is accepted
    is what was paid exactly when the payment pays. -/
theorem limit_is_paid_iff {others : Contract → Option (List ErrorRecord)} {answers : Answers} {payment : Item}
    {parcel : Parcel} (hprepared : prepareForNode payment.contract = some parcel)
    (haccepted : payment.paymentCheck others answers parcel.isTestPayment = some true) :
    LimitIsPaid payment.contract parcel ↔ Pays payment.contract := by
  have hunits := paymentCheck_units haccepted
  constructor
  · rintro ⟨parent, d, hparent, hd, -, ⟨-, hfell, hsame⟩ | ⟨hisTest, hfell, hsame⟩, -⟩
    · exact ⟨parent, hparent, Or.inl ⟨d, hd, hfell⟩, Or.inl ⟨d, hd, hfell⟩, Or.inr hsame⟩
    · exact ⟨parent, hparent, Or.inr ⟨d, hd, hfell⟩,
        Or.inr (kept_of_units hparent hprepared hisTest hunits.testNumber hsame), Or.inl ⟨d, hd, hfell⟩⟩
  · rintro ⟨parent, hparent, hone, htest, hsame⟩
    rcases htest with ⟨d, hd, hfell⟩ | hkept
    · obtain ⟨v, hv⟩ := Option.isSome_iff_exists.mp (isSome_of_fellBy hfell)
      obtain ⟨n, rfl⟩ := hunits.testNumber v hv
      have hlimit := prepareForNode_test hd hparent hv hfell
      obtain rfl := Option.some.inj (hprepared.symm.trans hlimit)
      obtain ⟨u, hu⟩ := hunits.unitsNumber
      have hnotBoth := hunits.notBoth rfl parent hparent
      refine ⟨parent, d, hparent, hd, rfl, Or.inl ⟨rfl, hfell, ?_⟩, payloadsWithin ?_⟩
      · rcases hnotBoth with heq | heq
        · exact field_eq_of_strictEq hu heq
        · rw [field_eq_of_strictEq hv heq] at hfell
          exact absurd hfell (not_fellBy_same hd)
      · rw [quantaPerU]
        positivity
    · have hlimit := prepareForNode_units hparent hkept
      obtain ⟨d, hd, hfell⟩ := hone.resolve_left fun ⟨d, hd, h⟩ => not_fellBy_same hd (hkept.1 ▸ h)
      rw [show fieldMinus _ _ = _ from hfell] at hlimit
      obtain rfl := Option.some.inj (hprepared.symm.trans hlimit)
      refine ⟨parent, d, hparent, hd, rfl, Or.inr ⟨rfl, hfell, hkept.1⟩, payloadsWithin ?_⟩
      rw [quantaPerU]
      positivity

/-! ### A payment -/

/-- The permissions of units: the owner may change, the units may fall. -/
def unitsPermissions : List (String × List Permission) :=
  [("change_owner", [⟨"p1", "change_owner", keyRole "@owner" "alice", [], .changeOwner⟩]),
    ("decrement_permission",
      [⟨"p2", "decrement_permission", keyRole "@owner" "alice",
        [("field_name", .str "transaction_units"), ("min_value", .num (.fin 0)),
          ("min_step", .num (.fin (-2147483648))), ("max_step", .num (.fin (-1)))],
        .changeNumber ⟨"transaction_units", .num (.fin 0), .str "2147483647", .num (.fin (-2147483648)),
          .num (.fin (-1))⟩⟩])]

/-- A contract of units. -/
def unitsContract (id : UInt8) (revision : ℚ) (before : Option HashId) (owner : String) (units : ℚ)
    (revoking : List Contract) : Contract where
  id := ⟨[id]⟩
  apiLevel := .fin 4
  roles := ⟨keyRole "issuer" "issuer", keyRole "owner" owner, keyRole "creator" "alice"⟩
  definition :=
    { createdAt := some 0, expiresAt := some 10, data := [], references := [], extendedType := .null
      permissions := unitsPermissions }
  state :=
    { revision := .fin revision, createdAt := some 1, expiresAt := none, origin := before, parent := before
      data := [("transaction_units", .num (.fin units))], dataKeys := by simp [keys], branchId := .null
      references := [], roles := [] }
  transactional := none
  effectiveKeys := ["alice"]
  otherFields _ := none
  revokingItems := revoking

/-- The second revision of ten units. -/
def unitsPayment (owner : String) (units : ℚ) : Item :=
  .mk (unitsContract 2 2 (some ⟨[1]⟩) owner units [unitsContract 1 1 none "alice" 10 []]) []

/-- A payment whose units stay and whose owner is another is accepted, and pays nothing. -/
theorem limit_not_paid :
    prepareForNode (unitsPayment "bob" 10).contract = some ⟨.fin 0, false⟩ ∧
    (unitsPayment "bob" 10).paymentCheck (fun _ => some []) ⟨["alice"], some true⟩ false = some true ∧
    ¬LimitIsPaid (unitsPayment "bob" 10).contract ⟨.fin 0, false⟩ := by
  refine ⟨by decide +kernel, by decide +kernel, ?_⟩
  rintro ⟨_, d, -, hd, hlimit, -, -⟩
  have hzero : (0 : ℚ) = quantaPerU * d := Number.fin.inj hlimit
  have hpositive : 0 < quantaPerU * d := by
    rw [quantaPerU]
    positivity
  exact absurd hzero hpositive.ne

/-- The theorem on a payment of three units. -/
theorem limit_is_paid_three :
    prepareForNode (unitsPayment "alice" 7).contract = some ⟨.fin 600, false⟩ ∧
    (LimitIsPaid (unitsPayment "alice" 7).contract ⟨.fin 600, false⟩ ↔ Pays (unitsPayment "alice" 7).contract) :=
  ⟨by decide +kernel, @limit_is_paid_iff (fun _ => some []) ⟨["alice"], some true⟩ _ _
    (by decide +kernel) (by decide +kernel)⟩

end Universa.Contracts
