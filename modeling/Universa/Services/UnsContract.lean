import Universa.Contracts.Parcel
import Universa.Js.Arithmetic

/-! Payment and expiration of an UNS contract (`unsContract.js`): name-days that are left from the parent, name-days
    paid, and the date they last to. Numbers and dates are exact, and dates have no last one. An answer `none` of a
    function is a thrown exception.

    The three functions that compute a date or an amount share one balance, so the amount for a date pays up to
    that date, and along a chain of accepted revisions name-days are what was paid less what was used. -/

namespace Universa.Services.Uns
open Universa.Js Universa.Contracts

/-! ### The contract -/

/-- What the node's configuration says of UNS contracts. -/
structure NodeInfo where
  minPayment : Number
  rate : Number

/-- A name that the contract stores. -/
structure UnsName where
  unsName : String
  unsReducedName : String
  unsDescription : String

/-- A revision. `payment` is what `Parcel.findPaymentContract` finds in its transaction; the two dates are those of
    its state and of its definition. -/
structure UnsContract where
  id : Contracts.HashId
  revision : Number
  origin : Option Contracts.HashId
  parent : Option Contracts.HashId
  stateCreatedAt : ℤ
  definitionCreatedAt : ℤ
  data : List (String × Js.Value)
  storedNames : List UnsName
  paidU : Number
  prepaidNameDays : Number
  payment : Option Contract
  revokingItems : List UnsContract

/-- A date, or what stands for one. -/
inductive Expiration where
  | null
  | invalidDate
  | date (time : ℤ)
  deriving DecidableEq

/-- `new Date(x)`. -/
def Expiration.ofNumber (x : Number) : Expiration :=
  match Date.ofNumber x with
  | some time => .date time
  | none => .invalidDate

/-- `t.getOrDefault(data, key, 0)`. -/
def dataOrZero (data : List (String × Js.Value)) (key : String) : Option Js.Value := do
  if ← hasOwn data key then return (data.lookup key).getD .null else return .num (.fin 0)

/-- `getUPaidByContract(contract, allowTestPayments)`. -/
def getUPaidByContract (contract : Contract) (allowTestPayments : Bool) : Option Number :=
  match contract.revokedParent with
  | none => some (.fin 0)
  | some parent =>
      if notNull contract.testUnits then do
        let calculatedPayment ← fieldMinus parent.testUnits contract.testUnits
        if calculatedPayment.le (.fin 0) then fieldMinus parent.units contract.units
        else return if allowTestPayments then calculatedPayment else .fin 0
      else fieldMinus parent.units contract.units

/-- `names * Math.floor((till - since) / 1000) / (3600 * 24)`. -/
def nameDays (names : ℕ) (since till : ℤ) : ℚ := names * ((till - since) / 1000 : ℤ) / (3600 * 24)

namespace UnsContract
variable (info : NodeInfo) (c : UnsContract)

/-- `getRevokingItem(id)`. -/
def getRevokingItem (id : Option Contracts.HashId) : Option UnsContract :=
  c.revokingItems.find? fun ri => decide (some ri.id = id)

/-- `getCreatedAt()`. -/
def getCreatedAt : ℤ := if c.origin.isSome then c.stateCreatedAt else c.definitionCreatedAt

/-- `getStoredUnitsCount()`. -/
def getStoredUnitsCount : ℕ := c.storedNames.length

/-- `getPaidU(allowTestPayments)`. -/
def getPaidU (allowTestPayments : Bool) : Option Number :=
  match c.payment with
  | some payment => getUPaidByContract payment allowTestPayments
  | none => some (.fin 0)

/-- The name-days in the data, a number or its text. -/
def prepaidND : Option Number := do toNumber (← dataOrZero c.data "prepaid_ND")

/-- The name-days that the parent leaves. -/
def prepaidNameDaysLeft : Option Number :=
  match c.getRevokingItem c.parent with
  | none => some (.fin 0)
  | some parentContract => do
      let prepaid ← parentContract.prepaidND
      return prepaid.sub
        (.fin (nameDays parentContract.getStoredUnitsCount parentContract.getCreatedAt c.getCreatedAt))

/-- `calculatePrepaidNameDays(withSaveToState)`. -/
def calculatePrepaidNameDays (withSaveToState : Bool) : Option UnsContract := do
  let left ← c.prepaidNameDaysLeft
  let prepaidNameDays := left.add (c.paidU.mul info.rate)
  let c := { c with prepaidNameDays }
  return if withSaveToState then
    { c with data := assign (assign c.data "paid_U" (.num c.paidU)) "prepaid_ND" (.str prepaidNameDays.text) }
  else c

/-- `days * 24 * 3600000` milliseconds after the creation. -/
def afterDays (days : Number) : Expiration :=
  .ofNumber ((Number.fin c.getCreatedAt).add ((days.mul (.fin 24)).mul (.fin 3600000)))

/-- `getCurrentUnsExpiration()`. -/
def getCurrentUnsExpiration : Expiration :=
  let entries := c.getStoredUnitsCount
  if entries = 0 then .date c.getCreatedAt else c.afterDays (c.prepaidNameDays.div (.fin entries))

/-- `getPayingAmount(unsExpirationDate)`. -/
def getPayingAmount (unsExpirationDate : ℤ) : Option Number := do
  let nameDaysShouldBeValidFor :=
    Number.fin (nameDays c.getStoredUnitsCount c.getCreatedAt unsExpirationDate)
  let left ← c.prepaidNameDaysLeft
  let amount := ((nameDaysShouldBeValidFor.sub left).div info.rate).ceil
  if amount.le (.fin 0) then return .fin 0
  else if amount.lt info.minPayment then return info.minPayment
  else return amount

/-- No expiration: nothing is paid for a first revision, or less than the minimum. -/
def isTooLittle (payingAmount : Number) : Bool :=
  payingAmount.eq (.fin 0) && c.revision.eq (.fin 1) ||
    (Number.fin 0).lt payingAmount && payingAmount.lt info.minPayment

/-- `getUnsExpiration(payingAmount)`. -/
def getUnsExpiration (payingAmount : Number) : Option Expiration :=
  if c.isTooLittle info payingAmount then some .null else do
    let left ← c.prepaidNameDaysLeft
    return c.afterDays (((payingAmount.mul info.rate).add left).div (.fin c.getStoredUnitsCount))

/-- `setPayingAmount(payingAmount)`: the contract after it, and the date. -/
def setPayingAmount (payingAmount : Number) : Option (UnsContract × Expiration) :=
  if c.isTooLittle info payingAmount then some (c, .null) else do
    let c ← { c with paidU := payingAmount }.calculatePrepaidNameDays info false
    return (c, c.getCurrentUnsExpiration)

/-- The errors of the amount paid. -/
def paymentErrors (allowNoPayment : Bool) (paidU : Number) : Option (List Contracts.ErrorRecord) :=
  let invalid : Contracts.ErrorRecord := ⟨.FAILED_CHECK, "", "UNS contract hasn't valid payment"⟩
  if paidU.eq (.fin 0) then
    if allowNoPayment then some [] else do
      let test ← c.getPaidU true
      return if (Number.fin 0).lt test then
        [⟨.FAILED_CHECK, "", "Test payment is not allowed for storing names"⟩, invalid] else [invalid]
  else if paidU.lt info.minPayment then
    some [⟨.FAILED_CHECK, "", "Payment for UNS contract is below minimum level of " ++ info.minPayment.text ++ "U"⟩,
      invalid]
  else some []

/-- `checkPaymentAndRelatedFields(allowNoPayment)`: the contract after it and its errors. -/
def checkPaymentAndRelatedFields (allowNoPayment : Bool) : Option (UnsContract × List Contracts.ErrorRecord) := do
  let paidU ← c.getPaidU false
  let c := { c with paidU }
  let errors ← c.paymentErrors info allowNoPayment paidU
  if errors ≠ [] then return (c, errors)
  else
    let saved ← dataOrZero c.data "paid_U"
    -- `UnsContractPAID_U_FIELD_NAME` in the message of this error is not defined
    if !strictEq (some (.num paidU)) (some saved) then none
    else
      let c ← c.calculatePrepaidNameDays info false
      let prepaid ← c.prepaidND
      return (c, if c.prepaidNameDays.eq prepaid then [] else
        [⟨.FAILED_CHECK, "Wrong [state.data.prepaid_ND] value",
          "Should be sum of early prepaid name days left and prepaid name days of current revision. " ++
            "Make sure contract was prepared using correct UNS1 rate."⟩])

end UnsContract

/-! ### What is promised -/

/-- The balance of the contract is exact: dates are whole seconds, and the parent's name-days a finite number. -/
def UnsContract.Exact (c : UnsContract) : Prop :=
  c.getCreatedAt % 1000 = 0 ∧ ∀ parent, c.getRevokingItem c.parent = some parent →
    parent.getCreatedAt % 1000 = 0 ∧ ∃ q, parent.prepaidND = some (.fin q)

/-- The check of payment accepts the revision. -/
def Accepted (info : NodeInfo) (c : UnsContract) : Prop :=
  ∃ allowNoPayment c', c.checkPaymentAndRelatedFields info allowNoPayment = some (c', [])

/-- A chain of accepted revisions from the first, the last at the head, each with the U paid for it. -/
inductive Chain (info : NodeInfo) : List (UnsContract × ℚ) → Prop
  | first {c : UnsContract} {u : ℚ} (hroot : c.getRevokingItem c.parent = none) (haccepted : Accepted info c)
      (hpaid : c.getPaidU false = some (.fin u)) : Chain info [(c, u)]
  | next {c p : UnsContract} {u v : ℚ} {rest : List (UnsContract × ℚ)} (hchain : Chain info ((p, v) :: rest))
      (hparent : c.getRevokingItem c.parent = some p) (haccepted : Accepted info c)
      (hpaid : c.getPaidU false = some (.fin u)) : Chain info ((c, u) :: (p, v) :: rest)

/-- The name-days paid along a chain. -/
def paidNameDays (rate : ℚ) (chain : List (UnsContract × ℚ)) : ℚ := (chain.map fun e => e.2 * rate).sum

/-- The names stored times the days elapsed, between consecutive revisions. -/
def usedNameDays : List (UnsContract × ℚ) → ℚ
  | (c, _) :: (p, v) :: rest =>
      p.getStoredUnitsCount * ((c.getCreatedAt - p.getCreatedAt : ℤ) / (1000 * 3600 * 24) : ℚ) +
        usedNameDays ((p, v) :: rest)
  | _ => 0

/-! ### The amount and the date -/

/-- Between whole seconds nothing is cut. -/
theorem nameDays_exact {names : ℕ} {since till : ℤ} (hsince : since % 1000 = 0) (htill : till % 1000 = 0) :
    nameDays names since till = names * ((till - since : ℤ) / (1000 * 3600 * 24) : ℚ) := by
  obtain ⟨k, hk⟩ : ∃ k, till - since = 1000 * k := ⟨(till - since) / 1000, by omega⟩
  have hdiv : (till - since) / 1000 = k := by omega
  rw [nameDays, hdiv, hk]
  push_cast
  ring

namespace UnsContract
variable {info : NodeInfo} {c : UnsContract}

theorem Exact.left (h : c.Exact) : ∃ q, c.prepaidNameDaysLeft = some (.fin q) := by
  unfold prepaidNameDaysLeft
  cases hparent : c.getRevokingItem c.parent with
  | none => exact ⟨0, rfl⟩
  | some parent =>
      obtain ⟨-, q, hq⟩ := h.2 parent hparent
      exact ⟨_, by simp [hq]; rfl⟩

/-- The amount covers what is missing, and is nothing or at least the minimum. -/
theorem getPayingAmount_spec {left rate min : ℚ} {d : ℤ} (hleft : c.prepaidNameDaysLeft = some (.fin left))
    (hrate : info.rate = .fin rate) (hpos : 0 < rate) (hmin : info.minPayment = .fin min) :
    ∃ a : ℚ, c.getPayingAmount info d = some (.fin a) ∧
      nameDays c.getStoredUnitsCount c.getCreatedAt d - left ≤ a * rate ∧ (a = 0 ∨ 0 < a ∧ min ≤ a) := by
  obtain ⟨missing, hmissing⟩ : ∃ x, nameDays c.getStoredUnitsCount c.getCreatedAt d - left = x := ⟨_, rfl⟩
  have hceil : missing ≤ ⌈missing / rate⌉ * rate := (div_le_iff₀ hpos).mp (Int.le_ceil _)
  have hamount : c.getPayingAmount info d =
      if ((⌈missing / rate⌉ : ℤ) : ℚ) ≤ 0 then some (.fin 0)
      else if ((⌈missing / rate⌉ : ℤ) : ℚ) < min then some (.fin min)
      else some (.fin (⌈missing / rate⌉ : ℤ)) := by
    simp only [getPayingAmount, hleft, Option.bind_eq_bind, Option.bind_some, hrate, hmin, Number.sub_fin, hmissing,
      Number.div_fin _ hpos.ne', Number.ceil_fin, Number.le_fin, Number.lt_fin, decide_eq_true_eq]
    rfl
  rw [hamount, hmissing]
  split
  · rename_i hle
    exact ⟨0, rfl, hceil.trans (by nlinarith), Or.inl rfl⟩
  · rename_i hpositive
    split
    · rename_i hlt
      refine ⟨min, rfl, hceil.trans (by nlinarith), Or.inr ⟨by linarith, le_refl _⟩⟩
    · rename_i hnot
      exact ⟨_, rfl, hceil, Or.inr ⟨not_le.mp hpositive, not_lt.mp hnot⟩⟩

/-- With all that is missing paid, the names last to the date. -/
theorem date_of_balance {left paid : ℚ} {d : ℤ} (hnames : c.storedNames ≠ []) (hcreated : c.getCreatedAt % 1000 = 0)
    (hd : d % 1000 = 0) (hpaid : nameDays c.getStoredUnitsCount c.getCreatedAt d - left ≤ paid) :
    (d : ℚ) ≤ c.getCreatedAt + (paid + left) / c.getStoredUnitsCount * 24 * 3600000 := by
  have hcount : (0 : ℚ) < c.getStoredUnitsCount := by exact_mod_cast List.length_pos_of_ne_nil hnames
  rw [nameDays_exact hcreated hd] at hpaid
  have hdays : ((d - c.getCreatedAt : ℤ) / (1000 * 3600 * 24) : ℚ) ≤ (paid + left) / c.getStoredUnitsCount := by
    rw [le_div_iff₀ hcount]
    linarith
  push_cast at hdays
  linarith

/-- What is paid for a date gives an expiration that is not before it. -/
theorem getUnsExpiration_getPayingAmount {rate min : ℚ} {d : ℤ} (hrate : info.rate = .fin rate) (hpos : 0 < rate)
    (hmin : info.minPayment = .fin min) (hnames : c.storedNames ≠ []) (hexact : c.Exact) (hd : d % 1000 = 0) :
    ∃ amount expiration, c.getPayingAmount info d = some amount ∧ c.getUnsExpiration info amount = some expiration ∧
      (¬(amount = .fin 0 ∧ c.revision = .fin 1) → ∃ time, expiration = .date time ∧ d ≤ time) := by
  obtain ⟨left, hleft⟩ := hexact.left
  obtain ⟨a, hamount, hpaid, ha⟩ := getPayingAmount_spec (d := d) hleft hrate hpos hmin
  have hcount : (c.getStoredUnitsCount : ℚ) ≠ 0 := by
    exact_mod_cast (List.length_pos_of_ne_nil hnames).ne'
  have hexpiration : c.getUnsExpiration info (.fin a) = if c.isTooLittle info (.fin a) then some .null else
      some (.date (Date.ofMilliseconds
        (c.getCreatedAt + (a * rate + left) / c.getStoredUnitsCount * 24 * 3600000))) := by
    simp only [getUnsExpiration, hleft, Option.bind_eq_bind, Option.bind_some, hrate, Number.mul_fin, Number.add_fin,
      Number.div_fin _ hcount]
    rfl
  refine ⟨.fin a, _, hamount, hexpiration.trans (apply_ite some _ _ _).symm, fun hpays => ?_⟩
  have hlittle : c.isTooLittle info (.fin a) = false := by
    rw [isTooLittle, hmin, Bool.or_eq_false_iff]
    rcases ha with rfl | ⟨hpositive, hmin⟩
    · refine ⟨?_, by simp⟩
      simp only [Number.eq_fin, decide_true, Bool.true_and]
      exact Bool.eq_false_iff.mpr fun h => hpays ⟨rfl, Number.eq_of_eq h⟩
    · simp [hpositive.ne', not_lt.mpr hmin]
  rw [hlittle, if_neg (by simp)]
  exact ⟨_, rfl, Date.le_ofMilliseconds (date_of_balance hnames hexact.1 hd hpaid)⟩

/-- Setting an amount gives the date that was computed for it. -/
theorem setPayingAmount_date (hnames : c.storedNames ≠ []) (a : Number) :
    (c.setPayingAmount info a).map Prod.snd = c.getUnsExpiration info a := by
  have hcount : c.getStoredUnitsCount ≠ 0 := (List.length_pos_of_ne_nil hnames).ne'
  unfold setPayingAmount getUnsExpiration
  cases c.isTooLittle info a with
  | true => rfl
  | false =>
      have hleft : { c with paidU := a }.prepaidNameDaysLeft = c.prepaidNameDaysLeft := rfl
      simp only [Bool.false_eq_true, if_false, calculatePrepaidNameDays, hleft]
      cases c.prepaidNameDaysLeft with
      | none => rfl
      | some left =>
          simp only [Option.bind_eq_bind, Option.bind_some, Number.add_comm left]
          exact congrArg some (if_neg hcount)

/-! ### The chain -/

/-- An accepted revision holds what its parent leaves and what is paid for it. -/
theorem prepaidND_of_accepted {left u rate : ℚ} (haccepted : Accepted info c)
    (hleft : c.prepaidNameDaysLeft = some (.fin left)) (hpaid : c.getPaidU false = some (.fin u))
    (hrate : info.rate = .fin rate) : c.prepaidND = some (.fin (left + u * rate)) := by
  obtain ⟨allowNoPayment, c', h⟩ := haccepted
  simp only [checkPaymentAndRelatedFields, hpaid, Option.bind_eq_bind, Option.bind_some,
    Option.bind_eq_some_iff] at h
  obtain ⟨errors, -, h⟩ := h
  split at h
  · simp_all
  · simp only [Option.bind_eq_some_iff] at h
    obtain ⟨saved, -, h⟩ := h
    split at h
    · simp at h
    · have hsame : { c with paidU := .fin u }.prepaidNameDaysLeft = c.prepaidNameDaysLeft := rfl
      simp only [calculatePrepaidNameDays, hsame, hleft, hrate, Option.bind_eq_bind, Option.bind_some,
        Number.mul_fin, Number.add_fin, Bool.false_eq_true, if_false, pure, Option.some.injEq,
        Option.bind_eq_some_iff, Prod.mk.injEq] at h
      obtain ⟨prepaid, hprepaid, -, hnone⟩ := h
      split at hnone
      · rename_i heq
        exact Number.eq_of_eq heq ▸ hprepaid
      · simp at hnone

end UnsContract

/-- Along a chain the name-days of the last revision are those paid less those used. -/
theorem Chain.conserved {info : NodeInfo} {rate : ℚ} (hrate : info.rate = .fin rate)
    {chain : List (UnsContract × ℚ)} (hchain : Chain info chain)
    (hseconds : ∀ e ∈ chain, e.1.getCreatedAt % 1000 = 0) :
    ∀ last ∈ chain.head?, last.1.prepaidND = some (.fin (paidNameDays rate chain - usedNameDays chain)) := by
  induction hchain with
  | @first c u hroot haccepted hpaid =>
      rintro _ ⟨⟩
      have hleft : c.prepaidNameDaysLeft = some (.fin 0) := by simp [UnsContract.prepaidNameDaysLeft, hroot]
      rw [UnsContract.prepaidND_of_accepted haccepted hleft hpaid hrate]
      simp [paidNameDays, usedNameDays]
  | @next c p u v rest hchain hparent haccepted hpaid ih =>
      rintro _ ⟨⟩
      have hbefore := ih (fun e he => hseconds e (List.mem_cons_of_mem _ he)) (p, v) rfl
      have hleft : c.prepaidNameDaysLeft = some (.fin (paidNameDays rate ((p, v) :: rest) -
          usedNameDays ((p, v) :: rest) - nameDays p.getStoredUnitsCount p.getCreatedAt c.getCreatedAt)) := by
        simp [UnsContract.prepaidNameDaysLeft, hparent, hbefore]
      rw [UnsContract.prepaidND_of_accepted haccepted hleft hpaid hrate,
        nameDays_exact (hseconds (p, v) (by simp)) (hseconds (c, u) (by simp))]
      simp only [paidNameDays, usedNameDays, List.map_cons, List.sum_cons]
      ring_nf

/-! ### Amount, date and balance -/

/-- CORRECT (amount and date agree, name-days are conserved): what `getPayingAmount` asks for a date gives an
    expiration, except for nothing paid at the first revision, and one that is not before the date; `setPayingAmount`
    gives the date of `getUnsExpiration`; and along every chain of accepted revisions the name-days of the last are
    the U paid at the rate, less the names stored over the days between the revisions. -/
theorem paying_agrees_and_conserves {info : NodeInfo} {rate min : ℚ} (hrate : info.rate = .fin rate)
    (hpos : 0 < rate) (hmin : info.minPayment = .fin min) :
    (∀ (c : UnsContract) (d : ℤ), c.storedNames ≠ [] → c.Exact → d % 1000 = 0 → c.getCreatedAt < d →
      ∃ amount expiration, c.getPayingAmount info d = some amount ∧
        c.getUnsExpiration info amount = some expiration ∧
        (¬(amount = .fin 0 ∧ c.revision = .fin 1) → ∃ time, expiration = .date time ∧ d ≤ time)) ∧
    (∀ (c : UnsContract) (a : Number), c.storedNames ≠ [] → (Number.fin 0).le a = true →
      (c.setPayingAmount info a).map Prod.snd = c.getUnsExpiration info a) ∧
    (∀ chain, Chain info chain → (∀ e ∈ chain, e.1.getCreatedAt % 1000 = 0) →
      ∀ last ∈ chain.head?, last.1.prepaidND = some (.fin (paidNameDays rate chain - usedNameDays chain))) :=
  ⟨fun _ _ hnames hexact hd _ => UnsContract.getUnsExpiration_getPayingAmount hrate hpos hmin hnames hexact hd,
    fun _ a hnames _ => UnsContract.setPayingAmount_date hnames a,
    fun _ hchain hseconds => hchain.conserved hrate hseconds⟩

/-- A first revision of one name, with three U paid. -/
def firstRevision : UnsContract :=
  ⟨⟨[1]⟩, .fin 1, none, none, 0, 0, [("paid_U", .num (.fin 3)), ("prepaid_ND", .str "0.75")],
    [⟨"name", "name", ""⟩], .fin 0, .fin 0, some (unitsPayment "alice" 7).contract, []⟩

/-- A day later, with nothing paid: the name-days of its parent are over. -/
def secondRevision : UnsContract :=
  ⟨⟨[2]⟩, .fin 2, some ⟨[1]⟩, some ⟨[1]⟩, 86400000, 0, [("paid_U", .num (.fin 0)), ("prepaid_ND", .str "-0.25")],
    [⟨"name", "name", ""⟩], .fin 0, .fin 0, none, [firstRevision]⟩

theorem accepted_of_errors {info : NodeInfo} {c : UnsContract} (allowNoPayment : Bool)
    (h : (c.checkPaymentAndRelatedFields info allowNoPayment).map Prod.snd = some []) : Accepted info c := by
  obtain ⟨⟨c', errors⟩, hcheck, rfl⟩ := Option.map_eq_some_iff.mp h
  exact ⟨allowNoPayment, c', hcheck⟩

/-- The theorem on the two revisions, and ten days after the first. -/
theorem paying_agrees_two_revisions :
    (∃ amount expiration, secondRevision.getPayingAmount ⟨.fin 2, .fin (1 / 4)⟩ 864000000 = some amount ∧
      secondRevision.getUnsExpiration ⟨.fin 2, .fin (1 / 4)⟩ amount = some expiration ∧
      (¬(amount = .fin 0 ∧ secondRevision.revision = .fin 1) →
        ∃ time, expiration = .date time ∧ 864000000 ≤ time)) ∧
    (secondRevision.setPayingAmount ⟨.fin 2, .fin (1 / 4)⟩ (.fin 5)).map Prod.snd =
      secondRevision.getUnsExpiration ⟨.fin 2, .fin (1 / 4)⟩ (.fin 5) ∧
    secondRevision.prepaidND = some (.fin (paidNameDays (1 / 4) [(secondRevision, 0), (firstRevision, 3)] -
      usedNameDays [(secondRevision, 0), (firstRevision, 3)])) := by
  obtain ⟨hdate, hset, hchain⟩ :=
    @paying_agrees_and_conserves ⟨.fin 2, .fin (1 / 4)⟩ (1 / 4) 2 rfl (by norm_num) rfl
  refine ⟨hdate secondRevision 864000000 (by simp [secondRevision]) ⟨by decide, ?_⟩ (by decide) (by decide),
    hset secondRevision (.fin 5) (by simp [secondRevision]) (by decide +kernel),
    hchain _ (.next (.first rfl (accepted_of_errors false (by decide +kernel)) (by decide +kernel)) rfl
      (accepted_of_errors true (by decide +kernel)) rfl) ?_ _ rfl⟩
  · rintro _ ⟨⟩
    exact ⟨by decide, 3 / 4, by decide +kernel⟩
  · intro e he
    simp only [List.mem_cons, List.not_mem_nil, or_false] at he
    rcases he with rfl | rfl <;> decide

end Universa.Services.Uns
