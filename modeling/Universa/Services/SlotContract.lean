import Universa.Contracts.ContractDelta
import Universa.Js.Date
import Universa.Lib.Run

/-! The slot contract (`slotContract.js`): what is prepaid and spent, until when the storages last, and what a chain
    of revisions and subscription events grants. Amounts are exact rationals, dates are milliseconds.

    What was spent is read from the parent of the revision at hand. The checks look at its prepaid amount only, so
    its owner writes the rest, and an event counts from the parent again and not from what it stored since. -/

namespace Universa.Services.Slot
open Universa.Js

/-! ### The contract -/

/-- What the node's configuration says of slots. -/
structure NodeInfo where
  minPayment : ℚ
  rate : ℚ

/-- The fields of a slot in `state.data`, all of which its owner may modify. -/
structure SlotData where
  paid_U : Option ℚ
  prepaid_KD : Option ℚ
  prepaid_from : Option ℚ
  stored_bytes : Option ℚ
  spent_KD : Option ℚ
  spent_KD_time : Option ℚ
  deriving DecidableEq

/-- A tracking contract with its packed transaction: whose keys its owner is, and the length of the pack. -/
structure TrackingContract where
  id : Contracts.HashId
  origin : Contracts.HashId
  ownerAllows : Contracts.KeySet → Bool
  packedLength : ℕ

/-- `SlotContract`, a revision: the data of the parent it revokes, and what the payment in its transaction pays,
    without and with test payments. -/
structure SlotContract where
  revision : ℕ
  extendedType : String
  effectiveKeys : Contracts.KeySet
  keepRevisions : ℕ
  trackingContracts : List TrackingContract
  data : SlotData
  parentContract : Option SlotData
  paidU : ℚ
  paidUWithTest : ℚ

/-- What `calculatePrepaidKilobytesForDays` sets. -/
structure Storing where
  prepaidKilobytesForDays : ℚ
  spentKDs : ℚ
  spentKDsTime : ℤ

/-- `NContractStorage` and `NContractSubscription` of the environment: for what and until when. -/
structure Entry where
  contractId : Contracts.HashId
  expiresAt : ℤ
  deriving DecidableEq

/-- The environment of a slot. -/
structure Environment where
  storages : List Entry
  subscriptions : List Entry
  deriving DecidableEq

/-- A contract event; only an approved revision matters. -/
inductive Event where
  | approved (newRevision : TrackingContract)
  | other

/-- What the data say is spent at a time in seconds. -/
def SlotData.spentAt (d : SlotData) (now : ℤ) : ℚ :=
  d.spent_KD.getD 0 + (now - d.spent_KD_time.getD now) / (3600 * 24) * (d.stored_bytes.getD 0 / 1024)

namespace SlotContract
variable (info : NodeInfo) (c : SlotContract)

/-- The length of what is tracked. -/
def storingBytes : ℕ := (c.trackingContracts.map TrackingContract.packedLength).sum

/-- `calculatePrepaidKilobytesForDays(false)`; without a parent nothing was spent. -/
def calculatePrepaidKilobytesForDays (date : ℤ) : Storing where
  prepaidKilobytesForDays := (c.parentContract.bind SlotData.prepaid_KD).getD 0 + c.paidU * info.rate
  spentKDs := c.parentContract.elim 0 (·.spentAt (date / 1000))
  spentKDsTime := date

/-- `calculatePrepaidKilobytesForDays(true)`, as `seal` calls it. -/
def sealed (date : ℤ) : SlotContract :=
  let s := c.calculatePrepaidKilobytesForDays info date
  { c with data :=
    { paid_U := some c.paidU
      prepaid_KD := some s.prepaidKilobytesForDays
      prepaid_from := if c.revision = 1 then some (date / 1000 : ℤ) else c.data.prepaid_from
      stored_bytes := some c.storingBytes
      spent_KD := some s.spentKDs
      spent_KD_time := some (date / 1000 : ℤ) } }

/-- `calcExpiresAt()`. A slot that is accepted tracks a contract, so the volume is not nothing. -/
def calcExpiresAt (s : Storing) : ℤ :=
  let days := (s.prepaidKilobytesForDays - s.spentKDs) * 1024 / c.storingBytes
  let milliseconds := days * 24 * 3600 * 1000
  Date.clearMilliseconds (Date.ofMilliseconds (s.spentKDsTime + milliseconds))

/-- A loop over storages or subscriptions: those whose id is new get the date, the others are destroyed, and the ids
    that are left are created. -/
def updateEach (newExpires : ℤ) : List Contracts.HashId → List Entry → List Entry
  | newIds, [] => newIds.map (⟨·, newExpires⟩)
  | newIds, e :: es =>
      if e.contractId ∈ newIds then
        { e with expiresAt := newExpires } :: updateEach newExpires (newIds.erase e.contractId) es
      else updateEach newExpires newIds es

/-- `updateSubscriptions(me)`: the date, and what its calls set for the storages and subscriptions of the
    environment. Not all of it can be saved: a save that has a storage to add throws, as `storage.contract` is
    no field of `NContractStorage`. -/
def updateSubscriptions (date : ℤ) (me : Environment) : ℤ × Environment :=
  let newExpires := c.calcExpiresAt (c.calculatePrepaidKilobytesForDays info date)
  let newIds := (c.trackingContracts.map TrackingContract.id).dedup
  (newExpires, ⟨updateEach newExpires newIds me.storages, updateEach newExpires newIds me.subscriptions⟩)

/-- `putTrackingContract(c)`. -/
def putTrackingContract (tc : TrackingContract) : SlotContract :=
  { c with trackingContracts := (tc :: c.trackingContracts).take c.keepRevisions }

/-! ### Its checks -/

/-- `additionallySlotCheck(ime)`. -/
def additionallySlotCheck (ime : Option Environment) : List Contracts.ErrorRecord :=
  if ime.isNone then [⟨.FAILED_CHECK, "", "Environment should be not null"⟩]
  else if c.extendedType ≠ "SLOT1" then
    [⟨.FAILED_CHECK, "definition.extended_type", "illegal value, should be SLOT1 instead " ++ c.extendedType⟩]
  else match c.trackingContracts with
    | [] => [⟨.FAILED_CHECK, "", "Tracking contract is missed"⟩]
    | tracking :: _ =>
        if c.trackingContracts.all fun tc => decide (tracking.origin = tc.origin) then []
        else [⟨.FAILED_CHECK, "", "Slot-contract should store only contracts with same origin"⟩]

/-- The errors of the payment of a first revision. -/
def paymentErrors : List Contracts.ErrorRecord :=
  let invalid : Contracts.ErrorRecord := ⟨.FAILED_CHECK, "", "Slot contract hasn't valid payment"⟩
  if c.paidU = 0 then
    if 0 < c.paidUWithTest then
      [⟨.FAILED_CHECK, "", "Test payment is not allowed for storing contracts in slots"⟩, invalid]
    else [invalid]
  else if c.paidU < info.minPayment then
    [⟨.FAILED_CHECK, "", "Payment for slot contract is below minimum level of " ++ decimalText info.minPayment ++ "U"⟩,
      invalid]
  else []

/-- `beforeUpdate(c)`: its errors. -/
def beforeUpdate (date : ℤ) (ime : Option Environment) : List Contracts.ErrorRecord :=
  let s := c.calculatePrepaidKilobytesForDays info date
  if s.prepaidKilobytesForDays ≠ c.data.prepaid_KD.getD 0 then
    [⟨.FAILED_CHECK, "state.data.prepaid_KD", "Should be sum of early paid U and paid U by current revision."⟩]
  else if c.trackingContracts.head?.any fun tc => !tc.ownerAllows c.effectiveKeys then
    [⟨.FAILED_CHECK, "", "Slot-contract signing keys must has allowed keys for owner of tracking contract"⟩]
  else c.additionallySlotCheck ime

/-- `beforeCreate(c)`: the payment, then the same checks. -/
def beforeCreate (date : ℤ) (ime : Option Environment) : List Contracts.ErrorRecord :=
  if c.paymentErrors info ≠ [] then c.paymentErrors info else c.beforeUpdate info date ime

end SlotContract

/-! ### Chains -/

/-- A chain of revisions with its environment: the amount paid at the rate, the kilobyte-days granted until the last
    recalculation, its time and the expiry it set, and a second of the volume for each recalculation. -/
structure State where
  slot : Option SlotContract
  me : Environment
  paid : ℚ
  granted : ℚ
  truncated : ℚ
  time : ℤ
  expiresAt : ℤ

/-- Nothing is there. -/
def start : State := ⟨none, ⟨[], []⟩, 0, 0, 0, 0, 0⟩

/-- What happens to a chain. -/
inductive Action where
  | create (c : SlotContract) (date : ℤ)
  | update (c : SlotContract) (date : ℤ)
  | event (e : Event) (date : ℤ)

/-- The days from one date to another, in whole seconds; none if it is not later. -/
def days (since till : ℤ) : ℚ := max 0 ((till / 1000 - since / 1000 : ℤ) / (3600 * 24))

/-- The kilobytes of a slot. -/
def SlotContract.kilobytes (c : SlotContract) : ℚ := c.storingBytes / 1024

/-- The kilobytes stored. -/
def State.kilobytes (s : State) : ℚ := s.slot.elim 0 SlotContract.kilobytes

/-- What is granted until a date: up to the expiry, or to the date where it is earlier. -/
def State.grantedUntil (s : State) (date : ℤ) : ℚ :=
  s.granted + s.kilobytes * days s.time (min s.expiresAt date)

/-- The chain after `updateSubscriptions` of the revision at hand. -/
def State.recalculated (info : NodeInfo) (s : State) (c : SlotContract) (paid : ℚ) (date : ℤ) : State :=
  let (newExpires, me) := c.updateSubscriptions info date s.me
  { slot := some c
    me
    paid
    granted := s.grantedUntil date
    truncated := s.truncated + c.kilobytes / (3600 * 24)
    time := date
    expiresAt := newExpires }

/-- `beforeCreate` and `onCreated`, `beforeUpdate` and `onUpdated` of a revision of the slot there is, or
    `onContractSubscriptionEvent`. Time does not run back. -/
def step (info : NodeInfo) (s : State) : Action → Option State
  | .create c date =>
      if s.slot = none ∧ c.parentContract = none ∧ c.beforeCreate info date (some s.me) = [] then
        some (s.recalculated info c (s.paid + c.paidU * info.rate) date)
      else none
  | .update c date =>
      if c.parentContract.isSome ∧ c.parentContract = s.slot.map SlotContract.data ∧ s.time ≤ date ∧
          c.beforeUpdate info date (some s.me) = [] then
        some (s.recalculated info c (s.paid + c.paidU * info.rate) date)
      else none
  | .event (.approved newRevision) date =>
      match s.slot with
      | some c =>
          if s.time ≤ date then some (s.recalculated info (c.putTrackingContract newRevision) s.paid date) else none
      | none => none
  | .event .other _ => some s

/-- The storage granted, with what the expiry still grants, is within what was paid, up to the seconds cut. -/
def NotExceeded (s : State) : Prop :=
  s.granted + s.kilobytes * days s.time s.expiresAt ≤ s.paid + s.truncated

/-- The parent of the revision at hand accounts for what the chain has granted until the date. -/
def Accounted (s : State) (c : SlotContract) (date : ℤ) : Prop :=
  s.grantedUntil date ≤ c.parentContract.elim 0 (·.spentAt (date / 1000)) + s.truncated

/-- What stays within: no negative payment, and each time the parent accounts for what was granted. -/
def Clean (info : NodeInfo) (s : State) : Action → Prop
  | .create c date | .update c date => 0 ≤ c.paidU * info.rate ∧ Accounted s c date
  | .event (.approved _) date => ∀ c ∈ s.slot, Accounted s c date
  | .event .other _ => True

/-! ### One recalculation -/

theorem SlotContract.kilobytes_nonneg (c : SlotContract) : 0 ≤ c.kilobytes := by
  unfold kilobytes
  positivity

theorem State.kilobytes_nonneg (s : State) : 0 ≤ s.kilobytes := by
  unfold State.kilobytes
  cases s.slot with
  | none => exact le_refl _
  | some c => exact c.kilobytes_nonneg

/-- Later dates are more days away. -/
theorem days_mono {since till till' : ℤ} (h : till ≤ till') : days since till ≤ days since till' := by
  have hseconds : till / 1000 - since / 1000 ≤ till' / 1000 - since / 1000 := by omega
  refine max_le_max (le_refl _) ?_
  gcongr

/-- The expiry is at most a second later than what is left of the prepaid amount lasts. -/
theorem calcExpiresAt_seconds (c : SlotContract) (s : Storing) :
    ((c.calcExpiresAt s / 1000 - s.spentKDsTime / 1000 : ℤ) : ℚ) ≤
      (s.prepaidKilobytesForDays - s.spentKDs) * 1024 / c.storingBytes * 24 * 3600 + 1 := by
  obtain ⟨x, hx⟩ : ∃ x : ℚ, s.spentKDsTime +
    (s.prepaidKilobytesForDays - s.spentKDs) * 1024 / c.storingBytes * 24 * 3600 * 1000 = x := ⟨_, rfl⟩
  have hexpires : c.calcExpiresAt s = Date.ofMilliseconds x / 1000 * 1000 := by rw [← hx]; rfl
  have hceil : (Date.ofMilliseconds x : ℚ) < x + 1 :=
    lt_of_le_of_lt (by exact_mod_cast Date.toInteger_le_ceil x) (Int.ceil_lt_add_one x)
  have hcut : 1000 * (c.calcExpiresAt s / 1000 - s.spentKDsTime / 1000) ≤
      Date.ofMilliseconds x - s.spentKDsTime + 999 := by omega
  have hcut' : (1000 * (c.calcExpiresAt s / 1000 - s.spentKDsTime / 1000 : ℤ) : ℚ) ≤
      Date.ofMilliseconds x - s.spentKDsTime + 999 := by exact_mod_cast hcut
  linarith

/-- What the expiry grants is what is left of the prepaid amount, up to a second of the volume. -/
theorem granted_le (c : SlotContract) (s : Storing) :
    c.kilobytes * days s.spentKDsTime (c.calcExpiresAt s) ≤
      max 0 (s.prepaidKilobytesForDays - s.spentKDs) + c.kilobytes / (3600 * 24) := by
  have hkilobytes := c.kilobytes_nonneg
  have hleft := le_max_right 0 (s.prepaidKilobytesForDays - s.spentKDs)
  rcases hkilobytes.eq_or_lt with hzero | hpos
  · rw [← hzero, zero_mul, zero_div, add_zero]
    exact le_max_left _ _
  · have hbytes : (c.storingBytes : ℚ) ≠ 0 := by
      intro h
      simp [SlotContract.kilobytes, h] at hpos
    have hseconds := calcExpiresAt_seconds c s
    rw [days, mul_max_of_nonneg _ _ hkilobytes, mul_zero]
    refine max_le (by positivity) ?_
    calc c.kilobytes * (((c.calcExpiresAt s / 1000 - s.spentKDsTime / 1000 : ℤ) : ℚ) / (3600 * 24))
        ≤ c.kilobytes * (((s.prepaidKilobytesForDays - s.spentKDs) * 1024 / c.storingBytes * 24 * 3600 + 1) /
          (3600 * 24)) := by gcongr
      _ = s.prepaidKilobytesForDays - s.spentKDs + c.kilobytes / (3600 * 24) := by
          unfold SlotContract.kilobytes
          field_simp
      _ ≤ _ := by linarith

/-- A recalculation whose prepaid amount is what was paid, and whose parent accounts for what was granted, stays
    within. -/
theorem notExceeded_recalculated {info : NodeInfo} {s : State} {c : SlotContract} {paid : ℚ} {date : ℤ}
    (h : NotExceeded s) (haccounted : Accounted s c date) (hmore : s.paid ≤ paid)
    (hprepaid : (c.calculatePrepaidKilobytesForDays info date).prepaidKilobytesForDays = paid) :
    NotExceeded (s.recalculated info c paid date) := by
  obtain ⟨st, hst⟩ : ∃ st, c.calculatePrepaidKilobytesForDays info date = st := ⟨_, rfl⟩
  have htime : st.spentKDsTime = date := by rw [← hst]; rfl
  have hspent : c.parentContract.elim 0 (·.spentAt (date / 1000)) = st.spentKDs := by rw [← hst]; rfl
  have hgranted := granted_le c st
  have hbefore : s.grantedUntil date ≤ s.paid + s.truncated := by
    refine le_trans ?_ h
    have := mul_le_mul_of_nonneg_left (@days_mono s.time _ _ (min_le_left s.expiresAt date)) s.kilobytes_nonneg
    unfold State.grantedUntil
    linarith
  rw [hst] at hprepaid
  rw [htime, hprepaid] at hgranted
  rw [Accounted, hspent] at haccounted
  have hnow : s.grantedUntil date + max 0 (paid - st.spentKDs) ≤ paid + s.truncated := by
    rcases le_total paid st.spentKDs with hle | hle
    · rw [max_eq_left (by linarith)]
      linarith
    · rw [max_eq_right (by linarith)]
      linarith
  have hexpires : (s.recalculated info c paid date).expiresAt = c.calcExpiresAt st := by rw [← hst]; rfl
  have hkilobytes : (s.recalculated info c paid date).kilobytes = c.kilobytes := rfl
  have htrunc : (s.recalculated info c paid date).truncated = s.truncated + c.kilobytes / (3600 * 24) := rfl
  unfold NotExceeded
  rw [hexpires, hkilobytes, htrunc]
  show s.grantedUntil date + c.kilobytes * days date (c.calcExpiresAt st) ≤ paid + _
  linarith

/-! ### Runs -/

/-- What a clean run keeps: the chain is within what was paid, nothing is paid before there is a slot, and then the
    prepaid amount of the revision is what was paid. -/
structure Within (info : NodeInfo) (s : State) : Prop where
  notExceeded : NotExceeded s
  nothingPaid : s.slot = none → s.paid = 0
  prepaid : ∀ c ∈ s.slot, (c.parentContract.bind SlotData.prepaid_KD).getD 0 + c.paidU * info.rate = s.paid ∧
    c.data.prepaid_KD.getD 0 = s.paid

theorem within_start (info : NodeInfo) : Within info start where
  notExceeded := by simp [NotExceeded, start, State.kilobytes]
  nothingPaid _ := rfl
  prepaid c hc := by simp [start] at hc

/-- The check of an update compares the prepaid amount with the data. -/
theorem prepaid_of_beforeUpdate {info : NodeInfo} {c : SlotContract} {date : ℤ} {ime : Option Environment}
    (h : c.beforeUpdate info date ime = []) :
    (c.parentContract.bind SlotData.prepaid_KD).getD 0 + c.paidU * info.rate = c.data.prepaid_KD.getD 0 := by
  by_contra hne
  have hne : (c.calculatePrepaidKilobytesForDays info date).prepaidKilobytesForDays ≠ c.data.prepaid_KD.getD 0 := hne
  simp [SlotContract.beforeUpdate, hne] at h

/-- So does the check of a first revision. -/
theorem prepaid_of_beforeCreate {info : NodeInfo} {c : SlotContract} {date : ℤ} {ime : Option Environment}
    (h : c.beforeCreate info date ime = []) :
    (c.parentContract.bind SlotData.prepaid_KD).getD 0 + c.paidU * info.rate = c.data.prepaid_KD.getD 0 := by
  unfold SlotContract.beforeCreate at h
  split at h
  · contradiction
  · exact prepaid_of_beforeUpdate h

/-- A new revision whose prepaid amount is all that was paid. -/
theorem Within.revision {info : NodeInfo} {s : State} {c : SlotContract} {date : ℤ} (h : Within info s)
    (hclean : 0 ≤ c.paidU * info.rate ∧ Accounted s c date)
    (hbefore : (c.parentContract.bind SlotData.prepaid_KD).getD 0 = s.paid)
    (hdata : (c.parentContract.bind SlotData.prepaid_KD).getD 0 + c.paidU * info.rate = c.data.prepaid_KD.getD 0) :
    Within info (s.recalculated info c (s.paid + c.paidU * info.rate) date) where
  notExceeded := notExceeded_recalculated h.notExceeded hclean.2 (by linarith [hclean.1]) (by rw [← hbefore]; rfl)
  nothingPaid := nofun
  prepaid := by
    rintro _ ⟨⟩
    rw [← hdata, hbefore]
    exact ⟨rfl, rfl⟩

/-- An event, with one more revision tracked. -/
theorem Within.event {info : NodeInfo} {s : State} {c : SlotContract} {date : ℤ} (h : Within info s)
    (hslot : s.slot = some c) (haccounted : Accounted s c date) (tc : TrackingContract) :
    Within info (s.recalculated info (c.putTrackingContract tc) s.paid date) where
  notExceeded := notExceeded_recalculated h.notExceeded haccounted (le_refl _) (h.prepaid c hslot).1
  nothingPaid := nofun
  prepaid := by
    rintro _ ⟨⟩
    exact h.prepaid c hslot

theorem within_step {info : NodeInfo} (s : State) (a : Action) (s' : State) (h : Within info s)
    (hclean : Clean info s a) (hstep : step info s a = some s') : Within info s' := by
  cases a with
  | create c date =>
      simp only [step, Option.ite_none_right_eq_some, Option.some.injEq] at hstep
      obtain ⟨⟨hnone, hparent, haccepted⟩, rfl⟩ := hstep
      refine h.revision hclean ?_ (prepaid_of_beforeCreate haccepted)
      rw [hparent, h.nothingPaid hnone]
      rfl
  | update c date =>
      simp only [step, Option.ite_none_right_eq_some, Option.some.injEq] at hstep
      obtain ⟨⟨hsome, hparent, -, haccepted⟩, rfl⟩ := hstep
      refine h.revision hclean ?_ (prepaid_of_beforeUpdate haccepted)
      cases hslot : s.slot with
      | none => simp [hparent, hslot] at hsome
      | some p =>
          rw [hparent, hslot]
          exact (h.prepaid p hslot).2
  | event e date =>
      cases e with
      | other =>
          obtain rfl := Option.some.inj hstep
          exact h
      | approved tc =>
          cases hslot : s.slot with
          | none => simp [step, hslot] at hstep
          | some c =>
              simp only [step, hslot, Option.ite_none_right_eq_some, Option.some.injEq] at hstep
              obtain ⟨-, rfl⟩ := hstep
              exact h.event hslot (hclean c hslot) tc

/-- CODE DEFECT (what a slot spent): the checks of a revision do not look at the data its spent amount is read
    from, and an event counts from the parent of the revision, so a first revision starts anew with each event. In
    every run in which no payment is negative, and in which at each recalculation the parent of the revision at hand
    accounts for what the chain has granted, no more is granted than paid, up to a second for each recalculation. -/
theorem not_exceeded_run {info : NodeInfo} {s : State} {actions : List Action}
    (hclean : Run.Meets (step info) (Clean info) start actions) (hrun : Run.run (step info) start actions = some s) :
    NotExceeded s :=
  (Run.invariant within_step (within_start info) hclean hrun).notExceeded

/-! ### A slot of one kilobyte -/

instance (s : State) : Decidable (NotExceeded s) := inferInstanceAs (Decidable (_ ≤ _))

instance (s : State) (c : SlotContract) (date : ℤ) : Decidable (Accounted s c date) :=
  inferInstanceAs (Decidable (_ ≤ _))

instance (info : NodeInfo) (s : State) (a : Action) : Decidable (Clean info s a) :=
  match a with
  | .create c date | .update c date => inferInstanceAs (Decidable (0 ≤ c.paidU * info.rate ∧ Accounted s c date))
  | .event (.approved _) date => inferInstanceAs (Decidable (∀ c ∈ s.slot, Accounted s c date))
  | .event .other _ => inferInstanceAs (Decidable True)

/-- The configuration of the network. -/
def network : NodeInfo := ⟨100, 4⟩

/-- A contract whose pack has one kilobyte. -/
def tracked (id : UInt8) : TrackingContract := ⟨⟨[id]⟩, ⟨[1]⟩, fun keys => "alice" ∈ keys, 1024⟩

/-- The date of a day. -/
def day (n : ℤ) : ℤ := n * 24 * 3600 * 1000

/-- A revision that is sealed on a day and pays a hundred U, so four hundred kilobyte-days. -/
def slotRevision (revision : ℕ) (parentContract : Option SlotData) (n : ℤ) : SlotContract :=
  SlotContract.sealed network
    { revision, extendedType := "SLOT1", effectiveKeys := ["alice"], keepRevisions := 1
      trackingContracts := [tracked 1], data := ⟨none, none, none, none, none, none⟩, parentContract
      paidU := 100, paidUWithTest := 100 } (day n)

/-- The theorem on a first revision and a second one a hundred days later. -/
theorem not_exceeded_two_revisions : ∃ s, Run.run (step network) start
    [.create (slotRevision 1 none 0) (day 0),
      .update (slotRevision 2 (some (slotRevision 1 none 0).data) 100) (day 100)] = some s ∧ NotExceeded s := by
  obtain ⟨s, hs⟩ : ∃ s, Run.run (step network) start
      [.create (slotRevision 1 none 0) (day 0),
        .update (slotRevision 2 (some (slotRevision 1 none 0).data) 100) (day 100)] = some s :=
    Option.isSome_iff_exists.mp (by decide +kernel)
  exact ⟨s, hs, not_exceeded_run (Run.meets_of_passes (fun _ _ => of_decide_eq_true) (by decide +kernel)) hs⟩

/-- A revision of the tracked contract on day 300 starts the first revision's four hundred days anew. -/
theorem granted_exceeds_paid : ∃ s, Run.run (step network) start
    [.create (slotRevision 1 none 0) (day 0), .event (.approved (tracked 2)) (day 300)] = some s ∧
      ¬NotExceeded s := by
  have hrun : (Run.run (step network) start [.create (slotRevision 1 none 0) (day 0),
      .event (.approved (tracked 2)) (day 300)]).map (fun s => decide (NotExceeded s)) = some false := by
    decide +kernel
  obtain ⟨s, hs, hnot⟩ := Option.map_eq_some_iff.mp hrun
  exact ⟨s, hs, of_decide_eq_false hnot⟩

end Universa.Services.Slot
