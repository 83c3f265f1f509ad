import Universa.Node.ItemProcessorSteps
import Universa.Node.ParcelProcessor

/-! What a step of two parcels with one payment keeps of the payment (`Turn`): who has made its processor,
    what each transaction has written, and which parcel may still pay a payload. Every step is a turn but
    those that ask for the processor of the payment and the one that approves its record. -/

namespace Universa.Node

/-! ### Stages -/

/-- Among the statements is one that saves the item APPROVED. -/
def Approves (writes : List Write) (item : Item) : Prop :=
  ∃ r, .update r ∈ writes ∧ r.id = item ∧ r.state = .APPROVED

theorem not_approves_nil (item : Item) : ¬ Approves [] item := by
  simp [Approves]

/-- The record of a processor can be approved. -/
def Approvable (state : ItemState) : Prop := state.isPending = true ∨ state = .LOCKED_FOR_CREATION

namespace Stage

/-- What the transaction has written. -/
def written : Stage → List Write
  | .block _ _ writes | .saving _ writes | .commit writes | .committed writes => writes
  | _ => []

/-- The parcel asks for the processor of its payment. -/
def asks : Stage → Prop
  | .reading .payment | .creating .payment => True
  | _ => False

/-- The payment was approved, and neither block has run. -/
def awaitsPayload : Stage → Prop
  | .payload _ | .transaction => True
  | _ => False

/-- Both blocks have run. -/
def ended : Stage → Prop
  | .commit _ | .committed _ => True
  | _ => False

/-- The parcel may still save its payload APPROVED; `stopped` says that its payload will not commit. -/
def mayPay (stopped : Prop) : Stage → Prop
  | .payload _ | .transaction => ¬ stopped
  | .block .payment b _ => b = .commit ∧ ¬ stopped
  | .saving .payment writes => Approves writes .payment ∧ ¬ stopped
  | .block .payload b _ => b = .commit
  | .saving .payload writes | .commit writes | .committed writes => ∃ k, Approves writes (.payload k)
  | .rollback _ | .broken _ | .rollingBack | .finished => False
  | _ => True

/-- The block and the statements of the payment go with those of the payload; `fired` is the block that the
    payment has fired. -/
def fits (i : Bool) (stopped : Prop) (fired : Option Block) : Stage → Prop
  | .payload _ | .transaction => stopped ∨ ∀ b, fired = some b → b = .commit
  | .broken _ => stopped
  | .block .payment b writes => writes = [] ∧ (b = .commit ∨ stopped)
  | .saving .payment writes => (∀ k, ¬ Approves writes (.payload k)) ∧ (Approves writes .payment ∨ stopped)
  | .block .payload b writes => (∀ k, ¬ Approves writes (.payload k)) ∧ (b = .commit → Approves writes .payment)
  | .saving .payload writes | .commit writes | .committed writes =>
      ∀ k, Approves writes (.payload k) → k = i ∧ Approves writes .payment
  | _ => True

/-- The parcel will not pay. -/
def halts : Stage → Prop
  | .rollback _ | .rollingBack | .finished => True
  | _ => False

/-- The parcel asks for its items, or is scheduled. -/
def calm : Stage → Prop
  | .lookup .payload | .reading _ | .creating _ | .scheduled => True
  | _ => False

variable {i : Bool} {stopped stopped' : Prop} {fired fired' : Option Block} {stage : Stage}

theorem calm.mayPay (h : stage.calm) : stage.mayPay stopped := by
  cases stage with
  | lookup part =>
      cases part with
      | payment => cases h
      | payload => trivial
  | reading | creating | scheduled => trivial
  | _ => cases h

theorem calm.fits (h : stage.calm) : stage.fits i stopped fired := by
  cases stage with
  | lookup | reading | creating | scheduled => trivial
  | _ => cases h

theorem calm.written (h : stage.calm) : stage.written = [] := by
  cases stage with
  | lookup | reading | creating | scheduled => rfl
  | _ => cases h

theorem calm.not_lookup (h : stage.calm) : stage ≠ .lookup .payment := by
  rintro rfl
  exact h

theorem calm.not_payment (h : stage.calm) {w : Awaiting Block} {again : Bool} : stage ≠ .payment w again := by
  rintro rfl
  exact h

theorem calm.not_ended (h : stage.calm) : ¬ stage.ended := by
  cases stage with
  | lookup | reading | creating | scheduled => exact id
  | _ => cases h

theorem mayPay_imp (h : stopped → stopped') (hpay : stage.mayPay stopped') : stage.mayPay stopped := by
  cases stage with
  | payload | transaction => exact fun hs => hpay (h hs)
  | block part =>
      cases part with
      | payment => exact ⟨hpay.1, fun hs => hpay.2 (h hs)⟩
      | payload => exact hpay
  | saving part =>
      cases part with
      | payment => exact ⟨hpay.1, fun hs => hpay.2 (h hs)⟩
      | payload => exact hpay
  | _ => exact hpay

theorem fits_imp (h : stopped → stopped')
    (hfired : stage.awaitsPayload → stopped' ∨ ∀ b, fired' = some b → fired = some b ∨ b = .commit)
    (hfits : stage.fits i stopped fired) : stage.fits i stopped' fired' := by
  cases stage with
  | payload | transaction =>
      rcases hfits with hs | hb
      · exact .inl (h hs)
      · rcases hfired trivial with hs | hb'
        · exact .inl hs
        · exact .inr fun b hbb => (hb' b hbb).elim (hb b) id
  | broken => exact h hfits
  | block part =>
      cases part with
      | payment => exact ⟨hfits.1, hfits.2.imp_right h⟩
      | payload => exact hfits
  | saving part =>
      cases part with
      | payment => exact ⟨hfits.1, hfits.2.imp_right h⟩
      | payload => exact hfits
  | _ => exact hfits

end Stage

namespace Parcels
variable {N : Type} {s s' s'' : Parcels N} {i k : Bool} {stage : Stage}

/-! ### Parcels -/

/-- The payload of a parcel will not commit. -/
def StoppedAt (s : Parcels N) (i : Bool) : Prop := ∀ p, s.processor (.payload i) = some p → p.Stopped

/-- The parcel may still save its payload APPROVED. -/
def MayPay (s : Parcels N) (i : Bool) : Prop := (s.parcel i).stage.mayPay (s.StoppedAt i)

/-- The parcel and the block of its payment fit together. -/
def Fits (s : Parcels N) (i : Bool) : Prop := (s.parcel i).stage.fits i (s.StoppedAt i) (s.blockOf i .payment)

/-- The transaction of the parcel has saved the payment APPROVED. -/
def Pays (s : Parcels N) (i : Bool) : Prop := Approves (s.parcel i).stage.written .payment

/-- The parcel has a payment processor of its own, or asks for one. -/
def Own (s : Parcels N) (i : Bool) : Prop :=
  (s.parcel i).paymentProcessor = some i ∨ (s.parcel i).stage.asks

/-- The parcel has made the payment processor, and the other parcel has not looked for it. -/
def Alone (s : Parcels N) (i : Bool) : Prop :=
  (s.parcel i).paymentProcessor = some i ∧ (s.parcel !i).stage = .lookup .payment

/-- No parcel has answered to the payment processor. -/
def Untold (s : Parcels N) (i : Bool) : Prop := s.Alone i ∧ s.MayPay i ∧ ¬ (s.parcel i).stage.ended

/-- The payment processor is there, and the parcel waits for its first event. -/
def Ready (s : Parcels N) (i : Bool) : Prop :=
  ∃ p, s.processor (.payment i) = some p ∧ p.Open ∧
    ∀ w again, (s.parcel i).stage = .payment w again → again = false ∧ w.event = none

/-- The parcel has saved the payment APPROVED before the other looked for it. -/
def Paid (s : Parcels N) (i : Bool) : Prop := s.Alone i ∧ s.MayPay i ∧ s.Pays i

/-- The cache has the record of the payment processor, APPROVED. -/
def Shown (s : Parcels N) (i : Bool) : Prop :=
  s.cached .payment = some (.object (.payment i)) ∧
    ∃ p, s.processor (.payment i) = some p ∧ p.record.state = .APPROVED

/-- Every record is that of its item, and the objects of the cache are. -/
structure Named (s : Parcels N) : Prop where
  ids : ∀ q p, s.processor q = some p → p.record.id = q.item
  objects : ∀ item q, s.cached item = some (.object q) → q.item = item

/-- What a step keeps of the payment. -/
structure Turn (s s' : Parcels N) : Prop where
  named : s.Named → s'.Named
  link : ∀ i, (s'.parcel i).paymentProcessor = (s.parcel i).paymentProcessor
  made : ∀ k, (s'.processor (.payment k)).isSome = (s.processor (.payment k)).isSome
  approvable : ∀ k p', s'.processor (.payment k) = some p' → Approvable p'.record.state →
    ∃ p, s.processor (.payment k) = some p ∧ Approvable p.record.state
  lookup : ∀ i, (s'.parcel i).stage = .lookup .payment → (s.parcel i).stage = .lookup .payment
  asks : ∀ i, (s'.parcel i).stage.asks → (s.parcel i).stage.asks
  ended : ∀ i, s'.MayPay i → (s.parcel i).stage.ended → (s'.parcel i).stage.ended
  fits : ∀ i, s.Fits i → s'.Fits i
  mayPay : ∀ i, s'.MayPay i → s.MayPay i
  pays : ∀ i, s'.Pays i → s.Pays i
  ready : ∀ k, s'.Untold k → s.Ready k → s'.Ready k
  shown : ∀ k, s'.Paid k → s.Shown k → s'.Shown k

namespace Turn

theorem alone (h : Turn s s') {k : Bool} (hk : s'.Alone k) : s.Alone k :=
  ⟨(h.link k).symm.trans hk.1, h.lookup _ hk.2⟩

theorem untold (h : Turn s s') {k : Bool} (hk : s'.Untold k) : s.Untold k :=
  ⟨h.alone hk.1, h.mayPay k hk.2.1, fun he => hk.2.2 (h.ended k hk.2.1 he)⟩

theorem paid (h : Turn s s') {k : Bool} (hk : s'.Paid k) : s.Paid k :=
  ⟨h.alone hk.1, h.mayPay k hk.2.1, h.pays k hk.2.2⟩

theorem refl (s : Parcels N) : Turn s s where
  named h := h
  link _ := rfl
  made _ := rfl
  approvable _ p' hp ha := ⟨p', hp, ha⟩
  lookup _ h := h
  asks _ h := h
  ended _ _ h := h
  fits _ h := h
  mayPay _ h := h
  pays _ h := h
  ready _ _ h := h
  shown _ _ h := h

theorem trans (h : Turn s s') (h' : Turn s' s'') : Turn s s'' where
  named hn := h'.named (h.named hn)
  link i := (h'.link i).trans (h.link i)
  made k := (h'.made k).trans (h.made k)
  approvable k p'' hp ha := by
    obtain ⟨p', hp', ha'⟩ := h'.approvable k p'' hp ha
    exact h.approvable k p' hp' ha'
  lookup i hi := h.lookup i (h'.lookup i hi)
  asks i hi := h.asks i (h'.asks i hi)
  ended i hpay he := h'.ended i hpay (h.ended i (h'.mayPay i hpay) he)
  fits i hf := h'.fits i (h.fits i hf)
  mayPay i hpay := h.mayPay i (h'.mayPay i hpay)
  pays i hp := h.pays i (h'.pays i hp)
  ready k hk hr := h'.ready k hk (h.ready k (h'.untold hk) hr)
  shown k hk hs := h'.shown k hk (h.shown k (h'.paid hk) hs)

end Turn

/-! ### Turns of a parcel -/

@[simp] theorem goTo_processor : (s.goTo i stage).processor = s.processor := rfl

@[simp] theorem goTo_cached : (s.goTo i stage).cached = s.cached := rfl

@[simp] theorem goTo_stage : ((s.goTo i stage).parcel i).stage = stage := by simp [goTo, withParcel]

theorem withParcel_parcel_ne {f : ParcelProcessor N → ParcelProcessor N} {j : Bool} (h : j ≠ i) :
    (s.withParcel i f).parcel j = s.parcel j :=
  Function.update_of_ne h _ _

@[simp] theorem withProcessor_parcel {q : Processor} {f : ItemProcessor N Item → ItemProcessor N Item} :
    (s.withProcessor q f).parcel = s.parcel := rfl

@[simp] theorem withProcessor_cached {q : Processor} {f : ItemProcessor N Item → ItemProcessor N Item} :
    (s.withProcessor q f).cached = s.cached := rfl

theorem withProcessor_self {q : Processor} {f : ItemProcessor N Item → ItemProcessor N Item} :
    (s.withProcessor q f).processor q = (s.processor q).map f :=
  Function.update_self ..

theorem withProcessor_ne {q q' : Processor} {f : ItemProcessor N Item → ItemProcessor N Item} (h : q' ≠ q) :
    (s.withProcessor q f).processor q' = s.processor q' :=
  Function.update_of_ne h _ _

theorem withProcessor_id (s : Parcels N) (q : Processor) : s.withProcessor q (fun p => p) = s := by
  simp [withProcessor]

theorem withParcel_link {f : ParcelProcessor N → ParcelProcessor N}
    (hlink : (f (s.parcel i)).paymentProcessor = (s.parcel i).paymentProcessor) (j : Bool) :
    ((s.withParcel i f).parcel j).paymentProcessor = (s.parcel j).paymentProcessor := by
  by_cases hj : j = i
  · simp [hj, withParcel, hlink]
  · rw [withParcel_parcel_ne hj]

theorem blockOf_withParcel {f : ParcelProcessor N → ParcelProcessor N}
    (hlink : (f (s.parcel i)).paymentProcessor = (s.parcel i).paymentProcessor) (j : Bool) :
    (s.withParcel i f).blockOf j .payment = s.blockOf j .payment := by
  simp only [blockOf, processorOf, withParcel_link hlink]
  rfl

theorem blockOf_payload {f : ItemProcessor N Item → ItemProcessor N Item} (j : Bool) :
    (s.withProcessor (.payload i) f).blockOf j .payment = s.blockOf j .payment := by
  cases hk : (s.parcel j).paymentProcessor with
  | none => simp [blockOf, processorOf, hk]
  | some k => simp [blockOf, processorOf, hk, withProcessor_ne (show Processor.payment k ≠ .payload i from nofun)]

/-- What a stage needs for a parcel to go on to it. -/
structure Leads (s : Parcels N) (i : Bool) (stage : Stage) : Prop where
  lookup : stage = .lookup .payment → (s.parcel i).stage = .lookup .payment
  asks : stage.asks → (s.parcel i).stage.asks
  ended : stage.mayPay (s.StoppedAt i) → (s.parcel i).stage.ended → stage.ended
  fits : s.Fits i → stage.fits i (s.StoppedAt i) (s.blockOf i .payment)
  mayPay : stage.mayPay (s.StoppedAt i) → s.MayPay i
  pays : Approves stage.written .payment → s.Pays i
  ready : s.Untold i → s.Ready i → ∀ w again, stage = .payment w again → again = false ∧ w.event = none

/-- A parcel goes on to a stage, and its delayed votes may change. -/
theorem turn_withParcel {f : ParcelProcessor N → ParcelProcessor N}
    (hlink : (f (s.parcel i)).paymentProcessor = (s.parcel i).paymentProcessor)
    (h : s.Leads i (f (s.parcel i)).stage) : Turn s (s.withParcel i f) := by
  have hself : (s.withParcel i f).parcel i = f (s.parcel i) := Function.update_self ..
  have hother : ∀ {j}, j ≠ i → (s.withParcel i f).parcel j = s.parcel j := withParcel_parcel_ne
  have hl := withParcel_link (s := s) hlink
  have hblock := blockOf_withParcel (s := s) hlink
  -- A fact of every parcel is one of the parcel that goes on: the other is as it was.
  have hcases : ∀ {P : Bool → Prop}, P i → (∀ j, j ≠ i → P j) → ∀ j, P j := fun hi hne j =>
    if hj : j = i then hj ▸ hi else hne j hj
  have hlookup : ∀ j, ((s.withParcel i f).parcel j).stage = .lookup .payment →
      (s.parcel j).stage = .lookup .payment :=
    hcases (by rw [hself]; exact h.lookup) fun j hj => by rw [hother hj]; exact id
  have hpay : ∀ j, (s.withParcel i f).MayPay j → s.MayPay j :=
    hcases (by rw [MayPay, hself]; exact h.mayPay) fun j hj => by rw [MayPay, hother hj]; exact id
  have hended : ∀ j, (s.withParcel i f).MayPay j → (s.parcel j).stage.ended →
      ((s.withParcel i f).parcel j).stage.ended :=
    hcases (by rw [MayPay, hself]; exact h.ended) fun j hj _ => by rw [hother hj]; exact id
  refine {
    named := fun hn => ⟨hn.ids, hn.objects⟩
    link := hl
    made := fun _ => rfl
    approvable := fun k p hp ha => ⟨p, hp, ha⟩
    lookup := hlookup
    asks := hcases (by rw [hself]; exact h.asks) fun j hj => by rw [hother hj]; exact id
    ended := hended
    fits := hcases ?_ fun j hj => ?_
    mayPay := hpay
    pays := hcases (by rw [Pays, hself]; exact h.pays) fun j hj => by rw [Pays, hother hj]; exact id
    ready := fun k hk hr => ?_
    shown := fun _ _ hs => hs }
  · intro hfits
    rw [Fits, hself, hblock]
    exact h.fits hfits
  · rw [Fits, Fits, hother hj, hblock]
    exact id
  · have hu : s.Untold k :=
      ⟨⟨(hl k).symm.trans hk.1.1, hlookup _ hk.1.2⟩, hpay k hk.2.1, fun he => hk.2.2 (hended k hk.2.1 he)⟩
    obtain ⟨p, hp, hopen, hfirst⟩ := hr
    refine ⟨p, hp, hopen, fun w again hw => ?_⟩
    by_cases hki : k = i
    · rw [hki, hself] at hw
      exact h.ready (hki ▸ hu) (hki ▸ ⟨p, hp, hopen, hfirst⟩) w again hw
    · rw [hother hki] at hw
      exact hfirst w again hw

theorem turn_goTo (h : s.Leads i stage) : Turn s (s.goTo i stage) := turn_withParcel rfl h


/-- A parcel goes on as it asks for its items. -/
theorem turn_calm (hfrom : (s.parcel i).stage.calm) (hto : stage.calm)
    (hasks : stage.asks → (s.parcel i).stage.asks) : Turn s (s.goTo i stage) := by
  refine turn_goTo ⟨fun h => absurd h hto.not_lookup, hasks, fun _ he => absurd he hfrom.not_ended, fun _ => hto.fits,
    fun _ => hfrom.mayPay, fun h => ?_, fun _ _ w again h => absurd h hto.not_payment⟩
  rw [hto.written] at h
  exact absurd h (not_approves_nil _)

/-- A parcel that will not pay goes on to anything. -/
theorem turn_halts (h : stage.halts) : Turn s (s.goTo i stage) := by
  have hfacts : stage ≠ .lookup .payment ∧ ¬ stage.asks ∧ ¬ stage.mayPay (s.StoppedAt i) ∧ stage.written = [] ∧
      stage.fits i (s.StoppedAt i) (s.blockOf i .payment) ∧ ∀ w again, stage ≠ .payment w again := by
    cases stage with
    | rollback | rollingBack | finished => exact ⟨nofun, nofun, nofun, rfl, trivial, nofun⟩
    | _ => cases h
  obtain ⟨hlookup, hasks, hpay, hwritten, hfits, hpayment⟩ := hfacts
  refine turn_goTo ⟨fun h => absurd h hlookup, fun h => absurd h hasks, fun h => absurd h hpay, fun _ => hfits,
    fun h => absurd h hpay, fun h => ?_, fun _ _ w again h => absurd h (hpayment w again)⟩
  rw [hwritten] at h
  exact absurd h (not_approves_nil _)

/-! ### Turns of a processor -/

/-- A payload processor is made, or changes and stays stopped. -/
theorem turn_update {c : Option (ItemProcessor N Item)}
    (hid : s.Named → ∀ p, c = some p → p.record.id = .payload i)
    (hstopped : (s.parcel i).stage.calm ∨ (s.StoppedAt i → ∀ p, c = some p → p.Stopped)) :
    Turn s { s with processor := Function.update s.processor (.payload i) c } := by
  obtain ⟨s', hs'⟩ : ∃ s', s' = { s with processor := Function.update s.processor (.payload i) c } := ⟨_, rfl⟩
  have hprocessor : s'.processor = Function.update s.processor (.payload i) c := by rw [hs']
  have hpayment : ∀ k, s'.processor (.payment k) = s.processor (.payment k) := fun k => by
    rw [hprocessor, Function.update_of_ne (show Processor.payment k ≠ .payload i from nofun)]
  have hparcel : s'.parcel = s.parcel := by rw [hs']
  have hcached : s'.cached = s.cached := by rw [hs']
  have hblock : ∀ j, s'.blockOf j .payment = s.blockOf j .payment := fun j => by
    cases hk : (s.parcel j).paymentProcessor with
    | none => simp [blockOf, processorOf, hk, hparcel]
    | some k => simp [blockOf, processorOf, hk, hparcel, hpayment]
  have hcases : ∀ q p, s'.processor q = some p → (q = .payload i ∧ c = some p) ∨ s.processor q = some p := by
    intro q p hp
    rw [hprocessor] at hp
    by_cases hq : q = .payload i
    · subst hq
      rw [Function.update_self] at hp
      exact .inl ⟨rfl, hp⟩
    · rw [Function.update_of_ne hq] at hp
      exact .inr hp
  have hat : ∀ j, (s.parcel j).stage.calm ∨ (s.StoppedAt j → s'.StoppedAt j) := by
    intro j
    by_cases hj : j = i
    · subst hj
      refine hstopped.imp_right fun h hs p hp => ?_
      rcases hcases _ p hp with ⟨-, hc⟩ | hp
      · exact h hs p hc
      · exact hs p hp
    · refine .inr fun hs p hp => ?_
      rcases hcases _ p hp with ⟨hq, -⟩ | hp
      · exact absurd (Processor.payload.inj hq) hj
      · exact hs p hp
  rw [← hs']
  refine {
    named := fun hn => ⟨fun q p hp => ?_, hcached ▸ hn.objects⟩
    link := fun _ => by rw [hparcel]
    made := fun k => by rw [hpayment]
    approvable := fun k p hp ha => ⟨p, hpayment k ▸ hp, ha⟩
    lookup := fun _ => by rw [hparcel]; exact id
    asks := fun _ => by rw [hparcel]; exact id
    ended := fun _ _ => by rw [hparcel]; exact id
    fits := fun j hf => ?_
    mayPay := fun j hpay => ?_
    pays := fun _ => by rw [Pays, Pays, hparcel]; exact id
    ready := fun k _ => by
      simp only [Ready, hpayment, hparcel]
      exact id
    shown := fun k _ => by
      simp only [Shown, hpayment, hcached]
      exact id }
  · rcases hcases q p hp with ⟨rfl, hc⟩ | hp
    · exact hid hn p hc
    · exact hn.ids q p hp
  · rw [Fits, hparcel]
    rcases hat j with hcalm | hs
    · exact hcalm.fits
    · exact Stage.fits_imp hs (fun _ => .inr fun b hb => .inl (hblock j ▸ hb)) hf
  · rw [MayPay, hparcel] at hpay
    rcases hat j with hcalm | hs
    · exact hcalm.mayPay
    · exact Stage.mayPay_imp hs hpay

/-- A change of a payload processor that leaves it stopped. -/
theorem turn_payload {f : ItemProcessor N Item → ItemProcessor N Item}
    (hid : ∀ p, s.processor (.payload i) = some p → (f p).record.id = p.record.id)
    (hstopped : ∀ p, s.processor (.payload i) = some p → p.Stopped → (f p).Stopped) :
    Turn s (s.withProcessor (.payload i) f) := by
  refine turn_update (fun hn p' hp' => ?_) (.inr fun hs p' hp' => ?_)
  · obtain ⟨p, hp, rfl⟩ := Option.map_eq_some_iff.mp hp'
    exact (hid p hp).trans (hn.ids _ p hp)
  · obtain ⟨p, hp, rfl⟩ := Option.map_eq_some_iff.mp hp'
    exact hstopped p hp (hs p hp)

/-- A change of a payment processor that makes its record no more approvable. -/
theorem turn_payment {f : ItemProcessor N Item → ItemProcessor N Item}
    (hid : ∀ p, s.processor (.payment k) = some p → (f p).record.id = p.record.id)
    (happrovable : ∀ p, s.processor (.payment k) = some p → Approvable (f p).record.state →
      Approvable p.record.state)
    (hshown : s.Paid k → ∀ p, s.processor (.payment k) = some p → p.record.state = .APPROVED →
      (f p).record.state = .APPROVED)
    (hfired : ∀ p, s.processor (.payment k) = some p → ∀ i, (s.parcel i).paymentProcessor = some k →
      (s.parcel i).stage.awaitsPayload → s.StoppedAt i ∨
        ∀ b, (f p).itemCommitEvent.result = some b → p.itemCommitEvent.result = some b ∨ b = .commit)
    (hopen : s.Untold k → ∀ p, s.processor (.payment k) = some p → p.Open → (f p).Open) :
    Turn s (s.withProcessor (.payment k) f) := by
  have hat : ∀ j, (s.withProcessor (.payment k) f).StoppedAt j ↔ s.StoppedAt j := fun j => by
    simp only [StoppedAt, withProcessor_ne (show Processor.payload j ≠ .payment k from nofun)]
  have hpay : ∀ j, (s.withProcessor (.payment k) f).MayPay j → s.MayPay j := fun j =>
    Stage.mayPay_imp (hat j).mpr
  have hblock : ∀ j, (s.parcel j).stage.awaitsPayload → (s.withProcessor (.payment k) f).StoppedAt j ∨
      ∀ b, (s.withProcessor (.payment k) f).blockOf j .payment = some b →
        s.blockOf j .payment = some b ∨ b = .commit := by
    intro j hj
    cases hk : (s.parcel j).paymentProcessor with
    | none => exact .inr fun b hb => by simp [blockOf, processorOf, hk] at hb
    | some k' =>
        by_cases hkk : k' = k
        · subst hkk
          cases hp : s.processor (.payment k') with
          | none => exact .inr fun b hb => by simp [blockOf, processorOf, hk, withProcessor_self, hp] at hb
          | some p =>
              refine (hfired p hp j hk hj).imp (hat j).mpr fun hb b hbb => ?_
              simp only [blockOf, processorOf, hk, withProcessor_self, withProcessor_parcel, hp, Option.map_some,
                Option.bind_some] at hbb ⊢
              exact hb b hbb
        · refine .inr fun b hb => .inl ?_
          simp only [blockOf, processorOf, hk, withProcessor_parcel, Option.map_some, Option.bind_some,
            withProcessor_ne (show Processor.payment k' ≠ .payment k by simpa using hkk)] at hb ⊢
          exact hb
  -- Every processor of a payment is this one with its change, or is as it was.
  have hcases : ∀ q p', (s.withProcessor (.payment k) f).processor q = some p' →
      (q = .payment k ∧ ∃ p, s.processor (.payment k) = some p ∧ p' = f p) ∨ s.processor q = some p' := by
    intro q p' hp'
    by_cases hq : q = .payment k
    · subst hq
      rw [withProcessor_self, Option.map_eq_some_iff] at hp'
      obtain ⟨p, hp, rfl⟩ := hp'
      exact .inl ⟨rfl, p, hp, rfl⟩
    · rw [withProcessor_ne hq] at hp'
      exact .inr hp'
  refine {
    named := fun hn => ⟨fun q p' hp' => ?_, hn.objects⟩
    link := fun _ => rfl
    made := fun k' => ?_
    approvable := fun k' p' hp' ha => ?_
    lookup := fun _ => id
    asks := fun _ => id
    ended := fun _ _ => id
    fits := fun j => Stage.fits_imp (hat j).mpr (hblock j)
    mayPay := hpay
    pays := fun _ => id
    ready := fun k' hk' hr => ?_
    shown := fun k' hk' hs => ?_ }
  · rcases hcases q p' hp' with ⟨rfl, p, hp, rfl⟩ | hp
    · exact (hid p hp).trans (hn.ids _ p hp)
    · exact hn.ids q p' hp
  · by_cases hkk : k' = k
    · subst hkk
      rw [withProcessor_self, Option.isSome_map]
    · rw [withProcessor_ne (by simpa using hkk)]
  · rcases hcases _ p' hp' with ⟨hk', p, hp, rfl⟩ | hp
    · obtain rfl := Processor.payment.inj hk'
      exact ⟨p, hp, happrovable p hp ha⟩
    · exact ⟨p', hp, ha⟩
  · obtain ⟨p, hp, ho, hfirst⟩ := hr
    by_cases hkk : k' = k
    · subst hkk
      exact ⟨f p, by rw [withProcessor_self, hp]; rfl, hopen ⟨hk'.1, hpay _ hk'.2.1, hk'.2.2⟩ p hp ho, hfirst⟩
    · exact ⟨p, by rw [withProcessor_ne (by simpa using hkk), hp], ho, hfirst⟩
  · obtain ⟨hcached, p, hp, happroved⟩ := hs
    refine ⟨hcached, ?_⟩
    by_cases hkk : k' = k
    · subst hkk
      exact ⟨f p, by rw [withProcessor_self, hp]; rfl, hshown ⟨hk'.1, hpay _ hk'.2.1, hk'.2.2⟩ p hp happroved⟩
    · exact ⟨p, by rw [withProcessor_ne (by simpa using hkk), hp], happroved⟩


/-- A change of a payment processor that fires nothing and approves nothing. -/
structure Leaves (p p' : ItemProcessor N Item) : Prop where
  id : p'.record.id = p.record.id
  record : p'.record.state = p.record.state ∨ p.record.state = .PENDING ∧ p'.record.state.isPending = true
  result : ∀ b, p'.itemCommitEvent.result = some b → p.itemCommitEvent.result = some b

theorem leaves_of_quiet {p p' : ItemProcessor N Item} (h : p.Quiet p') : Leaves p p' :=
  ⟨h.id, h.record, fun _ hb => h.itemCommitEvent ▸ hb⟩

theorem turn_leaves {f : ItemProcessor N Item → ItemProcessor N Item}
    (hf : ∀ p, s.processor (.payment k) = some p → Leaves p (f p))
    (hopen : s.Untold k → ∀ p, s.processor (.payment k) = some p → p.Open → (f p).Open) :
    Turn s (s.withProcessor (.payment k) f) := by
  refine turn_payment (fun p hp => (hf p hp).id) (fun p hp ha => ?_) (fun _ p hp happroved => ?_)
    (fun p hp i _ _ => .inr fun b hb => .inl ((hf p hp).result b hb)) hopen
  · rcases (hf p hp).record with hr | ⟨hpending, -⟩
    · exact hr ▸ ha
    · exact .inl (by rw [hpending]; rfl)
  · rcases (hf p hp).record with hr | ⟨hpending, -⟩
    · exact hr.trans happroved
    · rw [hpending] at happroved
      cases happroved

/-- A quiet change of a processor. -/
theorem turn_quiet {q : Processor} {f : ItemProcessor N Item → ItemProcessor N Item}
    (hf : ∀ p, s.processor q = some p → p.Quiet (f p))
    (hopen : ∀ p, s.processor q = some p → p.Open → (f p).Open) : Turn s (s.withProcessor q f) := by
  cases q with
  | payment k => exact turn_leaves (fun p hp => leaves_of_quiet (hf p hp)) fun _ => hopen
  | payload i => exact turn_payload (fun p hp => (hf p hp).id) fun p hp => (hf p hp).stopped

/-- A parcel that does not pay, or has ended its transaction, may answer to its payment processor. -/
theorem not_untold (hk : (s.parcel i).paymentProcessor = some k)
    (hlookup : (s.parcel i).stage ≠ .lookup .payment)
    (hpay : s.MayPay i → (s.parcel i).stage.ended) : ¬ s.Untold k := by
  rintro ⟨⟨hown, hother⟩, hmay, hended⟩
  by_cases hki : k = i
  · subst hki
    exact hended (hpay hmay)
  · obtain rfl : i = !k := by cases i <;> cases k <;> simp_all
    exact hlookup hother

/-- `parcelCommitEvent.fire` for a parcel. -/
theorem turn_fireParcelCommit {part : Part} {success : Bool}
    (h : ∀ k, part = .payment → (s.parcel i).paymentProcessor = some k → ¬ s.Untold k) :
    Turn s (s.fireParcelCommit i part success) := by
  have hquiet : ∀ p : ItemProcessor N Item,
      p.Quiet { p with parcelCommitEvent := p.parcelCommitEvent.fire success } := fun p =>
    ⟨rfl, .inl rfl, rfl, fun hs => ⟨hs.processed, hs.approving⟩⟩
  cases part with
  | payment =>
      cases hk : (s.parcel i).paymentProcessor with
      | none =>
          simp only [fireParcelCommit, processorOf, hk]
          exact .refl s
      | some k =>
          simp only [fireParcelCommit, processorOf, hk]
          exact turn_leaves (fun p _ => leaves_of_quiet (hquiet p)) fun hu => absurd hu (h k rfl hk)
  | payload =>
      by_cases hi : (s.parcel i).payloadProcessor = true
      · simp only [fireParcelCommit, processorOf, hi, if_true]
        exact turn_payload (fun _ _ => rfl) fun p _ => (hquiet p).stopped
      · simp only [fireParcelCommit, processorOf, hi]
        exact .refl s

theorem processorOf_goTo (part : Part) : (s.goTo i stage).processorOf i part = s.processorOf i part := by
  cases part <;> simp [processorOf, goTo, withParcel]

theorem fireParcelCommit_goTo (part : Part) (success : Bool) :
    (s.goTo i stage).fireParcelCommit i part success = (s.fireParcelCommit i part success).goTo i stage := by
  unfold fireParcelCommit
  rw [processorOf_goTo]
  cases s.processorOf i part <;> rfl

theorem fireParcelCommit_parcel (part : Part) (success : Bool) :
    (s.fireParcelCommit i part success).parcel = s.parcel := by
  unfold fireParcelCommit
  cases s.processorOf i part <;> rfl

/-- A parcel answers to both processors as it goes on. -/
theorem turn_fireBoth {success : Bool} (h : Turn s (s.goTo i stage)) (hlookup : stage ≠ .lookup .payment)
    (hpay : (s.goTo i stage).MayPay i → stage.ended) : Turn s ((s.fireBoth i success).goTo i stage) := by
  have hequal : (s.fireBoth i success).goTo i stage = (s.goTo i stage).fireBoth i success := by
    simp only [fireBoth, fireParcelCommit_goTo]
  rw [hequal]
  refine (h.trans (turn_fireParcelCommit fun k _ hk => ?_)).trans (turn_fireParcelCommit fun _ h => nomatch h)
  exact not_untold hk (by simpa using hlookup) (by simpa using hpay)


/-! ### Turns of `process` -/

theorem leads_self (s : Parcels N) (i : Bool) : s.Leads i (s.parcel i).stage where
  lookup := id
  asks := id
  ended _ := id
  fits := id
  mayPay := id
  pays := id
  ready := fun _ ⟨_, _, _, hfirst⟩ => hfirst

/-- The emergency break of a payload that was not committing. -/
theorem turn_broken {w : Awaiting Block} (h : s.StoppedAt i) : Turn s (s.goTo i (.broken w)) :=
  turn_goTo ⟨(fun h => by cases h), (fun h => by cases h), (fun h => by cases h), fun _ => h, (fun h => by cases h), (fun hw => absurd hw (not_approves_nil _)), (by simp)⟩

theorem turn_awaitBroken (h : s.StoppedAt i) : Turn s (s.awaitBroken i) := by
  unfold awaitBroken
  split
  next => exact turn_halts trivial
  next => exact turn_halts trivial
  next => exact turn_broken h

theorem turn_emergencyBreak (config : ItemConfig N)
    (h : ∀ p, s.processor (.payload i) = some p → ¬ p.Approving) :
    Turn s (s.withProcessor (.payload i) (·.emergencyBreak config)) ∧
      (s.withProcessor (.payload i) (·.emergencyBreak config)).StoppedAt i := by
  have hquiet : ∀ p : ItemProcessor N Item, p.Quiet (p.emergencyBreak config) := fun p => by
    obtain ⟨_, hmoves, -⟩ := ItemProcessor.emergencyBreak_moves config p
    exact hmoves.quiet
  refine ⟨turn_payload (fun p _ => (hquiet p).id) fun p _ => (hquiet p).stopped, fun p' hp' => ?_⟩
  rw [withProcessor_self, Option.map_eq_some_iff] at hp'
  obtain ⟨p, hp, rfl⟩ := hp'
  exact ItemProcessor.emergencyBreak_stopped config (h p hp)

theorem turn_breakPayload (config : ItemConfig N)
    (h : ∀ p, s.processor (.payload i) = some p → ¬ p.Approving) : Turn s (s.breakPayload config i) := by
  obtain ⟨hbreak, hstopped⟩ := turn_emergencyBreak config h
  exact hbreak.trans (turn_awaitBroken hstopped)

/-- The parcel gives the payment up as its payload has expired. -/
theorem turn_payloadExpired (hk : (s.parcel i).paymentProcessor = some k) : Turn s (s.payloadExpired i k) := by
  obtain ⟨f, hf⟩ : ∃ f : ItemProcessor N Item → ItemProcessor N Item, f = fun p =>
    { p with
      itemCommitEvent := p.itemCommitEvent.renew i
      parcelCommitEvent := p.parcelCommitEvent.renew i
      itemErrors := true }.rollback true := ⟨_, rfl⟩
  obtain ⟨g, hg⟩ : ∃ g : ItemProcessor N Item → ItemProcessor N Item, g = fun p =>
    { p with itemCommitEvent := p.itemCommitEvent.renew i } := ⟨_, rfl⟩
  have hrenew : ∀ e : EventField Block, (e.renew i).result = none := fun e => by
    simp [EventField.result, EventField.renew, AsyncEvent.new]
  have hlast : ∃ stage : Stage, stage.halts ∧ s.payloadExpired i k =
      (((s.fireParcelCommit i .payment false).withProcessor (.payment k) f).withProcessor (.payload i) g).goTo i
        stage := by
    unfold payloadExpired
    rw [← hf, ← hg]
    dsimp only
    split
    · exact ⟨.finished, trivial, rfl⟩
    · exact ⟨.finished, trivial, rfl⟩
    · exact ⟨.rollback _, trivial, rfl⟩
  obtain ⟨stage, hhalts, hlast⟩ := hlast
  -- The parcel gives up before it tells the payment.
  have hfirst : s.payloadExpired i k =
      (((s.goTo i stage).fireParcelCommit i .payment false).withProcessor (.payment k) f).withProcessor
        (.payload i) g := by
    rw [hlast, fireParcelCommit_goTo]
    rfl
  have hgone : stage ≠ .lookup .payment ∧ ∀ stopped, ¬ stage.mayPay stopped := by
    cases stage with
    | rollback | rollingBack | finished => exact ⟨(fun h => by cases h), fun _ => id⟩
    | _ => cases hhalts
  have hparcel : ((s.goTo i stage).parcel i).paymentProcessor = some k := by
    simp [goTo, withParcel, hk]
  have huntold : ∀ {s' : Parcels N}, s'.parcel = (s.goTo i stage).parcel → ¬ s'.Untold k := fun {s'} hs' =>
    not_untold (by rw [hs', hparcel]) (by rw [hs', goTo_stage]; exact hgone.1) fun hpay => by
      rw [MayPay, hs', goTo_stage] at hpay
      exact absurd hpay (hgone.2 _)
  rw [hfirst]
  refine (((turn_halts hhalts).trans (turn_fireParcelCommit fun k' _ hk' => ?_)).trans
    (turn_leaves (fun p _ => ?_) fun hu => ?_)).trans (turn_payload (fun p _ => ?_) fun p _ hs => ?_)
  · obtain rfl : k' = k := Option.some.inj (hk'.symm.trans hparcel)
    exact huntold rfl
  · rw [hf]
    exact ⟨rfl, .inl rfl, fun b hb => by simp [ItemProcessor.rollback, ItemProcessor.schedule, hrenew] at hb⟩
  · exact absurd hu (huntold (fireParcelCommit_parcel ..))
  · rw [hg]
  · rw [hg]
    refine ⟨hs.processed, fun ha => hs.approving (ha.imp_right fun hb => ?_)⟩
    simp [hrenew] at hb

/-- The parcel waits for its payload, which commits with the payment only. -/
theorem turn_awaitPayload (hk : (s.parcel i).paymentProcessor = some k)
    (hstage : ∃ w again, (s.parcel i).stage = .payment w again)
    (hfits : s.StoppedAt i ∨ ∀ b, s.blockOf i .payment = some b → b = .commit) : Turn s (s.awaitPayload i k) := by
  obtain ⟨_, _, hstage⟩ := hstage
  unfold awaitPayload
  split
  next => exact turn_halts trivial
  next => exact turn_payloadExpired hk
  next =>
    refine turn_goTo ⟨(fun h => by cases h), (fun h => by cases h), ?_, fun _ => hfits, fun _ => ?_, (fun hw => absurd hw (not_approves_nil _)), (by simp)⟩
    · rw [hstage]
      exact fun _ => id
    · rw [MayPay, hstage]
      trivial

theorem awaitBlock_payment {p : ItemProcessor N Item} (hk : (s.parcel i).paymentProcessor = some k)
    (hp : s.processor (.payment k) = some p) : s.awaitBlock i .payment =
      some (p.itemCommitEvent.await, p.itemCommitEvent.outcome p.itemCommitEvent.await) := by
  simp [awaitBlock, processorOf, hk, hp]

/-- A parcel that ends tells its payment processor what it likes. -/
theorem turn_finished {f : ItemProcessor N Item → ItemProcessor N Item}
    (hk : (s.parcel i).paymentProcessor = some k) (hf : ∀ p, Leaves p (f p)) :
    Turn s ((s.withProcessor (.payment k) f).goTo i .finished) := by
  have hhalts : Turn s (s.goTo i .finished) := turn_halts trivial
  refine hhalts.trans (turn_leaves (fun p _ => hf p) fun hu => absurd hu ?_)
  refine not_untold (i := i) (by simpa [goTo, withParcel] using hk) (by simp) fun hpay => ?_
  rw [MayPay, goTo_stage] at hpay
  exact absurd hpay id

/-- A parcel whose payment is rejected breaks it off; where no parcel has answered, that rejects the second
    wait at once. -/
theorem turn_breakPayment {f : ItemProcessor N Item → ItemProcessor N Item} (config : ItemConfig N)
    (hk : (s.parcel i).paymentProcessor = some k)
    (hstage : (s.parcel i).stage = .scheduled ∨ ∃ w, (s.parcel i).stage = .payment w false)
    (hready : s.Untold i → s.Ready i) (hf : ∀ p, Leaves p (f p))
    (hrejected : s.Untold i → ∀ p, s.processor (.payment k) = some p → p.Open →
      (f p).itemCommitEvent.outcome (f p).itemCommitEvent.await = some none) :
    Turn s ((s.withProcessor (.payment k) f).breakPayment config i k) := by
  have hbreak : ∀ p : ItemProcessor N Item, p.Quiet (p.emergencyBreak config) := fun p => by
    obtain ⟨_, hmoves, -⟩ := ItemProcessor.emergencyBreak_moves config p
    exact hmoves.quiet
  have hboth : (s.withProcessor (.payment k) f).withProcessor (.payment k) (·.emergencyBreak config) =
      s.withProcessor (.payment k) fun p => (f p).emergencyBreak config := by
    simp only [withProcessor, Function.update_self, Function.update_idem, Option.map_map]
    rfl
  have hleaves : ∀ p, Leaves p ((f p).emergencyBreak config) := fun p => by
    refine ⟨(hbreak _).id.trans (hf p).id, ?_, fun b hb => (hf p).result b ((hbreak (f p)).itemCommitEvent ▸ hb)⟩
    obtain ⟨_, hmoves, -⟩ := ItemProcessor.emergencyBreak_moves config (f p)
    rw [hmoves.record]
    exact (hf p).record
  unfold breakPayment
  dsimp only
  rw [hboth]
  by_cases hu : s.Untold i
  · obtain rfl : k = i := Option.some.inj (hk.symm.trans hu.1.1)
    obtain ⟨p, hp, hopen, -⟩ := hready hu
    have hawait := awaitBlock_payment (i := k) (p := (f p).emergencyBreak config)
      (s := s.withProcessor (.payment k) fun p => (f p).emergencyBreak config) hk
      (by rw [withProcessor_self, hp]; rfl)
    rw [(hbreak (f p)).itemCommitEvent, hrejected hu p hp hopen] at hawait
    rw [hawait]
    exact turn_finished hk hleaves
  · have hlookup : (s.parcel i).stage ≠ .lookup .payment := by
      rcases hstage with hstage | ⟨w, hstage⟩ <;> simp [hstage]
    have hpay : s.MayPay i ∧ ¬ (s.parcel i).stage.ended := by
      rcases hstage with hstage | ⟨w, hstage⟩ <;> rw [MayPay, hstage] <;> exact ⟨trivial, id⟩
    have huntold : ¬ s.Untold k := fun huk => by
      by_cases hki : k = i
      · exact hu (hki ▸ huk)
      · obtain rfl : i = !k := by cases i <;> cases k <;> simp_all
        exact hlookup huk.1.2
    have hturn : Turn s (s.withProcessor (.payment k) fun p => (f p).emergencyBreak config) :=
      turn_leaves (fun p _ => hleaves p) fun huk => absurd huk huntold
    split
    next => exact hturn.trans (turn_halts trivial)
    next => exact hturn.trans (turn_halts trivial)
    next =>
      refine hturn.trans (turn_goTo ⟨nofun, nofun, ?_, fun _ => trivial, fun _ => ?_, ?_, fun hui => ?_⟩)
      · exact fun _ he => absurd he hpay.2
      · rcases hstage with hstage | ⟨w, hstage⟩ <;> rw [MayPay, withProcessor_parcel, hstage] <;> trivial
      · exact fun h => absurd h (not_approves_nil _)
      · exact absurd (hturn.untold hui) hu

/-- A parcel goes on after a rejection that its payment processor has told no parcel of. -/
theorem turn_interrupt (config : ItemConfig N) (hu : ∀ w, (s.parcel i).stage = .payment w false → ¬ s.Untold i) :
    Turn s (s.interrupt config i) := by
  unfold interrupt
  split
  next w k hstage hk =>
    have hbreak := turn_breakPayment (f := fun p => p) config hk (.inr ⟨w, hstage⟩) (fun h => absurd h (hu w hstage))
      (fun p => ⟨rfl, .inl rfl, fun _ => id⟩) fun h => absurd h (hu w hstage)
    rwa [withProcessor_id] at hbreak
  next w k hstage hk => exact turn_payloadExpired hk
  next => exact turn_halts trivial

theorem reject_result (f : EventField Block) (event : Option Bool) : (f.reject event).result = f.result := by
  by_cases he : f.current = event
  · subst he
    simp [EventField.result, EventField.reject, AsyncEvent.reject]
  · simp [EventField.result, EventField.reject, Function.update_of_ne he]

/-- The promise that the parcel waits for is rejected, and the parcel goes on. -/
theorem turn_reject (config : ItemConfig N) {q : Processor} {event : Option Bool} {p : ItemProcessor N Item}
    (hstage : (∃ w, (s.parcel i).stage = .payment w false) ∨ ∃ w, (s.parcel i).stage = .payload w)
    (hwaits : s.waitsFor i = some (q, event)) (hready : s.Untold i → s.Ready i) (hp : s.processor q = some p)
    (hpromise : (p.itemCommitEvent.object event).promise = none) :
    Turn s ((s.withProcessor q fun p => { p with
      itemCommitEvent := p.itemCommitEvent.reject event }).interrupt config i) := by
  rcases hstage with ⟨⟨ev, fired⟩, hstage⟩ | ⟨⟨ev, fired⟩, hstage⟩
  · cases fired with
    | some => simp [waitsFor, hstage] at hwaits
    | none =>
        simp only [waitsFor, hstage, processorOf, Option.map_map, Option.map_eq_some_iff] at hwaits
        obtain ⟨k, hk, hq⟩ := hwaits
        obtain ⟨rfl, rfl⟩ := Prod.mk.inj hq
        have hinterrupt : (s.withProcessor (.payment k) fun p => { p with
            itemCommitEvent := p.itemCommitEvent.reject ev }).interrupt config i =
              (s.withProcessor (.payment k) fun p => { p with
                itemCommitEvent := p.itemCommitEvent.reject ev }).breakPayment config i k := by
          simp only [interrupt, withProcessor_parcel, hstage, hk]
        have hbreak := turn_breakPayment (f := fun p => { p with
          itemCommitEvent := p.itemCommitEvent.reject ev }) config hk (.inr ⟨_, hstage⟩) hready
          (fun p => ⟨rfl, .inl rfl, fun b hb => (reject_result p.itemCommitEvent ev) ▸ hb⟩)
        rw [hinterrupt]
        refine hbreak fun hu p' hp' hopen => ?_
        obtain rfl : p = p' := Option.some.inj (hp.symm.trans hp')
        obtain ⟨-, -, -, hfirst⟩ := hready hu
        obtain rfl : ev = none := (hfirst _ _ hstage).2
        -- Nothing was fired, so the rejection is what the event comes to.
        obtain ⟨-, hfired⟩ | ⟨b, hb, -⟩ := hopen.itemCommit
        · simp [EventField.await, EventField.outcome, EventField.result, EventField.reject, hopen.current,
            AsyncEvent.reject, hfired, hpromise]
        · rw [hpromise] at hb
          cases hb
  · cases fired with
    | some => simp [waitsFor, hstage] at hwaits
    | none =>
        have hq : q = .payload i := by
          simp only [waitsFor, hstage, processorOf, Option.map_eq_some_iff] at hwaits
          obtain ⟨q', hq', hq⟩ := hwaits
          split at hq'
          next => exact (Prod.mk.inj hq).1.symm.trans (Option.some.inj hq').symm
          next => cases hq'
        subst hq
        have hreject := turn_payload (s := s) (i := i) (f := fun p => { p with
          itemCommitEvent := p.itemCommitEvent.reject event }) (fun _ _ => rfl) fun p _ hs =>
            ⟨hs.processed, fun ha => hs.approving (ha.imp_right fun hb =>
              (reject_result p.itemCommitEvent event) ▸ hb)⟩
        exact hreject.trans (turn_interrupt config fun w hw => by simp [hstage] at hw)

/-- The timer of an await of a parcel. -/
theorem turn_expire {config : ItemConfig N} (hready : s.Untold i → s.Ready i)
    (h : s.expire config i = some s') : Turn s s' := by
  obtain ⟨q, event, p, hstage, hwaits, hp, hpromise, rfl⟩ : ∃ q event p,
      ((∃ w, (s.parcel i).stage = .payment w false) ∨ ∃ w, (s.parcel i).stage = .payload w) ∧
      s.waitsFor i = some (q, event) ∧ s.processor q = some p ∧
      (p.itemCommitEvent.object event).promise = none ∧
      s' = (if s.waitsFor (!i) = some (q, event) then
        ((s.withProcessor q fun p => { p with
          itemCommitEvent := p.itemCommitEvent.reject event }).interrupt config i).interrupt config !i
        else (s.withProcessor q fun p => { p with
          itemCommitEvent := p.itemCommitEvent.reject event }).interrupt config i) := by
    unfold expire at h
    split at h
    next w q event hstage hwaits =>
      simp only [Option.bind_eq_some_iff, Option.ite_none_right_eq_some, Option.some.injEq,
        Option.isNone_iff_eq_none] at h
      obtain ⟨p, hp, hpromise, rfl⟩ := h
      exact ⟨q, event, p, .inl ⟨w, hstage⟩, hwaits, hp, hpromise, by simp only⟩
    next w q event hstage hwaits =>
      simp only [Option.bind_eq_some_iff, Option.ite_none_right_eq_some, Option.some.injEq,
        Option.isNone_iff_eq_none] at h
      obtain ⟨p, hp, hpromise, rfl⟩ := h
      exact ⟨q, event, p, .inr ⟨w, hstage⟩, hwaits, hp, hpromise, by simp only⟩
    next => cases h
  have hfirst := turn_reject config hstage hwaits hready hp hpromise
  split
  next =>
    -- The other parcel waits for the same processor: this one has looked for it.
    refine hfirst.trans (turn_interrupt config fun _ _ hu => ?_)
    have hlookup := hfirst.lookup _ hu.1.2
    rw [Bool.not_not] at hlookup
    rcases hstage with ⟨w, hstage⟩ | ⟨w, hstage⟩ <;> simp [hstage] at hlookup
  next => exact hfirst

variable [DecidableEq N]

theorem delayedVotes_quiet (config : ItemConfig N) (votes : List (N × ItemState)) (p : ItemProcessor N Item) :
    p.Quiet (delayedVotes config votes p) := by
  induction votes generalizing p with
  | nil => exact .refl p
  | cons vote votes ih => exact (ItemProcessor.vote_quiet config vote.1 vote.2 p).trans (ih _)

theorem delayedVotes_open (config : ItemConfig N) (votes : List (N × ItemState)) {p : ItemProcessor N Item}
    (h : p.Open) : (delayedVotes config votes p).Open := by
  induction votes generalizing p with
  | nil => exact h
  | cons vote votes ih => exact ih (h.vote config vote.1 vote.2)

/-- After the payment; a payload that the parcel breaks off was not committing. -/
theorem turn_afterPayment {setup : ParcelSetup N} (hk : (s.parcel i).paymentProcessor = some k)
    (hstage : ∃ w again, (s.parcel i).stage = .payment w again)
    (hclean : (∃ b, s.blockOf i .payment = some b ∧ b.success = false) ∨ setup.sameOrigin i = true →
      ∀ p, s.processor (.payload i) = some p → ¬ p.Approving) : Turn s (s.afterPayment setup i k) := by
  unfold afterPayment
  split
  next b hb _ =>
    split
    next hsuccess =>
      split
      next hsame =>
        have hquiet : ∀ p : ItemProcessor N Item,
            p.Quiet ({ p with itemErrors := true }.emergencyBreak setup.config) := fun p => by
          obtain ⟨_, hmoves, -⟩ := ItemProcessor.emergencyBreak_moves setup.config { p with itemErrors := true }
          exact (ItemProcessor.flags_moves true p.alreadyChecked p.resyncingItems p).quiet.trans hmoves.quiet
        refine (turn_payload (fun p _ => (hquiet p).id) fun p _ => (hquiet p).stopped).trans
          (turn_awaitPayload hk hstage (.inl fun p' hp' => ?_))
        rw [withProcessor_self, Option.map_eq_some_iff] at hp'
        obtain ⟨p, hp, rfl⟩ := hp'
        exact ItemProcessor.emergencyBreak_stopped (p := { p with itemErrors := true }) setup.config
          (hclean (.inr hsame) p hp)
      next =>
        have hforce : ∀ p : ItemProcessor N Item, p.Quiet
            (delayedVotes setup.config (s.parcel i).payloadDelayedVotes (p.forceChecking true)) := fun p =>
          (ItemProcessor.forceChecking_quiet true p).trans (delayedVotes_quiet _ _ _)
        have hpayload := turn_payload (s := s) (i := i) (fun p _ => (hforce p).id) fun p _ => (hforce p).stopped
        refine (hpayload.trans (turn_withParcel rfl (leads_self _ i))).trans
          (turn_awaitPayload (by simpa [withParcel] using hk) (by simpa [withParcel] using hstage)
            (.inr fun b' hb' => ?_))
        rw [blockOf_withParcel (f := fun parcel => { parcel with payloadDelayedVotes := [] }) rfl i,
          blockOf_payload, hb] at hb'
        obtain rfl := Option.some.inj hb'
        cases b with
        | commit => rfl
        | rollback => cases hsuccess
    next hsuccess =>
      exact turn_breakPayload setup.config (hclean (.inl ⟨b, hb, by simpa using hsuccess⟩))
  next => exact turn_halts trivial

/-- `process()` up to the first await. -/
theorem turn_process (setup : ParcelSetup N) (hstage : (s.parcel i).stage = .scheduled)
    (hready : s.Untold i → s.Ready i) : Turn s (s.process setup i) := by
  unfold process
  split
  next => exact turn_halts trivial
  next k hk =>
    obtain ⟨s₁, hs₁⟩ : ∃ s₁, s₁ = (s.withProcessor (.payment k) (delayedVotes setup.config
        (s.parcel i).paymentDelayedVotes)).withParcel i fun parcel =>
        { parcel with paymentDelayedVotes := [] } := ⟨_, rfl⟩
    have hvotes : Turn s s₁ := by
      rw [hs₁]
      exact (turn_quiet (fun p _ => delayedVotes_quiet _ _ p) fun p _ => delayedVotes_open _ _).trans
        (turn_withParcel rfl (leads_self _ i))
    have hk₁ : (s₁.parcel i).paymentProcessor = some k := (hvotes.link i).trans hk
    have hstage₁ : (s₁.parcel i).stage = .scheduled := by
      rw [hs₁]
      simpa [withParcel] using hstage
    have hready₁ : s₁.Untold i → s₁.Ready i := fun hu => hvotes.ready i hu (hready (hvotes.untold hu))
    have hself : s₁.withProcessor (.payment k) (fun p => p) = s₁ := withProcessor_id ..
    dsimp only
    rw [← hs₁]
    split
    next => exact hvotes.trans (turn_halts trivial)
    next w hw =>
      have hbreak := turn_breakPayment (f := fun p => p) setup.config hk₁ (.inl hstage₁) hready₁
        (fun p => ⟨rfl, .inl rfl, fun _ => id⟩) fun _ p hp _ => by
          rw [awaitBlock_payment hk₁ hp] at hw
          exact (Prod.mk.inj (Option.some.inj hw)).2
      rw [hself] at hbreak
      exact hvotes.trans hbreak
    next w _ _ hw =>
      refine hvotes.trans (turn_goTo ⟨nofun, nofun, ?_, fun _ => trivial, fun _ => ?_, ?_, ?_⟩)
      · rw [hstage₁]
        exact fun _ => id
      · rw [MayPay, hstage₁]
        trivial
      · exact fun h => absurd h (not_approves_nil _)
      · rintro hu ⟨p, hp, hopen, -⟩ w' again hw'
        obtain ⟨rfl, rfl⟩ := Stage.payment.inj hw'
        obtain rfl : k = i := Option.some.inj (hk₁.symm.trans hu.1.1)
        rw [awaitBlock_payment hk₁ hp] at hw
        obtain ⟨rfl, -⟩ := Prod.mk.inj (Option.some.inj hw)
        exact ⟨rfl, hopen.current⟩

/-- A parcel goes on after an await that was answered. -/
theorem turn_resume {setup : ParcelSetup N} (hk : (s.parcel i).paymentProcessor = some k) (hfits : s.Fits i)
    (hclean : (match (s.parcel i).stage with
      | .payment _ _ => (∃ b, s.blockOf i .payment = some b ∧ b.success = false) ∨ setup.sameOrigin i = true
      | .rollback _ => True
      | _ => False) → ∀ p, s.processor (.payload i) = some p → ¬ p.Approving)
    (h : s.resume setup i k = some s') : Turn s s' := by
  unfold resume at h
  split at h
  next w again hstage =>
    simp only [Option.bind_eq_some_iff, Option.map_eq_some_iff] at h
    obtain ⟨_, -, _, -, rfl⟩ := h
    rw [hstage] at hclean
    exact turn_afterPayment hk ⟨w, again, hstage⟩ hclean
  next w hstage =>
    simp only [Option.bind_eq_some_iff, Option.map_eq_some_iff] at h
    obtain ⟨_, -, _, -, rfl⟩ := h
    refine turn_goTo ⟨(fun h => by cases h), (fun h => by cases h), ?_, fun hf => ?_, fun hpay => ?_,
      fun hw => absurd hw (not_approves_nil _), by simp⟩
    · rw [hstage]
      exact fun _ => id
    · rwa [Fits, hstage] at hf
    · rwa [MayPay, hstage]
  next w hstage =>
    simp only [Option.bind_eq_some_iff, Option.map_eq_some_iff] at h
    obtain ⟨_, -, _, -, rfl⟩ := h
    rw [hstage] at hclean
    exact turn_breakPayload setup.config (hclean trivial)
  next w hstage =>
    simp only [Option.bind_eq_some_iff, Option.map_eq_some_iff] at h
    obtain ⟨_, -, _, -, rfl⟩ := h
    refine turn_goTo ⟨(fun h => by cases h), (fun h => by cases h), ?_, fun hf => ?_, fun hpay => ?_,
      fun hw => absurd hw (not_approves_nil _), by simp⟩
    · rw [hstage]
      exact fun _ => id
    · rw [Fits, hstage] at hf
      exact .inl hf
    · rw [Fits, hstage] at hfits
      exact absurd hfits hpay
  next => cases h


end Parcels
end Universa.Node
