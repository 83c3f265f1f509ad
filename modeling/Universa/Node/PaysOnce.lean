import Universa.Node.ParcelTurns

/-! One payment pays at most one payload: the transactions of two parcels with one payment, the tasks of the
    processors, and what holds of both parcels after every step (`Inv`). -/

namespace Universa.Node.Parcels
variable {N : Type} [DecidableEq N] {setup : ParcelSetup N} {s s' : Parcels N} {i k : Bool}

/-! ### Turns of a transaction -/

omit [DecidableEq N] in
theorem approves_append {writes : List Write} {write : Write} {item : Item} :
    Approves (writes ++ [write]) item ↔
      Approves writes item ∨ ∃ r, write = .update r ∧ r.id = item ∧ r.state = .APPROVED := by
  simp only [Approves, List.mem_append, List.mem_singleton]
  constructor
  · rintro ⟨r, hr | hr, hid, hstate⟩
    · exact .inl ⟨r, hr, hid, hstate⟩
    · exact .inr ⟨r, hr.symm, hid, hstate⟩
  · rintro (⟨r, hr, hid, hstate⟩ | ⟨r, rfl, hid, hstate⟩)
    · exact ⟨r, .inl hr, hid, hstate⟩
    · exact ⟨r, .inr rfl, hid, hstate⟩

omit [DecidableEq N] in
/-- The transaction calls the block of the payment. -/
theorem turn_begin (hstage : (s.parcel i).stage = .transaction) (hfits : s.Fits i) :
    Turn s (s.callBlock i .payment []) := by
  unfold callBlock
  split
  next b hb =>
    rw [Fits, hstage] at hfits
    refine turn_goTo ⟨(fun h => by cases h), (fun h => by cases h), ?_, fun _ => ⟨rfl, ?_⟩, fun hpay => ?_, ?_,
      by simp⟩
    · rw [hstage]
      exact fun _ => id
    · exact (hfits.imp_right fun h => h b hb).symm
    · rw [MayPay, hstage]
      exact hpay.2
    · exact fun h => absurd h (not_approves_nil _)
  next => exact turn_halts trivial

omit [DecidableEq N] in
/-- The block of a payload that has stopped is no commit. -/
theorem blockOf_stopped (h : s.StoppedAt i) : s.blockOf i .payload ≠ some .commit := by
  intro hb
  simp only [blockOf, processorOf, Option.bind_eq_some_iff] at hb
  obtain ⟨q, hq, p, hp, hb⟩ := hb
  split at hq
  next =>
    obtain rfl := Option.some.inj hq
    exact (h p hp).approving (.inr hb)
  next => cases hq

omit [DecidableEq N] in
/-- A block has ended. -/
theorem turn_blockDone {part : Part} {writes : List Write} (hstage : (s.parcel i).stage = .saving part writes)
    (hfits : s.Fits i) : Turn s (s.blockDone i part writes) := by
  cases part with
  | payment =>
      unfold blockDone callBlock
      dsimp only
      split
      next b hb =>
        rw [Fits, hstage] at hfits
        have hcommit : b = .commit → Approves writes .payment ∧ ¬ s.StoppedAt i := by
          rintro rfl
          have hrunning : ¬ s.StoppedAt i := fun hs => blockOf_stopped hs hb
          exact ⟨hfits.2.resolve_right hrunning, hrunning⟩
        refine turn_goTo ⟨(fun h => by cases h), (fun h => by cases h), ?_,
          fun _ => ⟨hfits.1, fun hb => (hcommit hb).1⟩, fun hpay => ?_, ?_, by simp⟩
        · rw [hstage]
          exact fun _ => id
        · rw [MayPay, hstage]
          exact hcommit hpay
        · rw [Pays, hstage]
          exact id
      next => exact turn_halts trivial
  | payload =>
      refine turn_fireBoth
        (turn_goTo ⟨(fun h => by cases h), (fun h => by cases h), fun _ _ => trivial, ?_, ?_, ?_, by simp⟩) (by simp)
        fun _ => trivial
      · rw [Fits, hstage]
        exact id
      · rw [MayPay, hstage]
        exact id
      · rw [Pays, hstage]
        exact id

omit [DecidableEq N] in
/-- The transaction is committed. -/
theorem turn_committed {writes : List Write} (hstage : (s.parcel i).stage = .commit writes) :
    Turn s (s.goTo i (.committed writes)) := by
  refine turn_goTo ⟨nofun, nofun, fun _ _ => trivial, ?_, ?_, ?_, fun _ _ => nofun⟩
  · rw [Fits, hstage]
    exact id
  · rw [MayPay, hstage]
    exact id
  · rw [Pays, hstage]
    exact id

omit [DecidableEq N] in
/-- A parcel whose transaction failed answers to both processors. -/
theorem turn_failed : Turn s ((s.fireBoth i false).goTo i .finished) :=
  turn_fireBoth (turn_halts trivial) nofun fun hpay => by
    rw [MayPay, goTo_stage] at hpay
    exact absurd hpay id

/-! ### The block of an item -/

omit [DecidableEq N] in
/-- A block writes the record of its item, APPROVED only by a commit of one that can be approved. -/
theorem changeRecord_spec {block : Block} {now : ℤ} {p : ItemProcessor N Item} {record : StateRecord Item}
    {write : Write} (h : changeRecord block now p = .ok (record, write)) :
    record.id = p.record.id ∧ ¬ Approvable record.state ∧
      ((block = .commit ∧ write = .update record ∧ record.state = .APPROVED ∧ Approvable p.record.state) ∨
        (block ≠ .commit ∧ ∀ r, write = .update r → r.state ≠ .APPROVED)) := by
  cases block with
  | commit =>
      simp only [changeRecord, StateRecord.approve] at h
      split at h
      next happrove =>
        obtain ⟨rfl, rfl⟩ := Prod.mk.inj (Except.ok.inj h)
        refine ⟨rfl, (by rintro (h | h) <;> cases h), .inl ⟨rfl, rfl, rfl, ?_⟩⟩
        rcases happrove with h | h | ⟨h, -⟩
        · exact .inl h
        · exact .inr h
        · cases h
      next => cases h
  | rollback doDecline =>
      cases doDecline with
      | true =>
          simp only [changeRecord, StateRecord.decline] at h
          split at h
          next =>
            obtain ⟨rfl, rfl⟩ := Prod.mk.inj (Except.ok.inj h)
            refine ⟨rfl, (by rintro (h | h) <;> cases h), .inr ⟨(fun h => by cases h), fun r hr => ?_⟩⟩
            obtain rfl := Write.update.inj hr
            simp
          next => cases h
      | false =>
          obtain ⟨rfl, rfl⟩ := Prod.mk.inj (Except.ok.inj h)
          exact ⟨rfl, (by rintro (h | h) <;> cases h), .inr ⟨(fun h => by cases h), fun _ h => by cases h⟩⟩


omit [DecidableEq N] in
theorem withCached_self {item : Item} {cached : Option Cached} : (s.withCached item cached).cached item = cached :=
  Function.update_self ..

omit [DecidableEq N] in
theorem withCached_ne {item item' : Item} {cached : Option Cached} (h : item' ≠ item) :
    (s.withCached item cached).cached item' = s.cached item' :=
  Function.update_of_ne h _ _

omit [DecidableEq N] in
/-- A change of the cache that shows no payment that was paid. -/
theorem turn_withCached {item : Item} {cached : Option Cached}
    (hobject : ∀ q, cached = some (.object q) → q.item = item)
    (hpaid : item = .payment → ∀ k, s.Paid k → s.Shown k → cached = some (.object (.payment k))) :
    Turn s (s.withCached item cached) where
  named hn := by
    refine ⟨hn.ids, fun item' q hq => ?_⟩
    by_cases hitem : item' = item
    · subst hitem
      rw [withCached_self] at hq
      exact hobject q hq
    · rw [withCached_ne hitem] at hq
      exact hn.objects item' q hq
  link _ := rfl
  made _ := rfl
  approvable _ p' hp ha := ⟨p', hp, ha⟩
  lookup _ := id
  asks _ := id
  ended _ _ := id
  fits _ := id
  mayPay _ := id
  pays _ := id
  ready _ _ := id
  shown k hk hs := by
    refine ⟨?_, hs.2⟩
    by_cases hitem : item = .payment
    · subst hitem
      rw [withCached_self]
      exact hpaid rfl k hk hs
    · rw [withCached_ne (Ne.symm hitem)]
      exact hs.1

/-- The processor of an item after its block has changed the record. -/
theorem record_spec (config : ItemConfig N) (block : Block) (resync : Bool) (record : StateRecord Item)
    (p : ItemProcessor N Item) : ∃ p', p' = (
      let p := { p with record := record }
      if block = .commit ∧ resync ∧ config.myInfo ∈ p.negativeNodes then p.addItemToResync else p) ∧
    p'.record = record ∧ p'.itemCommitEvent = p.itemCommitEvent ∧ (p.Stopped → p'.Stopped) ∧
    (p.Open → p'.Open) := by
  have hrecord : ∀ resyncing, (p.Stopped → { p with
      record := record, resyncingItems := resyncing }.Stopped) ∧ (p.Open → { p with
      record := record, resyncingItems := resyncing }.Open) := fun _ =>
    ⟨fun hs => ⟨hs.processed, hs.approving⟩, fun ho => { ho with }⟩
  refine ⟨_, rfl, ?_⟩
  dsimp only
  split
  next =>
    unfold ItemProcessor.addItemToResync
    split
    next => exact ⟨rfl, rfl, hrecord true⟩
    next => exact ⟨rfl, rfl, hrecord p.resyncingItems⟩
  next => exact ⟨rfl, rfl, hrecord p.resyncingItems⟩

/-- What a block does up to the save: it fails, or the record and the cache change and the statement is
    written. -/
theorem runBlock_cases (config : ItemConfig N) (i : Bool) (part : Part) (block : Block) (writes : List Write)
    (now : ℤ) (resync : Bool) (hnamed : s.Named) :
    s.runBlock config i part block writes now resync = s.goTo i .rollingBack ∨
    ∃ q p f cached record write, s.processorOf i part = some q ∧ s.processor q = some p ∧
      changeRecord block now p = .ok (record, write) ∧ record.id = part.item i ∧
      (∀ p : ItemProcessor N Item, (f p).record = record ∧ (f p).itemCommitEvent = p.itemCommitEvent ∧
        (p.Stopped → (f p).Stopped) ∧ (p.Open → (f p).Open)) ∧
      (∀ q', cached = some (.object q') → q'.item = part.item i) ∧
      (block = .commit → cached = some (.object q)) ∧
      s.runBlock config i part block writes now resync =
        ((s.withProcessor q f).withCached (part.item i) cached).goTo i (.saving part (writes ++ [write])) := by
  cases hq : s.processorOf i part with
  | none => exact .inl (by simp only [runBlock, hq])
  | some q =>
      have hitem : q.item = part.item i := by
        cases part with
        | payment =>
            simp only [processorOf, Option.map_eq_some_iff] at hq
            obtain ⟨k, -, rfl⟩ := hq
            rfl
        | payload =>
            simp only [processorOf] at hq
            split at hq
            next =>
              obtain rfl := Option.some.inj hq
              rfl
            next => cases hq
      cases hp : s.processor q with
      | none => exact .inl (by simp only [runBlock, hq, hp])
      | some p =>
          cases hchange : changeRecord block now p with
          | error => exact .inl (by simp only [runBlock, hq, hp, hchange])
          | ok change =>
              obtain ⟨record, write⟩ := change
              refine .inr ⟨q, p, fun p =>
                  let p := { p with record := record }
                  if block = .commit ∧ resync ∧ config.myInfo ∈ p.negativeNodes then p.addItemToResync else p,
                if block = .rollback false then none else some (.object q), record, write, rfl, hp, hchange,
                ((changeRecord_spec hchange).1.trans (hnamed.ids q p hp)).trans hitem, fun p' => ?_, ?_, ?_, ?_⟩
              · obtain ⟨_, rfl, hspec⟩ := record_spec config block resync record p'
                exact hspec
              · intro q' hq'
                split at hq'
                next => cases hq'
                next =>
                  cases hq'
                  exact hitem
              · intro hblock
                rw [hblock]
                rfl
              · simp only [runBlock, hq, hp, hchange, hitem]

omit [DecidableEq N] in
/-- What the statement of a block adds to what the transaction approves. -/
theorem approves_change {block : Block} {now : ℤ} {p : ItemProcessor N Item} {record : StateRecord Item}
    {write : Write} (writes : List Write) (h : changeRecord block now p = .ok (record, write)) (item : Item) :
    Approves (writes ++ [write]) item ↔ Approves writes item ∨ block = .commit ∧ record.id = item := by
  obtain ⟨-, -, hwrite⟩ := changeRecord_spec h
  rw [approves_append]
  refine or_congr_right ⟨?_, ?_⟩
  · rintro ⟨r, rfl, hid, happroved⟩
    rcases hwrite with ⟨hblock, hw, -⟩ | ⟨-, hw⟩
    · exact ⟨hblock, Write.update.inj hw ▸ hid⟩
    · exact absurd happroved (hw r rfl)
  · rintro ⟨rfl, hid⟩
    rcases hwrite with ⟨-, hw, happroved, -⟩ | ⟨hblock, -⟩
    · exact ⟨record, hw, hid, happroved⟩
    · exact absurd rfl hblock

/-- The block of a payload. -/
theorem turn_runBlock_payload {config : ItemConfig N} {block : Block} {writes : List Write} {now : ℤ}
    {resync : Bool} (hnamed : s.Named) (hstage : (s.parcel i).stage = .block .payload block writes)
    (hfits : s.Fits i) : Turn s (s.runBlock config i .payload block writes now resync) := by
  rcases runBlock_cases config i .payload block writes now resync
    hnamed with h | ⟨q, p, f, cached, record, write, hq, hp, hchange, hid, hf, hobject, -, h⟩
  · rw [h]
    exact turn_halts trivial
  · obtain rfl : q = .payload i := by
      simp only [processorOf] at hq
      split at hq
      next => exact (Option.some.inj hq).symm
      next => cases hq
    have happroves := approves_change writes hchange
    rw [Fits, hstage] at hfits
    rw [h]
    have hprocessor : Turn s (s.withProcessor (.payload i) f) :=
      turn_payload (fun p' hp' => by rw [(hf p').1, hid, hnamed.ids _ p' hp']; rfl) fun p' _ => (hf p').2.2.1
    have hcache : Turn (s.withProcessor (.payload i) f)
        ((s.withProcessor (.payload i) f).withCached (.payload i) cached) :=
      turn_withCached hobject (fun h => by cases h)
    refine (hprocessor.trans hcache).trans
      (turn_goTo ⟨(fun h => by cases h), (fun h => by cases h), ?_, fun _ k hk => ?_, fun hpay => ?_,
        fun hpays => ?_, by simp⟩)
    · change _ → (s.parcel i).stage.ended → _
      rw [hstage]
      exact fun _ => id
    · rcases (happroves _).mp hk with hk | ⟨hblock, hk⟩
      · exact absurd hk (hfits.1 k)
      · rw [hid] at hk
        exact ⟨(Item.payload.inj hk).symm, (happroves _).mpr (.inl (hfits.2 hblock))⟩
    · obtain ⟨k, hk⟩ := hpay
      change Stage.mayPay _ (s.parcel i).stage
      rw [hstage]
      rcases (happroves _).mp hk with hk | ⟨hblock, -⟩
      · exact absurd hk (hfits.1 k)
      · exact hblock
    · change Approves (s.parcel i).stage.written .payment
      rw [hstage]
      rcases (happroves _).mp hpays with hp' | ⟨-, hk⟩
      · exact hp'
      · rw [hid] at hk
        cases hk


/-! ### The invariant -/

/-- What holds of both parcels after every step. -/
structure Inv (s : Parcels N) : Prop where
  named : s.Named
  linked : ∀ i k, (s.parcel i).paymentProcessor = some k →
    (s.processor (.payment k)).isSome = true ∧ (s.parcel k).paymentProcessor = some k
  made : ∀ k, (s.processor (.payment k)).isSome = true → (s.parcel k).paymentProcessor = some k
  early : ∀ i, (s.parcel i).stage = .lookup .payment ∨ (s.parcel i).stage.asks →
    (s.parcel i).paymentProcessor = none
  fits : ∀ i, s.Fits i
  approved : ∀ i, s.Pays i → ∃ k, (s.parcel i).paymentProcessor = some k ∧
    ∀ p, s.processor (.payment k) = some p → ¬ Approvable p.record.state
  once : ∀ i, s.Pays i → s.Pays (!i) → (s.parcel i).paymentProcessor ≠ (s.parcel !i).paymentProcessor
  own : ∀ i, s.Own i → s.Own (!i) → s.MayPay i → ¬ s.MayPay (!i)
  ready : ∀ i, s.Untold i → s.Ready i
  shown : ∀ i, s.Paid i → s.Shown i

omit [DecidableEq N] in
theorem Turn.own (h : Turn s s') (hi : s'.Own i) : s.Own i :=
  hi.imp (fun hl => (h.link i).symm.trans hl) (h.asks i)

omit [DecidableEq N] in
/-- A turn keeps the invariant. -/
theorem Inv.turn (h : Inv s) (ht : Turn s s') : Inv s' where
  named := ht.named h.named
  linked i k hk := by
    rw [ht.made, ht.link]
    exact h.linked i k ((ht.link i).symm.trans hk)
  made k hk := by
    rw [ht.link]
    exact h.made k (ht.made k ▸ hk)
  early i hi := by
    rw [ht.link]
    exact h.early i (hi.imp (ht.lookup i) (ht.asks i))
  fits i := ht.fits i (h.fits i)
  approved i hi := by
    obtain ⟨k, hk, hrecord⟩ := h.approved i (ht.pays i hi)
    refine ⟨k, (ht.link i).trans hk, fun p' hp' ha => ?_⟩
    obtain ⟨p, hp, ha⟩ := ht.approvable k p' hp' ha
    exact hrecord p hp ha
  once i hi hother := by
    rw [ht.link, ht.link]
    exact h.once i (ht.pays i hi) (ht.pays _ hother)
  own i hi hother hpay hpay' := h.own i (ht.own hi) (ht.own hother) (ht.mayPay i hpay) (ht.mayPay _ hpay')
  ready i hi := ht.ready i hi (h.ready i (ht.untold hi))
  shown i hi := ht.shown i hi (h.shown i (ht.paid hi))

omit [DecidableEq N] in
/-- The transaction has saved the payment APPROVED, and no other that saved it has the same processor. -/
theorem Inv.pays {writes : List Write} {p : ItemProcessor N Item} (h : Inv s)
    (hstage : (s.parcel i).stage = .block .payment .commit []) (hk : (s.parcel i).paymentProcessor = some k)
    (hwrites : ∀ item, Approves writes item ↔ item = .payment) (hp : s.processor (.payment k) = some p)
    (happroved : p.record.state = .APPROVED) (hcached : s.cached .payment = some (.object (.payment k)))
    (hother : s.Pays (!i) → (s.parcel !i).paymentProcessor ≠ some k) :
    Inv (s.goTo i (.saving .payment writes)) := by
  obtain ⟨s', hs'⟩ : ∃ s', s' = s.goTo i (.saving .payment writes) := ⟨_, rfl⟩
  have hself : (s'.parcel i).stage = .saving .payment writes := by rw [hs', goTo_stage]
  have hne : ∀ {j}, j ≠ i → s'.parcel j = s.parcel j := by
    rw [hs']
    exact withParcel_parcel_ne
  have hl : ∀ j, (s'.parcel j).paymentProcessor = (s.parcel j).paymentProcessor := by
    rw [hs']
    exact withParcel_link rfl
  have hblock : ∀ j, s'.blockOf j .payment = s.blockOf j .payment := by
    rw [hs']
    exact blockOf_withParcel rfl
  have hprocessor : s'.processor = s.processor := by rw [hs']; rfl
  have hcached' : s'.cached = s.cached := by rw [hs']; rfl
  have hstopped : ∀ j, s'.StoppedAt j ↔ s.StoppedAt j := fun j => by rw [StoppedAt, StoppedAt, hprocessor]
  have hmay : ∀ j, s'.MayPay j → s.MayPay j := fun j hpay => by
    by_cases hj : j = i
    · subst hj
      rw [MayPay, hself] at hpay
      rw [MayPay, hstage]
      exact ⟨rfl, fun hs => hpay.2 ((hstopped j).mpr hs)⟩
    · rw [MayPay, hne hj] at hpay
      exact Stage.mayPay_imp (hstopped j).mpr hpay
  have hother' : ∀ j, (s'.parcel j).stage = .lookup .payment ∨ (s'.parcel j).stage.asks → j ≠ i := by
    rintro j hj rfl
    rw [hself] at hj
    rcases hj with hj | hj <;> cases hj
  have hpays : ∀ j, j ≠ i → (s'.Pays j ↔ s.Pays j) := fun j hj => by rw [Pays, Pays, hne hj]
  rw [← hs']
  refine {
    named := ⟨hprocessor ▸ h.named.ids, hcached' ▸ h.named.objects⟩
    linked := fun j => by simpa only [hl, hprocessor] using h.linked j
    made := fun j => by simpa only [hl, hprocessor] using h.made j
    early := fun j hj => by
      rw [hl]
      exact h.early j (hne (hother' j hj) ▸ hj)
    fits := fun j => ?_
    approved := fun j hj => ?_
    once := fun j hj hj' => ?_
    own := fun j hj hj' hpay hpay' => h.own j ?_ ?_ (hmay j hpay) (hmay _ hpay')
    ready := fun j hj => ?_
    shown := fun j hj => ?_ }
  · by_cases hj : j = i
    · subst hj
      rw [Fits, hself]
      exact ⟨fun _ hw => absurd ((hwrites _).mp hw) (fun h => by cases h), .inl ((hwrites _).mpr rfl)⟩
    · rw [Fits, hne hj, hblock]
      exact Stage.fits_imp (hstopped j).mpr (fun _ => .inr fun _ => .inl) (h.fits j)
  · by_cases hji : j = i
    · subst hji
      refine ⟨k, (hl j).trans hk, fun p' hp' => ?_⟩
      obtain rfl : p' = p := Option.some.inj ((hprocessor ▸ hp').symm.trans hp)
      rw [happroved]
      rintro (ha | ha) <;> cases ha
    · obtain ⟨k', hk', hrecord⟩ := h.approved j ((hpays j hji).mp hj)
      exact ⟨k', (hl j).trans hk', hprocessor ▸ hrecord⟩
  · rw [hl, hl]
    by_cases hji : j = i
    · subst hji
      rw [hk]
      exact (hother ((hpays _ (by simp)).mp hj')).symm
    · obtain rfl : i = !j := by cases i <;> cases j <;> simp_all
      rw [hk]
      have := hother (by rw [Bool.not_not]; exact (hpays j hji).mp hj)
      rwa [Bool.not_not] at this
  · exact hj.imp (fun hlj => (hl j).symm.trans hlj) fun ha => hne (hother' j (.inr ha)) ▸ ha
  · exact hj'.imp (fun hlj => (hl _).symm.trans hlj) fun ha => hne (hother' _ (.inr ha)) ▸ ha
  · obtain ⟨⟨hown, hlookup⟩, hpay, hended⟩ := hj
    have hnot : (!j) ≠ i := hother' _ (.inl hlookup)
    obtain rfl : j = i := by cases i <;> cases j <;> simp_all
    obtain ⟨p, hp, hopen, -⟩ := h.ready j ⟨⟨(hl j).symm.trans hown, hne hnot ▸ hlookup⟩, hmay j hpay, by
      rw [hstage]
      exact id⟩
    refine ⟨p, hprocessor ▸ hp, hopen, fun w again hw => ?_⟩
    rw [hself] at hw
    cases hw
  · obtain ⟨⟨hown, hlookup⟩, -, -⟩ := hj
    have hnot : (!j) ≠ i := hother' _ (.inl hlookup)
    obtain rfl : j = i := by cases i <;> cases j <;> simp_all
    obtain rfl : k = j := Option.some.inj (hk.symm.trans ((hl j).symm.trans hown))
    exact ⟨hcached' ▸ hcached, p, hprocessor ▸ hp, happroved⟩


/-- The block of a payment. -/
theorem Inv.runBlock_payment {config : ItemConfig N} {block : Block} {writes : List Write} {now : ℤ}
    {resync : Bool} (h : Inv s) (hstage : (s.parcel i).stage = .block .payment block writes) :
    Inv (s.runBlock config i .payment block writes now resync) := by
  rcases runBlock_cases config i .payment block writes now resync
    h.named with hrun | ⟨q, p, f, cached, record, write, hq, hp, hchange, hid, hf,
      hobject, hcommit, hrun⟩
  · rw [hrun]
    exact h.turn (turn_halts trivial)
  · simp only [processorOf, Option.map_eq_some_iff] at hq
    obtain ⟨k, hk, rfl⟩ := hq
    have hfits := h.fits i
    rw [Fits, hstage] at hfits
    obtain ⟨rfl, hrunning⟩ := hfits
    -- No other parcel looks for the payment while this one has no statement of it.
    have hpaid : ∀ s' : Parcels N, s'.parcel = s.parcel → ∀ j, ¬ s'.Paid j := by
      rintro s' hs' j ⟨⟨-, hlookup⟩, -, hpays⟩
      rw [hs'] at hlookup
      rw [Pays, hs'] at hpays
      by_cases hj : j = i
      · subst hj
        rw [hstage] at hpays
        exact not_approves_nil _ hpays
      · obtain rfl : i = !j := by cases i <;> cases j <;> simp_all
        rw [hstage] at hlookup
        cases hlookup
    obtain ⟨-, hdone, hchanged⟩ := changeRecord_spec hchange
    have hprocessor : Turn s (s.withProcessor (.payment k) f) :=
      turn_payment (fun p' hp' => by rw [(hf p').1, hid, h.named.ids _ p' hp']; rfl)
        (fun p' _ ha => absurd ((hf p').1 ▸ ha) hdone) (fun hpaid' => absurd hpaid' (hpaid s rfl k))
        (fun p' _ _ _ _ => .inr fun b hb => .inl ((hf p').2.1 ▸ hb)) fun _ p' _ => (hf p').2.2.2
    have hcache : Turn (s.withProcessor (.payment k) f)
        ((s.withProcessor (.payment k) f).withCached .payment cached) :=
      turn_withCached hobject fun _ j hj => absurd hj (hpaid _ rfl j)
    have hinv := h.turn (hprocessor.trans hcache)
    rw [hrun]
    by_cases hb : block = .commit
    · subst hb
      have happrovable : Approvable p.record.state ∧ record.state = .APPROVED := by
        rcases hchanged with ⟨-, -, hstate, ha⟩ | ⟨hb, -⟩
        · exact ⟨ha, hstate⟩
        · exact absurd rfl hb
      refine hinv.pays (k := k) (p := f p) hstage hk (fun item => ?_) ?_ ?_ ?_ fun hpays hlink => ?_
      · rw [List.nil_append, ← List.nil_append [write], approves_change [] hchange]
        constructor
        · rintro (hw | ⟨-, hw⟩)
          · exact absurd hw (not_approves_nil _)
          · exact hw.symm.trans hid
        · rintro rfl
          exact .inr ⟨rfl, hid⟩
      · exact (withProcessor_self (s := s)).trans (by rw [hp]; rfl)
      · rw [(hf p).1, happrovable.2]
      · rw [hcommit rfl]
        exact withCached_self
      · -- The record could still be approved, so no transaction has approved it.
        obtain ⟨k', hk', hrecord⟩ := h.approved (!i) hpays
        obtain rfl : k' = k := Option.some.inj (hk'.symm.trans hlink)
        exact hrecord p hp happrovable.1
    · have happroves : ∀ item, ¬ Approves ([] ++ [write]) item := fun item hw => by
        rcases (approves_change [] hchange item).mp hw with hw | ⟨hblock, -⟩
        · exact not_approves_nil _ hw
        · exact hb hblock
      refine hinv.turn (turn_goTo ⟨(fun h => by cases h), (fun h => by cases h), ?_,
        fun hf' => ⟨fun _ => happroves _, .inr ?_⟩, fun hpay => ?_,
        fun hw => absurd hw (happroves _), by simp⟩)
      · change _ → (s.parcel i).stage.ended → _
        rw [hstage]
        exact fun _ => id
      · change Stage.fits _ _ _ (s.parcel i).stage at hf'
        rw [hstage] at hf'
        exact hf'.2.resolve_left hb
      · exact absurd hpay.1 (happroves _)

/-! ### Tasks -/

/-- A task of a processor; a rollback of a payment is fired for payloads that have stopped only. -/
theorem Inv.task {config : ItemConfig N} {q : Processor} {p : ItemProcessor N Item} {n : ℕ}
    {outcome : ItemProcessor.Outcome} (h : Inv s) (hp : s.processor q = some p)
    (hclean : ∀ k doDecline, q = .payment k → p.tasks[n]? = some (.rollbackChanges doDecline) →
      ∀ i, (s.parcel i).paymentProcessor = some k → (s.parcel i).stage.awaitsPayload → s.StoppedAt i)
    (hrun : s.runTask config q p n outcome = some s') : Inv s' := by
  simp only [Parcels.runTask, Option.bind_eq_some_iff, Option.map_eq_some_iff] at hrun
  obtain ⟨t, ht, p', hp', rfl⟩ := hrun
  have hfacts : p'.record.id = p.record.id ∧ (p.Stopped → p'.Stopped) := by
    by_cases hfires : ∃ b, ItemProcessor.Fires t b
    · obtain ⟨b, hb⟩ := hfires
      refine ⟨?_, fun hs => hs.fires ht hb hp'⟩
      obtain ⟨t', rfl, -⟩ := ItemProcessor.runTask_fires hb hp'
      rfl
    · have hquiet := ItemProcessor.task_quiet ht hp' (not_exists.mp hfires)
      exact ⟨hquiet.id, hquiet.stopped⟩
  have hprocessor : Turn s (s.withProcessor q fun _ => p') := by
    have honly : ∀ p₁, s.processor q = some p₁ → p₁ = p := fun p₁ hp₁ => Option.some.inj (hp₁.symm.trans hp)
    cases q with
    | payload i =>
        refine turn_payload (fun p₁ hp₁ => ?_) fun p₁ hp₁ => ?_
        · rw [honly p₁ hp₁]
          exact hfacts.1
        · rw [honly p₁ hp₁]
          exact hfacts.2
    | payment k =>
        have hopen : p.Open → p'.Open := by
          intro ho
          obtain ⟨herase, hun, hcheck⟩ := ho.erase ht
          exact herase.runTask hun hcheck hp'
        by_cases hfires : ∃ b, ItemProcessor.Fires t b
        · obtain ⟨b, hb⟩ := hfires
          obtain ⟨t', hfired, hkind⟩ := ItemProcessor.runTask_fires hb hp'
          have hrecord : p'.record = p.record := by rw [hfired]; rfl
          refine turn_payment (fun p₁ hp₁ => ?_) (fun p₁ hp₁ => ?_) (fun _ p₁ hp₁ => ?_)
            (fun p₁ hp₁ i hi hawaits => ?_) fun _ p₁ hp₁ ho => hopen (honly p₁ hp₁ ▸ ho)
          · rw [honly p₁ hp₁, hrecord]
          · rw [honly p₁ hp₁, hrecord]
            exact id
          · rw [honly p₁ hp₁, hrecord]
            exact id
          · have hresult : p'.itemCommitEvent.result = some b := by
              rw [hfired]
              exact ItemProcessor.fire_result _ b
            cases t with
            | committing => exact .inr fun b' hb' => .inr (Option.some.inj (hb'.symm.trans hresult) ▸ hb)
            | rollbackChanges doDecline => exact .inl (hclean k doDecline rfl ht i hi hawaits)
            | _ => cases hb
        · have hquiet := ItemProcessor.task_quiet ht hp' (not_exists.mp hfires)
          refine turn_leaves (fun p₁ hp₁ => ?_) fun _ p₁ hp₁ ho => hopen (honly p₁ hp₁ ▸ ho)
          rw [honly p₁ hp₁]
          exact leaves_of_quiet hquiet
  have hinv := h.turn hprocessor
  split
  next =>
    refine hinv.turn (turn_withCached (fun q' hq' => ?_) fun hitem j hj _ => ?_)
    · cases hq'
      rfl
    · -- The other parcel has not looked for the payment, so no processor of it exists.
      obtain ⟨k, rfl⟩ : ∃ k, q = .payment k := by
        cases q with
        | payment k => exact ⟨k, rfl⟩
        | payload => cases hitem
      have hk := hinv.made k (by rw [withProcessor_self, hp]; rfl)
      by_cases hkj : k = j
      · rw [hkj]
      · obtain rfl : k = !j := by cases k <;> cases j <;> simp_all
        rw [hinv.early _ (.inl hj.1.2)] at hk
        cases hk
  next => exact hinv


/-! ### The items of a parcel -/

omit [DecidableEq N] in
/-- `destroy()` of a record of the cache, where no payment was paid from it. -/
theorem turn_destroyCached {item : Item} (hnamed : s.Named)
    (hpaid : item = .payment → ∀ k, ¬ s.Paid k) : Turn s (s.destroyCached item) := by
  have hnone : ∀ s' : Parcels N, (item = .payment → ∀ k, ¬ s'.Paid k) → Turn s' (s'.withCached item none) :=
    fun s' hs' => turn_withCached nofun fun hitem k hk => absurd hk (hs' hitem k)
  unfold destroyCached
  split
  next q hq =>
    have hitem := hnamed.objects item q hq
    have hrecord : Turn s (s.withProcessor q fun p => { p with
        record := { p.record with state := .UNDEFINED } }) := by
      cases q with
      | payload i => exact turn_payload (fun _ _ => rfl) fun p _ hs => ⟨hs.processed, hs.approving⟩
      | payment k =>
          refine turn_payment (fun _ _ => rfl) (fun p _ ha => ?_) (fun hk => absurd hk (hpaid hitem.symm k))
            (fun p _ _ _ _ => .inr fun b => .inl) fun _ p _ ho => { ho with }
          rcases ha with ha | ha <;> cases ha
    exact hrecord.trans (hnone _ fun hitem k hk => hpaid hitem k (hrecord.paid hk))
  next => exact hnone s hpaid

omit [DecidableEq N] in
theorem destroyCached_goTo {item : Item} {stage : Stage} :
    (s.goTo i stage).destroyCached item = (s.destroyCached item).goTo i stage := by
  simp only [destroyCached, goTo_cached]
  cases s.cached item with
  | none => rfl
  | some cached => cases cached <;> rfl

omit [DecidableEq N] in
/-- A parcel that has no payment processor yet goes on: with none, with that of the other parcel, or with a
    new one of its own. -/
theorem Inv.enters (h : Inv s) (hearly : (s.parcel i).stage = .lookup .payment ∨ (s.parcel i).stage.asks)
    (hother : ∀ j, j ≠ i → s'.parcel j = s.parcel j) (hcalm : (s'.parcel i).stage.calm)
    (hprocessor : ∀ q, q ≠ .payment i → s'.processor q = s.processor q) (hcached : s'.cached = s.cached)
    (hmade : (s'.processor (.payment i)).isSome = true ↔ (s'.parcel i).paymentProcessor = some i)
    (hnew : ∀ p, s'.processor (.payment i) = some p → p.record.id = .payment ∧ p.Open)
    (hjoin : (s'.parcel i).paymentProcessor = some (!i) → (s.processor (.payment !i)).isSome = true)
    (hasks : (s'.parcel i).stage.asks → (s'.parcel i).paymentProcessor = none)
    (hown : s'.Own i → s.Own i ∨ (s.Own (!i) → ¬ s.MayPay (!i))) : Inv s' := by
  have hnone : (s.parcel i).paymentProcessor = none := h.early i hearly
  have hnot : (!i) ≠ i := by simp
  have hbool : ∀ {j}, j ≠ i → j = !i := fun {j} hj => Bool.eq_not_of_ne hj
  have hmay : s.MayPay i := by
    rw [MayPay]
    rcases hearly with hstage | hstage
    · rw [hstage]
      trivial
    · cases hs : (s.parcel i).stage with
      | reading | creating => trivial
      | _ => rw [hs] at hstage; cases hstage
  -- The other parcel is linked to its own processor, which is as it was.
  have hlink : ∀ k, (s.parcel !i).paymentProcessor = some k → k = !i := fun k hk => hbool fun hki => by
    have := (h.linked _ k hk).2
    rw [hki, hnone] at this
    cases this
  have hpayment : s'.processor (.payment !i) = s.processor (.payment !i) := hprocessor _ (by simp)
  have hstopped : s'.StoppedAt (!i) ↔ s.StoppedAt (!i) := by
    rw [StoppedAt, StoppedAt, hprocessor (.payload !i) fun h => by cases h]
  have hmay' : s'.MayPay (!i) → s.MayPay (!i) := by
    rw [MayPay, MayPay, hother _ hnot]
    exact Stage.mayPay_imp hstopped.mpr
  have hown' : s'.Own (!i) → s.Own (!i) := by
    rw [Own, Own, hother _ hnot]
    exact id
  have hpays : ¬ s'.Pays i := by
    rw [Pays, hcalm.written]
    exact not_approves_nil _
  have hexcluded : s'.Own i → s'.Own (!i) → s'.MayPay (!i) → False := fun hi hj hpay => by
    rcases hown hi with hi | hi
    · exact h.own i hi (hown' hj) hmay (hmay' hpay)
    · exact hi (hown' hj) (hmay' hpay)
  refine {
    named := ⟨fun q p hp => ?_, hcached ▸ h.named.objects⟩
    linked := fun j k hk => ?_
    made := fun k hk => ?_
    early := fun j hj => ?_
    fits := fun j => ?_
    approved := fun j hj => ?_
    once := fun j hj hj' => ?_
    own := fun j hj hj' hpay hpay' => ?_
    ready := fun j hj => ?_
    shown := fun j hj => ?_ }
  · by_cases hq : q = .payment i
    · subst hq
      exact (hnew p hp).1
    · exact h.named.ids q p (hprocessor q hq ▸ hp)
  · by_cases hj : j = i
    · subst hj
      by_cases hkj : k = j
      · subst hkj
        exact ⟨hmade.mpr hk, hk⟩
      · obtain rfl := hbool hkj
        rw [hpayment, hother _ hnot]
        exact ⟨hjoin hk, h.made _ (hjoin hk)⟩
    · obtain rfl := hbool hj
      rw [hother _ hnot] at hk
      obtain rfl := hlink k hk
      rw [hpayment, hother _ hnot]
      exact h.linked _ _ hk
  · by_cases hki : k = i
    · subst hki
      exact hmade.mp hk
    · obtain rfl := hbool hki
      rw [hother _ hnot]
      exact h.made _ (hpayment ▸ hk)
  · by_cases hji : j = i
    · subst hji
      exact hasks (hj.resolve_left hcalm.not_lookup)
    · rw [hother j hji] at hj ⊢
      exact h.early j hj
  · by_cases hji : j = i
    · subst hji
      exact hcalm.fits
    · obtain rfl := hbool hji
      have hblock : s'.blockOf (!i) .payment = s.blockOf (!i) .payment := by
        cases hk : (s.parcel !i).paymentProcessor with
        | none => simp [blockOf, processorOf, hother _ hnot, hk]
        | some k =>
            obtain rfl := hlink k hk
            simp [blockOf, processorOf, hother _ hnot, hk, hpayment]
      rw [Fits, hother _ hnot, hblock]
      exact Stage.fits_imp hstopped.mpr (fun _ => .inr fun _ => .inl) (h.fits _)
  · by_cases hji : j = i
    · exact absurd (hji ▸ hj) hpays
    · obtain rfl := hbool hji
      rw [Pays, hother _ hnot] at hj
      obtain ⟨k, hk, hrecord⟩ := h.approved _ hj
      obtain rfl := hlink k hk
      exact ⟨_, by rw [hother _ hnot, hk], hpayment ▸ hrecord⟩
  · by_cases hji : j = i
    · exact absurd (hji ▸ hj) hpays
    · obtain rfl := hbool hji
      rw [Bool.not_not] at hj'
      exact absurd hj' hpays
  · by_cases hji : j = i
    · subst hji
      exact hexcluded hj hj' hpay'
    · obtain rfl := hbool hji
      rw [Bool.not_not] at hj'
      exact hexcluded hj' hj hpay
  · by_cases hji : j = i
    · subst hji
      obtain ⟨p, hp⟩ := Option.isSome_iff_exists.mp (hmade.mpr hj.1.1)
      exact ⟨p, hp, (hnew p hp).2, fun w again hw => absurd hw hcalm.not_payment⟩
    · obtain rfl := hbool hji
      have hlookup := hj.1.2
      rw [Bool.not_not] at hlookup
      exact absurd hlookup hcalm.not_lookup
  · by_cases hji : j = i
    · exact absurd (hji ▸ hj.2.2) hpays
    · obtain rfl := hbool hji
      have hlookup := hj.1.2
      rw [Bool.not_not] at hlookup
      exact absurd hlookup hcalm.not_lookup

omit [DecidableEq N] in
/-- A parcel that has looked for the payment and has no processor of it: no payment was paid alone. -/
theorem not_paid (hcalm : (s.parcel i).stage.calm) (hnone : (s.parcel i).paymentProcessor = none) :
    ∀ k, ¬ s.Paid k := by
  rintro k ⟨⟨hlink, hlookup⟩, -⟩
  by_cases hki : k = i
  · rw [hki, hnone] at hlink
    cases hlink
  · rw [Bool.eq_not_of_ne hki, Bool.not_not] at hlookup
    exact hcalm.not_lookup hlookup

/-- What a lookup of the payment in the cache needs: an APPROVED record that is there has not expired. -/
def CacheFresh (s : Parcels N) (now : ℤ) : Prop :=
  ∀ r, s.cachedRecord .payment = some r → r.state = .APPROVED → r.isExpired now = false

omit [DecidableEq N] in
/-- Where no processor of the payment is registered, a parcel that has one may not pay, or the cache shows
    its APPROVED record. -/
theorem Inv.unregistered (h : Inv s) (hstage : (s.parcel i).stage = .lookup .payment)
    (hfree : s.lockFree i .payment = true) (hregistered : s.registered i .payment = none)
    (hown : s.Own (!i)) (hpay : s.MayPay (!i)) : s.Shown (!i) := by
  have hlink : (s.parcel !i).paymentProcessor = some (!i) := by
    refine hown.resolve_right fun hasks => ?_
    simp only [lockFree] at hfree
    split at hfree
    next => cases hfree
    next => cases hfree
    next hreading hcreating =>
      cases hs : (s.parcel !i).stage with
      | reading part =>
          cases part with
          | payment => exact hreading hs
          | payload => rw [hs] at hasks; cases hasks
      | creating part =>
          cases part with
          | payment => exact hcreating hs
          | payload => rw [hs] at hasks; cases hasks
      | _ => rw [hs] at hasks; cases hasks
  have halone : s.Alone (!i) := ⟨hlink, by rw [Bool.not_not]; exact hstage⟩
  by_cases hended : (s.parcel !i).stage.ended
  · have hpays : s.Pays (!i) := by
      have hfits := h.fits (!i)
      rw [MayPay] at hpay
      rw [Fits] at hfits
      rw [Pays]
      cases hs : (s.parcel !i).stage with
      | commit writes | committed writes =>
          rw [hs] at hpay hfits
          obtain ⟨k, hk⟩ := hpay
          exact (hfits k hk).2
      | _ => rw [hs] at hended; cases hended
    exact h.shown _ ⟨halone, hpay, hpays⟩
  · -- Its processor waits for the parcel, so it is registered.
    obtain ⟨p, hp, hopen, -⟩ := h.ready _ ⟨halone, hpay, hended⟩
    simp [registered, hp, hopen.removed] at hregistered

omit [DecidableEq N] in
/-- The lookup of the payment. -/
theorem Inv.lookup_payment {now : ℤ} {tooOld : Bool} (h : Inv s)
    (hstage : (s.parcel i).stage = .lookup .payment) (hfree : s.lockFree i .payment = true)
    (hfresh : s.CacheFresh now) : Inv (s.lookup i .payment now tooOld) := by
  have hnone : (s.parcel i).paymentProcessor = none := h.early i (.inl hstage)
  have hunmade : s.processor (.payment i) = none := by
    cases hp : s.processor (.payment i) with
    | none => rfl
    | some p =>
        have hlink := h.made i (by rw [hp]; rfl)
        rw [hnone] at hlink
        cases hlink
  -- The parcel goes on with no processor, and asks for one only where the other parcel may not pay.
  have hgoes : ∀ stage : Stage, stage.calm → (stage.asks → s.Own (!i) → ¬ s.MayPay (!i)) →
      Inv (s.goTo i stage) := by
    intro stage hcalm hown
    have hlink : ((s.goTo i stage).parcel i).paymentProcessor = none := by
      simpa [goTo, withParcel] using hnone
    refine h.enters (.inl hstage) (fun j hj => withParcel_parcel_ne hj) (by rwa [goTo_stage]) (fun _ _ => rfl) rfl
      (by simp [hunmade, hlink]) (fun p hp => by simp [hunmade] at hp) (by simp [hlink]) (fun _ => hlink)
      fun hi => .inr (hown (by simpa using hi.resolve_left (by simp [hlink])))
  unfold lookup
  split
  next q hregistered =>
    have hp : (s.processor (.payment !i)).isSome = true := by
      simp only [registered] at hregistered
      split at hregistered
      next p hp => rw [hp]; rfl
      next => cases hregistered
    refine h.enters (i := i) (.inl hstage) (fun j hj => ?_) (by simp [next, Stage.calm]) (fun _ _ => rfl) rfl ?_
      (fun p hp => ?_) (fun _ => hp) (by simp [next, Stage.asks]) fun hi => ?_
    · rw [goTo, withParcel_parcel_ne hj, withParcel_parcel_ne hj]
    · simp [goTo, withParcel, hunmade]
    · change s.processor (.payment i) = some p at hp
      rw [hunmade] at hp
      cases hp
    · simp [Own, goTo, withParcel, next, Stage.asks] at hi
  next hregistered =>
    have hshown := fun hown hpay => h.unregistered hstage hfree hregistered hown hpay
    have hrecord : s.Shown (!i) → ∃ r, s.cachedRecord .payment = some r ∧ r.state = .APPROVED := by
      rintro ⟨hcached, p, hp, happroved⟩
      exact ⟨p.record, by simp [cachedRecord, hcached, hp], happroved⟩
    split
    next hcached =>
      refine hgoes _ trivial fun _ hown hpay => ?_
      obtain ⟨r, hr, -⟩ := hrecord (hshown hown hpay)
      exact absurd (hr.symm.trans hcached) (fun h => by cases h)
    next record hcached =>
      split
      next hexpired =>
        -- The parcel goes on before the expired record is destroyed.
        have hdestroyed : ∀ stage : Stage, stage.calm → (stage.asks → s.Own (!i) → ¬ s.MayPay (!i)) →
            Inv ((s.destroyCached .payment).goTo i stage) := by
          intro stage hcalm hown
          rw [← destroyCached_goTo]
          refine (hgoes stage hcalm hown).turn (turn_destroyCached (hgoes stage hcalm hown).named fun _ =>
            not_paid (i := i) (by rwa [goTo_stage]) ?_)
          simpa [goTo, withParcel] using hnone
        have hasks : s.Own (!i) → ¬ s.MayPay (!i) := fun hown hpay => by
          obtain ⟨r, hr, happroved⟩ := hrecord (hshown hown hpay)
          obtain rfl : r = record := Option.some.inj (hr.symm.trans hcached)
          rw [hfresh r hr happroved] at hexpired
          cases hexpired
        change Inv (found (s.destroyCached .payment) i .payment none tooOld)
        unfold found
        split
        next => exact hdestroyed _ trivial fun _ => hasks
        next => exact hdestroyed _ trivial fun hn => absurd hn id
      next hexpired =>
        unfold found
        split
        next hpending =>
          refine hgoes _ trivial fun _ hown hpay => ?_
          obtain ⟨r, hr, happroved⟩ := hrecord (hshown hown hpay)
          obtain rfl : r = record := Option.some.inj (hr.symm.trans hcached)
          simp [happroved, ItemState.isPending] at hpending
        next => exact hgoes _ trivial fun hn => absurd hn id

omit [DecidableEq N] in
/-- The lookup of the payload. -/
theorem turn_lookup_payload {now : ℤ} {tooOld : Bool} (hnamed : s.Named)
    (hstage : (s.parcel i).stage = .lookup .payload) : Turn s (s.lookup i .payload now tooOld) := by
  have hgoes : ∀ stage : Stage, stage.calm → ¬ stage.asks → Turn s (s.goTo i stage) := fun stage hcalm hasks =>
    turn_calm (by rw [hstage]; trivial) hcalm fun hn => absurd hn hasks
  unfold lookup
  split
  next hregistered => cases hregistered
  next =>
    split
    next => exact hgoes _ trivial id
    next =>
      have hdestroyed : ∀ stage : Stage, stage.calm → ¬ stage.asks →
          Turn s ((s.destroyCached (.payload i)).goTo i stage) := fun stage hcalm hasks => by
        rw [← destroyCached_goTo]
        exact (hgoes stage hcalm hasks).trans (turn_destroyCached ((hgoes stage hcalm hasks).named hnamed)
          fun hitem => nomatch hitem)
      split
      next =>
        change Turn s (found (s.destroyCached (.payload i)) i .payload none tooOld)
        unfold found
        split
        next => exact hdestroyed _ trivial id
        next => exact hdestroyed _ trivial id
      next =>
        unfold found
        split
        next => exact hgoes _ trivial id
        next => exact hgoes _ trivial id

omit [DecidableEq N] in
/-- `getRecord` has the row. -/
theorem Inv.read {part : Part} {row : Option (StateRecord Item)} {now : ℤ} {tooOld : Bool} (h : Inv s)
    (hstage : (s.parcel i).stage = .reading part) : Inv (s.read i part row now tooOld) := by
  have hcalm : (s.parcel i).stage.calm := by
    rw [hstage]
    trivial
  have hcached : ∀ c, (∀ q, c ≠ some (.object q)) → Turn s (s.withCached (part.item i) c) := fun c hc =>
    turn_withCached (fun q hq => absurd hq (hc q)) fun hitem k hk => by
      obtain rfl : part = .payment := by
        cases part with
        | payment => rfl
        | payload => cases hitem
      exact absurd hk (not_paid hcalm (h.early i (.inr (by rw [hstage]; trivial))) k)
  have hfound : ∀ s' : Parcels N, Turn s s' → (s'.parcel i).stage = (s.parcel i).stage →
      ∀ record, Inv (s'.found i part record tooOld) := by
    intro s' ht hstage' record
    unfold found
    split
    next =>
      refine h.turn (ht.trans (turn_calm (by rwa [hstage']) trivial fun hn => ?_))
      rw [hstage', hstage]
      cases part with
      | payment => trivial
      | payload => cases hn
    next =>
      refine h.turn (ht.trans (turn_calm (by rwa [hstage']) ?_ fun hn => ?_))
      · cases part <;> trivial
      · cases part <;> cases hn
  unfold Parcels.read
  split
  next => exact hfound s (.refl s) rfl _
  next record =>
    split
    next => exact hfound _ (hcached none nofun) rfl _
    next => exact hfound _ (hcached (some (.copy record)) fun _ hq => nomatch hq) rfl _

omit [DecidableEq N] in
/-- A parcel makes a processor. -/
theorem Inv.create {part : Part} {record : Option (StateRecord Item)} (h : Inv s)
    (hstage : (s.parcel i).stage = .creating part) (hid : ∀ r ∈ record, r.id = part.item i) :
    Inv (s.create setup i part record) := by
  unfold Parcels.create
  split
  next => exact h.turn (turn_halts trivial)
  next record =>
    cases part with
    | payment =>
        have hasks : (s.parcel i).stage.asks := by
          rw [hstage]
          trivial
        refine h.enters (i := i) (.inr hasks) (fun j hj => ?_) (by simp [next, Stage.calm]) (fun q hq => ?_) rfl ?_
          (fun p hp => ?_) (fun hlink => ?_) (by simp [next, Stage.asks]) fun _ => .inl (.inr hasks)
        · exact (withParcel_parcel_ne hj).trans (withParcel_parcel_ne hj)
        · exact Function.update_of_ne hq _ _
        · simp [goTo, withParcel]
        · change Function.update s.processor (.payment i) (some _) (.payment i) = some p at hp
          rw [Function.update_self] at hp
          obtain rfl := Option.some.inj hp
          exact ⟨hid record rfl, ItemProcessor.new_open ..⟩
        · simp [goTo, withParcel] at hlink
    | payload =>
        have hcalm : (s.parcel i).stage.calm := by
          rw [hstage]
          trivial
        have hmade := turn_update (s := s) (i := i)
          (c := some (.new false (setup.expiresAt (.payload i)) record))
          (fun _ p hp => Option.some.inj hp ▸ hid record rfl) (.inl hcalm)
        refine h.turn ((hmade.trans (turn_withParcel rfl (leads_self _ i))).trans
          (turn_calm ?_ trivial (fun h => by cases h)))
        simpa [withParcel] using hcalm

/-! ### Runs -/

/-- The parcel breaks its payload off as it goes on. -/
def BreaksPayload (setup : ParcelSetup N) (s : Parcels N) (i : Bool) : Prop :=
  match (s.parcel i).stage with
  | .payment _ _ => (∃ b, s.blockOf i .payment = some b ∧ b.success = false) ∨ setup.sameOrigin i = true
  | .rollback _ => True
  | _ => False

/-- The steps that keep the payment: a payload that is broken off is not committing yet; a payment is rolled
    back for payloads that have stopped; and no expired APPROVED record of the payment is in the cache as a
    parcel looks for it. -/
def Clean (setup : ParcelSetup N) (s : Parcels N) : Action N → Prop
  | .resume i => s.BreaksPayload setup i → ∀ p, s.processor (.payload i) = some p → ¬ p.Approving
  | .task (.payment k) n _ => ∀ p doDecline, s.processor (.payment k) = some p →
      p.tasks[n]? = some (.rollbackChanges doDecline) →
        ∀ i, (s.parcel i).paymentProcessor = some k → (s.parcel i).stage.awaitsPayload → s.StoppedAt i
  | .lookup i now _ => (s.parcel i).stage = .lookup .payment → s.CacheFresh now
  | _ => True

theorem step_inv {a : Action N} (h : Inv s) (hclean : Clean setup s a) (hstep : step setup s a = some s') :
    Inv s' := by
  cases a with
  | lookup i now tooOld =>
      simp only [step] at hstep
      split at hstep
      next part hstage =>
        simp only [Option.ite_none_right_eq_some, Option.some.injEq] at hstep
        obtain ⟨hfree, rfl⟩ := hstep
        cases part with
        | payment => exact h.lookup_payment hstage hfree (hclean hstage)
        | payload => exact h.turn (turn_lookup_payload h.named hstage)
      next => cases hstep
  | read i row now tooOld =>
      simp only [step] at hstep
      split at hstep
      next part hstage =>
        simp only [Option.ite_none_right_eq_some, Option.some.injEq] at hstep
        obtain ⟨-, rfl⟩ := hstep
        exact h.read hstage
      next => cases hstep
  | create i record =>
      simp only [step] at hstep
      split at hstep
      next part hstage =>
        simp only [Option.ite_none_right_eq_some, Option.some.injEq] at hstep
        obtain ⟨hid, rfl⟩ := hstep
        exact h.create hstage hid
      next => cases hstep
  | process i =>
      simp only [step] at hstep
      split at hstep
      next hstage => exact Option.some.inj hstep ▸ h.turn (turn_process setup hstage (h.ready i))
      next => cases hstep
  | resume i =>
      simp only [step, Option.bind_eq_some_iff] at hstep
      obtain ⟨k, hk, hstep⟩ := hstep
      exact h.turn (turn_resume hk (h.fits i) hclean hstep)
  | expire i => exact h.turn (turn_expire (h.ready i) hstep)
  | begin i =>
      simp only [step] at hstep
      split at hstep
      next hstage => exact Option.some.inj hstep ▸ h.turn (turn_begin hstage (h.fits i))
      next => cases hstep
  | subitems i ok now resync =>
      simp only [step] at hstep
      split at hstep
      next part block writes hstage =>
        obtain rfl := Option.some.inj hstep
        split
        next =>
          cases part with
          | payment => exact h.runBlock_payment hstage
          | payload => exact h.turn (turn_runBlock_payload h.named hstage (h.fits i))
        next => exact h.turn (turn_halts trivial)
      next => cases hstep
  | saved i ok =>
      simp only [step] at hstep
      split at hstep
      next part writes hstage =>
        obtain rfl := Option.some.inj hstep
        split
        next => exact h.turn (turn_blockDone hstage (h.fits i))
        next => exact h.turn (turn_halts trivial)
      next => cases hstep
  | committed i ok =>
      simp only [step] at hstep
      split at hstep
      next writes hstage =>
        obtain rfl := Option.some.inj hstep
        split
        next => exact h.turn (turn_committed hstage)
        next => exact h.turn turn_failed
      next => cases hstep
  | rolledBack i =>
      simp only [step] at hstep
      split at hstep
      next => exact Option.some.inj hstep ▸ h.turn turn_failed
      next => cases hstep
  | parcelVote i node state isU =>
      obtain rfl := Option.some.inj hstep
      unfold Parcels.vote
      dsimp only
      split
      next q _ =>
        exact h.turn (turn_quiet (fun p _ => ItemProcessor.vote_quiet _ _ _ p) fun p _ ho => ho.vote _ _ _)
      next =>
        refine h.turn ?_
        cases isU with
        | true => exact turn_withParcel rfl (leads_self s i)
        | false => exact turn_withParcel rfl (leads_self s i)
  | vote q node state =>
      simp only [step, Option.map_eq_some_iff] at hstep
      obtain ⟨_, -, rfl⟩ := hstep
      exact h.turn (turn_quiet (fun p _ => ItemProcessor.vote_quiet _ _ _ p) fun p _ ho => ho.vote _ _ _)
  | task q n outcome =>
      simp only [step, Option.bind_eq_some_iff] at hstep
      obtain ⟨p, hp, hrun⟩ := hstep
      refine h.task hp (fun k doDecline hq => ?_) hrun
      subst hq
      exact hclean p doDecline hp
  | poll q expired =>
      simp only [step, Option.map_eq_some_iff] at hstep
      obtain ⟨_, -, rfl⟩ := hstep
      exact h.turn (turn_quiet (fun p _ => ItemProcessor.poll_quiet _ p) fun p _ ho => ho.poll _)
  | checkConsensus q expired =>
      simp only [step, Option.map_eq_some_iff] at hstep
      obtain ⟨_, -, rfl⟩ := hstep
      exact h.turn (turn_quiet (fun p _ => ItemProcessor.checkConsensus_quiet _ _ p) fun p _ ho =>
        ho.checkConsensus _ _)

omit [DecidableEq N] in
theorem start_inv (cached : Item → Option (StateRecord Item)) : Inv (start cached : Parcels N) := by
  have hlink : ∀ i, ((start cached : Parcels N).parcel i).paymentProcessor = none := fun _ => rfl
  have hstage : ∀ i, ((start cached : Parcels N).parcel i).stage = .lookup .payment := fun _ => rfl
  have hprocessor : ∀ q, (start cached : Parcels N).processor q = none := fun _ => rfl
  have hpays : ∀ i, ¬ (start cached : Parcels N).Pays i := fun i => not_approves_nil _
  have halone : ∀ i, ¬ (start cached : Parcels N).Alone i := fun i hi => by simp [Alone, hlink] at hi
  refine {
    named := ⟨fun q p hp => by simp [hprocessor] at hp, fun item q hq => ?_⟩
    linked := fun i k hk => by simp [hlink] at hk
    made := fun k hk => by simp [hprocessor] at hk
    early := fun i _ => hlink i
    fits := fun i => trivial
    approved := fun i hi => absurd hi (hpays i)
    once := fun i hi => absurd hi (hpays i)
    own := fun i hi => by simp [Own, hlink, hstage, Stage.asks] at hi
    ready := fun i hi => absurd hi.1 (halone i)
    shown := fun i hi => absurd hi.1 (halone i) }
  change (cached item).map Cached.copy = _ at hq
  cases hc : cached item <;> simp [hc] at hq

/-- At most one payload is committed APPROVED, and each with its payment: the transactions that the parcels
    have committed. -/
structure PaysOnce (s : Parcels N) : Prop where
  once : ∀ i j writes writes' k l, (s.parcel i).stage = .committed writes →
    (s.parcel j).stage = .committed writes' → Approves writes (.payload k) → Approves writes' (.payload l) → k = l
  paid : ∀ i writes k, (s.parcel i).stage = .committed writes → Approves writes (.payload k) →
    Approves writes .payment

omit [DecidableEq N] in
theorem Inv.paysOnce (h : Inv s) : PaysOnce s := by
  have hfits : ∀ i writes k, (s.parcel i).stage = .committed writes → Approves writes (.payload k) →
      k = i ∧ s.Pays i ∧ s.MayPay i := by
    intro i writes k hstage hk
    have hf := h.fits i
    rw [Fits, hstage] at hf
    rw [Pays, MayPay, hstage]
    exact ⟨(hf k hk).1, (hf k hk).2, k, hk⟩
  constructor
  case paid =>
    intro i writes k hstage hk
    obtain ⟨-, hpays, -⟩ := hfits i writes k hstage hk
    rwa [Pays, hstage] at hpays
  case once =>
    intro i j writes writes' k l hi hj hk hl
    obtain ⟨rfl, hpi, hmi⟩ := hfits i writes k hi hk
    obtain ⟨rfl, hpj, hmj⟩ := hfits j writes' l hj hl
    by_contra hne
    obtain rfl : l = !k := Bool.eq_not_of_ne fun h => hne h.symm
    -- Both have saved the payment: with one processor it was approved twice, with two both may pay.
    obtain ⟨m, hm, -⟩ := h.approved k hpi
    obtain ⟨n, hn, -⟩ := h.approved (!k) hpj
    have hmn : m ≠ n := fun hmn => h.once k hpi hpj (by rw [hm, hn, hmn])
    have hmm := (h.linked k m hm).2
    have hnn := (h.linked _ n hn).2
    by_cases hmk : m = k
    · subst hmk
      obtain rfl : n = !m := Bool.eq_not_of_ne fun h => hmn h.symm
      exact h.own m (.inl hm) (.inl hn) hmi hmj
    · obtain rfl : m = !k := Bool.eq_not_of_ne hmk
      exact hmn (Option.some.inj (hmm.symm.trans hn))

/-- CODE DEFECT (one payment pays one payload): in every run of two parcels with the same payment whose steps are
    clean, at most one payload is committed APPROVED, and only in a transaction that commits the payment
    APPROVED. -/
theorem paysOnce_run {setup : ParcelSetup N} {cached : Item → Option (StateRecord Item)}
    {actions : List (Action N)} (hclean : Run.Meets (step setup) (Clean setup) (start cached) actions)
    (hrun : Run.run (step setup) (start cached) actions = some s) : PaysOnce s :=
  (Run.invariant (fun _ _ _ h hclean hstep => step_inv h hclean hstep) (start_inv cached) hclean hrun).paysOnce

/-! ### Two runs of four nodes -/

/-- The records that the transaction of a parcel has saved, once it is committed. -/
def saved (s : Parcels N) (i : Bool) : List (StateRecord Item) :=
  match (s.parcel i).stage with
  | .committed writes => writes.filterMap fun
      | .update record => some record
      | .delete _ => none
  | _ => []

omit [DecidableEq N] in
theorem mem_saved {r : StateRecord Item} (h : r ∈ s.saved i) :
    ∃ writes, (s.parcel i).stage = .committed writes ∧ .update r ∈ writes := by
  unfold saved at h
  split at h
  next writes hstage =>
    obtain ⟨write, hwrite, hr⟩ := List.mem_filterMap.mp h
    cases write with
    | update record => exact ⟨writes, hstage, Option.some.inj hr ▸ hwrite⟩
    | delete => cases hr
  next => cases h

/-- Four nodes, two negative or three positive votes decide. -/
def fourNodes : ParcelSetup ℕ := ⟨⟨0, 4, 2, 3⟩, fun _ => 1000, fun _ => false⟩

/-- A record of an item that the ledger has just made. -/
def newRecord (item : Item) : StateRecord Item := ⟨1, 0, item, .PENDING, 0, 100, false⟩

/-- A parcel looks for its payload, makes its processor and processes. -/
def join (i : Bool) : List (Action ℕ) :=
  [.lookup i 0 false, .read i none 0 false, .create i (some (newRecord (.payload i))), .process i]

/-- Three nodes vote for an item, and its commit block is fired. -/
def approveItem (i : Bool) (part : Part) : List (Action ℕ) :=
  let q := match part with
    | .payment => Processor.payment i
    | .payload => Processor.payload i
  [1, 2, 3].map (fun node => .parcelVote i node .PENDING_POSITIVE (part = .payment)) ++
    [.task q 1 .done, .task q 1 .done]

/-- Both waits of a parcel are answered, and its transaction runs. -/
def transact (i : Bool) : List (Action ℕ) :=
  [.resume i, .resume i, .begin i, .subitems i true 10 false, .saved i true, .subitems i true 10 false,
    .saved i true, .committed i true]

/-- The first parcel makes the processor of the payment. -/
def makePayment : List (Action ℕ) :=
  [.lookup false 0 false, .read false none 0 false, .create false (some (newRecord .payment))]

/-- A test of `Clean` that can be computed. -/
def cleanTest (setup : ParcelSetup N) (s : Parcels N) : Action N → Bool
  | .resume i =>
      match (s.parcel i).stage with
      | .payment _ _ => s.blockOf i .payment = some .commit ∧ ¬ setup.sameOrigin i
      | .rollback _ => false
      | _ => true
  | .task (.payment k) n _ => (s.processor (.payment k)).all fun p =>
      match p.tasks[n]? with
      | some (.rollbackChanges _) => false
      | _ => true
  | .lookup _ _ _ => (s.cachedRecord .payment).isNone
  | _ => true

omit [DecidableEq N] in
theorem clean_of_test {a : Action N} (h : cleanTest setup s a = true) : Clean setup s a := by
  cases a with
  | resume i =>
      intro hbreaks
      simp only [BreaksPayload] at hbreaks
      simp only [cleanTest] at h
      split at h
      next w again hstage =>
        rw [hstage] at hbreaks
        obtain ⟨hblock, hsame⟩ := of_decide_eq_true h
        rcases hbreaks with ⟨b, hb, hfailed⟩ | hbreaks
        · obtain rfl := Option.some.inj (hblock.symm.trans hb)
          cases hfailed
        · exact absurd hbreaks hsame
      next => cases h
      next hpayment hrollback =>
        split at hbreaks
        next w again hstage => exact absurd hstage (hpayment w again)
        next w hstage => exact absurd hstage (hrollback w)
        next => cases hbreaks
  | task q n outcome =>
      cases q with
      | payment k =>
          intro p doDecline hp ht
          simp [cleanTest, hp, ht] at h
      | payload => trivial
  | lookup i now tooOld =>
      intro _ r hr
      simp [cleanTest, hr] at h
  | _ => trivial

/-- One parcel pays its payload. -/
def paidRun : List (Action ℕ) :=
  makePayment ++ join false ++ approveItem false .payment ++ approveItem false .payload ++ transact false

theorem paysOnce_run_paid : ∃ s, Run.run (step fourNodes) (start fun _ => none) paidRun = some s ∧
    PaysOnce s ∧ (s.saved false).map (fun r => (r.id, r.state)) =
      [(.payment, .APPROVED), (.payload false, .APPROVED)] := by
  have hend : (Run.run (step fourNodes) (start fun _ => none) paidRun).map
      (fun s => (s.saved false).map fun r => (r.id, r.state)) =
        some [(.payment, .APPROVED), (.payload false, .APPROVED)] := rfl
  obtain ⟨s, hs, hsaved⟩ := Option.map_eq_some_iff.mp hend
  exact ⟨s, hs, paysOnce_run (Run.meets_of_passes (fun _ _ => clean_of_test) rfl) hs, hsaved⟩

/-- Two parcels find one payment. Both payloads have fired their commit blocks when the check of the payment
    reaches the limit of quantas and its rollback is fired: both transactions run. -/
def quantasRun : List (Action ℕ) :=
  makePayment ++ join false ++ [.lookup true 0 false] ++ join true ++ approveItem false .payload ++
    approveItem true .payload ++ [.task (.payment false) 0 .done, .task (.payment false) 0 .quantasLimit,
      .task (.payment false) 0 .done] ++ transact false ++ transact true

/-- Both payloads are committed APPROVED, and the payment is destroyed. -/
theorem pays_twice : ¬ ∀ (actions : List (Action ℕ)) s,
    Run.run (step fourNodes) (start fun _ => none) actions = some s → PaysOnce s := by
  have hend : (Run.run (step fourNodes) (start fun _ => none) quantasRun).map
      (fun s => (s.saved false, s.saved true)) =
        some ([⟨1, 0, .payload false, .APPROVED, 0, 1000, false⟩],
          [⟨1, 0, .payload true, .APPROVED, 0, 1000, false⟩]) := rfl
  obtain ⟨s, hs, hsaved⟩ := Option.map_eq_some_iff.mp hend
  obtain ⟨hfirst, hsecond⟩ := Prod.mk.inj hsaved
  intro h
  obtain ⟨writes, hstage, hwrite⟩ := mem_saved (hfirst ▸ List.mem_singleton_self _)
  obtain ⟨writes', hstage', hwrite'⟩ := mem_saved (hsecond ▸ List.mem_singleton_self _)
  have := (h quantasRun s hs).once false true writes writes' false true hstage hstage' ⟨_, hwrite, rfl, rfl⟩
    ⟨_, hwrite', rfl, rfl⟩
  cases this

end Universa.Node.Parcels
