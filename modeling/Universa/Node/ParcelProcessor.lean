import Universa.Lib.Run
import Universa.Node.ItemProcessor

/-! Two `ParcelProcessor`s of one node whose parcels have the same payment item and different payloads
    (`parcelprocessor.js`), the `ItemProcessor`s that they wait for, the cache of the ledger and the
    transactions of the parcels. The payload of a parcel is no other parcel's, and the processors of the
    three items are those that the parcels ask for. A parcel can always continue (no step of it sets
    EMERGENCY_BREAK), so its `processingState` decides nothing; of its run after the transaction nothing is
    modelled. An exception in `process` ends the parcel. -/

namespace Universa.Node

/-- The payment item of both parcels, and the payload of each. -/
inductive Item where
  | payment
  | payload (parcel : Bool)
  deriving DecidableEq

/-- The processors: one of the payment that the parcel has made, and that of its payload. -/
inductive Processor where
  | payment (parcel : Bool)
  | payload (parcel : Bool)
  deriving DecidableEq

/-- `itemId`. -/
def Processor.item : Processor → Item
  | payment _ => .payment
  | payload parcel => .payload parcel

/-- The items of one parcel. -/
inductive Part where
  | payment
  | payload
  deriving DecidableEq

/-- The item of a parcel. -/
def Part.item (parcel : Bool) : Part → Item
  | payment => .payment
  | payload => .payload parcel

/-- A record in the cache of the ledger: the object that a processor holds, or one of its own. -/
inductive Cached where
  | object (processor : Processor)
  | copy (record : StateRecord Item)

/-- A statement of a transaction on the record of a payment or payload. -/
inductive Write where
  | update (record : StateRecord Item)
  | delete (record : StateRecord Item)

/-- Where `parcelDownloaded`, `process` and its transaction are. `payment` waits for the commit event of the
    payment, after an emergency break when `again`; `payload` for that of the payload; `rollback` for the
    new event of the payment after the payload has expired; `broken` for that of the payload after its
    emergency break. `block` and `saving` run a block of the transaction before and after the change of the
    record, with what the transaction has written. -/
inductive Stage where
  | lookup (part : Part)
  | reading (part : Part)
  | creating (part : Part)
  | scheduled
  | payment (itemCommit : Awaiting Block) (again : Bool)
  | payload (itemCommit : Awaiting Block)
  | rollback (itemCommit : Awaiting Block)
  | broken (itemCommit : Awaiting Block)
  | transaction
  | block (part : Part) (block : Block) (writes : List Write)
  | saving (part : Part) (writes : List Write)
  | commit (writes : List Write)
  | rollingBack
  | committed (writes : List Write)
  | finished

/-- `ParcelProcessor`. Its payment processor is named by the parcel that has made it. -/
structure ParcelProcessor (N : Type) where
  stage : Stage
  paymentProcessor : Option Bool
  payloadProcessor : Bool
  paymentDelayedVotes : List (N × ItemState)
  payloadDelayedVotes : List (N × ItemState)

/-- What is fixed: the network, the expiration of the items, and whether the payload of a parcel has the
    origin of the payment. -/
structure ParcelSetup (N : Type) where
  config : ItemConfig N
  expiresAt : Item → ℤ
  sameOrigin : Bool → Bool

/-- Both parcels, the processors that exist, and the cache. -/
structure Parcels (N : Type) where
  parcel : Bool → ParcelProcessor N
  processor : Processor → Option (ItemProcessor N Item)
  cached : Item → Option Cached

namespace Parcels
variable {N : Type}

/-- Both parcels are downloaded. -/
def start (cached : Item → Option (StateRecord Item)) : Parcels N where
  parcel _ := ⟨.lookup .payment, none, false, [], []⟩
  processor _ := none
  cached item := (cached item).map .copy

/-- A parcel changes. -/
def withParcel (s : Parcels N) (i : Bool) (f : ParcelProcessor N → ParcelProcessor N) : Parcels N :=
  { s with parcel := Function.update s.parcel i (f (s.parcel i)) }

/-- A parcel goes on to a stage. -/
def goTo (s : Parcels N) (i : Bool) (stage : Stage) : Parcels N :=
  s.withParcel i fun parcel => { parcel with stage := stage }

/-- A processor changes. -/
def withProcessor (s : Parcels N) (q : Processor) (f : ItemProcessor N Item → ItemProcessor N Item) :
    Parcels N :=
  { s with processor := Function.update s.processor q ((s.processor q).map f) }

/-- `putToCache(record)`, and `delete` of the cache. -/
def withCached (s : Parcels N) (item : Item) (cached : Option Cached) : Parcels N :=
  { s with cached := Function.update s.cached item cached }

/-- The processor of an item of a parcel. -/
def processorOf (s : Parcels N) (i : Bool) : Part → Option Processor
  | .payment => (s.parcel i).paymentProcessor.map .payment
  | .payload => if (s.parcel i).payloadProcessor then some (.payload i) else none

/-- The block that the commit event of an item of a parcel holds. -/
def blockOf (s : Parcels N) (i : Bool) (part : Part) : Option Block :=
  (s.processorOf i part).bind fun q => (s.processor q).bind fun p => p.itemCommitEvent.result

/-- `await` of the commit event of an item of a parcel. -/
def awaitBlock (s : Parcels N) (i : Bool) (part : Part) : Option (Awaiting Block × Option (Option Block)) :=
  (s.processorOf i part).bind fun q => (s.processor q).map fun p =>
    (p.itemCommitEvent.await, p.itemCommitEvent.outcome p.itemCommitEvent.await)

/-- What a call of `await` of the commit event of an item has come to. -/
def outcomeOf (s : Parcels N) (i : Bool) (part : Part) (w : Awaiting Block) : Option (Option Block) :=
  (s.processorOf i part).bind fun q => (s.processor q).bind fun p => p.itemCommitEvent.outcome w

/-- `parcelCommitEvent.fire(success)` of an item of a parcel. -/
def fireParcelCommit (s : Parcels N) (i : Bool) (part : Part) (success : Bool) : Parcels N :=
  match s.processorOf i part with
  | some q => s.withProcessor q fun p => { p with parcelCommitEvent := p.parcelCommitEvent.fire success }
  | none => s

/-! ### `parcelDownloaded` -/

/-- The record of the cache, as it is. -/
def cachedRecord (s : Parcels N) (item : Item) : Option (StateRecord Item) :=
  (s.cached item).bind fun
    | .object q => (s.processor q).map (·.record)
    | .copy record => some record

/-- The processor of an item in `node.processors`. The parcel itself has asked for none yet. -/
def registered (s : Parcels N) (i : Bool) : Part → Option Processor
  | .payment =>
      match s.processor (.payment !i) with
      | some p => if p.removed then none else some (.payment !i)
      | none => none
  | .payload => none

/-- The stage after `checkItemInternal` of an item. -/
def next : Part → Stage
  | .payment => .lookup .payload
  | .payload => .scheduled

/-- The lock of an item is free. -/
def lockFree (s : Parcels N) (i : Bool) : Part → Bool
  | .payment =>
      match (s.parcel !i).stage with
      | .reading .payment | .creating .payment => false
      | _ => true
  | .payload => true

/-- `destroy()` of a record of the cache. -/
def destroyCached (s : Parcels N) (item : Item) : Parcels N :=
  match s.cached item with
  | some (.object q) =>
      (s.withProcessor q fun p => { p with record := { p.record with state := .UNDEFINED } }).withCached item
        none
  | _ => s.withCached item none

/-- `checkItemInternal` with the record that `getRecord` found. -/
def found (s : Parcels N) (i : Bool) (part : Part) (record : Option (StateRecord Item)) (tooOld : Bool) :
    Parcels N :=
  if (record.all fun r => r.state.isPending) ∧ ¬ tooOld then s.goTo i (.creating part)
  else s.goTo i (next part)

/-- `checkItemInternal` of an item up to the first await. -/
def lookup (s : Parcels N) (i : Bool) (part : Part) (now : ℤ) (tooOld : Bool) : Parcels N :=
  match s.registered i part with
  | some _ =>
      (s.withParcel i fun parcel => { parcel with paymentProcessor := some !i }).goTo i (next part)
  | none =>
      match s.cachedRecord (part.item i) with
      | none => s.goTo i (.reading part)
      | some record =>
          if record.isExpired now then (s.destroyCached (part.item i)).found i part none tooOld
          else s.found i part (some record) tooOld

/-- `getRecord` has the row. -/
def read (s : Parcels N) (i : Bool) (part : Part) (row : Option (StateRecord Item)) (now : ℤ)
    (tooOld : Bool) : Parcels N :=
  match row with
  | none => s.found i part none tooOld
  | some record =>
      if record.isExpired now then (s.withCached (part.item i) none).found i part none tooOld
      else (s.withCached (part.item i) (some (.copy record))).found i part (some record) tooOld

/-- The new processor with the record that `findOrCreate` answers; an exception where it does not. -/
def create (setup : ParcelSetup N) (s : Parcels N) (i : Bool) (part : Part)
    (record : Option (StateRecord Item)) : Parcels N :=
  match record with
  | none => s.goTo i .finished
  | some record =>
      let processor : ItemProcessor N Item := .new (part = .payment) (setup.expiresAt (part.item i)) record
      match part with
      | .payment =>
          ({ s with processor := Function.update s.processor (.payment i) (some processor) }.withParcel i
            fun parcel => { parcel with paymentProcessor := some i }).goTo i (next part)
      | .payload =>
          ({ s with processor := Function.update s.processor (.payload i) (some processor) }.withParcel i
            fun parcel => { parcel with payloadProcessor := true }).goTo i (next part)

/-! ### `process` -/
variable [DecidableEq N]

/-- The votes that came before a processor. -/
def delayedVotes (config : ItemConfig N) (votes : List (N × ItemState)) (p : ItemProcessor N Item) :
    ItemProcessor N Item :=
  votes.foldl (fun p vote => p.vote config vote.1 vote.2) p

/-- Await of the payload after its emergency break, with no timeout. -/
def awaitBroken (s : Parcels N) (i : Bool) : Parcels N :=
  match s.awaitBlock i .payload with
  | none | some (_, some none) => s.goTo i .finished
  | some (w, _) => s.goTo i (.broken w)

/-- `payloadProcessor.emergencyBreak()` and the await after it. -/
def breakPayload (config : ItemConfig N) (s : Parcels N) (i : Bool) : Parcels N :=
  (s.withProcessor (.payload i) (·.emergencyBreak config)).awaitBroken i

/-- The catch of the await of the payload: the payment is rolled back. -/
def payloadExpired (s : Parcels N) (i k : Bool) : Parcels N :=
  let s := s.fireParcelCommit i .payment false
  let s := s.withProcessor (.payment k) fun p =>
    { p with
      itemCommitEvent := p.itemCommitEvent.renew i
      parcelCommitEvent := p.parcelCommitEvent.renew i
      itemErrors := true }.rollback true
  let s := s.withProcessor (.payload i) fun p => { p with itemCommitEvent := p.itemCommitEvent.renew i }
  match s.awaitBlock i .payment with
  | none | some (_, some none) => s.goTo i .finished
  | some (w, _) => s.goTo i (.rollback w)

/-- Await of the payload. -/
def awaitPayload (s : Parcels N) (i k : Bool) : Parcels N :=
  match s.awaitBlock i .payload with
  | none => s.goTo i .finished
  | some (_, some none) => s.payloadExpired i k
  | some (w, _) => s.goTo i (.payload w)

/-- After the await of the payment. -/
def afterPayment (setup : ParcelSetup N) (s : Parcels N) (i k : Bool) : Parcels N :=
  match s.blockOf i .payment, (s.parcel i).payloadProcessor with
  | some block, true =>
      if block.success then
        if setup.sameOrigin i then
          (s.withProcessor (.payload i) fun p =>
            { p with itemErrors := true }.emergencyBreak setup.config).awaitPayload i k
        else
          let votes := (s.parcel i).payloadDelayedVotes
          let s := s.withProcessor (.payload i) fun p =>
            delayedVotes setup.config votes (p.forceChecking true)
          (s.withParcel i fun parcel => { parcel with payloadDelayedVotes := [] }).awaitPayload i k
      else s.breakPayload setup.config i
  | _, _ => s.goTo i .finished

/-- The catch of the await of the payment: an emergency break, and a second await. -/
def breakPayment (config : ItemConfig N) (s : Parcels N) (i k : Bool) : Parcels N :=
  let s := s.withProcessor (.payment k) (·.emergencyBreak config)
  match s.awaitBlock i .payment with
  | none | some (_, some none) => s.goTo i .finished
  | some (w, _) => s.goTo i (.payment w true)

/-- `process()` up to the first await. -/
def process (setup : ParcelSetup N) (s : Parcels N) (i : Bool) : Parcels N :=
  match (s.parcel i).paymentProcessor with
  | none => s.goTo i .finished
  | some k =>
      let votes := (s.parcel i).paymentDelayedVotes
      let s := s.withProcessor (.payment k) (delayedVotes setup.config votes)
      let s := s.withParcel i fun parcel => { parcel with paymentDelayedVotes := [] }
      match s.awaitBlock i .payment with
      | none => s.goTo i .finished
      | some (_, some none) => s.breakPayment setup.config i k
      | some (w, _) => s.goTo i (.payment w false)

/-- A parcel goes on after an await that was answered. -/
def resume (setup : ParcelSetup N) (s : Parcels N) (i k : Bool) : Option (Parcels N) :=
  match (s.parcel i).stage with
  | .payment w _ =>
      (s.outcomeOf i .payment w).bind fun block => block.map fun _ => s.afterPayment setup i k
  | .payload w =>
      (s.outcomeOf i .payload w).bind fun block => block.map fun _ => s.goTo i .transaction
  | .rollback w =>
      (s.outcomeOf i .payment w).bind fun block => block.map fun _ => s.breakPayload setup.config i
  | .broken w =>
      (s.outcomeOf i .payload w).bind fun block => block.map fun _ => s.goTo i .transaction
  | _ => none

/-- The promise that a parcel waits for. -/
def waitsFor (s : Parcels N) (i : Bool) : Option (Processor × Option Bool) :=
  match (s.parcel i).stage with
  | .payment ⟨event, none⟩ _ | .rollback ⟨event, none⟩ => (s.processorOf i .payment).map fun q => (q, event)
  | .payload ⟨event, none⟩ | .broken ⟨event, none⟩ => (s.processorOf i .payload).map fun q => (q, event)
  | _ => none

/-- A parcel goes on after an await that was rejected. -/
def interrupt (config : ItemConfig N) (s : Parcels N) (i : Bool) : Parcels N :=
  match (s.parcel i).stage, (s.parcel i).paymentProcessor with
  | .payment _ false, some k => s.breakPayment config i k
  | .payload _, some k => s.payloadExpired i k
  | _, _ => s.goTo i .finished

/-- The timer of an await of a parcel: the promise is rejected if nothing was fired, and at once all go on
    that wait for it. -/
def expire (config : ItemConfig N) (s : Parcels N) (i : Bool) : Option (Parcels N) :=
  match (s.parcel i).stage, s.waitsFor i with
  | .payment _ false, some (q, event) | .payload _, some (q, event) =>
      (s.processor q).bind fun p =>
        if (p.itemCommitEvent.object event).promise.isNone then
          let both := s.waitsFor (!i) = some (q, event)
          let s := s.withProcessor q fun p => { p with itemCommitEvent := p.itemCommitEvent.reject event }
          let s := s.interrupt config i
          some (if both then s.interrupt config !i else s)
        else none
  | _, _ => none

/-! ### The transaction -/

/-- An exception in the transaction, or the end of it: the parcel answers to both processors. -/
def fireBoth (s : Parcels N) (i : Bool) (success : Bool) : Parcels N :=
  (s.fireParcelCommit i .payment success).fireParcelCommit i .payload success

/-- The transaction calls the block of an item. -/
def callBlock (s : Parcels N) (i : Bool) (part : Part) (writes : List Write) : Parcels N :=
  match s.blockOf i part with
  | some block => s.goTo i (.block part block writes)
  | none => s.goTo i .rollingBack

/-- The change of the record by a block, and the statement that saves it. -/
def changeRecord (block : Block) (now : ℤ) (p : ItemProcessor N Item) :
    Except LedgerError (StateRecord Item × Write) :=
  match block with
  | .commit => (p.record.approve (some p.itemExpiresAt) false).map fun r => (r, .update r)
  | .rollback true => (p.record.decline now false).map fun r => (r, .update r)
  | .rollback false =>
      let r := { p.record with state := .UNDEFINED }
      .ok (r, .delete r)

/-- A block after the subitems, up to the save of the record; a commit notes an item to resync if this
    node voted negative. -/
def runBlock (config : ItemConfig N) (s : Parcels N) (i : Bool) (part : Part) (block : Block)
    (writes : List Write) (now : ℤ) (resync : Bool) : Parcels N :=
  match s.processorOf i part with
  | none => s.goTo i .rollingBack
  | some q =>
      match s.processor q with
      | none => s.goTo i .rollingBack
      | some p =>
          match changeRecord block now p with
          | .error _ => s.goTo i .rollingBack
          | .ok (record, write) =>
              let s := s.withProcessor q fun p =>
                let p := { p with record := record }
                if block = .commit ∧ resync ∧ config.myInfo ∈ p.negativeNodes then p.addItemToResync else p
              let s := s.withCached q.item (if block = .rollback false then none else some (.object q))
              s.goTo i (.saving part (writes ++ [write]))

/-- A block has ended: the payload's block follows that of the payment, the commit that of the payload. -/
def blockDone (s : Parcels N) (i : Bool) (part : Part) (writes : List Write) : Parcels N :=
  match part with
  | .payment => s.callBlock i .payload writes
  | .payload => (s.fireBoth i true).goTo i (.commit writes)

/-! ### Runs -/

/-- `vote(node, state, isU)` of a parcel. -/
def vote (config : ItemConfig N) (s : Parcels N) (i : Bool) (node : N) (state : ItemState) (isU : Bool) :
    Parcels N :=
  let part := if isU then Part.payment else .payload
  match s.processorOf i part with
  | some q => s.withProcessor q (·.vote config node state)
  | none =>
      s.withParcel i fun parcel =>
        if isU then
          { parcel with
            paymentDelayedVotes := parcel.paymentDelayedVotes.filter (·.1 ≠ node) ++ [(node, state)] }
        else
          { parcel with
            payloadDelayedVotes := parcel.payloadDelayedVotes.filter (·.1 ≠ node) ++ [(node, state)] }

/-- What can happen. `task` is the place of a task in its processor. -/
inductive Action (N : Type) where
  | lookup (i : Bool) (now : ℤ) (tooOld : Bool)
  | read (i : Bool) (row : Option (StateRecord Item)) (now : ℤ) (tooOld : Bool)
  | create (i : Bool) (record : Option (StateRecord Item))
  | process (i : Bool)
  | resume (i : Bool)
  | expire (i : Bool)
  | begin (i : Bool)
  | subitems (i : Bool) (ok : Bool) (now : ℤ) (resync : Bool)
  | saved (i : Bool) (ok : Bool)
  | committed (i : Bool) (ok : Bool)
  | rolledBack (i : Bool)
  | parcelVote (i : Bool) (node : N) (state : ItemState) (isU : Bool)
  | vote (q : Processor) (node : N) (state : ItemState)
  | task (q : Processor) (task : ℕ) (outcome : ItemProcessor.Outcome)
  | poll (q : Processor) (expired : Bool)
  | checkConsensus (q : Processor) (expired : Bool)

/-- A task of a processor; a record that it saves comes to the cache. -/
def runTask (config : ItemConfig N) (s : Parcels N) (q : Processor) (p : ItemProcessor N Item) (task : ℕ)
    (outcome : ItemProcessor.Outcome) : Option (Parcels N) :=
  p.tasks[task]?.bind fun t =>
    ({ p with tasks := p.tasks.eraseIdx task }.runTask config t outcome).map fun p' =>
      let s := s.withProcessor q fun _ => p'
      match t, p.record.state with
      | .commitChecked _, .PENDING => s.withCached q.item (some (.object q))
      | _, _ => s

def step (setup : ParcelSetup N) (s : Parcels N) : Action N → Option (Parcels N)
  | .lookup i now tooOld =>
      match (s.parcel i).stage with
      | .lookup part => if s.lockFree i part then some (s.lookup i part now tooOld) else none
      | _ => none
  | .read i row now tooOld =>
      match (s.parcel i).stage with
      | .reading part => if ∀ r ∈ row, r.id = part.item i then some (s.read i part row now tooOld) else none
      | _ => none
  | .create i record =>
      match (s.parcel i).stage with
      | .creating part => if ∀ r ∈ record, r.id = part.item i then some (s.create setup i part record) else none
      | _ => none
  | .process i =>
      match (s.parcel i).stage with
      | .scheduled => some (s.process setup i)
      | _ => none
  | .resume i => (s.parcel i).paymentProcessor.bind fun k => s.resume setup i k
  | .expire i => s.expire setup.config i
  | .begin i =>
      match (s.parcel i).stage with
      | .transaction => some (s.callBlock i .payment [])
      | _ => none
  | .subitems i ok now resync =>
      match (s.parcel i).stage with
      | .block part block writes =>
          some (if ok then s.runBlock setup.config i part block writes now resync else s.goTo i .rollingBack)
      | _ => none
  | .saved i ok =>
      match (s.parcel i).stage with
      | .saving part writes => some (if ok then s.blockDone i part writes else s.goTo i .rollingBack)
      | _ => none
  | .committed i ok =>
      match (s.parcel i).stage with
      | .commit writes =>
          some (if ok then s.goTo i (.committed writes) else (s.fireBoth i false).goTo i .finished)
      | _ => none
  | .rolledBack i =>
      match (s.parcel i).stage with
      | .rollingBack => some ((s.fireBoth i false).goTo i .finished)
      | _ => none
  | .parcelVote i node state isU => some (s.vote setup.config i node state isU)
  | .vote q node state => (s.processor q).map fun _ => s.withProcessor q (·.vote setup.config node state)
  | .task q task outcome => (s.processor q).bind fun p => s.runTask setup.config q p task outcome
  | .poll q expired =>
      (s.processor q).map fun _ => s.withProcessor q (·.sendStartPollingNotification expired)
  | .checkConsensus q expired =>
      (s.processor q).map fun _ => s.withProcessor q (·.sendNewConsensusNotification setup.config expired)

end Parcels
end Universa.Node
