import Universa.Node.StateRecord
import Mathlib.Tactic.Common

/-! An `ItemProcessor` that belongs to a parcel (`itemprocessor.js`): its check, its votes, the blocks that
    it fires for the parcel, and how it ends. It has its item from the start. What the check of the item
    and the database answer is part of a step; the records of its subitems are left out. Between two
    awaits a task is one step. `N` are the nodes, `H` the ids of items. -/

namespace Universa.Node

/-! ### Events -/

/-- `AsyncEvent`: what its promise is settled with, nothing where it is rejected, and the result of the
    last `fire`. -/
structure AsyncEvent (α : Type) where
  promise : Option (Option α)
  fired : Option α

namespace AsyncEvent
variable {α : Type}

/-- The constructor. -/
def new : AsyncEvent α := ⟨none, none⟩

/-- `fire(result)`: a promise is settled once, the result is replaced. -/
def fire (result : α) (e : AsyncEvent α) : AsyncEvent α where
  promise := e.promise.or (some (some result))
  fired := some result

/-- The timer of `await` rejects the promise. -/
def reject (e : AsyncEvent α) : AsyncEvent α := { e with promise := e.promise.or (some none) }

end AsyncEvent

/-- A field with an event. The objects it has had are the first one and those that a parcel put in its
    place. -/
structure EventField (α : Type) where
  current : Option Bool
  object : Option Bool → AsyncEvent α

/-- A call of `await`: its object, and the result where that was fired before. -/
structure Awaiting (α : Type) where
  event : Option Bool
  result : Option α

namespace EventField
variable {α : Type}

/-- The field of a new processor. -/
def new : EventField α := ⟨none, fun _ => .new⟩

/-- The result of the object in the field. -/
def result (f : EventField α) : Option α := (f.object f.current).fired

/-- `fire(result)` of the object in the field. -/
def fire (result : α) (f : EventField α) : EventField α :=
  { f with object := Function.update f.object f.current ((f.object f.current).fire result) }

/-- A parcel puts a new object in the field. -/
def renew (parcel : Bool) (f : EventField α) : EventField α where
  current := some parcel
  object := Function.update f.object (some parcel) .new

/-- The timer of a call of `await`. -/
def reject (event : Option Bool) (f : EventField α) : EventField α :=
  { f with object := Function.update f.object event (f.object event).reject }

/-- `await` of the object in the field. -/
def await (f : EventField α) : Awaiting α := ⟨f.current, f.result⟩

/-- What a call of `await` comes to, nothing for a rejection, once it does. -/
def outcome (f : EventField α) (w : Awaiting α) : Option (Option α) :=
  match w.result with
  | some result => some (some result)
  | none => (f.object w.event).promise

end EventField

/-! ### The processor -/

/-- `ItemProcessingState`. -/
inductive ItemProcessingState where
  | NOT_EXIST
  | INIT
  | DOWNLOADING
  | DOWNLOADED
  | CHECKING
  | RESYNCING
  | GOT_RESYNCED_STATE
  | POLLING
  | GOT_CONSENSUS
  | DONE
  | SENDING_CONSENSUS
  | FINISHED
  | EMERGENCY_BREAK
  deriving DecidableEq

namespace ItemProcessingState

/-- `isProcessedToConsensus`. -/
def isProcessedToConsensus : ItemProcessingState → Bool
  | GOT_CONSENSUS | DONE | SENDING_CONSENSUS | FINISHED => true
  | _ => false

/-- `isDone`. -/
def isDone : ItemProcessingState → Bool
  | DONE | SENDING_CONSENSUS | FINISHED => true
  | _ => false

/-- `canContinue`. -/
def canContinue : ItemProcessingState → Bool
  | EMERGENCY_BREAK => false
  | _ => true

/-- `canRemoveSelf`. -/
def canRemoveSelf : ItemProcessingState → Bool
  | FINISHED | EMERGENCY_BREAK => true
  | _ => false

end ItemProcessingState

/-- `commitBlock` of `downloadAndCommit`, and `rollbackBlock` of `rollbackChanges(doDecline)`. -/
inductive Block where
  | commit
  | rollback (doDecline : Bool)
  deriving DecidableEq

/-- `success`, which is fired together with a block. -/
def Block.success : Block → Bool
  | commit => true
  | rollback _ => false

/-- Where the running or scheduled calls of a processor are. `resyncing` waits for the items that are
    resynced, of the check or after a commit; `commitChecked`, `committing` and `rollbackChanges` wait for
    the mutex, and `saving`, `commitFired` and `rollbackFired` hold it. -/
inductive Task where
  | itemDownloaded
  | checkItem
  | checking
  | resyncing (ofCheck : Bool)
  | checkSubItems
  | commitChecked (checkPassed : Bool)
  | saving
  | startPolling
  | downloadAndCommit
  | committing
  | commitFired (parcelCommit : Awaiting Bool)
  | rollbackChanges (doDecline : Bool)
  | rollbackFired (parcelCommit : Awaiting Bool)

/-- The task holds the mutex. -/
def Task.holdsMutex : Task → Bool
  | saving | commitFired _ | rollbackFired _ => true
  | _ => false

/-- What the network and the thresholds are. -/
structure ItemConfig (N : Type) where
  myInfo : N
  nodes : ℕ
  negativeConsensus : ℕ
  positiveConsensus : ℕ

/-- `ItemProcessor`. `itemErrors` says that its item has errors, `removed` that it has left
    `node.processors`. -/
structure ItemProcessor (N H : Type) where
  processingState : ItemProcessingState
  isCheckingForce : Bool
  alreadyChecked : Bool
  itemErrors : Bool
  itemExpiresAt : ℤ
  record : StateRecord H
  positiveNodes : List N
  negativeNodes : List N
  resyncingItems : Bool
  poller : Bool
  consensusReceivedChecker : Bool
  itemCommitEvent : EventField Block
  parcelCommitEvent : EventField Bool
  removed : Bool
  tasks : List Task

namespace ItemProcessor
variable {N H : Type} [DecidableEq N]

/-- The constructor and `run()`, with the record that `findOrCreate` answered. -/
def new (isCheckingForce : Bool) (itemExpiresAt : ℤ) (record : StateRecord H) : ItemProcessor N H where
  processingState := .INIT
  isCheckingForce := isCheckingForce
  alreadyChecked := false
  itemErrors := false
  itemExpiresAt := itemExpiresAt
  record := record
  positiveNodes := []
  negativeNodes := []
  resyncingItems := false
  poller := false
  consensusReceivedChecker := false
  itemCommitEvent := .new
  parcelCommitEvent := .new
  removed := false
  tasks := [.itemDownloaded]

/-- `new ScheduleExecutor(...).run()`, and a call that goes on after an await. -/
def schedule (p : ItemProcessor N H) (t : Task) : ItemProcessor N H := { p with tasks := p.tasks ++ [t] }

/-- No task holds the mutex. -/
def mutexFree (p : ItemProcessor N H) : Bool := p.tasks.all fun t => !t.holdsMutex

/-! ### The end of a processor -/

/-- `removeSelf()`. -/
def removeSelf (p : ItemProcessor N H) : ItemProcessor N H :=
  if p.processingState.canRemoveSelf then
    { p with removed := true, poller := false, consensusReceivedChecker := false }
  else p

/-- `checkIfAllReceivedConsensus()`. -/
def checkIfAllReceivedConsensus (config : ItemConfig N) (p : ItemProcessor N H) : ItemProcessor N H :=
  if p.processingState.canContinue ∧ config.nodes ≤ p.positiveNodes.length + p.negativeNodes.length then
    { p with processingState := .FINISHED, consensusReceivedChecker := false }
  else p

/-- `pulseSendNewConsensus()`. -/
def pulseSendNewConsensus (p : ItemProcessor N H) : ItemProcessor N H :=
  if p.processingState.canContinue then
    { p with processingState := .SENDING_CONSENSUS, consensusReceivedChecker := true }
  else p

/-- `close()`. -/
def close (config : ItemConfig N) (p : ItemProcessor N H) : ItemProcessor N H :=
  let p := { p with
    processingState := if p.processingState.canContinue then .DONE else p.processingState
    poller := false }
  if p.processingState.canContinue then
    let p := p.checkIfAllReceivedConsensus config
    if p.processingState = .DONE then p.pulseSendNewConsensus else p.removeSelf
  else p.removeSelf

/-- `rollback(doDecline)`. -/
def rollback (doDecline : Bool) (p : ItemProcessor N H) : ItemProcessor N H :=
  p.schedule (.rollbackChanges doDecline)

/-- `emergencyBreak()`. -/
def emergencyBreak (config : ItemConfig N) (p : ItemProcessor N H) : ItemProcessor N H :=
  let doRollback := !p.processingState.isDone
  let p := { p with processingState := .EMERGENCY_BREAK, poller := false, consensusReceivedChecker := false }
  let p := if doRollback then p.rollback false else p.close config
  { p with processingState := .FINISHED }

/-! ### Votes -/

/-- `approveAndCommit()`. -/
def approveAndCommit (p : ItemProcessor N H) : ItemProcessor N H :=
  if p.processingState.canContinue then p.schedule .downloadAndCommit else p

/-- The vote was counted before. -/
def Counted (p : ItemProcessor N H) (node : N) (state : ItemState) : Prop :=
  if state.isPositive then node ∈ p.positiveNodes else node ∈ p.negativeNodes

instance (p : ItemProcessor N H) (node : N) (state : ItemState) : Decidable (p.Counted node state) :=
  inferInstanceAs (Decidable (ite _ _ _))

/-- `vote(node, state)`. -/
def vote (config : ItemConfig N) (node : N) (state : ItemState) (p : ItemProcessor N H) :
    ItemProcessor N H :=
  if ¬ p.processingState.canContinue ∨ p.Counted node state ∨ p.processingState.canRemoveSelf then p
  else
    let p :=
      if state.isPositive then
        { p with positiveNodes := node :: p.positiveNodes, negativeNodes := p.negativeNodes.erase node }
      else { p with negativeNodes := node :: p.negativeNodes, positiveNodes := p.positiveNodes.erase node }
    if p.processingState.isProcessedToConsensus then
      if p.processingState.isDone then p.close config else p
    else if config.negativeConsensus ≤ p.negativeNodes.length then
      { p with processingState := .GOT_CONSENSUS }.rollback true
    else if config.positiveConsensus ≤ p.positiveNodes.length then
      { p with processingState := .GOT_CONSENSUS }.approveAndCommit
    else p

/-- `sendStartPollingNotification()`, a tick of the poller. -/
def sendStartPollingNotification (isPollingExpired : Bool) (p : ItemProcessor N H) : ItemProcessor N H :=
  if p.processingState.canContinue ∧ p.poller ∧ ¬ p.processingState.isProcessedToConsensus ∧
      isPollingExpired then
    { p with processingState := .GOT_CONSENSUS, poller := false }.rollback false
  else p

/-- `sendNewConsensusNotification()`, a tick of the checker. -/
def sendNewConsensusNotification (config : ItemConfig N) (isConsensusReceivedExpired : Bool)
    (p : ItemProcessor N H) : ItemProcessor N H :=
  if p.processingState.canContinue ∧ p.processingState ≠ .FINISHED ∧ p.consensusReceivedChecker then
    if isConsensusReceivedExpired then
      { p with processingState := .FINISHED, consensusReceivedChecker := false }.removeSelf
    else if config.myInfo ∉ p.positiveNodes ∧ config.myInfo ∉ p.negativeNodes ∧
        p.processingState.isProcessedToConsensus then
      p.vote config config.myInfo p.record.state
    else p
  else p

/-! ### The check -/

/-- `checkItem()` up to the check. -/
def checkItem (p : ItemProcessor N H) : ItemProcessor N H :=
  if p.processingState.canContinue ∧ ¬ p.processingState.isProcessedToConsensus ∧
      p.processingState ≠ .POLLING ∧ p.processingState ≠ .CHECKING ∧ p.processingState ≠ .RESYNCING ∧
      ¬ p.alreadyChecked then
    { p with processingState := .CHECKING }.schedule .checking
  else p

/-- `addItemToResync(hid, record)`. -/
def addItemToResync (p : ItemProcessor N H) : ItemProcessor N H :=
  if p.processingState.canContinue then { p with resyncingItems := true } else p

/-- `startResync()`. -/
def startResync (ofCheck : Bool) (p : ItemProcessor N H) : ItemProcessor N H :=
  if p.processingState.canContinue ∧ ¬ p.processingState.isProcessedToConsensus then
    { p with processingState := .RESYNCING }.schedule (.resyncing ofCheck)
  else p

/-- `onResyncItemFinished(ri)` with results of all items, up to the check of the subitems. -/
def onResyncItemFinished (p : ItemProcessor N H) : ItemProcessor N H :=
  if p.processingState.canContinue ∧ ¬ p.processingState.isProcessedToConsensus then
    { p with processingState := .CHECKING }.schedule .checkSubItems
  else p

/-- `commitCheckedAndStartPolling()` up to the mutex. -/
def commitCheckedAndStartPolling (p : ItemProcessor N H) : ItemProcessor N H :=
  if p.processingState.canContinue ∧ ¬ p.processingState.isProcessedToConsensus then
    { p with record := { p.record with expiresAt := p.itemExpiresAt } }.schedule
      (.commitChecked (!p.itemErrors))
  else p

/-- `commitCheckedAndStartPolling()` with the mutex, up to the save. -/
def setChecked (config : ItemConfig N) (checkPassed : Bool) (p : ItemProcessor N H) : ItemProcessor N H :=
  match if checkPassed then p.record.setPendingPositive else p.record.setPendingNegative with
  | .ok record => { p with record := record }.schedule .saving
  | .error _ => (p.emergencyBreak config).schedule .startPolling

/-- `commitCheckedAndStartPolling()` after the mutex. -/
def startPolling (config : ItemConfig N) (p : ItemProcessor N H) : ItemProcessor N H :=
  let p := if p.processingState.isProcessedToConsensus then p else { p with processingState := .POLLING }
  let p := p.vote config config.myInfo p.record.state
  if p.processingState.canContinue ∧ ¬ p.processingState.isProcessedToConsensus then { p with poller := true }
  else p

/-- `itemDownloaded()` after the item was saved in the disk cache. -/
def itemDownloaded (p : ItemProcessor N H) : ItemProcessor N H :=
  let p := if p.processingState.isProcessedToConsensus then p else { p with processingState := .DOWNLOADED }
  if p.isCheckingForce then p.checkItem else p

/-- `forceChecking(isCheckingForce)`. -/
def forceChecking (isCheckingForce : Bool) (p : ItemProcessor N H) : ItemProcessor N H :=
  let p := { p with isCheckingForce := isCheckingForce }
  if p.processingState = .DOWNLOADED then p.schedule .checkItem else p

/-! ### The blocks -/

/-- `downloadAndCommit()` up to the mutex. -/
def downloadAndCommit (p : ItemProcessor N H) : ItemProcessor N H :=
  if p.processingState.canContinue then { p with resyncingItems := false }.schedule .committing else p

/-- A block is fired for the parcel. -/
def fireBlock (block : Block) (p : ItemProcessor N H) : ItemProcessor N H :=
  { p with itemCommitEvent := p.itemCommitEvent.fire block }

/-- `downloadAndCommit()` after the parcel has answered. -/
def committed (config : ItemConfig N) (success : Bool) (p : ItemProcessor N H) : ItemProcessor N H :=
  if success ∧ p.resyncingItems then { p with processingState := .RESYNCING }.startResync false
  else p.close config

/-- What a task waits for. -/
inductive Outcome where
  | done
  | failed
  | checked (errors resync : Bool)
  | quantasLimit
  | more

/-- A task goes on; it is no longer among the tasks of the processor. -/
def runTask (config : ItemConfig N) (p : ItemProcessor N H) : Task → Outcome → Option (ItemProcessor N H)
  | .itemDownloaded, .done => some p.itemDownloaded
  | .itemDownloaded, .failed => some p
  | .checkItem, .done => some p.checkItem
  | .checking, .checked errors resync =>
      let p := { p with itemErrors := p.itemErrors || errors, alreadyChecked := true }
      some (if resync then p.addItemToResync.startResync true else p.commitCheckedAndStartPolling)
  | .checking, .quantasLimit => some ({ p with itemErrors := true }.emergencyBreak config)
  | .resyncing _, .done => some p.onResyncItemFinished
  | .resyncing false, .more => some (p.onResyncItemFinished.schedule (.resyncing false))
  | .checkSubItems, .checked errors _ =>
      some { p with itemErrors := p.itemErrors || errors }.commitCheckedAndStartPolling
  | .commitChecked checkPassed, .done => if p.mutexFree then some (p.setChecked config checkPassed) else none
  | .saving, .done => some (p.schedule .startPolling)
  | .saving, .failed => some (p.emergencyBreak config)
  | .startPolling, .done => some (p.startPolling config)
  | .downloadAndCommit, .done => some p.downloadAndCommit
  | .committing, .done =>
      if p.mutexFree then some ((p.fireBlock .commit).schedule (.commitFired p.parcelCommitEvent.await))
      else none
  | .commitFired parcelCommit, .done =>
      (p.parcelCommitEvent.outcome parcelCommit).bind fun success =>
        success.map fun success => p.committed config success
  | .rollbackChanges doDecline, .done =>
      if p.mutexFree then
        some ((p.fireBlock (.rollback doDecline)).schedule (.rollbackFired p.parcelCommitEvent.await))
      else none
  | .rollbackFired parcelCommit, .done =>
      (p.parcelCommitEvent.outcome parcelCommit).bind fun success =>
        success.map fun _ => p.close config
  | _, _ => none

end ItemProcessor
end Universa.Node
