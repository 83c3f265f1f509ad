import Mathlib.Data.List.Dedup
import Mathlib.Data.List.Perm.Basic
import Mathlib.Logic.Function.Basic
import Universa.Lib.Comp
import Universa.Node.StateRecord

/-! The block that commits an item with the tree of its sub-items (`ItemProcessor.downloadAndCommit` and the two
    recursions it calls), and the operations of the ledger it goes through. Each table is keyed by the hash that is
    unique in it; all items are contracts. All queries answer. The results of the items in the cache and the
    permanent store are left out, which nothing here reads.

    The recursion calls `this.item`, the root of the tree, where it means the new item at hand, and the branch of the
    root names a `cache` that there is not. A record that is created for an item to be revoked is pending, and
    one locked for creation and then for revocation is not to be approved; neither gets through. The set of items
    with subscriptions cannot be made where anybody is subscribed, and an environment with a subscription, a storage, a
    follower service or a stored name is never read (`EnvironmentStore`); the block waits for both. So no environment
    that is subscribed is read, and none hears of an item. -/

namespace Universa.Node.CommitTree

/-! ### Items and the ledger -/

/-- A contract, with its revision number where it is an `NSmartContract`. -/
structure Item (H : Type) where
  id : H
  parent : Option H
  origin : H
  expiresAt : ℤ
  smartContract : Option ℕ
  deriving DecidableEq

/-- An item with its new items, each with its own, and its revoking items. -/
inductive Tree (H : Type) where
  | node (item : Item H) (newItems : List (Tree H)) (revokingItems : List (Item H))

/-- The item at the root. -/
def Tree.item {H : Type} : Tree H → Item H
  | .node item _ _ => item

/-- The new items of the root. -/
def Tree.newItems {H : Type} : Tree H → List (Tree H)
  | .node _ newItems _ => newItems

/-- What a contract is called with on its environment. -/
inductive Callback where
  | onCreated
  | onUpdated
  | onRevoked
  deriving DecidableEq

/-- Its name. -/
def Callback.val : Callback → String
  | onCreated => "onCreated"
  | onUpdated => "onUpdated"
  | onRevoked => "onRevoked"

/-- A call: of which contract, and with the environment that is stored for which. -/
structure Call (H : Type) where
  callback : Callback
  contract : H
  environment : H
  deriving DecidableEq

/-- What ends the block, or keeps it from ending. -/
inductive CommitError where
  | ledger (e : LedgerError)
  | readsUndefined (what : String)
  | notAFunction (what : String)
  | notDefined (name : String)
  | environment
  | callback
  | neverSettles (what : String)
  deriving DecidableEq

/-- A row of `environments`, by what `getEnvironment` makes of it, subscriptions aside: it throws where the contract or
    the store cannot be read, and a storage, a follower service or a stored name with an entry keeps it from
    settling. -/
inductive Environment where
  | readable
  | throws
  | pending
  deriving DecidableEq

/-- The environments, and the rows of `contract_subscription`: a hash, and who is subscribed to it. -/
structure EnvironmentTables (H : Type) where
  environments : H → Option Environment
  subscriptions : List (H × H)

/-- `getEnvironment(id)`, which never settles for an environment with a subscription. -/
def EnvironmentTables.getEnvironment {H : Type} [DecidableEq H] (id : H) (t : EnvironmentTables H) :
    Except CommitError Unit :=
  match t.environments id with
  | some .readable =>
      if t.subscriptions.any fun row => row.2 = id then .error (.neverSettles "getEnvironment") else .ok ()
  | some .pending => .error (.neverSettles "getEnvironment")
  | some .throws | none => .error .environment

/-- The ledger in the transaction, with the buffer of `arraySave`, and the calls so far. A row is of its hash. -/
structure CommitState (H : Type) extends EnvironmentTables H where
  records : H → Option (StateRecord H)
  keyed : ∀ id r, records id = some r → r.id = id
  buffer : List (StateRecord H)
  calls : List (Call H)

/-- The time, the new rows' ids and random part of the expiry, the order in which rows come, the subscriptions after
    a call and its save, none where one of them throws, and whether an environment that is read handles the event of
    an item without an exception. -/
structure Setup (H : Type) where
  now : ℤ
  recordId : H → ℕ
  random : H → ℤ
  order : List H → List H
  order_perm : ∀ ids, (order ids).Perm ids
  subscribers : H → List H → List H
  subscribers_perm : ∀ id ids, (subscribers id ids).Perm ids
  saved : Call H → List (H × H) → Option (List (H × H))
  handles : H → Item H → ItemState → Bool

section
variable {H : Type} [DecidableEq H]

/-- A row that is inserted with `ItemState.PENDING` and no lock. -/
def Setup.newRecord (setup : Setup H) (id : H) : StateRecord H where
  recordId := setup.recordId id
  lockedByRecordId := 0
  id := id
  state := .PENDING
  createdAt := setup.now
  expiresAt := setup.now + Config.maxElectionsTime * 1000 + setup.random id
  isJustCreated := false

namespace CommitState

/-- The row of an id after `INSERT … ON CONFLICT (hash) DO NOTHING`. -/
def found (setup : Setup H) (s : CommitState H) (id : H) : StateRecord H := (s.records id).getD (setup.newRecord id)

omit [DecidableEq H] in
@[simp] theorem found_id (setup : Setup H) (s : CommitState H) (id : H) : (s.found setup id).id = id := by
  cases h : s.records id with
  | none => simp [found, h, Setup.newRecord]
  | some r => simp [found, h, s.keyed id r h]

/-- `INSERT … ON CONFLICT (hash) DO NOTHING` of some ids. -/
def insert (setup : Setup H) (ids : List H) (s : CommitState H) : CommitState H :=
  { s with
    records := fun id => if id ∈ ids then some (s.found setup id) else s.records id
    keyed := by
      intro id r h
      split at h
      · rw [← Option.some.inj h, found_id]
      · exact s.keyed id r h }

/-- `UPDATE ledger … WHERE id = ?`. -/
def update (r : StateRecord H) (s : CommitState H) : CommitState H :=
  { s with
    records := Function.update s.records r.id ((s.records r.id).map fun _ => r)
    keyed := by
      intro id r' h
      rw [Function.update_apply] at h
      split at h
      · rename_i hid
        obtain ⟨-, -, rfl⟩ := Option.map_eq_some_iff.mp h
        exact hid.symm
      · exact s.keyed id r' h }

/-- `simpleFindOrCreate(itemId)`. -/
def simpleFindOrCreate (setup : Setup H) (id : H) (s : CommitState H) : StateRecord H × CommitState H :=
  (s.found setup id, s.insert setup [id])

/-- The loop over what follows a record: the first that has the id, and the rest with the record in its place. -/
def swapIn (r : StateRecord H) (id : H) : List (StateRecord H) → Option (StateRecord H × List (StateRecord H))
  | [] => none
  | x :: xs => if x.id = id then some (x, r :: xs) else (swapIn r id xs).map fun (y, ys) => (y, x :: ys)

/-- "sort result records": each place but the last gets the record of its id by a swap with a later one. -/
def sortRecords : List H → List (StateRecord H) → List (StateRecord H)
  | id :: ids, r :: r' :: rs =>
      if r.id = id then r :: sortRecords ids (r' :: rs)
      else match swapIn r id (r' :: rs) with
        | some (y, ys) => y :: sortRecords ids ys
        | none => r :: sortRecords ids (r' :: rs)
  | _, rs => rs

/-- `arrayFindOrCreate(itemIds)`. -/
def arrayFindOrCreate (setup : Setup H) (ids : List H) (s : CommitState H) :
    List (StateRecord H) × CommitState H :=
  if ids = [] then ([], s)
  else (sortRecords ids ((setup.order ids.dedup).map (s.found setup)), s.insert setup ids)

/-- `arraySave(con)`. -/
def arraySave (s : CommitState H) : CommitState H :=
  { s.buffer.foldl (fun s r => s.update r) s with buffer := [] }

/-- `getEnvironmentByContract(smartContract)`: the id under which the environment is stored. The last resort is a new
    one, which can be read. -/
def getEnvironmentByContract (contract : Item H) (s : CommitState H) : Except CommitError (H × CommitState H) :=
  let read (id : H) : Option (Except CommitError (H × CommitState H)) :=
    (s.environments id).map fun _ => (s.getEnvironment id).map fun _ => (id, s)
  ((read contract.id).or (contract.parent.bind read)).getD
    (.ok (contract.id, { s with environments := Function.update s.environments contract.id (some .readable) }))

/-- `removeEnvironment(id)`, which asks another connection than the transaction's whether there is one. -/
def removeEnvironment (committed : H → Option Environment) (id : H) (s : CommitState H) : CommitState H :=
  if (committed id).isSome then
    { s with
      environments := Function.update s.environments id none
      subscriptions := s.subscriptions.filter fun row => row.2 ≠ id }
  else s

end CommitState

/-! ### Subscribers -/

namespace Item

/-- `lookingId`: the parent of an approved item, and the id of a revoked one. -/
def lookingId (item : Item H) : ItemState → Option H
  | .APPROVED => item.parent
  | .REVOKED => some item.id
  | _ => none

/-- `origin`, for an item that is approved or revoked. -/
def lookingOrigin (item : Item H) : ItemState → Option H
  | .APPROVED | .REVOKED => some item.origin
  | _ => none

end Item

namespace EnvironmentTables
variable (setup : Setup H)

/-- `getItemsWithSubscriptions(itemIds)`: a row is asked for a column that the query does not select, and the
    callback throws instead of settling the promise. -/
def getItemsWithSubscriptions (itemIds : List H) (t : EnvironmentTables H) : Except CommitError (List H) :=
  if t.subscriptions.any fun row => row.1 ∈ itemIds then .error (.neverSettles "getItemsWithSubscriptions")
  else .ok []

/-- `getSubscriptionEnviromentIds(id)`, where the set, if any, has the id. -/
def lookedUp (hashesWithSubscriptions : Option (List H)) (id : Option H) (t : EnvironmentTables H) : List H :=
  match id with
  | some id =>
      if ∀ hashes ∈ hashesWithSubscriptions, id ∈ hashes then
        setup.subscribers id ((t.subscriptions.filter fun row => row.1 = id).map Prod.snd).dedup
      else []
  | none => []

/-- `environmentIds`: a set of those of the id, then those of the origin. -/
def environmentIds (hashesWithSubscriptions : Option (List H)) (item : Item H) (state : ItemState)
    (t : EnvironmentTables H) : List H :=
  let environmentIdsForContractId := t.lookedUp setup hashesWithSubscriptions (item.lookingId state)
  let environmentIdsForOrigin := t.lookedUp setup hashesWithSubscriptions (item.lookingOrigin state)
  environmentIdsForContractId ++ environmentIdsForOrigin.filter fun id => id ∉ environmentIdsForContractId

/-- The loop over the environments. What throws ends it, and is caught. -/
def notify (item : Item H) (state : ItemState) (t : EnvironmentTables H) : List H → Except CommitError Unit
  | [] => .ok ()
  | id :: ids =>
      match t.getEnvironment id with
      | .ok () => if setup.handles id item state then t.notify item state ids else .ok ()
      | .error (.neverSettles what) => .error (.neverSettles what)
      | .error _ => .ok ()

/-- `notifyContractSubscribers(updatingItem, updatingState, hashesWithSubscriptions)`. -/
def notifyContractSubscribers (hashesWithSubscriptions : Option (List H)) (item : Item H) (state : ItemState)
    (t : EnvironmentTables H) : Except CommitError Unit :=
  t.notify setup item state (t.environmentIds setup hashesWithSubscriptions item state)

end EnvironmentTables

/-! ### The block -/

variable (setup : Setup H)

/-- `contract.onCreated(me)` or `contract.onUpdated(me)`, then `me.save()`. Only an `NSmartContract` has these. -/
def callOn (contract : Item H) (callback : Callback) (environment : H) (s : CommitState H) :
    Except CommitError (CommitState H) :=
  let call : Call H := ⟨callback, contract.id, environment⟩
  if contract.smartContract = none then .error (.notAFunction ("this.item." ++ callback.val))
  else match setup.saved call s.subscriptions with
    | some subscriptions => .ok { s with subscriptions, calls := s.calls ++ [call] }
    | none => .error .callback

/-- The callback for a revision number. -/
def callbackFor (revision : ℕ) : Callback := if revision = 1 then .onCreated else .onUpdated

/-- The callback of a new item that is a smart contract, asked of the root. -/
def callNewItem (votedNegative : Bool) (root newItem : Item H) (s : CommitState H) :
    Except CommitError (CommitState H) :=
  match newItem.smartContract with
  | none => .ok s
  | some revision =>
      if votedNegative then .ok s
      else do
        let (environment, s) ← s.getEnvironmentByContract newItem
        callOn setup root (callbackFor revision) environment s

/-- The turn of a new item with its record. -/
def commitNewItem (votedNegative : Bool) (root : Item H) (hashesWithSubscriptions : List H) (r : StateRecord H)
    (newItem : Item H) (s : CommitState H) : Except CommitError (CommitState H) := do
  let r ← (r.approve (some newItem.expiresAt) false).mapError .ledger
  let s ← callNewItem setup votedNegative root newItem { s with buffer := s.buffer ++ [r] }
  s.notifyContractSubscribers setup (some hashesWithSubscriptions) newItem r.state
  return s

/-- `hashes`: the parents and origins of the new items. -/
def hashesOf (newItems : List (Tree H)) : List H :=
  newItems.flatMap fun newItem => newItem.item.parent.toList ++ [newItem.item.origin]

mutual

/-- `downloadAndCommitNewItemsOf(commitingItem)`. -/
def downloadAndCommitNewItemsOf (votedNegative : Bool) (root : Item H) :
    Tree H → CommitState H → Except CommitError (CommitState H)
  | .node _ newItems _, s => do
      let (rs, s) := s.arrayFindOrCreate setup (newItems.map fun newItem => newItem.item.id)
      let hashesWithSubscriptions ← s.getItemsWithSubscriptions (hashesOf newItems)
      commitNewItems votedNegative root hashesWithSubscriptions rs newItems s

/-- The loop over the new items with the records by their places. -/
def commitNewItems (votedNegative : Bool) (root : Item H) (hashesWithSubscriptions : List H) :
    List (StateRecord H) → List (Tree H) → CommitState H → Except CommitError (CommitState H)
  | _, [], s => .ok s
  | [], _ :: _, _ => .error (.readsUndefined "r.approve")
  | r :: rs, newItem :: newItems, s => do
      let s ← commitNewItem setup votedNegative root hashesWithSubscriptions r newItem.item s
      let s ← downloadAndCommitNewItemsOf votedNegative root newItem s
      commitNewItems votedNegative root hashesWithSubscriptions rs newItems s

end

mutual

/-- `searchNewItemWithParent(item, id)`. -/
def searchNewItemWithParent (id : H) : Tree H → Bool
  | .node item newItems _ => item.parent = some id || searchNewItemsWithParent id newItems

/-- Its loop over the new items. -/
def searchNewItemsWithParent (id : H) : List (Tree H) → Bool
  | [] => false
  | newItem :: newItems => searchNewItemWithParent id newItem || searchNewItemsWithParent id newItems

end

/-- The turn of a revoking item up to its subscribers. `onRevoked` of all contracts does nothing, so it never
    throws. -/
def revokeAndRemove (committed : H → Option Environment) (root : Tree H) (revokingItem : Item H)
    (s : CommitState H) : Except CommitError (CommitState H) := do
  let (r, s) := s.simpleFindOrCreate setup revokingItem.id
  let r ← (r.revoke setup.now false).mapError .ledger
  let s := s.update r
  if revokingItem.smartContract.isSome ∧ searchNewItemWithParent revokingItem.id root = false then
    let (environment, s) ← s.getEnvironmentByContract revokingItem
    let call : Call H := ⟨.onRevoked, revokingItem.id, environment⟩
    let s := { s with calls := s.calls ++ [call] }
    return s.removeEnvironment committed revokingItem.id
  else return s

/-- The turn of a revoking item. -/
def commitRevoke (committed : H → Option Environment) (root : Tree H) (revokingItem : Item H)
    (s : CommitState H) : Except CommitError (CommitState H) := do
  let s ← revokeAndRemove setup committed root revokingItem s
  s.notifyContractSubscribers setup none revokingItem .REVOKED
  return s

mutual

/-- `downloadAndCommitRevokesOf(commitingItem)`. -/
def downloadAndCommitRevokesOf (committed : H → Option Environment) (root : Tree H) :
    Tree H → CommitState H → Except CommitError (CommitState H)
  | .node _ newItems revokingItems, s => do
      let s ← revokingItems.foldlM (fun s revokingItem => commitRevoke setup committed root revokingItem s) s
      commitRevokes committed root newItems s

/-- The loop over the new items. -/
def commitRevokes (committed : H → Option Environment) (root : Tree H) :
    List (Tree H) → CommitState H → Except CommitError (CommitState H)
  | [], s => .ok s
  | newItem :: newItems, s => do
      let s ← downloadAndCommitRevokesOf committed root newItem s
      commitRevokes committed root newItems s

end

/-- What a processor commits: the tree, with the record it holds of the root. -/
structure Commit (H : Type) where
  tree : Tree H
  record : StateRecord H
  sameId : record.id = tree.item.id

/-- The end of the block for a root that is a smart contract: `cache` is not defined. -/
def commitRootContract (votedNegative : Bool) (root : Item H) (s : CommitState H) :
    Except CommitError (CommitState H) :=
  match root.smartContract with
  | none => .ok s
  | some revision =>
      if votedNegative then .ok s
      else do
        let (environment, s) ← s.getEnvironmentByContract root
        let _ ← callOn setup root (callbackFor revision) environment s
        .error (.notDefined "cache")

/-- `commitBlock(con)`, from the state of the ledger before the transaction. The connection is new, with no buffer. -/
def commitBlock (votedNegative : Bool) (c : Commit H) (s : CommitState H) : Except CommitError (CommitState H) := do
  let committed := s.environments
  let s ← downloadAndCommitNewItemsOf setup votedNegative c.tree.item c.tree { s with buffer := [], calls := [] }
  let s := s.arraySave
  let s ← downloadAndCommitRevokesOf setup committed c.tree c.tree s
  let record ← (c.record.approve (some c.tree.item.expiresAt) false).mapError .ledger
  let s ← commitRootContract setup votedNegative c.tree.item (s.update record)
  s.notifyContractSubscribers setup none c.tree.item record.state
  return s

/-! ### What is promised -/

mutual

/-- The new items at any depth. -/
def Tree.allNewItems : Tree H → List (Item H)
  | .node _ newItems _ => newItemsOf newItems

/-- The items of some trees, and their new items at any depth. -/
def newItemsOf : List (Tree H) → List (Item H)
  | [] => []
  | newItem :: newItems => newItem.item :: (newItem.allNewItems ++ newItemsOf newItems)

end

mutual

/-- The revoking items at any depth, in the order of the recursion. -/
def Tree.allRevokingItems : Tree H → List (Item H)
  | .node _ newItems revokingItems => revokingItems ++ revokingItemsOf newItems

/-- The revoking items of some trees. -/
def revokingItemsOf : List (Tree H) → List (Item H)
  | [] => []
  | newItem :: newItems => newItem.allRevokingItems ++ revokingItemsOf newItems

end

/-- The record of an id is in a state. -/
def HasState (s : CommitState H) (id : H) (state : ItemState) : Prop := ∃ r, s.records id = some r ∧ r.state = state

/-- The calls of a contract, of the kind of a callback. -/
def callsOf (s : CommitState H) (contract : H) (revoked : Bool) : List (Call H) :=
  s.calls.filter fun call => call.contract = contract ∧ (call.callback = .onRevoked ↔ revoked)

/-- The whole tree is applied. The environment of a new contract is stored for it or its parent, that of a revoked
    one for it. -/
structure Applied (c : Commit H) (s : CommitState H) : Prop where
  approved : ∀ item ∈ c.tree.allNewItems, HasState s item.id .APPROVED ∨
    ((∃ revokingItem ∈ c.tree.allRevokingItems, revokingItem.id = item.id) ∧ HasState s item.id .REVOKED)
  revoked : ∀ item ∈ c.tree.allRevokingItems, HasState s item.id .REVOKED
  called : ∀ item ∈ c.tree.item :: c.tree.allNewItems, ∀ revision ∈ item.smartContract,
    ∃ environment, (environment = item.id ∨ item.parent = some environment) ∧
      callsOf s item.id false = [⟨callbackFor revision, item.id, environment⟩]
  onRevoked : ∀ item ∈ c.tree.allRevokingItems, item.smartContract.isSome →
    searchNewItemWithParent item.id c.tree = false →
    callsOf s item.id true = [⟨.onRevoked, item.id, item.id⟩] ∧ s.environments item.id = none

/-- The block ends, and it applies the tree. -/
def Commits (setup : Setup H) (c : Commit H) (s : CommitState H) : Prop :=
  ∃ s', commitBlock setup false c s = .ok s' ∧ Applied c s'

/-- A state from which `approve` goes on. -/
def Approvable (state : ItemState) : Prop := state.isPending ∨ state = .LOCKED_FOR_CREATION

/-- A state from which `revoke` goes on. -/
def Revocable (state : ItemState) : Prop := state = .LOCKED ∨ state = .LOCKED_FOR_CREATION_REVOKED

mutual

/-- No two new items of one item have the same id. -/
def Tree.SiblingsDiffer : Tree H → Prop
  | .node _ newItems _ => (newItems.map fun newItem => newItem.item.id).Nodup ∧ SiblingsOfDiffer newItems

/-- The same for some trees. -/
def SiblingsOfDiffer : List (Tree H) → Prop
  | [] => True
  | newItem :: newItems => newItem.SiblingsDiffer ∧ SiblingsOfDiffer newItems

end

/-- The item's contract hears of its end: it is a smart contract without a successor. -/
def Ends (root : Tree H) (item : Item H) : Prop :=
  item.smartContract.isSome ∧ searchNewItemWithParent item.id root = false

instance (root : Tree H) (item : Item H) : Decidable (Ends root item) := inferInstanceAs (Decidable (_ ∧ _))

/-- Nobody is subscribed to the item's parent or origin. -/
def EnvironmentTables.Spares (t : EnvironmentTables H) (item : Item H) : Prop :=
  ∀ row ∈ t.subscriptions, item.parent ≠ some row.1 ∧ item.origin ≠ row.1

omit [DecidableEq H] in
/-- There is an environment of the id that can be read: it has no subscription, nor anything else. -/
def EnvironmentTables.Opens (id : H) (t : EnvironmentTables H) : Prop :=
  t.environments id = some .readable ∧ ∀ row ∈ t.subscriptions, row.2 ≠ id

/-- The first environment that is asked, if any, throws. -/
def Settles (setup : Setup H) (item : Item H) (state : ItemState) (t : EnvironmentTables H) : Prop :=
  ∀ id ∈ (t.environmentIds setup none item state).head?, t.environments id = none ∨ t.environments id = some .throws

/-- Nothing to be created is a smart contract, and nobody is subscribed to its parent or origin; records are as the
    check of the item leaves them, and nothing that is to be revoked is new; a revoked smart contract without a
    successor has an environment of its own that can be read; and who is subscribed to what is revoked or to the
    root's parent or origin is nobody, or begins with an environment that throws. -/
structure Committable (setup : Setup H) (c : Commit H) (s : CommitState H) : Prop where
  noSmartContract : ∀ item ∈ c.tree.item :: c.tree.allNewItems, item.smartContract = none
  siblingsDiffer : c.tree.SiblingsDiffer
  unsubscribed : ∀ item ∈ c.tree.allNewItems, s.Spares item
  approvable : ∀ item ∈ c.tree.allNewItems, ∀ r ∈ s.records item.id, Approvable r.state
  rootApprovable : Approvable c.record.state
  revokedOnce : (c.tree.allRevokingItems.map Item.id).Nodup
  revocable : ∀ item ∈ c.tree.allRevokingItems, (∀ newItem ∈ c.tree.item :: c.tree.allNewItems,
    newItem.id ≠ item.id) ∧ ∃ r, s.records item.id = some r ∧ Revocable r.state
  environment : ∀ item ∈ c.tree.allRevokingItems, item.smartContract.isSome →
    searchNewItemWithParent item.id c.tree = false → s.Opens item.id
  settles : ∀ item ∈ c.tree.allRevokingItems, Settles setup item .REVOKED s.toEnvironmentTables
  rootSettles : Settles setup c.tree.item .APPROVED s.toEnvironmentTables

/-! ### Records by their places -/

namespace CommitState

theorem swapIn_some {r y : StateRecord H} {id : H} {xs ys : List (StateRecord H)}
    (h : swapIn r id xs = some (y, ys)) : y.id = id ∧ (y :: ys).Perm (r :: xs) := by
  induction xs generalizing ys with
  | nil => exact absurd h nofun
  | cons x xs ih =>
      rw [swapIn] at h
      split at h
      · rename_i hid
        obtain ⟨rfl, rfl⟩ := Prod.mk.inj (Option.some.inj h)
        exact ⟨hid, List.Perm.swap r x xs⟩
      · obtain ⟨⟨y', ys'⟩, hrest, heq⟩ := Option.map_eq_some_iff.mp h
        obtain ⟨rfl, rfl⟩ := Prod.mk.inj heq
        obtain ⟨hid, hperm⟩ := ih hrest
        refine ⟨hid, ?_⟩
        calc (y' :: x :: ys').Perm (x :: y' :: ys') := List.Perm.swap x y' ys'
          _ |>.Perm (x :: r :: xs) := hperm.cons x
          _ |>.Perm (r :: x :: xs) := List.Perm.swap r x xs

theorem swapIn_isSome {r : StateRecord H} {id : H} {xs : List (StateRecord H)} (h : ∃ x ∈ xs, x.id = id) :
    (swapIn r id xs).isSome := by
  induction xs with
  | nil => simp at h
  | cons x xs ih =>
      rw [swapIn]
      split
      · rfl
      · rename_i hid
        simp only [List.mem_cons, exists_eq_or_imp, hid, false_or] at h
        simpa using ih h

theorem sortRecords_perm (ids : List H) (rs : List (StateRecord H)) : (sortRecords ids rs).Perm rs := by
  induction ids generalizing rs with
  | nil => rfl
  | cons id ids ih =>
      match rs with
      | [] | [_] => rfl
      | r :: r' :: rs =>
          rw [sortRecords]
          split
          · exact (ih _).cons r
          · split
            · rename_i y ys hswap
              exact ((ih ys).cons y).trans (swapIn_some hswap).2
            · exact (ih _).cons r

/-- Where the records are those of the ids, each comes to the place of its id. -/
theorem sortRecords_ids {ids : List H} {rs : List (StateRecord H)} (hnodup : ids.Nodup)
    (hperm : (rs.map StateRecord.id).Perm ids) : (sortRecords ids rs).map StateRecord.id = ids := by
  induction ids generalizing rs with
  | nil => simpa [sortRecords] using hperm
  | cons id ids ih =>
      obtain ⟨hnot, hnodup⟩ := List.nodup_cons.mp hnodup
      match rs with
      | [] => exact absurd hperm.length_eq (by simp)
      | [r] =>
          obtain ⟨rfl, rfl⟩ : id = r.id ∧ ids = [] := by simpa using hperm.symm
          rfl
      | r :: r' :: rs =>
          rw [sortRecords]
          split
          · rename_i hid
            rw [List.map_cons, hid] at hperm ⊢
            rw [ih hnodup hperm.cons_inv]
          · rename_i hid
            have hmem : ∃ x ∈ r' :: rs, x.id = id := by
              obtain ⟨x, hx, hxid⟩ := List.mem_map.mp (hperm.mem_iff.mpr List.mem_cons_self)
              rcases List.mem_cons.mp hx with rfl | hx
              · exact absurd hxid hid
              · exact ⟨x, hx, hxid⟩
            split
            · rename_i y ys hswap
              obtain ⟨hyid, hswapped⟩ := swapIn_some hswap
              have hrest := (hswapped.map StateRecord.id).trans hperm
              rw [List.map_cons, hyid] at hrest ⊢
              rw [ih hnodup hrest.cons_inv]
            · rename_i hswap
              exact absurd hswap (Option.isSome_iff_ne_none.mp (swapIn_isSome hmem))

variable (setup : Setup H)

omit setup in
/-- Whatever the order of the rows, the sort brings each to the place of its id. -/
theorem sortRecords_map {record : H → StateRecord H} (hrecord : ∀ id, (record id).id = id) {ids order : List H}
    (hnodup : ids.Nodup) (hperm : order.Perm ids) : sortRecords ids (order.map record) = ids.map record := by
  have hids : (order.map record).map StateRecord.id = order := by
    rw [List.map_map]
    exact (List.map_congr_left fun id _ => hrecord id).trans (List.map_id' _)
  have hown : ∀ r ∈ sortRecords ids (order.map record), record r.id = r := by
    intro r hr
    obtain ⟨id, -, rfl⟩ := List.mem_map.mp ((sortRecords_perm _ _).mem_iff.mp hr)
    rw [hrecord]
  calc sortRecords ids (order.map record)
      = (sortRecords ids (order.map record)).map fun r => record r.id := by
        rw [List.map_congr_left hown, List.map_id']
    _ = ((sortRecords ids (order.map record)).map StateRecord.id).map record := by
        rw [List.map_map]
        rfl
    _ = ids.map record := by rw [sortRecords_ids hnodup (by rwa [hids])]

/-- Rows of distinct ids come back by place. -/
theorem arrayFindOrCreate_fst (s : CommitState H) {ids : List H} (hnodup : ids.Nodup) :
    (s.arrayFindOrCreate setup ids).1 = ids.map (s.found setup) := by
  rw [arrayFindOrCreate, hnodup.dedup]
  split
  · rename_i hnil
    rw [hnil, List.map_nil]
  · exact sortRecords_map (s.found_id setup) hnodup (setup.order_perm ids)

theorem arrayFindOrCreate_snd (s : CommitState H) (ids : List H) :
    (s.arrayFindOrCreate setup ids).2 = s.insert setup ids := by
  rw [arrayFindOrCreate]
  split
  · rename_i hnil
    simp [insert, hnil]
  · rfl

/-- Fewer rows than ids come back where an id comes twice. -/
theorem arrayFindOrCreate_length {s : CommitState H} {ids : List H} (hdup : ¬ids.Nodup) :
    (s.arrayFindOrCreate setup ids).1.length < ids.length := by
  have hne : ids ≠ [] := fun hnil => hdup (hnil ▸ List.nodup_nil)
  rw [arrayFindOrCreate, if_neg hne, (sortRecords_perm _ _).length_eq, List.length_map,
    (setup.order_perm _).length_eq]
  refine Nat.lt_of_le_of_ne (List.dedup_sublist ids).length_le fun heq => hdup ?_
  exact (List.dedup_sublist ids).eq_of_length heq ▸ List.nodup_dedup ids

theorem insert_insert (s : CommitState H) (ids ids' : List H) :
    (s.insert setup ids).insert setup ids' = s.insert setup (ids ++ ids') := by
  simp only [insert, mk.injEq, true_and, and_true]
  funext id
  by_cases hid : id ∈ ids <;> simp [hid, found]

@[simp] theorem found_insert (s : CommitState H) (ids : List H) (id : H) :
    (s.insert setup ids).found setup id = s.found setup id := by
  by_cases hid : id ∈ ids <;> simp [hid, found, insert]

/-- Ids that are inserted once more are there. -/
theorem insert_of_subset {s : CommitState H} {ids ids' : List H} (h : ∀ id ∈ ids, id ∈ ids') :
    (s.insert setup ids).insert setup ids' = s.insert setup ids' := by
  simp only [insert, mk.injEq, true_and, and_true]
  funext id
  by_cases hid' : id ∈ ids'
  · by_cases hid : id ∈ ids <;> simp [hid, hid', found]
  · have hid : id ∉ ids := fun hmem => hid' (h id hmem)
    simp [hid, hid']

/-- Ids that are all there are not inserted. -/
theorem insert_eq_self {s : CommitState H} {ids : List H} (h : ∀ id ∈ ids, (s.records id).isSome) :
    s.insert setup ids = s := by
  rcases s with ⟨tables, records, keyed, buffer, calls⟩
  simp only [insert, mk.injEq, true_and, and_true]
  funext id
  split
  · rename_i hid
    obtain ⟨r, hr⟩ := Option.isSome_iff_exists.mp (h id hid)
    simp only [found] at hr ⊢
    rw [hr, Option.getD_some]
  · rfl

end CommitState

/-! ### New items -/

section
variable (setup : Setup H)
open CommitState

/-- The record of a new item as it is saved. -/
def approvedRecord (s : CommitState H) (item : Item H) : StateRecord H :=
  { s.found setup item.id with state := .APPROVED, expiresAt := item.expiresAt }

/-- The state after new items that are no smart contracts: all have rows, and their records are in the buffer. -/
def afterNewItems (items : List (Item H)) (s : CommitState H) : CommitState H :=
  { s.insert setup (items.map Item.id) with buffer := s.buffer ++ items.map (approvedRecord setup s) }

/-- New items that can be approved and are no smart contracts, to whose parents and origins nobody is subscribed. -/
def Ready (items : List (Item H)) (s : CommitState H) : Prop :=
  ∀ item ∈ items, item.smartContract = none ∧ Approvable (s.found setup item.id).state ∧ s.Spares item

omit [DecidableEq H] in
theorem approvable_found {s : CommitState H} {id : H} :
    Approvable (s.found setup id).state ↔ ∀ r ∈ s.records id, Approvable r.state := by
  cases h : s.records id with
  | none => simp [found, h, Setup.newRecord, Approvable, ItemState.isPending]
  | some r => simp [found, h]

@[simp] theorem spares_afterNewItems (items : List (Item H)) (s : CommitState H) (item : Item H) :
    (afterNewItems setup items s).Spares item ↔ s.Spares item := Iff.rfl

@[simp] theorem found_afterNewItems (items : List (Item H)) (s : CommitState H) (id : H) :
    (afterNewItems setup items s).found setup id = s.found setup id := found_insert setup s _ id

theorem afterNewItems_append (items items' : List (Item H)) (s : CommitState H) :
    afterNewItems setup (items ++ items') s = afterNewItems setup items' (afterNewItems setup items s) := by
  have hrecords : approvedRecord setup (afterNewItems setup items s) = approvedRecord setup s := by
    funext item
    simp [approvedRecord]
  have hinsert := insert_insert setup s (items.map Item.id) (items'.map Item.id)
  rw [afterNewItems, List.map_append, ← hinsert, afterNewItems, hrecords]
  simp [afterNewItems, CommitState.insert, List.append_assoc, found]

omit [DecidableEq H] in
theorem approve_ok {r r' : StateRecord H} {expiresAt : ℤ} :
    (r.approve (some expiresAt) false).mapError CommitError.ledger = .ok r' ↔
      Approvable r.state ∧ r' = { r with state := .APPROVED, expiresAt } := by
  refine Except.mapError_ite_ok.trans (and_congr_left fun _ => ?_)
  simp only [Approvable, Bool.false_eq_true, false_and, or_false]

theorem callNewItem_ok {root : Item H} (hroot : root.smartContract = none) {item : Item H} {s s' : CommitState H} :
    callNewItem setup false root item s = .ok s' ↔ item.smartContract = none ∧ s' = s := by
  rw [callNewItem]
  cases item.smartContract with
  | none => simp [eq_comm]
  | some revision =>
      refine ⟨fun h => ?_, nofun⟩
      obtain ⟨⟨environment, s₁⟩, -, hcall⟩ := Except.bind_eq_ok.mp h
      simp only [callOn, hroot, if_true] at hcall
      exact absurd hcall nofun

/-- Where the set spares all, nobody hears of the item. -/
theorem notify_spared (item : Item H) (state : ItemState) (t : EnvironmentTables H) :
    t.notifyContractSubscribers setup (some []) item state = .ok () := by
  have hnone : ∀ id, t.lookedUp setup (some []) id = [] := by
    intro id
    cases id <;> simp [EnvironmentTables.lookedUp]
  rw [EnvironmentTables.notifyContractSubscribers, EnvironmentTables.environmentIds, hnone, hnone]
  rfl

theorem commitNewItem_ok {root : Item H} (hroot : root.smartContract = none) {r : StateRecord H} {item : Item H}
    {s s' : CommitState H} : commitNewItem setup false root [] r item s = .ok s' ↔
      Approvable r.state ∧ item.smartContract = none ∧
        s' = { s with buffer := s.buffer ++ [{ r with state := .APPROVED, expiresAt := item.expiresAt }] } := by
  rw [commitNewItem]
  constructor
  · intro h
    obtain ⟨r', hr, h⟩ := Except.bind_eq_ok.mp h
    obtain ⟨happrovable, rfl⟩ := approve_ok.mp hr
    obtain ⟨s₁, hcall, h⟩ := Except.bind_eq_ok.mp h
    obtain ⟨hsmart, rfl⟩ := (callNewItem_ok setup hroot).mp hcall
    obtain ⟨-, -, h⟩ := Except.bind_eq_ok.mp h
    exact ⟨happrovable, hsmart, (Except.ok.inj h).symm⟩
  · rintro ⟨happrovable, hsmart, rfl⟩
    refine Except.bind_eq_ok.mpr ⟨_, approve_ok.mpr ⟨happrovable, rfl⟩, ?_⟩
    refine Except.bind_eq_ok.mpr ⟨_, (callNewItem_ok setup hroot).mpr ⟨hsmart, rfl⟩, ?_⟩
    exact Except.bind_eq_ok.mpr ⟨(), notify_spared setup .., rfl⟩

/-- The set is made where nobody is subscribed to the parents and origins, and then it is empty. -/
theorem itemsWithSubscriptions_ok {newItems : List (Tree H)} {t : EnvironmentTables H} {hashes : List H} :
    t.getItemsWithSubscriptions (hashesOf newItems) = .ok hashes ↔
      (∀ newItem ∈ newItems, t.Spares newItem.item) ∧ hashes = [] := by
  have hmem : (t.subscriptions.any fun row => row.1 ∈ hashesOf newItems) = false ↔
      ∀ newItem ∈ newItems, t.Spares newItem.item := by
    simp only [hashesOf, List.any_eq_false, decide_eq_true_eq, List.mem_flatMap, List.mem_append,
      Option.mem_toList, List.mem_singleton, not_exists, not_and, not_or, EnvironmentTables.Spares, ne_eq,
      @eq_comm H _ (Item.origin _)]
    exact ⟨fun h newItem hitem row hrow => h row hrow newItem hitem,
      fun h row hrow newItem hitem => h newItem hitem row hrow⟩
  rw [EnvironmentTables.getItemsWithSubscriptions, ← hmem]
  cases t.subscriptions.any fun row => decide (row.1 ∈ hashesOf newItems) with
  | true => simp
  | false => simp [eq_comm]

theorem commitNewItems_short {root : Item H} {hashes : List H} {rs : List (StateRecord H)}
    {newItems : List (Tree H)} (h : rs.length < newItems.length) (s s' : CommitState H) :
    commitNewItems setup false root hashes rs newItems s ≠ .ok s' := by
  induction newItems generalizing rs s with
  | nil => exact absurd h (Nat.not_lt_zero _)
  | cons newItem newItems ih =>
      cases rs with
      | nil => simp [commitNewItems]
      | cons r rs =>
          intro hok
          rw [commitNewItems] at hok
          obtain ⟨s₁, -, hok⟩ := Except.bind_eq_ok.mp hok
          obtain ⟨s₂, -, hok⟩ := Except.bind_eq_ok.mp hok
          exact ih (Nat.lt_of_succ_lt_succ h) s₂ hok

omit [DecidableEq H] in
theorem mem_newItemsOf {newItems : List (Tree H)} {newItem : Tree H} (h : newItem ∈ newItems) :
    newItem.item ∈ newItemsOf newItems := by
  induction newItems with
  | nil => simp at h
  | cons first newItems ih =>
      rw [newItemsOf]
      rcases List.mem_cons.mp h with rfl | h
      · exact List.mem_cons_self
      · exact List.mem_cons_of_mem _ (List.mem_append.mpr (Or.inr (ih h)))

theorem afterNewItems_insert {items : List (Item H)} {s : CommitState H} {ids : List H}
    (h : ∀ id ∈ ids, id ∈ items.map Item.id) :
    afterNewItems setup items (s.insert setup ids) = afterNewItems setup items s := by
  have hrecords : approvedRecord setup (s.insert setup ids) = approvedRecord setup s := by
    funext item
    simp [approvedRecord]
  rw [afterNewItems, insert_of_subset setup h, hrecords]
  rfl

theorem isSome_afterNewItems {items : List (Item H)} {s : CommitState H} {id : H} (h : (s.records id).isSome) :
    ((afterNewItems setup items s).records id).isSome := by
  simp only [afterNewItems, CommitState.insert]
  split
  · rfl
  · exact h

theorem ready_afterNewItems {items items' : List (Item H)} {s : CommitState H} :
    Ready setup items (afterNewItems setup items' s) ↔ Ready setup items s := by
  simp [Ready]

mutual

/-- The recursion over new items goes through just when all of them are ready, and it leaves their records. -/
theorem newItems_ok {root : Item H} (hroot : root.smartContract = none) : ∀ (tree : Tree H) (s s' : CommitState H),
    downloadAndCommitNewItemsOf setup false root tree s = .ok s' ↔
      Ready setup tree.allNewItems s ∧ tree.SiblingsDiffer ∧ s' = afterNewItems setup tree.allNewItems s
  | .node _ newItems _, s, s' => by
      rw [downloadAndCommitNewItemsOf, Tree.SiblingsDiffer, Tree.allNewItems]
      obtain ⟨ids, hids⟩ : ∃ ids, newItems.map (fun newItem => newItem.item.id) = ids := ⟨_, rfl⟩
      rw [hids]
      show ((s.arrayFindOrCreate setup ids).2.getItemsWithSubscriptions (hashesOf newItems) >>= fun hashes =>
        commitNewItems setup false root hashes (s.arrayFindOrCreate setup ids).1 newItems
          (s.arrayFindOrCreate setup ids).2) = .ok s' ↔ _
      by_cases hnodup : ids.Nodup
      · have hsome : ∀ newItem ∈ newItems, ((s.insert setup ids).records newItem.item.id).isSome := by
          intro newItem hmem
          have hid : newItem.item.id ∈ ids := hids ▸ List.mem_map_of_mem hmem
          simp [CommitState.insert, hid]
        have hrs : ids.map (s.found setup) =
            newItems.map fun newItem => (s.insert setup ids).found setup newItem.item.id := by
          rw [← hids, List.map_map]
          simp [Function.comp_def]
        have hall : afterNewItems setup (newItemsOf newItems) (s.insert setup ids) =
            afterNewItems setup (newItemsOf newItems) s := by
          refine afterNewItems_insert setup fun id hid => ?_
          obtain ⟨newItem, hmem, rfl⟩ := List.mem_map.mp (hids ▸ hid)
          exact List.mem_map_of_mem (mem_newItemsOf hmem)
        have hdirect (h : Ready setup (newItemsOf newItems) (s.insert setup ids)) :
            ∀ newItem ∈ newItems, (s.insert setup ids).Spares newItem.item :=
          fun newItem hmem => (h newItem.item (mem_newItemsOf hmem)).2.2
        have hready : Ready setup (newItemsOf newItems) (s.insert setup ids) ↔
            Ready setup (newItemsOf newItems) s := by
          simp only [Ready, found_insert]
          exact Iff.rfl
        rw [arrayFindOrCreate_fst setup s hnodup, arrayFindOrCreate_snd, hrs, Except.bind_eq_ok, ← hall, ← hready]
        constructor
        · rintro ⟨hashes, hhashes, hok⟩
          obtain ⟨hspared, rfl⟩ := itemsWithSubscriptions_ok.mp hhashes
          obtain ⟨h, hdiffer, rfl⟩ := (commitNewItems_ok hroot newItems _ s' hsome hspared).mp hok
          exact ⟨h, ⟨hnodup, hdiffer⟩, rfl⟩
        · rintro ⟨h, ⟨-, hdiffer⟩, rfl⟩
          refine ⟨[], itemsWithSubscriptions_ok.mpr ⟨hdirect h, rfl⟩, ?_⟩
          exact (commitNewItems_ok hroot newItems _ _ hsome (hdirect h)).mpr ⟨h, hdiffer, rfl⟩
      · constructor
        · intro hok
          obtain ⟨hashes, -, hok⟩ := Except.bind_eq_ok.mp hok
          refine absurd hok (commitNewItems_short setup ?_ _ _)
          have hlength := arrayFindOrCreate_length setup (s := s) hnodup
          rwa [← hids, List.length_map, hids] at hlength
        · rintro ⟨-, ⟨h, -⟩, -⟩
          exact absurd h hnodup

theorem commitNewItems_ok {root : Item H} (hroot : root.smartContract = none) :
    ∀ (newItems : List (Tree H)) (s s' : CommitState H),
      (∀ newItem ∈ newItems, (s.records newItem.item.id).isSome) →
      (∀ newItem ∈ newItems, s.Spares newItem.item) →
      (commitNewItems setup false root [] (newItems.map fun newItem => s.found setup newItem.item.id) newItems s =
          .ok s' ↔
        Ready setup (newItemsOf newItems) s ∧ SiblingsOfDiffer newItems ∧
          s' = afterNewItems setup (newItemsOf newItems) s)
  | [], s, s', _, _ => by
      have hnone : afterNewItems setup [] s = s := by
        simp [afterNewItems, CommitState.insert]
      simp [commitNewItems, newItemsOf, SiblingsOfDiffer, Ready, hnone, eq_comm]
  | newItem :: newItems, s, s', hsome, hspared => by
      obtain ⟨hfirst, hrest⟩ := List.forall_mem_cons.mp hsome
      obtain ⟨hsparedFirst, hsparedRest⟩ := List.forall_mem_cons.mp hspared
      -- the record of the first is there, so only its buffer entry is new
      have hone : ∀ r, r = s.found setup newItem.item.id →
          { s with buffer := s.buffer ++ [{ r with state := .APPROVED, expiresAt := newItem.item.expiresAt }] } =
            afterNewItems setup [newItem.item] s := by
        rintro r rfl
        have hself : s.insert setup [newItem.item.id] = s := insert_eq_self setup (by simpa using hfirst)
        rw [afterNewItems, List.map_singleton, hself]
        rfl
      have hall : afterNewItems setup (newItemsOf (newItem :: newItems)) s = afterNewItems setup (newItemsOf newItems)
          (afterNewItems setup newItem.allNewItems (afterNewItems setup [newItem.item] s)) := by
        rw [newItemsOf, ← afterNewItems_append, ← afterNewItems_append]
        rfl
      obtain ⟨s₂, hs₂⟩ : ∃ s₂, afterNewItems setup newItem.allNewItems (afterNewItems setup [newItem.item] s) = s₂ :=
        ⟨_, rfl⟩
      have hready : Ready setup (newItemsOf (newItem :: newItems)) s ↔
          (newItem.item.smartContract = none ∧ Approvable (s.found setup newItem.item.id).state ∧
            s.Spares newItem.item) ∧
            Ready setup newItem.allNewItems (afterNewItems setup [newItem.item] s) ∧
              Ready setup (newItemsOf newItems) s₂ := by
        rw [← hs₂, ready_afterNewItems, ready_afterNewItems, ready_afterNewItems, newItemsOf]
        exact List.forall_mem_cons.trans (and_congr_right' List.forall_mem_append)
      have hspared' : ∀ newItem ∈ newItems, s₂.Spares newItem.item := by
        intro newItem' hmem
        rw [← hs₂, spares_afterNewItems, spares_afterNewItems]
        exact hsparedRest newItem' hmem
      have hrs : (newItems.map fun newItem => s.found setup newItem.item.id) =
          newItems.map fun newItem => s₂.found setup newItem.item.id := by
        simp [← hs₂]
      have hrest' : ∀ newItem ∈ newItems, (s₂.records newItem.item.id).isSome := by
        intro newItem' hmem
        exact hs₂ ▸ isSome_afterNewItems setup (isSome_afterNewItems setup (hrest newItem' hmem))
      rw [List.map_cons, commitNewItems, hready, SiblingsOfDiffer, hall, hs₂, hrs]
      constructor
      · intro h
        obtain ⟨s₁, h₁, h⟩ := Except.bind_eq_ok.mp h
        obtain ⟨s₂', h₂, h⟩ := Except.bind_eq_ok.mp h
        obtain ⟨happrovable, hsmart, rfl⟩ := (commitNewItem_ok setup hroot).mp h₁
        rw [hone _ rfl] at h₂
        obtain ⟨hdeep, hdiffer, rfl⟩ := (newItems_ok hroot newItem _ _).mp h₂
        rw [hs₂] at h
        obtain ⟨hready', hdiffer', rfl⟩ := (commitNewItems_ok hroot newItems _ _ hrest' hspared').mp h
        exact ⟨⟨⟨hsmart, happrovable, hsparedFirst⟩, hdeep, hready'⟩, ⟨hdiffer, hdiffer'⟩, rfl⟩
      · rintro ⟨⟨⟨hsmart, happrovable, -⟩, hdeep, hready'⟩, ⟨hdiffer, hdiffer'⟩, rfl⟩
        refine Except.bind_eq_ok.mpr ⟨_, (commitNewItem_ok setup hroot).mpr ⟨happrovable, hsmart, rfl⟩, ?_⟩
        rw [hone _ rfl]
        refine Except.bind_eq_ok.mpr ⟨_, (newItems_ok hroot newItem _ _).mpr ⟨hdeep, hdiffer, rfl⟩, ?_⟩
        rw [hs₂]
        exact (commitNewItems_ok hroot newItems _ _ hrest' hspared').mpr ⟨hready', hdiffer', rfl⟩

end

/-! ### The buffer -/

omit setup in
theorem update_records {s : CommitState H} {r : StateRecord H} (h : (s.records r.id).isSome) (id : H) :
    (s.update r).records id = if id = r.id then some r else s.records id := by
  obtain ⟨row, hrow⟩ := Option.isSome_iff_exists.mp h
  simp [CommitState.update, Function.update_apply, hrow]

/-- Rows that are saved one after another: those of other ids stay, and one of the saved is the last of its id. -/
theorem updates_records (rs : List (StateRecord H)) {s : CommitState H} (h : ∀ r ∈ rs, (s.records r.id).isSome)
    (id : H) : (rs.foldl (fun s r => s.update r) s).records id = s.records id ∧ (∀ r ∈ rs, r.id ≠ id) ∨
      ∃ r ∈ rs, r.id = id ∧ (rs.foldl (fun s r => s.update r) s).records id = some r := by
  induction rs generalizing s with
  | nil => exact Or.inl ⟨rfl, by simp⟩
  | cons r rs ih =>
      obtain ⟨hfirst, hrest⟩ := List.forall_mem_cons.mp h
      have hsome : ∀ r' ∈ rs, ((s.update r).records r'.id).isSome := by
        intro r' hr'
        rw [update_records hfirst]
        split
        · rfl
        · exact hrest r' hr'
      rw [List.foldl_cons]
      rcases ih hsome with ⟨heq, hnone⟩ | ⟨r', hr', hid, heq⟩
      · rw [heq, update_records hfirst]
        by_cases hid : id = r.id
        · exact Or.inr ⟨r, List.mem_cons_self, hid.symm, if_pos hid⟩
        · exact Or.inl ⟨if_neg hid, List.forall_mem_cons.mpr ⟨fun h => hid h.symm, hnone⟩⟩
      · exact Or.inr ⟨r', List.mem_cons_of_mem _ hr', hid, heq⟩

theorem updates_rest (rs : List (StateRecord H)) (s : CommitState H) :
    (rs.foldl (fun s r => s.update r) s).toEnvironmentTables = s.toEnvironmentTables ∧
      (rs.foldl (fun s r => s.update r) s).calls = s.calls := by
  induction rs generalizing s with
  | nil => exact ⟨rfl, rfl⟩
  | cons r rs ih => exact ih (s.update r)

/-- The state after all new items are saved. -/
def afterSave (items : List (Item H)) (s : CommitState H) : CommitState H := (afterNewItems setup items s).arraySave

/-- The records of new items are approved, the others are as they were. -/
theorem afterSave_records (items : List (Item H)) {s : CommitState H} (hbuffer : s.buffer = []) (id : H) :
    (HasState (afterSave setup items s) id .APPROVED ∧ ∃ item ∈ items, item.id = id) ∨
      (afterSave setup items s).records id = s.records id ∧ ∀ item ∈ items, item.id ≠ id := by
  have hsome : ∀ r ∈ items.map (approvedRecord setup s),
      ((afterNewItems setup items s).records r.id).isSome := by
    intro r hr
    obtain ⟨item, hitem, rfl⟩ := List.mem_map.mp hr
    have hid : item.id ∈ items.map Item.id := List.mem_map_of_mem hitem
    simp [afterNewItems, CommitState.insert, approvedRecord, -List.mem_map, hid]
  have hrecords := updates_records (items.map (approvedRecord setup s)) hsome id
  have heq : (afterSave setup items s).records =
      ((items.map (approvedRecord setup s)).foldl (fun s r => s.update r) (afterNewItems setup items s)).records := by
    simp [afterSave, arraySave, afterNewItems, hbuffer]
  rcases hrecords with ⟨hsame, hnone⟩ | ⟨r, hr, hid, hsame⟩
  · have hnot : ∀ item ∈ items, item.id ≠ id := by
      intro item hitem heq
      exact hnone _ (List.mem_map_of_mem hitem) (by simpa [approvedRecord] using heq)
    refine Or.inr ⟨?_, hnot⟩
    rw [heq, hsame, afterNewItems]
    simp only [CommitState.insert]
    rw [if_neg]
    rintro hmem
    obtain ⟨item, hitem, hid⟩ := List.mem_map.mp hmem
    exact hnot item hitem hid
  · obtain ⟨item, hitem, rfl⟩ := List.mem_map.mp hr
    exact Or.inl ⟨⟨_, (congrFun heq id).trans hsame, rfl⟩, item, hitem, by simpa [approvedRecord] using hid⟩

theorem afterSave_rest {items : List (Item H)} {s : CommitState H} :
    (afterSave setup items s).toEnvironmentTables = s.toEnvironmentTables ∧
      (afterSave setup items s).calls = s.calls :=
  updates_rest _ _

/-! ### Revoking items -/

variable {committed : H → Option Environment} {root : Tree H}

mutual

/-- The recursion over revoking items goes through them in order. -/
theorem revokes_eq : ∀ (tree : Tree H) (s : CommitState H),
    downloadAndCommitRevokesOf setup committed root tree s =
      tree.allRevokingItems.foldlM (fun s item => commitRevoke setup committed root item s) s
  | .node _ newItems revokingItems, s => by
      rw [downloadAndCommitRevokesOf, Tree.allRevokingItems, List.foldlM_append]
      congr 1
      funext s
      exact commitRevokes_eq newItems s

theorem commitRevokes_eq : ∀ (newItems : List (Tree H)) (s : CommitState H),
    commitRevokes setup committed root newItems s =
      (revokingItemsOf newItems).foldlM (fun s item => commitRevoke setup committed root item s) s
  | [], s => by
      rw [commitRevokes, revokingItemsOf]
      rfl
  | newItem :: newItems, s => by
      rw [commitRevokes, revokingItemsOf, List.foldlM_append, revokes_eq newItem s]
      congr 1
      funext s
      exact commitRevokes_eq newItems s

end

omit [DecidableEq H] in
theorem revoke_ok {r r' : StateRecord H} :
    (r.revoke setup.now false).mapError CommitError.ledger = .ok r' ↔ Revocable r.state ∧
      r' = { r with state := .REVOKED, expiresAt := setup.now + Config.revokedItemExpiration * 1000 } := by
  refine Except.mapError_ite_ok.trans (and_congr_left fun _ => ?_)
  simp only [Revocable, Bool.false_eq_true, false_and, or_false]

/-- What the end of a contract makes of its environment, by whose environment it was called with. -/
def EnvironmentEnds (committed before after : Option Environment) (opens own : Prop) : Prop :=
  (opens ∧ own ∧ after = if committed.isSome then none else before) ∨
    (before = none ∧ (own → after = if committed.isSome then none else some .readable))

/-- What the turn of a revoking item does, where it goes through. -/
structure Revoked (committed : H → Option Environment) (root : Tree H) (item : Item H) (s s' : CommitState H) :
    Prop where
  revocable : ∃ r, s.records item.id = some r ∧ Revocable r.state
  state : HasState s' item.id .REVOKED
  records : ∀ id, id ≠ item.id → s'.records id = s.records id
  environments : ∀ id, id ≠ item.id → s'.environments id = s.environments id
  opens : ∀ id, id ≠ item.id → (s'.Opens id ↔ s.Opens id)
  calls : if Ends root item then ∃ environment, s'.calls = s.calls ++ [⟨.onRevoked, item.id, environment⟩] ∧
      EnvironmentEnds (committed item.id) (s.environments item.id) (s'.environments item.id) (s.Opens item.id)
        (environment = item.id)
    else s'.calls = s.calls ∧ s'.environments = s.environments

/-- What is read is there and has no subscription. -/
theorem getEnvironment_ok {t : EnvironmentTables H} {id : H} : t.getEnvironment id = .ok () ↔ t.Opens id := by
  rw [EnvironmentTables.getEnvironment, EnvironmentTables.Opens]
  cases t.environments id with
  | none => simp
  | some e =>
      cases e with
      | throws | pending => simp
      | readable =>
          cases hany : t.subscriptions.any fun row => decide (row.2 = id) with
          | true => simpa using hany
          | false => simpa using hany

theorem environment_spec (committed : H → Option Environment) {item : Item H} {s s' : CommitState H} {environment : H}
    (h : s.getEnvironmentByContract item = .ok (environment, s')) :
    s'.records = s.records ∧ s'.calls = s.calls ∧ s'.subscriptions = s.subscriptions ∧
      (∀ id, id ≠ item.id → s'.environments id = s.environments id) ∧
      EnvironmentEnds (committed item.id) (s.environments item.id)
        ((s'.removeEnvironment committed item.id).environments item.id) (s.Opens item.id) (environment = item.id) := by
  have hread {id : H} (h : (s.getEnvironment id).map (fun _ => (id, s)) = .ok (environment, s')) :
      s.Opens id ∧ environment = id ∧ s' = s := by
    cases hget : s.getEnvironment id with
    | error e =>
        rw [hget] at h
        exact absurd h nofun
    | ok _ =>
        rw [hget] at h
        obtain ⟨rfl, rfl⟩ := Prod.mk.inj (Except.ok.inj h)
        exact ⟨getEnvironment_ok.mp hget, rfl, rfl⟩
  rw [CommitState.getEnvironmentByContract] at h
  cases hown : s.environments item.id with
  | some e =>
      simp only [hown, Option.map_some, Option.some_or, Option.getD_some] at h
      obtain ⟨hopens, rfl, rfl⟩ := hread h
      refine ⟨rfl, rfl, rfl, fun _ _ => rfl, Or.inl ⟨hopens, rfl, ?_⟩⟩
      rw [CommitState.removeEnvironment]
      split
      · exact Function.update_self ..
      · exact hown
  | none =>
      simp only [hown, Option.map_none, Option.none_or] at h
      cases hparent : item.parent.bind fun id => s.environments id with
      | none =>
          have hnone : (item.parent.bind fun id => (s.environments id).map fun _ =>
              (s.getEnvironment id).map fun _ => (id, s)) = none := by
            cases hp : item.parent with
            | none => rfl
            | some p => simpa [hp] using hparent
          rw [hnone, Option.getD_none] at h
          obtain ⟨rfl, rfl⟩ := Prod.mk.inj (Except.ok.inj h)
          refine ⟨rfl, rfl, rfl, fun id hid => Function.update_of_ne hid .., Or.inr ⟨rfl, fun _ => ?_⟩⟩
          rw [CommitState.removeEnvironment]
          split
          · exact Function.update_self ..
          · exact Function.update_self ..
      | some e =>
          obtain ⟨p, hp, he⟩ := Option.bind_eq_some_iff.mp hparent
          simp only [hp, Option.bind_some, he, Option.map_some, Option.getD_some] at h
          obtain ⟨-, rfl, rfl⟩ := hread h
          refine ⟨rfl, rfl, rfl, fun _ _ => rfl, Or.inr ⟨rfl, fun heq => ?_⟩⟩
          rw [heq, hown] at he
          exact absurd he nofun

/-- The record of a revoking item as it is saved. -/
def revokedRecord (s : CommitState H) (item : Item H) : StateRecord H :=
  { s.found setup item.id with
    state := .REVOKED
    expiresAt := setup.now + Config.revokedItemExpiration * 1000 }

/-- The state after that. -/
def afterRevoke (item : Item H) (s : CommitState H) : CommitState H :=
  (s.insert setup [item.id]).update (revokedRecord setup s item)

theorem afterRevoke_records (item : Item H) (s : CommitState H) :
    HasState (afterRevoke setup item s) item.id .REVOKED ∧
      ∀ id, id ≠ item.id → (afterRevoke setup item s).records id = s.records id := by
  have hrid : (revokedRecord setup s item).id = item.id := found_id setup s item.id
  have hsome : ((s.insert setup [item.id]).records (revokedRecord setup s item).id).isSome := by
    simp [CommitState.insert, hrid]
  refine ⟨⟨_, (update_records hsome item.id).trans (if_pos hrid.symm), rfl⟩, fun id hid => ?_⟩
  rw [afterRevoke, update_records hsome, if_neg (by rwa [hrid])]
  simp [CommitState.insert, hid]

theorem revokeAndRemove_eq {item : Item H} {s s' : CommitState H} :
    revokeAndRemove setup committed root item s = .ok s' ↔ Revocable (s.found setup item.id).state ∧
      if Ends root item then ∃ environment s₁,
        (afterRevoke setup item s).getEnvironmentByContract item = .ok (environment, s₁) ∧
          s' = CommitState.removeEnvironment committed item.id
            { s₁ with calls := s₁.calls ++ [⟨.onRevoked, item.id, environment⟩] }
      else s' = afterRevoke setup item s := by
  rw [revokeAndRemove, Except.bind_eq_ok]
  constructor
  · rintro ⟨r', hr, h⟩
    obtain ⟨hrevocable, rfl⟩ := (revoke_ok setup).mp hr
    refine ⟨hrevocable, ?_⟩
    by_cases hends : Ends root item
    · rw [if_pos hends]
      obtain ⟨⟨environment, s₁⟩, henvironment, h⟩ := Except.bind_eq_ok.mp ((if_pos hends).symm.trans h)
      exact ⟨environment, s₁, henvironment, (Except.ok.inj h).symm⟩
    · rw [if_neg hends]
      exact (Except.ok.inj ((if_neg hends).symm.trans h)).symm
  · rintro ⟨hrevocable, h⟩
    refine ⟨_, (revoke_ok setup).mpr ⟨hrevocable, rfl⟩, ?_⟩
    by_cases hends : Ends root item
    · rw [if_pos hends] at h
      obtain ⟨environment, s₁, henvironment, rfl⟩ := h
      exact (if_pos hends).trans (Except.bind_eq_ok.mpr ⟨_, henvironment, rfl⟩)
    · rw [if_neg hends] at h
      subst h
      exact if_neg hends

omit [DecidableEq H] in
theorem revocable_found {s : CommitState H} {id : H} : Revocable (s.found setup id).state ↔
    ∃ r, s.records id = some r ∧ Revocable r.state := by
  cases h : s.records id with
  | none => simp [found, h, Setup.newRecord, Revocable]
  | some r => simp [found, h]

theorem removeEnvironment_rest (committed : H → Option Environment) (s : CommitState H) (id : H) :
    (s.removeEnvironment committed id).records = s.records ∧ (s.removeEnvironment committed id).calls = s.calls ∧
      (∀ id', id' ≠ id → (s.removeEnvironment committed id).environments id' = s.environments id') ∧
        ∀ row : H × H, row.2 ≠ id →
          (row ∈ (s.removeEnvironment committed id).subscriptions ↔ row ∈ s.subscriptions) := by
  rw [CommitState.removeEnvironment]
  split
  · refine ⟨rfl, rfl, fun id' hid' => Function.update_of_ne hid' .., fun row hrow => ?_⟩
    exact List.mem_filter.trans (and_iff_left (decide_eq_true hrow))
  · exact ⟨rfl, rfl, fun _ _ => rfl, fun _ _ => Iff.rfl⟩

theorem revoked_of_revokeAndRemove {item : Item H} {s s' : CommitState H}
    (h : revokeAndRemove setup committed root item s = .ok s') : Revoked committed root item s s' := by
  obtain ⟨hrevocable, h⟩ := (revokeAndRemove_eq setup).mp h
  obtain ⟨hstate, hrecords⟩ := afterRevoke_records setup item s
  by_cases hends : Ends root item
  · rw [if_pos hends] at h
    obtain ⟨environment, s₁, henvironment, rfl⟩ := h
    obtain ⟨hrecords₁, hcalls₁, hsubscriptions₁, hothers₁, hspec⟩ := environment_spec committed henvironment
    obtain ⟨hrecords₂, hcalls₂, hothers₂, hsubscriptions₂⟩ := removeEnvironment_rest committed
      { s₁ with calls := s₁.calls ++ [⟨.onRevoked, item.id, environment⟩] } item.id
    refine ⟨(revocable_found setup).mp hrevocable, ?_, fun id hid => ?_, fun id hid => ?_, fun id hid => ?_, ?_⟩
    · rw [HasState, hrecords₂]
      exact hrecords₁ ▸ hstate
    · rw [hrecords₂]
      exact (congrFun hrecords₁ id).trans (hrecords id hid)
    · exact (hothers₂ id hid).trans (hothers₁ id hid)
    · refine and_congr (by rw [hothers₂ id hid, hothers₁ id hid]; rfl) ?_
      -- only rows of the ended contract went
      refine forall_congr' fun row => ⟨fun h hrow heq => ?_, fun h hrow heq => ?_⟩
      · exact h ((hsubscriptions₂ row (heq ▸ hid)).mpr (hsubscriptions₁ ▸ hrow)) heq
      · exact h (hsubscriptions₁ ▸ (hsubscriptions₂ row (heq ▸ hid)).mp hrow) heq
    · rw [if_pos hends]
      refine ⟨environment, hcalls₂.trans (by rw [hcalls₁]; rfl), ?_⟩
      have hremoved : (CommitState.removeEnvironment committed item.id
          { s₁ with calls := s₁.calls ++ [⟨.onRevoked, item.id, environment⟩] }).environments =
          (s₁.removeEnvironment committed item.id).environments := by
        rw [CommitState.removeEnvironment, CommitState.removeEnvironment]
        split <;> rfl
      rw [hremoved]
      exact hspec
  · rw [if_neg hends] at h
    subst h
    refine ⟨(revocable_found setup).mp hrevocable, hstate, hrecords, fun _ _ => rfl, fun _ _ => Iff.rfl, ?_⟩
    rw [if_neg hends]
    exact ⟨rfl, rfl⟩

omit setup in
theorem getEnvironmentByContract_opens {item : Item H} {s : CommitState H} (h : s.Opens item.id) :
    s.getEnvironmentByContract item = .ok (item.id, s) := by
  simp [CommitState.getEnvironmentByContract, h.1, getEnvironment_ok.mpr h, Except.map]

/-- A revoking item goes through where its record is locked, and its environment is its own. -/
theorem exists_revokeAndRemove (committed : H → Option Environment) {item : Item H} {s : CommitState H}
    (hrevocable : ∃ r, s.records item.id = some r ∧ Revocable r.state)
    (henvironment : Ends root item → s.Opens item.id) :
    ∃ s', revokeAndRemove setup committed root item s = .ok s' := by
  by_cases hends : Ends root item
  · have hfound := getEnvironmentByContract_opens (s := afterRevoke setup item s) (henvironment hends)
    refine ⟨CommitState.removeEnvironment committed item.id
      { afterRevoke setup item s with
        calls := (afterRevoke setup item s).calls ++ [⟨.onRevoked, item.id, item.id⟩] }, ?_⟩
    rw [revokeAndRemove_eq, if_pos hends]
    exact ⟨(revocable_found setup).mpr hrevocable, item.id, _, hfound, rfl⟩
  · refine ⟨afterRevoke setup item s, ?_⟩
    rw [revokeAndRemove_eq, if_neg hends]
    exact ⟨(revocable_found setup).mpr hrevocable, rfl⟩

/-- Contracts that end have environments of their own, which were there before. -/
def OwnEnvironments (committed : H → Option Environment) (root : Tree H) (items : List (Item H))
    (t : EnvironmentTables H) : Prop :=
  ∀ item ∈ items, Ends root item → t.Opens item.id ∧ (committed item.id).isSome

omit [DecidableEq H] setup in
/-- The subscriptions are the same, and the environments that have them. -/
def SameSubscribed (t t' : EnvironmentTables H) : Prop :=
  t'.subscriptions = t.subscriptions ∧ ∀ row ∈ t.subscriptions, t'.environments row.2 = t.environments row.2

omit [DecidableEq H] setup in
theorem SameSubscribed.trans {t t' t'' : EnvironmentTables H} (h : SameSubscribed t t') (h' : SameSubscribed t' t'') :
    SameSubscribed t t'' :=
  ⟨h'.1.trans h.1, fun row hrow => (h'.2 row (h.1.symm ▸ hrow)).trans (h.2 row hrow)⟩

/-- The environment of a contract that ends is gone, and it had no subscription. -/
theorem subscribed_of_revokeAndRemove {item : Item H} {s s' : CommitState H}
    (hown : Ends root item → s.Opens item.id) (h : revokeAndRemove setup committed root item s = .ok s') :
    SameSubscribed s.toEnvironmentTables s'.toEnvironmentTables := by
  obtain ⟨-, h⟩ := (revokeAndRemove_eq setup).mp h
  by_cases hends : Ends root item
  · have hopens : (afterRevoke setup item s).Opens item.id := hown hends
    rw [if_pos hends] at h
    obtain ⟨environment, s₁, hfound, rfl⟩ := h
    obtain ⟨rfl, rfl⟩ := Prod.mk.inj (Except.ok.inj ((getEnvironmentByContract_opens hopens).symm.trans hfound))
    rw [CommitState.removeEnvironment]
    split
    · refine ⟨List.filter_eq_self.mpr fun row hrow => decide_eq_true (hopens.2 row hrow), fun row hrow => ?_⟩
      exact Function.update_of_ne (hopens.2 row hrow) ..
    · exact ⟨rfl, fun _ _ => rfl⟩
  · rw [if_neg hends] at h
    subst h
    exact ⟨rfl, fun _ _ => rfl⟩

/-- Who is asked has a subscription. -/
theorem row_of_environmentIds {item : Item H} {state : ItemState} {t : EnvironmentTables H} {id : H}
    (h : id ∈ t.environmentIds setup none item state) : ∃ row ∈ t.subscriptions, row.2 = id := by
  have hlooked : ∀ hash, id ∈ t.lookedUp setup none hash → ∃ row ∈ t.subscriptions, row.2 = id := by
    rintro (- | hash) hmem
    · exact absurd hmem (List.not_mem_nil)
    · have hmem : id ∈ setup.subscribers hash _ := hmem
      obtain ⟨row, hrow, hid⟩ := List.mem_map.mp (List.mem_dedup.mp ((setup.subscribers_perm _ _).mem_iff.mp hmem))
      exact ⟨row, List.mem_of_mem_filter hrow, hid⟩
  rcases List.mem_append.mp h with h | h
  · exact hlooked _ h
  · exact hlooked _ (List.mem_of_mem_filter h)

/-- A loop over environments with subscriptions ends where the first throws. -/
theorem notify_ok {item : Item H} {state : ItemState} {t : EnvironmentTables H} {ids : List H}
    (hrows : ∀ id ∈ ids, ∃ row ∈ t.subscriptions, row.2 = id) : t.notify setup item state ids = .ok () ↔
      ∀ id ∈ ids.head?, t.environments id = none ∨ t.environments id = some .throws := by
  cases ids with
  | nil => simp [EnvironmentTables.notify]
  | cons id ids =>
      have hany : (t.subscriptions.any fun row => decide (row.2 = id)) = true := by
        simpa using hrows id List.mem_cons_self
      rw [EnvironmentTables.notify, EnvironmentTables.getEnvironment, hany]
      cases hid : t.environments id with
      | none => simp [hid]
      | some e => cases e <;> simp [hid]

theorem settles_iff {item : Item H} {state : ItemState} {t : EnvironmentTables H} :
    t.notifyContractSubscribers setup none item state = .ok () ↔ Settles setup item state t :=
  notify_ok setup fun _ hid => row_of_environmentIds setup hid

/-- Tables in which the same are subscribed are asked in the same way. -/
theorem SameSubscribed.settles_iff {t t' : EnvironmentTables H} (h : SameSubscribed t t') {item : Item H}
    {state : ItemState} : Settles setup item state t' ↔ Settles setup item state t := by
  have hlooked (hash : Option H) : t'.lookedUp setup none hash = t.lookedUp setup none hash := by
    cases hash with
    | none => rfl
    | some hash => rw [EnvironmentTables.lookedUp, EnvironmentTables.lookedUp, h.1]
  have hids : t'.environmentIds setup none item state = t.environmentIds setup none item state := by
    simp only [EnvironmentTables.environmentIds, hlooked]
  rw [Settles, Settles, hids]
  refine forall₂_congr fun id hid => ?_
  obtain ⟨row, hrow, rfl⟩ := row_of_environmentIds setup (List.mem_of_mem_head? hid)
  rw [h.2 row hrow]

theorem commitRevoke_ok {item : Item H} {s s' : CommitState H} :
    commitRevoke setup committed root item s = .ok s' ↔
      revokeAndRemove setup committed root item s = .ok s' ∧ Settles setup item .REVOKED s'.toEnvironmentTables := by
  rw [commitRevoke, Except.bind_eq_ok]
  constructor
  · rintro ⟨s₁, h₁, h⟩
    obtain ⟨⟨⟩, hnotify, h⟩ := Except.bind_eq_ok.mp h
    obtain rfl := Except.ok.inj h
    exact ⟨h₁, (settles_iff setup).mp hnotify⟩
  · rintro ⟨h₁, hsettles⟩
    exact ⟨s', h₁, Except.bind_eq_ok.mpr ⟨(), (settles_iff setup).mpr hsettles, rfl⟩⟩

/-- What revoking items do, where all go through: each is of another id, each record is revoked, and what is of no
    item stays as it was. -/
structure AllRevoked (committed : H → Option Environment) (root : Tree H) (items : List (Item H))
    (s s' : CommitState H) : Prop where
  nodup : (items.map Item.id).Nodup
  revocable : ∀ item ∈ items, ∃ r, s.records item.id = some r ∧ Revocable r.state
  state : ∀ item ∈ items, HasState s' item.id .REVOKED
  records : ∀ id, (∀ item ∈ items, item.id ≠ id) → s'.records id = s.records id
  environments : ∀ id, (∀ item ∈ items, item.id ≠ id) → s'.environments id = s.environments id
  opens : ∀ id, (∀ item ∈ items, item.id ≠ id) → (s'.Opens id ↔ s.Opens id)
  otherCalls : ∀ id revoked, (revoked = true → ∀ item ∈ items, item.id ≠ id) →
    callsOf s' id revoked = callsOf s id revoked
  calls : ∀ item ∈ items, Ends root item → ∃ environment,
    callsOf s' item.id true = callsOf s item.id true ++ [⟨.onRevoked, item.id, environment⟩] ∧
      EnvironmentEnds (committed item.id) (s.environments item.id) (s'.environments item.id) (s.Opens item.id)
        (environment = item.id)

theorem Revoked.callsOf_eq {item : Item H} {s s' : CommitState H} (h : Revoked committed root item s s') (id : H)
    (revoked : Bool) (hid : revoked = true → item.id ≠ id) : callsOf s' id revoked = callsOf s id revoked := by
  have hcalls := h.calls
  split at hcalls
  · obtain ⟨environment, hcalls, -⟩ := hcalls
    rw [callsOf, hcalls, List.filter_append, ← callsOf]
    cases revoked <;> simp_all
  · rw [callsOf, hcalls.1, ← callsOf]

omit [DecidableEq H] in
theorem HasState.not_revocable {s : CommitState H} {id : H} {state : ItemState} (h : HasState s id state)
    (hstate : ¬Revocable state) : ¬∃ r, s.records id = some r ∧ Revocable r.state := by
  rintro ⟨r, hr, hrevocable⟩
  obtain ⟨r', hr', rfl⟩ := h
  obtain rfl := Option.some.inj (hr.symm.trans hr')
  exact hstate hrevocable

theorem allRevoked_of_ok {items : List (Item H)} {s s' : CommitState H}
    (h : items.foldlM (fun s item => commitRevoke setup committed root item s) s = .ok s') :
    AllRevoked committed root items s s' := by
  induction items generalizing s with
  | nil =>
      obtain rfl := Except.ok.inj h
      exact ⟨List.nodup_nil, by simp, by simp, by simp, by simp, by simp, by simp, by simp⟩
  | cons item items ih =>
      rw [List.foldlM_cons] at h
      obtain ⟨s₁, h₁, h⟩ := Except.bind_eq_ok.mp h
      have hfirst := revoked_of_revokeAndRemove setup ((commitRevoke_ok setup).mp h₁).1
      have hrest := ih h
      -- a record is revoked once
      have hnot : ∀ item' ∈ items, item'.id ≠ item.id := by
        intro item' hitem' heq
        exact hfirst.state.not_revocable (by simp [Revocable]) (heq ▸ hrest.revocable item' hitem')
      refine ⟨List.nodup_cons.mpr ⟨?_, hrest.nodup⟩, List.forall_mem_cons.mpr ⟨hfirst.revocable, ?_⟩,
        List.forall_mem_cons.mpr ⟨?_, hrest.state⟩, fun id hid => ?_, fun id hid => ?_, fun id hid => ?_,
        fun id revoked hid => ?_,
        List.forall_mem_cons.mpr ⟨fun hends => ?_, fun item' hitem' hends => ?_⟩⟩
      · rintro hmem
        obtain ⟨item', hitem', heq⟩ := List.mem_map.mp hmem
        exact hnot item' hitem' heq
      · intro item' hitem'
        exact hfirst.records item'.id (hnot item' hitem') ▸ hrest.revocable item' hitem'
      · rw [HasState, hrest.records item.id hnot]
        exact hfirst.state
      · obtain ⟨hne, hid⟩ := List.forall_mem_cons.mp hid
        exact (hrest.records id hid).trans (hfirst.records id hne.symm)
      · obtain ⟨hne, hid⟩ := List.forall_mem_cons.mp hid
        exact (hrest.environments id hid).trans (hfirst.environments id hne.symm)
      · obtain ⟨hne, hid⟩ := List.forall_mem_cons.mp hid
        exact (hrest.opens id hid).trans (hfirst.opens id hne.symm)
      · have hne := fun hr => List.forall_mem_cons.mp (hid hr)
        exact (hrest.otherCalls id revoked fun hr => (hne hr).2).trans
          (hfirst.callsOf_eq id revoked fun hr => (hne hr).1)
      · have hcalls := hfirst.calls
        rw [if_pos hends] at hcalls
        obtain ⟨environment, hcalls, henvironment⟩ := hcalls
        refine ⟨environment, ?_, hrest.environments item.id hnot ▸ henvironment⟩
        rw [hrest.otherCalls item.id true fun _ => hnot, callsOf, hcalls, List.filter_append, ← callsOf]
        simp
      · have hne := hnot item' hitem'
        obtain ⟨environment, hcalls, henvironment⟩ := hrest.calls item' hitem' hends
        rw [hfirst.environments item'.id hne, propext (hfirst.opens item'.id hne)] at henvironment
        refine ⟨environment, ?_, henvironment⟩
        rw [hcalls, hfirst.callsOf_eq item'.id true fun _ => hne.symm]

/-- What stands for the environments of items stands for those that follow the first. -/
theorem OwnEnvironments.rest {item : Item H} {items : List (Item H)} {s s' : CommitState H}
    (hown : OwnEnvironments committed root (item :: items) s.toEnvironmentTables)
    (hrevoked : Revoked committed root item s s') (hnot : item.id ∉ items.map Item.id) :
    OwnEnvironments committed root items s'.toEnvironmentTables := by
  intro item' hitem' hends
  have hne : item'.id ≠ item.id := fun heq => hnot (heq ▸ List.mem_map_of_mem hitem')
  obtain ⟨hopens, hcommitted⟩ := hown item' (List.mem_cons_of_mem _ hitem') hends
  exact ⟨(hrevoked.opens item'.id hne).mpr hopens, hcommitted⟩

/-- The same are subscribed in the end, and those of each item were nobody or threw. -/
theorem settles_of_ok {items : List (Item H)} {s s' : CommitState H} (hnodup : (items.map Item.id).Nodup)
    (hown : OwnEnvironments committed root items s.toEnvironmentTables)
    (h : items.foldlM (fun s item => commitRevoke setup committed root item s) s = .ok s') :
    SameSubscribed s.toEnvironmentTables s'.toEnvironmentTables ∧
      ∀ item ∈ items, Settles setup item .REVOKED s.toEnvironmentTables := by
  induction items generalizing s with
  | nil =>
      obtain rfl := Except.ok.inj h
      exact ⟨⟨rfl, fun _ _ => rfl⟩, by simp⟩
  | cons item items ih =>
      obtain ⟨hnot, hnodup⟩ := List.nodup_cons.mp hnodup
      rw [List.foldlM_cons] at h
      obtain ⟨s₁, h₁, h⟩ := Except.bind_eq_ok.mp h
      obtain ⟨hrevoke, hsettles⟩ := (commitRevoke_ok setup).mp h₁
      have hsame := subscribed_of_revokeAndRemove setup (fun hends => (hown item List.mem_cons_self hends).1) hrevoke
      obtain ⟨hlast, hrest⟩ := ih hnodup (hown.rest (revoked_of_revokeAndRemove setup hrevoke) hnot) h
      refine ⟨hsame.trans hlast, List.forall_mem_cons.mpr ⟨(hsame.settles_iff setup).mp hsettles, fun item' hitem' => ?_⟩⟩
      exact (hsame.settles_iff setup).mp (hrest item' hitem')

/-- Locked items, each once, with environments of their own and subscribers that throw, if any, all go through. -/
theorem exists_allRevoked {items : List (Item H)} {s : CommitState H} (hnodup : (items.map Item.id).Nodup)
    (hrevocable : ∀ item ∈ items, ∃ r, s.records item.id = some r ∧ Revocable r.state)
    (hown : OwnEnvironments committed root items s.toEnvironmentTables)
    (hsettles : ∀ item ∈ items, Settles setup item .REVOKED s.toEnvironmentTables) :
    ∃ s', items.foldlM (fun s item => commitRevoke setup committed root item s) s = .ok s' := by
  induction items generalizing s with
  | nil => exact ⟨s, rfl⟩
  | cons item items ih =>
      obtain ⟨hnot, hnodup⟩ := List.nodup_cons.mp hnodup
      obtain ⟨hfirst, hrest⟩ := List.forall_mem_cons.mp hrevocable
      obtain ⟨hsettlesFirst, hsettlesRest⟩ := List.forall_mem_cons.mp hsettles
      have hownFirst : Ends root item → s.Opens item.id := fun hends => (hown item List.mem_cons_self hends).1
      obtain ⟨s₁, h₁⟩ := exists_revokeAndRemove setup committed hfirst hownFirst
      have hrevoked := revoked_of_revokeAndRemove setup h₁
      have hsame := subscribed_of_revokeAndRemove setup hownFirst h₁
      have hok : commitRevoke setup committed root item s = .ok s₁ :=
        (commitRevoke_ok setup).mpr ⟨h₁, (hsame.settles_iff setup).mpr hsettlesFirst⟩
      have hne : ∀ item' ∈ items, item'.id ≠ item.id := fun item' hitem' heq =>
        hnot (heq ▸ List.mem_map_of_mem hitem')
      have hrest₁ : ∀ item' ∈ items, ∃ r, s₁.records item'.id = some r ∧ Revocable r.state := fun item' hitem' =>
        (hrevoked.records item'.id (hne item' hitem')).symm ▸ hrest item' hitem'
      obtain ⟨s', h⟩ := ih hnodup hrest₁ (hown.rest hrevoked hnot) fun item' hitem' =>
        (hsame.settles_iff setup).mpr (hsettlesRest item' hitem')
      exact ⟨s', by rw [List.foldlM_cons]; exact Except.bind_eq_ok.mpr ⟨s₁, hok, h⟩⟩

/-! ### The whole block -/

theorem commitRootContract_ok {item : Item H} {s s' : CommitState H} :
    commitRootContract setup false item s = .ok s' ↔ item.smartContract = none ∧ s' = s := by
  rw [commitRootContract]
  cases item.smartContract with
  | none => simp [eq_comm]
  | some revision =>
      -- a callback that ends well is followed by the name that is not defined
      refine ⟨fun h => ?_, nofun⟩
      obtain ⟨⟨environment, s₁⟩, -, h⟩ := Except.bind_eq_ok.mp h
      obtain ⟨s₂, -, h⟩ := Except.bind_eq_ok.mp h
      exact absurd h nofun

/-- The record of the root as it is saved. -/
def Commit.approvedRecord (c : Commit H) : StateRecord H :=
  { c.record with state := .APPROVED, expiresAt := c.tree.item.expiresAt }

/-- The block starts with no buffer and no calls. -/
def CommitState.started (s : CommitState H) : CommitState H := { s with buffer := [], calls := [] }

/-- The block ends where the new items are ready, the revoking items go through, the root can be approved and nobody
    who is subscribed to its parent or origin keeps it waiting. -/
theorem commitBlock_ok {c : Commit H} {s s' : CommitState H} : commitBlock setup false c s = .ok s' ↔
    c.tree.item.smartContract = none ∧ Ready setup c.tree.allNewItems s.started ∧ c.tree.SiblingsDiffer ∧
      Approvable c.record.state ∧ ∃ s₂, c.tree.allRevokingItems.foldlM
        (fun s₁ item => commitRevoke setup s.environments c.tree item s₁)
        (afterSave setup c.tree.allNewItems s.started) = .ok s₂ ∧
      Settles setup c.tree.item .APPROVED s₂.toEnvironmentTables ∧ s' = s₂.update c.approvedRecord := by
  rw [commitBlock]
  constructor
  · intro h
    obtain ⟨s₁, hnew, h⟩ := Except.bind_eq_ok.mp h
    obtain ⟨s₂, hrevokes, h⟩ := Except.bind_eq_ok.mp h
    obtain ⟨record, hrecord, h⟩ := Except.bind_eq_ok.mp h
    obtain ⟨happrovable, rfl⟩ := approve_ok.mp hrecord
    obtain ⟨s₃, hcontract, h⟩ := Except.bind_eq_ok.mp h
    obtain ⟨hroot, rfl⟩ := (commitRootContract_ok setup).mp hcontract
    obtain ⟨⟨⟩, hnotify, h⟩ := Except.bind_eq_ok.mp h
    obtain rfl := Except.ok.inj h
    obtain ⟨hready, hdiffer, rfl⟩ := (newItems_ok setup hroot _ _ _).mp hnew
    exact ⟨hroot, hready, hdiffer, happrovable, s₂, (revokes_eq setup _ _).symm.trans hrevokes,
      (settles_iff setup).mp hnotify, rfl⟩
  · rintro ⟨hroot, hready, hdiffer, happrovable, s₂, hrevokes, hsettles, rfl⟩
    refine Except.bind_eq_ok.mpr ⟨_, (newItems_ok setup hroot _ _ _).mpr ⟨hready, hdiffer, rfl⟩, ?_⟩
    refine Except.bind_eq_ok.mpr ⟨s₂, (revokes_eq setup _ _).trans hrevokes, ?_⟩
    refine Except.bind_eq_ok.mpr ⟨_, approve_ok.mpr ⟨happrovable, rfl⟩, ?_⟩
    refine Except.bind_eq_ok.mpr ⟨_, (commitRootContract_ok setup).mpr ⟨hroot, rfl⟩, ?_⟩
    exact Except.bind_eq_ok.mpr ⟨(), (settles_iff setup).mpr hsettles, rfl⟩

omit setup in
/-- The save of the root's record leaves records of other ids and approved ones in their states. -/
theorem HasState.update {s : CommitState H} {id : H} {state : ItemState} (h : HasState s id state)
    {r : StateRecord H} (hid : r.id = id → r.state = state) : HasState (s.update r) id state := by
  obtain ⟨row, hrow, hstate⟩ := h
  by_cases heq : r.id = id
  · refine ⟨r, ?_, hid heq⟩
    simp [CommitState.update, heq, hrow]
  · exact ⟨row, by simp [CommitState.update, Function.update_of_ne (Ne.symm heq), hrow], hstate⟩

omit [DecidableEq H] in
theorem ready_started {items : List (Item H)} {s : CommitState H} : Ready setup items s.started ↔
    ∀ item ∈ items, item.smartContract = none ∧ (∀ r ∈ s.records item.id, Approvable r.state) ∧ s.Spares item :=
  forall₂_congr fun _ _ => and_congr_right' (and_congr_left' (approvable_found setup))

/-- Records that are locked after the new items are saved were locked before, and are of no new item. -/
theorem revocable_afterSave {items : List (Item H)} {s : CommitState H} {id : H} :
    (∃ r, (afterSave setup items s.started).records id = some r ∧ Revocable r.state) ↔
      (∀ item ∈ items, item.id ≠ id) ∧ ∃ r, s.records id = some r ∧ Revocable r.state := by
  have hrecords := afterSave_records setup items (s := s.started) rfl id
  rcases hrecords with ⟨happroved, item, hitem, hid⟩ | ⟨h, hnot⟩
  · constructor
    · intro hrevocable
      exact absurd hrevocable (happroved.not_revocable (by simp [Revocable]))
    · rintro ⟨hnot, -⟩
      exact absurd hid (hnot item hitem)
  · rw [h]
    exact (and_iff_right hnot).symm

theorem tables_afterSave (items : List (Item H)) (s : CommitState H) :
    (afterSave setup items s.started).toEnvironmentTables = s.toEnvironmentTables :=
  (afterSave_rest setup).1

theorem callsOf_afterSave (items : List (Item H)) (s : CommitState H) (id : H) (revoked : Bool) :
    callsOf (afterSave setup items s.started) id revoked = [] := by
  rw [callsOf, (afterSave_rest setup).2]
  rfl

/-- A block that ends and applies the tree had a tree that can be committed. -/
theorem committable_of_commits {c : Commit H} {s : CommitState H} (h : Commits setup c s) :
    Committable setup c s := by
  obtain ⟨s', hok, happlied⟩ := h
  obtain ⟨hroot, hready, hdiffer, happrovable, s₂, hrevokes, hsettles, rfl⟩ := (commitBlock_ok setup).mp hok
  have hready := (ready_started setup).mp hready
  have hrevoked := allRevoked_of_ok setup hrevokes
  -- the environment of a contract that ends is its own, since it is gone
  have hown : OwnEnvironments s.environments c.tree c.tree.allRevokingItems s.toEnvironmentTables := by
    intro item hitem hends
    obtain ⟨environment, hcalls, hspec⟩ := hrevoked.calls item hitem hends
    obtain ⟨hcalled, hgone⟩ := happlied.onRevoked item hitem hends.1 hends.2
    rw [callsOf_afterSave, List.nil_append] at hcalls
    rw [tables_afterSave] at hspec
    obtain rfl : environment = item.id := by
      have hboth := hcalls.symm.trans hcalled
      simpa using hboth
    rcases hspec with ⟨hopens, -⟩ | ⟨hnone, hkept⟩
    · exact ⟨hopens, by rw [hopens.1]; rfl⟩
    · have hkept := hkept rfl
      simp only [hnone, Option.isSome_none] at hkept
      exact absurd (hkept.symm.trans hgone) nofun
  obtain ⟨hsame, hsettled⟩ := settles_of_ok setup hrevoked.nodup (by rwa [tables_afterSave]) hrevokes
  rw [hsame.settles_iff setup] at hsettles
  simp only [tables_afterSave] at hsettles hsettled
  refine ⟨List.forall_mem_cons.mpr ⟨hroot, fun item hitem => (hready item hitem).1⟩, hdiffer,
    fun item hitem => (hready item hitem).2.2, fun item hitem => (hready item hitem).2.1, happrovable,
    hrevoked.nodup, fun item hitem => ?_, fun item hitem hsmart hsuccessor => ?_, hsettled, hsettles⟩
  · obtain ⟨hnot, hrevocable⟩ := (revocable_afterSave setup).mp (hrevoked.revocable item hitem)
    refine ⟨List.forall_mem_cons.mpr ⟨fun hid => ?_, hnot⟩, hrevocable⟩
    -- the root's own record is approved last
    obtain ⟨r, hr, -⟩ := hrevoked.state item hitem
    obtain ⟨r', hr', hstate⟩ := happlied.revoked item hitem
    have hsame : c.approvedRecord.id = item.id := c.sameId.trans hid
    have hlast : (s₂.update c.approvedRecord).records item.id = some c.approvedRecord := by
      simp [CommitState.update, hsame, hr]
    obtain rfl := Option.some.inj (hlast.symm.trans hr')
    exact absurd hstate (by simp [Commit.approvedRecord])
  · exact (hown item hitem ⟨hsmart, hsuccessor⟩).1

/-- A tree that can be committed is, and all of it is applied. -/
theorem commits_of_committable {c : Commit H} {s : CommitState H} (h : Committable setup c s) :
    Commits setup c s := by
  obtain ⟨hroot, hnew⟩ := List.forall_mem_cons.mp h.noSmartContract
  have hready : Ready setup c.tree.allNewItems s.started :=
    (ready_started setup).mpr fun item hitem => ⟨hnew item hitem, h.approvable item hitem, h.unsubscribed item hitem⟩
  have hrevocable : ∀ item ∈ c.tree.allRevokingItems, ∃ r,
      (afterSave setup c.tree.allNewItems s.started).records item.id = some r ∧ Revocable r.state := by
    intro item hitem
    obtain ⟨hnot, hlocked⟩ := h.revocable item hitem
    exact (revocable_afterSave setup).mpr ⟨(List.forall_mem_cons.mp hnot).2, hlocked⟩
  have hown : OwnEnvironments s.environments c.tree c.tree.allRevokingItems
      (afterSave setup c.tree.allNewItems s.started).toEnvironmentTables := by
    rw [tables_afterSave]
    intro item hitem hends
    have hopens := h.environment item hitem hends.1 hends.2
    exact ⟨hopens, by rw [hopens.1]; rfl⟩
  obtain ⟨s₂, hrevokes⟩ := exists_allRevoked setup h.revokedOnce hrevocable hown <| by
    simp only [tables_afterSave]
    exact h.settles
  have hrevoked := allRevoked_of_ok setup hrevokes
  obtain ⟨hsame, -⟩ := settles_of_ok setup h.revokedOnce hown hrevokes
  have hsettles : Settles setup c.tree.item .APPROVED s₂.toEnvironmentTables := by
    rw [hsame.settles_iff setup, tables_afterSave]
    exact h.rootSettles
  refine ⟨s₂.update c.approvedRecord, (commitBlock_ok setup).mpr
    ⟨hroot, hready, h.siblingsDiffer, h.rootApprovable, s₂, hrevokes, hsettles, rfl⟩, ?_, ?_, ?_, ?_⟩
  · -- a new item's record is approved with the others, and none of the revoking items is it
    intro item hitem
    have hother : ∀ revokingItem ∈ c.tree.allRevokingItems, revokingItem.id ≠ item.id := fun revokingItem hmem heq =>
      (h.revocable revokingItem hmem).1 item (List.mem_cons_of_mem _ hitem) heq.symm
    have hrecords := afterSave_records setup c.tree.allNewItems (s := s.started) rfl item.id
    rcases hrecords with ⟨⟨r, hr, hstate⟩, -⟩ | ⟨-, hnot⟩
    · exact Or.inl (HasState.update ⟨r, (hrevoked.records _ hother).trans hr, hstate⟩ fun _ => rfl)
    · exact absurd rfl (hnot item hitem)
  · intro item hitem
    refine (hrevoked.state item hitem).update fun hid => ?_
    exact absurd (c.sameId.symm.trans hid) ((h.revocable item hitem).1 _ List.mem_cons_self)
  · intro item hitem revision hrevision
    rw [h.noSmartContract item hitem] at hrevision
    exact absurd hrevision nofun
  · intro item hitem hsmart hsuccessor
    obtain ⟨environment, hcalls, hends⟩ := hrevoked.calls item hitem ⟨hsmart, hsuccessor⟩
    rw [callsOf_afterSave, List.nil_append] at hcalls
    rw [tables_afterSave, (h.environment item hitem hsmart hsuccessor).1] at hends
    rcases hends with ⟨-, rfl, hgone⟩ | ⟨hnone, -⟩
    · exact ⟨hcalls, hgone⟩
    · exact absurd hnone nofun

/-- CODE DEFECT (the whole tree is applied, or nothing is): the block ends with all of the tree applied just when
    nothing that is created is a smart contract or a successor of what somebody is subscribed to, records and
    environments are as the check of an item on a node in step leaves them, with no item both created and revoked,
    and nobody who is subscribed to the root's parent or origin, or to what is revoked, keeps it waiting. -/
theorem commits_iff (c : Commit H) (s : CommitState H) : Commits setup c s ↔ Committable setup c s :=
  ⟨committable_of_commits setup, commits_of_committable setup⟩

end

end

/-! ### A plain root with a new smart contract -/

/-- A node at which rows come in the order of the ids, and no callback throws. -/
def plainSetup : Setup ℕ where
  now := 0
  recordId := id
  random := fun _ => 0
  order := id
  order_perm := fun ids => List.Perm.refl ids
  subscribers := fun _ ids => ids
  subscribers_perm := fun _ ids => List.Perm.refl ids
  saved := fun _ subscriptions => some subscriptions
  handles := fun _ _ _ => true

/-- A row of a record that waits for a commit. -/
def waitingRecord (state : ItemState) (id : ℕ) : StateRecord ℕ :=
  { plainSetup.newRecord id with state }

/-- Item 0 creates the smart contract 1, of revision 1. -/
def createsSmartContract : Commit ℕ where
  tree := .node ⟨0, none, 0, 10, none⟩ [.node ⟨1, none, 1, 10, some 1⟩ [] []] []
  record := waitingRecord .PENDING_POSITIVE 0
  sameId := rfl

/-- The ledger after the check: the new item is locked for its creation. -/
def checkedLedger : CommitState ℕ where
  records := fun id => match id with
    | 0 => some (waitingRecord .PENDING_POSITIVE 0)
    | 1 => some (waitingRecord .LOCKED_FOR_CREATION 1)
    | _ => none
  keyed := by
    intro id r h
    match id with
    | 0 | 1 => rw [← Option.some.inj h]; rfl
    | _ + 2 => exact absurd h nofun
  buffer := []
  environments := fun _ => none
  subscriptions := []
  calls := []

/-- The callback is asked of the plain root. -/
theorem not_commits : commitBlock plainSetup false createsSmartContract checkedLedger =
      .error (.notAFunction "this.item.onCreated") ∧
    ¬∀ (setup : Setup ℕ) (c : Commit ℕ) (s : CommitState ℕ), Commits setup c s := by
  have hthrows : commitBlock plainSetup false createsSmartContract checkedLedger =
      .error (.notAFunction "this.item.onCreated") := rfl
  refine ⟨hthrows, fun h => ?_⟩
  obtain ⟨s', hok, -⟩ := h plainSetup createsSmartContract checkedLedger
  rw [hthrows] at hok
  exact absurd hok nofun

end Universa.Node.CommitTree
