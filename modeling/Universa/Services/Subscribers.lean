import Mathlib.Data.PNat.Basic
import Universa.Node.StateRecord
import Universa.Services.EnvironmentStore

/-! Which environments hear of a committed item (`ItemProcessor.notifyContractSubscribers`): the lookups by parent, by
    id and by origin, the set that is to spare them (`Ledger.getItemsWithSubscriptions`), the event an environment
    gets, and what its save writes while the handler still runs. A save writes rows of its own environment, so each
    is read as it was; all items are contracts.

    An environment with a subscription is never read (`EnvironmentStore`), so nobody who is subscribed hears of
    anything. One `try` is around the loop, so what fails for an environment, or never ends, ends it for those that
    follow. A slot does all its work after a wait, which nobody waits for. The set cannot be made where anybody is
    subscribed: its query does not select the ids. -/

namespace Universa.Services.Subscribers
open Node (ItemState)

/-! ### Events -/

/-- An item that is committed. -/
structure Item where
  id : HashId
  parent : Option HashId
  origin : HashId
  packedTransaction : List UInt8
  deriving DecidableEq

/-- The events, with what a handler asks them for; a subscription is given by its id. -/
inductive Event where
  | approved (newRevision : Item) (packedTransaction : List UInt8) (subscription : ℕ)
  | revoked (subscription : ℕ)
  | approvedWithCallback (newRevision : Item)
  | revokedWithCallback (revokingItem : Item)
  deriving DecidableEq

namespace Item

/-- `lookingId`: the parent of an approved item, and the id of a revoked one. -/
def lookingId (item : Item) : ItemState → Option HashId
  | .APPROVED => item.parent
  | .REVOKED => some item.id
  | _ => none

/-- `origin`, for an item that is approved or revoked. -/
def lookingOrigin (item : Item) : ItemState → Option HashId
  | .APPROVED | .REVOKED => some item.origin
  | _ => none

/-- The event for a subscription to the id. -/
def event (item : Item) (subscription : ℕ) : ItemState → Option Event
  | .APPROVED => some (.approved item item.packedTransaction subscription)
  | .REVOKED => some (.revoked subscription)
  | _ => none

/-- The event for a subscription to the origin. -/
def callbackEvent (item : Item) : ItemState → Option Event
  | .APPROVED => some (.approvedWithCallback item)
  | .REVOKED => some (.revokedWithCallback item)
  | _ => none

end Item

/-! ### Handlers -/

/-- The classes of smart contracts: `SlotContract`, `FollowerContract`, and those that are just `NSmartContract`. -/
inductive Kind where
  | slot
  | follower
  | other
  deriving DecidableEq

/-- What the node's smart contracts are and do: whether a follower can follow an item, and what it does on an event;
    what a slot tracks, how much of it, and until when with a new revision. -/
structure NContracts (C : Type) where
  kind : C → Kind
  canFollow : C → Item → Except Thrown Bool
  followerOperations : C → Event → Except Thrown (List Operation)
  trackingContracts : C → List (HashId × List UInt8)
  keepRevisions : C → ℕ+
  newExpires : C → Item → ℤ
  contractId : List UInt8 → HashId

/-- A call of a handler: what is done when it returns, unless it throws, and what its promise does later. -/
structure Call where
  now : Except Thrown (List Operation)
  later : List Operation

section
variable {C : Type} (contracts : NContracts C)

namespace NContracts

/-- `canFollowContract(contract)`. -/
def canFollowContract (c : C) (item : Item) : Except Thrown Bool :=
  match contracts.kind c with
  | .follower => contracts.canFollow c item
  | .slot | .other => .ok false

/-- The loop over storages: one that is tracked gets the date, others go, and the rest of what is tracked is added. -/
def storageOperations (newExpires : ℤ) : List (HashId × List UInt8) → List (Rows.Object (List UInt8)) → List Operation
  | newContracts, [] => newContracts.map fun tc => .createContractStorage tc.2 newExpires
  | newContracts, storage :: storages =>
      let id := contracts.contractId storage.payload
      if id ∈ newContracts.map Prod.fst then
        .setStorageExpiresAt (.old storage.id) newExpires ::
          storageOperations newExpires (newContracts.filter fun tc => tc.1 ≠ id) storages
      else .destroyStorage (.old storage.id) :: storageOperations newExpires newContracts storages

/-- The loop over subscriptions, in the same way; one to a chain has no contract's id, and `has(null)` throws. -/
def subscriptionOperations (newExpires : ℤ) : List HashId → List (Rows.Object (HashId × Bool)) → List Operation
  | newContractIds, [] => newContractIds.map fun id => .createSubscription id false newExpires
  | newContractIds, sub :: subs =>
      if sub.payload.2 then []
      else if sub.payload.1 ∈ newContractIds then
        .setSubscriptionExpiresAt (.old sub.id) newExpires ::
          subscriptionOperations newExpires (newContractIds.filter fun id => id ≠ sub.payload.1) subs
      else .destroySubscription (.old sub.id) :: subscriptionOperations newExpires newContractIds subs

/-- `putTrackingContract(newRevision)`, then `updateSubscriptions(me)` of a slot. -/
def slotOperations (ime : NImmutableEnvironment C) (newRevision : Item) : List Operation :=
  let trackingContracts := ((newRevision.id, newRevision.packedTransaction) ::
    contracts.trackingContracts ime.contract).take (contracts.keepRevisions ime.contract)
  let newExpires := contracts.newExpires ime.contract newRevision
  contracts.storageOperations newExpires trackingContracts ime.storages ++
    subscriptionOperations newExpires (trackingContracts.map Prod.fst).dedup ime.subscriptions

/-- `onContractSubscriptionEvent(event)`: that of a slot is `async` and begins with a wait. -/
def onContractSubscriptionEvent (ime : NImmutableEnvironment C) (event : Event) : Call :=
  match contracts.kind ime.contract, event with
  | .slot, .approved newRevision _ _ => ⟨.ok [], contracts.slotOperations ime newRevision⟩
  | .slot, _ | .other, _ => ⟨.ok [], []⟩
  | .follower, event => ⟨contracts.followerOperations ime.contract event, []⟩

end NContracts

/-! ### A save while the handler runs -/

/-- The parts of `save`, in its order. -/
inductive Part where
  | kvStore
  | subscriptionsToDestroy
  | subscriptionsToSave
  | subscriptionsToAdd
  | storagesToDestroy
  | storagesToSave
  | storagesToAdd
  | nameRecordsToDestroy
  | nameRecordsToSave
  | nameRecordsToAdd
  deriving DecidableEq

/-- Its place among them. -/
def Part.place : Part → ℕ
  | kvStore => 0
  | subscriptionsToDestroy => 1
  | subscriptionsToSave => 2
  | subscriptionsToAdd => 3
  | storagesToDestroy => 4
  | storagesToSave => 5
  | storagesToAdd => 6
  | nameRecordsToDestroy => 7
  | nameRecordsToSave => 8
  | nameRecordsToAdd => 9

/-- The part that writes an operation. -/
def partOf : Operation → Part
  | .set _ _ => .kvStore
  | .createSubscription _ _ _ | .setSubscriptionExpiresAt (.added _) _ => .subscriptionsToAdd
  | .setSubscriptionExpiresAt (.old _) _ => .subscriptionsToSave
  | .destroySubscription _ => .subscriptionsToDestroy
  | .createContractStorage _ _ | .setStorageExpiresAt (.added _) _ => .storagesToAdd
  | .setStorageExpiresAt (.old _) _ => .storagesToSave
  | .destroyStorage _ => .storagesToDestroy
  | .createNameRecord _ _ _ => .nameRecordsToAdd
  | .setNameRecordExpiresAt _ _ => .nameRecordsToSave
  | .destroyNameRecord _ => .nameRecordsToDestroy

/-- How many of the later operations of an environment's handler are done when the save comes to a part. -/
structure Schedule where
  done : ℕ → Part → ℕ
  inOrder : ∀ id p q, Part.place p ≤ Part.place q → done id p ≤ done id q

/-- No handler goes on before the save is done. -/
def Schedule.late : Schedule := ⟨fun _ _ => 0, fun _ _ _ _ => le_refl _⟩

/-- The operations that a save finds, by what is done when it comes to each part. -/
def Call.seen (call : Call) (done : Part → ℕ) : Except Thrown (List Operation) :=
  call.now.map fun now => now ++ (call.later.zipIdx.filter fun (op, i) => i < done (partOf op)).map Prod.fst

/-! ### Lookups -/

/-- `getSubscriptionEnviromentIds(id)`, in whatever order the rows come. -/
def getSubscriptionEnviromentIds (id : HashId) (t : Tables) : List ℕ :=
  ((t.contractSubscription.rows.filter fun r => r.payload.1 = id).map Rows.Row.owner).dedup

/-- A promise that is resolved, or that nothing settles. -/
inductive Answer (α : Type) where
  | pending
  | resolved (a : α)
  deriving DecidableEq

/-- The rows of `SELECT count(environment_id) AS cnt … GROUP BY environment_id, hash_id`. -/
def subscriptionCounts (itemIds : List HashId) (t : Tables) : List ℕ :=
  let rows := t.contractSubscription.rows.filter fun r => r.payload.1 ∈ itemIds
  let groups := (rows.map fun r => (r.owner, r.payload.1)).dedup
  groups.map fun group => (rows.filter fun r => (r.owner, r.payload.1) = group).length

/-- `rows[j][names["hash_id"]]`: the query has one column, `cnt`. -/
def hashIdOf (_count : ℕ) : Option HashId := none

/-- `HashId.withDigest(digest)`. -/
def withDigest : Option HashId → Except Thrown HashId
  | some digest => .ok digest
  | none => .error (.readsUndefined "digest")

/-- The loop over these rows. -/
def countedItems : List ℕ → Except Thrown (List HashId)
  | [] => .ok []
  | count :: rows =>
      if 0 < count then do
        let item ← withDigest (hashIdOf count)
        return item :: (← countedItems rows)
      else countedItems rows

/-- `getItemsWithSubscriptions(itemIds)`. What the callback of the query throws settles nothing. -/
def getItemsWithSubscriptions (itemIds : List HashId) (t : Tables) : Answer (List HashId) :=
  if itemIds = [] then .resolved []
  else match countedItems (subscriptionCounts itemIds t) with
    | .ok items => .resolved items
    | .error _ => .pending

/-- The parents and origins of the new items of an item. -/
def hashesOf (newItems : List Item) : List HashId :=
  newItems.flatMap fun newItem => newItem.parent.toList ++ [newItem.origin]

/-- The environments of a lookup that the set does not spare. -/
def lookedUp (hashesWithSubscriptions : Option (List HashId)) (id : Option HashId) (t : Tables) : List ℕ :=
  match id with
  | some id => if ∀ hashes ∈ hashesWithSubscriptions, id ∈ hashes then getSubscriptionEnviromentIds id t else []
  | none => []

/-- `environmentIds`: a set of those of the id, then those of the origin. -/
def environmentIds (item : Item) (state : ItemState) (hashesWithSubscriptions : Option (List HashId)) (t : Tables) :
    List ℕ :=
  let environmentIdsForContractId := lookedUp hashesWithSubscriptions (item.lookingId state) t
  let environmentIdsForOrigin := lookedUp hashesWithSubscriptions (item.lookingOrigin state) t
  environmentIdsForContractId ++ environmentIdsForOrigin.filter fun id => id ∉ environmentIdsForContractId

/-! ### The loop -/

variable (packs : Packs C) (item : Item) (state : ItemState) (t : Tables)

/-- The subscription at which the loop over an environment's subscriptions stops. -/
def firstMatch (ime : NImmutableEnvironment C) : Option (Rows.Object (HashId × Bool)) :=
  ime.subscriptions.find? fun sub =>
    if sub.payload.2 then item.lookingOrigin state = some sub.payload.1
    else item.lookingId state = some sub.payload.1

/-- The event an environment gets, if any. -/
def eventFor (ime : NImmutableEnvironment C) : Except Thrown (Option Event) :=
  match firstMatch item state ime with
  | none => .ok none
  | some sub =>
      if sub.payload.2 then do
        let canFollow ← contracts.canFollowContract ime.contract item
        return if canFollow then item.callbackEvent state else none
      else .ok (item.event sub.id state)

/-- The save after an event, which finds what it finds of the handler's work. -/
def saveAfter (ime : NImmutableEnvironment C) (event : Event) (done : Part → ℕ) : Except Thrown Tables := do
  let ops ← (contracts.onContractSubscriptionEvent ime event).seen done
  let me ← ime.getMutable.applyAll ops
  me.save packs t

/-- What the turn of an environment comes to: the event its contract gets, and what is thrown in the turn, or that it
    never ends; nothing follows it either way. -/
structure Turn where
  event : Option Event
  thrown : Option Thrown

/-- What is thrown, if anything. -/
def thrownBy {α : Type} : Except Thrown α → Option Thrown
  | .ok _ => none
  | .error e => some e

/-- The turn of an environment. -/
def turn (schedule : Schedule) (id : ℕ) : Turn :=
  match getEnvironment packs id t with
  | .error e => ⟨none, some e⟩
  | .ok ime =>
      match eventFor contracts item state ime with
      | .error e => ⟨none, some e⟩
      | .ok none => ⟨none, none⟩
      | .ok (some event) => ⟨some event, thrownBy (saveAfter contracts packs t ime event (schedule.done id))⟩

/-- The events of environments in turn, until something is thrown. -/
def eventsOf (schedule : Schedule) : List ℕ → List (ℕ × Event)
  | [] => []
  | id :: ids =>
      let turn := turn contracts packs item state t schedule id
      (turn.event.map fun event => (id, event)).toList ++ if turn.thrown = none then eventsOf schedule ids else []

/-- `notifyContractSubscribers(updatingItem, updatingState, hashesWithSubscriptions)`: the events and who gets them. -/
def notifyContractSubscribers (hashesWithSubscriptions : Option (List HashId)) (schedule : Schedule) :
    List (ℕ × Event) :=
  eventsOf contracts packs item state t schedule (environmentIds item state hashesWithSubscriptions t)

/-! ### What is promised -/

/-- The contract of an environment. -/
def contractOfEnvironment (id : ℕ) : Option C :=
  (t.environments.find? fun row => row.id = id).bind fun row =>
    (packs.contractOf row.transactionPack row.ncontractHashId).toOption

/-- The environment is subscribed to the parent of an approved item, or to the id of a revoked one. -/
def ById (id : ℕ) : Prop :=
  ∃ r ∈ t.contractSubscription.select id, r.payload.2 = false ∧ item.lookingId state = some r.payload.1

/-- The environment is subscribed to the origin of the item, and of a contract that can follow it. -/
def ByOrigin (id : ℕ) : Prop :=
  (∃ r ∈ t.contractSubscription.select id, r.payload.2 = true ∧ item.lookingOrigin state = some r.payload.1) ∧
    ∃ c ∈ contractOfEnvironment packs t id, contracts.canFollowContract c item = .ok true

/-- The environment is to hear of the item. -/
def Subscribed (id : ℕ) : Prop := ById item state t id ∨ ByOrigin contracts packs item state t id

/-- The event is of a kind that the environment is subscribed to. -/
def Right (id : ℕ) (event : Event) : Prop :=
  (ById item state t id ∧ ∃ subscription, item.event subscription state = some event) ∨
    (ByOrigin contracts packs item state t id ∧ item.callbackEvent state = some event)

/-- The events an environment gets. -/
def heard (schedule : Schedule) (id : ℕ) : List Event :=
  (notifyContractSubscribers contracts packs item state t none schedule).filterMap fun e =>
    if e.1 = id then some e.2 else none

/-- Exactly one event of the right kind for each environment that is subscribed, and none for others. -/
def Delivered : Prop :=
  ∀ schedule id, (Subscribed contracts packs item state t id →
      ∃ event, Right contracts packs item state t id event ∧
        heard contracts packs item state t schedule id = [event]) ∧
    (¬Subscribed contracts packs item state t id → heard contracts packs item state t schedule id = [])

/-- The set that is computed for new items selects for each of them what null selects. -/
def SameSelection (newItems : List Item) : Prop :=
  ∃ items, getItemsWithSubscriptions (hashesOf newItems) t = .resolved items ∧
    ∀ newItem ∈ newItems, environmentIds newItem .APPROVED (some items) t = environmentIds newItem .APPROVED none t

/-- What a save writes after an event is all that the handler does, unless it throws. -/
def WritesAll : Prop :=
  ∀ schedule, ∀ e ∈ notifyContractSubscribers contracts packs item state t none schedule,
    ∀ ime, getEnvironment packs e.1 t = .ok ime → ∀ now,
      (contracts.onContractSubscriptionEvent ime e.2).now = .ok now →
      (contracts.onContractSubscriptionEvent ime e.2).seen (schedule.done e.1) =
        .ok (now ++ (contracts.onContractSubscriptionEvent ime e.2).later)

/-- The turn of the environment throws, even if its save waits for the handler. -/
def Fails (id : ℕ) : Prop :=
  (∃ e, getEnvironment packs id t = .error e) ∨ ∃ ime, getEnvironment packs id t = .ok ime ∧
    ((∃ e, eventFor contracts item state ime = .error e) ∨
      ∃ event, eventFor contracts item state ime = .ok (some event) ∧
        ∃ e, saveAfter contracts packs t ime event
          (fun _ => (contracts.onContractSubscriptionEvent ime event).later.length) = .error e)

/-- Who is subscribed can be read, and the subscription that the loop stops at is one that counts; none fails before
    a subscribed one; no slot hears of an approval; and nobody is subscribed to a parent or an origin of new items. -/
structure Serves (newItems : List Item) : Prop where
  firstCounts : ∀ id, Subscribed contracts packs item state t id → ∃ ime, getEnvironment packs id t = .ok ime ∧
    ∃ sub, firstMatch item state ime = some sub ∧
      (sub.payload.2 = true → contracts.canFollowContract ime.contract item = .ok true)
  noneFails : ∀ before id after, environmentIds item state none t = before ++ id :: after →
    Subscribed contracts packs item state t id → ∀ id' ∈ before, ¬Fails contracts packs item state t id'
  noSlot : state = .APPROVED → ∀ id, Subscribed contracts packs item state t id → ∀ ime,
    getEnvironment packs id t = .ok ime → contracts.kind ime.contract ≠ .slot
  noneOfNewItems : ∀ r ∈ t.contractSubscription.rows, r.payload.1 ∉ hashesOf newItems

/-! ### The set -/

theorem countedItems_eq {counts : List ℕ} (h : ∀ count ∈ counts, 0 < count) :
    countedItems counts = if counts = [] then .ok [] else .error (.readsUndefined "digest") := by
  cases counts with
  | nil => rfl
  | cons count counts =>
      rw [countedItems, if_pos (h count (by simp)), if_neg (List.cons_ne_nil _ _)]
      rfl

theorem subscriptionCounts_pos {itemIds : List HashId} {t : Tables} :
    ∀ count ∈ subscriptionCounts itemIds t, 0 < count := by
  intro count hcount
  obtain ⟨group, hgroup, rfl⟩ := List.mem_map.mp hcount
  obtain ⟨r, hr, rfl⟩ := List.mem_map.mp (List.mem_dedup.mp hgroup)
  exact List.length_pos_of_mem (List.mem_filter.mpr ⟨hr, by simp⟩)

theorem subscriptionCounts_eq_nil {itemIds : List HashId} {t : Tables} :
    subscriptionCounts itemIds t = [] ↔ ∀ r ∈ t.contractSubscription.rows, r.payload.1 ∉ itemIds := by
  simp [subscriptionCounts, List.dedup_eq_nil]

/-- The set is made just when nobody is subscribed to any of the ids, and then it is empty. -/
theorem getItemsWithSubscriptions_resolved {itemIds : List HashId} {t : Tables} {items : List HashId} :
    getItemsWithSubscriptions itemIds t = .resolved items ↔
      items = [] ∧ ∀ r ∈ t.contractSubscription.rows, r.payload.1 ∉ itemIds := by
  rw [getItemsWithSubscriptions, countedItems_eq subscriptionCounts_pos, ← subscriptionCounts_eq_nil]
  by_cases hids : itemIds = []
  · have hcounts : subscriptionCounts itemIds t = [] := subscriptionCounts_eq_nil.mpr (by simp [hids])
    simp [hids, eq_comm, hids ▸ hcounts]
  · by_cases hcounts : subscriptionCounts itemIds t = []
    · simp [hids, hcounts, eq_comm]
    · simp [hids, hcounts]

theorem getSubscriptionEnviromentIds_eq_nil {id : HashId} {t : Tables}
    (h : ∀ r ∈ t.contractSubscription.rows, r.payload.1 ≠ id) : getSubscriptionEnviromentIds id t = [] := by
  have hnone : t.contractSubscription.rows.filter (fun r => r.payload.1 = id) = [] := by
    simpa [List.filter_eq_nil_iff] using h
  simp [getSubscriptionEnviromentIds, hnone]

theorem lookedUp_eq_nil {hashes : Option (List HashId)} {id : Option HashId} {t : Tables}
    (h : ∀ id' ∈ id, ∀ r ∈ t.contractSubscription.rows, r.payload.1 ≠ id') : lookedUp hashes id t = [] := by
  cases id with
  | none => rfl
  | some id =>
      rw [lookedUp, getSubscriptionEnviromentIds_eq_nil (h id rfl)]
      split <;> rfl

theorem sameSelection_iff {newItems : List Item} : SameSelection t newItems ↔
    ∀ r ∈ t.contractSubscription.rows, r.payload.1 ∉ hashesOf newItems := by
  constructor
  · rintro ⟨items, hitems, -⟩
    exact (getItemsWithSubscriptions_resolved.mp hitems).2
  · intro h
    refine ⟨[], getItemsWithSubscriptions_resolved.mpr ⟨rfl, h⟩, fun newItem hnewItem => ?_⟩
    have hnone : ∀ hashes id, id ∈ newItem.parent.toList ++ [newItem.origin] →
        lookedUp hashes (some id) t = [] := by
      intro hashes id hid
      refine lookedUp_eq_nil fun id' hid' r hr heq => h r hr (List.mem_flatMap.mpr ⟨newItem, hnewItem, ?_⟩)
      exact heq ▸ Option.some.inj hid' ▸ hid
    have hparent : ∀ hashes, lookedUp hashes newItem.parent t = [] := by
      intro hashes
      cases hp : newItem.parent with
      | none => rfl
      | some id => exact hnone hashes id (by simp [hp])
    simp [environmentIds, Item.lookingId, Item.lookingOrigin, hparent, hnone _ newItem.origin (by simp)]

/-! ### Who is looked up -/

theorem mem_lookedUp {id : Option HashId} {environmentId : ℕ} :
    environmentId ∈ lookedUp none id t ↔
      ∃ r ∈ t.contractSubscription.rows, r.owner = environmentId ∧ id = some r.payload.1 := by
  cases id with
  | none => simp [lookedUp]
  | some id =>
      simp only [lookedUp, getSubscriptionEnviromentIds, reduceCtorEq, Option.mem_def, false_imp_iff, implies_true,
        if_true, List.mem_dedup, List.mem_map, List.mem_filter, decide_eq_true_eq, Option.some.injEq]
      exact ⟨fun ⟨r, ⟨hr, hid⟩, howner⟩ => ⟨r, hr, howner, hid.symm⟩,
        fun ⟨r, hr, howner, hid⟩ => ⟨r, ⟨hr, hid.symm⟩, howner⟩⟩

theorem nodup_lookedUp {hashes : Option (List HashId)} {id : Option HashId} : (lookedUp hashes id t).Nodup := by
  cases id with
  | none => exact List.nodup_nil
  | some id =>
      rw [lookedUp]
      split
      · exact List.nodup_dedup _
      · exact List.nodup_nil

theorem nodup_environmentIds (hashes : Option (List HashId)) : (environmentIds item state hashes t).Nodup := by
  refine List.Nodup.append (nodup_lookedUp t) ((nodup_lookedUp t).filter _) ?_
  intro id hid hid'
  exact of_decide_eq_true (List.mem_filter.mp hid').2 hid

variable {contracts packs item state t}

theorem mem_environmentIds_of_subscribed {id : ℕ} (h : Subscribed contracts packs item state t id) :
    id ∈ environmentIds item state none t := by
  have hlooked : id ∈ lookedUp none (item.lookingId state) t ∨ id ∈ lookedUp none (item.lookingOrigin state) t := by
    rcases h with ⟨r, hr, -, hid⟩ | ⟨⟨r, hr, -, hid⟩, -⟩
    · exact Or.inl ((mem_lookedUp t).mpr ⟨r, List.mem_of_mem_filter hr, of_decide_eq_true (List.mem_filter.mp hr).2, hid⟩)
    · exact Or.inr ((mem_lookedUp t).mpr ⟨r, List.mem_of_mem_filter hr, of_decide_eq_true (List.mem_filter.mp hr).2, hid⟩)
  rw [environmentIds, List.mem_append, List.mem_filter, decide_eq_true_eq]
  by_cases hid : id ∈ lookedUp none (item.lookingId state) t
  · exact Or.inl hid
  · exact Or.inr ⟨hlooked.resolve_left hid, hid⟩

/-! ### The event of an environment -/

theorem contract_of_getEnvironment {id : ℕ} {ime : NImmutableEnvironment C} (h : getEnvironment packs id t = .ok ime) :
    contractOfEnvironment packs t id = some ime.contract ∧ ime.subscriptions = t.subscriptionsOf id := by
  obtain ⟨row, hrow, hcontract, -, hbare, hime⟩ := getEnvironment_ok.mp h
  have hnone : ime.subscriptions = [] := hime ▸ rfl
  refine ⟨?_, hnone.trans hbare.subscriptions.symm⟩
  rw [contractOfEnvironment, hrow, Option.bind_some, hcontract]
  rfl

/-- Who is subscribed is never read. -/
theorem Subscribed.getEnvironment_ne {id : ℕ} (h : Subscribed contracts packs item state t id)
    (ime : NImmutableEnvironment C) : getEnvironment packs id t ≠ .ok ime := by
  intro hget
  obtain ⟨-, -, -, -, hbare, -⟩ := getEnvironment_ok.mp hget
  have hrow : ∃ r, r ∈ t.contractSubscription.select id := by
    rcases h with ⟨r, hr, -⟩ | ⟨⟨r, hr, -⟩, -⟩ <;> exact ⟨r, hr⟩
  obtain ⟨r, hr⟩ := hrow
  have hobject : (⟨r.id, r.payload, r.expiresAt * 1000⟩ : Rows.Object (HashId × Bool)) ∈ t.subscriptionsOf id :=
    List.mem_filterMap.mpr ⟨r, hr, rfl⟩
  rw [hbare.subscriptions] at hobject
  exact absurd hobject (List.not_mem_nil)

/-- A subscription of the environment that matches is a row of it. -/
theorem row_of_firstMatch {id : ℕ} {ime : NImmutableEnvironment C} (h : getEnvironment packs id t = .ok ime)
    {sub : Rows.Object (HashId × Bool)} (hsub : firstMatch item state ime = some sub) :
    (∃ r ∈ t.contractSubscription.select id, r.payload = sub.payload) ∧
      if sub.payload.2 then item.lookingOrigin state = some sub.payload.1
      else item.lookingId state = some sub.payload.1 := by
  have hmem := List.mem_of_find?_eq_some hsub
  have hmatch : if sub.payload.2 then item.lookingOrigin state = some sub.payload.1
      else item.lookingId state = some sub.payload.1 := by
    have hfound := List.find?_some hsub
    cases hchain : sub.payload.2 <;> simpa [hchain] using hfound
  rw [(contract_of_getEnvironment h).2] at hmem
  obtain ⟨r, hr, hobject⟩ := List.mem_filterMap.mp hmem
  obtain rfl := Option.some.inj hobject
  exact ⟨⟨r, hr, rfl⟩, hmatch⟩

theorem eventFor_of_firstMatch {ime : NImmutableEnvironment C} {sub : Rows.Object (HashId × Bool)}
    (hsub : firstMatch item state ime = some sub)
    (hfollow : sub.payload.2 = true → contracts.canFollowContract ime.contract item = .ok true) :
    eventFor contracts item state ime =
      .ok (if sub.payload.2 then item.callbackEvent state else item.event sub.id state) := by
  rw [eventFor, hsub]
  cases hchain : sub.payload.2 with
  | false => simp [hchain]
  | true => simp [hchain, hfollow hchain, bind, Except.bind, pure, Except.pure]

theorem firstMatch_of_eventFor {ime : NImmutableEnvironment C} {event : Event}
    (h : eventFor contracts item state ime = .ok (some event)) : ∃ sub, firstMatch item state ime = some sub ∧
      (sub.payload.2 = true → contracts.canFollowContract ime.contract item = .ok true) ∧
      (if sub.payload.2 then item.callbackEvent state else item.event sub.id state) = some event := by
  rw [eventFor] at h
  split at h
  · exact absurd (Except.ok.inj h) nofun
  · rename_i sub hsub
    refine ⟨sub, hsub, ?_⟩
    cases hchain : sub.payload.2 with
    | false => exact ⟨nofun, by simpa [hchain] using h⟩
    | true =>
        simp only [hchain, if_true] at h
        obtain ⟨canFollow, hfollow, h⟩ := Except.bind_eq_ok.mp h
        cases canFollow with
        | false => exact absurd (Except.ok.inj h) nofun
        | true => exact ⟨fun _ => hfollow, Except.ok.inj h⟩

/-- The event an environment gets is one that it is subscribed to. -/
theorem right_of_eventFor {id : ℕ} {ime : NImmutableEnvironment C} (h : getEnvironment packs id t = .ok ime)
    {event : Event} (hevent : eventFor contracts item state ime = .ok (some event)) :
    Right contracts packs item state t id event := by
  obtain ⟨sub, hsub, hfollow, hevent⟩ := firstMatch_of_eventFor hevent
  obtain ⟨⟨r, hr, hpayload⟩, hmatch⟩ := row_of_firstMatch h hsub
  cases hchain : sub.payload.2 with
  | false =>
      simp only [hchain, Bool.false_eq_true, if_false] at hmatch hevent
      exact Or.inl ⟨⟨r, hr, hpayload ▸ hchain, hpayload ▸ hmatch⟩, sub.id, hevent⟩
  | true =>
      simp only [hchain, if_true] at hmatch hevent
      exact Or.inr ⟨⟨⟨r, hr, hpayload ▸ hchain, hpayload ▸ hmatch⟩, ime.contract,
        (contract_of_getEnvironment h).1, hfollow hchain⟩, hevent⟩

theorem Right.subscribed {id : ℕ} {event : Event} (h : Right contracts packs item state t id event) :
    Subscribed contracts packs item state t id := by
  rcases h with ⟨h, -⟩ | ⟨h, -⟩
  · exact Or.inl h
  · exact Or.inr h

/-- An event comes of a subscription that matches and counts. -/
theorem event_of_firstMatch {id : ℕ} {ime : NImmutableEnvironment C} (h : getEnvironment packs id t = .ok ime)
    {sub : Rows.Object (HashId × Bool)} (hsub : firstMatch item state ime = some sub)
    (hfollow : sub.payload.2 = true → contracts.canFollowContract ime.contract item = .ok true) :
    ∃ event, eventFor contracts item state ime = .ok (some event) := by
  rw [eventFor_of_firstMatch hsub hfollow]
  have hmatch := (row_of_firstMatch h hsub).2
  cases hchain : sub.payload.2 with
  | false =>
      simp only [hchain, Bool.false_eq_true, if_false] at hmatch ⊢
      cases state <;> simp_all [Item.lookingId, Item.event]
  | true =>
      simp only [hchain, if_true] at hmatch ⊢
      cases state <;> simp_all [Item.lookingOrigin, Item.callbackEvent]

/-! ### Handlers that go on -/

theorem storageOperations_ne_nil {newExpires : ℤ} {newContracts : List (HashId × List UInt8)}
    (h : newContracts ≠ []) (storages : List (Rows.Object (List UInt8))) :
    contracts.storageOperations newExpires newContracts storages ≠ [] := by
  cases storages with
  | nil => simpa [NContracts.storageOperations] using h
  | cons storage storages =>
      rw [NContracts.storageOperations]
      split <;> simp

/-- A slot that hears of an approval has always something left to do. -/
theorem slotOperations_ne_nil (ime : NImmutableEnvironment C) (newRevision : Item) :
    contracts.slotOperations ime newRevision ≠ [] := by
  have hkeep : (contracts.keepRevisions ime.contract : ℕ) ≠ 0 := (contracts.keepRevisions ime.contract).ne_zero
  intro hnil
  refine storageOperations_ne_nil ?_ _ (List.append_eq_nil_iff.mp hnil).1
  simp [hkeep]

theorem later_eq_nil {ime : NImmutableEnvironment C} {event : Event}
    (h : ∀ item pack sub, event = .approved item pack sub → contracts.kind ime.contract ≠ .slot) :
    (contracts.onContractSubscriptionEvent ime event).later = [] := by
  unfold NContracts.onContractSubscriptionEvent
  split
  · rename_i hkind
    exact absurd hkind (h _ _ _ rfl)
  · rfl
  · rfl
  · rfl

theorem seen_of_later_eq_nil {call : Call} (h : call.later = []) (done : Part → ℕ) : call.seen done = call.now := by
  rw [Call.seen, h]
  cases call.now <;> simp [Except.map]

theorem seen_late {call : Call} {now : List Operation} (hnow : call.now = .ok now) (id : ℕ) :
    call.seen (Schedule.late.done id) = .ok now := by
  simp [Call.seen, hnow, Except.map, Schedule.late]

/-! ### Turns -/

variable {schedule : Schedule}

theorem turn_event {id : ℕ} {event : Event} : (turn contracts packs item state t schedule id).event = some event ↔
    ∃ ime, getEnvironment packs id t = .ok ime ∧ eventFor contracts item state ime = .ok (some event) := by
  unfold turn
  cases hget : getEnvironment packs id t with
  | error e => simp
  | ok ime =>
      simp only [Except.ok.injEq, exists_eq_left']
      cases hevent : eventFor contracts item state ime with
      | error e => simp
      | ok event? => cases event? <;> simp

theorem right_of_turn {id : ℕ} {event : Event}
    (h : (turn contracts packs item state t schedule id).event = some event) :
    Right contracts packs item state t id event := by
  obtain ⟨ime, hget, hevent⟩ := turn_event.mp h
  exact right_of_eventFor hget hevent

theorem saveAfter_congr {ime : NImmutableEnvironment C} {event : Event}
    (h : (contracts.onContractSubscriptionEvent ime event).later = []) (done done' : Part → ℕ) :
    saveAfter contracts packs t ime event done = saveAfter contracts packs t ime event done' := by
  rw [saveAfter, saveAfter, seen_of_later_eq_nil h, seen_of_later_eq_nil h]

theorem thrownBy_eq_none {α : Type} {x : Except Thrown α} : thrownBy x = none ↔ ¬∃ e, x = .error e := by
  cases x <;> simp [thrownBy]

/-- Where no handler goes on, a turn throws if it does with a save that waits. -/
theorem turn_thrown {id : ℕ} (hlater : ∀ ime event, getEnvironment packs id t = .ok ime →
      eventFor contracts item state ime = .ok (some event) →
      (contracts.onContractSubscriptionEvent ime event).later = []) :
    (turn contracts packs item state t schedule id).thrown = none ↔ ¬Fails contracts packs item state t id := by
  unfold turn Fails
  cases hget : getEnvironment packs id t with
  | error e => simp
  | ok ime =>
      simp only [Except.ok.injEq, exists_eq_left', reduceCtorEq, exists_false, false_or]
      cases hevent : eventFor contracts item state ime with
      | error e => simp
      | ok event? =>
          cases event? with
          | none => simp
          | some event =>
              simp only [Except.ok.injEq, Option.some.injEq, exists_eq_left', reduceCtorEq, exists_false, false_or]
              rw [saveAfter_congr (hlater ime event hget hevent), thrownBy_eq_none]

/-- What one environment gets of a loop. -/
def heardOf (id : ℕ) (events : List (ℕ × Event)) : List Event :=
  events.filterMap fun e => if e.1 = id then some e.2 else none

theorem heardOf_cons {id id' : ℕ} {ids : List ℕ} :
    heardOf id (eventsOf contracts packs item state t schedule (id' :: ids)) =
      (if id' = id then (turn contracts packs item state t schedule id').event.toList else []) ++
        if (turn contracts packs item state t schedule id').thrown = none then
          heardOf id (eventsOf contracts packs item state t schedule ids) else [] := by
  rw [eventsOf, heardOf, List.filterMap_append]
  congr 1
  · cases (turn contracts packs item state t schedule id').event <;> split <;> simp_all
  · split <;> rfl

theorem heardOf_of_not_mem {ids : List ℕ} {id : ℕ} (h : id ∉ ids) :
    heardOf id (eventsOf contracts packs item state t schedule ids) = [] := by
  induction ids with
  | nil => rfl
  | cons id' ids ih =>
      have hne : id' ≠ id := fun heq => h (heq ▸ List.mem_cons_self)
      rw [heardOf_cons, if_neg hne, ih fun hmem => h (List.mem_cons_of_mem _ hmem)]
      simp

/-- An environment gets its event if nothing is thrown before its turn. -/
theorem heardOf_append {before after : List ℕ} {id : ℕ} (hnodup : (before ++ id :: after).Nodup) :
    heardOf id (eventsOf contracts packs item state t schedule (before ++ id :: after)) =
      if ∀ id' ∈ before, (turn contracts packs item state t schedule id').thrown = none then
        (turn contracts packs item state t schedule id).event.toList else [] := by
  induction before with
  | nil =>
      have hnot : id ∉ after := (List.nodup_cons.mp hnodup).1
      rw [List.nil_append, heardOf_cons, heardOf_of_not_mem hnot]
      simp
  | cons id' before ih =>
      obtain ⟨hnot, hnodup⟩ := List.nodup_cons.mp hnodup
      have hne : id' ≠ id := fun heq => hnot (heq ▸ by simp)
      rw [List.cons_append, heardOf_cons, if_neg hne, ih hnodup, List.nil_append]
      by_cases hthrown : (turn contracts packs item state t schedule id').thrown = none
      · simp [hthrown]
      · simp [hthrown]

theorem heard_eq {before after : List ℕ} {id : ℕ} (h : environmentIds item state none t = before ++ id :: after) :
    heard contracts packs item state t schedule id =
      if ∀ id' ∈ before, (turn contracts packs item state t schedule id').thrown = none then
        (turn contracts packs item state t schedule id).event.toList else [] := by
  have hnodup := nodup_environmentIds item state t none
  rw [h] at hnodup
  rw [← heardOf_append hnodup, ← h]
  rfl

/-- What is heard is the event of the turn. -/
theorem turn_of_heard {id : ℕ} {event : Event} (h : event ∈ heard contracts packs item state t schedule id) :
    (turn contracts packs item state t schedule id).event = some event := by
  by_cases hid : id ∈ environmentIds item state none t
  · obtain ⟨before, after, hsplit⟩ := List.append_of_mem hid
    rw [heard_eq hsplit] at h
    split at h
    · exact Option.mem_toList.mp h
    · simp at h
  · have hnone : heard contracts packs item state t schedule id = [] := heardOf_of_not_mem hid
    simp [hnone] at h

theorem mem_heard {id : ℕ} {event : Event} : event ∈ heard contracts packs item state t schedule id ↔
    (id, event) ∈ notifyContractSubscribers contracts packs item state t none schedule := by
  rw [heard, List.mem_filterMap]
  constructor
  · rintro ⟨⟨id', event'⟩, he, h⟩
    obtain ⟨hid, hevent⟩ := Option.ite_none_right_eq_some.mp h
    obtain rfl := Option.some.inj hevent
    exact hid ▸ he
  · intro h
    exact ⟨(id, event), h, if_pos rfl⟩

/-! ### Who is served -/

/-- What serves all serves nobody: none who is subscribed can be read, so there is to be none. -/
theorem serves_eq_noneSubscribed {newItems : List Item} : Serves contracts packs item state t newItems ↔
    (∀ id, ¬Subscribed contracts packs item state t id) ∧
      ∀ r ∈ t.contractSubscription.rows, r.payload.1 ∉ hashesOf newItems := by
  constructor
  · intro h
    refine ⟨fun id hsub => ?_, h.noneOfNewItems⟩
    obtain ⟨ime, hget, -⟩ := h.firstCounts id hsub
    exact hsub.getEnvironment_ne ime hget
  · rintro ⟨hnone, hnew⟩
    exact ⟨fun id hsub => absurd hsub (hnone id), fun _ id _ _ hsub => absurd hsub (hnone id),
      fun _ id hsub => absurd hsub (hnone id), hnew⟩

/-- Where no slot hears of an approval, no handler goes on. -/
theorem later_of_noSlot (hslot : state = .APPROVED → ∀ id, Subscribed contracts packs item state t id → ∀ ime,
      getEnvironment packs id t = .ok ime → contracts.kind ime.contract ≠ .slot) {id : ℕ}
    {ime : NImmutableEnvironment C} (hget : getEnvironment packs id t = .ok ime) {event : Event}
    (hevent : eventFor contracts item state ime = .ok (some event)) :
    (contracts.onContractSubscriptionEvent ime event).later = [] := by
  have hright := right_of_eventFor hget hevent
  refine later_eq_nil fun item' pack sub heq => ?_
  refine hslot ?_ id hright.subscribed ime hget
  -- only an approval makes this event
  subst heq
  rcases hright with ⟨-, subscription, hevent⟩ | ⟨-, hevent⟩
  · cases state <;> simp_all [Item.event]
  · cases state <;> simp_all [Item.callbackEvent]

theorem delivered_of_serves {newItems : List Item} (h : Serves contracts packs item state t newItems) :
    Delivered contracts packs item state t := by
  intro schedule id
  refine ⟨fun hsub => ?_, fun hnot => ?_⟩
  · obtain ⟨before, after, hsplit⟩ := List.append_of_mem (mem_environmentIds_of_subscribed hsub)
    have hpass : ∀ id' ∈ before, (turn contracts packs item state t schedule id').thrown = none := by
      intro id' hid'
      exact (turn_thrown fun ime event hget hevent => later_of_noSlot h.noSlot hget hevent).mpr
        (h.noneFails before id after hsplit hsub id' hid')
    obtain ⟨ime, hget, sub, hmatch, hfollow⟩ := h.firstCounts id hsub
    obtain ⟨event, hevent⟩ := event_of_firstMatch hget hmatch hfollow
    refine ⟨event, right_of_eventFor hget hevent, ?_⟩
    rw [heard_eq hsplit, if_pos hpass, turn_event.mpr ⟨ime, hget, hevent⟩, Option.toList_some]
  · refine List.eq_nil_iff_forall_not_mem.mpr fun event hevent => hnot ?_
    exact (right_of_turn (turn_of_heard hevent)).subscribed

theorem writesAll_of_serves {newItems : List Item} (h : Serves contracts packs item state t newItems) :
    WritesAll contracts packs item state t := by
  rintro schedule ⟨id, event⟩ he ime hget now hnow
  obtain ⟨ime', hget', hevent⟩ := turn_event.mp (turn_of_heard (mem_heard.mpr he))
  obtain rfl := Except.ok.inj (hget.symm.trans hget')
  have hnil := later_of_noSlot h.noSlot hget hevent
  rw [seen_of_later_eq_nil hnil, hnil, hnow, List.append_nil]

/-- Where all is delivered, each who is subscribed gets its event in its turn. -/
theorem turn_of_delivered (h : Delivered contracts packs item state t) {id : ℕ}
    (hsub : Subscribed contracts packs item state t id) (schedule : Schedule) :
    ∃ ime event, getEnvironment packs id t = .ok ime ∧ eventFor contracts item state ime = .ok (some event) ∧
      event ∈ heard contracts packs item state t schedule id := by
  obtain ⟨event, -, hheard⟩ := (h schedule id).1 hsub
  have hmem : event ∈ heard contracts packs item state t schedule id := hheard ▸ List.mem_singleton_self _
  obtain ⟨ime, hget, hevent⟩ := turn_event.mp (turn_of_heard hmem)
  exact ⟨ime, event, hget, hevent, hmem⟩

/-- A slot that gets an approval works on after its save. -/
theorem ne_slot_of_writesAll (h : Delivered contracts packs item state t)
    (hwrites : WritesAll contracts packs item state t)
    (hstate : state = .APPROVED) {id : ℕ} (hsub : Subscribed contracts packs item state t id)
    {ime : NImmutableEnvironment C} (hget : getEnvironment packs id t = .ok ime) :
    contracts.kind ime.contract ≠ .slot := by
  intro hkind
  obtain ⟨ime', event, hget', hevent, hheard⟩ := turn_of_delivered h hsub Schedule.late
  obtain rfl := Except.ok.inj (hget.symm.trans hget')
  obtain ⟨sub, -, hfollow, hmade⟩ := firstMatch_of_eventFor hevent
  have hchain : sub.payload.2 = false := by
    cases hc : sub.payload.2 with
    | false => rfl
    | true => simp [NContracts.canFollowContract, hkind, hc] at hfollow
  simp only [hchain, hstate, Item.event, Bool.false_eq_true, if_false, Option.some.injEq] at hmade
  have hcall : contracts.onContractSubscriptionEvent ime event = ⟨.ok [], contracts.slotOperations ime item⟩ := by
    simp [NContracts.onContractSubscriptionEvent, ← hmade, hkind]
  have hseen := hwrites Schedule.late (id, event) (mem_heard.mp hheard) ime hget [] (by rw [hcall])
  rw [seen_late (by rw [hcall])] at hseen
  exact slotOperations_ne_nil ime item (by simpa [hcall] using (Except.ok.inj hseen).symm)

/-- CODE DEFECT (every subscriber is served): each subscribed environment gets one event of its kind, the set that is
    computed spares none, and a save writes all that its handler does, just when who is subscribed can be read, nothing
    fails or stops before a subscription that counts, no slot hears of an approval, and nobody is subscribed to a
    parent or an origin of the new items. -/
theorem serves_iff (contracts : NContracts C) (packs : Packs C) (item : Item) (state : ItemState) (t : Tables)
    (newItems : List Item) :
    (Delivered contracts packs item state t ∧ SameSelection t newItems ∧ WritesAll contracts packs item state t) ↔
      Serves contracts packs item state t newItems := by
  constructor
  · rintro ⟨hdelivered, hsame, hwrites⟩
    have hslot : state = .APPROVED → ∀ id, Subscribed contracts packs item state t id → ∀ ime,
        getEnvironment packs id t = .ok ime → contracts.kind ime.contract ≠ .slot :=
      fun hstate id hsub ime hget => ne_slot_of_writesAll hdelivered hwrites hstate hsub hget
    refine ⟨fun id hsub => ?_, fun before id after hsplit hsub id' hid' => ?_, hslot, (sameSelection_iff t).mp hsame⟩
    · obtain ⟨ime, event, hget, hevent, -⟩ := turn_of_delivered hdelivered hsub Schedule.late
      obtain ⟨sub, hmatch, hfollow, -⟩ := firstMatch_of_eventFor hevent
      exact ⟨ime, hget, sub, hmatch, hfollow⟩
    · obtain ⟨event, -, hheard⟩ := (hdelivered Schedule.late id).1 hsub
      rw [heard_eq hsplit] at hheard
      split at hheard
      · rename_i hpass
        exact (turn_thrown fun ime event hget hevent => later_of_noSlot hslot hget hevent).mp (hpass id' hid')
      · exact absurd hheard nofun
  · intro h
    exact ⟨delivered_of_serves h, (sameSelection_iff t).mpr h.noneOfNewItems, writesAll_of_serves h⟩

end

/-- Contracts that are all slots of one revision of what they track. -/
def slots : NContracts HashId where
  kind _ := .slot
  canFollow _ _ := .ok false
  followerOperations _ _ := .ok []
  trackingContracts _ := [(⟨"cGFyZW50"⟩, [2])]
  keepRevisions _ := 1
  newExpires _ _ := 1700000000000
  contractId _ := ⟨"cGFyZW50"⟩

/-- The subscription of a slot to what it tracks. -/
def slotSubscription : Rows.Row (HashId × Bool) := ⟨5, 1, 1600000000, (⟨"cGFyZW50"⟩, false)⟩

theorem slotSubscription_nodup : ([slotSubscription].map Rows.Row.id).Nodup := List.nodup_singleton _

theorem slotSubscription_positive : ∀ r ∈ [slotSubscription], 0 < r.id :=
  List.forall_mem_singleton.mpr (Nat.succ_pos 4)

theorem slotSubscription_fresh : ∀ r ∈ [slotSubscription], r.id < 6 :=
  List.forall_mem_singleton.mpr (Nat.lt_succ_self 5)

theorem slotSubscription_next : 0 < 6 := Nat.succ_pos 5

theorem noRows_positive {α : Type} : ∀ r ∈ ([] : List (Rows.Row α)), 0 < r.id := List.forall_mem_nil _

theorem noRows_fresh {α : Type} : ∀ r ∈ ([] : List (Rows.Row α)), r.id < 1 := List.forall_mem_nil _

/-- A table without rows. -/
def noRows {α : Type} : Rows.Table α where
  rows := []
  nextId := 1
  nodup := List.nodup_nil
  positive := noRows_positive
  fresh := noRows_fresh
  nextPositive := Nat.one_pos

/-- Tables with the environment of one slot, which is subscribed to what it tracks. -/
def oneSlotTables : Tables where
  environments := [⟨1, "SLOT1", ⟨"c2xvdA=="⟩, [7], [1]⟩]
  contractSubscription := ⟨[slotSubscription], 6, slotSubscription_nodup, slotSubscription_positive,
    slotSubscription_fresh, slotSubscription_next⟩
  contractStorage := noRows
  contractBinary := []
  followerEnvironments _ := none
  names := ⟨[], [], 1, 1⟩

/-- The next revision of what is tracked. -/
def nextRevision : Item := ⟨⟨"aWQ="⟩, some ⟨"cGFyZW50"⟩, ⟨"b3JpZ2lu"⟩, [3]⟩

/-- The slot is not served: its revision is a sub-item whose set is never made, its environment is never read, and where
    a slot does hear of an approval, a save that is done first writes nothing of what it does. These packs read the
    slot, which `SlotContract.fromSealedBinary` never does; it is not served either way. -/
theorem slot_not_served : getItemsWithSubscriptions (hashesOf [nextRevision]) oneSlotTables = .pending ∧
    getEnvironment emptyStorePacks 1 oneSlotTables = .error .neverSettles ∧
    notifyContractSubscribers slots emptyStorePacks nextRevision .APPROVED oneSlotTables none .late = [] ∧
    (∀ ime, (slots.onContractSubscriptionEvent ime (.approved nextRevision [3] 5)).seen (Schedule.late.done 1) = .ok [] ∧
      (slots.onContractSubscriptionEvent ime (.approved nextRevision [3] 5)).later ≠ []) ∧
    ¬(Delivered slots emptyStorePacks nextRevision .APPROVED oneSlotTables ∧
      SameSelection oneSlotTables [nextRevision] ∧
      WritesAll slots emptyStorePacks nextRevision .APPROVED oneSlotTables) := by
  refine ⟨by decide, rfl, rfl, fun ime => ⟨seen_late rfl 1, slotOperations_ne_nil ime _⟩, fun ⟨_, hsame, _⟩ => ?_⟩
  have hnone := (sameSelection_iff oneSlotTables).mp hsame _ (List.mem_singleton_self _)
  exact absurd hnone (by decide)

end Universa.Services.Subscribers
