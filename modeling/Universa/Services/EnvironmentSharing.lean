import Universa.Js.Value
import Universa.Lib.OrderedMap
import Universa.Lib.Run
import Universa.Lib.SharedObjects
import Universa.Services.NameTables

/-! What an `NMutableEnvironment` shares with the `NImmutableEnvironment` that it is a copy of. The constructor
    takes the key-value store itself, and copies of the sets with the same subscriptions, storages and records
    of names in them, so that `set` and the setters of an expiry write to what the immutable environment has.
    Sets are sets of addresses: an object is itself by its random `stringId`. `t` is the module `tools`, which the
    two classes do not require and which the main script of the tests makes global.

    What a save sends to the ledger is left out; a statement is rejected or not as the ledger answers. -/

namespace Universa.Services.EnvironmentSharing
open Universa.Lib Universa.Shared

/-- A value of a property that may be missing. -/
inductive Reference where
  | undefined
  | null
  | object
  deriving DecidableEq

/-- `NNameRecord` but for its id and its expiry. -/
structure NameFields where
  name : String
  nameReduced : String
  description : Option String
  url : Option String
  entries : List NNameRecordEntry
  environmentId : ℕ

/-- A key-value store: its own names, and its prototype where one was set. -/
structure KvStore where
  own : OrderedMap String Js.Value
  prototype : Option Js.Value

namespace KvStore

/-- `{}`. -/
def empty : KvStore := ⟨OrderedMap.empty, none⟩

/-- The value can be a prototype: null or an object. -/
def CanBePrototype : Js.Value → Prop
  | .bool _ | .num _ | .str _ => False
  | .null | .date _ | .bytes _ | .arr _ | .obj _ => True

instance : DecidablePred CanBePrototype := fun value => by
  cases value <;> unfold CanBePrototype <;> infer_instance

/-- `kvStore[key] = value`; the name `__proto__` is of the prototype. -/
def set (key : String) (value : Js.Value) (o : KvStore) : KvStore :=
  if key = "__proto__" then if CanBePrototype value then { o with prototype := some value } else o
  else { o with own := o.own.set key value }

/-- The key has the value already, or the value cannot be its. -/
def Has (key : String) (value : Js.Value) (o : KvStore) : Prop :=
  if key = "__proto__" then CanBePrototype value → o.prototype = some value else o.own.get? key = some value

theorem set_eq_self_iff {key : String} {value : Js.Value} {o : KvStore} : o.set key value = o ↔ o.Has key value := by
  obtain ⟨own, prototype⟩ := o
  unfold set Has
  by_cases hkey : key = "__proto__"
  · rw [if_pos hkey, if_pos hkey]
    by_cases hvalue : CanBePrototype value
    · simp [hvalue, eq_comm]
    · simp [hvalue]
  · simp [hkey, OrderedMap.set_eq_self_iff]

end KvStore

/-- `NImmutableEnvironment`, with the key-value stores in memory; its own is the one at `kvStore`. -/
structure NImmutableEnvironment where
  kvStores : List KvStore
  kvStore : ℕ
  validStore : kvStore < kvStores.length
  subscriptionsSet : Held (HashId × Bool)
  storagesSet : Held (List UInt8)
  nameRecordsSet : Held NameFields
  followerService : Reference
  nameCache : Reference

/-- What is in an environment: its key-value store, and what its sets have. -/
structure Content where
  kvStore : Option KvStore
  subscriptions : List (Option (Rows.Object (HashId × Bool)))
  storages : List (Option (Rows.Object (List UInt8)))
  nameRecords : List (Option (Rows.Object NameFields))

/-- The content of an immutable environment. -/
def NImmutableEnvironment.content (ime : NImmutableEnvironment) : Content where
  kvStore := ime.kvStores[ime.kvStore]?
  subscriptions := ime.subscriptionsSet.view
  storages := ime.storagesSet.view
  nameRecords := ime.nameRecordsSet.view

/-- `NMutableEnvironment`, with the immutable one in the same memory. -/
structure NMutableEnvironment where
  kvStores : List KvStore
  immutable_kvStore : ℕ
  kvStore : ℕ
  subscriptions : Pool (HashId × Bool)
  storages : Pool (List UInt8)
  nameRecords : Pool NameFields
  followerService : Reference
  nameCache : Reference
  validImmutable : immutable_kvStore < kvStores.length
  validStore : kvStore < kvStores.length

namespace NMutableEnvironment

/-- `new NMutableEnvironment(ime)`: without a follower service the constructor of the base class returns early,
    and the key-value store is a new one. -/
def new (ime : NImmutableEnvironment) : NMutableEnvironment where
  kvStores := ime.kvStores ++ (if ime.followerService = .undefined then [KvStore.empty] else [])
  immutable_kvStore := ime.kvStore
  kvStore := if ime.followerService = .undefined then ime.kvStores.length else ime.kvStore
  subscriptions := .start ime.subscriptionsSet
  storages := .start ime.storagesSet
  nameRecords := .start ime.nameRecordsSet
  followerService := ime.followerService
  nameCache := ime.nameCache
  validImmutable := by
    rw [List.length_append]
    exact Nat.lt_add_right _ ime.validStore
  validStore := by
    rw [List.length_append]
    split
    · exact Nat.lt_succ_self _
    · exact ime.validStore

/-- The content of the immutable environment. -/
def content (me : NMutableEnvironment) : Content where
  kvStore := me.kvStores[me.immutable_kvStore]?
  subscriptions := me.subscriptions.view
  storages := me.storages.view
  nameRecords := me.nameRecords.view

/-! ### Operations -/

/-- `set(key, value)`. -/
def set (key : String) (value : Js.Value) (me : NMutableEnvironment) : NMutableEnvironment where
  kvStores := me.kvStores.modify me.kvStore fun o => o.set key value
  immutable_kvStore := me.immutable_kvStore
  kvStore := me.kvStore
  subscriptions := me.subscriptions
  storages := me.storages
  nameRecords := me.nameRecords
  followerService := me.followerService
  nameCache := me.nameCache
  validImmutable := by simpa using me.validImmutable
  validStore := by simpa using me.validStore

/-- `createChainSubscription(origin, expiresAt)`. -/
def createChainSubscription (origin : HashId) (expiresAt : ℤ) (me : NMutableEnvironment) :
    NMutableEnvironment :=
  { me with subscriptions := me.subscriptions.create (origin, true) expiresAt }

/-- `createContractSubscription(id, expiresAt)`. -/
def createContractSubscription (id : HashId) (expiresAt : ℤ) (me : NMutableEnvironment) : NMutableEnvironment :=
  { me with subscriptions := me.subscriptions.create (id, false) expiresAt }

/-- `createContractStorage(packedTransaction, expiresAt)`. -/
def createContractStorage (packedTransaction : List UInt8) (expiresAt : ℤ) (me : NMutableEnvironment) :
    NMutableEnvironment :=
  { me with storages := me.storages.create packedTransaction expiresAt }

/-- `setSubscriptionExpiresAt(subscription, expiresAt)`. -/
def setSubscriptionExpiresAt (subscription : ℕ) (expiresAt : ℤ) (me : NMutableEnvironment) : NMutableEnvironment :=
  { me with subscriptions := me.subscriptions.setExpiresAt subscription expiresAt }

/-- `setStorageExpiresAt(contractStorage, expiresAt)`. -/
def setStorageExpiresAt (contractStorage : ℕ) (expiresAt : ℤ) (me : NMutableEnvironment) : NMutableEnvironment :=
  { me with storages := me.storages.setExpiresAt contractStorage expiresAt }

/-- `setNameRecordExpiresAt(nameRecord, expiresAt)`. -/
def setNameRecordExpiresAt (nameRecord : ℕ) (expiresAt : ℤ) (me : NMutableEnvironment) : NMutableEnvironment :=
  { me with nameRecords := me.nameRecords.setExpiresAt nameRecord expiresAt }

/-- `destroySubscription(subscription)`. -/
def destroySubscription (subscription : ℕ) (me : NMutableEnvironment) : NMutableEnvironment :=
  { me with subscriptions := me.subscriptions.destroy subscription }

/-- `destroyStorage(contractStorage)`. -/
def destroyStorage (contractStorage : ℕ) (me : NMutableEnvironment) : NMutableEnvironment :=
  { me with storages := me.storages.destroy contractStorage }

/-- `destroyNameRecord(nameRecord)`. -/
def destroyNameRecord (nameRecord : ℕ) (me : NMutableEnvironment) : NMutableEnvironment :=
  { me with nameRecords := me.nameRecords.destroy nameRecord }

end NMutableEnvironment

/-- An operation of a mutable environment; objects are given by reference. -/
inductive Operation where
  | set (key : String) (value : Js.Value)
  | createChainSubscription (origin : HashId) (expiresAt : ℤ)
  | createContractSubscription (id : HashId) (expiresAt : ℤ)
  | createContractStorage (packedTransaction : List UInt8) (expiresAt : ℤ)
  | createNameRecord (unsName unsReducedName : String) (expiresAt : ℤ)
  | setSubscriptionExpiresAt (subscription : ℕ) (expiresAt : ℤ)
  | setStorageExpiresAt (contractStorage : ℕ) (expiresAt : ℤ)
  | setNameRecordExpiresAt (nameRecord : ℕ) (expiresAt : ℤ)
  | destroySubscription (subscription : ℕ)
  | destroyStorage (contractStorage : ℕ)
  | destroyNameRecord (nameRecord : ℕ)

/-- The environment after an operation. `UnsName` has no `unsRecords`, so `createNameRecord` throws before it
    adds. -/
def NMutableEnvironment.apply (me : NMutableEnvironment) : Operation → NMutableEnvironment
  | .set key value => me.set key value
  | .createChainSubscription origin expiresAt => me.createChainSubscription origin expiresAt
  | .createContractSubscription id expiresAt => me.createContractSubscription id expiresAt
  | .createContractStorage packedTransaction expiresAt => me.createContractStorage packedTransaction expiresAt
  | .createNameRecord _ _ _ => me
  | .setSubscriptionExpiresAt subscription expiresAt => me.setSubscriptionExpiresAt subscription expiresAt
  | .setStorageExpiresAt contractStorage expiresAt => me.setStorageExpiresAt contractStorage expiresAt
  | .setNameRecordExpiresAt nameRecord expiresAt => me.setNameRecordExpiresAt nameRecord expiresAt
  | .destroySubscription subscription => me.destroySubscription subscription
  | .destroyStorage contractStorage => me.destroyStorage contractStorage
  | .destroyNameRecord nameRecord => me.destroyNameRecord nameRecord

/-- An operation as a step: every one comes to an end. -/
def step (me : NMutableEnvironment) (op : Operation) : Option NMutableEnvironment := some (me.apply op)

/-! ### `save` -/

/-- How the ledger answers the statements of a save: by address, whether one goes through, or the id that it
    gives. An `updateEnvironment` is also rejected where the store or the contract cannot be packed. -/
structure Answers where
  updateEnvironment : Bool
  removeEnvironmentSubscription : ℕ → Bool
  updateSubscriptionInStorage : ℕ → Bool
  saveSubscriptionInStorage : ℕ → Option ℕ
  removeEnvironmentStorage : ℕ → Bool
  updateStorageExpiresAt : ℕ → Bool
  removeNameRecord : ℕ → Bool
  clearExpiredStorageContractBinaries : Bool
  updateNameRecord : ℕ → Bool
  addNameStorage : ℕ → Option ℕ

namespace NMutableEnvironment

/-- Statements that are waited for one after another: at the first that is rejected, `save` throws and leaves
    the environment as it is then. -/
def await (me : NMutableEnvironment) (statements : List Bool) : Except NMutableEnvironment Unit :=
  if statements.all id then .ok () else .error me

/-- The subscriptions that are added get their ids. -/
def numberSubscriptions (answers : Answers) (me : NMutableEnvironment) : NMutableEnvironment :=
  { me with subscriptions := me.subscriptions.assignIds answers.saveSubscriptionInStorage }

/-- The records of names that are added get their ids. -/
def numberNameRecords (answers : Answers) (me : NMutableEnvironment) : NMutableEnvironment :=
  { me with nameRecords := me.nameRecords.assignIds answers.addNameStorage }

/-- What `save` does to the immutable environment after all its statements. -/
def commit (me : NMutableEnvironment) : NImmutableEnvironment where
  kvStores := me.kvStores
  kvStore := me.kvStore
  validStore := me.validStore
  subscriptionsSet := me.subscriptions.commit
  storagesSet := me.storages.commit
  nameRecordsSet := me.nameRecords.commit
  followerService := me.followerService
  nameCache := me.nameCache

/-- `save()`: the immutable environment after it, or where it throws, the mutable one. A storage that is added
    has no `contract`, and the entries of a record of a name, a set, have no `map`. -/
def save (answers : Answers) (me : NMutableEnvironment) : Except NMutableEnvironment NImmutableEnvironment := do
  me.await [answers.updateEnvironment,
    me.subscriptions.toDestroy.all answers.removeEnvironmentSubscription,
    me.subscriptions.toSave.all answers.updateSubscriptionInStorage]
  let me := me.numberSubscriptions answers
  me.await [me.subscriptions.toAdd.all fun a => (answers.saveSubscriptionInStorage a).isSome,
    me.storages.toDestroy.all answers.removeEnvironmentStorage,
    me.storages.toSave.all answers.updateStorageExpiresAt,
    me.storages.toAdd.isEmpty,
    me.nameRecords.toDestroy.all answers.removeNameRecord,
    answers.clearExpiredStorageContractBinaries,
    me.nameRecords.toSave.all answers.updateNameRecord]
  let me := me.numberNameRecords answers
  me.await [me.nameRecords.toAdd.isEmpty, me.nameCache = .object]
  return me.commit

end NMutableEnvironment

/-! ### What is promised -/

/-- A mutable copy leaves the immutable environment as it was, now and where a save throws; a save that goes
    through leaves the old sets without the destroyed and with the added, and the key-value store of the copy.
    -/
structure Promised (ime : NImmutableEnvironment) (me : NMutableEnvironment) : Prop where
  unsaved : me.content = ime.content
  thrown : ∀ answers me', me.save answers = .error me' → me'.content = ime.content
  kvStore : ∀ answers ime', me.save answers = .ok ime' → ime'.kvStores[ime'.kvStore]? = me.kvStores[me.kvStore]?
  subscriptions : ∀ answers ime', me.save answers = .ok ime' → ime'.subscriptionsSet.set =
    ime.subscriptionsSet.set.filter (· ∉ me.subscriptions.toDestroy) ++ me.subscriptions.toAdd
  storages : ∀ answers ime', me.save answers = .ok ime' → ime'.storagesSet.set =
    ime.storagesSet.set.filter (· ∉ me.storages.toDestroy) ++ me.storages.toAdd
  nameRecords : ∀ answers ime', me.save answers = .ok ime' → ime'.nameRecordsSet.set =
    ime.nameRecordsSet.set.filter (· ∉ me.nameRecords.toDestroy) ++ me.nameRecords.toAdd

/-- The condition: a key is set in a store that the immutable environment does not have, or to a value that it has
    already (or, for `__proto__`, that cannot be a prototype), and an expiry is set of an object that the immutable
    environment does not have, or to what it is. -/
def Fits (me : NMutableEnvironment) : Operation → Prop
  | .set key value =>
      me.kvStore = me.immutable_kvStore → ∀ o, me.kvStores[me.kvStore]? = some o → o.Has key value
  | .setSubscriptionExpiresAt subscription expiresAt => me.subscriptions.Leaves subscription expiresAt
  | .setStorageExpiresAt contractStorage expiresAt => me.storages.Leaves contractStorage expiresAt
  | .setNameRecordExpiresAt nameRecord expiresAt => me.nameRecords.Leaves nameRecord expiresAt
  | _ => True

/-! ### One operation -/

variable {ime : NImmutableEnvironment} {me : NMutableEnvironment}

/-- The content with the store changed. -/
theorem content_set_iff {key : String} {value : Js.Value} :
    (me.set key value).content = me.content ↔ Fits me (.set key value) := by
  have hcontent : (me.set key value).content = me.content ↔
      (me.kvStores.modify me.kvStore fun o => o.set key value)[me.immutable_kvStore]? =
        me.kvStores[me.immutable_kvStore]? := by
    rw [NMutableEnvironment.content, NMutableEnvironment.content, Content.mk.injEq]
    exact and_iff_left ⟨rfl, rfl, rfl⟩
  rw [hcontent, List.getElem?_modify]
  by_cases hshared : me.kvStore = me.immutable_kvStore
  · simp only [Fits, hshared, if_true, true_imp_iff]
    cases me.kvStores[me.immutable_kvStore]? with
    | none => simp
    | some o => simp [KvStore.set_eq_self_iff]
  · simp [Fits, hshared]

/-- An operation leaves the immutable environment as it is exactly where the condition holds. -/
theorem content_apply_iff (op : Operation) : (me.apply op).content = me.content ↔ Fits me op := by
  cases op with
  | set key value => exact content_set_iff
  | createChainSubscription origin expiresAt =>
    exact iff_of_true (congrArg (fun v => { me.content with subscriptions := v }) (Pool.view_create ..)) trivial
  | createContractSubscription id expiresAt =>
    exact iff_of_true (congrArg (fun v => { me.content with subscriptions := v }) (Pool.view_create ..)) trivial
  | createContractStorage packedTransaction expiresAt =>
    exact iff_of_true (congrArg (fun v => { me.content with storages := v }) (Pool.view_create ..)) trivial
  | createNameRecord unsName unsReducedName expiresAt => exact iff_of_true rfl trivial
  | setSubscriptionExpiresAt subscription expiresAt =>
    refine Iff.trans ?_ Pool.view_setExpiresAt_iff
    exact ⟨congrArg Content.subscriptions, congrArg fun v => { me.content with subscriptions := v }⟩
  | setStorageExpiresAt contractStorage expiresAt =>
    refine Iff.trans ?_ Pool.view_setExpiresAt_iff
    exact ⟨congrArg Content.storages, congrArg fun v => { me.content with storages := v }⟩
  | setNameRecordExpiresAt nameRecord expiresAt =>
    refine Iff.trans ?_ Pool.view_setExpiresAt_iff
    exact ⟨congrArg Content.nameRecords, congrArg fun v => { me.content with nameRecords := v }⟩
  | destroySubscription subscription => exact iff_of_true rfl trivial
  | destroyStorage contractStorage => exact iff_of_true rfl trivial
  | destroyNameRecord nameRecord => exact iff_of_true rfl trivial

/-- The copy has the sets of the immutable environment. -/
structure SameSets (ime : NImmutableEnvironment) (me : NMutableEnvironment) : Prop where
  subscriptions : me.subscriptions.set = ime.subscriptionsSet.set
  storages : me.storages.set = ime.storagesSet.set
  nameRecords : me.nameRecords.set = ime.nameRecordsSet.set

/-- No operation changes a set of the immutable environment. -/
theorem sameSets_apply (h : SameSets ime me) (op : Operation) : SameSets ime (me.apply op) := by
  cases op <;> exact ⟨h.subscriptions, h.storages, h.nameRecords⟩

theorem content_new : (NMutableEnvironment.new ime).content = ime.content :=
  congrArg (fun v => { ime.content with kvStore := v }) (List.getElem?_append_left ime.validStore)

/-! ### A save -/

theorem content_numberSubscriptions (answers : Answers) :
    (me.numberSubscriptions answers).content = me.content :=
  congrArg (fun v => { me.content with subscriptions := v }) (Pool.view_assignIds ..)

theorem content_numberNameRecords (answers : Answers) : (me.numberNameRecords answers).content = me.content :=
  congrArg (fun v => { me.content with nameRecords := v }) (Pool.view_assignIds ..)

theorem await_error {β : Type} {statements : List Bool} {f : Unit → Except NMutableEnvironment β}
    {me' : NMutableEnvironment} (h : (me.await statements >>= f) = .error me') : me' = me ∨ f () = .error me' := by
  unfold NMutableEnvironment.await at h
  split at h
  · exact .inr h
  · exact .inl (Except.error.inj h).symm

theorem await_ok {β : Type} {statements : List Bool} {f : Unit → Except NMutableEnvironment β} {b : β}
    (h : (me.await statements >>= f) = .ok b) : f () = .ok b := by
  unfold NMutableEnvironment.await at h
  split at h
  · exact h
  · cases h

/-- A save that throws leaves the immutable environment as it was: it wrote ids of added objects at most. -/
theorem content_of_save_error {answers : Answers} {me' : NMutableEnvironment} (h : me.save answers = .error me') :
    me'.content = me.content := by
  have hsubscriptions : (me.numberSubscriptions answers).content = me.content := content_numberSubscriptions answers
  rcases await_error h with rfl | h
  · rfl
  rcases await_error h with rfl | h
  · exact hsubscriptions
  rcases await_error h with rfl | h
  · exact (content_numberNameRecords answers).trans hsubscriptions
  · cases h

/-- A save that goes through commits what was noted, with the ids that were given. -/
theorem save_ok {answers : Answers} {ime' : NImmutableEnvironment} (h : me.save answers = .ok ime') :
    ime' = ((me.numberSubscriptions answers).numberNameRecords answers).commit := by
  have h₁ := await_ok h
  have h₂ := await_ok h₁
  have h₃ := await_ok h₂
  exact (Except.ok.inj h₃).symm

/-- With the old sets, a copy keeps its promise exactly while the immutable environment is as it was. -/
theorem promised_iff_content (h : SameSets ime me) : Promised ime me ↔ me.content = ime.content := by
  refine ⟨Promised.unsaved, fun hcontent => ?_⟩
  refine ⟨hcontent, fun answers me' hsave => (content_of_save_error hsave).trans hcontent, ?_, ?_, ?_, ?_⟩
  · rintro answers _ hsave
    rw [save_ok hsave]
    rfl
  · rintro answers _ hsave
    rw [save_ok hsave, ← h.subscriptions]
    rfl
  · rintro answers _ hsave
    rw [save_ok hsave, ← h.storages]
    rfl
  · rintro answers _ hsave
    rw [save_ok hsave, ← h.nameRecords]
    rfl

/-! ### Every run -/

/-- CODE DEFECT (shared by reference): a mutable copy leaves the immutable environment as it was, without a save
    as with one that throws, exactly while no key is set in the store that both have and no expiry of an object
    that both have; a save that goes through always leaves what it is to leave. -/
theorem unchanged_iff (ime : NImmutableEnvironment) (ops : List Operation) :
    Run.Always step (Promised ime) (.new ime) ops ↔ Run.Meets step Fits (.new ime) ops := by
  have hsets : SameSets ime (.new ime) := ⟨rfl, rfl, rfl⟩
  have hkept : ∀ me op me', SameSets ime me → step me op = some me' → SameSets ime me' := by
    rintro me op _ h ⟨⟩
    exact sameSets_apply h op
  have hseen : ∀ me, SameSets ime me → (Promised ime me ↔ me.content = ime.content) := fun _ => promised_iff_content
  rw [Run.always_congr hkept hseen hsets]
  refine Run.always_iff_meets (fun me op hcontent => ⟨me.apply op, rfl, ?_⟩) content_new
  rw [← hcontent]
  exact content_apply_iff op

/-- An environment with a follower service and nothing else. -/
def followed : NImmutableEnvironment where
  kvStores := [KvStore.empty]
  kvStore := 0
  validStore := Nat.zero_lt_one
  subscriptionsSet := ⟨[], [], List.nodup_nil, fun _ h => absurd h List.not_mem_nil⟩
  storagesSet := ⟨[], [], List.nodup_nil, fun _ h => absurd h List.not_mem_nil⟩
  nameRecordsSet := ⟨[], [], List.nodup_nil, fun _ h => absurd h List.not_mem_nil⟩
  followerService := .object
  nameCache := .object

/-- A key that is set without a save is set in the immutable environment. -/
theorem set_unsaved : ¬∀ (ime : NImmutableEnvironment) (ops : List Operation) (me : NMutableEnvironment),
    Run.run step (.new ime) ops = some me → Promised ime me := by
  intro h
  have hsaved := (h followed [.set "key" .null] _ rfl).unsaved
  have hkey := congrArg (fun c => c.kvStore.any fun o => o.own.has "key") hsaved
  exact absurd hkey (by decide)

end Universa.Services.EnvironmentSharing
