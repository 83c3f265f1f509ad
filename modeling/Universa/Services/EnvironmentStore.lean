import Mathlib.Data.List.Dedup
import Universa.Contracts.Contract
import Universa.Lib.Rows
import Universa.Services.FollowerContract
import Universa.Services.NameAllocation

/-! The environments of smart contracts in the ledger: what `NMutableEnvironment` collects and saves, and what
    `Ledger.getEnvironment` reads back. Subscriptions and storages are sessions over rows, in milliseconds and in
    seconds. Tables are as their statements make them; the locks that a save releases are left out.

    Dates are columns of the type `bigint`, which the driver gives as a `BigInt`, and the callbacks that read
    subscriptions, storages and a follower service multiply them with a number; the callback in `getNameBy` begins
    with a class that `ledger.js` does not require. What a callback throws settles nothing, so no environment that has
    any of these is ever read. No storage and no name is ever added: a save that adds one fails. `t` is the module
    `tools`, which the classes of environments do not require and which the main script of the tests makes global. -/

namespace Universa.Services

open Follower (FollowerService)

/-! ### Tables -/

/-- A row of `environments`. -/
structure EnvironmentRow where
  id : ℕ
  ncontractType : String
  ncontractHashId : HashId
  kvStorage : List UInt8
  transactionPack : List UInt8
  deriving DecidableEq

/-- A row of `contract_binary`. -/
structure BinaryRow where
  hashId : HashId
  binData : List UInt8
  deriving DecidableEq

/-- The tables of environments; subscriptions are of an id and on a chain or not, storages of an id and an origin. The
    key of `follower_environments` is the environment; its dates are in seconds. -/
structure Tables where
  environments : List EnvironmentRow
  contractSubscription : Rows.Table (HashId × Bool)
  contractStorage : Rows.Table (HashId × HashId)
  contractBinary : List BinaryRow
  followerEnvironments : ℕ → Option FollowerService
  names : NameTables

/-- What a call ends with that has no result: an exception, or nothing, since a promise it awaits never settles. -/
inductive Thrown where
  | neverSettles
  | mixesBigInt
  | readsUndefined (what : String)
  | readsNull (what : String)
  | js (e : JsError)
  deriving DecidableEq

/-- `new Date(value * 1000)` of a column of the type `bigint`: a `BigInt` is not multiplied with a number. -/
def dateOf (_value : ℤ) : Except Thrown ℤ := .error .mixesBigInt

/-- A promise that the callback of a query is to resolve. What it throws settles nothing. -/
def settled {α : Type} : Except Thrown α → Except Thrown α
  | .ok result => .ok result
  | .error _ => .error .neverSettles

namespace Tables

/-- `updateEnvironment(id, …)`. -/
def updateEnvironment (row : EnvironmentRow) (t : Tables) : Tables :=
  { t with environments := t.environments.map fun r => if r.id = row.id then row else r }

/-- The binary of an id, as the join with `contract_binary` finds it. -/
def binary (t : Tables) (ids : HashId × HashId) : Option (List UInt8) :=
  (t.contractBinary.find? fun b => b.hashId = ids.1).map BinaryRow.binData

/-- `clearExpiredStorageContractBinaries()`. -/
def clearExpiredStorageContractBinaries (t : Tables) : Tables :=
  { t with contractBinary := t.contractBinary.filter fun b =>
      ∃ r ∈ t.contractStorage.rows, r.payload.1 = b.hashId }

/-- `saveFollowerEnvironment(environmentId, …)`. -/
def saveFollowerEnvironment (environmentId : ℕ) (fs : FollowerService) (t : Tables) : Tables :=
  let row := { fs with expiresAt := fs.expiresAt / 1000, mutedAt := fs.mutedAt / 1000 }
  { t with followerEnvironments := Function.update t.followerEnvironments environmentId (some row) }

/-- `getContractSubscriptions(environmentId)`. -/
def getContractSubscriptions (environmentId : ℕ) (t : Tables) : Except Thrown (List (Rows.Object (HashId × Bool))) :=
  settled <| (t.contractSubscription.select environmentId).mapM fun row => do
    return ⟨row.id, row.payload, ← dateOf row.expiresAt⟩

/-- `contract_storage JOIN contract_binary` for an environment. -/
def joinBinary (environmentId : ℕ) (t : Tables) : List (Rows.Row (HashId × HashId) × List UInt8) :=
  (t.contractStorage.select environmentId).filterMap fun row => (t.binary row.payload).map fun binData => (row, binData)

/-- `getContractStorages(environmentId)`. -/
def getContractStorages (environmentId : ℕ) (t : Tables) : Except Thrown (List (Rows.Object (List UInt8))) :=
  settled <| (t.joinBinary environmentId).mapM fun (row, binData) => do
    return ⟨row.id, binData, ← dateOf row.expiresAt⟩

/-- `getFollowerService(environmentId)`. -/
def getFollowerService (environmentId : ℕ) (t : Tables) : Except Thrown (Option FollowerService) :=
  match t.followerEnvironments environmentId with
  | none => .ok none
  | some row => settled do
      let expiresAt ← dateOf row.expiresAt
      let mutedAt ← dateOf row.mutedAt
      return some { row with expiresAt, mutedAt }

/-- The subscriptions that the tables have of an environment. -/
def subscriptionsOf (environmentId : ℕ) (t : Tables) : List (Rows.Object (HashId × Bool)) :=
  t.contractSubscription.read some 1000 environmentId

/-- The storages that they have of it. -/
def storagesOf (environmentId : ℕ) (t : Tables) : List (Rows.Object (List UInt8)) :=
  t.contractStorage.read t.binary 1000 environmentId

/-- The follower service that they have of it. -/
def followerServiceOf (environmentId : ℕ) (t : Tables) : Option FollowerService :=
  (t.followerEnvironments environmentId).map fun row =>
    { row with expiresAt := row.expiresAt * 1000, mutedAt := row.mutedAt * 1000 }

end Tables

/-! ### Names -/

/-- What `getNameBy` is given as its connection: none or one of the driver, or a value that is no connection. -/
inductive Connection where
  | driver
  | other
  deriving DecidableEq

/-- A promise of a record, or one that nothing settles. -/
inductive Lookup where
  | pending
  | resolved (record : Option NNameRecord)
  deriving DecidableEq

namespace NameTables

/-- `name_storage JOIN name_entry` with a clause. -/
def joinEntries (t : NameTables) (clause : NameStorageRow → Bool) : List (NameStorageRow × NameEntryRow) :=
  (t.storage.filter clause).flatMap fun row =>
    (t.entries.filter fun e => row.id = e.nameStorageId).map fun e => (row, e)

/-- The record of the rows: its fields are those of the first. -/
def recordOf (rows : List (NameStorageRow × NameEntryRow)) : Option NNameRecord :=
  rows.head?.map fun (row, _) =>
    { name := row.nameFull, nameReduced := row.nameReduced, description := row.description, url := row.url
      expiresAt := row.expiresAt * 1000, entries := rows.map fun (_, e) => ⟨e.origin, e.shortAddr, e.longAddr⟩
      id := row.id, environmentId := row.environmentId }

/-- `count` after the loop `while (count > 0)` that takes up to 1024 rows at a time. -/
def countAfter (count : ℕ) : ℕ := if 1024 < count then countAfter (count - 1024) else 0

/-- `new UnsName()`, of which `ledger.js` knows nothing. -/
def newUnsName : Except JsError Unit := .error (.notDefined "UnsName")

/-- The callback of the query. -/
def nameOf (rows : List (NameStorageRow × NameEntryRow)) : Except JsError (Option NNameRecord) := do
  newUnsName
  let count := countAfter rows.length
  return if 0 < count then recordOf rows else none

/-- `getNameBy(clause, connection)`. What its callback throws settles nothing; without a driver's connection the
    executor of the promise throws. -/
def getNameBy (t : NameTables) (connection : Connection) (clause : NameStorageRow → Bool) : Lookup :=
  match connection with
  | .other => .pending
  | .driver =>
      match nameOf (t.joinEntries clause) with
      | .ok record => .resolved record
      | .error _ => .pending

/-- `getNameRecord(nameReduced, con)`. -/
def getNameRecord (t : NameTables) (nameReduced : String) : Lookup :=
  t.getNameBy .driver fun row => row.nameReduced = nameReduced

/-- `getNameByAddress(address)`, which gives the address as the connection. -/
def getNameByAddress (t : NameTables) (address : String) : Lookup :=
  t.getNameBy .other fun row =>
    ((t.entries.filter fun e => e.shortAddr = some address ∨ e.longAddr = some address).head?.map
      NameEntryRow.nameStorageId) = some row.id

/-- `getNameByOrigin(origin)`, which gives the origin as the connection. -/
def getNameByOrigin (t : NameTables) (origin : HashId) : Lookup :=
  t.getNameBy .other fun row =>
    ((t.entries.filter fun e => e.origin = some origin).head?.map NameEntryRow.nameStorageId) = some row.id

/-- `getReducedNames(environmentId)`. -/
def getReducedNames (t : NameTables) (environmentId : ℕ) : List String :=
  ((t.joinEntries fun row => row.environmentId = environmentId).map fun (row, _) => row.nameReduced).dedup

end NameTables

/-! ### Environments -/

/-- What packs a contract and a key-value store, and reads them: `Boss` and `NSmartContract`. -/
structure Packs (C : Type) where
  id : C → HashId
  extendedType : C → String
  dump : List (String × Js.Value) → List UInt8
  load : List UInt8 → Except Thrown (List (String × Js.Value))
  getPackedTransaction : C → List UInt8
  fromPackedTransaction : List UInt8 → Except Thrown C
  subItem : C → HashId → Option C

/-- `NImmutableEnvironment`. -/
structure NImmutableEnvironment (C : Type) where
  id : ℕ
  contract : C
  kvStore : List (String × Js.Value)
  subscriptions : List (Rows.Object (HashId × Bool))
  storages : List (Rows.Object (List UInt8))
  nameRecords : List NNameRecord
  followerService : Option FollowerService

/-- `NMutableEnvironment`; the records of names to save and to destroy are noted by id. -/
structure NMutableEnvironment (C : Type) where
  id : ℕ
  contract : C
  kvStore : List (String × Js.Value)
  subscriptions : Rows.Session (HashId × Bool)
  storages : Rows.Session (List UInt8)
  nameRecords : List NNameRecord
  nameRecordsToAdd : List NNameRecord
  nameRecordsToSave : List ℕ
  nameRecordsToDestroy : List ℕ
  followerService : Option FollowerService

/-- An operation of a mutable environment. -/
inductive Operation where
  | set (key : String) (value : Js.Value)
  | createSubscription (hashId : HashId) (isChainSubscription : Bool) (expiresAt : ℤ)
  | setSubscriptionExpiresAt (subscription : Rows.Ref) (expiresAt : ℤ)
  | destroySubscription (subscription : Rows.Ref)
  | createContractStorage (packedTransaction : List UInt8) (expiresAt : ℤ)
  | setStorageExpiresAt (storage : Rows.Ref) (expiresAt : ℤ)
  | destroyStorage (storage : Rows.Ref)
  | createNameRecord (name nameReduced : String) (expiresAt : ℤ)
  | setNameRecordExpiresAt (id : ℕ) (expiresAt : ℤ)
  | destroyNameRecord (id : ℕ)

section
variable {C : Type}

/-- The contract of a packed transaction: its sub-item of the id, else its main one. -/
def Packs.contractOf (packs : Packs C) (transactionPack : List UInt8) (ncontractHashId : HashId) :
    Except Thrown C := do
  let contract ← packs.fromPackedTransaction transactionPack
  return (packs.subItem contract ncontractHashId).getD contract

/-- `getMutable()`. -/
def NImmutableEnvironment.getMutable (ime : NImmutableEnvironment C) : NMutableEnvironment C where
  id := ime.id
  contract := ime.contract
  kvStore := ime.kvStore
  subscriptions := .start ime.subscriptions
  storages := .start ime.storages
  nameRecords := ime.nameRecords
  nameRecordsToAdd := []
  nameRecordsToSave := []
  nameRecordsToDestroy := []
  followerService := ime.followerService

/-- `new GenericSet(records)`: null has no `stringId`. -/
def genericSet : List (Option NNameRecord) → Except Thrown (List NNameRecord)
  | [] => .ok []
  | none :: _ => .error (.readsNull "stringId")
  | some record :: records => do return record :: (← genericSet records)

/-- `await` of a lookup. -/
def Lookup.await : Lookup → Except Thrown (Option NNameRecord)
  | .pending => .error .neverSettles
  | .resolved record => .ok record

/-- The records of the reduced names, each awaited, in a set. -/
def NameTables.nameRecords (t : NameTables) (reducedNames : List String) : Except Thrown (List NNameRecord) := do
  genericSet (← reducedNames.mapM fun name => (t.getNameRecord name).await)

/-- `getEnvironment(environmentId)`. -/
def getEnvironment (packs : Packs C) (environmentId : ℕ) (t : Tables) : Except Thrown (NImmutableEnvironment C) :=
  match t.environments.find? fun row => row.id = environmentId with
  | none => .error (.readsNull "hashDigest")
  | some row => do
      let contract ← packs.contractOf row.transactionPack row.ncontractHashId
      let kvStore ← packs.load row.kvStorage
      let subscriptions ← t.getContractSubscriptions environmentId
      let storages ← t.getContractStorages environmentId
      let followerService ← t.getFollowerService environmentId
      let nameRecords ← t.names.nameRecords (t.names.getReducedNames environmentId)
      return { id := environmentId, contract, kvStore, subscriptions, storages, nameRecords, followerService }

namespace NMutableEnvironment

/-- An operation. `UnsName` has no `unsRecords`, so no record of a name is made of one; a key `__proto__` is the
    prototype of the store, which is no part of what is saved. -/
def apply (me : NMutableEnvironment C) : Operation → Except Thrown (NMutableEnvironment C)
  | .set key value =>
      .ok { me with kvStore := if key = "__proto__" then me.kvStore else Contracts.assign me.kvStore key value }
  | .createSubscription hashId isChainSubscription expiresAt =>
      .ok { me with subscriptions := me.subscriptions.create (hashId, isChainSubscription) expiresAt }
  | .setSubscriptionExpiresAt subscription expiresAt =>
      .ok { me with subscriptions := me.subscriptions.setExpiresAt expiresAt subscription }
  | .destroySubscription subscription => .ok { me with subscriptions := me.subscriptions.destroy subscription }
  | .createContractStorage packedTransaction expiresAt =>
      .ok { me with storages := me.storages.create packedTransaction expiresAt }
  | .setStorageExpiresAt storage expiresAt => .ok { me with storages := me.storages.setExpiresAt expiresAt storage }
  | .destroyStorage storage => .ok { me with storages := me.storages.destroy storage }
  | .createNameRecord _ _ _ => .error (.readsUndefined "unsName.unsRecords.forEach")
  | .setNameRecordExpiresAt id expiresAt =>
      .ok { me with
        nameRecords := me.nameRecords.map fun nr => if nr.id = id then { nr with expiresAt } else nr
        nameRecordsToSave := if id ≠ 0 then id :: me.nameRecordsToSave else me.nameRecordsToSave }
  | .destroyNameRecord id => .ok { me with nameRecordsToDestroy := id :: me.nameRecordsToDestroy }

/-- Operations one after another. -/
def applyAll (me : NMutableEnvironment C) (ops : List Operation) : Except Thrown (NMutableEnvironment C) :=
  ops.foldlM apply me

/-- The records of names that a save destroys, extends and adds. -/
def nameChanges (me : NMutableEnvironment C) : NameChanges where
  nameRecordsToDestroy := me.nameRecords.filter fun nr => nr.id ∈ me.nameRecordsToDestroy
  nameRecordsToSave := me.nameRecords.filter fun nr => nr.id ∈ me.nameRecordsToSave
  nameRecordsToAdd := me.nameRecordsToAdd

/-- The row of the environment. -/
def row (packs : Packs C) (me : NMutableEnvironment C) : EnvironmentRow where
  id := me.id
  ncontractType := packs.extendedType me.contract
  ncontractHashId := packs.id me.contract
  kvStorage := packs.dump me.kvStore
  transactionPack := packs.getPackedTransaction me.contract

/-- The statements of `save` on subscriptions. -/
def saveSubscriptions (me : NMutableEnvironment C) (t : Tables) : Tables :=
  let saved := me.subscriptions.saveChanged 1000 (me.subscriptions.saveDestroyed t.contractSubscription)
  { t with contractSubscription := me.subscriptions.saveAdded 1000 (fun ids => ids) me.id saved }

/-- The statements of `save` on storages. `NContractStorage` has no `contract`, so none is added. -/
def saveStorages (me : NMutableEnvironment C) (t : Tables) : Except Thrown Tables :=
  if me.storages.added ≠ [] then .error (.readsUndefined "storage.contract.id")
  else .ok { t with contractStorage := me.storages.saveChanged 1000 (me.storages.saveDestroyed t.contractStorage) }

/-- The save of the follower service, which is the last statement of `save`. -/
def saveFollowerService (me : NMutableEnvironment C) (t : Tables) : Tables :=
  match me.followerService with
  | some fs => t.saveFollowerEnvironment me.id fs
  | none => t

/-- `save()`. It does not wait for the save of the follower service, whose row is then there as well. -/
def save (packs : Packs C) (me : NMutableEnvironment C) (t : Tables) : Except Thrown Tables := do
  let t ← me.saveStorages (me.saveSubscriptions (t.updateEnvironment (me.row packs)))
  let t := t.clearExpiredStorageContractBinaries
  let names ← (me.nameChanges.write t.names).mapError .js
  return me.saveFollowerService { t with names }

/-- The records of names that it leaves: the old without the destroyed, and the added, in whole seconds. -/
def leftNameRecords (me : NMutableEnvironment C) : List NNameRecord :=
  ((me.nameRecords.filter fun nr => nr.id ∉ me.nameRecordsToDestroy) ++ me.nameRecordsToAdd).map fun nr =>
    { nr with expiresAt := nr.expiresAt / 1000 * 1000 }

end NMutableEnvironment

/-! ### What is promised -/

/-- An environment that the tables hold, whatever records of names it has; ids of names are a primary key. -/
structure StoredIn (t : Tables) (ime : NImmutableEnvironment C) : Prop where
  row : ∃ r ∈ t.environments, r.id = ime.id
  subscriptions : ime.subscriptions = t.subscriptionsOf ime.id
  storages : ime.storages = t.storagesOf ime.id
  followerService : ime.followerService = t.followerServiceOf ime.id
  nameIds : (t.names.storage.map NameStorageRow.id).Nodup

/-- The lookup finds the record. -/
def Finds (l : Lookup) (nr : NNameRecord) : Prop :=
  ∃ record, l = .resolved (some record) ∧ record.nameReduced = nr.nameReduced

/-- The record is found by its name, and by each address and each origin. -/
structure Found (names : NameTables) (nr : NNameRecord) : Prop where
  byName : Finds (names.getNameRecord nr.nameReduced) nr
  byAddress : ∀ e ∈ nr.entries, ∀ a, e.shortAddress = some a ∨ e.longAddress = some a →
    Finds (names.getNameByAddress a) nr
  byOrigin : ∀ e ∈ nr.entries, ∀ origin ∈ e.origin, Finds (names.getNameByOrigin origin) nr

/-- From the tables after a save, `getEnvironment` gives what was saved, and an added name is found. -/
def ReadBack (packs : Packs C) (me : NMutableEnvironment C) (t t' : Tables) : Prop :=
  (∃ ime, getEnvironment packs me.id t' = .ok ime ∧ ime.kvStore = me.kvStore ∧ ime.contract = me.contract ∧
    ime.subscriptions = (me.subscriptions.left t.contractSubscription.nextId).map (·.whole 1000) ∧
    ime.storages = (me.storages.left t.contractStorage.nextId).map (·.whole 1000) ∧
    ime.nameRecords = me.leftNameRecords) ∧
  ∀ nr ∈ me.nameRecordsToAdd, Found t'.names nr

/-- The names with an entry that are stored for the environment are among these. -/
def NameTables.NoneBut (t : NameTables) (environmentId : ℕ) (names : List String) : Prop :=
  ∀ row ∈ t.storage, row.environmentId = environmentId → (∃ e ∈ t.entries, row.id = e.nameStorageId) →
    row.nameReduced ∈ names

/-- The key-value store comes back from its dump and the contract from its pack. There is no follower service, and
    every subscription, storage and name goes: each is destroyed, none is created, and each name with an entry that is
    stored for the environment is of one of the records that are destroyed. -/
structure Readable (packs : Packs C) (t : Tables) (me : NMutableEnvironment C) : Prop where
  kvStore : packs.load (packs.dump me.kvStore) = .ok me.kvStore
  contract : packs.contractOf (packs.getPackedTransaction me.contract) (packs.id me.contract) = .ok me.contract
  subscriptions : me.subscriptions.Emptied
  storages : me.storages.Emptied
  followerService : me.followerService = none
  destroyed : ∀ nr ∈ me.nameRecords, nr.id ∈ me.nameRecordsToDestroy
  noneBut : t.names.NoneBut me.id (me.nameChanges.nameRecordsToDestroy.map NNameRecord.nameReduced)

/-! ### Lookups -/

namespace NameTables

/-- No lookup settles. -/
theorem getNameBy_eq (t : NameTables) (connection : Connection) (clause : NameStorageRow → Bool) :
    t.getNameBy connection clause = .pending := by
  cases connection with
  | driver | other => rfl

theorem not_finds (t : NameTables) (connection : Connection) (clause : NameStorageRow → Bool) (nr : NNameRecord) :
    ¬Finds (t.getNameBy connection clause) nr := by
  rintro ⟨record, hrecord, -⟩
  exact absurd (hrecord.symm.trans (t.getNameBy_eq connection clause)) nofun

/-- Adding a record always fails, once its row is written. -/
theorem addNameRecord_fails (t : NameTables) (nr : NNameRecord) : ∃ e, t.addNameRecord nr = .error e := by
  cases hadd : t.addNameRecord nr with
  | error e => exact ⟨e, rfl⟩
  | ok t' => exact absurd hadd (addNameRecord_ne_ok t t' nr)

end NameTables

/-- The set of records is made only where there is no name to look up. -/
theorem nameRecords_eq (t : NameTables) (names : List String) :
    t.nameRecords names = if names = [] then .ok [] else .error .neverSettles := by
  cases names with
  | nil => rfl
  | cons name names =>
      rw [NameTables.nameRecords, List.mapM_cons, NameTables.getNameRecord, NameTables.getNameBy_eq]
      rfl

/-! ### Environments that are read -/

/-- Objects are made only where there is no row. -/
theorem settled_mapM {α β : Type} {make : α → Except Thrown β} (h : ∀ row, ∃ e, make row = .error e) (rows : List α) :
    settled (rows.mapM make) = if rows = [] then .ok [] else .error .neverSettles := by
  cases rows with
  | nil => rfl
  | cons row rows =>
      obtain ⟨e, he⟩ := h row
      rw [List.mapM_cons, he]
      rfl

namespace Tables
variable (environmentId : ℕ) (t : Tables)

theorem getContractSubscriptions_eq : t.getContractSubscriptions environmentId =
    if t.subscriptionsOf environmentId = [] then .ok [] else .error .neverSettles := by
  have hnone : t.subscriptionsOf environmentId = [] ↔ t.contractSubscription.select environmentId = [] := by
    simp [subscriptionsOf, Rows.Table.read, Rows.Row.object, List.eq_nil_iff_forall_not_mem]
  simp only [hnone]
  exact settled_mapM (fun _ => ⟨_, rfl⟩) _

theorem getContractStorages_eq : t.getContractStorages environmentId =
    if t.storagesOf environmentId = [] then .ok [] else .error .neverSettles := by
  have hnone : t.storagesOf environmentId = [] ↔ t.joinBinary environmentId = [] := by
    simp [storagesOf, joinBinary, Rows.Table.read, Rows.Row.object]
  simp only [hnone]
  exact settled_mapM (fun _ => ⟨_, rfl⟩) _

theorem getFollowerService_eq : t.getFollowerService environmentId =
    if t.followerServiceOf environmentId = none then .ok none else .error .neverSettles := by
  rw [getFollowerService, followerServiceOf]
  cases t.followerEnvironments environmentId with
  | none | some row => rfl

/-- The tables have nothing of the environment that its reading would wait for. -/
structure Bare : Prop where
  subscriptions : t.subscriptionsOf environmentId = []
  storages : t.storagesOf environmentId = []
  followerService : t.followerServiceOf environmentId = none
  names : t.names.getReducedNames environmentId = []

end Tables

/-- An environment is read where its contract and its store can be and the tables have nothing else of it. -/
theorem getEnvironment_ok {packs : Packs C} {environmentId : ℕ} {t : Tables} {ime : NImmutableEnvironment C} :
    getEnvironment packs environmentId t = .ok ime ↔ ∃ row,
      t.environments.find? (fun row => row.id = environmentId) = some row ∧
      packs.contractOf row.transactionPack row.ncontractHashId = .ok ime.contract ∧
      packs.load row.kvStorage = .ok ime.kvStore ∧ t.Bare environmentId ∧
      ime = ⟨environmentId, ime.contract, ime.kvStore, [], [], [], none⟩ := by
  rw [getEnvironment, t.getContractSubscriptions_eq, t.getContractStorages_eq, t.getFollowerService_eq, nameRecords_eq]
  cases t.environments.find? fun row => row.id = environmentId with
  | none => simp
  | some row =>
      simp only [Option.some.injEq, exists_eq_left']
      constructor
      · intro h
        obtain ⟨contract, hcontract, h⟩ := Except.bind_eq_ok.mp h
        obtain ⟨kvStore, hkvStore, h⟩ := Except.bind_eq_ok.mp h
        obtain ⟨subscriptions, hsubscriptions, h⟩ := Except.bind_eq_ok.mp h
        obtain ⟨storages, hstorages, h⟩ := Except.bind_eq_ok.mp h
        obtain ⟨followerService, hfollowerService, h⟩ := Except.bind_eq_ok.mp h
        obtain ⟨nameRecords, hnameRecords, h⟩ := Except.bind_eq_ok.mp h
        obtain ⟨hnoSubscription, rfl⟩ := Except.ite_ok.mp hsubscriptions
        obtain ⟨hnoStorage, rfl⟩ := Except.ite_ok.mp hstorages
        obtain ⟨hnoFollower, rfl⟩ := Except.ite_ok.mp hfollowerService
        obtain ⟨hnoName, rfl⟩ := Except.ite_ok.mp hnameRecords
        obtain rfl := Except.ok.inj h
        exact ⟨hcontract, hkvStore, ⟨hnoSubscription, hnoStorage, hnoFollower, hnoName⟩, rfl⟩
      · rintro ⟨hcontract, hkvStore, hbare, hime⟩
        rw [hcontract, hkvStore, if_pos hbare.subscriptions, if_pos hbare.storages, if_pos hbare.followerService,
          if_pos hbare.names, hime]
        rfl

/-! ### Operations -/

/-- What operations keep: the id, and that the objects stand for the rows. -/
structure Kept (t : Tables) (id : ℕ) (me : NMutableEnvironment C) : Prop where
  sameId : me.id = id
  subscriptions : Rows.Session.Tracks some 1000 id t.contractSubscription me.subscriptions
  storages : Rows.Session.Tracks t.binary 1000 id t.contractStorage me.storages
  followerService : me.followerService = t.followerServiceOf id

theorem kept_getMutable {t : Tables} {ime : NImmutableEnvironment C} (h : StoredIn t ime) :
    Kept t ime.id ime.getMutable where
  sameId := rfl
  subscriptions := by
    rw [NImmutableEnvironment.getMutable, h.subscriptions]
    exact Rows.Session.tracks_start some 1000 ime.id t.contractSubscription
  storages := by
    rw [NImmutableEnvironment.getMutable, h.storages]
    exact Rows.Session.tracks_start t.binary 1000 ime.id t.contractStorage
  followerService := h.followerService

theorem Kept.apply {t : Tables} {id : ℕ} {me me' : NMutableEnvironment C} (h : Kept t id me) {op : Operation}
    (happly : me.apply op = .ok me') : Kept t id me' := by
  cases op with
  | set | createSubscription | createContractStorage | setNameRecordExpiresAt | destroyNameRecord =>
      obtain rfl := Except.ok.inj happly
      exact ⟨h.sameId, h.subscriptions, h.storages, h.followerService⟩
  | setSubscriptionExpiresAt subscription expiresAt =>
      obtain rfl := Except.ok.inj happly
      exact ⟨h.sameId, Rows.Session.tracks_setExpiresAt h.subscriptions expiresAt subscription, h.storages,
        h.followerService⟩
  | destroySubscription subscription =>
      obtain rfl := Except.ok.inj happly
      exact ⟨h.sameId, Rows.Session.tracks_destroy h.subscriptions subscription, h.storages, h.followerService⟩
  | setStorageExpiresAt storage expiresAt =>
      obtain rfl := Except.ok.inj happly
      exact ⟨h.sameId, h.subscriptions, Rows.Session.tracks_setExpiresAt h.storages expiresAt storage,
        h.followerService⟩
  | destroyStorage storage =>
      obtain rfl := Except.ok.inj happly
      exact ⟨h.sameId, h.subscriptions, Rows.Session.tracks_destroy h.storages storage, h.followerService⟩
  | createNameRecord => exact absurd happly nofun

theorem Kept.applyAll {t : Tables} {id : ℕ} {ops : List Operation} {me me' : NMutableEnvironment C}
    (h : Kept t id me) (happly : me.applyAll ops = .ok me') : Kept t id me' := by
  induction ops generalizing me with
  | nil => exact Except.ok.inj happly ▸ h
  | cons op ops ih =>
      rw [NMutableEnvironment.applyAll, List.foldlM_cons] at happly
      obtain ⟨me₁, hop, hops⟩ := Except.bind_eq_ok.mp happly
      exact ih (h.apply hop) hops

/-! ### A save -/

/-- A save that does not fail adds no storage and no name, and leaves these tables. -/
structure Saved (packs : Packs C) (me : NMutableEnvironment C) (t t' : Tables) : Prop where
  noStorage : me.storages.added = []
  noName : me.nameRecordsToAdd = []
  environments : t'.environments = (t.updateEnvironment (me.row packs)).environments
  contractSubscription : t'.contractSubscription = (me.saveSubscriptions t).contractSubscription
  contractStorage : t'.contractStorage = me.storages.saveChanged 1000 (me.storages.saveDestroyed t.contractStorage)
  contractBinary : t'.contractBinary = t.contractBinary.filter fun b =>
    ∃ r ∈ t'.contractStorage.rows, r.payload.1 = b.hashId
  followerEnvironments : t'.followerEnvironments = (me.saveFollowerService t).followerEnvironments
  names : t'.names = me.nameChanges.nameRecordsToSave.foldl (fun t r => t.updateNameRecord r.id r.expiresAt)
    (me.nameChanges.nameRecordsToDestroy.foldl (fun t r => t.removeNameRecord r.nameReduced) t.names)

/-- A write that does not fail adds no name. -/
theorem write_eq {me : NMutableEnvironment C} {names names' : NameTables}
    (h : (me.nameChanges.write names).mapError Thrown.js = .ok names') : me.nameRecordsToAdd = [] ∧
      names' = me.nameChanges.nameRecordsToSave.foldl (fun t r => t.updateNameRecord r.id r.expiresAt)
        (me.nameChanges.nameRecordsToDestroy.foldl (fun t r => t.removeNameRecord r.nameReduced) names) := by
  cases hwrite : me.nameChanges.write names with
  | error e =>
      rw [hwrite] at h
      exact absurd h nofun
  | ok names₁ =>
      rw [hwrite] at h
      obtain rfl := Except.ok.inj h
      have hadd := (NameChanges.write_ok hwrite).1
      refine ⟨hadd, ?_⟩
      rw [NameChanges.write, hadd] at hwrite
      exact (Except.ok.inj hwrite).symm

theorem saveFollowerService_eq (me : NMutableEnvironment C) (t : Tables) : me.saveFollowerService t =
    { t with followerEnvironments := (me.saveFollowerService t).followerEnvironments } := by
  unfold NMutableEnvironment.saveFollowerService
  split <;> rfl

theorem saveFollowerService_congr (me : NMutableEnvironment C) {t₁ t₂ : Tables}
    (h : t₁.followerEnvironments = t₂.followerEnvironments) :
    (me.saveFollowerService t₁).followerEnvironments = (me.saveFollowerService t₂).followerEnvironments := by
  unfold NMutableEnvironment.saveFollowerService
  split
  · rw [Tables.saveFollowerEnvironment, Tables.saveFollowerEnvironment, h]
  · exact h

theorem saved_of_save {packs : Packs C} {me : NMutableEnvironment C} {t t' : Tables} (h : me.save packs t = .ok t') :
    Saved packs me t t' := by
  obtain ⟨t₁, hstorages, h⟩ := Except.bind_eq_ok.mp h
  obtain ⟨names, hnames, h⟩ := Except.bind_eq_ok.mp h
  unfold NMutableEnvironment.saveStorages at hstorages
  split at hstorages
  · exact absurd hstorages nofun
  · rename_i hadded
    obtain rfl := Except.ok.inj hstorages
    obtain rfl := Except.ok.inj h
    obtain ⟨hadd, hnames⟩ := write_eq hnames
    rw [saveFollowerService_eq]
    exact ⟨not_not.mp hadded, hadd, rfl, rfl, rfl, rfl, saveFollowerService_congr me rfl, hnames⟩

/-! ### Names after a save -/

namespace NameTables

theorem getReducedNames_eq_nil {t : NameTables} {environmentId : ℕ} :
    t.getReducedNames environmentId = [] ↔ t.NoneBut environmentId [] := by
  simp only [getReducedNames, joinEntries, NoneBut, List.dedup_eq_nil, List.map_eq_nil_iff, List.flatMap_eq_nil_iff,
    List.mem_filter, List.filter_eq_nil_iff, decide_eq_true_eq, List.not_mem_nil, imp_false, not_exists, not_and]
  exact ⟨fun h row hrow henv => h row ⟨hrow, henv⟩, fun h row hrow => h row hrow.1 hrow.2⟩

theorem noneBut_removeNameRecord {t : NameTables} (hnodup : (t.storage.map NameStorageRow.id).Nodup)
    {environmentId : ℕ} {name : String} {names : List String} :
    (t.removeNameRecord name).NoneBut environmentId names ↔ t.NoneBut environmentId (name :: names) := by
  have hinj := List.inj_on_of_nodup_map hnodup
  constructor
  · intro h row hrow henv hentry
    by_cases hname : row.nameReduced = name
    · exact List.mem_cons.mpr (Or.inl hname)
    · obtain ⟨e, he, hid⟩ := hentry
      refine List.mem_cons_of_mem _ (h row (List.mem_filter.mpr ⟨hrow, decide_eq_true hname⟩) henv ⟨e, ?_, hid⟩)
      refine List.mem_filter.mpr ⟨he, decide_eq_true ?_⟩
      -- no other row has the id of this one, so its entries stay
      rintro ⟨row', hrow', hname', hid'⟩
      exact hname (hinj hrow hrow' (hid.trans hid'.symm) ▸ hname')
  · intro h row hrow henv hentry
    obtain ⟨hrow, hname⟩ := List.mem_filter.mp hrow
    obtain ⟨e, he, hid⟩ := hentry
    refine (List.mem_cons.mp (h row hrow henv ⟨e, List.mem_of_mem_filter he, hid⟩)).resolve_left ?_
    exact of_decide_eq_true hname

theorem noneBut_removed {environmentId : ℕ} (records : List NNameRecord) {t : NameTables}
    (hnodup : (t.storage.map NameStorageRow.id).Nodup) :
    (records.foldl (fun t r => t.removeNameRecord r.nameReduced) t).NoneBut environmentId [] ↔
      t.NoneBut environmentId (records.map NNameRecord.nameReduced) := by
  induction records generalizing t with
  | nil => rfl
  | cons r records ih =>
      rw [List.foldl_cons, List.map_cons, ← noneBut_removeNameRecord hnodup]
      exact ih (hnodup.sublist (List.filter_sublist.map _))

theorem noneBut_updateNameRecord {t : NameTables} {id : ℕ} {expiresAt : ℤ} {environmentId : ℕ} {names : List String} :
    (t.updateNameRecord id expiresAt).NoneBut environmentId names ↔ t.NoneBut environmentId names := by
  simp only [NoneBut, updateNameRecord, List.forall_mem_map]
  refine forall₂_congr fun row _ => ?_
  split <;> rfl

theorem noneBut_updated {environmentId : ℕ} {names : List String} (records : List NNameRecord) {t : NameTables} :
    (records.foldl (fun t r => t.updateNameRecord r.id r.expiresAt) t).NoneBut environmentId names ↔
      t.NoneBut environmentId names := by
  induction records generalizing t with
  | nil => rfl
  | cons r records ih => rw [List.foldl_cons, ih, noneBut_updateNameRecord]

end NameTables

/-! ### Reading after a save -/

theorem find_updateEnvironment {t : Tables} {row : EnvironmentRow} (h : ∃ r ∈ t.environments, r.id = row.id) :
    (t.updateEnvironment row).environments.find? (fun r => r.id = row.id) = some row := by
  show (t.environments.map _).find? _ = some row
  generalize t.environments = rows at h ⊢
  induction rows with
  | nil => simp at h
  | cons r rows ih =>
      by_cases hid : r.id = row.id
      · simp [hid]
      · simp only [List.mem_cons, exists_eq_or_imp, hid, false_or] at h
        simp [hid, ih h]

/-- The binaries of the storages that stay are kept. -/
theorem binary_cleared {t : Tables} {r : Rows.Row (HashId × HashId)} (hr : r ∈ t.contractStorage.rows) :
    t.clearExpiredStorageContractBinaries.binary r.payload = t.binary r.payload := by
  rw [Tables.binary, Tables.binary, Tables.clearExpiredStorageContractBinaries, List.find?_filter]
  congr 2
  funext b
  by_cases hb : b.hashId = r.payload.1
  · have hkept : ∃ r' ∈ t.contractStorage.rows, r'.payload.1 = r.payload.1 := ⟨r, hr, rfl⟩
    simpa [hb] using hkept
  · simp [hb]

section
variable {packs : Packs C} {me : NMutableEnvironment C} {t t' : Tables}

theorem Saved.read_subscriptions (hs : Saved packs me t t') (hk : Kept t me.id me) :
    t'.subscriptionsOf me.id = (me.subscriptions.left t.contractSubscription.nextId).map (·.whole 1000) := by
  rw [Tables.subscriptionsOf, hs.contractSubscription]
  exact Rows.Session.read_save hk.subscriptions (by decide) fun _ _ => rfl

theorem Saved.read_storages (hs : Saved packs me t t') (hk : Kept t me.id me) :
    t'.storagesOf me.id = (me.storages.left t.contractStorage.nextId).map (·.whole 1000) := by
  have hbinary : ∀ r ∈ t'.contractStorage.rows, t'.binary r.payload = t.binary r.payload := by
    intro r hr
    have hcleared := binary_cleared (t := { t with contractStorage := t'.contractStorage }) hr
    rw [Tables.binary, hs.contractBinary]
    exact hcleared
  rw [Tables.storagesOf, Rows.Table.read_congr 1000 hbinary, hs.contractStorage,
    Rows.Session.read_saveChanged hk.storages (by decide), Rows.Session.left, hs.noStorage, Rows.Session.numbered,
    List.append_nil]

theorem Saved.getReducedNames_eq_nil (hs : Saved packs me t t')
    (hnodup : (t.names.storage.map NameStorageRow.id).Nodup) : t'.names.getReducedNames me.id = [] ↔
      t.names.NoneBut me.id (me.nameChanges.nameRecordsToDestroy.map NNameRecord.nameReduced) := by
  rw [NameTables.getReducedNames_eq_nil, hs.names, NameTables.noneBut_updated, NameTables.noneBut_removed _ hnodup]

/-- A service that the tables have is written as it was. -/
theorem Saved.read_followerService (hs : Saved packs me t t') (hk : Kept t me.id me) :
    t'.followerServiceOf me.id = me.followerService := by
  have hrow := hk.followerService
  rw [Tables.followerServiceOf, hs.followerEnvironments, NMutableEnvironment.saveFollowerService]
  rw [Tables.followerServiceOf] at hrow
  cases hfs : t.followerEnvironments me.id with
  | none => simp [hrow, hfs]
  | some row => simp [hrow, hfs, Tables.saveFollowerEnvironment]

theorem Saved.leftNameRecords_eq_nil (hs : Saved packs me t t') :
    me.leftNameRecords = [] ↔ ∀ nr ∈ me.nameRecords, nr.id ∈ me.nameRecordsToDestroy := by
  simp [NMutableEnvironment.leftNameRecords, hs.noName]

/-- The tables have nothing else of the environment where all of it is destroyed. -/
theorem Saved.bare_iff (hs : Saved packs me t t') (hk : Kept t me.id me)
    (hnodup : (t.names.storage.map NameStorageRow.id).Nodup) : t'.Bare me.id ↔
      me.subscriptions.Emptied ∧ me.storages.Emptied ∧ me.followerService = none ∧
        t.names.NoneBut me.id (me.nameChanges.nameRecordsToDestroy.map NNameRecord.nameReduced) := by
  have hsubscriptions : t'.subscriptionsOf me.id = [] ↔ me.subscriptions.Emptied := by
    rw [hs.read_subscriptions hk, List.map_eq_nil_iff, Rows.Session.left_eq_nil]
  have hstorages : t'.storagesOf me.id = [] ↔ me.storages.Emptied := by
    rw [hs.read_storages hk, List.map_eq_nil_iff, Rows.Session.left_eq_nil]
  rw [← hsubscriptions, ← hstorages, ← hs.read_followerService hk, ← hs.getReducedNames_eq_nil hnodup]
  exact ⟨fun h => ⟨h.subscriptions, h.storages, h.followerService, h.names⟩, fun ⟨h₁, h₂, h₃, h₄⟩ => ⟨h₁, h₂, h₃, h₄⟩⟩

/-- What is read back: the contract and the store by their packs, where the tables have nothing else. -/
theorem Saved.getEnvironment_ok (hs : Saved packs me t t') (hrow : ∃ r ∈ t.environments, r.id = me.id)
    {ime : NImmutableEnvironment C} : getEnvironment packs me.id t' = .ok ime ↔
      packs.contractOf (packs.getPackedTransaction me.contract) (packs.id me.contract) = .ok ime.contract ∧
        packs.load (packs.dump me.kvStore) = .ok ime.kvStore ∧ t'.Bare me.id ∧
          ime = ⟨me.id, ime.contract, ime.kvStore, [], [], [], none⟩ := by
  have hfind : t'.environments.find? (fun r => r.id = me.id) = some (me.row packs) :=
    hs.environments ▸ @find_updateEnvironment t (me.row packs) hrow
  simp only [Services.getEnvironment_ok, hfind, Option.some.injEq, exists_eq_left']
  rfl

theorem Saved.readable_of_readBack (hs : Saved packs me t t') (hk : Kept t me.id me)
    (hrow : ∃ r ∈ t.environments, r.id = me.id) (hnodup : (t.names.storage.map NameStorageRow.id).Nodup)
    (h : ReadBack packs me t t') : Readable packs t me := by
  obtain ⟨⟨ime, hget, hkvStore, hcontract, -, -, hnames⟩, -⟩ := h
  obtain ⟨hc, hkv, hbare, hime⟩ := (hs.getEnvironment_ok hrow).mp hget
  obtain ⟨hsubscriptions, hstorages, hfollower, hnone⟩ := (hs.bare_iff hk hnodup).mp hbare
  have hnoName : ime.nameRecords = [] := hime ▸ rfl
  exact ⟨hkvStore ▸ hkv, hcontract ▸ hc, hsubscriptions, hstorages, hfollower,
    hs.leftNameRecords_eq_nil.mp (hnames.symm.trans hnoName), hnone⟩

theorem Saved.readBack_of_readable (hs : Saved packs me t t') (hk : Kept t me.id me)
    (hrow : ∃ r ∈ t.environments, r.id = me.id) (hnodup : (t.names.storage.map NameStorageRow.id).Nodup)
    (h : Readable packs t me) : ReadBack packs me t t' := by
  have hbare := (hs.bare_iff hk hnodup).mpr ⟨h.subscriptions, h.storages, h.followerService, h.noneBut⟩
  have hget : getEnvironment packs me.id t' = .ok ⟨me.id, me.contract, me.kvStore, [], [], [], none⟩ :=
    (hs.getEnvironment_ok hrow).mpr ⟨h.contract, h.kvStore, hbare, rfl⟩
  refine ⟨⟨_, hget, rfl, rfl, ?_, ?_, (hs.leftNameRecords_eq_nil.mpr h.destroyed).symm⟩, ?_⟩
  · rw [Rows.Session.left_eq_nil.mpr h.subscriptions]
    rfl
  · rw [Rows.Session.left_eq_nil.mpr h.storages]
    rfl
  · simp [hs.noName]

end

/-- CODE DEFECT (what is read back after a save): an environment comes back as it was saved just when its store and
    its contract come back from what packs them and nothing else is left, no subscription, storage, follower service or
    name; no record of a name is ever added, and the lookup of one finds nothing. -/
theorem read_back_iff (packs : Packs C) (t t' : Tables) (ime : NImmutableEnvironment C) (ops : List Operation)
    (me : NMutableEnvironment C) (hstored : StoredIn t ime) (hops : ime.getMutable.applyAll ops = .ok me)
    (hsave : me.save packs t = .ok t') : (ReadBack packs me t t' ↔ Readable packs t me) ∧
      ∀ (names : NameTables) (nr : NNameRecord), (∃ e, names.addNameRecord nr = .error e) ∧
        ¬Finds (names.getNameRecord nr.nameReduced) nr ∧
        (∀ address, ¬Finds (names.getNameByAddress address) nr) ∧ ∀ origin, ¬Finds (names.getNameByOrigin origin) nr := by
  have hk := (kept_getMutable hstored).applyAll hops
  have hid := hk.sameId
  have hs := saved_of_save hsave
  refine ⟨⟨hs.readable_of_readBack (hid ▸ hk) (hid ▸ hstored.row) hstored.nameIds,
    hs.readBack_of_readable (hid ▸ hk) (hid ▸ hstored.row) hstored.nameIds⟩, fun names nr => ?_⟩
  exact ⟨names.addNameRecord_fails nr, names.not_finds _ _ nr, fun address => names.not_finds _ _ nr,
    fun origin => names.not_finds _ _ nr⟩

end

/-- Packs of one contract whose store is empty. -/
def emptyStorePacks : Packs HashId where
  id contract := contract
  extendedType _ := "SLOT1"
  dump kvStore := if kvStore = [] then [7] else []
  load data := if data = [7] then .ok [] else .error (.readsUndefined "data")
  getPackedTransaction _ := [1]
  fromPackedTransaction _ := .ok ⟨"c29udHJhY3Q="⟩
  subItem _ _ := none

/-- Tables with one environment that has a subscription and a name with an address. -/
def oneNameTables : Tables where
  environments := [⟨1, "SLOT1", ⟨"c29udHJhY3Q="⟩, [7], [1]⟩]
  contractSubscription := ⟨[⟨5, 1, 1600000000, (⟨"b3JpZ2lu"⟩, true)⟩], 6, by decide, by decide, by decide, by decide⟩
  contractStorage := ⟨[], 1, by decide, by decide, by decide, by decide⟩
  contractBinary := []
  followerEnvironments _ := none
  names :=
    { storage := [⟨3, "name", "Name", none, none, 1600000000, 1⟩]
      entries := [⟨4, 3, some "address", none, none⟩]
      nextId := 4
      nextEntryId := 5 }

/-- The environment of these. -/
def oneNameEnvironment : NImmutableEnvironment HashId where
  id := 1
  contract := ⟨"c29udHJhY3Q="⟩
  kvStore := []
  subscriptions := oneNameTables.subscriptionsOf 1
  storages := oneNameTables.storagesOf 1
  nameRecords := [⟨"Name", "name", none, none, 1600000000000, [⟨none, some "address", none⟩], 3, 1⟩]
  followerService := none

theorem oneNameEnvironment_stored : StoredIn oneNameTables oneNameEnvironment :=
  ⟨⟨_, List.mem_singleton.mpr rfl, rfl⟩, rfl, rfl, rfl, by decide⟩

/-- It after its subscription is extended, and then it and the name are to go. -/
def emptiedEnvironment : NMutableEnvironment HashId :=
  { oneNameEnvironment.getMutable with
    subscriptions := ⟨[⟨5, (⟨"b3JpZ2lu"⟩, true), 1700000000500⟩], [], [5], [5]⟩
    nameRecordsToDestroy := [3] }

/-- What these operations leave is read back. -/
theorem read_back_changed : oneNameEnvironment.getMutable.applyAll
      [.setSubscriptionExpiresAt (.old 5) 1700000000500, .destroySubscription (.old 5), .destroyNameRecord 3] =
        .ok emptiedEnvironment ∧
    ∃ t', emptiedEnvironment.save emptyStorePacks oneNameTables = .ok t' ∧
      ReadBack emptyStorePacks emptiedEnvironment oneNameTables t' := by
  obtain ⟨t', hsave⟩ : ∃ t', emptiedEnvironment.save emptyStorePacks oneNameTables = .ok t' := ⟨_, rfl⟩
  have hiff := read_back_iff emptyStorePacks oneNameTables t' oneNameEnvironment
    [.setSubscriptionExpiresAt (.old 5) 1700000000500, .destroySubscription (.old 5), .destroyNameRecord 3]
    emptiedEnvironment oneNameEnvironment_stored rfl hsave
  refine ⟨rfl, t', hsave, hiff.1.mpr ⟨rfl, rfl, ⟨by decide, rfl⟩, ⟨by decide, rfl⟩, rfl, by decide, ?_⟩⟩
  show ∀ row ∈ _, _
  decide

/-- Nothing is done, and the reading of the environment that is saved never ends: the date of its subscription is
    never made. -/
theorem not_read_back : StoredIn oneNameTables oneNameEnvironment ∧
    ∃ t', oneNameEnvironment.getMutable.save emptyStorePacks oneNameTables = .ok t' ∧
      getEnvironment emptyStorePacks 1 t' = .error .neverSettles ∧
      ¬ReadBack emptyStorePacks oneNameEnvironment.getMutable oneNameTables t' := by
  obtain ⟨t', hsave⟩ : ∃ t', oneNameEnvironment.getMutable.save emptyStorePacks oneNameTables = .ok t' := ⟨_, rfl⟩
  have hget : getEnvironment emptyStorePacks 1 t' = .error .neverSettles := by
    obtain rfl := Except.ok.inj hsave
    rfl
  refine ⟨oneNameEnvironment_stored, t', hsave, hget, ?_⟩
  rintro ⟨⟨ime, hime, -⟩, -⟩
  exact absurd (hget.symm.trans hime) nofun

end Universa.Services
