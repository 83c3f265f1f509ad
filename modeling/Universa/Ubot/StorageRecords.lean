import Mathlib.Data.List.Sort
import Mathlib.Data.Int.Order.Basic
import Universa.Lib.OrderedMap

/-! `getSingleStorage` and `getMultiStorage` of `ProcessStartExec.js`: a value comes from the cache, else from
    the ledger, and where its hash is not the trusted one, from another UBot. Cache and ledger are those of one
    record id; its rows in the ledger all belong to one storage once they were written anew.

    The digests of hashes have one length, and a query orders the same rows always the same way. The quantiser and
    the access check before a read are left out. An answer `none` is an exception; a value `null` is the `none`
    inside of an answer. -/

namespace Universa.Ubot.StorageRecords
open Universa.Lib

abbrev Bytes := List UInt8

/-! ### The code -/

/-- An element of a downloaded array; a number that is not an `int` stands for anything else that the column of
    the ledger does not take. -/
structure Item where
  ubot_number : ℤ
  result : Bytes

/-- A record of a multi storage, in the ledger or as it is read. -/
structure Row (H : Type) where
  ubot_number : ℤ
  storage_data : Bytes
  hash : H

/-- Hashes, `Boss.load` with the mapper, what it makes of a downloaded array, and a query, which answers the
    rows in an order of its own. -/
structure Codec (H V : Type) where
  hashOf : Bytes → H
  digest : H → Bytes
  decode : Bytes → Option V
  loadItems : Bytes → Option (List Item)
  select : List (Row H) → List (Row H)
  select_perm : ∀ rows, (select rows).Perm rows

/-- The result of a `Record` of `UBotResultCache`. -/
inductive Cached where
  | empty
  | packed (result : Bytes)
  | cortege (results : OrderedMap ℤ Bytes)

/-- The cache and the ledger of one record id. -/
structure Store (L : Type) where
  cache : Option Cached
  ledger : L

/-- What another UBot answers: no `200`, nothing before the time is over, or a body. -/
inductive Answer where
  | null
  | timeout
  | body (bytes : Bytes)

/-- What a read returns with the packed form of it, whether it asked other UBots, and the store after it. -/
structure Reading (L A : Type) where
  answer : Option A
  asked : Bool
  store : Store L

variable {H V : Type} (c : Codec H V) [DecidableEq H]

/-- `searchActualStorageResult`: the other UBots in the order in which they are picked, up to the first whose
    result has the hash. -/
def searchActualStorageResult {A : Type} (check : Bytes → Option (Option A)) : List Answer → Option (Option A)
  | [] => some none
  | .null :: answers => searchActualStorageResult check answers
  | .timeout :: _ => none
  | .body result :: answers =>
      match check result with
      | none => none
      | some none => searchActualStorageResult check answers
      | some (some found) => some (some found)

/-- The hash of the digests, one after the other. -/
def Codec.cortegeId (hashes : List H) : H := c.hashOf (hashes.flatMap c.digest)

/-- The check of a single result. -/
def Codec.checkResult (actualHash : H) (result : Bytes) : Option (Option Bytes) :=
  some (if actualHash = c.hashOf result then some result else none)

/-- The check of a downloaded array. -/
def Codec.checkItems (actualHash : H) (result : Bytes) : Option (Option (List Item)) :=
  (c.loadItems result).map fun items =>
    if actualHash = c.cortegeId (items.map fun item => c.hashOf item.result) then some items else none

/-- `getStoragePackedResultByRecordId(recordId, SINGLE)`; the hash of a map throws. -/
def getStoragePackedResult (s : Store (Option Bytes)) : Option (Option Bytes) :=
  match s.cache with
  | some .empty => none
  | some (.packed result) => some (some result)
  | some (.cortege _) => none
  | none => some s.ledger

/-- `getSingleStorage`. -/
def getSingleStorage (actualHash : H) (answers : List Answer) (s : Store (Option Bytes)) :
    Option (Reading (Option Bytes) (Bytes × V)) := do
  let result ← getStoragePackedResult s
  match result.filter fun r => actualHash = c.hashOf r with
  | some result =>
      let value ← c.decode result
      return ⟨some (result, value), false, s⟩
  | none =>
      let found ← searchActualStorageResult (c.checkResult actualHash) answers
      match found with
      | none => return ⟨none, true, s⟩
      | some result =>
          let value ← c.decode result
          return ⟨some (result, value), true, ⟨some (.packed result), some result⟩⟩

/-- `records.sort((a, b) => a.ubot_number - b.ubot_number)`. -/
def sortRecords (rows : List (Row H)) : List (Row H) :=
  rows.insertionSort fun a b => a.ubot_number ≤ b.ubot_number

/-- The records of a cached map. -/
def Codec.cachedRows (results : OrderedMap ℤ Bytes) : List (Row H) :=
  results.entries.map fun e => ⟨e.1, e.2, c.hashOf e.2⟩

/-- The records before they are sorted; a byte of a cached array is no entry of a map. -/
def Codec.rows (s : Store (List (Row H))) : Option (List (Row H)) :=
  match s.cache with
  | some .empty => none
  | some (.packed []) => some []
  | some (.packed (_ :: _)) => none
  | some (.cortege results) => some (c.cachedRows results)
  | none => some (c.select s.ledger)

/-- What `getRecordsFromMultiStorageByRecordId` returns. -/
structure Records (H V : Type) where
  packed : List Bytes
  records : List V
  cortegeId : H

/-- `getRecordsFromMultiStorageByRecordId(recordId)` from its records. -/
def Codec.getRecords (rows : List (Row H)) : Option (Option (Records H V)) :=
  if rows.isEmpty then some none
  else
    let sorted := sortRecords rows
    (sorted.mapM fun r => c.decode r.storage_data).map fun records =>
      some ⟨sorted.map Row.storage_data, records, c.cortegeId (sorted.map Row.hash)⟩

/-- `writeToMultiStorage`: the column takes an `int`, and a conflict returns null. -/
def writeToMultiStorage (row : Row H) (ledger : List (Row H)) : Option (List (Row H)) :=
  if -2147483648 ≤ row.ubot_number ∧ row.ubot_number < 2147483648 ∧
      row.ubot_number ∉ ledger.map Row.ubot_number then
    some (ledger ++ [row])
  else none

/-- The row of a downloaded item. -/
def Codec.row (item : Item) : Row H := ⟨item.ubot_number, item.result, c.hashOf item.result⟩

/-- The loop over the downloaded items: each is read and written. -/
def Codec.writeItems : List Item → List (Row H) → Option (List V × List (Row H))
  | [], ledger => some ([], ledger)
  | item :: items, ledger => do
      let record ← c.decode item.result
      let ledger ← writeToMultiStorage (c.row item) ledger
      let rest ← Codec.writeItems items ledger
      return (record :: rest.1, rest.2)

/-- `result.forEach(item => cortege.set(item.ubot_number, item.result))`. -/
def cortege (items : List Item) : OrderedMap ℤ Bytes :=
  items.foldl (fun m item => m.set item.ubot_number item.result) .empty

/-- `getMultiStorage`. -/
def getMultiStorage (actualHash : H) (answers : List Answer) (s : Store (List (Row H))) :
    Option (Reading (List (Row H)) (List Bytes × List V)) := do
  let rows ← c.rows s
  let result ← c.getRecords rows
  match result.filter fun r => r.cortegeId = actualHash with
  | some result => return ⟨some (result.packed, result.records), false, s⟩
  | none =>
      let found ← searchActualStorageResult (c.checkItems actualHash) answers
      match found with
      | none => return ⟨none, true, s⟩
      | some items =>
          let written ← Codec.writeItems c items []
          return ⟨some (items.map Item.result, written.1), true, ⟨some (.cortege (cortege items)), written.2⟩⟩

/-! ### What a read is for -/

/-- The store with the cache emptied. -/
def Store.emptied {L : Type} (s : Store L) : Store L := { s with cache := none }

/-- The next read returns the value without asking, from the store as it is and with the cache emptied. -/
def Repeats {L P A : Type} (read : List Answer → Store L → Option (Reading L (P × A))) (s : Store L)
    (value : A) : Prop :=
  ∀ s' ∈ [s, s.emptied], ∀ answers, ∃ r packed,
    read answers s' = some r ∧ r.answer = some (packed, value) ∧ r.asked = false

/-- What `getSingleStorage` returns has the trusted hash, and is returned again. -/
def SingleAgrees (actualHash : H) (answers : List Answer) (s : Store (Option Bytes)) : Prop :=
  ∀ r packed value, getSingleStorage c actualHash answers s = some r → r.answer = some (packed, value) →
    actualHash = c.hashOf packed ∧ Repeats (getSingleStorage c actualHash) r.store value

/-- What `getMultiStorage` returns has the trusted hash, and is returned again in the same order. -/
def MultiAgrees (actualHash : H) (answers : List Answer) (s : Store (List (Row H))) : Prop :=
  ∀ r packed records, getMultiStorage c actualHash answers s = some r → r.answer = some (packed, records) →
    actualHash = c.cortegeId (packed.map c.hashOf) ∧ Repeats (getMultiStorage c actualHash) r.store records

end Universa.Ubot.StorageRecords
