import Mathlib.Data.List.Basic
import Mathlib.Data.Int.Notation

/-! The tables of UNS names in the ledger (`name_storage`, `name_entry`) and the statements of `ledger.js` on
    them, with the records of names that an environment holds (`NNameRecord.js`, `NNameRecordEntry.js`).
    Times are in milliseconds in the objects and in seconds in the rows. -/

namespace Universa.Services

/-- `HashId`, by its `base64`; a digest is the same. -/
structure HashId where
  base64 : String
  deriving DecidableEq

/-- `NNameRecordEntry`. -/
structure NNameRecordEntry where
  origin : Option HashId
  shortAddress : Option String
  longAddress : Option String
  deriving DecidableEq

/-- `NNameRecord`. -/
structure NNameRecord where
  name : String
  nameReduced : String
  description : Option String
  url : Option String
  expiresAt : ℤ
  entries : List NNameRecordEntry
  id : ℕ
  environmentId : ℕ
  deriving DecidableEq

/-- A row of `name_storage`. -/
structure NameStorageRow where
  id : ℕ
  nameReduced : String
  nameFull : String
  description : Option String
  url : Option String
  expiresAt : ℤ
  environmentId : ℕ
  deriving DecidableEq

/-- A row of `name_entry`. -/
structure NameEntryRow where
  entryId : ℕ
  nameStorageId : ℕ
  shortAddr : Option String
  longAddr : Option String
  origin : Option HashId
  deriving DecidableEq

/-- Both tables, with the next value of each sequence. -/
structure NameTables where
  storage : List NameStorageRow
  entries : List NameEntryRow
  nextId : ℕ
  nextEntryId : ℕ

/-- What ends a call early. -/
inductive JsError where
  | notDefined (name : String)
  | notAFunction (name : String)
  | ledgerException (message : String)
  deriving DecidableEq

/-- What a promise resolves to; an exception in it is a rejection. -/
structure Promise (α : Type) where
  resolved : α

/-- `promise.length`: a promise has no such property. -/
def Promise.length {α : Type} (_ : Promise α) : Option ℕ := none

/-- `length > 0`, which is false for `undefined`. -/
def positive : Option ℕ → Bool
  | some n => decide (0 < n)
  | none => false

namespace NameTables

/-! ### Values that are stored -/

/-- The name is in a row. -/
def HasName (t : NameTables) (name : String) : Prop := ∃ row ∈ t.storage, row.nameReduced = name

/-- The origin is in a row. -/
def HasOrigin (t : NameTables) (origin : HashId) : Prop := ∃ row ∈ t.entries, row.origin = some origin

/-- The address is in a row. -/
def HasAddress (t : NameTables) (address : String) : Prop :=
  ∃ row ∈ t.entries, row.shortAddr = some address ∨ row.longAddr = some address

/-- `isAllNameRecordsAvailable(reducedNames)`, for names that are not empty. -/
def isAllNameRecordsAvailable (t : NameTables) (reducedNames : List String) : Promise (List String) :=
  ⟨(t.storage.filter fun row => row.nameReduced ∈ reducedNames).map (·.nameReduced)⟩

/-- `isAllOriginsAvailable(origins)`. -/
def isAllOriginsAvailable (t : NameTables) (origins : List HashId) : Promise (List String) :=
  ⟨t.entries.filterMap fun row => row.origin.bind fun origin =>
    if origin ∈ origins then some origin.base64 else none⟩

/-- `isAllAddressesAvailable(addresses)`; an address that a row lacks is `null` in the list. -/
def isAllAddressesAvailable (t : NameTables) (addresses : List String) : Promise (List (Option String)) :=
  ⟨(t.entries.filter fun row => (∃ a ∈ row.shortAddr, a ∈ addresses) ∨ ∃ a ∈ row.longAddr, a ∈ addresses).flatMap
    fun row => [row.shortAddr, row.longAddr]⟩

/-! ### Statements -/

/-- `removeNameRecord(nameReduced)`, with the entries of the name. -/
def removeNameRecord (nameReduced : String) (t : NameTables) : NameTables where
  storage := t.storage.filter fun row => row.nameReduced ≠ nameReduced
  entries := t.entries.filter fun entry =>
    ¬ ∃ row ∈ t.storage, row.nameReduced = nameReduced ∧ row.id = entry.nameStorageId
  nextId := t.nextId
  nextEntryId := t.nextEntryId

/-- `updateNameRecord(id, expiresAt)`. -/
def updateNameRecord (id : ℕ) (expiresAt : ℤ) (t : NameTables) : NameTables :=
  { t with storage := t.storage.map fun row =>
      if row.id = id then { row with expiresAt := expiresAt / 1000 } else row }

/-- `addNameStorage(nameRecord)`: the id of the row, which is the old one where the name is stored. -/
def addNameStorage (nameRecord : NNameRecord) (t : NameTables) : ℕ × NameTables :=
  let written (id : ℕ) : NameStorageRow :=
    { id, nameReduced := nameRecord.nameReduced, nameFull := nameRecord.name,
      description := nameRecord.description, url := nameRecord.url,
      expiresAt := nameRecord.expiresAt / 1000, environmentId := nameRecord.environmentId }
  match t.storage.find? fun row => row.nameReduced = nameRecord.nameReduced with
  | some old =>
      (old.id, { t with storage := t.storage.map fun row => if row.id = old.id then written old.id else row
                        nextId := t.nextId + 1 })
  | none => (t.nextId, { t with storage := t.storage ++ [written t.nextId], nextId := t.nextId + 1 })

/-- `removeNameRecordEntries(nameStorageId)`. -/
def removeNameRecordEntries (nameStorageId : ℕ) (t : NameTables) : NameTables :=
  { t with entries := t.entries.filter fun entry => entry.nameStorageId ≠ nameStorageId }

/-- `addNameEntry(nameRecordEntry)`. -/
def addNameEntry (nameRecordId : ℕ) (entry : NNameRecordEntry) (t : NameTables) : NameTables :=
  { t with entries := t.entries ++ [⟨t.nextEntryId, nameRecordId, entry.shortAddress, entry.longAddress,
                                     entry.origin⟩]
           nextEntryId := t.nextEntryId + 1 }

/-- `nameRecord.entries.map(entry => …)`: the entries are a `GenericSet`, which has no `map`. -/
def mapEntries (_entries : List NNameRecordEntry) (_each : NNameRecordEntry → NameTables → NameTables)
    (_t : NameTables) : Except JsError NameTables :=
  .error (.notAFunction "nameRecord.entries.map")

/-- `addNameRecord(nameRecord)`. -/
def addNameRecord (nameRecord : NNameRecord) (t : NameTables) : Except JsError NameTables :=
  let (nameStorageId, t) := t.addNameStorage nameRecord
  if nameStorageId ≠ 0 then
    mapEntries nameRecord.entries (addNameEntry nameStorageId) (t.removeNameRecordEntries nameStorageId)
  else .error (.ledgerException "addNameRecord failed")

end NameTables
end Universa.Services
