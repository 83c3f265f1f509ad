import Universa.Contracts.TransactionPack
import Universa.Js.Boss
import Universa.Lib.OrderedSet
import Universa.Lib.Run

/-! Compounds (`compound.js`) and the transaction packs they are made of (`transactionpack.js`). A compound is a
    contract whose new items are the contracts that were added. The pack of the compound has all their items
    without the order of nesting, and the definition of the compound keeps what puts them together again.

    An item stands here by its id, the hash of its sealed binary; a contract is not changed after it was added,
    and its sealed payload can be read. An answer `none` of a function that adds or loads is an exception. -/

namespace Universa.Contracts.Compounds
open Universa.Lib Universa.Js

/-! ### Binaries -/

/-- The ids that an item names, or those of the items it holds: what it revokes, what it creates. -/
def names : SealedItem → List HashId × List HashId
  | .naming _ revoking new => (revoking, new)
  | .holding _ revoking new => (revoking.map SealedItem.id, new.map SealedItem.id)

/-- The sealed binaries by their hashes. A binary holds the hashes of what it refers to, or that itself, so
    those are older. -/
structure Binaries where
  binary : HashId → SealedItem
  binary_id : ∀ i, (binary i).id = i
  binary_inside : ∀ i, ∀ s ∈ (binary i).inside, binary s.id = s
  age : HashId → ℕ
  older : ∀ i, ∀ d ∈ (names (binary i)).1 ++ (names (binary i)).2, age d < age i

/-- The item of a pack opens, with all there is inside it. -/
def Binaries.OpensAsItem (b : Binaries) (id : HashId) : Prop := (b.binary id).Opens

/-- The `switch` over the extended type of the main contract: the contracts put into the pack. Another text
    leaves the pack without contract, and an empty one is not written. -/
def openMain (s : SealedItem) : Option (List SealedItem) :=
  match s.head.extendedType with
  | some .nSmartContract => s.read
  | some (.other name) => if name = "" then s.fromSealedBinary else none
  | _ => s.fromSealedBinary

/-! ### Contracts in memory -/

/-- A contract object: which of the objects with its id it is, and the matching items of its constraints. -/
structure Item where
  id : HashId
  copy : ℕ
  matchingItems : List HashId
  deriving DecidableEq

/-- A contract object with the objects it revokes and creates. -/
inductive Tree where
  | node (item : Item) (revokingItems : List Item) (newItems : List Tree)

def Tree.item : Tree → Item
  | .node item _ _ => item

mutual
/-- The objects below a contract in the order of `extractAllSubItemsAndReferenced`. -/
def Tree.subItems : Tree → List Item
  | .node _ revokingItems newItems => revokingItems ++ objects newItems

/-- The objects of new items. -/
def objects : List Tree → List Item
  | [] => []
  | t :: ts => t.item :: (t.subItems ++ objects ts)
end

mutual
/-- The referenced items below a contract, its own last. -/
def Tree.referenced : Tree → List HashId
  | .node item revokingItems newItems =>
      revokingItems.flatMap Item.matchingItems ++ referencedBy newItems ++ item.matchingItems

/-- The referenced items of new items. -/
def referencedBy : List Tree → List HashId
  | [] => []
  | t :: ts => t.referenced ++ referencedBy ts
end

/-! ### Transaction packs -/

/-- A `TransactionPack` with its sealed main contract. -/
structure TransactionPack where
  contract : SealedItem
  subItems : OrderedSet HashId
  referencedItems : OrderedSet HashId
  taggedItems : OrderedMap String HashId

namespace TransactionPack

/-- `new TransactionPack(contract)`. -/
def create (contract : SealedItem) (subItems : List Item) (referenced : List HashId) : TransactionPack where
  contract := contract
  subItems := .ofList (subItems.map Item.id)
  referencedItems := .ofList referenced
  taggedItems := .empty

/-- `addTag(tag, itemId)`. -/
def addTag (p : TransactionPack) (tag : String) (itemId : HashId) : Option TransactionPack :=
  if itemId ∈ p.referencedItems ∨ itemId ∈ p.subItems ∨ p.contract.id = itemId then
    some { p with taggedItems := p.taggedItems.set tag itemId }
  else none

/-- Tags are added one after another. -/
def addTags (p : TransactionPack) (tags : List (String × HashId)) : Option TransactionPack :=
  Run.run (fun p e => p.addTag e.1 e.2) p tags

/-- `TAG_PREFIX_RESERVED` and the name that sets a prototype: such a tag is not read again. -/
def keepsTag (tag : String) : Bool := !(tag.startsWith "universa:" || tag == "__proto__")

/-- What is packed of the items. -/
def data (b : Binaries) (p : TransactionPack) : PackData where
  referencedItems := p.referencedItems.elements.map b.binary
  subItems := p.subItems.elements.map b.binary

/-- `serialize` and `deserialize`: referenced items, sub-items, the main contract, and the tags. -/
def unpack (b : Binaries) (p : TransactionPack) : Option TransactionPack :=
  match loadSubItems (p.data b) with
  | some (.ok l) => do
      let held ← openMain p.contract
      addTags ⟨p.contract, .ofList (l.subItems.map Prod.fst ++ held.map SealedItem.id),
        .ofList p.referencedItems.elements, .empty⟩
        ((objectEntries p.taggedItems).filter fun e => keepsTag e.1)
  | _ => none

end TransactionPack

/-! ### Compounds -/

/-- `tagObj`. -/
structure TagObj where
  id : HashId
  data : Value
  refs : List HashId
  tags : List (String × HashId)

/-- `definition.data.contracts` in memory and in the sealed binary, and the pack of the compound contract. -/
structure Sealed where
  contracts : OrderedMap String TagObj
  sealedContracts : OrderedMap String TagObj
  transactionPack : TransactionPack

/-- A compound that contracts are added to. -/
structure Compound extends Sealed where
  newItems : List Tree

/-- The compound contract, sealed with that id and these new items; it has no extended type. -/
def compoundBinary (id : HashId) (newItems : List Tree) : SealedItem :=
  .naming ⟨id, none, true⟩ [] (newItems.map fun t => t.item.id)

/-- `Compound.init()`. -/
def Compound.init (id : HashId) : Compound where
  contracts := .empty
  sealedContracts := .empty
  transactionPack := .create (compoundBinary id []) [] []
  newItems := []

/-- What is read of a `tagObj`: its ids are texts, its data were stored. -/
def TagObj.read (t : TagObj) : TagObj := { t with data := (stored t.data).getD t.data }

/-- `contracts` from a sealed binary: the names that BOSS carries, with an own `hasOwnProperty` no function and
    `__proto__` no name. No `tagObj` is the name of a class. -/
def readContracts (contracts : OrderedMap String TagObj) : Option (OrderedMap String TagObj) :=
  let carried := (binderOf contracts.entries).delete "__proto__"
  if carried.has "hasOwnProperty" then none
  else if carried.values.all fun t => (stored t.data).isSome then some (carried.map TagObj.read)
  else none

/-- `Compound.fromPackedTransaction(getPackedTransaction())`. -/
def Sealed.fromPackedTransaction (b : Binaries) (c : Sealed) : Option Sealed := do
  let tp ← c.transactionPack.unpack b
  let contracts ← readContracts c.sealedContracts
  return ⟨contracts, c.sealedContracts, tp⟩

/-- A contract that is put into a compound, with the pack it has outside of it. -/
structure Root where
  tree : Tree
  transactionPack : Option TransactionPack

def Root.id (r : Root) : HashId := r.tree.item.id

/-- The pack of a contract outside of a compound: `getPackedTransaction` makes one where there is none. -/
def Root.pack (b : Binaries) (r : Root) : TransactionPack :=
  r.transactionPack.getD (.create (b.binary r.id) r.tree.subItems r.tree.referenced)

/-- One call of `addContract`; `sealedId` is the id that the compound contract gets by sealing. -/
structure Add where
  tag : String
  contractToPutInto : Root
  dataToAssociateWith : Plain
  sealedId : HashId

/-- The copy of the contract: sealing sets the pack of each object below the compound contract to its own, and
    the copy is the main contract of that pack. -/
def Compound.copy (b : Binaries) (c : Compound) (r : Root) : Option TransactionPack :=
  if r.tree.item ∈ objects c.newItems then (c.fromPackedTransaction b).map Sealed.transactionPack
  else (r.pack b).unpack b

/-- `newItems.add(contract)` of a set of objects. -/
def addItem (newItems : List Tree) (t : Tree) : List Tree :=
  if t.item ∈ newItems.map Tree.item then newItems else newItems ++ [t]

/-- The pack after `seal()`: a new one with the referenced items of the one before. -/
def TransactionPack.reseal (p : TransactionPack) (id : HashId) (newItems : List Tree) : TransactionPack :=
  let tp := TransactionPack.create (compoundBinary id newItems) (objects newItems) (referencedBy newItems)
  { tp with referencedItems := tp.referencedItems.addAll p.referencedItems.elements }

/-- What `addContract` does with the copy: a new item, a new `tagObj`, and the pack after sealing with the
    referenced items of the copy. -/
def Compound.put (c : Compound) (a : Add) (copy : TransactionPack) : Compound :=
  let newItems := addItem c.newItems a.contractToPutInto.tree
  let refs := copy.referencedItems.elements
  let contracts := assignProperty c.contracts a.tag ⟨copy.contract.id, a.dataToAssociateWith.value, refs, []⟩
  let tp := c.transactionPack.reseal a.sealedId newItems
  { contracts := contracts
    sealedContracts := contracts
    transactionPack := { tp with referencedItems := tp.referencedItems.addAll refs }
    newItems := newItems }

/-- `addContract(tag, contractToPutInto, dataToAssociateWith)`; `forEach` of a map passes the value before the
    key, so a tag of the copy throws at `v.id.base64` of a text. -/
def Compound.addContract (b : Binaries) (c : Compound) (a : Add) : Option Compound := do
  let copy ← c.copy b a.contractToPutInto
  if copy.taggedItems.entries = [] then return c.put a copy else none

/-- A contract that a compound answers, with the pack that was made for it. -/
structure Found where
  id : HashId
  transactionPack : TransactionPack

/-- The items below a loaded contract: those it names that the pack has, or those it holds; an age bounds the
    depth. -/
def linked (b : Binaries) (subItems : OrderedSet HashId) : ℕ → HashId → List HashId
  | 0, _ => []
  | depth + 1, id =>
      match b.binary id with
      | .naming _ revoking new =>
          revoking.filter (· ∈ subItems) ++
            (new.filter (· ∈ subItems)).flatMap fun i => i :: linked b subItems depth i
      | .holding _ revoking new =>
          revoking.map SealedItem.id ++
            (new.map SealedItem.id).flatMap fun i => i :: linked b subItems depth i

/-- `getContractByTag(tag)`, with `none` for null. -/
def Sealed.getContractByTag (b : Binaries) (c : Sealed) (tag : String) : Option Found := do
  let tagObj ← c.contracts.get? tag
  let copy ← c.fromPackedTransaction b
  let tpCopy := copy.transactionPack
  if tagObj.id ∈ tpCopy.subItems ∧ ∀ ri ∈ tagObj.refs, ri ∈ tpCopy.referencedItems then
    let tp : TransactionPack :=
      ⟨b.binary tagObj.id, .ofList (linked b tpCopy.subItems (b.age tagObj.id + 1) tagObj.id),
        .ofList tagObj.refs, .empty⟩
    let tp ← tp.addTags tagObj.tags
    return ⟨tagObj.id, tp⟩
  else none

/-- `getContractById(contractId)`, with `none` for null. -/
def Sealed.getContractById (b : Binaries) (c : Sealed) (contractId : HashId) : Option Found :=
  match (objectEntries c.contracts).find? fun e => e.2.id = contractId with
  | some (tag, _) => c.getContractByTag b tag
  | none => none

/-- `getData(tag)`. -/
def Sealed.getData (c : Sealed) (tag : String) : Option Value := (c.contracts.get? tag).map TagObj.data

/-- `getTags()`. -/
def Sealed.getTags (c : Sealed) : List String := (objectEntries c.contracts).map Prod.fst

/-! ### What a compound is for -/

/-- The contract that was added: its id, and a pack with its referenced items and its tags. -/
structure IsBack (b : Binaries) (r : Root) (f : Found) : Prop where
  id : f.id = r.id
  contract : f.transactionPack.contract.id = r.id
  referencedItems : ∀ i, i ∈ f.transactionPack.referencedItems ↔ i ∈ (r.pack b).referencedItems
  taggedItems : ∀ tag, f.transactionPack.taggedItems.get? tag = (r.pack b).taggedItems.get? tag

/-- No call of `addContract` throws, and the compound that is loaded again answers what was put in. -/
def GivesBack (b : Binaries) (init : HashId) (adds : List Add) : Prop :=
  ∃ c loaded, Run.run (Compound.addContract b) (.init init) adds = some c ∧
    c.fromPackedTransaction b = some loaded ∧ loaded.getTags.Perm (adds.map Add.tag) ∧
    ∀ a ∈ adds, (∃ d, loaded.getData a.tag = some d ∧ SameData d a.dataToAssociateWith.value) ∧
      (∃ f, loaded.getContractByTag b a.tag = some f ∧ IsBack b a.contractToPutInto f) ∧
      ∃ f, loaded.getContractById b a.contractToPutInto.id = some f ∧ IsBack b a.contractToPutInto f

/-- The trees that were added. -/
def trees (adds : List Add) : List Tree := adds.map fun a => a.contractToPutInto.tree

/-- A sealing gives an id that no item below the compound has: they are older than its binary. -/
def NewIds (adds : List Add) : Prop :=
  ∀ before a after, adds = before ++ a :: after → ∀ i ∈ objects (trees (before ++ [a])), i.id ≠ a.sealedId

/-- What a contract has to be for a compound that the other ones were added to before. -/
structure Fits (b : Binaries) (before : List Add) (a : Add) : Prop where
  /-- The pack of the contract is that of its own transaction. -/
  own : (a.contractToPutInto.pack b).contract.id = a.contractToPutInto.id
  /-- The object was neither added before nor is it below one that was. -/
  fresh : a.contractToPutInto.tree.item ∉ objects (trees before)
  /-- Nothing is tagged. -/
  untagged : (a.contractToPutInto.pack b).taggedItems.entries = []
  /-- All binaries open. -/
  main : (openMain (a.contractToPutInto.pack b).contract).isSome = true
  items : ∀ i, i ∈ (a.contractToPutInto.pack b).subItems ∨ i ∈ (a.contractToPutInto.pack b).referencedItems →
    b.OpensAsItem i
  nested : ∀ i ∈ objects [a.contractToPutInto.tree], b.OpensAsItem i.id
  matching : ∀ i ∈ a.contractToPutInto.tree.referenced, b.OpensAsItem i
  /-- The tag is a name that an object can have, be sealed and be read with. -/
  tag : a.tag ≠ "__proto__" ∧ a.tag ≠ "hasOwnProperty" ∧ arrayIndex? a.tag = none ∧ cText a.tag = a.tag
  /-- The data are loaded as they were sealed. -/
  data : Storable a.dataToAssociateWith.value
  /-- Contracts with one id have the same referenced items. -/
  same : ∀ a' ∈ before, a'.contractToPutInto.id = a.contractToPutInto.id → ∀ i,
    i ∈ (a'.contractToPutInto.pack b).referencedItems ↔ i ∈ (a.contractToPutInto.pack b).referencedItems

/-- Every contract fits. -/
def AllFit (b : Binaries) (adds : List Add) : Prop :=
  ∀ before a after, adds = before ++ a :: after → Fits b before a

end Universa.Contracts.Compounds
