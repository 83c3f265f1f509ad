import Mathlib.Data.List.Nodup
import Universa.Lib.Comp
import Universa.Services.NameCache

/-! How an environment allocates names, origins and addresses (`NImmutableEnvironment.tryAllocate`) and
    what a save of its names does to ledger and locks (`NMutableEnvironment.save`). A run is any sequence
    of allocations, of saves up to the release of their locks, and of ends of the transactions these are in.

    An allocation is what a `tryAllocate` without errors was called with. As `addNameRecord` cannot store a
    name, none of them ever ends by being stored, and their locks stay. -/

namespace Universa.Services

/-! ### Values -/

/-- What only one contract may hold. -/
inductive Value where
  | name (reduced : String)
  | origin (id : HashId)
  | address (text : String)
  deriving DecidableEq

/-- The key of the value in the cache. -/
def Value.key : Value → String
  | .name reduced => NameCache.namePrefix ++ reduced
  | .origin id => NameCache.originPrefix ++ id.base64
  | .address text => NameCache.addressPrefix ++ text

/-- The ledger has the value. -/
def NameTables.Stored (t : NameTables) : Value → Prop
  | .name reduced => t.HasName reduced
  | .origin id => t.HasOrigin id
  | .address text => t.HasAddress text

instance (t : NameTables) (v : Value) : Decidable (t.Stored v) :=
  match v with
  | .name reduced => inferInstanceAs (Decidable (∃ row ∈ t.storage, row.nameReduced = reduced))
  | .origin id => inferInstanceAs (Decidable (∃ row ∈ t.entries, row.origin = some id))
  | .address text =>
      inferInstanceAs (Decidable (∃ row ∈ t.entries, row.shortAddr = some text ∨ row.longAddr = some text))

/-- What `tryAllocate` is called with. -/
structure Allocation where
  reducedNamesToAllocate : List String
  originsToAllocate : List HashId
  addressesToAllocate : List String
  deriving DecidableEq

/-- All values of the call. -/
def Allocation.values (a : Allocation) : List Value :=
  a.reducedNamesToAllocate.map .name ++ a.originsToAllocate.map .origin ++ a.addressesToAllocate.map .address

/-- All values of a record. -/
def NNameRecord.values (r : NNameRecord) : List Value :=
  .name r.nameReduced :: r.entries.flatMap fun e =>
    (e.origin.toList.map .origin ++ e.longAddress.toList.map .address) ++ e.shortAddress.toList.map .address

/-! ### `tryAllocate` -/

/-- `ErrorRecord`. -/
structure ErrorRecord where
  error : String
  objectName : String
  message : String
  deriving DecidableEq

/-- `Errors.FAILED_CHECK`: the module does not import `Errors`. -/
def failedCheck : Except JsError String := .error (.notDefined "Errors")

/-- `new ErrorRecord(Errors.FAILED_CHECK, objectName, message)`. -/
def notAvailable (objectName message : String) : Except JsError ErrorRecord :=
  failedCheck.map fun error => ⟨error, objectName, message⟩

/-- What `isNamesAvailable` and its siblings return: strings, or the answer of the ledger as it is. -/
inductive Unavailable (α : Type) where
  | strings (list : List String)
  | answer (promise : Promise (List α))

namespace Unavailable
variable {α : Type}

/-- `errors.length`. -/
def length : Unavailable α → Option ℕ
  | strings list => some list.length
  | answer promise => promise.length

/-- `errors.forEach(s => res.push(new ErrorRecord(…)))`: a promise has no `forEach`. -/
def errorRecords (objectName : String) (message : String → String) :
    Unavailable α → Except JsError (List ErrorRecord)
  | strings list => list.mapM fun s => notAvailable objectName (message s)
  | answer _ => .error (.notAFunction "forEach")

end Unavailable

/-- The three checks, with the prefix of the keys, the strings to lock and the answer of the ledger. -/
def isAvailable {α : Type} (keyPrefix : String) (strings : List String) (answer : Promise (List α))
    (c : NameCache) : Unavailable α × NameCache :=
  if strings.length = 0 then (.strings [], c)
  else
    let (unavailableCache, c) := c.lockStringList keyPrefix strings
    if 0 < unavailableCache.length then (.strings unavailableCache, c)
    else if positive answer.length then (.answer answer, c.unlockStringList keyPrefix strings)
    else (.strings [], c)

/-- `isNamesAvailable(reducedNames)`. -/
def isNamesAvailable (t : NameTables) (reducedNames : List String) : NameCache → Unavailable String × NameCache :=
  isAvailable NameCache.namePrefix reducedNames (t.isAllNameRecordsAvailable reducedNames)

/-- `isOriginsAvailable(origins)`. -/
def isOriginsAvailable (t : NameTables) (origins : List HashId) : NameCache → Unavailable String × NameCache :=
  isAvailable NameCache.originPrefix (origins.map (·.base64)) (t.isAllOriginsAvailable origins)

/-- `isAddressesAvailable(addresses)`. -/
def isAddressesAvailable (t : NameTables) (addresses : List String) :
    NameCache → Unavailable (Option String) × NameCache :=
  isAvailable NameCache.addressPrefix addresses (t.isAllAddressesAvailable addresses)

/-- `tryAllocate(reducedNamesToAllocate, originsToAllocate, addressesToAllocate)`. -/
def tryAllocate (t : NameTables) (a : Allocation) (c : NameCache) :
    Except JsError (List ErrorRecord) × NameCache :=
  let (namesErrors, c) := isNamesAvailable t a.reducedNamesToAllocate c
  let (originsErrors, c) := isOriginsAvailable t a.originsToAllocate c
  let (addressesErrors, c) := isAddressesAvailable t a.addressesToAllocate c
  let checkResult := namesErrors.length = some 0 ∧ originsErrors.length = some 0 ∧
    addressesErrors.length = some 0
  let c :=
    if checkResult then c
    else
      let c := if namesErrors.length = some 0 then c.unlockNameList a.reducedNamesToAllocate else c
      let c := if originsErrors.length = some 0 then c.unlockOriginList a.originsToAllocate else c
      if addressesErrors.length = some 0 then c.unlockAddressList a.addressesToAllocate else c
  (do
    let names ← namesErrors.errorRecords "names" fun s => "name '" ++ s ++ "' is not available"
    let origins ← originsErrors.errorRecords "origins" fun s => "origin '" ++ s ++ "' is not available"
    let addresses ← addressesErrors.errorRecords "addresses" fun s => "address '" ++ s ++ "' is not available"
    return names ++ origins ++ addresses, c)

/-! ### An allocation takes all its keys or none -/

/-- The keys a check took, by what it returned. -/
def Unavailable.taken {α : Type} (u : Unavailable α) (keys : List String) : List String :=
  if u.length = some 0 then keys else []

theorem unlockStringList_eq (keyPrefix : String) (strings : List String) (c : NameCache) :
    c.unlockStringList keyPrefix strings =
      (strings.map (keyPrefix ++ ·)).foldl NameCache.unlockStringValue c := by
  rw [List.foldl_map]
  rfl

theorem unlock_taken {α : Type} (u : Unavailable α) (keyPrefix : String) (strings : List String) (c : NameCache) :
    (if u.length = some 0 then c.unlockStringList keyPrefix strings else c) =
      (u.taken (strings.map (keyPrefix ++ ·))).foldl NameCache.unlockStringValue c := by
  unfold Unavailable.taken
  split
  · exact unlockStringList_eq keyPrefix strings c
  · rfl

/-- A check takes its keys and returns nothing, or takes none and returns what ends in an exception. -/
theorem isAvailable_spec {α : Type} (keyPrefix : String) (strings : List String) (answer : Promise (List α))
    (c : NameCache) {u : Unavailable α} {c' : NameCache} (h : isAvailable keyPrefix strings answer c = (u, c')) :
    NameCache.Takes c (u.taken (strings.map (keyPrefix ++ ·))) c' ∧
      (u = .strings [] ∨
        u.length ≠ some 0 ∧ ∀ objectName message res, u.errorRecords objectName message ≠ .ok res) := by
  unfold isAvailable at h
  by_cases hempty : strings.length = 0
  · obtain ⟨rfl, rfl⟩ := Prod.mk.inj ((if_pos hempty).symm.trans h)
    have hnil : strings = [] := List.length_eq_zero_iff.mp hempty
    exact ⟨by simpa [Unavailable.taken, Unavailable.length, hnil] using NameCache.Takes.nil c, Or.inl rfl⟩
  · rw [if_neg hempty] at h
    rcases NameCache.lockStringList_spec keyPrefix strings c with ⟨hnone, htakes⟩ | ⟨hsome, hsame⟩
    · obtain ⟨rfl, rfl⟩ : Unavailable.strings [] = u ∧ (c.lockStringList keyPrefix strings).2 = c' := by
        simpa [hnone, positive, Promise.length] using h
      exact ⟨by simpa [Unavailable.taken, Unavailable.length] using htakes, Or.inl rfl⟩
    · obtain ⟨rfl, rfl⟩ :
          Unavailable.strings (c.lockStringList keyPrefix strings).1 = u ∧
            (c.lockStringList keyPrefix strings).2 = c' := by
        simpa [List.length_pos_of_ne_nil hsome] using h
      generalize (c.lockStringList keyPrefix strings).1 = unavailable at hsome
      obtain ⟨s, rest, rfl⟩ := List.exists_cons_of_ne_nil hsome
      refine ⟨by simpa [Unavailable.taken, Unavailable.length, hsame] using NameCache.Takes.nil c,
        Or.inr ⟨by simp [Unavailable.length], fun objectName message res => ?_⟩⟩
      simp [Unavailable.errorRecords, notAvailable, failedCheck, Except.map, List.mapM_cons, bind, Except.bind]

theorem NameCache.Takes.append {c c₁ c₂ : NameCache} {keys keys' : List String}
    (h : NameCache.Takes c keys c₁) (h' : NameCache.Takes c₁ keys' c₂) :
    NameCache.Takes c (keys ++ keys') c₂ := by
  have hfree : ∀ key ∈ keys', c.records key = false ∧ key ∉ keys := fun key hkey => by
    simpa [h.records] using h'.free key hkey
  refine ⟨fun key hkey => ?_, List.nodup_append.mpr ⟨h.nodup, h'.nodup, ?_⟩, fun key => ?_⟩
  · rcases List.mem_append.mp hkey with hkey | hkey
    · exact h.free key hkey
    · exact (hfree key hkey).1
  · rintro a ha b hb rfl
    exact (hfree a hb).2 ha
  · rw [h'.records, h.records, Bool.or_assoc]
    simp

theorem Allocation.values_keys (a : Allocation) : a.values.map Value.key =
    a.reducedNamesToAllocate.map (NameCache.namePrefix ++ ·) ++
      (a.originsToAllocate.map (·.base64)).map (NameCache.originPrefix ++ ·) ++
      a.addressesToAllocate.map (NameCache.addressPrefix ++ ·) := by
  simp [Allocation.values, Value.key, Function.comp_def]

/-- An allocation locks all its values and returns no errors, or ends in an exception and locks nothing. -/
theorem tryAllocate_spec (t : NameTables) (a : Allocation) (c : NameCache) :
    (tryAllocate t a c).1 = .ok [] ∧ NameCache.Takes c (a.values.map Value.key) (tryAllocate t a c).2 ∨
      (∀ res, (tryAllocate t a c).1 ≠ .ok res) ∧ (tryAllocate t a c).2 = c := by
  obtain ⟨u₁, c₁, h₁⟩ : ∃ u c', isNamesAvailable t a.reducedNamesToAllocate c = (u, c') := ⟨_, _, rfl⟩
  obtain ⟨u₂, c₂, h₂⟩ : ∃ u c', isOriginsAvailable t a.originsToAllocate c₁ = (u, c') := ⟨_, _, rfl⟩
  obtain ⟨u₃, c₃, h₃⟩ : ∃ u c', isAddressesAvailable t a.addressesToAllocate c₂ = (u, c') := ⟨_, _, rfl⟩
  obtain ⟨takes₁, out₁⟩ := isAvailable_spec _ _ _ _ h₁
  obtain ⟨takes₂, out₂⟩ := isAvailable_spec _ _ _ _ h₂
  obtain ⟨takes₃, out₃⟩ := isAvailable_spec _ _ _ _ h₃
  have htakes := (takes₁.append takes₂).append takes₃
  have hback := htakes.unlock
  rw [List.foldl_append, List.foldl_append, ← unlock_taken, ← unlock_taken, ← unlock_taken] at hback
  by_cases hcheck : u₁.length = some 0 ∧ u₂.length = some 0 ∧ u₃.length = some 0
  · obtain rfl := out₁.resolve_right fun h => h.1 hcheck.1
    obtain rfl := out₂.resolve_right fun h => h.1 hcheck.2.1
    obtain rfl := out₃.resolve_right fun h => h.1 hcheck.2.2
    have hresult : tryAllocate t a c = (.ok [], c₃) := by
      simp only [tryAllocate, h₁, h₂, h₃]
      rfl
    rw [hresult, a.values_keys]
    exact Or.inl ⟨rfl, htakes⟩
  · have hcache : (tryAllocate t a c).2 = c := by
      simp only [tryAllocate, h₁, h₂, h₃, if_neg hcheck]
      exact hback
    refine Or.inr ⟨fun res hres => hcheck ?_, hcache⟩
    simp only [tryAllocate, h₁, h₂, h₃] at hres
    obtain ⟨names, hnames, hres⟩ := Except.bind_eq_ok.mp hres
    obtain ⟨origins, horigins, hres⟩ := Except.bind_eq_ok.mp hres
    obtain ⟨addresses, haddresses, hres⟩ := Except.bind_eq_ok.mp hres
    obtain rfl := out₁.resolve_right fun h => h.2 _ _ _ hnames
    obtain rfl := out₂.resolve_right fun h => h.2 _ _ _ horigins
    obtain rfl := out₃.resolve_right fun h => h.2 _ _ _ haddresses
    exact ⟨rfl, rfl, rfl⟩

/-! ### Saves -/

/-- The records a save destroys, extends and adds (`nameRecordsToDestroy` and its siblings). -/
structure NameChanges where
  nameRecordsToDestroy : List NNameRecord
  nameRecordsToSave : List NNameRecord
  nameRecordsToAdd : List NNameRecord
  deriving DecidableEq

/-- The statements of `save` on names. -/
def NameChanges.write (n : NameChanges) (t : NameTables) : Except JsError NameTables :=
  let t := n.nameRecordsToDestroy.foldl (fun t r => t.removeNameRecord r.nameReduced) t
  let t := n.nameRecordsToSave.foldl (fun t r => t.updateNameRecord r.id r.expiresAt) t
  n.nameRecordsToAdd.foldlM (fun t r => t.addNameRecord r) t

/-- The end of `save`: the locks on everything it wrote go. -/
def NameChanges.unlock (n : NameChanges) (c : NameCache) : NameCache :=
  let records := n.nameRecordsToSave ++ n.nameRecordsToAdd
  let entries := records.flatMap (·.entries)
  let addressList := entries.flatMap fun e => e.longAddress.toList ++ e.shortAddress.toList
  let nameList := records.map (·.nameReduced)
  let originsList := entries.flatMap (·.origin.toList)
  ((c.unlockAddressList addressList).unlockNameList nameList).unlockOriginList originsList

/-! ### Runs of a node -/

/-- The cache and the ledger of a node, the saves whose transactions are open, and all allocations so far. -/
structure UnsNode where
  nameCache : NameCache
  ledger : NameTables
  saved : List NameChanges
  allocations : List Allocation

/-- A `tryAllocate`, a save up to the release of its locks, the commit or the rollback of the transaction of
    a save, and a failure before the save. -/
inductive Action where
  | tryAllocate (a : Allocation)
  | save (n : NameChanges)
  | commit (n : NameChanges)
  | rollback (n : NameChanges)
  | failBeforeSave

/-- What an action does; a save with an exception changes nothing. -/
def step (s : UnsNode) : Action → Option UnsNode
  | .tryAllocate a =>
      let (result, nameCache) := Services.tryAllocate s.ledger a s.nameCache
      some { s with nameCache, allocations := if result = .ok [] then a :: s.allocations else s.allocations }
  | .save n =>
      match n.write s.ledger with
      | .ok _ => some { s with nameCache := n.unlock s.nameCache, saved := n :: s.saved }
      | .error _ => some s
  | .commit n =>
      if n ∈ s.saved then
        match n.write s.ledger with
        | .ok ledger => some { s with ledger, saved := s.saved.erase n }
        | .error _ => none
      else none
  | .rollback n => if n ∈ s.saved then some { s with saved := s.saved.erase n } else none
  | .failBeforeSave => some s

/-- Nothing that is asked for is stored, and what a save extends is stored. -/
def Clean (s : UnsNode) : Action → Prop
  | .tryAllocate a => ∀ v ∈ a.values, ¬ s.ledger.Stored v
  | .save n => ∀ r ∈ n.nameRecordsToSave, ∀ v ∈ r.values, s.ledger.Stored v
  | _ => True

/-- One contract for each value: all that was allocated is locked and not stored, no two allocations share a
    value, and none has a value twice. -/
structure OneHolder (s : UnsNode) : Prop where
  locked : ∀ a ∈ s.allocations, ∀ v ∈ a.values, s.nameCache.records v.key = true
  notStored : ∀ a ∈ s.allocations, ∀ v ∈ a.values, ¬ s.ledger.Stored v
  apart : s.allocations.Pairwise fun a b => ∀ v ∈ a.values, v ∉ b.values
  once : ∀ a ∈ s.allocations, a.values.Nodup

/-- A `tryAllocate` without errors holds all its values, none of them stored or held before. -/
def Holds (s : UnsNode) (a : Allocation) : Prop :=
  ∀ c', tryAllocate s.ledger a s.nameCache = (.ok [], c') →
    ∀ v ∈ a.values, c'.records v.key = true ∧ ¬ s.ledger.Stored v ∧ ∀ b ∈ s.allocations, v ∉ b.values

/-- Any other `tryAllocate` keeps the locks there were and none of its own. -/
def Keeps (s : UnsNode) (a : Allocation) : Prop :=
  ∀ result c', tryAllocate s.ledger a s.nameCache = (result, c') → result ≠ .ok [] → c' = s.nameCache

/-- The promises of the ledger are of the stored values. That of the addresses has more than was asked for, both
    columns of each row that is found: a null for an address that the entry lacks, and the entry's other address;
    of these it says no more than that the addresses are stored. -/
structure Answers (t : NameTables) : Prop where
  names : ∀ reducedNames name,
    name ∈ (t.isAllNameRecordsAvailable reducedNames).resolved ↔ name ∈ reducedNames ∧ t.HasName name
  origins : ∀ origins base64,
    base64 ∈ (t.isAllOriginsAvailable origins).resolved ↔
      ∃ origin ∈ origins, origin.base64 = base64 ∧ t.HasOrigin origin
  addresses : ∀ addresses address, some address ∈ (t.isAllAddressesAvailable addresses).resolved →
    t.HasAddress address
  all : ∀ addresses, ∀ address ∈ addresses, t.HasAddress address →
    some address ∈ (t.isAllAddressesAvailable addresses).resolved

/-! ### What the statements keep -/

theorem Value.key_injective : Function.Injective Value.key := by
  intro v w h
  rcases v with _ | ⟨⟨_⟩⟩ | _ <;> rcases w with _ | ⟨⟨_⟩⟩ | _ <;>
    simp_all [Value.key, NameCache.namePrefix, NameCache.originPrefix, NameCache.addressPrefix,
      String.ext_iff]

theorem Stored.of_removeNameRecord {t : NameTables} {nameReduced : String} {v : Value}
    (h : (t.removeNameRecord nameReduced).Stored v) : t.Stored v := by
  cases v with
  | name reduced =>
      obtain ⟨row, hrow, hname⟩ := h
      exact ⟨row, List.mem_of_mem_filter hrow, hname⟩
  | origin id =>
      obtain ⟨row, hrow, horigin⟩ := h
      exact ⟨row, List.mem_of_mem_filter hrow, horigin⟩
  | address text =>
      obtain ⟨row, hrow, haddress⟩ := h
      exact ⟨row, List.mem_of_mem_filter hrow, haddress⟩

theorem Stored.of_updateNameRecord {t : NameTables} {id : ℕ} {expiresAt : ℤ} {v : Value}
    (h : (t.updateNameRecord id expiresAt).Stored v) : t.Stored v := by
  cases v with
  | name reduced =>
      obtain ⟨row, hrow, hname⟩ := h
      obtain ⟨old, hold, rfl⟩ := List.mem_map.mp hrow
      exact ⟨old, hold, by split at hname <;> exact hname⟩
  | origin id => exact h
  | address text => exact h

theorem addNameRecord_ne_ok (t t' : NameTables) (r : NNameRecord) : t.addNameRecord r ≠ .ok t' := by
  unfold NameTables.addNameRecord NameTables.mapEntries
  split
  split <;> simp

theorem Stored.of_foldl {f : NameTables → NNameRecord → NameTables} {v : Value}
    (hf : ∀ t r, (f t r).Stored v → t.Stored v) {rs : List NNameRecord} {t : NameTables}
    (h : (rs.foldl f t).Stored v) : t.Stored v := by
  induction rs generalizing t with
  | nil => exact h
  | cons r rs ih => exact hf t r (ih h)

/-- A save that succeeds adds no record, and what is stored after it was stored before. -/
theorem NameChanges.write_ok {n : NameChanges} {t t' : NameTables} (h : n.write t = .ok t') :
    n.nameRecordsToAdd = [] ∧ ∀ v, t'.Stored v → t.Stored v := by
  unfold NameChanges.write at h
  cases hadd : n.nameRecordsToAdd with
  | nil =>
      simp only [hadd, List.foldlM_nil, pure, Except.pure, Except.ok.injEq] at h
      subst h
      refine ⟨rfl, fun v hv => ?_⟩
      exact Stored.of_foldl (fun _ _ => Stored.of_removeNameRecord)
        (Stored.of_foldl (fun _ _ => Stored.of_updateNameRecord) hv)
  | cons r rs =>
      rw [hadd, List.foldlM_cons] at h
      obtain ⟨t₁, ht₁, -⟩ := Except.bind_eq_ok.mp h
      exact absurd ht₁ (addNameRecord_ne_ok _ _ r)

theorem unlock_key {keyPrefix : String} {strs : List String} {c : NameCache} {key : String}
    (h : ∀ str ∈ strs, key ≠ keyPrefix ++ str) :
    (c.unlockStringList keyPrefix strs).records key = c.records key := by
  have hkey : key ∉ strs.map (keyPrefix ++ ·) := by
    intro hmem
    obtain ⟨str, hstr, rfl⟩ := List.mem_map.mp hmem
    exact h str hstr rfl
  rw [NameCache.unlockStringList_records, decide_eq_true hkey, Bool.and_true]

/-- A lock stays unless the save wrote its value. -/
theorem NameChanges.unlock_records {n : NameChanges} {c : NameCache} {v : Value}
    (hv : ∀ r ∈ n.nameRecordsToSave ++ n.nameRecordsToAdd, v ∉ r.values) :
    (n.unlock c).records v.key = c.records v.key := by
  have hother : ∀ w, (∃ r ∈ n.nameRecordsToSave ++ n.nameRecordsToAdd, w ∈ r.values) → v.key ≠ w.key :=
    fun w ⟨r, hr, hw⟩ hkey => hv r hr (Value.key_injective hkey ▸ hw)
  unfold NameChanges.unlock NameCache.unlockOriginList NameCache.unlockNameList NameCache.unlockAddressList
  rw [unlock_key, unlock_key, unlock_key]
  · intro text htext
    obtain ⟨e, he, htext⟩ := List.mem_flatMap.mp htext
    obtain ⟨r, hr, he⟩ := List.mem_flatMap.mp he
    refine hother (.address text) ⟨r, hr, List.mem_cons_of_mem _ (List.mem_flatMap.mpr ⟨e, he, ?_⟩)⟩
    simpa [or_comm] using htext
  · intro reduced hreduced
    obtain ⟨r, hr, rfl⟩ := List.mem_map.mp hreduced
    exact hother (.name r.nameReduced) ⟨r, hr, List.mem_cons_self⟩
  · intro base64 hbase64
    obtain ⟨id, hid, rfl⟩ := List.mem_map.mp hbase64
    obtain ⟨e, he, hid⟩ := List.mem_flatMap.mp hid
    obtain ⟨r, hr, he⟩ := List.mem_flatMap.mp he
    refine hother (.origin id) ⟨r, hr, List.mem_cons_of_mem _ (List.mem_flatMap.mpr ⟨e, he, ?_⟩)⟩
    simpa using hid

/-- Where all its values were free, an allocation is a further holder. -/
theorem OneHolder.allocate {s : UnsNode} {a : Allocation} {c' : NameCache} (h : OneHolder s)
    (hfree : ∀ v ∈ a.values, ¬ s.ledger.Stored v) (htakes : s.nameCache.Takes (a.values.map Value.key) c') :
    OneHolder { s with nameCache := c', allocations := a :: s.allocations } := by
  have hnew : ∀ v ∈ a.values, ∀ b ∈ s.allocations, v ∉ b.values := by
    intro v hv b hb hvb
    exact absurd (h.locked b hb v hvb) (by simp [htakes.free v.key (List.mem_map_of_mem hv)])
  refine ⟨fun b hb v hv => ?_, fun b hb v hv => ?_, ?_, fun b hb => ?_⟩
  · rw [htakes.records]
    rcases List.mem_cons.mp hb with rfl | hb
    · simp [List.mem_map_of_mem hv]
    · simp [h.locked b hb v hv]
  · rcases List.mem_cons.mp hb with rfl | hb
    · exact hfree v hv
    · exact h.notStored b hb v hv
  · exact List.pairwise_cons.mpr ⟨fun b hb v hv => hnew v hv b hb, h.apart⟩
  · rcases List.mem_cons.mp hb with rfl | hb
    · exact List.Nodup.of_map Value.key htakes.nodup
    · exact h.once b hb

/-- A clean action keeps that there is one holder. -/
theorem OneHolder.step {s s' : UnsNode} {a : Action} (h : OneHolder s) (hclean : Clean s a)
    (hstep : Services.step s a = some s') : OneHolder s' := by
  cases a with
  | tryAllocate a =>
      obtain ⟨result, c', htry⟩ : ∃ result c', tryAllocate s.ledger a s.nameCache = (result, c') := ⟨_, _, rfl⟩
      have hspec := tryAllocate_spec s.ledger a s.nameCache
      simp only [Services.step, htry, Option.some.injEq] at hstep hspec
      subst hstep
      rcases hspec with ⟨rfl, htakes⟩ | ⟨herr, rfl⟩
      · simpa using h.allocate hclean htakes
      · simpa [herr] using h
  | save n =>
      simp only [Services.step] at hstep
      split at hstep
      · rename_i t' hwrite
        obtain rfl := Option.some.inj hstep
        refine ⟨fun a ha v hv => ?_, h.notStored, h.apart, h.once⟩
        rw [NameChanges.unlock_records]
        · exact h.locked a ha v hv
        · intro r hr hvr
          rw [(NameChanges.write_ok hwrite).1, List.append_nil] at hr
          exact h.notStored a ha v hv (hclean r hr v hvr)
      · exact Option.some.inj hstep ▸ h
  | commit n =>
      simp only [Services.step, Option.ite_none_right_eq_some] at hstep
      obtain ⟨-, hstep⟩ := hstep
      split at hstep
      · rename_i t' hwrite
        obtain rfl := Option.some.inj hstep
        exact ⟨h.locked, fun a ha v hv hv' => h.notStored a ha v hv ((NameChanges.write_ok hwrite).2 v hv'),
          h.apart, h.once⟩
      · exact absurd hstep nofun
  | rollback n =>
      simp only [Services.step, Option.ite_none_right_eq_some, Option.some.injEq] at hstep
      obtain ⟨-, rfl⟩ := hstep
      exact ⟨h.locked, h.notStored, h.apart, h.once⟩
  | failBeforeSave => exact Option.some.inj hstep ▸ h

/-- In a state with one holder, what is free of the ledger is held after a `tryAllocate` without errors. -/
theorem OneHolder.allocation_holds {s : UnsNode} (h : OneHolder s) {a : Allocation}
    (hfree : ∀ v ∈ a.values, ¬ s.ledger.Stored v) : Holds s a := by
  intro c' htry v hv
  have hspec := tryAllocate_spec s.ledger a s.nameCache
  simp only [htry] at hspec
  obtain ⟨-, htakes⟩ := hspec.resolve_right fun herr => herr.1 _ rfl
  refine ⟨by simp [htakes.records, List.mem_map_of_mem hv], hfree v hv, fun b hb hvb => ?_⟩
  exact absurd (h.locked b hb v hvb) (by simp [htakes.free v.key (List.mem_map_of_mem hv)])

theorem tryAllocate_keeps (s : UnsNode) (a : Allocation) : Keeps s a := by
  intro result c' htry hres
  have hspec := tryAllocate_spec s.ledger a s.nameCache
  simp only [htry] at hspec
  exact (hspec.resolve_left fun hok => hres hok.1).2

theorem NameTables.answers (t : NameTables) : Answers t where
  names reducedNames name := by
    simp only [NameTables.isAllNameRecordsAvailable, NameTables.HasName, List.mem_map, List.mem_filter,
      decide_eq_true_eq]
    constructor
    · rintro ⟨row, ⟨hrow, hname⟩, rfl⟩
      exact ⟨hname, row, hrow, rfl⟩
    · rintro ⟨hname, row, hrow, rfl⟩
      exact ⟨row, ⟨hrow, hname⟩, rfl⟩
  origins origins base64 := by
    simp only [NameTables.isAllOriginsAvailable, NameTables.HasOrigin, List.mem_filterMap,
      Option.bind_eq_some_iff, Option.ite_none_right_eq_some, Option.some.injEq]
    constructor
    · rintro ⟨row, hrow, origin, horigin, hmem, rfl⟩
      exact ⟨origin, hmem, rfl, row, hrow, horigin⟩
    · rintro ⟨origin, hmem, rfl, row, hrow, horigin⟩
      exact ⟨row, hrow, origin, horigin, hmem, rfl⟩
  addresses addresses address haddress := by
    obtain ⟨row, hrow, haddress⟩ := List.mem_flatMap.mp haddress
    refine ⟨row, List.mem_of_mem_filter hrow, ?_⟩
    simpa [eq_comm] using haddress
  all addresses address hmem hstored := by
    obtain ⟨row, hrow, haddress⟩ := hstored
    refine List.mem_flatMap.mpr ⟨row, List.mem_filter.mpr ⟨hrow, decide_eq_true ?_⟩, ?_⟩
    · exact haddress.imp (fun h => ⟨address, h, hmem⟩) fun h => ⟨address, h, hmem⟩
    · simpa [eq_comm] using haddress

/-- CODE DEFECT (locks): in every clean run from a node without allocations each value has one holder, an
    allocation of what is not stored holds it, one that fails keeps the locks there were, and the ledger
    promises the stored values. -/
theorem one_holder_run {s₀ s : UnsNode} {actions : List Action} (h₀ : s₀.allocations = [])
    (hclean : Run.Meets step Clean s₀ actions) (hrun : Run.run step s₀ actions = some s) :
    OneHolder s ∧ (∀ a, (∀ v ∈ a.values, ¬ s.ledger.Stored v) → Holds s a) ∧ (∀ a, Keeps s a) ∧
      Answers s.ledger := by
  have hinit : OneHolder s₀ := by
    constructor <;> simp [h₀]
  have hinv : OneHolder s :=
    Run.invariant (fun s a s' h hclean hstep => h.step hclean hstep) hinit hclean hrun
  exact ⟨hinv, fun a hfree => hinv.allocation_holds hfree, tryAllocate_keeps s, s.ledger.answers⟩

/-! ### A node with one stored name -/

instance (s : UnsNode) (a : Action) : Decidable (Clean s a) :=
  match a with
  | .tryAllocate a => inferInstanceAs (Decidable (∀ v ∈ a.values, ¬ s.ledger.Stored v))
  | .save n => inferInstanceAs (Decidable (∀ r ∈ n.nameRecordsToSave, ∀ v ∈ r.values, s.ledger.Stored v))
  | .commit _ | .rollback _ | .failBeforeSave => inferInstanceAs (Decidable True)

/-- The record of a name without entries. -/
def recordOf (reduced : String) (id : ℕ) : NNameRecord where
  name := reduced
  nameReduced := reduced
  description := none
  url := none
  expiresAt := 5000
  entries := []
  id := id
  environmentId := 1

/-- A node whose ledger has the name. -/
def nodeWith (reduced : String) : UnsNode where
  nameCache := ⟨fun _ => false⟩
  ledger :=
    { storage := [⟨1, reduced, reduced, none, none, 3, 1⟩], entries := [], nextId := 2, nextEntryId := 1 }
  saved := []
  allocations := []

/-- Two names are allocated, a third call for one of them fails, the stored name is extended, and a save of
    an allocated one fails. -/
def twoNames : List Action :=
  [.tryAllocate ⟨["free"], [], []⟩, .tryAllocate ⟨["other", "free"], [⟨"origin"⟩], []⟩,
   .tryAllocate ⟨["other"], [⟨"origin"⟩], ["address"]⟩, .save ⟨[], [recordOf "stored" 1], []⟩,
   .commit ⟨[], [recordOf "stored" 1], []⟩, .save ⟨[], [], [recordOf "free" 0]⟩, .failBeforeSave]

theorem one_holder_two_names : ∃ s, Run.run step (nodeWith "stored") twoNames = some s ∧
    s.allocations.map (·.reducedNamesToAllocate) = [["other"], ["free"]] ∧ OneHolder s := by
  have hend : (Run.run step (nodeWith "stored") twoNames).map
      (fun s => s.allocations.map (·.reducedNamesToAllocate)) = some [["other"], ["free"]] := by decide
  obtain ⟨s, hrun, hs⟩ := Option.map_eq_some_iff.mp hend
  have hclean : Run.Meets step Clean (nodeWith "stored") twoNames :=
    Run.meets_of_passes (fun _ _ => of_decide_eq_true) (by decide)
  exact ⟨s, hrun, hs, (one_holder_run rfl hclean hrun).1⟩

/-- The stored name is allocated without errors. -/
theorem stored_name_allocated : ¬ ∀ (s₀ s : UnsNode) (actions : List Action), s₀.allocations = [] →
    Run.run step s₀ actions = some s → ∀ a, Holds s a := by
  intro h
  have hheld := h (nodeWith "stored") (nodeWith "stored") [] rfl rfl ⟨["stored"], [], []⟩ _ rfl
    (.name "stored") List.mem_cons_self
  exact hheld.2.1 (by decide)

end Universa.Services
