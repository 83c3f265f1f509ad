import Mathlib.Data.List.Sort
import Universa.Js.Date
import Universa.Js.Object
import Universa.Lib.Run
import Universa.Services.EnvironmentStore
import Universa.Services.SlotContract

/-! What a slot tracks and what is stored of it (`slotContract.js`): the tracking contracts and their packed
    transactions, how they are saved to the state and read from it, and `updateSubscriptions` on the environment of
    the slot with the save that follows.

    `NContractStorage.js` does not import `Contract`: a storage can be opened where the script that loads the modules
    declares it, as the test script does and the one of the node does not. A storage that is created has no
    `contract`, so no save that adds one goes through. -/

namespace Universa.Services.SlotStorages
open Universa.Lib Universa.Js

/-! ### The slot -/

/-- What ends a call. -/
inductive Failure where
  | illegalArgument (message : String)
  | thrown (t : Thrown)

/-- A contract as a slot uses it: its id, its revision, and its packed transaction, which can be opened. -/
structure Contracts (T : Type) where
  id : T → HashId
  revision : T → ℕ
  getPackedTransaction : T → List UInt8
  fromPackedTransaction : List UInt8 → Except String T

variable {T C : Type} (contracts : Contracts T)

/-- The fields of `state.data` on what is tracked. -/
structure StateData where
  keep_revisions : Option ℕ
  tracking_contract : Option (OrderedMap String (Option (List UInt8)))

/-- `SlotContract`, without its amounts. -/
structure SlotContract (T : Type) where
  keepRevisions : ℕ
  trackingContracts : List T
  packedTrackingContracts : List (List UInt8)
  data : StateData

namespace SlotContract

/-- `new SlotContract()`, with the state of a contract. -/
def new (data : StateData) : SlotContract T where
  keepRevisions := 1
  trackingContracts := []
  packedTrackingContracts := []
  data := data

/-- `updateTrackingContracts()`. -/
def updateTrackingContracts (c : SlotContract T) : SlotContract T :=
  { c with
    trackingContracts := c.trackingContracts.take c.keepRevisions
    packedTrackingContracts := c.packedTrackingContracts.take c.keepRevisions }

/-- A contract in front of the others, with its packed transaction. -/
def unshift (c : SlotContract T) (tc : T) : SlotContract T :=
  { c with
    trackingContracts := tc :: c.trackingContracts
    packedTrackingContracts := contracts.getPackedTransaction tc :: c.packedTrackingContracts }

/-- `putTrackingContract(c)`. -/
def putTrackingContract (tc : T) (c : SlotContract T) : SlotContract T := (c.unshift contracts tc).updateTrackingContracts

/-- `setKeepRevisions(keepRevisions)`. -/
def setKeepRevisions (keepRevisions : ℤ) (c : SlotContract T) : Except Failure (SlotContract T) :=
  if keepRevisions < 1 then .error (.illegalArgument "Keep revisions should be positive")
  else .ok { c with data := { c.data with keep_revisions := some keepRevisions.toNat }
                    keepRevisions := keepRevisions.toNat }.updateTrackingContracts

/-- `saveTrackingContractsToState()`. -/
def saveTrackingContractsToState (c : SlotContract T) : SlotContract T :=
  let forState := c.trackingContracts.foldl
    (fun o tc => o.set (contracts.id tc).base64 (some (contracts.getPackedTransaction tc))) OrderedMap.empty
  { c with data := { c.data with tracking_contract := some forState } }

/-- The loop of `deserializeForSlot` over the state. -/
def readContracts : List (String × Option (List UInt8)) → Except Failure (List T)
  | [] => .ok []
  | (_, none) :: es => readContracts es
  | (_, some packed) :: es => do
      let tc ← (contracts.fromPackedTransaction packed).mapError .illegalArgument
      return tc :: (← readContracts es)

/-- `deserializeForSlot(deserializer)`: the contracts by their revisions, the last one in front. -/
def deserializeForSlot (c : SlotContract T) : Except Failure (SlotContract T) :=
  match c.data.tracking_contract with
  | none => .error (.thrown (.readsUndefined "Object.keys(trackingHashesAsBase64)"))
  | some trackingHashesAsBase64 => do
      let read ← readContracts contracts (objectEntries trackingHashesAsBase64)
      let sorted := read.mergeSort fun a b => contracts.revision a ≤ contracts.revision b
      let kept : SlotContract T :=
        { c with
          keepRevisions := if 0 < c.data.keep_revisions.getD 0 then c.data.keep_revisions.getD 0 else c.keepRevisions }
      return sorted.foldl (unshift contracts) kept

/-- `calcExpiresAt()`, with what was prepaid and spent. Where nothing is tracked the date is not used. -/
def calcExpiresAt (s : Slot.Storing) (c : SlotContract T) : ℤ :=
  let storingBytes := (c.packedTrackingContracts.map List.length).sum
  let days := (s.prepaidKilobytesForDays - s.spentKDs) * 1024 / storingBytes
  let milliseconds := days * 24 * 3600 * 1000
  Date.clearMilliseconds (Date.ofMilliseconds (s.spentKDsTime + milliseconds))

end SlotContract

/-! ### Its environment -/

/-- `(await storage.getContract()).id`, where `Contract` is declared or not. -/
def storageId (declared : Bool) (packedContract : List UInt8) : Except Failure HashId :=
  if declared then
    match contracts.fromPackedTransaction packedContract with
    | .ok trackingContract => .ok (contracts.id trackingContract)
    | .error message => .error (.illegalArgument ("NContractStorage unable to unpack TP " ++ message))
  else .error (.illegalArgument "NContractStorage unable to unpack TP Contract is not defined")

/-- `sub.getContractId()` as a key of a `GenericSet`: for a chain it is null, which has no `stringId`. -/
def subscriptionId : HashId × Bool → Except Failure HashId
  | (hashId, false) => .ok hashId
  | (_, true) => .error (.thrown (.readsNull "stringId"))

/-- `newContracts`: the tracking contracts by id. -/
def newContracts (c : SlotContract T) : OrderedMap HashId T :=
  c.trackingContracts.foldl (fun m tc => m.set (contracts.id tc) tc) .empty

/-- `updateSubscriptions(me)`, with what `calculatePrepaidKilobytesForDays(false)` sets. -/
def updateSubscriptions (declared : Bool) (s : Slot.Storing) (c : SlotContract T) (me : NMutableEnvironment C) :
    Except Failure (NMutableEnvironment C) := do
  let newExpires := c.calcExpiresAt s
  let new := newContracts contracts c
  let (ids, storages) ← Rows.Session.refresh (storageId contracts declared) newExpires me.storages.old new.keys me.storages
  let added := (new.entries.filter fun e => e.1 ∈ ids).map fun e => contracts.getPackedTransaction e.2
  let storages := added.foldl (fun s packed => s.create packed newExpires) storages
  let (newContractIds, subscriptions) ←
    Rows.Session.refresh subscriptionId newExpires me.subscriptions.old new.keys me.subscriptions
  let subscriptions := newContractIds.foldl (fun s id => s.create (id, false) newExpires) subscriptions
  return { me with storages, subscriptions }

/-- What `save` makes of the immutable environment, where it goes through; a slot changes no names. -/
def saved (me : NMutableEnvironment C) (t : Tables) (ime : NImmutableEnvironment C) : NImmutableEnvironment C :=
  { ime with
    kvStore := me.kvStore
    subscriptions := me.subscriptions.left t.contractSubscription.nextId
    storages := me.storages.left t.contractStorage.nextId }

/-! ### Runs -/

/-- A slot with its environment, the tables of the ledger, and all contracts that were put, the last one in front. -/
structure State (T C : Type) where
  slot : SlotContract T
  ime : NImmutableEnvironment C
  tables : Tables
  put : List T

/-- What is done with a slot. -/
inductive Action (T : Type) where
  | putTrackingContract (tc : T)
  | setKeepRevisions (keepRevisions : ℤ)
  | updateSubscriptions (s : Slot.Storing)

/-- `updateSubscriptions` on a mutable copy of the environment, and `save`. -/
def updateAndSave (packs : Packs C) (declared : Bool) (storing : Slot.Storing) (s : State T C) :
    Except Failure (State T C) := do
  let me ← updateSubscriptions contracts declared storing s.slot s.ime.getMutable
  let tables ← (me.save packs s.tables).mapError .thrown
  return { s with ime := saved me s.tables s.ime, tables }

/-- The state after an action that does not throw. -/
def step (packs : Packs C) (declared : Bool) (s : State T C) : Action T → Option (State T C)
  | .putTrackingContract tc =>
      some { s with slot := s.slot.putTrackingContract contracts tc, put := tc :: s.put }
  | .setKeepRevisions keepRevisions =>
      (s.slot.setKeepRevisions keepRevisions).toOption.map fun slot => { s with slot }
  | .updateSubscriptions storing => (updateAndSave contracts packs declared storing s).toOption

/-! ### What is promised -/

/-- The slot is a new one, or read from the state of one. -/
def SlotContract.Loaded (c : SlotContract T) : Prop :=
  ∃ data, c = .new data ∨ (SlotContract.new data).deserializeForSlot contracts = .ok c

/-- The packed transactions are those of the tracking contracts, one by one. -/
def SlotContract.Parallel (c : SlotContract T) : Prop :=
  c.packedTrackingContracts = c.trackingContracts.map contracts.getPackedTransaction

/-- No more is tracked than is to be kept. -/
def SlotContract.Within (c : SlotContract T) : Prop := c.trackingContracts.length ≤ c.keepRevisions

/-- The action cuts what is tracked. -/
def Action.Cuts : Action T → Prop
  | .putTrackingContract _ | .setKeepRevisions _ => True
  | .updateSubscriptions _ => False

/-- The ids of what is tracked. -/
def SlotContract.ids (c : SlotContract T) : List HashId := c.trackingContracts.map contracts.id

/-- The environment has one storage and one subscription for each id and none else, all with this expiry. -/
structure Serves (declared : Bool) (newExpires : ℤ) (ids : List HashId) (ime : NImmutableEnvironment C) : Prop where
  storages : Rows.OnePer (storageId contracts declared) newExpires ime.storages ids
  subscriptions : Rows.OnePer subscriptionId newExpires ime.subscriptions ids

/-- After `updateSubscriptions` and `save` the environment has what the slot tracks. -/
def Follows (packs : Packs C) (declared : Bool) (storing : Slot.Storing) (s : State T C) : Prop :=
  ∃ s', step contracts packs declared s (.updateSubscriptions storing) = some s' ∧
    Serves contracts declared (s.slot.calcExpiresAt storing) (s.slot.ids contracts) s'.ime

/-- The condition: every storage there can be opened, each tracking contract has one already, and no subscription is
    on a chain. -/
structure Storable (declared : Bool) (s : State T C) : Prop where
  opened : ∀ o ∈ s.ime.storages, ∃ id, storageId contracts declared o.payload = .ok id
  stored : ∀ id ∈ s.slot.ids contracts, ∃ o ∈ s.ime.storages, storageId contracts declared o.payload = .ok id
  noChain : ∀ o ∈ s.ime.subscriptions, o.payload.2 = false

/-- What is tracked comes back from the state. -/
def SlotContract.ReadBack (c : SlotContract T) : Prop :=
  ∃ c', (SlotContract.new (c.saveTrackingContractsToState contracts).data).deserializeForSlot contracts = .ok c' ∧
    c'.trackingContracts = c.trackingContracts

/-- A packed transaction opens as its contract, and contracts of one id are of one revision. Not of a contract that
    is a slot itself, whose binary never opens, nor of one that itself or an item of its pack cannot be loaded. -/
structure Contracts.Lossless : Prop where
  opens : ∀ tc, contracts.fromPackedTransaction (contracts.getPackedTransaction tc) = .ok tc
  sameId : ∀ a b, contracts.id a = contracts.id b → contracts.revision a = contracts.revision b

variable {contracts}

/-! ### What is tracked -/

namespace SlotContract
variable {c : SlotContract T}

theorem parallel_updateTrackingContracts (h : c.Parallel contracts) : c.updateTrackingContracts.Parallel contracts := by
  rw [Parallel, updateTrackingContracts, h, List.map_take]

theorem parallel_unshift (h : c.Parallel contracts) (tc : T) : (c.unshift contracts tc).Parallel contracts := by
  rw [Parallel, unshift, h, List.map_cons]

theorem parallel_foldl (h : c.Parallel contracts) (tcs : List T) :
    (tcs.foldl (unshift contracts) c).Parallel contracts := by
  induction tcs generalizing c with
  | nil => exact h
  | cons tc tcs ih => exact ih (parallel_unshift h tc)

theorem foldl_unshift (tcs : List T) (c : SlotContract T) :
    (tcs.foldl (unshift contracts) c).trackingContracts = tcs.reverse ++ c.trackingContracts := by
  induction tcs generalizing c with
  | nil => rfl
  | cons tc tcs ih =>
    rw [List.foldl_cons, ih, unshift, List.reverse_cons, List.append_assoc]
    rfl

theorem Loaded.parallel (h : c.Loaded contracts) : c.Parallel contracts := by
  obtain ⟨data, rfl | h⟩ := h
  · rfl
  · unfold deserializeForSlot at h
    split at h
    · cases h
    · obtain ⟨read, -, h⟩ := Except.bind_eq_ok.mp h
      obtain rfl := Except.ok.inj h
      refine parallel_foldl ?_ _
      rfl

theorem setKeepRevisions_ok {keepRevisions : ℤ} {c' : SlotContract T} (h : c.setKeepRevisions keepRevisions = .ok c') :
    ∃ c₁ : SlotContract T, c₁.trackingContracts = c.trackingContracts ∧
      c₁.packedTrackingContracts = c.packedTrackingContracts ∧ c' = c₁.updateTrackingContracts := by
  unfold setKeepRevisions at h
  split at h
  · cases h
  · refine ⟨_, ?_, ?_, (Except.ok.inj h).symm⟩
    · rfl
    · rfl

theorem within_updateTrackingContracts (c : SlotContract T) : c.updateTrackingContracts.Within :=
  List.length_take_le _ _

end SlotContract

/-! ### `updateSubscriptions` and `save` -/

theorem mem_newContracts {c : SlotContract T} {id : HashId} :
    id ∈ (newContracts contracts c).keys ↔ id ∈ c.ids contracts := by
  have hfold : ∀ (tcs : List T) (m : OrderedMap HashId T),
      (tcs.foldl (fun m tc => m.set (contracts.id tc) tc) m).has id = true ↔ id ∈ tcs.map contracts.id ∨ m.has id = true := by
    intro tcs
    induction tcs with
    | nil => simp
    | cons tc tcs ih =>
      intro m
      rw [List.foldl_cons, ih, OrderedMap.has_set, List.map_cons, List.mem_cons]
      tauto
  rw [← OrderedMap.has_iff_mem, newContracts, hfold, SlotContract.ids]
  simp [OrderedMap.has]

theorem created_eq_nil_iff {m : OrderedMap HashId T} {ids : List HashId} (hids : ∀ id ∈ ids, id ∈ m.keys) :
    (m.entries.filter fun e => e.1 ∈ ids).map (fun e => contracts.getPackedTransaction e.2) = [] ↔ ids = [] := by
  rw [List.map_eq_nil_iff, List.filter_eq_nil_iff]
  constructor
  · intro h
    rw [List.eq_nil_iff_forall_not_mem]
    intro id hid
    obtain ⟨e, he, rfl⟩ := List.mem_map.mp (hids id hid)
    exact h e he (by simpa using hid)
  · rintro rfl e he
    simp

section
variable {packs : Packs C} {declared : Bool} {storing : Slot.Storing} {s : State T C}

/-- A mutable copy after the two loops, where no storage was to be created. -/
def refreshed (newExpires : ℤ) (ime : NImmutableEnvironment C) (storages : Rows.Session (List UInt8))
    (newIds : List HashId) (subscriptions : Rows.Session (HashId × Bool)) : NMutableEnvironment C :=
  { ime.getMutable with
    storages
    subscriptions := newIds.foldl (fun session id => session.create (id, false) newExpires) subscriptions }

/-- The ids of the storages and subscriptions of a stored environment. -/
theorem nodup_of_storedIn {t : Tables} {ime : NImmutableEnvironment C} (h : StoredIn t ime) :
    (ime.storages.map Rows.Object.id).Nodup ∧ (ime.subscriptions.map Rows.Object.id).Nodup := by
  have hk := kept_getMutable h
  exact ⟨Rows.Session.nodup_of_tracks hk.storages, Rows.Session.nodup_of_tracks hk.subscriptions⟩

/-- What the two loops make of a mutable copy. -/
theorem updateSubscriptions_ok {me : NMutableEnvironment C}
    (h : updateSubscriptions contracts declared storing s.slot s.ime.getMutable = .ok me) :
    ∃ ids storages newIds subscriptions,
      Rows.Session.refresh (storageId contracts declared) (s.slot.calcExpiresAt storing) s.ime.storages
        (newContracts contracts s.slot).keys (.start s.ime.storages) = .ok (ids, storages) ∧
      Rows.Session.refresh subscriptionId (s.slot.calcExpiresAt storing) s.ime.subscriptions
        (newContracts contracts s.slot).keys (.start s.ime.subscriptions) = .ok (newIds, subscriptions) ∧
      me = { s.ime.getMutable with
        storages := (((newContracts contracts s.slot).entries.filter fun e => e.1 ∈ ids).map fun e =>
          contracts.getPackedTransaction e.2).foldl
            (fun session packed => session.create packed (s.slot.calcExpiresAt storing)) storages
        subscriptions := newIds.foldl
          (fun session id => session.create (id, false) (s.slot.calcExpiresAt storing)) subscriptions } := by
  obtain ⟨⟨ids, storages⟩, hstorages, h⟩ := Except.bind_eq_ok.mp h
  obtain ⟨⟨newIds, subscriptions⟩, hsubscriptions, h⟩ := Except.bind_eq_ok.mp h
  exact ⟨ids, storages, newIds, subscriptions, hstorages, hsubscriptions, (Except.ok.inj h).symm⟩

/-- A save that adds neither a storage nor a name goes through. -/
theorem save_ok {me : NMutableEnvironment C} (hadded : me.storages.added = []) (hadd : me.nameRecordsToAdd = [])
    (t : Tables) : ∃ t', me.save packs t = .ok t' := by
  have hwrite : ∀ names, ∃ names', (me.nameChanges.write names).mapError Thrown.js = .ok names' := by
    intro names
    rw [NameChanges.write, show me.nameChanges.nameRecordsToAdd = [] from hadd]
    exact ⟨_, rfl⟩
  have hstorages : ∀ t, ∃ t', me.saveStorages t = .ok t' := fun t =>
    ⟨_, by rw [NMutableEnvironment.saveStorages, if_neg (not_not.mpr hadded)]⟩
  unfold NMutableEnvironment.save
  obtain ⟨t₁, ht₁⟩ := hstorages (me.saveSubscriptions (t.updateEnvironment (me.row packs)))
  obtain ⟨names, hnames⟩ := hwrite t₁.clearExpiredStorageContractBinaries.names
  refine ⟨me.saveFollowerService { t₁.clearExpiredStorageContractBinaries with names }, ?_⟩
  rw [ht₁]
  change ((me.nameChanges.write t₁.clearExpiredStorageContractBinaries.names).mapError Thrown.js).bind _ = _
  rw [hnames]
  rfl

/-- Times that are a whole second stay as they are in a row. -/
theorem whole_eq {ε K β : Type} [DecidableEq K] {key : β → Except ε K} {e : ℤ} {os : List (Rows.Object β)} {ks : List K}
    (h : Rows.OnePer key (Date.clearMilliseconds e) os ks) : os.map (Rows.Object.whole 1000) = os := by
  obtain ⟨found, hfound, -⟩ := h
  have hcut : Date.clearMilliseconds e / 1000 * 1000 = Date.clearMilliseconds e := by
    unfold Date.clearMilliseconds
    omega
  refine (List.map_congr_left fun o ho => ?_).trans (List.map_id os)
  obtain ⟨k, -, -, hexpires⟩ := Rows.exists_of_forall₂ hfound.flip ho
  rw [Rows.Object.whole, hexpires, hcut, ← hexpires]
  rfl

/-- Where `updateSubscriptions` and `save` go through, the condition held, and the environment has what is tracked,
    in memory as in the ledger. -/
theorem updateAndSave_ok {s' : State T C} (hstored : StoredIn s.tables s.ime)
    (h : updateAndSave contracts packs declared storing s = .ok s') :
    Storable contracts declared s ∧ s'.slot = s.slot ∧ s'.put = s.put ∧ StoredIn s'.tables s'.ime ∧
      Serves contracts declared (s.slot.calcExpiresAt storing) (s.slot.ids contracts) s'.ime := by
  obtain ⟨me, hme, h⟩ := Except.bind_eq_ok.mp h
  obtain ⟨t', hsave, h⟩ := Except.bind_eq_ok.mp h
  obtain rfl := Except.ok.inj h
  replace hsave : me.save packs s.tables = .ok t' := by
    cases hsave' : me.save packs s.tables with
    | ok t =>
      rw [hsave'] at hsave
      exact congrArg _ (Except.ok.inj hsave)
    | error e =>
      rw [hsave'] at hsave
      cases hsave
  obtain ⟨ids, storages, newIds, subscriptions, hstorages, hsubscriptions, hme⟩ := updateSubscriptions_ok hme
  have hs := saved_of_save hsave
  have hkeys := (newContracts contracts s.slot).nodup
  obtain ⟨hnodup, hnodup'⟩ := nodup_of_storedIn hstored
  have hk := kept_getMutable hstored
  have hin : ∀ id ∈ ids, id ∈ (newContracts contracts s.slot).keys := by
    obtain ⟨-, found, -, hperm⟩ := Rows.left_refresh hnodup hkeys hstorages
    exact fun id hid => hperm.mem_iff.mp (List.mem_append_right _ hid)
  -- no storage was added, so each id was found
  obtain rfl : ids = [] := by
    have hadded := hs.noStorage
    rw [hme] at hadded
    dsimp only at hadded
    rw [Rows.foldl_create, List.append_eq_nil_iff, List.map_eq_nil_iff] at hadded
    exact (created_eq_nil_iff hin).mp hadded.2
  obtain rfl : me = refreshed (s.slot.calcExpiresAt storing) s.ime storages newIds subscriptions := by
    rw [hme, refreshed]
    simp
  have hkept : Kept s.tables s.ime.id (refreshed (s.slot.calcExpiresAt storing) s.ime storages newIds subscriptions) := by
    refine ⟨rfl, ?_, Rows.tracks_refresh hk.storages hstorages, hk.followerService⟩
    have htracks := Rows.tracks_refresh hk.subscriptions hsubscriptions
    rw [refreshed, Rows.foldl_create]
    exact htracks
  have hserves : Serves contracts declared (s.slot.calcExpiresAt storing) (s.slot.ids contracts)
      (saved (refreshed (s.slot.calcExpiresAt storing) s.ime storages newIds subscriptions) s.tables s.ime) :=
    ⟨(Rows.onePer_left hnodup hkeys hstorages (fun _ => []) (by simp) _).congr fun _ => mem_newContracts,
      (Rows.onePer_left hnodup' hkeys hsubscriptions (fun id => (id, false)) (fun _ _ => rfl) _).congr
        fun _ => mem_newContracts⟩
  refine ⟨⟨fun o ho => ?_, fun id hid => ?_, fun o ho => ?_⟩, rfl, rfl, ⟨?_, ?_, ?_, ?_, ?_⟩, hserves⟩
  · cases hkey : storageId contracts declared o.payload with
    | ok id => exact ⟨id, rfl⟩
    | error e =>
      obtain ⟨e', he'⟩ := Rows.refresh_error ho hkey _ _
      cases hstorages.symm.trans he'
  · exact (Rows.rest_eq_nil_iff hnodup hkeys hstorages).mp rfl id (mem_newContracts.mpr hid)
  · by_contra hchain
    have hkey : subscriptionId o.payload = .error (.thrown (.readsNull "stringId")) := by
      obtain ⟨_, ⟨hashId, isChain⟩, _⟩ := o
      obtain rfl : isChain = true := by simpa using hchain
      rfl
    obtain ⟨e', he'⟩ := Rows.refresh_error ho hkey _ _
    cases hsubscriptions.symm.trans he'
  · obtain ⟨r, hr, hrid⟩ := hstored.row
    rw [hs.environments]
    exact ⟨_, List.mem_map_of_mem hr, by simp [hrid, NMutableEnvironment.row, refreshed, NImmutableEnvironment.getMutable, saved]⟩
  · exact ((hs.read_subscriptions hkept).trans (whole_eq hserves.subscriptions)).symm
  · exact ((hs.read_storages hkept).trans (whole_eq hserves.storages)).symm
  · exact (hs.read_followerService hkept).symm
  · rw [hs.names]
    simpa [NMutableEnvironment.nameChanges, refreshed, NImmutableEnvironment.getMutable] using hstored.nameIds

/-- Where the condition holds, `updateSubscriptions` and `save` go through. -/
theorem updateAndSave_of_storable (hstored : StoredIn s.tables s.ime) (h : Storable contracts declared s) :
    ∃ s', updateAndSave contracts packs declared storing s = .ok s' := by
  obtain ⟨hnodup, -⟩ := nodup_of_storedIn hstored
  have hkeys := (newContracts contracts s.slot).nodup
  have hsubscription : ∀ o ∈ s.ime.subscriptions, ∃ id, subscriptionId o.payload = .ok id := by
    rintro ⟨_, ⟨hashId, isChain⟩, _⟩ ho
    obtain rfl : isChain = false := h.noChain _ ho
    exact ⟨hashId, rfl⟩
  obtain ⟨⟨ids, storages⟩, hstorages⟩ := Rows.refresh_ok (s.slot.calcExpiresAt storing) h.opened
    (newContracts contracts s.slot).keys (.start s.ime.storages)
  obtain ⟨⟨newIds, subscriptions⟩, hsubscriptions⟩ := Rows.refresh_ok (s.slot.calcExpiresAt storing) hsubscription
    (newContracts contracts s.slot).keys (.start s.ime.subscriptions)
  -- nothing is left to be created, as each tracking contract has its storage
  obtain rfl : ids = [] := (Rows.rest_eq_nil_iff hnodup hkeys hstorages).mpr fun id hid =>
    h.stored id (mem_newContracts.mp hid)
  have hupdate : updateSubscriptions contracts declared storing s.slot s.ime.getMutable =
      .ok (refreshed (s.slot.calcExpiresAt storing) s.ime storages newIds subscriptions) := by
    refine Except.bind_eq_ok.mpr ⟨_, hstorages, Except.bind_eq_ok.mpr ⟨_, hsubscriptions, ?_⟩⟩
    simp [refreshed, pure, Except.pure]
  obtain ⟨t', hsave⟩ := @save_ok _ packs (refreshed (s.slot.calcExpiresAt storing) s.ime storages newIds subscriptions)
    (Rows.left_refresh hnodup hkeys hstorages).1 rfl s.tables
  exact ⟨_, Except.bind_eq_ok.mpr ⟨_, hupdate, Except.bind_eq_ok.mpr ⟨t', by rw [hsave]; rfl, rfl⟩⟩⟩

/-- CODE DEFECT (`updateSubscriptions` and `save`): the environment follows the tracking list exactly where nothing
    has to be added to it, and all storages can be opened. -/
theorem follows_iff_storable (hstored : StoredIn s.tables s.ime) :
    Follows contracts packs declared storing s ↔ Storable contracts declared s := by
  constructor
  · rintro ⟨s', hs', -⟩
    cases h : updateAndSave contracts packs declared storing s with
    | ok s₁ => exact (updateAndSave_ok hstored h).1
    | error e =>
      rw [step, h] at hs'
      cases hs'
  · intro h
    obtain ⟨s', hs'⟩ := @updateAndSave_of_storable _ _ contracts packs declared storing s hstored h
    refine ⟨s', ?_, (updateAndSave_ok hstored hs').2.2.2.2⟩
    rw [step, hs']
    rfl

end

/-! ### The state -/

/-- The entry of a tracking contract in the state. -/
def stateEntry (contracts : Contracts T) (tc : T) : String × Option (List UInt8) :=
  ((contracts.id tc).base64, some (contracts.getPackedTransaction tc))

theorem stateEntry_injective (hlossless : contracts.Lossless) : Function.Injective (stateEntry contracts) := by
  intro a b h
  have hpacked := Option.some.inj (Prod.mk.inj h).2
  have hopen := hlossless.opens a
  rw [hpacked, hlossless.opens b] at hopen
  exact (Except.ok.inj hopen).symm

/-- The state has the tracking contracts where their revisions differ. -/
theorem saved_entries (hlossless : contracts.Lossless) {c : SlotContract T}
    (hrevisions : (c.trackingContracts.map contracts.revision).Nodup) :
    ∃ o, (c.saveTrackingContractsToState contracts).data.tracking_contract = some o ∧
      o.entries = c.trackingContracts.map (stateEntry contracts) := by
  refine ⟨_, rfl, ?_⟩
  have hids : (c.trackingContracts.map fun tc => (contracts.id tc).base64).Nodup := by
    refine List.Nodup.map_on (fun a ha b hb hab => ?_) hrevisions.of_map
    have hid : contracts.id a = contracts.id b := by
      cases hia : contracts.id a
      cases hib : contracts.id b
      rw [hia, hib] at hab
      exact congrArg HashId.mk hab
    exact List.inj_on_of_nodup_map hrevisions ha hb (hlossless.sameId a b hid)
  rw [OrderedMap.entries_foldl _ _ hids (by simp [OrderedMap.keys, OrderedMap.empty])]
  rfl

theorem readContracts_eq (hlossless : contracts.Lossless) {es : List (String × Option (List UInt8))}
    (hes : ∀ e ∈ es, ∃ tc, stateEntry contracts tc = e) :
    ∃ tcs, SlotContract.readContracts contracts es = .ok tcs ∧ tcs.map (stateEntry contracts) = es := by
  induction es with
  | nil => exact ⟨[], rfl, rfl⟩
  | cons e es ih =>
    obtain ⟨tcs, htcs, hmap⟩ := ih fun e he => hes e (List.mem_cons_of_mem _ he)
    obtain ⟨tc, rfl⟩ := hes e (List.mem_cons_self ..)
    refine ⟨tc :: tcs, ?_, by rw [List.map_cons, hmap]⟩
    rw [stateEntry, SlotContract.readContracts, hlossless.opens]
    exact Except.bind_eq_ok.mpr ⟨tc, rfl, Except.bind_eq_ok.mpr ⟨tcs, htcs, rfl⟩⟩

/-- A new slot has what its state says, by revision, the last one in front. -/
theorem deserializeForSlot_new {data : StateData} {o : OrderedMap String (Option (List UInt8))} {tcs : List T}
    (ho : data.tracking_contract = some o)
    (htcs : SlotContract.readContracts contracts (objectEntries o) = .ok tcs) :
    ∃ c', (SlotContract.new data).deserializeForSlot contracts = .ok c' ∧ c'.trackingContracts =
      (tcs.mergeSort fun a b => contracts.revision a ≤ contracts.revision b).reverse := by
  obtain ⟨keep_revisions, tracking_contract⟩ := data
  obtain rfl : tracking_contract = some o := ho
  refine ⟨_, Except.bind_eq_ok.mpr ⟨tcs, htcs, rfl⟩, ?_⟩
  rw [SlotContract.foldl_unshift]
  exact List.append_nil _

/-- What is read is the tracking list by revision, the last one in front. -/
theorem deserialize_saved (hlossless : contracts.Lossless) {c : SlotContract T}
    (hrevisions : (c.trackingContracts.map contracts.revision).Nodup) :
    ∃ c', (SlotContract.new (c.saveTrackingContractsToState contracts).data).deserializeForSlot contracts = .ok c' ∧
      c'.trackingContracts.Perm c.trackingContracts ∧
      c'.trackingContracts.Pairwise fun a b => contracts.revision b ≤ contracts.revision a := by
  obtain ⟨o, ho, hentries⟩ := saved_entries hlossless hrevisions
  have hperm : (objectEntries o).Perm (c.trackingContracts.map (stateEntry contracts)) :=
    hentries ▸ objectEntries_perm o
  obtain ⟨tcs, htcs, hmap⟩ := @readContracts_eq _ _ hlossless (objectEntries o) fun e he =>
    (List.mem_map.mp (hperm.mem_iff.mp he)).imp fun _ h => h.2
  have hread : tcs.Perm c.trackingContracts := by
    rw [← hmap] at hperm
    exact (List.map_perm_map_iff (stateEntry_injective hlossless)).mp hperm
  obtain ⟨c', hc', htracking⟩ := deserializeForSlot_new ho htcs
  refine ⟨c', hc', ?_, ?_⟩
  · rw [htracking]
    exact (List.reverse_perm _).trans ((List.mergeSort_perm _ _).trans hread)
  · rw [htracking, List.pairwise_reverse]
    refine (List.pairwise_mergeSort (fun a b c hab hbc => ?_) (fun a b => ?_) tcs).imp fun h => by simpa using h
    · simp only [decide_eq_true_eq] at hab hbc ⊢
      exact hab.trans hbc
    · simpa using Nat.le_total _ _

/-- What is tracked comes back from the state exactly where the later revisions are in front. -/
theorem readBack_iff (hlossless : contracts.Lossless) {c : SlotContract T}
    (hrevisions : (c.trackingContracts.map contracts.revision).Nodup) :
    c.ReadBack contracts ↔ c.trackingContracts.Pairwise fun a b => contracts.revision b < contracts.revision a := by
  obtain ⟨c', hc', hperm, hsorted⟩ := deserialize_saved hlossless hrevisions
  have hinj := List.inj_on_of_nodup_map hrevisions
  constructor
  · rintro ⟨c₁, hc₁, hsame⟩
    obtain rfl := Except.ok.inj (hc'.symm.trans hc₁)
    rw [hsame] at hsorted
    have hne : c.trackingContracts.Pairwise fun a b => contracts.revision a ≠ contracts.revision b :=
      List.pairwise_map.mp hrevisions
    exact hsorted.imp₂ (fun a b hle hne => lt_of_le_of_ne hle (Ne.symm hne)) hne
  · intro hdescending
    refine ⟨c', hc', List.Perm.eq_of_pairwise (fun a b ha hb hab hba => ?_) hsorted
      (hdescending.imp fun h => h.le) hperm⟩
    exact hinj (hperm.mem_iff.mp ha) hb (Nat.le_antisymm hba hab)

/-! ### Runs of a slot -/

/-- What every action keeps. -/
structure Inv (contracts : Contracts T) (s : State T C) : Prop where
  parallel : s.slot.Parallel contracts
  latest : s.slot.trackingContracts <+: s.put
  stored : StoredIn s.tables s.ime

section
variable {packs : Packs C} {declared : Bool} {s s' : State T C}

theorem inv_step {a : Action T} (h : Inv contracts s) (hs : step contracts packs declared s a = some s') :
    Inv contracts s' ∧ (s'.slot.Within ↔ a.Cuts ∨ s.slot.Within) := by
  cases a with
  | putTrackingContract tc =>
    obtain rfl := Option.some.inj hs
    refine ⟨⟨?_, ?_, h.stored⟩, iff_of_true (SlotContract.within_updateTrackingContracts _) (.inl trivial)⟩
    · exact SlotContract.parallel_updateTrackingContracts (SlotContract.parallel_unshift h.parallel tc)
    · exact (List.take_prefix _ _).trans ((List.prefix_cons_inj tc).mpr h.latest)
  | setKeepRevisions keepRevisions =>
    obtain ⟨slot, hslot, rfl⟩ := Option.map_eq_some_iff.mp hs
    cases hset : s.slot.setKeepRevisions keepRevisions with
    | error e =>
      rw [hset] at hslot
      cases hslot
    | ok c =>
      rw [hset] at hslot
      obtain rfl := Option.some.inj hslot
      obtain ⟨c₁, htracking, hpacked, rfl⟩ := SlotContract.setKeepRevisions_ok hset
      refine ⟨⟨?_, ?_, h.stored⟩, iff_of_true (SlotContract.within_updateTrackingContracts _) (.inl trivial)⟩
      · refine SlotContract.parallel_updateTrackingContracts ?_
        rw [SlotContract.Parallel, hpacked, htracking]
        exact h.parallel
      · refine (List.take_prefix _ _).trans ?_
        rw [htracking]
        exact h.latest
  | updateSubscriptions storing =>
    cases hupdate : updateAndSave contracts packs declared storing s with
    | error e =>
      rw [step, hupdate] at hs
      cases hs
    | ok s₁ =>
      rw [step, hupdate] at hs
      obtain rfl := Option.some.inj hs
      obtain ⟨-, hslot, hput, hstored, -⟩ := updateAndSave_ok h.stored hupdate
      refine ⟨⟨hslot ▸ h.parallel, ?_, hstored⟩, ?_⟩
      · rw [hslot, hput]
        exact h.latest
      · rw [hslot]
        exact (or_iff_right id).symm

theorem inv_run {as : List (Action T)} (h : Inv contracts s) (hrun : Run.run (step contracts packs declared) s as = some s') :
    Inv contracts s' ∧ (s'.slot.Within ↔ s.slot.Within ∨ ∃ a ∈ as, a.Cuts) := by
  induction as generalizing s with
  | nil =>
    obtain rfl := Option.some.inj hrun
    exact ⟨h, by simp⟩
  | cons a as ih =>
    obtain ⟨s₁, hs₁, hrun⟩ := Run.run_cons.mp hrun
    obtain ⟨hinv, hwithin⟩ := inv_step h hs₁
    obtain ⟨hinv', hwithin'⟩ := ih hinv hrun
    refine ⟨hinv', hwithin'.trans ?_⟩
    rw [hwithin]
    simp only [List.mem_cons, exists_eq_or_imp]
    rw [or_assoc, or_left_comm]

end

/-- CODE DEFECT (storages of a slot): in every run the packed transactions are those of the tracking contracts, which
    are the last ones that were put, and no more than are to be kept once anything was cut. The environment follows
    them exactly where nothing is to be added to it, as no save that adds a storage goes through, and where all of
    its storages can be opened. What is tracked comes back from the state exactly in the order of the revisions. -/
theorem storages_iff (contracts : Contracts T) (hlossless : contracts.Lossless) (packs : Packs C) (declared : Bool)
    (slot : SlotContract T) (hloaded : slot.Loaded contracts) (t : Tables) (ime : NImmutableEnvironment C)
    (hstored : StoredIn t ime) (as : List (Action T)) (s : State T C)
    (hrun : Run.run (step contracts packs declared) ⟨slot, ime, t, slot.trackingContracts⟩ as = some s) :
    s.slot.Parallel contracts ∧ s.slot.trackingContracts <+: s.put ∧
    (s.slot.Within ↔ slot.Within ∨ ∃ a ∈ as, a.Cuts) ∧
    (∀ storing, Follows contracts packs declared storing s ↔ Storable contracts declared s) ∧
    ((s.slot.trackingContracts.map contracts.revision).Nodup → (s.slot.ReadBack contracts ↔
      s.slot.trackingContracts.Pairwise fun a b => contracts.revision b < contracts.revision a)) := by
  obtain ⟨hinv, hwithin⟩ := inv_run ⟨hloaded.parallel, List.prefix_rfl, hstored⟩ hrun
  exact ⟨hinv.parallel, hinv.latest, hwithin, fun storing => follows_iff_storable hinv.stored, readBack_iff hlossless⟩

/-- Two contracts. -/
def twoContracts : Contracts Bool where
  id b := if b then ⟨"QkI="⟩ else ⟨"QUE="⟩
  revision b := if b then 2 else 1
  getPackedTransaction b := if b then [2] else [1]
  fromPackedTransaction packed := if packed = [2] then .ok true else if packed = [1] then .ok false else .error "no pack"

theorem twoContracts_lossless : twoContracts.Lossless :=
  ⟨by decide, by decide⟩

/-- A table without rows. -/
def noRows (α : Type) : Rows.Table α :=
  ⟨[], 1, List.nodup_nil, List.forall_mem_nil _, List.forall_mem_nil _, Nat.one_pos⟩

/-- Tables with the environment of a slot, which has these storages. -/
def slotTables (contractStorage : Rows.Table (HashId × HashId)) : Tables where
  environments := [⟨1, "SLOT1", ⟨"c2xvdA=="⟩, [7], [1]⟩]
  contractSubscription := noRows _
  contractStorage := contractStorage
  contractBinary := [⟨⟨"QUE="⟩, [1]⟩]
  followerEnvironments _ := none
  names := ⟨[], [], 1, 1⟩

/-- The environment of these. -/
def slotEnvironment (contractStorage : Rows.Table (HashId × HashId)) : NImmutableEnvironment HashId where
  id := 1
  contract := ⟨"c2xvdA=="⟩
  kvStore := []
  subscriptions := []
  storages := (slotTables contractStorage).storagesOf 1
  nameRecords := []
  followerService := none

theorem slotEnvironment_stored (contractStorage : Rows.Table (HashId × HashId)) :
    StoredIn (slotTables contractStorage) (slotEnvironment contractStorage) :=
  ⟨⟨_, List.mem_singleton_self _, rfl⟩, rfl, rfl, rfl, List.nodup_nil⟩

/-- A slot that is new. -/
def newSlot : SlotContract Bool := .new ⟨none, none⟩

/-- A slot that tracks the contract which its environment stores is followed. -/
theorem storages_stored : ∃ s,
    Run.run (step twoContracts emptyStorePacks true)
      ⟨newSlot, slotEnvironment ((noRows _).insert 1 1600000000 (⟨"QUE="⟩, ⟨"b3JpZ2lu"⟩)),
        slotTables ((noRows _).insert 1 1600000000 (⟨"QUE="⟩, ⟨"b3JpZ2lu"⟩)), []⟩
      [.putTrackingContract false] = some s ∧
    s.slot.Parallel twoContracts ∧ s.slot.Within ∧ s.slot.ReadBack twoContracts ∧
    ∀ storing, Follows twoContracts emptyStorePacks true storing s := by
  refine ⟨_, rfl, ?_⟩
  obtain ⟨hparallel, -, hwithin, hfollows, hread⟩ := storages_iff twoContracts twoContracts_lossless emptyStorePacks true
    newSlot ⟨_, .inl rfl⟩ _ _ (slotEnvironment_stored ((noRows _).insert 1 1600000000 (⟨"QUE="⟩, ⟨"b3JpZ2lu"⟩)))
    [.putTrackingContract false] _ rfl
  refine ⟨hparallel, hwithin.mpr (.inl (Nat.zero_le _)), (hread (List.nodup_singleton _)).mpr (List.pairwise_singleton _ _),
    fun storing => (hfollows storing).mpr ⟨?_, ?_, ?_⟩⟩
  · rintro o ho
    obtain rfl := List.mem_singleton.mp ho
    exact ⟨⟨"QUE="⟩, rfl⟩
  · rintro id hid
    obtain rfl := List.mem_singleton.mp hid
    exact ⟨_, List.mem_singleton_self _, rfl⟩
  · rintro o ⟨⟩

/-- A contract is put into a new slot, and its environment does not follow: the save that adds a storage fails. -/
theorem storage_not_added : Run.run (step twoContracts emptyStorePacks true)
      ⟨newSlot, slotEnvironment (noRows _), slotTables (noRows _), []⟩ [.putTrackingContract false] =
        some ⟨newSlot.putTrackingContract twoContracts false, slotEnvironment (noRows _), slotTables (noRows _), [false]⟩ ∧
    ¬ Follows twoContracts emptyStorePacks true ⟨100, 0, 1600000000000⟩
      ⟨newSlot.putTrackingContract twoContracts false, slotEnvironment (noRows _), slotTables (noRows _), [false]⟩ := by
  refine ⟨rfl, ?_⟩
  rw [follows_iff_storable (slotEnvironment_stored _)]
  intro h
  obtain ⟨o, ho, -⟩ := h.stored ⟨"QUE="⟩ (List.mem_singleton_self _)
  cases ho

end Universa.Services.SlotStorages
