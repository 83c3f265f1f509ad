import Universa.Node.CommitTree

/-! `Ledger.arrayFindOrCreate` for any state and lock, with the cache of the ledger beside its table. The
    function asks the table only: one insert of all ids, one select of them, and a sort that brings each
    record to the place of its id. The two queries answer. -/

namespace Universa.Node.ArrayFindOrCreate
open CommitTree

variable {H : Type} [DecidableEq H]

/-- The table `ledger`, where a row is of its hash, and `cachedRecords`. -/
structure Ledger (H : Type) where
  rows : H → Option (StateRecord H)
  keyed : ∀ id r, rows id = some r → r.id = id
  cachedRecords : H → Option (StateRecord H)

/-- What the two queries bring in: the times of a new row, its id, and the order in which the rows of some
    hashes come. -/
structure Queries (H : Type) where
  createdAt : ℤ
  expiresAt : H → ℤ
  recordId : H → ℕ
  order : List H → List H
  order_perm : ∀ ids, (order ids).Perm ids

/-- The row that the insert makes of an id. -/
def Queries.newRecord (q : Queries H) (newState : ItemState) (lockedById : ℕ) (id : H) : StateRecord H where
  recordId := q.recordId id
  lockedByRecordId := lockedById
  id := id
  state := newState
  createdAt := q.createdAt
  expiresAt := q.expiresAt id
  isJustCreated := false

namespace Ledger

/-- One tuple of `INSERT … ON CONFLICT (hash) DO NOTHING`. -/
def insertRow (q : Queries H) (newState : ItemState) (lockedById : ℕ) (s : Ledger H) (id : H) : Ledger H :=
  match h : s.rows id with
  | some _ => s
  | none =>
      { s with
        rows := Function.update s.rows id (some (q.newRecord newState lockedById id))
        keyed := by
          intro id' r hr
          by_cases hid : id' = id
          · subst hid
            rw [Function.update_self] at hr
            exact (Option.some.inj hr) ▸ rfl
          · rw [Function.update_of_ne hid] at hr
            exact s.keyed id' r hr }

/-- `SELECT * FROM ledger WHERE hash IN (…) LIMIT …`: a hash that is asked twice has one row. -/
def select (q : Queries H) (ids : List H) (s : Ledger H) : List (StateRecord H) :=
  ((q.order ids.dedup).filterMap s.rows).take ids.length

/-- `arrayFindOrCreate(itemIds, newState, locked_by_id)`. -/
def arrayFindOrCreate (q : Queries H) (itemIds : List H) (newState : ItemState) (lockedById : ℕ)
    (s : Ledger H) : List (StateRecord H) × Ledger H :=
  if itemIds = [] then ([], s)
  else
    let s := itemIds.foldl (insertRow q newState lockedById) s
    (CommitState.sortRecords itemIds (s.select q itemIds), s)

/-! ### The insert -/

variable (q : Queries H) (newState : ItemState) (lockedById : ℕ) (s : Ledger H)

/-- The row of an id, or the one that the insert makes. -/
def found (id : H) : StateRecord H := (s.rows id).getD (q.newRecord newState lockedById id)

omit [DecidableEq H] in
@[simp] theorem found_id (id : H) : (s.found q newState lockedById id).id = id := by
  cases h : s.rows id with
  | none => simp [found, h, Queries.newRecord]
  | some r => simp [found, h, s.keyed id r h]

theorem insertRow_rows (id id' : H) :
    (insertRow q newState lockedById s id).rows id' =
      if id' = id then some (s.found q newState lockedById id) else s.rows id' := by
  rw [insertRow]
  split
  · rename_i r h
    split_ifs with hid
    · rw [hid, found, h, Option.getD_some]
    · rfl
  · rename_i h
    split_ifs with hid
    · have hfound : s.found q newState lockedById id = q.newRecord newState lockedById id := by
        rw [found, h, Option.getD_none]
      rw [hid, hfound]
      exact Function.update_self ..
    · exact Function.update_of_ne hid ..

theorem insertRow_cachedRecords (id : H) :
    (insertRow q newState lockedById s id).cachedRecords = s.cachedRecords := by
  rw [insertRow]
  split <;> rfl

theorem insertRow_found (id id' : H) :
    (insertRow q newState lockedById s id).found q newState lockedById id' =
      s.found q newState lockedById id' := by
  rw [found, insertRow_rows]
  split_ifs with hid
  · rw [hid, Option.getD_some]
  · rfl

/-- The table after the insert: each of the ids has its row, and no other row is touched. -/
theorem insert_rows (ids : List H) (s : Ledger H) (id : H) :
    (ids.foldl (insertRow q newState lockedById) s).rows id =
      if id ∈ ids then some (s.found q newState lockedById id) else s.rows id := by
  induction ids generalizing s with
  | nil => simp
  | cons id' ids ih =>
      rw [List.foldl_cons, ih, insertRow_found, insertRow_rows]
      by_cases hid : id = id'
      · simp [hid]
      · simp [hid]

theorem insert_cachedRecords (ids : List H) (s : Ledger H) :
    (ids.foldl (insertRow q newState lockedById) s).cachedRecords = s.cachedRecords := by
  induction ids generalizing s with
  | nil => rfl
  | cons id ids ih => rw [List.foldl_cons, ih, insertRow_cachedRecords]

/-! ### The select and the sort -/

/-- The rows of distinct ids, as the select brings them. -/
theorem select_insert {ids : List H} (hnodup : ids.Nodup) :
    (ids.foldl (insertRow q newState lockedById) s).select q ids =
      (q.order ids).map (s.found q newState lockedById) := by
  have hrows : ∀ id ∈ q.order ids, (ids.foldl (insertRow q newState lockedById) s).rows id =
      some (s.found q newState lockedById id) := by
    intro id hid
    rw [insert_rows, if_pos ((q.order_perm ids).mem_iff.mp hid)]
  rw [select, hnodup.dedup, List.filterMap_congr hrows, List.filterMap_eq_map', List.take_of_length_le]
  exact Nat.le_of_eq ((List.length_map _).trans (q.order_perm ids).length_eq)

/-- The records of distinct ids come back by place. -/
theorem arrayFindOrCreate_fst {ids : List H} (hnodup : ids.Nodup) :
    (s.arrayFindOrCreate q ids newState lockedById).1 = ids.map (s.found q newState lockedById) := by
  rw [arrayFindOrCreate]
  split_ifs with hnil
  · rw [hnil, List.map_nil]
  · dsimp only
    rw [select_insert q newState lockedById s hnodup]
    exact CommitTree.CommitState.sortRecords_map (s.found_id q newState lockedById) hnodup
      (q.order_perm ids)

theorem arrayFindOrCreate_snd (ids : List H) :
    (s.arrayFindOrCreate q ids newState lockedById).2 =
      ids.foldl (insertRow q newState lockedById) s := by
  rw [arrayFindOrCreate]
  split_ifs with hnil
  · rw [hnil, List.foldl_nil]
  · rfl

/-- What a call makes of distinct ids: the records have the places of the ids, each is the row of its id
    where the table had one and else a new one, and the table has them all. -/
structure Placed (ids : List H) (rs : List (StateRecord H)) (s' : Ledger H) : Prop where
  length : rs.length = ids.length
  id : ∀ (i : ℕ) (id : H), ids[i]? = some id → ∃ r, rs[i]? = some r ∧ r.id = id
  existing : ∀ (i : ℕ) (id : H) (old : StateRecord H), ids[i]? = some id → s.rows id = some old →
    rs[i]? = some old
  created : ∀ (i : ℕ) (id : H), ids[i]? = some id → s.rows id = none →
    ∃ r, rs[i]? = some r ∧ r.state = newState ∧ r.lockedByRecordId = lockedById ∧
      r.recordId = q.recordId id
  stored : ∀ r ∈ rs, s'.rows r.id = some r
  others : ∀ id, id ∉ ids ∨ (s.rows id).isSome → s'.rows id = s.rows id
  cache : s'.cachedRecords = s.cachedRecords

/-- Distinct ids are placed. -/
theorem placed {ids : List H} (hnodup : ids.Nodup) :
    s.Placed q newState lockedById ids (s.arrayFindOrCreate q ids newState lockedById).1
      (s.arrayFindOrCreate q ids newState lockedById).2 := by
  rw [arrayFindOrCreate_fst q newState lockedById s hnodup, arrayFindOrCreate_snd]
  have hplace (i : ℕ) (id : H) (hid : ids[i]? = some id) :
      (ids.map (s.found q newState lockedById))[i]? = some (s.found q newState lockedById id) := by
    rw [List.getElem?_map, hid, Option.map_some]
  exact
    { length := List.length_map _
      id := fun i id hid => ⟨_, hplace i id hid, s.found_id q newState lockedById id⟩
      existing := by
        intro i id old hid hold
        rw [hplace i id hid, found, hold, Option.getD_some]
      created := by
        intro i id hid hnew
        refine ⟨_, hplace i id hid, ?_⟩
        rw [found, hnew, Option.getD_none]
        exact ⟨rfl, rfl, rfl⟩
      stored := by
        intro r hr
        obtain ⟨id, hid, rfl⟩ := List.mem_map.mp hr
        rw [found_id, insert_rows, if_pos hid]
      others := by
        intro id hid
        rw [insert_rows]
        split_ifs with hmem
        · obtain ⟨old, hold⟩ := Option.isSome_iff_exists.mp (hid.resolve_left (not_not_intro hmem))
          rw [found, hold, Option.getD_some]
        · rfl
      cache := insert_cachedRecords q newState lockedById ids s }

end Ledger

/-! ### The caller -/

section caller

variable (setup : Setup H) (votedNegative : Bool) (root : Item H)

/-- The queries in the transaction that commits a tree of items. -/
def queriesOf (setup : Setup H) : Queries H where
  createdAt := setup.now
  expiresAt id := setup.now + Config.maxElectionsTime * 1000 + setup.random id
  recordId := setup.recordId
  order := setup.order
  order_perm := setup.order_perm

/-- The ledger as the transaction has it. -/
def ledgerOf (s : CommitState H) (cachedRecords : H → Option (StateRecord H)) : Ledger H :=
  ⟨s.records, s.keyed, cachedRecords⟩

/-- The call in `downloadAndCommitNewItemsOf` is the call for pending records without a lock. -/
theorem arrayFindOrCreate_commit (s : CommitState H) (cachedRecords : H → Option (StateRecord H))
    {ids : List H} (hnodup : ids.Nodup) :
    ((ledgerOf s cachedRecords).arrayFindOrCreate (queriesOf setup) ids .PENDING 0).1 =
      (s.arrayFindOrCreate setup ids).1 := by
  rw [Ledger.arrayFindOrCreate_fst _ _ _ _ hnodup, CommitState.arrayFindOrCreate_fst setup s hnodup]
  rfl

/-- New items, each committed with the record of its own id. -/
def commitEach (hashesWithSubscriptions : List H) (record : H → StateRecord H) :
    List (CommitTree.Tree H) → CommitState H → Except CommitError (CommitState H)
  | [], s => .ok s
  | newItem :: newItems, s => do
      let s ← commitNewItem setup votedNegative root hashesWithSubscriptions (record newItem.item.id) newItem.item s
      let s ← downloadAndCommitNewItemsOf setup votedNegative root newItem s
      commitEach hashesWithSubscriptions record newItems s

/-- The loop over the new items with the records by their places. -/
theorem commitNewItems_eq (hashes : List H) (record : H → StateRecord H) (newItems : List (CommitTree.Tree H))
    (s : CommitState H) :
    commitNewItems setup votedNegative root hashes (newItems.map fun newItem => record newItem.item.id)
      newItems s = commitEach setup votedNegative root hashes record newItems s := by
  induction newItems generalizing s with
  | nil => rw [List.map_nil, commitNewItems, commitEach]
  | cons newItem newItems ih =>
      rw [List.map_cons, commitNewItems, commitEach]
      simp only [ih]

end caller

/-- CORRECT (by place): the records of distinct ids come back at their places, found in the table or new,
    and the new items of an item are committed each with the record of its own id, once the set of items with
    subscriptions is made; where that never ends, none is. -/
theorem arrayFindOrCreate_placed (q : Queries H) (newState : ItemState) (lockedById : ℕ) (s : Ledger H)
    (ids : List H) (hnodup : ids.Nodup) :
    s.Placed q newState lockedById ids (s.arrayFindOrCreate q ids newState lockedById).1
      (s.arrayFindOrCreate q ids newState lockedById).2 ∧
    ∀ (setup : Setup H) (votedNegative : Bool) (root item : Item H) (newItems : List (CommitTree.Tree H))
      (revokingItems : List (Item H)) (state : CommitState H),
      newItems.map (fun newItem => newItem.item.id) = ids →
      ∃ record : H → StateRecord H, (∀ id, (record id).id = id) ∧
        (∀ cachedRecords, ((ledgerOf state cachedRecords).arrayFindOrCreate (queriesOf setup) ids
          .PENDING 0).1 = ids.map record) ∧
        downloadAndCommitNewItemsOf setup votedNegative root (.node item newItems revokingItems) state =
          state.getItemsWithSubscriptions (hashesOf newItems) >>= fun hashes =>
            commitEach setup votedNegative root hashes record newItems (state.insert setup ids) := by
  refine ⟨Ledger.placed q newState lockedById s hnodup, ?_⟩
  intro setup votedNegative root item newItems revokingItems state hids
  refine ⟨state.found setup, state.found_id setup, fun cachedRecords => ?_, ?_⟩
  · rw [arrayFindOrCreate_commit setup state cachedRecords hnodup,
      CommitState.arrayFindOrCreate_fst setup state hnodup]
  · rw [downloadAndCommitNewItemsOf, hids]
    dsimp only
    rw [CommitState.arrayFindOrCreate_fst setup state hnodup, CommitState.arrayFindOrCreate_snd, ← hids,
      List.map_map]
    have hloop := fun hashes => commitNewItems_eq setup votedNegative root hashes (state.found setup) newItems
      (state.insert setup (newItems.map fun newItem => newItem.item.id))
    simp only [← hloop]
    rfl

/-- The record of an item that is approved. -/
def approvedOne : StateRecord ℕ where
  recordId := 7
  lockedByRecordId := 0
  id := 1
  state := .APPROVED
  createdAt := 0
  expiresAt := 1000
  isJustCreated := false

/-- Rows that come in the reverse order. -/
def reversed : Queries ℕ where
  createdAt := 0
  expiresAt _ := 900000
  recordId id := 100 + id
  order := List.reverse
  order_perm := List.reverse_perm

/-- The table knows the item 1, and the cache does not. -/
def tableOnly : Ledger ℕ where
  rows := Function.update (fun _ => none) 1 (some approvedOne)
  keyed := by
    intro id r h
    rw [Function.update_apply] at h
    split_ifs at h with hid
    exact hid ▸ Option.some.inj h ▸ rfl
  cachedRecords _ := none

/-- Two ids of which the second is there, in rows that come the other way round. -/
theorem arrayFindOrCreate_placed_two :
    [2, 1].Nodup ∧ (tableOnly.arrayFindOrCreate reversed [2, 1] .LOCKED_FOR_CREATION 5).1.length = 2 ∧
      (tableOnly.arrayFindOrCreate reversed [2, 1] .LOCKED_FOR_CREATION 5).1[1]? = some approvedOne := by
  have hplaced := (arrayFindOrCreate_placed reversed .LOCKED_FOR_CREATION 5 tableOnly [2, 1]
    (by decide)).1
  exact ⟨by decide, hplaced.length, hplaced.existing 1 1 approvedOne rfl rfl⟩

/-- The cache knows the item 1, and the table does not: as after a save in a transaction that was rolled
    back. -/
def cacheOnly : Ledger ℕ where
  rows _ := none
  keyed := nofun
  cachedRecords := Function.update (fun _ => none) 1 (some approvedOne)

/-- The record in the cache is not asked for: a new one is made. -/
theorem arrayFindOrCreate_cacheOnly :
    cacheOnly.cachedRecords 1 = some approvedOne ∧
      (cacheOnly.arrayFindOrCreate reversed [1] .PENDING 0).1 =
        [reversed.newRecord .PENDING 0 1] ∧ reversed.newRecord .PENDING 0 1 ≠ approvedOne := by
  decide

end Universa.Node.ArrayFindOrCreate
