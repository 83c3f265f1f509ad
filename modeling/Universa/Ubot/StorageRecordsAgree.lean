import Universa.Ubot.StorageRecords

/-! Which reads agree with the trusted hash. The hash of a multi storage is that of its records in order of the
    UBot numbers, so records decide the same whatever order the cache or the ledger has them in; a downloaded
    array is returned in the order in which it came. -/

namespace Universa.Ubot.StorageRecords
open Universa.Lib

variable {H V : Type} {c : Codec H V} [DecidableEq H] {actualHash : H} {answers : List Answer}

/-! ### Records in order -/

omit [DecidableEq H] in
theorem sortRecords_perm (rows : List (Row H)) : (sortRecords rows).Perm rows := List.perm_insertionSort _ _

omit [DecidableEq H] in
/-- Records with different numbers have one order. -/
theorem sortRecords_eq_of_perm {rows rows' : List (Row H)} (h : rows.Perm rows')
    (hnodup : (rows.map Row.ubot_number).Nodup) : sortRecords rows = sortRecords rows' := by
  have : Std.Total fun a b : Row H => a.ubot_number ≤ b.ubot_number := ⟨fun a b => le_total _ _⟩
  have : IsTrans (Row H) fun a b => a.ubot_number ≤ b.ubot_number := ⟨fun _ _ _ => le_trans⟩
  refine List.Perm.eq_of_pairwise ?_ (List.pairwise_insertionSort _ rows) (List.pairwise_insertionSort _ rows')
    ((sortRecords_perm rows).trans (h.trans (sortRecords_perm rows').symm))
  intro a b ha hb hab hba
  have ha : a ∈ rows := (sortRecords_perm rows).mem_iff.mp ha
  have hb : b ∈ rows := h.mem_iff.mpr ((sortRecords_perm rows').mem_iff.mp hb)
  exact List.inj_on_of_nodup_map hnodup ha hb (le_antisymm hab hba)

/-- Records that are read as the values, in order, and have the hash. -/
structure Gives (c : Codec H V) (actualHash : H) (rows : List (Row H)) (values : List V) : Prop where
  some : rows ≠ []
  read : ((sortRecords rows).mapM fun r => c.decode r.storage_data) = Option.some values
  hash : c.cortegeId ((sortRecords rows).map Row.hash) = actualHash

omit [DecidableEq H] in
theorem Gives.of_perm {rows rows' : List (Row H)} {values : List V} (h : Gives c actualHash rows values)
    (hperm : rows.Perm rows') (hnodup : (rows.map Row.ubot_number).Nodup) :
      Gives c actualHash rows' values where
  some := fun hnil => h.some (hnil ▸ hperm).eq_nil
  read := sortRecords_eq_of_perm hperm hnodup ▸ h.read
  hash := sortRecords_eq_of_perm hperm hnodup ▸ h.hash

/-- `getRecordsFromMultiStorageByRecordId` finds records with the hash exactly where they give values. -/
theorem getRecords_iff {rows : List (Row H)} {packed : List Bytes} {values : List V} :
    (∃ found, c.getRecords rows = some found ∧
      ∃ f, found.filter (fun r => r.cortegeId = actualHash) = some f ∧ f.packed = packed ∧ f.records = values) ↔
    Gives c actualHash rows values ∧ packed = (sortRecords rows).map Row.storage_data := by
  unfold Codec.getRecords
  constructor
  · rintro ⟨found, hfound, f, hf, rfl, rfl⟩
    split at hfound
    · obtain rfl := Option.some.inj hfound
      cases hf
    next hne =>
      obtain ⟨values, hread, rfl⟩ := Option.map_eq_some_iff.mp hfound
      rw [Option.filter_some] at hf
      split at hf
      next hhash =>
        obtain rfl := Option.some.inj hf
        exact ⟨⟨fun hnil => hne (List.isEmpty_iff.mpr hnil), hread, of_decide_eq_true hhash⟩, rfl⟩
      · cases hf
  · rintro ⟨⟨hne, hread, hhash⟩, rfl⟩
    rw [if_neg fun h => hne (List.isEmpty_iff.mp h)]
    simp only [hread, Option.map_some]
    let f : Records H V :=
      ⟨(sortRecords rows).map Row.storage_data, values, c.cortegeId ((sortRecords rows).map Row.hash)⟩
    refine ⟨some f, rfl, f, ?_, rfl, rfl⟩
    rw [Option.filter_some, if_pos (decide_eq_true hhash)]

/-! ### Downloads -/

/-- The ledger takes all downloaded items. -/
structure Storable (items : List Item) : Prop where
  int : ∀ item ∈ items, -2147483648 ≤ item.ubot_number ∧ item.ubot_number < 2147483648
  nodup : (items.map Item.ubot_number).Nodup

omit [DecidableEq H] in
/-- The loop reads and writes all items. -/
theorem writeItems_iff {items : List Item} : ∀ {ledger ledger' : List (Row H)} {values : List V},
    Codec.writeItems c items ledger = some (values, ledger') ↔
      (items.mapM fun item => c.decode item.result) = some values ∧ Storable items ∧
        (∀ item ∈ items, item.ubot_number ∉ ledger.map Row.ubot_number) ∧
          ledger' = ledger ++ items.map c.row := by
  induction items with
  | nil =>
    intro ledger ledger' values
    simp only [Codec.writeItems, Option.some.injEq, Prod.mk.injEq, List.mapM_nil, Option.pure_def, List.map_nil,
      List.append_nil]
    constructor
    · rintro ⟨rfl, rfl⟩
      exact ⟨rfl, ⟨by simp, List.nodup_nil⟩, by simp, rfl⟩
    · rintro ⟨rfl, -, -, rfl⟩
      exact ⟨rfl, rfl⟩
  | cons item items ih =>
    intro ledger ledger' values
    simp only [Codec.writeItems, writeToMultiStorage, List.mapM_cons, Option.bind_eq_bind,
      Option.bind_eq_some_iff, Option.pure_def, Option.some.injEq, Option.ite_none_right_eq_some,
      Prod.mk.injEq, Prod.exists]
    constructor
    · rintro ⟨value, hvalue, ledger₁, ⟨hint, rfl⟩, values', ledger₂, hrest, rfl, rfl⟩
      obtain ⟨hread, hstor, hnew, rfl⟩ := ih.mp hrest
      simp only [List.map_append, List.map_singleton, List.mem_append, List.mem_singleton, not_or] at hnew
      have hnodup : ((item :: items).map Item.ubot_number).Nodup := by
        refine List.nodup_cons.mpr ⟨fun hmem => ?_, hstor.nodup⟩
        obtain ⟨i, hi, heq⟩ := List.mem_map.mp hmem
        exact (hnew i hi).2 heq
      exact ⟨⟨value, hvalue, values', hread, rfl⟩,
        ⟨List.forall_mem_cons.mpr ⟨⟨hint.1, hint.2.1⟩, hstor.int⟩, hnodup⟩,
        List.forall_mem_cons.mpr ⟨hint.2.2, fun i hi => (hnew i hi).1⟩, by simp⟩
    · rintro ⟨⟨value, hvalue, values', hread, rfl⟩, hstor, hnew, rfl⟩
      obtain ⟨hint, hints⟩ := List.forall_mem_cons.mp hstor.int
      obtain ⟨hitem, hitems⟩ := List.forall_mem_cons.mp hnew
      obtain ⟨hfresh, hnodup⟩ := List.nodup_cons.mp hstor.nodup
      have hothers : ∀ i ∈ items, i.ubot_number ∉ (ledger ++ [c.row item]).map Row.ubot_number := by
        intro i hi hmem
        simp only [List.map_append, List.map_singleton, List.mem_append, List.mem_singleton] at hmem
        rcases hmem with hmem | heq
        · exact hitems i hi hmem
        · exact hfresh (List.mem_map.mpr ⟨i, hi, heq⟩)
      exact ⟨value, hvalue, _, ⟨⟨hint.1, hint.2, hitem⟩, rfl⟩, values', _,
        ih.mpr ⟨hread, ⟨hints, hnodup⟩, hothers, rfl⟩, rfl, by simp⟩

omit [DecidableEq H] in
/-- Downloaded items with different numbers are cached as they came. -/
theorem cachedRows_cortege {items : List Item} (h : Storable items) :
    c.cachedRows (cortege items) = items.map c.row := by
  have hempty : ∀ item ∈ items, item.ubot_number ∉ (.empty : OrderedMap ℤ Bytes).keys := by
    simp [OrderedMap.keys, OrderedMap.empty]
  have hentries := OrderedMap.entries_foldl Item.ubot_number Item.result h.nodup hempty
  rw [Codec.cachedRows, cortege, hentries]
  simp [OrderedMap.empty, Codec.row]

omit [DecidableEq H] in
theorem rows_downloaded {items : List Item} (h : Storable items) (ledger : List (Row H)) :
    c.rows ⟨some (.cortege (cortege items)), ledger⟩ = some (items.map c.row) :=
  congrArg some (cachedRows_cortege h)

/-! ### Multi storages -/

/-- No records of cache or ledger have the hash. -/
def Lacks (c : Codec H V) (actualHash : H) (s : Store (List (Row H))) : Prop :=
  ∃ rows found, c.rows s = some rows ∧ c.getRecords rows = some found ∧
    found.filter (fun r => r.cortegeId = actualHash) = none

/-- A read that returns a value has it from the records that are here, or from a download. -/
theorem getMultiStorage_iff {s : Store (List (Row H))} {r : Reading (List (Row H)) (List Bytes × List V)}
    {packed : List Bytes} {values : List V} :
    (getMultiStorage c actualHash answers s = some r ∧ r.answer = some (packed, values)) ↔
      (∃ rows, c.rows s = some rows ∧ Gives c actualHash rows values ∧
        r = ⟨some (packed, values), false, s⟩ ∧ packed = (sortRecords rows).map Row.storage_data) ∨
      ∃ items, Lacks c actualHash s ∧
        searchActualStorageResult (c.checkItems actualHash) answers = some (some items) ∧
        (items.mapM fun item => c.decode item.result) = some values ∧ Storable items ∧
        r = ⟨some (packed, values), true, ⟨some (.cortege (cortege items)), items.map c.row⟩⟩ ∧
        packed = items.map Item.result := by
  unfold getMultiStorage
  simp only [Option.bind_eq_bind, Option.bind_eq_some_iff]
  constructor
  · rintro ⟨⟨rows, hrows, found, hfound, h⟩, hanswer⟩
    split at h
    next f hf =>
      obtain rfl := Option.some.inj h
      obtain ⟨rfl, rfl⟩ := Prod.mk.inj (Option.some.inj hanswer)
      obtain ⟨hgives, hpacked⟩ := getRecords_iff.mp ⟨found, hfound, f, hf, rfl, rfl⟩
      exact .inl ⟨rows, hrows, hgives, rfl, hpacked⟩
    next hf =>
      obtain ⟨downloaded, hdownloaded, h⟩ := Option.bind_eq_some_iff.mp h
      split at h
      · obtain rfl := Option.some.inj h
        cases hanswer
      next items =>
        obtain ⟨⟨values', ledger⟩, hwritten, h⟩ := Option.bind_eq_some_iff.mp h
        obtain rfl := Option.some.inj h
        obtain ⟨rfl, rfl⟩ := Prod.mk.inj (Option.some.inj hanswer)
        obtain ⟨hread, hstor, -, rfl⟩ := writeItems_iff.mp hwritten
        exact .inr ⟨items, ⟨rows, found, hrows, hfound, hf⟩, hdownloaded, hread, hstor, rfl, rfl⟩
  · rintro (⟨rows, hrows, hgives, rfl, rfl⟩ |
      ⟨items, ⟨rows, found, hrows, hfound, hf⟩, hsearch, hread, hstor, rfl, rfl⟩)
    · obtain ⟨found, hfound, f, hf, hpacked, hvalues⟩ := getRecords_iff.mpr ⟨hgives, rfl⟩
      refine ⟨⟨rows, hrows, found, hfound, ?_⟩, rfl⟩
      rw [hf, ← hpacked, ← hvalues]
      rfl
    · refine ⟨⟨rows, hrows, found, hfound, ?_⟩, rfl⟩
      have hwritten : Codec.writeItems c items [] = some (values, items.map c.row) :=
        writeItems_iff.mpr ⟨hread, hstor, by simp, rfl⟩
      simp only [hf, hsearch, Option.bind_some, hwritten]
      rfl

/-- Without asking, a read returns the values that the records give. -/
theorem returns_iff {s : Store (List (Row H))} {rows : List (Row H)}
    (hrows : c.rows s = some rows) {values : List V} :
    (∃ r packed, getMultiStorage c actualHash answers s = some r ∧ r.answer = some (packed, values) ∧
      r.asked = false) ↔ Gives c actualHash rows values := by
  constructor
  · rintro ⟨r, packed, hr, hanswer, hasked⟩
    rcases getMultiStorage_iff.mp ⟨hr, hanswer⟩ with ⟨rows', hrows', hgives, -⟩ | ⟨items, -, -, -, -, rfl, -⟩
    · obtain rfl := Option.some.inj (hrows.symm.trans hrows')
      exact hgives
    · cases hasked
  · intro hgives
    obtain ⟨hr, hanswer⟩ := getMultiStorage_iff.mpr (.inl ⟨rows, hrows, hgives, rfl, rfl⟩)
    exact ⟨_, _, hr, hanswer, rfl⟩

/-- The value is repeated exactly where both the records that are here and those of the ledger give it. -/
theorem repeats_iff {s : Store (List (Row H))} {rows : List (Row H)} (hrows : c.rows s = some rows)
    {values : List V} : Repeats (getMultiStorage c actualHash) s values ↔
      Gives c actualHash rows values ∧ Gives c actualHash (c.select s.ledger) values := by
  have hledger : c.rows s.emptied = some (c.select s.ledger) := rfl
  unfold Repeats
  rw [List.forall_mem_cons, List.forall_mem_singleton]
  refine and_congr ?_ ?_
  · exact ⟨fun h => (returns_iff hrows).mp (h []), fun h _ => (returns_iff hrows).mpr h⟩
  · exact ⟨fun h => (returns_iff hledger).mp (h []), fun h _ => (returns_iff hledger).mpr h⟩

/-- When the reads of a multi storage agree. -/
structure MultiSettled (c : Codec H V) (actualHash : H) (answers : List Answer) (s : Store (List (Row H))) :
    Prop where
  /-- Where the cache gives values, so does the ledger. -/
  cached : ∀ m values, s.cache = some (.cortege m) → Gives c actualHash (c.cachedRows m) values →
    Gives c actualHash (c.select s.ledger) values
  /-- Where the ledger answers, the hashes in its rows are those of the records. -/
  stored : s.cache = none → ∀ values, Gives c actualHash (c.select s.ledger) values →
    actualHash = c.cortegeId ((sortRecords (c.select s.ledger)).map fun r => c.hashOf r.storage_data)
  /-- Downloaded items are some, and in the order of their numbers they have the hash and give the values. -/
  downloaded : ∀ items values, Lacks c actualHash s →
    searchActualStorageResult (c.checkItems actualHash) answers = some (some items) →
    (items.mapM fun item => c.decode item.result) = some values → Storable items →
    Gives c actualHash (items.map c.row) values

/-- A downloaded array has the hash that was asked for. -/
theorem hash_of_search {items : List Item}
    (h : searchActualStorageResult (c.checkItems actualHash) answers = some (some items)) :
    actualHash = c.cortegeId (items.map fun item => c.hashOf item.result) := by
  induction answers with
  | nil => cases h
  | cons answer answers ih =>
    cases answer with
    | null => exact ih h
    | timeout => cases h
    | body result =>
      unfold searchActualStorageResult at h
      split at h
      · cases h
      · exact ih h
      next found hcheck =>
        obtain rfl := Option.some.inj (Option.some.inj h)
        obtain ⟨items', -, hitems⟩ := Option.map_eq_some_iff.mp hcheck
        split at hitems
        next hhash =>
          obtain rfl := Option.some.inj hitems
          exact hhash
        · cases hitems

theorem multiAgrees_iff {s : Store (List (Row H))} :
    MultiAgrees c actualHash answers s ↔ MultiSettled c actualHash answers s := by
  constructor
  · intro h
    refine ⟨fun m values hcache hgives => ?_, fun hcache values hgives => ?_, ?_⟩
    · have hrows : c.rows s = some (c.cachedRows m) := by rw [Codec.rows, hcache]
      obtain ⟨hr, hanswer⟩ := getMultiStorage_iff.mpr (.inl ⟨_, hrows, hgives, rfl, rfl⟩)
      exact ((repeats_iff hrows).mp (h _ _ _ hr hanswer).2).2
    · have hrows : c.rows s = some (c.select s.ledger) := by rw [Codec.rows, hcache]
      obtain ⟨hr, hanswer⟩ := getMultiStorage_iff.mpr (.inl ⟨_, hrows, hgives, rfl, rfl⟩)
      rw [(h _ _ _ hr hanswer).1, List.map_map]
      rfl
    · intro items values hlacks hsearch hread hstor
      obtain ⟨hr, hanswer⟩ := getMultiStorage_iff.mpr (.inr ⟨items, hlacks, hsearch, hread, hstor, rfl, rfl⟩)
      exact ((repeats_iff (rows_downloaded hstor _)).mp (h _ _ _ hr hanswer).2).1
  · intro h r packed values hr hanswer
    rcases getMultiStorage_iff.mp ⟨hr, hanswer⟩ with
      ⟨rows, hrows, hgives, rfl, rfl⟩ | ⟨items, hlacks, hsearch, hread, hstor, rfl, rfl⟩
    · cases hcache : s.cache with
      | none =>
        obtain rfl : c.select s.ledger = rows := by simpa [Codec.rows, hcache] using hrows
        refine ⟨(h.stored hcache values hgives).trans ?_, (repeats_iff hrows).mpr ⟨hgives, hgives⟩⟩
        rw [List.map_map]
        rfl
      | some cached =>
        cases cached with
        | empty => simp [Codec.rows, hcache] at hrows
        | packed result =>
          cases result with
          | nil =>
            obtain rfl : [] = rows := by simpa [Codec.rows, hcache] using hrows
            exact absurd rfl hgives.some
          | cons => simp [Codec.rows, hcache] at hrows
        | cortege m =>
          obtain rfl : c.cachedRows m = rows := by simpa [Codec.rows, hcache] using hrows
          refine ⟨hgives.hash.symm.trans (congrArg c.cortegeId ?_),
            (repeats_iff hrows).mpr ⟨hgives, h.cached m values hcache hgives⟩⟩
          rw [List.map_map]
          refine List.map_congr_left fun row hrow => ?_
          obtain ⟨e, -, rfl⟩ := List.mem_map.mp ((sortRecords_perm _).mem_iff.mp hrow)
          rfl
    · have hgives := h.downloaded items values hlacks hsearch hread hstor
      have hnodup : ((items.map c.row).map Row.ubot_number).Nodup := by
        rw [List.map_map]
        exact hstor.nodup
      refine ⟨(hash_of_search hsearch).trans ?_, (repeats_iff (rows_downloaded hstor _)).mpr
        ⟨hgives, hgives.of_perm (c.select_perm _).symm hnodup⟩⟩
      rw [List.map_map]
      rfl

/-! ### Single storages -/

/-- When the reads of a single storage agree: where the cache has the hash, so has the ledger, and both give one
    value. -/
def SingleSettled (c : Codec H V) (actualHash : H) (s : Store (Option Bytes)) : Prop :=
  ∀ packed value, s.cache = some (.packed packed) → actualHash = c.hashOf packed →
    c.decode packed = some value →
      ∃ stored, s.ledger = some stored ∧ actualHash = c.hashOf stored ∧ c.decode stored = some value

/-- A read that returns a value has it from what is here, or from a download. -/
theorem getSingleStorage_iff {s : Store (Option Bytes)} {r : Reading (Option Bytes) (Bytes × V)}
    {packed : Bytes}
    {value : V} : (getSingleStorage c actualHash answers s = some r ∧ r.answer = some (packed, value)) ↔
      c.decode packed = some value ∧ ∃ result, getStoragePackedResult s = some result ∧
        ((result = some packed ∧ actualHash = c.hashOf packed ∧ r = ⟨some (packed, value), false, s⟩) ∨
        ((result.filter fun p => actualHash = c.hashOf p) = none ∧
          searchActualStorageResult (c.checkResult actualHash) answers = some (some packed) ∧
          r = ⟨some (packed, value), true, ⟨some (.packed packed), some packed⟩⟩)) := by
  unfold getSingleStorage
  simp only [Option.bind_eq_bind, Option.bind_eq_some_iff]
  constructor
  · rintro ⟨⟨result, hresult, h⟩, hanswer⟩
    split at h
    next p hp =>
      obtain ⟨rfl, hhash⟩ := Option.filter_eq_some_iff.mp hp
      obtain ⟨value', hvalue, h⟩ := Option.bind_eq_some_iff.mp h
      obtain rfl := Option.some.inj h
      obtain ⟨rfl, rfl⟩ := Prod.mk.inj (Option.some.inj hanswer)
      exact ⟨hvalue, _, hresult, .inl ⟨rfl, of_decide_eq_true hhash, rfl⟩⟩
    next hnone =>
      obtain ⟨found, hfound, h⟩ := Option.bind_eq_some_iff.mp h
      split at h
      · obtain rfl := Option.some.inj h
        cases hanswer
      next p =>
        obtain ⟨value', hvalue, h⟩ := Option.bind_eq_some_iff.mp h
        obtain rfl := Option.some.inj h
        obtain ⟨rfl, rfl⟩ := Prod.mk.inj (Option.some.inj hanswer)
        exact ⟨hvalue, _, hresult, .inr ⟨hnone, hfound, rfl⟩⟩
  · rintro ⟨hvalue, result, hresult, ⟨rfl, hhash, rfl⟩ | ⟨hnone, hfound, rfl⟩⟩
    · refine ⟨⟨_, hresult, ?_⟩, rfl⟩
      rw [Option.filter_some, if_pos (decide_eq_true hhash)]
      simp only [hvalue, Option.bind_some]
      rfl
    · refine ⟨⟨_, hresult, ?_⟩, rfl⟩
      simp only [hnone, hfound, hvalue, Option.bind_some]
      rfl

/-- Without asking, a read returns the value that is here with the hash. -/
theorem singleReturns_iff {s : Store (Option Bytes)} {value : V} :
    (∃ r packed, getSingleStorage c actualHash answers s = some r ∧ r.answer = some (packed, value) ∧
      r.asked = false) ↔
    ∃ packed, getStoragePackedResult s = some (some packed) ∧ actualHash = c.hashOf packed ∧
      c.decode packed = some value := by
  constructor
  · rintro ⟨r, packed, hr, hanswer, hasked⟩
    obtain ⟨hvalue, result, hresult, ⟨rfl, hhash, -⟩ | ⟨-, -, rfl⟩⟩ := getSingleStorage_iff.mp ⟨hr, hanswer⟩
    · exact ⟨packed, hresult, hhash, hvalue⟩
    · cases hasked
  · rintro ⟨packed, hresult, hhash, hvalue⟩
    obtain ⟨hr, hanswer⟩ := getSingleStorage_iff.mpr ⟨hvalue, _, hresult, .inl ⟨rfl, hhash, rfl⟩⟩
    exact ⟨_, _, hr, hanswer, rfl⟩

/-- A downloaded result has the hash that was asked for. -/
theorem hash_of_single {packed : Bytes}
    (h : searchActualStorageResult (c.checkResult actualHash) answers = some (some packed)) :
    actualHash = c.hashOf packed := by
  induction answers with
  | nil => cases h
  | cons answer answers ih =>
    cases answer with
    | null => exact ih h
    | timeout => cases h
    | body result =>
      unfold searchActualStorageResult Codec.checkResult at h
      by_cases hhash : actualHash = c.hashOf result
      · simp only [if_pos hhash, Option.some.injEq] at h
        exact h ▸ hhash
      · simp only [if_neg hhash] at h
        exact ih h

theorem singleAgrees_iff {s : Store (Option Bytes)} :
    SingleAgrees c actualHash answers s ↔ SingleSettled c actualHash s := by
  constructor
  · intro h packed value hcache hhash hvalue
    have hresult : getStoragePackedResult s = some (some packed) := by rw [getStoragePackedResult, hcache]
    obtain ⟨hr, hanswer⟩ := getSingleStorage_iff.mpr ⟨hvalue, _, hresult, .inl ⟨rfl, hhash, rfl⟩⟩
    have hrepeat := (h _ _ _ hr hanswer).2 s.emptied (by simp) []
    obtain ⟨stored, hstored, hrest⟩ := singleReturns_iff.mp hrepeat
    exact ⟨stored, Option.some.inj hstored, hrest⟩
  · intro h r packed value hr hanswer
    obtain ⟨hvalue, result, hresult, ⟨rfl, hhash, rfl⟩ | ⟨-, hfound, rfl⟩⟩ :=
      getSingleStorage_iff.mp ⟨hr, hanswer⟩
    · refine ⟨hhash, fun s' hs' answers' => singleReturns_iff.mpr ?_⟩
      rcases List.mem_pair.mp hs' with rfl | rfl
      · exact ⟨packed, hresult, hhash, hvalue⟩
      · cases hcache : s.cache with
        | none =>
          rw [getStoragePackedResult, hcache] at hresult
          exact ⟨packed, hresult, hhash, hvalue⟩
        | some cached =>
          cases cached with
          | empty => simp [getStoragePackedResult, hcache] at hresult
          | cortege => simp [getStoragePackedResult, hcache] at hresult
          | packed p =>
            obtain rfl : p = packed := by simpa [getStoragePackedResult, hcache] using hresult
            obtain ⟨stored, hstored, hrest⟩ := h p value hcache hhash hvalue
            exact ⟨stored, congrArg some hstored, hrest⟩
    · refine ⟨hash_of_single hfound, fun s' hs' answers' => singleReturns_iff.mpr ?_⟩
      rcases List.mem_pair.mp hs' with rfl | rfl
      · exact ⟨packed, rfl, hash_of_single hfound, hvalue⟩
      · exact ⟨packed, rfl, hash_of_single hfound, hvalue⟩

/-! ### All reads -/

/-- CODE DEFECT (`getMultiStorage`): reads agree with the trusted hash exactly where the ledger has what the
    cache answers, the hashes in the ledger are those of its records, and downloaded records are some and come
    in the order of their UBot numbers, or in one that gives the same hash and values. -/
theorem reads_agree_iff (c : Codec H V) (actualHash : H) (answers : List Answer) (single : Store (Option Bytes))
    (multi : Store (List (Row H))) :
    SingleAgrees c actualHash answers single ∧ MultiAgrees c actualHash answers multi ↔
      SingleSettled c actualHash single ∧ MultiSettled c actualHash answers multi :=
  and_congr singleAgrees_iff multiAgrees_iff

/-- A codec that hashes nothing, and a body with two items, the second with the smaller number. -/
def swapping : Codec Bytes Bytes where
  hashOf := id
  digest := id
  decode := some
  loadItems _ := some [⟨2, [20]⟩, ⟨1, [10]⟩]
  select := id
  select_perm _ := List.Perm.refl _

/-- The items are returned as they came, and the next read does not find them. -/
theorem swapped_download :
    ((getMultiStorage swapping [20, 10] [.body []] ⟨none, []⟩).bind Reading.answer).map Prod.snd =
      some [[20], [10]] ∧
    ¬ (SingleAgrees swapping [20, 10] [.body []] ⟨none, none⟩ ∧
      MultiAgrees swapping [20, 10] [.body []] ⟨none, []⟩) := by
  refine ⟨by decide, fun h => ?_⟩
  have hgives := (multiAgrees_iff.mp h.2).downloaded [⟨2, [20]⟩, ⟨1, [10]⟩] [[20], [10]]
    ⟨[], none, rfl, rfl, rfl⟩ rfl rfl ⟨by decide, by decide⟩
  exact absurd hgives.hash (by decide)

end Universa.Ubot.StorageRecords
