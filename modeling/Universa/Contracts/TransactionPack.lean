import Mathlib.Data.Finset.Dedup
import Mathlib.Data.Finset.Basic
import Universa.Contracts.Contract
import Universa.Lib.Acyclic
import Universa.Lib.Comp

/-! Loading the sub-items of a transaction pack (`transactionpack.js`, `Contract.fromSealedBinary`). The loop
    sweeps over the binaries that are left and loads those that refer to nothing still missing, until nothing
    is left or a sweep loads nothing. -/

namespace Universa.Contracts
open Relation Universa.Lib

/-! ### The code -/

/-- `definition.extended_type`: the values of `SmartContractType`, or another text. -/
inductive ExtendedType where
  | nSmartContract
  | slot1
  | uns1
  | uns2
  | follower1
  | other (name : String)
  deriving DecidableEq

/-- What every sealed item has: the hash of its binary, its type, and whether its payload can be read: its lists of
    ids are there, and it can be read into a contract of that type (`deserialize`, `deserializeForUns`,
    `deserializeForFollower` do not throw). -/
structure SealedHead where
  id : HashId
  extendedType : Option ExtendedType
  readable : Bool
  deriving DecidableEq

/-- A sealed item: from API level 3 on it names the items it revokes and creates by their ids, an older one
    holds them. -/
inductive SealedItem where
  | naming (head : SealedHead) (revoking new : List HashId)
  | holding (head : SealedHead) (revoking new : List SealedItem)

namespace SealedItem

def head : SealedItem → SealedHead
  | naming head _ _ | holding head _ _ => head

def id (s : SealedItem) : HashId := s.head.id

/-- `ContractDependencies(binary)`: the ids the sub-item refers to. -/
def dependencies : SealedItem → List HashId
  | naming _ revoking new => revoking ++ new
  | holding _ _ _ => []

/-- The first `switch` of `Contract.fromSealedBinary` throws: `this.NSmartContract` is not there, and
    `SlotContract.fromSealedBinary` calls `deserializeForSlot` without a deserializer. -/
def unopened (s : SealedItem) : Bool :=
  s.head.extendedType = some .nSmartContract || s.head.extendedType = some .slot1

mutual
/-- The rest of `Contract.fromSealedBinary(sealed, transactionPack)`: the contracts put into the pack, in turn,
    with none for an exception. -/
def read : SealedItem → Option (List SealedItem)
  | .naming head _ _ => if head.readable then some [] else none
  | .holding head revoking new =>
      if head.readable then do
        let revoked ← readHeld revoking
        let created ← readHeld new
        return revoked ++ created
      else none

/-- The items that an older one holds, each put into the pack after those that it holds. -/
def readHeld : List SealedItem → Option (List SealedItem)
  | [] => some []
  | s :: rest =>
      if s.unopened then none
      else do
        let held ← read s
        let others ← readHeld rest
        return held ++ s :: others
end

/-- `Contract.fromSealedBinary(sealed, transactionPack)`. -/
def fromSealedBinary (s : SealedItem) : Option (List SealedItem) := if s.unopened then none else s.read

end SealedItem

/-- `subItems` and `referencedItems` of a packed transaction. -/
structure PackData where
  referencedItems : List SealedItem
  subItems : List SealedItem

/-- What ends `deserialize`: its own exception, or one of `fromSealedBinary`. -/
inductive PackError where
  | illegalState (message : String)
  | notOpened
  deriving DecidableEq

/-- Where the loop stands: the ids still missing, the calls of `fromSealedBinary` so far, and the map
    `subItems` by id. -/
structure Loading where
  missingIds : Finset HashId
  loaded : List SealedItem
  subItems : List (HashId × SealedItem)

/-- `subItems.set(c.id, c)`: a later contract of the same id takes the place of the earlier. -/
def setItem (items : List (HashId × SealedItem)) (s : SealedItem) : List (HashId × SealedItem) :=
  if s.id ∈ items.map Prod.fst then items.map fun e => if e.1 = s.id then (s.id, s) else e
  else items ++ [(s.id, s)]

/-- One sub-item loads: it is opened, put into the map after what it holds, and no longer missing. -/
def Loading.load (l : Loading) (s : SealedItem) : Except PackError Loading :=
  match s.fromSealedBinary with
  | some held => .ok ⟨l.missingIds.erase s.id, l.loaded ++ [s], (held ++ [s]).foldl setItem l.subItems⟩
  | none => .error .notOpened

/-- A dependency is still missing. -/
def Loading.found (l : Loading) (s : SealedItem) : Bool := s.dependencies.any (· ∈ l.missingIds)

/-- One sweep of the `for` loop over `allDeps`: what is left, the state, and whether it removed any. -/
def sweep (l : Loading) : List SealedItem → Except PackError (List SealedItem × Loading × Bool)
  | [] => .ok ([], l, false)
  | s :: rest =>
      if l.found s then do
        let (left, l', removed) ← sweep l rest
        return (s :: left, l', removed)
      else do
        let (left, l', _) ← sweep (← l.load s) rest
        return (left, l', true)

/-- The `while` loop, for as many sweeps as there is fuel. -/
def loadAll : ℕ → Loading → List SealedItem → Option (Except PackError Loading)
  | 0, _, _ => none
  | fuel + 1, l, allDeps =>
      if allDeps = [] then some (.ok l)
      else
        match sweep l allDeps with
        | .error e => some (.error e)
        | .ok (left, l', removed) =>
            if !removed then some (.error (.illegalState "circle deps in contracts tree"))
            else loadAll fuel l' left

/-- The loop over `referencedItems`, which puts what older ones hold among the sub-items. -/
def openReferenced (items : List (HashId × SealedItem)) :
    List SealedItem → Except PackError (List (HashId × SealedItem))
  | [] => .ok items
  | s :: rest =>
      match s.fromSealedBinary with
      | some held => openReferenced (held.foldl setItem items) rest
      | none => .error .notOpened

/-- `deserialize(data)` up to the sub-items; each sweep that goes on removes one. -/
def loadSubItems (data : PackData) : Option (Except PackError Loading) :=
  match openReferenced [] data.referencedItems with
  | .error e => some (.error e)
  | .ok items =>
      loadAll (data.subItems.length + 1) ⟨(data.subItems.map (·.id)).toFinset, [], items⟩ data.subItems

/-! ### The graph -/

namespace SealedItem

mutual
/-- All there is inside an item, each after what it holds. -/
def inside : SealedItem → List SealedItem
  | .naming _ _ _ => []
  | .holding _ revoking new => insideAll revoking ++ insideAll new

def insideAll : List SealedItem → List SealedItem
  | [] => []
  | s :: rest => inside s ++ s :: insideAll rest
end

/-- The item and all there is inside it can be opened. -/
structure Opens (s : SealedItem) : Prop where
  opened : s.unopened = false
  readable : s.head.readable = true
  inside : ∀ t ∈ s.inside, t.unopened = false ∧ t.head.readable = true

mutual
theorem read_eq_some : ∀ {s : SealedItem} {held : List SealedItem}, s.read = some held ↔
    (s.head.readable = true ∧ ∀ t ∈ s.inside, t.unopened = false ∧ t.head.readable = true) ∧
      held = s.inside
  | .naming head revoking new, held => by
      rw [read, inside]
      by_cases h : head.readable = true
      · simp only [h, if_true, Option.some.injEq, SealedItem.head, List.not_mem_nil, false_implies,
          implies_true, and_self, true_and]
        exact eq_comm
      · simp [h, SealedItem.head]
  | .holding head revoking new, held => by
      have hrevoking := @readHeld_eq_some revoking
      have hnew := @readHeld_eq_some new
      rw [read, inside]
      by_cases h : head.readable = true
      · simp only [h, if_true, SealedItem.head, true_and, List.forall_mem_append, Option.bind_eq_bind,
          Option.bind_eq_some_iff, hrevoking, hnew, Option.pure_def, Option.some.injEq]
        constructor
        · rintro ⟨_, ⟨h₁, rfl⟩, _, ⟨h₂, rfl⟩, rfl⟩
          exact ⟨⟨h₁, h₂⟩, rfl⟩
        · rintro ⟨⟨h₁, h₂⟩, rfl⟩
          exact ⟨_, ⟨h₁, rfl⟩, _, ⟨h₂, rfl⟩, rfl⟩
      · simp [h, SealedItem.head]

theorem readHeld_eq_some : ∀ {ss held : List SealedItem}, readHeld ss = some held ↔
    (∀ t ∈ insideAll ss, t.unopened = false ∧ t.head.readable = true) ∧ held = insideAll ss
  | [], held => by
      simp only [readHeld, insideAll, Option.some.injEq, List.not_mem_nil, false_implies, implies_true, true_and]
      exact eq_comm
  | s :: rest, held => by
      have hs := @read_eq_some s
      have hrest := @readHeld_eq_some rest
      rw [readHeld, insideAll]
      by_cases h : s.unopened = true
      · simp only [h, if_true]
        refine iff_of_false (by simp) ?_
        rintro ⟨hall, -⟩
        have := (hall s (by simp)).1
        rw [h] at this
        cases this
      · rw [Bool.not_eq_true] at h
        simp only [h, Bool.false_eq_true, if_false, List.forall_mem_append, List.forall_mem_cons, true_and,
          Option.bind_eq_bind, Option.bind_eq_some_iff, hs, hrest, Option.pure_def, Option.some.injEq]
        constructor
        · rintro ⟨_, ⟨⟨h₁, h₂⟩, rfl⟩, _, ⟨h₃, rfl⟩, rfl⟩
          exact ⟨⟨h₂, h₁, h₃⟩, rfl⟩
        · rintro ⟨⟨h₂, h₁, h₃⟩, rfl⟩
          exact ⟨_, ⟨⟨h₁, h₂⟩, rfl⟩, _, ⟨h₃, rfl⟩, rfl⟩
end

/-- An item is opened with what is inside it, where it opens. -/
theorem fromSealedBinary_eq_some {s : SealedItem} {held : List SealedItem} :
    s.fromSealedBinary = some held ↔ s.Opens ∧ held = s.inside := by
  unfold fromSealedBinary
  cases h : s.unopened with
  | true =>
      refine iff_of_false (by simp) fun hs => ?_
      rw [hs.1.opened] at h
      cases h
  | false =>
      rw [if_neg Bool.false_ne_true, read_eq_some]
      exact and_congr_left fun _ => ⟨fun hs => ⟨h, hs.1, hs.2⟩, fun hs => ⟨hs.readable, hs.inside⟩⟩

end SealedItem

/-- The items and all there is inside them. -/
def contents (items : List SealedItem) : List SealedItem := items.flatMap fun s => s.inside ++ [s]

/-- A packed transaction; an id is the hash of the binary, so it has one binary. -/
structure Packed where
  data : PackData
  oneBinary : ∀ a ∈ contents (data.referencedItems ++ data.subItems),
    ∀ b ∈ contents (data.referencedItems ++ data.subItems), a.id = b.id → a = b

/-- Everything in it can be opened. -/
def Packed.Opens (p : Packed) : Prop := ∀ s ∈ p.data.referencedItems ++ p.data.subItems, s.Opens

/-- A packed sub-item refers to another by its id. -/
def Refers (p : Packed) (a b : SealedItem) : Prop :=
  a ∈ p.data.subItems ∧ b ∈ p.data.subItems ∧ b.id ∈ a.dependencies

/-- Every sub-item comes after those it refers to. -/
def Ordered (p : Packed) (loaded : List SealedItem) : Prop :=
  ∀ before s after, loaded = before ++ s :: after → ∀ r, Refers p s r → r ∈ before

/-! ### The map -/

/-- Items in a map by their ids, one for each. -/
structure Table (items : List (HashId × SealedItem)) : Prop where
  keys : (items.map Prod.fst).Nodup
  ids : ∀ e ∈ items, e.1 = e.2.id

/-- Setting an item adds its entry. -/
theorem setItem_spec {items : List (HashId × SealedItem)} {s : SealedItem} (h : Table items)
    (hone : ∀ e ∈ items, e.2.id = s.id → e.2 = s) :
    Table (setItem items s) ∧ ∀ e, e ∈ setItem items s ↔ e ∈ items ∨ e = (s.id, s) := by
  unfold setItem
  split
  next hmem =>
    have hsame : items.map (fun e => if e.1 = s.id then (s.id, s) else e) = items := by
      refine (List.map_congr_left fun e he => ?_).trans (List.map_id items)
      by_cases hid : e.1 = s.id
      · obtain ⟨i, t⟩ := e
        have ht := hone _ he ((h.ids _ he).symm.trans hid)
        simp_all
      · simp [hid]
    rw [hsame]
    refine ⟨h, fun e => ⟨.inl, ?_⟩⟩
    rintro (he | rfl)
    · exact he
    · obtain ⟨⟨i, t⟩, he, hi⟩ := List.mem_map.mp hmem
      obtain rfl : i = s.id := hi
      obtain rfl : t = s := hone _ he (h.ids _ he).symm
      exact he
  next hmem =>
    have hnew : ∀ e, e ∈ items ++ [(s.id, s)] ↔ e ∈ items ∨ e = (s.id, s) := fun e => by simp
    refine ⟨⟨?_, fun e he => ?_⟩, hnew⟩
    · rw [List.map_append, List.nodup_append]
      refine ⟨h.keys, by simp, ?_⟩
      rintro a ha b hb rfl
      rw [List.map_singleton, List.mem_singleton] at hb
      rw [hb] at ha
      exact hmem ha
    · rcases (hnew e).mp he with he | rfl
      · exact h.ids e he
      · rfl

/-- Setting items in turn adds their entries. -/
theorem setItems_spec : ∀ {ss : List SealedItem} {items : List (HashId × SealedItem)}, Table items →
    (∀ a ∈ items.map Prod.snd ++ ss, ∀ b ∈ items.map Prod.snd ++ ss, a.id = b.id → a = b) →
    Table (ss.foldl setItem items) ∧
      ∀ e, e ∈ ss.foldl setItem items ↔ e ∈ items ∨ (e.1 = e.2.id ∧ e.2 ∈ ss)
  | [], items, h, _ => ⟨h, fun e => by simp⟩
  | s :: ss, items, h, hone => by
      have hs : ∀ e ∈ items, e.2.id = s.id → e.2 = s := fun e he =>
        hone e.2 (List.mem_append_left _ (List.mem_map_of_mem he)) s (by simp)
      obtain ⟨htable, hset⟩ := setItem_spec h hs
      have hsub : (setItem items s).map Prod.snd ++ ss ⊆ items.map Prod.snd ++ s :: ss := by
        intro t ht
        rcases List.mem_append.mp ht with ht | ht
        · obtain ⟨e, he, rfl⟩ := List.mem_map.mp ht
          rcases (hset e).mp he with he | rfl
          · exact List.mem_append_left _ (List.mem_map_of_mem he)
          · simp
        · simp [ht]
      obtain ⟨htable', hrest⟩ := setItems_spec htable fun a ha b hb => hone a (hsub ha) b (hsub hb)
      refine ⟨htable', fun e => ?_⟩
      rw [List.foldl_cons, hrest, hset, List.mem_cons]
      constructor
      · rintro ((he | rfl) | he)
        · exact .inl he
        · exact .inr ⟨rfl, .inl rfl⟩
        · exact .inr ⟨he.1, .inr he.2⟩
      · rintro (he | ⟨hid, he | he⟩)
        · exact .inl (.inl he)
        · exact .inl (.inr (Prod.ext (hid.trans (congrArg SealedItem.id he)) he))
        · exact .inr ⟨hid, he⟩

theorem mem_contents {items : List SealedItem} {t : SealedItem} :
    t ∈ contents items ↔ ∃ s ∈ items, t ∈ s.inside ∨ t = s := by
  simp [contents]

theorem contents_append (items items' : List SealedItem) :
    contents (items ++ items') = contents items ++ contents items' := List.flatMap_append

/-! ### The loop -/

/-- What the referenced items hold. -/
def Packed.held (p : Packed) : List SealedItem := p.data.referencedItems.flatMap SealedItem.inside

/-- What every sweep keeps: the loaded and the left sub-items are those of the pack, the loaded ones in
    order and opened, and what is missing is what was not loaded. -/
structure Loads (p : Packed) (l : Loading) (left : List SealedItem) : Prop where
  all : (l.loaded ++ left).Perm p.data.subItems
  missing : ∀ s ∈ p.data.subItems, s.id ∈ l.missingIds ↔ s ∉ l.loaded
  ids : ∀ id ∈ l.missingIds, ∃ s ∈ p.data.subItems, s.id = id
  ordered : Ordered p l.loaded
  opens : ∀ s ∈ l.loaded, s.Opens
  table : Table l.subItems
  map : ∀ e, e ∈ l.subItems ↔ e.1 = e.2.id ∧ (e.2 ∈ p.held ∨ e.2 ∈ contents l.loaded)

variable {p : Packed} {l l' : Loading} {left rest : List SealedItem} {s : SealedItem}

theorem Loads.mem_left (h : Loads p l left) (hs : s ∈ left) : s ∈ p.data.subItems :=
  h.all.subset (List.mem_append_right _ hs)

theorem Packed.contents_sub {t : SealedItem} (hs : s ∈ p.data.subItems) (ht : t ∈ s.inside ∨ t = s) :
    t ∈ contents (p.data.referencedItems ++ p.data.subItems) :=
  mem_contents.mpr ⟨s, List.mem_append_right _ hs, ht⟩

theorem Packed.held_sub {t : SealedItem} (ht : t ∈ p.held) :
    t ∈ contents (p.data.referencedItems ++ p.data.subItems) := by
  obtain ⟨s, hs, ht⟩ := List.mem_flatMap.mp ht
  exact mem_contents.mpr ⟨s, List.mem_append_left _ hs, .inl ht⟩

theorem Packed.one (p : Packed) {a b : SealedItem} (ha : a ∈ p.data.subItems) (hb : b ∈ p.data.subItems)
    (h : a.id = b.id) : a = b :=
  p.oneBinary a (Packed.contents_sub ha (.inr rfl)) b (Packed.contents_sub hb (.inr rfl)) h

/-- What is in the map is in the pack. -/
theorem Loads.mem_map (h : Loads p l left) {e : HashId × SealedItem} (he : e ∈ l.subItems) :
    e.2 ∈ contents (p.data.referencedItems ++ p.data.subItems) := by
  rcases ((h.map e).mp he).2 with hheld | hloaded
  · exact Packed.held_sub hheld
  · obtain ⟨s, hs, ht⟩ := mem_contents.mp hloaded
    exact Packed.contents_sub (h.all.subset (List.mem_append_left _ hs)) ht

/-- A sub-item that refers to nothing missing may load next. -/
theorem Loads.load {kept : List SealedItem} (h : Loads p l (kept ++ s :: rest))
    (hfound : l.found s = false) (hload : l.load s = .ok l') : Loads p l' (kept ++ rest) := by
  have hs : s ∈ p.data.subItems := h.mem_left (by simp)
  unfold Loading.load at hload
  split at hload
  next held hheld =>
    obtain ⟨hopens, rfl⟩ := SealedItem.fromSealedBinary_eq_some.mp hheld
    obtain rfl := Except.ok.inj hload
    have hin : ∀ a ∈ l.subItems.map Prod.snd ++ (s.inside ++ [s]),
        a ∈ contents (p.data.referencedItems ++ p.data.subItems) := by
      intro a ha
      rcases List.mem_append.mp ha with ha | ha
      · obtain ⟨e, he, rfl⟩ := List.mem_map.mp ha
        exact h.mem_map he
      · exact Packed.contents_sub hs (by simpa using ha)
    obtain ⟨htable, hset⟩ := setItems_spec h.table fun a ha b hb => p.oneBinary a (hin a ha) b (hin b hb)
    refine ⟨?_, ?_, ?_, ?_, ?_, htable, ?_⟩
    · -- the sub-item moves from the left to the loaded ones
      refine List.Perm.trans ?_ h.all
      rw [List.append_assoc, List.singleton_append]
      exact List.perm_middle.symm.append_left _
    · intro t ht
      rw [Finset.mem_erase, h.missing t ht, List.mem_append, List.mem_singleton, not_or, and_comm]
      refine and_congr_right fun _ => not_congr ⟨fun hid => p.one ht hs hid, ?_⟩
      rintro rfl
      rfl
    · intro id hid
      exact h.ids id (Finset.mem_of_mem_erase hid)
    · -- what it refers to is not missing, so it was loaded
      intro before t after heq r hr
      rcases List.eq_nil_or_concat after with rfl | ⟨after, z, rfl⟩
      · obtain ⟨rfl, hts⟩ := List.append_inj' heq rfl
        obtain rfl := (List.cons.inj hts).1
        by_contra hnot
        have hmiss := (h.missing r hr.2.1).mpr hnot
        have hany : l.found s = true := List.any_eq_true.mpr ⟨r.id, hr.2.2, by simpa using hmiss⟩
        rw [hfound] at hany
        cases hany
      · have heq' : l.loaded ++ [s] = (before ++ t :: after) ++ [z] := by simpa using heq
        exact h.ordered before t after (List.append_inj' heq' rfl).1 r hr
    · intro t ht
      rcases List.mem_append.mp ht with ht | ht
      · exact h.opens t ht
      · exact List.mem_singleton.mp ht ▸ hopens
    · intro e
      have hcontents : e.2 ∈ contents (l.loaded ++ [s]) ↔ e.2 ∈ contents l.loaded ∨ e.2 ∈ s.inside ++ [s] := by
        rw [contents_append, List.mem_append]
        simp [contents]
      rw [hset, h.map, hcontents]
      tauto
  next => cases hload

/-- A sub-item that does not load cannot be opened. -/
theorem load_error {e : PackError} (h : l.load s = .error e) : e = .notOpened ∧ ¬ s.Opens := by
  unfold Loading.load at h
  split at h
  · cases h
  next hnone =>
    obtain rfl := Except.error.inj h
    refine ⟨rfl, fun hopens => ?_⟩
    rw [SealedItem.fromSealedBinary_eq_some.mpr ⟨hopens, rfl⟩] at hnone
    cases hnone

/-- What one sweep does. -/
structure Swept (p : Packed) (l : Loading) (kept rest : List SealedItem)
    (swept : List SealedItem × Loading × Bool) : Prop where
  loads : Loads p swept.2.1 (kept ++ swept.1)
  shorter : swept.1.length ≤ rest.length
  removed : swept.2.2 = true → swept.1.length < rest.length
  stuck : swept.2.2 = false → swept.1 = rest ∧ swept.2.1 = l ∧ ∀ s ∈ rest, l.found s = true

theorem sweep_spec (kept : List SealedItem) : ∀ {rest : List SealedItem} {l : Loading}
    {swept : List SealedItem × Loading × Bool},
    Loads p l (kept ++ rest) → sweep l rest = .ok swept → Swept p l kept rest swept := by
  intro rest
  induction rest generalizing kept with
  | nil =>
      intro l swept h hsweep
      obtain rfl := Except.ok.inj hsweep
      exact ⟨h, le_rfl, by simp, by simp⟩
  | cons s rest ih =>
      intro l swept h hsweep
      unfold sweep at hsweep
      cases hfound : l.found s with
      | true =>
          rw [hfound, if_pos rfl] at hsweep
          obtain ⟨⟨left, l', removed⟩, hr, hsweep⟩ := Except.bind_eq_ok.mp hsweep
          obtain rfl := Except.ok.inj hsweep
          have hsw := ih (kept ++ [s]) (by simpa using h) hr
          refine ⟨by simpa using hsw.loads, by simpa using hsw.shorter, fun hrem => ?_, fun hrem => ?_⟩
          · simpa using hsw.removed hrem
          · obtain ⟨rfl, rfl, hall⟩ := hsw.stuck hrem
            exact ⟨rfl, rfl, List.forall_mem_cons.mpr ⟨hfound, hall⟩⟩
      | false =>
          rw [hfound, if_neg Bool.false_ne_true] at hsweep
          obtain ⟨l₁, hload, hsweep⟩ := Except.bind_eq_ok.mp hsweep
          obtain ⟨⟨left, l', removed⟩, hr, hsweep⟩ := Except.bind_eq_ok.mp hsweep
          obtain rfl := Except.ok.inj hsweep
          have hsw := ih kept (h.load hfound hload) hr
          refine ⟨hsw.loads, hsw.shorter.trans (by simp), fun _ => ?_, by simp⟩
          exact Nat.lt_of_le_of_lt hsw.shorter (by simp)

/-- A sweep throws only at a sub-item that cannot be opened. -/
theorem sweep_error {e : PackError} : ∀ {rest : List SealedItem} {l : Loading},
    sweep l rest = .error e → e = .notOpened ∧ ∃ s ∈ rest, ¬ s.Opens
  | [], l, h => by cases h
  | s :: rest, l, h => by
      unfold sweep at h
      cases hfound : l.found s with
      | true =>
          rw [hfound, if_pos rfl] at h
          cases hr : sweep l rest with
          | ok swept => simp [hr, bind, Except.bind, pure, Except.pure] at h
          | error e' =>
              rw [hr] at h
              obtain rfl := Except.error.inj h
              obtain ⟨he, t, ht, hnot⟩ := sweep_error hr
              exact ⟨he, t, List.mem_cons_of_mem _ ht, hnot⟩
      | false =>
          rw [hfound, if_neg Bool.false_ne_true] at h
          cases hload : l.load s with
          | error e' =>
              rw [hload] at h
              obtain rfl := Except.error.inj h
              obtain ⟨he, hnot⟩ := load_error hload
              exact ⟨he, s, List.mem_cons_self, hnot⟩
          | ok l₁ =>
              rw [hload] at h
              have h' : (do
                  let (left, l', _) ← sweep l₁ rest
                  return (left, l', true) : Except PackError (List SealedItem × Loading × Bool)) = .error e := h
              cases hr : sweep l₁ rest with
              | ok swept => simp [hr, bind, Except.bind, pure, Except.pure] at h'
              | error e' =>
                  rw [hr] at h'
                  obtain rfl := Except.error.inj h'
                  obtain ⟨he, t, ht, hnot⟩ := sweep_error hr
                  exact ⟨he, t, List.mem_cons_of_mem _ ht, hnot⟩

/-- How the loop can end: everything is loaded, or all that is left refers to something missing, or
    something cannot be opened. -/
theorem loadAll_ends : ∀ {fuel : ℕ} {l : Loading} {left : List SealedItem}, left.length < fuel →
    Loads p l left →
    (∃ l', loadAll fuel l left = some (.ok l') ∧ Loads p l' []) ∨
    (loadAll fuel l left = some (.error (.illegalState "circle deps in contracts tree")) ∧
      ∃ l' left', left' ≠ [] ∧ Loads p l' left' ∧ ∀ s ∈ left', l'.found s = true) ∨
    (loadAll fuel l left = some (.error .notOpened) ∧ ∃ s ∈ p.data.subItems, ¬ s.Opens)
  | fuel + 1, l, left, hlen, h => by
      unfold loadAll
      by_cases hnil : left = []
      · subst hnil
        exact .inl ⟨l, by simp, h⟩
      · rw [if_neg hnil]
        cases hr : sweep l left with
        | error e =>
            obtain ⟨rfl, s, hs, hnot⟩ := sweep_error hr
            exact .inr (.inr ⟨rfl, s, h.mem_left hs, hnot⟩)
        | ok swept =>
            obtain ⟨left', l', removed⟩ := swept
            have hsw := sweep_spec [] h hr
            cases removed with
            | false =>
                obtain ⟨rfl, rfl, hall⟩ := hsw.stuck rfl
                exact .inr (.inl ⟨by simp, l', left', hnil, h, hall⟩)
            | true =>
                have hlt : left'.length < left.length := hsw.removed rfl
                have hloads : Loads p l' left' := hsw.loads
                simpa using loadAll_ends (by omega) hloads

/-- When all that is left refers to something missing, the sub-items refer to each other in a cycle. -/
theorem cycle_of_stuck (hne : left ≠ []) (h : Loads p l left) (hfound : ∀ s ∈ left, l.found s = true) :
    ¬ Acyclic (Refers p) := by
  intro hacyc
  obtain ⟨s, hs, hlast⟩ := exists_last
    (wellFounded_of_acyclic p.data.subItems (fun a b hr => ⟨hr.1, hr.2.1⟩) hacyc) hne
  obtain ⟨id, hid, hmiss⟩ := List.any_eq_true.mp (hfound s hs)
  have hmiss : id ∈ l.missingIds := by simpa using hmiss
  obtain ⟨r, hr, rfl⟩ := h.ids id hmiss
  have hleft : r ∈ left :=
    (List.mem_append.mp (h.all.symm.subset hr)).resolve_left ((h.missing r hr).mp hmiss)
  exact hlast r hleft ⟨h.mem_left hs, hr, hid⟩

/-- Opening the referenced items puts what they hold into the map, or one of them cannot be opened. -/
theorem openReferenced_spec : ∀ {ss : List SealedItem} {items : List (HashId × SealedItem)}, Table items →
    (∀ a ∈ items.map Prod.snd ++ ss.flatMap SealedItem.inside,
      ∀ b ∈ items.map Prod.snd ++ ss.flatMap SealedItem.inside, a.id = b.id → a = b) →
    (∃ items', openReferenced items ss = .ok items' ∧ (∀ s ∈ ss, s.Opens) ∧ Table items' ∧
      ∀ e, e ∈ items' ↔ e ∈ items ∨ (e.1 = e.2.id ∧ e.2 ∈ ss.flatMap SealedItem.inside)) ∨
    (openReferenced items ss = .error .notOpened ∧ ∃ s ∈ ss, ¬ s.Opens)
  | [], items, h, _ => .inl ⟨items, rfl, by simp, h, fun e => by simp⟩
  | s :: ss, items, h, hone => by
      unfold openReferenced
      cases hs : s.fromSealedBinary with
      | none =>
          refine .inr ⟨rfl, s, List.mem_cons_self, fun hopens => ?_⟩
          rw [SealedItem.fromSealedBinary_eq_some.mpr ⟨hopens, rfl⟩] at hs
          cases hs
      | some held =>
          obtain ⟨hopens, rfl⟩ := SealedItem.fromSealedBinary_eq_some.mp hs
          rw [List.flatMap_cons] at hone ⊢
          have hfirst : ∀ a ∈ items.map Prod.snd ++ s.inside,
              a ∈ items.map Prod.snd ++ (s.inside ++ ss.flatMap SealedItem.inside) := by
            intro a ha
            rw [← List.append_assoc]
            exact List.mem_append_left _ ha
          obtain ⟨htable, hset⟩ :=
            setItems_spec h fun a ha b hb => hone a (hfirst a ha) b (hfirst b hb)
          have hthen : ∀ a ∈ (s.inside.foldl setItem items).map Prod.snd ++ ss.flatMap SealedItem.inside,
              a ∈ items.map Prod.snd ++ (s.inside ++ ss.flatMap SealedItem.inside) := by
            intro a ha
            rcases List.mem_append.mp ha with ha | ha
            · obtain ⟨e, he, rfl⟩ := List.mem_map.mp ha
              rcases (hset e).mp he with he | he
              · exact List.mem_append_left _ (List.mem_map_of_mem he)
              · simp [he.2]
            · simp [ha]
          rcases openReferenced_spec htable fun a ha b hb => hone a (hthen a ha) b (hthen b hb) with
            ⟨items', hitems, hall, htable', hmem⟩ | ⟨hitems, t, ht, hnot⟩
          · refine .inl ⟨items', hitems, List.forall_mem_cons.mpr ⟨hopens, hall⟩, htable', fun e => ?_⟩
            rw [hmem, hset, List.mem_append]
            tauto
          · exact .inr ⟨hitems, t, List.mem_cons_of_mem _ ht, hnot⟩

theorem loads_start {items : List (HashId × SealedItem)} (htable : Table items)
    (hmap : ∀ e, e ∈ items ↔ e.1 = e.2.id ∧ e.2 ∈ p.held) :
    Loads p ⟨(p.data.subItems.map (·.id)).toFinset, [], items⟩ p.data.subItems where
  all := by simp
  missing s hs := by
    simp only [List.mem_toFinset, List.not_mem_nil, not_false_eq_true, iff_true]
    exact List.mem_map_of_mem hs
  ids id hid := by simpa using hid
  ordered before s after h := by simp at h
  opens s hs := by simp at hs
  table := htable
  map e := by simp [hmap, contents]

/-- How loading can end. -/
theorem loadSubItems_ends (p : Packed) :
    (∃ l, loadSubItems p.data = some (.ok l) ∧ p.Opens ∧ Loads p l []) ∨
    (loadSubItems p.data = some (.error (.illegalState "circle deps in contracts tree")) ∧
      ¬ Acyclic (Refers p)) ∨
    (loadSubItems p.data = some (.error .notOpened) ∧ ¬ p.Opens) := by
  unfold loadSubItems
  have hin : ∀ a ∈ ([] : List (HashId × SealedItem)).map Prod.snd ++
      p.data.referencedItems.flatMap SealedItem.inside,
      a ∈ contents (p.data.referencedItems ++ p.data.subItems) :=
    fun a ha => Packed.held_sub ha
  have hempty : Table [] := ⟨List.nodup_nil, by simp⟩
  rcases openReferenced_spec hempty fun a ha b hb => p.oneBinary a (hin a ha) b (hin b hb) with
    ⟨items, hitems, hreferenced, htable, hmem⟩ | ⟨hitems, s, hs, hnot⟩
  · rw [hitems]
    have hstart : Loads p ⟨(p.data.subItems.map (·.id)).toFinset, [], items⟩ p.data.subItems :=
      loads_start htable fun e => (hmem e).trans (or_iff_right List.not_mem_nil)
    rcases loadAll_ends (Nat.lt_succ_self _) hstart with ⟨l, hl, h⟩ | ⟨hl, l, left, hne, h, hf⟩ | ⟨hl, s, hs, hnot⟩
    · refine .inl ⟨l, hl, fun s hs => ?_, h⟩
      rcases List.mem_append.mp hs with hs | hs
      · exact hreferenced s hs
      · exact h.opens s (by simpa using h.all.symm.subset hs)
    · exact .inr (.inl ⟨hl, cycle_of_stuck hne h hf⟩)
    · exact .inr (.inr ⟨hl, fun hopens => hnot (hopens s (List.mem_append_right _ hs))⟩)
  · rw [hitems]
    exact .inr (.inr ⟨rfl, fun hopens => hnot (hopens s (List.mem_append_left _ hs))⟩)

/-- A plain item of API level 3 that revokes these. -/
def revokes (n : UInt8) (ids : List HashId) : SealedItem := .naming ⟨⟨[n]⟩, none, true⟩ ids []

end Universa.Contracts
