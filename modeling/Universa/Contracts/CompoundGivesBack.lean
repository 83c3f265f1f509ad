import Universa.Contracts.Compound

/-! Which contracts a compound gives back: every sealing keeps what is below the compound and what was attached
    to its pack, so that the pack has all that the definition names. What is lost is lost when it is put in. -/

namespace Universa.Contracts.Compounds
open Universa.Lib Universa.Js

variable {b : Binaries} {init : HashId}

/-! ### Packs -/

/-- Everything in the pack opens. -/
structure Opens (b : Binaries) (p : TransactionPack) : Prop where
  referencedItems : ∀ i ∈ p.referencedItems, b.OpensAsItem i
  subItems : ∀ i ∈ p.subItems, b.OpensAsItem i
  main : (openMain p.contract).isSome = true

/-- A pack of the same contract with the items of the first; what items hold may be added. -/
structure KeepsItems (p p' : TransactionPack) : Prop where
  contract : p'.contract = p.contract
  subItems : ∀ i ∈ p.subItems, i ∈ p'.subItems
  referencedItems : p'.referencedItems.elements = p.referencedItems.elements

mutual
/-- What is inside an item that is inside another is inside that. -/
theorem inside_of_inside : ∀ {s t : SealedItem}, t ∈ s.inside → ∀ u ∈ t.inside, u ∈ s.inside
  | .naming _ _ _, _, h, _, _ => absurd h List.not_mem_nil
  | .holding _ revoking new, t, h, u, hu => by
    rw [SealedItem.inside, List.mem_append] at h ⊢
    exact h.imp (fun h => insideAll_of_inside h u hu) fun h => insideAll_of_inside h u hu

theorem insideAll_of_inside : ∀ {ss : List SealedItem} {t : SealedItem}, t ∈ SealedItem.insideAll ss →
    ∀ u ∈ t.inside, u ∈ SealedItem.insideAll ss
  | [], _, h, _, _ => absurd h List.not_mem_nil
  | s :: ss, t, h, u, hu => by
    rw [SealedItem.insideAll, List.mem_append, List.mem_cons] at h ⊢
    rcases h with h | rfl | h
    · exact .inl (inside_of_inside h u hu)
    · exact .inl hu
    · exact .inr (.inr (insideAll_of_inside h u hu))
end

/-- What is inside an item opens where all of that does. -/
theorem opens_of_inside {s t : SealedItem} (h : ∀ u ∈ s.inside, u.unopened = false ∧ u.head.readable = true)
    (ht : t ∈ s.inside) : t.Opens :=
  ⟨(h t ht).1, (h t ht).2, fun u hu => h u (inside_of_inside ht u hu)⟩

/-- The main contract opens with what is inside it. -/
theorem openMain_eq_some {s : SealedItem} {held : List SealedItem} (h : openMain s = some held) :
    held = s.inside := by
  unfold openMain at h
  split at h
  · exact (SealedItem.read_eq_some.mp h).2
  · split at h
    · exact (SealedItem.fromSealedBinary_eq_some.mp h).2
    · cases h
  · exact (SealedItem.fromSealedBinary_eq_some.mp h).2

/-- What is inside a binary has its own binary. -/
theorem Binaries.binary_contents (b : Binaries) {ids : List HashId} {s : SealedItem}
    (h : s ∈ contents (ids.map b.binary)) : b.binary s.id = s := by
  obtain ⟨t, ht, hs⟩ := mem_contents.mp h
  obtain ⟨i, -, rfl⟩ := List.mem_map.mp ht
  rcases hs with hs | rfl
  · exact b.binary_inside i s hs
  · rw [b.binary_id]

/-- What is packed has one binary for each id. -/
def Binaries.packed (b : Binaries) (p : TransactionPack) : Packed where
  data := p.data b
  oneBinary s hs r hr h := by
    have hdata : (p.data b).referencedItems ++ (p.data b).subItems =
        (p.referencedItems.elements ++ p.subItems.elements).map b.binary := List.map_append.symm
    rw [hdata] at hs hr
    rw [← b.binary_contents hs, ← b.binary_contents hr, h]

theorem mem_data {p : TransactionPack} {s : SealedItem} :
    s ∈ (b.packed p).data.referencedItems ++ (b.packed p).data.subItems ↔
      ∃ i, (i ∈ p.referencedItems ∨ i ∈ p.subItems) ∧ b.binary i = s := by
  simp only [Binaries.packed, TransactionPack.data, List.mem_append, List.mem_map, OrderedSet.mem_elements,
    or_and_right, exists_or]

/-- What refers to another binary is younger, so there is no cycle and all sub-items are loaded. -/
theorem loadSubItems_ids (b : Binaries) (p : TransactionPack) :
    (∃ l, loadSubItems (p.data b) = some (.ok l) ∧ (b.packed p).Opens ∧
      (∀ i ∈ p.subItems, i ∈ l.subItems.map Prod.fst) ∧ ∀ i ∈ l.subItems.map Prod.fst, b.OpensAsItem i) ∨
    (loadSubItems (p.data b) = some (.error .notOpened) ∧ ¬ (b.packed p).Opens) := by
  have hacyclic : Acyclic (Refers (b.packed p)) := by
    refine acyclic_of_rank (fun s => b.age s.id) fun s r h => ?_
    obtain ⟨i, -, rfl⟩ := List.mem_map.mp h.1
    rw [b.binary_id]
    refine b.older i r.id ?_
    have hr := h.2.2
    cases hi : b.binary i with
    | naming head revoking new =>
      rw [hi] at hr
      exact hr
    | holding head revoking new =>
      rw [hi] at hr
      cases hr
  rcases loadSubItems_ends (b.packed p) with ⟨l, hl, hopens, h⟩ | ⟨-, hcyc⟩ | ⟨hl, hnot⟩
  · have hloaded : ∀ s, s ∈ l.loaded ↔ s ∈ (b.packed p).data.subItems := by
      intro s
      rw [← h.all.mem_iff, List.append_nil]
    refine .inl ⟨l, hl, hopens, fun i hi => ?_, fun i hi => ?_⟩
    · refine List.mem_map.mpr ⟨(i, b.binary i), (h.map _).mpr ⟨(b.binary_id i).symm, .inr ?_⟩, rfl⟩
      exact mem_contents.mpr ⟨_, (hloaded _).mpr (List.mem_map_of_mem hi), .inr rfl⟩
    · obtain ⟨⟨i, s⟩, he, rfl⟩ := List.mem_map.mp hi
      obtain ⟨hid, hs⟩ := (h.map _).mp he
      obtain rfl : i = s.id := hid
      have hin : s ∈ contents ((b.packed p).data.referencedItems ++ (b.packed p).data.subItems) ∧ s.Opens := by
        rcases hs with hs | hs
        · obtain ⟨r, hr, hs⟩ := List.mem_flatMap.mp hs
          have hr := List.mem_append_left (b.packed p).data.subItems hr
          exact ⟨mem_contents.mpr ⟨r, hr, .inl hs⟩, opens_of_inside (hopens r hr).inside hs⟩
        · obtain ⟨r, hr, hs⟩ := mem_contents.mp hs
          have hr := List.mem_append_right (b.packed p).data.referencedItems ((hloaded r).mp hr)
          refine ⟨mem_contents.mpr ⟨r, hr, hs⟩, ?_⟩
          rcases hs with hs | rfl
          · exact opens_of_inside (hopens r hr).inside hs
          · exact hopens _ hr
      have hcontents := hin.1
      have hdata : (b.packed p).data.referencedItems ++ (b.packed p).data.subItems =
          (p.referencedItems.elements ++ p.subItems.elements).map b.binary := List.map_append.symm
      rw [hdata] at hcontents
      rw [Binaries.OpensAsItem, b.binary_contents hcontents]
      exact hin.2
  · exact absurd hacyclic hcyc
  · exact .inr ⟨hl, hnot⟩

/-- Adding a tag changes nothing else. -/
theorem addTags_items {p p' : TransactionPack} {tags : List (String × HashId)} (h : p.addTags tags = some p') :
    p'.contract = p.contract ∧ p'.subItems = p.subItems ∧ p'.referencedItems = p.referencedItems := by
  have hmeets : Run.Meets (fun q e => TransactionPack.addTag q e.1 e.2) (fun _ _ => True) p tags :=
    Run.meets_of_forall fun _ _ => trivial
  refine Run.invariant (I := fun q => q.contract = p.contract ∧ q.subItems = p.subItems ∧
    q.referencedItems = p.referencedItems) ?_ ⟨rfl, rfl, rfl⟩ hmeets h
  intro q e q' hq _ hstep
  unfold TransactionPack.addTag at hstep
  split at hstep
  · obtain rfl := Option.some.inj hstep
    exact hq
  · cases hstep

theorem objectEntries_nil {V : Type} {o : OrderedMap String V} (h : o.entries = []) : objectEntries o = [] :=
  (h ▸ objectEntries_perm o).eq_nil

/-- Reading a pack again: its items open, and the tags that are kept are added to them. What the main contract
    holds is added to the sub-items. -/
theorem unpack_eq_some {p p' : TransactionPack} (h : p.unpack b = some p') : Opens b p ∧ ∃ q,
    KeepsItems p q ∧ (p.contract.inside = [] → Opens b q) ∧
      q.addTags ((objectEntries p.taggedItems).filter fun e => TransactionPack.keepsTag e.1) = some p' := by
  unfold TransactionPack.unpack at h
  rcases loadSubItems_ids b p with ⟨l, hl, hopens, hids, hall⟩ | ⟨hl, -⟩
  · rw [hl] at h
    obtain ⟨held, hmain, h⟩ := Option.bind_eq_some_iff.mp h
    obtain rfl := openMain_eq_some hmain
    have hmain : (openMain p.contract).isSome = true := Option.isSome_of_eq_some hmain
    have hreferenced : ∀ i ∈ p.referencedItems, b.OpensAsItem i :=
      fun i hi => hopens _ (mem_data.mpr ⟨i, .inl hi, rfl⟩)
    refine ⟨⟨hreferenced, fun i hi => hopens _ (mem_data.mpr ⟨i, .inr hi, rfl⟩), hmain⟩, _,
      ⟨?_, fun i hi => ?_, ?_⟩, fun hnone => ⟨fun i hi => ?_, fun i hi => ?_, ?_⟩, h⟩
    · rfl
    · exact OrderedSet.mem_ofList.mpr (List.mem_append_left _ (hids i hi))
    · exact OrderedSet.elements_ofList p.referencedItems.nodup
    · exact hreferenced i (OrderedSet.mem_elements.mp (OrderedSet.mem_ofList.mp hi))
    · have hi := OrderedSet.mem_ofList.mp hi
      rw [hnone, List.map_nil, List.append_nil] at hi
      exact hall i hi
    · exact hmain
  · rw [hl] at h
    cases h

/-- A pack that is read again was one whose binaries open, and it has its items. -/
theorem of_unpack {p p' : TransactionPack} (h : p.unpack b = some p') :
    Opens b p ∧ KeepsItems p p' ∧ (p.contract.inside = [] → Opens b p') := by
  obtain ⟨hopens, q, hkeeps, hq, htags⟩ := unpack_eq_some h
  obtain ⟨hcontract, hsub, href⟩ := addTags_items htags
  refine ⟨hopens, ⟨hcontract.trans hkeeps.contract, ?_, ?_⟩, fun hnone => ⟨?_, ?_, ?_⟩⟩
  · rw [hsub]
    exact hkeeps.subItems
  · rw [href]
    exact hkeeps.referencedItems
  · rw [href]
    exact (hq hnone).referencedItems
  · rw [hsub]
    exact (hq hnone).subItems
  · rw [hcontract]
    exact (hq hnone).main

/-- A pack whose binaries open is read again, without tags where it had none. -/
theorem unpack_of_opens {p : TransactionPack} (h : Opens b p) (htags : p.taggedItems.entries = []) :
    ∃ p', p.unpack b = some p' ∧ p'.taggedItems.entries = [] := by
  rcases loadSubItems_ids b p with ⟨l, hl, -⟩ | ⟨-, hnot⟩
  · obtain ⟨held, hheld⟩ := Option.isSome_iff_exists.mp h.main
    refine ⟨⟨p.contract, .ofList (l.subItems.map Prod.fst ++ held.map SealedItem.id),
      .ofList p.referencedItems.elements, .empty⟩, ?_, rfl⟩
    rw [TransactionPack.unpack, hl, hheld, objectEntries_nil htags]
    rfl
  · refine absurd (fun s hs => ?_) hnot
    obtain ⟨i, hi | hi, rfl⟩ := mem_data.mp hs
    · exact h.referencedItems i hi
    · exact h.subItems i hi

/-- Tags that are added are there. -/
theorem has_addTags {tags : List (String × HashId)} {e : String × HashId} : ∀ {p p' : TransactionPack},
    p.addTags tags = some p' → e ∈ tags ∨ p.taggedItems.has e.1 = true → p'.taggedItems.has e.1 = true := by
  induction tags with
  | nil =>
    intro p p' h he
    obtain rfl := Option.some.inj h
    exact he.resolve_left List.not_mem_nil
  | cons d tags ih =>
    intro p p' h he
    obtain ⟨q, hq, hrest⟩ := Run.run_cons.mp h
    refine ih hrest ?_
    unfold TransactionPack.addTag at hq
    split at hq
    · obtain rfl := Option.some.inj hq
      rw [List.mem_cons, or_assoc] at he
      rcases he with rfl | he | he
      · exact .inr (OrderedMap.has_set.mpr (.inl rfl))
      · exact .inl he
      · exact .inr (OrderedMap.has_set.mpr (.inr he))
    · cases hq

/-- A tag without the reserved beginning is read again. -/
theorem tagged_of_unpack {p p' : TransactionPack} (h : p.unpack b = some p') {e : String × HashId}
    (he : e ∈ p.taggedItems.entries) (hkeep : TransactionPack.keepsTag e.1 = true) :
      p'.taggedItems.has e.1 = true := by
  obtain ⟨-, q, -, -, htags⟩ := unpack_eq_some h
  exact has_addTags htags (.inl (List.mem_filter.mpr ⟨(objectEntries_perm _).mem_iff.mpr he, hkeep⟩))

/-! ### Trees -/

theorem objects_append (ts us : List Tree) : objects (ts ++ us) = objects ts ++ objects us := by
  induction ts with
  | nil => rfl
  | cons t ts ih => simp [objects, ih]

theorem referencedBy_append (ts us : List Tree) :
    referencedBy (ts ++ us) = referencedBy ts ++ referencedBy us := by
  induction ts with
  | nil => rfl
  | cons t ts ih => simp [referencedBy, ih]

theorem item_mem_objects {ts : List Tree} {t : Tree} (h : t ∈ ts) : t.item ∈ objects ts := by
  induction ts with
  | nil => cases h
  | cons u ts ih =>
    rw [objects, List.mem_cons, List.mem_append]
    rcases List.mem_cons.mp h with rfl | h
    · exact .inl rfl
    · exact .inr (.inr (ih h))

theorem mem_objects_trees {adds : List Add} {o : Item} :
    o ∈ objects (trees adds) ↔ ∃ a ∈ adds, o ∈ objects [a.contractToPutInto.tree] := by
  induction adds with
  | nil => simp [trees, objects]
  | cons a adds ih =>
    have hcons : trees (a :: adds) = [a.contractToPutInto.tree] ++ trees adds := rfl
    rw [hcons, objects_append, List.mem_append, ih, List.exists_mem_cons_iff]

theorem mem_referencedBy_trees {adds : List Add} {i : HashId} :
    i ∈ referencedBy (trees adds) ↔ ∃ a ∈ adds, i ∈ a.contractToPutInto.tree.referenced := by
  induction adds with
  | nil => simp [trees, referencedBy]
  | cons a adds ih =>
    have hcons : trees (a :: adds) = a.contractToPutInto.tree :: trees adds := rfl
    rw [hcons, referencedBy, List.mem_append, ih, List.exists_mem_cons_iff]

theorem trees_append (adds adds' : List Add) : trees (adds ++ adds') = trees adds ++ trees adds' :=
  List.map_append ..

/-! ### What one call does -/

theorem addContract_iff {c c' : Compound} {a : Add} : c.addContract b a = some c' ↔
    ∃ copy, c.copy b a.contractToPutInto = some copy ∧ copy.taggedItems.entries = [] ∧
      c' = c.put a copy := by
  unfold Compound.addContract
  rw [Option.bind_eq_bind, Option.bind_eq_some_iff]
  refine exists_congr fun copy => and_congr_right fun _ => ?_
  constructor
  · intro h
    split at h
    next htags => exact ⟨htags, (Option.some.inj h).symm⟩
    · cases h
  · rintro ⟨htags, rfl⟩
    exact if_pos htags

/-- CODE DEFECT (`addContract`): it throws for every new contract with a tag that is read again. -/
theorem addContract_tagged {c : Compound} {a : Add}
    (hnew : a.contractToPutInto.tree.item ∉ objects c.newItems)
    {e : String × HashId} (he : e ∈ (a.contractToPutInto.pack b).taggedItems.entries)
    (hkeep : TransactionPack.keepsTag e.1 = true) : c.addContract b a = none := by
  refine Option.eq_none_iff_forall_ne_some.mpr fun c' h => ?_
  obtain ⟨copy, hcopy, hnone, -⟩ := addContract_iff.mp h
  rw [Compound.copy, if_neg hnew] at hcopy
  have hhas := tagged_of_unpack hcopy he hkeep
  rw [OrderedMap.has, OrderedMap.get?, hnone] at hhas
  cases hhas

theorem get?_assignProperty {V : Type} (o : OrderedMap String V) (k i : String) (v : V) :
    (assignProperty o k v).get? i = if i = k ∧ k ≠ "__proto__" then some v else o.get? i := by
  unfold assignProperty
  split
  next h => rw [if_neg fun hi => hi.2 h]
  next h =>
    rw [OrderedMap.get?_set]
    by_cases hi : i = k
    · rw [if_pos hi, if_pos ⟨hi, h⟩]
    · rw [if_neg hi, if_neg fun hi' => hi hi'.1]

theorem run_snoc {adds : List Add} {a : Add} {c c' : Compound} :
    Run.run (Compound.addContract b) c (adds ++ [a]) = some c' ↔
      ∃ s, Run.run (Compound.addContract b) c adds = some s ∧ s.addContract b a = some c' := by
  rw [Run.run_append]
  refine exists_congr fun s => and_congr_right fun _ => ?_
  rw [Run.run_cons]
  exact ⟨fun ⟨s₁, h, hs₁⟩ => Option.some.inj hs₁ ▸ h, fun h => ⟨c', h, rfl⟩⟩

/-! ### What every run keeps -/

/-- What is sealed is what is in memory, and nothing sets a name other than those of the tags. -/
structure Sound (adds : List Add) (c : Compound) : Prop where
  sealed : c.sealedContracts = c.contracts
  names : ∀ tag, c.contracts.has tag = true ↔ tag ∈ adds.map Add.tag ∧ tag ≠ "__proto__"
  main : ∃ id newItems, c.transactionPack.contract = compoundBinary id newItems
  untagged : c.transactionPack.taggedItems.entries = []
  contract : ∀ before a, adds = before ++ [a] → c.transactionPack.contract.id = a.sealedId

theorem sound_init (init : HashId) : Sound [] (.init init : Compound) where
  sealed := rfl
  names tag := by simp [Compound.init, OrderedMap.has]
  main := ⟨_, _, rfl⟩
  untagged := rfl
  contract before a h := by simp at h

theorem sound_put {adds : List Add} {c : Compound} (h : Sound adds c) (a : Add)
    (copy : TransactionPack) : Sound (adds ++ [a]) (c.put a copy) where
  sealed := rfl
  names tag := by
    rw [OrderedMap.has_iff, Compound.put, get?_assignProperty, List.map_append, List.mem_append,
      List.map_singleton, List.mem_singleton]
    have hnames := h.names tag
    rw [OrderedMap.has_iff] at hnames
    by_cases htag : tag = a.tag ∧ a.tag ≠ "__proto__"
    · rw [if_pos htag]
      exact iff_of_true ⟨_, rfl⟩ ⟨.inr htag.1, htag.1 ▸ htag.2⟩
    · rw [if_neg htag, hnames]
      refine and_congr_left fun hproto => (or_iff_left ?_).symm
      rintro rfl
      exact htag ⟨rfl, hproto⟩
  main := ⟨_, _, rfl⟩
  untagged := rfl
  contract before a' heq := by
    obtain ⟨-, hlast⟩ := List.append_inj' heq rfl
    obtain rfl := (List.cons.inj hlast).1
    rfl

theorem sound_run {adds : List Add} : ∀ {c : Compound},
    Run.run (Compound.addContract b) (.init init) adds = some c → Sound adds c := by
  induction adds using List.reverseRecOn with
  | nil =>
    intro c h
    obtain rfl := Option.some.inj h
    exact sound_init init
  | append_singleton adds a ih =>
    intro c h
    obtain ⟨s, hs, ha⟩ := run_snoc.mp h
    obtain ⟨copy, -, -, rfl⟩ := addContract_iff.mp ha
    exact sound_put (ih hs) a copy

/-- Calls with other tags leave a name as it is. -/
theorem get?_run {adds : List Add} {tag : String} (htag : ∀ a ∈ adds, tag ≠ a.tag) :
    ∀ {s c : Compound},
    Run.run (Compound.addContract b) s adds = some c → c.contracts.get? tag = s.contracts.get? tag := by
  induction adds with
  | nil =>
    intro s c h
    obtain rfl := Option.some.inj h
    rfl
  | cons a adds ih =>
    intro s c h
    obtain ⟨ha, hadds⟩ := List.forall_mem_cons.mp htag
    obtain ⟨s₁, hstep, hrest⟩ := Run.run_cons.mp h
    obtain ⟨copy, -, -, rfl⟩ := addContract_iff.mp hstep
    rw [ih hadds hrest, Compound.put, get?_assignProperty, if_neg fun hk => ha hk.1]

/-- What one call of a run does, and what the definition has of it in the end. -/
theorem call_of_run {before after : List Add} {a : Add} {c : Compound}
    (htags : ((before ++ a :: after).map Add.tag).Nodup)
    (h : Run.run (Compound.addContract b) (.init init) (before ++ a :: after) = some c) :
    ∃ s copy, Run.run (Compound.addContract b) (.init init) before = some s ∧
      s.copy b a.contractToPutInto = some copy ∧ copy.taggedItems.entries = [] ∧
      (a.tag ≠ "__proto__" → c.contracts.get? a.tag =
        some ⟨copy.contract.id, a.dataToAssociateWith.value, copy.referencedItems.elements, []⟩) := by
  obtain ⟨s, hs, hrest⟩ := Run.run_append.mp h
  obtain ⟨s₁, hstep, hafter⟩ := Run.run_cons.mp hrest
  obtain ⟨copy, hcopy, hnone, rfl⟩ := addContract_iff.mp hstep
  refine ⟨s, copy, hs, hcopy, hnone, fun hproto => ?_⟩
  have hnew : ∀ a' ∈ after, a.tag ≠ a'.tag := by
    intro a' ha' heq
    rw [List.map_append, List.map_cons, List.nodup_append] at htags
    exact (List.nodup_cons.mp htags.2.1).1 (heq ▸ List.mem_map_of_mem ha')
  rw [get?_run hnew hafter, Compound.put, get?_assignProperty, if_pos ⟨rfl, hproto⟩]

/-! ### Runs that add new objects -/

/-- No call adds an object that was added before or is below one that was. -/
def AllFresh (adds : List Add) : Prop :=
  ∀ before a after, adds = before ++ a :: after → a.contractToPutInto.tree.item ∉ objects (trees before)

/-- What is below the compound, and what was attached to its pack. -/
structure Contents (b : Binaries) (adds : List Add) (c : Compound) : Prop where
  newItems : c.newItems = trees adds
  subItems : ∀ i, i ∈ c.transactionPack.subItems ↔ i ∈ (objects (trees adds)).map Item.id
  referencedItems : ∀ i, i ∈ c.transactionPack.referencedItems ↔ i ∈ referencedBy (trees adds) ∨
    ∃ a ∈ adds, i ∈ (a.contractToPutInto.pack b).referencedItems

theorem AllFresh.before {before after : List Add} (h : AllFresh (before ++ after)) :
    AllFresh before := by
  intro before' a after' heq
  exact h before' a (after' ++ after) (by rw [heq, List.append_assoc, List.cons_append])

theorem addItem_of_fresh {ts : List Tree} {t : Tree} (h : t.item ∉ objects ts) : addItem ts t = ts ++ [t] := by
  refine if_neg fun hmem => ?_
  obtain ⟨u, hu, heq⟩ := List.mem_map.mp hmem
  exact h (heq ▸ item_mem_objects hu)

theorem contents_put {adds : List Add} {c : Compound} (h : Contents b adds c) {a : Add}
    {copy : TransactionPack} (hfresh : a.contractToPutInto.tree.item ∉ objects (trees adds))
    (hrefs : copy.referencedItems.elements = (a.contractToPutInto.pack b).referencedItems.elements) :
    Contents b (adds ++ [a]) (c.put a copy) := by
  have hnew : addItem c.newItems a.contractToPutInto.tree = trees (adds ++ [a]) := by
    rw [h.newItems, addItem_of_fresh hfresh, trees_append]
    rfl
  refine ⟨hnew, fun i => ?_, fun i => ?_⟩
  · simp only [Compound.put, TransactionPack.reseal, TransactionPack.create, OrderedSet.mem_ofList, hnew]
  · simp only [Compound.put, TransactionPack.reseal, TransactionPack.create, OrderedSet.mem_ofList,
      OrderedSet.mem_addAll, hnew, OrderedSet.mem_elements, h.referencedItems, hrefs, trees_append,
      referencedBy_append, List.mem_append, List.mem_singleton, or_and_right, exists_or, exists_eq_left]
    grind

/-- A run that adds new objects keeps all their items. -/
theorem contents_run {adds : List Add} (hfresh : AllFresh adds) : ∀ {c : Compound},
    Run.run (Compound.addContract b) (.init init) adds = some c → Contents b adds c := by
  induction adds using List.reverseRecOn with
  | nil =>
    intro c h
    obtain rfl := Option.some.inj h
    refine ⟨rfl, fun i => ?_, fun i => ?_⟩
    · simp [Compound.init, TransactionPack.create, trees, objects]
    · simp [Compound.init, TransactionPack.create, trees, referencedBy]
  | append_singleton adds a ih =>
    intro c h
    obtain ⟨s, hs, ha⟩ := run_snoc.mp h
    obtain ⟨copy, hcopy, -, rfl⟩ := addContract_iff.mp ha
    have hcontents := ih hfresh.before hs
    have hnew := hfresh adds a [] rfl
    rw [Compound.copy, hcontents.newItems, if_neg hnew] at hcopy
    exact contents_put hcontents hnew (of_unpack hcopy).2.1.referencedItems

/-! ### Reading a compound -/

theorem readContracts_iff {m m' : OrderedMap String TagObj} : readContracts m = some m' ↔
    ((binderOf m.entries).delete "__proto__").has "hasOwnProperty" = false ∧
      (∀ tag t, ((binderOf m.entries).delete "__proto__").get? tag = some t → (stored t.data).isSome = true) ∧
      m' = ((binderOf m.entries).delete "__proto__").map TagObj.read := by
  unfold readContracts
  dsimp only
  generalize (binderOf m.entries).delete "__proto__" = carried
  have hvalues : (carried.values.all fun t => (stored t.data).isSome) = true ↔
      ∀ tag t, carried.get? tag = some t → (stored t.data).isSome = true := by
    rw [List.all_eq_true]
    refine ⟨fun h tag t ht => h t (OrderedMap.mem_values.mpr ⟨tag, ht⟩), fun h t ht => ?_⟩
    obtain ⟨tag, htag⟩ := OrderedMap.mem_values.mp ht
    exact h tag t htag
  rw [← hvalues]
  constructor
  · intro h
    split at h
    · cases h
    next hown =>
      split at h
      next hall => exact ⟨Bool.eq_false_iff.mpr hown, hall, (Option.some.inj h).symm⟩
      · cases h
  · rintro ⟨hown, hall, rfl⟩
    rw [if_neg (Bool.eq_false_iff.mp hown), if_pos hall]

theorem fromPackedTransaction_iff {c loaded : Sealed} : c.fromPackedTransaction b = some loaded ↔
    ∃ tp contracts, c.transactionPack.unpack b = some tp ∧ readContracts c.sealedContracts = some contracts ∧
      loaded = ⟨contracts, c.sealedContracts, tp⟩ := by
  unfold Sealed.fromPackedTransaction
  simp only [Option.bind_eq_bind, Option.bind_eq_some_iff, Option.pure_def, Option.some.injEq]
  grind

/-- Names that BOSS carries as they are. -/
structure Carried (m : OrderedMap String TagObj) : Prop where
  proto : m.has "__proto__" = false
  names : ∀ tag ∈ m.keys, arrayIndex? tag = none ∧ cText tag = tag

theorem Carried.get? {m : OrderedMap String TagObj} (h : Carried m) (tag : String) :
    ((binderOf m.entries).delete "__proto__").get? tag = m.get? tag := by
  rw [OrderedMap.get?_delete]
  split
  next heq =>
    have hproto := h.proto
    rw [OrderedMap.has, ← heq, Option.isSome_eq_false_iff, Option.isNone_iff_eq_none] at hproto
    exact hproto.symm
  next => exact (OrderedMap.lookup_perm (binderOf_perm m h.names) (binderOf m.entries).nodup tag).symm

theorem get?_loaded {c loaded : Sealed} (h : c.fromPackedTransaction b = some loaded)
    (hcarried : Carried c.sealedContracts) (tag : String) :
    loaded.contracts.get? tag = (c.sealedContracts.get? tag).map TagObj.read := by
  obtain ⟨tp, contracts, -, hread, rfl⟩ := fromPackedTransaction_iff.mp h
  obtain ⟨-, -, rfl⟩ := readContracts_iff.mp hread
  rw [OrderedMap.get?_map, hcarried.get?]

/-- A compound that was loaded is loaded again. -/
theorem loaded_again {c loaded : Sealed} (h : c.fromPackedTransaction b = some loaded)
    (hmain : c.transactionPack.contract.inside = []) (htags : c.transactionPack.taggedItems.entries = []) :
      ∃ again, loaded.fromPackedTransaction b = some again ∧
      (∀ i ∈ c.transactionPack.subItems, i ∈ again.transactionPack.subItems) ∧
      again.transactionPack.referencedItems.elements = c.transactionPack.referencedItems.elements := by
  obtain ⟨tp, contracts, htp, hread, rfl⟩ := fromPackedTransaction_iff.mp h
  obtain ⟨hopens, hkeeps, hopens'⟩ := of_unpack htp
  obtain ⟨tp', htp', hnone⟩ := unpack_of_opens hopens htags
  obtain rfl := Option.some.inj (htp.symm.trans htp')
  obtain ⟨tp', htp', -⟩ := unpack_of_opens (hopens' hmain) hnone
  obtain ⟨-, hkeeps', -⟩ := of_unpack htp'
  refine ⟨_, fromPackedTransaction_iff.mpr ⟨tp', contracts, htp', hread, rfl⟩, fun i hi => ?_, ?_⟩
  · exact hkeeps'.subItems i (hkeeps.subItems i hi)
  · exact hkeeps'.referencedItems.trans hkeeps.referencedItems

theorem mem_getTags {c : Sealed} {tag : String} : tag ∈ c.getTags ↔ c.contracts.has tag = true := by
  rw [OrderedMap.has_iff_mem, Sealed.getTags, ((objectEntries_perm c.contracts).map Prod.fst).mem_iff]
  rfl

/-- What is answered for a `tagObj` without tags. -/
structure Answers (t : TagObj) (f : Found) : Prop where
  id : f.id = t.id
  contract : f.transactionPack.contract.id = t.id
  referencedItems : ∀ i, i ∈ f.transactionPack.referencedItems ↔ i ∈ t.refs
  untagged : f.transactionPack.taggedItems.entries = []

theorem answers_of_found {c : Sealed} {tag : String} {t : TagObj} {f : Found}
    (ht : c.contracts.get? tag = some t) (htags : t.tags = []) (h : c.getContractByTag b tag = some f) :
    Answers t f := by
  unfold Sealed.getContractByTag at h
  simp only [Option.bind_eq_bind, ht, Option.bind_some, Option.bind_eq_some_iff] at h
  obtain ⟨again, -, h⟩ := h
  split at h
  · rw [htags] at h
    obtain rfl := Option.some.inj h
    exact ⟨rfl, b.binary_id _, fun i => OrderedSet.mem_ofList, rfl⟩
  · cases h

theorem found_of_items {c again : Sealed} {tag : String} {t : TagObj}
    (ht : c.contracts.get? tag = some t) (htags : t.tags = [])
    (hagain : c.fromPackedTransaction b = some again)
    (hid : t.id ∈ again.transactionPack.subItems)
    (hrefs : ∀ i ∈ t.refs, i ∈ again.transactionPack.referencedItems) :
    ∃ f, c.getContractByTag b tag = some f ∧ Answers t f := by
  have hfound : ∃ f, c.getContractByTag b tag = some f := by
    unfold Sealed.getContractByTag
    simp only [Option.bind_eq_bind, ht, hagain, Option.bind_some, if_pos (And.intro hid hrefs), htags]
    exact ⟨_, rfl⟩
  obtain ⟨f, hf⟩ := hfound
  exact ⟨f, hf, answers_of_found ht htags hf⟩

/-! ### What fits is given back -/

theorem AllFit.fresh {adds : List Add} (h : AllFit b adds) : AllFresh adds :=
  fun before a after heq => (h before a after heq).fresh

theorem AllFit.before {before after : List Add} (h : AllFit b (before ++ after)) :
    AllFit b before := by
  intro before' a after' heq
  exact h before' a (after' ++ after) (by rw [heq, List.append_assoc, List.cons_append])

theorem AllFit.fits {adds : List Add} (h : AllFit b adds) {a : Add} (ha : a ∈ adds) :
    ∃ before, Fits b before a := by
  obtain ⟨before, after, rfl⟩ := List.append_of_mem ha
  exact ⟨before, h before a after rfl⟩

/-- Two contracts with one id have the same referenced items, in whatever order they were added. -/
theorem AllFit.same {adds : List Add} (h : AllFit b adds) {a a' : Add} (ha : a ∈ adds)
    (ha' : a' ∈ adds) (hid : a'.contractToPutInto.id = a.contractToPutInto.id) (i : HashId) :
    i ∈ (a'.contractToPutInto.pack b).referencedItems ↔ i ∈ (a.contractToPutInto.pack b).referencedItems := by
  obtain ⟨before, after, rfl⟩ := List.append_of_mem ha
  rcases List.mem_append.mp ha' with hbefore | hrest
  · exact (h before a after rfl).same a' hbefore hid i
  · rcases List.mem_cons.mp hrest with rfl | hafter
    · exact Iff.rfl
    · obtain ⟨mid, rest, rfl⟩ := List.append_of_mem hafter
      have heq : before ++ a :: (mid ++ a' :: rest) = (before ++ a :: mid) ++ a' :: rest := by simp
      exact ((h _ a' rest heq).same a (by simp) hid.symm i).symm

/-- A contract that fits opens from its own pack. -/
theorem Fits.opens {before : List Add} {a : Add} (h : Fits b before a) :
    Opens b (a.contractToPutInto.pack b) :=
  ⟨fun i hi => h.items i (.inr hi), fun i hi => h.items i (.inl hi), h.main⟩

theorem run_of_allFit {adds : List Add} (h : AllFit b adds) :
    ∃ c, Run.run (Compound.addContract b) (.init init) adds = some c := by
  induction adds using List.reverseRecOn with
  | nil => exact ⟨_, rfl⟩
  | append_singleton adds a ih =>
    obtain ⟨s, hs⟩ := ih h.before
    have hfits := h adds a [] rfl
    obtain ⟨copy, hcopy, hnone⟩ := unpack_of_opens hfits.opens hfits.untagged
    have hnew : s.copy b a.contractToPutInto = some copy := by
      rw [Compound.copy, (contents_run h.before.fresh hs).newItems, if_neg hfits.fresh, hcopy]
    exact ⟨_, run_snoc.mpr ⟨s, hs, addContract_iff.mpr ⟨copy, hnew, hnone, rfl⟩⟩⟩

/-- The `tagObj` of a contract that fits. -/
theorem tagObj_of_allFit {adds : List Add} (h : AllFit b adds) (htags : (adds.map Add.tag).Nodup)
    {c : Compound} (hrun : Run.run (Compound.addContract b) (.init init) adds = some c) {a : Add}
    (ha : a ∈ adds) : c.contracts.get? a.tag = some ⟨a.contractToPutInto.id, a.dataToAssociateWith.value,
      (a.contractToPutInto.pack b).referencedItems.elements, []⟩ := by
  obtain ⟨before, after, rfl⟩ := List.append_of_mem ha
  have hfits := h before a after rfl
  obtain ⟨s, copy, hs, hcopy, -, hget⟩ := call_of_run htags hrun
  rw [Compound.copy, (contents_run h.before.fresh hs).newItems, if_neg hfits.fresh] at hcopy
  obtain ⟨-, hkeeps, -⟩ := of_unpack hcopy
  rw [hget hfits.tag.1, hkeeps.contract, hfits.own, hkeeps.referencedItems]

/-- The names of contracts that fit are carried. -/
theorem carried_of_allFit {adds : List Add} (h : AllFit b adds) {c : Compound}
    (hrun : Run.run (Compound.addContract b) (.init init) adds = some c) : Carried c.sealedContracts := by
  have hsound := sound_run hrun
  have hnames : ∀ tag, c.sealedContracts.has tag = true → tag ∈ adds.map Add.tag ∧ tag ≠ "__proto__" := by
    intro tag htag
    rw [hsound.sealed] at htag
    exact (hsound.names tag).mp htag
  refine ⟨Bool.eq_false_iff.mpr fun hproto => (hnames _ hproto).2 rfl, fun tag htag => ?_⟩
  obtain ⟨a, ha, rfl⟩ := List.mem_map.mp (hnames tag (OrderedMap.has_iff_mem.mpr htag)).1
  obtain ⟨before, hfits⟩ := h.fits ha
  exact hfits.tag.2.2

/-- The compound that contracts were added to that fit is loaded. -/
theorem loaded_of_allFit {adds : List Add} (h : AllFit b adds) (htags : (adds.map Add.tag).Nodup)
    {c : Compound} (hrun : Run.run (Compound.addContract b) (.init init) adds = some c) :
    ∃ loaded, c.fromPackedTransaction b = some loaded := by
  have hsound := sound_run hrun
  have hcontents := contents_run h.fresh hrun
  obtain ⟨id, newItems, hmain⟩ := hsound.main
  have hcarried := carried_of_allFit h hrun
  have hopens : Opens b c.transactionPack := by
    refine ⟨fun i hi => ?_, fun i hi => ?_, by rw [hmain]; rfl⟩
    · rcases (hcontents.referencedItems i).mp hi with hi | ⟨a, ha, hi⟩
      · obtain ⟨a, ha, hi⟩ := mem_referencedBy_trees.mp hi
        obtain ⟨before, hfits⟩ := h.fits ha
        exact hfits.matching i hi
      · obtain ⟨before, hfits⟩ := h.fits ha
        exact hfits.items i (.inr hi)
    · obtain ⟨o, ho, rfl⟩ := List.mem_map.mp ((hcontents.subItems i).mp hi)
      obtain ⟨a, ha, ho⟩ := mem_objects_trees.mp ho
      obtain ⟨before, hfits⟩ := h.fits ha
      exact hfits.nested o ho
  obtain ⟨tp, htp, -⟩ := unpack_of_opens hopens hsound.untagged
  refine ⟨_, fromPackedTransaction_iff.mpr ⟨tp, _, htp, readContracts_iff.mpr ⟨?_, fun tag t ht => ?_, rfl⟩, rfl⟩⟩
  · refine Bool.eq_false_iff.mpr fun hown => ?_
    rw [OrderedMap.has, hcarried.get?, ← OrderedMap.has, hsound.sealed, hsound.names, List.mem_map] at hown
    obtain ⟨⟨a, ha, heq⟩, -⟩ := hown
    obtain ⟨before, hfits⟩ := h.fits ha
    exact hfits.tag.2.1 heq
  · rw [hcarried.get?, hsound.sealed] at ht
    obtain ⟨htag, -⟩ := (hsound.names tag).mp (OrderedMap.has_iff.mpr ⟨t, ht⟩)
    obtain ⟨a, ha, rfl⟩ := List.mem_map.mp htag
    obtain rfl := Option.some.inj ((tagObj_of_allFit h htags hrun ha).symm.trans ht)
    obtain ⟨before, hfits⟩ := h.fits ha
    obtain ⟨d, hd, -⟩ := (stored_iff a.dataToAssociateWith.distinct).mpr hfits.data
    exact Option.isSome_of_eq_some hd

/-- The answer for a `tagObj` with the id and the referenced items of an untagged contract is that contract. -/
theorem Answers.isBack {t : TagObj} {f : Found} {r : Root} (h : Answers t f) (hid : t.id = r.id)
    (hrefs : ∀ i, i ∈ t.refs ↔ i ∈ (r.pack b).referencedItems) (hnone : (r.pack b).taggedItems.entries = []) :
    IsBack b r f where
  id := h.id.trans hid
  contract := h.contract.trans hid
  referencedItems i := (h.referencedItems i).trans (hrefs i)
  taggedItems tag := by rw [OrderedMap.get?, OrderedMap.get?, h.untagged, hnone]

/-- By an id answers the first name whose contract has it. -/
theorem getContractById_eq {c : Sealed} {tag : String} {t : TagObj} (ht : c.contracts.get? tag = some t) :
    ∃ tag' t', c.contracts.get? tag' = some t' ∧ t'.id = t.id ∧
      c.getContractById b t.id = c.getContractByTag b tag' := by
  have hmem := (objectEntries_perm _).mem_iff.mpr (OrderedMap.get?_eq_some_iff.mp ht)
  cases hfind : (objectEntries c.contracts).find? fun e => e.2.id = t.id with
  | none =>
      have hnot := List.find?_eq_none.mp hfind _ hmem
      simp at hnot
  | some e =>
      obtain ⟨tag', t'⟩ := e
      have hin := (objectEntries_perm _).mem_iff.mp (List.mem_of_find?_eq_some hfind)
      refine ⟨tag', t', OrderedMap.get?_eq_some_iff.mpr hin, by simpa using List.find?_some hfind, ?_⟩
      rw [Sealed.getContractById, hfind]

theorem givesBack_of_allFit {adds : List Add} (h : AllFit b adds) (htags : (adds.map Add.tag).Nodup) :
    GivesBack b init adds := by
  obtain ⟨c, hrun⟩ : ∃ c, Run.run (Compound.addContract b) (.init init) adds = some c := run_of_allFit h
  obtain ⟨loaded, hload⟩ := loaded_of_allFit h htags hrun
  have hsound := sound_run hrun
  have hcontents := contents_run h.fresh hrun
  have hcarried := carried_of_allFit h hrun
  have hnames : ∀ tag, loaded.contracts.has tag = true ↔ tag ∈ adds.map Add.tag := by
    intro tag
    have hhas : loaded.contracts.has tag = c.contracts.has tag := by
      rw [OrderedMap.has, OrderedMap.has, get?_loaded hload hcarried, hsound.sealed, Option.isSome_map]
    rw [hhas, hsound.names, and_iff_left_of_imp]
    intro htag
    obtain ⟨a, ha, rfl⟩ := List.mem_map.mp htag
    obtain ⟨before, hfits⟩ := h.fits ha
    exact hfits.tag.1
  have hget : ∀ a ∈ adds, ∃ d, SameData d a.dataToAssociateWith.value ∧ loaded.contracts.get? a.tag =
      some ⟨a.contractToPutInto.id, d, (a.contractToPutInto.pack b).referencedItems.elements, []⟩ := by
    intro a ha
    obtain ⟨before, hfits⟩ := h.fits ha
    obtain ⟨d, hd, hsame⟩ := (stored_iff a.dataToAssociateWith.distinct).mpr hfits.data
    refine ⟨d, hsame, ?_⟩
    rw [get?_loaded hload hcarried, hsound.sealed, tagObj_of_allFit h htags hrun ha, Option.map_some, TagObj.read,
      hd]
    rfl
  obtain ⟨id, newItems, hmain⟩ := hsound.main
  have hinside : c.transactionPack.contract.inside = [] := by
    rw [hmain]
    rfl
  obtain ⟨again, hagain, hkept, hreferenced⟩ := loaded_again hload hinside hsound.untagged
  -- every contract with the id of another one answers for it
  have hfound : ∀ a ∈ adds, ∀ a' ∈ adds, a'.contractToPutInto.id = a.contractToPutInto.id →
      ∃ f, loaded.getContractByTag b a'.tag = some f ∧ IsBack b a.contractToPutInto f := by
    intro a ha a' ha' hid
    obtain ⟨before, hfits⟩ := h.fits ha
    obtain ⟨d, -, ht⟩ := hget a' ha'
    have hsub : a'.contractToPutInto.id ∈ again.transactionPack.subItems := by
      refine hkept _ ((hcontents.subItems _).mpr ?_)
      exact List.mem_map_of_mem (mem_objects_trees.mpr ⟨a', ha', List.mem_cons_self⟩)
    have hrefs : ∀ i ∈ (a'.contractToPutInto.pack b).referencedItems.elements,
        i ∈ again.transactionPack.referencedItems := by
      intro i hi
      rw [← OrderedSet.mem_elements, hreferenced, OrderedSet.mem_elements, hcontents.referencedItems]
      exact .inr ⟨a', ha', hi⟩
    obtain ⟨f, hf, hans⟩ := found_of_items ht rfl hagain hsub hrefs
    exact ⟨f, hf, hans.isBack hid (h.same ha ha' hid) hfits.untagged⟩
  refine ⟨c, loaded, hrun, hload, ?_, fun a ha => ⟨?_, hfound a ha a ha rfl, ?_⟩⟩
  · refine (List.perm_ext_iff_of_nodup (nodup_objectEntries _) htags).mpr fun tag => ?_
    exact mem_getTags.trans (hnames tag)
  · obtain ⟨d, hsame, ht⟩ := hget a ha
    refine ⟨d, ?_, hsame⟩
    rw [Sealed.getData, ht, Option.map_some]
  · -- the name that answers is one of those added
    obtain ⟨d, -, ht⟩ := hget a ha
    obtain ⟨tag, t, ht', hid, heq⟩ := getContractById_eq (b := b) ht
    obtain ⟨a', ha', rfl⟩ := List.mem_map.mp ((hnames tag).mp (OrderedMap.has_iff.mpr ⟨t, ht'⟩))
    obtain ⟨d', -, ht''⟩ := hget a' ha'
    obtain rfl := Option.some.inj (ht''.symm.trans ht')
    obtain ⟨f, hf, hback⟩ := hfound a ha a' ha' hid
    exact ⟨f, heq.trans hf, hback⟩

/-! ### What is given back fits -/

/-- Where all tags are there again, they were carried. -/
theorem carried_of_tags {adds : List Add} {c : Compound} {loaded : Sealed}
    (hrun : Run.run (Compound.addContract b) (.init init) adds = some c)
    (hload : c.fromPackedTransaction b = some loaded) (hperm : loaded.getTags.Perm (adds.map Add.tag)) :
    Carried c.sealedContracts ∧ ∀ tag ∈ adds.map Add.tag,
      tag ≠ "__proto__" ∧ tag ≠ "hasOwnProperty" ∧ arrayIndex? tag = none ∧ cText tag = tag := by
  have hsound := sound_run hrun
  obtain ⟨tp, contracts, -, hread, rfl⟩ := fromPackedTransaction_iff.mp hload
  obtain ⟨hown, -, rfl⟩ := readContracts_iff.mp hread
  have hkey : ∀ tag ∈ adds.map Add.tag,
      tag ≠ "__proto__" ∧ ((binderOf c.sealedContracts.entries).delete "__proto__").has tag = true ∧
        ∃ e ∈ c.sealedContracts.entries, arrayIndex? e.1 = none ∧ cText e.1 = tag := by
    intro tag htag
    have hhas := mem_getTags.mp (hperm.mem_iff.mpr htag)
    rw [OrderedMap.has, OrderedMap.get?_map, Option.isSome_map, ← OrderedMap.has] at hhas
    obtain ⟨hproto, hcarried⟩ := OrderedMap.has_delete.mp hhas
    exact ⟨hproto, hhas, has_binderOf.mp hcarried⟩
  have hcut : ∀ tag ∈ adds.map Add.tag, cText tag = tag := by
    intro tag htag
    obtain ⟨-, -, e, -, -, he⟩ := hkey tag htag
    rw [← he, cText_cText]
  have hsealed : ∀ e ∈ c.sealedContracts.entries, e.1 ∈ adds.map Add.tag ∧ e.1 ≠ "__proto__" := by
    intro e he
    rw [hsound.sealed] at he
    exact (hsound.names e.1).mp (OrderedMap.has_iff_mem.mpr (List.mem_map_of_mem he))
  have hindex : ∀ tag ∈ adds.map Add.tag, arrayIndex? tag = none := by
    intro tag htag
    obtain ⟨-, -, e, hmem, hindex, he⟩ := hkey tag htag
    rwa [← he, hcut _ (hsealed e hmem).1]
  refine ⟨⟨Bool.eq_false_iff.mpr fun hproto => ?_, fun tag htag => ?_⟩, fun tag htag => ⟨(hkey tag htag).1, ?_,
    hindex tag htag, hcut tag htag⟩⟩
  · obtain ⟨e, he, hname⟩ := List.mem_map.mp (OrderedMap.has_iff_mem.mp hproto)
    exact (hsealed e he).2 hname
  · obtain ⟨e, he, rfl⟩ := List.mem_map.mp htag
    exact ⟨hindex _ (hsealed e he).1, hcut _ (hsealed e he).1⟩
  · rintro rfl
    rw [(hkey _ htag).2.1] at hown
    cases hown

/-- What a compound that gives everything back tells of one call. -/
theorem call_of_givesBack {c : Compound} {loaded : Sealed} {before after : List Add} {a : Add}
    (htags : ((before ++ a :: after).map Add.tag).Nodup)
    (hrun : Run.run (Compound.addContract b) (.init init) (before ++ a :: after) = some c)
    (hload : c.fromPackedTransaction b = some loaded)
    (hperm : loaded.getTags.Perm ((before ++ a :: after).map Add.tag))
    (hdata : ∃ d, loaded.getData a.tag = some d ∧ SameData d a.dataToAssociateWith.value)
    (hback : ∃ f, loaded.getContractByTag b a.tag = some f ∧ IsBack b a.contractToPutInto f) :
    Storable a.dataToAssociateWith.value ∧ (a.contractToPutInto.pack b).taggedItems.entries = [] ∧
      ∃ s copy, Run.run (Compound.addContract b) (.init init) before = some s ∧
        s.copy b a.contractToPutInto = some copy ∧ copy.contract.id = a.contractToPutInto.id := by
  have hsound := sound_run hrun
  obtain ⟨hcarried, hnames⟩ := carried_of_tags hrun hload hperm
  obtain ⟨_, _, -, hread, -⟩ := fromPackedTransaction_iff.mp hload
  obtain ⟨-, hall, -⟩ := readContracts_iff.mp hread
  obtain ⟨s, copy, hs, hcopy, -, hget⟩ := call_of_run htags hrun
  have hget := hget (hnames a.tag (List.mem_map_of_mem (by simp))).1
  have hloaded := get?_loaded hload hcarried a.tag
  rw [hsound.sealed, hget, Option.map_some] at hloaded
  obtain ⟨f, hf, hisBack⟩ := hback
  have hans := answers_of_found hloaded rfl hf
  refine ⟨?_, ?_, s, copy, hs, hcopy, hans.id.symm.trans hisBack.id⟩
  · obtain ⟨d, hd⟩ := Option.isSome_iff_exists.mp (hall a.tag _ (by rw [hcarried.get?, hsound.sealed, hget]))
    have hd : stored a.dataToAssociateWith.value = some d := hd
    obtain ⟨d', hd', hsame⟩ := hdata
    rw [Sealed.getData, hloaded, Option.map_some, TagObj.read, hd] at hd'
    obtain rfl := Option.some.inj hd'
    exact (stored_iff a.dataToAssociateWith.distinct).mp ⟨d, hd, hsame⟩
  · refine List.eq_nil_iff_forall_not_mem.mpr fun e he => ?_
    have hsome := hisBack.taggedItems e.1
    rw [OrderedMap.get?_eq_some_iff.mpr he, OrderedMap.get?, hans.untagged] at hsome
    cases hsome

theorem allFresh_of_givesBack {adds : List Add} (htags : (adds.map Add.tag).Nodup) (hids : NewIds adds)
    (h : GivesBack b init adds) : AllFresh adds := by
  obtain ⟨c, loaded, hrun, hload, hperm, hall⟩ := h
  -- by induction on how many contracts were added before
  have key : ∀ n before a after, before.length = n → adds = before ++ a :: after →
      a.contractToPutInto.tree.item ∉ objects (trees before) := by
    intro n
    induction n using Nat.strong_induction_on with
    | _ n ih =>
      rintro before a after hlen rfl hmem
      obtain ⟨hdata, hback, -⟩ := hall a (by simp)
      obtain ⟨-, -, s, copy, hs, hcopy, hid⟩ := call_of_givesBack htags hrun hload hperm hdata hback
      have hfresh : AllFresh before := by
        rintro before' a' after' rfl
        refine ih before'.length ?_ before' a' (after' ++ a :: after) rfl (by simp)
        rw [← hlen, List.length_append, List.length_cons]
        omega
      rw [Compound.copy, (contents_run hfresh hs).newItems, if_pos hmem] at hcopy
      obtain ⟨again, hagain, rfl⟩ := Option.map_eq_some_iff.mp hcopy
      obtain ⟨tp, _, htp, -, rfl⟩ := fromPackedTransaction_iff.mp hagain
      -- the copy is the compound itself, whose id is newer than what is below it
      rcases List.eq_nil_or_concat' before with rfl | ⟨before', a', rfl⟩
      · cases hmem
      · have hcontract := (of_unpack htp).2.1.contract
        refine hids before' a' (a :: after) (by simp) _ hmem ?_
        rw [← (sound_run hs).contract before' a' rfl, ← hcontract]
        exact hid.symm
  exact fun before a after heq => key _ before a after rfl heq

theorem allFit_of_givesBack {adds : List Add} (htags : (adds.map Add.tag).Nodup) (hids : NewIds adds)
    (h : GivesBack b init adds) : AllFit b adds := by
  have hfresh := allFresh_of_givesBack htags hids h
  obtain ⟨c, loaded, hrun, hload, hperm, hall⟩ := h
  have hcontents := contents_run hfresh hrun
  obtain ⟨tp, _, htp, -, -⟩ := fromPackedTransaction_iff.mp hload
  obtain ⟨hopens, -⟩ := of_unpack htp
  rintro before a after rfl
  have ha : a ∈ before ++ a :: after := by simp
  obtain ⟨hdata, hback, hbyId⟩ := hall a ha
  obtain ⟨-, hnames⟩ := carried_of_tags hrun hload hperm
  obtain ⟨hstorable, hnone, s, copy, hs, hcopy, hid⟩ :=
    call_of_givesBack htags hrun hload hperm hdata hback
  have hnew := hfresh before a after rfl
  rw [Compound.copy, (contents_run hfresh.before hs).newItems, if_neg hnew] at hcopy
  obtain ⟨hown, hkeeps, -⟩ := of_unpack hcopy
  refine ⟨hkeeps.contract ▸ hid, hnew, hnone, hown.main, ?_, ?_, ?_, hnames a.tag (List.mem_map_of_mem ha),
    hstorable, ?_⟩
  · rintro i (hi | hi)
    · exact hown.subItems i hi
    · exact hown.referencedItems i hi
  · intro o ho
    refine hopens.subItems o.id ((hcontents.subItems o.id).mpr (List.mem_map_of_mem ?_))
    exact mem_objects_trees.mpr ⟨a, ha, ho⟩
  · intro i hi
    exact hopens.referencedItems i
      ((hcontents.referencedItems i).mpr (.inl (mem_referencedBy_trees.mpr ⟨a, ha, hi⟩)))
  · -- both are answered for the id
    intro a' ha' hid' i
    obtain ⟨-, -, f', hf', hback'⟩ := hall a' (List.mem_append_left _ ha')
    obtain ⟨f, hf, hback⟩ := hbyId
    rw [hid'] at hf'
    obtain rfl := Option.some.inj (hf.symm.trans hf')
    exact (hback'.referencedItems i).symm.trans (hback.referencedItems i)

/-- CODE DEFECT (compounds): a compound gives back what was put in exactly when no contract has a tag, no
    contract object was there before, everything in the packs opens, and the tags and data are such as an object
    can have, be sealed and be read with. -/
theorem givesBack_iff (b : Binaries) (init : HashId) {adds : List Add} (htags : (adds.map Add.tag).Nodup)
    (hids : NewIds adds) : GivesBack b init adds ↔ AllFit b adds :=
  ⟨allFit_of_givesBack htags hids, fun h => givesBack_of_allFit h htags⟩

/-! ### Compounds of two contracts -/

/-- Binaries without references and types. -/
def plain : Binaries where
  binary id := .naming ⟨id, none, true⟩ [] []
  binary_id _ := rfl
  binary_inside _ _ h := absurd h List.not_mem_nil
  age _ := 0
  older _ _ hd := absurd hd List.not_mem_nil

theorem plain_opens (i : HashId) : plain.OpensAsItem i :=
  ⟨rfl, rfl, fun _ h => absurd h List.not_mem_nil⟩

/-- A contract without anything below it. -/
def leaf (n : UInt8) (refs : List HashId) : Tree := .node ⟨⟨[n]⟩, 0, refs⟩ [] []

/-- A text as data. -/
def text (s : String) : Plain := ⟨.str s, trivial⟩

/-- A contract with a new and a referenced item, and that referenced item with one of its own. -/
def nestedAdds : List Add :=
  [⟨"main", ⟨.node ⟨⟨[1]⟩, 0, [⟨[3]⟩]⟩ [] [leaf 2 []], none⟩, text "first", ⟨[101]⟩⟩,
    ⟨"second", ⟨leaf 3 [⟨[4]⟩], none⟩, text "", ⟨[102]⟩⟩]

/-- A contract that is tagged in its own transaction. -/
def taggedAdd : Add :=
  ⟨"main", ⟨leaf 1 [], some ⟨plain.binary ⟨[1]⟩, .empty, .empty, OrderedMap.empty.set "t" ⟨[1]⟩⟩⟩, text "", ⟨[101]⟩⟩

/-- The ways to split two calls. -/
theorem split_two {x y : Add} {P : List Add → Add → Prop} (hx : P [] x) (hy : P [x] y) :
    ∀ before a after, [x, y] = before ++ a :: after → P before a := by
  rintro (- | ⟨z, - | ⟨w, before⟩⟩) a after heq
  · obtain ⟨rfl, -⟩ := List.cons.inj heq
    exact hx
  · obtain ⟨rfl, hrest⟩ := List.cons.inj heq
    obtain ⟨rfl, -⟩ := List.cons.inj hrest
    exact hy
  · simp at heq

/-- Both contracts are given back. -/
theorem nested_given_back : GivesBack plain ⟨[100]⟩ nestedAdds := by
  refine (givesBack_iff plain ⟨[100]⟩ (by decide) (split_two (by decide) (by decide))).mpr ?_
  have hmain : arrayIndex? "main" = none := arrayIndex?_of_not_digit (c := 'm') (by decide) (by decide)
  have hsecond : arrayIndex? "second" = none := arrayIndex?_of_not_digit (c := 's') (by decide) (by decide)
  have hfirst : Storable (.str "first") := by
    rw [Storable]
    decide
  have hempty : Storable (.str "") := by
    rw [Storable]
    decide
  refine split_two ?_ ?_
  · refine ⟨rfl, by decide, rfl, rfl, fun i _ => plain_opens i, fun o _ => plain_opens o.id,
      fun i _ => plain_opens i, ⟨by decide, by decide, hmain, by decide⟩, hfirst, ?_⟩
    exact fun _ h => absurd h List.not_mem_nil
  · refine ⟨rfl, by decide, rfl, rfl, fun i _ => plain_opens i, fun o _ => plain_opens o.id,
      fun i _ => plain_opens i, ⟨by decide, by decide, hsecond, by decide⟩, hempty, ?_⟩
    intro a ha hid
    obtain rfl := List.mem_singleton.mp ha
    exact absurd hid (by decide)

/-- The tagged contract is not: putting it in throws. -/
theorem tagged_not_given_back : ([taggedAdd].map Add.tag).Nodup ∧ NewIds [taggedAdd] ∧
    Compound.addContract plain (.init ⟨[100]⟩) taggedAdd = none ∧ ¬ GivesBack plain ⟨[100]⟩ [taggedAdd] := by
  have hthrows : Compound.addContract plain (.init ⟨[100]⟩) taggedAdd = none :=
    addContract_tagged (e := ("t", ⟨[1]⟩)) (by decide) (by decide) (by decide)
  refine ⟨by decide, ?_, hthrows, ?_⟩
  · rintro (- | ⟨z, before⟩) a after heq
    · obtain ⟨rfl, -⟩ := List.cons.inj heq
      decide
    · simp at heq
  · rintro ⟨c, loaded, hrun, -⟩
    obtain ⟨s, hs, -⟩ := Run.run_cons.mp hrun
    rw [hthrows] at hs
    cases hs

end Universa.Contracts.Compounds
