import Mathlib.Data.List.Flatten
import Universa.Contracts.SplitJoinSum

/-! No inflation over a transaction. The contracts that share a parent with the contract that holds them
    form a group, checked in one context; the tree is a tree of groups. A group creates no more than it
    revokes where no fault decides: a sum over the siblings of another contract, an amount that is kept
    twice and never summed, or a negative amount that is revoked beside the sum. -/

namespace Universa.Contracts
open Universa.Js

/-- The amounts of the new contracts with an origin. -/
def newTotal (O : HashId) (F : String) (root : Item) : ℚ :=
  (((root.items.map Item.contract).filter fun c => c.state.origin = some O).map (amountOf F)).sum

/-- The amounts of the revoked contracts of an origin. -/
def revokedTotal (O : HashId) (F : String) (root : Item) : ℚ :=
  (((root.items.flatMap (·.contract.revokingItems)).filter fun c => c.getOrigin = O).map
    (amountOf F)).sum

/-- No contract is revoked twice in the item and below. -/
def RevokedOnce (i : Item) : Prop :=
  ((i.items.flatMap (·.contract.revokingItems)).map (·.id)).Nodup

/-- A transaction: no contract is revoked by two contracts of the tree. -/
structure Transaction where
  root : Item
  revokedOnce : RevokedOnce root

/-- In the contracts of an origin at an item the field is a number that only split_join governs. -/
structure GovernedAt (O : HashId) (F : String) (i : Item) : Prop where
  new : i.contract.state.origin = some O → Governed F i.contract
  revoked : ∀ ri ∈ i.contract.revokingItems, ri.getOrigin = O → Governed F ri

/-- No fault decides at an item. -/
structure Fair (O : HashId) (F : String) (i : Item) : Prop where
  /-- A new item of the origin that is no sibling asks for no sum over the siblings of its holder. -/
  foreign : i.contract.getOrigin = O → ∀ n ∈ i.newItems, n.contract.state.origin = some O →
    Item.isSibling i.contract n = false → ∀ parent, n.updateContext.base = some parent →
    Alone F parent n.contract
  /-- Where no contract of a group of the origin asks for a sum, no sibling keeps a positive amount too. -/
  kept : i.contract.state.origin = some O → ∀ parent, i.updateContext.base = some parent →
    0 < amountOf F parent → (∀ c ∈ i.updateContext.siblings, Alone F parent c) →
    ∀ n ∈ i.newItems, Item.isSibling i.contract n = true → amountOf F n.contract ≠ amountOf F parent
  /-- Where sums over the group let contracts of it pass, one counts the negative amounts that the group
      revokes. -/
  summed : i.contract.state.origin = some O → ∀ parent, i.updateContext.base = some parent →
    (∃ c ∈ i.updateContext.siblings, ¬ Alone F parent c ∧
      ∃ counted, Sums F parent i.updateContext.siblings c counted) →
    ∃ c ∈ i.updateContext.siblings, ∃ counted, Sums F parent i.updateContext.siblings c counted ∧
      NegativesIn O F (i.updateContext.siblings.flatMap (·.revokingItems)) counted
  /-- Where no contract asks for one, each counts its own: a kept amount the parent, a merge what it
      takes. -/
  alone : i.contract.state.origin = some O → ∀ parent, i.updateContext.base = some parent →
    (∀ c ∈ i.updateContext.siblings, Alone F parent c) → ∀ c ∈ i.updateContext.siblings,
    (amountOf F c = amountOf F parent → NegativesIn O F c.revokingItems [parent]) ∧
    ((∃ taken, Merges F parent c taken) →
      ∃ taken, Merges F parent c taken ∧ NegativesIn O F c.revokingItems taken)
  /-- A contract of another origin counts nothing. -/
  other : i.contract.state.origin ≠ some O → NegativesIn O F i.contract.revokingItems []

/-! ### Sums over the tree -/

namespace Item

theorem items_eq (i : Item) : i.items = i :: i.newItems.flatMap items := by
  have hof : ∀ is : List Item, itemsOf is = is.flatMap items := by
    intro is
    induction is with
    | nil => rfl
    | cons j js ih => simp [itemsOf, ih]
  cases i with
  | mk c news => simp [items, hof, newItems]

theorem items_self (i : Item) : i ∈ i.items := by
  rw [items_eq]
  exact List.mem_cons_self

theorem items_below {i n j : Item} (hn : n ∈ i.newItems) (hj : j ∈ n.items) : j ∈ i.items := by
  rw [items_eq]
  exact List.mem_cons_of_mem _ (List.mem_flatMap.mpr ⟨n, hn, hj⟩)

/-- The sum of a weight over the item and below. -/
def total (f : Contract → ℚ) (i : Item) : ℚ := (i.items.map fun j => f j.contract).sum

/-- The sum over what is below the item's group: below its siblings, and the other new items. -/
def under (f : Contract → ℚ) (i : Item) : ℚ :=
  (i.newItems.map fun n =>
    if isSibling i.contract n then total f n - f n.contract else total f n).sum

theorem total_eq (f : Contract → ℚ) (i : Item) :
    total f i = f i.contract + (i.newItems.map (total f)).sum := by
  have hflat : ∀ is : List Item, ((is.flatMap items).map fun j => f j.contract).sum =
      (is.map (total f)).sum := by
    intro is
    induction is with
    | nil => rfl
    | cons j js ih => simp [total, ih]
  rw [total, items_eq, List.map_cons, List.sum_cons, hflat]

/-- The tree splits into the group of the item and what is under it. -/
theorem total_group (f : Contract → ℚ) (i : Item) :
    total f i = (i.updateContext.siblings.map f).sum + under f i := by
  have hsplit : ∀ is : List Item, (is.map (total f)).sum =
      (((is.filter (isSibling i.contract)).map contract).map f).sum +
      (is.map fun n => if isSibling i.contract n then total f n - f n.contract else total f n).sum := by
    intro is
    induction is with
    | nil => simp
    | cons j js ih =>
        cases hs : isSibling i.contract j with
        | true =>
            rw [List.filter_cons_of_pos hs]
            simp only [List.map_cons, List.sum_cons, ih, hs, if_true]
            ring
        | false =>
            rw [List.filter_cons_of_neg (by simp [hs])]
            simp only [List.map_cons, List.sum_cons, ih, hs, Bool.false_eq_true, if_false]
            ring
  rw [total_eq, hsplit, under, updateContext, List.map_cons, List.sum_cons]
  ring

/-- Without siblings of its own, what is below the item is what is under its group. -/
theorem below_eq {f : Contract → ℚ} {i : Item} (h : ∀ n ∈ i.newItems, isSibling i.contract n = false) :
    total f i - f i.contract = under f i := by
  have hnil : i.newItems.filter (isSibling i.contract) = [] := by
    rw [List.filter_eq_nil_iff]
    intro n hn
    simp [h n hn]
  rw [total_group, updateContext, hnil]
  simp

mutual
/-- Induction over the tree. -/
theorem induct {P : Item → Prop} (h : ∀ i, (∀ n ∈ i.newItems, P n) → P i) : ∀ i, P i
  | mk c news => h (mk c news) (inductOf h news)

theorem inductOf {P : Item → Prop} (h : ∀ i, (∀ n ∈ i.newItems, P n) → P i) :
    ∀ is : List Item, ∀ n ∈ is, P n
  | [] => by simp
  | i :: is => List.forall_mem_cons.mpr ⟨induct h i, inductOf h is⟩
end

end Item

/-! ### What the check says of one item -/

theorem check_item {others : Contract → Option (List ErrorRecord)} {context : Context} {i : Item}
    (h : Item.check others context i = some []) :
    i.contract.checkByOrigin context = some [] ∧
      ∀ n ∈ i.newItems, Item.check others i.updateContext n = some [] := by
  have hlist {ctx : Context} : ∀ {is : List Item}, Item.checkNewItems others ctx is = some [] →
      ∀ n ∈ is, Item.check others ctx n = some [] := by
    intro is
    induction is with
    | nil => simp
    | cons j js ih =>
        intro h n hn
        simp only [Item.checkNewItems, Option.bind_eq_bind, Option.bind_eq_some_iff] at h
        obtain ⟨errors, he, rest, hr, h⟩ := h
        obtain ⟨rfl, rfl⟩ := List.append_eq_nil_iff.mp (Option.some.inj h)
        rcases List.mem_cons.mp hn with rfl | hn
        · exact he
        · exact ih hr n hn
  cases i with
  | mk c news =>
      simp only [Item.check, Option.bind_eq_bind, Option.bind_eq_some_iff] at h
      obtain ⟨rest, -, own, hown, below, hbelow, h⟩ := h
      obtain ⟨hnil, rfl⟩ := List.append_eq_nil_iff.mp (Option.some.inj h)
      obtain ⟨-, rfl⟩ := List.append_eq_nil_iff.mp hnil
      exact ⟨hown, hlist hbelow⟩

/-- An accepted contract has a parent just where it has an origin, and passes the delta to it. -/
theorem checkByOrigin_parent {context : Context} {c : Contract}
    (h : c.checkByOrigin context = some []) :
    (c.state.origin = none ∧ c.state.parent = none) ∨
    ∃ parent, c.parentIn context = some parent ∧ c.state.origin = some parent.getOrigin ∧
      c.state.parent = some parent.id ∧ checkErrors parent c (some context) = some [] := by
  unfold Contract.checkByOrigin at h
  split at h
  next horigin =>
    refine .inl ⟨horigin, ?_⟩
    simp only [Contract.checkRootContract, Option.bind_eq_bind, Option.bind_eq_some_iff] at h
    obtain ⟨revision, -, h⟩ := h
    have hnil := (List.append_eq_nil_iff.mp (Option.some.inj h)).1
    have hparent := errorUnless_nil (List.append_eq_nil_iff.mp hnil).2
    exact Option.isNone_iff_eq_none.mp hparent
  next horigin =>
    unfold Contract.checkChangedContract at h
    split at h
    · cases h
    next parent hparent =>
      simp only [Option.bind_eq_bind, Option.bind_eq_some_iff] at h
      obtain ⟨⟨delta, left⟩, hdelta, h⟩ := h
      have hnil := (List.append_eq_nil_iff.mp (Option.some.inj h)).1
      obtain ⟨hnil, hd⟩ := List.append_eq_nil_iff.mp hnil
      obtain ⟨ho, hp⟩ := List.append_eq_nil_iff.mp hnil
      obtain rfl : delta = [] := hd
      refine .inr ⟨parent, hparent, ?_, ?_, ?_⟩
      · exact (of_decide_eq_true (errorUnless_nil ho)).symm
      · exact (of_decide_eq_true (errorUnless_nil hp)).symm
      · rw [checkErrors, hdelta, Option.map_some]

theorem getRevokingItem_some {c : Contract} {id : Option HashId} {parent : Contract}
    (h : c.getRevokingItem id = some parent) : parent ∈ c.revokingItems ∧ some parent.id = id := by
  unfold Contract.getRevokingItem at h
  have hid := List.find?_some h
  exact ⟨List.mem_of_find?_eq_some h, of_decide_eq_true hid⟩

/-! ### Groups -/

/-- The item and all below it are fair and governed, and revoke each contract once. -/
structure Fitting (O : HashId) (F : String) (i : Item) : Prop where
  revokedOnce : RevokedOnce i
  governed : ∀ j ∈ i.items, GovernedAt O F j
  fair : ∀ j ∈ i.items, Fair O F j

theorem revokedOnce_below {i n : Item} (h : RevokedOnce i) (hn : n ∈ i.newItems) :
    RevokedOnce n := by
  unfold RevokedOnce at h
  rw [Item.items_eq, List.flatMap_cons, List.map_append] at h
  have hsub : n.items.Sublist (i.newItems.flatMap Item.items) := by
    rw [List.flatMap_def]
    exact List.sublist_flatten_of_mem (List.mem_map_of_mem hn)
  exact (List.nodup_append.mp h).2.1.sublist ((hsub.flatMap _).map _)

variable {O : HashId} {F : String} {others : Contract → Option (List ErrorRecord)}

theorem Fitting.below {i n : Item} (h : Fitting O F i) (hn : n ∈ i.newItems) : Fitting O F n where
  revokedOnce := revokedOnce_below h.revokedOnce hn
  governed j hj := h.governed j (Item.items_below hn hj)
  fair j hj := h.fair j (Item.items_below hn hj)

/-- Where an item is checked: the root in its own context, a new item that is no sibling in the context
    of the contract that holds it. -/
inductive Head (O : HashId) (F : String) (i : Item) : Context → Prop where
  | root (hfit : Fitting O F i) : Head O F i i.updateContext
  | below (h : Item) (hfit : Fitting O F h) (hmem : i ∈ h.newItems)
      (hs : Item.isSibling h.contract i = false) : Head O F i h.updateContext

theorem Head.fitting {i : Item} {context : Context} (hhead : Head O F i context) :
    Fitting O F i := by
  cases hhead with
  | root hfit => exact hfit
  | below h hfit hmem hs => exact hfit.below hmem

theorem siblings_length {i : Item} : 1 < i.updateContext.siblings.length ↔
    ∃ n ∈ i.newItems, Item.isSibling i.contract n = true := by
  rw [Item.updateContext, List.length_cons, List.length_map, Nat.lt_add_left_iff_pos,
    List.length_pos_iff_exists_mem]
  simp [List.mem_filter]

/-- A new item whose parent is among the revoked contracts of its holder is a sibling. -/
theorem isSibling_of_revoked {h n : Item} {parent : Contract}
    (hbase : h.updateContext.base = some parent) (hid : n.contract.state.parent = some parent.id) :
    Item.isSibling h.contract n = true := by
  have hh := (getRevokingItem_some hbase).2
  simp [Item.isSibling, hid, ← hh]

/-- A head finds its parent among its own revoked contracts. -/
theorem head_parent {i : Item} {context : Context} {parent : Contract} (hhead : Head O F i context)
    (h : i.contract.parentIn context = some parent)
    (hid : i.contract.state.parent = some parent.id) : i.updateContext.base = some parent := by
  unfold Contract.parentIn at h
  cases hhead with
  | root hfit => split at h <;> exact h
  | below j hfit hmem hs =>
      split at h
      next =>
        rw [isSibling_of_revoked h hid] at hs
        cases hs
      next => exact h

/-- A sibling finds its parent among the revoked contracts of the contract that holds it. -/
theorem sibling_parent {i n : Item} {parent : Contract} (hn : n ∈ i.newItems)
    (hs : Item.isSibling i.contract n = true)
    (h : n.contract.parentIn i.updateContext = some parent) : i.updateContext.base = some parent := by
  unfold Contract.parentIn at h
  rwa [if_pos (siblings_length.mpr ⟨n, hn, hs⟩)] at h

/-- What the check of an item with an origin says: its parent has that origin, and takes the delta. -/
theorem check_parent {context : Context} {i : Item}
    (hcheck : Item.check others context i = some []) {origin : HashId}
    (horigin : i.contract.state.origin = some origin) :
    ∃ parent, i.contract.parentIn context = some parent ∧ parent.getOrigin = origin ∧
      i.contract.state.parent = some parent.id ∧
      checkErrors parent i.contract (some context) = some [] := by
  rcases checkByOrigin_parent (check_item hcheck).1 with ⟨hnone, -⟩ | ⟨parent, hp, ho, hid, herr⟩
  · rw [horigin] at hnone
    cases hnone
  · exact ⟨parent, hp, Option.some.inj (ho.symm.trans horigin), hid, herr⟩

/-- A sibling that passes the check has its parent from the contract that holds it. -/
theorem check_sibling {i n : Item} (hcheck : Item.check others i.updateContext n = some [])
    (hn : n ∈ i.newItems) (hs : Item.isSibling i.contract n = true) :
    ∃ parent, i.updateContext.base = some parent ∧ n.contract.state.origin = some parent.getOrigin ∧
      n.contract.state.parent = some parent.id ∧
      checkErrors parent n.contract (some i.updateContext) = some [] := by
  have hsome : n.contract.state.parent ≠ none := by
    intro hnone
    simp [Item.isSibling, hnone] at hs
  rcases checkByOrigin_parent (check_item hcheck).1 with ⟨-, hnone⟩ | ⟨parent, hp, ho, hid, herr⟩
  · exact absurd hnone hsome
  · exact ⟨parent, sibling_parent hn hs hp, ho, hid, herr⟩

/-- What a contract revokes, none below it revokes. -/
theorem revoked_apart {i n j : Item} (honce : RevokedOnce i) (hn : n ∈ i.newItems) (hj : j ∈ n.items)
    {ri ri' : Contract} (hri : ri ∈ i.contract.revokingItems) (hri' : ri' ∈ j.contract.revokingItems) :
    ri.id ≠ ri'.id := by
  unfold RevokedOnce at honce
  rw [Item.items_eq, List.flatMap_cons, List.map_append] at honce
  refine (List.nodup_append.mp honce).2.2 ri.id (List.mem_map_of_mem hri) ri'.id ?_
  refine List.mem_map_of_mem (List.mem_flatMap.mpr ⟨j, ?_, hri'⟩)
  exact List.mem_flatMap.mpr ⟨n, hn, hj⟩

/-- A group revokes no contract twice. -/
theorem group_nodup {i : Item} (honce : RevokedOnce i) :
    (i.updateContext.siblings.flatMap (·.revokingItems)).Nodup := by
  have hcontracts : i.updateContext.siblings.Sublist (i.items.map Item.contract) := by
    rw [Item.items_eq, List.map_cons, Item.updateContext]
    refine .cons_cons _ (((List.filter_sublist).trans ?_).map Item.contract)
    have heach : ∀ is : List Item, is.Sublist (is.flatMap Item.items) := by
      intro is
      induction is with
      | nil => exact .slnil
      | cons j js ih =>
          rw [List.flatMap_cons, Item.items_eq, List.cons_append]
          exact .cons_cons _ (ih.trans (List.sublist_append_right _ _))
    exact heach _
  have hall : ((i.items.map Item.contract).flatMap (·.revokingItems)).Nodup := by
    rw [List.flatMap_map]
    exact .of_map _ honce
  exact hall.sublist (hcontracts.flatMap _)

/-- A sibling has no siblings among its own new items: both would revoke the parent. -/
theorem no_nested {i n : Item} (honce : RevokedOnce i)
    (hcheck : Item.check others i.updateContext n = some []) (hn : n ∈ i.newItems)
    (hs : Item.isSibling i.contract n = true) :
    ∀ m ∈ n.newItems, Item.isSibling n.contract m = false := by
  intro m hm
  by_contra hne
  have hms : Item.isSibling n.contract m = true := by simpa using hne
  obtain ⟨parent, hbase, -, hid, -⟩ := check_sibling hcheck hn hs
  obtain ⟨parent', hbase', -, hid', -⟩ := check_sibling ((check_item hcheck).2 m hm) hm hms
  have hi := (getRevokingItem_some hbase).1
  obtain ⟨hn', hpid⟩ := getRevokingItem_some hbase'
  rw [hid] at hpid
  exact revoked_apart honce hn n.items_self hi hn' (Option.some.inj hpid).symm

/-- A contract that counts nothing revokes no less than nothing. -/
theorem revokedAmount_nonneg {c : Contract} (hnodup : c.revokingItems.Nodup)
    (h : NegativesIn O F c.revokingItems []) : 0 ≤ revokedAmount O F c := by
  simpa [revokedAmount] using counted_le (List.nil_sublist _) hnodup h

/-- What the check of a contract with the origin says of its amount. -/
theorem check_passes {context : Context} {i : Item} {parent : Contract} (hfit : Fitting O F i)
    (hF : skipped F = false) (horigin : i.contract.state.origin = some O) (hparent : Governed F parent)
    (herr : checkErrors parent i.contract (some context) = some []) :
    Alone F parent i.contract ∨ ∃ counted, Sums F parent context.siblings i.contract counted :=
  checkErrors_passes herr hF hparent ((hfit.governed i i.items_self).new horigin)

theorem getOrigin_eq {c : Contract} (h : c.state.origin = some O) : c.getOrigin = O := by
  rw [Contract.getOrigin, h, Option.getD_some]

/-- What lets the contracts of a group pass. -/
structure GroupPasses (O : HashId) (F : String) (i : Item) (parent : Contract) : Prop where
  base : i.updateContext.base = some parent
  origin : parent.getOrigin = O
  governed : Governed F parent
  passes : ∀ c ∈ i.updateContext.siblings,
    Alone F parent c ∨ ∃ counted, Sums F parent i.updateContext.siblings c counted

/-- The contracts of a group of the origin pass alone or by a sum over the group, also where the head was
    checked in another context. -/
theorem group_passes {context : Context} {i : Item} (hhead : Head O F i context)
    (hF : skipped F = false) (hcheck : Item.check others context i = some [])
    (horigin : i.contract.state.origin = some O) : ∃ parent, GroupPasses O F i parent := by
  obtain ⟨parent, hp, ho, hid, herr⟩ := check_parent hcheck horigin
  have hbase := head_parent hhead hp hid
  have hfit := hhead.fitting
  have hgov : Governed F parent :=
    (hfit.governed i i.items_self).revoked parent (getRevokingItem_some hbase).1 ho
  refine ⟨parent, hbase, ho, hgov, fun c hc => ?_⟩
  rcases List.mem_cons.mp hc with rfl | hc
  · cases hhead with
    | root hfit => exact check_passes hfit hF horigin hgov herr
    | below h hfith hmem hs =>
        by_cases hho : h.contract.getOrigin = O
        · exact .inl ((hfith.fair h h.items_self).foreign hho i hmem horigin hs parent hbase)
        · -- a holder of another origin stops every sum over its siblings
          refine .inl ((check_passes hfit hF horigin hgov herr).resolve_right ?_)
          rintro ⟨counted, hsum⟩
          have hsame := (hsum.counts hgov).1 h.contract List.mem_cons_self
          exact hho (hsame.trans (getOrigin_eq horigin))
  · obtain ⟨n, hn, rfl⟩ := List.mem_map.mp hc
    obtain ⟨hn, hs⟩ := List.mem_filter.mp hn
    obtain ⟨parent', hbase', ho', -, herr⟩ := check_sibling ((check_item hcheck).2 n hn) hn hs
    rw [hbase] at hbase'
    obtain rfl := Option.some.inj hbase'
    rw [ho] at ho'
    exact check_passes (hfit.below hn) hF ho' hgov herr

/-- The amount of a new contract, zero for other origins. -/
def newAmount (O : HashId) (F : String) (c : Contract) : ℚ :=
  if c.state.origin = some O then amountOf F c else 0

/-- The contracts of an accepted group have one origin. -/
theorem group_origin {context : Context} {i : Item} (hhead : Head O F i context)
    (hcheck : Item.check others context i = some []) :
    ∀ s ∈ i.updateContext.siblings, s.state.origin = i.contract.state.origin := by
  intro s hs
  rcases List.mem_cons.mp hs with rfl | hs
  · rfl
  obtain ⟨n, hn, rfl⟩ := List.mem_map.mp hs
  obtain ⟨hn, hsib⟩ := List.mem_filter.mp hn
  obtain ⟨parent, hbase, ho, hid, -⟩ := check_sibling ((check_item hcheck).2 n hn) hn hsib
  rw [ho]
  rcases checkByOrigin_parent (check_item hcheck).1 with ⟨-, hnone⟩ | ⟨parent', hp, ho', hid', -⟩
  · have hid := (getRevokingItem_some hbase).2
    rw [hnone] at hid
    cases hid
  · have hbase' := head_parent hhead hp hid'
    rw [hbase] at hbase'
    rw [ho', Option.some.inj hbase']

/-- Where a sum over the group lets a contract pass, the group has what the sum counts. -/
theorem summed_le {i : Item} {parent : Contract} (hfit : Fitting O F i) (hpass : GroupPasses O F i parent)
    (horigin : i.contract.state.origin = some O) (hsame : ∀ s ∈ i.updateContext.siblings, s.getOrigin = O)
    {c : Contract} (hc : c ∈ i.updateContext.siblings) (halone : ¬ Alone F parent c) :
    (i.updateContext.siblings.map (amountOf F)).sum ≤
      (i.updateContext.siblings.map (revokedAmount O F)).sum := by
  have hpasses := (hpass.passes c hc).resolve_left halone
  obtain ⟨s, hs, counted, hsum, hneg⟩ :=
    (hfit.fair i i.items_self).summed horigin parent hpass.base ⟨c, hc, halone, hpasses⟩
  obtain ⟨-, heq, hcounted⟩ := hsum.counts hpass.governed
  rw [heq, ← sum_revoked_flatMap]
  refine counted_le ?_ (group_nodup hfit.revokedOnce) hneg
  rcases hcounted with rfl | hsub
  · -- a split counts the parent, which the head revokes
    refine List.singleton_sublist.mpr (List.mem_filter.mpr ⟨?_, by simpa using hpass.origin⟩)
    exact List.mem_flatMap.mpr ⟨i.contract, List.mem_cons_self, (getRevokingItem_some hpass.base).1⟩
  · rwa [hsame s hs] at hsub

/-- Where no contract of the group asks for a sum, each has no more than it revokes. -/
theorem alone_le {i : Item} {parent : Contract} (hfit : Fitting O F i) (hpass : GroupPasses O F i parent)
    (horigin : i.contract.state.origin = some O) (hall : ∀ c ∈ i.updateContext.siblings, Alone F parent c)
    {c : Contract} (hc : c ∈ i.updateContext.siblings) (hsame : c.getOrigin = O) :
    amountOf F c ≤ revokedAmount O F c := by
  have hfair := hfit.fair i i.items_self
  obtain ⟨hkeep, hmerge⟩ := hfair.alone horigin parent hpass.base hall c hc
  have hnodup : c.revokingItems.Nodup := by
    refine (group_nodup hfit.revokedOnce).sublist ?_
    exact List.sublist_flatten_of_mem (List.mem_map_of_mem hc)
  have hparent := (getRevokingItem_some hpass.base).1
  rcases hall c hc with heq | hmerges
  · rw [heq]
    rcases List.mem_cons.mp hc with rfl | hmem
    · -- the head keeps the amount of the parent, which it revokes
      have hsub : [parent].Sublist (i.contract.revokingItems.filter fun ri => ri.getOrigin = O) :=
        List.singleton_sublist.mpr (List.mem_filter.mpr ⟨hparent, by simpa using hpass.origin⟩)
      simpa [revokedAmount] using counted_le hsub hnodup (hkeep heq)
    · -- a sibling keeps it too, so it is not positive
      obtain ⟨n, hn, rfl⟩ := List.mem_map.mp hmem
      obtain ⟨hn, hs⟩ := List.mem_filter.mp hn
      refine le_trans (not_lt.mp fun hpos => ?_) (revokedAmount_nonneg hnodup fun ri hri ho hlt => ?_)
      · exact hfair.kept horigin parent hpass.base hpos hall n hn hs heq
      · have hri' := List.mem_singleton.mp (hkeep heq ri hri ho hlt)
        exact absurd (congrArg Contract.id hri'.symm)
          (revoked_apart hfit.revokedOnce hn n.items_self hparent hri)
  · obtain ⟨taken, htaken, hneg⟩ := hmerge hmerges
    obtain ⟨hsub, heq⟩ := htaken.counts hpass.governed
    rw [hsame] at hsub
    rw [heq]
    exact counted_le hsub hnodup hneg

/-- A group creates no more than it revokes. -/
theorem group_le {context : Context} {i : Item} (hhead : Head O F i context)
    (hF : skipped F = false) (hcheck : Item.check others context i = some []) :
    (i.updateContext.siblings.map (newAmount O F)).sum ≤
      (i.updateContext.siblings.map (revokedAmount O F)).sum := by
  have hfit := hhead.fitting
  have hone := group_origin hhead hcheck
  by_cases horigin : i.contract.state.origin = some O
  swap
  · -- nothing of the origin is new here
    refine List.sum_le_sum fun s hs => ?_
    have hso : s.state.origin ≠ some O := by rwa [hone s hs]
    rw [newAmount, if_neg hso]
    have hnodup : s.revokingItems.Nodup := by
      refine (group_nodup hfit.revokedOnce).sublist ?_
      exact List.sublist_flatten_of_mem (List.mem_map_of_mem hs)
    refine revokedAmount_nonneg hnodup ?_
    rcases List.mem_cons.mp hs with rfl | hs
    · exact (hfit.fair i i.items_self).other hso
    · obtain ⟨n, hn, rfl⟩ := List.mem_map.mp hs
      have hn := (List.mem_filter.mp hn).1
      exact (hfit.fair n (Item.items_below hn n.items_self)).other hso
  have hsame : ∀ s ∈ i.updateContext.siblings, s.state.origin = some O := fun s hs => by
    rw [hone s hs, horigin]
  have hnew : ∀ s ∈ i.updateContext.siblings, newAmount O F s = amountOf F s := fun s hs => by
    rw [newAmount, if_pos (hsame s hs)]
  rw [List.map_congr_left hnew]
  obtain ⟨parent, hpass⟩ := group_passes hhead hF hcheck horigin
  by_cases hall : ∀ c ∈ i.updateContext.siblings, Alone F parent c
  · exact List.sum_le_sum fun c hc => alone_le hfit hpass horigin hall hc (getOrigin_eq (hsame c hc))
  · push Not at hall
    obtain ⟨c, hc, halone⟩ := hall
    exact summed_le hfit hpass horigin (fun s hs => getOrigin_eq (hsame s hs)) hc halone

/-- What is under an accepted group creates no more than it revokes. -/
theorem under_le (i : Item) : ∀ {context : Context}, Item.check others context i = some [] →
    skipped F = false → Fitting O F i →
    Item.under (newAmount O F) i ≤ Item.under (revokedAmount O F) i := by
  induction i using Item.induct with
  | h i ih =>
      intro context hcheck hF hfit
      refine List.sum_le_sum fun n hn => ?_
      have hcn := (check_item hcheck).2 n hn
      have hrest := ih n hn hcn hF (hfit.below hn)
      cases hs : Item.isSibling i.contract n with
      | true =>
          have hnone := no_nested hfit.revokedOnce hcn hn hs
          rw [if_pos rfl, if_pos rfl, Item.below_eq hnone, Item.below_eq hnone]
          exact hrest
      | false =>
          rw [if_neg Bool.false_ne_true, if_neg Bool.false_ne_true, Item.total_group,
            Item.total_group]
          exact add_le_add (group_le (.below i hfit hn hs) hF hcn) hrest

/-! ### The transaction -/

theorem newTotal_eq (root : Item) : newTotal O F root = Item.total (newAmount O F) root := by
  rw [newTotal, Item.total]
  induction root.items with
  | nil => rfl
  | cons i is ih =>
      rw [List.map_cons, List.map_cons, List.sum_cons, ← ih, newAmount, List.filter_cons]
      by_cases h : i.contract.state.origin = some O
      · simp [h]
      · simp [h]

theorem revokedTotal_eq (root : Item) :
    revokedTotal O F root = Item.total (revokedAmount O F) root := by
  have h := sum_revoked_flatMap O F (root.items.map Item.contract)
  rw [List.flatMap_map, List.map_map] at h
  exact h

/-- CODE DEFECT (no inflation): in an accepted transaction in which no fault decides, the new contracts of
    an origin have no more of a field that only split_join governs than the revoked ones. -/
theorem check_no_inflation {t : Transaction} (hcheck : Item.checkRoot others t.root = some [])
    (hF : skipped F = false) (hgoverned : ∀ i ∈ t.root.items, GovernedAt O F i)
    (hfair : ∀ i ∈ t.root.items, Fair O F i) : newTotal O F t.root ≤ revokedTotal O F t.root := by
  have hfit : Fitting O F t.root := ⟨t.revokedOnce, hgoverned, hfair⟩
  simp only [Item.checkRoot, Option.bind_eq_bind, Option.bind_eq_some_iff] at hcheck
  obtain ⟨errors, htree, dupes, -, hnil⟩ := hcheck
  obtain ⟨rfl, -⟩ := List.append_eq_nil_iff.mp (Option.some.inj hnil)
  rw [newTotal_eq, revokedTotal_eq, Item.total_group, Item.total_group]
  exact add_le_add (group_le (.root hfit) hF htree) (under_le t.root htree hF hfit)

/-- The split_join permission of the field `amount`. -/
def amountPermission : Permission :=
  ⟨"p1", "split_join", keyRole "@owner" "alice", [("field_name", .str "amount")],
    .splitJoin (SplitJoinPermission.initFromParams "amount" [])⟩

/-- A contract with an amount that only split_join governs. -/
def tokenContract (id parent : UInt8) (revision amount : ℚ) (branch : Value)
    (revoking : List Contract) : Contract where
  id := ⟨[id]⟩
  apiLevel := .fin 4
  roles := ⟨keyRole "issuer" "issuer", keyRole "owner" "alice", keyRole "creator" "alice"⟩
  definition :=
    { createdAt := some 0, expiresAt := some 10, data := [], references := [], extendedType := .null
      permissions := [("split_join", [amountPermission])] }
  state :=
    { revision := .fin revision, createdAt := some 1, expiresAt := none, origin := some ⟨[0]⟩
      parent := some ⟨[parent]⟩, data := [("amount", .num (.fin amount))], dataKeys := by simp [keys]
      branchId := branch, references := [], roles := [] }
  transactional := none
  effectiveKeys := ["alice"]
  otherFields _ := none
  revokingItems := revoking

theorem tokenContract_governed (q : ℚ) {id parent : UInt8} {revision a : ℚ} {branch : Value}
    {revoking : List Contract}
    (h : amount "amount" (tokenContract id parent revision a branch revoking) = some q) :
    Governed "amount" (tokenContract id parent revision a branch revoking) where
  numeric := ⟨q, h⟩
  permissions p hp := by
    obtain rfl : p = amountPermission := by
      simpa [tokenContract, Definition.allPermissions] using hp
    intro _
    rfl

/-- A merge of 10 and 20 into 30, and in it a contract that makes a thousand million of 5. -/
def mintingTransaction : Transaction where
  root := .mk (tokenContract 1 11 3 30 .null
      [tokenContract 11 21 2 10 .null [], tokenContract 13 23 2 20 .null []])
    [.mk (tokenContract 2 12 3 1000000000 .null [tokenContract 12 22 2 5 .null []]) []]
  revokedOnce := by unfold RevokedOnce; decide

/-- The nested contract is checked against the sum of the contract that holds it, which balances. -/
theorem check_inflation :
    Item.checkRoot (fun _ => some []) mintingTransaction.root = some [] ∧
    (∀ i ∈ mintingTransaction.root.items, GovernedAt ⟨[0]⟩ "amount" i) ∧
    ¬ newTotal ⟨[0]⟩ "amount" mintingTransaction.root ≤
      revokedTotal ⟨[0]⟩ "amount" mintingTransaction.root := by
  refine ⟨by decide +kernel, ?_, by decide +kernel⟩
  intro i hi
  simp only [mintingTransaction, Item.items, Item.itemsOf, List.append_nil, List.mem_cons,
    List.not_mem_nil, or_false] at hi
  rcases hi with rfl | rfl
  · refine ⟨fun _ => tokenContract_governed 30 (by decide +kernel), fun ri hri _ => ?_⟩
    simp only [Item.contract, tokenContract, List.mem_cons, List.not_mem_nil, or_false] at hri
    rcases hri with rfl | rfl
    · exact tokenContract_governed 10 (by decide +kernel)
    · exact tokenContract_governed 20 (by decide +kernel)
  · refine ⟨fun _ => tokenContract_governed 1000000000 (by decide +kernel), fun ri hri _ => ?_⟩
    simp only [Item.contract, tokenContract, List.mem_cons, List.not_mem_nil, or_false] at hri
    subst hri
    exact tokenContract_governed 5 (by decide +kernel)

/-- Contracts of 10 and of -3 become contracts of 3 and 4. -/
def splitTransaction : Transaction where
  root := .mk (tokenContract 1 11 3 3 (.str "3:0")
      [tokenContract 11 21 2 10 .null [], tokenContract 12 22 2 (-3) .null []])
    [.mk (tokenContract 2 11 3 4 (.str "3:1") []) []]
  revokedOnce := by unfold RevokedOnce; decide

/-- A sum over the two new contracts can only count both that are revoked. -/
theorem splitTransaction_counts {c : Contract} {counted : List Contract}
    (hc : c ∈ splitTransaction.root.updateContext.siblings)
    (h : Sums "amount" (tokenContract 11 21 2 10 .null []) splitTransaction.root.updateContext.siblings c
      counted) : counted = [tokenContract 11 21 2 10 .null [], tokenContract 12 22 2 (-3) .null []] := by
  obtain ⟨-, hsum, hcounted⟩ := h.counts (tokenContract_governed 10 (by decide +kernel))
  have hseven : (splitTransaction.root.updateContext.siblings.map (amountOf "amount")).sum = 7 := by
    decide +kernel
  have hten : amountOf "amount" (tokenContract 11 21 2 10 .null []) = 10 := by decide +kernel
  have hneg : amountOf "amount" (tokenContract 12 22 2 (-3) .null []) = -3 := by decide +kernel
  have horigin : c.getOrigin = ⟨[0]⟩ := by
    have hall : ∀ s ∈ splitTransaction.root.updateContext.siblings, s.getOrigin = ⟨[0]⟩ := by decide +kernel
    exact hall c hc
  rw [hseven] at hsum
  rcases hcounted with rfl | hsub
  · simp [hten] at hsum
  · rw [horigin] at hsub
    have hsub : counted.Sublist
        [tokenContract 11 21 2 10 .null [], tokenContract 12 22 2 (-3) .null []] := hsub
    -- any other of the revoked contracts have 0, 10 or -3
    rcases List.sublist_cons_iff.mp hsub with hrest | ⟨rest, rfl, hrest⟩
    all_goals rcases List.sublist_cons_iff.mp hrest with hnil | ⟨rest', rfl, hnil⟩
    all_goals obtain rfl := List.sublist_nil.mp hnil
    · norm_num at hsum
    · norm_num [hneg] at hsum
    · norm_num [hten] at hsum
    · rfl

/-- The theorem on a split and join with a negative amount: the sum counts it. -/
theorem check_no_inflation_split :
    Item.checkRoot (fun _ => some []) splitTransaction.root = some [] ∧
    newTotal ⟨[0]⟩ "amount" splitTransaction.root ≤
      revokedTotal ⟨[0]⟩ "amount" splitTransaction.root := by
  have hcheck : Item.checkRoot (fun _ => some []) splitTransaction.root = some [] := by
    decide +kernel
  refine ⟨hcheck, check_no_inflation hcheck (by decide) ?_ ?_⟩
  · intro i hi
    simp only [splitTransaction, Item.items, Item.itemsOf, List.append_nil, List.mem_cons,
      List.not_mem_nil, or_false] at hi
    rcases hi with rfl | rfl
    · refine ⟨fun _ => tokenContract_governed 3 (by decide +kernel), fun ri hri _ => ?_⟩
      simp only [Item.contract, tokenContract, List.mem_cons, List.not_mem_nil, or_false] at hri
      rcases hri with rfl | rfl
      · exact tokenContract_governed 10 (by decide +kernel)
      · exact tokenContract_governed (-3) (by decide +kernel)
    · refine ⟨fun _ => tokenContract_governed 4 (by decide +kernel), fun ri hri _ => ?_⟩
      cases hri
  · intro i hi
    simp only [splitTransaction, Item.items, Item.itemsOf, List.append_nil, List.mem_cons,
      List.not_mem_nil, or_false] at hi
    -- the root has less than its parent, so it asks for a sum
    have hsums (parent : Contract) (hp : splitTransaction.root.updateContext.base = some parent) :
        ¬ Alone "amount" parent splitTransaction.root.contract := by
      obtain rfl := Option.some.inj hp
      rintro (heq | ⟨taken, hlt, -⟩)
      · exact absurd heq (by decide +kernel)
      · exact absurd hlt (by decide +kernel)
    rcases hi with rfl | rfl
    · refine ⟨fun _ n hn _ hs => ?_, fun _ parent hp _ hall => ?_, fun _ parent hp h => ?_,
        fun _ parent hp hall => ?_, fun h => absurd rfl h⟩
      · obtain rfl := List.mem_singleton.mp hn
        exact absurd hs (by decide)
      · exact absurd (hall _ List.mem_cons_self) (hsums parent hp)
      · obtain ⟨c, hc, -, counted, hsum⟩ := h
        obtain rfl := Option.some.inj hp
        refine ⟨c, hc, counted, hsum, ?_⟩
        rw [splitTransaction_counts hc hsum]
        exact fun ri hri _ _ => hri
      · exact absurd (hall _ List.mem_cons_self) (hsums parent hp)
    · -- the other part revokes nothing and holds nothing
      refine ⟨fun _ _ hn => ?_, fun _ _ hp => ?_, fun _ _ hp => ?_, fun _ _ hp => ?_, fun h => absurd rfl h⟩
      · cases hn
      all_goals cases hp

end Universa.Contracts
