import Mathlib.Data.List.Perm.Basic
import Mathlib.Data.Nat.Notation

/-! Binary heaps in lists. Position `c > 0` has the parent `(c - 1) / 2`, and the first `n` positions are a heap
    where no element is before its parent. An element that is out of place is exchanged with a child or with its
    parent until it is in place: `Sinking` and `Rising` say what is in order around it meanwhile, `Hollow` what is
    in order where it goes up whatever its parents are. -/

namespace Universa.BinaryHeap
variable {α : Type}

/-- A strict weak order, as a comparator. -/
structure WeakOrder (before : α → α → Bool) : Prop where
  asymm : ∀ {a b}, before a b = true → before b a = false
  trans : ∀ {a b c}, before a b = false → before b c = false → before a c = false

theorem WeakOrder.irrefl {before : α → α → Bool} (h : WeakOrder before) (a : α) : before a a = false := by
  cases haa : before a a with
  | false => rfl
  | true => exact haa.symm.trans (h.asymm haa)

/-- The parent of a position. -/
def parent (c : ℕ) : ℕ := (c - 1) / 2

theorem parent_lt {c : ℕ} (h : 0 < c) : parent c < c := by
  unfold parent
  omega

theorem child_iff {c p : ℕ} (h : 0 < c) : parent c = p ↔ c = 2 * p + 1 ∨ c = 2 * p + 2 := by
  unfold parent
  omega

/-- What is at `c` is not before what is at `p`. -/
def InOrder (before : α → α → Bool) (l : List α) (c p : ℕ) : Prop :=
  ∀ a b, l[c]? = some a → l[p]? = some b → before a b = false

/-- The pairs of the first `n` positions whose parent is `k` or later are in order. -/
def HeapFrom (before : α → α → Bool) (n k : ℕ) (l : List α) : Prop :=
  ∀ c, 0 < c → c < n → k ≤ parent c → InOrder before l c (parent c)

/-- The first `n` positions are a heap. -/
def Heap (before : α → α → Bool) (n : ℕ) (l : List α) : Prop := HeapFrom before n 0 l

/-- A heap from `k` on, but for the children of `i`, which are in order with the parent of `i`. -/
structure Sinking (before : α → α → Bool) (n k i : ℕ) (l : List α) : Prop where
  pairs : ∀ c, 0 < c → c < n → k ≤ parent c → parent c ≠ i → InOrder before l c (parent c)
  grand : ∀ c, 0 < c → c < n → parent c = i → 0 < i → k ≤ parent i → InOrder before l c (parent i)

/-- A heap, but for `i` and its parent; the children of `i` are in order with that too. -/
structure Rising (before : α → α → Bool) (n i : ℕ) (l : List α) : Prop where
  pairs : ∀ c, 0 < c → c < n → c ≠ i → InOrder before l c (parent c)
  grand : ∀ c, 0 < c → c < n → parent c = i → 0 < i → InOrder before l c (parent i)

/-- A heap, but for what is at `i`. -/
structure Hollow (before : α → α → Bool) (n i : ℕ) (l : List α) : Prop where
  pairs : ∀ c, 0 < c → c < n → c ≠ i → parent c ≠ i → InOrder before l c (parent c)
  grand : ∀ c, 0 < c → c < n → parent c = i → 0 < i → InOrder before l c (parent i)

/-! ### Exchanges -/

section Exchange
variable {l : List α} {i j : ℕ} {a b : α} (hi : l[i]? = some a) (hj : l[j]? = some b)
include hi hj

/-- Two elements that change places. -/
theorem exchange_perm : ((l.set i b).set j a).Perm l := by
  obtain ⟨hil, rfl⟩ := List.getElem?_eq_some_iff.mp hi
  obtain ⟨hjl, rfl⟩ := List.getElem?_eq_some_iff.mp hj
  exact List.set_set_perm hil hjl

omit hj in
theorem exchange_left (hne : i ≠ j) : ((l.set i b).set j a)[i]? = some b := by
  rw [List.getElem?_set_ne hne.symm, List.getElem?_set_self (List.getElem?_eq_some_iff.mp hi).1]

omit hi in
theorem exchange_right : ((l.set i b).set j a)[j]? = some a := by
  refine List.getElem?_set_self ?_
  rw [List.length_set]
  exact (List.getElem?_eq_some_iff.mp hj).1

omit hi hj in
theorem exchange_other {c : ℕ} (hci : c ≠ i) (hcj : c ≠ j) : ((l.set i b).set j a)[c]? = l[c]? := by
  rw [List.getElem?_set_ne hcj.symm, List.getElem?_set_ne hci.symm]

end Exchange

variable {before : α → α → Bool} {n k i j : ℕ} {l : List α} {a b : α}

/-- Order is kept where nothing was exchanged. -/
theorem InOrder.other {c p : ℕ} (h : InOrder before l c p) (hci : c ≠ i) (hcj : c ≠ j) (hpi : p ≠ i)
    (hpj : p ≠ j) : InOrder before ((l.set i b).set j a) c p := by
  intro x y hx hy
  rw [exchange_other hci hcj] at hx
  rw [exchange_other hpi hpj] at hy
  exact h x y hx hy

theorem InOrder.trans (hb : WeakOrder before) {c m p : ℕ} {y : α} (h : InOrder before l c m)
    (hm : l[m]? = some y) (h' : InOrder before l m p) : InOrder before l c p :=
  fun _ _ hx hz => hb.trans (h _ _ hx hm) (h' _ _ hm hz)

/-! ### An element that sinks -/

section Sinking
variable (hb : WeakOrder before)
include hb

/-- The element at `i` gives place to a child that is before it and not after its sibling. -/
theorem Sinking.move (h : Sinking before n k i l) (hj : 0 < j) (hparent : parent j = i) (hjn : j < n)
    (ha : l[i]? = some a) (hbj : l[j]? = some b) (hba : before b a = true)
    (hbest : ∀ c, 0 < c → c < n → parent c = i → InOrder before l c j) :
    Sinking before n k j ((l.set i b).set j a) := by
  have hij : i < j := hparent ▸ parent_lt hj
  have hleft := exchange_left (b := b) ha (Nat.ne_of_lt hij)
  have hright := exchange_right (i := i) (a := a) hbj
  constructor
  · intro c hc hcn hk hcj
    by_cases hcj' : c = j
    · -- The new parent is the child that went up.
      rintro x y hx hy
      rw [hcj', hright] at hx
      rw [hcj', hparent, hleft] at hy
      cases hx
      cases hy
      exact hb.asymm hba
    · by_cases hpi : parent c = i
      · have hci : c ≠ i := by have := parent_lt hc; omega
        intro x y hx hy
        rw [exchange_other hci hcj'] at hx
        rw [hpi, hleft] at hy
        cases hy
        exact hbest c hc hcn hpi x b hx hbj
      · by_cases hci : c = i
        · have hlt := parent_lt hc
          intro x y hx hy
          rw [hci, hleft] at hx
          rw [exchange_other hpi (by omega), hci] at hy
          cases hx
          exact h.grand j hj hjn hparent (by omega) (hci ▸ hk) b y hbj hy
        · exact (h.pairs c hc hcn hk hpi).other hci hcj' hpi hcj
  · intro c hc hcn hpc _ hk
    have hlt := parent_lt hc
    intro x y hx hy
    rw [exchange_other (by omega) (by omega)] at hx
    rw [hparent, hleft] at hy
    cases hy
    rw [hparent] at hk
    exact (hpc ▸ h.pairs c hc hcn (by omega) (by omega)) x b hx hbj

omit hb in
/-- An element that none of its children is before is in place. -/
theorem Sinking.settle (h : Sinking before n k i l)
    (hsettled : ∀ c, 0 < c → c < n → parent c = i → InOrder before l c i) : HeapFrom before n k l := by
  intro c hc hcn hk
  by_cases hpi : parent c = i
  · rw [hpi]
    exact hsettled c hc hcn hpi
  · exact h.pairs c hc hcn hk hpi

omit hb in
/-- Any element at `k` sinks where all is in order behind it. -/
theorem HeapFrom.sinking (h : HeapFrom before n (k + 1) l) : Sinking before n k k l where
  pairs c hc hcn hk hne := h c hc hcn (by omega)
  grand c _ _ _ hpos hk := absurd (parent_lt hpos) (by omega)

/-! ### An element that rises -/

/-- The element at `i` takes the place of its parent, which it is before. -/
theorem Rising.move (h : Rising before n i l) (hi : 0 < i) (hin : i < n) (ha : l[i]? = some a)
    (hbp : l[parent i]? = some b) (hab : before a b = true) :
    Rising before n (parent i) ((l.set i b).set (parent i) a) := by
  have hpi := parent_lt hi
  have hleft := exchange_left (b := b) ha (Nat.ne_of_lt hpi).symm
  have hright := exchange_right (i := i) (a := a) hbp
  constructor
  · intro c hc hcn hcp
    by_cases hci : c = i
    · intro x y hx hy
      rw [hci, hleft] at hx
      rw [hci, hright] at hy
      cases hx
      cases hy
      exact hb.asymm hab
    · by_cases hpc : parent c = i
      · intro x y hx hy
        rw [exchange_other hci hcp] at hx
        rw [hpc, hleft] at hy
        cases hy
        exact h.grand c hc hcn hpc hi x b hx hbp
      · by_cases hpp : parent c = parent i
        · intro x y hx hy
          rw [exchange_other hci hcp] at hx
          rw [hpp, hright] at hy
          cases hy
          exact hb.trans (h.pairs c hc hcn hci x b hx (hpp ▸ hbp)) (hb.asymm hab)
        · exact (h.pairs c hc hcn hci).other hci hcp hpc hpp
  · intro c hc hcn hpc hpos
    have hlt := parent_lt hpos
    have hup : InOrder before l (parent i) (parent (parent i)) := h.pairs _ hpos (by omega) (by omega)
    intro x y hx hy
    rw [exchange_other (by omega) (by omega)] at hy
    by_cases hci : c = i
    · rw [hci, hleft] at hx
      cases hx
      exact hup b y hbp hy
    · have hcp : c ≠ parent i := by have := parent_lt hc; omega
      rw [exchange_other hci hcp] at hx
      exact (hpc ▸ h.pairs c hc hcn hci).trans hb hbp hup x y hx hy

omit hb in
/-- An element that is not before its parent is in place. -/
theorem Rising.settle (h : Rising before n i l) (hsettled : 0 < i → InOrder before l i (parent i)) :
    Heap before n l := by
  intro c hc hcn _
  by_cases hci : c = i
  · rw [hci] at hc ⊢
    exact hsettled hc
  · exact h.pairs c hc hcn hci

/-! ### An element that leaves -/

/-- The parent of what is at `i` comes down. -/
theorem Hollow.move (h : Hollow before n i l) (hi : 0 < i) (hin : i < n) (ha : l[i]? = some a)
    (hbp : l[parent i]? = some b) : Hollow before n (parent i) ((l.set i b).set (parent i) a) := by
  have hpi := parent_lt hi
  have hleft := exchange_left (b := b) ha (Nat.ne_of_lt hpi).symm
  constructor
  · intro c hc hcn hcp hpp
    have hci : c ≠ i := fun hci => hpp (congrArg parent hci)
    by_cases hpc : parent c = i
    · intro x y hx hy
      rw [exchange_other hci hcp] at hx
      rw [hpc, hleft] at hy
      cases hy
      exact h.grand c hc hcn hpc hi x b hx hbp
    · exact (h.pairs c hc hcn hci hpc).other hci hcp hpc hpp
  · intro c hc hcn hpc hpos
    have hlt := parent_lt hpos
    have hup : InOrder before l (parent i) (parent (parent i)) :=
      h.pairs _ hpos (by omega) (by omega) (by omega)
    intro x y hx hy
    rw [exchange_other (by omega) (by omega)] at hy
    by_cases hci : c = i
    · rw [hci, hleft] at hx
      cases hx
      exact hup b y hbp hy
    · have hcp : c ≠ parent i := by have := parent_lt hc; omega
      rw [exchange_other hci hcp] at hx
      exact (hpc ▸ h.pairs c hc hcn hci (by omega)).trans hb hbp hup x y hx hy

/-- Any element of a heap may leave. -/
theorem Heap.hollow (h : Heap before n l) (hi : i < n) (hlength : n ≤ l.length) : Hollow before n i l where
  pairs c hc hcn _ _ := h c hc hcn (Nat.zero_le _)
  grand c hc hcn hpc hpos := by
    have hat : l[i]? = some l[i] := List.getElem?_eq_getElem (by omega)
    exact (hpc ▸ h c hc hcn (Nat.zero_le _)).trans hb hat (h i hpos hi (Nat.zero_le _))

/-- The root of a heap is a least element. -/
theorem Heap.root (h : Heap before n l) (hlength : n ≤ l.length) (c : ℕ) (hc : c < n) :
    InOrder before l c 0 := by
  induction c using Nat.strongRecOn with
  | ind c ih =>
      rcases Nat.eq_zero_or_pos c with rfl | hpos
      · intro x y hx hy
        rw [hx] at hy
        cases hy
        exact hb.irrefl x
      · have hlt := parent_lt hpos
        have hat : l[parent c]? = some l[parent c] := List.getElem?_eq_getElem (by omega)
        exact (h c hpos hc (Nat.zero_le _)).trans hb hat (ih _ hlt (by omega))

end Sinking
end Universa.BinaryHeap
