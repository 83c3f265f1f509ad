import Mathlib.Data.Multiset.AddSub
import Universa.Lib.BinaryHeap

/-! `FastPriorityQueue`: a binary heap in an array, with a comparator that tells what comes first. An item on its
    way up or down is written once, at the end; until then its place holds what was there before. `poll` leaves
    what it drops behind the end of the queue. Over the array stands a bag, which is all that a caller sees. -/

namespace Universa.Js
open BinaryHeap
variable {α : Type}

/-- `FastPriorityQueue`: the queue is the first `size` items of `array`. -/
structure FastPriorityQueue (α : Type) where
  array : List α
  size : ℕ
  size_le : size ≤ array.length

namespace FastPriorityQueue

/-- The loop of `add` and of `_percolateUp`, for `myval` on its way up from `i`. -/
def upLoop (compare : α → α → Bool) (force : Bool) (myval : α) (i : ℕ) (array : List α) : List α :=
  if 0 < i then
    let ap := array.getD (parent i) myval
    if !force && !compare myval ap then array.set i myval
    else upLoop compare force myval (parent i) (array.set i ap)
  else array.set i myval
termination_by i
decreasing_by exact parent_lt ‹_›

/-- The child of `i` that goes up, of the one or two there are. -/
def bestChild (compare : α → α → Bool) (size : ℕ) (ai : α) (i : ℕ) (array : List α) : ℕ :=
  let l := 2 * i + 1
  let r := l + 1
  if r < size ∧ compare (array.getD r ai) (array.getD l ai) = true then r else l

theorem bestChild_eq (compare : α → α → Bool) (size : ℕ) (ai : α) (i : ℕ) (array : List α) :
    bestChild compare size ai i array = 2 * i + 1 ∨
      bestChild compare size ai i array = 2 * i + 2 ∧ 2 * i + 2 < size ∧
        compare (array.getD (2 * i + 2) ai) (array.getD (2 * i + 1) ai) = true := by
  by_cases h : 2 * i + 1 + 1 < size ∧ compare (array.getD (2 * i + 1 + 1) ai) (array.getD (2 * i + 1) ai) = true
  · exact .inr ⟨if_pos h, h⟩
  · exact .inl (if_neg h)

/-- The loop of `_percolateDown`, for `ai` on its way down from `i`. -/
def downLoop (compare : α → α → Bool) (size : ℕ) (ai : α) (i : ℕ) (array : List α) : List α :=
  if i < size / 2 then
    let l := bestChild compare size ai i array
    let bestc := array.getD l ai
    if compare bestc ai then downLoop compare size ai l (array.set i bestc) else array.set i ai
  else array.set i ai
termination_by size - i
decreasing_by
  have := bestChild_eq compare size ai i array
  omega

variable {compare : α → α → Bool} {force : Bool} {size n i k : ℕ} {v : α} {array l : List α}

/-! ### What the loops keep -/

@[simp] theorem upLoop_length : (upLoop compare force v i array).length = array.length := by
  induction i using Nat.strongRecOn generalizing array with
  | ind i ih =>
      rw [upLoop]
      by_cases hi : 0 < i
      · simp only [hi, if_true]
        split
        · exact List.length_set
        · rw [ih _ (parent_lt hi), List.length_set]
      · simp only [hi, if_false, List.length_set]

@[simp] theorem downLoop_length : (downLoop compare size v i array).length = array.length := by
  fun_induction downLoop compare size v i array with
  | case1 i array hi best bestc hbefore ih => rw [ih, List.length_set]
  | case2 => exact List.length_set
  | case3 => exact List.length_set

theorem getD_take {p : ℕ} (hp : p < n) : (l.take n).getD p v = l.getD p v := by
  simp only [List.getD_eq_getElem?_getD, List.getElem?_take, hp, if_true]

/-- The loops only touch the queue itself. -/
theorem upLoop_take (hi : i < n) :
    (upLoop compare force v i l).take n = upLoop compare force v i (l.take n) := by
  induction i using Nat.strongRecOn generalizing l with
  | ind i ih =>
      rw [upLoop, upLoop]
      by_cases hpos : 0 < i
      · have hlt := parent_lt hpos
        simp only [hpos, if_true, getD_take (show parent i < n by omega)]
        split
        · exact List.take_set
        · rw [ih _ hlt (by omega), List.take_set]
      · simp only [hpos, if_false, List.take_set]

theorem bestChild_take :
    bestChild compare size v i (l.take size) = bestChild compare size v i l := by
  unfold bestChild
  by_cases hr : 2 * i + 1 + 1 < size
  · simp only [getD_take hr, getD_take (show 2 * i + 1 < size by omega)]
  · simp only [hr, false_and, if_false]

theorem downLoop_take :
    (downLoop compare size v i l).take size = downLoop compare size v i (l.take size) := by
  fun_induction downLoop compare size v i l with
  | case1 i l hhalf best bestc hbefore ih =>
      have hchild := bestChild_eq compare size v i l
      have hget : (l.take size).getD (bestChild compare size v i l) v = bestc := getD_take (by omega)
      rw [ih, List.take_set]
      conv_rhs => rw [downLoop]
      simp only [hhalf, if_true, bestChild_take, hget, hbefore]
      rfl
  | case2 i l hhalf best bestc hbefore =>
      have hchild := bestChild_eq compare size v i l
      have hget : (l.take size).getD (bestChild compare size v i l) v = bestc := getD_take (by omega)
      conv_rhs => rw [downLoop]
      simp only [hhalf, if_true, bestChild_take, hget, hbefore, List.take_set]
      rfl
  | case3 i l hhalf =>
      conv_rhs => rw [downLoop]
      simp only [hhalf, if_false, List.take_set]

/-! ### The loops are exchanges -/

/-- What stands at a position, with what is on its way at another. -/
theorem getD_set_ne {p : ℕ} (hp : p < l.length) (hne : i ≠ p) : (l.set i v)[p]? = some (l.getD p v) := by
  rw [List.getElem?_set_ne hne, List.getD_eq_getElem?_getD, List.getElem?_eq_getElem hp]
  rfl

/-- An item moves over, and what was on its way is now where that came from. -/
theorem set_move {p : ℕ} : (l.set i (l.getD p v)).set p v = ((l.set i v).set i (l.getD p v)).set p v := by
  rw [List.set_set]

theorem upLoop_perm (hi : i < l.length) : (upLoop compare force v i l).Perm (l.set i v) := by
  induction i using Nat.strongRecOn generalizing l with
  | ind i ih =>
      rw [upLoop]
      by_cases hpos : 0 < i
      · have hlt := parent_lt hpos
        simp only [hpos, if_true]
        split
        · exact .refl _
        · have hset : (l.set i v)[i]? = some v := List.getElem?_set_self hi
          refine (ih _ hlt (by rw [List.length_set]; omega)).trans ?_
          rw [set_move]
          exact exchange_perm hset (getD_set_ne (by omega) (by omega))
      · simp only [hpos, if_false]
        exact .refl _

theorem downLoop_perm (hi : i < l.length) (hsize : size ≤ l.length) :
    (downLoop compare size v i l).Perm (l.set i v) := by
  fun_induction downLoop compare size v i l with
  | case1 i l hhalf best bestc hbefore ih =>
      have hchild : best = 2 * i + 1 ∨ _ := bestChild_eq compare size v i l
      have hset : (l.set i v)[i]? = some v := List.getElem?_set_self hi
      refine (ih (by rw [List.length_set]; omega) (by rwa [List.length_set])).trans ?_
      rw [show (l.set i bestc).set best v = _ from set_move]
      exact exchange_perm hset (getD_set_ne (by omega) (by omega))
  | case2 => exact .refl _
  | case3 => exact .refl _

section Order
variable (hb : WeakOrder compare)
include hb

/-- An item goes up until its parent is not after it. -/
theorem upLoop_heap (hi : i < n) (hn : n ≤ l.length) (h : Rising compare n i (l.set i v)) :
    Heap compare n (upLoop compare false v i l) := by
  induction i using Nat.strongRecOn generalizing l with
  | ind i ih =>
      have hset : (l.set i v)[i]? = some v := List.getElem?_set_self (by omega)
      rw [upLoop]
      by_cases hpos : 0 < i
      · have hlt := parent_lt hpos
        have hup : (l.set i v)[parent i]? = some (l.getD (parent i) v) := getD_set_ne (by omega) (by omega)
        simp only [hpos, if_true, Bool.not_false, Bool.true_and]
        cases hbefore : compare v (l.getD (parent i) v) with
        | false =>
            refine h.settle fun _ a b ha hb => ?_
            rw [hset] at ha
            rw [hup] at hb
            cases ha
            cases hb
            exact hbefore
        | true =>
            have hmoved := h.move hb hpos hi hset hup hbefore
            rw [← set_move] at hmoved
            exact ih _ hlt (by omega) (by rwa [List.length_set]) hmoved
      · simp only [hpos, if_false]
        exact h.settle fun hpos' => absurd hpos' hpos

/-- Forced, it goes up to the root. -/
theorem upLoop_hollow (hi : i < n) (hn : n ≤ l.length) (h : Hollow compare n i (l.set i v)) :
    Hollow compare n 0 (upLoop compare true v i l) ∧ (upLoop compare true v i l)[0]? = some v := by
  induction i using Nat.strongRecOn generalizing l with
  | ind i ih =>
      have hset : (l.set i v)[i]? = some v := List.getElem?_set_self (by omega)
      rw [upLoop]
      by_cases hpos : 0 < i
      · have hlt := parent_lt hpos
        have hmoved := h.move hb hpos hi hset (getD_set_ne (p := parent i) (by omega) (by omega))
        rw [← set_move] at hmoved
        simp only [hpos, if_true, Bool.not_true, Bool.false_and, Bool.false_eq_true, if_false]
        exact ih _ hlt (by omega) (by rwa [List.length_set]) hmoved
      · obtain rfl : i = 0 := by omega
        exact ⟨h, hset⟩

/-- No child of `i` is before the one that goes up. -/
theorem bestChild_least (hi : i < size / 2) (hsize : size ≤ l.length) {c : ℕ} (hc : 0 < c) (hcs : c < size)
    (hpc : parent c = i) : InOrder compare (l.set i v) c (bestChild compare size v i l) := by
  intro a b ha hb'
  have hchild := bestChild_eq compare size v i l
  rw [getD_set_ne (by omega) (by have := parent_lt hc; omega)] at ha
  rw [getD_set_ne (by omega) (by omega)] at hb'
  cases ha
  cases hb'
  rcases (child_iff hc).mp hpc with rfl | rfl
  · rcases hchild with h | ⟨h, -, hbefore⟩
    · rw [h]
      exact hb.irrefl _
    · rw [h]
      exact hb.asymm hbefore
  · rcases hchild with h | ⟨h, -⟩
    · rw [h]
      by_contra hright
      rw [Bool.not_eq_false] at hright
      have : bestChild compare size v i l = 2 * i + 1 + 1 := if_pos ⟨hcs, hright⟩
      omega
    · rw [h]
      exact hb.irrefl _

/-- An item goes down until no child is before it. -/
theorem downLoop_heap (hi : i < size) (hsize : size ≤ l.length) (h : Sinking compare size k i (l.set i v)) :
    HeapFrom compare size k (downLoop compare size v i l) := by
  fun_induction downLoop compare size v i l with
  | case1 i l hhalf best bestc hbefore ih =>
      have hchild : best = 2 * i + 1 ∨ best = 2 * i + 2 ∧ 2 * i + 2 < size ∧ _ :=
        bestChild_eq compare size v i l
      have hset : (l.set i v)[i]? = some v := List.getElem?_set_self (by omega)
      have hparent : parent best = i := (child_iff (by omega)).mpr (by omega)
      have hmoved := h.move hb (by omega) hparent (by omega) hset
        (getD_set_ne (p := best) (by omega) (by omega)) hbefore
        fun c hc hcs hpc => bestChild_least hb hhalf hsize hc hcs hpc
      rw [← set_move] at hmoved
      exact ih (by omega) (by rwa [List.length_set]) hmoved
  | case2 i l hhalf best bestc hbefore =>
      have hchild : best = 2 * i + 1 ∨ best = 2 * i + 2 ∧ 2 * i + 2 < size ∧ _ :=
        bestChild_eq compare size v i l
      have hset : (l.set i v)[i]? = some v := List.getElem?_set_self (by omega)
      have hbest : (l.set i v)[best]? = some bestc := getD_set_ne (by omega) (by omega)
      have hin : InOrder compare (l.set i v) best i := by
        intro a b ha hb'
        rw [hbest] at ha
        rw [hset] at hb'
        cases ha
        cases hb'
        exact Bool.eq_false_iff.mpr hbefore
      exact h.settle fun c hc hcs hpc =>
        InOrder.trans hb (bestChild_least hb hhalf hsize hc hcs hpc) hbest hin
  | case3 i l hhalf =>
      refine h.settle fun c hc hcs hpc => ?_
      have := (child_iff hc).mp hpc
      omega

end Order

/-! ### Operations -/

/-- `_percolateUp(i, force)`. -/
def percolateUp (compare : α → α → Bool) (force : Bool) (i : ℕ) (array : List α) : List α :=
  array[i]?.elim array fun myval => upLoop compare force myval i array

/-- `_percolateDown(i)` of a queue of `size` items. -/
def percolateDown (compare : α → α → Bool) (size i : ℕ) (array : List α) : List α :=
  array[i]?.elim array fun ai => downLoop compare size ai i array

@[simp] theorem percolateUp_length : (percolateUp compare force i l).length = l.length := by
  unfold percolateUp
  cases l[i]? with
  | none => rfl
  | some myval => exact upLoop_length

@[simp] theorem percolateDown_length : (percolateDown compare size i l).length = l.length := by
  unfold percolateDown
  cases l[i]? with
  | none => rfl
  | some ai => exact downLoop_length

/-- A queue as it is made. -/
def empty : FastPriorityQueue α := ⟨[], 0, Nat.le_refl 0⟩

/-- `isEmpty()`. -/
def isEmpty (q : FastPriorityQueue α) : Bool := q.size == 0

/-- `array[size] = value`, over a dropped item if there is one. -/
def assign (array : List α) (size : ℕ) (value : α) : List α :=
  if size < array.length then array.set size value else array ++ [value]

theorem assign_fits (q : FastPriorityQueue α) : q.size + 1 ≤ (assign q.array q.size v).length := by
  have := q.size_le
  unfold assign
  split
  · rwa [List.length_set]
  · rw [List.length_append]
    exact Nat.succ_le_succ this

theorem add_fits (q : FastPriorityQueue α) :
    q.size + 1 ≤ (upLoop compare false v q.size (assign q.array q.size v)).length :=
  upLoop_length.symm ▸ assign_fits q

/-- `add(myval)`. -/
def add (compare : α → α → Bool) (myval : α) (q : FastPriorityQueue α) : FastPriorityQueue α :=
  ⟨upLoop compare false myval q.size (assign q.array q.size myval), q.size + 1, add_fits q⟩

/-- `peek()`. -/
def peek (q : FastPriorityQueue α) : Option α := if q.size = 0 then none else q.array[0]?

/-- The last item at the root, and down from there. -/
def pollArray (compare : α → α → Bool) (q : FastPriorityQueue α) : List α :=
  if 1 < q.size then
    q.array[q.size - 1]?.elim q.array fun last => percolateDown compare (q.size - 1) 0 (q.array.set 0 last)
  else q.array

theorem poll_fits (q : FastPriorityQueue α) : q.size - 1 ≤ (pollArray compare q).length := by
  have hle := q.size_le
  unfold pollArray
  split
  · cases q.array[q.size - 1]? with
    | none => exact (Nat.sub_le _ _).trans hle
    | some last =>
        simp only [Option.elim_some, percolateDown_length, List.length_set]
        omega
  · omega

/-- `poll()`. -/
def poll (compare : α → α → Bool) (q : FastPriorityQueue α) : Option α × FastPriorityQueue α :=
  if q.size = 0 then (none, q) else (q.array[0]?, ⟨pollArray compare q, q.size - 1, poll_fits q⟩)

theorem replace_fits (q : FastPriorityQueue α) :
    q.size ≤ (percolateDown compare q.size 0 (q.array.set 0 v)).length := by
  rw [percolateDown_length, List.length_set]
  exact q.size_le

/-- `replaceTop(myval)`. -/
def replaceTop (compare : α → α → Bool) (myval : α) (q : FastPriorityQueue α) :
    Option α × FastPriorityQueue α :=
  if q.size = 0 then (none, q)
  else (q.array[0]?, ⟨percolateDown compare q.size 0 (q.array.set 0 myval), q.size, replace_fits q⟩)

theorem up_fits (q : FastPriorityQueue α) : q.size ≤ (percolateUp compare force i q.array).length := by
  rw [percolateUp_length]
  exact q.size_le

/-- `_removeAt(index)`. -/
def removeAt (compare : α → α → Bool) (index : ℕ) (q : FastPriorityQueue α) :
    Option α × FastPriorityQueue α :=
  if index < q.size then poll compare ⟨percolateUp compare true index q.array, q.size, up_fits q⟩ else (none, q)

/-- The comparator has neither first. -/
def same (compare : α → α → Bool) (a b : α) : Bool := !compare a b && !compare b a

/-- `remove(myval)`. -/
def remove (compare : α → α → Bool) (myval : α) (q : FastPriorityQueue α) : Bool × FastPriorityQueue α :=
  match (q.array.take q.size).findIdx? (same compare · myval) with
  | some i => (true, (removeAt compare i q).2)
  | none => (false, q)

/-- `for (i = size >> 1; i >= 0; i--)` of `heapify`, from an `i` on. -/
def heapifyFrom (compare : α → α → Bool) (size : ℕ) : ℕ → List α → List α
  | 0, array => percolateDown compare size 0 array
  | i + 1, array => heapifyFrom compare size i (percolateDown compare size (i + 1) array)

theorem heapifyFrom_length : (heapifyFrom compare size i l).length = l.length := by
  induction i generalizing l with
  | zero => exact percolateDown_length
  | succ i ih => exact ih.trans percolateDown_length

/-- `heapify(arr)`. -/
def heapify (compare : α → α → Bool) (arr : List α) : FastPriorityQueue α :=
  ⟨heapifyFrom compare arr.length (arr.length / 2) arr, arr.length, heapifyFrom_length.ge⟩

theorem clone_fits (q : FastPriorityQueue α) : q.size ≤ (q.array.take q.size).length := by
  rw [List.length_take_of_le q.size_le]

/-- `clone()`; `trim()` leaves the queue with the same array. -/
def clone (q : FastPriorityQueue α) : FastPriorityQueue α := ⟨q.array.take q.size, q.size, clone_fits q⟩

theorem removeAt_size (q : FastPriorityQueue α) (h : i < q.size) : (removeAt compare i q).2.size < q.size := by
  have hne : q.size ≠ 0 := by omega
  simp only [removeAt, h, if_true, poll, hne, if_false]
  omega

theorem poll_size (q : FastPriorityQueue α) (h : q.size ≠ 0) : (poll compare q).2.size < q.size := by
  simp only [poll, h, if_false]
  omega

/-- The loop of `_batchRemove` at `i`, with how many may still be taken. -/
def batchLoop (compare : α → α → Bool) (callback : α → Bool) (i left : ℕ) (q : FastPriorityQueue α) :
    List α × FastPriorityQueue α :=
  if i < q.size ∧ 0 < left then
    match q.array[i]? with
    | none => ([], q)
    | some item =>
        if callback item then
          let removed := removeAt compare i q
          let rest := batchLoop compare callback (i / 2) (left - 1) removed.2
          (removed.1.toList ++ rest.1, rest.2)
        else batchLoop compare callback (i + 1) left q
  else ([], q)
termination_by (q.size, q.size - i)
decreasing_by
  · exact Prod.Lex.left _ _ (removeAt_size q (And.left ‹_›))
  · exact Prod.Lex.right _ (by omega)

/-- `removeMany(callback, limit)`; the limit 0 is no limit. `removeOne(callback)` has the limit 1. -/
def removeMany (compare : α → α → Bool) (callback : α → Bool) (limit : ℕ) (q : FastPriorityQueue α) :
    List α × FastPriorityQueue α :=
  batchLoop compare callback 0 (if limit = 0 then q.size else limit) q

/-- `while (!fpq.isEmpty())` of `forEach`: what its callback is given, in turn. -/
def drain (compare : α → α → Bool) (q : FastPriorityQueue α) : List α :=
  if q.size = 0 then []
  else (poll compare q).1.toList ++ drain compare (poll compare q).2
termination_by q.size
decreasing_by exact poll_size q ‹_›

/-- `forEach(callback)`. -/
def forEach (compare : α → α → Bool) (q : FastPriorityQueue α) : List α := drain compare (clone q)

end FastPriorityQueue
end Universa.Js
