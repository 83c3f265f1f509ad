import Universa.Js.FastPriorityQueue

/-! What a caller of `FastPriorityQueue` sees. Each call is a step of a bag, whatever the array does: an item that
    is asked for is a least one, or one the comparator or the callback accepts. -/

namespace Universa.Js
open BinaryHeap
variable {α : Type}

namespace FastPriorityQueue
variable {compare : α → α → Bool} {n i : ℕ} {v : α} {l : List α} {q : FastPriorityQueue α}

/-- The items, as they are in the array. -/
def contents (q : FastPriorityQueue α) : List α := q.array.take q.size

/-- The items. -/
def bag (q : FastPriorityQueue α) : Multiset α := q.contents

/-- No item is before its parent. -/
def Ordered (compare : α → α → Bool) (q : FastPriorityQueue α) : Prop := Heap compare q.size q.contents

@[simp] theorem contents_length (q : FastPriorityQueue α) : q.contents.length = q.size :=
  List.length_take_of_le q.size_le

theorem contents_getElem? (h : i < q.size) : q.contents[i]? = q.array[i]? := List.getElem?_take_of_lt h

theorem bag_card (q : FastPriorityQueue α) : q.bag.card = q.size := contents_length q

theorem contents_root (h : 0 < q.size) : ∃ root rest, q.contents = root :: rest := by
  cases hc : q.contents with
  | nil =>
      have := contents_length q
      rw [hc, List.length_nil] at this
      omega
  | cons root rest => exact ⟨root, rest, rfl⟩

/-! ### One call -/

theorem percolateDown_root_take (h : 0 < l.length) :
    (percolateDown compare n 0 (l.set 0 v)).take n = downLoop compare n v 0 ((l.take n).set 0 v) := by
  rw [percolateDown, List.getElem?_set_self h, Option.elim_some, downLoop_take, List.take_set]

section Calls
variable (hb : WeakOrder compare)
include hb

/-- Something new at the root goes down. -/
theorem percolate_root (h : Hollow compare n 0 l) (hl : l.length = n) (hn : 0 < n) (v : α) :
    Heap compare n (downLoop compare n v 0 (l.set 0 v)) ∧
      (downLoop compare n v 0 (l.set 0 v)).Perm (l.set 0 v) := by
  have hset : (l.set 0 v).set 0 v = l.set 0 v := List.set_set ..
  have hlen : (l.set 0 v).length = n := List.length_set.trans hl
  constructor
  · refine downLoop_heap hb hn hlen.ge ?_
    rw [hset]
    constructor
    · intro c hc hcn _ hpc x y hx hy
      have hlt := parent_lt hc
      rw [List.getElem?_set_ne (by omega)] at hx
      rw [List.getElem?_set_ne (by omega)] at hy
      exact h.pairs c hc hcn (by omega) hpc x y hx hy
    · intro _ _ _ _ hpos
      omega
  · have hperm : (downLoop compare n v 0 (l.set 0 v)).Perm _ := downLoop_perm (hlen.symm ▸ hn) hlen.ge
    rwa [hset] at hperm

theorem add_spec (h : Ordered compare q) (v : α) :
    Ordered compare (add compare v q) ∧ (add compare v q).bag = v ::ₘ q.bag := by
  have hlen := contents_length q
  have hassign : (assign q.array q.size v).take (q.size + 1) = q.contents ++ [v] := by
    unfold assign
    split
    · next hlt =>
        rw [List.take_add_one, List.take_set_of_le (Nat.le_refl _), List.getElem?_set_self hlt]
        rfl
    · next hge =>
        have hsize := q.size_le
        have hall : q.contents = q.array := List.take_of_length_le (by omega)
        rw [hall, List.take_of_length_le (by rw [List.length_append, List.length_singleton]; omega)]
  have hcontents : (add compare v q).contents = upLoop compare false v q.size (q.contents ++ [v]) := by
    rw [← hassign]
    exact upLoop_take (n := q.size + 1) (by omega)
  have hlast : (q.contents ++ [v]).set q.size v = q.contents ++ [v] := by
    rw [← hlen, List.set_append_right _ _ (Nat.le_refl _), Nat.sub_self]
    rfl
  have hin : q.size < (q.contents ++ [v]).length := by
    rw [List.length_append, hlen]
    exact Nat.lt_succ_self _
  constructor
  · show Heap compare (q.size + 1) _
    rw [hcontents]
    refine upLoop_heap hb (Nat.lt_succ_self _) hin ?_
    rw [hlast]
    constructor
    · intro c hc hcn hne x y hx hy
      have hlt := parent_lt hc
      rw [List.getElem?_append_left (by omega)] at hx
      rw [List.getElem?_append_left (by omega)] at hy
      exact h c hc (by omega) (Nat.zero_le _) x y hx hy
    · intro c hc hcn hpc
      have hlt := parent_lt hc
      omega
  · have hperm : (upLoop compare false v q.size (q.contents ++ [v])).Perm (v :: q.contents) := by
      refine (upLoop_perm hin).trans ?_
      rw [hlast]
      exact List.perm_append_singleton _ _
    show (↑(add compare v q).contents : Multiset α) = _
    rw [hcontents]
    exact Multiset.coe_eq_coe.mpr hperm

/-- What `poll` answers is at the root; the rest may have been out of order with it. -/
theorem poll_hollow (h : Hollow compare q.size 0 q.contents) (hpos : 0 < q.size) :
    ∃ root, q.contents[0]? = some root ∧ (poll compare q).1 = some root ∧
      q.bag = root ::ₘ (poll compare q).2.bag ∧ Ordered compare (poll compare q).2 := by
  obtain ⟨root, rest, hcontents⟩ := contents_root hpos
  have hroot : q.contents[0]? = some root := by rw [hcontents]; rfl
  have hne : q.size ≠ 0 := by omega
  have hlen := contents_length q
  rw [hcontents, List.length_cons] at hlen
  have hpoll : poll compare q = (some root, ⟨pollArray compare q, q.size - 1, poll_fits q⟩) := by
    rw [poll, if_neg hne, ← contents_getElem? hpos, hroot]
  refine ⟨root, hroot, by rw [hpoll], ?_⟩
  rw [hpoll]
  rcases Nat.lt_or_ge 1 q.size with hmany | hone
  · obtain ⟨body, last, rfl⟩ : ∃ body last, rest = body ++ [last] := by
      refine ⟨rest.dropLast, rest.getLast ?_, (List.dropLast_append_getLast _).symm⟩
      rintro rfl
      rw [List.length_nil] at hlen
      omega
    rw [List.length_append, List.length_singleton] at hlen
    have hsize : q.size - 1 = (root :: body).length := by rw [List.length_cons]; omega
    have hlast : q.array[q.size - 1]? = some last := by
      rw [← contents_getElem? (by omega), hcontents, hsize]
      exact List.getElem?_concat_length ..
    have htake : q.array.take (q.size - 1) = root :: body := by
      have : q.array.take (q.size - 1) = q.contents.take (q.size - 1) := by
        rw [contents, List.take_take, Nat.min_eq_left (Nat.sub_le _ _)]
      rw [this, hcontents, hsize]
      exact List.take_left
    have hafter : (pollArray compare q).take (q.size - 1) =
        downLoop compare (q.size - 1) last 0 ((root :: body).set 0 last) := by
      have hin : 0 < q.array.length := Nat.lt_of_lt_of_le hpos q.size_le
      rw [pollArray, if_pos hmany, hlast, Option.elim_some, percolateDown_root_take hin, htake]
    have hrest : Hollow compare (q.size - 1) 0 (root :: body) := by
      constructor
      · intro c hc hcn hne hpc x y hx hy
        have hlt := parent_lt hc
        rw [← htake, List.getElem?_take_of_lt hcn, ← contents_getElem? (by omega)] at hx
        rw [← htake, List.getElem?_take_of_lt (by omega), ← contents_getElem? (by omega)] at hy
        exact h.pairs c hc (by omega) hne hpc x y hx hy
      · intro _ _ _ _ hpos'
        omega
    obtain ⟨hheap, hperm⟩ := percolate_root hb hrest hsize.symm (by omega) last
    constructor
    · show (↑q.contents : Multiset α) = root ::ₘ ↑((pollArray compare q).take (q.size - 1))
      rw [hafter, hcontents, Multiset.cons_coe]
      refine Multiset.coe_eq_coe.mpr (List.Perm.cons _ ?_)
      exact (List.perm_append_singleton _ _).trans hperm.symm
    · show Heap compare (q.size - 1) ((pollArray compare q).take (q.size - 1))
      rwa [hafter]
  · obtain rfl : rest = [] := List.length_eq_zero_iff.mp (by omega)
    have hzero : q.size - 1 = 0 := by omega
    constructor
    · show (↑q.contents : Multiset α) = root ::ₘ ↑((pollArray compare q).take (q.size - 1))
      rw [hcontents, hzero, List.take_zero]
      rfl
    · intro c _ hc _
      exact absurd hc (by show ¬ c < q.size - 1; omega)

/-- No item is before the one at the root. -/
theorem Ordered.least (h : Ordered compare q) {root : α} (hroot : q.contents[0]? = some root) :
    ∀ b ∈ q.bag, compare b root = false := by
  have hlen := contents_length q
  intro b hmem
  obtain ⟨c, hc, rfl⟩ := List.getElem_of_mem (Multiset.mem_coe.mp hmem)
  exact h.root hb hlen.ge c (hlen ▸ hc) _ _ (List.getElem?_eq_getElem hc) hroot

/-- `poll` takes a least item. -/
theorem poll_spec (h : Ordered compare q) (hpos : 0 < q.size) :
    ∃ root, (poll compare q).1 = some root ∧ (∀ b ∈ q.bag, compare b root = false) ∧
      q.bag = root ::ₘ (poll compare q).2.bag ∧ Ordered compare (poll compare q).2 := by
  have hlen := contents_length q
  obtain ⟨root, hroot, hanswer, hbag, hafter⟩ := poll_hollow hb (h.hollow hb hpos hlen.ge) hpos
  exact ⟨root, hanswer, h.least hb hroot, hbag, hafter⟩

/-- `replaceTop` takes what `poll` would. -/
theorem replaceTop_spec (h : Ordered compare q) (hpos : 0 < q.size) (v : α) :
    ∃ root rest, (replaceTop compare v q).1 = some root ∧ (∀ b ∈ q.bag, compare b root = false) ∧
      q.bag = root ::ₘ rest ∧ (replaceTop compare v q).2.bag = v ::ₘ rest ∧
      Ordered compare (replaceTop compare v q).2 := by
  have hlen := contents_length q
  obtain ⟨root, rest, hcontents⟩ := contents_root hpos
  have hroot : q.contents[0]? = some root := by rw [hcontents]; rfl
  have hne : q.size ≠ 0 := by omega
  have hin : 0 < q.array.length := Nat.lt_of_lt_of_le hpos q.size_le
  have hafter : (percolateDown compare q.size 0 (q.array.set 0 v)).take q.size =
      downLoop compare q.size v 0 (q.contents.set 0 v) := percolateDown_root_take hin
  have hanswer : replaceTop compare v q =
      (some root, ⟨percolateDown compare q.size 0 (q.array.set 0 v), q.size, replace_fits q⟩) := by
    rw [replaceTop, if_neg hne, ← contents_getElem? hpos, hroot]
  obtain ⟨hheap, hperm⟩ := percolate_root hb (h.hollow hb hpos hlen.ge) hlen hpos v
  rw [hanswer]
  refine ⟨root, rest, rfl, h.least hb hroot, congrArg _ hcontents, ?_, ?_⟩
  · show (↑((percolateDown compare q.size 0 (q.array.set 0 v)).take q.size) : Multiset α) = _
    rw [hafter, Multiset.cons_coe]
    rw [hcontents] at hperm ⊢
    exact Multiset.coe_eq_coe.mpr hperm
  · show Heap compare q.size _
    rwa [contents, hafter]

/-- `_removeAt` takes the item at the position. -/
theorem removeAt_spec (h : Ordered compare q) (hi : i < q.size) :
    ∃ item, q.contents[i]? = some item ∧ (removeAt compare i q).1 = some item ∧
      q.bag = item ::ₘ (removeAt compare i q).2.bag ∧ Ordered compare (removeAt compare i q).2 := by
  have hlen := contents_length q
  have hic : i < q.contents.length := hlen ▸ hi
  obtain ⟨item, hitem⟩ : ∃ item, q.contents[i]? = some item := ⟨_, List.getElem?_eq_getElem hic⟩
  have hself : q.contents.set i item = q.contents := by
    obtain ⟨_, rfl⟩ := List.getElem?_eq_some_iff.mp hitem
    exact List.set_getElem_self hic
  let raised : FastPriorityQueue α := ⟨percolateUp compare true i q.array, q.size, up_fits q⟩
  have hraised : raised.contents = upLoop compare true item i q.contents := by
    show (percolateUp compare true i q.array).take q.size = _
    rw [percolateUp, ← contents_getElem? hi, hitem]
    exact upLoop_take hi
  have hhollow : Hollow compare q.size i (q.contents.set i item) := hself.symm ▸ h.hollow hb hi hlen.ge
  obtain ⟨hroot, hat⟩ := upLoop_hollow hb hi hlen.ge hhollow
  rw [← hraised] at hroot hat
  obtain ⟨root, hroot', hanswer, hbag, hafter⟩ :=
    poll_hollow hb (q := raised) hroot (Nat.lt_of_le_of_lt (Nat.zero_le _) hi)
  have hremove : removeAt compare i q = poll compare raised := if_pos hi
  rw [hremove]
  rw [hat] at hroot'
  cases hroot'
  refine ⟨item, hitem, hanswer, ?_, hafter⟩
  rw [← hbag]
  show (↑q.contents : Multiset α) = ↑raised.contents
  rw [hraised]
  have hperm : (upLoop compare true item i q.contents).Perm _ := upLoop_perm hic
  rw [hself] at hperm
  exact Multiset.coe_eq_coe.mpr hperm.symm

theorem percolate_from {m : ℕ} (h : HeapFrom compare n (m + 1) l) (hl : l.length = n) :
    HeapFrom compare n m (percolateDown compare n m l) ∧ (percolateDown compare n m l).Perm l := by
  rw [percolateDown]
  cases hm : l[m]? with
  | none =>
      refine ⟨fun c hc hcn hk => h c hc hcn ?_, .refl _⟩
      have := List.getElem?_eq_none_iff.mp hm
      have := parent_lt hc
      omega
  | some ai =>
      obtain ⟨hin, rfl⟩ := List.getElem?_eq_some_iff.mp hm
      have hself : l.set m l[m] = l := List.set_getElem_self hin
      refine ⟨downLoop_heap hb (hl ▸ hin) hl.ge (hself.symm ▸ h.sinking), ?_⟩
      have hperm : (downLoop compare n l[m] m l).Perm _ := downLoop_perm hin hl.ge
      rwa [hself] at hperm

theorem heapifyFrom_heap {m : ℕ} (h : HeapFrom compare n (m + 1) l) (hl : l.length = n) :
    Heap compare n (heapifyFrom compare n m l) ∧ (heapifyFrom compare n m l).Perm l := by
  induction m generalizing l with
  | zero => exact percolate_from hb h hl
  | succ m ih =>
      obtain ⟨hheap, hperm⟩ := percolate_from hb h hl
      obtain ⟨hheap', hperm'⟩ := ih hheap (hperm.length_eq.trans hl)
      exact ⟨hheap', hperm'.trans hperm⟩

theorem heapify_spec (arr : List α) :
    Ordered compare (heapify compare arr) ∧ (heapify compare arr).bag = arr := by
  have hstart : HeapFrom compare arr.length (arr.length / 2 + 1) arr := by
    intro c hc hcn hk
    unfold parent at hk
    omega
  obtain ⟨hheap, hperm⟩ := heapifyFrom_heap hb hstart rfl
  have hcontents : (heapify compare arr).contents = heapifyFrom compare arr.length (arr.length / 2) arr :=
    List.take_of_length_le heapifyFrom_length.le
  constructor
  · show Heap compare arr.length _
    rwa [hcontents]
  · show (↑(heapify compare arr).contents : Multiset α) = _
    rw [hcontents]
    exact Multiset.coe_eq_coe.mpr hperm

/-- `remove` takes one item that the comparator does not tell from `v`, if there is one. -/
theorem remove_spec (h : Ordered compare q) (v : α) :
    Ordered compare (remove compare v q).2 ∧
      ((remove compare v q).1 = true ∧ (∃ item, same compare item v = true ∧
          q.bag = item ::ₘ (remove compare v q).2.bag) ∨
        (remove compare v q).1 = false ∧ (remove compare v q).2 = q ∧
          ∀ item ∈ q.bag, same compare item v = false) := by
  unfold remove
  cases hfind : (q.array.take q.size).findIdx? (same compare · v) with
  | none =>
      refine ⟨h, .inr ⟨rfl, rfl, ?_⟩⟩
      intro item hmem
      exact List.findIdx?_eq_none_iff.mp hfind item hmem
  | some i =>
      obtain ⟨hi, hsame, -⟩ := List.findIdx?_eq_some_iff_getElem.mp hfind
      obtain ⟨item, hitem, -, hbag, hafter⟩ := removeAt_spec hb h ((contents_length q) ▸ hi)
      obtain ⟨_, rfl⟩ := List.getElem?_eq_some_iff.mp hitem
      exact ⟨hafter, .inl ⟨rfl, _, hsame, hbag⟩⟩

/-- What the loop takes, it takes out of the queue, and the callback accepts it. -/
theorem batchLoop_spec (callback : α → Bool) (left : ℕ) (h : Ordered compare q) :
    q.bag = ↑(batchLoop compare callback i left q).1 + (batchLoop compare callback i left q).2.bag ∧
      Ordered compare (batchLoop compare callback i left q).2 ∧
      (∀ item ∈ (batchLoop compare callback i left q).1, callback item = true) ∧
      (batchLoop compare callback i left q).1.length ≤ left := by
  fun_induction batchLoop compare callback i left q with
  | case1 i left q hin hnone => exact ⟨(Multiset.zero_add _).symm, h, by simp, Nat.zero_le _⟩
  | case2 i left q hin item hitem hcallback removed rest ih =>
      obtain ⟨item', hitem', hanswer, hbag, hafter⟩ := removeAt_spec hb h hin.1
      rw [contents_getElem? hin.1, hitem] at hitem'
      cases hitem'
      obtain ⟨hrest, hafter', hall, hcount⟩ := ih hafter
      have htaken : removed.1.toList = [item] := by
        rw [show removed.1 = some item from hanswer]
        rfl
      rw [htaken]
      refine ⟨?_, hafter', ?_, ?_⟩
      · rw [hbag, hrest]
        rfl
      · intro x hx
        rcases List.mem_append.mp hx with hx | hx
        · rw [List.mem_singleton.mp hx]
          exact hcallback
        · exact hall x hx
      · have hleft : rest.1.length ≤ left - 1 := hcount
        have := hin.2
        rw [List.length_append, List.length_singleton]
        omega
  | case3 i left q hin item hitem hcallback ih => exact ih h
  | case4 i left q hout => exact ⟨(Multiset.zero_add _).symm, h, by simp, Nat.zero_le _⟩

/-- Where it takes nothing it has been through all of them. -/
theorem batchLoop_nil (callback : α → Bool) (left : ℕ) (hleft : 0 < left) (h : Ordered compare q)
    (hnil : (batchLoop compare callback i left q).1 = []) (p : ℕ) (hp : i ≤ p) (item : α)
    (hitem : q.contents[p]? = some item) : callback item = false := by
  fun_induction batchLoop compare callback i left q with
  | case1 i left q hin hnone =>
      have hsize := q.size_le
      have := List.getElem?_eq_none_iff.mp hnone
      omega
  | case2 i left q hin found hfound hcallback removed rest ih =>
      obtain ⟨_, -, hanswer, -⟩ := removeAt_spec hb h hin.1
      rw [show removed.1 = some _ from hanswer] at hnil
      cases hnil
  | case3 i left q hin found hfound hcallback ih =>
      rcases Nat.eq_or_lt_of_le hp with rfl | hlt
      · rw [contents_getElem? hin.1, hfound] at hitem
        cases hitem
        exact Bool.eq_false_iff.mpr hcallback
      · exact ih hleft h hnil hlt hitem
  | case4 i left q hout =>
      have hlen := contents_length q
      have := (List.getElem?_eq_some_iff.mp hitem).1
      omega

/-- Polled until it is empty, a queue gives its items in order. -/
theorem drain_spec (h : Ordered compare q) :
    (↑(drain compare q) : Multiset α) = q.bag ∧ (drain compare q).Pairwise fun a b => compare b a = false := by
  fun_induction drain compare q with
  | case1 q hzero =>
      have : q.contents = [] := List.length_eq_zero_iff.mp ((contents_length q).trans hzero)
      refine ⟨?_, .nil⟩
      show _ = (↑q.contents : Multiset α)
      rw [this]
  | case2 q hne ih =>
      obtain ⟨root, hanswer, hleast, hbag, hafter⟩ := poll_spec hb h (Nat.pos_of_ne_zero hne)
      obtain ⟨hrest, hsorted⟩ := ih hafter
      rw [hanswer]
      constructor
      · rw [hbag, ← hrest]
        rfl
      · refine List.Pairwise.cons ?_ hsorted
        intro b hmem
        refine hleast b ?_
        rw [hbag, ← hrest]
        exact Multiset.mem_cons_of_mem (Multiset.mem_coe.mpr hmem)

end Calls

theorem clone_contents (q : FastPriorityQueue α) : (clone q).contents = q.contents := by
  show (q.array.take q.size).take q.size = _
  rw [List.take_take, Nat.min_self]
  rfl

/-! ### Runs -/

/-- A call of a method. -/
inductive Call (α : Type)
  | add (myval : α)
  | peek
  | poll
  | replaceTop (myval : α)
  | remove (myval : α)
  | removeMany (callback : α → Bool) (limit : ℕ)
  | heapify (arr : List α)
  | forEach
  | trim

/-- What a method answers, or gives its callback. -/
inductive Answer (α : Type)
  | done
  | item (item : Option α)
  | removed (found : Bool)
  | items (items : List α)

/-- One call of a queue. -/
def call (compare : α → α → Bool) (q : FastPriorityQueue α) : Call α → Answer α × FastPriorityQueue α
  | .add myval => (.done, add compare myval q)
  | .peek => (.item (peek q), q)
  | .poll => ((poll compare q).map .item id)
  | .replaceTop myval => ((replaceTop compare myval q).map .item id)
  | .remove myval => ((remove compare myval q).map .removed id)
  | .removeMany callback limit => ((removeMany compare callback limit q).map .items id)
  | .heapify arr => (.done, heapify compare arr)
  | .forEach => (.items (forEach compare q), q)
  | .trim => (.done, clone q)

/-- Calls one after another. -/
def calls (compare : α → α → Bool) : FastPriorityQueue α → List (Call α) → List (Answer α) × FastPriorityQueue α
  | q, [] => ([], q)
  | q, c :: cs =>
      let (answer, q') := call compare q c
      let (answers, q'') := calls compare q' cs
      (answer :: answers, q'')

/-- A least item of the bag, if it has any. -/
def Least (compare : α → α → Bool) (s : Multiset α) : Option α → Prop
  | none => s = 0
  | some a => a ∈ s ∧ ∀ b ∈ s, compare b a = false

/-- What a call may answer and leave, of a bag. -/
def Does (compare : α → α → Bool) (s : Multiset α) (c : Call α) (answer : Answer α) (s' : Multiset α) : Prop :=
  match c with
  | .add myval => answer = .done ∧ s' = myval ::ₘ s
  | .peek => s' = s ∧ ∃ a, answer = .item a ∧ Least compare s a
  | .poll => ∃ a, answer = .item a ∧ Least compare s a ∧ s = ↑a.toList + s'
  | .replaceTop myval =>
      ∃ a rest, answer = .item a ∧ Least compare s a ∧ s = ↑a.toList + rest ∧
        s' = if a.isSome then myval ::ₘ rest else 0
  | .remove myval =>
      (answer = .removed true ∧ ∃ a, same compare a myval = true ∧ s = a ::ₘ s') ∨
        (answer = .removed false ∧ s' = s ∧ ∀ a ∈ s, same compare a myval = false)
  | .removeMany callback limit =>
      ∃ l : List α, answer = .items l ∧ s = ↑l + s' ∧ (∀ a ∈ l, callback a = true) ∧
        (limit ≠ 0 → l.length ≤ limit) ∧ (l = [] → ∀ a ∈ s, callback a = false)
  | .heapify arr => answer = .done ∧ s' = ↑arr
  | .forEach => s' = s ∧ ∃ l : List α, answer = .items l ∧ ↑l = s ∧ l.Pairwise fun a b => compare b a = false
  | .trim => answer = .done ∧ s' = s

/-- Calls of a bag, one after another. -/
def BagRun (compare : α → α → Bool) : Multiset α → List (Call α) → List (Answer α) → Multiset α → Prop
  | s, [], answers, s' => answers = [] ∧ s' = s
  | s, c :: cs, answers, s' =>
      ∃ answer rest m, answers = answer :: rest ∧ Does compare s c answer m ∧ BagRun compare m cs rest s'

theorem empty_ordered : Ordered compare (empty : FastPriorityQueue α) :=
  fun c _ hc _ => absurd hc (Nat.not_lt_zero c)

section Runs
variable (hb : WeakOrder compare)
include hb

theorem least_peek (h : Ordered compare q) : Least compare q.bag (peek q) := by
  unfold peek
  split
  · next hzero =>
      exact Multiset.card_eq_zero.mp ((bag_card q).trans hzero)
  · next hne =>
      obtain ⟨root, rest, hcontents⟩ := contents_root (Nat.pos_of_ne_zero hne)
      have hroot : q.contents[0]? = some root := by rw [hcontents]; rfl
      rw [← contents_getElem? (Nat.pos_of_ne_zero hne), hroot]
      refine ⟨?_, h.least hb hroot⟩
      show root ∈ (↑q.contents : Multiset α)
      rw [hcontents]
      exact Multiset.mem_coe.mpr List.mem_cons_self

/-- A call does to the bag what it should, and keeps the order. -/
theorem call_spec (h : Ordered compare q) (c : Call α) :
    Does compare q.bag c (call compare q c).1 (call compare q c).2.bag ∧
      Ordered compare (call compare q c).2 := by
  cases c with
  | add myval =>
      obtain ⟨hafter, hbag⟩ := add_spec hb h myval
      exact ⟨⟨rfl, hbag⟩, hafter⟩
  | peek => exact ⟨⟨rfl, _, rfl, least_peek hb h⟩, h⟩
  | poll =>
      rcases Nat.eq_zero_or_pos q.size with hzero | hpos
      · have hempty : q.bag = 0 := Multiset.card_eq_zero.mp ((bag_card q).trans hzero)
        have hpoll : poll compare q = (none, q) := if_pos hzero
        simp only [call, hpoll]
        exact ⟨⟨none, rfl, hempty, (Multiset.zero_add _).symm⟩, h⟩
      · obtain ⟨root, hanswer, hleast, hbag, hafter⟩ := poll_spec hb h hpos
        refine ⟨⟨some root, congrArg Answer.item hanswer, ⟨?_, hleast⟩, hbag⟩, hafter⟩
        rw [hbag]
        exact Multiset.mem_cons_self _ _
  | replaceTop myval =>
      rcases Nat.eq_zero_or_pos q.size with hzero | hpos
      · have hempty : q.bag = 0 := Multiset.card_eq_zero.mp ((bag_card q).trans hzero)
        have hreplace : replaceTop compare myval q = (none, q) := if_pos hzero
        simp only [call, hreplace]
        exact ⟨⟨none, 0, rfl, hempty, hempty, hempty⟩, h⟩
      · obtain ⟨root, rest, hanswer, hleast, hbag, hbag', hafter⟩ := replaceTop_spec hb h hpos myval
        refine ⟨⟨some root, rest, congrArg Answer.item hanswer, ⟨?_, hleast⟩, hbag, hbag'⟩, hafter⟩
        rw [hbag]
        exact Multiset.mem_cons_self _ _
  | remove myval =>
      obtain ⟨hafter, ⟨hfound, item, hsame, hbag⟩ | ⟨hfound, hq, hnone⟩⟩ := remove_spec hb h myval
      · exact ⟨.inl ⟨congrArg Answer.removed hfound, item, hsame, hbag⟩, hafter⟩
      · exact ⟨.inr ⟨congrArg Answer.removed hfound, congrArg bag hq, hnone⟩, hafter⟩
  | removeMany callback limit =>
      obtain ⟨hbag, hafter, hall, hcount⟩ :=
        batchLoop_spec (i := 0) hb callback (if limit = 0 then q.size else limit) h
      refine ⟨⟨_, rfl, hbag, hall, ?_, ?_⟩, hafter⟩
      · intro hne
        exact hcount.trans_eq (if_neg hne)
      · intro hnil a hmem
        obtain ⟨p, hp, rfl⟩ := List.getElem_of_mem (Multiset.mem_coe.mp hmem)
        refine batchLoop_nil hb callback _ ?_ h hnil p (Nat.zero_le p) _ (List.getElem?_eq_getElem hp)
        rw [contents_length] at hp
        split <;> omega
  | heapify arr =>
      obtain ⟨hafter, hbag⟩ := heapify_spec hb arr
      exact ⟨⟨rfl, hbag⟩, hafter⟩
  | forEach =>
      have hclone : Ordered compare (clone q) := by
        show Heap compare q.size (clone q).contents
        rwa [clone_contents]
      obtain ⟨hbag, hsorted⟩ := drain_spec hb hclone
      refine ⟨⟨rfl, _, rfl, hbag.trans ?_, hsorted⟩, h⟩
      exact congrArg Multiset.ofList (clone_contents q)
  | trim =>
      constructor
      · exact ⟨rfl, congrArg Multiset.ofList (clone_contents q)⟩
      · show Heap compare q.size (clone q).contents
        rwa [clone_contents]

theorem calls_spec (h : Ordered compare q) (cs : List (Call α)) :
    BagRun compare q.bag cs (calls compare q cs).1 (calls compare q cs).2.bag ∧
      Ordered compare (calls compare q cs).2 := by
  induction cs generalizing q with
  | nil => exact ⟨⟨rfl, rfl⟩, h⟩
  | cons c cs ih =>
      obtain ⟨hdoes, hafter⟩ := call_spec hb h c
      obtain ⟨hrun, hafter'⟩ := ih hafter
      exact ⟨⟨_, _, _, rfl, hdoes, hrun⟩, hafter'⟩

/-- A BAG WITH AN ORDER (runs): whatever is called on a new queue, each answer is one that a bag may give, a least
    item where one is asked for; `removeMany` misses none only where it answers none. -/
theorem run_is_bag_run (cs : List (Call α)) :
    BagRun compare 0 cs (calls compare empty cs).1 (calls compare empty cs).2.bag ∧
      Ordered compare (calls compare empty cs).2 :=
  calls_spec hb empty_ordered cs

end Runs

theorem weakOrder_lt : WeakOrder fun a b : ℕ => decide (a < b) where
  asymm h := decide_eq_false (Nat.lt_asymm (of_decide_eq_true h))
  trans h h' := decide_eq_false (Nat.not_lt.mpr ((Nat.not_lt.mp (of_decide_eq_false h')).trans
    (Nat.not_lt.mp (of_decide_eq_false h))))

theorem run_is_bag_run_numbers :
    BagRun (fun a b : ℕ => decide (a < b)) 0 [.add 5, .add 3, .removeMany (· == 3) 0, .poll, .forEach]
        (calls (fun a b => decide (a < b)) empty [.add 5, .add 3, .removeMany (· == 3) 0, .poll, .forEach]).1
        (calls (fun a b => decide (a < b)) empty [.add 5, .add 3, .removeMany (· == 3) 0, .poll, .forEach]).2.bag ∧
      Ordered (fun a b => decide (a < b))
        (calls (fun a b => decide (a < b)) empty [.add 5, .add 3, .removeMany (· == 3) 0, .poll, .forEach]).2 :=
  run_is_bag_run weakOrder_lt _

end FastPriorityQueue
end Universa.Js
