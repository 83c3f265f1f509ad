import Mathlib.Data.List.Nodup
import Mathlib.Data.List.Perm.Basic

/-! Maps that remember the order in which their keys came. To set a key that is there keeps its place. What a map
    answers does not depend on the order: entries with different keys answer the same in any order, so that a map
    that is filled with the entries of another one answers as that one does. -/

namespace Universa.Lib

/-- Entries with different keys, the oldest first. -/
structure OrderedMap (K V : Type) where
  entries : List (K × V)
  nodup : (entries.map Prod.fst).Nodup

namespace OrderedMap

variable {K V W : Type}

/-- A map without entries. -/
def empty : OrderedMap K V := ⟨[], List.nodup_nil⟩

/-- The keys in order. -/
def keys (m : OrderedMap K V) : List K := m.entries.map Prod.fst

/-- The values in order. -/
def values (m : OrderedMap K V) : List V := m.entries.map Prod.snd

/-- The number of entries. -/
def size (m : OrderedMap K V) : ℕ := m.entries.length

/-- The map with another value for each key. -/
def map (f : V → W) (m : OrderedMap K V) : OrderedMap K W where
  entries := m.entries.map fun e => (e.1, f e.2)
  nodup := by
    rw [List.map_map]
    exact m.nodup

/-- The entries in the order of their keys. -/
def sort (le : K → K → Bool) (m : OrderedMap K V) : OrderedMap K V where
  entries := m.entries.mergeSort fun a b => le a.1 b.1
  nodup := ((List.mergeSort_perm _ _).map Prod.fst).nodup_iff.mpr m.nodup

variable [DecidableEq K]

/-- The value of a key. -/
def get? (m : OrderedMap K V) (k : K) : Option V := m.entries.lookup k

/-- The key has a value. -/
def has (m : OrderedMap K V) (k : K) : Bool := (m.get? k).isSome

theorem lookup_eq_some_iff {es : List (K × V)} (h : (es.map Prod.fst).Nodup) {k : K} {v : V} :
    es.lookup k = some v ↔ (k, v) ∈ es := by
  induction es with
  | nil => simp
  | cons e es ih =>
    obtain ⟨i, w⟩ := e
    obtain ⟨hi, hes⟩ := List.nodup_cons.mp h
    rw [List.lookup_cons, List.mem_cons, Prod.mk.injEq]
    by_cases hk : k = i
    · subst hk
      have hout : (k, v) ∉ es := fun hmem => hi (List.mem_map.mpr ⟨(k, v), hmem, rfl⟩)
      simp [hout, eq_comm]
    · have hbeq : (k == i) = false := by simpa using hk
      simp [hbeq, hk, ih hes]

theorem lookup_eq_none {es : List (K × V)} {k : K} (h : k ∉ es.map Prod.fst) : es.lookup k = none :=
  List.lookup_eq_none_iff.mpr fun _ he => bne_iff_ne.mpr fun hk => h (hk ▸ List.mem_map_of_mem he)

theorem get?_eq_some_iff {m : OrderedMap K V} {k : K} {v : V} : m.get? k = some v ↔ (k, v) ∈ m.entries :=
  lookup_eq_some_iff m.nodup

theorem has_iff {m : OrderedMap K V} {k : K} : m.has k = true ↔ ∃ v, m.get? k = some v :=
  Option.isSome_iff_exists

theorem has_iff_mem {m : OrderedMap K V} {k : K} : m.has k = true ↔ k ∈ m.keys := by
  rw [has_iff, keys, List.mem_map]
  constructor
  · rintro ⟨v, hv⟩
    exact ⟨(k, v), get?_eq_some_iff.mp hv, rfl⟩
  · rintro ⟨⟨_, v⟩, he, rfl⟩
    exact ⟨v, get?_eq_some_iff.mpr he⟩

theorem mem_values {m : OrderedMap K V} {v : V} : v ∈ m.values ↔ ∃ k, m.get? k = some v := by
  rw [values, List.mem_map]
  constructor
  · rintro ⟨⟨k, _⟩, he, rfl⟩
    exact ⟨k, get?_eq_some_iff.mpr he⟩
  · rintro ⟨k, hk⟩
    exact ⟨(k, v), get?_eq_some_iff.mp hk, rfl⟩

/-- The entries decide what the map answers, in any order. -/
theorem lookup_perm {es es' : List (K × V)} (h : es.Perm es') (hnodup : (es.map Prod.fst).Nodup) (k : K) :
    es'.lookup k = es.lookup k := by
  ext v
  rw [lookup_eq_some_iff hnodup, lookup_eq_some_iff ((h.map Prod.fst).nodup_iff.mp hnodup), h.mem_iff]

@[simp] theorem get?_empty (k : K) : (empty : OrderedMap K V).get? k = none := rfl

@[simp] theorem get?_map (f : V → W) (m : OrderedMap K V) (k : K) : (m.map f).get? k = (m.get? k).map f := by
  ext w
  rw [get?_eq_some_iff, Option.map_eq_some_iff]
  constructor
  · intro hw
    obtain ⟨⟨i, v⟩, he, heq⟩ := List.mem_map.mp hw
    obtain ⟨rfl, rfl⟩ := Prod.mk.inj heq
    exact ⟨v, get?_eq_some_iff.mpr he, rfl⟩
  · rintro ⟨v, hv, rfl⟩
    exact List.mem_map.mpr ⟨(k, v), get?_eq_some_iff.mp hv, rfl⟩

theorem get?_sort (le : K → K → Bool) (m : OrderedMap K V) (k : K) : (m.sort le).get? k = m.get? k :=
  lookup_perm (List.mergeSort_perm _ _).symm m.nodup k

/-! ### Setting and deleting -/

/-- The key gets the value: in its place, or after all others. -/
def set (k : K) (v : V) (m : OrderedMap K V) : OrderedMap K V where
  entries := if k ∈ m.keys then m.entries.map fun e => if e.1 = k then (k, v) else e else m.entries ++ [(k, v)]
  nodup := by
    split
    · have hkeys : (m.entries.map fun e => if e.1 = k then (k, v) else e).map Prod.fst = m.entries.map Prod.fst := by
        rw [List.map_map]
        refine List.map_congr_left fun e _ => ?_
        by_cases he : e.1 = k
        · simp [he]
        · simp [he]
      rw [hkeys]
      exact m.nodup
    next hk =>
      rw [List.map_append, List.map_singleton]
      exact m.nodup.append (List.nodup_singleton k) (List.disjoint_singleton.mpr hk)

/-- The map without the key. -/
def delete (k : K) (m : OrderedMap K V) : OrderedMap K V where
  entries := m.entries.filter fun e => e.1 ≠ k
  nodup := m.nodup.sublist (List.filter_sublist.map Prod.fst)

theorem mem_set {m : OrderedMap K V} {k : K} {v : V} {e : K × V} :
    e ∈ (m.set k v).entries ↔ e = (k, v) ∨ e ∈ m.entries ∧ e.1 ≠ k := by
  unfold set
  split
  next hk =>
    rw [List.mem_map]
    constructor
    · rintro ⟨d, hd, rfl⟩
      by_cases hdk : d.1 = k
      · exact .inl (if_pos hdk)
      · rw [if_neg hdk]
        exact .inr ⟨hd, hdk⟩
    · rintro (rfl | ⟨he, hne⟩)
      · obtain ⟨d, hd, hdk⟩ := List.mem_map.mp hk
        exact ⟨d, hd, if_pos hdk⟩
      · exact ⟨e, he, if_neg hne⟩
  next hk =>
    rw [List.mem_append, List.mem_singleton, or_comm]
    refine or_congr_right (and_iff_left_of_imp fun he hek => hk ?_).symm
    exact hek ▸ List.mem_map_of_mem he

theorem entries_set_of_notMem {m : OrderedMap K V} {k : K} (h : k ∉ m.keys) (v : V) :
    (m.set k v).entries = m.entries ++ [(k, v)] := if_neg h

/-- Different new keys are all set behind the others. -/
theorem entries_foldl {X : Type} (key : X → K) (value : X → V) {xs : List X} (hnodup : (xs.map key).Nodup)
    {m : OrderedMap K V} (hnew : ∀ x ∈ xs, key x ∉ m.keys) :
    (xs.foldl (fun m x => m.set (key x) (value x)) m).entries = m.entries ++ xs.map fun x => (key x, value x) := by
  induction xs generalizing m with
  | nil => simp
  | cons x xs ih =>
    obtain ⟨hx, hxs⟩ := List.nodup_cons.mp hnodup
    have hset := entries_set_of_notMem (hnew x (List.mem_cons_self ..)) (value x)
    rw [List.foldl_cons, ih hxs, hset, List.map_cons, List.append_assoc]
    · rfl
    · intro y hy hmem
      rw [keys, hset, List.map_append, List.mem_append] at hmem
      rcases hmem with hmem | hmem
      · exact hnew y (List.mem_cons_of_mem _ hy) hmem
      · exact hx (List.mem_map.mpr ⟨y, hy, List.mem_singleton.mp hmem⟩)

/-- The map answers what was set, and the rest as before. -/
theorem get?_set (m : OrderedMap K V) (k i : K) (v : V) : (m.set k v).get? i = if i = k then some v else m.get? i := by
  ext w
  rw [get?_eq_some_iff, mem_set, Prod.mk.injEq]
  by_cases hi : i = k
  · simp [hi, eq_comm]
  · simp [hi, get?_eq_some_iff]

/-- Setting a key changes nothing exactly where it has the value. -/
theorem set_eq_self_iff {m : OrderedMap K V} {k : K} {v : V} : m.set k v = m ↔ m.get? k = some v := by
  constructor
  · intro h
    rw [← h, get?_set, if_pos rfl]
  · intro h
    have hmem := get?_eq_some_iff.mp h
    have hset : (m.set k v).entries = m.entries := by
      refine (if_pos (List.mem_map_of_mem hmem)).trans ((List.map_congr_left fun e he => ?_).trans (List.map_id _))
      split
      next hk =>
        have he' : m.get? k = some e.2 := get?_eq_some_iff.mpr (hk ▸ he)
        obtain rfl := Option.some.inj (h.symm.trans he')
        exact Prod.ext hk.symm rfl
      · rfl
    cases m
    exact (mk.injEq ..).mpr hset

/-- The map answers nothing for what was deleted, and the rest as before. -/
theorem get?_delete (m : OrderedMap K V) (k i : K) : (m.delete k).get? i = if i = k then none else m.get? i := by
  ext w
  rw [get?_eq_some_iff, delete, List.mem_filter]
  by_cases hi : i = k
  · simp [hi]
  · simp [hi, get?_eq_some_iff]

theorem has_set {m : OrderedMap K V} {k i : K} {v : V} : (m.set k v).has i = true ↔ i = k ∨ m.has i = true := by
  rw [has, has, get?_set]
  by_cases hi : i = k
  · simp [hi]
  · simp [hi]

theorem has_delete {m : OrderedMap K V} {k i : K} : (m.delete k).has i = true ↔ i ≠ k ∧ m.has i = true := by
  rw [has, has, get?_delete]
  by_cases hi : i = k
  · simp [hi]
  · simp [hi]

/-- What a loop over entries with different keys leaves, where each step sets at most the key of its entry. -/
theorem get?_foldl {I U : Type} [DecidableEq I] {key : I → K} (hkey : Function.Injective key) (value : I → U → Option V)
    {f : OrderedMap K V → I × U → OrderedMap K V}
    (hf : ∀ m e k, (f m e).get? k = if k = key e.1 then (value e.1 e.2).or (m.get? k) else m.get? k)
    {es : List (I × U)} (hnodup : (es.map Prod.fst).Nodup) (m : OrderedMap K V) (i : I) :
    (es.foldl f m).get? (key i) = ((es.lookup i).bind (value i)).or (m.get? (key i)) := by
  induction es generalizing m with
  | nil => rfl
  | cons e es ih =>
    obtain ⟨j, u⟩ := e
    obtain ⟨hj, hes⟩ := List.nodup_cons.mp hnodup
    rw [List.foldl_cons, ih hes, hf, List.lookup_cons]
    by_cases hi : i = j
    · subst hi
      simp [lookup_eq_none hj]
    · have hbeq : (i == j) = false := by simpa using hi
      simp [hbeq, hkey.ne hi]

end OrderedMap
end Universa.Lib
