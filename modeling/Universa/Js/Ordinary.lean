import Universa.Js.DeltaCarries
import Universa.Js.DeltaSees

/-! Ordinary data: no object has an own key in the place of a method that the comparison calls. Any two
    ordinary values have a difference, and a value has none with itself. -/

namespace Universa.Js

/-- What the comparison reads of every object: its own key of that name would hide it. -/
def comparedBy : List String := ["hasOwnProperty", "constructor"]

mutual
/-- Data whose objects are compared by the methods of their class. -/
def Ordinary : Value → Prop
  | .num n => n ≠ .nan
  | .arr xs => OrdinaryItems xs
  | .obj es => (∀ k ∈ comparedBy, k ∉ keys es) ∧ OrdinaryEntries es
  | _ => True

def OrdinaryItems : List Value → Prop
  | [] => True
  | x :: xs => Ordinary x ∧ OrdinaryItems xs

def OrdinaryEntries : List (String × Value) → Prop
  | [] => True
  | (_, v) :: es => Ordinary v ∧ OrdinaryEntries es
end

theorem ordinaryItems_map {α : Type} {f : α → Value} (h : ∀ a, Ordinary (f a)) (as : List α) :
    OrdinaryItems (as.map f) := by
  induction as with
  | nil => trivial
  | cons a as ih => exact ⟨h a, ih⟩

theorem distinctItems_map {α : Type} {f : α → Value} (h : ∀ a, Distinct (f a)) (as : List α) :
    DistinctItems (as.map f) := by
  induction as with
  | nil => trivial
  | cons a as ih => exact ⟨h a, ih⟩

theorem OrdinaryEntries.lookup {k : String} {v : Value} : ∀ {es : List (String × Value)},
    OrdinaryEntries es → es.lookup k = some v → Ordinary v
  | [], _, h => by cases h
  | (k', v') :: es, ho, h => by
      rw [List.lookup_cons] at h
      split at h
      · cases h
        exact ho.1
      · exact ho.2.lookup h

/-! ### Two ordinary values -/

theorem constructorName_ordinary {es : List (String × Value)} (h : Ordinary (.obj es)) :
    constructorName (.obj es) = some (some (.str "Object")) := by
  rw [constructorName, not_mem_keys (h.1 "constructor" (by decide))]

/-- Two leaves are of one class only when they are of one kind. -/
theorem leafComparable_ordinary {x y : Value} (hx : Ordinary x) (hy : Ordinary y)
    (hleaf : ∀ es fs, x = .obj es → y ≠ .obj fs) : LeafComparable x y := by
  intro ox oy
  have hasConstructor : ∀ {v : Value}, Ordinary v → HasConstructor v := by
    intro v hv
    cases v with
    | obj es => exact constructorName_some.mp ⟨_, constructorName_ordinary hv⟩
    | _ => trivial
  refine ⟨hasConstructor hx, hasConstructor hy, fun hsame => ?_⟩
  cases x with
  | obj es =>
      rw [sameConstructor, constructorName_ordinary hx] at hsame
      cases y with
      | obj fs => exact absurd rfl (hleaf es fs rfl)
      | _ => simp [constructorName, strictEq] at hsame
  | date a =>
      cases y with
      | obj fs =>
          rw [sameConstructor, constructorName_ordinary hy] at hsame
          simp [constructorName, strictEq] at hsame
      | _ => trivial
  | _ => trivial

mutual
theorem comparable_ordinary : ∀ {x y : Value}, Ordinary x → Ordinary y → Comparable x y
  | .arr xs, .arr ys, hx, hy => comparableItems_ordinary hx hy
  | .obj es, .obj fs, hx, hy => ⟨comparableEntries_ordinary hx.2 hy,
      fun _ _ _ => hx.1 "hasOwnProperty" (by decide)⟩
  | .null, y, _, _ => by cases y <;> exact trivial
  | .bool _, y, hx, hy | .num _, y, hx, hy | .str _, y, hx, hy | .date _, y, hx, hy
  | .bytes _, y, hx, hy => by
      cases y with
      | null => exact trivial
      | _ => exact leafComparable_ordinary hx hy (by simp)
  | .arr xs, .null, _, _ | .obj es, .null, _, _ => trivial
  | .arr xs, .bool _, hx, hy | .arr xs, .num _, hx, hy | .arr xs, .str _, hx, hy
  | .arr xs, .date _, hx, hy | .arr xs, .bytes _, hx, hy | .arr xs, .obj _, hx, hy
  | .obj es, .bool _, hx, hy | .obj es, .num _, hx, hy | .obj es, .str _, hx, hy
  | .obj es, .date _, hx, hy | .obj es, .bytes _, hx, hy
  | .obj es, .arr _, hx, hy => leafComparable_ordinary hx hy (by simp)
termination_by structural x => x

theorem comparableItems_ordinary : ∀ {xs ys : List Value}, OrdinaryItems xs → OrdinaryItems ys →
    ComparableItems xs ys
  | [], _, _, _ => trivial
  | _ :: _, [], _, _ => trivial
  | _ :: _, _ :: _, hx, hy => ⟨comparable_ordinary hx.1 hy.1, comparableItems_ordinary hx.2 hy.2⟩
termination_by structural xs => xs

theorem comparableEntries_ordinary : ∀ {es fs : List (String × Value)}, OrdinaryEntries es →
    Ordinary (.obj fs) → ComparableEntries es fs
  | [], _, _, _ => trivial
  | (_, _) :: _, _, hx, hy => ⟨fun _ => ⟨hy.1 "hasOwnProperty" (by decide),
      fun _ hw => comparable_ordinary hx.1 (hy.2.lookup hw)⟩, comparableEntries_ordinary hx.2 hy⟩
termination_by structural es => es
end

/-- Ordinary values have a difference or none: the comparison does not throw. -/
theorem between_ordinary {x y : Value} (hx : Ordinary x) (hy : Ordinary y) : ∃ r, between x y = some r :=
  (between_answers x y).mpr (comparable_ordinary hx hy)

/-! ### A value and itself -/

mutual
theorem same_self : ∀ {x : Value}, Distinct x → Ordinary x → Same x x
  | .null, _, _ | .bool _, _, _ | .str _, _, _ | .date _, _, _ | .bytes _, _, _ => by simp [Same]
  | .num n, _, h => by
      cases n with
      | nan => exact absurd rfl h
      | _ => simp [Same, Number.eq]
  | .arr _, hd, h => sameItems_self hd h
  | .obj _, hd, h => ⟨sameEntries_self hd.2 h.2 fun _ _ hmem => lookup_of_mem hd.1 hmem, fun _ hk => hk⟩

theorem sameItems_self : ∀ {xs : List Value}, DistinctItems xs → OrdinaryItems xs → SameItems xs xs
  | [], _, _ => trivial
  | _ :: _, hd, h => ⟨same_self hd.1 h.1, sameItems_self hd.2 h.2⟩

theorem sameEntries_self {fs : List (String × Value)} : ∀ {es : List (String × Value)}, DistinctEntries es →
    OrdinaryEntries es → (∀ k v, (k, v) ∈ es → fs.lookup k = some v) → SameEntries es fs
  | [], _, _, _ => trivial
  | (k, v) :: _, hd, h, hin => ⟨⟨v, hin k v List.mem_cons_self, same_self hd.1 h.1⟩,
      sameEntries_self hd.2 h.2 fun k' v' hmem => hin k' v' (List.mem_cons_of_mem _ hmem)⟩
end

/-- Ordinary data has no difference with itself. -/
theorem between_self {x : Value} (hd : Distinct x) (h : Ordinary x) : between x x = some none := by
  obtain ⟨r, hr⟩ := between_ordinary h h
  rw [hr, (between_visible x x r hr).mpr (same_visible (same_self hd h))]

end Universa.Js
