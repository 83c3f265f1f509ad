import Mathlib.Data.List.Nodup

/-! Sets that remember the order in which their elements came. To add an element that is there changes nothing.
    -/

namespace Universa.Lib

/-- Different elements, the oldest first. -/
structure OrderedSet (α : Type) where
  elements : List α
  nodup : elements.Nodup

namespace OrderedSet

variable {α : Type}

/-- A set without elements. -/
def empty : OrderedSet α := ⟨[], List.nodup_nil⟩

instance : Membership α (OrderedSet α) := ⟨fun s a => a ∈ s.elements⟩

theorem mem_elements {s : OrderedSet α} {a : α} : a ∈ s.elements ↔ a ∈ s := Iff.rfl

@[simp] theorem notMem_empty (a : α) : a ∉ (empty : OrderedSet α) := List.not_mem_nil

variable [DecidableEq α]

instance (a : α) (s : OrderedSet α) : Decidable (a ∈ s) := inferInstanceAs (Decidable (a ∈ s.elements))

/-- The element is there, or comes after all others. -/
def add (s : OrderedSet α) (a : α) : OrderedSet α where
  elements := if a ∈ s then s.elements else s.elements ++ [a]
  nodup := by
    split
    · exact s.nodup
    next h => exact s.nodup.append (List.nodup_singleton a) (List.disjoint_singleton.mpr h)

/-- All elements of a list are added in order. -/
def addAll (s : OrderedSet α) (as : List α) : OrderedSet α := as.foldl add s

/-- The elements of a list. -/
def ofList (as : List α) : OrderedSet α := empty.addAll as

theorem mem_add {s : OrderedSet α} {a b : α} : b ∈ s.add a ↔ b ∈ s ∨ b = a := by
  rw [← mem_elements, add]
  split
  next h =>
    refine (or_iff_left_of_imp ?_).symm
    rintro rfl
    exact h
  · rw [List.mem_append, List.mem_singleton, mem_elements]

@[simp] theorem mem_addAll {s : OrderedSet α} {as : List α} {b : α} : b ∈ s.addAll as ↔ b ∈ s ∨ b ∈ as := by
  induction as generalizing s with
  | nil => simp [addAll]
  | cons a as ih =>
    have hcons : s.addAll (a :: as) = (s.add a).addAll as := rfl
    rw [hcons, ih, mem_add, List.mem_cons, or_assoc]

@[simp] theorem mem_ofList {as : List α} {b : α} : b ∈ ofList as ↔ b ∈ as :=
  mem_addAll.trans (or_iff_right (notMem_empty b))

/-- New different elements come after the others. -/
theorem elements_addAll {s : OrderedSet α} {as : List α} (hnodup : as.Nodup) (hnew : ∀ a ∈ as, a ∉ s) :
    (s.addAll as).elements = s.elements ++ as := by
  induction as generalizing s with
  | nil => simp [addAll]
  | cons a as ih =>
    obtain ⟨ha, has⟩ := List.nodup_cons.mp hnodup
    have hcons : s.addAll (a :: as) = (s.add a).addAll as := rfl
    have hadd : (s.add a).elements = s.elements ++ [a] := if_neg (hnew a List.mem_cons_self)
    rw [hcons, ih has, hadd, List.append_assoc, List.singleton_append]
    intro b hb hmem
    rcases mem_add.mp hmem with hmem | rfl
    · exact hnew b (List.mem_cons_of_mem _ hb) hmem
    · exact ha hb

/-- The elements of a list without repetitions are the list. -/
theorem elements_ofList {as : List α} (hnodup : as.Nodup) : (ofList as).elements = as :=
  elements_addAll hnodup fun a _ => notMem_empty a

end OrderedSet
end Universa.Lib
