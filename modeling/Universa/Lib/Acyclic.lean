import Mathlib.Logic.Relation
import Mathlib.Order.WellFounded
import Mathlib.Data.Set.Finite.Basic

/-! Relations without cycles over finitely many elements: such a relation is well founded, so a
    nonempty part of it has an element that refers to nothing in the part. -/

namespace Universa.Lib
open Relation

variable {α : Type} {r : α → α → Prop} {l : List α}

/-- No element reaches itself. -/
def Acyclic (r : α → α → Prop) : Prop := ∀ a, ¬ TransGen r a a

theorem TransGen_of_subtype {p : α → Prop} {x y : {a // p a}}
    (h : TransGen (fun a b : {a // p a} => r a b) x y) : TransGen r x y := by
  induction h with
  | single h => exact .single h
  | tail _ h ih => exact ih.tail h

/-- A relation on the elements of a list without cycles ends below every element. -/
theorem wellFounded_of_acyclic (l : List α) (hl : ∀ a b, r a b → a ∈ l ∧ b ∈ l) (h : Acyclic r) :
    WellFounded fun b a => r a b := by
  have hsub : WellFounded fun b a : {a // a ∈ l} => r a b := by
    have : Std.Irrefl (TransGen fun b a : {a // a ∈ l} => r a b) :=
      ⟨fun a hcyc => h a (TransGen_of_subtype (transGen_swap.mp hcyc))⟩
    have : Finite {a // a ∈ l} := l.finite_toSet.to_subtype
    have htrans : WellFounded (TransGen fun b a : {a // a ∈ l} => r a b) :=
      Finite.wellFounded_of_trans_of_irrefl _
    have hsub : Subrelation (fun b a : {a // a ∈ l} => r a b)
        (TransGen fun b a : {a // a ∈ l} => r a b) := fun hab => .single hab
    exact hsub.wf htrans
  have hacc : ∀ x : {a // a ∈ l}, Acc (fun b a => r a b) x.1 := by
    intro x
    induction x using hsub.induction with
    | h x ih => exact ⟨_, fun b hb => ih ⟨b, (hl _ _ hb).2⟩ hb⟩
  refine ⟨fun a => ⟨_, fun b hb => ?_⟩⟩
  exact hacc ⟨b, (hl a b hb).2⟩

/-- In a nonempty list some element has no successor in the list. -/
theorem exists_last (hwf : WellFounded fun b a => r a b) (hne : l ≠ []) :
    ∃ a ∈ l, ∀ b ∈ l, ¬ r a b := by
  obtain ⟨a, ha⟩ := List.exists_mem_of_ne_nil l hne
  obtain ⟨m, hm, hmin⟩ := hwf.has_min {x | x ∈ l} ⟨a, ha⟩
  exact ⟨m, hm, fun b hb hr => hmin b hb hr⟩

/-- A relation whose successors get smaller numbers has no cycle. -/
theorem acyclic_of_rank (rank : α → Nat) (h : ∀ a b, r a b → rank b < rank a) : Acyclic r := by
  have hlt : ∀ a b, TransGen r a b → rank b < rank a := by
    intro a b hab
    induction hab with
    | single hr => exact h _ _ hr
    | tail _ hr ih => exact (h _ _ hr).trans ih
  exact fun a hcyc => lt_irrefl _ (hlt a a hcyc)

/-- Over finitely many elements, what holds of an element when it holds of its successors holds of all. -/
theorem Acyclic.induction [Finite α] (hacyclic : Acyclic r) {p : α → Prop} (h : ∀ a, (∀ b, r a b → p b) → p a)
    (a : α) : p a := by
  have hirrefl : Std.Irrefl (fun b a => TransGen r a b) := ⟨hacyclic⟩
  have htrans : IsTrans α (fun b a => TransGen r a b) := ⟨fun _ _ _ h₁ h₂ => h₂.trans h₁⟩
  have hwf : WellFounded fun b a => TransGen r a b := Finite.wellFounded_of_trans_of_irrefl _
  induction a using hwf.induction with
  | h a ih => exact h a fun b hb => ih b (.single hb)

/-- A recursion that comes to each successor, with less fuel, and that ends everywhere, follows no cycle. -/
theorem acyclic_of_fuel {β : Type} {f : Nat → α → Option β} (hzero : ∀ a, f 0 a = none)
    (hsucc : ∀ n a b, r a b → f (n + 1) a ≠ none → f n b ≠ none) (h : ∀ a, ∃ n, f n a ≠ none) : Acyclic r := by
  classical
  refine acyclic_of_rank (fun a => Nat.find (h a)) fun a b hr => ?_
  have hspec := Nat.find_spec (h a)
  cases hn : Nat.find (h a) with
  | zero =>
      rw [hn] at hspec
      exact absurd (hzero a) hspec
  | succ n =>
      rw [hn] at hspec
      exact Nat.lt_succ_of_le (Nat.find_min' (h b) (hsucc n a b hr hspec))

end Universa.Lib
