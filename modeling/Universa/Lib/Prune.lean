import Mathlib.Data.Finset.Card
import Mathlib.Logic.Relation
import Mathlib.Order.Bounds.Basic

/-! Pruning a finite set: in each pass those leave that the set no longer keeps. When more members never
    hurt, what is left at the end is the largest subset that keeps all its members. -/

namespace Universa.Prune

variable {α : Type*} (keep : Finset α → α → Prop)

/-- More members never hurt. -/
def Monotone : Prop := ∀ ⦃S T : Finset α⦄, S ⊆ T → ∀ x, keep S x → keep T x

/-- The set keeps all its members. -/
def Stable (S : Finset α) : Prop := ∀ x ∈ S, keep S x

variable [∀ S, DecidablePred (keep S)]

/-- One pass: the members that the set keeps. -/
def pass (S : Finset α) : Finset α := S.filter (keep S)

/-- What passes lead to. -/
def Leads (S R : Finset α) : Prop := Relation.ReflTransGen (fun T T' => T' = pass keep T) S R

variable {keep} {S R T : Finset α}

theorem pass_subset : pass keep S ⊆ S := Finset.filter_subset _ _

theorem Leads.head (h : T = pass keep S) (hR : Leads keep T R) : Leads keep S R :=
  Relation.ReflTransGen.head h hR

theorem Leads.subset (h : Leads keep S R) : R ⊆ S := by
  induction h with
  | refl => exact subset_rfl
  | tail _ hstep ih =>
      rw [hstep]
      exact pass_subset.trans ih

/-- A pass leaves the stable subsets. -/
theorem Stable.subset_pass (hmono : Monotone keep) (hT : Stable keep T) (hTS : T ⊆ S) :
    T ⊆ pass keep S := by
  intro x hx
  exact Finset.mem_filter.2 ⟨hTS hx, hmono hTS x (hT x hx)⟩

/-- The passes leave the stable subsets. -/
theorem Leads.stable_subset (hmono : Monotone keep) (h : Leads keep S R) (hT : Stable keep T)
    (hTS : T ⊆ S) : T ⊆ R := by
  induction h with
  | refl => exact hTS
  | tail _ hstep ih =>
      rw [hstep]
      exact hT.subset_pass hmono ih

/-- Where the passes end at a stable set, it is the largest stable subset. -/
theorem Leads.isGreatest (hmono : Monotone keep) (h : Leads keep S R) (hR : Stable keep R) :
    IsGreatest {T | T ⊆ S ∧ Stable keep T} R :=
  ⟨⟨h.subset, hR⟩, fun _ hT => h.stable_subset hmono hT.2 hT.1⟩

end Universa.Prune
