import Mathlib.Data.List.AList
import Mathlib.Data.List.Count
import Mathlib.Data.List.Nodup

/-! Counting votes of which some are outstanding. A vote is a pair of a voter and a value; whoever has
    voted agrees with what all the voters hold in the end. -/

namespace Universa.Tally

variable {U V K : Type*} [DecidableEq K] (key : V → K)

/-- How many of the votes have a key. -/
def count (votes : List (U × V)) (k : K) : ℕ := votes.countP fun vote => key vote.2 = k

/-- The votes are of different voters among these, each its own. -/
structure Of (voters : List U) (holds : U → Option V) (votes : List (U × V)) : Prop where
  nodup : (votes.map Prod.fst).Nodup
  subset : ∀ vote ∈ votes, vote.1 ∈ voters
  holds : ∀ vote ∈ votes, holds vote.1 = some vote.2

variable {key} {voters : List U} {holds : U → Option V} {votes : List (U × V)}

theorem count_append (votes votes' : List (U × V)) (k : K) :
    count key (votes ++ votes') k = count key votes k + count key votes' k :=
  List.countP_append

@[simp] theorem count_nil (k : K) : count key ([] : List (U × V)) k = 0 := rfl

theorem count_snoc (votes : List (U × V)) (vote : U × V) (k : K) :
    count key (votes ++ [vote]) k = count key votes k + if key vote.2 = k then 1 else 0 := by
  rw [count_append]
  simp [count, List.countP_singleton]

/-- The counts by group after one more vote, where each group is of one key. -/
theorem lookup_insert {G : Type*} [DecidableEq G] {groups : AList fun _ : G => ℕ} {keyOf : G → K}
    (hkeyOf : Function.Injective keyOf) (hgroups : ∀ g, (groups.lookup g).getD 0 = count key votes (keyOf g))
    {vote : U × V} {g₀ : G} (hvote : key vote.2 = keyOf g₀) (g : G) :
    ((groups.insert g₀ (count key votes (keyOf g₀) + 1)).lookup g).getD 0 =
      count key (votes ++ [vote]) (keyOf g) := by
  rw [count_snoc, hvote]
  by_cases hg : g₀ = g
  · rw [hg, AList.lookup_insert, Option.getD_some, if_pos rfl]
  · rw [AList.lookup_insert_ne (Ne.symm hg), if_neg (hkeyOf.ne hg), Nat.add_zero, hgroups]

/-- Of some voters, each with at most one vote, those with a vote. -/
theorem voters_sublist {f : U → Option (U × V)} (hf : ∀ u vote, f u = some vote → vote.1 = u) (us : List U) :
    ((us.filterMap f).map Prod.fst).Sublist us := by
  induction us with
  | nil => exact .slnil
  | cons u us ih =>
      rw [List.filterMap_cons]
      cases hvote : f u with
      | none => exact ih.cons u
      | some vote =>
          rw [List.map_cons, hf u vote hvote]
          exact ih.cons_cons u

/-- The first of the votes. -/
theorem Of.initial {counted : List (U × V)} (h : Of voters holds votes) (hcounted : counted <+: votes) :
    Of voters holds counted where
  nodup := (hcounted.sublist.map Prod.fst).nodup h.nodup
  subset vote hvote := h.subset vote (hcounted.subset hvote)
  holds vote hvote := h.holds vote (hcounted.subset hvote)

/-- The votes agree with whatever the voters hold in the end. -/
theorem Of.total (h : Of voters holds votes) {final : U → V}
    (hfinal : ∀ u ∈ voters, ∀ v, holds u = some v → final u = v) :
    Of voters (fun u => some (final u)) votes where
  nodup := h.nodup
  subset := h.subset
  holds vote hvote := by rw [hfinal _ (h.subset vote hvote) _ (h.holds vote hvote)]

theorem Of.subperm (h : Of voters holds votes) : (votes.map Prod.fst).Subperm voters :=
  List.subperm_of_subset h.nodup fun u hu => by
    obtain ⟨vote, hvote, rfl⟩ := List.mem_map.1 hu
    exact h.subset vote hvote

theorem Of.length_le (h : Of voters holds votes) : votes.length ≤ voters.length := by
  simpa using h.subperm.length_le

/-- The count of a key, as a count of those who have voted. -/
theorem Of.count_eq (h : Of voters holds votes) (k : K) :
    count key votes k = (votes.map Prod.fst).countP fun u => (holds u).map key = some k := by
  rw [List.countP_map, count]
  refine List.countP_congr fun vote hvote => ?_
  simp [h.holds vote hvote]

/-- Nothing is counted that the voters do not hold. -/
theorem Of.count_le (h : Of voters holds votes) (k : K) :
    count key votes k ≤ voters.countP fun u => (holds u).map key = some k := by
  rw [h.count_eq]
  exact h.subperm.countP_le _

/-- What the voters hold is counted but for the outstanding votes. -/
theorem Of.le_count_add (h : Of voters holds votes) (k : K) :
    (voters.countP fun u => (holds u).map key = some k) ≤
      count key votes k + (voters.length - votes.length) := by
  have hother := h.subperm.countP_le fun u => ¬ (holds u).map key = some k
  have hvoters := List.length_eq_countP_add_countP (fun u => (holds u).map key = some k) (l := voters)
  have hvotes := List.length_eq_countP_add_countP (fun u => (holds u).map key = some k)
    (l := votes.map Prod.fst)
  rw [← h.count_eq, List.length_map] at hvotes
  simp only [decide_eq_true_eq] at hvoters hvotes
  omega

/-- Where all who hold something have voted, all is counted. -/
theorem Of.le_count (h : Of voters holds votes) (hnodup : voters.Nodup)
    (hall : ∀ u ∈ voters, u ∉ votes.map Prod.fst → holds u = none) (k : K) :
    (voters.countP fun u => (holds u).map key = some k) ≤ count key votes k := by
  rw [h.count_eq, List.countP_eq_length_filter, List.countP_eq_length_filter]
  refine (List.subperm_of_subset (hnodup.filter _) fun u hu => ?_).length_le
  obtain ⟨hvoter, hholds⟩ := List.mem_filter.1 hu
  refine List.mem_filter.2 ⟨?_, hholds⟩
  by_contra hnot
  rw [hall u hvoter hnot] at hholds
  cases hholds

end Universa.Tally
