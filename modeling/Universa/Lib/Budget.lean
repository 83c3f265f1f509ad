import Mathlib.Data.Nat.Notation

/-! Work that is paid from a budget. A run of work is a list of events: a cost the budget pays, a cost that is
    charged elsewhere, or an end by something else. `spend` pays the costs one after another; a cost that goes
    over the limit is charged and ends the run. A budget that is the rest of another one, and is added back,
    is as good as the other one (`spend_nested`). -/

namespace Universa.Budget

/-- What happens while work is done. -/
inductive Event where
  | cost (n : ℕ)
  | elsewhere (n : ℕ)
  | stop
  deriving DecidableEq

/-- How a run of work ends, with what the budget paid and what was charged in all. -/
inductive End where
  | done (spent charged : ℕ)
  | exceeded (charged : ℕ)
  | stopped (charged : ℕ)
  deriving DecidableEq

/-- Go on with what a run that is done leaves. -/
def End.andThen (e : End) (f : ℕ → ℕ → End) : End :=
  match e with
  | done spent charged => f spent charged
  | exceeded charged => exceeded charged
  | stopped charged => stopped charged

/-- The run from what is already spent and charged. -/
def spend (limit : ℕ) : List Event → ℕ → ℕ → End
  | [], spent, charged => .done spent charged
  | .cost n :: es, spent, charged =>
      if limit < spent + n then .exceeded (charged + n) else spend limit es (spent + n) (charged + n)
  | .elsewhere n :: es, spent, charged => spend limit es spent (charged + n)
  | .stop :: _, _, charged => .stopped charged

/-- What the budget would pay before the work stops. -/
def paid : List Event → ℕ
  | [] => 0
  | .cost n :: es => n + paid es
  | .elsewhere _ :: es => paid es
  | .stop :: _ => 0

/-- What is charged elsewhere before the work stops. -/
def unpaid : List Event → ℕ
  | [] => 0
  | .cost _ :: es => unpaid es
  | .elsewhere n :: es => n + unpaid es
  | .stop :: _ => 0

/-- The work stops by something else. -/
def stops (es : List Event) : Bool := decide (.stop ∈ es)

variable {limit spent charged : ℕ} {es fs : List Event}

theorem spend_append : spend limit (es ++ fs) spent charged =
    (spend limit es spent charged).andThen (spend limit fs) := by
  induction es generalizing spent charged with
  | nil => rfl
  | cons e es ih =>
      cases e with
      | cost n =>
          simp only [List.cons_append, spend]
          split
          · rfl
          · exact ih
      | elsewhere n => exact ih
      | stop => rfl

/-- A run from `base + spent` is one from `spent` with a limit that is `base` lower. -/
theorem spend_shift {base : ℕ} (hbase : base ≤ limit) : spend limit es (base + spent) charged =
    (spend (limit - base) es spent charged).andThen fun spent charged => .done (base + spent) charged := by
  induction es generalizing spent charged with
  | nil => rfl
  | cons e es ih =>
      cases e with
      | cost n =>
          have hover : limit < base + spent + n ↔ limit - base < spent + n := by omega
          simp only [spend, hover]
          split
          · rfl
          · rw [Nat.add_assoc]
            exact ih
      | elsewhere n => exact ih
      | stop => rfl

/-- The rest of a budget, spent and added back, is the budget. -/
theorem spend_nested (hspent : spent ≤ limit) : spend limit es spent charged =
    (spend (limit - spent) es 0 charged).andThen fun more charged => .done (spent + more) charged := by
  show spend limit es (spent + 0) charged = _
  exact spend_shift hspent

/-- How a run ends is decided by what it pays, what it does not, and whether it stops. -/
theorem spend_spec (hspent : spent ≤ limit) :
    match spend limit es spent charged with
    | .done spent' charged' => spent + paid es ≤ limit ∧ stops es = false ∧ spent' = spent + paid es ∧
        charged' = charged + paid es + unpaid es
    | .exceeded charged' => limit < spent + paid es ∧ limit + charged < spent + charged'
    | .stopped _ => spent + paid es ≤ limit ∧ stops es = true := by
  induction es generalizing spent charged with
  | nil => simp [spend, paid, unpaid, stops, hspent]
  | cons e es ih =>
      cases e with
      | cost n =>
          by_cases hover : limit < spent + n
          · simp only [spend, if_pos hover, paid]
            omega
          · have hrest := @ih (spent + n) (charged + n) (by omega)
            simp only [spend, if_neg hover, paid, unpaid, stops, List.mem_cons] at hrest ⊢
            split at hrest <;> simp_all <;> omega
      | elsewhere n =>
          have hrest := @ih spent (charged + n) hspent
          simp only [spend, paid, unpaid, stops, List.mem_cons] at hrest ⊢
          split at hrest <;> simp_all <;> omega
      | stop => simp [spend, paid, stops, hspent]

/-- What a run spends stays within the limit. -/
theorem spend_le {spent' charged' : ℕ} (hspent : spent ≤ limit)
    (h : spend limit es spent charged = .done spent' charged') : spent' ≤ limit := by
  have hspec : _ := h ▸ spend_spec hspent
  exact hspec.2.2.1 ▸ hspec.1

end Universa.Budget
