import Mathlib.Data.Int.Order.Basic
import Mathlib.Data.List.Basic
import Mathlib.Order.Bounds.Basic
import Mathlib.Algebra.Order.Group.Int
import Mathlib.Tactic.Linarith

/-! Texts with one kind of brackets. The depth of a text is how many brackets it leaves open; a text is balanced
    when it closes them all and none too early. A place is at the top where the text before it has depth zero.
    -/

namespace Universa.Lib

/-- An opening and a closing bracket. -/
structure Brackets (α : Type) where
  opening : α
  closing : α
  differ : opening ≠ closing

namespace Brackets

variable {α : Type} [DecidableEq α] (b : Brackets α)

/-- What a symbol adds to the depth. -/
def turn (x : α) : ℤ := if x = b.opening then 1 else if x = b.closing then -1 else 0

/-- The opening brackets of a text less its closing ones. -/
def depth (w : List α) : ℤ := (w.map b.turn).sum

/-- No beginning of the text closes more than it opens. -/
def Nonneg (w : List α) : Prop := ∀ u v, w = u ++ v → 0 ≤ b.depth u

/-- Every bracket has its partner. -/
def Balanced (w : List α) : Prop := b.depth w = 0 ∧ b.Nonneg w

/-- The symbol is not at the top anywhere. -/
def TopFree (x : α) (w : List α) : Prop := ∀ u v, w = u ++ x :: v → b.depth u ≠ 0

/-- The first symbol is no bracket whose partner is the last one. -/
def Bare (w : List α) : Prop :=
  w.head? ≠ some b.opening ∨ ∃ u v, w = u ++ v ∧ u ≠ [] ∧ v ≠ [] ∧ b.depth u = 0

/-- The text in `n` pairs of brackets. -/
def enclose (n : ℕ) (w : List α) : List α := List.replicate n b.opening ++ (w ++ List.replicate n b.closing)

variable {b} {u v w : List α} {x : α}

/-! ### Depth -/

@[simp] theorem turn_opening : b.turn b.opening = 1 := if_pos rfl

@[simp] theorem turn_closing : b.turn b.closing = -1 := by
  rw [turn, if_neg b.differ.symm, if_pos rfl]

theorem turn_neutral (ho : x ≠ b.opening) (hc : x ≠ b.closing) : b.turn x = 0 := by
  rw [turn, if_neg ho, if_neg hc]

theorem turn_ge (x : α) : -1 ≤ b.turn x := by
  unfold turn
  split_ifs <;> decide

theorem turn_le (x : α) : b.turn x ≤ 1 := by
  unfold turn
  split_ifs <;> decide

@[simp] theorem depth_nil : b.depth [] = 0 := rfl

@[simp] theorem depth_cons : b.depth (x :: w) = b.turn x + b.depth w := by
  simp [depth]

@[simp] theorem depth_append : b.depth (u ++ v) = b.depth u + b.depth v := by
  simp [depth]

@[simp] theorem depth_openings (n : ℕ) : b.depth (List.replicate n b.opening) = n := by
  simp [depth]

@[simp] theorem depth_closings (n : ℕ) : b.depth (List.replicate n b.closing) = -n := by
  simp [depth]

theorem depth_neutral (h : ∀ x ∈ w, x ≠ b.opening ∧ x ≠ b.closing) : b.depth w = 0 := by
  induction w with
  | nil => rfl
  | cons x w ih =>
    obtain ⟨ho, hc⟩ := h x (List.mem_cons_self ..)
    rw [depth_cons, turn_neutral ho hc, ih fun y hy => h y (List.mem_cons_of_mem _ hy), add_zero]

/-- A text that leaves brackets open or closes some has at least as many symbols. -/
theorem depth_le_length (w : List α) : -(w.length : ℤ) ≤ b.depth w ∧ b.depth w ≤ w.length := by
  induction w with
  | nil => exact ⟨le_refl _, le_refl _⟩
  | cons x w ih =>
    have hge := turn_ge (b := b) x
    have hle := turn_le (b := b) x
    rw [depth_cons, List.length_cons]
    push_cast
    omega

/-- A level that is never zero stays above zero. -/
theorem depth_pos {n : ℤ} (hn : 0 < n) (h : ∀ p q, u = p ++ q → n + b.depth p ≠ 0) : 0 < n + b.depth u := by
  induction u generalizing n with
  | nil => simpa using hn
  | cons x u ih =>
    have hne := h [x] u rfl
    have hge := turn_ge (b := b) x
    rw [depth_cons, depth_nil] at hne
    rw [depth_cons, ← add_assoc]
    refine ih (by omega) fun p q hpq => ?_
    have := h (x :: p) q (by rw [hpq, List.cons_append])
    rwa [depth_cons, ← add_assoc] at this

/-! ### Balanced texts -/

theorem balanced_nil : b.Balanced [] := by
  refine ⟨rfl, fun u v huv => ?_⟩
  obtain ⟨rfl, -⟩ := List.append_eq_nil_iff.mp huv.symm
  exact le_refl _

theorem balanced_neutral (h : ∀ x ∈ w, x ≠ b.opening ∧ x ≠ b.closing) : b.Balanced w := by
  refine ⟨depth_neutral h, ?_⟩
  rintro u v rfl
  rw [depth_neutral fun x hx => h x (List.mem_append_left _ hx)]

theorem Balanced.append (hu : b.Balanced u) (hv : b.Balanced v) : b.Balanced (u ++ v) := by
  refine ⟨by rw [depth_append, hu.1, hv.1, add_zero], ?_⟩
  intro s t hst
  rcases List.append_eq_append_iff.mp hst with ⟨m, hs, hv'⟩ | ⟨m, hu', -⟩
  · rw [hs, depth_append, hu.1, zero_add]
    exact hv.2 m t hv'
  · exact hu.2 s m hu'

theorem Balanced.cons_neutral (hx : x ≠ b.opening ∧ x ≠ b.closing) (hw : b.Balanced w) : b.Balanced (x :: w) :=
  (balanced_neutral fun _ hy => List.mem_singleton.mp hy ▸ hx : b.Balanced [x]).append hw

theorem Balanced.enclosed (hw : b.Balanced w) : b.Balanced (b.opening :: (w ++ [b.closing])) := by
  refine ⟨by simp [hw.1], ?_⟩
  rintro (- | ⟨_, u⟩) v huv
  · exact le_refl _
  · rw [List.cons_append, List.cons.injEq] at huv
    obtain ⟨rfl, huv⟩ := huv
    rw [depth_cons, turn_opening]
    rcases List.append_eq_append_iff.mp huv with ⟨m, rfl, hm⟩ | ⟨m, hu', -⟩
    · have hlen : m.length ≤ 1 := by
        have := congrArg List.length hm
        simp only [List.length_cons, List.length_nil, List.length_append] at this
        omega
      have hdeep := (depth_le_length (b := b) m).1
      rw [depth_append, hw.1]
      omega
    · have := hw.2 u m hu'
      omega

omit [DecidableEq α] in
theorem enclose_succ (n : ℕ) (w : List α) :
    b.enclose (n + 1) w = b.opening :: (b.enclose n w ++ [b.closing]) := by
  rw [enclose, enclose, List.replicate_succ, List.replicate_succ', List.cons_append, List.append_assoc,
    List.append_assoc]

theorem Balanced.enclose (hw : b.Balanced w) : ∀ n, b.Balanced (b.enclose n w)
  | 0 => by simpa [Brackets.enclose] using hw
  | n + 1 => by
    rw [enclose_succ]
    exact (Balanced.enclose hw n).enclosed

/-! ### The top of a text -/

theorem topFree_of_notMem (h : x ∉ w) : b.TopFree x w := by
  rintro u v rfl
  exact absurd (by simp) h

theorem TopFree.append (hu : b.Balanced u) (hfu : b.TopFree x u) (hfv : b.TopFree x v) : b.TopFree x (u ++ v) := by
  intro s t hst
  rcases List.append_eq_append_iff.mp hst with ⟨m, rfl, hv⟩ | ⟨m, hu', hm⟩
  · rw [depth_append, hu.1, zero_add]
    exact hfv m t hv
  · cases m with
    | nil =>
      rw [List.nil_append] at hm
      rw [List.append_nil] at hu'
      rw [← hu', hu.1]
      exact absurd rfl (hfv [] t hm.symm)
    | cons y m =>
      rw [List.cons_append, List.cons.injEq] at hm
      obtain ⟨rfl, -⟩ := hm
      exact hfu s m hu'

/-- Inside brackets nothing is at the top. -/
theorem TopFree.enclosed (hx : x ≠ b.opening) (hw : b.Balanced w) :
    b.TopFree x (b.opening :: (w ++ [b.closing])) := by
  rintro (- | ⟨y, u⟩) v huv
  · rw [List.nil_append, List.cons.injEq] at huv
    exact absurd huv.1.symm hx
  · rw [List.cons_append, List.cons.injEq] at huv
    obtain ⟨rfl, huv⟩ := huv
    rw [depth_cons, turn_opening]
    rcases List.append_eq_append_iff.mp huv with ⟨m, rfl, hm⟩ | ⟨m, hu', -⟩
    · cases m with
      | nil =>
        rw [List.append_nil, hw.1]
        decide
      | cons y m =>
        rw [List.cons_append, List.cons.injEq] at hm
        cases (List.append_eq_nil_iff.mp hm.2.symm).2
    · have := hw.2 u m hu'
      omega

/-! ### Bare texts -/

theorem Bare.append (hu : b.Balanced u) (hne : u ≠ []) (hv : v ≠ []) : b.Bare (u ++ v) :=
  .inr ⟨u, v, rfl, hne, hv, hu.1⟩

/-! ### The pairs around a text -/

/-- A text whose first bracket has the last symbol for its partner is a balanced one in brackets. -/
theorem Balanced.exists_enclosed (hw : b.Balanced w) (hbare : ¬ b.Bare w) :
    ∃ u, w = b.opening :: (u ++ [b.closing]) ∧ b.Balanced u := by
  obtain ⟨hhead, htop⟩ := not_or.mp hbare
  obtain ⟨t, rfl⟩ := List.head?_eq_some_iff.mp (not_not.mp hhead)
  have hdepth : 1 + b.depth t = 0 := by simpa using hw.1
  have hinside : ∀ p q, t = p ++ q → q ≠ [] → 0 < 1 + b.depth p := by
    intro p q hpq hq
    have hne : b.depth (b.opening :: p) ≠ 0 := fun h =>
      htop ⟨b.opening :: p, q, by rw [hpq, List.cons_append], List.cons_ne_nil _ _, hq, h⟩
    have hnonneg := hw.2 (b.opening :: p) q (by rw [hpq, List.cons_append])
    rw [depth_cons, turn_opening] at hne hnonneg
    omega
  rcases t.eq_nil_or_concat' with rfl | ⟨u, x, rfl⟩
  · simp at hdepth
  · have hu := hinside u [x] rfl (List.cons_ne_nil _ _)
    rw [depth_append, depth_cons, depth_nil] at hdepth
    have hx : x = b.closing := by
      by_contra hne
      have : 0 ≤ b.turn x := by
        unfold turn
        rw [if_neg hne]
        split_ifs <;> decide
      omega
    subst hx
    rw [turn_closing] at hdepth
    refine ⟨u, rfl, by omega, fun p q hpq => ?_⟩
    have := hinside p (q ++ [b.closing]) (by rw [hpq, List.append_assoc]) (by simp)
    omega

/-- Every balanced text is a bare one in pairs of brackets. -/
theorem Balanced.exists_enclose (hw : b.Balanced w) : ∃ k u, w = b.enclose k u ∧ b.Balanced u ∧ b.Bare u := by
  induction hn : w.length using Nat.strongRecOn generalizing w with
  | ind n ih =>
    by_cases hbare : b.Bare w
    · exact ⟨0, w, by simp [Brackets.enclose], hw, hbare⟩
    · obtain ⟨v, rfl, hv⟩ := hw.exists_enclosed hbare
      obtain ⟨k, u, rfl, hu, hbareu⟩ := ih v.length (by simp at hn; omega) hv rfl
      exact ⟨k + 1, u, (enclose_succ k u).symm, hu, hbareu⟩

/-- Brackets around a balanced text are the partners of each other. -/
theorem Balanced.not_bare (hw : b.Balanced w) : ¬ b.Bare (b.opening :: (w ++ [b.closing])) := by
  rintro (hhead | ⟨_ | ⟨x, p⟩, q, hpq, hne, hq, hzero⟩)
  · exact hhead rfl
  · exact hne rfl
  · rw [List.cons_append, List.cons.injEq] at hpq
    obtain ⟨rfl, hpq⟩ := hpq
    rw [depth_cons, turn_opening] at hzero
    rcases List.append_eq_append_iff.mp hpq with ⟨m, rfl, hm⟩ | ⟨m, rfl, -⟩
    · have hmq : (m ++ q).length = 1 := by rw [← hm, List.length_singleton]
      have hlen := List.length_pos_iff.mpr hq
      rw [List.length_append] at hmq
      obtain rfl := List.length_eq_zero_iff.mp (by omega : m.length = 0)
      rw [List.append_nil, hw.1] at hzero
      exact absurd hzero (by decide)
    · have := hw.2 p m rfl
      omega

omit [DecidableEq α] in
theorem enclose_add (m n : ℕ) (w : List α) : b.enclose (m + n) w = b.enclose m (b.enclose n w) := by
  induction m with
  | zero => simp [enclose]
  | succ m ih => rw [Nat.succ_add, enclose_succ, ih, enclose_succ]

omit [DecidableEq α] in
theorem enclose_injective (n : ℕ) : Function.Injective (b.enclose n) := fun _ _ h =>
  List.append_cancel_right (List.append_cancel_left h)

/-- The pairs around a bare text are the most that can be taken off. -/
theorem isGreatest_enclose (hu : b.Balanced u) (hbare : b.Bare u) (k : ℕ) :
    IsGreatest {j | ∃ w, b.enclose k u = b.enclose j w ∧ b.Balanced w} k := by
  refine ⟨⟨u, rfl, hu⟩, ?_⟩
  rintro j ⟨w, hjw, hw⟩
  by_contra hlt
  obtain ⟨i, rfl⟩ := Nat.exists_eq_add_of_lt (Nat.lt_of_not_le hlt)
  rw [add_assoc, enclose_add, enclose_succ] at hjw
  rw [enclose_injective k hjw] at hbare
  exact (hw.enclose i).not_bare hbare

end Brackets
end Universa.Lib
