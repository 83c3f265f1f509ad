import Mathlib.Data.Nat.Basic

/-! Operands joined by two operators of one rank, a weak one and a strong one, as `+` and `-`. By convention a
    chain associates to the left. The other grouping splits it at the first weak operator, and where there is
    none at the first strong one. -/

namespace Universa.Lib

/-- Operands and the operators between them. -/
inductive Chain (ι : Type) where
  | one (x : ι)
  | weak (c : Chain ι) (x : ι)
  | strong (c : Chain ι) (x : ι)

namespace Chain

variable {ι κ : Type}

/-! ### Two groupings -/

section Groupings
variable (w s : ι → ι → ι)

/-- Association to the left. -/
def fold : Chain ι → ι
  | one x => x
  | weak c x => w (fold c) x
  | strong c x => s (fold c) x

/-- Operands joined by the strong operator, grouped from the right. -/
def quotient : ι → List ι → ι
  | x, [] => x
  | x, y :: ys => s x (quotient y ys)

/-- An operand and what follows it after the weak operator. -/
def before (x : ι) : Option ι → ι
  | none => x
  | some y => w x y

/-- The other grouping: `ys` follow the chain after strong operators, and `rest` after a weak one. -/
def groupedBefore : Chain ι → List ι → Option ι → ι
  | one x, ys, rest => before w (quotient s x ys) rest
  | weak c x, ys, rest => groupedBefore c [] (some (before w (quotient s x ys) rest))
  | strong c x, ys, rest => groupedBefore c (x :: ys) rest

/-- The grouping that splits at the first weak operator, or else at the first strong one. -/
def grouped (c : Chain ι) : ι := groupedBefore w s c [] none

end Groupings

/-- The operands, each replaced by its image. -/
def map (f : ι → κ) : Chain ι → Chain κ
  | one x => one (f x)
  | weak c x => weak (map f c) (f x)
  | strong c x => strong (map f c) (f x)

/-- Every operand has the property. -/
def All (P : ι → Prop) : Chain ι → Prop
  | one x => P x
  | weak c x => All P c ∧ P x
  | strong c x => All P c ∧ P x

/-- The first operand. -/
def first : Chain ι → ι
  | one x => x
  | weak c _ => first c
  | strong c _ => first c

/-- The last operand. -/
def last : Chain ι → ι
  | one x => x
  | weak _ x => x
  | strong _ x => x

/-- There is no weak operator. -/
def NoWeak : Chain ι → Prop
  | one _ => True
  | weak _ _ => False
  | strong c _ => NoWeak c

/-- The last operator is not the strong one. -/
def EndsWeak : Chain ι → Prop
  | one _ => True
  | weak _ _ => True
  | strong _ _ => False

/-- The strong operator does not follow on itself. -/
def Short : Chain ι → Prop
  | one _ => True
  | weak c _ => Short c
  | strong c _ => Short c ∧ EndsWeak c

/-- Two chains joined by the weak operator. -/
def weakly (d : Chain ι) : Chain ι → Chain ι
  | one x => weak d x
  | weak c x => weak (weakly d c) x
  | strong c x => strong (weakly d c) x

/-- Two chains joined by the strong operator. -/
def strongly (d : Chain ι) : Chain ι → Chain ι
  | one x => strong d x
  | weak c x => weak (strongly d c) x
  | strong c x => strong (strongly d c) x

/-- Every operand in front of a strong operator has the property. -/
def BeforeStrong (P : ι → Prop) : Chain ι → Prop
  | one _ => True
  | weak c _ => BeforeStrong P c
  | strong c _ => BeforeStrong P c ∧ P c.last

/-- How many operands there are. -/
def size : Chain ι → ℕ
  | one _ => 1
  | weak c _ => size c + 1
  | strong c _ => size c + 1

/-! ### Splitting a chain -/

theorem size_pos (c : Chain ι) : 0 < c.size := by
  cases c <;> exact Nat.succ_pos _

theorem size_weakly (d : Chain ι) : ∀ c, (weakly d c).size = d.size + c.size
  | one _ => rfl
  | weak c _ => congrArg (· + 1) (size_weakly d c)
  | strong c _ => congrArg (· + 1) (size_weakly d c)

theorem size_strongly (d : Chain ι) : ∀ c, (strongly d c).size = d.size + c.size
  | one _ => rfl
  | weak c _ => congrArg (· + 1) (size_strongly d c)
  | strong c _ => congrArg (· + 1) (size_strongly d c)

/-- A chain without weak operators is one operand, or splits at its first operator. -/
theorem NoWeak.split {c : Chain ι} (h : c.NoWeak) :
    (∃ x, c = one x) ∨ ∃ x e, NoWeak e ∧ c = strongly (one x) e := by
  induction c with
  | one x => exact .inl ⟨x, rfl⟩
  | weak c x ih => exact False.elim h
  | strong c x ih =>
    rcases ih h with ⟨y, rfl⟩ | ⟨y, e, he, rfl⟩
    · exact .inr ⟨y, one x, trivial, rfl⟩
    · exact .inr ⟨y, strong e x, he, rfl⟩

/-- A chain splits at its first weak operator. -/
theorem split_weak (c : Chain ι) : c.NoWeak ∨ ∃ d e, NoWeak d ∧ c = weakly d e := by
  induction c with
  | one x => exact .inl trivial
  | weak c x ih =>
    rcases ih with h | ⟨d, e, hd, rfl⟩
    · exact .inr ⟨c, one x, h, rfl⟩
    · exact .inr ⟨d, weak e x, hd, rfl⟩
  | strong c x ih =>
    rcases ih with h | ⟨d, e, hd, rfl⟩
    · exact .inl h
    · exact .inr ⟨d, strong e x, hd, rfl⟩

/-- Induction along the other grouping. -/
theorem split_induction {P : Chain ι → Prop} (hone : ∀ x, P (one x))
    (hstrong : ∀ x c, NoWeak c → P c → P (strongly (one x) c))
    (hweak : ∀ d c, NoWeak d → P d → P c → P (weakly d c)) (c : Chain ι) : P c := by
  induction hn : c.size using Nat.strongRecOn generalizing c with
  | _ n ih =>
    rcases split_weak c with h | ⟨d, e, hd, rfl⟩
    · rcases h.split with ⟨x, rfl⟩ | ⟨x, e, he, rfl⟩
      · exact hone x
      · rw [size_strongly] at hn
        exact hstrong x e he (ih e.size (by simp only [size] at hn; omega) e rfl)
    · rw [size_weakly] at hn
      have hd' := size_pos d
      have he' := size_pos e
      exact hweak d e hd (ih d.size (by omega) d rfl) (ih e.size (by omega) e rfl)

section Groupings
variable {w s : ι → ι → ι}

theorem groupedBefore_some {d : Chain ι} (h : d.NoWeak) (ys : List ι) (r : ι) :
    groupedBefore w s d ys (some r) = w (groupedBefore w s d ys none) r := by
  induction d generalizing ys with
  | one x => rfl
  | weak d x ih => exact False.elim h
  | strong d x ih => exact ih h (x :: ys)

theorem grouped_weakly {d : Chain ι} (hd : d.NoWeak) (c : Chain ι) :
    grouped w s (weakly d c) = w (grouped w s d) (grouped w s c) := by
  suffices h : ∀ ys rest, groupedBefore w s (weakly d c) ys rest =
      w (groupedBefore w s d [] none) (groupedBefore w s c ys rest) from h [] none
  induction c with
  | one x => exact fun ys rest => groupedBefore_some hd [] _
  | weak c x ih => exact fun ys rest => ih [] _
  | strong c x ih => exact fun ys rest => ih (x :: ys) rest

theorem grouped_strongly (x : ι) {c : Chain ι} (hc : c.NoWeak) :
    grouped w s (strongly (one x) c) = s x (grouped w s c) := by
  suffices h : ∀ ys, groupedBefore w s (strongly (one x) c) ys none = s x (groupedBefore w s c ys none) from h []
  induction c with
  | one y => exact fun ys => rfl
  | weak c y ih => exact False.elim hc
  | strong c y ih => exact fun ys => ih hc (y :: ys)

/-! ### Association -/

theorem fold_weakly (hww : ∀ x y z, w (w x y) z = w x (w y z)) (hws : ∀ x y z, s (w x y) z = w x (s y z))
    (d c : Chain ι) : fold w s (weakly d c) = w (fold w s d) (fold w s c) := by
  induction c with
  | one x => rfl
  | weak c x ih => rw [weakly, fold, ih, hww, fold]
  | strong c x ih => rw [weakly, fold, ih, hws, fold]

theorem fold_strongly (hsw : ∀ x y z, w (s x y) z = s x (w y z)) (hss : ∀ x y z, s (s x y) z = s x (s y z))
    (d c : Chain ι) : fold w s (strongly d c) = s (fold w s d) (fold w s c) := by
  induction c with
  | one x => rfl
  | weak c x ih => rw [strongly, fold, ih, hsw, fold]
  | strong c x ih => rw [strongly, fold, ih, hss, fold]

/-- Where the strong operator does not follow on itself, the two groupings agree. -/
theorem grouped_eq_fold (hww : ∀ x y z, w (w x y) z = w x (w y z)) (hws : ∀ x y z, s (w x y) z = w x (s y z))
    {c : Chain ι} (hc : c.Short) : grouped w s c = fold w s c := by
  have hbefore : ∀ x y rest, w x (before w y rest) = before w (w x y) rest := by
    intro x y rest
    cases rest with
    | none => rfl
    | some z => exact (hww x y z).symm
  suffices h : ∀ c : Chain ι, c.Short → ∀ rest, groupedBefore w s c [] rest = before w (fold w s c) rest ∧
      (c.EndsWeak → ∀ y, groupedBefore w s c [y] rest = before w (s (fold w s c) y) rest) from (h c hc none).1
  intro c
  induction c with
  | one x => exact fun _ rest => ⟨rfl, fun _ y => rfl⟩
  | weak c x ih =>
    intro hc rest
    refine ⟨?_, fun _ y => ?_⟩
    · rw [groupedBefore, (ih hc _).1]
      exact hbefore ..
    · rw [groupedBefore, (ih hc _).1]
      exact (hbefore ..).trans (by rw [fold, hws]; rfl)
  | strong c x ih => exact fun hc rest => ⟨(ih hc.1 rest).2 hc.2 x, False.elim⟩

end Groupings

/-! ### Images and properties -/

section Images
variable {w s : ι → ι → ι} {w' s' : κ → κ → κ} {f : ι → κ}

theorem map_weakly (f : ι → κ) (d : Chain ι) : ∀ c, (weakly d c).map f = weakly (d.map f) (c.map f)
  | one _ => rfl
  | weak c x => congrArg (weak · (f x)) (map_weakly f d c)
  | strong c x => congrArg (strong · (f x)) (map_weakly f d c)

theorem map_strongly (f : ι → κ) (d : Chain ι) : ∀ c, (strongly d c).map f = strongly (d.map f) (c.map f)
  | one _ => rfl
  | weak c x => congrArg (weak · (f x)) (map_strongly f d c)
  | strong c x => congrArg (strong · (f x)) (map_strongly f d c)

theorem NoWeak.map {c : Chain ι} (h : c.NoWeak) : (c.map f).NoWeak := by
  induction c with
  | one x => trivial
  | weak c x ih => exact h
  | strong c x ih => exact ih h

theorem EndsWeak.map {c : Chain ι} (h : c.EndsWeak) : (c.map f).EndsWeak := by
  cases c with
  | strong c x => exact h
  | _ => trivial

theorem Short.map {c : Chain ι} (h : c.Short) : (c.map f).Short := by
  induction c with
  | one x => trivial
  | weak c x ih => exact ih h
  | strong c x ih => exact ⟨ih h.1, h.2.map⟩

theorem map_grouped (hw : ∀ x y, f (w x y) = w' (f x) (f y)) (hs : ∀ x y, f (s x y) = s' (f x) (f y))
    (c : Chain ι) : f (grouped w s c) = grouped w' s' (c.map f) := by
  have hquotient : ∀ (ys : List ι) (x : ι), f (quotient s x ys) = quotient s' (f x) (ys.map f) := by
    intro ys
    induction ys with
    | nil => exact fun x => rfl
    | cons y ys ih => exact fun x => by rw [quotient, hs, ih, List.map_cons, quotient]
  have hbefore : ∀ (x : ι) (rest : Option ι), f (before w x rest) = before w' (f x) (rest.map f) := by
    rintro x (- | y)
    · rfl
    · exact hw x y
  suffices h : ∀ (ys : List ι) (rest : Option ι),
      f (groupedBefore w s c ys rest) = groupedBefore w' s' (c.map f) (ys.map f) (rest.map f) from h [] none
  induction c with
  | one x => exact fun ys rest => by rw [groupedBefore, hbefore, hquotient]; rfl
  | weak c x ih => exact fun ys rest => by rw [groupedBefore, ih, Option.map_some, hbefore, hquotient]; rfl
  | strong c x ih => exact fun ys rest => by rw [groupedBefore, ih]; rfl

end Images

section Properties
variable {P Q : ι → Prop}

theorem All.imp (h : ∀ x, P x → Q x) {c : Chain ι} (hc : c.All P) : c.All Q := by
  induction c with
  | one x => exact h x hc
  | weak c x ih => exact ⟨ih hc.1, h x hc.2⟩
  | strong c x ih => exact ⟨ih hc.1, h x hc.2⟩

theorem all_of (h : ∀ x, P x) (c : Chain ι) : c.All P := by
  induction c with
  | one x => exact h x
  | weak c x ih => exact ⟨ih, h x⟩
  | strong c x ih => exact ⟨ih, h x⟩

theorem all_weakly {d c : Chain ι} : (weakly d c).All P ↔ d.All P ∧ c.All P := by
  induction c with
  | one x => rfl
  | weak c x ih => rw [weakly, All, ih, All, and_assoc]
  | strong c x ih => rw [weakly, All, ih, All, and_assoc]

theorem all_strongly {d c : Chain ι} : (strongly d c).All P ↔ d.All P ∧ c.All P := by
  induction c with
  | one x => rfl
  | weak c x ih => rw [strongly, All, ih, All, and_assoc]
  | strong c x ih => rw [strongly, All, ih, All, and_assoc]

theorem All.fold {w s : ι → ι → ι} (hw : ∀ x y, P x → P y → P (w x y)) (hs : ∀ x y, P x → P y → P (s x y))
    {c : Chain ι} (hc : c.All P) : P (c.fold w s) := by
  induction c with
  | one x => exact hc
  | weak c x ih => exact hw _ _ (ih hc.1) hc.2
  | strong c x ih => exact hs _ _ (ih hc.1) hc.2

theorem NoWeak.fold {w s : ι → ι → ι} (hs : ∀ x y, P x → P y → P (s x y)) {c : Chain ι} (h : c.NoWeak)
    (hc : c.All P) : P (c.fold w s) := by
  induction c with
  | one x => exact hc
  | weak c x ih => exact False.elim h
  | strong c x ih => exact hs _ _ (ih h hc.1) hc.2

theorem all_map {f : κ → ι} {c : Chain κ} : (c.map f).All P ↔ c.All fun x => P (f x) := by
  induction c with
  | one x => rfl
  | weak c x ih => rw [map, All, ih, All]
  | strong c x ih => rw [map, All, ih, All]

theorem last_weakly (d : Chain ι) : ∀ c, (weakly d c).last = c.last
  | one _ => rfl
  | weak _ _ => rfl
  | strong _ _ => rfl

theorem last_strongly (d : Chain ι) : ∀ c, (strongly d c).last = c.last
  | one _ => rfl
  | weak _ _ => rfl
  | strong _ _ => rfl

theorem BeforeStrong.of_weakly {d c : Chain ι} (h : (weakly d c).BeforeStrong P) :
    d.BeforeStrong P ∧ c.BeforeStrong P := by
  induction c with
  | one x => exact ⟨h, trivial⟩
  | weak c x ih => exact ih h
  | strong c x ih => exact ⟨(ih h.1).1, (ih h.1).2, last_weakly d c ▸ h.2⟩

theorem BeforeStrong.of_strongly {x : ι} {c : Chain ι} (h : (strongly (one x) c).BeforeStrong P) :
    P x ∧ c.BeforeStrong P := by
  induction c with
  | one y => exact ⟨h.2, trivial⟩
  | weak c y ih => exact ih h
  | strong c y ih => exact ⟨(ih h.1).1, (ih h.1).2, last_strongly (one x) c ▸ h.2⟩

end Properties

end Chain
end Universa.Lib
