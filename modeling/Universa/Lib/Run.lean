import Mathlib.Logic.Basic

/-! Runs of a system that takes one action after another. `step` answers the state after an action, or
    nothing where the action cannot happen; the choices of the environment are part of the action.
    `invariant` is the rule for runs whose actions all meet a condition in the state they start from. -/

namespace Universa.Run

variable {σ α : Type} {step : σ → α → Option σ} {ok : σ → α → Prop} {s s' : σ} {a : α} {as bs : List α}

/-- The state after the actions, where all of them can happen. -/
def run (step : σ → α → Option σ) : σ → List α → Option σ
  | s, [] => some s
  | s, a :: as => (step s a).bind fun s' => run step s' as

/-- Every action of the run meets the condition in the state before it. -/
def Meets (step : σ → α → Option σ) (ok : σ → α → Prop) : σ → List α → Prop
  | _, [] => True
  | s, a :: as => ok s a ∧ ∀ s', step s a = some s' → Meets step ok s' as

/-- Every action of the run passes a test in the state before it. -/
def passes (step : σ → α → Option σ) (test : σ → α → Bool) : σ → List α → Bool
  | _, [] => true
  | s, a :: as => test s a && (step s a).all fun s' => passes step test s' as

theorem run_cons : run step s (a :: as) = some s' ↔ ∃ s₁, step s a = some s₁ ∧ run step s₁ as = some s' :=
  Option.bind_eq_some_iff

theorem run_append : run step s (as ++ bs) = some s' ↔ ∃ s₁, run step s as = some s₁ ∧ run step s₁ bs = some s' := by
  induction as generalizing s with
  | nil => simp [run]
  | cons a as ih =>
      rw [List.cons_append, run_cons]
      constructor
      · rintro ⟨s₁, ha, h⟩
        obtain ⟨s₂, has, hbs⟩ := ih.mp h
        exact ⟨s₂, run_cons.mpr ⟨s₁, ha, has⟩, hbs⟩
      · rintro ⟨s₂, h, hbs⟩
        obtain ⟨s₁, ha, has⟩ := run_cons.mp h
        exact ⟨s₁, ha, ih.mpr ⟨s₂, has, hbs⟩⟩

/-- A run meets the condition where its first action does and the rest does from the state after it. -/
theorem meets_cons (h : ok s a) (hs : step s a = some s') (hrest : Meets step ok s' as) :
    Meets step ok s (a :: as) :=
  ⟨h, fun _ hs'' => Option.some.inj (hs.symm.trans hs'') ▸ hrest⟩

/-- A run meets a condition where each of its actions passes a test of it. -/
theorem meets_of_passes {test : σ → α → Bool} (htest : ∀ s a, test s a = true → ok s a)
    (h : passes step test s as = true) : Meets step ok s as := by
  induction as generalizing s with
  | nil => trivial
  | cons a as ih =>
      obtain ⟨ha, has⟩ := Bool.and_eq_true_iff.mp h
      exact ⟨htest s a ha, fun s' hs' => ih (by simpa [hs'] using has)⟩

/-- What every step that meets the condition keeps holds in the state a run reaches. -/
theorem invariant {I : σ → Prop} (hstep : ∀ s a s', I s → ok s a → step s a = some s' → I s')
    (hI : I s) (hok : Meets step ok s as) (hrun : run step s as = some s') : I s' := by
  induction as generalizing s with
  | nil => exact Option.some.inj hrun ▸ hI
  | cons a as ih =>
      obtain ⟨s₁, ha, hrun⟩ := run_cons.mp hrun
      exact ih (hstep s a s₁ hI hok.1 ha) (hok.2 s₁ ha) hrun

/-- The property holds in every state of the run. -/
def Always (step : σ → α → Option σ) (I : σ → Prop) : σ → List α → Prop
  | s, [] => I s
  | s, a :: as => I s ∧ ∀ s', step s a = some s' → Always step I s' as

/-- What every step keeps holds in every state of the run. -/
theorem always_of_step {I : σ → Prop} (hstep : ∀ s a s', I s → step s a = some s' → I s') (hI : I s) :
    Always step I s as := by
  induction as generalizing s with
  | nil => exact hI
  | cons a as ih => exact ⟨hI, fun s' ha => ih (hstep s a s' hI ha)⟩

/-- What every step that meets the condition keeps holds in every state of a run that meets it. -/
theorem always_of_meets {I : σ → Prop} (hstep : ∀ s a s', I s → ok s a → step s a = some s' → I s') (hI : I s)
    (hok : Meets step ok s as) : Always step I s as := by
  induction as generalizing s with
  | nil => exact hI
  | cons a as ih => exact ⟨hI, fun s' ha => ih (hstep s a s' hI hok.1 ha) (hok.2 s' ha)⟩

/-- A property holds in every state of a run where one that implies it does. -/
theorem Always.imp {I J : σ → Prop} (h : ∀ s, I s → J s) (hI : Always step I s as) : Always step J s as := by
  induction as generalizing s with
  | nil => exact h s hI
  | cons a as ih => exact ⟨h s hI.1, fun s' ha => ih (hI.2 s' ha)⟩

/-- A property that a step keeps exactly if it meets the condition holds in every state of the run exactly if
    every action meets it. -/
theorem always_iff_meets {I : σ → Prop} (hstep : ∀ s a, I s → ∃ s', step s a = some s' ∧ (I s' ↔ ok s a)) (hI : I s) :
    Always step I s as ↔ Meets step ok s as := by
  induction as generalizing s with
  | nil => exact iff_of_true hI trivial
  | cons a as ih =>
    obtain ⟨s', ha, hs'⟩ := hstep s a hI
    have hstart : ∀ {bs}, Always step I s' bs → I s' := by
      rintro (- | ⟨b, bs⟩) h
      · exact h
      · exact h.1
    constructor
    · rintro ⟨-, h⟩
      have hall := h s' ha
      have hI' := hstart hall
      exact meets_cons (hs'.mp hI') ha ((ih hI').mp hall)
    · rintro ⟨hok, h⟩
      refine ⟨hI, fun s'' ha' => ?_⟩
      obtain rfl := Option.some.inj (ha.symm.trans ha')
      exact (ih (hs'.mpr hok)).mpr (h s' ha)

/-- Properties that are equivalent where an invariant holds are those of the same runs. -/
theorem always_congr {I J K : σ → Prop} (hstep : ∀ s a s', K s → step s a = some s' → K s')
    (h : ∀ s, K s → (I s ↔ J s)) (hK : K s) : Always step I s as ↔ Always step J s as := by
  induction as generalizing s with
  | nil => exact h s hK
  | cons a as ih => exact and_congr (h s hK) (forall₂_congr fun s' hs' => ih (hstep s a s' hK hs'))

/-- A condition without exceptions is met by every run. -/
theorem meets_of_forall (h : ∀ s a, ok s a) : Meets step ok s as := by
  induction as generalizing s with
  | nil => trivial
  | cons a as ih => exact ⟨h s a, fun _ _ => ih⟩

/-- A condition on the action alone is met by a run whose actions all do. -/
theorem meets_of_mem {p : α → Prop} (h : ∀ a ∈ as, p a) : Meets step (fun _ a => p a) s as := by
  induction as generalizing s with
  | nil => trivial
  | cons a as ih => exact ⟨h a List.mem_cons_self, fun _ _ => ih fun b hb => h b (List.mem_cons_of_mem _ hb)⟩

end Universa.Run
