/-! Computations over a state that return, throw or crash, keeping the state they reached in each
    case. `Keeps` is the rule of invariants for them: an invariant holds wherever control comes
    back (a return or a throw) and a crash leaves the state a crash condition describes.
    `Refines` relates such a computation to a parser in `Option`: it returns exactly when the
    parser accepts, with the same value and the abstraction of its state. -/

namespace Universa

/-- How a computation ends. -/
inductive Outcome (ε κ σ α : Type) where
  | ok (a : α) (s : σ)
  | throw (e : ε) (s : σ)
  | crash (k : κ) (s : σ)

namespace Outcome
variable {ε κ σ α : Type}

/-- The state reached, whatever the end. -/
def state : Outcome ε κ σ α → σ
  | ok _ s | throw _ s | crash _ s => s

/-- The computation came back to its caller. -/
def Ended : Outcome ε κ σ α → Prop
  | ok _ _ | throw _ _ => True
  | crash _ _ => False

/-- `I` holds where control comes back, `C` where it crashed. -/
def Keeps (I C : σ → Prop) : Outcome ε κ σ α → Prop
  | ok _ s | throw _ s => I s
  | crash _ s => C s

/-- The end a parser's answer describes: what it accepts is returned, and the rest of its input is
    the abstraction of a state in `I`. -/
def Answers {τ : Type} (I : σ → Prop) (abs : σ → τ) (answer : Option (α × τ)) :
    Outcome ε κ σ α → Prop
  | ok a s => answer = some (a, abs s) ∧ I s
  | throw _ _ | crash _ _ => answer = none

end Outcome

def Comp (ε κ σ α : Type) := σ → Outcome ε κ σ α

namespace Comp
variable {ε κ σ τ α β : Type}

def bind (m : Comp ε κ σ α) (f : α → Comp ε κ σ β) : Comp ε κ σ β := fun s =>
  match m s with
  | .ok a s' => f a s'
  | .throw e s' => .throw e s'
  | .crash k s' => .crash k s'

instance : Monad (Comp ε κ σ) where
  pure a := fun s => .ok a s
  bind := bind

/-- Throw. -/
def fail (e : ε) : Comp ε κ σ α := fun s => .throw e s

/-- The state. -/
def read : Comp ε κ σ σ := fun s => .ok s s

/-- Change the state. -/
def modify (f : σ → σ) : Comp ε κ σ Unit := fun s => .ok () (f s)

/-- Rethrow the error of a pure part. -/
def lift : Except ε α → Comp ε κ σ α
  | .ok a => pure a
  | .error e => fail e

/-- Run, and answer whether it threw: the caller catches. -/
def catching (m : Comp ε κ σ α) : Comp ε κ σ (Except ε α) := fun s =>
  match m s with
  | .ok a s' => .ok (.ok a) s'
  | .throw e s' => .ok (.error e) s'
  | .crash k s' => .crash k s'

/-- A sequence returns when both its parts do. -/
theorem bind_eq_ok {m : Comp ε κ σ α} {f : α → Comp ε κ σ β} {s s' : σ} {b : β} :
    (m >>= f) s = .ok b s' ↔ ∃ a s₁, m s = .ok a s₁ ∧ f a s₁ = .ok b s' := by
  show bind m f s = .ok b s' ↔ _
  rw [bind]
  cases m s with
  | ok a s₁ =>
      constructor
      · exact fun h => ⟨a, s₁, rfl, h⟩
      · rintro ⟨_, _, h, hf⟩
        cases h
        exact hf
  | throw e s₁ => simp
  | crash k s₁ => simp

theorem pure_eq_ok {a b : α} {s s' : σ} :
    (pure a : Comp ε κ σ α) s = .ok b s' ↔ a = b ∧ s = s' := by
  show (Outcome.ok a s : Outcome ε κ σ α) = .ok b s' ↔ _
  simp

/-! ### Invariants -/

/-- `I` is kept where the computation comes back, and `C` holds where it crashes. -/
def Keeps (I C : σ → Prop) (m : Comp ε κ σ α) : Prop := ∀ s, I s → (m s).Keeps I C

section
variable {I C : σ → Prop}

theorem keeps_pure (a : α) : Keeps I C (pure a : Comp ε κ σ α) := fun _ h => h

theorem keeps_fail (e : ε) : Keeps I C (fail e : Comp ε κ σ α) := fun _ h => h

theorem keeps_read : Keeps I C (read : Comp ε κ σ σ) := fun _ h => h

theorem keeps_modify {f : σ → σ} (h : ∀ s, I s → I (f s)) :
    Keeps I C (modify f : Comp ε κ σ Unit) := h

/-- Sequencing from one state: the second part may use what the first answered. -/
theorem keeps_bind_at {m : Comp ε κ σ α} {f : α → Comp ε κ σ β} {s : σ} (hm : (m s).Keeps I C)
    (hf : ∀ a s', m s = .ok a s' → I s' → (f a s').Keeps I C) : ((m >>= f) s).Keeps I C := by
  show (bind m f s).Keeps I C
  rw [bind]
  cases hms : m s with
  | ok a s' => rw [hms] at hm; exact hf a s' hms hm
  | throw e s' => rw [hms] at hm; exact hm
  | crash k s' => rw [hms] at hm; exact hm

theorem keeps_bind {m : Comp ε κ σ α} {f : α → Comp ε κ σ β} (hm : Keeps I C m)
    (hf : ∀ a, Keeps I C (f a)) : Keeps I C (m >>= f) :=
  fun s hs => keeps_bind_at (hm s hs) fun a s' _ hs' => hf a s' hs'

theorem keeps_lift (x : Except ε α) : Keeps I C (lift x : Comp ε κ σ α) := by
  cases x with
  | ok a => exact keeps_pure a
  | error e => exact keeps_fail e

theorem keeps_catching {m : Comp ε κ σ α} (hm : Keeps I C m) : Keeps I C (catching m) := by
  intro s hs
  have h := hm s hs
  rw [catching]
  cases hms : m s with
  | ok a s' => rw [hms] at h; exact h
  | throw e s' => rw [hms] at h; exact h
  | crash k s' => rw [hms] at h; exact h

end

/-! ### Refinement of a parser -/

/-- From a state in `I`, the computation returns what the parser answers, staying in `I`, and it
    throws or crashes when the parser rejects. -/
def Refines (I : σ → Prop) (abs : σ → τ) (m : Comp ε κ σ α) (p : StateT τ Option α) : Prop :=
  ∀ s, I s → (m s).Answers I abs (p (abs s))

section
variable {I : σ → Prop} {abs : σ → τ}

theorem refines_pure (a : α) : Refines I abs (pure a : Comp ε κ σ α) (pure a) :=
  fun _ h => ⟨rfl, h⟩

theorem refines_fail (e : ε) : Refines I abs (fail e : Comp ε κ σ α) (fun _ => none) :=
  fun _ _ => rfl

theorem refines_bind_at {m : Comp ε κ σ α} {f : α → Comp ε κ σ β} {p : StateT τ Option α}
    {q : α → StateT τ Option β} {s : σ} (hm : (m s).Answers I abs (p (abs s)))
    (hf : ∀ a s', m s = .ok a s' → I s' → (f a s').Answers I abs (q a (abs s'))) :
    ((m >>= f) s).Answers I abs ((p >>= q) (abs s)) := by
  have hpq : (p >>= q) (abs s) = (p (abs s)).bind fun x => q x.1 x.2 := rfl
  show (bind m f s).Answers I abs _
  rw [bind, hpq]
  cases hms : m s with
  | ok a s' =>
      rw [hms] at hm
      obtain ⟨hp, hs'⟩ := hm
      rw [hp]
      exact hf a s' hms hs'
  | throw e s' =>
      rw [hms] at hm
      rw [show p (abs s) = none from hm]
      rfl
  | crash k s' =>
      rw [hms] at hm
      rw [show p (abs s) = none from hm]
      rfl

theorem refines_bind {m : Comp ε κ σ α} {f : α → Comp ε κ σ β} {p : StateT τ Option α}
    {q : α → StateT τ Option β} (hm : Refines I abs m p) (hf : ∀ a, Refines I abs (f a) (q a)) :
    Refines I abs (m >>= f) (p >>= q) :=
  fun s hs => refines_bind_at (hm s hs) fun a s' _ hs' => hf a s' hs'

end
end Comp

/-! ### Computations in `Except` -/

theorem Except.ite_ok {ε α : Type} {p : Prop} [Decidable p] {e : ε} {a b : α} :
    (if p then (.ok a : Except ε α) else .error e) = .ok b ↔ p ∧ b = a := by
  by_cases h : p
  · rw [if_pos h, Except.ok.injEq, eq_comm, and_iff_right h]
  · rw [if_neg h]
    exact ⟨nofun, fun hb => absurd hb.1 h⟩

/-- What a guard lets through. -/
theorem Except.mapError_ite_ok {ε ε' α : Type} {p : Prop} [Decidable p] {e : ε} {f : ε → ε'} {a b : α} :
    (if p then (.ok a : Except ε α) else .error e).mapError f = .ok b ↔ p ∧ b = a := by
  by_cases h : p
  · rw [if_pos h]
    exact ⟨fun heq => ⟨h, (Except.ok.inj heq).symm⟩, fun hb => congrArg _ hb.2.symm⟩
  · rw [if_neg h]
    exact ⟨nofun, fun hb => absurd hb.1 h⟩

theorem Except.bind_eq_ok {ε α β : Type} {x : Except ε α} {f : α → Except ε β} {b : β} :
    (x >>= f) = .ok b ↔ ∃ a, x = .ok a ∧ f a = .ok b := by
  cases x <;> simp [bind, Except.bind]

end Universa
