import Mathlib.Data.Nat.Notation
import Mathlib.Logic.Function.Basic
import Universa.Lib.Run

/-! `Lock.synchronize` (`lock.js`). `locks` has a promise for every object that is locked; a call that finds one
    awaits it and looks again, and one that finds none puts a promise of its own and runs its block. What lies
    between two `await`s happens in one step, and steps of different calls come in any order. -/

namespace Universa.Js.Lock
variable {K : Type} [DecidableEq K]

/-- Where a call of `synchronize` stands; promises are numbered as they are made. -/
inductive Status
  | waiting (lock : ℕ)
  | running (fire : ℕ)
  | ended

/-- A `Lock` and the calls of `synchronize`, each with its object. -/
structure State (K : Type) where
  locks : K → Option ℕ
  promises : ℕ
  resolved : List ℕ
  calls : List (K × Status)

/-- What can happen next: a call, the end of an `await`, or the end of a block, with a result or an error. -/
inductive Action (K : Type)
  | call (obj : K)
  | resume (i : ℕ)
  | settle (i : ℕ)

namespace State

/-- `new Lock()`. -/
def new : State K := ⟨fun _ => none, 0, [], []⟩

/-- The loop at the start of `synchronize`, up to an `await` or the start of the block. -/
def enter (obj : K) (s : State K) : Status × State K :=
  match s.locks obj with
  | some lock => (.waiting lock, s)
  | none =>
      (.running s.promises,
        { s with locks := Function.update s.locks obj (some s.promises), promises := s.promises + 1 })

/-- `this.locks.delete(obj)` and `fire()`, on both ways out of the block. -/
def leave (obj : K) (fire : ℕ) (s : State K) : State K :=
  { s with locks := Function.update s.locks obj none, resolved := fire :: s.resolved }

end State

/-- A step. -/
def step (s : State K) : Action K → Option (State K)
  | .call obj =>
      let entered := s.enter obj
      some { entered.2 with calls := s.calls ++ [(obj, entered.1)] }
  | .resume i =>
      match s.calls[i]? with
      | some (obj, .waiting lock) =>
          let entered := s.enter obj
          if lock ∈ s.resolved then some { entered.2 with calls := s.calls.set i (obj, entered.1) } else none
      | _ => none
  | .settle i =>
      match s.calls[i]? with
      | some (obj, .running fire) => some { s.leave obj fire with calls := s.calls.set i (obj, .ended) }
      | _ => none

/-! ### The invariant -/

/-- An object is locked by the promise of the one call that runs for it. What a call waits for is that promise, or
    is resolved. -/
structure Inv (s : State K) : Prop where
  held : ∀ {i : ℕ} {obj : K} {p : ℕ}, s.calls[i]? = some (obj, .running p) → s.locks obj = some p
  holder : ∀ {obj : K} {p : ℕ}, s.locks obj = some p → ∃ i : ℕ, s.calls[i]? = some (obj, .running p)
  own : ∀ {i j : ℕ} {obj obj' : K} {p : ℕ}, s.calls[i]? = some (obj, .running p) →
    s.calls[j]? = some (obj', .running p) → i = j
  pending : ∀ {i : ℕ} {obj : K} {p : ℕ}, s.calls[i]? = some (obj, .running p) → p < s.promises
  waits : ∀ {i : ℕ} {obj : K} {p : ℕ}, s.calls[i]? = some (obj, .waiting p) → p ∈ s.resolved ∨ s.locks obj = some p

/-- One call moved on, or came: `i` is now `x`. -/
def Moved {α : Type} (l : List α) (i : ℕ) (x : α) (l' : List α) : Prop :=
  ∀ j y, l'[j]? = some y ↔ j = i ∧ y = x ∨ j ≠ i ∧ l[j]? = some y

theorem moved_append {α : Type} (l : List α) (x : α) : Moved l l.length x (l ++ [x]) := by
  intro j y
  by_cases hj : j = l.length
  · subst hj
    rw [List.getElem?_concat_length]
    simp [eq_comm]
  · simp only [hj, false_and, false_or, ne_eq, not_false_eq_true, true_and]
    rcases Nat.lt_or_ge j l.length with hlt | hge
    · rw [List.getElem?_append_left hlt]
    · rw [List.getElem?_eq_none (l := l ++ [x]), List.getElem?_eq_none hge]
      rw [List.length_append, List.length_singleton]
      omega

theorem moved_set {α : Type} {l : List α} {i : ℕ} {x y : α} (h : l[i]? = some y) : Moved l i x (l.set i x) := by
  intro j z
  obtain ⟨hlt, -⟩ := List.getElem?_eq_some_iff.mp h
  by_cases hj : j = i
  · subst hj
    rw [List.getElem?_set_self hlt]
    simp [eq_comm]
  · rw [List.getElem?_set_ne (Ne.symm hj)]
    simp [hj]

variable {s s' : State K} {i p : ℕ} {obj : K} {l' : List (K × Status)}

/-- A call that looks leaves the locks as they should be, whether it comes or comes back. -/
theorem Inv.enter (h : Inv s) (hnot : ∀ {o : K} {p : ℕ}, s.calls[i]? ≠ some (o, .running p))
    (hm : Moved s.calls i (obj, (s.enter obj).1) l') : Inv { (s.enter obj).2 with calls := l' } := by
  cases hlock : s.locks obj with
  | some lock =>
      have henter : s.enter obj = (.waiting lock, s) := by rw [State.enter, hlock]
      rw [henter] at hm ⊢
      have hrun : ∀ {j : ℕ} {o : K} {q : ℕ}, l'[j]? = some (o, .running q) ↔ s.calls[j]? = some (o, .running q) := by
        intro j o q
        refine (hm _ _).trans ⟨?_, fun hj => .inr ⟨?_, hj⟩⟩
        · rintro (⟨-, ⟨⟩⟩ | ⟨-, hj⟩)
          exact hj
        · rintro rfl
          exact hnot hj
      refine ⟨fun hj => h.held (hrun.mp hj), fun hl => (h.holder hl).imp fun _ => hrun.mpr,
        fun hj hj' => h.own (hrun.mp hj) (hrun.mp hj'), fun hj => h.pending (hrun.mp hj), fun hj => ?_⟩
      rcases (hm _ _).mp hj with ⟨-, heq⟩ | ⟨-, hj⟩
      · cases heq
        exact .inr hlock
      · exact h.waits hj
  | none =>
      have henter : s.enter obj = (.running s.promises,
          { s with locks := Function.update s.locks obj (some s.promises), promises := s.promises + 1 }) := by
        rw [State.enter, hlock]
      rw [henter] at hm ⊢
      have hrun : ∀ {j : ℕ} {o : K} {q : ℕ}, l'[j]? = some (o, .running q) →
          j = i ∧ o = obj ∧ q = s.promises ∨ s.calls[j]? = some (o, .running q) ∧ o ≠ obj := by
        intro j o q hj
        rcases (hm _ _).mp hj with ⟨rfl, heq⟩ | ⟨-, hj⟩
        · cases heq
          exact .inl ⟨rfl, rfl, rfl⟩
        · refine .inr ⟨hj, ?_⟩
          rintro rfl
          cases hlock.symm.trans (h.held hj)
      refine ⟨?_, ?_, ?_, ?_, ?_⟩
      · intro j o q hj
        rcases hrun hj with ⟨-, rfl, rfl⟩ | ⟨hj, hne⟩
        · exact Function.update_self ..
        · exact (Function.update_of_ne hne ..).trans (h.held hj)
      · intro o q hl
        by_cases ho : o = obj
        · subst ho
          have hq : Function.update s.locks o (some s.promises) o = some q := hl
          rw [Function.update_self] at hq
          cases hq
          exact ⟨i, (hm _ _).mpr (.inl ⟨rfl, rfl⟩)⟩
        · obtain ⟨j, hj⟩ := h.holder ((Function.update_of_ne ho ..).symm.trans hl)
          refine ⟨j, (hm _ _).mpr (.inr ⟨?_, hj⟩)⟩
          rintro rfl
          exact hnot hj
      · intro j j' o o' q hj hj'
        rcases hrun hj with ⟨rfl, -, hq⟩ | ⟨hj, -⟩
        · rcases hrun hj' with ⟨rfl, -⟩ | ⟨hj', -⟩
          · rfl
          · exact absurd (h.pending hj') (by rw [hq]; exact Nat.lt_irrefl _)
        · rcases hrun hj' with ⟨-, -, hq⟩ | ⟨hj', -⟩
          · exact absurd (h.pending hj) (by rw [hq]; exact Nat.lt_irrefl _)
          · exact h.own hj hj'
      · intro j o q hj
        rcases hrun hj with ⟨-, -, rfl⟩ | ⟨hj, -⟩
        · exact Nat.lt_succ_self _
        · exact Nat.lt_succ_of_lt (h.pending hj)
      · intro j o q hj
        rcases (hm _ _).mp hj with ⟨-, heq⟩ | ⟨-, hj⟩
        · cases heq
        · refine (h.waits hj).imp_right fun hl => (Function.update_of_ne ?_ ..).trans hl
          rintro rfl
          rw [hlock] at hl
          cases hl

/-- The one that runs leaves, and all that waited for it may look again. -/
theorem Inv.leave (h : Inv s) (hi : s.calls[i]? = some (obj, .running p)) (hm : Moved s.calls i (obj, .ended) l') :
    Inv { s.leave obj p with calls := l' } := by
  have hlock := h.held hi
  have hrun : ∀ {j : ℕ} {o : K} {q : ℕ}, l'[j]? = some (o, .running q) →
      s.calls[j]? = some (o, .running q) ∧ o ≠ obj := by
    intro j o q hj
    rcases (hm _ _).mp hj with ⟨-, heq⟩ | ⟨hne, hj⟩
    · cases heq
    · refine ⟨hj, ?_⟩
      rintro rfl
      cases hlock.symm.trans (h.held hj)
      exact hne (h.own hj hi)
  refine ⟨?_, ?_, ?_, ?_, ?_⟩
  · intro j o q hj
    obtain ⟨hj, hne⟩ := hrun hj
    exact (Function.update_of_ne hne ..).trans (h.held hj)
  · intro o q hl
    have hne : o ≠ obj := by
      rintro rfl
      cases (Function.update_self ..).symm.trans hl
    obtain ⟨j, hj⟩ := h.holder ((Function.update_of_ne hne ..).symm.trans hl)
    refine ⟨j, (hm _ _).mpr (.inr ⟨?_, hj⟩)⟩
    rintro rfl
    cases hi.symm.trans hj
    exact hne rfl
  · intro j j' o o' q hj hj'
    exact h.own (hrun hj).1 (hrun hj').1
  · intro j o q hj
    exact h.pending (hrun hj).1
  · intro j o q hj
    rcases (hm _ _).mp hj with ⟨-, heq⟩ | ⟨-, hj⟩
    · cases heq
    · rcases h.waits hj with hres | hl
      · exact .inl (List.mem_cons_of_mem _ hres)
      · by_cases ho : o = obj
        · subst ho
          cases hlock.symm.trans hl
          exact .inl List.mem_cons_self
        · exact .inr ((Function.update_of_ne ho ..).trans hl)

theorem resume_eq_some {a : State K} (h : step s (.resume i) = some a) :
    ∃ obj lock, s.calls[i]? = some (obj, .waiting lock) ∧ lock ∈ s.resolved ∧
      a = { (s.enter obj).2 with calls := s.calls.set i (obj, (s.enter obj).1) } := by
  rw [step] at h
  split at h
  · next obj lock hi =>
      obtain ⟨hres, ha⟩ := Option.ite_none_right_eq_some.mp h
      exact ⟨obj, lock, hi, hres, (Option.some.inj ha).symm⟩
  · cases h

theorem settle_eq_some {a : State K} (h : step s (.settle i) = some a) :
    ∃ obj fire, s.calls[i]? = some (obj, .running fire) ∧
      a = { s.leave obj fire with calls := s.calls.set i (obj, .ended) } := by
  rw [step] at h
  split at h
  · next obj fire hi => exact ⟨obj, fire, hi, (Option.some.inj h).symm⟩
  · cases h

/-- Every step keeps it. -/
theorem Inv.step (h : Inv s) (a : Action K) (hs : Lock.step s a = some s') : Inv s' := by
  cases a with
  | call obj =>
      cases hs
      refine h.enter ?_ (moved_append _ _)
      intro o p hr
      rw [List.getElem?_eq_none (Nat.le_refl _)] at hr
      cases hr
  | resume i =>
      obtain ⟨obj, lock, hi, -, rfl⟩ := resume_eq_some hs
      refine h.enter ?_ (moved_set hi)
      intro o p hr
      cases hi.symm.trans hr
  | settle i =>
      obtain ⟨obj, fire, hi, rfl⟩ := settle_eq_some hs
      exact h.leave hi (moved_set hi)

omit [DecidableEq K] in
theorem inv_new : Inv (State.new : State K) where
  held h := by cases h
  holder h := by cases h
  own h := by cases h
  pending h := by cases h
  waits h := by cases h

/-! ### Runs -/

/-- Two calls that run are for different objects. -/
def Exclusive (s : State K) : Prop :=
  ∀ {i j : ℕ} {obj : K} {p q : ℕ}, s.calls[i]? = some (obj, .running p) → s.calls[j]? = some (obj, .running q) → i = j

/-- A call that waits for an object that no call runs for is woken, and runs when it looks. -/
def Awake (s : State K) : Prop :=
  ∀ {i : ℕ} {obj : K} {lock : ℕ}, s.calls[i]? = some (obj, .waiting lock) →
    (∀ j q : ℕ, s.calls[j]? ≠ some (obj, .running q)) →
    ∃ fire, Lock.step s (.resume i) =
      some { (s.enter obj).2 with calls := s.calls.set i (obj, .running fire) }

/-- All calls there are can end without another one. -/
def Completes (s : State K) : Prop :=
  ∃ as s', (∀ a ∈ as, ∀ obj : K, a ≠ .call obj) ∧ Run.run Lock.step s as = some s' ∧ ∀ c ∈ s'.calls, c.2 = .ended

omit [DecidableEq K] in
theorem Inv.exclusive (h : Inv s) : Exclusive s := by
  intro i j obj p q hi hj
  cases (h.held hi).symm.trans (h.held hj)
  exact h.own hi hj

theorem Inv.awake (h : Inv s) : Awake s := by
  intro i obj lock hi hfree
  have hnone : s.locks obj = none := by
    cases hl : s.locks obj with
    | none => rfl
    | some q =>
        obtain ⟨j, hj⟩ := h.holder hl
        exact absurd hj (hfree j q)
  have hres : lock ∈ s.resolved := by
    refine (h.waits hi).resolve_right fun hl => ?_
    cases hnone.symm.trans hl
  have henter : (s.enter obj).1 = .running s.promises := by rw [State.enter, hnone]
  refine ⟨s.promises, ?_⟩
  simp only [Lock.step, hi, hres, if_true, henter]

/-- Whether a call has not ended. -/
def isOpen : Status → Bool
  | .ended => false
  | _ => true

/-- How many calls have not ended. -/
def openCalls (s : State K) : ℕ := s.calls.countP fun c => isOpen c.2

omit [DecidableEq K] in
/-- A call that goes on is still one; one that ends is one less. -/
theorem countP_set {l : List (K × Status)} {x y : K × Status} (h : l[i]? = some x) (hx : isOpen x.2 = true) :
    (l.set i y).countP (fun c => isOpen c.2) + 1 = l.countP (fun c => isOpen c.2) + (isOpen y.2).toNat := by
  obtain ⟨hlt, rfl⟩ := List.getElem?_eq_some_iff.mp h
  have hpos : 0 < l.countP fun c => isOpen c.2 := List.countP_pos_iff.mpr ⟨_, List.getElem_mem hlt, hx⟩
  rw [List.countP_set hlt, hx, if_pos rfl]
  cases hy : isOpen y.2 with
  | false =>
      simp only [Bool.false_eq_true, if_false, Bool.toNat_false]
      omega
  | true =>
      simp only [if_true, Bool.toNat_true]
      omega

/-- A call that runs can end. -/
theorem Inv.settle (h : Inv s) (hi : s.calls[i]? = some (obj, .running p)) :
    ∃ s', Lock.step s (.settle i) = some s' ∧ Inv s' ∧ openCalls s' + 1 = openCalls s := by
  have hstep : Lock.step s (.settle i) = some { s.leave obj p with calls := s.calls.set i (obj, .ended) } := by
    simp only [Lock.step, hi]
  exact ⟨_, hstep, h.step _ hstep, countP_set hi rfl⟩

/-- One that waits can run as soon as no other runs for its object. -/
theorem Inv.resume (h : Inv s) {lock : ℕ} (hi : s.calls[i]? = some (obj, .waiting lock))
    (hfree : ∀ j q : ℕ, s.calls[j]? ≠ some (obj, .running q)) :
    ∃ s' fire, Lock.step s (.resume i) = some s' ∧ Inv s' ∧ openCalls s' = openCalls s ∧
      s'.calls[i]? = some (obj, .running fire) := by
  obtain ⟨fire, hstep⟩ := h.awake hi hfree
  obtain ⟨hlt, -⟩ := List.getElem?_eq_some_iff.mp hi
  have hcount := countP_set (y := (obj, .running fire)) hi rfl
  exact ⟨_, fire, hstep, h.step _ hstep, Nat.succ.inj hcount, List.getElem?_set_self hlt⟩

/-- By induction on how many calls have not ended. -/
theorem Inv.completes (h : Inv s) : Completes s := by
  generalize hn : openCalls s = n
  induction n using Nat.strongRecOn generalizing s with
  | ind n ih =>
      -- A call that runs ends, and the rest can.
      have hend : ∀ {t : State K} {i p : ℕ} {obj : K}, Inv t → openCalls t = n →
          t.calls[i]? = some (obj, .running p) → Completes t := by
        intro t i p obj ht hcount hi
        obtain ⟨t', hstep, ht', hless⟩ := ht.settle hi
        obtain ⟨as, s', has, hrun, hover⟩ := ih _ (by omega) ht' rfl
        refine ⟨.settle i :: as, s', ?_, Run.run_cons.mpr ⟨t', hstep, hrun⟩, hover⟩
        intro a ha o
        rcases List.mem_cons.mp ha with rfl | ha
        · rintro ⟨⟩
        · exact has a ha o
      by_cases hall : ∀ c ∈ s.calls, c.2 = .ended
      · exact ⟨[], s, fun a ha => absurd ha List.not_mem_nil, rfl, hall⟩
      · simp only [not_forall] at hall
        obtain ⟨⟨obj, st⟩, hmem, hst⟩ := hall
        obtain ⟨i, hi⟩ := List.getElem?_of_mem hmem
        cases st with
        | ended => exact absurd rfl hst
        | running p => exact hend h hn hi
        | waiting lock =>
            by_cases hfree : ∀ j q : ℕ, s.calls[j]? ≠ some (obj, .running q)
            · obtain ⟨t, fire, hstep, ht, hcount, hti⟩ := h.resume hi hfree
              obtain ⟨as, s', has, hrun, hover⟩ := hend ht (hcount.trans hn) hti
              refine ⟨.resume i :: as, s', ?_, Run.run_cons.mpr ⟨t, hstep, hrun⟩, hover⟩
              intro a ha o
              rcases List.mem_cons.mp ha with rfl | ha
              · rintro ⟨⟩
              · exact has a ha o
            · simp only [not_forall, not_not] at hfree
              obtain ⟨j, q, hj⟩ := hfree
              exact hend h hn hj

/-- ONE AT A TIME (runs): whatever the order of calls, awaits and blocks, no two blocks for one object run at once,
    no call sleeps while its object is free, and all calls can end where their blocks do. -/
theorem synchronize_runs (as : List (Action K)) :
    Run.Always Lock.step (fun s => Exclusive s ∧ Awake s ∧ Completes s) (State.new : State K) as :=
  (Run.always_of_step (fun _ a _ h hs => Inv.step h a hs) inv_new).imp fun _ h =>
    ⟨h.exclusive, h.awake, h.completes⟩

end Universa.Js.Lock
