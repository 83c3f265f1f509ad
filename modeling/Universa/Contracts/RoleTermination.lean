import Mathlib.Data.Fintype.EquivFin
import Universa.Lib.Acyclic
import Universa.Contracts.RoleMeaning

/-! When the recursions over a graph of roles end. A search for a constraint, an extraction and an evaluation
    each go along references without a bound of their own, so a role that one of them comes back to is followed
    for ever; a link with constraints that hold resolves to itself. What an operation goes along depends on what
    stops it before: a role without a contract, a throw, a list that is decided. -/

namespace Universa.Contracts
open Universa.Lib

namespace RoleGraph
variable {K A R S X : Type} {g : RoleGraph K A R} {r r' : R}

/-! ### What the operations go along -/

/-- A search for a constraint that no role requires goes through the role and all it asks without a throw. -/
inductive Silent (g : RoleGraph K A R) : R → Prop where
  | intro {r : R} {special : List String} (hown : g.specialConstraints r = .ok special)
      (h : ∀ r' ∈ g.asked r, Silent g r') : Silent g r

/-- The search comes from a role to one that it asks, if those that are asked before let it pass. -/
inductive Searches (g : RoleGraph K A R) : R → R → Prop where
  | intro {r r' : R} {special : List String} {before after : List R} (hown : g.specialConstraints r = .ok special)
      (hasked : g.asked r = before ++ r' :: after) (hbefore : ∀ x ∈ before, g.Silent x) : Searches g r r'

/-- No link that is reached from the role throws. -/
inductive Extractable (g : RoleGraph K A R) : R → Prop where
  | simple {r : R} {keys : List K} {addresses : List A} (hk : (g.role r).kind = .simple keys addresses) :
      Extractable g r
  | vote {r : R} {answer : Except Unit Bool} {special : Except Unit (List String)}
      (hk : (g.role r).kind = .vote answer special) : Extractable g r
  | nowhere {r : R} {roleName : String} (hk : (g.role r).kind = .link roleName)
      (ht : g.resolve true r = .missing ∨ g.resolve true r = .other) : Extractable g r
  | link {r r' : R} {roleName : String} (hk : (g.role r).kind = .link roleName)
      (ht : g.resolve true r = .role r') (h : Extractable g r') : Extractable g r
  | list {r : R} {mode : ListRoleMode} {roles : List R} (hk : (g.role r).kind = .list mode roles)
      (h : ∀ r' ∈ roles, Extractable g r') : Extractable g r

/-- An extraction comes from a link to what it resolves to, and from a list to a sub-role, if none before throws. -/
inductive Extracts (g : RoleGraph K A R) : R → R → Prop where
  | link {r r' : R} {roleName : String} (hk : (g.role r).kind = .link roleName)
      (ht : g.resolve true r = .role r') : Extracts g r r'
  | list {r r' : R} {mode : ListRoleMode} {before after : List R}
      (hk : (g.role r).kind = .list mode (before ++ r' :: after)) (hbefore : ∀ x ∈ before, g.Extractable x) :
      Extracts g r r'

/-- An evaluation for these keys comes from a role whose constraints do not deny it: from a link to what it resolves
    to, and from a list to a sub-role, if those before can be evaluated and do not decide the list. -/
inductive Evaluates (g : RoleGraph K A R) (given : List K) : R → R → Prop where
  | link {r r' : R} {roleName : String} (hc : g.Passes r) (hk : (g.role r).kind = .link roleName)
      (ht : g.Resolves r r') : Evaluates g given r r'
  | list {r r' : R} {mode : ListRoleMode} {before after : List R} (hc : g.Passes r)
      (hk : (g.role r).kind = .list mode (before ++ r' :: after)) (hbefore : ∀ x ∈ before, g.Evaluable given x)
      (hnot : ¬ g.Decided given (reached mode (before ++ r' :: after).length) before) : Evaluates g given r r'

/-- No operation comes back to a role. -/
structure NoCycle (g : RoleGraph K A R) : Prop where
  searches : Acyclic g.Searches
  extracts : Acyclic g.Extracts
  evaluates : ∀ given, Acyclic (g.Evaluates given)

variable [DecidableEq K]

/-- Every operation on the role returns or throws, for all keys and names of constraints. (`resolve`
    is a loop of at most 40 steps.) -/
structure Ends (g : RoleGraph K A R) (r : R) : Prop where
  allowed : ∀ keys, ∃ fuel, g.isAllowedForKeys .collection fuel r keys ≠ none
  allowedOnce : ∀ keys, ∃ fuel, g.isAllowedForKeys .iterator fuel r keys ≠ none
  constraint : ∀ name, ∃ fuel, g.containConstraint name fuel r ≠ none
  keys : ∃ fuel, g.extractKeys fuel r ≠ none
  addresses : ∃ fuel, g.extractAddresses fuel r ≠ none

/-! ### The search for a constraint -/

section Search
omit [DecidableEq K]

theorem anyContains_mono {contains contains' : R → Option (Except Unit Bool)}
    (h : ∀ r x, contains r = some x → contains' r = some x) {rs : List R} {x : Except Unit Bool}
    (hx : anyContains contains rs = some x) : anyContains contains' rs = some x := by
  induction rs with
  | nil => exact hx
  | cons r rs ih =>
      rw [anyContains] at hx ⊢
      cases hr : contains r with
      | none =>
          rw [hr] at hx
          cases hx
      | some found =>
          rw [hr] at hx
          rw [h r found hr]
          match found with
          | .error _ | .ok true => exact hx
          | .ok false => exact ih hx

theorem containConstraint_succ {name : String} {fuel : ℕ} :
    ∀ {r : R} {x}, g.containConstraint name fuel r = some x → g.containConstraint name (fuel + 1) r = some x := by
  induction fuel with
  | zero => exact nofun
  | succ fuel ih =>
      intro r x h
      rw [containConstraint] at h ⊢
      split at h
      next => exact h
      next => exact h
      next => exact anyContains_mono (fun _ _ => ih) h

theorem containConstraint_mono {name : String} {fuel more : ℕ} (hle : fuel ≤ more) {r : R} {x}
    (h : g.containConstraint name fuel r = some x) : g.containConstraint name more r = some x := by
  induction hle with
  | refl => exact h
  | step _ ih => exact containConstraint_succ ih

/-- Where it answers no, the search went through the role and all it asks. -/
theorem silent_of_false {name : String} {fuel : ℕ} :
    ∀ {r : R}, g.containConstraint name fuel r = some (.ok false) → g.Silent r := by
  induction fuel with
  | zero => exact nofun
  | succ fuel ih =>
      intro r h
      rw [containConstraint] at h
      split at h
      next => cases h
      next => cases h
      next hown =>
        obtain ⟨special, hspecial⟩ : ∃ special, g.specialConstraints r = .ok special := by
          cases hs : g.specialConstraints r with
          | ok special => exact ⟨special, rfl⟩
          | error e =>
              rw [ownConstraint, hs] at hown
              split at hown <;> cases hown
        refine .intro hspecial ?_
        generalize g.asked r = rs at h
        induction rs with
        | nil => exact List.forall_mem_nil _
        | cons r₁ rs ih' =>
            rw [anyContains] at h
            split at h
            next => cases h
            next => cases h
            next => cases h
            next hr => exact List.forall_mem_cons.mpr ⟨ih hr, ih' h⟩

/-- The search ends where what it comes to ends. -/
theorem anyContains_ends {name : String} (rs : List R)
    (h : ∀ before r after, rs = before ++ r :: after → (∀ x ∈ before, g.Silent x) →
      ∃ fuel, g.containConstraint name fuel r ≠ none) :
    ∃ fuel, anyContains (g.containConstraint name fuel) rs ≠ none := by
  induction rs with
  | nil => exact ⟨0, nofun⟩
  | cons r rs ih =>
      obtain ⟨fuel, hfuel⟩ := h [] r rs rfl (List.forall_mem_nil _)
      obtain ⟨found, hr⟩ := Option.ne_none_iff_exists'.mp hfuel
      match found with
      | .error _ | .ok true => exact ⟨fuel, by rw [anyContains, hr]; exact nofun⟩
      | .ok false =>
          obtain ⟨more, hmore⟩ := ih fun before r' after heq hbefore =>
            h (r :: before) r' after (by rw [heq, List.cons_append])
              (List.forall_mem_cons.mpr ⟨silent_of_false hr, hbefore⟩)
          obtain ⟨x, hx⟩ := Option.ne_none_iff_exists'.mp hmore
          refine ⟨fuel + more, ?_⟩
          rw [anyContains, containConstraint_mono (Nat.le_add_right fuel more) hr]
          simp only
          rw [anyContains_mono (fun r x => containConstraint_mono (Nat.le_add_left more fuel)) hx]
          exact nofun

theorem containConstraint_ends [Finite R] (hacyclic : Acyclic g.Searches) (name : String) (r : R) :
    ∃ fuel, g.containConstraint name fuel r ≠ none := by
  refine hacyclic.induction (p := fun r => ∃ fuel, g.containConstraint name fuel r ≠ none) (fun r ih => ?_) r
  cases hs : g.specialConstraints r with
  | error e =>
      refine ⟨1, ?_⟩
      rw [containConstraint, ownConstraint, hs]
      split
      next => exact nofun
      next => exact nofun
      next h =>
        split at h <;> cases h
  | ok special =>
      obtain ⟨fuel, h⟩ := anyContains_ends (g.asked r) fun before r' after heq hbefore =>
        ih r' (.intro hs heq hbefore)
      refine ⟨fuel + 1, ?_⟩
      rw [containConstraint]
      split
      next => exact nofun
      next => exact nofun
      next => exact h

/-- No role requires a constraint of that name. -/
def Unused (g : RoleGraph K A R) (name : String) : Prop := ∀ r, g.ownConstraint name r ≠ .ok true

/-- The search for an unused name passes a role that lets it. -/
theorem false_of_silent {name : String} (hname : g.Unused name) {fuel : ℕ} :
    ∀ {r : R} {x}, g.Silent r → g.containConstraint name fuel r = some x → x = .ok false := by
  induction fuel with
  | zero => exact nofun
  | succ fuel ih =>
      rintro r x ⟨hown, hasked⟩ h
      rw [containConstraint] at h
      split at h
      next e herror =>
        rw [ownConstraint, hown] at herror
        split at herror <;> cases herror
      next htrue => exact absurd htrue (hname r)
      next =>
        generalize g.asked r = rs at h hasked
        induction rs with
        | nil => exact (Option.some.inj h).symm
        | cons r₁ rs ih' =>
            obtain ⟨h₁, hrs⟩ := List.forall_mem_cons.mp hasked
            rw [anyContains] at h
            split at h
            next => cases h
            next hr => exact absurd (ih h₁ hr) nofun
            next hr => exact absurd (ih h₁ hr) nofun
            next => exact ih' h hrs

/-- The search for an unused name comes to whatever it may come to, with less fuel. -/
theorem containConstraint_searches {name : String} (hname : g.Unused name) {fuel : ℕ} {r r' : R}
    (hr : g.Searches r r') (h : g.containConstraint name (fuel + 1) r ≠ none) :
    g.containConstraint name fuel r' ≠ none := by
  obtain ⟨hown, hasked, hbefore⟩ := hr
  rename_i special before after
  rw [containConstraint, hasked] at h
  split at h
  next e herror =>
    rw [ownConstraint, hown] at herror
    split at herror <;> cases herror
  next htrue => exact absurd htrue (hname r)
  next =>
    clear hasked
    induction before with
    | nil =>
        intro hnone
        rw [List.nil_append, anyContains, hnone] at h
        exact h rfl
    | cons x before ih =>
        obtain ⟨hx, hbefore⟩ := List.forall_mem_cons.mp hbefore
        rw [List.cons_append, anyContains] at h
        cases hr : g.containConstraint name fuel x with
        | none =>
            rw [hr] at h
            exact absurd rfl h
        | some y =>
            obtain rfl := false_of_silent hname hx hr
            rw [hr] at h
            exact ih hbefore h

theorem exists_unused [Finite R] (g : RoleGraph K A R) : ∃ name, g.Unused name := by
  cases nonempty_fintype R
  let used (r : R) : List String :=
    (g.role r).requiredAllConstraints ++ (g.role r).requiredAnyConstraints ++
      (g.specialConstraints r).toOption.getD []
  obtain ⟨name, hname⟩ :=
    Infinite.exists_notMem_finset ((Finset.univ : Finset R).toList.flatMap used).toFinset
  refine ⟨name, fun r h => ?_⟩
  have hr : name ∉ used r := fun h => hname (by simpa using ⟨r, h⟩)
  unfold ownConstraint at h
  split at h
  next hrequired => exact hr (List.mem_append_left _ (List.mem_append.mpr hrequired))
  next =>
    cases hs : g.specialConstraints r with
    | error e =>
        rw [hs] at h
        cases h
    | ok special =>
        rw [hs] at h
        have hmem : name ∈ special := of_decide_eq_true (Except.ok.inj h)
        exact hr (List.mem_append_right _ (by rwa [hs]))

/-- The search ends everywhere just where it comes back to no role. -/
theorem searches_iff [Finite R] (g : RoleGraph K A R) :
    (∀ r name, ∃ fuel, g.containConstraint name fuel r ≠ none) ↔ Acyclic g.Searches := by
  refine ⟨fun h => ?_, fun h r name => containConstraint_ends h name r⟩
  obtain ⟨name, hname⟩ := exists_unused g
  exact acyclic_of_fuel (fun _ => rfl) (fun _ _ _ => containConstraint_searches hname) fun r => h r name

end Search

/-! ### Keys and addresses -/

section Extraction
omit [DecidableEq K]

theorem extractEach_mono {get get' : R → Option (Except Unit (List X))}
    (h : ∀ r x, get r = some x → get' r = some x) {rs : List R} :
    ∀ {x}, extractEach get rs = some x → extractEach get' rs = some x := by
  induction rs with
  | nil => exact id
  | cons r rs ih =>
      intro x hx
      rw [extractEach] at hx ⊢
      cases hr : get r with
      | none =>
          rw [hr] at hx
          cases hx
      | some y =>
          rw [hr] at hx
          rw [h r y hr]
          cases y with
          | error e => exact hx
          | ok xs =>
              obtain ⟨rest, hrest, rfl⟩ := Option.map_eq_some_iff.mp hx
              exact Option.map_eq_some_iff.mpr ⟨rest, ih hrest, rfl⟩

theorem extract_succ {own : List K → List A → List X} {fuel : ℕ} :
    ∀ {r : R} {x}, g.extract own fuel r = some x → g.extract own (fuel + 1) r = some x := by
  induction fuel with
  | zero => exact nofun
  | succ fuel ih =>
      intro r x h
      rw [extract] at h ⊢
      cases hk : (g.role r).kind with
      | simple keys addresses =>
          rw [hk] at h
          exact h
      | link roleName =>
          rw [hk] at h
          cases ht : g.resolve true r with
          | role r' =>
              simp only [ht] at h ⊢
              exact ih h
          | missing | other | thrown =>
              simp only [ht] at h ⊢
              exact h
      | list mode roles =>
          rw [hk] at h
          exact extractEach_mono (fun _ _ => ih) h
      | vote answer special =>
          rw [hk] at h
          exact h

theorem extract_mono {own : List K → List A → List X} {fuel more : ℕ} (hle : fuel ≤ more) {r : R} {x}
    (h : g.extract own fuel r = some x) : g.extract own more r = some x := by
  induction hle with
  | refl => exact h
  | step _ ih => exact extract_succ ih

/-- What is extracted from each is some list just where that holds of each of them. -/
theorem extractEach_ok_iff {get : R → Option (Except Unit (List X))}
    (h : ∀ r x, get r = some x → ((∃ xs, x = .ok xs) ↔ g.Extractable r)) {rs : List R} :
    ∀ {x}, extractEach get rs = some x → ((∃ xs, x = .ok xs) ↔ ∀ r ∈ rs, g.Extractable r) := by
  induction rs with
  | nil =>
      intro x hx
      exact iff_of_true ⟨[], (Option.some.inj hx).symm⟩ (List.forall_mem_nil _)
  | cons r rs ih =>
      intro x hx
      rw [extractEach] at hx
      rw [List.forall_mem_cons]
      cases hr : get r with
      | none =>
          rw [hr] at hx
          cases hx
      | some y =>
          rw [hr] at hx
          have hiff := h r y hr
          cases y with
          | error e =>
              obtain rfl := Option.some.inj hx
              exact iff_of_false (by simp) fun hall => absurd (hiff.mpr hall.1) (by simp)
          | ok xs =>
              obtain ⟨rest, hrest, rfl⟩ := Option.map_eq_some_iff.mp hx
              rw [← ih hrest, and_iff_right (hiff.mp ⟨xs, rfl⟩)]
              cases rest <;> simp [Except.map]

/-- An extraction that returns is of a role from which no link is reached that throws. -/
theorem extract_ok_iff {own : List K → List A → List X} {fuel : ℕ} :
    ∀ {r : R} {x}, g.extract own fuel r = some x → ((∃ xs, x = .ok xs) ↔ g.Extractable r) := by
  induction fuel with
  | zero => exact nofun
  | succ fuel ih =>
      intro r x h
      rw [extract] at h
      cases hk : (g.role r).kind with
      | simple keys addresses =>
          rw [hk] at h
          exact iff_of_true ⟨_, (Option.some.inj h).symm⟩ (.simple hk)
      | vote answer special =>
          rw [hk] at h
          exact iff_of_true ⟨_, (Option.some.inj h).symm⟩ (.vote hk)
      | list mode roles =>
          rw [hk] at h
          refine (extractEach_ok_iff (fun _ _ => ih) h).trans ⟨.list hk, fun hr => ?_⟩
          cases hr with
          | list hk' hall =>
              obtain ⟨-, rfl⟩ := RoleKind.list.inj (hk.symm.trans hk')
              exact hall
          | simple hk' | vote hk' | nowhere hk' | link hk' => exact absurd (hk.symm.trans hk') nofun
      | link roleName =>
          rw [hk] at h
          cases ht : g.resolve true r with
          | role r' =>
              simp only [ht] at h
              refine (ih h).trans ⟨.link hk ht, fun hr => ?_⟩
              cases hr with
              | link _ ht' h' => exact Target.role.inj (ht.symm.trans ht') ▸ h'
              | nowhere _ ht' => simp [ht] at ht'
              | simple hk' | vote hk' | list hk' => exact absurd (hk.symm.trans hk') nofun
          | missing =>
              simp only [ht] at h
              exact iff_of_true ⟨_, (Option.some.inj h).symm⟩ (.nowhere hk (.inl ht))
          | other =>
              simp only [ht] at h
              exact iff_of_true ⟨_, (Option.some.inj h).symm⟩ (.nowhere hk (.inr ht))
          | thrown =>
              simp only [ht] at h
              obtain rfl := Option.some.inj h
              refine iff_of_false (by simp) fun hr => ?_
              cases hr with
              | link _ ht' => exact absurd (ht.symm.trans ht') nofun
              | nowhere _ ht' => simp [ht] at ht'
              | simple hk' | vote hk' | list hk' => exact absurd (hk.symm.trans hk') nofun

/-- The loop over sub-roles ends where each extraction it comes to does. -/
theorem extractEach_ends {own : List K → List A → List X} (rs : List R)
    (h : ∀ before r after, rs = before ++ r :: after → (∀ x ∈ before, g.Extractable x) →
      ∃ fuel, g.extract own fuel r ≠ none) :
    ∃ fuel, extractEach (g.extract own fuel) rs ≠ none := by
  induction rs with
  | nil => exact ⟨0, nofun⟩
  | cons r rs ih =>
      obtain ⟨fuel, hfuel⟩ := h [] r rs rfl (List.forall_mem_nil _)
      obtain ⟨x, hr⟩ := Option.ne_none_iff_exists'.mp hfuel
      cases x with
      | error e => exact ⟨fuel, by rw [extractEach, hr]; exact nofun⟩
      | ok xs =>
          obtain ⟨more, hmore⟩ := ih fun before r' after heq hbefore =>
            h (r :: before) r' after (by rw [heq, List.cons_append])
              (List.forall_mem_cons.mpr ⟨(extract_ok_iff hr).mp ⟨xs, rfl⟩, hbefore⟩)
          obtain ⟨rest, hrest⟩ := Option.ne_none_iff_exists'.mp hmore
          refine ⟨fuel + more, ?_⟩
          rw [extractEach, extract_mono (Nat.le_add_right fuel more) hr]
          simp only
          rw [extractEach_mono (fun r x => extract_mono (Nat.le_add_left more fuel)) hrest]
          exact nofun

theorem extract_ends [Finite R] (hacyclic : Acyclic g.Extracts) (own : List K → List A → List X) (r : R) :
    ∃ fuel, g.extract own fuel r ≠ none := by
  refine hacyclic.induction (p := fun r => ∃ fuel, g.extract own fuel r ≠ none) (fun r ih => ?_) r
  cases hk : (g.role r).kind with
  | simple keys addresses => exact ⟨1, by rw [extract, hk]; exact nofun⟩
  | vote answer special => exact ⟨1, by rw [extract, hk]; exact nofun⟩
  | list mode roles =>
      obtain ⟨fuel, h⟩ := extractEach_ends roles fun before r' after heq hbefore =>
        ih r' (.list (hk.trans (congrArg _ heq)) hbefore)
      exact ⟨fuel + 1, by rw [extract, hk]; exact h⟩
  | link roleName =>
      cases ht : g.resolve true r with
      | role r' =>
          obtain ⟨fuel, h⟩ := ih r' (.link hk ht)
          exact ⟨fuel + 1, by rw [extract, hk]; simpa only [ht] using h⟩
      | missing | other | thrown => exact ⟨1, by rw [extract, hk]; simp [ht]⟩

/-- An extraction comes to whatever it may come to, with less fuel. -/
theorem extract_extracts {own : List K → List A → List X} {fuel : ℕ} {r r' : R} (hr : g.Extracts r r')
    (h : g.extract own (fuel + 1) r ≠ none) : g.extract own fuel r' ≠ none := by
  rw [extract] at h
  cases hr with
  | link hk ht => simpa only [hk, ht] using h
  | @list mode before after hk hbefore =>
      rw [hk] at h
      clear hk
      simp only at h
      induction before with
      | nil =>
          intro hnone
          rw [List.nil_append, extractEach, hnone] at h
          exact h rfl
      | cons x before ih =>
          obtain ⟨hx, hbefore⟩ := List.forall_mem_cons.mp hbefore
          refine ih (fun hnone => h ?_) hbefore
          rw [List.cons_append, extractEach]
          cases hr : g.extract own fuel x with
          | none => rfl
          | some y =>
              obtain ⟨xs, rfl⟩ := (extract_ok_iff hr).mpr hx
              simp only
              rw [hnone, Option.map_none]

/-- An extraction ends everywhere just where it comes back to no role. -/
theorem extracts_iff [Finite R] (g : RoleGraph K A R) (own : List K → List A → List X) :
    (∀ r, ∃ fuel, g.extract own fuel r ≠ none) ↔ Acyclic g.Extracts :=
  ⟨acyclic_of_fuel (fun _ => rfl) fun _ _ _ => extract_extracts, fun h r => extract_ends h own r⟩

end Extraction

/-! ### Evaluation -/

/-- The loop over sub-roles is not at an end yet, and what it may still come to has the property. -/
def Ahead (g : RoleGraph K A R) (given : List K) (enough : ℕ → Bool) (p : R → Prop) (valid : ℕ) (rs : List R) : Prop :=
  ¬ stops enough valid ∧ ∀ before r after, rs = before ++ r :: after → (∀ x ∈ before, g.Evaluable given x) →
    ¬ ChosenFrom (g.Granted given) (stops enough) valid before → p r

section Loop
variable {given : List K} {enough : ℕ → Bool} {p : R → Prop} {valid : ℕ} {rs : List R}
omit [DecidableEq K]

theorem not_chosenFrom_nil (h : ¬ stops enough valid) : ¬ ChosenFrom (g.Granted given) (stops enough) valid [] := by
  rintro ⟨chosen, hsub, -, hst⟩
  rw [List.sublist_nil.mp hsub] at hst
  exact h hst

theorem Ahead.head (h : g.Ahead given enough p valid (r :: rs)) : p r :=
  h.2 [] r rs rfl (List.forall_mem_nil _) (not_chosenFrom_nil h.1)

/-- Past a sub-role that does not end the loop. -/
theorem Ahead.tail (hmono : ∀ a b, a ≤ b → enough a = true → enough b = true) (hev : g.Evaluable given r) {b : Bool}
    (hb : b = true ↔ g.Granted given r) (hgo : ¬ (b = true ∧ enough (valid + 1) = true))
    (h : g.Ahead given enough p valid (r :: rs)) :
    g.Ahead given enough p (if b = true then valid + 1 else valid) rs := by
  refine ⟨?_, fun before r' after heq hbefore hnot => ?_⟩
  · split
    next htrue => exact fun hst => hgo ⟨htrue, hst.2⟩
    next => exact h.1
  · exact h.2 (r :: before) r' after (by rw [heq, List.cons_append]) (List.forall_mem_cons.mpr ⟨hev, hbefore⟩)
      fun hd => hnot ((chosenFrom_cons (stops_mono hmono) hb).mp hd)

/-- A list may come to what it evaluates. -/
theorem ahead_of_evaluates {mode : ListRoleMode} {roles : List R} (hc : g.Passes r)
    (hk : (g.role r).kind = .list mode roles) (h : ∀ r', g.Evaluates given r r' → p r') :
    g.Ahead given (reached mode roles.length) p 0 roles := by
  refine ⟨fun hst => absurd hst.1 (lt_irrefl 0), fun before r' after heq hbefore hnot => ?_⟩
  refine h r' (.list hc (hk.trans (congrArg _ heq)) hbefore fun hd => hnot (chosenFrom_stops.mpr ?_))
  rwa [heq]

end Loop

/-- The loop over sub-roles ends where each evaluation it comes to does: an invariant says which these are. -/
theorem anyReached_ends {source : KeySource K S} {enough : ℕ → Bool} (inv : ℕ → List R → S → Prop)
    (hends : ∀ {valid r rs s}, inv valid (r :: rs) s → ∃ fuel, g.isAllowedForKeys source fuel r s ≠ none)
    (hgo : ∀ {valid r rs s fuel b s'}, inv valid (r :: rs) s →
      g.isAllowedForKeys source fuel r s = some (.ok (b, s')) → ¬ (b = true ∧ enough (valid + 1) = true) →
        inv (if b = true then valid + 1 else valid) rs s') {rs : List R} :
    ∀ {valid s}, inv valid rs s → ∃ fuel, anyReached (g.isAllowedForKeys source fuel) enough valid rs s ≠ none := by
  induction rs with
  | nil => exact fun _ => ⟨0, Option.some_ne_none _⟩
  | cons r rs ih =>
      intro valid s hinv
      obtain ⟨fuel, hfuel⟩ := hends hinv
      obtain ⟨answer, hr⟩ := Option.ne_none_iff_exists'.mp hfuel
      rcases answer with e | ⟨b, s'⟩
      · exact ⟨fuel, by rw [anyReached, hr]; exact Option.some_ne_none _⟩
      by_cases hstop : b = true ∧ enough (valid + 1) = true
      · exact ⟨fuel, by rw [anyReached_cons hr, if_pos hstop]; exact Option.some_ne_none _⟩
      obtain ⟨more, hmore⟩ := ih (hgo hinv hr hstop)
      obtain ⟨y, hy⟩ := Option.ne_none_iff_exists'.mp hmore
      refine ⟨fuel + more, ?_⟩
      rw [anyReached_cons (isAllowedForKeys_mono (Nat.le_add_right fuel more) hr), if_neg hstop,
        anyReached_mono (fun r s x => isAllowedForKeys_mono (Nat.le_add_left more fuel)) hy]
      exact Option.some_ne_none _

/-- An evaluation ends where those that it comes to end: of the role a link resolves to, and of sub-roles in turn. -/
theorem isAllowedForKeys_ends {source : KeySource K S} {s : S}
    (hlink : ∀ {roleName r'}, g.Passes r → (g.role r).kind = .link roleName → g.Resolves r r' →
      ∃ fuel, g.isAllowedForKeys source fuel r' s ≠ none)
    (hlist : ∀ {mode roles}, g.Passes r → (g.role r).kind = .list mode roles →
      ∃ fuel, anyReached (g.isAllowedForKeys source fuel) (reached mode roles.length) 0 roles s ≠ none) :
    ∃ fuel, g.isAllowedForKeys source fuel r s ≠ none := by
  by_cases hc : g.isAllowedForConstraints r = true
  swap
  · exact ⟨1, by rw [isAllowedForKeys, if_pos (by simpa using hc)]; exact Option.some_ne_none _⟩
  have hskip : ¬ (!g.isAllowedForConstraints r) = true := by simpa using hc
  have hc := isAllowedForConstraints_iff.mp hc
  cases hk : (g.role r).kind with
  | simple keys addresses => exact ⟨1, by rw [isAllowedForKeys, if_neg hskip, hk]; exact Option.some_ne_none _⟩
  | vote answer special => exact ⟨1, by rw [isAllowedForKeys, if_neg hskip, hk]; exact Option.some_ne_none _⟩
  | list mode roles =>
      obtain ⟨fuel, h⟩ := hlist hc hk
      exact ⟨fuel + 1, by rw [isAllowedForKeys, if_neg hskip, hk]; exact h⟩
  | link roleName =>
      cases ht : g.resolve false r with
      | role r' =>
          obtain ⟨fuel, h⟩ := hlink hc hk ht
          exact ⟨fuel + 1, by rw [isAllowedForKeys, if_neg hskip, hk]; simpa only [ht] using h⟩
      | missing | other | thrown => exact ⟨1, by rw [isAllowedForKeys, if_neg hskip, hk]; simp [ht]⟩

/-- Over a set of keys the evaluation ends where it comes back to no role. -/
theorem isAllowedForKeys_ends_collection [Finite R] {given : List K} (hacyclic : Acyclic (g.Evaluates given)) (r : R) :
    ∃ fuel, g.isAllowedForKeys .collection fuel r given ≠ none := by
  let Ending (r : R) : Prop := ∃ fuel, g.isAllowedForKeys .collection fuel r given ≠ none
  refine hacyclic.induction (p := Ending) (fun r ih => ?_) r
  refine isAllowedForKeys_ends (fun hc hk ht => ih _ (.link hc hk ht)) fun hc hk => ?_
  refine anyReached_ends (fun valid rs s => s = given ∧ g.Ahead given _ Ending valid rs) ?_ ?_
    ⟨rfl, ahead_of_evaluates hc hk ih⟩
  · rintro valid r' rs s ⟨rfl, hahead⟩
    exact hahead.head
  · rintro valid r' rs s fuel b s' ⟨rfl, hahead⟩ hr hgo
    obtain ⟨rfl, hev, hb⟩ := isAllowedForKeys_right g s fuel r' b s' hr
    exact ⟨rfl, hahead.tail (fun _ _ => reached_mono) hev hb hgo⟩

omit [DecidableEq K] in
/-- As long as nothing is taken of an iterator, it answers as a set of no keys. -/
theorem iterator_untouched (keys : List K) : Simulates (KeySource.iterator : KeySource K (List K)) .collection
    (fun s t => s = keys ∧ t = []) (fun s => s.length < keys.length) where
  stays p s h := by
    have htail : ((s.dropWhile fun k => !p k).tail).length ≤ s.length := by
      rw [List.length_tail]
      exact (Nat.sub_le _ _).trans (List.dropWhile_sublist _).length_le
    exact htail.trans_lt h
  find p s t h := by
    obtain ⟨rfl, rfl⟩ := h
    cases s with
    | nil => exact .inr ⟨rfl, rfl, rfl⟩
    | cons k ks =>
        refine .inl ?_
        have hle := (List.dropWhile_sublist (p := fun k => !p k) (l := k :: ks)).length_le
        show ((List.dropWhile (fun k => !p k) (k :: ks)).tail).length < _
        rw [List.length_tail]
        rw [List.length_cons] at hle ⊢
        omega

/-- Over an iterator the evaluation ends as well: it takes keys only so often, and else goes as over no keys. -/
theorem isAllowedForKeys_ends_iterator [Finite R] (hacyclic : Acyclic (g.Evaluates ([] : List K))) (keys : List K) :
    ∀ r, ∃ fuel, g.isAllowedForKeys .iterator fuel r keys ≠ none := by
  induction hn : keys.length using Nat.strong_induction_on generalizing keys with
  | _ n ihn =>
  subst hn
  let Ending (r : R) : Prop := ∃ fuel, g.isAllowedForKeys .iterator fuel r keys ≠ none
  refine fun r => hacyclic.induction (p := Ending) (fun r ih => ?_) r
  refine isAllowedForKeys_ends (fun hc hk ht => ih _ (.link hc hk ht)) fun hc hk => ?_
  -- from here on there are fewer keys, or the loop is where a set of no keys would be
  refine anyReached_ends (fun valid rs s => s.length < keys.length ∨ s = keys ∧ g.Ahead [] _ Ending valid rs) ?_ ?_
    (.inr ⟨rfl, ahead_of_evaluates hc hk ih⟩)
  · rintro valid r' rs s (hshort | ⟨rfl, hahead⟩)
    · exact ihn s.length hshort s rfl r'
    · exact hahead.head
  · rintro valid r' rs s fuel b s' hinv hr hgo
    obtain ⟨hbad, hsame⟩ := isAllowedForKeys_follows (iterator_untouched keys) fuel r' s [] b s' hr
    rcases hinv with hshort | ⟨rfl, hahead⟩
    · exact .inl (hbad hshort)
    by_cases hshort : s'.length < s.length
    · exact .inl hshort
    obtain ⟨t', ht', rfl, -⟩ := hsame ⟨rfl, rfl⟩ hshort
    obtain ⟨-, hev, hb⟩ := isAllowedForKeys_right g [] fuel r' b t' ht'
    exact .inr ⟨rfl, hahead.tail (fun _ _ => reached_mono) hev hb hgo⟩

/-- The evaluation of a role that can be evaluated answers whether it is granted. -/
theorem answer_of_evaluable {given : List K} (hev : g.Evaluable given r) {fuel : ℕ} {x}
    (h : g.isAllowedForKeys .collection fuel r given = some x) :
    ∃ b, x = .ok (b, given) ∧ (b = true ↔ g.Granted given r) := by
  obtain ⟨more, b, hmore⟩ := isAllowedForKeys_returns hev
  obtain rfl := Option.some.inj ((isAllowedForKeys_mono (Nat.le_add_right fuel more) h).symm.trans
    (isAllowedForKeys_mono (Nat.le_add_left more fuel) hmore))
  exact ⟨b, rfl, (isAllowedForKeys_right g given more r b given hmore).2.2⟩

/-- The loop comes to a sub-role if those before can be evaluated and do not end it. -/
theorem anyReached_asks {given : List K} {enough : ℕ → Bool}
    (hmono : ∀ a b, a ≤ b → enough a = true → enough b = true) {fuel : ℕ} {before after : List R} :
    ∀ {valid}, (∀ x ∈ before, g.Evaluable given x) →
      ¬ ChosenFrom (g.Granted given) (stops enough) valid before →
      anyReached (g.isAllowedForKeys .collection fuel) enough valid (before ++ r' :: after) given ≠ none →
      g.isAllowedForKeys .collection fuel r' given ≠ none := by
  induction before with
  | nil =>
      intro valid _ _ h hnone
      rw [List.nil_append, anyReached, hnone] at h
      exact h rfl
  | cons x before ih =>
      intro valid hbefore hnot h
      obtain ⟨hx, hbefore⟩ := List.forall_mem_cons.mp hbefore
      rw [List.cons_append] at h
      cases hr : g.isAllowedForKeys .collection fuel x given with
      | none =>
          rw [anyReached, hr] at h
          exact absurd rfl h
      | some y =>
          obtain ⟨b, rfl, hb⟩ := answer_of_evaluable hx hr
          rw [chosenFrom_cons (stops_mono hmono) hb] at hnot
          rw [anyReached_cons hr, if_neg] at h
          · exact ih hbefore hnot h
          · rintro ⟨htrue, henough⟩
            rw [if_pos htrue] at hnot
            exact hnot (chosenFrom_of_fits ⟨Nat.succ_pos valid, henough⟩ before)

/-- An evaluation comes to whatever it may come to, with less fuel. -/
theorem isAllowedForKeys_evaluates {given : List K} {fuel : ℕ} (hr : g.Evaluates given r r')
    (h : g.isAllowedForKeys .collection (fuel + 1) r given ≠ none) :
    g.isAllowedForKeys .collection fuel r' given ≠ none := by
  cases hr with
  | link hc hk ht =>
      have hc := isAllowedForConstraints_iff.mpr hc
      have ht : g.resolve false r = .role r' := ht
      rw [isAllowedForKeys, if_neg (by simpa using hc), hk] at h
      simpa only [ht] using h
  | list hc hk hbefore hnot =>
      have hc := isAllowedForConstraints_iff.mpr hc
      rw [isAllowedForKeys, if_neg (by simpa using hc), hk] at h
      exact anyReached_asks (fun _ _ => reached_mono) hbefore (fun hd => hnot (chosenFrom_stops.mp hd)) h

/-- The evaluation ends everywhere and for all keys just where it comes back to no role. -/
theorem evaluates_iff [Finite R] (g : RoleGraph K A R) :
    (∀ r keys, (∃ fuel, g.isAllowedForKeys .collection fuel r keys ≠ none) ∧
      ∃ fuel, g.isAllowedForKeys .iterator fuel r keys ≠ none) ↔ ∀ given, Acyclic (g.Evaluates given) := by
  refine ⟨fun h given => ?_, fun h r keys =>
    ⟨isAllowedForKeys_ends_collection (h keys) r, isAllowedForKeys_ends_iterator (h []) keys r⟩⟩
  exact acyclic_of_fuel (fun _ => rfl) (fun _ _ _ => isAllowedForKeys_evaluates) fun r => (h r given).1

/-! ### The main result -/

/-- CODE DEFECT (termination): the operations end on every role of a finite graph exactly where none of them comes
    back to a role. -/
theorem roles_end_iff [Finite R] (g : RoleGraph K A R) : (∀ r, g.Ends r) ↔ g.NoCycle := by
  constructor
  · intro h
    exact ⟨(searches_iff g).mp fun r => (h r).constraint, (extracts_iff g _).mp fun r => (h r).keys,
      (evaluates_iff g).mp fun r keys => ⟨(h r).allowed keys, (h r).allowedOnce keys⟩⟩
  · intro h r
    have hevaluates := (evaluates_iff g).mpr h.evaluates r
    exact ⟨fun keys => (hevaluates keys).1, fun keys => (hevaluates keys).2, (searches_iff g).mpr h.searches r,
      (extracts_iff g _).mpr h.extracts r, (extracts_iff g _).mpr h.extracts r⟩

/-- A list of a link to the list itself, where the link has no contract. -/
def brokenCycle : RoleGraph Bool Unit Bool where
  role
    | true => ⟨true, [], [], .list .ANY [false]⟩
    | false => ⟨false, [], [], .link "owner"⟩
  roles name := if name = "owner" then some true else none
  stateRoles _ := none
  validRoleConstraints := []
  isMatch _ _ := false

/-- The link answers no or throws, so nothing goes round. -/
theorem roles_end_brokenCycle : brokenCycle.Ends true := by
  have hedge : ∀ edge : Bool → Bool → Prop, (∀ r r', edge r r' → r = true ∧ r' = false) → Acyclic edge := by
    refine fun edge h => acyclic_of_rank (fun r => if r then 1 else 0) fun a b hab => ?_
    obtain ⟨rfl, rfl⟩ := h a b hab
    exact Nat.zero_lt_one
  have hlist : ∀ {r r' : Bool} {mode before after},
      (brokenCycle.role r).kind = .list mode (before ++ r' :: after) → r = true ∧ r' = false := by
    intro r r' mode before after hk
    cases r with
    | false => cases hk
    | true =>
        have hmem : r' ∈ before ++ r' :: after := List.mem_append_right before List.mem_cons_self
        rw [← (RoleKind.list.inj hk).2] at hmem
        exact ⟨rfl, List.mem_singleton.mp hmem⟩
  have hlink : ∀ {r r' : Bool} {ignoreConstrs name}, (brokenCycle.role r).kind = .link name →
      brokenCycle.resolve ignoreConstrs r ≠ .role r' := by
    intro r r' ignoreConstrs name hk
    cases r with
    | true => cases hk
    | false => cases ignoreConstrs <;> exact nofun
  refine (roles_end_iff brokenCycle).mpr ⟨hedge _ fun r r' h => ?_, hedge _ fun r r' h => ?_, fun given =>
    hedge _ fun r r' h => ?_⟩ true
  · obtain ⟨-, hasked, -⟩ := h
    rename_i before after
    have hmem : r' ∈ before ++ r' :: after := List.mem_append_right before List.mem_cons_self
    rw [← hasked] at hmem
    cases r with
    | false => cases hmem
    | true => exact ⟨rfl, List.mem_singleton.mp hmem⟩
  · cases h with
    | link hk ht => exact absurd ht (hlink hk)
    | list hk => exact hlist hk
  · cases h with
    | link _ hk ht => exact absurd ht (hlink hk)
    | list _ hk => exact hlist hk

/-- A list that holds itself, and a link to it with a constraint that holds. -/
def selfRoles : RoleGraph Bool Unit Bool where
  role
    | true => ⟨true, [], [], .list .ANY [true]⟩
    | false => ⟨true, ["c"], [], .link "owner"⟩
  roles name := if name = "owner" then some true else none
  stateRoles _ := none
  validRoleConstraints := ["c"]
  isMatch _ _ := false

/-- No search in the list and no evaluation of the link comes to an end. -/
theorem roles_not_end :
    (∀ fuel, selfRoles.extractKeys fuel true = none) ∧
    (∀ fuel, selfRoles.containConstraint "other" fuel true = none) ∧
    ∀ fuel keys, selfRoles.isAllowedForKeys .collection fuel false keys = none := by
  refine ⟨fun fuel => ?_, fun fuel => ?_, fun fuel keys => ?_⟩
  · induction fuel with
    | zero => rfl
    | succ fuel ih =>
        change extractEach (selfRoles.extractKeys fuel) [true] = none
        rw [extractEach, ih]
  · induction fuel with
    | zero => rfl
    | succ fuel ih =>
        change anyContains (selfRoles.containConstraint "other" fuel) [true] = none
        rw [anyContains, ih]
  · induction fuel with
    | zero => rfl
    | succ fuel ih => exact ih

end RoleGraph
end Universa.Contracts
