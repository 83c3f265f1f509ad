import Mathlib.Algebra.Order.Ring.Rat
import Universa.Contracts.Roles

/-! What a role tree says, and when its evaluation says it. A link that requires constraints stops at
    itself when it resolves, so evaluation that reaches one whose constraints hold never returns; a role
    without a contract is denied where it requires constraints, and throws where it is a link; and an
    iterator of keys is used up by the first reading. -/

namespace Universa.Contracts
open Universa.Js

namespace RoleGraph
variable {K A R S : Type}

/-! ### The meaning of a role tree -/

/-- The constraints that a role requires are among the valid ones. -/
def ConstraintsHold (g : RoleGraph K A R) (r : R) : Prop :=
  (∀ c ∈ (g.role r).requiredAllConstraints, c ∈ g.validRoleConstraints) ∧
    ((g.role r).requiredAnyConstraints = [] ∨
      ∃ c ∈ (g.role r).requiredAnyConstraints, c ∈ g.validRoleConstraints)

/-- The link is to that role. -/
def Linked (g : RoleGraph K A R) (r r' : R) : Prop :=
  ∃ roleName, (g.role r).kind = .link roleName ∧ g.named roleName = .role r'

/-- A role is allowed for the keys, by what constraints hold and where links lead: its constraints hold, and all its
    keys and addresses are matched, or enough of its sub-roles are allowed, or the role it links to is, or it is
    voted for. -/
inductive AllowedIf (g : RoleGraph K A R) (holds : R → Prop) (leads : R → R → Prop) (given : List K) : R → Prop where
  | simple {r : R} {keys : List K} {addresses : List A} (hc : holds r)
      (hk : (g.role r).kind = .simple keys addresses) (hkeys : ∀ k ∈ keys, k ∈ given)
      (haddresses : ∀ a ∈ addresses, ∃ k ∈ given, g.isMatch a k = true) : AllowedIf g holds leads given r
  | list {r : R} {mode : ListRoleMode} {roles : List R} (hc : holds r)
      (hk : (g.role r).kind = .list mode roles) (chosen : List R) (hsub : chosen.Sublist roles)
      (hall : ∀ c ∈ chosen, AllowedIf g holds leads given c)
      (henough : reached mode roles.length chosen.length = true) : AllowedIf g holds leads given r
  | link {r r' : R} {roleName : String} (hc : holds r) (hk : (g.role r).kind = .link roleName) (hlead : leads r r')
      (h : AllowedIf g holds leads given r') : AllowedIf g holds leads given r
  | vote {r : R} {answer : Except Unit Bool} {special : Except Unit (List String)} (hc : holds r)
      (hk : (g.role r).kind = .vote answer special) (h : g.voted r answer special = .ok true) :
      AllowedIf g holds leads given r

/-- The role is allowed for the keys. -/
def Allowed (g : RoleGraph K A R) : List K → R → Prop := g.AllowedIf g.ConstraintsHold g.Linked

/-- The constraints of the role hold, and where it has no contract it requires none. -/
def Passes (g : RoleGraph K A R) (r : R) : Prop :=
  g.ConstraintsHold r ∧ ((g.role r).hasContract = true ∨ g.unconstrained r = true)

/-- The role is allowed without any role that requires constraints and has no contract. -/
def AllowedWithout (g : RoleGraph K A R) : List K → R → Prop := g.AllowedIf g.Passes g.Linked

/-- The link resolves to that role. -/
def Resolves (g : RoleGraph K A R) (r r' : R) : Prop := g.resolve false r = .role r'

/-- The role is allowed without any role that requires constraints and has no contract, along resolved links. -/
def Granted (g : RoleGraph K A R) : List K → R → Prop := g.AllowedIf g.Passes g.Resolves

/-- A chain of links, each to a role, of that length. -/
def LinkChain (g : RoleGraph K A R) : ℕ → R → Prop
  | 0, _ => True
  | n + 1, r => ∃ roleName, (g.role r).kind = .link roleName ∧
      (n = 0 ∨ ∃ r', g.named roleName = .role r' ∧ LinkChain g n r')

/-- Roles of the three classes, with chains of links shorter than 40. -/
structure Tree (K A R : Type) extends RoleGraph K A R where
  shortChains : ∀ r, ¬ toRoleGraph.LinkChain 40 r
  noVotes : ∀ r answer special, (toRoleGraph.role r).kind ≠ .vote answer special

/-- The sub-roles before one already decide the list: some are granted, and they are enough. -/
def Decided (g : RoleGraph K A R) (given : List K) (enough : ℕ → Bool) (before : List R) : Prop :=
  ∃ chosen : List R, chosen.Sublist before ∧ chosen ≠ [] ∧ (∀ c ∈ chosen, g.Granted given c) ∧
    enough chosen.length = true

/-- Evaluation reaches no link whose own constraints hold, no link that requires nothing and has no contract, and
    no name that only `Object.prototype` has: a role is denied by its constraints, or is simple, or is voted on, or
    is a link that resolves to such a role or to none, or each sub-role that is looked at is such a role. -/
inductive Evaluable (g : RoleGraph K A R) (given : List K) : R → Prop where
  | denied {r : R} (h : ¬ g.Passes r) : Evaluable g given r
  | simple {r : R} {keys : List K} {addresses : List A}
      (hk : (g.role r).kind = .simple keys addresses) : Evaluable g given r
  | missing {r : R} {roleName : String} (hk : (g.role r).kind = .link roleName)
      (hm : g.resolve false r = .missing) : Evaluable g given r
  | link {r r' : R} {roleName : String} (hk : (g.role r).kind = .link roleName)
      (hlead : g.Resolves r r') (h : Evaluable g given r') : Evaluable g given r
  | list {r : R} {mode : ListRoleMode} {roles : List R}
      (hk : (g.role r).kind = .list mode roles)
      (h : ∀ before r' after, roles = before ++ r' :: after →
        ¬ g.Decided given (reached mode roles.length) before → Evaluable g given r') :
      Evaluable g given r
  | vote {r : R} {answer : Except Unit Bool} {special : Except Unit (List String)} {b : Bool}
      (hk : (g.role r).kind = .vote answer special) (h : g.voted r answer special = .ok b) : Evaluable g given r

/-! ### Constraints and links -/

variable {g : RoleGraph K A R} {holds : R → Prop} {leads : R → R → Prop} {given : List K} {r r' : R}

theorem unconstrained_iff : g.unconstrained r = true ↔
    (g.role r).requiredAllConstraints = [] ∧ (g.role r).requiredAnyConstraints = [] := by
  simp [unconstrained]

theorem unconstrained_holds (h : g.unconstrained r = true) : g.ConstraintsHold r := by
  obtain ⟨hall, hany⟩ := unconstrained_iff.mp h
  exact ⟨by simp [hall], .inl hany⟩

theorem unconstrained_passes (h : g.unconstrained r = true) : g.Passes r := ⟨unconstrained_holds h, .inr h⟩

/-- Without a contract no constraint is valid, so a role passes that requires none. -/
theorem isAllowedForConstraints_iff : g.isAllowedForConstraints r = true ↔ g.Passes r := by
  unfold isAllowedForConstraints constraintsFor Passes
  cases (g.role r).hasContract with
  | true => simp [ConstraintsHold]
  | false =>
      have hnone : (((g.role r).requiredAllConstraints.all fun c => decide (c ∈ ([] : List String))) &&
          ((g.role r).requiredAnyConstraints.isEmpty ||
            (g.role r).requiredAnyConstraints.any fun c => decide (c ∈ ([] : List String)))) =
          g.unconstrained r := by
        unfold unconstrained
        cases (g.role r).requiredAllConstraints <;> cases (g.role r).requiredAnyConstraints <;> simp
      simp only [Bool.false_eq_true, if_false, false_or]
      exact ⟨fun h => ⟨unconstrained_holds (hnone ▸ h), hnone ▸ h⟩, fun h => hnone ▸ h.2⟩

theorem AllowedIf.constraints (h : g.AllowedIf holds leads given r) : holds r := by
  cases h with
  | simple hc | list hc | link hc | vote hc => exact hc

theorem allowedIf_simple {keys : List K} {addresses : List A} (hc : holds r)
    (hk : (g.role r).kind = .simple keys addresses) : g.AllowedIf holds leads given r ↔
      (∀ k ∈ keys, k ∈ given) ∧ ∀ a ∈ addresses, ∃ k ∈ given, g.isMatch a k = true := by
  refine ⟨fun h => ?_, fun h => .simple hc hk h.1 h.2⟩
  cases h with
  | simple _ hk' hkeys haddresses =>
      obtain ⟨rfl, rfl⟩ := RoleKind.simple.inj (hk.symm.trans hk')
      exact ⟨hkeys, haddresses⟩
  | list _ hk' | link _ hk' | vote _ hk' => exact absurd (hk.symm.trans hk') nofun

theorem allowedIf_link {roleName : String} (hc : holds r) (hk : (g.role r).kind = .link roleName) :
    g.AllowedIf holds leads given r ↔ ∃ r', leads r r' ∧ g.AllowedIf holds leads given r' := by
  refine ⟨fun h => ?_, fun ⟨r', hlead, h⟩ => .link hc hk hlead h⟩
  cases h with
  | link _ _ hlead h => exact ⟨_, hlead, h⟩
  | simple _ hk' | list _ hk' | vote _ hk' => exact absurd (hk.symm.trans hk') nofun

theorem allowedIf_vote {answer : Except Unit Bool} {special : Except Unit (List String)} (hc : holds r)
    (hk : (g.role r).kind = .vote answer special) :
    g.AllowedIf holds leads given r ↔ g.voted r answer special = .ok true := by
  refine ⟨fun h => ?_, fun h => .vote hc hk h⟩
  cases h with
  | vote _ hk' h =>
      obtain ⟨rfl, rfl⟩ := RoleKind.vote.inj (hk.symm.trans hk')
      exact h
  | simple _ hk' | list _ hk' | link _ hk' => exact absurd (hk.symm.trans hk') nofun

/-- More constraints that hold allow more. -/
theorem AllowedIf.mono {holds' : R → Prop} (hle : ∀ r, holds r → holds' r) (h : g.AllowedIf holds leads given r) :
    g.AllowedIf holds' leads given r := by
  induction h with
  | simple hc hk hkeys haddresses => exact .simple (hle _ hc) hk hkeys haddresses
  | list hc hk chosen hsub _ henough ih => exact .list (hle _ hc) hk chosen hsub ih henough
  | link hc hk hlead _ ih => exact .link (hle _ hc) hk hlead ih
  | vote hc hk h => exact .vote (hle _ hc) hk h

theorem AllowedWithout.allowed (h : g.AllowedWithout given r) : g.Allowed given r := AllowedIf.mono (fun _ h => h.1) h

/-- A link without constraints that finds a role leads on to it. -/
theorem allowedWithout_link {roleName : String} (hk : (g.role r).kind = .link roleName)
    (hu : g.unconstrained r = true) (hrole : g.named roleName = .role r') :
    g.AllowedWithout given r ↔ g.AllowedWithout given r' := by
  refine (allowedIf_link (unconstrained_passes hu) hk).trans ⟨?_, fun h => ⟨r', ⟨roleName, hk, hrole⟩, h⟩⟩
  rintro ⟨r₁, ⟨name, hk', hrole'⟩, h⟩
  obtain rfl := RoleKind.link.inj (hk.symm.trans hk')
  obtain rfl := Target.role.inj (hrole.symm.trans hrole')
  exact h

/-- A link that finds no role is not allowed. -/
theorem not_allowedWithout_link {roleName : String} (hk : (g.role r).kind = .link roleName)
    (hno : ∀ r', g.named roleName ≠ .role r') : ¬ g.AllowedWithout given r := by
  intro h
  obtain ⟨r', ⟨name, hk', hrole⟩, -⟩ := (allowedIf_link h.constraints hk).mp h
  obtain rfl := RoleKind.link.inj (hk.symm.trans hk')
  exact hno r' hrole

/-- What the link finds is what the contract has under its name, or it throws. -/
theorem getRole_eq (g : RoleGraph K A R) (r : R) (roleName : String) :
    g.getRole r roleName = .thrown ∨ g.getRole r roleName = g.named roleName := by
  unfold getRole
  split
  · exact .inr rfl
  · exact .inl rfl

theorem named_ne_thrown (g : RoleGraph K A R) (roleName : String) : g.named roleName ≠ .thrown := by
  unfold named
  split
  · exact nofun
  · split
    · exact nofun
    · split <;> exact nofun

/-- One step of `resolve` along a link without constraints. -/
theorem resolveLoop_link {n : ℕ} {roleName : String} (hk : (g.role r).kind = .link roleName)
    (hu : g.unconstrained r = true) :
    g.resolveLoop false (n + 1) (.role r) =
      match g.getRole r roleName with
      | .missing => .missing
      | .thrown => .thrown
      | t => g.resolveLoop false n t := by
  rw [resolveLoop, hk]
  exact if_pos (by rw [hu, Bool.false_or])

/-- `resolve` stays at a role that is no link, or a link with constraints. -/
theorem resolveLoop_stays {n : ℕ}
    (h : ∀ roleName, (g.role r).kind = .link roleName → g.unconstrained r = false) :
    g.resolveLoop false (n + 1) (.role r) = .role r := by
  rw [resolveLoop]
  split
  next roleName hk => simp [h roleName hk]
  next => rfl

theorem follows_or_stays (g : RoleGraph K A R) (r : R) :
    (∃ roleName, (g.role r).kind = .link roleName ∧ g.unconstrained r = true) ∨
    (∀ roleName, (g.role r).kind = .link roleName → g.unconstrained r = false) := by
  cases hu : g.unconstrained r with
  | false => exact .inr fun _ _ => rfl
  | true =>
      cases hk : (g.role r).kind with
      | link roleName => exact .inl ⟨roleName, rfl, rfl⟩
      | simple | list | vote => exact .inr nofun

/-- The role that `resolve` finds stands for the link. -/
theorem resolveLoop_role (given : List K) {n : ℕ} (h : g.resolveLoop false n (.role r) = .role r') :
    g.AllowedWithout given r ↔ g.AllowedWithout given r' := by
  induction n generalizing r with
  | zero => cases h
  | succ n ih =>
      rcases follows_or_stays g r with ⟨roleName, hk, hu⟩ | hstays
      · rw [resolveLoop_link hk hu] at h
        rcases g.getRole_eq r roleName with hrole | hrole
        · rw [hrole] at h
          cases h
        rw [hrole] at h
        cases hname : g.named roleName with
        | missing | thrown =>
            rw [hname] at h
            cases h
        | other =>
            rw [hname] at h
            cases n <;> cases h
        | role r₁ =>
            rw [hname] at h
            exact (allowedWithout_link hk hu hname).trans (ih h)
      · rw [resolveLoop_stays hstays] at h
        obtain rfl := Target.role.inj h
        exact .rfl

/-- Where `resolve` finds nothing within a chain that is short enough, a role is missing. -/
theorem resolveLoop_missing (given : List K) {n : ℕ} (hchain : ¬ g.LinkChain n r)
    (h : g.resolveLoop false n (.role r) = .missing) : ¬ g.AllowedWithout given r := by
  induction n generalizing r with
  | zero => exact absurd trivial hchain
  | succ n ih =>
      rcases follows_or_stays g r with ⟨roleName, hk, hu⟩ | hstays
      · rw [resolveLoop_link hk hu] at h
        rcases g.getRole_eq r roleName with hrole | hrole
        · rw [hrole] at h
          cases h
        rw [hrole] at h
        cases hname : g.named roleName with
        | missing => exact not_allowedWithout_link hk fun r' hr' => by simp [hname] at hr'
        | other => exact not_allowedWithout_link hk fun r' hr' => by simp [hname] at hr'
        | thrown => exact absurd hname (g.named_ne_thrown roleName)
        | role r₁ =>
            rw [hname] at h
            have hchain₁ : ¬ g.LinkChain n r₁ := fun hc => hchain ⟨roleName, hk, .inr ⟨r₁, hname, hc⟩⟩
            exact fun ha => ih hchain₁ h ((allowedWithout_link hk hu hname).mp ha)
      · rw [resolveLoop_stays hstays] at h
        cases h

/-! ### Loops and fuel -/

variable [DecidableEq K]

/-- The evaluation returns, and it answers what the tree says. -/
def Decides (g : RoleGraph K A R) (source : KeySource K S) (given : List K) (s : S) (r : R) : Prop :=
  ∃ fuel b s', g.isAllowedForKeys source fuel r s = some (.ok (b, s')) ∧
    (b = true ↔ g.Allowed given r)

/-- A set that counts how often it is read. -/
def counted : KeySource K (List K × ℕ) where
  find p s := (s.1.any p, (s.1, s.2 + 1))

/-- Over a set of these keys the evaluation returns after at most one reading. -/
def ReadsOnce (g : RoleGraph K A R) (given : List K) (r : R) : Prop :=
  ∃ fuel b reads, g.isAllowedForKeys counted fuel r (given, 0) = some (.ok (b, (given, reads))) ∧
    reads ≤ 1

/-- The loop over sub-roles answers the same where each of them does. -/
theorem anyReached_mono {eval eval' : R → S → Option (Except Unit (Bool × S))} {enough : ℕ → Bool}
    (h : ∀ r s x, eval r s = some x → eval' r s = some x) :
    ∀ {rs : List R} {valid : ℕ} {s : S} {x}, anyReached eval enough valid rs s = some x →
      anyReached eval' enough valid rs s = some x
  | [], _, _, _, hx => hx
  | r :: rs, valid, s, x, hx => by
      unfold anyReached at hx ⊢
      cases hr : eval r s with
      | none =>
          rw [hr] at hx
          cases hx
      | some y =>
          rw [hr] at hx
          rw [h r s y hr]
          rcases y with e | ⟨b, s'⟩
          · exact hx
          · cases b with
            | true =>
                simp only at hx ⊢
                split at hx
                next henough => rwa [if_pos henough]
                next henough =>
                  rw [if_neg henough]
                  exact anyReached_mono h hx
            | false => exact anyReached_mono h hx

/-- One sub-role whose evaluation returns: the loop stops there or goes on. -/
theorem anyReached_cons {eval : R → S → Option (Except Unit (Bool × S))} {enough : ℕ → Bool}
    {rs : List R} {valid : ℕ} {s s' : S} {b : Bool} (h : eval r s = some (.ok (b, s'))) :
    anyReached eval enough valid (r :: rs) s =
      if b = true ∧ enough (valid + 1) = true then some (.ok (true, s'))
      else anyReached eval enough (if b = true then valid + 1 else valid) rs s' := by
  rw [anyReached, h]
  cases b with
  | true => simp
  | false => simp

/-- An answer stays the answer with more fuel. -/
theorem isAllowedForKeys_succ {source : KeySource K S} {fuel : ℕ} {r : R} {s : S} {x}
    (h : g.isAllowedForKeys source fuel r s = some x) :
    g.isAllowedForKeys source (fuel + 1) r s = some x := by
  induction fuel generalizing r s x with
  | zero => cases h
  | succ fuel ih =>
      unfold isAllowedForKeys at h ⊢
      split
      next hc => rwa [if_pos hc] at h
      next hc =>
        rw [if_neg hc] at h
        cases hk : (g.role r).kind with
        | simple keys addresses =>
            rw [hk] at h
            exact h
        | list mode roles =>
            rw [hk] at h
            exact anyReached_mono (fun r s x => ih) h
        | link roleName =>
            rw [hk] at h
            cases ht : g.resolve false r with
            | role r' =>
                rw [ht] at h
                exact ih h
            | missing | other | thrown =>
                rw [ht] at h
                exact h
        | vote answer special =>
            rw [hk] at h
            exact h

theorem isAllowedForKeys_mono {source : KeySource K S} {fuel more : ℕ} (hle : fuel ≤ more) {r : R}
    {s : S} {x} (h : g.isAllowedForKeys source fuel r s = some x) :
    g.isAllowedForKeys source more r s = some x := by
  induction hle with
  | refl => exact h
  | step _ ih => exact isAllowedForKeys_succ ih

/-! ### Over a set -/

theorem reached_mono {mode : ListRoleMode} {size a b : ℕ} (hle : a ≤ b)
    (h : reached mode size a = true) : reached mode size b = true := by
  cases mode with
  | ALL => exact decide_eq_true ((of_decide_eq_true h).trans hle)
  | ANY => exact decide_eq_true ((of_decide_eq_true h).trans hle)
  | QUORUM quorumSize =>
      cases quorumSize with
      | nan => cases h
      | negInf => rfl
      | posInf => cases h
      | fin q =>
          have hq : q ≤ (a : ℚ) := of_decide_eq_true h
          have hab : (a : ℚ) ≤ (b : ℚ) := by exact_mod_cast hle
          exact decide_eq_true (hq.trans hab)

/-- So many sub-roles counted already and some of these make a number that fits. -/
def ChosenFrom (counts : R → Prop) (fits : ℕ → Prop) (valid : ℕ) (rs : List R) : Prop :=
  ∃ chosen : List R, chosen.Sublist rs ∧ (∀ c ∈ chosen, counts c) ∧ fits (valid + chosen.length)

/-- A sub-role that counts is counted, another is not. -/
theorem chosenFrom_cons {counts : R → Prop} {fits : ℕ → Prop} (hmono : ∀ a b, a ≤ b → fits a → fits b) {valid : ℕ}
    {rs : List R} {b : Bool} (hb : b = true ↔ counts r) :
    ChosenFrom counts fits valid (r :: rs) ↔ ChosenFrom counts fits (if b = true then valid + 1 else valid) rs := by
  constructor
  · rintro ⟨chosen, hsub, hall, hfits⟩
    rcases List.sublist_cons_iff.mp hsub with hsub | ⟨chosen, rfl, hsub'⟩
    · refine ⟨chosen, hsub, hall, hmono _ _ ?_ hfits⟩
      split <;> omega
    · obtain ⟨hr, hall⟩ := List.forall_mem_cons.mp hall
      refine ⟨chosen, hsub', hall, ?_⟩
      rw [if_pos (hb.mpr hr)]
      rwa [List.length_cons, Nat.add_comm chosen.length 1, ← Nat.add_assoc] at hfits
  · rintro ⟨chosen, hsub, hall, hfits⟩
    by_cases h : b = true
    · rw [if_pos h] at hfits
      refine ⟨r :: chosen, hsub.cons_cons r, List.forall_mem_cons.mpr ⟨hb.mp h, hall⟩, ?_⟩
      rwa [List.length_cons, Nat.add_comm chosen.length 1, ← Nat.add_assoc]
    · rw [if_neg h] at hfits
      exact ⟨chosen, hsub.cons r, hall, hfits⟩

/-- The number fits already. -/
theorem chosenFrom_of_fits {counts : R → Prop} {fits : ℕ → Prop} {valid : ℕ} (h : fits valid) (rs : List R) :
    ChosenFrom counts fits valid rs :=
  ⟨[], List.nil_sublist _, fun _ h => absurd h List.not_mem_nil, h⟩

/-- The loop has decided: some sub-role is granted, and they are enough. -/
def stops (enough : ℕ → Bool) (n : ℕ) : Prop := 0 < n ∧ enough n = true

theorem stops_mono {enough : ℕ → Bool} (hmono : ∀ a b, a ≤ b → enough a = true → enough b = true) :
    ∀ a b, a ≤ b → stops enough a → stops enough b :=
  fun a b hle h => ⟨h.1.trans_le hle, hmono a b hle h.2⟩

omit [DecidableEq K] in
theorem chosenFrom_stops {enough : ℕ → Bool} {before : List R} :
    ChosenFrom (g.Granted given) (stops enough) 0 before ↔ g.Decided given enough before := by
  unfold ChosenFrom Decided stops
  refine exists_congr fun chosen => ?_
  rw [Nat.zero_add, List.length_pos_iff]
  tauto

/-- Only what is counted before the loop stops matters. -/
theorem chosenFrom_congr {counts counts' : R → Prop} {enough : ℕ → Bool}
    (hmono : ∀ a b, a ≤ b → enough a = true → enough b = true) {rs : List R} {valid : ℕ}
    (h : ∀ before r after, rs = before ++ r :: after → ¬ ChosenFrom counts (stops enough) valid before →
      (counts r ↔ counts' r)) :
    ChosenFrom counts (fun n => enough n = true) valid rs ↔ ChosenFrom counts' (fun n => enough n = true) valid rs := by
  classical
  by_cases hvalid : stops enough valid
  · exact iff_of_true (chosenFrom_of_fits hvalid.2 rs) (chosenFrom_of_fits hvalid.2 rs)
  induction rs generalizing valid with
  | nil => simp [ChosenFrom]
  | cons r rs ih =>
      have hno : ¬ ChosenFrom counts (stops enough) valid [] := by
        rintro ⟨chosen, hsub, -, hst⟩
        rw [List.sublist_nil.mp hsub] at hst
        exact hvalid hst
      have hr : decide (counts r) = true ↔ counts r := decide_eq_true_iff
      have hr' : decide (counts r) = true ↔ counts' r := hr.trans (h [] r rs rfl hno)
      rw [chosenFrom_cons hmono hr, chosenFrom_cons hmono hr']
      by_cases hstop : stops enough (if decide (counts r) = true then valid + 1 else valid)
      · exact iff_of_true (chosenFrom_of_fits hstop.2 rs) (chosenFrom_of_fits hstop.2 rs)
      · refine ih (fun before r' after heq hnot => ?_) hstop
        exact h (r :: before) r' after (by rw [heq, List.cons_append]) fun hd =>
          hnot ((chosenFrom_cons (stops_mono hmono) hr).mp hd)

/-- What is known of a sub-role whose evaluation returns. -/
def Right (g : RoleGraph K A R) (given : List K) (answer : Option (Except Unit (Bool × List K)))
    (r : R) : Prop :=
  ∀ b s, answer = some (.ok (b, s)) → s = given ∧ g.Evaluable given r ∧ (b = true ↔ g.Granted given r)

omit [DecidableEq K] in
/-- The loop over sub-roles: it answers whether enough are granted, and each sub-role it looks at can be
    evaluated. -/
theorem anyReached_right {eval : R → List K → Option (Except Unit (Bool × List K))}
    {enough : ℕ → Bool} (hmono : ∀ a b, a ≤ b → enough a = true → enough b = true)
    (heval : ∀ r, g.Right given (eval r given) r) {rs : List R} :
    ∀ {valid : ℕ} {b : Bool} {s : List K},
      anyReached eval enough valid rs given = some (.ok (b, s)) →
      s = given ∧ (b = true ↔ ChosenFrom (g.Granted given) (fun n => enough n = true) valid rs) ∧
        ∀ before r after, rs = before ++ r :: after →
          ¬ ChosenFrom (g.Granted given) (stops enough) valid before → g.Evaluable given r := by
  induction rs with
  | nil =>
      intro valid b s h
      obtain ⟨rfl, rfl⟩ := Prod.ext_iff.mp (Except.ok.inj (Option.some.inj h))
      refine ⟨rfl, ⟨fun h => chosenFrom_of_fits h [], ?_⟩, by simp⟩
      rintro ⟨chosen, hsub, -, henough⟩
      rwa [List.sublist_nil.mp hsub] at henough
  | cons r rs ih =>
      intro valid b s h
      cases hr : eval r given with
      | none =>
          rw [anyReached, hr] at h
          cases h
      | some answer =>
          rcases answer with e | ⟨b₁, s₁⟩
          · rw [anyReached, hr] at h
            cases h
          obtain ⟨rfl, hev, hb₁⟩ := heval r b₁ s₁ hr
          rw [anyReached_cons hr] at h
          rw [chosenFrom_cons hmono hb₁]
          split at h
          next hstop =>
            -- the loop stops at this sub-role
            obtain ⟨rfl, rfl⟩ := Prod.ext_iff.mp (Except.ok.inj (Option.some.inj h))
            rw [if_pos hstop.1]
            refine ⟨rfl, ⟨fun _ => chosenFrom_of_fits hstop.2 rs, fun _ => rfl⟩, ?_⟩
            rintro before r' after heq hnot
            rcases List.cons_eq_append_iff.mp heq with ⟨rfl, hafter⟩ | ⟨before, rfl, -⟩
            · obtain ⟨rfl, -⟩ := List.cons.inj hafter
              exact hev
            · refine absurd ((chosenFrom_cons (stops_mono hmono) hb₁).mpr ?_) hnot
              rw [if_pos hstop.1]
              exact chosenFrom_of_fits ⟨Nat.succ_pos _, hstop.2⟩ before
          next hgo =>
            obtain ⟨rfl, hb, hall⟩ := ih h
            refine ⟨rfl, hb, ?_⟩
            rintro before r' after heq hnot
            rcases List.cons_eq_append_iff.mp heq with ⟨rfl, hafter⟩ | ⟨before, rfl, hrs⟩
            · obtain ⟨rfl, -⟩ := List.cons.inj hafter
              exact hev
            · exact hall before r' after hrs fun hd => hnot ((chosenFrom_cons (stops_mono hmono) hb₁).mpr hd)

/-- The loop returns when every sub-role it looks at returns. -/
theorem anyReached_returns {enough : ℕ → Bool}
    (hmono : ∀ a b, a ≤ b → enough a = true → enough b = true)
    (hright : ∀ fuel r, g.Right given (g.isAllowedForKeys .collection fuel r given) r)
    {rs : List R} : ∀ {valid : ℕ}, ¬ stops enough valid →
      (∀ before r after, rs = before ++ r :: after →
        ¬ ChosenFrom (g.Granted given) (stops enough) valid before →
        ∃ fuel b, g.isAllowedForKeys .collection fuel r given = some (.ok (b, given))) →
      ∃ fuel b, anyReached (g.isAllowedForKeys .collection fuel) enough valid rs given =
        some (.ok (b, given)) := by
  induction rs with
  | nil => exact fun {valid} _ _ => ⟨0, enough valid, rfl⟩
  | cons r rs ih =>
      intro valid hvalid hall
      obtain ⟨n₁, b₁, h₁⟩ := hall [] r rs rfl (by
        rintro ⟨chosen, hsub, -, hst⟩
        rw [List.sublist_nil.mp hsub] at hst
        exact hvalid hst)
      obtain ⟨-, -, hb₁⟩ := hright n₁ r b₁ given h₁
      by_cases hstop : b₁ = true ∧ enough (valid + 1) = true
      · exact ⟨n₁, true, by rw [anyReached_cons h₁, if_pos hstop]⟩
      · have hvalid' : ¬ stops enough (if b₁ = true then valid + 1 else valid) := by
          split
          next hb => exact fun hst => hstop ⟨hb, hst.2⟩
          next => exact hvalid
        obtain ⟨n₂, b₂, h₂⟩ := ih hvalid' fun before r' after heq hnot =>
          hall (r :: before) r' after (by rw [heq, List.cons_append]) fun hd =>
            hnot ((chosenFrom_cons (stops_mono hmono) hb₁).mp hd)
        refine ⟨max n₁ n₂, b₂, ?_⟩
        rw [anyReached_cons (isAllowedForKeys_mono (le_max_left n₁ n₂) h₁), if_neg hstop]
        exact anyReached_mono (fun r s x => isAllowedForKeys_mono (le_max_right n₁ n₂)) h₂

omit [DecidableEq K] in
theorem readAll_collection : ∀ (ps : List (K → Bool)) (given : List K),
    readAll .collection ps given = (ps.all fun p => given.any p, given) := by
  intro ps given
  induction ps with
  | nil => rfl
  | cons p ps ih =>
      have hfind : KeySource.collection.find p given = (given.any p, given) := rfl
      rw [readAll, hfind, List.all_cons]
      cases hp : given.any p with
      | true => simpa using ih
      | false => rfl

theorem readAll_simple {keys : List K} {addresses : List A} :
    (readAll .collection (g.wanted keys addresses) given).1 = true ↔
      (∀ k ∈ keys, k ∈ given) ∧ ∀ a ∈ addresses, ∃ k ∈ given, g.isMatch a k = true := by
  rw [readAll_collection]
  simp [wanted]

omit [DecidableEq K] in
theorem allowedIf_list {mode : ListRoleMode} {roles : List R} (hc : holds r)
    (hk : (g.role r).kind = .list mode roles) : g.AllowedIf holds leads given r ↔
      ChosenFrom (g.AllowedIf holds leads given) (fun n => reached mode roles.length n = true) 0 roles := by
  unfold ChosenFrom
  simp only [Nat.zero_add]
  refine ⟨fun h => ?_, fun ⟨chosen, hsub, hall, h⟩ => .list hc hk chosen hsub hall h⟩
  cases h with
  | list _ hk' chosen hsub hall henough =>
      obtain ⟨rfl, rfl⟩ := RoleKind.list.inj (hk.symm.trans hk')
      exact ⟨chosen, hsub, hall, henough⟩
  | simple _ hk' | link _ hk' | vote _ hk' => exact absurd (hk.symm.trans hk') nofun

/-- What evaluation over a set answers is what is granted, and it met nothing it cannot evaluate. -/
theorem isAllowedForKeys_right (g : RoleGraph K A R) (given : List K) (fuel : ℕ) (r : R) :
    g.Right given (g.isAllowedForKeys .collection fuel r given) r := by
  induction fuel generalizing r with
  | zero => exact fun b s h => by cases h
  | succ fuel ih =>
      intro b s h
      unfold isAllowedForKeys at h
      by_cases hc : g.isAllowedForConstraints r = true
      swap
      · -- denied by its constraints
        rw [if_pos (by simpa using hc)] at h
        obtain ⟨rfl, rfl⟩ := Prod.ext_iff.mp (Except.ok.inj (Option.some.inj h))
        have hno : ¬ g.Passes r := fun hcs => hc (isAllowedForConstraints_iff.mpr hcs)
        exact ⟨rfl, .denied hno, nofun, fun ha => absurd (AllowedIf.constraints ha) hno⟩
      rw [if_neg (by simpa using hc)] at h
      have hc := isAllowedForConstraints_iff.mp hc
      cases hk : (g.role r).kind with
      | simple keys addresses =>
          rw [hk] at h
          have h := Except.ok.inj (Option.some.inj h)
          have hs : (readAll .collection (g.wanted keys addresses) given).2 = given := by
            rw [readAll_collection]
          rw [h] at hs
          refine ⟨hs, .simple hk, ?_⟩
          rw [Granted, allowedIf_simple hc hk, ← readAll_simple, h]
      | list mode roles =>
          rw [hk] at h
          obtain ⟨hs, hb, hall⟩ := anyReached_right (fun _ _ => reached_mono) ih h
          refine ⟨hs, .list hk fun before r' after heq hnot => ?_, hb.trans (allowedIf_list hc hk).symm⟩
          exact hall before r' after heq fun hd => hnot (chosenFrom_stops.mp hd)
      | link roleName =>
          rw [hk] at h
          cases ht : g.resolve false r with
          | role r' =>
              rw [ht] at h
              obtain ⟨hs, hev, hb⟩ := ih r' b s h
              refine ⟨hs, .link hk ht hev, hb.trans ⟨fun h => .link hc hk ht h, fun h => ?_⟩⟩
              obtain ⟨r₁, ht₁, h⟩ := (allowedIf_link hc hk).mp h
              exact Target.role.inj (ht.symm.trans ht₁) ▸ h
          | missing =>
              rw [ht] at h
              obtain ⟨rfl, rfl⟩ := Prod.ext_iff.mp (Except.ok.inj (Option.some.inj h))
              refine ⟨rfl, .missing hk ht, nofun, fun h => ?_⟩
              obtain ⟨r₁, ht₁, -⟩ := (allowedIf_link hc hk).mp h
              exact absurd (ht.symm.trans ht₁) nofun
          | other | thrown =>
              rw [ht] at h
              cases h
      | vote answer special =>
          cases hv : g.voted r answer special with
          | error e =>
              simp only [hk, hv] at h
              cases h
          | ok b' =>
              simp only [hk, hv] at h
              obtain ⟨rfl, rfl⟩ := Prod.ext_iff.mp (Except.ok.inj (Option.some.inj h))
              refine ⟨rfl, .vote hk hv, ?_⟩
              rw [Granted, allowedIf_vote hc hk, hv, Except.ok.injEq]

/-- A role that can be evaluated is. -/
theorem isAllowedForKeys_returns (h : g.Evaluable given r) :
    ∃ fuel b, g.isAllowedForKeys .collection fuel r given = some (.ok (b, given)) := by
  induction h with
  | @denied r h =>
      refine ⟨1, false, ?_⟩
      rw [isAllowedForKeys, if_pos (by simpa using fun hc => h (isAllowedForConstraints_iff.mp hc))]
  | @simple r keys addresses hk =>
      refine ⟨1, ?_⟩
      unfold isAllowedForKeys
      split
      next => exact ⟨false, rfl⟩
      next =>
        refine ⟨(readAll .collection (g.wanted keys addresses) given).1, ?_⟩
        simp only [hk]
        rw [readAll_collection]
  | @missing r roleName hk hm =>
      refine ⟨1, false, ?_⟩
      unfold isAllowedForKeys
      split
      next => rfl
      next => simp only [hk, hm]
  | @link r r' roleName hk hlead _ ih =>
      obtain ⟨fuel, b, h⟩ := ih
      refine ⟨fuel + 1, ?_⟩
      unfold isAllowedForKeys
      split
      next => exact ⟨false, rfl⟩
      next =>
        have ht : g.resolve false r = .role r' := hlead
        exact ⟨b, by simpa only [hk, ht] using h⟩
  | @list r mode roles hk _ ih =>
      have hzero : ¬ stops (reached mode roles.length) 0 := fun h => absurd h.1 (lt_irrefl 0)
      obtain ⟨fuel, b, h⟩ := anyReached_returns (fun _ _ => reached_mono)
        (isAllowedForKeys_right g given) hzero fun before r' after heq hnot =>
          ih before r' after heq fun hd => hnot (chosenFrom_stops.mpr hd)
      refine ⟨fuel + 1, ?_⟩
      unfold isAllowedForKeys
      split
      next => exact ⟨false, rfl⟩
      next => exact ⟨b, by simpa only [hk] using h⟩
  | @vote r answer special b hk hv =>
      refine ⟨1, ?_⟩
      unfold isAllowedForKeys
      split
      next => exact ⟨false, rfl⟩
      next => exact ⟨b, by simp only [hk, hv]; rfl⟩

omit [DecidableEq K] in
/-- In a tree that can be evaluated, what is granted is what the tree says without the roles that have no contract
    and require constraints. -/
theorem granted_iff (t : Tree K A R) {given : List K} {r : R} (h : t.Evaluable given r) :
    t.Granted given r ↔ t.AllowedWithout given r := by
  induction h with
  | denied h => exact iff_of_false (fun ha => h (AllowedIf.constraints ha)) fun ha => h (AllowedIf.constraints ha)
  | @simple r keys addresses hk =>
      by_cases hc : t.Passes r
      · exact (allowedIf_simple hc hk).trans (allowedIf_simple hc hk).symm
      · exact iff_of_false (fun ha => hc (AllowedIf.constraints ha)) fun ha => hc (AllowedIf.constraints ha)
  | @missing r roleName hk hm =>
      refine iff_of_false (fun h => ?_) (resolveLoop_missing given (t.shortChains r) hm)
      obtain ⟨r', ht, -⟩ := (allowedIf_link (AllowedIf.constraints h) hk).mp h
      exact absurd (hm.symm.trans ht) nofun
  | @link r r' roleName hk hlead _ ih =>
      refine Iff.trans ⟨fun h => ?_, fun h => ?_⟩ (ih.trans (resolveLoop_role given hlead).symm)
      · obtain ⟨r₁, ht, h⟩ := (allowedIf_link (AllowedIf.constraints h) hk).mp h
        exact Target.role.inj (Eq.symm hlead |>.trans ht) ▸ h
      · have hc : t.Passes r := AllowedIf.constraints ((resolveLoop_role given hlead).mpr (ih.mp h))
        exact .link hc hk hlead h
  | @list r mode roles hk _ ih =>
      by_cases hc : t.Passes r
      · refine (allowedIf_list hc hk).trans (Iff.trans ?_ (allowedIf_list hc hk).symm)
        exact chosenFrom_congr (fun _ _ => reached_mono) fun before r' after heq hnot =>
          ih before r' after heq fun hd => hnot (chosenFrom_stops.mpr hd)
      · exact iff_of_false (fun ha => hc (AllowedIf.constraints ha)) fun ha => hc (AllowedIf.constraints ha)
  | vote hk => exact absurd hk (t.noVotes _ _ _)

/-- What evaluation over a set returns is what the tree says, if no role without a contract makes the difference. -/
theorem allowed_iff (t : Tree K A R) {given : List K} {r : R} {b : Bool} {fuel : ℕ} {s : List K}
    (h : t.isAllowedForKeys .collection fuel r given = some (.ok (b, s))) :
    (b = true ↔ t.Allowed given r) ↔ (t.Allowed given r → t.AllowedWithout given r) := by
  obtain ⟨-, hev, hb⟩ := isAllowedForKeys_right t.toRoleGraph given fuel r b s h
  rw [hb, granted_iff t hev]
  exact ⟨Iff.mpr, fun h => ⟨AllowedWithout.allowed, h⟩⟩

/-- Over a set the evaluation answers what the tree says just where it can be evaluated, and no role without a
    contract makes the difference. -/
theorem decides_collection_iff (t : Tree K A R) (given : List K) (r : R) :
    t.Decides .collection given given r ↔
      t.Evaluable given r ∧ (t.Allowed given r → t.AllowedWithout given r) := by
  constructor
  · rintro ⟨fuel, b, s, h, hb⟩
    exact ⟨(isAllowedForKeys_right t.toRoleGraph given fuel r b s h).2.1, (allowed_iff t h).mp hb⟩
  · rintro ⟨hev, hsame⟩
    obtain ⟨fuel, b, h⟩ := isAllowedForKeys_returns hev
    exact ⟨fuel, b, given, h, (allowed_iff t h).mpr hsame⟩

/-! ### Over an iterator -/

variable {T : Type}

/-- Two sources of keys answer alike from related states, until a state that stays bad. -/
structure Simulates (source : KeySource K S) (target : KeySource K T) (Rel : S → T → Prop)
    (Bad : S → Prop) : Prop where
  stays : ∀ p s, Bad s → Bad (source.find p s).2
  find : ∀ p s t, Rel s t → Bad (source.find p s).2 ∨
    ((source.find p s).1 = (target.find p t).1 ∧ Rel (source.find p s).2 (target.find p t).2)

/-- The second evaluation answers as the first, which did not end in a bad state. -/
def Follows (Rel : S → T → Prop) (Bad : S → Prop) (s : S) (t : T)
    (x : Option (Except Unit (Bool × S))) (y : Option (Except Unit (Bool × T))) : Prop :=
  ∀ b s', x = some (.ok (b, s')) → (Bad s → Bad s') ∧
    (Rel s t → ¬ Bad s' → ∃ t', y = some (.ok (b, t')) ∧ Rel s' t')

section
variable {source : KeySource K S} {target : KeySource K T} {Rel : S → T → Prop} {Bad : S → Prop}

omit [DecidableEq K] in
theorem readAll_follows (hsim : Simulates source target Rel Bad) (ps : List (K → Bool)) :
    ∀ (s : S) (t : T), Follows Rel Bad s t (some (.ok (readAll source ps s)))
      (some (.ok (readAll target ps t))) := by
  induction ps with
  | nil =>
      intro s t b s' h
      obtain ⟨rfl, rfl⟩ := Prod.ext_iff.mp (Except.ok.inj (Option.some.inj h))
      exact ⟨id, fun hrel _ => ⟨t, rfl, hrel⟩⟩
  | cons p ps ih =>
      intro s t b s' h
      rw [readAll] at h ⊢
      rcases hs : source.find p s with ⟨found, s₁⟩
      have hstays := hsim.stays p s
      have hfind := hsim.find p s t
      rw [hs] at h hstays hfind
      cases found with
      | false =>
          obtain ⟨rfl, rfl⟩ := Prod.ext_iff.mp (Except.ok.inj (Option.some.inj h))
          refine ⟨hstays, fun hrel hgood => ?_⟩
          obtain ⟨hb, hrel⟩ := (hfind hrel).resolve_left hgood
          rcases ht : target.find p t with ⟨found, t₁⟩
          rw [ht] at hb hrel
          obtain rfl : false = found := hb
          exact ⟨t₁, rfl, hrel⟩
      | true =>
          rcases ht : target.find p t with ⟨found, t₁⟩
          rw [ht] at hfind
          obtain ⟨hbad, hrest⟩ := ih s₁ t₁ b s' h
          refine ⟨fun h => hbad (hstays h), fun hrel hgood => ?_⟩
          obtain ⟨hb, hrel⟩ := (hfind hrel).resolve_left fun h => hgood (hbad h)
          obtain rfl : true = found := hb
          exact hrest hrel hgood

omit [DecidableEq K] in
theorem anyReached_follows {eval : R → S → Option (Except Unit (Bool × S))}
    {eval' : R → T → Option (Except Unit (Bool × T))} {enough : ℕ → Bool}
    (h : ∀ r s t, Follows Rel Bad s t (eval r s) (eval' r t)) {rs : List R} :
    ∀ {valid : ℕ} {s : S} {t : T}, Follows Rel Bad s t (anyReached eval enough valid rs s)
      (anyReached eval' enough valid rs t) := by
  induction rs with
  | nil =>
      intro valid s t b s' hx
      obtain ⟨rfl, rfl⟩ := Prod.ext_iff.mp (Except.ok.inj (Option.some.inj hx))
      exact ⟨id, fun hrel _ => ⟨t, rfl, hrel⟩⟩
  | cons r rs ih =>
      intro valid s t b s' hx
      cases hr : eval r s with
      | none =>
          rw [anyReached, hr] at hx
          cases hx
      | some answer =>
          rcases answer with e | ⟨b₁, s₁⟩
          · rw [anyReached, hr] at hx
            cases hx
          obtain ⟨hbad₁, hfollows₁⟩ := h r s t b₁ s₁ hr
          rw [anyReached_cons hr] at hx
          split at hx
          next hstop =>
            obtain ⟨rfl, rfl⟩ := Prod.ext_iff.mp (Except.ok.inj (Option.some.inj hx))
            refine ⟨hbad₁, fun hrel hgood => ?_⟩
            obtain ⟨t₁, ht₁, hrel₁⟩ := hfollows₁ hrel hgood
            exact ⟨t₁, by rw [anyReached_cons ht₁, if_pos hstop], hrel₁⟩
          next hgo =>
            obtain ⟨hbad, -⟩ := @ih _ _ t b s' hx
            refine ⟨fun h => hbad (hbad₁ h), fun hrel hgood => ?_⟩
            obtain ⟨t₁, ht₁, hrel₁⟩ := hfollows₁ hrel fun h => hgood (hbad h)
            obtain ⟨t', ht', hrel'⟩ := (ih b s' hx).2 hrel₁ hgood
            exact ⟨t', by rw [anyReached_cons ht₁, if_neg hgo, ht'], hrel'⟩

/-- Evaluation over one source follows evaluation over the other. -/
theorem isAllowedForKeys_follows (hsim : Simulates source target Rel Bad) (fuel : ℕ) :
    ∀ (r : R) (s : S) (t : T), Follows Rel Bad s t (g.isAllowedForKeys source fuel r s)
      (g.isAllowedForKeys target fuel r t) := by
  have hsame (s : S) (t : T) (b : Bool) :
      Follows Rel Bad s t (some (.ok (b, s))) (some (.ok (b, t))) := by
    intro b' s' h
    obtain ⟨rfl, rfl⟩ := Prod.ext_iff.mp (Except.ok.inj (Option.some.inj h))
    exact ⟨id, fun hrel _ => ⟨t, rfl, hrel⟩⟩
  induction fuel with
  | zero => exact fun r s t b s' h => by cases h
  | succ fuel ih =>
      intro r s t
      unfold isAllowedForKeys
      split
      next => exact hsame s t false
      next =>
        cases hk : (g.role r).kind with
        | simple keys addresses => exact readAll_follows hsim _ s t
        | list mode roles => exact anyReached_follows ih
        | link roleName =>
            cases ht : g.resolve false r with
            | role r' => exact ih r' s t
            | missing => exact hsame s t false
            | other | thrown => exact fun b s' h => by cases h
        | vote answer special =>
            simp only
            cases g.voted r answer special with
            | ok b => exact hsame s t b
            | error e => exact fun b s' h => by cases h

end

omit [DecidableEq K] in
theorem counted_collection : Simulates (counted : KeySource K (List K × ℕ)) .collection
    (fun s t => s.1 = t) (fun _ => False) where
  stays p s h := h
  find p s t h := .inr ⟨by rw [← h]; rfl, h⟩

omit [DecidableEq K] in
/-- An iterator answers as a set for the first reading. -/
theorem counted_iterator : Simulates (counted : KeySource K (List K × ℕ)) .iterator
    (fun s rest => s.2 = 0 → rest = s.1) (fun s => 2 ≤ s.2) where
  stays p s h := h.trans (Nat.le_succ _)
  find p s t h := by
    obtain ⟨keys, n⟩ := s
    cases n with
    | zero =>
        obtain rfl := h rfl
        exact .inr ⟨rfl, fun h => by cases h⟩
    | succ n => exact .inl (Nat.le_add_left 2 n)

/-- An iterator that is read once is as good as a set. -/
theorem decides_iterator (t : Tree K A R) {given : List K} {r : R} (h : t.ReadsOnce given r)
    (hsame : t.Allowed given r → t.AllowedWithout given r) : t.Decides .iterator given given r := by
  obtain ⟨fuel, b, reads, h, hreads⟩ := h
  obtain ⟨s, hs, -⟩ := (isAllowedForKeys_follows counted_collection fuel r (given, 0) given b _ h).2
    rfl id
  obtain ⟨rest, hrest, -⟩ := (isAllowedForKeys_follows counted_iterator fuel r (given, 0) given b _ h).2
    (fun _ => rfl) (not_le.mpr (Nat.lt_succ_of_le hreads))
  exact ⟨fuel, b, rest, hrest, (allowed_iff t hs).mpr hsame⟩

/-! ### The main results on role evaluation -/

/-- CODE DEFECT (role evaluation): over a set of keys the evaluation answers what the role tree says exactly
    where it reaches no link whose own constraints hold and none that throws, and where a role that is allowed is so
    without the roles that require constraints and have no contract; over an iterator it does so, with the second
    of these, when it reads the keys at most once. -/
theorem isAllowedForKeys_means (t : Tree K A R) (given : List K) (r : R) :
    (t.Decides .collection given given r ↔
      t.Evaluable given r ∧ (t.Allowed given r → t.AllowedWithout given r)) ∧
    (t.ReadsOnce given r → (t.Allowed given r → t.AllowedWithout given r) → t.Decides .iterator given given r) :=
  ⟨decides_collection_iff t given r, decides_iterator t⟩

/-- Two keys; a list that needs both of two simple roles, a link to the first with a constraint that holds, and a
    list of a link to the first that has no contract. -/
def twoKeysRoles : RoleGraph Bool Unit (Fin 6) where
  role
    | 0 => ⟨true, [], [], .simple [true] []⟩
    | 1 => ⟨false, [], [], .simple [false] []⟩
    | 2 => ⟨true, [], [], .list .ALL [0, 1]⟩
    | 3 => ⟨true, ["c"], [], .link "owner"⟩
    | 4 => ⟨false, [], [], .link "owner"⟩
    | 5 => ⟨true, [], [], .list .ANY [4]⟩
  roles name := if name = "owner" then some 0 else none
  stateRoles _ := none
  validRoleConstraints := ["c"]
  isMatch _ _ := false

/-- The links lead to a simple role. -/
theorem twoKeysRoles_link {r : Fin 6} {name : String}
    (hk : (twoKeysRoles.role r).kind = .link name) : name = "owner" := by
  match r with
  | 0 | 1 | 2 | 5 => cases hk
  | 3 | 4 => exact (RoleKind.link.inj hk).symm

def twoKeys : Tree Bool Unit (Fin 6) where
  toRoleGraph := twoKeysRoles
  shortChains := by
    rintro r ⟨name, hk, h⟩
    obtain ⟨r', hrole, name', hk', -⟩ := h.resolve_left (by decide)
    obtain rfl := twoKeysRoles_link hk
    obtain rfl := Target.role.inj hrole
    cases hk'
  noVotes r answer special hk := by
    match r with
    | 0 | 1 | 2 | 3 | 4 | 5 => cases hk

/-- The iterator over both keys is used up by the first sub-role, the link with a constraint calls itself forever,
    and the link in a list throws. -/
theorem isAllowedForKeys_wrong :
    (twoKeys.Allowed [false, true] 2 ∧
      ∃ rest, twoKeys.isAllowedForKeys .iterator 3 2 [false, true] = some (.ok (false, rest))) ∧
    (twoKeys.Allowed [true] 3 ∧
      ∀ fuel, twoKeys.isAllowedForKeys .collection fuel 3 [true] = none) ∧
    (twoKeys.Allowed [true] 5 ∧
      twoKeys.isAllowedForKeys .collection 2 5 [true] = some (.error ())) := by
  have hnone (r : Fin 6) (h : twoKeys.unconstrained r = true) : twoKeys.ConstraintsHold r := unconstrained_holds h
  have hc : twoKeys.ConstraintsHold 3 := (isAllowedForConstraints_iff.mp (by decide : _ = true)).1
  have h0 : twoKeys.Allowed [false, true] 0 := .simple (hnone 0 rfl) rfl (by decide) (by decide)
  have h1 : twoKeys.Allowed [false, true] 1 := .simple (hnone 1 rfl) rfl (by decide) (by decide)
  have h0' : twoKeys.Allowed [true] 0 := .simple (hnone 0 rfl) rfl (by decide) (by decide)
  have h4 : twoKeys.Allowed [true] 4 := .link (hnone 4 rfl) rfl ⟨"owner", rfl, rfl⟩ h0'
  refine ⟨⟨.list (hnone 2 rfl) rfl [0, 1] (List.Sublist.refl _) ?_ rfl, _, rfl⟩,
    ⟨.link hc rfl ⟨"owner", rfl, rfl⟩ h0', fun fuel => ?_⟩,
    .list (hnone 5 rfl) rfl [4] (List.Sublist.refl _) (List.forall_mem_singleton.mpr h4) rfl, rfl⟩
  · simpa using ⟨h0, h1⟩
  · induction fuel with
    | zero => rfl
    | succ fuel ih => exact ih

end RoleGraph
end Universa.Contracts
