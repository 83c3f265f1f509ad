import Mathlib.Algebra.Order.BigOperators.Group.List
import Mathlib.Algebra.Order.Ring.Rat
import Universa.Contracts.Check
import Universa.Contracts.PermittedChanges

/-! What the check of one contract says about an amount that only split_join governs: the contract keeps
    the amount of its parent, or makes it of contracts it revokes, or a sum over the siblings of its
    context lets it pass. Each rule counts some of the contracts that are revoked. -/

namespace Universa.Contracts
open Universa.Js

/-! ### Amounts -/

/-- The amount of a field where it is a number. -/
def amountOf (F : String) (c : Contract) : ℚ := (amount F c).getD 0

/-- What the revoked contracts of an origin hold. -/
def revokedAmount (O : HashId) (F : String) (c : Contract) : ℚ :=
  ((c.revokingItems.filter fun ri => ri.getOrigin = O).map (amountOf F)).sum

/-- A permission leaves the field to split_join with the default match fields. -/
def Permission.LeavesToSplitJoin (F : String) (p : Permission) : Prop :=
  match p.rule with
  | .changeNumber c => c.fieldName ≠ F
  | .modifyData fields => ∀ fs, fields = some fs → F ∉ keys fs
  | .splitJoin rule => rule.fieldName = F → rule.mergeFields = ["state.origin"]
  | _ => True

/-- The field is a number, and only split_join governs it. -/
structure Governed (F : String) (c : Contract) : Prop where
  numeric : ∃ q, amount F c = some q
  permissions : ∀ p ∈ c.definition.allPermissions, p.LeavesToSplitJoin F

theorem Governed.amount_eq {F : String} {c : Contract} (h : Governed F c) :
    amount F c = some (amountOf F c) := by
  obtain ⟨q, hq⟩ := h.numeric
  rw [amountOf, hq, Option.getD_some]

theorem Governed.lookup {F : String} {c : Contract} (h : Governed F c) :
    ∃ v, c.state.data.lookup F = some v ∧ bigDecimal v = some (amountOf F c) := by
  have ha := h.amount_eq
  unfold amount at ha
  cases hv : c.state.data.lookup F with
  | none =>
      rw [hv] at ha
      have hnull : bigDecimal .null = none := by decide
      rw [Option.getD_none, hnull] at ha
      cases ha
  | some v => exact ⟨v, rfl, by rwa [hv, Option.getD_some] at ha⟩

/-! ### The sums of split_join -/

theorem serialize_inj {a b : HashId} (h : valuesEqual a.serialize b.serialize = some true) :
    a = b := by
  obtain ⟨a⟩ := a
  obtain ⟨b⟩ := b
  have hab : a = b := by
    simpa [HashId.serialize, valuesEqual, entriesEqual, sameConstructor, constructorName, isObject,
      strictEq, hasOwn, keys, List.lookup_cons] using h
  rw [hab]

theorem takesPart_origin {p : SplitJoin} {checkAllowance : Bool} {c : Contract}
    (hm : p.rule.mergeFields = ["state.origin"]) (h : p.takesPart checkAllowance c = some true) :
    c.getOrigin = p.changed.getOrigin := by
  simp only [SplitJoin.takesPart, hm, Option.bind_eq_bind, Option.bind_eq_some_iff] at h
  obtain ⟨mergeable, -, h⟩ := h
  cases mergeable with
  | false => simp at h
  | true =>
      simp only [Bool.not_true, Bool.false_eq_true, if_false, Option.bind_eq_some_iff] at h
      obtain ⟨valid, hv, h⟩ := h
      cases valid with
      | false => simp at h
      | true =>
          simp only [validateMergeFields, Contract.get, true_or, if_true, Option.bind_eq_bind,
            Option.bind_some, Option.bind_eq_some_iff] at hv
          obtain ⟨same, hs, hv⟩ := hv
          cases same with
          | false => simp at hv
          | true => exact (serialize_inj hs).symm

/-- A sum over siblings is the sum of their amounts, all of the changed contract's origin. -/
theorem siblingSum_eq {p : SplitJoin} (hm : p.rule.mergeFields = ["state.origin"]) :
    ∀ {siblings : List Contract} {q : ℚ}, p.siblingSum siblings = some (some q) →
    (∀ s ∈ siblings, s.getOrigin = p.changed.getOrigin) ∧
      q = (siblings.map (amountOf p.rule.fieldName)).sum
  | [], q, h => by
      obtain rfl := Option.some.inj (Option.some.inj h)
      simp
  | s :: rest, q, h => by
      simp only [SplitJoin.siblingSum, Option.bind_eq_bind, Option.bind_eq_some_iff] at h
      obtain ⟨part, hpart, h⟩ := h
      cases part with
      | false => simp at h
      | true =>
          simp only [Bool.not_true, Bool.false_eq_true, if_false, Option.bind_eq_some_iff] at h
          obtain ⟨a, ha, sum, hsum, h⟩ := h
          obtain ⟨b, rfl, rfl⟩ := Option.map_eq_some_iff.mp (Option.some.inj h)
          obtain ⟨horigin, rfl⟩ := siblingSum_eq hm hsum
          refine ⟨List.forall_mem_cons.mpr ⟨takesPart_origin hm hpart, horigin⟩, ?_⟩
          simp [amountOf, ha]

/-- A sum over revoked contracts counts some of those of the changed contract's origin. -/
theorem revokedSum_eq {p : SplitJoin} (hm : p.rule.mergeFields = ["state.origin"]) :
    ∀ {revoked taken : List Contract} {q : ℚ}, p.revokedSum revoked = some (q, taken) →
    taken.Sublist (revoked.filter fun c => c.getOrigin = p.changed.getOrigin) ∧
      q = (taken.map (amountOf p.rule.fieldName)).sum
  | [], taken, q, h => by
      obtain ⟨rfl, rfl⟩ := Prod.ext_iff.mp (Option.some.inj h)
      simp
  | c :: rest, taken, q, h => by
      simp only [SplitJoin.revokedSum, Option.bind_eq_bind, Option.bind_eq_some_iff] at h
      obtain ⟨part, hpart, h⟩ := h
      cases part with
      | false =>
          obtain ⟨hsub, hq⟩ := revokedSum_eq hm h
          refine ⟨hsub.trans ?_, hq⟩
          exact (List.sublist_cons_self c rest).filter _
      | true =>
          simp only [Bool.not_true, Bool.false_eq_true, if_false, Option.bind_eq_some_iff] at h
          obtain ⟨a, ha, ⟨sum, taken'⟩, hsum, h⟩ := h
          obtain ⟨rfl, rfl⟩ := Prod.ext_iff.mp (Option.some.inj h)
          obtain ⟨hsub, rfl⟩ := revokedSum_eq hm hsum
          rw [List.filter_cons_of_pos (by simpa using takesPart_origin hm hpart)]
          exact ⟨hsub.cons_cons c, by simp [amountOf, ha]⟩

/-- The revoked contracts of an origin that hold a negative amount are counted. -/
def NegativesIn (O : HashId) (F : String) (revoked counted : List Contract) : Prop :=
  ∀ ri ∈ revoked, ri.getOrigin = O → amountOf F ri < 0 → ri ∈ counted

theorem sum_sublist_le {F : String} {counted revoked : List Contract} (hsub : counted.Sublist revoked)
    (hnodup : revoked.Nodup) (hneg : ∀ c ∈ revoked, amountOf F c < 0 → c ∈ counted) :
    (counted.map (amountOf F)).sum ≤ (revoked.map (amountOf F)).sum := by
  induction hsub with
  | slnil => exact le_refl _
  | @cons counted revoked c hsub ih =>
      -- what is not counted is not negative
      obtain ⟨hc, hnodup⟩ := List.nodup_cons.mp hnodup
      have hnonneg : 0 ≤ amountOf F c :=
        not_lt.mp fun hlt => hc (hsub.subset (hneg c List.mem_cons_self hlt))
      have hrest := ih hnodup fun c' hc' => hneg c' (List.mem_cons_of_mem _ hc')
      rw [List.map_cons, List.sum_cons]
      exact le_add_of_nonneg_of_le hnonneg hrest
  | @cons_cons counted revoked c hsub ih =>
      obtain ⟨hc, hnodup⟩ := List.nodup_cons.mp hnodup
      rw [List.map_cons, List.sum_cons, List.map_cons, List.sum_cons]
      refine add_le_add (le_refl _) (ih hnodup fun c' hc' hlt => ?_)
      rcases List.mem_cons.mp (hneg c' (List.mem_cons_of_mem _ hc') hlt) with rfl | hin
      · exact absurd hc' hc
      · exact hin

/-- What is counted is no more than what is revoked, where negative amounts are counted. -/
theorem counted_le {O : HashId} {F : String} {counted revoked : List Contract}
    (hsub : counted.Sublist (revoked.filter fun c => c.getOrigin = O)) (hnodup : revoked.Nodup)
    (hneg : NegativesIn O F revoked counted) : (counted.map (amountOf F)).sum ≤
      ((revoked.filter fun c => c.getOrigin = O).map (amountOf F)).sum := by
  refine sum_sublist_le hsub (hnodup.filter _) fun c hc hlt => ?_
  obtain ⟨hc, horigin⟩ := List.mem_filter.mp hc
  exact hneg c hc (of_decide_eq_true horigin) hlt

/-- What several contracts revoke is the sum of what each revokes. -/
theorem sum_revoked_flatMap (O : HashId) (F : String) (cs : List Contract) :
    (((cs.flatMap (·.revokingItems)).filter fun c => c.getOrigin = O).map (amountOf F)).sum =
      (cs.map (revokedAmount O F)).sum := by
  induction cs with
  | nil => rfl
  | cons c rest ih => simp [revokedAmount, ih]

/-! ### The rules -/

/-- A split_join permission of the parent at work on a contract whose keys it allows. -/
structure AtWork (F : String) (parent c : Contract) (q : SplitJoin) : Prop where
  changed : q.changed = c
  keys : q.keys = c.effectiveKeys
  field : q.rule.fieldName = F
  allowed : ∃ p, Allows parent c p ∧ p.rule = .splitJoin q.rule ∧ p.params = q.params

/-- The contract's own merge: the contracts it takes of those it revokes make up its amount. -/
def Merges (F : String) (parent c : Contract) (taken : List Contract) : Prop :=
  amountOf F parent < amountOf F c ∧
    ∃ q, AtWork F parent c q ∧ q.revokedSum c.revokingItems = some (amountOf F c, taken)

/-- The contract asks for no sum over siblings: it keeps the amount of its parent, or merges. -/
def Alone (F : String) (parent c : Contract) : Prop :=
  amountOf F c = amountOf F parent ∨ ∃ taken, Merges F parent c taken

/-- A sum over siblings that lets the contract pass, with the revoked contracts it counts: the split of the
    parent's amount, or else the sum of those they revoke. -/
inductive Sums (F : String) (parent : Contract) (siblings : List Contract) (c : Contract) :
    List Contract → Prop where
  | split {q : SplitJoin} (hq : AtWork F parent c q) (hlt : amountOf F c < amountOf F parent)
      (hsum : q.siblingSum siblings = some (some (amountOf F parent))) : Sums F parent siblings c [parent]
  | splitJoin {q : SplitJoin} {context : Context} {taken : List Contract} (hq : AtWork F parent c q)
      (hcontext : q.context = some context) (hsiblings : context.siblings = siblings)
      (hsplit : amountOf F c < amountOf F parent →
        q.siblingSum siblings ≠ some (some (amountOf F parent)))
      (hcase : q.checkSplitJoinCase = some (true, taken)) : Sums F parent siblings c taken

section
variable {F : String} {parent c : Contract}

theorem AtWork.mergeFields {q : SplitJoin} (h : AtWork F parent c q) (hparent : Governed F parent) :
    q.rule.mergeFields = ["state.origin"] := by
  obtain ⟨p, ⟨hp, -⟩, hrule, -⟩ := h.allowed
  have hleaves := hparent.permissions p hp
  simp only [Permission.LeavesToSplitJoin, hrule] at hleaves
  exact hleaves h.field

theorem Merges.counts {taken : List Contract} (h : Merges F parent c taken) (hparent : Governed F parent) :
    taken.Sublist (c.revokingItems.filter fun ri => ri.getOrigin = c.getOrigin) ∧
      amountOf F c = (taken.map (amountOf F)).sum := by
  obtain ⟨-, q, hq, hsum⟩ := h
  obtain ⟨hsub, hsum⟩ := revokedSum_eq (hq.mergeFields hparent) hsum
  rw [hq.changed] at hsub
  rw [hq.field] at hsum
  exact ⟨hsub, hsum⟩

/-- A sum over siblings of one origin gives them what it counts. -/
theorem Sums.counts {siblings counted : List Contract} (h : Sums F parent siblings c counted)
    (hparent : Governed F parent) :
    (∀ s ∈ siblings, s.getOrigin = c.getOrigin) ∧
      (siblings.map (amountOf F)).sum = (counted.map (amountOf F)).sum ∧
      (counted = [parent] ∨
        counted.Sublist ((siblings.flatMap (·.revokingItems)).filter fun ri => ri.getOrigin = c.getOrigin)) := by
  cases h with
  | split hq hlt hsum =>
      obtain ⟨horigin, hsum⟩ := siblingSum_eq (hq.mergeFields hparent) hsum
      rw [hq.changed] at horigin
      rw [hq.field] at hsum
      exact ⟨horigin, by rw [← hsum]; simp, .inl rfl⟩
  | @splitJoin q context taken hq hcontext hsiblings hsplit hcase =>
      have hm := hq.mergeFields hparent
      simp only [SplitJoin.checkSplitJoinCase, hcontext, Option.bind_eq_bind, Option.bind_some,
        Option.bind_eq_some_iff] at hcase
      obtain ⟨sum, hsum, hcase⟩ := hcase
      cases sum with
      | none => simp at hcase
      | some sum =>
          simp only [Option.bind_eq_some_iff] at hcase
          obtain ⟨⟨revoked, taken'⟩, hrev, hcase⟩ := hcase
          obtain ⟨heq, rfl⟩ := Prod.ext_iff.mp (Option.some.inj hcase)
          obtain ⟨horigin, rfl⟩ := siblingSum_eq hm hsum
          obtain ⟨hsub, hq'⟩ := revokedSum_eq hm hrev
          rw [hsiblings] at horigin hsub heq
          rw [hq.changed] at horigin hsub
          rw [hq.field] at heq hq'
          have heq : revoked = (siblings.map (amountOf F)).sum := of_decide_eq_true heq
          exact ⟨horigin, heq.symm.trans hq', .inr (hsub.trans ((List.pwFilter_sublist _).filter _))⟩

/-- What lets a changed amount pass, from the verdict of a permission at work. -/
theorem verdict_passes {q : SplitJoin} {context : Context} {o n : Value} {taken : List Contract}
    (hq : AtWork F parent c q) (hcontext : q.context = some context)
    (ho : bigDecimal o = some (amountOf F parent)) (hn : bigDecimal n = some (amountOf F c))
    (h : q.verdict o n = some (true, taken)) :
    Alone F parent c ∨ ∃ counted, Sums F parent context.siblings c counted := by
  simp only [SplitJoin.verdict, ho, hn, Option.bind_eq_bind, Option.bind_some] at h
  split at h
  next hlt =>
    simp only [SplitJoin.checkSplit, hcontext, Option.bind_eq_bind, Option.bind_some,
      Option.bind_eq_some_iff] at h
    obtain ⟨sum, hsum, h⟩ := h
    cases sum with
    | none => simp at h
    | some sum =>
        simp only [Option.bind_eq_some_iff] at h
        obtain ⟨⟨isValid, taken'⟩, hv, h⟩ := h
        cases isValid with
        | false => simp at h
        | true =>
            unfold SplitJoin.isValidSplit at hv
            split at hv
            next heq =>
              subst heq
              exact .inr ⟨_, .split hq hlt hsum⟩
            next hne =>
              refine .inr ⟨_, .splitJoin hq hcontext rfl (fun _ hsum' => ?_) hv⟩
              exact hne (Option.some.inj (Option.some.inj (hsum.symm.trans hsum')))
  next hnlt =>
    split at h
    next hgt =>
      simp only [SplitJoin.checkMerge, Option.bind_eq_bind, Option.bind_eq_some_iff] at h
      obtain ⟨⟨sum, taken'⟩, hsum, h⟩ := h
      split at h
      next heq =>
        have heq : sum = amountOf F c := heq
        subst heq
        rw [hq.changed] at hsum
        exact .inl (.inr ⟨taken', hgt, q, hq, hsum⟩)
      next => exact .inr ⟨_, .splitJoin hq hcontext rfl (fun hlt => absurd hlt hnlt) h⟩
    next => cases h

/-- CORRECT (one contract): an accepted contract keeps its parent's amount, or merges, or a sum over the
    siblings lets it pass. -/
theorem checkErrors_passes {context : Context} (hcheck : checkErrors parent c (some context) = some [])
    (hF : skipped F = false) (hparent : Governed F parent) (hc : Governed F c) :
    Alone F parent c ∨ ∃ counted, Sums F parent context.siblings c counted := by
  obtain ⟨stateChanges, s, hacc⟩ := checkErrors_accepted hcheck
  obtain ⟨r, hr, rfl⟩ := hacc.state
  obtain ⟨v, hv, hva⟩ := hparent.lookup
  obtain ⟨w, hw, hwa⟩ := hc.lookup
  have hdata : skipped "data" = false := by decide
  obtain ⟨r', hr', hnode⟩ := shown_inner hr hdata rfl rfl
  obtain ⟨changes, created, hch, hn, hshown⟩ := shown_between hr'
  rcases mapChanges_shows hF hv hch with ⟨hnone, -⟩ | ⟨w', hw', hb⟩
  · rw [hw] at hnone
    cases hnone
  obtain rfl := Option.some.inj (hw.symm.trans hw')
  rcases hb with hb | ⟨d, hb, hl⟩
  · -- no delta at the field: the amount is the parent's
    have htext := between_text v w hb
    rw [bigDecimal, htext, ← bigDecimal, hwa] at hva
    exact .inl (.inl (Option.some.inj hva))
  · -- a delta at the field: some split_join let it go
    obtain ⟨ho, hnew, hne⟩ := between_values hb
    have hplace : Progress.node ⟨shown r, c.revokingItems⟩ (.data F) = some d := by
      have hlook : (shown r').lookup F = some d := by
        rw [hshown, List.lookup_append, hl, Option.some_or]
      match r', hlook, hnode with
      | some (.map o n cs), hlook, hnode =>
          simp only [Progress.node, Progress.mapOf, hnode _ rfl]
          exact hlook
    have hchecked : (Place.data F).Checked := trivial
    obtain ⟨p, hallows, hlet⟩ := hacc.lets hchecked hne hplace
    have hleaves := hparent.permissions p hallows.1
    unfold Permission.LeavesToSplitJoin at hleaves
    cases hrule : p.rule with
    | revoke | changeOwner | changeRole => simp [Permission.Lets, hrule] at hlet
    | modifyData fields =>
        simp only [Permission.Lets, hrule] at hlet hleaves
        obtain ⟨fs, u, rfl, hu, -⟩ := acceptsChange_listed hlet
        exact absurd (mem_keys_iff.mpr ⟨u, hu⟩) (hleaves fs rfl)
    | changeNumber n =>
        simp only [Permission.Lets, hrule] at hlet hleaves
        exact absurd hlet.1 hleaves
    | splitJoin rule =>
        simp only [Permission.Lets, hrule] at hlet
        obtain ⟨hfield, o, n, rfl, taken, hverdict⟩ := hlet
        obtain rfl : o = v := ho
        obtain rfl : n = w := hnew
        exact verdict_passes ⟨rfl, rfl, hfield, p, hallows, hrule, rfl⟩ rfl hva hwa hverdict

end
end Universa.Contracts
