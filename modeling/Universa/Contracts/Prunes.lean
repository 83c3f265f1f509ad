import Universa.Contracts.Permitted

/-! What the permissions delete from the changes of a state: each keeps the nodes of the other places,
    and deletes a node only where its own code lets it go. Over all permissions, a node that is gone was
    let go by one that the keys allow. -/

namespace Universa.Contracts
open Universa.Js

/-! ### One permission -/

/-- The node of a place. -/
def Progress.node (s : Progress) : Place → Option Delta
  | .field k => s.stateChanges.lookup k
  | .role k => (s.mapOf "roles").bind (·.lookup k)
  | .data k => (s.mapOf "data").bind (·.lookup k)

/-- The code of the permission lets the node of a place go. -/
def Permission.Lets (p : Permission) (changed : Contract) (context : Option Context)
    (s : Progress) (place : Place) (d : Delta) : Prop :=
  match p.rule, place with
  | .changeOwner, .field k => k = "owner"
  | .changeRole roleName, .role k => roleName = k
  | .modifyData fields, .data k => acceptsChange fields k d.newValue = some true
  | .changeNumber c, .data k => c.fieldName = k ∧ ∃ o n,
      d = .changed o n ∧ c.acceptsChange o n = some true
  | .splitJoin rule, .data k => rule.fieldName = k ∧ ∃ o n,
      d = .changed o n ∧ rule.Balances p.params changed context o n
  | .splitJoin rule, .field k => k = "branch_id" ∧ ∃ o n,
      s.node (.data rule.fieldName) = some (.changed o n) ∧
      rule.Balances p.params changed context o n
  | _, _ => False

theorem lookup_erase_ne {changes : Changes} {k k' : String} (h : k' ≠ k) :
    (erase changes k).lookup k' = changes.lookup k' := by
  unfold erase
  induction changes with
  | nil => rfl
  | cons e rest ih =>
      obtain ⟨a, d⟩ := e
      rcases eq_or_ne a k with rfl | ha
      · have hk : (k' == a) = false := by simpa using h
        rw [List.filter_cons_of_neg (by simp), List.lookup_cons, hk, ih]
      · rw [List.filter_cons_of_pos (by simpa using ha), List.lookup_cons, List.lookup_cons, ih]

theorem lookup_erase_some {changes : Changes} {k k' : String} {d : Delta}
    (h : (erase changes k).lookup k' = some d) : changes.lookup k' = some d := by
  rcases eq_or_ne k' k with rfl | hne
  · obtain ⟨v, hv⟩ := List.lookup_isSome_iff.mp (by rw [h]; rfl)
    have := (List.mem_filter.mp hv.1).2
    simp_all
  · rwa [lookup_erase_ne hne] at h

theorem node_delete_ne {s : Progress} {k : String} {place : Place} (h : place ≠ .field k)
    (hd : k ≠ "data") (hr : k ≠ "roles") : (s.delete k).node place = s.node place := by
  cases place with
  | field k' =>
      have hne : k' ≠ k := fun he => h (he ▸ rfl)
      exact lookup_erase_ne hne
  | role k' =>
      simp only [Progress.node, Progress.mapOf, Progress.delete]
      rw [lookup_erase_ne hr.symm]
  | data k' =>
      simp only [Progress.node, Progress.mapOf, Progress.delete]
      rw [lookup_erase_ne hd.symm]

theorem node_delete_some {s : Progress} {k : String} {place : Place} {d : Delta}
    (hd : k ≠ "data") (hr : k ≠ "roles") (h : (s.delete k).node place = some d) :
    s.node place = some d := by
  by_cases hp : place = .field k
  · subst hp
    exact lookup_erase_some h
  · rwa [node_delete_ne hp hd hr] at h

theorem lookup_setMap {s : Progress} {f f' : String} {changes : Changes} :
    (s.setMap f changes).stateChanges.lookup f' =
      (s.stateChanges.lookup f').map fun d => if f' = f then withChanges d changes else d := by
  unfold Progress.setMap
  induction s.stateChanges with
  | nil => simp
  | cons e rest ih =>
      obtain ⟨a, d⟩ := e
      rw [List.map_cons, List.lookup_cons, List.lookup_cons]
      rcases eq_or_ne f' a with rfl | ha
      · simp
      · have hb : (f' == a) = false := by simpa using ha
        simpa [hb] using ih

theorem mapOf_setMap {s : Progress} {f : String} {old changes : Changes}
    (h : s.mapOf f = some old) : (s.setMap f changes).mapOf f = some changes := by
  unfold Progress.mapOf at h ⊢
  rw [lookup_setMap]
  split at h
  next o n cs heq => simp [heq, withChanges]
  next => cases h

theorem mapOf_setMap_ne {s : Progress} {f f' : String} {changes : Changes} (h : f' ≠ f) :
    (s.setMap f changes).mapOf f' = s.mapOf f' := by
  unfold Progress.mapOf
  simp [lookup_setMap, h]

theorem dataLoop_some {fields : Option (List (String × Value))} {k : String} {d : Delta} :
    ∀ {ks : List String} {changes kept : Changes}, dataLoop fields ks changes = some kept →
    kept.lookup k = some d → changes.lookup k = some d
  | [], changes, kept, h, hl => by
      obtain rfl := Option.some.inj h
      exact hl
  | key :: rest, changes, kept, h, hl => by
      rw [dataLoop] at h
      split at h
      · exact dataLoop_some h hl
      · simp only [Option.bind_eq_bind, Option.bind_eq_some_iff] at h
        obtain ⟨accepted, -, h⟩ := h
        cases accepted with
        | true => exact lookup_erase_some (dataLoop_some h hl)
        | false => exact dataLoop_some h hl

theorem dataLoop_kept {fields : Option (List (String × Value))} {k : String} {d : Delta} :
    ∀ {ks : List String} {changes kept : Changes}, dataLoop fields ks changes = some kept →
    changes.lookup k = some d →
    kept.lookup k = some d ∨ acceptsChange fields k d.newValue = some true
  | [], changes, kept, h, hl => by
      obtain rfl := Option.some.inj h
      exact .inl hl
  | key :: rest, changes, kept, h, hl => by
      rw [dataLoop] at h
      split at h
      · exact dataLoop_kept h hl
      next item hitem =>
        simp only [Option.bind_eq_bind, Option.bind_eq_some_iff] at h
        obtain ⟨accepted, ha, h⟩ := h
        cases accepted with
        | false => exact dataLoop_kept h hl
        | true =>
            rcases eq_or_ne k key with rfl | hne
            · rw [hl] at hitem
              exact .inr (Option.some.inj hitem ▸ ha)
            · exact dataLoop_kept h (by rwa [lookup_erase_ne hne])

/-- The map a place lies in. -/
def Place.section : Place → Option String
  | .field _ => none
  | .role _ => some "roles"
  | .data _ => some "data"

theorem node_setMap {s : Progress} {f : String} {old changes : Changes} {place : Place}
    (hf : f = "data" ∨ f = "roles") (h : s.mapOf f = some old) (hc : place.Checked) :
    (s.setMap f changes).node place =
      if place.section = some f then changes.lookup place.key else s.node place := by
  cases place with
  | field k =>
      have hne : k ≠ f := by
        rintro rfl
        rcases hf with rfl | rfl <;> simp [Place.Checked] at hc
      simp [Progress.node, lookup_setMap, hne, Place.section]
  | role k =>
      rcases hf with rfl | rfl
      · simp [Progress.node, mapOf_setMap_ne, Place.section]
      · simp [Progress.node, mapOf_setMap h, Place.section, Place.key]
  | data k =>
      rcases hf with rfl | rfl
      · simp [Progress.node, mapOf_setMap h, Place.section, Place.key]
      · simp [Progress.node, mapOf_setMap_ne, Place.section]

theorem node_section {s : Progress} {f : String} {old : Changes} {place : Place}
    (h : s.mapOf f = some old) (hp : place.section = some f) :
    s.node place = old.lookup place.key := by
  cases place with
  | field k => cases hp
  | role k | data k =>
      obtain rfl := Option.some.inj hp
      simp [Progress.node, h, Place.key]

/-- What a permission may do to the nodes: keep them, or delete those its rule lets go. -/
def Progress.Prunes (p : Permission) (changed : Contract) (context : Option Context)
    (s s' : Progress) : Prop :=
  ∀ place : Place, place.Checked →
    (∀ d, s'.node place = some d → s.node place = some d) ∧
    (∀ d, s.node place = some d → s'.node place = some d ∨ p.Lets changed context s place d)

theorem prunes_refl {p : Permission} {changed : Contract} {context : Option Context}
    {s : Progress} : s.Prunes p changed context s :=
  fun _ _ => ⟨fun _ h => h, fun _ h => .inl h⟩

/-- Deleting one key of the data or of the roles. -/
theorem prunes_erase {p : Permission} {changed : Contract} {context : Option Context}
    {s : Progress} {f k : String} {old : Changes} (hf : f = "data" ∨ f = "roles")
    (h : s.mapOf f = some old)
    (hk : ∀ place : Place, place.section = some f → place.key = k → ∀ d, s.node place = some d →
      p.Lets changed context s place d) :
    s.Prunes p changed context (s.setMap f (erase old k)) := by
  intro place hc
  rw [node_setMap hf h hc]
  by_cases hp : place.section = some f
  · rw [if_pos hp, node_section h hp]
    refine ⟨fun d hd => lookup_erase_some hd, fun d hd => ?_⟩
    by_cases he : place.key = k
    · exact .inr (hk place hp he d (by rw [node_section h hp, hd]))
    · exact .inl (by rwa [lookup_erase_ne he])
  · rw [if_neg hp]
    exact ⟨fun _ hd => hd, fun _ hd => .inl hd⟩

theorem changeNumber_prunes {p : Permission} {c : ChangeNumberPermission} {changed : Contract}
    {context : Option Context} {s s' : Progress} (hr : p.rule = .changeNumber c)
    (h : c.checkChanges s = some s') : s.Prunes p changed context s' := by
  unfold ChangeNumberPermission.checkChanges at h
  split at h
  · obtain rfl := Option.some.inj h
    exact prunes_refl
  next dataChanges hmap =>
    simp only [Option.bind_eq_bind, Option.bind_eq_some_iff] at h
    obtain ⟨own, -, h⟩ := h
    cases own with
    | false =>
        obtain rfl := Option.some.inj h
        exact prunes_refl
    | true =>
        simp only [Bool.not_true, Bool.false_eq_true, if_false] at h
        split at h
        next o n hnode =>
          simp only [Option.bind_eq_some_iff] at h
          obtain ⟨accepted, ha, h⟩ := h
          cases accepted with
          | false =>
              obtain rfl := Option.some.inj h
              exact prunes_refl
          | true =>
              obtain rfl := Option.some.inj h
              refine prunes_erase (.inl rfl) hmap fun place hp he d hd => ?_
              rw [node_section hmap hp, he, hnode] at hd
              cases place with
              | field k | role k => simp [Place.section] at hp
              | data k =>
                  simp only [Permission.Lets, hr]
                  exact ⟨he.symm, o, n, (Option.some.inj hd).symm, ha⟩
        next =>
          obtain rfl := Option.some.inj h
          exact prunes_refl

theorem changeRole_prunes {p : Permission} {roleName : String} {changed : Contract}
    {context : Option Context} {s : Progress} (hr : p.rule = .changeRole roleName) :
    s.Prunes p changed context (changeRole roleName s) := by
  unfold changeRole
  split
  · exact prunes_refl
  next roles hmap =>
    refine prunes_erase (.inr rfl) hmap fun place hp he d hd => ?_
    cases place with
    | field k | data k => simp [Place.section] at hp
    | role k =>
        simp only [Permission.Lets, hr]
        exact he.symm

theorem modifyData_prunes {p : Permission} {fields : Option (List (String × Value))}
    {changed : Contract} {context : Option Context} {s s' : Progress}
    (hr : p.rule = .modifyData fields) (h : modifyData fields s = some s') :
    s.Prunes p changed context s' := by
  simp only [modifyData, Option.bind_eq_bind, Option.bind_eq_some_iff] at h
  obtain ⟨s₁, hs₁, -, -, h⟩ := h
  obtain rfl := Option.some.inj h
  unfold modifyFields at hs₁
  split at hs₁
  · obtain rfl := Option.some.inj hs₁
    exact prunes_refl
  next dataChanges hmap =>
    obtain ⟨kept, hkept, rfl⟩ := Option.map_eq_some_iff.mp hs₁
    intro place hc
    rw [node_setMap (.inl rfl) hmap hc]
    by_cases hp : place.section = some "data"
    · rw [if_pos hp, node_section hmap hp]
      refine ⟨fun d hd => dataLoop_some hkept hd, fun d hd => ?_⟩
      cases place with
      | field k | role k => simp [Place.section] at hp
      | data k =>
          simp only [Permission.Lets, hr]
          exact dataLoop_kept hkept hd
    · rw [if_neg hp]
      exact ⟨fun _ hd => hd, fun _ hd => .inl hd⟩

theorem node_release {s : Progress} {taken : List Contract} {place : Place} :
    (s.release taken).node place = s.node place := by
  cases place <;> rfl

theorem splitJoin_prunes {p : Permission} {rule : SplitJoinPermission} {changed : Contract}
    {context : Option Context} {s s' : Progress} (hr : p.rule = .splitJoin rule)
    (h : SplitJoin.checkChanges ⟨rule, p.params, changed, context, changed.effectiveKeys⟩ s =
      some s') : s.Prunes p changed context s' := by
  unfold SplitJoin.checkChanges at h
  split at h
  · obtain rfl := Option.some.inj h
    exact prunes_refl
  next dataChanges hmap =>
    simp only [Option.bind_eq_bind, Option.bind_eq_some_iff] at h
    obtain ⟨own, -, h⟩ := h
    cases own with
    | false =>
        obtain rfl := Option.some.inj h
        exact prunes_refl
    | true =>
        simp only [Bool.not_true, Bool.false_eq_true, if_false] at h
        split at h
        next o n hnode =>
          simp only [Option.bind_eq_some_iff] at h
          obtain ⟨⟨isValid, taken⟩, hv, h⟩ := h
          cases isValid with
          | false =>
              obtain rfl := Option.some.inj h
              exact prunes_refl
          | true =>
              obtain rfl := Option.some.inj h
              have hdata : s.Prunes p changed context
                  (s.setMap "data" (erase dataChanges rule.fieldName)) := by
                refine prunes_erase (.inl rfl) hmap fun place hp he d hd => ?_
                rw [node_section hmap hp, he, hnode] at hd
                cases place with
                | field k | role k => simp [Place.section] at hp
                | data k =>
                    simp only [Permission.Lets, hr]
                    exact ⟨he.symm, o, n, (Option.some.inj hd).symm, taken, hv⟩
              intro place hc
              rw [node_release]
              by_cases hp : place = .field "branch_id"
              · subst hp
                refine ⟨fun d hd => (hdata _ hc).1 d
                  (node_delete_some (by decide) (by decide) hd), fun d hd => .inr ?_⟩
                simp only [Permission.Lets, hr]
                exact ⟨trivial, o, n, by simpa [Progress.node, hmap] using hnode, taken, hv⟩
              · rw [node_delete_ne hp (by decide) (by decide)]
                exact hdata place hc
        next =>
          obtain rfl := Option.some.inj h
          exact prunes_refl

/-- A permission deletes only what its rule lets go. -/
theorem checkChanges_prunes {p : Permission} {changed : Contract} {context : Option Context}
    {s s' : Progress} (h : p.checkChanges changed context changed.effectiveKeys s = some s') :
    s.Prunes p changed context s' := by
  unfold Permission.checkChanges at h
  split at h
  next hr =>
    obtain rfl := Option.some.inj h
    exact prunes_refl
  next hr =>
    obtain rfl := Option.some.inj h
    intro place hc
    by_cases hp : place = .field "owner"
    · subst hp
      refine ⟨fun d hd => node_delete_some (by decide) (by decide) hd, fun d _ => .inr ?_⟩
      simp only [Permission.Lets, hr]
    · rw [node_delete_ne hp (by decide) (by decide)]
      exact ⟨fun _ hd => hd, fun _ hd => .inl hd⟩
  next roleName hr =>
    obtain rfl := Option.some.inj h
    exact changeRole_prunes hr
  next fields hr => exact modifyData_prunes hr h
  next c hr => exact changeNumber_prunes hr h
  next rule hr => exact splitJoin_prunes hr h

/-! ### All permissions -/

theorem lets_mono {p : Permission} {changed : Contract} {context : Option Context}
    {s s₀ : Progress} {place : Place} {d : Delta}
    (hback : ∀ k d, s.node (.data k) = some d → s₀.node (.data k) = some d)
    (h : p.Lets changed context s place d) : p.Lets changed context s₀ place d := by
  unfold Permission.Lets at h ⊢
  split at h
  case h_6 rule k =>
    obtain ⟨hk, o, n, hn, hb⟩ := h
    exact ⟨hk, o, n, hback _ _ hn, hb⟩
  all_goals exact h

/-- What the permissions leave was there before, and what they delete some allowed one let go. -/
theorem excludePermittedChanges_node {changed : Contract} {context : Option Context}
    {s₀ s' : Progress} : ∀ {ps : List Permission} {s : Progress},
    (∀ place : Place, place.Checked → ∀ d, s.node place = some d → s₀.node place = some d) →
    excludePermittedChanges changed context ps s = some s' →
    ∀ place : Place, place.Checked → ∀ d, s.node place = some d →
    s'.node place = some d ∨ ∃ p ∈ ps, p.isAllowedForKeys changed.effectiveKeys = true ∧
      p.Lets changed context s₀ place d
  | [], s, _, h, place, _, d, hd => by
      obtain rfl := Option.some.inj h
      exact .inl hd
  | p :: ps, s, hback, h, place, hc, d, hd => by
      rw [excludePermittedChanges] at h
      split at h
      next hp =>
        simp only [Option.bind_eq_bind, Option.bind_eq_some_iff] at h
        obtain ⟨s₁, hs₁, h⟩ := h
        have hprunes := checkChanges_prunes hs₁
        rcases (hprunes place hc).2 d hd with hd₁ | hlet
        · have hback₁ : ∀ place : Place, place.Checked → ∀ d, s₁.node place = some d →
              s₀.node place = some d :=
            fun place hc d hd => hback place hc d ((hprunes place hc).1 d hd)
          rcases excludePermittedChanges_node hback₁ h place hc d hd₁ with hd' | ⟨q, hq, hl⟩
          · exact .inl hd'
          · exact .inr ⟨q, List.mem_cons_of_mem _ hq, hl⟩
        · exact .inr ⟨p, List.mem_cons_self, hp,
            lets_mono (fun k d hd => hback (.data k) trivial d hd) hlet⟩
      next =>
        rcases excludePermittedChanges_node hback h place hc d hd with hd' | ⟨q, hq, hl⟩
        · exact .inl hd'
        · exact .inr ⟨q, List.mem_cons_of_mem _ hq, hl⟩

end Universa.Contracts
