import Universa.Contracts.Quantiser

/-! The tree of quantisers is one budget. `work` lists what a check charges, in order and without looking at a
    quantiser; `check` follows this list as a single budget of the root's limit would. So the limit is exact,
    except for what `can_perform` charges to a referenced item, whose quantiser nobody adds back. -/

namespace Universa.Contracts.Quanta
open Budget

/-! ### The work of a check -/

/-- The end of the work, where something else is thrown. -/
def stopIf (b : Bool) : List Event := if b then [.stop] else []

/-- What a signature charges, by the way to charge. -/
def Signature.work (event : ℕ → Event) : Signature → List Event
  | .unreadable => [.stop]
  | .noKey => []
  | .verified key verifyThrows => event key.price :: stopIf verifyThrows

/-- What `verifySealedKeys` charges. -/
def Sealing.work (event : ℕ → Event) (s : Sealing) : List Event :=
  match s.sealedBinary with
  | none => []
  | some data =>
      if !s.isNeedVerifySealedKeys then s.sealedByKeys.map fun key => event key.price
      else if !data.opens then [.stop]
      else data.signatures.flatMap (Signature.work event)

/-- What a condition charges. -/
def Condition.work : Condition → List Event
  | .canPerform referenced => if referenced.sealedByKeys.length = 0 then referenced.work .elsewhere else []
  | .throws => [.stop]

/-- What the `revoke` permissions of a contract cost: one each, up to the first that allows it or throws. -/
def revokePermissionWork : List Answer → List Event
  | [] => []
  | answer :: permissions =>
      .cost priceApplicablePerm ::
        match answer with
        | .allowed => []
        | .denied => revokePermissionWork permissions
        | .throws => [.stop]

/-- What revoking contracts costs. -/
def revokeWork (revokes : List RevokingItem) : List Event :=
  (revokes.filter (!·.isParent)).flatMap fun rc => revokePermissionWork rc.revokePermissions

/-- The price of a permission that is allowed. -/
def permissionPrice (p : PermissionAnswer) : List Event :=
  if p.isSplitJoin then [.cost priceApplicablePerm, .cost priceSplitjoinPerm] else [.cost priceApplicablePerm]

/-- What a permission costs: the first of its name that is allowed is charged. -/
def permissionWork (permissionQuantized : Bool) (p : PermissionAnswer) : List Event :=
  match p.isAllowedForKeys with
  | .allowed => (if permissionQuantized then [] else permissionPrice p) ++ stopIf p.checkChangesThrows
  | .denied => []
  | .throws => [.stop]

/-- What the permissions of one name cost. -/
def permittedWork : Bool → List PermissionAnswer → List Event
  | _, [] => []
  | permissionQuantized, p :: permissions =>
      permissionWork permissionQuantized p ++
        permittedWork (permissionQuantized || p.isAllowedForKeys = .allowed) permissions

/-- What the check by the origin costs. -/
def Contract.originWork (c : Contract) : List Event :=
  match c.changes with
  | .root => revokeWork c.revokingItems
  | .parentMissing => []
  | .changed throws permissions deltaThrows =>
      stopIf throws ++ permissions.flatMap (permittedWork false) ++ stopIf deltaThrows ++
        revokeWork (c.revokingItems.filter (·.leftByDelta))

/-- What the check of a contract costs, without its new items. -/
def Contract.work (c : Contract) : List Event :=
  stopIf c.treeThrows ++
    [.cost priceRegisterVersion, .cost (priceRevokeVersion * c.revokingItems.length),
      .cost (priceCheckConstraint * c.constraints)] ++
    c.conditions.flatMap Condition.work ++ c.revokingItems.flatMap (fun ri => ri.conditions.flatMap Condition.work) ++
    stopIf c.basicCheckThrows ++ c.originWork

mutual
/-- What the signatures of the tree cost. -/
def Item.signatureWork : Item → List Event
  | .mk c newItems =>
      c.sealing.work .cost ++ newSignatureWork newItems ++
        c.revokingItems.flatMap fun ri => ri.sealing.work .cost

/-- The same for new items. -/
def newSignatureWork : List Item → List Event
  | [] => []
  | ni :: newItems => ni.signatureWork ++ newSignatureWork newItems
end

mutual
/-- What the checks of the tree cost, after the signatures. -/
def Item.checkWork : Item → List Event
  | .mk c newItems => c.work ++ newCheckWork newItems ++ stopIf c.lastChecksThrow

/-- The same for new items. -/
def newCheckWork : List Item → List Event
  | [] => []
  | ni :: newItems => ni.checkWork ++ newCheckWork newItems
end

/-- All a check of the root costs. -/
def Item.work (root : Item) : List Event := root.signatureWork ++ root.checkWork

/-! ### Work that follows its list -/

/-- An outcome is the end of a run of the budget. -/
def Agrees (limit : ℕ) : Outcome Thrown Empty Meter Unit → End → Prop
  | .ok () m, .done spent charged => m = ⟨⟨spent, limit⟩, charged⟩
  | .throw .quantiserException m, .exceeded charged => m.charged = charged
  | .throw .other m, .stopped charged => m.charged = charged
  | _, _ => False

/-- The three ways to agree. -/
theorem Agrees.cases {limit : ℕ} {out : Outcome Thrown Empty Meter Unit} {e : End} (h : Agrees limit out e) :
    (∃ spent charged, out = .ok () ⟨⟨spent, limit⟩, charged⟩ ∧ e = .done spent charged) ∨
      (∃ m, out = .throw .quantiserException m ∧ e = .exceeded m.charged) ∨
      ∃ m, out = .throw .other m ∧ e = .stopped m.charged := by
  unfold Agrees at h
  split at h
  · exact Or.inl ⟨_, _, by rw [h], rfl⟩
  · exact Or.inr (Or.inl ⟨_, rfl, by rw [h]⟩)
  · exact Or.inr (Or.inr ⟨_, rfl, by rw [h]⟩)
  · exact h.elim

/-- From any quantiser within a limit, the work ends as the budget does. -/
def Follows (work : Work) (es : List Event) : Prop :=
  ∀ limit spent charged : ℕ, spent ≤ limit →
    Agrees limit (work ⟨⟨spent, limit⟩, charged⟩) (spend limit es spent charged)

namespace Follows
variable {work work' : Work} {es fs : List Event}

theorem nil : Follows (pure ()) [] := fun _ _ _ _ => rfl

theorem stop : Follows (Comp.fail .other) [.stop] := fun _ _ _ _ => rfl

theorem charge (n : ℕ) : Follows (Quanta.charge n) [.cost n] := by
  intro limit spent charged hspent
  have hrun : Quanta.charge n ⟨⟨spent, limit⟩, charged⟩ =
      addWorkCost n ⟨⟨spent, limit⟩, charged + n⟩ := rfl
  have hover : (0 ≤ (limit : ℤ) ∧ (limit : ℤ) < (spent + n : ℕ)) ↔ limit < spent + n := by omega
  simp only [hrun, addWorkCost, hover, spend]
  split <;> rfl

theorem chargeReferenced (n : ℕ) : Follows (Quanta.chargeReferenced n) [.elsewhere n] := fun _ _ _ _ => rfl

theorem bind (h : Follows work es) (h' : Follows work' fs) : Follows (do work; work') (es ++ fs) := by
  intro limit spent charged hspent
  have hrun : (do work; work') ⟨⟨spent, limit⟩, charged⟩ =
      Comp.bind work (fun _ => work') ⟨⟨spent, limit⟩, charged⟩ := rfl
  rw [hrun, Comp.bind, spend_append]
  rcases (h limit spent charged hspent).cases with ⟨s, c, hout, hend⟩ | ⟨m, hout, hend⟩ | ⟨m, hout, hend⟩
  · rw [hout, hend]
    exact h' limit s c (spend_le hspent hend)
  · rw [hout, hend]
    rfl
  · rw [hout, hend]
    rfl

/-- The rest of the budget goes to a contract below, and what it spends is added back: this never throws, as the
    contract stayed within the rest. -/
theorem subItem (h : Follows work es) : Follows (Quanta.subItem work) es := by
  intro limit spent charged hspent
  have hleft : (⟨spent, limit⟩ : Quantiser).quantasLeft = ((limit - spent : ℕ) : ℤ) := by
    simp only [Quantiser.quantasLeft]
    omega
  have hrun : Quanta.subItem work ⟨⟨spent, limit⟩, charged⟩ =
      addBack ⟨spent, limit⟩ (work ⟨⟨0, (limit - spent : ℕ)⟩, charged⟩) := by rw [← hleft]; rfl
  rw [hrun, spend_nested hspent]
  rcases (h (limit - spent) 0 charged (Nat.zero_le _)).cases with
    ⟨s, c, hout, hend⟩ | ⟨m, hout, hend⟩ | ⟨m, hout, hend⟩
  · have hwithin : ¬ (0 ≤ (limit : ℤ) ∧ (limit : ℤ) < (spent + s : ℕ)) := by
      have := spend_le (Nat.zero_le _) hend
      omega
    have hback : addWorkCost s ⟨⟨spent, limit⟩, c⟩ = .ok () ⟨⟨spent + s, limit⟩, c⟩ := if_neg hwithin
    rw [hend, show work ⟨⟨0, (limit - spent : ℕ)⟩, charged⟩ = _ from hout]
    simp only [addBack, hback]
    rfl
  · rw [hend, show work ⟨⟨0, (limit - spent : ℕ)⟩, charged⟩ = _ from hout]
    rfl
  · rw [hend, show work ⟨⟨0, (limit - spent : ℕ)⟩, charged⟩ = _ from hout]
    rfl

/-- A loop whose rounds follow their events. -/
theorem each {α : Type} {work : α → Work} {events : α → List Event} (h : ∀ a, Follows (work a) (events a)) :
    ∀ as : List α, Follows (Quanta.each work as) (as.flatMap events)
  | [] => nil
  | a :: as => List.flatMap_cons ▸ (h a).bind (each h as)

theorem throwIf (b : Bool) : Follows (Quanta.throwIf b) (stopIf b) := by
  cases b
  · exact nil
  · exact stop

end Follows

/-! ### The check follows its list -/

theorem follows_signature {charge : ℕ → Work} {event : ℕ → Event} (h : ∀ n, Follows (charge n) [event n])
    (s : Signature) : Follows (s.check charge) (s.work event) := by
  cases s with
  | unreadable => exact Follows.stop
  | noKey => exact Follows.nil
  | verified key verifyThrows => exact (h key.price).bind (Follows.throwIf verifyThrows)

theorem follows_verifySealedKeys {charge : ℕ → Work} {event : ℕ → Event} (h : ∀ n, Follows (charge n) [event n])
    (s : Sealing) : Follows (s.verifySealedKeys charge) (s.work event) := by
  have hkeys (keys : List Key) : Follows (each (fun key => charge key.price) keys)
      (keys.map fun key => event key.price) := by
    rw [← List.flatMap_singleton' (keys.map _), List.flatMap_map]
    exact Follows.each (fun key => h key.price) keys
  cases hdata : s.sealedBinary with
  | none =>
      simp only [Sealing.verifySealedKeys, Sealing.work, hdata]
      exact Follows.nil
  | some data =>
      simp only [Sealing.verifySealedKeys, Sealing.work, hdata]
      split
      · exact hkeys _
      · split
        · exact Follows.stop
        · exact Follows.each (follows_signature h) data.signatures

theorem follows_condition (c : Condition) : Follows c.check c.work := by
  cases c with
  | canPerform referenced =>
      simp only [Condition.check, Condition.work]
      split
      · exact follows_verifySealedKeys Follows.chargeReferenced referenced
      · exact Follows.nil
  | throws => exact Follows.stop

theorem follows_checkRevokePermission : ∀ permissions : List Answer,
    Follows (checkRevokePermission permissions) (revokePermissionWork permissions)
  | [] => Follows.nil
  | answer :: permissions => by
      refine (Follows.charge priceApplicablePerm).bind ?_
      cases answer with
      | allowed => exact Follows.nil
      | denied => exact follows_checkRevokePermission permissions
      | throws => exact Follows.stop

theorem follows_checkRevokePermissions (revokes : List RevokingItem) :
    Follows (checkRevokePermissions revokes) (revokeWork revokes) :=
  Follows.each (fun rc : RevokingItem => follows_checkRevokePermission rc.revokePermissions) _

theorem follows_quantisePermission (p : PermissionAnswer) : Follows (quantisePermission p) (permissionPrice p) := by
  cases hsplit : p.isSplitJoin
  · simp only [quantisePermission, permissionPrice, hsplit]
    exact (Follows.charge priceApplicablePerm).bind Follows.nil
  · simp only [quantisePermission, permissionPrice, hsplit]
    exact (Follows.charge priceApplicablePerm).bind (Follows.charge priceSplitjoinPerm)

theorem follows_excludePermission (permissionQuantized : Bool) (p : PermissionAnswer) :
    Follows (excludePermission permissionQuantized p) (permissionWork permissionQuantized p) := by
  unfold excludePermission permissionWork
  cases p.isAllowedForKeys with
  | allowed =>
      refine Follows.bind ?_ (Follows.throwIf p.checkChangesThrows)
      cases permissionQuantized with
      | false => exact follows_quantisePermission p
      | true => exact Follows.nil
  | denied => exact Follows.nil
  | throws => exact Follows.stop

theorem follows_excludePermitted : ∀ (permissionQuantized : Bool) (permissions : List PermissionAnswer),
    Follows (excludePermitted permissionQuantized permissions) (permittedWork permissionQuantized permissions)
  | _, [] => Follows.nil
  | permissionQuantized, p :: permissions =>
      (follows_excludePermission permissionQuantized p).bind (follows_excludePermitted _ permissions)

theorem follows_checkByOrigin (c : Contract) : Follows c.checkByOrigin c.originWork := by
  cases hchanges : c.changes with
  | root =>
      simp only [Contract.checkByOrigin, Contract.originWork, hchanges]
      exact follows_checkRevokePermissions c.revokingItems
  | parentMissing =>
      simp only [Contract.checkByOrigin, Contract.originWork, hchanges]
      exact Follows.nil
  | changed throws permissions deltaThrows =>
      simp only [Contract.checkByOrigin, Contract.originWork, hchanges, List.append_assoc]
      exact (Follows.throwIf throws).bind ((Follows.each (follows_excludePermitted false) permissions).bind
        ((Follows.throwIf deltaThrows).bind (follows_checkRevokePermissions _)))

theorem follows_contract (c : Contract) : Follows c.check c.work := by
  have hrevoked : Follows (each (fun ri : RevokingItem => each Condition.check ri.conditions) c.revokingItems)
      (c.revokingItems.flatMap fun ri => ri.conditions.flatMap Condition.work) :=
    Follows.each (fun ri : RevokingItem => Follows.each follows_condition ri.conditions) c.revokingItems
  simp only [Contract.work, List.append_assoc, List.cons_append, List.nil_append]
  exact (Follows.throwIf c.treeThrows).bind ((Follows.charge _).bind ((Follows.charge _).bind
    ((Follows.charge _).bind ((Follows.each follows_condition c.conditions).bind (hrevoked.bind
      ((Follows.throwIf c.basicCheckThrows).bind (follows_checkByOrigin c)))))))

mutual
theorem follows_verifySignatures : ∀ i : Item, Follows i.verifySignatures i.signatureWork
  | .mk c newItems => by
      simp only [Item.verifySignatures, Item.signatureWork, List.append_assoc]
      exact (follows_verifySealedKeys Follows.charge c.sealing).bind ((follows_verifyNewItems newItems).bind
        (Follows.each (fun ri : RevokingItem => (follows_verifySealedKeys Follows.charge ri.sealing).subItem) _))

theorem follows_verifyNewItems : ∀ is : List Item, Follows (verifyNewItems is) (newSignatureWork is)
  | [] => Follows.nil
  | ni :: newItems => by
      simp only [verifyNewItems, newSignatureWork]
      exact (follows_verifySignatures ni).subItem.bind (follows_verifyNewItems newItems)
end

/-- The check of a contract starts with its quantiser at zero. -/
theorem check_reset (isRoot : Bool) (c : Contract) (newItems : List Item) (spent : ℕ) (limit : ℤ) (charged : ℕ) :
    (Item.mk c newItems).check isRoot ⟨⟨spent, limit⟩, charged⟩ =
      (do
        (if isRoot then (Item.mk c newItems).verifySignatures else pure () : Work)
        c.check
        checkNewItems newItems
        throwIf c.lastChecksThrow : Work) ⟨⟨0, limit⟩, charged⟩ := rfl

mutual
/-- The check of a new item follows its list, as its quantiser was reset before. -/
theorem follows_check : ∀ i : Item, Follows (subItem (i.check false)) i.checkWork
  | .mk c newItems => by
      have hbody := Follows.nil.bind ((follows_contract c).bind ((follows_checkNewItems newItems).bind
        (Follows.throwIf c.lastChecksThrow)))
      intro limit spent charged hspent
      have hsub := hbody.subItem limit spent charged hspent
      simpa [subItem, check_reset, Item.checkWork] using hsub

theorem follows_checkNewItems : ∀ is : List Item, Follows (checkNewItems is) (newCheckWork is)
  | [] => Follows.nil
  | ni :: newItems => (follows_check ni).bind (follows_checkNewItems newItems)
end

/-- The check of the root is one budget of its limit. -/
theorem check_root (root : Item) (limit spent charged : ℕ) :
    Agrees limit (root.check true ⟨⟨spent, limit⟩, charged⟩) (spend limit root.work 0 charged) := by
  obtain ⟨c, newItems⟩ := root
  have hbody := (follows_verifySignatures (.mk c newItems)).bind ((follows_contract c).bind
    ((follows_checkNewItems newItems).bind (Follows.throwIf c.lastChecksThrow)))
  rw [check_reset, Item.work, Item.checkWork, List.append_assoc]
  exact hbody limit 0 charged (Nat.zero_le _)

/-! ### The limit -/

/-- What a check ends with: a `QuantiserException` when more than the limit was charged, or all that was charged
    as the sum of the root, within the limit. -/
def Exact (limit : ℕ) : Outcome Thrown Empty Meter Unit → Prop
  | .ok () m => m.quantiser.quantaSum = m.charged ∧ m.quantiser.quantaSum ≤ limit
  | .throw .quantiserException m => limit < m.charged
  | .throw .other _ | .crash _ _ => False

/-- CODE DEFECT (limit): the limit is exact over the tree if and only if the tree itself costs more, or no other
    exception ends the check and nothing is charged to a referenced item, whose quantiser nobody adds back. -/
theorem check_exact_iff (root : Item) (limit spent : ℕ) :
    Exact limit (root.check true ⟨⟨spent, limit⟩, 0⟩) ↔
      limit < paid root.work ∨ stops root.work = false ∧ unpaid root.work = 0 := by
  have hspec : _ := @spend_spec limit 0 0 root.work (Nat.zero_le limit)
  rcases (check_root root limit spent 0).cases with ⟨s, c, hout, hend⟩ | ⟨m, hout, hend⟩ | ⟨m, hout, hend⟩
  · obtain ⟨hpaid, hstops, rfl, rfl⟩ := hend ▸ hspec
    simp only [hout, Exact, hstops, true_and]
    omega
  · obtain ⟨hpaid, hcharged⟩ := hend ▸ hspec
    simp only [hout, Exact]
    omega
  · obtain ⟨hpaid, hstops⟩ := hend ▸ hspec
    simp only [hout, Exact, hstops, Bool.true_eq_false, false_and, or_false, false_iff]
    omega

/-- A contract whose only constraint has these conditions. -/
def constrained (conditions : List Condition) : Item :=
  .mk ⟨⟨none, false, []⟩, false, 1, conditions, [], false, .root, false⟩ []

/-- A referenced item with one signature of a key of 2048 bits that nobody verified yet. -/
def signedOnce : Sealing := ⟨some ⟨true, [.verified ⟨2048⟩ false]⟩, true, []⟩

/-- `can_perform` charges a quantum that the root does not have, whether or not its evaluation throws then. -/
theorem can_perform_not_exact :
    ¬ Exact 1000 ((constrained [.canPerform signedOnce]).check true ⟨⟨0, 1000⟩, 0⟩) ∧
      ¬ Exact 1000 ((constrained [.canPerform signedOnce, .throws]).check true ⟨⟨0, 1000⟩, 0⟩) := by
  have hends : (constrained [.canPerform signedOnce]).check true ⟨⟨0, 1000⟩, 0⟩ =
      .ok () ⟨⟨21, 1000⟩, 22⟩ := rfl
  have hthrows : (constrained [.canPerform signedOnce, .throws]).check true ⟨⟨0, 1000⟩, 0⟩ =
      .throw .other ⟨⟨21, 1000⟩, 22⟩ := rfl
  rw [hends, hthrows]
  exact ⟨fun h => absurd h.1 (by decide), id⟩

end Universa.Contracts.Quanta
