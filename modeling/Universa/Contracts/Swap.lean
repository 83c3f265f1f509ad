import Mathlib.Data.List.Dedup
import Mathlib.Data.List.Nodup
import Mathlib.Data.List.TakeWhile
import Universa.Contracts.Constraints

/-! The first step of a swap (`startSwap` with `createRevision` set): new revisions of the contracts of two parties,
    with a reference from each to each of the other party. All references have the name "", so a contract's map
    keeps one of them, the one to the last contract of the other party. The main contract that carries the revisions
    is one of the further contracts of a transaction. -/

namespace Universa.Contracts.Constraints
variable {K A H C D : Type} [DecidableEq K]

/-! ### The new revisions -/

/-- The keys of a `GenericMap` or `GenericSet` that some keys are put in: each once, where it came first. -/
def firsts {X : Type} [DecidableEq X] (xs : List X) : List X := xs.reverse.dedup.reverse

/-- `new SimpleRole(name, keys)`. -/
def keyRole (keys : List K) : RoleNode K A ℕ := ⟨true, [], [], .simple (firsts keys) []⟩

/-- `new SimpleRole(name, addresses)`, of different addresses. -/
def addressRole (addresses : List A) : RoleNode K A ℕ := ⟨true, [], [], .simple [] addresses⟩

/-- A contract that is listed, with what its new revision gets: data, a transactional id in base64, and the id under
    the seal. -/
structure Listed (K A H C D : Type) where
  contract : Contract K A H C D
  id : H
  revision : ℕ
  newBody : D
  transactionalId : String
  nonempty : transactionalId ≠ ""
  sealedId : H

namespace Listed

/-- `createRevision()`. -/
def createRevision (l : Listed K A H C D) : Contract K A H C D :=
  let c := l.contract.copy
  { c with
    origin := if l.revision = 1 then some l.id else c.origin
    body := l.newBody
    transactional := none
    constraints := setConstraints c.constraints (c.definitionConstraints ++ c.stateConstraints) }

end Listed

/-- A reference of the swap: to a transactional id, to be signed by two simple roles. -/
def ask (id : String) (owner creator : List K) : Constraint K A H C where
  name := ""
  type := .TRANSACTIONAL
  transactionalId := some id
  contractId := none
  origin := none
  signedBy := [.simple [] (firsts owner) [], .simple [] (firsts creator) []]
  fields := []
  roles := []
  conditions := none
  matchingItems := []

/-- The references to the contracts of the other party. -/
def asks (own other : List K) (others : List (Listed K A H C D)) : List (Constraint K A H C) :=
  others.map fun l => ask l.transactionalId own other

/-- The new revision of a contract of the party with the keys `own`: its creator and its references, then its new
    owner. -/
def newRevision (longAddress : K → A) (own other : List K) (others : List (Listed K A H C D))
    (l : Listed K A H C D) : Contract K A H C D :=
  let nc := l.createRevision.registerRole "creator" (addressRole ((firsts own).map longAddress))
  let nc := { nc with transactional := some ⟨some l.transactionalId, []⟩ }
  let nc := (asks own other others).foldl (fun nc c => nc.addConstraint c) nc
  nc.registerRole "owner" (keyRole other)

/-- Two parties with disjoint keys and their contracts. All transactional ids differ, and so do the ids. -/
structure Swap (K A H C D : Type) where
  longAddress : K → A
  fromKeys : List K
  toKeys : List K
  disjoint : ∀ k ∈ fromKeys, k ∉ toKeys
  contracts1 : List (Listed K A H C D)
  contracts2 : List (Listed K A H C D)
  nonempty1 : contracts1 ≠ []
  nonempty2 : contracts2 ≠ []
  idsDiffer : ((contracts1 ++ contracts2).map Listed.transactionalId).Nodup
  sealedDiffer : ((contracts1 ++ contracts2).map Listed.sealedId).Nodup

namespace Swap

/-- `startSwap(contracts1, contracts2, fromKeys, toKeys, true)`: the new revisions on both sides. -/
def startSwap (s : Swap K A H C D) : List (Contract K A H C D) × List (Contract K A H C D) :=
  (s.contracts1.map (newRevision s.longAddress s.fromKeys s.toKeys s.contracts2),
    s.contracts2.map (newRevision s.longAddress s.toKeys s.fromKeys s.contracts1))

/-- All new revisions. -/
def revisions (s : Swap K A H C D) : List (Contract K A H C D) := s.startSwap.1 ++ s.startSwap.2

end Swap

/-! ### What is promised -/

/-- A contract of a transaction is a revision as it was made, or as it comes out of its packed form. -/
def Contract.Is (c r : Contract K A H C D) : Prop := c = r ∨ c = r.copy

/-- The contracts of a transaction by their ids. A contract with the transactional id of a new revision is that
    revision. -/
structure Transaction (s : Swap K A H C D) where
  entries : List (Entry K A H C D)
  idsDiffer : (entries.map Entry.id).Nodup
  revisionIds : ∀ e ∈ entries, ∀ r ∈ s.revisions, e.transactionalId = r.transactionalId → e.contract.Is r

/-- An entry is signed with all keys of both parties. -/
def Swap.SignedByBoth (s : Swap K A H C D) (e : Entry K A H C D) : Prop :=
  ∀ k ∈ s.fromKeys ++ s.toKeys, k ∈ e.effectiveKeys

/-- The references that a revision has in its transactional section. -/
def Contract.references (r : Contract K A H C D) : List (Constraint K A H C) :=
  (r.transactional.map Transactional.constraints).getD []

/-- The swap is all or nothing: a transaction that passes and has one of the new revisions has them all, signed; and
    where all are there, signed, no reference of the swap adds an error. -/
structure AllOrNothing [DecidableEq H] (setup : CheckSetup K A H C D) (s : Swap K A H C D) : Prop where
  complete : ∀ t : Transaction s, (∀ e ∈ t.entries, setup.Passes e t.entries) →
    (∃ e ∈ t.entries, ∃ r ∈ s.revisions, e.contract.Is r) →
      ∀ r ∈ s.revisions, ∃ e ∈ t.entries, e.contract.Is r ∧ s.SignedByBoth e
  noError : ∀ t : Transaction s, (∀ r ∈ s.revisions, ∃ e ∈ t.entries, e.contract.Is r) →
    (∀ e ∈ t.entries, ∀ r ∈ s.revisions, e.contract.Is r → s.SignedByBoth e) →
      ∀ e ∈ t.entries, ∀ r ∈ s.revisions, e.contract.Is r → ∀ c ∈ r.references, ("", c) ∈ e.contract.constraints →
        ∀ valid, ∃ c', setup.matchConstraint e valid t.entries c = .ok (true, [], c')

/-- The sides of a swap: own keys, keys of the other party, own contracts, contracts of the other party. -/
inductive Swap.Side (s : Swap K A H C D) :
    List K → List K → List (Listed K A H C D) → List (Listed K A H C D) → Prop
  | first : s.Side s.fromKeys s.toKeys s.contracts1 s.contracts2
  | second : s.Side s.toKeys s.fromKeys s.contracts2 s.contracts1

/-- A contract as it is unpacked, with its creator and owner replaced. -/
def Listed.withRoles (longAddress : K → A) (own other : List K) (l : Listed K A H C D) : Contract K A H C D :=
  (l.contract.copy.registerRole "creator" (addressRole ((firsts own).map longAddress))).registerRole "owner"
    (keyRole other)

/-- The constraints in the definition and the state of a contract. -/
def Listed.sections (l : Listed K A H C D) : List (Constraint K A H C) :=
  l.contract.definitionConstraints ++ l.contract.stateConstraints

/-- On both sides there is one contract and not more than one key, no role or permission requires a constraint of the
    name "", and no constraint of the contract has that name. -/
structure Tight (setup : CheckSetup K A H C D) (s : Swap K A H C D) : Prop where
  one : ∀ {own other mine others}, s.Side own other mine others → mine.length = 1
  key : ∀ {own other mine others}, s.Side own other mine others → ∀ k ∈ own, ∀ k' ∈ own, k = k'
  noRole : ∀ {own other mine others}, s.Side own other mine others → ∀ l ∈ mine,
    (l.withRoles s.longAddress own other).roleConstraint setup.depth "" ≠ .ok true
  noName : ∀ {own other mine others}, s.Side own other mine others → ∀ l ∈ mine, ∀ c ∈ l.sections, c.name ≠ ""

/-- The constraints that a new revision has from its contract. -/
def Listed.own (l : Listed K A H C D) : List (Constraint K A H C) :=
  l.contract.copy.constraints.map Prod.snd ++ l.sections.map Constraint.fresh

/-- What the contracts have of constraints is satisfied in every transaction, and their roles can be asked. -/
structure Undemanding [DecidableEq H] (setup : CheckSetup K A H C D) (s : Swap K A H C D) : Prop where
  own : ∀ {own other mine others}, s.Side own other mine others → ∀ l ∈ mine, ∀ c ∈ l.own,
    ∀ (e : Entry K A H C D), e.contract.Is (newRevision s.longAddress own other others l) →
      ∀ tree valid, setup.ConstraintPasses e tree valid c
  roles : ∀ {own other mine others}, s.Side own other mine others → ∀ l ∈ mine,
    ∃ b, (l.withRoles s.longAddress own other).roleConstraint setup.depth "" = .ok b

/-! ### Keys from an iterator -/

section
variable {X : Type} [DecidableEq X]

@[simp] theorem mem_firsts {xs : List X} {x : X} : x ∈ firsts xs ↔ x ∈ xs := by
  simp [firsts]

theorem nodup_firsts (xs : List X) : (firsts xs).Nodup := by
  simp [firsts, List.nodup_dedup]

/-- Where all are the same there is one at most. -/
theorem firsts_of_same {xs : List X} (h : ∀ x ∈ xs, ∀ y ∈ xs, x = y) : firsts xs = [] ∨ ∃ x ∈ xs, firsts xs = [x] := by
  match hfirsts : firsts xs with
  | [] => exact Or.inl rfl
  | [x] => exact Or.inr ⟨x, mem_firsts.mp (by simp [hfirsts]), rfl⟩
  | x :: y :: rest =>
      have hnodup := hfirsts ▸ nodup_firsts xs
      have hsame : x = y := h x (mem_firsts.mp (by simp [hfirsts])) y (mem_firsts.mp (by simp [hfirsts]))
      simp [hsame] at hnodup

/-- Keys are all found just where they come in the order in which they are read. -/
theorem sublist_of_readAll {ks given : List X}
    (h : (RoleGraph.readAll .iterator (ks.map fun key k => decide (k = key)) given).1 = true) : ks.Sublist given := by
  induction ks generalizing given with
  | nil => exact List.nil_sublist given
  | cons key ks ih =>
      rw [List.map_cons, RoleGraph.readAll] at h
      have hsuffix : (given.dropWhile fun k => !decide (k = key)).Sublist given := List.dropWhile_sublist _
      cases hdrop : given.dropWhile fun k => !decide (k = key) with
      | nil =>
          have hnone : given.any (fun k => decide (k = key)) = false := by
            simpa [List.dropWhile_eq_nil_iff] using hdrop
          simp [KeySource.iterator, hnone] at h
      | cons k rest =>
          have hhead := List.head?_dropWhile_not (fun k => !decide (k = key)) given
          obtain rfl : k = key := by simpa [hdrop] using hhead
          have hsome : given.any (fun k' => decide (k' = k)) = true := by
            have hmem : k ∈ given := hsuffix.subset (hdrop ▸ List.mem_cons_self)
            simpa using hmem
          simp only [KeySource.iterator, hsome, hdrop, List.tail_cons] at h
          exact ((ih h).cons_cons k).trans (hdrop ▸ hsuffix)

end

/-! ### Turns of a reference -/

namespace CheckSetup
variable (setup : CheckSetup K A H C D)

/-- A simple role of some keys finds them all in the keys of the entry. -/
def Signs (e : Entry K A H C D) (keys : List K) : Prop :=
  (RoleGraph.readAll .iterator (setup.wanted (firsts keys) []) e.effectiveKeys).1 = true

instance (e : Entry K A H C D) (keys : List K) : Decidable (setup.Signs e keys) := inferInstanceAs (Decidable (_ = _))

theorem sublist_of_signs {e : Entry K A H C D} {keys : List K} (h : setup.Signs e keys) :
    (firsts keys).Sublist e.effectiveKeys :=
  sublist_of_readAll (by simpa [Signs, wanted] using h)

theorem signs_of_same {e : Entry K A H C D} {keys : List K} (hsame : ∀ k ∈ keys, ∀ k' ∈ keys, k = k')
    (hkeys : ∀ k ∈ keys, k ∈ e.effectiveKeys) : setup.Signs e keys := by
  rcases firsts_of_same hsame with h | ⟨k, hk, h⟩
  · simp [Signs, wanted, h, RoleGraph.readAll]
  · have hany : e.effectiveKeys.any (fun k' => decide (k' = k)) = true := by simpa using hkeys k hk
    simp [Signs, wanted, h, RoleGraph.readAll, KeySource.iterator, hany]

variable [DecidableEq H] {this : Entry K A H C D} {valid : List String} {id : String} {owner creator : List K}
  {neighbours rest : List (Entry K A H C D)} {neighbour : Entry K A H C D}

/-- Where the id is the right one, all that can be missing are the signatures. -/
theorem checkOneConstraint_ask (this : Entry K A H C D) (owner creator : List K) (hid : id ≠ "") (href : neighbour.transactionalId = some id) :
    ∃ errors, setup.checkOneConstraint this (ask id owner creator) neighbour = .ok errors ∧
      (errors = [] ↔ setup.Signs neighbour owner ∧ setup.Signs neighbour creator) := by
  refine ⟨_, rfl, ?_⟩
  simp [transactionalErrors, ask, href, hid, Signs]

theorem refersTo_ask : refersTo (ask id owner creator) neighbour = decide (neighbour.transactionalId = some id) := by
  simp [refersTo, ask]

theorem isMatchingWith_ask (contracts : List (Entry K A H C D)) :
    setup.isMatchingWith this valid (ask id owner creator) neighbour contracts = .ok true := by
  simp [isMatchingWith, ask]

omit [DecidableEq H] in
theorem hasConditionList_ask : setup.hasConditionList (ask id owner creator) = false := by
  simp [hasConditionList, ask]

/-- A neighbour with another id is passed over. -/
theorem seekNeighbour_other (href : neighbour.transactionalId ≠ some id) :
    setup.seekNeighbour this valid (ask id owner creator) neighbours (neighbour :: rest) =
      setup.seekNeighbour this valid (ask id owner creator) neighbours rest := by
  rw [seekNeighbour, refersTo_ask, decide_eq_false href, hasConditionList_ask]
  show (setup.seekNeighbour this valid (ask id owner creator) neighbours rest).bind _ = _
  cases setup.seekNeighbour this valid (ask id owner creator) neighbours rest <;> rfl

/-- The one that is referred to ends the loop where it is signed. -/
theorem seekNeighbour_signed (hid : id ≠ "") (href : neighbour.transactionalId = some id)
    (hsigned : setup.Signs neighbour owner ∧ setup.Signs neighbour creator) : ∃ c,
      setup.seekNeighbour this valid (ask id owner creator) neighbours (neighbour :: rest) = .ok (true, [], c) := by
  obtain ⟨errors, herrors, hiff⟩ :=
    setup.checkOneConstraint_ask this owner creator hid href
  obtain rfl := hiff.mpr hsigned
  rw [seekNeighbour, refersTo_ask, decide_eq_true href, hasConditionList_ask, if_pos rfl, herrors]
  refine ⟨{ ask id owner creator with matchingItems := [neighbour.id] }, ?_⟩
  rw [isMatchingWith_ask]
  rfl

/-- Where it is not signed it leaves errors, and the loop goes on. -/
theorem seekNeighbour_unsigned (this : Entry K A H C D) (valid : List String) (neighbours rest : List (Entry K A H C D))
    (hid : id ≠ "") (href : neighbour.transactionalId = some id)
    (hsigned : ¬(setup.Signs neighbour owner ∧ setup.Signs neighbour creator)) : ∃ errors,
      setup.seekNeighbour this valid (ask id owner creator) neighbours (neighbour :: rest) =
        (setup.seekNeighbour this valid (ask id owner creator) neighbours rest).bind fun p =>
          .ok (p.1, errors ++ p.2.1, p.2.2) := by
  obtain ⟨errors, herrors, hiff⟩ :=
    setup.checkOneConstraint_ask this owner creator hid href
  have hne : errors.isEmpty = false := by
    simpa [hiff] using hsigned
  refine ⟨errors, ?_⟩
  rw [seekNeighbour, refersTo_ask, decide_eq_true href, hasConditionList_ask, if_pos rfl, herrors]
  show (if (true && errors.isEmpty || false) = true then
    (setup.isMatchingWith this valid (ask id owner creator) neighbour neighbours).bind _ else
    (Except.ok false : Except Unit Bool).bind _) = _
  rw [hne]
  rfl

/-- The loop finds the neighbour that is referred to, where all of that id are signed. -/
theorem seekNeighbour_found (hid : id ≠ "") {found : List (Entry K A H C D)}
    (hsigned : ∀ n ∈ found, n.transactionalId = some id → setup.Signs n owner ∧ setup.Signs n creator)
    (hfound : ∃ n ∈ found, n.transactionalId = some id) : ∃ c,
      setup.seekNeighbour this valid (ask id owner creator) neighbours found = .ok (true, [], c) := by
  induction found with
  | nil => simp at hfound
  | cons n rest ih =>
      obtain ⟨hfirst, hrest⟩ := List.forall_mem_cons.mp hsigned
      by_cases href : n.transactionalId = some id
      · exact setup.seekNeighbour_signed hid href (hfirst href)
      · rw [seekNeighbour_other setup href]
        refine ih hrest ?_
        simpa [href] using hfound

/-- The loop finds nothing where none has the id. -/
theorem seekNeighbour_none {found : List (Entry K A H C D)} (hnone : ∀ n ∈ found, n.transactionalId ≠ some id) :
    setup.seekNeighbour this valid (ask id owner creator) neighbours found =
      .ok (false, [], ask id owner creator) := by
  induction found with
  | nil => rfl
  | cons n rest ih =>
      obtain ⟨hfirst, hrest⟩ := List.forall_mem_cons.mp hnone
      rw [seekNeighbour_other setup hfirst]
      exact ih hrest

/-- What the loop finds has the id and is signed. -/
theorem signed_of_seekNeighbour (hid : id ≠ "") {found : List (Entry K A H C D)} {errors : List (ConstraintError H)}
    {c : Constraint K A H C} (h : setup.seekNeighbour this valid (ask id owner creator) neighbours found =
      .ok (true, errors, c)) :
    ∃ n ∈ found, n.transactionalId = some id ∧ setup.Signs n owner ∧ setup.Signs n creator := by
  induction found generalizing errors c with
  | nil => simp [seekNeighbour] at h
  | cons n rest ih =>
      by_cases href : n.transactionalId = some id
      · by_cases hsigned : setup.Signs n owner ∧ setup.Signs n creator
        · exact ⟨n, List.mem_cons_self, href, hsigned⟩
        · obtain ⟨errors', heq⟩ := setup.seekNeighbour_unsigned this valid neighbours rest hid href hsigned
          rw [heq] at h
          obtain ⟨p, hp, hcheck⟩ := Except.bind_eq_ok.mp h
          obtain ⟨hcheck, -⟩ := Prod.mk.inj (Except.ok.inj hcheck)
          obtain ⟨n', hn', hfound⟩ := @ih p.2.1 p.2.2 (by rw [hp, ← hcheck])
          exact ⟨n', List.mem_cons_of_mem _ hn', hfound⟩
      · rw [seekNeighbour_other setup href] at h
        obtain ⟨n', hn', hfound⟩ := ih h
        exact ⟨n', List.mem_cons_of_mem _ hn', hfound⟩

end CheckSetup

/-! ### What a new revision has -/

omit [DecidableEq K] in
theorem addConstraints_eq (cs : List (Constraint K A H C)) {c : Contract K A H C D} {section_ : Transactional K A H C}
    (h : c.transactional = some section_) : cs.foldl (fun nc added => nc.addConstraint added) c =
      { c with
        transactional := some { section_ with constraints := section_.constraints ++ cs }
        constraints := setConstraints c.constraints cs } := by
  induction cs generalizing c section_ with
  | nil =>
      rcases c with ⟨⟩
      obtain rfl := h
      simp [setConstraints]
  | cons added cs ih =>
      have hadded : (c.addConstraint added).transactional =
          some { section_ with constraints := section_.constraints ++ [added] } := by
        simp [Contract.addConstraint, h]
      rw [List.foldl_cons, ih hadded]
      simp [Contract.addConstraint, setConstraints, List.append_assoc]

/-! ### What its roles require -/

section
omit [DecidableEq K]
variable {g : RoleGraph K A ℕ} {name : String}

/-- The roles of a contract have it; the sub-roles of a list have none, or are simple and do not ask for it. -/
structure IsUnpacked (c : Contract K A H C D) : Prop where
  subroles : ∀ {r mode roles}, (c.graph.role r).kind = .list mode roles → ∀ s ∈ roles,
    (c.graph.role s).hasContract = false ∨ ∃ keys addresses, (c.graph.role s).kind = .simple keys addresses
  roles : ∀ {name r}, c.graph.roles name = some r → (c.graph.role r).hasContract = true
  stateRoles : ∀ {name r}, c.graph.stateRoles name = some r → (c.graph.role r).hasContract = true
  permissionRoles : ∀ r ∈ c.permissionRoles, (c.graph.role r).hasContract = true

theorem anyContains_map {f f' : ℕ → Option (Except Unit Bool)} {h : ℕ → ℕ} {rs : List ℕ}
    (heq : ∀ r ∈ rs, f' (h r) = f r) : RoleGraph.anyContains f' (rs.map h) = RoleGraph.anyContains f rs := by
  induction rs with
  | nil => rfl
  | cons r rs ih =>
      obtain ⟨hr, hrs⟩ := List.forall_mem_cons.mp heq
      rw [List.map_cons, RoleGraph.anyContains, RoleGraph.anyContains, hr, ih hrs]

/-- Where a role keeps its contract, or is simple, unpacking keeps what it requires itself. -/
theorem ownConstraint_unpacked {n : ℕ} (h : decide (n % 2 = 0) = (g.role (n / 2)).hasContract ∨
    ∃ keys addresses, (g.role (n / 2)).kind = .simple keys addresses) :
    (unpacked g).ownConstraint name n = g.ownConstraint name (n / 2) := by
  have hspecial : (unpacked g).specialConstraints n = g.specialConstraints (n / 2) := by
    unfold RoleGraph.specialConstraints
    rcases h with h | ⟨keys, addresses, hk⟩
    · simp only [unpacked, h]
      cases (g.role (n / 2)).kind <;> rfl
    · simp only [unpacked, hk, unpackedKind]
  rw [RoleGraph.ownConstraint, RoleGraph.ownConstraint, hspecial]
  rfl

/-- The search in unpacked roles goes as before. -/
theorem containConstraint_unpacked {c : Contract K A H C D} (hc : IsUnpacked c) {fuel : ℕ} :
    ∀ {n : ℕ}, (decide (n % 2 = 0) = (c.graph.role (n / 2)).hasContract ∨
      ∃ keys addresses, (c.graph.role (n / 2)).kind = .simple keys addresses) →
      (unpacked c.graph).containConstraint name fuel n = c.graph.containConstraint name fuel (n / 2) := by
  have heven (r : ℕ) : 2 * r / 2 = r := Nat.mul_div_cancel_left r Nat.two_pos
  have hodd (r : ℕ) : (2 * r + 1) / 2 = r := by omega
  induction fuel with
  | zero => exact fun _ => rfl
  | succ fuel ih =>
      intro n h
      have hown {r : ℕ} (hr : (c.graph.role r).hasContract = true) :
          (unpacked c.graph).containConstraint name fuel (2 * r) = c.graph.containConstraint name fuel r := by
        have h := ih (n := 2 * r) (.inl (by simp [heven, hr]))
        rwa [heven] at h
      have hasked : RoleGraph.anyContains ((unpacked c.graph).containConstraint name fuel) ((unpacked c.graph).asked n) =
          RoleGraph.anyContains (c.graph.containConstraint name fuel) (c.graph.asked (n / 2)) := by
        unfold RoleGraph.asked
        rcases h with h | ⟨keys, addresses, hk⟩
        · simp only [unpacked, h]
          split
          next =>
            cases hk : (c.graph.role (n / 2)).kind with
            | simple | vote => rfl
            | list mode roles =>
                refine anyContains_map fun r hr => ?_
                have h := ih (n := 2 * r + 1) ((hc.subroles hk r hr).imp (fun hr => by simp [hodd, hr]) fun hr =>
                  (hodd r).symm ▸ hr)
                rwa [hodd] at h
            | link roleName =>
                simp only [unpackedKind, Option.toList_map, ← List.map_append]
                refine anyContains_map fun r hr => hown ?_
                rcases List.mem_append.mp hr with hr | hr
                · exact hc.roles (Option.mem_toList.mp hr)
                · exact hc.stateRoles (Option.mem_toList.mp hr)
          next => rfl
        · simp only [unpacked, hk, unpackedKind, ite_self]
          rfl
      rw [RoleGraph.containConstraint, RoleGraph.containConstraint, ownConstraint_unpacked h, hasked]

/-- A contract that is unpacked already requires what it did. -/
theorem IsUnpacked.roleConstraint_copy {c : Contract K A H C D} (hc : IsUnpacked c) (depth : ℕ) :
    c.copy.roleConstraint depth name = c.roleConstraint depth name := by
  have hsearch {r : ℕ} (hr : (c.graph.role r).hasContract = true) :
      (unpacked c.graph).containConstraint name depth (2 * r) = c.graph.containConstraint name depth r := by
    have h : (unpacked c.graph).containConstraint name depth (2 * r) =
        c.graph.containConstraint name depth (2 * r / 2) :=
      containConstraint_unpacked hc (.inl (by simp [hr]))
    rwa [Nat.mul_div_cancel_left r Nat.two_pos] at h
  have hasked : c.copy.roleNames.filterMap c.copy.graph.roles ++ c.copy.stateRoleNames.filterMap c.copy.graph.stateRoles ++
      c.copy.permissionRoles = (c.roleNames.filterMap c.graph.roles ++ c.stateRoleNames.filterMap c.graph.stateRoles ++
        c.permissionRoles).map fun r => 2 * r := by
    rw [List.map_append, List.map_append, List.map_filterMap, List.map_filterMap]
    rfl
  unfold Contract.roleConstraint
  rw [hasked]
  refine congrArg (fun answer => Option.getD answer _) (anyContains_map fun r hr => hsearch ?_)
  rcases List.mem_append.mp hr with hr | hr
  · rcases List.mem_append.mp hr with hr | hr
    · obtain ⟨_, -, hr⟩ := List.mem_filterMap.mp hr
      exact hc.roles hr
    · obtain ⟨_, -, hr⟩ := List.mem_filterMap.mp hr
      exact hc.stateRoles hr
  · exact hc.permissionRoles r hr

theorem isUnpacked_copy (c : Contract K A H C D) : IsUnpacked c.copy where
  subroles := by
    intro r mode roles hk s hs
    have hk : unpackedKind (c.graph.role (r / 2)).kind = .list mode roles := hk
    cases hkind : (c.graph.role (r / 2)).kind with
    | list mode' roles' =>
        rw [hkind] at hk
        obtain ⟨-, rfl⟩ := RoleKind.list.inj hk
        obtain ⟨s', -, rfl⟩ := List.mem_map.mp hs
        exact .inl (decide_eq_false (by omega))
    | simple | link | vote =>
        rw [hkind] at hk
        cases hk
  roles := by
    intro name r hr
    obtain ⟨r', -, rfl⟩ := Option.map_eq_some_iff.mp hr
    exact decide_eq_true (by omega)
  stateRoles := by
    intro name r hr
    obtain ⟨r', -, rfl⟩ := Option.map_eq_some_iff.mp hr
    exact decide_eq_true (by omega)
  permissionRoles := by
    intro r hr
    obtain ⟨r', -, rfl⟩ := List.mem_map.mp hr
    exact decide_eq_true (by omega)

/-- A simple role that is registered gets the contract. -/
theorem IsUnpacked.registerRole {c : Contract K A H C D} (hc : IsUnpacked c) (name : String) (required any : List String)
    (keys : List K) (addresses : List A) :
    IsUnpacked (c.registerRole name ⟨true, required, any, .simple keys addresses⟩) := by
  have hrole (r : ℕ) (hr : (c.graph.role r).hasContract = true) :
      ((c.registerRole name ⟨true, required, any, .simple keys addresses⟩).graph.role r).hasContract = true := by
    simp only [Contract.registerRole]
    split
    next => rfl
    next => exact hr
  refine ⟨fun hk s hs => ?_, fun {name' r} hr => ?_, fun hr => hrole _ (hc.stateRoles hr),
    fun r hr => hrole r (hc.permissionRoles r hr)⟩
  · simp only [Contract.registerRole] at hk ⊢
    split at hk
    next => cases hk
    next =>
      split
      next => exact .inr ⟨keys, addresses, rfl⟩
      next => exact hc.subroles hk s hs
  · simp only [Contract.registerRole] at hr
    split at hr
    next =>
      obtain rfl := Option.some.inj hr
      simp [Contract.registerRole]
    next => exact hrole r (hc.roles hr)

end

section
variable {longAddress : K → A} {own other : List K} {others : List (Listed K A H C D)} {l : Listed K A H C D}

/-- A new revision, with its references in place. -/
theorem newRevision_eq : newRevision longAddress own other others l =
    { l.withRoles longAddress own other with
      origin := if l.revision = 1 then some l.id else l.contract.origin
      body := l.newBody
      transactional := some ⟨some l.transactionalId, asks own other others⟩
      definitionConstraints := l.contract.definitionConstraints.map Constraint.fresh
      stateConstraints := l.contract.stateConstraints.map Constraint.fresh
      constraints := setConstraints l.createRevision.constraints (asks own other others) } := by
  simp only [newRevision]
  rw [addConstraints_eq _ rfl]
  rfl

theorem newRevision_transactionalId :
    (newRevision longAddress own other others l).transactionalId = some l.transactionalId := by
  rw [newRevision_eq]
  rfl

omit [DecidableEq K] in
theorem Contract.Is.transactionalId_eq {c r : Contract K A H C D} (h : c.Is r) :
    c.transactionalId = r.transactionalId := by
  rcases h with rfl | rfl
  · rfl
  · cases hsection : r.transactional <;> simp [Contract.transactionalId, Contract.copy, hsection]

theorem isUnpacked_newRevision : IsUnpacked (newRevision longAddress own other others l) := by
  have h := ((isUnpacked_copy l.contract).registerRole "creator" [] [] [] ((firsts own).map longAddress)).registerRole
    "owner" [] [] (firsts other) []
  rw [newRevision_eq]
  exact ⟨h.subroles, h.roles, h.stateRoles, h.permissionRoles⟩

theorem roleConstraint_of_is {c : Contract K A H C D} (h : c.Is (newRevision longAddress own other others l))
    (depth : ℕ) (name : String) :
    c.roleConstraint depth name = (l.withRoles longAddress own other).roleConstraint depth name := by
  have hrevision : (newRevision longAddress own other others l).roleConstraint depth name =
      (l.withRoles longAddress own other).roleConstraint depth name := by
    rw [newRevision_eq]
    rfl
  rcases h with rfl | rfl
  · exact hrevision
  · exact (isUnpacked_newRevision.roleConstraint_copy depth).trans hrevision

theorem references_newRevision : (newRevision longAddress own other others l).references = asks own other others := by
  rw [newRevision_eq]
  rfl

theorem fresh_asks : (asks own other others).map (Constraint.fresh (K := K) (A := A) (H := H) (C := C)) =
    asks own other others := by
  simp [asks, ask, Constraint.fresh, Function.comp_def]

theorem lastNamed_asks (name : String) : lastNamed name (asks own other others) =
    if name = "" then (asks own other others).getLast? else none := by
  have hname : ∀ c ∈ asks own other others, c.name = "" := by
    simp [asks, ask]
  split
  · rename_i h
    rw [lastNamed, List.filter_eq_self.mpr]
    simpa [h] using hname
  · rename_i h
    rw [lastNamed, List.filter_eq_nil_iff.mpr]
    · rfl
    · intro c hc
      simp [hname c hc, Ne.symm h]

end

section
variable {longAddress : K → A} {own other : List K} {others : List (Listed K A H C D)} {l : Listed K A H C D}

/-- The constraints that a packed revision is read back with. -/
theorem copy_constraints : (newRevision longAddress own other others l).copy.constraints =
    setConstraints [] (asks own other others ++ l.sections.map Constraint.fresh) := by
  have hfresh : ∀ cs : List (Constraint K A H C), (cs.map Constraint.fresh).map Constraint.fresh =
      cs.map Constraint.fresh := by
    simp [Constraint.fresh, Function.comp_def]
  rw [newRevision_eq]
  simp only [Contract.copy, Contract.sectionConstraints, Option.map_some, Option.getD_some, List.map_append, hfresh,
    fresh_asks, Listed.sections, List.append_assoc]

omit [DecidableEq K] in
theorem lastNamed_append (name : String) (cs cs' : List (Constraint K A H C)) :
    lastNamed name (cs ++ cs') = (lastNamed name cs').or (lastNamed name cs) := by
  rw [lastNamed, List.filter_append, List.getLast?_append]
  rfl

omit [DecidableEq K] in
theorem mem_own_of_createRevision {p : String × Constraint K A H C} (hp : p ∈ l.createRevision.constraints) :
    p.2 ∈ l.own := by
  have hset : l.createRevision.constraints =
      setConstraints l.contract.copy.constraints (l.sections.map Constraint.fresh) := by
    simp [Listed.createRevision, Listed.sections, Contract.copy]
  rw [hset, mem_setConstraints] at hp
  rcases hp with hlast | ⟨-, hp⟩
  · exact List.mem_append.mpr (Or.inr (lastNamed_eq_some hlast).1)
  · exact List.mem_append.mpr (Or.inl (List.mem_map_of_mem hp))

/-- A constraint of a revision is its contract's, or the reference to the last contract of the other party. -/
theorem mem_constraints_cases {c : Contract K A H C D} (h : c.Is (newRevision longAddress own other others l))
    {p : String × Constraint K A H C} (hp : p ∈ c.constraints) :
    p.2 ∈ l.own ∨ p.1 = "" ∧ (asks own other others).getLast? = some p.2 := by
  rcases h with rfl | rfl
  · rw [newRevision_eq] at hp
    rw [mem_setConstraints, lastNamed_asks] at hp
    split at hp
    · rename_i hname
      rcases hp with hlast | ⟨-, hp⟩
      · exact Or.inr ⟨hname, hlast⟩
      · exact Or.inl (mem_own_of_createRevision hp)
    · exact Or.inl (mem_own_of_createRevision (hp.resolve_left nofun).2)
  · rw [copy_constraints, mem_setConstraints, lastNamed_append, lastNamed_asks] at hp
    rcases hp with hlast | ⟨-, hp⟩
    · cases hown : lastNamed p.1 (l.sections.map Constraint.fresh) with
      | some c =>
          rw [hown, Option.some_or] at hlast
          obtain rfl := Option.some.inj hlast
          exact Or.inl (List.mem_append.mpr (Or.inr (lastNamed_eq_some hown).1))
      | none =>
          rw [hown, Option.none_or] at hlast
          split at hlast
          · rename_i hname
            exact Or.inr ⟨hname, hlast⟩
          · exact absurd hlast nofun
    · exact absurd hp List.not_mem_nil

theorem getLast_asks {last : Listed K A H C D} (hlast : others.getLast? = some last) :
    (asks own other others).getLast? =
      some (ask (K := K) (A := A) (H := H) (C := C) last.transactionalId own other) := by
  simp [asks, List.getLast?_map, hlast]

/-- A revision keeps the reference to the last contract of the other party. -/
theorem mem_newRevision_last {last : Listed K A H C D} (hlast : others.getLast? = some last) :
    ("", ask last.transactionalId own other) ∈ (newRevision longAddress own other others l).constraints := by
  rw [newRevision_eq, mem_setConstraints, lastNamed_asks, if_pos rfl]
  exact Or.inl (getLast_asks hlast)

/-- So it does when it is read back, where no constraint of the contract has the reference's name. -/
theorem mem_constraints_of_last {c : Contract K A H C D} (h : c.Is (newRevision longAddress own other others l))
    (hname : ∀ c' ∈ l.sections, c'.name ≠ "") {last : Listed K A H C D} (hlast : others.getLast? = some last) :
    ("", ask last.transactionalId own other) ∈ c.constraints := by
  rcases h with rfl | rfl
  · exact mem_newRevision_last hlast
  · have hnone : lastNamed "" (l.sections.map Constraint.fresh) = none := by
      rw [lastNamed, List.filter_eq_nil_iff.mpr]
      · rfl
      · intro c' hc'
        obtain ⟨c'', hmem, rfl⟩ := List.mem_map.mp hc'
        simp [Constraint.fresh, hname c'' hmem]
    rw [copy_constraints, mem_setConstraints, lastNamed_append, hnone, lastNamed_asks, if_pos rfl, Option.none_or]
    exact Or.inl (getLast_asks hlast)

end

/-! ### Both sides -/

namespace Swap
variable {s : Swap K A H C D} {own other : List K} {mine others : List (Listed K A H C D)}

omit [DecidableEq K] in
theorem Side.flip (h : s.Side own other mine others) : s.Side other own others mine := by
  cases h with
  | first => exact .second
  | second => exact .first

omit [DecidableEq K] in
theorem Side.nonempty (h : s.Side own other mine others) : mine ≠ [] := by
  cases h with
  | first => exact s.nonempty1
  | second => exact s.nonempty2

omit [DecidableEq K] in
theorem Side.subset (h : s.Side own other mine others) : ∀ l ∈ mine, l ∈ s.contracts1 ++ s.contracts2 := by
  cases h with
  | first => exact fun l hl => List.mem_append_left _ hl
  | second => exact fun l hl => List.mem_append_right _ hl

omit [DecidableEq K] in
theorem Side.disjoint (h : s.Side own other mine others) : ∀ k ∈ own, k ∉ other := by
  cases h with
  | first => exact s.disjoint
  | second => exact fun k hk hk' => s.disjoint k hk' hk

omit [DecidableEq K] in
theorem Side.signedByBoth_iff (h : s.Side own other mine others) {e : Entry K A H C D} :
    s.SignedByBoth e ↔ (∀ k ∈ own, k ∈ e.effectiveKeys) ∧ ∀ k ∈ other, k ∈ e.effectiveKeys := by
  cases h with
  | first => exact List.forall_mem_append
  | second => exact List.forall_mem_append.trans And.comm

theorem mem_revisions {r : Contract K A H C D} : r ∈ s.revisions ↔ ∃ own other mine others,
    s.Side own other mine others ∧ ∃ l ∈ mine, newRevision s.longAddress own other others l = r := by
  simp only [revisions, startSwap, List.mem_append, List.mem_map]
  constructor
  · rintro (⟨l, hl, rfl⟩ | ⟨l, hl, rfl⟩)
    · exact ⟨_, _, _, _, .first, l, hl, rfl⟩
    · exact ⟨_, _, _, _, .second, l, hl, rfl⟩
  · rintro ⟨own, other, mine, others, hside, l, hl, rfl⟩
    cases hside with
    | first => exact Or.inl ⟨l, hl, rfl⟩
    | second => exact Or.inr ⟨l, hl, rfl⟩

theorem Side.mem_revisions (h : s.Side own other mine others) {l : Listed K A H C D} (hl : l ∈ mine) :
    newRevision s.longAddress own other others l ∈ s.revisions :=
  Swap.mem_revisions.mpr ⟨_, _, _, _, h, l, hl, rfl⟩

omit [DecidableEq K] in
/-- Listed contracts with the same transactional id are one, on one side. -/
theorem Side.eq_of_id (h : s.Side own other mine others) {l l' : Listed K A H C D} (hl : l ∈ mine) (hl' : l' ∈ mine)
    (hid : l.transactionalId = l'.transactionalId) : l = l' :=
  List.inj_on_of_nodup_map s.idsDiffer (h.subset l hl) (h.subset l' hl') hid

omit [DecidableEq K] in
theorem Side.id_ne (h : s.Side own other mine others) {l l' : Listed K A H C D} (hl : l ∈ mine) (hl' : l' ∈ others) :
    l.transactionalId ≠ l'.transactionalId := by
  have hdisjoint := List.disjoint_of_nodup_append (List.map_append ▸ s.idsDiffer)
  intro hid
  cases h with
  | first => exact hdisjoint (List.mem_map_of_mem hl) (hid ▸ List.mem_map_of_mem hl')
  | second => exact hdisjoint (List.mem_map_of_mem hl') (hid ▸ List.mem_map_of_mem hl)

omit [DecidableEq K] in
theorem Side.sealedId_ne (h : s.Side own other mine others) {l l' : Listed K A H C D} (hl : l ∈ mine)
    (hl' : l' ∈ others) : l.sealedId ≠ l'.sealedId := by
  have hdisjoint := List.disjoint_of_nodup_append (List.map_append ▸ s.sealedDiffer)
  intro hid
  cases h with
  | first => exact hdisjoint (List.mem_map_of_mem hl) (hid ▸ List.mem_map_of_mem hl')
  | second => exact hdisjoint (List.mem_map_of_mem hl') (hid ▸ List.mem_map_of_mem hl)

omit [DecidableEq K] in
theorem Side.nodup (h : s.Side own other mine others) : mine.Nodup := by
  have hnodup := List.nodup_append.mp (List.Nodup.of_map _ s.idsDiffer)
  cases h with
  | first => exact hnodup.1
  | second => exact hnodup.2.1

/-- A revision is known by its transactional id. -/
theorem revision_of_id {r r' : Contract K A H C D} (hr : r ∈ s.revisions) (hr' : r' ∈ s.revisions)
    (hid : r.transactionalId = r'.transactionalId) : r = r' := by
  obtain ⟨own, other, mine, others, hside, l, hl, rfl⟩ := Swap.mem_revisions.mp hr
  obtain ⟨own', other', mine', others', hside', l', hl', rfl⟩ := Swap.mem_revisions.mp hr'
  rw [newRevision_transactionalId, newRevision_transactionalId, Option.some.injEq] at hid
  cases hside with
  | first =>
      cases hside' with
      | first => rw [Side.first.eq_of_id hl hl' hid]
      | second => exact absurd hid (Side.first.id_ne hl hl')
  | second =>
      cases hside' with
      | first => exact absurd hid (Side.second.id_ne hl hl')
      | second => rw [Side.second.eq_of_id hl hl' hid]

end Swap

/-! ### Tight swaps -/

section
variable [DecidableEq H] {setup : CheckSetup K A H C D} {s : Swap K A H C D} {own other : List K}
  {mine others : List (Listed K A H C D)}

omit [DecidableEq H] in
/-- An entry with the id of a revision is that revision. -/
theorem Transaction.is_of_id (t : Transaction s) {e : Entry K A H C D} (he : e ∈ t.entries)
    (hside : s.Side own other mine others) {l : Listed K A H C D} (hl : l ∈ mine)
    (hid : e.transactionalId = some l.transactionalId) :
    e.contract.Is (newRevision s.longAddress own other others l) :=
  t.revisionIds e he _ (hside.mem_revisions hl) (hid.trans newRevision_transactionalId.symm)

omit [DecidableEq H] in
theorem transactionalId_of_is {e : Entry K A H C D} {l : Listed K A H C D}
    (h : e.contract.Is (newRevision s.longAddress own other others l)) : e.transactionalId = some l.transactionalId :=
  h.transactionalId_eq.trans newRevision_transactionalId

/-- Where a revision passes, the one contract of the other party is there, signed by both. -/
theorem Tight.counterpart (h : Tight setup s) (t : Transaction s) (hside : s.Side own other mine others)
    {l l' : Listed K A H C D} (hl : l ∈ mine) (hl' : l' ∈ others) {e : Entry K A H C D}
    (hpass : setup.Passes e t.entries) (his : e.contract.Is (newRevision s.longAddress own other others l)) :
    ∃ n ∈ t.entries, n.contract.Is (newRevision s.longAddress other own mine l') ∧ s.SignedByBoth n := by
  obtain ⟨last, hothers⟩ := List.length_eq_one_iff.mp (h.one hside.flip)
  obtain rfl : l' = last := by simpa [hothers] using hl'
  have hlast : others.getLast? = some l' := by
    rw [hothers]
    rfl
  have hmem := mem_constraints_of_last his (h.noName hside l hl) hlast
  obtain ⟨valid, hturn⟩ := setup.constraintPasses_of_passes hpass hmem
  have hrole := roleConstraint_of_is his setup.depth ""
  obtain ⟨errors, c, hmatch⟩ := setup.matched_of_constraintPasses hturn (hrole ▸ h.noRole hside l hl)
  obtain ⟨n, hn, hid, howner, hcreator⟩ := setup.signed_of_seekNeighbour l'.nonempty hmatch
  refine ⟨n, hn, t.is_of_id hn hside.flip hl' hid, hside.signedByBoth_iff.mpr ⟨fun k hk => ?_, fun k hk => ?_⟩⟩
  · exact (setup.sublist_of_signs howner).subset (mem_firsts.mpr hk)
  · exact (setup.sublist_of_signs hcreator).subset (mem_firsts.mpr hk)

/-- A revision of a tight swap brings both with it. -/
theorem Tight.complete (h : Tight setup s) (t : Transaction s) (hpass : ∀ e ∈ t.entries, setup.Passes e t.entries)
    (hsome : ∃ e ∈ t.entries, ∃ r ∈ s.revisions, e.contract.Is r) :
    ∀ r ∈ s.revisions, ∃ e ∈ t.entries, e.contract.Is r ∧ s.SignedByBoth e := by
  obtain ⟨e, he, r, hr, his⟩ := hsome
  obtain ⟨own, other, mine, others, hside, l, hl, rfl⟩ := Swap.mem_revisions.mp hr
  obtain ⟨l', hl'⟩ := List.exists_mem_of_ne_nil _ hside.flip.nonempty
  obtain ⟨n, hn, hisn, hsigned⟩ := h.counterpart t hside hl hl' (hpass e he) his
  obtain ⟨m, hm, hism, hsigned'⟩ := h.counterpart t hside.flip hl' hl (hpass n hn) hisn
  -- both sides have one contract, so these are all
  have hall : ∀ l'' ∈ mine, l'' = l := by
    obtain ⟨one, hone⟩ := List.length_eq_one_iff.mp (h.one hside)
    simp_all
  have hall' : ∀ l'' ∈ others, l'' = l' := by
    obtain ⟨one, hone⟩ := List.length_eq_one_iff.mp (h.one hside.flip)
    simp_all
  intro r hr
  obtain ⟨own', other', mine', others', hside', l'', hl'', rfl⟩ := Swap.mem_revisions.mp hr
  cases hside with
  | first =>
      cases hside' with
      | first => exact hall l'' hl'' ▸ ⟨m, hm, hism, hsigned'⟩
      | second => exact hall' l'' hl'' ▸ ⟨n, hn, hisn, hsigned⟩
  | second =>
      cases hside' with
      | first => exact hall' l'' hl'' ▸ ⟨n, hn, hisn, hsigned⟩
      | second => exact hall l'' hl'' ▸ ⟨m, hm, hism, hsigned'⟩

/-- A reference finds what it refers to, where all of that id are signed and no party has two keys. -/
theorem matched_of_signed (setup : CheckSetup K A H C D) (t : Transaction s) (hside : s.Side own other mine others) {l' : Listed K A H C D}
    (hown : ∀ k ∈ own, ∀ k' ∈ own, k = k') (hother : ∀ k ∈ other, ∀ k' ∈ other, k = k')
    (hthere : ∃ n ∈ t.entries, n.transactionalId = some l'.transactionalId)
    (hsigned : ∀ n ∈ t.entries, n.transactionalId = some l'.transactionalId → s.SignedByBoth n)
    (e : Entry K A H C D) (valid : List String) :
    ∃ c, setup.matchConstraint e valid t.entries (ask l'.transactionalId own other) = .ok (true, [], c) := by
  refine setup.seekNeighbour_found l'.nonempty (fun n hn hid => ?_) hthere
  obtain ⟨hkeys, hkeys'⟩ := hside.signedByBoth_iff.mp (hsigned n hn hid)
  exact ⟨setup.signs_of_same hown hkeys, setup.signs_of_same hother hkeys'⟩

theorem Tight.allOrNothing (h : Tight setup s) : AllOrNothing setup s where
  complete := h.complete
  noError := by
    intro t hthere hsigned e he r hr his c hc _ valid
    obtain ⟨own, other, mine, others, hside, l, hl, rfl⟩ := Swap.mem_revisions.mp hr
    rw [references_newRevision] at hc
    obtain ⟨l', hl', rfl⟩ := List.mem_map.mp hc
    have hr' := hside.flip.mem_revisions hl'
    refine matched_of_signed setup t hside (h.key hside) (h.key hside.flip) ?_ ?_ e valid
    · obtain ⟨n, hn, hisn⟩ := hthere _ hr'
      exact ⟨n, hn, transactionalId_of_is hisn⟩
    · exact fun n hn hid => hsigned n hn _ hr' (t.is_of_id hn hside.flip hl' hid)

end

/-! ### Other swaps -/

section
variable {X : Type}

/-- A list of different elements that is in its own mirror image has one at most. -/
theorem same_of_sublist_reverse {ks : List X} (xs ys : List X) (hnodup : ks.Nodup) (hxs : ∀ k ∈ xs, k ∉ ks)
    (hys : ∀ k ∈ ys, k ∉ ks) (h : ks.Sublist (xs ++ ks.reverse ++ ys)) : ∀ k ∈ ks, ∀ k' ∈ ks, k = k' := by
  classical
  have hks : ks.filter (fun k => decide (k ∈ ks)) = ks := List.filter_eq_self.mpr (by simp)
  have hrest : (xs ++ ks.reverse ++ ys).filter (fun k => decide (k ∈ ks)) = ks.reverse := by
    have hx : xs.filter (fun k => decide (k ∈ ks)) = [] := List.filter_eq_nil_iff.mpr (by simpa using hxs)
    have hy : ys.filter (fun k => decide (k ∈ ks)) = [] := List.filter_eq_nil_iff.mpr (by simpa using hys)
    rw [List.filter_append, List.filter_append, hx, hy, List.filter_reverse, hks, List.nil_append, List.append_nil]
  have hmirror : ks.Sublist ks.reverse := by
    have hfilter := h.filter fun k => decide (k ∈ ks)
    rwa [hks, hrest] at hfilter
  have hmirror : ks = ks.reverse := hmirror.eq_of_length (by simp)
  match ks with
  | [] => simp
  | [k] => simp
  | k :: k' :: rest =>
      have hlast : (k' :: rest).getLast? = some k := by
        have hhead := congrArg List.head? hmirror
        rw [List.head?_reverse, List.getLast?_cons_cons] at hhead
        exact hhead.symm
      exact absurd (List.mem_of_getLast? hlast) (List.nodup_cons.mp hnodup).1

end

section
variable {s : Swap K A H C D} {own other : List K} {mine others : List (Listed K A H C D)}

/-- The keys of both parties, last first. -/
def Swap.allKeys (s : Swap K A H C D) : List K := (firsts s.fromKeys).reverse ++ (firsts s.toKeys).reverse

/-- A contract in a transaction that all have signed. -/
def Swap.signedEntry (s : Swap K A H C D) (p : Listed K A H C D × Contract K A H C D) : Entry K A H C D where
  contract := p.2
  id := p.1.sealedId
  effectiveKeys := s.allKeys
  keysDiffer := by
    refine List.Nodup.append (by simpa using nodup_firsts _) (by simpa using nodup_firsts _) ?_
    intro k hk hk'
    exact s.disjoint k (by simpa using hk) (by simpa using hk')

theorem Swap.signedByBoth_signedEntry (p : Listed K A H C D × Contract K A H C D) :
    s.SignedByBoth (s.signedEntry p) := by
  intro k hk
  simpa [signedEntry, allKeys] using hk

/-- A revision of a listed contract, as it was made or as it is read back. -/
def Swap.RevisionOf (s : Swap K A H C D) (p : Listed K A H C D × Contract K A H C D) : Prop :=
  ∃ own other mine others, s.Side own other mine others ∧ p.1 ∈ mine ∧
    p.2.Is (newRevision s.longAddress own other others p.1)

/-- A transaction of revisions, signed by both parties. -/
def Swap.transactionOf (s : Swap K A H C D) (ps : List (Listed K A H C D × Contract K A H C D))
    (hrevisions : ∀ p ∈ ps, s.RevisionOf p) (hnodup : (ps.map fun p => p.1.sealedId).Nodup) : Transaction s where
  entries := ps.map s.signedEntry
  idsDiffer := by simpa [Function.comp_def, signedEntry] using hnodup
  revisionIds := by
    intro e he r hr hid
    obtain ⟨p, hp, rfl⟩ := List.mem_map.mp he
    obtain ⟨own, other, mine, others, hside, hl, his⟩ := hrevisions p hp
    obtain rfl := s.revision_of_id (hside.mem_revisions hl) hr (his.transactionalId_eq.symm.trans hid)
    exact his

end

section
variable [DecidableEq H] {setup : CheckSetup K A H C D} {s : Swap K A H C D} {own other : List K}
  {mine others : List (Listed K A H C D)}

/-- The transaction of all new revisions. -/
def Swap.all (s : Swap K A H C D) : List (Listed K A H C D × Contract K A H C D) :=
  (s.contracts1.map fun l => (l, newRevision s.longAddress s.fromKeys s.toKeys s.contracts2 l)) ++
    s.contracts2.map fun l => (l, newRevision s.longAddress s.toKeys s.fromKeys s.contracts1 l)

omit [DecidableEq H] in
theorem Swap.Side.mem_all (hside : s.Side own other mine others) {l : Listed K A H C D} (hl : l ∈ mine) :
    (l, newRevision s.longAddress own other others l) ∈ s.all := by
  cases hside with
  | first => exact List.mem_append_left _ (List.mem_map_of_mem hl)
  | second => exact List.mem_append_right _ (List.mem_map_of_mem hl)

/-- Where complete transactions add no error, each party has one key at most. -/
theorem AllOrNothing.key (h : AllOrNothing setup s) (hside : s.Side own other mine others) :
    ∀ k ∈ own, ∀ k' ∈ own, k = k' := by
  have hrevisions : ∀ p ∈ s.all, s.RevisionOf p := by
    intro p hp
    rcases List.mem_append.mp hp with hp | hp
    · obtain ⟨l, hl, rfl⟩ := List.mem_map.mp hp
      exact ⟨_, _, _, _, .first, hl, Or.inl rfl⟩
    · obtain ⟨l, hl, rfl⟩ := List.mem_map.mp hp
      exact ⟨_, _, _, _, .second, hl, Or.inl rfl⟩
  obtain ⟨t, ht⟩ : ∃ t, s.transactionOf s.all hrevisions
    (by simpa [Swap.all, Function.comp_def] using s.sealedDiffer) = t := ⟨_, rfl⟩
  have hentries : t.entries = s.all.map s.signedEntry := ht ▸ rfl
  obtain ⟨l, hl⟩ := List.exists_mem_of_ne_nil _ hside.nonempty
  obtain ⟨last, hlast⟩ : ∃ last, others.getLast? = some last :=
    ⟨_, List.getLast?_eq_some_getLast hside.flip.nonempty⟩
  have hmem : s.signedEntry (l, newRevision s.longAddress own other others l) ∈ t.entries :=
    hentries ▸ List.mem_map_of_mem (hside.mem_all hl)
  have hthere : ∀ r ∈ s.revisions, ∃ e ∈ t.entries, e.contract.Is r := by
    intro r hr
    obtain ⟨own, other, mine, others, hside, l, hl, rfl⟩ := Swap.mem_revisions.mp hr
    exact ⟨_, hentries ▸ List.mem_map_of_mem (hside.mem_all hl), Or.inl rfl⟩
  have hsigned : ∀ e ∈ t.entries, s.SignedByBoth e := by
    intro e he
    obtain ⟨p, -, rfl⟩ := List.mem_map.mp (hentries ▸ he)
    exact Swap.signedByBoth_signedEntry p
  have hreference : ask last.transactionalId own other ∈
      (newRevision s.longAddress own other others l).references := by
    rw [references_newRevision]
    exact List.mem_of_getLast? (getLast_asks hlast)
  obtain ⟨c, hmatch⟩ := h.noError t hthere (fun e he _ _ _ => hsigned e he) _ hmem _ (hside.mem_revisions hl)
    (Or.inl rfl) _ hreference (mem_newRevision_last hlast) []
  obtain ⟨n, hn, -, howner, -⟩ := setup.signed_of_seekNeighbour last.nonempty hmatch
  obtain ⟨p, -, rfl⟩ := List.mem_map.mp (hentries ▸ hn)
  -- the keys are read from all keys, last first
  have hkeys : (firsts own).Sublist s.allKeys := setup.sublist_of_signs howner
  have hsame : ∀ k ∈ firsts own, ∀ k' ∈ firsts own, k = k' := by
    cases hside with
    | first =>
        refine same_of_sublist_reverse [] (firsts s.toKeys).reverse (nodup_firsts _) (by simp) ?_ hkeys
        exact fun k hk hk' => s.disjoint k (by simpa using hk') (by simpa using hk)
    | second =>
        refine same_of_sublist_reverse (firsts s.fromKeys).reverse [] (nodup_firsts _) ?_ (by simp) ?_
        · exact fun k hk hk' => s.disjoint k (by simpa using hk) (by simpa using hk')
        · simpa [Swap.allKeys] using hkeys
  exact fun k hk k' hk' => hsame k (mem_firsts.mpr hk) k' (mem_firsts.mpr hk')

/-- A revision of an undemanding swap passes where its reference does. -/
theorem Undemanding.passes (h : Undemanding setup s) (hside : s.Side own other mine others)
    {l : Listed K A H C D} (hl : l ∈ mine) {e : Entry K A H C D}
    (his : e.contract.Is (newRevision s.longAddress own other others l)) {tree : List (Entry K A H C D)}
    (hreference : ∀ last valid, others.getLast? = some last →
      setup.ConstraintPasses e tree valid (ask last.transactionalId own other)) : setup.Passes e tree := by
  refine setup.passes_of_constraintPasses fun p hp valid => ?_
  rcases mem_constraints_cases his hp with hown | ⟨-, hlast⟩
  · exact h.own hside l hl p.2 hown e his tree valid
  · obtain ⟨last, hlast'⟩ : ∃ last, others.getLast? = some last :=
      ⟨_, List.getLast?_eq_some_getLast hside.flip.nonempty⟩
    have hask : ask last.transactionalId own other = p.2 := Option.some.inj ((getLast_asks hlast').symm.trans hlast)
    exact hask ▸ hreference last valid hlast'

/-- So it does where the last contract of the other party is there and all is signed. -/
theorem Undemanding.passes_with (h : Undemanding setup s) (hall : AllOrNothing setup s) (t : Transaction s)
    (hsigned : ∀ n ∈ t.entries, s.SignedByBoth n) (hside : s.Side own other mine others) {l last : Listed K A H C D}
    (hl : l ∈ mine) {e : Entry K A H C D} (his : e.contract.Is (newRevision s.longAddress own other others l))
    (hlast : others.getLast? = some last) (hthere : ∃ n ∈ t.entries, n.transactionalId = some last.transactionalId) :
    setup.Passes e t.entries := by
  refine h.passes hside hl his fun last' valid hlast' => ?_
  obtain rfl := Option.some.inj (hlast.symm.trans hlast')
  obtain ⟨role, hrole⟩ := h.roles hside l hl
  obtain ⟨c, hmatch⟩ := matched_of_signed setup t hside (hall.key hside) (hall.key hside.flip) hthere
    (fun n hn _ => hsigned n hn) e valid
  exact setup.constraintPasses_of_match ((roleConstraint_of_is his _ _).trans hrole) hmatch (Or.inr rfl)

/-- The transaction of one revision alone does not pass. -/
theorem AllOrNothing.not_alone (h : AllOrNothing setup s) (hside : s.Side own other mine others)
    {l : Listed K A H C D} (hl : l ∈ mine) {c : Contract K A H C D}
    (his : c.Is (newRevision s.longAddress own other others l)) :
    ¬setup.Passes (s.signedEntry (l, c)) [s.signedEntry (l, c)] := by
  intro hpass
  obtain ⟨t, ht⟩ : ∃ t, s.transactionOf [(l, c)] (by simpa using ⟨own, other, mine, others, hside, hl, his⟩)
    (by simp) = t := ⟨_, rfl⟩
  have hentries : t.entries = [s.signedEntry (l, c)] := ht ▸ rfl
  obtain ⟨l', hl'⟩ := List.exists_mem_of_ne_nil _ hside.flip.nonempty
  obtain ⟨e, he, hise, -⟩ := h.complete t (by simpa [hentries] using hpass)
    ⟨_, hentries ▸ List.mem_singleton_self _, _, hside.mem_revisions hl, his⟩ _ (hside.flip.mem_revisions hl')
  rw [hentries, List.mem_singleton] at he
  subst he
  have hid := (transactionalId_of_is his).symm.trans (transactionalId_of_is hise)
  exact hside.id_ne hl hl' (Option.some.inj hid)

theorem Undemanding.noRole (h : Undemanding setup s) (hall : AllOrNothing setup s)
    (hside : s.Side own other mine others) {l : Listed K A H C D} (hl : l ∈ mine) :
    (l.withRoles s.longAddress own other).roleConstraint setup.depth "" ≠ .ok true := by
  intro hrole
  refine hall.not_alone hside hl (Or.inl rfl) (h.passes hside hl (Or.inl rfl) fun last valid hlast => ?_)
  have hnone : ∀ n ∈ [s.signedEntry (l, newRevision s.longAddress own other others l)],
      n.transactionalId ≠ some last.transactionalId := by
    intro n hn hid
    rw [List.mem_singleton.mp hn, transactionalId_of_is (Or.inl rfl), Option.some.injEq] at hid
    exact hside.id_ne hl (List.mem_of_getLast? hlast) hid
  -- the reference is not found, but it is a role's
  exact setup.constraintPasses_of_match ((roleConstraint_of_is (Or.inl rfl) _ _).trans hrole)
    (setup.seekNeighbour_none hnone) (Or.inl rfl)

theorem Undemanding.noName (h : Undemanding setup s) (hall : AllOrNothing setup s)
    (hside : s.Side own other mine others) {l : Listed K A H C D} (hl : l ∈ mine) :
    ∀ c ∈ l.sections, c.name ≠ "" := by
  intro c hc hname
  refine hall.not_alone hside hl (Or.inr rfl) (setup.passes_of_constraintPasses fun p hp valid => ?_)
  refine h.own hside l hl p.2 ?_ _ (Or.inr rfl) _ valid
  -- where the reference would be kept, the contract's own constraint of that name is
  rcases mem_constraints_cases (Or.inr rfl) hp with hown | ⟨hp1, -⟩
  · exact hown
  · obtain ⟨c', hc'⟩ : ∃ c', lastNamed "" (l.sections.map Constraint.fresh) = some c' := by
      refine Option.ne_none_iff_exists'.mp fun hnone => ?_
      have hempty := List.getLast?_eq_none_iff.mp hnone
      have hnot := List.filter_eq_nil_iff.mp hempty c.fresh (List.mem_map_of_mem hc)
      exact hnot (decide_eq_true hname)
    have hkept : p ∈ (newRevision s.longAddress own other others l).copy.constraints := hp
    rw [copy_constraints, mem_setConstraints, lastNamed_append, hp1, hc', Option.some_or] at hkept
    obtain hkept := Option.some.inj (hkept.resolve_right fun hnone => absurd hnone.1 nofun)
    exact List.mem_append.mpr (Or.inr (hkept ▸ (lastNamed_eq_some hc').1))

/-- The last contracts of both sides alone pass, so there are no others. -/
theorem Undemanding.one (h : Undemanding setup s) (hall : AllOrNothing setup s)
    (hside : s.Side own other mine others) : mine.length = 1 := by
  obtain ⟨last, hlast⟩ : ∃ last, mine.getLast? = some last :=
    ⟨_, List.getLast?_eq_some_getLast hside.nonempty⟩
  obtain ⟨last', hlast'⟩ : ∃ last', others.getLast? = some last' :=
    ⟨_, List.getLast?_eq_some_getLast hside.flip.nonempty⟩
  have hmem := List.mem_of_getLast? hlast
  have hmem' := List.mem_of_getLast? hlast'
  obtain ⟨e, he⟩ : ∃ e, s.signedEntry (last, newRevision s.longAddress own other others last) = e := ⟨_, rfl⟩
  obtain ⟨e', he'⟩ : ∃ e', s.signedEntry (last', newRevision s.longAddress other own mine last') = e' := ⟨_, rfl⟩
  have his : e.contract.Is (newRevision s.longAddress own other others last) := he ▸ Or.inl rfl
  have his' : e'.contract.Is (newRevision s.longAddress other own mine last') := he' ▸ Or.inl rfl
  obtain ⟨t, ht⟩ : ∃ t : Transaction s, t.entries = [e, e'] := by
    refine ⟨s.transactionOf [(last, newRevision s.longAddress own other others last),
      (last', newRevision s.longAddress other own mine last')] ?_ ?_, ?_⟩
    · intro p hp
      rcases List.mem_pair.mp hp with rfl | rfl
      · exact ⟨_, _, _, _, hside, hmem, Or.inl rfl⟩
      · exact ⟨_, _, _, _, hside.flip, hmem', Or.inl rfl⟩
    · simpa using hside.sealedId_ne hmem hmem'
    · rw [← he, ← he']
      rfl
  have hsigned : ∀ n ∈ t.entries, s.SignedByBoth n := by
    intro n hn
    rw [ht] at hn
    rcases List.mem_pair.mp hn with rfl | rfl
    · exact he ▸ Swap.signedByBoth_signedEntry _
    · exact he' ▸ Swap.signedByBoth_signedEntry _
  have hpass : ∀ n ∈ t.entries, setup.Passes n t.entries := by
    have hid := transactionalId_of_is his
    have hid' := transactionalId_of_is his'
    intro n hn
    rw [ht] at hn
    rcases List.mem_pair.mp hn with rfl | rfl
    · exact h.passes_with hall t hsigned hside hmem his hlast' ⟨e', by simp [ht], hid'⟩
    · exact h.passes_with hall t hsigned hside.flip hmem' his' hlast ⟨e, by simp [ht], hid⟩
  have hthere := hall.complete t hpass ⟨e, by simp [ht], _, hside.mem_revisions hmem, his⟩
  have hsame : ∀ l ∈ mine, l = last := by
    intro l hl
    obtain ⟨n, hn, hisn, -⟩ := hthere _ (hside.mem_revisions hl)
    rw [ht] at hn
    have hid := transactionalId_of_is hisn
    rcases List.mem_pair.mp hn with rfl | rfl
    · exact hside.eq_of_id hl hmem (Option.some.inj (hid.symm.trans (transactionalId_of_is his)))
    · exact absurd (Option.some.inj (hid.symm.trans (transactionalId_of_is his'))) (hside.id_ne hl hmem')
  have hnodup : mine.Nodup := hside.nodup
  rw [List.eq_replicate_of_mem hsame, List.nodup_replicate] at hnodup
  exact Nat.le_antisymm hnodup (List.length_pos_iff.mpr hside.nonempty)

/-- CODE DEFECT (a swap is all or nothing): it is so where each party has one contract and not more than one key, and
    no constraint or role uses the name that all references have; and where the contracts have no constraints that
    make up for it, in no other case. -/
theorem allOrNothing_iff (setup : CheckSetup K A H C D) (s : Swap K A H C D) :
    (Tight setup s → AllOrNothing setup s) ∧ (Undemanding setup s → AllOrNothing setup s → Tight setup s) :=
  ⟨Tight.allOrNothing, fun h hall =>
    ⟨fun hside => h.one hall hside, fun hside => hall.key hside, fun hside _ hl => h.noRole hall hside hl,
      fun hside _ hl => h.noName hall hside hl⟩⟩

end

/-! ### Two contracts for one -/

/-- A contract without roles and constraints of its own. -/
def plainContract : Contract ℕ ℕ ℕ Unit Unit where
  graph := ⟨fun _ => ⟨true, [], [], .simple [] []⟩, fun _ => none, fun _ => none, [], fun _ _ => false⟩
  roleCount := 0
  roleNames := []
  stateRoleNames := []
  permissionRoles := []
  origin := none
  dataFields := []
  body := ()
  transactional := none
  definitionConstraints := []
  stateConstraints := []
  constraints := []

/-- It in a list, with its ids. -/
def plainListed (id : ℕ) (transactionalId : String) (nonempty : transactionalId ≠ "") : Listed ℕ ℕ ℕ Unit Unit :=
  ⟨plainContract, id, 1, (), transactionalId, nonempty, id⟩

/-- Party 1 gives "a" and "b" for "c" of party 2. -/
def twoForOne : Swap ℕ ℕ ℕ Unit Unit where
  longAddress := id
  fromKeys := [1]
  toKeys := [2]
  disjoint := by decide
  contracts1 := [plainListed 1 "a" (by decide), plainListed 2 "b" (by decide)]
  contracts2 := [plainListed 3 "c" (by decide)]
  nonempty1 := by decide
  nonempty2 := by decide
  idsDiffer := by decide
  sealedDiffer := by decide

/-- No addresses match, and there are no conditions. -/
def plainSetup : CheckSetup ℕ ℕ ℕ Unit Unit := ⟨fun _ _ => false, 10, fun _ => 0, fun _ _ _ _ _ => .ok true⟩

/-- The revision of "b". -/
def revisionB : Contract ℕ ℕ ℕ Unit Unit :=
  newRevision id [1] [2] twoForOne.contracts2 (plainListed 2 "b" (by decide))

/-- The revision of "c". -/
def revisionC : Contract ℕ ℕ ℕ Unit Unit :=
  newRevision id [2] [1] twoForOne.contracts1 (plainListed 3 "c" (by decide))

/-- An entry of a transaction that both have signed. -/
def bothSigned (id : ℕ) (c : Contract ℕ ℕ ℕ Unit Unit) : Entry ℕ ℕ ℕ Unit Unit := ⟨c, id, [1, 2], by decide⟩

/-- The transaction of "b" and "c" passes without "a". -/
theorem partial_passes : (∀ e ∈ [bothSigned 2 revisionB, bothSigned 3 revisionC],
      plainSetup.Passes e [bothSigned 2 revisionB, bothSigned 3 revisionC]) ∧ ¬AllOrNothing plainSetup twoForOne := by
  have hpass : ∀ e ∈ [bothSigned 2 revisionB, bothSigned 3 revisionC],
      plainSetup.Passes e [bothSigned 2 revisionB, bothSigned 3 revisionC] := by
    intro e he
    rcases List.mem_pair.mp he with rfl | rfl
    · exact ⟨_, rfl, rfl⟩
    · exact ⟨_, rfl, rfl⟩
  refine ⟨hpass, fun h => ?_⟩
  have hrevisions : ∀ e ∈ [bothSigned 2 revisionB, bothSigned 3 revisionC], ∀ r ∈ twoForOne.revisions,
      e.transactionalId = r.transactionalId → e.contract.Is r := by
    intro e he r hr hid
    have hmade : e.contract ∈ twoForOne.revisions := by
      rcases List.mem_pair.mp he with rfl | rfl
      · exact List.mem_cons_of_mem _ List.mem_cons_self
      · exact List.mem_cons_of_mem _ (List.mem_cons_of_mem _ List.mem_cons_self)
    exact Or.inl (Swap.revision_of_id hmade hr hid)
  obtain ⟨e, he, his, -⟩ := h.complete ⟨_, by decide, hrevisions⟩ hpass
    ⟨_, List.mem_cons_self, revisionB, List.mem_cons_of_mem _ List.mem_cons_self, Or.inl rfl⟩
    (newRevision id [1] [2] twoForOne.contracts2 (plainListed 1 "a" (by decide))) List.mem_cons_self
  have hid : e.transactionalId = some "a" := his.transactionalId_eq
  rcases List.mem_pair.mp he with rfl | rfl
  · exact absurd hid (by decide)
  · exact absurd hid (by decide)

end Universa.Contracts.Constraints
