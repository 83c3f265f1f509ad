import Mathlib.Data.List.Nodup
import Universa.Contracts.NoInflation
import Universa.Contracts.TokenOperationsCheck

/-! `createSplit`, `createJoin` and `createSplitJoin` build the next revision of a token step by step. `Next` is
    what each step keeps, `Made` what the operation ends with: a root that revokes all that goes in, and parts
    in new branches. Their loaded form meets the check of `TokenOperationsCheck` contract by contract, and the
    transaction passes except for one amount: the one that the first contract has already. -/

namespace Universa.Contracts.Tokens
open Universa.Js

variable (fits : Packed → String → Bool)

/-! ### The next revision while it is built -/

/-- The next revision of a token with that amount, not yet sealed or signed. -/
structure Next (t : Terms) (O : HashId) (first : Contract) (now : ℤ) (c : Contract) (x : ℚ) : Prop where
  owned : ∃ owner, c.roles.owner = simpleRole fits "owner" owner ∧
    ∀ written, loadedDefinition written c.definition = loadedDefinition written (t.definition fits owner)
  apiLevel : c.apiLevel = .fin 4
  issuer : c.roles.issuer = simpleRole fits "issuer" t.issuer
  creator : Ordinary c.roles.creator.tree
  transactional : c.transactional = none
  revision : c.state.revision = first.state.revision.succ
  createdAt : c.state.createdAt = some now
  origin : c.state.origin = some O
  parent : c.state.parent = some first.id
  branch : ∃ n : ℕ, first.state.revision = .fin n ∧ BranchUpTo (n + 1) c.state.branchId
  data : c.state.data = [("amount", .str (toFixed x))]
  noRoles : c.state.roles = []
  noExpiration : c.state.expiresAt = none
  noReferences : c.state.references = []

variable {fits} {t : Terms} {O : HashId} {owner : SimpleRole} {first c : Contract} {now : ℤ} {a x y : ℚ}

theorem resolved_tree (roleName : String) (role r : Role) : (resolved roleName role r).tree = r.tree := by
  unfold resolved
  split <;> rfl

/-- A link that resolves to another role is serialized as before. -/
theorem loaded_resolved (written : Bool) (roleName : String) (role : Role) (d : Definition) :
    loadedDefinition written (resolvedIn roleName role d) =
      resolvedIn roleName role (loadedDefinition written d) := by
  have hserialize (p : Permission) :
      ({ p with role := resolved roleName role p.role } : Permission).serialize = p.serialize := by
    simp only [Permission.serialize, Permission.serializedParams, resolved_tree]
  have hparams (p : Permission) : loadedPermission written { p with role := resolved roleName role p.role } =
      { loadedPermission written p with role := resolved roleName role p.role } := by
    simp only [loadedPermission, hserialize, Permission.serializedParams]
  have hrole (p : Permission) : (loadedPermission written p).role = p.role := rfl
  simp [loadedDefinition, resolvedIn, List.map_map, Function.comp_def, hparams, hrole]

theorem linksTo_roleLink (roleName name target : String) (role : Role) :
    linksTo roleName (roleLink name target role) = (target == roleName) := by
  simp [linksTo, roleLink, List.lookup_cons]

theorem resolved_definition (written : Bool) (newOwner : SimpleRole) :
    resolvedIn "owner" (simpleRole fits "owner" newOwner) (loadedDefinition written (t.definition fits owner)) =
      loadedDefinition written (t.definition fits newOwner) := by
  have hlink (name : String) (r : Role) :
      resolved "owner" (simpleRole fits "owner" newOwner) (roleLink name "owner" r) =
        roleLink name "owner" (simpleRole fits "owner" newOwner) := by
    rw [resolved, linksTo_roleLink, BEq.rfl, if_pos rfl]
    rfl
  have hissuer (name : String) (r : Role) :
      resolved "owner" (simpleRole fits "owner" newOwner) (roleLink name "issuer" r) = roleLink name "issuer" r := by
    rw [resolved, linksTo_roleLink]
    simp
  rw [← loaded_resolved]
  simp [resolvedIn, Terms.definition, Terms.permissions, hlink, hissuer]

theorem resolved_simpleRole (name : String) (r : SimpleRole) (role : Role) :
    resolved "owner" role (simpleRole fits name r) = simpleRole fits name r := rfl

/-! ### Branch ids -/

theorem parseInt_toDigits {n : ℕ} (hsafe : n ≤ 2 ^ 53) :
    QuorumVote.parseInt (Nat.toDigits 10 n) = .fin n := by
  obtain ⟨d, ds, hds⟩ := List.exists_cons_of_ne_nil (Nat.toDigits_ne_nil (n := n) (b := 10))
  have hdigit : ∀ c ∈ d :: ds, c.isDigit = true := fun c hc => toDigits_digit (hds ▸ hc)
  have hread : baseLiteral 10 (d :: ds) = .fin n := by
    rw [← hds, baseLiteral_toDigits]
    exact_mod_cast Number.ofRat_int (z := n) hsafe
  have hspace : (d :: ds).dropWhile isSpace = d :: ds :=
    List.dropWhile_cons_of_neg (by simp [isSpace_digit (hdigit d List.mem_cons_self)])
  have htake : (d :: ds).takeWhile (fun c => (baseDigit 10 c).isSome) = d :: ds :=
    List.takeWhile_eq_self_iff.mpr fun c hc => by simp [baseDigit_digit (hdigit c hc)]
  rw [hds, QuorumVote.parseInt, hspace]
  split
  next cs heq =>
    rw [heq] at hdigit
    exact absurd (hdigit 'x' (by simp)) (by decide)
  next cs heq =>
    rw [heq] at hdigit
    exact absurd (hdigit 'X' (by simp)) (by decide)
  next => rw [htake, hread]

/-- The revision that a branch id is of. -/
theorem getBranchRevision_text {s : State} {revision number : ℕ} (hpos : 0 < revision)
    (hsafe : revision ≤ 2 ^ 53) (hs : s.branchId = .str (branchText revision number)) :
    getBranchRevision s = some (.fin revision) := by
  have htext : (branchText revision number).toList =
      Nat.toDigits 10 revision ++ ':' :: (toString number).toList := by
    rw [branchText, Number.text, decimalText_nat hpos (by omega), String.toList_append, String.toList_append,
      Nat.toString_eq_repr, Nat.toList_repr, List.append_assoc]
    rfl
  have htake : (branchText revision number).toList.takeWhile (· ≠ ':') = Nat.toDigits 10 revision := by
    have hne : ∀ d ∈ Nat.toDigits 10 revision, (decide (d ≠ ':')) = true := by
      intro d hd
      have hdigit := toDigits_digit hd
      rw [decide_eq_true_iff]
      rintro rfl
      cases hdigit
    rw [htext, List.takeWhile_append_of_pos hne, List.takeWhile_cons_of_neg (by simp), List.append_nil]
  rw [getBranchRevision, hs]
  simp only [htake, parseInt_toDigits hsafe]

/-- A branch of the next revision is another one than the token's, which is not split yet. -/
theorem Numbered.branch_new {n : ℕ} (hn : Numbered O first n) :
    (∃ r, getBranchRevision first.state = some r ∧ r.eq (.fin (n + 1)) = false) ∧
      ∀ number, first.state.branchId ≠ .str (branchText (n + 1) number) := by
  rcases hn.branch with hnull | ⟨revision, number, hpos, hle, htext⟩
  · refine ⟨⟨.fin 0, by rw [getBranchRevision, hnull], ?_⟩, by simp [hnull]⟩
    have hne : (0 : ℚ) ≠ n + 1 := by positivity
    simpa [Number.eq] using hne
  · have hold := getBranchRevision_text hpos (by have := hn.safe; omega) htext
    have hne : ((revision : ℕ) : ℚ) ≠ (n + 1 : ℕ) := by
      intro heq
      have : revision = n + 1 := by exact_mod_cast heq
      omega
    refine ⟨⟨_, hold, ?_⟩, fun number' heq => ?_⟩
    · push_cast at hne
      simpa [Number.eq] using hne
    · have hnew := getBranchRevision_text (s := first.state) (Nat.succ_pos n) (by have := hn.safe; omega) heq
      rw [hold] at hnew
      exact hne (Number.fin.inj (Option.some.inj hnew))

theorem setBranchNumber_branchId {n : ℕ} (hn : first.state.revision = .fin n)
    (h : c.state.revision = first.state.revision.succ) (number : ℕ) :
    (setBranchNumber number c).state.branchId = .str (branchText (n + 1) number) := by
  have hrevision : c.state.revision = .fin ((n + 1 : ℕ) : ℚ) := by
    rw [h, hn]
    push_cast
    rfl
  rw [setBranchNumber, branchText, hrevision]

/-! ### The steps of the operations -/

namespace Next

theorem ofRevision {n : ℕ} (hfirst : Token fits t O owner first) (hn : Numbered O first n)
    (hdata : first.state.data = [("amount", .str (toFixed a))]) (now : ℤ) (creators : Option SimpleRole) :
    Next fits t O first now (createRevision fits now creators first) a := by
  have horigin : (if first.state.revision.eq (.fin 1) then some first.id else first.state.origin) = some O := by
    have h := hn.origin
    rw [hn.revision]
    by_cases hone : n = 1
    · rw [if_pos hone] at h
      simp [Number.eq, hone, h.2]
    · rw [if_neg hone] at h
      simp [Number.eq, hone, h]
  have hplain : Next fits t O first now (createRevision fits now none first) a :=
    { owned := ⟨owner, hfirst.owner, hfirst.definition⟩
      apiLevel := hfirst.apiLevel
      issuer := hfirst.issuer
      creator := hfirst.creator
      transactional := rfl
      revision := rfl
      createdAt := rfl
      origin := horigin
      parent := rfl
      branch := by
        refine ⟨n, hn.revision, ?_⟩
        rcases hn.branch with hnull | ⟨revision, number, hpos, hle, htext⟩
        · exact .inl hnull
        · exact .inr ⟨revision, number, hpos, by omega, htext⟩
      data := hdata
      noRoles := hfirst.noRoles
      noExpiration := hfirst.noExpiration
      noReferences := hfirst.noReferences }
  cases creators with
  | none => exact hplain
  | some keys => exact { hplain with creator := ordinary_simpleRole "creator" keys }

theorem setBranchNumber (h : Next fits t O first now c x) (number : ℕ) :
    Next fits t O first now (Tokens.setBranchNumber number c) x := by
  obtain ⟨n, hn, -⟩ := h.branch
  exact { h with branch := ⟨n, hn, .inr ⟨n + 1, number, n.succ_pos, le_rfl,
    setBranchNumber_branchId hn h.revision number⟩⟩ }

theorem copy (h : Next fits t O first now c x) : Next fits t O first now (Tokens.copy c) x := { h with }

theorem sealContract (h : Next fits t O first now c x) (idOf : Contract → HashId) :
    Next fits t O first now (Tokens.sealContract idOf c) x := { h with }

theorem addRevoking (h : Next fits t O first now c x) (item : Contract) :
    Next fits t O first now (Tokens.addRevoking c item) x := by
  unfold Tokens.addRevoking
  split
  · exact h
  · exact { h with }

theorem registerCreator (h : Next fits t O first now c x) {role : Role} (hrole : Ordinary role.tree) :
    Next fits t O first now (Tokens.registerCreator role c) x :=
  { h with creator := hrole }

theorem registerOwner (h : Next fits t O first now c x) (newOwner : SimpleRole) :
    Next fits t O first now (Tokens.registerOwner (simpleRole fits "owner" newOwner) c) x := by
  obtain ⟨owner, -, hdefinition⟩ := h.owned
  have hdefinition' (written : Bool) : loadedDefinition written
      (resolvedIn "owner" (simpleRole fits "owner" newOwner) c.definition) =
      loadedDefinition written (t.definition fits newOwner) := by
    rw [loaded_resolved, hdefinition, resolved_definition]
  exact { h with
    owned := ⟨newOwner, rfl, hdefinition'⟩
    issuer := by
      rw [Tokens.registerOwner]
      exact (congrArg (resolved "owner" _) h.issuer).trans (resolved_simpleRole ..)
    creator := by
      rw [Tokens.registerOwner]
      exact (resolved_tree ..).symm ▸ h.creator }

theorem setData (h : Next fits t O first now c x) (y : ℚ) :
    Next fits t O first now (Tokens.setData "amount" (.str (toFixed y)) c) y := by
  have hdata : assign c.state.data "amount" (.str (toFixed y)) = [("amount", .str (toFixed y))] := by
    rw [h.data]
    simp [assign, Js.keys]
  exact { h with data := hdata }

end Next

/-! ### The transaction -/

/-- What an operation makes of a token: a root that revokes all that goes in, and parts. Where there are parts
    all of them and the root are in new branches, else the root keeps its owner. -/
structure Made (fits : Packed → String → Bool) (t : Terms) (O : HashId) (first : Contract) (now : ℤ)
    (inputs : List Contract) (root : Contract) (parts : List Contract) (x : ℚ) (ys : List ℚ) : Prop where
  ofRoot : Next fits t O first now root x
  ofParts : List.Forall₂ (Next fits t O first now) parts ys
  revoking : root.revokingItems = inputs
  noRevoking : ∀ c ∈ parts, c.revokingItems = []
  branches : parts ≠ [] → ∀ c ∈ root :: parts, first.state.branchId ≠ c.state.branchId
  alone : parts = [] → first.roles.owner = root.roles.owner

variable {keys : KeySet}

/-- A built revision, packed and loaded. -/
theorem Next.revised (h : Next fits t O first now c x) (hx : Terminating x) (keys : KeySet) (written : Bool)
    (revoking : List Contract) : Revised fits t O first now keys
      { loadedContract written c with effectiveKeys := keys, revokingItems := revoking } x := by
  obtain ⟨owner, howner, hdefinition⟩ := h.owned
  have horigin : c.getOrigin = O := by rw [Contract.getOrigin, h.origin, Option.getD_some]
  obtain ⟨n, -, hbranch⟩ := h.branch
  exact { h with
    branch := hbranch.cases
    holds := ⟨owner, ⟨horigin, ⟨written, hdefinition written⟩, h.data, hx⟩⟩
    owner := howner ▸ ordinary_simpleRole "owner" owner
    keys := rfl }

theorem Next.amountOf (h : Next fits t O first now c x) (hx : Terminating x) : amountOf "amount" c = x := by
  rw [Contracts.amountOf, amount, h.data]
  exact congrArg (Option.getD · 0) (bigDecimal_toFixed hx)

theorem check_iff {context : Context} {c : Contract} {news : List Item} :
    Item.check (fun _ => some []) context (.mk c news) = some [] ↔ c.checkByOrigin context = some [] ∧
      ∀ n ∈ news, Item.check (fun _ => some []) (Item.mk c news).updateContext n = some [] := by
  have hlist {context : Context} : ∀ {news : List Item},
      (∀ n ∈ news, Item.check (fun _ => some []) context n = some []) →
      Item.checkNewItems (fun _ => some []) context news = some [] := by
    intro news h
    induction news with
    | nil => rfl
    | cons n news ih =>
        rw [Item.checkNewItems, h n List.mem_cons_self, ih fun n' hn' => h n' (List.mem_cons_of_mem _ hn')]
        rfl
  refine ⟨check_item, ?_⟩
  rintro ⟨hown, hnews⟩
  rw [Item.check, hown, hlist hnews]
  rfl

/-- The root as it is loaded. -/
def loadedRoot (keys : KeySet) (written : Contract → Bool) (root : Contract) : Contract :=
  { loadedContract (written root) root with
    effectiveKeys := keys
    revokingItems := root.revokingItems.map fun c =>
      loadedContract (written c || decide (some c.id = root.state.parent)) c }

/-- A part as it is loaded. -/
def loadedPart (keys : KeySet) (written : Contract → Bool) (part : Contract) : Contract :=
  { loadedContract (written part) part with effectiveKeys := keys }

theorem loaded_eq (written : Contract → Bool) (root : Contract) (parts : List Contract) :
    loaded keys written root parts =
      .mk (loadedRoot keys written root) (parts.map fun c => .mk (loadedPart keys written c) []) := rfl

section Transaction
variable {written : Contract → Bool} {others parts : List Contract} {root : Contract} {ys : List ℚ}
  (hmade : Made fits t O first now (first :: others) root parts x ys)
include hmade

theorem Made.part {part : Contract} (hpart : part ∈ parts) : ∃ y ∈ ys, Next fits t O first now part y := by
  obtain ⟨i, hi, rfl⟩ := List.mem_iff_getElem.mp hpart
  have hlen := hmade.ofParts.length_eq
  exact ⟨ys[i], List.getElem_mem _, (List.forall₂_iff_get.mp hmade.ofParts).2 i hi (hlen ▸ hi)⟩

theorem Made.amounts (hterm : ∀ z ∈ x :: ys, Terminating z) :
    (root :: parts).map (amountOf "amount") = x :: ys := by
  obtain ⟨hx, hys⟩ := List.forall_mem_cons.mp hterm
  have hparts : ∀ {parts : List Contract} {ys : List ℚ}, List.Forall₂ (Next fits t O first now) parts ys →
      (∀ y ∈ ys, Terminating y) → parts.map (amountOf "amount") = ys := by
    intro parts ys h hys
    induction h with
    | nil => rfl
    | cons hnext _ ih =>
        obtain ⟨hy, hys⟩ := List.forall_mem_cons.mp hys
        rw [List.map_cons, hnext.amountOf hy, ih hys]
  rw [List.map_cons, hmade.ofRoot.amountOf hx, hparts hmade.ofParts hys]

theorem Made.amountOfPart {y : ℚ} (hy : y ∈ ys) : ∃ part ∈ parts, Next fits t O first now part y := by
  obtain ⟨i, hi, rfl⟩ := List.mem_iff_getElem.mp hy
  have hlen := hmade.ofParts.length_eq
  exact ⟨parts[i], List.getElem_mem _, (List.forall₂_iff_get.mp hmade.ofParts).2 i (hlen ▸ hi) hi⟩

theorem Made.base : (loadedRoot keys written root).getRevokingItem (some first.id) =
    some (loadedContract true first) := by
  have hid : (loadedContract true first).id = first.id := rfl
  simp [Contract.getRevokingItem, loadedRoot, hmade.revoking, hmade.ofRoot.parent, hid]

/-- The context of the loaded root: the parent is the first contract, and all parts are siblings. -/
theorem Made.context : (loaded keys written root parts).updateContext =
    ⟨some (loadedContract true first), loadedRoot keys written root :: parts.map (loadedPart keys written)⟩ := by
  have hparent : (loadedRoot keys written root).state.parent = some first.id := hmade.ofRoot.parent
  have hsiblings : (parts.map fun c => Item.mk (loadedPart keys written c) []).filter
      (Item.isSibling (loadedRoot keys written root)) =
      parts.map fun c => Item.mk (loadedPart keys written c) [] := by
    refine List.filter_eq_self.mpr fun n hn => ?_
    obtain ⟨part, hpart, rfl⟩ := List.mem_map.mp hn
    obtain ⟨y, -, hy⟩ := hmade.part hpart
    have hpartParent : (loadedPart keys written part).state.parent = some first.id := hy.parent
    simp [Item.isSibling, Item.contract, hpartParent, hparent]
  rw [loaded_eq, Item.updateContext]
  simp only [Item.contract, Item.newItems, hparent, hmade.base, hsiblings, List.map_map]
  rfl

theorem Made.revoked (htokens : ∀ c ∈ first :: others, Token fits t O owner c) :
    ∀ ri ∈ (loadedRoot keys written root).revokingItems, ∃ b, Holds fits t O owner ri b := by
  intro ri hri
  obtain ⟨token, htoken, rfl⟩ := List.mem_map.mp hri
  exact (htokens token (hmade.revoking ▸ htoken)).holds _

variable (keys written) in
/-- The root and the parts hold together what the root revokes. -/
theorem Made.family (hterm : ∀ z ∈ x :: ys, Terminating z)
    (htokens : ∀ c ∈ first :: others, Token fits t O owner c)
    (hids : ((first :: others).map (·.id)).Nodup)
    (hsum : x + ys.sum = ((first :: others).map (amountOf "amount")).sum) :
    Family fits t O owner ⟨some (loadedContract true first),
      loadedRoot keys written root :: parts.map (loadedPart keys written)⟩ := by
  have hrevoking : (loadedRoot keys written root).revokingItems = (first :: others).map fun c =>
      loadedContract (written c || decide (some c.id = root.state.parent)) c := by
    rw [← hmade.revoking]
    rfl
  have hall : SplitJoin.allRevoking (loadedRoot keys written root :: parts.map (loadedPart keys written)) =
      (loadedRoot keys written root).revokingItems := by
    have hparts : (parts.map (loadedPart keys written)).flatMap (·.revokingItems) = [] := by
      refine List.flatMap_eq_nil_iff.mpr fun c hc => ?_
      obtain ⟨part, hpart, rfl⟩ := List.mem_map.mp hc
      exact hmade.noRevoking part hpart
    rw [SplitJoin.allRevoking, List.flatMap_cons, hparts, List.append_nil, List.pwFilter_eq_self, hrevoking,
      List.pairwise_map]
    exact List.pairwise_map.mp hids
  have hamounts : (loadedRoot keys written root :: parts.map (loadedPart keys written)).map (amountOf "amount") =
      x :: ys := by
    rw [← hmade.amounts hterm, List.map_cons, List.map_cons, List.map_map]
    rfl
  refine ⟨List.forall_mem_cons.mpr ⟨?_, fun c hc => ?_⟩, ?_, ?_⟩
  · obtain ⟨o, ho⟩ := (hmade.ofRoot.revised (hterm x List.mem_cons_self) keys (written root) _).holds
    exact ⟨o, x, ho⟩
  · obtain ⟨part, hpart, rfl⟩ := List.mem_map.mp hc
    obtain ⟨y, hy, hnext⟩ := hmade.part hpart
    obtain ⟨o, ho⟩ := (hnext.revised (hterm y (List.mem_cons_of_mem _ hy)) keys (written part)
      part.revokingItems).holds
    exact ⟨o, y, ho⟩
  · rw [hall]
    exact hmade.revoked htokens
  · rw [hall, hrevoking, hamounts, List.sum_cons, hsum, List.map_map]
    rfl

/-- The transaction passes iff it is no older than the first contract and no amount in it is that contract's. -/
theorem Made.checkPermissions_iff (hten : t.PowerOfTen) (hkeys : owner.isAllowedForKeys fits keys = true)
    (htokens : ∀ c ∈ first :: others, Token fits t O owner c)
    (hids : ((first :: others).map (·.id)).Nodup)
    (hsum : x + ys.sum = ((first :: others).map (amountOf "amount")).sum)
    (hallows : ∀ z ∈ x :: ys, t.Allows z) {time : ℤ} (htime : first.state.createdAt = some time) :
    checkPermissions (loaded keys written root parts) = some [] ↔
      time ≤ now ∧ ∀ z ∈ x :: ys, z ≠ amountOf "amount" first := by
  have hterm : ∀ z ∈ x :: ys, Terminating z := fun z hz => hten.terminating (hallows z hz).1
  have hfirst := htokens first List.mem_cons_self
  obtain ⟨a, ha⟩ := hfirst.holds true
  have hamount : amountOf "amount" first = a := ha.amountOf
  have hfamily := hmade.family keys written hterm htokens hids hsum
  have hbyOrigin {c : Contract} (horigin : c.state.origin = some O) :
      c.checkByOrigin (loaded keys written root parts).updateContext = c.checkChangedContract
        ⟨some (loadedContract true first),
          loadedRoot keys written root :: parts.map (loadedPart keys written)⟩ := by
    rw [Contract.checkByOrigin, if_neg (by simp [horigin]), hmade.context]
  have hroot : (loadedRoot keys written root).checkByOrigin (loaded keys written root parts).updateContext =
      some [] ↔ time ≤ now ∧ x ≠ a := by
    have hrevised := hmade.ofRoot.revised (hterm x List.mem_cons_self) keys (written root)
      (loadedRoot keys written root).revokingItems
    have hnew : first.state.branchId ≠ root.state.branchId ∨
        first.roles.owner.tree = root.roles.owner.tree := by
      by_cases hnone : parts = []
      · exact .inr (congrArg Role.tree (hmade.alone hnone))
      · exact .inl (hmade.branches hnone root List.mem_cons_self)
    have hparent : (loadedRoot keys written root).parentIn ⟨some (loadedContract true first),
        loadedRoot keys written root :: parts.map (loadedPart keys written)⟩ =
        some (loadedContract true first) := by
      rw [Contract.parentIn, show (loadedRoot keys written root).state.parent = some first.id from
        hmade.ofRoot.parent, hmade.base]
      exact ite_self _
    rw [hbyOrigin (c := loadedRoot keys written root) hmade.ofRoot.origin]
    exact Tokens.checkChangedContract_iff hfirst hrevised hkeys htime ha hfamily hten
      (hallows x List.mem_cons_self) (hmade.revoked htokens) hnew hparent
  have hpart : ∀ part ∈ parts, ∀ y ∈ ys, Next fits t O first now part y →
      ((loadedPart keys written part).checkByOrigin (loaded keys written root parts).updateContext = some [] ↔
        time ≤ now ∧ y ≠ a) := by
    intro part hin y hy hnext
    have hy' : y ∈ x :: ys := List.mem_cons_of_mem _ hy
    have hrevised := hnext.revised (hterm y hy') keys (written part) part.revokingItems
    have hnone : (loadedPart keys written part).revokingItems = [] := hmade.noRevoking part hin
    have hlong : 1 < (loadedRoot keys written root :: parts.map (loadedPart keys written)).length := by
      rw [List.length_cons, List.length_map]
      have := List.length_pos_of_mem hin
      omega
    rw [hbyOrigin (c := loadedPart keys written part) hnext.origin]
    exact Tokens.checkChangedContract_iff hfirst hrevised hkeys htime ha hfamily hten (hallows y hy')
      (by simp [hmade.noRevoking part hin])
      (.inl (hmade.branches (List.ne_nil_of_mem hin) part (List.mem_cons_of_mem _ hin))) (if_pos hlong)
  rw [checkPermissions, loaded_eq, check_iff, ← loaded_eq, hroot, hamount]
  constructor
  · rintro ⟨⟨hclock, hx⟩, hnews⟩
    refine ⟨hclock, List.forall_mem_cons.mpr ⟨hx, fun y hy => ?_⟩⟩
    obtain ⟨part, hin, hnext⟩ := hmade.amountOfPart hy
    have hcheck := hnews _ (List.mem_map_of_mem hin)
    exact ((hpart part hin y hy hnext).mp (check_iff.mp hcheck).1).2
  · rintro ⟨hclock, hne⟩
    obtain ⟨hx, hys⟩ := List.forall_mem_cons.mp hne
    refine ⟨⟨hclock, hx⟩, fun n hn => ?_⟩
    obtain ⟨part, hin, rfl⟩ := List.mem_map.mp hn
    obtain ⟨y, hy, hnext⟩ := hmade.part hin
    exact check_iff.mpr ⟨(hpart part hin y hy hnext).mpr ⟨hclock, hys y hy⟩, by simp⟩

end Transaction

/-! ### The operations -/

theorem Token.amount (h : Token fits t O owner c) : amount "amount" c = some (amountOf "amount" c) := by
  obtain ⟨a, ha⟩ := h.holds true
  have hread : Contracts.amount "amount" c = some a := ha.amount
  have hsum : Contracts.amountOf "amount" c = a := ha.amountOf
  rw [hread, hsum]

theorem Token.data_eq (h : Token fits t O owner c) :
    Terminating (amountOf "amount" c) ∧ c.state.data = [("amount", .str (toFixed (amountOf "amount" c)))] := by
  obtain ⟨a, ha⟩ := h.holds true
  have hsum : Contracts.amountOf "amount" c = a := ha.amountOf
  rw [hsum]
  exact ⟨ha.terminating, ha.data⟩

/-- The next revision of a token can be split, once. -/
theorem split_next {n : ℕ} (hn : Numbered O first n) (h : Next fits t O first now c x)
    (hbranch : c.state.branchId = first.state.branchId) (count : ℕ) (hcount : 0 < count) :
    split count c = some (setBranchNumber 0 c,
      (List.range count).map fun i => setBranchNumber (i + 1) (copy (setBranchNumber 0 c))) := by
  obtain ⟨⟨r, hr, hne⟩, -⟩ := hn.branch_new
  have hr' : getBranchRevision c.state = some r := by rw [getBranchRevision, hbranch, ← hr, getBranchRevision]
  have hrevision : c.state.revision = .fin (n + 1) := by
    rw [h.revision, hn.revision]
    rfl
  have hnot : ¬ count < 1 := by omega
  rw [split, hr', hrevision]
  simp [hne, hnot]

/-- The creator set or not. -/
def withCreator (andSetCreator : Bool) (c : Contract) : Contract :=
  if andSetCreator then registerCreator (roleLink "creator" "owner" c.roles.owner) c else c

theorem withCreator_state (andSetCreator : Bool) (c : Contract) :
    (withCreator andSetCreator c).state = c.state := by
  cases andSetCreator <;> rfl

theorem Next.withCreator (h : Next fits t O first now c x) (andSetCreator : Bool) :
    Next fits t O first now (Tokens.withCreator andSetCreator c) x := by
  cases andSetCreator with
  | false => exact h
  | true => exact h.registerCreator (ordinary_roleLink _ _ _)

/-- `createSplit` makes a root with the rest and a part. -/
theorem createSplit_made (hfirst : Token fits t O owner first) (idOf : Contract → HashId) (now : ℤ) (amount : ℚ)
    (andSetCreator : Bool) : ∃ root part,
      createSplit fits idOf now "amount" first amount andSetCreator = some (root, [part]) ∧
      Made fits t O first now [first] root [part] (amountOf "amount" first - amount) [amount] := by
  obtain ⟨n, hn⟩ := hfirst.numbered
  obtain ⟨hterm, hdata⟩ := hfirst.data_eq
  have hnext := Next.ofRevision hfirst hn hdata now none
  have hsplit := split_next hn hnext rfl 1 Nat.one_pos
  let revision := setBranchNumber 0 (createRevision fits now none first)
  have hroot : Next fits t O first now revision (amountOf "amount" first) := hnext.setBranchNumber 0
  have hvalue : splitValue "amount" amount (createRevision fits now none first) =
      some (setData "amount" (.str (toFixed (amountOf "amount" first - amount))) revision,
        setData "amount" (.str (toFixed amount)) (setBranchNumber 1 (copy revision))) := by
    rw [splitValue, hsplit]
    simp [show revision.state.data = _ from hdata, revision, bigText_toFixed hterm]
  have hbranch {c : Contract} {x : ℚ} (h : Next fits t O first now c x) (number : ℕ) (y : ℚ) :
      first.state.branchId ≠ (sealContract idOf (withCreator andSetCreator
        (setData "amount" (.str (toFixed y)) (setBranchNumber number c)))).state.branchId := by
    rw [sealContract, withCreator_state]
    exact (setBranchNumber_branchId hn.revision h.revision number).symm ▸ hn.branch_new.2 number
  refine ⟨sealContract idOf (withCreator andSetCreator
      (setData "amount" (.str (toFixed (amountOf "amount" first - amount))) revision)),
    sealContract idOf (withCreator andSetCreator
      (setData "amount" (.str (toFixed amount)) (setBranchNumber 1 (copy revision)))), ?_, ?_⟩
  · rw [createSplit, hvalue]
    rfl
  · exact
      { ofRoot := ((hroot.setData _).withCreator _).sealContract idOf
        ofParts := .cons ((((hroot.copy.setBranchNumber 1).setData _).withCreator _).sealContract idOf) .nil
        revoking := by cases andSetCreator <;> rfl
        noRevoking := by
          simp only [List.forall_mem_singleton]
          cases andSetCreator <;> rfl
        branches := fun _ => List.forall_mem_cons.mpr
          ⟨hbranch hnext 0 _, List.forall_mem_singleton.mpr (hbranch hroot.copy 1 _)⟩
        alone := by simp }

theorem addRevoking_eq {item : Contract} (h : ∀ ri ∈ c.revokingItems, ri.id ≠ item.id) :
    addRevoking c item = { c with revokingItems := c.revokingItems ++ [item] } := by
  rw [addRevoking, if_neg (by simpa using h)]

/-- Contracts of other ids are all added. -/
theorem foldl_addRevoking : ∀ {items : List Contract} {c : Contract},
    ((c.revokingItems ++ items).map (·.id)).Nodup →
    items.foldl addRevoking c = { c with revokingItems := c.revokingItems ++ items }
  | [], c, _ => by
      cases c
      simp
  | item :: items, c, h => by
      have hnew : ∀ ri ∈ c.revokingItems, ri.id ≠ item.id := by
        rw [List.map_append, List.nodup_append] at h
        exact fun ri hri => h.2.2 _ (List.mem_map_of_mem hri) _ (by simp)
      have hrest : (({ c with revokingItems := c.revokingItems ++ [item] } : Contract).revokingItems ++ items).map
          (·.id) |>.Nodup := by
        rwa [List.append_assoc, List.singleton_append]
      rw [List.foldl_cons, addRevoking_eq hnew, foldl_addRevoking hrest]
      simp

/-- `createJoin` makes a root with the sum. -/
theorem createJoin_made {other : Contract} (hfirst : Token fits t O owner first)
    (hother : Token fits t O owner other) (hids : first.id ≠ other.id) (idOf : Contract → HashId)
    (now : ℤ) : ∃ root,
      createJoin fits idOf now "amount" first other = some (root, []) ∧
      Made fits t O first now [first, other] root [] (amountOf "amount" first + amountOf "amount" other) [] := by
  obtain ⟨n, hn⟩ := hfirst.numbered
  have hnext := Next.ofRevision hfirst hn hfirst.data_eq.2 now none
  have hroot := hnext.setData (amountOf "amount" first + amountOf "amount" other)
  refine ⟨_, by rw [createJoin, hfirst.amount, hother.amount]; rfl, ?_⟩
  exact
    { ofRoot := (hroot.addRevoking other).sealContract idOf
      ofParts := .nil
      revoking := by
        rw [sealContract, addRevoking_eq fun ri hri => by rw [List.mem_singleton.mp hri]; exact hids]
        rfl
      noRevoking := by simp
      branches := by simp
      alone := fun _ => by
        rw [sealContract, addRevoking_eq fun ri hri => by rw [List.mem_singleton.mp hri]; exact hids]
        rfl }

theorem mapM_amounts : ∀ {tokens : List Contract}, (∀ c ∈ tokens, Token fits t O owner c) →
    tokens.mapM (amount "amount") = some (tokens.map (amountOf "amount"))
  | [], _ => rfl
  | c :: tokens, h => by
      rw [List.mapM_cons, (h c List.mem_cons_self).amount,
        mapM_amounts fun c' hc' => h c' (List.mem_cons_of_mem _ hc')]
      rfl

/-- A part of `createSplitJoin`: the copy that `split` made, with its amount and owner. -/
def madePart (fits : Packed → String → Bool) (idOf : Contract → HashId) (part : Contract) (p : ℚ × Packed) :
    Contract :=
  sealContract idOf (setData "amount" (.str (toFixed p.1))
    (registerOwner (simpleRole fits "owner" ⟨[], [p.2]⟩) part))

theorem createSplitJoin_run {others : List Contract} {n : ℕ} (hn : Numbered O first n)
    (htokens : ∀ c ∈ first :: others, Token fits t O owner c) (hids : ((first :: others).map (·.id)).Nodup)
    (idOf : Contract → HashId) (now : ℤ) (partsToSplit : List (ℚ × Packed)) (ownerKeys : Option SimpleRole) :
    ∃ contract, Next fits t O first now contract (amountOf "amount" first) ∧
      contract.state.branchId = first.state.branchId ∧ contract.roles.owner = first.roles.owner ∧
      contract.revokingItems = first :: others ∧
      createSplitJoin fits idOf now "amount" (first :: others) partsToSplit ownerKeys =
        (if partsToSplit.isEmpty then some (contract, []) else split partsToSplit.length contract).map fun r =>
          (sealContract idOf (setData "amount" (.str (toFixed
            (((first :: others).map (amountOf "amount")).sum - (partsToSplit.map Prod.fst).sum))) r.1),
            List.zipWith (madePart fits idOf) r.2 partsToSplit) := by
  have hfirst := htokens first List.mem_cons_self
  have hnext := Next.ofRevision hfirst hn hfirst.data_eq.2 now ownerKeys
  have hrevoking : (createRevision fits now ownerKeys first).revokingItems = [first] := by
    cases ownerKeys <;> rfl
  have hfold : others.foldl addRevoking (createRevision fits now ownerKeys first) =
      { createRevision fits now ownerKeys first with revokingItems := first :: others } := by
    rw [foldl_addRevoking (by rw [hrevoking]; exact hids), hrevoking]
    rfl
  refine ⟨others.foldl addRevoking (createRevision fits now ownerKeys first), ?_⟩
  rw [hfold]
  refine ⟨{ hnext with }, by cases ownerKeys <;> rfl, by cases ownerKeys <;> rfl, rfl, ?_⟩
  rw [createSplitJoin]
  simp only [hfold, mapM_amounts htokens, Option.bind_eq_bind, Option.bind_some]
  by_cases hnone : partsToSplit.isEmpty = true
  · rw [if_pos hnone, if_pos hnone]
    rfl
  · rw [if_neg hnone, if_neg hnone]
    exact Option.map_eq_bind.symm

theorem madeParts (idOf : Contract → HashId) : ∀ {copies : List Contract} {partsToSplit : List (ℚ × Packed)},
    copies.length = partsToSplit.length → (∀ c ∈ copies, Next fits t O first now c a) →
    List.Forall₂ (Next fits t O first now) (List.zipWith (madePart fits idOf) copies partsToSplit)
      (partsToSplit.map Prod.fst)
  | [], [], _, _ => .nil
  | c :: copies, p :: partsToSplit, hlen, h => by
      obtain ⟨hc, hcopies⟩ := List.forall_mem_cons.mp h
      exact .cons (((hc.registerOwner ⟨[], [p.2]⟩).setData p.1).sealContract idOf)
        (madeParts idOf (Nat.succ.inj hlen) hcopies)
  | [], _ :: _, hlen, _ => by cases hlen
  | _ :: _, [], hlen, _ => by cases hlen

theorem of_mem_madeParts {idOf : Contract → HashId} {copies : List Contract}
    {partsToSplit : List (ℚ × Packed)} {part : Contract}
    (h : part ∈ List.zipWith (madePart fits idOf) copies partsToSplit) :
    ∃ c ∈ copies, ∃ p, part = madePart fits idOf c p := by
  rw [← List.map_uncurry_zip_eq_zipWith] at h
  obtain ⟨e, he, rfl⟩ := List.mem_map.mp h
  exact ⟨e.1, (List.of_mem_zip he).1, e.2, rfl⟩

/-- `createSplitJoin` makes a root with what the parts leave of the sum. -/
theorem createSplitJoin_made {others : List Contract} (htokens : ∀ c ∈ first :: others, Token fits t O owner c)
    (hids : ((first :: others).map (·.id)).Nodup) (idOf : Contract → HashId) (now : ℤ)
    (partsToSplit : List (ℚ × Packed)) (ownerKeys : Option SimpleRole) : ∃ root parts,
      createSplitJoin fits idOf now "amount" (first :: others) partsToSplit ownerKeys = some (root, parts) ∧
      Made fits t O first now (first :: others) root parts
        (((first :: others).map (amountOf "amount")).sum - (partsToSplit.map Prod.fst).sum)
        (partsToSplit.map Prod.fst) := by
  obtain ⟨n, hn⟩ := (htokens first List.mem_cons_self).numbered
  obtain ⟨contract, hnext, hbranch, howner, hrevoking, hrun⟩ := createSplitJoin_run hn htokens hids idOf now
    partsToSplit ownerKeys
  rcases partsToSplit with _ | ⟨p, rest⟩
  · refine ⟨_, _, hrun, ?_⟩
    exact
      { ofRoot := (hnext.setData _).sealContract idOf
        ofParts := .nil
        revoking := hrevoking
        noRevoking := by simp
        branches := by simp
        alone := fun _ => howner.symm }
  · have hsplit := split_next hn hnext hbranch (p :: rest).length (by simp)
    rw [List.isEmpty_cons, if_neg (by simp), hsplit, Option.map_some] at hrun
    have hcopy (i : ℕ) : Next fits t O first now (setBranchNumber (i + 1) (copy (setBranchNumber 0 contract)))
        (amountOf "amount" first) := ((hnext.setBranchNumber 0).copy).setBranchNumber (i + 1)
    refine ⟨_, _, hrun, ?_⟩
    exact
      { ofRoot := ((hnext.setBranchNumber 0).setData _).sealContract idOf
        ofParts := madeParts idOf (by simp) fun c hc => by
          obtain ⟨i, -, rfl⟩ := List.mem_map.mp hc
          exact hcopy i
        revoking := hrevoking
        noRevoking := fun part hpart => by
          obtain ⟨c, hc, p, rfl⟩ := of_mem_madeParts hpart
          obtain ⟨i, -, rfl⟩ := List.mem_map.mp hc
          rfl
        branches := fun _ => List.forall_mem_cons.mpr ⟨
          (setBranchNumber_branchId hn.revision hnext.revision 0).symm ▸ hn.branch_new.2 0, fun part hpart => by
            obtain ⟨c, hc, p, rfl⟩ := of_mem_madeParts hpart
            obtain ⟨i, -, rfl⟩ := List.mem_map.mp hc
            exact (setBranchNumber_branchId hn.revision (hnext.setBranchNumber 0).copy.revision (i + 1)).symm ▸
              hn.branch_new.2 (i + 1)⟩
        alone := fun hnone => by
          have hlen := congrArg List.length hnone
          simp at hlen }

/-! ### Tokens stay tokens -/

/-- What `createTokenContract` makes is a token, and its own origin. -/
theorem createTokenContract_token (id : HashId) (issuerKeys : KeySet) (otherFields : String → Option Value)
    (ha : Terminating a) :
    Token fits t id owner (createTokenContract fits t owner a id issuerKeys otherFields) where
  apiLevel := rfl
  definition _ := rfl
  issuer := rfl
  owner := rfl
  creator := ordinary_roleLink _ _ _
  transactional := rfl
  numbered := ⟨1, Nat.one_pos, by norm_num, by norm_num [createTokenContract], ⟨rfl, rfl⟩, .inl rfl⟩
  createdAt := ⟨t.createdAt, rfl⟩
  data := ⟨a, ha, rfl⟩
  noRoles := rfl
  noExpiration := rfl
  noReferences := rfl

/-- The next revision of a token is a token, while its number is a safe integer. -/
theorem Next.token (h : Next fits t O first now c x) (hx : Terminating x) {n : ℕ}
    (hn : first.state.revision = .fin n) (hpos : 0 < n) (hsafe : n + 1 < 2 ^ 53) :
    ∃ owner, Token fits t O owner c := by
  obtain ⟨owner, howner, hdefinition⟩ := h.owned
  obtain ⟨m, hm, hbranch⟩ := h.branch
  have hmn : m = n := by
    rw [hn] at hm
    exact_mod_cast (Number.fin.inj hm).symm
  have hrevision : c.state.revision = .fin ((n + 1 : ℕ) : ℚ) := by
    rw [h.revision, hn]
    push_cast
    rfl
  have horigin : if n + 1 = 1 then c.state.origin = none ∧ c.id = O else c.state.origin = some O := by
    rw [if_neg (by omega)]
    exact h.origin
  exact ⟨owner, { h with
    owner := howner
    definition := hdefinition
    numbered := ⟨n + 1, n.succ_pos, hsafe, hrevision, horigin, hmn ▸ hbranch⟩
    createdAt := ⟨now, h.createdAt⟩
    data := ⟨x, hx, h.data⟩ }⟩

/-! ### The headline -/

namespace Operation

/-- The amount that the parts leave of what goes in. -/
def remainder (op : Operation) : ℚ := (op.inputs.map (amountOf "amount")).sum - op.parts.sum

/-- Every operation on tokens makes a root and parts with the amounts asked for. -/
theorem run_made {op : Operation} (idOf : Contract → HashId) (now : ℤ) (hfirst : op.inputs.head? = some first)
    (htokens : ∀ c ∈ op.inputs, Token fits t O owner c) (hids : (op.inputs.map (·.id)).Nodup) :
    ∃ root parts, op.run fits idOf now = some (root, parts) ∧
      Made fits t O first now op.inputs root parts op.remainder op.parts := by
  cases op with
  | split c amount andSetCreator =>
      obtain rfl : c = first := by simpa [inputs] using hfirst
      obtain ⟨root, part, hrun, hmade⟩ := createSplit_made (htokens c (by simp [inputs])) idOf now
        amount andSetCreator
      refine ⟨root, [part], hrun, ?_⟩
      simpa [remainder, inputs, Operation.parts] using hmade
  | join contract1 contract2 =>
      obtain rfl : contract1 = first := by simpa [inputs] using hfirst
      obtain ⟨root, hrun, hmade⟩ := createJoin_made (htokens contract1 (by simp [inputs]))
        (htokens contract2 (by simp [inputs])) (by simpa [inputs] using hids) idOf now
      refine ⟨root, [], hrun, ?_⟩
      simpa [remainder, inputs, Operation.parts] using hmade
  | splitJoin contractsToJoin partsToSplit ownerKeys =>
      cases contractsToJoin with
      | nil => cases hfirst
      | cons c others =>
          obtain rfl : c = first := by simpa [inputs] using hfirst
          exact createSplitJoin_made htokens hids idOf now partsToSplit ownerKeys

end Operation

/-- CODE DEFECT (token operations): the amounts made have the sum of the inputs, and the loaded transaction
    passes its own check iff it is no older than the first contract and no amount in it is the first
    contract's: with an equal amount split_join returns before it takes the branch id away. -/
theorem operation_passes_iff (hten : t.PowerOfTen) {keys : KeySet}
    (hkeys : owner.isAllowedForKeys fits keys = true) {op : Operation}
    (hfirst : op.inputs.head? = some first) (htokens : ∀ c ∈ op.inputs, Token fits t O owner c)
    (hids : (op.inputs.map (·.id)).Nodup) (hallows : ∀ x ∈ op.remainder :: op.parts, t.Allows x)
    (idOf : Contract → HashId) (now : ℤ) (written : Contract → Bool) :
    ∃ root parts, op.run fits idOf now = some (root, parts) ∧
      (root :: parts).map (amountOf "amount") = op.remainder :: op.parts ∧
      ((root :: parts).map (amountOf "amount")).sum = (op.inputs.map (amountOf "amount")).sum ∧
      (checkPermissions (loaded keys written root parts) = some [] ↔
        (∀ time ∈ first.state.createdAt, time ≤ now) ∧
        ∀ x ∈ op.remainder :: op.parts, x ≠ amountOf "amount" first) := by
  obtain ⟨others, hinputs⟩ : ∃ others, op.inputs = first :: others := by
    cases hin : op.inputs with
    | nil =>
        rw [hin] at hfirst
        cases hfirst
    | cons c others =>
        rw [hin] at hfirst
        exact ⟨others, by rw [Option.some.inj hfirst]⟩
  obtain ⟨root, parts, hrun, hmade⟩ := op.run_made idOf now hfirst htokens hids
  have hterm : ∀ z ∈ op.remainder :: op.parts, Terminating z := fun z hz => hten.terminating (hallows z hz).1
  have hsum : op.remainder + op.parts.sum = (op.inputs.map (amountOf "amount")).sum := sub_add_cancel _ _
  rw [hinputs] at hmade hsum htokens hids
  have hamounts := hmade.amounts hterm
  obtain ⟨time, htime⟩ := (htokens first List.mem_cons_self).createdAt
  refine ⟨root, parts, hrun, hamounts, ?_, ?_⟩
  · rw [hamounts, List.sum_cons, hsum, hinputs]
  · rw [hmade.checkPermissions_iff hten hkeys htokens hids hsum hallows htime, htime]
    simp

/-! ### Ten and five -/

/-- A fingerprint is the packed key or address in characters. -/
def packedFits (packed : Packed) (fingerprint : String) : Bool :=
  packed.map (·.toNat) == fingerprint.toList.map Char.toNat

/-- Tokens of hundredths. -/
def hundredths : Terms where
  issuer := ⟨[[73]], []⟩
  minValue := 1 / 100
  currency := "DT"
  name := "Default token name"
  description := "Default token description"
  createdAt := 100
  expiresAt := 1000
  changeOwnerId := "tYq1aO"
  splitJoinId := "mZ0dk3"
  revokeOwnerId := "Qx7pLe"
  revokeIssuerId := "b9HvRc"
  distinctIds := by decide
  randomIds := by decide

/-- The owner of both tokens. -/
def holder : SimpleRole := ⟨[], [[65]]⟩

/-- One of the two branches that the first contract was split into. -/
def branchToken (number : ℕ) (amount : ℚ) : Contract :=
  let c := createTokenContract packedFits hundredths holder amount ⟨[9, number.toUInt8]⟩ [] fun _ => none
  { c with state := { c.state with
      revision := .fin 2, createdAt := some 200, origin := some ⟨[7]⟩, parent := some ⟨[7]⟩
      branchId := .str (branchText 2 number) } }

theorem branchToken_token (number : ℕ) {amount : ℚ} (h : Terminating amount) :
    Token packedFits hundredths ⟨[7]⟩ holder (branchToken number amount) where
  apiLevel := rfl
  definition _ := rfl
  issuer := rfl
  owner := rfl
  creator := ordinary_roleLink _ _ _
  transactional := rfl
  numbered := ⟨2, by norm_num, by norm_num, by norm_num [branchToken], by rw [if_neg (by decide)]; rfl,
    .inr ⟨2, number, by norm_num, le_rfl, rfl⟩⟩
  createdAt := ⟨200, rfl⟩
  data := ⟨amount, h, rfl⟩
  noRoles := rfl
  noExpiration := rfl
  noReferences := rfl

/-- Ten and five joined, and an amount given to another owner. -/
def giveOfTenAndFive (amount : ℚ) : Operation :=
  .splitJoin [branchToken 0 10, branchToken 1 5] [(amount, [66])] none

theorem tenAndFive_tokens (amount : ℚ) :
    ∀ c ∈ (giveOfTenAndFive amount).inputs, Token packedFits hundredths ⟨[7]⟩ holder c := by
  have hten : Terminating 10 := ⟨0, by norm_num⟩
  have hfive : Terminating 5 := ⟨0, by norm_num⟩
  simp only [giveOfTenAndFive, Operation.inputs, List.forall_mem_cons]
  exact ⟨branchToken_token 0 hten, branchToken_token 1 hfive, by simp⟩

theorem branchToken_amount (branch : ℕ) {a : ℚ} (ha : Terminating a) : amountOf "amount" (branchToken branch a) = a := by
  rw [amountOf, amount]
  exact congrArg (Option.getD · 0) (bigDecimal_toFixed ha)

theorem whole_allows {m : ℕ} (hm : 0 < m) : hundredths.Allows m := by
  have hle : (1 : ℚ) ≤ m := by exact_mod_cast hm
  refine ⟨⟨m * 100, by push_cast [hundredths]; ring⟩, ?_⟩
  norm_num [hundredths]
  linarith

theorem tenAndFive_remainder {amount : ℕ} (h : amount < 15) :
    (giveOfTenAndFive amount).remainder = (15 - amount : ℕ) := by
  have hten : amountOf "amount" (branchToken 0 10) = 10 := branchToken_amount 0 ⟨0, by norm_num⟩
  have hfive : amountOf "amount" (branchToken 1 5) = 5 := branchToken_amount 1 ⟨0, by norm_num⟩
  rw [Nat.cast_sub h.le]
  norm_num [Operation.remainder, giveOfTenAndFive, Operation.inputs, Operation.parts, hten, hfive]

theorem tenAndFive_allows (amount : ℕ) (h : 0 < amount) (h' : amount < 15) :
    ∀ x ∈ (giveOfTenAndFive amount).remainder :: (giveOfTenAndFive amount).parts, hundredths.Allows x := by
  rw [tenAndFive_remainder h']
  simp only [giveOfTenAndFive, Operation.parts, List.map_cons, List.map_nil, List.forall_mem_cons]
  exact ⟨whole_allows (by omega), whole_allows h, by simp⟩

/-- Ids of sealed binaries. -/
def sealedId (c : Contract) : HashId := ⟨[8, c.revokingItems.length.toUInt8]⟩

/-- Of ten and five, three can be given. -/
theorem three_given : ∃ root parts, (giveOfTenAndFive 3).run packedFits sealedId 300 = some (root, parts) ∧
    checkPermissions (loaded ["A"] (fun _ => false) root parts) = some [] := by
  have hten : hundredths.PowerOfTen := ⟨-2, by norm_num [hundredths]⟩
  have hkeys : holder.isAllowedForKeys packedFits ["A"] = true := by decide
  have hids : ((giveOfTenAndFive 3).inputs.map (·.id)).Nodup := by decide
  obtain ⟨root, parts, hrun, -, -, hpass⟩ := operation_passes_iff hten hkeys rfl (tenAndFive_tokens 3) hids
    (tenAndFive_allows 3 (by decide) (by decide)) sealedId 300 fun _ => false
  have hother : ∀ x ∈ (giveOfTenAndFive 3).remainder :: (giveOfTenAndFive 3).parts,
      x ≠ amountOf "amount" (branchToken 0 10) := by
    have hremainder : (giveOfTenAndFive 3).remainder = (12 : ℕ) := @tenAndFive_remainder 3 (by decide)
    rw [hremainder, branchToken_amount 0 ⟨0, by norm_num⟩]
    norm_num [giveOfTenAndFive, Operation.parts]
  exact ⟨root, parts, hrun, hpass.mpr ⟨by decide, hother⟩⟩

/-- Five cannot: the ten that are left are the old amount of the first contract. -/
theorem five_not_given : ¬ ∀ op : Operation,
    (∀ c ∈ op.inputs, Token packedFits hundredths ⟨[7]⟩ holder c) → (op.inputs.map (·.id)).Nodup →
    (∀ x ∈ op.remainder :: op.parts, hundredths.Allows x) →
    (∀ c ∈ op.inputs, ∀ time ∈ c.state.createdAt, time ≤ 300) → ∃ r,
    op.run packedFits sealedId 300 = some r ∧
      checkPermissions (loaded ["A"] (fun _ => false) r.1 r.2) = some [] := by
  intro hall
  obtain ⟨r, hrun, hpass⟩ := hall (giveOfTenAndFive 5) (tenAndFive_tokens 5) (by decide)
    (tenAndFive_allows 5 (by decide) (by decide)) (by decide)
  have hcheck : ((giveOfTenAndFive 5).run packedFits sealedId 300).bind (fun r =>
      checkPermissions (loaded ["A"] (fun _ => false) r.1 r.2)) =
      some [⟨.BADSTATE, "", "new state is identical"⟩,
        ⟨.FORBIDDEN, "state.branch_id", "not permitted changes: 2:0 -> 3:0"⟩] := by
    decide +kernel
  rw [hrun, Option.bind_some, hpass] at hcheck
  cases hcheck

end Universa.Contracts.Tokens
