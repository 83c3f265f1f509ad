import Universa.Contracts.TokenOperationsPass

/-! What becomes of a token: from one `createTokenContract`, whatever its owners split and join, with each operation
    on unspent contracts of one owner and accepted by its check. Spent are what an operation revokes, and unspent
    what it makes. -/

namespace Universa.Contracts.Tokens
open Universa.Js

variable {fits : Packed → String → Bool} {t : Terms}

/-- The contracts that are unspent after a number of operations. -/
inductive Reached (fits : Packed → String → Bool) (t : Terms) (start : Contract) : ℕ → List Contract → Prop
  | created : Reached fits t start 0 [start]
  | applied {n : ℕ} {unspent rest parts : List Contract} {root : Contract} (op : Operation) (owner : SimpleRole)
      (keys : KeySet) (idOf : Contract → HashId) (now : ℤ) (written : Contract → Bool)
      (before : Reached fits t start n unspent) (inputs : unspent.Perm (op.inputs ++ rest)) (some_input : op.inputs ≠ [])
      (owned : ∀ c ∈ op.inputs, c.roles.owner = simpleRole fits "owner" owner)
      (distinct : (op.inputs.map (·.id)).Nodup) (allowed : ∀ x ∈ op.remainder :: op.parts, t.Allows x)
      (run : op.run fits idOf now = some (root, parts))
      (accepted : checkPermissions (loaded keys written root parts) = some []) :
      Reached fits t start (n + 1) (root :: parts ++ rest)

theorem keyRecord_injective : Function.Injective keyRecord := by
  intro a b h
  simpa [keyRecord] using h

theorem keyAddress_injective : Function.Injective keyAddress := by
  intro a b h
  simpa [keyAddress] using h

/-- A role tells its keys and addresses. -/
theorem simpleRole_inj {name : String} {a b : SimpleRole} (h : simpleRole fits name a = simpleRole fits name b) :
    a = b := by
  obtain ⟨keys, addresses⟩ := a
  obtain ⟨keys', addresses'⟩ := b
  have htree := congrArg Role.tree h
  simp only [simpleRole, Value.obj.injEq, List.cons.injEq, Prod.mk.injEq, Value.arr.injEq, true_and, and_true,
    keyRecord_injective.list_map.eq_iff, keyAddress_injective.list_map.eq_iff] at htree
  rw [htree.1, htree.2]

/-- An unspent token after `n` operations. -/
structure Unspent (fits : Packed → String → Bool) (t : Terms) (O : HashId) (n : ℕ) (c : Contract) : Prop where
  token : ∃ owner, Token fits t O owner c
  allowed : t.Allows (amountOf "amount" c)
  revision : ∃ k : ℕ, c.state.revision = .fin k ∧ 0 < k ∧ k ≤ n + 1

variable {O : HashId} {n : ℕ} {first root : Contract} {parts unspent rest : List Contract} {owner : SimpleRole}

theorem Unspent.succ {c : Contract} (h : Unspent fits t O n c) : Unspent fits t O (n + 1) c := by
  obtain ⟨k, hk, hpos, hle⟩ := h.revision
  exact ⟨h.token, h.allowed, k, hk, hpos, by omega⟩

/-- What an operation makes of unspent tokens is unspent. -/
theorem Unspent.next {c : Contract} {now : ℤ} {x : ℚ} (hten : t.PowerOfTen) (hfirst : Unspent fits t O n first)
    (hnext : Next fits t O first now c x) (hx : t.Allows x) (hn : n + 2 < 2 ^ 53) :
    Unspent fits t O (n + 1) c := by
  obtain ⟨k, hk, hpos, hle⟩ := hfirst.revision
  have hterm := hten.terminating hx.1
  refine ⟨hnext.token hterm hk hpos (by omega), ?_, k + 1, ?_, k.succ_pos, by omega⟩
  · rwa [hnext.amountOf hterm]
  · rw [hnext.revision, hk]
    push_cast
    rfl

/-- The inputs of an operation are tokens of the owner that they name. -/
theorem Unspent.ofOwner {c : Contract} (h : Unspent fits t O n c)
    (howner : c.roles.owner = simpleRole fits "owner" owner) : Token fits t O owner c := by
  obtain ⟨owner', htoken⟩ := h.token
  obtain rfl := simpleRole_inj (htoken.owner.symm.trans howner)
  exact htoken

/-- A step of the history: the amounts made are those that were spent. -/
theorem Unspent.applied {op : Operation} {idOf : Contract → HashId} {now : ℤ} (hten : t.PowerOfTen)
    (hsome : op.inputs ≠ []) (hinputs : ∀ c ∈ op.inputs, Unspent fits t O n c)
    (howned : ∀ c ∈ op.inputs, c.roles.owner = simpleRole fits "owner" owner)
    (hids : (op.inputs.map (·.id)).Nodup) (hallows : ∀ x ∈ op.remainder :: op.parts, t.Allows x)
    (hrun : op.run fits idOf now = some (root, parts)) (hn : n + 2 < 2 ^ 53) :
    (∀ c ∈ root :: parts, Unspent fits t O (n + 1) c) ∧
      ((root :: parts).map (amountOf "amount")).sum = (op.inputs.map (amountOf "amount")).sum := by
  obtain ⟨first, others, hfirst⟩ := List.exists_cons_of_ne_nil hsome
  have hhead : op.inputs.head? = some first := by rw [hfirst]; rfl
  have hin : first ∈ op.inputs := by rw [hfirst]; exact List.mem_cons_self
  have htokens : ∀ c ∈ op.inputs, Token fits t O owner c := fun c hc => (hinputs c hc).ofOwner (howned c hc)
  obtain ⟨root', parts', hrun', hmade⟩ := op.run_made idOf now hhead htokens hids
  cases hrun.symm.trans hrun'
  rw [hfirst] at hmade
  have hterm : ∀ z ∈ op.remainder :: op.parts, Terminating z := fun z hz => hten.terminating (hallows z hz).1
  constructor
  · intro c hc
    rcases List.mem_cons.mp hc with rfl | hc
    · exact (hinputs first hin).next hten hmade.ofRoot (hallows _ List.mem_cons_self) hn
    · obtain ⟨y, hy, hnext⟩ := hmade.part hc
      exact (hinputs first hin).next hten hnext (hallows y (List.mem_cons_of_mem _ hy)) hn
  · rw [hmade.amounts hterm, List.sum_cons]
    exact sub_add_cancel _ _

theorem createTokenContract_unspent (fits : Packed → String → Bool) {a : ℚ} (hten : t.PowerOfTen)
    (ha : t.Allows a) (owner : SimpleRole) (id : HashId) (issuerKeys : KeySet) (otherFields : String → Option Value) :
    Unspent fits t id 0 (createTokenContract fits t owner a id issuerKeys otherFields) ∧
      amountOf "amount" (createTokenContract fits t owner a id issuerKeys otherFields) = a := by
  have hterm := hten.terminating ha.1
  have htoken : Token fits t id owner (createTokenContract fits t owner a id issuerKeys otherFields) :=
    createTokenContract_token id issuerKeys otherFields hterm
  have hamount : amountOf "amount" (createTokenContract fits t owner a id issuerKeys otherFields) = a := by
    rw [amountOf, amount]
    exact congrArg (Option.getD · 0) (bigDecimal_toFixed hterm)
  exact ⟨⟨⟨owner, htoken⟩, hamount.symm ▸ ha, 1, by norm_num [createTokenContract], Nat.one_pos, le_rfl⟩, hamount⟩

/-- NOTHING GAINED OR LOST (histories): whatever owners split and join, the unspent contracts of a token have the
    amount it was created with, each a token of the same terms and of an amount that these allow. -/
theorem total_kept {a : ℚ} {id : HashId} {issuerKeys : KeySet} {otherFields : String → Option Value}
    (hten : t.PowerOfTen) (ha : t.Allows a)
    (h : Reached fits t (createTokenContract fits t owner a id issuerKeys otherFields) n unspent)
    (hn : n + 1 < 2 ^ 53) :
    (unspent.map (amountOf "amount")).sum = a ∧ ∀ c ∈ unspent, Unspent fits t id n c := by
  have hstart := createTokenContract_unspent fits hten ha owner id issuerKeys otherFields
  induction h with
  | created =>
      obtain ⟨hunspent, hamount⟩ := hstart
      constructor
      · rw [List.map_singleton, List.sum_singleton, hamount]
      · intro c hc
        obtain rfl := List.mem_singleton.mp hc
        exact hunspent
  | applied op owner keys idOf now written _ hin hsome howned hids hallows hrun _ ih =>
      obtain ⟨hsum, hall⟩ := ih (by omega)
      have hinputs : ∀ c ∈ op.inputs, _ := fun c hc => hall c (hin.mem_iff.mpr (List.mem_append_left _ hc))
      obtain ⟨hmade, hamounts⟩ := Unspent.applied hten hsome hinputs howned hids hallows hrun hn
      constructor
      · rw [List.map_append, List.sum_append, hamounts, ← List.sum_append, ← List.map_append, ← hsum]
        exact (hin.map _).sum_eq.symm
      · intro c hc
        rcases List.mem_append.mp hc with hc | hc
        · exact hmade c hc
        · exact (hall c (hin.mem_iff.mpr (List.mem_append_right _ hc))).succ

/-- A new token of ten. -/
def newToken : Contract := createTokenContract packedFits hundredths holder 10 ⟨[7]⟩ [] fun _ => none

theorem newToken_split : ∃ root parts, Reached packedFits hundredths newToken 1 (root :: parts ++ []) := by
  have hten : hundredths.PowerOfTen := ⟨-2, by norm_num [hundredths]⟩
  obtain ⟨hunspent, hamount⟩ : Unspent packedFits hundredths ⟨[7]⟩ 0 newToken ∧ amountOf "amount" newToken = 10 :=
    createTokenContract_unspent packedFits hten (whole_allows (m := 10) (by decide)) holder ⟨[7]⟩ [] fun _ => none
  have htoken : ∀ c ∈ [newToken], Token packedFits hundredths ⟨[7]⟩ holder c := by
    intro c hc
    obtain rfl := List.mem_singleton.mp hc
    exact hunspent.ofOwner rfl
  let op : Operation := .split newToken 3 false
  have hremainder : op.remainder = (7 : ℕ) := by
    show ([amountOf "amount" newToken].sum - [3].sum : ℚ) = _
    rw [List.sum_singleton, show amountOf "amount" newToken = 10 from hamount]
    norm_num
  have hallows : ∀ x ∈ op.remainder :: op.parts, hundredths.Allows x := by
    rw [hremainder]
    intro x hx
    rcases List.mem_cons.mp hx with rfl | hx
    · exact whole_allows (by decide)
    · obtain rfl := List.mem_singleton.mp hx
      exact whole_allows (m := 3) (by decide)
  obtain ⟨root, parts, hrun, hmade⟩ := op.run_made sealedId 300 (show op.inputs.head? = some newToken from rfl) htoken (by decide)
  have haccepted : checkPermissions (loaded ["A"] (fun _ => false) root parts) = some [] := by
    refine (hmade.checkPermissions_iff hten (by decide) htoken (by decide) ?_ hallows rfl).mpr ⟨by decide, ?_⟩
    · exact sub_add_cancel _ _
    · rw [hremainder, show amountOf "amount" newToken = 10 from hamount]
      intro z hz
      rcases List.mem_cons.mp hz with rfl | hz
      · norm_num
      · obtain rfl := List.mem_singleton.mp hz
        norm_num
  refine ⟨root, parts, .applied op holder ["A"] sealedId 300 (fun _ => false) .created (.refl _) (List.cons_ne_nil _ _)
    ?_ (by decide) hallows hrun haccepted⟩
  intro c hc
  obtain rfl := List.mem_singleton.mp hc
  rfl

theorem total_kept_split : ∃ unspent : List Contract, Reached packedFits hundredths newToken 1 unspent ∧
    (unspent.map (amountOf "amount")).sum = 10 ∧ ∀ c ∈ unspent, Unspent packedFits hundredths ⟨[7]⟩ 1 c := by
  obtain ⟨root, parts, hreached⟩ := newToken_split
  exact ⟨_, hreached, total_kept ⟨-2, by norm_num [hundredths]⟩ (whole_allows (m := 10) (by decide)) hreached
    (by decide)⟩

end Universa.Contracts.Tokens
