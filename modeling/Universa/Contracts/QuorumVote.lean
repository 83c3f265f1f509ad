import Universa.Contracts.Roles

/-! `QuorumVoteRole` of `roles.js`: a role that is allowed when enough of the addresses on a voting list are
    matched by the keys. The list is a field of the role's own contract or of the contracts that match a
    constraint; how many is enough is an expression over `N`, numbers, percentages and fields.

    Above the code stands what the role is for: the addresses the list names, the value of the
    expression for a list of that length, and the number of addresses that some key matches. -/

namespace Universa.Contracts
open Universa.Js

/-! ### Numbers in a text -/

namespace QuorumVote

/-- `parseInt(s)` for a text without a sign. -/
def parseInt (s : List Char) : Number :=
  match s.dropWhile isSpace with
  | '0' :: 'x' :: cs | '0' :: 'X' :: cs => baseLiteral 16 (cs.takeWhile fun c => (baseDigit 16 c).isSome)
  | cs => baseLiteral 10 (cs.takeWhile fun c => (baseDigit 10 c).isSome)

/-- `parseFloat(s)` for a text without a sign: the longest decimal literal it begins with. -/
def parseFloat (s : List Char) : Number :=
  let cs := s.dropWhile isSpace
  if "Infinity".toList.isPrefixOf cs then .posInf else
  match cs.inits.reverse.findSome? decimalLiteral with
  | some q => .ofRat q
  | none => .nan

/-- The double of a product with a positive number. -/
def scale (k : ℚ) : Number → Number
  | .fin q => .ofRat (k * q)
  | n => n

/-- `Math.floor(n)`. -/
def floor : Number → Number
  | .fin q => .fin ⌊q⌋
  | n => n

/-- `n--`. A list is far shorter than `2 ^ 53`, so the steps that lead to zero are exact. -/
def pred (n : Number) : Number := n.sub (.fin 1)

end QuorumVote
open QuorumVote

/-! ### The role -/

/-- `QuorumOperators`. -/
inductive QuorumOperator where
  | OPERATOR_ADD
  | OPERATOR_SUBTRACT

/-- `operatorSymbols`. -/
def operatorSymbol : Char → Option QuorumOperator
  | '+' => some .OPERATOR_ADD
  | '-' => some .OPERATOR_SUBTRACT
  | _ => none

/-- The loop of `extractValuesAndOperators` with the value since the last operator: the first value, and
    each operator with the value after it. -/
def extractFrom (value : List Char) :
    List Char → Except Unit (List Char × List (QuorumOperator × List Char))
  | [] => if value = [] then .error () else .ok (value, [])
  | c :: cs =>
      match operatorSymbol c with
      | some op =>
          if value = [] then .error ()
          else (extractFrom [] cs).map fun (next, rest) => (value, (op, next) :: rest)
      | none => extractFrom (value ++ [c]) cs

/-- A role with its contract; `self` is the role among those of the contract. Its values and operators are those of
    its quorum where the constructor or `deserialize` made it; `initWithDsl` leaves them empty. -/
structure QuorumVoteRole (R : Type) where
  self : R
  source : List Char
  quorum : List Char
  values : Option (List Char × List (QuorumOperator × List Char))
  extracted : ∀ v ∈ values, extractFrom [] quorum = .ok v

/-- The number in a value of the quorum, for so many votes. -/
def quorumNumber (totalVotesCount : ℕ) (valueString : List Char) : Number :=
  if valueString = ['N'] then .fin totalVotesCount
  else if valueString.getLast? = some '%' then
    floor (scale (1 / 100) (scale totalVotesCount (parseFloat valueString.dropLast)))
  else parseInt valueString

/-- `curValue` for a value of the quorum. `parseInt` and `parseFloat` throw for no text, so the `catch` that
    reads a field is not entered. -/
def curValue (totalVotesCount : ℕ) (valueString : List Char) : Except Unit Number :=
  if valueString.getLast? = some '%' ∧ totalVotesCount = 0 then .error ()
  else .ok (quorumNumber totalVotesCount valueString)

/-- `calculateMinValidCount(totalVotesCount)`; `quorumOperators.get` is no method of an array. -/
def QuorumVoteRole.calculateMinValidCount {R : Type} (role : QuorumVoteRole R) (totalVotesCount : ℕ) :
    Except Unit Number :=
  match role.values with
  | none => .ok (.fin 0)
  | some (firstValue, []) => curValue totalVotesCount firstValue
  | some (firstValue, (_, next) :: _) => do
      let _ ← curValue totalVotesCount firstValue
      let _ ← curValue totalVotesCount next
      .error ()

/-- An element of an array that a voting list is read from. -/
inductive VoteItem (A R : Type) where
  | role (r : R)
  | keyAddress (a : A)
  | publicKey
  | text (s : String)
  | stringObject (s : String) -- made by `new String(s)`
  | other

/-- What `contract.get` answers; anything but a role or an array counts by its `toString()`, which
    may throw. -/
inductive VoteField (A R : Type) where
  | role (r : R)
  | array (items : List (VoteItem A R))
  | other (text : Option String)

/-- The contracts `C` a role can see: their roles and fields, the role's own contract, the contracts matching
    each of its constraints, and `new KeyAddress(s)` for a text. -/
structure VoteScene (K A R C : Type) where
  roles : C → RoleGraph K A R
  get : C → List Char → VoteField A R
  keyAddress : String → Option A
  contract : C
  constraints : List Char → Option (List C)

/-- Keys as they are handed over: a collection, or an iterator that one reading uses up. -/
inductive VoteKeys (K : Type) where
  | collection (keys : List K)
  | iterator (keys : List K)

namespace VoteKeys
variable {K : Type}

/-- `Array.from(keys)`. -/
def toArray : VoteKeys K → List K
  | .collection keys | .iterator keys => keys

/-- What a later reading finds. -/
def after : VoteKeys K → VoteKeys K
  | .collection keys => .collection keys
  | .iterator _ => .iterator []

end VoteKeys

namespace VoteScene
variable {K A R C : Type} (scene : VoteScene K A R C)

/-! ### The code -/

/-- `source` at its first point. -/
def fromOf (source : List Char) : List Char :=
  if '.' ∈ source then source.takeWhile (· ≠ '.') else []

/-- `source` behind its first point. -/
def whatOf (source : List Char) : List Char :=
  if '.' ∈ source then (source.dropWhile (· ≠ '.')).tail else source

/-- `resolve(false)` of a link, any other role itself. -/
def resolved (c : C) (r : R) : RoleGraph.Target R :=
  match ((scene.roles c).role r).kind with
  | .link _ => (scene.roles c).resolve false r
  | _ => .role r

/-- `o.roles` where the field is a list role. -/
def listedRoles (c : C) (r : R) : Option (List R) :=
  match scene.resolved c r with
  | .role r' => match ((scene.roles c).role r').kind with
    | .list _ roles => some roles
    | _ => none
  | _ => none

/-- `let ka = null; if (ka == null) throw …`: no role gives its address. -/
def addressOfRole (_ : R) : Except Unit (List A) := .error ()

/-- What an array element adds to the addresses. A primitive text is no `instanceof String`, and `new KeyAddress` takes
    no other texts. -/
def addressesOfItem : VoteItem A R → Except Unit (List A)
  | .role r => addressOfRole r
  | .keyAddress a => .ok [a]
  | .publicKey | .stringObject _ => .error ()
  | .text _ | .other => .ok []

/-- The addresses of all elements, in order. -/
def collect {X : Type} (addresses : X → Except Unit (List A)) : List X → Except Unit (List A)
  | [] => .ok []
  | x :: xs =>
      match addresses x with
      | .error e => .error e
      | .ok as => (collect addresses xs).map (as ++ ·)

/-- The addresses of one contract. -/
def addressesOfContract (what : List Char) (c : C) : Except Unit (List A) :=
  match scene.get c what with
  | .role r =>
      match scene.listedRoles c r with
      | some roles => collect addressOfRole roles
      | none => .error ()
  | .array items => collect addressesOfItem items
  | .other _ => .error ()

/-- `fromContracts`; `fromContracts.push = this.contract` adds nothing to it. -/
def fromContracts (source : List Char) : Option (List C) :=
  if fromOf source = "this".toList then some [] else scene.constraints (fromOf source)

/-- `getVotingAddresses()`. -/
def getVotingAddresses (source : List Char) : Except Unit (List A) :=
  match scene.fromContracts source with
  | none => .error ()
  | some cs => collect (scene.addressesOfContract (whatOf source)) cs

/-- `Array.from(keys).some(k => va.match(k))`. -/
def matchedBy (keys : List K) (va : A) : Bool := keys.any ((scene.roles scene.contract).isMatch va)

/-- The loop over the voting addresses. -/
def countDown : List A → VoteKeys K → Number → Bool
  | [], _, minValidCount => minValidCount.eq (.fin 0)
  | va :: vas, keys, minValidCount =>
      let left := if scene.matchedBy keys.toArray va then pred minValidCount else minValidCount
      if left.eq (.fin 0) then true else countDown vas keys.after left

/-- `isAllowedForKeys(keys)` of a role with that `votesCount`. -/
def isAllowedForKeys [DecidableEq K] (role : QuorumVoteRole R) (votesCount : Option ℕ) (keys : VoteKeys K) :
    Except Unit Bool :=
  if !(scene.roles scene.contract).isAllowedForConstraints role.self then .ok false
  else match scene.getVotingAddresses role.source with
    | .error _ => .ok false
    | .ok votingAddresses => do
        let minValidCount ← role.calculateMinValidCount votingAddresses.length
        match votesCount with
        | some n => return minValidCount.le (.fin n)
        | none => return scene.countDown votingAddresses keys minValidCount

/-! ### What the role is for -/

/-- The address of a simple role that is a single address and requires no constraints. -/
def simpleAddress (c : C) (r : R) : Option A :=
  match (scene.roles c).unconstrained r, ((scene.roles c).role r).kind with
  | true, .simple [] [a] => some a
  | _, _ => none

/-- The address an array element names. -/
def namedByItem (c : C) : VoteItem A R → Option A
  | .role r => scene.simpleAddress c r
  | .keyAddress a => some a
  | .text s | .stringObject s => scene.keyAddress s
  | .publicKey | .other => none

/-- The addresses the field of one contract names. -/
def namedByContract (what : List Char) (c : C) : Option (List A) :=
  match scene.get c what with
  | .role r => (scene.listedRoles c r).bind fun roles => roles.mapM (scene.simpleAddress c)
  | .array items => items.mapM (scene.namedByItem c)
  | .other _ => none

/-- The contracts a path leads to: this one, or those matching a constraint. -/
def contractsAt (path : List Char) : Option (List C) :=
  if fromOf path = "this".toList then some [scene.contract] else scene.constraints (fromOf path)

/-- The voting list of a source, where it is one. -/
def votingList (source : List Char) : Option (List A) := do
  let cs ← scene.contractsAt source
  let lists ← cs.mapM (scene.namedByContract (whatOf source))
  return lists.flatten

/-- The number in the field of a contract. -/
def fieldNumber (c : C) (what : List Char) : Option ℚ :=
  match scene.get c what with
  | .other (some t) => bigText t
  | _ => none

/-- The number in a referenced field; a name alone is one of the own state data. -/
def referenced (path : List Char) : Option ℚ :=
  if '.' ∈ path then
    match scene.contractsAt path with
    | some [c] => scene.fieldNumber c (whatOf path)
    | _ => none
  else scene.fieldNumber scene.contract ("state.data.".toList ++ path)

/-- A number, or else the one in a field. -/
def amount (s : List Char) : Option ℚ :=
  match bigText (String.ofList s) with
  | some q => some q
  | none => scene.referenced s

/-- The value of a term for `n` votes; a percentage is of the votes, rounded down. -/
def termValue (n : ℕ) (s : List Char) : Option ℚ :=
  if s = ['N'] then some n
  else if s.getLast? = some '%' then
    if n = 0 then none else (scene.amount s.dropLast).map fun p => ((⌊(n : ℚ) * p / 100⌋ : ℤ) : ℚ)
  else scene.amount s

/-- The terms after the first, taken from left to right. -/
def valueFrom (n : ℕ) (value : ℚ) : List (QuorumOperator × List Char) → Option ℚ
  | [] => some value
  | (.OPERATOR_ADD, s) :: rest => (scene.termValue n s).bind fun v => valueFrom n (value + v) rest
  | (.OPERATOR_SUBTRACT, s) :: rest => (scene.termValue n s).bind fun v => valueFrom n (value - v) rest

/-- The value of the quorum for `n` votes. -/
def quorumValue (role : QuorumVoteRole R) (n : ℕ) : Option ℚ := do
  let (firstValue, operators) ← (extractFrom [] role.quorum).toOption
  scene.valueFrom n (← scene.termValue n firstValue) operators

/-- The number of addresses that some key matches. -/
def matched (keys : VoteKeys K) (list : List A) : ℕ := list.countP (scene.matchedBy keys.toArray)

/-- The role is allowed just when its constraints hold and enough addresses of the list are matched, counted
    here or beforehand. -/
def CountsVotes [DecidableEq K] (role : QuorumVoteRole R) (keys : VoteKeys K) : Prop :=
  ∀ list quorum, scene.votingList role.source = some list →
      scene.quorumValue role list.length = some quorum →
    let allowed := (scene.roles scene.contract).isAllowedForConstraints role.self &&
      decide (quorum ≤ scene.matched keys list)
    scene.isAllowedForKeys role none keys = .ok allowed ∧
      scene.isAllowedForKeys role (some (scene.matched keys list)) keys = .ok allowed

/-! ### What the code sees of the list -/

/-- The address an element is, without reading a text. -/
def givenByItem : VoteItem A R → Option A
  | .keyAddress a => some a
  | _ => none

/-- The addresses that the field of a contract has as address objects. -/
def givenByContract (what : List Char) (c : C) : List A :=
  match scene.get c what with
  | .array items => items.filterMap givenByItem
  | _ => []

/-- The addresses seen: of the contracts matching a constraint, none of the role's own contract. -/
def seen (source : List Char) : List A :=
  ((scene.fromContracts source).getD []).flatMap (scene.givenByContract (whatOf source))

/-- The element is a role, or a text that is an object. -/
def Refused : VoteItem A R → Prop
  | .role _ | .stringObject _ => True
  | .keyAddress _ | .publicKey | .text _ | .other => False

/-- The field of a contract lists a role or a text that is an object. -/
def ListsRefused (what : List Char) (c : C) : Prop :=
  match scene.get c what with
  | .role r => scene.listedRoles c r ≠ some []
  | .array items => ∃ item ∈ items, Refused item
  | .other _ => False

/-- A contract matching the constraint of the source lists a role or a text that is an object. -/
def SeesRefused (source : List Char) : Prop :=
  ∃ c ∈ (scene.fromContracts source).getD [], scene.ListsRefused (whatOf source) c

/-- The addresses found matched: an iterator has keys for the first one only. -/
def counted (keys : VoteKeys K) (list : List A) : ℕ :=
  match keys with
  | .collection _ => scene.matched keys list
  | .iterator _ => scene.matched keys (list.take 1)

/-! ### Reading the list -/

section Collect
variable {X : Type} {addresses : X → Except Unit (List A)}

theorem collect_ok {given : X → List A} :
    ∀ {xs : List X}, (∀ x ∈ xs, addresses x = .ok (given x)) →
      collect addresses xs = .ok (xs.flatMap given)
  | [], _ => rfl
  | x :: xs, h => by
    have ih := collect_ok (fun y hy => h y (List.mem_cons_of_mem x hy))
    simp only [collect, h x List.mem_cons_self, ih, Except.map, List.flatMap_cons]

theorem collect_error {x : X} {e : Unit} :
    ∀ {xs : List X}, x ∈ xs → addresses x = .error e → ∃ e, collect addresses xs = .error e
  | y :: ys, hx, h => by
    rw [collect]
    cases hy : addresses y with
    | error e' => exact ⟨e', rfl⟩
    | ok as =>
      have hne : x ≠ y := by
        rintro rfl
        rw [hy] at h
        cases h
      obtain ⟨e', he⟩ := collect_error (List.mem_of_ne_of_mem hne hx) h
      exact ⟨e', by rw [he]; rfl⟩

theorem named_of_mapM {Y : Type} {f : X → Option Y} {x : X} :
    ∀ {xs : List X} {ys : List Y}, xs.mapM f = some ys → x ∈ xs → ∃ y, f x = some y
  | z :: zs, ys, h, hx => by
    rw [List.mapM_cons] at h
    obtain ⟨y, hy, h⟩ := Option.bind_eq_some_iff.mp h
    obtain ⟨ys', hys, -⟩ := Option.bind_eq_some_iff.mp h
    rcases List.mem_cons.mp hx with rfl | hx
    · exact ⟨y, hy⟩
    · exact named_of_mapM hys hx

end Collect

theorem addressesOfItem_of_named {c : C} {item : VoteItem A R} {a : A}
    (h : scene.namedByItem c item = some a) (hno : ¬ Refused item) :
    addressesOfItem item = .ok (givenByItem item).toList := by
  cases item with
  | role r => exact absurd trivial hno
  | stringObject t => exact absurd trivial hno
  | publicKey => cases h
  | keyAddress b | text t | other => rfl

omit scene in
theorem addressesOfItem_of_refused {item : VoteItem A R} (h : Refused item) :
    (addressesOfItem item : Except Unit (List A)) = .error () := by
  cases item with
  | role r | stringObject t => rfl
  | keyAddress | publicKey | text | other => exact absurd h nofun

/-- Where a contract names addresses, the code reads those it is given, unless one that it refuses is listed. -/
theorem addressesOfContract_of_named {what : List Char} {c : C} {list : List A}
    (h : scene.namedByContract what c = some list) :
    (scene.ListsRefused what c → ∃ e, scene.addressesOfContract what c = .error e) ∧
      (¬ scene.ListsRefused what c →
        scene.addressesOfContract what c = .ok (scene.givenByContract what c)) := by
  cases hf : scene.get c what with
  | other t => simp [namedByContract, hf] at h
  | role r =>
    simp only [namedByContract, hf, Option.bind_eq_some_iff] at h
    obtain ⟨roles, hr, -⟩ := h
    simp only [addressesOfContract, ListsRefused, givenByContract, hf, hr]
    cases roles with
    | nil => simp [collect]
    | cons r rs => simp [collect, addressOfRole]
  | array items =>
    simp only [namedByContract, hf] at h
    simp only [addressesOfContract, ListsRefused, givenByContract, hf]
    refine ⟨?_, fun hno => ?_⟩
    · rintro ⟨item, hitem, hrefused⟩
      exact collect_error hitem (addressesOfItem_of_refused hrefused)
    · rw [List.filterMap_eq_flatMap_toList]
      refine collect_ok fun item hitem => ?_
      obtain ⟨a, ha⟩ := named_of_mapM h hitem
      exact scene.addressesOfItem_of_named ha fun hrefused => hno ⟨item, hitem, hrefused⟩

/-- Where the source is a voting list, one that is refused makes the code throw, and else it has what it sees. -/
theorem getVotingAddresses_of_list {source : List Char} {list : List A}
    (h : scene.votingList source = some list) :
    (scene.SeesRefused source → ∃ e, scene.getVotingAddresses source = .error e) ∧
      (¬ scene.SeesRefused source → scene.getVotingAddresses source = .ok (scene.seen source)) := by
  obtain ⟨cs, hcs, hnamed⟩ : ∃ cs, scene.fromContracts source = some cs ∧
      ∀ c ∈ cs, ∃ as, scene.namedByContract (whatOf source) c = some as := by
    obtain ⟨cs, hcs, h⟩ := Option.bind_eq_some_iff.mp h
    obtain ⟨lists, hl, -⟩ := Option.bind_eq_some_iff.mp h
    by_cases hthis : fromOf source = "this".toList
    · exact ⟨[], by rw [fromContracts, if_pos hthis], by simp⟩
    · rw [contractsAt, if_neg hthis] at hcs
      exact ⟨cs, by rw [fromContracts, if_neg hthis, hcs], fun c hc => named_of_mapM hl hc⟩
  simp only [getVotingAddresses, SeesRefused, seen, hcs, Option.getD_some]
  refine ⟨?_, fun hno => ?_⟩
  · rintro ⟨c, hc, hrole⟩
    obtain ⟨as, has⟩ := hnamed c hc
    obtain ⟨e, he⟩ := (scene.addressesOfContract_of_named has).1 hrole
    exact collect_error hc he
  · refine collect_ok fun c hc => ?_
    obtain ⟨as, has⟩ := hnamed c hc
    exact (scene.addressesOfContract_of_named has).2 fun hrole => hno ⟨c, hc, hrole⟩

/-! ### Counting -/

@[simp] theorem counted_nil (keys : VoteKeys K) : scene.counted keys [] = 0 := by
  cases keys <;> rfl

/-- The first address is matched by the keys as given, the others by what is left of them. -/
theorem counted_cons (keys : VoteKeys K) (va : A) (vas : List A) :
    scene.counted keys (va :: vas) =
      (if scene.matchedBy keys.toArray va then 1 else 0) + scene.counted keys.after vas := by
  cases keys with
  | collection ks => simp only [counted, matched, VoteKeys.after, List.countP_cons, Nat.add_comm]
  | iterator ks =>
    have hnone : ∀ list : List A, list.countP (scene.matchedBy ([] : List K)) = 0 := by
      intro list
      simp [List.countP_eq_zero, matchedBy]
    simp only [counted, matched, VoteKeys.after, VoteKeys.toArray, List.take_succ_cons, List.take_zero,
      List.countP_singleton, hnone, Nat.add_zero]
    rfl

/-- Counting down from `n` ends at zero: at once when the first address leaves zero alone, or after `n` of
    the addresses found matched. -/
def EndsAtZero (keys : VoteKeys K) (list : List A) (n : Number) : Prop :=
  (n = .fin 0 ∧ ∀ va ∈ list.head?, scene.matchedBy keys.toArray va = false) ∨
    ∃ k : ℕ, 0 < k ∧ n = .fin k ∧ k ≤ scene.counted keys list

theorem countDown_iff : ∀ (list : List A) (keys : VoteKeys K) (n : Number),
    scene.countDown list keys n = true ↔ scene.EndsAtZero keys list n
  | [], keys, n => by
    cases n <;> simp [countDown, EndsAtZero, Number.eq]
  | va :: vas, keys, .nan => by
    simp [countDown, EndsAtZero, pred, Number.sub, Number.eq, countDown_iff vas]
  | va :: vas, keys, .posInf => by
    simp [countDown, EndsAtZero, pred, Number.sub, Number.eq, countDown_iff vas]
  | va :: vas, keys, .negInf => by
    simp [countDown, EndsAtZero, pred, Number.sub, Number.eq, countDown_iff vas]
  | va :: vas, keys, .fin q => by
    have ih := countDown_iff vas keys.after
    simp only [countDown, EndsAtZero, counted_cons, List.head?_cons, Option.mem_def, Option.some.injEq,
      forall_eq', Number.fin.injEq] at ih ⊢
    cases scene.matchedBy keys.toArray va with
    | true =>
      by_cases h1 : q = 1
      · subst h1
        simp only [pred, Number.sub, Number.eq, sub_self, decide_true, if_true, true_iff]
        exact .inr ⟨1, one_pos, by simp, Nat.le_add_right 1 _⟩
      · have h0 : q - 1 ≠ 0 := sub_ne_zero.mpr h1
        simp only [if_true, pred, Number.sub, Number.eq, h0, decide_false, Bool.false_eq_true, if_false, ih,
          Number.fin.injEq, false_and, false_or, reduceCtorEq, and_false]
        constructor
        · rintro ⟨k, -, hk, hle⟩
          exact ⟨k + 1, k.succ_pos, by push_cast; linarith, by omega⟩
        · rintro ⟨k, hpos, rfl, hle⟩
          have hk : k ≠ 1 := by
            rintro rfl
            exact h1 Nat.cast_one
          exact ⟨k - 1, by omega, by rw [Nat.cast_sub hpos, Nat.cast_one], by omega⟩
    | false =>
      by_cases h0 : q = 0
      · simp [h0, Number.eq]
      · simp [h0, Number.eq, ih]

/-! ### The role against what it is for -/

/-- The values can be read for so many votes: there are no operators, and a percentage is of some votes. -/
structure Readable (role : QuorumVoteRole R) (n : ℕ) : Prop where
  single : ∀ v ∈ role.values, v.2 = []
  percentage : ∀ v ∈ role.values, v.1.getLast? = some '%' → n ≠ 0

/-- The number that is read of the values; without values it is zero. -/
def numberRead (role : QuorumVoteRole R) (n : ℕ) : Number := (role.values.map fun v => quorumNumber n v.1).getD (.fin 0)

/-- The count is the number read, and nothing else is returned. -/
theorem calculateMinValidCount_eq (role : QuorumVoteRole R) (n : ℕ) :
    (Readable role n → role.calculateMinValidCount n = .ok (numberRead role n)) ∧
      (¬ Readable role n → role.calculateMinValidCount n = .error ()) := by
  unfold QuorumVoteRole.calculateMinValidCount numberRead
  cases hv : role.values with
  | none =>
    refine ⟨fun _ => rfl, fun h => absurd ⟨?_, ?_⟩ h⟩ <;> simp [hv]
  | some v =>
    obtain ⟨firstValue, operators⟩ := v
    have hreadable : Readable role n ↔ operators = [] ∧ (firstValue.getLast? = some '%' → n ≠ 0) :=
      ⟨fun h => ⟨h.single _ hv, h.percentage _ hv⟩, fun h => ⟨by simpa [hv] using h.1, by simpa [hv] using h.2⟩⟩
    rw [hreadable]
    cases operators with
    | nil =>
      by_cases hp : firstValue.getLast? = some '%' ∧ n = 0
      · simp [curValue, hp]
      · have hp' : firstValue.getLast? = some '%' → n ≠ 0 := fun hlast hzero => hp ⟨hlast, hzero⟩
        exact ⟨fun _ => if_neg hp, fun h => absurd ⟨rfl, hp'⟩ h⟩
    | cons op rest =>
      refine ⟨fun h => absurd h.1 nofun, fun _ => ?_⟩
      simp only
      cases curValue n firstValue with
      | error e => rfl
      | ok value => cases curValue n op.2 <;> rfl

/-- The number that is read of the quorum and the addresses seen lead to the answer that the value of the quorum and
    the number of addresses matched call for. -/
structure ReadsRight (role : QuorumVoteRole R) (keys : VoteKeys K) (list : List A) (quorum : ℚ) : Prop where
  readable : Readable role (scene.seen role.source).length
  counted : scene.EndsAtZero keys (scene.seen role.source) (numberRead role (scene.seen role.source).length) ↔
    quorum ≤ scene.matched keys list
  beforehand : (numberRead role (scene.seen role.source).length).le (.fin (scene.matched keys list)) = true ↔
    quorum ≤ scene.matched keys list

/-- The role judges a list right: by the number and the addresses it reads, or by a refusal when it meets
    a role or a text that is an object. -/
def Judges (role : QuorumVoteRole R) (keys : VoteKeys K) (list : List A) (quorum : ℚ) : Prop :=
  (scene.SeesRefused role.source → ¬ quorum ≤ scene.matched keys list) ∧
    (¬ scene.SeesRefused role.source → scene.ReadsRight role keys list quorum)

variable [DecidableEq K] {scene} {role : QuorumVoteRole R} {keys : VoteKeys K} {list : List A}

/-- With its constraints the role answers by the number read, for the addresses seen. -/
theorem isAllowedForKeys_seen (hc : (scene.roles scene.contract).isAllowedForConstraints role.self = true)
    (hl : scene.votingList role.source = some list) (hno : ¬ scene.SeesRefused role.source) (votes : Option ℕ) :
    scene.isAllowedForKeys role votes keys =
      (role.calculateMinValidCount (scene.seen role.source).length).map fun n =>
        match votes with
        | some v => n.le (.fin v)
        | none => scene.countDown (scene.seen role.source) keys n := by
  simp only [isAllowedForKeys, hc, (scene.getVotingAddresses_of_list hl).2 hno, Bool.not_true,
    Bool.false_eq_true, if_false]
  cases role.calculateMinValidCount (scene.seen role.source).length with
  | error e => rfl
  | ok n => cases votes <;> rfl

theorem isAllowedForKeys_roles (hc : (scene.roles scene.contract).isAllowedForConstraints role.self = true)
    (hl : scene.votingList role.source = some list) (hrole : scene.SeesRefused role.source) (votes : Option ℕ) :
    scene.isAllowedForKeys role votes keys = .ok false := by
  obtain ⟨e, he⟩ := (scene.getVotingAddresses_of_list hl).1 hrole
  simp [isAllowedForKeys, hc, he]

/-- With its constraints the role is right about a list just when it judges by the right numbers. -/
theorem answers_iff_judges (hc : (scene.roles scene.contract).isAllowedForConstraints role.self = true)
    (hl : scene.votingList role.source = some list) (quorum : ℚ) :
    scene.isAllowedForKeys role none keys = .ok (decide (quorum ≤ scene.matched keys list)) ∧
        scene.isAllowedForKeys role (some (scene.matched keys list)) keys =
          .ok (decide (quorum ≤ scene.matched keys list)) ↔
      scene.Judges role keys list quorum := by
  by_cases hrole : scene.SeesRefused role.source
  · rw [isAllowedForKeys_roles hc hl hrole, isAllowedForKeys_roles hc hl hrole, and_self, Except.ok.injEq,
      eq_comm, decide_eq_false_iff_not]
    exact ⟨fun h => ⟨fun _ => h, absurd hrole⟩, fun h => h.1 hrole⟩
  rw [isAllowedForKeys_seen hc hl hrole, isAllowedForKeys_seen hc hl hrole]
  have hjudges : scene.Judges role keys list quorum ↔ scene.ReadsRight role keys list quorum :=
    ⟨fun h => h.2 hrole, fun h => ⟨(absurd · hrole), fun _ => h⟩⟩
  rw [hjudges]
  obtain ⟨hok, herror⟩ := calculateMinValidCount_eq role (scene.seen role.source).length
  by_cases hread : Readable role (scene.seen role.source).length
  · simp only [hok hread, Except.map, Except.ok.injEq]
    have hdec : ∀ b : Bool, b = decide (quorum ≤ scene.matched keys list) ↔
        (b = true ↔ quorum ≤ scene.matched keys list) := by
      intro b
      rw [Bool.eq_iff_iff, decide_eq_true_eq]
    rw [hdec, hdec, countDown_iff]
    exact ⟨fun h => ⟨hread, h.1, h.2⟩, fun h => ⟨h.counted, h.beforehand⟩⟩
  · simp only [herror hread, Except.map, reduceCtorEq, and_self, false_iff]
    exact fun h => hread h.readable

/-- CODE DEFECT (counting votes): a role is allowed when enough addresses are matched just where the code reads
    what the list and the quorum say; operators, fields, texts, listed roles and the own contract are lost
    on it. -/
theorem countsVotes_iff (scene : VoteScene K A R C) (role : QuorumVoteRole R) (keys : VoteKeys K) :
    scene.CountsVotes role keys ↔
      ((scene.roles scene.contract).isAllowedForConstraints role.self = true → ∀ list quorum,
        scene.votingList role.source = some list → scene.quorumValue role list.length = some quorum →
          scene.Judges role keys list quorum) := by
  constructor
  · intro h hc list quorum hl hq
    have := h list quorum hl hq
    simp only [hc, Bool.true_and] at this
    exact (answers_iff_judges hc hl quorum).mp this
  · intro h list quorum hl hq
    cases hc : (scene.roles scene.contract).isAllowedForConstraints role.self with
    | true =>
      simp only [Bool.true_and]
      exact (answers_iff_judges hc hl quorum).mpr (h hc list quorum hl hq)
    | false => simp [isAllowedForKeys, hc]

end VoteScene

/-! ### Three voters of whom two are enough -/

/-- A role of `N-1` votes over the addresses in a field of the contract that matches `refs`. -/
def allButOne : QuorumVoteRole Unit where
  self := ()
  source := "refs.state.data.voters".toList
  quorum := "N-1".toList
  values := some (['N'], [(.OPERATOR_SUBTRACT, ['1'])])
  extracted := by
    rintro v ⟨⟩
    rfl

/-- Three addresses, each matched by the key of its number. -/
def threeVoters : VoteScene ℕ ℕ Unit Unit where
  roles _ := { role := fun _ => ⟨true, [], [], .vote (.ok true) (.ok ["refs"])⟩, roles := fun _ => none,
               stateRoles := fun _ => none, validRoleConstraints := [], isMatch := fun a k => a == k }
  get _ _ := .array [.keyAddress 1, .keyAddress 2, .keyAddress 3]
  keyAddress _ := none
  contract := ()
  constraints name := if name = "refs".toList then some [()] else none

/-- All three have signed, yet the subtraction throws. -/
theorem allButOne_not_counted : ¬ threeVoters.CountsVotes allButOne (.collection [1, 2, 3]) := by
  intro h
  have hthrow : threeVoters.isAllowedForKeys allButOne none (.collection [1, 2, 3]) = .error () := by rfl
  have hallowed := (h [1, 2, 3] 2 (by rfl) (by decide +kernel)).1
  rw [hthrow] at hallowed
  cases hallowed

end Universa.Contracts
