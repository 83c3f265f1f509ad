import Mathlib.Algebra.Order.Floor.Semiring
import Mathlib.Data.Finset.Card
import Mathlib.Data.List.AList
import Mathlib.Data.List.Perm.Basic
import Mathlib.Data.Rat.Floor
import Universa.Lib.Base64
import Universa.Lib.Tally

/-! `UBotSession.getStorage`: a trusted read of a storage. In each round the selected nodes are asked, each
    once, and their answers are scanned in order; after the first round the nodes that were not selected
    are asked too. `N` are the numbers of the nodes, `H` the hashes.

    `randomChoice` takes the selected nodes out of the list that it is given, so what is appended later are
    the others.

    The answers are counted by the base64 of their hash, and those without a hash under the text `null`. A digest
    of any length comes over the network, and the one of the bytes 9E, E9, 65 has this text, too. -/

namespace Universa.Ubot.StorageRead
open Universa.Tally

/-- `answer.current[fullStorageName]`. -/
inductive Current (H : Type) where
  | undefined
  | null
  | hash (id : H)
  deriving DecidableEq

/-- An answer of a node: none, one without `current` or `pending`, the storage with the number of its
    pending changes, or an `Error`. -/
inductive Answer (H : Type) where
  | null
  | wrong
  | storage (current : Current H) (pending : ℕ)
  | error
  deriving DecidableEq

/-- What `getStorage` throws. -/
inductive Thrown where
  | randomChoice
  | maximumWaitingTime
  | returnNull
  | wrongResult
  | trustLevelCantBeReached
  | consensusBroken
  deriving DecidableEq

/-- A read: the topology of the client, the trust level, the product of numbers as the machine rounds it,
    `Math.random`, and `base64` of a hash. -/
structure Read (N H : Type) where
  topology : List N
  topology_nodup : topology.Nodup
  trustLevel : ℚ
  times : ℚ → ℚ → ℚ
  random : ℕ → ℚ
  random_nonneg : ∀ i, 0 ≤ random i
  random_lt_one : ∀ i, random i < 1
  base64 : H → String
  base64_injective : Function.Injective base64

variable {N H : Type}

/-- A round: what each node answers, and whether the waiting time is over before. -/
structure Round (N H : Type) where
  answers : N → Answer H
  expired : Bool

/-- `nodes` and `selected` between rounds, and whether this is the first. -/
structure Asked (N : Type) where
  selected : List N
  nodes : List N
  first : Bool
  deriving DecidableEq

/-- `if (result === undefined && first)`: the other nodes are appended. -/
def Asked.next (s : Asked N) : Asked N :=
  if s.first then { s with selected := s.selected ++ s.nodes, first := false } else s

/-- What a round comes to. -/
inductive Outcome (N H : Type) where
  | returned (current : Current H)
  | thrown (e : Thrown)
  | goesOn (asked : Asked N)
  deriving DecidableEq

namespace Read
variable (r : Read N H)

/-- `trust`: at most all nodes. -/
def trust : ℤ :=
  let trust := ⌈r.times r.topology.length r.trustLevel⌉
  if r.topology.length < trust then r.topology.length else trust

/-- `UBotConfig.getNetworkNegativeConsensus(count)`. -/
def getNetworkNegativeConsensus (count : ℕ) : ℤ :=
  if count < 3 then 1 else if count < 10 then 2 else count + 1 - ⌈r.times count (9 / 10)⌉

/-- The loop of `randomChoice(list, count, false)`: what is picked leaves the list. -/
def pick : ℕ → ℕ → List N → List N × List N
  | 0, _, list => ([], list)
  | count + 1, i, list =>
      match list[⌊r.random i * list.length⌋₊]? with
      | none => ([], list)
      | some node =>
          let rest := pick count (i + 1) (list.eraseIdx ⌊r.random i * list.length⌋₊)
          (node :: rest.1, rest.2)

/-- `randomChoice(list, count, false)`. A negative count picks nothing. -/
def randomChoice (list : List N) (count : ℤ) : Except Thrown (List N × List N) :=
  if list.length < count then .error .randomChoice else .ok (r.pick count.toNat 0 list)

/-- The key of a current hash. -/
def key : Current H → String
  | .hash id => r.base64 id
  | _ => "null"

/-- The counts of a scan. -/
structure Scan where
  groups : AList fun _ : String => ℕ
  asked : ℕ
  failed : ℕ

/-- No group can come to the trust level with the nodes that have not been counted. -/
def unavailable (groups : AList fun _ : String => ℕ) (asked : ℕ) : Bool :=
  groups.entries.all fun group => decide ((group.2 : ℤ) + r.topology.length - asked < r.trust)

/-- The loop over the answers; its result where it breaks. -/
def scan : List (Answer H) → Scan → Except Thrown (Option (Current H))
  | [], _ => .ok none
  | .null :: _, _ => .error .returnNull
  | .wrong :: _, _ => .error .wrongResult
  | .error :: answers, s =>
      if r.getNetworkNegativeConsensus r.topology.length ≤ s.failed + 1 then .error .consensusBroken
      else scan answers { s with asked := s.asked + 1, failed := s.failed + 1 }
  | .storage _ (_ + 1) :: answers, s => scan answers s
  | .storage current 0 :: answers, s =>
      let count := (s.groups.lookup (r.key current)).getD 0
      if r.trust ≤ count + 1 then .ok (some current)
      else
        let groups := s.groups.insert (r.key current) (count + 1)
        if r.unavailable groups (s.asked + 1) then .error .trustLevelCantBeReached
        else scan answers { s with groups := groups, asked := s.asked + 1 }

/-- What a scan makes of the loop. A result that is `undefined` does not end it. -/
def settle (next : Asked N) : Except Thrown (Option (Current H)) → Outcome N H
  | .error e => .thrown e
  | .ok (some (.hash id)) => .returned (.hash id)
  | .ok (some .null) => .returned .null
  | .ok _ => .goesOn next

/-- One pass of the loop. -/
def round (round : Round N H) (s : Asked N) : Outcome N H :=
  if round.expired then .thrown .maximumWaitingTime
  else settle s.next (r.scan (s.selected.map round.answers) ⟨∅, 0, 0⟩)

/-- The rounds, one after the other. -/
def rounds : List (Round N H) → Asked N → Outcome N H
  | [], s => .goesOn s
  | round :: later, s =>
      match r.round round s with
      | .goesOn s' => rounds later s'
      | outcome => outcome

/-- `getStorage(storageName, multi, trustLevel, requestContract)` with the rounds so far. -/
def getStorage (rounds : List (Round N H)) : Outcome N H :=
  match r.randomChoice r.topology r.trust with
  | .error e => .thrown e
  | .ok (selected, nodes) => r.rounds rounds ⟨selected, nodes, true⟩

end Read

/-! ### What a read promises -/

/-- A hash that is returned in the last of the rounds has the trust of distinct nodes that were asked in it,
    and the trust level is given up there only when no other answers of the nodes that were not scanned
    could reach it. -/
structure Read.Trusted [DecidableEq N] [DecidableEq H] (r : Read N H) (earlier : List (Round N H))
    (last : Round N H) : Prop where
  returned : ∀ s id, r.getStorage earlier = .goesOn s →
    r.getStorage (earlier ++ [last]) = .returned (.hash id) → ∃ nodes : Finset N,
      min (r.topology.length : ℤ) ⌈r.times r.topology.length r.trustLevel⌉ ≤ nodes.card ∧
        ∀ node ∈ nodes, node ∈ r.topology ∧ node ∈ s.selected ∧
          last.answers node = .storage (.hash id) 0
  unreachable : ∀ s, r.getStorage earlier = .goesOn s →
    r.getStorage (earlier ++ [last]) = .thrown .trustLevelCantBeReached →
      ∃ scanned, scanned <+: s.selected ∧
        ∀ answers : N → Answer H, (∀ node ∈ scanned, answers node = last.answers node) → ∀ current,
          ((r.topology.filter fun node => answers node = .storage current 0).length : ℤ) <
            min (r.topology.length : ℤ) ⌈r.times r.topology.length r.trustLevel⌉

/-- No two nodes answer, one with a hash that has the text `null` and one with no hash. -/
def Read.Apart (r : Read N H) (last : Round N H) : Prop :=
  ∀ node ∈ r.topology, ∀ id, last.answers node = .storage (.hash id) 0 → r.base64 id = "null" →
    ∀ other ∈ r.topology, last.answers other ≠ .storage .null 0 ∧ last.answers other ≠ .storage .undefined 0

/-! ### The scan -/

section scan

variable (r : Read N H) (answers : N → Answer H)

/-- What is counted of a node's answer: the key of a current hash without pending changes, or an error. -/
def held (node : N) : Option (Option String) :=
  match answers node with
  | .storage current 0 => some (some (r.key current))
  | .error => some none
  | _ => none

/-- What is counted of the nodes that have been scanned. -/
def votesOf (nodes : List N) : List (N × Option String) :=
  nodes.filterMap fun node => (held r answers node).map (Prod.mk node)

/-- The counts of a scan are those of the nodes before. -/
structure Scanned (s : Read.Scan) (nodes : List N) : Prop where
  asked : s.asked = (votesOf r answers nodes).length
  groups : ∀ k, (s.groups.lookup k).getD 0 = count id (votesOf r answers nodes) (some k)

/-- What the scan of these nodes says where it ends early. -/
def Sound (nodes : List N) : Except Thrown (Option (Current H)) → Prop
  | .ok (some current) => ∃ counted, counted <+: nodes ∧ (∃ node ∈ counted, answers node = .storage current 0) ∧
      r.trust ≤ count id (votesOf r answers counted) (some (r.key current))
  | .error .trustLevelCantBeReached => ∃ counted, counted <+: nodes ∧
      ∀ k, (count id (votesOf r answers counted) (some k) : ℤ) + r.topology.length -
        (votesOf r answers counted).length < r.trust
  | _ => True

variable {r answers}

theorem votesOf_snoc (nodes : List N) (node : N) :
    votesOf r answers (nodes ++ [node]) =
      votesOf r answers nodes ++ ((held r answers node).map (Prod.mk node)).toList := by
  rw [votesOf, List.filterMap_append, votesOf]
  cases h : held r answers node <;> simp [h]

/-- Where no group can come to the trust level, no key can: some group has a count. -/
theorem lt_trust_of_unavailable {groups : AList fun _ : String => ℕ} {votes : List (N × Option String)}
    (hgroups : ∀ k, (groups.lookup k).getD 0 = count id votes (some k)) {k₀ : String}
    (hk₀ : 0 < count id votes (some k₀)) (hnone : r.unavailable groups votes.length = true) (k : String) :
    (count id votes (some k) : ℤ) + r.topology.length - votes.length < r.trust := by
  have hlisted (k : String) (hpos : 0 < count id votes (some k)) :
      (count id votes (some k) : ℤ) + r.topology.length - votes.length < r.trust := by
    have hk := hgroups k
    cases hgroup : groups.lookup k with
    | none =>
        rw [hgroup, Option.getD_none] at hk
        omega
    | some n =>
        rw [hgroup, Option.getD_some] at hk
        have := List.all_eq_true.1 hnone _ (AList.mem_lookup_iff.1 hgroup)
        rw [decide_eq_true_eq] at this
        rwa [← hk]
  by_cases hpos : 0 < count id votes (some k)
  · exact hlisted k hpos
  · have := hlisted k₀ hk₀
    omega

/-- The scan of the nodes that are left. -/
theorem scan_sound : ∀ (rest before : List N) (s : Read.Scan), Scanned r answers s before →
    Sound r answers (before ++ rest) (r.scan (rest.map answers) s)
  | [], _, _, _ => trivial
  | node :: rest, before, s, h => by
      have hsplit : before ++ node :: rest = (before ++ [node]) ++ rest := by simp
      have hvotes := @votesOf_snoc _ _ r answers before node
      rw [List.map_cons]
      cases hanswer : answers node with
      | null => trivial
      | wrong => trivial
      | error =>
          have hheld : held r answers node = some none := by simp only [held, hanswer]
          rw [hheld] at hvotes
          rw [Read.scan]
          split_ifs with hbroken
          · trivial
          · rw [hsplit]
            refine scan_sound rest (before ++ [node]) _ ⟨?_, fun k => ?_⟩
            · rw [hvotes, h.asked]
              simp
            · rw [hvotes]
              exact (h.groups k).trans (by simp [count])
      | storage current pending =>
          cases pending with
          | succ n =>
              have hheld : held r answers node = none := by simp only [held, hanswer]
              rw [hheld] at hvotes
              rw [Read.scan, hsplit]
              have hsame : votesOf r answers (before ++ [node]) = votesOf r answers before := by
                rw [hvotes]
                simp
              exact scan_sound rest (before ++ [node]) s
                ⟨by rw [hsame]; exact h.asked, by rw [hsame]; exact h.groups⟩
          | zero =>
              have hheld : held r answers node = some (some (r.key current)) := by simp only [held, hanswer]
              rw [hheld, Option.map_some, Option.toList_some] at hvotes
              have hcounted : count id (votesOf r answers (before ++ [node])) (some (r.key current)) =
                  count id (votesOf r answers before) (some (r.key current)) + 1 := by
                rw [hvotes, count_snoc, id_eq, if_pos rfl]
              have hgroups := lookup_insert (Option.some_injective _) h.groups
                (rfl : id (node, some (r.key current)).2 = some (r.key current))
              rw [← hvotes] at hgroups
              have hasked : s.asked + 1 = (votesOf r answers (before ++ [node])).length := by
                rw [hvotes, h.asked, List.length_append, List.length_singleton]
              rw [Read.scan, h.groups, hasked]
              dsimp only
              split_ifs with htrust hnone
              · refine ⟨before ++ [node], ⟨rest, hsplit.symm⟩, ⟨node, by simp, hanswer⟩, ?_⟩
                rw [hcounted]
                exact_mod_cast htrust
              · exact ⟨before ++ [node], ⟨rest, hsplit.symm⟩,
                  lt_trust_of_unavailable hgroups (by rw [hcounted]; omega) hnone⟩
              · rw [hsplit]
                exact scan_sound rest (before ++ [node]) _ ⟨rfl, hgroups⟩

theorem mem_votesOf {nodes : List N} {vote : N × Option String} :
    vote ∈ votesOf r answers nodes ↔ vote.1 ∈ nodes ∧ held r answers vote.1 = some vote.2 := by
  simp only [votesOf, List.mem_filterMap, Option.map_eq_some_iff]
  constructor
  · rintro ⟨node, hnode, value, hvalue, rfl⟩
    exact ⟨hnode, hvalue⟩
  · rintro ⟨hnode, hvalue⟩
    exact ⟨vote.1, hnode, vote.2, hvalue, rfl⟩

/-- Distinct nodes have each a vote of their own. -/
theorem votesOf_nodup {nodes : List N} (h : nodes.Nodup) :
    ((votesOf r answers nodes).map Prod.fst).Nodup := by
  refine (voters_sublist (fun node vote hvote => ?_) nodes).nodup h
  obtain ⟨value, -, rfl⟩ := Option.map_eq_some_iff.1 hvote
  rfl

/-- What is counted of some nodes is of the others too, for answers that are the same on them. -/
theorem votesOf_of {nodes voters : List N} (hnodup : nodes.Nodup) (hsub : nodes ⊆ voters)
    {answers' : N → Answer H} (hsame : ∀ node ∈ nodes, answers' node = answers node) :
    Of voters (held r answers') (votesOf r answers nodes) where
  nodup := votesOf_nodup hnodup
  subset vote hvote := hsub (mem_votesOf.1 hvote).1
  holds vote hvote := by
    obtain ⟨hnode, hheld⟩ := mem_votesOf.1 hvote
    rw [held, hsame _ hnode]
    exact hheld

end scan

/-! ### The selected nodes -/

section selection

variable {r : Read N H}

/-- Picking takes nodes out of the list, each as often as it was there. -/
theorem pick_perm (count i : ℕ) (list : List N) (h : count ≤ list.length) :
    ((r.pick count i list).1 ++ (r.pick count i list).2).Perm list := by
  induction count generalizing i list with
  | zero => exact .refl list
  | succ count ih =>
      have hlt : ⌊r.random i * list.length⌋₊ < list.length := by
        have hpos : (0 : ℚ) < list.length := by exact_mod_cast (by omega : 0 < list.length)
        rw [Nat.floor_lt (mul_nonneg (r.random_nonneg i) hpos.le)]
        calc r.random i * list.length < 1 * list.length :=
              mul_lt_mul_of_pos_right (r.random_lt_one i) hpos
          _ = list.length := one_mul _
      rw [Read.pick, List.getElem?_eq_getElem hlt]
      have hlength : (list.eraseIdx ⌊r.random i * list.length⌋₊).length = list.length - 1 :=
        List.length_eraseIdx_of_lt hlt
      exact ((ih (i + 1) _ (by omega)).cons _).trans (List.getElem_cons_eraseIdx_perm hlt)

/-- The nodes that are asked, and those that are to be asked after the first round, are those of the
    topology. -/
def Selects (r : Read N H) (s : Asked N) : Prop :=
  if s.first then (s.selected ++ s.nodes).Perm r.topology else s.selected.Perm r.topology

theorem Selects.nodup {s : Asked N} (h : Selects r s) : s.selected.Nodup := by
  unfold Selects at h
  split_ifs at h
  · exact (List.nodup_append.1 (h.nodup_iff.2 r.topology_nodup)).1
  · exact h.nodup_iff.2 r.topology_nodup

theorem Selects.subset {s : Asked N} (h : Selects r s) : s.selected ⊆ r.topology := by
  unfold Selects at h
  split_ifs at h
  · exact fun node hnode => h.subset (List.mem_append_left _ hnode)
  · exact h.subset

/-- What a pass that settles on something came to. -/
theorem settle_cases (next : Asked N) (result : Except Thrown (Option (Current H))) :
    (∀ id, Read.settle next result = .returned (.hash id) → result = .ok (some (.hash id))) ∧
    (∀ e, Read.settle next result = .thrown e → result = .error e) ∧
    ∀ s, Read.settle next result = .goesOn s → s = next := by
  rcases result with e | (_ | (_ | _ | id)) <;> simp [Read.settle, eq_comm]

/-- A round that goes on still has distinct nodes: the others are appended once. -/
theorem round_selects {round : Round N H} {s s' : Asked N} (h : Selects r s)
    (hround : r.round round s = .goesOn s') : Selects r s' := by
  rw [Read.round] at hround
  split_ifs at hround
  rw [(settle_cases _ _).2.2 s' hround, Asked.next]
  by_cases hfirst : s.first = true
  · rw [if_pos hfirst]
    rw [Selects, if_pos hfirst] at h
    rw [Selects, if_neg Bool.false_ne_true]
    exact h
  · rw [if_neg hfirst]
    exact h

/-- The rounds that go on. -/
theorem rounds_selects : ∀ (rounds : List (Round N H)) {s s' : Asked N}, Selects r s →
    r.rounds rounds s = .goesOn s' → Selects r s'
  | [], s, s', h, hrounds => by
      cases hrounds
      exact h
  | round :: later, s, s', h, hrounds => by
      rw [Read.rounds] at hrounds
      cases hround : r.round round s with
      | returned current => rw [hround] at hrounds; cases hrounds
      | thrown e => rw [hround] at hrounds; cases hrounds
      | goesOn s₁ =>
          rw [hround] at hrounds
          exact rounds_selects later (round_selects h hround) hrounds

/-- One more round after rounds that go on. -/
theorem rounds_concat (last : Round N H) : ∀ (rounds : List (Round N H)) {s s' : Asked N},
    r.rounds rounds s = .goesOn s' → r.rounds (rounds ++ [last]) s = r.round last s'
  | [], s, s', hrounds => by
      cases hrounds
      rw [List.nil_append, Read.rounds]
      cases r.round last s <;> rfl
  | round :: later, s, s', hrounds => by
      rw [Read.rounds] at hrounds
      rw [List.cons_append, Read.rounds]
      cases hround : r.round round s with
      | returned current => rw [hround] at hrounds; cases hrounds
      | thrown e => rw [hround] at hrounds; cases hrounds
      | goesOn s₁ =>
          rw [hround] at hrounds
          exact rounds_concat last later hrounds

theorem trust_eq (r : Read N H) :
    r.trust = min (r.topology.length : ℤ) ⌈r.times r.topology.length r.trustLevel⌉ := by
  rw [Read.trust]
  split_ifs <;> omega

/-- A read that goes on has selected distinct nodes, and the next round is one more pass of the loop. -/
theorem getStorage_goesOn {earlier : List (Round N H)} {s : Asked N}
    (h : r.getStorage earlier = .goesOn s) :
    Selects r s ∧ ∀ last, r.getStorage (earlier ++ [last]) = r.round last s := by
  unfold Read.getStorage at h ⊢
  unfold Read.randomChoice at h ⊢
  by_cases hmany : (r.topology.length : ℤ) < r.trust
  · rw [if_pos hmany] at h
    cases h
  · rw [if_neg hmany] at h ⊢
    have hperm := pick_perm (r := r) r.trust.toNat 0 r.topology (by omega)
    refine ⟨rounds_selects earlier ?_ h, fun last => rounds_concat last earlier h⟩
    rw [Selects, if_pos rfl]
    exact hperm

end selection

/-- A round that returns a hash is one whose scan does. -/
theorem scan_of_returned {r : Read N H} {last : Round N H} {s : Asked N} {id : H}
    (h : r.round last s = .returned (.hash id)) :
    r.scan (s.selected.map last.answers) ⟨∅, 0, 0⟩ = .ok (some (.hash id)) := by
  rw [Read.round] at h
  split_ifs at h
  exact (settle_cases _ _).1 id h

/-- A round that gives the trust level up is one whose scan does. -/
theorem scan_of_unreachable {r : Read N H} {last : Round N H} {s : Asked N}
    (h : r.round last s = .thrown .trustLevelCantBeReached) :
    r.scan (s.selected.map last.answers) ⟨∅, 0, 0⟩ = .error .trustLevelCantBeReached := by
  rw [Read.round] at h
  split_ifs at h
  · cases h
  · exact (settle_cases _ _).2.1 _ h

/-- Where a node of the topology has answered with a hash, those that hold its key answered with that hash and no
    pending change. -/
theorem answer_of_held {r : Read N H} {last : Round N H} (hapart : r.Apart last) {node node' : N} {hash : H}
    (hnode : node ∈ r.topology) (hanswer : last.answers node = .storage (.hash hash) 0) (hnode' : node' ∈ r.topology)
    (h : held r last.answers node' = some (some (r.base64 hash))) : last.answers node' = .storage (.hash hash) 0 := by
  unfold held at h
  split at h
  · rename_i current hcurrent
    rw [Option.some.injEq, Option.some.injEq] at h
    cases current with
    | undefined => exact absurd hcurrent (hapart node hnode hash hanswer h.symm node' hnode').2
    | null => exact absurd hcurrent (hapart node hnode hash hanswer h.symm node' hnode').1
    | hash hash' => rw [hcurrent, r.base64_injective h]
  · cases h
  · cases h

/-- CODE DEFECT (which rounds): a hash that is returned has the trust of distinct nodes, and the trust level is
    given up only where it cannot be reached, in every round that keeps hashes and answers without one apart. -/
theorem getStorage_trusted [DecidableEq N] [DecidableEq H] (r : Read N H) (earlier : List (Round N H))
    (last : Round N H) (hapart : r.Apart last) : r.Trusted earlier last := by
  have hscan (s : Asked N) := @scan_sound _ _ r last.answers s.selected [] ⟨∅, 0, 0⟩
    ⟨rfl, fun _ => by simp [votesOf]⟩
  refine ⟨fun s hash hearlier hlast => ?_, fun s hearlier hlast => ?_⟩
  · obtain ⟨hselects, hround⟩ := getStorage_goesOn hearlier
    rw [hround] at hlast
    have hsound := hscan s
    rw [scan_of_returned hlast] at hsound
    obtain ⟨counted, hcounted, ⟨first, hfirst, hanswer⟩, htrust⟩ := hsound
    rw [List.nil_append] at hcounted
    have hof : Of s.selected (held r last.answers) (votesOf r last.answers counted) :=
      votesOf_of (hcounted.sublist.nodup hselects.nodup) hcounted.subset fun _ _ => rfl
    have hle := @Of.count_le _ _ _ _ id _ _ _ hof (some (r.base64 hash))
    refine ⟨(s.selected.filter fun node =>
      held r last.answers node = some (some (r.base64 hash))).toFinset, ?_, fun node hnode => ?_⟩
    · rw [← trust_eq, List.toFinset_card_of_nodup (hselects.nodup.filter _),
        ← List.countP_eq_length_filter]
      simp only [Option.map_id, id_eq] at hle
      have : r.key (.hash hash) = r.base64 hash := rfl
      rw [this] at htrust
      omega
    · rw [List.mem_toFinset, List.mem_filter, decide_eq_true_eq] at hnode
      have hin := hselects.subset hnode.1
      exact ⟨hin, hnode.1, answer_of_held hapart (hselects.subset (hcounted.subset hfirst)) hanswer hin hnode.2⟩
  · obtain ⟨hselects, hround⟩ := getStorage_goesOn hearlier
    rw [hround] at hlast
    have hsound := hscan s
    rw [scan_of_unreachable hlast] at hsound
    obtain ⟨counted, hcounted, hshort⟩ := hsound
    rw [List.nil_append] at hcounted
    refine ⟨counted, hcounted, fun answers hsame current => ?_⟩
    have hof : Of r.topology (held r answers) (votesOf r last.answers counted) :=
      votesOf_of (hcounted.sublist.nodup hselects.nodup)
        (fun node hnode => hselects.subset (hcounted.subset hnode)) hsame
    have hle := @Of.le_count_add _ _ _ _ id _ _ _ hof (some (r.key current))
    have hlength := hof.length_le
    have hshort := hshort (r.key current)
    simp only [Option.map_id, id_eq] at hle
    have hcount : (r.topology.filter fun node => answers node = .storage current 0).length ≤
        r.topology.countP fun node => held r answers node = some (some (r.key current)) := by
      rw [← List.countP_eq_length_filter]
      refine List.countP_mono_left fun node _ hnode => ?_
      rw [decide_eq_true_eq] at hnode ⊢
      simp only [held, hnode]
    rw [← trust_eq]
    omega

/-! ### Three nodes -/

theorem ofList_encode_injective : Function.Injective fun digest : List UInt8 => String.ofList (Base64.encode digest) :=
  fun _ _ h => Base64.encode_injective (String.ofList_injective h)

theorem threeNodes_nodup : [0, 1, 2].Nodup := by decide

/-- Two of three nodes are to be trusted, and the first two are asked; hashes are digests. -/
def threeNodes : Read ℕ (List UInt8) where
  topology := [0, 1, 2]
  topology_nodup := threeNodes_nodup
  trustLevel := 1 / 2
  times a b := a * b
  random _ := 0
  random_nonneg _ := le_rfl
  random_lt_one _ := one_pos
  base64 digest := String.ofList (Base64.encode digest)
  base64_injective := ofList_encode_injective

/-- The digest with the text `null`. -/
def nullDigest : List UInt8 := [0x9E, 0xE9, 0x65]

/-- Both nodes answer with one hash. -/
def agreeing : Round ℕ (List UInt8) := ⟨fun _ => .storage (.hash [1, 2, 3]) 0, false⟩

/-- The first node has no storage, the second answers with that digest. -/
def nullAnswered : Round ℕ (List UInt8) :=
  ⟨fun node => .storage (if node = 0 then .undefined else .hash nullDigest) 0, false⟩

theorem getStorage_trusted_agreeing : threeNodes.getStorage [agreeing] = .returned (.hash [1, 2, 3]) ∧
    threeNodes.Trusted [] agreeing := by
  refine ⟨by decide +kernel, getStorage_trusted threeNodes [] agreeing ?_⟩
  intro _ _ _ _ _ other _
  exact ⟨by simp [agreeing], by simp [agreeing]⟩

/-- CODE DEFECT: the digest is returned with the answer of one node. -/
theorem getStorage_not_trusted : ¬ ∀ last, threeNodes.Trusted [] last := by
  intro hall
  have hgoesOn : threeNodes.getStorage [] = .goesOn ⟨[0, 1], [2], true⟩ := by decide +kernel
  have hreturned : threeNodes.getStorage [nullAnswered] = .returned (.hash nullDigest) := by decide +kernel
  obtain ⟨nodes, htrust, hnodes⟩ := (hall nullAnswered).returned _ nullDigest hgoesOn hreturned
  have hone : nodes ⊆ {1} := by
    intro node hnode
    obtain ⟨-, hselected, hanswer⟩ := hnodes node hnode
    rcases List.mem_pair.mp hselected with rfl | rfl
    · exact absurd hanswer (by decide)
    · exact Finset.mem_singleton_self 1
  have htwo : min (threeNodes.topology.length : ℤ) ⌈threeNodes.times threeNodes.topology.length threeNodes.trustLevel⌉ =
      2 := by decide +kernel
  have hcard := Finset.card_le_card hone
  rw [Finset.card_singleton] at hcard
  rw [htwo] at htrust
  omega

end Universa.Ubot.StorageRead
