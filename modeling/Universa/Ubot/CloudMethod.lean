import Mathlib.Data.List.AList
import Universa.Lib.Tally

/-! The client gathers the states of a cloud method from the pool of the session
    (`UBotClient.executeCloudMethod`). In each round the UBots that have not answered yet are asked, all
    at once; the final states among the answers are counted one by one, by the hash of what they are
    serialized to. `U` are the UBots, `S` their states. -/

namespace Universa.Ubot.CloudMethod
open Universa.Tally

/-- What `getStateCloudMethod` comes to: a state that can continue, a final one, or an exception. -/
inductive StateAnswer (S : Type) where
  | canContinue
  | final (state : S)
  | error

/-- A session with its pool and quorum, and what groups the states: no two serializations that are met
    have the same hash. -/
structure Session (U S B K : Type) where
  pool : List U
  pool_nodup : pool.Nodup
  quorum : ℕ
  serialize : S → B
  hashOf : B → K
  hashOf_injective : Function.Injective hashOf

/-- `states`, `groups` and `answered`. -/
structure Gathered (U S K : Type) where
  states : List S
  groups : AList fun _ : K => ℕ
  answered : List U

/-- What the gathering comes to. -/
inductive Outcome (U S K : Type) where
  | returned (state : S)
  | consensusCantBeReached (states : List S)
  | thrown
  | goesOn (gathered : Gathered U S K)

variable {U S B K : Type} [DecidableEq U] [DecidableEq K]

/-- The key of a state's group. -/
def Session.groupKey (c : Session U S B K) (state : S) : K := c.hashOf (c.serialize state)

/-- No group can come to a quorum with the UBots of the pool that have not been counted. -/
def Session.unavailable (c : Session U S B K) (groups : AList fun _ : K => ℕ) (states : ℕ) : Bool :=
  groups.entries.all fun group => decide ((group.2 : ℤ) + c.pool.length - states < c.quorum)

/-- The loop over the states of a round. -/
def Session.countStates (c : Session U S B K) : List S → Gathered U S K → Outcome U S K
  | [], g => .goesOn g
  | state :: rest, g =>
      let states := g.states ++ [state]
      let groupKey := c.groupKey state
      let count := (g.groups.lookup groupKey).getD 0
      if c.quorum ≤ count + 1 then .returned state
      else
        let groups := g.groups.insert groupKey (count + 1)
        if c.unavailable groups states.length then .consensusCantBeReached states
        else c.countStates rest { g with states := states, groups := groups }

/-- The UBots of the pool that finish in a round, with their states. -/
def Session.finished (c : Session U S B K) (answers : U → StateAnswer S) (g : Gathered U S K) :
    List (U × S) :=
  (c.pool.filter (· ∉ g.answered)).filterMap fun ubotNumber =>
    match answers ubotNumber with
    | .final state => some (ubotNumber, state)
    | _ => none

/-- A query of the round rejects. -/
def Session.rejects (c : Session U S B K) (answers : U → StateAnswer S) (g : Gathered U S K) : Bool :=
  (c.pool.filter (· ∉ g.answered)).any fun ubotNumber =>
    match answers ubotNumber with
    | .error => true
    | _ => false

/-- One pass of the loop. -/
def Session.round (c : Session U S B K) (answers : U → StateAnswer S) (g : Gathered U S K) :
    Outcome U S K :=
  if c.rejects answers g then .thrown
  else
    let gotStates := c.finished answers g
    c.countStates (gotStates.map Prod.snd)
      { g with answered := g.answered ++ gotStates.map Prod.fst }

/-- The loop over so many rounds. -/
def Session.rounds (c : Session U S B K) : ℕ → (ℕ → U → StateAnswer S) → Gathered U S K → Outcome U S K
  | 0, _, g => .goesOn g
  | n + 1, answers, g =>
      match c.round (answers 0) g with
      | .goesOn g' => c.rounds n (fun i => answers (i + 1)) g'
      | outcome => outcome

/-- Nothing gathered yet. -/
def Gathered.start : Gathered U S K where
  states := []
  groups := ∅
  answered := []

/-- `executeCloudMethod()` after so many rounds. To an empty pool `connectRandomUbot` cannot connect: it
    reads the URL of `undefined`. -/
def Session.executeCloudMethod (c : Session U S B K) (n : ℕ) (answers : ℕ → U → StateAnswer S) :
    Outcome U S K :=
  if c.pool.isEmpty then .thrown else c.rounds n answers .start

/-! ### What the result says -/

/-- What a UBot reports finally, within so many rounds. -/
def reported (ubotNumber : U) : ℕ → (ℕ → U → StateAnswer S) → Option S
  | 0, _ => none
  | n + 1, answers =>
      match answers 0 ubotNumber with
      | .final state => some state
      | _ => reported ubotNumber n fun i => answers (i + 1)

/-- A query of a UBot that has not finished rejects, within so many rounds. -/
def rejected (ubotNumber : U) : ℕ → (ℕ → U → StateAnswer S) → Bool
  | 0, _ => false
  | n + 1, answers =>
      match answers 0 ubotNumber with
      | .final _ => false
      | .error => true
      | .canContinue => rejected ubotNumber n fun i => answers (i + 1)

/-- The UBots of the pool whose state, as far as it is known, has this serialization. -/
def Session.agreeing [DecidableEq B] (c : Session U S B K) (known : U → Option S) (state : S) : List U :=
  c.pool.filter fun ubotNumber => (known ubotNumber).map c.serialize = some (c.serialize state)

/-- The outcome after so many rounds has a quorum behind it: a quorum of the pool has reported what is
    returned, no states of those who have not answered bring a quorum where none can be reached, no round
    follows once the whole pool has answered, another exception is one of a query or of an empty pool, and
    where no query rejects a state that a quorum has reported is returned. -/
structure Session.HasQuorum [DecidableEq B] (c : Session U S B K) (n : ℕ)
    (answers : ℕ → U → StateAnswer S) (outcome : Outcome U S K) : Prop where
  returned : ∀ state, outcome = .returned state →
    c.quorum ≤ (c.agreeing (reported · n answers) state).length
  unreachable : ∀ states, outcome = .consensusCantBeReached states → ∀ final : U → S,
    (∀ u ∈ c.pool, ∀ state, reported u n answers = some state → final u = state) →
      ∀ state, (c.agreeing (some ∘ final) state).length < c.quorum
  decides : (∀ u ∈ c.pool, (reported u n answers).isSome) → ∀ g, outcome ≠ .goesOn g
  thrown : outcome = .thrown → c.pool = [] ∨ ∃ u ∈ c.pool, rejected u n answers = true
  returns : (∀ u ∈ c.pool, rejected u n answers = false) → 0 < c.quorum →
    ∀ state, c.quorum ≤ (c.agreeing (reported · n answers) state).length → ∃ state', outcome = .returned state'

/-! ### Counting the states of a round -/

section counting

variable {c : Session U S B K} {g : Gathered U S K} {votes : List (U × S)}

/-- What has been gathered are these reports, and they have not decided. -/
structure Tallied (c : Session U S B K) (g : Gathered U S K) (votes : List (U × S)) : Prop where
  states : g.states = votes.map Prod.snd
  groups : ∀ k, (g.groups.lookup k).getD 0 = count c.groupKey votes k
  below : votes ≠ [] → ∀ k, count c.groupKey votes k < c.quorum
  incomplete : votes ≠ [] → votes.length < c.pool.length

/-- These reports show that no quorum can be reached. -/
structure Hopeless (c : Session U S B K) (votes : List (U × S)) : Prop where
  ne_nil : votes ≠ []
  short : ∀ vote ∈ votes, count c.groupKey votes (c.groupKey vote.2) +
    (c.pool.length - votes.length) < c.quorum

/-- What a loop over states has come to when it had all these reports to count. -/
def Outcome.Sound (c : Session U S B K) (answered : List U) (votes : List (U × S)) :
    Outcome U S K → Prop
  | .returned state => c.quorum ≤ count c.groupKey votes (c.groupKey state)
  | .consensusCantBeReached _ => ∃ counted, counted <+: votes ∧ Hopeless c counted
  | .thrown => False
  | .goesOn g => g.answered = answered ∧ Tallied c g votes

omit [DecidableEq U] in
/-- Where no group can come to a quorum, none of the reports can. -/
theorem hopeless_of_unavailable {groups : AList fun _ : K => ℕ}
    (hlookup : ∀ k, (groups.lookup k).getD 0 = count c.groupKey votes k)
    (hlen : votes.length ≤ c.pool.length) (hnone : c.unavailable groups votes.length = true) :
    ∀ vote ∈ votes, count c.groupKey votes (c.groupKey vote.2) +
      (c.pool.length - votes.length) < c.quorum := by
  intro vote hvote
  have hpos : 0 < count c.groupKey votes (c.groupKey vote.2) :=
    List.countP_pos_iff.2 ⟨vote, hvote, by simp⟩
  have hk := hlookup (c.groupKey vote.2)
  cases hgroup : groups.lookup (c.groupKey vote.2) with
  | none =>
      rw [hgroup, Option.getD_none] at hk
      omega
  | some n =>
      rw [hgroup, Option.getD_some] at hk
      have := List.all_eq_true.1 hnone _ (AList.mem_lookup_iff.1 hgroup)
      simp only [decide_eq_true_eq] at this
      omega

omit [DecidableEq U] in
/-- Where a group can, some of the pool has not been counted. -/
theorem incomplete_of_available {groups : AList fun _ : K => ℕ}
    (hlookup : ∀ k, (groups.lookup k).getD 0 = count c.groupKey votes k)
    (hbelow : ∀ k, count c.groupKey votes k < c.quorum)
    (hsome : c.unavailable groups votes.length = false) : votes.length < c.pool.length := by
  obtain ⟨group, hgroup, htest⟩ := List.all_eq_false.1 hsome
  have hlisted : groups.lookup group.1 = some group.2 := AList.mem_lookup_iff.2 hgroup
  have hk := hlookup group.1
  rw [hlisted, Option.getD_some] at hk
  have := hbelow group.1
  simp only [decide_eq_true_eq] at htest
  omega

omit [DecidableEq U] in
/-- The loop over the states of a round, from what was gathered before. -/
theorem countStates_sound : ∀ (rest votes : List (U × S)) (g : Gathered U S K), Tallied c g votes →
    (votes ++ rest).length ≤ c.pool.length →
      (c.countStates (rest.map Prod.snd) g).Sound c g.answered (votes ++ rest)
  | [], votes, g, h, _ => by
      rw [List.append_nil]
      exact ⟨rfl, h⟩
  | vote :: rest, votes, g, h, hlen => by
      have hstates : g.states ++ [vote.2] = (votes ++ [vote]).map Prod.snd := by simp [h.states]
      have hcount : (g.groups.lookup (c.groupKey vote.2)).getD 0 =
          count c.groupKey votes (c.groupKey vote.2) := h.groups _
      have hself : count c.groupKey (votes ++ [vote]) (c.groupKey vote.2) =
          count c.groupKey votes (c.groupKey vote.2) + 1 := by rw [count_snoc, if_pos rfl]
      have hsplit : votes ++ vote :: rest = (votes ++ [vote]) ++ rest := by simp
      rw [List.map_cons, Session.countStates]
      simp only [hcount]
      by_cases hreached : c.quorum ≤ count c.groupKey votes (c.groupKey vote.2) + 1
      · -- a quorum: what comes after does not lower the count
        rw [if_pos hreached, hsplit, Outcome.Sound, count_append, hself]
        omega
      · rw [if_neg hreached]
        obtain ⟨groups, hgroups⟩ : ∃ groups, groups = g.groups.insert (c.groupKey vote.2)
          (count c.groupKey votes (c.groupKey vote.2) + 1) := ⟨_, rfl⟩
        obtain ⟨g₁, hg₁⟩ : ∃ g₁ : Gathered U S K,
          g₁ = { g with states := g.states ++ [vote.2], groups := groups } := ⟨_, rfl⟩
        have hlookup (k : K) : (groups.lookup k).getD 0 = count c.groupKey (votes ++ [vote]) k := by
          rw [hgroups]
          exact lookup_insert Function.injective_id h.groups rfl k
        have hbelow (k : K) : count c.groupKey (votes ++ [vote]) k < c.quorum := by
          rw [count_snoc]
          by_cases hk : c.groupKey vote.2 = k
          · rw [← hk, if_pos rfl]
            omega
          · rw [if_neg hk]
            by_cases hnil : votes = []
            · rw [hnil, count_nil]
              omega
            · exact h.below hnil k
        have hcounted : (votes ++ [vote]).length ≤ c.pool.length := by
          rw [hsplit, List.length_append] at hlen
          omega
        rw [← hgroups, hstates, List.length_map]
        by_cases hnone : c.unavailable groups (votes ++ [vote]).length = true
        · -- no group can come to a quorum any more
          rw [if_pos hnone]
          exact ⟨votes ++ [vote], ⟨rest, hsplit.symm⟩, by simp,
            hopeless_of_unavailable hlookup hcounted hnone⟩
        · rw [if_neg hnone, ← hstates, ← hg₁, hsplit]
          have hanswered : g₁.answered = g.answered := by rw [hg₁]
          have htallied : Tallied c g₁ (votes ++ [vote]) := by
            refine ⟨?_, ?_, fun _ => hbelow, fun _ => incomplete_of_available hlookup hbelow
              (Bool.not_eq_true _ ▸ hnone)⟩
            · rw [hg₁]
              exact hstates
            · rw [hg₁]
              exact hlookup
          rw [← hanswered]
          exact countStates_sound rest (votes ++ [vote]) g₁ htallied (hsplit ▸ hlen)

end counting

/-! ### The rounds -/

section rounds

variable {c : Session U S B K} {g : Gathered U S K} {votes : List (U × S)} {known : U → Option S} {rejecting : Prop}

omit [DecidableEq K] in
/-- The UBots that finish in a round are of the pool and had not answered, each once. -/
theorem mem_finished {answers : U → StateAnswer S} {vote : U × S} :
    vote ∈ c.finished answers g ↔
      vote.1 ∈ c.pool ∧ vote.1 ∉ g.answered ∧ answers vote.1 = .final vote.2 := by
  simp only [Session.finished, List.mem_filterMap, List.mem_filter, decide_eq_true_eq]
  constructor
  · rintro ⟨u, ⟨hpool, hnew⟩, hstate⟩
    cases hu : answers u with
    | final state =>
        rw [hu] at hstate
        cases hstate
        exact ⟨hpool, hnew, hu⟩
    | canContinue =>
        rw [hu] at hstate
        cases hstate
    | error =>
        rw [hu] at hstate
        cases hstate
  · rintro ⟨hpool, hnew, hstate⟩
    exact ⟨vote.1, ⟨hpool, hnew⟩, by rw [hstate]⟩

omit [DecidableEq K] in
theorem exists_error {answers : U → StateAnswer S} (h : c.rejects answers g = true) :
    ∃ u, (u ∈ c.pool ∧ u ∉ g.answered) ∧ answers u = .error := by
  obtain ⟨u, hu, herror⟩ := List.any_eq_true.1 h
  obtain ⟨hpool, hnew⟩ := List.mem_filter.1 hu
  refine ⟨u, ⟨hpool, of_decide_eq_true hnew⟩, ?_⟩
  cases hanswer : answers u with
  | error => rfl
  | canContinue => simp [hanswer] at herror
  | final state => simp [hanswer] at herror

omit [DecidableEq K] in
theorem finished_nodup (answers : U → StateAnswer S) (g : Gathered U S K) :
    ((c.finished answers g).map Prod.fst).Nodup := by
  refine (voters_sublist (fun u vote hvote => ?_) _).nodup (c.pool_nodup.filter (· ∉ g.answered))
  split at hvote
  · rw [← Option.some.inj hvote]
  · cases hvote

omit [DecidableEq K] in
/-- The reports after a round are still of different UBots of the pool. -/
theorem of_finished {answers : U → StateAnswer S} (hanswered : g.answered = votes.map Prod.fst)
    (hof : Of c.pool known votes)
    (hknown : ∀ vote ∈ c.finished answers g, known vote.1 = some vote.2) :
    Of c.pool known (votes ++ c.finished answers g) where
  nodup := by
    rw [List.map_append]
    refine hof.nodup.append (finished_nodup answers g) fun u hu hu' => ?_
    obtain ⟨vote, hvote, rfl⟩ := List.mem_map.1 hu'
    exact (mem_finished.1 hvote).2.1 (hanswered ▸ hu)
  subset := by
    intro vote hvote
    rcases List.mem_append.1 hvote with hvote | hvote
    · exact hof.subset vote hvote
    · exact (mem_finished.1 hvote).1
  holds := by
    intro vote hvote
    rcases List.mem_append.1 hvote with hvote | hvote
    · exact hof.holds vote hvote
    · exact hknown vote hvote

/-- What an outcome says of the reports that the UBots are known to give, and of their queries. -/
def Outcome.Justified (c : Session U S B K) (known : U → Option S) (rejecting : Prop) : Outcome U S K → Prop
  | .returned state => c.quorum ≤
      c.pool.countP fun u => (known u).map c.groupKey = some (c.groupKey state)
  | .consensusCantBeReached _ => ∀ final : U → S,
      (∀ u ∈ c.pool, ∀ state, known u = some state → final u = state) →
        ∀ k, (c.pool.countP fun u => (some (final u)).map c.groupKey = some k) < c.quorum
  | .thrown => rejecting
  | .goesOn _ => (c.pool = [] ∨ ∃ u ∈ c.pool, known u = none) ∧
      (0 < c.quorum → ∀ k, (c.pool.countP fun u => (known u).map c.groupKey = some k) < c.quorum)

omit [DecidableEq U] in
/-- Hopeless reports stay so, whatever the others report. -/
theorem Hopeless.lt_quorum (h : Hopeless c votes) (hof : Of c.pool known votes) (k : K) :
    (c.pool.countP fun u => (known u).map c.groupKey = some k) < c.quorum := by
  have hle := @Of.le_count_add _ _ _ _ c.groupKey _ _ _ hof k
  by_cases hk : ∃ vote ∈ votes, c.groupKey vote.2 = k
  · obtain ⟨vote, hvote, rfl⟩ := hk
    exact Nat.lt_of_le_of_lt hle (h.short vote hvote)
  · -- a state that nobody has reported: the outstanding alone are fewer than with a report
    have hzero : count c.groupKey votes k = 0 := by
      rw [count, List.countP_eq_zero]
      intro vote hvote
      simpa using fun heq => hk ⟨vote, hvote, heq⟩
    obtain ⟨vote, hvote⟩ := List.exists_mem_of_ne_nil _ h.ne_nil
    have := h.short vote hvote
    omega

/-- Where no round follows, not all of the pool has reported, or nobody is in it, and no state has a quorum. -/
theorem Tallied.goesOn_justified (h : Tallied c g votes) (hof : Of c.pool known votes)
    (hnone : ∀ u ∈ c.pool, u ∉ votes.map Prod.fst → known u = none) :
    (Outcome.goesOn g).Justified c known rejecting := by
  refine ⟨?_, fun hquorum k => ?_⟩
  swap
  · refine Nat.lt_of_le_of_lt (hof.le_count c.pool_nodup hnone k) ?_
    by_cases hnil : votes = []
    · rwa [hnil, count_nil]
    · exact h.below hnil k
  by_cases hpool : c.pool = []
  · exact .inl hpool
  refine .inr ?_
  by_contra hall
  push Not at hall
  -- then the whole pool has been counted, and something was decided
  have hsub : c.pool ⊆ votes.map Prod.fst := by
    intro u hu
    by_contra hnew
    exact hall u hu (hnone u hu hnew)
  have hlen := (List.subperm_of_subset c.pool_nodup hsub).length_le
  rw [List.length_map] at hlen
  have hne : votes ≠ [] := by
    rintro rfl
    exact hpool (List.length_eq_zero_iff.1 (Nat.le_zero.1 hlen))
  have := h.incomplete hne
  omega

/-- The rounds, from what was gathered before: `known` is what the UBots have reported before or report
    in these rounds. -/
theorem rounds_justified : ∀ (n : ℕ) (answers : ℕ → U → StateAnswer S) (g : Gathered U S K)
    (votes : List (U × S)), Tallied c g votes → g.answered = votes.map Prod.fst →
      Of c.pool known votes →
      (∀ u ∈ c.pool, u ∉ g.answered → known u = reported u n answers) →
      (∀ u ∈ c.pool, u ∉ g.answered → rejected u n answers = true → rejecting) →
        (c.rounds n answers g).Justified c known rejecting
  | 0, answers, g, votes, htallied, hanswered, hof, hknown, _ => by
      rw [Session.rounds]
      exact htallied.goesOn_justified hof fun u hu hnew => hknown u hu (hanswered ▸ hnew)
  | n + 1, answers, g, votes, htallied, hanswered, hof, hknown, hrejecting => by
      rw [Session.rounds, Session.round]
      by_cases hrejects : c.rejects (answers 0) g = true
      · rw [if_pos hrejects]
        obtain ⟨u, ⟨hu, hnew⟩, herror⟩ := exists_error hrejects
        refine hrejecting u hu hnew ?_
        rw [rejected, herror]
      rw [if_neg hrejects]
      have hof' : Of c.pool known (votes ++ c.finished (answers 0) g) := by
        refine of_finished hanswered hof fun vote hvote => ?_
        obtain ⟨hpool, hnew, hfinal⟩ := mem_finished.1 hvote
        rw [hknown _ hpool hnew, reported, hfinal]
      have hsound := countStates_sound (c.finished (answers 0) g) votes
        { g with answered := g.answered ++ (c.finished (answers 0) g).map Prod.fst }
        ⟨htallied.states, htallied.groups, htallied.below, htallied.incomplete⟩ hof'.length_le
      dsimp only at hsound ⊢
      revert hsound
      cases c.countStates ((c.finished (answers 0) g).map Prod.snd)
        { g with answered := g.answered ++ (c.finished (answers 0) g).map Prod.fst } with
      | returned state => exact fun hsound => Nat.le_trans hsound (hof'.count_le _)
      | consensusCantBeReached states =>
          rintro ⟨counted, hprefix, hhopeless⟩ final hfinal k
          exact hhopeless.lt_quorum ((hof'.initial hprefix).total hfinal) k
      | thrown => exact False.elim
      | goesOn g' =>
          rintro ⟨hanswered', htallied'⟩
          dsimp only at hanswered' ⊢
          have hopen : ∀ u ∈ c.pool, u ∉ g'.answered → u ∉ g.answered ∧ ∀ state, answers 0 u ≠ .final state := by
            intro u hu hnew
            rw [hanswered', List.mem_append, not_or] at hnew
            refine ⟨hnew.1, fun state hanswer => hnew.2 ?_⟩
            exact List.mem_map.2 ⟨(u, state), mem_finished.2 ⟨hu, hnew.1, hanswer⟩, rfl⟩
          refine rounds_justified n (fun i => answers (i + 1)) g' _ htallied' ?_ hof' ?_ ?_
          · rw [hanswered', hanswered, List.map_append]
          · intro u hu hnew
            obtain ⟨hnew, hfinal⟩ := hopen u hu hnew
            have hreported := hknown u hu hnew
            rw [reported] at hreported
            cases hanswer : answers 0 u with
            | final state => exact absurd hanswer (hfinal state)
            | canContinue => rwa [hanswer] at hreported
            | error => rwa [hanswer] at hreported
          · intro u hu hnew hrejected
            obtain ⟨hnew, hfinal⟩ := hopen u hu hnew
            refine hrejecting u hu hnew ?_
            rw [rejected]
            cases hanswer : answers 0 u with
            | final state => exact absurd hanswer (hfinal state)
            | canContinue => exact hrejected
            | error => rfl

end rounds

/-- CORRECT (cloud method): what is returned has a quorum of the pool behind it, a quorum is given up
    only where no answers could bring it, the whole pool's answers decide, and so does a quorum of them. -/
theorem executeCloudMethod_hasQuorum [DecidableEq B] (c : Session U S B K) (n : ℕ)
    (answers : ℕ → U → StateAnswer S) : c.HasQuorum n answers (c.executeCloudMethod n answers) := by
  by_cases hpool : c.pool = []
  · have hthrown : c.executeCloudMethod n answers = .thrown := by simp [Session.executeCloudMethod, hpool]
    rw [hthrown]
    refine ⟨by simp, by simp, by simp, fun _ => .inl hpool, fun _ hquorum state hle => ?_⟩
    simp [Session.agreeing, hpool] at hle
    omega
  have hjustified : (c.executeCloudMethod n answers).Justified c (reported · n answers)
      (∃ u ∈ c.pool, rejected u n answers = true) := by
    have hne : c.pool.isEmpty = false := by simpa using hpool
    rw [Session.executeCloudMethod, hne]
    refine rounds_justified n answers .start [] ?_ rfl ?_ (fun _ _ _ => rfl) fun u hu _ h => ⟨u, hu, h⟩
    · exact ⟨rfl, fun _ => by simp [Gathered.start], by simp, by simp⟩
    · exact ⟨List.nodup_nil, by simp, by simp⟩
  have hagreeing (known : U → Option S) (state : S) : (c.agreeing known state).length =
      c.pool.countP fun u => (known u).map c.groupKey = some (c.groupKey state) := by
    rw [Session.agreeing, List.countP_eq_length_filter]
    congr 2
    funext u
    cases known u <;> simp [Session.groupKey, c.hashOf_injective.eq_iff]
  refine ⟨fun state hout => ?_, fun states hout final hfinal state => ?_, fun hall g hout => ?_, fun hout => ?_,
    fun hquiet hquorum state hle => ?_⟩
  · rw [hout] at hjustified
    rw [hagreeing]
    exact hjustified
  · rw [hout] at hjustified
    rw [hagreeing]
    exact hjustified final hfinal _
  · rw [hout] at hjustified
    rcases hjustified.1 with hnil | ⟨u, hu, hnone⟩
    · exact hpool hnil
    · simpa [hnone] using hall u hu
  · rw [hout] at hjustified
    exact .inr hjustified
  · rw [hagreeing] at hle
    cases hout : c.executeCloudMethod n answers with
    | returned state' => exact ⟨state', rfl⟩
    | thrown =>
        rw [hout] at hjustified
        obtain ⟨u, hu, hrejected⟩ := hjustified
        exact absurd (hquiet u hu) (by simp [hrejected])
    | goesOn g =>
        rw [hout] at hjustified
        exact absurd hle (Nat.not_le.2 (hjustified.2 hquorum _))
    | consensusCantBeReached states =>
        -- the reports there are, with any state for the others, would be a quorum
        rw [hout] at hjustified
        have hshort := hjustified (fun u => (reported u n answers).getD state)
          (fun u _ s hs => by rw [show reported u n answers = some s from hs, Option.getD_some]) (c.groupKey state)
        refine absurd (Nat.le_trans hle (List.countP_mono_left fun u _ hu => ?_)) (Nat.not_le.2 hshort)
        cases hreported : reported u n answers with
        | none => simp
        | some s => simpa [hreported] using hu

theorem threeUbots_nodup : [0, 1, 2].Nodup := by decide

/-- A pool of three, with a quorum of two; the bytes of a state stand for their hash. -/
def threeUbots : Session ℕ ℕ (List ℕ) (List ℕ) where
  pool := [0, 1, 2]
  pool_nodup := threeUbots_nodup
  quorum := 2
  serialize state := [state]
  hashOf bytes := bytes
  hashOf_injective := Function.injective_id

/-- The first UBot finishes at once, the second with another state; the third agrees with the first. -/
theorem executeCloudMethod_three : ∃ state, threeUbots.executeCloudMethod 3
    (fun round ubotNumber => if round < ubotNumber then .canContinue else .final (ubotNumber % 2)) =
      .returned state := by
  exact (executeCloudMethod_hasQuorum threeUbots 3 _).returns (by decide) (by decide) 0 (by decide)

end Universa.Ubot.CloudMethod
