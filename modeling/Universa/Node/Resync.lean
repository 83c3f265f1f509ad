import Mathlib.Algebra.Order.Ring.Rat
import Mathlib.Data.Finset.Card
import Mathlib.Data.Rat.Floor
import Universa.Lib.Run
import Universa.Node.StateRecord

/-! Resync of an item (`ResyncingItem`): the votes of the nodes, and the commit of the state that they
    agree on. `N` are the nodes.

    A run is a list of actions: a vote, the executors that are scheduled one from another, the answers of
    the ledger to what the commit awaits, the timeout, and a change of the ledger's record by others. -/

namespace Universa.Node

inductive ResyncingItemProcessingState where
  | WAIT_FOR_VOTES
  | PENDING_TO_COMMIT
  | IS_COMMITTING
  | COMMIT_SUCCESSFUL
  | COMMIT_FAILED
  deriving DecidableEq

/-- How far the commit has come: scheduled, begun, with the times of the item, with a record whose save
    is awaited, over. -/
inductive Commit (H : Type) where
  | none
  | scheduled (committingState : ItemState)
  | begun (committingState : ItemState)
  | timed (committingState : ItemState) (createdAt expiresAt : ℤ)
  | saving (committingState : ItemState) (record : StateRecord H)
  | done (committingState : ItemState)

/-- `ResyncingItem`, with the commit, how many were fired, and the ledger's row of the item. -/
structure ResyncingItem (N H : Type) where
  resyncingState : ResyncingItemProcessingState
  resyncNodes : ItemState → Finset N
  record : Option (StateRecord H)
  commit : Commit H
  fired : ℕ
  ledger : Option (StateRecord H)

/-- The consensus numbers of the node's config. -/
structure ResyncConfig where
  positiveConsensus : ℕ
  resyncBreakConsensus : ℕ

/-! ### Times -/

/-- `Map.set`: a key that is there keeps its place. -/
def setCluster (ts : ℚ) (items : ℕ) : List (ℚ × ℕ) → List (ℚ × ℕ)
  | [] => [(ts, items)]
  | c :: cs => if c.1 = ts then (ts, items) :: cs else c :: setCluster ts items cs

/-- One more time: it joins the clusters that are near it. -/
def addToClusters (clusters : List (ℚ × ℕ)) (ts : ℤ) : List (ℚ × ℕ) :=
  let near (c : ℚ × ℕ) : Bool := decide (|c.1 - ts| < Config.maxElectionsTime)
  let list := clusters.filter near
  if list.isEmpty then setCluster ts 1 clusters
  else
    let items := 1 + (list.map (·.2)).sum
    let summ : ℚ := ts + (list.map fun c => c.1 * (c.2 : ℚ)).sum
    setCluster (summ / items) items (clusters.filter fun c => !near c)

/-- The time of the first of the largest clusters, or 0. -/
def largestCluster (clusters : List (ℚ × ℕ)) : ℚ :=
  (clusters.foldl (fun (best : ℚ × ℕ) c => if best.2 < c.2 then c else best) (0, 0)).1

/-- The time in milliseconds that the nodes' times in milliseconds come to. -/
def clusteredTime (times : List ℤ) : ℤ :=
  ⌊largestCluster ((times.map fun time => time / 1000).foldl addToClusters [])⌋ * 1000

namespace ResyncingItem
variable {N H : Type} [DecidableEq N]

/-! ### Votes -/

/-- `isResyncPollingFinished()`. -/
def isResyncPollingFinished (s : ResyncingItem N H) : Bool :=
  decide (s.resyncingState ≠ .WAIT_FOR_VOTES)

/-- The node moves to the set of a state, out of the others. -/
def moveNode (s : ResyncingItem N H) (node : N) (state : ItemState) : ResyncingItem N H :=
  { s with
    resyncNodes := fun is =>
      if is = state then insert node (s.resyncNodes is) else (s.resyncNodes is).erase node }

/-- The consensus that the sets have come to. -/
def consensus (config : ResyncConfig) (s : ResyncingItem N H) : Option ItemState :=
  if config.positiveConsensus ≤ (s.resyncNodes .REVOKED).card then some .REVOKED
  else if config.positiveConsensus ≤ (s.resyncNodes .DECLINED).card then some .DECLINED
  else if config.positiveConsensus ≤ (s.resyncNodes .APPROVED).card then some .APPROVED
  else if config.resyncBreakConsensus ≤ (s.resyncNodes .UNDEFINED).card then some .UNDEFINED
  else none

/-- `resyncVote(node, state)`: it schedules the commit when a consensus is there. -/
def resyncVote (config : ResyncConfig) (s : ResyncingItem N H) (node : N) (state : ItemState) :
    ResyncingItem N H :=
  let s := s.moveNode node (if state = .LOCKED then .APPROVED else state)
  if s.isResyncPollingFinished then s
  else match s.consensus config with
    | none => s
    | some committingState =>
        { s with
          resyncingState := .PENDING_TO_COMMIT
          commit := .scheduled committingState
          fired := s.fired + 1 }

/-! ### The commit -/

/-- The operation on the record, with `force`; the other states change nothing. -/
def commitRecord (committingState : ItemState) (now expiresAt : ℤ) (r : StateRecord H) :
    Except LedgerError (StateRecord H) :=
  match committingState with
  | .APPROVED => r.approve (some expiresAt) true
  | .DECLINED => r.decline now true
  | .REVOKED => r.revoke now true
  | _ => .ok r

/-- The end of the commit, also after an exception: it is caught before. -/
def succeed (s : ResyncingItem N H) (committingState : ItemState) : ResyncingItem N H :=
  { s with resyncingState := .COMMIT_SUCCESSFUL, commit := .done committingState }

/-- The commit has the record that `findOrCreate` answers. -/
def write (s : ResyncingItem N H) (committingState : ItemState) (createdAt expiresAt now : ℤ)
    (r : StateRecord H) : ResyncingItem N H :=
  let r := { r with createdAt := createdAt, expiresAt := expiresAt }
  match commitRecord committingState now expiresAt r with
  | .error _ => { s with record := some r }.succeed committingState
  | .ok r' => { s with record := some r', commit := .saving committingState r' }

/-- `UPDATE ledger ... WHERE id = ?`. -/
def update (r : StateRecord H) (row : Option (StateRecord H)) : Option (StateRecord H) :=
  row.map fun old => if old.recordId = r.recordId then { r with isJustCreated := false } else old

/-- What `findOrCreate` comes to: no record, the row of the ledger, or a new row. -/
inductive Found (H : Type) where
  | failed
  | row
  | created (r : StateRecord H)

/-- What can happen to a resync. -/
inductive Action (N H : Type) where
  | vote (node : N) (state : ItemState)
  | resyncAndCommit
  | askNodes (times : List (ℤ × ℤ))
  | findOrCreate (found : Found H) (now : ℤ)
  | saved (success : Bool)
  | closeByTimeout
  | ledgerChanges (row : Option (StateRecord H))

/-- One action, where it can happen. The ledger's record belongs to the resync once it has reported
    success. -/
def step (config : ResyncConfig) (s : ResyncingItem N H) : Action N H → Option (ResyncingItem N H)
  | .vote node state => some (s.resyncVote config node state)
  | .resyncAndCommit =>
      match s.commit with
      | .scheduled st => some { s with resyncingState := .IS_COMMITTING, commit := .begun st }
      | _ => none
  | .askNodes times =>
      match s.commit with
      | .begun st =>
          if st.isConsensusFound then
            -- the times of those nodes of the local set that answered
            if times.length ≤ (s.resyncNodes st).card then
              some { s with
                commit := .timed st (clusteredTime (times.map (·.1))) (clusteredTime (times.map (·.2))) }
            else none
          else some { s with resyncingState := .COMMIT_FAILED, commit := .done st }
      | _ => none
  | .findOrCreate found now =>
      match s.commit with
      | .timed st createdAt expiresAt =>
          match found, s.ledger with
          | .failed, _ => some ({ s with record := none }.succeed st)
          | .row, some r => some (s.write st createdAt expiresAt now r)
          | .created r, none =>
              if r.state = .PENDING then
                some ({ s with ledger := some r }.write st createdAt expiresAt now r)
              else none
          | _, _ => none
      | _ => none
  | .saved success =>
      match s.commit with
      | .saving st r =>
          some ({ s with ledger := if success then update r s.ledger else s.ledger }.succeed st)
      | _ => none
  | .closeByTimeout => some { s with resyncingState := .COMMIT_FAILED }
  | .ledgerChanges row =>
      if s.resyncingState = .COMMIT_SUCCESSFUL then none else some { s with ledger := row }

/-- A resync with the ledger's record of the item. -/
def start (record : Option (StateRecord H)) : ResyncingItem N H where
  resyncingState := .WAIT_FOR_VOTES
  resyncNodes _ := ∅
  record := record
  commit := .none
  fired := 0
  ledger := record

/-! ### What is to hold, and the condition -/

/-- Every node is in one set at most, one commit at most was fired, and where success is reported the
    ledger's record has the state that was committed. -/
structure WritesWhatItReports (s : ResyncingItem N H) : Prop where
  one : ∀ node a b, node ∈ s.resyncNodes a → node ∈ s.resyncNodes b → a = b
  fired : s.fired ≤ 1
  written : s.resyncingState = .COMMIT_SUCCESSFUL → ∃ st row, s.commit = .done st ∧
    st.isConsensusFound = true ∧ s.ledger = some row ∧ row.state = st

/-- The states from which the operation of a commit does not throw. -/
def accepts (committingState state : ItemState) : Bool :=
  match committingState with
  | .APPROVED =>
      state.isPending || decide (state ∈ [.LOCKED_FOR_CREATION, .UNDEFINED, .LOCKED, .APPROVED])
  | .DECLINED => state.isPending || decide (state = .UNDEFINED)
  | .REVOKED =>
      state.isPending ||
        decide (state ∈ [.LOCKED, .LOCKED_FOR_CREATION_REVOKED, .UNDEFINED, .APPROVED])
  | _ => false

/-- The ledger's row has the state that is committed. -/
def Has (row : Option (StateRecord H)) (st : ItemState) : Prop := ∃ r, row = some r ∧ r.state = st

/-- A record is found, or created, from which the commit's operation does not throw, and the save
    succeeds on a row that is still there; or the row has the state anyway. -/
def Fits (s : ResyncingItem N H) : Action N H → Prop
  | .findOrCreate found _ => ∀ st createdAt expiresAt, s.commit = .timed st createdAt expiresAt →
      Has s.ledger st ∨ match found with
        | .failed => False
        | .row => ∀ r, s.ledger = some r → accepts st r.state = true
        | .created _ => True
  | .saved success => ∀ st r, s.commit = .saving st r →
      Has s.ledger st ∨ success = true ∧ ∃ row, s.ledger = some row ∧ row.recordId = r.recordId
  | _ => True

/-! ### Commits -/

/-- The states that a consensus with a commit comes to. -/
def Committing (st : ItemState) : Prop := st = .APPROVED ∨ st = .DECLINED ∨ st = .REVOKED

omit [DecidableEq N] in
theorem Committing.isConsensusFound {st : ItemState} (h : Committing st) :
    st.isConsensusFound = true := by
  rcases h with rfl | rfl | rfl <;> rfl

omit [DecidableEq N] in
/-- The operation makes the committed state of the record, or throws. -/
theorem commitRecord_ok {st : ItemState} (hst : Committing st) {now expiresAt : ℤ}
    {r r' : StateRecord H} (h : commitRecord st now expiresAt r = .ok r') :
    r'.state = st ∧ r'.recordId = r.recordId := by
  rcases hst with rfl | rfl | rfl
  · simp only [commitRecord, StateRecord.approve] at h
    split at h
    next =>
      obtain rfl := Except.ok.inj h
      exact ⟨rfl, rfl⟩
    next => cases h
  · simp only [commitRecord, StateRecord.decline] at h
    split at h
    next =>
      obtain rfl := Except.ok.inj h
      exact ⟨rfl, rfl⟩
    next => cases h
  · simp only [commitRecord, StateRecord.revoke] at h
    split at h
    next =>
      obtain rfl := Except.ok.inj h
      exact ⟨rfl, rfl⟩
    next => cases h

omit [DecidableEq N] in
theorem commitRecord_accepts {st : ItemState} {r : StateRecord H} (now expiresAt : ℤ)
    (h : accepts st r.state = true) : ∃ r', commitRecord st now expiresAt r = .ok r' := by
  cases st with
  | APPROVED =>
      rw [commitRecord, StateRecord.approve, if_pos]
      · exact ⟨_, rfl⟩
      · simp only [accepts, Bool.or_eq_true, decide_eq_true_eq, List.mem_cons, List.not_mem_nil] at h
        tauto
  | DECLINED =>
      rw [commitRecord, StateRecord.decline, if_pos]
      · exact ⟨_, rfl⟩
      · simp only [accepts, Bool.or_eq_true, decide_eq_true_eq] at h
        tauto
  | REVOKED =>
      rw [commitRecord, StateRecord.revoke, if_pos]
      · exact ⟨_, rfl⟩
      · simp only [accepts, Bool.or_eq_true, decide_eq_true_eq, List.mem_cons, List.not_mem_nil] at h
        tauto
  | UNDEFINED | PENDING | PENDING_POSITIVE | PENDING_NEGATIVE | LOCKED | DISCARDED
  | LOCKED_FOR_CREATION | LOCKED_FOR_CREATION_REVOKED => cases h

/-! ### The invariant -/

variable {config : ResyncConfig} {s s' : ResyncingItem N H} {node : N} {state st : ItemState}

/-- What the commit has come to fits the votes: nothing is fired while votes are waited for, a record
    that is saved has the state, and a success has left it in the ledger. -/
def CommitFits (s : ResyncingItem N H) : Prop :=
  match s.commit with
  | .none => s.fired = 0 ∧ s.resyncingState ≠ .COMMIT_SUCCESSFUL
  | .scheduled st => (Committing st ∨ st = .UNDEFINED) ∧ s.resyncingState ≠ .COMMIT_SUCCESSFUL
  | .begun st => (Committing st ∨ st = .UNDEFINED) ∧ s.resyncingState ≠ .COMMIT_SUCCESSFUL
  | .timed st _ _ => Committing st ∧ s.resyncingState ≠ .COMMIT_SUCCESSFUL
  | .saving st r => Committing st ∧ r.state = st ∧ s.resyncingState ≠ .COMMIT_SUCCESSFUL
  | .done st => s.resyncingState = .COMMIT_SUCCESSFUL → Committing st ∧ Has s.ledger st

structure Inv (s : ResyncingItem N H) : Prop where
  one : ∀ node a b, node ∈ s.resyncNodes a → node ∈ s.resyncNodes b → a = b
  waits : s.resyncingState = .WAIT_FOR_VOTES → s.commit = .none
  fired : s.fired ≤ 1
  fits : CommitFits s

/-- A node that votes is in one set at most. -/
theorem one_moveNode (h : ∀ node a b, node ∈ s.resyncNodes a → node ∈ s.resyncNodes b → a = b) :
    ∀ node' a b, node' ∈ (s.moveNode node state).resyncNodes a →
      node' ∈ (s.moveNode node state).resyncNodes b → a = b := by
  intro node' a b ha hb
  by_cases hne : node' = node
  · subst hne
    have hin : ∀ c, node' ∈ (s.moveNode node' state).resyncNodes c → c = state := by
      intro c hc
      by_contra hcs
      simp [moveNode, hcs] at hc
    rw [hin a ha, hin b hb]
  · have hin : ∀ c, node' ∈ (s.moveNode node state).resyncNodes c → node' ∈ s.resyncNodes c := by
      intro c hc
      by_cases hcs : c = state
      · simpa [moveNode, hcs, hne] using hc
      · simpa [moveNode, hcs, hne] using hc
    exact h node' a b (hin a ha) (hin b hb)

omit [DecidableEq N] in
theorem consensus_committing (h : s.consensus config = some st) : Committing st ∨ st = .UNDEFINED := by
  unfold consensus at h
  split at h
  next => exact .inl (.inr (.inr (Option.some.inj h).symm))
  next =>
    split at h
    next => exact .inl (.inr (.inl (Option.some.inj h).symm))
    next =>
      split at h
      next => exact .inl (.inl (Option.some.inj h).symm)
      next =>
        split at h
        next => exact .inr (Option.some.inj h).symm
        next => cases h

theorem Inv.resyncVote (h : Inv s) : Inv (s.resyncVote config node state) := by
  have hmoved : Inv (s.moveNode node (if state = .LOCKED then .APPROVED else state)) :=
    ⟨one_moveNode h.one, h.waits, h.fired, h.fits⟩
  unfold ResyncingItem.resyncVote
  simp only
  generalize s.moveNode node (if state = .LOCKED then .APPROVED else state) = s₁ at hmoved ⊢
  split
  next => exact hmoved
  next hpolling =>
    have hnone := hmoved.waits (by simpa [isResyncPollingFinished] using hpolling)
    have hfits := hmoved.fits
    unfold CommitFits at hfits
    rw [hnone] at hfits
    cases hc : s₁.consensus config with
    | none => exact hmoved
    | some st => exact ⟨hmoved.one, nofun, by simp [hfits.1], consensus_committing hc, nofun⟩

omit [DecidableEq N] in
/-- The record is written, or the exception is caught and the row has the state anyway. -/
theorem Inv.write (h : Inv s) (hst : Committing st) {createdAt expiresAt now : ℤ} {r : StateRecord H}
    (hstate : s.resyncingState ≠ .COMMIT_SUCCESSFUL) (hwaits : s.resyncingState ≠ .WAIT_FOR_VOTES)
    (hfits : Has s.ledger st ∨ accepts st r.state = true) :
    Inv (s.write st createdAt expiresAt now r) := by
  unfold ResyncingItem.write
  simp only
  cases hc : commitRecord st now expiresAt { r with createdAt := createdAt, expiresAt := expiresAt } with
  | error e =>
      have hhas : Has s.ledger st := by
        rcases hfits with hhas | haccepts
        · exact hhas
        · obtain ⟨r', hr'⟩ := commitRecord_accepts now expiresAt
            (r := { r with createdAt := createdAt, expiresAt := expiresAt }) haccepts
          rw [hc] at hr'
          cases hr'
      exact ⟨h.one, nofun, h.fired, fun _ => ⟨hst, hhas⟩⟩
  | ok r' =>
      obtain ⟨hr', -⟩ := commitRecord_ok hst hc
      exact ⟨h.one, fun hw => absurd hw hwaits, h.fired, hst, hr', hstate⟩

theorem step_inv (s : ResyncingItem N H) (a : Action N H) (s' : ResyncingItem N H) (h : Inv s)
    (hok : Fits s a) (hstep : step config s a = some s') : Inv s' := by
  have hfits := h.fits
  unfold CommitFits at hfits
  cases a with
  | vote node state =>
      obtain rfl := Option.some.inj hstep
      exact h.resyncVote
  | resyncAndCommit =>
      cases hc : s.commit with
      | scheduled st =>
          simp only [step, hc] at hstep hfits
          obtain rfl := Option.some.inj hstep
          exact ⟨h.one, nofun, h.fired, hfits.1, nofun⟩
      | none | begun | timed | saving | done => simp [step, hc] at hstep
  | askNodes times =>
      cases hc : s.commit with
      | begun st =>
          simp only [step, hc] at hstep hfits
          split at hstep
          next hfound =>
            split at hstep
            next =>
              obtain rfl := Option.some.inj hstep
              have hst : Committing st := hfits.1.resolve_right fun hu => by
                rw [hu] at hfound
                cases hfound
              exact ⟨h.one, fun hw => by simpa [hc] using h.waits hw, h.fired, hst, hfits.2⟩
            next => cases hstep
          next =>
            obtain rfl := Option.some.inj hstep
            exact ⟨h.one, nofun, h.fired, nofun⟩
      | none | scheduled | timed | saving | done => simp [step, hc] at hstep
  | findOrCreate found now =>
      cases hc : s.commit with
      | timed st createdAt expiresAt =>
          have hwaits : s.resyncingState ≠ .WAIT_FOR_VOTES := fun hw => by
            simpa [hc] using h.waits hw
          have hok := hok st createdAt expiresAt hc
          rw [hc] at hfits
          cases found with
          | failed =>
              simp only [step, hc] at hstep
              obtain rfl := Option.some.inj hstep
              exact ⟨h.one, nofun, h.fired, fun _ => ⟨hfits.1, hok.resolve_right id⟩⟩
          | row =>
              cases hl : s.ledger with
              | none => simp [step, hc, hl] at hstep
              | some r =>
                  simp only [step, hc, hl] at hstep
                  obtain rfl := Option.some.inj hstep
                  exact h.write hfits.1 hfits.2 hwaits (hok.imp_right fun hrow => hrow r hl)
          | created r =>
              cases hl : s.ledger with
              | some r => simp [step, hc, hl] at hstep
              | none =>
                  simp only [step, hc, hl, Option.ite_none_right_eq_some, Option.some.injEq] at hstep
                  obtain ⟨hpending, rfl⟩ := hstep
                  have hcreated : Inv { s with ledger := some r } := by
                    refine ⟨h.one, h.waits, h.fired, ?_⟩
                    unfold CommitFits
                    rw [hc]
                    exact hfits
                  refine hcreated.write hfits.1 hfits.2 hwaits (.inr ?_)
                  rcases hfits.1 with rfl | rfl | rfl <;> simp [accepts, hpending, ItemState.isPending]
      | none | scheduled | begun | saving | done => simp [step, hc] at hstep
  | saved success =>
      cases hc : s.commit with
      | saving st r =>
          have hok := hok st r hc
          simp only [step, hc] at hstep hfits
          obtain rfl := Option.some.inj hstep
          refine ⟨h.one, nofun, h.fired, fun _ => ⟨hfits.1, ?_⟩⟩
          cases success with
          | false => exact hok.resolve_right nofun
          | true =>
              cases hl : s.ledger with
              | none =>
                  rcases hok with ⟨row, hrow, -⟩ | ⟨-, row, hrow, -⟩
                  · rw [hl] at hrow
                    cases hrow
                  · rw [hl] at hrow
                    cases hrow
              | some row =>
                  simp only [succeed, update, Option.map_some, if_true]
                  split
                  next => exact ⟨_, rfl, hfits.2.1⟩
                  next hother =>
                    refine ⟨row, rfl, ?_⟩
                    rcases hok with ⟨row', hrow, hst⟩ | ⟨-, row', hrow, hid⟩
                    · rw [hl] at hrow
                      obtain rfl := Option.some.inj hrow
                      exact hst
                    · rw [hl] at hrow
                      obtain rfl := Option.some.inj hrow
                      exact absurd hid hother
      | none | scheduled | begun | timed | done => simp [step, hc] at hstep
  | closeByTimeout =>
      obtain rfl := Option.some.inj hstep
      refine ⟨h.one, nofun, h.fired, ?_⟩
      unfold CommitFits
      cases hc : s.commit with
      | none =>
          rw [hc] at hfits
          exact ⟨hfits.1, nofun⟩
      | scheduled st =>
          rw [hc] at hfits
          exact ⟨hfits.1, nofun⟩
      | begun st =>
          rw [hc] at hfits
          exact ⟨hfits.1, nofun⟩
      | timed st createdAt expiresAt =>
          rw [hc] at hfits
          exact ⟨hfits.1, nofun⟩
      | saving st r =>
          rw [hc] at hfits
          exact ⟨hfits.1, hfits.2.1, nofun⟩
      | done st => exact nofun
  | ledgerChanges row =>
      simp only [step, Option.ite_none_left_eq_some, Option.some.injEq] at hstep
      obtain ⟨hstate, rfl⟩ := hstep
      refine ⟨h.one, h.waits, h.fired, ?_⟩
      unfold CommitFits
      cases hc : s.commit with
      | none | scheduled | begun | timed | saving =>
          rw [hc] at hfits
          exact hfits
      | done st => exact fun hsuccess => absurd hsuccess hstate

omit [DecidableEq N] in
theorem start_inv (record : Option (StateRecord H)) : Inv (start record : ResyncingItem N H) :=
  ⟨fun _ _ _ hn => by simp [start] at hn, fun _ => rfl, Nat.zero_le 1, rfl, nofun⟩

omit [DecidableEq N] in
theorem Inv.writes (h : Inv s) : WritesWhatItReports s where
  one := h.one
  fired := h.fired
  written hsuccess := by
    have hfits := h.fits
    unfold CommitFits at hfits
    cases hc : s.commit with
    | none =>
        rw [hc] at hfits
        exact absurd hsuccess hfits.2
    | scheduled st =>
        rw [hc] at hfits
        exact absurd hsuccess hfits.2
    | begun st =>
        rw [hc] at hfits
        exact absurd hsuccess hfits.2
    | timed st createdAt expiresAt =>
        rw [hc] at hfits
        exact absurd hsuccess hfits.2
    | saving st r =>
        rw [hc] at hfits
        exact absurd hsuccess hfits.2.2
    | done st =>
        rw [hc] at hfits
        obtain ⟨hst, row, hrow, hstate⟩ := hfits hsuccess
        exact ⟨st, row, rfl, hst.isConsensusFound, hrow, hstate⟩

/-! ### The main results -/

/-- CODE DEFECT (resync): in every run whose steps all meet the condition the resync writes what it
    reports. -/
theorem resync_writes (config : ResyncConfig) (record : Option (StateRecord H))
    (as : List (Action N H)) {s : ResyncingItem N H}
    (hok : Run.Meets (step config) Fits (start record) as)
    (hrun : Run.run (step config) (start record) as = some s) : WritesWhatItReports s :=
  (Run.invariant step_inv (start_inv record) hok hrun).writes

/-- A record of item 7. -/
def recordIn (state : ItemState) : StateRecord ℕ := ⟨1, 0, 7, state, 0, 1000, false⟩

/-- Both nodes approve, and the commit runs to its end. -/
def approveRun : List (Action Bool ℕ) :=
  [.vote false .APPROVED, .vote true .APPROVED, .resyncAndCommit, .askNodes [],
    .findOrCreate .row 0]

theorem resync_writes_pending : ∃ s : ResyncingItem Bool ℕ,
    Run.run (step ⟨2, 1⟩) (start (some (recordIn .PENDING))) (approveRun ++ [.saved true]) = some s ∧
    s.resyncingState = .COMMIT_SUCCESSFUL ∧ WritesWhatItReports s := by
  refine ⟨_, rfl, rfl, resync_writes ⟨2, 1⟩ (some (recordIn .PENDING)) (approveRun ++ [.saved true])
    ?_ rfl⟩
  refine Run.meets_cons trivial rfl (Run.meets_cons trivial rfl (Run.meets_cons trivial rfl
    (Run.meets_cons trivial rfl (Run.meets_cons ?_ rfl (Run.meets_cons ?_ rfl trivial)))))
  · intro st createdAt expiresAt hc
    obtain ⟨rfl, -, -⟩ := Commit.timed.inj hc
    exact .inr fun r hr => Option.some.inj hr ▸ rfl
  · intro st r hc
    obtain ⟨-, rfl⟩ := Commit.saving.inj hc
    exact .inr ⟨rfl, _, rfl, rfl⟩

/-- The ledger has the item declined: approving throws, and success is reported. -/
theorem resync_not_written : ∃ s : ResyncingItem Bool ℕ,
    Run.run (step ⟨2, 1⟩) (start (some (recordIn .DECLINED))) approveRun = some s ∧
    s.resyncingState = .COMMIT_SUCCESSFUL ∧ s.ledger = some (recordIn .DECLINED) ∧
    ¬ WritesWhatItReports s := by
  refine ⟨_, rfl, rfl, rfl, fun h => ?_⟩
  obtain ⟨st, row, hst, -, hrow, hstate⟩ := h.written rfl
  obtain rfl := Commit.done.inj hst
  obtain rfl := Option.some.inj hrow
  cases hstate

end ResyncingItem
end Universa.Node
