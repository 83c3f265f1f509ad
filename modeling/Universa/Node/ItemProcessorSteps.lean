import Mathlib.Data.List.Perm.Basic
import Universa.Node.ItemProcessor

/-! What the steps of an `ItemProcessor` keep. A processor that is processed to consensus and is not committing
    never commits (`Stopped`); a processor whose parcel has not answered yet is in `node.processors` (`Open`). -/

namespace Universa.Node

/-! ### Changes that fire no block -/

/-- The task is on its way to the commit block, or has fired it. -/
def Task.commits : Task → Bool
  | downloadAndCommit | committing | commitFired _ => true
  | _ => false

namespace ItemProcessor
variable {N H : Type} {config : ItemConfig N} {p p' : ItemProcessor N H}

/-- The processor is committing its item, or the parcel has its commit block. -/
def Approving (p : ItemProcessor N H) : Prop :=
  (∃ t ∈ p.tasks, t.commits = true) ∨ p.itemCommitEvent.result = some .commit

/-- The processor will not commit its item any more. -/
structure Stopped (p : ItemProcessor N H) : Prop where
  processed : p.processingState.isProcessedToConsensus = true
  approving : ¬ p.Approving

/-- A change that fires no block and leaves the record, or sets it when it is PENDING. -/
structure Quiet (p p' : ItemProcessor N H) : Prop where
  id : p'.record.id = p.record.id
  record : p'.record.state = p.record.state ∨ p.record.state = .PENDING ∧ p'.record.state.isPending = true
  itemCommitEvent : p'.itemCommitEvent = p.itemCommitEvent
  stopped : p.Stopped → p'.Stopped

/-- The same for a change that leaves the state of the record, with the tasks it adds. -/
structure Moves (p p' : ItemProcessor N H) (new : List Task) : Prop where
  id : p'.record.id = p.record.id
  record : p'.record.state = p.record.state
  itemCommitEvent : p'.itemCommitEvent = p.itemCommitEvent
  tasks : p'.tasks = p.tasks ++ new
  processed : p.processingState.isProcessedToConsensus = true →
    p'.processingState.isProcessedToConsensus = true ∧ ∀ t ∈ new, t.commits = false

theorem Moves.approving {new : List Task} (h : Moves p p' new) (hnew : ∀ t ∈ new, t.commits = false) :
    p'.Approving ↔ p.Approving := by
  unfold Approving
  rw [h.tasks, h.itemCommitEvent]
  refine or_congr_left ⟨?_, fun ⟨t, ht, hc⟩ => ⟨t, List.mem_append_left _ ht, hc⟩⟩
  rintro ⟨t, ht, hc⟩
  rcases List.mem_append.mp ht with ht | ht
  · exact ⟨t, ht, hc⟩
  · simp [hnew t ht] at hc

theorem Moves.quiet {new : List Task} (h : Moves p p' new) : Quiet p p' where
  id := h.id
  record := .inl h.record
  itemCommitEvent := h.itemCommitEvent
  stopped hs := by
    obtain ⟨hprocessed, hnew⟩ := h.processed hs.processed
    exact ⟨hprocessed, fun ha => hs.approving ((h.approving hnew).mp ha)⟩

theorem Quiet.refl (p : ItemProcessor N H) : Quiet p p := ⟨rfl, .inl rfl, rfl, fun hs => hs⟩

theorem Quiet.trans {p'' : ItemProcessor N H} (h : Quiet p p') (h' : Quiet p' p'') : Quiet p p'' where
  id := h'.id.trans h.id
  record := by
    rcases h.record with hr | ⟨hpending, hr⟩
    · rcases h'.record with hr' | ⟨hpending', hr'⟩
      · exact .inl (hr'.trans hr)
      · exact .inr ⟨hr ▸ hpending', hr'⟩
    · rcases h'.record with hr' | ⟨-, hr'⟩
      · exact .inr ⟨hpending, hr' ▸ hr⟩
      · exact .inr ⟨hpending, hr'⟩
  itemCommitEvent := h'.itemCommitEvent.trans h.itemCommitEvent
  stopped hs := h'.stopped (h.stopped hs)

theorem Moves.refl (p : ItemProcessor N H) : Moves p p [] :=
  ⟨rfl, rfl, rfl, (List.append_nil _).symm, fun h => ⟨h, nofun⟩⟩

theorem Moves.trans {p'' : ItemProcessor N H} {new new' : List Task} (h : Moves p p' new)
    (h' : Moves p' p'' new') : Moves p p'' (new ++ new') where
  id := h'.id.trans h.id
  record := h'.record.trans h.record
  itemCommitEvent := h'.itemCommitEvent.trans h.itemCommitEvent
  tasks := by rw [h'.tasks, h.tasks, List.append_assoc]
  processed hp := by
    obtain ⟨hp', hnew⟩ := h.processed hp
    obtain ⟨hp'', hnew'⟩ := h'.processed hp'
    exact ⟨hp'', fun t ht => (List.mem_append.mp ht).elim (hnew t) (hnew' t)⟩

/-- A change of the state to one that is processed to consensus, and of the flags. -/
theorem moves_state {state : ItemProcessingState} {poller checker removed : Bool}
    (h : p.processingState.isProcessedToConsensus = true → state.isProcessedToConsensus = true) :
    Moves p { p with
      processingState := state, poller := poller, consensusReceivedChecker := checker, removed := removed }
      [] :=
  ⟨rfl, rfl, rfl, (List.append_nil _).symm, fun hp => ⟨h hp, nofun⟩⟩

theorem schedule_moves {t : Task}
    (h : p.processingState.isProcessedToConsensus = true → t.commits = false) :
    Moves p (p.schedule t) [t] :=
  ⟨rfl, rfl, rfl, rfl, fun hp => ⟨hp, fun _ ht => List.mem_singleton.mp ht ▸ h hp⟩⟩

theorem removeSelf_moves (p : ItemProcessor N H) : Moves p p.removeSelf [] := by
  unfold removeSelf
  split
  next => exact moves_state fun h => h
  next => exact .refl p

theorem checkIfAllReceivedConsensus_moves (config : ItemConfig N) (p : ItemProcessor N H) :
    Moves p (p.checkIfAllReceivedConsensus config) [] := by
  unfold checkIfAllReceivedConsensus
  split
  next => exact moves_state fun _ => rfl
  next => exact .refl p

theorem pulseSendNewConsensus_moves (p : ItemProcessor N H) : Moves p p.pulseSendNewConsensus [] := by
  unfold pulseSendNewConsensus
  split
  next => exact moves_state fun _ => rfl
  next => exact .refl p

theorem close_moves (config : ItemConfig N) (p : ItemProcessor N H) : Moves p (p.close config) [] := by
  obtain ⟨p₁, hp₁⟩ : ∃ p₁, p₁ = { p with
      processingState := if p.processingState.canContinue then .DONE else p.processingState
      poller := false } := ⟨_, rfl⟩
  have hdone : Moves p p₁ [] := by
    rw [hp₁]
    refine moves_state fun h => ?_
    split
    next => rfl
    next => exact h
  have hclose : p.close config = if p₁.processingState.canContinue then
      if (p₁.checkIfAllReceivedConsensus config).processingState = .DONE then
        (p₁.checkIfAllReceivedConsensus config).pulseSendNewConsensus
      else (p₁.checkIfAllReceivedConsensus config).removeSelf
    else p₁.removeSelf := by
    rw [hp₁]
    rfl
  rw [hclose]
  split
  next =>
    have hall := hdone.trans (checkIfAllReceivedConsensus_moves config p₁)
    split
    next => exact hall.trans (pulseSendNewConsensus_moves _)
    next => exact hall.trans (removeSelf_moves _)
  next => exact hdone.trans (removeSelf_moves _)

/-- An emergency break schedules a rollback at most, and leaves a processor that is done with its votes. -/
theorem emergencyBreak_moves (config : ItemConfig N) (p : ItemProcessor N H) :
    ∃ new, Moves p (p.emergencyBreak config) new ∧ (∀ t ∈ new, t = .rollbackChanges false) ∧
      (p.emergencyBreak config).processingState = .FINISHED := by
  unfold emergencyBreak
  dsimp only
  split
  next =>
    refine ⟨[.rollbackChanges false], ⟨rfl, rfl, rfl, rfl, fun _ => ⟨rfl, ?_⟩⟩, ?_, rfl⟩
    · intro t ht
      rw [List.mem_singleton.mp ht]
      rfl
    · exact fun t ht => List.mem_singleton.mp ht
  next =>
    have hclose := close_moves config { p with
      processingState := .EMERGENCY_BREAK, poller := false, consensusReceivedChecker := false }
    refine ⟨[], ⟨hclose.id, hclose.record, hclose.itemCommitEvent, hclose.tasks, fun _ => ⟨rfl, nofun⟩⟩, nofun, rfl⟩

/-- After an emergency break a processor that was not committing will never commit. -/
theorem emergencyBreak_stopped (config : ItemConfig N) (h : ¬ p.Approving) :
    (p.emergencyBreak config).Stopped := by
  obtain ⟨new, hmoves, hnew, hstate⟩ := emergencyBreak_moves config p
  refine ⟨by rw [hstate]; rfl, fun ha => h ((hmoves.approving fun t ht => ?_).mp ha)⟩
  rw [hnew t ht]
  rfl

theorem poll_quiet (expired : Bool) (p : ItemProcessor N H) :
    Quiet p (p.sendStartPollingNotification expired) := by
  unfold sendStartPollingNotification
  split
  next =>
    have hconsensus : Moves p { p with processingState := .GOT_CONSENSUS, poller := false } [] :=
      moves_state fun _ => rfl
    exact (hconsensus.trans (schedule_moves fun _ => rfl)).quiet
  next => exact .refl p

theorem forceChecking_quiet (force : Bool) (p : ItemProcessor N H) : Quiet p (p.forceChecking force) := by
  have hforce : Moves p { p with isCheckingForce := force } [] := { Moves.refl p with }
  unfold forceChecking
  dsimp only
  split
  next => exact (hforce.trans (schedule_moves fun _ => rfl)).quiet
  next => exact hforce.quiet

/-! ### What the tasks keep -/

theorem checkItem_moves (p : ItemProcessor N H) : ∃ new, Moves p p.checkItem new := by
  unfold checkItem
  split
  next hcheck =>
    exact ⟨[.checking], rfl, rfl, rfl, rfl, fun hp => absurd hp hcheck.2.1⟩
  next => exact ⟨_, .refl p⟩

theorem startResync_moves (ofCheck : Bool) (p : ItemProcessor N H) :
    ∃ new, Moves p (p.startResync ofCheck) new := by
  unfold startResync
  split
  next hresync => exact ⟨[.resyncing ofCheck], rfl, rfl, rfl, rfl, fun hp => absurd hp hresync.2⟩
  next => exact ⟨_, .refl p⟩

theorem onResyncItemFinished_moves (p : ItemProcessor N H) : ∃ new, Moves p p.onResyncItemFinished new := by
  unfold onResyncItemFinished
  split
  next hresync => exact ⟨[.checkSubItems], rfl, rfl, rfl, rfl, fun hp => absurd hp hresync.2⟩
  next => exact ⟨_, .refl p⟩

theorem commitChecked_moves (p : ItemProcessor N H) :
    ∃ new, Moves p p.commitCheckedAndStartPolling new := by
  unfold commitCheckedAndStartPolling
  split
  next hresync =>
    exact ⟨[.commitChecked (!p.itemErrors)], rfl, rfl, rfl, rfl, fun hp => absurd hp hresync.2⟩
  next => exact ⟨_, .refl p⟩

theorem itemDownloaded_moves (p : ItemProcessor N H) : ∃ new, Moves p p.itemDownloaded new := by
  obtain ⟨p₁, hp₁⟩ : ∃ p₁, p₁ = if p.processingState.isProcessedToConsensus then p else
    { p with processingState := .DOWNLOADED } := ⟨_, rfl⟩
  have hmoves : Moves p p₁ [] := by
    rw [hp₁]
    split
    next => exact .refl p
    next hprocessed => exact moves_state fun hp => absurd hp hprocessed
  have hdownloaded : p.itemDownloaded = if p₁.isCheckingForce then p₁.checkItem else p₁ := by
    rw [hp₁]
    rfl
  rw [hdownloaded]
  split
  next =>
    obtain ⟨new, hcheck⟩ := checkItem_moves p₁
    exact ⟨_, hmoves.trans hcheck⟩
  next => exact ⟨_, hmoves⟩

/-- A flag that says nothing of the commit. -/
theorem flags_moves (errors checked resyncing : Bool) (p : ItemProcessor N H) : Moves p { p with
    itemErrors := errors, alreadyChecked := checked, resyncingItems := resyncing } [] :=
  { Moves.refl p with }

theorem addItemToResync_moves (p : ItemProcessor N H) : Moves p p.addItemToResync [] := by
  unfold addItemToResync
  split
  next => exact flags_moves _ _ _ p
  next => exact .refl p

theorem setChecked_quiet (config : ItemConfig N) (checkPassed : Bool) (p : ItemProcessor N H) :
    Quiet p (p.setChecked config checkPassed) := by
  unfold setChecked
  split
  next record hset =>
    have hrecord : p.record.state = .PENDING ∧ record.id = p.record.id ∧ record.state.isPending = true := by
      split at hset
      all_goals
        simp only [StateRecord.setPendingPositive, StateRecord.setPendingNegative] at hset
        split at hset
        next hpending =>
          obtain rfl := Except.ok.inj hset
          exact ⟨hpending, rfl, rfl⟩
        next => cases hset
    refine ⟨hrecord.2.1, .inr ⟨hrecord.1, hrecord.2.2⟩, rfl, fun hs => ⟨hs.processed, fun ha => ?_⟩⟩
    have hsaving : Moves p (p.schedule .saving) [.saving] := schedule_moves fun _ => rfl
    exact hs.approving ((hsaving.approving (by simp [Task.commits])).mp ha)
  next =>
    obtain ⟨new, hmoves, -⟩ := emergencyBreak_moves config p
    exact (hmoves.trans (schedule_moves fun _ => rfl)).quiet

variable [DecidableEq N]

theorem vote_moves (config : ItemConfig N) (node : N) (state : ItemState) (p : ItemProcessor N H) :
    ∃ new, Moves p (p.vote config node state) new := by
  have hcount : ∀ positive negative : List N, Moves p { p with
      positiveNodes := positive, negativeNodes := negative } [] := fun _ _ => { Moves.refl p with }
  unfold vote
  split
  next => exact ⟨[], .refl p⟩
  next =>
    -- The vote is counted, and nothing else is changed by that.
    generalize hp₁ : (if state.isPositive then
      { p with positiveNodes := node :: p.positiveNodes, negativeNodes := p.negativeNodes.erase node }
      else { p with negativeNodes := node :: p.negativeNodes, positiveNodes := p.positiveNodes.erase node })
      = p₁
    have hmoves : Moves p p₁ [] := by
      rw [← hp₁]
      split
      next => exact hcount _ _
      next => exact hcount _ _
    dsimp only
    split
    next =>
      split
      next => exact ⟨_, hmoves.trans (close_moves config p₁)⟩
      next => exact ⟨_, hmoves⟩
    next hprocessed =>
      have hconsensus : Moves p₁ { p₁ with processingState := .GOT_CONSENSUS } [] :=
        moves_state fun _ => rfl
      split
      next => exact ⟨_, hmoves.trans (hconsensus.trans (schedule_moves fun _ => rfl))⟩
      next =>
        split
        next =>
          refine ⟨[.downloadAndCommit], ?_⟩
          refine ⟨hmoves.id, hmoves.record, hmoves.itemCommitEvent, ?_, fun hp => ?_⟩
          · rw [← hmoves.tasks.trans (List.append_nil _)]
            rfl
          · exact absurd (hmoves.processed hp).1 hprocessed
        next => exact ⟨_, hmoves⟩

theorem vote_quiet (config : ItemConfig N) (node : N) (state : ItemState) (p : ItemProcessor N H) :
    Quiet p (p.vote config node state) :=
  let ⟨_, h⟩ := vote_moves config node state p
  h.quiet

theorem checkConsensus_quiet (config : ItemConfig N) (expired : Bool) (p : ItemProcessor N H) :
    Quiet p (p.sendNewConsensusNotification config expired) := by
  unfold sendNewConsensusNotification
  split
  next =>
    split
    next =>
      have hfinished : Moves p { p with processingState := .FINISHED, consensusReceivedChecker := false }
          [] := moves_state fun _ => rfl
      exact (hfinished.trans (removeSelf_moves _)).quiet
    next =>
      split
      next => exact vote_quiet config _ _ p
      next => exact .refl p
  next => exact .refl p

theorem startPolling_quiet (config : ItemConfig N) (p : ItemProcessor N H) :
    Quiet p (p.startPolling config) := by
  obtain ⟨p₁, hp₁⟩ : ∃ p₁, p₁ = if p.processingState.isProcessedToConsensus then p else
    { p with processingState := .POLLING } := ⟨_, rfl⟩
  have hmoves : Moves p p₁ [] := by
    rw [hp₁]
    split
    next => exact .refl p
    next hprocessed => exact moves_state fun hp => absurd hp hprocessed
  have hvote := hmoves.quiet.trans (vote_quiet config config.myInfo p₁.record.state p₁)
  unfold startPolling
  rw [← hp₁]
  dsimp only
  split
  next => exact hvote.trans (moves_state fun h => h).quiet
  next => exact hvote

/-- The task fires a block. -/
def Fires : Task → Block → Prop
  | .committing, b => b = .commit
  | .rollbackChanges doDecline, b => b = .rollback doDecline
  | _, _ => False

/-- A task that fires no block is quiet, unless it is one of a commit: then it leaves the event and the
    record. -/
theorem runTask_quiet {t : Task} {outcome : Outcome} (h : p.runTask config t outcome = some p')
    (ht : ∀ b, ¬ Fires t b) :
    (t.commits = false ∧ Quiet p p') ∨
      (p'.itemCommitEvent = p.itemCommitEvent ∧ p'.record.id = p.record.id ∧
        p'.record.state = p.record.state ∧ t.commits = true) := by
  have hquiet : ∀ {new}, Moves p p' new → t.commits = false → t.commits = false ∧ Quiet p p' :=
    fun hmoves ht => ⟨ht, hmoves.quiet⟩
  cases t with
  | itemDownloaded =>
      cases outcome with
      | done =>
          obtain rfl := Option.some.inj h
          obtain ⟨_, hmoves⟩ := itemDownloaded_moves p
          exact .inl (hquiet hmoves rfl)
      | failed =>
          obtain rfl := Option.some.inj h
          exact .inl ⟨rfl, .refl p⟩
      | _ => cases h
  | checkItem =>
      cases outcome with
      | done =>
          obtain rfl := Option.some.inj h
          obtain ⟨_, hmoves⟩ := checkItem_moves p
          exact .inl (hquiet hmoves rfl)
      | _ => cases h
  | checking =>
      cases outcome with
      | checked errors resync =>
          obtain rfl := Option.some.inj h
          have hflags := flags_moves (p.itemErrors || errors) true p.resyncingItems p
          cases resync with
          | true =>
              obtain ⟨_, hmoves⟩ := startResync_moves true { p with
                itemErrors := p.itemErrors || errors, alreadyChecked := true }.addItemToResync
              exact .inl (hquiet ((hflags.trans (addItemToResync_moves _)).trans hmoves) rfl)
          | false =>
              obtain ⟨_, hmoves⟩ := commitChecked_moves { p with
                itemErrors := p.itemErrors || errors, alreadyChecked := true }
              exact .inl (hquiet (hflags.trans hmoves) rfl)
      | quantasLimit =>
          obtain rfl := Option.some.inj h
          obtain ⟨_, hmoves, -⟩ := emergencyBreak_moves config { p with itemErrors := true }
          exact .inl (hquiet ((flags_moves true p.alreadyChecked p.resyncingItems p).trans hmoves) rfl)
      | _ => cases h
  | resyncing ofCheck =>
      obtain ⟨_, hmoves⟩ := onResyncItemFinished_moves p
      cases outcome with
      | done =>
          obtain rfl := Option.some.inj h
          exact .inl (hquiet hmoves rfl)
      | more =>
          cases ofCheck with
          | true => cases h
          | false =>
              obtain rfl := Option.some.inj h
              exact .inl (hquiet (hmoves.trans (schedule_moves fun _ => rfl)) rfl)
      | _ => cases ofCheck <;> cases h
  | checkSubItems =>
      cases outcome with
      | checked errors resync =>
          obtain rfl := Option.some.inj h
          have hflags := flags_moves (p.itemErrors || errors) p.alreadyChecked p.resyncingItems p
          obtain ⟨_, hmoves⟩ := commitChecked_moves { p with itemErrors := p.itemErrors || errors }
          exact .inl (hquiet (hflags.trans hmoves) rfl)
      | _ => cases h
  | commitChecked checkPassed =>
      cases outcome with
      | done =>
          simp only [runTask, Option.ite_none_right_eq_some, Option.some.injEq] at h
          obtain ⟨-, rfl⟩ := h
          exact .inl ⟨rfl, setChecked_quiet config checkPassed p⟩
      | _ => cases h
  | saving =>
      cases outcome with
      | done =>
          obtain rfl := Option.some.inj h
          exact .inl (hquiet (schedule_moves fun _ => rfl) rfl)
      | failed =>
          obtain rfl := Option.some.inj h
          obtain ⟨_, hmoves, -⟩ := emergencyBreak_moves config p
          exact .inl (hquiet hmoves rfl)
      | _ => cases h
  | startPolling =>
      cases outcome with
      | done =>
          obtain rfl := Option.some.inj h
          exact .inl ⟨rfl, startPolling_quiet config p⟩
      | _ => cases h
  | downloadAndCommit =>
      cases outcome with
      | done =>
          obtain rfl := Option.some.inj h
          unfold downloadAndCommit
          split
          next => exact .inr ⟨rfl, rfl, rfl, rfl⟩
          next => exact .inr ⟨rfl, rfl, rfl, rfl⟩
      | _ => cases h
  | committing => exact absurd rfl (ht .commit)
  | commitFired parcelCommit =>
      cases outcome with
      | done =>
          simp only [runTask, Option.bind_eq_some_iff, Option.map_eq_some_iff] at h
          obtain ⟨_, -, success, -, rfl⟩ := h
          unfold committed
          split
          next =>
            obtain ⟨_, hmoves⟩ := startResync_moves false { p with processingState := .RESYNCING }
            exact .inr ⟨hmoves.itemCommitEvent, hmoves.id, hmoves.record, rfl⟩
          next =>
            have hmoves := close_moves config p
            exact .inr ⟨hmoves.itemCommitEvent, hmoves.id, hmoves.record, rfl⟩
      | _ => cases h
  | rollbackChanges doDecline => exact absurd rfl (ht (.rollback doDecline))
  | rollbackFired parcelCommit =>
      cases outcome with
      | done =>
          simp only [runTask, Option.bind_eq_some_iff, Option.map_eq_some_iff] at h
          obtain ⟨_, -, success, -, rfl⟩ := h
          exact .inl (hquiet (close_moves config p) rfl)
      | _ => cases h

/-- The same of a task among those of the processor. -/
theorem task_quiet {n : ℕ} {t : Task} {outcome : Outcome} (hn : p.tasks[n]? = some t)
    (h : { p with tasks := p.tasks.eraseIdx n }.runTask config t outcome = some p')
    (ht : ∀ b, ¬ Fires t b) : Quiet p p' := by
  have hmem : t ∈ p.tasks := List.mem_of_getElem? hn
  have herase : p.Stopped → { p with tasks := p.tasks.eraseIdx n }.Stopped := by
    refine fun hs => ⟨hs.processed, ?_⟩
    rintro (⟨t', ht', hc⟩ | hresult)
    · exact hs.approving (.inl ⟨t', List.mem_of_mem_eraseIdx ht', hc⟩)
    · exact hs.approving (.inr hresult)
  rcases runTask_quiet h ht with ⟨-, hq⟩ | ⟨hevent, hid, hrecord, hcommits⟩
  · exact ⟨hq.id, hq.record, hq.itemCommitEvent, fun hs => hq.stopped (herase hs)⟩
  · exact ⟨hid, .inl hrecord, hevent, fun hs => absurd (.inl ⟨t, hmem, hcommits⟩) hs.approving⟩

/-- A task that fires a block. -/
theorem runTask_fires {t : Task} {outcome : Outcome} {b : Block} (ht : Fires t b)
    (h : p.runTask config t outcome = some p') : ∃ t', p' = (p.fireBlock b).schedule t' ∧
      (t' = .commitFired p.parcelCommitEvent.await ∧ b = .commit ∧ t.commits = true ∨
        t' = .rollbackFired p.parcelCommitEvent.await ∧ b ≠ .commit) := by
  cases t with
  | committing =>
      obtain rfl : b = .commit := ht
      cases outcome with
      | done =>
          simp only [runTask, Option.ite_none_right_eq_some, Option.some.injEq] at h
          exact ⟨_, h.2.symm, .inl ⟨rfl, rfl, rfl⟩⟩
      | _ => cases h
  | rollbackChanges doDecline =>
      obtain rfl : b = .rollback doDecline := ht
      cases outcome with
      | done =>
          simp only [runTask, Option.ite_none_right_eq_some, Option.some.injEq] at h
          exact ⟨_, h.2.symm, .inr ⟨rfl, nofun⟩⟩
      | _ => cases h
  | _ => cases ht

theorem fire_result (f : EventField Block) (b : Block) : (f.fire b).result = some b := by
  simp [EventField.result, EventField.fire, AsyncEvent.fire]

/-- A processor that will not commit stays so when it fires a rollback. -/
theorem Stopped.fires {n : ℕ} {t : Task} {outcome : Outcome} {b : Block} (hs : p.Stopped)
    (hn : p.tasks[n]? = some t) (ht : Fires t b)
    (h : { p with tasks := p.tasks.eraseIdx n }.runTask config t outcome = some p') : p'.Stopped := by
  obtain ⟨t', rfl, ⟨-, -, hcommits⟩ | ⟨rfl, hb⟩⟩ := runTask_fires ht h
  · exact absurd (.inl ⟨t, List.mem_of_getElem? hn, hcommits⟩) hs.approving
  · refine ⟨hs.processed, ?_⟩
    rintro (⟨t', ht', hc⟩ | hresult)
    · rcases List.mem_append.mp ht' with ht' | ht'
      · exact hs.approving (.inl ⟨t', List.mem_of_mem_eraseIdx ht', hc⟩)
      · obtain rfl := List.mem_singleton.mp ht'
        cases hc
    · exact hb (Option.some.inj ((fire_result _ b).symm.trans hresult))

/-! ### A processor whose parcel has not answered -/

/-- The call belongs to the check, and may break the processor off. -/
def isCheck : Task → Bool
  | .itemDownloaded | .checkItem | .checking | .resyncing _ | .checkSubItems | .commitChecked _
  | .saving => true
  | _ => false

/-- The call waits for an answer that had not come when it began, and is no resync after a commit. -/
def Unanswered : Task → Prop
  | .commitFired parcelCommit | .rollbackFired parcelCommit => parcelCommit.result = none
  | .resyncing ofCheck => ofCheck = true
  | _ => True

/-- The promise of the event is not rejected. -/
def NotRejected (e : AsyncEvent Block) : Prop :=
  e.promise = none ∧ e.fired = none ∨ ∃ b, e.promise = some (some b) ∧ e.fired.isSome = true

/-- No parcel has answered, put a new event in, or broken the processor off: it is still registered. At most
    one call of the check runs, and none after an emergency break. -/
structure Open (p : ItemProcessor N H) : Prop where
  removed : p.removed = false
  notDone : p.processingState ≠ .DONE ∧ p.processingState ≠ .SENDING_CONSENSUS
  checker : p.consensusReceivedChecker = false
  parcelCommit : ∀ event, p.parcelCommitEvent.object event = .new
  current : p.itemCommitEvent.current = none
  itemCommit : NotRejected (p.itemCommitEvent.object none)
  tasks : ∀ t ∈ p.tasks, Unanswered t
  checks : p.tasks.countP isCheck ≤ 1
  finished : p.processingState = .FINISHED → p.tasks.countP isCheck = 0

omit [DecidableEq N] in
theorem new_open (isCheckingForce : Bool) (itemExpiresAt : ℤ) (record : StateRecord H) :
    (ItemProcessor.new isCheckingForce itemExpiresAt record : ItemProcessor N H).Open where
  removed := rfl
  notDone := ⟨nofun, nofun⟩
  checker := rfl
  parcelCommit _ := rfl
  current := rfl
  itemCommit := .inl ⟨rfl, rfl⟩
  tasks t ht := by
    obtain rfl := List.mem_singleton.mp ht
    trivial
  checks := Nat.le_refl 1
  finished := nofun

omit [DecidableEq N] in
theorem Open.schedule (h : p.Open) {t : Task} (ht : Unanswered t)
    (hcheck : isCheck t = true → p.tasks.countP isCheck = 0 ∧ p.processingState ≠ .FINISHED) :
    (p.schedule t).Open := by
  have hcount : (p.schedule t).tasks.countP isCheck =
      p.tasks.countP isCheck + if isCheck t then 1 else 0 := by
    simp [ItemProcessor.schedule, List.countP_append, List.countP_cons]
  refine { h with tasks := fun t' ht' => ?_, checks := ?_, finished := fun hf => ?_ }
  · rcases List.mem_append.mp ht' with ht' | ht'
    · exact h.tasks t' ht'
    · exact List.mem_singleton.mp ht' ▸ ht
  · rw [hcount]
    split
    next hc => exact Nat.le_of_eq (by rw [(hcheck hc).1])
    next => exact h.checks
  · rw [hcount, if_neg fun hc => (hcheck hc).2 hf]
    exact h.finished hf

omit [DecidableEq N] in
/-- A state in which the processor is not done. -/
theorem Open.state (h : p.Open) (state : ItemProcessingState) (poller : Bool) (hs : state.isDone = false) :
    { p with processingState := state, poller := poller }.Open :=
  { h with
    notDone := ⟨fun hd => by simp [show state = .DONE from hd, ItemProcessingState.isDone] at hs,
      fun hd => by simp [show state = .SENDING_CONSENSUS from hd, ItemProcessingState.isDone] at hs⟩
    finished := fun hf => by simp [show state = .FINISHED from hf, ItemProcessingState.isDone] at hs }

theorem Open.vote (h : p.Open) (config : ItemConfig N) (node : N) (state : ItemState) :
    (p.vote config node state).Open := by
  unfold ItemProcessor.vote
  split
  next => exact h
  next hguard =>
    obtain ⟨p₁, hp₁⟩ : ∃ p₁, p₁ = (if state.isPositive then
      { p with positiveNodes := node :: p.positiveNodes, negativeNodes := p.negativeNodes.erase node }
      else { p with negativeNodes := node :: p.negativeNodes, positiveNodes := p.positiveNodes.erase node }) :=
      ⟨_, rfl⟩
    have hopen : p₁.Open ∧ p₁.processingState = p.processingState := by
      rw [hp₁]
      split
      all_goals exact ⟨{ h with }, rfl⟩
    rw [← hp₁]
    dsimp only
    split
    next =>
      split
      next hdone =>
        -- The processor is not removed yet, so it is neither finished nor done.
        exfalso
        rw [hopen.2] at hdone
        obtain ⟨hd, hs⟩ := h.notDone
        have hremove := (not_or.mp (not_or.mp hguard).2).2
        revert hd hs hremove hdone
        cases p.processingState <;> simp [ItemProcessingState.isDone, ItemProcessingState.canRemoveSelf]
      next => exact hopen.1
    next =>
      split
      next => exact (hopen.1.state _ _ rfl).schedule trivial nofun
      next =>
        split
        next =>
          unfold approveAndCommit
          split
          next => exact (hopen.1.state _ _ rfl).schedule trivial nofun
          next => exact hopen.1.state _ _ rfl
        next => exact hopen.1

omit [DecidableEq N] in
theorem Open.poll (h : p.Open) (expired : Bool) : (p.sendStartPollingNotification expired).Open := by
  unfold sendStartPollingNotification
  split
  next => exact (h.state _ _ rfl).schedule trivial nofun
  next => exact h

theorem Open.checkConsensus (h : p.Open) (config : ItemConfig N) (expired : Bool) :
    (p.sendNewConsensusNotification config expired).Open := by
  unfold sendNewConsensusNotification
  rw [if_neg fun hc => by simp [h.checker] at hc]
  exact h

omit [DecidableEq N] in
/-- An emergency break of the check, which ends with it. -/
theorem Open.emergencyBreak (h : p.Open) (config : ItemConfig N)
    (hcheck : p.tasks.countP isCheck = 0 ∧ p.processingState ≠ .FINISHED) :
    (p.emergencyBreak config).Open := by
  have hdone : p.processingState.isDone = false := by
    obtain ⟨hd, hs⟩ := h.notDone
    have hf := hcheck.2
    revert hd hs hf
    cases p.processingState <;> simp [ItemProcessingState.isDone]
  have hrollback := (h.state .EMERGENCY_BREAK false rfl).schedule
    (t := .rollbackChanges false) trivial nofun
  unfold ItemProcessor.emergencyBreak
  simp only [hdone, Bool.not_false, if_true]
  exact { hrollback with
    notDone := ⟨nofun, nofun⟩
    checker := rfl
    finished := fun _ => by
      simp [ItemProcessor.rollback, ItemProcessor.schedule, isCheck, hcheck.1] }

omit [DecidableEq N] in
/-- A task that runs is taken out; a call of the check is the last of it. -/
theorem Open.erase (h : p.Open) {n : ℕ} {t : Task} (hn : p.tasks[n]? = some t) :
    { p with tasks := p.tasks.eraseIdx n }.Open ∧ Unanswered t ∧ (isCheck t = true →
      (p.tasks.eraseIdx n).countP isCheck = 0 ∧ p.processingState ≠ .FINISHED) := by
  obtain ⟨hlt, rfl⟩ := List.getElem?_eq_some_iff.mp hn
  have hcount : (p.tasks.eraseIdx n).countP isCheck + (if isCheck p.tasks[n] then 1 else 0) =
      p.tasks.countP isCheck := by
    rw [← (List.getElem_cons_eraseIdx_perm hlt).countP_eq, List.countP_cons]
  have hchecks := h.checks
  refine ⟨{ h with tasks := ?_, checks := ?_, finished := ?_ }, h.tasks _ (List.getElem_mem hlt), ?_⟩
  · exact fun t ht => h.tasks t (List.mem_of_mem_eraseIdx ht)
  · change (p.tasks.eraseIdx n).countP isCheck ≤ 1
    omega
  · intro hf
    have := h.finished hf
    change (p.tasks.eraseIdx n).countP isCheck = 0
    omega
  · intro hc
    rw [if_pos hc] at hcount
    refine ⟨by omega, fun hf => ?_⟩
    have := h.finished hf
    omega

omit [DecidableEq N] in
theorem Open.checkItem (h : p.Open) (hcheck : p.tasks.countP isCheck = 0) : p.checkItem.Open := by
  unfold ItemProcessor.checkItem
  split
  next => exact (h.state _ _ rfl).schedule trivial fun _ => ⟨hcheck, nofun⟩
  next => exact h

omit [DecidableEq N] in
theorem Open.startResync (h : p.Open) (hcheck : p.tasks.countP isCheck = 0) :
    (p.startResync true).Open := by
  unfold ItemProcessor.startResync
  split
  next => exact (h.state _ _ rfl).schedule rfl fun _ => ⟨hcheck, nofun⟩
  next => exact h

omit [DecidableEq N] in
theorem Open.onResyncItemFinished (h : p.Open) (hcheck : p.tasks.countP isCheck = 0) :
    p.onResyncItemFinished.Open := by
  unfold ItemProcessor.onResyncItemFinished
  split
  next => exact (h.state _ _ rfl).schedule trivial fun _ => ⟨hcheck, nofun⟩
  next => exact h

omit [DecidableEq N] in
theorem Open.commitChecked (h : p.Open) (hcheck : p.tasks.countP isCheck = 0) :
    p.commitCheckedAndStartPolling.Open := by
  unfold commitCheckedAndStartPolling
  split
  next hguard =>
    refine Open.schedule (p := { p with record := { p.record with expiresAt := p.itemExpiresAt } })
      (t := .commitChecked (!p.itemErrors)) { h with } trivial fun _ => ⟨hcheck, fun hf => hguard.2 ?_⟩
    rw [show p.processingState = .FINISHED from hf]
    rfl
  next => exact h

omit [DecidableEq N] in
theorem Open.setChecked (h : p.Open) (config : ItemConfig N) (checkPassed : Bool)
    (hcheck : p.tasks.countP isCheck = 0 ∧ p.processingState ≠ .FINISHED) :
    (p.setChecked config checkPassed).Open := by
  unfold ItemProcessor.setChecked
  split
  next record _ =>
    exact Open.schedule (p := { p with record := record }) (t := .saving) { h with } trivial fun _ => hcheck
  next => exact (h.emergencyBreak config hcheck).schedule trivial nofun

theorem Open.startPolling (h : p.Open) (config : ItemConfig N) : (p.startPolling config).Open := by
  obtain ⟨p₁, hp₁⟩ : ∃ p₁, p₁ = if p.processingState.isProcessedToConsensus then p else
    { p with processingState := .POLLING } := ⟨_, rfl⟩
  have hopen : p₁.Open := by
    rw [hp₁]
    split
    next => exact h
    next => exact h.state _ _ rfl
  have hvote := hopen.vote config config.myInfo p₁.record.state
  unfold ItemProcessor.startPolling
  rw [← hp₁]
  dsimp only
  split
  next => exact { hvote with }
  next => exact hvote

omit [DecidableEq N] in
theorem Open.itemDownloaded (h : p.Open) (hcheck : p.tasks.countP isCheck = 0) : p.itemDownloaded.Open := by
  obtain ⟨p₁, hp₁⟩ : ∃ p₁, p₁ = if p.processingState.isProcessedToConsensus then p else
    { p with processingState := .DOWNLOADED } := ⟨_, rfl⟩
  have hopen : p₁.Open ∧ p₁.tasks = p.tasks := by
    rw [hp₁]
    split
    next => exact ⟨h, rfl⟩
    next => exact ⟨h.state _ _ rfl, rfl⟩
  unfold ItemProcessor.itemDownloaded
  rw [← hp₁]
  dsimp only
  split
  next => exact hopen.1.checkItem (hopen.2.symm ▸ hcheck)
  next => exact hopen.1

omit [DecidableEq N] in
/-- The promise of the event is settled with a block. -/
theorem Open.fireBlock (h : p.Open) (b : Block) {t : Task} (ht : Unanswered t) (hc : isCheck t = false) :
    ((p.fireBlock b).schedule t).Open := by
  refine Open.schedule (p := p.fireBlock b) { h with itemCommit := ?_ } ht fun hcheck => by simp [hc] at hcheck
  change NotRejected ((p.itemCommitEvent.fire b).object none)
  simp only [EventField.fire, h.current, Function.update_self]
  refine .inr ?_
  rcases h.itemCommit with ⟨hp, -⟩ | ⟨b', hp, -⟩
  · exact ⟨b, by simp [AsyncEvent.fire, hp], rfl⟩
  · exact ⟨b', by simp [AsyncEvent.fire, hp], rfl⟩

omit [DecidableEq N] in
/-- No answer comes to a call that waits for the parcel. -/
theorem Open.outcome (h : p.Open) {w : Awaiting Bool} (hw : w.result = none) :
    p.parcelCommitEvent.outcome w = none := by
  simp [EventField.outcome, hw, h.parcelCommit, AsyncEvent.new]

omit [DecidableEq N] in
theorem Open.await (h : p.Open) : p.parcelCommitEvent.await.result = none := by
  simp [EventField.await, EventField.result, h.parcelCommit, AsyncEvent.new]

theorem Open.runTask (h : p.Open) {t : Task} {outcome : Outcome} (ht : Unanswered t)
    (hcheck : isCheck t = true → p.tasks.countP isCheck = 0 ∧ p.processingState ≠ .FINISHED)
    (hrun : p.runTask config t outcome = some p') : p'.Open := by
  cases t with
  | itemDownloaded =>
      cases outcome with
      | done => exact Option.some.inj hrun ▸ h.itemDownloaded (hcheck rfl).1
      | failed => exact Option.some.inj hrun ▸ h
      | _ => cases hrun
  | checkItem =>
      cases outcome with
      | done => exact Option.some.inj hrun ▸ h.checkItem (hcheck rfl).1
      | _ => cases hrun
  | checking =>
      cases outcome with
      | checked errors resync =>
          obtain rfl := Option.some.inj hrun
          have hflags : ∀ resyncing, { p with
              itemErrors := p.itemErrors || errors, alreadyChecked := true, resyncingItems := resyncing }.Open :=
            fun _ => { h with }
          cases resync with
          | true =>
              simp only [if_true]
              unfold addItemToResync
              split
              next => exact (hflags true).startResync (hcheck rfl).1
              next => exact (hflags _).startResync (hcheck rfl).1
          | false => exact (hflags _).commitChecked (hcheck rfl).1
      | quantasLimit =>
          obtain rfl := Option.some.inj hrun
          exact Open.emergencyBreak (p := { p with itemErrors := true }) { h with } config (hcheck rfl)
      | _ => cases hrun
  | resyncing ofCheck =>
      obtain rfl : ofCheck = true := ht
      cases outcome with
      | done => exact Option.some.inj hrun ▸ h.onResyncItemFinished (hcheck rfl).1
      | _ => cases hrun
  | checkSubItems =>
      cases outcome with
      | checked errors resync =>
          obtain rfl := Option.some.inj hrun
          exact Open.commitChecked (p := { p with itemErrors := p.itemErrors || errors }) { h with }
            (hcheck rfl).1
      | _ => cases hrun
  | commitChecked checkPassed =>
      cases outcome with
      | done =>
          simp only [ItemProcessor.runTask, Option.ite_none_right_eq_some, Option.some.injEq] at hrun
          exact hrun.2 ▸ h.setChecked config checkPassed (hcheck rfl)
      | _ => cases hrun
  | saving =>
      cases outcome with
      | done => exact Option.some.inj hrun ▸ h.schedule trivial nofun
      | failed => exact Option.some.inj hrun ▸ h.emergencyBreak config (hcheck rfl)
      | _ => cases hrun
  | startPolling =>
      cases outcome with
      | done => exact Option.some.inj hrun ▸ h.startPolling config
      | _ => cases hrun
  | downloadAndCommit =>
      cases outcome with
      | done =>
          obtain rfl := Option.some.inj hrun
          unfold ItemProcessor.downloadAndCommit
          split
          next =>
            exact Open.schedule (p := { p with resyncingItems := false }) (t := .committing) { h with } trivial
              nofun
          next => exact h
      | _ => cases hrun
  | committing =>
      obtain ⟨t', rfl, ⟨rfl, -⟩ | ⟨rfl, hb⟩⟩ := runTask_fires (t := .committing) (b := .commit) rfl hrun
      · exact h.fireBlock .commit h.await rfl
      · exact absurd rfl hb
  | rollbackChanges doDecline =>
      obtain ⟨t', rfl, ⟨-, hb, -⟩ | ⟨rfl, -⟩⟩ := runTask_fires (t := .rollbackChanges doDecline) rfl hrun
      · cases hb
      · exact h.fireBlock (.rollback doDecline) h.await rfl
  | commitFired parcelCommit | rollbackFired parcelCommit =>
      cases outcome with
      | done => simp [ItemProcessor.runTask, h.outcome ht] at hrun
      | _ => cases hrun

end ItemProcessor
end Universa.Node
