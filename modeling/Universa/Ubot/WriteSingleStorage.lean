import Mathlib.Data.Finset.Card
import Mathlib.Data.Finset.Dedup
import Universa.Lib.Run

/-! Writing to a storage of the pool (`UBotProcess_writeSingleStorage`). The UBots of a pool ask each
    other for the hash of what they write and the record it follows, and write when a quorum has the
    same.

    A run is a list of actions: the first await of `init` is over, `start`, a pulse of the task, the
    arrival of a message that was sent before (any time, any number of times, or never), the end of the
    awaited write, and a change of the state of the cloud processor by something else. Which wait
    periods are over is part of the pulse. -/

set_option linter.unusedSectionVars false

namespace Universa.Ubot.WriteSingleStorage

/-! ### Pool and processes -/

/-- What the UBots of the pool agree on and what each of them writes. `hashOf` hashes the digests put
    together, the pool id before them. -/
structure Write (U H : Type) [DecidableEq U] where
  pool : List U
  nodup : pool.Nodup
  quorumSize : ℕ
  majority : pool.length < 2 * quorumSize
  binHashId : U → H
  previousRecordId : U → Option H
  defaultRecordId : H
  hashOf : List H → H

/-- The states of a cloud processor that count here. -/
inductive UBotPoolState where
  | START_EXEC
  | FINISHED
  | FAILED
  deriving DecidableEq

/-- `getHashesTask`: not there yet, running, or cancelled. -/
inductive Task where
  | none
  | running
  | cancelled
  deriving DecidableEq

/-- A process, with the state of its cloud processor, whether its write is awaited, and how often it has
    called `onReady` and `onFailed`. -/
structure Proc (U H : Type) where
  binHashId : Option H
  previousRecordId : Option H
  quorumSize : ℕ
  approveCounterSet : Finset U
  declineCounterSet : Finset U
  notAnswered : Finset U
  recordId : Option H
  getHashesTask : Task
  state : UBotPoolState
  writing : Bool
  onReady : ℕ
  onFailed : ℕ

/-- `SINGLE_STORAGE_GET_DATA_HASHID`: a request, or an answer with its parameters. -/
inductive Message (U H : Type) where
  | request (source target : U)
  | answer (source target : U) (dataHashId : H) (previousRecordId : Option H)
  deriving DecidableEq

/-- What `init` finds in the contract about pool and quorum of the storage: nothing against the write,
    no pool and quorum that can be read, or more than the process has. -/
inductive StorageData where
  | accepted
  | unreadable
  | insufficient
  deriving DecidableEq

namespace Proc
variable {U H : Type} [DecidableEq U] [DecidableEq H] (w : Write U H) (s : Proc U H)

/-- `pr.changeState(FAILED)`: nothing follows `FINISHED`. -/
def changeStateFailed : Proc U H :=
  { s with state := if s.state = .START_EXEC then .FAILED else s.state }

/-- The rest of `init` after its await. `onFailed` is called, and `start` is called all the same. -/
def init (u : U) (storage : StorageData) : Proc U H :=
  let s :=
    { s with
      binHashId := some (w.binHashId u)
      previousRecordId := w.previousRecordId u }
  match storage with
  | .accepted => { s with quorumSize := w.quorumSize }
  | .unreadable => { s.changeStateFailed with onFailed := s.onFailed + 1 }
  | .insufficient =>
      { s.changeStateFailed with quorumSize := w.quorumSize, onFailed := s.onFailed + 1 }

/-- `checkDecline()`. -/
def checkDecline : Proc U H :=
  if w.pool.length < s.declineCounterSet.card + s.notAnswered.card + s.quorumSize ∧
      s.state ≠ .FAILED then
    { s.changeStateFailed with
      getHashesTask := if s.getHashesTask = .none then .none else .cancelled
      onFailed := s.onFailed + 1 }
  else s

/-- The process has no answer of the UBot and still waits for one. -/
def awaits (v : U) : Bool :=
  decide (v ∉ s.approveCounterSet ∧ v ∉ s.declineCounterSet ∧ v ∉ s.notAnswered)

/-- The loop of `pulse()` over the pool. -/
def pulseLoop (u : U) (expired : U → Bool) : List U → Proc U H → Proc U H × List (Message U H)
  | [], s => (s, [])
  | v :: vs, s =>
      if s.awaits v then
        if expired v then
          pulseLoop u expired vs ({ s with notAnswered := insert v s.notAnswered }.checkDecline w)
        else
          let (s', sent) := pulseLoop u expired vs s
          (s', .request u v :: sent)
      else pulseLoop u expired vs s

/-- `pulse()`, with the UBots whose wait period is over. -/
def pulse (u : U) (expired : U → Bool) : Proc U H × List (Message U H) :=
  pulseLoop w u expired w.pool s

/-- `start()`: the first pulse comes before the task. -/
def start (u : U) (expired : U → Bool) : Proc U H × List (Message U H) :=
  let (s, sent) := { s with approveCounterSet := insert u s.approveCounterSet }.pulse w u expired
  ({ s with getHashesTask := .running }, sent)

/-- The record id of `generateSelfRecordID()`. -/
def selfRecordID (binHashId : H) (previousRecordId : Option H) : H :=
  match previousRecordId with
  | some r => if r = w.defaultRecordId then r else w.hashOf [binHashId, r]
  | none => w.hashOf [binHashId]

/-- `vote(notification)`, up to the write that it awaits. -/
def vote (v : U) (dataHashId : H) (previousRecordId : Option H) : Proc U H :=
  let s :=
    if s.binHashId = some dataHashId ∧ s.previousRecordId = previousRecordId then
      { s with approveCounterSet := insert v s.approveCounterSet }
    else { s with declineCounterSet := insert v s.declineCounterSet }
  if s.quorumSize ≤ s.approveCounterSet.card then
    { s with
      getHashesTask := .cancelled
      recordId := s.binHashId.map fun h => selfRecordID w h s.previousRecordId
      writing := true }
  else s.checkDecline w

/-- The end of the awaited write. -/
def written (success : Bool) : Proc U H :=
  if success then { s with writing := false, onReady := s.onReady + 1 }
  else { s.changeStateFailed with writing := false, onFailed := s.onFailed + 1 }

/-- `onNotify` of an answer. Before there is a task reading it throws, and the cloud processor catches
    that and fails. -/
def onAnswer (v : U) (dataHashId : H) (previousRecordId : Option H) : Proc U H :=
  match s.getHashesTask with
  | .none => s.changeStateFailed
  | .cancelled => s
  | .running => s.vote w v dataHashId previousRecordId

/-- The answer to a request; without a hash packing it throws, and nothing is sent. -/
def answerTo (u v : U) : List (Message U H) :=
  match s.binHashId with
  | some h => [.answer u v h s.previousRecordId]
  | none => []

end Proc

/-! ### Runs -/

/-- The processes and every message that was sent. -/
structure State (U H : Type) where
  proc : U → Proc U H
  sent : List (Message U H)

/-- What can happen, and to whom. -/
inductive Action (U H : Type) where
  | init (u : U) (storage : StorageData)
  | start (u : U) (expired : U → Bool)
  | pulse (u : U) (expired : U → Bool)
  | deliver (m : Message U H)
  | written (u : U) (success : Bool)
  | changeState (u : U) (state : UBotPoolState)

section
variable {U H : Type} [DecidableEq U] [DecidableEq H] (w : Write U H)

/-- Created, with the first await of `init` going on. -/
def Proc.created : Proc U H :=
  ⟨none, none, 0, ∅, ∅, ∅, none, .none, .START_EXEC, false, 0, 0⟩

def State.start : State U H := ⟨fun _ => .created, []⟩

/-- The state with one process replaced and more messages sent. -/
def State.set (s : State U H) (u : U) (p : Proc U H) (sent : List (Message U H)) : State U H :=
  ⟨Function.update s.proc u p, s.sent ++ sent⟩

/-- One action; a UBot of the pool does each thing when its process is there. -/
def step (s : State U H) : Action U H → Option (State U H)
  | .init u storage =>
      if u ∈ w.pool ∧ (s.proc u).binHashId = none then
        some (s.set u ((s.proc u).init w u storage) [])
      else none
  | .start u expired =>
      if u ∈ w.pool ∧ (s.proc u).binHashId ≠ none ∧ (s.proc u).getHashesTask = .none then
        let (p, sent) := (s.proc u).start w u expired
        some (s.set u p sent)
      else none
  | .pulse u expired =>
      if u ∈ w.pool ∧ (s.proc u).getHashesTask = .running then
        let (p, sent) := (s.proc u).pulse w u expired
        some (s.set u p sent)
      else none
  | .deliver (.request v u) =>
      if .request v u ∈ s.sent then some (s.set u (s.proc u) ((s.proc u).answerTo u v)) else none
  | .deliver (.answer v u h previous) =>
      if .answer v u h previous ∈ s.sent then some (s.set u ((s.proc u).onAnswer w v h previous) [])
      else none
  | .written u success =>
      if (s.proc u).writing then some (s.set u ((s.proc u).written success) []) else none
  | .changeState u state =>
      if u ∈ w.pool ∧ (s.proc u).state = .START_EXEC then
        some (s.set u { s.proc u with state := state } [])
      else none

/-- UBots that are ready wrote the same; each calls `onReady` and `onFailed` once at most, together; and
    no decline is from a UBot with the same hash and previous record. -/
structure Agreed (s : State U H) : Prop where
  same : ∀ u v, 0 < (s.proc u).onReady → 0 < (s.proc v).onReady →
    (s.proc u).binHashId = (s.proc v).binHashId ∧ (s.proc u).recordId = (s.proc v).recordId
  once : ∀ u, (s.proc u).onReady + (s.proc u).onFailed ≤ 1
  declines : ∀ u, ∀ v ∈ (s.proc u).declineCounterSet,
    ¬ (w.binHashId v = w.binHashId u ∧ w.previousRecordId v = w.previousRecordId u)

/-! ### The condition on steps -/

/-- How many of these UBots the process waits for longer than the wait period. -/
def Proc.late (s : Proc U H) (expired : U → Bool) (vs : List U) : ℕ :=
  (vs.filter fun v => s.awaits v && expired v).length

/-- The contract has nothing against the write; the wait periods over in the first pulse leave a quorum;
    and where the cloud processor has finished, a pulse declines once at most. -/
def Fits (s : State U H) : Action U H → Prop
  | .init _ storage => storage = .accepted
  | .start u expired =>
      let p := { s.proc u with approveCounterSet := insert u (s.proc u).approveCounterSet }
      p.state = .FAILED ∨ p.declineCounterSet.card + p.notAnswered.card + p.quorumSize +
        p.late expired w.pool ≤ w.pool.length
  | .pulse u expired =>
      let p := s.proc u
      p.state = .FINISHED → p.late expired w.pool ≤ 1 ∨
        p.declineCounterSet.card + p.notAnswered.card + p.quorumSize + p.late expired w.pool ≤
          w.pool.length + 1
  | _ => True

/-! ### Pulses -/

variable {w} {s s' : Proc U H} {u v : U} {expired : U → Bool} {vs : List U}

/-- The process after a wait period that is over. -/
def Proc.expire (w : Write U H) (s : Proc U H) (v : U) : Proc U H :=
  { s with notAnswered := insert v s.notAnswered }.checkDecline w

/-- What every wait period that is over keeps, the pulse keeps. -/
theorem pulseLoop_keeps {P : Proc U H → Prop}
    (h : ∀ s v, P s → s.awaits v = true → expired v = true → P (s.expire w v)) :
    ∀ {s}, P s → P (Proc.pulseLoop w u expired vs s).1 := by
  induction vs with
  | nil => exact id
  | cons v vs ih =>
      intro s hs
      rw [Proc.pulseLoop]
      split
      next hawaits =>
        split
        next hexpired => exact ih (h s v hs hawaits hexpired)
        next => exact ih hs
      next => exact ih hs

/-- A pulse sends requests to UBots of the pool. -/
theorem pulseLoop_sent {m : Message U H} :
    ∀ {s}, m ∈ (Proc.pulseLoop w u expired vs s).2 → ∃ v ∈ vs, m = .request u v := by
  induction vs with
  | nil => exact nofun
  | cons v vs ih =>
      have htail : ∀ {s}, m ∈ (Proc.pulseLoop w u expired vs s).2 →
          ∃ v' ∈ v :: vs, m = .request u v' := by
        intro s hm
        obtain ⟨v', hv', rfl⟩ := ih hm
        exact ⟨v', .tail _ hv', rfl⟩
      intro s hm
      rw [Proc.pulseLoop] at hm
      split at hm
      next =>
        split at hm
        next => exact htail hm
        next =>
          rcases List.mem_cons.mp hm with rfl | hm
          · exact ⟨v, .head _, rfl⟩
          · exact htail hm
      next => exact htail hm

/-- `checkDecline` does nothing, or it fails the process and cancels the task there is. -/
theorem checkDecline_cases (w : Write U H) (s : Proc U H) :
    s.checkDecline w = s ∨
    (w.pool.length < s.declineCounterSet.card + s.notAnswered.card + s.quorumSize ∧
      s.state ≠ .FAILED ∧ s.checkDecline w =
      { s.changeStateFailed with
        getHashesTask := if s.getHashesTask = .none then .none else .cancelled
        onFailed := s.onFailed + 1 }) := by
  rw [Proc.checkDecline]
  split
  next h => exact .inr ⟨h.1, h.2, rfl⟩
  next => exact .inl rfl

/-- What votes and wait periods leave alone. -/
structure SameVotes (s s' : Proc U H) : Prop where
  hash : s'.binHashId = s.binHashId
  previous : s'.previousRecordId = s.previousRecordId
  quorum : s'.quorumSize = s.quorumSize
  approve : s'.approveCounterSet = s.approveCounterSet
  decline : s'.declineCounterSet = s.declineCounterSet
  record : s'.recordId = s.recordId
  writing : s'.writing = s.writing
  onReady : s'.onReady = s.onReady

/-- What `checkDecline` and pulses do to the calls, the task and the state: a call of `onFailed` cancels
    the task, and it fails the cloud processor unless that has finished. -/
structure Declines (s s' : Proc U H) : Prop extends SameVotes s s' where
  task : s'.getHashesTask = s.getHashesTask ∨
    s.getHashesTask ≠ .none ∧ s'.getHashesTask = .cancelled
  called : s'.onFailed = s.onFailed ∨ s'.getHashesTask ≠ .running
  failed : s.state ≠ .FINISHED → s'.state ≠ .FINISHED ∧
    s'.onFailed + (if s.state = .FAILED then 1 else 0) ≤
      s.onFailed + (if s'.state = .FAILED then 1 else 0)

theorem Declines.refl (s : Proc U H) : Declines s s :=
  ⟨⟨rfl, rfl, rfl, rfl, rfl, rfl, rfl, rfl⟩, .inl rfl, .inl rfl, fun h => ⟨h, le_rfl⟩⟩

theorem Declines.trans {s₁ s₂ s₃ : Proc U H} (h : Declines s₁ s₂) (h' : Declines s₂ s₃) :
    Declines s₁ s₃ where
  hash := h'.hash.trans h.hash
  previous := h'.previous.trans h.previous
  quorum := h'.quorum.trans h.quorum
  approve := h'.approve.trans h.approve
  decline := h'.decline.trans h.decline
  record := h'.record.trans h.record
  writing := h'.writing.trans h.writing
  onReady := h'.onReady.trans h.onReady
  task := by
    rcases h.task with ht | ⟨hsome, ht⟩
    · rw [← ht]
      exact h'.task
    · refine .inr ⟨hsome, ?_⟩
      rcases h'.task with ht' | ⟨-, ht'⟩
      · rw [ht', ht]
      · exact ht'
  called := by
    rcases h'.called with hc' | hc'
    · rcases h.called with hc | hc
      · exact .inl (hc'.trans hc)
      · refine .inr fun hrun => ?_
        rcases h'.task with ht' | ⟨-, ht'⟩
        · exact hc (ht' ▸ hrun)
        · rw [ht'] at hrun
          cases hrun
    · exact .inr hc'
  failed := fun hs =>
    have h₂ := h.failed hs
    have h₃ := h'.failed h₂.1
    ⟨h₃.1, by omega⟩

theorem declines_checkDecline (w : Write U H) (s : Proc U H) : Declines s (s.checkDecline w) := by
  rcases checkDecline_cases w s with h | ⟨-, hstate, h⟩
  · rw [h]
    exact .refl s
  · rw [h]
    refine ⟨⟨rfl, rfl, rfl, rfl, rfl, rfl, rfl, rfl⟩, ?_, ?_, fun hf => ?_⟩
    · by_cases ht : s.getHashesTask = .none
      · exact .inl (by simp [ht])
      · exact .inr ⟨ht, by simp [ht]⟩
    · by_cases ht : s.getHashesTask = .none
      · exact .inr (by simp [ht])
      · exact .inr (by simp [ht])
    · cases hs : s.state with
      | START_EXEC => simp [Proc.changeStateFailed, hs]
      | FINISHED => exact absurd hs hf
      | FAILED => exact absurd hs hstate

/-- A wait period that is over changes nothing but what `checkDecline` does. -/
theorem declines_expire (w : Write U H) (s : Proc U H) (v : U) : Declines s (s.expire w v) :=
  have hset : Declines s { s with notAnswered := insert v s.notAnswered } :=
    ⟨⟨rfl, rfl, rfl, rfl, rfl, rfl, rfl, rfl⟩, .inl rfl, .inl rfl, fun h => ⟨h, le_rfl⟩⟩
  hset.trans (declines_checkDecline w _)

theorem declines_pulse (w : Write U H) (s : Proc U H) (u : U) (expired : U → Bool) :
    Declines s (s.pulse w u expired).1 :=
  pulseLoop_keeps (fun _ v h _ _ => h.trans (declines_expire w _ v)) (.refl s)

/-! ### How often a pulse declines -/

/-- Another UBot is awaited after a wait period just where it was before. -/
theorem awaits_expire {v' : U} (hne : v' ≠ v) : (s.expire w v).awaits v' = s.awaits v' := by
  have hsame := (declines_expire w s v).toSameVotes
  have hnot : (s.expire w v).notAnswered = insert v s.notAnswered := by
    rw [Proc.expire]
    rcases checkDecline_cases w { s with notAnswered := insert v s.notAnswered } with h | ⟨-, -, h⟩
    · rw [h]
    · rw [h]
      rfl
  simp only [Proc.awaits, hnot, hsame.approve, hsame.decline, Finset.mem_insert, hne, false_or]

theorem late_expire (hv : v ∉ vs) : (s.expire w v).late expired vs = s.late expired vs := by
  unfold Proc.late
  congr 1
  refine List.filter_congr fun v' hv' => ?_
  have hne : v' ≠ v := by
    rintro rfl
    exact hv hv'
  rw [awaits_expire hne]

/-- One UBot more that did not answer, and one call of `onFailed` at most, made where those that
    declined or did not answer leave no quorum. -/
theorem onFailed_expire (hv : s.awaits v = true) :
    (s.expire w v).notAnswered.card = s.notAnswered.card + 1 ∧
    ((s.expire w v).onFailed = s.onFailed ∨ (s.expire w v).onFailed = s.onFailed + 1 ∧
      w.pool.length < s.declineCounterSet.card + (s.notAnswered.card + 1) + s.quorumSize) := by
  have hnew : v ∉ s.notAnswered := (of_decide_eq_true hv).2.2
  have hcard := Finset.card_insert_of_notMem hnew
  rw [Proc.expire]
  rcases checkDecline_cases w { s with notAnswered := insert v s.notAnswered } with h | ⟨hlt, -, h⟩
  · rw [h]
    exact ⟨hcard, .inl rfl⟩
  · rw [h]
    exact ⟨hcard, .inr ⟨rfl, by simpa [hcard] using hlt⟩⟩

/-- A pulse calls `onFailed` at most once for each wait period that is over, and no more often than these
    and the others that did not answer or declined go over the limit. -/
theorem onFailed_pulseLoop (w : Write U H) (u : U) (expired : U → Bool) {vs : List U} (hn : vs.Nodup) :
    ∀ {s : Proc U H}, (Proc.pulseLoop w u expired vs s).1.onFailed ≤ s.onFailed +
      min (s.late expired vs)
        (s.declineCounterSet.card + s.notAnswered.card + s.quorumSize + s.late expired vs -
          w.pool.length) := by
  induction vs with
  | nil => exact Nat.le_add_right _ _
  | cons v vs ih =>
      obtain ⟨hv, hn⟩ := List.nodup_cons.mp hn
      intro s
      have hrest := ih hn (s := s)
      rw [Proc.pulseLoop]
      by_cases hawaits : s.awaits v = true
      · by_cases hexpired : expired v = true
        · rw [if_pos hawaits, if_pos hexpired]
          have hlate : s.late expired (v :: vs) = s.late expired vs + 1 := by
            simp [Proc.late, hawaits, hexpired]
          have hrest := ih hn (s := s.expire w v)
          obtain ⟨hcard, hcalled⟩ := onFailed_expire (w := w) hawaits
          have hsame := (declines_expire w s v).toSameVotes
          rw [late_expire hv, hcard, hsame.decline, hsame.quorum] at hrest
          refine hrest.trans ?_
          rw [hlate]
          omega
        · rw [if_pos hawaits, if_neg hexpired]
          have hlate : s.late expired (v :: vs) = s.late expired vs := by
            simp [Proc.late, hexpired]
          rw [hlate]
          exact hrest
      · rw [if_neg hawaits]
        have hlate : s.late expired (v :: vs) = s.late expired vs := by
          simp [Proc.late, hawaits]
        rw [hlate]
        exact hrest

/-! ### Processes -/

/-- The UBots write the same after the same record. -/
def Same (w : Write U H) (u v : U) : Prop :=
  w.binHashId u = w.binHashId v ∧ w.previousRecordId u = w.previousRecordId v

/-- What holds of the process of a UBot. -/
structure Sound (w : Write U H) (u : U) (s : Proc U H) : Prop where
  hash : ∀ h, s.binHashId = some h → h = w.binHashId u ∧ s.previousRecordId = w.previousRecordId u ∧
    s.quorumSize = w.quorumSize
  task : s.getHashesTask ≠ .none → s.binHashId ≠ none
  approve : ∀ v ∈ s.approveCounterSet, v ∈ w.pool ∧ Same w v u
  decline : ∀ v ∈ s.declineCounterSet, ¬ Same w v u
  calls : s.onReady + s.onFailed + s.writing.toNat ≤ 1
  waiting : s.getHashesTask ≠ .cancelled → s.onReady + s.onFailed + s.writing.toNat = 0
  wrote : s.writing = true ∨ 0 < s.onReady → w.quorumSize ≤ s.approveCounterSet.card ∧
    s.binHashId = some (w.binHashId u) ∧
    s.recordId = some (Proc.selfRecordID w (w.binHashId u) (w.previousRecordId u))

theorem sound_created (w : Write U H) (u : U) : Sound w u .created where
  hash := nofun
  task h := absurd rfl h
  approve := nofun
  decline := nofun
  calls := Nat.zero_le 1
  waiting _ := rfl
  wrote h := by
    rcases h with h | h
    · cases h
    · cases h

/-- What only changes the state of the cloud processor keeps. -/
theorem Sound.changeState (h : Sound w u s) (state : UBotPoolState) :
    Sound w u { s with state := state } := ⟨h.hash, h.task, h.approve, h.decline, h.calls, h.waiting, h.wrote⟩

/-- After declines a process stays sound, where it has not called more than it may. -/
theorem Sound.declines (h : Sound w u s) (hd : Declines s s')
    (hcalls : s'.onReady + s'.onFailed + s'.writing.toNat ≤ 1)
    (hwaiting : s'.getHashesTask ≠ .cancelled → s'.onFailed = s.onFailed) : Sound w u s' where
  hash := by
    rw [hd.hash, hd.previous, hd.quorum]
    exact h.hash
  task ht := by
    rw [hd.hash]
    rcases hd.task with htask | ⟨hsome, -⟩
    · exact h.task (htask ▸ ht)
    · exact h.task hsome
  approve := by
    rw [hd.approve]
    exact h.approve
  decline := by
    rw [hd.decline]
    exact h.decline
  calls := hcalls
  waiting ht := by
    rw [hwaiting ht, hd.onReady, hd.writing]
    rcases hd.task with htask | ⟨-, hcancelled⟩
    · exact h.waiting (htask ▸ ht)
    · exact absurd hcancelled ht
  wrote := by
    rw [hd.approve, hd.hash, hd.record, hd.writing, hd.onReady]
    exact h.wrote

theorem Sound.init (h : Sound w u s) (hnone : s.binHashId = none) :
    Sound w u (s.init w u .accepted) where
  hash h' heq := ⟨(Option.some.inj heq).symm, rfl, rfl⟩
  task _ := nofun
  approve := h.approve
  decline := h.decline
  calls := h.calls
  waiting := h.waiting
  wrote hw := by
    have := (h.wrote hw).2.1
    rw [hnone] at this
    cases this

theorem Sound.run (h : Sound w u s) (hsome : s.binHashId ≠ none)
    (hzero : s.onReady + s.onFailed + s.writing.toNat = 0) :
    Sound w u { s with getHashesTask := .running } :=
  { h with
    task := fun _ => hsome
    waiting := fun _ => hzero }

/-- The pulse of `start`, before there is a task: it must not decline. -/
theorem Sound.firstPulse (h : Sound w u s) (hsome : s.binHashId ≠ none)
    (htask : s.getHashesTask = .none)
    (hfits : s.state = .FAILED ∨ s.declineCounterSet.card + s.notAnswered.card + s.quorumSize +
      s.late expired w.pool ≤ w.pool.length) :
    Sound w u { (s.pulse w u expired).1 with getHashesTask := .running } := by
  have hzero := h.waiting (by simp [htask])
  have hd := declines_pulse w s u expired
  have hle := onFailed_pulseLoop w u expired w.nodup (s := s)
  rw [← Proc.pulse] at hle
  have hcalled : (s.pulse w u expired).1.onFailed = 0 := by
    rcases hfits with hfailed | hfits
    · have := (hd.failed (by simp [hfailed])).2
      rw [if_pos hfailed] at this
      split at this <;> omega
    · omega
  have hready : (s.pulse w u expired).1.onReady + (s.pulse w u expired).1.onFailed +
      (s.pulse w u expired).1.writing.toNat = 0 := by
    rw [hcalled, hd.onReady, hd.writing]
    omega
  have hsound := h.declines hd (by omega) fun _ => by omega
  exact hsound.run (by rw [hd.hash]; exact hsome) hready

theorem Sound.start (h : Sound w u s) (hu : u ∈ w.pool) (hsome : s.binHashId ≠ none)
    (htask : s.getHashesTask = .none)
    (hfits : s.state = .FAILED ∨ s.declineCounterSet.card + s.notAnswered.card + s.quorumSize +
      { s with approveCounterSet := insert u s.approveCounterSet }.late expired w.pool ≤
        w.pool.length) : Sound w u (s.start w u expired).1 := by
  have hown : Sound w u { s with approveCounterSet := insert u s.approveCounterSet } :=
    { h with
      approve := by
        intro v hv
        rcases Finset.mem_insert.mp hv with rfl | hv
        · exact ⟨hu, rfl, rfl⟩
        · exact h.approve v hv
      wrote := fun hw => ⟨(h.wrote hw).1.trans (Finset.card_le_card (Finset.subset_insert _ _)),
        (h.wrote hw).2⟩ }
  exact hown.firstPulse hsome htask hfits

theorem Sound.pulse (h : Sound w u s) (htask : s.getHashesTask = .running)
    (hfits : s.state = .FINISHED → s.late expired w.pool ≤ 1 ∨
      s.declineCounterSet.card + s.notAnswered.card + s.quorumSize + s.late expired w.pool ≤
        w.pool.length + 1) : Sound w u (s.pulse w u expired).1 := by
  have hzero := h.waiting (by simp [htask])
  have hd := declines_pulse w s u expired
  have hle := onFailed_pulseLoop w u expired w.nodup (s := s)
  rw [← Proc.pulse] at hle
  have honce : (s.pulse w u expired).1.onFailed ≤ 1 := by
    by_cases hfinished : s.state = .FINISHED
    · have := hfits hfinished
      omega
    · have := (hd.failed hfinished).2
      split at this <;> split at this <;> omega
  refine h.declines hd ?_ fun hrun => ?_
  · rw [hd.onReady, hd.writing]
    omega
  · rcases hd.called with hcalled | hcalled
    · exact hcalled
    · rcases hd.task with htask' | ⟨-, hcancelled⟩
      · exact absurd (htask'.trans htask) hcalled
      · exact absurd hcancelled hrun

/-- One call of `checkDecline` by a process whose task runs. -/
theorem Sound.checkDecline (h : Sound w u s) (htask : s.getHashesTask = .running) :
    Sound w u (s.checkDecline w) := by
  have hzero := h.waiting (by simp [htask])
  refine h.declines (declines_checkDecline w s) ?_ fun hrun => ?_
  · rcases checkDecline_cases w s with heq | ⟨-, -, heq⟩
    · rw [heq]
      omega
    · rw [heq]
      simp only [Proc.changeStateFailed]
      omega
  · rcases checkDecline_cases w s with heq | ⟨-, -, heq⟩
    · rw [heq]
    · rw [heq] at hrun
      simp [htask] at hrun

/-- A counted vote keeps the process sound: an approval is from a UBot with the same, a decline from one
    without. -/
theorem Sound.counted (h : Sound w u s) (htask : s.getHashesTask = .running) (hv : v ∈ w.pool) :
    Sound w u (if s.binHashId = some (w.binHashId v) ∧ s.previousRecordId = w.previousRecordId v then
      { s with approveCounterSet := insert v s.approveCounterSet }
    else { s with declineCounterSet := insert v s.declineCounterSet }) := by
  obtain ⟨h', hh'⟩ := Option.ne_none_iff_exists'.mp (h.task (by simp [htask]))
  obtain ⟨rfl, hprevious, -⟩ := h.hash h' hh'
  split
  next hsame =>
    have hvu : Same w v u :=
      ⟨Option.some.inj (hsame.1.symm.trans hh'), hsame.2.symm.trans hprevious⟩
    exact { h with
      approve := by
        intro v' hv'
        rcases Finset.mem_insert.mp hv' with rfl | hv'
        · exact ⟨hv, hvu⟩
        · exact h.approve v' hv'
      wrote := fun hw => ⟨(h.wrote hw).1.trans (Finset.card_le_card (Finset.subset_insert _ _)),
        (h.wrote hw).2⟩ }
  next hother =>
    exact { h with
      decline := by
        intro v' hv'
        rcases Finset.mem_insert.mp hv' with rfl | hv'
        · rintro ⟨hhash, hprev⟩
          exact hother ⟨by rw [hh', hhash], by rw [hprevious, hprev]⟩
        · exact h.decline v' hv' }

theorem Sound.vote (h : Sound w u s) (htask : s.getHashesTask = .running) (hv : v ∈ w.pool) :
    Sound w u (s.vote w v (w.binHashId v) (w.previousRecordId v)) := by
  have hcounted := h.counted htask hv
  rw [Proc.vote]
  have htask' : (if s.binHashId = some (w.binHashId v) ∧ s.previousRecordId = w.previousRecordId v then
      { s with approveCounterSet := insert v s.approveCounterSet }
    else { s with declineCounterSet := insert v s.declineCounterSet }).getHashesTask = .running := by
    split <;> exact htask
  revert hcounted htask'
  generalize (if s.binHashId = some (w.binHashId v) ∧ s.previousRecordId = w.previousRecordId v then
      { s with approveCounterSet := insert v s.approveCounterSet }
    else { s with declineCounterSet := insert v s.declineCounterSet }) = s'
  intro hcounted htask'
  split
  next hquorum =>
    obtain ⟨h', hh'⟩ := Option.ne_none_iff_exists'.mp (hcounted.task (by simp [htask']))
    obtain ⟨rfl, hprevious, hsize⟩ := hcounted.hash h' hh'
    have hzero := hcounted.waiting (by simp [htask'])
    exact { hcounted with
      task := fun _ => by simp [hh']
      calls := by
        simp only [Bool.toNat_true]
        omega
      waiting := fun hc => absurd rfl hc
      wrote := fun _ => ⟨hsize ▸ hquorum, hh', by simp [hh', hprevious]⟩ }
  next => exact hcounted.checkDecline htask'

theorem Sound.written (h : Sound w u s) (hw : s.writing = true) (success : Bool) :
    Sound w u (s.written success) := by
  have hcalls : s.onReady + s.onFailed + 1 ≤ 1 := by
    simpa only [hw, Bool.toNat_true] using h.calls
  have hcancelled : s.getHashesTask = .cancelled := by
    by_contra hne
    have := h.waiting hne
    rw [hw] at this
    simp at this
  cases success with
  | true =>
      exact { h with
        calls := by
          simp only [Proc.written, if_true, Bool.toNat_false]
          omega
        waiting := fun hne => absurd hcancelled hne
        wrote := fun _ => h.wrote (.inl hw) }
  | false =>
      exact { h with
        calls := by
          simp only [Proc.written, Bool.false_eq_true, if_false, Proc.changeStateFailed,
            Bool.toNat_false]
          omega
        waiting := fun hne => absurd hcancelled hne
        wrote := fun _ => h.wrote (.inl hw) }

/-! ### The pool -/

/-- Every process is sound, requests are for UBots of the pool, and answers say what their sender
    writes. -/
structure Invariant (w : Write U H) (s : State U H) : Prop where
  procs : ∀ u, Sound w u (s.proc u)
  requests : ∀ u v, .request u v ∈ s.sent → v ∈ w.pool
  answers : ∀ v u h previous, .answer v u h previous ∈ s.sent →
    v ∈ w.pool ∧ h = w.binHashId v ∧ previous = w.previousRecordId v

theorem Invariant.set {s : State U H} (hs : Invariant w s) {p : Proc U H} {sent : List (Message U H)}
    (hp : Sound w u p) (hrequests : ∀ u v, .request u v ∈ sent → v ∈ w.pool)
    (hanswers : ∀ v u h previous, .answer v u h previous ∈ sent →
      v ∈ w.pool ∧ h = w.binHashId v ∧ previous = w.previousRecordId v) :
    Invariant w (s.set u p sent) where
  procs u' := by
    by_cases hu : u' = u
    · subst hu
      simpa [State.set] using hp
    · simpa [State.set, hu] using hs.procs u'
  requests u' v' h := (List.mem_append.mp h).elim (hs.requests u' v') (hrequests u' v')
  answers v' u' h' previous h :=
    (List.mem_append.mp h).elim (hs.answers v' u' h' previous) (hanswers v' u' h' previous)

theorem Invariant.quiet {s : State U H} (hs : Invariant w s) {p : Proc U H} (hp : Sound w u p) :
    Invariant w (s.set u p []) := hs.set hp nofun nofun

/-- A process that pulses sends requests only. -/
theorem Invariant.pulsed {s : State U H} (hs : Invariant w s) {p q : Proc U H} (hp : Sound w u p) :
    Invariant w (s.set u p (q.pulse w u expired).2) := by
  refine hs.set hp (fun u' v' h => ?_) fun v' u' h' previous h => ?_
  · obtain ⟨v, hv, heq⟩ := pulseLoop_sent h
    cases heq
    exact hv
  · obtain ⟨v, -, heq⟩ := pulseLoop_sent h
    cases heq

/-- An answer says what the process writes. -/
theorem Sound.answerTo (h : Sound w u s) (hu : u ∈ w.pool) {v v' u' : U} {h' : H}
    {previous : Option H} (hm : .answer v' u' h' previous ∈ s.answerTo u v) :
    v' ∈ w.pool ∧ h' = w.binHashId v' ∧ previous = w.previousRecordId v' := by
  unfold Proc.answerTo at hm
  cases hhash : s.binHashId with
  | none =>
      rw [hhash] at hm
      cases hm
  | some hown =>
      rw [hhash] at hm
      obtain ⟨rfl, rfl, rfl, rfl⟩ := Message.answer.inj (List.mem_singleton.mp hm)
      exact ⟨hu, (h.hash _ hhash).1, (h.hash _ hhash).2.1⟩

theorem answerTo_request {v u' v' : U} : Message.request u' v' ∉ s.answerTo u v := by
  unfold Proc.answerTo
  cases s.binHashId <;> simp

/-- Every action that meets the condition keeps the invariant. -/
theorem step_invariant (s : State U H) (a : Action U H) (s' : State U H) (hs : Invariant w s)
    (hfits : Fits w s a) (hstep : step w s a = some s') : Invariant w s' := by
  cases a with
  | init u storage =>
      simp only [step, Option.ite_none_right_eq_some, Option.some.injEq] at hstep
      obtain ⟨⟨-, hnone⟩, rfl⟩ := hstep
      obtain rfl : storage = .accepted := hfits
      exact hs.quiet ((hs.procs u).init hnone)
  | start u expired =>
      simp only [step, Option.ite_none_right_eq_some, Option.some.injEq] at hstep
      obtain ⟨⟨hu, hsome, htask⟩, rfl⟩ := hstep
      exact hs.pulsed ((hs.procs u).start hu hsome htask hfits)
  | pulse u expired =>
      simp only [step, Option.ite_none_right_eq_some, Option.some.injEq] at hstep
      obtain ⟨⟨-, htask⟩, rfl⟩ := hstep
      exact hs.pulsed ((hs.procs u).pulse htask hfits)
  | deliver m =>
      cases m with
      | request v u =>
          simp only [step, Option.ite_none_right_eq_some, Option.some.injEq] at hstep
          obtain ⟨hm, rfl⟩ := hstep
          exact hs.set (hs.procs u) (fun _ _ h => absurd h answerTo_request)
            fun _ _ _ _ h => (hs.procs u).answerTo (hs.requests v u hm) h
      | answer v u h previous =>
          simp only [step, Option.ite_none_right_eq_some, Option.some.injEq] at hstep
          obtain ⟨hm, rfl⟩ := hstep
          obtain ⟨hv, rfl, rfl⟩ := hs.answers v u h previous hm
          refine hs.quiet ?_
          unfold Proc.onAnswer
          cases htask : (s.proc u).getHashesTask with
          | none => exact (hs.procs u).changeState _
          | cancelled => exact hs.procs u
          | running => exact (hs.procs u).vote htask hv
  | written u success =>
      simp only [step, Option.ite_none_right_eq_some, Option.some.injEq] at hstep
      obtain ⟨hw, rfl⟩ := hstep
      exact hs.quiet ((hs.procs u).written hw success)
  | changeState u state =>
      simp only [step, Option.ite_none_right_eq_some, Option.some.injEq] at hstep
      obtain ⟨-, rfl⟩ := hstep
      exact hs.quiet ((hs.procs u).changeState state)

theorem start_invariant (w : Write U H) : Invariant w State.start where
  procs u := sound_created w u
  requests _ _ := nofun
  answers _ _ _ _ := nofun

/-- Two processes that wrote have a UBot in both quorums, and so wrote the same. -/
theorem Invariant.agreed {s : State U H} (hs : Invariant w s) : Agreed w s where
  same u v hu hv := by
    obtain ⟨hqu, hbu, hru⟩ := (hs.procs u).wrote (.inr hu)
    obtain ⟨hqv, hbv, hrv⟩ := (hs.procs v).wrote (.inr hv)
    have hsub : ∀ u, (s.proc u).approveCounterSet ⊆ w.pool.toFinset := fun u x hx =>
      List.mem_toFinset.mpr ((hs.procs u).approve x hx).1
    have hcard : w.pool.toFinset.card <
        (s.proc u).approveCounterSet.card + (s.proc v).approveCounterSet.card := by
      rw [List.toFinset_card_of_nodup w.nodup]
      have := w.majority
      omega
    obtain ⟨x, hx⟩ := Finset.inter_nonempty_of_card_lt_card_add_card (hsub u) (hsub v) hcard
    obtain ⟨hxu, hxv⟩ := Finset.mem_inter.mp hx
    obtain ⟨hu', hpu⟩ := ((hs.procs u).approve x hxu).2
    obtain ⟨hv', hpv⟩ := ((hs.procs v).approve x hxv).2
    rw [hbu, hbv, hru, hrv, ← hu', ← hv', ← hpu, ← hpv]
    exact ⟨rfl, rfl⟩
  once u := (Nat.le_add_right _ _).trans (hs.procs u).calls
  declines u v hv := (hs.procs u).decline v hv

/-! ### Agreement of the pool -/

/-- CODE DEFECT (single storage): in every run whose steps all meet the condition the UBots agree. -/
theorem run_agreed (w : Write U H) (as : List (Action U H)) {s : State U H}
    (hfits : Run.Meets (step w) (Fits w) State.start as)
    (hrun : Run.run (step w) State.start as = some s) : Agreed w s :=
  (Run.invariant step_invariant (start_invariant w) hfits hrun).agreed

end

theorem twoWrites_nodup : [false, true].Nodup :=
  List.nodup_cons.mpr ⟨fun h => Bool.false_ne_true (List.mem_singleton.mp h), List.nodup_singleton _⟩

theorem twoWrites_majority : [false, true].length < 2 * 2 := Nat.lt_add_of_pos_right Nat.zero_lt_two

/-- Two UBots that write the same. -/
def twoWrites : Write Bool ℕ where
  pool := [false, true]
  nodup := twoWrites_nodup
  quorumSize := 2
  majority := twoWrites_majority
  binHashId _ := 7
  previousRecordId _ := none
  defaultRecordId := 0
  hashOf := List.foldr Nat.add 0

/-- One of them asks, gets the answer and writes, after `init` found this. -/
def askAndWrite (storage : StorageData) : List (Action Bool ℕ) :=
  [.init false storage, .init true .accepted, .start false fun _ => false,
    .start true fun _ => false, .deliver (.request false true),
    .deliver (.answer true false 7 none), .written false true]

theorem run_agreed_two : ∃ s,
    Run.run (step twoWrites) State.start (askAndWrite .accepted) = some s ∧
    (s.proc false).onReady = 1 ∧ Agreed twoWrites s := by
  refine ⟨_, rfl, rfl, run_agreed twoWrites (askAndWrite .accepted) ?_ rfl⟩
  refine Run.meets_cons rfl rfl (Run.meets_cons rfl rfl ?_)
  refine Run.meets_cons (Or.inr (by decide)) rfl (Run.meets_cons (Or.inr (by decide)) rfl ?_)
  exact Run.meets_cons trivial rfl (Run.meets_cons trivial rfl (Run.meets_cons trivial rfl trivial))

/-- Where the contract wants a larger pool for the storage, with the quorum that the process has, `init` fails the
    write, which goes on and is ready. -/
theorem run_not_agreed : ∃ s,
    Run.run (step twoWrites) State.start (askAndWrite .insufficient) = some s ∧
    (s.proc false).onFailed = 1 ∧ (s.proc false).onReady = 1 ∧ ¬ Agreed twoWrites s :=
  ⟨_, rfl, rfl, rfl, fun h => absurd (h.once false) (by decide)⟩

end Universa.Ubot.WriteSingleStorage
