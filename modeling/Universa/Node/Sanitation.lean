import Mathlib.Data.List.Nodup
import Mathlib.Logic.Function.Basic
import Universa.Lib.Run
import Universa.Node.StateRecord

/-! Sanitation of the ledger at the start of a node (`node.js`): the records that were left pending are
    resynced, and the records that they had locked are released when their locker is done.

    A run is a list of actions: a pulse of `startSanitation`, the end of a resync with its record, and a
    change of a row by others. The ledger's rows are found by record id; whether the writes of one end
    succeed is part of the action. -/

namespace Universa.Node

/-- The records to sanitate in the order of their map, those whose resync was started, and the rows. -/
structure Sanitation (H : Type) where
  recordsToSanitate : List (StateRecord H)
  sanitatingIds : List H
  ledger : ℕ → Option (StateRecord H)

namespace Sanitation
variable {H : Type}

/-- `recordsToSanitate.keys()`. -/
def ids (s : Sanitation H) : List H := s.recordsToSanitate.map (·.id)

/-- The states in which `startSanitation` does not resync a record. -/
def isLocked (r : StateRecord H) : Bool :=
  decide (r.state = .LOCKED ∨ r.state = .LOCKED_FOR_CREATION ∨ r.state = .LOCKED_FOR_CREATION_REVOKED)

/-- `MAX_SANITATING_RECORDS`. -/
def maxSanitatingRecords : ℕ := 64

/-! ### Releases -/

/-- What `removeLocks` does to a locked record. -/
inductive Release where
  | revoke
  | approve
  | destroy

/-- The branches of `removeLocks` on the states of the locker and of the locked record. -/
def release (locker locked : ItemState) : Option Release :=
  match locker with
  | .APPROVED =>
      match locked with
      | .LOCKED => some .revoke
      | .LOCKED_FOR_CREATION => some .approve
      | _ => none
  | .DECLINED =>
      match locked with
      | .LOCKED => some .approve
      | .LOCKED_FOR_CREATION => some .destroy
      | _ => none
  | .REVOKED =>
      match locked with
      | .LOCKED => some .revoke
      | .LOCKED_FOR_CREATION => some .approve
      | _ => none
  | .UNDEFINED =>
      match locked with
      | .LOCKED => some .approve
      | .LOCKED_FOR_CREATION => some .destroy
      | _ => none
  | _ => none

/-- The record object after the release, before it is written; `destroy` sets its state first. -/
def Release.object (release : Release) (now : ℤ) (r : StateRecord H) :
    Except LedgerError (StateRecord H) :=
  match release with
  | .revoke => r.revoke now true
  | .approve => r.approve none true
  | .destroy => .ok { r with state := .UNDEFINED }

/-- `ledger.destroy` refuses a record without a recordId. -/
def Release.refuses (release : Release) (object : StateRecord H) : Bool :=
  match release with
  | .revoke | .approve => false
  | .destroy => object.recordId == 0

/-- What is written: the row of the record's id, if there is one. -/
def Release.write (release : Release) (object : StateRecord H) (ledger : ℕ → Option (StateRecord H)) :
    ℕ → Option (StateRecord H) := fun recordId =>
  if recordId = object.recordId then
    match release with
    | .revoke | .approve => (ledger recordId).map fun _ => object
    | .destroy => none
  else ledger recordId

/-- One record of the loop of `removeLocks`: it leaves the records to sanitate when it was written. -/
def removeLock (record : StateRecord H) (writes : H → Bool) (now : ℤ) (r : StateRecord H)
    (ledger : ℕ → Option (StateRecord H)) : Option (StateRecord H) × (ℕ → Option (StateRecord H)) :=
  if r.lockedByRecordId = record.recordId then
    match release record.state r.state with
    | none => (some r, ledger)
    | some release =>
        match release.object now r with
        | .error _ => (some r, ledger)
        | .ok object =>
            if writes r.id && !release.refuses object then (none, release.write object ledger)
            else (some object, ledger)
  else (some r, ledger)

/-- `removeLocks(record)` over these records. -/
def removeLocks (record : StateRecord H) (writes : H → Bool) (now : ℤ) :
    List (StateRecord H) → (ℕ → Option (StateRecord H)) →
      List (StateRecord H) × (ℕ → Option (StateRecord H))
  | [], ledger => ([], ledger)
  | r :: rs, ledger =>
      let (kept, ledger) := removeLock record writes now r ledger
      let (rest, ledger) := removeLocks record writes now rs ledger
      (kept.toList ++ rest, ledger)

/-! ### Steps -/

variable [DecidableEq H]

/-- The loop of `startSanitation` that starts resyncs. -/
def pick : List (StateRecord H) → List H → List H
  | [], ids => ids
  | r :: rs, ids =>
      if isLocked r = false ∧ r.id ∉ ids then
        if (ids ++ [r.id]).length = maxSanitatingRecords then ids ++ [r.id]
        else pick rs (ids ++ [r.id])
      else pick rs ids

/-- `startSanitation()`. -/
def startSanitation (s : Sanitation H) : Sanitation H :=
  if s.recordsToSanitate.isEmpty then s
  else
    let sanitatingIds := s.sanitatingIds.filter (· ∈ s.ids)
    if sanitatingIds.length < maxSanitatingRecords then
      let sanitatingIds := pick s.recordsToSanitate sanitatingIds
      if sanitatingIds.isEmpty then
        { s with recordsToSanitate := [], sanitatingIds := sanitatingIds }
      else { s with sanitatingIds := sanitatingIds }
    else { s with sanitatingIds := sanitatingIds }

/-- The record leaves the records to sanitate, and so do those that it had locked. -/
def finish (s : Sanitation H) (record : StateRecord H) (writes : H → Bool) (now : ℤ) : Sanitation H :=
  let (records, ledger) :=
    removeLocks record writes now (s.recordsToSanitate.filter fun r => r.id ≠ record.id) s.ledger
  { s with recordsToSanitate := records, ledger := ledger }

/-- `itemSanitationDone(record)`; of no record it throws. -/
def itemSanitationDone (s : Sanitation H) (record : Option (StateRecord H)) (writes : H → Bool)
    (now : ℤ) : Sanitation H :=
  match record with
  | none => s
  | some record => if record.id ∈ s.ids then s.finish record writes now else s

/-- `itemSanitationFailed(record)`, without the vote that it restarts. -/
def itemSanitationFailed (s : Sanitation H) (record : Option (StateRecord H)) (writes : H → Bool)
    (now : ℤ) (destroyed : Bool) : Sanitation H :=
  match record with
  | none => s
  | some record =>
      if record.id ∈ s.ids then
        let s := s.finish { record with state := .UNDEFINED } writes now
        if destroyed then { s with ledger := Release.destroy.write record s.ledger } else s
      else s

/-- What can happen during sanitation. -/
inductive Action (H : Type) where
  | pulse
  | done (record : Option (StateRecord H)) (writes : H → Bool) (now : ℤ)
  | failed (record : Option (StateRecord H)) (writes : H → Bool) (now : ℤ) (destroyed : Bool)
  | ledgerChanges (recordId : ℕ) (row : Option (StateRecord H))

def step (s : Sanitation H) : Action H → Option (Sanitation H)
  | .pulse => some s.startSanitation
  | .done record writes now => some (s.itemSanitationDone record writes now)
  | .failed record writes now destroyed =>
      some (s.itemSanitationFailed record writes now destroyed)
  | .ledgerChanges recordId row => some { s with ledger := Function.update s.ledger recordId row }

/-! ### Final states -/

/-- The record has left the records to sanitate, and its row, if there is one, has this state; or it has
    no row any more. -/
def Final (s : Sanitation H) (r : StateRecord H) : Option ItemState → Prop
  | some state => r.id ∉ s.ids ∧ ∀ row, s.ledger r.recordId = some row → row.state = state
  | none => r.id ∉ s.ids ∧ s.ledger r.recordId = none

/-- What becomes of a record with a lock: an APPROVED locker, and one approved and then REVOKED, revokes
    what it locked and creates what it locked for creation; any other locker gives back the former and
    removes the latter. -/
def finalState (locker : ItemState) (locked : ItemState) : Option ItemState :=
  if locker = .APPROVED ∨ locker = .REVOKED then
    if locked = .LOCKED then some .REVOKED else some .APPROVED
  else if locked = .LOCKED then some .APPROVED else none

/-- The ends of a resync that `itemSanitationDone` is for. -/
def Reached (state : ItemState) : Prop :=
  state = .APPROVED ∨ state = .DECLINED ∨ state = .REVOKED ∨ state = .UNDEFINED

/-- The records to sanitate are keyed by id, and each has a row of its own in the ledger. -/
structure Keyed (s : Sanitation H) : Prop where
  ids : s.ids.Nodup
  recordIds : (s.recordsToSanitate.map (·.recordId)).Nodup
  created : 0 ∉ s.recordsToSanitate.map (·.recordId)

/-- Rounds of sanitation: a pulse, and any actions until every resync that was started has ended. -/
inductive Rounds (s : Sanitation H) : ℕ → Sanitation H → Prop where
  | start : Rounds s 0 s
  | round {n : ℕ} {s₁ s₂ : Sanitation H} {as : List (Action H)} (h : Rounds s n s₁)
      (hrun : Run.run step s₁.startSanitation as = some s₂)
      (hended : ∀ id ∈ s₁.startSanitation.sanitatingIds, id ∉ s₂.ids) : Rounds s (n + 1) s₂

/-! ### One record -/

omit [DecidableEq H] in
/-- A release keeps the ids of a record. -/
theorem object_ok {release : Release} {now : ℤ} {r r' : StateRecord H}
    (h : release.object now r = .ok r') : r'.id = r.id ∧ r'.recordId = r.recordId := by
  cases release with
  | revoke =>
      simp only [Release.object, StateRecord.revoke] at h
      split at h
      next =>
        obtain rfl := Except.ok.inj h
        exact ⟨rfl, rfl⟩
      next => cases h
  | approve =>
      simp only [Release.object, StateRecord.approve] at h
      split at h
      next =>
        obtain rfl := Except.ok.inj h
        exact ⟨rfl, rfl⟩
      next => cases h
  | destroy =>
      obtain rfl := Except.ok.inj h
      exact ⟨rfl, rfl⟩

omit [DecidableEq H] in
theorem write_other {release : Release} {object : StateRecord H}
    {ledger : ℕ → Option (StateRecord H)} {recordId : ℕ} (h : recordId ≠ object.recordId) :
    release.write object ledger recordId = ledger recordId := by
  simp only [Release.write, if_neg h]

variable {record r r' : StateRecord H} {writes : H → Bool} {now : ℤ}
  {ledger : ℕ → Option (StateRecord H)} {rs : List (StateRecord H)}

omit [DecidableEq H] in
/-- Of a locked record, each end that a locker can reach makes a write that leaves the final state. -/
theorem released {locker : ItemState} (now : ℤ) (hlocker : Reached locker)
    (hstate : r.state = .LOCKED ∨ r.state = .LOCKED_FOR_CREATION) (hrecordId : r.recordId ≠ 0) :
    ∃ rel object, release locker r.state = some rel ∧ rel.object now r = .ok object ∧
      rel.refuses object = false ∧ ∀ ledger, match finalState locker r.state with
        | some state =>
            ∀ row, rel.write object ledger r.recordId = some row → row.state = state
        | none => rel.write object ledger r.recordId = none := by
  have hrevoke : r.state = .LOCKED →
      ∃ object, r.revoke now true = .ok object ∧ ∀ ledger row,
        Release.revoke.write object ledger r.recordId = some row → row.state = .REVOKED := by
    intro h
    refine ⟨_, if_pos (.inl h), fun ledger row hrow => ?_⟩
    rw [Release.write, if_pos rfl, Option.map_eq_some_iff] at hrow
    obtain ⟨-, -, rfl⟩ := hrow
    rfl
  have happrove : ∃ object, r.approve none true = .ok object ∧ ∀ ledger row,
      Release.approve.write object ledger r.recordId = some row → row.state = .APPROVED := by
    refine ⟨_, if_pos ?_, fun ledger row hrow => ?_⟩
    · rcases hstate with h | h <;> simp [h]
    · rw [Release.write, if_pos rfl, Option.map_eq_some_iff] at hrow
      obtain ⟨-, -, rfl⟩ := hrow
      rfl
  have hdestroy : Release.destroy.object now r = .ok { r with state := .UNDEFINED } ∧
      Release.destroy.refuses { r with state := .UNDEFINED } = false ∧ ∀ ledger,
      Release.destroy.write { r with state := .UNDEFINED } ledger r.recordId = none :=
    ⟨rfl, by simpa [Release.refuses] using hrecordId, fun ledger => if_pos rfl⟩
  obtain ⟨approved, happrove, happroved⟩ := happrove
  rcases hstate with h | h
  · obtain ⟨revoked, hrevoke, hrevoked⟩ := hrevoke h
    rw [h]
    rcases hlocker with rfl | rfl | rfl | rfl
    · exact ⟨.revoke, revoked, rfl, hrevoke, rfl, hrevoked⟩
    · exact ⟨.approve, approved, rfl, happrove, rfl, happroved⟩
    · exact ⟨.revoke, revoked, rfl, hrevoke, rfl, hrevoked⟩
    · exact ⟨.approve, approved, rfl, happrove, rfl, happroved⟩
  · rw [h]
    rcases hlocker with rfl | rfl | rfl | rfl
    · exact ⟨.approve, approved, rfl, happrove, rfl, happroved⟩
    · exact ⟨.destroy, _, rfl, hdestroy⟩
    · exact ⟨.approve, approved, rfl, happrove, rfl, happroved⟩
    · exact ⟨.destroy, _, rfl, hdestroy⟩

omit [DecidableEq H] in
/-- A record of the loop stays with its ids, or it was written; no other row changes. -/
theorem removeLock_cases (record : StateRecord H) (writes : H → Bool) (now : ℤ) (r : StateRecord H)
    (ledger : ℕ → Option (StateRecord H)) :
    (∀ r', (removeLock record writes now r ledger).1 = some r' →
      r'.id = r.id ∧ r'.recordId = r.recordId) ∧
    ∀ recordId, recordId ≠ r.recordId → (removeLock record writes now r ledger).2 recordId =
      ledger recordId := by
  unfold removeLock
  split
  next =>
    cases hrel : release record.state r.state with
    | none => exact ⟨fun r' h => Option.some.inj h ▸ ⟨rfl, rfl⟩, fun _ _ => rfl⟩
    | some rel =>
        cases hobj : rel.object now r with
        | error e =>
            simp only [hobj]
            exact ⟨fun r' h => Option.some.inj h ▸ ⟨rfl, rfl⟩, fun _ _ => trivial⟩
        | ok object =>
            obtain ⟨hid, hrecordId⟩ := object_ok hobj
            simp only [hobj]
            split
            next => exact ⟨(by simp), fun k hk => write_other (hrecordId ▸ hk)⟩
            next => exact ⟨fun r' h => Option.some.inj h ▸ ⟨hid, hrecordId⟩, fun _ _ => rfl⟩
  next => exact ⟨fun r' h => Option.some.inj h ▸ ⟨rfl, rfl⟩, fun _ _ => rfl⟩

/-! ### The loop -/

omit [DecidableEq H] in
/-- The records that stay keep their ids and their order. -/
theorem removeLocks_kept (record : StateRecord H) (writes : H → Bool) (now : ℤ)
    (rs : List (StateRecord H)) : ∀ ledger,
    List.Sublist ((removeLocks record writes now rs ledger).1.map (·.id)) (rs.map (·.id)) ∧
    List.Sublist ((removeLocks record writes now rs ledger).1.map (·.recordId))
      (rs.map (·.recordId)) := by
  induction rs with
  | nil => exact fun _ => ⟨.refl _, .refl _⟩
  | cons r rs ih =>
      intro ledger
      obtain ⟨hkept, -⟩ := removeLock_cases record writes now r ledger
      rw [removeLocks]
      rcases hl : removeLock record writes now r ledger with ⟨kept, ledger'⟩
      rw [hl] at hkept
      obtain ⟨hids, hrecordIds⟩ := ih ledger'
      cases kept with
      | none => exact ⟨hids.cons _, hrecordIds.cons _⟩
      | some r₂ =>
          obtain ⟨hid, hrecordId⟩ := hkept r₂ rfl
          refine ⟨?_, ?_⟩
          · simpa [hid] using hids
          · simpa [hrecordId] using hrecordIds

omit [DecidableEq H] in
/-- The rows of other records stay. -/
theorem removeLocks_other {recordId : ℕ} : ∀ ledger, recordId ∉ rs.map (·.recordId) →
    (removeLocks record writes now rs ledger).2 recordId = ledger recordId := by
  induction rs with
  | nil => exact fun _ _ => rfl
  | cons r rs ih =>
      intro ledger h
      rw [List.map_cons, List.mem_cons, not_or] at h
      rw [removeLocks]
      exact (ih _ h.2).trans ((removeLock_cases record writes now r ledger).2 recordId h.1)

omit [DecidableEq H] in
/-- A locked record of the loop that is written leaves it, and its row is what the release writes. -/
theorem removeLocks_released {rel : Release} {object : StateRecord H}
    (hlocked : r.lockedByRecordId = record.recordId)
    (hrel : release record.state r.state = some rel) (hobj : rel.object now r = .ok object)
    (hrefuses : rel.refuses object = false) (hwrites : writes r.id = true) (hr : r ∈ rs) :
    ∀ ledger, (rs.map (·.id)).Nodup → (rs.map (·.recordId)).Nodup →
      r.id ∉ (removeLocks record writes now rs ledger).1.map (·.id) ∧
      (removeLocks record writes now rs ledger).2 r.recordId =
        rel.write object ledger r.recordId := by
  induction rs with
  | nil => cases hr
  | cons r₀ rs ih =>
      intro ledger hids hrecordIds
      obtain ⟨hid₀, hids⟩ := List.nodup_cons.mp hids
      obtain ⟨hrecordId₀, hrecordIds⟩ := List.nodup_cons.mp hrecordIds
      rw [removeLocks]
      rcases List.mem_cons.mp hr with rfl | hr
      · have hone : removeLock record writes now r ledger = (none, rel.write object ledger) := by
          rw [removeLock, if_pos hlocked]
          simp only [hrel, hobj, hrefuses, hwrites, Bool.not_false, Bool.and_self, if_true]
        rw [hone]
        exact ⟨fun h => hid₀ ((removeLocks_kept record writes now rs _).1.subset h),
          removeLocks_other _ hrecordId₀⟩
      · obtain ⟨hkept, hother⟩ := removeLock_cases record writes now r₀ ledger
        have hne : r.recordId ≠ r₀.recordId := fun h =>
          hrecordId₀ (List.mem_map.mpr ⟨r, hr, h⟩)
        rcases hl : removeLock record writes now r₀ ledger with ⟨kept, ledger'⟩
        rw [hl] at hkept hother
        obtain ⟨hgone, hrow⟩ := ih hr ledger' hids hrecordIds
        refine ⟨?_, ?_⟩
        · cases kept with
          | none => exact hgone
          | some r₁ =>
              have hid : r.id ≠ r₁.id := fun h =>
                hid₀ (List.mem_map.mpr ⟨r, hr, h.trans (hkept r₁ rfl).1⟩)
              simpa [hid] using hgone
        · rw [hrow]
          replace hother := hother r.recordId hne
          simp only [Release.write]
          split
          next =>
            change ledger' r.recordId = ledger r.recordId at hother
            rw [hother]
          next => exact hother

/-! ### Steps of a run -/

/-- `s'` has records of `s` only, in their order. -/
def Shrinks (s s' : Sanitation H) : Prop :=
  List.Sublist s'.ids s.ids ∧
  List.Sublist (s'.recordsToSanitate.map (·.recordId)) (s.recordsToSanitate.map (·.recordId))

variable {s s' : Sanitation H} {as : List (Action H)}

omit [DecidableEq H] in
theorem Shrinks.refl : Shrinks s s := ⟨.refl _, .refl _⟩

omit [DecidableEq H] in
theorem Shrinks.trans {s'' : Sanitation H} (h : Shrinks s s') (h' : Shrinks s' s'') : Shrinks s s'' :=
  ⟨h'.1.trans h.1, h'.2.trans h.2⟩

omit [DecidableEq H] in
theorem Keyed.of_shrinks (h : Keyed s) (hs : Shrinks s s') : Keyed s' where
  ids := h.ids.sublist hs.1
  recordIds := h.recordIds.sublist hs.2
  created := fun h0 => h.created (hs.2.subset h0)

theorem startSanitation_shrinks : Shrinks s s.startSanitation := by
  unfold startSanitation
  split
  next => exact .refl
  next =>
    simp only
    split
    next =>
      split
      next => exact ⟨List.nil_sublist _, List.nil_sublist _⟩
      next => exact .refl
    next => exact .refl

theorem finish_shrinks : Shrinks s (s.finish record writes now) := by
  have hfilter : List.Sublist (s.recordsToSanitate.filter fun r => r.id ≠ record.id)
      s.recordsToSanitate := List.filter_sublist
  obtain ⟨hids, hrecordIds⟩ := removeLocks_kept record writes now
    (s.recordsToSanitate.filter fun r => r.id ≠ record.id) s.ledger
  exact ⟨hids.trans (hfilter.map _), hrecordIds.trans (hfilter.map _)⟩

/-- Nothing comes to the records to sanitate. -/
theorem step_shrinks {a : Action H} (h : step s a = some s') : Shrinks s s' := by
  cases a with
  | pulse =>
      obtain rfl := Option.some.inj h
      exact startSanitation_shrinks
  | done record writes now =>
      obtain rfl := Option.some.inj h
      unfold itemSanitationDone
      split
      next => exact .refl
      next =>
        split
        next => exact finish_shrinks
        next => exact .refl
  | failed record writes now destroyed =>
      obtain rfl := Option.some.inj h
      unfold itemSanitationFailed
      split
      next => exact .refl
      next =>
        split
        next =>
          simp only
          split
          next => exact finish_shrinks
          next => exact finish_shrinks
        next => exact .refl
  | ledgerChanges recordId row =>
      obtain rfl := Option.some.inj h
      exact .refl

theorem run_shrinks (h : Run.run step s as = some s') : Shrinks s s' := by
  induction as generalizing s with
  | nil => exact Option.some.inj h ▸ .refl
  | cons a as ih =>
      obtain ⟨s₁, ha, h⟩ := Run.run_cons.mp h
      exact (step_shrinks ha).trans (ih h)

/-! ### Progress -/

theorem mem_pick {id : H} : ∀ {ids}, id ∈ pick rs ids → id ∈ ids ∨ id ∈ rs.map (·.id) := by
  induction rs with
  | nil => exact fun h => .inl h
  | cons r rs ih =>
      intro ids h
      rw [pick] at h
      rw [List.map_cons, List.mem_cons]
      have hadd : id ∈ ids ++ [r.id] → id ∈ ids ∨ id = r.id := by simp
      split at h
      next =>
        split at h
        next => exact (hadd h).imp_right .inl
        next =>
          rcases ih h with h | h
          · exact (hadd h).imp_right .inl
          · exact .inr (.inr h)
      next => exact (ih h).imp_right .inr

/-- After a pulse no record is left to sanitate, or the resync of one of them has been started. -/
theorem startSanitation_progress (s : Sanitation H) :
    s.startSanitation.recordsToSanitate = [] ∨
      ∃ id ∈ s.startSanitation.sanitatingIds, id ∈ s.ids := by
  have hfilter : ∀ id, id ∈ s.sanitatingIds.filter (· ∈ s.ids) → id ∈ s.ids := by
    intro id h
    simpa using (List.mem_filter.mp h).2
  unfold startSanitation
  split
  next h => exact .inl (List.isEmpty_iff.mp h)
  next =>
    simp only
    split
    next =>
      split
      next => exact .inl rfl
      next h =>
        refine .inr ?_
        obtain ⟨id, hid⟩ := List.exists_mem_of_ne_nil _ (mt List.isEmpty_iff.mpr h)
        exact ⟨id, hid, (mem_pick hid).elim (hfilter id) fun h => h⟩
    next h =>
      refine .inr ?_
      have hne : s.sanitatingIds.filter (· ∈ s.ids) ≠ [] := by
        rintro hnil
        rw [hnil] at h
        exact h (Nat.zero_lt_succ 63)
      obtain ⟨id, hid⟩ := List.exists_mem_of_ne_nil _ hne
      exact ⟨id, hid, hfilter id hid⟩

/-- Each round ends a record, until there is none. -/
theorem rounds_length {n : ℕ} (h : Rounds s n s') :
    s'.recordsToSanitate.length + n ≤ s.recordsToSanitate.length ∨ s'.recordsToSanitate = [] := by
  induction h with
  | start => exact .inl (Nat.le_refl _)
  | @round n s₁ s₂ as _ hrun hended ih =>
      have hshrinks := startSanitation_shrinks.trans (run_shrinks hrun)
      have hlength : s₂.recordsToSanitate.length ≤ s₁.recordsToSanitate.length := by
        simpa [ids] using hshrinks.1.length_le
      rcases startSanitation_progress s₁ with hnil | ⟨id, hid, hmem⟩
      · have h₂ := (run_shrinks hrun).1
        rw [ids, ids, hnil, List.map_nil, List.sublist_nil, List.map_eq_nil_iff] at h₂
        exact .inr h₂
      · have hlt : s₂.recordsToSanitate.length ≠ s₁.recordsToSanitate.length := by
          intro heq
          have hsame := hshrinks.1.eq_of_length (by simpa [ids] using heq)
          exact hended id hid (hsame ▸ hmem)
        rcases ih with ih | ih
        · exact .inl (by omega)
        · rw [ih, List.length_nil] at hlength
          exact .inr (List.length_eq_zero_iff.mp (by omega))

/-! ### The main results -/

/-- The end of a record releases each other record that it had locked. -/
theorem finish_final (hkeyed : Keyed s) (hreached : Reached record.state)
    (hr : r ∈ s.recordsToSanitate) (hne : r.id ≠ record.id)
    (hlocked : r.lockedByRecordId = record.recordId)
    (hstate : r.state = .LOCKED ∨ r.state = .LOCKED_FOR_CREATION) (hwrites : writes r.id = true) :
    Final (s.finish record writes now) r (finalState record.state r.state) := by
  have hcreated : r.recordId ≠ 0 := by
    rintro h0
    exact hkeyed.created (List.mem_map.mpr ⟨r, hr, h0⟩)
  obtain ⟨rel, object, hrel, hobj, hrefuses, hfinal⟩ := released now hreached hstate hcreated
  have hfilter : List.Sublist (s.recordsToSanitate.filter fun r => r.id ≠ record.id)
      s.recordsToSanitate := List.filter_sublist
  have hmem : r ∈ s.recordsToSanitate.filter fun r => r.id ≠ record.id :=
    List.mem_filter.mpr ⟨hr, by simpa using hne⟩
  obtain ⟨hgone, hrow⟩ := removeLocks_released hlocked hrel hobj hrefuses hwrites hmem s.ledger
    (hkeyed.ids.sublist (hfilter.map _)) (hkeyed.recordIds.sublist (hfilter.map _))
  have hfinal := hfinal s.ledger
  rw [← hrow] at hfinal
  cases hs : finalState record.state r.state with
  | none =>
      rw [hs] at hfinal
      exact ⟨hgone, hfinal⟩
  | some state =>
      rw [hs] at hfinal
      exact ⟨hgone, hfinal⟩

/-- NO ORPHAN LOCK (Sanitation): at any moment of a sanitation, when the resync of a record that is to
    be sanitated has ended in a final state, each other record of the set that is LOCKED or
    LOCKED_FOR_CREATION by it, and whose write succeeds, leaves the set in its final state; and the set is
    empty after as many rounds as it had records. -/
theorem sanitation_releases_locks (s₀ : Sanitation H) (hkeyed : Keyed s₀) :
    (∀ as s, Run.run step s₀ as = some s →
      ∀ record writes now s', record.id ∈ s.ids → Reached record.state →
        step s (.done (some record) writes now) = some s' →
        ∀ r ∈ s.recordsToSanitate, r.id ≠ record.id → r.lockedByRecordId = record.recordId →
          (r.state = .LOCKED ∨ r.state = .LOCKED_FOR_CREATION) → writes r.id = true →
          Final s' r (finalState record.state r.state)) ∧
    ∀ n s, Rounds s₀ n s → s₀.recordsToSanitate.length ≤ n → s.recordsToSanitate = [] := by
  constructor
  · intro as s hrun record writes now s' hid hreached hs' r hr hne hlocked hstate hwrites
    have hkeyed' := hkeyed.of_shrinks (run_shrinks hrun)
    obtain rfl := Option.some.inj hs'
    rw [itemSanitationDone]
    simp only [if_pos hid]
    exact finish_final hkeyed' hreached hr hne hlocked hstate hwrites
  · intro n s hrounds hn
    rcases rounds_length hrounds with h | h
    · exact List.length_eq_zero_iff.mp (by omega)
    · exact h

/-- A pending record and one that it has locked, with their rows. -/
def lockerAndLocked (state : ItemState) : Sanitation ℕ where
  recordsToSanitate := [⟨1, 0, 1, .PENDING, 0, 1000, false⟩, ⟨2, 1, 2, state, 0, 1000, false⟩]
  sanitatingIds := []
  ledger recordId :=
    if recordId = 1 then some ⟨1, 0, 1, .PENDING, 0, 1000, false⟩
    else if recordId = 2 then some ⟨2, 1, 2, state, 0, 1000, false⟩
    else none

/-- The locker is resynced to APPROVED: what it locked is REVOKED, and the round empties the set. -/
theorem sanitation_releases_locks_lockerAndLocked :
    Final ((lockerAndLocked .LOCKED).startSanitation.itemSanitationDone
        (some ⟨1, 0, 1, .APPROVED, 0, 1000, false⟩) (fun _ => true) 0)
      ⟨2, 1, 2, .LOCKED, 0, 1000, false⟩ (some .REVOKED) ∧
    ∀ n s, Rounds (lockerAndLocked .LOCKED) n s → 2 ≤ n → s.recordsToSanitate = [] := by
  obtain ⟨hdone, hempty⟩ := sanitation_releases_locks (lockerAndLocked .LOCKED)
    ⟨by decide, by decide, by decide⟩
  exact ⟨hdone [.pulse] _ rfl _ _ _ _ (by decide) (.inl rfl) rfl _ (.tail _ (.head _)) (by decide)
    rfl (.inl rfl) rfl, hempty⟩

/-- An item that was approved and then revoked had used up what it locked: the resync of the locker ends
    REVOKED, all is written, and the record that was LOCKED is REVOKED. -/
theorem revoked_locker_revokes : ∃ s',
    Run.run step (lockerAndLocked .LOCKED)
      [.pulse, .done (some ⟨1, 0, 1, .REVOKED, 0, 1000, false⟩) (fun _ => true) 0] = some s' ∧
    ¬ Final s' ⟨2, 1, 2, .LOCKED, 0, 1000, false⟩ (some .APPROVED) := by
  refine ⟨_, rfl, ?_⟩
  rintro ⟨-, h⟩
  exact absurd (h _ rfl) (by decide)

end Sanitation
end Universa.Node
