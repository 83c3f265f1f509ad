import Mathlib.Data.Int.Order.Basic
import Mathlib.Order.Lattice
import Universa.Js.QueueRun
import Universa.Lib.Run

/-! Timers (`timers.js`). The entries wait in a priority queue; one native timer (`AsyncSleep`) holds one time and
    one callback, `processQueue`, and a new `delay` takes the place of the last. The thread is a stack of calls:
    `processQueue` calls the callback of an entry, and a callback may register and cancel entries, which calls
    `resetCallback` and, where something is due by then, `processQueue` again.

    Times are whole milliseconds of a clock that never goes back. `stringId` is the hash of 64 random bytes; no two
    entries have the same one. The native timer may end early, as a condition variable may. What `cancel` calls,
    `reject`, is code like any other. -/

namespace Universa.Js.Timers
open BinaryHeap FastPriorityQueue

/-- `TimeoutEntry`. -/
structure TimeoutEntry (Id : Type) where
  fireAt : ℤ
  stringId : Id
  deriving DecidableEq

variable {Id : Type} [LinearOrder Id]

/-- The comparator of `entries`. -/
def before (a b : TimeoutEntry Id) : Bool :=
  decide (a.fireAt < b.fireAt) || (decide (a.fireAt = b.fireAt) && decide (a.stringId < b.stringId))

/-- A call on the stack of the thread. -/
inductive Frame
  | code
  | processQueue
  | resetCallback
  deriving DecidableEq

/-- A callback that was called: of which entry, when, and what was pending just before. -/
structure Fired (Id : Type) where
  entry : TimeoutEntry Id
  time : ℤ
  pending : Multiset (TimeoutEntry Id)

/-- The module, the native timer, the thread and the clock, and what has happened to the entries so far. The native
    timer is `woken` from when its time has passed until the thread is free for it. -/
structure State (Id : Type) where
  entries : FastPriorityQueue (TimeoutEntry Id)
  armed : Option ℤ
  woken : Bool
  clock : ℤ
  frames : List Frame
  registered : List (TimeoutEntry Id)
  fired : List (Fired Id)
  cancelled : List (TimeoutEntry Id)

/-- What can happen next. -/
inductive Action (Id : Type)
  | tick (millis : ℕ)
  | elapse
  | wake
  | start
  | register (millis : ℤ) (stringId : Id)
  | cancel (entry : TimeoutEntry Id)
  | reset
  | loop
  | ret
  | throw
  deriving DecidableEq

namespace State

/-- Before anything happens. -/
def initial (clock : ℤ) : State Id := ⟨empty, none, false, clock, [], [], [], []⟩

/-- `new TimeoutEntry(millis, callback)`, up to the call of `resetCallback`. -/
def register (millis : ℤ) (stringId : Id) (s : State Id) : State Id :=
  let entry : TimeoutEntry Id := ⟨s.clock + millis, stringId⟩
  { s with
    entries := add before entry s.entries
    registered := entry :: s.registered
    frames := .resetCallback :: s.frames }

/-- `cancel()`: `resetCallback` is called where the entry was the next to fire. -/
def cancel (entry : TimeoutEntry Id) (s : State Id) : State Id :=
  let last := peek s.entries
  let removed := remove before entry s.entries
  { s with
    entries := removed.2
    cancelled := if removed.1 then entry :: s.cancelled else s.cancelled
    frames :=
      if removed.1 && last.any (fun e => decide (e.stringId = entry.stringId)) then .resetCallback :: s.frames
      else s.frames }

/-- `resetCallback()`, which arms the native timer, calls `processQueue` or has nothing to wait for. -/
def resetCallback (s : State Id) : State Id :=
  match peek s.entries with
  | none => { s with frames := s.frames.tail }
  | some last =>
      let left := last.fireAt - s.clock
      if left ≤ 0 then { s with frames := .processQueue :: s.frames.tail }
      else { s with armed := some (s.clock + left), frames := s.frames.tail }

/-- One turn of the loop of `processQueue`, to the call of a callback or to that of `resetCallback`. -/
def processQueue (s : State Id) : State Id :=
  match peek s.entries with
  | none => { s with frames := .resetCallback :: s.frames.tail }
  | some e =>
      if s.clock < e.fireAt then { s with frames := .resetCallback :: s.frames.tail }
      else
        { s with
          entries := (poll before s.entries).2
          fired := ⟨e, s.clock, s.entries.bag⟩ :: s.fired
          frames := .code :: s.frames }

end State

/-- A step. What is thrown ends all calls down to the next code that could catch it. -/
def step (s : State Id) : Action Id → Option (State Id)
  | .tick millis => some { s with clock := s.clock + millis }
  | .elapse => if s.armed.isSome ∧ s.woken = false then some { s with armed := none, woken := true } else none
  | .wake =>
      if s.woken = true ∧ s.frames = [] then some { s with woken := false, frames := [.processQueue] } else none
  | .start => if s.frames = [] then some { s with frames := [.code] } else none
  | .register millis stringId =>
      if s.frames.head? = some .code ∧ stringId ∉ s.registered.map (·.stringId) then
        some (s.register millis stringId)
      else none
  | .cancel entry => if s.frames.head? = some .code then some (s.cancel entry) else none
  | .reset => if s.frames.head? = some .resetCallback then some s.resetCallback else none
  | .loop => if s.frames.head? = some .processQueue then some s.processQueue else none
  | .ret => if s.frames.head? = some .code then some { s with frames := s.frames.tail } else none
  | .throw =>
      if s.frames.head? = some .code then some { s with frames := s.frames.tail.dropWhile (· ≠ .code) } else none

/-! ### The order of the entries -/

theorem weakOrder_before : WeakOrder (before : TimeoutEntry Id → TimeoutEntry Id → Bool) where
  asymm {a b} h := by
    simp only [before, Bool.or_eq_true, Bool.and_eq_true, decide_eq_true_eq, Bool.or_eq_false_iff,
      Bool.and_eq_false_iff, decide_eq_false_iff_not] at h ⊢
    rcases h with h | ⟨h, hid⟩
    · exact ⟨by omega, .inl (by omega)⟩
    · exact ⟨by omega, .inr (lt_asymm hid)⟩
  trans {a b c} h h' := by
    simp only [before, Bool.or_eq_false_iff, Bool.and_eq_false_iff, decide_eq_false_iff_not] at h h' ⊢
    refine ⟨by omega, ?_⟩
    by_cases hac : a.fireAt = c.fireAt
    · have hab : a.fireAt = b.fireAt := by omega
      have hbc : b.fireAt = c.fireAt := by omega
      refine .inr (not_lt.mpr ?_)
      exact (not_lt.mp (h'.2.resolve_left (not_not_intro hbc))).trans
        (not_lt.mp (h.2.resolve_left (not_not_intro hab)))
    · exact .inl hac

theorem fireAt_le_of_before {a b : TimeoutEntry Id} (h : before b a = false) : a.fireAt ≤ b.fireAt := by
  simp only [before, Bool.or_eq_false_iff, decide_eq_false_iff_not] at h
  exact not_lt.mp h.1

/-- The comparator tells any two entries. -/
theorem same_before {a b : TimeoutEntry Id} : same before a b = true ↔ a = b := by
  constructor
  · intro h
    simp only [same, before, Bool.and_eq_true, Bool.not_eq_true', Bool.or_eq_false_iff, Bool.and_eq_false_iff,
      decide_eq_false_iff_not] at h
    obtain ⟨⟨hab, hab'⟩, hba, hba'⟩ := h
    have hfire : a.fireAt = b.fireAt := by omega
    have hid : a.stringId = b.stringId :=
      le_antisymm (not_lt.mp (hba'.resolve_left (not_not_intro hfire.symm)))
        (not_lt.mp (hab'.resolve_left (not_not_intro hfire)))
    cases a
    cases b
    cases hfire
    cases hid
    rfl
  · rintro rfl
    rw [same, weakOrder_before.irrefl]
    rfl

/-! ### No timer fires early, twice or after it was cancelled -/

/-- What holds in every state: the entries are a queue, each that was registered is pending, was fired or was
    cancelled, and each that was fired was due, and none that was pending then was before it. -/
structure Safe (s : State Id) : Prop where
  ordered : Ordered before s.entries
  accounted : s.entries.bag + ↑(s.fired.map (·.entry)) + ↑s.cancelled = (↑s.registered : Multiset (TimeoutEntry Id))
  distinct : (s.registered.map (·.stringId)).Nodup
  due : ∀ f ∈ s.fired, f.entry.fireAt ≤ f.time ∧ f.time ≤ s.clock
  first : ∀ f ∈ s.fired, f.entry ∈ f.pending ∧ ∀ b ∈ f.pending, before b f.entry = false

variable {s s' : State Id}

/-- The stack and the native timer are not part of it. -/
theorem Safe.thread (h : Safe s) (armed : Option ℤ) (woken : Bool) (frames : List Frame) :
    Safe { s with armed, woken, frames } :=
  ⟨h.ordered, h.accounted, h.distinct, h.due, h.first⟩

theorem Safe.tick (h : Safe s) (millis : ℕ) : Safe { s with clock := s.clock + millis } := by
  refine ⟨h.ordered, h.accounted, h.distinct, ?_, h.first⟩
  intro f hf
  have hdue := h.due f hf
  exact ⟨hdue.1, hdue.2.trans (Int.le_add_of_nonneg_right (Int.natCast_nonneg millis))⟩

theorem Safe.register (h : Safe s) (millis : ℤ) {stringId : Id}
    (hfresh : stringId ∉ s.registered.map (·.stringId)) : Safe (s.register millis stringId) := by
  obtain ⟨hordered, hbag⟩ := add_spec weakOrder_before h.ordered ⟨s.clock + millis, stringId⟩
  refine ⟨hordered, ?_, List.nodup_cons.mpr ⟨hfresh, h.distinct⟩, h.due, h.first⟩
  show (add before _ s.entries).bag + _ + _ = _
  rw [hbag, Multiset.cons_add, Multiset.cons_add]
  exact congrArg (Multiset.cons _) h.accounted

theorem Safe.cancel (h : Safe s) (entry : TimeoutEntry Id) : Safe (s.cancel entry) := by
  obtain ⟨hordered, ⟨hfound, item, hsame, hbag⟩ | ⟨hfound, hkept, -⟩⟩ :=
    remove_spec weakOrder_before h.ordered entry
  · obtain rfl := same_before.mp hsame
    refine ⟨hordered, ?_, h.distinct, h.due, h.first⟩
    show (remove before item s.entries).2.bag + _ +
      ↑(if (remove before item s.entries).1 then item :: s.cancelled else s.cancelled) = _
    rw [if_pos hfound, ← Multiset.cons_coe, Multiset.add_cons, ← Multiset.cons_add, ← Multiset.cons_add, ← hbag]
    exact h.accounted
  · refine ⟨hordered, ?_, h.distinct, h.due, h.first⟩
    show (remove before entry s.entries).2.bag + _ +
      ↑(if (remove before entry s.entries).1 then entry :: s.cancelled else s.cancelled) = _
    rw [if_neg (Bool.eq_false_iff.mp hfound), hkept]
    exact h.accounted

omit [LinearOrder Id] in
theorem resetCallback_cases (s : State Id) :
    s.entries.bag = 0 ∧ s.resetCallback = { s with frames := s.frames.tail } ∨
      (∃ e, peek s.entries = some e ∧ e.fireAt ≤ s.clock ∧
        s.resetCallback = { s with frames := .processQueue :: s.frames.tail }) ∨
      ∃ e, peek s.entries = some e ∧
        s.resetCallback = { s with armed := some e.fireAt, frames := s.frames.tail } := by
  unfold State.resetCallback
  cases hpeek : peek s.entries with
  | none =>
      refine .inl ⟨?_, rfl⟩
      rcases Nat.eq_zero_or_pos s.entries.size with hzero | hpos
      · exact Multiset.card_eq_zero.mp ((bag_card _).trans hzero)
      · obtain ⟨root, rest, hcontents⟩ := contents_root hpos
        rw [peek, if_neg (by omega), ← contents_getElem? hpos, hcontents] at hpeek
        cases hpeek
  | some e =>
      by_cases hleft : e.fireAt - s.clock ≤ 0
      · exact .inr (.inl ⟨e, rfl, by omega, if_pos hleft⟩)
      · refine .inr (.inr ⟨e, rfl, ?_⟩)
        have hend : s.clock + (e.fireAt - s.clock) = e.fireAt := by omega
        simp only [hleft, if_false, hend]

theorem processQueue_cases (h : Ordered before s.entries) :
    (∀ b ∈ s.entries.bag, s.clock < b.fireAt) ∧
        s.processQueue = { s with frames := .resetCallback :: s.frames.tail } ∨
      ∃ e, e.fireAt ≤ s.clock ∧ e ∈ s.entries.bag ∧ (∀ b ∈ s.entries.bag, before b e = false) ∧
        s.entries.bag = e ::ₘ (poll before s.entries).2.bag ∧ Ordered before (poll before s.entries).2 ∧
        s.processQueue =
          { s with
            entries := (poll before s.entries).2
            fired := ⟨e, s.clock, s.entries.bag⟩ :: s.fired
            frames := .code :: s.frames } := by
  have hleast := least_peek weakOrder_before h
  unfold State.processQueue
  cases hpeek : peek s.entries with
  | none =>
      rw [hpeek] at hleast
      refine .inl ⟨fun b hb => ?_, rfl⟩
      rw [show s.entries.bag = 0 from hleast] at hb
      exact absurd hb (Multiset.notMem_zero b)
  | some e =>
      rw [hpeek] at hleast
      obtain ⟨hmem, hfirst⟩ : e ∈ s.entries.bag ∧ ∀ b ∈ s.entries.bag, before b e = false := hleast
      by_cases hlt : s.clock < e.fireAt
      · exact .inl ⟨fun b hb => hlt.trans_le (fireAt_le_of_before (hfirst b hb)), if_pos hlt⟩
      · have hpos : 0 < s.entries.size := by
          rw [← bag_card]
          exact Multiset.card_pos_iff_exists_mem.mpr ⟨e, hmem⟩
        obtain ⟨root, hanswer, -, hbag, hordered⟩ := poll_spec weakOrder_before h hpos
        obtain rfl : root = e := by
          have hsome : some root = some e := by
            rw [← hanswer, ← hpeek, poll, peek, if_neg (by omega), if_neg (by omega)]
          exact Option.some.inj hsome
        exact .inr ⟨root, not_lt.mp hlt, hmem, hfirst, hbag, hordered, if_neg hlt⟩

theorem Safe.resetCallback (h : Safe s) : Safe s.resetCallback := by
  obtain ⟨-, hs⟩ | ⟨e, -, -, hs⟩ | ⟨e, -, hs⟩ := resetCallback_cases s
  all_goals
    rw [hs]
    exact h.thread _ _ _

theorem Safe.processQueue (h : Safe s) : Safe s.processQueue := by
  obtain ⟨-, hs⟩ | ⟨e, hdue, hmem, hfirst, hbag, hordered, hs⟩ := processQueue_cases h.ordered
  · rw [hs]
    exact h.thread _ _ _
  · rw [hs]
    refine ⟨hordered, ?_, h.distinct, ?_, ?_⟩
    · show (poll before s.entries).2.bag + ↑(e :: s.fired.map (·.entry)) + ↑s.cancelled = _
      rw [← Multiset.cons_coe, Multiset.add_cons, ← Multiset.cons_add, ← hbag]
      exact h.accounted
    · intro f hf
      rcases List.mem_cons.mp hf with rfl | hf
      · exact ⟨hdue, le_refl _⟩
      · exact h.due f hf
    · intro f hf
      rcases List.mem_cons.mp hf with rfl | hf
      · exact ⟨hmem, hfirst⟩
      · exact h.first f hf

/-- Every step keeps it. -/
theorem Safe.step (h : Safe s) (a : Action Id) (hs : step s a = some s') : Safe s' := by
  cases a with
  | tick millis =>
      cases hs
      exact h.tick millis
  | register millis stringId =>
      obtain ⟨⟨-, hfresh⟩, hs⟩ := Option.ite_none_right_eq_some.mp hs
      cases hs
      exact h.register millis hfresh
  | cancel entry =>
      obtain ⟨-, hs⟩ := Option.ite_none_right_eq_some.mp hs
      cases hs
      exact h.cancel entry
  | reset =>
      obtain ⟨-, hs⟩ := Option.ite_none_right_eq_some.mp hs
      cases hs
      exact h.resetCallback
  | loop =>
      obtain ⟨-, hs⟩ := Option.ite_none_right_eq_some.mp hs
      cases hs
      exact h.processQueue
  | _ =>
      obtain ⟨-, hs⟩ := Option.ite_none_right_eq_some.mp hs
      cases hs
      exact h.thread _ _ _

theorem safe_initial (clock : ℤ) : Safe (State.initial clock : State Id) where
  ordered := empty_ordered
  accounted := rfl
  distinct := .nil
  due _ hf := absurd hf List.not_mem_nil
  first _ hf := absurd hf List.not_mem_nil

/-- What was fired or cancelled was so once. -/
theorem Safe.once (h : Safe s) : (s.fired.map (·.entry) ++ s.cancelled).Nodup := by
  have hperm : (s.entries.contents ++ (s.fired.map (·.entry) ++ s.cancelled)).Perm s.registered := by
    rw [← List.append_assoc]
    exact Multiset.coe_eq_coe.mp h.accounted
  exact List.Nodup.of_append_right (hperm.nodup_iff.mpr (List.Nodup.of_map _ h.distinct))

/-- SAFE (runs): whatever callbacks do, and also where they throw, no timer fires before its time, twice, or after
    it was cancelled, and the first that is pending fires first. -/
theorem timers_safe (clock : ℤ) (as : List (Action Id)) :
    Run.Always step (fun s => Safe s ∧ (s.fired.map (·.entry) ++ s.cancelled).Nodup) (State.initial clock) as :=
  (Run.always_of_step (fun _ a _ h hs => h.step a hs) (safe_initial clock)).imp fun _ h => ⟨h, h.once⟩

/-! ### No timer is lost -/

/-- The native timer ends no later than any pending entry is due. -/
def ArmedInTime (s : State Id) : Prop := ∃ d, s.armed = some d ∧ ∀ e ∈ s.entries.bag, d ≤ e.fireAt

/-- Nothing is pending, or the native timer is armed for it or has ended, or a call of the module is not over. -/
def Kept (s : State Id) : Prop :=
  s.entries.bag = 0 ∨ s.woken = true ∨ ArmedInTime s ∨ ∃ f ∈ s.frames, f ≠ .code

omit [LinearOrder Id] in
/-- Fewer entries need no more, and neither does a stack with as many calls of the module. -/
theorem Kept.mono (h : Kept s) (hbag : s'.entries.bag ≤ s.entries.bag) (hwoken : s'.woken = s.woken)
    (harmed : s'.armed = s.armed) (hframes : ∀ f ∈ s.frames, f ≠ .code → f ∈ s'.frames) : Kept s' := by
  rcases h with hzero | hw | ⟨d, hd, hall⟩ | ⟨f, hf, hne⟩
  · exact .inl (Multiset.le_zero.mp (hzero ▸ hbag))
  · exact .inr (.inl (hwoken.trans hw))
  · exact .inr (.inr (.inl ⟨d, harmed.trans hd, fun e he => hall e (Multiset.mem_of_le hbag he)⟩))
  · exact .inr (.inr (.inr ⟨f, hframes f hf hne, hne⟩))

theorem mem_tail_of_ne {frames : List Frame} (h : frames.head? = some .code) :
    ∀ f ∈ frames, f ≠ .code → f ∈ frames.tail := by
  intro f hf hne
  obtain ⟨rest, rfl⟩ := List.head?_eq_some_iff.mp h
  exact (List.mem_cons.mp hf).resolve_left hne

/-- Every step but a throw keeps the timers. -/
theorem Kept.step (h : Kept s) (hsafe : Safe s) (a : Action Id) (ha : a ≠ .throw) (hs : step s a = some s') :
    Kept s' := by
  have busy : ∀ {t : State Id} {f : Frame} {fs : List Frame}, t.frames = f :: fs → f ≠ .code → Kept t :=
    fun hf hne => .inr (.inr (.inr ⟨_, hf ▸ List.mem_cons_self, hne⟩))
  cases a with
  | tick millis =>
      cases hs
      exact h.mono (le_refl _) rfl rfl fun f hf _ => hf
  | elapse =>
      obtain ⟨-, hs⟩ := Option.ite_none_right_eq_some.mp hs
      cases hs
      exact .inr (.inl rfl)
  | wake =>
      obtain ⟨-, hs⟩ := Option.ite_none_right_eq_some.mp hs
      cases hs
      exact busy (f := .processQueue) rfl (by decide)
  | start =>
      obtain ⟨hframes, hs⟩ := Option.ite_none_right_eq_some.mp hs
      cases hs
      exact h.mono (le_refl _) rfl rfl fun f hf _ => absurd (hframes ▸ hf) List.not_mem_nil
  | register millis stringId =>
      obtain ⟨-, hs⟩ := Option.ite_none_right_eq_some.mp hs
      cases hs
      exact busy (f := .resetCallback) rfl (by decide)
  | cancel entry =>
      obtain ⟨-, hs⟩ := Option.ite_none_right_eq_some.mp hs
      cases hs
      refine h.mono ?_ rfl rfl ?_
      · obtain ⟨-, ⟨-, item, -, hbag⟩ | ⟨-, hkept, -⟩⟩ := remove_spec weakOrder_before hsafe.ordered entry
        · rw [hbag]
          exact Multiset.le_cons_self _ _
        · exact (congrArg bag hkept).le
      · intro f hf _
        show f ∈ ite _ _ _
        split
        · exact List.mem_cons_of_mem _ hf
        · exact hf
  | reset =>
      obtain ⟨hframes, hs⟩ := Option.ite_none_right_eq_some.mp hs
      cases hs
      obtain ⟨hzero, hr⟩ | ⟨e, -, -, hr⟩ | ⟨e, hpeek, hr⟩ := resetCallback_cases s
      · rw [hr]
        exact .inl hzero
      · rw [hr]
        exact busy (f := .processQueue) rfl (by decide)
      · rw [hr]
        have hleast := least_peek weakOrder_before hsafe.ordered
        rw [hpeek] at hleast
        exact .inr (.inr (.inl ⟨e.fireAt, rfl, fun b hb => fireAt_le_of_before (hleast.2 b hb)⟩))
  | loop =>
      obtain ⟨hframes, hs⟩ := Option.ite_none_right_eq_some.mp hs
      cases hs
      obtain ⟨-, hr⟩ | ⟨e, -, -, -, -, -, hr⟩ := processQueue_cases hsafe.ordered
      · rw [hr]
        exact busy (f := .resetCallback) rfl (by decide)
      · rw [hr]
        obtain ⟨rest, hrest⟩ := List.head?_eq_some_iff.mp hframes
        refine .inr (.inr (.inr ⟨.processQueue, ?_, by decide⟩))
        show Frame.processQueue ∈ Frame.code :: s.frames
        rw [hrest]
        exact List.mem_cons_of_mem _ List.mem_cons_self
  | ret =>
      obtain ⟨hframes, hs⟩ := Option.ite_none_right_eq_some.mp hs
      cases hs
      exact h.mono (le_refl _) rfl rfl (mem_tail_of_ne hframes)
  | throw => exact absurd rfl ha

/-- What happens without code of a caller: the native timer, the module, and callbacks that return at once. -/
def Action.native : Action Id → Bool
  | .elapse | .wake | .reset | .loop | .ret => true
  | _ => false

/-- A run of such steps that fires, by now, all that is due by now, and ends the call it began in. -/
def Serves (s : State Id) (frames : List Frame) : Prop :=
  ∃ as s', (∀ a ∈ as, Action.native a = true) ∧ Run.run step s as = some s' ∧ s'.frames = frames ∧
    ∀ e, (e ∈ s.entries.bag ∧ e.fireAt ≤ s.clock ∨ ∃ f ∈ s.fired, f.entry = e ∧ f.time = s.clock) →
      ∃ f ∈ s'.fired, f.entry = e ∧ f.time = s.clock

/-- It may begin with a step that leaves the entries as they are. -/
theorem Serves.cons {frames : List Frame} {a : Action Id} (h : Serves s' frames) (ha : a.native = true)
    (hs : Timers.step s a = some s') (hbag : s'.entries = s.entries) (hclock : s'.clock = s.clock)
    (hfired : s'.fired = s.fired) : Serves s frames := by
  obtain ⟨as, t, hnative, hrun, hframes, hall⟩ := h
  rw [hbag, hclock, hfired] at hall
  refine ⟨a :: as, t, ?_, Run.run_cons.mpr ⟨s', hs, hrun⟩, hframes, hall⟩
  intro b hb
  rcases List.mem_cons.mp hb with rfl | hb
  · exact ha
  · exact hnative b hb

/-- Where nothing is due the call ends by arming the native timer, if anything is pending. -/
theorem serves_reset (hsafe : Safe s) {fs : List Frame} (hframes : s.frames = .resetCallback :: fs)
    (hlater : ∀ e ∈ s.entries.bag, s.clock < e.fireAt) : Serves s fs := by
  have hstep : Timers.step s .reset = some s.resetCallback := if_pos (congrArg List.head? hframes)
  have htail : s.frames.tail = fs := congrArg List.tail hframes
  have hall : ∀ e, (e ∈ s.entries.bag ∧ e.fireAt ≤ s.clock ∨ ∃ f ∈ s.fired, f.entry = e ∧ f.time = s.clock) →
      ∃ f ∈ s.fired, f.entry = e ∧ f.time = s.clock := by
    rintro e (⟨he, hdue⟩ | hf)
    · exact absurd hdue (not_le.mpr (hlater e he))
    · exact hf
  refine ⟨[.reset], s.resetCallback, by simp [Action.native], Run.run_cons.mpr ⟨_, hstep, rfl⟩, ?_⟩
  obtain ⟨-, hr⟩ | ⟨e, hpeek, hdue, -⟩ | ⟨e, -, hr⟩ := resetCallback_cases s
  · rw [hr]
    exact ⟨htail, hall⟩
  · have hleast := least_peek weakOrder_before hsafe.ordered
    rw [hpeek] at hleast
    exact absurd hdue (not_le.mpr (hlater e hleast.1))
  · rw [hr]
    exact ⟨htail, hall⟩

/-- `processQueue` fires all that is due: by induction on how many entries are pending. -/
theorem serves_processQueue (hsafe : Safe s) {fs : List Frame} (hframes : s.frames = .processQueue :: fs) :
    Serves s fs := by
  generalize hn : s.entries.bag.card = n
  induction n using Nat.strongRecOn generalizing s with
  | ind n ih =>
      have hstep : Timers.step s .loop = some s.processQueue := if_pos (congrArg List.head? hframes)
      have hsafe' := hsafe.processQueue
      obtain ⟨hlater, hr⟩ | ⟨e, hdue, -, -, hbag, -, hr⟩ := processQueue_cases hsafe.ordered
      · rw [hr, hframes] at hstep
        rw [hr, hframes] at hsafe'
        exact (serves_reset hsafe' rfl hlater).cons rfl hstep rfl rfl rfl
      · -- The callback of `e` returns, and the loop goes on with one entry less.
        rw [hr] at hstep
        rw [hr] at hsafe'
        have hret : ∀ t : State Id, t.frames = .code :: s.frames →
            Timers.step t .ret = some { t with frames := s.frames } := by
          intro t ht
          refine (if_pos (congrArg List.head? ht)).trans ?_
          rw [ht]
          rfl
        have hless : (poll before s.entries).2.bag.card < n := by
          rw [← hn, hbag, Multiset.card_cons]
          exact Nat.lt_succ_self _
        obtain ⟨as, t, hnative, hrun, hend, hall⟩ :=
          ih _ hless (hsafe'.thread s.armed s.woken s.frames) hframes rfl
        refine ⟨.loop :: .ret :: as, t, ?_, ?_, hend, ?_⟩
        · simpa [Action.native] using hnative
        · exact Run.run_cons.mpr ⟨_, hstep, Run.run_cons.mpr ⟨_, hret _ rfl, hrun⟩⟩
        · rintro b (⟨hb, hbdue⟩ | ⟨f, hf, hfired⟩)
          · rw [hbag] at hb
            rcases Multiset.mem_cons.mp hb with rfl | hb
            · exact hall b (.inr ⟨_, List.mem_cons_self, rfl, rfl⟩)
            · exact hall b (.inl ⟨hb, hbdue⟩)
          · exact hall b (.inr ⟨f, List.mem_cons_of_mem _ hf, hfired⟩)

/-- Where the thread is free nothing stands between a timer that is kept and its callback. -/
theorem Kept.serves (h : Kept s) (hsafe : Safe s) (hframes : s.frames = []) : Serves s [] := by
  have hwake : ∀ {t : State Id}, Safe t → t.woken = true → t.frames = [] → Serves t [] := by
    intro t ht hwoken hfree
    have hstep : Timers.step t .wake = some { t with woken := false, frames := [.processQueue] } :=
      if_pos ⟨hwoken, hfree⟩
    exact (serves_processQueue (ht.thread t.armed false [.processQueue]) rfl).cons rfl hstep rfl rfl rfl
  rcases h with hzero | hwoken | ⟨d, hd, -⟩ | ⟨f, hf, -⟩
  · refine ⟨[], s, fun _ ha => absurd ha List.not_mem_nil, rfl, hframes, ?_⟩
    rintro e (⟨he, -⟩ | hf)
    · exact absurd (hzero ▸ he) (Multiset.notMem_zero e)
    · exact hf
  · exact hwake hsafe hwoken hframes
  · cases hwoken : s.woken with
    | true => exact hwake hsafe hwoken hframes
    | false =>
        have hstep : Timers.step s .elapse = some { s with armed := none, woken := true } :=
          if_pos ⟨by rw [hd]; rfl, hwoken⟩
        exact (hwake (hsafe.thread none true s.frames) rfl hframes).cons rfl hstep rfl rfl rfl
  · exact absurd (hframes ▸ hf) List.not_mem_nil

/-- NONE LOST (runs): where no callback throws, whenever the thread is free the native timer has ended or ends no
    later than the first pending timer is due, and it takes nothing but its callback to fire all that are due. -/
theorem no_timer_lost (clock : ℤ) (as : List (Action Id)) (hthrow : ∀ a ∈ as, a ≠ .throw) :
    Run.Always step
      (fun s => s.frames = [] → (s.entries.bag = 0 ∨ s.woken = true ∨ ArmedInTime s) ∧ Serves s [])
      (State.initial clock) as := by
  have hstep : ∀ (s : State Id) (a : Action Id) (s' : State Id), Safe s ∧ Kept s → a ≠ .throw →
      Timers.step s a = some s' → Safe s' ∧ Kept s' :=
    fun _ a _ h ha hs => ⟨h.1.step a hs, h.2.step h.1 a ha hs⟩
  refine (Run.always_of_meets hstep ⟨safe_initial clock, .inl rfl⟩ (Run.meets_of_mem hthrow)).imp ?_
  rintro s ⟨hsafe, hkept⟩ hframes
  refine ⟨?_, hkept.serves hsafe hframes⟩
  rcases hkept with hzero | hwoken | harmed | ⟨f, hf, -⟩
  · exact .inl hzero
  · exact .inr (.inl hwoken)
  · exact .inr (.inr harmed)
  · exact absurd (hframes ▸ hf) List.not_mem_nil

theorem no_timer_lost_two :
    Run.Always step
      (fun s : State ℕ => s.frames = [] → (s.entries.bag = 0 ∨ s.woken = true ∨ ArmedInTime s) ∧ Serves s [])
      (State.initial 0)
      [.start, .register 5 0, .reset, .register 3 1, .reset, .ret, .tick 9, .elapse, .wake, .loop, .ret, .loop] :=
  no_timer_lost 0 _ (by decide)

/-- CODE DEFECT (a callback that throws): `processQueue` does not get to arm the native timer again. What is still
    pending waits until code registers or cancels another timer. -/
theorem throw_loses (hframes : s.frames = [.code, .processQueue]) (harmed : s.armed = none)
    (hwoken : s.woken = false) :
    ∃ s', Timers.step s .throw = some s' ∧ s'.frames = [] ∧ s'.entries = s.entries ∧
      ∀ a : Action Id, a.native = true → Timers.step s' a = none := by
  refine ⟨{ s with frames := [] }, ?_, rfl, rfl, ?_⟩
  · refine (if_pos (congrArg List.head? hframes)).trans ?_
    rw [hframes]
    rfl
  · intro a ha
    cases a with
    | elapse => exact if_neg fun h => absurd h.1 (by rw [harmed]; decide)
    | wake => exact if_neg fun h => absurd (hwoken.symm.trans h.1) (by decide)
    | reset | loop | ret => rfl
    | _ => exact absurd ha (by simp [Action.native])

end Universa.Js.Timers
