import Mathlib.Data.Finset.Sort
import Mathlib.Algebra.Order.Ring.Rat
import Mathlib.Algebra.BigOperators.Group.Finset.Basic

/-! The search for a common cortege of `UBotProcess_writeMultiStorage`. UBots are their indexes in the
    pool. What the other UBots send in one iteration is a `Round`; every wait is over when all that it
    waits for is there, so a round also says who was dropped from the cortege while it lasted.

    `this.corteges` has no entry for the UBot itself, and reading a property of an entry that is not
    there throws. The own UBot is in its own cortege, which the search meets as soon as it analyzes. -/

namespace Universa.Ubot

/-- `TypeError: Cannot read property of undefined`. -/
inductive Thrown where
  | typeError

/-- The elements that satisfy a test that may throw. -/
def filterEach {α : Type} (p : α → Except Thrown Bool) : List α → Except Thrown (List α)
  | [] => .ok []
  | x :: xs => do
      let keep ← p x
      let rest ← filterEach p xs
      return if keep then x :: rest else rest

/-- `every` with a test that may throw: it stops at the first element that fails. -/
def everyEach {α : Type} (p : α → Except Thrown Bool) : List α → Except Thrown Bool
  | [] => .ok true
  | x :: xs => do
      if ← p x then everyEach p xs else return false

/-- The pool of a process, and the hash of texts. -/
structure Pool (H : Type) where
  selfPoolIndex : ℕ
  quorumSize : ℕ
  hashOf : List (List ℕ) → H

/-- What the fields of the process hold between iterations: the own cortege in the order of its set, the
    corteges received, the hash remembered, who is suspicious, and how often each has been voted for
    before. -/
structure Search (H : Type) where
  cortege : List ℕ
  corteges : ℕ → Option (Finset ℕ)
  lastCortegesHash : Option H
  suspicious : List ℕ
  suspiciousRemovalCoefficients : ℕ → ℚ
  commonCortegeIteration : ℕ

/-- What one iteration receives: the corteges of the others, the vote on the decision, the declined among
    the suspicious and the votes to exclude; and who was dropped in each of these waits. -/
structure Round where
  answers : ℕ → Finset ℕ
  dropped : List ℕ
  decision : Bool
  droppedDeciding : List ℕ
  declined : List ℕ
  droppedVotingIds : List ℕ
  exclusion : ℕ → Bool
  droppedExcluding : List ℕ

namespace Search
variable {H : Type} (p : Pool H) (s : Search H)

/-- The UBots whose wait period is over leave the cortege; nobody waits for the own UBot. -/
def drop (ubots : List ℕ) : Search H :=
  { s with cortege := s.cortege.filter fun u => u = p.selfPoolIndex ∨ u ∉ ubots }

/-- `this.corteges[ubot].has(other)`. -/
def has (ubot other : ℕ) : Except Thrown Bool :=
  match s.corteges ubot with
  | none => .error .typeError
  | some received => .ok (decide (other ∈ received))

/-- The others of a list of UBots. -/
def others (ubots : List ℕ) : List ℕ := ubots.filter (· ≠ p.selfPoolIndex)

/-- `getCortegesHash()`. -/
def getCortegesHash : H :=
  p.hashOf (s.cortege.mergeSort ::
    (others p s.cortege.mergeSort).map fun ubot =>
      match s.corteges ubot with
      | none => []
      | some received => received.sort (· ≤ ·))

/-! ### Cross analysis -/

/-- The UBot has no quorum of its own, or not the own UBot, or not a quorum of votes. -/
def isRemoved (ubot : ℕ) : Except Thrown Bool := do
  unless ← s.has ubot p.selfPoolIndex do return true
  match s.corteges ubot with
  | none => .error .typeError
  | some received =>
      if (s.cortege.filter (· ∈ received)).length < p.quorumSize then return true
      let votes ← filterEach (fun u => s.has u ubot) (others p s.cortege)
      return decide (1 + votes.length < p.quorumSize)

/-- The `while` loop that removes such UBots, as long as there are some: false when there is no quorum
    left. Each pass removes one or more, so it makes at most one pass more than there are UBots. -/
def removeLoop : ℕ → Search H → Except Thrown (Bool × Search H)
  | 0, s => .ok (true, s)
  | passes + 1, s => do
      let removed ← filterEach (s.isRemoved p) s.cortege
      if removed.isEmpty then return (true, s)
      let s := { s with cortege := s.cortege.filter (· ∉ removed) }
      if s.cortege.length < p.quorumSize then return (false, s)
      removeLoop passes s

/-- The UBot's cortege lacks someone, or someone's cortege lacks the UBot. -/
def isSuspicious (ubot : ℕ) : Except Thrown Bool := do
  if ubot = p.selfPoolIndex then return false
  unless ← everyEach (fun u => s.has ubot u) s.cortege do return true
  return !(← everyEach (fun u => s.has u ubot) (others p s.cortege))

/-- `calculateCortegesIntersection(without)`. -/
def calculateCortegesIntersection (without : Option ℕ) : Except Thrown (List ℕ) :=
  let base := s.cortege.filter fun u => some u ≠ without
  filterEach (fun ubot => do
    unless ← everyEach (fun u => s.has u ubot) (others p base) do return false
    if ubot = p.selfPoolIndex then return true
    everyEach (fun u => s.has ubot u) base) base

/-- The selection of the most suspicious. `intersectionWithoutSu` is a set and not its size, so the
    difference is `NaN`, never greater than `removalEfficiency`, and each of them is selected. -/
def mostSuspicious : Except Thrown (List ℕ) := do
  let _ ← s.calculateCortegesIntersection p none
  filterEach (fun su => do
    let _ ← s.calculateCortegesIntersection p (some su)
    return true) s.suspicious

/-- Who removes the suspicious UBot, or is removed by it. -/
def removing (su : ℕ) : Except Thrown (List ℕ) :=
  filterEach (fun u => do
    if u ≠ p.selfPoolIndex then
      unless ← s.has su u do return true
    return !(← s.has u su)) s.cortege

/-- Each of the UBots with those who remove it. -/
def removings : List ℕ → Except Thrown (List (ℕ × List ℕ))
  | [] => .ok []
  | su :: rest => do
      let removing ← s.removing p su
      let others ← removings rest
      return (su, removing) :: others

/-- `ACCURACY`. -/
def accuracy : ℚ := 1 / 1000000

/-- The suspicious after those who remove others are compared by their coefficients: who reaches 1
    becomes suspicious, and who is only removed by UBots above 1 is not suspicious any more. -/
def liftSuspicion (removings : List (ℕ × List ℕ)) : List ℕ :=
  let removingUbots (u : ℕ) : List ℕ := removings.flatMap fun (su, removing) =>
    (if u ∈ removing then [su] else []) ++ (if u = su then removing else [])
  let coefficient (u : ℕ) : ℚ := s.suspiciousRemovalCoefficients u +
    (removings.map fun (_, removing) => if u ∈ removing then 1 / (removing.length : ℚ) else 0).sum
  let reached := (others p s.cortege).filter fun u => 1 - accuracy ≤ coefficient u
  let candidatesLiftingSuspicion :=
    ((others p s.cortege).filter fun u => 1 + accuracy < coefficient u).flatMap removingUbots
  let confirmedSuspicious :=
    ((others p s.cortege).filter fun u => coefficient u ≤ 1 + accuracy).flatMap removingUbots
  (s.suspicious ++ reached.filter (· ∉ s.suspicious)).filter fun u =>
    u ∉ candidatesLiftingSuspicion ∨ u ∈ confirmedSuspicious

/-- `crossAnalyzeCorteges()`: whether there is a quorum left. `voteApprove` is the own cortege itself and
    not a copy, so all the suspicious leave it before the vote on them; the coefficients of earlier
    votes are added up but not stored. -/
def crossAnalyzeCorteges (round : Round) : Except Thrown (Bool × Search H) := do
  let (quorum, s) ← removeLoop p (s.cortege.length + 1) s
  unless quorum do return (false, s)
  let suspicious ← filterEach (s.isSuspicious p) s.cortege
  let s := { s with suspicious := suspicious }
  let s := s.drop p round.droppedVotingIds
  let s :=
    { s with
      cortege := s.cortege.filter (· ∉ round.declined)
      suspicious := s.suspicious.filter fun su =>
        su ∉ round.declined ∧ su ∉ round.droppedVotingIds }
  if s.cortege.length < p.quorumSize then return (false, s)
  let most ← s.mostSuspicious p
  let s := { s with suspicious := most }
  let removings ← s.removings p s.suspicious
  let s := { s with suspicious := s.liftSuspicion p removings }
  let s := { s with cortege := s.cortege.filter (· ∉ s.suspicious) }
  let s := s.drop p round.droppedExcluding
  let s :=
    { s with cortege := s.cortege.filter fun u => ¬ (u ∈ s.suspicious ∧ round.exclusion u = true) }
  return (decide (p.quorumSize ≤ s.cortege.length), s)

/-! ### Iterations -/

/-- The corteges that arrive until everyone left in the own cortege has answered. -/
def receive (round : Round) : Search H :=
  let s := s.drop p round.dropped
  { s with
    corteges := fun u =>
      if u ∈ s.cortege ∧ u ≠ p.selfPoolIndex then some (round.answers u) else s.corteges u }

/-- Everyone has sent the own cortege. -/
def allEqual : Bool :=
  (others p s.cortege).all fun ubot => decide (s.corteges ubot = some s.cortege.toFinset)

/-- The search after the waits of an iteration up to the comparison: where everyone has sent the own
    cortege there is a vote on the decision. -/
def waited (round : Round) : Search H :=
  if (s.receive p round).allEqual p then (s.receive p round).drop p round.droppedDeciding
  else s.receive p round

/-- The hash is remembered when there is none yet, and not again. -/
def remember (cortegesHash : H) : Search H :=
  { s with lastCortegesHash := s.lastCortegesHash.or (some cortegesHash) }

/-- What an iteration comes to. -/
inductive Outcome (H : Type) where
  | returned (found : Bool)
  | goesOn (s : Search H)

/-- One call of `calculateCommonCortege()`, up to the call of itself. -/
def iteration [DecidableEq H] (round : Round) : Except Thrown (Outcome H) := do
  if (s.receive p round).allEqual p && round.decision then return .returned true
  let s := s.waited p round
  let cortegesHash := s.getCortegesHash p
  if s.lastCortegesHash = some cortegesHash then return .returned false
  let (found, s) ← (s.remember cortegesHash).crossAnalyzeCorteges p round
  unless found do return .returned false
  return .goesOn { s with commonCortegeIteration := s.commonCortegeIteration + 1 }

/-- `calculateCommonCortege()` returns after at most so many iterations, and each but the last removes
    a UBot from the own cortege. -/
def EndsWithin [DecidableEq H] : ℕ → Search H → (ℕ → Round) → Prop
  | 0, _, _ => False
  | n + 1, s, rounds =>
      match s.iteration p (rounds 0) with
      | .error _ => False
      | .ok (.returned _) => True
      | .ok (.goesOn s') =>
          s'.cortege.length < s.cortege.length ∧ EndsWithin n s' fun i => rounds (i + 1)

end Search

/-- A search as the process starts it: the own UBot is in the own cortege, and nobody answers in its
    name. -/
structure Started {H : Type} (p : Pool H) extends Search H where
  own_mem : p.selfPoolIndex ∈ cortege
  own_none : corteges p.selfPoolIndex = none

/-! ### Throws -/

theorem filterEach_ok {α : Type} {test : α → Except Thrown Bool} {l l' : List α}
    (h : filterEach test l = .ok l') : ∀ x ∈ l, ∃ b, test x = .ok b := by
  induction l generalizing l' with
  | nil => exact nofun
  | cons x xs ih =>
      rw [filterEach] at h
      cases hx : test x with
      | error e =>
          rw [hx] at h
          cases h
      | ok b =>
          cases hxs : filterEach test xs with
          | error e =>
              rw [hx, hxs] at h
              cases h
          | ok ys =>
              rintro y (_ | ⟨_, hy⟩)
              · exact ⟨b, hx⟩
              · exact ih hxs y hy

namespace Search
variable {H : Type} {p : Pool H} {s : Search H}

theorem own_mem_drop (h : p.selfPoolIndex ∈ s.cortege) (ubots : List ℕ) :
    p.selfPoolIndex ∈ (s.drop p ubots).cortege := by
  simp [drop, h]

theorem own_none_receive (h : s.corteges p.selfPoolIndex = none) (round : Round) :
    (s.receive p round).corteges p.selfPoolIndex = none := by
  simp [receive, drop, h]

/-- The first pass over the own cortege comes to the own UBot, whose entry is not there. -/
theorem crossAnalyzeCorteges_throws (hmem : p.selfPoolIndex ∈ s.cortege)
    (hnone : s.corteges p.selfPoolIndex = none) (round : Round) :
    s.crossAnalyzeCorteges p round = .error .typeError := by
  have hself : s.isRemoved p p.selfPoolIndex = .error .typeError := by
    simp [isRemoved, has, hnone, bind, Except.bind]
  have hpass : filterEach (s.isRemoved p) s.cortege = .error .typeError := by
    cases h : filterEach (s.isRemoved p) s.cortege with
    | error e => rfl
    | ok removed =>
        obtain ⟨b, hb⟩ := filterEach_ok h _ hmem
        rw [hself] at hb
        cases hb
  simp [crossAnalyzeCorteges, removeLoop, hpass, bind, Except.bind]

/-- Everyone left after the wait has sent the cortege that is left. -/
def Unanimous (p : Pool H) (s : Search H) (round : Round) : Prop :=
  ∀ ubot ∈ s.cortege, ubot ≠ p.selfPoolIndex → ubot ∉ round.dropped →
    round.answers ubot = (s.cortege.filter fun u => u = p.selfPoolIndex ∨ u ∉ round.dropped).toFinset

theorem allEqual_iff {round : Round} :
    (s.receive p round).allEqual p = true ↔ s.Unanimous p round := by
  simp only [allEqual, receive, drop, others, Unanimous, List.all_eq_true, List.mem_filter,
    decide_eq_true_eq]
  constructor
  · intro h ubot hmem hother hstays
    have := h ubot ⟨⟨hmem, .inr hstays⟩, hother⟩
    simpa [hmem, hother, hstays] using this
  · rintro h ubot ⟨⟨hmem, hstays⟩, hother⟩
    have hstays := hstays.resolve_left hother
    simpa [hmem, hother, hstays] using h ubot hmem hother hstays

theorem own_waited (hmem : p.selfPoolIndex ∈ s.cortege) (hnone : s.corteges p.selfPoolIndex = none)
    (round : Round) : p.selfPoolIndex ∈ (s.waited p round).cortege ∧
      (s.waited p round).corteges p.selfPoolIndex = none := by
  have hmem' : p.selfPoolIndex ∈ (s.receive p round).cortege := own_mem_drop hmem round.dropped
  have hnone' := own_none_receive hnone round
  unfold waited
  split
  next => exact ⟨own_mem_drop hmem' round.droppedDeciding, hnone'⟩
  next => exact ⟨hmem', hnone'⟩

/-! ### When the search ends -/

/-- An earlier search remembered just these corteges. -/
def Remembers (p : Pool H) (s : Search H) (round : Round) : Prop :=
  s.lastCortegesHash = some ((s.waited p round).getCortegesHash p)

/-- An iteration returns, or it throws; it never comes to the next one. -/
theorem iteration_eq [DecidableEq H] (hmem : p.selfPoolIndex ∈ s.cortege)
    (hnone : s.corteges p.selfPoolIndex = none) (round : Round) :
    s.iteration p round =
      if (s.receive p round).allEqual p = true ∧ round.decision = true then .ok (.returned true)
      else if s.lastCortegesHash = some ((s.waited p round).getCortegesHash p) then
        .ok (.returned false)
      else .error .typeError := by
  have hlast : (s.waited p round).lastCortegesHash = s.lastCortegesHash := by
    unfold waited
    split <;> rfl
  obtain ⟨hmem', hnone'⟩ := own_waited hmem hnone round
  have hthrows := crossAnalyzeCorteges_throws (p := p)
    (s := (s.waited p round).remember ((s.waited p round).getCortegesHash p)) hmem' hnone' round
  unfold iteration
  by_cases hagree : (s.receive p round).allEqual p = true ∧ round.decision = true
  · simp [hagree, pure, Except.pure]
  · by_cases hhash : s.lastCortegesHash = some ((s.waited p round).getCortegesHash p)
    · simp [hagree, hlast, hhash, pure, Except.pure]
    · simp [hagree, hlast, hhash, hthrows, bind, Except.bind]

end Search

/-- CODE DEFECT (common cortege): the search ends as it should exactly where the first iteration finds that
    everyone sends the own cortege and votes for it, or where an earlier search of the same process
    remembered the corteges received. -/
theorem calculateCommonCortege_ends_iff {H : Type} [DecidableEq H] (p : Pool H) (s : Started p)
    (rounds : ℕ → Round) (poolSize : ℕ) :
    s.EndsWithin p (poolSize + 1) rounds ↔
      (s.Unanimous p (rounds 0) ∧ (rounds 0).decision = true) ∨ s.Remembers p (rounds 0) := by
  rw [Search.EndsWithin, Search.iteration_eq s.own_mem s.own_none, ← Search.allEqual_iff]
  by_cases hagree : (s.receive p (rounds 0)).allEqual p = true ∧ (rounds 0).decision = true
  · simp [hagree]
  · by_cases hhash : s.Remembers p (rounds 0)
    · have hlast := hhash
      unfold Search.Remembers at hlast
      simp [hagree, hlast, hhash]
    · have hlast := hhash
      unfold Search.Remembers at hlast
      simp [hagree, hlast, hhash]

/-- Two UBots; the other one sends a cortege of itself alone. -/
def lonelyOther : Round where
  answers _ := {1}
  dropped := []
  decision := false
  droppedDeciding := []
  declined := []
  droppedVotingIds := []
  exclusion _ := false
  droppedExcluding := []

def twoUbots : Started (⟨0, 1, fun _ => ()⟩ : Pool Unit) where
  cortege := [0, 1]
  corteges _ := none
  lastCortegesHash := none
  suspicious := []
  suspiciousRemovalCoefficients _ := 0
  commonCortegeIteration := 0
  own_mem := by decide
  own_none := rfl

/-- The first analysis throws. -/
theorem calculateCommonCortege_throws :
    (∃ e, twoUbots.iteration ⟨0, 1, fun _ => ()⟩ lonelyOther = .error e) ∧
      ∀ n, ¬ twoUbots.EndsWithin ⟨0, 1, fun _ => ()⟩ n fun _ => lonelyOther := by
  have hthrows : twoUbots.iteration ⟨0, 1, fun _ => ()⟩ lonelyOther = .error .typeError := rfl
  refine ⟨⟨.typeError, hthrows⟩, fun n => ?_⟩
  cases n with
  | zero => exact id
  | succ n =>
      rw [Search.EndsWithin, hthrows]
      exact id

end Universa.Ubot
