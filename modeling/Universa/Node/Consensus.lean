import Mathlib.Algebra.Order.Floor.Semifield
import Universa.Node.ItemProcessor
import Universa.Node.Resync

/-! The consensus numbers of a network (`Config.updateConsensus`).

    Three fractions of the number of nodes are rounded, each its own way, with cases for the small
    networks. The products are taken as exact rationals. -/

namespace Universa.Node.Consensus

/-- The consensus numbers of a node's config. -/
structure Thresholds where
  negativeConsensus : ℕ
  positiveConsensus : ℕ
  resyncBreakConsensus : ℕ

/-- `updateConsensus(n)`. -/
def updateConsensus (n : ℕ) : Thresholds :=
  let negativeConsensus := ⌈(n : ℚ) * (11 / 100)⌉₊
  let negativeConsensus := if negativeConsensus < 1 then 1 else negativeConsensus
  let positiveConsensus := ⌊(n : ℚ) * (90 / 100)⌋₊
  let positiveConsensus := if positiveConsensus = 0 then 1 else positiveConsensus
  let negativeConsensus :=
    if negativeConsensus + positiveConsensus = n then negativeConsensus + 1 else negativeConsensus
  let resyncBreakConsensus := ⌈(n : ℚ) * (2 / 10)⌉₊
  let resyncBreakConsensus := if resyncBreakConsensus < 1 then 1 else resyncBreakConsensus
  let resyncBreakConsensus :=
    if resyncBreakConsensus + positiveConsensus = n then resyncBreakConsensus + 1
    else resyncBreakConsensus
  { negativeConsensus, positiveConsensus, resyncBreakConsensus }

/-- The config of an item's processor, in a network of `n` nodes. -/
def Thresholds.itemConfig {N : Type} (c : Thresholds) (myInfo : N) (nodes : ℕ) : ItemConfig N where
  myInfo := myInfo
  nodes := nodes
  negativeConsensus := c.negativeConsensus
  positiveConsensus := c.positiveConsensus

/-! ### The roundings are divisions -/

/-- A fraction of `n` rounded up is at most `k` when the numerators say so. -/
theorem ceil_fraction_le (n a b k : ℕ) (hb : 0 < b) :
    ⌈(n : ℚ) * (a / b)⌉₊ ≤ k ↔ n * a ≤ k * b := by
  have hb' : (0 : ℚ) < b := by exact_mod_cast hb
  rw [Nat.ceil_le, ← mul_div_assoc, div_le_iff₀ hb']
  exact_mod_cast Iff.rfl

/-- A fraction of `n` rounded up. -/
theorem ceil_fraction (n a b : ℕ) (hb : 0 < b) :
    ⌈(n : ℚ) * (a / b)⌉₊ = (n * a + (b - 1)) / b := by
  have hle (k : ℕ) : ⌈(n : ℚ) * (a / b)⌉₊ ≤ k ↔ (n * a + (b - 1)) / b ≤ k := by
    rw [ceil_fraction_le n a b k hb, ← Nat.lt_succ_iff (m := (n * a + (b - 1)) / b),
      Nat.div_lt_iff_lt_mul hb, Nat.succ_mul]
    omega
  exact le_antisymm ((hle _).2 le_rfl) ((hle _).1 le_rfl)

/-- A fraction of `n` rounded down. -/
theorem floor_fraction (n a b : ℕ) : ⌊(n : ℚ) * (a / b)⌋₊ = n * a / b := by
  rw [← mul_div_assoc, ← Nat.cast_mul, Nat.floor_div_eq_div]

/-- The rational of the source, as the quotient that the roundings above are about. -/
theorem updateConsensus_negative (n : ℕ) : ⌈(n : ℚ) * (11 / 100)⌉₊ = (n * 11 + 99) / 100 := by
  simpa using ceil_fraction n 11 100 (by decide)

theorem updateConsensus_positive (n : ℕ) : ⌊(n : ℚ) * (90 / 100)⌋₊ = n * 90 / 100 := by
  simpa using floor_fraction n 90 100

theorem updateConsensus_resyncBreak (n : ℕ) : ⌈(n : ℚ) * (2 / 10)⌉₊ = (n * 2 + 9) / 10 := by
  simpa using ceil_fraction n 2 10 (by decide)

/-! ### What a network asks of its numbers -/

/-- Whatever the split of the votes, one of the two numbers of an item is reached. -/
def Thresholds.Decisive (n : ℕ) (c : Thresholds) : Prop :=
  ∀ positive negative, positive + negative = n →
    c.positiveConsensus ≤ positive ∨ c.negativeConsensus ≤ negative

/-- The numbers are safe and decisive in a network of `n` nodes. -/
structure Thresholds.SafeAndDecisive (n : ℕ) (c : Thresholds) : Prop where
  positive_majority : n < 2 * c.positiveConsensus
  positive_negative : n < c.positiveConsensus + c.negativeConsensus
  positive_resyncBreak : n < c.positiveConsensus + c.resyncBreakConsensus
  positive_bounds : 1 ≤ c.positiveConsensus ∧ c.positiveConsensus ≤ n
  negative_bounds : 1 ≤ c.negativeConsensus ∧ c.negativeConsensus ≤ n
  resyncBreak_bounds : 1 ≤ c.resyncBreakConsensus ∧ c.resyncBreakConsensus ≤ n
  decisive : c.Decisive n

/-- Every split is decided when the two numbers leave no room between them. -/
theorem decisive_iff (n : ℕ) (c : Thresholds) (hp : 1 ≤ c.positiveConsensus)
    (hpn : c.positiveConsensus ≤ n) :
    c.Decisive n ↔ c.positiveConsensus + c.negativeConsensus ≤ n + 1 := by
  constructor
  · intro h
    -- the split with one positive vote too few
    have hsplit : c.positiveConsensus - 1 + (n - (c.positiveConsensus - 1)) = n := by omega
    rcases h _ _ hsplit with hpos | hneg
    · omega
    · omega
  · intro h positive negative hn
    omega

/-- The two numbers exclude each other: no vote reaches both. -/
theorem SafeAndDecisive.not_both {n : ℕ} {c : Thresholds} (h : c.SafeAndDecisive n)
    (positive negative : ℕ) (hn : positive + negative ≤ n) :
    ¬ (c.positiveConsensus ≤ positive ∧ c.negativeConsensus ≤ negative) := by
  have := h.positive_negative
  omega

/-! ### The vote of an item -/

section vote

variable {N H : Type} [DecidableEq N]

/-- The votes of a processor, once this one is counted. -/
def countVote (node : N) (state : ItemState) (p : ItemProcessor N H) : ItemProcessor N H :=
  if state.isPositive then
    { p with positiveNodes := node :: p.positiveNodes, negativeNodes := p.negativeNodes.erase node }
  else { p with negativeNodes := node :: p.negativeNodes, positiveNodes := p.positiveNodes.erase node }

/-- A vote that is still open to this node. -/
structure OpenTo (node : N) (state : ItemState) (p : ItemProcessor N H) : Prop where
  canContinue : p.processingState.canContinue
  new : ¬ p.Counted node state
  stays : ¬ p.processingState.canRemoveSelf
  undecided : ¬ p.processingState.isProcessedToConsensus

theorem countVote_processingState (node : N) (state : ItemState) (p : ItemProcessor N H) :
    (countVote node state p).processingState = p.processingState := by
  unfold countVote
  split <;> rfl

/-- A counted vote goes to the consensus as soon as one of the two numbers is reached. -/
theorem vote_gotConsensus (config : ItemConfig N) (node : N) (state : ItemState)
    (p : ItemProcessor N H) (hopen : OpenTo node state p)
    (hreached : config.positiveConsensus ≤ (countVote node state p).positiveNodes.length ∨
      config.negativeConsensus ≤ (countVote node state p).negativeNodes.length) :
    (p.vote config node state).processingState = .GOT_CONSENSUS := by
  have hskip : ¬ (¬ p.processingState.canContinue ∨ p.Counted node state ∨
      p.processingState.canRemoveSelf) := by
    simp [hopen.canContinue, hopen.new, hopen.stays]
  have hundecided : ¬ (countVote node state p).processingState.isProcessedToConsensus := by
    rw [countVote_processingState]
    exact hopen.undecided
  unfold ItemProcessor.vote
  rw [if_neg hskip]
  change (if (countVote node state p).processingState.isProcessedToConsensus then _ else
    if config.negativeConsensus ≤ (countVote node state p).negativeNodes.length then _ else
    if config.positiveConsensus ≤ (countVote node state p).positiveNodes.length then _ else
      countVote node state p : ItemProcessor N H).processingState = _
  rw [if_neg hundecided]
  by_cases hneg : config.negativeConsensus ≤ (countVote node state p).negativeNodes.length
  · rw [if_pos hneg]
    rfl
  · rw [if_neg hneg, if_pos (hreached.resolve_right hneg)]
    rfl

/-- With decisive numbers the vote that completes the count decides the item. -/
theorem complete_vote_decides {n : ℕ} {c : Thresholds} (hc : c.Decisive n) (myInfo node : N)
    (state : ItemState) (p : ItemProcessor N H) (hopen : OpenTo node state p)
    (hcomplete : (countVote node state p).positiveNodes.length +
      (countVote node state p).negativeNodes.length = n) :
    (p.vote (c.itemConfig myInfo n) node state).processingState = .GOT_CONSENSUS :=
  vote_gotConsensus _ node state p hopen (hc _ _ hcomplete)

end vote

/-! ### The numbers of the code -/

/-- The positive number is between 1 and the number of nodes. -/
theorem positive_bounds (n : ℕ) (hn : 1 ≤ n) :
    1 ≤ (updateConsensus n).positiveConsensus ∧ (updateConsensus n).positiveConsensus ≤ n := by
  simp only [updateConsensus, updateConsensus_positive]
  split_ifs <;> omega

/-- The negative number is between 1 and the number of nodes. -/
theorem negative_bounds (n : ℕ) (hn : 1 ≤ n) :
    1 ≤ (updateConsensus n).negativeConsensus ∧ (updateConsensus n).negativeConsensus ≤ n := by
  simp only [updateConsensus, updateConsensus_positive, updateConsensus_negative]
  split_ifs <;> omega

/-- The number that breaks a resync is between 1 and the number of nodes. -/
theorem resyncBreak_bounds (n : ℕ) (hn : 1 ≤ n) :
    1 ≤ (updateConsensus n).resyncBreakConsensus ∧
      (updateConsensus n).resyncBreakConsensus ≤ n := by
  simp only [updateConsensus, updateConsensus_positive, updateConsensus_resyncBreak]
  split_ifs <;> omega

/-- SAFE, for the resync: the positive number and the one that breaks exclude each other. -/
theorem positive_resyncBreak (n : ℕ) :
    n < (updateConsensus n).positiveConsensus + (updateConsensus n).resyncBreakConsensus := by
  simp only [updateConsensus, updateConsensus_positive, updateConsensus_resyncBreak]
  split_ifs <;> omega

/-- The positive number is a majority but in a network of two nodes, where it is one. -/
theorem positive_majority_iff (n : ℕ) (hn : 1 ≤ n) :
    n < 2 * (updateConsensus n).positiveConsensus ↔ n ≠ 2 := by
  simp only [updateConsensus, updateConsensus_positive]
  split_ifs <;> omega

/-- The sum of the two numbers for an item: that of the roundings, and one more when it is `n`. -/
theorem positive_add_negative (n : ℕ) :
    (updateConsensus n).positiveConsensus + (updateConsensus n).negativeConsensus =
      max (max (n * 90 / 100) 1 + max ((n * 11 + 99) / 100) 1) (n + 1) := by
  simp only [updateConsensus, updateConsensus_positive, updateConsensus_negative]
  split_ifs <;> omega

/-- SAFE, for the item: the positive and the negative number exclude each other in every network. -/
theorem positive_negative (n : ℕ) :
    n < (updateConsensus n).positiveConsensus + (updateConsensus n).negativeConsensus := by
  rw [positive_add_negative]
  exact Nat.lt_of_succ_le (Nat.le_max_right _ _)

/-- The networks whose two numbers for an item leave no room between them: up to 100 nodes, and those
    below 200 whose last digit is not 0 and has a sum of at most 9 with the digit before it. -/
def NoGap (n : ℕ) : Prop :=
  n ≤ 100 ∨ n < 200 ∧ n % 10 ≠ 0 ∧ n / 10 % 10 + n % 10 ≤ 9

instance : DecidablePred NoGap := fun _ => inferInstanceAs (Decidable (_ ∨ _ ∧ _ ∧ _))

theorem noGap_below_200 : ∀ n < 200, 1 ≤ n →
    (max (max (n * 90 / 100) 1 + max ((n * 11 + 99) / 100) 1) (n + 1) ≤ n + 1 ↔ NoGap n) := by
  decide +kernel

theorem noGap_iff (n : ℕ) (hn : 1 ≤ n) :
    (updateConsensus n).positiveConsensus + (updateConsensus n).negativeConsensus ≤ n + 1 ↔
      NoGap n := by
  rw [positive_add_negative]
  rcases Nat.lt_or_ge n 200 with hsmall | hlarge
  · exact noGap_below_200 n hsmall hn
  · -- from here on the hundredth that the two fractions have too much is more than the floor drops
    simp only [NoGap]
    omega

/-- CODE DEFECT (which networks): the numbers of `updateConsensus` are safe and decisive in the networks
    of other than two nodes whose numbers leave no room between them. -/
theorem updateConsensus_safeAndDecisive_iff (n : ℕ) :
    (updateConsensus n).SafeAndDecisive n ↔ 1 ≤ n ∧ n ≠ 2 ∧ NoGap n := by
  constructor
  · intro h
    have hn : 1 ≤ n := h.positive_bounds.1.trans h.positive_bounds.2
    have hgap := (decisive_iff n _ h.positive_bounds.1 h.positive_bounds.2).1 h.decisive
    exact ⟨hn, (positive_majority_iff n hn).1 h.positive_majority, (noGap_iff n hn).1 hgap⟩
  · rintro ⟨hn, htwo, hgap⟩
    obtain ⟨hp, hpn⟩ := positive_bounds n hn
    exact
      { positive_majority := (positive_majority_iff n hn).2 htwo
        positive_negative := positive_negative n
        positive_resyncBreak := positive_resyncBreak n
        positive_bounds := ⟨hp, hpn⟩
        negative_bounds := negative_bounds n hn
        resyncBreak_bounds := resyncBreak_bounds n hn
        decisive := (decisive_iff n _ hp hpn).2 ((noGap_iff n hn).2 hgap) }

/-- CODE DEFECT: in a network of 110 nodes the item is approved by 99 and declined by 13, so a complete
    vote of 98 against 12 decides nothing; in one of two nodes a single node is the positive consensus. -/
theorem updateConsensus_undecided :
    ¬ (updateConsensus 110).Decisive 110 ∧ ¬ (2 < 2 * (updateConsensus 2).positiveConsensus) := by
  constructor
  · intro h
    have hgap := (decisive_iff 110 _ (positive_bounds 110 (by decide)).1
      (positive_bounds 110 (by decide)).2).1 h
    have hno := (noGap_iff 110 (by decide)).1 hgap
    exact absurd hno (by decide)
  · exact fun h => (positive_majority_iff 2 (by decide)).1 h rfl

end Universa.Node.Consensus
