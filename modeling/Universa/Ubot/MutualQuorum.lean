import Universa.Lib.Comp
import Universa.Lib.Prune
import Universa.Ubot.CommonCortege

/-! What the first loop of `crossAnalyzeCorteges` leaves of the own cortege.

    Where `this.corteges` has an entry for each UBot of the own cortege, the loop prunes down to the
    largest subset whose members have a quorum among themselves. The entry of the own UBot is the one
    that is never there. -/

namespace Universa.Ubot
open Universa.Prune

variable {H : Type}

/-- The cortege of a UBot, where it is there. -/
def received (corteges : ℕ → Option (Finset ℕ)) (ubot : ℕ) : Finset ℕ := (corteges ubot).getD ∅

/-- Among the UBots of a set this one has a quorum, the own UBot with it, and a quorum has it: the own
    UBot and those of the others that have it in their corteges. -/
structure Keeps (p : Pool H) (corteges : ℕ → Option (Finset ℕ)) (S : Finset ℕ) (ubot : ℕ) : Prop where
  own : p.selfPoolIndex ∈ received corteges ubot
  quorum : p.quorumSize ≤ (S ∩ received corteges ubot).card
  votes : p.quorumSize ≤ 1 + ((S.erase p.selfPoolIndex).filter (ubot ∈ received corteges ·)).card

instance (p : Pool H) (corteges : ℕ → Option (Finset ℕ)) (S : Finset ℕ) :
    DecidablePred (Keeps p corteges S) := fun ubot =>
  decidable_of_iff
    (p.selfPoolIndex ∈ received corteges ubot ∧ p.quorumSize ≤ (S ∩ received corteges ubot).card ∧
      p.quorumSize ≤ 1 + ((S.erase p.selfPoolIndex).filter (ubot ∈ received corteges ·)).card)
    ⟨fun h => ⟨h.1, h.2.1, h.2.2⟩, fun h => ⟨h.own, h.quorum, h.votes⟩⟩

/-- A set of UBots with a quorum among themselves. -/
structure MutualQuorum (p : Pool H) (corteges : ℕ → Option (Finset ℕ)) (S : Finset ℕ) : Prop where
  size : p.quorumSize ≤ S.card
  members : ∀ ubot ∈ S, Keeps p corteges S ubot

/-- A search as `crossAnalyzeCorteges` meets it: the own cortege is a set with the own UBot in it, and an
    entry of the own UBot, were it there, would have that set. -/
structure Analysed (p : Pool H) extends Search H where
  nodup : cortege.Nodup
  own_mem : p.selfPoolIndex ∈ cortege
  own_entry : ∀ entry, corteges p.selfPoolIndex = some entry → cortege.toFinset ⊆ entry

/-- The loop ends, and where it does not return false the own UBot is left, among the largest subset of
    the cortege with a quorum among themselves. -/
def Search.SettlesOnMutualQuorum (p : Pool H) (s : Search H) : Prop :=
  ∃ found s', s.removeLoop p (s.cortege.length + 1) = .ok (found, s') ∧
    (found = true → p.selfPoolIndex ∈ s'.cortege ∧
      IsGreatest {S | S ⊆ s.cortege.toFinset ∧ MutualQuorum p s.corteges S} s'.cortege.toFinset)

/-- More UBots never hurt. -/
theorem keeps_monotone (p : Pool H) (corteges : ℕ → Option (Finset ℕ)) :
    Prune.Monotone (Keeps p corteges) := by
  intro S T hST ubot h
  refine ⟨h.own, h.quorum.trans ?_, h.votes.trans ?_⟩
  · exact Finset.card_le_card (Finset.inter_subset_inter_right hST)
  · have := Finset.card_le_card (Finset.filter_subset_filter (ubot ∈ received corteges ·)
      (Finset.erase_subset_erase p.selfPoolIndex hST))
    omega

/-! ### A pass -/

/-- A filter whose test throws nowhere. -/
theorem filterEach_eq {α : Type} {test : α → Except Thrown Bool} {b : α → Bool} {l : List α}
    (h : ∀ x ∈ l, test x = .ok (b x)) : filterEach test l = .ok (l.filter b) := by
  induction l with
  | nil => rfl
  | cons x xs ih =>
      rw [filterEach, h x List.mem_cons_self, ih fun y hy => h y (List.mem_cons_of_mem _ hy),
        List.filter_cons]
      cases b x <;> rfl

namespace Search
variable {p : Pool H} {s : Search H}

/-- Each UBot of the own cortege has an entry. -/
def Complete (s : Search H) : Prop := ∀ ubot ∈ s.cortege, (s.corteges ubot).isSome

theorem Complete.corteges_eq (h : s.Complete) {ubot : ℕ} (hmem : ubot ∈ s.cortege) :
    s.corteges ubot = some (received s.corteges ubot) := by
  obtain ⟨entry, hentry⟩ := Option.isSome_iff_exists.1 (h ubot hmem)
  rw [received, hentry, Option.getD_some]

theorem Complete.has_eq (h : s.Complete) {ubot : ℕ} (hmem : ubot ∈ s.cortege) (other : ℕ) :
    s.has ubot other = .ok (decide (other ∈ received s.corteges ubot)) := by
  rw [has, h.corteges_eq hmem]

/-- A count over the own cortege is a count over its set. -/
theorem length_filter_eq (hnodup : s.cortege.Nodup) (q : ℕ → Prop) [DecidablePred q] :
    (s.cortege.filter (q ·)).length = (s.cortege.toFinset.filter q).card := by
  rw [← List.toFinset_card_of_nodup (hnodup.filter _), List.toFinset_filter]
  simp

/-- The votes of the others. -/
theorem length_votes_eq (hnodup : s.cortege.Nodup) (ubot : ℕ) :
    ((others p s.cortege).filter fun u => ubot ∈ received s.corteges u).length =
      ((s.cortege.toFinset.erase p.selfPoolIndex).filter (ubot ∈ received s.corteges ·)).card := by
  have hothers : (others p s.cortege).Nodup := hnodup.filter _
  rw [← List.toFinset_card_of_nodup (hothers.filter _)]
  congr 1
  ext u
  simp only [others, List.mem_toFinset, List.mem_filter, Finset.mem_filter, Finset.mem_erase,
    decide_eq_true_eq]
  tauto

/-- The test of the loop: whom the set of the own cortege does not keep. -/
theorem isRemoved_eq (hnodup : s.cortege.Nodup) (h : s.Complete) {ubot : ℕ} (hmem : ubot ∈ s.cortege) :
    s.isRemoved p ubot = .ok (!decide (Keeps p s.corteges s.cortege.toFinset ubot)) := by
  have hvotes : filterEach (fun u => s.has u ubot) (others p s.cortege) =
      .ok ((others p s.cortege).filter fun u => ubot ∈ received s.corteges u) :=
    filterEach_eq fun u hu => h.has_eq (List.mem_of_mem_filter hu) ubot
  have hquorum : (s.cortege.filter (· ∈ received s.corteges ubot)).length =
      (s.cortege.toFinset ∩ received s.corteges ubot).card := by
    rw [length_filter_eq hnodup, Finset.filter_mem_eq_inter]
  have hcount := length_votes_eq (p := p) hnodup ubot
  unfold isRemoved
  rw [h.has_eq hmem, h.corteges_eq hmem, hvotes]
  by_cases hown : p.selfPoolIndex ∈ received s.corteges ubot
  · by_cases hq : (s.cortege.toFinset ∩ received s.corteges ubot).card < p.quorumSize
    · have hnot : ¬ Keeps p s.corteges s.cortege.toFinset ubot := fun hk => by
        have := hk.quorum
        omega
      simp [hown, hquorum, hq, hnot, bind, Except.bind, pure, Except.pure]
    · have hiff : (!decide (Keeps p s.corteges s.cortege.toFinset ubot)) = decide (1 +
          ((s.cortege.toFinset.erase p.selfPoolIndex).filter (ubot ∈ received s.corteges ·)).card <
            p.quorumSize) := by
        rw [← decide_not, decide_eq_decide, ← Nat.not_le, not_iff_not]
        exact ⟨fun hk => hk.votes, fun hv => ⟨hown, Nat.not_lt.1 hq, hv⟩⟩
      rw [hiff]
      simp [hown, hquorum, hq, hcount, bind, Except.bind, pure, Except.pure]
  · have hnot : ¬ Keeps p s.corteges s.cortege.toFinset ubot := fun hk => hown hk.own
    simp [hown, hnot, bind, Except.bind, pure, Except.pure]

/-- A pass, as the set of the own cortege sees it. -/
theorem filterEach_isRemoved (hnodup : s.cortege.Nodup) (h : s.Complete) :
    filterEach (s.isRemoved p) s.cortege =
      .ok (s.cortege.filter fun u => !decide (Keeps p s.corteges s.cortege.toFinset u)) :=
  filterEach_eq fun _ hu => isRemoved_eq hnodup h hu

/-- The own cortege after a pass. -/
theorem toFinset_filter_notMem :
    (s.cortege.filter (· ∉ s.cortege.filter fun u =>
      !decide (Keeps p s.corteges s.cortege.toFinset u))).toFinset =
        pass (Keeps p s.corteges) s.cortege.toFinset := by
  ext u
  simp only [Prune.pass, List.mem_toFinset, List.mem_filter, Finset.mem_filter, Bool.not_eq_true',
    decide_eq_false_iff_not, decide_eq_true_eq]
  tauto

/-! ### The loop -/

/-- What the loop comes to. -/
structure Pruned (p : Pool H) (s : Search H) (found : Bool) (s' : Search H) : Prop where
  corteges : s'.corteges = s.corteges
  leads : Leads (Keeps p s.corteges) s.cortege.toFinset s'.cortege.toFinset
  stable : found = true → Stable (Keeps p s.corteges) s'.cortege.toFinset
  size : found = true → s'.cortege.toFinset = s.cortege.toFinset ∨
    p.quorumSize ≤ s'.cortege.toFinset.card
  small : found = false → s'.cortege.toFinset.card < p.quorumSize

/-- With an entry for each UBot the loop ends: each pass but the last removes a UBot. -/
theorem removeLoop_pruned : ∀ (passes : ℕ) (s : Search H), s.cortege.Nodup → s.Complete →
    s.cortege.length < passes → ∃ found s', s.removeLoop p passes = .ok (found, s') ∧
      Pruned p s found s'
  | 0, _, _, _, hlt => absurd hlt (Nat.not_lt_zero _)
  | passes + 1, s, hnodup, hall, hlt => by
      obtain ⟨removed, hremoved⟩ : ∃ removed, removed = s.cortege.filter fun u =>
        !decide (Keeps p s.corteges s.cortege.toFinset u) := ⟨_, rfl⟩
      have hpass := filterEach_isRemoved (p := p) hnodup hall
      rw [← hremoved] at hpass
      by_cases hempty : removed = []
      · -- nobody leaves: the set is stable
        refine ⟨true, s, ?_, rfl, .refl, fun _ ubot hubot => ?_, fun _ => .inl rfl, fun h => by cases h⟩
        · simp [removeLoop, hpass, hempty, bind, Except.bind, pure, Except.pure]
        · rw [hempty, eq_comm, List.filter_eq_nil_iff] at hremoved
          simpa using hremoved ubot (List.mem_toFinset.1 hubot)
      · obtain ⟨s₁, hs₁⟩ : ∃ s₁ : Search H,
          s₁ = { s with cortege := s.cortege.filter (· ∉ removed) } := ⟨_, rfl⟩
        have hcorteges : s₁.corteges = s.corteges := by rw [hs₁]
        have hnodup₁ : s₁.cortege.Nodup := by
          rw [hs₁]
          exact hnodup.filter _
        have hset : s₁.cortege.toFinset = pass (Keeps p s.corteges) s.cortege.toFinset := by
          rw [hs₁, hremoved]
          exact toFinset_filter_notMem
        have hcard : s₁.cortege.toFinset.card = s₁.cortege.length :=
          List.toFinset_card_of_nodup hnodup₁
        have hstep : s.removeLoop p (passes + 1) =
            if s₁.cortege.length < p.quorumSize then .ok (false, s₁) else s₁.removeLoop p passes := by
          rw [removeLoop, hpass, hs₁]
          have hne : removed.isEmpty = false := by simpa using hempty
          simp only [bind, Except.bind, pure, Except.pure, hne, Bool.false_eq_true, if_false]
        rw [hstep]
        by_cases hsmall : s₁.cortege.length < p.quorumSize
        · rw [if_pos hsmall]
          exact ⟨false, s₁, rfl, hcorteges, .single hset, by simp, by simp, fun _ => hcard ▸ hsmall⟩
        · rw [if_neg hsmall]
          have hshorter : s₁.cortege.length < passes := by
            obtain ⟨ubot, hubot⟩ := List.exists_mem_of_ne_nil _ hempty
            have hmem : ubot ∈ s.cortege := by
              rw [hremoved] at hubot
              exact List.mem_of_mem_filter hubot
            have : s₁.cortege.length < s.cortege.length := by
              rw [hs₁]
              exact List.length_filter_lt_length_iff_exists.2 ⟨ubot, hmem, by simpa using hubot⟩
            omega
          have hall₁ : s₁.Complete := by
            intro u hu
            rw [hcorteges]
            rw [hs₁] at hu
            exact hall u (List.mem_of_mem_filter hu)
          obtain ⟨found, s', heq, hpruned⟩ := removeLoop_pruned passes s₁ hnodup₁ hall₁ hshorter
          refine ⟨found, s', heq, ?_⟩
          exact
            { corteges := hpruned.corteges.trans hcorteges
              leads := .head hset (hcorteges ▸ hpruned.leads)
              stable := hcorteges ▸ hpruned.stable
              size := fun hfound => .inr ((hpruned.size hfound).elim
                (fun h => by rw [h, hcard]; exact Nat.not_lt.1 hsmall) id)
              small := hpruned.small }

/-- A UBot without an entry makes the first pass throw. -/
theorem removeLoop_throws {ubot : ℕ} (hmem : ubot ∈ s.cortege) (hnone : s.corteges ubot = none)
    (passes : ℕ) (r : Bool × Search H) : s.removeLoop p (passes + 1) ≠ .ok r := by
  intro h
  rw [removeLoop] at h
  obtain ⟨removed, hremoved, -⟩ := Universa.Except.bind_eq_ok.1 h
  obtain ⟨b, hb⟩ := filterEach_ok hremoved ubot hmem
  simp [isRemoved, has, hnone, bind, Except.bind] at hb

end Search

/-! ### The own UBot -/

/-- The own UBot is in the largest stable subset of a quorum, where its entry has the own cortege. -/
theorem own_mem_of_leads {p : Pool H} {s : Analysed p} {R : Finset ℕ} (hall : s.Complete)
    (hleads : Leads (Keeps p s.corteges) s.cortege.toFinset R)
    (hR : Stable (Keeps p s.corteges) R) (hsize : p.quorumSize ≤ R.card) : p.selfPoolIndex ∈ R := by
  have hown : s.cortege.toFinset ⊆ received s.corteges p.selfPoolIndex :=
    s.own_entry _ (hall.corteges_eq s.own_mem)
  have hmem : p.selfPoolIndex ∈ s.cortege.toFinset := List.mem_toFinset.2 s.own_mem
  obtain ⟨T, hT⟩ : ∃ T, T = insert p.selfPoolIndex R := ⟨_, rfl⟩
  have hTS : T ⊆ s.cortege.toFinset := hT ▸ Finset.insert_subset hmem hleads.subset
  have hRT : R ⊆ T := hT ▸ Finset.subset_insert _ _
  -- with the own UBot the set is still stable, so it was not larger before
  have hstable : Stable (Keeps p s.corteges) T := by
    intro u hu
    rw [hT, Finset.mem_insert] at hu
    rcases hu with rfl | hu
    · refine ⟨hown hmem, ?_, ?_⟩
      · rw [Finset.inter_eq_left.2 (hTS.trans hown)]
        exact hsize.trans (Finset.card_le_card hRT)
      · have hvoters : R.erase p.selfPoolIndex ⊆
            (T.erase p.selfPoolIndex).filter (p.selfPoolIndex ∈ received s.corteges ·) := by
          intro v hv
          obtain ⟨hne, hvR⟩ := Finset.mem_erase.1 hv
          exact Finset.mem_filter.2 ⟨Finset.mem_erase.2 ⟨hne, hRT hvR⟩, (hR v hvR).own⟩
        have hcard := Finset.card_le_card hvoters
        have := Finset.pred_card_le_card_erase (s := R) (a := p.selfPoolIndex)
        omega
    · exact keeps_monotone p s.corteges hRT u (hR u hu)
  have hTR := hleads.stable_subset (keeps_monotone p s.corteges) hstable hTS
  exact hTR (hT ▸ Finset.mem_insert_self _ _)

/-- CODE DEFECT (which corteges): the loop settles on the largest subset with a quorum among themselves
    where each UBot of the own cortege has an entry in `this.corteges`, the own UBot included. -/
theorem removeLoop_settles_iff (p : Pool H) (s : Analysed p) :
    s.SettlesOnMutualQuorum p ↔ ∀ ubot ∈ s.cortege, (s.corteges ubot).isSome := by
  constructor
  · rintro ⟨found, s', heq, -⟩ ubot hmem
    rw [Option.isSome_iff_ne_none]
    exact fun hnone => Search.removeLoop_throws hmem hnone _ _ heq
  · intro hall
    obtain ⟨found, s', heq, h⟩ := Search.removeLoop_pruned (p := p) (s.cortege.length + 1) s.toSearch
      s.nodup hall (Nat.lt_succ_self _)
    refine ⟨found, s', heq, fun hfound => ?_⟩
    have hsize : p.quorumSize ≤ s'.cortege.toFinset.card := by
      rcases h.size hfound with hsame | hsize
      · -- nobody left: the own UBot has a quorum in the set
        rw [hsame]
        have hown := h.stable hfound p.selfPoolIndex
          (hsame ▸ List.mem_toFinset.2 s.own_mem)
        rw [hsame] at hown
        exact hown.quorum.trans (Finset.card_le_card Finset.inter_subset_left)
      · exact hsize
    have hgreatest := h.leads.isGreatest (keeps_monotone p s.corteges) (h.stable hfound)
    refine ⟨?_, ⟨hgreatest.1.1, hsize, h.stable hfound⟩, fun S hS => ?_⟩
    · exact List.mem_toFinset.1 (own_mem_of_leads hall h.leads (h.stable hfound) hsize)
    · exact hgreatest.2 ⟨hS.1, hS.2.members⟩

/-- Where the loop returns false no subset of the own cortege has a quorum among themselves. -/
theorem removeLoop_false {p : Pool H} {s s' : Search H} (h : s.Pruned p false s')
    {S : Finset ℕ} (hS : S ⊆ s.cortege.toFinset) : ¬ MutualQuorum p s.corteges S := by
  intro hquorum
  have hsub := h.leads.stable_subset (keeps_monotone p s.corteges) hquorum.members hS
  have := Finset.card_le_card hsub
  have := hquorum.size
  have := h.small rfl
  omega

/-- As `calculateCommonCortege` fills them the corteges are never complete. -/
theorem removeLoop_never (p : Pool H) (s : Analysed p) (hnone : s.corteges p.selfPoolIndex = none) :
    ¬ s.SettlesOnMutualQuorum p := by
  rintro ⟨found, s', heq, -⟩
  exact Search.removeLoop_throws s.own_mem hnone _ _ heq

/-- Three UBots whose corteges all agree. -/
def agreeing : Analysed (⟨0, 2, fun _ => ()⟩ : Pool Unit) where
  cortege := [0, 1, 2]
  corteges u := if u = 0 then none else some {0, 1, 2}
  lastCortegesHash := none
  suspicious := []
  suspiciousRemovalCoefficients _ := 0
  commonCortegeIteration := 0
  nodup := by decide
  own_mem := by decide
  own_entry := by simp

/-- The loop throws although all agree. -/
theorem removeLoop_agreeing :
    agreeing.removeLoop ⟨0, 2, fun _ => ()⟩ 4 = .error .typeError ∧
      ¬ agreeing.SettlesOnMutualQuorum ⟨0, 2, fun _ => ()⟩ := by
  have hthrows : agreeing.removeLoop ⟨0, 2, fun _ => ()⟩ 4 = .error .typeError := rfl
  refine ⟨hthrows, ?_⟩
  rintro ⟨found, s', heq, -⟩
  have : agreeing.removeLoop ⟨0, 2, fun _ => ()⟩ 4 = .ok (found, s') := heq
  rw [hthrows] at this
  cases this

end Universa.Ubot
