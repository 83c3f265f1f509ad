import Universa.Contracts.ExpressionParse

/-! `countCommonParentheses` on every text. The scan starts after the parentheses that the text begins with. It ends
    with zero where a beginning of the text closes them all and more follows. Else it goes on to the last ones, so that
    it sees whether the text closes what it opens, unless it ends before it starts: where the text is opening
    parentheses and then fewer others, which it takes for the closing ones. -/

namespace Universa.Contracts.Expressions
open Universa.Lib Universa.Lib.Brackets

/-- A beginning of the text closes all parentheses that it opens, and more follows. -/
def ClosesEarly (s : Text) : Prop := ∃ u v, s = u ++ v ∧ u ≠ [] ∧ v ≠ [] ∧ parens.depth u = 0

/-- Opening parentheses, and then closing ones, which are fewer. -/
def LeftOpen (s : Text) : Prop := ∃ a b, b < a ∧ s = List.replicate a '(' ++ List.replicate b ')'

/-! ### The scan -/

/-- Where the level comes down to zero before the end, there is no common pair. -/
theorem commonParentheses_zero (expression : Text) {v : Text} (hv : v ≠ []) :
    ∀ (u : Text) (level commonLevel : ℕ), 0 < level → commonLevel ≤ level → (level : ℤ) + parens.depth u = 0 →
      commonParentheses expression (u ++ v) level commonLevel = .ok 0
  | [], level, _, hpos, _, hzero => by
    rw [depth_nil] at hzero
    omega
  | x :: u, level, commonLevel, hpos, hle, hzero => by
    have hgo : ¬ (x :: (u ++ v)).length ≤ commonLevel := by
      have hlen := (depth_le_length (b := parens) (x :: u)).1
      have hlenv := List.length_pos_iff.mpr hv
      simp only [List.length_cons, List.length_append] at hlen ⊢
      omega
    rw [depth_cons] at hzero
    rw [List.cons_append, commonParentheses, if_neg hgo]
    by_cases ho : x = '('
    · subst ho
      have hturn : parens.turn '(' = 1 := rfl
      rw [if_pos rfl]
      exact commonParentheses_zero expression hv u (level + 1) commonLevel (by omega) (by omega) (by omega)
    · rw [if_neg ho]
      by_cases hc : x = ')'
      · subst hc
        have hturn : parens.turn ')' = -1 := rfl
        rw [if_pos rfl]
        by_cases hlast : level - 1 = 0
        · rw [if_pos hlast]
          rfl
        · rw [if_neg hlast]
          exact commonParentheses_zero expression hv u (level - 1) _ (by omega) (by omega) (by omega)
      · have hturn : parens.turn x = 0 := turn_neutral (b := parens) ho hc
        rw [if_neg hc]
        exact commonParentheses_zero expression hv u level commonLevel hpos hle (by omega)

/-- What the scan has seen where it ends with a number and never came down to zero. -/
theorem commonParentheses_ok {expression : Text} {k : ℕ} :
    ∀ {s : Text} {level commonLevel : ℕ}, commonLevel ≤ level → commonLevel ≤ s.length →
      (∀ u v, s = u ++ v → v ≠ [] → 0 < (level : ℤ) + parens.depth u) →
      commonParentheses expression s level commonLevel = .ok k →
        ∃ m, s = m ++ List.replicate k ')' ∧ (level : ℤ) + parens.depth m = k
  | [], level, commonLevel, hle, hlen, habove, h => by
    rw [commonParentheses] at h
    split_ifs at h with hdiffer
    have hk : commonLevel = k := Except.ok.inj h
    have hzero : commonLevel = 0 := Nat.le_zero.mp hlen
    exact ⟨[], by simp [← hk, hzero], by rw [depth_nil]; omega⟩
  | x :: s, level, commonLevel, hle, hlen, habove, h => by
    have hpos : 0 < level := by simpa using habove [] (x :: s) rfl (List.cons_ne_nil _ _)
    have htail : ∀ l : ℕ, (level : ℤ) + parens.turn x = l →
        ∀ u v, s = u ++ v → v ≠ [] → 0 < (l : ℤ) + parens.depth u := by
      intro l hl u v hs hv
      have := habove (x :: u) v (by rw [hs, List.cons_append]) hv
      rw [depth_cons] at this
      omega
    -- what the scan of the rest has seen, with the symbol before it
    have hcons : ∀ {l c : ℕ}, (level : ℤ) + parens.turn x = l → c ≤ l → c ≤ s.length →
        commonParentheses expression s l c = .ok k →
          ∃ m, x :: s = m ++ List.replicate k ')' ∧ (level : ℤ) + parens.depth m = k := by
      intro l c hl hcl hcs hrest
      obtain ⟨m, hm, hk⟩ := commonParentheses_ok hcl hcs (htail l hl) hrest
      exact ⟨x :: m, by rw [hm, List.cons_append], by rw [depth_cons]; omega⟩
    rw [commonParentheses] at h
    by_cases hend : (x :: s).length ≤ commonLevel
    · rw [if_pos hend] at h
      split_ifs at h with hdiffer hother
      have hk : commonLevel = k := Except.ok.inj h
      have hclosing : x :: s = List.replicate k ')' := by
        refine List.eq_replicate_iff.mpr ⟨by omega, fun y hy => ?_⟩
        by_contra hne
        exact hother (List.any_eq_true.mpr ⟨y, hy, by simpa using hne⟩)
      exact ⟨[], hclosing, by rw [depth_nil]; omega⟩
    · rw [if_neg hend] at h
      have hcs : commonLevel ≤ s.length := by
        rw [List.length_cons] at hend
        omega
      by_cases ho : x = '('
      · subst ho
        rw [if_pos rfl] at h
        exact hcons (by simp [show parens.turn '(' = 1 from rfl]) (by omega) hcs h
      · rw [if_neg ho] at h
        by_cases hc : x = ')'
        · subst hc
          have hturn : parens.turn ')' = -1 := rfl
          rw [if_pos rfl] at h
          split_ifs at h with hlast
          -- the last symbol closes the last parenthesis
          · have hk : 0 = k := Except.ok.inj h
            cases s with
            | nil => exact ⟨[')'], by simp [← hk], by rw [depth_cons, depth_nil]; omega⟩
            | cons y s =>
              have := habove [')'] (y :: s) rfl (List.cons_ne_nil _ _)
              rw [depth_cons, depth_nil] at this
              omega
          · exact hcons (by omega) (by omega) (by omega) h
        · have hturn : parens.turn x = 0 := turn_neutral (b := parens) ho hc
          rw [if_neg hc] at h
          exact hcons (by omega) hle hcs h

/-- The one message that the scan throws. -/
theorem commonParentheses_error {expression : Text} {message : String} :
    ∀ {s : Text} {level commonLevel : ℕ}, commonParentheses expression s level commonLevel = .error message →
      message = invalid expression "Expected ')'."
  | [], level, commonLevel, h => by
    rw [commonParentheses] at h
    split_ifs at h with hdiffer
    · exact (Except.error.inj h).symm
    · cases h
  | x :: s, level, commonLevel, h => by
    rw [commonParentheses] at h
    split_ifs at h with hend hdiffer hother ho hc hlast
    · exact (Except.error.inj h).symm
    · exact (Except.error.inj h).symm
    · cases h
    · exact commonParentheses_error h
    · cases h
    · exact commonParentheses_error h
    · exact commonParentheses_error h

/-- Where less than the level is left, the scan ends at once. -/
theorem commonParentheses_short {expression : Text} {k j : ℕ} {s : Text} (hshort : s.length < j)
    (h : commonParentheses expression s j j = .ok k) : s = List.replicate s.length ')' := by
  refine List.eq_replicate_iff.mpr ⟨rfl, fun y hy => ?_⟩
  cases s with
  | nil => cases hy
  | cons x s =>
    rw [commonParentheses, if_pos hshort.le] at h
    split_ifs at h with hdiffer hother
    by_contra hne
    exact hother (List.any_eq_true.mpr ⟨y, hy, by simpa using hne⟩)

/-! ### The whole text -/

/-- While nothing closes early, the level stays above zero. -/
theorem level_pos {j : ℕ} {r : Text} (hj : 0 < j) (h : ¬ ClosesEarly (List.replicate j '(' ++ r)) :
    ∀ u v, r = u ++ v → v ≠ [] → 0 < (j : ℤ) + parens.depth u := by
  rintro u v rfl hv
  refine depth_pos (by omega) fun p q hpq hzero => h ⟨List.replicate j '(' ++ p, q ++ v, ?_, ?_, ?_, ?_⟩
  · rw [hpq, List.append_assoc, List.append_assoc]
  · exact List.append_ne_nil_of_left_ne_nil (by simpa using hj.ne') _
  · exact List.append_ne_nil_of_right_ne_nil _ hv
  · have hopenings : parens.depth (List.replicate j '(') = j := depth_openings (b := parens) j
    rw [depth_append, hopenings, hzero]

/-- A text that closes what it opens, and not early, is balanced. -/
theorem balanced_of_level {j : ℕ} {r : Text} (hdepth : (j : ℤ) + parens.depth r = 0)
    (h : ∀ u v, r = u ++ v → v ≠ [] → 0 < (j : ℤ) + parens.depth u) :
    parens.Balanced (List.replicate j '(' ++ r) := by
  have hopenings : ∀ i, parens.depth (List.replicate i '(') = i := fun i => depth_openings (b := parens) i
  refine ⟨by rw [depth_append, hopenings, hdepth], fun p q hpq => ?_⟩
  rcases List.append_eq_append_iff.mp hpq with ⟨u, rfl, hr⟩ | ⟨u, hu, -⟩
  · rw [depth_append, hopenings]
    rcases eq_or_ne q [] with rfl | hq
    · rw [List.append_nil] at hr
      rw [← hr, hdepth]
    · exact (h u q hr hq).le
  · obtain ⟨i, hi⟩ : ∃ i, p = List.replicate i '(' :=
      ⟨p.length, List.eq_replicate_iff.mpr
        ⟨rfl, fun x hx => List.eq_of_mem_replicate (hu ▸ List.mem_append_left u hx)⟩⟩
    rw [hi, hopenings]
    exact Int.natCast_nonneg i

/-- Where a beginning of the text closes all parentheses, no pair is common. -/
theorem countCommonParentheses_closesEarly {s : Text} (hhead : s.head? = some '(') (h : ClosesEarly s) :
    countCommonParentheses s = .ok 0 := by
  obtain ⟨j, r, rfl, hr⟩ := exists_openings s
  rw [countCommonParentheses_openings hr]
  split_ifs with hj
  · rfl
  · obtain ⟨u, v, huv, hu, hv, hzero⟩ := h
    have hopenings : ∀ i, parens.depth (List.replicate i '(') = i := fun i => depth_openings (b := parens) i
    rcases List.append_eq_append_iff.mp huv with ⟨m, rfl, rfl⟩ | ⟨m, hm, -⟩
    · rw [depth_append, hopenings] at hzero
      exact commonParentheses_zero _ hv m j j (Nat.pos_of_ne_zero hj) le_rfl hzero
    · have hall : u = List.replicate u.length '(' := List.eq_replicate_iff.mpr
        ⟨rfl, fun x hx => List.eq_of_mem_replicate (hm ▸ List.mem_append_left m hx)⟩
      rw [hall, hopenings] at hzero
      exact absurd (List.length_pos_iff.mpr hu) (by omega)

/-- Where no beginning does, the text is balanced if the scan ends with a number, or parentheses are left open. -/
theorem balanced_of_countCommonParentheses {s : Text} {k : ℕ} (hhead : s.head? = some '(') (hearly : ¬ ClosesEarly s)
    (hopen : ¬ LeftOpen s) (h : countCommonParentheses s = .ok k) : parens.Balanced s := by
  obtain ⟨j, r, rfl, hr⟩ := exists_openings s
  rw [countCommonParentheses_openings hr] at h
  split_ifs at h with hj
  · exact absurd (by simpa [hj] using hhead) hr
  · have hlevel := level_pos (Nat.pos_of_ne_zero hj) hearly
    rcases Nat.lt_or_ge r.length j with hshort | hlen
    · exact absurd ⟨j, r.length, hshort, by rw [← commonParentheses_short hshort h]⟩ hopen
    · obtain ⟨m, rfl, hm⟩ := commonParentheses_ok le_rfl hlen hlevel h
      have hclosings : parens.depth (List.replicate k ')') = -k := depth_closings (b := parens) k
      refine balanced_of_level ?_ hlevel
      rw [depth_append, hclosings]
      omega

/-- The message of a throw. -/
theorem countCommonParentheses_error {s : Text} {message : String} (h : countCommonParentheses s = .error message) :
    message = invalid s "Expected ')'." := by
  obtain ⟨j, r, rfl, hr⟩ := exists_openings s
  rw [countCommonParentheses_openings hr] at h
  split_ifs at h
  exact commonParentheses_error h

/-- CODE DEFECT (`countCommonParentheses`): opening parentheses with fewer closing ones are taken for pairs. -/
theorem countCommonParentheses_leftOpen {a b : ℕ} (hlt : b < a) :
    countCommonParentheses (List.replicate a '(' ++ List.replicate b ')') = .ok a := by
  have hhead : (List.replicate b ')').head? ≠ some '(' := by cases b <;> simp [List.replicate_succ]
  rw [countCommonParentheses_openings hhead, if_neg (by omega)]
  cases b with
  | zero => simp [commonParentheses, pure, Except.pure]
  | succ b =>
    rw [List.replicate_succ, commonParentheses, if_pos (by simpa using hlt.le), if_neg (by simp), if_neg (by simp)]
    rfl

/-- CORRECT (`countCommonParentheses`): on a balanced text the answer is the greatest number of pairs that can be
    taken off. A text that begins with a parenthesis and is not balanced is refused, but for those where a beginning
    closes all parentheses: they have no common pair, and what follows is not read. -/
theorem countCommonParentheses_spec (s : Text) :
    (parens.Balanced s → ∃ k, countCommonParentheses s = .ok k ∧
      IsGreatest {j | ∃ w, s = parens.enclose j w ∧ parens.Balanced w} k) ∧
    (s.head? = some '(' → ¬ parens.Balanced s → ClosesEarly s → countCommonParentheses s = .ok 0) ∧
    (s.head? = some '(' → ¬ parens.Balanced s → ¬ ClosesEarly s → ¬ LeftOpen s →
      countCommonParentheses s = .error (invalid s "Expected ')'.")) := by
  refine ⟨fun hs => ?_, fun hhead _ hearly => countCommonParentheses_closesEarly hhead hearly,
    fun hhead hs hearly hopen => ?_⟩
  · obtain ⟨k, u, rfl, hu, hbare⟩ := hs.exists_enclose
    exact ⟨k, countCommonParentheses_eq hu hbare k, isGreatest_enclose hu hbare k⟩
  · cases h : countCommonParentheses s with
    | ok k => exact absurd (balanced_of_countCommonParentheses hhead hearly hopen h) hs
    | error message => rw [countCommonParentheses_error h]

/-- What follows the first group is not read. -/
theorem openAfterGroup : countCommonParentheses "(a)(".toList = .ok 0 ∧ "(a)(".toList.head? = some '(' ∧
    ¬ parens.Balanced "(a)(".toList :=
  ⟨by decide, by decide, fun h => absurd h.1 (by decide)⟩

end Universa.Contracts.Expressions
