import Universa.Contracts.Formula
import Universa.Js.Double
import Universa.Lib.Brackets
import Universa.Lib.Comp

/-! What `parseExpression` makes of a formula: the tree that is grouped at the first operators, where the signs
    are readable. First the scans: on a text whose parentheses match, a search finds the first place of an
    operation outside of them, and `countCommonParentheses` the pairs around the whole text. -/

namespace Universa.Contracts.Expressions
open Universa.Js Universa.Lib Universa.Lib.Brackets

/-- Parentheses. -/
def parens : Brackets Char := ⟨'(', ')', by decide⟩

/-! ### The search for an operation -/

theorem topLevelFrom_eq (expression v : Text) (x : Char) :
    ∀ (u : Text) (level : ℕ), (∀ a b, u = a ++ b → 0 ≤ level + parens.depth a) →
      topLevelFrom expression (u ++ x :: v) level u.length = .ok (decide ((level : ℤ) + parens.depth u = 0))
  | [], level, _ => by
    simp [topLevelFrom, pure, Except.pure]
  | c :: u, level, h => by
    have htail : ∀ k : ℕ, (level : ℤ) + parens.turn c = k → ∀ a b, u = a ++ b → 0 ≤ k + parens.depth a := by
      rintro k hk a b rfl
      have := h (c :: a) b rfl
      rw [depth_cons] at this
      omega
    rw [List.cons_append, List.length_cons, topLevelFrom, depth_cons]
    by_cases ho : c = '('
    · subst ho
      have hturn : parens.turn '(' = 1 := rfl
      rw [if_pos rfl, topLevelFrom_eq expression v x u (level + 1) (htail _ (by rw [hturn]; rfl)), hturn]
      congr 2
      push_cast
      rw [add_assoc]
    · by_cases hc : c = ')'
      · subst hc
        have hturn : parens.turn ')' = -1 := rfl
        have hpos : level ≠ 0 := by
          have := h [')'] u rfl
          rw [depth_cons, hturn, depth_nil] at this
          omega
        rw [if_neg ho, if_pos rfl, if_neg hpos, topLevelFrom_eq expression v x u (level - 1)
          (htail _ (by rw [hturn]; omega)), hturn]
        congr 2
        rw [eq_iff_iff]
        omega
      · have hturn : parens.turn c = 0 := turn_neutral (b := parens) ho hc
        rw [if_neg ho, if_neg hc, topLevelFrom_eq expression v x u level (htail _ (by rw [hturn]; rfl)), hturn,
          zero_add]

theorem isTopLevelOperation_eq {u v : Text} {x : Char} (h : parens.Nonneg (u ++ x :: v)) :
    isTopLevelOperation (u ++ x :: v) u.length = .ok (decide (parens.depth u = 0)) := by
  rw [isTopLevelOperation, topLevelFrom_eq]
  · simp
  · rintro a b rfl
    have := h a (b ++ x :: v) (List.append_assoc ..)
    simpa using this

/-- A place inside of parentheses is passed. -/
theorem seek_pass {c x : Char} (start : ℕ) {rest pre : Text} (hall : parens.Nonneg (pre ++ x :: rest))
    (h : x = c → parens.depth pre ≠ 0) :
    seek (pre ++ x :: rest) ((occurrences c pre.length (x :: rest)).filter (start ≤ ·)) =
      seek (pre ++ x :: rest) ((occurrences c (pre.length + 1) rest).filter (start ≤ ·)) := by
  rw [occurrences]
  split
  next hx =>
    have hdepth := h hx
    have hzero : pre.length ≠ 0 := by
      intro h0
      rw [List.length_eq_zero_iff.mp h0] at hdepth
      exact hdepth rfl
    by_cases hs : start ≤ pre.length
    · rw [List.filter_cons_of_pos (by simpa using hs), seek, if_neg hzero, isTopLevelOperation_eq hall]
      simp [hdepth, bind, Except.bind]
    · rw [List.filter_cons_of_neg (by simpa using hs)]
  next => rfl

theorem seek_none {c : Char} (start : ℕ) : ∀ (rest pre : Text), parens.Nonneg (pre ++ rest) →
    (∀ u v, rest = u ++ c :: v → parens.depth (pre ++ u) ≠ 0) →
      seek (pre ++ rest) ((occurrences c pre.length rest).filter (start ≤ ·)) = .ok none
  | [], _, _, _ => rfl
  | x :: rest, pre, hall, hfree => by
    have hassoc : pre ++ x :: rest = (pre ++ [x]) ++ rest := by simp
    have hlen : pre.length + 1 = (pre ++ [x]).length := by simp
    rw [seek_pass start hall, hassoc, hlen]
    · refine seek_none start rest (pre ++ [x]) (hassoc ▸ hall) ?_
      rintro u v rfl
      simpa using hfree (x :: u) v rfl
    · rintro rfl
      simpa using hfree [] rest rfl

theorem seek_some {c : Char} {v : Text} (start : ℕ) : ∀ (u pre : Text), parens.Nonneg (pre ++ (u ++ c :: v)) →
    (∀ a b, u = a ++ c :: b → parens.depth (pre ++ a) ≠ 0) → parens.depth (pre ++ u) = 0 →
      0 < (pre ++ u).length → start ≤ (pre ++ u).length →
        seek (pre ++ (u ++ c :: v)) ((occurrences c pre.length (u ++ c :: v)).filter (start ≤ ·)) =
          .ok (some (pre ++ u).length)
  | [], pre, hall, _, hdepth, hpos, hs => by
    rw [List.append_nil] at hdepth hpos hs ⊢
    rw [List.nil_append, occurrences, if_pos rfl, List.filter_cons_of_pos (by simpa using hs), seek,
      if_neg (Nat.pos_iff_ne_zero.mp hpos), isTopLevelOperation_eq hall]
    simp [hdepth, bind, Except.bind, pure, Except.pure]
  | x :: u, pre, hall, hfree, hdepth, hpos, hs => by
    have hassoc : pre ++ x :: (u ++ c :: v) = (pre ++ [x]) ++ (u ++ c :: v) := by simp
    have hassoc' : pre ++ x :: u = (pre ++ [x]) ++ u := by simp
    have hlen : pre.length + 1 = (pre ++ [x]).length := by simp
    rw [List.cons_append] at hall ⊢
    rw [seek_pass start hall, hassoc, hassoc', hlen]
    · refine seek_some start u (pre ++ [x]) (hassoc ▸ hall) ?_ (hassoc' ▸ hdepth) (hassoc' ▸ hpos) (hassoc' ▸ hs)
      rintro a b rfl
      simpa using hfree (x :: a) b rfl
    · rintro rfl
      simpa using hfree [] u rfl

/-- A character that is not outside of parentheses is not found. -/
theorem seekFrom_none {w : Text} {c : Char} (start : ℕ) (hw : parens.Nonneg w) (hfree : parens.TopFree c w) :
    seekFrom w c start = .ok none :=
  seek_none start w [] hw hfree

/-- The first place outside of parentheses is found. -/
theorem seekFrom_some {u v : Text} {c : Char} {start : ℕ} (hw : parens.Nonneg (u ++ c :: v))
    (hu : parens.Balanced u) (hne : u ≠ []) (hfree : parens.TopFree c u) (hs : start ≤ 1) :
    seekFrom (u ++ c :: v) c start = .ok (some u.length) := by
  have hpos := List.length_pos_of_ne_nil hne
  exact seek_some start u [] hw hfree hu.1 hpos (hs.trans hpos)

/-- A sign in front ends the search. -/
theorem seekFrom_sign (v : Text) (c : Char) : seekFrom (c :: v) c 0 = .ok (some 0) := by
  simp [seekFrom, occurrences, seek, pure, Except.pure]

/-! ### Common parentheses -/

/-- The loop finds the `k` pairs around a text `r` of which the beginning with `l` open parentheses was read;
    `c` bounds how few of these were open since. -/
theorem commonParentheses_eq (expression : Text) (k : ℕ) :
    ∀ (r : Text) (l c : ℕ), 0 < k + l → c ≤ l → (l : ℤ) + parens.depth r = 0 →
      (∀ a b, r = a ++ b → 0 ≤ (l : ℤ) + parens.depth a) →
      (c = 0 ∨ ∃ a b, r = a ++ b ∧ b ≠ [] ∧ (l : ℤ) + parens.depth a = 0) →
        commonParentheses expression (r ++ List.replicate k ')') (k + l) (k + c) = .ok k
  | [], l, c, _, hcl, hdepth, _, _ => by
    obtain ⟨rfl⟩ : l = 0 := by simpa using hdepth
    obtain ⟨rfl⟩ : c = 0 := by omega
    cases k with
    | zero => rfl
    | succ k => simp [commonParentheses, List.replicate_succ, pure, Except.pure]
  | x :: r, l, c, hpos, hcl, hdepth, hall, hdone => by
    -- more is left than the pairs that are common so far
    have hgo : ¬ (x :: (r ++ List.replicate k ')')).length ≤ k + c := by
      have hlen := (depth_le_length (b := parens) (x :: r)).1
      simp only [List.length_cons, List.length_append, List.length_replicate] at hlen ⊢
      rcases hdone with rfl | ⟨a, b, hab, hb, ha⟩
      · omega
      · have hlen' := (depth_le_length (b := parens) a).1
        have hb' := List.length_pos_of_ne_nil hb
        have := congrArg List.length hab
        simp only [List.length_cons, List.length_append] at this
        omega
    have htail : ∀ l' : ℕ, (l : ℤ) + parens.turn x = l' →
        (l' : ℤ) + parens.depth r = 0 ∧ ∀ a b, r = a ++ b → 0 ≤ (l' : ℤ) + parens.depth a := by
      rintro l' hl'
      refine ⟨?_, ?_⟩
      · rw [depth_cons] at hdepth
        omega
      · rintro a b rfl
        have := hall (x :: a) b rfl
        rw [depth_cons] at this
        omega
    have hdone' : ∀ l' c' : ℕ, (l : ℤ) + parens.turn x = l' → c' ≤ c → (l' = 0 → c' = 0) →
        c' = 0 ∨ ∃ a b, r = a ++ b ∧ b ≠ [] ∧ (l' : ℤ) + parens.depth a = 0 := by
      intro l' c' hl' hc' hzero
      rcases hdone with rfl | ⟨- | ⟨y, a⟩, b, hab, hb, ha⟩
      · exact .inl (by omega)
      · rw [depth_nil] at ha
        exact .inl (by omega)
      · rw [List.cons_append, List.cons.injEq] at hab
        obtain ⟨rfl, rfl⟩ := hab
        rw [depth_cons] at ha
        exact .inr ⟨a, b, rfl, hb, by omega⟩
    rw [List.cons_append, commonParentheses, if_neg hgo]
    by_cases ho : x = '('
    · subst ho
      have hturn : parens.turn '(' = 1 := rfl
      have hl' : (l : ℤ) + parens.turn '(' = (l + 1 : ℕ) := by rw [hturn]; rfl
      obtain ⟨hd, ha⟩ := htail _ hl'
      rw [if_pos rfl, add_assoc]
      exact commonParentheses_eq expression k r (l + 1) c (by omega) (by omega) hd ha
        (hdone' _ c hl' le_rfl (by omega))
    · by_cases hc : x = ')'
      · subst hc
        have hturn : parens.turn ')' = -1 := rfl
        have hl : 0 < l := by
          have := hall [')'] r rfl
          rw [depth_cons, hturn, depth_nil] at this
          omega
        have hl' : (l : ℤ) + parens.turn ')' = (l - 1 : ℕ) := by rw [hturn]; omega
        obtain ⟨hd, ha⟩ := htail _ hl'
        rw [if_neg ho, if_pos rfl]
        by_cases hzero : k + l - 1 = 0
        · obtain ⟨rfl⟩ : k = 0 := by omega
          rw [if_pos hzero]
          rfl
        · have hmin : min (k + c) (k + l - 1) = k + min c (l - 1) := by omega
          have hsub : k + l - 1 = k + (l - 1) := by omega
          rw [if_neg hzero, hmin, hsub]
          exact commonParentheses_eq expression k r (l - 1) (min c (l - 1)) (by omega) (by omega) hd ha
            (hdone' _ _ hl' (by omega) (by omega))
      · have hturn : parens.turn x = 0 := turn_neutral (b := parens) ho hc
        have hl' : (l : ℤ) + parens.turn x = l := by rw [hturn, add_zero]
        obtain ⟨hd, ha⟩ := htail _ hl'
        rw [if_neg ho, if_neg hc]
        exact commonParentheses_eq expression k r l c hpos hcl hd ha (hdone' _ c hl' le_rfl (by omega))

/-- The parentheses that a text begins with. -/
theorem exists_openings (s : Text) : ∃ j r, s = List.replicate j '(' ++ r ∧ r.head? ≠ some '(' := by
  refine ⟨(s.takeWhile (· = '(')).length, s.dropWhile (· = '('), ?_, ?_⟩
  · have hrep : s.takeWhile (· = '(') = List.replicate (s.takeWhile (· = '(')).length '(' :=
      List.eq_replicate_iff.mpr ⟨rfl, fun x hx => by simpa using List.mem_takeWhile_imp hx⟩
    rw [← hrep, List.takeWhile_append_dropWhile]
  · intro hh
    have := List.head?_dropWhile_not (· = '(') s
    rw [hh] at this
    simp at this

/-- The scan starts after the parentheses that the text begins with. -/
theorem countCommonParentheses_openings {j : ℕ} {r : Text} (hr : r.head? ≠ some '(') :
    countCommonParentheses (List.replicate j '(' ++ r) =
      if j = 0 then .ok 0 else commonParentheses (List.replicate j '(' ++ r) r j j := by
  have hnil : r.takeWhile (· = '(') = [] := by
    cases r with
    | nil => rfl
    | cons x r => exact List.takeWhile_cons_of_neg (by simpa using hr)
  have hcount : ((List.replicate j '(' ++ r).takeWhile (· = '(')).length = j := by
    rw [List.takeWhile_append_of_pos (by simp), hnil, List.append_nil, List.length_replicate]
  have hdrop : (List.replicate j '(' ++ r).drop j = r := List.drop_left' (by simp)
  simp only [countCommonParentheses, hcount, hdrop]
  rfl

/-- The pairs of parentheses around a text that is not itself in parentheses. -/
theorem countCommonParentheses_eq {u : Text} (hu : parens.Balanced u) (hbare : parens.Bare u) (k : ℕ) :
    countCommonParentheses (parens.enclose k u) = .ok k := by
  obtain ⟨j, u', rfl, hhead⟩ := exists_openings u
  have hdepth := hu.1
  rw [depth_append] at hdepth
  have hj : parens.depth (List.replicate j '(') = j := depth_openings (b := parens) j
  have henclose : parens.enclose k (List.replicate j '(' ++ u') =
      List.replicate (k + j) '(' ++ (u' ++ List.replicate k ')') := by
    rw [enclose, List.replicate_add, List.append_assoc, List.append_assoc]
    rfl
  have hhead' : (u' ++ List.replicate k ')').head? ≠ some '(' := by
    cases u' with
    | nil => cases k <;> simp [List.replicate_succ]
    | cons x u' => simpa using hhead
  rw [henclose, countCommonParentheses_openings hhead']
  by_cases hzero : k + j = 0
  · obtain ⟨rfl⟩ : k = 0 := by omega
    exact if_pos hzero
  · rw [if_neg hzero]
    refine commonParentheses_eq _ k u' j j (by omega) le_rfl (by omega) ?_ ?_
    · rintro a b rfl
      have := hu.2 (List.replicate j '(' ++ a) b (List.append_assoc ..).symm
      rwa [depth_append, hj] at this
    · rcases Nat.eq_zero_or_pos j with rfl | hpos
      · exact .inl rfl
      -- the beginning that leaves no parenthesis open contains those that the text begins with
      · rcases hbare with hne | ⟨a, b, hab, ha, hb, hzero'⟩
        · obtain ⟨i, rfl⟩ := Nat.exists_eq_succ_of_ne_zero hpos.ne'
          exact absurd rfl hne
        · rcases List.append_eq_append_iff.mp hab with ⟨m, rfl, rfl⟩ | ⟨m, hm, -⟩
          · rw [depth_append, hj] at hzero'
            exact .inr ⟨m, b, rfl, hb, hzero'⟩
          · have hall : ∀ x ∈ a, x = '(' := fun x hx =>
              List.eq_of_mem_replicate (hm ▸ List.mem_append_left m hx)
            rw [List.eq_replicate_iff.mpr ⟨rfl, hall⟩] at hzero'
            have := depth_openings (b := parens) a.length
            have hlen := List.length_pos_of_ne_nil ha
            change parens.depth (List.replicate a.length '(') = _ at this
            omega

/-- A text in pairs of parentheses is read without them. -/
theorem withoutParentheses_eq {u : Text} (hu : parens.Balanced u) (hbare : parens.Bare u) (k : ℕ) :
    withoutParentheses (parens.enclose k u) = .ok (u, decide (0 < k)) := by
  have hlen : (parens.enclose k u).length = k + u.length + k := by
    simp [enclose, Nat.add_assoc]
  rw [withoutParentheses, countCommonParentheses_eq hu hbare]
  rcases Nat.eq_zero_or_pos k with rfl | hk
  · simp [bind, Except.bind, pure, Except.pure, enclose]
  · have hsub : substring (parens.enclose k u) k (k + u.length) = u := by
      rw [substring, Nat.min_eq_left (by omega), Nat.max_eq_right (by omega), enclose, List.drop_left' (by simp),
        List.take_left' (by omega)]
    simp [bind, Except.bind, pure, Except.pure, hk, hlen, hsub]

/-! ### The texts of formulas -/

/-- What a test finds of each character of a text. -/
theorem forall_of_all {p : Char → Prop} [DecidablePred p] {u : Text} (h : u.all (p ·) = true) : ∀ c ∈ u, p c :=
  fun c hc => of_decide_eq_true (List.all_eq_true.mp h c hc)

theorem digit_plain {d : Char} (h : d.isDigit = true) : d ∉ "+-*/()".toList := by
  intro hd
  have hmem : ∀ c ∈ "+-*/()".toList, c.isDigit = false := forall_of_all (by decide)
  rw [hmem d hd] at h
  cases h

theorem Field.text_plain (f : Field) : ∀ c ∈ f.text, c ∉ "+-*/()".toList := by
  intro c hc
  rcases List.mem_append.mp hc with hc | hc
  · exact f.plain c hc
  · have hmem : ∀ c ∈ "::number".toList, c ∉ "+-*/()".toList := forall_of_all (by decide)
    split at hc
    · exact hmem c hc
    · cases hc

theorem balanced_plain {u : Text} (h : ∀ c ∈ u, c ∉ "+-*/()".toList) : parens.Balanced u := by
  refine balanced_neutral fun c hc => ⟨?_, ?_⟩
  · rintro rfl
    exact h _ hc (by decide)
  · rintro rfl
    exact h _ hc (by decide)

theorem balanced_joined {c : Char} (hc : c ∈ "+-*/".toList) {u v : Text} (hu : parens.Balanced u)
    (hv : parens.Balanced v) : parens.Balanced (joinedBy c u v) := by
  have hneutral : ∀ c ∈ "+-*/".toList, c ≠ '(' ∧ c ≠ ')' := forall_of_all (by decide)
  exact hu.append (hv.cons_neutral (hneutral c hc))

theorem balanced_signed (sign : Bool) {u : Text} (hu : parens.Balanced u) :
    parens.Balanced (signText sign ++ u) := by
  cases sign with
  | false => exact hu
  | true => exact hu.cons_neutral (by decide)

mutual
theorem Formula.balanced : ∀ s : Formula, parens.Balanced s.text
  | .term t => t.balanced
  | .plus s t => balanced_joined (by decide) s.balanced t.balanced
  | .minus s t => balanced_joined (by decide) s.balanced t.balanced

theorem Term.balanced : ∀ t : Term, parens.Balanced t.text
  | .factor f => f.balanced
  | .times t f => balanced_joined (by decide) t.balanced f.balanced
  | .over t f => balanced_joined (by decide) t.balanced f.balanced

theorem Factor.balanced : ∀ f : Factor, parens.Balanced f.text
  | .constant sign c => balanced_signed sign (balanced_plain fun d hd => digit_plain (c.areDigits d hd))
  | .field sign f => balanced_signed sign (balanced_plain f.text_plain)
  | .parentheses sign s => balanced_signed sign s.balanced.enclosed
end

theorem Field.text_ne_nil (f : Field) : f.text ≠ [] := by
  intro h
  have hpath := f.isField
  rw [(List.append_eq_nil_iff.mp h).1] at hpath
  cases hpath

theorem Factor.text_ne_nil (f : Factor) : f.text ≠ [] := by
  cases f with
  | constant sign c => exact List.append_ne_nil_of_right_ne_nil _ c.nonempty
  | field sign f => exact List.append_ne_nil_of_right_ne_nil _ f.text_ne_nil
  | parentheses sign s => exact List.append_ne_nil_of_right_ne_nil _ (List.cons_ne_nil _ _)

/-- A balanced text without the character at its top. -/
def Free (x : Char) (u : Text) : Prop := parens.Balanced u ∧ parens.TopFree x u

theorem Free.joined {x c : Char} (hc : c ∈ "+-*/".toList) (hx : x ≠ c) {u v : Text} (hu : Free x u)
    (hv : Free x v) : Free x (joinedBy c u v) := by
  have hop : parens.TopFree x [c] := topFree_of_notMem (by simpa using hx)
  have hopb : parens.Balanced [c] := balanced_joined hc balanced_nil balanced_nil
  exact ⟨balanced_joined hc hu.1 hv.1, hu.2.append hu.1 (hop.append hopb hv.2)⟩

/-- Only a sign of the factor can be an operation outside of parentheses. -/
theorem Factor.free (f : Factor) {x : Char} (hx : x ∈ "+-*/".toList) (hsign : x = '-' → f.sign = false) :
    Free x f.text := by
  have hplain : ∀ {u : Text}, (∀ c ∈ u, c ∉ "+-*/()".toList) → parens.TopFree x u := by
    intro u hu
    have hmem : ∀ c ∈ "+-*/".toList, c ∈ "+-*/()".toList := forall_of_all (by decide)
    exact topFree_of_notMem fun h => hu x h (hmem x hx)
  have hopen : ∀ c ∈ "+-*/".toList, c ≠ '(' := forall_of_all (by decide)
  have hsigned : ∀ {u : Text} (sign : Bool), (x = '-' → sign = false) → parens.TopFree x u →
      parens.TopFree x (signText sign ++ u) := by
    rintro u (- | -) hs hu
    · exact hu
    · have hne : x ≠ '-' := fun h => Bool.noConfusion (hs h)
      exact TopFree.append (balanced_neutral (forall_of_all (by decide))) (topFree_of_notMem (by simpa [signText] using hne)) hu
  refine ⟨f.balanced, ?_⟩
  cases f with
  | constant sign c => exact hsigned sign hsign (hplain fun d hd => digit_plain (c.areDigits d hd))
  | field sign f => exact hsigned sign hsign (hplain f.text_plain)
  | parentheses sign s => exact hsigned sign hsign (TopFree.enclosed (hopen x hx) s.balanced)

theorem Factor.text_sign {f : Factor} (h : f.sign = true) : ∃ v, f.text = '-' :: v := by
  cases f with
  | constant sign c =>
    obtain rfl : sign = true := h
    exact ⟨_, rfl⟩
  | field sign f =>
    obtain rfl : sign = true := h
    exact ⟨_, rfl⟩
  | parentheses sign s =>
    obtain rfl : sign = true := h
    exact ⟨_, rfl⟩

theorem joinedBy_ne_nil (c : Char) (u v : Text) : joinedBy c u v ≠ [] :=
  List.append_ne_nil_of_right_ne_nil _ (List.cons_ne_nil _ _)

theorem fold_ne_nil {c d : Char} {texts : Chain Text} (h : texts.All (· ≠ [])) :
    texts.fold (joinedBy c) (joinedBy d) ≠ [] :=
  Chain.All.fold (P := (· ≠ [])) (fun _ _ _ _ => joinedBy_ne_nil _ _ _) (fun _ _ _ _ => joinedBy_ne_nil _ _ _) h

theorem productText_ne_nil (c : Chain Factor) : productText c ≠ [] :=
  fold_ne_nil (Chain.all_map.mpr (Chain.all_of Factor.text_ne_nil c))

theorem productText_balanced (c : Chain Factor) : parens.Balanced (productText c) :=
  Chain.All.fold (fun _ _ => balanced_joined (by decide)) (fun _ _ => balanced_joined (by decide))
    (Chain.all_map.mpr (Chain.all_of Factor.balanced c))

/-- A product has no `+` outside of parentheses, and no `-` where its factors have no sign. -/
theorem productText_free (c : Chain Factor) {x : Char}
    (hx : x = '+' ∨ x = '-' ∧ c.All fun f => f.sign = false) : Free x (productText c) := by
  have hne : x ≠ '*' ∧ x ≠ '/' := by
    rcases hx with rfl | ⟨rfl, -⟩ <;> decide
  refine Chain.All.fold (fun _ _ => Free.joined (by decide) hne.1) (fun _ _ => Free.joined (by decide) hne.2)
    (Chain.all_map.mpr ?_)
  rcases hx with rfl | ⟨rfl, hc⟩
  · exact Chain.all_of (fun f => f.free (by decide) fun h => absurd h (by decide)) _
  · exact hc.imp fun f hf => f.free (by decide) fun _ => hf

/-- Without a `*` between its factors a product has none outside of parentheses. -/
theorem quotientText_free {c : Chain Factor} (h : c.NoWeak) : Free '*' (productText c) :=
  Chain.NoWeak.fold (fun _ _ => Free.joined (by decide) (by decide)) h.map
    (Chain.all_map.mpr (Chain.all_of (fun f => f.free (by decide) fun hx => absurd hx (by decide)) c))

/-- A product that begins with a sign. -/
theorem productText_sign {c : Chain Factor} (h : c.first.sign = true) : ∃ v, productText c = '-' :: v := by
  induction c with
  | one f => exact Factor.text_sign h
  | weak c f ih =>
    obtain ⟨v, hv⟩ := ih h
    exact ⟨v ++ '*' :: f.text, congrArg (· ++ '*' :: f.text) hv⟩
  | strong c f ih =>
    obtain ⟨v, hv⟩ := ih h
    exact ⟨v ++ '/' :: f.text, congrArg (· ++ '/' :: f.text) hv⟩

theorem Term.free (t : Term) {x : Char} (hx : x = '+' ∨ x = '-' ∧ t.Unsigned) : Free x t.text :=
  t.text_eq ▸ productText_free t.factors hx

theorem sumText_ne_nil (c : Chain Term) : sumText c ≠ [] :=
  fold_ne_nil (Chain.all_map.mpr (Chain.all_of (fun t => t.text_eq ▸ productText_ne_nil t.factors) c))

theorem sumText_balanced (c : Chain Term) : parens.Balanced (sumText c) :=
  Chain.All.fold (fun _ _ => balanced_joined (by decide)) (fun _ _ => balanced_joined (by decide))
    (Chain.all_map.mpr (Chain.all_of Term.balanced c))

/-- Without a `+` between its terms a sum has none outside of parentheses. -/
theorem differenceText_free {c : Chain Term} (h : c.NoWeak) : Free '+' (sumText c) :=
  Chain.NoWeak.fold (fun _ _ => Free.joined (by decide) (by decide)) h.map
    (Chain.all_map.mpr (Chain.all_of (fun t => t.free (.inl rfl)) c))

/-! ### What the parser reads -/

/-- The operand and its conversion stand for the tree. -/
inductive Shows : Tree → Operand → Conversion → Prop
  | constant (c : Constant) : Shows (.constant c) (.CONSTOTHER c.digits) .NO_CONVERSION
  | opposite (c : Constant) : Shows (.opposite (.constant c)) (.CONSTOTHER ('-' :: c.digits)) .NO_CONVERSION
  | field (f : Field) :
      Shows (.field f) (.FIELD f.path) (if f.converted then .CONVERSION_BIG_DECIMAL else .NO_CONVERSION)
  | node {operation : Arithmetic} {l r : Tree} {left right : Operand} {lc rc : Conversion} (lp rp : Bool)
      (hl : Shows l left lc) (hr : Shows r right rc) :
      Shows (.node operation l r) (.EXPRESSION (.mk (.arithmetic operation) left right lc rc lp rp))
        .NO_CONVERSION

section
variable {level : ℕ}

/-- Without the parentheses around it the text is read as an operand for the tree. -/
def ReadAs (level : ℕ) (w : Text) (t : Tree) : Prop :=
  ∃ k core, w = parens.enclose k core ∧ parens.Balanced core ∧ parens.Bare core ∧ core ≠ [] ∧
    ∀ calls, core.length < calls → ∃ operand conversion,
      operandOf (parse (some level) calls) (some level) core = .ok (operand, conversion) ∧
        Shows t operand conversion

theorem ReadAs.enclosed {w : Text} {t : Tree} (h : ReadAs level w t) :
    ReadAs level ('(' :: (w ++ [')'])) t := by
  obtain ⟨k, core, rfl, h⟩ := h
  exact ⟨k + 1, core, (enclose_succ (b := parens) k core).symm, h⟩

theorem ReadAs.parseOperand {w : Text} {t : Tree} (h : ReadAs level w t) {calls : ℕ} (hcalls : w.length < calls)
    (expression : Text) (missing : String) : ∃ operand conversion inParentheses,
      parseOperand (parse (some level) calls) (some level) expression missing w =
        .ok (operand, conversion, inParentheses) ∧ Shows t operand conversion := by
  obtain ⟨k, core, rfl, hbalanced, hbare, hne, h⟩ := h
  have hlen : core.length ≤ (parens.enclose k core).length := by
    simp [enclose]
    omega
  obtain ⟨operand, conversion, hread, hshows⟩ := h calls (hlen.trans_lt hcalls)
  have hnil : parens.enclose k core ≠ [] := by
    intro hnil
    rw [hnil] at hlen
    exact hne (List.length_eq_zero_iff.mp (Nat.le_zero.mp hlen))
  refine ⟨operand, conversion, decide (0 < k), ?_, hshows⟩
  rw [Expressions.parseOperand, if_neg hnil, withoutParentheses_eq hbalanced hbare]
  simp [bind, Except.bind, pure, Except.pure, hread]

theorem occurrences_append (c : Char) (w : Text) : ∀ (u : Text) (p : ℕ),
    occurrences c p (u ++ w) = occurrences c p u ++ occurrences c (p + u.length) w
  | [], _ => rfl
  | x :: u, p => by
    rw [List.cons_append, occurrences, occurrences, occurrences_append c w u, List.length_cons, Nat.add_right_comm,
      Nat.add_assoc]
    split <;> rfl

theorem le_of_mem_occurrences {c : Char} {q : ℕ} : ∀ {w : Text} {p : ℕ}, q ∈ occurrences c p w → p ≤ q
  | [], _, h => by cases h
  | x :: w, p, h => by
    rw [occurrences] at h
    have htail : q ∈ occurrences c (p + 1) w → p ≤ q := fun h => Nat.le_of_succ_le (le_of_mem_occurrences h)
    split at h
    · rcases List.mem_cons.mp h with rfl | h
      · exact le_rfl
      · exact htail h
    · exact htail h

/-- The last place of a character that stands behind a text. -/
theorem lastIndexOf_joined (c : Char) (u v : Text) :
    ∃ p, lastIndexOf (joinedBy c u v) c = some p ∧ u.length ≤ p := by
  obtain ⟨q, rest, hq⟩ : ∃ q rest, occurrences c (0 + u.length) (c :: v) = q :: rest :=
    ⟨_, _, if_pos rfl⟩
  rw [lastIndexOf, joinedBy, occurrences_append, hq, List.getLast?_append_of_ne_nil _ (List.cons_ne_nil q rest),
    List.getLast?_eq_some_getLast (List.cons_ne_nil q rest)]
  refine ⟨_, rfl, ?_⟩
  have hmem : (q :: rest).getLast (List.cons_ne_nil q rest) ∈ occurrences c (0 + u.length) (c :: v) :=
    hq.symm ▸ List.getLast_mem _
  have := le_of_mem_occurrences hmem
  omega

/-- A text with an operation behind its first character is an expression. -/
theorem isExpression_joined (hlevel : 4 ≤ level) {operation : Arithmetic} {c : Char}
    (hop : (operation, c) ∈ operations) {u : Text} (hu : u ≠ []) (v : Text) :
    isExpression (some level) (joinedBy c u v) = true := by
  obtain ⟨p, hp, hle⟩ := lastIndexOf_joined c u v
  have hpos := List.length_pos_of_ne_nil hu
  rw [isExpression, Bool.or_eq_true, Bool.and_eq_true, List.any_eq_true]
  refine .inl ⟨by simpa using hlevel, (operation, c), hop, ?_⟩
  have hmem : c ∈ joinedBy c u v := by simp [joinedBy]
  simp [hp, hmem, hpos.trans_le hle]

/-- An operation that the search finds is read with its operands. -/
theorem readAs_node (hlevel : 4 ≤ level) {operation : Arithmetic} {c : Char} (hop : (operation, c) ∈ operations)
    {u v : Text} {l r : Tree} (hu : parens.Balanced u) (hv : parens.Balanced v) (hune : u ≠ [])
    (hl : ReadAs level u l) (hr : ReadAs level v r)
    (hfind : seekOperation (joinedBy c u v) operations 0 = .ok (.inr (operation, u.length))) :
    ReadAs level (joinedBy c u v) (.node operation l r) := by
  have hchar : c ∈ "+-*/".toList := by
    have : ∀ op ∈ operations, op.2 ∈ "+-*/".toList := by decide
    exact this _ hop
  have hlen : (joinedBy c u v).length = u.length + v.length + 1 := by
    simp [joinedBy]
    omega
  refine ⟨0, joinedBy c u v, (List.append_nil _).symm, balanced_joined hchar hu hv,
    Bare.append hu hune (List.cons_ne_nil _ _), List.append_ne_nil_of_left_ne_nil hune _, ?_⟩
  rintro (- | calls) hcalls
  · cases hcalls
  have hleft : substring (joinedBy c u v) 0 u.length = u := by
    simp [substring, joinedBy]
  have hright : substring (joinedBy c u v) (u.length + 1) (joinedBy c u v).length = v := by
    rw [substring, Nat.min_eq_left (by omega), Nat.max_eq_right (by omega), hlen, joinedBy, ← List.singleton_append,
      ← List.append_assoc, List.drop_left' (by simp), List.take_of_length_le (by omega)]
  obtain ⟨left, lc, lp, hleftRead, hleftShows⟩ := @ReadAs.parseOperand _ _ _ hl calls (by omega)
    (joinedBy c u v) "Missing left operand."
  obtain ⟨right, rc, rp, hrightRead, hrightShows⟩ := @ReadAs.parseOperand _ _ _ hr calls (by omega)
    (joinedBy c u v) "Missing right operand."
  refine ⟨.EXPRESSION (.mk (.arithmetic operation) left right lc rc lp rp), .NO_CONVERSION, ?_,
    .node lp rp hleftShows hrightShows⟩
  rw [operandOf, if_pos (isExpression_joined hlevel hop hune v), parse, hfind]
  simp [bind, Except.bind, pure, Except.pure, hleft, hright, hleftRead, hrightRead]

/-! ### Operands that are no expressions -/

theorem occurrences_of_notMem {c : Char} : ∀ {w : Text} (p : ℕ), c ∉ w → occurrences c p w = []
  | [], _, _ => rfl
  | x :: w, p, h => by
    rw [occurrences, if_neg fun hx : x = c => h (hx ▸ List.mem_cons_self ..),
      occurrences_of_notMem (p + 1) fun hw => h (List.mem_cons_of_mem _ hw)]

/-- A constant or a field is no expression, also with a sign. -/
theorem isExpression_plain (sign : Bool) {u : Text} (hu : ∀ c ∈ u, c ∉ "+-*/()".toList) :
    isExpression (some level) (signText sign ++ u) = false := by
  have hout : ∀ {x}, x ∈ "+-*/()".toList → x ∉ u := fun hx hmem => hu _ hmem hx
  have hnot : ∀ {x}, x ∈ "+-*/()".toList → x ≠ '-' → x ∉ signText sign ++ u := by
    intro x hx hne hmem
    rcases List.mem_append.mp hmem with h | h
    · cases sign with
      | false => cases h
      | true => exact hne (List.mem_singleton.mp h)
    · exact hout hx h
  have hminus : (lastIndexOf (signText sign ++ u) '-').any (0 < ·) = false := by
    rw [lastIndexOf, occurrences_append, occurrences_of_notMem _ (hout (by decide)), List.append_nil]
    cases sign <;> rfl
  have hround : roundOperations.any (fun op => op.2.toList.isPrefixOf (signText sign ++ u)) = false := by
    rw [List.any_eq_false]
    intro op hop hprefix
    have hopen : ∀ op ∈ roundOperations, '(' ∈ op.2.toList := by decide
    exact hnot (by decide) (by decide) ((List.isPrefixOf_iff_prefix.mp hprefix).subset (hopen op hop))
  have hops : operations.any (fun op => (signText sign ++ u).contains op.2 &&
      (op.1 ≠ .MINUS || (lastIndexOf (signText sign ++ u) op.2).any (0 < ·))) = false := by
    rw [List.any_eq_false]
    intro op hop
    simp only [operations, List.mem_cons, List.not_mem_nil, or_false] at hop
    rcases hop with rfl | rfl | rfl | rfl
    · simp [List.contains_eq_mem, hnot (x := '+') (by decide) (by decide)]
    · simp [hminus]
    · simp [List.contains_eq_mem, hnot (x := '*') (by decide) (by decide)]
    · simp [List.contains_eq_mem, hnot (x := '/') (by decide) (by decide)]
  rw [isExpression, hops, hround, Bool.and_false, Bool.or_false]

theorem isFieldOperand_of_notMem {w : Text} (h : '.' ∉ w) : isFieldOperand w = false := by
  rw [isFieldOperand, indexOf, occurrences_of_notMem 0 h]
  rfl

/-- What stands behind a field does not matter. -/
theorem isFieldOperand_append {u : Text} (h : isFieldOperand u = true) (w : Text) :
    isFieldOperand (u ++ w) = true := by
  cases hp : indexOf u '.' with
  | none =>
    rw [isFieldOperand, hp] at h
    cases h
  | some p =>
    have hindex : indexOf (u ++ w) '.' = some p := by
      rw [indexOf, occurrences_append, List.head?_append]
      rw [indexOf] at hp
      rw [hp]
      rfl
    rw [isFieldOperand, hp] at h
    rw [isFieldOperand, hindex]
    cases hc : u[p + 1]? with
    | none =>
      simp only [hc, Bool.and_false] at h
      cases h
    | some c =>
      obtain ⟨hlt, -⟩ := List.getElem?_eq_some_iff.mp hc
      simp only [hc] at h
      simp only [List.getElem?_append_left hlt, hc]
      exact h

theorem readAs_constant (sign : Bool) (c : Constant) :
    ReadAs level (signText sign ++ c.digits) (signedTree sign (.constant c)) := by
  have hplain := fun d hd => digit_plain (c.areDigits d hd)
  have hpoint : '.' ∉ signText sign ++ c.digits := by
    intro h
    rcases List.mem_append.mp h with h | h
    · cases sign with
      | false => cases h
      | true => exact absurd (List.mem_singleton.mp h) (by decide)
    · exact absurd (c.areDigits _ h) (by decide)
  have hopen : (signText sign ++ c.digits).head? ≠ some '(' := by
    intro h
    have hmem := List.mem_of_mem_head? h
    rcases List.mem_append.mp hmem with h | h
    · cases sign with
      | false => cases h
      | true => exact absurd (List.mem_singleton.mp h) (by decide)
    · exact absurd (c.areDigits _ h) (by decide)
  refine ⟨0, _, (List.append_nil _).symm, balanced_signed sign (balanced_plain hplain), .inl hopen,
    List.append_ne_nil_of_right_ne_nil _ c.nonempty, fun calls _ => ⟨.CONSTOTHER (signText sign ++ c.digits),
      .NO_CONVERSION, ?_, ?_⟩⟩
  · simp [operandOf, isExpression_plain sign hplain, isFieldOperand_of_notMem hpoint, pure, Except.pure]
  · cases sign with
    | false => exact .constant c
    | true => exact .opposite c

theorem readAs_field (f : Field) : ReadAs level f.text (.field f) := by
  have hplain := f.text_plain
  have hopen : f.text.head? ≠ some '(' := fun h => hplain _ (List.mem_of_mem_head? h) (by decide)
  have hexpression : isExpression (some level) f.text = false := isExpression_plain false hplain
  have hfield : isFieldOperand f.text = true := isFieldOperand_append f.isField _
  refine ⟨0, _, (List.append_nil _).symm, balanced_plain hplain, .inl hopen, f.text_ne_nil,
    fun calls _ => ⟨.FIELD f.path, _, ?_, .field f⟩⟩
  simp only [operandOf, hexpression, hfield, Bool.false_eq_true, if_true, if_false]
  cases hc : f.converted with
  | false =>
    have htext : f.text = f.path := by
      rw [Field.text, hc]
      exact List.append_nil _
    have hsuffix : "::number".toList.isSuffixOf f.text = false := by
      rw [Bool.eq_false_iff, htext]
      exact fun h => f.named hc (List.isSuffixOf_iff_suffix.mp h)
    simp only [hsuffix, Bool.false_eq_true, if_false]
    rw [htext]
    rfl
  | true =>
    have htext : f.text = f.path ++ "::number".toList := by
      rw [Field.text, hc]
      rfl
    have hsuffix : "::number".toList.isSuffixOf f.text = true := by
      rw [List.isSuffixOf_iff_suffix, htext]
      exact List.suffix_append ..
    have hlen : f.text.length - 8 = f.path.length := by
      rw [htext, List.length_append]
      rfl
    have hsub : substring f.text 0 (f.text.length - 8) = f.path := by
      rw [substring, hlen, Nat.zero_min, Nat.zero_max, Nat.sub_zero, List.drop_zero, htext, List.take_left']
      rfl
    simp only [hsuffix, if_true, hsub]
    rfl

/-! ### Formulas -/

theorem seekOperation_none {w : Text} {operation : Arithmetic} {c : Char} {rest : List (Arithmetic × Char)}
    {start : ℕ} (h : Free c w) :
    seekOperation w ((operation, c) :: rest) start = seekOperation w rest 0 := by
  rw [seekOperation, seekFrom_none start h.1.2 h.2]
  rfl

theorem seekOperation_sign {operation : Arithmetic} {c : Char} {v : Text} {rest : List (Arithmetic × Char)} :
    seekOperation (c :: v) ((operation, c) :: rest) 0 = seekOperation (c :: v) rest 1 := by
  rw [seekOperation, seekFrom_sign]
  rfl

theorem seekOperation_some {u v : Text} {operation : Arithmetic} {c : Char} {rest : List (Arithmetic × Char)}
    {start : ℕ} (hw : parens.Balanced (joinedBy c u v)) (hu : Free c u) (hne : u ≠ []) (hs : start ≤ 1) :
    seekOperation (joinedBy c u v) ((operation, c) :: rest) start = .ok (.inr (operation, u.length)) := by
  obtain ⟨n, hn⟩ := Nat.exists_eq_succ_of_ne_zero (List.length_pos_of_ne_nil hne).ne'
  have hfind : seekFrom (joinedBy c u v) c start = .ok (some u.length) := seekFrom_some hw.2 hu.1 hne hu.2 hs
  rw [seekOperation, hfind, hn]
  rfl

/-- In a product the search goes on behind a sign in front of it. -/
theorem seekOperation_product {c : Chain Factor} (h : SignsInOrder c) : ∃ start ≤ 1,
    seekOperation (productText c) operations 0 =
      seekOperation (productText c) [(.MULT, '*'), (.DIV, '/')] start := by
  rw [operations, seekOperation_none (productText_free c (.inl rfl))]
  cases hsign : c.first.sign with
  | false => exact ⟨0, Nat.zero_le 1, seekOperation_none (productText_free c (.inr ⟨rfl, h.unsigned hsign⟩))⟩
  | true =>
    obtain ⟨v, hv⟩ := productText_sign hsign
    exact ⟨1, le_rfl, hv ▸ seekOperation_sign⟩

/-- A sum is read where its terms are, grouped at its first `+` or else its first `-`. -/
theorem readAs_sum (hlevel : 4 ≤ level) (c : Chain Term) (hread : c.All fun t => ReadAs level t.text t.tree)
    (hsigns : c.BeforeStrong Term.Unsigned) : ReadAs level (sumText c) (.sum (c.map Term.tree)) := by
  induction c using Chain.split_induction with
  | hone t => exact hread
  | hstrong t c hc ih =>
    obtain ⟨ht, hread⟩ := Chain.all_strongly.mp hread
    obtain ⟨hunsigned, hsigns⟩ := hsigns.of_strongly
    have htne : t.text ≠ [] := t.text_eq ▸ productText_ne_nil t.factors
    have hfree := Free.joined (c := '-') (by decide) (by decide) (t.free (.inl rfl)) (differenceText_free hc)
    rw [Tree.sum, Chain.map_strongly, Chain.map, Chain.grouped_strongly _ hc.map, sumText_strongly]
    refine readAs_node hlevel (by decide) t.balanced (sumText_balanced c) htne ht (ih hread hsigns) ?_
    rw [operations, seekOperation_none hfree]
    exact seekOperation_some hfree.1 (t.free (.inr ⟨rfl, hunsigned⟩)) htne (Nat.zero_le 1)
  | hweak d c hd ihd ihc =>
    obtain ⟨hreadd, hreadc⟩ := Chain.all_weakly.mp hread
    obtain ⟨hsignsd, hsignsc⟩ := hsigns.of_weakly
    have hbalanced := balanced_joined (by decide : '+' ∈ _) (sumText_balanced d) (sumText_balanced c)
    rw [Tree.sum, Chain.map_weakly, Chain.grouped_weakly hd.map, sumText_weakly]
    exact readAs_node hlevel (by decide) (sumText_balanced d) (sumText_balanced c) (sumText_ne_nil d)
      (ihd hreadd hsignsd) (ihc hreadc hsignsc)
      (seekOperation_some hbalanced (differenceText_free hd) (sumText_ne_nil d) (Nat.zero_le 1))

/-- A product is read where its factors are, grouped at its first `*` or else its first `/`. -/
theorem readAs_product (hlevel : 4 ≤ level) (c : Chain Factor)
    (hread : c.All fun f => ReadAs level f.text f.tree) (hsigns : SignsInOrder c) :
    ReadAs level (productText c) (.product (c.map Factor.tree)) := by
  induction c using Chain.split_induction with
  | hone f => exact hread
  | hstrong f c hc ih =>
    obtain ⟨hf, hread⟩ := Chain.all_strongly.mp hread
    obtain ⟨start, -, hseek⟩ := seekOperation_product hsigns
    have hfree : ∀ {x}, x = '*' ∨ x = '/' → Free x f.text := by
      rintro x (rfl | rfl)
      · exact f.free (by decide) fun h => absurd h (by decide)
      · exact f.free (by decide) fun h => absurd h (by decide)
    have hmult := Free.joined (c := '/') (by decide) (by decide) (hfree (.inl rfl)) (quotientText_free hc)
    rw [productText_strongly] at hseek ⊢
    rw [Tree.product, Chain.map_strongly, Chain.map, Chain.grouped_strongly _ hc.map]
    refine readAs_node hlevel (by decide) f.balanced (productText_balanced c) f.text_ne_nil hf
      (ih hread (hsigns.of_strongly hc)) ?_
    rw [hseek, seekOperation_none hmult]
    exact seekOperation_some hmult.1 (hfree (.inr rfl)) f.text_ne_nil (Nat.zero_le 1)
  | hweak d c hd ihd ihc =>
    obtain ⟨hreadd, hreadc⟩ := Chain.all_weakly.mp hread
    obtain ⟨start, hstart, hseek⟩ := seekOperation_product hsigns
    obtain ⟨hsignsd, hsignsc⟩ := hsigns.of_weakly
    have hbalanced := balanced_joined (by decide : '*' ∈ _) (productText_balanced d) (productText_balanced c)
    rw [productText_weakly] at hseek ⊢
    rw [Tree.product, Chain.map_weakly, Chain.grouped_weakly hd.map]
    refine readAs_node hlevel (by decide) (productText_balanced d) (productText_balanced c) (productText_ne_nil d)
      (ihd hreadd hsignsd) (ihc hreadc hsignsc) ?_
    rw [hseek]
    exact seekOperation_some hbalanced (quotientText_free hd) (productText_ne_nil d) hstart

theorem Formula.readAs_of_terms (hlevel : 4 ≤ level) {s : Formula} (h : s.Readable)
    (hread : s.terms.All fun t => ReadAs level t.text t.tree) : ReadAs level s.text s.tree := by
  rw [s.text_eq, Formula.tree, s.trees_eq]
  exact readAs_sum hlevel s.terms hread h.terms.2

theorem Term.readAs_of_factors (hlevel : 4 ≤ level) {t : Term} (h : t.Readable)
    (hread : t.factors.All fun f => ReadAs level f.text f.tree) : ReadAs level t.text t.tree := by
  rw [t.text_eq, Term.tree, t.trees_eq]
  exact readAs_product hlevel t.factors hread h.factors.2

mutual
theorem Formula.readAs_terms (hlevel : 4 ≤ level) :
    ∀ s : Formula, s.Readable → s.terms.All fun t => ReadAs level t.text t.tree
  | .term t, h => Term.readAs_of_factors hlevel h (Term.readAs_factors hlevel t h)
  | .plus s t, h => ⟨Formula.readAs_terms hlevel s h.1,
      Term.readAs_of_factors hlevel h.2 (Term.readAs_factors hlevel t h.2)⟩
  | .minus s t, h => ⟨Formula.readAs_terms hlevel s h.1,
      Term.readAs_of_factors hlevel h.2.1 (Term.readAs_factors hlevel t h.2.1)⟩

theorem Term.readAs_factors (hlevel : 4 ≤ level) :
    ∀ t : Term, t.Readable → t.factors.All fun f => ReadAs level f.text f.tree
  | .factor f, h => Factor.readAs hlevel f h
  | .times t f, h => ⟨Term.readAs_factors hlevel t h.1, Factor.readAs hlevel f h.2.1⟩
  | .over t f, h => ⟨Term.readAs_factors hlevel t h.1, Factor.readAs hlevel f h.2.1⟩

theorem Factor.readAs (hlevel : 4 ≤ level) : ∀ f : Factor, f.Readable → ReadAs level f.text f.tree
  | .constant sign c, _ => readAs_constant sign c
  | .field sign f, h => by
    obtain rfl : sign = false := h
    exact readAs_field f
  | .parentheses sign s, h => by
    obtain ⟨hsign, hs⟩ := h
    obtain rfl : sign = false := hsign
    exact (Formula.readAs_of_terms hlevel hs (Formula.readAs_terms hlevel s hs)).enclosed
end

/-- A formula with readable signs is read as its tree. -/
theorem Formula.readAs (hlevel : 4 ≤ level) {s : Formula} (h : s.Readable) : ReadAs level s.text s.tree :=
  Formula.readAs_of_terms hlevel h (Formula.readAs_terms hlevel s h)

/-- With an operation it is parsed to an expression that shows its tree. -/
theorem Formula.parses (hlevel : 4 ≤ level) {s : Formula} (h : s.Readable) {operation : Arithmetic} {l r : Tree}
    (htree : s.tree = .node operation l r) : ∃ e,
      parseExpression (some level) s.text true = .ok e ∧ Shows s.tree (.EXPRESSION e) .NO_CONVERSION := by
  obtain ⟨k, core, hcore, hbalanced, hbare, -, hread⟩ := Formula.readAs hlevel h
  obtain ⟨operand, conversion, hoperand, hshows⟩ := hread (core.length + 1) (Nat.lt_succ_self _)
  rw [htree] at hshows ⊢
  cases hshows with
  | @node _ _ _ left right lc rc lp rp hl hr =>
    refine ⟨.mk (.arithmetic operation) left right lc rc lp rp, ?_, .node lp rp hl hr⟩
    have hparse : parse (some level) (core.length + 1) core =
        .ok (.mk (.arithmetic operation) left right lc rc lp rp) := by
      rw [operandOf] at hoperand
      split at hoperand
      · obtain ⟨e, he, hmk⟩ := Universa.Except.bind_eq_ok.mp hoperand
        cases hmk
        exact he
      · split at hoperand
        · split at hoperand <;> cases hoperand
        · cases hoperand
    rw [parseExpression, if_pos rfl, hcore, withoutParentheses_eq hbalanced hbare]
    exact hparse

end

end Universa.Contracts.Expressions
