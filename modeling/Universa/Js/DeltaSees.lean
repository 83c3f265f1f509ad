import Universa.Js.DeltaShows

/-! When `Delta.between` sees every difference of two values.

    Neither loop of `MapDelta` has a node for a skipped key, so values that differ only there have no
    delta. The comparison may also throw: that of two leaves reads `constructor.name` and calls
    `equals`, which own keys hide, and an own key `hasOwnProperty` is called in place of the method. -/

namespace Universa.Js

/-! ### Where the comparison does not throw -/

/-- `x.constructor` is not an own null. -/
def HasConstructor : Value → Prop
  | .obj es => ∀ v, es.lookup "constructor" = some v → v ≠ .null
  | _ => True

/-- `x.equals(y)` for values of one class name, neither two arrays nor two plain objects. -/
def EqualsAnswers : Value → Value → Prop
  | .date _, .obj fs => "prototype" ∈ keys fs
  | .obj es, _ => "equals" ∉ keys es
  | _, _ => True

/-- `t.valuesEqual` answers on two values that are neither two arrays nor two plain objects. -/
def LeafComparable (x y : Value) : Prop :=
  isObject x = true → isObject y = true → HasConstructor x ∧ HasConstructor y ∧
    (sameConstructor x y = some true → EqualsAnswers x y)

mutual
/-- No step of the comparison throws. -/
def Comparable : Value → Value → Prop
  | .null, _ | _, .null => True
  | .arr xs, .arr ys => ComparableItems xs ys
  | .obj es, .obj fs =>
      ComparableEntries es fs ∧ ∀ k ∈ keys fs, passedOver k = false → "hasOwnProperty" ∉ keys es
  | x, y => LeafComparable x y
termination_by structural x => x

/-- `Comparable` of the elements that two arrays have in common places. -/
def ComparableItems : List Value → List Value → Prop
  | x :: xs, y :: ys => Comparable x y ∧ ComparableItems xs ys
  | _, _ => True
termination_by structural x => x

/-- `Comparable` of the entries of two objects with one key. -/
def ComparableEntries : List (String × Value) → List (String × Value) → Prop
  | [], _ => True
  | (k, v) :: es, fs =>
      (passedOver k = false →
        "hasOwnProperty" ∉ keys fs ∧ ∀ w, fs.lookup k = some w → Comparable v w) ∧
      ComparableEntries es fs
termination_by structural x => x
end

theorem hasOwn_ne_none {α : Type} {es : List (String × α)} {k : String} :
    (∃ b, hasOwn es k = some b) ↔ "hasOwnProperty" ∉ keys es := by
  unfold hasOwn
  split <;> simp_all

theorem constructorName_some {x : Value} : (∃ n, constructorName x = some n) ↔ HasConstructor x := by
  cases x with
  | obj es =>
      simp only [constructorName, HasConstructor]
      cases es.lookup "constructor" with
      | none => simp
      | some v => cases v <;> simp
  | _ => simp [constructorName, HasConstructor]

theorem sameConstructor_some {x y : Value} :
    (∃ b, sameConstructor x y = some b) ↔ HasConstructor x ∧ HasConstructor y := by
  rw [← constructorName_some, ← constructorName_some]
  simp only [sameConstructor]
  cases constructorName x <;> cases constructorName y <;> simp

theorem valuesEqual_answers {x y : Value} (harr : ∀ xs ys, x = .arr xs → y ≠ .arr ys)
    (hobj : ∀ es fs, x = .obj es → y ≠ .obj fs) :
    (∃ b, valuesEqual x y = some b) ↔ LeafComparable x y := by
  rw [LeafComparable]
  by_cases hx : isObject x = true
  swap
  · cases x <;> simp_all [valuesEqual, isObject]
  by_cases hy : isObject y = true
  swap
  · cases x <;> simp_all [valuesEqual, isObject]
  rw [← and_assoc, ← sameConstructor_some]
  simp only [hx, hy, forall_true_left]
  cases x with
  | null | bool | num | str => cases hx
  | date a =>
      cases hsame : sameConstructor (.date a) y with
      | none => simp [valuesEqual, hy, hsame]
      | some b =>
          cases b with
          | false => simp [valuesEqual, hy, hsame]
          | true =>
              cases y with
              | obj fs => simp [valuesEqual, hy, hsame, EqualsAnswers]
              | date b => simp [valuesEqual, hy, hsame, EqualsAnswers]
              | _ => simp [isObject, sameConstructor, constructorName, strictEq] at hy hsame
  | bytes a =>
      cases hsame : sameConstructor (.bytes a) y with
      | none => simp [valuesEqual, hy, hsame]
      | some b => cases b <;> cases y <;> simp_all [valuesEqual, EqualsAnswers]
  | arr xs =>
      cases hsame : sameConstructor (.arr xs) y with
      | none => simp [valuesEqual, hy, hsame]
      | some b => cases b <;> cases y <;> simp_all [valuesEqual, EqualsAnswers]
  | obj es =>
      cases hsame : sameConstructor (.obj es) y with
      | none => simp [valuesEqual, hy, hsame]
      | some b => cases b <;> cases y <;> simp_all [valuesEqual, EqualsAnswers]

theorem leaf_answers {x y : Value} (harr : ∀ xs ys, x = .arr xs → y ≠ .arr ys)
    (hobj : ∀ es fs, x = .obj es → y ≠ .obj fs) :
    (∃ r, leafBetween x y = some r) ↔ LeafComparable x y := by
  rw [← valuesEqual_answers harr hobj]
  simp only [leafBetween]
  cases valuesEqual x y with
  | none => simp
  | some b => cases b <;> simp

theorem newKeys_answers {es : List (String × Value)} : ∀ {fs : List (String × Value)},
    (∃ cs, newKeys es fs = some cs) ↔
      ∀ k ∈ keys fs, passedOver k = false → "hasOwnProperty" ∉ keys es
  | [] => by simp [newKeys, keys]
  | (k, v) :: fs => by
      have hih := @newKeys_answers es fs
      have hcons : keys ((k, v) :: fs) = k :: keys fs := rfl
      rw [hcons, List.forall_mem_cons, ← hih, newKeys]
      cases hp : passedOver k with
      | true => simp
      | false =>
          simp only [Bool.false_eq_true, if_false, forall_true_left]
          rw [← hasOwn_ne_none (k := k)]
          cases hasOwn es k with
          | none => simp
          | some b =>
              cases b with
              | true => simp
              | false => cases newKeys es fs <;> simp

mutual
/-- The comparison of two values answers iff no step of it throws. -/
theorem between_answers : ∀ (x y : Value), (∃ r, between x y = some r) ↔ Comparable x y
  | .arr xs, .arr ys => by
      rw [Comparable, ← listChanges_answers 0 xs ys, between]
      cases listChanges 0 xs ys <;> simp
  | .obj es, .obj fs => by
      rw [Comparable, ← mapChanges_answers es fs, ← newKeys_answers, between]
      cases mapChanges es fs <;> cases newKeys es fs <;> simp
  | .null, y => by cases y <;> simp [between, Comparable]
  | .bool _, y | .num _, y | .str _, y | .date _, y | .bytes _, y => by
      cases y with
      | null => simp [between, Comparable]
      | _ => exact leaf_answers (by simp) (by simp)
  | .arr xs, .null | .obj es, .null => by simp [between, Comparable]
  | .arr xs, .bool _ | .arr xs, .num _ | .arr xs, .str _ | .arr xs, .date _ | .arr xs, .bytes _
  | .arr xs, .obj _ | .obj es, .bool _ | .obj es, .num _ | .obj es, .str _ | .obj es, .date _
  | .obj es, .bytes _ | .obj es, .arr _ => leaf_answers (by simp) (by simp)
termination_by structural x => x

theorem listChanges_answers : ∀ (i : ℕ) (xs ys : List Value),
    (∃ cs, listChanges i xs ys = some cs) ↔ ComparableItems xs ys
  | i, [], ys => by simp [listChanges, ComparableItems]
  | i, x :: xs, [] => by
      have hih := listChanges_answers (i + 1) xs []
      have hnil : ComparableItems xs [] := by cases xs <;> simp [ComparableItems]
      obtain ⟨cs, hcs⟩ := hih.mpr hnil
      simp [listChanges, ComparableItems, hcs]
  | i, x :: xs, y :: ys => by
      rw [ComparableItems, ← between_answers x y, ← listChanges_answers (i + 1) xs ys, listChanges]
      cases between x y with
      | none => simp
      | some r => cases r <;> cases listChanges (i + 1) xs ys <;> simp
termination_by structural _ x => x

theorem mapChanges_answers : ∀ (es fs : List (String × Value)),
    (∃ cs, mapChanges es fs = some cs) ↔ ComparableEntries es fs
  | [], fs => by simp [mapChanges, ComparableEntries]
  | (k, v) :: es, fs => by
      rw [ComparableEntries, ← mapChanges_answers es fs, mapChanges]
      cases hp : passedOver k with
      | true => simp
      | false =>
          simp only [Bool.false_eq_true, if_false, forall_true_left]
          rw [← hasOwn_ne_none (k := k)]
          cases hown : hasOwn fs k with
          | none => simp
          | some b =>
              have hin := hasOwn_some hown
              cases b with
              | false =>
                  have hw := not_mem_keys (of_decide_eq_false hin.symm)
                  cases mapChanges es fs <;> simp [hw]
              | true =>
                  obtain ⟨w, hw⟩ := mem_keys_iff.mp (of_decide_eq_true hin.symm)
                  have hb := between_answers v w
                  simp only [hw, Option.getD_some, Option.some.injEq, forall_eq', ← hb]
                  cases between v w with
                  | none => simp
                  | some r => cases r <;> cases mapChanges es fs <;> simp
termination_by structural x => x
end

/-! ### Equality apart from the skipped keys -/

mutual
/-- Deep equality of two values apart from their skipped keys. -/
def VisibleSame : Value → Value → Prop
  | .arr xs, .arr ys => VisibleItems xs ys
  | .obj es, .obj fs => VisibleEntries es fs ∧ ∀ k ∈ keys fs, skipped k = false → k ∈ keys es
  | x, y => Same x y
termination_by structural x => x

/-- `VisibleSame` of the elements of two arrays of one length. -/
def VisibleItems : List Value → List Value → Prop
  | [], [] => True
  | x :: xs, y :: ys => VisibleSame x y ∧ VisibleItems xs ys
  | _, _ => False
termination_by structural x => x

/-- The second object has every entry of the first that is not skipped. -/
def VisibleEntries : List (String × Value) → List (String × Value) → Prop
  | [], _ => True
  | (k, v) :: es, fs =>
      (skipped k = false → ∃ w, fs.lookup k = some w ∧ VisibleSame v w) ∧ VisibleEntries es fs
termination_by structural x => x
end

mutual
theorem same_visible : ∀ {x y : Value}, Same x y → VisibleSame x y
  | .arr xs, .arr ys, h => by
      rw [Same] at h
      rw [VisibleSame]
      exact sameItems_visible h
  | .obj es, .obj fs, h => by
      rw [Same] at h
      rw [VisibleSame]
      exact ⟨sameEntries_visible h.1, fun k hk _ => h.2 k hk⟩
  | .null, _, h | .bool _, _, h | .num _, _, h | .str _, _, h | .date _, _, h | .bytes _, _, h
  | .arr _, .null, h | .arr _, .bool _, h | .arr _, .num _, h | .arr _, .str _, h
  | .arr _, .date _, h | .arr _, .bytes _, h | .arr _, .obj _, h | .obj _, .null, h
  | .obj _, .bool _, h | .obj _, .num _, h | .obj _, .str _, h | .obj _, .date _, h
  | .obj _, .bytes _, h | .obj _, .arr _, h => h
termination_by structural x => x

theorem sameItems_visible : ∀ {xs ys : List Value}, SameItems xs ys → VisibleItems xs ys
  | [], [], _ => trivial
  | x :: xs, y :: ys, h => by
      rw [SameItems] at h
      rw [VisibleItems]
      exact ⟨same_visible h.1, sameItems_visible h.2⟩
  | [], _ :: _, h | _ :: _, [], h => by simp [SameItems] at h
termination_by structural x => x

theorem sameEntries_visible : ∀ {es fs : List (String × Value)}, SameEntries es fs →
    VisibleEntries es fs
  | [], _, _ => by simp [VisibleEntries]
  | (k, v) :: es, fs, h => by
      rw [SameEntries] at h
      obtain ⟨⟨w, hw, hvw⟩, hrest⟩ := h
      rw [VisibleEntries]
      exact ⟨fun _ => ⟨w, hw, same_visible hvw⟩, sameEntries_visible hrest⟩
termination_by structural x => x
end

/-- Deeply equal leaves are accepted by `t.valuesEqual`. -/
theorem same_leaf {x y : Value} (h : Same x y) (harr : ∀ xs ys, x = .arr xs → y ≠ .arr ys)
    (hobj : ∀ es fs, x = .obj es → y ≠ .obj fs) : valuesEqual x y = some true := by
  cases x with
  | arr xs =>
      cases y with
      | arr ys => exact absurd rfl (harr xs ys rfl)
      | _ => rw [Same] at h; exact h.elim; all_goals simp
  | obj es =>
      cases y with
      | obj fs => exact absurd rfl (hobj es fs rfl)
      | _ => rw [Same] at h; exact h.elim; all_goals simp
  | _ =>
      cases y <;>
        simp_all [Same, valuesEqual, strictEq, isObject, sameConstructor, constructorName]

/-- Two leaves have no delta iff they are deeply equal. -/
theorem leaf_none {x y : Value} {r : Option Delta} (h : leafBetween x y = some r)
    (harr : ∀ xs ys, x = .arr xs → y ≠ .arr ys) (hobj : ∀ es fs, x = .obj es → y ≠ .obj fs) :
    r = none ↔ Same x y := by
  simp only [leafBetween, Option.bind_eq_bind, Option.bind_eq_some_iff] at h
  obtain ⟨b, hb, h⟩ := h
  cases b with
  | true =>
      obtain rfl := Option.some.inj h
      obtain rfl := leaf_eq hb harr hobj
      have hskip : SkippedSame x x := by
        cases x with
        | arr xs => exact absurd rfl (harr xs xs rfl)
        | obj es => exact absurd rfl (hobj es es rfl)
        | _ => trivial
      simp [(leaf_same hb harr hobj).mpr hskip]
  | false =>
      obtain rfl := Option.some.inj h
      have hne : ¬ Same x y := fun hsame => by
        rw [same_leaf hsame harr hobj] at hb
        cases hb
      simp [hne]

theorem leaf_visible {x y : Value} (harr : ∀ xs ys, x = .arr xs → y ≠ .arr ys)
    (hobj : ∀ es fs, x = .obj es → y ≠ .obj fs) : VisibleSame x y = Same x y := by
  cases x with
  | arr xs =>
      cases y with
      | arr ys => exact absurd rfl (harr xs ys rfl)
      | _ => rfl
  | obj es =>
      cases y with
      | obj fs => exact absurd rfl (hobj es fs rfl)
      | _ => rfl
  | _ => rfl

theorem newKeys_empty {es : List (String × Value)} : ∀ {fs : List (String × Value)}
    {cs : List (String × Delta)}, newKeys es fs = some cs →
    (cs = [] ↔ ∀ k ∈ keys fs, skipped k = false → k ∈ keys es)
  | [], cs, h => by
      obtain rfl := Option.some.inj h
      simp [keys]
  | (k, v) :: fs, cs, h => by
      obtain ⟨rest, hrest, rfl⟩ := newKeys_cons h
      have hcons : keys ((k, v) :: fs) = k :: keys fs := rfl
      rw [hcons, List.forall_mem_cons, ← newKeys_empty hrest]
      by_cases hin : skipped k = true ∨ k ∈ keys es
      · rw [if_pos hin, withNode, iff_and_self]
        intro _ hs
        exact hin.resolve_left (by simp [hs])
      · rw [if_neg hin, withNode]
        rw [not_or, Bool.not_eq_true] at hin
        simp [hin]

mutual
/-- There is no delta iff the values are equal apart from the skipped keys. -/
theorem between_visible : ∀ (x y : Value) (r : Option Delta), between x y = some r →
    (r = none ↔ VisibleSame x y)
  | .arr xs, .arr ys, r, h => by
      simp only [between, Option.bind_eq_bind, Option.bind_eq_some_iff] at h
      obtain ⟨changes, hc, h⟩ := h
      obtain rfl := Option.some.inj h
      rw [VisibleSame, ← listChanges_visible 0 xs ys changes hc]
      cases changes <;> simp
  | .obj es, .obj fs, r, h => by
      simp only [between, Option.bind_eq_bind, Option.bind_eq_some_iff] at h
      obtain ⟨changes, hc, created, hn, h⟩ := h
      obtain rfl := Option.some.inj h
      rw [VisibleSame, ← mapChanges_visible es fs changes hc, ← newKeys_empty hn]
      cases changes <;> cases created <;> simp
  | .null, y, r, h => by
      cases y with
      | null => simp_all [between, VisibleSame, Same]
      | _ => obtain rfl := Option.some.inj h; simp [VisibleSame, Same]
  | .bool _, y, r, h | .num _, y, r, h | .str _, y, r, h | .date _, y, r, h | .bytes _, y, r, h => by
      cases y with
      | null => obtain rfl := Option.some.inj h; simp [VisibleSame, Same]
      | _ => exact (leaf_none h (by simp) (by simp)).trans (leaf_visible (by simp) (by simp)).to_iff.symm
  | .arr xs, .null, r, h | .obj es, .null, r, h => by
      obtain rfl := Option.some.inj h; simp [VisibleSame, Same]
  | .arr xs, .bool _, r, h | .arr xs, .num _, r, h | .arr xs, .str _, r, h | .arr xs, .date _, r, h
  | .arr xs, .bytes _, r, h | .arr xs, .obj _, r, h | .obj es, .bool _, r, h | .obj es, .num _, r, h
  | .obj es, .str _, r, h | .obj es, .date _, r, h | .obj es, .bytes _, r, h | .obj es, .arr _, r, h =>
      (leaf_none h (by simp) (by simp)).trans (leaf_visible (by simp) (by simp)).to_iff.symm
termination_by structural x => x

theorem listChanges_visible : ∀ (i : ℕ) (xs ys : List Value) (cs : List (ℕ × Delta)),
    listChanges i xs ys = some cs → (cs = [] ↔ VisibleItems xs ys)
  | i, [], ys, cs, h => by
      obtain rfl := Option.some.inj h
      cases ys <;> simp [newItems, VisibleItems]
  | i, x :: xs, [], cs, h => by
      simp only [listChanges, Option.bind_eq_bind, Option.bind_eq_some_iff] at h
      obtain ⟨rest, -, h⟩ := h
      obtain rfl := Option.some.inj h
      simp [VisibleItems]
  | i, x :: xs, y :: ys, cs, h => by
      simp only [listChanges, Option.bind_eq_bind, Option.bind_eq_some_iff] at h
      obtain ⟨r, hr, h⟩ := h
      have hhead := between_visible x y r hr
      rw [VisibleItems, ← hhead]
      cases r with
      | none => simp [listChanges_visible (i + 1) xs ys cs h]
      | some d =>
          simp only [Option.bind_eq_some_iff] at h
          obtain ⟨rest, -, h⟩ := h
          obtain rfl := Option.some.inj h
          simp
termination_by structural _ x => x

theorem mapChanges_visible : ∀ (es fs : List (String × Value)) (cs : List (String × Delta)),
    mapChanges es fs = some cs → (cs = [] ↔ VisibleEntries es fs)
  | [], fs, cs, h => by
      obtain rfl := Option.some.inj h
      simp [VisibleEntries]
  | (k, v) :: es, fs, cs, h => by
      obtain ⟨r, rest, hnode, hc, rfl⟩ := mapChanges_cons h
      rw [VisibleEntries, ← mapChanges_visible es fs rest hc]
      cases hnode with
      | skipped hs => simp [hs, withNode]
      | removed hs hw => simp [hs, hw, withNode]
      | @between w _ hs hw hb =>
          have hhead := between_visible v w r hb
          simp only [hs, hw, forall_true_left, Option.some.injEq, exists_eq_left', ← hhead]
          cases r <;> simp [withNode]
termination_by structural x => x
end

/-- CODE DEFECT (between): the answer is null exactly for deeply equal values iff no step of the
    comparison throws and values equal apart from their skipped keys are equal at these too. -/
theorem between_null_iff (a b : Value) :
    (∃ r, between a b = some r ∧ (r = none ↔ Same a b)) ↔
      Comparable a b ∧ (VisibleSame a b → SkippedSame a b) := by
  rw [← between_answers]
  constructor
  · rintro ⟨r, hr, hiff⟩
    refine ⟨⟨r, hr⟩, fun hvis => ?_⟩
    obtain rfl := (between_visible a b r hr).mpr hvis
    exact (between_same a b hr).mp (hiff.mp rfl)
  · rintro ⟨⟨r, hr⟩, hskip⟩
    refine ⟨r, hr, fun hnone => ?_, fun hsame => ?_⟩
    · subst hnone
      have hvis := (between_visible a b none hr).mp rfl
      exact (between_same a b hr).mpr (hskip hvis)
    · exact (between_visible a b r hr).mpr (same_visible hsame)

/-- Two objects that differ at their own key `equals` have no delta. -/
theorem between_not_null : ¬ ∀ a b : Value, ∃ r, between a b = some r ∧ (r = none ↔ Same a b) := by
  intro h
  obtain ⟨r, hr, hiff⟩ := h (.obj [("equals", .num (.fin 1))]) (.obj [("equals", .num (.fin 2))])
  have hnone : between (.obj [("equals", .num (.fin 1))]) (.obj [("equals", .num (.fin 2))]) =
      some none := rfl
  obtain rfl := Option.some.inj (hr.symm.trans hnone)
  have hsame := hiff.mp rfl
  rw [Same, SameEntries] at hsame
  obtain ⟨⟨⟨w, hw, hvw⟩, -⟩, -⟩ := hsame
  obtain rfl := Option.some.inj hw
  rw [Same] at hvw
  exact absurd hvw (by decide)

end Universa.Js
