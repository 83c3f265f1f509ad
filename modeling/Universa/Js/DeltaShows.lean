import Universa.Js.Delta

/-! What the delta sees: where `Delta.between` answers null the values are deeply equal up to the
    skipped keys, and a `MapDelta` has an entry for every other key that differs. -/

namespace Universa.Js

/-! ### Own keys -/

theorem hasOwn_some {α : Type} {k : String} {es : List (String × α)} {b : Bool}
    (h : hasOwn es k = some b) : b = decide (k ∈ keys es) := by
  unfold hasOwn at h
  split at h
  · cases h
  · exact (Option.some.inj h).symm

/-! ### One key of the two loops -/

/-- What the first loop of `MapDelta` keeps for the key `k`, which has the value `v` in the old map. -/
inductive NodeOf (fs : List (String × Value)) (k : String) (v : Value) : Option Delta → Prop where
  | skipped (h : skipped k = true) : NodeOf fs k v none
  | removed (h : skipped k = false) (hw : fs.lookup k = none) : NodeOf fs k v (some (.removed v .null))
  | between {w : Value} {r : Option Delta} (h : skipped k = false) (hw : fs.lookup k = some w)
      (hb : between v w = some r) : NodeOf fs k v r

/-- The nodes of a map with that of one more key. -/
def withNode (k : String) : Option Delta → List (String × Delta) → List (String × Delta)
  | none, rest => rest
  | some d, rest => (k, d) :: rest

theorem lookup_withNode_self {k : String} {r : Option Delta} {rest : List (String × Delta)}
    (h : rest.lookup k = none) : (withNode k r rest).lookup k = r := by
  cases r <;> simp [withNode, h]

theorem lookup_withNode_ne {k k' : String} {r : Option Delta} {rest : List (String × Delta)}
    (h : k ≠ k') : (withNode k' r rest).lookup k = rest.lookup k := by
  cases r with
  | none => rfl
  | some d => rw [withNode, List.lookup_cons, beq_false_of_ne h]

theorem skipped_eq (k : String) : skipped k = (passedOver k || k == "__proto__") := rfl

theorem setChange_eq {k : String} (h : passedOver k = false) (d : Delta) (cs : List (String × Delta)) :
    setChange k d cs = withNode k (if skipped k then none else some d) cs := by
  rw [setChange, skipped_eq, h, Bool.false_or]
  cases k == "__proto__" <;> rfl

theorem mapChanges_cons {fs es : List (String × Value)} {k : String} {v : Value}
    {cs : List (String × Delta)} (h : mapChanges ((k, v) :: es) fs = some cs) :
    ∃ r rest, NodeOf fs k v r ∧ mapChanges es fs = some rest ∧ cs = withNode k r rest := by
  rw [mapChanges] at h
  split at h
  case isTrue hskip => exact ⟨none, cs, .skipped (by rw [skipped_eq, hskip, Bool.true_or]), h, rfl⟩
  case isFalse hskip =>
    rw [Bool.not_eq_true] at hskip
    simp only [Option.bind_eq_bind, Option.bind_eq_some_iff] at h
    obtain ⟨b, hb, h⟩ := h
    cases b with
    | false =>
        simp only [Bool.false_eq_true, if_false, Option.bind_eq_some_iff] at h
        obtain ⟨rest, hc, h⟩ := h
        obtain rfl := Option.some.inj h
        rw [setChange_eq hskip]
        have hw : fs.lookup k = none := not_mem_keys (by simpa using hasOwn_some hb)
        cases hs : skipped k with
        | true => exact ⟨none, rest, .skipped hs, hc, rfl⟩
        | false => exact ⟨_, rest, .removed hs hw, hc, rfl⟩
    | true =>
        simp only [if_true, Option.bind_eq_some_iff] at h
        obtain ⟨r, hr, h⟩ := h
        obtain ⟨w, hw⟩ := mem_keys_iff.mp (by simpa using hasOwn_some hb)
        rw [hw, Option.getD_some] at hr
        cases r with
        | none =>
            cases hs : skipped k with
            | true => exact ⟨none, cs, .skipped hs, h, rfl⟩
            | false => exact ⟨none, cs, .between hs hw hr, h, rfl⟩
        | some d =>
            simp only [Option.bind_eq_some_iff] at h
            obtain ⟨rest, hc, h⟩ := h
            obtain rfl := Option.some.inj h
            rw [setChange_eq hskip]
            cases hs : skipped k with
            | true => exact ⟨none, rest, .skipped hs, hc, rfl⟩
            | false => exact ⟨some d, rest, .between hs hw hr, hc, rfl⟩

theorem newKeys_cons {es fs : List (String × Value)} {k : String} {v : Value}
    {cs : List (String × Delta)} (h : newKeys es ((k, v) :: fs) = some cs) :
    ∃ rest, newKeys es fs = some rest ∧
      cs = withNode k (if skipped k ∨ k ∈ keys es then none else some (.created v .null)) rest := by
  rw [newKeys] at h
  split at h
  case isTrue hskip => exact ⟨cs, h, by simp [skipped_eq, hskip, withNode]⟩
  case isFalse hskip =>
    simp only [Option.bind_eq_bind, Option.bind_eq_some_iff] at h
    obtain ⟨b, hb, h⟩ := h
    have hin := hasOwn_some hb
    cases b with
    | true => exact ⟨cs, h, by simp [of_decide_eq_true hin.symm, withNode]⟩
    | false =>
        simp only [Bool.false_eq_true, if_false, Option.bind_eq_some_iff] at h
        obtain ⟨rest, hc, h⟩ := h
        obtain rfl := Option.some.inj h
        refine ⟨rest, hc, ?_⟩
        rw [setChange_eq (by simpa using hskip)]
        simp [of_decide_eq_false hin.symm]

/-! ### No delta -/

theorem number_eq {a b : Number} (h : a.eq b = true) : a = b := by
  cases a <;> cases b <;> simp_all [Number.eq]

/-- Leaves that `t.valuesEqual` accepts are one value. -/
theorem leaf_eq : ∀ {x y : Value}, valuesEqual x y = some true →
    (∀ xs ys, x = .arr xs → y ≠ .arr ys) → (∀ es fs, x = .obj es → y ≠ .obj fs) → x = y
  | .null, y, h, _, _ => by cases y <;> simp_all [valuesEqual]
  | .bool a, y, h, _, _ => by cases y <;> simp_all [valuesEqual, strictEq]
  | .num a, y, h, _, _ => by
      cases y with
      | num b =>
          have hab : a.eq b = true := by simpa [valuesEqual, strictEq] using h
          rw [number_eq hab]
      | _ => simp_all [valuesEqual, strictEq]
  | .str a, y, h, _, _ => by cases y <;> simp_all [valuesEqual, strictEq]
  | .date a, y, h, _, _ => by
      cases y <;> simp_all [valuesEqual, isObject, Option.bind_eq_some_iff]
  | .bytes a, y, h, _, _ => by
      cases y <;> simp_all [valuesEqual, isObject, Option.bind_eq_some_iff]
  | .arr xs, y, h, harr, _ => by
      cases y with
      | arr ys => exact absurd rfl (harr xs ys rfl)
      | _ => simp_all [valuesEqual, isObject, Option.bind_eq_some_iff]
  | .obj es, y, h, _, hobj => by
      cases y with
      | obj fs => exact absurd rfl (hobj es fs rfl)
      | _ => simp_all [valuesEqual, isObject, Option.bind_eq_some_iff]

theorem leaf_same {x y : Value} (h : valuesEqual x y = some true)
    (harr : ∀ xs ys, x = .arr xs → y ≠ .arr ys) (hobj : ∀ es fs, x = .obj es → y ≠ .obj fs) :
    Same x y ↔ SkippedSame x y := by
  obtain rfl := leaf_eq h harr hobj
  cases x with
  | arr xs => exact absurd rfl (harr xs xs rfl)
  | obj es => exact absurd rfl (hobj es es rfl)
  | num a =>
      have ha : a.eq a = true := by simpa [valuesEqual, strictEq] using h
      simp [Same, SkippedSame, ha]
  | _ => simp [Same, SkippedSame]

theorem leafBetween_none {x y : Value} (h : leafBetween x y = some none) :
    valuesEqual x y = some true := by
  simp only [leafBetween, Option.bind_eq_bind, Option.bind_eq_some_iff] at h
  obtain ⟨b, hb, h⟩ := h
  cases b with
  | true => exact hb
  | false => simp at h

theorem newItems_nil {i : ℕ} {ys : List Value} (h : newItems i ys = []) : ys = [] := by
  cases ys with
  | nil => rfl
  | cons y ys => cases h

theorem newKeys_none {es : List (String × Value)} :
    ∀ {fs : List (String × Value)}, newKeys es fs = some [] →
    ∀ k ∈ keys fs, skipped k = false → k ∈ keys es
  | [], _, k, hk, _ => by simp [keys] at hk
  | (k', v) :: fs, h, k, hk, hs => by
      obtain ⟨rest, hrest, hnil⟩ := newKeys_cons h
      rw [keys, List.map_cons, List.mem_cons] at hk
      by_cases hin : skipped k' = true ∨ k' ∈ keys es
      · rw [if_pos hin, withNode] at hnil
        rcases hk with rfl | hk
        · exact hin.resolve_left (by simp [hs])
        · exact newKeys_none (hnil ▸ hrest) k hk hs
      · rw [if_neg hin] at hnil
        cases hnil

mutual
/-- CORRECT (no delta): the values are deeply equal iff they agree at the skipped keys. -/
theorem between_same : ∀ (x y : Value), between x y = some none → (Same x y ↔ SkippedSame x y)
  | .arr xs, .arr ys, h => by
      simp only [between, Option.bind_eq_bind, Option.bind_eq_some_iff] at h
      obtain ⟨changes, hc, h⟩ := h
      have hnil : changes = [] := by
        cases changes with
        | nil => rfl
        | cons d ds => simp at h
      rw [Same, SkippedSame]
      exact listChanges_same 0 xs ys (hnil ▸ hc)
  | .obj es, .obj fs, h => by
      simp only [between, Option.bind_eq_bind, Option.bind_eq_some_iff] at h
      obtain ⟨changes, hc, created, hn, h⟩ := h
      have hnil : changes = [] ∧ created = [] := by
        cases changes with
        | nil => cases created with
          | nil => simp
          | cons d ds => simp at h
        | cons d ds => simp at h
      rw [Same, SkippedSame, mapChanges_same es fs (hnil.1 ▸ hc)]
      have hnew := newKeys_none (hnil.2 ▸ hn)
      constructor
      · rintro ⟨he, hk⟩
        exact ⟨he, fun k hin _ => hk k hin⟩
      · rintro ⟨he, hk⟩
        refine ⟨he, fun k hin => ?_⟩
        cases hs : skipped k with
        | true => exact hk k hin hs
        | false => exact hnew k hin hs
  | .null, y, h => by cases y <;> simp_all [between, Same, SkippedSame]
  | .bool _, y, h | .num _, y, h | .str _, y, h | .date _, y, h | .bytes _, y, h => by
      cases y with
      | null => simp [between] at h
      | _ => exact leaf_same (leafBetween_none h) (by simp) (by simp)
  | .arr xs, .null, h | .obj es, .null, h => by simp [between] at h
  | .arr xs, .bool _, h | .arr xs, .num _, h | .arr xs, .str _, h | .arr xs, .date _, h
  | .arr xs, .bytes _, h | .arr xs, .obj _, h | .obj es, .bool _, h | .obj es, .num _, h
  | .obj es, .str _, h | .obj es, .date _, h | .obj es, .bytes _, h | .obj es, .arr _, h =>
      leaf_same (leafBetween_none h) (by simp) (by simp)
termination_by structural x => x

theorem listChanges_same : ∀ (i : ℕ) (xs ys : List Value), listChanges i xs ys = some [] →
    (SameItems xs ys ↔ SkippedItems xs ys)
  | i, [], ys, h => by
      rw [listChanges] at h
      rw [newItems_nil (Option.some.inj h), SameItems, SkippedItems]
      simp
  | i, x :: xs, [], h => by simp [listChanges, Option.bind_eq_some_iff] at h
  | i, x :: xs, y :: ys, h => by
      simp only [listChanges, Option.bind_eq_bind, Option.bind_eq_some_iff] at h
      obtain ⟨d, hd, h⟩ := h
      cases d with
      | some d => simp [Option.bind_eq_some_iff] at h
      | none =>
          rw [SameItems, SkippedItems, between_same x y hd, listChanges_same (i + 1) xs ys h]
termination_by structural _ x => x

theorem mapChanges_same : ∀ (es fs : List (String × Value)), mapChanges es fs = some [] →
    (SameEntries es fs ↔ SkippedEntries es fs)
  | [], fs, _ => by rw [SameEntries, SkippedEntries]
  | (k, v) :: es, fs, h => by
      obtain ⟨r, rest, hnode, hc, hnil⟩ := mapChanges_cons h
      obtain ⟨rfl, rfl⟩ : r = none ∧ rest = [] := by
        cases r with
        | none => exact ⟨rfl, hnil.symm⟩
        | some d => cases hnil
      rw [SameEntries, SkippedEntries, mapChanges_same es fs hc]
      cases hnode with
      | skipped hs => rw [if_pos hs]
      | between hs hw hb =>
          rw [if_neg (by simp [hs]), hw]
          simp [between_same v _ hb]
termination_by structural x => x
end

/-! ### The values of a node -/

theorem leafBetween_values {x y : Value} {d : Delta} (h : leafBetween x y = some (some d)) :
    d = .changed x y := by
  simp only [leafBetween, Option.bind_eq_bind, Option.bind_eq_some_iff] at h
  obtain ⟨b, hb, h⟩ := h
  cases b <;> simp_all

/-- A node between two values carries both, and is not empty. -/
theorem between_values {x y : Value} {d : Delta} (h : between x y = some (some d)) :
    d.oldValue = x ∧ d.newValue = y ∧ d.isEmpty = false := by
  have hleaf (h : leafBetween x y = some (some d)) : d.oldValue = x ∧ d.newValue = y ∧ d.isEmpty = false := by
    obtain rfl := leafBetween_values h
    exact ⟨rfl, rfl, rfl⟩
  cases x with
  | null =>
      cases y with
      | null => simp [between] at h
      | _ => obtain rfl := Option.some.inj (Option.some.inj h); exact ⟨rfl, rfl, rfl⟩
  | arr xs =>
      cases y with
      | null => obtain rfl := Option.some.inj (Option.some.inj h); exact ⟨rfl, rfl, rfl⟩
      | arr ys =>
          simp only [between, Option.bind_eq_bind, Option.bind_eq_some_iff] at h
          obtain ⟨changes, -, h⟩ := h
          cases changes with
          | nil => simp at h
          | cons c cs => obtain rfl := Option.some.inj (Option.some.inj h); exact ⟨rfl, rfl, rfl⟩
      | _ => exact hleaf h
  | obj es =>
      cases y with
      | null => obtain rfl := Option.some.inj (Option.some.inj h); exact ⟨rfl, rfl, rfl⟩
      | obj fs =>
          simp only [between, Option.bind_eq_bind, Option.bind_eq_some_iff] at h
          obtain ⟨changes, -, created, -, h⟩ := h
          cases hall : changes ++ created with
          | nil => simp [hall] at h
          | cons c cs =>
              rw [hall] at h
              obtain rfl := Option.some.inj (Option.some.inj h)
              exact ⟨rfl, rfl, rfl⟩
      | _ => exact hleaf h
  | _ =>
      cases y with
      | null => obtain rfl := Option.some.inj (Option.some.inj h); exact ⟨rfl, rfl, rfl⟩
      | _ => exact hleaf h

/-! ### What `MapDelta` shows of one key -/

theorem newKeys_old {es : List (String × Value)} {k : String} (hk : k ∈ keys es) :
    ∀ {fs : List (String × Value)} {cs : List (String × Delta)}, newKeys es fs = some cs →
    cs.lookup k = none
  | [], cs, h => by obtain rfl := Option.some.inj h; rfl
  | (k', v) :: fs, cs, h => by
      obtain ⟨rest, hrest, rfl⟩ := newKeys_cons h
      have hih := newKeys_old hk hrest
      rcases eq_or_ne k k' with rfl | hne
      · rw [lookup_withNode_self hih, if_pos (.inr hk)]
      · rw [lookup_withNode_ne hne, hih]

theorem newKeys_shows {es : List (String × Value)} {k : String} (hk : k ∉ keys es)
    (hs : skipped k = false) : ∀ {fs : List (String × Value)} {cs : List (String × Delta)},
    newKeys es fs = some cs → cs.lookup k = (fs.lookup k).map fun v => .created v .null
  | [], cs, h => by obtain rfl := Option.some.inj h; rfl
  | (k', v) :: fs, cs, h => by
      obtain ⟨rest, hrest, rfl⟩ := newKeys_cons h
      rcases eq_or_ne k k' with rfl | hne
      · rw [if_neg (by simp [hs, hk]), withNode]
        simp
      · rw [lookup_withNode_ne hne, List.lookup_cons, beq_false_of_ne hne]
        exact newKeys_shows hk hs hrest

theorem newKeys_skipped {es : List (String × Value)} {k : String} (hs : skipped k = true) :
    ∀ {fs : List (String × Value)} {cs : List (String × Delta)}, newKeys es fs = some cs →
    cs.lookup k = none
  | [], cs, h => by obtain rfl := Option.some.inj h; rfl
  | (k', v) :: fs, cs, h => by
      obtain ⟨rest, hrest, rfl⟩ := newKeys_cons h
      have hih := newKeys_skipped hs hrest
      rcases eq_or_ne k k' with rfl | hne
      · rw [lookup_withNode_self hih, if_pos (.inl hs)]
      · rw [lookup_withNode_ne hne, hih]

theorem mapChanges_new {fs : List (String × Value)} {k : String} :
    ∀ {es : List (String × Value)} {cs : List (String × Delta)}, k ∉ keys es →
    mapChanges es fs = some cs → cs.lookup k = none
  | [], cs, _, h => by obtain rfl := Option.some.inj h; rfl
  | (k', v) :: es, cs, hk, h => by
      obtain ⟨r, rest, -, hc, rfl⟩ := mapChanges_cons h
      simp only [keys, List.map_cons, List.mem_cons, not_or] at hk
      rw [lookup_withNode_ne hk.1]
      exact mapChanges_new hk.2 hc

theorem mapChanges_shows {fs : List (String × Value)} {k : String} (hs : skipped k = false) :
    ∀ {es : List (String × Value)} {cs : List (String × Delta)} {v : Value},
    es.lookup k = some v → mapChanges es fs = some cs →
    (fs.lookup k = none ∧ cs.lookup k = some (.removed v .null)) ∨
    ∃ w, fs.lookup k = some w ∧ (between v w = some none ∨
      ∃ d, between v w = some (some d) ∧ cs.lookup k = some d)
  | (k', v') :: es, cs, v, hv, h => by
      obtain ⟨r, rest, hnode, hc, rfl⟩ := mapChanges_cons h
      rw [List.lookup_cons] at hv
      rcases eq_or_ne k k' with rfl | hne
      · simp only [BEq.rfl, Option.some.injEq] at hv
        subst hv
        cases hnode with
        | skipped hskip => rw [hs] at hskip; cases hskip
        | removed _ hw => exact .inl ⟨hw, by simp [withNode]⟩
        | @between w r _ hw hb =>
            refine .inr ⟨w, hw, ?_⟩
            cases r with
            | none => exact .inl hb
            | some d => exact .inr ⟨d, hb, by simp [withNode]⟩
      · rw [beq_false_of_ne hne] at hv
        rw [lookup_withNode_ne hne]
        exact mapChanges_shows hs hv hc

/-! ### The node of one key -/

/-- The node records a change from one optional value to another. A created item has its value in
    `oldValue`. -/
def Records : Option Value → Option Value → Delta → Prop
  | none, some w, d => d = .created w .null
  | some v, none, d => d = .removed v .null
  | some v, some w, d => d.oldValue = v ∧ d.newValue = w ∧ d.isEmpty = false
  | none, none, _ => False

/-- The changes of the `MapDelta` that `between` answers for two objects. -/
def shown : Option Delta → List (String × Delta)
  | some (.map _ _ changes) => changes
  | _ => []

theorem shown_between {es fs : List (String × Value)} {r : Option Delta}
    (h : between (.obj es) (.obj fs) = some r) : ∃ changes created,
    mapChanges es fs = some changes ∧ newKeys es fs = some created ∧
    shown r = changes ++ created := by
  simp only [between, Option.bind_eq_bind, Option.bind_eq_some_iff] at h
  obtain ⟨changes, hc, created, hn, h⟩ := h
  refine ⟨changes, created, hc, hn, ?_⟩
  obtain rfl := Option.some.inj h
  cases hall : changes ++ created with
  | nil => rfl
  | cons d ds => rfl

/-- The node of a key that holds an object on both sides is the delta of the two objects. -/
theorem shown_inner {es fs es' fs' : List (String × Value)} {r : Option Delta} {k : String}
    (h : between (.obj es) (.obj fs) = some r) (hs : skipped k = false)
    (he : es.lookup k = some (.obj es')) (hf : fs.lookup k = some (.obj fs')) :
    ∃ r', between (.obj es') (.obj fs') = some r' ∧
      ∀ d, r' = some d → (shown r).lookup k = some d := by
  obtain ⟨changes, created, hc, hn, hr⟩ := shown_between h
  rw [hr, List.lookup_append]
  rcases mapChanges_shows hs he hc with ⟨hw, -⟩ | ⟨w, hw, hd⟩
  · rw [hf] at hw
    cases hw
  · obtain rfl := Option.some.inj (hf.symm.trans hw)
    rcases hd with hd | ⟨d, hd, hl⟩
    · exact ⟨none, hd, fun d hd => by cases hd⟩
    · refine ⟨some d, hd, fun d' hd' => ?_⟩
      obtain rfl := Option.some.inj hd'
      rw [hl, Option.some_or]

theorem mapChanges_entry {fs : List (String × Value)} {k : String} {d : Delta} :
    ∀ {es : List (String × Value)} {cs : List (String × Delta)}, (keys es).Nodup →
    mapChanges es fs = some cs → cs.lookup k = some d → ∃ v, es.lookup k = some v ∧
      (d = .removed v .null ∨ ∃ w, fs.lookup k = some w ∧ between v w = some (some d))
  | [], cs, _, h, hl => by
      obtain rfl := Option.some.inj h
      cases hl
  | (k', v) :: es, cs, hnodup, h, hl => by
      obtain ⟨r, rest, hnode, hc, rfl⟩ := mapChanges_cons h
      obtain ⟨hnew, hnodup⟩ := List.nodup_cons.mp hnodup
      rcases eq_or_ne k k' with rfl | hne
      · rw [lookup_withNode_self (mapChanges_new hnew hc)] at hl
        refine ⟨v, by simp, ?_⟩
        cases hnode with
        | skipped => cases hl
        | removed => exact .inl (Option.some.inj hl).symm
        | between _ hw hb => exact .inr ⟨_, hw, hl ▸ hb⟩
      · rw [lookup_withNode_ne hne] at hl
        rw [List.lookup_cons, beq_false_of_ne hne]
        exact mapChanges_entry hnodup hc hl

/-- Where a `MapDelta` has its nodes from, when no key is in the old object twice. -/
theorem shown_entry {es fs : List (String × Value)} {r : Option Delta} {k : String} {d : Delta}
    (h : between (.obj es) (.obj fs) = some r) (hnodup : (keys es).Nodup)
    (hl : (shown r).lookup k = some d) :
    (∃ v, d = .created v .null ∨ d = .removed v .null) ∨
      ∃ v w, es.lookup k = some v ∧ fs.lookup k = some w ∧ between v w = some (some d) := by
  obtain ⟨changes, created, hc, hn, hr⟩ := shown_between h
  rw [hr, List.lookup_append] at hl
  cases hch : changes.lookup k with
  | some d' =>
      rw [hch, Option.some_or] at hl
      obtain ⟨v, hv, hrem | ⟨w, hw, hb⟩⟩ := mapChanges_entry hnodup hc (hch.trans hl)
      · exact .inl ⟨v, .inr hrem⟩
      · exact .inr ⟨v, w, hv, hw, hb⟩
  | none =>
      rw [hch, Option.none_or] at hl
      have hk : k ∉ keys es := fun hin => by
        rw [newKeys_old hin hn] at hl
        cases hl
      cases hs : skipped k with
      | false =>
          rw [newKeys_shows hk hs hn] at hl
          obtain ⟨v, -, hv⟩ := Option.map_eq_some_iff.mp hl
          exact .inl ⟨v, .inl hv.symm⟩
      | true =>
          rw [newKeys_skipped hs hn] at hl
          cases hl

theorem mapChanges_keys {es fs : List (String × Value)} (h : mapChanges es fs = some [])
    {k : String} (hs : skipped k = false) (hk : k ∈ keys es) : k ∈ keys fs := by
  obtain ⟨v, hv⟩ := mem_keys_iff.mp hk
  rcases mapChanges_shows hs hv h with ⟨-, hl⟩ | ⟨w, hw, -⟩
  · cases hl
  · exact mem_keys_iff.mpr ⟨w, hw⟩

mutual
/-- Values without a delta have one text. -/
theorem between_text : ∀ (x y : Value), between x y = some none → text x = text y
  | .arr xs, .arr ys, h => by
      simp only [between, Option.bind_eq_bind, Option.bind_eq_some_iff] at h
      obtain ⟨changes, hc, h⟩ := h
      have hnil : changes = [] := by
        cases changes with
        | nil => rfl
        | cons d ds => simp at h
      rw [text, text, listChanges_texts 0 xs ys (hnil ▸ hc)]
  | .obj es, .obj fs, h => by
      simp only [between, Option.bind_eq_bind, Option.bind_eq_some_iff] at h
      obtain ⟨changes, hc, created, hn, h⟩ := h
      have hnil : changes = [] ∧ created = [] := by
        cases changes with
        | nil => cases created with
          | nil => simp
          | cons d ds => simp at h
        | cons d ds => simp at h
      have hkey : skipped "toString" = false := by decide
      have hiff : "toString" ∈ keys es ↔ "toString" ∈ keys fs :=
        ⟨mapChanges_keys (hnil.1 ▸ hc) hkey,
          fun hin => newKeys_none (hnil.2 ▸ hn) _ hin hkey⟩
      rw [text, text]
      simp only [hiff]
  | .null, y, h => by cases y <;> simp_all [between]
  | .bool _, y, h | .num _, y, h | .str _, y, h | .date _, y, h | .bytes _, y, h => by
      cases y with
      | null => simp [between] at h
      | _ => exact congrArg text (leaf_eq (leafBetween_none h) (by simp) (by simp))
  | .arr xs, .null, h | .obj es, .null, h => by simp [between] at h
  | .arr xs, .bool _, h | .arr xs, .num _, h | .arr xs, .str _, h | .arr xs, .date _, h
  | .arr xs, .bytes _, h | .arr xs, .obj _, h | .obj es, .bool _, h | .obj es, .num _, h
  | .obj es, .str _, h | .obj es, .date _, h | .obj es, .bytes _, h | .obj es, .arr _, h =>
      congrArg text (leaf_eq (leafBetween_none h) (by simp) (by simp))
termination_by structural x => x

theorem listChanges_texts : ∀ (i : ℕ) (xs ys : List Value), listChanges i xs ys = some [] →
    texts xs = texts ys
  | i, [], ys, h => by
      rw [listChanges] at h
      rw [newItems_nil (Option.some.inj h)]
  | i, x :: xs, [], h => by simp [listChanges, Option.bind_eq_some_iff] at h
  | i, x :: xs, y :: ys, h => by
      simp only [listChanges, Option.bind_eq_bind, Option.bind_eq_some_iff] at h
      obtain ⟨d, hd, h⟩ := h
      cases d with
      | some d => simp [Option.bind_eq_some_iff] at h
      | none =>
          have hrest := listChanges_texts (i + 1) xs ys h
          have htext := between_text x y hd
          have hnull : x = .null ↔ y = .null := by
            cases x <;> cases y <;> simp_all [between]
          by_cases hx : x = .null
          · rw [hx, hnull.mp hx]
            simp only [texts, hrest]
          · have hy : y ≠ .null := fun hy => hx (hnull.mpr hy)
            cases x <;> cases y <;> simp_all [texts]
termination_by structural _ x => x
end

end Universa.Js
