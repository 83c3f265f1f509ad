import Universa.Js.Datum
import Mathlib.Data.List.Find
import Mathlib.Data.List.Pairwise
import Mathlib.Data.Set.Defs
import Mathlib.Tactic.Tauto

/-! When `t.valuesEqual` is an equivalence that matches structure. The values that exist together are a heap:
    closed under parts, one object for each identity, no `NaN`. One comparison step relates two objects by
    their parts; where it gives the same both ways, induction on the size carries symmetry and
    transitivity from the parts to the whole. -/

namespace Universa.Js.Datum

/-! ### Heaps -/

/-- The values an object refers to. -/
def parts : Datum → List Datum
  | .arr _ xs | .set _ _ xs => xs
  | .obj _ es => es.map Prod.snd
  | .map _ _ ps => ps.map Prod.fst ++ ps.map Prod.snd
  | _ => []

/-- Values that exist together. -/
structure Heap where
  carrier : Set Datum
  closed : ∀ x ∈ carrier, ∀ c ∈ x.parts, c ∈ carrier
  shared : ∀ x ∈ carrier, ∀ y ∈ carrier, x.ref ≠ none → x.ref = y.ref → x = y
  keysNodup : ∀ r es, .obj r es ∈ carrier → (keys es).Nodup
  noNaN : .prim (.num .nan) ∉ carrier

/-- Values that are equal by `valuesEqual`. -/
def Equal (x y : Datum) : Prop := valuesEqual x y = some true

/-- The keys of the first object are in the second with equal values. -/
def Within (es fs : List (String × Datum)) : Prop :=
  ∀ k v, (k, v) ∈ es → ∃ w, fs.lookup k = some w ∧ Equal v w

/-- The same set of keys with equal values. -/
def SameEntries (es fs : List (String × Datum)) : Prop := Within es fs ∧ ∀ k ∈ keys fs, k ∈ keys es

/-- Each element of the first set is equal to one of the second. -/
def ElementsIn (xs ys : List Datum) : Prop := ∀ x ∈ xs, ∃ y ∈ ys, Equal x y

/-- Each entry of the first map has an equal value at the first equal key of the second. -/
def PairsIn (ps qs : List (Datum × Datum)) : Prop :=
  ∀ p ∈ ps, ∃ q, qs.find? (fun q => valuesEqual p.1 q.1 == some true) = some q ∧ Equal p.2 q.2

/-- Two of the values are equal to each other. -/
def Repeats (xs : List Datum) : Prop := ¬ xs.Pairwise fun a b => ¬ Equal a b

/-! ### What is asked of the comparison -/

/-- `valuesEqual` answers on the heap, is an equivalence there, and compares string-keyed objects by the
    set of their keys and the values. -/
structure Heap.MatchesStructure (h : Heap) : Prop where
  answers : ∀ x ∈ h.carrier, ∀ y ∈ h.carrier, ∃ b, valuesEqual x y = some b
  refl : ∀ x ∈ h.carrier, Equal x x
  symm : ∀ x ∈ h.carrier, ∀ y ∈ h.carrier, Equal x y → Equal y x
  trans : ∀ x ∈ h.carrier, ∀ y ∈ h.carrier, ∀ z ∈ h.carrier, Equal x y → Equal y z → Equal x z
  objects : ∀ r es s fs, .obj r es ∈ h.carrier → .obj s fs ∈ h.carrier →
    (Equal (.obj r es) (.obj s fs) ↔ SameEntries es fs)

/-- Two objects that the code compares the same way from both sides: the names of their classes can be read, no
    own key stands in for a method that is called, an object does not lack keys of one it is within, and a
    set or map with repetitions does not fit into one of its size that has more. -/
def Comparable : Datum → Datum → Prop
  | .obj r es, .obj s fs =>
      sameName (.obj r es) (.obj s fs) = some false ∧ ¬ SameEntries es fs ∨
        sameName (.obj r es) (.obj s fs) = some true ∧ "equals" ∉ keys es ∧
          (es ≠ [] → "hasOwnProperty" ∉ keys fs) ∧ (Within es fs → ∀ k ∈ keys fs, k ∈ keys es)
  | .obj r es, y =>
      sameName (.obj r es) y = some false ∨ sameName (.obj r es) y = some true ∧ "equals" ∉ keys es
  | .date r t, .obj s fs =>
      sameName (.date r t) (.obj s fs) = some false ∨
        sameName (.date r t) (.obj s fs) = some true ∧ "prototype" ∈ keys fs
  | .set _ generic xs, .set _ generic' ys =>
      generic = generic' → xs.length = ys.length → Repeats xs → ElementsIn xs ys → ElementsIn ys xs
  | .map _ generic ps, .map _ generic' qs =>
      generic = generic' → ps.length = qs.length → Repeats (ps.map Prod.fst) → PairsIn ps qs → PairsIn qs ps
  | x, y => sameName x y ≠ none

/-- Any two distinct objects of the heap are comparable. -/
def Heap.AllComparable (h : Heap) : Prop :=
  ∀ x ∈ h.carrier, ∀ y ∈ h.carrier, x.ref ≠ none → y.ref ≠ none → x.ref ≠ y.ref → Comparable x y

/-! ### Loops that answer -/

/-- An answer that is given, and right about `p`. -/
def Decides (o : Option Bool) (p : Prop) : Prop := ∃ b, o = some b ∧ (b = true ↔ p)

theorem Decides.iff {o : Option Bool} {p : Prop} (h : Decides o p) : o = some true ↔ p := by
  obtain ⟨b, rfl, hb⟩ := h
  rw [Option.some.injEq, hb]

theorem Decides.congr {o : Option Bool} {p q : Prop} (h : Decides o p) (hpq : p ↔ q) : Decides o q := by
  obtain ⟨b, ho, hb⟩ := h
  exact ⟨b, ho, hb.trans hpq⟩

theorem decides_true {p : Prop} (h : p) : Decides (some true) p := ⟨true, rfl, by simp [h]⟩

theorem decides_false {p : Prop} (h : ¬ p) : Decides (some false) p := ⟨false, rfl, by simp [h]⟩

/-- A loop goes on after a yes and stops at a no. -/
theorem decides_and {o rest : Option Bool} {p q : Prop} (ho : Decides o p) (hr : p → Decides rest q) :
    Decides (andThen o rest) (p ∧ q) := by
  obtain ⟨b, rfl, hb⟩ := ho
  cases b with
  | false => exact decides_false fun h => absurd (hb.mpr h.1) Bool.false_ne_true
  | true => exact (hr (hb.mp rfl)).congr ⟨fun h => ⟨hb.mp rfl, h⟩, And.right⟩

/-- The comparison of these two returns. -/
def Answers (x y : Datum) : Prop := ∃ b, valuesEqual x y = some b

theorem Answers.decides {x y : Datum} (h : Answers x y) : Decides (valuesEqual x y) (Equal x y) := by
  obtain ⟨b, hb⟩ := h
  exact ⟨b, hb, by rw [Equal, hb, Option.some.injEq]⟩

theorem foundIn_decides {equal : Datum → Option Bool} : ∀ {ys : List Datum}, (∀ y ∈ ys, ∃ b, equal y = some b) →
    Decides (foundIn equal ys) (∃ y ∈ ys, equal y = some true)
  | [], _ => decides_false (by simp)
  | y :: ys, h => by
    have ih := foundIn_decides fun z hz => h z (List.mem_cons_of_mem y hz)
    obtain ⟨b, hb⟩ := h y List.mem_cons_self
    cases b with
    | true =>
      rw [foundIn, hb]
      exact decides_true ⟨y, List.mem_cons_self, hb⟩
    | false =>
      rw [foundIn, hb]
      exact ih.congr (by simp [hb])

theorem entryIn_decides {equalKey equalValue : Datum → Option Bool} : ∀ {qs : List (Datum × Datum)},
    (∀ q ∈ qs, ∃ b, equalKey q.1 = some b) → (∀ q ∈ qs, ∃ b, equalValue q.2 = some b) →
    Decides (entryIn equalKey equalValue qs)
      (∃ q, qs.find? (fun q => equalKey q.1 == some true) = some q ∧ equalValue q.2 = some true)
  | [], _, _ => decides_false (by simp)
  | (k, v) :: qs, hk, hv => by
    have ih := entryIn_decides (fun q hq => hk q (List.mem_cons_of_mem _ hq))
      fun q hq => hv q (List.mem_cons_of_mem _ hq)
    obtain ⟨b, hb⟩ := hk (k, v) List.mem_cons_self
    obtain ⟨c, hc⟩ := hv (k, v) List.mem_cons_self
    cases b with
    | true =>
      rw [entryIn, hb]
      exact ⟨c, hc, by simp [hb, hc]⟩
    | false =>
      rw [entryIn, hb]
      exact ih.congr (by simp [hb])

theorem itemsEqual_decides : ∀ {xs ys : List Datum}, xs.length = ys.length →
    (∀ x ∈ xs, ∀ y ∈ ys, Answers x y) → Decides (itemsEqual xs ys) (List.Forall₂ Equal xs ys)
  | [], [], _, _ => by
    rw [itemsEqual]
    exact decides_true List.Forall₂.nil
  | x :: xs, y :: ys, hlen, h => by
    have ih := itemsEqual_decides (Nat.succ.inj hlen)
      fun a ha b hb => h a (List.mem_cons_of_mem x ha) b (List.mem_cons_of_mem y hb)
    have hxy := (h x List.mem_cons_self y List.mem_cons_self).decides
    rw [itemsEqual, List.forall₂_cons]
    exact decides_and hxy fun _ => ih

theorem entriesEqual_decides {fs : List (String × Datum)} : ∀ {es : List (String × Datum)},
    (es ≠ [] → "hasOwnProperty" ∉ keys fs) → (∀ e ∈ es, ∀ k w, fs.lookup k = some w → Answers e.2 w) →
    Decides (entriesEqual es fs) (Within es fs)
  | [], _, _ => by
    rw [entriesEqual]
    exact decides_true fun k v h => absurd h List.not_mem_nil
  | (k, v) :: es, hown, h => by
    have hown' := hown (List.cons_ne_nil _ _)
    have ih := entriesEqual_decides (fun _ => hown') fun e he => h e (List.mem_cons_of_mem _ he)
    have hcons : Within ((k, v) :: es) fs ↔ (∃ w, fs.lookup k = some w ∧ Equal v w) ∧ Within es fs := by
      simp [Within, or_imp, forall_and]
    rw [entriesEqual, if_neg hown']
    cases hk : fs.lookup k with
    | none => exact decides_false (by simp [hcons, hk])
    | some w =>
      have hvw := (h (k, v) List.mem_cons_self k w hk).decides
      exact (decides_and hvw fun _ => ih).congr (by simp [hcons, hk])

theorem pairsFound_decides {qs : List (Datum × Datum)} : ∀ {ps : List (Datum × Datum)},
    (∀ p ∈ ps, ∀ q ∈ qs, Answers p.1 q.1) → (∀ p ∈ ps, ∀ q ∈ qs, Answers p.2 q.2) →
    Decides (pairsFound ps qs) (PairsIn ps qs)
  | [], _, _ => by
    rw [pairsFound]
    exact decides_true fun p h => absurd h List.not_mem_nil
  | (k, v) :: ps, hk, hv => by
    have ih := pairsFound_decides (fun p hp => hk p (List.mem_cons_of_mem _ hp))
      fun p hp => hv p (List.mem_cons_of_mem _ hp)
    have hkv := entryIn_decides (hk (k, v) List.mem_cons_self) (hv (k, v) List.mem_cons_self)
    rw [pairsFound]
    exact (decides_and hkv fun _ => ih).congr (by simp [PairsIn, Equal])

theorem elementsFound_decides {ys : List Datum} : ∀ {xs : List Datum}, (∀ x ∈ xs, ∀ y ∈ ys, Answers x y) →
    Decides (elementsFound xs ys) (ElementsIn xs ys)
  | [], _ => by
    rw [elementsFound]
    exact decides_true fun x h => absurd h List.not_mem_nil
  | x :: xs, h => by
    have ih := elementsFound_decides fun a ha => h a (List.mem_cons_of_mem x ha)
    have hx := foundIn_decides (h x List.mem_cons_self)
    rw [elementsFound]
    exact (decides_and hx fun _ => ih).congr (by simp [ElementsIn, Equal])

/-! ### One step of the comparison -/

/-- Two objects of one kind whose parts are equal. -/
def Alike : Datum → Datum → Prop
  | .date _ t, .date _ t' => t = t'
  | .bytes _ bs, .bytes _ cs => bs = cs
  | .arr _ xs, .arr _ ys => List.Forall₂ Equal xs ys
  | .obj _ es, .obj _ fs => SameEntries es fs
  | .map _ generic ps, .map _ generic' qs => generic = generic' ∧ ps.length = qs.length ∧ PairsIn ps qs
  | .set _ generic xs, .set _ generic' ys => generic = generic' ∧ xs.length = ys.length ∧ ElementsIn xs ys
  | _, _ => False

/-- The parts of the two are compared with an answer. -/
def PartsAnswer (x y : Datum) : Prop := ∀ c ∈ x.parts, ∀ d ∈ y.parts, Answers c d

theorem compared_decides {x y : Datum} {equals : Option Bool} {p : Prop} (hne : x.ref ≠ y.ref)
    (hx : x.ref ≠ none) (hy : y.ref ≠ none)
    (h : sameName x y = some false ∧ ¬ p ∨ sameName x y = some true ∧ Decides equals p) :
    Decides (compared x y equals) p := by
  have hid : identical x y = false := by
    cases x <;> cases y <;> simp_all [identical, ref]
  rw [compared, hid, if_neg Bool.false_ne_true, if_neg hy]
  obtain ⟨hn, hp⟩ | ⟨hn, hp⟩ := h
  · rw [hn]
    exact decides_false hp
  · rw [hn]
    exact hp

/-- Where the comparison ends in a no whenever it gets past the names, it is enough that they are read. -/
theorem compared_no {x y : Datum} (hne : x.ref ≠ y.ref) (hx : x.ref ≠ none) (hy : y.ref ≠ none)
    (h : sameName x y ≠ none) : Decides (compared x y (some false)) False := by
  obtain ⟨b, hb⟩ := Option.ne_none_iff_exists'.mp h
  refine compared_decides hne hx hy ?_
  cases b with
  | false => exact .inl ⟨hb, id⟩
  | true => exact .inr ⟨hb, decides_false id⟩

/-- Two maps are compared by class, size and entries. -/
theorem map_decides {r s : ℕ} {generic generic' : Bool} {ps qs : List (Datum × Datum)}
    (hne : (map r generic ps).ref ≠ (map s generic' qs).ref)
    (hparts : PartsAnswer (.map r generic ps) (.map s generic' qs)) :
    Decides (valuesEqual (.map r generic ps) (.map s generic' qs))
      (Alike (.map r generic ps) (.map s generic' qs)) := by
  rw [valuesEqual.eq_def]
  refine compared_decides hne (Option.some_ne_none r) (Option.some_ne_none s) ?_
  by_cases hg : generic = generic'
  · subst hg
    refine .inr ⟨by cases generic <;> rfl, ?_⟩
    by_cases hlen : ps.length = qs.length
    · simp only [ne_eq, hlen, not_true, or_self, if_false]
      refine (pairsFound_decides (fun p hp q hq => hparts _ ?_ _ ?_) fun p hp q hq => hparts _ ?_ _ ?_).congr
        ⟨fun h => ⟨rfl, hlen, h⟩, fun h => h.2.2⟩
      · exact List.mem_append_left _ (List.mem_map_of_mem hp)
      · exact List.mem_append_left _ (List.mem_map_of_mem hq)
      · exact List.mem_append_right _ (List.mem_map_of_mem hp)
      · exact List.mem_append_right _ (List.mem_map_of_mem hq)
    · simp only [ne_eq, hlen, not_false_eq_true, or_true, if_true]
      exact decides_false fun h => hlen h.2.1
  · exact .inl ⟨by cases generic <;> cases generic' <;> simp_all <;> rfl, fun h => hg h.1⟩

/-- Two sets are compared by class, size and elements. -/
theorem set_decides {r s : ℕ} {generic generic' : Bool} {xs ys : List Datum}
    (hne : (set r generic xs).ref ≠ (set s generic' ys).ref)
    (hparts : PartsAnswer (.set r generic xs) (.set s generic' ys)) :
    Decides (valuesEqual (.set r generic xs) (.set s generic' ys))
      (Alike (.set r generic xs) (.set s generic' ys)) := by
  rw [valuesEqual.eq_def]
  refine compared_decides hne (Option.some_ne_none r) (Option.some_ne_none s) ?_
  by_cases hg : generic = generic'
  · subst hg
    refine .inr ⟨by cases generic <;> rfl, ?_⟩
    by_cases hlen : xs.length = ys.length
    · simp only [ne_eq, hlen, not_true, or_self, if_false]
      exact (elementsFound_decides hparts).congr ⟨fun h => ⟨rfl, hlen, h⟩, fun h => h.2.2⟩
    · simp only [ne_eq, hlen, not_false_eq_true, or_true, if_true]
      exact decides_false fun h => hlen h.2.1
  · exact .inl ⟨by cases generic <;> cases generic' <;> simp_all <;> rfl, fun h => hg h.1⟩

/-- CORRECT (one step): comparable objects are compared by their parts. -/
theorem decides_alike {x y : Datum} (hx : x.ref ≠ none) (hy : y.ref ≠ none) (hne : x.ref ≠ y.ref)
    (hc : Comparable x y) (hparts : PartsAnswer x y) : Decides (valuesEqual x y) (Alike x y) := by
  cases x with
  | prim p => exact absurd rfl hx
  | date r t =>
    rw [valuesEqual.eq_def]
    cases y with
    | prim p => exact absurd rfl hy
    | date s t' => exact compared_decides hne hx hy (.inr ⟨rfl, decide (t = t'), rfl, decide_eq_true_iff⟩)
    | obj s fs =>
      refine compared_decides hne hx hy ?_
      obtain hn | ⟨hn, hown⟩ := hc
      · exact .inl ⟨hn, id⟩
      · simp only [if_pos hown]
        exact .inr ⟨hn, decides_false id⟩
    | map s generic qs => exact compared_decides hne hx hy (.inl ⟨by cases generic <;> rfl, id⟩)
    | set s generic ys => exact compared_decides hne hx hy (.inl ⟨by cases generic <;> rfl, id⟩)
    | _ => exact compared_decides hne hx hy (.inl ⟨rfl, id⟩)
  | bytes r bs =>
    rw [valuesEqual.eq_def]
    cases y with
    | prim p => exact absurd rfl hy
    | bytes s cs => exact compared_decides hne hx hy (.inr ⟨rfl, decide (bs = cs), rfl, decide_eq_true_iff⟩)
    | _ => exact compared_no hne hx hy hc
  | arr r xs =>
    rw [valuesEqual.eq_def]
    cases y with
    | prim p => exact absurd rfl hy
    | arr s ys =>
      refine compared_decides hne hx hy (.inr ⟨rfl, ?_⟩)
      by_cases hlen : xs.length = ys.length
      · simp only [ne_eq, hlen, not_true, if_false]
        exact itemsEqual_decides hlen hparts
      · simp only [ne_eq, hlen, not_false_eq_true, if_true]
        exact decides_false fun h => hlen (List.Forall₂.length_eq h)
    | _ => exact compared_no hne hx hy hc
  | obj r es =>
    rw [valuesEqual.eq_def]
    cases y with
    | prim p => exact absurd rfl hy
    | obj s fs =>
      refine compared_decides hne hx hy ?_
      obtain hn | ⟨hn, hequals, hown, hfull⟩ := hc
      · exact .inl hn
      · refine .inr ⟨hn, ?_⟩
        simp only [hequals, if_false]
        refine (entriesEqual_decides hown fun e he k w hw => ?_).congr ⟨fun h => ⟨h, hfull h⟩, And.left⟩
        exact hparts e.2 (List.mem_map_of_mem he) w (List.mem_map_of_mem (mem_of_lookup hw))
    | _ =>
      refine compared_decides hne hx hy ?_
      obtain hn | ⟨hn, hequals⟩ := hc
      · exact .inl ⟨hn, id⟩
      · simp only [hequals, if_false]
        exact .inr ⟨hn, decides_false id⟩
  | map r generic ps =>
    cases y with
    | prim p => exact absurd rfl hy
    | map s generic' qs => exact map_decides hne hparts
    | _ =>
      rw [valuesEqual.eq_def]
      exact compared_no hne hx hy hc
  | set r generic xs =>
    cases y with
    | prim p => exact absurd rfl hy
    | set s generic' ys => exact set_decides hne hparts
    | _ =>
      rw [valuesEqual.eq_def]
      exact compared_no hne hx hy hc

/-! ### From the parts to the whole -/

theorem sizeOf_lt_of_part {x c : Datum} (h : c ∈ x.parts) : sizeOf c < sizeOf x := by
  cases x with
  | prim p => simp [parts] at h
  | date r t => simp [parts] at h
  | bytes r bs => simp [parts] at h
  | arr r xs =>
    have := List.sizeOf_lt_of_mem (show c ∈ xs from h)
    simp only [arr.sizeOf_spec]
    omega
  | set r generic xs =>
    have := List.sizeOf_lt_of_mem (show c ∈ xs from h)
    simp only [set.sizeOf_spec]
    omega
  | obj r es =>
    obtain ⟨e, he, rfl⟩ := List.mem_map.mp h
    have := List.sizeOf_lt_of_mem he
    obtain ⟨k, v⟩ := e
    simp only [obj.sizeOf_spec, Prod.mk.sizeOf_spec] at this ⊢
    omega
  | map r generic ps =>
    obtain h | h := List.mem_append.mp h
    all_goals
      obtain ⟨⟨k, v⟩, he, rfl⟩ := List.mem_map.mp h
      have := List.sizeOf_lt_of_mem he
      simp only [map.sizeOf_spec, Prod.mk.sizeOf_spec] at this ⊢
      omega

theorem valuesEqual_object {x : Datum} (hx : x.ref ≠ none) (y : Datum) :
    ∃ equals, valuesEqual x y = compared x y equals := by
  rw [valuesEqual.eq_def]
  cases x with
  | prim p => exact absurd rfl hx
  | _ => exact ⟨_, rfl⟩

theorem answers_of_prim {x y : Datum} (h : x.ref = none ∨ y.ref = none) : Answers x y := by
  by_cases hx : x.ref = none
  · cases x with
    | prim p => exact ⟨identical (.prim p) y, by rw [valuesEqual]⟩
    | _ => cases hx
  · obtain ⟨equals, ho⟩ := valuesEqual_object hx y
    rw [Answers, ho, compared]
    cases identical x y with
    | true => exact ⟨true, rfl⟩
    | false => exact ⟨false, by rw [if_neg Bool.false_ne_true, if_pos (h.resolve_left hx)]⟩

/-- Objects are equal to themselves. -/
theorem equal_self {x : Datum} (hx : x.ref ≠ none) : Equal x x := by
  obtain ⟨equals, ho⟩ := valuesEqual_object hx x
  have hid : identical x x = true := by
    cases x with
    | prim p => exact absurd rfl hx
    | _ => simp [identical, ref]
  rw [Equal, ho, compared, if_pos hid]

/-- A primitive is equal to what it is identical with. -/
theorem equal_prim {x y : Datum} (h : x.ref = none ∨ y.ref = none) : Equal x y ↔ identical x y = true := by
  by_cases hx : x.ref = none
  · cases x with
    | prim p => rw [Equal, valuesEqual, Option.some.injEq]
    | _ => cases hx
  · obtain ⟨equals, ho⟩ := valuesEqual_object hx y
    rw [Equal, ho, compared, if_pos (h.resolve_left hx)]
    split <;> simp_all

variable {h : Heap}

/-- On a heap whose objects are comparable every comparison answers: by induction on the first value. -/
theorem answers_of_comparable (hc : h.AllComparable) {x y : Datum} (hx : x ∈ h.carrier) (hy : y ∈ h.carrier) :
    Answers x y := by
  by_cases hprim : x.ref = none ∨ y.ref = none
  · exact answers_of_prim hprim
  obtain ⟨hxr, hyr⟩ := not_or.mp hprim
  by_cases href : x.ref = y.ref
  · obtain rfl := h.shared x hx y hy hxr href
    exact ⟨true, equal_self hxr⟩
  · have hparts : PartsAnswer x y := fun c hcx d hdy =>
      have : sizeOf c < sizeOf x := sizeOf_lt_of_part hcx
      answers_of_comparable hc (h.closed x hx c hcx) (h.closed y hy d hdy)
    obtain ⟨b, hb, -⟩ := decides_alike hxr hyr href (hc x hx y hy hxr hyr href) hparts
    exact ⟨b, hb⟩
termination_by sizeOf x

/-- Distinct objects are equal just when their parts are. -/
theorem equal_iff_alike (hc : h.AllComparable) {x y : Datum} (hx : x ∈ h.carrier) (hy : y ∈ h.carrier)
    (hxr : x.ref ≠ none) (hyr : y.ref ≠ none) (hne : x.ref ≠ y.ref) : Equal x y ↔ Alike x y :=
  (decides_alike hxr hyr hne (hc x hx y hy hxr hyr hne) fun c hcx d hdy =>
    answers_of_comparable hc (h.closed x hx c hcx) (h.closed y hy d hdy)).iff

/-! ### Matching without repetitions -/

/-- As many on both sides and no partner shared: if all of the first have a partner, so have all of the second. -/
theorem covers_of_fits {α β : Type} {R : α → β → Prop} : ∀ {xs : List α} {ys : List β}, xs.length = ys.length →
    (xs.Pairwise fun a b => ∀ y ∈ ys, R a y → ¬ R b y) → (∀ x ∈ xs, ∃ y ∈ ys, R x y) → ∀ y ∈ ys, ∃ x ∈ xs, R x y
  | [], ys, hlen, _, _, y, hy => by
    obtain rfl := List.length_eq_zero_iff.mp hlen.symm
    exact absurd hy List.not_mem_nil
  | x :: xs, ys, hlen, hpw, hin, y, hy => by
    obtain ⟨z, hz, hxz⟩ := hin x List.mem_cons_self
    obtain ⟨l, r, rfl⟩ := List.append_of_mem hz
    obtain ⟨hx, hpw⟩ := List.pairwise_cons.mp hpw
    by_cases hyz : y = z
    · exact ⟨x, List.mem_cons_self, hyz ▸ hxz⟩
    have hmem : ∀ {w : β}, w ∈ l ++ z :: r → w ≠ z → w ∈ l ++ r := by
      intro w hw hwz
      simp only [List.mem_append, List.mem_cons] at hw ⊢
      tauto
    have hfit : ∀ a ∈ xs, ∃ w ∈ l ++ r, R a w := by
      intro a ha
      obtain ⟨w, hw, haw⟩ := hin a (List.mem_cons_of_mem x ha)
      refine ⟨w, hmem hw ?_, haw⟩
      rintro rfl
      exact hx a ha w hz hxz haw
    have hlen' : xs.length = (l ++ r).length := by
      simp only [List.length_cons, List.length_append] at hlen ⊢
      omega
    obtain ⟨a, ha, hay⟩ := covers_of_fits hlen'
      (hpw.imp fun hab w hw => hab w (by simp only [List.mem_append, List.mem_cons] at hw ⊢; tauto))
      hfit y (hmem hy hyz)
    exact ⟨a, List.mem_cons_of_mem x ha, hay⟩

/-- On these values equality is symmetric and transitive. -/
structure Settled (cs : Set Datum) : Prop where
  symm : ∀ x ∈ cs, ∀ y ∈ cs, Equal x y → Equal y x
  trans : ∀ x ∈ cs, ∀ y ∈ cs, ∀ z ∈ cs, Equal x y → Equal y z → Equal x z

variable {cs : Set Datum}

theorem elementsIn_symm (hcs : Settled cs) {xs ys : List Datum} (hxs : ∀ x ∈ xs, x ∈ cs)
    (hys : ∀ y ∈ ys, y ∈ cs) (hlen : xs.length = ys.length) (hrep : ¬ Repeats xs) (hin : ElementsIn xs ys) :
    ElementsIn ys xs := by
  have hpw : xs.Pairwise fun a b => ∀ y ∈ ys, Equal a y → ¬ Equal b y := by
    refine (not_not.mp hrep).imp_of_mem fun {a b} ha hb hab y hy hay hby => hab ?_
    have hyb := hcs.symm b (hxs b hb) y (hys y hy) hby
    exact hcs.trans a (hxs a ha) y (hys y hy) b (hxs b hb) hay hyb
  intro y hy
  obtain ⟨x, hx, hxy⟩ := covers_of_fits hlen hpw hin y hy
  exact ⟨x, hx, hcs.symm x (hxs x hx) y (hys y hy) hxy⟩

theorem key_of_find {k : Datum} {q : Datum × Datum} {qs : List (Datum × Datum)}
    (h : qs.find? (fun q => valuesEqual k q.1 == some true) = some q) : q ∈ qs ∧ Equal k q.1 := by
  have hk := List.find?_some h
  exact ⟨List.mem_of_find?_eq_some h, beq_iff_eq.mp hk⟩

theorem pairsIn_symm (hcs : Settled cs) {ps qs : List (Datum × Datum)} (hps : ∀ p ∈ ps, p.1 ∈ cs ∧ p.2 ∈ cs)
    (hqs : ∀ q ∈ qs, q.1 ∈ cs ∧ q.2 ∈ cs) (hlen : ps.length = qs.length) (hrep : ¬ Repeats (ps.map Prod.fst))
    (hin : PairsIn ps qs) : PairsIn qs ps := by
  have hkeys : ps.Pairwise fun p p' => ¬ Equal p.1 p'.1 := List.pairwise_map.mp (not_not.mp hrep)
  have hfind : ∀ p ∈ ps, ∃ q ∈ qs, Equal p.1 q.1 ∧ Equal p.2 q.2 := by
    intro p hp
    obtain ⟨q, hq, hv⟩ := hin p hp
    exact ⟨q, (key_of_find hq).1, (key_of_find hq).2, hv⟩
  have hpw : ps.Pairwise fun a b =>
      ∀ q ∈ qs, Equal a.1 q.1 ∧ Equal a.2 q.2 → ¬ (Equal b.1 q.1 ∧ Equal b.2 q.2) := by
    refine hkeys.imp_of_mem fun {a b} ha hb hab q hq haq hbq => hab ?_
    have hqb := hcs.symm b.1 (hps b hb).1 q.1 (hqs q hq).1 hbq.1
    exact hcs.trans a.1 (hps a ha).1 q.1 (hqs q hq).1 b.1 (hps b hb).1 haq.1 hqb
  intro q hq
  obtain ⟨p, hp, hkey, hvalue⟩ := covers_of_fits hlen hpw hfind q hq
  have hkey' := hcs.symm p.1 (hps p hp).1 q.1 (hqs q hq).1 hkey
  cases hf : ps.find? (fun p => valuesEqual q.1 p.1 == some true) with
  | none => exact absurd (beq_iff_eq.mpr hkey') (List.find?_eq_none.mp hf p hp)
  | some p' =>
    obtain ⟨hp', hq'⟩ := key_of_find hf
    have hpp' : Equal p.1 p'.1 := hcs.trans p.1 (hps p hp).1 q.1 (hqs q hq).1 p'.1 (hps p' hp').1 hkey hq'
    have happart : ps.Pairwise fun a b => ¬ (Equal a.1 b.1 ∨ Equal b.1 a.1) := by
      refine hkeys.imp_of_mem fun {a b} ha hb hab => not_or.mpr ⟨hab, fun hba => hab ?_⟩
      exact hcs.symm b.1 (hps b hb).1 a.1 (hps a ha).1 hba
    have hsymm : Std.Symm fun a b : Datum × Datum => ¬ (Equal a.1 b.1 ∨ Equal b.1 a.1) :=
      ⟨fun _ _ h h' => h h'.symm⟩
    by_cases hne : p = p'
    · exact ⟨p', rfl, hne ▸ hcs.symm p.2 (hps p hp).2 q.2 (hqs q hq).2 hvalue⟩
    · exact absurd (Or.inl hpp') (happart.forall hp hp' hne)

theorem forall₂_symm (hcs : Settled cs) : ∀ {xs ys : List Datum}, (∀ x ∈ xs, x ∈ cs) → (∀ y ∈ ys, y ∈ cs) →
    List.Forall₂ Equal xs ys → List.Forall₂ Equal ys xs
  | [], [], _, _, _ => .nil
  | x :: _, y :: _, hxs, hys, .cons hxy hrest =>
      .cons (hcs.symm x (hxs x List.mem_cons_self) y (hys y List.mem_cons_self) hxy)
        (forall₂_symm hcs (fun a ha => hxs a (List.mem_cons_of_mem x ha))
          (fun b hb => hys b (List.mem_cons_of_mem y hb)) hrest)

theorem forall₂_trans (hcs : Settled cs) : ∀ {xs ys zs : List Datum}, (∀ x ∈ xs, x ∈ cs) → (∀ y ∈ ys, y ∈ cs) →
    (∀ z ∈ zs, z ∈ cs) → List.Forall₂ Equal xs ys → List.Forall₂ Equal ys zs → List.Forall₂ Equal xs zs
  | [], [], [], _, _, _, _, _ => .nil
  | x :: _, y :: _, z :: _, hxs, hys, hzs, .cons hxy hr, .cons hyz hr' =>
      .cons
        (hcs.trans x (hxs x List.mem_cons_self) y (hys y List.mem_cons_self) z (hzs z List.mem_cons_self) hxy hyz)
        (forall₂_trans hcs (fun a ha => hxs a (List.mem_cons_of_mem x ha))
          (fun b hb => hys b (List.mem_cons_of_mem y hb)) (fun c hc => hzs c (List.mem_cons_of_mem z hc))
          hr hr')

theorem sameEntries_symm (hcs : Settled cs) {es fs : List (String × Datum)} (hes : ∀ e ∈ es, e.2 ∈ cs)
    (hfs : ∀ e ∈ fs, e.2 ∈ cs) (hnodup : (keys fs).Nodup) (h : SameEntries es fs) :
    SameEntries fs es := by
  refine ⟨fun k w hw => ?_, fun k hk => ?_⟩
  · obtain ⟨v, hv⟩ := mem_keys_iff.mp (h.2 k (List.mem_map_of_mem hw))
    obtain ⟨w', hw', hvw⟩ := h.1 k v (mem_of_lookup hv)
    obtain rfl : w' = w := Option.some.inj (hw'.symm.trans (lookup_of_mem hnodup hw))
    exact ⟨v, hv, hcs.symm v (hes _ (mem_of_lookup hv)) w' (hfs _ hw) hvw⟩
  · obtain ⟨v, hv⟩ := mem_keys_iff.mp hk
    obtain ⟨w, hw, -⟩ := h.1 k v (mem_of_lookup hv)
    exact mem_keys_iff.mpr ⟨w, hw⟩

theorem sameEntries_trans (hcs : Settled cs) {es fs gs : List (String × Datum)} (hes : ∀ e ∈ es, e.2 ∈ cs)
    (hfs : ∀ e ∈ fs, e.2 ∈ cs) (hgs : ∀ e ∈ gs, e.2 ∈ cs) (h : SameEntries es fs) (h' : SameEntries fs gs) :
    SameEntries es gs := by
  refine ⟨fun k v hv => ?_, fun k hk => h.2 k (h'.2 k hk)⟩
  obtain ⟨w, hw, hvw⟩ := h.1 k v hv
  obtain ⟨u, hu, hwu⟩ := h'.1 k w (mem_of_lookup hw)
  exact ⟨u, hu, hcs.trans v (hes _ hv) w (hfs _ (mem_of_lookup hw)) u (hgs _ (mem_of_lookup hu)) hvw hwu⟩

theorem elementsIn_trans (hcs : Settled cs) {xs ys zs : List Datum} (hxs : ∀ x ∈ xs, x ∈ cs)
    (hys : ∀ y ∈ ys, y ∈ cs) (hzs : ∀ z ∈ zs, z ∈ cs) (h : ElementsIn xs ys) (h' : ElementsIn ys zs) :
    ElementsIn xs zs := by
  intro x hx
  obtain ⟨y, hy, hxy⟩ := h x hx
  obtain ⟨z, hz, hyz⟩ := h' y hy
  exact ⟨z, hz, hcs.trans x (hxs x hx) y (hys y hy) z (hzs z hz) hxy hyz⟩

/-- Equal keys find the same entry. -/
theorem find_congr (hcs : Settled cs) {k k' : Datum} (hk : k ∈ cs) (hk' : k' ∈ cs) (h : Equal k k')
    {qs : List (Datum × Datum)} (hqs : ∀ q ∈ qs, q.1 ∈ cs) :
    qs.find? (fun q => valuesEqual k q.1 == some true) = qs.find? (fun q => valuesEqual k' q.1 == some true) := by
  refine List.find?_congr fun q hq => ?_
  have hiff : Equal k q.1 ↔ Equal k' q.1 :=
    ⟨hcs.trans k' hk' k hk q.1 (hqs q hq) (hcs.symm k hk k' hk' h), hcs.trans k hk k' hk' q.1 (hqs q hq) h⟩
  rw [Bool.eq_iff_iff, beq_iff_eq, beq_iff_eq]
  exact hiff

theorem pairsIn_trans (hcs : Settled cs) {ps qs rs : List (Datum × Datum)} (hps : ∀ p ∈ ps, p.1 ∈ cs ∧ p.2 ∈ cs)
    (hqs : ∀ q ∈ qs, q.1 ∈ cs ∧ q.2 ∈ cs) (hrs : ∀ r ∈ rs, r.1 ∈ cs ∧ r.2 ∈ cs) (h : PairsIn ps qs)
    (h' : PairsIn qs rs) : PairsIn ps rs := by
  intro p hp
  obtain ⟨q, hq, hpq⟩ := h p hp
  obtain ⟨hqm, hkey⟩ := key_of_find hq
  obtain ⟨r, hr, hqr⟩ := h' q hqm
  have hrm := (key_of_find hr).1
  refine ⟨r, ?_, hcs.trans p.2 (hps p hp).2 q.2 (hqs q hqm).2 r.2 (hrs r hrm).2 hpq hqr⟩
  rw [find_congr hcs (hps p hp).1 (hqs q hqm).1 hkey fun r hr => (hrs r hr).1]
  exact hr

/-! ### Symmetry and transitivity -/

theorem alike_symm (hcs : Settled cs) {x y : Datum} (hx : ∀ c ∈ x.parts, c ∈ cs) (hy : ∀ c ∈ y.parts, c ∈ cs)
    (hkeys : ∀ r es, y = .obj r es → (keys es).Nodup) (hc : Comparable x y) (hxy : Alike x y) : Alike y x := by
  cases x with
  | prim p => exact hxy.elim
  | date r t => cases y <;> first | exact hxy.elim | exact hxy.symm
  | bytes r bs => cases y <;> first | exact hxy.elim | exact hxy.symm
  | arr r xs => cases y <;> first | exact hxy.elim | exact forall₂_symm hcs hx hy hxy
  | obj r es =>
    cases y with
    | obj s fs =>
      exact sameEntries_symm hcs (fun e he => hx e.2 (List.mem_map_of_mem he))
        (fun e he => hy e.2 (List.mem_map_of_mem he)) (hkeys s fs rfl) hxy
    | _ => exact hxy.elim
  | map r generic ps =>
    cases y with
    | map s generic' qs =>
      obtain ⟨hg, hlen, hin⟩ := hxy
      refine ⟨hg.symm, hlen.symm, ?_⟩
      by_cases hrep : Repeats (ps.map Prod.fst)
      · exact hc hg hlen hrep hin
      · refine pairsIn_symm hcs (fun p hp => ⟨hx _ ?_, hx _ ?_⟩) (fun q hq => ⟨hy _ ?_, hy _ ?_⟩) hlen hrep hin
        · exact List.mem_append_left _ (List.mem_map_of_mem hp)
        · exact List.mem_append_right _ (List.mem_map_of_mem hp)
        · exact List.mem_append_left _ (List.mem_map_of_mem hq)
        · exact List.mem_append_right _ (List.mem_map_of_mem hq)
    | _ => exact hxy.elim
  | set r generic xs =>
    cases y with
    | set s generic' ys =>
      obtain ⟨hg, hlen, hin⟩ := hxy
      refine ⟨hg.symm, hlen.symm, ?_⟩
      by_cases hrep : Repeats xs
      · exact hc hg hlen hrep hin
      · exact elementsIn_symm hcs hx hy hlen hrep hin
    | _ => exact hxy.elim

theorem alike_trans (hcs : Settled cs) {x y z : Datum} (hx : ∀ c ∈ x.parts, c ∈ cs) (hy : ∀ c ∈ y.parts, c ∈ cs)
    (hz : ∀ c ∈ z.parts, c ∈ cs) (hxy : Alike x y) (hyz : Alike y z) : Alike x z := by
  cases x with
  | prim p => exact hxy.elim
  | date r t =>
    cases y with
    | date s t' => cases z <;> first | exact hyz.elim | exact hxy.trans hyz
    | _ => exact hxy.elim
  | bytes r bs =>
    cases y with
    | bytes s cs => cases z <;> first | exact hyz.elim | exact hxy.trans hyz
    | _ => exact hxy.elim
  | arr r xs =>
    cases y with
    | arr s ys => cases z <;> first | exact hyz.elim | exact forall₂_trans hcs hx hy hz hxy hyz
    | _ => exact hxy.elim
  | obj r es =>
    cases y with
    | obj s fs =>
      cases z with
      | obj t gs =>
        exact sameEntries_trans hcs (fun e he => hx e.2 (List.mem_map_of_mem he))
          (fun e he => hy e.2 (List.mem_map_of_mem he)) (fun e he => hz e.2 (List.mem_map_of_mem he)) hxy hyz
      | _ => exact hyz.elim
    | _ => exact hxy.elim
  | map r generic ps =>
    cases y with
    | map s generic' qs =>
      cases z with
      | map t generic'' rs =>
        refine ⟨hxy.1.trans hyz.1, hxy.2.1.trans hyz.2.1, ?_⟩
        refine pairsIn_trans hcs (fun p hp => ⟨hx _ ?_, hx _ ?_⟩) (fun q hq => ⟨hy _ ?_, hy _ ?_⟩)
          (fun q hq => ⟨hz _ ?_, hz _ ?_⟩) hxy.2.2 hyz.2.2
        · exact List.mem_append_left _ (List.mem_map_of_mem hp)
        · exact List.mem_append_right _ (List.mem_map_of_mem hp)
        · exact List.mem_append_left _ (List.mem_map_of_mem hq)
        · exact List.mem_append_right _ (List.mem_map_of_mem hq)
        · exact List.mem_append_left _ (List.mem_map_of_mem hq)
        · exact List.mem_append_right _ (List.mem_map_of_mem hq)
      | _ => exact hyz.elim
    | _ => exact hxy.elim
  | set r generic xs =>
    cases y with
    | set s generic' ys =>
      cases z with
      | set t generic'' zs =>
        exact ⟨hxy.1.trans hyz.1, hxy.2.1.trans hyz.2.1, elementsIn_trans hcs hx hy hz hxy.2.2 hyz.2.2⟩
      | _ => exact hyz.elim
    | _ => exact hxy.elim

theorem eq_of_equal_prim {x y : Datum} (hr : x.ref = none ∨ y.ref = none) (h : Equal x y) : x = y := by
  have hid := (equal_prim hr).mp h
  cases x with
  | prim p =>
    cases y with
    | prim q =>
      have hpq : samePrimitive p q = true := hid
      cases p <;> cases q <;> simp_all [samePrimitive]
      next a b => cases a <;> cases b <;> simp_all [Number.eq]
    | _ => cases hid
  | _ => cases y <;> simp_all [identical, ref]

/-- Equal values of a heap are one, or distinct objects that are alike. -/
theorem equal_cases (hc : h.AllComparable) {x y : Datum} (hx : x ∈ h.carrier) (hy : y ∈ h.carrier)
    (hxy : Equal x y) :
    x = y ∨ x.ref ≠ none ∧ y.ref ≠ none ∧ x.ref ≠ y.ref ∧ Alike x y := by
  by_cases hprim : x.ref = none ∨ y.ref = none
  · exact .inl (eq_of_equal_prim hprim hxy)
  obtain ⟨hxr, hyr⟩ := not_or.mp hprim
  by_cases href : x.ref = y.ref
  · exact .inl (h.shared x hx y hy hxr href)
  · exact .inr ⟨hxr, hyr, href, (equal_iff_alike hc hx hy hxr hyr href).mp hxy⟩

/-- By induction on a bound for the sizes: what holds of the parts holds of the values. -/
theorem settled_below (hc : h.AllComparable) : ∀ n, Settled {x | x ∈ h.carrier ∧ sizeOf x < n}
  | 0 => ⟨fun _ hx => absurd hx.2 (Nat.not_lt_zero _), fun _ hx => absurd hx.2 (Nat.not_lt_zero _)⟩
  | n + 1 => by
    have ih := settled_below hc n
    have hparts : ∀ x, x ∈ h.carrier ∧ sizeOf x < n + 1 → ∀ c ∈ x.parts, c ∈ h.carrier ∧ sizeOf c < n :=
      fun x hx c hcx => ⟨h.closed x hx.1 c hcx, (sizeOf_lt_of_part hcx).trans_le (Nat.le_of_lt_succ hx.2)⟩
    constructor
    · intro x hx y hy hxy
      obtain rfl | ⟨hxr, hyr, hne, halike⟩ := equal_cases hc hx.1 hy.1 hxy
      · exact hxy
      refine (equal_iff_alike hc hy.1 hx.1 hyr hxr hne.symm).mpr ?_
      exact alike_symm ih (hparts x hx) (hparts y hy) (fun r es he => h.keysNodup r es (he ▸ hy.1))
        (hc x hx.1 y hy.1 hxr hyr hne) halike
    · intro x hx y hy z hz hxy hyz
      obtain rfl | ⟨hxr, hyr, hne, halike⟩ := equal_cases hc hx.1 hy.1 hxy
      · exact hyz
      obtain rfl | ⟨-, hzr, hne', halike'⟩ := equal_cases hc hy.1 hz.1 hyz
      · exact hxy
      by_cases hxz : x.ref = z.ref
      · obtain rfl := h.shared x hx.1 z hz.1 hxr hxz
        exact equal_self hxr
      · refine (equal_iff_alike hc hx.1 hz.1 hxr hzr hxz).mpr ?_
        exact alike_trans ih (hparts x hx) (hparts y hy) (hparts z hz) halike halike'

theorem settled (hc : h.AllComparable) : Settled h.carrier where
  symm x hx y hy := (settled_below hc (max (sizeOf x) (sizeOf y) + 1)).symm x ⟨hx, by omega⟩ y ⟨hy, by omega⟩
  trans x hx y hy z hz :=
    (settled_below hc (max (sizeOf x) (max (sizeOf y) (sizeOf z)) + 1)).trans x ⟨hx, by omega⟩ y ⟨hy, by omega⟩ z
      ⟨hz, by omega⟩

theorem equal_refl {x : Datum} (hx : x ∈ h.carrier) : Equal x x := by
  cases x with
  | prim p =>
    refine (equal_prim (.inl rfl)).mpr ?_
    cases p with
    | num n =>
      cases n with
      | nan => exact absurd hx h.noNaN
      | _ => simp [identical, samePrimitive, Number.eq]
    | _ => simp [identical, samePrimitive]
  | _ => exact equal_self (Option.some_ne_none _)

theorem matches_of_comparable (hc : h.AllComparable) : h.MatchesStructure where
  answers x hx y hy := answers_of_comparable hc hx hy
  refl x hx := equal_refl hx
  symm := (settled hc).symm
  trans := (settled hc).trans
  objects r es s fs hx hy := by
    by_cases href : r = s
    · obtain ⟨-, rfl⟩ := obj.inj (h.shared _ hx _ hy (Option.some_ne_none r) (congrArg some href))
      subst href
      refine iff_of_true (equal_refl hx)
        ⟨fun k v hv => ⟨v, lookup_of_mem (h.keysNodup r es hx) hv, ?_⟩, fun k hk => hk⟩
      exact equal_refl (h.closed _ hx v (List.mem_map_of_mem hv))
    · exact equal_iff_alike hc hx hy (Option.some_ne_none r) (Option.some_ne_none s) fun h =>
        href (Option.some.inj h)

/-! ### What an equivalence needs -/

/-- An answer that is not cut short comes from the comparison behind the names. -/
theorem compared_named {x y : Datum} {equals : Option Bool} (hx : x.ref ≠ none) (hy : y.ref ≠ none)
    (hne : x.ref ≠ y.ref) :
    (sameName x y = none → compared x y equals = none) ∧
      (sameName x y = some false → compared x y equals = some false) ∧
      (sameName x y = some true → compared x y equals = equals) := by
  have hid : identical x y = false := by
    cases x <;> cases y <;> simp_all [identical, ref]
  rw [compared, hid, if_neg Bool.false_ne_true, if_neg hy]
  refine ⟨?_, ?_, ?_⟩ <;> intro hn <;> rw [hn]

theorem sameName_of_answers {x y : Datum} (hx : x.ref ≠ none) (hy : y.ref ≠ none) (hne : x.ref ≠ y.ref)
    (h : Answers x y) : sameName x y ≠ none := by
  intro hn
  obtain ⟨equals, ho⟩ := valuesEqual_object hx y
  obtain ⟨b, hb⟩ := h
  rw [ho, (compared_named hx hy hne).1 hn] at hb
  cases hb

/-- Two string-keyed objects that are compared as asked are comparable. -/
theorem comparable_objects {r s : ℕ} {es fs : List (String × Datum)} (hne : (obj r es).ref ≠ (obj s fs).ref)
    (hanswers : Answers (.obj r es) (.obj s fs)) (hparts : PartsAnswer (.obj r es) (.obj s fs))
    (hiff : Equal (.obj r es) (.obj s fs) ↔ SameEntries es fs) : Comparable (.obj r es) (.obj s fs) := by
  have hr : (obj r es).ref ≠ none := Option.some_ne_none r
  have hs : (obj s fs).ref ≠ none := Option.some_ne_none s
  have hname := sameName_of_answers hr hs hne hanswers
  obtain ⟨b, hb⟩ := Option.ne_none_iff_exists'.mp hname
  obtain ⟨-, hfalse, htrue⟩ :=
    @compared_named _ _ (if "equals" ∈ keys es then none else entriesEqual es fs) hr hs hne
  have hvalues : valuesEqual (.obj r es) (.obj s fs) =
      compared (.obj r es) (.obj s fs) (if "equals" ∈ keys es then none else entriesEqual es fs) := by
    rw [valuesEqual]
  cases b with
  | false =>
    refine .inl ⟨hb, fun hsame => ?_⟩
    have := hiff.mpr hsame
    rw [Equal, hvalues, hfalse hb] at this
    cases this
  | true =>
    rw [htrue hb] at hvalues
    obtain ⟨c, hanswer⟩ := hanswers
    have hequals : "equals" ∉ keys es := by
      intro hown
      rw [hvalues, if_pos hown] at hanswer
      cases hanswer
    rw [if_neg hequals] at hvalues
    have hown : es ≠ [] → "hasOwnProperty" ∉ keys fs := by
      intro hnil hown
      obtain ⟨⟨k, v⟩, rest, rfl⟩ := List.exists_cons_of_ne_nil hnil
      rw [hvalues, entriesEqual, if_pos hown] at hanswer
      cases hanswer
    refine .inr ⟨hb, hequals, hown, fun hwithin => (hiff.mp ?_).2⟩
    have hd := entriesEqual_decides hown fun e he k w hw =>
      hparts e.2 (List.mem_map_of_mem he) w (List.mem_map_of_mem (mem_of_lookup hw))
    rw [Equal, hvalues]
    exact hd.iff.mpr hwithin

theorem comparable_of_matches (hm : h.MatchesStructure) : h.AllComparable := by
  intro x hx y hy hxr hyr hne
  have hanswers : Answers x y := hm.answers x hx y hy
  have hname := sameName_of_answers hxr hyr hne hanswers
  have hparts : PartsAnswer x y := fun c hc d hd => hm.answers c (h.closed x hx c hc) d (h.closed y hy d hd)
  have hparts' : PartsAnswer y x := fun c hc d hd => hm.answers c (h.closed y hy c hc) d (h.closed x hx d hd)
  obtain ⟨b, hb⟩ := Option.ne_none_iff_exists'.mp hname
  cases x with
  | prim p => exact absurd rfl hxr
  | date r t =>
    cases y with
    | obj s fs =>
      cases b with
      | false => exact .inl hb
      | true =>
        refine .inr ⟨hb, ?_⟩
        by_contra hown
        obtain ⟨c, hc⟩ := hanswers
        rw [valuesEqual.eq_def] at hc
        simp only [(compared_named hxr hyr hne).2.2 hb, hown, if_false, reduceCtorEq] at hc
    | _ => exact hname
  | bytes r bs => cases y <;> exact hname
  | arr r xs => cases y <;> exact hname
  | obj r es =>
    cases y with
    | obj s fs => exact comparable_objects hne hanswers hparts (hm.objects r es s fs hx hy)
    | prim p => exact absurd rfl hyr
    | _ =>
      cases b with
      | false => exact .inl hb
      | true =>
        refine .inr ⟨hb, fun hown => ?_⟩
        obtain ⟨c, hc⟩ := hanswers
        rw [valuesEqual.eq_def] at hc
        simp only [(compared_named hxr hyr hne).2.2 hb, hown, if_true, reduceCtorEq] at hc
  | map r generic ps =>
    cases y with
    | map s generic' qs =>
      intro hg hlen _ hin
      have hxy := (map_decides hne hparts).iff.mpr ⟨hg, hlen, hin⟩
      exact ((map_decides hne.symm hparts').iff.mp (hm.symm _ hx _ hy hxy)).2.2
    | _ => exact hname
  | set r generic xs =>
    cases y with
    | set s generic' ys =>
      intro hg hlen _ hin
      have hxy := (set_decides hne hparts).iff.mpr ⟨hg, hlen, hin⟩
      exact ((set_decides hne.symm hparts').iff.mp (hm.symm _ hx _ hy hxy)).2.2
    | _ => exact hname

/-- CODE DEFECT (equality of values): on the values of a heap `valuesEqual` answers, is an equivalence and
    matches the structure of objects just when any two distinct objects are comparable. -/
theorem matchesStructure_iff (h : Heap) : h.MatchesStructure ↔ h.AllComparable :=
  ⟨comparable_of_matches, matches_of_comparable⟩

/-! ### An object and one with a key more -/

/-- The objects `{}` and `{a: null}`. -/
def emptyAndMore : Heap where
  carrier := {x | x = .obj 0 [] ∨ x = .obj 1 [("a", .prim .null)] ∨ x = .prim .null}
  closed := by
    rintro x (rfl | rfl | rfl) c hc <;> simp_all [parts]
  shared := by
    rintro x (rfl | rfl | rfl) y (rfl | rfl | rfl) <;> simp [ref]
  keysNodup := by
    rintro r es (h | h | h) <;> simp_all [keys]
  noNaN := by simp

/-- The empty object equals the other, and not the other way round. -/
theorem emptyAndMore_not_matches : ¬ emptyAndMore.MatchesStructure := by
  intro hm
  have hback := hm.symm (.obj 0 []) (.inl rfl) (.obj 1 [("a", .prim .null)]) (.inr (.inl rfl)) (by rfl)
  rw [Equal] at hback
  revert hback
  decide

end Universa.Js.Datum
