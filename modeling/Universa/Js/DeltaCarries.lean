import Universa.Js.DeltaSees

/-! When the tree of `Delta.between` carries the change: the old value with the nodes of the tree
    applied to it is deeply equal to the new value, and every node has the old value of its place.

    A created item is built as `new CreatedItem(this, value)`, so the value is its `oldValue` and it has
    no `newValue`; the other nodes have both in place. -/

namespace Universa.Js

/-! ### Values whose objects have no key twice -/

mutual
/-- No object of the value has a key twice. -/
def Distinct : Value → Prop
  | .arr xs => DistinctItems xs
  | .obj es => (keys es).Nodup ∧ DistinctEntries es
  | _ => True

def DistinctItems : List Value → Prop
  | [] => True
  | x :: xs => Distinct x ∧ DistinctItems xs

def DistinctEntries : List (String × Value) → Prop
  | [] => True
  | (_, v) :: es => Distinct v ∧ DistinctEntries es
end

/-- A plain value: its objects are maps. -/
structure Plain where
  value : Value
  distinct : Distinct value

/-! ### Applying a tree -/

/-- The values that created items bring into an object. -/
def addedEntries : List (String × Delta) → List (String × Value)
  | [] => []
  | (k, .created _ n) :: cs => (k, n) :: addedEntries cs
  | _ :: cs => addedEntries cs

/-- The values that created items bring into an array. -/
def addedItems : List (ℕ × Delta) → List Value
  | [] => []
  | (_, .created _ n) :: cs => n :: addedItems cs
  | _ :: cs => addedItems cs

mutual
/-- What a node makes of the value at its place; none where it drops the value. -/
def applyTo : Value → Delta → Option Value
  | _, .changed _ n | _, .created _ n => some n
  | _, .removed _ _ => none
  | .obj es, .map _ _ cs => some (.obj (applyEntries es cs ++ addedEntries cs))
  | .arr xs, .list _ _ cs => some (.arr (applyItems 0 xs cs ++ addedItems cs))
  | x, _ => some x
termination_by structural x => x

/-- The old elements after the nodes of a `ListDelta`. -/
def applyItems : ℕ → List Value → List (ℕ × Delta) → List Value
  | _, [], _ => []
  | i, x :: xs, cs =>
      match cs.lookup i with
      | none => x :: applyItems (i + 1) xs cs
      | some d => (applyTo x d).toList ++ applyItems (i + 1) xs cs
termination_by structural _ x => x

/-- The old entries after the nodes of a `MapDelta`. -/
def applyEntries : List (String × Value) → List (String × Delta) → List (String × Value)
  | [], _ => []
  | (k, v) :: es, cs =>
      match cs.lookup k with
      | none => (k, v) :: applyEntries es cs
      | some d => ((applyTo v d).toList.map fun w => (k, w)) ++ applyEntries es cs
termination_by structural x => x
end

/-- The value that the answer of `between` makes of the old one; a whole value is not dropped. -/
def applyDelta (r : Option Delta) (x : Value) : Value :=
  match r with
  | none => x
  | some d => (applyTo x d).getD .null

/-! ### The old values of a tree -/

/-- The value at a key. -/
def entryOf : Option Value → String → Option Value
  | some (.obj es), k => es.lookup k
  | _, _ => none

/-- The value at an index. -/
def itemOf : Option Value → ℕ → Option Value
  | some (.arr xs), i => xs[i]?
  | _, _ => none

mutual
/-- Every node of the tree has the value at its place as `oldValue`; a created item has none. -/
def OldFits : Option Value → Delta → Prop
  | v, .changed o _ | v, .removed o _ => v = some o
  | v, .created o _ => v = none ∧ o = .null
  | v, .map o _ cs => v = some o ∧ OldFitsEntries v cs
  | v, .list o _ cs => v = some o ∧ OldFitsItems v cs
termination_by structural _ d => d

def OldFitsEntries : Option Value → List (String × Delta) → Prop
  | _, [] => True
  | v, (k, d) :: cs => OldFits (entryOf v k) d ∧ OldFitsEntries v cs
termination_by structural _ cs => cs

def OldFitsItems : Option Value → List (ℕ × Delta) → Prop
  | _, [] => True
  | v, (i, d) :: cs => OldFits (itemOf v i) d ∧ OldFitsItems v cs
termination_by structural _ cs => cs
end

/-- The answer of `between` carries the change from `x` to `y`. -/
def Carries (x y : Value) (r : Option Delta) : Prop :=
  Same (applyDelta r x) y ∧ ∀ d, r = some d → OldFits (some x) d

/-! ### What the tree can carry -/

mutual
/-- Nothing but null is created, and skipped keys are equal, at the places the tree reaches; a value
    taken as a whole from the new one is equal to itself, so holds no `NaN`. -/
def Carried : Value → Value → Prop
  | .null, y => Same y y
  | _, .null => True
  | .arr xs, .arr ys => CarriedItems xs ys
  | .obj es, .obj fs =>
      CarriedEntries es fs ∧ ∀ p ∈ fs, p.1 ∉ keys es → skipped p.1 = false ∧ p.2 = .null
  | _, y => Same y y
termination_by structural x => x

/-- `Carried` of the common elements of two arrays; further new ones are null. -/
def CarriedItems : List Value → List Value → Prop
  | [], ys => ∀ y ∈ ys, y = .null
  | _ :: _, [] => True
  | x :: xs, y :: ys => Carried x y ∧ CarriedItems xs ys
termination_by structural x => x

/-- `Carried` of the common entries of two objects, equality at a skipped key. -/
def CarriedEntries : List (String × Value) → List (String × Value) → Prop
  | [], _ => True
  | (k, v) :: es, fs =>
      (if skipped k then ∃ w, fs.lookup k = some w ∧ Same v w
        else ∀ w, fs.lookup k = some w → Carried v w) ∧ CarriedEntries es fs
termination_by structural x => x
end

/-! ### The nodes of a tree -/

/-- The answer of `between` is neither a created nor a removed item. -/
theorem between_kind {x y : Value} {d : Delta} (h : between x y = some (some d)) :
    (∀ o n, d ≠ .created o n) ∧ ∃ w, applyTo x d = some w := by
  have hleaf (h : leafBetween x y = some (some d)) :
      (∀ o n, d ≠ .created o n) ∧ ∃ w, applyTo x d = some w := by
    obtain rfl := leafBetween_values h
    exact ⟨by simp, y, by cases x <;> rfl⟩
  cases x with
  | null =>
      cases y with
      | null => simp [between] at h
      | _ => obtain rfl := Option.some.inj (Option.some.inj h); exact ⟨by simp, _, rfl⟩
  | arr xs =>
      cases y with
      | null => obtain rfl := Option.some.inj (Option.some.inj h); exact ⟨by simp, _, rfl⟩
      | arr ys =>
          simp only [between, Option.bind_eq_bind, Option.bind_eq_some_iff] at h
          obtain ⟨changes, -, h⟩ := h
          cases changes with
          | nil => simp at h
          | cons c cs => obtain rfl := Option.some.inj (Option.some.inj h); exact ⟨by simp, _, rfl⟩
      | _ => exact hleaf h
  | obj es =>
      cases y with
      | null => obtain rfl := Option.some.inj (Option.some.inj h); exact ⟨by simp, _, rfl⟩
      | obj fs =>
          simp only [between, Option.bind_eq_bind, Option.bind_eq_some_iff] at h
          obtain ⟨changes, -, created, -, h⟩ := h
          cases hall : changes ++ created with
          | nil => simp [hall] at h
          | cons c cs =>
              rw [hall] at h
              obtain rfl := Option.some.inj (Option.some.inj h)
              exact ⟨by simp, _, rfl⟩
      | _ => exact hleaf h
  | _ =>
      cases y with
      | null => obtain rfl := Option.some.inj (Option.some.inj h); exact ⟨by simp, _, rfl⟩
      | _ => exact hleaf h

theorem addedEntries_cons {k : String} {d : Delta} {cs : List (String × Delta)}
    (h : ∀ o n, d ≠ .created o n) : addedEntries ((k, d) :: cs) = addedEntries cs := by
  cases d with
  | created o n => exact absurd rfl (h o n)
  | _ => rfl

theorem addedItems_cons {i : ℕ} {d : Delta} {cs : List (ℕ × Delta)}
    (h : ∀ o n, d ≠ .created o n) : addedItems ((i, d) :: cs) = addedItems cs := by
  cases d with
  | created o n => exact absurd rfl (h o n)
  | _ => rfl

theorem addedEntries_append : ∀ (cs ds : List (String × Delta)),
    addedEntries (cs ++ ds) = addedEntries cs ++ addedEntries ds
  | [], ds => rfl
  | (k, d) :: cs, ds => by
      have hih := addedEntries_append cs ds
      cases d <;> simp [addedEntries, hih]

theorem mapChanges_added {fs : List (String × Value)} : ∀ {es : List (String × Value)}
    {cs : List (String × Delta)}, mapChanges es fs = some cs → addedEntries cs = []
  | [], cs, h => by obtain rfl := Option.some.inj h; rfl
  | (k, v) :: es, cs, h => by
      obtain ⟨r, rest, hnode, hc, rfl⟩ := mapChanges_cons h
      have hih := mapChanges_added hc
      cases hnode with
      | skipped => exact hih
      | removed => exact hih
      | between hs hw hb =>
          cases r with
          | none => exact hih
          | some d => exact (addedEntries_cons (between_kind hb).1).trans hih

/-- The created items are those of the new keys that are not skipped. -/
theorem newKeys_added {es : List (String × Value)} : ∀ {fs : List (String × Value)}
    {cs : List (String × Delta)}, newKeys es fs = some cs → ∀ p, p ∈ addedEntries cs ↔
      p.2 = .null ∧ p.1 ∈ keys fs ∧ p.1 ∉ keys es ∧ skipped p.1 = false
  | [], cs, h, p => by
      obtain rfl := Option.some.inj h
      simp [addedEntries, keys]
  | (k, v) :: fs, cs, h, p => by
      obtain ⟨rest, hrest, rfl⟩ := newKeys_cons h
      have hih := newKeys_added hrest p
      have hcons : keys ((k, v) :: fs) = k :: keys fs := rfl
      rw [hcons, List.mem_cons]
      by_cases hin : skipped k = true ∨ k ∈ keys es
      · rw [if_pos hin, withNode, hih]
        constructor
        · rintro ⟨h₁, h₂, h₃⟩
          exact ⟨h₁, .inr h₂, h₃⟩
        · rintro ⟨h₁, rfl | h₂, h₃, h₄⟩
          · rcases hin with hin | hin
            · rw [h₄] at hin; cases hin
            · exact absurd hin h₃
          · exact ⟨h₁, h₂, h₃, h₄⟩
      · rw [if_neg hin, withNode, addedEntries, List.mem_cons, hih]
        rw [not_or, Bool.not_eq_true] at hin
        obtain ⟨q, w⟩ := p
        constructor
        · rintro (heq | ⟨h₁, h₂, h₃⟩)
          · obtain ⟨rfl, rfl⟩ := Prod.mk.inj heq
            exact ⟨rfl, .inl rfl, hin.2, hin.1⟩
          · exact ⟨h₁, .inr h₂, h₃⟩
        · rintro ⟨rfl, rfl | h₂, h₃⟩
          · exact .inl rfl
          · exact .inr ⟨rfl, h₂, h₃⟩

theorem newKeys_fits {es : List (String × Value)} : ∀ {fs : List (String × Value)}
    {cs : List (String × Delta)}, newKeys es fs = some cs →
    (OldFitsEntries (some (.obj es)) cs ↔
      ∀ p ∈ fs, p.1 ∉ keys es → skipped p.1 = false → p.2 = .null)
  | [], cs, h => by
      obtain rfl := Option.some.inj h
      simp [OldFitsEntries]
  | (k, v) :: fs, cs, h => by
      obtain ⟨rest, hrest, rfl⟩ := newKeys_cons h
      rw [List.forall_mem_cons, ← newKeys_fits hrest]
      by_cases hin : skipped k = true ∨ k ∈ keys es
      · rw [if_pos hin, withNode, iff_and_self]
        intro _ hk hs
        rcases hin with hin | hin
        · rw [hs] at hin; cases hin
        · exact absurd hin hk
      · rw [if_neg hin, withNode, OldFitsEntries, OldFits]
        rw [not_or, Bool.not_eq_true] at hin
        simp [hin, entryOf, not_mem_keys hin.2]

theorem oldFitsEntries_append {v : Option Value} : ∀ (cs ds : List (String × Delta)),
    OldFitsEntries v (cs ++ ds) ↔ OldFitsEntries v cs ∧ OldFitsEntries v ds
  | [], ds => by simp [OldFitsEntries]
  | (k, d) :: cs, ds => by
      rw [List.cons_append, OldFitsEntries, OldFitsEntries, oldFitsEntries_append cs ds, and_assoc]

theorem sameEntries_append {fs : List (String × Value)} (es ds : List (String × Value)) :
    SameEntries (es ++ ds) fs ↔ SameEntries es fs ∧ SameEntries ds fs := by
  induction es with
  | nil => simp [SameEntries]
  | cons entry es ih => rw [List.cons_append, SameEntries, SameEntries, ih, and_assoc]

theorem sameEntries_iff {fs : List (String × Value)} : ∀ (es : List (String × Value)),
    SameEntries es fs ↔ ∀ p ∈ es, ∃ w, fs.lookup p.1 = some w ∧ Same p.2 w
  | [] => by simp [SameEntries]
  | (k, v) :: es => by
      rw [SameEntries, sameEntries_iff es, List.forall_mem_cons]

/-! ### The keys that stay -/

theorem applyEntries_nil : ∀ (es : List (String × Value)), applyEntries es [] = es
  | [] => by simp [applyEntries]
  | (k, v) :: es => by
      rw [applyEntries, applyEntries_nil es]
      rfl

theorem applyItems_nil : ∀ (i : ℕ) (xs : List Value), applyItems i xs [] = xs
  | _, [] => by simp [applyItems]
  | i, x :: xs => by
      rw [applyItems, applyItems_nil (i + 1) xs]
      rfl

theorem applyEntries_keys {all : List (String × Delta)} {k : String} :
    ∀ {es : List (String × Value)}, k ∈ keys (applyEntries es all) → k ∈ keys es
  | [], h => by simp [applyEntries, keys] at h
  | (k', v) :: es, h => by
      have hcons : keys ((k', v) :: es) = k' :: keys es := rfl
      rw [hcons, List.mem_cons]
      rw [applyEntries] at h
      split at h
      · rw [keys, List.map_cons, List.mem_cons] at h
        exact h.imp_right applyEntries_keys
      · rw [keys, List.map_append, List.mem_append] at h
        refine h.imp (fun hk => ?_) applyEntries_keys
        simp only [List.map_map, List.mem_map] at hk
        obtain ⟨w, -, rfl⟩ := hk
        rfl

/-- `mapChanges_cons` for a list of nodes that agrees with the tree at the keys of the old object. -/
theorem mapChanges_nodes {fs es : List (String × Value)} {all cs : List (String × Delta)} {k : String}
    {v : Value} (hnodup : (keys ((k, v) :: es)).Nodup)
    (hall : ∀ j ∈ keys ((k, v) :: es), all.lookup j = cs.lookup j)
    (h : mapChanges ((k, v) :: es) fs = some cs) : ∃ r rest, NodeOf fs k v r ∧
    mapChanges es fs = some rest ∧ cs = withNode k r rest ∧ all.lookup k = r ∧
    ∀ j ∈ keys es, all.lookup j = rest.lookup j := by
  obtain ⟨r, rest, hnode, hc, rfl⟩ := mapChanges_cons h
  obtain ⟨hnew, hnodup⟩ := List.nodup_cons.mp hnodup
  refine ⟨r, rest, hnode, hc, rfl, ?_, fun j hj => ?_⟩
  · rw [hall k (List.mem_cons_self ..), lookup_withNode_self (mapChanges_new hnew hc)]
  · have hne : j ≠ k := fun heq => hnew (heq ▸ hj)
    rw [hall j (List.mem_cons_of_mem _ hj), lookup_withNode_ne hne]

/-- A key of both objects stays. -/
theorem applyEntries_stays {fs : List (String × Value)} {all : List (String × Delta)} {k : String} :
    ∀ {es : List (String × Value)} {cs : List (String × Delta)}, (keys es).Nodup →
    (∀ j ∈ keys es, all.lookup j = cs.lookup j) → mapChanges es fs = some cs →
    k ∈ keys es → k ∈ keys fs → k ∈ keys (applyEntries es all)
  | (k', v) :: es, cs, hnodup, hall, h, hk, hkf => by
      obtain ⟨r, rest, hnode, hc, -, hhead, hrest⟩ := mapChanges_nodes hnodup hall h
      rw [applyEntries, hhead]
      rcases List.mem_cons.mp hk with rfl | hk
      · cases hnode with
        | skipped => simp [keys]
        | removed hs hw =>
            obtain ⟨w, hw'⟩ := mem_keys_iff.mp hkf
            rw [hw] at hw'
            cases hw'
        | between hs hw hb =>
            cases r with
            | none => simp [keys]
            | some d =>
                obtain ⟨u, hu⟩ := (between_kind hb).2
                simp [keys, hu]
      · have hih := applyEntries_stays (List.nodup_cons.mp hnodup).2 hrest hc hk hkf
        cases r with
        | none => exact List.mem_cons_of_mem _ hih
        | some d => simpa [keys] using .inr (by simpa [keys] using hih)

theorem newItems_lookup : ∀ {i j : ℕ} {ys : List Value}, j < i → (newItems i ys).lookup j = none
  | _, _, [], _ => rfl
  | i, j, y :: ys, h => by
      rw [newItems, List.lookup_cons, beq_false_of_ne (Nat.ne_of_lt h)]
      exact newItems_lookup (Nat.lt_succ_of_lt h)

/-- The nodes of the elements from `i` on have indices from `i` on. -/
theorem listChanges_lookup : ∀ {i j : ℕ} {xs ys : List Value} {cs : List (ℕ × Delta)}, j < i →
    listChanges i xs ys = some cs → cs.lookup j = none
  | i, j, [], ys, cs, hj, h => by
      obtain rfl := Option.some.inj h
      exact newItems_lookup hj
  | i, j, x :: xs, [], cs, hj, h => by
      simp only [listChanges, Option.bind_eq_bind, Option.bind_eq_some_iff] at h
      obtain ⟨rest, hrest, h⟩ := h
      obtain rfl := Option.some.inj h
      rw [List.lookup_cons, beq_false_of_ne (Nat.ne_of_lt hj)]
      exact listChanges_lookup (Nat.lt_succ_of_lt hj) hrest
  | i, j, x :: xs, y :: ys, cs, hj, h => by
      simp only [listChanges, Option.bind_eq_bind, Option.bind_eq_some_iff] at h
      obtain ⟨r, -, h⟩ := h
      cases r with
      | none => exact listChanges_lookup (Nat.lt_succ_of_lt hj) h
      | some d =>
          simp only [Option.bind_eq_some_iff] at h
          obtain ⟨rest, hrest, h⟩ := h
          obtain rfl := Option.some.inj h
          rw [List.lookup_cons, beq_false_of_ne (Nat.ne_of_lt hj)]
          exact listChanges_lookup (Nat.lt_succ_of_lt hj) hrest

theorem item_tail {i : ℕ} {x : Value} {full xs : List Value} (h : ∀ j, full[i + j]? = (x :: xs)[j]?)
    (j : ℕ) : full[i + 1 + j]? = xs[j]? := by
  rw [Nat.add_assoc, Nat.add_comm 1 j, h (j + 1), List.getElem?_cons_succ]

theorem node_tail {i : ℕ} {d : Delta} {all rest : List (ℕ × Delta)}
    (h : ∀ j, i ≤ j → all.lookup j = ((i, d) :: rest).lookup j) (j : ℕ) (hj : i + 1 ≤ j) :
    all.lookup j = rest.lookup j := by
  rw [h j (Nat.le_of_succ_le hj), List.lookup_cons, beq_false_of_ne (Nat.ne_of_gt hj)]

theorem newItems_carries {full : List Value} : ∀ {i : ℕ} {ys zs : List Value}, full.length ≤ i →
    (SameItems (addedItems (newItems i ys)) zs ∧ OldFitsItems (some (.arr full)) (newItems i ys) ↔
      SameItems (List.replicate ys.length .null) zs ∧ ∀ y ∈ ys, y = .null)
  | i, [], zs, h => by simp [newItems, addedItems, OldFitsItems]
  | i, y :: ys, [], h => by simp [newItems, addedItems, SameItems, List.replicate_succ]
  | i, y :: ys, z :: zs, h => by
      have hih := @newItems_carries full (i + 1) ys zs (Nat.le_succ_of_le h)
      have hnone : full[i]? = none := List.getElem?_eq_none h
      rw [newItems, addedItems, List.length_cons, List.replicate_succ, SameItems, SameItems,
        OldFitsItems, OldFits, List.forall_mem_cons, itemOf, hnone]
      tauto

theorem nulls_same : ∀ {ys : List Value}, (∀ y ∈ ys, y = .null) →
    SameItems (List.replicate ys.length .null) ys
  | [], _ => by simp [SameItems]
  | y :: ys, h => by
      rw [List.forall_mem_cons] at h
      rw [List.length_cons, List.replicate_succ, SameItems, h.1]
      exact ⟨trivial, nulls_same h.2⟩

/-! ### The change a tree carries -/

/-- What the nodes of two objects carry, from what those of the old keys do. -/
theorem entries_carry {es fs : List (String × Value)} {changes created : List (String × Delta)}
    (hnodup : (keys es).Nodup) (hc : mapChanges es fs = some changes)
    (hn : newKeys es fs = some created)
    (hold : SameEntries (applyEntries es (changes ++ created)) fs ∧
      OldFitsEntries (some (.obj es)) changes ↔ CarriedEntries es fs) :
    Same (.obj (applyEntries es (changes ++ created) ++ addedEntries (changes ++ created))) (.obj fs) ∧
      OldFitsEntries (some (.obj es)) (changes ++ created) ↔ Carried (.obj es) (.obj fs) := by
  have hall : ∀ j ∈ keys es, (changes ++ created).lookup j = changes.lookup j := fun j hj => by
    rw [List.lookup_append, newKeys_old hj hn, Option.or_none]
  have hadded := newKeys_added hn
  rw [addedEntries_append, mapChanges_added hc, List.nil_append, Same, Carried, sameEntries_append,
    oldFitsEntries_append, ← hold, newKeys_fits hn]
  constructor
  · rintro ⟨⟨⟨hsame, -⟩, hkeys⟩, hfits, hnull⟩
    refine ⟨⟨hsame, hfits⟩, fun p hp hk => ?_⟩
    have hs : skipped p.1 = false := by
      have hin := hkeys p.1 (List.mem_map_of_mem hp)
      rw [keys, List.map_append, List.mem_append] at hin
      rcases hin with hin | hin
      · exact absurd (applyEntries_keys hin) hk
      · obtain ⟨q, hq, heq⟩ := List.mem_map.mp hin
        exact heq ▸ ((hadded q).mp hq).2.2.2
    exact ⟨hs, hnull p hp hk hs⟩
  · rintro ⟨⟨hsame, hfits⟩, hnew⟩
    refine ⟨⟨⟨hsame, ?_⟩, fun k hk => ?_⟩, hfits, fun p hp hk _ => (hnew p hp hk).2⟩
    · rw [sameEntries_iff]
      intro p hp
      obtain ⟨hnull, hk, hke, -⟩ := (hadded p).mp hp
      obtain ⟨w, hw⟩ := mem_keys_iff.mp hk
      refine ⟨w, hw, ?_⟩
      have hmem : (p.1, w) ∈ fs := mem_of_lookup hw
      obtain rfl : w = .null := (hnew _ hmem hke).2
      rw [hnull]
      trivial
    · rw [keys, List.map_append, List.mem_append]
      by_cases hke : k ∈ keys es
      · exact .inl (applyEntries_stays hnodup hall hc hke hk)
      · obtain ⟨w, hw⟩ := mem_keys_iff.mp hk
        have hmem : (k, w) ∈ fs := mem_of_lookup hw
        have hs := (hnew _ hmem hke).1
        exact .inr (List.mem_map.mpr ⟨(k, .null), (hadded _).mpr ⟨rfl, hk, hke, hs⟩, rfl⟩)

theorem leaf_carries {x y : Value} {r : Option Delta} (h : leafBetween x y = some r)
    (harr : ∀ xs ys, x = .arr xs → y ≠ .arr ys) (hobj : ∀ es fs, x = .obj es → y ≠ .obj fs) :
    Carries x y r ↔ Same y y := by
  cases r with
  | none =>
      have hsame := (leaf_none h harr hobj).mp rfl
      obtain rfl := leaf_eq (leafBetween_none h) harr hobj
      simp [Carries, applyDelta, hsame]
  | some d =>
      obtain rfl := leafBetween_values h
      simp [Carries, applyDelta, applyTo, OldFits]

mutual
/-- The answer of `between` carries the change iff `Carried` holds of the two values. -/
theorem between_carries : ∀ (x y : Value) (r : Option Delta), Distinct x → between x y = some r →
    (Carries x y r ↔ Carried x y)
  | .arr xs, .arr ys, r, hd, h => by
      simp only [between, Option.bind_eq_bind, Option.bind_eq_some_iff] at h
      obtain ⟨changes, hc, h⟩ := h
      rw [Distinct] at hd
      have hitems := listChanges_carries 0 xs ys changes changes xs hd (fun j => by rw [Nat.zero_add])
        (fun j _ => rfl) hc
      rw [Carried, ← hitems]
      cases changes with
      | nil =>
          obtain rfl := Option.some.inj h
          simp [Carries, applyDelta, applyItems_nil, addedItems, OldFitsItems, Same]
      | cons c cs =>
          obtain rfl := Option.some.inj h
          simp [Carries, applyDelta, applyTo, OldFits, Same]
  | .obj es, .obj fs, r, hd, h => by
      simp only [between, Option.bind_eq_bind, Option.bind_eq_some_iff] at h
      obtain ⟨changes, hc, created, hn, h⟩ := h
      rw [Distinct] at hd
      have hall : ∀ j ∈ keys es, (changes ++ created).lookup j = changes.lookup j := fun j hj => by
        rw [List.lookup_append, newKeys_old hj hn, Option.or_none]
      rw [← entries_carry hd.1 hc hn (mapChanges_carries es fs changes (changes ++ created) es hd.2
        hd.1 (fun p hp => lookup_of_mem hd.1 hp) hall hc)]
      cases hch : changes ++ created with
      | nil =>
          rw [hch] at h
          obtain rfl := Option.some.inj h
          simp [Carries, applyDelta, applyEntries_nil, addedEntries, OldFitsEntries]
      | cons c cs =>
          rw [hch] at h
          obtain rfl := Option.some.inj h
          simp [Carries, applyDelta, applyTo, OldFits]
  | .null, y, r, _, h => by
      cases y with
      | null => obtain rfl := Option.some.inj h; simp [Carries, applyDelta, Carried]
      | _ => obtain rfl := Option.some.inj h; simp [Carries, applyDelta, applyTo, Carried, OldFits]
  | .bool _, y, r, _, h | .num _, y, r, _, h | .str _, y, r, _, h | .date _, y, r, _, h
  | .bytes _, y, r, _, h => by
      cases y with
      | null =>
          obtain rfl := Option.some.inj h
          simp [Carries, applyDelta, applyTo, Carried, OldFits, Same]
      | _ => exact leaf_carries h (by simp) (by simp)
  | .arr xs, .null, r, _, h | .obj es, .null, r, _, h => by
      obtain rfl := Option.some.inj h
      simp [Carries, applyDelta, applyTo, Carried, OldFits, Same]
  | .arr xs, .bool _, r, _, h | .arr xs, .num _, r, _, h | .arr xs, .str _, r, _, h
  | .arr xs, .date _, r, _, h | .arr xs, .bytes _, r, _, h | .arr xs, .obj _, r, _, h
  | .obj es, .bool _, r, _, h | .obj es, .num _, r, _, h | .obj es, .str _, r, _, h
  | .obj es, .date _, r, _, h | .obj es, .bytes _, r, _, h | .obj es, .arr _, r, _, h =>
      leaf_carries h (by simp) (by simp)
termination_by structural x => x

theorem listChanges_carries : ∀ (i : ℕ) (xs ys : List Value) (cs all : List (ℕ × Delta))
    (full : List Value), DistinctItems xs → (∀ j, full[i + j]? = xs[j]?) →
    (∀ j, i ≤ j → all.lookup j = cs.lookup j) → listChanges i xs ys = some cs →
    (SameItems (applyItems i xs all ++ addedItems cs) ys ∧ OldFitsItems (some (.arr full)) cs ↔
      CarriedItems xs ys)
  | i, [], ys, cs, all, full, _, hfull, _, h => by
      obtain rfl := Option.some.inj h
      have hlen : full.length ≤ i := by
        have h0 := hfull 0
        simpa using h0
      rw [applyItems, List.nil_append, newItems_carries hlen, CarriedItems, and_iff_right_iff_imp]
      exact nulls_same
  | i, x :: xs, [], cs, all, full, hd, hfull, hall, h => by
      simp only [listChanges, Option.bind_eq_bind, Option.bind_eq_some_iff] at h
      obtain ⟨rest, hrest, h⟩ := h
      obtain rfl := Option.some.inj h
      rw [DistinctItems] at hd
      have hhead : all.lookup i = some (.removed x .null) := by
        rw [hall i (Nat.le_refl i), List.lookup_cons_self]
      have hih := listChanges_carries (i + 1) xs [] rest all full hd.2 (item_tail hfull)
        (node_tail hall) hrest
      have hplace : itemOf (some (.arr full)) i = some x := hfull 0
      have htrue : CarriedItems xs [] := by cases xs <;> simp [CarriedItems]
      rw [CarriedItems, applyItems, hhead]
      simp [applyTo, addedItems, OldFitsItems, OldFits, hplace, hih, htrue]
  | i, x :: xs, y :: ys, cs, all, full, hd, hfull, hall, h => by
      simp only [listChanges, Option.bind_eq_bind, Option.bind_eq_some_iff] at h
      obtain ⟨r, hr, h⟩ := h
      rw [DistinctItems] at hd
      have hin := between_carries x y r hd.1 hr
      have hplace : itemOf (some (.arr full)) i = some x := hfull 0
      cases r with
      | none =>
          have hhead : all.lookup i = none := by
            rw [hall i (Nat.le_refl i), listChanges_lookup (Nat.lt_succ_self i) h]
          have hih := listChanges_carries (i + 1) xs ys cs all full hd.2 (item_tail hfull)
            (fun j hj => hall j (Nat.le_of_succ_le hj)) h
          rw [CarriedItems, ← hin, ← hih, applyItems, hhead]
          simp [SameItems, Carries, applyDelta, and_assoc]
      | some d =>
          simp only [Option.bind_eq_some_iff] at h
          obtain ⟨rest, hrest, h⟩ := h
          obtain rfl := Option.some.inj h
          have hhead : all.lookup i = some d := by
            rw [hall i (Nat.le_refl i), List.lookup_cons_self]
          have hih := listChanges_carries (i + 1) xs ys rest all full hd.2 (item_tail hfull)
            (node_tail hall) hrest
          obtain ⟨hnew, u, hu⟩ := between_kind hr
          rw [CarriedItems, ← hin, ← hih, applyItems, hhead, addedItems_cons hnew]
          simp only [hu, Option.toList_some, List.cons_append, List.nil_append, SameItems,
            OldFitsItems, hplace, Carries, applyDelta, Option.getD_some, Option.some.injEq,
            forall_eq']
          tauto
termination_by structural _ x => x

theorem mapChanges_carries : ∀ (es fs : List (String × Value)) (cs all : List (String × Delta))
    (full : List (String × Value)), DistinctEntries es → (keys es).Nodup →
    (∀ p ∈ es, full.lookup p.1 = some p.2) → (∀ j ∈ keys es, all.lookup j = cs.lookup j) →
    mapChanges es fs = some cs →
    (SameEntries (applyEntries es all) fs ∧ OldFitsEntries (some (.obj full)) cs ↔
      CarriedEntries es fs)
  | [], fs, cs, all, full, _, _, _, _, h => by
      obtain rfl := Option.some.inj h
      simp [applyEntries, SameEntries, OldFitsEntries, CarriedEntries]
  | (k, v) :: es, fs, cs, all, full, hd, hnodup, hfull, hall, h => by
      obtain ⟨r, rest, hnode, hc, rfl, hhead, hrest⟩ := mapChanges_nodes hnodup hall h
      rw [DistinctEntries] at hd
      rw [List.forall_mem_cons] at hfull
      have hih := mapChanges_carries es fs rest all full hd.2 (List.nodup_cons.mp hnodup).2 hfull.2
        hrest hc
      have hplace : entryOf (some (.obj full)) k = some v := hfull.1
      rw [CarriedEntries, ← hih, applyEntries, hhead]
      cases hnode with
      | skipped hs => simp [hs, withNode, SameEntries, and_assoc]
      | removed hs hw => simp [hs, hw, withNode, applyTo, OldFitsEntries, OldFits, hplace]
      | @between w _ hs hw hb =>
          have hin := between_carries v w r hd.1 hb
          simp only [hs, hw, Bool.false_eq_true, if_false, Option.some.injEq, forall_eq', ← hin]
          cases r with
          | none => simp [withNode, SameEntries, hw, Carries, applyDelta, and_assoc]
          | some d =>
              obtain ⟨u, hu⟩ := (between_kind hb).2
              simp only [withNode, hu, Option.toList_some, List.map_cons, List.map_nil,
                List.singleton_append, SameEntries, hw, Option.some.injEq, exists_eq_left',
                OldFitsEntries, hplace, Carries, applyDelta, Option.getD_some, forall_eq']
              tauto
termination_by structural x => x
end

/-- CODE DEFECT (between): the tree gives the new value and fits the old one exactly when no step of
    the comparison throws and nothing but null is created, nothing differs at a skipped key and no
    `NaN` is taken over, at the places the tree reaches. -/
theorem between_carries_iff (a b : Plain) :
    (∃ r, between a.value b.value = some r ∧ Carries a.value b.value r) ↔
      Comparable a.value b.value ∧ Carried a.value b.value := by
  rw [← between_answers]
  constructor
  · rintro ⟨r, hr, hcarries⟩
    exact ⟨⟨r, hr⟩, (between_carries _ _ r a.distinct hr).mp hcarries⟩
  · rintro ⟨⟨r, hr⟩, hcarried⟩
    exact ⟨r, hr, (between_carries _ _ r a.distinct hr).mpr hcarried⟩

/-- From `{}` to `{k: 1}`: the created item has the value 1 as `oldValue` and no `newValue`. -/
theorem between_not_carries :
    ¬ ∀ a b : Plain, ∃ r, between a.value b.value = some r ∧ Carries a.value b.value r := by
  intro h
  have hone : Distinct (.obj [("k", .num (.fin 1))]) := by simp [Distinct, DistinctEntries, keys]
  obtain ⟨r, hr, hsame, -⟩ := h ⟨.obj [], by simp [Distinct, DistinctEntries, keys]⟩
    ⟨.obj [("k", .num (.fin 1))], hone⟩
  have hbetween : between (.obj []) (.obj [("k", .num (.fin 1))]) =
      some (some (.map (.obj []) (.obj [("k", .num (.fin 1))])
        [("k", .created (.num (.fin 1)) .null)])) := rfl
  obtain rfl := Option.some.inj (hr.symm.trans hbetween)
  have hnull : SameEntries [("k", .null)] [("k", .num (.fin 1))] := by
    have hsame' : Same (.obj [("k", .null)]) (.obj [("k", .num (.fin 1))]) := hsame
    rw [Same] at hsame'
    exact hsame'.1
  rw [sameEntries_iff] at hnull
  obtain ⟨w, hw, hnull⟩ := hnull _ (List.mem_cons_self ..)
  obtain rfl := Option.some.inj hw
  rw [Same] at hnull
  · exact hnull
  all_goals simp

end Universa.Js
