import Universa.Boss.TreeRoundTrip

/-! Stream mode. Nothing is cached, so each value is written in full; but the reader still notes every
    open container under the size of its cache, which is 0, and null is written as reference 0. A
    sequence of values is read back exactly when no container holds a null, no double is the
    negative zero and the counters and the length stay in their range. -/

namespace Universa.Boss
open Wire UObject

/-- What comes back in stream mode: no negative zero, and containers an `int` counts that hold no
    null. -/
def StreamRestores : UObject → Prop
  | .double d => d ≠ dNegZero
  | .array xs => xs.length < 2 ^ 31 ∧ ∀ x ∈ xs, x ≠ .null
  | .binder es => es.length < 2 ^ 31 ∧ ∀ e ∈ es, e.2 ≠ .null
  | _ => True

/-- The leaves a stream is asked to restore: no date-times. -/
def StreamLeaf : UObject → Prop
  | .dateTime _ => False
  | _ => True

/-- A null comes back where no container is open. -/
def NullFree (opened : List Nat) (o : UObject) : Prop := 0 ∈ opened → o ≠ .null

theorem rereadBlob_stream (opened : List Nat) (key : CachedObject) (o : UObject) :
    rereadBlob false opened [] [] key o = some (o, []) := rfl

theorem putString_stream (s : Bytes) : (putString false [] s).2 = [] := rfl

/-- In stream mode nothing enters the cache. -/
theorem reread_stream_cache {opened : List Nat} {o : UObject} {r : UObject × List UObject}
    (h : reread false opened [] [] o = some r) : r.2 = [] := by
  have hsync := reread_sync false o rfl h
  rw [put_stream] at hsync
  exact List.length_eq_zero_iff.mp hsync.symm

theorem reread_stream_array (opened : List Nat) (xs : List UObject) :
    reread false opened [] [] (.array xs)
      = (rereadItems false (0 :: opened) [] [] 0 xs).map fun r => (.array r.1, r.2.set 0 (.array r.1)) := by
  rw [reread]
  rfl

theorem reread_stream_binder (opened : List Nat) (es : List (Bytes × UObject)) :
    reread false opened [] [] (.binder es)
      = (rereadEntries false (0 :: opened) [] [] 0 [] es).map
          fun r => (.binder r.1, r.2.set 0 (.binder r.1)) := by
  rw [reread]
  rfl

/-- One item, then the others. -/
theorem rereadItems_stream {opened : List Nat} {i : Nat} {x : UObject} {xs : List UObject}
    {r : List UObject × List UObject} :
    rereadItems false opened [] [] i (x :: xs) = some r ↔
      i + 1 < 2 ^ 31 ∧ ∃ y ys, reread false opened [] [] x = some (y, []) ∧
        rereadItems false opened [] [] (i + 1) xs = some (ys, r.2) ∧ r.1 = y :: ys := by
  rw [rereadItems, put_stream]
  constructor
  · intro h
    obtain ⟨p, hp, h⟩ := Option.bind_eq_some_iff.mp h
    have hcache := reread_stream_cache hp
    rw [hcache] at h
    split_ifs at h with hi
    obtain ⟨q, hq, rfl⟩ := Option.map_eq_some_iff.mp h
    exact ⟨hi, p.1, q.1, by rw [hp, ← hcache], hq, rfl⟩
  · rintro ⟨hi, y, ys, hy, hys, hr⟩
    rw [hy, Option.bind_some, if_pos hi, hys, Option.map_some, ← hr]

/-- One entry, then the others. -/
theorem rereadEntries_stream {opened : List Nat} {i : Nat} {k : Bytes} {v : UObject}
    {fs es : List (Bytes × UObject)} {r : List (Bytes × UObject) × List UObject} :
    rereadEntries false opened [] [] i fs ((k, v) :: es) = some r ↔
      i + 1 < 2 ^ 31 ∧ ∃ w, reread false opened [] [] v = some (w, []) ∧
        rereadEntries false opened [] [] (i + 1) (set k w fs) es = some r := by
  rw [rereadEntries, rereadBlob_stream, Option.bind_some, putString_stream, put_stream]
  dsimp only
  constructor
  · intro h
    obtain ⟨p, hp, h⟩ := Option.bind_eq_some_iff.mp h
    have hcache := reread_stream_cache hp
    rw [hcache] at h
    split_ifs at h with hi
    exact ⟨hi, p.1, by rw [hp, ← hcache], h⟩
  · rintro ⟨hi, w, hw, h⟩
    rw [hw, Option.bind_some, if_pos hi, h]

/-! ### What comes back as itself -/

theorem rereadDouble_iff (d : BitVec 64) : rereadDouble d = d ↔ d ≠ dNegZero := by
  rw [rereadDouble]
  split_ifs with h
  · subst h
    decide
  · exact iff_of_true rfl h

theorem nullFree_of_ne {opened : List Nat} {o : UObject} (h : o ≠ .null) : NullFree opened o :=
  fun _ => h

mutual
/-- A value read back as itself holds no null in a container, nor another value that changes. -/
theorem reread_stream_restores : ∀ (o : UObject) {opened : List Nat}
    {r : UObject × List UObject}, o.All WellFormed → reread false opened [] [] o = some r →
    r.1 = o → NullFree opened o ∧ o.All StreamRestores
  | .null, _, _, _, h, _ => by
      rw [reread, follow_null] at h
      exact ⟨fun hin => absurd hin h.1, by simp [All, subs, StreamRestores]⟩
  | .int _, _, _, _, _, _ | .bool _, _, _, _, _, _ | .dateTime _, _, _, _, _, _
  | .bytes _, _, _, _, _, _ | .string _, _, _, _, _, _ => by
      exact ⟨nullFree_of_ne (by simp), by simp [All, subs, StreamRestores]⟩
  | .double d, _, _, _, h, hsame => by
      rw [reread] at h
      obtain rfl := Option.some.inj h
      have hd := (rereadDouble_iff d).mp (UObject.double.inj hsame)
      exact ⟨nullFree_of_ne (by simp), by simpa [All, subs, StreamRestores] using hd⟩
  | .array xs, opened, _, hwf, h, hsame => by
      rw [reread_stream_array] at h
      obtain ⟨q, hq, rfl⟩ := Option.map_eq_some_iff.mp h
      obtain ⟨hxs, hcount⟩ := rereadItems_stream_restores xs (all_array.mp hwf).2 hq
        (UObject.array.inj hsame)
      refine ⟨nullFree_of_ne (by simp), all_array.mpr ⟨⟨?_, fun x hx => ?_⟩, fun x hx => ?_⟩⟩
      · rcases hcount with hcount | rfl
        · omega
        · norm_num
      · exact (hxs x hx).1 (List.mem_cons_self ..)
      · exact (hxs x hx).2
  | .binder es, opened, _, hwf, h, hsame => by
      rw [reread_stream_binder] at h
      obtain ⟨q, hq, rfl⟩ := Option.map_eq_some_iff.mp h
      obtain ⟨hsorted, hwfs⟩ := all_binder.mp hwf
      obtain ⟨gs, hgs, hall⟩ := rereadEntries_stream_restores es (fun e he => (hwfs e he).2) hsorted
        (by simp) hq
      obtain ⟨hes, hcount⟩ := hall (by rw [← UObject.binder.inj hsame, hgs, List.nil_append])
      refine ⟨nullFree_of_ne (by simp), all_binder.mpr ⟨⟨?_, fun e he => ?_⟩, fun e he => ⟨trivial, ?_⟩⟩⟩
      · rcases hcount with hcount | rfl
        · omega
        · norm_num
      · exact (hes e he).1 (List.mem_cons_self ..)
      · exact (hes e he).2

theorem rereadItems_stream_restores : ∀ (xs : List UObject) {opened : List Nat} {i : Nat}
    {r : List UObject × List UObject}, (∀ x ∈ xs, x.All WellFormed) →
    rereadItems false opened [] [] i xs = some r → r.1 = xs →
    (∀ x ∈ xs, NullFree opened x ∧ x.All StreamRestores) ∧ (i + xs.length < 2 ^ 31 ∨ xs = [])
  | [], _, _, _, _, _, _ => ⟨by simp, .inr rfl⟩
  | x :: xs, _, i, _, hwf, h, hsame => by
      obtain ⟨hi, y, ys, hy, hys, hr⟩ := rereadItems_stream.mp h
      obtain ⟨hyx, hrest⟩ := List.cons.inj (hr.symm.trans hsame)
      have hx := reread_stream_restores x (hwf x (by simp)) hy hyx
      obtain ⟨hxs, hcount⟩ := rereadItems_stream_restores xs
        (fun z hz => hwf z (List.mem_cons_of_mem _ hz)) hys hrest
      refine ⟨fun z hz => ?_, .inl ?_⟩
      · rcases List.mem_cons.mp hz with rfl | hz
        · exact hx
        · exact hxs z hz
      · rw [List.length_cons]
        rcases hcount with hcount | rfl
        · omega
        · exact hi

theorem rereadEntries_stream_restores : ∀ (es : List (Bytes × UObject)) {opened : List Nat}
    {i : Nat} {fs : List (Bytes × UObject)} {r : List (Bytes × UObject) × List UObject},
    (∀ e ∈ es, e.2.All WellFormed) → Ascending es →
    (∀ f ∈ fs, ∀ e ∈ es, keyLt f.1 e.1 = true) →
    rereadEntries false opened [] [] i fs es = some r →
    ∃ gs, r.1 = fs ++ gs ∧ (gs = es →
      (∀ e ∈ es, NullFree opened e.2 ∧ e.2.All StreamRestores) ∧
        (i + es.length < 2 ^ 31 ∨ es = []))
  | [], _, _, fs, _, _, _, _, h => by
      obtain rfl := Option.some.inj h
      exact ⟨[], (List.append_nil fs).symm, fun _ => ⟨by simp, .inr rfl⟩⟩
  | (k, v) :: es, _, i, fs, _, hwf, hsorted, hfs, h => by
      obtain ⟨hi, w, hw, h⟩ := rereadEntries_stream.mp h
      obtain ⟨hkes, hsorted⟩ := List.pairwise_cons.mp hsorted
      have hfs' : ∀ f ∈ fs ++ [(k, w)], ∀ e ∈ es, keyLt f.1 e.1 = true := by
        intro f hf e he
        rcases List.mem_append.mp hf with hf | hf
        · exact hfs f hf e (List.mem_cons_of_mem _ he)
        · rw [List.mem_singleton.mp hf]
          exact hkes e he
      rw [set_append k w fs fun f hf => hfs f hf (k, v) (by simp)] at h
      obtain ⟨gs, hgs, hall⟩ := rereadEntries_stream_restores es
        (fun e he => hwf e (List.mem_cons_of_mem _ he)) hsorted hfs' h
      refine ⟨(k, w) :: gs, by rw [hgs, List.append_assoc]; rfl, fun heq => ?_⟩
      obtain ⟨hhead, htail⟩ := List.cons.inj heq
      have hv := reread_stream_restores v (hwf (k, v) (by simp)) hw (Prod.mk.inj hhead).2
      obtain ⟨hes, hcount⟩ := hall htail
      refine ⟨fun e he => ?_, .inl ?_⟩
      · rcases List.mem_cons.mp he with rfl | he
        · exact hv
        · exact hes e he
      · rw [List.length_cons]
        rcases hcount with hcount | rfl
        · omega
        · exact hi
end

mutual
/-- Every other value is read back as itself. -/
theorem reread_stream_same : ∀ (o : UObject) {opened : List Nat}, o.All WellFormed →
    o.All StreamLeaf → o.All StreamRestores → NullFree opened o →
    reread false opened [] [] o = some (o, [])
  | .null, _, _, _, _, hnull => by
      rw [reread]
      exact follow_null.mpr ⟨fun hin => hnull hin rfl, rfl⟩
  | .int _, _, _, _, _, _ | .bool _, _, _, _, _, _ | .bytes _, _, _, _, _, _
  | .string _, _, _, _, _, _ => rfl
  | .dateTime _, _, _, hleaf, _, _ => absurd hleaf.self id
  | .double d, _, _, _, hres, _ => by
      rw [reread, (rereadDouble_iff d).mpr hres.self]
  | .array xs, opened, hwf, hleaf, hres, _ => by
      obtain ⟨⟨hcount, hnull⟩, hxs⟩ := all_array.mp hres
      rw [reread_stream_array, rereadItems_stream_same xs 0 (all_array.mp hwf).2
        (all_array.mp hleaf).2 (fun x hx => ⟨hxs x hx, nullFree_of_ne (hnull x hx)⟩) (by omega)]
      rfl
  | .binder es, opened, hwf, hleaf, hres, _ => by
      obtain ⟨⟨hcount, hnull⟩, hes⟩ := all_binder.mp hres
      obtain ⟨hsorted, hwfs⟩ := all_binder.mp hwf
      rw [reread_stream_binder, rereadEntries_stream_same es 0 [] (fun e he => (hwfs e he).2)
        (fun e he => ((all_binder.mp hleaf).2 e he).2)
        (fun e he => ⟨(hes e he).2, nullFree_of_ne (hnull e he)⟩) hsorted (by simp) (by omega)]
      rfl

theorem rereadItems_stream_same : ∀ (xs : List UObject) {opened : List Nat} (i : Nat),
    (∀ x ∈ xs, x.All WellFormed) → (∀ x ∈ xs, x.All StreamLeaf) →
    (∀ x ∈ xs, x.All StreamRestores ∧ NullFree opened x) → i + xs.length < 2 ^ 31 →
    rereadItems false opened [] [] i xs = some (xs, [])
  | [], _, _, _, _, _, _ => rfl
  | x :: xs, _, i, hwf, hleaf, hres, hcount => by
      rw [List.length_cons] at hcount
      have hx := hres x (by simp)
      refine rereadItems_stream.mpr ⟨by omega, x, xs, ?_, ?_, rfl⟩
      · exact reread_stream_same x (hwf x (by simp)) (hleaf x (by simp)) hx.1 hx.2
      · exact rereadItems_stream_same xs (i + 1) (fun y hy => hwf y (List.mem_cons_of_mem _ hy))
          (fun y hy => hleaf y (List.mem_cons_of_mem _ hy))
          (fun y hy => hres y (List.mem_cons_of_mem _ hy)) (by omega)

theorem rereadEntries_stream_same : ∀ (es : List (Bytes × UObject)) {opened : List Nat} (i : Nat)
    (fs : List (Bytes × UObject)), (∀ e ∈ es, e.2.All WellFormed) →
    (∀ e ∈ es, e.2.All StreamLeaf) → (∀ e ∈ es, e.2.All StreamRestores ∧ NullFree opened e.2) →
    Ascending es → (∀ f ∈ fs, ∀ e ∈ es, keyLt f.1 e.1 = true) → i + es.length < 2 ^ 31 →
    rereadEntries false opened [] [] i fs es = some (fs ++ es, [])
  | [], _, _, fs, _, _, _, _, _, _ => by rw [rereadEntries, List.append_nil]
  | (k, v) :: es, _, i, fs, hwf, hleaf, hres, hsorted, hfs, hcount => by
      rw [List.length_cons] at hcount
      have hv := hres (k, v) (by simp)
      obtain ⟨hkes, hsorted⟩ := List.pairwise_cons.mp hsorted
      have hfs' : ∀ f ∈ fs ++ [(k, v)], ∀ e ∈ es, keyLt f.1 e.1 = true := by
        intro f hf e he
        rcases List.mem_append.mp hf with hf | hf
        · exact hfs f hf e (List.mem_cons_of_mem _ he)
        · rw [List.mem_singleton.mp hf]
          exact hkes e he
      refine rereadEntries_stream.mpr ⟨by omega, v, ?_, ?_⟩
      · exact reread_stream_same v (hwf (k, v) (by simp)) (hleaf (k, v) (by simp)) hv.1 hv.2
      · rw [set_append k v fs fun f hf => hfs f hf (k, v) (by simp),
          rereadEntries_stream_same es (i + 1) _ (fun e he => hwf e (List.mem_cons_of_mem _ he))
            (fun e he => hleaf e (List.mem_cons_of_mem _ he))
            (fun e he => hres e (List.mem_cons_of_mem _ he)) hsorted hfs' (by omega),
          List.append_assoc]
        rfl
end

/-! ### Whole streams -/

/-- A value a stream is asked to restore: maps in order and without type names, no date-times. -/
structure StreamValue where
  val : UObject
  wellFormed : val.All WellFormed
  untyped : val.All Untyped
  leaf : val.All StreamLeaf

/-- When a stream is restored: its length fits, and every part of every value comes back. -/
structure StreamRestorable (objs : List UObject) : Prop where
  size : (writeHeader TYPE_EXTRA XT_STREAM_MODE ++ (writeObjects false [] objs).1).length < 2 ^ 32
  restores : ∀ o ∈ subsItems objs, StreamRestores o

section
variable (process : Process)

/-- Each value is read back as itself when it comes back, and only then. -/
theorem rereadAll_stream : ∀ vs : List StreamValue,
    (∃ cache, rereadAll false [] [] (vs.map (·.val)) = some (vs.map (·.val), cache)) ↔
      ∀ v ∈ vs, v.val.All StreamRestores
  | [] => iff_of_true ⟨[], rfl⟩ (by simp)
  | v :: vs => by
      have ih := rereadAll_stream vs
      rw [List.forall_mem_cons, ← ih, List.map_cons]
      constructor
      · rintro ⟨cache, h⟩
        obtain ⟨p, hp, h⟩ := Option.bind_eq_some_iff.mp h
        rw [put_stream, reread_stream_cache hp] at h
        obtain ⟨q, hq, heq⟩ := Option.map_eq_some_iff.mp h
        obtain ⟨hlist, -⟩ := Prod.mk.inj heq
        obtain ⟨hv, hvs⟩ := List.cons.inj hlist
        exact ⟨(reread_stream_restores v.val v.wellFormed hp hv).2, q.2, by rw [hq, ← hvs]⟩
      · rintro ⟨hv, cache, hvs⟩
        refine ⟨cache, ?_⟩
        rw [rereadAll, reread_stream_same v.val v.wellFormed v.leaf hv (by simp [NullFree]),
          Option.bind_some, put_stream, hvs]
        rfl

/-- CODE DEFECT (stream mode): a stream of values is read back value by value exactly when it is
    restorable. -/
theorem dumpStream_roundTrips_iff (vs : List StreamValue) :
    StreamRoundTrips process (vs.map (·.val)) ↔ StreamRestorable (vs.map (·.val)) := by
  have huntyped : ∀ o ∈ vs.map (·.val), o.All Untyped := by
    intro o ho
    obtain ⟨v, -, rfl⟩ := List.mem_map.mp ho
    exact v.untyped
  rw [streamRoundTrips_iff process huntyped, rereadAll_stream]
  have hparts : (∀ v ∈ vs, v.val.All StreamRestores) ↔
      ∀ o ∈ subsItems (vs.map (·.val)), StreamRestores o := by
    constructor
    · intro h o ho
      obtain ⟨w, hw, ho⟩ := mem_subsItems.mp ho
      obtain ⟨v, hv, rfl⟩ := List.mem_map.mp hw
      exact h v hv o ho
    · intro h v hv o ho
      exact h o (mem_subsItems.mpr ⟨v.val, List.mem_map_of_mem hv, ho⟩)
  rw [hparts]
  exact ⟨fun h => ⟨h.1, h.2⟩, fun h => ⟨h.size, h.restores⟩⟩

end

/-- An array with a null in it is written to a stream and refused by the reader. -/
theorem dumpStream_not_roundTrips :
    ¬ ∀ (process : Process) (vs : List StreamValue), StreamRoundTrips process (vs.map (·.val)) := by
  intro h
  obtain ⟨data, hdump, hback⟩ := h ⟨Crypto.KeyAddress.hashes2048, 2 ^ 20⟩
    [⟨.array [.null], by simp [All, subs, subsItems, WellFormed],
      by simp [All, subs, subsItems, Untyped], by simp [All, subs, subsItems, StreamLeaf]⟩]
  obtain rfl : [129, 14, 5] = data := Option.some.inj hdump
  obtain ⟨s, hs, -⟩ := hback 4 (by decide)
  cases hs

end Universa.Boss
