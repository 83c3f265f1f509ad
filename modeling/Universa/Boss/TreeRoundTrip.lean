import Universa.Boss.Settled

/-! The round trip in tree mode, from the values. When the keys tell the containers at hand apart, each
    reference finds the value it was written for: a closed entry is that value, and an open entry is
    a larger one. With the counters in range and the date-times from 1970 on every value is read
    back as itself, and that is exactly when a dump round-trips. -/

namespace Universa.Boss
open Wire UObject

/-! ### References find their values -/

/-- Values closed under taking parts, that come back and are told apart by their keys. -/
structure Clear (S : UObject → Prop) : Prop where
  parts : ∀ o, S o → ∀ c ∈ o.subs, S c
  restores : ∀ o, S o → Restores o
  leaf : ∀ o, S o → TreeLeaf o
  sorted : ∀ o, S o → WellFormed o
  distinct : ∀ a b, S a → S b → ∀ k, cacheKey a = some k → cacheKey b = some k → a = b

section
variable {S : UObject → Prop}

/-- An open entry of the cache is a value around the one being read, of at least `size` parts. -/
def OpenAbove (S : UObject → Prop) (keys : List CachedObject) (opened : List Nat) (size : Nat) :
    Prop :=
  ∀ i ∈ opened, ∃ j k v, i = j + 1 ∧ keys[j]? = some k ∧ S v ∧ cacheKey v = some k ∧
    size ≤ v.subs.length

/-- A closed entry of the reader's cache has the key the writer has for it. -/
structure ClosedHold (S : UObject → Prop) (keys : List CachedObject) (cache : List UObject)
    (opened : List Nat) : Prop where
  sync : keys.length = cache.length
  hold : ∀ j k, keys[j]? = some k → j + 1 ∉ opened →
    ∃ v, S v ∧ cacheKey v = some k ∧ cache[j]? = some v

theorem OpenAbove.mono {keys keys' : List CachedObject} {opened : List Nat} {size : Nat}
    (h : OpenAbove S keys opened size) (hkeys : keys <+: keys') :
    OpenAbove S keys' opened size := by
  intro i hi
  obtain ⟨j, k, v, hj, hk, hv⟩ := h i hi
  exact ⟨j, k, v, hj, prefix_getElem? hkeys hk, hv⟩

theorem OpenAbove.lt {keys : List CachedObject} {opened : List Nat} {size : Nat}
    (h : OpenAbove S keys opened size) {i : Nat} (hi : i ∈ opened) :
    1 ≤ i ∧ i ≤ keys.length := by
  obtain ⟨j, k, v, rfl, hk, -⟩ := h i hi
  obtain ⟨hlt, -⟩ := List.getElem?_eq_some_iff.mp hk
  omega

/-- A container enters, around all that is read until it is closed. -/
theorem OpenAbove.enter {keys : List CachedObject} {opened : List Nat} {size : Nat}
    (h : OpenAbove S keys opened size) {v : UObject} {k : CachedObject} {i : Nat} (hv : S v)
    (hkey : cacheKey v = some k) (hsize : v.subs.length < size) (hi : i = keys.length + 1) :
    OpenAbove S (cached true keys k) (i :: opened) v.subs.length := by
  intro i' hi'
  rcases List.mem_cons.mp hi' with rfl | hi'
  · exact ⟨keys.length, k, v, hi, cached_getElem?_last _ _, hv, hkey, Nat.le_refl _⟩
  · obtain ⟨j, k', w, hj, hk', hw, hkw, hsw⟩ := h.mono (prefix_cached keys k) i' hi'
    exact ⟨j, k', w, hj, hk', hw, hkw, by omega⟩

namespace ClosedHold
variable {keys : List CachedObject} {cache : List UObject} {opened : List Nat}

theorem push (h : ClosedHold S keys cache opened) {v : UObject} {k : CachedObject} (hv : S v)
    (hkey : cacheKey v = some k) :
    ClosedHold S (cached true keys k) (cached true cache v) opened := by
  refine ⟨cached_length _ _ h.sync, fun j k' hk' hopen => ?_⟩
  rcases cached_getElem?_cases hk' with hold | ⟨rfl, rfl⟩
  · obtain ⟨w, hw, hkw, hget⟩ := h.hold j k' hold hopen
    exact ⟨w, hw, hkw, prefix_getElem? (prefix_cached _ _) hget⟩
  · refine ⟨v, hv, hkey, ?_⟩
    rw [h.sync]
    exact cached_getElem?_last _ _

theorem enter (h : ClosedHold S keys cache opened) (k : CachedObject) (empty : UObject) :
    ClosedHold S (cached true keys k) (cached true cache empty)
      ((cached true cache empty).length :: opened) := by
  have hlen : (cached true cache empty).length = cache.length + 1 := by simp [cached]
  refine ⟨cached_length _ _ h.sync, fun j k' hk' hopen => ?_⟩
  obtain ⟨hnew, hopen⟩ := not_or.mp fun hor => hopen (List.mem_cons.mpr hor)
  rcases cached_getElem?_cases hk' with hold | ⟨rfl, -⟩
  · obtain ⟨w, hw, hkw, hget⟩ := h.hold j k' hold hopen
    exact ⟨w, hw, hkw, prefix_getElem? (prefix_cached _ _) hget⟩
  · rw [h.sync] at hnew
    omega

theorem close {n : Nat} (h : ClosedHold S keys cache ((n + 1) :: opened)) {v : UObject}
    (k : CachedObject) (hn : keys[n]? = some k) (hv : S v) (hkey : cacheKey v = some k) :
    ClosedHold S keys (cache.set n v) opened := by
  have hlt : n < cache.length := by
    obtain ⟨hlt, -⟩ := List.getElem?_eq_some_iff.mp hn
    rw [← h.sync]
    exact hlt
  refine ⟨by rw [List.length_set, h.sync], fun j k' hk' hopen => ?_⟩
  by_cases hj : n = j
  · subst hj
    rw [hn] at hk'
    exact ⟨v, hv, by rw [hkey, hk'], List.getElem?_set_self hlt⟩
  · obtain ⟨w, hw, hkw, hget⟩ := h.hold j k' hk' fun hin =>
      (List.mem_cons.mp hin).elim (by omega) hopen
    exact ⟨w, hw, hkw, by rw [List.getElem?_set_ne hj, hget]⟩

end ClosedHold

/-- A reference finds the value it was written for: an open entry is larger. -/
theorem hit_held {opened : List Nat} {keys : List CachedObject} {cache : List UObject}
    {index size : Nat} {k : CachedObject} {o : UObject} (hS : Clear S) (ho : S o)
    (habove : OpenAbove S keys opened size) (hsize : o.subs.length < size)
    (h : ClosedHold S keys cache opened) (hkey : cacheKey o = some k)
    (hfind : cacheFind keys k = some index) :
    reread true opened keys cache o = some (o, cache) ∧
      ClosedHold S (put true keys o).2 cache opened := by
  obtain ⟨hread, hput⟩ := reread_hit opened cache hkey hfind
  obtain ⟨hpos, -, hk⟩ := cacheFind_some hfind
  have hclosed : index ∉ opened := by
    intro hin
    obtain ⟨j, k', v, rfl, hk', hv, hkv, hsv⟩ := habove index hin
    rw [Nat.add_sub_cancel, hk'] at hk
    obtain rfl := Option.some.inj hk
    rw [hS.distinct v o hv ho k' hkv hkey] at hsv
    omega
  obtain ⟨v, hv, hkv, hget⟩ := h.hold (index - 1) k hk (by rwa [Nat.sub_add_cancel hpos])
  rw [hS.distinct v o hv ho k hkv hkey] at hget
  rw [hput, hread]
  exact ⟨(follow_some h.sync hfind).mpr ⟨hclosed, hget, rfl⟩, h⟩

/-- A key of a map. -/
theorem text_held {opened : List Nat} {keys : List CachedObject} {cache : List UObject}
    {size : Nat} {s : Bytes} (hS : Clear S) (ho : S (.string s)) (habove : OpenAbove S keys opened size)
    (hsize : 1 < size) (h : ClosedHold S keys cache opened) :
    ∃ cache', rereadBlob true opened keys cache (.text, s) (.string s)
        = some (.string s, cache') ∧
      ClosedHold S (putString true keys s).2 cache' opened := by
  cases hfind : cacheFind keys (.text, s) with
  | some index =>
      obtain ⟨hread, h'⟩ := hit_held hS ho habove hsize h rfl hfind
      rw [reread] at hread
      exact ⟨cache, hread, h'⟩
  | none =>
      rw [rereadBlob, hfind, putString_eq, hfind]
      exact ⟨_, rfl, h.push ho rfl⟩

mutual
/-- Each value is read back as itself, and the cache holds what the keys say. -/
theorem reread_held (hS : Clear S) : ∀ (o : UObject) {opened : List Nat} {keys : List CachedObject}
    {cache : List UObject} {size : Nat}, S o → OpenAbove S keys opened size →
    o.subs.length < size → ClosedHold S keys cache opened →
    ∃ cache', reread true opened keys cache o = some (o, cache') ∧
      ClosedHold S (put true keys o).2 cache' opened
  | .null, _, _, cache, _, _, habove, _, h => by
      rw [reread, put]
      refine ⟨cache, follow_null.mpr ⟨fun hin => ?_, rfl⟩, h⟩
      exact absurd (habove.lt hin).1 (by omega)
  | .int _, _, _, cache, _, _, _, _, h | .bool _, _, _, cache, _, _, _, _, h => by
      rw [reread, put]
      exact ⟨cache, rfl, h⟩
  | .double d, _, _, cache, _, ho, _, _, h => by
      have hd : rereadDouble d = d := if_neg (hS.leaf _ ho)
      rw [reread, put, hd]
      exact ⟨cache, rfl, h⟩
  | .dateTime count, _, _, cache, _, ho, _, _, h => by
      rw [reread, put, (rereadTime_iff (hS.leaf _ ho)).mpr (hS.restores _ ho)]
      exact ⟨cache, rfl, h⟩
  | .bytes b, _, keys, cache, _, ho, habove, hsize, h => by
      cases hfind : cacheFind keys (.bin, b) with
      | some index => exact ⟨cache, hit_held hS ho habove hsize h rfl hfind⟩
      | none =>
          rw [reread, rereadBlob, hfind, put, putBytes_eq, hfind]
          exact ⟨_, rfl, h.push ho rfl⟩
  | .string s, _, _, _, _, ho, habove, hsize, h => by
      rw [reread, put]
      exact text_held hS ho habove (by simpa [subs] using hsize) h
  | .array xs, opened, keys, cache, size, ho, habove, hsize, h => by
      cases hfind : cacheFind keys (.array, containerKey (.array xs)) with
      | some index => exact ⟨cache, hit_held hS ho habove hsize h rfl hfind⟩
      | none =>
          have hlen : (cached true cache (.array [])).length - 1 + 1
              = (cached true cache (.array [])).length := by simp [cached]
          have habove' : OpenAbove S (cached true keys (.array, containerKey (.array xs)))
              ((cached true cache (.array [])).length :: opened) (UObject.array xs).subs.length :=
            habove.enter ho rfl hsize (by rw [h.sync]; simp [cached])
          obtain ⟨cache', hxs, h'⟩ := rereadItems_held hS xs 0
            (fun x hx => hS.parts _ ho x
              (List.mem_cons_of_mem _ (mem_subsItems.mpr ⟨x, hx, mem_subs_self x⟩)))
            (fun x hx => Nat.lt_succ_of_le (length_subs_le hx)) habove'
            (h.enter (.array, containerKey (.array xs)) (.array []))
            (by rw [Nat.zero_add]; exact hS.restores _ ho)
          rw [reread, hfind, put_array, hfind]
          refine ⟨_, by dsimp only; rw [hxs]; rfl, ?_⟩
          rw [← hlen] at h'
          refine h'.close (.array, containerKey (.array xs)) ?_ ho rfl
          rw [← cached_length (.array, containerKey (.array xs)) _ h.sync]
          exact prefix_getElem? (putItems_keeps_keys xs _) (by simp [cached])
  | .binder es, opened, keys, cache, size, ho, habove, hsize, h => by
      cases hfind : cacheFind keys (.binder, containerKey (.binder es)) with
      | some index => exact ⟨cache, hit_held hS ho habove hsize h rfl hfind⟩
      | none =>
          have hlen : (cached true cache (.binder [])).length - 1 + 1
              = (cached true cache (.binder [])).length := by simp [cached]
          have habove' : OpenAbove S (cached true keys (.binder, containerKey (.binder es)))
              ((cached true cache (.binder [])).length :: opened)
              (UObject.binder es).subs.length :=
            habove.enter ho rfl hsize (by rw [h.sync]; simp [cached])
          have hin : ∀ c ∈ subsEntries es, S c := fun c hc =>
            hS.parts _ ho c (List.mem_cons_of_mem _ hc)
          obtain ⟨cache', hes, h'⟩ := rereadEntries_held hS es 0 []
            (fun e he => ⟨hin _ (mem_subsEntries.mpr ⟨e, he, .inl rfl⟩),
              hin _ (mem_subsEntries.mpr ⟨e, he, .inr (mem_subs_self e.2)⟩)⟩)
            (fun e he => ⟨Nat.succ_lt_succ (Nat.lt_of_le_of_lt (Nat.zero_le _)
                (length_subs_value_le he)), Nat.lt_succ_of_lt (length_subs_value_le he)⟩)
            (hS.sorted _ ho) (by simp) habove'
            (h.enter (.binder, containerKey (.binder es)) (.binder []))
            (by rw [Nat.zero_add]; exact hS.restores _ ho)
          rw [reread, hfind, put_binder, hfind]
          refine ⟨_, by dsimp only; rw [hes]; rfl, ?_⟩
          rw [← hlen] at h'
          refine h'.close (.binder, containerKey (.binder es)) ?_ ho rfl
          rw [← cached_length (.binder, containerKey (.binder es)) _ h.sync]
          exact prefix_getElem? (putEntries_keeps_keys es _) (by simp [cached])

theorem rereadItems_held (hS : Clear S) : ∀ (xs : List UObject) {opened : List Nat}
    {keys : List CachedObject} {cache : List UObject} {size : Nat} (i : Nat), (∀ x ∈ xs, S x) →
    (∀ x ∈ xs, x.subs.length < size) → OpenAbove S keys opened size →
    ClosedHold S keys cache opened → i + xs.length < 2 ^ 31 →
    ∃ cache', rereadItems true opened keys cache i xs = some (xs, cache') ∧
      ClosedHold S (putItems true keys xs).2 cache' opened
  | [], _, _, cache, _, _, _, _, _, h, _ => ⟨cache, rfl, h⟩
  | x :: xs, opened, keys, cache, size, i, hxs, hsize, habove, h, hcount => by
      rw [List.length_cons] at hcount
      obtain ⟨cache₁, hx, h₁⟩ := reread_held hS x (hxs x (by simp)) habove (hsize x (by simp)) h
      obtain ⟨cache₂, hrest, h₂⟩ := rereadItems_held hS xs (i + 1)
        (fun y hy => hxs y (List.mem_cons_of_mem _ hy))
        (fun y hy => hsize y (List.mem_cons_of_mem _ hy)) (habove.mono (put_keeps_keys x keys)) h₁
        (by omega)
      refine ⟨cache₂, ?_, h₂⟩
      rw [rereadItems, hx, Option.bind_some, if_pos (by omega), hrest]
      rfl

theorem rereadEntries_held (hS : Clear S) : ∀ (es : List (Bytes × UObject)) {opened : List Nat}
    {keys : List CachedObject} {cache : List UObject} {size : Nat} (i : Nat)
    (fs : List (Bytes × UObject)), (∀ e ∈ es, S (.string e.1) ∧ S e.2) →
    (∀ e ∈ es, 1 < size ∧ e.2.subs.length < size) → Ascending es →
    (∀ f ∈ fs, ∀ e ∈ es, keyLt f.1 e.1 = true) → OpenAbove S keys opened size →
    ClosedHold S keys cache opened → i + es.length < 2 ^ 31 →
    ∃ cache', rereadEntries true opened keys cache i fs es = some (fs ++ es, cache') ∧
      ClosedHold S (putEntries true keys es).2 cache' opened
  | [], _, _, cache, _, _, fs, _, _, _, _, _, h, _ =>
      ⟨cache, by rw [rereadEntries, List.append_nil], h⟩
  | (k, v) :: es, opened, keys, cache, size, i, fs, hes, hsize, hsorted, hfs, habove, h, hcount => by
      rw [List.length_cons] at hcount
      obtain ⟨hk, hv⟩ := hes (k, v) (by simp)
      obtain ⟨hone, hsv⟩ := hsize (k, v) (by simp)
      obtain ⟨hkes, hsorted⟩ := List.pairwise_cons.mp hsorted
      have hfs' : ∀ f ∈ fs ++ [(k, v)], ∀ e ∈ es, keyLt f.1 e.1 = true := by
        intro f hf e he
        rcases List.mem_append.mp hf with hf | hf
        · exact hfs f hf e (List.mem_cons_of_mem _ he)
        · rw [List.mem_singleton.mp hf]
          exact hkes e he
      obtain ⟨cache₁, hkey, h₁⟩ := text_held hS hk habove hone h
      have habove₁ : OpenAbove S (putString true keys k).2 opened size :=
        habove.mono (put_keeps_keys (.string k) keys)
      obtain ⟨cache₂, hval, h₂⟩ := reread_held hS v hv habove₁ hsv h₁
      obtain ⟨cache₃, hrest, h₃⟩ := rereadEntries_held hS es (i + 1) (fs ++ [(k, v)])
        (fun e he => hes e (List.mem_cons_of_mem _ he))
        (fun e he => hsize e (List.mem_cons_of_mem _ he)) hsorted hfs'
        (habove₁.mono (put_keeps_keys v _)) h₂ (by omega)
      refine ⟨cache₃, ?_, h₃⟩
      rw [rereadEntries, hkey, Option.bind_some]
      dsimp only
      rw [hval, Option.bind_some, if_pos (by omega),
        set_append k v fs fun f hf => hfs f hf (k, v) (by simp), hrest, List.append_assoc]
      rfl
end

end

/-! ### Whole dumps -/

/-- A value a tree-mode dump is asked to restore: maps in order and without type names, no negative
    zero, whole seconds. -/
structure TreeValue where
  val : UObject
  wellFormed : val.All WellFormed
  untyped : val.All Untyped
  leaf : val.All TreeLeaf

/-- When a dump is restored: counters, lengths and the clock stay in their range, and the 32-bit
    lengths the cache keys pass through do not make two arrays, or two maps, alike. -/
structure Restorable (objs : List UObject) : Prop where
  count : objs.length < 2 ^ 31
  size : (writeObjects true [] objs).1.length < 2 ^ 32
  restores : ∀ o ∈ subsItems objs, Restores o
  distinct : ∀ a ∈ subsItems objs, ∀ b ∈ subsItems objs, ∀ k, cacheKey a = some k →
    cacheKey b = some k → a = b

section
variable (process : Process)

theorem rereadAll_settled : ∀ (vs : List TreeValue) {keys : List CachedObject}
    {cache : List UObject} {r : List UObject × List UObject}, Texts keys cache →
    CacheInv keys cache [] → rereadAll true keys cache (vs.map (·.val)) = some r →
    r.1 = vs.map (·.val) → ∃ keys', keys'.Nodup ∧ keys <+: keys' ∧ cache <+: r.2 ∧
      ∀ v ∈ vs, Settled keys' r.2 [] v.val
  | [], keys, _, _, _, h, hr, _ => by
      obtain rfl := Option.some.inj hr
      exact ⟨keys, h.nodup, List.prefix_refl _, List.prefix_refl _, by simp⟩
  | v :: vs, keys, cache, r, ht, h, hr, hsame => by
      obtain ⟨p, hp, hr⟩ := Option.bind_eq_some_iff.mp hr
      have ht₁ := reread_texts v.val ht hp
      obtain ⟨q, hq, rfl⟩ := Option.map_eq_some_iff.mp hr
      obtain ⟨hv, hvs⟩ := List.cons.inj hsame
      obtain ⟨h₁, hsv⟩ := reread_settled v.val v.wellFormed v.leaf ht h hp hv
      obtain ⟨keys', hnodup, hkeys, hcache, hall⟩ := rereadAll_settled vs ht₁ h₁ hq hvs
      have hkept := reread_keeps_cache v.val hp
      refine ⟨keys', hnodup, (put_keeps_keys v.val keys).trans hkeys, hkept.trans hcache, ?_⟩
      intro w hw
      rcases List.mem_cons.mp hw with rfl | hw
      · exact hsv.mono hkeys hcache
      · exact hall w hw

theorem rereadAll_held {S : UObject → Prop} (hS : Clear S) :
    ∀ (objs : List UObject) {keys : List CachedObject} {cache : List UObject},
    (∀ o ∈ objs, S o) → ClosedHold S keys cache [] →
    ∃ cache', rereadAll true keys cache objs = some (objs, cache')
  | [], _, cache, _, _ => ⟨cache, rfl⟩
  | o :: os, keys, cache, hobjs, h => by
      have ho := hobjs o (by simp)
      obtain ⟨cache₁, hread, h₁⟩ :=
        reread_held hS o ho (by simp [OpenAbove]) (Nat.lt_succ_self _) h
      obtain ⟨cache₂, hrest⟩ := rereadAll_held hS os
        (fun o' ho' => hobjs o' (List.mem_cons_of_mem _ ho')) h₁
      refine ⟨cache₂, ?_⟩
      rw [rereadAll, hread, Option.bind_some, hrest]
      rfl

/-- CODE DEFECT (tree mode): a dump is read back value by value up to its last byte exactly when the
    values are restorable. -/
theorem dump_roundTrips_iff (vs : List TreeValue) :
    RoundTrips process (vs.map (·.val)) ↔ Restorable (vs.map (·.val)) := by
  have huntyped : ∀ o ∈ vs.map (·.val), o.All Untyped := by
    intro o ho
    obtain ⟨v, -, rfl⟩ := List.mem_map.mp ho
    exact v.untyped
  rw [roundTrips_iff process huntyped]
  constructor
  · rintro ⟨hcount, hsize, cache, hr⟩
    obtain ⟨keys, hnodup, -, -, hall⟩ := rereadAll_settled vs ⟨rfl, by simp⟩
       ⟨rfl, List.nodup_nil, by simp, by simp⟩ hr rfl
    have hin : ∀ c ∈ subsItems (vs.map (·.val)), Restores c ∧
        ∀ k, cacheKey c = some k → Stands keys cache [] c k := by
      intro c hc
      obtain ⟨o, ho, hc⟩ := mem_subsItems.mp hc
      obtain ⟨v, hv, rfl⟩ := List.mem_map.mp ho
      exact hall v hv c hc
    refine ⟨hcount, hsize, fun c hc => (hin c hc).1, fun a ha b hb k hka hkb => ?_⟩
    obtain ⟨i, hki, hci, -⟩ := (hin a ha).2 k hka
    obtain ⟨j, hkj, hcj, -⟩ := (hin b hb).2 k hkb
    -- one key, one place
    obtain ⟨hi, -⟩ := List.getElem?_eq_some_iff.mp hki
    obtain rfl : i = j := (List.getElem?_inj hi hnodup).mp (hki.trans hkj.symm)
    exact Option.some.inj (hci.symm.trans hcj)
  · rintro ⟨hcount, hsize, hrestores, hdistinct⟩
    have hpart : ∀ {c}, c ∈ subsItems (vs.map (·.val)) → ∃ v ∈ vs, c ∈ v.val.subs := by
      intro c hc
      obtain ⟨o, ho, hc⟩ := mem_subsItems.mp hc
      obtain ⟨v, hv, rfl⟩ := List.mem_map.mp ho
      exact ⟨v, hv, hc⟩
    have hS : Clear fun c => c ∈ subsItems (vs.map (·.val)) := by
      refine ⟨fun o ho c hc => subsItems_trans ho c hc, hrestores, ?_, ?_,
        fun a b ha hb k => hdistinct a ha b hb k⟩
      · intro o ho
        obtain ⟨v, -, ho⟩ := hpart ho
        exact v.leaf o ho
      · intro o ho
        obtain ⟨v, -, ho⟩ := hpart ho
        exact v.wellFormed o ho
    have hstart : ClosedHold (fun c => c ∈ subsItems (vs.map (·.val))) [] [] [] := ⟨rfl, by simp⟩
    obtain ⟨cache, hr⟩ := rereadAll_held hS (vs.map (·.val))
      (fun o ho => mem_subsItems.mpr ⟨o, ho, mem_subs_self o⟩) hstart
    exact ⟨hcount, hsize, cache, hr⟩

end

/-- One second before 1970 comes back as 1.709551616 seconds before it: the count is divided after
    the cast to `unsigned long`. -/
theorem dump_not_roundTrips :
    ¬ ∀ (process : Process) (vs : List TreeValue), RoundTrips process (vs.map (·.val)) := by
  intro h
  have htrip := h ⟨Crypto.KeyAddress.hashes2048, 2 ^ 20⟩
    [⟨.dateTime (BitVec.ofInt 64 (-1000000000)), by simp [All, subs, WellFormed],
      by simp [All, subs, Untyped], by simp [All, subs, TreeLeaf, den]⟩]
  obtain ⟨-, -, cache, hr⟩ := (roundTrips_iff _ (by simp [All, subs, Untyped])).mp htrip
  have hread : rereadTime (BitVec.ofInt 64 (-1000000000)) = BitVec.ofInt 64 (-1709551616) := by
    decide
  have hsame : rereadTime (BitVec.ofInt 64 (-1000000000)) = BitVec.ofInt 64 (-1000000000) :=
    UObject.dateTime.inj (List.cons.inj (Prod.mk.inj (Option.some.inj hr)).1).1
  exact absurd (hread.symm.trans hsame) (by decide)

end Universa.Boss
