import Universa.Boss.RoundTrip

/-! Tree mode: a value the writer has met before is written as a reference, and the writer's keys and
    the reader's cache grow in step, each only at its end. Strings are found again under their keys,
    so no type name can come out of values that have none. -/

namespace Universa.Boss
open Wire UObject

/-- What the writer's cache knows a value by. -/
def cacheKey : UObject → Option CachedObject
  | .bytes b => some (.bin, b)
  | .string s => some (.text, s)
  | .array xs => some (.array, containerKey (.array xs))
  | .binder es => some (.binder, containerKey (.binder es))
  | _ => none

/-! ### References and fresh values -/

/-- A value whose key is there is a reference, on both sides. -/
theorem reread_hit (opened : List Nat) (cache : List UObject) {keys : List CachedObject}
    {index : Nat} {k : CachedObject} : ∀ {o : UObject}, cacheKey o = some k →
    cacheFind keys k = some index →
    reread true opened keys cache o = follow opened cache index ∧ (put true keys o).2 = keys
  | .bytes b, hkey, hfind => by
      obtain rfl := Option.some.inj hkey
      rw [reread, rereadBlob, put, putBytes_eq, hfind]
      exact ⟨rfl, rfl⟩
  | .string s, hkey, hfind => by
      obtain rfl := Option.some.inj hkey
      rw [reread, rereadBlob, put, putString_eq, hfind]
      exact ⟨rfl, rfl⟩
  | .array xs, hkey, hfind => by
      obtain rfl := Option.some.inj hkey
      rw [reread, put_array]
      simp only [hfind, and_self]
  | .binder es, hkey, hfind => by
      obtain rfl := Option.some.inj hkey
      rw [reread, put_binder]
      simp only [hfind, and_self]

/-- A reference to a place of the cache. -/
theorem follow_some {opened : List Nat} {keys : List CachedObject} {cache : List UObject}
    {index : Nat} {k : CachedObject} {r : UObject × List UObject}
    (hsync : keys.length = cache.length) (hfind : cacheFind keys k = some index) :
    follow opened cache index = some r ↔
      index ∉ opened ∧ cache[index - 1]? = some r.1 ∧ r.2 = cache := by
  obtain ⟨hpos, hle, -⟩ := cacheFind_some hfind
  have hlt : index - 1 < cache.length := by omega
  rw [follow]
  split_ifs with hopen hzero
  · simp [hopen]
  · omega
  · rw [List.getD_eq_getElem?_getD, List.getElem?_eq_getElem hlt]
    constructor
    · intro h
      obtain rfl := Option.some.inj h
      exact ⟨hopen, rfl, rfl⟩
    · rintro ⟨-, hget, hcache⟩
      obtain ⟨v, c⟩ := r
      simp_all

theorem prefix_cached {α : Type} (as : List α) (a : α) : as <+: cached true as a :=
  List.prefix_append as [a]

/-- Storing a container at its place keeps what was before it. -/
theorem prefix_set {α : Type} {as bs : List α} {a : α} (b : α) (h : cached true as a <+: bs) :
    as <+: bs.set ((cached true as a).length - 1) b := by
  obtain ⟨t, rfl⟩ := h
  have hlen : (cached true as a).length - 1 = as.length := by simp [cached]
  rw [hlen]
  exact ⟨b :: t, by simp [cached]⟩

mutual
theorem put_keeps_keys : ∀ (o : UObject) (keys : List CachedObject), keys <+: (put true keys o).2
  | .null, _ | .int _, _ | .double _, _ | .bool _, _ | .dateTime _, _ => by
      simp only [put, List.prefix_refl]
  | .bytes b, keys => by
      rw [put, putBytes_eq]
      cases cacheFind keys (.bin, b) with
      | some index => exact List.prefix_refl _
      | none => exact prefix_cached _ _
  | .string s, keys => by
      rw [put, putString_eq]
      cases cacheFind keys (.text, s) with
      | some index => exact List.prefix_refl _
      | none => exact prefix_cached _ _
  | .array xs, keys => by
      rw [put_array]
      cases cacheFind keys (.array, containerKey (.array xs)) with
      | some index => exact List.prefix_refl _
      | none => exact (prefix_cached _ _).trans (putItems_keeps_keys xs _)
  | .binder es, keys => by
      rw [put_binder]
      cases cacheFind keys (.binder, containerKey (.binder es)) with
      | some index => exact List.prefix_refl _
      | none => exact (prefix_cached _ _).trans (putEntries_keeps_keys es _)

theorem putItems_keeps_keys : ∀ (xs : List UObject) (keys : List CachedObject),
    keys <+: (putItems true keys xs).2
  | [], _ => List.prefix_refl _
  | x :: xs, keys => (put_keeps_keys x keys).trans (putItems_keeps_keys xs _)

theorem putEntries_keeps_keys : ∀ (es : List (Bytes × UObject)) (keys : List CachedObject),
    keys <+: (putEntries true keys es).2
  | [], _ => List.prefix_refl _
  | (k, v) :: es, keys =>
      ((put_keeps_keys (.string k) keys).trans (put_keeps_keys v _)).trans (putEntries_keeps_keys es _)
end

theorem rereadBlob_keeps_cache {opened : List Nat} {keys : List CachedObject} {cache : List UObject}
    {key : CachedObject} {o : UObject} {r : UObject × List UObject}
    (h : rereadBlob true opened keys cache key o = some r) : cache <+: r.2 := by
  rw [rereadBlob] at h
  split at h
  · simp only [follow_cache h, List.prefix_refl]
  · obtain rfl := Option.some.inj h
    exact prefix_cached _ _

mutual
theorem reread_keeps_cache : ∀ (o : UObject) {opened : List Nat} {keys : List CachedObject}
    {cache : List UObject} {r : UObject × List UObject},
    reread true opened keys cache o = some r → cache <+: r.2
  | .null, _, _, _, _, h => by
      rw [reread] at h
      simp only [follow_cache h, List.prefix_refl]
  | .int _, _, _, _, _, h | .double _, _, _, _, _, h | .bool _, _, _, _, _, h
  | .dateTime _, _, _, _, _, h => by
      rw [reread] at h
      obtain rfl := Option.some.inj h
      exact List.prefix_refl _
  | .bytes _, _, _, _, _, h | .string _, _, _, _, _, h => by
      rw [reread] at h
      exact rereadBlob_keeps_cache h
  | .array xs, _, keys, _, _, h => by
      rw [reread] at h
      cases hfind : cacheFind keys (.array, containerKey (.array xs)) with
      | some index =>
          rw [hfind] at h
          simp only [follow_cache h, List.prefix_refl]
      | none =>
          rw [hfind] at h
          obtain ⟨q, hq, rfl⟩ := Option.map_eq_some_iff.mp h
          exact prefix_set _ (rereadItems_keeps_cache xs hq)
  | .binder es, _, keys, _, _, h => by
      rw [reread] at h
      cases hfind : cacheFind keys (.binder, containerKey (.binder es)) with
      | some index =>
          rw [hfind] at h
          simp only [follow_cache h, List.prefix_refl]
      | none =>
          rw [hfind] at h
          obtain ⟨q, hq, rfl⟩ := Option.map_eq_some_iff.mp h
          exact prefix_set _ (rereadEntries_keeps_cache es hq)

theorem rereadItems_keeps_cache : ∀ (xs : List UObject) {opened : List Nat}
    {keys : List CachedObject} {cache : List UObject} {i : Nat} {r : List UObject × List UObject},
    rereadItems true opened keys cache i xs = some r → cache <+: r.2
  | [], _, _, _, _, _, h => by
      rw [rereadItems] at h
      obtain rfl := Option.some.inj h
      exact List.prefix_refl _
  | x :: xs, _, _, _, _, _, h => by
      rw [rereadItems] at h
      obtain ⟨r, hr, h⟩ := Option.bind_eq_some_iff.mp h
      split at h
      · obtain ⟨q, hq, rfl⟩ := Option.map_eq_some_iff.mp h
        have hxs := rereadItems_keeps_cache xs hq
        exact (reread_keeps_cache x hr).trans hxs
      · exact nomatch h

theorem rereadEntries_keeps_cache : ∀ (es : List (Bytes × UObject)) {opened : List Nat}
    {keys : List CachedObject} {cache : List UObject} {i : Nat} {fs : List (Bytes × UObject)}
    {r : List (Bytes × UObject) × List UObject},
    rereadEntries true opened keys cache i fs es = some r → cache <+: r.2
  | [], _, _, _, _, _, _, h => by
      rw [rereadEntries] at h
      obtain rfl := Option.some.inj h
      exact List.prefix_refl _
  | (k, v) :: es, _, _, _, _, _, _, h => by
      rw [rereadEntries] at h
      obtain ⟨r, hr, h⟩ := Option.bind_eq_some_iff.mp h
      split at h
      · obtain ⟨q, hq, h⟩ := Option.bind_eq_some_iff.mp h
        split at h
        · exact ((rereadBlob_keeps_cache hr).trans (reread_keeps_cache v hq)).trans
            (rereadEntries_keeps_cache es h)
        · exact nomatch h
      · exact nomatch h
end

/-- What stands at a place of a list stands there in what it is a prefix of. -/
theorem prefix_getElem? {α : Type} {as bs : List α} {a : α} {j : Nat} (h : as <+: bs)
    (hj : as[j]? = some a) : bs[j]? = some a := by
  obtain ⟨t, rfl⟩ := h
  obtain ⟨hlt, -⟩ := List.getElem?_eq_some_iff.mp hj
  rw [List.getElem?_append_left hlt, hj]

theorem cached_getElem?_last {α : Type} (as : List α) (a : α) :
    (cached true as a)[as.length]? = some a := by
  simp [cached]

theorem cached_getElem?_cases {α : Type} {as : List α} {a b : α} {j : Nat}
    (h : (cached true as a)[j]? = some b) : as[j]? = some b ∨ j = as.length ∧ b = a := by
  obtain ⟨hlt, -⟩ := List.getElem?_eq_some_iff.mp h
  rw [cached, if_pos rfl, List.length_append, List.length_singleton] at hlt
  rcases Nat.lt_succ_iff_lt_or_eq.mp hlt with hlt | rfl
  · rw [cached, if_pos rfl, List.getElem?_append_left hlt] at h
    exact .inl h
  · rw [cached_getElem?_last] at h
    exact .inr ⟨rfl, (Option.some.inj h).symm⟩

/-! ### Texts stand under their keys -/

/-- Under the key of a string stands that string. -/
structure Texts (keys : List CachedObject) (cache : List UObject) : Prop where
  sync : keys.length = cache.length
  text : ∀ (j : Nat) (s : Bytes), keys[j]? = some (CacheType.text, s) →
    cache[j]? = some (UObject.string s)

namespace Texts
variable {keys : List CachedObject} {cache : List UObject}

theorem push (h : Texts keys cache) (k : CachedObject) (v : UObject)
    (hk : ∀ s, k = (.text, s) → v = .string s) :
    Texts (cached true keys k) (cached true cache v) := by
  refine ⟨cached_length _ _ h.sync, fun j s hj => ?_⟩
  rcases cached_getElem?_cases hj with hold | ⟨rfl, hnew⟩
  · exact prefix_getElem? (prefix_cached _ _) (h.text j s hold)
  · rw [hk s hnew.symm, h.sync]
    exact cached_getElem?_last _ _

/-- A container may be stored at its place. -/
theorem store (h : Texts keys cache) {j : Nat} (k : CachedObject) (v : UObject)
    (hj : keys[j]? = some k) (hk : k.1 ≠ .text) : Texts keys (cache.set j v) := by
  refine ⟨by rw [List.length_set, h.sync], fun i s hi => ?_⟩
  have hne : j ≠ i := by
    rintro rfl
    rw [hj] at hi
    exact hk (congrArg Prod.fst (Option.some.inj hi))
  rw [List.getElem?_set_ne hne]
  exact h.text i s hi

end Texts

theorem hit_texts {opened : List Nat} {keys : List CachedObject} {cache : List UObject}
    {index : Nat} {k : CachedObject} {o : UObject} {r : UObject × List UObject}
    (h : Texts keys cache) (hkey : cacheKey o = some k) (hfind : cacheFind keys k = some index)
    (hr : reread true opened keys cache o = some r) : Texts (put true keys o).2 r.2 := by
  obtain ⟨hread, hput⟩ := reread_hit opened cache hkey hfind
  rw [hread] at hr
  obtain ⟨-, -, hcache⟩ := (follow_some h.sync hfind).mp hr
  rw [hput, hcache]
  exact h

/-- A key of a map is read back as itself. -/
theorem text_texts {opened : List Nat} {keys : List CachedObject} {cache : List UObject}
    {s : Bytes} {r : UObject × List UObject} (h : Texts keys cache)
    (hr : rereadBlob true opened keys cache (.text, s) (.string s) = some r) :
    r.1 = .string s ∧ Texts (putString true keys s).2 r.2 := by
  rw [rereadBlob] at hr
  rw [putString_eq]
  cases hfind : cacheFind keys (.text, s) with
  | some index =>
      rw [hfind] at hr
      obtain ⟨-, hget, hcache⟩ := (follow_some h.sync hfind).mp hr
      obtain ⟨-, -, hkey⟩ := cacheFind_some hfind
      rw [h.text _ s hkey] at hget
      rw [hcache]
      exact ⟨(Option.some.inj hget).symm, h⟩
  | none =>
      rw [hfind] at hr
      obtain rfl := Option.some.inj hr
      refine ⟨rfl, h.push _ _ fun s' he => ?_⟩
      rw [(Prod.mk.inj he).2]

mutual
theorem reread_texts : ∀ (o : UObject) {opened : List Nat} {keys : List CachedObject}
    {cache : List UObject} {r : UObject × List UObject}, Texts keys cache →
    reread true opened keys cache o = some r → Texts (put true keys o).2 r.2
  | .null, _, _, _, _, h, hr => by
      rw [reread, follow_null] at hr
      obtain ⟨-, rfl⟩ := hr
      rw [put]
      exact h
  | .int _, _, _, _, _, h, hr | .double _, _, _, _, _, h, hr
  | .bool _, _, _, _, _, h, hr | .dateTime _, _, _, _, _, h, hr => by
      rw [reread] at hr
      obtain rfl := Option.some.inj hr
      rw [put]
      exact h
  | .bytes b, _, keys, _, _, h, hr => by
      cases hfind : cacheFind keys (.bin, b) with
      | some index => exact hit_texts h rfl hfind hr
      | none =>
          rw [reread, rereadBlob, hfind] at hr
          obtain rfl := Option.some.inj hr
          rw [put, putBytes_eq, hfind]
          exact h.push _ _ fun s he => nomatch he
  | .string s, _, keys, _, _, h, hr => by
      rw [reread] at hr
      exact (text_texts h hr).2
  | .array xs, opened, keys, cache, r, h, hr => by
      cases hfind : cacheFind keys (.array, containerKey (.array xs)) with
      | some index => exact hit_texts h rfl hfind hr
      | none =>
          rw [reread, hfind] at hr
          obtain ⟨q, hq, rfl⟩ := Option.map_eq_some_iff.mp hr
          have hstart := h.push (.array, containerKey (.array xs)) (.array []) fun s he => nomatch he
          have h' := rereadItems_texts xs hstart hq
          rw [put_array, hfind]
          refine h'.store (.array, containerKey (.array xs)) _ ?_ (by simp)
          rw [← cached_length (.array, containerKey (.array xs)) _ h.sync]
          exact prefix_getElem? (putItems_keeps_keys xs _) (by simp [cached])
  | .binder es, opened, keys, cache, r, h, hr => by
      cases hfind : cacheFind keys (.binder, containerKey (.binder es)) with
      | some index => exact hit_texts h rfl hfind hr
      | none =>
          rw [reread, hfind] at hr
          obtain ⟨q, hq, rfl⟩ := Option.map_eq_some_iff.mp hr
          have hstart := h.push (.binder, containerKey (.binder es)) (.binder []) fun s he => nomatch he
          have h' := rereadEntries_texts es hstart hq
          rw [put_binder, hfind]
          refine h'.store (.binder, containerKey (.binder es)) _ ?_ (by simp)
          rw [← cached_length (.binder, containerKey (.binder es)) _ h.sync]
          exact prefix_getElem? (putEntries_keeps_keys es _) (by simp [cached])

theorem rereadItems_texts : ∀ (xs : List UObject) {opened : List Nat}
    {keys : List CachedObject} {cache : List UObject} {i : Nat} {r : List UObject × List UObject},
    Texts keys cache → rereadItems true opened keys cache i xs = some r →
    Texts (putItems true keys xs).2 r.2
  | [], _, _, _, _, _, h, hr => by
      rw [rereadItems] at hr
      obtain rfl := Option.some.inj hr
      exact h
  | x :: xs, _, _, _, _, _, h, hr => by
      rw [rereadItems] at hr
      obtain ⟨p, hp, hr⟩ := Option.bind_eq_some_iff.mp hr
      split at hr
      · obtain ⟨q, hq, rfl⟩ := Option.map_eq_some_iff.mp hr
        have h' := rereadItems_texts xs (reread_texts x h hp) hq
        exact h'
      · exact nomatch hr

theorem rereadEntries_texts : ∀ (es : List (Bytes × UObject)) {opened : List Nat}
    {keys : List CachedObject} {cache : List UObject} {i : Nat} {fs : List (Bytes × UObject)}
    {r : List (Bytes × UObject) × List UObject}, Texts keys cache →
    rereadEntries true opened keys cache i fs es = some r → Texts (putEntries true keys es).2 r.2
  | [], _, _, _, _, _, _, h, hr => by
      rw [rereadEntries] at hr
      obtain rfl := Option.some.inj hr
      exact h
  | (k, v) :: es, _, _, _, _, _, _, h, hr => by
      rw [rereadEntries] at hr
      obtain ⟨⟨key, cache₁⟩, hp, hr⟩ := Option.bind_eq_some_iff.mp hr
      obtain ⟨rfl, h₁⟩ := text_texts h hp
      obtain ⟨q, hq, hr⟩ := Option.bind_eq_some_iff.mp hr
      split at hr
      · exact rereadEntries_texts es (reread_texts v h₁ hq) hr
      · exact nomatch hr
end

end Universa.Boss
