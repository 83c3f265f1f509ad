import Universa.Boss.TreeMode

/-! What a round trip in tree mode says of the values. A value is settled when it and all there is
    inside it stand in the reader's cache under the writer's keys. Reading a value back as itself
    settles it, one step of the recursion at a time, so in the end two containers with one key are
    one container, no counter overflowed and no date-time was before 1970. -/

namespace Universa.Boss
open Wire UObject

/-- What the counters and the clock bring back: containers an `int` counts, date-times from 1970. -/
def Restores : UObject → Prop
  | .dateTime count => 0 ≤ count.toInt
  | .array xs => xs.length < 2 ^ 31
  | .binder es => es.length < 2 ^ 31
  | _ => True

/-- The leaves round trips are asked of: no negative zero, whole seconds. -/
def TreeLeaf : UObject → Prop
  | .double d => d ≠ dNegZero
  | .dateTime count => count.toInt % den = 0
  | _ => True

/-- The value is in the reader's cache where its key is in the writer's, and no longer open. -/
def Stands (keys : List CachedObject) (cache : List UObject) (opened : List Nat) (c : UObject)
    (k : CachedObject) : Prop :=
  ∃ j, keys[j]? = some k ∧ cache[j]? = some c ∧ j + 1 ∉ opened

/-- The value and all there is inside it stand in the cache, and are values that come back. -/
def Settled (keys : List CachedObject) (cache : List UObject) (opened : List Nat)
    (o : UObject) : Prop :=
  o.All fun c => Restores c ∧ ∀ k, cacheKey c = some k → Stands keys cache opened c k

/-- Every closed entry of the cache is settled, and no two entries have one key. -/
structure CacheInv (keys : List CachedObject) (cache : List UObject) (opened : List Nat) :
    Prop where
  sync : keys.length = cache.length
  nodup : keys.Nodup
  opened_le : ∀ i ∈ opened, i ≤ cache.length
  settled : ∀ j v, cache[j]? = some v → j + 1 ∉ opened → Settled keys cache opened v

theorem Stands.mono {keys keys' : List CachedObject} {cache cache' : List UObject}
    {opened : List Nat} {c : UObject} {k : CachedObject} (hkeys : keys <+: keys')
    (hcache : cache <+: cache') (h : Stands keys cache opened c k) :
    Stands keys' cache' opened c k := by
  obtain ⟨j, hk, hc, hopen⟩ := h
  exact ⟨j, prefix_getElem? hkeys hk, prefix_getElem? hcache hc, hopen⟩

theorem Settled.mono {keys keys' : List CachedObject} {cache cache' : List UObject}
    {opened : List Nat} {o : UObject} (hkeys : keys <+: keys') (hcache : cache <+: cache')
    (h : Settled keys cache opened o) : Settled keys' cache' opened o :=
  fun c hc => ⟨(h c hc).1, fun k hk => ((h c hc).2 k hk).mono hkeys hcache⟩

namespace CacheInv
variable {keys : List CachedObject} {cache : List UObject} {opened : List Nat}

theorem fresh_nodup (h : CacheInv keys cache opened) {k : CachedObject} (hk : k ∉ keys) :
    (cached true keys k).Nodup := by
  rw [cached, if_pos rfl, List.nodup_append]
  refine ⟨h.nodup, by simp, fun a ha b hb => ?_⟩
  rw [List.mem_singleton.mp hb]
  rintro rfl
  exact hk ha

/-- The place after the last is not open. -/
theorem last_closed (h : CacheInv keys cache opened) : cache.length + 1 ∉ opened :=
  fun hopen => absurd (h.opened_le _ hopen) (by omega)

/-- A leaf enters the cache. -/
theorem push (h : CacheInv keys cache opened) {k : CachedObject} {v : UObject} (hk : k ∉ keys)
    (hkey : cacheKey v = some k) (hleaf : v.subs = [v]) (hv : Restores v) :
    CacheInv (cached true keys k) (cached true cache v) opened ∧
      Settled (cached true keys k) (cached true cache v) opened v := by
  have hstands : Stands (cached true keys k) (cached true cache v) opened v k := by
    refine ⟨cache.length, ?_, cached_getElem?_last _ _, h.last_closed⟩
    rw [← h.sync]
    exact cached_getElem?_last _ _
  have hsettled : Settled (cached true keys k) (cached true cache v) opened v := by
    intro c hc
    rw [hleaf, List.mem_singleton] at hc
    subst hc
    refine ⟨hv, fun k' hk' => ?_⟩
    rw [hkey] at hk'
    obtain rfl := Option.some.inj hk'
    exact hstands
  refine ⟨⟨cached_length _ _ h.sync, h.fresh_nodup hk, ?_, ?_⟩, hsettled⟩
  · intro i hi
    exact Nat.le_trans (h.opened_le i hi) (prefix_cached cache v).length_le
  · intro j w hw hopen
    rcases cached_getElem?_cases hw with hold | ⟨-, rfl⟩
    · exact (h.settled j w hold hopen).mono (prefix_cached _ _) (prefix_cached _ _)
    · exact hsettled

/-- A container enters the cache, open. -/
theorem enter (h : CacheInv keys cache opened) {k : CachedObject} (hk : k ∉ keys)
    (empty : UObject) :
    CacheInv (cached true keys k) (cached true cache empty)
      ((cached true cache empty).length :: opened) := by
  have hlen : (cached true cache empty).length = cache.length + 1 := by simp [cached]
  refine ⟨cached_length _ _ h.sync, h.fresh_nodup hk, ?_, ?_⟩
  · intro i hi
    rcases List.mem_cons.mp hi with rfl | hi
    · exact Nat.le_refl _
    · exact Nat.le_trans (h.opened_le i hi) (prefix_cached cache empty).length_le
  · intro j w hw hopen
    obtain ⟨hnew, hopen⟩ := not_or.mp fun hor => hopen (List.mem_cons.mpr hor)
    rcases cached_getElem?_cases hw with hold | ⟨rfl, -⟩
    · intro c hc
      obtain ⟨hr, hstands⟩ := h.settled j w hold hopen c hc
      refine ⟨hr, fun k' hk' => ?_⟩
      obtain ⟨i, hi, hci, hiopen⟩ := hstands k' hk'
      obtain ⟨hlt, -⟩ := List.getElem?_eq_some_iff.mp hci
      refine ⟨i, prefix_getElem? (prefix_cached _ _) hi, prefix_getElem? (prefix_cached _ _) hci, ?_⟩
      rw [hlen]
      exact fun hin => (List.mem_cons.mp hin).elim (by omega) hiopen
    · omega

/-- A container whose parts are settled is stored at its place, and closed. -/
theorem close {n : Nat} (h : CacheInv keys cache ((n + 1) :: opened)) (hopen : n + 1 ∉ opened)
    (k : CachedObject) {v : UObject} (hn : keys[n]? = some k) (hkey : cacheKey v = some k)
    (hv : Restores v)
    (hparts : ∀ c ∈ v.subs, c = v ∨ Restores c ∧ ∀ k, cacheKey c = some k →
      Stands keys cache ((n + 1) :: opened) c k) :
    CacheInv keys (cache.set n v) opened ∧ Settled keys (cache.set n v) opened v := by
  have hlt : n < cache.length := by
    obtain ⟨hlt, -⟩ := List.getElem?_eq_some_iff.mp hn
    rw [← h.sync]
    exact hlt
  have hother : ∀ {c k'}, Stands keys cache ((n + 1) :: opened) c k' →
      Stands keys (cache.set n v) opened c k' := by
    rintro c k' ⟨j, hj, hc, hjopen⟩
    obtain ⟨hne, hjopen⟩ := not_or.mp fun hor => hjopen (List.mem_cons.mpr hor)
    refine ⟨j, hj, ?_, hjopen⟩
    rw [List.getElem?_set_ne (by omega)]
    exact hc
  have hsettled : Settled keys (cache.set n v) opened v := by
    intro c hc
    rcases hparts c hc with rfl | ⟨hr, hstands⟩
    · refine ⟨hv, fun k' hk' => ⟨n, ?_, ?_, hopen⟩⟩
      · rw [hn, ← hkey, hk']
      · rw [List.getElem?_set_self hlt]
    · exact ⟨hr, fun k' hk' => hother (hstands k' hk')⟩
  refine ⟨⟨by rw [List.length_set, h.sync], h.nodup, ?_, ?_⟩, hsettled⟩
  · intro i hi
    rw [List.length_set]
    exact h.opened_le i (List.mem_cons_of_mem _ hi)
  · intro j w hw hjopen
    by_cases hj : n = j
    · subst hj
      rw [List.getElem?_set_self hlt] at hw
      obtain rfl := Option.some.inj hw
      exact hsettled
    · rw [List.getElem?_set_ne hj] at hw
      have hout : j + 1 ∉ (n + 1) :: opened := fun hin =>
        (List.mem_cons.mp hin).elim (by omega) hjopen
      exact fun c hc => ⟨(h.settled j w hw hout c hc).1, fun k' hk' =>
        hother ((h.settled j w hw hout c hc).2 k' hk')⟩

end CacheInv

/-- The clock brings back whole seconds from 1970 on, and no others. -/
theorem rereadTime_iff {count : BitVec 64} (h : count.toInt % den = 0) :
    rereadTime count = count ↔ 0 ≤ count.toInt := by
  have hlt := count.isLt
  have hint : count.toInt = if 2 * count.toNat < 2 ^ 64 then (count.toNat : Int)
      else (count.toNat : Int) - (2 ^ 64 : Nat) := BitVec.toInt_eq_toNat_cond count
  have hmul : count.toNat / den * den ≤ count.toNat := Nat.div_mul_le_self _ _
  rw [rereadTime, fromSeconds, ← BitVec.toNat_inj, BitVec.toNat_ofNat,
    Nat.mod_eq_of_lt (lt_of_le_of_lt hmul hlt)]
  simp only [den] at h ⊢
  split_ifs at hint <;> omega

/-- A value that has no key is settled when it comes back. -/
theorem leaf_settled {keys : List CachedObject} {cache : List UObject} {opened : List Nat}
    {v : UObject} (hkey : cacheKey v = none) (hleaf : v.subs = [v]) (hv : Restores v) :
    Settled keys cache opened v := by
  intro c hc
  rw [hleaf, List.mem_singleton] at hc
  subst hc
  exact ⟨hv, fun k hk => by rw [hkey] at hk; exact nomatch hk⟩

/-- A reference that is read as the value it was written for settles it. -/
theorem hit_settled {opened : List Nat} {keys : List CachedObject} {cache : List UObject}
    {index : Nat} {k : CachedObject} {o : UObject} {r : UObject × List UObject}
    (h : CacheInv keys cache opened) (hkey : cacheKey o = some k)
    (hfind : cacheFind keys k = some index) (hr : reread true opened keys cache o = some r)
    (hsame : r.1 = o) :
    CacheInv (put true keys o).2 r.2 opened ∧ Settled (put true keys o).2 r.2 opened o := by
  obtain ⟨hread, hput⟩ := reread_hit opened cache hkey hfind
  rw [hread] at hr
  obtain ⟨hopen, hget, hcache⟩ := (follow_some h.sync hfind).mp hr
  obtain ⟨hpos, -, -⟩ := cacheFind_some hfind
  rw [hput, hcache]
  rw [hsame] at hget
  exact ⟨h, h.settled (index - 1) o hget (by rwa [Nat.sub_add_cancel hpos])⟩

/-- A string, or a key of a map, that comes back is settled. -/
theorem text_settled {opened : List Nat} {keys : List CachedObject} {cache : List UObject}
    {s : Bytes} {r : UObject × List UObject} (h : CacheInv keys cache opened)
    (hr : rereadBlob true opened keys cache (.text, s) (.string s) = some r)
    (hsame : r.1 = .string s) :
    CacheInv (putString true keys s).2 r.2 opened ∧
      Settled (putString true keys s).2 r.2 opened (.string s) := by
  cases hfind : cacheFind keys (.text, s) with
  | some index => exact hit_settled h rfl hfind (by rw [reread, hr]) hsame
  | none =>
      rw [rereadBlob, hfind] at hr
      obtain rfl := Option.some.inj hr
      rw [putString_eq, hfind]
      exact h.push (cacheFind_none.mp hfind) rfl rfl trivial

mutual
/-- Reading a value back as itself settles it, and keeps the cache settled. -/
theorem reread_settled : ∀ (o : UObject) {opened : List Nat} {keys : List CachedObject}
    {cache : List UObject} {r : UObject × List UObject}, o.All WellFormed →
    o.All TreeLeaf → Texts keys cache → CacheInv keys cache opened →
    reread true opened keys cache o = some r → r.1 = o →
    CacheInv (put true keys o).2 r.2 opened ∧ Settled (put true keys o).2 r.2 opened o
  | .null, _, _, _, _, _, _, _, h, hr, _ => by
      rw [reread, follow_null] at hr
      obtain ⟨-, rfl⟩ := hr
      rw [put]
      exact ⟨h, leaf_settled rfl rfl trivial⟩
  | .int _, _, _, _, _, _, _, _, h, hr, _ | .double _, _, _, _, _, _, _, _, h, hr, _
  | .bool _, _, _, _, _, _, _, _, h, hr, _ => by
      rw [reread] at hr
      obtain rfl := Option.some.inj hr
      rw [put]
      exact ⟨h, leaf_settled rfl rfl trivial⟩
  | .dateTime count, _, _, _, _, _, hleaf, _, h, hr, hsame => by
      rw [reread] at hr
      obtain rfl := Option.some.inj hr
      have htime : 0 ≤ count.toInt := (rereadTime_iff hleaf.self).mp (UObject.dateTime.inj hsame)
      rw [put]
      exact ⟨h, leaf_settled rfl rfl htime⟩
  | .bytes b, _, keys, _, _, _, _, _, h, hr, hsame => by
      cases hfind : cacheFind keys (.bin, b) with
      | some index => exact hit_settled h rfl hfind hr hsame
      | none =>
          rw [reread, rereadBlob, hfind] at hr
          obtain rfl := Option.some.inj hr
          rw [put, putBytes_eq, hfind]
          exact h.push (cacheFind_none.mp hfind) rfl rfl trivial
  | .string s, _, _, _, _, _, _, _, h, hr, hsame => by
      rw [reread] at hr
      exact text_settled h hr hsame
  | .array xs, opened, keys, cache, r, hwf, hleaf, ht, h, hr, hsame => by
      cases hfind : cacheFind keys (.array, containerKey (.array xs)) with
      | some index => exact hit_settled h rfl hfind hr hsame
      | none =>
          rw [reread, hfind] at hr
          obtain ⟨q, hq, rfl⟩ := Option.map_eq_some_iff.mp hr
          have hitems : q.1 = xs := UObject.array.inj hsame
          have hlen : (cached true cache (.array [])).length - 1 + 1
              = (cached true cache (.array [])).length := by simp [cached]
          have hstart := ht.push (.array, containerKey (.array xs)) (.array [])
            fun s he => nomatch he
          obtain ⟨h₁, hparts, hcount⟩ := rereadItems_settled xs (all_array.mp hwf).2
            (all_array.mp hleaf).2 hstart
            (h.enter (cacheFind_none.mp hfind) (.array [])) hq hitems
          rw [put_array, hfind]
          rw [← hlen] at h₁ hparts
          dsimp only
          rw [hitems]
          refine h₁.close ?_ (.array, containerKey (.array xs)) ?_ rfl ?_ ?_
          · rw [hlen]
            simpa [cached] using h.last_closed
          · rw [← cached_length (.array, containerKey (.array xs)) _ h.sync]
            exact prefix_getElem? (putItems_keeps_keys xs _) (by simp [cached])
          · show xs.length < 2 ^ 31
            rcases hcount with hcount | rfl
            · omega
            · norm_num
          · intro c hc
            rcases List.mem_cons.mp hc with rfl | hc
            · exact .inl rfl
            · obtain ⟨x, hx, hc⟩ := mem_subsItems.mp hc
              exact .inr (hparts x hx c hc)
  | .binder es, opened, keys, cache, r, hwf, hleaf, ht, h, hr, hsame => by
      cases hfind : cacheFind keys (.binder, containerKey (.binder es)) with
      | some index => exact hit_settled h rfl hfind hr hsame
      | none =>
          rw [reread, hfind] at hr
          obtain ⟨q, hq, rfl⟩ := Option.map_eq_some_iff.mp hr
          have hentries : q.1 = es := UObject.binder.inj hsame
          have hlen : (cached true cache (.binder [])).length - 1 + 1
              = (cached true cache (.binder [])).length := by simp [cached]
          have hstart := ht.push (.binder, containerKey (.binder es)) (.binder [])
            fun s he => nomatch he
          obtain ⟨hsorted, hwfs⟩ := all_binder.mp hwf
          obtain ⟨gs, hgs, hsettle⟩ := rereadEntries_settled es (fun e he => (hwfs e he).2)
            (fun e he => ((all_binder.mp hleaf).2 e he).2) hsorted (by simp) hstart hq
          obtain ⟨h₁, hparts, hcount⟩ := hsettle (h.enter (cacheFind_none.mp hfind) (.binder []))
            (by rw [← hentries, hgs, List.nil_append])
          rw [put_binder, hfind]
          rw [← hlen] at h₁ hparts
          dsimp only
          rw [hentries]
          refine h₁.close ?_ (.binder, containerKey (.binder es)) ?_ rfl ?_ ?_
          · rw [hlen]
            simpa [cached] using h.last_closed
          · rw [← cached_length (.binder, containerKey (.binder es)) _ h.sync]
            exact prefix_getElem? (putEntries_keeps_keys es _) (by simp [cached])
          · show es.length < 2 ^ 31
            rcases hcount with hcount | rfl
            · omega
            · norm_num
          · intro c hc
            rcases List.mem_cons.mp hc with rfl | hc
            · exact .inl rfl
            · obtain ⟨e, he, rfl | hc⟩ := mem_subsEntries.mp hc
              · exact .inr ((hparts e he).1 _ (mem_subs_self _))
              · exact .inr ((hparts e he).2 c hc)

theorem rereadItems_settled : ∀ (xs : List UObject) {opened : List Nat}
    {keys : List CachedObject} {cache : List UObject} {i : Nat} {r : List UObject × List UObject},
    (∀ x ∈ xs, x.All WellFormed) → (∀ x ∈ xs, x.All TreeLeaf) →
    Texts keys cache → CacheInv keys cache opened →
    rereadItems true opened keys cache i xs = some r → r.1 = xs →
    CacheInv (putItems true keys xs).2 r.2 opened ∧
      (∀ x ∈ xs, Settled (putItems true keys xs).2 r.2 opened x) ∧
      (i + xs.length < 2 ^ 31 ∨ xs = [])
  | [], _, _, _, _, _, _, _, _, h, hr, _ => by
      rw [rereadItems] at hr
      obtain rfl := Option.some.inj hr
      exact ⟨h, by simp, .inr rfl⟩
  | x :: xs, opened, keys, _, i, _, hwf, hleaf, ht, h, hr, hsame => by
      rw [rereadItems] at hr
      obtain ⟨p, hp, hr⟩ := Option.bind_eq_some_iff.mp hr
      split at hr
      · next hi =>
        obtain ⟨q, hq, rfl⟩ := Option.map_eq_some_iff.mp hr
        obtain ⟨hx, hxs⟩ := List.cons.inj hsame
        have ht₁ := reread_texts x ht hp
        obtain ⟨h₁, hsx⟩ := reread_settled x (hwf x (by simp)) (hleaf x (by simp)) ht h hp hx
        obtain ⟨h₂, hsxs, hcount⟩ := rereadItems_settled xs
          (fun z hz => hwf z (List.mem_cons_of_mem _ hz))
          (fun z hz => hleaf z (List.mem_cons_of_mem _ hz)) ht₁ h₁ hq hxs
        have hkeep := rereadItems_keeps_cache xs hq
        refine ⟨h₂, fun z hz => ?_, .inl ?_⟩
        · rcases List.mem_cons.mp hz with rfl | hz
          · exact hsx.mono (putItems_keeps_keys xs _) hkeep
          · exact hsxs z hz
        · rw [List.length_cons]
          rcases hcount with hcount | rfl
          · omega
          · exact hi
      · exact nomatch hr

/-- What is read is put after what was there, the keys ascending. -/
theorem rereadEntries_settled : ∀ (es : List (Bytes × UObject)) {opened : List Nat}
    {keys : List CachedObject} {cache : List UObject} {i : Nat} {fs : List (Bytes × UObject)}
    {r : List (Bytes × UObject) × List UObject}, (∀ e ∈ es, e.2.All WellFormed) →
    (∀ e ∈ es, e.2.All TreeLeaf) → Ascending es → (∀ f ∈ fs, ∀ e ∈ es, keyLt f.1 e.1 = true) →
    Texts keys cache → rereadEntries true opened keys cache i fs es = some r →
    ∃ gs, r.1 = fs ++ gs ∧ (CacheInv keys cache opened → gs = es →
      CacheInv (putEntries true keys es).2 r.2 opened ∧
      (∀ e ∈ es, Settled (putEntries true keys es).2 r.2 opened (.string e.1) ∧
        Settled (putEntries true keys es).2 r.2 opened e.2) ∧
      (i + es.length < 2 ^ 31 ∨ es = []))
  | [], _, _, _, _, fs, _, _, _, _, _, _, hr => by
      rw [rereadEntries] at hr
      obtain rfl := Option.some.inj hr
      exact ⟨[], (List.append_nil fs).symm, fun h _ => ⟨h, by simp, .inr rfl⟩⟩
  | (k, v) :: es, opened, keys, cache, i, fs, r, hwf, hleaf, hsorted, hfs, ht, hr => by
      rw [rereadEntries] at hr
      obtain ⟨⟨key, cache₁⟩, hp, hr⟩ := Option.bind_eq_some_iff.mp hr
      obtain ⟨rfl, ht₁⟩ := text_texts ht hp
      obtain ⟨q, hq, hr⟩ := Option.bind_eq_some_iff.mp hr
      split at hr
      · next hi =>
        obtain ⟨hkes, hsorted⟩ := List.pairwise_cons.mp hsorted
        have ht₂ := reread_texts v ht₁ hq
        have hfs' : ∀ f ∈ fs ++ [(k, q.1)], ∀ e ∈ es, keyLt f.1 e.1 = true := by
          intro f hf e he
          rcases List.mem_append.mp hf with hf | hf
          · exact hfs f hf e (List.mem_cons_of_mem _ he)
          · rw [List.mem_singleton.mp hf]
            exact hkes e he
        rw [set_append k q.1 fs fun f hf => hfs f hf (k, v) (by simp)] at hr
        obtain ⟨gs, hgs, hsettle⟩ := rereadEntries_settled es
          (fun e he => hwf e (List.mem_cons_of_mem _ he))
          (fun e he => hleaf e (List.mem_cons_of_mem _ he)) hsorted hfs' ht₂ hr
        refine ⟨(k, q.1) :: gs, by rw [hgs, List.append_assoc]; rfl, fun h heq => ?_⟩
        obtain ⟨hhead, htail⟩ := List.cons.inj heq
        obtain ⟨h₁, hsk⟩ := text_settled h hp rfl
        obtain ⟨h₂, hsv⟩ := reread_settled v (hwf (k, v) (by simp)) (hleaf (k, v) (by simp))
          ht₁ h₁ hq (Prod.mk.inj hhead).2
        obtain ⟨h₃, hses, hcount⟩ := hsettle h₂ htail
        have hkeepv := reread_keeps_cache v hq
        have hkeep := rereadEntries_keeps_cache es hr
        refine ⟨h₃, fun e he => ?_, .inl ?_⟩
        · rcases List.mem_cons.mp he with rfl | he
          · exact ⟨(hsk.mono (put_keeps_keys v _) hkeepv).mono (putEntries_keeps_keys es _) hkeep,
              hsv.mono (putEntries_keeps_keys es _) hkeep⟩
          · exact hses e he
        · rw [List.length_cons]
          rcases hcount with hcount | rfl
          · omega
          · exact hi
      · exact nomatch hr
end

end Universa.Boss
