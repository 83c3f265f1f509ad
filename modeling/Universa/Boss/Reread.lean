import Universa.Boss.Parse

/-! Reading back what the writer wrote, in one function on values: `reread` says what the reader makes
    of the bytes of a `put`, from the keys the writer holds, the reader's cache and its open
    containers. `object_put` is the bridge: on those bytes, whatever follows them, the parser gives
    `reread`. What is left of a round trip is to compare `reread` with the identity. -/

namespace Universa.Boss
open Wire UObject

/-! ### Headers are read as written -/

/-- The first byte of a header holds the code and five bits. -/
theorem header_byte {code v : Nat} (hcode : code < 8) (hv : v < 32) :
    (UInt8.ofNat (code ||| v <<< 3)).toNat &&& 7 = code ∧
      (UInt8.ofNat (code ||| v <<< 3)).toNat >>> 3 = v := by
  have h : ∀ c < 8, ∀ w < 32, (UInt8.ofNat (c ||| w <<< 3)).toNat &&& 7 = c ∧
      (UInt8.ofNat (c ||| w <<< 3)).toNat >>> 3 = w := by decide +kernel
  exact h code hcode v hv

theorem byte_cons {s : Rest} {b : UInt8} {rest : Bytes} (h : s.rest = b :: rest) :
    Parse.byte s = some (b, { s with rest := rest }) := by
  simp only [Parse.byte, h]

theorem take_append {s : Rest} {b post : Bytes} (h : s.rest = b ++ post) :
    Parse.take b.length s = some (b, { s with rest := post }) := by
  rw [Parse.take, h, if_pos (by simp)]
  simp

theorem long_leBytes {s : Rest} {n v : Nat} {post : Bytes} (hn : n ≤ 8) (hv : v < 256 ^ n)
    (h : s.rest = leBytes n v ++ post) :
    Parse.long n s = some (v, { s with rest := post }) := by
  have htake := take_append h
  rw [leBytes_length] at htake
  rw [Parse.long, if_neg (by omega), Parse.bind_apply, htake, Option.bind_some, Parse.pure_apply,
    leValue_leBytes n v hv]

theorem header_writeHeader {s : Rest} {code v : Nat} {post : Bytes} (hcode : code < 8)
    (hv : v < 2 ^ 64) (h : s.rest = writeHeader code v ++ post) :
    Parse.header s = some (⟨code, v⟩, { s with rest := post }) := by
  rw [writeHeader_eq] at h
  by_cases hsmall : v < 23
  · rw [if_pos hsmall] at h
    obtain ⟨hc, hb⟩ := header_byte hcode (show v < 32 by omega)
    rw [Parse.header, Parse.bind_apply, byte_cons h, Option.bind_some]
    simp only [hc, hb, if_neg (show ¬ v ≥ 31 by omega), if_neg (show ¬ v > 22 by omega)]
    rfl
  · rw [if_neg hsmall] at h
    have hle := sizeInBytes_le v
    have hge := one_le_sizeInBytes v
    obtain ⟨hc, hb⟩ := header_byte hcode (show sizeInBytes v + 22 < 32 by omega)
    rw [Parse.header, Parse.bind_apply, byte_cons h, Option.bind_some]
    simp only [hc, hb, if_neg (show ¬ sizeInBytes v + 22 ≥ 31 by omega),
      if_pos (show sizeInBytes v + 22 > 22 by omega), Nat.add_sub_cancel]
    rw [Parse.bind_apply, long_leBytes hle (lt_sizeInBytes hv) rfl]
    rfl

/-- Groups are joined back from the lowest. -/
theorem groupsFrom_groups : ∀ (fuel shift value v : Nat) (post : Bytes), v < 128 ^ (fuel + 1) →
    value < 2 ^ shift → shift + 7 * fuel < 64 → value + v * 2 ^ shift < 2 ^ 64 →
    Parse.groupsFrom shift value (groups fuel v ++ post) = some (value + v * 2 ^ shift, post)
  | 0, shift, value, v, post, hv, hvalue, hshift, hsum => by
      have hv : v < 128 := by simpa using hv
      have hbyte := last_group hv
      rw [groups, List.singleton_append, Parse.groupsFrom]
      have hstop : (UInt8.ofNat (v ||| 0x80)).toNat &&& 0x80 ≠ 0 := by
        rw [stop_bit, hbyte]
        omega
      generalize UInt8.ofNat (v ||| 0x80) = b at hbyte hstop ⊢
      rw [hbyte] at hstop
      simp only [hbyte, group_bits, Nat.add_mod_right, Nat.mod_eq_of_lt hv,
        Nat.mod_eq_of_lt (show shift < 64 by omega), or_shift v hvalue, Nat.mod_eq_of_lt hsum]
      rw [if_pos hstop]
  | fuel + 1, shift, value, v, post, hv, hvalue, hshift, hsum => by
      rw [groups]
      by_cases hmore : v > 0x7F
      · rw [if_pos hmore, List.cons_append, Parse.groupsFrom]
        have hbyte := low_group v
        have hstop : ¬ ((UInt8.ofNat (v &&& 0x7F)).toNat &&& 0x80 ≠ 0) := by
          rw [stop_bit, hbyte]
          omega
        have hdiv : v >>> 7 = v / 128 := Nat.shiftRight_eq_div_pow v 7
        have hsplit : value + v * 2 ^ shift
            = (value + v % 128 * 2 ^ shift) + v / 128 * 2 ^ (shift + 7) := by
          have hmod : v = v % 128 + v / 128 * 128 := by omega
          rw [pow_add]
          calc value + v * 2 ^ shift
              = value + (v % 128 + v / 128 * 128) * 2 ^ shift := by rw [← hmod]
            _ = _ := by ring
        have hlow : value + v % 128 * 2 ^ shift < 2 ^ (shift + 7) := by
          have hle : v % 128 + 1 ≤ 128 := by omega
          have := Nat.mul_le_mul_right (2 ^ shift) hle
          rw [pow_add]
          linarith
        have hlow64 : value + v % 128 * 2 ^ shift < 2 ^ 64 := by
          rw [hsplit] at hsum
          omega
        generalize UInt8.ofNat (v &&& 0x7F) = b at hbyte hstop ⊢
        rw [hbyte] at hstop
        simp only [hbyte, group_bits, Nat.mod_mod, or_shift _ hvalue,
          Nat.mod_eq_of_lt (show shift < 64 by omega), Nat.mod_eq_of_lt hlow64]
        rw [if_neg hstop, hsplit, hdiv]
        refine groupsFrom_groups fuel (shift + 7) _ (v / 128) post ?_ hlow (by omega) ?_
        · rw [Nat.div_lt_iff_lt_mul (by norm_num)]
          simpa [pow_succ] using hv
        · rw [← hsplit]
          exact hsum
      · have hsingle : v < 128 ^ (0 + 1) := by simpa using by omega
        rw [if_neg hmore]
        exact groupsFrom_groups 0 shift value v post hsingle hvalue (by omega) hsum

theorem encodedLong_writeEncoded {s : Rest} {v : Nat} {post : Bytes} (hv : v < 2 ^ 64)
    (h : s.rest = writeEncoded v ++ post) :
    Parse.encodedLong s = some (v, { s with rest := post }) := by
  have hwide : v < 128 ^ (9 + 1) := lt_trans hv (by norm_num)
  have hgroups := groupsFrom_groups 9 0 0 v post hwide (by norm_num) (by norm_num) (by omega)
  rw [Parse.encodedLong, Parse.encodedFrom, h, writeEncoded, hgroups]
  simp

/-! ### What is read back -/

/-- A reference, followed by the reader. -/
def follow (opened : List Nat) (cache : List UObject) (index : Nat) :
    Option (UObject × List UObject) :=
  if index ∈ opened then none
  else if index = 0 then some (.null, cache)
  else some (cache.getD (index - 1) .null, cache)

/-- A leaf that is referred to when the writer has it. -/
def rereadBlob (treeMode : Bool) (opened : List Nat) (keys : List CachedObject)
    (cache : List UObject) (key : CachedObject) (o : UObject) : Option (UObject × List UObject) :=
  match cacheFind keys key with
  | some index => follow opened cache index
  | none => some (o, cached treeMode cache o)

/-- The zero that is written for both. -/
def rereadDouble (d : BitVec 64) : BitVec 64 := if d = dNegZero then dZero else d

/-- Nanoseconds to seconds without a sign, and back. -/
def rereadTime (count : BitVec 64) : BitVec 64 := fromSeconds (count.toNat / den)

mutual
/-- What the reader makes of the bytes of `put`, and its cache then. -/
def reread (treeMode : Bool) (opened : List Nat) (keys : List CachedObject)
    (cache : List UObject) : UObject → Option (UObject × List UObject)
  | .null => follow opened cache 0
  | .int i => some (.int i, cache)
  | .double d => some (.double (rereadDouble d), cache)
  | .bool b => some (.bool b, cache)
  | .dateTime count => some (.dateTime (rereadTime count), cache)
  | .bytes b => rereadBlob treeMode opened keys cache (.bin, b) (.bytes b)
  | .string s => rereadBlob treeMode opened keys cache (.text, s) (.string s)
  | .array xs =>
      let key := (.array, containerKey (.array xs))
      match cacheFind keys key with
      | some index => follow opened cache index
      | none =>
          let start := cached treeMode cache (.array [])
          (rereadItems treeMode (start.length :: opened) (cached treeMode keys key) start 0 xs).map
            fun r => (.array r.1, r.2.set (start.length - 1) (.array r.1))
  | .binder es =>
      let key := (.binder, containerKey (.binder es))
      match cacheFind keys key with
      | some index => follow opened cache index
      | none =>
          let start := cached treeMode cache (.binder [])
          (rereadEntries treeMode (start.length :: opened) (cached treeMode keys key)
            start 0 [] es).map
            fun r => (.binder r.1, r.2.set (start.length - 1) (.binder r.1))
termination_by structural o => o

def rereadItems (treeMode : Bool) (opened : List Nat) (keys : List CachedObject)
    (cache : List UObject) (i : Nat) : List UObject → Option (List UObject × List UObject)
  | [] => some ([], cache)
  | x :: xs =>
      (reread treeMode opened keys cache x).bind fun r =>
        if i + 1 < 2 ^ 31 then
          (rereadItems treeMode opened (put treeMode keys x).2 r.2 (i + 1) xs).map
            fun q => (r.1 :: q.1, q.2)
        else none
termination_by structural xs => xs

def rereadEntries (treeMode : Bool) (opened : List Nat) (keys : List CachedObject)
    (cache : List UObject) (i : Nat) (fs : List (Bytes × UObject)) :
    List (Bytes × UObject) → Option (List (Bytes × UObject) × List UObject)
  | [] => some (fs, cache)
  | (k, v) :: es =>
      (rereadBlob treeMode opened keys cache (.text, k) (.string k)).bind fun r =>
        match r.1 with
        | .string s =>
            (reread treeMode opened (putString treeMode keys k).2 r.2 v).bind fun q =>
              if i + 1 < 2 ^ 31 then
                rereadEntries treeMode opened (put treeMode (putString treeMode keys k).2 v).2 q.2
                  (i + 1) (set s q.1 fs) es
              else none
        | _ => none
termination_by structural es => es
end

/-! ### The writer's keys and the reader's cache keep step -/

theorem cached_length {α β : Type} {treeMode : Bool} {as : List α} {bs : List β} (a : α) (b : β)
    (h : as.length = bs.length) :
    (cached treeMode as a).length = (cached treeMode bs b).length := by
  cases treeMode <;> simp [cached, h]

theorem follow_cache {opened : List Nat} {cache : List UObject} {index : Nat}
    {r : UObject × List UObject} (h : follow opened cache index = some r) : r.2 = cache := by
  rw [follow] at h
  split_ifs at h
  · obtain rfl := Option.some.inj h
    rfl
  · obtain rfl := Option.some.inj h
    rfl

/-- Null is read where index 0 is not open. -/
theorem follow_null {opened : List Nat} {cache : List UObject} {r : UObject × List UObject} :
    follow opened cache 0 = some r ↔ 0 ∉ opened ∧ r = (.null, cache) := by
  rw [follow]
  by_cases hopen : 0 ∈ opened
  · simp [hopen]
  · simp [hopen, eq_comm]

theorem rereadBytes_sync {treeMode : Bool} {opened : List Nat} {keys : List CachedObject}
    {cache : List UObject} {b : Bytes} {r : UObject × List UObject}
    (hsync : keys.length = cache.length)
    (h : rereadBlob treeMode opened keys cache (.bin, b) (.bytes b) = some r) :
    (putBytes treeMode keys b).2.length = r.2.length := by
  rw [rereadBlob] at h
  rw [putBytes_eq]
  cases hfind : cacheFind keys (.bin, b) with
  | some index =>
      rw [hfind] at h
      rw [follow_cache h]
      exact hsync
  | none =>
      rw [hfind] at h
      obtain rfl := Option.some.inj h
      exact cached_length _ _ hsync

theorem rereadString_sync {treeMode : Bool} {opened : List Nat} {keys : List CachedObject}
    {cache : List UObject} {s : Bytes} {r : UObject × List UObject}
    (hsync : keys.length = cache.length)
    (h : rereadBlob treeMode opened keys cache (.text, s) (.string s) = some r) :
    (putString treeMode keys s).2.length = r.2.length := by
  rw [rereadBlob] at h
  rw [putString_eq]
  cases hfind : cacheFind keys (.text, s) with
  | some index =>
      rw [hfind] at h
      rw [follow_cache h]
      exact hsync
  | none =>
      rw [hfind] at h
      obtain rfl := Option.some.inj h
      exact cached_length _ _ hsync

mutual
theorem reread_sync (treeMode : Bool) : ∀ (o : UObject) {opened : List Nat}
    {keys : List CachedObject} {cache : List UObject} {r : UObject × List UObject},
    keys.length = cache.length → reread treeMode opened keys cache o = some r →
    (put treeMode keys o).2.length = r.2.length
  | .null, _, _, _, _, hsync, h => by
      rw [reread] at h
      rw [follow_cache h, put]
      exact hsync
  | .int i, _, _, _, _, hsync, h | .double d, _, _, _, _, hsync, h
  | .bool b, _, _, _, _, hsync, h | .dateTime count, _, _, _, _, hsync, h => by
      rw [reread] at h
      obtain rfl := Option.some.inj h
      rw [put]
      exact hsync
  | .bytes b, _, _, _, _, hsync, h => by
      rw [reread] at h
      exact rereadBytes_sync hsync h
  | .string s, _, _, _, _, hsync, h => by
      rw [reread] at h
      exact rereadString_sync hsync h
  | .array xs, _, keys, cache, r, hsync, h => by
      rw [reread] at h
      rw [put_array]
      cases hfind : cacheFind keys (.array, containerKey (.array xs)) with
      | some index =>
          rw [hfind] at h
          rw [follow_cache h]
          exact hsync
      | none =>
          rw [hfind] at h
          obtain ⟨q, hq, rfl⟩ := Option.map_eq_some_iff.mp h
          rw [List.length_set]
          exact rereadItems_sync treeMode xs (cached_length _ _ hsync) hq
  | .binder es, _, keys, cache, r, hsync, h => by
      rw [reread] at h
      rw [put_binder]
      cases hfind : cacheFind keys (.binder, containerKey (.binder es)) with
      | some index =>
          rw [hfind] at h
          rw [follow_cache h]
          exact hsync
      | none =>
          rw [hfind] at h
          obtain ⟨q, hq, rfl⟩ := Option.map_eq_some_iff.mp h
          rw [List.length_set]
          exact rereadEntries_sync treeMode es (cached_length _ _ hsync) hq

theorem rereadItems_sync (treeMode : Bool) : ∀ (xs : List UObject) {opened : List Nat}
    {keys : List CachedObject} {cache : List UObject} {i : Nat} {r : List UObject × List UObject},
    keys.length = cache.length → rereadItems treeMode opened keys cache i xs = some r →
    (putItems treeMode keys xs).2.length = r.2.length
  | [], _, _, _, _, _, hsync, h => by
      rw [rereadItems] at h
      obtain rfl := Option.some.inj h
      rw [putItems]
      exact hsync
  | x :: xs, _, _, _, _, _, hsync, h => by
      rw [rereadItems] at h
      obtain ⟨r, hr, h⟩ := Option.bind_eq_some_iff.mp h
      split at h
      · obtain ⟨q, hq, rfl⟩ := Option.map_eq_some_iff.mp h
        have hxs := rereadItems_sync treeMode xs (reread_sync treeMode x hsync hr) hq
        rw [putItems]
        exact hxs
      · exact nomatch h

theorem rereadEntries_sync (treeMode : Bool) : ∀ (es : List (Bytes × UObject))
    {opened : List Nat} {keys : List CachedObject} {cache : List UObject} {i : Nat}
    {fs : List (Bytes × UObject)} {r : List (Bytes × UObject) × List UObject},
    keys.length = cache.length → rereadEntries treeMode opened keys cache i fs es = some r →
    (putEntries treeMode keys es).2.length = r.2.length
  | [], _, _, _, _, _, _, hsync, h => by
      rw [rereadEntries] at h
      obtain rfl := Option.some.inj h
      rw [putEntries]
      exact hsync
  | (k, v) :: es, _, _, _, _, _, _, hsync, h => by
      rw [rereadEntries] at h
      obtain ⟨r, hr, h⟩ := Option.bind_eq_some_iff.mp h
      have hkey := rereadString_sync hsync hr
      split at h
      · obtain ⟨q, hq, h⟩ := Option.bind_eq_some_iff.mp h
        split at h
        · have hes := rereadEntries_sync treeMode es (reread_sync treeMode v hkey hq) h
          rw [putEntries]
          exact hes
        · exact nomatch h
      · exact nomatch h
end

/-! ### The parser on the writer's bytes -/

/-- The answer of the parser for what is read back, with the bytes that follow left. -/
def Rest.after {α : Type} (s : Rest) (post : Bytes) (r : Option (α × List UObject)) :
    Option (α × Rest) :=
  r.map fun q => (q.1, { s with rest := post, cache := q.2 })

theorem object_header {s : Rest} {room code v : Nat} {post : Bytes} (hcode : code < 8)
    (hv : v < 2 ^ 64) (h : s.rest = writeHeader code v ++ post) :
    Parse.object (room + 1) s
      = Parse.value (Parse.object room) ⟨code, v⟩ { s with rest := post } := by
  rw [Parse.object, Parse.bind_apply, header_writeHeader hcode hv h, Option.bind_some]

theorem reference_follow {s : Rest} {index : Nat} (h : index ≤ s.cache.length) :
    Parse.reference index s = s.after s.rest (follow s.recursive s.cache index) := by
  rw [Parse.reference, follow, if_neg (by omega)]
  split_ifs <;> rfl

/-- A reference to an entry of the cache. -/
theorem object_reference {s : Rest} {room index : Nat} {post : Bytes}
    (hcache : index ≤ s.cache.length) (hindex : index < 2 ^ 64)
    (h : s.rest = writeHeader TYPE_CREF index ++ post) :
    Parse.object (room + 1) s = s.after post (follow s.recursive s.cache index) := by
  rw [object_header (by decide) hindex h]
  exact reference_follow hcache

/-- A leaf in full. -/
theorem blob_full {s : Rest} {b post : Bytes} (make : Bytes → UObject) (h : s.rest = b ++ post) :
    Parse.blob make b.length s
      = s.after post (some (make b, cached s.treeMode s.cache (make b))) := by
  rw [Parse.blob, Parse.bind_apply, take_append h, Option.bind_some]
  rfl

/-- A container is entered, its body read and its value put where it was cached. -/
theorem container_full {β : Type} {s : Rest} {post : Bytes} (empty : UObject) (make : β → UObject)
    {body : Parse β} {r : Option (β × List UObject)}
    (hbody : body { s with
        cache := cached s.treeMode s.cache empty,
        recursive := (cached s.treeMode s.cache empty).length :: s.recursive } =
      Rest.after { s with
        cache := cached s.treeMode s.cache empty,
        recursive := (cached s.treeMode s.cache empty).length :: s.recursive } post r) :
    (do
      let index ← Parse.enter empty
      let b ← body
      Parse.leave index (make b) : Parse UObject) s
      = s.after post (r.map fun q =>
          (make q.1, q.2.set ((cached s.treeMode s.cache empty).length - 1) (make q.1))) := by
  have henter : Parse.enter empty s = some ((cached s.treeMode s.cache empty).length,
      { s with
        cache := cached s.treeMode s.cache empty,
        recursive := (cached s.treeMode s.cache empty).length :: s.recursive }) := rfl
  rw [Parse.bind_apply, henter, Option.bind_some, Parse.bind_apply, hbody]
  cases r with
  | none => rfl
  | some q => rfl

theorem object_extra {s : Rest} {room code : Nat} {post : Bytes} (hcode : code < 2 ^ 31)
    (h : s.rest = writeHeader TYPE_EXTRA code ++ post) :
    Parse.object (room + 1) s
      = Parse.extra (Parse.object room) (code : Int) { s with rest := post } := by
  have hint : (BitVec.ofNat 32 code).toInt = (code : Int) := by
    rw [BitVec.toInt_ofNat']
    exact Int.bmod_eq_of_le (by omega) (by omega)
  rw [object_header (by decide) (by omega) h]
  show Parse.extra _ (BitVec.ofNat 32 code).toInt _ = _
  rw [hint]

theorem object_putInt {s : Rest} {room : Nat} {post : Bytes} (i : BitVec 64)
    (h : s.rest = putInt i ++ post) :
    Parse.object (room + 1) s = some (.int i, { s with rest := post }) := by
  rw [putInt] at h
  split at h
  · rw [object_header (by decide) i.isLt h]
    show some (UObject.int (BitVec.ofNat 64 i.toNat), _) = _
    rw [BitVec.ofNat_toNat, BitVec.setWidth_eq]
  · rw [object_header (by decide) (-i).isLt h]
    show some (UObject.int (-BitVec.ofNat 64 (-i).toNat), _) = _
    rw [BitVec.ofNat_toNat, BitVec.setWidth_eq, BitVec.neg_neg]

theorem object_putDouble {s : Rest} {room : Nat} {post : Bytes} (d : BitVec 64)
    (h : s.rest = putDouble d ++ post) :
    Parse.object (room + 1) s = some (.double (rereadDouble d), { s with rest := post }) := by
  rw [putDouble] at h
  split_ifs at h with hzero hminus hone
  · have hd : rereadDouble d = dZero := by
      rcases hzero with rfl | rfl <;> rfl
    rw [object_extra (by norm_num) h, hd]
    rfl
  · subst hminus
    rw [object_extra (by norm_num) h]
    rfl
  · subst hone
    rw [object_extra (by norm_num) h]
    rfl
  · have hd : rereadDouble d = d := if_neg fun hneg => hzero (Or.inr hneg)
    rw [List.append_assoc] at h
    have htake := take_append
      (show ({ s with rest := leBytes 8 d.toNat ++ post } : Rest).rest = _ from rfl)
    rw [leBytes_length] at htake
    rw [object_extra (by norm_num) h]
    show (do return UObject.double (BitVec.ofNat 64 (leValue (← Parse.take 8))) : Parse _) _ = _
    rw [Parse.bind_apply, htake, Option.bind_some, Parse.pure_apply,
      leValue_leBytes 8 _ (lt_of_lt_of_le d.isLt (by norm_num)), BitVec.ofNat_toNat,
      BitVec.setWidth_eq, hd]

theorem object_putDateTime {s : Rest} {room : Nat} {post : Bytes} (count : BitVec 64)
    (h : s.rest = putDateTime count ++ post) :
    Parse.object (room + 1) s = some (.dateTime (rereadTime count), { s with rest := post }) := by
  have hlt : count.toNat / den < 2 ^ 64 := lt_of_le_of_lt (Nat.div_le_self _ _) count.isLt
  rw [putDateTime, List.append_assoc] at h
  rw [object_extra (by norm_num) h]
  show (do return UObject.dateTime (fromSeconds (← Parse.encodedLong)) : Parse _) _ = _
  rw [Parse.bind_apply, encodedLong_writeEncoded hlt rfl]
  rfl

theorem object_putBool {s : Rest} {room : Nat} {post : Bytes} (b : Bool)
    (h : s.rest = putBool b ++ post) :
    Parse.object (room + 1) s = some (.bool b, { s with rest := post }) := by
  cases b <;> exact object_extra (by norm_num) h

theorem object_putBytes {s : Rest} {keys : List CachedObject} {room : Nat} {b post : Bytes}
    (hsync : keys.length = s.cache.length)
    (hsize : keys.length + (putBytes s.treeMode keys b).1.length < 2 ^ 64)
    (h : s.rest = (putBytes s.treeMode keys b).1 ++ post) :
    Parse.object (room + 1) s
      = s.after post (rereadBlob s.treeMode s.recursive keys s.cache (.bin, b) (.bytes b)) := by
  rw [putBytes_eq] at h hsize
  rw [rereadBlob]
  cases hfind : cacheFind keys (.bin, b) with
  | some index =>
      obtain ⟨-, hle, -⟩ := cacheFind_some hfind
      rw [hfind] at h
      exact object_reference (hsync ▸ hle) (by omega) h
  | none =>
      rw [hfind, List.append_assoc] at h
      rw [hfind, List.length_append] at hsize
      rw [object_header (by decide) (by omega) h]
      exact blob_full .bytes rfl

theorem object_putString {s : Rest} {keys : List CachedObject} {room : Nat} {b post : Bytes}
    (hsync : keys.length = s.cache.length)
    (hsize : keys.length + (putString s.treeMode keys b).1.length < 2 ^ 64)
    (h : s.rest = (putString s.treeMode keys b).1 ++ post) :
    Parse.object (room + 1) s
      = s.after post (rereadBlob s.treeMode s.recursive keys s.cache (.text, b) (.string b)) := by
  rw [putString_eq] at h hsize
  rw [rereadBlob]
  cases hfind : cacheFind keys (.text, b) with
  | some index =>
      obtain ⟨-, hle, -⟩ := cacheFind_some hfind
      rw [hfind] at h
      exact object_reference (hsync ▸ hle) (by omega) h
  | none =>
      rw [hfind, List.append_assoc] at h
      rw [hfind, List.length_append] at hsize
      rw [object_header (by decide) (by omega) h]
      exact blob_full .string rfl

mutual
/-- The parser on the bytes of a `put` gives what is read back, whatever bytes follow. -/
theorem object_put : ∀ (o : UObject) (s : Rest) (keys : List CachedObject) (post : Bytes)
    (room : Nat), keys.length = s.cache.length →
    keys.length + (put s.treeMode keys o).1.length < 2 ^ 64 →
    (put s.treeMode keys o).1.length ≤ room → s.rest = (put s.treeMode keys o).1 ++ post →
    Parse.object room s = s.after post (reread s.treeMode s.recursive keys s.cache o)
  | o, s, keys, _, 0, _, _, hroom, _ => by
      have := (put_grows s.treeMode o keys).1
      omega
  | .null, s, keys, post, room + 1, _, _, _, h => by
      rw [put] at h
      exact object_reference (Nat.zero_le _) (by norm_num) h
  | .int i, _, _, _, _ + 1, _, _, _, h => by
      rw [put] at h
      exact object_putInt i h
  | .double d, _, _, _, _ + 1, _, _, _, h => by
      rw [put] at h
      exact object_putDouble d h
  | .bool b, _, _, _, _ + 1, _, _, _, h => by
      rw [put] at h
      exact object_putBool b h
  | .dateTime count, _, _, _, _ + 1, _, _, _, h => by
      rw [put] at h
      exact object_putDateTime count h
  | .bytes b, _, _, _, _ + 1, hsync, hsize, _, h => by
      rw [put] at h hsize
      rw [reread]
      exact object_putBytes hsync hsize h
  | .string b, _, _, _, _ + 1, hsync, hsize, _, h => by
      rw [put] at h hsize
      rw [reread]
      exact object_putString hsync hsize h
  | .array xs, s, keys, post, room + 1, hsync, hsize, hroom, h => by
      rw [put_array] at h hsize hroom
      rw [reread]
      cases hfind : cacheFind keys (.array, containerKey (.array xs)) with
      | some index =>
          obtain ⟨-, hle, -⟩ := cacheFind_some hfind
          rw [hfind] at h
          exact object_reference (hsync ▸ hle) (by omega) h
      | none =>
          rw [hfind, List.append_assoc] at h
          rw [hfind, List.length_append] at hsize hroom
          have hhead := writeHeader_pos TYPE_LIST xs.length
          have hgrow := putItems_grows s.treeMode xs
            (cached s.treeMode keys (.array, containerKey (.array xs)))
          have hcached := cached_length_le s.treeMode keys (.array, containerKey (.array xs))
          rw [object_header (by decide) (by omega) h]
          exact container_full (.array []) .array
            (items_put xs _ _ post room 0 (cached_length _ _ hsync) (by dsimp only; omega)
              (by dsimp only; omega) rfl)
  | .binder es, s, keys, post, room + 1, hsync, hsize, hroom, h => by
      rw [put_binder] at h hsize hroom
      rw [reread]
      cases hfind : cacheFind keys (.binder, containerKey (.binder es)) with
      | some index =>
          obtain ⟨-, hle, -⟩ := cacheFind_some hfind
          rw [hfind] at h
          exact object_reference (hsync ▸ hle) (by omega) h
      | none =>
          rw [hfind, List.append_assoc] at h
          rw [hfind, List.length_append] at hsize hroom
          have hhead := writeHeader_pos TYPE_DICT es.length
          have hgrow := putEntries_grows s.treeMode es
            (cached s.treeMode keys (.binder, containerKey (.binder es)))
          have hcached := cached_length_le s.treeMode keys (.binder, containerKey (.binder es))
          rw [object_header (by decide) (by omega) h]
          exact container_full (.binder []) .binder
            (entries_put es _ _ post room 0 [] (cached_length _ _ hsync) (by dsimp only; omega)
              (by dsimp only; omega) rfl)
termination_by structural o => o

theorem items_put : ∀ (xs : List UObject) (s : Rest) (keys : List CachedObject) (post : Bytes)
    (room i : Nat), keys.length = s.cache.length →
    keys.length + (putItems s.treeMode keys xs).1.length < 2 ^ 64 →
    (putItems s.treeMode keys xs).1.length ≤ room →
    s.rest = (putItems s.treeMode keys xs).1 ++ post →
    Parse.items (Parse.object room) xs.length i s
      = s.after post (rereadItems s.treeMode s.recursive keys s.cache i xs)
  | [], s, keys, post, _, _, _, _, _, h => by
      have hrest : s.rest = post := h
      subst hrest
      rfl
  | x :: xs, s, keys, post, room, i, hsync, hsize, hroom, h => by
      rw [putItems] at h hsize hroom
      rw [List.append_assoc] at h
      rw [List.length_append] at hsize hroom
      have hgrow := put_grows s.treeMode x keys
      have hx := object_put x s keys _ room hsync (by omega) (by omega) h
      rw [List.length_cons, Parse.items, Parse.bind_apply, hx, rereadItems]
      cases hr : reread s.treeMode s.recursive keys s.cache x with
      | none => rfl
      | some r =>
          have hsync' := reread_sync s.treeMode x hsync hr
          have hxs := items_put xs { s with
              rest := (putItems s.treeMode (put s.treeMode keys x).2 xs).1 ++ post
              cache := r.2 } (put s.treeMode keys x).2 post room (i + 1) hsync'
            (by dsimp only; omega) (by dsimp only; omega) rfl
          by_cases hi : i + 1 < 2 ^ 31
          · simp only [Rest.after, Option.map_some, Option.bind_some, Parse.bind_apply,
              Parse.countOn, if_pos hi, hxs, Option.map_map]
            cases rereadItems s.treeMode s.recursive (put s.treeMode keys x).2 r.2 (i + 1) xs <;> rfl
          · simp only [Rest.after, Option.map_some, Option.bind_some, Parse.bind_apply,
              Parse.countOn, if_neg hi]
            rfl
termination_by structural xs => xs

theorem entries_put : ∀ (es : List (Bytes × UObject)) (s : Rest) (keys : List CachedObject)
    (post : Bytes) (room i : Nat) (fs : List (Bytes × UObject)), keys.length = s.cache.length →
    keys.length + (putEntries s.treeMode keys es).1.length < 2 ^ 64 →
    (putEntries s.treeMode keys es).1.length ≤ room →
    s.rest = (putEntries s.treeMode keys es).1 ++ post →
    Parse.entries (Parse.object room) es.length i fs s
      = s.after post (rereadEntries s.treeMode s.recursive keys s.cache i fs es)
  | [], s, keys, post, _, _, _, _, _, _, h => by
      have hrest : s.rest = post := h
      subst hrest
      rfl
  | (k, v) :: es, s, keys, post, room, i, fs, hsync, hsize, hroom, h => by
      rw [putEntries] at h hsize hroom
      rw [List.append_assoc, List.append_assoc] at h
      rw [List.length_append, List.length_append] at hsize hroom
      have hgrowk := putString_grows s.treeMode keys k
      have hgrowv := put_grows s.treeMode v (putString s.treeMode keys k).2
      obtain ⟨room, rfl⟩ : ∃ room', room = room' + 1 := ⟨room - 1, by omega⟩
      have hk : Parse.object (room + 1) s = _ := object_putString hsync (by omega) h
      rw [List.length_cons, Parse.entries, Parse.bind_apply, hk, rereadEntries]
      cases hr : rereadBlob s.treeMode s.recursive keys s.cache (.text, k) (.string k) with
      | none => rfl
      | some r =>
          obtain ⟨key, cache⟩ := r
          cases key with
          | string k' =>
              have hsyncv := rereadString_sync hsync hr
              have hv := object_put v { s with
                  rest := (put s.treeMode (putString s.treeMode keys k).2 v).1 ++
                    ((putEntries s.treeMode (put s.treeMode (putString s.treeMode keys k).2 v).2
                      es).1 ++ post)
                  cache := cache } (putString s.treeMode keys k).2 _ (room + 1) hsyncv
                (by dsimp only; omega) (by dsimp only; omega) rfl
              simp only [Rest.after, Option.map_some, Option.bind_some, Parse.bind_apply, hv]
              cases hq : reread s.treeMode s.recursive (putString s.treeMode keys k).2 cache v with
              | none => rfl
              | some q =>
                  have hsynce := reread_sync s.treeMode v hsyncv hq
                  have hes := entries_put es { s with
                      rest := (putEntries s.treeMode
                        (put s.treeMode (putString s.treeMode keys k).2 v).2 es).1 ++ post
                      cache := q.2 } (put s.treeMode (putString s.treeMode keys k).2 v).2 post
                    (room + 1) (i + 1) (set k' q.1 fs) hsynce (by dsimp only; omega)
                    (by dsimp only; omega) rfl
                  by_cases hi : i + 1 < 2 ^ 31
                  · simp only [Option.map_some, Option.bind_some, Parse.countOn, if_pos hi, hes]
                    rfl
                  · simp only [Option.map_some, Option.bind_some, Parse.countOn, if_neg hi]
                    rfl
          | _ => rfl
termination_by structural es => es
end

end Universa.Boss
