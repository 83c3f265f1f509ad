import Universa.Boss.Value

/-! `BossSerializer::Writer`. A `put` is a function from the writer's cache to the bytes it appends
    and the cache it leaves; the cache map is the list of its keys in the order they were entered,
    the index of a key being its place counted from 1 (`cache[obj] = cache.size() + 1`).

        value ──▶ header (code in 3 bits, length or number in 5 bits or up to 8 more bytes) ──▶ body
        repeated bytes/string/array/map (tree mode) ──▶ TYPE_CREF index -/

namespace Universa.Boss
open Wire UObject

/-! ### Codes -/

@[match_pattern] abbrev TYPE_INT : Nat := 0
@[match_pattern] abbrev TYPE_EXTRA : Nat := 1
@[match_pattern] abbrev TYPE_NINT : Nat := 2
@[match_pattern] abbrev TYPE_TEXT : Nat := 3
@[match_pattern] abbrev TYPE_BIN : Nat := 4
@[match_pattern] abbrev TYPE_CREF : Nat := 5
@[match_pattern] abbrev TYPE_LIST : Nat := 6
@[match_pattern] abbrev TYPE_DICT : Nat := 7

@[match_pattern] abbrev XT_DZERO : Nat := 1
@[match_pattern] abbrev XT_DONE : Nat := 2
@[match_pattern] abbrev XT_DMINUSONE : Nat := 4
@[match_pattern] abbrev XT_DOUBLE : Nat := 7
@[match_pattern] abbrev XT_TTRUE : Nat := 12
@[match_pattern] abbrev XT_FALSE : Nat := 13
@[match_pattern] abbrev XT_TIME : Nat := 15
@[match_pattern] abbrev XT_STREAM_MODE : Nat := 16

/-- The bits of the doubles with a code of their own, and of the zero that shares one. -/
abbrev dZero : BitVec 64 := 0
abbrev dNegZero : BitVec 64 := 0x8000000000000000
abbrev dOne : BitVec 64 := 0x3FF0000000000000
abbrev dMinusOne : BitVec 64 := 0xBFF0000000000000

/-- Ticks of the clock in a second (`high_resolution_clock::period::den`). -/
abbrev den : Nat := 1000000000

/-! ### Headers -/

/-- The loop of `sizeInBytes`, which runs at most seven times on an `unsigned long`. -/
def sizeLoop : Nat → Nat → Nat → Nat
  | 0, cnt, _ => cnt
  | fuel + 1, cnt, value => if value > 255 then sizeLoop fuel (cnt + 1) (value >>> 8) else cnt

def sizeInBytes (value : Nat) : Nat := sizeLoop 7 1 value

/-- `writeEncoded`; an `unsigned long` has at most ten groups. -/
def writeEncoded (value : Nat) : Bytes := groups 9 value

/-- `writeHeader` for the codes up to 7, which are the only ones it is called with. -/
def writeHeader (code value : Nat) : Bytes :=
  if value < 23 then [UInt8.ofNat (code ||| value <<< 3)]
  else
    let n := sizeInBytes value
    (if n < 9 then [UInt8.ofNat (code ||| (n + 22) <<< 3)]
      else UInt8.ofNat (code ||| 0xF8) :: writeEncoded n) ++ leBytes n value

/-! ### The cache -/

inductive CacheType where
  | bin | text | array | binder
  deriving DecidableEq

abbrev CachedObject := CacheType × Bytes

/-- `Writer::getBytes`: the length passes through an `unsigned int`. -/
def getBytes (buf : Bytes) : Bytes := buf.take (buf.length % 2 ^ 32)

/-- The index of a cached object. -/
def cacheFind (cache : List CachedObject) (obj : CachedObject) : Option Nat :=
  (cache.idxOf? obj).map (· + 1)

/-- The cache with one more entry, in tree mode. -/
def cached {α : Type} (treeMode : Bool) (cache : List α) (a : α) : List α :=
  if treeMode then cache ++ [a] else cache

/-- `tryWriteReference`: the bytes of the reference when there is one, and the cache. -/
def tryWriteReference (treeMode : Bool) (cache : List CachedObject) (obj : CachedObject) :
    Option Bytes × List CachedObject :=
  if !treeMode && cache.isEmpty then (none, cache)
  else match cacheFind cache obj with
    | some index => (some (writeHeader TYPE_CREF index), cache)
    | none => (none, cached treeMode cache obj)

/-! ### Values -/

/-- `put` on the values without parts. -/
def putDouble (d : BitVec 64) : Bytes :=
  if d = dZero ∨ d = dNegZero then writeHeader TYPE_EXTRA XT_DZERO
  else if d = dMinusOne then writeHeader TYPE_EXTRA XT_DMINUSONE
  else if d = dOne then writeHeader TYPE_EXTRA XT_DONE
  else writeHeader TYPE_EXTRA XT_DOUBLE ++ leBytes 8 d.toNat

/-- The sign of the integer picks the code. Negating wraps around. -/
def putInt (i : BitVec 64) : Bytes :=
  if 0 ≤ i.toInt then writeHeader TYPE_INT i.toNat else writeHeader TYPE_NINT (-i).toNat

/-- The cast to `unsigned long` binds to the count, before the division. -/
def putDateTime (count : BitVec 64) : Bytes :=
  writeHeader TYPE_EXTRA XT_TIME ++ writeEncoded (count.toNat / den)

def putBool (b : Bool) : Bytes := writeHeader TYPE_EXTRA (if b then XT_TTRUE else XT_FALSE)

mutual
/-- What a `Writer(false)` puts for a value: its cache is empty and stays so. -/
def streamPut : UObject → Bytes
  | .null => writeHeader TYPE_CREF 0
  | .int i => putInt i
  | .double d => putDouble d
  | .bool b => putBool b
  | .dateTime count => putDateTime count
  | .bytes b => writeHeader TYPE_BIN b.length ++ b
  | .string s => writeHeader TYPE_TEXT s.length ++ s
  | .array xs => writeHeader TYPE_LIST xs.length ++ streamPutItems xs
  | .binder es => writeHeader TYPE_DICT es.length ++ streamPutEntries es

def streamPutItems : List UObject → Bytes
  | [] => []
  | x :: xs => streamPut x ++ streamPutItems xs

def streamPutEntries : List (Bytes × UObject) → Bytes
  | [] => []
  | (k, v) :: es => (writeHeader TYPE_TEXT k.length ++ k) ++ streamPut v ++ streamPutEntries es
end

/-- The cache key of an array or a map: what a `Writer(false)` makes of it. -/
def containerKey (o : UObject) : Bytes := getBytes (streamPut (serialize o))

def putBytes (treeMode : Bool) (cache : List CachedObject) (b : Bytes) :
    Bytes × List CachedObject :=
  match tryWriteReference treeMode cache (.bin, b) with
  | (some ref, cache) => (ref, cache)
  | (none, cache) => (writeHeader TYPE_BIN b.length ++ b, cache)

def putString (treeMode : Bool) (cache : List CachedObject) (s : Bytes) :
    Bytes × List CachedObject :=
  match tryWriteReference treeMode cache (.text, s) with
  | (some ref, cache) => (ref, cache)
  | (none, cache) => (writeHeader TYPE_TEXT s.length ++ s, cache)

mutual
/-- `Writer::put`. -/
def put (treeMode : Bool) (cache : List CachedObject) : UObject → Bytes × List CachedObject
  | .null => (writeHeader TYPE_CREF 0, cache)
  | .int i => (putInt i, cache)
  | .double d => (putDouble d, cache)
  | .bool b => (putBool b, cache)
  | .dateTime count => (putDateTime count, cache)
  | .bytes b => putBytes treeMode cache b
  | .string s => putString treeMode cache s
  | .array xs =>
      match tryWriteReference treeMode cache (.array, containerKey (.array xs)) with
      | (some ref, cache) => (ref, cache)
      | (none, cache) =>
          let (body, cache) := putItems treeMode cache xs
          (writeHeader TYPE_LIST xs.length ++ body, cache)
  | .binder es =>
      match tryWriteReference treeMode cache (.binder, containerKey (.binder es)) with
      | (some ref, cache) => (ref, cache)
      | (none, cache) =>
          let (body, cache) := putEntries treeMode cache es
          (writeHeader TYPE_DICT es.length ++ body, cache)

def putItems (treeMode : Bool) (cache : List CachedObject) :
    List UObject → Bytes × List CachedObject
  | [] => ([], cache)
  | x :: xs =>
      let (b, cache) := put treeMode cache x
      let (bs, cache) := putItems treeMode cache xs
      (b ++ bs, cache)

def putEntries (treeMode : Bool) (cache : List CachedObject) :
    List (Bytes × UObject) → Bytes × List CachedObject
  | [] => ([], cache)
  | (k, v) :: es =>
      let (bk, cache) := putString treeMode cache k
      let (bv, cache) := put treeMode cache v
      let (bs, cache) := putEntries treeMode cache es
      (bk ++ bv ++ bs, cache)
end

/-- `Writer::writeObject`. -/
def writeObject (treeMode : Bool) (cache : List CachedObject) (o : UObject) :
    Bytes × List CachedObject :=
  put treeMode cache (serialize o)

/-- `writeObject` once for each value. -/
def writeObjects (treeMode : Bool) (cache : List CachedObject) :
    List UObject → Bytes × List CachedObject
  | [] => ([], cache)
  | o :: os =>
      let (b, cache) := writeObject treeMode cache o
      let (bs, cache) := writeObjects treeMode cache os
      (b ++ bs, cache)

/-- The writer's buffer is a `std::vector`, whose size is a `size_t`. -/
def packed (buf : Bytes) : Option Bytes := if buf.length < 2 ^ 64 then some (getBytes buf) else none

/-- `BossSerializer::dump`: its `int` counter overflows on `2 ^ 31` values or more, and then nothing
    is known of the result. -/
def dump (objs : List UObject) : Option Bytes :=
  if objs.length < 2 ^ 31 then packed (writeObjects true [] objs).1 else none

/-- A fresh writer, `setStreamMode`, then `writeObject` once for each value. -/
def dumpStream (objs : List UObject) : Option Bytes :=
  packed (writeHeader TYPE_EXTRA XT_STREAM_MODE ++ (writeObjects false [] objs).1)

/-! ### Facts about the writer -/

theorem writeObjects_eq_putItems (treeMode : Bool) : ∀ (objs : List UObject) cache,
    writeObjects treeMode cache objs = putItems treeMode cache objs
  | [], _ => by simp [writeObjects, putItems]
  | o :: os, cache => by
      simp only [writeObjects, putItems, writeObject, serialize_eq,
        writeObjects_eq_putItems treeMode os]

/-- With or without the short cut of stream mode: a key found is referred to, another is cached. -/
theorem tryWriteReference_eq (treeMode : Bool) (cache : List CachedObject) (obj : CachedObject) :
    tryWriteReference treeMode cache obj = match cacheFind cache obj with
      | some index => (some (writeHeader TYPE_CREF index), cache)
      | none => (none, cached treeMode cache obj) := by
  rw [tryWriteReference]
  cases treeMode with
  | true => rfl
  | false =>
      cases cache with
      | nil => rfl
      | cons c cs => rfl

/-- The index of a key is its place, counted from 1. -/
theorem cacheFind_some {cache : List CachedObject} {obj : CachedObject} {index : Nat}
    (h : cacheFind cache obj = some index) :
    1 ≤ index ∧ index ≤ cache.length ∧ cache[index - 1]? = some obj := by
  obtain ⟨i, hi, rfl⟩ := Option.map_eq_some_iff.mp h
  obtain ⟨hlt, hget, -⟩ := List.idxOf?_eq_some_iff.mp hi
  refine ⟨by omega, by omega, ?_⟩
  rw [Nat.add_sub_cancel, List.getElem?_eq_getElem hlt, hget]

theorem cacheFind_none {cache : List CachedObject} {obj : CachedObject} :
    cacheFind cache obj = none ↔ obj ∉ cache := by
  simp [cacheFind]

/-- In stream mode the cache is empty, so nothing is referred to. -/
@[simp] theorem tryWriteReference_stream (obj : CachedObject) :
    tryWriteReference false [] obj = (none, []) := rfl

mutual
/-- `streamPut` is `put` of a writer in stream mode with an empty cache. -/
theorem put_stream : ∀ o, put false [] o = (streamPut o, [])
  | .null | .int _ | .double _ | .bool _ | .dateTime _ => by simp [put, streamPut]
  | .bytes b => by simp [put, putBytes, streamPut]
  | .string s => by simp [put, putString, streamPut]
  | .array xs => by simp [put, streamPut, putItems_stream xs]
  | .binder es => by simp [put, streamPut, putEntries_stream es]

theorem putItems_stream : ∀ xs, putItems false [] xs = (streamPutItems xs, [])
  | [] => by simp [putItems, streamPutItems]
  | x :: xs => by simp [putItems, streamPutItems, put_stream x, putItems_stream xs]

theorem putEntries_stream : ∀ es, putEntries false [] es = (streamPutEntries es, [])
  | [] => by simp [putEntries, streamPutEntries]
  | (k, v) :: es => by
      simp [putEntries, streamPutEntries, putString, put_stream v, putEntries_stream es]
end

/-- A leaf or a container is written as a reference to an equal one, or in full. -/
theorem putBytes_eq (treeMode : Bool) (cache : List CachedObject) (b : Bytes) :
    putBytes treeMode cache b = match cacheFind cache (.bin, b) with
      | some index => (writeHeader TYPE_CREF index, cache)
      | none => (writeHeader TYPE_BIN b.length ++ b, cached treeMode cache (.bin, b)) := by
  rw [putBytes, tryWriteReference_eq]
  cases cacheFind cache (.bin, b) <;> rfl

theorem putString_eq (treeMode : Bool) (cache : List CachedObject) (s : Bytes) :
    putString treeMode cache s = match cacheFind cache (.text, s) with
      | some index => (writeHeader TYPE_CREF index, cache)
      | none => (writeHeader TYPE_TEXT s.length ++ s, cached treeMode cache (.text, s)) := by
  rw [putString, tryWriteReference_eq]
  cases cacheFind cache (.text, s) <;> rfl

theorem put_array (treeMode : Bool) (cache : List CachedObject) (xs : List UObject) :
    put treeMode cache (.array xs) =
      match cacheFind cache (.array, containerKey (.array xs)) with
      | some index => (writeHeader TYPE_CREF index, cache)
      | none =>
          let body := putItems treeMode (cached treeMode cache (.array, containerKey (.array xs))) xs
          (writeHeader TYPE_LIST xs.length ++ body.1, body.2) := by
  rw [put, tryWriteReference_eq]
  cases cacheFind cache (.array, containerKey (.array xs)) <;> rfl

theorem put_binder (treeMode : Bool) (cache : List CachedObject) (es : List (Bytes × UObject)) :
    put treeMode cache (.binder es) =
      match cacheFind cache (.binder, containerKey (.binder es)) with
      | some index => (writeHeader TYPE_CREF index, cache)
      | none =>
          let body :=
            putEntries treeMode (cached treeMode cache (.binder, containerKey (.binder es))) es
          (writeHeader TYPE_DICT es.length ++ body.1, body.2) := by
  rw [put, tryWriteReference_eq]
  cases cacheFind cache (.binder, containerKey (.binder es)) <;> rfl

theorem sizeLoop_le : ∀ fuel cnt value, sizeLoop fuel cnt value ≤ cnt + fuel
  | 0, cnt, _ => Nat.le_refl cnt
  | fuel + 1, cnt, value => by
      have ih := sizeLoop_le fuel (cnt + 1) (value >>> 8)
      rw [sizeLoop]
      split <;> omega

theorem le_sizeLoop : ∀ fuel cnt value, cnt ≤ sizeLoop fuel cnt value
  | 0, cnt, _ => Nat.le_refl cnt
  | fuel + 1, cnt, value => by
      have ih := le_sizeLoop fuel (cnt + 1) (value >>> 8)
      rw [sizeLoop]
      split <;> omega

/-- The bytes counted are enough for the value. -/
theorem lt_sizeLoop : ∀ fuel cnt value, 1 ≤ cnt → value < 256 ^ (fuel + 1) →
    value < 256 ^ (sizeLoop fuel cnt value + 1 - cnt)
  | 0, cnt, value, _, h => by simpa [sizeLoop] using h
  | fuel + 1, cnt, value, hcnt, h => by
      have hdiv : value >>> 8 = value / 256 := Nat.shiftRight_eq_div_pow value 8
      rw [sizeLoop]
      split
      · have hlt : value >>> 8 < 256 ^ (fuel + 1) := by
          rw [hdiv, Nat.div_lt_iff_lt_mul (by norm_num)]
          simpa [pow_succ] using h
        have ih := lt_sizeLoop fuel (cnt + 1) (value >>> 8) (by omega) hlt
        have hle := le_sizeLoop fuel (cnt + 1) (value >>> 8)
        rw [hdiv, Nat.div_lt_iff_lt_mul (by norm_num), ← pow_succ, ← hdiv] at ih
        have he : sizeLoop fuel (cnt + 1) (value >>> 8) + 1 - cnt
            = sizeLoop fuel (cnt + 1) (value >>> 8) + 1 - (cnt + 1) + 1 := by omega
        rw [he]
        exact ih
      · have : cnt + 1 - cnt = 1 := by omega
        rw [this]
        omega

theorem sizeInBytes_le (value : Nat) : sizeInBytes value ≤ 8 := sizeLoop_le 7 1 value

theorem one_le_sizeInBytes (value : Nat) : 1 ≤ sizeInBytes value := le_sizeLoop 7 1 value

theorem lt_sizeInBytes {value : Nat} (h : value < 2 ^ 64) : value < 256 ^ sizeInBytes value := by
  have := lt_sizeLoop 7 1 value (Nat.le_refl 1) (by norm_num; omega)
  simpa [sizeInBytes] using this

/-- A header is one byte, or one byte and the bytes of the value. -/
theorem writeHeader_eq (code value : Nat) : writeHeader code value =
    if value < 23 then [UInt8.ofNat (code ||| value <<< 3)]
    else UInt8.ofNat (code ||| (sizeInBytes value + 22) <<< 3) ::
      leBytes (sizeInBytes value) value := by
  have := sizeInBytes_le value
  rw [writeHeader]
  split
  · rfl
  · simp [show sizeInBytes value < 9 by omega]

theorem writeHeader_pos (code value : Nat) : 1 ≤ (writeHeader code value).length := by
  rw [writeHeader_eq]
  split <;> simp

/-! ### Every value takes at least a byte, and a cache entry another one at most -/

theorem cached_length_le {α : Type} (treeMode : Bool) (cache : List α) (a : α) :
    (cached treeMode cache a).length ≤ cache.length + 1 := by
  cases treeMode <;> simp [cached]

theorem putBytes_grows (treeMode : Bool) (cache : List CachedObject) (b : Bytes) :
    1 ≤ (putBytes treeMode cache b).1.length ∧ (putBytes treeMode cache b).2.length
      ≤ cache.length + (putBytes treeMode cache b).1.length := by
  have hcached := cached_length_le treeMode cache (.bin, b)
  rw [putBytes_eq]
  cases cacheFind cache (.bin, b) with
  | some index =>
      have := writeHeader_pos TYPE_CREF index
      exact ⟨this, by simp⟩
  | none =>
      have := writeHeader_pos TYPE_BIN b.length
      simp only [List.length_append]
      omega

theorem putString_grows (treeMode : Bool) (cache : List CachedObject) (s : Bytes) :
    1 ≤ (putString treeMode cache s).1.length ∧ (putString treeMode cache s).2.length
      ≤ cache.length + (putString treeMode cache s).1.length := by
  have hcached := cached_length_le treeMode cache (.text, s)
  rw [putString_eq]
  cases cacheFind cache (.text, s) with
  | some index =>
      have := writeHeader_pos TYPE_CREF index
      exact ⟨this, by simp⟩
  | none =>
      have := writeHeader_pos TYPE_TEXT s.length
      simp only [List.length_append]
      omega

mutual
theorem put_grows (treeMode : Bool) : ∀ (o : UObject) (cache : List CachedObject),
    1 ≤ (put treeMode cache o).1.length ∧
      (put treeMode cache o).2.length ≤ cache.length + (put treeMode cache o).1.length
  | .null, cache => by simpa [put] using writeHeader_pos _ _
  | .int i, cache => by
      simp only [put, putInt]
      split <;> simpa using writeHeader_pos _ _
  | .double d, cache => by
      have := writeHeader_pos TYPE_EXTRA XT_DOUBLE
      simp only [put, putDouble]
      split_ifs
      · simpa using writeHeader_pos _ _
      · simpa using writeHeader_pos _ _
      · simpa using writeHeader_pos _ _
      · simp only [List.length_append]
        omega
  | .bool b, cache => by simpa [put, putBool] using writeHeader_pos _ _
  | .dateTime count, cache => by
      have := writeHeader_pos TYPE_EXTRA XT_TIME
      simp only [put, putDateTime, List.length_append]
      omega
  | .bytes b, cache => putBytes_grows treeMode cache b
  | .string s, cache => putString_grows treeMode cache s
  | .array xs, cache => by
      have hcached := cached_length_le treeMode cache (.array, containerKey (.array xs))
      rw [put_array]
      cases cacheFind cache (.array, containerKey (.array xs)) with
      | some index => exact ⟨writeHeader_pos _ _, by simp⟩
      | none =>
          have hhead := writeHeader_pos TYPE_LIST xs.length
          have hbody := putItems_grows treeMode xs
            (cached treeMode cache (.array, containerKey (.array xs)))
          simp only [List.length_append]
          omega
  | .binder es, cache => by
      have hcached := cached_length_le treeMode cache (.binder, containerKey (.binder es))
      rw [put_binder]
      cases cacheFind cache (.binder, containerKey (.binder es)) with
      | some index => exact ⟨writeHeader_pos _ _, by simp⟩
      | none =>
          have hhead := writeHeader_pos TYPE_DICT es.length
          have hbody := putEntries_grows treeMode es
            (cached treeMode cache (.binder, containerKey (.binder es)))
          simp only [List.length_append]
          omega

theorem putItems_grows (treeMode : Bool) : ∀ (xs : List UObject) (cache : List CachedObject),
    xs.length ≤ (putItems treeMode cache xs).1.length ∧
      (putItems treeMode cache xs).2.length ≤ cache.length + (putItems treeMode cache xs).1.length
  | [], cache => by simp [putItems]
  | x :: xs, cache => by
      have hx := put_grows treeMode x cache
      have hxs := putItems_grows treeMode xs (put treeMode cache x).2
      simp only [putItems, List.length_append, List.length_cons]
      omega

theorem putEntries_grows (treeMode : Bool) :
    ∀ (es : List (Bytes × UObject)) (cache : List CachedObject),
      es.length ≤ (putEntries treeMode cache es).1.length ∧ (putEntries treeMode cache es).2.length
        ≤ cache.length + (putEntries treeMode cache es).1.length
  | [], cache => by simp [putEntries]
  | (k, v) :: es, cache => by
      have hk := putString_grows treeMode cache k
      have hv := put_grows treeMode v (putString treeMode cache k).2
      have hes := putEntries_grows treeMode es (put treeMode (putString treeMode cache k).2 v).2
      simp only [putEntries, List.length_append, List.length_cons]
      omega
end

end Universa.Boss
