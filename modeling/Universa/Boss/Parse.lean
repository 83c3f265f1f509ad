import Universa.Boss.ReaderSafety

/-! What the BOSS reader computes, without the buffer: a parser on the bytes that are left. It has
    the reader's cache, its open containers and its mode, but no positions and no machine widths
    beside those of the values. On a buffer whose size an `unsigned int` holds, the reader returns
    exactly when the parser accepts, with the same value (`get_refines`). -/

namespace Universa.Boss
open Wire UObject

structure Rest where
  rest : Bytes
  cache : List UObject := []
  recursive : List Nat := []
  treeMode : Bool := true

abbrev Parse := StateT Rest Option

namespace Parse

theorem bind_apply {α β : Type} (p : Parse α) (f : α → Parse β) (s : Rest) :
    (p >>= f) s = (p s).bind fun x => f x.1 x.2 := rfl

theorem pure_apply {α : Type} (a : α) (s : Rest) : (pure a : Parse α) s = some (a, s) := rfl

/-- The parser rejects. -/
def reject {α : Type} : Parse α := fun _ => none

def update (f : Rest → Rest) : Parse Unit := fun s => some ((), f s)

def byte : Parse UInt8 := fun s =>
  match s.rest with
  | [] => none
  | b :: rest => some (b, { s with rest := rest })

def take (n : Nat) : Parse Bytes := fun s =>
  if n ≤ s.rest.length then some (s.rest.take n, { s with rest := s.rest.drop n }) else none

/-- Groups of seven bits up to the one with the stop bit. -/
def groupsFrom (shift value : Nat) : Bytes → Option (Nat × Bytes)
  | [] => none
  | b :: rest =>
      let value := (value ||| (b.toNat &&& 0x7F) <<< (shift % 64)) % 2 ^ 64
      if b.toNat &&& 0x80 ≠ 0 then some (value, rest) else groupsFrom (shift + 7) value rest

def encodedFrom (shift value : Nat) : Parse Nat := fun s =>
  (groupsFrom shift value s.rest).map fun (v, rest) => (v, { s with rest := rest })

def encodedLong : Parse Nat := encodedFrom 0 0

def long (length : Nat) : Parse Nat :=
  if length > 8 then reject else do return leValue (← take length)

def header : Parse Header := do
  let b ← byte
  let code := b.toNat &&& 7
  let value := b.toNat >>> 3
  if value ≥ 31 then
    let length ← encodedLong
    return ⟨code, ← long length⟩
  else if value > 22 then
    return ⟨code, ← long (value - 22)⟩
  else
    return ⟨code, value⟩

def remember (s : Rest) (o : UObject) : Rest :=
  { s with cache := cached s.treeMode s.cache o }

def enter (o : UObject) : Parse Nat := do
  update (remember · o)
  let s ← get
  update fun s => { s with recursive := s.cache.length :: s.recursive }
  return s.cache.length

def leave (index : Nat) (o : UObject) : Parse UObject := do
  update fun s => { s with recursive := s.recursive.tail, cache := s.cache.set (index - 1) o }
  return o

def countOn (i : Nat) : Parse Unit := fun s => if i + 1 < 2 ^ 31 then some ((), s) else none

/-- A leaf of so many bytes, which is cached. -/
def blob (make : Bytes → UObject) (length : Nat) : Parse UObject := do
  let b ← take length
  update (remember · (make b))
  return make b

def extra (next : Parse UObject) (code : Int) : Parse UObject :=
  match code with
  | 1 => pure (.double dZero)
  | 2 => pure (.double dOne)
  | 4 => pure (.double dMinusOne)
  | 12 => pure (.bool true)
  | 13 => pure (.bool false)
  | 15 => do return .dateTime (fromSeconds (← encodedLong))
  | 16 => do
      update fun s => { s with cache := [], treeMode := false }
      next
  | 7 => do return .double (BitVec.ofNat 64 (leValue (← take 8)))
  | _ => reject

def items (next : Parse UObject) : Nat → Nat → Parse (List UObject)
  | 0, _ => pure []
  | count + 1, i => do
      let x ← next
      countOn i
      return x :: (← items next count (i + 1))

def entries (next : Parse UObject) :
    Nat → Nat → List (Bytes × UObject) → Parse (List (Bytes × UObject))
  | 0, _, es => pure es
  | count + 1, i, es => do
      let key ← next
      match key with
      | .string s =>
          let value ← next
          countOn i
          entries next count (i + 1) (UObject.set s value es)
      | _ => reject

def array (next : Parse UObject) (h : Header) : Parse UObject := do
  let index ← enter (.array [])
  let xs ← items next h.value 0
  leave index (.array xs)

def binder (next : Parse UObject) (h : Header) : Parse UObject := do
  let index ← enter (.binder [])
  let es ← entries next h.value 0 []
  leave index (.binder es)

def reference (value : Nat) : Parse UObject := fun s =>
  if value ≠ 0 ∧ value > s.cache.length then none
  else if value ∈ s.recursive then none
  else if value = 0 then some (.null, s)
  else some (s.cache.getD (value - 1) .null, s)

def value (next : Parse UObject) (h : Header) : Parse UObject :=
  match h.code with
  | TYPE_INT => pure (.int (BitVec.ofNat 64 h.value))
  | TYPE_NINT => pure (.int (-BitVec.ofNat 64 h.value))
  | TYPE_BIN => blob .bytes h.value
  | TYPE_TEXT => blob .string h.value
  | TYPE_LIST => array next h
  | TYPE_DICT => binder next h
  | TYPE_CREF => reference h.value
  | TYPE_EXTRA => extra next (BitVec.ofNat 32 h.value).toInt
  | _ => reject

/-- One value, nested at most so deep. -/
def object : Nat → Parse UObject
  | 0 => reject
  | room + 1 => do
      let h ← header
      value (object room) h

end Parse

/-! ### The reader refines the parser -/

/-- What the parser sees of a reader. -/
def Reader.rest (s : Reader) : Rest :=
  { rest := s.bin.drop s.pos, cache := s.cache, recursive := s.recursive, treeMode := s.treeMode }

/-- The position is inside the buffer, and an `unsigned int` holds its size. -/
def Reader.Within (s : Reader) : Prop := s.size < 2 ^ 32 ∧ s.pos ≤ s.size

abbrev Refines {α : Type} (m : Read α) (p : Parse α) : Prop :=
  Comp.Refines Reader.Within Reader.rest m p

theorem rest_length (s : Reader) : s.rest.rest.length = s.size - s.pos := by
  simp [Reader.rest, Reader.size]

theorem refines_modify {f : Reader → Reader} {g : Rest → Rest} (hrest : ∀ s, (f s).rest = g s.rest)
    (hwithin : ∀ s : Reader, s.Within → (f s).Within) :
    Refines (Comp.modify f) (Parse.update g) :=
  fun s hs => ⟨by rw [hrest s]; rfl, hwithin s hs⟩

theorem readByte_refines : Refines readByte Parse.byte := by
  rintro s ⟨hsize, hpos⟩
  rw [readByte]
  by_cases hlt : s.pos < s.size
  · have hmod : (s.pos + 1) % 2 ^ 32 = s.pos + 1 := Nat.mod_eq_of_lt (by omega)
    have hdrop : s.bin.drop s.pos = s.bin[s.pos] :: s.bin.drop (s.pos + 1) :=
      List.drop_eq_getElem_cons hlt
    rw [hmod, if_neg (by omega), List.getElem?_eq_getElem hlt]
    refine ⟨?_, hsize, hlt⟩
    simp only [Parse.byte, Reader.rest, hdrop, Reader.note]
  · have hdrop : s.rest.rest = [] := by
      rw [← List.length_eq_zero_iff, rest_length]
      omega
    have hparse : Parse.byte s.rest = none := by simp only [Parse.byte, hdrop]
    have hget : s.bin[s.pos]? = none := List.getElem?_eq_none (by rw [Reader.size] at hlt; omega)
    rw [hparse, hget]
    split <;> rfl

/-- Bytes read inside the buffer are what the parser takes. -/
theorem take_rest {s : Reader} {n : Nat} (h : s.pos + n ≤ s.size) :
    Parse.take n s.rest
      = some ((s.bin.drop s.pos).take n, { s.rest with rest := s.bin.drop (s.pos + n) }) := by
  have hle : n ≤ s.rest.rest.length := by rw [rest_length]; omega
  rw [Parse.take, if_pos hle]
  simp [Reader.rest, List.drop_drop]

theorem take_rest_none {s : Reader} {n : Nat} (hpos : s.pos ≤ s.size) (h : ¬ s.pos + n ≤ s.size) :
    Parse.take n s.rest = none := by
  have hgt : ¬ n ≤ s.rest.rest.length := by rw [rest_length]; omega
  rw [Parse.take, if_neg hgt]

/-- One group, and the rest of them. -/
theorem encodedFrom_eq (shift value : Nat) : Parse.encodedFrom shift value = (do
    let n ← Parse.byte
    let value := (value ||| (n.toNat &&& 0x7F) <<< (shift % 64)) % 2 ^ 64
    if n.toNat &&& 0x80 ≠ 0 then pure value else Parse.encodedFrom (shift + 7) value) := by
  funext s
  rw [Parse.encodedFrom]
  cases hrest : s.rest with
  | nil =>
      have hbyte : Parse.byte s = none := by simp only [Parse.byte, hrest]
      rw [Parse.bind_apply, hbyte]
      rfl
  | cons b rest =>
      have hbyte : Parse.byte s = some (b, { s with rest := rest }) := by
        simp only [Parse.byte, hrest]
      rw [Parse.bind_apply, hbyte, Parse.groupsFrom, Option.bind_some]
      dsimp only
      split <;> rfl

theorem encodedLoop_refines : ∀ (fuel shift value : Nat) (s : Reader), s.Within →
    s.size - s.pos < fuel →
    (encodedLoop fuel shift value s).Answers Reader.Within Reader.rest
      (Parse.encodedFrom shift value s.rest)
  | 0, _, _, _, _, hfuel => absurd hfuel (Nat.not_lt_zero _)
  | fuel + 1, shift, value, s, h, hfuel => by
      rw [encodedLoop, encodedFrom_eq]
      refine Comp.refines_bind_at (readByte_refines s h) fun b s' hb h' => ?_
      have hleft : s'.size - s'.pos < fuel := by
        have hrest := readByte_refines s h
        rw [hb] at hrest
        obtain ⟨hbyte, -⟩ := hrest
        have hlen : s.rest.rest.length = s'.rest.rest.length + 1 := by
          rw [Parse.byte] at hbyte
          split at hbyte
          · simp at hbyte
          · next b' rest hs =>
            simp only [Option.some.injEq, Prod.mk.injEq] at hbyte
            rw [hs, ← hbyte.2]
            rfl
        rw [rest_length, rest_length] at hlen
        omega
      split
      · exact ⟨rfl, h'⟩
      · exact encodedLoop_refines fuel (shift + 7) _ s' h' hleft

theorem readEncodedLong_refines : Refines readEncodedLong Parse.encodedLong := fun s h =>
  encodedLoop_refines (s.size - s.pos + 1) 0 0 s h (Nat.lt_succ_self _)

/-- A byte, then the others. -/
theorem take_succ (n : Nat) : Parse.take (n + 1) = (do
    let b ← Parse.byte
    let bs ← Parse.take n
    return b :: bs) := by
  funext s
  rw [Parse.take]
  cases hrest : s.rest with
  | nil =>
      have hbyte : Parse.byte s = none := by simp only [Parse.byte, hrest]
      rw [Parse.bind_apply, hbyte]
      rfl
  | cons b rest =>
      have hbyte : Parse.byte s = some (b, { s with rest := rest }) := by
        simp only [Parse.byte, hrest]
      rw [Parse.bind_apply, hbyte, Option.bind_some, Parse.bind_apply, Parse.take]
      by_cases hn : n ≤ rest.length
      · simp [hn]
        rfl
      · simp [hn]

/-- The loop joins the bytes into their little-endian value, above the bits it has. -/
theorem longLoop_refines : ∀ {length n res : Nat}, res < 2 ^ n →
    Refines (longLoop length n res) (do return res + 2 ^ n * leValue (← Parse.take length))
  | 0, n, res, _ => fun s h => by
      refine ⟨?_, h⟩
      rw [Parse.bind_apply, Parse.take, if_pos (Nat.zero_le _)]
      simp [leValue, Parse.pure_apply]
  | length + 1, n, res, hres => by
      have hb : ∀ b : UInt8, b.toNat + 1 ≤ 2 ^ 8 := fun b => b.toNat_lt
      have hnext : ∀ b : UInt8, res ||| b.toNat <<< n < 2 ^ (n + 8) := by
        intro b
        have := Nat.mul_le_mul_right (2 ^ n) (hb b)
        rw [or_shift _ hres, pow_add]
        linarith
      have hvalue : ∀ (b : UInt8) bs, res + 2 ^ n * leValue (b :: bs)
          = (res ||| b.toNat <<< n) + 2 ^ (n + 8) * leValue bs := by
        intro b bs
        rw [or_shift _ hres, leValue, pow_add]
        ring
      rw [longLoop, take_succ]
      simp only [bind_assoc, pure_bind, hvalue]
      exact Comp.refines_bind readByte_refines fun b => longLoop_refines (hnext b)

theorem readLong_refines (length : Nat) : Refines (readLong length) (Parse.long length) := by
  rw [readLong, Parse.long]
  split
  · exact Comp.refines_fail _
  · have h : Refines (longLoop length 0 0) _ := longLoop_refines (by norm_num)
    simpa using h

theorem readHeader_refines : Refines readHeader Parse.header := by
  refine Comp.refines_bind readByte_refines fun b => ?_
  have hlong : ∀ length, Refines (do return (⟨b.toNat &&& 7, ← readLong length⟩ : Header))
      (do return (⟨b.toNat &&& 7, ← Parse.long length⟩ : Header)) := fun length =>
    Comp.refines_bind (readLong_refines length) fun v => Comp.refines_pure _
  dsimp only
  split
  · exact Comp.refines_bind readEncodedLong_refines hlong
  · split
    · exact hlong _
    · exact Comp.refines_pure _

/-! ### The cache and the counters -/

theorem cacheObject_rest (s : Reader) (o : UObject) :
    (s.cacheObject o).rest = Parse.remember s.rest o := by
  rw [Reader.cacheObject, Parse.remember, cached]
  cases htree : s.treeMode <;> simp [Reader.rest, htree]

theorem cacheObject_within {s : Reader} (h : s.Within) (o : UObject) :
    (s.cacheObject o).Within := by
  rw [Reader.Within, Reader.size, cacheObject_bin, cacheObject_pos]
  exact h

theorem openContainer_refines (o : UObject) : Refines (openContainer o) (Parse.enter o) := by
  refine Comp.refines_bind (refines_modify (fun s => cacheObject_rest s o)
    fun s h => cacheObject_within h o) fun _ => ?_
  intro s h
  exact ⟨rfl, h⟩

theorem closeContainer_refines (index : Nat) (o : UObject) :
    Refines (closeContainer index o) (Parse.leave index o) :=
  fun _ h => ⟨rfl, h⟩

theorem countOn_refines (i : Nat) : Refines (countOn i) (Parse.countOn i) := by
  intro s h
  rw [countOn, Parse.countOn]
  split
  · exact ⟨rfl, h⟩
  · rfl

/-! ### Values -/

/-- A leaf read inside the buffer and cached is what the parser makes of the same bytes. -/
theorem blob_answers {s : Reader} (h : s.Within) (make : Bytes → UObject) (kind : StepKind)
    {value : Nat} (hin : s.pos + value ≤ s.size) :
    (Outcome.ok (make ((s.bin.drop s.pos).take value))
        { (s.note kind).cacheObject (make ((s.bin.drop s.pos).take value)) with
          pos := s.pos + value } : Outcome String Crash Reader UObject).Answers
      Reader.Within Reader.rest (Parse.blob make value s.rest) := by
  refine ⟨?_, ?_, ?_⟩
  · rw [Parse.blob, Parse.bind_apply, take_rest hin]
    by_cases htree : s.treeMode <;>
      simp [Parse.bind_apply, Parse.update, Parse.pure_apply, Parse.remember, cached,
        Reader.cacheObject, Reader.rest, Reader.note, htree]
  · show (Reader.cacheObject _ _).size < 2 ^ 32
    rw [Reader.size, cacheObject_bin]
    exact h.1
  · show s.pos + value ≤ (Reader.cacheObject _ _).size
    rw [Reader.size, cacheObject_bin]
    exact hin

theorem blob_none {s : Reader} (h : s.Within) (make : Bytes → UObject) {value : Nat}
    (hout : ¬ s.pos + value ≤ s.size) : Parse.blob make value s.rest = none := by
  rw [Parse.blob, Parse.bind_apply, take_rest_none h.2 hout]
  rfl

theorem readBinary_refines {value : Nat} (hvalue : value < 2 ^ 64) :
    Refines (readBinary value) (Parse.blob .bytes value) := by
  intro s h
  obtain ⟨hsize, hpos⟩ := id h
  rw [readBinary]
  by_cases hin : s.pos + value ≤ s.size
  · have hsum : (s.pos + value) % 2 ^ 64 = s.pos + value := Nat.mod_eq_of_lt (by omega)
    have hpos' : (s.pos + value) % 2 ^ 32 = s.pos + value := Nat.mod_eq_of_lt (by omega)
    have hlow : value % 2 ^ 32 = value := Nat.mod_eq_of_lt (by omega)
    rw [hsum, hpos', hlow, if_neg (by omega), if_pos hin]
    exact blob_answers h .bytes (.binary value) hin
  · rw [blob_none h _ hin]
    split
    · rfl
    · have hlow : ¬ s.pos + value % 2 ^ 32 ≤ s.size := by omega
      rw [if_neg hlow]
      rfl

theorem readText_refines (value : Nat) :
    Refines (readText value) (Parse.blob .string value) := by
  intro s h
  obtain ⟨hsize, hpos⟩ := id h
  rw [readText]
  by_cases hin : s.pos + value ≤ s.size
  · have hsum : (s.pos + value) % 2 ^ 64 = s.pos + value := Nat.mod_eq_of_lt (by omega)
    have hpos' : (s.pos + value) % 2 ^ 32 = s.pos + value := Nat.mod_eq_of_lt (by omega)
    rw [hsum, hpos', if_neg (by omega), if_pos (by omega)]
    exact blob_answers h .string (.text value) hin
  · rw [blob_none h _ hin]
    split
    · rfl
    · have hwrap : ¬ s.pos + value < 2 ^ 64 := by omega
      rw [if_neg hwrap]
      rfl

theorem readDouble_refines : Refines readDouble
    (do return .double (BitVec.ofNat 64 (leValue (← Parse.take 8)))) := by
  intro s h
  obtain ⟨hsize, hpos⟩ := id h
  rw [readDouble, Parse.bind_apply]
  by_cases hin : s.pos + 8 ≤ s.size
  · have hsum : (s.pos + 8) % 2 ^ 32 = s.pos + 8 := Nat.mod_eq_of_lt (by omega)
    rw [hsum, if_neg (by omega), if_pos hin, take_rest hin]
    exact ⟨rfl, hsize, hin⟩
  · rw [take_rest_none hpos hin, if_neg hin]
    split <;> rfl

theorem readReference_refines (value : Nat) :
    Refines (readReference value) (Parse.reference value) := by
  intro s h
  rw [readReference, Parse.reference]
  show Outcome.Answers _ _ (if value ≠ 0 ∧ value > s.cache.length then _ else
    if value ∈ s.recursive then _ else _) _
  split_ifs
  · rfl
  · rfl
  · exact ⟨rfl, h⟩
  · exact ⟨rfl, h⟩

/-- The codes that `parseExtra` knows. -/
def extraCodes : List Int := [1, 2, 4, 12, 13, 15, 16, 7]

theorem parseExtra_unknown (next : Read UObject) {code : Int} (h : code ∉ extraCodes) :
    parseExtra next code = Comp.fail ("BOSS deserialize error: unknown extra code: " ++ toString code) := by
  unfold parseExtra
  split
  case h_9 => rfl
  all_goals exact absurd (by decide) h

theorem extra_unknown (next : Parse UObject) {code : Int} (h : code ∉ extraCodes) :
    Parse.extra next code = Parse.reject := by
  unfold Parse.extra
  split
  case h_9 => rfl
  all_goals exact absurd (by decide) h

section
variable {next : Read UObject} {pnext : Parse UObject} (hnext : Refines next pnext)
include hnext

theorem parseExtra_refines (code : Int) : Refines (parseExtra next code) (Parse.extra pnext code) := by
  by_cases h : code ∈ extraCodes
  · simp only [extraCodes, List.mem_cons, List.not_mem_nil, or_false] at h
    rcases h with rfl | rfl | rfl | rfl | rfl | rfl | rfl | rfl
    · exact Comp.refines_pure _
    · exact Comp.refines_pure _
    · exact Comp.refines_pure _
    · exact Comp.refines_pure _
    · exact Comp.refines_pure _
    · exact Comp.refines_bind readEncodedLong_refines fun _ => Comp.refines_pure _
    · exact Comp.refines_bind (refines_modify (fun _ => rfl) fun _ h => h) fun _ => hnext
    · exact readDouble_refines
  · rw [parseExtra_unknown next h, extra_unknown pnext h]
    exact Comp.refines_fail _

theorem readItems_refines : ∀ count i,
    Refines (readItems next count i) (Parse.items pnext count i)
  | 0, _ => Comp.refines_pure _
  | count + 1, i => by
      refine Comp.refines_bind hnext fun x => Comp.refines_bind (countOn_refines i) fun _ => ?_
      exact Comp.refines_bind (readItems_refines count (i + 1)) fun _ => Comp.refines_pure _

theorem readEntries_refines : ∀ count i es,
    Refines (readEntries next count i es) (Parse.entries pnext count i es)
  | 0, _, es => Comp.refines_pure es
  | count + 1, i, es => by
      refine Comp.refines_bind hnext fun key => ?_
      cases key with
      | string s =>
          refine Comp.refines_bind hnext fun value =>
            Comp.refines_bind (countOn_refines i) fun _ => ?_
          exact readEntries_refines count (i + 1) _
      | _ => exact Comp.refines_fail _

theorem readArray_refines (h : Header) : Refines (readArray next h) (Parse.array pnext h) :=
  Comp.refines_bind (openContainer_refines _) fun index =>
    Comp.refines_bind (readItems_refines hnext _ _) fun _ => closeContainer_refines index _

theorem readBinder_refines (h : Header) : Refines (readBinder next h) (Parse.binder pnext h) :=
  Comp.refines_bind (openContainer_refines _) fun index =>
    Comp.refines_bind (readEntries_refines hnext _ _ _) fun _ => closeContainer_refines index _

theorem readValue_refines : ∀ {h : Header}, h.value < 2 ^ 64 →
    Refines (readValue next h) (Parse.value pnext h)
  | ⟨TYPE_INT, _⟩, _ | ⟨TYPE_NINT, _⟩, _ => Comp.refines_pure _
  | ⟨TYPE_BIN, _⟩, hvalue => readBinary_refines hvalue
  | ⟨TYPE_TEXT, _⟩, _ => readText_refines _
  | ⟨TYPE_LIST, _⟩, _ => readArray_refines hnext _
  | ⟨TYPE_DICT, _⟩, _ => readBinder_refines hnext _
  | ⟨TYPE_CREF, _⟩, _ => readReference_refines _
  | ⟨TYPE_EXTRA, _⟩, _ => parseExtra_refines hnext _
  | ⟨_ + 8, _⟩, _ => Comp.refines_fail _

end

/-- The reader returns what the parser answers, and nothing else. -/
theorem get_refines : ∀ room, Refines (Reader.get room) (Parse.object room)
  | 0 => fun _ _ => rfl
  | room + 1 => by
      intro s h
      have hnote : (s.note (.call (room + 1))).Within := h
      refine Comp.refines_bind_at (readHeader_refines _ hnote) fun hd s' hh hs' => ?_
      exact readValue_refines (get_refines room) (readHeader_lt hh) s' hs'

end Universa.Boss
