import Universa.Boss.Writer
import Universa.Lib.Comp

/-! `BossSerializer::Reader` over a buffer it did not choose. The arithmetic is the code's: `pos` and
    `size` are 32-bit, header values 64-bit, and each check adds before it compares, in the width C++
    gives it. Reading outside the buffer, an overflowing `int` loop counter and a nested call with no
    stack left for it end the run (`Crash`). The reader carries the list of its steps, latest first:
    what each read, from which position, or what it counted; nothing in the code looks at it. -/

namespace Universa.Boss
open Wire UObject

/-- Ends that are neither a return nor an exception. -/
inductive Crash where
  | outOfBounds | counterOverflow | stackOverflow | endlessLoop | divisionByZero
  deriving DecidableEq

/-- What a step of the reader does: it reads a byte, the bytes of a header value, or a double; it
    counts a loop on; it calls `get` or `deserialize` with room for so many calls; it puts arrays on
    the stack, in the bytes there are for them; it takes an address apart, or divides by what the
    factors of a key give; it makes a step of another reader. -/
inductive StepKind where
  | byte
  | binary (value : Nat)
  | text (value : Nat)
  | double
  | next (i : Nat)
  | call (room : Nat)
  | arrays (size room : Nat)
  | address (packed : Bytes)
  | factors (p q : Nat)
  | inner (kind : StepKind) (pos : Nat)
  deriving DecidableEq

structure Step where
  kind : StepKind
  /-- The position before the step. -/
  pos : Nat
  deriving DecidableEq

structure Reader where
  bin : Bytes
  pos : Nat := 0
  cache : List UObject := []
  /-- Innermost container first. -/
  recursive : List Nat := []
  treeMode : Bool := true
  trace : List Step := []

/-- `bin` holds the bytes the reader knows of: the size is an `unsigned int`. -/
def Reader.new (data : Bytes) : Reader := { bin := data.take (data.length % 2 ^ 32) }

def Reader.size (s : Reader) : Nat := s.bin.length

abbrev Read := Comp String Crash Reader

/-- Record a step. -/
def Reader.note (s : Reader) (kind : StepKind) : Reader :=
  { s with trace := ⟨kind, s.pos⟩ :: s.trace }

/-! ### Bytes and headers -/

/-- `pos + 1 > size` is compared in 32 bits. -/
def readByte : Read UInt8 := fun s =>
  if (s.pos + 1) % 2 ^ 32 > s.size then
    .throw "BOSS deserialize error: overflow parsing header" s
  else match s.bin[s.pos]? with
    | some b => .ok b { s.note .byte with pos := (s.pos + 1) % 2 ^ 32 }
    | none => .crash .outOfBounds (s.note .byte)

/-- The loop of `readEncodedLong`; a shift count is taken modulo 64. -/
def encodedLoop : Nat → Nat → Nat → Read Nat
  | 0, _, _ => fun s => .crash .endlessLoop s
  | fuel + 1, shift, value => do
      let n ← readByte
      let value := (value ||| (n.toNat &&& 0x7F) <<< (shift % 64)) % 2 ^ 64
      if n.toNat &&& 0x80 ≠ 0 then pure value else encodedLoop fuel (shift + 7) value

/-- Each turn reads a byte, so the bytes left bound the turns. -/
def readEncodedLong : Read Nat := fun s => encodedLoop (s.size - s.pos + 1) 0 0 s

def longLoop : Nat → Nat → Nat → Read Nat
  | 0, _, res => pure res
  | length + 1, n, res => do
      let b ← readByte
      longLoop length (n + 8) (res ||| b.toNat <<< n)

def readLong (length : Nat) : Read Nat :=
  if length > 8 then Comp.fail "BOSS deserialize error: invalid long length"
  else longLoop length 0 0

structure Header where
  code : Nat
  value : Nat

def readHeader : Read Header := do
  let b ← readByte
  let code := b.toNat &&& 7
  let value := b.toNat >>> 3
  if value ≥ 31 then
    let length ← readEncodedLong
    return ⟨code, ← readLong length⟩
  else if value > 22 then
    return ⟨code, ← readLong (value - 22)⟩
  else
    return ⟨code, value⟩

/-! ### The cache -/

/-- `cacheObject`. -/
def Reader.cacheObject (s : Reader) (o : UObject) : Reader :=
  if s.treeMode then { s with cache := s.cache ++ [o] } else s

/-- A container enters the cache before its parts, and its index the list of open ones. -/
def openContainer (o : UObject) : Read Nat := do
  Comp.modify (·.cacheObject o)
  let s ← Comp.read
  Comp.modify fun s => { s with recursive := s.cache.length :: s.recursive }
  return s.cache.length

/-- The parts were pushed to the cached object itself; while it is open no reference reaches it. In
    stream mode the cache is empty. -/
def closeContainer (index : Nat) (o : UObject) : Read UObject := do
  Comp.modify fun s =>
    { s with recursive := s.recursive.tail, cache := s.cache.set (index - 1) o }
  return o

def setStreamMode : Read Unit :=
  Comp.modify fun s => { s with cache := [], treeMode := false }

/-- `i++` on an `int`. -/
def countOn (i : Nat) : Read Unit := fun s =>
  if i + 1 < 2 ^ 31 then .ok () (s.note (.next i)) else .crash .counterOverflow (s.note (.next i))

/-! ### Values -/

/-- `TYPE_BIN`: `pos + h.value > size` is compared in 64 bits, the length copied is the low 32. -/
def readBinary (value : Nat) : Read UObject := fun s =>
  if (s.pos + value) % 2 ^ 64 > s.size then
    .throw "BOSS deserialize error: overflow reading binary data" s
  else if s.pos + value % 2 ^ 32 ≤ s.size then
    let o := UObject.bytes ((s.bin.drop s.pos).take (value % 2 ^ 32))
    .ok o { (s.note (.binary value)).cacheObject o with pos := (s.pos + value) % 2 ^ 32 }
  else .crash .outOfBounds (s.note (.binary value))

/-- `TYPE_TEXT`: a length that wraps the sum is a negative range, which `std::string` refuses. -/
def readText (value : Nat) : Read UObject := fun s =>
  if (s.pos + value) % 2 ^ 64 > s.size then
    .throw "BOSS deserialize error: overflow reading string" s
  else if s.pos + value < 2 ^ 64 then
    let o := UObject.string ((s.bin.drop s.pos).take value)
    .ok o { (s.note (.text value)).cacheObject o with pos := (s.pos + value) % 2 ^ 32 }
  else .throw "basic_string::_M_create" s

/-- `XT_DOUBLE`: `pos + 8 > size` is compared in 32 bits. -/
def readDouble : Read UObject := fun s =>
  if (s.pos + 8) % 2 ^ 32 > s.size then
    .throw "BOSS deserialize error: overflow reading double" s
  else if s.pos + 8 ≤ s.size then
    .ok (.double (BitVec.ofNat 64 (leValue ((s.bin.drop s.pos).take 8))))
      { s.note .double with pos := (s.pos + 8) % 2 ^ 32 }
  else .crash .outOfBounds (s.note .double)

/-- Seconds to nanoseconds, in 64 bits. -/
def fromSeconds (seconds : Nat) : BitVec 64 := BitVec.ofNat 64 (seconds * den)

/-- `parseExtra`, the reading of another object passed in. -/
def parseExtra (next : Read UObject) (code : Int) : Read UObject :=
  match code with
  | 1 => pure (.double dZero)
  | 2 => pure (.double dOne)
  | 4 => pure (.double dMinusOne)
  | 12 => pure (.bool true)
  | 13 => pure (.bool false)
  | 15 => do return .dateTime (fromSeconds (← readEncodedLong))
  | 16 => do
      setStreamMode
      next
  | 7 => readDouble
  | code => Comp.fail ("BOSS deserialize error: unknown extra code: " ++ toString code)

/-- `for (int i = 0; i < h.value; i++) array.push_back(get());` with `count` turns to go. -/
def readItems (next : Read UObject) : Nat → Nat → Read (List UObject)
  | 0, _ => pure []
  | count + 1, i => do
      let x ← next
      countOn i
      return x :: (← readItems next count (i + 1))

/-- The loop of `readBinder`. -/
def readEntries (next : Read UObject) :
    Nat → Nat → List (Bytes × UObject) → Read (List (Bytes × UObject))
  | 0, _, es => pure es
  | count + 1, i, es => do
      let key ← next
      match key with
      | .string s =>
          let value ← next
          countOn i
          readEntries next count (i + 1) (UObject.set s value es)
      | _ => Comp.fail "BOSS deserialize error: key must be string"

def readArray (next : Read UObject) (h : Header) : Read UObject := do
  let index ← openContainer (.array [])
  let xs ← readItems next h.value 0
  closeContainer index (.array xs)

def readBinder (next : Read UObject) (h : Header) : Read UObject := do
  let index ← openContainer (.binder [])
  let es ← readEntries next h.value 0 []
  closeContainer index (.binder es)

/-- `TYPE_CREF`. -/
def readReference (value : Nat) : Read UObject := fun s =>
  if value ≠ 0 ∧ value > s.cache.length then
    .throw "BOSS deserialize error: overflow cache" s
  else if value ∈ s.recursive then
    .throw "BOSS deserialize error: recursive reference" s
  else if value = 0 then .ok .null s
  else .ok (s.cache.getD (value - 1) .null) s

/-- The switch of `get`, the nested call passed in. -/
def readValue (next : Read UObject) (h : Header) : Read UObject :=
  match h.code with
  | TYPE_INT => pure (.int (BitVec.ofNat 64 h.value))
  | TYPE_NINT => pure (.int (-BitVec.ofNat 64 h.value))
  | TYPE_BIN => readBinary h.value
  | TYPE_TEXT => readText h.value
  | TYPE_LIST => readArray next h
  | TYPE_DICT => readBinder next h
  | TYPE_CREF => readReference h.value
  | TYPE_EXTRA => parseExtra next (BitVec.ofNat 32 h.value).toInt
  | _ => Comp.fail "BOSS deserialize error: Bad BOSS header"

/-- `Reader::get` on a thread whose stack has room for so many nested calls of it. -/
def Reader.get : Nat → Read UObject
  | 0 => fun s => .crash .stackOverflow (s.note (.call 0))
  | room + 1 => do
      Comp.modify (·.note (.call (room + 1)))
      let h ← readHeader
      readValue (Reader.get room) h

end Universa.Boss
