import Universa.Boss.Reader
import Universa.Crypto.KeyAddress

/-! `BaseSerializer::deserialize` and the objects it composes from maps that name a complex type, and the
    calls of a reader that end with it. A key is read by a reader over the bytes it is packed in, on the same
    stack; its numbers are computed by a library whose documentation leaves out a modulus of zero, and its
    arrays stand on the stack. `room` bounds nested calls of `get` and of `deserialize`; what a frame holds
    besides, and the destructors of what was read, are part of a call. -/

namespace Universa.Boss
open Wire UObject Crypto

/-- What the process gives a reader: the hashes, and the bytes of stack there are for arrays. -/
structure Process where
  hashes : Hashes
  arrayRoom : Nat

/-! ### Parts of a map -/

namespace UObject

/-- `UBinder::get`, null for a missing key. -/
def get (key : String) (es : List (Bytes × UObject)) : UObject := (find (ascii key) es).getD .null

/-- `UBytes::asInstance(object).get()`. -/
def asBytes : UObject → Except String Bytes
  | .bytes b => .ok b
  | _ => .error "object is not instance of UBytes"

/-- `UArray::asInstance(object)`. -/
def asArray : UObject → Except String (List UObject)
  | .array xs => .ok xs
  | _ => .error "object is not instance of UDouble"

/-- `UInt::asInstance(object).get()`. -/
def asInt : UObject → Except String (BitVec 64)
  | .int i => .ok i
  | _ => .error "object is not instance of UInt"

/-- `array.at(pos)`. -/
def elementAt (xs : List UObject) (pos : Nat) : Except String UObject :=
  match xs[pos]? with
  | some x => .ok x
  | none => .error ("vector::_M_range_check: __n (which is " ++ toString pos ++ ") >= this->size() (which is " ++
      toString xs.length ++ ")")

/-- `UBinder::getString`. -/
def getString (key : String) (es : List (Bytes × UObject)) : Except String Bytes :=
  match get key es with
  | .null => .error ("Key \"" ++ key ++ "\" not found in Binder")
  | .string s => .ok s
  | _ => .error ("Value type founded by key \"" ++ key ++ "\" is not 7UString")

/-- `UBinder::getInt`. -/
def getInt (key : String) (es : List (Bytes × UObject)) : Except String (BitVec 64) :=
  match get key es with
  | .null => .error ("Key \"" ++ key ++ "\" not found in Binder")
  | .int i => .ok i
  | _ => .error ("Value type founded by key \"" ++ key ++ "\" is not 4UInt")

end UObject

/-! ### Another reader -/

/-- The steps of another reader, as steps of this one. -/
def Reader.noteInner (s : Reader) (trace : List Step) : Reader :=
  { s with trace := trace.map (fun step => ⟨.inner step.kind step.pos, s.pos⟩) ++ s.trace }

/-- A reader over bytes of its own. -/
def readInner {α : Type} (m : Read α) (data : Bytes) : Read α := fun s =>
  match m (Reader.new data) with
  | .ok a inner => .ok a (s.noteInner inner.trace)
  | .throw e inner => .throw e (s.noteInner inner.trace)
  | .crash k inner => .crash k (s.noteInner inner.trace)

/-- `catch (const std::exception &e)`, and `throw` with a text before its own. -/
def rethrow {α : Type} (text : String) (m : Read α) : Read α := fun s =>
  match m s with
  | .ok a s' => .ok a s'
  | .throw e s' => .throw (text ++ e) s'
  | .crash k s' => .crash k s'

/-! ### Keys -/

/-- `mpz_import` of big-endian bytes. -/
def mpzImport (b : Bytes) : Nat := b.foldl (fun n d => 256 * n + d.toNat) 0

/-- `mpz_unsigned_bin_size`. -/
def mpzUnsignedBinSize (n : Nat) : Nat := (n.log2 + 1 + 7) / 8

/-- `gmp_snprintf` into 2048 characters, read back: the first 2047 digits. -/
def throughText (n : Nat) : Nat := n / 10 ^ ((toString n).length - 2047)

section
variable (process : Process)

/-- `PublicKey::initFromBytes`: both numbers are put in arrays. -/
def initPublicKey (e n : Bytes) : Read Unit := fun s =>
  let size := mpzUnsignedBinSize (mpzImport e) + mpzUnsignedBinSize (mpzImport n)
  if size ≤ process.arrayRoom then .ok () (s.note (.arrays size process.arrayRoom))
  else .crash .stackOverflow (s.note (.arrays size process.arrayRoom))

/-- `PrivateKey::initFromBytes`: inverts modulo `(p - 1) * (q - 1)` and modulo `p`. -/
def initPrivateKey (p q : Bytes) : Read Unit := fun s =>
  let p := throughText (mpzImport p)
  let q := throughText (mpzImport q)
  if p ≠ 0 ∧ p ≠ 1 ∧ q ≠ 1 then .ok () (s.note (.factors p q))
  else .crash .divisionByZero (s.note (.factors p q))

/-- `PublicKey(packedBinaryKeyData, packedBinaryKeySize)`, the reading passed in. -/
def publicKey (readObject : Read UObject) (packed : Bytes) : Read Unit :=
  rethrow "failed to parse public key: " do
    let xs ← Comp.lift (asArray (← readInner readObject packed))
    let type ← Comp.lift (do asInt (← elementAt xs 0))
    if type = 0 then Comp.fail "the key is private, not public"
    else if type = 1 then
      let e ← Comp.lift (do asBytes (← elementAt xs 1))
      let n ← Comp.lift (do asBytes (← elementAt xs 2))
      initPublicKey process e n
    else if type = 2 then Comp.fail "key is password protected"
    else Comp.fail "Bad or unknown public key type"

/-- `PrivateKey(packedBinaryKeyData, packedBinaryKeySize)`, the reading passed in. -/
def privateKey (readObject : Read UObject) (packed : Bytes) : Read Unit :=
  rethrow "failed to parse private key: " do
    let xs ← Comp.lift (asArray (← readInner readObject packed))
    let type ← Comp.lift (do asInt (← elementAt xs 0))
    if type = 0 then
      let _ ← Comp.lift (do asBytes (← elementAt xs 1))
      let p ← Comp.lift (do asBytes (← elementAt xs 2))
      let q ← Comp.lift (do asBytes (← elementAt xs 3))
      initPrivateKey p q
    else if type = 1 then Comp.fail "the key is public, not private"
    else if type = 2 then Comp.fail "key is password protected"
    else Comp.fail "Bad or unknown private key type"

/-- `KeyAddress(packedSource)`. -/
def keyAddress (packed : Bytes) : Read Unit := fun s =>
  match KeyAddress.ofPacked process.hashes packed with
  | .ok _ => .ok () (s.note (.address packed))
  | .error .outOfBounds => .crash .outOfBounds (s.note (.address packed))
  | .error .invalidArgument =>
      .throw (if KeyAddress.maskOf packed = 0 then "keyMask is 0" else "control code failed, address is broken")
        (s.note (.address packed))

/-! ### Objects -/

/-- `T::compose(data)` of the class a type name stands for, or the map itself. -/
def composeObject (readObject : Read UObject) (type : Bytes) (data : List (Bytes × UObject)) : Read UObject := do
  if type = ascii "TestComplexObject" then
    let _ ← Comp.lift (getString "name" data)
    let _ ← Comp.lift (getInt "amount" data)
  else if type = ascii "HashId" then
    let _ ← Comp.lift (asBytes (UObject.get "composite3" data))
  else if type = ascii "KeyAddress" then
    keyAddress process (← Comp.lift (asBytes (UObject.get "uaddress" data)))
  else if type = ascii "RSAPublicKey" then
    publicKey process readObject (← Comp.lift (asBytes (UObject.get "packed" data)))
  else if type = ascii "RSAPrivateKey" then
    privateKey readObject (← Comp.lift (asBytes (UObject.get "packed" data)))
  else if type = ascii "USerializationError" then
    let _ ← Comp.lift (getString "strValue" data)
  return .binder data

def deserializeItems (next : UObject → Read UObject) : List UObject → Read (List UObject)
  | [] => pure []
  | x :: xs => do return (← next x) :: (← deserializeItems next xs)

def deserializeEntries (next : UObject → Read UObject) :
    List (Bytes × UObject) → Read (List (Bytes × UObject))
  | [] => pure []
  | (k, v) :: es => do return (k, ← next v) :: (← deserializeEntries next es)

/-- What `readObject` makes of a value that was read. -/
def finish (deserialize : UObject → Read UObject) : UObject → Read UObject
  | .array xs => deserialize (.array xs)
  | .binder es => deserialize (.binder es)
  | o => pure o

/-- `BaseSerializer::deserialize`: arrays and maps are rebuilt, a map with a known type name is composed, a
    map with another type name stays as it is. -/
def deserialize : Nat → UObject → Read UObject
  | 0, _ => fun s => .crash .stackOverflow (s.note (.call 0))
  | room + 1, o => do
      Comp.modify (·.note (.call (room + 1)))
      match o with
      | .array xs => return .array (← deserializeItems (deserialize room) xs)
      | .binder es => do
          let type ← Comp.lift (typeName es)
          if type.isEmpty then return .binder (← deserializeEntries (deserialize room) es)
          else composeObject process (do finish (deserialize room) (← Reader.get room)) type es
      | o => pure o

/-! ### The calls of a reader -/

/-- `Reader::readObject`. -/
def Reader.readObject (room : Nat) : Read UObject := do
  let o ← Reader.get room
  finish (deserialize process room) o

/-- `readObject` called so many times, each exception caught by the caller. -/
def readCalls (room : Nat) : Nat → Read (List (Except String UObject))
  | 0 => pure []
  | calls + 1 => do
      let o ← Comp.catching (Reader.readObject process room)
      return o :: (← readCalls room calls)

/-- `readObject` called so many times, none of them throwing. -/
def readObjects (room : Nat) : Nat → Read (List UObject)
  | 0 => pure []
  | calls + 1 => do
      let o ← Reader.readObject process room
      return o :: (← readObjects room calls)

end
end Universa.Boss
