import Universa.Crypto.Safe58

/-! `KeyAddress`: the packed form of an address, which one constructor lays out and another takes apart.
    The digests and the CRC are parameters with the lengths of their outputs.

    The constructor of a packed form copies the source before it looks at it, and it reads from the copy
    what the mark of the length asks for. -/

namespace Universa.Crypto
open Safe58

/-- `hash_memory` for the two hash types, and the CRC of the control code. -/
structure Hashes where
  sha3_256 : List UInt8 → List UInt8
  sha3_384 : List UInt8 → List UInt8
  crc32 : List UInt8 → List UInt8
  sha3_256_length : ∀ input, (sha3_256 input).length = 32
  sha3_384_length : ∀ input, (sha3_384 input).length = 48
  crc32_length : ∀ input, (crc32 input).length = 4

/-- `PublicKey`, as far as an address asks it. -/
structure PublicKey where
  publicExponent : ℕ
  bitStrength : ℕ
  keyComponents : List UInt8

/-- `mask(key)`. -/
def PublicKey.mask (key : PublicKey) : Except Fault ℕ :=
  if key.publicExponent = 0x10001 then
    if key.bitStrength / 8 = 2048 / 8 then .ok 0x01
    else if key.bitStrength / 8 = 4096 / 8 then .ok 0x02
    else if key.bitStrength / 8 = 8192 / 8 then .ok 0x03
    else .error .invalidArgument
  else .error .invalidArgument

/-- `KeyAddress`. -/
structure KeyAddress where
  keyMask : ℕ
  keyDigest : List UInt8
  isLong : Bool
  packed : List UInt8
  typeMark : ℕ
  deriving DecidableEq

/-- `hashsize` of the hash type of an address. -/
def hashsize (isLong : Bool) : ℕ := if isLong then 48 else 32

/-- The digest of an address. -/
def Hashes.digest (h : Hashes) (isLong : Bool) (input : List UInt8) : List UInt8 :=
  if isLong then h.sha3_384 input else h.sha3_256 input

@[simp] theorem Hashes.digest_length (h : Hashes) (isLong : Bool) (input : List UInt8) :
    (h.digest isLong input).length = hashsize isLong := by
  cases isLong
  · exact h.sha3_256_length input
  · exact h.sha3_384_length input

namespace KeyAddress
variable (h : Hashes)

/-- The first byte of the packed form. -/
def markByte (keyMask typeMark : ℕ) : UInt8 := UInt8.ofNat ((keyMask <<< 4 ||| typeMark) &&& 0xFF)

/-- `KeyAddress(key, typeMark, useSha3_384)`. -/
def ofKey (key : PublicKey) (typeMark : ℕ) (useSha3_384 : Bool) : Except Fault KeyAddress :=
  if typeMark &&& 0xF0 ≠ 0 then .error .invalidArgument
  else do
    let keyMask ← key.mask
    let keyDigest := h.digest useSha3_384 key.keyComponents
    let marked := markByte keyMask typeMark :: keyDigest
    return {
      keyMask := keyMask
      keyDigest := keyDigest
      isLong := useSha3_384
      packed := marked ++ h.crc32 marked
      typeMark := typeMark }

/-- `memcpy` of so many bytes from an index. -/
def bytesAt (packed : List UInt8) (index count : ℕ) : Except Fault (List UInt8) :=
  if index + count ≤ packed.length then .ok ((packed.drop index).take count) else .error .outOfBounds

/-- `KeyAddress(packedSource, packedSourceSize)`. -/
def ofPacked (packed : List UInt8) : Except Fault KeyAddress :=
  match packed with
  | [] => .error .outOfBounds
  | mark :: _ => do
      let typeMark := mark.toNat &&& 0x0F
      let keyMask := (mark.toNat &&& 0xFF) >>> 4
      if keyMask = 0 then .error .invalidArgument
      let isLong := decide (packed.length = 53)
      let digestLength1 := hashsize isLong + 1
      let keyDigest ← bytesAt packed 1 (hashsize isLong)
      let marked ← bytesAt packed 0 digestLength1
      let crc32packed ← bytesAt packed digestLength1 4
      if h.crc32 marked ≠ crc32packed then .error .invalidArgument
      return { keyMask, keyDigest, isLong, packed, typeMark }

/-- `toString()`. -/
def toString (contents : ℕ → UInt8) (a : KeyAddress) : Except Fault (List UInt8) :=
  Safe58.encode contents a.packed

/-- `KeyAddress(packedString)`. -/
def ofString (contents : ℕ → UInt8) (packedString : List UInt8) : Except Fault KeyAddress := do
  let packed ← Safe58.decode contents packedString false
  ofPacked h packed

/-- `operator==`, and `isMatchingKeyAddress(other)`. -/
def isMatchingKeyAddress (a other : KeyAddress) : Bool := decide (a.packed = other.packed)

/-- `isMatchingKey(key)`. -/
def isMatchingKey (a : KeyAddress) (key : PublicKey) : Except Fault Bool := do
  let other ← ofKey h key 0 a.isLong
  return a.isMatchingKeyAddress other

/-! ### The mark -/

theorem mask_bounds {key : PublicKey} {keyMask : ℕ} (hmask : key.mask = .ok keyMask) :
    1 ≤ keyMask ∧ keyMask ≤ 3 := by
  unfold PublicKey.mask at hmask
  split_ifs at hmask <;> cases hmask <;> decide

/-- What the two marks are in their byte. -/
theorem markByte_marks : ∀ keyMask < 4, ∀ typeMark < 16,
    (markByte keyMask typeMark).toNat &&& 0x0F = typeMark ∧
    ((markByte keyMask typeMark).toNat &&& 0xFF) >>> 4 = keyMask ∧ typeMark &&& 0xF0 = 0 := by
  decide

/-! ### The constructor of a packed form -/

/-- The mask of the key in a packed form. -/
def maskOf (packed : List UInt8) : ℕ :=
  match packed with
  | [] => 0
  | mark :: _ => (mark.toNat &&& 0xFF) >>> 4

/-- The mark of the type in a packed form. -/
def typeMarkOf (packed : List UInt8) : ℕ :=
  match packed with
  | [] => 0
  | mark :: _ => mark.toNat &&& 0x0F

/-- The mark of the length that the constructor takes from the size. -/
def longOf (packed : List UInt8) : Bool := decide (packed.length = 53)

/-- What a packed form is read as. -/
def readAs (packed : List UInt8) : KeyAddress where
  keyMask := maskOf packed
  keyDigest := (packed.drop 1).take (hashsize (longOf packed))
  isLong := longOf packed
  packed := packed
  typeMark := typeMarkOf packed

/-- The control code agrees with the bytes before it, as many as the constructor takes. -/
def CodeAgrees (packed : List UInt8) : Prop :=
  h.crc32 (packed.take (hashsize (longOf packed) + 1)) =
    (packed.drop (hashsize (longOf packed) + 1)).take 4

instance (packed : List UInt8) : Decidable (CodeAgrees h packed) := inferInstanceAs (Decidable (_ = _))

theorem bytesAt_ok {packed : List UInt8} {index count : ℕ} (hin : index + count ≤ packed.length) :
    bytesAt packed index count = .ok ((packed.drop index).take count) := if_pos hin

theorem bytesAt_error {packed : List UInt8} {index count : ℕ} (hout : packed.length < index + count) :
    bytesAt packed index count = .error .outOfBounds := if_neg (Nat.not_le.2 hout)

/-- The constructor, on a form with a first byte. -/
theorem ofPacked_eq {packed : List UInt8} (hne : packed ≠ []) :
    ofPacked h packed =
      if maskOf packed = 0 then .error .invalidArgument
      else if packed.length < hashsize (longOf packed) + 5 then .error .outOfBounds
      else if CodeAgrees h packed then .ok (readAs packed)
      else .error .invalidArgument := by
  cases packed with
  | nil => exact absurd rfl hne
  | cons mark rest =>
      obtain ⟨packed, hpacked⟩ : ∃ packed, packed = mark :: rest := ⟨_, rfl⟩
      have hmask : (mark.toNat &&& 0xFF) >>> 4 = maskOf packed := by rw [hpacked, maskOf]
      have hmark : mark.toNat &&& 0x0F = typeMarkOf packed := by rw [hpacked, typeMarkOf]
      have hlong : decide (packed.length = 53) = longOf packed := rfl
      rw [ofPacked, ← hpacked, hmask, hmark, hlong]
      by_cases hzero : maskOf packed = 0
      · simp [hzero, bind, Except.bind]
      rw [if_neg hzero]
      by_cases hshort : packed.length < hashsize (longOf packed) + 5
      · -- at the latest the control code is not there
        rw [if_pos hshort]
        have hcode : bytesAt packed (hashsize (longOf packed) + 1) 4 = .error .outOfBounds :=
          bytesAt_error (by omega)
        simp only [hzero, if_false, hcode, bind, Except.bind]
        by_cases hdigest : 1 + hashsize (longOf packed) ≤ packed.length
        · simp only [bytesAt_ok hdigest, bytesAt_ok (show 0 + (hashsize (longOf packed) + 1) ≤
            packed.length by omega)]
        · simp only [bytesAt_error (Nat.not_le.1 hdigest)]
      · rw [if_neg hshort]
        have hdigest := bytesAt_ok (show 1 + hashsize (longOf packed) ≤ packed.length by omega)
        have hmarked := bytesAt_ok (show 0 + (hashsize (longOf packed) + 1) ≤ packed.length by omega)
        have hcode := bytesAt_ok (show hashsize (longOf packed) + 1 + 4 ≤ packed.length by omega)
        simp only [hzero, if_false, hdigest, hmarked, hcode, bind, Except.bind, pure, Except.pure,
          List.drop_zero]
        by_cases hagrees : CodeAgrees h packed
        · rw [if_pos hagrees]
          exact if_neg (not_not_intro hagrees)
        · rw [if_neg hagrees]
          exact if_pos hagrees

/-- A packed form of one of the two sizes, with a mask and the control code over its other bytes. -/
def WellFormed (packed : List UInt8) : Prop :=
  (packed.length = 37 ∨ packed.length = 53) ∧ maskOf packed ≠ 0 ∧
    h.crc32 (packed.take (packed.length - 4)) = packed.drop (packed.length - 4)

/-- The constructor reads inside of the source, and takes what is well-formed. -/
structure ReadsRight (packed : List UInt8) : Prop where
  inBounds : ofPacked h packed ≠ .error .outOfBounds
  accepts : (∃ a, ofPacked h packed = .ok a) ↔ WellFormed h packed

/-- Where it does: there is a first byte, and without a mask the form is refused; with one it has one of
    the two sizes, or it is longer and its first 33 bytes do not have the next four as control code. -/
def Readable (packed : List UInt8) : Prop :=
  packed ≠ [] ∧ (maskOf packed = 0 ∨ packed.length = 37 ∨ packed.length = 53 ∨
    37 < packed.length ∧ h.crc32 (packed.take 33) ≠ (packed.drop 33).take 4)

/-- On the two sizes the control code is over the other bytes. -/
theorem codeAgrees_iff {packed : List UInt8} (hsize : packed.length = hashsize (longOf packed) + 5) :
    CodeAgrees h packed ↔
      h.crc32 (packed.take (packed.length - 4)) = packed.drop (packed.length - 4) := by
  have hall : (packed.drop (hashsize (longOf packed) + 1)).take 4 =
      packed.drop (hashsize (longOf packed) + 1) := List.take_of_length_le (by simp; omega)
  have hlength : packed.length - 4 = hashsize (longOf packed) + 1 := by omega
  rw [CodeAgrees, hall, hlength]

theorem longOf_eq_false {packed : List UInt8} (hsize : packed.length ≠ 53) : longOf packed = false :=
  decide_eq_false hsize

theorem longOf_eq_true {packed : List UInt8} (hsize : packed.length = 53) : longOf packed = true :=
  decide_eq_true hsize

/-- The two sizes, as the constructor tells them apart. -/
theorem length_eq_iff (packed : List UInt8) : packed.length = hashsize (longOf packed) + 5 ↔
    packed.length = 37 ∨ packed.length = 53 := by
  by_cases hlong : packed.length = 53
  · rw [longOf_eq_true hlong]
    simp [hashsize, hlong]
  · rw [longOf_eq_false hlong]
    simp [hashsize, hlong]

/-- Which packed forms are read right. -/
theorem readsRight_iff (packed : List UInt8) : ReadsRight h packed ↔ Readable h packed := by
  by_cases hne : packed = []
  · subst hne
    exact ⟨fun hright => absurd rfl hright.inBounds, fun hreadable => absurd rfl hreadable.1⟩
  have hpacked := ofPacked_eq h hne
  by_cases hzero : maskOf packed = 0
  · -- no mask: the form is refused, and it is not well-formed
    rw [if_pos hzero] at hpacked
    refine ⟨fun _ => ⟨hne, .inl hzero⟩, fun _ => ⟨by rw [hpacked]; exact nofun, ?_⟩⟩
    rw [hpacked]
    exact ⟨fun ⟨_, hok⟩ => (nomatch hok), fun hwell => absurd hzero hwell.2.1⟩
  rw [if_neg hzero] at hpacked
  by_cases hsize : packed.length = hashsize (longOf packed) + 5
  · -- one of the two sizes: the code is over all that is before it
    have htwo := (length_eq_iff packed).1 hsize
    rw [if_neg (by omega)] at hpacked
    refine ⟨fun _ => ⟨hne, .inr (htwo.imp_right .inl)⟩, fun _ => ⟨?_, ?_⟩⟩
    · rw [hpacked]
      split_ifs <;> exact nofun
    · rw [hpacked, WellFormed, ← codeAgrees_iff h hsize]
      by_cases hagrees : CodeAgrees h packed
      · simp [hagrees, htwo, hzero]
      · simp [hagrees]
  have hsizes : ¬ (packed.length = 37 ∨ packed.length = 53) := fun htwo =>
    hsize ((length_eq_iff packed).2 htwo)
  have hlong := longOf_eq_false fun h53 => hsizes (.inr h53)
  have hagrees_iff : CodeAgrees h packed ↔ h.crc32 (packed.take 33) = (packed.drop 33).take 4 := by
    rw [CodeAgrees, hlong]
    rfl
  rw [hlong, show hashsize false + 5 = 37 from rfl] at hpacked
  by_cases hshort : packed.length < 37
  · -- too short: a read outside
    rw [if_pos hshort] at hpacked
    refine ⟨fun hright => absurd hpacked hright.inBounds, fun hreadable => ?_⟩
    rcases hreadable.2 with hmask | h37 | h53 | hlonger
    · exact absurd hmask hzero
    · omega
    · omega
    · omega
  · -- too long: only the code of the first bytes can refuse it
    rw [if_neg hshort] at hpacked
    have hwell : ¬ WellFormed h packed := fun hwell => hsizes hwell.1
    by_cases hagrees : CodeAgrees h packed
    · rw [if_pos hagrees] at hpacked
      refine ⟨fun hright => absurd (hright.accepts.1 ⟨_, hpacked⟩) hwell, fun hreadable => ?_⟩
      rcases hreadable.2 with hmask | h37 | h53 | hlonger
      · exact absurd hmask hzero
      · exact absurd (.inl h37) hsizes
      · exact absurd (.inr h53) hsizes
      · exact absurd (hagrees_iff.1 hagrees) hlonger.2
    · rw [if_neg hagrees] at hpacked
      refine ⟨fun _ => ⟨hne, .inr (.inr (.inr ⟨?_, fun heq => hagrees (hagrees_iff.2 heq)⟩))⟩,
        fun _ => ⟨by rw [hpacked]; exact nofun, ?_⟩⟩
      · omega
      · rw [hpacked]
        exact ⟨fun ⟨_, hok⟩ => (nomatch hok), fun hright => absurd hright hwell⟩

/-! ### The text form -/

/-- The packed form that is laid out for a key. -/
def packedOf (key : PublicKey) (keyMask typeMark : ℕ) (long : Bool) : List UInt8 :=
  let marked := markByte keyMask typeMark :: h.digest long key.keyComponents
  marked ++ h.crc32 marked

variable {h} {key : PublicKey} {keyMask typeMark : ℕ} {long : Bool}

theorem packedOf_length : (packedOf h key keyMask typeMark long).length = hashsize long + 5 := by
  simp [packedOf, h.crc32_length]

theorem longOf_packedOf : longOf (packedOf h key keyMask typeMark long) = long := by
  rw [longOf, packedOf_length]
  cases long <;> rfl

/-- What one constructor lays out is what the other reads. -/
theorem ofKey_eq (hmask : key.mask = .ok keyMask) (hmark : typeMark < 16) :
    ofKey h key typeMark long = .ok (readAs (packedOf h key keyMask typeMark long)) := by
  have hbounds := mask_bounds hmask
  obtain ⟨htype, hkey, hsmall⟩ := markByte_marks keyMask (by omega) typeMark hmark
  have hdigest : ((packedOf h key keyMask typeMark long).drop 1).take (hashsize long) =
      h.digest long key.keyComponents := by
    have hlength := h.digest_length long key.keyComponents
    rw [packedOf, List.cons_append, List.drop_one, List.tail_cons, ← hlength, List.take_left]
  have hread : readAs (packedOf h key keyMask typeMark long) =
      { keyMask := keyMask, keyDigest := h.digest long key.keyComponents, isLong := long,
        packed := packedOf h key keyMask typeMark long, typeMark := typeMark } := by
    rw [readAs, longOf_packedOf, hdigest]
    simp only [mk.injEq, true_and]
    exact ⟨hkey, htype⟩
  rw [ofKey, if_neg (not_not_intro hsmall), hmask, hread]
  rfl

theorem maskOf_packedOf (hmask : key.mask = .ok keyMask) (hmark : typeMark < 16) :
    maskOf (packedOf h key keyMask typeMark long) = keyMask := by
  have hbounds := mask_bounds hmask
  exact (markByte_marks keyMask (by omega) typeMark hmark).2.1

/-- The packed form of a key is taken. -/
theorem ofPacked_packedOf (hmask : key.mask = .ok keyMask) (hmark : typeMark < 16) :
    ofPacked h (packedOf h key keyMask typeMark long) =
      .ok (readAs (packedOf h key keyMask typeMark long)) := by
  have hbounds := mask_bounds hmask
  have hagrees : CodeAgrees h (packedOf h key keyMask typeMark long) := by
    have hmarked : (markByte keyMask typeMark :: h.digest long key.keyComponents).length =
        hashsize long + 1 := by simp
    rw [CodeAgrees, longOf_packedOf, packedOf, ← hmarked, List.take_left, List.drop_left,
      List.take_of_length_le (by rw [h.crc32_length])]
  have hne : packedOf h key keyMask typeMark long ≠ [] := nofun
  rw [ofPacked_eq h hne, maskOf_packedOf hmask hmark, if_neg (by omega), packedOf_length,
    longOf_packedOf, if_neg (Nat.lt_irrefl _), if_pos hagrees]

/-- A packed form with a mask survives its text form: it does not begin with a zero byte. -/
theorem ofString_toString (hmask : key.mask = .ok keyMask) (hmark : typeMark < 16)
    (contents contents' : ℕ → UInt8) :
    ((readAs (packedOf h key keyMask typeMark long)).toString contents >>= ofString h contents') =
      .ok (readAs (packedOf h key keyMask typeMark long)) := by
  have hbounds := mask_bounds hmask
  have hkey : maskOf (packedOf h key keyMask typeMark long) = keyMask := maskOf_packedOf hmask hmark
  have hroom : RoomFor (packedOf h key keyMask typeMark long) := by
    refine .inl ?_
    rw [countZeros, packedOf, List.cons_append, List.takeWhile_cons_of_neg]
    · rfl
    · intro hzero
      have hmark0 : markByte keyMask typeMark = 0 := of_decide_eq_true hzero
      have : maskOf (packedOf h key keyMask typeMark long) = 0 := by
        rw [packedOf, List.cons_append, maskOf, hmark0]
        rfl
      omega
  have hback := (decode_encode_iff _).2 hroom false contents contents'
  obtain ⟨text, htext, hdecode⟩ := Universa.Except.bind_eq_ok.1 hback
  have hstring : (readAs (packedOf h key keyMask typeMark long)).toString contents = .ok text := htext
  rw [hstring]
  change (Safe58.decode contents' text false >>= ofPacked h) = _
  rw [hdecode]
  exact ofPacked_packedOf hmask hmark

/-- The address of a key is that of the same key without a type mark just where it has none. -/
theorem isMatchingKey_eq (hmask : key.mask = .ok keyMask) (hmark : typeMark < 16) :
    (readAs (packedOf h key keyMask typeMark long)).isMatchingKey h key =
      .ok (decide (typeMark = 0)) := by
  have hlong : (readAs (packedOf h key keyMask typeMark long)).isLong = long := longOf_packedOf
  rw [isMatchingKey, hlong, ofKey_eq hmask (by decide)]
  change Except.ok (decide (packedOf h key keyMask typeMark long = packedOf h key keyMask 0 long)) = _
  rw [Except.ok.injEq, decide_eq_decide]
  constructor
  · intro heq
    have hbounds := mask_bounds hmask
    have hbyte : markByte keyMask typeMark = markByte keyMask 0 := (List.cons.inj heq).1
    have htype := (markByte_marks keyMask (by omega) typeMark hmark).1
    rw [hbyte, (markByte_marks keyMask (by omega) 0 (by decide)).1] at htype
    exact htype.symm
  · rintro rfl
    rfl

variable (h)

/-- The address of a key that has a mask comes back from its text form, and it matches the key. -/
def Survives (key : PublicKey) (typeMark : Fin 16) (long : Bool) : Prop :=
  (∃ keyMask, key.mask = .ok keyMask) → ∃ a, ofKey h key typeMark long = .ok a ∧
    ∀ contents contents' : ℕ → UInt8, ∃ b, (a.toString contents >>= ofString h contents') = .ok b ∧
      b.isMatchingKeyAddress a = true ∧ b.isLong = a.isLong ∧ b.isMatchingKey h key = .ok true

theorem survives_iff_typeMark (key : PublicKey) (typeMark : Fin 16) (long : Bool) :
    Survives h key typeMark long ↔ ((∃ keyMask, key.mask = .ok keyMask) → typeMark = 0) := by
  refine forall_congr' fun ⟨keyMask, hmask⟩ => ?_
  have hofKey : ofKey h key typeMark long = .ok (readAs (packedOf h key keyMask typeMark long)) :=
    ofKey_eq hmask typeMark.isLt
  have hmatching : (readAs (packedOf h key keyMask typeMark long)).isMatchingKey h key =
      .ok (decide (typeMark.val = 0)) := isMatchingKey_eq hmask typeMark.isLt
  constructor
  · rintro ⟨a, ha, hback⟩
    obtain rfl : readAs (packedOf h key keyMask typeMark long) = a :=
      Except.ok.inj (hofKey.symm.trans ha)
    obtain ⟨b, hb, -, -, hmatch⟩ := hback (fun _ => 0) fun _ => 0
    obtain rfl : readAs (packedOf h key keyMask typeMark long) = b :=
      Except.ok.inj ((ofString_toString hmask typeMark.isLt _ _).symm.trans hb)
    rw [hmatching, Except.ok.injEq, decide_eq_true_eq] at hmatch
    exact Fin.ext hmatch
  · intro hzero
    refine ⟨_, hofKey, fun contents contents' =>
      ⟨_, ofString_toString hmask typeMark.isLt _ _, decide_eq_true rfl, rfl, ?_⟩⟩
    rw [hmatching, hzero]
    rfl

/-- CODE DEFECT (which addresses and packed forms): an address matches its key where it has no type mark;
    it comes back from its text form with every one. The constructor of a packed form is right where the
    form is readable. -/
theorem keyAddress_iff :
    (∀ key typeMark long, Survives h key typeMark long ↔
      ((∃ keyMask, key.mask = .ok keyMask) → typeMark = 0)) ∧
      ∀ packed, ReadsRight h packed ↔ Readable h packed :=
  ⟨survives_iff_typeMark h, readsRight_iff h⟩

/-- A key of 2048 bits, with the modulus `2 ^ 2047 + 1`. -/
def key2048 : PublicKey := ⟨0x10001, 2048, [1, 0, 1] ++ 0x80 :: List.replicate 254 0 ++ [1]⟩

/-- The SHA-3 of `key2048` of 256 bits. -/
def digest2048 : List UInt8 :=
  [33, 107, 91, 24, 11, 234, 117, 49, 161, 5, 228, 56, 141, 43, 232, 67, 156, 98, 111, 70, 75, 45, 13, 146, 123, 6, 50,
    153, 171, 220, 73, 62]

/-- The digests and the CRC where the short address of `key2048` asks them. -/
def hashes2048 : Hashes where
  sha3_256 input := if input = key2048.keyComponents then digest2048 else List.replicate 32 0
  sha3_384 _ := List.replicate 48 0
  crc32 input := if input = 0x10 :: digest2048 then [29, 243, 216, 216] else List.replicate 4 0
  sha3_256_length input := by split <;> rfl
  sha3_384_length _ := rfl
  crc32_length input := by split <;> rfl

theorem keyAddress_iff_key2048 : Survives hashes2048 key2048 0 false ∧
    ReadsRight hashes2048 (0x10 :: digest2048 ++ [29, 243, 216, 216]) :=
  ⟨((keyAddress_iff hashes2048).1 key2048 0 false).mpr fun _ => rfl,
    ((keyAddress_iff hashes2048).2 _).mpr ⟨List.cons_ne_nil _ _, .inr (.inl rfl)⟩⟩

/-- CODE DEFECT: an address with a type mark does not match its own key, and of a form of one byte the
    constructor reads 37. -/
theorem keyAddress_marked : (∀ h : Hashes, ¬ Survives h key2048 1 false) ∧
    (∀ h : Hashes, ofPacked h [0x10] = .error .outOfBounds) ∧ ∀ h : Hashes, ¬ ReadsRight h [0x10] := by
  have hshort (h : Hashes) : ofPacked h [0x10] = .error .outOfBounds := rfl
  refine ⟨fun h hsurvives => ?_, hshort, fun h hright => hright.inBounds (hshort h)⟩
  have hzero := (survives_iff_typeMark h key2048 1 false).1 hsurvives ⟨1, rfl⟩
  exact absurd hzero (by decide)

end KeyAddress

end Universa.Crypto
