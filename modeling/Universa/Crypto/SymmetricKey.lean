import Mathlib.Algebra.Group.Nat.Defs

/-! `SymmetricKey` and its counter mode, `CTRTransformerAES`. The generator keeps a block of the key stream and makes
    the next one when it is used up; `etaDecrypt` reads its input once, with the last bytes it has read in a ring,
    as only what follows tells the text from its authentication code.

    Sizes are counted in an `int`, which holds the size of an input of less than `2 ^ 31` bytes. -/

namespace Universa.Crypto

/-- `SymmetricKey`, of a size that `aes_setup` takes. With a key of another size it fails, which the code does not
    look at. -/
structure SymmetricKey where
  key : List UInt8
  key_size : key.length = 16 ∨ key.length = 24 ∨ key.length = 32

/-- `aes_ecb_encrypt` of a block and the HMAC with SHA-256, with the lengths of their outputs. -/
structure Ciphers where
  aes : SymmetricKey → List UInt8 → List UInt8
  hmac : SymmetricKey → List UInt8 → List UInt8
  aes_length : ∀ key block, (aes key block).length = 16
  hmac_length : ∀ key input, (hmac key input).length = 32

/-- A size as it is converted to an `int`. -/
def toInt32 (n : ℕ) : ℤ := (n : ℤ).bmod (2 ^ 32)

theorem toInt32_eq {n : ℕ} (h : n < 2 ^ 31) : toInt32 n = n :=
  Int.bmod_eq_of_le (by omega) (by omega)

/-- `CTRTransformerAES`; a text of `2 ^ 31` blocks, which the counter cannot count, is out of reach. -/
structure CTRTransformerAES where
  key : SymmetricKey
  counter : ℕ
  index : ℕ
  source : List UInt8
  nonce : List UInt8

/-- `counterBytes`. -/
def counterBytes (counter : ℕ) : List UInt8 :=
  [UInt8.ofNat (counter / 2 ^ 24), UInt8.ofNat (counter / 2 ^ 16), UInt8.ofNat (counter / 2 ^ 8),
    UInt8.ofNat counter]

/-- `applyXor(source, offset, mask)`. -/
def applyXor (source : List UInt8) (offset : ℕ) (mask : List UInt8) : List UInt8 :=
  source.take offset ++ List.zipWith (· ^^^ ·) (source.drop offset) mask ++ source.drop (offset + mask.length)

/-- The block of the key stream that a counter makes of a nonce. -/
def keyBlock (c : Ciphers) (key : SymmetricKey) (nonce : List UInt8) (counter : ℕ) : List UInt8 :=
  c.aes key (applyXor nonce 12 (counterBytes counter))

namespace CTRTransformerAES

/-- `prepareBlock()`. -/
def prepareBlock (c : Ciphers) (t : CTRTransformerAES) : CTRTransformerAES :=
  { t with source := keyBlock c t.key t.nonce t.counter, counter := t.counter + 1, index := 0 }

/-- `CTRTransformerAES(key, iv)`. -/
def new (c : Ciphers) (key : SymmetricKey) (iv : List UInt8) : CTRTransformerAES :=
  prepareBlock c ⟨key, 0, 0, List.replicate 16 0, iv⟩

/-- `nextByte()`. -/
def nextByte (c : Ciphers) (t : CTRTransformerAES) : UInt8 × CTRTransformerAES :=
  let t := if 16 ≤ t.index then t.prepareBlock c else t
  (t.source.getD t.index 0, { t with index := t.index + 1 })

/-- `transformByte(source)`. -/
def transformByte (c : Ciphers) (t : CTRTransformerAES) (source : UInt8) : UInt8 × CTRTransformerAES :=
  let next := t.nextByte c
  (source ^^^ next.1, next.2)

/-- `transformByte` of one byte after another. -/
def transform (c : Ciphers) : CTRTransformerAES → List UInt8 → List UInt8
  | _, [] => []
  | t, b :: bs => (t.transformByte c b).1 :: transform c (t.transformByte c b).2 bs

end CTRTransformerAES

open CTRTransformerAES

/-! ### The key stream -/

/-- Byte `n` of the key stream. -/
def keyStream (c : Ciphers) (key : SymmetricKey) (nonce : List UInt8) (n : ℕ) : UInt8 :=
  (keyBlock c key nonce (n / 16)).getD (n % 16) 0

/-- The text under the key stream from byte `n` on. -/
def masked (c : Ciphers) (key : SymmetricKey) (nonce : List UInt8) (n : ℕ) (text : List UInt8) : List UInt8 :=
  text.mapIdx fun i b => b ^^^ keyStream c key nonce (n + i)

/-- The generator has given `n` bytes: `16 * block + index` of them, of the block that it holds. -/
structure Given (c : Ciphers) (key : SymmetricKey) (nonce : List UInt8) (n : ℕ) (t : CTRTransformerAES) : Prop where
  key_eq : t.key = key
  nonce_eq : t.nonce = nonce
  index_le : t.index ≤ 16
  block : ∃ k, t.counter = k + 1 ∧ t.source = keyBlock c key nonce k ∧ n = 16 * k + t.index

variable {c : Ciphers} {key : SymmetricKey} {nonce iv : List UInt8} {n : ℕ} {t : CTRTransformerAES}

theorem given_new : Given c key iv 0 (new c key iv) := ⟨rfl, rfl, Nat.zero_le _, 0, rfl, rfl, rfl⟩

/-- The next byte is the next of the key stream. -/
theorem Given.next (h : Given c key nonce n t) :
    (t.nextByte c).1 = keyStream c key nonce n ∧ Given c key nonce (n + 1) (t.nextByte c).2 := by
  obtain ⟨hkey, hnonce, hle, k, hcounter, hsource, hn⟩ := h
  by_cases hfull : 16 ≤ t.index
  · have hnext : t.nextByte c =
        ((t.prepareBlock c).source.getD 0 0, { t.prepareBlock c with index := 1 }) := by
      rw [nextByte, if_pos hfull]
      rfl
    have hblock : (t.prepareBlock c).source = keyBlock c key nonce (k + 1) := by
      show keyBlock c t.key t.nonce t.counter = _
      rw [hkey, hnonce, hcounter]
    rw [hnext]
    constructor
    · rw [keyStream, hblock, show n / 16 = k + 1 by omega, show n % 16 = 0 by omega]
    · refine ⟨hkey, hnonce, Nat.le_add_left 1 15, k + 1, congrArg (· + 1) hcounter, hblock, ?_⟩
      show n + 1 = 16 * (k + 1) + 1
      omega
  · have hnext : t.nextByte c = (t.source.getD t.index 0, { t with index := t.index + 1 }) := by
      rw [nextByte, if_neg hfull]
    rw [hnext]
    constructor
    · rw [keyStream, hsource, show n / 16 = k by omega, show n % 16 = t.index by omega]
    · refine ⟨hkey, hnonce, ?_, k, hcounter, hsource, ?_⟩
      · show t.index + 1 ≤ 16
        omega
      · show n + 1 = 16 * k + (t.index + 1)
        omega

/-- What the generator does to a text is to put it under the key stream. -/
theorem Given.transform (h : Given c key nonce n t) (text : List UInt8) :
    t.transform c text = masked c key nonce n text := by
  induction text generalizing n t with
  | nil => rfl
  | cons b bs ih =>
      obtain ⟨hbyte, hafter⟩ := h.next
      rw [CTRTransformerAES.transform, masked, List.mapIdx_cons]
      refine congr (congrArg List.cons ?_) ((ih hafter).trans ?_)
      · show b ^^^ (t.nextByte c).1 = _
        rw [hbyte]
        rfl
      · rw [masked]
        congr
        funext i b
        rw [Nat.add_assoc, Nat.add_comm 1 i]

theorem masked_masked (text : List UInt8) : masked c key nonce n (masked c key nonce n text) = text := by
  rw [masked, masked, List.mapIdx_mapIdx, List.mapIdx_eq_iff]
  intro i
  cases text[i]? with
  | none => rfl
  | some b =>
      refine congrArg some ?_
      show b = b ^^^ keyStream c key nonce (n + i) ^^^ keyStream c key nonce (n + i)
      rw [UInt8.xor_assoc, UInt8.xor_self, UInt8.xor_zero]

@[simp] theorem masked_length (text : List UInt8) : (masked c key nonce n text).length = text.length :=
  List.length_mapIdx

/-! ### Encryption -/

/-- `encrypt(data)`, with the random `iv`. -/
def encrypt (c : Ciphers) (key : SymmetricKey) (iv data : List UInt8) : List UInt8 :=
  iv ++ (new c key iv).transform c data

/-- What a loop reads from an index on that counts the bytes that are left in an `int`: nothing where that is
    negative. -/
def readFrom (data : List UInt8) (start : ℕ) : List UInt8 :=
  (data.drop start).take (toInt32 (data.length - start)).toNat

/-- `decrypt(data)`. -/
def decrypt (c : Ciphers) (key : SymmetricKey) (data : List UInt8) : Except String (List UInt8) :=
  if data.length < 16 then .error "SymmetricKey::decrypt error: input data too small"
  else .ok ((new c key (data.take 16)).transform c (readFrom data 16))

/-- `etaEncrypt(data)`, with the random `iv`. -/
def etaEncrypt (c : Ciphers) (key : SymmetricKey) (iv data : List UInt8) : List UInt8 :=
  let encrypted := (new c key iv).transform c data
  iv ++ encrypted ++ c.hmac key encrypted

/-- The loop of `etaDecrypt` over the bytes that are left: the ring, what the HMAC was given, and the output. -/
def ringLoop (c : Ciphers) :
    List UInt8 → List UInt8 → List UInt8 → CTRTransformerAES → List UInt8 → List UInt8 × List UInt8 × List UInt8
  | [], ring, hs, _, output => (ring, hs, output)
  | nextByte :: left, ring, hs, t, output =>
      match ring ++ [nextByte] with
      | [] => ringLoop c left [] hs t output
      | encrypted :: ring =>
          ringLoop c left ring (hs ++ [encrypted]) (t.transformByte c encrypted).2
            (output ++ [(t.transformByte c encrypted).1])

/-- `etaDecrypt(data)`. -/
def etaDecrypt (c : Ciphers) (key : SymmetricKey) (data : List UInt8) : Except String (List UInt8) :=
  if data.length < 16 + 32 then .error "input data size too small"
  else
    let read := ringLoop c (readFrom data 48) ((data.drop 16).take 32) [] (new c key (data.take 16)) []
    if read.1.length ≠ 32 then .error "data corrupted: bad hmac record size"
    else if c.hmac key read.2.1 ≠ read.1 then .error "HMAC authentication failed, data corrupted"
    else .ok read.2.2

/-! ### What is accepted -/

variable {data message : List UInt8}

/-- Below `2 ^ 31` bytes all is read. -/
theorem readFrom_eq {start : ℕ} (h : data.length < 2 ^ 31) : readFrom data start = data.drop start := by
  rw [readFrom, toInt32_eq (Nat.lt_of_le_of_lt (Nat.sub_le _ _) h), Int.toNat_natCast, ← List.length_drop,
    List.take_length]

/-- The last bytes stay in the ring, and all before them have been through it. -/
theorem ringLoop_eq (left ring hs : List UInt8) (t : CTRTransformerAES) (output : List UInt8) :
    ringLoop c left ring hs t output =
      ((ring ++ left).drop left.length, hs ++ (ring ++ left).take left.length,
        output ++ t.transform c ((ring ++ left).take left.length)) := by
  induction left generalizing ring hs t output with
  | nil => simp [ringLoop, transform]
  | cons nextByte left ih =>
      rw [ringLoop]
      cases hring : ring ++ [nextByte] with
      | nil => exact absurd hring (List.append_ne_nil_of_right_ne_nil _ (List.cons_ne_nil _ _))
      | cons encrypted rest =>
          have hall : ring ++ nextByte :: left = encrypted :: (rest ++ left) := by
            rw [← List.cons_append, ← hring, List.append_assoc]
            rfl
          simp only [ih, hall, List.length_cons, List.drop_succ_cons, List.take_succ_cons, List.append_assoc,
            List.singleton_append, transform]

/-- `etaDecrypt` splits its input into the nonce, the text and the code. -/
theorem etaDecrypt_append {iv body code : List UInt8} (hiv : iv.length = 16) (hcode : code.length = 32)
    (hsize : (iv ++ body ++ code).length < 2 ^ 31) :
    etaDecrypt c key (iv ++ body ++ code) =
      if c.hmac key body ≠ code then .error "HMAC authentication failed, data corrupted"
      else .ok (masked c key iv 0 body) := by
  have hlong : ¬ (iv ++ body ++ code).length < 16 + 32 := by
    rw [List.length_append, List.length_append]
    omega
  have hdrop : (iv ++ body ++ code).drop 16 = body ++ code := by
    rw [List.append_assoc, ← hiv]
    exact List.drop_left
  have htake : (iv ++ body ++ code).take 16 = iv := by
    rw [List.append_assoc, ← hiv]
    exact List.take_left
  have hrest : (iv ++ body ++ code).drop 48 = (body ++ code).drop 32 := by
    rw [← hdrop, List.drop_drop]
  have hleft : ((body ++ code).drop 32).length = body.length := by
    rw [List.length_drop, List.length_append, hcode, Nat.add_sub_cancel]
  rw [etaDecrypt, if_neg hlong]
  simp only [readFrom_eq hsize, ringLoop_eq, hdrop, htake, hrest, List.take_append_drop, hleft, List.take_left, List.drop_left,
    List.nil_append, hcode, ne_eq, not_true_eq_false, if_false, given_new.transform]

/-- An input that is long enough has the three parts. -/
theorem exists_parts (h : ¬ data.length < 16 + 32) :
    ∃ iv body code : List UInt8, iv.length = 16 ∧ code.length = 32 ∧ data = iv ++ body ++ code := by
  refine ⟨data.take 16, (data.drop 16).take (data.length - 48), (data.drop 16).drop (data.length - 48), ?_, ?_, ?_⟩
  · exact List.length_take_of_le (by omega)
  · rw [List.length_drop, List.length_drop]
    omega
  · rw [List.append_assoc, List.take_append_drop, List.take_append_drop]

/-- EXACT (`etaDecrypt`): of the inputs whose size is an `int`, it answers a message for what `etaEncrypt` makes of it
    with some nonce, and for nothing else. -/
theorem etaDecrypt_eq_ok_iff (hsize : data.length < 2 ^ 31) :
    etaDecrypt c key data = .ok message ↔ ∃ iv : List UInt8, iv.length = 16 ∧ data = etaEncrypt c key iv message := by
  constructor
  · intro h
    have hlong : ¬ data.length < 16 + 32 := by
      intro hshort
      rw [etaDecrypt, if_pos hshort] at h
      cases h
    obtain ⟨iv, body, code, hiv, hcode, rfl⟩ := exists_parts hlong
    rw [etaDecrypt_append hiv hcode hsize] at h
    by_cases hmac : c.hmac key body = code
    · rw [if_neg (not_not_intro hmac)] at h
      cases h
      refine ⟨iv, hiv, ?_⟩
      rw [etaEncrypt, given_new.transform, masked_masked, hmac]
    · rw [if_pos hmac] at h
      cases h
  · rintro ⟨iv, hiv, rfl⟩
    rw [etaEncrypt, etaDecrypt_append hiv (c.hmac_length _ _) hsize, if_neg (not_not_intro rfl),
      given_new.transform, masked_masked]

/-- `aes_ecb_encrypt` and the HMAC where the example asks them. -/
def zeroCiphers : Ciphers where
  aes key block :=
    if key.key = List.replicate 16 0 ∧ block = List.replicate 16 0 then
      [102, 233, 75, 212, 239, 138, 44, 59, 136, 76, 250, 89, 202, 52, 43, 46]
    else List.replicate 16 0
  hmac key input :=
    if key.key = List.replicate 16 0 ∧ input = [103, 235, 72] then
      [145, 135, 170, 218, 248, 64, 249, 193, 62, 12, 73, 189, 104, 16, 229, 7, 65, 32, 221, 214, 117, 46, 215, 242, 44,
        213, 34, 88, 169, 236, 93, 159]
    else List.replicate 32 0
  aes_length key block := by split <;> rfl
  hmac_length key input := by split <;> rfl

/-- A key of zeros. -/
def zeroKey : SymmetricKey := ⟨List.replicate 16 0, .inl rfl⟩

theorem etaDecrypt_zeroKey :
    etaDecrypt zeroCiphers zeroKey (List.replicate 16 0 ++ [103, 235, 72] ++ zeroCiphers.hmac zeroKey [103, 235, 72]) =
      .ok [1, 2, 3] :=
  (etaDecrypt_eq_ok_iff (by decide)).mpr ⟨List.replicate 16 0, rfl, by decide⟩

/-- EXACT (`decrypt`): of the inputs whose size is an `int`, it answers a message for what `encrypt` makes of it, which
    is any input of the length of a nonce or more. -/
theorem decrypt_eq_ok_iff (hsize : data.length < 2 ^ 31) :
    decrypt c key data = .ok message ↔ ∃ iv : List UInt8, iv.length = 16 ∧ data = encrypt c key iv message := by
  constructor
  · intro h
    by_cases hshort : data.length < 16
    · rw [decrypt, if_pos hshort] at h
      cases h
    · rw [decrypt, if_neg hshort, readFrom_eq hsize] at h
      cases h
      refine ⟨data.take 16, List.length_take_of_le (by omega), ?_⟩
      rw [encrypt, given_new.transform, given_new.transform, masked_masked, List.take_append_drop]
  · rintro ⟨iv, hiv, rfl⟩
    have hlong : ¬ (encrypt c key iv message).length < 16 := by
      rw [encrypt, List.length_append]
      omega
    have htake : (encrypt c key iv message).take 16 = iv := by
      rw [encrypt, ← hiv]
      exact List.take_left
    have hdrop : (encrypt c key iv message).drop 16 = (new c key iv).transform c message := by
      rw [encrypt, ← hiv]
      exact List.drop_left
    rw [decrypt, if_neg hlong, readFrom_eq hsize, htake, hdrop, given_new.transform, given_new.transform, masked_masked]

/-- NOT AUTHENTICATED (the nonce): with other first bytes an input is accepted all the same, as a text in which each
    byte has changed by the difference of the two key streams. -/
theorem etaDecrypt_other_nonce {iv iv' : List UInt8} (hiv : iv.length = 16) (hiv' : iv'.length = 16)
    (hsize : message.length + 48 < 2 ^ 31) :
    etaDecrypt c key (iv' ++ (etaEncrypt c key iv message).drop 16) =
      .ok (masked c key iv' 0 (masked c key iv 0 message)) := by
  have hdrop : (etaEncrypt c key iv message).drop 16 =
      masked c key iv 0 message ++ c.hmac key (masked c key iv 0 message) := by
    rw [etaEncrypt, given_new.transform, List.append_assoc, ← hiv]
    exact List.drop_left
  have hlength : (iv' ++ masked c key iv 0 message ++ c.hmac key (masked c key iv 0 message)).length < 2 ^ 31 := by
    simp only [List.length_append, masked_length, c.hmac_length, hiv']
    omega
  rw [hdrop, ← List.append_assoc, etaDecrypt_append hiv' (c.hmac_length _ _) hlength, if_neg (not_not_intro rfl)]

end Universa.Crypto
