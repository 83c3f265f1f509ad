import Universa.Lib.Comp
import Universa.Lib.Radix

/-! `Safe58`: the text form of bytes. Both directions are long divisions of the input in place, which write
    backwards into a buffer that is not initialised; what it holds at first is a parameter.

    Of a vector that is divided only the part from `startAt` on is kept, for the loops read nothing before. The
    buffers of the source are arrays of variable length on the stack; that they fit there is assumed. -/

namespace Universa.Crypto.Safe58

/-- `std::invalid_argument`, or an index outside of the buffer. -/
inductive Fault where
  | invalidArgument
  | outOfBounds
  deriving DecidableEq

/-- `ALPHABET`. -/
def ALPHABET : List UInt8 :=
  ['1', '2', '3', '4', '5', '6', '7', '8', '9', 'A', 'B', 'C', 'D', 'E', 'F', 'G', 'H', 'J', 'K', 'L',
   'M', 'N', 'P', 'Q', 'R', 'S', 'T', 'U', 'V', 'W', 'X', 'Y', 'Z', 'a', 'b', 'c', 'd', 'e', 'f', 'g',
   'h', 'i', 'j', 'k', 'm', 'n', 'o', 'p', 'q', 'r', 's', 't', 'u', 'v', 'w', 'x', 'y', 'z'].map Char.toUInt8

/-- `ALPHABET[i]`. -/
def alphabet (i : ℕ) : UInt8 := ALPHABET.getD i 0

/-- `INDEXES[c]`, nothing for -1. A negative `char` has no index. -/
def digit58 (c : UInt8) : Option UInt8 :=
  if c < 128 then (ALPHABET.idxOf? c).map UInt8.ofNat else none

/-- `divmod58` and `divmod256`: the quotient in place of the number, and the remainder. -/
def divmod (base divisor : ℕ) : ℕ → List UInt8 → List UInt8 × ℕ
  | remainder, [] => ([], remainder)
  | remainder, digit :: number =>
      let temp := remainder * base + digit.toNat
      let rest := divmod base divisor (temp % divisor) number
      (UInt8.ofNat (temp / divisor) :: rest.1, rest.2)

/-- `temp[j] = c`. -/
def write (temp : List UInt8) (j : ℕ) (c : UInt8) : Except Fault (List UInt8) :=
  if j < temp.length then .ok (temp.set j c) else .error .outOfBounds

/-- The loop of divisions: `temp[--j]` takes the character of each remainder. -/
def divisions (base divisor : ℕ) (char : ℕ → UInt8) :
    ℕ → List UInt8 → List UInt8 → Except Fault (ℕ × List UInt8)
  | j, [], temp => .ok (j, temp)
  | 0, _ :: _, _ => .error .outOfBounds
  | j + 1, digit :: number, temp => do
      let divided := divmod base divisor 0 (digit :: number)
      let number := if divided.1.head? = some 0 then divided.1.tail else divided.1
      let temp ← write temp j (char divided.2)
      divisions base divisor char j number temp

/-- `while ((j < tempLength) && (temp[j] == c)) ++j`. -/
def skip (c : UInt8) (temp : List UInt8) (j : ℕ) : ℕ := j + ((temp.drop j).takeWhile (· = c)).length

/-- `while (--zeroCount >= 0) temp[--j] = c`. -/
def prepend (c : UInt8) : ℕ → ℕ → List UInt8 → Except Fault (ℕ × List UInt8)
  | 0, j, temp => .ok (j, temp)
  | _ + 1, 0, _ => .error .outOfBounds
  | zeroCount + 1, j + 1, temp => do
      let temp ← write temp j c
      prepend c zeroCount j temp

/-- `copyOfRange(source, start, stop)`. -/
def copyOfRange (source : List UInt8) (start stop : ℕ) : Except Fault (List UInt8) :=
  if start ≤ stop ∧ stop ≤ source.length then .ok ((source.drop start).take (stop - start))
  else .error .outOfBounds

/-- How many zeros lead. -/
def countZeros (input : List UInt8) : ℕ := (input.takeWhile (· = 0)).length

/-- `unsigned char temp[tempLength]`. -/
def uninitialised (contents : ℕ → UInt8) (tempLength : ℕ) : List UInt8 :=
  (List.range tempLength).map contents

/-- `encode(inputData)`. -/
def encode (contents : ℕ → UInt8) (inputData : List UInt8) : Except Fault (List UInt8) :=
  if inputData = [] then .ok []
  else do
    let zeroCount := countZeros inputData
    let tempLength := inputData.length * 2
    let (j, temp) ← divisions 256 58 alphabet tempLength (inputData.drop zeroCount)
      (uninitialised contents tempLength)
    let j := skip (alphabet 0) temp j
    let (j, temp) ← prepend (alphabet 0) zeroCount j temp
    copyOfRange temp j tempLength

/-- The digits of a text, where each character has one. -/
def digits58 : List UInt8 → Option (List UInt8)
  | [] => some []
  | c :: input => do
      let digit ← digit58 c
      let digits ← digits58 input
      return digit :: digits

/-- `doDecode(input, output)`. -/
def doDecode (contents : ℕ → UInt8) (input : List UInt8) : Except Fault (List UInt8) :=
  if input = [] then .ok []
  else match digits58 input with
    | none => .error .invalidArgument
    | some input58 => do
        let zeroCount := countZeros input58
        let tempLength := input.length
        let (j, temp) ← divisions 58 256 UInt8.ofNat tempLength (input58.drop zeroCount)
          (uninitialised contents tempLength)
        let j := skip 0 temp j
        if j < zeroCount then .error .outOfBounds
        else copyOfRange temp (j - zeroCount) tempLength

/-- `std::replace`. -/
def replace (old new : Char) (input : List UInt8) : List UInt8 :=
  input.map fun c => if c = old.toUInt8 then new.toUInt8 else c

/-- The letters and digits that look alike become those of the alphabet. -/
def lenient (input : List UInt8) : List UInt8 :=
  let inputCopy := replace 'I' '1' input
  let inputCopy := replace '!' '1' inputCopy
  let inputCopy := replace '|' '1' inputCopy
  let inputCopy := replace 'l' '1' inputCopy
  let inputCopy := replace 'O' 'o' inputCopy
  replace '0' 'o' inputCopy

/-- `decode(input, strict)`. -/
def decode (contents : ℕ → UInt8) (input : List UInt8) (strict : Bool) : Except Fault (List UInt8) :=
  doDecode contents (if strict then input else lenient input)

/-! ### The alphabet -/

/-- A text over the alphabet. -/
def OverAlphabet (s : List UInt8) : Prop := ∀ c ∈ s, c ∈ ALPHABET

theorem alphabet_toNat : ALPHABET.map UInt8.toNat =
    [49, 50, 51, 52, 53, 54, 55, 56, 57, 65, 66, 67, 68, 69, 70, 71, 72, 74, 75, 76, 77, 78, 80, 81, 82, 83, 84, 85,
      86, 87, 88, 89, 90, 97, 98, 99, 100, 101, 102, 103, 104, 105, 106, 107, 109, 110, 111, 112, 113, 114, 115, 116,
      117, 118, 119, 120, 121, 122] := by
  decide +kernel

theorem alphabet_nodup : ALPHABET.Nodup := by
  have hsorted : (ALPHABET.map UInt8.toNat).Pairwise (· < ·) := by
    rw [alphabet_toNat, ← List.isChain_iff_pairwise]
    decide +kernel
  exact List.Nodup.of_map UInt8.toNat (hsorted.imp Nat.ne_of_lt)

theorem alphabet_small {c : UInt8} (h : c ∈ ALPHABET) : c < 128 := by
  have hall : ∀ n ∈ ALPHABET.map UInt8.toNat, n < 128 := by
    rw [alphabet_toNat]
    decide +kernel
  exact UInt8.lt_iff_toNat_lt.mpr (hall _ (List.mem_map_of_mem h))

theorem alphabet_eq {i : ℕ} (h : i < ALPHABET.length) : alphabet i = ALPHABET[i] := by
  rw [alphabet, List.getD_eq_getElem?_getD, List.getElem?_eq_getElem h]
  rfl

theorem digit58_alphabet : ∀ i < 58, digit58 (alphabet i) = some (UInt8.ofNat i) := by
  intro i hi
  have hlength : i < ALPHABET.length := hi
  have hfirst : ALPHABET.idxOf? ALPHABET[i] = some i := by
    refine List.idxOf?_eq_some_iff.mpr ⟨hlength, rfl, fun j hj hij => ?_⟩
    exact Nat.ne_of_lt hj (alphabet_nodup.getElem_inj_iff.mp hij)
  rw [alphabet_eq hlength, digit58, if_pos (alphabet_small (List.getElem_mem hlength)), hfirst]
  rfl

theorem alphabet_mem : ∀ i < 58, alphabet i ∈ ALPHABET := by
  intro i hi
  have hlength : i < ALPHABET.length := hi
  exact alphabet_eq hlength ▸ List.getElem_mem hlength

theorem alphabet_idxOf : ∀ c ∈ ALPHABET, ALPHABET.idxOf c < 58 ∧ alphabet (ALPHABET.idxOf c) = c := by
  intro c hc
  have hlength : ALPHABET.idxOf c < ALPHABET.length := List.idxOf_lt_length_of_mem hc
  exact ⟨hlength, (alphabet_eq hlength).trans (List.getElem_idxOf hlength)⟩

theorem alphabet_eq_zero_iff : ∀ i < 58, alphabet i = alphabet 0 ↔ i = 0 := by
  intro i hi
  have hlength : i < ALPHABET.length := hi
  have hzero : 0 < ALPHABET.length := Nat.zero_lt_of_lt hlength
  rw [alphabet_eq hlength, alphabet_eq hzero, alphabet_nodup.getElem_inj_iff]

theorem lenient_alphabet : ∀ c ∈ ALPHABET, lenient [c] = [c] := by
  intro c hc
  have hother : ∀ old ∈ ['I', '!', '|', 'l', 'O', '0'], c ≠ old.toUInt8 := by
    have hcodes : ['I', '!', '|', 'l', 'O', '0'].map (fun old => old.toUInt8.toNat) =
        [73, 33, 124, 108, 79, 48] := rfl
    have hapart : ∀ n ∈ [73, 33, 124, 108, 79, 48], n ∉ ALPHABET.map UInt8.toNat := by
      rw [alphabet_toNat]
      decide +kernel
    rintro old hold rfl
    exact hapart _ (hcodes ▸ List.mem_map_of_mem hold) (List.mem_map_of_mem hc)
  simp only [List.forall_mem_cons] at hother
  obtain ⟨hI, hmark, hbar, hl, hO, hzero, -⟩ := hother
  simp only [lenient, replace, List.map_cons, List.map_nil, if_neg hI, if_neg hmark, if_neg hbar, if_neg hl,
    if_neg hO, if_neg hzero]

/-- The digits of a text over the alphabet. -/
theorem digits58_map_alphabet {ds : List ℕ} (h : ∀ d ∈ ds, d < 58) :
    digits58 (ds.map alphabet) = some (ds.map UInt8.ofNat) := by
  induction ds with
  | nil => rfl
  | cons d ds ih =>
      obtain ⟨hd, hds⟩ := List.forall_mem_cons.1 h
      rw [List.map_cons, digits58, digit58_alphabet d hd, ih hds]
      rfl

/-- The digits of a text over the alphabet, and the text of these. -/
theorem map_idxOf {s : List UInt8} (h : OverAlphabet s) :
    (∀ d ∈ s.map ALPHABET.idxOf, d < 58) ∧ (s.map ALPHABET.idxOf).map alphabet = s := by
  constructor
  · intro d hd
    obtain ⟨c, hc, rfl⟩ := List.mem_map.1 hd
    exact (alphabet_idxOf c (h c hc)).1
  · rw [List.map_map]
    exact (List.map_congr_left fun c hc => (alphabet_idxOf c (h c hc)).2).trans (List.map_id' s)

/-- The text of digits is over the alphabet. -/
theorem overAlphabet_map {ds : List ℕ} (h : ∀ d ∈ ds, d < 58) : OverAlphabet (ds.map alphabet) := by
  intro c hc
  obtain ⟨d, hd, rfl⟩ := List.mem_map.1 hc
  exact alphabet_mem d (h d hd)

/-- A character outside of the alphabet has no digit. -/
theorem digit58_eq_none {c : UInt8} (h : c ∉ ALPHABET) : digit58 c = none := by
  rw [digit58, List.idxOf?_eq_none_iff.2 h]
  split_ifs <;> rfl

theorem digits58_eq_none {s : List UInt8} (h : ¬ OverAlphabet s) : digits58 s = none := by
  induction s with
  | nil => exact absurd nofun h
  | cons c s ih =>
      rw [digits58]
      by_cases hc : c ∈ ALPHABET
      · have hs : ¬ OverAlphabet s := fun hs => h (List.forall_mem_cons.2 ⟨hc, hs⟩)
        rw [ih hs]
        cases digit58 c <;> rfl
      · rw [digit58_eq_none hc]
        rfl

/-- A text over the alphabet has no letter that is taken for another. -/
theorem lenient_eq {s : List UInt8} (h : OverAlphabet s) : lenient s = s := by
  induction s with
  | nil => rfl
  | cons c s ih =>
      obtain ⟨hc, hs⟩ := List.forall_mem_cons.1 h
      have hhead := lenient_alphabet c hc
      have htail := ih hs
      simp only [lenient, replace, List.map_cons, List.map_nil, List.cons.injEq, and_true] at hhead htail ⊢
      exact ⟨hhead, htail⟩

/-! ### The buffer -/

theorem write_eq {temp : List UInt8} {j : ℕ} (h : j < temp.length) (c : UInt8) :
    write temp j c = .ok (temp.set j c) := if_pos h

/-- A character in front of those that are there. -/
theorem set_eq {temp : List UInt8} {j : ℕ} (h : j < temp.length) (c : UInt8) :
    temp.set j c = temp.take j ++ c :: temp.drop (j + 1) :=
  List.set_eq_take_append_cons_drop .. |>.trans (if_pos h)

theorem take_set {temp : List UInt8} {i j : ℕ} (h : i ≤ j) (c : UInt8) :
    (temp.set j c).take i = temp.take i := List.take_set_of_le h

theorem drop_set {temp : List UInt8} {j : ℕ} (h : j < temp.length) (c : UInt8) :
    (temp.set j c).drop j = c :: temp.drop (j + 1) := by
  rw [set_eq h, List.drop_append_of_le_length (by simp; omega)]
  simp

/-! ### The divisions -/

/-- The division on bytes is that on numbers. -/
theorem divmod_eq {base divisor : ℕ} (hbase : base ≤ 256) (hdivisor : 0 < divisor) {remainder : ℕ}
    (hr : remainder < divisor) {number : List UInt8} (hnumber : ∀ d ∈ number, d.toNat < base) :
    (divmod base divisor remainder number).1.map UInt8.toNat =
        (Radix.divmod base divisor remainder (number.map UInt8.toNat)).1 ∧
      (divmod base divisor remainder number).2 =
        (Radix.divmod base divisor remainder (number.map UInt8.toNat)).2 := by
  induction number generalizing remainder with
  | nil => exact ⟨rfl, rfl⟩
  | cons d number ih =>
      obtain ⟨hd, hnumber⟩ := List.forall_mem_cons.1 hnumber
      obtain ⟨hrow, hmod⟩ := ih (Nat.mod_lt _ hdivisor) hnumber
      have hlt : (remainder * base + d.toNat) / divisor < base :=
        Radix.divmod_lt hdivisor hr (show ∀ x ∈ [d.toNat], x < base by simpa using hd) _
          List.mem_cons_self
      refine ⟨?_, hmod⟩
      rw [divmod, List.map_cons, List.map_cons, Radix.divmod, hrow,
        UInt8.toNat_ofNat_of_lt' (hlt.trans_le hbase)]

/-- The row that goes on is the quotient. -/
theorem quotient_eq (number : List UInt8) :
    (if number.head? = some 0 then number.tail else number).map UInt8.toNat =
      Radix.dropZero (number.map UInt8.toNat) := by
  cases number with
  | nil => rfl
  | cons d number =>
      rw [List.head?_cons, List.map_cons]
      by_cases hd : d = 0
      · rw [if_pos (by rw [hd]), hd]
        rfl
      · have hd' : d.toNat ≠ 0 := fun h => hd (UInt8.toNat_inj.1 h)
        rw [if_neg (by simpa using hd), List.map_cons]
        unfold Radix.dropZero
        split
        · rename_i heq
          exact absurd (List.cons.inj heq).1 hd'
        · rfl

/-- The loop of divisions writes the remainders in front of what is there. -/
theorem divisions_eq {base divisor : ℕ} (hbase : base ≤ 256) (hdivisor : 0 < divisor) (char : ℕ → UInt8)
    {digits remainders : List ℕ} (h : Radix.Remainders base divisor digits remainders)
    {number temp : List UInt8} {j : ℕ} (hdigits : digits = number.map UInt8.toNat)
    (hlt : ∀ d ∈ digits, d < base) (hj : remainders.length ≤ j) (htemp : j ≤ temp.length) :
    divisions base divisor char j number temp = .ok (j - remainders.length,
      temp.take (j - remainders.length) ++ remainders.map char ++ temp.drop j) := by
  induction h generalizing number temp j with
  | nil =>
      obtain rfl : number = [] := List.map_eq_nil_iff.1 hdigits.symm
      have hnil : divisions base divisor char j [] temp = .ok (j, temp) := by cases j <;> rfl
      rw [hnil]
      simp
  | @step digits remainders hne rest ih =>
      rw [List.length_append, List.length_singleton] at hj
      obtain ⟨j, rfl⟩ : ∃ i, j = i + 1 := ⟨j - 1, by omega⟩
      cases number with
      | nil => exact absurd hdigits hne
      | cons d number =>
          have hnumber : ∀ x ∈ d :: number, x.toNat < base := fun x hx =>
            hlt _ (hdigits ▸ List.mem_map_of_mem hx)
          obtain ⟨hrow, hmod⟩ := divmod_eq hbase hdivisor hdivisor hnumber
          obtain ⟨q, hq⟩ : ∃ q, q = (divmod base divisor 0 (d :: number)).1 := ⟨_, rfl⟩
          have hquotient : Radix.quotient base divisor digits =
              (if q.head? = some 0 then q.tail else q).map UInt8.toNat := by
            rw [quotient_eq, hq, hrow, ← hdigits, Radix.quotient]
          rw [divisions, write_eq htemp, hmod, ← hdigits, ← hq]
          change divisions base divisor char j _ _ = _
          rw [ih hquotient (Radix.quotient_lt hdivisor hlt) (by omega) (by simpa using Nat.le_of_lt htemp)]
          rw [take_set (by omega), drop_set htemp, List.length_append, List.length_singleton,
            Nat.add_sub_add_right]
          simp

/-! ### Both ends of the text -/

theorem prepend_eq (c : UInt8) {zeroCount j : ℕ} {temp : List UInt8} (hj : zeroCount ≤ j)
    (htemp : j ≤ temp.length) :
    prepend c zeroCount j temp = .ok (j - zeroCount,
      temp.take (j - zeroCount) ++ List.replicate zeroCount c ++ temp.drop j) := by
  induction zeroCount generalizing j temp with
  | zero => simp [prepend]
  | succ zeroCount ih =>
      obtain ⟨j, rfl⟩ : ∃ i, j = i + 1 := ⟨j - 1, by omega⟩
      rw [prepend, write_eq htemp]
      change prepend c zeroCount j _ = _
      rw [ih (by omega) (by simpa using Nat.le_of_lt htemp), take_set (by omega), drop_set htemp,
        Nat.add_sub_add_right, List.replicate_succ']
      simp

theorem copyOfRange_eq {source : List UInt8} {start : ℕ} (h : start ≤ source.length) :
    copyOfRange source start source.length = .ok (source.drop start) := by
  rw [copyOfRange, if_pos ⟨h, Nat.le_refl _⟩, List.take_of_length_le (by simp)]

/-- What leads a row is taken, and no more. -/
theorem takeWhile_replicate_append {α : Type} [DecidableEq α] {x : α} {row : List α} (hrow : row.head? ≠ some x)
    (count : ℕ) : (List.replicate count x ++ row).takeWhile (· = x) = List.replicate count x := by
  have hstop : row.takeWhile (· = x) = [] := by
    cases row with
    | nil => rfl
    | cons d row =>
        rw [List.takeWhile_cons_of_neg]
        simpa using hrow
  rw [List.takeWhile_append_of_pos (by simp), hstop, List.append_nil]

/-- The loop passes the characters that lead, and no other. -/
theorem skip_append (c : UInt8) (before row : List UInt8) (count : ℕ) (hrow : row.head? ≠ some c) :
    skip c (before ++ (List.replicate count c ++ row)) before.length = before.length + count := by
  rw [skip, List.drop_left, takeWhile_replicate_append hrow, List.length_replicate]

/-- What is copied after the characters are put in front. -/
theorem prepend_copyOfRange (c : UInt8) {zeroCount j : ℕ} {temp : List UInt8} (hj : zeroCount ≤ j)
    (htemp : j ≤ temp.length) :
    (prepend c zeroCount j temp >>= fun result => copyOfRange result.2 result.1 temp.length) =
      .ok (List.replicate zeroCount c ++ temp.drop j) := by
  rw [prepend_eq c hj htemp]
  obtain ⟨before, hbefore⟩ : ∃ before, before = temp.take (j - zeroCount) := ⟨_, rfl⟩
  have hlength : before.length = j - zeroCount := by
    rw [hbefore, List.length_take]
    omega
  have htotal : temp.length =
      (before ++ List.replicate zeroCount c ++ temp.drop j).length := by
    simp [hlength]
    omega
  change copyOfRange _ _ _ = _
  rw [← hbefore, htotal, copyOfRange_eq (by simp [hlength]), ← hlength, List.append_assoc,
    List.drop_left]

/-- The bytes but for those that lead with zero. -/
theorem drop_countZeros (input : List UInt8) : input.drop (countZeros input) = input.dropWhile (· = 0) := by
  have hleft := @List.drop_left _ (input.takeWhile (· = 0)) (input.dropWhile (· = 0))
  rw [List.takeWhile_append_dropWhile] at hleft
  exact hleft

theorem takeWhile_eq_replicate (input : List UInt8) :
    input.takeWhile (· = 0) = List.replicate (countZeros input) 0 :=
  List.eq_replicate_of_mem fun d hd => by simpa using List.mem_takeWhile_imp hd

theorem eq_zeros_append (input : List UInt8) :
    input = List.replicate (countZeros input) 0 ++ input.dropWhile (· = 0) := by
  rw [← takeWhile_eq_replicate, List.takeWhile_append_dropWhile]

/-- The number that bytes stand for. -/
def valueOf (base : ℕ) (bytes : List UInt8) : ℕ := Radix.value base (bytes.map UInt8.toNat)

theorem map_dropWhile (bytes : List UInt8) :
    (bytes.dropWhile (· = 0)).map UInt8.toNat = (bytes.map UInt8.toNat).dropWhile (· = 0) := by
  induction bytes with
  | nil => rfl
  | cons d bytes ih =>
      by_cases hd : d = 0
      · simp [hd, ih]
      · have hd' : d.toNat ≠ 0 := fun h => hd (UInt8.toNat_inj.1 h)
        simp [hd, hd']

/-- Leading zeros do not count. -/
theorem valueOf_dropWhile (base : ℕ) (bytes : List UInt8) :
    valueOf base (bytes.dropWhile (· = 0)) = valueOf base bytes := by
  rw [valueOf, map_dropWhile, Radix.value_dropWhile, valueOf]

/-- Bytes are the row of their number, but for the leading zeros. -/
theorem canonical_valueOf (bytes : List UInt8) :
    (Radix.canonical 256 (valueOf 256 bytes)).map UInt8.ofNat = bytes.dropWhile (· = 0) := by
  have hlt : ∀ d ∈ bytes.map UInt8.toNat, d < 256 := by
    intro d hd
    obtain ⟨b, -, rfl⟩ := List.mem_map.1 hd
    exact b.toNat_lt
  rw [valueOf, Radix.canonical_value (by decide) hlt, ← map_dropWhile, List.map_map]
  exact (List.map_congr_left fun b _ => UInt8.ofNat_toNat).trans (List.map_id' _)

/-! ### What each direction computes -/

/-- The digits of the text form of bytes, after as many `1`s as there are leading zeros. -/
def digitsOf (bytes : List UInt8) : List ℕ := Radix.canonical 58 (valueOf 256 bytes)

theorem digitsOf_head (bytes : List UInt8) : ((digitsOf bytes).map alphabet).head? ≠ some (alphabet 0) := by
  intro hhead
  rw [List.head?_map, Option.map_eq_some_iff] at hhead
  obtain ⟨d, hd, hzero⟩ := hhead
  have hmem : d ∈ digitsOf bytes := List.mem_of_mem_head? hd
  have hd0 := (alphabet_eq_zero_iff d (Radix.canonical_lt (by decide) hmem)).1 hzero
  exact Radix.canonical_head_ne_zero 58 _ (hd0 ▸ hd)

theorem uninitialised_length (contents : ℕ → UInt8) (n : ℕ) : (uninitialised contents n).length = n := by
  simp [uninitialised]

/-- The divisions of bytes into a buffer with room for the remainders: after what the buffer held come zeros, if
    any, and the digits of the number. -/
theorem divisions_buffer {base divisor : ℕ} (hbase : base ≤ 256) (hdivisor : 1 < divisor) (char : ℕ → UInt8)
    (contents : ℕ → UInt8) {rest : List UInt8} (hlt : ∀ d ∈ rest.map UInt8.toNat, d < base)
    {remainders : List ℕ} (hremainders : Radix.Remainders base divisor (rest.map UInt8.toNat) remainders)
    {tempLength : ℕ} (hroom : remainders.length ≤ tempLength) :
    ∃ before count, before = (uninitialised contents tempLength).take (tempLength - remainders.length) ∧
      before.length = tempLength - remainders.length ∧
      remainders.length = count + (Radix.canonical divisor (valueOf base rest)).length ∧
      divisions base divisor char tempLength rest (uninitialised contents tempLength) =
        .ok (before.length, before ++ (List.replicate count (char 0) ++
          (Radix.canonical divisor (valueOf base rest)).map char)) := by
  have hpos : 0 < divisor := Nat.lt_of_succ_lt hdivisor
  have hrow := Radix.eq_replicate_append hdivisor (hremainders.lt hpos)
  rw [hremainders.value_eq, ← valueOf] at hrow
  obtain ⟨digits, hdigits⟩ : ∃ digits, digits = Radix.canonical divisor (valueOf base rest) := ⟨_, rfl⟩
  obtain ⟨count, hcount⟩ : ∃ count, count = remainders.length - digits.length := ⟨_, rfl⟩
  rw [← hdigits, ← hcount] at hrow
  obtain ⟨before, hbefore⟩ : ∃ before,
    before = (uninitialised contents tempLength).take (tempLength - remainders.length) := ⟨_, rfl⟩
  have hlength : before.length = tempLength - remainders.length := by
    rw [hbefore, List.length_take, uninitialised_length]
    omega
  refine ⟨before, count, hbefore, hlength, ?_, ?_⟩
  · rw [← hdigits]
    conv_lhs => rw [hrow]
    rw [List.length_append, List.length_replicate]
  · rw [divisions_eq hbase hpos char hremainders rfl hlt hroom (by rw [uninitialised_length]), ← hbefore,
      ← hlength, List.drop_of_length_le (by rw [uninitialised_length]), ← hdigits]
    conv_lhs => rw [hrow]
    simp

/-- ENCODE, whatever the buffer holds at first: a `1` for each leading zero byte, and the digits. -/
theorem encode_eq (contents : ℕ → UInt8) (bytes : List UInt8) :
    encode contents bytes = .ok (List.replicate (countZeros bytes) (alphabet 0) ++
      (digitsOf bytes).map alphabet) := by
  by_cases hnil : bytes = []
  · subst hnil
    simp [encode, countZeros, digitsOf, valueOf]
  obtain ⟨rest, hrest⟩ : ∃ rest, rest = bytes.drop (countZeros bytes) := ⟨_, rfl⟩
  have hlt : ∀ d ∈ rest.map UInt8.toNat, d < 256 := by
    intro d hd
    obtain ⟨b, -, rfl⟩ := List.mem_map.1 hd
    exact b.toNat_lt
  have hzeros : countZeros bytes + rest.length = bytes.length := by
    have := congrArg List.length (eq_zeros_append bytes)
    rw [List.length_append, List.length_replicate, ← drop_countZeros, ← hrest] at this
    exact this.symm
  -- two divisions for each byte are enough
  obtain ⟨remainders, hremainders, hlength⟩ := @Radix.exists_remainders 256 58 2 (2 * rest.length)
    (by decide) (by decide) (by decide) _ hlt (Radix.within_of_lt (by decide) (by decide) hlt (by simp))
  have hroom : remainders.length ≤ bytes.length * 2 := by omega
  have hvalue : valueOf 256 rest = valueOf 256 bytes := by rw [hrest, drop_countZeros, valueOf_dropWhile]
  obtain ⟨before, count, -, hbefore, hsum, hdivisions⟩ :=
    divisions_buffer (by decide) (by decide) alphabet contents hlt hremainders hroom
  rw [hvalue, ← digitsOf] at hsum hdivisions
  have htotal : (before ++ (List.replicate count (alphabet 0) ++
      (digitsOf bytes).map alphabet)).length = bytes.length * 2 := by
    simp only [List.length_append, List.length_replicate, List.length_map]
    omega
  rw [encode, if_neg hnil]
  dsimp only
  rw [← hrest, hdivisions]
  change (prepend _ _ (skip _ _ _) _ >>= _) = _
  rw [skip_append _ _ _ _ (digitsOf_head bytes), ← htotal]
  refine (prepend_copyOfRange (alphabet 0) ?_ ?_).trans ?_
  · omega
  · simp only [List.length_append, List.length_replicate]
    omega
  · have hdrop : (before ++ (List.replicate count (alphabet 0) ++ (digitsOf bytes).map alphabet)).drop
        (before.length + count) = (digitsOf bytes).map alphabet := by
      rw [← List.append_assoc]
      exact List.drop_left' (by simp)
    dsimp only
    rw [hdrop]

/-- How many zeros lead a row of digits. -/
def zeros (ds : List ℕ) : ℕ := (ds.takeWhile (· = 0)).length

/-- The bytes of the number of a row of digits. -/
def bytesOf (ds : List ℕ) : List ℕ := Radix.canonical 256 (Radix.value 58 ds)

theorem bytesOf_head (ds : List ℕ) : ((bytesOf ds).map UInt8.ofNat).head? ≠ some 0 := by
  intro hhead
  rw [List.head?_map, Option.map_eq_some_iff] at hhead
  obtain ⟨d, hd, hzero⟩ := hhead
  have hlt : d < 256 := Radix.canonical_lt (by decide) (List.mem_of_mem_head? hd)
  have hd0 : d = 0 := by
    have := congrArg UInt8.toNat hzero
    rwa [UInt8.toNat_ofNat_of_lt' hlt] at this
  exact Radix.canonical_head_ne_zero 256 _ (hd0 ▸ hd)

theorem map_toNat_ofNat {ds : List ℕ} (h : ∀ d ∈ ds, d < 58) :
    (ds.map UInt8.ofNat).map UInt8.toNat = ds := by
  rw [List.map_map]
  refine (List.map_congr_left fun d hd => ?_).trans (List.map_id' _)
  exact UInt8.toNat_ofNat_of_lt' ((h d hd).trans (by decide))

theorem countZeros_ofNat {ds : List ℕ} (h : ∀ d ∈ ds, d < 58) :
    countZeros (ds.map UInt8.ofNat) = zeros ds := by
  have hcount (input : List UInt8) : countZeros input = zeros (input.map UInt8.toNat) := by
    induction input with
    | nil => rfl
    | cons d input ih =>
        by_cases hd : d = 0
        · simpa [countZeros, zeros, hd] using ih
        · have hd' : d.toNat ≠ 0 := fun h => hd (UInt8.toNat_inj.1 h)
          simp [countZeros, zeros, hd, hd']
  rw [hcount, map_toNat_ofNat h]

/-- DECODE: the bytes of the number, with as many zero bytes before them as the divisions have written,
    and before these what the buffer held; the output begins where that makes as many bytes as there are
    leading zeros. -/
theorem doDecode_eq (contents : ℕ → UInt8) {ds : List ℕ} (hds : ∀ d ∈ ds, d < 58) :
    zeros ds + (bytesOf ds).length ≤ ds.length ∧
    doDecode contents (ds.map alphabet) = .ok (((uninitialised contents ds.length).take (zeros ds) ++
      (List.replicate (ds.length - zeros ds - (bytesOf ds).length) 0 ++
        (bytesOf ds).map UInt8.ofNat)).drop (ds.length - zeros ds - (bytesOf ds).length)) := by
  obtain ⟨input58, hinput⟩ : ∃ input58, input58 = ds.map UInt8.ofNat := ⟨_, rfl⟩
  have hcount : countZeros input58 = zeros ds := by rw [hinput, countZeros_ofNat hds]
  have hlength_input : input58.length = ds.length := by rw [hinput, List.length_map]
  obtain ⟨rest, hrest⟩ : ∃ rest, rest = input58.drop (zeros ds) := ⟨_, rfl⟩
  have hrest_drop : rest = input58.dropWhile (· = 0) := by rw [hrest, ← hcount, drop_countZeros]
  have hlt : ∀ d ∈ rest.map UInt8.toNat, d < 58 := by
    intro d hd
    have hsub : (rest.map UInt8.toNat).Sublist (input58.map UInt8.toNat) := by
      rw [hrest]
      exact (List.drop_sublist _ _).map _
    rw [hinput, map_toNat_ofNat hds] at hsub
    exact hds d (hsub.subset hd)
  have hzeros : zeros ds + rest.length = ds.length := by
    have := congrArg List.length (eq_zeros_append input58)
    rw [List.length_append, List.length_replicate, ← hrest_drop, hcount] at this
    omega
  -- each division takes one digit away, neither more nor less
  obtain ⟨remainders, hremainders, hle⟩ := @Radix.exists_remainders 58 256 1 rest.length
    (by decide) (by decide) (by decide) _ hlt (Radix.within_of_lt (by decide) (by decide) hlt (by simp))
  have hlength : remainders.length = rest.length := by
    have := hremainders.length_le
    rw [List.length_map] at this
    omega
  have hvalue : valueOf 58 rest = Radix.value 58 ds := by
    rw [hrest_drop, valueOf_dropWhile, hinput, valueOf, map_toNat_ofNat hds]
  obtain ⟨before, count, hbefore, hbefore_length, hsum, hdivisions⟩ :=
    divisions_buffer (by decide) (by decide) UInt8.ofNat contents hlt hremainders
      (show remainders.length ≤ ds.length by omega)
  have hzero : UInt8.ofNat 0 = 0 := rfl
  rw [hvalue, ← bytesOf] at hsum hdivisions
  rw [hzero] at hdivisions
  have hj : ds.length - remainders.length = zeros ds := by omega
  rw [hj] at hbefore hbefore_length
  have hcount_eq : ds.length - zeros ds - (bytesOf ds).length = count := by omega
  refine ⟨by omega, ?_⟩
  rw [hcount_eq]
  by_cases hnil : ds = []
  · subst hnil
    simp [doDecode, zeros, bytesOf]
  have htotal : (before ++ (List.replicate count 0 ++ (bytesOf ds).map UInt8.ofNat)).length =
      ds.length := by
    simp only [List.length_append, List.length_replicate, List.length_map]
    omega
  rw [doDecode, if_neg (by simpa using hnil), digits58_map_alphabet hds, ← hinput, ← hbefore]
  dsimp only
  rw [hcount, ← hrest, List.length_map, hdivisions]
  change (if skip _ _ _ < _ then _ else copyOfRange _ (skip _ _ _ - _) _) = _
  rw [skip_append _ _ _ _ (bytesOf_head ds), hbefore_length, if_neg (by omega), Nat.add_sub_cancel_left,
    ← htotal, copyOfRange_eq (by simp only [List.length_append, List.length_replicate]; omega)]

/-! ### Both directions -/

/-- The buffer has the zero bytes that are to lead the output. -/
def Roomy (ds : List ℕ) : Prop := zeros ds = 0 ∨ zeros ds + (bytesOf ds).length ≤ ds.length - zeros ds

/-- With room the output does not depend on what the buffer held. -/
theorem doDecode_roomy (contents : ℕ → UInt8) {ds : List ℕ} (hds : ∀ d ∈ ds, d < 58) (h : Roomy ds) :
    doDecode contents (ds.map alphabet) =
      .ok (List.replicate (zeros ds) 0 ++ (bytesOf ds).map UInt8.ofNat) := by
  obtain ⟨hle, hdecode⟩ := doDecode_eq contents hds
  obtain ⟨count, hcount⟩ : ∃ count, count = ds.length - zeros ds - (bytesOf ds).length := ⟨_, rfl⟩
  rw [hdecode, ← hcount]
  rcases h with hzeros | hroom
  · rw [hzeros, List.take_zero, List.nil_append, List.drop_left' (by simp)]
    rfl
  · have hsplit : List.replicate count (0 : UInt8) =
        List.replicate (count - zeros ds) 0 ++ List.replicate (zeros ds) 0 := by
      rw [← List.replicate_add]
      congr 1
      omega
    rw [hsplit, ← List.append_assoc, ← List.append_assoc, List.append_assoc,
      List.drop_left' (by rw [List.length_append, List.length_take, uninitialised_length,
        List.length_replicate]; omega)]

/-- Without room the first byte of the output is one that the buffer held. -/
theorem doDecode_cramped (contents : ℕ → UInt8) {ds : List ℕ} (hds : ∀ d ∈ ds, d < 58) (h : ¬ Roomy ds) :
    ∃ i output, doDecode contents (ds.map alphabet) = .ok (contents i :: output) := by
  obtain ⟨hle, hdecode⟩ := doDecode_eq contents hds
  rw [Roomy, not_or, Nat.not_le] at h
  obtain ⟨count, hcount⟩ : ∃ count, count = ds.length - zeros ds - (bytesOf ds).length := ⟨_, rfl⟩
  have hlt : count < ((uninitialised contents ds.length).take (zeros ds)).length := by
    rw [List.length_take, uninitialised_length]
    omega
  obtain ⟨tail, htail⟩ : ∃ tail,
      ((uninitialised contents ds.length).take (zeros ds)).drop count = contents count :: tail := by
    rw [List.drop_eq_getElem_cons hlt]
    exact ⟨_, by simp [uninitialised]; rfl⟩
  rw [hdecode, ← hcount, List.drop_append_of_le_length (Nat.le_of_lt hlt), htail]
  exact ⟨count, _, rfl⟩

/-- The digits of a text form. -/
theorem zeros_textDigits (bytes : List UInt8) :
    zeros (List.replicate (countZeros bytes) 0 ++ digitsOf bytes) = countZeros bytes := by
  have hhead : (digitsOf bytes).head? ≠ some 0 := Radix.canonical_head_ne_zero 58 _
  rw [zeros, takeWhile_replicate_append hhead, List.length_replicate]

theorem bytesOf_textDigits (bytes : List UInt8) :
    (bytesOf (List.replicate (countZeros bytes) 0 ++ digitsOf bytes)).map UInt8.ofNat =
      bytes.dropWhile (· = 0) := by
  rw [bytesOf, Radix.value_replicate_append, digitsOf, Radix.value_canonical, canonical_valueOf]

theorem textDigits_lt (bytes : List UInt8) :
    ∀ d ∈ List.replicate (countZeros bytes) 0 ++ digitsOf bytes, d < 58 := by
  intro d hd
  rcases List.mem_append.1 hd with hd | hd
  · rw [(List.mem_replicate.1 hd).2]
    decide
  · exact Radix.canonical_lt (by decide) hd

/-- There is room for bytes without a leading zero, and for those of which the digits are no fewer. -/
def RoomFor (bytes : List UInt8) : Prop :=
  countZeros bytes = 0 ∨ bytes.length ≤ (digitsOf bytes).length

theorem roomy_textDigits (bytes : List UInt8) :
    Roomy (List.replicate (countZeros bytes) 0 ++ digitsOf bytes) ↔ RoomFor bytes := by
  have hbytes := congrArg List.length (bytesOf_textDigits bytes)
  have hsplit := congrArg List.length (eq_zeros_append bytes)
  rw [List.length_map] at hbytes
  rw [List.length_append, List.length_replicate] at hsplit
  rw [Roomy, RoomFor, zeros_textDigits, hbytes, List.length_append, List.length_replicate]
  omega

/-- The text form, as a row of digits. -/
theorem encode_digits (contents : ℕ → UInt8) (bytes : List UInt8) : encode contents bytes =
    .ok ((List.replicate (countZeros bytes) 0 ++ digitsOf bytes).map alphabet) := by
  rw [encode_eq, List.map_append, List.map_replicate]

/-- Decoding undoes encoding, for all contents of the buffers, where there is room. -/
theorem decode_encode_iff (bytes : List UInt8) :
    (∀ (strict : Bool) (contents contents' : ℕ → UInt8),
      (encode contents bytes >>= fun text => decode contents' text strict) = .ok bytes) ↔
        RoomFor bytes := by
  obtain ⟨ds, hds⟩ : ∃ ds, ds = List.replicate (countZeros bytes) 0 ++ digitsOf bytes := ⟨_, rfl⟩
  have hlt : ∀ d ∈ ds, d < 58 := hds ▸ textDigits_lt bytes
  have hover : OverAlphabet (ds.map alphabet) := overAlphabet_map hlt
  have hdecode (strict : Bool) (contents contents' : ℕ → UInt8) :
      (encode contents bytes >>= fun text => decode contents' text strict) =
        doDecode contents' (ds.map alphabet) := by
    rw [encode_digits, ← hds]
    change doDecode contents' (if strict then ds.map alphabet else lenient (ds.map alphabet)) = _
    rw [lenient_eq hover, ite_self]
  rw [← roomy_textDigits, ← hds]
  constructor
  · intro h
    by_contra hroom
    -- a buffer of ones, where the output is to begin with a zero
    obtain ⟨i, output, hout⟩ := doDecode_cramped (fun _ => 1) hlt hroom
    have hone := h true (fun _ => 1) fun _ => 1
    rw [hdecode, hout] at hone
    have hbytes : (1 : UInt8) :: output = bytes := Except.ok.inj hone
    refine hroom (.inl ?_)
    rw [hds, zeros_textDigits, ← hbytes]
    rfl
  · intro hroom strict contents contents'
    rw [hdecode, doDecode_roomy contents' hlt hroom, hds, zeros_textDigits, bytesOf_textDigits,
      ← eq_zeros_append]

/-- Different rows of digits have different texts. -/
theorem map_alphabet_inj {ds ds' : List ℕ} (hds : ∀ d ∈ ds, d < 58) (hds' : ∀ d ∈ ds', d < 58)
    (h : ds.map alphabet = ds'.map alphabet) : ds = ds' := by
  have hdigits := digits58_map_alphabet hds
  rw [h, digits58_map_alphabet hds', Option.some.injEq] at hdigits
  rw [← map_toNat_ofNat hds, ← hdigits, map_toNat_ofNat hds']

/-- The bytes that a row of digits is decoded to have that row as their text form. -/
theorem textDigits_roomy {ds : List ℕ} (hds : ∀ d ∈ ds, d < 58) :
    List.replicate (countZeros (List.replicate (zeros ds) 0 ++ (bytesOf ds).map UInt8.ofNat)) 0 ++
      digitsOf (List.replicate (zeros ds) 0 ++ (bytesOf ds).map UInt8.ofNat) = ds := by
  have hbytes : ((bytesOf ds).map UInt8.ofNat).map UInt8.toNat = bytesOf ds := by
    rw [List.map_map]
    refine (List.map_congr_left fun d hd => ?_).trans (List.map_id' _)
    exact UInt8.toNat_ofNat_of_lt' (Radix.canonical_lt (by decide) hd)
  have hcount : countZeros (List.replicate (zeros ds) 0 ++ (bytesOf ds).map UInt8.ofNat) = zeros ds := by
    rw [countZeros, takeWhile_replicate_append (bytesOf_head ds), List.length_replicate]
  have hvalue : valueOf 256 (List.replicate (zeros ds) 0 ++ (bytesOf ds).map UInt8.ofNat) =
      Radix.value 58 ds := by
    rw [valueOf, List.map_append, List.map_replicate, hbytes]
    exact (Radix.value_replicate_append _ _ _).trans (Radix.value_canonical 256 _)
  have hzeros : List.replicate (zeros ds) 0 = ds.takeWhile (· = 0) :=
    (List.eq_replicate_of_mem fun d hd => by simpa using List.mem_takeWhile_imp hd).symm
  rw [hcount, digitsOf, hvalue, Radix.canonical_value (by decide) hds, hzeros,
    List.takeWhile_append_dropWhile]

/-- Encoding undoes decoding, for all contents of the buffers, where there is room. -/
theorem encode_decode_iff {ds : List ℕ} (hds : ∀ d ∈ ds, d < 58) :
    (∀ contents contents' : ℕ → UInt8,
      (decode contents (ds.map alphabet) true >>= encode contents') = .ok (ds.map alphabet)) ↔
        Roomy ds := by
  have hstrict (contents : ℕ → UInt8) : decode contents (ds.map alphabet) true =
      doDecode contents (ds.map alphabet) := rfl
  constructor
  · intro h
    by_contra hroom
    obtain ⟨i, output, hout⟩ := doDecode_cramped (fun _ => 1) hds hroom
    have hone := h (fun _ => 1) fun _ => 1
    rw [hstrict, hout] at hone
    change encode _ ((1 : UInt8) :: output) = _ at hone
    rw [encode_digits] at hone
    have hrow := map_alphabet_inj (textDigits_lt _) hds (Except.ok.inj hone)
    refine hroom (.inl ?_)
    rw [← hrow, zeros_textDigits]
    rfl
  · intro hroom contents contents'
    rw [hstrict, doDecode_roomy contents hds hroom]
    change encode contents' _ = _
    rw [encode_digits, textDigits_roomy hds]

/-- A text with another character is refused. -/
theorem doDecode_refuses (contents : ℕ → UInt8) {s : List UInt8} (h : ¬ OverAlphabet s) :
    doDecode contents s = .error .invalidArgument := by
  have hne : s ≠ [] := by
    rintro rfl
    exact h nofun
  rw [doDecode, if_neg hne, digits58_eq_none h]

/-- The buffer is nowhere left, whatever the text. -/
theorem decode_inBounds (contents : ℕ → UInt8) (s : List UInt8) (strict : Bool) :
    decode contents s strict ≠ .error .outOfBounds := by
  obtain ⟨input, hinput⟩ : ∃ input, input = if strict then s else lenient s := ⟨_, rfl⟩
  rw [decode, ← hinput]
  by_cases hover : OverAlphabet input
  · obtain ⟨hds, htext⟩ := map_idxOf hover
    rw [← htext, (doDecode_eq contents hds).2]
    exact nofun
  · rw [doDecode_refuses contents hover]
    exact nofun

/-- Decoding gives these bytes back, strictly or not, whatever the buffers hold. -/
def DecodesBack (bytes : List UInt8) : Prop :=
  ∀ (strict : Bool) (contents contents' : ℕ → UInt8),
    (encode contents bytes >>= fun text => decode contents' text strict) = .ok bytes

/-- A text over the alphabet is that of what it is decoded to, and any other is refused. -/
structure EncodesBack (s : List UInt8) : Prop where
  overAlphabet : OverAlphabet s → ∀ contents contents' : ℕ → UInt8,
    (decode contents s true >>= encode contents') = .ok s
  other : ¬ OverAlphabet s → ∀ contents : ℕ → UInt8, decode contents s true = .error .invalidArgument

/-- CODE DEFECT (which bytes and texts): decoding undoes encoding where no zero leads, or where the digits
    are no fewer than the bytes, and encoding undoes decoding of the texts with as much room. The indexes
    stay in the buffers, and a strict decode throws for every other text. -/
theorem safe58_iff (bytes s : List UInt8) (strict : Bool) (contents : ℕ → UInt8) :
    (DecodesBack bytes ↔ RoomFor bytes) ∧
      (EncodesBack s ↔ (OverAlphabet s → Roomy (s.map ALPHABET.idxOf))) ∧
      decode contents s strict ≠ .error .outOfBounds := by
  refine ⟨decode_encode_iff bytes, ?_, decode_inBounds contents s strict⟩
  constructor
  · intro h hover
    obtain ⟨hds, hs⟩ := map_idxOf hover
    refine (encode_decode_iff hds).1 ?_
    rw [hs]
    exact h.overAlphabet hover
  · intro h
    refine ⟨fun hover => ?_, fun hother contents => doDecode_refuses contents hother⟩
    obtain ⟨hds, hs⟩ := map_idxOf hover
    have hback := (encode_decode_iff hds).2 (h hover)
    rwa [hs] at hback

/-- CODE DEFECT: the text of one zero byte is decoded to whatever the buffer holds. -/
theorem decode_oneZero :
    encode (fun _ => 255) [0] = .ok [alphabet 0] ∧
      decode (fun _ => 255) [alphabet 0] true = .ok [255] ∧ ¬ DecodesBack [0] := by
  have hencode : encode (fun _ => 255) [0] = .ok [alphabet 0] := rfl
  have hdecode : decode (fun _ => 255) [alphabet 0] true = .ok [255] := rfl
  refine ⟨hencode, hdecode, fun h => ?_⟩
  have hback := h true (fun _ => 255) fun _ => 255
  rw [hencode] at hback
  change decode (fun _ => 255) [alphabet 0] true = .ok [0] at hback
  rw [hdecode] at hback
  exact absurd (Except.ok.inj hback) (by decide)

end Universa.Crypto.Safe58
