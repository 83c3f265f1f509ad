import Mathlib.Data.List.Lex
import Mathlib.Data.Rat.Floor
import Mathlib.Tactic.Ring

/-! JavaScript values as the contract code sees them after the mapper: null, numbers, texts, dates,
    byte arrays, arrays and plain objects. Operators follow the language: conversions to text and
    number, `<=`, `===`, and `t.valuesEqual` with `Object.prototype.equals` of `tools.js`. An answer
    `none` is a thrown exception.

    Finite numbers are exact; a text read as a number and the result of `-` on values are rounded to the
    nearest double. `undefined` and `null` are one value, as every test of the modelled
    code is `== null`. -/

namespace Universa.Js

/-! ### Numbers -/

/-- A number; the finite ones are exact. -/
inductive Number where
  | nan
  | negInf
  | fin (q : ℚ)
  | posInf
  deriving DecidableEq

namespace Number

/-- `===` on numbers: `NaN` is not itself. -/
def eq : Number → Number → Bool
  | .fin a, .fin b => decide (a = b)
  | .negInf, .negInf | .posInf, .posInf => true
  | _, _ => false

/-- `<=` on numbers. -/
def le : Number → Number → Bool
  | .nan, _ | _, .nan => false
  | .fin a, .fin b => decide (a ≤ b)
  | .negInf, _ | _, .posInf => true
  | _, _ => false

/-- Subtraction. -/
def sub : Number → Number → Number
  | .fin a, .fin b => .fin (a - b)
  | .nan, _ | _, .nan | .posInf, .posInf | .negInf, .negInf => .nan
  | .posInf, _ | _, .negInf => .posInf
  | .negInf, _ | _, .posInf => .negInf

/-- `x + 1`. -/
def succ : Number → Number
  | .fin a => .fin (a + 1)
  | n => n

/-- The place of the first binary digit of `q`. -/
def exponent (q : ℚ) : ℤ :=
  let e : ℤ := q.num.natAbs.log2 - q.den.log2
  if 2 ^ e ≤ |q| then e else e - 1

/-- The integer nearest to `q`, the even one of two. -/
def roundEven (q : ℚ) : ℤ :=
  if q - ⌊q⌋ < 1 / 2 ∨ (q - ⌊q⌋ = 1 / 2 ∧ ⌊q⌋ % 2 = 0) then ⌊q⌋ else ⌊q⌋ + 1

/-- The double nearest to `q`. -/
def ofRat (q : ℚ) : Number :=
  let ulp : ℚ := 2 ^ max (exponent q - 52) (-1074)
  let r := roundEven (q / ulp) * ulp
  if 2 ^ 1024 ≤ r then .posInf else if r ≤ -2 ^ 1024 then .negInf else .fin r

/-- A result as the double it is kept in. -/
def round : Number → Number
  | .fin q => ofRat q
  | n => n

end Number

/-! ### Decimals -/

/-- Digits after the point that `q` needs. -/
def places (q : ℚ) : ℕ := ((List.range (q.den.log2 + 1)).find? (10 ^ · % q.den == 0)).getD 0

/-- Zeros at the end of `n`. -/
def zeros (n : ℕ) : ℕ := ((List.range (n.log2 + 1)).reverse.find? (n % 10 ^ · == 0)).getD 0

/-- The power of ten of the last significant digit of `q`. -/
def lastPlace (q : ℚ) : ℤ :=
  if q = 0 then 0 else (zeros (q * 10 ^ places q).num.natAbs : ℤ) - places q

/-- `Big.ulp`: the unit of the last significant digit. -/
def ulp (q : ℚ) : ℚ := 10 ^ lastPlace q

/-- The sign and digits of an exponent part. -/
def exponentText (n : ℤ) : String := "e" ++ (if 0 ≤ n then "+" else "-") ++ toString n.natAbs

/-- A finite number as `Number.prototype.toString` writes it, where its digits are those of the number itself: for a
    decimal of at most fifteen digits. Of a rational without a finite decimal the text is not a number's. -/
def decimalText (q : ℚ) : String :=
  let e := lastPlace q
  let ds := (toString (q * 10 ^ (-e)).num.natAbs).toList
  let n := ds.length + e
  let sign := if q < 0 then "-" else ""
  sign ++
    if 0 ≤ e ∧ n ≤ 21 then String.ofList (ds ++ List.replicate e.toNat '0')
    else if 0 < n ∧ n ≤ 21 then String.ofList (ds.take n.toNat ++ '.' :: ds.drop n.toNat)
    else if -6 < n ∧ n ≤ 0 then String.ofList ('0' :: '.' :: List.replicate (-n).toNat '0' ++ ds)
    else match ds with
      | [d] => String.ofList [d] ++ exponentText (n - 1)
      | d :: rest => String.ofList (d :: '.' :: rest) ++ exponentText (n - 1)
      | [] => ""

/-- A number as text; a finite one within the bounds of `decimalText`. -/
def Number.text : Number → String
  | .nan => "NaN"
  | .negInf => "-Infinity"
  | .fin q => decimalText q
  | .posInf => "Infinity"

/-- The value of a row of digits. -/
def digitsValue (ds : List Char) : ℕ := ds.foldl (fun n d => 10 * n + (d.toNat - 48)) 0

/-- An exponent part after its `e`: a sign and digits. -/
def exponentValue : List Char → Option ℤ
  | '-' :: ds => if ds ≠ [] ∧ ds.all Char.isDigit then some (-digitsValue ds) else none
  | '+' :: ds | ds => if ds ≠ [] ∧ ds.all Char.isDigit then some (digitsValue ds) else none

/-- A decimal literal without a sign: `(\d+(\.\d*)?|\.\d+)(e[+-]?\d+)?`. -/
def decimalLiteral (cs : List Char) : Option ℚ :=
  let whole := cs.takeWhile Char.isDigit
  let (fraction, rest) := match cs.dropWhile Char.isDigit with
    | '.' :: r => (r.takeWhile Char.isDigit, r.dropWhile Char.isDigit)
    | r => ([], r)
  if whole = [] ∧ fraction = [] then none else
  let shifted (e : ℤ) : ℚ := digitsValue (whole ++ fraction) * 10 ^ (e - fraction.length)
  match rest with
  | [] => some (shifted 0)
  | c :: r => if c = 'e' ∨ c = 'E' then (exponentValue r).map shifted else none

/-- What `big.js` reads: its `NUMERIC` pattern, or an exception. -/
def bigText (s : String) : Option ℚ :=
  match s.toList with
  | '-' :: cs => (decimalLiteral cs).map (- ·)
  | cs => decimalLiteral cs

/-- White space that `StringToNumber` trims. -/
def isSpace (c : Char) : Bool :=
  (9 ≤ c.toNat ∧ c.toNat ≤ 13) ∨ (0x2000 ≤ c.toNat ∧ c.toNat ≤ 0x200A) ∨
    c.toNat ∈ [32, 0xA0, 0x1680, 0x2028, 0x2029, 0x202F, 0x205F, 0x3000, 0xFEFF]

/-- A digit of a number in base `base`. -/
def baseDigit (base : ℕ) (c : Char) : Option ℕ :=
  let d := if c.isDigit then c.toNat - 48
    else if 'a' ≤ c ∧ c ≤ 'f' then c.toNat - 87
    else if 'A' ≤ c ∧ c ≤ 'F' then c.toNat - 55 else base
  if d < base then some d else none

/-- Digits after `0x`, `0o` or `0b`. -/
def baseLiteral (base : ℕ) (cs : List Char) : Number :=
  if cs = [] then .nan else
  match cs.mapM (baseDigit base) with
  | some ds => .ofRat (ds.foldl (base * · + ·) 0 : ℕ)
  | none => .nan

/-- A decimal literal or `Infinity`. -/
def numeral (cs : List Char) : Number :=
  if cs = "Infinity".toList then .posInf else
  match decimalLiteral cs with
  | some q => .ofRat q
  | none => .nan

/-- `Number(s)` for a text. -/
def textNumber (s : String) : Number :=
  match ((s.toList.dropWhile isSpace).reverse.dropWhile isSpace).reverse with
  | [] => .fin 0
  | '0' :: 'x' :: cs | '0' :: 'X' :: cs => baseLiteral 16 cs
  | '0' :: 'o' :: cs | '0' :: 'O' :: cs => baseLiteral 8 cs
  | '0' :: 'b' :: cs | '0' :: 'B' :: cs => baseLiteral 2 cs
  | '-' :: cs => Number.sub (.fin 0) (numeral cs)
  | '+' :: cs | cs => numeral cs

/-! ### Values -/

/-- A value; an object is its own keys with their values. -/
inductive Value where
  | null
  | bool (b : Bool)
  | num (n : Number)
  | str (s : String)
  | date (time : ℤ)
  | bytes (bs : List UInt8)
  | arr (xs : List Value)
  | obj (es : List (String × Value))

/-- The own keys of an object. -/
def keys {α : Type} (es : List (String × α)) : List String := es.map Prod.fst

/-- `o.hasOwnProperty(k)`, which an own key of that name hides. -/
def hasOwn {α : Type} (es : List (String × α)) (k : String) : Option Bool :=
  if "hasOwnProperty" ∈ keys es then none else some (decide (k ∈ keys es))

mutual
/-- `v + ''`; an own `toString` is no function, so it throws. -/
def text : Value → Option String
  | .null => some "null"
  | .bool b => some (if b then "true" else "false")
  | .num n => some n.text
  | .str s => some s
  | .date _ => some "Date" -- stands for the local date, which is no numeral
  | .bytes bs => some (",".intercalate (bs.map fun b => toString b.toNat))
  | .arr xs => (texts xs).map (",".intercalate ·)
  | .obj es => if "toString" ∈ keys es then none else some "[object Object]"

/-- The elements of an array as `join` writes them: null is empty. -/
def texts : List Value → Option (List String)
  | [] => some []
  | .null :: xs => (texts xs).map ("" :: ·)
  | x :: xs => do
      let t ← text x
      let ts ← texts xs
      return t :: ts
end

/-- `ToPrimitive` with hint number. -/
def primitive : Value → Option Value
  | .date time => some (.num (.fin time))
  | v@(.bytes _) | v@(.arr _) | v@(.obj _) => (text v).map .str
  | v => some v

/-- `ToNumber` of a primitive. -/
def primitiveNumber : Value → Number
  | .null => .fin 0
  | .bool b => .fin (if b then 1 else 0)
  | .num n => n
  | .str s => textNumber s
  | _ => .nan

/-- `ToNumber`. -/
def toNumber (v : Value) : Option Number := (primitive v).map primitiveNumber

/-- The UTF-16 code units of a text. -/
def units (s : String) : List ℕ :=
  s.toList.flatMap fun c =>
    if c.toNat < 0x10000 then [c.toNat]
    else [0xD800 + (c.toNat - 0x10000) / 0x400, 0xDC00 + (c.toNat - 0x10000) % 0x400]

/-- `a <= b`: two texts compare unit by unit, anything else as numbers. -/
def lessEq (a b : Value) : Option Bool := do
  match ← primitive a, ← primitive b with
  | .str s, .str t => return decide (units s ≤ units t)
  | p, q => return (primitiveNumber p).le (primitiveNumber q)

/-- `a - b`. -/
def minus (a b : Value) : Option Number := do
  let x ← toNumber a
  let y ← toNumber b
  return (x.sub y).round

/-- `new BigDecimal(v)`, exact. -/
def bigDecimal (v : Value) : Option ℚ := (text v).bind bigText

/-! ### Equality -/

/-- `===` where objects are distinct references. -/
def strictEq : Option Value → Option Value → Bool
  | none, none | some .null, some .null => true
  | some (.bool a), some (.bool b) => a == b
  | some (.num a), some (.num b) => a.eq b
  | some (.str a), some (.str b) => a == b
  | _, _ => false

/-- `x instanceof Object`. -/
def isObject : Value → Bool
  | .date _ | .bytes _ | .arr _ | .obj _ => true
  | _ => false

/-- `x.constructor.name`: an own `constructor` key is read instead of the class. -/
def constructorName : Value → Option (Option Value)
  | .date _ => some (some (.str "Date"))
  | .bytes _ => some (some (.str "Uint8Array"))
  | .arr _ => some (some (.str "Array"))
  | .obj es => match es.lookup "constructor" with
    | none => some (some (.str "Object"))
    | some .null => none
    | some (.obj fs) => some (fs.lookup "name")
    | some _ => some none
  | _ => some none

/-- `x.constructor.name === y.constructor.name`. -/
def sameConstructor (x y : Value) : Option Bool := do
  let a ← constructorName x
  let b ← constructorName y
  return strictEq a b

mutual
/-- `t.valuesEqual(x, y)`. -/
def valuesEqual : Value → Value → Option Bool
  | .null, y => some (match y with | .null => true | _ => false)
  | .bool a, y => some (strictEq (some (.bool a)) (some y))
  | .num a, y => some (strictEq (some (.num a)) (some y))
  | .str a, y => some (strictEq (some (.str a)) (some y))
  | .date a, y =>
      if !isObject y then some false else do
      if !(← sameConstructor (.date a) y) then return false
      -- Date.prototype.equals
      match y with
      | .date b => return decide (a = b)
      | .obj fs => if "prototype" ∈ keys fs then return false else none
      | _ => none
  | .bytes a, y =>
      if !isObject y then some false else do
      if !(← sameConstructor (.bytes a) y) then return false
      match y with
      | .bytes b => return decide (a = b)
      | _ => return false
  | .arr xs, y =>
      if !isObject y then some false else do
      if !(← sameConstructor (.arr xs) y) then return false
      match y with
      | .arr ys => if xs.length ≠ ys.length then return false else itemsEqual xs ys
      | _ => return false
  | .obj es, y =>
      if !isObject y then some false else do
      if !(← sameConstructor (.obj es) y) then return false
      if "equals" ∈ keys es then none else
      -- Object.keys(..).size is undefined on both sides, so no count is compared
      match y with
      | .obj fs => entriesEqual es fs
      | _ => return false

/-- The elements of two arrays of one length. -/
def itemsEqual : List Value → List Value → Option Bool
  | x :: xs, y :: ys => do
      if !(← valuesEqual x y) then return false
      itemsEqual xs ys
  | _, _ => some true

/-- Every key of the first object is in the second with an equal value. -/
def entriesEqual : List (String × Value) → List (String × Value) → Option Bool
  | [], _ => some true
  | (k, v) :: es, fs => do
      if !(← hasOwn fs k) then return false
      if !(← valuesEqual v ((fs.lookup k).getD .null)) then return false
      entriesEqual es fs
end

/-- An absent or empty value. -/
def blank : Value → Bool
  | .null => true
  | .str s => s == ""
  | _ => false

/-! ### Entries of an object -/

theorem mem_keys_iff {α : Type} {k : String} {es : List (String × α)} :
    k ∈ keys es ↔ ∃ v, es.lookup k = some v := by
  rw [← Option.isSome_iff_exists, List.lookup_isSome_iff, keys]
  simp

theorem not_mem_keys {α : Type} {k : String} {es : List (String × α)} (h : k ∉ keys es) :
    es.lookup k = none := by
  cases hl : es.lookup k with
  | none => rfl
  | some v => exact absurd (mem_keys_iff.mpr ⟨v, hl⟩) h

theorem mem_of_lookup {α : Type} {k : String} {v : α} {es : List (String × α)}
    (h : es.lookup k = some v) : (k, v) ∈ es := by
  obtain ⟨l₁, l₂, rfl, -⟩ := List.lookup_eq_some_iff.mp h
  simp

theorem lookup_of_mem {α : Type} {k : String} {v : α} : ∀ {es : List (String × α)},
    (keys es).Nodup → (k, v) ∈ es → es.lookup k = some v
  | (k', v') :: es, hnodup, h => by
      obtain ⟨hnew, hnodup⟩ := List.nodup_cons.mp hnodup
      rcases List.mem_cons.mp h with heq | h
      · cases heq
        simp
      · have hin : k ∈ keys es := List.mem_map_of_mem h
        have hne : k ≠ k' := fun heq => hnew (heq ▸ hin)
        rw [List.lookup_cons, beq_false_of_ne hne]
        exact lookup_of_mem hnodup h

end Universa.Js
