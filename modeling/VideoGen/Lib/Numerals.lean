import Mathlib.Algebra.Order.Floor.Ring
import Mathlib.Algebra.Order.Ring.Unbundled.Rat
import Mathlib.Data.Rat.Floor
import Mathlib.Order.WithBot
import VideoGen.Lib.Text

/-!
# Numbers in text

What `Number(text)` makes of a text: white space around it is dropped, the
empty text is zero, and a decimal literal, a literal with a base prefix or
`Infinity` has the double that is nearest to its value.  `none` is `NaN`.
-/

namespace VideoGen

namespace Numeral

/-! ## Doubles -/

def pow2 (e : ℤ) : ℚ := if 0 ≤ e then 2 ^ e.toNat else 1 / 2 ^ (-e).toNat

/-- The exponent of the greatest power of two that is not above a positive number. -/
def exponent (q : ℚ) : ℤ :=
  let e : ℤ := q.num.natAbs.log2 - q.den.log2
  if pow2 e ≤ q then e else e - 1

/-- The nearest integer, and the even one of two that are equally near. -/
def roundEven (q : ℚ) : ℤ :=
  let below := ⌊q⌋
  let rest := q - below
  if rest < 1 / 2 ∨ (rest = 1 / 2 ∧ below % 2 = 0) then below else below + 1

/-- The nearest double: 53 significant bits, no exponent below -1022, and infinity from
`2 ^ 1024` on. -/
def toDouble (q : ℚ) : WithBot (WithTop ℚ) :=
  if q = 0 then some (some 0)
  else
    let unit := pow2 (max (exponent |q|) (-1022) - 52)
    let rounded := roundEven (|q| / unit) * unit
    if pow2 1024 ≤ rounded then (if q < 0 then ⊥ else some ⊤)
    else some (some (if q < 0 then -rounded else rounded))

/-! ## Literals -/

def isWhiteSpace (u : UInt16) : Bool :=
  u ∈ [0x9, 0xA, 0xB, 0xC, 0xD, 0x20, 0xA0, 0x1680, 0x2028, 0x2029, 0x202F, 0x205F, 0x3000,
    0xFEFF] || (0x2000 ≤ u && u ≤ 0x200A)

def trim (t : JsText) : JsText :=
  ((t.dropWhile isWhiteSpace).reverse.dropWhile isWhiteSpace).reverse

def digitValue (u : UInt16) : ℕ :=
  if 48 ≤ u ∧ u ≤ 57 then u.toNat - 48
  else if 65 ≤ u ∧ u ≤ 90 then u.toNat - 55
  else if 97 ≤ u ∧ u ≤ 122 then u.toNat - 87
  else 36

def isDigit (base : ℕ) (u : UInt16) : Bool := digitValue u < base

def digitsValue (base : ℕ) (t : JsText) : ℕ := t.foldl (fun n u ↦ n * base + digitValue u) 0

def digits? (base : ℕ) (t : JsText) : Option ℕ :=
  if t ≠ [] ∧ t.all (isDigit base) = true then some (digitsValue base t) else none

def signed (t : JsText) : Bool × JsText :=
  match t with
  | 43 :: rest => (false, rest)
  | 45 :: rest => (true, rest)
  | _ => (false, t)

def exponentPart? (t : JsText) : Option ℤ :=
  match t with
  | [] => some 0
  | u :: rest =>
      if u = 101 ∨ u = 69 then
        let (negative, rest) := signed rest
        (digits? 10 rest).map fun n : ℕ ↦ if negative = true then -(n : ℤ) else n
      else none

def pow10 (e : ℤ) : ℚ := if 0 ≤ e then 10 ^ e.toNat else 1 / 10 ^ (-e).toNat

def unsignedDecimal? (t : JsText) : Option ℚ :=
  let whole := t.takeWhile (isDigit 10)
  let rest := t.dropWhile (isDigit 10)
  let (fraction, rest) := match rest with
    | 46 :: rest => (rest.takeWhile (isDigit 10), rest.dropWhile (isDigit 10))
    | _ => ([], rest)
  if whole = [] ∧ fraction = [] then none
  else (exponentPart? rest).map fun e ↦
    digitsValue 10 (whole ++ fraction) * pow10 (e - fraction.length)

def decimal? (t : JsText) : Option (WithBot (WithTop ℚ)) :=
  let (negative, rest) := signed t
  if rest = .of "Infinity" then some (if negative = true then ⊥ else some ⊤)
  else (unsignedDecimal? rest).map fun q ↦ toDouble (if negative = true then -q else q)

def prefixed? (t : JsText) : Option ℕ :=
  match t with
  | 48 :: u :: rest =>
      if u = 98 ∨ u = 66 then digits? 2 rest
      else if u = 111 ∨ u = 79 then digits? 8 rest
      else if u = 120 ∨ u = 88 then digits? 16 rest
      else none
  | _ => none

/-- `Number(text)` -/
def number (text : JsText) : Option (WithBot (WithTop ℚ)) :=
  let t := trim text
  if t = [] then some (some (some 0))
  else
    match prefixed? t with
    | some n => some (toDouble n)
    | none => decimal? t

example : number (.of " 3600 ") = some ((3600 : ℚ) : WithTop ℚ) := by decide +kernel

example : number (.of "1e-1") =
    some ((3602879701896397 / 36028797018963968 : ℚ) : WithTop ℚ) := by decide +kernel

example : number (.of "+.5e1x") = none := by decide +kernel

end Numeral

end VideoGen
