/-
# Decimal text of single-precision numbers

Three rules connect a `Single` with decimal text.

* **Writing** takes the fewest digits that read back as the same number; of several such decimals
  it takes the nearest, of two equally near ones the larger.  The digits are laid out positionally,
  never with an exponent, and a whole number has no fraction (`shortestText`).
* **Writing with fixed places** rounds the exact value, a tie to the even digit (`fixedText`).
* **Reading** accepts an optional sign, digits with an optional point and an optional exponent, and
  the words `inf`, `infinity` and `nan` in any case; the result is correctly rounded (`ofText?`).

A candidate for writing is accepted by reading it back, and the fallback after nine digits is the
exact decimal expansion.
-/
import FlowScript.Single.Basic

namespace FlowScript.Single

/-! ## 1. Reading -/

/-- The number nearest to `coefficient * 10 ^ exponent`.  Beyond sixty decimal places in either
direction every coefficient is infinite or zero, so the power is not computed there. -/
def ofDecimal (negative : Bool) (coefficient : Nat) (exponent : Int) : Single :=
  let places := (Nat.toDigits 10 coefficient).length + exponent
  if coefficient = 0 ∨ places < -60 then ofMagnitude negative 0
  else if 60 < places then infinity negative
  else if 0 ≤ exponent then
    ofRatio negative (coefficient * Nat.pow 10 exponent.toNat * unitsPerOne) 1
  else ofRatio negative (coefficient * unitsPerOne) (Nat.pow 10 (-exponent).toNat)

/-- The value of a run of decimal digits. -/
def digitsValue (cs : List Char) : Nat := cs.foldl (fun n c => 10 * n + (c.toNat - 48)) 0

/-- Splits an optional sign off a text. -/
def splitSign : List Char → Bool × List Char
  | '-' :: cs => (true, cs)
  | '+' :: cs => (false, cs)
  | cs => (false, cs)

/-- Reads an exponent mark with its digits, up to the end of the text. -/
def readExponent? : List Char → Option Int
  | [] => some 0
  | c :: cs =>
    if c = 'e' ∨ c = 'E' then
      let (negative, digits) := splitSign cs
      if digits ≠ [] ∧ digits.all Char.isDigit then
        let n : Int := digitsValue digits
        some (if negative then -n else n)
      else none
    else none

/-- Reads digits, an optional point and an optional exponent, up to the end of the text. -/
def readUnsigned? (negative : Bool) (cs : List Char) : Option Single :=
  let whole := cs.takeWhile Char.isDigit
  let rest := cs.dropWhile Char.isDigit
  let (fraction, rest) := match rest with
    | '.' :: rest => (rest.takeWhile Char.isDigit, rest.dropWhile Char.isDigit)
    | rest => ([], rest)
  if whole = [] ∧ fraction = [] then none
  else
    (readExponent? rest).map fun e =>
      ofDecimal negative (digitsValue (whole ++ fraction)) (e - fraction.length)

/-- Reads the text of a number. -/
def ofText? (cs : List Char) : Option Single :=
  let (negative, rest) := splitSign cs
  let word := String.ofList (rest.map Char.toLower)
  if word = "inf" ∨ word = "infinity" then some (infinity negative)
  else if word = "nan" then some (ofMagnitude negative nan.magnitude)
  else readUnsigned? negative rest

/-! ## 2. The fewest digits that read back -/

/-- Whether the number is below `10 ^ (i - 45)`. -/
def isBelowPower (x : Single) (i : Nat) : Bool :=
  if 45 ≤ i then x.units < Nat.pow 10 (i - 45) * unitsPerOne
  else x.units * Nat.pow 10 (45 - i) < unitsPerOne

/-- The least `k` with the number below `10 ^ k`.  The smallest positive number is above
`10 ^ -45`, the largest below `10 ^ 39`. -/
def decimalScale (x : Single) : Int :=
  ((List.range 85).find? x.isBelowPower).elim 40 fun i => (i : Int) - 45

/-- Of the two multiples of `10 ^ exponent` around the number, the nearest one that reads back;
a tie goes to the larger. -/
def candidate? (x : Single) (exponent : Int) : Option (Nat × Int) :=
  let num := if exponent < 0 then x.units * Nat.pow 10 (-exponent).toNat else x.units
  let den := if exponent < 0 then unitsPerOne else unitsPerOne * Nat.pow 10 exponent.toNat
  let lower := num / den
  let nearest := if 2 * (num % den) < den then [lower, lower + 1] else [lower + 1, lower]
  (nearest.find? fun c => ofDecimal x.negative c exponent = x).map (·, exponent)

/-- Coefficient and exponent of the shortest decimal that reads back as a finite number. -/
def shortest (x : Single) : Nat × Int :=
  ((List.range 9).findSome? fun (i : Nat) => candidate? x (x.decimalScale - 1 - i)).getD
    (x.units * Nat.pow 5 149, -149)

/-! ## 3. Layout -/

/-- Removes the zeros at the end of a run of digits. -/
def dropTrailingZeros (digits : List Char) : List Char :=
  (digits.reverse.dropWhile (· = '0')).reverse

/-- Lays out `0.d₁d₂… * 10 ^ point` positionally. -/
def positional (digits : List Char) (point : Int) : List Char :=
  if point ≤ 0 then '0' :: '.' :: (List.replicate (-point).toNat '0' ++ digits)
  else if (digits.length : Int) ≤ point then
    digits ++ List.replicate (point.toNat - digits.length) '0'
  else digits.take point.toNat ++ '.' :: digits.drop point.toNat

/-- The text of a number that is not NaN, without its sign. -/
def unsignedText (x : Single) : List Char :=
  if x.isInfinite then ['i', 'n', 'f']
  else if x.units = 0 then ['0']
  else
    let (coefficient, exponent) := x.shortest
    let digits := Nat.toDigits 10 coefficient
    positional (dropTrailingZeros digits) (exponent + digits.length)

/-- The shortest positional text that reads back as the number. -/
def shortestText (x : Single) : List Char :=
  if x.isNaN then ['N', 'a', 'N']
  else if x.negative then '-' :: x.unsignedText else x.unsignedText

/-- The number with a fixed count of places, at least one. -/
def fixedText (places : Nat) (x : Single) : List Char :=
  if x.isNaN then ['N', 'a', 'N']
  else
    let body :=
      if x.isInfinite then ['i', 'n', 'f']
      else
        let scaled := roundHalfEven (x.units * Nat.pow 10 places) unitsPerOne
        let fraction := Nat.toDigits 10 (scaled % Nat.pow 10 places)
        Nat.toDigits 10 (scaled / Nat.pow 10 places) ++
          '.' :: (List.replicate (places - fraction.length) '0' ++ fraction)
    if x.negative then '-' :: body else body

end FlowScript.Single
