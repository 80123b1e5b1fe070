/-
# Single-precision numbers

A `Single` is the bit pattern of an IEEE-754 binary32 number.  All arithmetic is exact integer
arithmetic followed by one rounding, so it can be computed inside the logic:

* a finite number is a whole multiple of `2 ^ -149`, its `units`;
* `ofRatio` rounds a ratio of such units to the nearest number, a tie to the even pattern.

Bit patterns grow with the numbers they denote, so below infinity a rounded significand may carry
into the exponent without a special case.
-/

namespace FlowScript

/-- The bit pattern of a binary32 number. -/
structure Single where
  bits : UInt32
deriving DecidableEq

namespace Single

instance : Inhabited Single := ⟨⟨0⟩⟩

/-! ## 1. Patterns -/

/-- The bit of the sign. -/
def signBit : Nat := 0x80000000

/-- How many patterns share an exponent. -/
def perExponent : Nat := 0x800000

/-- The pattern of positive infinity; larger magnitudes are not numbers. -/
def infinityMagnitude : Nat := 0x7f800000

def negative (x : Single) : Bool := signBit ≤ x.bits.toNat

/-- The pattern without its sign. -/
def magnitude (x : Single) : Nat := x.bits.toNat % signBit

def ofMagnitude (negative : Bool) (magnitude : Nat) : Single :=
  ⟨UInt32.ofNat (if negative then signBit + magnitude else magnitude)⟩

def isNaN (x : Single) : Bool := infinityMagnitude < x.magnitude

def isInfinite (x : Single) : Bool := x.magnitude = infinityMagnitude

def isFinite (x : Single) : Bool := x.magnitude < infinityMagnitude

def zero : Single := ⟨0⟩

def negZero : Single := ofMagnitude true 0

def one : Single := ⟨0x3f800000⟩

/-- The quiet pattern that arithmetic answers where no number is right. -/
def nan : Single := ⟨0x7fc00000⟩

def infinity (negative : Bool) : Single := ofMagnitude negative infinityMagnitude

/-- The absolute value of a finite number as a multiple of `2 ^ -149`. -/
def units (x : Single) : Nat :=
  let exponent := x.magnitude / perExponent
  let fraction := x.magnitude % perExponent
  if exponent = 0 then fraction else (fraction + perExponent) * Nat.pow 2 (exponent - 1)

/-- How many units make one. -/
def unitsPerOne : Nat := Nat.pow 2 149

/-! ## 2. Rounding -/

/-- The whole number nearest to a ratio; of two equally near ones the even one. -/
def roundHalfEven (num den : Nat) : Nat :=
  let q := num / den
  let twice := 2 * (num % den)
  if twice < den then q
  else if den < twice then q + 1
  else if q % 2 = 0 then q else q + 1

/-- The magnitude nearest to `num / den` units; too large a ratio is infinite. -/
def roundMagnitude (num den : Nat) : Nat :=
  let whole := num / den
  let shift := if whole < 2 * perExponent then 0 else Nat.log2 whole - 23
  min infinityMagnitude (shift * perExponent + roundHalfEven num (den * Nat.pow 2 shift))

/-- The number nearest to `num / den` units, with a given sign. -/
def ofRatio (negative : Bool) (num den : Nat) : Single :=
  ofMagnitude negative (roundMagnitude num den)

/-- The number nearest to an integer. -/
def ofInt (n : Int) : Single := ofRatio (n < 0) (n.natAbs * unitsPerOne) 1

/-! ## 3. Arithmetic and comparison -/

/-- The value of a finite number as a signed multiple of `2 ^ -149`. -/
def signedUnits (x : Single) : Int := if x.negative then -(x.units : Int) else x.units

/-- The sum, rounded once.  A sum that is exactly zero is negative only if both terms are. -/
def add (x y : Single) : Single :=
  if x.isNaN || y.isNaN then nan
  else if x.isInfinite then
    if y.isInfinite && x.negative != y.negative then nan else x
  else if y.isInfinite then y
  else
    let sum := x.signedUnits + y.signedUnits
    if sum = 0 then ofMagnitude (x.negative && y.negative) 0
    else ofRatio (sum < 0) sum.natAbs 1

instance : Add Single := ⟨add⟩

/-- The sum of a list from the left; nothing sums to negative zero. -/
def sum (xs : List Single) : Single := xs.foldl add negZero

/-- The magnitude with its sign; both zeros are zero. -/
def signedMagnitude (x : Single) : Int :=
  if x.negative then -(x.magnitude : Int) else x.magnitude

/-- Numeric order; a NaN is below and above nothing. -/
def lt (x y : Single) : Bool :=
  !x.isNaN && !y.isNaN && x.signedMagnitude < y.signedMagnitude

/-- Numeric equality: both zeros are equal, a NaN is equal to nothing. -/
def equal (x y : Single) : Bool :=
  !x.isNaN && !y.isNaN && x.signedMagnitude = y.signedMagnitude

/-- The place of a pattern in the total order: negative patterns first, by falling magnitude,
then positive ones; negative zero stands before zero and NaNs stand at both ends. -/
def totalKey (x : Single) : Int :=
  if x.negative then -(x.magnitude : Int) - 1 else x.magnitude

/-- The whole part, kept within the range of 32-bit integers; a NaN is zero. -/
def toInt32 (x : Single) : Int32 :=
  if x.isNaN then 0
  else
    let whole : Int := x.units / unitsPerOne
    let signed := if x.negative then -whole else whole
    Int32.ofInt (max (-signBit) (min (signBit - 1) signed))

/-- Whether a finite number has no fraction. -/
def isWhole (x : Single) : Bool := x.isFinite && x.units % unitsPerOne = 0

end Single

end FlowScript
