/-
# Universally unique identifiers

Nodes, ports and links are named by 128-bit identifiers.  They are written as 32 lower-case
hexadecimal digits in five groups, `8-4-4-4-12`.  Four forms are read, with digits of either case:
the grouped form, the 32 digits alone, the grouped form in braces and the grouped form after
`urn:uuid:` in letters of either case.
-/
import FlowScript.Text.Hex

namespace FlowScript

/-- A 128-bit identifier. -/
structure Uuid where
  value : BitVec 128
deriving DecidableEq

namespace Uuid

/-- The identifier with a given value, modulo `2 ^ 128`. -/
def ofNat (n : Nat) : Uuid := ⟨BitVec.ofNat 128 n⟩

def toNat (u : Uuid) : Nat := u.value.toNat

/-- The identifier that is all zeros. -/
def zero : Uuid := ofNat 0

instance : Inhabited Uuid := ⟨zero⟩

/-- The order of identifiers is that of their values. -/
def le (a b : Uuid) : Bool := a.toNat ≤ b.toNat

/-! ## 1. Writing -/

/-- Cuts 32 digits into the groups `8-4-4-4-12`. -/
def grouped (digits : List Char) : List Char :=
  digits.take 8 ++ '-' :: ((digits.drop 8).take 4 ++ '-' :: ((digits.drop 12).take 4 ++
    '-' :: ((digits.drop 16).take 4 ++ '-' :: digits.drop 20)))

/-- The grouped form with lower-case digits. -/
def toText (u : Uuid) : String := String.ofList (grouped (Text.hexDigits 32 u.toNat))

/-! ## 2. Reading -/

/-- The value of exactly 32 hexadecimal digits. -/
def ofDigits? (digits : List Char) : Option Uuid :=
  if digits.length = 32 then (Text.hexNat? digits).map ofNat else none

/-- Reads the grouped form. -/
def ofGrouped? (cs : List Char) : Option Uuid :=
  let digits := cs.take 8 ++ (cs.drop 9).take 4 ++ (cs.drop 14).take 4 ++ (cs.drop 19).take 4 ++
    cs.drop 24
  if cs.length = 36 ∧ [cs[8]?, cs[13]?, cs[18]?, cs[23]?].all (· == some '-') then
    ofDigits? digits
  else none

/-- Reads any of the four accepted forms. -/
def ofText? (text : String) : Option Uuid :=
  let cs := text.toList
  if cs.length = 32 then ofDigits? cs
  else if cs.length = 36 then ofGrouped? cs
  else if cs.length = 38 then
    if cs.head? = some '{' ∧ cs.getLast? = some '}' then ofGrouped? ((cs.drop 1).take 36) else none
  else if cs.length = 45 then
    if (cs.take 9).map Char.toLower = "urn:uuid:".toList then ofGrouped? (cs.drop 9) else none
  else none

end Uuid

end FlowScript
