/-
# Values and their types

A port carries control flow (`exec`) or data of one type.  `PortType.feeds` says which source type
may be linked to which target type: control only to control, `any` to and from every data type,
equal types, whole and fractional numbers to each other, a number to a vector, and everything to
text.  A `Value` is what a data port holds; its views (`asFloat?`, `asInt?`, …) are what a node may
read it as.
-/
import FlowScript.Single.Decimal

namespace FlowScript

/-! ## 1. Types -/

/-- Whether a port carries control flow or data. -/
inductive PortKind
  | executionLink
  | data
deriving DecidableEq

/-- What may flow through a port. -/
inductive PortType
  | exec
  | bool
  | int
  | float
  | vector3
  | string
  | entity
  | any
deriving DecidableEq

namespace PortType

def all : List PortType := [exec, bool, int, float, vector3, string, entity, any]

/-- The name under which documents and messages know a type. -/
def name : PortType → String
  | exec => "Exec"
  | bool => "Bool"
  | int => "Int"
  | float => "Float"
  | vector3 => "Vector3"
  | string => "String"
  | entity => "Entity"
  | any => "Any"

def ofName? (s : String) : Option PortType := all.find? (·.name = s)

def kind : PortType → PortKind
  | exec => .executionLink
  | _ => .data

/-- Whether a source of the first type may be linked to a target of the second. -/
def feeds : PortType → PortType → Bool
  | exec, exec => true
  | exec, _ | _, exec => false
  | any, _ | _, any => true
  | int, float | float, int => true
  | float, vector3 => true
  | _, string => true
  | a, b => a = b

/-- **Control flow links only to control flow.** -/
theorem feeds_exec_iff {a b : PortType} (h : a.feeds b = true) : a = exec ↔ b = exec := by
  cases a <;> cases b <;> simp_all [feeds]

end PortType

/-! ## 2. Values -/

/-- What a data port holds. -/
inductive Value
  | bool (b : Bool)
  | int (n : Int32)
  | float (x : Single)
  | vector3 (x y z : Single)
  | string (s : String)
  | entity (id : UInt64)
deriving DecidableEq

namespace Value

instance : Inhabited Value := ⟨bool false⟩

def type : Value → PortType
  | bool _ => .bool
  | int _ => .int
  | float _ => .float
  | vector3 .. => .vector3
  | string _ => .string
  | entity _ => .entity

/-- The number a value stands for; whole numbers are rounded to single precision. -/
def asFloat? : Value → Option Single
  | float x => some x
  | int n => some (Single.ofInt n.toInt)
  | _ => none

/-- The whole number a value stands for; fractions are cut off. -/
def asInt? : Value → Option Int32
  | int n => some n
  | float x => some x.toInt32
  | _ => none

def asBool? : Value → Option Bool
  | bool b => some b
  | _ => none

def asString? : Value → Option String
  | string s => some s
  | _ => none

def asEntity? : Value → Option UInt64
  | entity id => some id
  | _ => none

/-- The decimal text of an integer. -/
def intText (n : Int) : String :=
  if n < 0 then "-" ++ String.ofList (Nat.toDigits 10 n.natAbs)
  else String.ofList (Nat.toDigits 10 n.natAbs)

def floatText (x : Single) : String := String.ofList x.shortestText

/-- A value as text: what a text input shows. -/
def toText : Value → String
  | bool b => if b then "true" else "false"
  | int n => intText n.toInt
  | float x => floatText x
  | vector3 x y z => "(" ++ floatText x ++ ", " ++ floatText y ++ ", " ++ floatText z ++ ")"
  | string s => s
  | entity id => "Entity(" ++ intText id.toNat ++ ")"

/-- Equality of values with numbers compared as numbers: a value that holds a NaN differs from
itself. -/
def equal : Value → Value → Bool
  | float x, float y => x.equal y
  | vector3 a b c, vector3 x y z => a.equal x && b.equal y && c.equal z
  | v, w => v = w

end Value

end FlowScript
