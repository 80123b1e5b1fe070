/-
# Scheduled events

An event to raise before a tick is written `name@tick` or `name@tick=value`.  The name ends at the
first `@`, the tick at the first `=` after it; a value that reads as a number is one, any other is
text.
-/
import FlowScript.Value

namespace FlowScript.Runner

/-- An event to raise before a tick. -/
structure ScheduledEvent where
  name : String
  tick : UInt64
  payload : Option Value
deriving DecidableEq

/-! ## 1. Numbers -/

/-- Why a text is no 64-bit number. -/
inductive NumberError
  | empty
  | invalidDigit
  | tooLarge
deriving DecidableEq

def NumberError.message : NumberError → String
  | empty => "cannot parse integer from empty string"
  | invalidDigit => "invalid digit found in string"
  | tooLarge => "number too large to fit in target type"

/-- Reads decimal digits from the left onto a number; the first digit that is none, or that leads
beyond 64 bits, decides the error. -/
def readDigits (n : Nat) : List Char → Except NumberError UInt64
  | [] => .ok (UInt64.ofNat n)
  | c :: cs =>
    if c.isDigit then
      let m := 10 * n + (c.toNat - 48)
      if m < UInt64.size then readDigits m cs else .error .tooLarge
    else .error .invalidDigit

/-- Reads a number from decimal digits with an optional plus sign. -/
def parseNumber : List Char → Except NumberError UInt64
  | [] => .error .empty
  | c :: cs => readDigits 0 (if c = '+' ∧ cs ≠ [] then cs else c :: cs)

/-! ## 2. Events -/

/-- Splits a text at the first occurrence of a character. -/
def splitOnce (c : Char) : List Char → Option (List Char × List Char)
  | [] => none
  | a :: cs => if a = c then some ([], cs) else (splitOnce c cs).map fun r => (a :: r.1, r.2)

/-- Why a text is no scheduled event. -/
inductive EventError
  | noTick (text : String)
  | emptyName
  | invalidTick (tick : String) (e : NumberError)
deriving DecidableEq

def EventError.message : EventError → String
  | noTick text => "expected name@tick, got '" ++ text ++ "'"
  | emptyName => "event name is empty"
  | invalidTick tick e => "invalid tick '" ++ tick ++ "': " ++ e.message

/-- The payload that a text stands for. -/
def payloadOf (cs : List Char) : Value :=
  (Single.ofText? cs).elim (.string (String.ofList cs)) .float

/-- Reads a scheduled event. -/
def parseEvent (text : String) : Except EventError ScheduledEvent :=
  match splitOnce '@' text.toList with
  | none => .error (.noTick text)
  | some (name, rest) =>
    if name = [] then .error .emptyName
    else
      let (tick, payload) := match splitOnce '=' rest with
        | some (tick, v) => (tick, some (payloadOf v))
        | none => (rest, none)
      match parseNumber tick with
      | .error e => .error (.invalidTick (String.ofList tick) e)
      | .ok n => .ok ⟨String.ofList name, n, payload⟩

end FlowScript.Runner
