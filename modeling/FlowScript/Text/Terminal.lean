/-
# Text and terminals

A terminal acts on some characters instead of showing them.  Text that comes from outside is made
harmless in one of two ways before it is printed:

* a **log** shows the characters that a terminal acts on by their numbers (`showControls`);
* a **message** leaves them out, whole control sequences included (`stripControls`).

A control sequence starts with an escape character.  Most end with a letter; a command for the
operating system ends with a bell, and a string sequence with a character that has the byte `0x9C`.
Another escape character starts anew, and two controls cancel any sequence.

Layout inside a short sequence is still carried out.  It holds the sequence up: what follows is
printed until the next control or non-ASCII character, and the sequence goes on after a control.
-/
import FlowScript.Text.Hex

namespace FlowScript.Text

/-! ## 1. Showing controls -/

/-- The controls below 128 that are shown by their numbers: bell, backspace, form feed, escape and
delete. -/
def shownControls : List Nat := [0x07, 0x08, 0x0c, 0x1b, 0x7f]

/-- A character as a log shows it. -/
def showControl (c : Char) : List Char :=
  if shownControls.contains c.toNat then '\\' :: 'x' :: hexDigits 2 c.toNat
  else if 0x80 ≤ c.toNat ∧ c.toNat < 0xa0 then
    ['\\', 'u', '\x7b'] ++ hexText c.toNat ++ ['\x7d']
  else [c]

/-- Text as a log shows it. -/
def showControls (s : String) : String := String.ofList (s.toList.flatMap showControl)

/-! ## 2. Leaving controls out -/

/-- Where in a control sequence a character stands. -/
inductive Sequence
  /-- In none. -/
  | ground
  /-- After the escape character. -/
  | escape
  /-- After the escape character and characters that go with its command. -/
  | command
  /-- In a sequence with parameters. -/
  | parameters
  /-- In a command for the operating system. -/
  | system
  /-- After the start of a device control. -/
  | device
  /-- In the parameters of a device control. -/
  | deviceParameters
  /-- Between the parameters of a device control and the letter that opens its string. -/
  | deviceCommand
  /-- In the string of a string sequence. -/
  | string
deriving DecidableEq

/-- Where a text stands: in a sequence, which may be held up by layout. -/
structure Place where
  sequence : Sequence
  heldUp : Bool

namespace Place

/-- Outside all sequences. -/
def start : Place := ⟨.ground, false⟩

end Place

/-- Whether a control only moves to another place in the text. -/
def isLayout (c : Char) : Bool := c = '\t' || c = '\n' || c = '\x0c' || c = '\r'

/-- Whether the code point of a character is in a range. -/
def within (low high : Nat) (c : Char) : Bool := low ≤ c.toNat && c.toNat ≤ high

/-- Whether the byte `0x9C` is in the UTF-8 form of a character. -/
def hasStringEnd (c : Char) : Bool := (String.singleton c).toUTF8.data.contains 0x9c

/-- What follows the escape character. -/
def afterEscape (c : Char) : Sequence :=
  if c = '[' then .parameters
  else if c = ']' then .system
  else if c = 'P' then .device
  else if c = 'X' ∨ c = '^' ∨ c = '_' then .string
  else if within 0x20 0x2f c then .command
  else if within 0x30 0x7e c then .ground
  else .escape

/-- Where a sequence stands after a character of it. -/
def advance : Sequence → Char → Sequence
  | .ground, _ => .ground
  | .escape, c => afterEscape c
  | .command, c => if within 0x30 0x7e c then .ground else .command
  | .parameters, c => if within 0x40 0x7e c then .ground else .parameters
  | .system, c => if c = '\x07' then .ground else .system
  | .device, c =>
    if within 0x20 0x2f c then .deviceCommand
    else if within 0x30 0x3f c then .deviceParameters
    else if within 0x40 0x7e c then .string
    else .device
  | .deviceParameters, c =>
    if within 0x20 0x2f c then .deviceCommand
    else if within 0x3c 0x7e c then .string
    else .deviceParameters
  | .deviceCommand, c => if within 0x30 0x7e c then .string else .deviceCommand
  | .string, c => if hasStringEnd c then .ground else .string

/-- Whether layout is still carried out inside a sequence. -/
def obeysLayout : Sequence → Bool
  | .ground | .escape | .command | .parameters => true
  | _ => false

/-- Whether a character is printed. -/
def Place.prints (p : Place) (c : Char) : Bool :=
  if isLayout c then p.heldUp || obeysLayout p.sequence
  else (p.heldUp || p.sequence = .ground) && 0x20 ≤ c.toNat && c.toNat ≠ 0x7f

/-- The place after a character. -/
def Place.after (p : Place) (c : Char) : Place :=
  if c = '\x1b' then ⟨.escape, false⟩
  else if c = '\x18' ∨ c = '\x1a' then ⟨.ground, false⟩
  else if p.prints c then ⟨if c.toNat < 0x80 then p.sequence else .ground, true⟩
  else ⟨advance p.sequence c, false⟩

/-- The printed characters of a text that starts at a place. -/
def strip : Place → List Char → List Char
  | _, [] => []
  | p, c :: cs => if p.prints c then c :: strip (p.after c) cs else strip (p.after c) cs

/-- Text without the characters that a terminal acts on. -/
def stripControls (s : String) : String := String.ofList (strip .start s.toList)

end FlowScript.Text
