/-
# Skipping values

A record may hold fields that nobody asks for.  Their values are read by the plain rules of the
format, without a type to go by, and dropped.

Nesting is bounded here.  Opening a bracket and reading an element of it both count, so that an
element stands two levels below its list; the payload of an optional value stands one level below
it.  `skipBy` skips one value with given readers for both lower levels, and `skipValue` ties the
knot over the number of levels left.

Where payloads may leave out their own parentheses, a look ahead decides what stands inside those
of `Some`: the fields of a record, the items of a tuple, or a single value.
-/
import FlowScript.Tree.Extensions
import FlowScript.Tree.Literal
import FlowScript.Tree.Quoted

namespace FlowScript.Tree

/-! ## 1. The look ahead -/

/-- What stands between the parentheses of a payload. -/
inductive PayloadKind
  | fields
  | items
  | value
deriving DecidableEq

/-- Whether items follow a comma, or a single value has ended with it. -/
def kindAfterComma (cs : List Char) : Option PayloadKind := do
  let cs ← blanks cs
  some (if cs.head? = some ')' then .value else .items)

/-- Passes over a quoted text if one stands here.  One that is not closed fails, and one with a
faulty escape is not passed over. -/
def passQuoted (read : QuoteReader) (cs : List Char) : Option (List Char) :=
  match read cs with
  | .ok (_, rest) => some rest
  | .error .unclosed => none
  | .error .malformed => some cs

/-- Passes over blanks, and over a character, a text and a byte string that may stand here. -/
def passOpaque (cs : List Char) : Option (List Char) := do
  let cs ← blanks cs
  let cs := (character cs).elim cs Prod.snd
  let cs ← passQuoted quotedText cs
  passQuoted byteString cs

/-- Looks for a comma inside a given number of brackets, of which the first is that of the
payload. -/
def scanPayload : (budget : List Char) → (brackets : Nat) → List Char → Option PayloadKind
  | [], _, _ => none
  | _ :: budget, brackets, cs => do
    match ← passOpaque cs with
    | [] => none
    | c :: cs =>
      if c = '(' ∨ c = '[' ∨ c = '\x7b' then scanPayload budget (brackets + 1) cs
      else if c = ')' ∨ c = ']' ∨ c = '\x7d' then
        if brackets ≤ 1 then some .value else scanPayload budget (brackets - 1) cs
      else if c = ',' ∧ brackets = 1 then kindAfterComma cs
      else scanPayload budget brackets cs

/-- What the payload at the front of a text is. -/
def payloadKind (cs : List Char) : Option PayloadKind := do
  let cs ← blanks cs
  match name cs with
  | none => scanPayload (')' :: cs) 1 cs
  | some (_, cs) =>
    let cs ← blanks cs
    match cs with
    | ':' :: _ => some .fields
    | ',' :: cs => kindAfterComma cs
    | ')' :: _ => some .value
    | cs => scanPayload (')' :: cs) 1 cs

/-! ## 2. Values -/

/-- Whether a name with a colon stands first, which tells a record. -/
def startsField (cs : List Char) : Option Bool := do
  let cs ← blanks cs
  match name cs with
  | some (_, rest) => (blanks rest).map fun rest => rest.head? == some ':'
  | none => some false

/-- Drops what a reader has read. -/
def dropped {α : Type} (read : Reader α) : Reader Unit := fun cs => (read cs).map fun r => ((), r.2)

/-- The fields of a record or the items of a tuple, before their closing parenthesis. -/
def bodyOf (item : Reader Unit) (isRecord : Bool) : Reader Unit :=
  if isRecord then dropped (itemsBefore (entry properName item) ')')
  else dropped (itemsBefore item ')')

/-- A tuple or record after its opening parenthesis. -/
def skipBody (item : Reader Unit) : Reader Unit := fun cs => do
  let (_, cs) ← bodyOf item (← startsField cs) cs
  some ((), cs.tail)

/-- An optional value after its keyword. -/
def skipOption (x : Extensions) (inner : (bare : Bool) → Reader Unit) : Reader Unit := fun cs => do
  let cs ← blanks cs
  if cs.head? = some '(' then parenthesized (inner x.unwrapVariantNewtypes) cs
  else if x.implicitSome then inner false cs
  else none

/-- A value that its first character announces. -/
def skipByFirst (opens : Bool) (item : Reader Unit) : Reader Unit
  | [] => none
  | c :: cs =>
    if c = '(' then if opens then skipBody item cs else none
    else if c = '[' then if opens then dropped (items item ']') cs else none
    else if c = '\x7b' then if opens then dropped (items (entry item item) '\x7d') cs else none
    else if c.isDigit ∨ c = '+' ∨ c = '-' ∨ c = '.' then anyNumber (c :: cs)
    else if c = '"' ∨ c = 'r' then dropped string (c :: cs)
    else if c = '\'' then dropped character (c :: cs)
    else
      match byteLiteral (c :: cs), byteString (c :: cs) with
      | some (_, rest), _ => some ((), rest)
      | none, .ok (_, rest) => some ((), rest)
      | none, .error _ => none

/-- What follows a name: a tuple, a record, or nothing. -/
def skipNamed (opens : Bool) (item : Reader Unit) : Reader Unit := fun cs => do
  let cs ← blanks cs
  match token ['('] cs with
  | some cs => if opens then skipBody item cs else none
  | none => some ((), cs)

/-- The words that are values of their own. -/
def valueWords : List String := ["true", "false", "None"]

/-- A value, given whether there is a level left for brackets and how values one and two levels
below it are skipped. -/
def skipBy (x : Extensions) (opens : Bool) (inner : (bare : Bool) → Reader Unit)
    (item : Reader Unit) : Reader Unit := fun cs =>
  match valueWords.findSome? fun word => keyword word.toList cs with
  | some rest => some ((), rest)
  | none =>
  match keyword ['S', 'o', 'm', 'e'] cs with
  | some rest => if opens then skipOption x inner rest else none
  | none =>
  match token ['(', ')'] cs with
  | some rest => some ((), rest)
  | none =>
  match fractionWord cs with
  | some (_, rest) => some ((), rest)
  | none =>
  match name cs with
  | some (_, rest) => skipNamed opens item rest
  | none => skipByFirst opens item cs

/-- A payload that may leave out its own parentheses, before those of its variant close. -/
def skipBare (opens : Bool) (item plain : Reader Unit) : Reader Unit := fun cs =>
  if cs.head? = some ')' then some ((), cs)
  else
    match payloadKind cs with
    | none => none
    | some .value => plain cs
    | some .fields => if opens then bodyOf item true cs else none
    | some .items => if opens then bodyOf item false cs else none

/-- Skips either a plain value or a bare payload. -/
def skipEither (x : Extensions) (opens : Bool) (inner : (bare : Bool) → Reader Unit)
    (item : Reader Unit) (bare : Bool) : Reader Unit :=
  let plain := skipBy x opens inner item
  if bare then skipBare opens item plain else plain

/-- Skips a value that may nest a given number of levels. -/
def skipValue (x : Extensions) : Nat → (bare : Bool) → Reader Unit
  | 0 => skipEither x false (fun _ _ => none) (fun _ => none)
  | 1 => skipEither x true (skipValue x 0) (fun _ => none)
  | n + 2 => skipEither x true (skipValue x (n + 1)) (skipValue x n false)

end FlowScript.Tree
