/-
# Quoted text

Text is written between double quotes.  Quotes, the backslash and four controls have escapes of
their own; a character that would not show is written by its number in hexadecimal.  Reading knows
these escapes, escapes for single bytes, and raw text between quotes with number signs around them,
which has no escapes.

Single bytes above 127 have to spell out the UTF-8 form of one character; in byte strings they stand
for themselves.  Text that is not closed is told from text with a faulty escape, because a look
ahead passes over the second but not over the first.
-/
import FlowScript.Text.Hex
import FlowScript.Tree.Scan

namespace FlowScript.Tree

/-! ## 1. Writing -/

/-- A character as quoted text shows it. -/
def escapeChar (c : Char) : List Char :=
  if c = '\x00' then ['\\', '0']
  else if c = '\t' then ['\\', 't']
  else if c = '\r' then ['\\', 'r']
  else if c = '\n' then ['\\', 'n']
  else if c = '\'' then ['\\', '\'']
  else if c = '"' then ['\\', '"']
  else if c = '\\' then ['\\', '\\']
  else if Text.isEscaped c then
    ['\\', 'u', '\x7b'] ++ Text.hexText c.toNat ++ ['\x7d']
  else [c]

/-- Text between quotes. -/
def quote (s : String) : List Char := '"' :: s.toList.flatMap escapeChar ++ ['"']

/-! ## 2. Characters by number -/

/-- The character with a given code point; surrogates have none. -/
def charOfCode? (n : Nat) : Option Char := if n.isValidChar then some (Char.ofNat n) else none

/-- Takes two hexadecimal digits. -/
def hexByte : Reader Nat
  | a :: b :: cs => do
    let high ← Text.hexValue? a
    let low ← Text.hexValue? b
    some (16 * high + low, cs)
  | _ => none

/-- How many bytes follow the first byte of a character, the bits that byte gives, and the least
code point that needs as many. -/
def leadByte? (b : Nat) : Option (Nat × Nat × Nat) :=
  if b < 0x80 then some (0, b, 0)
  else if 0xC0 ≤ b ∧ b < 0xE0 then some (1, b - 0xC0, 0x80)
  else if 0xE0 ≤ b ∧ b < 0xF0 then some (2, b - 0xE0, 0x800)
  else if 0xF0 ≤ b ∧ b < 0xF8 then some (3, b - 0xF0, 0x10000)
  else none

/-- Takes the escapes of further bytes of a character. -/
def moreBytes : Nat → Nat → Reader Nat
  | 0, code, cs => some (code, cs)
  | n + 1, code, cs => do
    let cs ← token ['\\', 'x'] cs
    let (b, cs) ← hexByte cs
    if 0x80 ≤ b ∧ b < 0xC0 then moreBytes n (64 * code + (b - 0x80)) cs else none

/-- Takes the digits of a byte escape, and the escapes of the bytes that belong to it. -/
def utf8Byte : Reader Char := fun cs => do
  let (b, cs) ← hexByte cs
  let (count, bits, least) ← leadByte? b
  let (code, cs) ← moreBytes count bits cs
  let c ← if least ≤ code then charOfCode? code else none
  some (c, cs)

/-- Takes the digits of a byte escape that is a character of its own. -/
def asciiByte : Reader Char := fun cs => do
  let (b, cs) ← hexByte cs
  if b < 0x80 then some (Char.ofNat b, cs) else none

/-- Takes the digits of a byte escape that stands for any byte. -/
def anyByte : Reader Char := fun cs => (hexByte cs).map fun r => (Char.ofNat r.1, r.2)

/-- Takes a code point of one to six digits in braces. -/
def codeEscape : Reader Char := fun cs => do
  let cs ← token ['\x7b'] cs
  let digits := (cs.take 6).takeWhile (· ≠ '\x7d')
  let cs ← token ['\x7d'] (cs.drop digits.length)
  if digits = [] then none
  else
    let c ← (Text.hexNat? digits).bind charOfCode?
    some (c, cs)

/-! ## 3. Escapes -/

/-- The characters with an escape of one letter. -/
def letterEscape? (c : Char) : Option Char :=
  if c = '\'' ∨ c = '"' ∨ c = '\\' then some c
  else if c = 'n' then some '\n'
  else if c = 'r' then some '\r'
  else if c = 't' then some '\t'
  else if c = '0' then some '\x00'
  else none

/-- Takes what follows a backslash, given what byte and code point escapes stand for. -/
def escape (byte code : Reader Char) : Reader Char
  | [] => none
  | c :: cs =>
    if c = 'x' then byte cs
    else if c = 'u' then code cs
    else (letterEscape? c).map (·, cs)

/-! ## 4. Text -/

/-- Why quoted text cannot be read. -/
inductive QuoteFlaw
  | unclosed
  /-- An escape is faulty, or there is no quote to start with. -/
  | malformed
deriving DecidableEq

/-- Takes quoted text from the front of a text. -/
abbrev QuoteReader := List Char → Except QuoteFlaw (List Char × List Char)

/-- Takes characters and escapes up to a double quote.  A text is not closed if no quote follows,
even if one of its escapes is faulty. -/
def quotedUpTo (byte : Reader Char) : (budget : List Char) → QuoteReader
  | [], _ => .error .unclosed
  | _ :: _, [] => .error .unclosed
  | _ :: budget, c :: cs =>
    if c = '"' then .ok ([], cs)
    else if c = '\\' then
      match escape byte codeEscape cs with
      | some (a, cs) => (quotedUpTo byte budget cs).map fun r => (a :: r.1, r.2)
      | none => .error (if '"' ∈ cs then .malformed else .unclosed)
    else (quotedUpTo byte budget cs).map fun r => (c :: r.1, r.2)

/-- Takes the rest of a quoted text. -/
def quoted (byte : Reader Char) : QuoteReader := fun cs => quotedUpTo byte ('"' :: cs) cs

/-- Takes everything before a given text, and that text. -/
def upTo (stop : List Char) : Reader (List Char)
  | [] => none
  | c :: cs =>
    match token stop (c :: cs) with
    | some rest => some ([], rest)
    | none => (upTo stop cs).map fun r => (c :: r.1, r.2)

/-- Takes the rest of a raw text: number signs, a quote, and all up to a quote with as many number
signs. -/
def raw : QuoteReader := fun cs =>
  let signs := cs.takeWhile (· = '#')
  match token ['"'] (cs.drop signs.length) with
  | none => .error .malformed
  | some cs =>
    match upTo ('"' :: signs) cs with
    | some r => .ok r
    | none => .error .unclosed

/-- Takes a quoted or raw text. -/
def anyQuoted (byte : Reader Char) : QuoteReader
  | [] => .error .malformed
  | c :: cs =>
    if c = '"' then quoted byte cs else if c = 'r' then raw cs else .error .malformed

/-- Takes a text. -/
def quotedText : QuoteReader := anyQuoted utf8Byte

/-- Takes a byte string, whose content nothing in a document asks for. -/
def byteString : QuoteReader := fun cs =>
  match token ['b'] cs with
  | none => .error .malformed
  | some cs => anyQuoted anyByte cs

/-- Takes a text as a value. -/
def string : Reader String := fun cs =>
  match quotedText cs with
  | .ok (s, rest) => some (String.ofList s, rest)
  | .error _ => none

/-! ## 5. Single characters -/

/-- Takes one character or escape and a single quote. -/
def charBefore (byte code : Reader Char) : Reader Char
  | [] => none
  | c :: cs => do
    let (a, cs) ← if c = '\\' then escape byte code cs else some (c, cs)
    let cs ← token ['\''] cs
    some (a, cs)

/-- Takes a single character between single quotes. -/
def character : Reader Char := fun cs => do
  let cs ← token ['\''] cs
  charBefore asciiByte codeEscape cs

/-- Takes a single byte between single quotes; it cannot be given by a code point. -/
def byteLiteral : Reader Char := fun cs => do
  let cs ← token ['b', '\''] cs
  let (c, rest) ← charBefore anyByte (fun _ => none) cs
  if c.toNat < 0x80 ∨ cs.head? = some '\\' then some (c, rest) else none

end FlowScript.Tree
