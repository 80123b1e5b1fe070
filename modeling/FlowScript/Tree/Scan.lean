/-
# Scanning the text format

A reader takes a value from the front of a text and gives back the rest.  This module holds what
lies between values: blanks and comments, single tokens, names, and sequences with commas.

A reader that repeats a step spends one character of a budget on each.  Every step takes a character
of the text, so a budget that is longer than the text never runs out; the text itself, with one
character more, serves as one.
-/
import FlowScript.Text.CharClass

namespace FlowScript.Tree

/-- Takes a value from the front of a text; `none` if there is none. -/
abbrev Reader (α : Type) := List Char → Option (α × List Char)

/-! ## 1. Blanks and comments -/

/-- What is being skipped. -/
inductive Gap
  | blank
  | line
  /-- A block comment inside this many others. -/
  | block (depth : Nat)

/-- Skips to the next token.  A line comment may end with the text; a block comment has to be
closed, and block comments nest. -/
def skip : Gap → List Char → Option (List Char)
  | .blank, '/' :: '/' :: cs => skip .line cs
  | .blank, '/' :: '*' :: cs => skip (.block 0) cs
  | .blank, c :: cs =>
    if c = '/' then none else if Text.isBlank c then skip .blank cs else some (c :: cs)
  | .blank, [] => some []
  | .line, c :: cs => if c = '\n' then skip .blank cs else skip .line cs
  | .line, [] => some []
  | .block depth, '/' :: '*' :: cs => skip (.block (depth + 1)) cs
  | .block 0, '*' :: '/' :: cs => skip .blank cs
  | .block (depth + 1), '*' :: '/' :: cs => skip (.block depth) cs
  | .block depth, _ :: cs => skip (.block depth) cs
  | .block _, [] => none

/-- Skips blanks and comments. -/
def blanks (cs : List Char) : Option (List Char) := skip .blank cs

/-! ## 2. Tokens -/

/-- Takes a given text from the front. -/
def token : List Char → List Char → Option (List Char)
  | [], cs => some cs
  | t :: ts, c :: cs => if t = c then token ts cs else none
  | _ :: _, [] => none

/-- Takes a given word that no character of a name follows. -/
def keyword (word cs : List Char) : Option (List Char) :=
  match token word cs with
  | some (c :: rest) => if Text.isIdentContinue c then none else some (c :: rest)
  | r => r

/-- Takes tokens with blanks behind each. -/
def tokens : List (List Char) → List Char → Option (List Char)
  | [], cs => some cs
  | t :: ts, cs => do
    let cs ← token t cs
    let cs ← blanks cs
    tokens ts cs

/-- Skips blanks, and a comma among them if there is one. -/
def comma (cs : List Char) : Option (List Char) := do
  let cs ← blanks cs
  match token [','] cs with
  | some cs => blanks cs
  | none => some cs

/-! ## 3. Names -/

/-- The marks that start quoted text and so cannot start a name. -/
def quoteMarks : List String := ["b\"", "b'", "br#", "br\"", "r\"", "r#\"", "r##"]

/-- Whether a character may stand in a name that is marked as raw. -/
def isRawContinue (c : Char) : Bool :=
  Text.isIdentContinue c || c = '.' || c = '+' || c = '-'

/-- Takes a name; `r#` marks a raw one and is not part of it. -/
def name : Reader String := fun cs =>
  if quoteMarks.any fun m => (token m.toList cs).isSome then none
  else
    match token ['r', '#'] cs with
    | some rest =>
      let run := rest.takeWhile isRawContinue
      if run = [] then none else some (String.ofList run, rest.drop run.length)
    | none =>
      match cs with
      | [] => none
      | c :: rest =>
        if Text.isIdentStart c then
          let run := rest.takeWhile Text.isIdentContinue
          some (String.ofList (c :: run), rest.drop run.length)
        else none

/-- Takes the name of a field, variant or type: one that could only be read as a raw name is
refused. -/
def properName : Reader String := fun cs =>
  match name cs with
  | some (s, c :: rest) =>
    if c = '.' ∨ c = '+' ∨ c = '-' then none else some (s, c :: rest)
  | r => r

/-! ## 4. Sequences -/

/-- Takes items before a closing character, with a comma between two and possibly after the last
one. -/
def itemsUpTo {α : Type} (item : Reader α) (close : Char) : (budget : List Char) → Reader (List α)
  | [], _ => none
  | _ :: budget, cs => do
    let cs ← blanks cs
    if cs.head? = some close then some ([], cs)
    else
      let (a, cs) ← item cs
      let cs ← blanks cs
      if cs.head? = some close then some ([a], cs)
      else
        let cs ← token [','] cs
        let (items, cs) ← itemsUpTo item close budget cs
        some (a :: items, cs)

/-- Takes all items before a closing character, which stays. -/
def itemsBefore {α : Type} (item : Reader α) (close : Char) : Reader (List α) := fun cs =>
  itemsUpTo item close (close :: cs) cs

/-- Takes all items up to a closing character, and that. -/
def items {α : Type} (item : Reader α) (close : Char) : Reader (List α) := fun cs =>
  (itemsBefore item close cs).map fun r => (r.1, r.2.tail)

/-- Takes a colon with the blanks around it. -/
def colon (cs : List Char) : Option (List Char) := do
  let cs ← blanks cs
  let cs ← token [':'] cs
  blanks cs

/-- Takes a key, a colon and a value. -/
def entry {α β : Type} (key : Reader α) (value : Reader β) : Reader (α × β) := fun cs => do
  let (a, cs) ← key cs
  let cs ← colon cs
  let (b, cs) ← value cs
  some ((a, b), cs)

/-- Takes a value between parentheses, with blanks around it and possibly a comma behind it. -/
def parenthesized {α : Type} (value : Reader α) : Reader α := fun cs => do
  let cs ← tokens [['(']] cs
  let (a, cs) ← value cs
  let cs ← comma cs
  let cs ← token [')'] cs
  some (a, cs)

end FlowScript.Tree
