/-
# Writing trees

Lists, maps and records put every element on a line of its own, four blanks deeper than the line
they start on, with a comma after each; empty ones are closed at once.  Tuples, optional values and
names stay on their line.  No line break ends the text.
-/
import FlowScript.Tree.Basic
import FlowScript.Tree.Literal
import FlowScript.Tree.Quoted

namespace FlowScript.Tree

/-- A line break and the blanks of a nesting depth. -/
def newline (depth : Nat) : List Char := '\n' :: List.replicate (4 * depth) ' '

/-- Puts lines between brackets, each one level deeper and with a comma behind it. -/
def block (depth : Nat) (opening closing : Char) (lines : List (List Char)) : List Char :=
  if lines = [] then [opening, closing]
  else
    opening :: lines.flatMap (fun l => newline (depth + 1) ++ l ++ [',']) ++ newline depth ++
      [closing]

/-- Puts a comma and a blank between texts. -/
def commaSeparated : List (List Char) → List Char
  | [] => []
  | [l] => l
  | l :: ls => l ++ ',' :: ' ' :: commaSeparated ls

/-- An optional name. -/
def nameText (name : Option String) : List Char := name.elim [] String.toList

mutual

/-- The text of a tree that starts on a line of a given depth. -/
def write (depth : Nat) : Tree → List Char
  | .bool b => if b then ['t', 'r', 'u', 'e'] else ['f', 'a', 'l', 's', 'e']
  | .whole n => wholeText n
  | .single x => singleText x
  | .text s => quote s
  | .absent => ['N', 'o', 'n', 'e']
  | .present t => ['S', 'o', 'm', 'e', '('] ++ write depth t ++ [')']
  | .list items => block depth '[' ']' (writeAll (depth + 1) items)
  | .map entries => block depth '\x7b' '\x7d' (writeEntries (depth + 1) entries)
  | .unit name => name.toList
  | .tuple name items => nameText name ++ '(' :: commaSeparated (writeAll depth items) ++ [')']
  | .record name fields => nameText name ++ block depth '(' ')' (writeFields (depth + 1) fields)

/-- The texts of some trees. -/
def writeAll (depth : Nat) : List Tree → List (List Char)
  | [] => []
  | t :: ts => write depth t :: writeAll depth ts

/-- The texts of the entries of a map. -/
def writeEntries (depth : Nat) : List (Tree × Tree) → List (List Char)
  | [] => []
  | (k, v) :: es => (write depth k ++ ':' :: ' ' :: write depth v) :: writeEntries depth es

/-- The texts of the fields of a record. -/
def writeFields (depth : Nat) : List (String × Tree) → List (List Char)
  | [] => []
  | (k, v) :: fs => (k.toList ++ ':' :: ' ' :: write depth v) :: writeFields depth fs

end

/-- The text of a tree. -/
def toText (t : Tree) : String := String.ofList (write 0 t)

end FlowScript.Tree
