/-
# Extensions of the text format

A text may start with lines that enable extensions.  They widen what the reader accepts, except for
one that narrows it; the writer uses none of them.
-/
import FlowScript.Tree.Scan

namespace FlowScript

/-- What the head of a text allows beyond the plain format. -/
structure Extensions where
  /-- A value may stand for a one-item tuple with the name of its type. -/
  unwrapNewtypes : Bool
  /-- A value may stand for `Some` of it. -/
  implicitSome : Bool
  /-- The payload of a variant may leave out its own name and parentheses. -/
  unwrapVariantNewtypes : Bool
  /-- A record has to carry its name. -/
  explicitStructNames : Bool
deriving DecidableEq

namespace Extensions

/-- The format as it is without an extension. -/
def plain : Extensions := ⟨false, false, false, false⟩

instance : Inhabited Extensions := ⟨plain⟩

/-- Switches the extension of a given name on. -/
def enable? (x : Extensions) (name : String) : Option Extensions :=
  if name = "unwrap_newtypes" then some { x with unwrapNewtypes := true }
  else if name = "implicit_some" then some { x with implicitSome := true }
  else if name = "unwrap_variant_newtypes" then some { x with unwrapVariantNewtypes := true }
  else if name = "explicit_struct_names" then some { x with explicitStructNames := true }
  else none

end Extensions

namespace Tree

/-- Takes a line that enables extensions, after its number sign; it has to name at least one. -/
def enableLine : Reader (List String) := fun cs => do
  let cs ← tokens [['!'], ['['], "enable".toList, ['(']] cs
  let (names, cs) ← items properName ')' cs
  let cs ← blanks cs
  let cs ← tokens [[']']] cs
  if names = [] then none else some (names, cs)

/-- Takes lines that enable extensions. -/
def headUpTo : (budget : List Char) → Extensions → Reader Extensions
  | [], _, _ => none
  | _ :: budget, x, cs =>
    match token ['#'] cs with
    | some cs => do
      let cs ← blanks cs
      let (names, cs) ← enableLine cs
      let x ← names.foldlM Extensions.enable? x
      headUpTo budget x cs
    | none => some (x, cs)

/-- Takes the lines at the head of a text, and the blanks around them. -/
def head : Reader Extensions := fun cs => do
  let cs ← blanks cs
  headUpTo ('#' :: cs) .plain cs

end Tree

end FlowScript
