/-
# Trees as typed values

What a document takes from a tree that has been read: a truth value, a text, a number, a list, the
fields of a record.  Each view refuses every tree of another form.
-/
import FlowScript.Tree.Basic

namespace FlowScript.Tree

/-! ## 1. Single values -/

def asBool? : Tree → Option Bool
  | .bool b => some b
  | _ => none

def asText? : Tree → Option String
  | .text s => some s
  | _ => none

def asWhole? : Tree → Option Int
  | .whole n => some n
  | _ => none

def asSingle? : Tree → Option Single
  | .single x => some x
  | _ => none

/-- A name that stands alone. -/
def asName? : Tree → Option String
  | .unit s => some s
  | _ => none

/-! ## 2. Lists, maps and tuples -/

def asList? : Tree → Option (List Tree)
  | .list items => some items
  | _ => none

def asMap? : Tree → Option (List (Tree × Tree))
  | .map entries => some entries
  | _ => none

/-- The numbers in a tuple without a name. -/
def asSingles? : Tree → Option (List Single)
  | .tuple none items => items.mapM asSingle?
  | _ => none

/-- An optional value. -/
def asOption? : Tree → Option (Option Tree)
  | .absent => some none
  | .present t => some (some t)
  | _ => none

/-- A one-item tuple with its name: a wrapped value, or a variant with its payload. -/
def asNamed? : Tree → Option (String × Tree)
  | .tuple (some name) [t] => some (name, t)
  | _ => none

/-! ## 3. Records -/

def asRecord? : Tree → Option (List (String × Tree))
  | .record _ fields => some fields
  | _ => none

/-- A field that has to be there. -/
def required {α : Type} (fields : List (String × Tree)) (key : String) (view : Tree → Option α) :
    Option α := (fields.lookup key).bind view

/-- A field that may be missing. -/
def optionalField {α : Type} (fields : List (String × Tree)) (key : String)
    (view : Tree → Option α) (missing : α) : Option α :=
  (fields.lookup key).elim (some missing) view

end FlowScript.Tree
