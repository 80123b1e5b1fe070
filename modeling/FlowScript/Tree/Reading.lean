/-
# Reading trees

What a text means depends on what is asked for: the same characters may be a whole or a fractional
number, and a value may stand for an optional one.  A `Shape` says what is asked for, and `read`
takes a tree of that shape from a text.  The tree holds the declared names of types, whether the
text spells them out or not, and those fields of a record that the shape knows.

The head of a text may enable extensions; behind the tree nothing but blanks and comments may
follow.
-/
import FlowScript.Tree.Basic
import FlowScript.Tree.Skip

namespace FlowScript

/-- What a tree is asked to be. -/
inductive Shape
  | bool
  | text
  | whole (type : Tree.WholeType)
  | single
  /-- A tuple of as many numbers of single precision. -/
  | singles (count : Nat)
  | optional (s : Shape)
  | list (s : Shape)
  | map (key value : Shape)
  /-- A one-item tuple with the name of its type. -/
  | wrapper (name : String) (s : Shape)
  /-- A record with the name of its type; fields that are not listed are dropped. -/
  | record (name : String) (fields : List (String × Shape))
  /-- One of some names, or one of some others with a payload. -/
  | variant (names : List String) (payloads : List (String × Shape))

instance : Inhabited Shape := ⟨.bool⟩

namespace Tree

/-! ## 1. Single values -/

def readBool : Reader Tree := fun cs =>
  match keyword ['t', 'r', 'u', 'e'] cs with
  | some cs => some (.bool true, cs)
  | none => (keyword ['f', 'a', 'l', 's', 'e'] cs).map fun cs => (.bool false, cs)

def readText : Reader Tree := fun cs => (string cs).map fun r => (.text r.1, r.2)

def readWhole (type : WholeType) : Reader Tree := fun cs =>
  (wholeNumber type cs).map fun r => (.whole r.1, r.2)

def readSingle : Reader Tree := fun cs => (singleNumber cs).map fun r => (.single r.1, r.2)

/-! ## 2. Tuples and optional values -/

/-- Takes numbers with commas between them, and possibly one behind the last. -/
def singlesOf : Nat → Reader (List Tree)
  | 0, cs => some ([], cs)
  | n + 1, cs => do
    let cs ← blanks cs
    let (t, cs) ← readSingle cs
    let cs ← blanks cs
    let cs ← match token [','] cs with
      | some cs => blanks cs
      | none => if n = 0 then some cs else none
    let (ts, cs) ← singlesOf n cs
    some (t :: ts, cs)

/-- Takes what stands in parentheses; a bare payload has none of its own. -/
def enclosed {α : Type} (bare : Bool) (body : Reader α) : Reader α := fun cs =>
  if bare then body cs
  else do
    let cs ← token ['('] cs
    let (a, cs) ← body cs
    let cs ← token [')'] cs
    some (a, cs)

/-- Takes an optional value.  Where a value may stand for `Some` of it, the keyword may also stand
without parentheses. -/
def readOptional (x : Extensions) (inner : (bare : Bool) → Reader Tree) : Reader Tree := fun cs =>
  match keyword ['N', 'o', 'n', 'e'] cs with
  | some cs => some (.absent, cs)
  | none => do
    let someWord? := keyword ['S', 'o', 'm', 'e'] cs
    let cs ← someWord?.elim (some cs) blanks
    let (t, cs) ←
      if someWord?.isSome ∧ cs.head? = some '(' then
        parenthesized (inner x.unwrapVariantNewtypes) cs
      else if x.implicitSome then inner false cs
      else none
    some (.present t, cs)

/-! ## 3. Names of types -/

/-- Takes the name of a type, which may be left out unless the text demands it, and the blanks
behind it. -/
def typeName (x : Extensions) (type : String) (cs : List Char) : Option (List Char) :=
  if cs.head?.any Text.isIdentContinue then do
    let (found, cs) ← properName cs
    if found = type then blanks cs else none
  else if x.explicitStructNames then none
  else blanks cs

/-- Takes a one-item tuple of a type, or the item alone where it may stand for that. -/
def readWrapper (x : Extensions) (type : String) (bare : Bool) (inner : Reader Tree) :
    Reader Tree := fun cs => do
  let (t, cs) ←
    if x.unwrapNewtypes ∨ bare then inner cs
    else do
      let cs ← typeName x type cs
      parenthesized inner cs
  some (.tuple (some type) [t], cs)

/-! ## 4. Records and variants -/

/-- Takes a field: one that is known by its own reader, any other by dropping its value. -/
def readField (known : List (String × Reader Tree)) (other : Reader Unit) :
    Reader (Option (String × Tree)) := fun cs => do
  let (key, cs) ← properName cs
  let cs ← colon cs
  match known.lookup key with
  | some field =>
    let (t, cs) ← field cs
    some (some (key, t), cs)
  | none =>
    let (_, cs) ← other cs
    some (none, cs)

/-- Takes the fields of a record; one that is known may stand there once. -/
def readFields (known : List (String × Reader Tree)) (other : Reader Unit) :
    Reader (List (String × Tree)) := fun cs => do
  let (fields, cs) ← itemsBefore (readField known other) ')' cs
  let fields := fields.filterMap id
  if (fields.map Prod.fst).Nodup then some (fields, cs) else none

/-- Takes a record of a type. -/
def readRecord (x : Extensions) (type : String) (bare : Bool)
    (known : List (String × Reader Tree)) (other : Reader Unit) : Reader Tree := fun cs => do
  let cs ← if bare then some cs else typeName x type cs
  let (fields, cs) ← enclosed bare (readFields known other) cs
  some (.record (some type) fields, cs)

/-- Takes a variant: a name that stands alone, or one with its payload. -/
def readVariant (names : List String) (payloads : List (String × Reader Tree)) : Reader Tree :=
  fun cs => do
    let (s, cs) ← properName cs
    if s ∈ names then some (.unit s, cs)
    else
      let payload ← payloads.lookup s
      let cs ← blanks cs
      let (t, cs) ← parenthesized payload cs
      some (.tuple (some s) [t], cs)

/-! ## 5. Shapes -/

mutual

/-- Takes a tree of a given shape.  A shape is as deep as the type it stands for, so the number of
levels only bounds the values that are dropped.  A bare payload may leave out its own name and
parentheses. -/
def readAs (x : Extensions) : Shape → (levels : Nat) → (bare : Bool) → Reader Tree
  | .bool, _, _ => readBool
  | .text, _, _ => readText
  | .whole type, _, _ => readWhole type
  | .single, _, _ => readSingle
  | .singles count, _, bare => fun cs =>
    (enclosed bare (singlesOf count) cs).map fun r => (.tuple none r.1, r.2)
  | .optional s, levels, _ => readOptional x (readAs x s (levels - 1))
  | .list s, levels, _ => fun cs => do
    let cs ← token ['['] cs
    let (ts, cs) ← items (readAs x s (levels - 2) false) ']' cs
    some (.list ts, cs)
  | .map key value, levels, _ => fun cs => do
    let cs ← token ['\x7b'] cs
    let (es, cs) ←
      items (entry (readAs x key (levels - 2) false) (readAs x value (levels - 2) false)) '\x7d' cs
    some (.map es, cs)
  | .wrapper type s, levels, bare => readWrapper x type bare (readAs x s (levels - 1) false)
  | .record type fields, levels, bare =>
    readRecord x type bare (readersAs x fields (levels - 2) false) (skipValue x (levels - 2) false)
  | .variant names payloads, levels, _ =>
    readVariant names (readersAs x payloads (levels - 1) x.unwrapVariantNewtypes)

/-- The readers of named shapes. -/
def readersAs (x : Extensions) :
    List (String × Shape) → (levels : Nat) → (bare : Bool) → List (String × Reader Tree)
  | [], _, _ => []
  | (s, shape) :: rest, levels, bare =>
    (s, readAs x shape levels bare) :: readersAs x rest levels bare

end

/-- How many levels a text may nest. -/
def maxDepth : Nat := 128

/-- Reads a whole text as a tree of a given shape. -/
def read (shape : Shape) (text : String) : Option Tree := do
  let (x, cs) ← head text.toList
  let (t, cs) ← readAs x shape maxDepth false cs
  let cs ← blanks cs
  if cs = [] then some t else none

end Tree

end FlowScript
