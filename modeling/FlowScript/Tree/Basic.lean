/-
# Trees of the text format

Documents are stored as the text of a tree: numbers, quoted text, lists, maps, and tuples and
records that may carry a name.  A tree holds values and no spellings; how a value may be spelled is
for the reader (`Tree.read`) to know, and how it is spelled for the writer (`Tree.write`).
-/
import FlowScript.Single.Basic

namespace FlowScript

/-- A value of the text format. -/
inductive Tree
  | bool (b : Bool)
  | whole (n : Int)
  | single (x : Single)
  | text (s : String)
  | absent
  | present (t : Tree)
  | list (items : List Tree)
  | map (entries : List (Tree × Tree))
  /-- A name that stands alone. -/
  | unit (name : String)
  | tuple (name : Option String) (items : List Tree)
  | record (name : Option String) (fields : List (String × Tree))

instance : Inhabited Tree := ⟨.absent⟩

end FlowScript
