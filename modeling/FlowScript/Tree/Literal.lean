/-
# Number literals

A literal is whole or fractional.  A whole one may have a sign, a base (`0b`, `0o`, `0x`),
underscores after its first digit, and the name of a type behind it.  A fractional one has a sign,
digits with a point and an exponent, underscores after digits, and possibly the width `f32` or
`f64`; the words for infinity and for what is not a number are fractional literals too.

What is read depends on the type that is asked for: a type named in a literal has to be that type.
Numbers are written plainly in decimal; a fractional one always shows that it is fractional.
-/
import FlowScript.Single.Decimal
import FlowScript.Text.Hex
import FlowScript.Tree.Scan

namespace FlowScript.Tree

/-! ## 1. Writing -/

/-- The decimal text of a whole number. -/
def wholeText (n : Int) : List Char :=
  if n < 0 then '-' :: Nat.toDigits 10 n.natAbs else Nat.toDigits 10 n.natAbs

/-- The text of a fractional number: a whole value shows its point, and the sign of what is not a
number is kept. -/
def singleText (x : Single) : List Char :=
  (if x.isNaN && x.negative then ['-'] else []) ++ x.shortestText ++
    (if x.isWhole then ['.', '0'] else [])

/-! ## 2. Whole numbers -/

/-- A type of whole numbers. -/
structure WholeType where
  name : String
  least : Int
  greatest : Int

namespace WholeType

/-- The numbers of a given width with a sign. -/
def signed (name : String) (width : Nat) : WholeType :=
  ⟨name, -(Nat.pow 2 (width - 1)), Nat.pow 2 (width - 1) - 1⟩

/-- The numbers of a given width without a sign. -/
def unsigned (name : String) (width : Nat) : WholeType := ⟨name, 0, Nat.pow 2 width - 1⟩

def int32 : WholeType := signed "i32" 32

def nat32 : WholeType := unsigned "u32" 32

def nat64 : WholeType := unsigned "u64" 64

/-- The types that a literal can name. -/
def all : List WholeType :=
  [signed "i8" 8, signed "i16" 16, int32, signed "i64" 64,
    unsigned "u8" 8, unsigned "u16" 16, nat32, nat64]

/-- The widest type for numbers with a given sign. -/
def widest (negative : Bool) : WholeType := if negative then signed "i64" 64 else nat64

def contains (t : WholeType) (n : Int) : Bool := t.least ≤ n && n ≤ t.greatest

end WholeType

/-- Takes the mark of a base; without one the base is ten. -/
def base (cs : List Char) : Nat × List Char :=
  match cs with
  | '0' :: 'b' :: cs => (2, cs)
  | '0' :: 'o' :: cs => (8, cs)
  | '0' :: 'x' :: cs => (16, cs)
  | cs => (10, cs)

/-- Whether a character may stand in the digits of a whole number of any base. -/
def isWholeChar (c : Char) : Bool := (Text.hexValue? c).isSome || c = '_'

/-- The value of digits of a base; underscores are left out. -/
def digitsIn? (b : Nat) (cs : List Char) : Option Nat :=
  (cs.filter (· ≠ '_')).foldl (fun acc c => match acc, Text.hexValue? c with
    | some n, some d => if d < b then some (b * n + d) else none
    | _, _ => none) (some 0)

/-- Takes base and digits. -/
def magnitude : Reader Nat := fun cs =>
  let (b, cs) := base cs
  let run := cs.takeWhile isWholeChar
  if run = [] ∨ run.head? = some '_' then none
  else (digitsIn? b run).map (·, cs.drop run.length)

/-- The type that is named directly behind the digits. -/
def suffix? (cs : List Char) : Option WholeType :=
  let rest := cs.dropWhile isWholeChar
  WholeType.all.find? fun t => (keyword t.name.toList rest).isSome

/-- Takes a whole number, with the type that it names. -/
def typedWhole : Reader (Option WholeType × Int) := fun cs =>
  let (negative, digits) := Single.splitSign cs
  let type? := suffix? digits
  match magnitude digits with
  | none => none
  | some (m, rest) =>
    let n : Int := if negative then -(m : Int) else m
    if (type?.getD (.widest negative)).contains n then
      some ((type?, n), rest.drop (type?.elim 0 (·.name.length)))
    else none

/-- Takes a number of a given type. -/
def wholeNumber (type : WholeType) : Reader Int := fun cs =>
  match typedWhole cs with
  | some ((named?, n), rest) =>
    if type.contains n ∧ named?.all (fun t => t.name = type.name) then some (n, rest) else none
  | none => none

/-! ## 3. Fractional numbers -/

/-- Whether a character may stand in a fractional number. -/
def isFractionChar (c : Char) : Bool :=
  c.isDigit || c = 'e' || c = 'E' || c = '.' || c = '+' || c = '-' || c = '_'

/-- Leaves out underscores; one that does not follow a digit or an exponent mark is refused. -/
def dropUnderscores : (allowed : Bool) → List Char → Option (List Char)
  | _, [] => some []
  | allowed, c :: cs =>
    if c = '_' then if allowed then dropUnderscores true cs else none
    else
      let allowed := if c.isDigit || c = 'e' || c = 'E' then true
        else if c = '.' then false else allowed
      (dropUnderscores allowed cs).map (c :: ·)

/-- The words that are fractional literals. -/
def fractionWords : List String := ["inf", "+inf", "-inf", "NaN", "+NaN", "-NaN"]

/-- The widths that a fractional literal can name. -/
def fractionWidths : List String := ["f32", "f64"]

/-- Takes the width behind a fractional number, if there is one. -/
def width (cs : List Char) : Option String × List Char :=
  match fractionWidths.find? fun w => (keyword w.toList cs).isSome with
  | some w => (some w, cs.drop w.length)
  | none => (none, cs)

/-- Takes a word for infinity or for what is not a number. -/
def fractionWord : Reader (Option String × Single) := fun cs =>
  fractionWords.findSome? fun word => do
    let rest ← token word.toList cs
    let (width?, rest) := width rest
    let x ← Single.ofText? word.toList
    if rest.head?.any Text.isIdentContinue then none else some ((width?, x), rest)

/-- Takes a fractional number, with the width that it names. -/
def typedFraction : Reader (Option String × Single) := fun cs =>
  (fractionWord cs).or <| do
    let run := cs.takeWhile isFractionChar
    let digits ← dropUnderscores false run
    let x ← Single.ofText? digits
    let (width?, rest) := width (cs.drop run.length)
    some ((width?, x), rest)

/-- Takes a number of single precision. -/
def singleNumber : Reader Single := fun cs =>
  match typedFraction cs with
  | some ((width?, x), rest) => if width?.all (· = "f32") then some (x, rest) else none
  | none => none

/-! ## 4. Literals of either kind -/

/-- Whether a literal reads further as a fractional number than as a whole one. -/
def isFraction (cs : List Char) : Bool :=
  let digits := (Single.splitSign cs).2
  (digits.takeWhile isWholeChar).length < (digits.takeWhile isFractionChar).length

/-- How far a whole number reaches before it is refused. -/
def wholeLength (cs : List Char) : Nat :=
  let digits := (Single.splitSign cs).2
  let (_, rest) := base digits
  cs.length - rest.length + (rest.takeWhile isWholeChar).length

/-- Takes a number literal that no type is asked of.  A whole number that is too large for any type
is read as a fractional one, provided that this takes as much of the text. -/
def anyNumber : Reader Unit := fun cs =>
  let rest? : Option (List Char) :=
    if isFraction cs then (typedFraction cs).map Prod.snd
    else
      match typedWhole cs with
      | some (_, rest) => some rest
      | none => ((typedFraction cs).map Prod.snd).filter fun rest =>
        wholeLength cs ≤ cs.length - rest.length
  rest?.map ((), ·)

end FlowScript.Tree
