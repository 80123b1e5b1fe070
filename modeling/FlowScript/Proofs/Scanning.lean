/-
# Scanning what was written

The writer puts lines between brackets, a name before a colon, and values between parentheses.
This module says of each of these layouts that the scanner takes it apart again.

A reader stops where it should because of what follows.  `Stops rest` says that nothing goes on into
`rest`: the text ends there, or a bracket, a comma or a colon follows.  `Opens l` says that a text
starts with something to read, so that nothing is skipped before it and no sequence is closed.
`Reads item l a` puts the two together: whatever `l` stops before, `item` takes `a` from it and
leaves the rest.  The layouts are then compositions: readers that read parts read the whole
(`items_block`, `entry_reads`, `parenthesized_reads`).
-/
import FlowScript.Tree.Writer

namespace FlowScript.Tree

/-! ## 1. Where a reader stops -/

/-- A character that ends whatever stands before it. -/
def isStop (c : Char) : Bool := c = ',' || c = ':' || c = '(' || c = ')'

/-- Nothing goes on into this text. -/
def Stops (rest : List Char) : Prop := ∀ c ∈ rest.head?, isStop c = true

theorem stops_nil : Stops [] := fun _ hc => nomatch hc

theorem stops_cons {c : Char} {rest : List Char} (hc : isStop c = true) : Stops (c :: rest) := by
  intro d hd
  obtain rfl : c = d := by simpa using hd
  exact hc

theorem isStop_iff {c : Char} : isStop c = true ↔ c = ',' ∨ c = ':' ∨ c = '(' ∨ c = ')' := by
  simp [isStop, or_assoc]

/-- A property of the four stops is one of whatever a text stops before. -/
theorem Stops.head {rest : List Char} (hrest : Stops rest) {p : Char → Prop}
    (hp : p ',' ∧ p ':' ∧ p '(' ∧ p ')') : ∀ c ∈ rest.head?, p c := by
  intro c hc
  rcases isStop_iff.1 (hrest c hc) with rfl | rfl | rfl | rfl
  · exact hp.1
  · exact hp.2.1
  · exact hp.2.2.1
  · exact hp.2.2.2

/-- A run that no stop belongs to ends where the text stops. -/
theorem Stops.run {rest : List Char} (hrest : Stops rest) {p : Char → Bool}
    (hp : p ',' = false ∧ p ':' = false ∧ p '(' = false ∧ p ')' = false) {l : List Char}
    (hl : ∀ c ∈ l, p c = true) : (l ++ rest).takeWhile p = l ∧ (l ++ rest).dropWhile p = rest := by
  rw [List.takeWhile_append_of_pos hl, List.dropWhile_append_of_pos hl]
  cases rest with
  | nil => exact ⟨List.append_nil l, rfl⟩
  | cons c rest =>
    have hc : p c = false := hrest.head (p := fun c => p c = false) hp c rfl
    simp [hc]

theorem isIdentContinue_stop : Text.isIdentContinue ',' = false ∧ Text.isIdentContinue ':' = false ∧
    Text.isIdentContinue '(' = false ∧ Text.isIdentContinue ')' = false := by
  refine ⟨?_, ?_, ?_, ?_⟩ <;> decide

/-! ## 2. Tokens and words -/

@[simp] theorem token_append : ∀ ts cs : List Char, token ts (ts ++ cs) = some cs
  | [], _ => rfl
  | t :: ts, cs => by simp [token, token_append ts cs]

@[simp] theorem token_singleton (t : Char) (cs : List Char) : token [t] (t :: cs) = some cs :=
  token_append [t] cs

/-- A text that starts with another character has not the token. -/
theorem token_eq_none {t c : Char} (h : t ≠ c) (ts cs : List Char) :
    token (t :: ts) (c :: cs) = none := by
  simp [token, h]

/-- A word that the text stops behind. -/
theorem keyword_append (word : List Char) {rest : List Char} (hrest : Stops rest) :
    keyword word (word ++ rest) = some rest := by
  rw [keyword, token_append]
  cases rest with
  | nil => rfl
  | cons c rest =>
    have hc : Text.isIdentContinue c = false :=
      hrest.head (p := fun c => Text.isIdentContinue c = false) isIdentContinue_stop c rfl
    simp [hc]

theorem keyword_eq_none {t c : Char} (h : t ≠ c) (ts cs : List Char) :
    keyword (t :: ts) (c :: cs) = none := by
  rw [keyword, token_eq_none h]

/-- No word stands where a text stops, as no word starts with a stop. -/
theorem Stops.keyword_eq_none {rest : List Char} (hrest : Stops rest) {word : List Char}
    (hword : (word.head?.any fun c => !isStop c) = true) : keyword word rest = none := by
  cases word with
  | nil => cases hword
  | cons t ts =>
    cases rest with
    | nil => rfl
    | cons c rest =>
      refine Tree.keyword_eq_none ?_ ts rest
      rintro rfl
      have ht : isStop t = false := by simpa using hword
      rw [hrest t rfl] at ht
      cases ht

/-! ## 3. Blanks -/

theorem blanks_nil : blanks [] = some [] := rfl

/-- What the scanner does at a character that starts no comment. -/
theorem blanks_cons {c : Char} (hc : c ≠ '/') (cs : List Char) :
    blanks (c :: cs) = if Text.isBlank c then blanks cs else some (c :: cs) := by
  unfold blanks
  rw [skip.eq_def]
  split <;> simp_all

@[simp] theorem blanks_space (cs : List Char) : blanks (' ' :: cs) = blanks cs := by
  rw [blanks_cons (by decide), if_pos (by decide)]

/-- The indentation of a line is skipped. -/
theorem blanks_spaces (n : Nat) (cs : List Char) :
    blanks (List.replicate n ' ' ++ cs) = blanks cs := by
  induction n with
  | zero => rfl
  | succ n ih => rw [List.replicate_succ, List.cons_append, blanks_space, ih]

@[simp] theorem blanks_newline (depth : Nat) (cs : List Char) :
    blanks (newline depth ++ cs) = blanks cs := by
  rw [newline, List.cons_append, blanks_cons (by decide), if_pos (by decide), blanks_spaces]

/-- A character that something to read may start with: no blank, no comment, and nothing that ends
an item or closes a sequence. -/
def isOpening (c : Char) : Bool :=
  !Text.isBlank c && c ≠ '/' && c ≠ ',' && c ≠ ':' && c ≠ ')' && c ≠ ']' && c ≠ '\x7d'

/-- The text starts with something to read. -/
def Opens (l : List Char) : Prop := ∃ c cs, l = c :: cs ∧ isOpening c = true

theorem opens_cons {c : Char} (hc : isOpening c = true) (cs : List Char) : Opens (c :: cs) :=
  ⟨c, cs, rfl, hc⟩

theorem Opens.append {l : List Char} (hl : Opens l) (cs : List Char) : Opens (l ++ cs) := by
  obtain ⟨c, l, rfl, hc⟩ := hl
  exact ⟨c, l ++ cs, rfl, hc⟩

/-- Nothing is skipped before what opens. -/
theorem Opens.blanks_eq {l : List Char} (hl : Opens l) : blanks l = some l := by
  obtain ⟨c, cs, rfl, hc⟩ := hl
  simp only [isOpening, Bool.and_eq_true, Bool.not_eq_true', decide_eq_true_eq] at hc
  rw [blanks_cons hc.1.1.1.1.1.2, hc.1.1.1.1.1.1, if_neg Bool.false_ne_true]

theorem Opens.head?_ne {l : List Char} (hl : Opens l) {close : Char}
    (hclose : isOpening close = false) : l.head? ≠ some close := by
  obtain ⟨c, cs, rfl, hc⟩ := hl
  intro h
  obtain rfl : c = close := by simpa using h
  rw [hc] at hclose
  cases hclose

/-- A character at which nothing is skipped. -/
theorem blanks_of_stop {c : Char} (hc : c = ',' ∨ c = ':' ∨ c = ')' ∨ c = ']' ∨ c = '\x7d')
    (cs : List Char) : blanks (c :: cs) = some (c :: cs) := by
  rcases hc with rfl | rfl | rfl | rfl | rfl <;>
    rw [blanks_cons (by decide), if_neg (by decide)]

/-! ## 4. Readers and the texts they read -/

/-- Whatever the text stops before, the reader takes this value from it and leaves the rest. -/
def Reads {α : Type} (item : Reader α) (l : List Char) (a : α) : Prop :=
  ∀ rest, Stops rest → item (l ++ rest) = some (a, rest)

section
variable {α β ι : Type}

theorem Reads.map {item : Reader α} {l : List Char} {a : α} (h : Reads item l a) (f : α → β) :
    Reads (fun cs => (item cs).map fun r => (f r.1, r.2)) l (f a) := by
  intro rest hrest
  simp only [h rest hrest, Option.map_some]

/-- **A value between parentheses is taken out of them.** -/
theorem parenthesized_reads {value : Reader α} {l : List Char} {a : α} (hl : Opens l)
    (h : Reads value l a) :
    ∀ rest, parenthesized value ('(' :: l ++ ')' :: rest) = some (a, rest) := by
  intro rest
  have hvalue := h (')' :: rest) (stops_cons (by decide))
  have hclose : blanks (')' :: rest) = some (')' :: rest) := blanks_of_stop (by simp) rest
  have hcomma : token [','] (')' :: rest) = none := token_eq_none (by decide) _ _
  have hopen := (hl.append (')' :: rest)).blanks_eq
  simp only [parenthesized, tokens, List.cons_append, token_singleton, Option.bind_eq_bind,
    Option.bind_some, hopen, hvalue, comma, hclose, hcomma]

/-- **A key, a colon and a value are taken apart.** -/
theorem entry_reads {key : Reader α} {value : Reader β} {k v : List Char} {a : α} {b : β}
    (hk : Reads key k a) (hv : Reads value v b) (hopen : Opens v) :
    Reads (entry key value) (k ++ ':' :: ' ' :: v) (a, b) := by
  intro rest hrest
  have hkey := hk (':' :: ' ' :: (v ++ rest)) (stops_cons (by decide))
  have hcolon : blanks (':' :: ' ' :: (v ++ rest)) = some (':' :: ' ' :: (v ++ rest)) :=
    blanks_of_stop (by simp) _
  have hvalue := hv rest hrest
  simp only [entry, colon, List.append_assoc, List.cons_append, Option.bind_eq_bind, hkey,
    Option.bind_some, hcolon, token_singleton, blanks_space, (hopen.append rest).blanks_eq, hvalue]

/-! ## 5. Lines between brackets -/

/-- The lines of a block, up to the bracket that closes it. -/
def linesText (depth : Nat) (lines : List (List Char)) : List Char :=
  lines.flatMap fun l => newline (depth + 1) ++ l ++ [',']

/-- A character that closes a sequence. -/
def Closing (close : Char) : Prop := close = ')' ∨ close = ']' ∨ close = '\x7d'

theorem Closing.isOpening_eq {close : Char} (h : Closing close) : isOpening close = false := by
  rcases h with rfl | rfl | rfl <;> decide

theorem Closing.blanks_eq {close : Char} (h : Closing close) (cs : List Char) :
    blanks (close :: cs) = some (close :: cs) :=
  blanks_of_stop (by rcases h with rfl | rfl | rfl <;> simp) cs

theorem Closing.ne_comma {close : Char} (h : Closing close) : ',' ≠ close := by
  rcases h with rfl | rfl | rfl <;> decide

/-- **Lines are taken one by one.**  A line takes more than one character, so a budget as long as
the text does not run out. -/
theorem itemsUpTo_lines {item : Reader α} {close : Char} (hclose : Closing close) (depth : Nat)
    (text : ι → List Char) (value : ι → α) :
    ∀ (is : List ι) (budget tail rest : List Char),
      (∀ i ∈ is, Opens (text i) ∧ Reads item (text i) (value i)) → is.length < budget.length →
      blanks tail = some (close :: rest) →
      itemsUpTo item close budget (linesText depth (is.map text) ++ tail) =
        some (is.map value, close :: rest)
  | _, [], _, _, _, hbudget, _ => absurd hbudget (Nat.not_lt_zero _)
  | [], _ :: budget, tail, rest, _, _, htail => by
    simp [linesText, itemsUpTo, htail]
  | i :: is, b :: budget, tail, rest, his, hbudget, htail => by
    obtain ⟨hopen, hread⟩ := his i List.mem_cons_self
    have ih := itemsUpTo_lines hclose depth text value is budget tail rest
      (fun j hj => his j (List.mem_cons_of_mem i hj)) (Nat.lt_of_succ_lt_succ hbudget) htail
    generalize hmore : linesText depth (is.map text) ++ tail = more at ih
    have hline : linesText depth ((i :: is).map text) ++ tail =
        newline (depth + 1) ++ (text i ++ ',' :: more) := by
      simp [linesText, ← hmore]
    have hskip : blanks (newline (depth + 1) ++ (text i ++ ',' :: more)) =
        some (text i ++ ',' :: more) := by
      rw [blanks_newline, (hopen.append _).blanks_eq]
    have hfirst : (text i ++ ',' :: more).head? ≠ some close :=
      (hopen.append _).head?_ne hclose.isOpening_eq
    have hcomma : blanks (',' :: more) = some (',' :: more) := blanks_of_stop (by simp) more
    have hgo : ((',' :: more).head? = some close) = False := by
      simp [hclose.ne_comma]
    rw [hline]
    simp only [itemsUpTo, Option.bind_eq_bind, hskip, Option.bind_some, if_neg hfirst,
      hread (',' :: more) (stops_cons (by decide)), hcomma, hgo, if_false, token_singleton, ih,
      List.map_cons]

theorem length_le_linesText (depth : Nat) (lines : List (List Char)) :
    lines.length ≤ (linesText depth lines).length := by
  induction lines with
  | nil => exact Nat.le_refl 0
  | cons l lines ih =>
    rw [linesText, List.flatMap_cons, List.length_append, ← linesText]
    simp
    omega

/-- What a block is, behind its opening bracket. -/
theorem block_eq (depth : Nat) (opening closing : Char) (lines : List (List Char)) :
    ∃ tail, block depth opening closing lines = opening :: (linesText depth lines ++ tail) ∧
      ∀ rest, blanks (tail ++ rest) = blanks (closing :: rest) := by
  by_cases h : lines = []
  · exact ⟨[closing], by simp [block, h, linesText], fun _ => rfl⟩
  · refine ⟨newline depth ++ [closing], by simp [block, h, linesText], fun rest => ?_⟩
    rw [List.append_assoc, blanks_newline, List.singleton_append]

theorem opens_block {opening : Char} (hopening : isOpening opening = true) (depth : Nat)
    (closing : Char) (lines : List (List Char)) : Opens (block depth opening closing lines) := by
  obtain ⟨tail, hblock, -⟩ := block_eq depth opening closing lines
  rw [hblock]
  exact opens_cons hopening _

/-- **A block is taken apart into its lines**, up to the bracket that closes it. -/
theorem itemsBefore_block {item : Reader α} {close : Char} (hclose : Closing close) (depth : Nat)
    (opening : Char) (text : ι → List Char) (value : ι → α) (is : List ι)
    (his : ∀ i ∈ is, Opens (text i) ∧ Reads item (text i) (value i)) (rest : List Char) :
    ∃ cs, block depth opening close (is.map text) ++ rest = opening :: cs ∧
      itemsBefore item close cs = some (is.map value, close :: rest) := by
  obtain ⟨tail, hblock, htail⟩ := block_eq depth opening close (is.map text)
  refine ⟨linesText depth (is.map text) ++ (tail ++ rest), ?_, ?_⟩
  · rw [hblock, List.cons_append, List.append_assoc]
  · refine itemsUpTo_lines hclose depth text value is _ _ rest his ?_ ?_
    · have hle := length_le_linesText depth (is.map text)
      simp only [List.length_cons, List.length_append]
      rw [List.length_map] at hle
      omega
    · rw [htail, hclose.blanks_eq]

/-- The same with the closing bracket taken as well. -/
theorem items_block {item : Reader α} {close : Char} (hclose : Closing close) (depth : Nat)
    (opening : Char) (text : ι → List Char) (value : ι → α) (is : List ι)
    (his : ∀ i ∈ is, Opens (text i) ∧ Reads item (text i) (value i)) (rest : List Char) :
    ∃ cs, block depth opening close (is.map text) ++ rest = opening :: cs ∧
      items item close cs = some (is.map value, rest) := by
  obtain ⟨cs, hcs, hitems⟩ := itemsBefore_block hclose depth opening text value is his rest
  exact ⟨cs, hcs, by rw [items, hitems]; rfl⟩

end

/-! ## 6. Names -/

/-- A word that is read as a name and as nothing else: it may not even look like the start of quoted
or raw text. -/
def isPlainName (s : String) : Bool :=
  match s.toList with
  | [] => false
  | c :: cs => isOpening c && Text.isIdentStart c && c ≠ 'b' && c ≠ 'r' &&
      (c :: cs).all Text.isIdentContinue

/-- What a plain name is made of. -/
theorem isPlainName_iff {s : String} : isPlainName s = true ↔ ∃ c cs, s.toList = c :: cs ∧
    isOpening c = true ∧ Text.isIdentStart c = true ∧ c ≠ 'b' ∧ c ≠ 'r' ∧
      ∀ d ∈ c :: cs, Text.isIdentContinue d = true := by
  unfold isPlainName
  split
  · next h => simp [h]
  · next c cs h =>
    simp only [h, List.cons.injEq, Bool.and_eq_true, decide_eq_true_eq, List.all_eq_true,
      exists_and_left, and_assoc]
    constructor
    · exact fun h => ⟨c, rfl, cs, rfl, h⟩
    · rintro ⟨_, rfl, _, rfl, h⟩
      exact h

theorem opens_of_isPlainName {s : String} (hs : isPlainName s = true) : Opens s.toList := by
  obtain ⟨c, cs, h, hc, -⟩ := isPlainName_iff.1 hs
  exact ⟨c, cs, h, hc⟩

/-- **A plain name is read as a name.** -/
theorem properName_reads {s : String} (hs : isPlainName s = true) :
    Reads properName s.toList s := by
  intro rest hrest
  obtain ⟨c, cs, hlist, -, hstart, hb, hr, hall⟩ := isPlainName_iff.1 hs
  have hmarks : (quoteMarks.any fun m => (token m.toList (c :: (cs ++ rest))).isSome) = false := by
    simp [quoteMarks, token, Ne.symm hb, Ne.symm hr]
  have hraw : token ['r', '#'] (c :: (cs ++ rest)) = none := token_eq_none (Ne.symm hr) _ _
  have hrun := hrest.run isIdentContinue_stop (fun d hd => hall d (List.mem_cons_of_mem c hd))
  have hname : name (s.toList ++ rest) = some (s, rest) := by
    rw [hlist, List.cons_append, name, hmarks, hraw]
    simp only [Bool.false_eq_true, if_false, hstart, if_true, hrun.1, List.drop_left, ← hlist,
      String.ofList_toList]
  rw [properName, hname]
  cases rest with
  | nil => rfl
  | cons d rest =>
    have hd : ¬(d = '.' ∨ d = '+' ∨ d = '-') :=
      hrest.head (p := fun d => ¬(d = '.' ∨ d = '+' ∨ d = '-')) (by decide) d rfl
    simp only [hd, if_false]

end FlowScript.Tree
