/-
# Trees read back

A tree is read by its shape.  `Fits s t` describes the trees that a shape asks for and the writer
spells so that they can be told: numbers in range, the payloads of NaNs as reading leaves them, the
fields of a record all there and in order, words as names.  The main statement is

    Fits s t → readAs .plain s levels false (write depth t ++ rest) = some (t, rest)

for whatever the text stops before, at every depth of nesting and with any number of levels left
(`readAs_write`), hence `read s t.toText = some t` (`read_toText`).

There is one lemma for each form, which says it of the form's own reader given its parts; the proof
of the main statement is by induction on `Fits` and puts them together.  A reader does not look
behind what it takes, but the next one must find something to read there, so it is proved along the
way that every text opens.
-/
import FlowScript.Proofs.Literals
import FlowScript.Proofs.Quoting
import FlowScript.Tree.Reading

namespace FlowScript.Tree

/-! ## 1. Trees of a shape -/

/-- The trees of a shape whose text can be read. -/
inductive Fits : Shape → Tree → Prop
  | bool (b : Bool) : Fits .bool (.bool b)
  | text (s : String) : Fits .text (.text s)
  | whole {type : WholeType} {n : Int} (hn : type.contains n = true)
      (hwide : (WholeType.widest (n < 0)).contains n = true) : Fits (.whole type) (.whole n)
  | single {x : Single} (hx : x.quiet = x) : Fits .single (.single x)
  | singles {xs : List Single} (hxs : ∀ x ∈ xs, x.quiet = x) :
      Fits (.singles xs.length) (.tuple none (xs.map .single))
  | absent (s : Shape) : Fits (.optional s) .absent
  | present {s : Shape} {t : Tree} (ht : Fits s t) : Fits (.optional s) (.present t)
  | list {s : Shape} {ts : List Tree} (hts : ∀ t ∈ ts, Fits s t) : Fits (.list s) (.list ts)
  | map {k v : Shape} {es : List (Tree × Tree)} (hkeys : ∀ e ∈ es, Fits k e.1)
      (hvalues : ∀ e ∈ es, Fits v e.2) : Fits (.map k v) (.map es)
  | wrapper {type : String} {s : Shape} {t : Tree} (hname : isPlainName type = true)
      (ht : Fits s t) : Fits (.wrapper type s) (.tuple (some type) [t])
  /-- Every field of the shape is there, in the order of the shape. -/
  | record {type : String} {fields : List (String × Shape × Tree)}
      (hname : isPlainName type = true) (hkeys : ∀ f ∈ fields, isPlainName f.1 = true)
      (hnodup : (fields.map Prod.fst).Nodup) (hfields : ∀ f ∈ fields, Fits f.2.1 f.2.2) :
      Fits (.record type (fields.map fun f => (f.1, f.2.1)))
        (.record (some type) (fields.map fun f => (f.1, f.2.2)))
  | unit {names : List String} {payloads : List (String × Shape)} {name : String}
      (hplain : isPlainName name = true) (hname : name ∈ names) :
      Fits (.variant names payloads) (.unit name)
  | payload {names : List String} {payloads : List (String × Shape)} {name : String} {s : Shape}
      {t : Tree} (hplain : isPlainName name = true) (hname : name ∉ names)
      (hlookup : payloads.lookup name = some s) (ht : Fits s t) :
      Fits (.variant names payloads) (.tuple (some name) [t])

namespace Fits

/-- A record whose names are known: that they are names, and distinct, is found by evaluation. -/
theorem ofKeys {type : String} (keys : List String) (fields : List (String × Shape × Tree))
    (hplain : (type :: keys).all isPlainName = true) (hnodup : keys.Nodup)
    (hkeys : fields.map Prod.fst = keys) (hfields : ∀ f ∈ fields, Fits f.2.1 f.2.2) :
    Fits (.record type (fields.map fun f => (f.1, f.2.1)))
      (.record (some type) (fields.map fun f => (f.1, f.2.2))) := by
  subst hkeys
  obtain ⟨hname, hall⟩ := List.forall_mem_cons.1 (List.all_eq_true.1 hplain)
  exact .record hname (fun f hf => hall f.1 (List.mem_map_of_mem hf)) hnodup hfields

/-- A name among those of a kind. -/
theorem ofNames {α : Type} {all : List α} {name : α → String} {a : α} (ha : a ∈ all)
    (hplain : (all.map name).all isPlainName = true) (payloads : List (String × Shape)) :
    Fits (.variant (all.map name) payloads) (.unit (name a)) :=
  .unit (List.all_eq_true.1 hplain _ (List.mem_map_of_mem ha)) (List.mem_map_of_mem ha)

end Fits

/-! ## 2. The writer as a map -/

theorem writeAll_eq (depth : Nat) (ts : List Tree) : writeAll depth ts = ts.map (write depth) := by
  induction ts with
  | nil => rfl
  | cons t ts ih => rw [writeAll, ih, List.map_cons]

theorem writeEntries_eq (depth : Nat) (es : List (Tree × Tree)) :
    writeEntries depth es = es.map fun e => write depth e.1 ++ ':' :: ' ' :: write depth e.2 := by
  induction es with
  | nil => rfl
  | cons e es ih => rw [writeEntries, ih, List.map_cons]

theorem writeFields_eq (depth : Nat) (fs : List (String × Tree)) :
    writeFields depth fs = fs.map fun f => f.1.toList ++ ':' :: ' ' :: write depth f.2 := by
  induction fs with
  | nil => rfl
  | cons f fs ih => rw [writeFields, ih, List.map_cons]

theorem write_record (depth : Nat) (name : Option String) (fs : List (String × Tree)) :
    write depth (.record name fs) =
      nameText name ++ block depth '(' ')' (writeFields (depth + 1) fs) := by
  rw [write]

/-! ## 3. Single values -/

theorem readBool_reads (b : Bool) (depth : Nat) :
    Reads readBool (write depth (.bool b)) (.bool b) := by
  intro rest hrest
  cases b with
  | true =>
    have htrue := keyword_append ['t', 'r', 'u', 'e'] hrest
    simp only [readBool, write, if_true, htrue]
  | false =>
    have htrue : keyword ['t', 'r', 'u', 'e'] (['f', 'a', 'l', 's', 'e'] ++ rest) = none :=
      keyword_eq_none (by decide) _ _
    have hfalse := keyword_append ['f', 'a', 'l', 's', 'e'] hrest
    simp only [readBool, write, Bool.false_eq_true, if_false, htrue, hfalse, Option.map_some]

/-! ## 4. Tuples and optional values -/

theorem opens_commaSeparated {x : Single} {xs : List Single} :
    Opens (commaSeparated ((x :: xs).map singleText)) := by
  cases xs with
  | nil => exact opens_singleText x
  | cons y ys => exact (opens_singleText x).append _

/-- **Numbers with commas between them are taken one by one.** -/
theorem singlesOf_commaSeparated (rest : List Char) : ∀ xs : List Single, (∀ x ∈ xs, x.quiet = x) →
    singlesOf xs.length (commaSeparated (xs.map singleText) ++ ')' :: rest) =
      some (xs.map .single, ')' :: rest)
  | [], _ => rfl
  | [x], hxs => by
    have hread := singleNumber_reads x (')' :: rest) (stops_cons (by decide))
    rw [hxs x List.mem_cons_self] at hread
    have hopen := ((opens_singleText x).append (')' :: rest)).blanks_eq
    have hclose : blanks (')' :: rest) = some (')' :: rest) := blanks_of_stop (by simp) rest
    have hcomma : token [','] (')' :: rest) = none := token_eq_none (by decide) _ _
    simp only [List.map_cons, List.map_nil, commaSeparated, List.length_cons, List.length_nil,
      singlesOf, Option.bind_eq_bind, hopen, Option.bind_some, readSingle, hread, Option.map_some,
      hclose, hcomma, if_true]
  | x :: y :: xs, hxs => by
    have ih := singlesOf_commaSeparated rest (y :: xs) fun z hz => hxs z (List.mem_cons_of_mem x hz)
    generalize htail : commaSeparated ((y :: xs).map singleText) ++ ')' :: rest = tail at ih
    have hstart : blanks tail = some tail := by
      rw [← htail]
      exact (opens_commaSeparated.append _).blanks_eq
    have hread := singleNumber_reads x (',' :: ' ' :: tail) (stops_cons (by decide))
    rw [hxs x List.mem_cons_self] at hread
    have hopen := ((opens_singleText x).append (',' :: ' ' :: tail)).blanks_eq
    have hcomma : blanks (',' :: ' ' :: tail) = some (',' :: ' ' :: tail) :=
      blanks_of_stop (by simp) _
    have htext : commaSeparated ((x :: y :: xs).map singleText) ++ ')' :: rest =
        singleText x ++ ',' :: ' ' :: tail := by
      rw [← htail]
      simp [commaSeparated]
    rw [htext, List.length_cons, singlesOf]
    simp only [Option.bind_eq_bind, hopen, Option.bind_some, readSingle, hread, Option.map_some,
      hcomma, token_singleton, blanks_space, hstart, ih, List.map_cons]

theorem readOptional_absent (inner : Bool → Reader Tree) (depth : Nat) :
    Reads (readOptional .plain inner) (write depth .absent) .absent := by
  intro rest hrest
  have hnone := keyword_append ['N', 'o', 'n', 'e'] hrest
  simp only [readOptional, write, hnone]

theorem readOptional_present {inner : Bool → Reader Tree} {depth : Nat} {t : Tree}
    (hopen : Opens (write depth t)) (h : Reads (inner false) (write depth t) t) :
    Reads (readOptional .plain inner) (write depth (.present t)) (.present t) := by
  intro rest _
  generalize hcs : '(' :: write depth t ++ ')' :: rest = cs
  have htext : write depth (.present t) ++ rest = ['S', 'o', 'm', 'e'] ++ cs := by
    rw [← hcs]
    simp [write]
  have hnone : keyword ['N', 'o', 'n', 'e'] (['S', 'o', 'm', 'e'] ++ cs) = none :=
    keyword_eq_none (by decide) _ _
  have hsome : keyword ['S', 'o', 'm', 'e'] (['S', 'o', 'm', 'e'] ++ cs) = some cs :=
    keyword_append _ (hcs ▸ stops_cons (by decide))
  have hblanks : blanks cs = some cs := hcs ▸ (opens_cons (by decide) _).blanks_eq
  have hhead : cs.head? = some '(' := hcs ▸ rfl
  have hvalue : parenthesized (inner Extensions.plain.unwrapVariantNewtypes) cs = some (t, rest) :=
    hcs ▸ parenthesized_reads hopen h rest
  rw [htext, readOptional, hnone, hsome]
  simp only [Option.bind_eq_bind, Option.elim_some, hblanks, Option.bind_some, Option.isSome_some,
    hhead, and_self, if_true, hvalue]

/-! ## 5. Names with what they announce -/

theorem blanks_paren (cs : List Char) : blanks ('(' :: cs) = some ('(' :: cs) :=
  (opens_cons (by decide) cs).blanks_eq

theorem typeName_reads {type : String} (hname : isPlainName type = true) (cs : List Char) :
    typeName .plain type (type.toList ++ '(' :: cs) = some ('(' :: cs) := by
  have hread := properName_reads hname ('(' :: cs) (stops_cons (by decide))
  obtain ⟨c, l, htext, -, -, -, -, hall⟩ := isPlainName_iff.1 hname
  have hhead : (type.toList ++ '(' :: cs).head?.any Text.isIdentContinue = true := by
    simp [htext, hall c List.mem_cons_self]
  simp only [typeName, hhead, if_true, Option.bind_eq_bind, hread, Option.bind_some, blanks_paren]

/-- A name before one item in parentheses. -/
theorem write_named (depth : Nat) (name : String) (t : Tree) (rest : List Char) :
    write depth (.tuple (some name) [t]) ++ rest =
      name.toList ++ ('(' :: write depth t ++ ')' :: rest) := by
  simp [write, nameText, writeAll, commaSeparated]

theorem opens_named {name : String} (hname : isPlainName name = true) (depth : Nat) (t : Tree) :
    Opens (write depth (.tuple (some name) [t])) := by
  have htext := write_named depth name t []
  rw [List.append_nil] at htext
  rw [htext]
  exact (opens_of_isPlainName hname).append _

theorem readWrapper_reads {type : String} (hname : isPlainName type = true) {inner : Reader Tree}
    {depth : Nat} {t : Tree} (hopen : Opens (write depth t)) (h : Reads inner (write depth t) t) :
    Reads (readWrapper .plain type false inner) (write depth (.tuple (some type) [t]))
      (.tuple (some type) [t]) := by
  intro rest _
  have hvalue := parenthesized_reads hopen h rest
  have hplain : ¬(Extensions.plain.unwrapNewtypes = true ∨ false = true) := by decide
  rw [write_named, List.cons_append, readWrapper]
  rw [List.cons_append] at hvalue
  simp only [if_neg hplain, Option.bind_eq_bind, typeName_reads hname, Option.bind_some, hvalue]

theorem readVariant_unit {names : List String} {payloads : List (String × Reader Tree)}
    {name : String} (hplain : isPlainName name = true) (hname : name ∈ names) (depth : Nat) :
    Reads (readVariant names payloads) (write depth (.unit name)) (.unit name) := by
  intro rest hrest
  simp only [readVariant, write, properName_reads hplain rest hrest, Option.bind_eq_bind,
    Option.bind_some, hname, if_true]

theorem readVariant_payload {names : List String} {payloads : List (String × Reader Tree)}
    {name : String} (hplain : isPlainName name = true) (hname : name ∉ names)
    {payload : Reader Tree} (hlookup : payloads.lookup name = some payload) {depth : Nat} {t : Tree}
    (hopen : Opens (write depth t)) (h : Reads payload (write depth t) t) :
    Reads (readVariant names payloads) (write depth (.tuple (some name) [t]))
      (.tuple (some name) [t]) := by
  intro rest _
  have hvalue := parenthesized_reads hopen h rest
  have hread := properName_reads hplain ('(' :: write depth t ++ ')' :: rest)
    (stops_cons (by decide))
  rw [write_named, readVariant, hread]
  rw [List.cons_append] at hvalue ⊢
  simp only [Option.bind_eq_bind, Option.bind_some, hname, if_false, hlookup, blanks_paren, hvalue]

/-! ## 6. Records -/

theorem lookup_readersAs (x : Extensions) (levels : Nat) (bare : Bool) (key : String)
    (shapes : List (String × Shape)) :
    (readersAs x shapes levels bare).lookup key =
      (shapes.lookup key).map fun s => readAs x s levels bare := by
  induction shapes with
  | nil => rfl
  | cons f shapes ih =>
    obtain ⟨k, s⟩ := f
    rw [readersAs, List.lookup_cons, List.lookup_cons]
    cases key == k with
    | true => rfl
    | false => exact ih

/-- Under distinct keys, every field is found under its own. -/
theorem lookup_of_mem {α : Type} {fields : List (String × α)} (hnodup : (fields.map Prod.fst).Nodup)
    {f : String × α} (hf : f ∈ fields) : fields.lookup f.1 = some f.2 := by
  induction fields with
  | nil => cases hf
  | cons g fields ih =>
    obtain ⟨hg, hfields⟩ := List.nodup_cons.1 hnodup
    rcases List.mem_cons.1 hf with rfl | hf
    · rw [List.lookup_cons, beq_self_eq_true]
    · have hne : (f.1 == g.1) = false := by
        rw [beq_eq_false_iff_ne]
        intro h
        exact hg (h ▸ List.mem_map_of_mem hf)
      rw [List.lookup_cons, hne]
      exact ih hfields hf

theorem readField_reads {known : List (String × Reader Tree)} {other : Reader Unit} {key : String}
    (hplain : isPlainName key = true) {field : Reader Tree}
    (hlookup : known.lookup key = some field) {v : List Char} {t : Tree} (hopen : Opens v)
    (h : Reads field v t) :
    Reads (readField known other) (key.toList ++ ':' :: ' ' :: v) (some (key, t)) := by
  intro rest hrest
  have hkey := properName_reads hplain (':' :: ' ' :: (v ++ rest)) (stops_cons (by decide))
  have hcolon : blanks (':' :: ' ' :: (v ++ rest)) = some (':' :: ' ' :: (v ++ rest)) :=
    blanks_of_stop (by simp) _
  simp only [readField, colon, List.append_assoc, List.cons_append, Option.bind_eq_bind, hkey,
    Option.bind_some, hcolon, token_singleton, blanks_space, (hopen.append rest).blanks_eq, hlookup,
    h rest hrest]

/-- **A record is read as its fields**, given readers for them. -/
theorem readRecord_reads {type : String} (hname : isPlainName type = true)
    {known : List (String × Reader Tree)} {other : Reader Unit} {fields : List (String × Tree)}
    (hkeys : ∀ f ∈ fields, isPlainName f.1 = true) (hnodup : (fields.map Prod.fst).Nodup)
    {depth : Nat} (hfields : ∀ f ∈ fields, ∃ field, known.lookup f.1 = some field ∧
      Opens (write (depth + 1) f.2) ∧ Reads field (write (depth + 1) f.2) f.2) :
    Reads (readRecord .plain type false known other) (write depth (.record (some type) fields))
      (.record (some type) fields) := by
  intro rest _
  have hlines : ∀ f ∈ fields, Opens (f.1.toList ++ ':' :: ' ' :: write (depth + 1) f.2) ∧
      Reads (readField known other) (f.1.toList ++ ':' :: ' ' :: write (depth + 1) f.2)
        (some f) := by
    intro f hf
    obtain ⟨field, hlookup, hopen, hread⟩ := hfields f hf
    exact ⟨(opens_of_isPlainName (hkeys f hf)).append _,
      readField_reads (hkeys f hf) hlookup hopen hread⟩
  obtain ⟨cs, hcs, hitems⟩ := itemsBefore_block (.inl rfl) depth '('
    (fun f : String × Tree => f.1.toList ++ ':' :: ' ' :: write (depth + 1) f.2) some fields
      hlines rest
  have htext : write depth (.record (some type) fields) ++ rest = type.toList ++ '(' :: cs := by
    rw [write_record, writeFields_eq, nameText, Option.elim_some, List.append_assoc, hcs]
  have hread : readFields known other cs = some (fields, ')' :: rest) := by
    rw [readFields, hitems]
    simp only [Option.bind_eq_bind, Option.bind_some, List.filterMap_map, Function.comp_def, id_eq,
      List.filterMap_some, hnodup, if_true]
  rw [htext, readRecord]
  simp only [Bool.false_eq_true, if_false, typeName_reads hname, Option.bind_eq_bind,
    Option.bind_some, enclosed, token_singleton, hread]

/-! ## 7. Trees -/

/-- **What is written is read.**  In the second part, whatever the text stops before is left. -/
theorem readAs_write {s : Shape} {t : Tree} (h : Fits s t) : ∀ depth levels : Nat,
    Opens (write depth t) ∧ Reads (readAs .plain s levels false) (write depth t) t := by
  induction h with
  | bool b =>
    intro depth levels
    refine ⟨?_, by simpa only [readAs] using readBool_reads b depth⟩
    cases b <;> exact opens_cons (by decide) _
  | text s =>
    intro depth levels
    have hread : Reads readText (quote s) (.text s) := (string_reads s).map Tree.text
    exact ⟨opens_quote s, by simpa only [readAs, write] using hread⟩
  | @whole type n hn hwide =>
    intro depth levels
    have hread : Reads (readWhole type) (wholeText n) (.whole n) :=
      (wholeNumber_reads hn hwide).map Tree.whole
    exact ⟨opens_wholeText n, by simpa only [readAs, write] using hread⟩
  | @single x hx =>
    intro depth levels
    have hread : Reads readSingle (singleText x) (.single x.quiet) :=
      (singleNumber_reads x).map Tree.single
    rw [hx] at hread
    exact ⟨opens_singleText x, by simpa only [readAs, write] using hread⟩
  | @singles xs hxs =>
    intro depth levels
    refine ⟨opens_cons (by decide) _, fun rest _ => ?_⟩
    have hitems := singlesOf_commaSeparated rest xs hxs
    have htexts : (xs.map Tree.single).map (write depth) = xs.map singleText := by
      rw [List.map_map]
      exact List.map_congr_left fun x _ => by rw [Function.comp_apply, write]
    have htext : write depth (.tuple none (xs.map .single)) ++ rest =
        '(' :: (commaSeparated (xs.map singleText) ++ ')' :: rest) := by
      rw [write, writeAll_eq, htexts]
      simp [nameText]
    rw [htext, readAs]
    simp only [enclosed, Bool.false_eq_true, if_false, token_singleton, Option.bind_eq_bind,
      Option.bind_some, hitems, Option.map_some]
  | absent s =>
    intro depth levels
    refine ⟨opens_cons (by decide) _, ?_⟩
    simpa only [readAs] using readOptional_absent _ depth
  | present _ ih =>
    intro depth levels
    obtain ⟨hopen, hread⟩ := ih depth (levels - 1)
    refine ⟨opens_cons (by decide) _, ?_⟩
    simpa only [readAs] using readOptional_present hopen hread
  | @list s ts _ ih =>
    intro depth levels
    refine ⟨?_, fun rest _ => ?_⟩
    · rw [write]
      exact opens_block (by decide) depth ']' _
    · obtain ⟨cs, hcs, hitems⟩ := items_block (.inr (.inl rfl)) depth '[' (write (depth + 1)) id ts
        (fun t ht => ih t ht (depth + 1) (levels - 2)) rest
      rw [write, writeAll_eq, hcs, readAs]
      simp only [token_singleton, Option.bind_eq_bind, Option.bind_some, hitems, List.map_id]
  | @map k v es _ _ ihk ihv =>
    intro depth levels
    refine ⟨?_, fun rest _ => ?_⟩
    · rw [write]
      exact opens_block (by decide) depth '\x7d' _
    · obtain ⟨cs, hcs, hitems⟩ := items_block (.inr (.inr rfl)) depth '\x7b'
        (fun e : Tree × Tree => write (depth + 1) e.1 ++ ':' :: ' ' :: write (depth + 1) e.2) id es
        (fun e he => by
          obtain ⟨hopen, hkey⟩ := ihk e he (depth + 1) (levels - 2)
          obtain ⟨hopenv, hvalue⟩ := ihv e he (depth + 1) (levels - 2)
          exact ⟨hopen.append _, entry_reads hkey hvalue hopenv⟩) rest
      rw [write, writeEntries_eq, hcs, readAs]
      simp only [token_singleton, Option.bind_eq_bind, Option.bind_some, hitems, List.map_id]
  | @wrapper type s t hname _ ih =>
    intro depth levels
    obtain ⟨hopen, hread⟩ := ih depth (levels - 1)
    exact ⟨opens_named hname depth t,
      by simpa only [readAs] using readWrapper_reads hname hopen hread⟩
  | @record type fields hname hkeys hnodup _ ih =>
    intro depth levels
    refine ⟨(opens_of_isPlainName hname).append _, ?_⟩
    rw [readAs]
    refine readRecord_reads hname (fun f hf => ?_) ?_ fun f hf => ?_
    · obtain ⟨g, hg, rfl⟩ := List.mem_map.1 hf
      exact hkeys g hg
    · rwa [List.map_map]
    · obtain ⟨g, hg, rfl⟩ := List.mem_map.1 hf
      obtain ⟨hopen, hread⟩ := ih g hg (depth + 1) (levels - 2)
      refine ⟨_, ?_, hopen, hread⟩
      have hshapes : ((fields.map fun f => (f.1, f.2.1)).map Prod.fst).Nodup := by
        rwa [List.map_map]
      have hfound := lookup_of_mem hshapes (List.mem_map_of_mem (f := fun f => (f.1, f.2.1)) hg)
      rw [lookup_readersAs, hfound, Option.map_some]
  | @unit names payloads name hplain hname =>
    intro depth levels
    refine ⟨?_, by simpa only [readAs] using readVariant_unit hplain hname depth⟩
    rw [write]
    exact opens_of_isPlainName hplain
  | @payload names payloads name s t hplain hname hlookup _ ih =>
    intro depth levels
    obtain ⟨hopen, hread⟩ := ih depth (levels - 1)
    refine ⟨opens_named hplain depth t, ?_⟩
    rw [readAs]
    refine readVariant_payload hplain hname ?_ hopen hread
    rw [lookup_readersAs, hlookup, Option.map_some]
    rfl

/-- A text that opens without a number sign enables no extension. -/
theorem head_of_opens {l : List Char} (hopen : Opens l) (hsign : l.head? ≠ some '#') :
    head l = some (.plain, l) := by
  obtain ⟨c, cs, rfl, -⟩ := id hopen
  have hc : c ≠ '#' := fun h => hsign (by rw [h]; rfl)
  simp only [head, hopen.blanks_eq, Option.bind_eq_bind, Option.bind_some, headUpTo,
    token_eq_none (Ne.symm hc)]

/-- **The text of a tree is read as the tree.** -/
theorem read_toText {s : Shape} {t : Tree} (h : Fits s t)
    (hsign : (write 0 t).head? ≠ some '#') : read s t.toText = some t := by
  obtain ⟨hopen, hread⟩ := readAs_write h 0 maxDepth
  have hwhole := hread [] stops_nil
  rw [List.append_nil] at hwhole
  simp only [read, toText, String.toList_ofList, head_of_opens hopen hsign, Option.bind_eq_bind,
    Option.bind_some, hwhole, blanks_nil, if_true]

end FlowScript.Tree
