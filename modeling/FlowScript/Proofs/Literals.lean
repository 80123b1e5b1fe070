/-
# Numbers read back

Whatever a number stops before, it is read as what was written: a whole number by every type that
has it (`wholeNumber_reads`), a fractional one as itself (`singleNumber_reads`).  Text keeps of a
NaN that it is none, and its sign; what it does not keep is its payload, so what is read is
`Single.quiet`.

A reader takes a run of characters and looks behind it, for the name of a type or a width.  A run of
digits has no mark of a base at its front, and no name stands where a text stops.
-/
import FlowScript.Proofs.Decimals
import FlowScript.Proofs.Scanning

namespace FlowScript

/-! ## 1. What text keeps of a number -/

namespace Single

/-- The number with the payload that is read of a NaN; every other number is as it was. -/
def quiet (x : Single) : Single := if x.isNaN then ofMagnitude x.negative nan.magnitude else x

theorem quiet_of_not_isNaN {x : Single} (hx : x.isNaN = false) : x.quiet = x := by
  rw [quiet, hx, if_neg Bool.false_ne_true]

/-- A NaN stays one, with its sign. -/
theorem isNaN_quiet (x : Single) : x.quiet.isNaN = x.isNaN ∧ x.quiet.negative = x.negative := by
  unfold quiet
  split
  · next h => cases hn : x.negative <;> exact ⟨h.symm ▸ by decide, by decide⟩
  · exact ⟨rfl, rfl⟩

@[simp] theorem quiet_quiet (x : Single) : x.quiet.quiet = x.quiet := by
  obtain ⟨hnan, hneg⟩ := isNaN_quiet x
  by_cases hx : x.isNaN = true
  · rw [quiet, hnan, hneg, if_pos hx, quiet, if_pos hx]
  · have hx : x.isNaN = false := by simpa using hx
    rw [quiet_of_not_isNaN hx, quiet_of_not_isNaN hx]

/-- A pattern is finite, or infinite, or no number. -/
theorem finite_cases (x : Single) :
    x.isFinite = true ∧ x.isNaN = false ∨ x.isInfinite = true ∧ x.isNaN = false ∨
      x.isNaN = true ∧ x.isFinite = false := by
  simp only [isFinite, isInfinite, isNaN, decide_eq_true_eq, decide_eq_false_iff_not]
  omega

end Single

namespace Tree

/-- Text does not show the payload of a NaN. -/
@[simp] theorem singleText_quiet (x : Single) : singleText x.quiet = singleText x := by
  obtain ⟨hnan, hneg⟩ := Single.isNaN_quiet x
  by_cases hx : x.isNaN = true
  · have hwhole : ∀ y : Single, y.isNaN = true → y.isWhole = false := by
      intro y hy
      rcases y.finite_cases with h | h | h
      · rw [hy] at h; cases h.2
      · rw [hy] at h; cases h.2
      · rw [Single.isWhole, h.2, Bool.false_and]
    rw [singleText, singleText, hwhole _ hx, hwhole _ (hnan.trans hx), hnan, hneg]
    simp only [Single.shortestText, hnan, hx, if_true]
  · rw [Single.quiet_of_not_isNaN (by simpa using hx)]

/-! ## 2. Whole numbers -/

theorem isStop_not_wholeChar : isWholeChar ',' = false ∧ isWholeChar ':' = false ∧
    isWholeChar '(' = false ∧ isWholeChar ')' = false := by
  decide

theorem hexValue?_of_isDigit {c : Char} (hc : c.isDigit = true) :
    Text.hexValue? c = some (c.toNat - 48) ∧ c.toNat - 48 < 10 := by
  have hrange : '0' ≤ c ∧ c ≤ '9' := by
    rw [Char.isDigit, Bool.and_eq_true, decide_eq_true_eq, decide_eq_true_eq] at hc
    exact hc
  have hnat := Char.isDigit_iff_toNat.1 hc
  refine ⟨by rw [Text.hexValue?, if_pos hrange], ?_⟩
  have hnine : '9'.toNat = 57 := rfl
  omega

theorem isWholeChar_of_isDigit {c : Char} (hc : c.isDigit = true) : isWholeChar c = true := by
  rw [isWholeChar, (hexValue?_of_isDigit hc).1]
  rfl

theorem not_mem_underscore {ds : List Char} (hds : ∀ c ∈ ds, c.isDigit = true) : '_' ∉ ds :=
  fun h => nomatch hds '_' h

/-- Decimal digits are a number of base ten. -/
theorem digitsIn?_digits {ds : List Char} (hds : ∀ c ∈ ds, c.isDigit = true) :
    digitsIn? 10 ds = some (Single.digitsValue ds) := by
  have hfilter : ds.filter (· ≠ '_') = ds := by
    refine List.filter_eq_self.2 fun c hc => ?_
    have hne : c ≠ '_' := fun h => not_mem_underscore hds (h ▸ hc)
    simpa using hne
  rw [digitsIn?, hfilter, Single.digitsValue]
  clear hfilter
  generalize 0 = acc
  induction ds generalizing acc with
  | nil => rfl
  | cons c ds ih =>
    obtain ⟨hvalue, hlt⟩ := hexValue?_of_isDigit (hds c List.mem_cons_self)
    simp only [List.foldl_cons, hvalue, if_pos hlt]
    exact ih (fun d hd => hds d (List.mem_cons_of_mem c hd)) _

/-- Digits that the text stops behind have no mark of a base before them. -/
theorem base_digits {ds rest : List Char} (hds : ∀ c ∈ ds, c.isDigit = true) (hne : ds ≠ [])
    (hrest : Stops rest) : base (ds ++ rest) = (10, ds ++ rest) := by
  obtain ⟨c, ds, rfl⟩ := List.exists_cons_of_ne_nil hne
  have hsecond : ∀ d ∈ (ds ++ rest).head?, d ≠ 'b' ∧ d ≠ 'o' ∧ d ≠ 'x' := by
    cases ds with
    | nil =>
      exact hrest.head (p := fun d => d ≠ 'b' ∧ d ≠ 'o' ∧ d ≠ 'x') (by decide)
    | cons d ds =>
      intro e he
      obtain rfl : d = e := by simpa using he
      have hd := hds d (List.mem_cons_of_mem c List.mem_cons_self)
      refine ⟨?_, ?_, ?_⟩ <;> (rintro rfl; cases hd)
  rw [List.cons_append]
  generalize ds ++ rest = more at hsecond
  unfold base
  split
  · next heq => cases heq; exact absurd rfl (hsecond _ rfl).1
  · next heq => cases heq; exact absurd rfl (hsecond _ rfl).2.1
  · next heq => cases heq; exact absurd rfl (hsecond _ rfl).2.2
  · rfl

/-- **Digits are taken as their value.** -/
theorem magnitude_digits {ds rest : List Char} (hds : ∀ c ∈ ds, c.isDigit = true) (hne : ds ≠ [])
    (hrest : Stops rest) : magnitude (ds ++ rest) = some (Single.digitsValue ds, rest) := by
  have hrun := hrest.run isStop_not_wholeChar fun c hc => isWholeChar_of_isDigit (hds c hc)
  have hfirst : ds.head? ≠ some '_' := by
    intro h
    cases hds '_' (List.mem_of_mem_head? h)
  simp only [magnitude, base_digits hds hne hrest, hrun.1, hne, hfirst, or_self, if_false,
    digitsIn?_digits hds, Option.map_some, List.drop_left]

/-- No type is named behind digits that the text stops behind. -/
theorem suffix?_digits {ds rest : List Char} (hds : ∀ c ∈ ds, c.isDigit = true)
    (hrest : Stops rest) : suffix? (ds ++ rest) = none := by
  have hrun := hrest.run isStop_not_wholeChar fun c hc => isWholeChar_of_isDigit (hds c hc)
  have hnames : ∀ t ∈ WholeType.all, (t.name.toList.head?.any fun c => !isStop c) = true := by
    decide
  rw [suffix?, hrun.2, List.find?_eq_none]
  intro t ht
  rw [hrest.keyword_eq_none (hnames t ht)]
  exact Bool.false_ne_true

theorem splitSign_digit {c : Char} (hc : c.isDigit = true) (cs : List Char) :
    Single.splitSign (c :: cs) = (false, c :: cs) := by
  have hminus : c ≠ '-' := by rintro rfl; cases hc
  have hplus : c ≠ '+' := by rintro rfl; cases hc
  simp [Single.splitSign, hminus, hplus]

theorem wholeText_eq (n : Int) :
    wholeText n = (if n < 0 then ['-'] else []) ++ Nat.toDigits 10 n.natAbs := by
  rw [wholeText]
  split <;> rfl

theorem isDigit_toDigits (n : Nat) : ∀ c ∈ Nat.toDigits 10 n, c.isDigit = true := fun _ hc =>
  Nat.isDigit_of_mem_toDigits (by decide) (Nat.le_refl 10) hc

/-- **A whole number is read by every type that has it.** -/
theorem wholeNumber_reads {type : WholeType} {n : Int} (hn : type.contains n = true)
    (hwide : (WholeType.widest (n < 0)).contains n = true) :
    Reads (wholeNumber type) (wholeText n) n := by
  intro rest hrest
  have hds := isDigit_toDigits n.natAbs
  obtain ⟨c, cs, htext⟩ :=
    List.exists_cons_of_ne_nil (Nat.toDigits_ne_nil (n := n.natAbs) (b := 10))
  have hsplit : Single.splitSign (wholeText n ++ rest) =
      (decide (n < 0), Nat.toDigits 10 n.natAbs ++ rest) := by
    rw [wholeText_eq]
    by_cases hneg : n < 0
    · simp [hneg, Single.splitSign]
    · have hc : c.isDigit = true := hds c (by rw [htext]; exact List.mem_cons_self)
      simp only [hneg, if_false, List.nil_append, decide_false]
      rw [htext, List.cons_append, splitSign_digit hc]
  have hvalue : (if decide (n < 0) = true then -(n.natAbs : Int) else n.natAbs) = n := by
    by_cases hneg : n < 0
    · rw [if_pos (decide_eq_true hneg)]
      omega
    · rw [if_neg (by simpa using hneg)]
      omega
  have htyped : typedWhole (wholeText n ++ rest) = some ((none, n), rest) := by
    simp only [typedWhole, hsplit, suffix?_digits hds hrest,
      magnitude_digits hds Nat.toDigits_ne_nil hrest, Single.digitsValue_toDigits, hvalue,
      Option.getD_none, hwide, if_true, Option.elim_none, List.drop_zero]
  simp only [wholeNumber, htyped, hn, Option.all_none, and_self, if_true]

/-! ## 3. Fractional numbers -/

theorem isStop_not_fractionChar : isFractionChar ',' = false ∧ isFractionChar ':' = false ∧
    isFractionChar '(' = false ∧ isFractionChar ')' = false := by
  decide

/-- No width is named where a text stops. -/
theorem width_stops {rest : List Char} (hrest : Stops rest) : width rest = (none, rest) := by
  have hnone : fractionWidths.find? (fun w => (keyword w.toList rest).isSome) = none := by
    have hnames : ∀ w ∈ fractionWidths, (w.toList.head?.any fun c => !isStop c) = true := by decide
    rw [List.find?_eq_none]
    intro w hw
    rw [hrest.keyword_eq_none (hnames w hw)]
    exact Bool.false_ne_true
  rw [width, hnone]

theorem head?_any_identContinue {rest : List Char} (hrest : Stops rest) :
    rest.head?.any Text.isIdentContinue = false := by
  cases rest with
  | nil => rfl
  | cons c rest =>
    exact hrest.head (p := fun c => Text.isIdentContinue c = false) isIdentContinue_stop c rfl

/-- A word for infinity or for what is not a number is taken where no word before it in the list
stands. -/
theorem typedFraction_word {b after : List String} {word : String} {x : Single}
    (hwords : fractionWords = b ++ word :: after) {rest : List Char} (hrest : Stops rest)
    (hbefore : ∀ w ∈ b, token w.toList (word.toList ++ rest) = none)
    (hword : Single.ofText? word.toList = some x) :
    typedFraction (word.toList ++ rest) = some ((none, x), rest) := by
  have hfraction : fractionWord (word.toList ++ rest) = some ((none, x), rest) := by
    rw [fractionWord, hwords, List.findSome?_append, List.findSome?_eq_none_iff.2, Option.none_or,
      List.findSome?_cons, token_append]
    · simp only [Option.bind_eq_bind, Option.bind_some, width_stops hrest, hword,
        head?_any_identContinue hrest, Bool.false_eq_true, if_false]
    · intro w hw
      rw [hbefore w hw]
      rfl
  rw [typedFraction, hfraction, Option.some_or]

/-- Text without underscores loses none. -/
theorem dropUnderscores_eq : ∀ {l : List Char} (allowed : Bool), '_' ∉ l →
    dropUnderscores allowed l = some l
  | [], _, _ => rfl
  | c :: l, allowed, h => by
    have hc : ¬c = '_' := fun hc => h (hc ▸ List.mem_cons_self)
    have hl : '_' ∉ l := fun hl => h (List.mem_cons_of_mem c hl)
    simp only [dropUnderscores, if_neg hc, dropUnderscores_eq _ hl, Option.map_some]

/-- A run of characters of a number, with a digit behind its sign, is no word. -/
theorem typedFraction_run {c : Char} (hc : c.isDigit = true) {cs : List Char} (negative : Bool)
    {x : Single} (hchars : ∀ d ∈ cs, d.isDigit = true ∨ d = '.')
    (hvalue : Single.ofText? ((if negative then ['-'] else []) ++ c :: cs) = some x)
    {rest : List Char} (hrest : Stops rest) :
    typedFraction ((if negative then ['-'] else []) ++ c :: cs ++ rest) =
      some ((none, x), rest) := by
  have hnot : ∀ d, d.isDigit = false → d ≠ c := by
    rintro d hd rfl
    rw [hc] at hd
    cases hd
  have hword : fractionWord ((if negative then ['-'] else []) ++ c :: cs ++ rest) = none := by
    rw [fractionWord, List.findSome?_eq_none_iff]
    have hi := hnot 'i' rfl
    have hn := hnot 'N' rfl
    have hplus := hnot '+' rfl
    have hminus := hnot '-' rfl
    intro w hw
    have htoken : token w.toList ((if negative then ['-'] else []) ++ c :: cs ++ rest) = none := by
      cases negative <;> revert w <;> simp [fractionWords, token, hi, hn, hplus, hminus]
    rw [htoken]
    rfl
  have hall : ∀ d ∈ (if negative then ['-'] else []) ++ c :: cs,
      d.isDigit = true ∨ d = '.' ∨ d = '-' := by
    intro d hd
    rcases List.mem_append.1 hd with hd | hd
    · cases negative with
      | true => exact .inr (.inr (List.mem_singleton.1 hd))
      | false => cases hd
    · rcases List.mem_cons.1 hd with rfl | hd
      · exact .inl hc
      · exact (hchars d hd).elim .inl fun h => .inr (.inl h)
  generalize (if negative then ['-'] else []) ++ c :: cs = l at hvalue hword hall
  have hunder : '_' ∉ l := fun h => by
    rcases hall _ h with h | h | h <;> cases h
  have hrun := hrest.run isStop_not_fractionChar fun d hd => by
    rcases hall d hd with h | rfl | rfl
    · rw [isFractionChar, h]; rfl
    · rfl
    · rfl
  rw [typedFraction, hword, Option.none_or, hrun.1]
  simp only [Option.bind_eq_bind, dropUnderscores_eq false hunder, Option.bind_some, hvalue,
    List.drop_left, width_stops hrest]

theorem singleText_of_not_isNaN {x : Single} (hnan : x.isNaN = false) :
    singleText x = (if x.negative then ['-'] else []) ++ (x.unsignedText ++ x.pointZero) := by
  rw [singleText, Single.shortestText, hnan, Single.pointZero]
  cases x.negative <;> simp

theorem singleText_infinite {x : Single} (hx : x.isInfinite = true) (hnan : x.isNaN = false) :
    singleText x = (if x.negative then "-inf" else "inf").toList := by
  have hfinite : x.isFinite = false := by
    rw [Single.isInfinite, decide_eq_true_eq] at hx
    simp [Single.isFinite, hx]
  rw [singleText, Single.shortestText, hnan, Single.isWhole, hfinite, Single.unsignedText, hx]
  cases x.negative <;> rfl

theorem singleText_nan {x : Single} (hx : x.isNaN = true) (hfinite : x.isFinite = false) :
    singleText x = (if x.negative then "-NaN" else "NaN").toList := by
  rw [singleText, Single.shortestText, hx, Single.isWhole, hfinite]
  cases x.negative <;> rfl

/-- **A fractional number is read as itself**, up to the payload of a NaN. -/
theorem typedFraction_singleText (x : Single) {rest : List Char} (hrest : Stops rest) :
    typedFraction (singleText x ++ rest) = some ((none, x.quiet), rest) := by
  rcases x.finite_cases with ⟨hx, hnan⟩ | ⟨hx, hnan⟩ | ⟨hnan, hx⟩
  · obtain ⟨⟨c, cs, htext, hc⟩, hchars⟩ := Single.unsignedText_chars hx
    have hvalue := Single.ofText?_finite hx
    rw [singleText_of_not_isNaN hnan, Single.quiet_of_not_isNaN hnan]
    rw [htext, List.cons_append] at hvalue ⊢
    refine typedFraction_run hc x.negative (fun d hd => ?_) hvalue hrest
    rcases List.mem_append.1 hd with hd | hd
    · exact hchars d (by rw [htext]; exact List.mem_cons_of_mem c hd)
    · rw [Single.pointZero] at hd
      split at hd
      · rcases List.mem_cons.1 hd with rfl | hd
        · exact .inr rfl
        · exact .inl (Single.isDigit_zero d hd)
      · cases hd
  · have hself : x = Single.infinity x.negative := by
      rw [Single.isInfinite, decide_eq_true_eq] at hx
      rw [Single.infinity, ← hx, Single.ofMagnitude_magnitude]
    rw [singleText_infinite hx hnan, Single.quiet_of_not_isNaN hnan, hself]
    cases x.negative with
    | true =>
      exact typedFraction_word (b := ["inf", "+inf"]) rfl hrest (by simp [token]) rfl
    | false => exact typedFraction_word (b := []) rfl hrest (by simp) rfl
  · rw [singleText_nan hnan hx, Single.quiet, if_pos hnan]
    cases x.negative with
    | true =>
      exact typedFraction_word (b := ["inf", "+inf", "-inf", "NaN", "+NaN"]) rfl hrest
        (by simp [token]) rfl
    | false =>
      exact typedFraction_word (b := ["inf", "+inf", "-inf"]) rfl hrest (by simp [token]) rfl

theorem singleNumber_reads (x : Single) : Reads singleNumber (singleText x) x.quiet := by
  intro rest hrest
  rw [singleNumber, typedFraction_singleText x hrest]
  rfl

/-! ## 4. How numbers start -/

theorem isOpening_of_isDigit {c : Char} (hc : c.isDigit = true) : isOpening c = true := by
  have hne : ∀ d, d.isDigit = false → c ≠ d := by
    rintro d hd rfl
    rw [hc] at hd
    cases hd
  have hblank : Text.isBlank c = false := by
    have hnat := Char.isDigit_iff_toNat.1 hc
    have hzero : '0'.toNat = 48 := rfl
    have hnine : '9'.toNat = 57 := rfl
    simp only [Text.isBlank, List.contains_eq_mem, List.mem_cons, List.not_mem_nil, or_false,
      decide_eq_false_iff_not]
    omega
  simp [isOpening, hblank, hne]

theorem opens_wholeText (n : Int) : Opens (wholeText n) := by
  rw [wholeText_eq]
  split
  · exact opens_cons (by decide) _
  · obtain ⟨c, cs, htext⟩ :=
      List.exists_cons_of_ne_nil (Nat.toDigits_ne_nil (n := n.natAbs) (b := 10))
    have hc := isDigit_toDigits n.natAbs c (by rw [htext]; exact List.mem_cons_self)
    rw [List.nil_append, htext]
    exact opens_cons (isOpening_of_isDigit hc) cs

theorem opens_singleText (x : Single) : Opens (singleText x) := by
  rcases x.finite_cases with ⟨hx, hnan⟩ | ⟨hx, hnan⟩ | ⟨hnan, hx⟩
  · obtain ⟨⟨c, cs, htext, hc⟩, -⟩ := Single.unsignedText_chars hx
    rw [singleText_of_not_isNaN hnan, htext]
    cases x.negative
    · exact opens_cons (isOpening_of_isDigit hc) _
    · exact opens_cons (by decide) _
  · rw [singleText_infinite hx hnan]
    cases x.negative <;> exact opens_cons (by decide) _
  · rw [singleText_nan hnan hx]
    cases x.negative <;> exact opens_cons (by decide) _

end Tree

end FlowScript
