/-
# Quoted text reads back

Text between quotes is read as it was, whatever characters it has (`string_reads`).  One character
is one step: the reader takes from the front what `escapeChar` wrote for it and nothing else
(`quotedUpTo_escapeChar`), be it the character itself, an escape of one letter, or its number.
Identifiers are written as digits in groups and read back as well (`Uuid.ofText?_toText`).
-/
import FlowScript.Tree.Quoted
import FlowScript.Uuid
import FlowScript.Proofs.Scanning

namespace FlowScript

/-! ## 1. Characters by number -/

namespace Text

theorem hexValue?_digitChar : ∀ d < 16, hexValue? (Nat.digitChar d) = some d := by decide

/-- Hexadecimal digits have the value that they were written for. -/
theorem hexNat?_hexText (n : Nat) : hexNat? (hexText n) = some n := by
  unfold hexText
  induction n using Nat.strongRecOn with
  | ind n ih =>
    rw [Nat.toDigits_eq_if (by decide)]
    split
    · next hsmall =>
      rw [hexNat?, List.foldl_cons, hexValue?_digitChar n hsmall]
      simp
    · next hlarge =>
      have hrest := ih (n / 16) (by omega)
      have hlast := hexValue?_digitChar (n % 16) (Nat.mod_lt n (by decide))
      unfold hexNat? at hrest ⊢
      rw [List.foldl_append, hrest, List.foldl_cons, hlast, List.foldl_nil]
      simp only [Option.some.injEq]
      omega

/-- A code point has at most six hexadecimal digits. -/
theorem length_hexText_le (c : Char) : (hexText c.toNat).length ≤ 6 := by
  have hlt : c.toNat < 16 ^ 6 := by
    rcases c.valid with h | h
    · exact Nat.lt_trans h (by decide)
    · exact Nat.lt_trans h.2 (by decide)
  rwa [hexText, Nat.length_toDigits_le_iff (by decide) (by decide)]

theorem exists_digit_of_mem_hexText {n : Nat} {c : Char} (hc : c ∈ hexText n) :
    ∃ d, c = Nat.digitChar d := by
  unfold hexText at hc
  induction n using Nat.strongRecOn with
  | ind n ih =>
    rw [Nat.toDigits_eq_if (by decide)] at hc
    split at hc
    · exact ⟨n, List.mem_singleton.1 hc⟩
    · next hlarge =>
      rcases List.mem_append.1 hc with hc | hc
      · exact ih (n / 16) (by omega) hc
      · exact ⟨n % 16, List.mem_singleton.1 hc⟩

end Text

/-! ## 2. Quoted text -/

namespace Tree

theorem charOfCode?_toNat (c : Char) : charOfCode? c.toNat = some c := by
  have hvalid : c.toNat.isValidChar := c.valid
  rw [charOfCode?, if_pos hvalid, Char.ofNat_toNat]

/-- A number in braces is taken as the character that has it. -/
theorem codeEscape_hexText (c : Char) (rest : List Char) :
    codeEscape ('\x7b' :: (Text.hexText c.toNat ++ '\x7d' :: rest)) = some (c, rest) := by
  have hshort := Text.length_hexText_le c
  have hbrace : ∀ d ∈ Text.hexText c.toNat, decide (d ≠ '\x7d') = true := by
    intro d hd
    obtain ⟨n, rfl⟩ := Text.exists_digit_of_mem_hexText hd
    simp
  have hdigits : ((Text.hexText c.toNat ++ '\x7d' :: rest).take 6).takeWhile (· ≠ '\x7d') =
      Text.hexText c.toNat := by
    rw [List.take_append, List.take_of_length_le hshort, List.takeWhile_append_of_pos hbrace]
    cases 6 - (Text.hexText c.toNat).length <;> simp
  have hne : Text.hexText c.toNat ≠ [] := Nat.toDigits_ne_nil
  simp only [codeEscape, token_singleton, Option.bind_eq_bind, Option.bind_some, hdigits,
    List.drop_left, hne, if_false, Text.hexNat?_hexText, charOfCode?_toNat]

/-- **What is written for a character is read as that character.** -/
theorem quotedUpTo_escapeChar (byte : Reader Char) (c b : Char) (budget cs : List Char) :
    quotedUpTo byte (b :: budget) (escapeChar c ++ cs) =
      (quotedUpTo byte budget cs).map fun r => (c :: r.1, r.2) := by
  have hletter : ∀ a, letterEscape? a = some c → a ≠ 'x' → a ≠ 'u' →
      quotedUpTo byte (b :: budget) ('\\' :: a :: cs) =
        (quotedUpTo byte budget cs).map fun r => (c :: r.1, r.2) := by
    intro a ha hx hu
    simp [quotedUpTo, escape, hx, hu, ha]
  unfold escapeChar
  split
  · next h => subst h; exact hletter '0' rfl (by decide) (by decide)
  split
  · next h => subst h; exact hletter 't' rfl (by decide) (by decide)
  split
  · next h => subst h; exact hletter 'r' rfl (by decide) (by decide)
  split
  · next h => subst h; exact hletter 'n' rfl (by decide) (by decide)
  split
  · next h => subst h; exact hletter '\'' rfl (by decide) (by decide)
  split
  · next h => subst h; exact hletter '"' rfl (by decide) (by decide)
  split
  · next h => subst h; exact hletter '\\' rfl (by decide) (by decide)
  split
  · have hcode := codeEscape_hexText c cs
    simp [quotedUpTo, escape, hcode]
  · next hquote hslash _ => simp [quotedUpTo, hquote, hslash]

theorem escapeChar_ne_nil (c : Char) : escapeChar c ≠ [] := by
  unfold escapeChar
  repeat' split
  all_goals simp

theorem quotedUpTo_chars (byte : Reader Char) (rest : List Char) :
    ∀ s budget : List Char, s.length < budget.length →
      quotedUpTo byte budget (s.flatMap escapeChar ++ '"' :: rest) = .ok (s, rest)
  | _, [], h => absurd h (Nat.not_lt_zero _)
  | [], _ :: _, _ => by simp [quotedUpTo]
  | c :: s, b :: budget, h => by
    rw [List.flatMap_cons, List.append_assoc, quotedUpTo_escapeChar,
      quotedUpTo_chars byte rest s budget (Nat.lt_of_succ_lt_succ h)]
    rfl

theorem length_le_escaped (s : List Char) : s.length ≤ (s.flatMap escapeChar).length := by
  induction s with
  | nil => exact Nat.le_refl 0
  | cons c s ih =>
    have hpos := List.length_pos_iff.2 (escapeChar_ne_nil c)
    rw [List.flatMap_cons, List.length_append, List.length_cons]
    omega

/-- **Quoted text is read as the text**, whatever it consists of and whatever follows. -/
theorem string_quote (s : String) (rest : List Char) :
    string (quote s ++ rest) = some (s, rest) := by
  have hbudget : s.toList.length <
      ('"' :: (s.toList.flatMap escapeChar ++ '"' :: rest)).length := by
    have hle := length_le_escaped s.toList
    simp only [List.length_cons, List.length_append]
    omega
  have htext : quote s ++ rest = '"' :: (s.toList.flatMap escapeChar ++ '"' :: rest) := by
    simp [quote]
  rw [htext, string, quotedText, anyQuoted, if_pos rfl, quoted, quotedUpTo_chars _ _ _ _ hbudget]
  simp

theorem string_reads (s : String) : Reads string (quote s) s := fun rest _ => string_quote s rest

theorem opens_quote (s : String) : Opens (quote s) := opens_cons (by decide) _

end Tree

/-! ## 3. Identifiers -/

namespace Uuid

/-- Groups are put together again. -/
theorem ofGrouped?_grouped {ds : List Char} (hds : ds.length = 32) :
    (grouped ds).length = 36 ∧ ofGrouped? (grouped ds) = ofDigits? ds := by
  obtain ⟨a, b, c, d, e, rfl, ha, hb, hc, hd, he⟩ : ∃ a b c d e, ds = a ++ (b ++ (c ++ (d ++ e))) ∧
      a.length = 8 ∧ b.length = 4 ∧ c.length = 4 ∧ d.length = 4 ∧ e.length = 12 := by
    refine ⟨ds.take 8, (ds.drop 8).take 4, (ds.drop 12).take 4, (ds.drop 16).take 4, ds.drop 20,
      ?_, ?_, ?_, ?_, ?_, ?_⟩
    · have h : ∀ n k, (ds.drop n).take k ++ ds.drop (n + k) = ds.drop n := fun n k => by
        rw [← List.drop_drop, List.take_append_drop]
      rw [h 16 4, h 12 4, h 8 4, List.take_append_drop]
    all_goals simp [hds]
  have ha' : ∀ k, 8 ≤ k → a.drop k = [] := fun k hk => List.drop_eq_nil_of_le (ha ▸ hk)
  have hb' : ∀ k, 4 ≤ k → b.drop k = [] := fun k hk => List.drop_eq_nil_of_le (hb ▸ hk)
  have hc' : ∀ k, 4 ≤ k → c.drop k = [] := fun k hk => List.drop_eq_nil_of_le (hc ▸ hk)
  have hd' : ∀ k, 4 ≤ k → d.drop k = [] := fun k hk => List.drop_eq_nil_of_le (hd ▸ hk)
  have hgrouped : grouped (a ++ (b ++ (c ++ (d ++ e)))) =
      a ++ '-' :: (b ++ '-' :: (c ++ '-' :: (d ++ '-' :: e))) := by
    simp [grouped, List.drop_append, ha, hb, hc, hd, ha', hb', hc']
  rw [hgrouped]
  refine ⟨by simp [ha, hb, hc, hd, he], ?_⟩
  simp [ofGrouped?, List.drop_append, ha, hb, hc, hd, he, ha', hb', hc', hd']

/-- **The text of an identifier is read as the identifier.** -/
theorem ofText?_toText (u : Uuid) : ofText? u.toText = some u := by
  have hlength := Text.length_hexDigits 32 u.toNat
  obtain ⟨htext, hgroups⟩ := ofGrouped?_grouped hlength
  have hvalue : u.toNat % Nat.pow 16 32 = u.toNat := Nat.mod_eq_of_lt u.value.isLt
  have hself : ofNat u.toNat = u := by
    rw [ofNat, toNat, BitVec.ofNat_toNat, BitVec.setWidth_eq]
  simp only [ofText?, toText, String.toList_ofList, htext, hgroups]
  rw [if_neg (by decide), if_pos trivial, ofDigits?, if_pos hlength, Text.hexNat?_hexDigits, hvalue,
    Option.map_some, hself]

end Uuid

end FlowScript
