/-
# Decimal text reads back

The printed text of a finite number is read as the number itself (`ofText?_finite`), whether its
point is shown or not.  Three facts carry this.

* A ratio that is a whole number of units is rounded to the number with these units
  (`roundMagnitude_units`), and rounding depends on the ratio alone (`roundMagnitude_mul`).
* A decimal depends on its value alone: a zero at the end of the coefficient may be moved into the
  exponent (`ofDecimal_mul_pow`).
* The layout keeps the value: what is read of digits laid out around a point is the coefficient with
  the exponent it was laid out for (`readUnsigned?_positional`).

A whole number has a whole shortest decimal (`shortest_whole`) and is laid out without a point,
which is why `.0` may follow it.
-/
import FlowScript.Single.Decimal
import Mathlib.Data.List.TakeWhile
import Mathlib.Tactic.ByContra
import Mathlib.Tactic.NormNum
import Mathlib.Tactic.Ring

namespace FlowScript.Single

/-! ## 1. Rounding a ratio -/

theorem roundHalfEven_mul {a : Nat} (ha : 0 < a) (num den : Nat) :
    roundHalfEven (a * num) (a * den) = roundHalfEven num den := by
  have hless : 2 * (a * (num % den)) < a * den ↔ 2 * (num % den) < den := by
    rw [Nat.mul_left_comm]
    exact Nat.mul_lt_mul_left ha
  have hmore : a * den < 2 * (a * (num % den)) ↔ den < 2 * (num % den) := by
    rw [Nat.mul_left_comm]
    exact Nat.mul_lt_mul_left ha
  simp only [roundHalfEven, Nat.mul_div_mul_left _ _ ha, Nat.mul_mod_mul_left, hless, hmore]

/-- **Rounding depends on the ratio alone.** -/
theorem roundMagnitude_mul {a : Nat} (ha : 0 < a) (num den : Nat) :
    roundMagnitude (a * num) (a * den) = roundMagnitude num den := by
  simp only [roundMagnitude, Nat.mul_div_mul_left _ _ ha, Nat.mul_assoc, roundHalfEven_mul ha]

theorem ofRatio_mul {a : Nat} (ha : 0 < a) (negative : Bool) (num den : Nat) :
    ofRatio negative (a * num) (a * den) = ofRatio negative num den := by
  rw [ofRatio, ofRatio, roundMagnitude_mul ha]

/-- A whole multiple of the divisor is not rounded. -/
theorem roundHalfEven_exact {den : Nat} (hden : 0 < den) (n : Nat) :
    roundHalfEven (n * den) den = n := by
  simp [roundHalfEven, Nat.mul_div_cancel n hden, hden]

/-- Units below one exponent are their own pattern. -/
theorem roundMagnitude_fraction {f : Nat} (hf : f < perExponent) : roundMagnitude f 1 = f := by
  have hsmall : f < 2 * perExponent :=
    Nat.lt_of_lt_of_le hf (Nat.le_mul_of_pos_left _ Nat.two_pos)
  have hround : roundHalfEven f 1 = f := by simpa using roundHalfEven_exact Nat.one_pos f
  have hmin : f ≤ infinityMagnitude := Nat.le_trans (Nat.le_of_lt hf) (by decide)
  simp only [roundMagnitude, Nat.div_one, hsmall, if_true, Nat.zero_mul, Nat.zero_add, Nat.pow_eq,
    Nat.pow_zero, Nat.mul_one, hround]
  exact Nat.min_eq_right hmin

/-- The shift of units whose significand has its leading bit: it lies in `[2 ^ 23, 2 ^ 24)`, so the
units lie between two powers. -/
theorem shift_significand {m : Nat} (hlow : 2 ^ 23 ≤ m) (hhigh : m < 2 ^ 24) (k : Nat) :
    (if m * 2 ^ k < 2 * perExponent then 0 else Nat.log2 (m * 2 ^ k) - 23) = k := by
  have hp : perExponent = 2 ^ 23 := rfl
  have hge : 2 ^ 23 * 2 ^ k ≤ m * 2 ^ k := Nat.mul_le_mul_right _ hlow
  have hlt : m * 2 ^ k < 2 ^ 24 * 2 ^ k := Nat.mul_lt_mul_of_pos_right hhigh (Nat.two_pow_pos k)
  rw [hp]
  split
  · next hsmall =>
    by_contra hne
    have htwo : 2 ^ 23 * 2 ≤ 2 ^ 23 * 2 ^ k :=
      Nat.mul_le_mul_left _ (Nat.le_self_pow (Ne.symm hne) 2)
    omega
  · next hlarge =>
    have hlog : Nat.log2 (m * 2 ^ k) = 23 + k := by
      rw [Nat.log2_eq_iff (by omega), Nat.pow_add, show 23 + k + 1 = 24 + k by omega, Nat.pow_add]
      exact ⟨hge, hlt⟩
    omega

theorem roundMagnitude_significand {m k : Nat} (hlow : 2 ^ 23 ≤ m) (hhigh : m < 2 ^ 24)
    (hfinite : k * perExponent + m ≤ infinityMagnitude) :
    roundMagnitude (m * 2 ^ k) 1 = k * perExponent + m := by
  simp only [roundMagnitude, Nat.div_one, shift_significand hlow hhigh, Nat.one_mul, Nat.pow_eq,
    roundHalfEven_exact (Nat.two_pow_pos k)]
  exact Nat.min_eq_right hfinite

/-- **A whole number of units is exact**: rounding gives back the magnitude that has them. -/
theorem roundMagnitude_units {x : Single} (hx : x.isFinite = true) :
    roundMagnitude x.units 1 = x.magnitude := by
  have hlt : x.magnitude < infinityMagnitude := by simpa [isFinite] using hx
  have hsplit := Nat.div_add_mod x.magnitude perExponent
  have hfrac : x.magnitude % perExponent < perExponent := Nat.mod_lt _ (by decide)
  generalize he : x.magnitude / perExponent = e at hsplit
  generalize hf : x.magnitude % perExponent = f at hsplit hfrac
  cases e with
  | zero =>
    have hu : x.units = f := by simp only [units, he, hf, if_true]
    rw [hu, roundMagnitude_fraction hfrac, ← hsplit, Nat.mul_zero, Nat.zero_add]
  | succ k =>
    have hu : x.units = (f + perExponent) * 2 ^ k := by
      simp only [units, he, hf, Nat.succ_ne_zero, if_false, Nat.add_sub_cancel, Nat.pow_eq]
    have hmag : k * perExponent + (f + perExponent) = x.magnitude := by
      rw [← hsplit, Nat.mul_add_one, Nat.mul_comm k]
      ac_rfl
    have hp : perExponent = 2 ^ 23 := rfl
    rw [hu, roundMagnitude_significand (by omega) (by omega) (by omega), hmag]

/-- A pattern is its sign and its magnitude. -/
theorem ofMagnitude_magnitude (x : Single) : ofMagnitude x.negative x.magnitude = x := by
  have hlt : x.bits.toNat < 2 * signBit := x.bits.toNat_lt
  have hbits : (if x.negative then signBit + x.magnitude else x.magnitude) = x.bits.toNat := by
    rcases Nat.lt_or_ge x.bits.toNat signBit with hpos | hneg
    · have hn : x.negative = false := by simp [negative, Nat.not_le.2 hpos]
      rw [hn]
      exact Nat.mod_eq_of_lt hpos
    · have hn : x.negative = true := by simp [negative, hneg]
      rw [hn, magnitude, Nat.mod_eq_sub_mod hneg, Nat.mod_eq_of_lt (by omega)]
      simp only [if_true]
      omega
  rw [ofMagnitude, hbits, UInt32.ofNat_toNat]

/-- **An exact ratio gives the number back.** -/
theorem ofRatio_units {x : Single} (hx : x.isFinite = true) {d : Nat} (hd : 0 < d) :
    ofRatio x.negative (x.units * d) d = x := by
  have hscaled := ofRatio_mul hd x.negative x.units 1
  rw [Nat.mul_one, Nat.mul_comm d] at hscaled
  rw [hscaled, ofRatio, roundMagnitude_units hx, ofMagnitude_magnitude]

/-! ## 2. Decimals by their value -/

theorem digitsValue_eq (cs : List Char) : digitsValue cs = Nat.ofDigitChars 10 cs 0 :=
  Nat.ofDigitChars_eq_foldl.symm

theorem digitsValue_toDigits (n : Nat) : digitsValue (Nat.toDigits 10 n) = n := by
  rw [digitsValue_eq, Nat.ofDigitChars_ten_toDigits]

theorem digitsValue_append (cs ds : List Char) :
    digitsValue (cs ++ ds) = 10 ^ ds.length * digitsValue cs + digitsValue ds := by
  rw [digitsValue_eq, Nat.ofDigitChars_append, Nat.ofDigitChars_eq_ofDigitChars_zero,
    ← digitsValue_eq, ← digitsValue_eq]

theorem digitsValue_zeros (n : Nat) : digitsValue (List.replicate n '0') = 0 := by
  rw [digitsValue_eq, Nat.ofDigitChars_replicate_zero, Nat.mul_zero]

/-- A zero behind a number makes it one digit longer. -/
theorem length_toDigits_ten_mul {c : Nat} (hc : 0 < c) :
    (Nat.toDigits 10 (10 * c)).length = (Nat.toDigits 10 c).length + 1 := by
  have happend := Nat.toDigits_append_toDigits (b := 10) (d := 0) (by decide) hc (by decide)
  rw [Nat.add_zero] at happend
  rw [← happend, List.length_append, Nat.toDigits_zero, List.length_singleton]

/-- A zero at the end of a coefficient is one more in the exponent. -/
theorem ofDecimal_ten_mul (negative : Bool) (c : Nat) (e : Int) :
    ofDecimal negative (10 * c) e = ofDecimal negative c (e + 1) := by
  rcases Nat.eq_zero_or_pos c with rfl | hc
  · simp [ofDecimal]
  have hplaces : ((Nat.toDigits 10 (10 * c)).length : Int) + e =
      (Nat.toDigits 10 c).length + (e + 1) := by
    rw [length_toDigits_ten_mul hc]
    omega
  have hzero : 10 * c = 0 ↔ c = 0 := by omega
  have hvalue : (if 0 ≤ e then ofRatio negative (10 * c * Nat.pow 10 e.toNat * unitsPerOne) 1
        else ofRatio negative (10 * c * unitsPerOne) (Nat.pow 10 (-e).toNat)) =
      if 0 ≤ e + 1 then ofRatio negative (c * Nat.pow 10 (e + 1).toNat * unitsPerOne) 1
      else ofRatio negative (c * unitsPerOne) (Nat.pow 10 (-(e + 1)).toNat) := by
    rcases Int.lt_or_le e 0 with hneg | hpos
    · obtain ⟨k, rfl⟩ : ∃ k : Nat, e = -(k : Int) - 1 := ⟨(-e - 1).toNat, by omega⟩
      have hpow : (-(-(k : Int) - 1)).toNat = k + 1 := by omega
      have hcancel : ofRatio negative (10 * c * unitsPerOne) (Nat.pow 10 (k + 1)) =
          ofRatio negative (c * unitsPerOne) (Nat.pow 10 k) := by
        rw [Nat.mul_assoc, Nat.pow_eq, Nat.pow_eq, Nat.pow_succ', ofRatio_mul (by decide)]
      rw [if_neg (by omega), hpow, hcancel]
      -- the last zero behind the point turns the decimal into a whole number
      cases k with
      | zero => simp
      | succ k =>
        have hrest : (-(-((k + 1 : Nat) : Int) - 1 + 1)).toNat = k + 1 := by omega
        rw [if_neg (by omega), hrest]
    · have hpow : (e + 1).toNat = e.toNat + 1 := by omega
      have hnum : 10 * c * Nat.pow 10 e.toNat = c * Nat.pow 10 (e.toNat + 1) := by
        rw [Nat.pow_eq, Nat.pow_eq, Nat.pow_succ]
        ring
      rw [if_pos hpos, if_pos (by omega), hpow, hnum]
  simp only [ofDecimal, hplaces, hzero, hvalue]

/-- **A decimal depends on its value alone.** -/
theorem ofDecimal_mul_pow (negative : Bool) (c : Nat) (k : Nat) (e : Int) :
    ofDecimal negative (c * 10 ^ k) e = ofDecimal negative c (e + k) := by
  induction k generalizing e with
  | zero => simp
  | succ k ih =>
    have hstep : c * 10 ^ (k + 1) = 10 * (c * 10 ^ k) := by rw [Nat.pow_succ']; ac_rfl
    rw [hstep, ofDecimal_ten_mul, ih]
    congr 1
    omega

/-- A decimal that is a whole number of units, and neither too large nor too small to be looked at,
is the number with these units. -/
theorem ofDecimal_units {x : Single} (hx : x.isFinite = true) {c k : Nat} {e : Int}
    (hc : c ≠ 0) (hlow : -60 ≤ ((Nat.toDigits 10 c).length : Int) + e)
    (hhigh : ((Nat.toDigits 10 c).length : Int) + e ≤ 60) (he : e = -(k : Int))
    (hunits : c * unitsPerOne = x.units * 10 ^ k) : ofDecimal x.negative c e = x := by
  subst he
  have hratio : ofRatio x.negative (c * unitsPerOne) (Nat.pow 10 k) = x := by
    rw [hunits]
    exact ofRatio_units hx (Nat.pow_pos (by decide))
  have hfirst : ¬(c = 0 ∨ ((Nat.toDigits 10 c).length : Int) + -(k : Int) < -60) := by omega
  have hsecond : ¬60 < ((Nat.toDigits 10 c).length : Int) + -(k : Int) := by omega
  simp only [ofDecimal, hfirst, hsecond, if_false]
  cases k with
  | zero => simpa using hratio
  | succ k =>
    have hpow : (-(-((k + 1 : Nat) : Int))).toNat = k + 1 := by omega
    rw [if_neg (by omega), hpow, hratio]

/-! ## 3. The shortest decimal -/

/-- The largest finite number has `2 ^ 24 - 1` at the highest exponent. -/
theorem units_lt {x : Single} (hx : x.isFinite = true) : x.units < 2 ^ 24 * 2 ^ 253 := by
  have hlt : x.magnitude < infinityMagnitude := by simpa [isFinite] using hx
  have hexp : x.magnitude / perExponent < 255 := Nat.div_lt_of_lt_mul hlt
  have hfrac : x.magnitude % perExponent < 2 ^ 23 := Nat.mod_lt _ (by decide)
  have hp : perExponent = 2 ^ 23 := rfl
  simp only [units, Nat.pow_eq]
  split
  · exact Nat.lt_trans hfrac (by norm_num)
  · calc (x.magnitude % perExponent + perExponent) * 2 ^ (x.magnitude / perExponent - 1)
        < 2 ^ 24 * 2 ^ (x.magnitude / perExponent - 1) :=
          Nat.mul_lt_mul_of_pos_right (by omega) (Nat.two_pow_pos _)
      _ ≤ 2 ^ 24 * 2 ^ 253 :=
          Nat.mul_le_mul_left _ (Nat.pow_le_pow_right Nat.two_pos (by omega))

theorem candidate?_reads {x : Single} {e : Int} {found : Nat × Int}
    (hfound : candidate? x e = some found) : ofDecimal x.negative found.1 found.2 = x := by
  simp only [candidate?, Option.map_eq_some_iff] at hfound
  obtain ⟨c, hc, rfl⟩ := hfound
  simpa using List.find?_some hc

/-- The exact decimal expansion reads back. -/
theorem ofDecimal_expansion {x : Single} (hx : x.isFinite = true) (hpos : x.units ≠ 0) :
    ofDecimal x.negative (x.units * 5 ^ 149) (-149) = x := by
  have hlower : 5 ^ 149 ≤ x.units * 5 ^ 149 :=
    Nat.le_mul_of_pos_left _ (Nat.pos_of_ne_zero hpos)
  have hupper : x.units * 5 ^ 149 < 2 ^ 24 * 2 ^ 253 * 5 ^ 149 :=
    Nat.mul_lt_mul_of_pos_right (units_lt hx) (Nat.pow_pos (by decide))
  have hmany : 88 < (Nat.toDigits 10 (x.units * 5 ^ 149)).length := by
    rw [← Nat.not_le, Nat.length_toDigits_le_iff (by decide) (by decide), Nat.not_lt]
    exact Nat.le_trans (by norm_num) hlower
  have hfew : (Nat.toDigits 10 (x.units * 5 ^ 149)).length ≤ 209 := by
    rw [Nat.length_toDigits_le_iff (by decide) (by decide)]
    exact Nat.lt_trans hupper (by norm_num)
  refine ofDecimal_units hx (k := 149) ?_ (by omega) (by omega) rfl ?_
  · exact Nat.mul_ne_zero hpos (by norm_num)
  · rw [unitsPerOne, Nat.pow_eq, Nat.mul_assoc, ← Nat.mul_pow]

/-- The shortest decimal is the first candidate in the order of falling exponents, or else the exact
expansion. -/
theorem shortest_cases (x : Single) :
    (∃ i : Nat, candidate? x (x.decimalScale - 1 - i) = some x.shortest ∧
      ∀ j : Nat, j < i → candidate? x (x.decimalScale - 1 - j) = none) ∨
    x.shortest = (x.units * 5 ^ 149, -149) := by
  rw [shortest]
  cases h : (List.range 9).findSome? fun (i : Nat) => candidate? x (x.decimalScale - 1 - i) with
  | none => exact Or.inr rfl
  | some found =>
    obtain ⟨before, i, after, hsplit, hi, hnone⟩ := List.findSome?_eq_some_iff.1 h
    refine Or.inl ⟨i, hi, fun j hj => hnone j ?_⟩
    have hsorted : (before ++ i :: after).Pairwise (· < ·) := hsplit ▸ List.pairwise_lt_range
    have hlt : i < 9 := List.mem_range.1 (hsplit ▸ List.mem_append_right _ List.mem_cons_self)
    have hmem : j ∈ before ++ i :: after := hsplit ▸ List.mem_range.2 (Nat.lt_trans hj hlt)
    rcases List.mem_append.1 hmem with hbefore | hrest
    · exact hbefore
    · rcases List.mem_cons.1 hrest with rfl | hafter
      · exact absurd hj (Nat.lt_irrefl _)
      · have hgt := (List.pairwise_cons.1 (List.pairwise_append.1 hsorted).2.1).1 _ hafter
        exact absurd hj (Nat.lt_asymm hgt)

/-- **The shortest decimal reads back.** -/
theorem ofDecimal_shortest {x : Single} (hx : x.isFinite = true) (hpos : x.units ≠ 0) :
    ofDecimal x.negative x.shortest.1 x.shortest.2 = x := by
  rcases shortest_cases x with ⟨i, hi, _⟩ | hexact
  · exact candidate?_reads hi
  · rw [hexact]
    exact ofDecimal_expansion hx hpos

theorem shortest_ne_zero {x : Single} (hx : x.isFinite = true) (hpos : x.units ≠ 0) :
    x.shortest.1 ≠ 0 := by
  intro hzero
  have hback := ofDecimal_shortest hx hpos
  rw [hzero] at hback
  have hsigned : ofMagnitude x.negative 0 = x := by simpa [ofDecimal] using hback
  apply hpos
  rw [← hsigned]
  cases x.negative <;> rfl

/-! ### Whole numbers -/

/-- Ones and the numbers from them on are above no negative power of ten. -/
theorem decimalScale_pos {x : Single} (hone : unitsPerOne ≤ x.units) : 1 ≤ x.decimalScale := by
  have hnot : ∀ i ≤ 45, x.isBelowPower i = false := by
    intro i hi
    rcases Nat.lt_or_eq_of_le hi with hlt | rfl
    · have hscaled : x.units ≤ x.units * Nat.pow 10 (45 - i) :=
        Nat.le_mul_of_pos_right _ (Nat.pow_pos (by decide))
      have hover := Nat.not_lt.2 (Nat.le_trans hone hscaled)
      simp only [isBelowPower, Nat.not_le.2 hlt, if_false, hover, decide_false]
    · have hover := Nat.not_lt.2 hone
      simp only [isBelowPower, Nat.le_refl, if_true, Nat.sub_self, Nat.pow_eq, Nat.pow_zero,
        Nat.one_mul, hover, decide_false]
  rw [decimalScale]
  cases h : (List.range 85).find? x.isBelowPower with
  | none => decide
  | some i =>
    have hlarge : 45 < i := by
      by_contra hsmall
      have hbelow := List.find?_some h
      rw [hnot i (Nat.le_of_not_lt hsmall)] at hbelow
      cases hbelow
    show 1 ≤ (i : Int) - 45
    omega

/-- At the place of the ones, a whole number is its own nearest candidate. -/
theorem candidate?_whole {x : Single} (hx : x.isFinite = true) {n : Nat} (hn : n ≠ 0)
    (hunits : x.units = n * unitsPerOne) : candidate? x 0 = some (n, 0) := by
  have hone : 0 < unitsPerOne := Nat.two_pow_pos 149
  have hbound : n < 10 ^ 60 := by
    have hlt := units_lt hx
    have hsplit : 2 ^ 24 * 2 ^ 253 = 2 ^ 128 * unitsPerOne := by norm_num [unitsPerOne]
    rw [hunits, hsplit] at hlt
    exact Nat.lt_trans (Nat.lt_of_mul_lt_mul_right hlt) (by norm_num)
  have hfew : (Nat.toDigits 10 n).length ≤ 60 := by
    rwa [Nat.length_toDigits_le_iff (by decide) (by decide)]
  have hback : ofDecimal x.negative n 0 = x :=
    ofDecimal_units hx (k := 0) hn (by omega) (by omega) rfl
      (by rw [hunits, Nat.pow_zero, Nat.mul_one])
  have hden : (if (0 : Int) < 0 then unitsPerOne else unitsPerOne * Nat.pow 10 (0 : Int).toNat) =
      unitsPerOne := by simp
  have hnum : (if (0 : Int) < 0 then x.units * Nat.pow 10 (-(0 : Int)).toNat else x.units) =
      n * unitsPerOne := by simp [hunits]
  simp only [candidate?, hden, hnum, Nat.mul_div_cancel _ hone, Nat.mul_mod_left,
    Nat.mul_zero, hone, if_true, List.find?_cons, hback, decide_true, Option.map_some]

/-- **The shortest decimal of a whole number is whole**: what stands behind the point, if anything,
are zeros.  Exponents are tried in falling order, and at the place of the ones the number itself
reads back. -/
theorem shortest_whole {x : Single} (hx : x.isFinite = true) {n : Nat} (hn : n ≠ 0)
    (hunits : x.units = n * unitsPerOne) :
    ∃ m k : Nat, x.shortest.1 = m * 10 ^ k ∧ 0 ≤ x.shortest.2 + k := by
  rcases shortest_cases x with ⟨i, hi, hnone⟩ | hexact
  · have hone : unitsPerOne ≤ x.units := by
      rw [hunits]
      exact Nat.le_mul_of_pos_left _ (Nat.pos_of_ne_zero hn)
    have hscale := decimalScale_pos hone
    have hexp : x.shortest.2 = x.decimalScale - 1 - i := by
      obtain ⟨c, _, hc⟩ := Option.map_eq_some_iff.1 hi
      rw [← hc]
    refine ⟨x.shortest.1, 0, by simp, ?_⟩
    by_contra hneg
    have hmissing := hnone (x.decimalScale - 1).toNat (by omega)
    have hplace : x.decimalScale - 1 - ((x.decimalScale - 1).toNat : Int) = 0 := by omega
    rw [hplace, candidate?_whole hx hn hunits] at hmissing
    exact Option.some_ne_none _ hmissing
  · have hpow : Nat.pow 2 149 * 5 ^ 149 = 10 ^ 149 := by rw [Nat.pow_eq, ← Nat.mul_pow]
    refine ⟨n, 149, ?_, ?_⟩
    · rw [hexact, hunits, unitsPerOne, Nat.mul_assoc, hpow]
    · rw [hexact]
      exact Int.le_refl 0

/-! ## 4. Digits around a point -/

theorem dropTrailingZeros_append (digits : List Char) :
    ∃ k, digits = dropTrailingZeros digits ++ List.replicate k '0' := by
  have hzeros : ∀ c ∈ digits.reverse.takeWhile (· = '0'), c = '0' := fun c hc => by
    simpa using List.mem_takeWhile_imp hc
  refine ⟨(digits.reverse.takeWhile (· = '0')).length, ?_⟩
  rw [dropTrailingZeros, ← List.reverse_replicate, ← List.eq_replicate_of_mem hzeros,
    ← List.reverse_append, List.takeWhile_append_dropWhile, List.reverse_reverse]

/-- Zeros at the end are dropped whatever stands before them. -/
theorem length_dropTrailingZeros_le (digits : List Char) (k : Nat) :
    (dropTrailingZeros (digits ++ List.replicate k '0')).length ≤ digits.length := by
  have hzeros : ∀ c ∈ List.replicate k '0', decide (c = '0') = true := fun c hc => by
    simpa using List.eq_of_mem_replicate hc
  rw [dropTrailingZeros, List.length_reverse, List.reverse_append, List.reverse_replicate,
    List.dropWhile_append_of_pos hzeros]
  exact Nat.le_trans (List.length_dropWhile_le _ _) (by rw [List.length_reverse])

/-- A coefficient with zeros at its end is written with them. -/
theorem toDigits_mul_pow {m : Nat} (hm : 0 < m) (k : Nat) :
    Nat.toDigits 10 (m * 10 ^ k) = Nat.toDigits 10 m ++ List.replicate k '0' := by
  induction k with
  | zero => simp
  | succ k ih =>
    have hpos : 0 < m * 10 ^ k := Nat.mul_pos hm (Nat.pow_pos (by decide))
    have happend := Nat.toDigits_append_toDigits (b := 10) (d := 0) (by decide) hpos (by decide)
    rw [ih, Nat.toDigits_zero, Nat.add_zero] at happend
    rw [Nat.pow_succ', Nat.mul_left_comm, ← happend, List.append_assoc, ← List.replicate_succ']

/-- Digits without a point are a coefficient. -/
theorem readUnsigned?_digits {ds : List Char} (hds : ∀ c ∈ ds, c.isDigit = true) (hne : ds ≠ [])
    (negative : Bool) :
    readUnsigned? negative ds = some (ofDecimal negative (digitsValue ds) 0) := by
  have htake : ds.takeWhile Char.isDigit = ds := List.takeWhile_eq_self_iff.2 hds
  have hdrop : ds.dropWhile Char.isDigit = [] := List.dropWhile_eq_nil_iff.2 hds
  simp [readUnsigned?, htake, hdrop, hne, readExponent?]

/-- Digits around a point are a coefficient with as many places as stand behind the point. -/
theorem readUnsigned?_point {ds fs : List Char} (hds : ∀ c ∈ ds, c.isDigit = true) (hne : ds ≠ [])
    (hfs : ∀ c ∈ fs, c.isDigit = true) (negative : Bool) :
    readUnsigned? negative (ds ++ '.' :: fs) =
      some (ofDecimal negative (digitsValue (ds ++ fs)) (-fs.length)) := by
  have htake : (ds ++ '.' :: fs).takeWhile Char.isDigit = ds := by
    rw [List.takeWhile_append_of_pos hds, List.takeWhile_cons_of_neg (by decide), List.append_nil]
  have hdrop : (ds ++ '.' :: fs).dropWhile Char.isDigit = '.' :: fs := by
    rw [List.dropWhile_append_of_pos hds, List.dropWhile_cons_of_neg (by decide)]
  have htake' : fs.takeWhile Char.isDigit = fs := List.takeWhile_eq_self_iff.2 hfs
  have hdrop' : fs.dropWhile Char.isDigit = [] := List.dropWhile_eq_nil_iff.2 hfs
  simp [readUnsigned?, htake, hdrop, htake', hdrop', hne, readExponent?]

theorem isDigit_replicate_zero (n : Nat) : ∀ c ∈ List.replicate n '0', c.isDigit = true :=
  fun c hc => by rw [List.eq_of_mem_replicate hc]; rfl

theorem isDigit_zero : ∀ c ∈ ['0'], c.isDigit = true := by simp

theorem isDigit_append {cs ds : List Char} (hcs : ∀ c ∈ cs, c.isDigit = true)
    (hds : ∀ c ∈ ds, c.isDigit = true) : ∀ c ∈ cs ++ ds, c.isDigit = true := fun c hc =>
  (List.mem_append.1 hc).elim (hcs c) (hds c)

/-- Zeros behind the digits are places before the point. -/
theorem ofDecimal_append_zeros (negative : Bool) (ds : List Char) (k : Nat) (e : Int) :
    ofDecimal negative (digitsValue (ds ++ List.replicate k '0')) e =
      ofDecimal negative (digitsValue ds) (e + k) := by
  rw [digitsValue_append, digitsValue_zeros, List.length_replicate, Nat.add_zero, Nat.mul_comm,
    ofDecimal_mul_pow]

/-- **The layout keeps the value**: digits laid out around a point read as the decimal
they were laid out for. -/
theorem readUnsigned?_positional {ds : List Char} (hds : ∀ c ∈ ds, c.isDigit = true) (hne : ds ≠ [])
    (negative : Bool) (point : Int) :
    readUnsigned? negative (positional ds point) =
      some (ofDecimal negative (digitsValue ds) (point - ds.length)) := by
  unfold positional
  split
  · next hsmall =>
    have hvalue :
        digitsValue (['0'] ++ (List.replicate (-point).toNat '0' ++ ds)) = digitsValue ds := by
      rw [digitsValue_append, digitsValue_append, digitsValue_zeros]
      simp [digitsValue]
    have hexp : -(((List.replicate (-point).toNat '0' ++ ds).length : Nat) : Int) =
        point - ds.length := by
      rw [List.length_append, List.length_replicate]
      omega
    have hread := readUnsigned?_point isDigit_zero (List.cons_ne_nil _ _)
      (isDigit_append (isDigit_replicate_zero (-point).toNat) hds) negative
    rwa [hvalue, hexp] at hread
  · split
    · next hlarge =>
      have hexp : (0 : Int) + ((point.toNat - ds.length : Nat) : Int) =
          point - ds.length := by omega
      rw [readUnsigned?_digits (isDigit_append hds (isDigit_replicate_zero _)) (by simp [hne]),
        ofDecimal_append_zeros, hexp]
    · next hpos hmiddle =>
      have hexp : -(((ds.drop point.toNat).length : Nat) : Int) = point - ds.length := by
        rw [List.length_drop]
        omega
      have htake : ds.take point.toNat ≠ [] := by
        rw [← List.length_pos_iff, List.length_take]
        have := List.length_pos_iff.2 hne
        omega
      rw [readUnsigned?_point (fun c hc => hds c (List.mem_of_mem_take hc)) htake
        (fun c hc => hds c (List.mem_of_mem_drop hc)), List.take_append_drop, hexp]

/-- A point and a zero may follow digits that are laid out without a point. -/
theorem readUnsigned?_positional_whole {ds : List Char} (hds : ∀ c ∈ ds, c.isDigit = true)
    (hne : ds ≠ []) (negative : Bool) {point : Int} (hlarge : (ds.length : Int) ≤ point) :
    readUnsigned? negative (positional ds point ++ ['.', '0']) =
      some (ofDecimal negative (digitsValue ds) (point - ds.length)) := by
  have hpos : ¬point ≤ 0 := by
    have := List.length_pos_iff.2 hne
    omega
  have hexp : -(((['0'] : List Char).length : Nat) : Int) +
      ((point.toNat - ds.length + 1 : Nat) : Int) = point - ds.length := by
    simp
    omega
  rw [positional, if_neg hpos, if_pos hlarge, readUnsigned?_point
    (isDigit_append hds (isDigit_replicate_zero _)) (by simp [hne]) isDigit_zero, List.append_assoc,
    show (['0'] : List Char) = List.replicate 1 '0' from rfl, List.replicate_append_replicate,
    ofDecimal_append_zeros]
  exact congrArg (fun e => some (ofDecimal negative (digitsValue ds) e)) hexp

/-! ## 5. The text of a finite number -/

theorem not_isInfinite {x : Single} (hx : x.isFinite = true) : x.isInfinite = false := by
  have hlt : x.magnitude < infinityMagnitude := by simpa [isFinite] using hx
  simpa [isInfinite] using Nat.ne_of_lt hlt

/-- The digits of a coefficient, without the zeros at its end, stand for the coefficient with its
exponent. -/
theorem ofDecimal_dropTrailingZeros (negative : Bool) {c : Nat} (hc : c ≠ 0) (e : Int) :
    ∃ ds, dropTrailingZeros (Nat.toDigits 10 c) = ds ∧ (∀ a ∈ ds, a.isDigit = true) ∧ ds ≠ [] ∧
      ofDecimal negative (digitsValue ds) (e + (Nat.toDigits 10 c).length - ds.length) =
        ofDecimal negative c e := by
  obtain ⟨k, hk⟩ := dropTrailingZeros_append (Nat.toDigits 10 c)
  generalize dropTrailingZeros (Nat.toDigits 10 c) = ds at hk
  have hvalue := digitsValue_toDigits c
  refine ⟨ds, rfl, fun a ha => ?_, ?_, ?_⟩
  · have hmem : a ∈ Nat.toDigits 10 c := hk ▸ List.mem_append_left _ ha
    exact Nat.isDigit_of_mem_toDigits (by decide) (Nat.le_refl 10) hmem
  · rintro rfl
    rw [hk, List.nil_append, digitsValue_zeros] at hvalue
    exact hc hvalue.symm
  · have hexp : e + ((ds ++ List.replicate k '0').length : Nat) - ds.length = e + k := by
      rw [List.length_append, List.length_replicate]
      omega
    rw [hk, hexp, ← ofDecimal_append_zeros, ← hk, hvalue]

/-- A whole decimal has no digit behind its point. -/
theorem length_dropTrailingZeros_mul_pow {m : Nat} (hm : m ≠ 0) {k : Nat} {e : Int}
    (he : 0 ≤ e + k) :
    ((dropTrailingZeros (Nat.toDigits 10 (m * 10 ^ k))).length : Int) ≤
      e + (Nat.toDigits 10 (m * 10 ^ k)).length := by
  have hle := length_dropTrailingZeros_le (Nat.toDigits 10 m) k
  rw [toDigits_mul_pow (Nat.pos_of_ne_zero hm), List.length_append, List.length_replicate]
  omega

theorem unsignedText_of_shortest {x : Single} (hx : x.isFinite = true) (hpos : x.units ≠ 0)
    {c : Nat} {e : Int} (hshortest : x.shortest = (c, e)) :
    x.unsignedText =
      positional (dropTrailingZeros (Nat.toDigits 10 c)) (e + (Nat.toDigits 10 c).length) := by
  rw [unsignedText, not_isInfinite hx, if_neg Bool.false_ne_true, if_neg hpos, hshortest]

/-- The units of a whole number are a multiple of those of one. -/
theorem units_of_isWhole {x : Single} (hpos : x.units ≠ 0) (hwhole : x.isWhole = true) :
    ∃ n, n ≠ 0 ∧ x.units = n * unitsPerOne := by
  have hmod : x.units % unitsPerOne = 0 := by
    rw [isWhole, Bool.and_eq_true, decide_eq_true_eq] at hwhole
    exact hwhole.2
  obtain ⟨n, hn⟩ := Nat.dvd_of_mod_eq_zero hmod
  rw [Nat.mul_comm] at hn
  refine ⟨n, ?_, hn⟩
  rintro rfl
  rw [Nat.zero_mul] at hn
  exact hpos hn

/-- The text of a number is a layout of digits that stand for it. -/
theorem unsignedText_eq {x : Single} (hx : x.isFinite = true) (hpos : x.units ≠ 0) :
    ∃ ds point, x.unsignedText = positional ds point ∧ (∀ a ∈ ds, a.isDigit = true) ∧ ds ≠ [] ∧
      ofDecimal x.negative (digitsValue ds) (point - ds.length) = x ∧
      (x.isWhole = true → (ds.length : Int) ≤ point) := by
  rcases hshortest : x.shortest with ⟨c, e⟩
  have hback : ofDecimal x.negative c e = x := by
    have h := ofDecimal_shortest hx hpos
    rwa [hshortest] at h
  have hc : c ≠ 0 := by
    have h := shortest_ne_zero hx hpos
    rwa [hshortest] at h
  obtain ⟨ds, hds, hall, hne, hvalue⟩ := ofDecimal_dropTrailingZeros x.negative hc e
  refine ⟨ds, e + (Nat.toDigits 10 c).length, ?_, hall, hne, hvalue.trans hback, fun hwhole => ?_⟩
  · rw [unsignedText_of_shortest hx hpos hshortest, hds]
  · obtain ⟨n, hn, hunits⟩ := units_of_isWhole hpos hwhole
    obtain ⟨m, k, hm, hk⟩ := shortest_whole hx hn hunits
    rw [hshortest] at hm hk
    have hm : c = m * 10 ^ k := hm
    have hmpos : m ≠ 0 := by
      rintro rfl
      rw [Nat.zero_mul] at hm
      exact hc hm
    have hle := length_dropTrailingZeros_mul_pow hmpos hk
    rwa [← hm, hds] at hle

/-- What may follow the digits of a number to show that it is fractional. -/
def pointZero (x : Single) : List Char := if x.isWhole then ['.', '0'] else []

theorem eq_zero_of_units {x : Single} (hx : x.isFinite = true) (hzero : x.units = 0) :
    ofMagnitude x.negative 0 = x := by
  have hmag := roundMagnitude_units hx
  rw [hzero, roundMagnitude_fraction (by decide)] at hmag
  rw [hmag, ofMagnitude_magnitude]

/-- **The text of a finite number reads back**, and so it does with its point shown. -/
theorem readUnsigned?_unsignedText {x : Single} (hx : x.isFinite = true) :
    readUnsigned? x.negative (x.unsignedText ++ x.pointZero) = some x := by
  by_cases hpos : x.units = 0
  · have hfinite := not_isInfinite hx
    have hwhole : x.isWhole = true := by simp [isWhole, hx, hpos]
    have hread := readUnsigned?_point isDigit_zero (List.cons_ne_nil _ _) isDigit_zero x.negative
    have hvalue : ofDecimal x.negative (digitsValue (['0'] ++ ['0']))
        (-(['0'] : List Char).length) = ofMagnitude x.negative 0 := by simp [digitsValue, ofDecimal]
    rw [hvalue, eq_zero_of_units hx hpos] at hread
    simpa [unsignedText, hfinite, hpos, pointZero, hwhole] using hread
  · obtain ⟨ds, point, htext, hall, hne, hback, hlarge⟩ := unsignedText_eq hx hpos
    rw [htext, pointZero]
    split
    · next hwhole => rw [readUnsigned?_positional_whole hall hne _ (hlarge hwhole), hback]
    · rw [List.append_nil, readUnsigned?_positional hall hne, hback]

/-- A layout starts with a digit and consists of digits and points. -/
theorem positional_chars {ds : List Char} (hds : ∀ c ∈ ds, c.isDigit = true) (hne : ds ≠ [])
    (point : Int) :
    (∃ c cs, positional ds point = c :: cs ∧ c.isDigit = true) ∧
      ∀ c ∈ positional ds point, c.isDigit = true ∨ c = '.' := by
  obtain ⟨d, rest, rfl⟩ := List.exists_cons_of_ne_nil hne
  have hd : d.isDigit = true := hds d List.mem_cons_self
  unfold positional
  split
  · refine ⟨⟨'0', _, rfl, rfl⟩, fun c hc => ?_⟩
    rcases List.mem_cons.1 hc with rfl | hc
    · exact .inl rfl
    · rcases List.mem_cons.1 hc with rfl | hc
      · exact .inr rfl
      · exact .inl (isDigit_append (isDigit_replicate_zero _) hds c hc)
  · split
    · refine ⟨⟨d, _, rfl, hd⟩, fun c hc => .inl ?_⟩
      exact isDigit_append hds (isDigit_replicate_zero _) c hc
    · next hpos _ =>
      obtain ⟨k, hk⟩ : ∃ k, point.toNat = k + 1 := ⟨point.toNat - 1, by omega⟩
      rw [hk]
      refine ⟨⟨d, _, rfl, hd⟩, fun c hc => ?_⟩
      rcases List.mem_append.1 hc with hc | hc
      · exact .inl (hds c (List.mem_of_mem_take hc))
      · rcases List.mem_cons.1 hc with rfl | hc
        · exact .inr rfl
        · exact .inl (hds c (List.mem_of_mem_drop hc))

theorem unsignedText_chars {x : Single} (hx : x.isFinite = true) :
    (∃ c cs, x.unsignedText = c :: cs ∧ c.isDigit = true) ∧
      ∀ c ∈ x.unsignedText, c.isDigit = true ∨ c = '.' := by
  by_cases hpos : x.units = 0
  · have hfinite := not_isInfinite hx
    have htext : x.unsignedText = ['0'] := by simp [unsignedText, hfinite, hpos]
    rw [htext]
    exact ⟨⟨'0', [], rfl, rfl⟩, fun c hc => .inl (isDigit_zero c hc)⟩
  · obtain ⟨ds, point, htext, hall, hne, -, -⟩ := unsignedText_eq hx hpos
    rw [htext]
    exact positional_chars hall hne point

theorem toLower_of_isDigit {c : Char} (hc : c.isDigit = true) : c.toLower = c := by
  have hle : c.val ≤ '9'.val := by
    rw [Char.isDigit, Bool.and_eq_true, decide_eq_true_eq, decide_eq_true_eq] at hc
    exact hc.2
  have hlow : ¬(c.val ≥ 'A'.val ∧ c.val ≤ 'Z'.val) := fun h =>
    absurd (UInt32.le_trans h.1 hle) (by decide)
  exact dif_neg hlow

/-- A text that starts with a digit has no sign and is no word. -/
theorem ofText?_digit {c : Char} (hc : c.isDigit = true) (cs : List Char) (negative : Bool) :
    ofText? ((if negative then ['-'] else []) ++ c :: cs) = readUnsigned? negative (c :: cs) := by
  have hlower : c.toLower.isDigit = true := by rw [toLower_of_isDigit hc, hc]
  have hword : ∀ word : String, (word.toList.head?.any fun c => !c.isDigit) = true →
      String.ofList ((c :: cs).map Char.toLower) ≠ word := by
    intro word hhead heq
    rw [← heq, String.toList_ofList, List.map_cons, List.head?_cons] at hhead
    simp [hlower] at hhead
  have hsign : splitSign ((if negative then ['-'] else []) ++ c :: cs) = (negative, c :: cs) := by
    cases negative with
    | true => rfl
    | false =>
      have hminus : c ≠ '-' := by rintro rfl; cases hc
      have hplus : c ≠ '+' := by rintro rfl; cases hc
      simp [splitSign, hminus, hplus]
  simp only [ofText?, hsign, hword "inf" (by decide), hword "infinity" (by decide),
    hword "nan" (by decide), or_self, if_false]

/-- **A finite number reads back**, sign and all. -/
theorem ofText?_finite {x : Single} (hx : x.isFinite = true) :
    ofText? ((if x.negative then ['-'] else []) ++ (x.unsignedText ++ x.pointZero)) = some x := by
  obtain ⟨⟨c, cs, htext, hc⟩, -⟩ := unsignedText_chars hx
  have hread := readUnsigned?_unsignedText hx
  rw [htext, List.cons_append] at hread ⊢
  rw [ofText?_digit hc, hread]

end FlowScript.Single
