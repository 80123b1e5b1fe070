/-
# Which texts are scheduled events

An event is written `name@tick` or `name@tick=value`, and both marks may occur again further to the
right.  This module says which texts are read, and as what, without saying how:

* `EventParts` are the parts between the marks.  They are `Proper` if each mark is the first of its
  kind from where it is looked for; so a text has proper parts in one way at most
  (`EventParts.Proper.unique`).
* `Numeral` is the text of a number of 64 bits, and `parseNumber_eq_ok_iff` that just these are read
  as one.  Digits are read from the left, and reading stops as soon as they lead beyond 64 bits;
  since digits only ever make a number larger (`le_foldl_digits`), this is the same as looking at
  the whole number.
* `parseEvent_text` is what comes of a text with proper parts, and nothing else is read
  (`exists_parts`).
-/
import FlowScript.Proofs.Decimals
import FlowScript.Runner.Event

namespace FlowScript.Runner

/-! ## 1. Numbers -/

/-- The text is decimal digits, perhaps after a plus sign, for a number of 64 bits. -/
def Numeral (text : String) (n : UInt64) : Prop :=
  ∃ digits : List Char, digits ≠ [] ∧ (∀ c ∈ digits, c.isDigit = true) ∧
    (text.toList = digits ∨ text.toList = '+' :: digits) ∧ Single.digitsValue digits = n.toNat

/-- Digits only make a number larger. -/
theorem le_foldl_digits (cs : List Char) (n : Nat) :
    n ≤ cs.foldl (fun n c => 10 * n + (c.toNat - 48)) n := by
  induction cs generalizing n with
  | nil => exact Nat.le_refl n
  | cons c cs ih =>
    have hstep := ih (10 * n + (c.toNat - 48))
    rw [List.foldl_cons]
    omega

/-- **Digits are read if the whole number fits**, not only its beginnings. -/
theorem readDigits_eq_ok_iff {m : UInt64} :
    ∀ {cs : List Char} {n : Nat}, n < UInt64.size →
      (readDigits n cs = .ok m ↔ (∀ c ∈ cs, c.isDigit = true) ∧
        cs.foldl (fun n c => 10 * n + (c.toNat - 48)) n = m.toNat)
  | [], n, hn => by
    rw [readDigits, Except.ok.injEq, List.foldl_nil]
    constructor
    · rintro rfl
      exact ⟨fun _ hc => (nomatch hc), (UInt64.toNat_ofNat_of_lt hn).symm⟩
    · rintro ⟨-, rfl⟩
      exact UInt64.ofNat_toNat
  | c :: cs, n, hn => by
    unfold readDigits
    simp only [List.forall_mem_cons, List.foldl_cons]
    by_cases hc : c.isDigit = true
    · by_cases hfit : 10 * n + (c.toNat - 48) < UInt64.size
      · rw [if_pos hc, if_pos hfit, readDigits_eq_ok_iff hfit]
        simp only [hc, true_and]
      · rw [if_pos hc, if_neg hfit]
        refine ⟨fun h => (nomatch h), fun ⟨_, hvalue⟩ => absurd ?_ hfit⟩
        exact Nat.lt_of_le_of_lt (hvalue ▸ le_foldl_digits cs _) m.toNat_lt
    · rw [if_neg hc]
      exact ⟨fun h => (nomatch h), fun h => absurd h.1.1 hc⟩

/-- **The numerals are what is read as a number.** -/
theorem parseNumber_eq_ok_iff {text : String} {n : UInt64} :
    parseNumber text.toList = .ok n ↔ Numeral text n := by
  have hread : ∀ digits, readDigits 0 digits = .ok n ↔
      (∀ c ∈ digits, c.isDigit = true) ∧ Single.digitsValue digits = n.toNat := fun _ =>
    readDigits_eq_ok_iff (by decide)
  unfold Numeral
  cases text.toList with
  | nil => simp [parseNumber]
  | cons c cs =>
    unfold parseNumber
    simp only [hread]
    by_cases hplus : c = '+' ∧ cs ≠ []
    · obtain ⟨rfl, hcs⟩ := hplus
      rw [if_pos ⟨rfl, hcs⟩]
      constructor
      · exact fun ⟨hdigits, hvalue⟩ => ⟨cs, hcs, hdigits, .inr rfl, hvalue⟩
      · rintro ⟨digits, -, hdigits, rfl | htext, hvalue⟩
        · exact absurd (hdigits '+' List.mem_cons_self) (by decide)
        · obtain rfl : cs = digits := (List.cons.inj htext).2
          exact ⟨hdigits, hvalue⟩
    · rw [if_neg hplus]
      constructor
      · exact fun ⟨hdigits, hvalue⟩ => ⟨c :: cs, List.cons_ne_nil c cs, hdigits, .inl rfl, hvalue⟩
      · rintro ⟨digits, hne, hdigits, rfl | htext, hvalue⟩
        · exact ⟨hdigits, hvalue⟩
        · obtain ⟨rfl, rfl⟩ := List.cons.inj htext
          exact absurd ⟨rfl, hne⟩ hplus

theorem toList_toString (n : Nat) : (toString n).toList = Nat.toDigits 10 n := by
  rw [Nat.toString_eq_repr, Nat.repr, String.toList_ofList]

theorem numeral_toString (n : UInt64) : Numeral (toString n.toNat) n :=
  ⟨Nat.toDigits 10 n.toNat, Nat.toDigits_ne_nil,
    fun _ hc => Nat.isDigit_of_mem_toDigits (by decide) (Nat.le_refl 10) hc,
    .inl (toList_toString _), Single.digitsValue_toDigits _⟩

/-! ## 2. Marks -/

variable {c : Char} {l a b : List Char}

/-- **A text is split at the first mark.** -/
theorem splitOnce_eq_some_iff : splitOnce c l = some (a, b) ↔ l = a ++ c :: b ∧ c ∉ a := by
  induction l generalizing a with
  | nil => simp [splitOnce]
  | cons x l ih =>
    unfold splitOnce
    by_cases hx : x = c
    · subst hx
      rw [if_pos rfl]
      constructor
      · intro h
        cases h
        exact ⟨rfl, List.not_mem_nil⟩
      · rintro ⟨hl, hfree⟩
        cases a with
        | nil => rw [(List.cons.inj hl).2]
        | cons y a => exact absurd ((List.cons.inj hl).1 ▸ List.mem_cons_self) hfree
    · rw [if_neg hx, Option.map_eq_some_iff]
      constructor
      · rintro ⟨⟨a', b'⟩, hsplit, hr⟩
        cases hr
        obtain ⟨rfl, hfree⟩ := ih.1 hsplit
        exact ⟨rfl, List.not_mem_cons_of_ne_of_not_mem (Ne.symm hx) hfree⟩
      · rintro ⟨hl, hfree⟩
        cases a with
        | nil => exact absurd (List.cons.inj hl).1 hx
        | cons y a =>
          obtain ⟨rfl, rfl⟩ := List.cons.inj hl
          exact ⟨(a, b), ih.2 ⟨rfl, fun h => hfree (List.mem_cons_of_mem x h)⟩, rfl⟩

theorem splitOnce_eq_none_iff : splitOnce c l = none ↔ c ∉ l := by
  constructor
  · intro h hc
    obtain ⟨a, b, rfl, hfree⟩ := List.eq_append_cons_of_mem hc
    rw [splitOnce_eq_some_iff.2 ⟨rfl, hfree⟩] at h
    cases h
  · intro h
    cases hsplit : splitOnce c l with
    | none => rfl
    | some r =>
      obtain ⟨rfl, -⟩ := splitOnce_eq_some_iff.1 hsplit
      exact absurd (List.mem_append_right _ List.mem_cons_self) h

/-! ## 3. The parts of an event -/

/-- The parts of a scheduled event as it is written. -/
structure EventParts where
  name : String
  tick : String
  /-- What is written behind the second mark, if it is there. -/
  value? : Option String

namespace EventParts

/-- How the parts are written. -/
def text (p : EventParts) : String :=
  match p.value? with
  | none => p.name ++ "@" ++ p.tick
  | some value => p.name ++ "@" ++ p.tick ++ "=" ++ value

/-- There is a name, and the marks are the first of their kind: no `@` in the
name, no `=` in the tick. -/
structure Proper (p : EventParts) : Prop where
  name_ne : p.name ≠ ""
  name_free : '@' ∉ p.name.toList
  tick_free : '=' ∉ p.tick.toList

/-- What the value stands for: a number if it reads as one, else itself. -/
def payload? (p : EventParts) : Option Value :=
  p.value?.map fun value =>
    match Single.ofText? value.toList with
    | some x => .float x
    | none => .string value

/-- What is written behind the first mark. -/
def rest (p : EventParts) : List Char :=
  match p.value? with
  | none => p.tick.toList
  | some value => p.tick.toList ++ '=' :: value.toList

theorem toList_text (p : EventParts) : p.text.toList = p.name.toList ++ '@' :: p.rest := by
  unfold text rest
  cases p.value? <;> simp

namespace Proper

variable {p q : EventParts}

theorem splitOnce_text (h : p.Proper) :
    splitOnce '@' p.text.toList = some (p.name.toList, p.rest) :=
  splitOnce_eq_some_iff.2 ⟨p.toList_text, h.name_free⟩

theorem splitOnce_rest (h : p.Proper) :
    splitOnce '=' p.rest = p.value?.map fun value => (p.tick.toList, value.toList) := by
  unfold rest
  cases p.value? with
  | none => exact splitOnce_eq_none_iff.2 h.tick_free
  | some value => exact splitOnce_eq_some_iff.2 ⟨rfl, h.tick_free⟩

/-- **A text has proper parts in one way at most.** -/
theorem unique (hp : p.Proper) (hq : q.Proper) (htext : p.text = q.text) : p = q := by
  have hsplit := hp.splitOnce_text
  rw [htext, hq.splitOnce_text] at hsplit
  obtain ⟨hname, hrest⟩ := Prod.mk.inj (Option.some.inj hsplit)
  have hvalue := hp.splitOnce_rest
  rw [← hrest, hq.splitOnce_rest] at hvalue
  obtain ⟨pname, ptick, pvalue⟩ := p
  obtain ⟨qname, qtick, qvalue⟩ := q
  obtain rfl : qname = pname := String.toList_inj.1 hname
  cases qvalue with
  | none =>
    cases pvalue with
    | none =>
      obtain rfl : qtick = ptick := String.toList_inj.1 hrest
      rfl
    | some v => cases hvalue
  | some w =>
    cases pvalue with
    | none => cases hvalue
    | some v =>
      obtain ⟨htick, hv⟩ := Prod.mk.inj (Option.some.inj hvalue)
      obtain rfl : qtick = ptick := String.toList_inj.1 htick
      obtain rfl : w = v := String.toList_inj.1 hv
      rfl

end Proper

end EventParts

/-! ## 4. Reading -/

/-- **What is read of a text with proper parts**: only the tick can be wrong. -/
theorem parseEvent_text {p : EventParts} (h : p.Proper) :
    parseEvent p.text =
      match parseNumber p.tick.toList with
      | .error e => .error (.invalidTick p.tick e)
      | .ok n => .ok ⟨p.name, n, p.payload?⟩ := by
  have hname : p.name.toList ≠ [] := fun hnil => h.name_ne (String.toList_eq_nil_iff.1 hnil)
  have hrest := h.splitOnce_rest
  unfold parseEvent EventParts.payload?
  unfold EventParts.rest at hrest
  simp only [h.splitOnce_text, if_neg hname]
  unfold EventParts.rest
  cases hvalue : p.value? with
  | none =>
    simp only [hvalue, Option.map_none] at hrest ⊢
    simp only [hrest]
    cases parseNumber p.tick.toList with
    | error e => simp only [String.ofList_toList]
    | ok n => simp only [String.ofList_toList]
  | some value =>
    simp only [hvalue, Option.map_some] at hrest ⊢
    simp only [hrest, payloadOf]
    cases parseNumber p.tick.toList with
    | error e => simp only [String.ofList_toList]
    | ok n => cases Single.ofText? value.toList <;> simp only [String.ofList_toList, Option.elim]

/-- Whatever is read has proper parts. -/
theorem exists_parts {text : String} {e : ScheduledEvent} (h : parseEvent text = .ok e) :
    ∃ p : EventParts, p.Proper ∧ p.text = text := by
  unfold parseEvent at h
  cases hat : splitOnce '@' text.toList with
  | none => rw [hat] at h; cases h
  | some r =>
    obtain ⟨name, rest⟩ := r
    obtain ⟨htext, hfree⟩ := splitOnce_eq_some_iff.1 hat
    have hname : name ≠ [] := by
      rintro rfl
      rw [hat] at h
      cases h
    have hne : String.ofList name ≠ "" :=
      fun hnil => hname (by simpa using congrArg String.toList hnil)
    cases hequals : splitOnce '=' rest with
    | none =>
      refine ⟨⟨String.ofList name, String.ofList rest, none⟩, ⟨hne, ?_, ?_⟩, String.toList_inj.1 ?_⟩
      · simpa using hfree
      · simpa using splitOnce_eq_none_iff.1 hequals
      · rw [EventParts.toList_text, htext]
        simp [EventParts.rest]
    | some s =>
      obtain ⟨tick, value⟩ := s
      obtain ⟨rfl, htick⟩ := splitOnce_eq_some_iff.1 hequals
      refine ⟨⟨String.ofList name, String.ofList tick, some (String.ofList value)⟩, ⟨hne, ?_, ?_⟩,
        String.toList_inj.1 ?_⟩
      · simpa using hfree
      · simpa using htick
      · rw [EventParts.toList_text, htext]
        simp [EventParts.rest]

/-- **The scheduled events are the texts `name@tick` and `name@tick=value`.**  A text is read as an
event exactly if it has a name that is not empty and has no `@`, a tick that is a numeral, and
perhaps any value; the event has this name, this number, and as its payload the number that the
value reads as, else the value itself.  There is only one way to take a text apart like this.  So
what is written with a decimal tick is read back, whatever the value holds. -/
theorem events_are_name_at_tick :
    (∀ (text : String) (e : ScheduledEvent), parseEvent text = .ok e ↔
      ∃ p : EventParts, p.Proper ∧ p.text = text ∧ Numeral p.tick e.tick ∧ e.name = p.name ∧
        e.payload = p.payload?) ∧
    (∀ p q : EventParts, p.Proper → q.Proper → p.text = q.text → p = q) ∧
    ∀ (name value : String) (t : UInt64), name ≠ "" → '@' ∉ name.toList →
      parseEvent (name ++ "@" ++ toString t.toNat ++ "=" ++ value) =
        .ok ⟨name, t, some (match Single.ofText? value.toList with
          | some x => .float x
          | none => .string value)⟩ := by
  refine ⟨fun text e => ⟨fun h => ?_, ?_⟩, fun p q hp hq => hp.unique hq,
    fun name value t hne hfree => ?_⟩
  · obtain ⟨p, hp, rfl⟩ := exists_parts h
    rw [parseEvent_text hp] at h
    cases htick : parseNumber p.tick.toList with
    | error _ => rw [htick] at h; cases h
    | ok n =>
      rw [htick] at h
      cases h
      exact ⟨p, hp, rfl, parseNumber_eq_ok_iff.1 htick, rfl, rfl⟩
  · rintro ⟨p, hp, rfl, htick, hname, hpayload⟩
    obtain ⟨_, n, _⟩ := e
    simp only at htick hname hpayload
    rw [parseEvent_text hp, parseNumber_eq_ok_iff.2 htick, hname, hpayload]
  · have htick := numeral_toString t
    -- a tick has no `=`, because it has digits only
    have hproper : EventParts.Proper ⟨name, toString t.toNat, some value⟩ := by
      refine ⟨hne, hfree, fun hmem => ?_⟩
      rw [toList_toString] at hmem
      exact absurd (Nat.isDigit_of_mem_toDigits (by decide) (Nat.le_refl 10) hmem) (by decide)
    exact (parseEvent_text hproper).trans (by rw [parseNumber_eq_ok_iff.2 htick]; rfl)

/-- A tick may have a sign and leading zeros, a value that is a number is read as one, and a value
may hold both marks. -/
theorem ping_is_read :
    EventParts.Proper ⟨"ping", "+07", some "2.5"⟩ ∧ Numeral "+07" 7 ∧
      parseEvent "ping@+07=2.5" = .ok ⟨"ping", 7, some (.float ⟨0x40200000⟩)⟩ ∧
      "ping" ≠ "" ∧ '@' ∉ "ping".toList ∧
      parseEvent "ping@7=2.5=@" = .ok ⟨"ping", 7, some (.string "2.5=@")⟩ := by
  have proper : EventParts.Proper ⟨"ping", "+07", some "2.5"⟩ := ⟨by decide, by decide, by decide⟩
  have tick : Numeral "+07" 7 :=
    ⟨['0', '7'], by decide, List.all_eq_true.1 (by decide), .inr (by decide), by decide⟩
  obtain ⟨hread, -, hwritten⟩ := events_are_name_at_tick
  have hname : "ping" ≠ "" ∧ '@' ∉ "ping".toList := ⟨by decide, by decide⟩
  refine ⟨proper, tick, (hread _ _).2 ⟨_, proper, by decide, tick, rfl, by decide +kernel⟩, hname.1,
    hname.2, ?_⟩
  exact hwritten "ping" "2.5=@" 7 hname.1 hname.2

end FlowScript.Runner
