/-
# Hexadecimal digits

Identifiers and escaped characters are written with lower-case hexadecimal digits and read in
either case.
-/

namespace FlowScript.Text

/-- The lower-case digit of a number below sixteen. -/
def hexChar (n : Nat) : Char :=
  if n < 10 then Char.ofNat (48 + n) else Char.ofNat (87 + n)

/-- The value of a hexadecimal digit of either case. -/
def hexValue? (c : Char) : Option Nat :=
  if '0' ≤ c ∧ c ≤ '9' then some (c.toNat - 48)
  else if 'a' ≤ c ∧ c ≤ 'f' then some (c.toNat - 87)
  else if 'A' ≤ c ∧ c ≤ 'F' then some (c.toNat - 55)
  else none

theorem hexValue?_hexChar : ∀ n : Nat, n < 16 → hexValue? (hexChar n) = some n := by decide

/-- The value of a run of hexadecimal digits, most significant first. -/
def hexNat? (cs : List Char) : Option Nat :=
  cs.foldl (fun acc c => match acc, hexValue? c with
    | some n, some d => some (16 * n + d)
    | _, _ => none) (some 0)

/-- The lowest `width` hexadecimal digits of a number, most significant first. -/
def hexDigits : (width : Nat) → Nat → List Char
  | 0, _ => []
  | w + 1, n => hexDigits w (n / 16) ++ [hexChar (n % 16)]

/-- A number in hexadecimal without leading zeros. -/
def hexText (n : Nat) : List Char := (Nat.toDigits 16 n)

@[simp] theorem length_hexDigits : ∀ w n : Nat, (hexDigits w n).length = w
  | 0, _ => rfl
  | w + 1, n => by simp [hexDigits, length_hexDigits w]

/-- **Digits read back**, up to the part that the width cuts off. -/
theorem hexNat?_hexDigits : ∀ w n : Nat, hexNat? (hexDigits w n) = some (n % Nat.pow 16 w)
  | 0, n => by simp [hexDigits, hexNat?, Nat.mod_one]
  | w + 1, n => by
    have ih := hexNat?_hexDigits w (n / 16)
    unfold hexNat? at ih ⊢
    rw [hexDigits, List.foldl_append, ih]
    have hd := hexValue?_hexChar (n % 16) (Nat.mod_lt _ (by decide))
    simp only [List.foldl_cons, List.foldl_nil, hd, Option.some.injEq]
    rw [show Nat.pow 16 (w + 1) = 16 * Nat.pow 16 w from Nat.mul_comm _ _, Nat.mod_mul,
      Nat.add_comm]

end FlowScript.Text
