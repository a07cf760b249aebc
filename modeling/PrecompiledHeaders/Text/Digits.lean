/-!
# Digits

Numbers as digits, the most significant one first. Digits are read to any base up to sixteen
(`Digits.number?`) and written to base sixteen, in lower case and with a fixed width, as hashes
are (`Digits.hexadecimal`).
-/

namespace PrecompiledHeaders.Digits

/-! ### Reading -/

/-- The value of a digit, in either case. -/
def value? (c : Char) : Option Nat :=
  if '0' ≤ c ∧ c ≤ '9' then some (c.toNat - '0'.toNat)
  else if 'a' ≤ c ∧ c ≤ 'f' then some (c.toNat - 'a'.toNat + 10)
  else if 'A' ≤ c ∧ c ≤ 'F' then some (c.toNat - 'A'.toNat + 10)
  else none

/-- Whether a character is a digit to a base. -/
def isDigit (base : Nat) (c : Char) : Bool := (value? c).any (· < base)

/-- The number that digits to a base make up. -/
def number (base : Nat) (digits : List Char) : Nat :=
  digits.foldl (fun n c => n * base + (value? c).getD 0) 0

/-- The number that characters make up, if all of them are digits to a base. -/
def number? (base : Nat) (text : List Char) : Option Nat :=
  if text.all (isDigit base) then some (number base text) else none

/-! ### Writing -/

/-- The digit with a value below sixteen. -/
def ofValue (n : Nat) : Char :=
  if n < 10 then Char.ofNat ('0'.toNat + n) else Char.ofNat ('a'.toNat + (n - 10))

/-- The last `width` digits of a number to base sixteen. -/
def hexadecimal (width n : Nat) : List Char :=
  match width with
  | 0 => []
  | width + 1 => hexadecimal width (n / 16) ++ [ofValue (n % 16)]

@[simp]
theorem length_hexadecimal (width n : Nat) : (hexadecimal width n).length = width := by
  induction width generalizing n with
  | zero => rfl
  | succ width ih => simp [hexadecimal, ih]

end PrecompiledHeaders.Digits
