/-!
Decimal digits: their value, and the numerals that stand for natural numbers below a bound.
-/

namespace UsageLedger.Text

def digitValue (c : Char) : Nat := c.toNat - '0'.toNat

/-- The value of a run of digits, the most significant first. -/
def ofDigits (digits : List Char) : Nat := digits.foldl (fun n c => 10 * n + digitValue c) 0

/-- The digits of a number without leading zeros; zero has one digit. -/
def decimal (n : Nat) : List Char := Nat.toDigits 10 n

theorem ofDigits_decimal (n : Nat) : ofDigits (decimal n) = n := by
  have value := @Nat.ofDigitChars_ten_toDigits n
  rwa [Nat.ofDigitChars_eq_foldl] at value

theorem isDigit_of_mem_decimal {n : Nat} {c : Char} (mem : c ∈ decimal n) : c.isDigit = true :=
  Nat.isDigit_of_mem_toDigits (by decide) (by decide) mem

theorem decimal_ne_nil (n : Nat) : decimal n ≠ [] := Nat.toDigits_ne_nil

/-- The value of a numeral: an optional plus sign and digits, leading zeros allowed, that stand for
a number below the bound. -/
def numeral? (bound : Nat) (token : List Char) : Option Nat :=
  let digits := match token with
    | '+' :: digits => digits
    | digits => digits
  if digits ≠ [] ∧ digits.all Char.isDigit ∧ ofDigits digits < bound then some (ofDigits digits)
  else none

/-- Entity ids are 32-bit numbers. -/
def entityBound : Nat := 1 <<< 32

/-- Usage counters and timestamps are 64-bit numbers. -/
def counterBound : Nat := 1 <<< 64

end UsageLedger.Text
