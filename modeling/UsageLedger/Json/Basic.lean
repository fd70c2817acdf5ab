import UsageLedger.Text.Decimal

/-!
JSON values. A number is kept as it is written, so that nothing is lost before its reader decides
what kind of number it needs.
-/

namespace UsageLedger

/-- A number literal: sign, integer part, and the digits and exponent that may follow. -/
structure JsonNumber where
  negative : Bool
  whole : Nat
  /-- The digits after the point; none without a point. -/
  fraction : List Char
  exponent : Option Int
deriving DecidableEq, Repr

inductive Json where
  | null
  | bool (value : Bool)
  | number (value : JsonNumber)
  | string (value : String)
  | array (items : List Json)
  | object (members : List (String × Json))
deriving Repr

namespace JsonNumber

/-- The value rounded to 53 significant bits, halves to even. -/
def round53 (n : Nat) : Nat :=
  if n < 1 <<< 53 then n
  else
    let unit := 1 <<< (n.log2 - 52)
    let quotient := n / unit
    let twice := 2 * (n % unit)
    if unit < twice ∨ (twice = unit ∧ quotient % 2 = 1) then (quotient + 1) * unit
    else quotient * unit

/-- Appends digits to a 64-bit significand until one does not fit, and counts those appended. -/
def appendDigits : Nat → List Char → Nat × Nat
  | significand, [] => (significand, 0)
  | significand, c :: digits =>
    let next := 10 * significand + Text.digitValue c
    if next < 1 <<< 64 then
      let (significand, count) := appendDigits next digits
      (significand, count + 1)
    else (significand, 0)

/-- A 64-bit significand and a power of ten that give the number's magnitude. Integer digits beyond
64 bits count as zeros, fraction digits beyond them are dropped. -/
def scaled (n : JsonNumber) : Nat × Int :=
  let digits := Text.decimal n.whole
  let (significand, taken) := appendDigits 0 digits
  let (significand, fraction) := appendDigits significand n.fraction
  (significand, (digits.length : Int) - taken - fraction + n.exponent.getD 0)

/-- The magnitude stays within the range of binary64 when the rounded significand is multiplied by
the rounded power of ten. -/
def IsFinite (n : JsonNumber) : Prop :=
  let (significand, exponent) := n.scaled
  significand = 0 ∨ exponent < 0 ∨
    (exponent ≤ 308 ∧
      round53 significand * round53 (Nat.pow 10 exponent.toNat) < (1 <<< 1024) - (1 <<< 970))

instance (n : JsonNumber) : Decidable n.IsFinite :=
  inferInstanceAs (Decidable (_ = _ ∨ _ ∨ (_ ∧ _)))

/-- The number as an integer, if it is written without fraction and exponent. A negative zero is no
integer. -/
def toInt? (n : JsonNumber) : Option Int :=
  if n.fraction ≠ [] ∨ n.exponent ≠ none ∨ (n.negative = true ∧ n.whole = 0) then none
  else some (if n.negative then -n.whole else n.whole)

def ofNat (n : Nat) : JsonNumber :=
  { negative := false, whole := n, fraction := [], exponent := none }

end JsonNumber

namespace Json

def ofNat (n : Nat) : Json := .number (.ofNat n)

def ofNats (l : List Nat) : Json := .array (l.map ofNat)

/-- The value as a natural number below the bound. -/
def nat? (bound : Nat) : Json → Option Nat
  | .number n =>
    match n.toInt? with
    | some (.ofNat n) => if n < bound then some n else none
    | _ => none
  | _ => none

/-- The value as an integer of 32 bits. -/
def int32? : Json → Option Int
  | .number n => n.toInt?.filter fun n => -0x80000000 ≤ n ∧ n < 0x80000000
  | _ => none

def bool? : Json → Option Bool
  | .bool value => some value
  | _ => none

def string? : Json → Option String
  | .string value => some value
  | _ => none

/-- The value as a list of counters. -/
def counters? : Json → Option (List Nat)
  | .array items => items.mapM (nat? Text.counterBound)
  | _ => none

end Json

end UsageLedger
