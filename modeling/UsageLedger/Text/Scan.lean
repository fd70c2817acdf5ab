import UsageLedger.Text.Decimal

/-!
Reading a construct off the start of a text. A scan returns what it read and the rest of the text,
or nothing if the text does not start with such a construct.
-/

namespace UsageLedger.Text

abbrev Scan (α : Type) := List Char → Option (α × List Char)

/-- The rest of the text after the given start. -/
def dropStart? : List Char → List Char → Option (List Char)
  | [], text => some text
  | _ :: _, [] => none
  | c :: start, d :: text => if c = d then dropStart? start text else none

theorem dropStart?_eq_some_iff {start text rest : List Char} :
    dropStart? start text = some rest ↔ text = start ++ rest := by
  induction start generalizing text with
  | nil => simp [dropStart?]
  | cons c start ih =>
    cases text with
    | nil => simp [dropStart?]
    | cons d text =>
      by_cases h : c = d
      · simp [dropStart?, h, ih]
      · simp [dropStart?, h, Ne.symm h]

/-- The longest run of characters with the property, and the rest. -/
def spanOf (p : Char → Bool) (text : List Char) : List Char × List Char :=
  (text.takeWhile p, text.dropWhile p)

def hexValue? (c : Char) : Option Nat :=
  if '0' ≤ c ∧ c ≤ '9' then some (c.toNat - '0'.toNat)
  else if 'a' ≤ c ∧ c ≤ 'f' then some (c.toNat - 'a'.toNat + 10)
  else if 'A' ≤ c ∧ c ≤ 'F' then some (c.toNat - 'A'.toNat + 10)
  else none

/-- The number written by exactly so many hexadecimal digits. -/
def hexDigits : Nat → Scan Nat
  | count, text =>
    let digits := text.take count
    if digits.length = count then
      (digits.mapM hexValue?).map fun values =>
        (values.foldl (fun n v => 16 * n + v) 0, text.drop count)
    else none

/-- The character of a code point that is no surrogate. -/
def scalar? (code : Nat) : Option Char :=
  if h : code.isValidChar then some (Char.ofNatAux code h) else none

end UsageLedger.Text
