import UsageLedger.Toml.Basic
import UsageLedger.Text.Scan

/-!
Reading the scalars of TOML: strings, numbers, dates and times.
-/

namespace UsageLedger.Toml

open Text

def IsSpace (c : Char) : Prop := c = ' ' ∨ c = '\t'

instance (c : Char) : Decidable (IsSpace c) := inferInstanceAs (Decidable (_ ∨ _))

def skipSpace (text : List Char) : List Char := text.dropWhile fun c => IsSpace c

/-- The characters a comment may hold: all but the controls, and the tab. -/
def IsPrintable (c : Char) : Prop := c = '\t' ∨ (0x20 ≤ c.toNat ∧ c.toNat ≠ 0x7F)

instance (c : Char) : Decidable (IsPrintable c) := inferInstanceAs (Decidable (_ ∨ _))

def dropNewline? : List Char → Option (List Char)
  | '\n' :: rest => some rest
  | '\r' :: '\n' :: rest => some rest
  | _ => none

/-- The text after spaces and newlines. -/
def skipLines : List Char → List Char
  | [] => []
  | c :: rest =>
    if IsSpace c ∨ c = '\n' then skipLines rest
    else if c = '\r' then
      match rest with
      | '\n' :: rest => skipLines rest
      | _ => c :: rest
    else c :: rest

/-- The character that a letter after a backslash stands for. -/
def escapeLetter? : Char → Option Char
  | 'b' => some '\x08'
  | 't' => some '\t'
  | 'n' => some '\n'
  | 'f' => some '\x0c'
  | 'r' => some '\r'
  | '"' => some '"'
  | '\\' => some '\\'
  | _ => none

/-- The character of an escape, after its backslash. -/
def escape : Scan Char
  | 'u' :: rest => do
    let (code, rest) ← hexDigits 4 rest
    return (← scalar? code, rest)
  | 'U' :: rest => do
    let (code, rest) ← hexDigits 8 rest
    return (← scalar? code, rest)
  | c :: rest => (escapeLetter? c).map fun c => (c, rest)
  | [] => none

/-- The rest of a string between double quotes, with fewer than `fuel` characters. -/
def basicString : Nat → Scan (List Char)
  | 0, _ => none
  | fuel + 1, text =>
    match text with
    | '"' :: rest => some ([], rest)
    | '\\' :: rest => do
      let (c, rest) ← escape rest
      let (chars, rest) ← basicString fuel rest
      return (c :: chars, rest)
    | c :: rest =>
      if IsPrintable c then (basicString fuel rest).map fun (chars, rest) => (c :: chars, rest)
      else none
    | [] => none

/-- The rest of a string between single quotes. -/
def literalString : Scan (List Char)
  | '\x27' :: rest => some ([], rest)
  | c :: rest =>
    if IsPrintable c then (literalString rest).map fun (chars, rest) => (c :: chars, rest) else none
  | [] => none

/-- The quotes at the start of the text that end a string over several lines: three, after at most
two that belong to the string. -/
def closingQuotes? (quote : Char) (text : List Char) : Option (List Char × List Char) :=
  let (quotes, _) := spanOf (· = quote) text
  if quotes.length < 3 then none
  else
    let kept := min (quotes.length - 3) 2
    some (List.replicate kept quote, text.drop (kept + 3))

/-- The rest of a string between triple quotes, with fewer than `fuel` characters. A backslash at
the end of a line skips the white space after it. -/
def linesString (quote : Char) (escapes : Bool) : Nat → Scan (List Char)
  | 0, _ => none
  | fuel + 1, text =>
    match closingQuotes? quote text with
    | some found => some found
    | none =>
      match text with
      | [] => none
      | c :: rest =>
        if c = '\\' ∧ escapes = true then
          match dropNewline? (skipSpace rest) with
          | some rest => linesString quote escapes fuel (skipLines rest)
          | none => do
            let (c, rest) ← escape rest
            let (chars, rest) ← linesString quote escapes fuel rest
            return (c :: chars, rest)
        else
          match dropNewline? text with
          | some rest =>
            (linesString quote escapes fuel rest).map fun (chars, rest) => ('\n' :: chars, rest)
          | none =>
            if IsPrintable c then
              (linesString quote escapes fuel rest).map fun (chars, rest) => (c :: chars, rest)
            else none

/-- The rest of a string over several lines, which may begin with a newline of no account. -/
def blockString (quote : Char) (escapes : Bool) (text : List Char) :
    Option (List Char × List Char) :=
  linesString quote escapes (text.length + 1) ((dropNewline? text).getD text)

def lineString : Scan (List Char)
  | '"' :: rest => basicString (rest.length + 1) rest
  | '\x27' :: rest => literalString rest
  | _ => none

def scanString : Scan (List Char)
  | '"' :: '"' :: '"' :: rest => blockString '"' true rest
  | '\x27' :: '\x27' :: '\x27' :: rest => blockString '\x27' false rest
  | text => lineString text

/-- A run of digits in which single underscores may stand between digits. -/
def digitRun (p : Char → Bool) : Scan (List Char)
  | [] => none
  | c :: rest =>
    if p c then go [c] rest else none
where
  /-- The digits after those already read, which stand in reverse. -/
  go (read : List Char) : List Char → Option (List Char × List Char)
    | [] => some (read.reverse, [])
    | '_' :: rest =>
      match rest with
      | [] => none
      | c :: rest => if p c then go (c :: read) rest else none
    | c :: rest => if p c then go (c :: read) rest else some (read.reverse, c :: rest)

def scanSign : List Char → Bool × List Char
  | '-' :: rest => (true, rest)
  | '+' :: rest => (false, rest)
  | rest => (false, rest)

/-- The digits of a decimal integer: a single zero, or a run that does not begin with one. -/
def wholeDigits : Scan (List Char)
  | '0' :: rest => some (['0'], rest)
  | text => digitRun Char.isDigit text

def signed (negative : Bool) (n : Nat) : Int := if negative then -n else n

/-- Integers are those of 64 bits. -/
def checked (n : Int) : Option Int :=
  if -0x8000000000000000 ≤ n ∧ n < 0x8000000000000000 then some n else none

def decimalInteger (text : List Char) : Option (Int × List Char) := do
  let (negative, rest) := scanSign text
  let (digits, rest) ← wholeDigits rest
  let n ← checked (signed negative (ofDigits digits))
  return (n, rest)

def hexNumber (base : Nat) (digits : List Char) : Nat :=
  digits.foldl (fun n c => base * n + (hexValue? c).getD 0) 0

/-- An integer in a base other than ten, after its sign for the base. -/
def basedInteger (base : Nat) (text : List Char) : Option (Int × List Char) := do
  let (digits, rest) ← digitRun (fun c => ((hexValue? c).getD base) < base) text
  let n ← checked (hexNumber base digits)
  return (n, rest)

def scanInteger : Scan Int
  | '0' :: 'x' :: rest => basedInteger 16 rest
  | '0' :: 'o' :: rest => basedInteger 8 rest
  | '0' :: 'b' :: rest => basedInteger 2 rest
  | text => decimalInteger text

/-- The magnitude from which on a number rounds to an infinity of binary64. -/
def infinityBound : Nat := (1 <<< 1024) - (1 <<< 970)

/-- The number `significand * 10 ^ exponent` rounds to an infinity. Exponents that settle this by
themselves are told apart first, so that no large power is computed for them. -/
def overflows (significand : Nat) (exponent : Int) : Bool :=
  if significand = 0 then false
  else if 309 ≤ exponent then true
  else if 0 ≤ exponent then infinityBound ≤ significand * Nat.pow 10 exponent.toNat
  else if (decimal significand).length ≤ -exponent then false
  else infinityBound * Nat.pow 10 (-exponent).toNat ≤ significand

def scanFraction : Scan (List Char)
  | '.' :: rest => digitRun Char.isDigit rest
  | text => some ([], text)

def scanExponent : Scan (Option Int)
  | 'e' :: rest | 'E' :: rest => do
    let (negative, rest) := scanSign rest
    let (digits, rest) ← digitRun Char.isDigit rest
    return (some (signed negative (ofDigits digits)), rest)
  | text => some (none, text)

/-- A number with a fraction or an exponent. Only the positive ones must not be too large. -/
def decimalFloat (text : List Char) : Option (List Char × List Char) := do
  let (negative, rest) := scanSign text
  let (whole, rest) ← wholeDigits rest
  let (fraction, rest) ← scanFraction rest
  let (exponent, rest) ← scanExponent rest
  if fraction = [] ∧ exponent = none then none
  else if negative = false ∧
      overflows (ofDigits (whole ++ fraction)) (exponent.getD 0 - fraction.length) = true then none
  else some (text.take (text.length - rest.length), rest)

/-- Infinities and the value that is no number. -/
def namedFloat (text : List Char) : Option (List Char × List Char) :=
  let (_, rest) := scanSign text
  let after := (dropStart? "inf".toList rest).or (dropStart? "nan".toList rest)
  after.map fun after => (text.take (text.length - after.length), after)

def scanFloat (text : List Char) : Option (List Char × List Char) :=
  (decimalFloat text).or (namedFloat text)

/-- A number of exactly so many digits between two bounds. -/
def boundedDigits (count low high : Nat) (text : List Char) : Option (Nat × List Char) :=
  let digits := text.take count
  if digits.length = count ∧ digits.all Char.isDigit ∧ low ≤ ofDigits digits ∧
      ofDigits digits ≤ high then
    some (ofDigits digits, text.drop count)
  else none

def IsLeap (year : Nat) : Prop := year % 4 = 0 ∧ (year % 100 ≠ 0 ∨ year % 400 = 0)

instance (year : Nat) : Decidable (IsLeap year) := inferInstanceAs (Decidable (_ ∧ _))

def daysInMonth (year month : Nat) : Nat :=
  if month = 2 then if IsLeap year then 29 else 28
  else if month = 4 ∨ month = 6 ∨ month = 9 ∨ month = 11 then 30
  else 31

/-- The text after a date. -/
def dropDate? (text : List Char) : Option (List Char) := do
  let (year, rest) ← boundedDigits 4 0 9999 text
  let rest ← dropStart? ['-'] rest
  let (month, rest) ← boundedDigits 2 1 12 rest
  let rest ← dropStart? ['-'] rest
  let (_, rest) ← boundedDigits 2 1 (daysInMonth year month) rest
  return rest

def dropSecondFraction? : List Char → Option (List Char)
  | '.' :: rest =>
    match spanOf Char.isDigit rest with
    | ([], _) => none
    | (_, rest) => some rest
  | text => some text

/-- The text after a time of day. A minute may have a leap second. -/
def dropTime? (text : List Char) : Option (List Char) := do
  let (_, rest) ← boundedDigits 2 0 23 text
  let rest ← dropStart? [':'] rest
  let (_, rest) ← boundedDigits 2 0 59 rest
  let rest ← dropStart? [':'] rest
  let (_, rest) ← boundedDigits 2 0 60 rest
  dropSecondFraction? rest

/-- The text after an offset from universal time, if there is one. -/
def dropOffset? : List Char → Option (List Char)
  | 'Z' :: rest | 'z' :: rest => some rest
  | '+' :: rest | '-' :: rest => do
    let (_, rest) ← boundedDigits 2 0 23 rest
    let rest ← dropStart? [':'] rest
    let (_, rest) ← boundedDigits 2 0 59 rest
    return rest
  | text => some text

/-- The text after the time that belongs to a date, if one follows. -/
def dropTimeOfDate? : List Char → Option (List Char)
  | c :: rest =>
    if c = 'T' ∨ c = 't' ∨ c = ' ' then
      match dropTime? rest with
      | some rest => dropOffset? rest
      | none => if c = ' ' then some (c :: rest) else none
    else some (c :: rest)
  | [] => some []

def scanDateTime (text : List Char) : Option (List Char × List Char) := do
  let rest ←
    match dropDate? text with
    | some rest => dropTimeOfDate? rest
    | none => dropTime? text
  return (text.take (text.length - rest.length), rest)

end UsageLedger.Toml
