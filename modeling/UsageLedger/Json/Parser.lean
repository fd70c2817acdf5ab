import UsageLedger.Json.Basic
import UsageLedger.Text.Scan

/-!
Reading JSON text. The grammar is the strict one, with two limits: containers may nest 127 deep,
and numbers must stay within the range of binary64.
-/

namespace UsageLedger.Json

open Text

def IsSpace (c : Char) : Prop := c = ' ' ∨ c = '\t' ∨ c = '\n' ∨ c = '\r'

instance (c : Char) : Decidable (IsSpace c) := inferInstanceAs (Decidable (_ ∨ _))

def skipSpace (text : List Char) : List Char := text.dropWhile fun c => IsSpace c

/-- The digits after a point, none if there is no point. A point needs a digit after it. -/
def scanFraction : Scan (List Char)
  | '.' :: text =>
    match spanOf Char.isDigit text with
    | ([], _) => none
    | (digits, rest) => some (digits, rest)
  | text => some ([], text)

def sign : List Char → Bool × List Char
  | '-' :: text => (true, text)
  | '+' :: text => (false, text)
  | text => (false, text)

def signed (negative : Bool) (n : Nat) : Int := if negative then -n else n

/-- An exponent, if the text goes on with one. -/
def scanExponent : Scan (Option Int)
  | 'e' :: text | 'E' :: text =>
    let (negative, text) := sign text
    match spanOf Char.isDigit text with
    | ([], _) => none
    | (digits, rest) => some (some (signed negative (ofDigits digits)), rest)
  | text => some (none, text)

/-- The integer part, without leading zeros. -/
def scanWhole (text : List Char) : Option (Nat × List Char) :=
  match spanOf Char.isDigit text with
  | ([], _) => none
  | ('0' :: _ :: _, _) => none
  | (digits, rest) => some (ofDigits digits, rest)

def scanNumber (text : List Char) : Option (JsonNumber × List Char) := do
  let (negative, text) := match text with
    | '-' :: text => (true, text)
    | text => (false, text)
  let (whole, text) ← scanWhole text
  let (fraction, text) ← scanFraction text
  let (exponent, text) ← scanExponent text
  let n : JsonNumber := { negative, whole, fraction, exponent }
  if n.IsFinite then some (n, text) else none

/-- The character of an escape that is a single letter. -/
def escapeLetter? : Char → Option Char
  | '"' => some '"'
  | '\\' => some '\\'
  | '/' => some '/'
  | 'b' => some '\x08'
  | 'f' => some '\x0c'
  | 'n' => some '\n'
  | 'r' => some '\r'
  | 't' => some '\t'
  | _ => none

/-- The character that two halves of a surrogate pair stand for. -/
def surrogatePair? (high low : Nat) : Option Char :=
  if 0xDC00 ≤ low ∧ low ≤ 0xDFFF then scalar? (0x10000 + (high - 0xD800) * 0x400 + (low - 0xDC00))
  else none

/-- The character written by four hexadecimal digits after a backslash and a u, together with a
second such escape if the first is the upper half of a surrogate pair. -/
def unicodeEscape (text : List Char) : Option (Char × List Char) := do
  let (code, rest) ← hexDigits 4 text
  if 0xD800 ≤ code ∧ code ≤ 0xDBFF then
    let rest ← dropStart? ['\\', 'u'] rest
    let (low, rest) ← hexDigits 4 rest
    let c ← surrogatePair? code low
    return (c, rest)
  else
    let c ← scalar? code
    return (c, rest)

/-- One character of a string, or none at the closing quote. -/
def stringItem : Scan (Option Char)
  | '"' :: rest => some (none, rest)
  | '\\' :: 'u' :: rest => (unicodeEscape rest).map fun (c, rest) => (some c, rest)
  | '\\' :: c :: rest => (escapeLetter? c).map fun c => (some c, rest)
  | c :: rest => if c.toNat < 0x20 ∨ c = '\\' then none else some (some c, rest)
  | [] => none

/-- The characters up to the closing quote, of which there are fewer than `fuel`. -/
def stringItems : Nat → Scan (List Char)
  | 0, _ => none
  | fuel + 1, text =>
    match stringItem text with
    | none => none
    | some (none, rest) => some ([], rest)
    | some (some c, rest) => (stringItems fuel rest).map fun (chars, rest) => (c :: chars, rest)

/-- A string after its opening quote. -/
def scanString (text : List Char) : Option (String × List Char) :=
  (stringItems (text.length + 1) text).map fun (chars, rest) => (String.ofList chars, rest)

/-- One or more items with commas between them, up to the closing bracket. -/
def separated {α : Type} (item : Scan α) (close : Char) : Nat → Scan (List α)
  | 0, _ => none
  | fuel + 1, text =>
    match item (skipSpace text) with
    | none => none
    | some (x, rest) =>
      match skipSpace rest with
      | ',' :: rest =>
        (separated item close fuel rest).map fun (items, rest) => (x :: items, rest)
      | c :: rest => if c = close then some ([x], rest) else none
      | [] => none

/-- The items of a container after its opening bracket. -/
def enclosed {α : Type} (item : Scan α) (close : Char) (text : List Char) :
    Option (List α × List Char) :=
  match skipSpace text with
  | [] => none
  | c :: rest =>
    if c = close then some ([], rest) else separated item close (rest.length + 1) (c :: rest)

/-- A member of an object: a string, a colon and a value. -/
def scanMember (scanValue : Scan Json) : Scan (String × Json)
  | '"' :: text => do
    let (key, text) ← scanString text
    match skipSpace text with
    | ':' :: text =>
      let (x, text) ← scanValue (skipSpace text)
      return ((key, x), text)
    | _ => none
  | _ => none

/-- A value that is no container. -/
def scanScalar (text : List Char) : Option (Json × List Char) :=
  match text with
  | '"' :: rest => (scanString rest).map fun (s, rest) => (.string s, rest)
  | 'n' :: _ => (dropStart? "null".toList text).map fun rest => (.null, rest)
  | 't' :: _ => (dropStart? "true".toList text).map fun rest => (.bool true, rest)
  | 'f' :: _ => (dropStart? "false".toList text).map fun rest => (.bool false, rest)
  | _ => (scanNumber text).map fun (n, rest) => (.number n, rest)

/-- A value whose containers nest at most so deep. -/
def scanValue : Nat → Scan Json
  | depth + 1, '[' :: text =>
    (enclosed (scanValue depth) ']' text).map fun (items, rest) => (.array items, rest)
  | depth + 1, '\x7b' :: text =>
    (enclosed (scanMember (scanValue depth)) '\x7d' text).map fun (members, rest) =>
      (.object members, rest)
  | _, text => scanScalar text

/-- How deep containers may nest. -/
def maxDepth : Nat := 127

/-- The value that the whole text stands for. -/
def ofChars? (text : List Char) : Option Json :=
  match scanValue maxDepth (skipSpace text) with
  | some (json, rest) => if skipSpace rest = [] then some json else none
  | none => none

end UsageLedger.Json
