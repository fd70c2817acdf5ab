import UsageLedger.Toml.Scalar
import UsageLedger.Toml.Table

/-!
Reading TOML text. Arrays and inline tables nest at most 79 deep, and a dotted key has at most 79
parts.
-/

namespace UsageLedger.Toml

open Text

def maxDepth : Nat := 79

def dropComment : List Char → List Char
  | '#' :: rest => rest.dropWhile fun c => IsPrintable c
  | text => text

/-- The text after spaces, newlines and comments. -/
def skipTrivia (inComment : Bool) : List Char → List Char
  | [] => []
  | c :: rest =>
    if inComment = true ∧ IsPrintable c then skipTrivia true rest
    else if IsSpace c ∨ c = '\n' then skipTrivia false rest
    else if c = '#' then skipTrivia true rest
    else if c = '\r' then
      match rest with
      | '\n' :: rest => skipTrivia false rest
      | _ => c :: rest
    else c :: rest

def IsBare (c : Char) : Prop := c.isAlphanum = true ∨ c = '_' ∨ c = '-'

instance (c : Char) : Decidable (IsBare c) := inferInstanceAs (Decidable (_ ∨ _))

/-- A part of a key: quoted on one line, or bare. -/
def keyPart (text : List Char) : Option (String × List Char) :=
  match lineString text with
  | some (chars, rest) => some (String.ofList chars, rest)
  | none =>
    match spanOf (fun c => IsBare c) text with
    | ([], _) => none
    | (chars, rest) => some (String.ofList chars, rest)

/-- The parts of a key with points between them: those before the last, and the last. -/
def keyParts : Nat → Scan (List String × String)
  | 0, _ => none
  | fuel + 1, text => do
    let (part, rest) ← keyPart (skipSpace text)
    match skipSpace rest with
    | '.' :: rest =>
      let ((path, key), rest) ← keyParts fuel rest
      return ((part :: path, key), rest)
    | rest => return (([], part), rest)

/-- A key and the white space around it. -/
def scanKey (text : List Char) : Option ((List String × String) × List Char) :=
  (keyParts (text.length + 1) text).filter fun found => found.1.1.length < maxDepth

/-- The items of an array up to its closing bracket. The last may have a comma after it. -/
def arrayItems (item : Scan Toml) : Nat → Scan (List Toml)
  | 0, _ => none
  | fuel + 1, text =>
    match skipTrivia false text with
    | ']' :: rest => some ([], rest)
    | text => do
      let (x, rest) ← item text
      match skipTrivia false rest with
      | ',' :: rest =>
        let (items, rest) ← arrayItems item fuel rest
        return (x :: items, rest)
      | ']' :: rest => return ([x], rest)
      | _ => none

/-- A key, an equals sign and a value. -/
def scanPair (item : Scan Toml) (text : List Char) :
    Option ((List String × String × Toml) × List Char) := do
  let ((path, key), rest) ← scanKey text
  let rest ← dropStart? ['='] rest
  let (x, rest) ← item (skipSpace rest)
  return ((path, key, x), rest)

/-- The pairs of an inline table up to its closing brace, all on one line. -/
def inlinePairs (item : Scan Toml) (members : Members) : Nat → Scan Members
  | 0, _ => none
  | fuel + 1, text => do
    let ((path, key, x), rest) ← scanPair item text
    let members ← assign path key x members
    match skipSpace rest with
    | ',' :: rest => inlinePairs item members fuel rest
    | '\x7d' :: rest => return (members, rest)
    | _ => none

def inlineTable (item : Scan Toml) (text : List Char) : Option (Members × List Char) :=
  match skipSpace text with
  | '\x7d' :: rest => some ([], rest)
  | text => inlinePairs item [] (text.length + 1) text

def scanNumeric (text : List Char) : Option (Toml × List Char) :=
  match scanDateTime text with
  | some (literal, rest) => some (.dateTime literal, rest)
  | none =>
    match scanFloat text with
    | some (literal, rest) => some (.float literal, rest)
    | none => (scanInteger text).map fun (n, rest) => (.integer n, rest)

/-- A value that is neither an array nor an inline table. -/
def scanScalar (text : List Char) : Option (Toml × List Char) :=
  match text with
  | '"' :: _ | '\x27' :: _ =>
    (scanString text).map fun (chars, rest) => (.string (String.ofList chars), rest)
  | 't' :: _ => (dropStart? "true".toList text).map fun rest => (.boolean true, rest)
  | 'f' :: _ => (dropStart? "false".toList text).map fun rest => (.boolean false, rest)
  | _ => scanNumeric text

/-- A value whose arrays and inline tables nest at most so deep. -/
def scanValue : Nat → Scan Toml
  | depth + 1, '[' :: text =>
    (arrayItems (scanValue depth) (text.length + 1) text).map fun (items, rest) =>
      (.array items, rest)
  | depth + 1, '\x7b' :: text =>
    (inlineTable (scanValue depth) text).map fun (members, rest) => (.inline members, rest)
  | _, text => scanScalar text

inductive Statement where
  | assign (path : List String) (key : String) (value : Toml)
  | table (path : List String) (key : String)
  | element (path : List String) (key : String)

def scanStatement (text : List Char) : Option (Statement × List Char) :=
  match text with
  | '[' :: '[' :: text => do
    let ((path, key), rest) ← scanKey text
    let rest ← dropStart? [']', ']'] rest
    return (.element path key, rest)
  | '[' :: text => do
    let ((path, key), rest) ← scanKey text
    let rest ← dropStart? [']'] rest
    return (.table path key, rest)
  | text => do
    let ((path, key, x), rest) ← scanPair (scanValue maxDepth) text
    return (.assign path key x, rest)

/-- The text after the end of a line: spaces, a comment, and a newline unless the text ends. -/
def dropLineEnd? (text : List Char) : Option (List Char) :=
  match dropComment (skipSpace text) with
  | [] => some []
  | text => dropNewline? text

/-- The line holds no statement. -/
def IsIdle : List Char → Prop
  | [] => True
  | c :: _ => c = '#' ∨ c = '\n' ∨ c = '\r'

instance : (text : List Char) → Decidable (IsIdle text)
  | [] => .isTrue trivial
  | _ :: _ => inferInstanceAs (Decidable (_ ∨ _))

/-- The statements of a document, of which there are fewer lines than `fuel`. -/
def scanStatements : Nat → List Char → Option (List Statement)
  | _, [] => some []
  | 0, _ => none
  | fuel + 1, c :: rest =>
    let text := skipSpace (c :: rest)
    if IsIdle text then do
      scanStatements fuel (← dropLineEnd? text)
    else do
      let (statement, rest) ← scanStatement text
      let statements ← scanStatements fuel (← dropLineEnd? rest)
      return statement :: statements

/-- Carries out the statements, of which assignments go into the table opened last. -/
def build (current : List String) (members : Members) : List Statement → Option Members
  | [] => some members
  | .assign path key x :: rest => do
    let members ← update false (fun _ inner => Toml.assign path key x inner) current false members
    build current members rest
  | .table path key :: rest => do build (path ++ [key]) (← openTable path key members) rest
  | .element path key :: rest => do build (path ++ [key]) (← openElement path key members) rest

/-- The top table of a document. A byte order mark before it is ignored. -/
def ofChars? (text : List Char) : Option Members := do
  let text := match text with
    | '\ufeff' :: text => text
    | text => text
  let statements ← scanStatements (text.length + 1) text
  build [] [] statements

end UsageLedger.Toml
