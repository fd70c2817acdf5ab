import UsageLedger.Json.Basic

/-!
JSON text for people: every item and member on a line of its own, two spaces per level.
-/

namespace UsageLedger.Json

open Text

def hexChar (n : Nat) : Char := Nat.digitChar n

/-- The form of a character inside a string. Controls without a letter of their own are written
with four hexadecimal digits. -/
def escape (c : Char) : List Char :=
  if c = '"' then ['\\', '"']
  else if c = '\\' then ['\\', '\\']
  else if c = '\x08' then ['\\', 'b']
  else if c = '\x0c' then ['\\', 'f']
  else if c = '\n' then ['\\', 'n']
  else if c = '\r' then ['\\', 'r']
  else if c = '\t' then ['\\', 't']
  else if c.toNat < 0x20 then
    ['\\', 'u', '0', '0', hexChar (c.toNat / 16), hexChar (c.toNat % 16)]
  else [c]

def quote (s : String) : List Char := '"' :: s.toList.flatMap escape ++ ['"']

def signText (negative : Bool) : List Char := if negative then ['-'] else []

def numberText (n : JsonNumber) : List Char :=
  signText n.negative ++ decimal n.whole ++
    (if n.fraction = [] then [] else '.' :: n.fraction) ++
    match n.exponent with
    | some e => 'e' :: signText (e < 0) ++ decimal e.natAbs
    | none => []

/-- A new line at the given level. -/
def newline (level : Nat) : List Char := '\n' :: List.replicate (2 * level) ' '

mutual

/-- The text of a value whose first line is already indented to the given level. -/
def pretty (level : Nat) : Json → List Char
  | .null => "null".toList
  | .bool true => "true".toList
  | .bool false => "false".toList
  | .number n => numberText n
  | .string s => quote s
  | .array [] => "[]".toList
  | .array (item :: items) =>
    '[' :: newline (level + 1) ++ pretty (level + 1) item ++ prettyItems (level + 1) items ++
      newline level ++ [']']
  | .object [] => ['\x7b', '\x7d']
  | .object (entry :: members) =>
    '\x7b' :: newline (level + 1) ++ prettyMember (level + 1) entry ++
      prettyMembers (level + 1) members ++ newline level ++ ['\x7d']

def prettyMember (level : Nat) : String × Json → List Char
  | (key, value) => quote key ++ ": ".toList ++ pretty level value

/-- The items after the first. -/
def prettyItems (level : Nat) : List Json → List Char
  | [] => []
  | item :: items => ',' :: newline level ++ pretty level item ++ prettyItems level items

/-- The members after the first. -/
def prettyMembers (level : Nat) : List (String × Json) → List Char
  | [] => []
  | entry :: members =>
    ',' :: newline level ++ prettyMember level entry ++ prettyMembers level members

end

def render (json : Json) : List Char := pretty 0 json

end UsageLedger.Json
