/-!
TOML values. A table remembers how it came to be, because that decides what may be added to it.
-/

namespace UsageLedger

inductive Toml where
  | string (text : String)
  | integer (value : Int)
  | float (literal : List Char)
  | boolean (value : Bool)
  | dateTime (literal : List Char)
  | array (items : List Toml)
  /-- A table written between braces, complete as it stands. -/
  | inline (members : List (String × Toml))
  /-- A table of its own: made only as part of the path to another one, or by a dotted key. -/
  | table (implied dotted : Bool) (members : List (String × Toml))
  | tables (elements : List (List (String × Toml)))
deriving Repr

namespace Toml

/-- The value as an integer. -/
def int? : Toml → Option Int
  | .integer value => some value
  | _ => none

end Toml

end UsageLedger
