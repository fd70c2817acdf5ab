import UsageLedger.Toml.Basic

/-!
Tables under construction: what dotted keys and headers may add to them.
-/

namespace UsageLedger.Toml

/-- The members of a table. -/
abbrev Members := List (String × Toml)

def find? (members : Members) (key : String) : Option Toml :=
  (members.find? fun entry => entry.1 = key).map Prod.snd

/-- The members with a new value for a key, which goes to the end if the key is new. -/
def put (members : Members) (key : String) (value : Toml) : Members :=
  match members with
  | [] => [(key, value)]
  | (k, x) :: rest => if k = key then (k, value) :: rest else (k, x) :: put rest key value

/-- Changes the table at the end of a path, making the tables on the way that are missing. A path
goes into the last of several tables; a dotted path only goes into tables that were implied. The
change is told whether its table was made by a dotted key. -/
def update (dotted : Bool) (change : Bool → Members → Option Members) :
    List String → Bool → Members → Option Members
  | [], here, members => change here members
  | key :: path, _, members =>
    match find? members key with
    | none =>
      (update dotted change path dotted []).map fun inner =>
        put members key (.table true dotted inner)
    | some (.table implied fromDotted inner) =>
      if dotted = true ∧ implied = false then none
      else
        (update dotted change path fromDotted inner).map fun inner =>
          put members key (.table implied fromDotted inner)
    | some (.tables elements) =>
      match elements.getLast? with
      | none => none
      | some inner =>
        (update dotted change path false inner).map fun inner =>
          put members key (.tables (elements.dropLast ++ [inner]))
    | some _ => none

/-- Gives a key a value. The path before the key and the table it ends in must both be dotted or
both not, and the key must be new. -/
def assign (path : List String) (key : String) (value : Toml) : Members → Option Members :=
  update true (fun fromDotted members =>
    if fromDotted = path.isEmpty ∨ find? members key ≠ none then none
    else some (put members key value)) path false

/-- Opens the table of a header. Only a table that other headers implied may be there already. -/
def openTable (path : List String) (key : String) : Members → Option Members :=
  update false (fun _ members =>
    match find? members key with
    | none => some (put members key (.table false false []))
    | some (.table true false inner) => some (put members key (.table false false inner))
    | some _ => none) path false

/-- Opens a further table of an array of tables. -/
def openElement (path : List String) (key : String) : Members → Option Members :=
  update false (fun _ members =>
    match find? members key with
    | none => some (put members key (.tables [[]]))
    | some (.tables elements) => some (put members key (.tables (elements ++ [[]])))
    | some _ => none) path false

end UsageLedger.Toml
