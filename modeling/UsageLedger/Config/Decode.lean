import UsageLedger.Config
import UsageLedger.Toml.Parser

/-!
Settings as TOML documents. Every field may be left out and then has its default value. Unknown
fields are refused at the top and ignored among the bands, which may also be written as an array
in the order of the bands.
-/

namespace UsageLedger

/-- Why a document gives no settings: it is malformed, or its settings are at fault. -/
inductive DocumentFault where
  | malformed
  | invalid (reason : ConfigFault)
deriving DecidableEq, Repr

namespace Config

def int32? (value : Toml) : Option Int :=
  value.int?.filter fun n => -0x80000000 ≤ n ∧ n < 0x80000000

/-- The bands with new bounds for those among the given that have a member. -/
def bandsOfMembers? (members : Toml.Members) (bands : Bands) : List Band → Option Bands
  | [] => some bands
  | band :: rest =>
    match Toml.find? members band.name with
    | none => bandsOfMembers? members bands rest
    | some value => do bandsOfMembers? members (bands.setBound band (← int32? value)) rest

/-- The bands with the values as bounds, in order; surplus values are ignored. -/
def bandsOfItems? (bands : Bands) : List Band → List Toml → Option Bands
  | [], _ => some bands
  | _, [] => some bands
  | band :: rest, value :: items => do
    bandsOfItems? (bands.setBound band (← int32? value)) rest items

/-- A date or time counts as bands without any known member. -/
def bands? : Toml → Option Bands
  | .table _ _ members | .inline members => bandsOfMembers? members {} Band.all
  | .array items => bandsOfItems? {} Band.all items
  | .dateTime _ => some {}
  | _ => none

def vectorLen? : Toml → Option Nat
  | .integer (.ofNat n) => some n
  | _ => none

/-- The settings of a document, not yet validated. -/
def ofMembers? (members : Toml.Members) : Option Config := do
  let vectorLen ← match Toml.find? members "vector_len" with
    | none => some (Config.vectorLen {})
    | some value => vectorLen? value
  let bands ← match Toml.find? members "bands" with
    | none => some {}
    | some value => bands? value
  if ∀ entry ∈ members, entry.1 ∈ ["vector_len", "bands"] then some { vectorLen, bands } else none

def ofChars (text : List Char) : Except DocumentFault Config :=
  match (Toml.ofChars? text).bind ofMembers? with
  | none => .error .malformed
  | some config =>
    match config.fault? with
    | some reason => .error (.invalid reason)
    | none => .ok config

def ofText (text : String) : Except DocumentFault Config := ofChars text.toList

end Config

end UsageLedger
