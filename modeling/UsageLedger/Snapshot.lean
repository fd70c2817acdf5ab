import UsageLedger.Ledger
import UsageLedger.UidTimes
import UsageLedger.Json.Printer

/-!
What a ledger shows: a table for people and a JSON document. Both list the entities in ascending
order, and of each entity the rows that hold usage.
-/

namespace UsageLedger

structure SnapshotRow where
  slot : Slot
  allTime : Option Measure
  screenOff : Option Measure
deriving DecidableEq, Repr

structure EntitySnapshot where
  entity : Nat
  state : Option ProcState
  pending : Option ProcState
  children : List Nat
  rows : List SnapshotRow
deriving DecidableEq, Repr

structure Snapshot where
  vectorLen : Nat
  timeBase : TimeBase
  entities : List EntitySnapshot
deriving DecidableEq, Repr

def Account.snapshotRows (account : Account) : List SnapshotRow :=
  account.rows.map fun slot =>
    { slot, allTime := account.cell? slot .allTime, screenOff := account.cell? slot .screenOff }

namespace Ledger

/-- The entities that are known or have an account, ascending. -/
def listed (ledger : Ledger) : List Nat :=
  (KeySet.addAll (ledger.standing.map fun _ _ => ()) ledger.store.entities).keys

def entitySnapshot (ledger : Ledger) (entity : Nat) : EntitySnapshot where
  entity := entity
  state := ledger.stateOf entity
  pending := ledger.pending.get? entity
  children := ledger.isolation.childrenOf entity
  rows := ((ledger.store.accounts.get? entity).map Account.snapshotRows).getD []

def snapshot (ledger : Ledger) : Snapshot where
  vectorLen := ledger.vectorLen
  timeBase := ledger.timeBase
  entities := ledger.listed.map ledger.entitySnapshot

end Ledger

namespace Snapshot

open Text UidTimes

def entity? (snapshot : Snapshot) (entity : Nat) : Option EntitySnapshot :=
  snapshot.entities.find? fun entry => entry.entity = entity

def boolText (b : Bool) : List Char := if b then "true".toList else "false".toList

/-- A line of the table. Entries wider than their column keep a space after them. -/
def tableLine (entity state column usage : List Char) : List Char :=
  entity.leftpad 8 ' ' ++ ' ' :: state.rightpad 20 ' ' ++ ' ' :: column.rightpad 10 ' ' ++
    ' ' :: usage ++ ['\n']

def ruleLine : List Char := List.replicate 64 '─' ++ ['\n']

def header (base : TimeBase) : List Char :=
  "time base: on_battery=".toList ++ boolText base.onBattery ++ " screen_off=".toList ++
    boolText base.screenOff ++ " since=".toList ++ decimal base.lastTransition ++ "ms\n".toList ++
    tableLine "entity".toList "state".toList "column".toList "cpu time per frequency".toList ++
    ruleLine

/-- The line of one cell, none if the cell is absent. -/
def cellLine (entity : Nat) (slot : Slot) (column : String) : Option Measure → List Char
  | none => []
  | some usage => tableLine (decimal entity) slot.name.toList column.toList (joinSpaced usage)

def rowLines (entity : Nat) (row : SnapshotRow) : List Char :=
  cellLine entity row.slot "all" row.allTime ++ cellLine entity row.slot "screen_off" row.screenOff

def joinCommas : List Nat → List Char
  | [] => []
  | [n] => decimal n
  | n :: rest => decimal n ++ ',' :: ' ' :: joinCommas rest

/-- The lines of an entity: its cells, or a dash if it has none, and its isolated entities. -/
def entityLines (entry : EntitySnapshot) : List Char :=
  (if entry.rows = [] then
    tableLine (decimal entry.entity) (Slot.ofState? entry.state).name.toList [] ['-']
  else entry.rows.flatMap (rowLines entry.entity)) ++
  if entry.children = [] then []
  else [].leftpad 8 ' ' ++ " isolated: ".toList ++ joinCommas entry.children ++ ['\n']

def table (snapshot : Snapshot) : List Char :=
  header snapshot.timeBase ++ snapshot.entities.flatMap entityLines

/-- A member that is left out if there is no value for it. -/
def optionalMember (key : String) : Option Json → List (String × Json)
  | some value => [(key, value)]
  | none => []

def rowJson (row : SnapshotRow) : Json :=
  .object (("state", .string row.slot.name) ::
    optionalMember "all_time" (row.allTime.map Json.ofNats) ++
    optionalMember "screen_off" (row.screenOff.map Json.ofNats))

def stateJson (state : Option ProcState) : Json :=
  match state with
  | some state => .string state.name
  | none => .null

def entityJson (entry : EntitySnapshot) : Json :=
  .object ([("entity", .ofNat entry.entity), ("classification", stateJson entry.state)] ++
    optionalMember "pending" (entry.pending.map fun state => .string state.name) ++
    optionalMember "children"
      (if entry.children = [] then none else some (.ofNats entry.children)) ++
    [("buckets", .array (entry.rows.map rowJson))])

def timeBaseJson (base : TimeBase) : Json :=
  .object [("on_battery", .bool base.onBattery), ("screen_off", .bool base.screenOff),
    ("last_transition_ms", .ofNat base.lastTransition)]

def toJson (snapshot : Snapshot) : Json :=
  .object [("vector_len", .ofNat snapshot.vectorLen), ("time_base", timeBaseJson snapshot.timeBase),
    ("entities", .array (snapshot.entities.map entityJson))]

def tableText (snapshot : Snapshot) : String := String.ofList snapshot.table

def jsonText (snapshot : Snapshot) : String := String.ofList snapshot.toJson.render

end Snapshot

namespace UidTimes

/-- Text in ascending order of the characters. -/
def insertByKey (entry : String × Json) : List (String × Json) → List (String × Json)
  | [] => [entry]
  | first :: rest =>
    if first.1 < entry.1 then first :: insertByKey entry rest else entry :: first :: rest

/-- The document of a file. Its uids are member names, which stand in the order of their text. -/
def toJson (parsed : UidTimes) : Json :=
  .object [("freqs", .ofNats parsed.frequencies),
    ("times", .object ((parsed.times.entries.map fun (uid, values) =>
      (toString uid, Json.ofNats values)).foldr insertByKey []))]

def listingText (parsed : UidTimes) : String := String.ofList parsed.listing

def jsonText (parsed : UidTimes) : String := String.ofList parsed.toJson.render

end UidTimes

end UsageLedger
