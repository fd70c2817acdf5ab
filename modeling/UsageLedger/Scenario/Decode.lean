import UsageLedger.Scenario
import UsageLedger.Json.Parser

/-!
Scenarios as JSON documents. Objects and events may also be written as arrays that hold the values
in the order of the fields. Unknown members are refused in the document and ignored in events.
-/

namespace UsageLedger

open Text

/-- A list of named values in which each name that matters occurs at most once. -/
abbrev Fields := List (String × Json)

namespace Fields

def Single (fields : Fields) (name : String) : Prop :=
  (fields.filter fun field => field.1 = name).length ≤ 1

instance (fields : Fields) (name : String) : Decidable (fields.Single name) :=
  inferInstanceAs (Decidable (_ ≤ _))

def get? (fields : Fields) (name : String) : Option Json :=
  (fields.find? fun field => field.1 = name).map Prod.snd

def entity? (fields : Fields) (name : String) : Option Nat :=
  (fields.get? name).bind (Json.nat? entityBound)

def time? (fields : Fields) : Option Nat := (fields.get? "at_ms").bind (Json.nat? counterBound)

/-- The time, zero if it is left out. -/
def timeOrZero? (fields : Fields) : Option Nat :=
  match fields.get? "at_ms" with
  | none => some 0
  | some value => value.nat? counterBound

def bool? (fields : Fields) (name : String) : Option Bool := (fields.get? name).bind Json.bool?

def counters? (fields : Fields) : Option (List Nat) :=
  (fields.get? "cumulative").bind Json.counters?

end Fields

/-- A state is its name, or an object whose one member has that name and no content. -/
def ProcState.ofJson? : Json → Option ProcState
  | .string name => ProcState.ofName? name
  | .object [(name, .null)] => ProcState.ofName? name
  | .object [(name, .object [])] => ProcState.ofName? name
  | _ => none

namespace Event

/-- The fields of the events with the given tag, in the order of the array form. -/
def fieldNames? : String → Option (List String)
  | "classify" => some ["entity", "state", "at_ms"]
  | "process_state" => some ["entity", "importance", "at_ms"]
  | "time_base" => some ["on_battery", "screen_off", "at_ms"]
  | "isolated" => some ["parent", "child"]
  | "wakelock_acquire" => some ["entity", "at_ms"]
  | "wakelock_release" => some ["entity", "at_ms"]
  | "sample" => some ["entity", "cumulative"]
  | "unavailable" => some ["entity"]
  | "bulk_sample" => some ["entity", "cumulative"]
  | "tick" => some ["at_ms"]
  | "copy_all" => some ["at_ms"]
  | _ => none

/-- The event with the given tag and fields. -/
def ofFields? (tag : String) (fields : Fields) : Option Event :=
  match tag with
  | "classify" => do
    let state ← (fields.get? "state").bind ProcState.ofJson?
    return .classify (← fields.entity? "entity") state (← fields.timeOrZero?)
  | "process_state" => do
    let code ← (fields.get? "importance").bind Json.int32?
    return .importance (← fields.entity? "entity") code (← fields.timeOrZero?)
  | "time_base" => do
    return .timeBase (← fields.bool? "on_battery") (← fields.bool? "screen_off")
      (← fields.timeOrZero?)
  | "isolated" => do return .isolate (← fields.entity? "parent") (← fields.entity? "child")
  | "wakelock_acquire" => do return .acquire (← fields.entity? "entity") (← fields.time?)
  | "wakelock_release" => do return .release (← fields.entity? "entity") (← fields.time?)
  | "sample" => do return .sample (← fields.entity? "entity") (← fields.counters?)
  | "unavailable" => do return .unavailable (← fields.entity? "entity")
  | "bulk_sample" => do return .bulkSample (← fields.entity? "entity") (← fields.counters?)
  | "tick" => do return .tick (← fields.time?)
  | "copy_all" => do return .copyAll (← fields.time?)
  | _ => none

/-- An event is an object with its tag under `event`, or an array that begins with the tag. -/
def ofJson? : Json → Option Event
  | .object members => do
    let tag ← (Fields.get? members "event").bind Json.string?
    let names ← fieldNames? tag
    if ∀ name ∈ "event" :: names, Fields.Single members name then ofFields? tag members else none
  | .array (.string tag :: values) => do
    let names ← fieldNames? tag
    if values.length ≤ names.length then ofFields? tag (names.zip values) else none
  | _ => none

end Event

namespace Scenario

def events? : Json → Option (List Event)
  | .array items => items.mapM Event.ofJson?
  | _ => none

/-- A vector length; null stands for none. -/
def vectorLen? : Json → Option (Option Nat)
  | .null => some none
  | value => (value.nat? counterBound).map some

def ofFields? (fields : Fields) : Option Scenario := do
  let vectorLen ← match fields.get? "vector_len" with
    | none => some none
    | some value => vectorLen? value
  let events ← (fields.get? "events").bind events?
  return { vectorLen, events }

def ofJson? : Json → Option Scenario
  | .object members =>
    if (∀ field ∈ members, field.1 ∈ ["vector_len", "events"]) ∧
        (∀ name ∈ ["vector_len", "events"], Fields.Single members name) then ofFields? members
    else none
  | .array [vectorLen, events] => ofFields? [("vector_len", vectorLen), ("events", events)]
  | _ => none

def ofChars? (text : List Char) : Option Scenario := (Json.ofChars? text).bind ofJson?

def ofText? (text : String) : Option Scenario := ofChars? text.toList

end Scenario

end UsageLedger
