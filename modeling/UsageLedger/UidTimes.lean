import UsageLedger.Table
import UsageLedger.Measure
import UsageLedger.Fault
import UsageLedger.Text.Blank
import UsageLedger.Text.Scan

/-!
Time-in-state files: a header line `uid:` with the frequencies of the device, then a line per uid
with its usage at each of them. Blank lines do not matter but are counted.
-/

namespace UsageLedger

structure UidTimes where
  frequencies : List Nat
  times : Table Measure
deriving DecidableEq, Repr

namespace UidTimes

open Text

/-- The values of a list of words, or the first word that is no counter. -/
def readCounters : List (List Char) → Except LineFault (List Nat)
  | [] => .ok []
  | word :: rest =>
    match numeral? counterBound word with
    | none => .error (.badNumber (String.ofList word))
    | some value =>
      match readCounters rest with
      | .error fault => .error fault
      | .ok values => .ok (value :: values)

def readHeader (line : List Char) : Except LineFault (List Nat) :=
  match dropStart? "uid:".toList line with
  | none => .error .header
  | some labels =>
    match readCounters (words labels) with
    | .error fault => .error fault
    | .ok [] => .error .noFrequencies
    | .ok frequencies => .ok frequencies

/-- The parts of a line before and after its first colon. -/
def splitColon? : List Char → Option (List Char × List Char)
  | [] => none
  | c :: rest =>
    if c = ':' then some ([], rest)
    else (splitColon? rest).map fun (before, after) => (c :: before, after)

/-- Adds the row on a line. What is wrong with the numbers is told before a repeated uid. -/
def readRow (frequencies : Nat) (times : Table Measure) (line : List Char) :
    Except LineFault (Table Measure) :=
  match splitColon? line with
  | none => .error .noColon
  | some (label, counters) =>
    match numeral? entityBound (trim label) with
    | none => .error (.badUid (String.ofList (trim label)))
    | some uid =>
      match readCounters (words counters) with
      | .error fault => .error fault
      | .ok values =>
        if values.length ≠ frequencies then .error (.width uid values.length frequencies)
        else if uid ∈ times then .error (.duplicate uid)
        else .ok (times.insert uid values)

def readRows (frequencies : Nat) (times : Table Measure) :
    List (List Char × Nat) → Except Fault (Table Measure)
  | [] => .ok times
  | (line, number) :: rest =>
    match readRow frequencies times line with
    | .error reason => .error (.line number reason)
    | .ok times => readRows frequencies times rest

/-- The lines that are not blank, trimmed, with their numbers from one on. -/
def numberedLines (text : List Char) : List (List Char × Nat) :=
  (((lines text).map trim).zipIdx 1).filter fun line => line.1 ≠ []

def ofChars (text : List Char) : Except Fault UidTimes :=
  match numberedLines text with
  | [] => .error (.line 1 .empty)
  | (header, number) :: rows =>
    match readHeader header with
    | .error reason => .error (.line number reason)
    | .ok frequencies =>
      match readRows frequencies.length ∅ rows with
      | .error fault => .error fault
      | .ok times => .ok { frequencies, times }

def ofText (text : String) : Except Fault UidTimes := ofChars text.toList

/-- Values separated by single spaces. -/
def joinSpaced : List Nat → List Char
  | [] => []
  | [n] => decimal n
  | n :: rest => decimal n ++ ' ' :: joinSpaced rest

def rowLine (uid : Nat) (values : Measure) : List Char :=
  (decimal uid).leftpad 8 ' ' ++ ':' :: ' ' :: joinSpaced values ++ ['\n']

/-- The text with the given word before the frequencies, and the uids set to the right. -/
def written (word : List Char) (parsed : UidTimes) : List Char :=
  word ++ ' ' :: joinSpaced parsed.frequencies ++ '\n' ::
    parsed.times.entries.flatMap fun (uid, values) => rowLine uid values

/-- The listing for people. -/
def listing (parsed : UidTimes) : List Char := written "frequencies:".toList parsed

end UidTimes

end UsageLedger
