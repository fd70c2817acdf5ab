import UsageLedger.Meter
import UsageLedger.UidTimes

/-!
A meter on a time-in-state file. A file that cannot be read or has a bad line gives no readings.
-/

namespace UsageLedger

/-- What a path leads to. -/
inductive FileContent where
  | unreadable (fault : FileFault)
  | text (content : String)
deriving DecidableEq, Repr

/-- A file with the given bytes; only UTF-8 is text. -/
def FileContent.ofBytes (bytes : ByteArray) : FileContent :=
  match String.fromUTF8? bytes with
  | some content => .text content
  | none => .unreadable .undecodable

/-- A meter that reads a time-in-state file afresh for every reading. -/
structure FileMeter where
  path : String
  content : FileContent := .unreadable .absent
  baselines : Baselines := {}
deriving DecidableEq, Repr

namespace FileMeter

def load (meter : FileMeter) : Except Fault UidTimes :=
  match meter.content with
  | .unreadable fault => .error (.file meter.path fault)
  | .text content => UidTimes.ofText content

/-- The rows of the file, none if it cannot be read or has a bad line. -/
def times? (meter : FileMeter) : Option (Table Measure) :=
  match meter.load with
  | .error _ => none
  | .ok parsed => some parsed.times

instance : Meter FileMeter where
  readLevel meter entity := (meter.times?.bind fun times => times.get? entity, meter)
  baselines := baselines
  withBaselines meter baselines := { meter with baselines }
  readAll meter := (meter.times?, meter)

end FileMeter

end UsageLedger
