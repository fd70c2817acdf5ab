import UsageLedger.Bands

/-!
What can go wrong in the library, by cause, and the one place that words it.
-/

namespace UsageLedger

/-- Why an entity cannot be isolated under another. -/
inductive IsolationFault where
  | ownChild
  | parentIsolated
  | hasChildren
deriving DecidableEq, Repr

inductive ConfigFault where
  | emptyVector
  | unordered (lower upper : Band) (lowerBound upperBound : Int)
deriving DecidableEq, Repr

/-- Why a line of a time-in-state file is refused. -/
inductive LineFault where
  | empty
  | header
  | badNumber (token : String)
  | noFrequencies
  | noColon
  | badUid (token : String)
  | width (uid values frequencies : Nat)
  | duplicate (uid : Nat)
deriving DecidableEq, Repr

/-- Why the text of a file cannot be had. -/
inductive FileFault where
  | absent
  | directory
  | notDirectory
  | denied
  | nameTooLong
  | undecodable
deriving DecidableEq, Repr

inductive Fault where
  | width (entity expected actual : Nat)
  | isolation (parent child : Nat) (reason : IsolationFault)
  | config (reason : ConfigFault)
  | line (number : Nat) (reason : LineFault)
  | file (path : String) (reason : FileFault)
deriving DecidableEq, Repr

namespace IsolationFault

def message : IsolationFault → String
  | ownChild => "entity cannot be its own child"
  | parentIsolated => "parent is itself isolated"
  | hasChildren => "child has isolated entities of its own"

end IsolationFault

namespace ConfigFault

def message : ConfigFault → String
  | emptyVector => "vector_len must be greater than 0"
  | unordered lower upper lowerBound upperBound =>
    "importance band " ++ upper.name ++ " (" ++ toString upperBound ++ ") must be greater than " ++
      lower.name ++ " (" ++ toString lowerBound ++ ")"

end ConfigFault

namespace LineFault

def message : LineFault → String
  | empty => "empty input"
  | header => "header must start with 'uid:'"
  | badNumber token => "invalid number '" ++ token ++ "'"
  | noFrequencies => "header lists no frequencies"
  | noColon => "expected '<uid>: <times...>'"
  | badUid token => "invalid uid '" ++ token ++ "'"
  | width uid values frequencies =>
    "uid " ++ toString uid ++ " has " ++ toString values ++ " values, header has " ++
      toString frequencies ++ " frequencies"
  | duplicate uid => "duplicate uid " ++ toString uid

end LineFault

namespace FileFault

def message : FileFault → String
  | absent => "No such file or directory (os error 2)"
  | directory => "Is a directory (os error 21)"
  | notDirectory => "Not a directory (os error 20)"
  | denied => "Permission denied (os error 13)"
  | nameTooLong => "File name too long (os error 36)"
  | undecodable => "stream did not contain valid UTF-8"

end FileFault

namespace Fault

def message : Fault → String
  | width entity expected actual =>
    "vector length mismatch for entity " ++ toString entity ++ ": expected " ++
      toString expected ++ ", got " ++ toString actual
  | isolation parent child reason =>
    "cannot isolate entity " ++ toString child ++ " under " ++ toString parent ++ ": " ++
      reason.message
  | config reason => "invalid configuration: " ++ reason.message
  | line number reason => "parse error at line " ++ toString number ++ ": " ++ reason.message
  | file path reason => "io error at " ++ path ++ ": " ++ reason.message

end Fault

end UsageLedger
