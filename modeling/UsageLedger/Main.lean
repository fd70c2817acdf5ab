import UsageLedger.CommandLine

/-!
The program: reads the files that the arguments name and prints the outcome.
-/

namespace UsageLedger

/-- The system's number for an error, which may come negated. -/
def errorNumber (code : UInt32) : Nat := min code.toNat ((1 <<< 32) - code.toNat)

/-- Errors of one kind differ in the system's number for them. -/
def faultOfError : IO.Error → FileFault
  | .inappropriateType _ code _ => if errorNumber code = 21 then .directory else .notDirectory
  | .invalidArgument _ code _ => if errorNumber code = 36 then .nameTooLong else .absent
  | .permissionDenied _ _ _ => .denied
  | _ => .absent

def readPath (path : String) : IO FileContent := do
  try
    return .ofBytes (← IO.FS.readBinFile path)
  catch fault => return .unreadable (faultOfError fault)

def pathsOf : Command → List String
  | .replay scenario config _ _ => scenario :: config.toList
  | .parse file _ => [file]

def performRequest : Request → IO CommandLine.Outcome
  | .version => return CommandLine.answer (fun _ => .unreadable .absent) .version
  | .run debug command => do
    let contents ← (pathsOf command).mapM fun path => do return (path, ← readPath path)
    let files path := (contents.lookup path).getD (.unreadable .absent)
    return CommandLine.answer files (.run debug command)

end UsageLedger

open UsageLedger in
def main (args : List String) : IO UInt32 := do
  let outcome ← match CommandLine.read args false with
    | some request => performRequest request
    | none => pure CommandLine.misuse
  IO.print outcome.stdout
  IO.eprint outcome.stderr
  return outcome.code.toUInt32
