import UsageLedger.Config.Decode
import UsageLedger.FileMeter
import UsageLedger.Scenario.Decode
import UsageLedger.Snapshot

/-!
The command line: replaying a scenario and listing a time-in-state file, as functions from the
arguments and the contents of files to what is printed.
-/

namespace UsageLedger

inductive Format where
  | text
  | json
deriving DecidableEq, Repr

inductive Command where
  | replay (scenario : String) (config : Option String) (format : Format) (strict : Bool)
  | parse (file : String) (format : Format)
deriving DecidableEq, Repr

/-- What the arguments ask for. -/
inductive Request where
  | version
  | run (debug : Bool) (command : Command)
deriving DecidableEq, Repr

namespace CommandLine

/-- The arguments of a command as far as they are read. -/
structure Draft where
  file : Option String := none
  config : Option String := none
  format : Option Format := none
  strict : Bool := false
  debug : Bool := false
deriving DecidableEq, Repr

def formatOfName? : String → Option Format
  | "text" => some .text
  | "json" => some .json
  | _ => none

namespace Draft

/-- A file is named once and not by the empty text. -/
def setFile? (draft : Draft) (path : String) : Option Draft :=
  if draft.file = none ∧ path ≠ "" then some { draft with file := some path } else none

def setConfig? (draft : Draft) (path : String) : Option Draft :=
  if draft.config = none ∧ path ≠ "" then some { draft with config := some path } else none

def setFormat? (draft : Draft) (name : String) : Option Draft :=
  if draft.format = none then
    (formatOfName? name).map fun format => { draft with format := some format }
  else none

def setStrict? (draft : Draft) : Option Draft :=
  if draft.strict = false then some { draft with strict := true } else none

def setDebug? (draft : Draft) : Option Draft :=
  if draft.debug = false then some { draft with debug := true } else none

end Draft

/-- The text after the given start. -/
def after? (start text : String) : Option String :=
  (Text.dropStart? start.toList text.toList).map String.ofList

/-- The argument can be taken for an option: it starts with a dash and is not the dash alone. -/
def LooksLikeOption (arg : String) : Prop := arg ≠ "-" ∧ (after? "-" arg).isSome = true

instance (arg : String) : Decidable (LooksLikeOption arg) := inferInstanceAs (Decidable (_ ∧ _))

/-- The option that an argument sets together with its value, for options that take one. -/
def attached? (draft : Draft) (replaying : Bool) (arg : String) : Option Draft :=
  match after? "--format=" arg with
  | some name => draft.setFormat? name
  | none =>
    if replaying then
      match after? "--config=" arg with
      | some path => draft.setConfig? path
      | none =>
        match after? "-C=" arg with
        | some path => draft.setConfig? path
        | none =>
          match after? "-C" arg with
          | some path => draft.setConfig? path
          | none => none
    else none

/-- Reads the arguments of a command. Options have their value attached or in the next argument,
which then must not look like an option; after a double dash there are only files. -/
def readArgs (replaying : Bool) (draft : Draft) : List String → Option Draft
  | [] => some draft
  | "--" :: files => files.foldlM Draft.setFile? draft
  | "--debug" :: rest => do readArgs replaying (← draft.setDebug?) rest
  | "--strict" :: rest =>
    if replaying then do readArgs replaying (← draft.setStrict?) rest else none
  | "--format" :: name :: rest =>
    if LooksLikeOption name then none
    else do readArgs replaying (← draft.setFormat? name) rest
  | arg :: rest =>
    if replaying = true ∧ (arg = "-C" ∨ arg = "--config") then
      match rest with
      | path :: rest =>
        if LooksLikeOption path then none
        else do readArgs replaying (← draft.setConfig? path) rest
      | [] => none
    else if LooksLikeOption arg then do readArgs replaying (← attached? draft replaying arg) rest
    else do readArgs replaying (← draft.setFile? arg) rest

def readReplay (debug : Bool) (args : List String) : Option Request := do
  let draft ← readArgs true {} args
  let scenario ← draft.file
  return .run (debug || draft.debug)
    (.replay scenario draft.config (draft.format.getD .text) draft.strict)

def readParse (debug : Bool) (args : List String) : Option Request := do
  let draft ← readArgs false {} args
  let file ← draft.file
  return .run (debug || draft.debug) (.parse file (draft.format.getD .text))

/-- What the arguments ask for, none if they cannot be understood. The debug flag may stand before
the command as well as among its arguments, once in each place. -/
def read (args : List String) (debug : Bool) : Option Request :=
  match args with
  | [] => none
  | "replay" :: rest => readReplay debug rest
  | "parse" :: rest => readParse debug rest
  | "--version" :: _ => some .version
  | "--debug" :: rest => if debug then none else read rest true
  | arg :: _ => (after? "-V" arg).map fun _ => .version

/-- What a run prints, and the code it ends with. -/
structure Outcome where
  code : Nat
  stdout : String := ""
  stderr : String := ""
deriving DecidableEq, Repr

/-- Why a run gave up, from the outermost context to the innermost cause. -/
structure Complaint where
  headline : String
  causes : List String := []
deriving DecidableEq, Repr

namespace Complaint

/-- The text with a margin before every line but the first. -/
def hang (margin : Nat) (text : String) : String :=
  String.ofList (text.toList.flatMap fun c =>
    if c = '\n' then '\n' :: List.replicate margin ' ' else [c])

/-- The lines of the causes, numbered if there are several. A cause of several lines stays aligned
with its first one. -/
def causeLines : List String → String
  | [] => ""
  | [cause] => "\nCaused by:\n    " ++ hang 4 cause ++ "\n"
  | causes =>
    "\nCaused by:\n" ++ String.join (causes.zipIdx.map fun (cause, index) =>
      "    " ++ toString index ++ ": " ++ hang 7 cause ++ "\n")

def text (complaint : Complaint) : String :=
  "Error: " ++ complaint.headline ++ "\n" ++ causeLines complaint.causes

end Complaint

def Fault.causes : Fault → List String
  | .file path reason => [Fault.message (.file path reason), reason.message]
  | fault => [fault.message]

/-- The text of a file, or the complaint that it cannot be read. -/
def content (what path : String) : FileContent → Except Complaint String
  | .text content => .ok content
  | .unreadable fault =>
    .error { headline := "Failed to read " ++ what ++ ": " ++ path, causes := [fault.message] }

/-- The detail told of a document that is not even well formed. -/
def malformed : String := "malformed document"

def loadConfig (path : String) (file : FileContent) : Except Complaint Config := do
  let text ← content "ledger config" path file
  match Config.ofText text with
  | .ok config => return config
  | .error fault =>
    throw { headline := "Invalid ledger config: " ++ path
            causes :=
              match fault with
              | .malformed => ["Failed to parse TOML ledger config", malformed]
              | .invalid reason => [Fault.message (.config reason)] }

def loadScenario (path : String) (file : FileContent) : Except Complaint Scenario := do
  let text ← content "scenario" path file
  match Scenario.ofText? text with
  | some scenario => return scenario
  | none =>
    throw { headline := "Invalid scenario: " ++ path
            causes := ["Failed to parse scenario JSON", malformed] }

def replayFiles (files : String → FileContent) (scenario : String) (config : Option String) :
    Except Complaint Replay := do
  let config ← match config with
    | some path => loadConfig path (files path)
    | none => pure {}
  let scenario ← loadScenario scenario (files scenario)
  match scenario.replay config with
  | .ok replay => return replay
  | .error fault => throw { headline := fault.context, causes := [fault.cause.message] }

/-- A line for each failure that the updates reported, with the update's number. -/
def failureLines (reports : List Report) : String :=
  String.join (reports.zipIdx.flatMap fun (report, index) =>
    report.failures.map fun failure =>
      "tick " ++ toString (index + 1) ++ ": " ++ failure.message ++ "\n")

def snapshotText (snapshot : Snapshot) : Format → String
  | .text => snapshot.tableText
  | .json => snapshot.jsonText ++ "\n"

def timesText (times : UidTimes) : Format → String
  | .text => times.listingText
  | .json => times.jsonText ++ "\n"

/-- A replay prints its snapshot even if it is strict and then complains of failures. -/
def runReplay (replay : Replay) (format : Format) (strict : Bool) : Outcome :=
  let complaint : Complaint :=
    { headline := toString replay.failureCount ++ " entity update(s) abandoned during replay" }
  let abandoned := strict = true ∧ 0 < replay.failureCount
  { code := if abandoned then 1 else 0
    stdout := snapshotText replay.ledger.snapshot format
    stderr := failureLines replay.reports ++ if abandoned then complaint.text else "" }

def runParse (file : String) (content : FileContent) (format : Format) : Outcome :=
  match FileMeter.load { path := file, content } with
  | .ok times => { code := 0, stdout := timesText times format }
  | .error fault =>
    let complaint : Complaint :=
      { headline := "Failed to load " ++ file, causes := Fault.causes fault }
    { code := 1, stderr := complaint.text }

def run (files : String → FileContent) : Command → Outcome
  | .replay scenario config format strict =>
    match replayFiles files scenario config with
    | .ok replay => runReplay replay format strict
    | .error complaint => { code := 1, stderr := complaint.text }
  | .parse file format => runParse file (files file) format

def answer (files : String → FileContent) : Request → Outcome
  | .version => { code := 0, stdout := "procstate-ledger 0.1.0\n" }
  | .run _ command => run files command

/-- The outcome of arguments that cannot be understood. -/
def misuse : Outcome :=
  { code := 2
    stderr :=
      "usage: procstate-ledger [--debug] replay SCENARIO [-C FILE] [--format text|json] [--strict]\n" ++
        "       procstate-ledger [--debug] parse FILE [--format text|json]\n" }

end CommandLine

end UsageLedger
