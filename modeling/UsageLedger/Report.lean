import UsageLedger.Fault

/-!
Reports of updates: who was brought up to date, who had no reading, and whose share was abandoned.
-/

namespace UsageLedger

/-- The stages of an update at which an entity's share can be abandoned. -/
inductive Phase where
  | readingPending
  | computingDeltas
  | merging
  | committing
deriving DecidableEq, Repr

def Phase.name : Phase → String
  | readingPending => "reading_pending"
  | computingDeltas => "computing_deltas"
  | merging => "merging"
  | committing => "committing"

structure Failure where
  entity : Nat
  phase : Phase
  fault : Fault
deriving DecidableEq, Repr

def Failure.message (failure : Failure) : String :=
  "entity " ++ toString failure.entity ++ " failed during " ++ failure.phase.name ++ ": " ++
    failure.fault.message

/-- What an update did, entity by entity in the order they were taken up. -/
structure Report where
  updated : List Nat := []
  skipped : List Nat := []
  failures : List Failure := []
  bulkUnavailable : Bool := false
deriving DecidableEq, Repr

namespace Report

def IsClean (report : Report) : Prop := report.failures = []

instance (report : Report) : Decidable report.IsClean := inferInstanceAs (Decidable (_ = _))

def addUpdated (report : Report) (entity : Nat) : Report :=
  { report with updated := report.updated ++ [entity] }

def addSkipped (report : Report) (entity : Nat) : Report :=
  { report with skipped := report.skipped ++ [entity] }

def addFailure (report : Report) (failure : Failure) : Report :=
  { report with failures := report.failures ++ [failure] }

end Report

end UsageLedger
