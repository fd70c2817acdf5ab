import UsageLedger.Config
import UsageLedger.TimeBase
import UsageLedger.HoldTimer
import UsageLedger.Isolation
import UsageLedger.Store
import UsageLedger.Baselines

/-!
The ledger: per entity, CPU time by process state. Notifications say what state an entity is in,
updates credit the usage since the last one. Each source has an accounted level, below which usage
is never credited again, so the two ways of updating can be mixed.
-/

namespace UsageLedger

structure Ledger where
  config : Config
  store : Store
  /-- The known entities, with the state their usage was last credited to. -/
  standing : Table (Option ProcState) := ∅
  /-- States notified since the last update. -/
  pending : Table ProcState := ∅
  timeBase : TimeBase := {}
  isolation : Isolation := {}
  /-- What whole-system readings last showed. -/
  bulkBaselines : Baselines := {}
  /-- The level up to which each source has been credited. -/
  accounted : Table Measure := ∅
  timers : HoldTimers := ∅
deriving DecidableEq, Repr

/-- A source's part in an update: its gain, and the level that gain leads to, if it is known. -/
structure Contribution where
  source : Nat
  gain : Measure
  level : Option Measure
deriving DecidableEq, Repr

namespace Ledger

/-- An empty ledger, unless the settings are at fault. -/
def new (config : Config) : Except Fault Ledger :=
  match config.validate with
  | .error fault => .error fault
  | .ok () => .ok { config, store := { width := config.vectorLen } }

/-- The entity changed its state. Isolated entities have no state of their own. -/
def classify (ledger : Ledger) (entity : Nat) (state : ProcState) : Ledger :=
  if ledger.isolation.IsChild entity then ledger
  else { ledger with
    standing := ledger.standing.insertIfNew entity none
    pending := ledger.pending.insert entity state }

/-- The state that an importance code stands for under the ledger's bands. -/
def stateOfImportance (ledger : Ledger) (importance : Int) : Option ProcState :=
  ledger.config.bands.classify importance

/-- The entity's process got an importance code. Codes of processes that are gone change nothing. -/
def setImportance (ledger : Ledger) (entity : Nat) (importance : Int) : Ledger :=
  match ledger.stateOfImportance importance with
  | some state => ledger.classify entity state
  | none => ledger

def setTimeBase (ledger : Ledger) (onBattery screenOff : Bool) (time : Nat) : Ledger :=
  { ledger with
    timeBase := .transition onBattery screenOff time
    timers := ledger.timers.setCounting onBattery time }

/-- Puts an entity under a parent; from then on it is no entity of its own. -/
def isolate (ledger : Ledger) (parent child : Nat) : Except Fault Ledger :=
  match ledger.isolation.add parent child with
  | .error fault => .error fault
  | .ok (isolation, _) => .ok { ledger with
      isolation
      standing := ledger.standing.erase child
      pending := ledger.pending.erase child }

/-- Makes an isolated entity one of its own again and returns its former parent. -/
def unisolate (ledger : Ledger) (child : Nat) : Ledger × Option Nat :=
  let (isolation, parent) := ledger.isolation.remove child
  ({ ledger with isolation }, parent)

/-- Opens a hold for the entity that answers for the caller. -/
def acquireWakelock (ledger : Ledger) (entity time : Nat) : Ledger :=
  { ledger with
    timers :=
      ledger.timers.acquire (ledger.isolation.ownerOf entity) time ledger.timeBase.onBattery }

/-- Closes a hold of the entity that answers for the caller; none if it has no open hold. -/
def releaseWakelock? (ledger : Ledger) (entity time : Nat) : Option Ledger :=
  (ledger.timers.release? (ledger.isolation.ownerOf entity) time).map fun timers =>
    { ledger with timers }

def vectorLen (ledger : Ledger) : Nat := ledger.store.width

def stateOf (ledger : Ledger) (entity : Nat) : Option ProcState :=
  (ledger.standing.get? entity).join

def wakelockTime (ledger : Ledger) (entity now : Nat) : Nat := ledger.timers.totalAt entity now

/-- The row that usage of the entity is credited to now. -/
def targetSlot (ledger : Ledger) (entity : Nat) : Slot :=
  .ofState? ((ledger.pending.get? entity).or (ledger.stateOf entity))

/-- The part of a gain up to the given level that lies above the accounted level. -/
def unaccounted (ledger : Ledger) (source : Nat) (level gain : Measure) : Measure :=
  match ledger.accounted.get? source with
  | some accounted => gain.cap (level.since accounted)
  | none => gain

/-- Moves the accounted levels up to what the parts contributed. -/
def account (accounted : Table Measure) (parts : List Contribution) : Table Measure :=
  parts.foldl (fun table part =>
    match part.level with
    | some level => table.insert part.source level
    | none => table) accounted

/-- The usage of all parts together. -/
def merged (ledger : Ledger) (parts : List Contribution) : Measure :=
  .total ledger.store.width (parts.map Contribution.gain)

/-- Credits the parts to the entity's target row, which settles its pending state. -/
def commit (ledger : Ledger) (entity : Nat) (parts : List Contribution) : Except Fault Ledger :=
  let slot := ledger.targetSlot entity
  match ledger.store.record entity slot ledger.timeBase.screenOffActive (ledger.merged parts) with
  | .error fault => .error fault
  | .ok (store, _) => .ok { ledger with
      store
      standing :=
        match slot with
        | .known state => ledger.standing.insert entity (some state)
        | .unknown => ledger.standing.insertIfNew entity none
      pending := ledger.pending.erase entity
      accounted := account ledger.accounted parts }

end Ledger

end UsageLedger
