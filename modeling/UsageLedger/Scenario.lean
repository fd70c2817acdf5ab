import UsageLedger.Update

/-!
Scenarios: lists of notifications, readings and updates that drive a ledger from a scripted meter.
-/

namespace UsageLedger

inductive Event where
  | classify (entity : Nat) (state : ProcState) (time : Nat)
  | importance (entity : Nat) (code : Int) (time : Nat)
  | timeBase (onBattery screenOff : Bool) (time : Nat)
  | isolate (parent child : Nat)
  | acquire (entity time : Nat)
  | release (entity time : Nat)
  | sample (entity : Nat) (level : Measure)
  | unavailable (entity : Nat)
  | bulkSample (entity : Nat) (level : Measure)
  | tick (time : Nat)
  | copyAll (time : Nat)
deriving DecidableEq, Repr

/-- A list of events, and a vector length that goes before the one of the settings. -/
structure Scenario where
  vectorLen : Option Nat
  events : List Event
deriving DecidableEq, Repr

/-- A replay under way: the ledger, its meter, and the reports of the updates so far. -/
structure Replay where
  ledger : Ledger
  meter : ScriptedMeter := {}
  reports : List Report := []
deriving DecidableEq, Repr

inductive ReplayFault where
  | settings (fault : Fault)
  /-- The event at the position, counted from one, was refused. -/
  | isolation (position : Nat) (fault : Fault)
deriving DecidableEq, Repr

namespace ReplayFault

def context : ReplayFault → String
  | settings _ => "Invalid ledger configuration"
  | isolation position _ => "Invalid isolated event #" ++ toString position

def cause : ReplayFault → Fault
  | settings fault => fault
  | isolation _ fault => fault

end ReplayFault

namespace Replay

/-- The replay after an update. -/
def afterRound (replay : Replay) (round : Round ScriptedMeter) : Replay where
  ledger := round.ledger
  meter := round.meter
  reports := replay.reports ++ [round.report]

/-- Takes in one event. Only an isolation can be refused; a release without a hold is ignored. -/
def step (replay : Replay) : Event → Except Fault Replay
  | .classify entity state _ => .ok { replay with ledger := replay.ledger.classify entity state }
  | .importance entity code _ =>
    .ok { replay with ledger := replay.ledger.setImportance entity code }
  | .timeBase onBattery screenOff time =>
    .ok { replay with ledger := replay.ledger.setTimeBase onBattery screenOff time }
  | .isolate parent child =>
    match replay.ledger.isolate parent child with
    | .error fault => .error fault
    | .ok ledger => .ok { replay with ledger }
  | .acquire entity time => .ok { replay with ledger := replay.ledger.acquireWakelock entity time }
  | .release entity time =>
    .ok { replay with ledger := (replay.ledger.releaseWakelock? entity time).getD replay.ledger }
  | .sample entity level => .ok { replay with meter := replay.meter.setLevel entity level }
  | .unavailable entity => .ok { replay with meter := replay.meter.setUnavailable entity }
  | .bulkSample entity level => .ok { replay with meter := replay.meter.setBulkLevel entity level }
  | .tick time => .ok (replay.afterRound (replay.ledger.tick replay.meter time))
  | .copyAll time => .ok (replay.afterRound (replay.ledger.copyAll replay.meter time))

/-- Takes in the events in turn, the first of which stands at the given position. -/
def steps (position : Nat) (replay : Replay) : List Event → Except ReplayFault Replay
  | [] => .ok replay
  | event :: events =>
    match replay.step event with
    | .error fault => .error (.isolation position fault)
    | .ok replay => replay.steps (position + 1) events

/-- How many failures the updates reported. -/
def failureCount (replay : Replay) : Nat :=
  (replay.reports.flatMap Report.failures).length

end Replay

namespace Scenario

/-- The settings with the scenario's vector length, if it gives one. -/
def settings (scenario : Scenario) (config : Config) : Config :=
  { config with vectorLen := scenario.vectorLen.getD config.vectorLen }

def replay (scenario : Scenario) (config : Config) : Except ReplayFault Replay :=
  match Ledger.new (scenario.settings config) with
  | .error fault => .error (.settings fault)
  | .ok ledger => Replay.steps 1 { ledger } scenario.events

end Scenario

end UsageLedger
