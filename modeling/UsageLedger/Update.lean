import UsageLedger.Ledger
import UsageLedger.Meter
import UsageLedger.Report

/-!
The two ways of bringing a ledger up to date. A tick reads the known entities one by one, each
together with its isolated entities. A copy of all levels takes one whole-system reading apart by
the entities that answer for its sources.
-/

namespace UsageLedger

/-- An update under way: the ledger and the meter so far, and what has been done. -/
structure Round (μ : Type) where
  ledger : Ledger
  meter : μ
  report : Report := {}

namespace Round

variable {μ : Type}

/-- Credits the parts to the entity and reports it. -/
def commit (round : Round μ) (entity : Nat) (parts : List Contribution) : Round μ :=
  match round.ledger.commit entity parts with
  | .ok ledger => { round with ledger, report := round.report.addUpdated entity }
  | .error fault =>
    { round with report := round.report.addFailure ⟨entity, .committing, fault⟩ }

end Round

/-- What reading a family, an entity and its isolated entities, came to. -/
inductive Gathered where
  | unavailable
  | failed (phase : Phase) (fault : Fault)
  | complete (parts : List Contribution)
deriving DecidableEq, Repr

namespace Ledger

variable {μ : Type} [Meter μ]

/-- The entities a tick takes up: all known ones, isolated entities apart. -/
def targets (ledger : Ledger) : List Nat :=
  (KeySet.addAll (ledger.standing.map fun _ _ => ()) ledger.pending.keys).keys.filter
    fun entity => ¬ ledger.isolation.IsChild entity

/-- What a gain just read contributes. The meter's baseline is the level it was counted to; without
one the gain is taken as it is, and no level is accounted for. -/
def contribution (ledger : Ledger) (meter : μ) (source : Nat) (gain : Measure) : Contribution :=
  match (Gauge.baselines meter).last? source with
  | some level => ⟨source, ledger.unaccounted source level gain, some level⟩
  | none => ⟨source, gain, none⟩

/-- Reads the isolated entities in turn. Those without a reading are left out, and one with a
reading of the wrong width stops the reading. -/
def gatherChildren (ledger : Ledger) (time : Nat) : List Nat → μ →
    Except Fault (List Contribution) × μ
  | [], meter => (.ok [], meter)
  | child :: rest, meter =>
    match Meter.readGain meter child time with
    | (none, meter) => gatherChildren ledger time rest meter
    | (some gain, meter) =>
      match ledger.store.checkWidth child gain with
      | .error fault => (.error fault, meter)
      | .ok () =>
        let part := ledger.contribution meter child gain
        match gatherChildren ledger time rest meter with
        | (.error fault, meter) => (.error fault, meter)
        | (.ok parts, meter) => (.ok (part :: parts), meter)

/-- Reads an entity and then its isolated entities, unless the entity itself has no reading. -/
def gather (ledger : Ledger) (meter : μ) (entity time : Nat) : Gathered × μ :=
  match Meter.readGain meter entity time with
  | (none, meter) => (.unavailable, meter)
  | (some gain, meter) =>
    match ledger.store.checkWidth entity gain with
    | .error fault => (.failed .computingDeltas fault, meter)
    | .ok () =>
      let part := ledger.contribution meter entity gain
      match ledger.gatherChildren time (ledger.isolation.childrenOf entity) meter with
      | (.error fault, meter) => (.failed .merging fault, meter)
      | (.ok parts, meter) => (.complete (part :: parts), meter)

end Ledger

/-- Takes up one entity of a tick. -/
def Round.tickEntity {μ : Type} [Meter μ] (time : Nat) (round : Round μ) (entity : Nat) : Round μ :=
  match round.ledger.gather round.meter entity time with
  | (.unavailable, meter) => { round with meter, report := round.report.addSkipped entity }
  | (.failed phase fault, meter) =>
    { round with meter, report := round.report.addFailure ⟨entity, phase, fault⟩ }
  | (.complete parts, meter) => Round.commit { round with meter } entity parts

namespace Ledger

variable {μ : Type} [Meter μ]

/-- Brings every known entity up to date by reading it and its isolated entities. -/
def tick (ledger : Ledger) (meter : μ) (time : Nat) : Round μ :=
  ledger.targets.foldl (Round.tickEntity time) { ledger, meter }

/-- The levels of the right width. -/
def accepted (ledger : Ledger) (levels : Table Measure) : Table Measure :=
  levels.filter fun _ level => level.length = ledger.store.width

/-- The levels of a wrong width. -/
def rejected (ledger : Ledger) (levels : Table Measure) : Table Measure :=
  levels.filter fun _ level => level.length ≠ ledger.store.width

/-- What the sources of a whole-system reading contribute. -/
def contributions (ledger : Ledger) (levels : Table Measure) : List Contribution :=
  levels.entries.map fun (source, level) =>
    ⟨source, ledger.unaccounted source level (ledger.bulkBaselines.gain source level), some level⟩

/-- The entity that a source's usage goes to. Usage of an isolated entity goes nowhere as long as
its parent is neither known nor read. -/
def recipient? (ledger : Ledger) (levels : Table Measure) (source : Nat) : Option Nat :=
  match ledger.isolation.parentOf source with
  | none => some source
  | some parent => if parent ∈ ledger.standing ∨ parent ∈ levels then some parent else none

/-- The contributions of a whole-system reading, each with the entity that it goes to. -/
def assigned (ledger : Ledger) (levels : Table Measure) : List (Nat × Contribution) :=
  let accepted := ledger.accepted levels
  (ledger.contributions accepted).filterMap fun part =>
    (ledger.recipient? accepted part.source).map fun entity => (entity, part)

/-- Entities that answer for a source with a level of the wrong width; they get nothing. -/
def spoiled (ledger : Ledger) (levels : Table Measure) : KeySet :=
  KeySet.addAll ∅ ((ledger.rejected levels).keys.map ledger.isolation.ownerOf)

/-- The entities that get something assigned, ascending, without those to be left out. -/
def recipients (parts : List (Nat × Contribution)) (spoiled : KeySet) : List Nat :=
  (KeySet.addAll ∅ (parts.map Prod.fst)).keys.filter fun entity => ¬ entity ∈ spoiled

/-- The contributions assigned to the entity. -/
def shareOf (parts : List (Nat × Contribution)) (entity : Nat) : List Contribution :=
  (parts.filter fun part => part.1 = entity).map Prod.snd

/-- The ledger with the accepted levels as its baselines for the next whole-system reading. -/
def rebase (ledger : Ledger) (levels : Table Measure) (time : Nat) : Ledger :=
  { ledger with
    bulkBaselines := (ledger.accepted levels).entries.foldl
      (fun baselines (source, level) => baselines.record source level time) ledger.bulkBaselines }

/-- The failures of the sources whose levels have a wrong width. -/
def widthFailures (ledger : Ledger) (levels : Table Measure) : List Failure :=
  (ledger.rejected levels).entries.map fun (source, level) =>
    { entity := source
      phase := .computingDeltas
      fault := .width source ledger.store.width level.length }

/-- Brings the ledger up to date from one whole-system reading. All shares are settled before the
first of them is credited. -/
def copyAll (ledger : Ledger) (meter : μ) (time : Nat) : Round μ :=
  match Meter.readAll meter with
  | (none, meter) => { ledger, meter, report := { bulkUnavailable := true } }
  | (some levels, meter) =>
    let parts := ledger.assigned levels
    (recipients parts (ledger.spoiled levels)).foldl
      (fun round entity => round.commit entity (shareOf parts entity))
      { ledger := ledger.rebase levels time
        meter
        report := { failures := ledger.widthFailures levels } }

end Ledger

end UsageLedger
