import UsageLedger.Baselines

/-!
Sources of usage readings. A reading may change the meter, and any reading may be unavailable.
-/

namespace UsageLedger

/-- A meter that reads cumulative levels and keeps the baselines that gains are counted from. -/
class Gauge (μ : Type) where
  readLevel : μ → Nat → Option Measure × μ
  baselines : μ → Baselines
  withBaselines : μ → Baselines → μ

/-- Reads a level, returns the gain since the baseline, and makes the level the new baseline.
Without a reading the baseline stays. -/
def Gauge.readGain {μ : Type} [Gauge μ] (meter : μ) (entity time : Nat) : Option Measure × μ :=
  match readLevel meter entity with
  | (none, meter) => (none, meter)
  | (some level, meter) =>
    let before := baselines meter
    (some (before.gain entity level), withBaselines meter (before.record entity level time))

/-- What a ledger needs of a meter: gains per entity, and all levels at once where it can. -/
class Meter (μ : Type) extends Gauge μ where
  readGain : μ → Nat → Nat → Option Measure × μ := Gauge.readGain
  readAll : μ → Option (Table Measure) × μ := fun meter => (none, meter)

/-- A meter whose readings are set by hand. -/
structure ScriptedMeter where
  levels : Table Measure := ∅
  bulk : Option (Table Measure) := none
  baselines : Baselines := {}
deriving DecidableEq, Repr

namespace ScriptedMeter

def setLevel (meter : ScriptedMeter) (entity : Nat) (level : Measure) : ScriptedMeter :=
  { meter with levels := meter.levels.insert entity level }

def setUnavailable (meter : ScriptedMeter) (entity : Nat) : ScriptedMeter :=
  { meter with levels := meter.levels.erase entity }

def setBulkLevel (meter : ScriptedMeter) (entity : Nat) (level : Measure) : ScriptedMeter :=
  { meter with bulk := some ((meter.bulk.getD ∅).insert entity level) }

def clearBulk (meter : ScriptedMeter) : ScriptedMeter := { meter with bulk := none }

instance : Meter ScriptedMeter where
  readLevel meter entity := (meter.levels.get? entity, meter)
  baselines := baselines
  withBaselines meter baselines := { meter with baselines }
  readAll meter := (meter.bulk, meter)

end ScriptedMeter

end UsageLedger
