import UsageLedger.FileMeter

/-!
Recorders: meters that keep a record of what is read from another meter. Also the laws of a meter
that counts its gains from baselines of its own.
-/

namespace UsageLedger

/-- The two ways of bringing a ledger up to date. -/
inductive Path where
  | tick
  | copyAll
deriving DecidableEq, Repr

/-- A level that was read of a source. -/
structure Reading where
  path : Path
  source : Nat
  level : Measure
deriving DecidableEq, Repr

/-- The levels of a whole-system reading, one by one. -/
def Table.readings (levels : Table Measure) : List Reading :=
  levels.entries.map fun (source, level) => ⟨.copyAll, source, level⟩

/-- Gains are counted from the meter's baselines, and nothing but the counting moves these. -/
class LawfulMeter (μ : Type) [Meter μ] : Prop where
  readGain_eq (meter : μ) (entity time : Nat) :
    Meter.readGain meter entity time = Gauge.readGain meter entity time
  baselines_withBaselines (meter : μ) (baselines : Baselines) :
    Gauge.baselines (Gauge.withBaselines meter baselines) = baselines
  baselines_readLevel (meter : μ) (entity : Nat) :
    Gauge.baselines (Gauge.readLevel meter entity).2 = Gauge.baselines meter
  baselines_readAll (meter : μ) : Gauge.baselines (Meter.readAll meter).2 = Gauge.baselines meter

instance : LawfulMeter ScriptedMeter where
  readGain_eq _ _ _ := rfl
  baselines_withBaselines _ _ := rfl
  baselines_readLevel _ _ := rfl
  baselines_readAll _ := rfl

instance : LawfulMeter FileMeter where
  readGain_eq _ _ _ := rfl
  baselines_withBaselines _ _ := rfl
  baselines_readLevel _ _ := rfl
  baselines_readAll _ := rfl

/-- Whatever is done to the meter, it shows these levels, one by one as well as all at once. -/
def Meter.Offers {μ : Type} [Meter μ] (meter : μ) (levels : Table Measure) : Prop :=
  ∃ P : μ → Prop, P meter ∧ ∀ meter, P meter →
    (∀ entity, (Gauge.readLevel meter entity).1 = levels.get? entity ∧
      P (Gauge.readLevel meter entity).2) ∧
    (Meter.readAll meter).1 = some levels ∧
    ∀ baselines, P (Gauge.withBaselines meter baselines)

namespace Meter.Offers

variable {μ : Type} [Meter μ] {meter : μ} {levels : Table Measure}

theorem readLevel (h : Offers meter levels) (entity : Nat) :
    (Gauge.readLevel meter entity).1 = levels.get? entity ∧
      Offers (Gauge.readLevel meter entity).2 levels := by
  obtain ⟨P, holds, kept⟩ := h
  obtain ⟨read, _, _⟩ := kept meter holds
  exact ⟨(read entity).1, P, (read entity).2, kept⟩

theorem readAll (h : Offers meter levels) : (Meter.readAll meter).1 = some levels := by
  obtain ⟨P, holds, kept⟩ := h
  exact (kept meter holds).2.1

theorem withBaselines (h : Offers meter levels) (baselines : Baselines) :
    Offers (Gauge.withBaselines meter baselines) levels := by
  obtain ⟨P, holds, kept⟩ := h
  exact ⟨P, (kept meter holds).2.2 baselines, kept⟩

end Meter.Offers

theorem ScriptedMeter.offers (levels : Table Measure) (baselines : Baselines) :
    Meter.Offers { levels, bulk := some levels, baselines : ScriptedMeter } levels := by
  refine ⟨fun meter => meter.levels = levels ∧ meter.bulk = some levels, ⟨rfl, rfl⟩, ?_⟩
  rintro meter ⟨rfl, bulk⟩
  exact ⟨fun _ => ⟨rfl, rfl, bulk⟩, bulk, fun _ => ⟨rfl, bulk⟩⟩

/-- A meter together with all readings taken from it, the latest last. -/
structure Recorder (μ : Type) where
  meter : μ
  readings : List Reading := []
deriving DecidableEq, Repr

namespace Recorder

variable {μ : Type} [Meter μ]

instance : Meter (Recorder μ) where
  readLevel recorder entity :=
    let reading := Gauge.readLevel recorder.meter entity
    (reading.1, {
      meter := reading.2
      readings := recorder.readings ++ (reading.1.map (Reading.mk .tick entity)).toList })
  baselines recorder := Gauge.baselines recorder.meter
  withBaselines recorder baselines :=
    { recorder with meter := Gauge.withBaselines recorder.meter baselines }
  readAll recorder :=
    let reading := Meter.readAll recorder.meter
    (reading.1, {
      meter := reading.2
      readings := recorder.readings ++ (reading.1.map Table.readings).getD [] })

instance [LawfulMeter μ] : LawfulMeter (Recorder μ) where
  readGain_eq _ _ _ := rfl
  baselines_withBaselines recorder := LawfulMeter.baselines_withBaselines recorder.meter
  baselines_readLevel recorder := LawfulMeter.baselines_readLevel recorder.meter
  baselines_readAll recorder := LawfulMeter.baselines_readAll recorder.meter

end Recorder

end UsageLedger
