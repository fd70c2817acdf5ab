import UsageLedger.Table
import UsageLedger.Measure

/-!
Baselines: the level up to which each source was last read, from which its next gain is counted.
-/

namespace UsageLedger

/-- A cumulative level and the time it was read. -/
structure Sample where
  level : Measure
  time : Nat
deriving DecidableEq, Repr

/-- The last level read of each source. -/
structure Baselines where
  samples : Table Sample := ∅
deriving DecidableEq, Repr

namespace Baselines

def last? (baselines : Baselines) (source : Nat) : Option Measure :=
  (baselines.samples.get? source).map Sample.level

def lastTime? (baselines : Baselines) (source : Nat) : Option Nat :=
  (baselines.samples.get? source).map Sample.time

/-- What the source gained up to the new level; a source seen for the first time gained it all. -/
def gain (baselines : Baselines) (source : Nat) (level : Measure) : Measure :=
  level.since ((baselines.last? source).getD [])

def record (baselines : Baselines) (source : Nat) (level : Measure) (time : Nat) : Baselines :=
  ⟨baselines.samples.insert source ⟨level, time⟩⟩

theorem last?_record (baselines : Baselines) (source other : Nat) (level : Measure) (time : Nat) :
    (baselines.record source level time).last? other =
      if other = source then some level else baselines.last? other := by
  by_cases h : other = source <;> simp [last?, record, Table.get?_insert, h]

theorem last?_record_self (baselines : Baselines) (source : Nat) (level : Measure) (time : Nat) :
    (baselines.record source level time).last? source = some level := by
  rw [last?_record, if_pos rfl]

end Baselines

end UsageLedger
