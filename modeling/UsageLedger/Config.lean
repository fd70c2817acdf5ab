import UsageLedger.Fault

/-!
The settings of a ledger, and the first reason to refuse them.
-/

namespace UsageLedger

/-- The settings of a ledger: how many frequencies a reading has, and the importance bands. -/
structure Config where
  vectorLen : Nat := 5
  bands : Bands := {}
deriving DecidableEq, Repr

namespace Config

/-- The first reason to refuse the settings; the vector length is looked at before the bands. -/
def fault? (config : Config) : Option ConfigFault :=
  if config.vectorLen = 0 then some .emptyVector
  else config.bands.firstUnordered.map fun (lower, upper) =>
    .unordered lower upper (config.bands.bound lower) (config.bands.bound upper)

def validate (config : Config) : Except Fault Unit :=
  match config.fault? with
  | some reason => .error (.config reason)
  | none => .ok ()

def Valid (config : Config) : Prop := 0 < config.vectorLen ∧ config.bands.Increasing

instance (config : Config) : Decidable config.Valid := inferInstanceAs (Decidable (_ ∧ _))

theorem fault?_eq_none_iff (config : Config) : config.fault? = none ↔ config.Valid := by
  rw [fault?, Valid, ← Bands.firstUnordered_eq_none_iff]
  split
  · simp_all
  · simp_all
    omega

end Config

end UsageLedger
