/-!
The time base, which decides whether usage counts as screen-off usage and whether holds count.
-/

namespace UsageLedger

/-- Whether the device runs on battery and has its screen off, and since when. -/
structure TimeBase where
  onBattery : Bool := false
  screenOff : Bool := false
  lastTransition : Nat := 0
deriving DecidableEq, Repr

namespace TimeBase

/-- Usage now also counts as screen-off usage. -/
def screenOffActive (base : TimeBase) : Bool := base.onBattery && base.screenOff

/-- The base after a transition at `time`, which takes effect even if it lies in the past. -/
def transition (onBattery screenOff : Bool) (time : Nat) : TimeBase :=
  { onBattery, screenOff, lastTransition := time }

/-- A transition at `time` would not go backwards. -/
def Follows (time : Nat) (base : TimeBase) : Prop := base.lastTransition ≤ time

instance (time : Nat) (base : TimeBase) : Decidable (Follows time base) :=
  inferInstanceAs (Decidable (_ ≤ _))

end TimeBase

end UsageLedger
