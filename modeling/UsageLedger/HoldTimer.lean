import UsageLedger.Table

/-!
Wakelock timers. Holds of one entity nest, and a held timer runs only while the device is on
battery.
-/

namespace UsageLedger

/-- How many holds are open, when the running stretch began, and the length of all past ones. -/
structure HoldTimer where
  nesting : Nat := 0
  runningSince : Option Nat := none
  total : Nat := 0
deriving DecidableEq, Repr

namespace HoldTimer

def IsHeld (timer : HoldTimer) : Prop := 0 < timer.nesting

instance (timer : HoldTimer) : Decidable timer.IsHeld := inferInstanceAs (Decidable (_ < _))

/-- Ends the running stretch, if there is one. A stretch that would end before it began is empty. -/
def pause (timer : HoldTimer) (time : Nat) : HoldTimer :=
  match timer.runningSince with
  | some start => { timer with runningSince := none, total := timer.total + (time - start) }
  | none => timer

/-- Begins a stretch if the timer is held and none is running. -/
def resume (timer : HoldTimer) (time : Nat) : HoldTimer :=
  if timer.IsHeld ∧ timer.runningSince = none then { timer with runningSince := some time }
  else timer

/-- Opens a hold. The first one begins a stretch if time counts at all. -/
def acquire (timer : HoldTimer) (time : Nat) (counting : Bool) : HoldTimer where
  nesting := timer.nesting + 1
  runningSince :=
    if timer.nesting = 0 ∧ counting = true then some time else timer.runningSince
  total := timer.total

/-- Closes a hold, and the running stretch with the last one; none if no hold is open. -/
def release? (timer : HoldTimer) (time : Nat) : Option HoldTimer :=
  match timer.nesting with
  | 0 => none
  | 1 => some ({ timer with nesting := 0 }.pause time)
  | nesting + 2 => some { timer with nesting := nesting + 1 }

/-- The time held up to `now`, the running stretch included. -/
def totalAt (timer : HoldTimer) (now : Nat) : Nat :=
  timer.total + (timer.runningSince.map fun start => now - start).getD 0

end HoldTimer

/-- The timers of all entities that ever held a wakelock. -/
abbrev HoldTimers := Table HoldTimer

namespace HoldTimers

def acquire (timers : HoldTimers) (entity time : Nat) (counting : Bool) : HoldTimers :=
  timers.insert entity (((timers.get? entity).getD {}).acquire time counting)

/-- Closes a hold of the entity; none if it has no open hold. -/
def release? (timers : HoldTimers) (entity time : Nat) : Option HoldTimers := do
  let timer ← timers.get? entity
  let released ← timer.release? time
  return timers.insert entity released

/-- Makes time count, or stop counting, for every timer from `time` on. -/
def setCounting (timers : HoldTimers) (counting : Bool) (time : Nat) : HoldTimers :=
  timers.map fun _ timer => if counting then timer.resume time else timer.pause time

def totalAt (timers : HoldTimers) (entity now : Nat) : Nat :=
  ((timers.get? entity).map fun timer => timer.totalAt now).getD 0

end HoldTimers

end UsageLedger
