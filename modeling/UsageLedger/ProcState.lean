/-!
The process states usage is credited to, from most to least important, and the rows they take in
an entity's account. Usage of an entity that was never classified has a row of its own.
-/

namespace UsageLedger

inductive ProcState where
  | top
  | foregroundService
  | foreground
  | background
  | topSleeping
  | heavyWeight
  | cached
deriving DecidableEq, Repr

namespace ProcState

def all : List ProcState :=
  [top, foregroundService, foreground, background, topSleeping, heavyWeight, cached]

/-- The position in the order of importance, the most important state first. -/
def rank : ProcState → Nat
  | top => 0
  | foregroundService => 1
  | foreground => 2
  | background => 3
  | topSleeping => 4
  | heavyWeight => 5
  | cached => 6

def name : ProcState → String
  | top => "top"
  | foregroundService => "foreground_service"
  | foreground => "foreground"
  | background => "background"
  | topSleeping => "top_sleeping"
  | heavyWeight => "heavy_weight"
  | cached => "cached"

def ofName? (name : String) : Option ProcState := all.find? fun state => state.name == name

theorem ofName?_name (state : ProcState) : ofName? state.name = some state := by
  cases state <;> decide

end ProcState

/-- A row of an account: a process state, or the row for usage without one. -/
inductive Slot where
  | known (state : ProcState)
  | unknown
deriving DecidableEq, Repr

namespace Slot

/-- Rows in the order of reports; the row without a state comes last. -/
def all : List Slot := ProcState.all.map known ++ [unknown]

def row : Slot → Nat
  | known state => state.rank
  | unknown => 7

def ofRow? (row : Nat) : Option Slot := all[row]?

def name : Slot → String
  | known state => state.name
  | unknown => "unknown"

def ofName? (name : String) : Option Slot := all.find? fun slot => slot.name == name

def ofState? : Option ProcState → Slot
  | some state => known state
  | none => unknown

theorem ofRow?_row (slot : Slot) : ofRow? slot.row = some slot := by
  cases slot with
  | known state => cases state <;> rfl
  | unknown => rfl

theorem row_injective {a b : Slot} (h : a.row = b.row) : a = b := by
  have := ofRow?_row a
  rw [h, ofRow?_row b] at this
  exact (Option.some.inj this).symm

end Slot

/-- The two columns of an account: all usage, and the part used on battery with the screen off. -/
inductive Column where
  | allTime
  | screenOff
deriving DecidableEq, Repr

end UsageLedger
