import UsageLedger.Table
import UsageLedger.Measure
import UsageLedger.Fault

/-!
Accounts of usage: per entity, row and column, the sum of all deltas recorded there. As all sums of
64-bit counters here, these are taken not to overflow.
-/

namespace UsageLedger

/-- The recorded cells of one entity, by column and row. -/
structure Account where
  allTime : Table Measure := ∅
  screenOff : Table Measure := ∅
deriving DecidableEq, Repr

namespace Account

def column (account : Account) : Column → Table Measure
  | .allTime => account.allTime
  | .screenOff => account.screenOff

def cell? (account : Account) (slot : Slot) (column : Column) : Option Measure :=
  (account.column column).get? slot.row

/-- The rows with a cell in either column, in the order of reports. -/
def rows (account : Account) : List Slot :=
  Slot.all.filter fun slot => slot.row ∈ account.allTime ∨ slot.row ∈ account.screenOff

theorem mem_rows {account : Account} {slot : Slot} :
    slot ∈ account.rows ↔ ∃ column, account.cell? slot column ≠ none := by
  have listed : slot ∈ Slot.all := by rcases slot with (_ | _) | _ <;> decide
  rw [rows, List.mem_filter, decide_eq_true_iff]
  constructor
  · rintro ⟨-, whole | part⟩
    · exact ⟨.allTime, Option.isSome_iff_ne_none.mp whole⟩
    · exact ⟨.screenOff, Option.isSome_iff_ne_none.mp part⟩
  · rintro ⟨column, present⟩
    refine ⟨listed, ?_⟩
    cases column with
    | allTime => exact .inl (Option.isSome_iff_ne_none.mpr present)
    | screenOff => exact .inr (Option.isSome_iff_ne_none.mpr present)

theorem rows_ascending (account : Account) : (account.rows.map Slot.row).Pairwise (· < ·) := by
  have all : (Slot.all.map Slot.row).Pairwise (· < ·) := by decide
  exact all.sublist (List.filter_sublist.map _)

/-- Adds to the cell of a row, which it opens if need be. -/
def addCell (cells : Table Measure) (slot : Slot) (delta : Measure) : Table Measure :=
  cells.insert slot.row (((cells.get? slot.row).map fun cell => cell.add delta).getD delta)

/-- Credits usage to a row, in the screen-off column too if it was used with the screen off. -/
def credit (account : Account) (slot : Slot) (screenOff : Bool) (delta : Measure) : Account where
  allTime := addCell account.allTime slot delta
  screenOff := if screenOff then addCell account.screenOff slot delta else account.screenOff

end Account

/-- The accounts of all entities, with cells of one width. -/
structure Store where
  width : Nat
  accounts : Table Account := ∅
deriving DecidableEq, Repr

namespace Store

def checkWidth (store : Store) (entity : Nat) (measure : Measure) : Except Fault Unit :=
  if measure.length = store.width then .ok ()
  else .error (.width entity store.width measure.length)

def cell? (store : Store) (entity : Nat) (slot : Slot) (column : Column) : Option Measure :=
  (store.accounts.get? entity).bind fun account => account.cell? slot column

def entities (store : Store) : List Nat := store.accounts.keys

/-- Credits a delta of the right width and tells whether that changed anything: an all-zero delta
leaves no trace, not even an account. -/
def record (store : Store) (entity : Nat) (slot : Slot) (screenOff : Bool) (delta : Measure) :
    Except Fault (Store × Bool) :=
  match store.checkWidth entity delta with
  | .error fault => .error fault
  | .ok () =>
    if delta.IsZero then .ok (store, false)
    else
      let account := (store.accounts.get? entity).getD {}
      .ok ({ store with
        accounts := store.accounts.insert entity (account.credit slot screenOff delta) }, true)

end Store

end UsageLedger
