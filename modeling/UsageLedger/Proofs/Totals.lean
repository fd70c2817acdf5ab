import UsageLedger.Store
import UsageLedger.Proofs.Amount

/-!
Totals over tables and accounts. Recording a delta adds it once to the usage of its entity and to
no other, whatever row it goes to.
-/

namespace UsageLedger

theorem findEntry_eq_none {α : Type} {key : Nat} {entries : List (Nat × α)}
    (below : ∀ entry ∈ entries, key < entry.1) : findEntry key entries = none := by
  induction entries with
  | nil => rfl
  | cons first rest ih =>
    have lt := below first List.mem_cons_self
    rw [findEntry, if_neg (by omega)]
    exact ih fun entry mem => below entry (List.mem_cons_of_mem _ mem)

theorem sum_insertEntry {α : Type} (f : α → Nat) (key : Nat) (value : α)
    {entries : List (Nat × α)} (ascending : entries.Pairwise (fun a b => a.1 < b.1)) :
    ((insertEntry key value entries).map fun entry => f entry.2).sum +
        ((findEntry key entries).map f).getD 0 =
      (entries.map fun entry => f entry.2).sum + f value := by
  induction entries with
  | nil => simp [insertEntry, findEntry]
  | cons first rest ih =>
    obtain ⟨below, tail⟩ := List.pairwise_cons.mp ascending
    rw [insertEntry]
    split
    next lt =>
      have absent : findEntry key (first :: rest) = none := by
        apply findEntry_eq_none
        intro entry mem
        rcases List.mem_cons.mp mem with rfl | mem
        · exact lt
        · exact Nat.lt_trans lt (below entry mem)
      simp only [absent, List.map_cons, List.sum_cons, Option.map_none, Option.getD_none]
      omega
    next =>
      split
      next eq =>
        simp only [findEntry, if_pos eq, List.map_cons, List.sum_cons, Option.map_some,
          Option.getD_some]
        omega
      next ne =>
        have := ih tail
        simp only [findEntry, if_neg ne, List.map_cons, List.sum_cons]
        omega

namespace Table

variable {α : Type}

/-- Inserting entries in turn binds each of their keys to what is made of its value. -/
theorem get?_foldl_insert {β : Type} (f : α → β) {entries : List (Nat × α)} {table : Table β}
    (ascending : entries.Pairwise fun a b => a.1 < b.1) (key : Nat) :
    (entries.foldl (fun table entry => table.insert entry.1 (f entry.2)) table).get? key =
      ((findEntry key entries).map f).or (table.get? key) := by
  induction entries generalizing table with
  | nil => simp [findEntry]
  | cons entry entries ih =>
    obtain ⟨below, ascending⟩ := List.pairwise_cons.mp ascending
    rw [List.foldl_cons, ih ascending, findEntry, get?_insert]
    by_cases same : key = entry.1
    · have absent : findEntry key entries = none := findEntry_eq_none (same ▸ below)
      rw [absent, if_pos same, if_pos same]
      rfl
    · rw [if_neg same, if_neg same]

/-- A table is made again from its own entries. -/
theorem ofList_entries (table : Table α) : ofList table.entries = table := by
  apply ext_get?
  intro key
  have found : (ofList table.entries).get? key =
      ((findEntry key table.entries).map id).or ((∅ : Table α).get? key) :=
    get?_foldl_insert id table.ascending key
  rw [found, Option.map_id_fun, id_eq, get?_empty, Option.or_none, get?]

/-- The sum of a quantity over all values of the table. -/
def sum (f : α → Nat) (t : Table α) : Nat := (t.entries.map fun entry => f entry.2).sum

/-- A new value adds to the sum what it counts beyond the value it replaces. -/
theorem sum_insert (f : α → Nat) (t : Table α) (key : Nat) (value : α) :
    (t.insert key value).sum f + ((t.get? key).map f).getD 0 = t.sum f + f value :=
  sum_insertEntry f key value t.ascending

theorem sum_keys (f : α → Nat) (t : Table α) :
    (t.keys.map fun key => ((t.get? key).map f).getD 0).sum = t.sum f := by
  rw [keys, sum, List.map_map]
  congr 1
  apply List.map_congr_left
  intro entry mem
  have found := (mem_entries_iff t entry.1 entry.2).mp mem
  simp [found]

end Table

namespace Account

/-- All usage of an account at one frequency: its all-time cells, row by row. -/
def usageAt (account : Account) (i : Nat) : Nat :=
  (Slot.all.map fun slot => ((account.cell? slot .allTime).getD []).amountAt i).sum

/-- A credit changes the row's all-time cell, and its screen-off cell if it counts as such. -/
theorem cell?_credit (account : Account) (slot other : Slot) (screenOff : Bool) (delta : Measure)
    (column : Column) :
    (account.credit slot screenOff delta).cell? other column =
      if other = slot ∧ (column = .allTime ∨ screenOff = true) then
        Measure.join (account.cell? other column) (some delta)
      else account.cell? other column := by
  have added (cells : Table Measure) : (addCell cells slot delta).get? other.row =
      if other = slot then Measure.join (cells.get? other.row) (some delta)
      else cells.get? other.row := by
    rw [addCell, Table.get?_insert]
    by_cases same : other = slot
    · subst same
      cases cells.get? other.row <;> simp [Measure.join]
    · have rows : other.row ≠ slot.row := fun eq => same (Slot.row_injective eq)
      rw [if_neg rows, if_neg same]
  cases column with
  | allTime =>
    simp only [cell?, Account.column, credit, added]
    simp
  | screenOff =>
    cases screenOff with
    | true =>
      simp only [cell?, Account.column, credit, added, if_true]
      simp
    | false => simp [cell?, Account.column, credit]

theorem amountAt_cell?_credit (account : Account) (slot other : Slot) (screenOff : Bool)
    (delta : Measure) (i : Nat) :
    (((account.credit slot screenOff delta).cell? other .allTime).getD []).amountAt i =
      ((account.cell? other .allTime).getD []).amountAt i +
        if other = slot then delta.amountAt i else 0 := by
  rw [cell?_credit]
  by_cases same : other = slot
  · cases account.cell? other .allTime <;> simp [same, Measure.join]
  · simp [same]

theorem usageAt_credit (account : Account) (slot : Slot) (screenOff : Bool) (delta : Measure)
    (i : Nat) :
    (account.credit slot screenOff delta).usageAt i = account.usageAt i + delta.amountAt i := by
  simp only [usageAt, amountAt_cell?_credit, Slot.all, ProcState.all, List.map_cons, List.map_nil,
    List.cons_append, List.nil_append, List.sum_cons, List.sum_nil]
  cases slot with
  | unknown => simp; omega
  | known state => cases state <;> simp <;> omega

@[simp] theorem usageAt_empty (i : Nat) : ({} : Account).usageAt i = 0 := rfl

end Account

namespace Store

/-- All usage of an entity at one frequency: its all-time cells, row by row. -/
def usageAt (store : Store) (entity i : Nat) : Nat :=
  (Slot.all.map fun slot => ((store.cell? entity slot .allTime).getD []).amountAt i).sum

/-- The usage of all entities at one frequency. -/
def totalAt (store : Store) (i : Nat) : Nat :=
  (store.entities.map fun entity => store.usageAt entity i).sum

theorem usageAt_eq (store : Store) (entity i : Nat) :
    store.usageAt entity i =
      ((store.accounts.get? entity).map fun account => account.usageAt i).getD 0 := by
  rw [usageAt]
  unfold cell?
  cases store.accounts.get? entity <;> rfl

theorem totalAt_eq (store : Store) (i : Nat) :
    store.totalAt i = store.accounts.sum fun account => account.usageAt i := by
  rw [← Table.sum_keys, totalAt]
  simp only [usageAt_eq]
  rfl

section Record

variable {store after : Store} {entity : Nat} {slot : Slot} {screenOff changed : Bool}
  {delta : Measure}

theorem checkWidth_eq_ok_iff : store.checkWidth entity delta = .ok () ↔
    delta.length = store.width := by
  unfold checkWidth
  split
  next right => simp [right]
  next wrong => simp [wrong]

theorem checkWidth_eq_error_iff {fault : Fault} : store.checkWidth entity delta = .error fault ↔
    delta.length ≠ store.width ∧ fault = .width entity store.width delta.length := by
  unfold checkWidth
  split
  next right => simp [right]
  next wrong => simp [wrong, eq_comm]

theorem record_isOk (entity : Nat) (slot : Slot) (screenOff : Bool)
    (width : delta.length = store.width) :
    ∃ after changed, store.record entity slot screenOff delta = .ok (after, changed) := by
  unfold record checkWidth
  rw [if_pos width]
  split
  · contradiction
  · split <;> exact ⟨_, _, rfl⟩

/-- A recorded delta is all zero and leaves the accounts alone, or it changes one account. -/
theorem record_cases (h : store.record entity slot screenOff delta = .ok (after, changed)) :
    after.width = store.width ∧ delta.length = store.width ∧
      (delta.IsZero ∧ after.accounts = store.accounts ∨
        ¬ delta.IsZero ∧ after.accounts = store.accounts.insert entity
          (((store.accounts.get? entity).getD {}).credit slot screenOff delta)) := by
  unfold record checkWidth at h
  split at h
  · contradiction
  next width =>
    split at width
    next length =>
      split at h
      next zero =>
        cases h
        exact ⟨rfl, length, .inl ⟨zero, rfl⟩⟩
      next nonzero =>
        cases h
        exact ⟨rfl, length, .inr ⟨nonzero, rfl⟩⟩
    next => contradiction

/-- Recording changes no more than the row's all-time cell and, with the screen off, its screen-off
cell. -/
theorem cell?_record (h : store.record entity slot screenOff delta = .ok (after, changed))
    (other : Nat) (row : Slot) (column : Column) :
    after.cell? other row column =
      if other = entity ∧ row = slot ∧ (column = .allTime ∨ screenOff = true) ∧ ¬ delta.IsZero then
        Measure.join (store.cell? other row column) (some delta)
      else store.cell? other row column := by
  obtain ⟨-, -, ⟨zero, same⟩ | ⟨nonzero, credited⟩⟩ := record_cases h
  · simp [cell?, same, zero]
  · rw [cell?, credited, Table.get?_insert]
    by_cases eq : other = entity
    · subst eq
      have empty : ({} : Account).cell? row column = none := by cases column <;> rfl
      rw [if_pos rfl, Option.bind_some, Account.cell?_credit]
      cases found : store.accounts.get? other <;> simp [cell?, found, nonzero, empty]
    · simp [cell?, eq]

theorem usageAt_record (h : store.record entity slot screenOff delta = .ok (after, changed))
    (other i : Nat) :
    after.usageAt other i =
      store.usageAt other i + if other = entity then delta.amountAt i else 0 := by
  obtain ⟨-, -, ⟨zero, same⟩ | ⟨-, credited⟩⟩ := record_cases h
  · simp [usageAt_eq, same, zero.amountAt]
  · rw [usageAt_eq, usageAt_eq, credited, Table.get?_insert]
    by_cases eq : other = entity
    · subst eq
      cases store.accounts.get? other <;> simp [Account.usageAt_credit]
    · simp [eq]

theorem totalAt_record (h : store.record entity slot screenOff delta = .ok (after, changed))
    (i : Nat) : after.totalAt i = store.totalAt i + delta.amountAt i := by
  obtain ⟨-, -, ⟨zero, same⟩ | ⟨-, credited⟩⟩ := record_cases h
  · simp [totalAt_eq, same, zero.amountAt]
  · have sum := Table.sum_insert (fun account : Account => account.usageAt i) store.accounts entity
      (((store.accounts.get? entity).getD {}).credit slot screenOff delta)
    rw [totalAt_eq, totalAt_eq, credited]
    rw [Account.usageAt_credit] at sum
    cases found : store.accounts.get? entity <;> simp [found] at sum ⊢ <;> omega

end Record

end Store

end UsageLedger
