import UsageLedger.Proofs.Consistency
import UsageLedger.Proofs.Turns

/-!
Orderly books. All cells and all accounted levels have the ledger's width, no cell is zero, and a
screen-off cell is a part of its all-time cell. Every call keeps it so, whatever the meter shows,
and no call touches the cells of an isolated entity.
-/

namespace UsageLedger

namespace Measure

theorem join_some (cell : Option Measure) (delta : Measure) :
    ∃ sum, join cell (some delta) = some sum ∧
      sum.length = max (cell.getD []).length delta.length ∧
      ∀ i, sum.amountAt i = (cell.getD []).amountAt i + delta.amountAt i := by
  cases cell with
  | none => exact ⟨delta, rfl, by simp, by simp⟩
  | some former => exact ⟨former.add delta, rfl, length_add former delta, former.amountAt_add delta⟩

theorem isZero_of_amountAt {measure : Measure} (h : ∀ i, measure.amountAt i = 0) :
    measure.IsZero := by
  intro x mem
  obtain ⟨i, bound, rfl⟩ := List.mem_iff_getElem.mp mem
  rw [← amountAt_eq_getElem bound, h i]

end Measure

namespace Account

theorem mem_column_credit {account : Account} {slot : Slot} {screenOff : Bool} {delta : Measure}
    {column : Column} {row : Nat}
    (mem : row ∈ (account.credit slot screenOff delta).column column) :
    row = slot.row ∨ row ∈ account.column column := by
  cases column with
  | allTime => exact Table.mem_insert.mp mem
  | screenOff =>
    cases screenOff with
    | true => exact Table.mem_insert.mp mem
    | false => exact .inr mem

end Account

namespace Store

/-- Every account has a cell, every cell stands in the row of a slot, has the store's width and is
not zero, and a screen-off cell is a part of the all-time cell in its row. -/
structure Orderly (store : Store) : Prop where
  opened : ∀ entity ∈ store.entities, ∃ row, store.cell? entity row .allTime ≠ none
  rows : ∀ entity account, store.accounts.get? entity = some account →
    ∀ column, ∀ row ∈ account.column column, ∃ slot : Slot, slot.row = row
  cells : ∀ entity row column cell, store.cell? entity row column = some cell →
    cell.length = store.width ∧ ¬ cell.IsZero
  covered : ∀ entity row part, store.cell? entity row .screenOff = some part →
    ∃ whole, store.cell? entity row .allTime = some whole ∧ whole.Covers part

theorem orderly_empty (width : Nat) : Orderly { width } where
  opened entity mem := absurd mem List.not_mem_nil
  rows entity account found := by simp at found
  cells entity row column cell found := by simp [cell?] at found
  covered entity row part found := by simp [cell?] at found

section Record

variable {store after : Store} {entity : Nat} {slot : Slot} {screenOff changed : Bool}
  {delta : Measure}

/-- The cells after recording: a cell is as before, or the delta was added to it. -/
theorem cell?_record_cases
    (recorded : store.record entity slot screenOff delta = .ok (after, changed)) (other : Nat)
    (row : Slot) (column : Column) :
    after.cell? other row column = store.cell? other row column ∨
      ¬ delta.IsZero ∧ (other = entity ∧ row = slot ∧ (column = .allTime ∨ screenOff = true)) ∧
        after.cell? other row column =
          Measure.join (store.cell? other row column) (some delta) := by
  rw [cell?_record recorded]
  split
  next here => exact .inr ⟨here.2.2.2, ⟨here.1, here.2.1, here.2.2.1⟩, rfl⟩
  next => exact .inl rfl

theorem Orderly.opened_record (h : store.Orderly)
    (recorded : store.record entity slot screenOff delta = .ok (after, changed)) :
    ∀ other ∈ after.entities, ∃ row, after.cell? other row .allTime ≠ none := by
  intro other mem
  have cells := fun row => cell?_record_cases recorded other row .allTime
  have joined := fun row => Measure.join_some (store.cell? other row .allTime) delta
  by_cases stored : other ∈ store.entities
  · obtain ⟨row, present⟩ := h.opened other stored
    refine ⟨row, ?_⟩
    rcases cells row with same | ⟨-, -, added⟩
    · rwa [same]
    · obtain ⟨sum, eq, -⟩ := joined row
      simp [added, eq]
  · obtain ⟨-, -, ⟨-, same⟩ | ⟨nonzero, credited⟩⟩ := record_cases recorded
    · exact absurd (by rwa [entities, same] at mem) stored
    · have own : other = entity := by
        rw [entities, credited, Table.mem_keys, Table.mem_insert] at mem
        exact mem.resolve_right fun old => stored ((Table.mem_keys _ _).mpr old)
      obtain ⟨sum, eq, -⟩ := joined slot
      refine ⟨slot, ?_⟩
      rw [cell?_record recorded, if_pos ⟨own, rfl, .inl rfl, nonzero⟩, eq]
      exact Option.some_ne_none sum

theorem Orderly.rows_record (h : store.Orderly)
    (recorded : store.record entity slot screenOff delta = .ok (after, changed)) :
    ∀ other account, after.accounts.get? other = some account →
      ∀ column, ∀ row ∈ account.column column, ∃ slot : Slot, slot.row = row := by
  intro other account found column row mem
  obtain ⟨-, -, ⟨-, same⟩ | ⟨-, credited⟩⟩ := record_cases recorded
  · exact h.rows other account (same ▸ found) column row mem
  · rw [credited, Table.get?_insert] at found
    split at found
    · cases found
      rcases Account.mem_column_credit mem with rfl | former
      · exact ⟨slot, rfl⟩
      · cases stored : store.accounts.get? entity with
        | some account =>
          rw [stored] at former
          exact h.rows entity account stored column row former
        | none =>
          rw [stored] at former
          cases column <;> simp [Account.column, Table.mem_iff] at former
    · exact h.rows other account found column row mem

theorem Orderly.cells_record (h : store.Orderly)
    (recorded : store.record entity slot screenOff delta = .ok (after, changed)) :
    ∀ other row column cell, after.cell? other row column = some cell →
      cell.length = after.width ∧ ¬ cell.IsZero := by
  intro other row column cell found
  obtain ⟨width, length, -⟩ := record_cases recorded
  rcases cell?_record_cases recorded other row column with same | ⟨nonzero, -, added⟩
  · rw [width]
    exact h.cells other row column cell (same ▸ found)
  · obtain ⟨sum, joined, sum_length, amounts⟩ :=
      Measure.join_some (store.cell? other row column) delta
    cases Option.some.inj (found.symm.trans (added.trans joined))
    constructor
    · rw [sum_length, width, length]
      cases former : store.cell? other row column with
      | none => simp
      | some cell' => simp [(h.cells other row column cell' former).1]
    · intro zero
      apply nonzero
      apply Measure.isZero_of_amountAt
      intro i
      have nothing := zero.amountAt i
      rw [amounts] at nothing
      omega

theorem Orderly.covered_record (h : store.Orderly)
    (recorded : store.record entity slot screenOff delta = .ok (after, changed)) :
    ∀ other row part, after.cell? other row .screenOff = some part →
      ∃ whole, after.cell? other row .allTime = some whole ∧ whole.Covers part := by
  intro other row part found
  have before : ∀ i, ((store.cell? other row .screenOff).getD []).amountAt i ≤
      ((store.cell? other row .allTime).getD []).amountAt i := by
    intro i
    cases former : store.cell? other row .screenOff with
    | none => simp
    | some part' =>
      obtain ⟨whole, present, covers⟩ := h.covered other row part' former
      simpa [present] using covers i
  rcases cell?_record_cases recorded other row .screenOff with same | ⟨nonzero, here, added⟩
  · obtain ⟨whole, present, covers⟩ := h.covered other row part (same ▸ found)
    rcases cell?_record_cases recorded other row .allTime with same' | ⟨-, -, added'⟩
    · exact ⟨whole, same'.trans present, covers⟩
    · obtain ⟨sum, joined, -, amounts⟩ := Measure.join_some (store.cell? other row .allTime) delta
      refine ⟨sum, added'.trans joined, fun i => ?_⟩
      have below := covers i
      rw [amounts, present, Option.getD_some]
      omega
  · have added' : after.cell? other row .allTime =
        Measure.join (store.cell? other row .allTime) (some delta) := by
      rw [cell?_record recorded, if_pos ⟨here.1, here.2.1, .inl rfl, nonzero⟩]
    obtain ⟨small, joined, -, smalls⟩ := Measure.join_some (store.cell? other row .screenOff) delta
    obtain ⟨large, joined', -, larges⟩ := Measure.join_some (store.cell? other row .allTime) delta
    cases Option.some.inj (found.symm.trans (added.trans joined))
    refine ⟨large, added'.trans joined', fun i => ?_⟩
    have below := before i
    rw [smalls, larges]
    omega

theorem Orderly.record (h : store.Orderly)
    (recorded : store.record entity slot screenOff delta = .ok (after, changed)) :
    after.Orderly :=
  ⟨h.opened_record recorded, h.rows_record recorded, h.cells_record recorded,
    h.covered_record recorded⟩

end Record

end Store

namespace Ledger

theorem get?_account_cases {table : Table Measure} {parts : List Contribution} {source : Nat}
    {level : Measure} (found : (account table parts).get? source = some level) :
    table.get? source = some level ∨ ∃ part ∈ parts, part.level = some level := by
  induction parts generalizing table with
  | nil => exact .inl found
  | cons part parts ih =>
    have widen : (∃ other ∈ parts, other.level = some level) →
        ∃ other ∈ part :: parts, other.level = some level :=
      fun ⟨other, mem, known⟩ => ⟨other, List.mem_cons_of_mem part mem, known⟩
    cases top : part.level with
    | none =>
      rw [account_cons_of_none top] at found
      exact (ih found).imp_right widen
    | some shown =>
      rw [account_cons_of_some top] at found
      rcases ih found with former | later
      · rw [Table.get?_insert] at former
        split at former
        · exact .inr ⟨part, List.mem_cons_self, top.trans former⟩
        · exact .inl former
      · exact .inr (widen later)

/-- The ledger is consistent, and its books are in order at the given width. -/
structure Orderly (width : Nat) (ledger : Ledger) : Prop where
  consistent : ledger.Consistent
  vectorLen : ledger.vectorLen = width
  store : ledger.store.Orderly
  accounted : ∀ source level, ledger.accounted.get? source = some level → level.length = width

theorem orderly_new {config : Config} {ledger : Ledger} (new : Ledger.new config = .ok ledger) :
    ledger.Orderly config.vectorLen := by
  have consistent := consistent_new new
  cases eq_of_new new
  exact ⟨consistent, rfl, Store.orderly_empty _, by simp⟩

theorem Orderly.notice {width : Nat} {ledger : Ledger} (h : ledger.Orderly width)
    (notice : Notice) : (ledger.notice notice).Orderly width := by
  have books := ledger.notice_sameBooks notice
  have sameWidth := congrArg Store.width books.store
  refine ⟨h.consistent.notice notice, sameWidth.trans h.vectorLen, ?_, ?_⟩
  · rw [books.store]
    exact h.store
  · rw [books.accounted]
    exact h.accounted

theorem Orderly.commit {width : Nat} {before after : Ledger} {entity : Nat}
    {parts : List Contribution} (h : before.Orderly width)
    (own : ¬ before.isolation.IsChild entity)
    (levels : ∀ part ∈ parts, ∀ level, part.level = some level →
      level.length = before.store.width)
    (commit : before.commit entity parts = .ok after) : after.Orderly width := by
  have consistent := (committed_of_commit commit).consistent h.consistent own
  have scene := sameScene_commit commit
  obtain ⟨store, changed, recorded, rfl⟩ := commit_eq_ok commit
  refine ⟨consistent, scene.width.trans h.vectorLen, h.store.record recorded, ?_⟩
  intro source level found
  rcases get?_account_cases found with former | ⟨part, mem, known⟩
  · exact h.accounted source level former
  · exact (levels part mem level known).trans h.vectorLen

/-- The ledgers that an update passes through. Each commit is for an entity that is not isolated,
and what it accounts for has the right width. -/
inductive Booked (start : Ledger) : Ledger → Prop where
  | start (baselines : Baselines) : Booked start (start.withBulk baselines)
  | commit {before after : Ledger} {entity : Nat} {parts : List Contribution} :
      Booked start before → ¬ before.isolation.IsChild entity →
      (∀ part ∈ parts, ∀ level, part.level = some level → level.length = before.store.width) →
      before.commit entity parts = .ok after → Booked start after

theorem Booked.sameScene {start after : Ledger} (booked : start.Booked after) :
    start.SameScene after := by
  induction booked with
  | start baselines => exact ⟨rfl, rfl, rfl, rfl, fun _ => rfl⟩
  | commit _ _ _ commit ih => exact ih.trans (sameScene_commit commit)

theorem Booked.orderly {width : Nat} {start after : Ledger} (booked : start.Booked after)
    (h : start.Orderly width) : after.Orderly width := by
  induction booked with
  | start baselines =>
    exact ⟨⟨h.consistent.pending, h.consistent.known, h.consistent.flat⟩, h.vectorLen, h.store,
      h.accounted⟩
  | commit _ own levels commit ih => exact ih.commit own levels commit

theorem Booked.cell?_of_isChild {start after : Ledger} (booked : start.Booked after) {child : Nat}
    (isolated : start.isolation.IsChild child) (row : Slot) (column : Column) :
    after.store.cell? child row column = start.store.cell? child row column := by
  induction booked with
  | start baselines => rfl
  | @commit before after entity parts booked own _ commit ih =>
    have ne : child ≠ entity := by
      rintro rfl
      exact own (booked.sameScene.isolation ▸ isolated)
    rw [cell?_commit commit, if_neg fun here => ne here.1, ih]

variable {μ : Type} [Meter μ]

/-- Usage goes to no isolated entity, because parents are none. -/
theorem recipient?_own {ledger : Ledger} {levels : Table Measure} {source entity : Nat}
    (flat : ledger.isolation.Flat) (goes : ledger.recipient? levels source = some entity) :
    ¬ ledger.isolation.IsChild entity := by
  unfold recipient? at goes
  split at goes
  next none =>
    cases goes
    exact (ledger.isolation.parentOf_eq_none_iff source).mp none
  next child =>
    split at goes
    · cases goes
      exact flat source entity child
    · contradiction

theorem credit_levels {ledger : Ledger} {baselines : Baselines} {readings : List Reading}
    {width : Nat} (widths : ∀ reading ∈ readings, reading.level.length = width) :
    ∀ part ∈ readings.map (ledger.credit baselines), ∀ level, part.level = some level →
      level.length = width := by
  intro part mem level known
  obtain ⟨reading, read, rfl⟩ := List.mem_map.mp mem
  cases known
  exact widths reading read

theorem copyAll_booked {ledger : Ledger} (flat : ledger.isolation.Flat) (meter : μ) (time : Nat) :
    ledger.Booked (ledger.copyAll meter time).ledger := by
  unfold copyAll
  generalize Meter.readAll meter = reading
  obtain ⟨levels, meter⟩ := reading
  cases levels with
  | none => exact .start ledger.bulkBaselines
  | some levels =>
    let parts := ledger.assigned levels
    apply List.foldlRecOn (motive := fun round : Round μ => ledger.Booked round.ledger)
    · exact .start _
    · intro round booked entity mem
      obtain ⟨⟨reading, shared⟩, -⟩ := mem_recipients_assigned.mp mem
      have goes := (mem_sharedReadings.mp shared).2
      have scene := booked.sameScene
      obtain ⟨outcome, turn, settles⟩ := round.turn_commit entity (shareOf parts entity)
      cases turn with
      | passed same _ => rw [same]; exact booked
      | @settled committed done _ =>
        apply booked.commit _ _ done
        · rw [scene.isolation]
          exact recipient?_own flat goes
        · rw [settles committed rfl, scene.width, shareOf_assigned]
          exact credit_levels fun reading mem => (mem_sharedReadings.mp mem).1.2

variable [LawfulMeter μ]

theorem tick_booked (ledger : Ledger) (recorder : Recorder μ) (time : Nat) :
    ledger.Booked (ledger.tick recorder time).ledger := by
  apply List.foldlRecOn (motive := fun round : Round (Recorder μ) => ledger.Booked round.ledger)
  · exact .start ledger.bulkBaselines
  · intro round booked entity mem
    have apart : ¬ round.ledger.isolation.IsChild entity := by
      rw [booked.sameScene.isolation]
      exact not_isChild_of_mem_targets mem
    obtain ⟨taken, after, -, -, gathered⟩ := round.ledger.gather_took time apart round.meter
    obtain ⟨outcome, turn, settles⟩ := round.turn_tickEntity time entity
    cases turn with
    | passed same _ => rw [same]; exact booked
    | @settled committed done _ =>
      have complete := settles committed rfl
      apply booked.commit apart _ done
      rcases gathered with
        ⟨-, -, result⟩ | ⟨-, ⟨widths, -, result⟩ | ⟨-, phase, fault, result⟩⟩
      · simp [result] at complete
      · rw [result] at complete
        cases complete
        exact credit_levels widths
      · simp [result] at complete

end Ledger

namespace Session

variable {μ : Type} [Meter μ] [LawfulMeter μ]

theorem update_booked {session : Session μ} (flat : session.ledger.isolation.Flat) (path : Path)
    (time : Nat) : session.ledger.Booked (session.update path time).ledger := by
  rw [update_eq]
  cases path with
  | tick => exact session.ledger.tick_booked _ time
  | copyAll => exact Ledger.copyAll_booked flat _ time

theorem orderly_step {width : Nat} {session : Session μ} (h : session.ledger.Orderly width)
    (call : Call μ) : (session.step call).ledger.Orderly width := by
  cases call with
  | notice notice => exact h.notice notice
  | meter meter => exact h
  | update path time => exact (update_booked h.consistent.flat path time).orderly h

theorem cell?_step_of_isChild {session : Session μ} (flat : session.ledger.isolation.Flat)
    (call : Call μ) {child : Nat} (isolated : session.ledger.isolation.IsChild child) (row : Slot)
    (column : Column) :
    (session.step call).ledger.store.cell? child row column =
      session.ledger.store.cell? child row column := by
  cases call with
  | notice notice =>
    have books := session.ledger.notice_sameBooks notice
    simp only [step, books.store]
  | meter meter => rfl
  | update path time => exact (update_booked flat path time).cell?_of_isChild isolated row column

/-- In every state of a run the ledger is consistent and its books are in order, isolated entities
are neither known nor pending, and the next call leaves their cells alone. -/
theorem orderly_run {config : Config} {start : Session μ}
    (new : Ledger.new config = .ok start.ledger) (calls : List (Call μ)) :
    let session := start.run calls
    session.ledger.Orderly config.vectorLen ∧
      ∀ child, session.ledger.isolation.IsChild child →
        child ∉ session.ledger.standing ∧ child ∉ session.ledger.pending ∧
          ∀ call row column, (session.step call).ledger.store.cell? child row column =
            session.ledger.store.cell? child row column := by
  intro session
  have orderly : session.ledger.Orderly config.vectorLen := by
    apply List.foldlRecOn (motive := fun session : Session μ =>
      session.ledger.Orderly config.vectorLen)
    · exact Ledger.orderly_new new
    · exact fun session orderly call _ => orderly_step orderly call
  refine ⟨orderly, fun child isolated => ?_⟩
  have unknown : child ∉ session.ledger.standing := fun known =>
    orderly.consistent.known child known isolated
  exact ⟨unknown, fun pending => unknown (orderly.consistent.pending child pending),
    fun call row column => cell?_step_of_isChild orderly.consistent.flat call isolated row column⟩

/-- An entity with cells of its own is isolated, and readings have wrong widths and fall. -/
def spoiledFamily : List (Call ScriptedMeter) :=
  [.notice (.timeBase true true 0), .notice (.classify 1 .top), .notice (.classify 2 .cached),
    .meter { levels := .ofList [(1, [5, 1]), (2, [3, 0])] },
    .update .tick 10,
    .notice (.isolate 1 2),
    .meter {
      levels := .ofList [(1, [6, 2]), (2, [7])]
      bulk := some (.ofList [(1, [2, 2]), (2, [4, 4]), (9, [0, 7])]) },
    .update .tick 20,
    .update .copyAll 30]

theorem orderly_run_spoiledFamily :
    let session := blank.run spoiledFamily
    session.ledger.isolation.IsChild 2 ∧
      session.ledger.store.cell? 2 (.known .cached) .screenOff = some [3, 0] ∧
      session.ledger.Orderly 2 ∧
      ∀ call, (session.step call).ledger.store.cell? 2 (.known .cached) .screenOff =
        session.ledger.store.cell? 2 (.known .cached) .screenOff := by
  have new : Ledger.new { vectorLen := 2 } = .ok blank.ledger := rfl
  have isolated : (blank.run spoiledFamily).ledger.isolation.IsChild 2 := by decide +kernel
  have kept : (blank.run spoiledFamily).ledger.store.cell? 2 (.known .cached) .screenOff =
      some [3, 0] := by decide +kernel
  obtain ⟨orderly, children⟩ := orderly_run new spoiledFamily
  exact ⟨isolated, kept, orderly, fun call => (children 2 isolated).2.2 call _ _⟩

end Session

end UsageLedger
