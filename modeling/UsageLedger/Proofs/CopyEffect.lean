import UsageLedger.Proofs.Families
import UsageLedger.Proofs.Outcome

/-!
The exact effect of a copy of all levels. The live sources of a whole-system reading decide who is
updated and by how much: each updated entity gets the sum of what its live sources gained above both
their baseline and their accounted level. Everything else stays as it was.
-/

namespace UsageLedger

namespace Ledger

/-- A commit makes its entity known, with the state that its usage went to. -/
theorem get?_standing_commit {before after : Ledger} {entity : Nat} {parts : List Contribution}
    (done : before.commit entity parts = .ok after) (other : Nat) :
    after.standing.get? other =
      if other = entity then some (before.nextState other) else before.standing.get? other := by
  by_cases same : other = entity
  · subst same
    rw [if_pos rfl]
    have known : other ∈ after.standing := ((committed_of_commit done).known other).mpr (.inl rfl)
    obtain ⟨state, found⟩ := Table.mem_iff.mp known
    have next : after.stateOf other = before.nextState other := by
      rw [stateOf_commit done, if_pos rfl]
    rw [stateOf, found] at next
    rw [found, ← next]
    rfl
  · rw [if_neg same, get?_standing_commit_of_ne done same]

section Commits

variable {share : Nat → List Contribution} {before after : Ledger} {entities : List Nat}

theorem Commits.config (h : Commits share before entities after) :
    after.config = before.config := by
  induction h with
  | nil ledger => rfl
  | cons done _ ih =>
    obtain ⟨store, changed, -, rfl⟩ := commit_eq_ok done
    exact ih

theorem Commits.standing (h : Commits share before entities after) (other : Nat) :
    after.standing.get? other =
      if other ∈ entities then some (before.nextState other) else before.standing.get? other := by
  induction h with
  | nil ledger => rfl
  | cons done _ ih =>
    rw [ih, nextState_commit done, get?_standing_commit done]
    split
    next later => rw [if_pos (List.mem_cons_of_mem _ later)]
    next early => simp [early]

theorem Commits.pending (h : Commits share before entities after) (other : Nat) :
    after.pending.get? other = if other ∈ entities then none else before.pending.get? other := by
  induction h with
  | nil ledger => rfl
  | cons done _ ih =>
    rw [ih, (committed_of_commit done).pending, Table.get?_erase]
    split
    next later => rw [if_pos (List.mem_cons_of_mem _ later)]
    next early => simp [early]

end Commits

/-- The reading has a level of the right width for the source. -/
def Accepts (ledger : Ledger) (levels : Table Measure) (source : Nat) : Prop :=
  ∃ level ∈ levels.get? source, level.length = ledger.vectorLen

/-- The reading has a level of a wrong width for the source. -/
def Rejects (ledger : Ledger) (levels : Table Measure) (source : Nat) : Prop :=
  ∃ level ∈ levels.get? source, level.length ≠ ledger.vectorLen

/-- The source has a level of the right width, and if it is isolated, its parent is known or has
such a level as well. -/
def Live (ledger : Ledger) (levels : Table Measure) (source : Nat) : Prop :=
  ledger.Accepts levels source ∧ ∀ parent ∈ ledger.isolation.parentOf source,
    parent ∈ ledger.standing ∨ ledger.Accepts levels parent

instance (ledger : Ledger) (levels : Table Measure) (source : Nat) :
    Decidable (ledger.Accepts levels source) :=
  inferInstanceAs (Decidable (∃ level ∈ levels.get? source, level.length = ledger.vectorLen))

instance (ledger : Ledger) (levels : Table Measure) (source : Nat) :
    Decidable (ledger.Live levels source) :=
  inferInstanceAs (Decidable (_ ∧ ∀ parent ∈ ledger.isolation.parentOf source, _))

/-- The sources with a level in the reading that are live and that the entity answers for. -/
def liveOf (ledger : Ledger) (levels : Table Measure) (entity : Nat) : List Nat :=
  levels.keys.filter fun source =>
    ledger.Live levels source ∧ ledger.isolation.ownerOf source = entity

/-- What the level of the source rises above its baseline and its accounted level, at one
frequency; levels that are missing count as zero. -/
def riseAt (ledger : Ledger) (levels : Table Measure) (source i : Nat) : Nat :=
  let level := ((levels.get? source).getD []).amountAt i
  min (level - ledger.bulkBaselines.levelAt source i) (level - ledger.accountedAt source i)

section Live

variable {ledger : Ledger} {levels : Table Measure} {source entity : Nat}

theorem accepts_iff : ledger.Accepts levels source ↔ source ∈ ledger.accepted levels := by
  rw [Table.mem_iff]
  simp only [get?_accepted, Option.filter_eq_some_iff, decide_eq_true_iff]
  rfl

theorem recipient?_accepted_iff : ledger.recipient? (ledger.accepted levels) source = some entity ↔
    (∀ parent ∈ ledger.isolation.parentOf source,
      parent ∈ ledger.standing ∨ ledger.Accepts levels parent) ∧
      ledger.isolation.ownerOf source = entity := by
  unfold recipient? Isolation.ownerOf
  simp only [accepts_iff]
  cases ledger.isolation.parentOf source with
  | none => simp
  | some parent =>
    by_cases answered : parent ∈ ledger.standing ∨ parent ∈ ledger.accepted levels
    · simp [answered]
    · simp [answered]

/-- The live sources of an entity are the sources of its share. -/
theorem shared_iff : (∃ reading ∈ ledger.sharedReadings levels entity, reading.source = source) ↔
    ledger.Live levels source ∧ ledger.isolation.ownerOf source = entity := by
  rw [Live, and_assoc, ← recipient?_accepted_iff]
  constructor
  · rintro ⟨reading, shared, rfl⟩
    obtain ⟨⟨read, width⟩, goes⟩ := mem_sharedReadings.mp shared
    exact ⟨⟨reading.level, (Table.mem_readings.mp read).2, width⟩, goes⟩
  · rintro ⟨⟨level, found, width⟩, goes⟩
    have read : (⟨.copyAll, source, level⟩ : Reading) ∈ levels.readings :=
      Table.mem_readings.mpr ⟨rfl, found⟩
    exact ⟨_, mem_sharedReadings.mpr ⟨⟨read, width⟩, goes⟩, rfl⟩

theorem mem_spoiled_iff_rejects : entity ∈ ledger.spoiled levels ↔
    ∃ source, ledger.isolation.ownerOf source = entity ∧ ledger.Rejects levels source := by
  rw [mem_spoiled]
  constructor
  · rintro ⟨reading, mem, owner, width⟩
    exact ⟨reading.source, owner, reading.level, (Table.mem_readings.mp mem).2, width⟩
  · rintro ⟨source, owner, level, found, width⟩
    exact ⟨⟨.copyAll, source, level⟩, Table.mem_readings.mpr ⟨rfl, found⟩, owner, width⟩

theorem sharedReadings_sources_perm (ledger : Ledger) (levels : Table Measure) (entity : Nat) :
    ((ledger.sharedReadings levels entity).map Reading.source).Perm
      (ledger.liveOf levels entity) := by
  have distinct : ((ledger.sharedReadings levels entity).map Reading.source).Nodup :=
    (ledger.accepted levels).readings_distinct.sublist (List.filter_sublist.map _)
  apply (List.perm_ext_iff_of_nodup distinct (levels.keys_nodup.filter _)).mpr
  intro source
  rw [List.mem_map, shared_iff, List.mem_filter, decide_eq_true_iff, Table.mem_keys]
  refine (and_iff_right_of_imp ?_).symm
  rintro ⟨⟨⟨level, found, -⟩, -⟩, -⟩
  exact Table.mem_iff.mpr ⟨level, found⟩

/-- What is merged for an entity is the rise of its live sources together. -/
theorem amountAt_merged_share (ledger : Ledger) (levels : Table Measure) (entity i : Nat) :
    (ledger.merged (shareOf (ledger.assigned levels) entity)).amountAt i =
      ((ledger.liveOf levels entity).map fun source => ledger.riseAt levels source i).sum := by
  have rise : ∀ reading ∈ ledger.sharedReadings levels entity,
      (ledger.credit ledger.bulkBaselines reading).gain.amountAt i =
        ledger.riseAt levels reading.source i := by
    intro reading shared
    have found := (Table.mem_readings.mp (mem_sharedReadings.mp shared).1.1).2
    rw [amountAt_credit_gain, riseAt, found]
    simp only [Option.getD_some]
    omega
  rw [amountAt_merged, shareOf_assigned, gainAt, List.map_map,
    ← ((ledger.sharedReadings_sources_perm levels entity).map _).sum_nat, List.map_map]
  exact congrArg List.sum (List.map_congr_left rise)

end Live

/-- All that a copy of a whole-system reading does. -/
structure Copied {μ : Type} (before : Ledger) (levels : Table Measure) (time : Nat)
    (after : Round μ) : Prop where
  failure (failure : Failure) : failure ∈ after.report.failures ↔
    ∃ source, ∃ level ∈ levels.get? source, level.length ≠ before.vectorLen ∧
      failure = ⟨source, .computingDeltas, .width source before.vectorLen level.length⟩
  failed_ascending : after.report.failed.Pairwise (· < ·)
  updated (entity : Nat) : entity ∈ after.report.updated ↔
    (∃ source, before.Live levels source ∧ before.isolation.ownerOf source = entity) ∧
      ∀ source, before.isolation.ownerOf source = entity → ¬ before.Rejects levels source
  updated_ascending : after.report.updated.Pairwise (· < ·)
  skipped : after.report.skipped = []
  available : after.report.bulkUnavailable = false
  standing (entity : Nat) : after.ledger.standing.get? entity =
    if entity ∈ after.report.updated then
      some ((before.pending.get? entity).or (before.stateOf entity))
    else before.standing.get? entity
  pending (entity : Nat) : after.ledger.pending.get? entity =
    if entity ∈ after.report.updated then none else before.pending.get? entity
  lands : ∀ entity ∈ after.report.updated, ∃ delta : Measure, delta.length = before.vectorLen ∧
    (∀ i, delta.amountAt i =
      ((before.liveOf levels entity).map fun source => before.riseAt levels source i).sum) ∧
    before.Lands entity delta after.ledger
  untouched : ∀ entity, entity ∉ after.report.updated → ∀ row column,
    after.ledger.store.cell? entity row column = before.store.cell? entity row column
  /-- The live sources of updated entities are accounted for up to their levels. -/
  accounted (source : Nat) : after.ledger.accounted.get? source =
    if before.Live levels source ∧ before.isolation.ownerOf source ∈ after.report.updated then
      levels.get? source
    else before.accounted.get? source
  bulkBaselines (source : Nat) : after.ledger.bulkBaselines.samples.get? source =
    if before.Accepts levels source then
      (levels.get? source).map fun level => { level, time }
    else before.bulkBaselines.samples.get? source
  scene : before.SameScene after.ledger
  config : after.ledger.config = before.config

theorem mem_widthFailures {ledger : Ledger} {levels : Table Measure} {failure : Failure} :
    failure ∈ ledger.widthFailures levels ↔
      ∃ source, ∃ level ∈ levels.get? source, level.length ≠ ledger.vectorLen ∧
        failure = ⟨source, .computingDeltas, .width source ledger.vectorLen level.length⟩ := by
  rw [widthFailures, List.mem_map]
  constructor
  · rintro ⟨⟨source, level⟩, mem, rfl⟩
    rw [Table.mem_entries_iff, rejected, Table.get?_filter, Option.filter_eq_some_iff] at mem
    exact ⟨source, level, mem.1, of_decide_eq_true mem.2, rfl⟩
  · rintro ⟨source, level, found, width, rfl⟩
    refine ⟨(source, level), ?_, rfl⟩
    rw [Table.mem_entries_iff, rejected, Table.get?_filter, Option.filter_eq_some_iff]
    exact ⟨found, decide_eq_true width⟩

theorem widthFailures_ascending (ledger : Ledger) (levels : Table Measure) :
    ((ledger.widthFailures levels).map Failure.entity).Pairwise (· < ·) := by
  rw [widthFailures, List.map_map]
  exact (ledger.rejected levels).keys_ascending

variable {μ : Type} [Meter μ] {meter after : μ} {ledger : Ledger} {levels : Table Measure}

theorem mem_updated_copyAll (shown : Meter.readAll meter = (some levels, after)) (time : Nat)
    (entity : Nat) : entity ∈ (ledger.copyAll meter time).report.updated ↔
      (∃ source, ledger.Live levels source ∧ ledger.isolation.ownerOf source = entity) ∧
        ∀ source, ledger.isolation.ownerOf source = entity → ¬ ledger.Rejects levels source := by
  have shared : (∃ reading, reading ∈ ledger.sharedReadings levels entity) ↔
      ∃ source, ledger.Live levels source ∧ ledger.isolation.ownerOf source = entity := by
    simp only [← shared_iff]
    exact ⟨fun ⟨reading, mem⟩ => ⟨reading.source, reading, mem, rfl⟩,
      fun ⟨_, reading, mem, _⟩ => ⟨reading, mem⟩⟩
  rw [ledger.report_copyAll shown, mem_recipients_assigned, shared, mem_spoiled_iff_rejects]
  simp only [not_exists, not_and]

/-- The readings that are credited are those of the live sources of updated entities. -/
theorem credited_iff (shown : Meter.readAll meter = (some levels, after)) (time source : Nat) :
    (∃ reading ∈ ledger.creditedReadings levels, reading.source = source) ↔
      ledger.Live levels source ∧
        ledger.isolation.ownerOf source ∈ (ledger.copyAll meter time).report.updated := by
  rw [ledger.report_copyAll shown]
  constructor
  · rintro ⟨reading, mem, rfl⟩
    obtain ⟨entity, shared, clean⟩ := mem_creditedReadings.mp mem
    obtain ⟨live, owner⟩ := shared_iff.mp ⟨reading, shared, rfl⟩
    exact ⟨live, mem_recipients_assigned.mpr ⟨⟨reading, owner ▸ shared⟩, owner ▸ clean⟩⟩
  · rintro ⟨live, mem⟩
    obtain ⟨reading, shared, same⟩ := shared_iff.mpr ⟨live, rfl⟩
    exact ⟨reading, mem_creditedReadings.mpr
      ⟨_, shared, (mem_recipients_assigned.mp mem).2⟩, same⟩

theorem get?_accounted_copyAll (shown : Meter.readAll meter = (some levels, after))
    (time source : Nat) : (ledger.copyAll meter time).ledger.accounted.get? source =
      if ledger.Live levels source ∧
          ledger.isolation.ownerOf source ∈ (ledger.copyAll meter time).report.updated then
        levels.get? source
      else ledger.accounted.get? source := by
  have distinct : ((ledger.creditedReadings levels).map
      (ledger.credit ledger.bulkBaselines)).map Contribution.source |>.Nodup := by
    rw [List.map_map]
    exact ledger.creditedReadings_distinct levels
  have parts : (ledger.copyAll meter time).ledger.accounted = account ledger.accounted
      ((ledger.creditedReadings levels).map (ledger.credit ledger.bulkBaselines)) := by
    rw [(ledger.credited_copyAll shown time).accounted, List.map_map]
    rfl
  rw [parts]
  split
  next live =>
    obtain ⟨reading, mem, rfl⟩ := (credited_iff shown time source).mpr live
    have found := (Table.mem_readings.mp (read_of_mem_creditedReadings mem).1).2
    rw [found]
    exact get?_account_of_mem distinct (List.mem_map_of_mem mem) rfl
  next apart =>
    apply get?_account_of_not_mem
    rintro part mem rfl
    obtain ⟨reading, credited, rfl⟩ := List.mem_map.mp mem
    exact apart ((credited_iff shown time reading.source).mp ⟨reading, credited, rfl⟩)

theorem get?_bulkBaselines_copyAll (shown : Meter.readAll meter = (some levels, after))
    (time source : Nat) : (ledger.copyAll meter time).ledger.bulkBaselines.samples.get? source =
      if ledger.Accepts levels source then
        (levels.get? source).map fun level => { level, time }
      else ledger.bulkBaselines.samples.get? source := by
  rw [ledger.bulkBaselines_copyAll shown, get?_rebase]
  split
  next right =>
    obtain ⟨level, found, width⟩ := right
    have accepted : (ledger.accepted levels).get? source = some level := by
      rw [get?_accepted, Option.filter_eq_some_iff]
      exact ⟨found, decide_eq_true width⟩
    rw [accepted, found]
    rfl
  next wrong =>
    have absent : (ledger.accepted levels).get? source = none :=
      Table.not_mem_iff.mp fun mem => wrong (accepts_iff.mpr mem)
    rw [absent]
    rfl

theorem cell?_copyAll_of_not_updated (shown : Meter.readAll meter = (some levels, after))
    (time : Nat) {entity : Nat}
    (passed : entity ∉ (ledger.copyAll meter time).report.updated) (row : Slot) (column : Column) :
    (ledger.copyAll meter time).ledger.store.cell? entity row column =
      ledger.store.cell? entity row column := by
  rw [ledger.report_copyAll shown] at passed
  let start : Round μ :=
    ⟨ledger.rebase levels time, after, { failures := ledger.widthFailures levels }⟩
  have untouched := Round.foldl_cell?_of_not_mem
    (fun round other => round.turn_commit other (shareOf (ledger.assigned levels) other))
    start passed row column
  unfold copyAll
  rw [shown]
  exact untouched

/-- A copy of a whole-system reading does exactly this, whatever the reading shows. -/
theorem copyAll_copied (ledger : Ledger) (shown : Meter.readAll meter = (some levels, after))
    (time : Nat) : (ledger.copyAll meter time).meter = after ∧
      ledger.Copied levels time (ledger.copyAll meter time) := by
  have report := ledger.report_copyAll shown time
  have commits := ledger.commits_copyAll shown time
  refine ⟨ledger.meter_copyAll shown time, ?_⟩
  constructor
  case failure => exact fun failure => by rw [report]; exact mem_widthFailures
  case failed_ascending => rw [report]; exact ledger.widthFailures_ascending levels
  case updated => exact mem_updated_copyAll shown time
  case updated_ascending => rw [report]; exact recipients_ascending _ _
  case skipped => rw [report]
  case available => rw [report]
  case standing => rw [report]; exact commits.standing
  case pending => rw [report]; exact commits.pending
  case lands =>
    intro entity updated
    obtain ⟨delta, merged, lands⟩ := copyAll_lands updated
    rw [delta?, share?, shown] at merged
    cases Option.some.inj merged
    have length := length_merged fun part (mem : part ∈ shareOf (ledger.assigned levels) entity) =>
      length_of_mem_share mem
    exact ⟨_, length, ledger.amountAt_merged_share levels entity, lands⟩
  case untouched =>
    exact fun entity passed => cell?_copyAll_of_not_updated shown time passed
  case accounted => exact get?_accounted_copyAll shown time
  case bulkBaselines => exact get?_bulkBaselines_copyAll shown time
  case scene => exact ledger.copyAll_sameScene meter time
  case config => exact commits.config

/-- Wrong levels of a child and of an unknown parent, a known parent without a level, a parent that
is neither known nor read, and a newcomer. -/
def mixedLevels : Table Measure :=
  .ofList [(1, [5, 0]), (11, [2, 2]), (12, [9]), (21, [4, 4]), (31, [3, 0]), (32, [1, 1]),
    (4, [7]), (41, [1, 1]), (5, [2, 0])]

def mixedFamilies : List (Call ScriptedMeter) :=
  [.notice (.classify 1 .top), .notice (.isolate 1 11), .notice (.isolate 1 12),
    .notice (.isolate 2 21), .notice (.isolate 3 31), .notice (.isolate 3 32),
    .notice (.isolate 4 41), .meter { bulk := some (.ofList [(3, [5, 5]), (31, [1, 0])]) },
    .update .copyAll 10, .notice (.classify 3 .cached), .meter { bulk := some mixedLevels }]

theorem copyAll_copied_mixedFamilies :
    let session := Session.blank.run mixedFamilies
    let round := session.ledger.copyAll session.meter 20
    Meter.readAll session.meter = (some mixedLevels, session.meter) ∧
      round.report.updated = [3, 5] ∧ round.report.failed = [4, 12] ∧
      session.ledger.liveOf mixedLevels 3 = [31, 32] ∧
      round.meter = session.meter ∧ session.ledger.Copied mixedLevels 20 round := by
  intro session round
  have shown : Meter.readAll session.meter = (some mixedLevels, session.meter) := by
    decide +kernel
  exact ⟨shown, by decide +kernel, by decide +kernel, by decide +kernel,
    session.ledger.copyAll_copied shown 20⟩

end Ledger

end UsageLedger
