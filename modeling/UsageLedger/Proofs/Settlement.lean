import UsageLedger.Proofs.Gather
import UsageLedger.Proofs.Recording
import UsageLedger.Proofs.Sharing

/-!
Settlements. An update is a run of settlements: readings of distinct sources are taken, and those
that are not left out are credited all at once, each to the entity that answers for its source. A
tick settles family by family, a copy of all levels settles everything together.
-/

namespace UsageLedger

namespace Ledger

/-- What is accepted of a whole-system reading is recorded at its time. -/
theorem get?_rebase (ledger : Ledger) (levels : Table Measure) (time source : Nat) :
    (ledger.rebase levels time).bulkBaselines.samples.get? source =
      (((ledger.accepted levels).get? source).map fun level => (⟨level, time⟩ : Sample)).or
        (ledger.bulkBaselines.samples.get? source) := by
  let toSample : Measure → Sample := fun level => ⟨level, time⟩
  have samples : (ledger.rebase levels time).bulkBaselines.samples =
      (ledger.accepted levels).entries.foldl (fun table entry =>
        table.insert entry.1 (toSample entry.2)) ledger.bulkBaselines.samples :=
    (List.foldl_hom Baselines.samples fun _ _ => rfl).symm
  rw [samples]
  exact Table.get?_foldl_insert toSample (ledger.accepted levels).ascending source

/-- Right levels are the baselines of the next whole-system reading. -/
theorem last?_rebase (ledger : Ledger) {levels : Table Measure} (time : Nat) {reading : Reading}
    (mem : reading ∈ levels.readings) (width : reading.level.length = ledger.store.width) :
    (ledger.rebase levels time).bulkBaselines.last? reading.source = some reading.level := by
  have found := (Table.mem_readings.mp (mem_accepted_readings.mpr ⟨mem, width⟩)).2
  rw [Baselines.last?, get?_rebase, found]
  rfl

theorem last?_rebase_of_absent (ledger : Ledger) {levels : Table Measure} (time : Nat)
    {source : Nat} (absent : ∀ reading ∈ levels.readings, reading.source ≠ source) :
    (ledger.rebase levels time).bulkBaselines.last? source = ledger.bulkBaselines.last? source := by
  have unread : (ledger.accepted levels).get? source = none := by
    rw [Option.eq_none_iff_forall_ne_some]
    intro level found
    have read : (⟨.copyAll, source, level⟩ : Reading) ∈ (ledger.accepted levels).readings :=
      Table.mem_readings.mpr ⟨rfl, found⟩
    exact absent _ (mem_accepted_readings.mp read).1 rfl
  rw [Baselines.last?, get?_rebase, unread]
  rfl

end Ledger

/-- Commits of several entities with parts of the right width all go through. -/
theorem Round.foldl_commit {μ : Type} (share : Nat → List Contribution) {entities : List Nat}
    (round : Round μ)
    (widths : ∀ entity ∈ entities, ∀ part ∈ share entity,
      part.gain.length = round.ledger.store.width) :
    ∃ ledger, entities.foldl (fun round entity => round.commit entity (share entity)) round =
        { round with
          ledger, report := { round.report with updated := round.report.updated ++ entities } } ∧
      Ledger.Commits share round.ledger entities ledger := by
  induction entities generalizing round with
  | nil => exact ⟨round.ledger, by simp, .nil round.ledger⟩
  | cons entity entities ih =>
    obtain ⟨first, rest⟩ := List.forall_mem_cons.mp widths
    obtain ⟨middle, success⟩ := Ledger.commit_isOk entity first
    have step : round.commit entity (share entity) =
        { round with ledger := middle, report := round.report.addUpdated entity } := by
      unfold commit
      rw [success]
    -- The width is all that later commits need of the ledger.
    have width := (Ledger.committed_of_commit success).width
    obtain ⟨ledger, result, commits⟩ :=
      ih (round.commit entity (share entity)) (by rw [step]; simpa [width] using rest)
    rw [step] at result commits
    refine ⟨ledger, ?_, .cons success commits⟩
    rw [List.foldl_cons, step, result]
    simp [Report.addUpdated]

namespace Ledger

section CopyAll

variable {μ : Type} [Meter μ] {meter after : μ} {levels : Table Measure} (ledger : Ledger)
  (shown : Meter.readAll meter = (some levels, after)) (time : Nat)

include shown

/-- The shares of a whole-system reading are committed entity by entity. -/
theorem copyAll_eq : ∃ committed, ledger.copyAll meter time = ⟨committed, after, {
      updated := recipients (ledger.assigned levels) (ledger.spoiled levels)
      failures := ledger.widthFailures levels }⟩ ∧
    Commits (shareOf (ledger.assigned levels)) (ledger.rebase levels time)
      (recipients (ledger.assigned levels) (ledger.spoiled levels)) committed := by
  have lengths : ∀ entity ∈ recipients (ledger.assigned levels) (ledger.spoiled levels),
      ∀ part ∈ shareOf (ledger.assigned levels) entity, part.gain.length = ledger.store.width :=
    fun entity _ part mem => length_of_mem_share mem
  rw [copyAll, shown]
  exact Round.foldl_commit (shareOf (ledger.assigned levels))
    (Round.mk (ledger.rebase levels time) after { failures := ledger.widthFailures levels }) lengths

theorem meter_copyAll : (ledger.copyAll meter time).meter = after := by
  obtain ⟨committed, result, -⟩ := ledger.copyAll_eq shown time
  rw [result]

theorem report_copyAll : (ledger.copyAll meter time).report = {
    updated := recipients (ledger.assigned levels) (ledger.spoiled levels)
    failures := ledger.widthFailures levels } := by
  obtain ⟨committed, result, -⟩ := ledger.copyAll_eq shown time
  rw [result]

theorem commits_copyAll :
    Commits (shareOf (ledger.assigned levels)) (ledger.rebase levels time)
      (recipients (ledger.assigned levels) (ledger.spoiled levels))
      (ledger.copyAll meter time).ledger := by
  obtain ⟨committed, result, commits⟩ := ledger.copyAll_eq shown time
  rw [result]
  exact commits

/-- A whole-system reading is credited to those who answer for its sources. -/
theorem credited_copyAll :
    ledger.Credited ((ledger.creditedReadings levels).map fun reading =>
      (ledger.isolation.ownerOf reading.source, ledger.credit ledger.bulkBaselines reading))
      (ledger.copyAll meter time).ledger := by
  have shares : (recipients (ledger.assigned levels) (ledger.spoiled levels)).flatMap
      (fun entity => (shareOf (ledger.assigned levels) entity).map fun part => (entity, part)) =
      (ledger.creditedReadings levels).map fun reading =>
        (ledger.isolation.ownerOf reading.source, ledger.credit ledger.bulkBaselines reading) := by
    rw [creditedReadings, List.map_flatMap]
    apply List.flatMap_congr
    intro entity _
    rw [shareOf_assigned, List.map_map]
    apply List.map_congr_left
    intro reading shared
    rw [ownerOf_of_recipient? (mem_sharedReadings.mp shared).2]
    rfl
  have steps := (ledger.commits_copyAll shown time).credited
  rw [shares] at steps
  exact ⟨steps.width, steps.usage, steps.total, steps.accounted, steps.isolation⟩

theorem bulkBaselines_copyAll : (ledger.copyAll meter time).ledger.bulkBaselines =
    (ledger.rebase levels time).bulkBaselines :=
  (ledger.commits_copyAll shown time).bulkBaselines

end CopyAll

end Ledger

namespace Session

variable {μ : Type} [Meter μ]

/-- The session after a round with a recorder. -/
def ofRound (round : Round (Recorder μ)) : Session μ where
  ledger := round.ledger
  meter := round.meter.meter
  readings := round.meter.readings

/-- Between the two states the readings were taken and part of them settled. What is not settled
had a wrong reading in its family, or belongs to an entity without a parent to answer for it. -/
structure Settles (path : Path) (taken settled : List Reading) (before after : Session μ) :
    Prop where
  readings : after.readings = before.readings ++ taken
  via : ∀ reading ∈ taken, reading.path = path
  distinct : (taken.map Reading.source).Nodup
  among : ∀ reading ∈ settled, reading ∈ taken
  once : (settled.map Reading.source).Nodup
  widths : ∀ reading ∈ settled, reading.level.length = before.ledger.store.width
  credited : before.ledger.Credited
    (settled.map fun reading => (before.ledger.isolation.ownerOf reading.source,
      before.ledger.credit (before.baselines path) reading)) after.ledger
  last : ∀ reading ∈ taken, reading.level.length = before.ledger.store.width →
    (after.baselines path).last? reading.source = some reading.level
  kept : ∀ source, (∀ reading ∈ taken, reading.source ≠ source) →
    (after.baselines path).last? source = (before.baselines path).last? source
  other : ∀ other, other ≠ path → after.baselines other = before.baselines other
  unsettled : ∀ reading ∈ taken, reading ∉ settled →
    (∃ wrong ∈ taken, before.ledger.isolation.ownerOf wrong.source =
        before.ledger.isolation.ownerOf reading.source ∧
      wrong.level.length ≠ before.ledger.store.width) ∨
    path = .copyAll ∧ ∃ parent, before.ledger.isolation.parentOf reading.source = some parent ∧
      parent ∉ before.ledger.standing ∧ ∀ other ∈ taken, other.source = parent →
        other.level.length ≠ before.ledger.store.width

/-- The states that settlements on a path lead to. -/
inductive Settlements (path : Path) (start : Session μ) : Session μ → Prop where
  | start : Settlements path start start
  | next {middle after : Session μ} {taken settled : List Reading} :
      Settlements path start middle → middle.Settles path taken settled after →
      Settlements path start after

/-- Readings that were taken and then given up. -/
theorem settles_nothing (round : Round (Recorder μ)) {after : Recorder μ} {report : Report}
    {taken : List Reading} (took : round.meter.Took taken after)
    (spoiled : ∀ reading ∈ taken, ∃ wrong ∈ taken, round.ledger.isolation.ownerOf wrong.source =
        round.ledger.isolation.ownerOf reading.source ∧
      wrong.level.length ≠ round.ledger.store.width) :
    (ofRound round).Settles .tick taken [] (ofRound { round with meter := after, report }) where
  readings := took.readings
  via := took.path
  distinct := took.distinct
  among := by simp
  once := List.nodup_nil
  widths := by simp
  credited := .nothing round.ledger
  last reading mem _ := took.last reading mem
  kept := took.kept
  other path ne := by
    cases path with
    | tick => contradiction
    | copyAll => rfl
  unsettled reading mem _ := .inl (spoiled reading mem)

/-- A family all of whose readings were credited. -/
theorem settles_family (round : Round (Recorder μ)) {after : Recorder μ} {report : Report}
    {taken : List Reading} {entity : Nat} {ledger : Ledger}
    (took : round.meter.Took taken after)
    (owners : ∀ reading ∈ taken, round.ledger.isolation.ownerOf reading.source = entity)
    (widths : ∀ reading ∈ taken, reading.level.length = round.ledger.store.width)
    (committed : round.ledger.Committed entity
      (taken.map (round.ledger.credit (Gauge.baselines round.meter))) ledger) :
    (ofRound round).Settles .tick taken taken (ofRound ⟨ledger, after, report⟩) where
  readings := took.readings
  via := took.path
  distinct := took.distinct
  among _ mem := mem
  once := took.distinct
  widths := widths
  credited := by
    have credited := committed.credited
    rw [List.map_map] at credited
    have shares : taken.map (fun reading =>
        (round.ledger.isolation.ownerOf reading.source,
          round.ledger.credit (Gauge.baselines round.meter) reading)) =
        taken.map (fun reading =>
          (entity, round.ledger.credit (Gauge.baselines round.meter) reading)) := by
      apply List.map_congr_left
      intro reading mem
      rw [owners reading mem]
    exact shares ▸ credited
  last reading mem _ := took.last reading mem
  kept := took.kept
  other path ne := by
    cases path with
    | tick => contradiction
    | copyAll => exact committed.bulkBaselines
  unsettled _ mem rest := absurd mem rest

theorem settles_unavailable (round : Round (Recorder μ)) {after : Recorder μ} {report : Report}
    (readings : after.readings = round.meter.readings)
    (baselines : Gauge.baselines after = Gauge.baselines round.meter) :
    (ofRound round).Settles .copyAll [] [] (ofRound { round with meter := after, report }) where
  readings := readings.trans (List.append_nil _).symm
  via := by simp
  distinct := List.nodup_nil
  among := by simp
  once := List.nodup_nil
  widths := by simp
  credited := .nothing round.ledger
  last := by simp
  kept _ _ := rfl
  other path ne := by
    cases path with
    | tick => exact baselines
    | copyAll => contradiction
  unsettled := by simp

/-- A whole-system reading of which all that is not spoiled was credited. -/
theorem settles_levels (round : Round (Recorder μ)) {after : Recorder μ} {levels : Table Measure}
    {ledger : Ledger} {report : Report} (time : Nat)
    (readings : after.readings = round.meter.readings ++ levels.readings)
    (baselines : Gauge.baselines after = Gauge.baselines round.meter)
    (credited : round.ledger.Credited
      ((round.ledger.creditedReadings levels).map fun reading =>
        (round.ledger.isolation.ownerOf reading.source,
          round.ledger.credit round.ledger.bulkBaselines reading)) ledger)
    (rebased : ledger.bulkBaselines = (round.ledger.rebase levels time).bulkBaselines) :
    (ofRound round).Settles .copyAll levels.readings (round.ledger.creditedReadings levels)
      (ofRound ⟨ledger, after, report⟩) where
  readings := readings
  via _ mem := (Table.mem_readings.mp mem).1
  distinct := levels.readings_distinct
  among _ mem := (Ledger.read_of_mem_creditedReadings mem).1
  once := round.ledger.creditedReadings_distinct levels
  widths _ mem := (Ledger.read_of_mem_creditedReadings mem).2
  credited := credited
  last reading mem width := by
    rw [← round.ledger.last?_rebase time mem width, ← rebased]
    rfl
  kept source absent := by
    have kept := round.ledger.last?_rebase_of_absent time absent
    rw [← rebased] at kept
    exact kept
  other path ne := by
    cases path with
    | tick => exact baselines
    | copyAll => contradiction
  unsettled _ mem rest := by
    rcases Ledger.not_mem_creditedReadings mem rest with wrong | orphan
    · exact .inl wrong
    · exact .inr ⟨rfl, orphan⟩

variable [LawfulMeter μ]

theorem update_eq (session : Session μ) (path : Path) (time : Nat) :
    session.update path time =
      ofRound (session.ledger.update path (Recorder.mk session.meter session.readings) time) := by
  have bare := session.ledger.update_plain path (Recorder.mk session.meter session.readings) time
  unfold update
  rw [← bare]
  rfl

/-- Taking up one entity of a tick is one settlement, of all that is read of its family or of
nothing. -/
theorem settles_tickEntity (round : Round (Recorder μ)) (time : Nat) {entity : Nat}
    (apart : ¬ round.ledger.isolation.IsChild entity) :
    ∃ taken settled, (ofRound round).Settles .tick taken settled
        (ofRound (round.tickEntity time entity)) ∧
      (∀ reading ∈ taken, reading.source ∈ round.ledger.isolation.family entity) ∧
      (settled = taken ∧
          (round.tickEntity time entity).report.updated = round.report.updated ++ [entity] ∧
          round.ledger.commit entity
              (taken.map (round.ledger.credit (Gauge.baselines round.meter))) =
            .ok (round.tickEntity time entity).ledger ∨
        settled = [] ∧ (round.tickEntity time entity).report.updated = round.report.updated) := by
  obtain ⟨taken, after, took, family, outcome⟩ := round.ledger.gather_took time apart round.meter
  have owners : ∀ reading ∈ taken, round.ledger.isolation.ownerOf reading.source = entity :=
    fun reading mem => Isolation.ownerOf_of_mem_family apart (family reading mem)
  unfold Round.tickEntity
  rcases outcome with
    ⟨rfl, -, result⟩ | ⟨-, ⟨widths, -, result⟩ | ⟨wrong, phase, fault, result⟩⟩
  · rw [result]
    exact ⟨[], [], settles_nothing round took (by simp), family, .inr ⟨rfl, rfl⟩⟩
  · have lengths : ∀ part ∈ taken.map (round.ledger.credit (Gauge.baselines round.meter)),
        part.gain.length = round.ledger.store.width := by
      intro part mem
      obtain ⟨reading, read, rfl⟩ := List.mem_map.mp mem
      rw [Ledger.length_credit_gain, widths reading read]
    obtain ⟨ledger, success⟩ := Ledger.commit_isOk entity lengths
    rw [result]
    simp only [Round.commit, success]
    exact ⟨taken, taken,
      settles_family round took owners widths (Ledger.committed_of_commit success), family,
      .inl ⟨rfl, rfl, success⟩⟩
  · rw [result]
    obtain ⟨reading, mem, width⟩ := wrong
    refine ⟨taken, [], settles_nothing round took ?_, family, .inr ⟨rfl, rfl⟩⟩
    intro other mem'
    exact ⟨reading, mem, by rw [owners reading mem, owners other mem'], width⟩

theorem settlements_foldl_tickEntity {start : Session μ} {time : Nat} {entities : List Nat}
    {round : Round (Recorder μ)} (settlements : Settlements .tick start (ofRound round))
    (apart : ∀ entity ∈ entities, ¬ round.ledger.isolation.IsChild entity) :
    Settlements .tick start (ofRound (entities.foldl (Round.tickEntity time) round)) := by
  induction entities generalizing round with
  | nil => exact settlements
  | cons entity entities ih =>
    obtain ⟨first, rest⟩ := List.forall_mem_cons.mp apart
    obtain ⟨taken, settled, step, -⟩ := settles_tickEntity round time first
    have isolation : (round.tickEntity time entity).ledger.isolation = round.ledger.isolation :=
      step.credited.isolation
    exact ih (settlements.next step) (by rw [isolation]; exact rest)

/-- A tick is a run of settlements. -/
theorem update_tick_settlements (session : Session μ) (time : Nat) :
    Settlements .tick session (session.update .tick time) := by
  rw [update_eq]
  have initial : Settlements .tick session
      (ofRound ⟨session.ledger, ⟨session.meter, session.readings⟩, {}⟩) := .start
  exact settlements_foldl_tickEntity initial fun entity mem => Ledger.not_isChild_of_mem_targets mem

/-- A copy of all levels is one settlement of what the meter shows. -/
theorem update_copyAll_settles (session : Session μ) (time : Nat) :
    let shown := (Meter.readAll session.meter).1
    session.Settles .copyAll ((shown.map Table.readings).getD [])
      ((shown.map session.ledger.creditedReadings).getD []) (session.update .copyAll time) := by
  intro levels
  let recorder : Recorder μ := ⟨session.meter, session.readings⟩
  have shown : Meter.readAll recorder = (levels, (Meter.readAll recorder).2) := rfl
  have noted : (Meter.readAll recorder).2.readings =
      session.readings ++ (levels.map Table.readings).getD [] := rfl
  have baselines := LawfulMeter.baselines_readAll recorder
  rw [update_eq]
  unfold Ledger.update
  generalize levels = levels at shown noted ⊢
  cases levels with
  | none =>
    rw [Ledger.copyAll, shown]
    have readings := noted.trans (List.append_nil _)
    exact settles_unavailable ⟨session.ledger, recorder, {}⟩ readings baselines
  | some levels =>
    have credited := session.ledger.credited_copyAll shown time
    have rebased := session.ledger.bulkBaselines_copyAll shown time
    rw [← session.ledger.meter_copyAll shown time] at noted baselines
    exact settles_levels ⟨session.ledger, recorder, {}⟩ time noted baselines credited rebased

theorem update_settlements (session : Session μ) (path : Path) (time : Nat) :
    Settlements path session (session.update path time) := by
  cases path with
  | tick => exact session.update_tick_settlements time
  | copyAll =>
    exact .next .start (session.update_copyAll_settles time)

end Session

end UsageLedger
