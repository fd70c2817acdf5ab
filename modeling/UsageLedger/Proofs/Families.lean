import UsageLedger.Proofs.FamilyFrame
import UsageLedger.Proofs.Landing
import UsageLedger.Proofs.SharedSource

namespace UsageLedger

namespace ScriptedMeter

/-- The two meters show the same of each of the sources, and count its gain from the same level. -/
structure AgreeOn (sources : List Nat) (first second : ScriptedMeter) : Prop where
  levels : ∀ source ∈ sources, first.levels.get? source = second.levels.get? source
  bulk : ∀ source ∈ sources, first.bulk.bind (fun levels => levels.get? source) =
    second.bulk.bind fun levels => levels.get? source
  baselines : ∀ source ∈ sources,
    first.baselines.samples.get? source = second.baselines.samples.get? source

section AgreeOn

variable {sources : List Nat} {first second third : ScriptedMeter}

theorem AgreeOn.refl (sources : List Nat) (meter : ScriptedMeter) : AgreeOn sources meter meter :=
  ⟨fun _ _ => rfl, fun _ _ => rfl, fun _ _ => rfl⟩

theorem AgreeOn.symm (h : AgreeOn sources first second) : AgreeOn sources second first :=
  ⟨fun source mem => (h.levels source mem).symm, fun source mem => (h.bulk source mem).symm,
    fun source mem => (h.baselines source mem).symm⟩

theorem AgreeOn.trans (h : AgreeOn sources first second) (h' : AgreeOn sources second third) :
    AgreeOn sources first third :=
  ⟨fun source mem => (h.levels source mem).trans (h'.levels source mem),
    fun source mem => (h.bulk source mem).trans (h'.bulk source mem),
    fun source mem => (h.baselines source mem).trans (h'.baselines source mem)⟩

theorem AgreeOn.last? (h : AgreeOn sources first second) {source : Nat} (mem : source ∈ sources) :
    first.baselines.last? source = second.baselines.last? source := by
  unfold Baselines.last?
  rw [h.baselines source mem]

end AgreeOn

theorem readGain_eq (meter : ScriptedMeter) (source time : Nat) :
    Meter.readGain meter source time =
      match meter.levels.get? source with
      | none => (none, meter)
      | some level => (some (meter.baselines.gain source level),
          { meter with baselines := meter.baselines.record source level time }) := by
  have read : Gauge.readLevel meter source = (meter.levels.get? source, meter) := rfl
  rw [LawfulMeter.readGain_eq, Gauge.readGain, read]
  cases meter.levels.get? source <;> rfl

/-- Reading a source moves the baseline of no other. -/
theorem agreeOn_readGain {sources : List Nat} {source : Nat} (absent : source ∉ sources)
    (meter : ScriptedMeter) (time : Nat) :
    AgreeOn sources meter (Meter.readGain meter source time).2 := by
  rw [readGain_eq]
  cases meter.levels.get? source with
  | none => exact .refl sources meter
  | some level =>
    refine ⟨fun _ _ => rfl, fun _ _ => rfl, ?_⟩
    intro other mem
    have ne : other ≠ source := fun same => absent (same ▸ mem)
    exact (meter.baselines.samples.get?_insert_of_ne _ ne).symm

theorem matches_agreeOn (sources : List Nat) (time : Nat) :
    Matches (AgreeOn sources) sources time time where
  gain related source mem := by
    rw [readGain_eq, readGain_eq, related.levels source mem]
    unfold Baselines.gain
    rw [related.last? mem]
    split <;> rfl
  last {meter other} related source mem read := by
    rw [readGain_eq, readGain_eq, related.levels source mem]
    rw [readGain_eq, related.levels source mem] at read
    cases shown : other.levels.get? source with
    | none =>
      rw [shown] at read
      contradiction
    | some level =>
      have first := meter.baselines.last?_record_self source level time
      have second := other.baselines.last?_record_self source level time
      exact first.trans second.symm
  related {meter other} related source mem := by
    rw [readGain_eq, readGain_eq, related.levels source mem]
    cases other.levels.get? source with
    | none => exact related
    | some level =>
      refine ⟨related.levels, related.bulk, fun other' mem' => ?_⟩
      have same := related.baselines other' mem'
      simp only [Baselines.record, Table.get?_insert, same]

end ScriptedMeter

namespace Report

/-- The part of a report that is about the entity. -/
def about (report : Report) (entity : Nat) : Report where
  updated := report.updated.filter fun other => other = entity
  skipped := report.skipped.filter fun other => other = entity
  failures := report.failures.filter fun failure => failure.entity = entity
  bulkUnavailable := report.bulkUnavailable

variable {first second : Report} {entity other : Nat}

theorem about_addUpdated (same : first.about entity = second.about entity) :
    (first.addUpdated other).about entity = (second.addUpdated other).about entity := by
  simp only [about, addUpdated, mk.injEq, List.filter_append] at same ⊢
  exact ⟨by rw [same.1], same.2⟩

theorem about_addSkipped (same : first.about entity = second.about entity) :
    (first.addSkipped other).about entity = (second.addSkipped other).about entity := by
  simp only [about, addSkipped, mk.injEq, List.filter_append] at same ⊢
  exact ⟨same.1, by rw [same.2.1], same.2.2⟩

theorem about_addFailure (same : first.about entity = second.about entity) (failure : Failure) :
    (first.addFailure failure).about entity = (second.addFailure failure).about entity := by
  simp only [about, addFailure, mk.injEq, List.filter_append] at same ⊢
  exact ⟨same.1, same.2.1, by rw [same.2.2.1], same.2.2.2⟩

theorem about_addUpdated_of_ne (report : Report) (ne : other ≠ entity) :
    (report.addUpdated other).about entity = report.about entity := by
  simp [about, addUpdated, List.filter_append, ne]

theorem about_addSkipped_of_ne (report : Report) (ne : other ≠ entity) :
    (report.addSkipped other).about entity = report.about entity := by
  simp [about, addSkipped, List.filter_append, ne]

theorem about_addFailure_of_ne (report : Report) {failure : Failure}
    (ne : failure.entity ≠ entity) :
    (report.addFailure failure).about entity = report.about entity := by
  simp [about, addFailure, List.filter_append, ne]

theorem mem_updated_congr (same : first.about entity = second.about entity) :
    entity ∈ first.updated ↔ entity ∈ second.updated := by
  have iff (report : Report) :
      entity ∈ report.updated ↔ entity ∈ (report.about entity).updated := by
    simp [about]
  rw [iff first, same, iff second]

theorem mem_skipped_congr (same : first.about entity = second.about entity) :
    entity ∈ first.skipped ↔ entity ∈ second.skipped := by
  have iff (report : Report) :
      entity ∈ report.skipped ↔ entity ∈ (report.about entity).skipped := by
    simp [about]
  rw [iff first, same, iff second]

theorem failed_congr (same : first.about entity = second.about entity) :
    (∃ failure ∈ first.failures, failure.entity = entity) ↔
      ∃ failure ∈ second.failures, failure.entity = entity := by
  have iff (report : Report) : (∃ failure ∈ report.failures, failure.entity = entity) ↔
      ∃ failure, failure ∈ (report.about entity).failures := by
    simp [about]
  rw [iff first, same, iff second]

end Report

namespace Round

/-- The two rounds agree on the sources, and their reports on the entity. -/
structure AgreeOn (sources : List Nat) (entity : Nat) (first second : Round ScriptedMeter) :
    Prop where
  ledger : Ledger.AgreeOn sources first.ledger second.ledger
  meter : ScriptedMeter.AgreeOn sources first.meter second.meter
  report : first.report.about entity = second.report.about entity

section AgreeOn

variable {sources : List Nat} {entity : Nat} {first second third : Round ScriptedMeter}

theorem AgreeOn.refl (sources : List Nat) (entity : Nat) (round : Round ScriptedMeter) :
    AgreeOn sources entity round round :=
  ⟨.refl sources round.ledger, .refl sources round.meter, rfl⟩

theorem AgreeOn.symm (h : AgreeOn sources entity first second) :
    AgreeOn sources entity second first :=
  ⟨h.ledger.symm, h.meter.symm, h.report.symm⟩

theorem AgreeOn.trans (h : AgreeOn sources entity first second)
    (h' : AgreeOn sources entity second third) : AgreeOn sources entity first third :=
  ⟨h.ledger.trans h'.ledger, h.meter.trans h'.meter, h.report.trans h'.report⟩

/-- The same commit for the entity keeps rounds in agreement. -/
theorem AgreeOn.commit (h : AgreeOn sources entity first second) (mem : entity ∈ sources)
    (parts : List Contribution) :
    AgreeOn sources entity (first.commit entity parts) (second.commit entity parts) := by
  have merged : first.ledger.merged parts = second.ledger.merged parts := by
    unfold Ledger.merged
    rw [h.ledger.width]
  unfold Round.commit
  rcases first.ledger.commit_cases entity parts with ⟨width, after, done⟩ | ⟨width, failed⟩
  · rcases second.ledger.commit_cases entity parts with ⟨-, after', done'⟩ | ⟨width', -⟩
    · rw [done, done']
      exact ⟨h.ledger.commit mem done done', h.meter, Report.about_addUpdated h.report⟩
    · exact absurd (merged ▸ h.ledger.width ▸ width) width'
  · rcases second.ledger.commit_cases entity parts with ⟨width', -⟩ | ⟨-, failed'⟩
    · rw [merged, h.ledger.width] at width
      contradiction
    · rw [failed, failed', merged, h.ledger.width]
      exact ⟨h.ledger, h.meter, Report.about_addFailure h.report _⟩

end AgreeOn

section Turns

variable {sources : List Nat} {entity other : Nat}

/-- A commit for another entity, of parts from other sources, leaves the sources alone. -/
theorem agreeOn_commit (round : Round ScriptedMeter) {parts : List Contribution}
    (ne : other ≠ entity) (own : other ∉ sources) (apart : ∀ part ∈ parts, part.source ∉ sources) :
    AgreeOn sources entity round (round.commit other parts) := by
  unfold Round.commit
  cases done : round.ledger.commit other parts with
  | ok after =>
    exact ⟨Ledger.agreeOn_of_commit done own apart, .refl sources round.meter,
      (round.report.about_addUpdated_of_ne ne).symm⟩
  | error fault =>
    exact ⟨.refl sources round.ledger, .refl sources round.meter,
      (round.report.about_addFailure_of_ne ne).symm⟩

/-- To take up another family leaves a family alone. -/
theorem agreeOn_tickEntity (round : Round ScriptedMeter) (time : Nat)
    (own : ¬ round.ledger.isolation.IsChild entity)
    (own' : ¬ round.ledger.isolation.IsChild other) (ne : other ≠ entity) :
    AgreeOn (round.ledger.isolation.family entity) entity round (round.tickEntity time other) := by
  have apart {source : Nat} (mem : source ∈ round.ledger.isolation.family other) :
      source ∉ round.ledger.isolation.family entity :=
    Isolation.not_mem_family_of_ne own own' ne mem
  have read : ScriptedMeter.AgreeOn (round.ledger.isolation.family entity) round.meter
      (round.ledger.gather round.meter other time).2 := by
    apply round.ledger.gather_preserves (P := ScriptedMeter.AgreeOn _ round.meter)
    · intro meter agree source mem
      exact agree.trans (ScriptedMeter.agreeOn_readGain (apart mem) meter time)
    · exact .refl _ round.meter
  unfold Round.tickEntity
  cases result : round.ledger.gather round.meter other time with
  | mk gathered after =>
    rw [result] at read
    cases gathered with
    | unavailable =>
      exact ⟨.refl _ round.ledger, read, (round.report.about_addSkipped_of_ne ne).symm⟩
    | failed phase fault =>
      exact ⟨.refl _ round.ledger, read, (round.report.about_addFailure_of_ne ne).symm⟩
    | complete parts =>
      have sources := Ledger.gather_sources (congrArg Prod.fst result)
      have moved : AgreeOn (round.ledger.isolation.family entity) entity round
          { round with meter := after } := ⟨.refl _ round.ledger, read, rfl⟩
      have head : other ∉ round.ledger.isolation.family entity := apart List.mem_cons_self
      exact moved.trans (agreeOn_commit { round with meter := after } ne head
        fun part mem => apart (sources part mem))

/-- To take up the family itself keeps rounds in agreement. -/
theorem AgreeOn.tickEntity {first second : Round ScriptedMeter} {isolation : Isolation}
    (h : AgreeOn (isolation.family entity) entity first second)
    (same : first.ledger.isolation = isolation) (time : Nat) :
    AgreeOn (isolation.family entity) entity (first.tickEntity time entity)
      (second.tickEntity time entity) := by
  subst same
  obtain ⟨gathered, after, after', result, result', agree⟩ :=
    Ledger.gather_congr h.ledger.width h.ledger.isolation
      (ScriptedMeter.matches_agreeOn _ time) h.ledger.accounted h.meter
  unfold Round.tickEntity
  rw [result, result']
  cases gathered with
  | unavailable => exact ⟨h.ledger, agree, Report.about_addSkipped h.report⟩
  | failed phase fault => exact ⟨h.ledger, agree, Report.about_addFailure h.report _⟩
  | complete parts =>
    have moved : AgreeOn (first.ledger.isolation.family entity) entity
        { first with meter := after } { second with meter := after' } :=
      ⟨h.ledger, agree, h.report⟩
    exact moved.commit List.mem_cons_self parts

/-- The turns of all other entities leave the sources and the entity alone. -/
structure Spares (step : Round ScriptedMeter → Nat → Round ScriptedMeter) (isolation : Isolation)
    (sources : List Nat) (entity : Nat) : Prop where
  scene (round : Round ScriptedMeter) (other : Nat) :
    (step round other).ledger.isolation = round.ledger.isolation
  others (round : Round ScriptedMeter) (other : Nat) : round.ledger.isolation = isolation →
    ¬ isolation.IsChild other → other ≠ entity → AgreeOn sources entity round (step round other)

variable {step step' : Round ScriptedMeter → Nat → Round ScriptedMeter} {isolation : Isolation}

theorem Spares.foldl (spares : Spares step isolation sources entity)
    {round : Round ScriptedMeter} (start : round.ledger.isolation = isolation) {order : List Nat}
    (own : ∀ other ∈ order, ¬ isolation.IsChild other) (absent : entity ∉ order) :
    AgreeOn sources entity round (order.foldl step round) := by
  induction order generalizing round with
  | nil => exact .refl sources entity round
  | cons other rest ih =>
    obtain ⟨first, later⟩ := List.forall_mem_cons.mp own
    obtain ⟨ne, absent⟩ := List.ne_and_not_mem_of_not_mem_cons absent
    have turn := spares.others round other start first (Ne.symm ne)
    have kept := (spares.scene round other).trans start
    exact turn.trans (ih kept later absent)

/-- Of all turns only the entity's own one counts for the sources. -/
theorem Spares.foldl_turn (spares : Spares step isolation sources entity)
    {round : Round ScriptedMeter} (start : round.ledger.isolation = isolation) {order : List Nat}
    (distinct : order.Nodup) (own : ∀ other ∈ order, ¬ isolation.IsChild other)
    (mem : entity ∈ order) :
    ∃ reached, reached.ledger.isolation = isolation ∧ AgreeOn sources entity round reached ∧
      AgreeOn sources entity (step reached entity) (order.foldl step round) := by
  obtain ⟨early, late, rfl, first⟩ := List.eq_append_cons_of_mem mem
  have last : entity ∉ late := (List.nodup_cons.mp (List.nodup_append.mp distinct).2.1).1
  have ownEarly : ∀ other ∈ early, ¬ isolation.IsChild other :=
    fun other mem => own other (List.mem_append_left _ mem)
  have ownLate : ∀ other ∈ late, ¬ isolation.IsChild other :=
    fun other mem => own other (List.mem_append_right _ (List.mem_cons_of_mem entity mem))
  let reached := early.foldl step round
  have before : AgreeOn sources entity round reached := spares.foldl start ownEarly first
  have scene : reached.ledger.isolation = isolation := before.ledger.isolation.symm.trans start
  have kept := (spares.scene reached entity).trans scene
  refine ⟨reached, scene, before, ?_⟩
  rw [List.foldl_append, List.foldl_cons]
  exact spares.foldl kept ownLate last

/-- If the entity's own turns keep rounds in agreement, so do all turns together, in any order. -/
theorem Spares.foldl_congr (spares : Spares step isolation sources entity)
    (spares' : Spares step' isolation sources entity)
    (acts : ∀ first second, first.ledger.isolation = isolation →
      AgreeOn sources entity first second →
        AgreeOn sources entity (step first entity) (step' second entity))
    {first second : Round ScriptedMeter} (start : first.ledger.isolation = isolation)
    (agree : AgreeOn sources entity first second) {order order' : List Nat}
    (distinct : order.Nodup) (distinct' : order'.Nodup)
    (own : ∀ other ∈ order, ¬ isolation.IsChild other)
    (own' : ∀ other ∈ order', ¬ isolation.IsChild other)
    (both : entity ∈ order ↔ entity ∈ order') :
    AgreeOn sources entity (order.foldl step first) (order'.foldl step' second) := by
  have start' : second.ledger.isolation = isolation := agree.ledger.isolation ▸ start
  by_cases mem : entity ∈ order
  · obtain ⟨reached, scene, before, after⟩ := spares.foldl_turn start distinct own mem
    obtain ⟨reached', -, before', after'⟩ :=
      spares'.foldl_turn start' distinct' own' (both.mp mem)
    have turn := acts reached reached' scene (before.symm.trans (agree.trans before'))
    exact after.symm.trans (turn.trans after')
  · have before := spares.foldl start own mem
    have before' := spares'.foldl start' own' fun mem' => mem (both.mpr mem')
    exact before.symm.trans (agree.trans before')

theorem isolation_commit (round : Round ScriptedMeter) (entity : Nat)
    (parts : List Contribution) :
    (round.commit entity parts).ledger.isolation = round.ledger.isolation := by
  obtain ⟨outcome, turn, -⟩ := round.turn_commit entity parts
  exact turn.sameScene.isolation

theorem isolation_tickEntity (round : Round ScriptedMeter) (time entity : Nat) :
    (round.tickEntity time entity).ledger.isolation = round.ledger.isolation := by
  obtain ⟨outcome, turn, -⟩ := round.turn_tickEntity time entity
  exact turn.sameScene.isolation

theorem spares_tickEntity (time : Nat) (own : ¬ isolation.IsChild entity) :
    Spares (Round.tickEntity time) isolation (isolation.family entity) entity where
  scene round other := round.isolation_tickEntity time other
  others round other same own' ne := by
    subst same
    exact round.agreeOn_tickEntity time own own' ne

theorem spares_commit {share : Nat → List Contribution} (own : ¬ isolation.IsChild entity)
    (sources : ∀ other, ∀ part ∈ share other, part.source ∈ isolation.family other) :
    Spares (fun round other => round.commit other (share other)) isolation
      (isolation.family entity) entity where
  scene round other := round.isolation_commit other (share other)
  others round other _ own' ne := by
    have apart {source : Nat} (mem : source ∈ isolation.family other) :
        source ∉ isolation.family entity := Isolation.not_mem_family_of_ne own own' ne mem
    exact round.agreeOn_commit ne (apart List.mem_cons_self)
      fun part mem => apart (sources other part mem)

end Turns

end Round

namespace Ledger

section Levels

variable {ledger first second : Ledger} {levels levels' : Table Measure} {entity : Nat}

theorem get?_accepted (ledger : Ledger) (levels : Table Measure) (source : Nat) :
    (ledger.accepted levels).get? source =
      (levels.get? source).filter fun level => level.length = ledger.store.width :=
  Table.get?_filter _ _ _

/-- What goes to a known entity is what is accepted of its family. -/
theorem sharedReadings_eq (consistent : ledger.Consistent) (known : entity ∈ ledger.standing) :
    ledger.sharedReadings levels entity = ((ledger.accepted levels).filter fun source _ =>
      source ∈ ledger.isolation.family entity).readings := by
  unfold sharedReadings Table.readings Table.filter
  rw [List.filter_map]
  congr 1
  apply List.filter_congr
  intro entry _
  have iff : ledger.recipient? (ledger.accepted levels) entry.1 = some entity ↔
      entry.1 ∈ ledger.isolation.family entity :=
    ⟨mem_family_of_recipient?, recipient?_of_mem_family consistent known⟩
  simp only [Function.comp_apply, iff]

/-- The commits of a copy of all levels treat the families apart. -/
theorem spares_shares (levels : Table Measure) (own : ¬ ledger.isolation.IsChild entity) :
    Round.Spares (fun round other => round.commit other (shareOf (ledger.assigned levels) other))
      ledger.isolation (ledger.isolation.family entity) entity := by
  apply Round.spares_commit own
  intro other part mem
  rw [shareOf_assigned] at mem
  obtain ⟨reading, shared, rfl⟩ := List.mem_map.mp mem
  exact mem_family_of_recipient? (mem_sharedReadings.mp shared).2

theorem sharedReadings_congr (consistent : first.Consistent) (consistent' : second.Consistent)
    (known : entity ∈ first.standing) (known' : entity ∈ second.standing)
    (width : first.store.width = second.store.width)
    (isolation : first.isolation = second.isolation)
    (shown : ∀ source ∈ first.isolation.family entity,
      levels.get? source = levels'.get? source) :
    first.sharedReadings levels entity = second.sharedReadings levels' entity := by
  rw [sharedReadings_eq consistent known, sharedReadings_eq consistent' known', ← isolation]
  congr 1
  apply Table.ext_get?
  intro source
  rw [Table.get?_filter, Table.get?_filter, get?_accepted, get?_accepted, width]
  by_cases mem : source ∈ first.isolation.family entity
  · rw [shown source mem]
  · simp [mem]

theorem mem_spoiled_iff (own : ¬ ledger.isolation.IsChild entity) :
    entity ∈ ledger.spoiled levels ↔ ∃ source ∈ ledger.isolation.family entity,
      ∃ level, levels.get? source = some level ∧ level.length ≠ ledger.store.width := by
  rw [mem_spoiled]
  constructor
  · rintro ⟨reading, mem, owner, width⟩
    exact ⟨reading.source, (Isolation.mem_family_iff own _).mpr owner, reading.level,
      (Table.mem_readings.mp mem).2, width⟩
  · rintro ⟨source, family, level, found, width⟩
    exact ⟨⟨.copyAll, source, level⟩, Table.mem_readings.mpr ⟨rfl, found⟩,
      (Isolation.mem_family_iff own source).mp family, width⟩

theorem mem_spoiled_congr (own : ¬ first.isolation.IsChild entity)
    (width : first.store.width = second.store.width)
    (isolation : first.isolation = second.isolation)
    (shown : ∀ source ∈ first.isolation.family entity,
      levels.get? source = levels'.get? source) :
    entity ∈ first.spoiled levels ↔ entity ∈ second.spoiled levels' := by
  have own' : ¬ second.isolation.IsChild entity := isolation ▸ own
  rw [mem_spoiled_iff own, mem_spoiled_iff own', ← isolation, ← width]
  apply exists_congr
  intro source
  apply and_congr_right
  intro mem
  rw [shown source mem]

theorem AgreeOn.rebase {sources : List Nat} (h : AgreeOn sources first second)
    (shown : ∀ source ∈ sources, levels.get? source = levels'.get? source) (time : Nat) :
    AgreeOn sources (first.rebase levels time) (second.rebase levels' time) := by
  refine ⟨h.width, h.timeBase, h.isolation, h.cells, h.states, h.pending, h.accounted, ?_⟩
  intro source mem
  rw [get?_rebase, get?_rebase, get?_accepted, get?_accepted, shown source mem, h.width,
    h.bulk source mem]

theorem filter_widthFailures (ledger : Ledger) (levels : Table Measure) (entity : Nat) :
    (ledger.widthFailures levels).filter (fun failure => failure.entity = entity) =
      ((ledger.rejected levels).filter fun source _ => source = entity).entries.map
        fun (source, level) => {
          entity := source
          phase := .computingDeltas
          fault := .width source ledger.store.width level.length } := by
  rw [widthFailures, List.filter_map]
  rfl

theorem widthFailures_congr (width : first.store.width = second.store.width)
    (shown : levels.get? entity = levels'.get? entity) :
    (first.widthFailures levels).filter (fun failure => failure.entity = entity) =
      (second.widthFailures levels').filter fun failure => failure.entity = entity := by
  have same : ((first.rejected levels).filter fun source _ => source = entity) =
      (second.rejected levels').filter fun source _ => source = entity := by
    apply Table.ext_get?
    intro source
    rw [Table.get?_filter, Table.get?_filter, rejected, rejected, Table.get?_filter,
      Table.get?_filter, width]
    by_cases own : source = entity
    · rw [own, shown]
    · simp [own]
  rw [filter_widthFailures, filter_widthFailures, same, width]

end Levels

section Update

variable {μ : Type} [Meter μ]

/-- The entities that an update takes up, in its own order. -/
def turns (ledger : Ledger) (path : Path) (meter : μ) : List Nat :=
  match path with
  | .tick => ledger.targets
  | .copyAll =>
    match (Meter.readAll meter).1 with
    | some levels => recipients (ledger.assigned levels) (ledger.spoiled levels)
    | none => []

/-- An update that takes up these entities, in this order. -/
def updateInOrder (ledger : Ledger) (path : Path) (meter : μ) (time : Nat) (order : List Nat) :
    Round μ :=
  match path with
  | .tick => order.foldl (Round.tickEntity time) { ledger, meter }
  | .copyAll =>
    match Meter.readAll meter with
    | (none, meter) => { ledger, meter, report := { bulkUnavailable := true } }
    | (some levels, meter) =>
      order.foldl
        (fun round entity => round.commit entity (shareOf (ledger.assigned levels) entity))
        { ledger := ledger.rebase levels time
          meter
          report := { failures := ledger.widthFailures levels } }

theorem updateInOrder_turns (ledger : Ledger) (path : Path) (meter : μ) (time : Nat) :
    ledger.updateInOrder path meter time (ledger.turns path meter) =
      ledger.update path meter time := by
  cases path with
  | tick => rfl
  | copyAll =>
    unfold updateInOrder turns update copyAll
    generalize Meter.readAll meter = reading
    obtain ⟨levels, after⟩ := reading
    cases levels <;> rfl

theorem turns_nodup (ledger : Ledger) (path : Path) (meter : μ) :
    (ledger.turns path meter).Nodup := by
  cases path with
  | tick => exact ledger.targets_nodup
  | copyAll =>
    unfold turns
    cases (Meter.readAll meter).1 with
    | none => exact List.nodup_nil
    | some levels => exact recipients_nodup _ _

theorem turns_copyAll (ledger : Ledger) {meter : μ} {levels : Table Measure}
    (shown : (Meter.readAll meter).1 = some levels) : ledger.turns .copyAll meter =
      recipients (ledger.assigned levels) (ledger.spoiled levels) := by
  simp only [turns, shown]

theorem not_isChild_of_mem_turns {ledger : Ledger} (consistent : ledger.Consistent) {path : Path}
    {meter : μ} {entity : Nat} (mem : entity ∈ ledger.turns path meter) :
    ¬ ledger.isolation.IsChild entity := by
  cases path with
  | tick => exact not_isChild_of_mem_targets mem
  | copyAll =>
    cases shown : (Meter.readAll meter).1 with
    | none => simp [turns, shown] at mem
    | some levels =>
      rw [ledger.turns_copyAll shown] at mem
      exact not_isChild_of_mem_recipients consistent.flat mem

end Update

section TwoUpdates

variable {first second : Ledger} {meter other : ScriptedMeter} {entity : Nat}

/-- A known entity is always taken up by a tick. -/
theorem mem_targets (consistent : first.Consistent) (known : entity ∈ first.standing) :
    entity ∈ first.targets := by
  rw [consistent.targets_eq]
  exact (first.standing.mem_keys entity).mpr known

theorem tick_agreeOn (consistent : first.Consistent) (consistent' : second.Consistent)
    (known : entity ∈ first.standing) (known' : entity ∈ second.standing)
    (agree : AgreeOn (first.isolation.family entity) first second)
    (meters : ScriptedMeter.AgreeOn (first.isolation.family entity) meter other) (time : Nat)
    {order order' : List Nat} (perm : order.Perm first.targets)
    (perm' : order'.Perm second.targets) :
    Round.AgreeOn (first.isolation.family entity) entity
      (first.updateInOrder .tick meter time order)
      (second.updateInOrder .tick other time order') := by
  have own : ¬ first.isolation.IsChild entity := consistent.known entity known
  have spares := Round.spares_tickEntity time own
  have start : Round.AgreeOn (first.isolation.family entity) entity { ledger := first, meter }
      { ledger := second, meter := other } := ⟨agree, meters, rfl⟩
  have mem : entity ∈ order := perm.mem_iff.mpr (mem_targets consistent known)
  have mem' : entity ∈ order' := perm'.mem_iff.mpr (mem_targets consistent' known')
  apply spares.foldl_congr spares _ rfl start
  · exact perm.nodup_iff.mpr first.targets_nodup
  · exact perm'.nodup_iff.mpr second.targets_nodup
  · exact fun other taken => not_isChild_of_mem_targets (perm.mem_iff.mp taken)
  · intro other taken
    rw [agree.isolation]
    exact not_isChild_of_mem_targets (perm'.mem_iff.mp taken)
  · exact iff_of_true mem mem'
  · exact fun _ _ scene rounds => rounds.tickEntity scene time

theorem copyAll_agreeOn (consistent : first.Consistent) (consistent' : second.Consistent)
    (known : entity ∈ first.standing) (known' : entity ∈ second.standing)
    (agree : AgreeOn (first.isolation.family entity) first second)
    (meters : ScriptedMeter.AgreeOn (first.isolation.family entity) meter other)
    {levels levels' : Table Measure} (available : meter.bulk = some levels)
    (available' : other.bulk = some levels') (time : Nat)
    {order order' : List Nat} (perm : order.Perm (first.turns .copyAll meter))
    (perm' : order'.Perm (second.turns .copyAll other)) :
    Round.AgreeOn (first.isolation.family entity) entity
      (first.updateInOrder .copyAll meter time order)
      (second.updateInOrder .copyAll other time order') := by
  have own : ¬ first.isolation.IsChild entity := consistent.known entity known
  have shown : ∀ source ∈ first.isolation.family entity,
      levels.get? source = levels'.get? source := by
    intro source mem
    simpa [available, available'] using meters.bulk source mem
  have shared := sharedReadings_congr consistent consistent' known known' agree.width
    agree.isolation shown
  have share :
      shareOf (first.assigned levels) entity = shareOf (second.assigned levels') entity := by
    rw [shareOf_assigned, shareOf_assigned, ← shared]
    apply List.map_congr_left
    intro reading mem
    have family := mem_family_of_recipient? (mem_sharedReadings.mp mem).2
    exact credit_congr (agree.accounted _ family) (agree.bulkLast family)
  have taken : entity ∈ first.turns .copyAll meter ↔ entity ∈ second.turns .copyAll other := by
    rw [first.turns_copyAll available, second.turns_copyAll available', mem_recipients_assigned,
      mem_recipients_assigned, shared, mem_spoiled_congr own agree.width agree.isolation shown]
  have same : second.isolation = first.isolation := agree.isolation.symm
  have spares := first.spares_shares levels own
  have spares' := second.spares_shares levels' (same ▸ own)
  rw [same] at spares'
  have start : Round.AgreeOn (first.isolation.family entity) entity
      ⟨first.rebase levels time, meter, { failures := first.widthFailures levels }⟩
      ⟨second.rebase levels' time, other, { failures := second.widthFailures levels' }⟩ := by
    refine ⟨agree.rebase shown time, meters, ?_⟩
    have failures := widthFailures_congr agree.width (shown entity List.mem_cons_self)
    simp only [Report.about, failures]
  have read : Meter.readAll meter = (some levels, meter) := Prod.ext available rfl
  have read' : Meter.readAll other = (some levels', other) := Prod.ext available' rfl
  unfold updateInOrder
  rw [read, read']
  apply spares.foldl_congr spares' _ rfl start
  · exact perm.nodup_iff.mpr (first.turns_nodup .copyAll meter)
  · exact perm'.nodup_iff.mpr (second.turns_nodup .copyAll other)
  · exact fun other mem => not_isChild_of_mem_turns consistent (perm.mem_iff.mp mem)
  · intro other mem
    rw [← same]
    exact not_isChild_of_mem_turns consistent' (perm'.mem_iff.mp mem)
  · rw [perm.mem_iff, perm'.mem_iff]
    exact taken
  · intro round round' _ rounds
    simp only [share]
    exact rounds.commit List.mem_cons_self _

/-- What an update makes of the family of a known entity depends on nothing but the family: on what
the ledger holds of it, and on what the meter shows of it and counts its gains from. The order in
which the entities are taken up makes no difference to it either. -/
theorem update_agreeOn (reachable : first.Reachable) (reachable' : second.Reachable)
    (known : entity ∈ first.standing) (known' : entity ∈ second.standing)
    (agree : AgreeOn (first.isolation.family entity) first second)
    (meters : ScriptedMeter.AgreeOn (first.isolation.family entity) meter other) (path : Path)
    (available : path = .copyAll → meter.bulk ≠ none ∧ other.bulk ≠ none) (time : Nat) :
    let after := first.update path meter time
    let after' := second.update path other time
    AgreeOn (first.isolation.family entity) after.ledger after'.ledger ∧
      ScriptedMeter.AgreeOn (first.isolation.family entity) after.meter after'.meter ∧
      (entity ∈ after.report.updated ↔ entity ∈ after'.report.updated) ∧
      (entity ∈ after.report.skipped ↔ entity ∈ after'.report.skipped) ∧
      ((∃ failure ∈ after.report.failures, failure.entity = entity) ↔
        ∃ failure ∈ after'.report.failures, failure.entity = entity) ∧
      ∀ order, order.Perm (first.turns path meter) →
        Round.AgreeOn (first.isolation.family entity) entity
          (first.updateInOrder path meter time order) after := by
  intro after after'
  have consistent := reachable.consistent
  have consistent' := reachable'.consistent
  have taken {order order' : List Nat} (perm : order.Perm (first.turns path meter))
      (perm' : order'.Perm (second.turns path other)) :
      Round.AgreeOn (first.isolation.family entity) entity
        (first.updateInOrder path meter time order)
        (second.updateInOrder path other time order') := by
    cases path with
    | tick => exact tick_agreeOn consistent consistent' known known' agree meters time perm perm'
    | copyAll =>
      obtain ⟨shown, shown'⟩ := available rfl
      obtain ⟨levels, shown⟩ := Option.ne_none_iff_exists'.mp shown
      obtain ⟨levels', shown'⟩ := Option.ne_none_iff_exists'.mp shown'
      exact copyAll_agreeOn consistent consistent' known known' agree meters shown shown' time perm
        perm'
  have own : first.updateInOrder path meter time (first.turns path meter) = after :=
    first.updateInOrder_turns path meter time
  have own' : second.updateInOrder path other time (second.turns path other) = after' :=
    second.updateInOrder_turns path other time
  have rounds := taken (.refl _) (.refl _)
  rw [own, own'] at rounds
  refine ⟨rounds.ledger, rounds.meter, Report.mem_updated_congr rounds.report,
    Report.mem_skipped_congr rounds.report, Report.failed_congr rounds.report, ?_⟩
  intro order perm
  have moved := taken perm (.refl _)
  rw [own'] at moved
  exact moved.trans rounds.symm

/-- A family on its own. -/
def lone : List (Call ScriptedMeter) :=
  [.notice (.classify 1 .top), .notice (.isolate 1 2),
    .meter { levels := .ofList [(1, [5, 1]), (2, [3, 0])] }, .update .tick 10,
    .notice (.classify 1 .background),
    .meter {
      levels := .ofList [(1, [6, 1])]
      bulk := some (.ofList [(1, [7, 1]), (2, [4, 2])])
      baselines := ⟨.ofList [(1, ⟨[5, 1], 10⟩), (2, ⟨[3, 0], 10⟩)]⟩ }]

/-- The same family among others, one of which shows levels of a wrong width. -/
def crowded : List (Call ScriptedMeter) :=
  [.notice (.classify 0 .cached), .notice (.classify 1 .top), .notice (.isolate 1 2),
    .notice (.classify 3 .foreground),
    .meter { levels := .ofList [(0, [9]), (1, [5, 1]), (2, [3, 0]), (3, [2, 2])] },
    .update .tick 10, .notice (.classify 1 .background),
    .meter {
      levels := .ofList [(0, [9]), (1, [6, 1]), (3, [1, 1])]
      bulk := some (.ofList [(0, [9]), (1, [7, 1]), (2, [4, 2]), (8, [1, 1])])
      baselines := ⟨.ofList [(0, ⟨[9], 10⟩), (1, ⟨[5, 1], 10⟩), (2, ⟨[3, 0], 10⟩)]⟩ }]

theorem update_agreeOn_crowded :
    let first := Session.blank.run lone
    let second := Session.blank.run crowded
    first.ledger.standing.keys = [1] ∧ second.ledger.standing.keys = [0, 1, 3] ∧ ∀ path,
      (second.ledger.update path second.meter 20).report.failures ≠ [] ∧
        AgreeOn [1, 2] (first.ledger.update path first.meter 20).ledger
          (second.ledger.update path second.meter 20).ledger := by
  intro first second
  have new : Ledger.new { vectorLen := 2 } = .ok Session.blank.ledger := rfl
  have reachable (calls : List (Call ScriptedMeter)) : (Session.blank.run calls).ledger.Reachable :=
    ⟨ScriptedMeter, _, _, Session.blank, calls, new, rfl⟩
  have family : first.ledger.isolation.family 1 = [1, 2] := by decide +kernel
  have accounts : ∀ source ∈ [1, 2],
      first.ledger.store.accounts.get? source = second.ledger.store.accounts.get? source := by
    decide +kernel
  have agree : AgreeOn [1, 2] first.ledger second.ledger := by
    refine ⟨by decide +kernel, by decide +kernel, by decide +kernel, ?_, by decide +kernel,
      by decide +kernel, by decide +kernel, by decide +kernel⟩
    intro source mem row column
    rw [Store.cell?, accounts source mem, Store.cell?]
  have meters : ScriptedMeter.AgreeOn [1, 2] first.meter second.meter :=
    ⟨by decide +kernel, by decide +kernel, by decide +kernel⟩
  have known : 1 ∈ first.ledger.standing := by decide +kernel
  have known' : 1 ∈ second.ledger.standing := by decide +kernel
  refine ⟨by decide +kernel, by decide +kernel, fun path => ⟨?_, ?_⟩⟩
  · cases path <;> decide +kernel
  · have after := update_agreeOn (reachable lone) (reachable crowded) known known'
      (family.symm ▸ agree) (family.symm ▸ meters) path
      (fun _ => ⟨by decide +kernel, by decide +kernel⟩) 20
    rw [← family]
    exact after.1

end TwoUpdates

end Ledger

end UsageLedger
