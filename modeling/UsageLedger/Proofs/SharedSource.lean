import UsageLedger.Proofs.Absorb

/-!
Updates from a shared source. If the meter shows the same levels one by one and all at once, a tick
and a copy of all levels both absorb these levels, for exactly the known entities.
-/

namespace UsageLedger

namespace Ledger

/-- Every known entity is shown, and nothing but known entities and entities isolated under them. -/
structure Serves (ledger : Ledger) (levels : Table Measure) : Prop where
  fits : ledger.Fits levels
  complete : ∀ entity ∈ ledger.standing, entity ∈ levels
  only : ∀ source ∈ levels, ∃ entity ∈ ledger.standing, source ∈ ledger.isolation.family entity

instance (ledger : Ledger) (levels : Table Measure) : Decidable (ledger.Serves levels) :=
  decidable_of_iff ((∀ entry ∈ levels.entries, entry.2.length = ledger.store.width) ∧
      (∀ entity ∈ ledger.standing.keys, entity ∈ levels) ∧
      ∀ source ∈ levels.keys, ∃ entity ∈ ledger.standing.keys,
        source ∈ ledger.isolation.family entity) <| by
    simp only [Table.mem_keys]
    constructor
    · rintro ⟨fits, complete, only⟩
      refine ⟨fun source level found => ?_, complete, only⟩
      exact fits (source, level) ((levels.mem_entries_iff _ _).mpr found)
    · rintro ⟨fits, complete, only⟩
      refine ⟨fun entry mem => ?_, complete, only⟩
      exact fits entry.1 entry.2 ((levels.mem_entries_iff _ _).mp mem)

/-- The accounted levels lie nowhere above the levels shown now. -/
def Above (levels : Table Measure) (ledger : Ledger) : Prop :=
  ∀ source level accounted, levels.get? source = some level →
    ledger.accounted.get? source = some accounted → level.Covers accounted

section Behind

variable {ledger : Ledger} {levels : Table Measure} {baselines moved : Baselines}

theorem Behind.settle (behind : Behind baselines ledger) (fits : ledger.Fits levels) {entity : Nat}
    (apart : ¬ ledger.isolation.IsChild entity) {taken : List Reading}
    (shows : ledger.ShowsFamily levels entity taken)
    (last : ∀ reading ∈ taken, moved.last? reading.source = some reading.level)
    (kept : ∀ source, (∀ reading ∈ taken, reading.source ≠ source) →
      moved.last? source = baselines.last? source) :
    Behind moved (ledger.settle entity (ledger.familyParts levels entity)) := by
  intro source i
  unfold Baselines.levelAt accountedAt
  by_cases read : ∃ reading ∈ taken, reading.source = source
  · obtain ⟨reading, mem, rfl⟩ := read
    rw [last reading mem, get?_accounted_settle fits apart (shows.family reading mem)
      (shows.shown reading mem)]
  · have absent : source ∈ ledger.isolation.family entity → source ∉ levels :=
      fun family shown => read (shows.complete source family shown)
    rw [kept source fun reading mem same => read ⟨reading, mem, same⟩,
      get?_accounted_settle_of_absent fits absent]
    exact behind source i

/-- Absorbing levels that lie above the accounted ones lowers no accounted level. -/
theorem Behind.absorb (behind : Behind baselines ledger) (fits : ledger.Fits levels)
    (above : Above levels ledger) {entities : List Nat}
    (apart : ∀ entity ∈ entities, ¬ ledger.isolation.IsChild entity) :
    Behind baselines (ledger.absorb levels entities) := by
  intro source i
  have le := behind source i
  unfold accountedAt at le ⊢
  rcases get?_accounted_absorb_cases fits apart source with same | ⟨level, found, result⟩
  · rw [same]
    exact le
  · rw [result]
    cases former : ledger.accounted.get? source with
    | none =>
      rw [former] at le
      exact Nat.le_trans le (Nat.zero_le _)
    | some accounted =>
      rw [former] at le
      exact Nat.le_trans le (above source level accounted found former i)

end Behind

variable {μ : Type} [Meter μ] [LawfulMeter μ]

/-- A known entity is read with all that is shown of its family. -/
theorem gather_offered (ledger : Ledger) {meter : μ} {levels : Table Measure} {entity : Nat}
    (time : Nat) (offers : Meter.Offers meter levels) (fits : ledger.Fits levels)
    (apart : ¬ ledger.isolation.IsChild entity) (shown : entity ∈ levels) :
    ∃ taken after, (Recorder.mk meter []).Took taken after ∧
      ledger.ShowsFamily levels entity taken ∧ ledger.gather meter entity time =
        (.complete (taken.map (ledger.credit (Gauge.baselines meter))), after.meter) := by
  let recorder : Recorder μ := ⟨meter, []⟩
  obtain ⟨taken, after, took, family, outcome⟩ := ledger.gather_took time apart recorder
  obtain ⟨_, levels_eq⟩ := took.offered levels offers
  rcases outcome with ⟨rfl, unread, -⟩ | ⟨-, ⟨-, exhausts, result⟩ | ⟨⟨wrong, mem, width⟩, -⟩⟩
  · obtain ⟨reading, mem, -⟩ := unread levels offers entity List.mem_cons_self shown
    contradiction
  · refine ⟨taken, after, took, ⟨took.distinct, family, levels_eq, exhausts levels offers⟩, ?_⟩
    rw [← ledger.gather_meter recorder, result]
    rfl
  · exact absurd (fits wrong.source wrong.level (levels_eq wrong mem)) width

end Ledger

namespace Round

variable {μ : Type} [Meter μ] [LawfulMeter μ] {levels : Table Measure}

theorem tickEntity_absorbs (time : Nat) {round : Round μ} {entity : Nat}
    (offers : Meter.Offers round.meter levels) (fits : round.ledger.Fits levels)
    (behind : Ledger.Behind (Gauge.baselines round.meter) round.ledger)
    (apart : ¬ round.ledger.isolation.IsChild entity) (shown : entity ∈ levels) :
    ∃ meter, round.tickEntity time entity = {
          ledger := round.ledger.settle entity (round.ledger.familyParts levels entity)
          meter
          report := round.report.addUpdated entity } ∧
      Meter.Offers meter levels ∧ Ledger.Behind (Gauge.baselines meter)
        (round.ledger.settle entity (round.ledger.familyParts levels entity)) := by
  obtain ⟨taken, after, took, shows, result⟩ :=
    round.ledger.gather_offered time offers fits apart shown
  refine ⟨after.meter, ?_, (took.offered levels offers).1,
    behind.settle fits apart shows took.last took.kept⟩
  unfold tickEntity
  rw [result]
  simp only [commit, shows.commit_eq behind apart, Ledger.commit_familyParts fits]

theorem foldl_tickEntity_absorbs (time : Nat) {entities : List Nat} {round : Round μ}
    (offers : Meter.Offers round.meter levels) (fits : round.ledger.Fits levels)
    (behind : Ledger.Behind (Gauge.baselines round.meter) round.ledger)
    (apart : ∀ entity ∈ entities, ¬ round.ledger.isolation.IsChild entity)
    (shown : ∀ entity ∈ entities, entity ∈ levels) :
    ∃ meter, entities.foldl (tickEntity time) round = {
          ledger := round.ledger.absorb levels entities
          meter
          report := { round.report with updated := round.report.updated ++ entities } } ∧
      Ledger.Behind (Gauge.baselines meter) (round.ledger.absorb levels entities) := by
  induction entities generalizing round with
  | nil => exact ⟨round.meter, by simp [Ledger.absorb], behind⟩
  | cons entity rest ih =>
    obtain ⟨own, others⟩ := List.forall_mem_cons.mp apart
    obtain ⟨first, later⟩ := List.forall_mem_cons.mp shown
    obtain ⟨middle, step, offers, behind⟩ := tickEntity_absorbs time offers fits behind own first
    have isolation := (Ledger.settle_committed fits entity).isolation
    have still : Meter.Offers (round.tickEntity time entity).meter levels := by
      rw [step]
      exact offers
    obtain ⟨meter, result, behind⟩ := ih still (by rw [step]; exact fits.settle entity)
      (by rw [step]; exact behind) (by rw [step, isolation]; exact others) later
    rw [step] at result behind
    refine ⟨meter, ?_, behind⟩
    rw [List.foldl_cons, step, result]
    simp [Ledger.absorb_cons, Report.addUpdated]

end Round

namespace Ledger

/-- With nothing pending but for known entities, a tick takes up the known entities. -/
theorem Consistent.targets_eq {ledger : Ledger} (h : ledger.Consistent) :
    ledger.targets = ledger.standing.keys := by
  apply List.Pairwise.eq_of_mem_iff (r := (· < ·))
  · exact (Table.keys_ascending _).filter _
  · exact ledger.standing.keys_ascending
  intro entity
  rw [targets, List.mem_filter, decide_eq_true_iff, Table.mem_keys, KeySet.mem_addAll,
    Table.mem_keys, Table.mem_keys, Table.mem_map]
  constructor
  · rintro ⟨pending | known, -⟩
    · exact h.pending entity pending
    · exact known
  · intro known
    exact ⟨.inr known, h.known entity known⟩

variable {μ : Type} [Meter μ] {ledger : Ledger} {levels : Table Measure}

theorem Consistent.apart (h : ledger.Consistent) :
    ∀ entity ∈ ledger.standing.keys, ¬ ledger.isolation.IsChild entity := by
  intro entity mem
  exact h.known entity ((ledger.standing.mem_keys entity).mp mem)

theorem Serves.shown (serves : ledger.Serves levels) :
    ∀ entity ∈ ledger.standing.keys, entity ∈ levels := by
  intro entity mem
  exact serves.complete entity ((ledger.standing.mem_keys entity).mp mem)

/-- A tick absorbs the levels that the meter offers. -/
theorem tick_absorbs [LawfulMeter μ] (consistent : ledger.Consistent)
    (serves : ledger.Serves levels) {meter : μ} (offers : Meter.Offers meter levels)
    (behind : Behind (Gauge.baselines meter) ledger) (time : Nat) :
    ∃ after, ledger.tick meter time = {
          ledger := ledger.absorb levels ledger.standing.keys
          meter := after
          report := { updated := ledger.standing.keys } } ∧
      Behind (Gauge.baselines after) (ledger.absorb levels ledger.standing.keys) := by
  rw [tick, consistent.targets_eq]
  let round : Round μ := { ledger, meter }
  have shown : Meter.Offers round.meter levels := offers
  exact Round.foldl_tickEntity_absorbs time shown serves.fits behind consistent.apart serves.shown

theorem mem_family_of_recipient? {source entity : Nat}
    (h : ledger.recipient? levels source = some entity) :
    source ∈ ledger.isolation.family entity := by
  unfold recipient? at h
  split at h
  next => exact Option.some.inj h ▸ List.mem_cons_self
  next parent child =>
    split at h
    · cases h
      exact List.mem_cons_of_mem _ ((ledger.isolation.mem_childrenOf entity source).mpr child)
    · contradiction

theorem recipient?_of_mem_family (consistent : ledger.Consistent) {source entity : Nat}
    (known : entity ∈ ledger.standing) (family : source ∈ ledger.isolation.family entity) :
    ledger.recipient? levels source = some entity := by
  unfold recipient?
  rcases List.mem_cons.mp family with rfl | child
  · rw [(ledger.isolation.parentOf_eq_none_iff source).mpr (consistent.known source known)]
  · rw [(ledger.isolation.mem_childrenOf entity source).mp child]
    exact if_pos (.inl known)

/-- What goes to a known entity is what is shown of its family. -/
theorem showsFamily_sharedReadings (consistent : ledger.Consistent) (fits : ledger.Fits levels)
    {entity : Nat} (known : entity ∈ ledger.standing) :
    ledger.ShowsFamily levels entity (ledger.sharedReadings levels entity) where
  distinct := (ledger.accepted levels).readings_distinct.sublist (List.filter_sublist.map _)
  family _ mem := mem_family_of_recipient? (mem_sharedReadings.mp mem).2
  shown _ mem := (Table.mem_readings.mp (mem_sharedReadings.mp mem).1.1).2
  complete source family shown := by
    obtain ⟨level, found⟩ := Table.mem_iff.mp shown
    exact ⟨⟨.copyAll, source, level⟩, mem_sharedReadings.mpr
      ⟨⟨Table.mem_readings.mpr ⟨rfl, found⟩, fits source level found⟩,
        recipient?_of_mem_family consistent known family⟩, rfl⟩

theorem recipients_eq (consistent : ledger.Consistent) (serves : ledger.Serves levels) :
    recipients (ledger.assigned levels) (ledger.spoiled levels) = ledger.standing.keys := by
  apply List.Pairwise.eq_of_mem_iff (r := (· < ·))
  · exact recipients_ascending _ _
  · exact ledger.standing.keys_ascending
  intro entity
  have clean : entity ∉ ledger.spoiled levels := by
    intro spoiled
    obtain ⟨reading, mem, -, width⟩ := mem_spoiled.mp spoiled
    exact width (serves.fits reading.source reading.level (Table.mem_readings.mp mem).2)
  rw [mem_recipients_assigned, Table.mem_keys]
  constructor
  · rintro ⟨⟨reading, mem⟩, -⟩
    obtain ⟨⟨mem, _⟩, goes⟩ := mem_sharedReadings.mp mem
    obtain ⟨owner, known, family⟩ := serves.only reading.source
      (Table.mem_iff.mpr ⟨_, (Table.mem_readings.mp mem).2⟩)
    rw [recipient?_of_mem_family consistent known family] at goes
    exact Option.some.inj goes ▸ known
  · intro known
    obtain ⟨reading, mem, -⟩ := (showsFamily_sharedReadings consistent serves.fits known).complete
      entity List.mem_cons_self (serves.complete entity known)
    exact ⟨⟨reading, mem⟩, clean⟩

/-- Settling one family leaves the parts of the others as they are. -/
theorem familyParts_settle (fits : ledger.Fits levels) {entity other : Nat}
    (apart : ¬ ledger.isolation.IsChild entity) (apart' : ¬ ledger.isolation.IsChild other)
    (ne : other ≠ entity) :
    (ledger.settle entity (ledger.familyParts levels entity)).familyParts levels other =
      ledger.familyParts levels other := by
  apply familyParts_congr (settle_committed fits entity).isolation
  intro source family
  apply get?_accounted_settle_of_absent fits
  have absent : source ∈ ledger.isolation.family entity → source ∉ levels := by
    intro family'
    have owner := Isolation.ownerOf_of_mem_family apart' family
    rw [Isolation.ownerOf_of_mem_family apart family'] at owner
    exact absurd owner.symm ne
  exact absent

end Ledger

/-- Commits of what the levels add, all computed beforehand, absorb the levels. -/
theorem Round.foldl_commit_absorbs {μ : Type} {levels : Table Measure}
    (share : Nat → List Contribution) {entities : List Nat} {round : Round μ}
    (distinct : entities.Nodup) (fits : round.ledger.Fits levels)
    (apart : ∀ entity ∈ entities, ¬ round.ledger.isolation.IsChild entity)
    (shares : ∀ entity ∈ entities,
      (share entity).Perm (round.ledger.familyParts levels entity)) :
    entities.foldl (fun round entity => round.commit entity (share entity)) round = {
      round with
      ledger := round.ledger.absorb levels entities
      report := { round.report with updated := round.report.updated ++ entities } } := by
  induction entities generalizing round with
  | nil => simp [Ledger.absorb]
  | cons entity rest ih =>
    obtain ⟨fresh, distinct⟩ := List.nodup_cons.mp distinct
    obtain ⟨own, others⟩ := List.forall_mem_cons.mp apart
    obtain ⟨first, later⟩ := List.forall_mem_cons.mp shares
    let middle := round.ledger.settle entity (round.ledger.familyParts levels entity)
    have step : round.commit entity (share entity) =
        { round with ledger := middle, report := round.report.addUpdated entity } := by
      have order := round.ledger.commit_perm entity (Ledger.familyParts_distinct own) first.symm
        Ledger.familyParts_leveled
      unfold commit
      rw [← order, Ledger.commit_familyParts fits]
    have isolation : middle.isolation = round.ledger.isolation :=
      (Ledger.settle_committed fits entity).isolation
    rw [List.foldl_cons, step, ih distinct (fits.settle entity) (by rw [isolation]; exact others)]
    · simp [Ledger.absorb_cons, Report.addUpdated, middle]
    -- The shares are from before the first commit, and still right for the families to come.
    · intro other mem
      have ne : other ≠ entity := fun same => fresh (same ▸ mem)
      rw [Ledger.familyParts_settle fits own (others other mem) ne]
      exact later other mem

namespace Ledger

variable {μ : Type} [Meter μ] {ledger : Ledger} {levels : Table Measure}

/-- A copy of all levels absorbs the levels that the meter offers. -/
theorem copyAll_absorbs [LawfulMeter μ] (consistent : ledger.Consistent)
    (serves : ledger.Serves levels) {meter : μ} (offers : Meter.Offers meter levels)
    (behind : Behind ledger.bulkBaselines ledger) (time : Nat) :
    ∃ after, ledger.copyAll meter time = {
          ledger := (ledger.absorb levels ledger.standing.keys).withBulk
            (ledger.rebase levels time).bulkBaselines
          meter := after
          report := {
            updated := ledger.standing.keys
            failures := ledger.widthFailures levels } } ∧
      Gauge.baselines after = Gauge.baselines meter := by
  have kept := LawfulMeter.baselines_readAll meter
  have shown := offers.readAll
  generalize reading_eq : Meter.readAll meter = reading at kept shown
  obtain ⟨_, after⟩ := reading
  cases shown
  refine ⟨after, ?_, kept⟩
  have rebased : ledger.rebase levels time =
      ledger.withBulk (ledger.rebase levels time).bulkBaselines := rfl
  let round : Round μ := {
    ledger := ledger.rebase levels time
    meter := after
    report := { failures := ledger.widthFailures levels } }
  have shares : ∀ entity ∈ ledger.standing.keys, (shareOf (ledger.assigned levels) entity).Perm
      (round.ledger.familyParts levels entity) := by
    intro entity mem
    have known := (ledger.standing.mem_keys entity).mp mem
    rw [shareOf_assigned]
    exact (showsFamily_sharedReadings consistent serves.fits known).perm behind
      (consistent.apart entity mem)
  rw [copyAll, reading_eq]
  simp only [recipients_eq consistent serves]
  have fits : round.ledger.Fits levels := serves.fits
  rw [← absorb_withBulk, ← rebased]
  exact Round.foldl_commit_absorbs (shareOf (ledger.assigned levels)) ledger.standing.keys_nodup
    fits consistent.apart shares

/-- After a copy of all levels its baselines are accounted for. -/
theorem Behind.rebase (behind : Behind ledger.bulkBaselines ledger)
    (consistent : ledger.Consistent) (serves : ledger.Serves levels) (time : Nat) :
    Behind (ledger.rebase levels time).bulkBaselines
      (ledger.absorb levels ledger.standing.keys) := by
  intro source i
  unfold Baselines.levelAt accountedAt
  by_cases shown : source ∈ levels
  · obtain ⟨level, found⟩ := Table.mem_iff.mp shown
    obtain ⟨entity, known, family⟩ := serves.only source shown
    let reading : Reading := ⟨.copyAll, source, level⟩
    have mem : reading ∈ levels.readings := Table.mem_readings.mpr ⟨rfl, found⟩
    have last : (ledger.rebase levels time).bulkBaselines.last? source = some level :=
      ledger.last?_rebase time mem (serves.fits source level found)
    have accounted := get?_accounted_absorb serves.fits consistent.apart
      ((ledger.standing.mem_keys entity).mpr known) family found
    rw [last, accounted]
  · have absent : ∀ reading ∈ levels.readings, reading.source ≠ source := by
      rintro reading mem rfl
      exact shown (Table.mem_iff.mpr ⟨_, (Table.mem_readings.mp mem).2⟩)
    rw [ledger.last?_rebase_of_absent time absent]
    rcases get?_accounted_absorb_cases serves.fits consistent.apart source with
      same | ⟨level, found, _⟩
    · rw [same]
      exact behind source i
    · exact absurd (Table.mem_iff.mpr ⟨level, found⟩) shown

end Ledger

end UsageLedger
