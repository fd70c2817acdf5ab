import Mathlib.Data.List.Nodup
import UsageLedger.Proofs.Commit

/-!
Taking a whole-system reading apart. Each accepted reading goes to at most one entity, the one that
answers for its source, and all that is not spoiled is credited.
-/

namespace UsageLedger

namespace Table

theorem mem_readings {levels : Table Measure} {reading : Reading} :
    reading ∈ levels.readings ↔
      reading.path = .copyAll ∧ levels.get? reading.source = some reading.level := by
  obtain ⟨path, source, level⟩ := reading
  rw [readings, List.mem_map, ← mem_entries_iff]
  constructor
  · rintro ⟨entry, mem, eq⟩
    cases eq
    exact ⟨rfl, mem⟩
  · rintro ⟨rfl, mem⟩
    exact ⟨(source, level), mem, rfl⟩

theorem readings_sources (levels : Table Measure) :
    levels.readings.map Reading.source = levels.keys := by
  rw [readings, List.map_map]
  rfl

theorem readings_distinct (levels : Table Measure) :
    (levels.readings.map Reading.source).Nodup := by
  rw [readings_sources]
  exact levels.keys_nodup

theorem readings_nodup (levels : Table Measure) : levels.readings.Nodup :=
  levels.readings_distinct.of_map _

theorem eq_of_mem_readings {levels : Table Measure} {reading other : Reading}
    (mem : reading ∈ levels.readings) (mem' : other ∈ levels.readings)
    (same : reading.source = other.source) : reading = other := by
  obtain ⟨path, found⟩ := mem_readings.mp mem
  obtain ⟨path', found'⟩ := mem_readings.mp mem'
  obtain ⟨_, source, level⟩ := reading
  obtain ⟨_, _, level'⟩ := other
  cases path
  cases path'
  cases same
  cases Option.some.inj (found.symm.trans found')
  rfl

end Table

namespace Ledger

theorem mem_accepted_readings {ledger : Ledger} {levels : Table Measure} {reading : Reading} :
    reading ∈ (ledger.accepted levels).readings ↔
      reading ∈ levels.readings ∧ reading.level.length = ledger.store.width := by
  rw [Table.mem_readings, Table.mem_readings, accepted, Table.get?_filter,
    Option.filter_eq_some_iff]
  simp [and_assoc]

theorem ownerOf_of_recipient? {ledger : Ledger} {levels : Table Measure} {source entity : Nat}
    (h : ledger.recipient? levels source = some entity) :
    ledger.isolation.ownerOf source = entity := by
  unfold recipient? at h
  split at h
  next none => simpa [Isolation.ownerOf, none] using h
  next parent some =>
    split at h
    · simpa [Isolation.ownerOf, some] using h
    · contradiction

theorem recipient?_eq_none {ledger : Ledger} {levels : Table Measure} {source : Nat}
    (h : ledger.recipient? levels source = none) :
    ∃ parent, ledger.isolation.parentOf source = some parent ∧
      parent ∉ ledger.standing ∧ parent ∉ levels := by
  unfold recipient? at h
  split at h
  next => contradiction
  next parent child =>
    split at h
    · contradiction
    next apart =>
      rw [not_or] at apart
      exact ⟨parent, child, apart⟩

/-- The accepted readings whose usage goes to the entity. -/
def sharedReadings (ledger : Ledger) (levels : Table Measure) (entity : Nat) : List Reading :=
  (ledger.accepted levels).readings.filter fun reading =>
    ledger.recipient? (ledger.accepted levels) reading.source = some entity

theorem mem_sharedReadings {ledger : Ledger} {levels : Table Measure} {entity : Nat}
    {reading : Reading} : reading ∈ ledger.sharedReadings levels entity ↔
      (reading ∈ levels.readings ∧ reading.level.length = ledger.store.width) ∧
        ledger.recipient? (ledger.accepted levels) reading.source = some entity := by
  rw [sharedReadings, List.mem_filter, mem_accepted_readings, decide_eq_true_iff]

theorem assigned_eq (ledger : Ledger) (levels : Table Measure) :
    ledger.assigned levels = (ledger.accepted levels).readings.filterMap fun reading =>
      (ledger.recipient? (ledger.accepted levels) reading.source).map fun entity =>
        (entity, ledger.credit ledger.bulkBaselines reading) := by
  have parts : ledger.contributions (ledger.accepted levels) =
      (ledger.accepted levels).readings.map (ledger.credit ledger.bulkBaselines) := by
    rw [contributions, Table.readings, List.map_map]
    rfl
  simp only [assigned, parts, List.filterMap_map]
  rfl

theorem shareOf_filterMap (readings : List Reading) (recipient : Reading → Option Nat)
    (part : Reading → Contribution) (entity : Nat) :
    shareOf (readings.filterMap fun reading =>
        (recipient reading).map fun other => (other, part reading)) entity =
      (readings.filter fun reading => recipient reading = some entity).map part := by
  induction readings with
  | nil => rfl
  | cons reading rest ih =>
    cases goes : recipient reading with
    | none => simpa [goes] using ih
    | some other =>
      by_cases same : other = entity
      · simpa [goes, same, shareOf] using ih
      · simpa [goes, same, shareOf] using ih

theorem shareOf_assigned (ledger : Ledger) (levels : Table Measure) (entity : Nat) :
    shareOf (ledger.assigned levels) entity =
      (ledger.sharedReadings levels entity).map (ledger.credit ledger.bulkBaselines) := by
  rw [assigned_eq, shareOf_filterMap _ fun reading : Reading =>
    ledger.recipient? (ledger.accepted levels) reading.source]
  rfl

theorem length_of_mem_share {ledger : Ledger} {levels : Table Measure} {entity : Nat}
    {part : Contribution} (mem : part ∈ shareOf (ledger.assigned levels) entity) :
    part.gain.length = ledger.store.width := by
  rw [shareOf_assigned] at mem
  obtain ⟨reading, shared, rfl⟩ := List.mem_map.mp mem
  rw [length_credit_gain]
  exact (mem_sharedReadings.mp shared).1.2

theorem mem_recipients {parts : List (Nat × Contribution)} {spoiled : KeySet} {entity : Nat} :
    entity ∈ recipients parts spoiled ↔ (∃ part, (entity, part) ∈ parts) ∧ entity ∉ spoiled := by
  rw [recipients, List.mem_filter, Table.mem_keys, KeySet.mem_addAll]
  simp [Table.mem_iff]

theorem recipients_ascending (parts : List (Nat × Contribution)) (spoiled : KeySet) :
    (recipients parts spoiled).Pairwise (· < ·) :=
  (Table.keys_ascending _).filter _

theorem recipients_nodup (parts : List (Nat × Contribution)) (spoiled : KeySet) :
    (recipients parts spoiled).Nodup :=
  (recipients_ascending parts spoiled).imp fun lt => Nat.ne_of_lt lt

theorem mem_recipients_assigned {ledger : Ledger} {levels : Table Measure} {entity : Nat} :
    entity ∈ recipients (ledger.assigned levels) (ledger.spoiled levels) ↔
      (∃ reading, reading ∈ ledger.sharedReadings levels entity) ∧
        entity ∉ ledger.spoiled levels := by
  rw [mem_recipients, assigned_eq]
  apply and_congr_left'
  constructor
  · rintro ⟨part, mem⟩
    obtain ⟨reading, accepted, eq⟩ := List.mem_filterMap.mp mem
    obtain ⟨other, goes, eq⟩ := Option.map_eq_some_iff.mp eq
    cases eq
    exact ⟨reading, mem_sharedReadings.mpr ⟨mem_accepted_readings.mp accepted, goes⟩⟩
  · rintro ⟨reading, mem⟩
    obtain ⟨mem, goes⟩ := List.mem_filter.mp mem
    refine ⟨ledger.credit ledger.bulkBaselines reading, List.mem_filterMap.mpr ⟨reading, mem, ?_⟩⟩
    rw [of_decide_eq_true goes]
    rfl

theorem mem_spoiled {ledger : Ledger} {levels : Table Measure} {entity : Nat} :
    entity ∈ ledger.spoiled levels ↔ ∃ reading ∈ levels.readings,
      ledger.isolation.ownerOf reading.source = entity ∧
        reading.level.length ≠ ledger.store.width := by
  rw [spoiled, KeySet.mem_addAll]
  simp only [List.mem_map, Table.mem_keys, rejected]
  constructor
  · rintro (⟨source, mem, rfl⟩ | absurd)
    · obtain ⟨level, found⟩ := Table.mem_iff.mp mem
      rw [Table.get?_filter, Option.filter_eq_some_iff] at found
      exact ⟨⟨.copyAll, source, level⟩, Table.mem_readings.mpr ⟨rfl, found.1⟩, rfl,
        by simpa using found.2⟩
    · simp [Table.mem_iff] at absurd
  · rintro ⟨reading, mem, owner, width⟩
    refine .inl ⟨reading.source, Table.mem_iff.mpr ⟨reading.level, ?_⟩, owner⟩
    rw [Table.get?_filter, Option.filter_eq_some_iff]
    exact ⟨(Table.mem_readings.mp mem).2, by simpa using width⟩

/-- The readings that a copy of all levels credits, entity by entity. -/
def creditedReadings (ledger : Ledger) (levels : Table Measure) : List Reading :=
  (recipients (ledger.assigned levels) (ledger.spoiled levels)).flatMap
    (ledger.sharedReadings levels)

theorem mem_creditedReadings {ledger : Ledger} {levels : Table Measure} {reading : Reading} :
    reading ∈ ledger.creditedReadings levels ↔
      ∃ entity, reading ∈ ledger.sharedReadings levels entity ∧
        entity ∉ ledger.spoiled levels := by
  rw [creditedReadings, List.mem_flatMap]
  constructor
  · rintro ⟨entity, mem, shared⟩
    exact ⟨entity, shared, (mem_recipients_assigned.mp mem).2⟩
  · rintro ⟨entity, shared, clean⟩
    exact ⟨entity, mem_recipients_assigned.mpr ⟨⟨reading, shared⟩, clean⟩, shared⟩

theorem read_of_mem_creditedReadings {ledger : Ledger} {levels : Table Measure} {reading : Reading}
    (mem : reading ∈ ledger.creditedReadings levels) :
    reading ∈ levels.readings ∧ reading.level.length = ledger.store.width := by
  obtain ⟨entity, shared, -⟩ := mem_creditedReadings.mp mem
  exact (mem_sharedReadings.mp shared).1

theorem creditedReadings_nodup (ledger : Ledger) (levels : Table Measure) :
    (ledger.creditedReadings levels).Nodup := by
  apply List.nodup_flatMap.mpr
  constructor
  · intro entity _
    exact ((ledger.accepted levels).readings_nodup).filter _
  · apply (recipients_nodup _ _).imp
    intro entity other ne reading mem mem'
    have goes := (mem_sharedReadings.mp mem).2
    have goes' := (mem_sharedReadings.mp mem').2
    exact ne (Option.some.inj (goes.symm.trans goes'))

theorem creditedReadings_distinct (ledger : Ledger) (levels : Table Measure) :
    ((ledger.creditedReadings levels).map Reading.source).Nodup := by
  apply List.Nodup.map_on _ (ledger.creditedReadings_nodup levels)
  intro reading mem other mem' same
  exact Table.eq_of_mem_readings (read_of_mem_creditedReadings mem).1
    (read_of_mem_creditedReadings mem').1 same

/-- Why a reading of a whole-system reading is not credited. -/
theorem not_mem_creditedReadings {ledger : Ledger} {levels : Table Measure} {reading : Reading}
    (mem : reading ∈ levels.readings) (rest : reading ∉ ledger.creditedReadings levels) :
    (∃ wrong ∈ levels.readings,
      ledger.isolation.ownerOf wrong.source = ledger.isolation.ownerOf reading.source ∧
        wrong.level.length ≠ ledger.store.width) ∨
    ∃ parent, ledger.isolation.parentOf reading.source = some parent ∧
      parent ∉ ledger.standing ∧ ∀ other ∈ levels.readings, other.source = parent →
        other.level.length ≠ ledger.store.width := by
  by_cases width : reading.level.length = ledger.store.width
  · cases goes : ledger.recipient? (ledger.accepted levels) reading.source with
    | some entity =>
      have shared : reading ∈ ledger.sharedReadings levels entity :=
        mem_sharedReadings.mpr ⟨⟨mem, width⟩, goes⟩
      have spoiled : entity ∈ ledger.spoiled levels := by
        by_contra clean
        exact rest (mem_creditedReadings.mpr ⟨entity, shared, clean⟩)
      obtain ⟨wrong, mem', owner, width'⟩ := mem_spoiled.mp spoiled
      exact .inl ⟨wrong, mem', owner.trans (ownerOf_of_recipient? goes).symm, width'⟩
    | none =>
      obtain ⟨parent, child, unknown, unread⟩ := recipient?_eq_none goes
      refine .inr ⟨parent, child, unknown, ?_⟩
      rintro other mem' rfl width'
      have read := (Table.mem_readings.mp (mem_accepted_readings.mpr ⟨mem', width'⟩)).2
      exact unread (Table.mem_iff.mpr ⟨_, read⟩)
  · exact .inl ⟨reading, mem, rfl, width⟩

end Ledger

end UsageLedger
