import Mathlib.Data.List.Sort
import UsageLedger.Proofs.Consistency

/-!
What an update makes of a set of levels. If every known entity is shown, and nothing but known
entities and entities isolated under them, then either path credits to each family how far its
levels lie above the accounted ones.
-/

namespace UsageLedger

namespace Ledger

/-- Whatever the baselines show of a source has been accounted for. -/
def Behind (baselines : Baselines) (ledger : Ledger) : Prop :=
  ∀ source i, baselines.levelAt source i ≤ ledger.accountedAt source i

/-- How far a level lies above the accounted one. -/
def remainder (ledger : Ledger) (source : Nat) (level : Measure) : Contribution where
  source
  gain := level.since ((ledger.accounted.get? source).getD [])
  level := some level

theorem credit_eq_remainder {ledger : Ledger} {baselines : Baselines}
    (behind : Behind baselines ledger) (reading : Reading) :
    ledger.credit baselines reading = ledger.remainder reading.source reading.level := by
  have gain : (ledger.credit baselines reading).gain =
      (ledger.remainder reading.source reading.level).gain := by
    apply Measure.ext_amountAt
    · simp [remainder]
    · intro i
      have le := behind reading.source i
      have above : (ledger.remainder reading.source reading.level).gain.amountAt i =
          reading.level.amountAt i - ledger.accountedAt reading.source i :=
        Measure.amountAt_since _ _ i
      rw [amountAt_credit_gain, above]
      omega
  calc ledger.credit baselines reading
      = ⟨reading.source, (ledger.credit baselines reading).gain, some reading.level⟩ := rfl
    _ = ledger.remainder reading.source reading.level := by rw [gain]; rfl

/-- What the levels add to the accounted ones within a family. -/
def familyParts (ledger : Ledger) (levels : Table Measure) (entity : Nat) : List Contribution :=
  (ledger.isolation.family entity).filterMap fun source =>
    (levels.get? source).map (ledger.remainder source)

/-- The readings are what the levels show of a family. -/
structure ShowsFamily (ledger : Ledger) (levels : Table Measure) (entity : Nat)
    (taken : List Reading) : Prop where
  distinct : (taken.map Reading.source).Nodup
  family : ∀ reading ∈ taken, reading.source ∈ ledger.isolation.family entity
  shown : ∀ reading ∈ taken, levels.get? reading.source = some reading.level
  complete : ∀ source ∈ ledger.isolation.family entity, source ∈ levels →
    ∃ reading ∈ taken, reading.source = source

theorem familyParts_source {ledger : Ledger} {levels : Table Measure} {entity : Nat}
    {part : Contribution} (mem : part ∈ ledger.familyParts levels entity) :
    part.source ∈ ledger.isolation.family entity ∧ ∃ level,
      levels.get? part.source = some level ∧ part = ledger.remainder part.source level := by
  obtain ⟨source, member, eq⟩ := List.mem_filterMap.mp mem
  obtain ⟨level, found, rfl⟩ := Option.map_eq_some_iff.mp eq
  exact ⟨member, level, found, rfl⟩

/-- The parts of a family depend on the accounted levels of its shown sources only. -/
theorem familyParts_congr {ledger other : Ledger} {levels : Table Measure} {entity : Nat}
    (isolation : other.isolation = ledger.isolation)
    (accounted : ∀ source ∈ ledger.isolation.family entity,
      other.accounted.get? source = ledger.accounted.get? source) :
    other.familyParts levels entity = ledger.familyParts levels entity := by
  unfold familyParts remainder
  rw [isolation]
  apply List.filterMap_congr
  intro source family
  rw [accounted source family]

theorem familyParts_leveled {ledger : Ledger} {levels : Table Measure} {entity : Nat} :
    ∀ part ∈ ledger.familyParts levels entity, part.level ≠ none := by
  intro part mem
  obtain ⟨_, level, _, eq⟩ := familyParts_source mem
  rw [eq]
  exact Option.some_ne_none level

theorem familyParts_nodup {ledger : Ledger} {levels : Table Measure} {entity : Nat}
    (apart : ¬ ledger.isolation.IsChild entity) : (ledger.familyParts levels entity).Nodup := by
  apply (Isolation.family_nodup apart).filterMap
  intro source other part first second
  obtain ⟨level, _, rfl⟩ := Option.map_eq_some_iff.mp first
  obtain ⟨level', _, eq⟩ := Option.map_eq_some_iff.mp second
  exact (congrArg Contribution.source eq).symm

/-- However a family is read, its credits are the same up to their order. -/
theorem ShowsFamily.perm {ledger : Ledger} {levels : Table Measure} {entity : Nat}
    {taken : List Reading} (h : ledger.ShowsFamily levels entity taken) {baselines : Baselines}
    (behind : Behind baselines ledger) (apart : ¬ ledger.isolation.IsChild entity) :
    (taken.map (ledger.credit baselines)).Perm (ledger.familyParts levels entity) := by
  have distinct : (taken.map (ledger.credit baselines)).Nodup := by
    apply List.Nodup.of_map Contribution.source
    rw [List.map_map]
    exact h.distinct
  apply (List.perm_ext_iff_of_nodup distinct (familyParts_nodup apart)).mpr
  intro part
  constructor
  · intro mem
    obtain ⟨reading, member, rfl⟩ := List.mem_map.mp mem
    rw [credit_eq_remainder behind]
    exact List.mem_filterMap.mpr ⟨reading.source, h.family reading member,
      by rw [h.shown reading member]; rfl⟩
  · intro mem
    obtain ⟨family, level, found, eq⟩ := familyParts_source mem
    obtain ⟨reading, member, same⟩ := h.complete part.source family
      (Table.mem_iff.mpr ⟨level, found⟩)
    have level_eq := h.shown reading member
    rw [same, found] at level_eq
    refine List.mem_map.mpr ⟨reading, member, ?_⟩
    rw [credit_eq_remainder behind, eq, same, ← Option.some.inj level_eq]

theorem ShowsFamily.commit_eq {ledger : Ledger} {levels : Table Measure} {entity : Nat}
    {taken : List Reading} (h : ledger.ShowsFamily levels entity taken) {baselines : Baselines}
    (behind : Behind baselines ledger) (apart : ¬ ledger.isolation.IsChild entity) :
    ledger.commit entity (taken.map (ledger.credit baselines)) =
      ledger.commit entity (ledger.familyParts levels entity) := by
  apply ledger.commit_perm entity _ (h.perm behind apart)
  · intro part mem
    obtain ⟨reading, _, rfl⟩ := List.mem_map.mp mem
    simp [credit]
  · rw [List.map_map]
    exact h.distinct

/-- The ledger after crediting the parts to the entity. -/
def settle (ledger : Ledger) (entity : Nat) (parts : List Contribution) : Ledger :=
  match ledger.commit entity parts with
  | .ok after => after
  | .error _ => ledger

/-- The ledger after crediting family by family how far the levels lie above the accounted ones. -/
def absorb (ledger : Ledger) (levels : Table Measure) (entities : List Nat) : Ledger :=
  entities.foldl (fun ledger entity => ledger.settle entity (ledger.familyParts levels entity))
    ledger

theorem absorb_cons (ledger : Ledger) (levels : Table Measure) (entity : Nat)
    (rest : List Nat) : ledger.absorb levels (entity :: rest) =
      (ledger.settle entity (ledger.familyParts levels entity)).absorb levels rest := rfl

theorem settle_withBulk (ledger : Ledger) (baselines : Baselines) (entity : Nat)
    (parts : List Contribution) : (ledger.withBulk baselines).settle entity parts =
      (ledger.settle entity parts).withBulk baselines := by
  unfold settle
  rw [commit_withBulk]
  cases ledger.commit entity parts <;> rfl

theorem absorb_withBulk (ledger : Ledger) (baselines : Baselines) (levels : Table Measure)
    (entities : List Nat) : (ledger.withBulk baselines).absorb levels entities =
      (ledger.absorb levels entities).withBulk baselines := by
  induction entities generalizing ledger with
  | nil => rfl
  | cons entity rest ih =>
    rw [absorb_cons, settle_withBulk, ih]
    rfl

theorem bulkBaselines_absorb (ledger : Ledger) (levels : Table Measure) (entities : List Nat) :
    (ledger.absorb levels entities).bulkBaselines = ledger.bulkBaselines := by
  have same := congrArg bulkBaselines
    (ledger.absorb_withBulk ledger.bulkBaselines levels entities)
  exact same

/-- All levels are of the width of the ledger. -/
def Fits (ledger : Ledger) (levels : Table Measure) : Prop :=
  ∀ source level, levels.get? source = some level → level.length = ledger.store.width

section Settle

variable {ledger : Ledger} {levels : Table Measure} {entity : Nat}

theorem familyParts_widths (fits : ledger.Fits levels) :
    ∀ part ∈ ledger.familyParts levels entity, part.gain.length = ledger.store.width := by
  intro part mem
  obtain ⟨_, level, found, eq⟩ := familyParts_source mem
  rw [eq, ← fits part.source level found]
  exact Measure.length_since _ _

theorem commit_familyParts (fits : ledger.Fits levels) (entity : Nat) :
    ledger.commit entity (ledger.familyParts levels entity) =
      .ok (ledger.settle entity (ledger.familyParts levels entity)) := by
  obtain ⟨after, success⟩ := commit_isOk entity (familyParts_widths fits)
  rw [settle, success]

theorem settle_committed (fits : ledger.Fits levels) (entity : Nat) :
    Committed ledger entity (ledger.familyParts levels entity)
      (ledger.settle entity (ledger.familyParts levels entity)) :=
  committed_of_commit (commit_familyParts fits entity)

theorem familyParts_distinct (apart : ¬ ledger.isolation.IsChild entity) :
    ((ledger.familyParts levels entity).map Contribution.source).Nodup := by
  apply List.Nodup.map_on _ (familyParts_nodup apart)
  intro part mem other mem' same
  obtain ⟨_, level, found, eq⟩ := familyParts_source mem
  obtain ⟨_, level', found', eq'⟩ := familyParts_source mem'
  rw [same, found'] at found
  rw [eq, eq', same, Option.some.inj found]

/-- A level that is shown of the family is accounted for. -/
theorem get?_accounted_settle (fits : ledger.Fits levels)
    (apart : ¬ ledger.isolation.IsChild entity) {source : Nat} {level : Measure}
    (family : source ∈ ledger.isolation.family entity)
    (found : levels.get? source = some level) :
    (ledger.settle entity (ledger.familyParts levels entity)).accounted.get? source =
      some level := by
  have part : ledger.remainder source level ∈ ledger.familyParts levels entity :=
    List.mem_filterMap.mpr ⟨source, family, by rw [found]; rfl⟩
  rw [(settle_committed fits entity).accounted]
  exact get?_account_of_mem (familyParts_distinct apart) part rfl

theorem get?_accounted_settle_of_absent (fits : ledger.Fits levels) {source : Nat}
    (absent : source ∈ ledger.isolation.family entity → source ∉ levels) :
    (ledger.settle entity (ledger.familyParts levels entity)).accounted.get? source =
      ledger.accounted.get? source := by
  rw [(settle_committed fits entity).accounted]
  apply get?_account_of_not_mem
  rintro part mem rfl
  obtain ⟨family, level, found, _⟩ := familyParts_source mem
  exact absent family (Table.mem_iff.mpr ⟨level, found⟩)

theorem Fits.settle (fits : ledger.Fits levels) (entity : Nat) :
    (ledger.settle entity (ledger.familyParts levels entity)).Fits levels := by
  intro source level found
  rw [(settle_committed fits entity).width]
  exact fits source level found

end Settle

section Absorb

variable {ledger : Ledger} {levels : Table Measure} {entities : List Nat}

theorem Consistent.absorb (h : ledger.Consistent) (fits : ledger.Fits levels)
    (known : ∀ entity ∈ entities, entity ∈ ledger.standing) :
    (ledger.absorb levels entities).Consistent := by
  induction entities generalizing ledger with
  | nil => exact h
  | cons entity rest ih =>
    obtain ⟨first, others⟩ := List.forall_mem_cons.mp known
    have committed := settle_committed fits entity
    apply ih (committed.consistent h (h.known entity first)) (fits.settle entity)
    exact fun other mem => (committed.known other).mpr (.inr (others other mem))

/-- An accounted level is as before, or the level that is shown. -/
theorem get?_accounted_absorb_cases (fits : ledger.Fits levels)
    (apart : ∀ entity ∈ entities, ¬ ledger.isolation.IsChild entity) (source : Nat) :
    (ledger.absorb levels entities).accounted.get? source = ledger.accounted.get? source ∨
      ∃ level, levels.get? source = some level ∧
        (ledger.absorb levels entities).accounted.get? source = some level := by
  induction entities generalizing ledger with
  | nil => exact .inl rfl
  | cons entity rest ih =>
    obtain ⟨first, others⟩ := List.forall_mem_cons.mp apart
    rw [absorb_cons]
    have later := ih (fits.settle entity)
      (by rw [(settle_committed fits entity).isolation]; exact others)
    rcases later with same | shown
    · by_cases read : source ∈ ledger.isolation.family entity ∧ source ∈ levels
      · obtain ⟨level, found⟩ := Table.mem_iff.mp read.2
        exact .inr ⟨level, found, same.trans (get?_accounted_settle fits first read.1 found)⟩
      · exact .inl (same.trans (get?_accounted_settle_of_absent fits (not_and.mp read)))
    · exact .inr shown

/-- Whatever is shown of a family that was taken up is accounted for. -/
theorem get?_accounted_absorb (fits : ledger.Fits levels)
    (apart : ∀ entity ∈ entities, ¬ ledger.isolation.IsChild entity) {entity source : Nat}
    {level : Measure} (mem : entity ∈ entities)
    (family : source ∈ ledger.isolation.family entity)
    (found : levels.get? source = some level) :
    (ledger.absorb levels entities).accounted.get? source = some level := by
  induction entities generalizing ledger with
  | nil => simp at mem
  | cons first rest ih =>
    obtain ⟨own, others⟩ := List.forall_mem_cons.mp apart
    have isolation := (settle_committed fits first).isolation
    have later : ∀ entity ∈ rest, ¬ (ledger.settle first
        (ledger.familyParts levels first)).isolation.IsChild entity := by
      rw [isolation]
      exact others
    rw [absorb_cons]
    rcases List.mem_cons.mp mem with rfl | mem
    -- Later families leave the level as it is, or account for the same level again.
    · rcases get?_accounted_absorb_cases (fits.settle entity) later source with
        same | ⟨shown, found', result⟩
      · exact same.trans (get?_accounted_settle fits own family found)
      · rw [result, ← found, found']
    · exact ih (fits.settle first) later mem (by rw [isolation]; exact family)

end Absorb

end Ledger

end UsageLedger
