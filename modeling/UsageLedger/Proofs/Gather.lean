import UsageLedger.Session
import UsageLedger.Proofs.Commit

/-!
Reading a family. An entity and its isolated entities are read in turn, each at most once, and the
readings contribute what they gained since the baselines before the first of them.
-/

namespace UsageLedger

namespace Recorder

variable {μ : Type} [Meter μ]

/-- Between the two states, readings of distinct sources were taken one by one. -/
structure Took (before : Recorder μ) (taken : List Reading) (after : Recorder μ) : Prop where
  readings : after.readings = before.readings ++ taken
  path : ∀ reading ∈ taken, reading.path = .tick
  distinct : (taken.map Reading.source).Nodup
  last : ∀ reading ∈ taken,
    (Gauge.baselines after).last? reading.source = some reading.level
  kept : ∀ source, (∀ reading ∈ taken, reading.source ≠ source) →
    (Gauge.baselines after).last? source = (Gauge.baselines before).last? source
  offered : ∀ levels, Meter.Offers before.meter levels → Meter.Offers after.meter levels ∧
    ∀ reading ∈ taken, levels.get? reading.source = some reading.level

theorem Took.nothing (recorder : Recorder μ) : recorder.Took [] recorder where
  readings := (List.append_nil _).symm
  path := by simp
  distinct := List.nodup_nil
  last := by simp
  kept _ _ := rfl
  offered _ offers := ⟨offers, by simp⟩

/-- Every one of the sources that the meter offers a level of was read. -/
def Exhausts (recorder : Recorder μ) (sources : List Nat) (taken : List Reading) : Prop :=
  ∀ levels, Meter.Offers recorder.meter levels → ∀ source ∈ sources, source ∈ levels →
    ∃ reading ∈ taken, reading.source = source

/-- No source of the one list is a source of the other. -/
def Apart (first second : List Reading) : Prop :=
  ∀ reading ∈ first, ∀ other ∈ second, other.source ≠ reading.source

theorem Apart.of_not_mem {reading : Reading} {rest : List Nat} {others : List Reading}
    (absent : reading.source ∉ rest) (sources : ∀ other ∈ others, other.source ∈ rest) :
    Apart [reading] others := by
  intro one mem other mem' eq
  rw [List.mem_singleton.mp mem] at eq
  exact absent (eq ▸ sources other mem')

theorem Took.append {first middle after : Recorder μ} {early late : List Reading}
    (head : first.Took early middle) (tail : middle.Took late after) (apart : Apart early late) :
    first.Took (early ++ late) after where
  readings := by rw [tail.readings, head.readings, List.append_assoc]
  path := by
    intro reading mem
    rcases List.mem_append.mp mem with mem | mem
    · exact head.path reading mem
    · exact tail.path reading mem
  distinct := by
    rw [List.map_append]
    apply List.nodup_append.mpr
    refine ⟨head.distinct, tail.distinct, ?_⟩
    intro source mem other mem' eq
    obtain ⟨reading, first, rfl⟩ := List.mem_map.mp mem
    obtain ⟨later, second, rfl⟩ := List.mem_map.mp mem'
    exact apart reading first later second eq.symm
  last := by
    intro reading mem
    rcases List.mem_append.mp mem with mem | mem
    · rw [tail.kept reading.source (apart reading mem)]
      exact head.last reading mem
    · exact tail.last reading mem
  kept := by
    intro source absent
    rw [tail.kept source fun reading mem => absent reading (List.mem_append_right _ mem)]
    exact head.kept source fun reading mem => absent reading (List.mem_append_left _ mem)
  offered := by
    intro levels offers
    obtain ⟨middle, early⟩ := head.offered levels offers
    obtain ⟨last, late⟩ := tail.offered levels middle
    exact ⟨last, fun reading mem => (List.mem_append.mp mem).elim (early reading) (late reading)⟩

theorem Exhausts.cons {first middle : Recorder μ} {early late : List Reading} {source : Nat}
    {rest : List Nat} (took : first.Took early middle) (head : first.Exhausts [source] early)
    (tail : middle.Exhausts rest late) : first.Exhausts (source :: rest) (early ++ late) := by
  intro levels offers other mem shown
  rcases List.mem_cons.mp mem with rfl | mem
  · obtain ⟨reading, mem, same⟩ := head levels offers other List.mem_cons_self shown
    exact ⟨reading, List.mem_append_left _ mem, same⟩
  · obtain ⟨reading, mem, same⟩ := tail levels (took.offered levels offers).1 other mem shown
    exact ⟨reading, List.mem_append_right _ mem, same⟩

/-- Earlier readings of other sources leave a credit as it is. -/
theorem Took.map_credit {first middle : Recorder μ} {early late : List Reading} (ledger : Ledger)
    (head : first.Took early middle) (apart : Apart early late) :
    late.map (ledger.credit (Gauge.baselines middle)) =
      late.map (ledger.credit (Gauge.baselines first)) := by
  apply List.map_congr_left
  intro reading mem
  apply Ledger.credit_congr rfl
  exact head.kept reading.source fun other mem' => (apart other mem' reading mem).symm

theorem exhausts_read (recorder : Recorder μ) (entity : Nat) (level : Measure) :
    recorder.Exhausts [entity] [⟨.tick, entity, level⟩] := by
  intro levels offers source mem shown
  exact ⟨⟨.tick, entity, level⟩, List.mem_cons_self, (List.mem_singleton.mp mem).symm⟩

variable [LawfulMeter μ]

/-- A reading is unavailable, or it is noted down and is the baseline from then on. -/
theorem readGain_cases (recorder : Recorder μ) (entity time : Nat) :
    (∃ after, Meter.readGain recorder entity time = (none, after) ∧ recorder.Took [] after ∧
      recorder.Exhausts [entity] []) ∨
    ∃ level after, Meter.readGain recorder entity time =
        (some ((Gauge.baselines recorder).gain entity level), after) ∧
      recorder.Took [⟨.tick, entity, level⟩] after := by
  have kept := LawfulMeter.baselines_readLevel recorder entity
  have noted : (Gauge.readLevel recorder entity).2.readings = recorder.readings ++
      ((Gauge.readLevel recorder entity).1.map (Reading.mk .tick entity)).toList := rfl
  have offered : ∀ levels, Meter.Offers recorder.meter levels →
      (Gauge.readLevel recorder entity).1 = levels.get? entity ∧
        Meter.Offers (Gauge.readLevel recorder entity).2.meter levels :=
    fun levels offers => offers.readLevel entity
  rw [LawfulMeter.readGain_eq, Gauge.readGain]
  generalize Gauge.readLevel recorder entity = reading at kept noted offered
  obtain ⟨level, after⟩ := reading
  cases level with
  | none =>
    refine .inl ⟨after, rfl, ?_, ?_⟩
    · exact ⟨noted, by simp, List.nodup_nil, by simp,
        fun source _ => congrArg (Baselines.last? · source) kept,
        fun levels offers => ⟨(offered levels offers).2, by simp⟩⟩
    · intro levels offers source mem shown
      obtain ⟨level, found⟩ := Table.mem_iff.mp shown
      rw [List.mem_singleton.mp mem, ← (offered levels offers).1] at found
      contradiction
  | some level =>
    let moved := (Gauge.baselines after).record entity level time
    refine .inr ⟨level, Gauge.withBaselines after moved, by rw [← kept], ?_⟩
    have recorded : Gauge.baselines (Gauge.withBaselines after moved) = moved :=
      LawfulMeter.baselines_withBaselines after moved
    refine ⟨noted, by simp, by simp, ?_, ?_, ?_⟩
    · simp [recorded, moved, Baselines.last?_record]
    · intro source apart
      have ne : source ≠ entity := Ne.symm (apart ⟨.tick, entity, level⟩ List.mem_cons_self)
      rw [recorded, Baselines.last?_record, if_neg ne]
      exact congrArg (Baselines.last? · source) kept
    · intro levels offers
      obtain ⟨shown, still⟩ := offered levels offers
      exact ⟨still.withBaselines moved, by simpa using shown.symm⟩

end Recorder

namespace Isolation

/-- An entity with its isolated entities, in the order they are read. -/
def family (isolation : Isolation) (entity : Nat) : List Nat :=
  entity :: isolation.childrenOf entity

theorem family_nodup {isolation : Isolation} {entity : Nat} (apart : ¬ isolation.IsChild entity) :
    (isolation.family entity).Nodup := by
  apply List.nodup_cons.mpr
  refine ⟨?_, Table.keys_nodup _⟩
  rw [mem_childrenOf, (isolation.parentOf_eq_none_iff entity).mpr apart]
  simp

theorem ownerOf_of_mem_family {isolation : Isolation} {entity source : Nat}
    (apart : ¬ isolation.IsChild entity) (mem : source ∈ isolation.family entity) :
    isolation.ownerOf source = entity := by
  rcases List.mem_cons.mp mem with rfl | child
  · simp [ownerOf, (isolation.parentOf_eq_none_iff source).mpr apart]
  · simp [ownerOf, (isolation.mem_childrenOf entity source).mp child]

end Isolation

namespace Ledger

variable {μ : Type} [Meter μ]

theorem not_isChild_of_mem_targets {ledger : Ledger} {entity : Nat}
    (mem : entity ∈ ledger.targets) : ¬ ledger.isolation.IsChild entity :=
  of_decide_eq_true (List.mem_filter.mp mem).2

theorem contribution_eq_credit (ledger : Ledger) (baselines : Baselines) {meter : μ}
    {reading : Reading}
    (last : (Gauge.baselines meter).last? reading.source = some reading.level) :
    ledger.contribution meter reading.source (baselines.gain reading.source reading.level) =
      ledger.credit baselines reading := by
  unfold contribution credit
  rw [last]

/-- The gain of a reading has the width of its level. -/
theorem checkWidth_gain (store : Store) (baselines : Baselines) (source : Nat) (level : Measure) :
    store.checkWidth source (baselines.gain source level) =
      if level.length = store.width then .ok ()
      else .error (.width source store.width level.length) := by
  rw [Store.checkWidth, Baselines.gain, Measure.length_since]

/-- A reading that comes first contributes, and leaves the credits of the later ones as they are. -/
theorem map_credit_cons {first middle : Recorder μ} {reading : Reading}
    {taken : List Reading} (ledger : Ledger) (head : first.Took [reading] middle)
    (apart : Recorder.Apart [reading] taken) :
    (reading :: taken).map (ledger.credit (Gauge.baselines first)) =
      ledger.contribution middle reading.source
          ((Gauge.baselines first).gain reading.source reading.level) ::
        taken.map (ledger.credit (Gauge.baselines middle)) := by
  rw [List.map_cons, head.map_credit ledger apart,
    ledger.contribution_eq_credit _ (head.last reading List.mem_cons_self)]

variable [LawfulMeter μ]

/-- The readings taken contribute unless one of them has a wrong width. The credits can be counted
from the first state because no source is read twice. -/
theorem gatherChildren_took (ledger : Ledger) (time : Nat) {children : List Nat}
    (distinct : children.Nodup) (recorder : Recorder μ) :
    ∃ taken after, recorder.Took taken after ∧ (∀ reading ∈ taken, reading.source ∈ children) ∧
      ((∀ reading ∈ taken, reading.level.length = ledger.store.width) ∧
        recorder.Exhausts children taken ∧ ledger.gatherChildren time children recorder =
          (.ok (taken.map (ledger.credit (Gauge.baselines recorder))), after) ∨
      (∃ reading ∈ taken, reading.level.length ≠ ledger.store.width) ∧
        ∃ fault, ledger.gatherChildren time children recorder = (.error fault, after)) := by
  -- The recorder changes with each reading, but its baselines only for the source that was read.
  induction children generalizing recorder with
  | nil =>
    exact ⟨[], recorder, .nothing recorder, by simp,
      .inl ⟨by simp, by simp [Recorder.Exhausts], rfl⟩⟩
  | cons child rest ih =>
    obtain ⟨absent, distinct⟩ := List.nodup_cons.mp distinct
    rw [gatherChildren]
    rcases recorder.readGain_cases child time with
      ⟨middle, read, head, unread⟩ | ⟨level, middle, read, head⟩
    · obtain ⟨taken, after, tail, sources, outcome⟩ := ih distinct middle
      have apart : Recorder.Apart [] taken := by simp [Recorder.Apart]
      refine ⟨taken, after, head.append tail apart, ?_, ?_⟩
      · exact fun reading mem => List.mem_cons_of_mem child (sources reading mem)
      · rw [read, ← head.map_credit ledger apart]
        rcases outcome with ⟨widths, exhausts, result⟩ | failed
        · exact .inl ⟨widths, .cons head unread exhausts, result⟩
        · exact .inr failed
    · let reading : Reading := ⟨.tick, child, level⟩
      have check := checkWidth_gain ledger.store (Gauge.baselines recorder) child level
      rw [read]
      by_cases width : level.length = ledger.store.width
      · obtain ⟨taken, after, tail, sources, outcome⟩ := ih distinct middle
        have apart : Recorder.Apart [reading] taken := .of_not_mem absent sources
        refine ⟨reading :: taken, after, head.append tail apart, ?_, ?_⟩
        · exact List.forall_mem_cons.mpr ⟨List.mem_cons_self,
            fun other mem => List.mem_cons_of_mem child (sources other mem)⟩
        · rw [if_pos width] at check
          rw [map_credit_cons ledger head apart]
          simp only [check]
          rcases outcome with ⟨widths, exhausts, result⟩ | ⟨⟨wrong, mem, bad⟩, fault, result⟩
          · exact .inl ⟨List.forall_mem_cons.mpr ⟨width, widths⟩,
              .cons head (recorder.exhausts_read child level) exhausts, by rw [result]⟩
          · exact .inr ⟨⟨wrong, List.mem_cons_of_mem _ mem, bad⟩, fault, by rw [result]⟩
      · rw [if_neg width] at check
        exact ⟨[reading], middle, head, by simp [reading],
          .inr ⟨⟨reading, List.mem_cons_self, width⟩, _, by simp only [check]; rfl⟩⟩

/-- What reading a family comes to: nothing if the entity itself has no reading, credits for all
readings taken, or a failure on account of a wrong width. -/
theorem gather_took (ledger : Ledger) {entity : Nat} (time : Nat)
    (apart : ¬ ledger.isolation.IsChild entity) (recorder : Recorder μ) :
    ∃ taken after, recorder.Took taken after ∧
      (∀ reading ∈ taken, reading.source ∈ ledger.isolation.family entity) ∧
      (taken = [] ∧ recorder.Exhausts [entity] [] ∧
        ledger.gather recorder entity time = (.unavailable, after) ∨
      (∃ reading ∈ taken, reading.source = entity) ∧
        ((∀ reading ∈ taken, reading.level.length = ledger.store.width) ∧
          recorder.Exhausts (ledger.isolation.family entity) taken ∧
          ledger.gather recorder entity time =
            (.complete (taken.map (ledger.credit (Gauge.baselines recorder))), after) ∨
        (∃ reading ∈ taken, reading.level.length ≠ ledger.store.width) ∧
          ∃ phase fault,
            ledger.gather recorder entity time = (.failed phase fault, after))) := by
  obtain ⟨absent, distinct⟩ := List.nodup_cons.mp (Isolation.family_nodup apart)
  rw [gather]
  rcases recorder.readGain_cases entity time with
    ⟨middle, read, head, unread⟩ | ⟨level, middle, read, head⟩
  · exact ⟨[], middle, head, by simp, .inl ⟨rfl, unread, by rw [read]⟩⟩
  · let reading : Reading := ⟨.tick, entity, level⟩
    have check := checkWidth_gain ledger.store (Gauge.baselines recorder) entity level
    rw [read]
    by_cases width : level.length = ledger.store.width
    · obtain ⟨taken, after, tail, sources, outcome⟩ :=
        ledger.gatherChildren_took time distinct middle
      have fresh : Recorder.Apart [reading] taken := .of_not_mem absent sources
      refine ⟨reading :: taken, after, head.append tail fresh, ?_,
        .inr ⟨⟨reading, List.mem_cons_self, rfl⟩, ?_⟩⟩
      · exact List.forall_mem_cons.mpr ⟨List.mem_cons_self,
          fun other mem => List.mem_cons_of_mem entity (sources other mem)⟩
      · rw [if_pos width] at check
        rw [map_credit_cons ledger head fresh]
        simp only [check]
        rcases outcome with ⟨widths, exhausts, result⟩ | ⟨⟨wrong, mem, bad⟩, fault, result⟩
        · exact .inl ⟨List.forall_mem_cons.mpr ⟨width, widths⟩,
            .cons head (recorder.exhausts_read entity level) exhausts, by rw [result]⟩
        · exact .inr ⟨⟨wrong, List.mem_cons_of_mem _ mem, bad⟩, .merging, fault, by rw [result]⟩
    · rw [if_neg width] at check
      exact ⟨[reading], middle, head, by simp [reading, Isolation.family],
        .inr ⟨⟨reading, List.mem_cons_self, rfl⟩,
          .inr ⟨⟨reading, List.mem_cons_self, width⟩, _, _, by simp only [check]; rfl⟩⟩⟩

end Ledger

end UsageLedger
