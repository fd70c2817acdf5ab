import Mathlib.Data.List.Chain
import UsageLedger.Proofs.Commit

namespace UsageLedger

/-- A level that a source showed at some time. -/
structure Sighting where
  source : Nat
  level : Measure
  time : Nat
deriving DecidableEq, Repr

/-- The levels that the source showed, in order. -/
def levelsOf (sightings : List Sighting) (source : Nat) : List Measure :=
  (sightings.filter fun sighting => sighting.source = source).map Sighting.level

/-- The sightings without those of the source. -/
def withoutSource (sightings : List Sighting) (source : Nat) : List Sighting :=
  sightings.filter fun sighting => sighting.source ≠ source

namespace Baselines

/-- What the source gained, and the baselines with its new level. -/
def advance (baselines : Baselines) (sighting : Sighting) : Measure × Baselines :=
  (baselines.gain sighting.source sighting.level,
    baselines.record sighting.source sighting.level sighting.time)

/-- The gains of sightings in turn, each with its source, and the baselines after all of them. -/
def advanceAll (baselines : Baselines) : List Sighting → List (Nat × Measure) × Baselines
  | [] => ([], baselines)
  | sighting :: rest =>
    let (gain, next) := baselines.advance sighting
    let (gains, last) := next.advanceAll rest
    ((sighting.source, gain) :: gains, last)

/-- The gains of the source, in order. -/
def gainsOf (baselines : Baselines) (sightings : List Sighting) (source : Nat) : List Measure :=
  ((baselines.advanceAll sightings).1.filter fun entry => entry.1 = source).map Prod.snd

def after (baselines : Baselines) (sightings : List Sighting) : Baselines :=
  (baselines.advanceAll sightings).2

section Step

variable (baselines : Baselines) (sighting : Sighting) (rest : List Sighting)

theorem after_cons : baselines.after (sighting :: rest) = (baselines.advance sighting).2.after rest :=
  rfl

theorem gainsOf_cons_self : baselines.gainsOf (sighting :: rest) sighting.source =
    baselines.gain sighting.source sighting.level ::
      (baselines.advance sighting).2.gainsOf rest sighting.source := by
  simp [gainsOf, advanceAll, advance]

theorem gainsOf_cons_of_ne {source : Nat} (ne : sighting.source ≠ source) :
    baselines.gainsOf (sighting :: rest) source =
      (baselines.advance sighting).2.gainsOf rest source := by
  simp [gainsOf, advanceAll, advance, ne]

theorem last?_advance_self :
    (baselines.advance sighting).2.last? sighting.source = some sighting.level :=
  baselines.last?_record_self _ _ _

theorem last?_advance_of_ne {source : Nat} (ne : sighting.source ≠ source) :
    (baselines.advance sighting).2.last? source = baselines.last? source := by
  rw [advance, last?_record, if_neg ne.symm]

end Step

theorem levelsOf_cons_self (sighting : Sighting) (rest : List Sighting) :
    levelsOf (sighting :: rest) sighting.source =
      sighting.level :: levelsOf rest sighting.source := by
  simp [levelsOf]

theorem levelsOf_cons_of_ne {sighting : Sighting} {source : Nat} (ne : sighting.source ≠ source)
    (rest : List Sighting) : levelsOf (sighting :: rest) source = levelsOf rest source := by
  simp [levelsOf, ne]

/-- The baseline of a source is the last level it showed, or the one it had before. -/
theorem last?_after (baselines : Baselines) (sightings : List Sighting) (source : Nat) :
    (baselines.after sightings).last? source =
      (levelsOf sightings source).getLast?.or (baselines.last? source) := by
  induction sightings generalizing baselines with
  | nil => rfl
  | cons sighting rest ih =>
    rw [after_cons, ih]
    by_cases same : sighting.source = source
    · subst same
      rw [last?_advance_self, levelsOf_cons_self, List.getLast?_cons, Option.some_or]
      cases (levelsOf rest sighting.source).getLast? <;> rfl
    · rw [last?_advance_of_ne _ _ same, levelsOf_cons_of_ne same]

/-- The source shows levels that do not fall from its baseline on. -/
def RisesOver (baselines : Baselines) (sightings : List Sighting) (source : Nat) : Prop :=
  ((baselines.last? source).getD [] :: levelsOf sightings source).IsChain
    fun earlier level => level.Covers earlier

instance (baselines : Baselines) (sightings : List Sighting) (source : Nat) :
    Decidable (baselines.RisesOver sightings source) :=
  inferInstanceAs (Decidable (List.IsChain _ _))

/-- The gains of a source lead from its baseline to the one after them, at each frequency. -/
theorem levelAt_after {baselines : Baselines} {sightings : List Sighting} {source : Nat}
    (rises : baselines.RisesOver sightings source) (i : Nat) :
    (baselines.after sightings).levelAt source i = baselines.levelAt source i +
      ((baselines.gainsOf sightings source).map fun gain => gain.amountAt i).sum := by
  unfold RisesOver at rises
  induction sightings generalizing baselines with
  | nil => rfl
  | cons sighting rest ih =>
    by_cases same : sighting.source = source
    · subst same
      rw [levelsOf_cons_self, List.isChain_cons_cons] at rises
      obtain ⟨covers, later⟩ := rises
      have step := last?_advance_self baselines sighting
      have reached : (baselines.advance sighting).2.levelAt sighting.source i =
          sighting.level.amountAt i := by
        rw [levelAt, step, Option.getD_some]
      have gained : (baselines.gain sighting.source sighting.level).amountAt i =
          sighting.level.amountAt i - baselines.levelAt sighting.source i :=
        Measure.amountAt_since _ _ i
      have above : baselines.levelAt sighting.source i ≤ sighting.level.amountAt i := covers i
      rw [after_cons, ih (by rwa [step, Option.getD_some]), gainsOf_cons_self, List.map_cons,
        List.sum_cons, reached, gained]
      omega
    · have step := last?_advance_of_ne baselines sighting same
      rw [levelsOf_cons_of_ne same] at rises
      rw [after_cons, ih (by rwa [step]), gainsOf_cons_of_ne _ _ _ same]
      unfold levelAt
      rw [step]

/-- Each gain is as long as the level it leads to. -/
theorem length_of_mem_gainsOf {width : Nat} {baselines : Baselines} {sightings : List Sighting}
    {source : Nat} (widths : ∀ level ∈ levelsOf sightings source, level.length = width) :
    ∀ gain ∈ baselines.gainsOf sightings source, gain.length = width := by
  induction sightings generalizing baselines with
  | nil => simp [gainsOf, advanceAll]
  | cons sighting rest ih =>
    by_cases same : sighting.source = source
    · subst same
      rw [levelsOf_cons_self] at widths
      obtain ⟨first, others⟩ := List.forall_mem_cons.mp widths
      rw [gainsOf_cons_self]
      refine List.forall_mem_cons.mpr ⟨?_, ih others⟩
      rw [gain, Measure.length_since, first]
    · rw [levelsOf_cons_of_ne same] at widths
      rw [gainsOf_cons_of_ne _ _ _ same]
      exact ih widths

/-- What becomes of some of the sources depends on their baselines and their sightings alone. -/
theorem advanceAll_filter (among : Nat → Bool) {baselines others : Baselines}
    (agree : ∀ source, among source = true →
      baselines.samples.get? source = others.samples.get? source) (sightings : List Sighting) :
    let kept := sightings.filter fun sighting => among sighting.source
    ((baselines.advanceAll sightings).1.filter fun entry => among entry.1) =
        (others.advanceAll kept).1 ∧
      ∀ source, among source = true → (baselines.after sightings).samples.get? source =
        (others.after kept).samples.get? source := by
  induction sightings generalizing baselines others with
  | nil => exact ⟨rfl, agree⟩
  | cons sighting rest ih =>
    cases kept : among sighting.source with
    | true =>
      have same : baselines.gain sighting.source sighting.level =
          others.gain sighting.source sighting.level := by
        rw [gain, gain, last?, last?, agree _ kept]
      have next : ∀ source, among source = true →
          (baselines.advance sighting).2.samples.get? source =
            (others.advance sighting).2.samples.get? source := by
        intro source mem
        simp only [advance, record, Table.get?_insert, agree source mem]
      obtain ⟨gains, samples⟩ := ih next
      simp only [List.filter_cons, kept, if_true]
      refine ⟨?_, samples⟩
      simp only [advanceAll, advance, List.filter_cons, kept, if_true, same]
      exact congrArg _ gains
    | false =>
      have next : ∀ source, among source = true →
          (baselines.advance sighting).2.samples.get? source = others.samples.get? source := by
        intro source mem
        have ne : source ≠ sighting.source := by
          rintro rfl
          rw [kept] at mem
          cases mem
        simp only [advance, record, Table.get?_insert, if_neg ne, agree source mem]
      obtain ⟨gains, samples⟩ := ih next
      simp only [List.filter_cons, kept, Bool.false_eq_true, if_false]
      refine ⟨?_, samples⟩
      simp only [advanceAll, advance, List.filter_cons, kept, Bool.false_eq_true, if_false]
      exact gains

theorem gainsOf_withoutSource (baselines : Baselines) (sightings : List Sighting)
    {source other : Nat} (ne : other ≠ source) :
    baselines.gainsOf (withoutSource sightings source) other = baselines.gainsOf sightings other := by
  have alike : ∀ one, decide (one ≠ source) = true →
      baselines.samples.get? one = baselines.samples.get? one := fun _ _ => rfl
  have kept := (advanceAll_filter (fun one => one ≠ source) alike sightings).1
  unfold gainsOf withoutSource
  rw [← kept, List.filter_filter]
  congr 1
  apply List.filter_congr
  intro entry _
  by_cases same : entry.1 = other
  · simp [same, ne]
  · simp [same]

/-- The gains of a source add up to the last level it showed less its baseline, if its levels do not
fall, and that level is its baseline from then on. For all other sources it is as if the source had
shown nothing. -/
theorem gains_telescope (baselines : Baselines) (sightings : List Sighting) (source width : Nat)
    (start : ∀ level ∈ baselines.last? source, level.length = width)
    (widths : ∀ level ∈ levelsOf sightings source, level.length = width)
    (rises : baselines.RisesOver sightings source) :
    (∀ last ∈ (levelsOf sightings source).getLast?,
      let base := (baselines.last? source).getD []
      let gained := Measure.total width (baselines.gainsOf sightings source)
      gained = last.since base ∧ base.add gained = last ∧
        (baselines.after sightings).last? source = some last) ∧
    ∀ other ≠ source,
      baselines.gainsOf sightings other =
        baselines.gainsOf (withoutSource sightings source) other ∧
      (baselines.after sightings).samples.get? other =
        (baselines.after (withoutSource sightings source)).samples.get? other := by
  constructor
  · intro last shown base gained
    have reached : (baselines.after sightings).last? source = some last := by
      rw [last?_after, Option.mem_def.mp shown, Option.some_or]
    have slots (i : Nat) : last.amountAt i = base.amountAt i + gained.amountAt i := by
      have sum := levelAt_after rises i
      rw [levelAt, reached, Option.getD_some] at sum
      rw [sum, Measure.amountAt_total]
      rfl
    have long : last.length = width := widths last (List.mem_of_getLast? shown)
    have gainedLong : gained.length = width := Measure.length_total (length_of_mem_gainsOf widths)
    refine ⟨?_, ?_, reached⟩
    · apply Measure.ext_amountAt
      · rw [Measure.length_since, long, gainedLong]
      · intro i
        rw [Measure.amountAt_since, slots, Nat.add_sub_cancel_left]
    · have short : base.length ≤ width := by
        unfold base
        cases found : baselines.last? source with
        | none => exact Nat.zero_le _
        | some level => exact (start level found).le
      apply Measure.ext_amountAt
      · rw [Measure.length_add, gainedLong, long, Nat.max_eq_right short]
      · intro i
        rw [Measure.amountAt_add, slots]
  · intro other ne
    refine ⟨(gainsOf_withoutSource baselines sightings ne).symm, ?_⟩
    exact (advanceAll_filter (fun one => one ≠ source) (fun _ _ => rfl) sightings).2 other
      (decide_eq_true ne)

def counted : Baselines where
  samples := (∅ : Table Sample).insert 1 ⟨[5, 3], 10⟩

/-- While the first source rises, the counters of a second one are reset. -/
def interleaved : List Sighting :=
  [⟨1, [6, 3], 20⟩, ⟨2, [9, 9, 9], 20⟩, ⟨1, [6, 10], 30⟩, ⟨2, [1, 2, 3], 30⟩, ⟨1, [8, 10], 30⟩]

theorem gains_telescope_interleaved :
    (∀ level ∈ counted.last? 1, level.length = 2) ∧
    (∀ level ∈ levelsOf interleaved 1, level.length = 2) ∧ counted.RisesOver interleaved 1 ∧
    Measure.total 2 (counted.gainsOf interleaved 1) = Measure.since [8, 10] [5, 3] ∧
    Measure.add [5, 3] (Measure.total 2 (counted.gainsOf interleaved 1)) = [8, 10] ∧
    (counted.after interleaved).last? 1 = some [8, 10] ∧
    counted.gainsOf interleaved 2 = counted.gainsOf (withoutSource interleaved 1) 2 := by
  have start : ∀ level ∈ counted.last? 1, level.length = 2 := by decide
  have widths : ∀ level ∈ levelsOf interleaved 1, level.length = 2 := by decide
  have rises : counted.RisesOver interleaved 1 := by decide
  obtain ⟨sum, apart⟩ := gains_telescope counted interleaved 1 2 start widths rises
  obtain ⟨difference, back, reached⟩ := sum [8, 10] rfl
  exact ⟨start, widths, rises, difference, back, reached, (apart 2 (by decide)).1⟩

end Baselines

/-- A meter that reads a level advances its baselines by it. -/
theorem Gauge.readGain_eq_advance {μ : Type} [Gauge μ] {meter after : μ} {entity : Nat}
    {level : Measure} (read : readLevel meter entity = (some level, after)) (time : Nat) :
    readGain meter entity time =
      ((baselines after).advance ⟨entity, level, time⟩).map some (withBaselines after) := by
  rw [readGain, read]
  rfl

/-- The levels of a whole-system reading at some time, one after the other. -/
def Table.sightings (levels : Table Measure) (time : Nat) : List Sighting :=
  levels.entries.map fun (source, level) => ⟨source, level, time⟩

theorem Baselines.advanceAll_of_distinct (baselines : Baselines) {sightings : List Sighting}
    (distinct : (sightings.map Sighting.source).Nodup) :
    (baselines.advanceAll sightings).1 = sightings.map fun sighting =>
      (sighting.source, baselines.gain sighting.source sighting.level) := by
  induction sightings generalizing baselines with
  | nil => rfl
  | cons sighting rest ih =>
    obtain ⟨fresh, distinct⟩ := List.nodup_cons.mp distinct
    have others : ((baselines.advance sighting).2.advanceAll rest).1 = rest.map fun other =>
        (other.source, baselines.gain other.source other.level) := by
      rw [ih _ distinct]
      apply List.map_congr_left
      intro other mem
      have ne : sighting.source ≠ other.source := fun same => fresh (same ▸ List.mem_map_of_mem mem)
      rw [gain, last?_advance_of_ne _ _ ne, gain]
    rw [List.map_cons, ← others]
    rfl

theorem Baselines.after_eq_foldl (baselines : Baselines) (sightings : List Sighting) :
    baselines.after sightings = sightings.foldl (fun baselines sighting =>
      baselines.record sighting.source sighting.level sighting.time) baselines := by
  induction sightings generalizing baselines with
  | nil => rfl
  | cons sighting rest ih => exact ih _

/-- A whole-system reading advances the ledger's baselines by each of its levels of the right width,
and what its sources contribute is counted by the gains. -/
theorem Ledger.advanceAll_accepted (ledger : Ledger) (levels : Table Measure) (time : Nat) :
    ledger.bulkBaselines.advanceAll ((ledger.accepted levels).sightings time) =
      ((ledger.accepted levels).entries.map fun (source, level) =>
        (source, ledger.bulkBaselines.gain source level),
      (ledger.rebase levels time).bulkBaselines) := by
  have sources : ((ledger.accepted levels).sightings time).map Sighting.source =
      (ledger.accepted levels).keys := by
    rw [Table.sightings, List.map_map]
    rfl
  apply Prod.ext
  · rw [Baselines.advanceAll_of_distinct _ (sources ▸ Table.keys_nodup _), Table.sightings,
      List.map_map]
    rfl
  · show ledger.bulkBaselines.after _ = _
    rw [Baselines.after_eq_foldl, Table.sightings, List.foldl_map]
    rfl

end UsageLedger
