import UsageLedger.Proofs.BulkLevels
import UsageLedger.Proofs.OneReading

/-!
Orphans: isolated entities in a whole-system reading whose parent is neither known nor read with
them. Nobody is credited for them, but the reading becomes their baseline all the same, so it hides
what they had gained when their parent appears.
-/

namespace UsageLedger

namespace Ledger

/-- The source is an isolated entity whose parent is neither known nor among those read. -/
def Orphaned (ledger : Ledger) (levels : Table Measure) (source : Nat) : Prop :=
  ∃ parent ∈ ledger.isolation.parentOf source, parent ∉ ledger.standing ∧ parent ∉ levels

instance (ledger : Ledger) (levels : Table Measure) (source : Nat) :
    Decidable (ledger.Orphaned levels source) :=
  inferInstanceAs (Decidable (∃ parent ∈ _, _))

/-- The levels without those of orphans. -/
def answered (ledger : Ledger) (levels : Table Measure) : Table Measure :=
  levels.filter fun source _ => ¬ ledger.Orphaned levels source

variable {ledger : Ledger} {levels : Table Measure}

theorem get?_answered (ledger : Ledger) (levels : Table Measure) (source : Nat) :
    (ledger.answered levels).get? source =
      if ledger.Orphaned levels source then none else levels.get? source := by
  rw [answered, Table.get?_filter]
  by_cases orphaned : ledger.Orphaned levels source
  · cases levels.get? source <;> simp [orphaned]
  · cases levels.get? source <;> simp [orphaned]

theorem mem_answered_of_own {source : Nat} (own : ¬ ledger.isolation.IsChild source) :
    source ∈ ledger.answered levels ↔ source ∈ levels := by
  have kept : ¬ ledger.Orphaned levels source := by
    rintro ⟨parent, child, -⟩
    rw [(ledger.isolation.parentOf_eq_none_iff source).mpr own] at child
    contradiction
  rw [Table.mem_iff, Table.mem_iff, get?_answered, if_neg kept]

theorem Fits.answered (fits : ledger.Fits levels) : ledger.Fits (ledger.answered levels) := by
  intro source level found
  rw [get?_answered] at found
  split at found
  · contradiction
  · exact fits source level found

theorem accepted_of_fits (fits : ledger.Fits levels) : ledger.accepted levels = levels := by
  apply Table.ext_get?
  intro source
  rw [get?_accepted]
  cases found : levels.get? source with
  | none => rfl
  | some level => simp [fits source level found]

theorem rejected_of_fits (fits : ledger.Fits levels) : ledger.rejected levels = ∅ := by
  apply Table.ext_get?
  intro source
  rw [rejected, Table.get?_filter]
  cases found : levels.get? source with
  | none => rfl
  | some level => simp [fits source level found]

theorem recipient?_of_orphaned {source : Nat} (orphaned : ledger.Orphaned levels source) :
    ledger.recipient? levels source = none := by
  obtain ⟨parent, child, unknown, unread⟩ := orphaned
  have child : ledger.isolation.parentOf source = some parent := child
  simp [recipient?, child, unknown, unread]

theorem recipient?_answered (flat : ledger.isolation.Flat) (source : Nat) :
    ledger.recipient? (ledger.answered levels) source = ledger.recipient? levels source := by
  unfold recipient?
  cases child : ledger.isolation.parentOf source with
  | none => rfl
  | some parent => simp only [mem_answered_of_own (flat source parent child)]

/-- Nothing is assigned to anyone on behalf of an orphan. -/
theorem assigned_answered (flat : ledger.isolation.Flat) (fits : ledger.Fits levels) :
    ledger.assigned (ledger.answered levels) = ledger.assigned levels := by
  have readings : (ledger.answered levels).readings =
      levels.readings.filter fun reading => ¬ ledger.Orphaned levels reading.source := by
    unfold Table.readings answered Table.filter
    rw [List.filter_map]
    rfl
  rw [assigned_eq, assigned_eq, accepted_of_fits fits, accepted_of_fits fits.answered, readings,
    List.filterMap_filter]
  apply List.filterMap_congr
  intro reading _
  by_cases orphaned : ledger.Orphaned levels reading.source
  · simp [orphaned, recipient?_of_orphaned orphaned]
  · simp [orphaned, recipient?_answered flat]

end Ledger

/-- The rounds agree in their reports, and in all of their ledgers but the baselines for
whole-system readings. -/
structure Round.SameRest {μ ν : Type} (first : Round μ) (second : Round ν) : Prop where
  ledger : first.ledger.withBulk {} = second.ledger.withBulk {}
  report : first.report = second.report

theorem Round.SameRest.commit {μ ν : Type} {first : Round μ} {second : Round ν}
    (h : first.SameRest second) (entity : Nat) (parts : List Contribution) :
    (first.commit entity parts).SameRest (second.commit entity parts) := by
  unfold Round.commit
  rw [Ledger.eq_withBulk h.ledger, Ledger.commit_withBulk]
  cases first.ledger.commit entity parts with
  | ok after => exact ⟨rfl, congrArg (fun report => report.addUpdated entity) h.report⟩
  | error fault =>
    exact ⟨rfl, congrArg (fun report => report.addFailure ⟨entity, .committing, fault⟩) h.report⟩

namespace Ledger

variable {ledger : Ledger} {levels : Table Measure} {μ ν : Type} [Meter μ] [Meter ν] {meter : μ}
  {other : ν}

theorem copyAll_sameRest (flat : ledger.isolation.Flat) (fits : ledger.Fits levels)
    (shown : (Meter.readAll meter).1 = some levels)
    (shown' : (Meter.readAll other).1 = some (ledger.answered levels)) (time : Nat) :
    (ledger.copyAll meter time).SameRest (ledger.copyAll other time) := by
  have read : Meter.readAll meter = (some levels, (Meter.readAll meter).2) := Prod.ext shown rfl
  have read' : Meter.readAll other = (some (ledger.answered levels), (Meter.readAll other).2) :=
    Prod.ext shown' rfl
  have spoiled : ledger.spoiled (ledger.answered levels) = ledger.spoiled levels := by
    unfold Ledger.spoiled
    rw [rejected_of_fits fits, rejected_of_fits fits.answered]
  have failures : ledger.widthFailures (ledger.answered levels) = ledger.widthFailures levels := by
    unfold widthFailures
    rw [rejected_of_fits fits, rejected_of_fits fits.answered]
  unfold copyAll
  rw [read, read']
  simp only [assigned_answered flat fits, spoiled, failures]
  apply List.foldl_rel (r := Round.SameRest)
  · exact ⟨rfl, rfl⟩
  · exact fun entity _ _ _ same => same.commit entity _

/-- The baselines after a copy are the levels that were read. -/
theorem levelAt_copyAll (fits : ledger.Fits levels)
    (shown : (Meter.readAll meter).1 = some levels) (time source i : Nat) :
    (ledger.copyAll meter time).ledger.bulkBaselines.levelAt source i =
      match levels.get? source with
      | some level => level.amountAt i
      | none => ledger.bulkBaselines.levelAt source i := by
  have read : Meter.readAll meter = (some levels, (Meter.readAll meter).2) := Prod.ext shown rfl
  have level := ledger.levelAt_rebase levels time source i
  rw [accepted_of_fits fits] at level
  rw [ledger.bulkBaselines_copyAll read]
  exact level

/-- A copy with orphans and one without leave the same baselines exactly if the levels of the
orphans are the baselines that they had. -/
theorem sameLevels_copyAll_iff (fits : ledger.Fits levels)
    (shown : (Meter.readAll meter).1 = some levels)
    (shown' : (Meter.readAll other).1 = some (ledger.answered levels)) (time : Nat) :
    (ledger.copyAll other time).ledger.bulkBaselines.SameLevels
        (ledger.copyAll meter time).ledger.bulkBaselines ↔
      ∀ source level, levels.get? source = some level → ledger.Orphaned levels source →
        ∀ i, level.amountAt i = ledger.bulkBaselines.levelAt source i := by
  have full (source i : Nat) := levelAt_copyAll fits shown time source i
  have spared (source i : Nat) := levelAt_copyAll fits.answered shown' time source i
  constructor
  · intro same source level found orphaned i
    have level_eq := same source i
    rw [full, spared, get?_answered, if_pos orphaned, found] at level_eq
    exact level_eq.symm
  · intro low source i
    rw [full, spared, get?_answered]
    by_cases orphaned : ledger.Orphaned levels source
    · rw [if_pos orphaned]
      cases found : levels.get? source with
      | none => rfl
      | some level => exact (low source level found orphaned i).symm
    · rw [if_neg orphaned]

/-- Zero levels of all known entities and of one more source. -/
def zeros (ledger : Ledger) (source : Nat) : Table Measure :=
  (ledger.standing.map fun _ _ => Measure.zero ledger.store.width).insert source
    (.zero ledger.store.width)

theorem get?_zeros (ledger : Ledger) (source other : Nat) :
    (ledger.zeros source).get? other =
      if other = source ∨ other ∈ ledger.standing then some (.zero ledger.store.width)
      else none := by
  unfold zeros
  rw [Table.get?_insert, Table.get?_map]
  by_cases same : other = source
  · simp [same]
  · cases found : ledger.standing.get? other with
    | none => simp [same, Table.mem_iff, found]
    | some state => simp [same, Table.mem_iff, found]

theorem serves_zeros {entity source : Nat} (known : entity ∈ ledger.standing)
    (family : source ∈ ledger.isolation.family entity) : ledger.Serves (ledger.zeros source) where
  fits other level found := by
    rw [get?_zeros] at found
    split at found
    · rw [← Option.some.inj found]
      exact List.length_replicate
    · contradiction
  complete other mem := by
    rw [Table.mem_iff, get?_zeros, if_pos (.inr mem)]
    exact ⟨_, rfl⟩
  only other mem := by
    obtain ⟨level, found⟩ := Table.mem_iff.mp mem
    rw [get?_zeros] at found
    split at found
    next shown =>
      rcases shown with rfl | known'
      · exact ⟨entity, known, family⟩
      · exact ⟨other, known', List.mem_cons_self⟩
    next => contradiction

/-- The ledger once the parent is known and a tick has read zero levels of it and of the source. -/
def zeroed (ledger : Ledger) (parent source : Nat) : Ledger :=
  let known := ledger.classify parent .top
  let meter : ScriptedMeter :=
    { levels := known.zeros source, bulk := some (known.zeros source) }
  (known.tick meter 0).ledger

theorem zeroed_withBulk (ledger : Ledger) (baselines : Baselines) (parent source : Nat) :
    (ledger.withBulk baselines).zeroed parent source =
      (ledger.zeroed parent source).withBulk baselines := by
  have known : (ledger.withBulk baselines).classify parent .top =
      (ledger.classify parent .top).withBulk baselines :=
    ledger.notice_withBulk baselines (.classify parent .top)
  unfold zeroed
  rw [known]
  exact congrArg Round.ledger (tick_withBulk _ baselines _ 0)

/-- What is read of the source next is credited as far as it lies above the baseline. -/
theorem usageAt_zeroed (consistent : ledger.Consistent) {parent source : Nat}
    (child : ledger.isolation.parentOf source = some parent) {level : Measure}
    (right : level.length = ledger.store.width) (i : Nat) :
    ((ledger.zeroed parent source).copyAll
        ({ bulk := some (Table.insert ∅ source level) } : ScriptedMeter) 0).ledger.store.usageAt
        parent i = (ledger.zeroed parent source).store.usageAt parent i +
          (level.amountAt i - ledger.bulkBaselines.levelAt source i) := by
  let known := ledger.classify parent .top
  let levels := known.zeros source
  let meter : ScriptedMeter := { levels, bulk := some levels }
  have classified : known = { ledger with
      standing := ledger.standing.insertIfNew parent none
      pending := ledger.pending.insert parent .top } := if_neg (consistent.flat source parent child)
  have isolation : known.isolation = ledger.isolation := by rw [classified]
  have standing : parent ∈ known.standing := by
    rw [classified]
    exact Table.mem_insertIfNew.mpr (.inl rfl)
  have family : source ∈ known.isolation.family parent := by
    rw [isolation]
    exact List.mem_cons_of_mem parent ((ledger.isolation.mem_childrenOf parent source).mpr child)
  have sound : known.Consistent := consistent.classify parent .top
  have serves : known.Serves levels := serves_zeros standing family
  have accounted : (known.tick meter 0).ledger.accountedAt source i = 0 := by
    have behind : known.Behind (Gauge.baselines meter) := by
      intro other j
      simp [meter, Gauge.baselines, Baselines.levelAt, Baselines.last?]
    obtain ⟨after, result, -⟩ :=
      tick_absorbs sound serves (ScriptedMeter.offers levels {}) behind 0
    have found : levels.get? source = some (.zero known.store.width) := by
      rw [get?_zeros, if_pos (.inl rfl)]
    have settled := get?_accounted_absorb serves.fits sound.apart
      ((known.standing.mem_keys parent).mpr standing) family found
    rw [result, accountedAt, settled]
    exact Measure.amountAt_zero _ i
  have scene := known.tick_sameScene meter 0
  have bulk : (known.tick meter 0).ledger.bulkBaselines = ledger.bulkBaselines := by
    rw [known.bulkBaselines_tick meter 0, classified]
  have family' : source ∈ (known.tick meter 0).ledger.isolation.family parent := by
    rw [scene.isolation]
    exact family
  have right' : level.length = (known.tick meter 0).ledger.store.width := by
    rw [right, scene.width, classified]
  have sound' : (known.tick meter 0).ledger.Consistent := sound.update .tick meter 0
  have standing' : parent ∈ (known.tick meter 0).ledger.standing :=
    mem_standing_update sound.flat standing .tick meter 0
  obtain ⟨usage, -, -⟩ := copyAll_single sound' standing' family' right'
    (rfl : Meter.readAll ({ bulk := some (Table.insert ∅ source level) } : ScriptedMeter) = _) 0 i
  rw [bulk, accounted, Nat.max_zero] at usage
  exact usage

/-- Calls by which the usage of the parent shows the baseline of the source. -/
def revealing (ledger : Ledger) (parent source : Nat) (level : Measure) :
    List (Call ScriptedMeter) :=
  let levels := (ledger.classify parent .top).zeros source
  [.notice (.classify parent .top), .meter { levels, bulk := some levels }, .update .tick 0,
    .meter { bulk := some (Table.insert ∅ source level) }, .update .copyAll 0]

theorem revealing_withBulk (ledger : Ledger) (baselines : Baselines) (parent source : Nat)
    (level : Measure) : (ledger.withBulk baselines).revealing parent source level =
      ledger.revealing parent source level := by
  have known : (ledger.withBulk baselines).classify parent .top =
      (ledger.classify parent .top).withBulk baselines :=
    ledger.notice_withBulk baselines (.classify parent .top)
  unfold revealing
  rw [known]
  rfl

/-- Ledgers that are the same but for their baselines are told apart by those of isolated
entities. -/
theorem levelAt_eq_of_inseparable {first second : Ledger} (consistent : first.Consistent)
    (consistent' : second.Consistent) (rest : first.withBulk {} = second.withBulk {})
    {parent source i : Nat} (child : first.isolation.parentOf source = some parent)
    (bound : i < first.store.width)
    (inseparable : first.Inseparable second) :
    first.bulkBaselines.levelAt source i = second.bulkBaselines.levelAt source i := by
  let top := first.bulkBaselines.levelAt source i + second.bulkBaselines.levelAt source i
  let level : Measure := List.replicate first.store.width top
  have right : level.length = first.store.width := List.length_replicate
  have amount : level.amountAt i = top := by
    simp [Measure.amountAt, level, List.getD_eq_getElem?_getD, bound]
  have twin := eq_withBulk rest
  have calls : second.revealing parent source level = first.revealing parent source level := by
    rw [twin, revealing_withBulk]
  have same : (second.zeroed parent source).store = (first.zeroed parent source).store := by
    rw [twin, zeroed_withBulk]
    rfl
  have child' : second.isolation.parentOf source = some parent := by
    rw [twin]
    exact child
  have right' : level.length = second.store.width := by
    rw [twin]
    exact right
  have one := usageAt_zeroed consistent child right i
  have two := usageAt_zeroed consistent' child' right' i
  have store := (inseparable _ {} (first.revealing parent source level)).store
  have run (ledger : Ledger) :
      (Session.run { ledger, meter := {} } (ledger.revealing parent source level)).ledger =
        ((ledger.zeroed parent source).copyAll
          ({ bulk := some (Table.insert ∅ source level) } : ScriptedMeter) 0).ledger := rfl
  have run' := run second
  rw [calls] at run'
  rw [run, run'] at store
  rw [store, two, same, amount] at one
  omega

/-- Next to a copy of the same levels without those of orphans, a copy reports and does the same,
the baselines apart. No calls ever tell apart what the two lead to if and only if the orphans show
just what copies of all levels counted from before. -/
theorem copyAll_answered (reachable : ledger.Reachable) (fits : ledger.Fits levels)
    (shown : (Meter.readAll meter).1 = some levels)
    (shown' : (Meter.readAll other).1 = some (ledger.answered levels)) (time : Nat) :
    let full := ledger.copyAll meter time
    let spared := ledger.copyAll other time
    full.report = spared.report ∧ full.ledger.withBulk {} = spared.ledger.withBulk {} ∧
      (full.ledger.Inseparable spared.ledger ↔
        ∀ source level, levels.get? source = some level → ledger.Orphaned levels source →
          ∀ i, level.amountAt i = ledger.bulkBaselines.levelAt source i) := by
  intro full spared
  have consistent := reachable.consistent
  obtain ⟨rest, report⟩ := copyAll_sameRest consistent.flat fits shown shown' time
  refine ⟨report, rest, ?_, ?_⟩
  · intro inseparable source level found orphaned i
    have scene := ledger.copyAll_sameScene meter time
    by_cases bound : i < ledger.store.width
    · obtain ⟨parent, child, -, -⟩ := id orphaned
      have sound : full.ledger.Consistent := consistent.update .copyAll meter time
      have sound' : spared.ledger.Consistent := consistent.update .copyAll other time
      have child' : full.ledger.isolation.parentOf source = some parent := by
        rw [scene.isolation]
        exact child
      have base := levelAt_eq_of_inseparable sound sound' rest child' (scene.width ▸ bound)
        inseparable
      rw [levelAt_copyAll fits shown, levelAt_copyAll fits.answered shown', get?_answered,
        if_pos orphaned, found] at base
      exact base
    · have beyond : ledger.store.width ≤ i := Nat.le_of_not_lt bound
      rw [reachable.bounded source i beyond]
      exact Measure.amountAt_eq_zero (by rw [fits source level found]; exact beyond)
  · intro low
    have levels := (sameLevels_copyAll_iff fits shown shown' time).mpr low
    have alike : full.ledger.Alike spared.ledger := ⟨rest, levels⟩
    exact alike.inseparable

/-- A ledger that read an isolated entity at 5 before its parent was known. -/
def orphaning : Session ScriptedMeter :=
  Session.run { ledger := { config := { vectorLen := 1 }, store := { width := 1 } }, meter := {} }
    [.notice (.isolate 1 2), .meter { bulk := some (.ofList [(2, [5])]) }, .update .copyAll 0]

/-- An orphan that shows what it showed before leaves no trace, one that shows more does. -/
theorem copyAll_answered_both :
    let ledger := orphaning.ledger
    let copied (levels : Table Measure) :=
      (ledger.copyAll ({ bulk := some levels } : ScriptedMeter) 10).ledger
    let still : Table Measure := .ofList [(2, [5]), (3, [4])]
    let risen : Table Measure := .ofList [(2, [9]), (3, [4])]
    (copied still).Inseparable (copied (ledger.answered still)) ∧
      ¬ (copied risen).Inseparable (copied (ledger.answered risen)) := by
  intro ledger copied still risen
  have new : Ledger.new { vectorLen := 1 } =
      .ok { config := { vectorLen := 1 }, store := { width := 1 } } := rfl
  have reachable : ledger.Reachable := ⟨ScriptedMeter, _, _, _, _, new, rfl⟩
  have base : ledger.bulkBaselines.last? 2 = some [5] := by decide +kernel
  have fits : ledger.Fits still := by
    intro source level found
    have widths : ∀ entry ∈ still.entries, entry.2.length = ledger.store.width := by
      decide +kernel
    exact widths _ ((still.mem_entries_iff source level).mpr found)
  have fits' : ledger.Fits risen := by
    intro source level found
    have widths : ∀ entry ∈ risen.entries, entry.2.length = ledger.store.width := by
      decide +kernel
    exact widths _ ((risen.mem_entries_iff source level).mpr found)
  let meter (levels : Table Measure) : ScriptedMeter := { bulk := some levels }
  have shown (levels : Table Measure) : (Meter.readAll (meter levels)).1 = some levels := rfl
  have first :=
    (copyAll_answered reachable fits (shown still) (shown (ledger.answered still)) 10).2.2
  have second :=
    (copyAll_answered reachable fits' (shown risen) (shown (ledger.answered risen)) 10).2.2
  constructor
  · apply first.mpr
    intro source level found orphaned i
    have only : ∀ entry ∈ still.entries, ledger.Orphaned still entry.1 → entry = (2, [5]) := by
      decide +kernel
    cases only _ ((still.mem_entries_iff source level).mpr found) orphaned
    rw [Baselines.levelAt, base]
    rfl
  · intro inseparable
    have orphaned : ledger.Orphaned risen 2 := by decide +kernel
    have low := second.mp inseparable 2 [9] rfl orphaned 0
    rw [Baselines.levelAt, base] at low
    contradiction

/-- An isolated entity is read at 50 before its parent is known, then both are read, at 60 and 3.
The parent gets 13. Without the first reading it would get 63. -/
theorem usage_hidden_by_orphan :
    let session : Session ScriptedMeter := Session.run
      { ledger := { config := { vectorLen := 1 }, store := { width := 1 } }, meter := {} }
      [.notice (.isolate 1 2)]
    let levels : Table Measure := .ofList [(2, [50])]
    let copied (levels : Table Measure) : Session ScriptedMeter := {
      ledger := (session.ledger.copyAll ({ bulk := some levels } : ScriptedMeter) 10).ledger
      meter := {} }
    let calls : List (Call ScriptedMeter) := [.notice (.classify 1 .top),
      .meter { bulk := some (.ofList [(1, [3]), (2, [60])]) }, .update .copyAll 20]
    session.ledger.Reachable ∧ session.ledger.Orphaned levels 2 ∧
      ((copied levels).run calls).ledger.store.cell? 1 (.known .top) .allTime = some [13] ∧
      ((copied (session.ledger.answered levels)).run calls).ledger.store.cell? 1 (.known .top)
        .allTime = some [63] := by
  intro session levels copied calls
  have new : Ledger.new { vectorLen := 1 } =
      .ok { config := { vectorLen := 1 }, store := { width := 1 } } := rfl
  exact ⟨⟨ScriptedMeter, _, _, _, _, new, rfl⟩, by decide +kernel, by decide +kernel,
    by decide +kernel⟩

end Ledger

end UsageLedger
