import Mathlib.Algebra.BigOperators.Group.Finset.Piecewise
import Mathlib.Algebra.Order.BigOperators.Group.Finset
import UsageLedger.Proofs.Runs

/-!
An upper bound on usage. Whatever the readings are, no more is ever credited than the counters rose
altogether. What they rose and was not credited yet is still owed, and a settlement can only pay
what is owed.
-/

namespace UsageLedger

/-- By how much a counter rises in total, from a start and through a list of values. -/
def rises (start : Nat) : List Nat → Nat
  | [] => 0
  | value :: values => (value - start) + rises value values

theorem rises_concat (start : Nat) (values : List Nat) (value : Nat) :
    rises start (values ++ [value]) = rises start values + (value - values.getLastD start) := by
  induction values generalizing start with
  | nil => simp [rises]
  | cons first values ih =>
    rw [List.cons_append, rises, ih, rises, List.getLastD_cons, Nat.add_assoc]

/-- The values that a source showed at one frequency, in readings of the right width. -/
def valuesAt (width : Nat) (readings : List Reading) (source i : Nat) : List Nat :=
  ((readings.filter fun reading => reading.source = source).filter fun reading =>
    reading.level.length = width).map fun reading => reading.level.amountAt i

/-- By how much a source rose in total. -/
def variationAt (width : Nat) (readings : List Reading) (source i : Nat) : Nat :=
  rises 0 (valuesAt width readings source i)

/-- The value that a source showed last. -/
def lastAt (width : Nat) (readings : List Reading) (source i : Nat) : Nat :=
  (valuesAt width readings source i).getLastD 0

section Taken

variable {width : Nat} {readings taken : List Reading}

theorem valuesAt_append (width : Nat) (readings taken : List Reading) (source i : Nat) :
    valuesAt width (readings ++ taken) source i =
      valuesAt width readings source i ++ valuesAt width taken source i := by
  simp only [valuesAt, List.filter_append, List.map_append]

theorem valuesAt_of_mem {reading : Reading} (distinct : (taken.map Reading.source).Nodup)
    (mem : reading ∈ taken) (right : reading.level.length = width) (i : Nat) :
    valuesAt width taken reading.source i = [reading.level.amountAt i] := by
  rw [valuesAt, filter_source_of_mem distinct mem]
  simp [right]

/-- A source without a right reading shows no further value. -/
theorem valuesAt_of_absent {source : Nat} (distinct : (taken.map Reading.source).Nodup)
    (absent : ∀ reading ∈ taken, reading.level.length = width → reading.source ≠ source)
    (i : Nat) : valuesAt width taken source i = [] := by
  by_cases read : ∃ reading ∈ taken, reading.source = source
  · obtain ⟨reading, mem, rfl⟩ := read
    rw [valuesAt, filter_source_of_mem distinct mem]
    have wrong : reading.level.length ≠ width := fun right => absent reading mem right rfl
    simp [wrong]
  · rw [valuesAt, filter_source_of_absent fun reading mem same => read ⟨reading, mem, same⟩]
    rfl

end Taken

/-- The gains of the parts, source by source. -/
theorem sum_gainAt {readings : List Reading} {sources : Finset Nat}
    (all : ∀ reading ∈ readings, reading.source ∈ sources) (part : Reading → Contribution)
    (i : Nat) :
    ∑ source ∈ sources, gainAt ((readings.filter fun reading => reading.source = source).map part) i
      = gainAt (readings.map part) i := by
  induction readings with
  | nil => simp [gainAt]
  | cons reading readings ih =>
    obtain ⟨first, rest⟩ := List.forall_mem_cons.mp all
    have split : ∀ source, gainAt (((reading :: readings).filter fun reading =>
        reading.source = source).map part) i = (if reading.source = source then
          (part reading).gain.amountAt i else 0) +
        gainAt ((readings.filter fun reading => reading.source = source).map part) i := by
      intro source
      by_cases same : reading.source = source <;> simp [gainAt, same]
    simp only [split, Finset.sum_add_distrib, ih rest, Finset.sum_ite_eq, if_pos first]
    rfl

namespace Session

variable {μ : Type}

/-- All usage, and what is still owed to it, is covered by what the counters rose. -/
structure Bounded (width : Nat) (session : Session μ) : Prop where
  ofWidth : session.ledger.store.width = width
  bound (sources : Finset Nat) (i : Nat) :
    (∀ reading ∈ session.readings, reading.source ∈ sources) →
      session.ledger.store.totalAt i + ∑ source ∈ sources,
        (lastAt width session.readings source i - session.ledger.accountedAt source i) ≤
      ∑ source ∈ sources, variationAt width session.readings source i

theorem Bounded.congr {width : Nat} {session other : Session μ} (h : Bounded width session)
    (books : other.ledger.SameBooks session.ledger) (readings : other.readings = session.readings) :
    Bounded width other where
  ofWidth := by rw [books.store, h.ofWidth]
  bound := by
    unfold Ledger.accountedAt
    rw [books.store, books.accounted, readings]
    exact h.bound

theorem bounded_new {config : Config} {ledger : Ledger} (new : Ledger.new config = .ok ledger)
    (meter : μ) : Bounded config.vectorLen { ledger, meter } := by
  cases Ledger.eq_of_new new
  refine ⟨rfl, ?_⟩
  intro sources i _
  have nothing : ({ width := config.vectorLen } : Store).totalAt i = 0 := rfl
  simp [nothing, lastAt, valuesAt]

variable [Meter μ]

section Settles

variable {path : Path} {taken settled : List Reading} {before after : Session μ}

/-- What a source gains and still is owed was owed before, or its counter rose by it. -/
theorem Settles.gain_le (settles : before.Settles path taken settled after) (source i : Nat) :
    let width := before.ledger.store.width
    gainAt ((settled.filter fun reading => reading.source = source).map
        (before.ledger.credit (before.baselines path))) i +
      (lastAt width after.readings source i - after.ledger.accountedAt source i) +
      variationAt width before.readings source i ≤
    variationAt width after.readings source i +
      (lastAt width before.readings source i - before.ledger.accountedAt source i) := by
  intro width
  unfold variationAt lastAt
  rw [settles.readings, valuesAt_append]
  by_cases read : ∃ reading ∈ taken, reading.level.length = width ∧ reading.source = source
  · obtain ⟨reading, mem, right, rfl⟩ := read
    rw [valuesAt_of_mem settles.distinct mem right, rises_concat, List.getLastD_concat]
    by_cases paid : reading ∈ settled
    -- The way from the accounted level to the reading passes the last value: what lies below that
    -- was owed, what lies above it is a rise.
    · have gain := Ledger.amountAt_credit_gain before.ledger (before.baselines path) reading i
      rw [filter_source_of_mem settles.once paid, settles.accountedAt_of_mem paid]
      simp only [gainAt, List.map_cons, List.map_nil, List.sum_cons, List.sum_nil]
      omega
    · have unpaid : ∀ other ∈ settled, other.source ≠ reading.source := by
        intro other mem' same
        have eq := List.inj_on_of_nodup_map settles.distinct (settles.among other mem') mem same
        exact paid (eq ▸ mem')
      -- Whatever the counter rose by is owed from now on.
      rw [filter_source_of_absent unpaid, settles.accountedAt_of_absent unpaid]
      simp only [gainAt, List.map_nil, List.sum_nil]
      omega
  · have wrong : ∀ reading ∈ taken, reading.level.length = width → reading.source ≠ source :=
      fun reading mem right same => read ⟨reading, mem, right, same⟩
    have unpaid : ∀ reading ∈ settled, reading.source ≠ source :=
      fun reading mem => wrong reading (settles.among reading mem) (settles.widths reading mem)
    rw [valuesAt_of_absent settles.distinct wrong, List.append_nil,
      filter_source_of_absent unpaid, settles.accountedAt_of_absent unpaid]
    simp only [gainAt, List.map_nil, List.sum_nil]
    omega

theorem Bounded.settles {width : Nat} (h : Bounded width before)
    (settles : before.Settles path taken settled after) : Bounded width after where
  ofWidth := settles.credited.width.trans h.ofWidth
  bound := by
    intro sources i all
    have early : ∀ reading ∈ before.readings, reading.source ∈ sources := by
      intro reading mem
      exact all reading (settles.readings ▸ List.mem_append_left _ mem)
    have late : ∀ reading ∈ settled, reading.source ∈ sources := by
      intro reading mem
      exact all reading (settles.readings ▸ List.mem_append_right _ (settles.among reading mem))
    have former := h.bound sources i early
    have step := Finset.sum_le_sum fun source (_ : source ∈ sources) => settles.gain_le source i
    simp only [Finset.sum_add_distrib, h.ofWidth,
      sum_gainAt late (before.ledger.credit (before.baselines path))] at step
    rw [settles.totalAt_eq]
    omega

end Settles

variable [LawfulMeter μ]

theorem Bounded.step {width : Nat} {session : Session μ} (h : Bounded width session)
    (call : Call μ) : Bounded width (session.step call) := by
  cases call with
  | notice notice => exact h.congr (session.ledger.notice_sameBooks notice) rfl
  | meter meter => exact h.congr ⟨rfl, rfl, rfl⟩ rfl
  | update path time =>
    have settlements := session.update_settlements path time
    exact settlements.induction h fun settles bounded => bounded.settles settles

theorem Bounded.run {width : Nat} {session : Session μ} (h : Bounded width session)
    (calls : List (Call μ)) : Bounded width (session.run calls) := by
  induction calls generalizing session with
  | nil => exact h
  | cons call calls ih => exact ih (h.step call)

/-- No more usage is ever credited than the counters of all sources rose, whatever the readings. -/
theorem totalAt_le_variation {config : Config} {ledger : Ledger}
    (new : Ledger.new config = .ok ledger) (meter : μ) (calls : List (Call μ)) (i : Nat) :
    let final := run { ledger, meter } calls
    final.ledger.store.totalAt i ≤ ∑ source ∈ (final.readings.map Reading.source).toFinset,
      variationAt config.vectorLen final.readings source i := by
  intro final
  have bounded : Bounded config.vectorLen final := (bounded_new new meter).run calls
  have bound := bounded.bound (final.readings.map Reading.source).toFinset i
    fun reading mem => List.mem_toFinset.mpr (List.mem_map_of_mem mem)
  exact Nat.le_trans (Nat.le_add_right _ _) bound

/-- A counter falls, a reading has a wrong width, a child moves, and another meter takes over. -/
def hostile : List (Call ScriptedMeter) :=
  [.notice (.classify 1 .top), .notice (.classify 3 .foreground), .notice (.isolate 1 2),
    .meter {
      levels := .ofList [(1, [8]), (2, [5])]
      bulk := some (.ofList [(1, [9]), (2, [6]), (3, [1, 1])]) },
    .update .copyAll 10,
    .update .tick 10,
    .notice (.isolate 3 2),
    .meter { levels := .ofList [(1, [2]), (2, [1, 7]), (3, [4])] },
    .update .tick 20,
    .meter { bulk := some (.ofList [(1, [3]), (2, [10]), (3, [6])]) },
    .update .copyAll 30]

theorem totalAt_le_variation_hostile :
    let start : Session ScriptedMeter :=
      { ledger := { config := { vectorLen := 1 }, store := { width := 1 } }, meter := {} }
    (start.run hostile).ledger.store.totalAt 0 = 25 ∧
      ∀ i, (start.run hostile).ledger.store.totalAt i ≤
        ∑ source ∈ ((start.run hostile).readings.map Reading.source).toFinset,
          variationAt 1 (start.run hostile).readings source i := by
  have new : Ledger.new { vectorLen := 1 } =
      .ok { config := { vectorLen := 1 }, store := { width := 1 } } := rfl
  exact ⟨by decide +kernel, totalAt_le_variation new {} hostile⟩

end Session

end UsageLedger
