import UsageLedger.Proofs.Runs

/-!
Conservation. As long as counters only rise and nothing is read in a wrong width, all usage adds up
to the last readings: each unit is credited exactly once, whichever path read it first and whoever
answered for its source at the time.
-/

namespace UsageLedger

/-- No reading of a source lies below an earlier one of the same source. -/
def Rising (readings : List Reading) : Prop :=
  readings.Pairwise fun earlier later =>
    earlier.source = later.source → later.level.Covers earlier.level

instance (readings : List Reading) : Decidable (Rising readings) :=
  inferInstanceAs (Decidable (readings.Pairwise _))

/-- The readings are all of one width, and rising. -/
structure Regular (width : Nat) (readings : List Reading) : Prop where
  widths : ∀ reading ∈ readings, reading.level.length = width
  rising : Rising readings

theorem Regular.of_prefix {width : Nat} {readings later : List Reading}
    (h : Regular width later) (early : readings <+: later) : Regular width readings where
  widths reading mem := h.widths reading (early.subset mem)
  rising := h.rising.sublist early.sublist

theorem lastLevels_append (readings later : List Reading) :
    lastLevels (readings ++ later) =
      later.foldl (fun table reading => table.insert reading.source reading.level)
        (lastLevels readings) :=
  List.foldl_append

/-- The last reading of a source lies above all earlier ones. -/
theorem Rising.le_lastLevels {readings : List Reading} (h : Rising readings) {reading : Reading}
    (mem : reading ∈ readings) (i : Nat) :
    reading.level.amountAt i ≤
      (((lastLevels readings).get? reading.source).getD []).amountAt i := by
  induction readings using List.reverseRecOn with
  | nil => simp at mem
  | append_singleton readings last ih =>
    obtain ⟨early, _, above⟩ := List.pairwise_append.mp h
    rw [lastLevels_append, List.foldl_cons, List.foldl_nil, Table.get?_insert]
    rcases List.mem_append.mp mem with mem | mem
    · split
      next same => exact above reading mem last List.mem_cons_self same i
      next => exact ih early mem
    · rw [List.mem_singleton.mp mem, if_pos rfl]
      exact Nat.le_refl _

namespace Ledger

/-- Accounting for a level adds to the sum of all levels what it counts beyond the former one. -/
theorem sum_account {table : Table Measure} {parts : List Contribution} {i : Nat}
    (distinct : (parts.map Contribution.source).Nodup)
    (gained : ∀ part ∈ parts, ∃ level, part.level = some level ∧
      part.gain.amountAt i + ((table.get? part.source).getD []).amountAt i = level.amountAt i) :
    (account table parts).sum (fun level => level.amountAt i) =
      table.sum (fun level => level.amountAt i) + gainAt parts i := by
  induction parts generalizing table with
  | nil => rfl
  | cons part parts ih =>
    obtain ⟨fresh, distinct⟩ := List.nodup_cons.mp distinct
    obtain ⟨⟨level, known, gain⟩, rest⟩ := List.forall_mem_cons.mp gained
    have apart : ∀ other ∈ parts,
        (table.insert part.source level).get? other.source = table.get? other.source := by
      intro other mem
      apply Table.get?_insert_of_ne
      intro same
      exact fresh (same ▸ List.mem_map_of_mem mem)
    have later : ∀ other ∈ parts, ∃ top, other.level = some top ∧
        other.gain.amountAt i +
          (((table.insert part.source level).get? other.source).getD []).amountAt i =
            top.amountAt i := by
      intro other mem
      rw [apart other mem]
      exact rest other mem
    have tail := ih distinct later
    have added := Table.sum_insert (fun level : Measure => level.amountAt i) table part.source level
    have former : ((table.get? part.source).map fun level : Measure => level.amountAt i).getD 0 =
        ((table.get? part.source).getD []).amountAt i := by
      cases table.get? part.source <;> rfl
    have gains : gainAt (part :: parts) i = part.gain.amountAt i + gainAt parts i := rfl
    rw [account_cons_of_some known, tail, gains]
    omega

end Ledger

namespace Session

variable {μ : Type} [Meter μ]

/-- All usage adds up to the accounted levels, these are the last readings, and neither path counts
from more than what has been read. -/
structure Conserved (width : Nat) (session : Session μ) : Prop where
  width : session.ledger.store.width = width
  total (i : Nat) : session.ledger.store.totalAt i =
    session.ledger.accounted.sum fun level => level.amountAt i
  accounted : session.ledger.accounted = lastLevels session.readings
  shown (path : Path) (source : Nat) (level : Measure) :
    (session.baselines path).last? source = some level →
      ∃ reading ∈ session.readings, reading.source = source ∧ reading.level = level

/-- Nothing but updates can touch what is conserved. -/
theorem Conserved.congr {width : Nat} {session other : Session μ}
    (h : Conserved width session) (books : other.ledger.SameBooks session.ledger)
    (readings : other.readings = session.readings)
    (baselines : Gauge.baselines other.meter = Gauge.baselines session.meter) :
    Conserved width other where
  width := by rw [books.store, h.width]
  total := by rw [books.store, books.accounted]; exact h.total
  accounted := by rw [books.accounted, readings, h.accounted]
  shown path := by
    rw [baselines_congr books baselines, readings]
    exact h.shown path

theorem Conserved.levelAt_le {width : Nat} {session : Session μ} (h : Conserved width session)
    (rising : Rising session.readings) (path : Path) (source i : Nat) :
    (session.baselines path).levelAt source i ≤ session.ledger.accountedAt source i := by
  unfold Baselines.levelAt Ledger.accountedAt
  rw [h.accounted]
  cases last : (session.baselines path).last? source with
  | none => simp
  | some level =>
    obtain ⟨reading, mem, rfl, rfl⟩ := h.shown path source level last
    exact rising.le_lastLevels mem i

section Settles

variable {width : Nat} {path : Path} {taken settled : List Reading} {before after : Session μ}

/-- What a reading gains leads from the accounted level of its source up to the reading. -/
theorem Conserved.gain_add_accountedAt (h : Conserved width before)
    (settles : before.Settles path taken settled after) (rising : Rising after.readings)
    {reading : Reading} (mem : reading ∈ taken) (i : Nat) :
    (before.ledger.credit (before.baselines path) reading).gain.amountAt i +
      before.ledger.accountedAt reading.source i = reading.level.amountAt i := by
  rw [settles.readings] at rising
  obtain ⟨early, _, above⟩ := List.pairwise_append.mp rising
  have base := h.levelAt_le early path reading.source i
  have room : before.ledger.accountedAt reading.source i ≤ reading.level.amountAt i := by
    unfold Ledger.accountedAt
    rw [h.accounted]
    cases last : (lastLevels before.readings).get? reading.source with
    | none => simp
    | some level =>
      obtain ⟨earlier, mem', same, rfl⟩ := get?_lastLevels last
      exact above earlier mem' reading mem same i
  -- The baseline is the lower of the two levels that the gain is counted from.
  rw [Ledger.amountAt_credit_gain]
  omega

/-- If all readings that were taken are settled, they are the accounted levels. -/
theorem Settles.accounted_of_all (settles : before.Settles path taken settled after)
    (all : ∀ reading ∈ taken, reading ∈ settled)
    (accounted : before.ledger.accounted = lastLevels before.readings) :
    after.ledger.accounted = lastLevels after.readings := by
  have perm : settled.Perm taken := by
    apply (List.perm_ext_iff_of_nodup (settles.once.of_map _) (settles.distinct.of_map _)).mpr
    exact fun reading => ⟨settles.among reading, all reading⟩
  -- Readings are kept in the order they were taken, but settled entity by entity.
  rw [settles.accounted_eq, accounted, settles.readings, lastLevels_append,
    Ledger.account_perm settles.parts_distinct (perm.map _) (by simp [Ledger.credit]),
    Ledger.account, List.foldl_map]
  rfl

/-- A baseline is a reading just taken, or it was the baseline before. -/
theorem Settles.last?_cases (settles : before.Settles path taken settled after)
    (widths : ∀ reading ∈ taken, reading.level.length = before.ledger.store.width)
    {other : Path} {source : Nat} {level : Measure}
    (last : (after.baselines other).last? source = some level) :
    (∃ reading ∈ taken, reading.source = source ∧ reading.level = level) ∨
      (before.baselines other).last? source = some level := by
  by_cases same : other = path
  · subst same
    by_cases read : ∃ reading ∈ taken, reading.source = source
    · obtain ⟨reading, mem, rfl⟩ := read
      rw [settles.last reading mem (widths reading mem)] at last
      exact .inl ⟨reading, mem, rfl, Option.some.inj last⟩
    · rw [settles.kept source fun reading mem eq => read ⟨reading, mem, eq⟩] at last
      exact .inr last
  · rw [settles.other other same] at last
    exact .inr last

/-- Settling all readings that were taken conserves. -/
theorem Conserved.settles (h : Conserved width before)
    (settles : before.Settles path taken settled after) (regular : Regular width after.readings)
    (all : ∀ reading ∈ taken, reading ∈ settled) : Conserved width after where
  width := settles.credited.width.trans h.width
  total i := by
    rw [settles.totalAt_eq, settles.accounted_eq, Ledger.sum_account settles.parts_distinct,
      h.total]
    intro part mem
    obtain ⟨reading, member, rfl⟩ := List.mem_map.mp mem
    exact ⟨reading.level, rfl,
      h.gain_add_accountedAt settles regular.rising (settles.among reading member) i⟩
  accounted := settles.accounted_of_all all h.accounted
  shown other source level last := by
    have widths : ∀ reading ∈ taken, reading.level.length = before.ledger.store.width :=
      fun reading mem => settles.widths reading (all reading mem)
    rw [settles.readings]
    rcases settles.last?_cases widths last with ⟨reading, mem, found⟩ | former
    · exact ⟨reading, List.mem_append_right _ mem, found⟩
    · obtain ⟨reading, mem, found⟩ := h.shown other source level former
      exact ⟨reading, List.mem_append_left _ mem, found⟩

/-- With right widths and answered parents nothing that is taken is left out. -/
theorem Settles.all_settled (settles : before.Settles path taken settled after)
    (widths : ∀ reading ∈ taken, reading.level.length = before.ledger.store.width)
    (answered : path = .copyAll → ∀ reading ∈ taken, ∀ parent,
      before.ledger.isolation.parentOf reading.source = some parent →
        parent ∈ before.ledger.standing ∨ ∃ other ∈ taken, other.source = parent)
    (reading : Reading) (mem : reading ∈ taken) : reading ∈ settled := by
  by_contra rest
  rcases settles.unsettled reading mem rest with
    ⟨wrong, mem', -, width⟩ | ⟨copied, parent, child, unknown, unread⟩
  · exact width (widths wrong mem')
  · rcases answered copied reading mem parent child with known | ⟨other, mem', same⟩
    · exact unknown known
    · exact unread other mem' same (widths other mem')

end Settles

/-- One reader all along, and no whole-system reading shows an isolated entity whose parent is
neither known nor shown with it. -/
def Ordinary (session : Session μ) : Call μ → Prop
  | .notice _ => True
  | .meter meter => Gauge.baselines meter = Gauge.baselines session.meter
  | .update .tick _ => True
  | .update .copyAll _ => ∀ levels ∈ (Meter.readAll session.meter).1, ∀ child ∈ levels.keys,
      ∀ parent ∈ session.ledger.isolation.parentOf child,
        parent ∈ session.ledger.standing ∨ parent ∈ levels

instance (session : Session μ) : (call : Call μ) → Decidable (session.Ordinary call)
  | .notice _ => inferInstanceAs (Decidable True)
  | .meter _ => inferInstanceAs (Decidable (_ = _))
  | .update .tick _ => inferInstanceAs (Decidable True)
  | .update .copyAll _ =>
    inferInstanceAs (Decidable (∀ levels ∈ (Meter.readAll session.meter).1, _))

/-- A new ledger with a fresh meter has nothing to conserve yet. -/
theorem conserved_new {config : Config} {ledger : Ledger} (new : Ledger.new config = .ok ledger)
    {meter : μ} (fresh : Gauge.baselines meter = {}) :
    Conserved config.vectorLen { ledger, meter } := by
  cases Ledger.eq_of_new new
  refine ⟨rfl, fun _ => rfl, rfl, ?_⟩
  intro path source level last
  cases path with
  | tick =>
    simp [Session.baselines, fresh, Baselines.last?] at last
  | copyAll => simp [Session.baselines, Baselines.last?] at last

variable [LawfulMeter μ]

theorem Conserved.tick {width : Nat} {session : Session μ} (h : Conserved width session)
    (time : Nat) (regular : Regular width (session.update .tick time).readings) :
    Conserved width (session.update .tick time) := by
  have settlements := session.update_tick_settlements time
  revert regular
  apply settlements.induction (P := fun after =>
    Regular width after.readings → Conserved width after)
  · exact fun _ => h
  -- What is assumed of the readings is assumed at the end, so it is handed back step by step.
  · intro before after taken settled settles conserved regular
    have early : before.readings <+: after.readings :=
      settles.readings ▸ List.prefix_append _ _
    have middle := conserved (regular.of_prefix early)
    apply middle.settles settles regular
    apply settles.all_settled
    · intro reading mem
      rw [middle.width]
      exact regular.widths reading (settles.readings ▸ List.mem_append_right _ mem)
    · exact fun copied => nomatch copied

theorem Conserved.copyAll {width : Nat} {session : Session μ} (h : Conserved width session)
    (time : Nat) (ordinary : session.Ordinary (.update .copyAll time))
    (regular : Regular width (session.update .copyAll time).readings) :
    Conserved width (session.update .copyAll time) := by
  have settles := session.update_copyAll_settles time
  apply h.settles settles regular
  apply settles.all_settled
  · intro reading mem
    rw [h.width]
    exact regular.widths reading (settles.readings ▸ List.mem_append_right _ mem)
  · intro _ reading mem parent child
    cases shown : (Meter.readAll session.meter).1 with
    | none => simp [shown] at mem
    | some levels =>
      have mem : reading ∈ levels.readings := by simpa [shown] using mem
      have read := Table.mem_iff.mpr ⟨_, (Table.mem_readings.mp mem).2⟩
      rcases ordinary levels shown reading.source ((levels.mem_keys _).mpr read) parent child with
        known | beside
      · exact .inl known
      · obtain ⟨level, found⟩ := Table.mem_iff.mp beside
        refine .inr ⟨⟨.copyAll, parent, level⟩, ?_, rfl⟩
        simpa using Table.mem_readings.mpr ⟨rfl, found⟩

theorem Conserved.step {width : Nat} {session : Session μ} {call : Call μ}
    (h : Conserved width session) (ordinary : session.Ordinary call)
    (regular : Regular width (session.step call).readings) :
    Conserved width (session.step call) := by
  cases call with
  | notice notice => exact h.congr (session.ledger.notice_sameBooks notice) rfl rfl
  | meter meter => exact h.congr ⟨rfl, rfl, rfl⟩ rfl ordinary
  | update path time =>
    cases path with
    | tick => exact h.tick time regular
    | copyAll => exact h.copyAll time ordinary regular

theorem Conserved.run {width : Nat} {session : Session μ} {calls : List (Call μ)}
    (h : Conserved width session) (ordinary : Admits Ordinary session calls)
    (regular : Regular width (session.run calls).readings) :
    Conserved width (session.run calls) := by
  revert regular
  apply ordinary.induction (P := fun after =>
    Regular width after.readings → Conserved width after)
  · exact fun _ => h
  · intro before call allowed conserved regular
    exact (conserved (regular.of_prefix (before.readings_step call))).step allowed regular

/-- In every state of a run, the usage of all entities adds up to the accounted levels, and these
are the last readings of all sources. -/
theorem usage_conserved {config : Config} {ledger : Ledger} (new : Ledger.new config = .ok ledger)
    {meter : μ} (fresh : Gauge.baselines meter = {}) {calls : List (Call μ)}
    (ordinary : Admits Ordinary { ledger, meter } calls)
    (regular : Regular config.vectorLen (run { ledger, meter } calls).readings) (n : Nat) :
    let state := run { ledger, meter } (calls.take n)
    (∀ i, state.ledger.store.totalAt i =
      state.ledger.accounted.sum fun level => level.amountAt i) ∧
    state.ledger.accounted = lastLevels state.readings := by
  have conserved := (conserved_new new fresh).run (ordinary.take n)
    (regular.of_prefix (readings_run_take _ calls n))
  exact ⟨conserved.total, conserved.accounted⟩

/-- An isolated entity is read with one parent, moves to another, and is read with that one on both
paths, while a parent has no reading at times. -/
def movedChild : List (Call ScriptedMeter) :=
  let afterTick : Baselines := ⟨.ofList [(1, ⟨[5, 1], 10⟩), (2, ⟨[3, 0], 10⟩)]⟩
  [.notice (.classify 1 .top), .notice (.classify 4 .top), .notice (.isolate 1 2),
    .meter { levels := .ofList [(1, [5, 1]), (2, [3, 0])] },
    .update .tick 10,
    .notice (.isolate 4 2),
    .meter { bulk := some (.ofList [(1, [7, 1]), (2, [4, 2])]), baselines := afterTick },
    .update .copyAll 20,
    .notice (.timeBase true true 25),
    .meter {
      levels := .ofList [(1, [9, 1]), (2, [6, 2]), (4, [2, 2])]
      baselines := afterTick },
    .update .copyAll 30,
    .update .tick 30]

theorem usage_conserved_movedChild :
    Admits Ordinary blank movedChild ∧ Regular 2 (blank.run movedChild).readings ∧
      (blank.run movedChild).readings.length = 7 ∧
      ∀ i, (blank.run (movedChild.take 12)).ledger.store.totalAt i =
        (blank.run (movedChild.take 12)).ledger.accounted.sum fun level => level.amountAt i := by
  have new : Ledger.new { vectorLen := 2 } = .ok blank.ledger := rfl
  have ordinary : Admits Ordinary blank movedChild := by decide +kernel
  have regular : Regular 2 (blank.run movedChild).readings :=
    ⟨by decide +kernel, by decide +kernel⟩
  exact ⟨ordinary, regular, by decide +kernel, (usage_conserved new rfl ordinary regular 12).1⟩

end Session

end UsageLedger
