import UsageLedger.Proofs.Conservation
import UsageLedger.Proofs.FamilyUpdate

/-!
Recovery. A path that has abandoned nothing of a family counts from nothing that has not been
accounted for, whatever became of the readings of the other path. So its next update of the family
credits all that has not been credited before.
-/

namespace UsageLedger

/-- The readings of the width. -/
def ofWidth (width : Nat) (readings : List Reading) : List Reading :=
  readings.filter fun reading => reading.level.length = width

theorem Rising.ofWidth_of_prefix {width : Nat} {readings later : List Reading}
    (h : Rising (ofWidth width later)) (early : readings <+: later) :
    Rising (ofWidth width readings) :=
  h.sublist (early.sublist.filter _)

namespace Session

variable {μ : Type} [Meter μ]

/-- One reader all along, and all that the path takes of the sources is credited. -/
def Crediting (path : Path) (sources : List Nat) (session : Session μ) : Call μ → Prop
  | .notice _ => True
  | .meter meter => Gauge.baselines meter = Gauge.baselines session.meter
  | .update next time => next = path → ∀ reading ∈ session.taken next time,
      reading.source ∈ sources →
        session.Updates next time (session.ledger.isolation.ownerOf reading.source)

instance (path : Path) (sources : List Nat) (session : Session μ) :
    (call : Call μ) → Decidable (session.Crediting path sources call)
  | .notice _ => inferInstanceAs (Decidable True)
  | .meter _ => inferInstanceAs (Decidable (_ = _))
  | .update next _ => inferInstanceAs (Decidable (next = path → _))

/-- Accounted levels have been read, and the path counts from nothing that is not accounted for. -/
structure Abreast (width : Nat) (path : Path) (sources : List Nat) (session : Session μ) :
    Prop where
  consistent : session.ledger.Consistent
  read (source : Nat) (level : Measure) : session.ledger.accounted.get? source = some level →
    level.length = width ∧
      ∃ reading ∈ session.readings, reading.source = source ∧ reading.level = level
  behind : ∀ source ∈ sources, ∀ i,
    (session.baselines path).levelAt source i ≤ session.ledger.accountedAt source i
  width : session.ledger.store.width = width

section Abreast

variable {width : Nat} {path : Path} {sources : List Nat} {session : Session μ}

theorem abreast_new {config : Config} {ledger : Ledger} (new : Ledger.new config = .ok ledger)
    {meter : μ} (fresh : Gauge.baselines meter = {}) (path : Path) (sources : List Nat) :
    Abreast config.vectorLen path sources { ledger, meter } := by
  have consistent := Ledger.consistent_new new
  cases Ledger.eq_of_new new
  refine ⟨consistent, ?_, ?_, rfl⟩
  · intro source level found
    simp at found
  · intro source _ i
    cases path with
    | tick => simp [Session.baselines, fresh, Baselines.levelAt, Baselines.last?]
    | copyAll => simp [Session.baselines, Baselines.levelAt, Baselines.last?]

theorem Abreast.congr (h : Abreast width path sources session) {other : Session μ}
    (books : other.ledger.SameBooks session.ledger) (consistent : other.ledger.Consistent)
    (readings : other.readings = session.readings)
    (baselines : Gauge.baselines other.meter = Gauge.baselines session.meter) :
    Abreast width path sources other where
  consistent := consistent
  read := by
    rw [books.accounted, readings]
    exact h.read
  behind := by
    unfold Ledger.accountedAt
    rw [baselines_congr books baselines, books.accounted]
    exact h.behind
  width := by rw [books.store, h.width]

variable [LawfulMeter μ]

/-- Right readings lie above what is accounted for. -/
theorem Abreast.accountedAt_le (h : Abreast width path sources session) {next : Path} {time : Nat}
    (rising : Rising (ofWidth width (session.update next time).readings)) {reading : Reading}
    (mem : reading ∈ session.taken next time) (right : reading.level.length = width) (i : Nat) :
    session.ledger.accountedAt reading.source i ≤ reading.level.amountAt i := by
  unfold Ledger.accountedAt
  cases found : session.ledger.accounted.get? reading.source with
  | none => simp
  | some level =>
    obtain ⟨right', former, mem', same, rfl⟩ := h.read reading.source level found
    rw [readings_update, ofWidth, List.filter_append] at rising
    have above := (List.pairwise_append.mp rising).2.2
    exact above former (List.mem_filter.mpr ⟨mem', decide_eq_true right'⟩) reading
      (List.mem_filter.mpr ⟨mem, decide_eq_true right⟩) same i

/-- The accounted level of a source is as before, or a right reading just taken. -/
theorem accounted_update_cases (flat : session.ledger.isolation.Flat) (next : Path)
    (time source : Nat) :
    (session.update next time).ledger.accounted.get? source =
        session.ledger.accounted.get? source ∨
      ∃ reading ∈ session.taken next time, reading.source = source ∧
        reading.level.length = session.ledger.store.width ∧
        (session.update next time).ledger.accounted.get? source = some reading.level := by
  let entity := session.ledger.isolation.ownerOf source
  have own : ¬ session.ledger.isolation.IsChild entity := flat.not_isChild_ownerOf source
  have family : source ∈ session.ledger.isolation.family entity :=
    (Isolation.mem_family_iff own source).mpr rfl
  have outcome := session.update_outcome own next time
  by_cases updates : session.Updates next time entity
  · by_cases read : ∃ reading ∈ session.takenOf next time entity, reading.source = source
    · obtain ⟨reading, mem, rfl⟩ := read
      obtain ⟨right, -, accounted⟩ := outcome.credited updates reading mem
      exact .inr ⟨reading, (mem_takenOf.mp mem).1, rfl, right, accounted⟩
    · have unread : ∀ reading ∈ session.takenOf next time entity, reading.source ≠ source :=
        fun reading mem same => read ⟨reading, mem, same⟩
      exact .inl (outcome.unread source family unread).2
  · exact .inl (outcome.abandoned updates source family)

theorem Abreast.accountedAt_mono (h : Abreast width path sources session) {next : Path}
    {time : Nat} (rising : Rising (ofWidth width (session.update next time).readings))
    (source i : Nat) : session.ledger.accountedAt source i ≤
      (session.update next time).ledger.accountedAt source i := by
  rcases accounted_update_cases h.consistent.flat next time source with
    same | ⟨reading, mem, rfl, right, accounted⟩
  · unfold Ledger.accountedAt
    rw [same]
  · have le := h.accountedAt_le rising mem (right.trans h.width) i
    have top : (session.update next time).ledger.accountedAt reading.source i =
        reading.level.amountAt i := by
      rw [Ledger.accountedAt, accounted]
      rfl
    omega

theorem Abreast.update (h : Abreast width path sources session) {next : Path} {time : Nat}
    (crediting : session.Crediting path sources (.update next time))
    (rising : Rising (ofWidth width (session.update next time).readings)) :
    Abreast width path sources (session.update next time) := by
  have scene : session.ledger.SameScene (session.update next time).ledger :=
    session.ledger.update_sameScene next session.meter time
  refine ⟨h.consistent.update next session.meter time, ?_, ?_, scene.width.trans h.width⟩
  · intro source level found
    rw [readings_update]
    rcases accounted_update_cases h.consistent.flat next time source with
      same | ⟨reading, mem, own, right, accounted⟩
    · obtain ⟨right, reading, mem, shown⟩ := h.read source level (same.symm.trans found)
      exact ⟨right, reading, List.mem_append_left _ mem, shown⟩
    · cases accounted.symm.trans found
      exact ⟨right.trans h.width, reading, List.mem_append_right _ mem, own, rfl⟩
  · intro source mem i
    have mono := h.accountedAt_mono rising source i
    have behind := h.behind source mem i
    have own := h.consistent.flat.not_isChild_ownerOf source
    have family := (Isolation.mem_family_iff own source).mpr rfl
    have outcome := session.update_outcome own next time
    by_cases same : next = path
    · subst same
      by_cases read : ∃ reading ∈ session.takenOf next time
          (session.ledger.isolation.ownerOf source), reading.source = source
      -- The path has read the source, and its reading is now the baseline and accounted for.
      · obtain ⟨reading, shown, rfl⟩ := read
        have updates := crediting rfl reading (mem_takenOf.mp shown).1 mem
        obtain ⟨-, last, accounted⟩ := outcome.credited updates reading shown
        rw [Baselines.levelAt, Ledger.accountedAt, last, accounted]
      · have unread := outcome.unread source family fun reading shown own =>
          read ⟨reading, shown, own⟩
        rw [Baselines.levelAt, unread.1]
        exact Nat.le_trans behind mono
    · have kept := outcome.other path (Ne.symm same) source family
      rw [Baselines.levelAt, kept]
      exact Nat.le_trans behind mono

theorem Abreast.step (h : Abreast width path sources session) {call : Call μ}
    (crediting : session.Crediting path sources call)
    (rising : Rising (ofWidth width (session.step call).readings)) :
    Abreast width path sources (session.step call) := by
  cases call with
  | notice notice =>
    exact h.congr (session.ledger.notice_sameBooks notice) (h.consistent.notice notice) rfl rfl
  | meter meter => exact h.congr ⟨rfl, rfl, rfl⟩ h.consistent rfl crediting
  | update next time => exact h.update crediting rising

theorem Abreast.run {calls : List (Call μ)} (h : Abreast width path sources session)
    (crediting : Admits (Crediting path sources) session calls)
    (rising : Rising (ofWidth width (session.run calls).readings)) :
    Abreast width path sources (session.run calls) := by
  revert rising
  apply crediting.induction (P := fun after =>
    Rising (ofWidth width after.readings) → Abreast width path sources after)
  · exact fun _ => h
  · intro before call allowed abreast rising
    have early := rising.ofWidth_of_prefix (before.readings_step call)
    exact (abreast early).step allowed rising

end Abreast

variable [LawfulMeter μ]

/-- If a path has credited all that it read of a family, an update on it that reports the entity
updated adds to the target row just how far its readings of the family lie above the accounted
levels, whatever the other path has read, credited or abandoned before. -/
theorem abandoned_recovered {config : Config} {ledger : Ledger}
    (new : Ledger.new config = .ok ledger) {meter : μ} (fresh : Gauge.baselines meter = {})
    (calls : List (Call μ)) (path : Path) (time entity : Nat) :
    let session := run { ledger, meter } calls
    let after := session.update path time
    let shown := session.takenOf path time entity
    Admits (Crediting path (session.ledger.isolation.family entity)) { ledger, meter } calls →
    Rising (ofWidth config.vectorLen after.readings) → session.Updates path time entity →
      (∃ delta, session.ledger.Lands entity delta after.ledger ∧
        ∀ i, delta.amountAt i = (shown.map fun reading =>
          reading.level.amountAt i - session.ledger.accountedAt reading.source i).sum) ∧
      ∀ reading ∈ shown,
        after.ledger.accounted.get? reading.source = some reading.level ∧
          ∀ i, session.ledger.accountedAt reading.source i ≤ reading.level.amountAt i := by
  intro session after shown crediting rising updates
  have early := rising.ofWidth_of_prefix (session.readings_step (.update path time))
  have abreast := (abreast_new new fresh path _).run crediting early
  have own := not_isChild_of_updates abreast.consistent.flat updates
  have outcome := session.update_outcome own path time
  constructor
  · obtain ⟨delta, lands, amount⟩ := outcome.lands updates
    refine ⟨delta, lands, fun i => ?_⟩
    rw [amount, gainAt, List.map_map]
    congr 1
    apply List.map_congr_left
    intro reading mem
    have behind := abreast.behind reading.source (mem_takenOf.mp mem).2 i
    have gain := session.ledger.amountAt_credit_gain (session.baselines path) reading i
    rw [Nat.max_eq_right behind] at gain
    exact gain
  · intro reading mem
    obtain ⟨right, -, accounted⟩ := outcome.credited updates reading mem
    exact ⟨accounted, abreast.accountedAt_le rising (mem_takenOf.mp mem).1
      (right.trans abreast.width)⟩

/-- Ticks abandon what they read of an entity, because the level of its isolated entity is too
short. Copies of all levels credit both. -/
def abandonedTicks : List (Call ScriptedMeter) :=
  [.notice (.classify 1 .top), .notice (.isolate 1 2),
    .meter { levels := .ofList [(1, [5, 1]), (2, [3])] },
    .update .tick 10,
    .meter {
      bulk := some (.ofList [(1, [6, 1]), (2, [4, 2])])
      baselines := ⟨.ofList [(1, ⟨[5, 1], 10⟩), (2, ⟨[3], 10⟩)]⟩ },
    .update .copyAll 20,
    .meter {
      levels := .ofList [(1, [9, 1]), (2, [7])]
      baselines := ⟨.ofList [(1, ⟨[5, 1], 10⟩), (2, ⟨[3], 10⟩)]⟩ },
    .update .tick 30,
    .meter {
      bulk := some (.ofList [(1, [9, 3]), (2, [8, 2])])
      baselines := ⟨.ofList [(1, ⟨[9, 1], 30⟩), (2, ⟨[7], 30⟩)]⟩ }]

theorem abandoned_recovered_abandonedTicks :
    let session := blank.run abandonedTicks
    ¬ (blank.run (abandonedTicks.take 7)).Updates .tick 30 1 ∧
      ∃ delta, session.ledger.Lands 1 delta (session.update .copyAll 40).ledger ∧
        delta.amountAt 0 = 7 ∧ delta.amountAt 1 = 2 := by
  intro session
  have new : Ledger.new { vectorLen := 2 } = .ok blank.ledger := rfl
  have crediting : Admits (Crediting .copyAll (session.ledger.isolation.family 1)) blank
      abandonedTicks := by decide +kernel
  have rising : Rising (ofWidth 2 (session.update .copyAll 40).readings) := by decide +kernel
  have updates : session.Updates .copyAll 40 1 := by decide +kernel
  obtain ⟨⟨delta, lands, amount⟩, -⟩ := abandoned_recovered new rfl abandonedTicks .copyAll 40 1
    crediting rising updates
  have first : delta.amountAt 0 = 7 := by
    rw [amount]
    decide +kernel
  have second : delta.amountAt 1 = 2 := by
    rw [amount]
    decide +kernel
  exact ⟨by decide +kernel, delta, lands, first, second⟩

end Session

end UsageLedger
