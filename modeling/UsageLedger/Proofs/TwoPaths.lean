import UsageLedger.Proofs.SharedSource

namespace UsageLedger

/-- A step of a run on either path. To account for a source's levels is to read it with the
baselines that the reader has kept so far. -/
inductive Move (μ : Type) where
  | notice (notice : Notice)
  | account (levels : Table Measure) (meter : μ) (time : Nat)

namespace Move

variable {μ : Type}

/-- No source shows less in the later step. -/
def Precedes : Move μ → Move μ → Prop
  | .account levels _ _, .account later _ _ => ∀ source level next,
      levels.get? source = some level → later.get? source = some next → next.Covers level
  | _, _ => True

instance : (earlier later : Move μ) → Decidable (earlier.Precedes later)
  | .account levels _ _, .account later _ _ =>
    decidable_of_iff (∀ entry ∈ levels.entries, ∀ next ∈ later.get? entry.1,
      next.Covers entry.2) <| by
      constructor
      · intro covers source level next found found'
        exact covers (source, level) ((levels.mem_entries_iff _ _).mpr found) next found'
      · intro precedes entry mem next found
        exact precedes entry.1 entry.2 next ((levels.mem_entries_iff _ _).mp mem) found
  | .account .., .notice _ => .isTrue trivial
  | .notice _, _ => .isTrue trivial

/-- The step shows nothing below what is accounted for. -/
def Above (ledger : Ledger) : Move μ → Prop
  | .notice _ => True
  | .account levels _ _ => ledger.Above levels

end Move

namespace Round

variable {μ : Type} [Meter μ]

def play (round : Round μ) : Move μ × Path → Round μ
  | (.notice notice, _) => { ledger := round.ledger.notice notice, meter := round.meter }
  | (.account _ meter time, path) =>
    round.ledger.update path (Gauge.withBaselines meter (Gauge.baselines round.meter)) time

/-- Takes the steps of the schedule in turn. -/
def follow (round : Round μ) (schedule : List (Move μ × Path)) : Round μ :=
  schedule.foldl play round

/-- The step accounts for levels of all known entities, and of entities isolated under these. -/
def Supplied (round : Round μ) : Move μ → Prop
  | .notice _ => True
  | .account levels meter _ => Meter.Offers meter levels ∧ round.ledger.Serves levels

/-- Each step of the schedule finds the round supplied. -/
def Served : Round μ → List (Move μ × Path) → Prop
  | _, [] => True
  | round, step :: rest => round.Supplied step.1 ∧ Served (round.play step) rest

/-- Neither path counts from more than what has been accounted for. -/
structure Sound (round : Round μ) : Prop where
  consistent : round.ledger.Consistent
  bulk : round.ledger.Behind round.ledger.bulkBaselines
  meter : round.ledger.Behind (Gauge.baselines round.meter)

/-- The two rounds agree in all but baselines and meters. -/
structure Agree (first second : Round μ) : Prop where
  ledger : first.ledger.withBulk {} = second.ledger.withBulk {}
  updated : first.report.updated = second.report.updated

theorem Sound.notice {round : Round μ} (h : round.Sound) (notice : Notice) (path : Path) :
    (round.play (.notice notice, path)).Sound := by
  have books := round.ledger.notice_sameBooks notice
  have behind {baselines : Baselines} (behind : round.ledger.Behind baselines) :
      (round.ledger.notice notice).Behind baselines := by
    intro source i
    rw [Ledger.accountedAt, books.accounted]
    exact behind source i
  exact ⟨h.consistent.notice notice, behind (books.bulkBaselines ▸ h.bulk), behind h.meter⟩

theorem Agree.notice {first second : Round μ} (h : first.Agree second) (notice : Notice)
    (path other : Path) :
    (first.play (.notice notice, path)).Agree (second.play (.notice notice, other)) where
  ledger := by
    have same := congrArg (fun ledger => ledger.notice notice) h.ledger
    simp only [Ledger.notice_withBulk] at same
    exact same
  updated := rfl

theorem sound_new {config : Config} {ledger : Ledger} (new : Ledger.new config = .ok ledger)
    {meter : μ} (fresh : Gauge.baselines meter = {}) : Sound { ledger, meter } where
  consistent := Ledger.consistent_new new
  bulk := by
    cases Ledger.eq_of_new new
    intro source i
    simp [Baselines.levelAt, Baselines.last?]
  meter := by
    intro source i
    simp [fresh, Baselines.levelAt, Baselines.last?]

variable [LawfulMeter μ]

/-- Accounting on either path absorbs the levels. -/
theorem Sound.account {round : Round μ} (h : round.Sound) {levels : Table Measure} {meter : μ}
    (time : Nat) (supplied : round.Supplied (.account levels meter time))
    (above : round.ledger.Above levels) (path : Path) :
    let after := round.play (.account levels meter time, path)
    (∃ bulk, after.ledger =
        (round.ledger.absorb levels round.ledger.standing.keys).withBulk bulk) ∧
      after.report.updated = round.ledger.standing.keys ∧ after.Sound := by
  obtain ⟨offers, serves⟩ := supplied
  let reader := Gauge.withBaselines meter (Gauge.baselines round.meter)
  have offered : Meter.Offers reader levels := offers.withBaselines _
  have own : Gauge.baselines reader = Gauge.baselines round.meter :=
    LawfulMeter.baselines_withBaselines meter _
  have behind : round.ledger.Behind (Gauge.baselines reader) := own ▸ h.meter
  have known : ∀ entity ∈ round.ledger.standing.keys, entity ∈ round.ledger.standing :=
    fun entity mem => (round.ledger.standing.mem_keys entity).mp mem
  have consistent := h.consistent.absorb serves.fits known
  cases path with
  | tick =>
    obtain ⟨after, result, moved⟩ :=
      Ledger.tick_absorbs h.consistent serves offered behind time
    have bulk := h.bulk.absorb serves.fits above h.consistent.apart
    have played : round.play (.account levels meter time, .tick) =
        round.ledger.tick reader time := rfl
    rw [played, result]
    refine ⟨⟨_, rfl⟩, rfl, consistent, ?_, moved⟩
    rw [Ledger.bulkBaselines_absorb]
    exact bulk
  | copyAll =>
    obtain ⟨after, result, kept⟩ :=
      Ledger.copyAll_absorbs h.consistent serves offered h.bulk time
    have gauge := behind.absorb serves.fits above h.consistent.apart
    have played : round.play (.account levels meter time, .copyAll) =
        round.ledger.copyAll reader time := rfl
    rw [played, result]
    refine ⟨⟨_, rfl⟩, rfl, ⟨consistent.pending, consistent.known, consistent.flat⟩,
      h.bulk.rebase h.consistent serves time, ?_⟩
    rw [kept]
    exact gauge

/-- One step on whichever paths. -/
theorem Agree.step {first second : Round μ} (h : first.Agree second) (sound : first.Sound)
    (sound' : second.Sound) {move : Move μ} (supplied : first.Supplied move)
    (above : move.Above first.ledger) (path other : Path) :
    (first.play (move, path)).Agree (second.play (move, other)) ∧
      (first.play (move, path)).Sound ∧ (second.play (move, other)).Sound := by
  cases move with
  | notice notice => exact ⟨h.notice notice path other, sound.notice notice path,
      sound'.notice notice other⟩
  | account levels meter time =>
    have same : second.ledger = first.ledger.withBulk second.ledger.bulkBaselines :=
      congrArg (fun ledger => ledger.withBulk second.ledger.bulkBaselines) h.ledger.symm
    have serves : second.ledger.Serves levels := by
      rw [same]
      exact ⟨supplied.2.fits, supplied.2.complete, supplied.2.only⟩
    have above' : second.ledger.Above levels := by
      rw [same]
      exact above
    obtain ⟨⟨bulk, absorbed⟩, updated, after⟩ := sound.account time supplied above path
    obtain ⟨⟨bulk', absorbed'⟩, updated', after'⟩ :=
      sound'.account time ⟨supplied.1, serves⟩ above' other
    refine ⟨⟨?_, ?_⟩, after, after'⟩
    · rw [absorbed, absorbed', same, Ledger.absorb_withBulk]
      rfl
    · rw [updated, updated', same]
      rfl

/-- Later levels still lie above what is accounted for after the step. -/
theorem Sound.above_play {round : Round μ} (h : round.Sound) {move later : Move μ}
    (supplied : round.Supplied move) (above : move.Above round.ledger)
    (precedes : move.Precedes later) (above' : later.Above round.ledger) (path : Path) :
    later.Above (round.play (move, path)).ledger := by
  cases later with
  | notice notice => trivial
  | account next meter time =>
    cases move with
    | notice notice =>
      intro source level accounted found former
      have books := round.ledger.notice_sameBooks notice
      exact above' source level accounted found (books.accounted ▸ former)
    | account levels meter' time' =>
      intro source level accounted found former
      obtain ⟨⟨bulk, absorbed⟩, -, -⟩ := h.account time' supplied above path
      rw [absorbed] at former
      rcases Ledger.get?_accounted_absorb_cases supplied.2.fits h.consistent.apart source with
        same | ⟨read, found', result⟩
      · exact above' source level accounted found (same.symm.trans former)
      · have eq := Option.some.inj (result.symm.trans former)
        exact eq ▸ precedes source read level found' found

theorem Agree.run {first second : Round μ} (h : first.Agree second) (sound : first.Sound)
    (sound' : second.Sound) {schedule other : List (Move μ × Path)}
    (same : schedule.map Prod.fst = other.map Prod.fst) (served : first.Served schedule)
    (rising : (schedule.map Prod.fst).Pairwise Move.Precedes)
    (above : ∀ step ∈ schedule, step.1.Above first.ledger) (n : Nat) :
    (first.follow (schedule.take n)).Agree (second.follow (other.take n)) := by
  induction schedule generalizing other first second n with
  | nil =>
    rw [List.map_nil, eq_comm, List.map_eq_nil_iff] at same
    simpa [same, follow] using h
  | cons step schedule ih =>
    cases other with
    | nil => simp at same
    | cons choice other =>
      obtain ⟨move, path⟩ := step
      obtain ⟨_, path'⟩ := choice
      obtain ⟨rfl, rest⟩ := List.cons.inj same
      cases n with
      | zero => exact h
      | succ n =>
        -- The runs may count from other baselines, but the moves to come still fit both of them.
        obtain ⟨precedes, rising⟩ := List.pairwise_cons.mp rising
        obtain ⟨now, later⟩ := List.forall_mem_cons.mp above
        obtain ⟨agree, after, after'⟩ := h.step sound sound' served.1 now path path'
        apply ih agree after after' rest served.2 rising
        intro step mem
        exact sound.above_play served.1 now (precedes step.1 (List.mem_map_of_mem mem))
          (later step mem) path

/-- Which path performs an update does not show in the books, nor in who is reported updated. -/
theorem paths_agree {config : Config} {ledger : Ledger} (new : Ledger.new config = .ok ledger)
    {meter : μ} (fresh : Gauge.baselines meter = {}) {schedule other : List (Move μ × Path)}
    (same : schedule.map Prod.fst = other.map Prod.fst)
    (served : Served { ledger, meter } schedule)
    (rising : (schedule.map Prod.fst).Pairwise Move.Precedes) (n : Nat) :
    let first := follow { ledger, meter } (schedule.take n)
    let second := follow { ledger, meter } (other.take n)
    first.ledger.store = second.ledger.store ∧ first.ledger.standing = second.ledger.standing ∧
      first.ledger.pending = second.ledger.pending ∧
      first.ledger.accounted = second.ledger.accounted ∧
      first.report.updated = second.report.updated := by
  have start : (Round.mk ledger meter {}).Agree ⟨ledger, meter, {}⟩ := ⟨rfl, rfl⟩
  have sound : Sound { ledger, meter } := sound_new new fresh
  have above : ∀ step ∈ schedule, step.1.Above ledger := by
    cases Ledger.eq_of_new new
    rintro ⟨move, _⟩ -
    cases move with
    | notice notice => trivial
    | account levels meter time =>
      intro source level accounted _ former
      simp at former
  have agree := start.run sound sound same served rising above n
  have store := congrArg Ledger.store agree.ledger
  have standing := congrArg Ledger.standing agree.ledger
  have pending := congrArg Ledger.pending agree.ledger
  have accounted := congrArg Ledger.accounted agree.ledger
  exact ⟨store, standing, pending, accounted, agree.updated⟩

/-- An isolated entity moves between parents and becomes one of its own, under changing states. -/
def movingChild : List (Move ScriptedMeter) :=
  let account (levels : List (Nat × Measure)) (time : Nat) : Move ScriptedMeter :=
    .account (.ofList levels) { levels := .ofList levels, bulk := some (.ofList levels) } time
  [.notice (.classify 1 .top), .notice (.classify 3 .foreground), .notice (.isolate 1 2),
    account [(1, [5, 1]), (2, [2, 0]), (3, [1, 1])] 10,
    .notice (.timeBase true true 15), .notice (.isolate 3 2), .notice (.classify 3 .background),
    account [(1, [5, 4]), (2, [3, 7]), (3, [2, 1])] 20,
    account [(1, [6, 4]), (3, [2, 2])] 30,
    .notice (.unisolate 2), .notice (.classify 2 .top),
    account [(1, [6, 5]), (2, [9, 9]), (3, [8, 2])] 40]

theorem paths_agree_movingChild :
    let start : Round ScriptedMeter :=
      { ledger := { config := { vectorLen := 2 }, store := { width := 2 } }, meter := {} }
    let ticks := movingChild.zip (List.replicate 12 .tick)
    let mixed := movingChild.map fun move => (move, match move with
      | .notice _ => .tick
      | .account _ _ time => if time = 30 then .tick else .copyAll)
    start.Served ticks ∧ ∀ n, (start.follow (ticks.take n)).ledger.store =
      (start.follow (mixed.take n)).ledger.store := by
  intro start ticks mixed
  have new : Ledger.new { vectorLen := 2 } = .ok start.ledger := rfl
  have same : ticks.map Prod.fst = mixed.map Prod.fst := rfl
  have served : start.Served ticks :=
    ⟨trivial, trivial, trivial, ⟨ScriptedMeter.offers _ _, by decide +kernel⟩, trivial, trivial,
      trivial, ⟨ScriptedMeter.offers _ _, by decide +kernel⟩,
      ⟨ScriptedMeter.offers _ _, by decide +kernel⟩, trivial, trivial,
      ⟨ScriptedMeter.offers _ _, by decide +kernel⟩, trivial⟩
  have rising : (ticks.map Prod.fst).Pairwise Move.Precedes := by decide +kernel
  exact ⟨served, fun n => (paths_agree new rfl same served rising n).1⟩

end Round

end UsageLedger
