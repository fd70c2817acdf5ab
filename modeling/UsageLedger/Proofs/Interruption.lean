import Mathlib.Logic.Relation
import UsageLedger.Proofs.Outcome

/-!
Ticks one reading at a time. Between two turns, and while a family is read, a tick asks its meter
for one thing after the other, and any of these may turn out to be the last. What a family has shown
so far is not in the books before all of it has been read, so wherever a tick ends, its books are
those after some whole turns.
-/

namespace UsageLedger

/-- What a tick asks its meter for. -/
inductive Query where
  | gain (source : Nat)
  | baseline (source : Nat)
deriving DecidableEq, Repr

/-- A family that is being read: what it contributes so far, and who is still to be read. -/
structure Harvest where
  entity : Nat
  parts : List Contribution
  waiting : List Nat

inductive Stage where
  /-- No family is being read. -/
  | idle
  /-- The source has shown a gain, and the level it was counted to is looked up next. -/
  | weighing (family : Harvest) (source : Nat) (gain : Measure)
  /-- The next of the isolated entities is read, or the parts are credited. -/
  | merging (family : Harvest)

/-- The isolated entities still to be read are these, if a family is being read. -/
def Stage.Awaits (rest : List Nat) : Stage → Prop
  | .idle => True
  | .weighing family _ _ => family.waiting = rest
  | .merging family => family.waiting = rest

/-- A tick under way: its round so far, the entities not yet taken up, and the family being read. -/
structure Tick (μ : Type) where
  round : Round μ
  waiting : List Nat
  stage : Stage

namespace Tick

variable {μ : Type} [Meter μ]

def start (ledger : Ledger) (meter : μ) : Tick μ := ⟨{ ledger, meter }, ledger.targets, .idle⟩

/-- What the tick asks for next, unless it does something on its own. -/
def request? (tick : Tick μ) : Option Query :=
  match tick.stage with
  | .idle => tick.waiting.head?.map .gain
  | .weighing _ source _ => some (.baseline source)
  | .merging family => family.waiting.head?.map .gain

/-- Reads the gain of an entity of its own. -/
def takeUp (time : Nat) (round : Round μ) (entity : Nat) (waiting : List Nat) : Tick μ :=
  match Meter.readGain round.meter entity time with
  | (none, meter) =>
    ⟨{ round with meter, report := round.report.addSkipped entity }, waiting, .idle⟩
  | (some gain, meter) =>
    match round.ledger.store.checkWidth entity gain with
    | .error fault =>
      let report := round.report.addFailure ⟨entity, .computingDeltas, fault⟩
      ⟨{ round with meter, report }, waiting, .idle⟩
    | .ok () =>
      let family := ⟨entity, [], round.ledger.isolation.childrenOf entity⟩
      ⟨{ round with meter }, waiting, .weighing family entity gain⟩

/-- Reads the gain of an isolated entity. -/
def readChild (time : Nat) (round : Round μ) (waiting : List Nat) (entity : Nat)
    (parts : List Contribution) (child : Nat) (rest : List Nat) : Tick μ :=
  match Meter.readGain round.meter child time with
  | (none, meter) => ⟨{ round with meter }, waiting, .merging ⟨entity, parts, rest⟩⟩
  | (some gain, meter) =>
    match round.ledger.store.checkWidth child gain with
    | .error fault =>
      let report := round.report.addFailure ⟨entity, .merging, fault⟩
      ⟨{ round with meter, report }, waiting, .idle⟩
    | .ok () => ⟨{ round with meter }, waiting, .weighing ⟨entity, parts, rest⟩ child gain⟩

/-- One step of a tick; none once it is done. -/
def next? (time : Nat) (tick : Tick μ) : Option (Tick μ) :=
  match tick.stage with
  | .idle =>
    match tick.waiting with
    | [] => none
    | entity :: waiting => some (takeUp time tick.round entity waiting)
  | .weighing ⟨entity, parts, rest⟩ source gain =>
    let part := tick.round.ledger.contribution tick.round.meter source gain
    some { tick with stage := .merging ⟨entity, parts ++ [part], rest⟩ }
  | .merging ⟨entity, parts, rest⟩ =>
    match rest with
    | [] => some { tick with round := tick.round.commit entity parts, stage := .idle }
    | child :: rest => some (readChild time tick.round tick.waiting entity parts child rest)

/-- Some steps lead from the one tick to the other. -/
def Leads (time : Nat) : Tick μ → Tick μ → Prop :=
  Relation.ReflTransGen fun tick after => tick.next? time = some after

/-- What becomes of the round if the family is read to its end. -/
def finish (time : Nat) (round : Round μ) (family : Harvest) : Round μ :=
  match round.ledger.gatherChildren time family.waiting round.meter with
  | (.error fault, meter) =>
    { round with meter, report := round.report.addFailure ⟨family.entity, .merging, fault⟩ }
  | (.ok others, meter) => Round.commit { round with meter } family.entity (family.parts ++ others)

/-- What becomes of the round in the turn at hand. -/
def settle (time : Nat) (round : Round μ) : Stage → Round μ
  | .idle => round
  | .weighing ⟨entity, parts, rest⟩ source gain =>
    let part := round.ledger.contribution round.meter source gain
    finish time round ⟨entity, parts ++ [part], rest⟩
  | .merging family => finish time round family

theorem finish_nil (time : Nat) (round : Round μ) (entity : Nat) (parts : List Contribution) :
    finish time round ⟨entity, parts, []⟩ = round.commit entity parts := by
  simp [finish, Ledger.gatherChildren]

/-- Taking up an entity begins its turn, and leaves the books alone. -/
theorem takeUp_spec (time : Nat) (round : Round μ) (entity : Nat) (waiting : List Nat) :
    let tick := takeUp time round entity waiting
    tick.waiting = waiting ∧ tick.round.ledger = round.ledger ∧
      settle time tick.round tick.stage = round.tickEntity time entity ∧
      tick.stage.Awaits (round.ledger.isolation.childrenOf entity) := by
  unfold takeUp Round.tickEntity Ledger.gather
  generalize Meter.readGain round.meter entity time = reading
  obtain ⟨gained, meter⟩ := reading
  cases gained with
  | none => exact ⟨rfl, rfl, rfl, trivial⟩
  | some gain =>
    simp only
    cases round.ledger.store.checkWidth entity gain with
    | error fault => exact ⟨rfl, rfl, rfl, trivial⟩
    | ok _ =>
      refine ⟨rfl, rfl, ?_, rfl⟩
      simp only [settle, finish, List.nil_append]
      generalize round.ledger.gatherChildren time _ meter = gathered
      obtain ⟨others, after⟩ := gathered
      cases others <;> rfl

/-- Reading an isolated entity goes on with the turn, and leaves the books alone. -/
theorem readChild_spec (time : Nat) (round : Round μ) (waiting : List Nat) (entity : Nat)
    (parts : List Contribution) (child : Nat) (rest : List Nat) :
    let tick := readChild time round waiting entity parts child rest
    tick.waiting = waiting ∧ tick.round.ledger = round.ledger ∧
      settle time tick.round tick.stage = finish time round ⟨entity, parts, child :: rest⟩ ∧
      tick.stage.Awaits rest := by
  simp only [readChild, finish, Ledger.gatherChildren]
  generalize Meter.readGain round.meter child time = reading
  obtain ⟨gained, meter⟩ := reading
  cases gained with
  | none => exact ⟨rfl, rfl, rfl, rfl⟩
  | some gain =>
    simp only
    cases round.ledger.store.checkWidth child gain with
    | error fault => exact ⟨rfl, rfl, rfl, trivial⟩
    | ok _ =>
      refine ⟨rfl, rfl, ?_, rfl⟩
      simp only [settle, finish]
      generalize round.ledger.gatherChildren time rest meter = gathered
      obtain ⟨others, after⟩ := gathered
      cases others with
      | error fault => rfl
      | ok others => simp only [List.append_assoc, List.singleton_append]

theorem Leads.first {time : Nat} {tick next after : Tick μ} (step : tick.next? time = some next)
    (leads : next.Leads time after) : tick.Leads time after :=
  Relation.ReflTransGen.head step leads

/-- The turn at hand comes to its end, if reading on does once the next reading is in. -/
theorem leads_settle_of_merging {time : Nat} {rest : List Nat}
    (reading : ∀ (round : Round μ) (waiting : List Nat) (entity : Nat) (parts : List Contribution),
      Leads time ⟨round, waiting, .merging ⟨entity, parts, rest⟩⟩
        ⟨finish time round ⟨entity, parts, rest⟩, waiting, .idle⟩)
    {tick : Tick μ} (awaits : tick.stage.Awaits rest) :
    tick.Leads time ⟨settle time tick.round tick.stage, tick.waiting, .idle⟩ := by
  obtain ⟨round, waiting, stage⟩ := tick
  cases stage with
  | idle => exact .refl
  | weighing family source gain =>
    cases awaits
    exact .first rfl (reading round waiting family.entity _)
  | merging family =>
    cases awaits
    exact reading round waiting family.entity family.parts

theorem leads_finish (time : Nat) (rest : List Nat) (round : Round μ) (waiting : List Nat)
    (entity : Nat) (parts : List Contribution) :
    Leads time ⟨round, waiting, .merging ⟨entity, parts, rest⟩⟩
      ⟨finish time round ⟨entity, parts, rest⟩, waiting, .idle⟩ := by
  induction rest generalizing round waiting entity parts with
  | nil =>
    rw [finish_nil]
    exact .first rfl .refl
  | cons child rest ih =>
    obtain ⟨same, -, settles, awaits⟩ := readChild_spec time round waiting entity parts child rest
    have later := leads_settle_of_merging ih awaits
    rw [settles, same] at later
    exact .first rfl later

theorem leads_tickEntity (time : Nat) (round : Round μ) (entity : Nat) (waiting : List Nat) :
    Leads time ⟨round, entity :: waiting, .idle⟩
      ⟨round.tickEntity time entity, waiting, .idle⟩ := by
  obtain ⟨same, -, settles, awaits⟩ := takeUp_spec time round entity waiting
  have later := leads_settle_of_merging (leads_finish time _) awaits
  rw [settles, same] at later
  exact .first rfl later

/-- Step by step a tick comes to the same as turn by turn. -/
theorem leads_turns (time : Nat) (round : Round μ) (waiting : List Nat) :
    Leads time ⟨round, waiting, .idle⟩
      ⟨waiting.foldl (Round.tickEntity time) round, [], .idle⟩ := by
  induction waiting generalizing round with
  | nil => exact .refl
  | cons entity waiting ih =>
    exact (leads_tickEntity time round entity waiting).trans (ih (round.tickEntity time entity))

/-- The tick stands between two turns, or within the turn of an entity whose books are those after
the turns before. -/
inductive Stands (time : Nat) (first : Round μ) (targets : List Nat) : Tick μ → Prop where
  | between {done waiting : List Nat} : targets = done ++ waiting →
      Stands time first targets ⟨done.foldl (Round.tickEntity time) first, waiting, .idle⟩
  | within {done : List Nat} {entity : Nat} {tick : Tick μ} :
      targets = done ++ entity :: tick.waiting →
      tick.round.ledger = (done.foldl (Round.tickEntity time) first).ledger →
      settle time tick.round tick.stage =
        (done.foldl (Round.tickEntity time) first).tickEntity time entity →
      Stands time first targets tick

section Stands

variable {time : Nat} {first : Round μ} {targets : List Nat} {tick after : Tick μ}

theorem Stands.after_turn {done waiting : List Nat} {entity : Nat}
    (split : targets = done ++ entity :: waiting) :
    Stands time first targets
      ⟨(done.foldl (Round.tickEntity time) first).tickEntity time entity, waiting, .idle⟩ := by
  have stands : Stands time first targets
      ⟨(done ++ [entity]).foldl (Round.tickEntity time) first, waiting, .idle⟩ :=
    .between (split.trans (List.append_cons ..))
  rwa [List.foldl_append] at stands

theorem Stands.next_between {done waiting : List Nat} (split : targets = done ++ waiting)
    (step : next? time ⟨done.foldl (Round.tickEntity time) first, waiting, .idle⟩ = some after) :
    Stands time first targets after := by
  cases waiting with
  | nil => cases step
  | cons entity waiting =>
    cases step
    obtain ⟨same, books, settles, -⟩ :=
      takeUp_spec time (done.foldl (Round.tickEntity time) first) entity waiting
    exact .within (by rw [same, split]) books settles

theorem Stands.next (stands : Stands time first targets tick)
    (step : tick.next? time = some after) : Stands time first targets after := by
  cases stands with
  | between split => exact .next_between split step
  | @within done entity _ split books settles =>
    obtain ⟨round, waiting, stage⟩ := tick
    cases stage with
    | idle =>
      -- The entity has been passed over, so the tick stands between two turns as well.
      have passed : round = (done ++ [entity]).foldl (Round.tickEntity time) first := by
        rw [List.foldl_append]
        exact settles
      rw [passed] at step
      exact .next_between (split.trans (List.append_cons ..)) step
    | weighing family source gain =>
      cases step
      exact .within split books settles
    | merging family =>
      obtain ⟨head, parts, rest⟩ := family
      cases rest with
      | nil =>
        cases step
        have turn := (finish_nil time round head parts).symm.trans settles
        rw [turn]
        exact .after_turn split
      | cons child rest =>
        cases step
        obtain ⟨same, kept, turn, -⟩ := readChild_spec time round waiting head parts child rest
        exact .within (by rw [same, split]) (kept.trans books) (turn.trans settles)

theorem Stands.run (stands : Stands time first targets tick) (leads : tick.Leads time after) :
    Stands time first targets after := by
  induction leads with
  | refl => exact stands
  | tail _ step ih => exact ih.next step

theorem Stands.books (stands : Stands time first targets tick) :
    ∃ done waiting, targets = done ++ waiting ∧
      tick.round.ledger = (done.foldl (Round.tickEntity time) first).ledger := by
  cases stands with
  | between split => exact ⟨_, _, split, rfl⟩
  | within split books _ => exact ⟨_, _, split, books⟩

end Stands

end Tick

namespace Ledger

variable {μ : Type} [Meter μ] {ledger : Ledger}

theorem tick_leads (ledger : Ledger) (meter : μ) (time : Nat) :
    (Tick.start ledger meter).Leads time ⟨ledger.tick meter time, [], .idle⟩ :=
  Tick.leads_turns time { ledger, meter } ledger.targets

theorem Reachable.tick_outcome (reachable : ledger.Reachable) (meter : μ) (time : Nat) :
    Round.Outcome ledger ledger.standing.keys (ledger.tick meter time) := by
  rw [← reachable.consistent.targets_eq]
  exact ledger.outcome_of_targets meter time (List.append_nil _).symm

/-- A tick lists each known entity once and nobody else. The books of an updated entity are settled,
and those of a skipped or failed one are as they were, and so are those of its isolated entities. At
every request the books are those after some whole turns. -/
theorem tick_atomic (reachable : ledger.Reachable) (meter : μ) (time : Nat) :
    let round := ledger.tick meter time
    let report := round.report
    (report.updated ++ report.skipped ++ report.failed).Perm ledger.standing.keys ∧
    (∀ entities ∈ [report.updated, report.skipped, report.failed], entities.Pairwise (· < ·)) ∧
    (∀ entity ∈ report.updated,
      round.ledger.pending.get? entity = none ∧
      (∀ state, ledger.targetSlot entity = .known state →
        round.ledger.stateOf entity = some state) ∧
      (ledger.targetSlot entity = .unknown →
        round.ledger.stateOf entity = ledger.stateOf entity) ∧
      ∃ delta, ledger.delta? .tick meter time entity = some delta ∧
        ledger.Lands entity delta round.ledger) ∧
    (∀ entity, entity ∈ report.skipped ∨ entity ∈ report.failed →
      ledger.Spared entity round.ledger) ∧
    (round.ledger.isolation = ledger.isolation ∧ round.ledger.timeBase = ledger.timeBase ∧
      round.ledger.timers = ledger.timers ∧ round.ledger.bulkBaselines = ledger.bulkBaselines ∧
      round.ledger.config = ledger.config) ∧
    (Tick.start ledger meter).Leads time ⟨round, [], .idle⟩ ∧
    ∀ tick request, (Tick.start ledger meter).Leads time tick → tick.request? = some request →
      ∃ done waiting, ledger.targets = done ++ waiting ∧
        tick.round.ledger = (done.foldl (Round.tickEntity time) { ledger, meter }).ledger ∧
        ∀ entity ∈ ledger.standing, ledger.Spared entity tick.round.ledger ∨
          ∃ parts, ledger.Applied entity parts tick.round.ledger := by
  intro round report
  have outcome := reachable.tick_outcome meter time
  have consistent := reachable.consistent
  have listed : report.entered.Nodup := outcome.entered.nodup_iff.mpr ledger.standing.keys_nodup
  refine ⟨outcome.entered, ?_, ?_, ?_, ?_, ledger.tick_leads meter time, ?_⟩
  · have ascending := ledger.standing.keys_ascending
    simp only [List.forall_mem_cons, List.not_mem_nil, false_implies, implies_true, and_true]
    exact ⟨ascending.sublist outcome.updated, ascending.sublist outcome.skipped,
      ascending.sublist outcome.failed⟩
  · intro entity updated
    obtain ⟨parts, applied⟩ := outcome.applied entity updated
    refine ⟨applied.pending, ?_, ?_, tick_lands updated⟩
    · intro state target
      rw [applied.stateOf, nextState_of_known target]
    · intro target
      obtain ⟨next, unclassified⟩ := nextState_of_unknown target
      rw [applied.stateOf, next, unclassified]
  · intro entity passed
    have known : entity ∈ ledger.standing.keys :=
      passed.elim (outcome.skipped.mem ·) (outcome.failed.mem ·)
    refine outcome.spared entity (consistent.apart entity known) fun updated => ?_
    rw [Report.entered, List.append_assoc] at listed
    exact (List.nodup_append.mp listed).2.2 entity updated entity
      (List.mem_append.mpr passed) rfl
  · exact ⟨outcome.scene.isolation, outcome.scene.timeBase, outcome.scene.timers,
      outcome.bulkBaselines, outcome.config⟩
  · intro tick request leads _
    have stands : Tick.Stands time { ledger, meter } ledger.targets (Tick.start ledger meter) :=
      .between (List.nil_append _).symm
    obtain ⟨done, waiting, split, books⟩ := (stands.run leads).books
    refine ⟨done, waiting, split, books, fun entity known => ?_⟩
    have partly := ledger.outcome_of_targets meter time split
    rw [books]
    by_cases updated :
      entity ∈ (done.foldl (Round.tickEntity time) { ledger, meter }).report.updated
    · exact .inr (partly.applied entity updated)
    · exact .inl (partly.spared entity (consistent.known entity known) updated)

/-- One entity is updated, one fails when the second of its isolated entities shows a level of a
wrong width, and one has no reading. -/
def mixedTurns : List (Call ScriptedMeter) :=
  [.notice (.classify 1 .top), .notice (.classify 3 .foreground), .notice (.isolate 3 4),
    .notice (.isolate 3 5), .notice (.classify 7 .cached),
    .meter { levels := .ofList [(1, [5, 1]), (3, [2, 2]), (4, [1, 0]), (5, [9])] }]

theorem tick_atomic_mixedTurns :
    let session := Session.blank.run mixedTurns
    let round := session.ledger.tick session.meter 10
    session.ledger.Reachable ∧ round.report.updated = [1] ∧ round.report.skipped = [7] ∧
      round.report.failures = [⟨3, .merging, .width 5 2 1⟩] ∧
      round.ledger.stateOf 1 = some .top ∧ session.ledger.Spared 3 round.ledger ∧
      session.ledger.Spared 7 round.ledger := by
  intro session round
  have new : Ledger.new { vectorLen := 2 } = .ok Session.blank.ledger := rfl
  have reachable : session.ledger.Reachable :=
    ⟨ScriptedMeter, _, _, Session.blank, mixedTurns, new, rfl⟩
  have updated : round.report.updated = [1] := by decide +kernel
  have skipped : round.report.skipped = [7] := by decide +kernel
  have failures : round.report.failures = [⟨3, .merging, .width 5 2 1⟩] := by decide +kernel
  have target : session.ledger.targetSlot 1 = .known .top := by decide +kernel
  obtain ⟨-, -, settled, spared, -⟩ := tick_atomic reachable session.meter 10
  refine ⟨reachable, updated, skipped, failures, ?_, ?_, ?_⟩
  · exact (settled 1 (by rw [updated]; simp)).2.1 .top target
  · exact spared 3 (.inr (by rw [Report.failed, failures]; simp))
  · exact spared 7 (.inl (by rw [skipped]; simp))

end Ledger

end UsageLedger
