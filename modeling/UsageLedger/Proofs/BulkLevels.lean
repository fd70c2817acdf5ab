import UsageLedger.Proofs.Families

/-!
Other baselines for whole-system readings. Ticks and notices do not look at them, and of a source's
baseline a copy of all levels uses nothing but the amounts. Two ledgers that differ in no more than
the form of these baselines are never told apart.
-/

namespace UsageLedger

namespace Round

variable {μ : Type}

def withBulk (round : Round μ) (baselines : Baselines) : Round μ :=
  { round with ledger := round.ledger.withBulk baselines }

theorem commit_withBulk (round : Round μ) (baselines : Baselines) (entity : Nat)
    (parts : List Contribution) : (round.withBulk baselines).commit entity parts =
      (round.commit entity parts).withBulk baselines := by
  have done := round.ledger.commit_withBulk baselines entity parts
  have same : (round.withBulk baselines).ledger = round.ledger.withBulk baselines := rfl
  unfold Round.commit
  rw [same, done]
  cases round.ledger.commit entity parts <;> rfl

theorem tickEntity_withBulk [Meter μ] (round : Round μ) (baselines : Baselines)
    (time entity : Nat) : (round.withBulk baselines).tickEntity time entity =
      (round.tickEntity time entity).withBulk baselines := by
  have width : (round.withBulk baselines).ledger.store.width = round.ledger.store.width := rfl
  have isolation : (round.withBulk baselines).ledger.isolation = round.ledger.isolation := rfl
  obtain ⟨gathered, after, _, result, result', rfl⟩ := Ledger.gather_congr width isolation
    (Matches.refl _ time) (fun _ _ => rfl) (rfl : round.meter = round.meter)
  have read :
      (round.withBulk baselines).ledger.gather (round.withBulk baselines).meter entity time =
      (gathered, after) := result
  unfold Round.tickEntity
  rw [read, result']
  cases gathered with
  | unavailable => rfl
  | failed phase fault => rfl
  | complete parts => exact commit_withBulk { round with meter := after } baselines entity parts

end Round

namespace Baselines

/-- All levels are the same; the times and missing slots may be others. -/
def SameLevels (first second : Baselines) : Prop :=
  ∀ source i, first.levelAt source i = second.levelAt source i

theorem SameLevels.gain {first second : Baselines} (h : first.SameLevels second) (source : Nat)
    (level : Measure) : first.gain source level = second.gain source level := by
  unfold Baselines.gain
  apply Measure.ext_amountAt
  · simp
  · intro i
    have base := h source i
    unfold levelAt at base
    rw [Measure.amountAt_since, Measure.amountAt_since, base]

end Baselines

namespace Ledger

variable {μ : Type} [Meter μ]

theorem tick_withBulk (ledger : Ledger) (baselines : Baselines) (meter : μ) (time : Nat) :
    (ledger.withBulk baselines).tick meter time =
      (ledger.tick meter time).withBulk baselines := by
  have turns (round : Round μ) (entity : Nat) := round.tickEntity_withBulk baselines time entity
  have targets : (ledger.withBulk baselines).targets = ledger.targets := rfl
  let round : Round μ := { ledger, meter }
  have start : round.withBulk baselines = { ledger := ledger.withBulk baselines, meter } := rfl
  rw [tick, tick, targets, ← start]
  exact List.foldl_hom (fun round : Round μ => round.withBulk baselines) turns

theorem levelAt_rebase (ledger : Ledger) (levels : Table Measure) (time source i : Nat) :
    (ledger.rebase levels time).bulkBaselines.levelAt source i =
      match (ledger.accepted levels).get? source with
      | some level => level.amountAt i
      | none => ledger.bulkBaselines.levelAt source i := by
  unfold Baselines.levelAt Baselines.last?
  rw [get?_rebase]
  cases (ledger.accepted levels).get? source <;> rfl

theorem assigned_withBulk {ledger : Ledger} {baselines : Baselines}
    (same : baselines.SameLevels ledger.bulkBaselines) (levels : Table Measure) :
    (ledger.withBulk baselines).assigned levels = ledger.assigned levels := by
  have credits : (ledger.withBulk baselines).credit baselines =
      ledger.credit ledger.bulkBaselines := by
    funext reading
    unfold credit
    rw [same.gain]
    rfl
  have own : (ledger.withBulk baselines).bulkBaselines = baselines := rfl
  rw [assigned_eq, assigned_eq, own, credits]
  rfl

theorem copyAll_withBulk {ledger : Ledger} {baselines : Baselines}
    (same : baselines.SameLevels ledger.bulkBaselines) (meter : μ) (time : Nat) :
    ∃ moved, (ledger.withBulk baselines).copyAll meter time =
        (ledger.copyAll meter time).withBulk moved ∧
      moved.SameLevels (ledger.copyAll meter time).ledger.bulkBaselines := by
  cases read : Meter.readAll meter with
  | mk levels after =>
    cases levels with
    | none =>
      unfold copyAll
      rw [read]
      exact ⟨baselines, rfl, same⟩
    | some levels =>
      let moved := ((ledger.withBulk baselines).rebase levels time).bulkBaselines
      refine ⟨moved, ?_, ?_⟩
      · unfold copyAll
        rw [read]
        simp only [assigned_withBulk same]
        let round : Round μ :=
          ⟨ledger.rebase levels time, after, { failures := ledger.widthFailures levels }⟩
        have start : round.withBulk moved = ⟨(ledger.withBulk baselines).rebase levels time, after,
            { failures := (ledger.withBulk baselines).widthFailures levels }⟩ := rfl
        rw [← start]
        exact List.foldl_hom (fun round : Round μ => round.withBulk moved) fun round entity =>
          round.commit_withBulk moved entity (shareOf (ledger.assigned levels) entity)
      · intro source i
        have level := (ledger.withBulk baselines).levelAt_rebase levels time source i
        have accepted : (ledger.withBulk baselines).accepted levels = ledger.accepted levels := rfl
        rw [accepted] at level
        rw [ledger.bulkBaselines_copyAll read]
        refine level.trans ?_
        rw [levelAt_rebase]
        cases (ledger.accepted levels).get? source with
        | none => exact same source i
        | some level => rfl

theorem bulkBaselines_tick (ledger : Ledger) (meter : μ) (time : Nat) :
    (ledger.tick meter time).ledger.bulkBaselines = ledger.bulkBaselines :=
  congrArg (fun round : Round μ => round.ledger.bulkBaselines)
    (ledger.tick_withBulk ledger.bulkBaselines meter time)

theorem update_withBulk {ledger : Ledger} {baselines : Baselines}
    (same : baselines.SameLevels ledger.bulkBaselines) (path : Path) (meter : μ) (time : Nat) :
    ∃ moved, (ledger.withBulk baselines).update path meter time =
        (ledger.update path meter time).withBulk moved ∧
      moved.SameLevels (ledger.update path meter time).ledger.bulkBaselines := by
  cases path with
  | tick =>
    refine ⟨baselines, ledger.tick_withBulk baselines meter time, ?_⟩
    have kept := ledger.bulkBaselines_tick meter time
    exact kept.symm ▸ same
  | copyAll => exact copyAll_withBulk same meter time

/-- The baselines for whole-system readings show nothing beyond the width. -/
def Bounded (ledger : Ledger) : Prop :=
  ∀ source i, ledger.store.width ≤ i → ledger.bulkBaselines.levelAt source i = 0

theorem Bounded.congr {ledger other : Ledger} (h : ledger.Bounded)
    (width : other.store.width = ledger.store.width)
    (baselines : other.bulkBaselines = ledger.bulkBaselines) : other.Bounded := by
  intro source i beyond
  rw [baselines]
  exact h source i (width ▸ beyond)

theorem Bounded.update {ledger : Ledger} (h : ledger.Bounded) (path : Path) (meter : μ)
    (time : Nat) : (ledger.update path meter time).ledger.Bounded := by
  have scene := ledger.update_sameScene path meter time
  cases path with
  | tick => exact h.congr scene.width (ledger.bulkBaselines_tick meter time)
  | copyAll =>
    cases read : Meter.readAll meter with
    | mk levels after =>
      cases levels with
      | none =>
        have result : ledger.update .copyAll meter time =
            ⟨ledger, after, { bulkUnavailable := true }⟩ := by
          unfold Ledger.update copyAll
          rw [read]
        rw [result]
        exact h
      | some levels =>
        have rebased : (ledger.update .copyAll meter time).ledger.bulkBaselines =
            (ledger.rebase levels time).bulkBaselines := ledger.bulkBaselines_copyAll read time
        intro source i beyond
        rw [scene.width] at beyond
        rw [rebased, levelAt_rebase]
        cases found : (ledger.accepted levels).get? source with
        | none => exact h source i beyond
        | some level =>
          have right : level.length = ledger.store.width := by
            rw [get?_accepted, Option.filter_eq_some_iff] at found
            simpa using found.2
          exact Measure.amountAt_eq_zero (by rw [right]; exact beyond)

theorem Reachable.bounded {ledger : Ledger} (h : ledger.Reachable) : ledger.Bounded := by
  obtain ⟨ν, _, config, start, calls, new, rfl⟩ := h
  apply List.foldlRecOn (motive := fun session : Session ν => session.ledger.Bounded)
  · intro source i _
    rw [eq_of_new new]
    rfl
  · intro session bounded call _
    cases call with
    | notice notice =>
      have books := session.ledger.notice_sameBooks notice
      exact bounded.congr (congrArg Store.width books.store) books.bulkBaselines
    | meter meter => exact bounded
    | update path time => exact bounded.update path session.meter time

/-- The two ledgers differ at most in the form of their baselines for whole-system readings. -/
structure Alike (first second : Ledger) : Prop where
  rest : first.withBulk {} = second.withBulk {}
  levels : second.bulkBaselines.SameLevels first.bulkBaselines

section Alike

variable {first second : Ledger}

theorem eq_withBulk (rest : first.withBulk {} = second.withBulk {}) :
    second = first.withBulk second.bulkBaselines :=
  congrArg (fun ledger => ledger.withBulk second.bulkBaselines) rest.symm

theorem Alike.update (h : first.Alike second) (path : Path) (meter : μ) (time : Nat) :
    (first.update path meter time).ledger.Alike (second.update path meter time).ledger ∧
      (first.update path meter time).meter = (second.update path meter time).meter ∧
      (first.update path meter time).report = (second.update path meter time).report := by
  obtain ⟨moved, result, levels⟩ := update_withBulk h.levels path meter time
  rw [← eq_withBulk h.rest] at result
  rw [result]
  exact ⟨⟨rfl, levels⟩, rfl, rfl⟩

theorem Alike.notice (h : first.Alike second) (notice : Notice) :
    (first.notice notice).Alike (second.notice notice) where
  rest := by rw [← notice_withBulk, ← notice_withBulk, h.rest]
  levels := by
    rw [(first.notice_sameBooks notice).bulkBaselines,
      (second.notice_sameBooks notice).bulkBaselines]
    exact h.levels

end Alike

end Ledger

namespace Session

variable {μ : Type} [Meter μ] {first second : Session μ}

structure Alike (first second : Session μ) : Prop where
  ledger : first.ledger.Alike second.ledger
  meter : first.meter = second.meter
  readings : first.readings = second.readings

theorem Alike.step (h : first.Alike second) (call : Call μ) :
    (first.step call).Alike (second.step call) := by
  cases call with
  | notice notice => exact ⟨h.ledger.notice notice, h.meter, h.readings⟩
  | meter meter => exact ⟨h.ledger, rfl, h.readings⟩
  | update path time =>
    obtain ⟨ledger, meter, -⟩ := h.ledger.update path first.meter time
    obtain ⟨-, recorded, -⟩ :=
      h.ledger.update path (Recorder.mk first.meter first.readings) time
    unfold Session.step Session.update
    rw [← h.meter, ← h.readings]
    exact ⟨ledger, meter, congrArg Recorder.readings recorded⟩

theorem Alike.run (h : first.Alike second) (calls : List (Call μ)) :
    (first.run calls).Alike (second.run calls) := by
  induction calls generalizing first second with
  | nil => exact h
  | cons call calls ih => exact ih (h.step call)

/-- The two sessions hold the same cells, states and pending states, and every update reports the
same in both. -/
structure Indistinct (first second : Session μ) : Prop where
  store : first.ledger.store = second.ledger.store
  standing : first.ledger.standing = second.ledger.standing
  pending : first.ledger.pending = second.ledger.pending
  reports : ∀ path time, (first.ledger.update path first.meter time).report =
    (second.ledger.update path second.meter time).report

theorem Alike.indistinct (h : first.Alike second) : first.Indistinct second := by
  have store := congrArg Ledger.store h.ledger.rest
  have standing := congrArg Ledger.standing h.ledger.rest
  have pending := congrArg Ledger.pending h.ledger.rest
  refine ⟨store, standing, pending, fun path time => ?_⟩
  obtain ⟨-, -, report⟩ := h.ledger.update path first.meter time
  rw [report, h.meter]

end Session

/-- Whatever meter the two ledgers are used with, no calls ever tell them apart. -/
def Ledger.Inseparable (first second : Ledger) : Prop :=
  ∀ (μ : Type) [Meter μ] (meter : μ) (calls : List (Call μ)),
    (Session.run { ledger := first, meter } calls).Indistinct
      (Session.run { ledger := second, meter } calls)

theorem Ledger.Alike.inseparable {first second : Ledger} (h : first.Alike second) :
    first.Inseparable second := by
  intro μ _ meter calls
  have start : Session.Alike { ledger := first, meter } { ledger := second, meter } :=
    ⟨h, rfl, rfl⟩
  exact (start.run calls).indistinct

end UsageLedger
