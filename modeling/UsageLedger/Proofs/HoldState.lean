import UsageLedger.Proofs.Holds
import UsageLedger.Proofs.Runs

namespace UsageLedger

namespace HoldTimer

/-- The timer runs exactly while it is held and time counts. -/
def RunsWhile (counting : Bool) (timer : HoldTimer) : Prop :=
  timer.runningSince ≠ none ↔ timer.IsHeld ∧ counting = true

section RunsWhile

variable {timer : HoldTimer} {counting : Bool}

theorem runsWhile_unused (counting : Bool) : RunsWhile counting {} := by
  simp [RunsWhile, IsHeld]

/-- If a first hold begins a stretch, it is because time counts; a further one changes nothing. -/
theorem RunsWhile.acquire (h : timer.RunsWhile counting) (time : Nat) :
    (timer.acquire time counting).RunsWhile counting := by
  unfold RunsWhile IsHeld HoldTimer.acquire at *
  by_cases first : timer.nesting = 0
  · cases counting with
    | true => simp [first]
    | false => simpa [first] using h
  · have held : 0 < timer.nesting := Nat.pos_of_ne_zero first
    simpa [first, held] using h

theorem runsWhile_pause (timer : HoldTimer) (time : Nat) : (timer.pause time).RunsWhile false := by
  unfold RunsWhile pause
  split
  · simp
  next idle => simp [idle]

/-- A timer that already runs is held, so it goes on running. -/
theorem RunsWhile.resume (h : timer.RunsWhile counting) (time : Nat) :
    (timer.resume time).RunsWhile true := by
  unfold RunsWhile at *
  unfold HoldTimer.resume
  split
  next begins => simpa [IsHeld] using begins.1
  next goes =>
    have running : timer.IsHeld → timer.runningSince ≠ none :=
      fun held idle => goes ⟨held, idle⟩
    exact ⟨fun runs => ⟨(h.mp runs).1, rfl⟩, fun held => running held.1⟩

/-- The last hold takes the running stretch with it; before that the timer goes on as it was. -/
theorem RunsWhile.release (h : timer.RunsWhile counting) (time : Nat) :
    ((timer.release? time).getD timer).RunsWhile counting := by
  unfold release?
  split
  next => exact h
  next last =>
    have idle := runsWhile_pause { timer with nesting := 0 } time
    have free : ¬ ({ timer with nesting := 0 }.pause time).IsHeld := by simp [IsHeld]
    simp only [RunsWhile, free, false_and, iff_false] at idle
    simpa [RunsWhile, free] using idle
  next left more =>
    unfold RunsWhile IsHeld at *
    simpa [more] using h

end RunsWhile

section Total

variable (timer : HoldTimer) (time : Nat)

theorem total_le_pause : timer.total ≤ (timer.pause time).total := by
  unfold pause
  split
  · exact Nat.le_add_right _ _
  · exact Nat.le_refl _

@[simp] theorem total_resume : (timer.resume time).total = timer.total := by
  unfold resume
  split <;> rfl

theorem total_le_release : timer.total ≤ ((timer.release? time).getD timer).total := by
  unfold release?
  split
  · exact Nat.le_refl _
  · exact total_le_pause { timer with nesting := 0 } time
  · exact Nat.le_refl _

theorem total_release_of_further {timer : HoldTimer} (further : timer.nesting ≠ 1) :
    ((timer.release? time).getD timer).total = timer.total := by
  unfold release?
  split
  · rfl
  next last => exact absurd last further
  · rfl

end Total

end HoldTimer

namespace Ledger

/-- All timers run exactly while they are held and the device is on battery. -/
def TimersRun (ledger : Ledger) : Prop :=
  ∀ entity, (ledger.timerOf entity).RunsWhile ledger.timeBase.onBattery

theorem TimersRun.of_same {ledger other : Ledger} (h : ledger.TimersRun)
    (timers : ∀ entity, other.timerOf entity = ledger.timerOf entity)
    (timeBase : other.timeBase = ledger.timeBase) : other.TimersRun := by
  intro entity
  rw [timers, timeBase]
  exact h entity

theorem TimersRun.notice {ledger : Ledger} (h : ledger.TimersRun) (notice : Notice) :
    (ledger.notice notice).TimersRun := by
  intro entity
  have timer := ledger.timerOf_notice notice entity
  have timeBase := ledger.timeBase_notice notice
  rw [timer, timeBase]
  cases notice with
  | timeBase onBattery screenOff time =>
    cases onBattery with
    | true => exact (h entity).resume time
    | false => exact HoldTimer.runsWhile_pause _ time
  | acquire caller time =>
    dsimp only
    split
    · exact (h entity).acquire time
    · exact h entity
  | release caller time =>
    dsimp only
    split
    · exact (h entity).release time
    · exact h entity
  | _ => exact h entity

/-- The notice ends the running stretch of the entity's timer, if there is one: it closes the last
hold, or the device leaves battery. -/
def EndsStretch (ledger : Ledger) (entity : Nat) : Notice → Prop
  | .timeBase onBattery _ _ => onBattery = false
  | .release caller _ =>
    ledger.isolation.ownerOf caller = entity ∧ (ledger.timerOf entity).nesting = 1
  | _ => False

theorem total_notice (ledger : Ledger) (notice : Notice) (entity : Nat) :
    (ledger.timerOf entity).total ≤ ((ledger.notice notice).timerOf entity).total ∧
      (¬ ledger.EndsStretch entity notice →
        ((ledger.notice notice).timerOf entity).total = (ledger.timerOf entity).total) := by
  rw [ledger.timerOf_notice notice entity]
  cases notice with
  | timeBase onBattery screenOff time =>
    cases onBattery with
    | true => simp
    | false => exact ⟨HoldTimer.total_le_pause _ time, fun goes => absurd rfl goes⟩
  | acquire caller time =>
    dsimp only
    split <;> exact ⟨Nat.le_refl _, fun _ => rfl⟩
  | release caller time =>
    dsimp only
    split
    next own =>
      refine ⟨HoldTimer.total_le_release _ time, fun goes => ?_⟩
      exact HoldTimer.total_release_of_further time fun last => goes ⟨own, last⟩
    · exact ⟨Nat.le_refl _, fun _ => rfl⟩
  | _ => exact ⟨Nat.le_refl _, fun _ => rfl⟩

/-- A release is refused exactly if there is no timer with a hold to close. -/
theorem releaseWakelock?_eq_none_iff (ledger : Ledger) (caller time : Nat) :
    ledger.releaseWakelock? caller time = none ↔
      ledger.timers.get? (ledger.isolation.ownerOf caller) = none ∨
        ∃ timer, ledger.timers.get? (ledger.isolation.ownerOf caller) = some timer ∧
          timer.nesting = 0 := by
  have held := ledger.isSome_releaseWakelock? caller time
  rw [← Option.not_isSome_iff_eq_none, held, timerOf, HoldTimer.IsHeld, Nat.not_lt,
    Nat.le_zero]
  cases ledger.timers.get? (ledger.isolation.ownerOf caller) <;> simp

end Ledger

namespace Session

variable {μ : Type} [Meter μ]

theorem timersRun_run {config : Config} {start : Session μ}
    (new : Ledger.new config = .ok start.ledger) (calls : List (Call μ)) :
    (start.run calls).ledger.TimersRun := by
  apply List.foldlRecOn (motive := fun session : Session μ => session.ledger.TimersRun)
  · intro entity
    rw [Ledger.eq_of_new new]
    exact HoldTimer.runsWhile_unused _
  · intro session runs call _
    cases call with
    | notice notice => exact runs.notice notice
    | meter meter => exact runs
    | update path time =>
      exact runs.of_same (session.ledger.timerOf_update path session.meter time)
        (session.ledger.update_sameScene path session.meter time).timeBase

theorem total_step (session : Session μ) (call : Call μ) (entity : Nat) :
    (session.ledger.timerOf entity).total ≤ ((session.step call).ledger.timerOf entity).total ∧
      (((session.step call).ledger.timerOf entity).total ≠ (session.ledger.timerOf entity).total →
        ∃ notice, call = .notice notice ∧ session.ledger.EndsStretch entity notice) := by
  cases call with
  | notice notice =>
    obtain ⟨grows, stays⟩ := session.ledger.total_notice notice entity
    refine ⟨grows, fun changed => ⟨notice, rfl, ?_⟩⟩
    by_contra goes
    exact changed (stays goes)
  | meter meter => exact ⟨Nat.le_refl _, fun changed => absurd rfl changed⟩
  | update path time =>
    have same : (session.step (.update path time)).ledger.timerOf entity =
        session.ledger.timerOf entity :=
      session.ledger.timerOf_update path session.meter time entity
    rw [same]
    exact ⟨Nat.le_refl _, fun changed => absurd rfl changed⟩

/-- Whatever times are given: a stored timer runs exactly while it is held and the device is on
battery; a release is refused exactly if there is no timer with a hold to close, and then nothing
changes; a total never falls, and it grows only when the last hold is closed or the device leaves
battery. -/
theorem timers_run {config : Config} {start : Session μ}
    (new : Ledger.new config = .ok start.ledger) (calls : List (Call μ)) :
    let session := start.run calls
    (∀ entity timer, session.ledger.timers.get? entity = some timer →
      (timer.runningSince ≠ none ↔
        0 < timer.nesting ∧ session.ledger.timeBase.onBattery = true)) ∧
    (∀ caller time,
      let owner := session.ledger.isolation.ownerOf caller
      (session.ledger.releaseWakelock? caller time = none ↔
        session.ledger.timers.get? owner = none ∨
          ∃ timer, session.ledger.timers.get? owner = some timer ∧ timer.nesting = 0) ∧
      (session.ledger.releaseWakelock? caller time = none →
        session.step (.notice (.release caller time)) = session)) ∧
    ∀ call entity,
      (session.ledger.timerOf entity).total ≤
        ((session.step call).ledger.timerOf entity).total ∧
      (((session.step call).ledger.timerOf entity).total ≠
          (session.ledger.timerOf entity).total →
        ∃ notice, call = .notice notice ∧ session.ledger.EndsStretch entity notice) := by
  intro session
  have runs : session.ledger.TimersRun := timersRun_run new calls
  refine ⟨fun entity timer stored => ?_, fun caller time => ⟨?_, fun refused => ?_⟩, ?_⟩
  · have own : session.ledger.timerOf entity = timer := by rw [Ledger.timerOf, stored]; rfl
    exact own ▸ runs entity
  · exact session.ledger.releaseWakelock?_eq_none_iff caller time
  · simp only [step, Ledger.notice, refused, Option.getD_none]
  · exact session.total_step

/-- Times run backwards, holds nest and go through an isolated entity, and the device leaves battery
while it is held. -/
def disorderedHolds : List (Call ScriptedMeter) :=
  [.notice (.acquire 5 100), .notice (.timeBase true false 90), .notice (.acquire 5 95),
    .notice (.timeBase true true 80), .notice (.release 5 70), .notice (.timeBase false true 120),
    .notice (.timeBase true false 40), .notice (.isolate 5 6), .update .tick 30,
    .notice (.release 6 20), .notice (.acquire 6 10)]

theorem timers_run_disorderedHolds :
    let session := blank.run disorderedHolds
    (∃ timer, session.ledger.timers.get? 5 = some timer ∧ timer.total = 30 ∧
      timer.runningSince ≠ none) ∧
    session.step (.notice (.release 7 0)) = session ∧
    ((session.step (.notice (.timeBase true true 500))).ledger.timerOf 5).total =
      (session.ledger.timerOf 5).total := by
  intro session
  have new : Ledger.new { vectorLen := 2 } = .ok blank.ledger := rfl
  obtain ⟨running, refused, totals⟩ := timers_run new disorderedHolds
  have stored : session.ledger.timers.get? 5 = some ⟨1, some 10, 30⟩ := by decide +kernel
  have onBattery : session.ledger.timeBase.onBattery = true := by decide +kernel
  have absent : session.ledger.timers.get? (session.ledger.isolation.ownerOf 7) = none := by
    decide +kernel
  refine ⟨⟨_, stored, rfl, (running 5 _ stored).mpr ⟨by decide, onBattery⟩⟩,
    (refused 7 0).2 ((refused 7 0).1.mpr (.inl absent)), ?_⟩
  by_contra changed
  obtain ⟨notice, same, ends⟩ := (totals (.notice (.timeBase true true 500)) 5).2 changed
  cases same
  exact Bool.noConfusion ends

end Session

end UsageLedger
