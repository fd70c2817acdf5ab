import UsageLedger.Proofs.Holds
import UsageLedger.Proofs.Runs

namespace UsageLedger

/-- What holds from a moment on: whether the device is on battery, and how many holds are open. -/
structure Stint where
  since : Nat := 0
  onBattery : Bool := false
  holds : Nat := 0
deriving DecidableEq, Repr

namespace Stint

/-- Time counts while the device is on battery and a hold is open. -/
def Counts (stint : Stint) : Prop := stint.onBattery = true ∧ 0 < stint.holds

instance (stint : Stint) : Decidable stint.Counts := inferInstanceAs (Decidable (_ ∧ _))

/-- The time that counts from the stint's beginning to its end. -/
def lasting (stint : Stint) (finish : Nat) : Nat :=
  if stint.Counts then finish - stint.since else 0

end Stint

/-- The time that counts during the stints, each of which lasts until the next one begins. -/
def heldTime (now : Nat) : List Stint → Nat
  | [] => 0
  | stint :: later =>
    stint.lasting ((later.head?.map Stint.since).getD now) + heldTime now later

namespace HoldTimer

/-- The timer has the stint's holds, runs if time counts, and shows `past` at its beginning. -/
structure Tracks (timer : HoldTimer) (stint : Stint) (past : Nat) : Prop where
  nesting : timer.nesting = stint.holds
  running : timer.runningSince ≠ none ↔ stint.Counts
  began : ∀ start, timer.runningSince = some start → start ≤ stint.since
  shown : timer.totalAt stint.since = past

section Tracks

variable {timer : HoldTimer} {stint : Stint} {past : Nat}

theorem Tracks.idle (h : timer.Tracks stint past) (idle : ¬ stint.Counts) :
    timer.runningSince = none := by
  by_contra running
  exact idle (h.running.mp running)

theorem Tracks.totalAt (h : timer.Tracks stint past) {now : Nat} (late : stint.since ≤ now) :
    timer.totalAt now = past + stint.lasting now := by
  have shown := h.shown
  unfold HoldTimer.totalAt Stint.lasting at *
  by_cases counts : stint.Counts
  · obtain ⟨start, running⟩ := Option.ne_none_iff_exists'.mp (h.running.mpr counts)
    have began := h.began start running
    simp only [running, Option.map_some, Option.getD_some, if_pos counts] at shown ⊢
    omega
  · simp only [h.idle counts, if_neg counts] at shown ⊢
    simpa using shown

theorem Tracks.elapse (h : timer.Tracks stint past) {time : Nat} (late : stint.since ≤ time) :
    timer.Tracks { stint with since := time } (past + stint.lasting time) where
  nesting := h.nesting
  running := h.running
  began start running := Nat.le_trans (h.began start running) late
  shown := h.totalAt late

/-- The running stretch stays as it is if time goes on counting, or goes on not to. -/
theorem Tracks.keep (h : timer.Tracks stint past) {onBattery : Bool} {holds : Nat}
    (same : Stint.Counts ⟨stint.since, onBattery, holds⟩ ↔ stint.Counts) :
    { timer with nesting := holds }.Tracks ⟨stint.since, onBattery, holds⟩ past where
  nesting := rfl
  running := h.running.trans same.symm
  began := h.began
  shown := h.shown

theorem Tracks.start (h : timer.Tracks stint past) {onBattery : Bool} {holds : Nat}
    (idle : ¬ stint.Counts) (counts : Stint.Counts ⟨stint.since, onBattery, holds⟩) :
    { timer with nesting := holds, runningSince := some stint.since }.Tracks
      ⟨stint.since, onBattery, holds⟩ past where
  nesting := rfl
  running := by simpa using counts
  began start running := by
    cases running
    exact Nat.le_refl _
  shown := by
    have shown := h.shown
    simp only [HoldTimer.totalAt, h.idle idle] at shown ⊢
    simpa using shown

theorem Tracks.stop (h : timer.Tracks stint past) {onBattery : Bool} {holds : Nat}
    (idle : ¬ Stint.Counts ⟨stint.since, onBattery, holds⟩) :
    ({ timer with nesting := holds }.pause stint.since).Tracks ⟨stint.since, onBattery, holds⟩
      past := by
  have shown := h.shown
  unfold HoldTimer.totalAt at shown
  unfold HoldTimer.pause
  cases running : timer.runningSince with
  | none =>
    refine ⟨rfl, by simpa using idle, by simp, ?_⟩
    simpa [HoldTimer.totalAt, running] using shown
  | some start =>
    refine ⟨rfl, by simpa using idle, by simp, ?_⟩
    simpa [HoldTimer.totalAt, running] using shown

theorem Tracks.acquire (h : timer.Tracks stint past) :
    (timer.acquire stint.since stint.onBattery).Tracks { stint with holds := stint.holds + 1 }
      past := by
  unfold HoldTimer.acquire
  rw [h.nesting]
  by_cases first : stint.holds = 0 ∧ stint.onBattery = true
  · rw [if_pos first]
    have idle : ¬ stint.Counts := fun counts => Nat.ne_of_gt counts.2 first.1
    exact h.start idle ⟨first.2, Nat.succ_pos _⟩
  · rw [if_neg first]
    apply h.keep
    unfold Stint.Counts
    grind

theorem Tracks.release (h : timer.Tracks stint past) :
    ((timer.release? stint.since).getD timer).Tracks { stint with holds := stint.holds - 1 }
      past := by
  have nesting := h.nesting
  unfold HoldTimer.release?
  split
  next free =>
    have none : stint.holds - 1 = stint.holds := by omega
    rw [none]
    exact h
  next last =>
    have none : stint.holds - 1 = 0 := by omega
    rw [none]
    exact h.stop (fun counts => Nat.lt_irrefl 0 counts.2)
  next left more =>
    have fewer : stint.holds - 1 = left + 1 := by omega
    rw [fewer]
    apply h.keep
    unfold Stint.Counts
    grind

theorem Tracks.resume (h : timer.Tracks stint past) :
    (timer.resume stint.since).Tracks { stint with onBattery := true } past := by
  unfold HoldTimer.resume HoldTimer.IsHeld
  split
  next begins =>
    have idle : ¬ stint.Counts := fun counts => h.running.mpr counts begins.2
    have counts : Stint.Counts { stint with onBattery := true } := ⟨rfl, h.nesting ▸ begins.1⟩
    have started := h.start idle counts
    rwa [← h.nesting] at started ⊢
  next goes =>
    have same : Stint.Counts { stint with onBattery := true } ↔ stint.Counts := by
      have running := h.running
      rw [h.nesting] at goes
      unfold Stint.Counts at *
      grind
    have kept := h.keep same
    rwa [← h.nesting] at kept ⊢

theorem Tracks.pause (h : timer.Tracks stint past) :
    (timer.pause stint.since).Tracks { stint with onBattery := false } past := by
  have idle : ¬ Stint.Counts { stint with onBattery := false } := by simp [Stint.Counts]
  have paused := h.stop idle
  rwa [← h.nesting] at paused ⊢

end Tracks

end HoldTimer

namespace Ledger

/-- The stint that a notice begins for the entity; none if the notice is about something else. A
release closes a hold of the entity if one is open. -/
def nextStint? (ledger : Ledger) (entity : Nat) (stint : Stint) : Notice → Option Stint
  | .timeBase onBattery _ time => some { stint with since := time, onBattery }
  | .acquire caller time =>
    let opened := if ledger.isolation.ownerOf caller = entity then 1 else 0
    some { stint with since := time, holds := stint.holds + opened }
  | .release caller time =>
    let closed := if ledger.isolation.ownerOf caller = entity then 1 else 0
    some { stint with since := time, holds := stint.holds - closed }
  | _ => none

/-- The ledger is in the stint, at whose beginning the entity's timer showed `past`. -/
structure Measures (ledger : Ledger) (entity : Nat) (stint : Stint) (past : Nat) : Prop where
  timer : (ledger.timerOf entity).Tracks stint past
  onBattery : ledger.timeBase.onBattery = stint.onBattery

theorem Measures.of_same {ledger other : Ledger} {entity : Nat} {stint : Stint} {past : Nat}
    (h : ledger.Measures entity stint past) (timer : other.timerOf entity = ledger.timerOf entity)
    (timeBase : other.timeBase = ledger.timeBase) : other.Measures entity stint past :=
  ⟨timer ▸ h.timer, timeBase ▸ h.onBattery⟩

theorem Measures.notice {ledger : Ledger} {entity : Nat} {stint next : Stint} {past : Nat}
    (h : ledger.Measures entity stint past) {notice : Notice}
    (begins : ledger.nextStint? entity stint notice = some next) (late : stint.since ≤ next.since) :
    (ledger.notice notice).Measures entity next (past + stint.lasting next.since) := by
  have timer := ledger.timerOf_notice notice entity
  have timeBase := ledger.timeBase_notice notice
  have elapsed := h.timer.elapse late
  cases notice with
  | timeBase onBattery screenOff time =>
    cases begins
    refine ⟨?_, timeBase ▸ rfl⟩
    rw [timer]
    cases onBattery with
    | true => exact elapsed.resume
    | false => exact elapsed.pause
  | acquire caller time =>
    cases begins
    refine ⟨?_, timeBase ▸ h.onBattery⟩
    simp only [timer, h.onBattery]
    split
    · exact elapsed.acquire
    · exact elapsed
  | release caller time =>
    cases begins
    refine ⟨?_, timeBase ▸ h.onBattery⟩
    simp only [timer]
    split
    · exact elapsed.release
    · exact elapsed
  | _ => cases begins

theorem Measures.other {ledger : Ledger} {entity : Nat} {stint : Stint} {past : Nat}
    (h : ledger.Measures entity stint past) {notice : Notice}
    (goes : ledger.nextStint? entity stint notice = none) :
    (ledger.notice notice).Measures entity stint past := by
  have timer := ledger.timerOf_notice notice entity
  have timeBase := ledger.timeBase_notice notice
  cases notice with
  | timeBase onBattery screenOff time => cases goes
  | acquire caller time => cases goes
  | release caller time => cases goes
  | _ => exact h.of_same timer timeBase

end Ledger

namespace Session

variable {μ : Type}

/-- When the call says that the battery state changes, or a hold is opened or closed. -/
def eventTime? : Call μ → Option Nat
  | .notice (.timeBase _ _ time) => some time
  | .notice (.acquire _ time) => some time
  | .notice (.release _ time) => some time
  | _ => none

def eventTimes (calls : List (Call μ)) : List Nat := calls.filterMap eventTime?

def nextStint? (session : Session μ) (entity : Nat) (stint : Stint) : Call μ → Option Stint
  | .notice notice => session.ledger.nextStint? entity stint notice
  | _ => none

theorem nextStint?_since (session : Session μ) (entity : Nat) (stint : Stint) (call : Call μ) :
    (session.nextStint? entity stint call).map Stint.since = eventTime? call := by
  cases call with
  | notice notice => cases notice <;> rfl
  | meter meter => rfl
  | update path time => rfl

variable [Meter μ]

/-- The stints of the entity in a run that begins in the given one. -/
def stints (entity : Nat) : Session μ → Stint → List (Call μ) → List Stint
  | _, stint, [] => [stint]
  | session, stint, call :: calls =>
    match session.nextStint? entity stint call with
    | some next => stint :: stints entity (session.step call) next calls
    | none => stints entity (session.step call) stint calls

theorem head?_stints (session : Session μ) (entity : Nat) (stint : Stint) (calls : List (Call μ)) :
    (session.stints entity stint calls).head? = some stint := by
  induction calls generalizing session with
  | nil => rfl
  | cons call calls ih =>
    unfold stints
    split
    · rfl
    · exact ih (session.step call)

/-- The timer is read at the end of a run whose events come in order. -/
theorem wakelockTime_run {session : Session μ} {entity : Nat} {stint : Stint} {past : Nat}
    (h : session.ledger.Measures entity stint past) {calls : List (Call μ)} {now : Nat}
    (ordered : (stint.since :: (eventTimes calls ++ [now])).Pairwise (· ≤ ·)) :
    (session.run calls).ledger.wakelockTime entity now =
      past + heldTime now (session.stints entity stint calls) := by
  induction calls generalizing session stint past with
  | nil =>
    have late : stint.since ≤ now := by simpa [eventTimes] using ordered
    rw [Ledger.wakelockTime_eq]
    exact h.timer.totalAt late
  | cons call calls ih =>
    have since := session.nextStint?_since entity stint call
    unfold stints
    split
    next next begins =>
      rw [begins, Option.map_some] at since
      rw [eventTimes, List.filterMap_cons_some since.symm, List.cons_append] at ordered
      obtain ⟨late, ordered⟩ := List.pairwise_cons.mp ordered
      have measures : (session.step call).ledger.Measures entity next
          (past + stint.lasting next.since) := by
        cases call with
        | notice notice => exact h.notice begins (late _ List.mem_cons_self)
        | meter meter => cases begins
        | update path time => cases begins
      have later := ih measures ordered
      have ended : ((((session.step call).stints entity next calls).head?.map Stint.since).getD
          now) = next.since := by rw [head?_stints]; rfl
      rw [heldTime, ended, ← Nat.add_assoc]
      exact later
    next goes =>
      rw [goes, Option.map_none] at since
      rw [eventTimes, List.filterMap_cons_none since.symm] at ordered
      have measures : (session.step call).ledger.Measures entity stint past := by
        cases call with
        | notice notice => exact h.other goes
        | meter meter => exact h
        | update path time =>
          exact h.of_same (session.ledger.timerOf_update path session.meter time entity)
            (session.ledger.update_sameScene path session.meter time).timeBase
      exact ih measures ordered

/-- A timer shows the time during which the device was on battery and the entity had a hold open,
if battery changes and holds come in the order of their times. -/
theorem wakelockTime_eq_heldTime {config : Config} {start : Session μ}
    (new : Ledger.new config = .ok start.ledger) {calls : List (Call μ)} {now : Nat}
    (ordered : (eventTimes calls ++ [now]).Pairwise (· ≤ ·)) (entity : Nat) :
    (start.run calls).ledger.wakelockTime entity now =
      heldTime now (start.stints entity {} calls) := by
  have unused : start.ledger.timerOf entity = {} := by
    rw [Ledger.eq_of_new new]
    rfl
  have measures : start.ledger.Measures entity {} 0 := by
    refine ⟨?_, by rw [Ledger.eq_of_new new]⟩
    rw [unused]
    exact ⟨rfl, by simp [Stint.Counts], by simp, rfl⟩
  have first : (Stint.since {} :: (eventTimes calls ++ [now])).Pairwise (· ≤ ·) :=
    List.pairwise_cons.mpr ⟨fun time _ => Nat.zero_le time, ordered⟩
  exact (wakelockTime_run measures first).trans (Nat.zero_add _)

/-- Entity 1 holds for itself and for its isolated entity 2, which then leaves it; the battery state
is told twice, and one release comes without a hold. -/
def sharedHolds : List (Call ScriptedMeter) :=
  [.notice (.isolate 1 2), .notice (.acquire 1 10), .notice (.timeBase true false 20),
    .notice (.acquire 2 25), .notice (.timeBase true true 30), .notice (.release 1 40),
    .update .tick 45, .notice (.unisolate 2), .notice (.release 2 50),
    .notice (.timeBase false true 60), .notice (.timeBase true true 80)]

theorem wakelockTime_eq_heldTime_sharedHolds :
    (eventTimes sharedHolds ++ [100]).Pairwise (· ≤ ·) ∧
      heldTime 100 (blank.stints 1 {} sharedHolds) = 60 ∧
      (blank.run sharedHolds).ledger.wakelockTime 1 100 = 60 := by
  have new : Ledger.new { vectorLen := 2 } = .ok blank.ledger := rfl
  have ordered : (eventTimes sharedHolds ++ [100]).Pairwise (· ≤ ·) := by decide +kernel
  have held : heldTime 100 (blank.stints 1 {} sharedHolds) = 60 := by decide +kernel
  exact ⟨ordered, held, (wakelockTime_eq_heldTime new ordered 1).trans held⟩

end Session

end UsageLedger
