import UsageLedger.Proofs.Turns

/-!
Timers of single entities. What each call does to the timer of one entity: only time bases and the
holds that the entity answers for touch it.
-/

namespace UsageLedger

namespace HoldTimer

theorem isSome_release? (timer : HoldTimer) (time : Nat) :
    (timer.release? time).isSome ↔ timer.IsHeld := by
  unfold release? IsHeld
  split <;> simp_all

@[simp] theorem nesting_pause (timer : HoldTimer) (time : Nat) :
    (timer.pause time).nesting = timer.nesting := by
  unfold pause
  split <;> rfl

@[simp] theorem nesting_resume (timer : HoldTimer) (time : Nat) :
    (timer.resume time).nesting = timer.nesting := by
  unfold resume
  split <;> rfl

@[simp] theorem nesting_release (timer : HoldTimer) (time : Nat) :
    ((timer.release? time).getD timer).nesting = timer.nesting - 1 := by
  unfold release?
  split
  next free => simp [free]
  next last => simp [last]
  next left more => simp [more]

end HoldTimer

namespace Ledger

/-- The timer of the entity, an unused one if it never held a wakelock. -/
def timerOf (ledger : Ledger) (entity : Nat) : HoldTimer := (ledger.timers.get? entity).getD {}

theorem wakelockTime_eq (ledger : Ledger) (entity now : Nat) :
    ledger.wakelockTime entity now = (ledger.timerOf entity).totalAt now := by
  unfold wakelockTime HoldTimers.totalAt timerOf
  cases ledger.timers.get? entity <;> rfl

theorem timerOf_setTimeBase (ledger : Ledger) (onBattery screenOff : Bool) (time entity : Nat) :
    (ledger.setTimeBase onBattery screenOff time).timerOf entity =
      if onBattery then (ledger.timerOf entity).resume time
      else (ledger.timerOf entity).pause time := by
  unfold timerOf setTimeBase HoldTimers.setCounting
  rw [Table.get?_map]
  cases ledger.timers.get? entity with
  | some timer => rfl
  | none => cases onBattery <;> rfl

theorem timerOf_acquireWakelock (ledger : Ledger) (caller time entity : Nat) :
    (ledger.acquireWakelock caller time).timerOf entity =
      if ledger.isolation.ownerOf caller = entity then
        (ledger.timerOf entity).acquire time ledger.timeBase.onBattery
      else ledger.timerOf entity := by
  unfold timerOf acquireWakelock HoldTimers.acquire
  rw [Table.get?_insert]
  by_cases owner : entity = ledger.isolation.ownerOf caller
  · simp [owner]
  · simp [owner, Ne.symm owner]

/-- Closing a hold succeeds exactly if the timer of the entity that answers for it is held. -/
theorem releaseWakelock?_eq (ledger : Ledger) (caller time : Nat) :
    ledger.releaseWakelock? caller time =
      ((ledger.timerOf (ledger.isolation.ownerOf caller)).release? time).map fun timer =>
        { ledger with timers := ledger.timers.insert (ledger.isolation.ownerOf caller) timer } := by
  unfold releaseWakelock? HoldTimers.release? timerOf
  cases ledger.timers.get? (ledger.isolation.ownerOf caller) with
  | none => rfl
  | some timer =>
    simp only [Option.getD_some, Option.bind_eq_bind, Option.bind_some]
    cases timer.release? time <;> rfl

theorem isSome_releaseWakelock? (ledger : Ledger) (caller time : Nat) :
    (ledger.releaseWakelock? caller time).isSome ↔
      (ledger.timerOf (ledger.isolation.ownerOf caller)).IsHeld := by
  rw [releaseWakelock?_eq, Option.isSome_map, HoldTimer.isSome_release?]

theorem timerOf_release (ledger : Ledger) (caller time entity : Nat) :
    (ledger.notice (.release caller time)).timerOf entity =
      if ledger.isolation.ownerOf caller = entity then
        ((ledger.timerOf entity).release? time).getD (ledger.timerOf entity)
      else ledger.timerOf entity := by
  rw [Ledger.notice, releaseWakelock?_eq]
  by_cases owner : ledger.isolation.ownerOf caller = entity
  · subst owner
    cases (ledger.timerOf (ledger.isolation.ownerOf caller)).release? time with
    | none => simp
    | some timer => simp [timerOf]
  · rw [if_neg owner]
    cases (ledger.timerOf (ledger.isolation.ownerOf caller)).release? time with
    | none => rfl
    | some timer => simp [timerOf, Table.get?_insert_of_ne _ _ (Ne.symm owner)]

/-- What a notice does to the timer of an entity. -/
theorem timerOf_notice (ledger : Ledger) (notice : Notice) (entity : Nat) :
    (ledger.notice notice).timerOf entity =
      match notice with
      | .timeBase onBattery _ time =>
        if onBattery then (ledger.timerOf entity).resume time
        else (ledger.timerOf entity).pause time
      | .acquire caller time =>
        if ledger.isolation.ownerOf caller = entity then
          (ledger.timerOf entity).acquire time ledger.timeBase.onBattery
        else ledger.timerOf entity
      | .release caller time =>
        if ledger.isolation.ownerOf caller = entity then
          ((ledger.timerOf entity).release? time).getD (ledger.timerOf entity)
        else ledger.timerOf entity
      | _ => ledger.timerOf entity := by
  have classify (other : Nat) (state : ProcState) :
      (ledger.classify other state).timerOf entity = ledger.timerOf entity := by
    unfold Ledger.classify
    split <;> rfl
  cases notice with
  | classify other state => exact classify other state
  | importance other code =>
    simp only [Ledger.notice, setImportance]
    cases ledger.stateOfImportance code with
    | none => rfl
    | some state => exact classify other state
  | timeBase onBattery screenOff time =>
    exact ledger.timerOf_setTimeBase onBattery screenOff time entity
  | isolate parent child =>
    simp only [Ledger.notice, isolate]
    cases ledger.isolation.add parent child <;> rfl
  | unisolate child => rfl
  | acquire caller time => exact ledger.timerOf_acquireWakelock caller time entity
  | release caller time => exact ledger.timerOf_release caller time entity

theorem timerOf_update {μ : Type} [Meter μ] (ledger : Ledger) (path : Path) (meter : μ)
    (time entity : Nat) :
    (ledger.update path meter time).ledger.timerOf entity = ledger.timerOf entity := by
  unfold timerOf
  rw [(ledger.update_sameScene path meter time).timers]

end Ledger

end UsageLedger
