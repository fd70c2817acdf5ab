import UsageLedger.Session
import UsageLedger.Proofs.Commit

/-!
Turns. An update takes up one entity after the other, and each turn either commits what the entity's
family contributed or leaves the books alone. A turn changes the cells of no other entity, and where
usage goes next it changes for none.
-/

namespace UsageLedger

namespace Ledger

/-- The state that usage of the entity is credited to next. -/
def nextState (ledger : Ledger) (entity : Nat) : Option ProcState :=
  (ledger.pending.get? entity).or (ledger.stateOf entity)

theorem targetSlot_eq (ledger : Ledger) (entity : Nat) :
    ledger.targetSlot entity = .ofState? (ledger.nextState entity) := rfl

section Commit

variable {before after : Ledger} {entity : Nat} {parts : List Contribution}

theorem commit_eq_ok (h : before.commit entity parts = .ok after) :
    ∃ store changed, before.store.record entity (before.targetSlot entity)
        before.timeBase.screenOffActive (before.merged parts) = .ok (store, changed) ∧
      after = { before with
        store
        standing :=
          match before.targetSlot entity with
          | .known state => before.standing.insert entity (some state)
          | .unknown => before.standing.insertIfNew entity none
        pending := before.pending.erase entity
        accounted := account before.accounted parts } := by
  simp only [commit] at h
  split at h
  · contradiction
  next store changed recorded => exact ⟨store, changed, recorded, (Except.ok.inj h).symm⟩

/-- A commit makes the state that was pending the standing one, so it stays the next one. -/
theorem nextState_commit (h : before.commit entity parts = .ok after) (other : Nat) :
    after.nextState other = before.nextState other := by
  obtain ⟨store, changed, -, rfl⟩ := commit_eq_ok h
  unfold nextState stateOf
  simp only [Table.get?_erase]
  by_cases same : other = entity
  · subst same
    rw [if_pos rfl, targetSlot_eq]
    cases next : before.nextState other with
    | some state =>
      have stands : (before.pending.get? other).or (before.standing.get? other).join = some state :=
        next
      simp [Slot.ofState?, stands]
    | none =>
      obtain ⟨unnoticed, unclassified⟩ := Option.or_eq_none_iff.mp next
      have stateless : (before.standing.get? other).join = none := unclassified
      simp only [Slot.ofState?, Table.get?_insertIfNew, unnoticed, stateless, if_true]
      cases found : before.standing.get? other with
      | none => rfl
      | some state => simpa [found] using stateless
  · rw [if_neg same]
    cases before.targetSlot entity with
    | known state => simp only [Table.get?_insert_of_ne _ _ same]
    | unknown => simp only [Table.get?_insertIfNew, if_neg same, Option.or_none]

/-- A commit adds the merged gains to the target row of its entity, and to nothing else. -/
theorem cell?_commit (h : before.commit entity parts = .ok after) (other : Nat) (row : Slot)
    (column : Column) :
    after.store.cell? other row column =
      if other = entity ∧ row = before.targetSlot entity ∧
          (column = .allTime ∨ before.timeBase.screenOffActive = true) ∧
          ¬ (before.merged parts).IsZero then
        Measure.join (before.store.cell? other row column) (some (before.merged parts))
      else before.store.cell? other row column := by
  obtain ⟨store, changed, recorded, rfl⟩ := commit_eq_ok h
  exact Store.cell?_record recorded other row column

end Commit

/-- All that decides where usage goes is the same, and so are the timers. -/
structure SameScene (before after : Ledger) : Prop where
  width : after.store.width = before.store.width
  timeBase : after.timeBase = before.timeBase
  isolation : after.isolation = before.isolation
  timers : after.timers = before.timers
  nextState (entity : Nat) : after.nextState entity = before.nextState entity

theorem SameScene.refl (ledger : Ledger) : ledger.SameScene ledger :=
  ⟨rfl, rfl, rfl, rfl, fun _ => rfl⟩

theorem SameScene.trans {before middle after : Ledger} (first : before.SameScene middle)
    (second : middle.SameScene after) : before.SameScene after where
  width := second.width.trans first.width
  timeBase := second.timeBase.trans first.timeBase
  isolation := second.isolation.trans first.isolation
  timers := second.timers.trans first.timers
  nextState entity := (second.nextState entity).trans (first.nextState entity)

theorem sameScene_commit {before after : Ledger} {entity : Nat} {parts : List Contribution}
    (h : before.commit entity parts = .ok after) : before.SameScene after := by
  have next := nextState_commit h
  obtain ⟨store, changed, recorded, rfl⟩ := commit_eq_ok h
  exact ⟨(Store.record_cases recorded).1, rfl, rfl, rfl, next⟩

end Ledger

namespace Round

variable {μ : Type}

/-- What a turn of the entity did: it settled these parts, or none. -/
inductive Turn (entity : Nat) (before after : Round μ) : Option (List Contribution) → Prop where
  | settled {parts : List Contribution} : before.ledger.commit entity parts = .ok after.ledger →
      after.report.updated = before.report.updated ++ [entity] →
      Turn entity before after (some parts)
  | passed : after.ledger = before.ledger → after.report.updated = before.report.updated →
      Turn entity before after none

theorem turn_commit (round : Round μ) (entity : Nat) (parts : List Contribution) :
    ∃ outcome, Turn entity round (round.commit entity parts) outcome ∧
      ∀ settled ∈ outcome, settled = parts := by
  unfold commit
  cases done : round.ledger.commit entity parts with
  | ok ledger => exact ⟨some parts, .settled done rfl, by simp⟩
  | error fault => exact ⟨none, .passed rfl rfl, by simp⟩

theorem turn_tickEntity [Meter μ] (round : Round μ) (time entity : Nat) :
    ∃ outcome, Turn entity round (round.tickEntity time entity) outcome ∧
      ∀ parts ∈ outcome, (round.ledger.gather round.meter entity time).1 = .complete parts := by
  unfold tickEntity
  generalize round.ledger.gather round.meter entity time = gathered
  obtain ⟨family, meter⟩ := gathered
  cases family with
  | unavailable => exact ⟨none, .passed rfl rfl, by simp⟩
  | failed phase fault => exact ⟨none, .passed rfl rfl, by simp⟩
  | complete parts =>
    obtain ⟨outcome, turn, settles⟩ := turn_commit { round with meter } entity parts
    refine ⟨outcome, ?_, fun settled mem => by rw [settles settled mem]⟩
    cases turn with
    | settled done updated => exact .settled done updated
    | passed same updated => exact .passed same updated

section Turn

variable {entity : Nat} {before after : Round μ} {outcome : Option (List Contribution)}

theorem Turn.sameScene (turn : Turn entity before after outcome) :
    before.ledger.SameScene after.ledger := by
  cases turn with
  | settled done _ => exact Ledger.sameScene_commit done
  | passed same _ => exact same ▸ .refl _

theorem Turn.cell?_of_ne (turn : Turn entity before after outcome) {other : Nat}
    (ne : other ≠ entity) (row : Slot) (column : Column) :
    after.ledger.store.cell? other row column = before.ledger.store.cell? other row column := by
  cases turn with
  | settled done _ =>
    rw [Ledger.cell?_commit done, if_neg]
    exact fun here => ne here.1
  | passed same _ => rw [same]

theorem Turn.mem_updated_of_ne (turn : Turn entity before after outcome) {other : Nat}
    (ne : other ≠ entity) : other ∈ after.report.updated ↔ other ∈ before.report.updated := by
  cases turn with
  | settled _ updated => simp [updated, ne]
  | passed _ updated => rw [updated]

end Turn

section Turns

variable {step : Round μ → Nat → Round μ} {Gives : Round μ → Nat → List Contribution → Prop}
  (turns : ∀ round entity, ∃ outcome, Turn entity round (step round entity) outcome ∧
    ∀ parts ∈ outcome, Gives round entity parts)

include turns

theorem foldl_sameScene (round : Round μ) (entities : List Nat) :
    round.ledger.SameScene (entities.foldl step round).ledger := by
  induction entities generalizing round with
  | nil => exact .refl _
  | cons entity entities ih =>
    obtain ⟨outcome, turn, -⟩ := turns round entity
    exact turn.sameScene.trans (ih (step round entity))

theorem foldl_cell?_of_not_mem (round : Round μ) {entities : List Nat} {other : Nat}
    (absent : other ∉ entities) (row : Slot) (column : Column) :
    (entities.foldl step round).ledger.store.cell? other row column =
      round.ledger.store.cell? other row column := by
  induction entities generalizing round with
  | nil => rfl
  | cons entity entities ih =>
    obtain ⟨ne, absent⟩ := List.ne_and_not_mem_of_not_mem_cons absent
    obtain ⟨outcome, turn, -⟩ := turns round entity
    rw [List.foldl_cons, ih (step round entity) absent, turn.cell?_of_ne ne]

theorem foldl_updated_of_not_mem (round : Round μ) {entities : List Nat} {other : Nat}
    (absent : other ∉ entities) :
    other ∈ (entities.foldl step round).report.updated ↔ other ∈ round.report.updated := by
  induction entities generalizing round with
  | nil => rfl
  | cons entity entities ih =>
    obtain ⟨ne, absent⟩ := List.ne_and_not_mem_of_not_mem_cons absent
    obtain ⟨outcome, turn, -⟩ := turns round entity
    rw [List.foldl_cons, ih (step round entity) absent, turn.mem_updated_of_ne ne]

/-- Whoever comes out updated had its parts committed in its own turn, and that turn alone decides
what becomes of its cells. -/
theorem foldl_updated {round : Round μ} {entities : List Nat} {entity : Nat}
    (distinct : entities.Nodup) (fresh : entity ∉ round.report.updated)
    (updated : entity ∈ (entities.foldl step round).report.updated) :
    let before := (entities.takeWhile (· ≠ entity)).foldl step round
    ∃ parts settled, Gives before entity parts ∧ before.ledger.commit entity parts = .ok settled ∧
      round.ledger.SameScene before.ledger ∧
      (∀ row column, before.ledger.store.cell? entity row column =
        round.ledger.store.cell? entity row column) ∧
      ∀ row column, (entities.foldl step round).ledger.store.cell? entity row column =
        settled.store.cell? entity row column := by
  intro before
  have mem : entity ∈ entities := by
    by_contra absent
    exact fresh ((foldl_updated_of_not_mem turns round absent).mp updated)
  obtain ⟨early, late, rfl, first⟩ := List.eq_append_cons_of_mem mem
  have later : entity ∉ late := (List.nodup_cons.mp (List.nodup_append.mp distinct).2.1).1
  have turnOf : (early ++ entity :: late).takeWhile (· ≠ entity) = early := by
    have others : ∀ other ∈ early, decide (other ≠ entity) = true := by
      intro other mem
      exact decide_eq_true fun same => first (same ▸ mem)
    rw [List.takeWhile_append_of_pos others, List.takeWhile_cons_of_neg (by simp), List.append_nil]
  have reached : before = early.foldl step round :=
    congrArg (fun head => head.foldl step round) turnOf
  have all : (early ++ entity :: late).foldl step round = late.foldl step (step before entity) := by
    rw [List.foldl_append, List.foldl_cons, reached]
  have unlisted : entity ∉ before.report.updated := by
    rw [reached, foldl_updated_of_not_mem turns round first]
    exact fresh
  obtain ⟨outcome, turn, gives⟩ := turns before entity
  rw [all, foldl_updated_of_not_mem turns _ later] at updated
  cases turn with
  | @settled parts done _ =>
    refine ⟨parts, (step before entity).ledger, gives parts rfl, done,
      foldl_sameScene turns round _, ?_, ?_⟩
    · rw [reached]
      exact foldl_cell?_of_not_mem turns round first
    · rw [all]
      exact foldl_cell?_of_not_mem turns _ later
  | passed _ same => exact absurd (same ▸ updated) unlisted

end Turns

end Round

namespace Ledger

variable {μ : Type} [Meter μ]

theorem tick_sameScene (ledger : Ledger) (meter : μ) (time : Nat) :
    ledger.SameScene (ledger.tick meter time).ledger :=
  Round.foldl_sameScene (fun round entity => round.turn_tickEntity time entity)
    { ledger, meter } ledger.targets

theorem copyAll_sameScene (ledger : Ledger) (meter : μ) (time : Nat) :
    ledger.SameScene (ledger.copyAll meter time).ledger := by
  unfold copyAll
  generalize Meter.readAll meter = reading
  obtain ⟨levels, meter⟩ := reading
  cases levels with
  | none => exact .refl ledger
  | some levels =>
    have rebased : ledger.SameScene (ledger.rebase levels time) :=
      ⟨rfl, rfl, rfl, rfl, fun _ => rfl⟩
    have turns (round : Round μ) (entity : Nat) :=
      round.turn_commit entity (shareOf (ledger.assigned levels) entity)
    exact rebased.trans (Round.foldl_sameScene turns
      ⟨ledger.rebase levels time, meter, { failures := ledger.widthFailures levels }⟩ _)

theorem update_sameScene (ledger : Ledger) (path : Path) (meter : μ) (time : Nat) :
    ledger.SameScene (ledger.update path meter time).ledger := by
  cases path with
  | tick => exact ledger.tick_sameScene meter time
  | copyAll => exact ledger.copyAll_sameScene meter time

end Ledger

end UsageLedger
