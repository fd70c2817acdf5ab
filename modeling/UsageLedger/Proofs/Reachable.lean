import UsageLedger.Proofs.Consistency
import UsageLedger.Proofs.Orderly

/-!
Reachable ledgers: the states that runs lead to, whatever the meters show and however they count
their gains. They are all consistent.
-/

namespace UsageLedger

namespace Round

variable {μ : Type}

/-- What each commit of an entity keeps is kept by the turns of these entities. -/
theorem foldl_induction {step : Round μ → Nat → Round μ}
    (turns : ∀ round entity, ∃ outcome, Turn entity round (step round entity) outcome)
    {isolation : Isolation} {P : Ledger → Prop} {round : Round μ} {entities : List Nat}
    (own : ∀ entity ∈ entities, ¬ isolation.IsChild entity)
    (commit : ∀ {before after : Ledger} {entity : Nat} {parts : List Contribution},
      before.isolation = isolation → ¬ isolation.IsChild entity →
        before.commit entity parts = .ok after → P before → P after)
    (scene : round.ledger.isolation = isolation) (start : P round.ledger) :
    P (entities.foldl step round).ledger := by
  induction entities generalizing round with
  | nil => exact start
  | cons entity entities ih =>
    obtain ⟨first, rest⟩ := List.forall_mem_cons.mp own
    obtain ⟨outcome, turn⟩ := turns round entity
    have kept : P (step round entity).ledger := by
      cases turn with
      | settled done _ => exact commit scene first done start
      | passed same _ => exact same ▸ start
    exact ih rest (turn.sameScene.isolation.trans scene) kept

end Round

namespace Ledger

variable {μ : Type} [Meter μ]

theorem not_isChild_of_mem_recipients {ledger : Ledger} (flat : ledger.isolation.Flat)
    {levels : Table Measure} {entity : Nat}
    (mem : entity ∈ recipients (ledger.assigned levels) (ledger.spoiled levels)) :
    ¬ ledger.isolation.IsChild entity := by
  obtain ⟨⟨reading, shared⟩, -⟩ := mem_recipients_assigned.mp mem
  exact recipient?_own flat (mem_sharedReadings.mp shared).2

/-- What does not depend on the baselines of whole-system readings and is kept by each commit of an
entity of its own is kept by an update. -/
theorem update_induction (ledger : Ledger) {P : Ledger → Prop} (flat : ledger.isolation.Flat)
    (commit : ∀ {before after : Ledger} {entity : Nat} {parts : List Contribution},
      before.isolation = ledger.isolation → ¬ ledger.isolation.IsChild entity →
        before.commit entity parts = .ok after → P before → P after)
    (start : ∀ baselines, P (ledger.withBulk baselines)) (path : Path) (meter : μ) (time : Nat) :
    P (ledger.update path meter time).ledger := by
  have initial : P ledger := start ledger.bulkBaselines
  cases path with
  | tick =>
    have turns (round : Round μ) (entity : Nat) :
        ∃ outcome, Round.Turn entity round (round.tickEntity time entity) outcome := by
      obtain ⟨outcome, turn, -⟩ := round.turn_tickEntity time entity
      exact ⟨outcome, turn⟩
    have round : P (Round.mk ledger meter {}).ledger := initial
    exact Round.foldl_induction turns (fun entity mem => not_isChild_of_mem_targets mem) commit rfl
      round
  | copyAll =>
    unfold Ledger.update copyAll
    generalize Meter.readAll meter = reading
    obtain ⟨levels, after⟩ := reading
    cases levels with
    | none => exact initial
    | some levels =>
      have turns (round : Round μ) (entity : Nat) : ∃ outcome, Round.Turn entity round
          (round.commit entity (shareOf (ledger.assigned levels) entity)) outcome := by
        obtain ⟨outcome, turn, -⟩ :=
          round.turn_commit entity (shareOf (ledger.assigned levels) entity)
        exact ⟨outcome, turn⟩
      have round : P (Round.mk (ledger.rebase levels time) after
          { failures := ledger.widthFailures levels }).ledger := start _
      exact Round.foldl_induction turns
        (fun entity mem => not_isChild_of_mem_recipients flat mem) commit rfl round

theorem Consistent.update {ledger : Ledger} (h : ledger.Consistent) (path : Path) (meter : μ)
    (time : Nat) : (ledger.update path meter time).ledger.Consistent := by
  apply ledger.update_induction h.flat
  · intro before after entity parts scene own done consistent
    exact (committed_of_commit done).consistent consistent (by rw [scene]; exact own)
  · intro baselines
    exact ⟨h.pending, h.known, h.flat⟩

/-- Whoever is known stays so. -/
theorem mem_standing_update {ledger : Ledger} (flat : ledger.isolation.Flat) {entity : Nat}
    (known : entity ∈ ledger.standing) (path : Path) (meter : μ) (time : Nat) :
    entity ∈ (ledger.update path meter time).ledger.standing := by
  apply ledger.update_induction (P := fun after => entity ∈ after.standing) flat
  · intro before after other parts _ _ done mem
    exact ((committed_of_commit done).known entity).mpr (.inr mem)
  · exact fun _ => known

/-- Some run of calls leads from a new ledger to this one. -/
def Reachable (ledger : Ledger) : Prop :=
  ∃ (μ : Type) (_ : Meter μ) (config : Config) (start : Session μ) (calls : List (Call μ)),
    Ledger.new config = .ok start.ledger ∧ (start.run calls).ledger = ledger

theorem Consistent.run {session : Session μ} (h : session.ledger.Consistent)
    (calls : List (Call μ)) : (session.run calls).ledger.Consistent := by
  apply List.foldlRecOn (motive := fun session : Session μ => session.ledger.Consistent)
  · exact h
  · intro session consistent call _
    cases call with
    | notice notice => exact consistent.notice notice
    | meter meter => exact consistent
    | update path time => exact consistent.update path session.meter time

theorem Reachable.consistent {ledger : Ledger} (h : ledger.Reachable) : ledger.Consistent := by
  obtain ⟨μ, _, config, start, calls, new, rfl⟩ := h
  exact (consistent_new new).run calls

end Ledger

end UsageLedger
