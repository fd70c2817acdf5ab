import UsageLedger.Proofs.Runs
import UsageLedger.Proofs.Turns

namespace UsageLedger

/-- A cell with a delta added. A delta of zeros opens no cell. -/
def Measure.addedTo (delta : Measure) (cell : Option Measure) : Option Measure :=
  if delta.IsZero then cell else Measure.join cell (some delta)

namespace Ledger

variable {μ : Type} [Meter μ]

/-- The round in which a tick takes up the entity. -/
def turnOf (ledger : Ledger) (meter : μ) (time entity : Nat) : Round μ :=
  (ledger.targets.takeWhile (· ≠ entity)).foldl (Round.tickEntity time) { ledger, meter }

/-- What the entity and its isolated entities contribute to an update. -/
def share? (ledger : Ledger) (path : Path) (meter : μ) (time entity : Nat) :
    Option (List Contribution) :=
  match path with
  | .tick =>
    let round := ledger.turnOf meter time entity
    match (round.ledger.gather round.meter entity time).1 with
    | .complete parts => some parts
    | _ => none
  | .copyAll => (Meter.readAll meter).1.map fun levels => shareOf (ledger.assigned levels) entity

/-- The merged delta of the entity in an update. -/
def delta? (ledger : Ledger) (path : Path) (meter : μ) (time entity : Nat) : Option Measure :=
  (ledger.share? path meter time entity).map ledger.merged

/-- The delta holds the sum of what the sources of the share gained, at each frequency. -/
theorem amountAt_delta? {ledger : Ledger} {path : Path} {meter : μ} {time entity : Nat}
    {delta : Measure} (merged : ledger.delta? path meter time entity = some delta) :
    ∃ parts, ledger.share? path meter time entity = some parts ∧
      ∀ i, delta.amountAt i = gainAt parts i := by
  obtain ⟨parts, shared, rfl⟩ := Option.map_eq_some_iff.mp merged
  exact ⟨parts, shared, ledger.amountAt_merged parts⟩

/-- The ledger after an update differs for the entity by the delta in its target row. -/
def Lands (before : Ledger) (entity : Nat) (delta : Measure) (after : Ledger) : Prop :=
  ∀ row column, after.store.cell? entity row column =
    if row = before.targetSlot entity ∧
        (column = .allTime ∨ before.timeBase.screenOffActive = true) then
      delta.addedTo (before.store.cell? entity row column)
    else before.store.cell? entity row column

theorem lands_of_commit {start before settled after : Ledger} {entity : Nat}
    {parts : List Contribution} (scene : start.SameScene before)
    (untouched : ∀ row column,
      before.store.cell? entity row column = start.store.cell? entity row column)
    (commit : before.commit entity parts = .ok settled)
    (kept : ∀ row column,
      after.store.cell? entity row column = settled.store.cell? entity row column) :
    start.Lands entity (start.merged parts) after := by
  intro row column
  have target : before.targetSlot entity = start.targetSlot entity := by
    rw [targetSlot_eq, scene.nextState, targetSlot_eq]
  have delta : before.merged parts = start.merged parts := by
    rw [merged, scene.width, merged]
  rw [kept, cell?_commit commit, untouched, target, scene.timeBase, delta, Measure.addedTo]
  by_cases zero : (start.merged parts).IsZero
  · simp [zero]
  · simp [zero]

theorem targets_nodup (ledger : Ledger) : ledger.targets.Nodup := (Table.keys_nodup _).filter _

theorem tick_lands {ledger : Ledger} {meter : μ} {time entity : Nat}
    (updated : entity ∈ (ledger.tick meter time).report.updated) :
    ∃ delta, ledger.delta? .tick meter time entity = some delta ∧
      ledger.Lands entity delta (ledger.tick meter time).ledger := by
  have turns (round : Round μ) (entity : Nat) := round.turn_tickEntity time entity
  obtain ⟨parts, settled, gathered, commit, scene, untouched, kept⟩ :=
    Round.foldl_updated turns ledger.targets_nodup (by simp) updated
  refine ⟨ledger.merged parts, ?_, lands_of_commit scene untouched commit kept⟩
  simp only [delta?, share?, turnOf, gathered]
  rfl

theorem copyAll_lands {ledger : Ledger} {meter : μ} {time entity : Nat}
    (updated : entity ∈ (ledger.copyAll meter time).report.updated) :
    ∃ delta, ledger.delta? .copyAll meter time entity = some delta ∧
      ledger.Lands entity delta (ledger.copyAll meter time).ledger := by
  unfold copyAll at updated ⊢
  simp only [delta?, share?]
  generalize Meter.readAll meter = reading at updated ⊢
  obtain ⟨levels, meter⟩ := reading
  cases levels with
  | none => simp at updated
  | some levels =>
    let parts := ledger.assigned levels
    let start : Round μ :=
      ⟨ledger.rebase levels time, meter, { failures := ledger.widthFailures levels }⟩
    have turns (round : Round μ) (entity : Nat) := round.turn_commit entity (shareOf parts entity)
    have updated : entity ∈ ((recipients parts (ledger.spoiled levels)).foldl
        (fun round entity => round.commit entity (shareOf parts entity)) start).report.updated :=
      updated
    obtain ⟨_, settled, rfl, commit, scene, untouched, kept⟩ :=
      Round.foldl_updated turns (recipients_nodup parts _) (by simp [start]) updated
    have rebased : ledger.SameScene start.ledger := ⟨rfl, rfl, rfl, rfl, fun _ => rfl⟩
    exact ⟨ledger.merged (shareOf parts entity), rfl,
      lands_of_commit (rebased.trans scene) untouched commit kept⟩

end Ledger

namespace Session

variable {μ : Type} [Meter μ]

end Session

end UsageLedger
