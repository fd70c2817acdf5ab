import UsageLedger.Proofs.OneLevel
import UsageLedger.Proofs.Runs

/-!
Consistent ledgers. Whoever has a pending state is known, whoever is known is not isolated, and
neither is the parent of an isolated entity. Notices keep it so, and so do commits of entities that
are not isolated; neither looks at the baselines of whole-system readings.
-/

namespace UsageLedger

theorem Links.Flat.not_isChild_ownerOf {isolation : Isolation} (flat : isolation.Flat)
    (source : Nat) : ¬ isolation.IsChild (isolation.ownerOf source) := by
  unfold Isolation.ownerOf
  cases child : isolation.parentOf source with
  | none => exact (isolation.parentOf_eq_none_iff source).mp child
  | some parent => exact flat source parent child

namespace Ledger

structure Consistent (ledger : Ledger) : Prop where
  pending : ∀ entity ∈ ledger.pending, entity ∈ ledger.standing
  known : ∀ entity ∈ ledger.standing, ¬ ledger.isolation.IsChild entity
  flat : ledger.isolation.Flat

theorem consistent_new {config : Config} {ledger : Ledger}
    (new : Ledger.new config = .ok ledger) : ledger.Consistent := by
  cases eq_of_new new
  refine ⟨?_, ?_, ?_⟩
  · intro entity mem
    simp [Table.mem_iff] at mem
  · intro entity mem
    simp [Table.mem_iff] at mem
  · intro child parent found
    simp [Links.parentOf] at found

theorem Consistent.classify {ledger : Ledger} (h : ledger.Consistent) (entity : Nat)
    (state : ProcState) : (ledger.classify entity state).Consistent := by
  unfold Ledger.classify
  split
  next => exact h
  next own =>
    refine ⟨?_, ?_, h.flat⟩
    · intro other mem
      rcases Table.mem_insert.mp mem with same | mem
      · exact Table.mem_insertIfNew.mpr (.inl same)
      · exact Table.mem_insertIfNew.mpr (.inr (h.pending other mem))
    · intro other mem
      rcases Table.mem_insertIfNew.mp mem with rfl | mem
      · exact own
      · exact h.known other mem

theorem Consistent.notice {ledger : Ledger} (h : ledger.Consistent) (notice : Notice) :
    (ledger.notice notice).Consistent := by
  rcases ledger.notice_cases notice with ⟨timeBase, timers, result⟩ | ⟨entity, state, result⟩ |
    ⟨parent, child, accepted, result⟩ | ⟨child, result⟩
  · exact result ▸ ⟨h.pending, h.known, h.flat⟩
  · exact result ▸ h.classify entity state
  · rw [result]
    refine ⟨?_, ?_, h.flat.link ledger.isolation.sound accepted⟩
    · intro other mem
      obtain ⟨ne, mem⟩ := Table.mem_erase.mp mem
      exact Table.mem_erase.mpr ⟨ne, h.pending other mem⟩
    · intro other mem isolated
      obtain ⟨ne, mem⟩ := Table.mem_erase.mp mem
      rcases Links.isChild_link.mp isolated with same | isolated
      · exact ne same
      · exact h.known other mem isolated
  · rw [result]
    refine ⟨h.pending, ?_, h.flat.unlink child⟩
    intro other mem isolated
    exact h.known other mem (Links.isChild_unlink.mp isolated).2

theorem Committed.consistent {before after : Ledger} {entity : Nat} {parts : List Contribution}
    (h : Committed before entity parts after) (consistent : before.Consistent)
    (own : ¬ before.isolation.IsChild entity) : after.Consistent where
  pending other mem := by
    rw [h.pending] at mem
    exact (h.known other).mpr (.inr (consistent.pending other (Table.mem_erase.mp mem).2))
  known other mem := by
    rw [h.isolation]
    rcases (h.known other).mp mem with rfl | mem
    · exact own
    · exact consistent.known other mem
  flat := by
    rw [h.isolation]
    exact consistent.flat

/-- The ledger with other baselines for the next whole-system reading. -/
def withBulk (ledger : Ledger) (baselines : Baselines) : Ledger :=
  { ledger with bulkBaselines := baselines }

theorem commit_withBulk (ledger : Ledger) (baselines : Baselines) (entity : Nat)
    (parts : List Contribution) : (ledger.withBulk baselines).commit entity parts =
      (ledger.commit entity parts).map fun after => after.withBulk baselines := by
  unfold commit
  have record : (ledger.withBulk baselines).store.record entity
      ((ledger.withBulk baselines).targetSlot entity)
      (ledger.withBulk baselines).timeBase.screenOffActive
      ((ledger.withBulk baselines).merged parts) =
    ledger.store.record entity (ledger.targetSlot entity) ledger.timeBase.screenOffActive
      (ledger.merged parts) := rfl
  simp only [record]
  cases ledger.store.record entity (ledger.targetSlot entity) ledger.timeBase.screenOffActive
    (ledger.merged parts) <;> rfl

theorem notice_withBulk (ledger : Ledger) (baselines : Baselines) (notice : Notice) :
    (ledger.withBulk baselines).notice notice = (ledger.notice notice).withBulk baselines := by
  have classify (entity : Nat) (state : ProcState) :
      (ledger.withBulk baselines).classify entity state =
        (ledger.classify entity state).withBulk baselines := by
    by_cases isolated : ledger.isolation.IsChild entity
    · have same : (ledger.withBulk baselines).isolation.IsChild entity := isolated
      rw [Ledger.classify, Ledger.classify, if_pos isolated, if_pos same]
    · have same : ¬ (ledger.withBulk baselines).isolation.IsChild entity := isolated
      rw [Ledger.classify, Ledger.classify, if_neg isolated, if_neg same]
      rfl
  cases notice with
  | classify entity state => exact classify entity state
  | importance entity code =>
    have same : (ledger.withBulk baselines).stateOfImportance code =
        ledger.stateOfImportance code := rfl
    simp only [Ledger.notice, setImportance, same]
    cases ledger.stateOfImportance code with
    | none => rfl
    | some state => exact classify entity state
  | timeBase onBattery screenOff time => rfl
  | isolate parent child =>
    have same : (ledger.withBulk baselines).isolation = ledger.isolation := rfl
    simp only [Ledger.notice, isolate, same]
    cases ledger.isolation.add parent child <;> rfl
  | unisolate child => rfl
  | acquire entity time => rfl
  | release entity time =>
    have same : (ledger.withBulk baselines).timers = ledger.timers := rfl
    have owner : (ledger.withBulk baselines).isolation = ledger.isolation := rfl
    simp only [Ledger.notice, releaseWakelock?, same, owner]
    cases ledger.timers.release? (ledger.isolation.ownerOf entity) time <;> rfl

end Ledger

end UsageLedger
