import UsageLedger.Proofs.FamilyFrame
import UsageLedger.Proofs.Landing
import UsageLedger.Proofs.SharedSource

/-!
Outcomes of a tick. The turn of an entity enters it in exactly one list of the report. The books of
an updated entity are those after one commit for it, made on the books before the tick; the books of
all others are those before the tick. There is nothing in between.
-/

namespace UsageLedger

namespace Report

/-- The entities whose share was abandoned. -/
def failed (report : Report) : List Nat := report.failures.map Failure.entity

/-- All entities the report lists. -/
def entered (report : Report) : List Nat := report.updated ++ report.skipped ++ report.failed

theorem entered_addUpdated (report : Report) (entity : Nat) :
    (report.addUpdated entity).entered.Perm (report.entered ++ [entity]) := by
  unfold entered addUpdated failed
  simp only [List.append_assoc]
  apply List.Perm.append_left
  exact List.perm_append_comm.trans (.of_eq (List.append_assoc ..))

theorem entered_addSkipped (report : Report) (entity : Nat) :
    (report.addSkipped entity).entered.Perm (report.entered ++ [entity]) := by
  unfold entered addSkipped failed
  simp only [List.append_assoc]
  exact (List.perm_append_comm.append_left _).append_left _

theorem entered_addFailure (report : Report) (failure : Failure) :
    (report.addFailure failure).entered = report.entered ++ [failure.entity] := by
  simp [entered, addFailure, failed]

end Report

namespace Ledger

/-- The books of the entity are those after a commit of the parts for it, and for nobody else. -/
def Applied (before : Ledger) (entity : Nat) (parts : List Contribution) (after : Ledger) : Prop :=
  ∃ credited, before.commit entity parts = .ok credited ∧
    AgreeOn (before.isolation.family entity) credited after

/-- The books of the entity and of its isolated entities are as they were. -/
structure Spared (before : Ledger) (entity : Nat) (after : Ledger) : Prop where
  books : AgreeOn (before.isolation.family entity) before after
  standing : after.standing.get? entity = before.standing.get? entity

section Commit

variable {start before after : Ledger} {entity other : Nat} {parts : List Contribution}

theorem get?_standing_commit_of_ne (done : before.commit entity parts = .ok after)
    (ne : other ≠ entity) : after.standing.get? other = before.standing.get? other := by
  obtain ⟨store, changed, -, rfl⟩ := commit_eq_ok done
  cases before.targetSlot entity with
  | known state => exact Table.get?_insert_of_ne _ _ ne
  | unknown => rw [Table.get?_insertIfNew, if_neg ne, Option.or_none]

/-- A commit of an entity's own family touches no other family. -/
theorem agreeOn_family_of_commit (done : before.commit entity parts = .ok after)
    (own : ∀ part ∈ parts, part.source ∈ before.isolation.family entity)
    (apart : ¬ before.isolation.IsChild entity) (apart' : ¬ before.isolation.IsChild other)
    (ne : entity ≠ other) : AgreeOn (before.isolation.family other) before after := by
  apply agreeOn_of_commit done
  · exact Isolation.not_mem_family_of_ne apart' apart ne List.mem_cons_self
  · intro part mem
    exact Isolation.not_mem_family_of_ne apart' apart ne (own part mem)

theorem Spared.commit (spared : start.Spared other before)
    (done : before.commit entity parts = .ok after)
    (own : ∀ part ∈ parts, part.source ∈ before.isolation.family entity)
    (apart : ¬ start.isolation.IsChild entity) (apart' : ¬ start.isolation.IsChild other)
    (ne : entity ≠ other) : start.Spared other after where
  books := by
    rw [spared.books.isolation] at apart apart'
    have untouched := agreeOn_family_of_commit done own apart apart' ne
    rw [← spared.books.isolation] at untouched
    exact spared.books.trans untouched
  standing := (get?_standing_commit_of_ne done ne.symm).trans spared.standing

theorem Applied.commit {others : List Contribution} (applied : start.Applied other others before)
    (scene : before.isolation = start.isolation) (done : before.commit entity parts = .ok after)
    (own : ∀ part ∈ parts, part.source ∈ before.isolation.family entity)
    (apart : ¬ start.isolation.IsChild entity) (apart' : ¬ start.isolation.IsChild other)
    (ne : entity ≠ other) : start.Applied other others after := by
  obtain ⟨credited, first, books⟩ := applied
  rw [← scene] at apart apart'
  have untouched := agreeOn_family_of_commit done own apart apart' ne
  rw [scene] at untouched
  exact ⟨credited, first, books.trans untouched⟩

/-- What is committed for an entity spared so far is applied to its books before the tick. -/
theorem Spared.applied (spared : start.Spared entity before)
    (done : before.commit entity parts = .ok after) : start.Applied entity parts after := by
  have merged : start.merged parts = before.merged parts := by
    unfold Ledger.merged
    rw [spared.books.width]
  rcases start.commit_cases entity parts with ⟨-, credited, first⟩ | ⟨wrong, -⟩
  · exact ⟨credited, first, spared.books.commit List.mem_cons_self first done⟩
  · rcases before.commit_cases entity parts with ⟨right, -⟩ | ⟨-, refused⟩
    · rw [merged, spared.books.width] at wrong
      exact absurd right wrong
    · rw [refused] at done
      contradiction

end Commit

section Applied

variable {before after : Ledger} {entity : Nat} {parts : List Contribution}

theorem Applied.pending (applied : before.Applied entity parts after) :
    after.pending.get? entity = none := by
  obtain ⟨credited, done, books⟩ := applied
  rw [← books.pending entity List.mem_cons_self, (committed_of_commit done).pending,
    Table.get?_erase, if_pos rfl]

/-- An updated entity has the state its usage went to. -/
theorem Applied.stateOf (applied : before.Applied entity parts after) :
    after.stateOf entity = before.nextState entity := by
  obtain ⟨credited, done, books⟩ := applied
  rw [← books.states entity List.mem_cons_self, stateOf_commit done, if_pos rfl]

theorem nextState_of_known {ledger : Ledger} {state : ProcState}
    (target : ledger.targetSlot entity = .known state) : ledger.nextState entity = some state := by
  rw [targetSlot_eq] at target
  cases next : ledger.nextState entity with
  | none => simp [next, Slot.ofState?] at target
  | some other => simpa [next, Slot.ofState?] using target

theorem nextState_of_unknown {ledger : Ledger} (target : ledger.targetSlot entity = .unknown) :
    ledger.nextState entity = none ∧ ledger.stateOf entity = none := by
  rw [targetSlot_eq] at target
  cases next : ledger.nextState entity with
  | none => exact ⟨rfl, (Option.or_eq_none_iff.mp next).2⟩
  | some other => simp [next, Slot.ofState?] at target

end Applied

end Ledger

namespace Round

variable {μ : Type}

/-- How the turn of an entity comes out. -/
inductive Entered (entity : Nat) (before after : Round μ) : Prop where
  | updated {parts : List Contribution} :
      (∀ part ∈ parts, part.source ∈ before.ledger.isolation.family entity) →
      before.ledger.commit entity parts = .ok after.ledger →
      after.report = before.report.addUpdated entity → Entered entity before after
  | skipped : after.ledger = before.ledger →
      after.report = before.report.addSkipped entity → Entered entity before after
  | failed {phase : Phase} {fault : Fault} : after.ledger = before.ledger →
      after.report = before.report.addFailure ⟨entity, phase, fault⟩ → Entered entity before after

theorem entered_commit (round : Round μ) {entity : Nat} {parts : List Contribution}
    (own : ∀ part ∈ parts, part.source ∈ round.ledger.isolation.family entity) :
    Entered entity round (round.commit entity parts) := by
  unfold commit
  cases done : round.ledger.commit entity parts with
  | ok ledger => exact .updated own done rfl
  | error fault => exact .failed rfl rfl

theorem entered_tickEntity [Meter μ] (round : Round μ) (time entity : Nat) :
    Entered entity round (round.tickEntity time entity) := by
  have own (parts : List Contribution) (read : (round.ledger.gather round.meter entity time).1 =
      .complete parts) := Ledger.gather_sources read
  unfold tickEntity
  generalize round.ledger.gather round.meter entity time = gathered at own
  obtain ⟨family, meter⟩ := gathered
  cases family with
  | unavailable => exact .skipped rfl rfl
  | failed phase fault => exact .failed rfl rfl
  | complete parts =>
    have entered := entered_commit { round with meter } (own parts rfl)
    cases entered with
    | updated own done report => exact .updated own done report
    | skipped same report => exact .skipped same report
    | failed same report => exact .failed same report

/-- What a round has done that took up these entities, each once: it listed all of them, applied a
whole commit to each updated one, and spared all other families. -/
structure Outcome (start : Ledger) (done : List Nat) (round : Round μ) : Prop where
  entered : round.report.entered.Perm done
  updated : round.report.updated.Sublist done
  skipped : round.report.skipped.Sublist done
  failed : round.report.failed.Sublist done
  applied : ∀ entity ∈ round.report.updated, ∃ parts, start.Applied entity parts round.ledger
  spared : ∀ entity, ¬ start.isolation.IsChild entity → entity ∉ round.report.updated →
    start.Spared entity round.ledger
  scene : start.SameScene round.ledger
  bulkBaselines : round.ledger.bulkBaselines = start.bulkBaselines
  config : round.ledger.config = start.config

theorem Outcome.start (ledger : Ledger) (meter : μ) : Outcome ledger [] { ledger, meter } where
  entered := .refl []
  updated := .refl []
  skipped := .refl []
  failed := .refl []
  applied := by simp
  spared entity _ _ := ⟨.refl _ ledger, rfl⟩
  scene := .refl ledger
  bulkBaselines := rfl
  config := rfl

section Turn

variable {start : Ledger} {done : List Nat} {before after : Round μ} {entity : Nat}

theorem Outcome.updated_turn (outcome : Outcome start done before)
    (apart : ∀ other ∈ entity :: done, ¬ start.isolation.IsChild other) (fresh : entity ∉ done)
    {parts : List Contribution}
    (own : ∀ part ∈ parts, part.source ∈ before.ledger.isolation.family entity)
    (committed : before.ledger.commit entity parts = .ok after.ledger)
    (report : after.report = before.report.addUpdated entity) :
    Outcome start (done ++ [entity]) after := by
  obtain ⟨apart', earlier⟩ := List.forall_mem_cons.mp apart
  have unlisted : entity ∉ before.report.updated := fun mem => fresh (outcome.updated.mem mem)
  have listed : after.report.updated = before.report.updated ++ [entity] := by
    rw [report, Report.addUpdated]
  refine ⟨?_, ?_, ?_, ?_, ?_, ?_, ?_, ?_, ?_⟩
  · rw [report]
    exact before.report.entered_addUpdated entity |>.trans (outcome.entered.append_right _)
  · rw [listed]
    exact outcome.updated.append (.refl _)
  · rw [report]
    exact outcome.skipped.trans (List.sublist_append_left ..)
  · rw [report]
    exact outcome.failed.trans (List.sublist_append_left ..)
  · intro other mem
    rw [listed, List.mem_append, List.mem_singleton] at mem
    rcases mem with mem | rfl
    · obtain ⟨others, applied⟩ := outcome.applied other mem
      have ne : entity ≠ other := fun same => unlisted (same ▸ mem)
      exact ⟨others, applied.commit outcome.scene.isolation committed own apart'
        (earlier other (outcome.updated.mem mem)) ne⟩
    · exact ⟨parts, (outcome.spared other apart' unlisted).applied committed⟩
  · intro other apart'' absent
    rw [listed, List.mem_append, List.mem_singleton, not_or] at absent
    exact (outcome.spared other apart'' absent.1).commit committed own apart' apart''
      (Ne.symm absent.2)
  · exact outcome.scene.trans (Ledger.sameScene_commit committed)
  · rw [(Ledger.committed_of_commit committed).bulkBaselines, outcome.bulkBaselines]
  · obtain ⟨store, changed, -, same⟩ := Ledger.commit_eq_ok committed
    rw [same]
    exact outcome.config

theorem Outcome.passed_turn (outcome : Outcome start done before)
    (same : after.ledger = before.ledger)
    (updated : after.report.updated = before.report.updated)
    (skipped : after.report.skipped.Sublist (done ++ [entity]))
    (failed : after.report.failed.Sublist (done ++ [entity]))
    (entered : after.report.entered.Perm (before.report.entered ++ [entity])) :
    Outcome start (done ++ [entity]) after where
  entered := entered.trans (outcome.entered.append_right _)
  updated := updated ▸ outcome.updated.trans (List.sublist_append_left ..)
  skipped := skipped
  failed := failed
  applied := by
    rw [same, updated]
    exact outcome.applied
  spared := by
    rw [same, updated]
    exact outcome.spared
  scene := same ▸ outcome.scene
  bulkBaselines := same ▸ outcome.bulkBaselines
  config := same ▸ outcome.config

theorem Outcome.turn (outcome : Outcome start done before)
    (apart : ∀ other ∈ entity :: done, ¬ start.isolation.IsChild other) (fresh : entity ∉ done)
    (entered : Entered entity before after) : Outcome start (done ++ [entity]) after := by
  have kept {entries : List Nat} (sub : entries.Sublist done) :
      entries.Sublist (done ++ [entity]) :=
    sub.trans (List.sublist_append_left ..)
  cases entered with
  | updated own committed report => exact outcome.updated_turn apart fresh own committed report
  | skipped same report =>
    apply outcome.passed_turn same
    · rw [report, Report.addSkipped]
    · rw [report]
      exact outcome.skipped.append (.refl _)
    · rw [report]
      exact kept outcome.failed
    · rw [report]
      exact before.report.entered_addSkipped entity
  | @failed phase fault same report =>
    have listed : after.report.failed = before.report.failed ++ [entity] := by
      simp [report, Report.failed, Report.addFailure]
    apply outcome.passed_turn same
    · rw [report, Report.addFailure]
    · rw [report]
      exact kept outcome.skipped
    · rw [listed]
      exact outcome.failed.append (.refl _)
    · rw [report, Report.entered_addFailure]

end Turn

/-- Turns of distinct entities of their own. -/
theorem Outcome.turns [Meter μ] {start : Ledger} (time : Nat) {entities done : List Nat}
    {round : Round μ} (outcome : Outcome start done round)
    (apart : ∀ entity ∈ done ++ entities, ¬ start.isolation.IsChild entity)
    (distinct : (done ++ entities).Nodup) :
    Outcome start (done ++ entities) (entities.foldl (tickEntity time) round) := by
  induction entities generalizing done round with
  | nil => rwa [List.append_nil]
  | cons entity entities ih =>
    have fresh : entity ∉ done := by
      intro mem
      exact (List.nodup_append.mp distinct).2.2 entity mem entity List.mem_cons_self rfl
    have own : ∀ other ∈ entity :: done, ¬ start.isolation.IsChild other := by
      intro other mem
      apply apart other
      rcases List.mem_cons.mp mem with rfl | mem
      · exact List.mem_append_right _ List.mem_cons_self
      · exact List.mem_append_left _ mem
    have next := outcome.turn own fresh (round.entered_tickEntity time entity)
    rw [List.append_cons] at apart distinct ⊢
    exact ih next apart distinct

end Round

namespace Ledger

/-- Wherever a tick is stopped between two turns, the entities taken up so far are settled. -/
theorem outcome_of_targets {μ : Type} [Meter μ] (ledger : Ledger) (meter : μ) (time : Nat)
    {done waiting : List Nat} (split : ledger.targets = done ++ waiting) :
    Round.Outcome ledger done (done.foldl (Round.tickEntity time) { ledger, meter }) := by
  have apart : ∀ entity ∈ [] ++ done, ¬ ledger.isolation.IsChild entity := by
    intro entity mem
    exact not_isChild_of_mem_targets (split ▸ List.mem_append_left _ mem)
  have distinct : ([] ++ done).Nodup := by
    have all := ledger.targets_nodup
    rw [split] at all
    exact (List.nodup_append.mp all).1
  exact (Round.Outcome.start ledger meter).turns time apart distinct

end Ledger

end UsageLedger
