import UsageLedger.Proofs.FamilyFrame
import UsageLedger.Proofs.Landing
import UsageLedger.Proofs.SharedSource

/-!
What an update does to one family. It reads each of its sources at most once. If it reports the
entity updated, it has credited all these readings, and each becomes the baseline and the accounted
level of its source. If not, the accounted levels stay as they are.
-/

namespace UsageLedger

namespace Ledger

variable {ledger : Ledger} {levels : Table Measure} {entity : Nat}

/-- Usage that goes to an entity on behalf of one source would go to it on behalf of the others. -/
theorem recipient?_of_shared (own : ¬ ledger.isolation.IsChild entity) {reading : Reading}
    (shared : reading ∈ ledger.sharedReadings levels entity) {source : Nat}
    (family : source ∈ ledger.isolation.family entity) :
    ledger.recipient? (ledger.accepted levels) source = some entity := by
  obtain ⟨read, goes⟩ := mem_sharedReadings.mp shared
  rcases List.mem_cons.mp family with rfl | child
  · rw [recipient?, (ledger.isolation.parentOf_eq_none_iff source).mpr own]
  · have answered : entity ∈ ledger.standing ∨ entity ∈ ledger.accepted levels := by
      unfold recipient? at goes
      split at goes
      next =>
        have accepted := (Table.mem_readings.mp (mem_accepted_readings.mpr read)).2
        exact .inr (Table.mem_iff.mpr ⟨_, Option.some.inj goes ▸ accepted⟩)
      next =>
        split at goes
        next answered => exact Option.some.inj goes ▸ answered
        next => contradiction
    rw [recipient?, (ledger.isolation.mem_childrenOf entity source).mp child]
    exact if_pos answered

/-- Whoever gets anything of a whole-system reading gets all that it shows of the family. -/
theorem mem_sharedReadings_of_updated (own : ¬ ledger.isolation.IsChild entity)
    (updated : entity ∈ recipients (ledger.assigned levels) (ledger.spoiled levels))
    {reading : Reading} : reading ∈ ledger.sharedReadings levels entity ↔
      reading ∈ levels.readings ∧ reading.source ∈ ledger.isolation.family entity := by
  obtain ⟨⟨other, shared⟩, clean⟩ := mem_recipients_assigned.mp updated
  constructor
  · intro mem
    obtain ⟨⟨read, -⟩, goes⟩ := mem_sharedReadings.mp mem
    exact ⟨read, mem_family_of_recipient? goes⟩
  · rintro ⟨mem, family⟩
    refine mem_sharedReadings.mpr ⟨⟨mem, ?_⟩, recipient?_of_shared own shared family⟩
    by_contra wrong
    exact clean (mem_spoiled.mpr
      ⟨reading, mem, Isolation.ownerOf_of_mem_family own family, wrong⟩)

theorem sharedReadings_perm (own : ¬ ledger.isolation.IsChild entity)
    (updated : entity ∈ recipients (ledger.assigned levels) (ledger.spoiled levels)) :
    (ledger.sharedReadings levels entity).Perm
      (levels.readings.filter fun reading => reading.source ∈ ledger.isolation.family entity) := by
  have distinct : (ledger.sharedReadings levels entity).Nodup :=
    (ledger.accepted levels).readings_nodup.filter _
  apply (List.perm_ext_iff_of_nodup distinct (levels.readings_nodup.filter _)).mpr
  intro reading
  rw [mem_sharedReadings_of_updated own updated, List.mem_filter, decide_eq_true_iff]

end Ledger

namespace Session

variable {μ : Type} [Meter μ]

/-- The update reports the entity updated. -/
def Updates (session : Session μ) (path : Path) (time entity : Nat) : Prop :=
  entity ∈ (session.ledger.update path session.meter time).report.updated

instance (session : Session μ) (path : Path) (time entity : Nat) :
    Decidable (session.Updates path time entity) :=
  inferInstanceAs (Decidable (_ ∈ _))

/-- The readings that the update takes. -/
def taken (session : Session μ) (path : Path) (time : Nat) : List Reading :=
  (session.update path time).readings.drop session.readings.length

/-- The readings that the update takes of the entity and its isolated entities. -/
def takenOf (session : Session μ) (path : Path) (time entity : Nat) : List Reading :=
  (session.taken path time).filter fun reading =>
    reading.source ∈ session.ledger.isolation.family entity

theorem mem_takenOf {session : Session μ} {path : Path} {time entity : Nat} {reading : Reading} :
    reading ∈ session.takenOf path time entity ↔ reading ∈ session.taken path time ∧
      reading.source ∈ session.ledger.isolation.family entity := by
  rw [takenOf, List.mem_filter, decide_eq_true_iff]

/-- Between the two states none of the sources was read or credited. -/
structure Passes (sources : List Nat) (before after : Session μ) : Prop where
  readings : ∃ others, after.readings = before.readings ++ others ∧
    ∀ reading ∈ others, reading.source ∉ sources
  accounted : ∀ source ∈ sources,
    after.ledger.accounted.get? source = before.ledger.accounted.get? source
  baselines : ∀ path, ∀ source ∈ sources,
    (after.baselines path).last? source = (before.baselines path).last? source

theorem Passes.refl (sources : List Nat) (session : Session μ) : Passes sources session session :=
  ⟨⟨[], (List.append_nil _).symm, by simp⟩, fun _ _ => rfl, fun _ _ _ => rfl⟩

theorem Passes.trans {sources : List Nat} {before middle after : Session μ}
    (first : Passes sources before middle) (second : Passes sources middle after) :
    Passes sources before after := by
  obtain ⟨early, readings, apart⟩ := first.readings
  obtain ⟨late, readings', apart'⟩ := second.readings
  refine ⟨⟨early ++ late, by rw [readings', readings, List.append_assoc], ?_⟩, ?_, ?_⟩
  · intro reading mem
    exact (List.mem_append.mp mem).elim (apart reading) (apart' reading)
  · intro source mem
    rw [second.accounted source mem, first.accounted source mem]
  · intro path source mem
    rw [second.baselines path source mem, first.baselines path source mem]

theorem Settles.passes {path : Path} {taken settled : List Reading} {before after : Session μ}
    (settles : before.Settles path taken settled after) {sources : List Nat}
    (apart : ∀ reading ∈ taken, reading.source ∉ sources) : Passes sources before after := by
  have unread : ∀ source ∈ sources, ∀ reading ∈ taken, reading.source ≠ source := by
    rintro source mem reading mem' rfl
    exact apart reading mem' mem
  refine ⟨⟨taken, settles.readings, apart⟩, ?_, ?_⟩
  · intro source mem
    apply settles.get?_accounted_of_not_mem
    exact fun reading mem' => unread source mem reading (settles.among reading mem')
  · intro other source mem
    by_cases same : other = path
    · subst same
      exact settles.kept source (unread source mem)
    · rw [settles.other other same]

/-- What an update does to the family of an entity. -/
structure Outcome (session : Session μ) (path : Path) (time entity : Nat) : Prop where
  distinct : ((session.takenOf path time entity).map Reading.source).Nodup
  /-- The other path goes on from where it was. -/
  other : ∀ other, other ≠ path → ∀ source ∈ session.ledger.isolation.family entity,
    ((session.update path time).baselines other).last? source =
      (session.baselines other).last? source
  unread : ∀ source ∈ session.ledger.isolation.family entity,
    (∀ reading ∈ session.takenOf path time entity, reading.source ≠ source) →
    ((session.update path time).baselines path).last? source =
        (session.baselines path).last? source ∧
      (session.update path time).ledger.accounted.get? source =
        session.ledger.accounted.get? source
  credited : session.Updates path time entity →
    ∀ reading ∈ session.takenOf path time entity,
      reading.level.length = session.ledger.store.width ∧
      ((session.update path time).baselines path).last? reading.source = some reading.level ∧
      (session.update path time).ledger.accounted.get? reading.source = some reading.level
  lands : session.Updates path time entity → ∃ delta,
    session.ledger.Lands entity delta (session.update path time).ledger ∧
      ∀ i, delta.amountAt i = gainAt ((session.takenOf path time entity).map
        (session.ledger.credit (session.baselines path))) i
  abandoned : ¬ session.Updates path time entity →
    ∀ source ∈ session.ledger.isolation.family entity,
      (session.update path time).ledger.accounted.get? source =
        session.ledger.accounted.get? source

section Outcome

variable {session reached turned : Session μ} {path : Path} {time entity : Nat}
  {taken settled : List Reading}

/-- The readings taken of a family are those of the one settlement that takes any. -/
theorem takenOf_eq
    (start : Passes (session.ledger.isolation.family entity) session reached)
    (settles : reached.Settles path taken settled turned)
    (rest : Passes (session.ledger.isolation.family entity) turned (session.update path time)) :
    session.takenOf path time entity = taken.filter fun reading =>
      reading.source ∈ session.ledger.isolation.family entity := by
  obtain ⟨early, readings, apart⟩ := start.readings
  obtain ⟨late, readings', apart'⟩ := rest.readings
  have none {others : List Reading} (apart : ∀ reading ∈ others,
      reading.source ∉ session.ledger.isolation.family entity) :
      (others.filter fun reading =>
        reading.source ∈ session.ledger.isolation.family entity) = [] := by
    apply List.filter_eq_nil_iff.mpr
    intro reading mem
    simpa using apart reading mem
  rw [takenOf, Session.taken, readings', settles.readings, readings, List.append_assoc,
    List.append_assoc, List.drop_left, List.filter_append, List.filter_append, none apart,
    none apart', List.nil_append, List.append_nil]

theorem Outcome.of_settles
    (start : Passes (session.ledger.isolation.family entity) session reached)
    (width : reached.ledger.store.width = session.ledger.store.width)
    (settles : reached.Settles path taken settled turned)
    (rest : Passes (session.ledger.isolation.family entity) turned (session.update path time))
    (all : session.Updates path time entity → ∀ reading ∈ taken,
      reading.source ∈ session.ledger.isolation.family entity → reading ∈ settled)
    (nothing : ¬ session.Updates path time entity → ∀ reading ∈ settled,
      reading.source ∉ session.ledger.isolation.family entity)
    (lands : session.Updates path time entity → ∃ delta,
      session.ledger.Lands entity delta (session.update path time).ledger ∧
        ∀ i, delta.amountAt i = gainAt ((session.takenOf path time entity).map
          (session.ledger.credit (session.baselines path))) i) :
    session.Outcome path time entity := by
  have shown := takenOf_eq start settles rest
  have absent {source : Nat} (family : source ∈ session.ledger.isolation.family entity)
      (unread : ∀ reading ∈ session.takenOf path time entity, reading.source ≠ source) :
      ∀ reading ∈ taken, reading.source ≠ source := by
    rintro reading mem rfl
    refine unread reading ?_ rfl
    rw [shown]
    exact List.mem_filter.mpr ⟨mem, decide_eq_true family⟩
  refine ⟨?_, ?_, ?_, ?_, lands, ?_⟩
  · rw [shown]
    exact settles.distinct.sublist (List.filter_sublist.map _)
  · intro other ne source family
    rw [rest.baselines other source family, settles.other other ne,
      start.baselines other source family]
  · intro source family unread
    have gone := absent family unread
    constructor
    · rw [rest.baselines path source family, settles.kept source gone,
        start.baselines path source family]
    · rw [rest.accounted source family, settles.get?_accounted_of_not_mem fun reading mem =>
        gone reading (settles.among reading mem), start.accounted source family]
  · intro updates reading mem
    rw [shown] at mem
    obtain ⟨mem, family⟩ := List.mem_filter.mp mem
    have family := of_decide_eq_true family
    have done := all updates reading mem family
    have right := settles.widths reading done
    refine ⟨right.trans width, ?_, ?_⟩
    · rw [rest.baselines path reading.source family, settles.last reading mem right]
    · rw [rest.accounted reading.source family, settles.get?_accounted_of_mem done]
  · intro passed source family
    rw [rest.accounted source family, settles.get?_accounted_of_not_mem,
      start.accounted source family]
    rintro reading mem rfl
    exact nothing passed reading mem family

end Outcome

theorem updates_copyAll_iff {session : Session μ} {levels : Table Measure} {after : μ}
    (read : Meter.readAll session.meter = (some levels, after)) (time entity : Nat) :
    session.Updates .copyAll time entity ↔ entity ∈
      Ledger.recipients (session.ledger.assigned levels) (session.ledger.spoiled levels) := by
  have report := congrArg Report.updated (session.ledger.report_copyAll read time)
  unfold Updates
  exact (congrArg (entity ∈ ·) report).to_iff

variable [LawfulMeter μ]

theorem updates_iff (session : Session μ) (path : Path) (time entity : Nat) :
    session.Updates path time entity ↔ entity ∈ (session.ledger.update path
      (Recorder.mk session.meter session.readings) time).report.updated := by
  unfold Updates
  rw [← session.ledger.update_plain path (Recorder.mk session.meter session.readings) time]
  rfl

/-- The turns of other entities pass over a family. -/
theorem passes_foldl_tickEntity {isolation : Isolation} {entity : Nat}
    (own : ¬ isolation.IsChild entity) {entities : List Nat} (absent : entity ∉ entities)
    (apart : ∀ other ∈ entities, ¬ isolation.IsChild other) {round : Round (Recorder μ)}
    (scene : round.ledger.isolation = isolation) (time : Nat) :
    Passes (isolation.family entity) (ofRound round)
      (ofRound (entities.foldl (Round.tickEntity time) round)) := by
  induction entities generalizing round with
  | nil => exact .refl _ _
  | cons other entities ih =>
    obtain ⟨ne, absent⟩ := List.ne_and_not_mem_of_not_mem_cons absent
    obtain ⟨first, rest⟩ := List.forall_mem_cons.mp apart
    obtain ⟨taken, settled, settles, family, -⟩ :=
      settles_tickEntity round time (scene ▸ first)
    have passes : Passes (isolation.family entity) (ofRound round)
        (ofRound (round.tickEntity time other)) := by
      apply settles.passes
      intro reading mem
      apply Isolation.not_mem_family_of_ne own first ne.symm
      rw [← scene]
      exact family reading mem
    have kept : (round.tickEntity time other).ledger.isolation = isolation :=
      settles.credited.isolation.trans scene
    exact passes.trans (ih absent rest kept)

/-- What a tick does to the family of an entity that it takes up is done in the entity's turn. -/
structure AtTurn (session : Session μ) (time entity : Nat) (reached : Round (Recorder μ)) :
    Prop where
  scene : session.ledger.SameScene reached.ledger
  before : Passes (session.ledger.isolation.family entity) session (ofRound reached)
  after : Passes (session.ledger.isolation.family entity)
    (ofRound (reached.tickEntity time entity)) (session.update .tick time)
  untouched : ∀ row column, reached.ledger.store.cell? entity row column =
    session.ledger.store.cell? entity row column
  kept : ∀ row column, (session.update .tick time).ledger.store.cell? entity row column =
    (reached.tickEntity time entity).ledger.store.cell? entity row column
  fresh : entity ∉ reached.report.updated
  reported : session.Updates .tick time entity ↔
    entity ∈ (reached.tickEntity time entity).report.updated

/-- The round in which a tick begins, with all that was read before. -/
def begin (session : Session μ) : Round (Recorder μ) where
  ledger := session.ledger
  meter := ⟨session.meter, session.readings⟩

theorem update_tick_eq (session : Session μ) (time : Nat) :
    session.update .tick time =
      ofRound (session.ledger.targets.foldl (Round.tickEntity time) session.begin) :=
  session.update_eq .tick time

theorem updates_tick_iff (session : Session μ) (time entity : Nat) :
    session.Updates .tick time entity ↔ entity ∈
      (session.ledger.targets.foldl (Round.tickEntity time) session.begin).report.updated :=
  session.updates_iff .tick time entity

theorem exists_atTurn (session : Session μ) {entity : Nat}
    (own : ¬ session.ledger.isolation.IsChild entity) (mem : entity ∈ session.ledger.targets)
    (time : Nat) : ∃ reached, session.AtTurn time entity reached := by
  have turns (round : Round (Recorder μ)) (entity : Nat) := round.turn_tickEntity time entity
  have final := session.update_tick_eq time
  have reported := session.updates_tick_iff time entity
  have distinct := session.ledger.targets_nodup
  have apart : ∀ other ∈ session.ledger.targets, ¬ session.ledger.isolation.IsChild other :=
    fun other mem => Ledger.not_isChild_of_mem_targets mem
  obtain ⟨early, late, split, first⟩ := List.eq_append_cons_of_mem mem
  rw [split] at final reported apart distinct
  rw [List.foldl_append, List.foldl_cons] at final reported
  have later : entity ∉ late := (List.nodup_cons.mp (List.nodup_append.mp distinct).2.1).1
  let reached := early.foldl (Round.tickEntity time) session.begin
  let turned := reached.tickEntity time entity
  have start : session.begin.ledger.isolation = session.ledger.isolation := rfl
  have scene : session.ledger.SameScene reached.ledger :=
    Round.foldl_sameScene turns session.begin early
  have scene' : turned.ledger.isolation = session.ledger.isolation := by
    obtain ⟨outcome, turn, -⟩ := turns reached entity
    exact turn.sameScene.isolation.trans scene.isolation
  refine ⟨reached, scene, ?_, ?_, ?_, ?_, ?_, ?_⟩
  · exact passes_foldl_tickEntity own first
      (fun other mem => apart other (List.mem_append_left _ mem)) start time
  · rw [final]
    exact passes_foldl_tickEntity own later
      (fun other mem => apart other (List.mem_append_right _ (List.mem_cons_of_mem _ mem)))
      scene' time
  · exact Round.foldl_cell?_of_not_mem turns session.begin first
  · rw [final]
    exact Round.foldl_cell?_of_not_mem turns turned later
  · rw [Round.foldl_updated_of_not_mem turns session.begin first]
    simp [begin]
  · rw [reported, Round.foldl_updated_of_not_mem turns turned later]

theorem AtTurn.outcome {session : Session μ} {time entity : Nat} {reached : Round (Recorder μ)}
    (h : session.AtTurn time entity reached) (own : ¬ session.ledger.isolation.IsChild entity) :
    session.Outcome .tick time entity := by
  have own' : ¬ reached.ledger.isolation.IsChild entity := by
    rw [h.scene.isolation]
    exact own
  obtain ⟨taken, settled, settles, family, outcome⟩ := settles_tickEntity reached time own'
  rw [h.scene.isolation] at family
  rcases outcome with ⟨rfl, listed, commit⟩ | ⟨rfl, listed⟩
  · have updates : session.Updates .tick time entity := by
      rw [h.reported, listed]
      exact List.mem_append_right _ List.mem_cons_self
    have shown : session.takenOf .tick time entity = settled := by
      rw [takenOf_eq h.before settles h.after]
      exact List.filter_eq_self.mpr fun reading mem => decide_eq_true (family reading mem)
    apply Outcome.of_settles h.before h.scene.width settles h.after
    · exact fun _ reading mem _ => mem
    · exact fun passed => absurd updates passed
    · refine fun _ => ⟨_, Ledger.lands_of_commit h.scene h.untouched commit h.kept, fun i => ?_⟩
      have credits : settled.map (reached.ledger.credit (Gauge.baselines reached.meter)) =
          settled.map (session.ledger.credit (session.baselines .tick)) := by
        apply List.map_congr_left
        intro reading mem
        exact Ledger.credit_congr (h.before.accounted _ (family reading mem))
          (h.before.baselines .tick _ (family reading mem))
      rw [Ledger.amountAt_merged, shown, credits]
  · have passed : ¬ session.Updates .tick time entity := by
      rw [h.reported, listed]
      exact h.fresh
    apply Outcome.of_settles h.before h.scene.width settles h.after
    · exact fun updates => absurd updates passed
    · simp
    · exact fun updates => absurd updates passed

theorem tick_outcome (session : Session μ) {entity : Nat}
    (own : ¬ session.ledger.isolation.IsChild entity) (time : Nat) :
    session.Outcome .tick time entity := by
  by_cases mem : entity ∈ session.ledger.targets
  · obtain ⟨reached, turn⟩ := session.exists_atTurn own mem time
    exact turn.outcome own
  · have turns (round : Round (Recorder μ)) (entity : Nat) := round.turn_tickEntity time entity
    have passed : ¬ session.Updates .tick time entity := by
      rw [updates_tick_iff, Round.foldl_updated_of_not_mem turns session.begin mem]
      simp [begin]
    have start : session.begin.ledger.isolation = session.ledger.isolation := rfl
    have after : Passes (session.ledger.isolation.family entity) session
        (session.update .tick time) := by
      rw [update_tick_eq]
      exact passes_foldl_tickEntity own mem
        (fun other mem => Ledger.not_isChild_of_mem_targets mem) start time
    have idle : (ofRound session.begin).Settles .tick [] []
        (ofRound { session.begin with report := {} }) :=
      settles_nothing session.begin (.nothing session.begin.meter) (by simp)
    apply Outcome.of_settles (.refl _ session) rfl idle after
    · exact fun updates => absurd updates passed
    · simp
    · exact fun updates => absurd updates passed

theorem copyAll_outcome (session : Session μ) {entity : Nat}
    (own : ¬ session.ledger.isolation.IsChild entity) (time : Nat) :
    session.Outcome .copyAll time entity := by
  have settles := session.update_copyAll_settles time
  cases read : Meter.readAll session.meter with
  | mk levels after =>
    rw [read] at settles
    cases levels with
    | none =>
      have passed : ¬ session.Updates .copyAll time entity := by
        simp [Updates, Ledger.update, Ledger.copyAll, read]
      apply Outcome.of_settles (.refl _ session) rfl settles (.refl _ _)
      · exact fun updates => absurd updates passed
      · simp
      · exact fun updates => absurd updates passed
    | some levels =>
      have updates_iff := updates_copyAll_iff read time entity
      apply Outcome.of_settles (.refl _ session) rfl settles (.refl _ _)
      · intro updates reading mem family
        have updated := updates_iff.mp updates
        have shared := (Ledger.mem_sharedReadings_of_updated own updated).mpr ⟨mem, family⟩
        exact Ledger.mem_creditedReadings.mpr
          ⟨entity, shared, (Ledger.mem_recipients_assigned.mp updated).2⟩
      · intro passed reading mem family
        obtain ⟨other, shared, clean⟩ := Ledger.mem_creditedReadings.mp mem
        have owner := Ledger.ownerOf_of_recipient? (Ledger.mem_sharedReadings.mp shared).2
        rw [Isolation.ownerOf_of_mem_family own family] at owner
        subst owner
        have updated := Ledger.mem_recipients_assigned.mpr ⟨⟨reading, shared⟩, clean⟩
        exact passed (updates_iff.mpr updated)
      · intro updates
        obtain ⟨delta, merged, lands⟩ := Ledger.copyAll_lands updates
        refine ⟨delta, lands, fun i => ?_⟩
        have shown : session.takenOf .copyAll time entity = levels.readings.filter fun reading =>
            reading.source ∈ session.ledger.isolation.family entity :=
          takenOf_eq (.refl _ session) settles (.refl _ _)
        have perm := Ledger.sharedReadings_perm own (updates_iff.mp updates)
        rw [Ledger.delta?, Ledger.share?, read] at merged
        cases merged
        have parts := session.ledger.shareOf_assigned levels entity
        rw [Ledger.amountAt_merged, shown]
        exact (congrArg (gainAt · i) parts).trans (gainAt_perm (perm.map _) i)

theorem readings_update (session : Session μ) (path : Path) (time : Nat) :
    (session.update path time).readings = session.readings ++ session.taken path time :=
  (List.prefix_iff_eq_append.mp (session.update_settlements path time).readings_le).symm

theorem not_isChild_of_updates {session : Session μ} (flat : session.ledger.isolation.Flat)
    {path : Path} {time entity : Nat} (updates : session.Updates path time entity) :
    ¬ session.ledger.isolation.IsChild entity := by
  cases path with
  | tick =>
    have turns (round : Round (Recorder μ)) (entity : Nat) := round.turn_tickEntity time entity
    rw [updates_tick_iff] at updates
    by_contra isolated
    have absent : entity ∉ session.ledger.targets :=
      fun mem => Ledger.not_isChild_of_mem_targets mem isolated
    rw [Round.foldl_updated_of_not_mem turns session.begin absent] at updates
    simp [begin] at updates
  | copyAll =>
    cases read : Meter.readAll session.meter with
    | mk levels after =>
      cases levels with
      | none => simp [Updates, Ledger.update, Ledger.copyAll, read] at updates
      | some levels =>
        exact Ledger.not_isChild_of_mem_recipients flat
          ((updates_copyAll_iff read time entity).mp updates)

/-- What an update does to a family, on either path. -/
theorem update_outcome (session : Session μ) {entity : Nat}
    (own : ¬ session.ledger.isolation.IsChild entity) (path : Path) (time : Nat) :
    session.Outcome path time entity := by
  cases path with
  | tick => exact session.tick_outcome own time
  | copyAll => exact session.copyAll_outcome own time

end Session

end UsageLedger
