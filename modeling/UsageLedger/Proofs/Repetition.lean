import UsageLedger.Proofs.CopyEffect
import UsageLedger.Proofs.OneReading

namespace UsageLedger

/-- The same contribution once its level has been credited. -/
def Contribution.idle (part : Contribution) : Contribution :=
  { part with gain := .zero part.gain.length }

/-- What a family comes to once its levels have been credited. -/
def Gathered.idle : Gathered → Gathered
  | .complete parts => .complete (parts.map Contribution.idle)
  | gathered => gathered

namespace ScriptedMeter

/-- The meters show the same levels and count all gains from the same levels; the times of the
baselines may differ. -/
structure Alike (first second : ScriptedMeter) : Prop where
  levels : second.levels = first.levels
  bulk : second.bulk = first.bulk
  last (source : Nat) : second.baselines.last? source = first.baselines.last? source

theorem Alike.refl (meter : ScriptedMeter) : meter.Alike meter := ⟨rfl, rfl, fun _ => rfl⟩

theorem Alike.trans {first second third : ScriptedMeter} (h : first.Alike second)
    (h' : second.Alike third) : first.Alike third :=
  ⟨h'.levels.trans h.levels, h'.bulk.trans h.bulk,
    fun source => (h'.last source).trans (h.last source)⟩

theorem Alike.view {first second : ScriptedMeter} (h : first.Alike second) (source : Nat) :
    second.view source = first.view source := by
  unfold ScriptedMeter.view
  rw [h.levels, h.last]

/-- A source that shows the level it was read at last has gained nothing, and reading it again
changes no more than the time of its baseline. -/
theorem readGain_again {meter again : ScriptedMeter} {source time : Nat} (later : Nat)
    (same : again.view source = (Meter.readGain meter source time).2.view source) :
    ∃ after, Meter.readGain again source later =
        ((Meter.readGain meter source time).1.map fun gain => .zero gain.length, after) ∧
      again.Alike after := by
  rw [view_readGain_self] at same
  obtain ⟨shown, last⟩ := Prod.ext_iff.mp same
  simp only [view] at shown last
  rw [readGain_eq, readGain_eq, shown]
  cases level? : meter.levels.get? source with
  | none => exact ⟨again, rfl, .refl again⟩
  | some level =>
    rw [level?, Option.some_or] at last
    have gain : again.baselines.gain source level =
        .zero (meter.baselines.gain source level).length := by
      unfold Baselines.gain
      rw [last, Measure.length_since]
      exact Measure.since_self level
    refine ⟨_, Prod.ext (congrArg some gain) rfl, rfl, rfl, fun other => ?_⟩
    rw [Baselines.last?_record]
    split
    next own => rw [own, last]
    next => rfl

end ScriptedMeter

namespace Ledger

variable {first second : Ledger} {meter after again : ScriptedMeter} {time : Nat}

theorem unaccounted_zero (ledger : Ledger) (source length : Nat) (level : Measure) :
    ledger.unaccounted source level (.zero length) = .zero length := by
  unfold unaccounted
  split
  · exact Measure.cap_zero _ _
  · rfl

theorem contribution_again {source : Nat} (first second : Ledger)
    (same : again.view source = after.view source) (gain : Measure) :
    second.contribution again source (.zero gain.length) =
      (first.contribution after source gain).idle := by
  have last : (Gauge.baselines again).last? source = (Gauge.baselines after).last? source :=
    congrArg Prod.snd same
  unfold contribution
  rw [last]
  cases (Gauge.baselines after).last? source with
  | none => rfl
  | some level => simp only [unaccounted_zero, Contribution.idle, length_unaccounted]

theorem view_gatherChildren (ledger : Ledger) {children : List Nat} {source : Nat}
    (absent : source ∉ children) (meter : ScriptedMeter) (time : Nat) :
    (ledger.gatherChildren time children meter).2.view source = meter.view source := by
  apply ledger.gatherChildren_preserves
    (P := fun after : ScriptedMeter => after.view source = meter.view source)
  · intro after same child mem
    have ne : child ≠ source := fun eq => absent (eq ▸ mem)
    rw [after.view_readGain_of_ne ne, same]
  · rfl

theorem view_gatherChildren_head (ledger : Ledger) {child : Nat} {rest : List Nat}
    (fresh : child ∉ rest) (meter : ScriptedMeter) (time : Nat) :
    (ledger.gatherChildren time (child :: rest) meter).2.view child =
      (Meter.readGain meter child time).2.view child := by
  rw [gatherChildren]
  rcases Meter.readGain meter child time with ⟨gained, middle⟩
  have untouched := ledger.view_gatherChildren fresh middle time
  cases gained with
  | none => exact untouched
  | some gain =>
    simp only
    split
    · rfl
    · rcases gathered : ledger.gatherChildren time rest middle with ⟨others, after⟩
      rw [gathered] at untouched
      cases others <;> exact untouched

theorem checkWidth_again (width : second.store.width = first.store.width) (source : Nat)
    (gain : Measure) : second.store.checkWidth source (.zero gain.length) =
      first.store.checkWidth source gain := by
  unfold Store.checkWidth
  rw [width, Measure.length_zero]

/-- Isolated entities that show what they showed when they were read are read again to the same
effect, except that they gained nothing. -/
theorem gatherChildren_again (width : second.store.width = first.store.width) (later : Nat)
    {children : List Nat} (distinct : children.Nodup)
    {gathered : Except Fault (List Contribution)}
    (result : first.gatherChildren time children meter = (gathered, after))
    (same : ∀ child ∈ children, again.view child = after.view child) :
    ∃ final, second.gatherChildren later children again =
        (gathered.map (List.map Contribution.idle), final) ∧ again.Alike final := by
  induction children generalizing meter again gathered with
  | nil =>
    cases result
    exact ⟨again, rfl, .refl again⟩
  | cons child rest ih =>
    obtain ⟨fresh, distinct⟩ := List.nodup_cons.mp distinct
    obtain ⟨head, tail⟩ := List.forall_mem_cons.mp same
    have here : again.view child = (Meter.readGain meter child time).2.view child := by
      rw [head, ← first.view_gatherChildren_head fresh meter time, result]
    obtain ⟨moved, reread, alike⟩ := ScriptedMeter.readGain_again later here
    rcases read : Meter.readGain meter child time with ⟨gained, middle⟩
    rw [read] at here reread
    have still : moved.view child = middle.view child := (alike.view child).trans here
    have others : ∀ child ∈ rest, moved.view child = after.view child :=
      fun child mem => (alike.view child).trans (tail child mem)
    rw [gatherChildren, read] at result
    rw [gatherChildren, reread]
    cases gained with
    | none =>
      obtain ⟨final, result', alike'⟩ := ih distinct result others
      exact ⟨final, result', alike.trans alike'⟩
    | some gain =>
      simp only [Option.map_some, checkWidth_again width] at result ⊢
      cases check : first.store.checkWidth child gain with
      | error fault =>
        rw [check] at result
        cases result
        exact ⟨moved, rfl, alike⟩
      | ok _ =>
        rcases gatheredRest : first.gatherChildren time rest middle with ⟨parts, last⟩
        rw [check, gatheredRest] at result
        have ended : last = after := by
          cases parts <;> exact congrArg Prod.snd result
        obtain ⟨final, result', alike'⟩ := ih distinct (ended ▸ gatheredRest) others
        refine ⟨final, ?_, alike.trans alike'⟩
        rw [result', contribution_again first second still gain]
        cases parts <;> cases result <;> rfl

/-- A family that shows what it showed when it was read is read again to the same effect, except
that it gained nothing. -/
theorem gather_again (width : second.store.width = first.store.width)
    (isolation : second.isolation = first.isolation) {entity : Nat} (later : Nat)
    (own : ¬ first.isolation.IsChild entity) {gathered : Gathered}
    (result : first.gather meter entity time = (gathered, after))
    (same : ∀ source ∈ first.isolation.family entity, again.view source = after.view source) :
    ∃ final, second.gather again entity later = (gathered.idle, final) ∧ again.Alike final := by
  have distinct := Isolation.family_nodup own
  have fresh := (List.nodup_cons.mp distinct).1
  have head := same entity List.mem_cons_self
  rw [gather_eq] at result ⊢
  rcases read : Meter.readGain meter entity time with ⟨gained, middle⟩
  rw [read] at result
  cases gained with
  | none =>
    cases result
    have here : again.view entity = (Meter.readGain meter entity time).2.view entity := by
      rw [head, read]
    obtain ⟨moved, reread, alike⟩ := ScriptedMeter.readGain_again later here
    rw [reread, read]
    exact ⟨moved, rfl, alike⟩
  | some gain =>
    rcases members : first.gatherChildren time (first.isolation.family entity) meter with
      ⟨others, last⟩
    rw [members] at result
    have ended : last = after := by
      cases others <;> exact congrArg Prod.snd result
    have here : again.view entity = (Meter.readGain meter entity time).2.view entity := by
      rw [head, ← ended, ← first.view_gatherChildren_head fresh meter time]
      exact congrArg (fun read => read.2.view entity) members.symm
    obtain ⟨moved, reread, -⟩ := ScriptedMeter.readGain_again later here
    obtain ⟨final, result', alike⟩ :=
      gatherChildren_again width later distinct (ended ▸ members) same
    refine ⟨final, ?_, alike⟩
    rw [reread, read, isolation, result', width]
    simp only [Option.map_some, Measure.length_zero]
    cases others <;> cases result <;> rfl

/-- The entity is settled for parts like these: its pending state is the standing one, and the
levels of the parts have been accounted for. -/
structure Settled (ledger : Ledger) (entity : Nat) (parts : List Contribution) : Prop where
  standing : ledger.standing.get? entity = some (ledger.nextState entity)
  pending : ledger.pending.get? entity = none
  accounted : ∀ part ∈ parts, ∀ level ∈ part.level,
    ledger.accounted.get? part.source = some level
  widths : ∀ part ∈ parts, part.gain.length = ledger.store.width

theorem merged_idle {ledger : Ledger} {parts : List Contribution}
    (widths : ∀ part ∈ parts, part.gain.length = ledger.store.width) :
    ledger.merged (parts.map Contribution.idle) = .zero ledger.store.width := by
  have idle : ∀ part ∈ parts.map Contribution.idle, part.gain = .zero ledger.store.width := by
    intro part mem
    obtain ⟨active, listed, rfl⟩ := List.mem_map.mp mem
    rw [Contribution.idle, widths active listed]
  apply Measure.ext_amountAt
  · rw [Measure.length_zero]
    apply length_merged
    intro part mem
    rw [idle part mem, Measure.length_zero]
  · intro i
    rw [amountAt_merged, Measure.amountAt_zero]
    apply List.sum_eq_zero_iff_forall_eq_nat.mpr
    intro amount mem
    obtain ⟨part, listed, rfl⟩ := List.mem_map.mp mem
    rw [idle part listed, Measure.amountAt_zero]

theorem account_eq_self {table : Table Measure} {parts : List Contribution}
    (accounted : ∀ part ∈ parts, ∀ level ∈ part.level, table.get? part.source = some level) :
    account table parts = table := by
  induction parts with
  | nil => rfl
  | cons part parts ih =>
    obtain ⟨first, rest⟩ := List.forall_mem_cons.mp accounted
    cases level? : part.level with
    | none => rw [account_cons_of_none level?, ih rest]
    | some level =>
      rw [account_cons_of_some level?, Table.insert_eq_self (first level level?), ih rest]

/-- To credit nothing new changes nothing. -/
theorem commit_idle {ledger : Ledger} {entity : Nat} {parts : List Contribution}
    (settled : ledger.Settled entity parts) :
    ledger.commit entity (parts.map Contribution.idle) = .ok ledger := by
  have zero : (Measure.zero ledger.store.width).IsZero := fun x mem => List.eq_of_mem_replicate mem
  have recorded : ledger.store.record entity (ledger.targetSlot entity)
      ledger.timeBase.screenOffActive (ledger.merged (parts.map Contribution.idle)) =
      .ok (ledger.store, false) := by
    unfold Store.record Store.checkWidth
    rw [merged_idle settled.widths, Measure.length_zero, if_pos rfl]
    exact if_pos zero
  have accounted : account ledger.accounted (parts.map Contribution.idle) = ledger.accounted := by
    apply account_eq_self
    intro part mem
    obtain ⟨active, listed, rfl⟩ := List.mem_map.mp mem
    exact settled.accounted active listed
  have known : entity ∈ ledger.standing := Table.mem_iff.mpr ⟨_, settled.standing⟩
  simp only [commit, recorded, accounted, Table.erase_eq_self settled.pending]
  cases target : ledger.targetSlot entity with
  | known state =>
    have found := settled.standing
    rw [nextState_of_known target] at found
    simp only [Table.insert_eq_self found]
  | unknown => simp only [Table.insertIfNew_eq_self known]

/-- What a turn commits for a family stays settled as long as nothing else touches the family. -/
theorem settled_of_commit {before turned final : Ledger} {entity : Nat} {parts : List Contribution}
    (done : before.commit entity parts = .ok turned)
    (sources : (parts.map Contribution.source).Sublist (before.isolation.family entity))
    (widths : ∀ part ∈ parts, part.gain.length = before.store.width)
    (own : ¬ before.isolation.IsChild entity)
    (agree : AgreeOn (before.isolation.family entity) turned final)
    (known : entity ∈ final.standing) : final.Settled entity parts := by
  have head : entity ∈ before.isolation.family entity := List.mem_cons_self
  have committed := committed_of_commit done
  refine ⟨?_, ?_, ?_, ?_⟩
  · obtain ⟨state, found⟩ := Table.mem_iff.mp known
    have stands : final.stateOf entity = final.nextState entity := by
      rw [← agree.states entity head, ← agree.nextState head, stateOf_commit done, if_pos rfl,
        nextState_commit done]
    rw [← stands, stateOf, found]
    rfl
  · rw [← agree.pending entity head, committed.pending, Table.get?_erase, if_pos rfl]
  · intro part mem level known
    have family : part.source ∈ before.isolation.family entity :=
      sources.mem (List.mem_map_of_mem mem)
    have distinct := (Isolation.family_nodup own).sublist sources
    rw [← agree.accounted part.source family, committed.accounted,
      get?_account_of_mem distinct mem known]
  · intro part mem
    rw [widths part mem, ← agree.width, committed.width]

end Ledger

namespace Round

/-- The second round has come as far as the first one had, and it finds the books and levels that
the first one left in the end. -/
structure Retraces (final first second : Round ScriptedMeter) : Prop where
  ledger : second.ledger = final.ledger
  meter : final.meter.Alike second.meter
  report : second.report = first.report

variable {final first second : Round ScriptedMeter}

theorem meter_commit {μ : Type} (round : Round μ) (entity : Nat) (parts : List Contribution) :
    (round.commit entity parts).meter = round.meter := by
  unfold Round.commit
  split <;> rfl

theorem meter_tickEntity {μ : Type} [Meter μ] (round : Round μ) (time entity : Nat) :
    (round.tickEntity time entity).meter = (round.ledger.gather round.meter entity time).2 := by
  unfold Round.tickEntity
  rcases round.ledger.gather round.meter entity time with ⟨gathered, after⟩
  cases gathered with
  | unavailable => rfl
  | failed phase fault => rfl
  | complete parts => exact meter_commit { round with meter := after } entity parts

theorem Retraces.tickEntity (h : Retraces final first second) {entity time : Nat} (later : Nat)
    (own : ¬ first.ledger.isolation.IsChild entity)
    (agree : AgreeOn (first.ledger.isolation.family entity) entity
      (first.tickEntity time entity) final)
    (known : entity ∈ final.ledger.standing) :
    Retraces final (first.tickEntity time entity) (second.tickEntity later entity) := by
  rcases result : first.ledger.gather first.meter entity time with ⟨gathered, after⟩
  obtain ⟨outcome, turn, -⟩ := first.turn_tickEntity time entity
  have width : second.ledger.store.width = first.ledger.store.width := by
    rw [h.ledger, ← agree.ledger.width, turn.sameScene.width]
  have isolation : second.ledger.isolation = first.ledger.isolation := by
    rw [h.ledger, ← agree.ledger.isolation, turn.sameScene.isolation]
  have meter : (first.tickEntity time entity).meter = after := by
    rw [meter_tickEntity, result]
  have shown : ∀ source ∈ first.ledger.isolation.family entity,
      second.meter.view source = after.view source := by
    intro source mem
    rw [h.meter.view, ← agree.meter.view mem, meter]
  obtain ⟨last, again, alike⟩ := Ledger.gather_again width isolation later own result shown
  have reached := h.meter.trans alike
  unfold Round.tickEntity at agree ⊢
  rw [result] at agree ⊢
  rw [again]
  cases gathered with
  | unavailable => exact ⟨h.ledger, reached, congrArg (Report.addSkipped · entity) h.report⟩
  | failed phase fault =>
    exact ⟨h.ledger, reached, congrArg (Report.addFailure · ⟨entity, phase, fault⟩) h.report⟩
  | complete parts =>
    obtain ⟨sources, widths⟩ := Ledger.gather_parts (congrArg Prod.fst result)
    obtain ⟨turned, done⟩ := Ledger.commit_isOk entity widths
    simp only [Round.commit, done] at agree ⊢
    have settled := Ledger.settled_of_commit done sources widths own agree.ledger known
    have idle := Ledger.commit_idle settled
    rw [← h.ledger] at idle
    simp only [Gathered.idle, idle]
    exact ⟨h.ledger, reached, congrArg (Report.addUpdated · entity) h.report⟩

/-- The turns that are left do not touch a family that had its turn, so each turn is retraced on
what it left itself. -/
theorem Retraces.foldl (h : Retraces final first second) {isolation : Isolation} {time : Nat}
    (later : Nat) (scene : first.ledger.isolation = isolation) {waiting : List Nat}
    (distinct : waiting.Nodup) (own : ∀ entity ∈ waiting, ¬ isolation.IsChild entity)
    (ended : waiting.foldl (Round.tickEntity time) first = final)
    (known : ∀ entity ∈ waiting, entity ∈ final.ledger.standing) :
    Retraces final final (waiting.foldl (Round.tickEntity later) second) := by
  induction waiting generalizing first second with
  | nil => exact ended ▸ h
  | cons entity waiting ih =>
    obtain ⟨fresh, distinct⟩ := List.nodup_cons.mp distinct
    obtain ⟨apart, own⟩ := List.forall_mem_cons.mp own
    obtain ⟨here, known⟩ := List.forall_mem_cons.mp known
    have kept : (first.tickEntity time entity).ledger.isolation = isolation :=
      (first.isolation_tickEntity time entity).trans scene
    have agree : AgreeOn (isolation.family entity) entity (first.tickEntity time entity) final :=
      ended ▸ (spares_tickEntity time apart).foldl kept own fresh
    have turn := h.tickEntity later (scene ▸ apart) (scene ▸ agree) here
    exact ih turn kept distinct own ended known

end Round

namespace Ledger

variable {ledger : Ledger}

/-- A tick makes nobody known. -/
theorem targets_tick (consistent : ledger.Consistent) (meter : ScriptedMeter) (time : Nat) :
    (ledger.tick meter time).ledger.targets = ledger.targets := by
  have after : (ledger.tick meter time).ledger.Consistent := consistent.update .tick meter time
  have outcome := ledger.outcome_of_targets meter time (List.append_nil ledger.targets).symm
  rw [after.targets_eq, consistent.targets_eq]
  apply List.Pairwise.eq_of_mem_iff (r := (· < ·))
  · exact Table.keys_ascending _
  · exact Table.keys_ascending _
  intro entity
  rw [Table.mem_keys, Table.mem_keys]
  constructor
  · intro known
    by_contra unknown
    have idle : entity ∉ (ledger.tick meter time).report.updated := by
      intro updated
      have target := outcome.updated.mem updated
      rw [consistent.targets_eq, Table.mem_keys] at target
      exact unknown target
    have own : ¬ ledger.isolation.IsChild entity := by
      have own := after.known entity known
      rwa [(ledger.tick_sameScene meter time).isolation] at own
    have spared := (outcome.spared entity own idle).standing
    rw [Table.not_mem_iff.mp unknown] at spared
    exact Table.not_mem_iff.mpr spared known
  · intro known
    exact mem_standing_update consistent.flat known .tick meter time

theorem tick_again (consistent : ledger.Consistent) (meter : ScriptedMeter) (time later : Nat) :
    let first := ledger.tick meter time
    let second := first.ledger.tick first.meter later
    second.ledger = first.ledger ∧ second.report = first.report := by
  intro first second
  have start : Round.Retraces first { ledger, meter }
      { ledger := first.ledger, meter := first.meter } := ⟨rfl, .refl _, rfl⟩
  have known : ∀ entity ∈ ledger.targets, entity ∈ first.ledger.standing := by
    intro entity target
    rw [consistent.targets_eq, Table.mem_keys] at target
    exact mem_standing_update consistent.flat target .tick meter time
  have retraced := start.foldl later rfl ledger.targets_nodup
    (fun entity mem => not_isChild_of_mem_targets mem) rfl known
  have again : second = ledger.targets.foldl (Round.tickEntity later)
      { ledger := first.ledger, meter := first.meter } := by
    rw [← targets_tick consistent meter time]
    rfl
  rw [again]
  exact ⟨retraced.ledger, retraced.report⟩

section CopyAll

variable {levels : Table Measure} {meter after : ScriptedMeter}

/-- Whoever gets a share was already known, or has an accepted level of its own. -/
theorem answered_of_mem_recipients {entity : Nat}
    (mem : entity ∈ recipients (ledger.assigned levels) (ledger.spoiled levels)) :
    entity ∈ ledger.standing ∨ entity ∈ ledger.accepted levels := by
  obtain ⟨⟨reading, shared⟩, -⟩ := mem_recipients_assigned.mp mem
  obtain ⟨⟨accepts, answered⟩, owner⟩ := shared_iff.mp ⟨reading, shared, rfl⟩
  unfold Isolation.ownerOf at owner
  rw [← accepts_iff]
  cases child : ledger.isolation.parentOf reading.source with
  | none =>
    rw [child] at owner
    exact .inr (owner ▸ accepts)
  | some parent =>
    rw [child] at owner
    exact owner ▸ answered parent child

variable (shown : Meter.readAll meter = (some levels, after)) (time : Nat)

theorem accepted_copyAll : (ledger.copyAll meter time).ledger.accepted levels =
    ledger.accepted levels := by
  unfold accepted
  rw [(ledger.copyAll_sameScene meter time).width]

theorem spoiled_copyAll : (ledger.copyAll meter time).ledger.spoiled levels =
    ledger.spoiled levels := by
  have scene := ledger.copyAll_sameScene meter time
  unfold spoiled rejected
  rw [scene.width, scene.isolation]

include shown

/-- The copy makes nobody known whose isolated entities had been left out. -/
theorem recipient?_copyAll (source : Nat) :
    (ledger.copyAll meter time).ledger.recipient? (ledger.accepted levels) source =
      ledger.recipient? (ledger.accepted levels) source := by
  have commits := ledger.commits_copyAll shown time
  have answered (parent : Nat) : (parent ∈ (ledger.copyAll meter time).ledger.standing ∨
      parent ∈ ledger.accepted levels) ↔
      parent ∈ ledger.standing ∨ parent ∈ ledger.accepted levels := by
    rw [Table.mem_iff, commits.standing]
    split
    next mem => simp [answered_of_mem_recipients mem]
    next => rw [← Table.mem_iff]; rfl
  unfold recipient?
  rw [(ledger.copyAll_sameScene meter time).isolation]
  simp only [answered]

theorem credit_copyAll {reading : Reading} (mem : reading ∈ (ledger.accepted levels).readings) :
    (ledger.copyAll meter time).ledger.credit
        (ledger.copyAll meter time).ledger.bulkBaselines reading =
      (ledger.credit ledger.bulkBaselines reading).idle := by
  obtain ⟨read, width⟩ := mem_accepted_readings.mp mem
  have last : (ledger.copyAll meter time).ledger.bulkBaselines.last? reading.source =
      some reading.level := by
    rw [ledger.bulkBaselines_copyAll shown]
    exact ledger.last?_rebase time read width
  have gain : (ledger.copyAll meter time).ledger.bulkBaselines.gain reading.source reading.level =
      .zero reading.level.length := by
    unfold Baselines.gain
    rw [last]
    exact Measure.since_self reading.level
  have length := ledger.length_credit_gain ledger.bulkBaselines reading
  rw [Contribution.idle, length, credit, gain, unaccounted_zero]
  rfl

theorem assigned_copyAll : (ledger.copyAll meter time).ledger.assigned levels =
    (ledger.assigned levels).map fun part => (part.1, part.2.idle) := by
  rw [assigned_eq, assigned_eq, List.map_filterMap, accepted_copyAll]
  apply List.filterMap_congr
  intro reading mem
  rw [recipient?_copyAll shown, credit_copyAll shown time mem, Option.map_map]
  rfl

theorem settled_copyAll {entity : Nat}
    (mem : entity ∈ recipients (ledger.assigned levels) (ledger.spoiled levels)) :
    (ledger.copyAll meter time).ledger.Settled entity
      (shareOf (ledger.assigned levels) entity) := by
  have commits := ledger.commits_copyAll shown time
  have scene := ledger.copyAll_sameScene meter time
  have updated : entity ∈ (ledger.copyAll meter time).report.updated := by
    rwa [ledger.report_copyAll shown]
  rw [shareOf_assigned]
  refine ⟨?_, ?_, ?_, ?_⟩
  · rw [commits.standing, if_pos mem, scene.nextState]
    rfl
  · rw [commits.pending, if_pos mem]
  · intro part listed level known
    obtain ⟨reading, shared, rfl⟩ := List.mem_map.mp listed
    obtain ⟨live, owner⟩ := shared_iff.mp ⟨reading, shared, rfl⟩
    have found := (Table.mem_readings.mp (mem_sharedReadings.mp shared).1.1).2
    change (ledger.copyAll meter time).ledger.accounted.get? reading.source = some level
    rw [get?_accounted_copyAll shown, if_pos ⟨live, owner ▸ updated⟩, found]
    exact known
  · intro part listed
    rw [← shareOf_assigned] at listed
    rw [length_of_mem_share listed, scene.width]

theorem last?_rebase_copyAll (later source : Nat) :
    ((ledger.copyAll meter time).ledger.rebase levels later).bulkBaselines.last? source =
      (ledger.copyAll meter time).ledger.bulkBaselines.last? source := by
  unfold Baselines.last?
  rw [get?_rebase, accepted_copyAll, ledger.bulkBaselines_copyAll shown, get?_rebase]
  cases (ledger.accepted levels).get? source <;> rfl

end CopyAll

end Ledger

/-- Commits that each change nothing change nothing together. -/
theorem Round.foldl_idle {μ : Type} {share : Nat → List Contribution} {entities : List Nat}
    {round : Round μ} (idle : ∀ entity ∈ entities,
      round.ledger.commit entity (share entity) = .ok round.ledger) :
    entities.foldl (fun round entity => round.commit entity (share entity)) round =
      { round with
        report := { round.report with updated := round.report.updated ++ entities } } := by
  induction entities generalizing round with
  | nil => simp
  | cons entity entities ih =>
    obtain ⟨first, rest⟩ := List.forall_mem_cons.mp idle
    have step : round.commit entity (share entity) =
        { round with report := round.report.addUpdated entity } := by
      unfold Round.commit
      rw [first]
    have still : ∀ other ∈ entities, (round.commit entity (share entity)).ledger.commit other
        (share other) = .ok (round.commit entity (share entity)).ledger := by
      rw [step]
      exact rest
    rw [List.foldl_cons, ih still, step]
    simp [Report.addUpdated]

namespace Ledger

variable {ledger : Ledger}

theorem recipients_idle (parts : List (Nat × Contribution)) (spoiled : KeySet) :
    recipients (parts.map fun part => (part.1, part.2.idle)) spoiled =
      recipients parts spoiled := by
  unfold recipients
  rw [List.map_map]
  rfl

theorem shareOf_idle (parts : List (Nat × Contribution)) (entity : Nat) :
    shareOf (parts.map fun part => (part.1, part.2.idle)) entity =
      (shareOf parts entity).map Contribution.idle := by
  unfold shareOf
  rw [List.filter_map, List.map_map, List.map_map]
  rfl

/-- The same levels are copied again to the same report, and to the same books but for the times of
the baselines. -/
theorem copyAll_again (ledger : Ledger) {levels : Table Measure} {meter : ScriptedMeter}
    (shown : meter.bulk = some levels) (time later : Nat) :
    let first := ledger.copyAll meter time
    let second := first.ledger.copyAll first.meter later
    second.ledger = first.ledger.rebase levels later ∧ second.report = first.report := by
  intro first second
  have read : Meter.readAll meter = (some levels, meter) := congrArg (·, meter) shown
  have same : first.meter = meter := ledger.meter_copyAll read time
  let start : Round ScriptedMeter := {
    ledger := first.ledger.rebase levels later
    meter
    report := { failures := ledger.widthFailures levels } }
  have failures : first.ledger.widthFailures levels = ledger.widthFailures levels := by
    unfold widthFailures rejected
    rw [(ledger.copyAll_sameScene meter time).width]
  have idle : ∀ entity ∈ recipients (ledger.assigned levels) (ledger.spoiled levels),
      start.ledger.commit entity ((shareOf (ledger.assigned levels) entity).map
        Contribution.idle) = .ok start.ledger := by
    intro entity mem
    have settled := settled_copyAll read time mem
    have rebased : start.ledger.Settled entity (shareOf (ledger.assigned levels) entity) :=
      ⟨settled.standing, settled.pending, settled.accounted, settled.widths⟩
    exact commit_idle rebased
  have again : second = (recipients (ledger.assigned levels) (ledger.spoiled levels)).foldl
      (fun round entity => round.commit entity
        ((shareOf (ledger.assigned levels) entity).map Contribution.idle)) start := by
    have assigned : first.ledger.assigned levels =
        (ledger.assigned levels).map fun part => (part.1, part.2.idle) :=
      assigned_copyAll read time
    have spoiled : first.ledger.spoiled levels = ledger.spoiled levels := spoiled_copyAll time
    change first.ledger.copyAll first.meter later = _
    rw [same, copyAll, read]
    simp only [assigned, spoiled, failures, recipients_idle, shareOf_idle, start]
  rw [again, Round.foldl_idle idle]
  exact ⟨rfl, (ledger.report_copyAll read time).symm⟩

/-- An update that is repeated before any sample has changed repeats the report and leaves the
ledger as it was, except that a copy of all levels notes the later time in its baselines. This holds
whatever is unavailable, has fallen, has a wrong width, or belongs to nobody known. -/
theorem update_again (reachable : ledger.Reachable) (path : Path) (meter : ScriptedMeter)
    (time later : Nat) :
    let first := ledger.update path meter time
    let second := first.ledger.update path first.meter later
    second.report = first.report ∧
      (path = .tick → second.ledger = first.ledger) ∧
      second.ledger.withBulk first.ledger.bulkBaselines = first.ledger ∧
      ∀ source, second.ledger.bulkBaselines.last? source =
        first.ledger.bulkBaselines.last? source := by
  intro first second
  cases path with
  | tick =>
    obtain ⟨books, report⟩ := tick_again reachable.consistent meter time later
    have same : second.ledger = first.ledger := books
    exact ⟨report, fun _ => same, by rw [same]; rfl, fun source => by rw [same]⟩
  | copyAll =>
    cases shown : meter.bulk with
    | none =>
      have read : Meter.readAll meter = (none, meter) := congrArg (·, meter) shown
      have result : first = { ledger, meter, report := { bulkUnavailable := true } } := by
        change ledger.copyAll meter time = _
        rw [copyAll, read]
      have again : second = first := by
        change first.ledger.copyAll first.meter later = first
        rw [result, copyAll, read]
      rw [again]
      exact ⟨rfl, fun _ => rfl, rfl, fun _ => rfl⟩
    | some levels =>
      obtain ⟨books, report⟩ := ledger.copyAll_again shown time later
      have same : second.ledger = first.ledger.rebase levels later := books
      refine ⟨report, by simp, by rw [same]; rfl, fun source => ?_⟩
      have read : Meter.readAll meter = (some levels, meter) := congrArg (·, meter) shown
      rw [same]
      exact last?_rebase_copyAll read time later source

/-- A child with a wrong level, an entity that shows nothing, a counter that has fallen, a child of
nobody known, and a newcomer. -/
def troubled : List (Call ScriptedMeter) :=
  [.notice (.classify 1 .top), .notice (.isolate 1 11), .notice (.classify 2 .cached),
    .notice (.isolate 2 21), .notice (.classify 3 .foreground), .notice (.classify 7 .heavyWeight),
    .notice (.isolate 5 51), .meter { levels := .ofList [(2, [4, 4]), (3, [9, 9])] },
    .update .tick 10, .notice (.classify 3 .background), .notice (.timeBase true true 15),
    .meter {
      levels := .ofList [(1, [6, 6]), (11, [9]), (2, [5, 5]), (21, [1, 0]), (3, [2, 10])]
      bulk := some (.ofList [(1, [6, 6]), (11, [9]), (2, [7, 5]), (21, [2, 0]), (3, [1, 11]),
        (51, [3, 3]), (8, [1, 1])])
      baselines := ⟨.ofList [(2, ⟨[4, 4], 10⟩), (3, ⟨[9, 9], 10⟩)]⟩ }]

theorem update_again_troubled :
    let session := Session.blank.run troubled
    session.ledger.Reachable ∧ ∀ path,
      let first := session.ledger.update path session.meter 20
      let second := first.ledger.update path first.meter 30
      first.ledger ≠ session.ledger ∧ first.report.failed ≠ [] ∧
        second.report = first.report ∧
        (path = .tick → second.ledger = first.ledger) ∧
        second.ledger.withBulk first.ledger.bulkBaselines = first.ledger ∧
        ∀ source, second.ledger.bulkBaselines.last? source =
          first.ledger.bulkBaselines.last? source := by
  intro session
  have new : Ledger.new { vectorLen := 2 } = .ok Session.blank.ledger := rfl
  have reachable : session.ledger.Reachable :=
    ⟨ScriptedMeter, _, _, Session.blank, troubled, new, rfl⟩
  refine ⟨reachable, fun path => ⟨?_, ?_, update_again reachable path session.meter 20 30⟩⟩
  · cases path <;> decide +kernel
  · cases path <;> decide +kernel

end Ledger

end UsageLedger
