import UsageLedger.Proofs.OneReading

/-!
Rejected readings. A tick moves the meter's baseline before it looks at the width of a reading, so a
reading that it rejects is not without effect: it hides from then on what lies below it. Nothing of
this shows in the ledger at once.
-/

namespace UsageLedger

/-- What can be set on a scripted meter. -/
inductive Sampling where
  | level (source : Nat) (level : Measure)
  | unavailable (source : Nat)
  | bulkLevel (source : Nat) (level : Measure)
  | clearBulk
deriving DecidableEq, Repr

/-- A sample that is set, or an update. -/
inductive Work where
  | sample (sampling : Sampling)
  | update (path : Path) (time : Nat)
deriving DecidableEq, Repr

def ScriptedMeter.take (meter : ScriptedMeter) : Sampling → ScriptedMeter
  | .level source level => meter.setLevel source level
  | .unavailable source => meter.setUnavailable source
  | .bulkLevel source level => meter.setBulkLevel source level
  | .clearBulk => meter.clearBulk

namespace Round

def work (round : Round ScriptedMeter) : Work → Round ScriptedMeter
  | .sample sampling => { round with meter := round.meter.take sampling }
  | .update path time => round.ledger.update path round.meter time

/-- Does all the work in turn. -/
def workOff (round : Round ScriptedMeter) (works : List Work) : Round ScriptedMeter :=
  works.foldl work round

end Round

namespace ScriptedMeter

/-- The meters agree on everything but the entity. -/
structure AgreeBut (entity : Nat) (first second : ScriptedMeter) : Prop where
  bulk : first.bulk = second.bulk
  levels : ∀ source ≠ entity, first.levels.get? source = second.levels.get? source
  baselines : ∀ source ≠ entity,
    first.baselines.samples.get? source = second.baselines.samples.get? source

variable {entity source : Nat} {first second : ScriptedMeter}

theorem AgreeBut.agreeOn (h : AgreeBut entity first second) {sources : List Nat}
    (absent : entity ∉ sources) : AgreeOn sources first second := by
  have ne {source : Nat} (mem : source ∈ sources) : source ≠ entity :=
    fun same => absent (same ▸ mem)
  exact ⟨fun source mem => h.levels source (ne mem), fun source _ => by rw [h.bulk],
    fun source mem => h.baselines source (ne mem)⟩

theorem AgreeBut.readGain (h : AgreeBut entity first second) (source time : Nat) :
    AgreeBut entity (Meter.readGain first source time).2
      (Meter.readGain second source time).2 := by
  obtain ⟨levels, bulk, samples⟩ := first.readGain_frame source time
  obtain ⟨levels', bulk', samples'⟩ := second.readGain_frame source time
  refine ⟨by rw [bulk, bulk', h.bulk], ?_, ?_⟩
  · intro other ne
    rw [levels, levels', h.levels other ne]
  · intro other ne
    rw [samples, samples', h.baselines other ne]
    by_cases same : other = source
    · rw [if_pos same, if_pos same, ← same, h.levels other ne]
    · rw [if_neg same, if_neg same]

end ScriptedMeter

/-- A relation of what two meters show of one source and count its gain from. -/
abbrev Showing := Option Measure × Option Measure → Option Measure × Option Measure → Prop

/-- The meters agree but for the entity, and of this they show what is related. -/
structure ScriptedMeter.Paired (Own : Showing) (entity : Nat) (first second : ScriptedMeter) :
    Prop where
  others : AgreeBut entity first second
  own : Own (first.view entity) (second.view entity)

theorem ScriptedMeter.matches_paired (Own : Showing) {entity : Nat} {sources : List Nat}
    (absent : entity ∉ sources) (time : Nat) : Matches (Paired Own entity) sources time time where
  gain paired _ mem := (matches_agreeOn sources time).gain (paired.others.agreeOn absent) mem
  last paired _ mem := (matches_agreeOn sources time).last (paired.others.agreeOn absent) mem
  related {meter other} paired source mem := by
    have ne : source ≠ entity := fun same => absent (same ▸ mem)
    refine ⟨paired.others.readGain source time, ?_⟩
    rw [meter.view_readGain_of_ne ne, other.view_readGain_of_ne ne]
    exact paired.own

/-- Reading the entity itself with both meters. -/
theorem ScriptedMeter.Paired.readGain {Own : Showing} {entity : Nat} {first second : ScriptedMeter}
    (h : Paired Own entity first second) (time : Nat)
    (own : Own (first.levels.get? entity, (first.levels.get? entity).or (first.view entity).2)
      (second.levels.get? entity, (second.levels.get? entity).or (second.view entity).2)) :
    Paired Own entity (Meter.readGain first entity time).2
      (Meter.readGain second entity time).2 := by
  refine ⟨h.others.readGain entity time, ?_⟩
  rw [first.view_readGain_self, second.view_readGain_self]
  exact own

/-- One ledger with two meters that are paired. -/
structure Round.Twins (Own : Showing) (entity : Nat) (first second : Round ScriptedMeter) :
    Prop where
  ledger : first.ledger = second.ledger
  meters : ScriptedMeter.Paired Own entity first.meter second.meter

namespace Round.Twins

variable {Own : Showing} {entity other time : Nat} {first second : Round ScriptedMeter}

theorem commit (h : Twins Own entity first second) (other : Nat) (parts : List Contribution) :
    Twins Own entity (first.commit other parts) (second.commit other parts) := by
  unfold Round.commit
  rw [h.ledger]
  cases second.ledger.commit other parts with
  | ok after => exact ⟨rfl, h.meters⟩
  | error fault => exact ⟨rfl, h.meters⟩

/-- If reading a family comes to the same, its turn keeps twins. -/
theorem tickEntity (h : Twins Own entity first second) {gathered : Gathered}
    {after after' : ScriptedMeter}
    (result : first.ledger.gather first.meter other time = (gathered, after))
    (result' : second.ledger.gather second.meter other time = (gathered, after'))
    (meters : ScriptedMeter.Paired Own entity after after') :
    Twins Own entity (first.tickEntity time other) (second.tickEntity time other) := by
  unfold Round.tickEntity
  rw [result, result']
  cases gathered with
  | unavailable => exact ⟨h.ledger, meters⟩
  | failed phase fault => exact ⟨h.ledger, meters⟩
  | complete parts =>
    have moved : Twins Own entity { first with meter := after } { second with meter := after' } :=
      ⟨h.ledger, meters⟩
    exact moved.commit other parts

theorem tickEntity_of_ne (h : Twins Own entity first second)
    (apart : entity ∉ first.ledger.isolation.family other) :
    Twins Own entity (first.tickEntity time other) (second.tickEntity time other) := by
  obtain ⟨gathered, after, after', result, result', meters⟩ :=
    Ledger.gather_congr (congrArg (fun ledger => ledger.store.width) h.ledger)
      (congrArg Ledger.isolation h.ledger) (ScriptedMeter.matches_paired Own apart time)
      (fun _ _ => by rw [h.ledger]) h.meters
  exact h.tickEntity result result' meters

/-- A tick keeps twins if the turn of the one entity does. -/
theorem tick (h : Twins Own entity first second) (own : ¬ first.ledger.isolation.IsChild entity)
    (time : Nat) (acts : ∀ round round' : Round ScriptedMeter,
      round.ledger.store.width = first.ledger.store.width →
        ¬ round.ledger.isolation.IsChild entity → Twins Own entity round round' →
          Twins Own entity (round.tickEntity time entity) (round'.tickEntity time entity)) :
    Twins Own entity (first.ledger.tick first.meter time)
      (second.ledger.tick second.meter time) := by
  have twins : first.ledger.SameScene (first.ledger.tick first.meter time).ledger ∧
      Twins Own entity (first.ledger.tick first.meter time)
        (second.ledger.tick second.meter time) := by
    unfold Ledger.tick
    rw [← h.ledger]
    apply List.foldl_rel (r := fun round round' : Round ScriptedMeter =>
      first.ledger.SameScene round.ledger ∧ Twins Own entity round round')
    · exact ⟨.refl first.ledger, rfl, h.meters⟩
    · rintro other target round round' ⟨scene, twins⟩
      obtain ⟨outcome, turn, -⟩ := round.turn_tickEntity time other
      refine ⟨scene.trans turn.sameScene, ?_⟩
      have still : ¬ round.ledger.isolation.IsChild entity := by rw [scene.isolation]; exact own
      by_cases same : other = entity
      · subst same
        exact acts round round' scene.width still twins
      · have own' : ¬ round.ledger.isolation.IsChild other := by
          rw [scene.isolation]
          exact Ledger.not_isChild_of_mem_targets target
        have head : entity ∈ round.ledger.isolation.family entity := List.mem_cons_self
        exact twins.tickEntity_of_ne
          (Isolation.not_mem_family_of_ne own' still (Ne.symm same) head)
  exact twins.2

theorem copyAll (h : Twins Own entity first second) (time : Nat) :
    Twins Own entity (first.ledger.copyAll first.meter time)
      (second.ledger.copyAll second.meter time) := by
  have read : Meter.readAll first.meter = (first.meter.bulk, first.meter) := rfl
  have read' : Meter.readAll second.meter = (first.meter.bulk, second.meter) :=
    Prod.ext h.meters.others.bulk.symm rfl
  unfold Ledger.copyAll
  rw [read, read', ← h.ledger]
  cases first.meter.bulk with
  | none => exact ⟨rfl, h.meters⟩
  | some levels =>
    apply List.foldl_rel (r := Twins Own entity)
    · exact ⟨rfl, h.meters⟩
    · exact fun other _ round round' twins => twins.commit other _

end Round.Twins

namespace Round.Twins

variable {entity time width : Nat} {level : Measure} {first second : Round ScriptedMeter}

/-- Only the first meter shows a level. -/
def Rejects (level : Measure) : Showing := fun shown shown' =>
  shown.1 = some level ∧ shown'.1 = none

/-- Right levels gain the same from both baselines, and at most the first meter shows a level that
the other does not show, which then is a wrong one and changes nothing of this. -/
def Even (width : Nat) : Showing := fun shown shown' =>
  (∀ i < width, (shown.2.getD []).amountAt i = (shown'.2.getD []).amountAt i) ∧
    (shown.1 = shown'.1 ∨ ∃ level, Rejects level shown shown' ∧ level.length ≠ width ∧
      ∀ i < width, level.amountAt i = (shown'.2.getD []).amountAt i)

/-- A rejected reading and one that is unavailable both leave the ledger as it is. -/
theorem tickEntity_rejects {Own : Showing} (h : Twins Own entity first second)
    (shows : Rejects level (first.meter.view entity) (second.meter.view entity))
    (wrong : level.length ≠ first.ledger.store.width)
    (own : Own (some level, some level) (none, (second.meter.view entity).2)) :
    Twins Own entity (first.tickEntity time entity) (second.tickEntity time entity) := by
  have meters : ScriptedMeter.Paired Own entity (Meter.readGain first.meter entity time).2
      (Meter.readGain second.meter entity time).2 := by
    apply h.meters.readGain
    have shown : first.meter.levels.get? entity = some level := shows.1
    have shown' : second.meter.levels.get? entity = none := shows.2
    rw [shown, shown']
    exact own
  unfold Round.tickEntity
  rw [Ledger.gather_rejected time shows.1 wrong, Ledger.gather_unread _ time shows.2]
  exact ⟨h.ledger, meters⟩

theorem credit_eq_of_even {meter other : ScriptedMeter} {ledger : Ledger}
    (even : Even width (meter.view entity) (other.view entity)) (right : level.length = width) :
    ledger.credit meter.baselines ⟨.tick, entity, level⟩ =
      ledger.credit other.baselines ⟨.tick, entity, level⟩ := by
  have gain : meter.baselines.gain entity level = other.baselines.gain entity level := by
    unfold Baselines.gain
    apply Measure.ext_amountAt
    · simp
    · intro i
      rw [Measure.amountAt_since, Measure.amountAt_since]
      by_cases bound : i < width
      · have base := even.1 i bound
        simp only [ScriptedMeter.view] at base
        omega
      · rw [Measure.amountAt_eq_zero (by omega), Nat.zero_sub, Nat.zero_sub]
  unfold Ledger.credit
  rw [gain]

/-- From even baselines a reading of both meters comes to the same. -/
theorem gather_even (h : Twins (Even width) entity first second)
    (ofWidth : first.ledger.store.width = width)
    (own : ¬ first.ledger.isolation.IsChild entity)
    (shown : first.meter.levels.get? entity = second.meter.levels.get? entity) :
    ∃ gathered after after', first.ledger.gather first.meter entity time = (gathered, after) ∧
      second.ledger.gather second.meter entity time = (gathered, after') ∧
      ScriptedMeter.Paired (Even width) entity after after' := by
  have moved : ScriptedMeter.Paired (Even width) entity (Meter.readGain first.meter entity time).2
      (Meter.readGain second.meter entity time).2 := by
    apply h.meters.readGain
    rw [shown]
    cases second.meter.levels.get? entity with
    | none => exact ⟨h.meters.own.1, .inl rfl⟩
    | some level => exact ⟨fun _ _ => rfl, .inl rfl⟩
  cases read : second.meter.levels.get? entity with
  | none =>
    exact ⟨_, _, _, Ledger.gather_unread _ time (shown.trans read),
      Ledger.gather_unread _ time read, moved⟩
  | some level =>
    by_cases right : level.length = width
    · have right' : level.length = first.ledger.store.width := by rw [ofWidth]; exact right
      have absent : entity ∉ first.ledger.isolation.childrenOf entity :=
        (List.nodup_cons.mp (Isolation.family_nodup own)).1
      have part : first.ledger.credit first.meter.baselines ⟨.tick, entity, level⟩ =
          second.ledger.credit second.meter.baselines ⟨.tick, entity, level⟩ := by
        rw [h.ledger]
        exact credit_eq_of_even h.meters.own right
      obtain ⟨parts, after, after', result, result', meters⟩ :=
        Ledger.gatherChildren_congr (congrArg (fun ledger => ledger.store.width) h.ledger)
          (ScriptedMeter.matches_paired (Even width) absent time) (fun _ mem => mem)
          (fun _ _ => by rw [h.ledger]) moved
      rw [Ledger.gather_accepted time (shown.trans read) right',
        Ledger.gather_accepted time read (h.ledger ▸ right'), part,
        ← congrArg Ledger.isolation h.ledger, result, result']
      cases parts with
      | error fault => exact ⟨_, _, _, rfl, rfl, meters⟩
      | ok parts => exact ⟨_, _, _, rfl, rfl, meters⟩
    · have wrong : level.length ≠ first.ledger.store.width := by rw [ofWidth]; exact right
      have wrong' : level.length ≠ second.ledger.store.width := by rw [← h.ledger]; exact wrong
      rw [Ledger.gather_rejected time (shown.trans read) wrong,
        Ledger.gather_rejected time read wrong', h.ledger]
      exact ⟨_, _, _, rfl, rfl, moved⟩

theorem tickEntity_even (h : Twins (Even width) entity first second)
    (ofWidth : first.ledger.store.width = width)
    (own : ¬ first.ledger.isolation.IsChild entity) :
    Twins (Even width) entity (first.tickEntity time entity)
      (second.tickEntity time entity) := by
  rcases h.meters.own.2 with shown | ⟨level, shows, wrong, low⟩
  · obtain ⟨gathered, after, after', result, result', meters⟩ := h.gather_even ofWidth own shown
    exact h.tickEntity result result' meters
  · apply h.tickEntity_rejects shows (by rw [ofWidth]; exact wrong)
    exact ⟨low, .inr ⟨level, ⟨rfl, rfl⟩, wrong, low⟩⟩

theorem tick_even (h : Twins (Even width) entity first second)
    (ofWidth : first.ledger.store.width = width)
    (own : ¬ first.ledger.isolation.IsChild entity) (time : Nat) :
    Twins (Even width) entity (first.ledger.tick first.meter time)
      (second.ledger.tick second.meter time) :=
  h.tick own time fun _ _ same own twins => twins.tickEntity_even (same.trans ofWidth) own

end Round.Twins

namespace ScriptedMeter

variable {entity width : Nat} {first second : ScriptedMeter}

/-- The same sample leaves nothing that only the first meter shows of its source. -/
theorem Paired.take (h : Paired (Round.Twins.Even width) entity first second)
    (sampling : Sampling) :
    Paired (Round.Twins.Even width) entity (first.take sampling) (second.take sampling) := by
  obtain ⟨⟨bulk, levels, baselines⟩, base, shows⟩ := h
  cases sampling with
  | level source level =>
    refine ⟨⟨bulk, ?_, baselines⟩, base, ?_⟩
    · intro other ne
      simp only [ScriptedMeter.take, setLevel, Table.get?_insert, levels other ne]
    · simp only [ScriptedMeter.take, setLevel, view, Table.get?_insert]
      by_cases same : entity = source
      · rw [if_pos same, if_pos same]
        exact .inl rfl
      · rw [if_neg same, if_neg same]
        exact shows
  | unavailable source =>
    refine ⟨⟨bulk, ?_, baselines⟩, base, ?_⟩
    · intro other ne
      simp only [ScriptedMeter.take, setUnavailable, Table.get?_erase, levels other ne]
    · simp only [ScriptedMeter.take, setUnavailable, view, Table.get?_erase]
      by_cases same : entity = source
      · rw [if_pos same, if_pos same]
        exact .inl rfl
      · rw [if_neg same, if_neg same]
        exact shows
  | bulkLevel source level =>
    refine ⟨⟨?_, levels, baselines⟩, base, shows⟩
    simp only [ScriptedMeter.take, setBulkLevel, bulk]
  | clearBulk => exact ⟨⟨rfl, levels, baselines⟩, base, shows⟩

end ScriptedMeter

namespace Round

variable {entity width : Nat} {first second : Round ScriptedMeter}

theorem sameScene_work (round : Round ScriptedMeter) (work : Work) :
    round.ledger.SameScene (round.work work).ledger := by
  cases work with
  | sample sampling => exact .refl round.ledger
  | update path time => exact round.ledger.update_sameScene path round.meter time

theorem Twins.work (h : Twins (Twins.Even width) entity first second)
    (ofWidth : first.ledger.store.width = width)
    (own : ¬ first.ledger.isolation.IsChild entity) (work : Work) :
    Twins (Twins.Even width) entity (first.work work) (second.work work) := by
  cases work with
  | sample sampling => exact ⟨h.ledger, h.meters.take sampling⟩
  | update path time =>
    cases path with
    | tick => exact h.tick_even ofWidth own time
    | copyAll => exact h.copyAll time

theorem Twins.workOff (h : Twins (Twins.Even width) entity first second)
    (ofWidth : first.ledger.store.width = width)
    (own : ¬ first.ledger.isolation.IsChild entity) (works : List Work) :
    Twins (Twins.Even width) entity (first.workOff works) (second.workOff works) := by
  induction works generalizing first second with
  | nil => exact h
  | cons work works ih =>
    have scene := first.sameScene_work work
    exact ih (h.work ofWidth own work) (scene.width.trans ofWidth)
      (by rw [scene.isolation]; exact own)

end Round

namespace Round

/-- Samples and updates by which the usage of an entity shows what its gains are counted from. -/
def probe (ledger : Ledger) (entity : Nat) (level : Measure) (time : Nat) : List Work :=
  [.sample .clearBulk, .sample (.bulkLevel entity (.zero ledger.store.width)),
    .update .copyAll time] ++
  (ledger.isolation.childrenOf entity).map (fun child => .sample (.unavailable child)) ++
  [.sample (.level entity level), .update .tick time]

theorem workOff_unavailable (round : Round ScriptedMeter) (children : List Nat) :
    let after := round.workOff (children.map fun child => .sample (.unavailable child))
    after.ledger = round.ledger ∧ after.meter.baselines = round.meter.baselines ∧
      ∀ source, after.meter.levels.get? source =
        if source ∈ children then none else round.meter.levels.get? source := by
  induction children generalizing round with
  | nil => simp [workOff]
  | cons child rest ih =>
    obtain ⟨ledger, baselines, levels⟩ := ih (round.work (.sample (.unavailable child)))
    refine ⟨ledger, baselines, fun source => ?_⟩
    refine (levels source).trans ?_
    simp only [work, ScriptedMeter.take, ScriptedMeter.setUnavailable, Table.get?_erase,
      List.mem_cons]
    by_cases later : source ∈ rest
    · simp [later]
    · simp [later]

theorem usageAt_probe {round : Round ScriptedMeter} (consistent : round.ledger.Consistent)
    {entity : Nat} (known : entity ∈ round.ledger.standing) {level : Measure}
    (right : level.length = round.ledger.store.width) (time i : Nat) :
    (round.workOff (probe round.ledger entity level time)).ledger.store.usageAt entity i =
      round.ledger.store.usageAt entity i +
        (level.amountAt i - round.meter.baselines.levelAt entity i) := by
  let meter : ScriptedMeter := { round.meter with
    bulk := some (Table.insert ∅ entity (.zero round.ledger.store.width)) }
  let copied := round.ledger.copyAll meter time
  obtain ⟨usage, accounted, kept⟩ : copied.ledger.store.usageAt entity i =
      round.ledger.store.usageAt entity i ∧ copied.ledger.accountedAt entity i = 0 ∧
        copied.meter = meter := by
    have width : (Measure.zero round.ledger.store.width).length = round.ledger.store.width :=
      List.length_replicate
    have shown : Meter.readAll meter =
        (some (Table.insert ∅ entity (.zero round.ledger.store.width)), meter) := rfl
    obtain ⟨usage, accounted, kept⟩ :=
      Ledger.copyAll_single consistent known List.mem_cons_self width shown time i
    rw [Measure.amountAt_zero] at usage accounted
    rw [Nat.zero_sub, Nat.add_zero] at usage
    exact ⟨usage, accounted, kept⟩
  have scene := round.ledger.copyAll_sameScene meter time
  let children := round.ledger.isolation.childrenOf entity
  let quiet := copied.workOff (children.map fun child => .sample (.unavailable child))
  obtain ⟨ledger, baselines, levels⟩ := copied.workOff_unavailable children
  have final : round.workOff (probe round.ledger entity level time) =
      copied.ledger.tick (quiet.meter.setLevel entity level) time := by
    unfold probe workOff
    rw [List.foldl_append, List.foldl_append, ← ledger]
    rfl
  have own := (List.nodup_cons.mp (Isolation.family_nodup (consistent.known entity known))).1
  have right' : level.length = copied.ledger.store.width := right.trans scene.width.symm
  have alone : ∀ child ∈ copied.ledger.isolation.childrenOf entity,
      (quiet.meter.setLevel entity level).levels.get? child = none := by
    intro child mem
    rw [scene.isolation] at mem
    have ne : child ≠ entity := fun same => own (same ▸ mem)
    rw [ScriptedMeter.setLevel, Table.get?_insert_of_ne _ _ ne]
    exact (levels child).trans (if_pos mem)
  have consistent' : copied.ledger.Consistent := consistent.update .copyAll meter time
  have known' : entity ∈ copied.ledger.standing :=
    Ledger.mem_standing_update consistent.flat known .copyAll meter time
  have base : (quiet.meter.setLevel entity level).baselines.levelAt entity i =
      round.meter.baselines.levelAt entity i := by
    have same : (quiet.meter.setLevel entity level).baselines = round.meter.baselines := by
      have moved := congrArg ScriptedMeter.baselines kept
      exact baselines.trans moved
    rw [same]
  rw [final, Ledger.tick_alone consistent' known' (Table.get?_insert_self _ _ _) right' alone,
    base, accounted, Nat.max_zero, usage]

end Round

namespace Ledger

variable {ledger : Ledger} {entity : Nat} {level : Measure}

/-- The two ledgers have the same cells for the entity, and the same state and pending state. -/
structure SameFor (entity : Nat) (first second : Ledger) : Prop where
  cells : ∀ row column,
    first.store.cell? entity row column = second.store.cell? entity row column
  standing : first.standing.get? entity = second.standing.get? entity
  pending : first.pending.get? entity = second.pending.get? entity

/-- A meter that shows a level of the entity, and the same meter without a reading of it. -/
theorem paired_unavailable {Own : Showing} (meter : ScriptedMeter)
    (own : Own (some level, meter.baselines.last? entity) (none, meter.baselines.last? entity)) :
    ScriptedMeter.Paired Own entity (meter.setLevel entity level)
      (meter.setUnavailable entity) := by
  refine ⟨⟨rfl, fun source ne => ?_, fun source _ => rfl⟩, ?_⟩
  · rw [ScriptedMeter.setLevel, ScriptedMeter.setUnavailable, Table.get?_insert_of_ne _ _ ne,
      Table.get?_erase, if_neg ne]
  · simp only [ScriptedMeter.view, ScriptedMeter.setLevel, ScriptedMeter.setUnavailable,
      Table.get?_insert_self, Table.get?_erase, if_true]
    exact own

theorem ledger_tick_rejected (own : ¬ ledger.isolation.IsChild entity)
    (wrong : level.length ≠ ledger.store.width) (meter : ScriptedMeter) (time : Nat) :
    (ledger.tick (meter.setLevel entity level) time).ledger =
      (ledger.tick (meter.setUnavailable entity) time).ledger := by
  let first : Round ScriptedMeter := { ledger, meter := meter.setLevel entity level }
  let second : Round ScriptedMeter := { ledger, meter := meter.setUnavailable entity }
  have twins : first.Twins (Round.Twins.Rejects level) entity second :=
    ⟨rfl, paired_unavailable meter ⟨rfl, rfl⟩⟩
  have ticked := twins.tick own time fun round round' width _ twins =>
    twins.tickEntity_rejects twins.meters.own (by rw [width]; exact wrong) ⟨rfl, rfl⟩
  exact ticked.ledger

/-- A rejected reading that shows no more than the baseline has no effect at all. -/
theorem ledger_workOff_rejected (own : ¬ ledger.isolation.IsChild entity)
    (wrong : level.length ≠ ledger.store.width) {meter : ScriptedMeter}
    (low : ∀ i < ledger.store.width, level.amountAt i = meter.baselines.levelAt entity i)
    (time : Nat) (works : List Work) :
    ((ledger.tick (meter.setLevel entity level) time).workOff works).ledger =
      ((ledger.tick (meter.setUnavailable entity) time).workOff works).ledger := by
  let first : Round ScriptedMeter := { ledger, meter := meter.setLevel entity level }
  let second : Round ScriptedMeter := { ledger, meter := meter.setUnavailable entity }
  have twins : first.Twins (Round.Twins.Even ledger.store.width) entity second :=
    ⟨rfl, paired_unavailable meter
      ⟨fun _ _ => rfl, .inr ⟨level, ⟨rfl, rfl⟩, wrong, low⟩⟩⟩
  have ticked := twins.tick_even rfl own time
  have scene := ledger.tick_sameScene (meter.setLevel entity level) time
  exact (ticked.workOff scene.width (by rw [scene.isolation]; exact own) works).ledger

/-- Once a reading was rejected, gains are counted from it. -/
theorem levelAt_tick_rejected (consistent : ledger.Consistent) (known : entity ∈ ledger.standing)
    (wrong : level.length ≠ ledger.store.width) (meter : ScriptedMeter) (time i : Nat) :
    (ledger.tick (meter.setLevel entity level) time).meter.baselines.levelAt entity i =
      level.amountAt i := by
  have shown : (meter.setLevel entity level).levels.get? entity = some level :=
    Table.get?_insert_self _ _ _
  have unaccepted : ∀ other, (meter.setLevel entity level).levels.get? entity = some other →
      other.length ≠ ledger.store.width := by
    intro other found
    rw [shown] at found
    exact Option.some.inj found ▸ wrong
  have last := congrArg Prod.snd (tick_unaccepted consistent known unaccepted time).2
  rw [shown] at last
  exact congrArg (fun last : Option Measure => (last.getD []).amountAt i) last

theorem levelAt_tick_unavailable (consistent : ledger.Consistent)
    (known : entity ∈ ledger.standing) (meter : ScriptedMeter) (time i : Nat) :
    (ledger.tick (meter.setUnavailable entity) time).meter.baselines.levelAt entity i =
      meter.baselines.levelAt entity i := by
  have unshown : (meter.setUnavailable entity).levels.get? entity = none :=
    (Table.get?_erase _ _ _).trans (if_pos rfl)
  have unaccepted : ∀ other, (meter.setUnavailable entity).levels.get? entity = some other →
      other.length ≠ ledger.store.width := by
    intro other found
    rw [unshown] at found
    contradiction
  have last := congrArg Prod.snd (tick_unaccepted consistent known unaccepted time).2
  rw [unshown] at last
  exact congrArg (fun last : Option Measure => (last.getD []).amountAt i) last

/-- Next to a tick that gets no reading of a known entity, a tick that rejects a reading leaves the
same ledger. What comes of the two is the same for the entity, whatever samples and updates follow,
if and only if the reading shows at each frequency of the ledger just what the meter counted from
before. -/
theorem tick_rejected (reachable : ledger.Reachable) (known : entity ∈ ledger.standing)
    (wrong : level.length ≠ ledger.store.width) (meter : ScriptedMeter) (time : Nat) :
    let rejected := ledger.tick (meter.setLevel entity level) time
    let unread := ledger.tick (meter.setUnavailable entity) time
    rejected.ledger = unread.ledger ∧
      ((∀ works, SameFor entity (rejected.workOff works).ledger (unread.workOff works).ledger) ↔
        ∀ i < ledger.store.width, level.amountAt i = meter.baselines.levelAt entity i) := by
  intro rejected unread
  have consistent := reachable.consistent
  have own := consistent.known entity known
  have same : rejected.ledger = unread.ledger := ledger_tick_rejected own wrong meter time
  refine ⟨same, ?_, ?_⟩
  · intro all i bound
    let top := level.amountAt i + meter.baselines.levelAt entity i
    let shown : Measure := List.replicate ledger.store.width top
    have scene := ledger.tick_sameScene (meter.setUnavailable entity) time
    have right : shown.length = unread.ledger.store.width :=
      List.length_replicate.trans scene.width.symm
    have consistent' : unread.ledger.Consistent :=
      consistent.update .tick (meter.setUnavailable entity) time
    have known' : entity ∈ unread.ledger.standing :=
      mem_standing_update consistent.flat known .tick (meter.setUnavailable entity) time
    have first : (rejected.workOff (Round.probe unread.ledger entity shown
        time)).ledger.store.usageAt entity i = unread.ledger.store.usageAt entity i +
          (shown.amountAt i - rejected.meter.baselines.levelAt entity i) := by
      rw [← same] at consistent' known' right ⊢
      exact Round.usageAt_probe consistent' known' right time i
    have second := Round.usageAt_probe consistent' known' right time i
    have usage := Store.usageAt_congr (all (Round.probe unread.ledger entity shown time)).cells i
    have amount : shown.amountAt i = level.amountAt i + meter.baselines.levelAt entity i := by
      simp [Measure.amountAt, shown, top, List.getD_eq_getElem?_getD, bound]
    rw [first, second, amount, levelAt_tick_rejected consistent known wrong,
      levelAt_tick_unavailable consistent known] at usage
    omega
  · intro low works
    rw [ledger_workOff_rejected own wrong low time works]
    exact ⟨fun _ _ => rfl, rfl, rfl⟩

/-- A ledger of the width that knows one entity. -/
def knowing (width : Nat) : Session ScriptedMeter :=
  Session.run { ledger := { config := { vectorLen := width }, store := { width } }, meter := {} }
    [.notice (.classify 1 .top)]

/-- A reading that is too long but shows what was read before has no effect, one that is too short
has. -/
theorem tick_rejected_both :
    let ledger := (knowing 2).ledger
    let meter : ScriptedMeter := { baselines := ⟨.ofList [(1, ⟨[5, 1], 0⟩)]⟩ }
    let unread := ledger.tick (meter.setUnavailable 1) 10
    (∀ works, SameFor 1 ((ledger.tick (meter.setLevel 1 [5, 1, 9]) 10).workOff works).ledger
        (unread.workOff works).ledger) ∧
      ¬ ∀ works, SameFor 1 ((ledger.tick (meter.setLevel 1 [5]) 10).workOff works).ledger
        (unread.workOff works).ledger := by
  intro ledger meter unread
  have new : Ledger.new { vectorLen := 2 } =
      .ok { config := { vectorLen := 2 }, store := { width := 2 } } := rfl
  have reachable : ledger.Reachable := ⟨ScriptedMeter, _, _, _, _, new, rfl⟩
  have known : 1 ∈ ledger.standing := by decide +kernel
  have tooLong : [5, 1, 9].length ≠ ledger.store.width := by decide +kernel
  have tooShort : [5].length ≠ ledger.store.width := by decide +kernel
  have long := (tick_rejected reachable known tooLong meter 10).2
  have short := (tick_rejected reachable known tooShort meter 10).2
  exact ⟨long.mpr (by decide +kernel), fun all => absurd (short.mp all) (by decide +kernel)⟩

/-- A tick rejects a reading of 50, and the next one reads 60. It credits 10. Had the first reading
not been available, it would credit 60. -/
theorem usage_hidden_by_rejected :
    let ledger := (knowing 1).ledger
    let rejected := ledger.tick (ScriptedMeter.setLevel {} 1 [50, 0]) 10
    let unread := ledger.tick (ScriptedMeter.setUnavailable {} 1) 10
    let works : List Work := [.sample (.level 1 [60]), .update .tick 20]
    ledger.Reachable ∧ 1 ∈ ledger.standing ∧
      (rejected.workOff works).ledger.store.cell? 1 (.known .top) .allTime = some [10] ∧
      (unread.workOff works).ledger.store.cell? 1 (.known .top) .allTime = some [60] := by
  intro ledger rejected unread works
  have new : Ledger.new { vectorLen := 1 } =
      .ok { config := { vectorLen := 1 }, store := { width := 1 } } := rfl
  exact ⟨⟨ScriptedMeter, _, _, _, _, new, rfl⟩, by decide +kernel, by decide +kernel,
    by decide +kernel⟩

end Ledger

end UsageLedger
