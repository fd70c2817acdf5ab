import UsageLedger.Scenario
import UsageLedger.Proofs.Repetition

namespace UsageLedger

namespace Event

def isHold : Event → Bool
  | .acquire _ _ | .release _ _ => true
  | _ => false

/-- The event tells a state or a level, or asks for an update. -/
def isAccounting : Event → Bool
  | .classify _ _ _ | .importance _ _ _ | .sample _ _ | .unavailable _ | .bulkSample _ _ | .tick _
  | .copyAll _ => true
  | .timeBase _ _ _ | .isolate _ _ | .acquire _ _ | .release _ _ => false

/-- The event at another time, if events of its kind have a time. -/
def retime (time : Nat) : Event → Event
  | .classify entity state _ => .classify entity state time
  | .importance entity code _ => .importance entity code time
  | .timeBase onBattery screenOff _ => .timeBase onBattery screenOff time
  | .acquire entity _ => .acquire entity time
  | .release entity _ => .release entity time
  | .tick _ => .tick time
  | .copyAll _ => .copyAll time
  | event => event

def SameButTime (event other : Event) : Prop := ∃ time, other = event.retime time

end Event

namespace ScriptedMeter

variable {first second : ScriptedMeter}

/-- The times of two readings make no difference to what is read. -/
theorem matches_alike (sources : List Nat) (time time' : Nat) :
    Matches Alike sources time time' where
  gain alike source _ := by
    rw [readGain_eq, readGain_eq, alike.levels]
    unfold Baselines.gain
    rw [alike.last]
    split <;> rfl
  last {meter other} alike source _ _ := by
    have own := meter.view_readGain_self source time
    have others := other.view_readGain_self source time'
    rw [alike.levels, alike.last] at others
    exact congrArg Prod.snd (own.trans others.symm)
  related {meter other} alike source _ := by
    rw [readGain_eq, readGain_eq, alike.levels]
    cases meter.levels.get? source with
    | none => exact alike
    | some level =>
      refine ⟨rfl, alike.bulk, fun source' => ?_⟩
      rw [Baselines.last?_record, Baselines.last?_record, alike.last]

namespace Alike

theorem setLevel (h : first.Alike second) (entity : Nat) (level : Measure) :
    (first.setLevel entity level).Alike (second.setLevel entity level) :=
  ⟨by simp only [ScriptedMeter.setLevel, h.levels], h.bulk, h.last⟩

theorem setUnavailable (h : first.Alike second) (entity : Nat) :
    (first.setUnavailable entity).Alike (second.setUnavailable entity) :=
  ⟨by simp only [ScriptedMeter.setUnavailable, h.levels], h.bulk, h.last⟩

theorem setBulkLevel (h : first.Alike second) (entity : Nat) (level : Measure) :
    (first.setBulkLevel entity level).Alike (second.setBulkLevel entity level) :=
  ⟨h.levels, by simp only [ScriptedMeter.setBulkLevel, h.bulk], h.last⟩

end Alike

end ScriptedMeter

namespace Ledger

/-- The two ledgers differ at most in their timers and in times: that of the last transition and
those of the baselines. -/
structure SameAccounts (first second : Ledger) : Prop where
  config : second.config = first.config
  store : second.store = first.store
  standing : second.standing = first.standing
  pending : second.pending = first.pending
  isolation : second.isolation = first.isolation
  accounted : second.accounted = first.accounted
  onBattery : second.timeBase.onBattery = first.timeBase.onBattery
  screenOff : second.timeBase.screenOff = first.timeBase.screenOff
  last (source : Nat) : second.bulkBaselines.last? source = first.bulkBaselines.last? source

namespace SameAccounts

variable {first second : Ledger}

theorem refl (ledger : Ledger) : ledger.SameAccounts ledger :=
  ⟨rfl, rfl, rfl, rfl, rfl, rfl, rfl, rfl, fun _ => rfl⟩

theorem classify (h : first.SameAccounts second) (entity : Nat) (state : ProcState) :
    (first.classify entity state).SameAccounts (second.classify entity state) := by
  unfold Ledger.classify
  rw [h.isolation]
  split
  · exact h
  · exact { h with
      isolation := rfl
      standing := by rw [h.standing]
      pending := by rw [h.pending] }

theorem setImportance (h : first.SameAccounts second) (entity : Nat) (code : Int) :
    (first.setImportance entity code).SameAccounts (second.setImportance entity code) := by
  unfold Ledger.setImportance stateOfImportance
  rw [h.config]
  split
  · exact h.classify entity _
  · exact h

theorem setTimeBase (h : first.SameAccounts second) (onBattery screenOff : Bool)
    (time time' : Nat) : (first.setTimeBase onBattery screenOff time).SameAccounts
      (second.setTimeBase onBattery screenOff time') :=
  { h with onBattery := rfl, screenOff := rfl }

theorem isolate (h : first.SameAccounts second) {parent child : Nat} {after : Ledger}
    (done : first.isolate parent child = .ok after) :
    ∃ after', second.isolate parent child = .ok after' ∧ after.SameAccounts after' := by
  unfold Ledger.isolate at done ⊢
  rw [h.isolation]
  split at done
  · cases done
  next isolation _ added =>
    cases done
    exact ⟨_, rfl, { h with
      isolation := rfl
      standing := by rw [h.standing]
      pending := by rw [h.pending] }⟩

/-- The same commit either goes through for both or fails for both in the same way. -/
theorem commit (h : first.SameAccounts second) (entity : Nat) (parts : List Contribution) :
    (∃ after after', first.commit entity parts = .ok after ∧
      second.commit entity parts = .ok after' ∧ after.SameAccounts after') ∨
    ∃ fault, first.commit entity parts = .error fault ∧
      second.commit entity parts = .error fault := by
  have target : second.targetSlot entity = first.targetSlot entity := by
    unfold targetSlot stateOf
    rw [h.standing, h.pending]
  have screenOff : second.timeBase.screenOffActive = first.timeBase.screenOffActive := by
    unfold TimeBase.screenOffActive
    rw [h.onBattery, h.screenOff]
  have merged : second.merged parts = first.merged parts := by
    unfold Ledger.merged
    rw [h.store]
  simp only [Ledger.commit, target, screenOff, merged, h.store]
  cases first.store.record entity (first.targetSlot entity) first.timeBase.screenOffActive
      (first.merged parts) with
  | error fault => exact .inr ⟨fault, rfl, rfl⟩
  | ok recorded =>
    exact .inl ⟨_, _, rfl, rfl, { h with
      store := rfl
      standing := by rw [h.standing]
      pending := by rw [h.pending]
      accounted := by rw [h.accounted] }⟩

theorem targets (h : first.SameAccounts second) : second.targets = first.targets := by
  unfold Ledger.targets
  rw [h.standing, h.pending, h.isolation]

theorem accepted (h : first.SameAccounts second) (levels : Table Measure) :
    second.accepted levels = first.accepted levels := by
  unfold Ledger.accepted
  rw [h.store]

theorem rejected (h : first.SameAccounts second) (levels : Table Measure) :
    second.rejected levels = first.rejected levels := by
  unfold Ledger.rejected
  rw [h.store]

theorem assigned (h : first.SameAccounts second) (levels : Table Measure) :
    second.assigned levels = first.assigned levels := by
  have credits : second.credit second.bulkBaselines = first.credit first.bulkBaselines := by
    funext reading
    apply credit_congr
    · rw [h.accounted]
    · exact h.last reading.source
  have recipients (source : Nat) : second.recipient? (first.accepted levels) source =
      first.recipient? (first.accepted levels) source := by
    unfold recipient?
    rw [h.isolation, h.standing]
  simp only [assigned_eq, h.accepted, credits, recipients]

theorem rebase (h : first.SameAccounts second) (levels : Table Measure) (time time' : Nat) :
    (first.rebase levels time).SameAccounts (second.rebase levels time') where
  __ := h
  last source := by
    have last := h.last source
    unfold Baselines.last? at last ⊢
    rw [get?_rebase, get?_rebase, h.accepted]
    cases (first.accepted levels).get? source with
    | none => exact last
    | some level => rfl

end SameAccounts

end Ledger

namespace Round

/-- The two rounds keep the same accounts and report the same. -/
structure SameAccounts (first second : Round ScriptedMeter) : Prop where
  ledger : first.ledger.SameAccounts second.ledger
  meter : first.meter.Alike second.meter
  report : second.report = first.report

namespace SameAccounts

variable {first second : Round ScriptedMeter}

theorem commit (h : first.SameAccounts second) (entity : Nat) (parts : List Contribution) :
    (first.commit entity parts).SameAccounts (second.commit entity parts) := by
  unfold Round.commit
  rcases h.ledger.commit entity parts with
    ⟨after, after', done, done', same⟩ | ⟨fault, failed, failed'⟩
  · rw [done, done']
    exact ⟨same, h.meter, by rw [h.report]⟩
  · rw [failed, failed']
    exact ⟨h.ledger, h.meter, by rw [h.report]⟩

theorem tickEntity (h : first.SameAccounts second) (time time' entity : Nat) :
    (first.tickEntity time entity).SameAccounts (second.tickEntity time' entity) := by
  have width : first.ledger.store.width = second.ledger.store.width := by rw [h.ledger.store]
  have accounted (source : Nat) :
      first.ledger.accounted.get? source = second.ledger.accounted.get? source := by
    rw [h.ledger.accounted]
  obtain ⟨gathered, after, after', result, result', alike⟩ :=
    Ledger.gather_congr width h.ledger.isolation.symm (ScriptedMeter.matches_alike _ time time')
      (fun source _ => accounted source) h.meter
  unfold Round.tickEntity
  rw [result, result']
  cases gathered with
  | unavailable => exact ⟨h.ledger, alike, by rw [h.report]⟩
  | failed phase fault => exact ⟨h.ledger, alike, by rw [h.report]⟩
  | complete parts =>
    have read : SameAccounts { first with meter := after } { second with meter := after' } :=
      ⟨h.ledger, alike, h.report⟩
    exact read.commit entity parts

end SameAccounts

end Round

namespace Ledger.SameAccounts

variable {first second : Ledger} {meter meter' : ScriptedMeter}

theorem tick (h : first.SameAccounts second) (alike : meter.Alike meter') (time time' : Nat) :
    (first.tick meter time).SameAccounts (second.tick meter' time') := by
  unfold Ledger.tick
  rw [h.targets]
  apply List.foldl_rel ⟨h, alike, rfl⟩
  intro entity _ round round' same
  exact same.tickEntity time time' entity

theorem copyAll (h : first.SameAccounts second) (alike : meter.Alike meter') (time time' : Nat) :
    (first.copyAll meter time).SameAccounts (second.copyAll meter' time') := by
  have read (meter : ScriptedMeter) : Meter.readAll meter = (meter.bulk, meter) := rfl
  unfold Ledger.copyAll
  rw [read, read, alike.bulk]
  cases meter.bulk with
  | none => exact ⟨h, alike, rfl⟩
  | some levels =>
    have spoiled : second.spoiled levels = first.spoiled levels := by
      unfold Ledger.spoiled
      rw [h.rejected, h.isolation]
    have failures : second.widthFailures levels = first.widthFailures levels := by
      unfold Ledger.widthFailures
      rw [h.rejected, h.store]
    simp only [h.assigned, spoiled, failures]
    apply List.foldl_rel ⟨h.rebase levels time time', alike, rfl⟩
    intro entity _ round round' same
    exact same.commit entity _

end Ledger.SameAccounts

namespace Replay

/-- A relation that the kept events lead on, and that the other events of the first replay leave
alone, holds at the end of both replays, the second of which takes in the kept events only. -/
theorem steps_related {R : Replay → Replay → Prop} {keep : Event → Bool}
    {same : Event → Event → Prop}
    (kept : ∀ {first second after : Replay} {event event' : Event}, R first second →
      keep event → same event event' → first.step event = .ok after →
      ∃ after', second.step event' = .ok after' ∧ R after after')
    (dropped : ∀ {first second after : Replay} {event : Event}, R first second →
      keep event = false → first.step event = .ok after → R after second)
    {first second final : Replay} (related : R first second) {events events' : List Event}
    (matched : List.Forall₂ same (events.filter keep) events') {position : Nat}
    (done : first.steps position events = .ok final) (position' : Nat) :
    ∃ final', second.steps position' events' = .ok final' ∧ R final final' := by
  -- Positions only name the event at fault, so those of the two replays may differ.
  induction events generalizing first second events' position position' with
  | nil =>
    cases matched
    cases done
    exact ⟨second, rfl, related⟩
  | cons event events ih =>
    rw [steps] at done
    split at done
    · cases done
    next after stepped =>
      cases keeps : keep event with
      | false =>
        rw [List.filter_cons_of_neg (by simp [keeps])] at matched
        exact ih (dropped related keeps stepped) matched done position'
      | true =>
        rw [List.filter_cons_of_pos keeps] at matched
        cases matched with
        | cons head rest =>
          obtain ⟨after', stepped', related⟩ := kept related keeps head stepped
          rw [steps, stepped']
          exact ih related rest done (position' + 1)

/-- The two replays keep the same accounts and have reported the same. -/
structure SameAccounts (first second : Replay) : Prop where
  ledger : first.ledger.SameAccounts second.ledger
  meter : first.meter.Alike second.meter
  reports : second.reports = first.reports

section SameAccounts

variable {first second after : Replay} {event event' : Event}

theorem SameAccounts.afterRound (h : first.SameAccounts second)
    {round round' : Round ScriptedMeter} (same : round.SameAccounts round') :
    (first.afterRound round).SameAccounts (second.afterRound round') :=
  ⟨same.ledger, same.meter, by simp only [Replay.afterRound, h.reports, same.report]⟩

/-- Every event but a hold leads to the same accounts at whatever time it comes. -/
theorem SameAccounts.step (h : first.SameAccounts second) (other : event.isHold = false)
    (same : event.SameButTime event') (stepped : first.step event = .ok after) :
    ∃ after', second.step event' = .ok after' ∧ after.SameAccounts after' := by
  obtain ⟨time', rfl⟩ := same
  cases event with
  | classify entity state time =>
    cases stepped
    exact ⟨_, rfl, { h with ledger := h.ledger.classify entity state }⟩
  | importance entity code time =>
    cases stepped
    exact ⟨_, rfl, { h with ledger := h.ledger.setImportance entity code }⟩
  | timeBase onBattery screenOff time =>
    cases stepped
    exact ⟨_, rfl, { h with ledger := h.ledger.setTimeBase onBattery screenOff time time' }⟩
  | isolate parent child =>
    simp only [Replay.step] at stepped
    split at stepped
    · cases stepped
    next ledger isolated =>
      cases stepped
      obtain ⟨ledger', isolated', same⟩ := h.ledger.isolate isolated
      simp only [Replay.step, Event.retime, isolated']
      exact ⟨_, rfl, { h with ledger := same }⟩
  | acquire entity time => contradiction
  | release entity time => contradiction
  | sample entity level =>
    cases stepped
    exact ⟨_, rfl, { h with meter := h.meter.setLevel entity level }⟩
  | unavailable entity =>
    cases stepped
    exact ⟨_, rfl, { h with meter := h.meter.setUnavailable entity }⟩
  | bulkSample entity level =>
    cases stepped
    exact ⟨_, rfl, { h with meter := h.meter.setBulkLevel entity level }⟩
  | tick time =>
    cases stepped
    exact ⟨_, rfl, h.afterRound (h.ledger.tick h.meter time time')⟩
  | copyAll time =>
    cases stepped
    exact ⟨_, rfl, h.afterRound (h.ledger.copyAll h.meter time time')⟩

theorem SameAccounts.step_hold (h : first.SameAccounts second) (hold : event.isHold = true)
    (stepped : first.step event = .ok after) : after.SameAccounts second := by
  cases event with
  | acquire entity time =>
    cases stepped
    exact { h with ledger := { h.ledger with } }
  | release entity time =>
    cases stepped
    have released : ((first.ledger.releaseWakelock? entity time).getD first.ledger).SameAccounts
        second.ledger := by
      unfold Ledger.releaseWakelock?
      cases first.ledger.timers.release? (first.ledger.isolation.ownerOf entity) time with
      | none => exact h.ledger
      | some timers => exact { h.ledger with }
    exact { h with ledger := released }
  | _ => contradiction

end SameAccounts

/-- The two replays hold the same timers, and the same of what decides about them. -/
structure SameTimers (first second : Replay) : Prop where
  isolation : second.ledger.isolation = first.ledger.isolation
  timeBase : second.ledger.timeBase = first.ledger.timeBase
  timers : second.ledger.timers = first.ledger.timers

section SameTimers

variable {first second after : Replay} {event : Event}

/-- Isolations, time bases and holds do the same to the same timers. -/
theorem SameTimers.step (h : first.SameTimers second) (other : event.isAccounting = false)
    (stepped : first.step event = .ok after) :
    ∃ after', second.step event = .ok after' ∧ after.SameTimers after' := by
  cases event with
  | timeBase onBattery screenOff time =>
    cases stepped
    exact ⟨_, rfl, h.isolation, rfl, congrArg (fun timers => timers.setCounting onBattery time)
      h.timers⟩
  | isolate parent child =>
    simp only [Replay.step, Ledger.isolate, h.isolation] at stepped ⊢
    cases added : first.ledger.isolation.add parent child with
    | error fault =>
      rw [added] at stepped
      cases stepped
    | ok isolation =>
      rw [added] at stepped
      cases stepped
      exact ⟨_, rfl, rfl, h.timeBase, h.timers⟩
  | acquire entity time =>
    cases stepped
    refine ⟨_, rfl, h.isolation, h.timeBase, ?_⟩
    simp only [Ledger.acquireWakelock, h.isolation, h.timeBase, h.timers]
  | release entity time =>
    cases stepped
    refine ⟨_, rfl, ?_⟩
    unfold Ledger.releaseWakelock?
    rw [h.isolation, h.timers]
    cases first.ledger.timers.release? (first.ledger.isolation.ownerOf entity) time with
    | none => exact h
    | some timers => exact ⟨rfl, h.timeBase, rfl⟩
  | _ => contradiction

theorem SameTimers.of_scene {ledger : Ledger} {meter : ScriptedMeter} {reports : List Report}
    (h : first.SameTimers second) (scene : first.ledger.SameScene ledger) :
    SameTimers ⟨ledger, meter, reports⟩ second :=
  ⟨h.isolation.trans scene.isolation.symm, h.timeBase.trans scene.timeBase.symm,
    h.timers.trans scene.timers.symm⟩

theorem SameTimers.classify (h : first.SameTimers second) (entity : Nat) (state : ProcState) :
    SameTimers { first with ledger := first.ledger.classify entity state } second := by
  unfold Ledger.classify
  split
  · exact h
  · exact ⟨h.isolation, h.timeBase, h.timers⟩

theorem SameTimers.step_accounting (h : first.SameTimers second)
    (accounting : event.isAccounting = true) (stepped : first.step event = .ok after) :
    after.SameTimers second := by
  cases event with
  | classify entity state time =>
    cases stepped
    exact h.classify entity state
  | importance entity code time =>
    cases stepped
    unfold Ledger.setImportance
    split
    · exact h.classify entity _
    · exact h
  | sample entity level =>
    cases stepped
    exact ⟨h.isolation, h.timeBase, h.timers⟩
  | unavailable entity =>
    cases stepped
    exact ⟨h.isolation, h.timeBase, h.timers⟩
  | bulkSample entity level =>
    cases stepped
    exact ⟨h.isolation, h.timeBase, h.timers⟩
  | tick time =>
    cases stepped
    exact h.of_scene (first.ledger.tick_sameScene first.meter time)
  | copyAll time =>
    cases stepped
    exact h.of_scene (first.ledger.copyAll_sameScene first.meter time)
  | _ => contradiction

end SameTimers

end Replay

namespace Scenario

/-- The accounts of a replay that goes through are those of its events without the holds, whatever
times these events are given. Its timers are those of the isolations, time bases and holds alone. -/
theorem replay_independent (scenario : Scenario) (config : Config) {replay : Replay}
    (done : scenario.replay config = .ok replay) :
    (∀ events, List.Forall₂ Event.SameButTime
        (scenario.events.filter fun event => !event.isHold) events →
      ∃ other, { scenario with events }.replay config = .ok other ∧
        other.ledger.store = replay.ledger.store ∧
        other.ledger.standing = replay.ledger.standing ∧
        other.ledger.pending = replay.ledger.pending ∧
        other.ledger.accounted = replay.ledger.accounted ∧
        other.reports = replay.reports) ∧
    ∃ other, { scenario with
        events := scenario.events.filter fun event => !event.isAccounting }.replay config =
          .ok other ∧
      other.ledger.timers = replay.ledger.timers := by
  have settings (events : List Event) :
      { scenario with events }.settings config = scenario.settings config := rfl
  unfold Scenario.replay at done ⊢
  simp only [settings]
  cases new : Ledger.new (scenario.settings config) with
  | error fault =>
    rw [new] at done
    cases done
  | ok ledger =>
    rw [new] at done
    constructor
    · intro events matched
      have start : Replay.SameAccounts { ledger } { ledger } :=
        ⟨.refl ledger, .refl {}, rfl⟩
      obtain ⟨other, done', same⟩ := Replay.steps_related
        (fun same keeps => same.step (by simpa using keeps))
        (fun same drops => same.step_hold (by simpa using drops)) start matched done 1
      exact ⟨other, done', same.ledger.store, same.ledger.standing, same.ledger.pending,
        same.ledger.accounted, same.reports⟩
    · have start : Replay.SameTimers { ledger } { ledger } := ⟨rfl, rfl, rfl⟩
      have matched : List.Forall₂ Eq (scenario.events.filter fun event => !event.isAccounting)
          (scenario.events.filter fun event => !event.isAccounting) := List.forall₂_refl _
      obtain ⟨other, done', same⟩ := Replay.steps_related
        (fun same keeps eq => eq ▸ same.step (by simpa using keeps))
        (fun same drops => same.step_accounting (by simpa using drops)) start matched done 1
      exact ⟨other, done', same.timers⟩

/-- Events of all kinds, with times in disorder. -/
def mixedEvents : Scenario where
  vectorLen := some 2
  events := [.timeBase true true 30, .classify 5 .top 12, .acquire 5 10, .sample 5 [3, 4],
    .isolate 5 6, .sample 6 [1, 0], .tick 20, .release 6 25, .bulkSample 5 [9, 9],
    .bulkSample 7 [2], .copyAll 30, .unavailable 5, .tick 31, .acquire 7 1, .importance 8 12 2]

theorem replay_independent_mixedEvents :
    ∃ replay, mixedEvents.replay {} = .ok replay ∧ replay.reports.length = 3 ∧
      replay.ledger.wakelockTime 5 0 = 15 ∧
      (∃ other, { mixedEvents with
          events := (mixedEvents.events.filter fun event : Event => !event.isHold).map
            (Event.retime 0) }.replay {} = .ok other ∧
        other.ledger.store = replay.ledger.store ∧ other.ledger.pending = replay.ledger.pending ∧
        other.reports = replay.reports) ∧
      ∃ other, { mixedEvents with
          events := mixedEvents.events.filter fun event : Event => !event.isAccounting }.replay {} =
            .ok other ∧
        other.ledger.timers = replay.ledger.timers := by
  obtain ⟨replay, done⟩ : ∃ replay, mixedEvents.replay {} = .ok replay := ⟨_, rfl⟩
  have shown : (mixedEvents.replay {}).map (fun replay =>
      (replay.reports.length, replay.ledger.wakelockTime 5 0)) = .ok (3, 15) := by
    decide +kernel
  rw [done] at shown
  obtain ⟨reports, held⟩ := Prod.ext_iff.mp (Except.ok.inj shown)
  obtain ⟨accounts, timers⟩ := replay_independent mixedEvents {} done
  have retimed : List.Forall₂ Event.SameButTime
      (mixedEvents.events.filter fun event : Event => !event.isHold)
      ((mixedEvents.events.filter fun event : Event => !event.isHold).map (Event.retime 0)) :=
    List.forall₂_map_right_iff.mpr (List.forall₂_same.mpr fun _ _ => ⟨0, rfl⟩)
  obtain ⟨other, done', store, -, pending, -, same⟩ := accounts _ retimed
  exact ⟨replay, done, reports, held, ⟨other, done', store, pending, same⟩, timers⟩

end Scenario

end UsageLedger
