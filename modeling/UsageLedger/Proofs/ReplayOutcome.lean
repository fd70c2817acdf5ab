import Mathlib.Data.List.Induction
import UsageLedger.Scenario
import UsageLedger.Proofs.OneLevel
import UsageLedger.Proofs.Turns

namespace UsageLedger

namespace Event

def isIsolation : Event → Bool
  | .isolate _ _ => true
  | _ => false

/-- The update that the event asks for, if it does. -/
def update? : Event → Option (Path × Nat)
  | .tick time => some (.tick, time)
  | .copyAll time => some (.copyAll, time)
  | _ => none

/-- The parent that the event gives the entity, who keeps its former one if there is no other. -/
def parent? (entity : Nat) (former : Option Nat) : Event → Option Nat
  | .isolate parent child => if entity = child then some parent else former
  | _ => former

end Event

/-- The parent of the entity in the relation that the isolations among the events build: the one
given last. -/
def parentAfter (events : List Event) (entity : Nat) : Option Nat :=
  events.foldl (fun former event => event.parent? entity former) none

/-- The relation does not allow the child under the parent. -/
def Barred (parentOf : Nat → Option Nat) (parent child : Nat) : Prop :=
  parent = child ∨ parentOf parent ≠ none ∨ ∃ other, parentOf other = some child

/-- The first reason why it does not. -/
inductive Bars (parentOf : Nat → Option Nat) (parent child : Nat) : IsolationFault → Prop where
  | ownChild : parent = child → Bars parentOf parent child .ownChild
  | parentIsolated : parent ≠ child → parentOf parent ≠ none →
      Bars parentOf parent child .parentIsolated
  | hasChildren : parent ≠ child → parentOf parent = none →
      (∃ other, parentOf other = some child) → Bars parentOf parent child .hasChildren

/-- No isolation among the events is barred by those before it. -/
def Unbarred (events : List Event) : Prop :=
  ∀ earlier parent child later, events = earlier ++ .isolate parent child :: later →
    ¬ Barred (parentAfter earlier) parent child

theorem barred_iff {parentOf : Nat → Option Nat} {parent child : Nat} :
    Barred parentOf parent child ↔ ∃ reason, Bars parentOf parent child reason := by
  constructor
  · intro barred
    by_cases own : parent = child
    · exact ⟨_, .ownChild own⟩
    · by_cases isolated : parentOf parent = none
      · refine ⟨_, .hasChildren own isolated ?_⟩
        rcases barred with same | other | child
        · exact absurd same own
        · exact absurd isolated other
        · exact child
      · exact ⟨_, .parentIsolated own isolated⟩
  · rintro ⟨reason, bars⟩
    cases bars with
    | ownChild own => exact .inl own
    | parentIsolated _ isolated => exact .inr (.inl isolated)
    | hasChildren _ _ parents => exact .inr (.inr parents)

theorem parentAfter_concat (events : List Event) (event : Event) (entity : Nat) :
    parentAfter (events ++ [event]) entity = event.parent? entity (parentAfter events entity) :=
  List.foldl_concat ..

theorem unbarred_nil : Unbarred [] := by
  intro earlier parent child later cut
  simp at cut

theorem unbarred_concat {events : List Event} {event : Event} :
    Unbarred (events ++ [event]) ↔ Unbarred events ∧ ∀ parent child,
      event = .isolate parent child → ¬ Barred (parentAfter events) parent child := by
  constructor
  · refine fun unbarred => ⟨?_, ?_⟩
    · rintro earlier parent child later rfl
      exact unbarred earlier parent child (later ++ [event]) (by simp)
    · rintro parent child rfl
      exact unbarred events parent child [] rfl
  · rintro ⟨before, last⟩ earlier parent child later cut
    cases later using List.reverseRecOn with
    | nil =>
      obtain ⟨rfl, same⟩ := List.append_inj' cut rfl
      exact last parent child (List.cons.inj same).1
    | append_singleton later final =>
      rw [← List.cons_append, ← List.append_assoc] at cut
      obtain ⟨rfl, -⟩ := List.append_inj' cut rfl
      exact before earlier parent child later rfl

/-- Either no isolation is barred, or one is the first. -/
theorem unbarred_or_exists_first (events : List Event) :
    Unbarred events ∨ ∃ earlier parent child later reason,
      events = earlier ++ .isolate parent child :: later ∧ Unbarred earlier ∧
        Bars (parentAfter earlier) parent child reason := by
  induction events using List.reverseRecOn with
  | nil => exact .inl unbarred_nil
  | append_singleton events event ih =>
    rcases ih with unbarred | ⟨earlier, parent, child, later, reason, rfl, first, bars⟩
    · by_cases last : ∃ parent child, event = .isolate parent child ∧
          Barred (parentAfter events) parent child
      · obtain ⟨parent, child, rfl, barred⟩ := last
        obtain ⟨reason, bars⟩ := barred_iff.mp barred
        exact .inr ⟨events, parent, child, [], reason, rfl, unbarred, bars⟩
      · refine .inl (unbarred_concat.mpr ⟨unbarred, fun parent child same barred => ?_⟩)
        exact last ⟨parent, child, same, barred⟩
    · exact .inr ⟨earlier, parent, child, later ++ [event], reason, by simp, first, bars⟩

theorem parentAfter_filter (events : List Event) :
    parentAfter (events.filter Event.isIsolation) = parentAfter events := by
  funext entity
  induction events using List.reverseRecOn with
  | nil => rfl
  | append_singleton events event ih =>
    rw [List.filter_append, parentAfter_concat, ← ih]
    cases event with
    | isolate parent child => exact parentAfter_concat _ _ _
    | _ => simp [Event.isIsolation, Event.parent?]

theorem Unbarred.filter {events : List Event} (h : Unbarred events) :
    Unbarred (events.filter Event.isIsolation) := by
  induction events using List.reverseRecOn with
  | nil => exact unbarred_nil
  | append_singleton events event ih =>
    obtain ⟨before, last⟩ := unbarred_concat.mp h
    rw [List.filter_append]
    cases kept : event.isIsolation with
    | false =>
      rw [List.filter_cons_of_neg (by simp [kept]), List.filter_nil, List.append_nil]
      exact ih before
    | true =>
      rw [List.filter_cons_of_pos kept, List.filter_nil]
      refine unbarred_concat.mpr ⟨ih before, fun parent child same => ?_⟩
      rw [parentAfter_filter]
      exact last parent child same

/-- What is refused, and why, is told by the parents alone. -/
theorem Isolation.refusal?_eq_some_iff {isolation : Isolation} {parent child : Nat}
    {reason : IsolationFault} :
    isolation.refusal? parent child = some reason ↔
      Bars isolation.parentOf parent child reason := by
  have isolated : isolation.IsChild parent ↔ isolation.parentOf parent ≠ none := by
    rw [ne_eq, Links.parentOf_eq_none_iff, not_not]
  have adopts : child ∈ isolation.children ↔ ∃ other, isolation.parentOf other = some child := by
    rw [isolation.sound.mem_children_iff, ne_eq, List.eq_nil_iff_forall_not_mem, not_forall_not]
    exact exists_congr fun other => isolation.mem_childrenOf child other
  unfold Links.refusal?
  constructor
  · intro refused
    split at refused
    next own =>
      cases refused
      exact .ownChild own
    next apart =>
      split at refused
      next child =>
        cases refused
        exact .parentIsolated apart (isolated.mp child)
      next free =>
        split at refused
        next parents =>
          cases refused
          exact .hasChildren apart (not_not.mp (mt isolated.mpr free)) (adopts.mp parents)
        next => cases refused
  · intro bars
    cases bars with
    | ownChild own => rw [if_pos own]
    | parentIsolated apart child => rw [if_neg apart, if_pos (isolated.mpr child)]
    | hasChildren apart free parents =>
      rw [if_neg apart, if_neg (mt isolated.mp (not_not.mpr free)), if_pos (adopts.mpr parents)]

namespace Ledger

theorem isolation_classify (ledger : Ledger) (entity : Nat) (state : ProcState) :
    (ledger.classify entity state).isolation = ledger.isolation := by
  unfold classify
  split <;> rfl

theorem isolation_setImportance (ledger : Ledger) (entity : Nat) (code : Int) :
    (ledger.setImportance entity code).isolation = ledger.isolation := by
  unfold setImportance
  split
  · exact ledger.isolation_classify entity _
  · rfl

theorem isolation_release (ledger : Ledger) (entity time : Nat) :
    ((ledger.releaseWakelock? entity time).getD ledger).isolation = ledger.isolation := by
  unfold releaseWakelock?
  cases ledger.timers.release? (ledger.isolation.ownerOf entity) time <;> rfl

end Ledger

namespace Replay

variable {replay after : Replay} {event : Event}

theorem step_eq_error_iff {fault : Fault} :
    replay.step event = .error fault ↔ ∃ parent child reason, event = .isolate parent child ∧
      replay.ledger.isolation.refusal? parent child = some reason ∧
      fault = .isolation parent child reason := by
  cases event with
  | isolate parent child =>
    simp only [step, Ledger.isolate, Isolation.add_eq]
    cases refused : replay.ledger.isolation.refusal? parent child <;> simp [refused, eq_comm]
  | _ => simp [step]

/-- Isolations alone touch the relation. -/
theorem parentOf_step (stepped : replay.step event = .ok after) (entity : Nat) :
    after.ledger.isolation.parentOf entity =
      event.parent? entity (replay.ledger.isolation.parentOf entity) := by
  have untouched (same : after.ledger.isolation = replay.ledger.isolation) :
      after.ledger.isolation.parentOf entity = replay.ledger.isolation.parentOf entity := by
    rw [same]
  cases event with
  | isolate parent child =>
    simp only [step, Ledger.isolate, Isolation.add_eq] at stepped
    cases refused : replay.ledger.isolation.refusal? parent child with
    | some reason => simp [refused] at stepped
    | none =>
      simp only [refused] at stepped
      cases stepped
      exact Links.parentOf_link _ _ _ _
  | classify entity' state time =>
    cases stepped
    exact untouched (replay.ledger.isolation_classify entity' state)
  | importance entity' code time =>
    cases stepped
    exact untouched (replay.ledger.isolation_setImportance entity' code)
  | release entity' time =>
    cases stepped
    exact untouched (replay.ledger.isolation_release entity' time)
  | tick time =>
    cases stepped
    exact untouched (replay.ledger.tick_sameScene replay.meter time).isolation
  | copyAll time =>
    cases stepped
    exact untouched (replay.ledger.copyAll_sameScene replay.meter time).isolation
  | _ =>
    cases stepped
    exact untouched rfl

theorem reports_step (stepped : replay.step event = .ok after) :
    after.reports = replay.reports ++ (event.update?.map fun (path, time) =>
      (replay.ledger.update path replay.meter time).report).toList := by
  cases event with
  | isolate parent child =>
    simp only [step] at stepped
    split at stepped
    · cases stepped
    · cases stepped
      simp [Event.update?]
  | _ => cases stepped; simp [Event.update?, afterRound, Ledger.update]

theorem steps_append (replay : Replay) (position : Nat) (first later : List Event) :
    replay.steps position (first ++ later) =
      match replay.steps position first with
      | .error fault => .error fault
      | .ok after => after.steps (position + first.length) later := by
  induction first generalizing replay position with
  | nil => rfl
  | cons event first ih =>
    rw [List.cons_append, steps, steps]
    cases replay.step event with
    | error fault => rfl
    | ok after =>
      simp only [ih after (position + 1), List.length_cons]
      rw [Nat.add_right_comm, Nat.add_assoc]

section Run

variable {start final : Replay} {events : List Event}

/-- Events of which none is barred are all taken in, and they build the relation. -/
theorem steps_of_unbarred (free : start.ledger.isolation.parentOf = fun _ => none)
    (unbarred : Unbarred events) (position : Nat) :
    ∃ final, start.steps position events = .ok final ∧
      final.ledger.isolation.parentOf = parentAfter events := by
  induction events using List.reverseRecOn with
  | nil => exact ⟨start, rfl, free⟩
  | append_singleton events event ih =>
    obtain ⟨before, last⟩ := unbarred_concat.mp unbarred
    obtain ⟨middle, done, built⟩ := ih before
    rw [steps_append, done]
    simp only [steps]
    cases stepped : middle.step event with
    | error fault =>
      obtain ⟨parent, child, reason, rfl, refused, rfl⟩ := step_eq_error_iff.mp stepped
      have bars := Isolation.refusal?_eq_some_iff.mp refused
      have barred := barred_iff.mpr ⟨reason, built ▸ bars⟩
      exact absurd barred (last parent child rfl)
    | ok final =>
      refine ⟨final, rfl, funext fun entity => ?_⟩
      rw [parentOf_step stepped, parentAfter_concat, built]

/-- The first isolation that is barred is refused for the reason that bars it. -/
theorem steps_of_first (free : start.ledger.isolation.parentOf = fun _ => none)
    (unbarred : Unbarred events) {parent child : Nat} {reason : IsolationFault}
    (bars : Bars (parentAfter events) parent child reason) (later : List Event) (position : Nat) :
    start.steps position (events ++ .isolate parent child :: later) =
      .error (.isolation (position + events.length) (.isolation parent child reason)) := by
  obtain ⟨middle, done, built⟩ := steps_of_unbarred free unbarred position
  have refused := Isolation.refusal?_eq_some_iff.mpr (built ▸ bars)
  have failed : middle.step (.isolate parent child) = .error (.isolation parent child reason) :=
    step_eq_error_iff.mpr ⟨parent, child, reason, rfl, refused, rfl⟩
  rw [steps_append, done]
  simp only [steps, failed]

/-- Each update adds its report to the earlier ones. -/
theorem reports_steps {position : Nat} (done : start.steps position events = .ok final) :
    ∃ reports, final.reports = start.reports ++ reports ∧
      reports.length = (events.filterMap Event.update?).length := by
  induction events generalizing start position with
  | nil =>
    cases done
    exact ⟨[], by simp, rfl⟩
  | cons event events ih =>
    rw [steps] at done
    cases stepped : start.step event with
    | error fault =>
      rw [stepped] at done
      cases done
    | ok middle =>
      rw [stepped] at done
      obtain ⟨reports, eq, length⟩ := ih done
      refine ⟨_, by rw [eq, reports_step stepped, List.append_assoc], ?_⟩
      cases update : event.update? <;> simp [update, length]

end Run

end Replay

namespace Ledger

theorem new_of_valid {config : Config} (valid : config.Valid) :
    Ledger.new config = .ok { config, store := { width := config.vectorLen } } := by
  have accepted := config.fault?_eq_none_iff.mpr valid
  simp only [Ledger.new, Config.validate, accepted]

theorem new_of_invalid {config : Config} (invalid : ¬ config.Valid) :
    ∃ reason, Ledger.new config = .error (.config reason) := by
  obtain ⟨reason, refused⟩ :=
    Option.ne_none_iff_exists'.mp (mt config.fault?_eq_none_iff.mp invalid)
  exact ⟨reason, by simp only [Ledger.new, Config.validate, refused]⟩

end Ledger

namespace Scenario

variable {scenario : Scenario} {config : Config}

theorem replay_of_invalid (invalid : ¬ (scenario.settings config).Valid) :
    ∃ reason, scenario.replay config = .error (.settings (.config reason)) := by
  obtain ⟨reason, refused⟩ := Ledger.new_of_invalid invalid
  exact ⟨reason, by simp only [replay, refused]⟩

section Valid

variable (valid : (scenario.settings config).Valid)

include valid

/-- All replays under the same settings start from the same ledger, in which nobody is isolated. -/
theorem exists_start : ∃ start : Replay,
    (start.ledger.isolation.parentOf = fun _ => none) ∧ start.reports = [] ∧
    ∀ events, { scenario with events }.replay config = start.steps 1 events := by
  have new := Ledger.new_of_valid valid
  refine ⟨{ ledger := { config := scenario.settings config
                        store := { width := (scenario.settings config).vectorLen } } },
    rfl, rfl, fun events => ?_⟩
  have same : { scenario with events }.settings config = scenario.settings config := rfl
  simp only [replay, same, new]

theorem replay_of_unbarred {events : List Event} (unbarred : Unbarred events) :
    ∃ final, { scenario with events }.replay config = .ok final := by
  obtain ⟨start, free, -, same⟩ := exists_start valid
  obtain ⟨final, done, -⟩ := Replay.steps_of_unbarred free unbarred 1
  exact ⟨final, (same events).trans done⟩

theorem replay_of_first {events : List Event} (unbarred : Unbarred events) {parent child : Nat}
    {reason : IsolationFault} (bars : Bars (parentAfter events) parent child reason)
    (later : List Event) :
    { scenario with events := events ++ Event.isolate parent child :: later }.replay config =
      .error (.isolation (events.length + 1) (.isolation parent child reason)) := by
  obtain ⟨start, free, -, same⟩ := exists_start valid
  rw [same, Replay.steps_of_first free unbarred bars, Nat.add_comm]

theorem length_reports {final : Replay} (done : scenario.replay config = .ok final) :
    final.reports.length = (scenario.events.filterMap Event.update?).length := by
  obtain ⟨start, -, fresh, same⟩ := exists_start valid
  obtain ⟨reports, eq, length⟩ := Replay.reports_steps ((same scenario.events).symm.trans done)
  rw [eq, fresh, List.nil_append, length]

/-- What an update of a replay reports is what it does after the events before it. -/
theorem report_of_update {final : Replay} {earlier later : List Event} {event : Event}
    (done : { scenario with events := earlier ++ event :: later }.replay config = .ok final)
    {path : Path} {time : Nat} (update : event.update? = some (path, time)) :
    ∃ before, { scenario with events := earlier }.replay config = .ok before ∧
      final.reports[(earlier.filterMap Event.update?).length]? =
        some (before.ledger.update path before.meter time).report := by
  obtain ⟨start, -, fresh, same⟩ := exists_start valid
  rw [same, Replay.steps_append] at done
  rw [same]
  cases first : start.steps 1 earlier with
  | error fault => simp [first] at done
  | ok before =>
    refine ⟨before, rfl, ?_⟩
    simp only [first, Replay.steps] at done
    cases stepped : before.step event with
    | error fault => simp [stepped] at done
    | ok middle =>
      simp only [stepped] at done
      obtain ⟨reports, eq, length⟩ := Replay.reports_steps first
      obtain ⟨further, eq', -⟩ := Replay.reports_steps done
      rw [eq', Replay.reports_step stepped, eq, fresh, update, ← length]
      simp

end Valid

/-- The isolation that stops a replay: the first one that is barred by those before it. -/
inductive Stops : List Event → Nat → Fault → Prop where
  | first {earlier : List Event} {parent child : Nat} {reason : IsolationFault} :
      Unbarred earlier → Bars (parentAfter earlier) parent child reason → (later : List Event) →
      Stops (earlier ++ .isolate parent child :: later) (earlier.length + 1)
        (.isolation parent child reason)

theorem not_unbarred_iff {events : List Event} : ¬ Unbarred events ↔
    ∃ earlier parent child later, events = earlier ++ .isolate parent child :: later ∧
      Barred (parentAfter earlier) parent child := by
  simp only [Unbarred, not_forall, not_not, exists_prop]

/-- How a replay can end. -/
theorem replay_cases (scenario : Scenario) (config : Config) :
    (¬ (scenario.settings config).Valid ∧
      ∃ reason, scenario.replay config = .error (.settings (.config reason))) ∨
    (scenario.settings config).Valid ∧
      ((Unbarred scenario.events ∧ ∃ final, scenario.replay config = .ok final) ∨
      ∃ position fault, Stops scenario.events position fault ∧
        scenario.replay config = .error (.isolation position fault)) := by
  obtain ⟨vectorLen, events⟩ := scenario
  by_cases valid : (Scenario.settings ⟨vectorLen, events⟩ config).Valid
  · refine .inr ⟨valid, ?_⟩
    rcases unbarred_or_exists_first events with
      unbarred | ⟨earlier, parent, child, later, reason, rfl, unbarred, bars⟩
    · exact .inl ⟨unbarred, replay_of_unbarred valid unbarred⟩
    · exact .inr ⟨_, _, .first unbarred bars later, replay_of_first valid unbarred bars later⟩
  · exact .inl ⟨valid, replay_of_invalid valid⟩

theorem Stops.not_unbarred {events : List Event} {position : Nat} {fault : Fault}
    (stops : Stops events position fault) : ¬ Unbarred events := by
  obtain ⟨-, bars, later⟩ := stops
  exact fun unbarred => unbarred _ _ _ later rfl (barred_iff.mpr ⟨_, bars⟩)

theorem replay_eq_ok_iff : (∃ final, scenario.replay config = .ok final) ↔
    (scenario.settings config).Valid ∧ Unbarred scenario.events := by
  constructor
  · rintro ⟨final, done⟩
    rcases scenario.replay_cases config with ⟨-, reason, failed⟩ |
      ⟨valid, ⟨unbarred, -⟩ | ⟨position, fault, -, failed⟩⟩
    · simp [done] at failed
    · exact ⟨valid, unbarred⟩
    · simp [done] at failed
  · rintro ⟨valid, unbarred⟩
    exact replay_of_unbarred valid unbarred

theorem replay_eq_isolation_iff {position : Nat} {fault : Fault} :
    scenario.replay config = .error (.isolation position fault) ↔
      (scenario.settings config).Valid ∧ Stops scenario.events position fault := by
  constructor
  · intro failed
    rcases scenario.replay_cases config with ⟨-, reason, failed'⟩ |
      ⟨valid, ⟨-, final, done⟩ | ⟨position', fault', stops, failed'⟩⟩
    · simp [failed] at failed'
    · simp [failed] at done
    · cases failed.symm.trans failed'
      exact ⟨valid, stops⟩
  · obtain ⟨vectorLen, events⟩ := scenario
    rintro ⟨valid, unbarred, bars, later⟩
    exact replay_of_first valid unbarred bars later

/-- Without the other events, the same isolation stops the replay, for the same reason. -/
theorem Stops.filter {events : List Event} {position : Nat} {fault : Fault}
    (stops : Stops events position fault) :
    Stops (events.filter Event.isIsolation)
      ((events.take position).filter Event.isIsolation).length fault := by
  obtain @⟨earlier, parent, child, reason, unbarred, bars, later⟩ := stops
  have front : (earlier ++ Event.isolate parent child :: later).take (earlier.length + 1) =
      earlier ++ [.isolate parent child] :=
    List.take_length_add_append 1
  have kept (rest : List Event) :
      (earlier ++ Event.isolate parent child :: rest).filter Event.isIsolation =
        earlier.filter Event.isIsolation ++
          Event.isolate parent child :: rest.filter Event.isIsolation := by
    rw [List.filter_append]
    rfl
  rw [front, kept, kept, List.length_append]
  rw [← parentAfter_filter] at bars
  exact .first unbarred.filter bars _

theorem unbarred_filter_iff {events : List Event} :
    Unbarred (events.filter Event.isIsolation) ↔ Unbarred events := by
  refine ⟨fun unbarred => ?_, Unbarred.filter⟩
  rcases unbarred_or_exists_first events with
    open_ | ⟨earlier, parent, child, later, reason, rfl, before, bars⟩
  · exact open_
  · exact absurd unbarred (Stops.first before bars later).filter.not_unbarred

/-- The scenario with nothing but its isolations. -/
def isolations (scenario : Scenario) : Scenario :=
  { scenario with events := scenario.events.filter Event.isIsolation }

/-- A replay fails if its settings do or if an isolation is barred by those before it, and the first
such isolation is the one that it names. With the isolations alone it ends the same way. If it goes
through, each of its updates has reported, in order, what it did after the events before it. -/
theorem replay_failures (scenario : Scenario) (config : Config) :
    ((∃ fault, scenario.replay config = .error fault) ↔ ¬ (scenario.settings config).Valid ∨
      ∃ earlier parent child later, scenario.events = earlier ++ .isolate parent child :: later ∧
        Barred (parentAfter earlier) parent child) ∧
    (¬ (scenario.settings config).Valid →
      ∃ reason, scenario.replay config = .error (.settings (.config reason))) ∧
    (∀ position fault, scenario.replay config = .error (.isolation position fault) ↔
      (scenario.settings config).Valid ∧ Stops scenario.events position fault) ∧
    ((∃ final, scenario.replay config = .ok final) ↔
      ∃ final, scenario.isolations.replay config = .ok final) ∧
    (∀ position fault, scenario.replay config = .error (.isolation position fault) →
      scenario.isolations.replay config = .error (.isolation
        ((scenario.events.take position).filter Event.isIsolation).length fault)) ∧
    ∀ final, scenario.replay config = .ok final →
      final.reports.length = (scenario.events.filterMap Event.update?).length ∧
      ∀ earlier event later path time, scenario.events = earlier ++ event :: later →
        event.update? = some (path, time) →
        ∃ before, { scenario with events := earlier }.replay config = .ok before ∧
          final.reports[(earlier.filterMap Event.update?).length]? =
            some (before.ledger.update path before.meter time).report := by
  refine ⟨?_, replay_of_invalid, fun _ _ => replay_eq_isolation_iff, ?_, ?_, ?_⟩
  · have fails : (∃ fault, scenario.replay config = .error fault) ↔
        ¬ ∃ final, scenario.replay config = .ok final := by
      cases scenario.replay config <;> simp
    rw [fails, replay_eq_ok_iff, not_and_or, not_unbarred_iff]
  · rw [replay_eq_ok_iff, replay_eq_ok_iff]
    exact and_congr_right' unbarred_filter_iff.symm
  · intro position fault failed
    obtain ⟨valid, stops⟩ := replay_eq_isolation_iff.mp failed
    exact replay_eq_isolation_iff.mpr ⟨valid, stops.filter⟩
  · intro final done
    obtain ⟨valid, -⟩ := replay_eq_ok_iff.mp ⟨final, done⟩
    refine ⟨length_reports valid done, fun earlier event later path time cut update => ?_⟩
    obtain ⟨vectorLen, events⟩ := scenario
    subst cut
    exact report_of_update valid done update

/-- A child is isolated twice and moved, and then it is to have a child of its own. In between there
are a reading of a wrong width, a tick that rejects it and a release without a hold. -/
def strayIsolation : Scenario where
  vectorLen := some 2
  events := [.classify 1 .top 9, .isolate 1 2, .sample 1 [7], .tick 5, .isolate 1 2, .release 4 3,
    .isolate 3 2, .copyAll 1, .isolate 2 8, .tick 6, .isolate 5 5]

theorem replay_failures_strayIsolation :
    strayIsolation.replay {} = .error (.isolation 9 (.isolation 2 8 .parentIsolated)) ∧
    strayIsolation.isolations.replay {} = .error (.isolation 4 (.isolation 2 8 .parentIsolated)) ∧
    (∃ reason, { strayIsolation with vectorLen := some 0 }.replay {} =
      .error (.settings (.config reason))) ∧
    ∃ final before, { strayIsolation with events := strayIsolation.events.take 8 }.replay {} =
        .ok final ∧ final.reports.length = 2 ∧
      { strayIsolation with events := strayIsolation.events.take 7 }.replay {} = .ok before ∧
      final.reports[1]? = some (before.ledger.copyAll before.meter 1).report := by
  obtain ⟨-, -, -, -, alone, -⟩ := replay_failures strayIsolation {}
  obtain ⟨-, invalid, -⟩ := replay_failures { strayIsolation with vectorLen := some 0 } {}
  obtain ⟨-, -, -, -, -, reports⟩ :=
    replay_failures { strayIsolation with events := strayIsolation.events.take 8 } {}
  have failed : strayIsolation.replay {} =
      .error (.isolation 9 (.isolation 2 8 .parentIsolated)) := rfl
  obtain ⟨final, done⟩ : ∃ final,
      { strayIsolation with events := strayIsolation.events.take 8 }.replay {} = .ok final :=
    ⟨_, rfl⟩
  obtain ⟨length, each⟩ := reports final done
  obtain ⟨before, first, report⟩ :=
    each (strayIsolation.events.take 7) (.copyAll 1) [] .copyAll 1 rfl rfl
  exact ⟨failed, alone 9 _ failed, invalid (by decide), final, before, done, length, first, report⟩

end Scenario

end UsageLedger
