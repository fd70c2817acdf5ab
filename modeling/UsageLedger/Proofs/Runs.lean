import Mathlib.Data.List.Induction
import UsageLedger.Proofs.Settlement

/-!
Runs of sessions. What settlements and notices leave alone, and how a property that they keep holds
in every state of a run.
-/

namespace UsageLedger

namespace Ledger

theorem eq_of_new {config : Config} {ledger : Ledger} (new : Ledger.new config = .ok ledger) :
    ledger = { config, store := { width := config.vectorLen } } := by
  unfold Ledger.new at new
  split at new
  · contradiction
  · exact (Except.ok.inj new).symm

/-- What a notice can do to a ledger. -/
theorem notice_cases (ledger : Ledger) (notice : Notice) :
    (∃ timeBase timers, ledger.notice notice = { ledger with timeBase, timers }) ∨
    (∃ entity state, ledger.notice notice = ledger.classify entity state) ∨
    (∃ parent child, ledger.isolation.refusal? parent child = none ∧
      ledger.notice notice = { ledger with
        isolation := ledger.isolation.put parent child
        standing := ledger.standing.erase child
        pending := ledger.pending.erase child }) ∨
    ∃ child, ledger.notice notice = { ledger with isolation := ledger.isolation.free child } := by
  have nothing : ∃ timeBase timers, ledger = { ledger with timeBase, timers } := ⟨_, _, rfl⟩
  cases notice with
  | classify entity state => exact .inr (.inl ⟨entity, state, rfl⟩)
  | importance entity code =>
    simp only [Ledger.notice, setImportance]
    cases ledger.stateOfImportance code with
    | none => exact .inl nothing
    | some state => exact .inr (.inl ⟨entity, state, rfl⟩)
  | timeBase onBattery screenOff time => exact .inl ⟨_, _, rfl⟩
  | isolate parent child =>
    simp only [Ledger.notice, isolate, Isolation.add_eq]
    cases refused : ledger.isolation.refusal? parent child with
    | some reason => exact .inl nothing
    | none => exact .inr (.inr (.inl ⟨parent, child, refused, rfl⟩))
  | unisolate child => exact .inr (.inr (.inr ⟨child, rfl⟩))
  | acquire entity time => exact .inl ⟨_, _, rfl⟩
  | release entity time =>
    simp only [Ledger.notice, releaseWakelock?]
    cases ledger.timers.release? (ledger.isolation.ownerOf entity) time with
    | none => exact .inl nothing
    | some timers => exact .inl ⟨_, timers, rfl⟩

/-- The two ledgers have credited the same usage up to the same levels. -/
structure SameBooks (ledger other : Ledger) : Prop where
  store : ledger.store = other.store
  accounted : ledger.accounted = other.accounted
  bulkBaselines : ledger.bulkBaselines = other.bulkBaselines

/-- Notices never touch the books. -/
theorem notice_sameBooks (ledger : Ledger) (notice : Notice) :
    (ledger.notice notice).SameBooks ledger := by
  rcases ledger.notice_cases notice with ⟨timeBase, timers, result⟩ | ⟨entity, state, result⟩ |
    ⟨parent, child, -, result⟩ | ⟨child, result⟩
  · exact result ▸ ⟨rfl, rfl, rfl⟩
  · rw [result, classify]
    split <;> exact ⟨rfl, rfl, rfl⟩
  · exact result ▸ ⟨rfl, rfl, rfl⟩
  · exact result ▸ ⟨rfl, rfl, rfl⟩

theorem timeBase_classify (ledger : Ledger) (entity : Nat) (state : ProcState) :
    (ledger.classify entity state).timeBase = ledger.timeBase := by
  unfold classify
  split <;> rfl

theorem timeBase_notice (ledger : Ledger) (notice : Notice) :
    (ledger.notice notice).timeBase =
      match notice with
      | .timeBase onBattery screenOff time => .transition onBattery screenOff time
      | _ => ledger.timeBase := by
  cases notice with
  | classify entity state => exact ledger.timeBase_classify entity state
  | importance entity code =>
    simp only [Ledger.notice, setImportance]
    cases ledger.stateOfImportance code with
    | none => rfl
    | some state => exact ledger.timeBase_classify entity state
  | timeBase onBattery screenOff time => rfl
  | isolate parent child =>
    simp only [Ledger.notice, isolate]
    cases ledger.isolation.add parent child <;> rfl
  | unisolate child => rfl
  | acquire entity time => rfl
  | release entity time =>
    simp only [Ledger.notice, releaseWakelock?]
    cases ledger.timers.release? (ledger.isolation.ownerOf entity) time <;> rfl

end Ledger

/-- The last level of each source among the readings. -/
def lastLevels (readings : List Reading) : Table Measure :=
  readings.foldl (fun table reading => table.insert reading.source reading.level) ∅

theorem get?_lastLevels {readings : List Reading} {source : Nat} {level : Measure}
    (h : (lastLevels readings).get? source = some level) :
    ∃ reading ∈ readings, reading.source = source ∧ reading.level = level := by
  induction readings using List.reverseRecOn with
  | nil => simp [lastLevels] at h
  | append_singleton readings last ih =>
    rw [lastLevels, List.foldl_append, List.foldl_cons, List.foldl_nil, Table.get?_insert] at h
    split at h
    next same => exact ⟨last, by simp, same.symm, Option.some.inj h⟩
    next =>
      obtain ⟨reading, mem, found⟩ := ih h
      exact ⟨reading, List.mem_append_left _ mem, found⟩

theorem filter_source_of_mem {readings : List Reading} {reading : Reading}
    (distinct : (readings.map Reading.source).Nodup) (mem : reading ∈ readings) :
    (readings.filter fun other => other.source = reading.source) = [reading] := by
  induction readings with
  | nil => simp at mem
  | cons first readings ih =>
    obtain ⟨fresh, distinct⟩ := List.nodup_cons.mp distinct
    rcases List.mem_cons.mp mem with rfl | mem
    · have none : (readings.filter fun other => other.source = reading.source) = [] := by
        apply List.filter_eq_nil_iff.mpr
        intro other mem' same
        exact fresh (of_decide_eq_true same ▸ List.mem_map_of_mem mem')
      rw [List.filter_cons_of_pos (by simp), none]
    · have other : first.source ≠ reading.source := by
        intro same
        exact fresh (same ▸ List.mem_map_of_mem mem)
      rw [List.filter_cons_of_neg (by simpa using other), ih distinct mem]

theorem filter_source_of_absent {readings : List Reading} {source : Nat}
    (absent : ∀ reading ∈ readings, reading.source ≠ source) :
    (readings.filter fun other => other.source = source) = [] := by
  apply List.filter_eq_nil_iff.mpr
  intro reading mem same
  exact absent reading mem (of_decide_eq_true same)

namespace Session

variable {μ : Type} [Meter μ]

/-- What is true before some settlements and is kept by each of them is true after them. -/
theorem Settlements.induction {path : Path} {start after : Session μ} {P : Session μ → Prop}
    (settlements : Settlements path start after) (initial : P start)
    (step : ∀ {before after : Session μ} {taken settled : List Reading},
      before.Settles path taken settled after → P before → P after) : P after := by
  induction settlements with
  | start => exact initial
  | next _ settles ih => exact step settles ih

theorem Settlements.readings_le {path : Path} {start after : Session μ}
    (settlements : Settlements path start after) : start.readings <+: after.readings := by
  apply settlements.induction (P := fun after => start.readings <+: after.readings)
  · exact List.prefix_rfl
  · intro before after taken settled settles kept
    exact kept.trans (settles.readings ▸ List.prefix_append _ _)

theorem Settlements.width_eq {path : Path} {start after : Session μ}
    (settlements : Settlements path start after) :
    after.ledger.store.width = start.ledger.store.width := by
  apply settlements.induction (P := fun after =>
    after.ledger.store.width = start.ledger.store.width)
  · rfl
  · exact fun settles width => settles.credited.width.trans width

theorem Settlements.isolation_eq {path : Path} {start after : Session μ}
    (settlements : Settlements path start after) :
    after.ledger.isolation = start.ledger.isolation := by
  apply settlements.induction (P := fun after =>
    after.ledger.isolation = start.ledger.isolation)
  · rfl
  · exact fun settles isolation => settles.credited.isolation.trans isolation

namespace Settles

variable {path : Path} {taken settled : List Reading} {before after : Session μ}

theorem parts_distinct (h : before.Settles path taken settled after) :
    ((settled.map (before.ledger.credit (before.baselines path))).map
      Contribution.source).Nodup := by
  rw [List.map_map]
  exact h.once

theorem totalAt_eq (h : before.Settles path taken settled after) (i : Nat) :
    after.ledger.store.totalAt i = before.ledger.store.totalAt i +
      gainAt (settled.map (before.ledger.credit (before.baselines path))) i := by
  rw [h.credited.total, List.map_map]
  rfl

theorem accounted_eq (h : before.Settles path taken settled after) :
    after.ledger.accounted = Ledger.account before.ledger.accounted
      (settled.map (before.ledger.credit (before.baselines path))) := by
  rw [h.credited.accounted, List.map_map]
  rfl

/-- A settled reading is the accounted level of its source from then on. -/
theorem get?_accounted_of_mem (h : before.Settles path taken settled after) {reading : Reading}
    (mem : reading ∈ settled) :
    after.ledger.accounted.get? reading.source = some reading.level := by
  rw [h.accounted_eq]
  exact Ledger.get?_account_of_mem h.parts_distinct
    (List.mem_map_of_mem (f := before.ledger.credit (before.baselines path)) mem) rfl

theorem get?_accounted_of_not_mem (h : before.Settles path taken settled after) {source : Nat}
    (absent : ∀ reading ∈ settled, reading.source ≠ source) :
    after.ledger.accounted.get? source = before.ledger.accounted.get? source := by
  rw [h.accounted_eq]
  apply Ledger.get?_account_of_not_mem
  intro part mem
  obtain ⟨reading, member, rfl⟩ := List.mem_map.mp mem
  exact absent reading member

theorem accountedAt_of_mem (h : before.Settles path taken settled after)
    {reading : Reading} (mem : reading ∈ settled) (i : Nat) :
    after.ledger.accountedAt reading.source i = reading.level.amountAt i := by
  rw [Ledger.accountedAt, h.get?_accounted_of_mem mem]
  rfl

theorem accountedAt_of_absent (h : before.Settles path taken settled after)
    {source : Nat} (absent : ∀ reading ∈ settled, reading.source ≠ source) (i : Nat) :
    after.ledger.accountedAt source i = before.ledger.accountedAt source i := by
  rw [Ledger.accountedAt, h.get?_accounted_of_not_mem absent, Ledger.accountedAt]

end Settles

theorem baselines_congr {session other : Session μ}
    (books : other.ledger.SameBooks session.ledger)
    (kept : Gauge.baselines other.meter = Gauge.baselines session.meter) :
    other.baselines = session.baselines := by
  funext path
  cases path with
  | tick => exact kept
  | copyAll => exact books.bulkBaselines

theorem run_append (session : Session μ) (calls later : List (Call μ)) :
    session.run (calls ++ later) = (session.run calls).run later :=
  List.foldl_append

theorem run_concat (session : Session μ) (calls : List (Call μ)) (call : Call μ) :
    session.run (calls ++ [call]) = (session.run calls).step call :=
  session.run_append calls [call]

/-- A property that every admitted call keeps is true after the run. -/
theorem Admits.induction {allowed : Session μ → Call μ → Prop} {P : Session μ → Prop}
    {session : Session μ} {calls : List (Call μ)} (admits : Admits allowed session calls)
    (initial : P session)
    (step : ∀ (session : Session μ) (call : Call μ), allowed session call → P session →
      P (session.step call)) : P (session.run calls) := by
  induction calls generalizing session with
  | nil => exact initial
  | cons call calls ih => exact ih admits.2 (step session call admits.1 initial)

theorem Admits.take {allowed : Session μ → Call μ → Prop} {session : Session μ}
    {calls : List (Call μ)} (admits : Admits allowed session calls) (n : Nat) :
    Admits allowed session (calls.take n) := by
  induction calls generalizing session n with
  | nil => simpa using admits
  | cons call calls ih =>
    cases n with
    | zero => trivial
    | succ n => exact ⟨admits.1, ih admits.2 n⟩

variable [LawfulMeter μ]

theorem readings_step (session : Session μ) (call : Call μ) :
    session.readings <+: (session.step call).readings := by
  cases call with
  | notice notice => exact List.prefix_rfl
  | meter meter => exact List.prefix_rfl
  | update path time => exact (session.update_settlements path time).readings_le

/-- Readings are never dropped. -/
theorem readings_run (session : Session μ) (calls : List (Call μ)) :
    session.readings <+: (session.run calls).readings := by
  induction calls generalizing session with
  | nil => exact List.prefix_rfl
  | cons call calls ih => exact (session.readings_step call).trans (ih (session.step call))

theorem readings_run_take (session : Session μ) (calls : List (Call μ)) (n : Nat) :
    (session.run (calls.take n)).readings <+: (session.run calls).readings := by
  have split := session.run_append (calls.take n) (calls.drop n)
  rw [List.take_append_drop] at split
  rw [split]
  exact readings_run _ _

/-- A session of two frequencies with nothing done yet. -/
def blank : Session ScriptedMeter where
  ledger := { config := { vectorLen := 2 }, store := { width := 2 } }
  meter := {}

end Session

end UsageLedger
