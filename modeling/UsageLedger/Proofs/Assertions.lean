import UsageLedger.Proofs.CopyEffect
import UsageLedger.Proofs.Disclosure

namespace UsageLedger

/-- The sum of two amounts, unless their lengths differ. -/
def Measure.accumulate? (sum delta : Measure) : Option Measure :=
  if sum.length = delta.length then some (sum.add delta) else none

theorem Measure.accumulate?_eq {sum delta : Measure} (same : sum.length = delta.length) :
    sum.accumulate? delta = some (sum.add delta) :=
  if_pos same

example : Measure.accumulate? [1, 2] [3] = none := rfl

/-- Steps that go through and keep an invariant go through one after the other. -/
theorem foldlM_eq_some {α β : Type} {P : β → Prop} {step? : β → α → Option β} {step : β → α → β}
    {items : List α} (sound : ∀ state, P state → ∀ item ∈ items,
      step? state item = some (step state item) ∧ P (step state item)) {state : β}
    (start : P state) :
    items.foldlM step? state = some (items.foldl step state) ∧ P (items.foldl step state) := by
  induction items generalizing state with
  | nil => exact ⟨rfl, start⟩
  | cons item items ih =>
    obtain ⟨done, kept⟩ := sound state start item List.mem_cons_self
    have later := ih (fun state holds other mem =>
      sound state holds other (List.mem_cons_of_mem item mem)) kept
    rw [List.foldlM_cons, done]
    exact later

theorem foldlM_accumulate? {width : Nat} {sum : Measure} (right : sum.length = width)
    {deltas : List Measure} (widths : ∀ delta ∈ deltas, delta.length = width) :
    deltas.foldlM Measure.accumulate? sum = some (deltas.foldl Measure.add sum) := by
  apply (foldlM_eq_some (P := fun sum : Measure => sum.length = width) _ right).1
  intro sum right delta mem
  have same : sum.length = delta.length := right.trans (widths delta mem).symm
  refine ⟨Measure.accumulate?_eq same, ?_⟩
  rw [Measure.length_add, same, Nat.max_self]
  exact widths delta mem

namespace Account

def addCell? (cells : Table Measure) (slot : Slot) (delta : Measure) : Option (Table Measure) :=
  match cells.get? slot.row with
  | some cell => (cell.accumulate? delta).map (cells.insert slot.row)
  | none => some (cells.insert slot.row delta)

def credit? (account : Account) (slot : Slot) (screenOff : Bool) (delta : Measure) :
    Option Account := do
  let allTime ← addCell? account.allTime slot delta
  let screenOff ←
    if screenOff then addCell? account.screenOff slot delta else some account.screenOff
  return { allTime, screenOff }

theorem addCell?_eq {cells : Table Measure} {slot : Slot} {delta : Measure}
    (fits : ∀ cell ∈ cells.get? slot.row, cell.length = delta.length) :
    addCell? cells slot delta = some (addCell cells slot delta) := by
  unfold addCell? addCell
  cases found : cells.get? slot.row with
  | none => rfl
  | some cell =>
    simp only [Measure.accumulate?_eq (fits cell found)]
    rfl

theorem credit?_eq {account : Account} {slot : Slot} {delta : Measure}
    (fits : ∀ column, ∀ cell ∈ account.cell? slot column, cell.length = delta.length)
    (screenOff : Bool) :
    account.credit? slot screenOff delta = some (account.credit slot screenOff delta) := by
  have allTime : addCell? account.allTime slot delta = some (addCell account.allTime slot delta) :=
    addCell?_eq (fits .allTime)
  have inside : addCell? account.screenOff slot delta =
      some (addCell account.screenOff slot delta) := addCell?_eq (fits .screenOff)
  unfold credit? credit
  rw [allTime]
  cases screenOff with
  | false => rfl
  | true =>
    simp only [if_true, inside]
    rfl

end Account

namespace Store

def record? (store : Store) (entity : Nat) (slot : Slot) (screenOff : Bool) (delta : Measure) :
    Option (Except Fault (Store × Bool)) :=
  match store.checkWidth entity delta with
  | .error fault => some (.error fault)
  | .ok () =>
    if delta.IsZero then some (.ok (store, false))
    else do
      let account ← ((store.accounts.get? entity).getD {}).credit? slot screenOff delta
      return .ok ({ store with accounts := store.accounts.insert entity account }, true)

theorem record?_eq {store : Store} (orderly : store.Orderly) (entity : Nat) (slot : Slot)
    (screenOff : Bool) (delta : Measure) :
    store.record? entity slot screenOff delta =
      some (store.record entity slot screenOff delta) := by
  unfold record? record
  cases check : store.checkWidth entity delta with
  | error fault => rfl
  | ok _ =>
    have right := checkWidth_eq_ok_iff.mp check
    have fits : ∀ column, ∀ cell ∈ ((store.accounts.get? entity).getD {}).cell? slot column,
        cell.length = delta.length := by
      intro column cell found
      rw [right]
      cases stored : store.accounts.get? entity with
      | some account =>
        rw [stored] at found
        have shown : store.cell? entity slot column = some cell := by
          rw [Store.cell?, stored]
          exact found
        exact (orderly.cells entity slot column cell shown).1
      | none =>
        rw [stored] at found
        cases column <;> contradiction
    simp only [Account.credit?_eq fits]
    split <;> rfl

end Store

namespace Ledger

def commit? (ledger : Ledger) (entity : Nat) (delta : Measure) (parts : List Contribution) :
    Option (Except Fault Ledger) := do
  let slot := ledger.targetSlot entity
  match ← ledger.store.record? entity slot ledger.timeBase.screenOffActive delta with
  | .error fault => return .error fault
  | .ok (store, _) => return .ok { ledger with
      store
      standing :=
        match slot with
        | .known state => ledger.standing.insert entity (some state)
        | .unknown => ledger.standing.insertIfNew entity none
      pending := ledger.pending.erase entity
      accounted := account ledger.accounted parts }

theorem commit?_eq {ledger : Ledger} (orderly : ledger.store.Orderly) (entity : Nat)
    (parts : List Contribution) :
    ledger.commit? entity (ledger.merged parts) parts = some (ledger.commit entity parts) := by
  simp only [commit?, commit, Store.record?_eq orderly]
  cases ledger.store.record entity (ledger.targetSlot entity) ledger.timeBase.screenOffActive
    (ledger.merged parts) <;> rfl

end Ledger

namespace Round

variable {μ : Type}

def commit? (round : Round μ) (entity : Nat) (delta : Measure) (parts : List Contribution) :
    Option (Round μ) := do
  match ← round.ledger.commit? entity delta parts with
  | .ok ledger => return { round with ledger, report := round.report.addUpdated entity }
  | .error fault =>
    return { round with report := round.report.addFailure ⟨entity, .committing, fault⟩ }

theorem commit?_eq (round : Round μ) (orderly : round.ledger.store.Orderly) (entity : Nat)
    (parts : List Contribution) :
    round.commit? entity (round.ledger.merged parts) parts = some (round.commit entity parts) := by
  unfold commit? commit
  rw [Ledger.commit?_eq orderly]
  cases round.ledger.commit entity parts <;> rfl

theorem Turn.orderly {before after : Round μ} {entity : Nat}
    {outcome : Option (List Contribution)} (turn : Turn entity before after outcome)
    (orderly : before.ledger.store.Orderly) : after.ledger.store.Orderly := by
  cases turn with
  | passed same _ => rwa [same]
  | settled done _ =>
    obtain ⟨store, changed, recorded, same⟩ := Ledger.commit_eq_ok done
    rw [same]
    exact orderly.record recorded

end Round

namespace Ledger

variable {μ : Type} [Meter μ]

/-- Reads the isolated entities in turn and adds what each of them gained to the sum. -/
def gatherChildren? (ledger : Ledger) (time : Nat) : List Nat → μ → Measure →
    Option (Except Fault (List Contribution × Measure) × μ)
  | [], meter, sum => some (.ok ([], sum), meter)
  | child :: rest, meter, sum =>
    match Meter.readGain meter child time with
    | (none, meter) => gatherChildren? ledger time rest meter sum
    | (some gain, meter) =>
      match ledger.store.checkWidth child gain with
      | .error fault => some (.error fault, meter)
      | .ok () => do
        let part := ledger.contribution meter child gain
        let sum ← sum.accumulate? part.gain
        let (gathered, meter) ← gatherChildren? ledger time rest meter sum
        return (gathered.map fun (parts, sum) => (part :: parts, sum), meter)

theorem gatherChildren?_eq (ledger : Ledger) (time : Nat) (children : List Nat) (meter : μ)
    {sum : Measure} (right : sum.length = ledger.store.width) :
    ledger.gatherChildren? time children meter sum =
      some ((ledger.gatherChildren time children meter).1.map fun parts =>
          (parts, (parts.map Contribution.gain).foldl Measure.add sum),
        (ledger.gatherChildren time children meter).2) := by
  induction children generalizing meter sum with
  | nil => rfl
  | cons child rest ih =>
    rw [gatherChildren?, gatherChildren]
    rcases Meter.readGain meter child time with ⟨gained, middle⟩
    cases gained with
    | none => exact ih middle right
    | some gain =>
      cases check : ledger.store.checkWidth child gain with
      | error fault => simp only [check]; rfl
      | ok _ =>
        have same : sum.length = (ledger.contribution middle child gain).gain.length := by
          rw [right, length_contribution, Store.checkWidth_eq_ok_iff.mp check]
        have added : (sum.add (ledger.contribution middle child gain).gain).length =
            ledger.store.width := by
          rw [Measure.length_add, ← same, Nat.max_self, right]
        have tail := ih middle added
        rcases gathered : ledger.gatherChildren time rest middle with ⟨others, after⟩
        rw [gathered] at tail
        simp only [check, gathered, Measure.accumulate?_eq same, Option.bind_eq_bind,
          Option.bind_some, tail]
        cases others <;> rfl

end Ledger

/-- Takes up one entity of a tick. Its own gain is the sum that those of its isolated entities are
added to. -/
def Round.tickEntity? {μ : Type} [Meter μ] (time : Nat) (round : Round μ) (entity : Nat) :
    Option (Round μ) :=
  match Meter.readGain round.meter entity time with
  | (none, meter) => some { round with meter, report := round.report.addSkipped entity }
  | (some gain, meter) =>
    match round.ledger.store.checkWidth entity gain with
    | .error fault => some { round with
        meter, report := round.report.addFailure ⟨entity, .computingDeltas, fault⟩ }
    | .ok () => do
      let part := round.ledger.contribution meter entity gain
      let children := round.ledger.isolation.childrenOf entity
      let (gathered, meter) ← round.ledger.gatherChildren? time children meter part.gain
      match gathered with
      | .error fault => return { round with
          meter, report := round.report.addFailure ⟨entity, .merging, fault⟩ }
      | .ok (parts, delta) => Round.commit? { round with meter } entity delta (part :: parts)

theorem Round.tickEntity?_eq {μ : Type} [Meter μ] {round : Round μ}
    (orderly : round.ledger.store.Orderly) (time entity : Nat) :
    round.tickEntity? time entity = some (round.tickEntity time entity) := by
  unfold tickEntity? tickEntity
  rw [Ledger.gather]
  rcases Meter.readGain round.meter entity time with ⟨gained, middle⟩
  cases gained with
  | none => rfl
  | some gain =>
    cases check : round.ledger.store.checkWidth entity gain with
    | error fault => simp only [check]
    | ok _ =>
      have right : (round.ledger.contribution middle entity gain).gain.length =
          round.ledger.store.width := by
        rw [Ledger.length_contribution, Store.checkWidth_eq_ok_iff.mp check]
      have read := round.ledger.gatherChildren?_eq time
        (round.ledger.isolation.childrenOf entity) middle right
      rcases gathered : round.ledger.gatherChildren time
        (round.ledger.isolation.childrenOf entity) middle with ⟨others, after⟩
      rw [gathered] at read
      simp only [check, gathered, Option.bind_eq_bind, Option.bind_some, read]
      cases others with
      | error fault => rfl
      | ok parts =>
        have merged : (parts.map Contribution.gain).foldl Measure.add
            (round.ledger.contribution middle entity gain).gain =
            round.ledger.merged (round.ledger.contribution middle entity gain :: parts) :=
          (Measure.total_cons right _).symm
        simp only [Except.map, merged]
        exact commit?_eq { round with meter := after } orderly entity _

namespace Ledger

variable {μ : Type} [Meter μ]

def tick? (ledger : Ledger) (meter : μ) (time : Nat) : Option (Round μ) :=
  ledger.targets.foldlM (Round.tickEntity? time) { ledger, meter }

theorem tick?_eq {ledger : Ledger} (orderly : ledger.store.Orderly) (meter : μ) (time : Nat) :
    ledger.tick? meter time = some (ledger.tick meter time) := by
  let start : Round μ := { ledger, meter }
  have holds : start.ledger.store.Orderly := orderly
  apply (foldlM_eq_some (P := fun round : Round μ => round.ledger.store.Orderly) _ holds).1
  intro round orderly entity _
  obtain ⟨outcome, turn, -⟩ := round.turn_tickEntity time entity
  exact ⟨Round.tickEntity?_eq orderly time entity, turn.orderly orderly⟩

end Ledger

/-- All sums may be taken at the width of the first ledger, which no commit changes. -/
theorem Round.foldlM_commit? {μ : Type} (start : Round μ) (orderly : start.ledger.store.Orderly)
    (share : Nat → List Contribution) (entities : List Nat) :
    entities.foldlM (fun round entity =>
        round.commit? entity (start.ledger.merged (share entity)) (share entity)) start =
      some (entities.foldl (fun round entity => round.commit entity (share entity)) start) := by
  have holds : start.ledger.store.Orderly ∧ start.ledger.store.width = start.ledger.store.width :=
    ⟨orderly, rfl⟩
  apply (foldlM_eq_some (P := fun round : Round μ =>
    round.ledger.store.Orderly ∧ round.ledger.store.width = start.ledger.store.width) _ holds).1
  intro round kept entity _
  obtain ⟨orderly, width⟩ := kept
  have merged : start.ledger.merged (share entity) = round.ledger.merged (share entity) := by
    unfold Ledger.merged
    rw [width]
  obtain ⟨outcome, turn, -⟩ := round.turn_commit entity (share entity)
  rw [merged]
  exact ⟨commit?_eq round orderly entity (share entity), turn.orderly orderly,
    turn.sameScene.width.trans width⟩

namespace Ledger

variable {μ : Type} [Meter μ]

/-- The share of an entity, added up from zero. -/
def shareSum? (ledger : Ledger) (parts : List (Nat × Contribution)) (entity : Nat) :
    Option Measure :=
  ((shareOf parts entity).map Contribution.gain).foldlM Measure.accumulate?
    (.zero ledger.store.width)

/-- Adds up all shares before the first of them is credited. -/
def copyAll? (ledger : Ledger) (meter : μ) (time : Nat) : Option (Round μ) :=
  match Meter.readAll meter with
  | (none, meter) => some { ledger, meter, report := { bulkUnavailable := true } }
  | (some levels, meter) => do
    let parts := ledger.assigned levels
    let shares ← (recipients parts (ledger.spoiled levels)).mapM fun entity =>
      (ledger.shareSum? parts entity).map (entity, ·)
    shares.foldlM (fun round share => round.commit? share.1 share.2 (shareOf parts share.1))
      { ledger := ledger.rebase levels time
        meter
        report := { failures := ledger.widthFailures levels } }

theorem shareSum?_eq (ledger : Ledger) (levels : Table Measure) (entity : Nat) :
    ledger.shareSum? (ledger.assigned levels) entity =
      some (ledger.merged (shareOf (ledger.assigned levels) entity)) := by
  apply foldlM_accumulate? (Measure.length_zero ledger.store.width)
  intro delta mem
  obtain ⟨part, share, rfl⟩ := List.mem_map.mp mem
  exact length_of_mem_share share

theorem mapM_shareSum? (ledger : Ledger) (levels : Table Measure) (entities : List Nat) :
    entities.mapM (fun entity =>
        (ledger.shareSum? (ledger.assigned levels) entity).map (entity, ·)) =
      some (entities.map fun entity =>
        (entity, ledger.merged (shareOf (ledger.assigned levels) entity))) := by
  induction entities with
  | nil => rfl
  | cons entity entities ih =>
    rw [List.mapM_cons, ih, shareSum?_eq]
    rfl

theorem copyAll?_eq {ledger : Ledger} (orderly : ledger.store.Orderly) (meter : μ) (time : Nat) :
    ledger.copyAll? meter time = some (ledger.copyAll meter time) := by
  unfold copyAll? copyAll
  rcases Meter.readAll meter with ⟨read, after⟩
  cases read with
  | none => rfl
  | some levels =>
    let start : Round μ :=
      ⟨ledger.rebase levels time, after, { failures := ledger.widthFailures levels }⟩
    have orderly : start.ledger.store.Orderly := orderly
    simp only [mapM_shareSum?, Option.bind_eq_bind, Option.bind_some, List.foldlM_map]
    exact start.foldlM_commit? orderly (shareOf (ledger.assigned levels)) _

/-- A reading of the failed entity or of one of its isolated entities has a wrong width, which was
found before anything was committed. -/
def Mismatch (ledger : Ledger) (failure : Failure) : Prop :=
  (failure.phase = .computingDeltas ∨ failure.phase = .merging) ∧
    ∃ source ∈ ledger.isolation.family failure.entity, ∃ actual, actual ≠ ledger.vectorLen ∧
      failure.fault = .width source ledger.vectorLen actual

theorem gatherChildren_failed {ledger : Ledger} {time : Nat} {children : List Nat}
    {meter after : μ} {fault : Fault}
    (result : ledger.gatherChildren time children meter = (.error fault, after)) :
    ∃ child ∈ children, ∃ actual, actual ≠ ledger.vectorLen ∧
      fault = .width child ledger.vectorLen actual := by
  induction children generalizing meter with
  | nil => cases result
  | cons child rest ih =>
    have later (middle : μ) (result : ledger.gatherChildren time rest middle =
        (.error fault, after)) : ∃ other ∈ child :: rest, ∃ actual, actual ≠ ledger.vectorLen ∧
          fault = .width other ledger.vectorLen actual := by
      obtain ⟨other, mem, wrong⟩ := ih result
      exact ⟨other, List.mem_cons_of_mem child mem, wrong⟩
    rw [gatherChildren] at result
    split at result
    next middle _ => exact later middle result
    next gain middle _ =>
      split at result
      next failed refused =>
        obtain ⟨wrong, rfl⟩ := Store.checkWidth_eq_error_iff.mp refused
        cases result
        exact ⟨child, List.mem_cons_self, gain.length, wrong, rfl⟩
      next =>
        simp only at result
        split at result
        next failed final tail =>
          cases result
          exact later middle tail
        next => cases result

theorem gather_failed {ledger : Ledger} {time entity : Nat} {meter after : μ} {phase : Phase}
    {fault : Fault} (result : ledger.gather meter entity time = (.failed phase fault, after)) :
    ledger.Mismatch ⟨entity, phase, fault⟩ := by
  rw [gather_eq] at result
  split at result
  · cases result
  · split at result
    next => cases result
    next failed final gathered =>
      cases result
      refine ⟨?_, gatherChildren_failed gathered⟩
      split
      · exact .inr rfl
      · exact .inl rfl

theorem failures_tickEntity (round : Round μ) (time entity : Nat) :
    ∀ failure ∈ (round.tickEntity time entity).report.failures,
      failure ∈ round.report.failures ∨ round.ledger.Mismatch failure := by
  intro failure mem
  unfold Round.tickEntity at mem
  rcases result : round.ledger.gather round.meter entity time with ⟨gathered, after⟩
  rw [result] at mem
  cases gathered with
  | unavailable => exact .inl mem
  | failed phase fault =>
    rcases List.mem_append.mp mem with old | new
    · exact .inl old
    · rw [List.mem_singleton.mp new]
      exact .inr (gather_failed result)
  | complete parts =>
    -- What was read has the right width, so the commit does not fail.
    obtain ⟨-, widths⟩ := gather_parts (congrArg Prod.fst result)
    obtain ⟨turned, done⟩ := commit_isOk entity widths
    simp only [Round.commit, done] at mem
    exact .inl mem

theorem failures_tick (ledger : Ledger) (meter : μ) (time : Nat) :
    ∀ failure ∈ (ledger.tick meter time).report.failures, ledger.Mismatch failure := by
  have kept : ledger.SameScene (ledger.tick meter time).ledger ∧
      ∀ failure ∈ (ledger.tick meter time).report.failures, ledger.Mismatch failure := by
    apply List.foldlRecOn (motive := fun round : Round μ => ledger.SameScene round.ledger ∧
      ∀ failure ∈ round.report.failures, ledger.Mismatch failure)
    · exact ⟨.refl ledger, by simp⟩
    · intro round kept entity _
      obtain ⟨scene, before⟩ := kept
      obtain ⟨outcome, turn, -⟩ := round.turn_tickEntity time entity
      refine ⟨scene.trans turn.sameScene, fun failure mem => ?_⟩
      rcases failures_tickEntity round time entity failure mem with old | new
      · exact before failure old
      · unfold Mismatch vectorLen at new ⊢
        rwa [scene.width, scene.isolation] at new
  exact kept.2

theorem failures_copyAll (ledger : Ledger) (meter : μ) (time : Nat) :
    ∀ failure ∈ (ledger.copyAll meter time).report.failures, ledger.Mismatch failure := by
  rcases shown : Meter.readAll meter with ⟨read, after⟩
  cases read with
  | none =>
    unfold copyAll
    rw [shown]
    simp
  | some levels =>
    rw [ledger.report_copyAll shown]
    intro failure mem
    obtain ⟨source, level, found, wrong, rfl⟩ := mem_widthFailures.mp mem
    exact ⟨.inl rfl, source, List.mem_cons_self, level.length, wrong, rfl⟩

def update? (ledger : Ledger) (path : Path) (meter : μ) (time : Nat) : Option (Round μ) :=
  match path with
  | .tick => ledger.tick? meter time
  | .copyAll => ledger.copyAll? meter time

/-- No assertion fires in an update, whatever the meter does, so the update comes out as it does
without them. All its failures are mismatches found while reading. -/
theorem update?_eq {ledger : Ledger} (reachable : ledger.Reachable) (path : Path) (meter : μ)
    (time : Nat) : ledger.update? path meter time = some (ledger.update path meter time) ∧
      ∀ failure ∈ (ledger.update path meter time).report.failures, ledger.Mismatch failure := by
  have orderly := reachable.orderly_store
  cases path with
  | tick => exact ⟨tick?_eq orderly meter time, ledger.failures_tick meter time⟩
  | copyAll => exact ⟨copyAll?_eq orderly meter time, ledger.failures_copyAll meter time⟩

/-- A meter whose baselines have nothing to do with its gains. -/
structure StrayMeter where
  gains : Table Measure
  kept : Baselines
deriving DecidableEq, Repr

instance : Meter StrayMeter where
  readLevel meter _ := (none, meter)
  baselines := StrayMeter.kept
  withBaselines meter kept := { meter with kept }
  readGain meter entity _ := (meter.gains.get? entity, meter)
  readAll meter := (some meter.gains, meter)

def stray : StrayMeter where
  gains := .ofList [(1, [1, 2]), (11, [3, 0]), (12, [1, 1]), (2, [1, 1]), (21, [9])]
  kept := ⟨.ofList [(1, ⟨[5], 1⟩), (11, ⟨[7, 7, 7], 1⟩), (2, ⟨[], 1⟩)]⟩

/-- Accounted levels of other widths than the ledger's, and a child that spoils its family. -/
def strayRun : List (Call StrayMeter) :=
  [.notice (.classify 1 .top), .notice (.isolate 1 11), .notice (.isolate 1 12),
    .notice (.classify 2 .cached), .notice (.isolate 2 21), .notice (.timeBase true true 5),
    .update .tick 10]

theorem update?_eq_stray :
    let session := Session.run { ledger := Session.blank.ledger, meter := stray } strayRun
    session.ledger.Reachable ∧ session.ledger.accounted.get? 11 = some [7, 7, 7] ∧ ∀ path,
      let round := session.ledger.update path session.meter 20
      round.report.updated = [1] ∧ round.report.failures ≠ [] ∧
        session.ledger.update? path session.meter 20 = some round ∧
        ∀ failure ∈ round.report.failures, session.ledger.Mismatch failure := by
  intro session
  have new : Ledger.new { vectorLen := 2 } = .ok Session.blank.ledger := rfl
  have reachable : session.ledger.Reachable :=
    ⟨StrayMeter, _, _, { ledger := Session.blank.ledger, meter := stray }, strayRun, new, rfl⟩
  refine ⟨reachable, by decide +kernel, fun path => ⟨?_, ?_, ?_⟩⟩
  · cases path <;> decide +kernel
  · cases path <;> decide +kernel
  · exact update?_eq reachable path session.meter 20

end Ledger

end UsageLedger
