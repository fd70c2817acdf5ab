import UsageLedger.Proofs.MeterMaps
import UsageLedger.Proofs.Repetition

namespace UsageLedger

/-- A gain that was asked for, and the answer. -/
structure Inquiry where
  source : Nat
  answer : Option Measure
deriving DecidableEq, Repr

/-- A meter together with a log of all gains asked of it, the latest last. -/
structure Logged (μ : Type) where
  meter : μ
  log : List Inquiry := []
deriving DecidableEq, Repr

namespace Logged

variable {μ : Type} [Meter μ]

instance : Meter (Logged μ) where
  readLevel logged entity :=
    let reading := Gauge.readLevel logged.meter entity
    (reading.1, { logged with meter := reading.2 })
  baselines logged := Gauge.baselines logged.meter
  withBaselines logged baselines :=
    { logged with meter := Gauge.withBaselines logged.meter baselines }
  readGain logged entity time :=
    let reading := Meter.readGain logged.meter entity time
    (reading.1, { meter := reading.2, log := logged.log ++ [⟨entity, reading.1⟩] })
  readAll logged :=
    let reading := Meter.readAll logged.meter
    (reading.1, { logged with meter := reading.2 })

/-- An update does not notice that it is logged. -/
theorem isHom_meter : Meter.IsHom (Logged.meter : Logged μ → μ) where
  baselines _ := rfl
  readGain _ _ _ := rfl
  readAll _ := rfl

theorem log_readGain (logged : Logged μ) (entity time : Nat) :
    (Meter.readGain logged entity time).2.log =
      logged.log ++ [⟨entity, (Meter.readGain logged entity time).1⟩] := rfl

end Logged

namespace Ledger

variable {μ : Type} [Meter μ]

/-- The turn of an entity asks for its own gain and then for those of its isolated entities, in their
order, as far as it gets; for none of them unless its own gain is there and has the right width. -/
def AsksFamily (ledger : Ledger) (entity : Nat) (turn : List Inquiry) : Prop :=
  ∃ answer asked, turn = ⟨entity, answer⟩ :: asked ∧
    asked.map Inquiry.source <+: ledger.isolation.childrenOf entity ∧
    (asked ≠ [] → ∃ gain ∈ answer, gain.length = ledger.vectorLen)

theorem AsksFamily.congr {ledger other : Ledger} (scene : ledger.SameScene other) {entity : Nat}
    {turn : List Inquiry} (h : other.AsksFamily entity turn) : ledger.AsksFamily entity turn := by
  obtain ⟨answer, asked, cut, sources, usable⟩ := h
  rw [scene.isolation] at sources
  rw [vectorLen, scene.width] at usable
  exact ⟨answer, asked, cut, sources, usable⟩

theorem AsksFamily.sublist {ledger : Ledger} {entity : Nat} {turn : List Inquiry}
    (h : ledger.AsksFamily entity turn) :
    (turn.map Inquiry.source).Sublist (ledger.isolation.family entity) := by
  obtain ⟨answer, asked, rfl, sources, -⟩ := h
  exact sources.sublist.cons_cons entity

theorem gatherChildren_asks (ledger : Ledger) (time : Nat) (children : List Nat)
    (logged : Logged μ) :
    ∃ asked, (ledger.gatherChildren time children logged).2.log = logged.log ++ asked ∧
      asked.map Inquiry.source <+: children ∧
      ∀ parts, (ledger.gatherChildren time children logged).1 = .ok parts →
        (parts.map Contribution.source).Sublist (asked.map Inquiry.source) := by
  induction children generalizing logged with
  | nil =>
    refine ⟨[], by simp [gatherChildren], List.prefix_rfl, ?_⟩
    intro parts result
    cases result
    exact .slnil
  | cons child rest ih =>
    have first := logged.log_readGain child time
    rw [gatherChildren]
    generalize Meter.readGain logged child time = reading at first ⊢
    obtain ⟨answer, next⟩ := reading
    obtain ⟨asked, log, sources, counted⟩ := ih next
    simp only at first
    rw [first, List.append_assoc, List.singleton_append] at log
    have order : child :: asked.map Inquiry.source <+: child :: rest :=
      (List.prefix_cons_inj child).mpr sources
    cases answer with
    | none => exact ⟨⟨child, none⟩ :: asked, log, order, fun parts result =>
        (counted parts result).cons child⟩
    | some gain =>
      simp only
      cases ledger.store.checkWidth child gain with
      | error fault =>
        refine ⟨[⟨child, some gain⟩], first, ?_, fun parts result => by cases result⟩
        exact (List.prefix_cons_inj child).mpr List.nil_prefix
      | ok _ =>
        generalize ledger.gatherChildren time rest next = gathered at log counted ⊢
        obtain ⟨others, last⟩ := gathered
        refine ⟨⟨child, some gain⟩ :: asked, ?_, order, ?_⟩
        · cases others <;> exact log
        · intro parts result
          cases others with
          | error fault => cases result
          | ok others =>
            cases result
            rw [List.map_cons, source_contribution]
            exact (counted others rfl).cons_cons child

theorem gather_asks (ledger : Ledger) (time entity : Nat) (logged : Logged μ) :
    ∃ turn, (ledger.gather logged entity time).2.log = logged.log ++ turn ∧
      ledger.AsksFamily entity turn ∧
      ∀ parts, (ledger.gather logged entity time).1 = .complete parts →
        (parts.map Contribution.source).Sublist (turn.map Inquiry.source) := by
  have first := logged.log_readGain entity time
  rw [gather]
  generalize Meter.readGain logged entity time = reading at first ⊢
  obtain ⟨answer, next⟩ := reading
  simp only at first
  have alone (answer : Option Measure) : ledger.AsksFamily entity [⟨entity, answer⟩] :=
    ⟨answer, [], rfl, List.nil_prefix, fun more => absurd rfl more⟩
  cases answer with
  | none => exact ⟨_, first, alone none, fun parts result => by cases result⟩
  | some gain =>
    simp only
    cases check : ledger.store.checkWidth entity gain with
    | error fault => exact ⟨_, first, alone (some gain), fun parts result => by cases result⟩
    | ok _ =>
      have right : gain.length = ledger.vectorLen := Store.checkWidth_eq_ok_iff.mp check
      obtain ⟨asked, log, sources, counted⟩ :=
        ledger.gatherChildren_asks time (ledger.isolation.childrenOf entity) next
      rw [first, List.append_assoc, List.singleton_append] at log
      simp only
      generalize ledger.gatherChildren time _ next = gathered at log counted ⊢
      obtain ⟨others, last⟩ := gathered
      refine ⟨⟨entity, some gain⟩ :: asked, ?_, ⟨_, asked, rfl, sources, fun _ => ⟨gain, rfl, right⟩⟩,
        ?_⟩
      · cases others <;> exact log
      · intro parts result
        cases others with
        | error fault => cases result
        | ok others =>
          cases result
          rw [List.map_cons, source_contribution]
          exact (counted others rfl).cons_cons entity

theorem Commits.concat {share : Nat → List Contribution} {before middle after : Ledger}
    {entities : List Nat} {entity : Nat} (h : Commits share before entities middle)
    (done : middle.commit entity (share entity) = .ok after) :
    Commits share before (entities ++ [entity]) after := by
  induction h with
  | nil ledger => exact .cons done (.nil after)
  | cons first _ ih => exact .cons first (ih done)

/-- What the entity and its isolated entities contribute to an update, if they do. -/
def shareIn (ledger : Ledger) (path : Path) (meter : μ) (time entity : Nat) : List Contribution :=
  (ledger.share? path meter time entity).getD []

/-- The sources of the shares, entity by entity. -/
def countedSources (share : Nat → List Contribution) (entities : List Nat) : List Nat :=
  entities.flatMap fun entity => (share entity).map Contribution.source

/-- What a tick counts for an entity is what is gathered in its turn. -/
theorem shareIn_of_gather {ledger : Ledger} {meter : μ} {time entity : Nat} {early late : List Nat}
    (split : ledger.targets = early ++ entity :: late) {parts : List Contribution}
    (gathered : let round := early.foldl (Round.tickEntity time) { ledger, meter }
      (round.ledger.gather round.meter entity time).1 = .complete parts) :
    ledger.shareIn .tick meter time entity = parts := by
  have fresh : ∀ other ∈ early, decide (other ≠ entity) = true := by
    intro other mem
    have distinct := ledger.targets_nodup
    rw [split] at distinct
    exact decide_eq_true ((List.nodup_append.mp distinct).2.2 other mem entity List.mem_cons_self)
  have turn : ledger.turnOf meter time entity =
      early.foldl (Round.tickEntity time) { ledger, meter } := by
    rw [turnOf, split, List.takeWhile_append_of_pos fresh, List.takeWhile_cons_of_neg (by simp),
      List.append_nil]
  rw [shareIn, share?, turn]
  simp only [gathered, Option.getD_some]

/-- What a tick has asked for and counted that took up these entities, each once. -/
structure Asked (ledger : Ledger) (meter : Logged μ) (time : Nat) (done : List Nat)
    (round : Round (Logged μ)) : Prop where
  turns : ∃ turns, round.meter.log = meter.log ++ turns.flatten ∧
    List.Forall₂ ledger.AsksFamily done turns
  counted : (countedSources (ledger.shareIn .tick meter time) round.report.updated).Sublist
    (round.meter.log.map Inquiry.source)
  commits : Commits (ledger.shareIn .tick meter time) ledger round.report.updated round.ledger
  scene : ledger.SameScene round.ledger

theorem asked_of_targets (ledger : Ledger) (meter : Logged μ) (time : Nat) (done : List Nat)
    (early : done <+: ledger.targets) :
    ledger.Asked meter time done (done.foldl (Round.tickEntity time) { ledger, meter }) := by
  induction done using List.reverseRecOn with
  | nil => exact ⟨⟨[], by simp, .nil⟩, List.nil_sublist _, .nil ledger, .refl ledger⟩
  | append_singleton done entity ih =>
    obtain ⟨late, split⟩ := early
    rw [List.append_assoc, List.singleton_append] at split
    have before := ih ⟨_, split⟩
    have shares := @shareIn_of_gather _ _ ledger meter time entity done late split.symm
    rw [List.foldl_append, List.foldl_cons, List.foldl_nil]
    generalize done.foldl (Round.tickEntity time) { ledger, meter } = round at before shares ⊢
    obtain ⟨turns, log, families⟩ := before.turns
    obtain ⟨turn, log', family, sources⟩ := round.ledger.gather_asks time entity round.meter
    rw [← Round.meter_tickEntity] at log'
    obtain ⟨outcome, took, gathered⟩ := round.turn_tickEntity time entity
    refine ⟨⟨turns ++ [turn], ?_, ?_⟩, ?_, ?_, before.scene.trans took.sameScene⟩
    · rw [log', log, List.flatten_append, List.flatten_singleton, List.append_assoc]
    · exact List.rel_append families (.cons (family.congr before.scene) .nil)
    · rw [log', List.map_append]
      cases took with
      | passed _ updated =>
        rw [updated]
        exact before.counted.trans (List.sublist_append_left _ _)
      | @settled parts _ updated =>
        have complete := gathered parts rfl
        rw [updated, countedSources, List.flatMap_append, List.flatMap_singleton, shares complete]
        exact before.counted.append (sources parts complete)
    · cases took with
      | passed same updated =>
        rw [same, updated]
        exact before.commits
      | @settled parts committed updated =>
        rw [updated]
        rw [← shares (gathered parts rfl)] at committed
        exact before.commits.concat committed

theorem flatten_sublist {ledger : Ledger} {entities : List Nat} {turns : List (List Inquiry)}
    (families : List.Forall₂ ledger.AsksFamily entities turns) :
    (turns.flatten.map Inquiry.source).Sublist (entities.flatMap ledger.isolation.family) := by
  induction families with
  | nil => exact .slnil
  | cons first _ ih =>
    rw [List.flatten_cons, List.map_append, List.flatMap_cons]
    exact first.sublist.append ih

theorem exists_turn {ledger : Ledger} {entities : List Nat} {turns : List (List Inquiry)}
    (families : List.Forall₂ ledger.AsksFamily entities turns) :
    (∀ entity ∈ entities, ∃ turn ∈ turns, ledger.AsksFamily entity turn) ∧
      ∀ turn ∈ turns, ∃ entity ∈ entities, ledger.AsksFamily entity turn := by
  induction families with
  | nil => simp
  | cons first _ ih =>
    simp only [List.forall_mem_cons, List.exists_mem_cons_iff]
    exact ⟨⟨.inl first, fun entity mem => .inr (ih.1 entity mem)⟩,
      .inl first, fun turn mem => .inr (ih.2 turn mem)⟩

/-- Whoever is asked in the turn of an entity is the entity itself or isolated under it, and in that
case the entity has shown a gain of the right width. -/
theorem AsksFamily.source_cases {ledger : Ledger} {entity : Nat} {turn : List Inquiry}
    (h : ledger.AsksFamily entity turn) {source : Nat} (mem : source ∈ turn.map Inquiry.source) :
    source = entity ∨ ledger.isolation.parentOf source = some entity ∧
      ∃ gain, ⟨entity, some gain⟩ ∈ turn ∧ gain.length = ledger.vectorLen := by
  obtain ⟨answer, asked, rfl, sources, usable⟩ := h
  rcases List.mem_cons.mp mem with same | child
  · exact .inl same
  · have some : asked ≠ [] := by
      rintro rfl
      cases child
    obtain ⟨gain, rfl, width⟩ := usable some
    have parent := (ledger.isolation.mem_childrenOf entity source).mp (sources.mem child)
    exact .inr ⟨parent, gain, List.mem_cons_self, width⟩

/-- No source belongs to two families. -/
theorem Consistent.families_nodup {ledger : Ledger} (h : ledger.Consistent) :
    (ledger.standing.keys.flatMap ledger.isolation.family).Nodup := by
  have own : ∀ entity ∈ ledger.standing.keys, ¬ ledger.isolation.IsChild entity :=
    fun entity mem => h.known entity ((Table.mem_keys _ _).mp mem)
  apply List.nodup_flatMap.mpr
  refine ⟨fun entity mem => Isolation.family_nodup (own entity mem), ?_⟩
  apply (Table.keys_nodup ledger.standing).imp_of_mem
  intro entity other mem mem' ne source inside
  exact Isolation.not_mem_family_of_ne (own other mem') (own entity mem) ne inside

/-- Logging the gains changes nothing of what is counted. -/
theorem shareIn_logged (ledger : Ledger) (meter : Logged μ) (time entity : Nat) :
    ledger.shareIn .tick meter time entity = ledger.shareIn .tick meter.meter time entity := by
  have turn : (ledger.turnOf meter time entity).mapMeter Logged.meter =
      ledger.turnOf meter.meter time entity :=
    (List.foldl_hom (Round.mapMeter Logged.meter) fun round entity =>
      (Logged.isHom_meter.tickEntity time round entity).symm).symm
  have gathered := Logged.isHom_meter.gather (ledger.turnOf meter time entity).ledger
    (ledger.turnOf meter time entity).meter entity time
  rw [shareIn, shareIn, share?, share?, ← turn]
  simp only [Round.mapMeter, ← gathered]
  rfl

theorem countedSources_copyAll (ledger : Ledger) (levels : Table Measure) :
    countedSources (shareOf (ledger.assigned levels))
        (recipients (ledger.assigned levels) (ledger.spoiled levels)) =
      (ledger.creditedReadings levels).map Reading.source := by
  rw [countedSources, creditedReadings, List.map_flatMap]
  apply List.flatMap_congr
  intro entity _
  rw [shareOf_assigned, List.map_map]
  rfl

theorem copyAll_counts (ledger : Ledger) (meter : μ) (time : Nat) :
    let round := ledger.copyAll meter time
    let share := ledger.shareIn .copyAll meter time
    (∃ baselines, Commits share (ledger.withBulk baselines) round.report.updated round.ledger) ∧
      (countedSources share round.report.updated).Nodup := by
  rcases shown : Meter.readAll meter with ⟨_ | levels, after⟩
  · have unread : ledger.copyAll meter time =
        { ledger, meter := after, report := { bulkUnavailable := true } } := by
      rw [copyAll, shown]
    rw [unread]
    exact ⟨⟨ledger.bulkBaselines, .nil ledger⟩, List.nodup_nil⟩
  · have share : ledger.shareIn .copyAll meter time = shareOf (ledger.assigned levels) := by
      funext entity
      rw [shareIn, share?, shown]
      rfl
    have updated := congrArg Report.updated (ledger.report_copyAll shown time)
    simp only [share, updated, countedSources_copyAll]
    exact ⟨⟨_, ledger.commits_copyAll shown time⟩, ledger.creditedReadings_distinct levels⟩

/-- In one update no source is asked or counted twice. A tick asks every known entity, and somebody
isolated only in the turn of its parent, once that has shown a gain of the right width. What an
update credits, on either path, comes from distinct sources. -/
theorem Reachable.asks_once {ledger : Ledger} (reachable : ledger.Reachable) (meter : μ)
    (time : Nat) :
    let round := ledger.tick (Logged.mk meter []) time
    let asked := round.meter.log.map Inquiry.source
    round.mapMeter Logged.meter = ledger.tick meter time ∧
    (∀ source, asked.count source ≤ 1) ∧
    (∀ entity ∈ ledger.standing, asked.count entity = 1) ∧
    (∃ turns, round.meter.log = turns.flatten ∧
      List.Forall₂ ledger.AsksFamily ledger.standing.keys turns) ∧
    (∀ source ∈ asked, source ∉ ledger.standing →
      ∃ parent ∈ ledger.isolation.parentOf source, parent ∈ ledger.standing ∧
        ∃ gain, ⟨parent, some gain⟩ ∈ round.meter.log ∧ gain.length = ledger.vectorLen) ∧
    ∀ path, let after := ledger.update path meter time
      let share := ledger.shareIn path meter time
      (∃ baselines, Commits share (ledger.withBulk baselines) after.report.updated after.ledger) ∧
        (countedSources share after.report.updated).Nodup := by
  intro round asked
  have consistent := reachable.consistent
  have same : round.mapMeter Logged.meter = ledger.tick meter time :=
    Logged.isHom_meter.tick ledger (Logged.mk meter []) time
  have whole := ledger.asked_of_targets (Logged.mk meter []) time ledger.targets List.prefix_rfl
  have here : ledger.targets.foldl (Round.tickEntity time)
      { ledger, meter := Logged.mk meter [] } = round := rfl
  rw [here] at whole
  obtain ⟨turns, log, families⟩ := whole.turns
  rw [consistent.targets_eq] at families
  obtain ⟨taken, given⟩ := exists_turn families
  have sources : asked = turns.flatten.map Inquiry.source := congrArg _ log
  have once : asked.Nodup := by
    rw [sources]
    exact consistent.families_nodup.sublist (flatten_sublist families)
  refine ⟨same, List.nodup_iff_count_le_one.mp once, ?_, ⟨turns, log, families⟩, ?_, ?_⟩
  · intro entity known
    obtain ⟨turn, mem, answer, others, rfl, -⟩ :=
      taken entity ((Table.mem_keys _ _).mpr known)
    apply List.count_eq_one_of_mem once
    rw [sources]
    exact List.mem_map_of_mem (List.mem_flatten_of_mem mem List.mem_cons_self)
  · intro source mem unknown
    rw [sources, List.mem_map] at mem
    obtain ⟨inquiry, listed, rfl⟩ := mem
    obtain ⟨turn, mem, inside⟩ := List.mem_flatten.mp listed
    obtain ⟨entity, known, family⟩ := given turn mem
    rw [Table.mem_keys] at known
    rcases family.source_cases (List.mem_map_of_mem inside) with rfl | ⟨parent, gain, shown, width⟩
    · exact absurd known unknown
    · refine ⟨entity, parent, known, gain, ?_, width⟩
      rw [log]
      exact List.mem_flatten_of_mem mem shown
  · intro path
    cases path with
    | copyAll => exact ledger.copyAll_counts meter time
    | tick =>
      have share : ledger.shareIn .tick (Logged.mk meter []) time = ledger.shareIn .tick meter time :=
        funext fun entity => ledger.shareIn_logged _ time entity
      have books : round.ledger = (ledger.tick meter time).ledger := congrArg Round.ledger same
      have updated : round.report.updated = (ledger.tick meter time).report.updated :=
        congrArg (fun round => round.report.updated) same
      have commits := whole.commits
      have counted := whole.counted
      rw [share, updated] at commits counted
      rw [books] at commits
      exact ⟨⟨ledger.bulkBaselines, commits⟩, once.sublist counted⟩

/-- One of the isolated entities was moved, and a whole-system reading made entity 8 known. -/
def households : List (Call ScriptedMeter) :=
  [.notice (.classify 1 .top), .notice (.classify 4 .cached), .notice (.classify 6 .top),
    .notice (.isolate 4 2), .notice (.isolate 1 2), .notice (.isolate 1 3), .notice (.isolate 1 9),
    .notice (.isolate 4 5), .notice (.isolate 6 7), .notice (.isolate 8 10),
    .meter { bulk := some ((∅ : Table Measure).insert 8 [1, 1]) }, .update .copyAll 10]

/-- Entities 2 and 6 show nothing, and entities 4 and 9 show levels of the wrong width. -/
def shownToHouseholds : ScriptedMeter where
  levels := [(1, [5, 5]), (3, [2, 2]), (4, [7]), (5, [1, 1]), (7, [3, 3]), (8, [2, 2]), (9, [1]),
    (10, [4, 0])].foldl (fun levels (source, level) => levels.insert source level) ∅

theorem Reachable.asks_once_households :
    let ledger := (Session.blank.run households).ledger
    let round := ledger.tick (Logged.mk shownToHouseholds []) 20
    let asked := round.meter.log.map Inquiry.source
    ledger.Reachable ∧ asked = [1, 2, 3, 9, 4, 6, 8, 10] ∧ (∀ source, asked.count source ≤ 1) ∧
      8 ∈ ledger.standing ∧ asked.count 8 = 1 ∧ 9 ∉ ledger.standing ∧
      (∃ parent ∈ ledger.isolation.parentOf 9, parent ∈ ledger.standing ∧
        ∃ gain, ⟨parent, some gain⟩ ∈ round.meter.log ∧ gain.length = ledger.vectorLen) ∧
      (countedSources (ledger.shareIn .tick shownToHouseholds 20)
        (ledger.update .tick shownToHouseholds 20).report.updated).Nodup := by
  have new : Ledger.new { vectorLen := 2 } = .ok Session.blank.ledger := rfl
  have reachable : (Session.blank.run households).ledger.Reachable :=
    ⟨ScriptedMeter, _, _, Session.blank, households, new, rfl⟩
  have known : 8 ∈ (Session.blank.run households).ledger.standing := by decide +kernel
  have unknown : 9 ∉ (Session.blank.run households).ledger.standing := by decide +kernel
  have sources : ((Session.blank.run households).ledger.tick (Logged.mk shownToHouseholds [])
      20).meter.log.map Inquiry.source = [1, 2, 3, 9, 4, 6, 8, 10] := by decide +kernel
  obtain ⟨-, once, own, -, isolated, counted⟩ := reachable.asks_once shownToHouseholds 20
  have child := isolated 9 (sources ▸ by decide) unknown
  exact ⟨reachable, sources, once, known, own 8 known, unknown, child, (counted .tick).2⟩

end Ledger

end UsageLedger
