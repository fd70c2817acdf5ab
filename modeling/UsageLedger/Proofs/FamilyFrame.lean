import UsageLedger.Proofs.Reachable

/-!
Families apart. An update touches the books of a family in the turn of its head only, and what this
turn does depends on nothing but the family. Two ledgers that agree on a family stay so, whatever
all other entities hold and show.
-/

namespace UsageLedger

namespace Isolation

theorem mem_family_iff {isolation : Isolation} {entity : Nat}
    (apart : ¬ isolation.IsChild entity) (source : Nat) :
    source ∈ isolation.family entity ↔ isolation.ownerOf source = entity := by
  refine ⟨ownerOf_of_mem_family apart, fun owner => ?_⟩
  unfold ownerOf at owner
  cases parent : isolation.parentOf source with
  | none =>
    rw [parent] at owner
    exact owner ▸ List.mem_cons_self
  | some parent' =>
    rw [parent] at owner
    have own : parent' = entity := owner
    exact List.mem_cons_of_mem _ ((isolation.mem_childrenOf entity source).mpr (own ▸ parent))

theorem not_mem_family_of_ne {isolation : Isolation} {entity other source : Nat}
    (apart : ¬ isolation.IsChild entity) (apart' : ¬ isolation.IsChild other)
    (ne : other ≠ entity) (mem : source ∈ isolation.family other) :
    source ∉ isolation.family entity := by
  intro mem'
  have owner := ownerOf_of_mem_family apart mem'
  rw [ownerOf_of_mem_family apart' mem] at owner
  exact ne owner

end Isolation

/-- Readings of the sources from related meters, one at each of the two times, gain the same and
leave the meters related. -/
structure Matches {μ ν : Type} [Meter μ] [Meter ν] (R : μ → ν → Prop) (sources : List Nat)
    (time time' : Nat) : Prop where
  gain {meter : μ} {other : ν} (related : R meter other) {source : Nat} (mem : source ∈ sources) :
    (Meter.readGain meter source time).1 = (Meter.readGain other source time').1
  last {meter : μ} {other : ν} (related : R meter other) {source : Nat} (mem : source ∈ sources)
    (read : (Meter.readGain meter source time).1 ≠ none) :
    (Gauge.baselines (Meter.readGain meter source time).2).last? source =
      (Gauge.baselines (Meter.readGain other source time').2).last? source
  related {meter : μ} {other : ν} (related : R meter other) {source : Nat}
    (mem : source ∈ sources) :
    R (Meter.readGain meter source time).2 (Meter.readGain other source time').2

theorem Matches.refl {μ : Type} [Meter μ] (sources : List Nat) (time : Nat) :
    Matches (fun meter other : μ => meter = other) sources time time where
  gain same _ _ := by rw [same]
  last same _ _ _ := by rw [same]
  related same _ _ := by rw [same]

namespace Ledger

section Gather

variable {μ ν : Type} [Meter μ] [Meter ν] {R : μ → ν → Prop} {first second : Ledger}
  {time time' : Nat}

theorem readGain_congr {sources : List Nat} (matching : Matches R sources time time')
    {source : Nat} (mem : source ∈ sources)
    (accounted : first.accounted.get? source = second.accounted.get? source) {meter : μ}
    {other : ν} (related : R meter other) :
    ∃ gained after after', Meter.readGain meter source time = (gained, after) ∧
      Meter.readGain other source time' = (gained, after') ∧ R after after' ∧
      ∀ gain, gained = some gain →
        first.contribution after source gain = second.contribution after' source gain := by
  refine ⟨(Meter.readGain meter source time).1, (Meter.readGain meter source time).2,
    (Meter.readGain other source time').2, rfl, Prod.ext (matching.gain related mem).symm rfl,
    matching.related related mem, fun gain read => ?_⟩
  have last := matching.last related mem (by rw [read]; exact Option.some_ne_none gain)
  unfold contribution unaccounted
  rw [last, accounted]

theorem gatherChildren_congr (width : first.store.width = second.store.width)
    {sources children : List Nat} (matching : Matches R sources time time')
    (family : ∀ child ∈ children, child ∈ sources)
    (accounted : ∀ source ∈ sources,
      first.accounted.get? source = second.accounted.get? source)
    {meter : μ} {other : ν} (related : R meter other) :
    ∃ gathered after after', first.gatherChildren time children meter = (gathered, after) ∧
      second.gatherChildren time' children other = (gathered, after') ∧ R after after' := by
  induction children generalizing meter other with
  | nil => exact ⟨_, meter, other, rfl, rfl, related⟩
  | cons child rest ih =>
    obtain ⟨mem, later⟩ := List.forall_mem_cons.mp family
    obtain ⟨gained, after, after', read, read', related, part⟩ :=
      readGain_congr matching mem (accounted child mem) related
    obtain ⟨gathered, final, final', result, result', still⟩ := ih later related
    rw [gatherChildren, gatherChildren, read, read']
    cases gained with
    | none => exact ⟨gathered, final, final', result, result', still⟩
    | some gain =>
      simp only [Store.checkWidth, width, part gain rfl, result, result']
      by_cases right : gain.length = second.store.width
      · rw [if_pos right]
        cases gathered with
        | error fault => exact ⟨_, final, final', rfl, rfl, still⟩
        | ok parts => exact ⟨_, final, final', rfl, rfl, still⟩
      · rw [if_neg right]
        exact ⟨_, after, after', rfl, rfl, related⟩

/-- What reading a family comes to depends on the family's accounted levels and readings only. -/
theorem gather_congr (width : first.store.width = second.store.width)
    (isolation : first.isolation = second.isolation) {entity : Nat}
    (matching : Matches R (first.isolation.family entity) time time')
    (accounted : ∀ source ∈ first.isolation.family entity,
      first.accounted.get? source = second.accounted.get? source)
    {meter : μ} {other : ν} (related : R meter other) :
    ∃ gathered after after', first.gather meter entity time = (gathered, after) ∧
      second.gather other entity time' = (gathered, after') ∧ R after after' := by
  have head : entity ∈ first.isolation.family entity := List.mem_cons_self
  obtain ⟨gained, after, after', read, read', related, part⟩ :=
    readGain_congr matching head (accounted entity head) related
  obtain ⟨gathered, final, final', result, result', still⟩ :=
    gatherChildren_congr width matching (fun _ => List.mem_cons_of_mem entity) accounted related
  rw [gather, gather, read, read', ← isolation]
  cases gained with
  | none => exact ⟨_, after, after', rfl, rfl, related⟩
  | some gain =>
    simp only [Store.checkWidth, width, part gain rfl, result, result']
    by_cases right : gain.length = second.store.width
    · rw [if_pos right]
      cases gathered with
      | error fault => exact ⟨_, final, final', rfl, rfl, still⟩
      | ok parts => exact ⟨_, final, final', rfl, rfl, still⟩
    · rw [if_neg right]
      exact ⟨_, after, after', rfl, rfl, related⟩

theorem matches_of_kept {P : μ → Prop} {sources : List Nat}
    (kept : ∀ meter, P meter → ∀ source ∈ sources, P (Meter.readGain meter source time).2) :
    Matches (fun meter other : μ => P meter ∧ meter = other) sources time time := by
  refine ⟨?_, ?_, ?_⟩
  · rintro meter _ ⟨-, rfl⟩ source -
    rfl
  · rintro meter _ ⟨-, rfl⟩ source - -
    rfl
  · rintro meter _ ⟨holds, rfl⟩ source mem
    exact ⟨kept meter holds source mem, rfl⟩

theorem gatherChildren_preserves {P : μ → Prop} (ledger : Ledger) {children : List Nat}
    (kept : ∀ meter, P meter → ∀ source ∈ children, P (Meter.readGain meter source time).2)
    {meter : μ} (holds : P meter) : P (ledger.gatherChildren time children meter).2 := by
  have width : ledger.store.width = ledger.store.width := rfl
  obtain ⟨gathered, after, after', result, -, holds, -⟩ :=
    gatherChildren_congr width (matches_of_kept kept) (fun _ mem => mem) (fun _ _ => rfl)
      ⟨holds, rfl⟩
  rw [result]
  exact holds

/-- What every reading of the family keeps is kept by reading the family. -/
theorem gather_preserves {P : μ → Prop} (ledger : Ledger) {entity : Nat}
    (kept : ∀ meter, P meter → ∀ source ∈ ledger.isolation.family entity,
      P (Meter.readGain meter source time).2)
    {meter : μ} (holds : P meter) : P (ledger.gather meter entity time).2 := by
  have width : ledger.store.width = ledger.store.width := rfl
  have isolation : ledger.isolation = ledger.isolation := rfl
  obtain ⟨gathered, after, after', result, -, holds, -⟩ :=
    gather_congr width isolation (matches_of_kept kept) (fun _ _ => rfl) ⟨holds, rfl⟩
  rw [result]
  exact holds

theorem source_contribution (ledger : Ledger) (meter : μ) (source : Nat) (gain : Measure) :
    (ledger.contribution meter source gain).source = source := by
  unfold contribution
  split <;> rfl

theorem length_contribution (ledger : Ledger) (meter : μ) (source : Nat) (gain : Measure) :
    (ledger.contribution meter source gain).gain.length = gain.length := by
  unfold contribution
  split
  · exact ledger.length_unaccounted _ _ _
  · rfl

/-- What is read of isolated entities comes in their order, once at most of each, and in the right
width. -/
theorem gatherChildren_parts {ledger : Ledger} {children : List Nat} {meter after : μ}
    {parts : List Contribution}
    (result : ledger.gatherChildren time children meter = (.ok parts, after)) :
    (parts.map Contribution.source).Sublist children ∧
      ∀ part ∈ parts, part.gain.length = ledger.store.width := by
  induction children generalizing meter parts with
  | nil =>
    cases result
    simp
  | cons child rest ih =>
    rw [gatherChildren] at result
    split at result
    · obtain ⟨sources, widths⟩ := ih result
      exact ⟨sources.cons child, widths⟩
    next gain middle _ =>
      split at result
      · cases result
      next right =>
        simp only at result
        split at result
        · cases result
        next others _ tail =>
          cases result
          obtain ⟨sources, widths⟩ := ih tail
          rw [List.map_cons, source_contribution, List.forall_mem_cons, length_contribution]
          exact ⟨sources.cons_cons child, Store.checkWidth_eq_ok_iff.mp right, widths⟩

/-- To read a family is to read its members in turn, unless there is nothing to read of the entity
itself. -/
theorem gather_eq (ledger : Ledger) (meter : μ) (entity : Nat) :
    ledger.gather meter entity time =
      match Meter.readGain meter entity time with
      | (none, after) => (.unavailable, after)
      | (some gain, _) =>
        match ledger.gatherChildren time (ledger.isolation.family entity) meter with
        | (.ok parts, after) => (.complete parts, after)
        | (.error fault, after) =>
          (.failed (if gain.length = ledger.store.width then .merging else .computingDeltas) fault,
            after) := by
  rw [gather, Isolation.family, gatherChildren]
  rcases Meter.readGain meter entity time with ⟨gained, middle⟩
  cases gained with
  | none => rfl
  | some gain =>
    cases check : ledger.store.checkWidth entity gain with
    | error fault =>
      have wrong := (Store.checkWidth_eq_error_iff.mp check).1
      simp only [check, if_neg wrong]
    | ok _ =>
      have right := Store.checkWidth_eq_ok_iff.mp check
      rcases gathered : ledger.gatherChildren time (ledger.isolation.childrenOf entity) middle with
        ⟨others, after⟩
      simp only [check, gathered, if_pos right]
      cases others <;> rfl

theorem gather_parts {ledger : Ledger} {entity : Nat} {meter : μ} {parts : List Contribution}
    (result : (ledger.gather meter entity time).1 = .complete parts) :
    (parts.map Contribution.source).Sublist (ledger.isolation.family entity) ∧
      ∀ part ∈ parts, part.gain.length = ledger.store.width := by
  rw [gather_eq] at result
  split at result
  · cases result
  · split at result
    next others _ gathered =>
      cases result
      exact gatherChildren_parts gathered
    next => cases result

theorem gather_sources {ledger : Ledger} {entity : Nat} {meter : μ} {parts : List Contribution}
    (result : (ledger.gather meter entity time).1 = .complete parts) :
    ∀ part ∈ parts, part.source ∈ ledger.isolation.family entity :=
  fun _ mem => (gather_parts result).1.mem (List.mem_map_of_mem mem)

end Gather

/-- The two ledgers have the same width, time base and isolated entities, and hold the same of each
of the sources. -/
structure AgreeOn (sources : List Nat) (first second : Ledger) : Prop where
  width : first.store.width = second.store.width
  timeBase : first.timeBase = second.timeBase
  isolation : first.isolation = second.isolation
  cells : ∀ source ∈ sources, ∀ row column,
    first.store.cell? source row column = second.store.cell? source row column
  states : ∀ source ∈ sources, first.stateOf source = second.stateOf source
  pending : ∀ source ∈ sources, first.pending.get? source = second.pending.get? source
  accounted : ∀ source ∈ sources, first.accounted.get? source = second.accounted.get? source
  bulk : ∀ source ∈ sources,
    first.bulkBaselines.samples.get? source = second.bulkBaselines.samples.get? source

theorem AgreeOn.refl (sources : List Nat) (ledger : Ledger) : AgreeOn sources ledger ledger :=
  ⟨rfl, rfl, rfl, fun _ _ _ _ => rfl, fun _ _ => rfl, fun _ _ => rfl, fun _ _ => rfl,
    fun _ _ => rfl⟩

section AgreeOn

variable {sources : List Nat} {first second third : Ledger}

theorem AgreeOn.symm (h : AgreeOn sources first second) : AgreeOn sources second first :=
  ⟨h.width.symm, h.timeBase.symm, h.isolation.symm,
    fun source mem row column => (h.cells source mem row column).symm,
    fun source mem => (h.states source mem).symm, fun source mem => (h.pending source mem).symm,
    fun source mem => (h.accounted source mem).symm, fun source mem => (h.bulk source mem).symm⟩

theorem AgreeOn.trans (h : AgreeOn sources first second) (h' : AgreeOn sources second third) :
    AgreeOn sources first third where
  width := h.width.trans h'.width
  timeBase := h.timeBase.trans h'.timeBase
  isolation := h.isolation.trans h'.isolation
  cells source mem row column :=
    (h.cells source mem row column).trans (h'.cells source mem row column)
  states source mem := (h.states source mem).trans (h'.states source mem)
  pending source mem := (h.pending source mem).trans (h'.pending source mem)
  accounted source mem := (h.accounted source mem).trans (h'.accounted source mem)
  bulk source mem := (h.bulk source mem).trans (h'.bulk source mem)

theorem AgreeOn.nextState (h : AgreeOn sources first second) {entity : Nat}
    (mem : entity ∈ sources) : first.nextState entity = second.nextState entity := by
  unfold Ledger.nextState
  rw [h.pending entity mem, h.states entity mem]

theorem AgreeOn.bulkLast (h : AgreeOn sources first second) {source : Nat}
    (mem : source ∈ sources) :
    first.bulkBaselines.last? source = second.bulkBaselines.last? source := by
  unfold Baselines.last?
  rw [h.bulk source mem]

end AgreeOn

section Commit

variable {before after : Ledger} {entity : Nat} {parts : List Contribution}

/-- A commit goes through if the merged usage has the right width. -/
theorem commit_cases (ledger : Ledger) (entity : Nat) (parts : List Contribution) :
    (ledger.merged parts).length = ledger.store.width ∧
        (∃ after, ledger.commit entity parts = .ok after) ∨
      (ledger.merged parts).length ≠ ledger.store.width ∧ ledger.commit entity parts =
        .error (.width entity ledger.store.width (ledger.merged parts).length) := by
  by_cases width : (ledger.merged parts).length = ledger.store.width
  · obtain ⟨store, changed, recorded⟩ := ledger.store.record_isOk entity (ledger.targetSlot entity)
      ledger.timeBase.screenOffActive width
    refine .inl ⟨width, ?_⟩
    simp only [commit, recorded]
    exact ⟨_, rfl⟩
  · have refused : ledger.store.record entity (ledger.targetSlot entity)
        ledger.timeBase.screenOffActive (ledger.merged parts) =
        .error (.width entity ledger.store.width (ledger.merged parts).length) := by
      unfold Store.record Store.checkWidth
      rw [if_neg width]
    refine .inr ⟨width, ?_⟩
    simp only [commit, refused]

/-- A commit leaves its entity with the state that its usage went to. -/
theorem stateOf_commit (done : before.commit entity parts = .ok after) (other : Nat) :
    after.stateOf other =
      if other = entity then before.nextState entity else before.stateOf other := by
  have next := nextState_commit done other
  obtain ⟨store, changed, -, rfl⟩ := commit_eq_ok done
  by_cases same : other = entity
  · subst same
    rw [if_pos rfl, ← next, nextState, Table.get?_erase, if_pos rfl]
    rfl
  · rw [if_neg same]
    unfold stateOf
    cases before.targetSlot entity with
    | known state => simp only [Table.get?_insert_of_ne _ _ same]
    | unknown => simp only [Table.get?_insertIfNew, if_neg same, Option.or_none]

theorem get?_account_congr {table other : Table Measure} {source : Nat}
    (same : table.get? source = other.get? source) (parts : List Contribution) :
    (account table parts).get? source = (account other parts).get? source := by
  induction parts generalizing table other with
  | nil => exact same
  | cons part parts ih =>
    cases level? : part.level with
    | none =>
      rw [account_cons_of_none level?, account_cons_of_none level?]
      exact ih same
    | some level =>
      rw [account_cons_of_some level?, account_cons_of_some level?]
      apply ih
      rw [Table.get?_insert, Table.get?_insert, same]

/-- A commit touches nothing but its entity and the sources of its parts. -/
theorem agreeOn_of_commit {sources : List Nat} (done : before.commit entity parts = .ok after)
    (own : entity ∉ sources) (apart : ∀ part ∈ parts, part.source ∉ sources) :
    AgreeOn sources before after := by
  have scene := sameScene_commit done
  have ne {source : Nat} (mem : source ∈ sources) : source ≠ entity := fun same => own (same ▸ mem)
  refine ⟨scene.width.symm, scene.timeBase.symm, scene.isolation.symm, ?_, ?_, ?_, ?_, ?_⟩
  · intro source mem row column
    rw [cell?_commit done, if_neg fun here => ne mem here.1]
  · intro source mem
    rw [stateOf_commit done, if_neg (ne mem)]
  · intro source mem
    rw [(committed_of_commit done).pending, Table.get?_erase, if_neg (ne mem)]
  · intro source mem
    rw [(committed_of_commit done).accounted, get?_account_of_not_mem]
    exact fun part part_mem same => apart part part_mem (same ▸ mem)
  · intro source mem
    rw [(committed_of_commit done).bulkBaselines]

/-- Ledgers that agree on an entity agree after the same commit for it. -/
theorem AgreeOn.commit {sources : List Nat} {other after' : Ledger}
    (h : AgreeOn sources before other) (mem : entity ∈ sources)
    (done : before.commit entity parts = .ok after)
    (done' : other.commit entity parts = .ok after') : AgreeOn sources after after' := by
  have scene := sameScene_commit done
  have scene' := sameScene_commit done'
  have target : before.targetSlot entity = other.targetSlot entity := by
    rw [targetSlot_eq, targetSlot_eq, h.nextState mem]
  have merged : before.merged parts = other.merged parts := by
    unfold Ledger.merged
    rw [h.width]
  refine ⟨?_, ?_, ?_, ?_, ?_, ?_, ?_, ?_⟩
  · rw [scene.width, scene'.width, h.width]
  · rw [scene.timeBase, scene'.timeBase, h.timeBase]
  · rw [scene.isolation, scene'.isolation, h.isolation]
  · intro source shared row column
    rw [cell?_commit done, cell?_commit done', h.cells source shared, target, merged, h.timeBase]
  · intro source shared
    rw [stateOf_commit done, stateOf_commit done', h.nextState mem, h.states source shared]
  · intro source shared
    rw [(committed_of_commit done).pending, (committed_of_commit done').pending, Table.get?_erase,
      Table.get?_erase, h.pending source shared]
  · intro source shared
    rw [(committed_of_commit done).accounted, (committed_of_commit done').accounted]
    exact get?_account_congr (h.accounted source shared) parts
  · intro source shared
    rw [(committed_of_commit done).bulkBaselines, (committed_of_commit done').bulkBaselines,
      h.bulk source shared]

end Commit

end Ledger

end UsageLedger
