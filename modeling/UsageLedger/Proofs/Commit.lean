import UsageLedger.Recorder
import UsageLedger.Update
import UsageLedger.Proofs.Totals

/-!
Crediting readings. What a reading contributes lies above both the baseline it is counted from and
the accounted level, and a commit adds exactly that to the usage of one entity.
-/

namespace UsageLedger

/-- The level of a source that the baselines show, at one frequency. -/
def Baselines.levelAt (baselines : Baselines) (source i : Nat) : Nat :=
  ((baselines.last? source).getD []).amountAt i

/-- What several contributions gained together, at one frequency. -/
def gainAt (parts : List Contribution) (i : Nat) : Nat :=
  (parts.map fun part => part.gain.amountAt i).sum

theorem gainAt_append (parts others : List Contribution) (i : Nat) :
    gainAt (parts ++ others) i = gainAt parts i + gainAt others i := by
  simp [gainAt]

theorem gainAt_perm {parts others : List Contribution} (perm : parts.Perm others) (i : Nat) :
    gainAt parts i = gainAt others i :=
  (perm.map _).sum_nat

namespace Ledger

/-- The level up to which a source has been credited, at one frequency. -/
def accountedAt (ledger : Ledger) (source i : Nat) : Nat :=
  ((ledger.accounted.get? source).getD []).amountAt i

/-- What a reading contributes if its gain is counted from the baselines. -/
def credit (ledger : Ledger) (baselines : Baselines) (reading : Reading) : Contribution where
  source := reading.source
  gain := ledger.unaccounted reading.source reading.level
    (baselines.gain reading.source reading.level)
  level := some reading.level

@[simp] theorem length_unaccounted (ledger : Ledger) (source : Nat) (level gain : Measure) :
    (ledger.unaccounted source level gain).length = gain.length := by
  unfold unaccounted
  split
  · exact Measure.length_cap _ _
  · rfl

@[simp] theorem length_credit_gain (ledger : Ledger) (baselines : Baselines) (reading : Reading) :
    (ledger.credit baselines reading).gain.length = reading.level.length := by
  unfold credit Baselines.gain
  rw [length_unaccounted, Measure.length_since]

theorem amountAt_credit_gain (ledger : Ledger) (baselines : Baselines) (reading : Reading)
    (i : Nat) :
    (ledger.credit baselines reading).gain.amountAt i =
      reading.level.amountAt i -
        max (baselines.levelAt reading.source i) (ledger.accountedAt reading.source i) := by
  unfold credit unaccounted Baselines.gain accountedAt Baselines.levelAt
  cases ledger.accounted.get? reading.source with
  | none => simp
  | some accounted =>
    have same : (reading.level.since ((baselines.last? reading.source).getD [])).length =
        (reading.level.since accounted).length := by simp
    simp only [Measure.amountAt_cap same, Measure.amountAt_since, Option.getD_some]
    omega

/-- A contribution depends on the two levels of its source only. -/
theorem credit_congr {ledger other : Ledger} {baselines others : Baselines} {reading : Reading}
    (accounted : ledger.accounted.get? reading.source = other.accounted.get? reading.source)
    (last : baselines.last? reading.source = others.last? reading.source) :
    ledger.credit baselines reading = other.credit others reading := by
  unfold credit unaccounted Baselines.gain
  rw [accounted, last]

theorem account_cons_of_none {table : Table Measure} {part : Contribution}
    (unknown : part.level = none) (parts : List Contribution) :
    account table (part :: parts) = account table parts := by
  rw [account, List.foldl_cons, unknown]
  rfl

theorem account_cons_of_some {table : Table Measure} {part : Contribution} {level : Measure}
    (known : part.level = some level) (parts : List Contribution) :
    account table (part :: parts) = account (table.insert part.source level) parts := by
  rw [account, List.foldl_cons, known]
  rfl

theorem get?_account_of_not_mem {table : Table Measure} {parts : List Contribution} {source : Nat}
    (apart : ∀ part ∈ parts, part.source ≠ source) :
    (account table parts).get? source = table.get? source := by
  induction parts generalizing table with
  | nil => rfl
  | cons part parts ih =>
    have head := apart part List.mem_cons_self
    have tail := fun other mem => apart other (List.mem_cons_of_mem part mem)
    cases level? : part.level with
    | none => rw [account_cons_of_none level?, ih tail]
    | some level =>
      rw [account_cons_of_some level?, ih tail, table.get?_insert_of_ne level (Ne.symm head)]

theorem get?_account_of_mem {table : Table Measure} {parts : List Contribution}
    (distinct : (parts.map Contribution.source).Nodup) {part : Contribution} (mem : part ∈ parts)
    {level : Measure} (known : part.level = some level) :
    (account table parts).get? part.source = some level := by
  induction parts generalizing table with
  | nil => simp at mem
  | cons first parts ih =>
    obtain ⟨fresh, distinct⟩ := List.nodup_cons.mp distinct
    rcases List.mem_cons.mp mem with rfl | mem
    · have apart : ∀ other ∈ parts, other.source ≠ part.source := by
        intro other mem eq
        exact fresh (eq ▸ List.mem_map_of_mem mem)
      rw [account_cons_of_some known, get?_account_of_not_mem apart, table.get?_insert_self]
    · exact ih distinct mem

/-- Distinct sources are accounted for in any order. -/
theorem account_perm {table : Table Measure} {parts others : List Contribution}
    (distinct : (parts.map Contribution.source).Nodup) (perm : parts.Perm others)
    (leveled : ∀ part ∈ parts, part.level ≠ none) : account table parts = account table others := by
  apply Table.ext_get?
  intro source
  have distinct' : (others.map Contribution.source).Nodup :=
    (perm.map Contribution.source).nodup_iff.mp distinct
  by_cases h : ∃ part ∈ parts, part.source = source
  · obtain ⟨part, mem, rfl⟩ := h
    obtain ⟨level, known⟩ := Option.ne_none_iff_exists'.mp (leveled part mem)
    rw [get?_account_of_mem distinct mem known,
      get?_account_of_mem distinct' (perm.mem_iff.mp mem) known]
  · rw [get?_account_of_not_mem fun part mem eq => h ⟨part, mem, eq⟩,
      get?_account_of_not_mem fun part mem eq => h ⟨part, perm.mem_iff.mpr mem, eq⟩]

/-- What a commit that goes through does to a ledger. -/
structure Committed (before : Ledger) (entity : Nat) (parts : List Contribution)
    (after : Ledger) : Prop where
  width : after.store.width = before.store.width
  usage (other i : Nat) : after.store.usageAt other i =
    before.store.usageAt other i + if other = entity then gainAt parts i else 0
  total (i : Nat) : after.store.totalAt i = before.store.totalAt i + gainAt parts i
  accounted : after.accounted = account before.accounted parts
  known (other : Nat) : other ∈ after.standing ↔ other = entity ∨ other ∈ before.standing
  pending : after.pending = before.pending.erase entity
  bulkBaselines : after.bulkBaselines = before.bulkBaselines
  isolation : after.isolation = before.isolation

theorem amountAt_merged (ledger : Ledger) (parts : List Contribution) (i : Nat) :
    (ledger.merged parts).amountAt i = gainAt parts i := by
  rw [merged, Measure.amountAt_total, List.map_map]
  rfl

theorem length_merged {ledger : Ledger} {parts : List Contribution}
    (widths : ∀ part ∈ parts, part.gain.length = ledger.store.width) :
    (ledger.merged parts).length = ledger.store.width := by
  apply Measure.length_total
  intro gain mem
  obtain ⟨part, member, rfl⟩ := List.mem_map.mp mem
  exact widths part member

theorem commit_isOk {ledger : Ledger} (entity : Nat) {parts : List Contribution}
    (widths : ∀ part ∈ parts, part.gain.length = ledger.store.width) :
    ∃ after, ledger.commit entity parts = .ok after := by
  obtain ⟨store, changed, recorded⟩ := ledger.store.record_isOk entity (ledger.targetSlot entity)
    ledger.timeBase.screenOffActive (length_merged widths)
  simp only [commit, recorded]
  exact ⟨_, rfl⟩

theorem committed_of_commit {ledger after : Ledger} {entity : Nat} {parts : List Contribution}
    (h : ledger.commit entity parts = .ok after) : Committed ledger entity parts after := by
  simp only [commit] at h
  split at h
  · contradiction
  next store changed recorded =>
    cases h
    exact {
      width := (Store.record_cases recorded).1
      usage := fun other i => by
        rw [← amountAt_merged ledger]
        exact Store.usageAt_record recorded other i
      total := fun i => by rw [← amountAt_merged ledger]; exact Store.totalAt_record recorded i
      accounted := rfl
      known := fun other => by
        cases ledger.targetSlot entity with
        | known state => exact Table.mem_insert
        | unknown => exact Table.mem_insertIfNew
      pending := rfl
      bulkBaselines := rfl
      isolation := rfl }

/-- Parts of distinct sources are committed in any order. -/
theorem commit_perm (ledger : Ledger) (entity : Nat) {parts others : List Contribution}
    (distinct : (parts.map Contribution.source).Nodup) (perm : parts.Perm others)
    (leveled : ∀ part ∈ parts, part.level ≠ none) :
    ledger.commit entity parts = ledger.commit entity others := by
  have merged : ledger.merged parts = ledger.merged others :=
    Measure.total_perm _ (perm.map Contribution.gain)
  unfold commit
  rw [merged, account_perm distinct perm leveled]

/-- What crediting parts, each to the entity beside it, does to a ledger. -/
structure Credited (before : Ledger) (parts : List (Nat × Contribution)) (after : Ledger) :
    Prop where
  width : after.store.width = before.store.width
  usage (entity i : Nat) : after.store.usageAt entity i =
    before.store.usageAt entity i + gainAt (shareOf parts entity) i
  total (i : Nat) : after.store.totalAt i =
    before.store.totalAt i + gainAt (parts.map Prod.snd) i
  accounted : after.accounted = account before.accounted (parts.map Prod.snd)
  isolation : after.isolation = before.isolation

theorem Credited.nothing (ledger : Ledger) : Credited ledger [] ledger where
  width := rfl
  usage _ _ := rfl
  total _ := rfl
  accounted := rfl
  isolation := rfl

theorem Credited.append {before middle after : Ledger} {parts others : List (Nat × Contribution)}
    (head : Credited before parts middle) (tail : Credited middle others after) :
    Credited before (parts ++ others) after where
  width := tail.width.trans head.width
  usage entity i := by
    rw [tail.usage, head.usage, shareOf, shareOf, shareOf, List.filter_append, List.map_append,
      gainAt_append, Nat.add_assoc]
  total i := by
    rw [tail.total, head.total, List.map_append, gainAt_append, Nat.add_assoc]
  accounted := by
    rw [tail.accounted, head.accounted, List.map_append]
    exact List.foldl_append.symm
  isolation := tail.isolation.trans head.isolation

/-- A commit credits all its parts to one entity. -/
theorem Committed.credited {before after : Ledger} {entity : Nat} {parts : List Contribution}
    (h : Committed before entity parts after) :
    Credited before (parts.map fun part => (entity, part)) after := by
  have all : (parts.map fun part => (entity, part)).map Prod.snd = parts := by
    rw [List.map_map]
    exact List.map_id parts
  refine ⟨h.width, ?_, by rw [all]; exact h.total, by rw [all]; exact h.accounted, h.isolation⟩
  intro other i
  rw [h.usage, shareOf]
  by_cases same : other = entity
  · subst same
    rw [if_pos rfl, List.filter_eq_self.mpr (by simp), all]
  · rw [if_neg same, List.filter_eq_nil_iff.mpr (by simp [Ne.symm same])]
    rfl

/-- A chain of commits that go through, one for each of the entities. -/
inductive Commits (share : Nat → List Contribution) : Ledger → List Nat → Ledger → Prop where
  | nil (ledger : Ledger) : Commits share ledger [] ledger
  | cons {before middle after : Ledger} {entity : Nat} {entities : List Nat} :
      before.commit entity (share entity) = .ok middle → Commits share middle entities after →
      Commits share before (entity :: entities) after

theorem Commits.credited {share : Nat → List Contribution} {before after : Ledger}
    {entities : List Nat} (h : Commits share before entities after) :
    Credited before
      (entities.flatMap fun entity => (share entity).map fun part => (entity, part)) after := by
  induction h with
  | nil ledger => exact .nothing ledger
  | cons done _ ih => exact (committed_of_commit done).credited.append ih

theorem Commits.bulkBaselines {share : Nat → List Contribution} {before after : Ledger}
    {entities : List Nat} (h : Commits share before entities after) :
    after.bulkBaselines = before.bulkBaselines := by
  induction h with
  | nil ledger => rfl
  | cons done _ ih => exact ih.trans (committed_of_commit done).bulkBaselines

end Ledger

end UsageLedger
