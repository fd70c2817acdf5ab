import UsageLedger.Snapshot
import UsageLedger.Proofs.JsonPrinting
import UsageLedger.Proofs.Reachable

namespace UsageLedger

theorem ProcState.name_injective : Function.Injective ProcState.name := by
  intro state other same
  have read := ofName?_name state
  rw [same, ofName?_name other] at read
  exact (Option.some.inj read).symm

theorem Slot.name_injective : Function.Injective Slot.name := by
  have named (state : ProcState) : state.name ≠ "unknown" := by cases state <;> decide
  intro slot other same
  cases slot with
  | known state =>
    cases other with
    | known other => exact congrArg known (ProcState.name_injective same)
    | unknown => exact absurd same (named state)
  | unknown =>
    cases other with
    | known other => exact absurd same.symm (named other)
    | unknown => rfl

namespace Json

theorem ofNat_injective : Function.Injective Json.ofNat := by
  intro m n same
  simpa [Json.ofNat, JsonNumber.ofNat] using same

theorem ofNats_injective : Function.Injective Json.ofNats := by
  intro l m same
  exact List.map_injective_iff.mpr ofNat_injective (Json.array.inj same)

theorem plain_map {α : Type} {json : α → Json} (plain : ∀ item, Plain (json item))
    (items : List α) : Plain (.array (items.map json)) := by
  apply Plain.array
  intro value mem
  obtain ⟨item, -, rfl⟩ := List.mem_map.mp mem
  exact plain item

theorem plain_ofNats (l : List Nat) : Plain (.ofNats l) := plain_map (fun _ => .number) l

end Json

namespace Snapshot

open Json

/-- If no member of that name follows, a member that may be left out can be told apart from what
follows. -/
theorem optionalMember_cancel {key : String} {value other : Option Json}
    {rest rest' : List (String × Json)} (apart : ∀ entry ∈ rest.head?, entry.1 ≠ key)
    (apart' : ∀ entry ∈ rest'.head?, entry.1 ≠ key)
    (same : optionalMember key value ++ rest = optionalMember key other ++ rest') :
    value = other ∧ rest = rest' := by
  cases value with
  | none =>
    cases other with
    | none => exact ⟨rfl, same⟩
    | some other =>
      have present : rest = (key, other) :: rest' := same
      exact absurd rfl (apart (key, other) (by rw [present]; rfl))
  | some value =>
    cases other with
    | none =>
      have present : (key, value) :: rest = rest' := same
      exact absurd rfl (apart' (key, value) (by rw [← present]; rfl))
    | some other =>
      obtain ⟨first, later⟩ := List.cons.inj same
      exact ⟨congrArg some (Prod.mk.inj first).2, later⟩

theorem map_ofNats_injective : Function.Injective (Option.map Json.ofNats) :=
  Option.map_injective ofNats_injective

theorem rowJson_injective : Function.Injective rowJson := by
  rintro ⟨slot, allTime, screenOff⟩ ⟨slot', allTime', screenOff'⟩ same
  simp only [rowJson, List.cons_append, Json.object.injEq, List.cons.injEq, Prod.mk.injEq,
    Json.string.injEq, true_and] at same
  obtain ⟨names, columns⟩ := same
  have alone (value : Option Json) :
      ∀ entry ∈ (optionalMember "screen_off" value).head?, entry.1 ≠ "all_time" := by
    cases value <;> simp [optionalMember]
  obtain ⟨wholes, parts⟩ := optionalMember_cancel (alone _) (alone _) columns
  obtain ⟨parts, -⟩ := optionalMember_cancel (by simp) (by simp) (congrArg (· ++ []) parts)
  rw [SnapshotRow.mk.injEq]
  exact ⟨Slot.name_injective names, map_ofNats_injective wholes, map_ofNats_injective parts⟩

theorem stateJson_injective : Function.Injective stateJson := by
  intro state other same
  cases state with
  | none =>
    cases other with
    | none => rfl
    | some other => cases same
  | some state =>
    cases other with
    | none => cases same
    | some other => exact congrArg some (ProcState.name_injective (Json.string.inj same))

theorem string_name_injective :
    Function.Injective fun state : ProcState => Json.string state.name :=
  fun _ _ same => ProcState.name_injective (Json.string.inj same)

/-- A list that is left out if it is empty. -/
theorem optionalList_injective :
    Function.Injective fun l : List Nat => if l = [] then none else some (Json.ofNats l) := by
  intro l m same
  by_cases empty : l = [] <;> by_cases empty' : m = []
  · rw [empty, empty']
  · simp [empty, empty'] at same
  · simp [empty, empty'] at same
  · simp only [empty, empty', if_false, Option.some.injEq] at same
    exact ofNats_injective same

theorem entityJson_injective : Function.Injective entityJson := by
  rintro ⟨entity, state, pending, children, rows⟩ ⟨entity', state', pending', children', rows'⟩ same
  simp only [entityJson, List.cons_append, List.nil_append, List.append_assoc, Json.object.injEq,
    List.cons.injEq, Prod.mk.injEq, true_and] at same
  obtain ⟨entities, states, same⟩ := same
  have untold (value : Option Json) (rest : Json) :
      ∀ entry ∈ (optionalMember "children" value ++ [("buckets", rest)]).head?,
        entry.1 ≠ "pending" := by
    cases value <;> simp [optionalMember]
  obtain ⟨notified, same⟩ := optionalMember_cancel (untold _ _) (untold _ _) same
  obtain ⟨isolated, same⟩ := optionalMember_cancel (by simp) (by simp) same
  simp only [List.cons.injEq, Prod.mk.injEq, Json.array.injEq, true_and, and_true] at same
  rw [EntitySnapshot.mk.injEq]
  exact ⟨ofNat_injective entities, stateJson_injective states,
    Option.map_injective string_name_injective notified, optionalList_injective isolated,
    List.map_injective_iff.mpr rowJson_injective same⟩

theorem timeBaseJson_injective : Function.Injective timeBaseJson := by
  rintro ⟨onBattery, screenOff, last⟩ ⟨onBattery', screenOff', last'⟩ same
  simp only [timeBaseJson, Json.object.injEq, List.cons.injEq, Prod.mk.injEq, Json.bool.injEq,
    true_and, and_true] at same
  rw [TimeBase.mk.injEq]
  exact ⟨same.1, same.2.1, ofNat_injective same.2.2⟩

theorem toJson_injective : Function.Injective toJson := by
  rintro ⟨width, base, entities⟩ ⟨width', base', entities'⟩ same
  simp only [toJson, Json.object.injEq, List.cons.injEq, Prod.mk.injEq, Json.array.injEq, true_and,
    and_true] at same
  obtain ⟨widths, bases, entries⟩ := same
  rw [Snapshot.mk.injEq]
  exact ⟨ofNat_injective widths, timeBaseJson_injective bases,
    List.map_injective_iff.mpr entityJson_injective entries⟩

theorem plain_optionalMember {key : String} {value : Option Json}
    (plain : ∀ json ∈ value, Plain json) : ∀ entry ∈ optionalMember key value, Plain entry.2 := by
  cases value with
  | none => simp [optionalMember]
  | some json => simpa [optionalMember] using plain json rfl

theorem plain_rowJson (row : SnapshotRow) : Plain (rowJson row) := by
  have column {key : String} (cell : Option Measure) :
      ∀ entry ∈ optionalMember key (cell.map Json.ofNats), Plain entry.2 := by
    apply plain_optionalMember
    cases cell with
    | none => simp
    | some measure => simpa using plain_ofNats measure
  apply Plain.object
  simp only [List.forall_mem_append, List.forall_mem_cons, List.cons_append]
  exact ⟨.string, column row.allTime, column row.screenOff⟩

theorem plain_stateJson (state : Option ProcState) : Plain (stateJson state) := by
  cases state with
  | none => exact .null
  | some state => exact .string

theorem plain_entityJson (entry : EntitySnapshot) : Plain (entityJson entry) := by
  have pending : ∀ member ∈ optionalMember "pending"
      (entry.pending.map fun state => .string state.name), Plain member.2 := by
    apply plain_optionalMember
    cases entry.pending with
    | none => simp
    | some state => simpa using Plain.string
  have children : ∀ member ∈ optionalMember "children"
      (if entry.children = [] then none else some (.ofNats entry.children)), Plain member.2 := by
    apply plain_optionalMember
    split
    · simp
    · simpa using plain_ofNats entry.children
  apply Plain.object
  simp only [List.forall_mem_append, List.forall_mem_cons, List.not_mem_nil, false_implies,
    implies_true, and_true]
  exact ⟨⟨⟨⟨.number, plain_stateJson entry.state⟩, pending⟩, children⟩,
    plain_map plain_rowJson entry.rows⟩

theorem plain_timeBaseJson (base : TimeBase) : Plain (timeBaseJson base) := by
  apply Plain.object
  simp only [List.forall_mem_cons, List.not_mem_nil, false_implies, implies_true, and_true]
  exact ⟨.bool, .bool, .number⟩

theorem plain_toJson (snapshot : Snapshot) : Plain snapshot.toJson := by
  apply Plain.object
  simp only [List.forall_mem_cons, List.not_mem_nil, false_implies, implies_true, and_true]
  exact ⟨.number, plain_timeBaseJson snapshot.timeBase,
    plain_map plain_entityJson snapshot.entities⟩

/-- No two snapshots have the same text. -/
theorem jsonText_injective : Function.Injective jsonText := by
  intro snapshot other same
  have rendered : snapshot.toJson.render = other.toJson.render := String.ofList_injective same
  exact toJson_injective ((plain_toJson snapshot).render_injective (plain_toJson other) rendered)

end Snapshot

namespace Store

variable {store : Store} {entity : Nat}

theorem cell?_of_none (absent : store.accounts.get? entity = none) (slot : Slot)
    (column : Column) : store.cell? entity slot column = none := by
  rw [cell?, absent, Option.bind_none]

theorem cell?_of_some {account : Account} (found : store.accounts.get? entity = some account)
    (slot : Slot) (column : Column) :
    store.cell? entity slot column = account.cell? slot column := by
  rw [cell?, found, Option.bind_some]

end Store

namespace Ledger

/-- A row of a report shows the cells of the entity in that row. -/
structure Shows (ledger : Ledger) (entity : Nat) (row : SnapshotRow) : Prop where
  allTime : row.allTime = ledger.store.cell? entity row.slot .allTime
  screenOff : row.screenOff = ledger.store.cell? entity row.slot .screenOff

/-- The rows show all cells of the entity, each row once and in the order of the rows. -/
structure Details (ledger : Ledger) (entity : Nat) (rows : List SnapshotRow) : Prop where
  ascending : (rows.map fun row => row.slot.row).Pairwise (· < ·)
  complete : ∀ slot, slot ∈ rows.map SnapshotRow.slot ↔
    ∃ column, ledger.store.cell? entity slot column ≠ none
  shows : ∀ row ∈ rows, ledger.Shows entity row

theorem details_entitySnapshot (ledger : Ledger) (entity : Nat) :
    ledger.Details entity (ledger.entitySnapshot entity).rows := by
  unfold entitySnapshot
  cases found : ledger.store.accounts.get? entity with
  | none =>
    refine ⟨.nil, fun slot => ?_, by simp⟩
    simp [Store.cell?_of_none found]
  | some account =>
    have cell := Store.cell?_of_some found
    simp only [Option.map_some, Option.getD_some, Account.snapshotRows]
    refine ⟨?_, ?_, ?_⟩
    · rw [List.map_map]
      exact account.rows_ascending
    · intro slot
      simp only [List.map_map, Function.comp_def, List.map_id', cell]
      exact Account.mem_rows
    · intro row mem
      obtain ⟨slot, -, rfl⟩ := List.mem_map.mp mem
      exact ⟨(cell slot .allTime).symm, (cell slot .screenOff).symm⟩

/-- The rows of an entity determine its cells. -/
theorem Details.cells {first second : Ledger} {entity : Nat} {rows : List SnapshotRow}
    (details : first.Details entity rows) (details' : second.Details entity rows) (slot : Slot)
    (column : Column) :
    first.store.cell? entity slot column = second.store.cell? entity slot column := by
  by_cases listed : slot ∈ rows.map SnapshotRow.slot
  · obtain ⟨row, mem, rfl⟩ := List.mem_map.mp listed
    have shows := details.shows row mem
    have shows' := details'.shows row mem
    cases column with
    | allTime => rw [← shows.allTime, shows'.allTime]
    | screenOff => rw [← shows.screenOff, shows'.screenOff]
  · have absent : first.store.cell? entity slot column = none := by
      by_contra present
      exact listed ((details.complete slot).mpr ⟨column, present⟩)
    have absent' : second.store.cell? entity slot column = none := by
      by_contra present
      exact listed ((details'.complete slot).mpr ⟨column, present⟩)
    rw [absent, absent']

theorem Reachable.orderly_store {ledger : Ledger} (h : ledger.Reachable) :
    ledger.store.Orderly := by
  obtain ⟨μ, _, config, start, calls, new, rfl⟩ := h
  have sound : (start.run calls).ledger.Consistent ∧ (start.run calls).ledger.store.Orderly := by
    apply List.foldlRecOn (motive := fun session : Session μ =>
      session.ledger.Consistent ∧ session.ledger.store.Orderly)
    · refine ⟨consistent_new new, ?_⟩
      rw [eq_of_new new]
      exact Store.orderly_empty _
    · rintro session ⟨consistent, orderly⟩ call -
      cases call with
      | notice notice =>
        refine ⟨consistent.notice notice, ?_⟩
        have books := session.ledger.notice_sameBooks notice
        rw [Session.step, books.store]
        exact orderly
      | meter meter => exact ⟨consistent, orderly⟩
      | update path time =>
        refine ⟨consistent.update path session.meter time, ?_⟩
        apply session.ledger.update_induction (P := fun ledger => ledger.store.Orderly)
          consistent.flat
        · intro before after entity parts _ _ done kept
          obtain ⟨store, changed, recorded, rfl⟩ := commit_eq_ok done
          exact kept.record recorded
        · exact fun _ => orderly
  exact sound.2

theorem mem_listed {ledger : Ledger} {entity : Nat} :
    entity ∈ ledger.listed ↔ entity ∈ ledger.standing ∨ entity ∈ ledger.store.entities := by
  rw [listed, Table.mem_keys, KeySet.mem_addAll, Table.mem_map, Or.comm]

/-- An account is opened by its first cell. -/
theorem Reachable.mem_listed {ledger : Ledger} (reachable : ledger.Reachable) {entity : Nat} :
    entity ∈ ledger.listed ↔
      entity ∈ ledger.standing ∨ ∃ slot column, ledger.store.cell? entity slot column ≠ none := by
  rw [Ledger.mem_listed]
  refine or_congr_right ⟨fun stored => ?_, ?_⟩
  · obtain ⟨slot, present⟩ := reachable.orderly_store.opened entity stored
    exact ⟨slot, .allTime, present⟩
  · rintro ⟨slot, column, present⟩
    rw [Store.entities, Table.mem_keys, Table.mem_iff]
    cases found : ledger.store.accounts.get? entity with
    | none => exact absurd (Store.cell?_of_none found slot column) present
    | some account => exact ⟨account, rfl⟩

section Unlisted

variable {ledger : Ledger} {entity : Nat} (unlisted : entity ∉ ledger.listed)

include unlisted

theorem cell?_of_unlisted (slot : Slot) (column : Column) :
    ledger.store.cell? entity slot column = none := by
  have absent : entity ∉ ledger.store.accounts := by
    intro stored
    exact unlisted (Ledger.mem_listed.mpr (.inr ((Table.mem_keys _ _).mpr stored)))
  exact Store.cell?_of_none (Table.not_mem_iff.mp absent) slot column

theorem stateOf_of_unlisted : ledger.stateOf entity = none := by
  have unknown : entity ∉ ledger.standing := fun known =>
    unlisted (Ledger.mem_listed.mpr (.inl known))
  rw [stateOf, Table.not_mem_iff.mp unknown, Option.join_none]

theorem pending_of_unlisted (consistent : ledger.Consistent) :
    ledger.pending.get? entity = none := by
  apply Table.not_mem_iff.mp
  exact fun pending => unlisted (Ledger.mem_listed.mpr (.inl (consistent.pending entity pending)))

end Unlisted

/-- All that a ledger's report tells of it. -/
structure SameContent (first second : Ledger) : Prop where
  vectorLen : first.vectorLen = second.vectorLen
  timeBase : first.timeBase = second.timeBase
  cells : ∀ entity slot column,
    first.store.cell? entity slot column = second.store.cell? entity slot column
  states : ∀ entity, first.stateOf entity = second.stateOf entity
  pending : ∀ entity, first.pending.get? entity = second.pending.get? entity
  listed : first.listed = second.listed
  children : ∀ entity ∈ first.listed,
    first.isolation.childrenOf entity = second.isolation.childrenOf entity

theorem entities_snapshot (ledger : Ledger) :
    ledger.snapshot.entities.map EntitySnapshot.entity = ledger.listed := by
  rw [snapshot, List.map_map]
  exact List.map_id _

/-- Snapshots that are the same show the same, and there is nothing to show of entities that they do
not list. -/
theorem sameContent_of_snapshot {first second : Ledger} (consistent : first.Consistent)
    (consistent' : second.Consistent) (same : first.snapshot = second.snapshot) :
    first.SameContent second := by
  have listed : first.listed = second.listed := by
    rw [← entities_snapshot, same, entities_snapshot]
  have entries : ∀ entity ∈ first.listed,
      first.entitySnapshot entity = second.entitySnapshot entity := by
    have all : first.listed.map first.entitySnapshot = second.listed.map second.entitySnapshot :=
      congrArg Snapshot.entities same
    rw [← listed] at all
    exact List.map_inj_left.mp all
  refine ⟨congrArg Snapshot.vectorLen same, congrArg Snapshot.timeBase same, ?_, ?_, ?_, listed, ?_⟩
  · intro entity slot column
    by_cases shown : entity ∈ first.listed
    · have details := first.details_entitySnapshot entity
      rw [entries entity shown] at details
      exact details.cells (second.details_entitySnapshot entity) slot column
    · rw [cell?_of_unlisted shown, cell?_of_unlisted (listed ▸ shown)]
  · intro entity
    by_cases shown : entity ∈ first.listed
    · exact congrArg EntitySnapshot.state (entries entity shown)
    · rw [stateOf_of_unlisted shown, stateOf_of_unlisted (listed ▸ shown)]
  · intro entity
    by_cases shown : entity ∈ first.listed
    · exact congrArg EntitySnapshot.pending (entries entity shown)
    · rw [pending_of_unlisted shown consistent, pending_of_unlisted (listed ▸ shown) consistent']
  · intro entity shown
    exact congrArg EntitySnapshot.children (entries entity shown)

/-- Ledgers with the same report hold the same usage and states and list the same entities. A report
lists the known entities and those with cells, ascending, and of each all its cells. -/
theorem jsonText_faithful {first second : Ledger} (reachable : first.Reachable)
    (reachable' : second.Reachable) :
    (first.snapshot.jsonText = second.snapshot.jsonText → first.SameContent second) ∧
    let entries := first.snapshot.entities
    (entries.map EntitySnapshot.entity).Pairwise (· < ·) ∧
    (∀ entity, entity ∈ entries.map EntitySnapshot.entity ↔
      entity ∈ first.standing ∨ ∃ slot column, first.store.cell? entity slot column ≠ none) ∧
    ∀ entry ∈ entries, first.Details entry.entity entry.rows := by
  refine ⟨fun same => ?_, ?_, ?_, ?_⟩
  · exact sameContent_of_snapshot reachable.consistent reachable'.consistent
      (Snapshot.jsonText_injective same)
  · rw [entities_snapshot]
    exact Table.keys_ascending _
  · intro entity
    rw [entities_snapshot]
    exact reachable.mem_listed
  · intro entry mem
    obtain ⟨entity, -, rfl⟩ := List.mem_map.mp mem
    exact first.details_entitySnapshot entity

/-- An entity with usage is isolated, and another one is pending. -/
def reported : List (Call ScriptedMeter) :=
  [.notice (.timeBase true true 5), .notice (.classify 1 .top), .notice (.classify 2 .cached),
    .meter { levels := .ofList [(1, [5, 1]), (2, [3, 0])] }, .update .tick 10,
    .notice (.isolate 1 2), .notice (.classify 1 .background)]

/-- The same, with a hold and an isolated entity of somebody who is not known. -/
def reportedToo : List (Call ScriptedMeter) :=
  reported ++ [.notice (.acquire 7 20), .notice (.isolate 8 9)]

theorem jsonText_faithful_reported :
    let first := (Session.blank.run reported).ledger
    let second := (Session.blank.run reportedToo).ledger
    first ≠ second ∧ first.snapshot.jsonText = second.snapshot.jsonText ∧
      first.SameContent second ∧ first.listed = [1, 2] ∧
      second.pending.get? 1 = some .background ∧
      second.store.cell? 2 (.known .cached) .screenOff = some [3, 0] := by
  intro first second
  have new : Ledger.new { vectorLen := 2 } = .ok Session.blank.ledger := rfl
  have reachable (calls : List (Call ScriptedMeter)) : (Session.blank.run calls).ledger.Reachable :=
    ⟨ScriptedMeter, _, _, Session.blank, calls, new, rfl⟩
  have differ : first ≠ second := by decide +kernel
  have snapshots : first.snapshot = second.snapshot := by decide +kernel
  have texts := congrArg Snapshot.jsonText snapshots
  have content := (jsonText_faithful (reachable reported) (reachable reportedToo)).1 texts
  exact ⟨differ, texts, content, by decide +kernel, by decide +kernel, by decide +kernel⟩

end Ledger

end UsageLedger
