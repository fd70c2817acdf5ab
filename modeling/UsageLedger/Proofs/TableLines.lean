import Mathlib.Data.List.Count
import UsageLedger.Proofs.Disclosure
import UsageLedger.Proofs.TimesPrinting

namespace UsageLedger

open Text UidTimes

def Column.title : Column → String
  | allTime => "all"
  | screenOff => "screen_off"

/-- A cell together with its place. -/
structure Cell where
  entity : Nat
  slot : Slot
  column : Column
  usage : Measure
deriving DecidableEq, Repr

/-- The places of an account in the order of the table. -/
def Account.places : List (Slot × Column) :=
  Slot.all.flatMap fun slot => [(slot, .allTime), (slot, .screenOff)]

theorem Account.mem_places (slot : Slot) (column : Column) : (slot, column) ∈ places := by
  rcases slot with (_ | _) | _ <;> cases column <;> decide

/-- The cell that a value makes at its place, if there is a value. -/
def cellAt? (entity : Nat) (slot : Slot) (column : Column) (value : Option Measure) : Option Cell :=
  value.map fun usage => { entity, slot, column, usage }

/-- The cells of an entity in the order of the table. -/
def Store.cellsOf (store : Store) (entity : Nat) : List Cell :=
  Account.places.filterMap fun (slot, column) =>
    cellAt? entity slot column (store.cell? entity slot column)

def Ledger.cells (ledger : Ledger) : List Cell := ledger.listed.flatMap ledger.store.cellsOf

theorem Store.mem_cellsOf {store : Store} {entity : Nat} {cell : Cell} :
    cell ∈ store.cellsOf entity ↔
      cell.entity = entity ∧ store.cell? entity cell.slot cell.column = some cell.usage := by
  obtain ⟨owner, slot, column, usage⟩ := cell
  simp only [cellsOf, cellAt?, List.mem_filterMap, Prod.exists, Option.map_eq_some_iff,
    Cell.mk.injEq]
  constructor
  · rintro ⟨slot, column, -, usage, present, rfl, rfl, rfl, rfl⟩
    exact ⟨rfl, present⟩
  · rintro ⟨rfl, present⟩
    exact ⟨slot, column, Account.mem_places slot column, usage, present, rfl, rfl, rfl, rfl⟩

theorem Store.nodup_cellsOf (store : Store) (entity : Nat) : (store.cellsOf entity).Nodup := by
  have places : Account.places.Nodup := by decide
  refine places.filterMap ?_
  rintro ⟨slot, column⟩ ⟨slot', column'⟩ cell first second
  obtain ⟨usage, -, rfl⟩ := Option.map_eq_some_iff.mp first
  obtain ⟨usage', -, same⟩ := Option.map_eq_some_iff.mp second
  simp only [Cell.mk.injEq] at same
  rw [same.2.1, same.2.2.1]

namespace Ledger

theorem nodup_cells (ledger : Ledger) : ledger.cells.Nodup := by
  have ascending : ledger.listed.Pairwise (· < ·) := Table.keys_ascending _
  refine List.nodup_flatMap.mpr ⟨fun entity _ => ledger.store.nodup_cellsOf entity, ?_⟩
  refine ascending.imp fun {entity other} less cell mem mem' => ?_
  have own := (Store.mem_cellsOf.mp mem).1
  have own' := (Store.mem_cellsOf.mp mem').1
  omega

/-- Whoever has a cell is listed. -/
theorem Reachable.mem_cells {ledger : Ledger} (reachable : ledger.Reachable) {cell : Cell} :
    cell ∈ ledger.cells ↔
      ledger.store.cell? cell.entity cell.slot cell.column = some cell.usage := by
  simp only [cells, List.mem_flatMap, Store.mem_cellsOf]
  constructor
  · rintro ⟨entity, -, rfl, present⟩
    exact present
  · intro present
    refine ⟨cell.entity, reachable.mem_listed.mpr (.inr ⟨cell.slot, cell.column, ?_⟩), rfl, present⟩
    rw [present]
    exact Option.some_ne_none _

end Ledger

namespace Cell

/-- The words of the line of a cell. -/
def toWords (cell : Cell) : List (List Char) :=
  decimal cell.entity :: cell.slot.name.toList :: cell.column.title.toList ::
    cell.usage.map decimal

/-- The cell that the words of a line tell, if they are those of a cell. -/
def ofWords? : List (List Char) → Option Cell
  | entity :: slot :: column :: usage =>
    if entity.all Char.isDigit then do
      let slot ← Slot.ofName? (String.ofList slot)
      let column ← [Column.allTime, .screenOff].find? fun other => other.title.toList = column
      return { entity := ofDigits entity, slot, column, usage := usage.map ofDigits }
    else none
  | _ => none

/-- The words are those of the line of a cell. -/
def isLine (words : List (List Char)) : Bool := (ofWords? words).isSome

theorem ofWords?_toWords (cell : Cell) : ofWords? cell.toWords = some cell := by
  obtain ⟨entity, slot, column, usage⟩ := cell
  have named : Slot.ofName? slot.name = some slot := by rcases slot with (_ | _) | _ <;> decide
  have titled : [Column.allTime, .screenOff].find? (fun other =>
      other.title.toList = column.title.toList) = some column := by
    cases column <;> decide
  have digits : (decimal entity).all Char.isDigit = true :=
    List.all_eq_true.mpr fun _ mem => isDigit_of_mem_decimal mem
  have numbers : (usage.map decimal).map ofDigits = usage := by
    simp [Function.comp_def, ofDigits_decimal]
  simp only [toWords, ofWords?, digits, String.ofList_toList, named, titled, numbers,
    ofDigits_decimal, if_true, Option.bind_eq_bind, Option.bind_some, Option.pure_def]

theorem isLine_toWords (cell : Cell) : isLine cell.toWords = true := by
  rw [isLine, ofWords?_toWords, Option.isSome_some]

theorem toWords_injective : Function.Injective toWords := by
  intro cell other same
  have read := ofWords?_toWords cell
  rw [same, ofWords?_toWords other] at read
  exact (Option.some.inj read).symm

end Cell

/-- The words of a list of entities. All but the last one have a comma behind them. -/
def listWords : List Nat → List (List Char)
  | [] => []
  | [n] => [decimal n]
  | n :: rest => (decimal n ++ [',']) :: listWords rest

namespace Ledger

/-- The words of the line of an entity without cells. -/
def bareWords (ledger : Ledger) (entity : Nat) : List (List Char) :=
  [decimal entity, (Slot.ofState? (ledger.stateOf entity)).name.toList, ['-']]

/-- The words of the line that names the isolated entities of an entity. -/
def childWords (ledger : Ledger) (entity : Nat) : List (List Char) :=
  "isolated:".toList :: listWords (ledger.isolation.childrenOf entity)

/-- The words of an entity's lines. -/
def entityWords (ledger : Ledger) (entity : Nat) : List (List (List Char)) :=
  (if ledger.store.cellsOf entity = [] then [ledger.bareWords entity]
    else (ledger.store.cellsOf entity).map Cell.toWords) ++
  if ledger.isolation.childrenOf entity = [] then [] else [ledger.childWords entity]

/-- Of an entity's lines, those of its cells can be told from the others. -/
theorem filter_entityWords (ledger : Ledger) (entity : Nat) :
    (ledger.entityWords entity).filter Cell.isLine =
      (ledger.store.cellsOf entity).map Cell.toWords := by
  have cells : ∀ words ∈ (ledger.store.cellsOf entity).map Cell.toWords, Cell.isLine words := by
    intro words mem
    obtain ⟨cell, -, rfl⟩ := List.mem_map.mp mem
    exact cell.isLine_toWords
  have bare : Cell.isLine (ledger.bareWords entity) = false := by
    simp [bareWords, Cell.isLine, Cell.ofWords?, Column.title]
  have children : Cell.isLine (ledger.childWords entity) = false := by
    rw [childWords]
    rcases listWords (ledger.isolation.childrenOf entity) with _ | ⟨first, _ | ⟨second, others⟩⟩ <;>
      rfl
  have last : (if ledger.isolation.childrenOf entity = [] then []
      else [ledger.childWords entity]).filter Cell.isLine = [] := by
    split
    · rfl
    · simp [children]
  rw [entityWords, List.filter_append, last, List.append_nil]
  split
  next empty => simp [empty, bare]
  next => exact List.filter_eq_self.mpr cells

/-- The words of all lines after the header. -/
def tableWords (ledger : Ledger) : List (List (List Char)) :=
  ledger.listed.flatMap ledger.entityWords

theorem filter_tableWords (ledger : Ledger) :
    ledger.tableWords.filter Cell.isLine = ledger.cells.map Cell.toWords := by
  rw [tableWords, List.filter_flatMap, cells, List.map_flatMap]
  exact List.flatMap_congr fun entity _ => ledger.filter_entityWords entity

/-- The cells are read back from the words. -/
theorem filterMap_tableWords (ledger : Ledger) :
    ledger.tableWords.filterMap Cell.ofWords? = ledger.cells := by
  have kept : ledger.tableWords.filterMap Cell.ofWords? =
      (ledger.tableWords.filter Cell.isLine).filterMap Cell.ofWords? := by
    rw [List.filterMap_filter]
    congr 1
    funext words
    rw [Cell.isLine]
    cases Cell.ofWords? words <;> rfl
  have read : Cell.ofWords? ∘ Cell.toWords = some := funext Cell.ofWords?_toWords
  rw [kept, filter_tableWords, List.filterMap_map, read, List.filterMap_some]

/-- No cell has a second line. -/
theorem Reachable.count_tableWords {ledger : Ledger} (reachable : ledger.Reachable) (cell : Cell) :
    ledger.tableWords.count cell.toWords =
      if ledger.store.cell? cell.entity cell.slot cell.column = some cell.usage then 1 else 0 := by
  rw [← List.count_filter cell.isLine_toWords, filter_tableWords,
    List.count_map_of_injective _ _ Cell.toWords_injective, ledger.nodup_cells.count]
  exact if_congr reachable.mem_cells rfl rfl

end Ledger

namespace Text

/-- The text consists of lines that end with a line feed, and these are their words. -/
def Ended (rows : List (List (List Char))) (text : List Char) : Prop :=
  ∃ pieces : List (List Char), (∀ piece ∈ pieces, '\n' ∉ piece) ∧ pieces.map words = rows ∧
    text = pieces.flatMap fun piece => piece ++ ['\n']

theorem ended_nil : Ended [] [] := ⟨[], by simp⟩

theorem ended_line {row : List (List Char)} {line : List Char} (unbroken : '\n' ∉ line)
    (spaced : Spaced row line) : Ended [row] (line ++ ['\n']) :=
  ⟨[line], by simpa, by rw [List.map_singleton, words_of_spaced spaced], by simp⟩

theorem Ended.append {rows rows' : List (List (List Char))} {text text' : List Char}
    (h : Ended rows text) (h' : Ended rows' text') : Ended (rows ++ rows') (text ++ text') := by
  obtain ⟨pieces, unbroken, rfl, rfl⟩ := h
  obtain ⟨pieces', unbroken', rfl, rfl⟩ := h'
  exact ⟨pieces ++ pieces', List.forall_mem_append.mpr ⟨unbroken, unbroken'⟩, List.map_append,
    List.flatMap_append.symm⟩

theorem Ended.flatMap {α : Type} {items : List α} {rows : α → List (List (List Char))}
    {text : α → List Char} (each : ∀ item ∈ items, Ended (rows item) (text item)) :
    Ended (items.flatMap rows) (items.flatMap text) := by
  induction items with
  | nil => exact ended_nil
  | cons item items ih =>
    obtain ⟨first, others⟩ := List.forall_mem_cons.mp each
    exact first.append (ih others)

/-- A text that is one word. -/
structure IsWord (word : List Char) : Prop where
  nonempty : word ≠ []
  solid : ∀ c ∈ word, ¬ IsBlank c

/-- Whether a text is a word can be evaluated. -/
theorem isWord_of_all {word : List Char} (nonempty : word ≠ [])
    (solid : word.all (fun c => ¬ IsBlank c) = true) : IsWord word :=
  ⟨nonempty, by simpa using solid⟩

theorem isWord_decimal (n : Nat) : IsWord (decimal n) :=
  ⟨decimal_ne_nil n, fun _ => not_isBlank_of_mem_decimal⟩

theorem isWord_name (slot : Slot) : IsWord slot.name.toList := by
  rcases slot with (_ | _) | _ <;> exact isWord_of_all (by decide) (by decide)

theorem isWord_title (column : Column) : IsWord column.title.toList := by
  cases column <;> exact isWord_of_all (by decide) (by decide)

namespace IsWord

variable {word rest : List Char} {others : List (List Char)} (h : IsWord word)

include h

theorem unbroken : '\n' ∉ word := fun feed => h.solid '\n' feed (by decide)

theorem spaced_append (apart : ∀ c ∈ rest.head?, IsBlank c) (later : Spaced others rest) :
    Spaced (word :: others) (word ++ rest) :=
  .word blank_nil h.nonempty h.solid apart later

theorem spaced : Spaced [word] word := by
  simpa using h.spaced_append (by simp) (.nothing blank_nil)

/-- A space ends a word, however much room there is before it. -/
theorem spaced_rightpad (room : Nat) (later : Spaced others rest) :
    Spaced (word :: others) (word.rightpad room ' ' ++ ' ' :: rest) := by
  have gap : Blank (List.replicate (room - word.length) ' ' ++ [' ']) :=
    List.forall_mem_append.mpr ⟨blank_spaces _, blank_spaces 1⟩
  have split : word.rightpad room ' ' ++ ' ' :: rest =
      word ++ (List.replicate (room - word.length) ' ' ++ [' '] ++ rest) := by
    simp [List.rightpad]
  rw [split]
  refine h.spaced_append (fun c head => ?_) (later.append_gap gap)
  rw [List.head?_append_of_ne_nil _ (by simp)] at head
  exact gap c (List.mem_of_mem_head? head)

theorem spaced_leftpad (room : Nat) (later : Spaced others rest) :
    Spaced (word :: others) (word.leftpad room ' ' ++ ' ' :: rest) := by
  have split : word.leftpad room ' ' ++ ' ' :: rest =
      List.replicate (room - word.length) ' ' ++ (word.rightpad 0 ' ' ++ ' ' :: rest) := by
    simp [List.leftpad, List.rightpad]
  rw [split]
  exact (h.spaced_rightpad 0 later).append_gap (blank_spaces _)

end IsWord

end Text

namespace Snapshot

theorem ended_tableLine {entity state column usage : List Char} {others : List (List Char)}
    (isEntity : IsWord entity) (isState : IsWord state) (unbroken : '\n' ∉ column ++ usage)
    (later : Spaced others (column.rightpad 10 ' ' ++ ' ' :: usage)) :
    Ended [entity :: state :: others] (tableLine entity state column usage) := by
  refine ended_line ?_ ?_
  · have entityUnbroken := isEntity.unbroken
    have stateUnbroken := isState.unbroken
    simp_all [List.leftpad, List.rightpad]
  · simpa using isEntity.spaced_leftpad 8 (isState.spaced_rightpad 20 later)

/-- The line of a cell, if there is one. -/
theorem ended_cellLine (entity : Nat) (slot : Slot) (column : Column) (cell : Option Measure) :
    Ended ((cellAt? entity slot column cell).toList.map Cell.toWords)
      (cellLine entity slot column.title cell) := by
  cases cell with
  | none => exact ended_nil
  | some usage =>
    have title := isWord_title column
    refine ended_tableLine (isWord_decimal entity) (isWord_name slot) ?_
      (title.spaced_rightpad 10 (spaced_joinSpaced usage))
    exact List.not_mem_append title.unbroken (unbroken_joinSpaced usage)

theorem ended_bareLine (entity : Nat) (slot : Slot) :
    Ended [[decimal entity, slot.name.toList, ['-']]]
      (tableLine (decimal entity) slot.name.toList [] ['-']) := by
  refine ended_tableLine (isWord_decimal entity) (isWord_name slot) (by decide) ?_
  have dash : IsWord ['-'] := isWord_of_all (by decide) (by decide)
  -- The column is left empty, and there is a space after it.
  have spaced := dash.spaced.append_gap (blank_spaces 11)
  exact spaced

theorem spaced_joinCommas (children : List Nat) :
    Spaced (listWords children) (joinCommas children) := by
  fun_induction joinCommas children with
  | case1 => exact .nothing blank_nil
  | case2 n => exact (isWord_decimal n).spaced
  | case3 n rest more ih =>
    have word : IsWord (decimal n ++ [',']) := by
      refine ⟨by simp, ?_⟩
      have comma : ∀ c ∈ [','], ¬ IsBlank c := List.forall_mem_singleton.mpr (by decide)
      exact List.forall_mem_append.mpr ⟨(isWord_decimal n).solid, comma⟩
    have first := word.spaced_rightpad 0 ih
    simpa [listWords, List.rightpad, more] using first

theorem unbroken_joinCommas (children : List Nat) : '\n' ∉ joinCommas children := by
  fun_induction joinCommas children with
  | case1 => simp
  | case2 n => exact (isWord_decimal n).unbroken
  | case3 n rest more ih => simp [(isWord_decimal n).unbroken, ih]

theorem ended_childLine (children : List Nat) :
    Ended ["isolated:".toList :: listWords children]
      ([].leftpad 8 ' ' ++ " isolated: ".toList ++ joinCommas children ++ ['\n']) := by
  have label : IsWord "isolated:".toList := isWord_of_all (by decide) (by decide)
  have spaced := (label.spaced_rightpad 0 (spaced_joinCommas children)).append_gap (blank_spaces 9)
  exact ended_line (List.not_mem_append (by decide) (unbroken_joinCommas children)) spaced

theorem unbroken_boolText (b : Bool) : '\n' ∉ boolText b := by cases b <;> decide

def baseLine (base : TimeBase) : List Char :=
  "time base: on_battery=".toList ++ boolText base.onBattery ++ " screen_off=".toList ++
    boolText base.screenOff ++ " since=".toList ++ decimal base.lastTransition ++ "ms".toList

def titleLine : List Char :=
  "entity".toList.leftpad 8 ' ' ++ ' ' :: "state".toList.rightpad 20 ' ' ++
    ' ' :: "column".toList.rightpad 10 ' ' ++ ' ' :: "cpu time per frequency".toList

/-- The lines of the header without their line feeds. -/
def headerLines (base : TimeBase) : List (List Char) :=
  [baseLine base, titleLine, List.replicate 64 '─']

theorem unbroken_headerLines (base : TimeBase) : ∀ line ∈ headerLines base, '\n' ∉ line := by
  have since := (isWord_decimal base.lastTransition).unbroken
  have first : '\n' ∉ baseLine base := by
    unfold baseLine
    simp [unbroken_boolText, since]
  simp only [headerLines, List.forall_mem_cons, List.not_mem_nil, false_implies, implies_true,
    and_true]
  exact ⟨first, by decide, by decide⟩

theorem header_eq (base : TimeBase) :
    header base = (headerLines base).flatMap fun line => line ++ ['\n'] := by
  have feed : "ms\n".toList = "ms".toList ++ ['\n'] := rfl
  unfold header headerLines baseLine titleLine
  simp only [feed, tableLine, ruleLine, List.flatMap_cons, List.flatMap_nil, List.append_assoc,
    List.append_nil]

/-- The cells that a row shows. -/
def rowCells (entity : Nat) (row : SnapshotRow) : List Cell :=
  (cellAt? entity row.slot .allTime row.allTime).toList ++
    (cellAt? entity row.slot .screenOff row.screenOff).toList

theorem ended_rowLines (entity : Nat) (row : SnapshotRow) :
    Ended ((rowCells entity row).map Cell.toWords) (rowLines entity row) := by
  rw [rowCells, List.map_append]
  exact (ended_cellLine entity row.slot .allTime row.allTime).append
    (ended_cellLine entity row.slot .screenOff row.screenOff)

end Snapshot

/-- Leaving out items that contribute nothing does not matter. -/
theorem flatMap_filter {α β : Type} {l : List α} {keep : α → Bool} {f : α → List β}
    (nothing : ∀ item ∈ l, keep item = false → f item = []) :
    (l.filter keep).flatMap f = l.flatMap f := by
  induction l with
  | nil => rfl
  | cons item l ih =>
    obtain ⟨first, others⟩ := List.forall_mem_cons.mp nothing
    cases kept : keep item with
    | true => rw [List.filter_cons_of_pos kept, List.flatMap_cons, List.flatMap_cons, ih others]
    | false =>
      rw [List.filter_cons_of_neg (by simp [kept]), List.flatMap_cons, first kept, ih others,
        List.nil_append]

namespace Ledger

open Snapshot

/-- The rows of an entity in a snapshot show its cells. -/
theorem cellsOf_eq (ledger : Ledger) (entity : Nat) :
    ledger.store.cellsOf entity =
      (ledger.entitySnapshot entity).rows.flatMap (rowCells entity) := by
  have slots : ledger.store.cellsOf entity = Slot.all.flatMap fun slot =>
      rowCells entity ⟨slot, ledger.store.cell? entity slot .allTime,
        ledger.store.cell? entity slot .screenOff⟩ := by
    rw [Store.cellsOf, Account.places, List.filterMap_flatMap]
    refine List.flatMap_congr fun slot _ => ?_
    simp only [List.filterMap_cons, List.filterMap_nil, rowCells]
    cases ledger.store.cell? entity slot .allTime <;>
      cases ledger.store.cell? entity slot .screenOff <;> rfl
  rw [slots, entitySnapshot]
  cases found : ledger.store.accounts.get? entity with
  | none => simp [Store.cell?_of_none found, rowCells, cellAt?]
  | some account =>
    simp only [Store.cell?_of_some found, Option.map_some, Option.getD_some, Account.snapshotRows,
      Account.rows, List.flatMap_map]
    refine (flatMap_filter fun slot _ left => ?_).symm
    obtain ⟨whole, part⟩ := not_or.mp (of_decide_eq_false left)
    have noWhole : account.cell? slot .allTime = none := Table.not_mem_iff.mp whole
    have noPart : account.cell? slot .screenOff = none := Table.not_mem_iff.mp part
    rw [noWhole, noPart]
    rfl

theorem rows_eq_nil_iff (ledger : Ledger) (entity : Nat) :
    (ledger.entitySnapshot entity).rows = [] ↔ ledger.store.cellsOf entity = [] := by
  constructor
  · intro empty
    rw [cellsOf_eq, empty, List.flatMap_nil]
  · intro empty
    refine List.eq_nil_iff_forall_not_mem.mpr fun row mem => ?_
    have listed := List.mem_map_of_mem (f := SnapshotRow.slot) mem
    obtain ⟨column, present⟩ := ((ledger.details_entitySnapshot entity).complete row.slot).mp listed
    obtain ⟨usage, found⟩ := Option.ne_none_iff_exists'.mp present
    have cell : (Cell.mk entity row.slot column usage) ∈ ledger.store.cellsOf entity :=
      Store.mem_cellsOf.mpr ⟨rfl, found⟩
    rw [empty] at cell
    exact List.not_mem_nil cell

theorem ended_entityLines (ledger : Ledger) (entity : Nat) :
    Ended (ledger.entityWords entity) (Snapshot.entityLines (ledger.entitySnapshot entity)) := by
  have rows : Ended ((ledger.store.cellsOf entity).map Cell.toWords)
      ((ledger.entitySnapshot entity).rows.flatMap (rowLines entity)) := by
    rw [cellsOf_eq, List.map_flatMap]
    exact Ended.flatMap fun row _ => ended_rowLines entity row
  have bare := ledger.rows_eq_nil_iff entity
  refine Ended.append ?_ ?_
  · by_cases empty : ledger.store.cellsOf entity = []
    · rw [if_pos empty, if_pos (bare.mpr empty)]
      exact ended_bareLine entity _
    · rw [if_neg empty, if_neg (mt bare.mp empty)]
      exact rows
  · by_cases alone : ledger.isolation.childrenOf entity = []
    · rw [if_pos alone, if_pos (by exact alone)]
      exact ended_nil
    · rw [if_neg alone, if_neg (by exact alone)]
      exact ended_childLine _

/-- Behind the three lines of the header, the words of the table's lines are those of each cell, of
a dash for each listed entity without one, and of the isolated entities, entity by entity. No cell
has more than one line or less, and all of them can be read back. -/
theorem Reachable.tableText_lines {ledger : Ledger} (reachable : ledger.Reachable) :
    ∃ head body, head.length = 3 ∧
      lines ledger.snapshot.tableText.toList = head ++ body ++ [[]] ∧
      body.map words = ledger.listed.flatMap ledger.entityWords ∧
      ledger.listed.Pairwise (· < ·) ∧
      (∀ entity, entity ∈ ledger.listed ↔
        entity ∈ ledger.standing ∨ ∃ slot column, ledger.store.cell? entity slot column ≠ none) ∧
      (∀ entity, (ledger.isolation.childrenOf entity).Pairwise (· < ·) ∧
        ∀ child, child ∈ ledger.isolation.childrenOf entity ↔
          ledger.isolation.parentOf child = some entity) ∧
      (∀ cell : Cell, (body.map words).count cell.toWords =
        if ledger.store.cell? cell.entity cell.slot cell.column = some cell.usage then 1 else 0) ∧
      (body.map words).filterMap Cell.ofWords? = ledger.cells ∧
      ∀ cell : Cell, cell ∈ ledger.cells ↔
        ledger.store.cell? cell.entity cell.slot cell.column = some cell.usage := by
  have unbroken := unbroken_headerLines ledger.timeBase
  have ended : Ended ledger.tableWords (ledger.snapshot.entities.flatMap Snapshot.entityLines) := by
    rw [snapshot, List.flatMap_map]
    exact Ended.flatMap fun entity _ => ledger.ended_entityLines entity
  obtain ⟨body, unbroken', bodyWords, bodyText⟩ := ended
  have text : ledger.snapshot.tableText.toList =
      (headerLines ledger.timeBase ++ body).flatMap fun line => line ++ ['\n'] := by
    rw [Snapshot.tableText, String.toList_ofList, Snapshot.table, header_eq, bodyText,
      List.flatMap_append]
    rfl
  have cut := lines_eq_iff.mpr (lined_of_ended (List.forall_mem_append.mpr ⟨unbroken, unbroken'⟩))
  rw [← text] at cut
  refine ⟨_, body, rfl, cut, bodyWords, Table.keys_ascending _, fun _ => reachable.mem_listed,
    fun entity => ⟨ledger.isolation.childrenOf_ascending entity, fun child =>
      ledger.isolation.mem_childrenOf entity child⟩, ?_, ?_, fun _ => reachable.mem_cells⟩
  · rw [bodyWords]
    exact reachable.count_tableWords
  · rw [bodyWords]
    exact ledger.filterMap_tableWords

/-- There is another isolated entity, and somebody whose id is too wide for its column. -/
def tabulated : List (Call ScriptedMeter) :=
  reportedToo ++ [.notice (.isolate 1 30), .notice (.classify 1234567890 .heavyWeight)]

theorem Reachable.tableText_lines_tabulated :
    let ledger := (Session.blank.run tabulated).ledger
    ∃ head body, head.length = 3 ∧
      lines ledger.snapshot.tableText.toList = head ++ body ++ [[]] ∧
      body.map words = [["1", "top", "all", "5", "1"], ["1", "top", "screen_off", "5", "1"],
        ["isolated:", "2,", "30"], ["2", "cached", "all", "3", "0"],
        ["2", "cached", "screen_off", "3", "0"], ["1234567890", "unknown", "-"]].map
          (List.map String.toList) ∧
      (body.map words).filterMap Cell.ofWords? = [⟨1, .known .top, .allTime, [5, 1]⟩,
        ⟨1, .known .top, .screenOff, [5, 1]⟩, ⟨2, .known .cached, .allTime, [3, 0]⟩,
        ⟨2, .known .cached, .screenOff, [3, 0]⟩] := by
  intro ledger
  have new : Ledger.new { vectorLen := 2 } = .ok Session.blank.ledger := rfl
  have reachable : ledger.Reachable := ⟨ScriptedMeter, _, _, Session.blank, tabulated, new, rfl⟩
  obtain ⟨head, body, three, cut, bodyWords, -, -, -, -, cells, -⟩ := reachable.tableText_lines
  refine ⟨head, body, three, cut, bodyWords.trans ?_, cells.trans ?_⟩
  · decide +kernel
  · decide +kernel

end Ledger

end UsageLedger
