import UsageLedger.UidTimes
import UsageLedger.Proofs.Cuts
import Mathlib.Data.List.Forall2
import Mathlib.Data.List.Nodup

namespace UsageLedger

namespace Table

variable {α : Type}

theorem insertEntry_perm {key : Nat} {entries : List (Nat × α)}
    (new : ∀ entry ∈ entries, entry.1 ≠ key) (value : α) :
    (insertEntry key value entries).Perm ((key, value) :: entries) := by
  induction entries with
  | nil => exact .refl _
  | cons first rest ih =>
    obtain ⟨ne, new⟩ := List.forall_mem_cons.mp new
    rw [insertEntry]
    split
    · exact .refl _
    · rw [if_neg (Ne.symm ne)]
      exact ((ih new).cons first).trans (.swap _ _ _)

theorem entries_insert_perm {table : Table α} {key : Nat} (new : key ∉ table) (value : α) :
    (table.insert key value).entries.Perm ((key, value) :: table.entries) := by
  apply insertEntry_perm
  rintro ⟨other, bound⟩ mem rfl
  exact new (mem_iff.mpr ⟨bound, (mem_entries_iff table other bound).mp mem⟩)

theorem exists_entries_perm {entries : List (Nat × α)} (distinct : (entries.map Prod.fst).Nodup) :
    ∃ table : Table α, table.entries.Perm entries := by
  induction entries with
  | nil => exact ⟨∅, .refl _⟩
  | cons entry entries ih =>
    obtain ⟨new, distinct⟩ := List.nodup_cons.mp distinct
    obtain ⟨table, perm⟩ := ih distinct
    have absent : entry.1 ∉ table := fun mem =>
      new ((perm.map Prod.fst).mem_iff.mp ((mem_keys table entry.1).mpr mem))
    exact ⟨table.insert entry.1 entry.2,
      (entries_insert_perm absent entry.2).trans (perm.cons entry)⟩

/-- Tables with the same entries are equal, in whatever order the entries are given. -/
theorem eq_of_entries_perm {table other : Table α} (perm : table.entries.Perm other.entries) :
    table = other := by
  apply ext_get?
  intro key
  apply Option.ext
  intro value
  rw [← mem_entries_iff, ← mem_entries_iff]
  exact perm.mem_iff

end Table

namespace UidTimes

open Text

/-- The rows are the lines of the text, in order, without the blanks around them and without those
lines that are blank. -/
def HasRows (rows : List (List Char)) (text : List Char) : Prop :=
  ∃ pieces cores, Lined pieces text ∧ List.Forall₂ Padded cores pieces ∧
    rows = cores.filter (· ≠ [])

/-- The text consists of numerals for these counters, with blanks between them. -/
def Counters (values : List Nat) (text : List Char) : Prop :=
  ∃ tokens, Spaced tokens text ∧ List.Forall₂ (IsNumeral counterBound) tokens values

/-- A header names at least one frequency. -/
def IsHeader (frequencies : List Nat) (line : List Char) : Prop :=
  frequencies ≠ [] ∧ ∃ labels, line = "uid:".toList ++ labels ∧ Counters frequencies labels

/-- A uid stands before the first colon of its line, and its counters stand after it. -/
def IsRow (row : Nat × Measure) (line : List Char) : Prop :=
  ∃ label token counters, line = label ++ ':' :: counters ∧ ':' ∉ label ∧ Padded token label ∧
    IsNumeral entityBound token row.1 ∧ Counters row.2 counters

/-- The text lists the frequencies in its header and then, line by line, the rows. Each row has
a counter for every frequency, and no uid has two rows. -/
structure Lists (frequencies : List Nat) (rows : List (Nat × Measure)) (text : List Char) :
    Prop where
  lines : ∃ header others, HasRows (header :: others) text ∧ IsHeader frequencies header ∧
    List.Forall₂ IsRow rows others
  width : ∀ row ∈ rows, row.2.length = frequencies.length
  distinct : (rows.map Prod.fst).Nodup

theorem map_trim_eq_iff {pieces cores : List (List Char)} :
    pieces.map trim = cores ↔ List.Forall₂ Padded cores pieces := by
  induction pieces generalizing cores with
  | nil => rw [List.map_nil, List.forall₂_nil_right_iff, eq_comm]
  | cons piece pieces ih =>
    rw [List.map_cons, List.forall₂_cons_right_iff, eq_comm]
    constructor
    · rintro rfl
      exact ⟨_, _, padded_trim piece, ih.mp rfl, rfl⟩
    · rintro ⟨core, cores, padded, rest, rfl⟩
      rw [trim_of_padded padded, ih.mpr rest]

theorem map_fst_numberedLines (text : List Char) :
    (numberedLines text).map Prod.fst = ((lines text).map trim).filter (· ≠ []) := by
  have unnumbered : (((lines text).map trim).zipIdx 1).map Prod.fst = (lines text).map trim :=
    List.zipIdx_map_fst 1 _
  rw [numberedLines]
  conv_rhs => rw [← unnumbered, List.filter_map]
  rfl

theorem hasRows_iff {rows : List (List Char)} {text : List Char} :
    HasRows rows text ↔ (numberedLines text).map Prod.fst = rows := by
  rw [map_fst_numberedLines]
  constructor
  · rintro ⟨pieces, cores, lined, padded, rfl⟩
    rw [lines_eq_iff.mpr lined, map_trim_eq_iff.mpr padded]
  · rintro rfl
    exact ⟨lines text, _, lines_eq_iff.mp rfl, map_trim_eq_iff.mp rfl, rfl⟩

theorem readCounters_eq_ok_iff {tokens : List (List Char)} {values : List Nat} :
    readCounters tokens = .ok values ↔ List.Forall₂ (IsNumeral counterBound) tokens values := by
  induction tokens generalizing values with
  | nil =>
    rw [List.forall₂_nil_left_iff, readCounters, Except.ok.injEq, eq_comm]
  | cons token tokens ih =>
    rw [readCounters, List.forall₂_cons_left_iff]
    constructor
    · intro read
      split at read
      · contradiction
      next value numeral =>
        split at read
        · contradiction
        next others rest =>
          cases read
          exact ⟨value, others, numeral?_eq_some_iff.mp numeral, ih.mp rest, rfl⟩
    · rintro ⟨value, others, numeral, rest, rfl⟩
      simp only [numeral?_eq_some_iff.mpr numeral, ih.mpr rest]

theorem counters_iff {values : List Nat} {text : List Char} :
    Counters values text ↔ readCounters (words text) = .ok values := by
  rw [readCounters_eq_ok_iff]
  constructor
  · rintro ⟨tokens, spaced, numerals⟩
    rwa [words_eq_iff.mpr spaced]
  · exact fun numerals => ⟨words text, words_eq_iff.mp rfl, numerals⟩

theorem readHeader_eq_ok_iff {line : List Char} {frequencies : List Nat} :
    readHeader line = .ok frequencies ↔ IsHeader frequencies line := by
  unfold readHeader
  constructor
  · intro read
    split at read
    · contradiction
    next labels cut =>
      split at read
      · contradiction
      · contradiction
      next values nonempty counters =>
        cases read
        exact ⟨nonempty, labels, dropStart?_eq_some_iff.mp cut, counters_iff.mpr counters⟩
  · rintro ⟨nonempty, labels, cut, counters⟩
    simp only [dropStart?_eq_some_iff.mpr cut, counters_iff.mp counters]

theorem splitColon?_eq_some_iff {line label counters : List Char} :
    splitColon? line = some (label, counters) ↔ line = label ++ ':' :: counters ∧ ':' ∉ label := by
  induction line generalizing label with
  | nil => simp [splitColon?]
  | cons c line ih =>
    rw [splitColon?]
    by_cases colon : c = ':'
    · subst colon
      rw [if_pos rfl, Option.some.injEq, Prod.mk.injEq]
      constructor
      · rintro ⟨rfl, rfl⟩
        exact ⟨rfl, List.not_mem_nil⟩
      · rintro ⟨cut, first⟩
        cases label with
        | nil => exact ⟨rfl, (List.cons.inj cut).2⟩
        | cons d label =>
          obtain rfl := (List.cons.inj cut).1
          exact absurd List.mem_cons_self first
    · rw [if_neg colon, Option.map_eq_some_iff]
      constructor
      · rintro ⟨⟨before, after⟩, cut, eq⟩
        cases eq
        obtain ⟨rfl, first⟩ := ih.mp cut
        exact ⟨rfl, by simp [first, Ne.symm colon]⟩
      · rintro ⟨cut, first⟩
        cases label with
        | nil => exact absurd (List.cons.inj cut).1 colon
        | cons d label =>
          obtain ⟨rfl, rfl⟩ := List.cons.inj cut
          have absent : ':' ∉ label := fun mem => first (List.mem_cons_of_mem c mem)
          exact ⟨(label, counters), ih.mpr ⟨rfl, absent⟩, rfl⟩

theorem readRow_eq_ok_iff {frequencies : Nat} {times after : Table Measure} {line : List Char} :
    readRow frequencies times line = .ok after ↔ ∃ row, IsRow row line ∧
      row.2.length = frequencies ∧ row.1 ∉ times ∧ after = times.insert row.1 row.2 := by
  unfold readRow
  constructor
  · intro read
    split at read
    · contradiction
    next label counters cut =>
      obtain ⟨rfl, first⟩ := splitColon?_eq_some_iff.mp cut
      split at read
      · contradiction
      next uid numeral =>
        split at read
        · contradiction
        next values counted =>
          split at read
          · contradiction
          next width =>
            split at read
            · contradiction
            next new =>
              cases read
              refine ⟨(uid, values), ⟨label, trim label, counters, rfl, first, padded_trim label,
                ?_, counters_iff.mpr counted⟩, not_not.mp width, new, rfl⟩
              exact numeral?_eq_some_iff.mp numeral
  · rintro ⟨⟨uid, values⟩, ⟨label, token, counters, rfl, first, padded, numeral, counted⟩, width,
      new, rfl⟩
    simp only [splitColon?_eq_some_iff.mpr ⟨rfl, first⟩, trim_of_padded padded,
      numeral?_eq_some_iff.mpr numeral, counters_iff.mp counted]
    rw [if_neg (not_not.mpr width), if_neg new]

/-- Rows are new to a table and to the row just put into it if they are new to the table and have
other uids than that row. -/
theorem forall_not_mem_insert {times : Table Measure} {uid : Nat} {values : Measure}
    {rows : List (Nat × Measure)} :
    (∀ row ∈ rows, row.1 ∉ times.insert uid values) ↔
      uid ∉ rows.map Prod.fst ∧ ∀ row ∈ rows, row.1 ∉ times := by
  constructor
  · intro news
    refine ⟨fun mem => ?_, fun row mem old => news row mem (Table.mem_insert.mpr (.inr old))⟩
    obtain ⟨row, row_mem, rfl⟩ := List.mem_map.mp mem
    exact news row row_mem (Table.mem_insert.mpr (.inl rfl))
  · rintro ⟨other, news⟩ row mem old
    rcases Table.mem_insert.mp old with rfl | old
    · exact other (List.mem_map_of_mem mem)
    · exact news row mem old

theorem readRows_eq_ok_iff {frequencies : Nat} {times after : Table Measure}
    {lines : List (List Char × Nat)} :
    readRows frequencies times lines = .ok after ↔ ∃ rows,
      List.Forall₂ IsRow rows (lines.map Prod.fst) ∧ (∀ row ∈ rows, row.2.length = frequencies) ∧
      (rows.map Prod.fst).Nodup ∧ (∀ row ∈ rows, row.1 ∉ times) ∧
      after.entries.Perm (rows ++ times.entries) := by
  induction lines generalizing times with
  | nil =>
    rw [readRows, Except.ok.injEq]
    constructor
    · rintro rfl
      exact ⟨[], .nil, by simp⟩
    · rintro ⟨rows, none, -, -, -, perm⟩
      cases none
      exact (Table.eq_of_entries_perm perm).symm
  | cons line lines ih =>
    obtain ⟨line, number⟩ := line
    rw [readRows]
    constructor
    · intro read
      split at read
      · contradiction
      next middle first =>
        obtain ⟨row, isRow, width, new, rfl⟩ := readRow_eq_ok_iff.mp first
        obtain ⟨rows, areRows, widths, distinct, news, perm⟩ := ih.mp read
        obtain ⟨other, news⟩ := forall_not_mem_insert.mp news
        refine ⟨row :: rows, .cons isRow areRows, List.forall_mem_cons.mpr ⟨width, widths⟩,
          List.nodup_cons.mpr ⟨other, distinct⟩, List.forall_mem_cons.mpr ⟨new, news⟩, ?_⟩
        have added := (Table.entries_insert_perm new row.2).append_left rows
        exact perm.trans (added.trans List.perm_middle)
    · rintro ⟨rows, areRows, widths, distinct, news, perm⟩
      obtain ⟨row, others, isRow, rest, rfl⟩ := List.forall₂_cons_right_iff.mp areRows
      obtain ⟨width, widths⟩ := List.forall_mem_cons.mp widths
      obtain ⟨other, distinct⟩ := List.nodup_cons.mp distinct
      obtain ⟨new, news⟩ := List.forall_mem_cons.mp news
      have first : readRow frequencies times line = .ok (times.insert row.1 row.2) :=
        readRow_eq_ok_iff.mpr ⟨row, isRow, width, new, rfl⟩
      simp only [first]
      have added := (Table.entries_insert_perm new row.2).append_left others
      refine ih.mpr ⟨others, rest, widths, distinct, forall_not_mem_insert.mpr ⟨other, news⟩, ?_⟩
      exact perm.trans (List.perm_middle.symm.trans added.symm)

theorem ofChars_eq_ok_iff {text : List Char} {parsed : UidTimes} :
    ofChars text = .ok parsed ↔
      ∃ rows, Lists parsed.frequencies rows text ∧ parsed.times.entries.Perm rows := by
  unfold ofChars
  constructor
  · intro read
    split at read
    · contradiction
    next header number others cut =>
      split at read
      · contradiction
      next frequencies isHeader =>
        split at read
        · contradiction
        next times taken =>
          cases read
          obtain ⟨rows, areRows, widths, distinct, -, perm⟩ := readRows_eq_ok_iff.mp taken
          have content : HasRows (header :: others.map Prod.fst) text :=
            hasRows_iff.mpr (congrArg (List.map Prod.fst) cut)
          refine ⟨rows, ⟨⟨header, _, content, readHeader_eq_ok_iff.mp isHeader, areRows⟩, widths,
            distinct⟩, ?_⟩
          rwa [show (∅ : Table Measure).entries = [] from rfl, List.append_nil] at perm
  · rintro ⟨rows, ⟨⟨header, others, content, isHeader, areRows⟩, widths, distinct⟩, perm⟩
    obtain ⟨⟨first, number⟩, numbered, cut, rfl, rfl⟩ :=
      List.map_eq_cons_iff.mp (hasRows_iff.mp content)
    have taken : readRows parsed.frequencies.length ∅ numbered = .ok parsed.times := by
      refine readRows_eq_ok_iff.mpr ⟨rows, areRows, widths, distinct, ?_, ?_⟩
      · exact fun row _ => Table.not_mem_iff.mpr (Table.get?_empty row.1)
      · rwa [show (∅ : Table Measure).entries = [] from rfl, List.append_nil]
    simp only [cut, readHeader_eq_ok_iff.mpr isHeader, taken]

/-- A text is read exactly if the grammar describes it, and what is read is what the text lists: its
frequencies in their order, and one entry for each row. -/
theorem ofText_eq_ok_iff (text : String) :
    ((∃ parsed, ofText text = .ok parsed) ↔
      ∃ frequencies rows, Lists frequencies rows text.toList) ∧
    ∀ parsed, ofText text = .ok parsed ↔
      ∃ rows, Lists parsed.frequencies rows text.toList ∧ parsed.times.entries.Perm rows := by
  refine ⟨⟨?_, ?_⟩, fun parsed => ofChars_eq_ok_iff⟩
  · rintro ⟨parsed, read⟩
    obtain ⟨rows, lists, -⟩ := ofChars_eq_ok_iff.mp read
    exact ⟨parsed.frequencies, rows, lists⟩
  · rintro ⟨frequencies, rows, lists⟩
    obtain ⟨times, perm⟩ := Table.exists_entries_perm lists.distinct
    exact ⟨⟨frequencies, times⟩, ofChars_eq_ok_iff.mpr ⟨rows, lists, perm⟩⟩

end UidTimes

end UsageLedger
