import UsageLedger.CommandLine
import UsageLedger.Proofs.TimesGrammar

namespace UsageLedger

namespace Text

theorem not_isBlank_of_isDigit {c : Char} (digit : c.isDigit = true) : ¬ IsBlank c := by
  have range : 48 ≤ c.toNat ∧ c.toNat ≤ 57 := by
    simpa [Char.isDigit, UInt32.le_iff_toNat_le] using digit
  simp only [IsBlank, blankRanges, List.mem_cons, List.not_mem_nil, or_false, exists_eq_or_imp,
    exists_eq_left]
  omega

theorem not_isBlank_of_mem_decimal {n : Nat} {c : Char} (mem : c ∈ decimal n) : ¬ IsBlank c :=
  not_isBlank_of_isDigit (isDigit_of_mem_decimal mem)

theorem isNumeral_decimal {bound n : Nat} (below : n < bound) : IsNumeral bound (decimal n) n :=
  ⟨decimal n, .inl rfl, decimal_ne_nil n, fun _ mem => isDigit_of_mem_decimal mem,
    ofDigits_decimal n, below⟩

theorem IsNumeral.lt {bound n : Nat} {token : List Char} (h : IsNumeral bound token n) :
    n < bound := by
  obtain ⟨_, -, -, -, -, below⟩ := h
  exact below

/-- If each line ends with a line feed, there is an empty piece after the last of them. -/
theorem lined_of_ended {pieces : List (List Char)} (unbroken : ∀ piece ∈ pieces, '\n' ∉ piece) :
    Lined (pieces ++ [[]]) (pieces.flatMap fun piece => piece ++ ['\n']) := by
  refine ⟨by simp, ?_, ?_⟩
  · intro piece mem
    rcases List.mem_append.mp mem with mem | mem
    · exact unbroken piece mem
    · simp [List.mem_singleton.mp mem]
  · clear unbroken
    induction pieces with
    | nil => rfl
    | cons piece pieces ih =>
      rw [List.flatMap_cons, ih]
      cases pieces <;> simp [List.intercalate_cons_cons]

end Text

namespace UidTimes

open Text

/-- Contents that a file can have: there are frequencies, each row has a counter for each of them,
and all numbers are in range. -/
structure WellFormed (parsed : UidTimes) : Prop where
  nonempty : parsed.frequencies ≠ []
  frequencies : ∀ frequency ∈ parsed.frequencies, frequency < counterBound
  uids : ∀ row ∈ parsed.times.entries, row.1 < entityBound
  width : ∀ row ∈ parsed.times.entries, row.2.length = parsed.frequencies.length
  counters : ∀ row ∈ parsed.times.entries, ∀ counter ∈ row.2, counter < counterBound

theorem mem_joinSpaced {values : List Nat} {c : Char} (mem : c ∈ joinSpaced values) :
    c = ' ' ∨ c.isDigit = true := by
  fun_induction joinSpaced values with
  | case1 => simp at mem
  | case2 n => exact .inr (isDigit_of_mem_decimal mem)
  | case3 n rest _ ih =>
    rcases List.mem_append.mp mem with digit | mem
    · exact .inr (isDigit_of_mem_decimal digit)
    · rcases List.mem_cons.mp mem with space | mem
      · exact .inl space
      · exact ih mem

theorem unbroken_joinSpaced (values : List Nat) : '\n' ∉ joinSpaced values :=
  fun feed => absurd (mem_joinSpaced feed) (by decide)

theorem spaced_joinSpaced (values : List Nat) :
    Spaced (values.map decimal) (joinSpaced values) := by
  have first {n : Nat} {rest : List Char} {others : List (List Char)}
      (apart : ∀ c ∈ rest.head?, IsBlank c) (later : Spaced others rest) :
      Spaced (decimal n :: others) (decimal n ++ rest) :=
    .word blank_nil (decimal_ne_nil n) (fun _ => not_isBlank_of_mem_decimal) apart later
  fun_induction joinSpaced values with
  | case1 => exact .nothing blank_nil
  | case2 n => simpa using first (n := n) (by simp) (.nothing blank_nil)
  | case3 n rest _ ih =>
    have space : IsBlank ' ' := by decide
    refine first (fun c head => ?_) (ih.cons_blank space)
    obtain rfl : ' ' = c := Option.some.inj head
    exact space

/-- Counters behind a label, as both the header and the rows have them. -/
def labelled (label : List Char) (values : List Nat) : List Char :=
  label ++ ' ' :: joinSpaced values

/-- A line may start with the label. -/
structure IsLabel (label : List Char) : Prop where
  nonempty : label ≠ []
  starts : ∀ c ∈ label.head?, ¬ IsBlank c
  unbroken : '\n' ∉ label

section Labelled

variable {label : List Char} {values : List Nat}

theorem counters_joinSpaced (bounded : ∀ value ∈ values, value < counterBound) :
    Counters values (' ' :: joinSpaced values) := by
  have space : IsBlank ' ' := by decide
  refine ⟨values.map decimal, (spaced_joinSpaced values).cons_blank space, ?_⟩
  rw [List.forall₂_map_left_iff, List.forall₂_same]
  exact fun value mem => isNumeral_decimal (bounded value mem)

/-- The last value ends the line with a digit. -/
theorem isDigit_of_last (front : List Char) (nonempty : values ≠ []) :
    ∀ c ∈ (front ++ joinSpaced values).getLast?, c.isDigit = true := by
  fun_induction joinSpaced values generalizing front with
  | case1 => contradiction
  | case2 n =>
    intro c last
    rw [List.getLast?_append_of_ne_nil _ (decimal_ne_nil n)] at last
    exact isDigit_of_mem_decimal (List.mem_of_getLast? last)
  | case3 n rest more ih =>
    -- The first value and the space after it go over to the front.
    have later := ih (front ++ decimal n ++ [' ']) more
    simpa using later

theorem padded_labelled {gap : List Char} (blank : Blank gap) (isLabel : IsLabel label)
    (nonempty : values ≠ []) : Padded (labelled label values) (gap ++ labelled label values) := by
  refine padded_of_blank blank (fun c head => ?_) (fun c last => ?_)
  · rw [labelled, List.head?_append_of_ne_nil _ isLabel.nonempty] at head
    exact isLabel.starts c head
  · have digit : c.isDigit = true := by
      apply isDigit_of_last (label ++ [' ']) nonempty
      simpa [labelled] using last
    exact not_isBlank_of_isDigit digit

theorem labelled_unbroken (isLabel : IsLabel label) (values : List Nat) :
    '\n' ∉ labelled label values := by
  intro mem
  rcases List.mem_append.mp mem with mem | mem
  · exact isLabel.unbroken mem
  · rcases List.mem_cons.mp mem with space | mem
    · exact absurd space (by decide)
    · exact unbroken_joinSpaced values mem

end Labelled

/-- The blanks that set a uid to the right. -/
def indent (uid : Nat) : List Char := List.replicate (8 - (decimal uid).length) ' '

def uidLabel (uid : Nat) : List Char := decimal uid ++ [':']

theorem isLabel_uidLabel (uid : Nat) : IsLabel (uidLabel uid) := by
  refine ⟨by simp [uidLabel], fun c head => ?_, fun mem => ?_⟩
  · rw [uidLabel, List.head?_append_of_ne_nil _ (decimal_ne_nil uid)] at head
    exact not_isBlank_of_mem_decimal (List.mem_of_mem_head? head)
  · rcases List.mem_append.mp mem with mem | mem
    · exact absurd (isDigit_of_mem_decimal mem) (by decide)
    · simp at mem

theorem isRow_labelled {row : Nat × Measure} (uid : row.1 < entityBound)
    (counters : ∀ counter ∈ row.2, counter < counterBound) :
    IsRow row (labelled (uidLabel row.1) row.2) := by
  have padded : Padded (decimal row.1) (decimal row.1) :=
    padded_of_blank blank_nil
      (fun _ head => not_isBlank_of_mem_decimal (List.mem_of_mem_head? head))
      (fun _ last => not_isBlank_of_mem_decimal (List.mem_of_getLast? last))
  have colon : ':' ∉ decimal row.1 := fun mem => absurd (isDigit_of_mem_decimal mem) (by decide)
  exact ⟨decimal row.1, decimal row.1, ' ' :: joinSpaced row.2, by simp [labelled, uidLabel],
    colon, padded, isNumeral_decimal uid, counters_joinSpaced counters⟩

/-- The lines of a text that is written, without their line feeds. -/
def linesOf (word : List Char) (parsed : UidTimes) : List (List Char) :=
  labelled word parsed.frequencies ::
    parsed.times.entries.map fun row => indent row.1 ++ labelled (uidLabel row.1) row.2

theorem written_eq (word : List Char) (parsed : UidTimes) :
    written word parsed = (linesOf word parsed).flatMap fun line => line ++ ['\n'] := by
  simp [written, linesOf, labelled, rowLine, uidLabel, indent, List.leftpad, List.flatMap_map]

theorem WellFormed.counters_ne_nil {parsed : UidTimes} (wellFormed : parsed.WellFormed)
    {row : Nat × Measure} (mem : row ∈ parsed.times.entries) : row.2 ≠ [] := by
  intro none
  have width := wellFormed.width row mem
  rw [none] at width
  exact wellFormed.nonempty (List.length_eq_zero_iff.mp width.symm)

theorem hasRows_written {word : List Char} {parsed : UidTimes} (isLabel : IsLabel word)
    (wellFormed : parsed.WellFormed) :
    HasRows (labelled word parsed.frequencies ::
      parsed.times.entries.map fun row => labelled (uidLabel row.1) row.2)
      (written word parsed) := by
  have unbroken : ∀ line ∈ linesOf word parsed, '\n' ∉ line := by
    refine List.forall_mem_cons.mpr ⟨labelled_unbroken isLabel _, fun line mem => ?_⟩
    obtain ⟨row, -, rfl⟩ := List.mem_map.mp mem
    intro feed
    rcases List.mem_append.mp feed with feed | feed
    · exact absurd (List.eq_of_mem_replicate feed) (by decide)
    · exact labelled_unbroken (isLabel_uidLabel row.1) row.2 feed
  have header : Padded (labelled word parsed.frequencies) (labelled word parsed.frequencies) :=
    padded_labelled blank_nil isLabel wellFormed.nonempty
  have rows : List.Forall₂ Padded
      (parsed.times.entries.map fun row => labelled (uidLabel row.1) row.2)
      (parsed.times.entries.map fun row => indent row.1 ++ labelled (uidLabel row.1) row.2) := by
    rw [List.forall₂_map_left_iff, List.forall₂_map_right_iff, List.forall₂_same]
    intro row mem
    exact padded_labelled (blank_spaces _) (isLabel_uidLabel row.1)
      (wellFormed.counters_ne_nil mem)
  have ended : Padded [] [] := padded_of_blank blank_nil (by simp) (by simp)
  refine ⟨_, _, written_eq word parsed ▸ lined_of_ended unbroken,
    List.rel_append (List.Forall₂.cons header rows) (.cons ended .nil), ?_⟩
  have filled (label : List Char) (values : List Nat) : labelled label values ≠ [] := by
    simp [labelled]
  rw [List.filter_append, List.filter_eq_self.mpr]
  · simp
  · refine List.forall_mem_cons.mpr ⟨by simpa using filled _ _, fun line mem => ?_⟩
    obtain ⟨row, -, rfl⟩ := List.mem_map.mp mem
    simpa using filled _ _

/-- What is written with the first word of such a file is read back. -/
theorem ofChars_written {parsed : UidTimes} (wellFormed : parsed.WellFormed) :
    ofChars (written "uid:".toList parsed) = .ok parsed := by
  have isLabel : IsLabel "uid:".toList := by
    refine ⟨by decide, fun c head => ?_, by decide⟩
    obtain rfl : 'u' = c := Option.some.inj head
    decide
  refine ofChars_eq_ok_iff.mpr ⟨parsed.times.entries, ?_, .refl _⟩
  refine ⟨⟨_, _, hasRows_written isLabel wellFormed, ?_, ?_⟩, wellFormed.width, ?_⟩
  · exact ⟨wellFormed.nonempty, _, rfl, counters_joinSpaced wellFormed.frequencies⟩
  · rw [List.forall₂_map_right_iff, List.forall₂_same]
    exact fun row mem => isRow_labelled (wellFormed.uids row mem) (wellFormed.counters row mem)
  · exact parsed.times.keys_nodup

theorem Counters.lt {values : List Nat} {text : List Char} (h : Counters values text) :
    ∀ value ∈ values, value < counterBound := by
  obtain ⟨tokens, -, numerals⟩ := h
  have below : List.Forall₂ (fun value token =>
      value < counterBound ∧ IsNumeral counterBound token value) values tokens :=
    (numerals.imp fun token value numeral => ⟨numeral.lt, numeral⟩).flip
  exact ((List.forall₂_and_left _ _).mp below).1

theorem IsRow.bounded {row : Nat × Measure} {line : List Char} (h : IsRow row line) :
    row.1 < entityBound ∧ ∀ counter ∈ row.2, counter < counterBound := by
  obtain ⟨_, _, _, -, -, -, numeral, counters⟩ := h
  exact ⟨numeral.lt, counters.lt⟩

/-- Whatever is read is well-formed. -/
theorem wellFormed_of_ofChars {text : List Char} {parsed : UidTimes}
    (read : ofChars text = .ok parsed) : parsed.WellFormed := by
  obtain ⟨rows, ⟨⟨header, others, -, isHeader, areRows⟩, widths, -⟩, perm⟩ :=
    ofChars_eq_ok_iff.mp read
  obtain ⟨nonempty, labels, -, counters⟩ := isHeader
  have bounded : ∀ row ∈ rows,
      row.1 < entityBound ∧ ∀ counter ∈ row.2, counter < counterBound :=
    ((List.forall₂_and_left _ _).mp (areRows.imp fun row line isRow =>
      ⟨isRow.bounded, isRow⟩)).1
  exact {
    nonempty
    frequencies := counters.lt
    uids := fun row mem => (bounded row (perm.mem_iff.mp mem)).1
    width := fun row mem => widths row (perm.mem_iff.mp mem)
    counters := fun row mem => (bounded row (perm.mem_iff.mp mem)).2 }

end UidTimes

namespace CommandLine

open UidTimes

/-- The listing with the first word of a time-in-state file in place of its own is read back. -/
theorem timesText_read {times : UidTimes} (wellFormed : times.WellFormed) :
    ∃ rest, timesText times .text = "frequencies:" ++ rest ∧
      ofText ("uid:" ++ rest) = .ok times := by
  have split (word : List Char) : written word times = word ++ written [] times := by
    simp [written]
  refine ⟨String.ofList (written [] times), ?_, ?_⟩
  · rw [timesText, listingText, listing, split, String.ofList_append, String.ofList_toList]
  · have characters : (String.ofList (written [] times)).toList = written [] times :=
      String.toList_ofList
    rw [ofText, String.toList_append, characters, ← split]
    exact ofChars_written wellFormed

/-- Whatever contents a file can have, their listing is read back to just these contents. So every
text that is accepted has a normal form: its listing, from which the same contents are read and
printed again. -/
theorem parse_normal_form :
    (∀ times : UidTimes, times.WellFormed → ∃ rest,
      timesText times .text = "frequencies:" ++ rest ∧ ofText ("uid:" ++ rest) = .ok times) ∧
    ∀ (file text : String) (times : UidTimes), ofText text = .ok times → ∃ rest,
      runParse file (.text text) .text = { code := 0, stdout := "frequencies:" ++ rest } ∧
      ofText ("uid:" ++ rest) = .ok times ∧
      runParse file (.text ("uid:" ++ rest)) .text =
        { code := 0, stdout := "frequencies:" ++ rest } := by
  refine ⟨fun times wellFormed => timesText_read wellFormed, fun file text times read => ?_⟩
  obtain ⟨rest, printed, again⟩ := timesText_read (wellFormed_of_ofChars read)
  have prints {content : String} (accepted : ofText content = .ok times) :
      runParse file (.text content) .text = { code := 0, stdout := "frequencies:" ++ rest } := by
    have loaded : FileMeter.load { path := file, content := .text content } = .ok times := accepted
    rw [runParse, loaded, ← printed]
  exact ⟨rest, prints read, again, prints again⟩

/-- A uid that needs more room than it is given, and the largest counter. -/
def wideRows : UidTimes where
  frequencies := [300000, 600000]
  times := ((∅ : Table Measure).insert 123456789 [0, 18446744073709551615]).insert 7 [1, 2]

theorem parse_normal_form_wideRows :
    ofText "uid: 300000 600000\n       7: 1 2\n123456789: 0 18446744073709551615\n" =
      .ok wideRows ∧
    ∃ rest, runParse "times" (.text " uid:\t300000 +600000\r\n\n 0007 :01  2") .text =
      { code := 0, stdout := "frequencies:" ++ rest } ∧
      ofText ("uid:" ++ rest) = .ok ⟨[300000, 600000], (∅ : Table Measure).insert 7 [1, 2]⟩ := by
  obtain ⟨written, read⟩ := parse_normal_form
  have wellFormed : wideRows.WellFormed := by
    refine ⟨by decide, by decide, ?_, ?_, ?_⟩ <;> decide
  have accepted : ofText " uid:\t300000 +600000\r\n\n 0007 :01  2" =
      .ok ⟨[300000, 600000], (∅ : Table Measure).insert 7 [1, 2]⟩ := by
    decide +kernel
  constructor
  · obtain ⟨rest, printed, again⟩ := written wideRows wellFormed
    have text : timesText wideRows .text = "frequencies:" ++
        " 300000 600000\n       7: 1 2\n123456789: 0 18446744073709551615\n" := by
      decide +kernel
    rw [text] at printed
    obtain rfl := (String.append_right_inj _).mp printed
    exact again
  · obtain ⟨rest, printed, again, -⟩ := read "times" _ _ accepted
    exact ⟨rest, printed, again⟩

end CommandLine

end UsageLedger
