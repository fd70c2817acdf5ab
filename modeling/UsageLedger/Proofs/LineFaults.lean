import UsageLedger.Proofs.TimesGrammar
import Mathlib.Data.List.Sort

namespace UsageLedger

namespace Text

theorem trim_eq_nil_iff {text : List Char} : trim text = [] ↔ Blank text := by
  rw [trim_eq_iff]
  constructor
  · rintro ⟨⟨before, after, blank, blank', rfl⟩, -, -⟩
    intro c mem
    rw [List.append_nil] at mem
    exact (List.mem_append.mp mem).elim (blank c) (blank' c)
  · intro blank
    have padded : Padded [] (text ++ []) := padded_of_blank blank (by simp) (by simp)
    rwa [List.append_nil] at padded

/-- The line with the number, counted from one. There is nothing on the lines after the last. -/
def lineAt (text : List Char) : Nat → List Char
  | 0 => []
  | index + 1 => (text.splitOn '\n').getD index []

/-- The two texts have the same on the line, up to the blanks around it. -/
def SameLine (number : Nat) (text other : List Char) : Prop :=
  trim (lineAt text number) = trim (lineAt other number)

instance (number : Nat) (text other : List Char) : Decidable (SameLine number text other) :=
  inferInstanceAs (Decidable (_ = _))

/-- The second text is made of the lines of the first one before the number. -/
structure StopsBefore (number : Nat) (text start : List Char) : Prop where
  same : ∀ line < number, SameLine line text start
  blank : ∀ line, number ≤ line → Blank (lineAt start line)

theorem lineAt_take (count : Nat) (text : List Char) (number : Nat) :
    lineAt (['\n'].intercalate ((text.splitOn '\n').take count)) number =
      if number ≤ count then lineAt text number else [] := by
  have unbroken : ∀ piece ∈ (text.splitOn '\n').take count, '\n' ∉ piece :=
    fun piece mem => not_mem_of_mem_splitOn (List.mem_of_mem_take mem)
  cases number with
  | zero => rfl
  | succ index =>
    by_cases none : (text.splitOn '\n').take count = []
    · have zero : count = 0 := by simpa using none
      subst zero
      cases index <;> rfl
    · rw [lineAt, lineAt, List.splitOn_intercalate '\n' unbroken none, List.getD_eq_getElem?_getD,
        List.getElem?_take]
      by_cases within : index < count
      · rw [if_pos within, if_pos (Nat.succ_le_of_lt within), List.getD_eq_getElem?_getD]
      · rw [if_neg within, if_neg (mt Nat.lt_of_succ_le within), Option.getD_none]

/-- The first lines alone, joined again, are such a text. -/
theorem stopsBefore_take (count : Nat) (text : List Char) :
    StopsBefore (count + 1) text (['\n'].intercalate ((text.splitOn '\n').take count)) := by
  constructor
  · intro line before
    rw [SameLine, lineAt_take, if_pos (Nat.le_of_lt_succ before)]
  · intro line after
    rw [lineAt_take, if_neg (Nat.not_le_of_lt after)]
    exact blank_nil

end Text

namespace UidTimes

open Text

/-- The numbers of the lines ascend. -/
def Ascending (numbered : List (List Char × Nat)) : Prop :=
  numbered.Pairwise fun line next => line.2 < next.2

theorem numberedLines_ascending (text : List Char) : Ascending (numberedLines text) := by
  apply List.Pairwise.filter
  rw [← List.pairwise_map (f := Prod.snd) (R := (· < ·)), List.zipIdx_map_snd]
  exact List.pairwise_lt_range'

theorem mem_numberedLines {text line : List Char} {number : Nat} :
    (line, number) ∈ numberedLines text ↔ line = trim (lineAt text number) ∧ line ≠ [] := by
  rw [numberedLines, List.mem_filter, List.mk_mem_zipIdx_iff_le_and_getElem?_sub,
    lines_eq_splitOn, List.getElem?_map, decide_eq_true_iff]
  refine and_congr_left fun filled => ?_
  cases number with
  | zero => simpa [lineAt, trim, trimStart] using filled
  | succ index =>
    rw [lineAt, List.getD_eq_getElem?_getD, Nat.add_sub_cancel]
    cases (text.splitOn '\n')[index]? with
    | none => simpa [trim, trimStart] using filled
    | some piece => simp [eq_comm]

theorem Ascending.ext {numbered other : List (List Char × Nat)} (h : Ascending numbered)
    (h' : Ascending other) (same : ∀ line, line ∈ numbered ↔ line ∈ other) : numbered = other := by
  have : Std.Antisymm fun line next : List Char × Nat => line.2 < next.2 :=
    ⟨fun _ _ lt gt => absurd gt (Nat.lt_asymm lt)⟩
  have : Std.Irrefl fun line next : List Char × Nat => line.2 < next.2 :=
    ⟨fun line => Nat.lt_irrefl line.2⟩
  exact List.Pairwise.eq_of_mem_iff h h' same

/-- Lines in order fall into those before a number and those from there on. -/
theorem Ascending.filter_append_filter {numbered : List (List Char × Nat)} (h : Ascending numbered)
    (number : Nat) :
    numbered.filter (fun line => line.2 < number) ++ numbered.filter (fun line => number ≤ line.2) =
      numbered := by
  induction numbered with
  | nil => rfl
  | cons line numbered ih =>
    obtain ⟨later, rest⟩ := List.pairwise_cons.mp h
    by_cases before : line.2 < number
    · rw [List.filter_cons_of_pos (by simpa using before),
        List.filter_cons_of_neg (by simpa using before), List.cons_append, ih rest]
    · have reached : ∀ next ∈ line :: numbered, number ≤ next.2 := by
        refine List.forall_mem_cons.mpr ⟨Nat.le_of_not_lt before, fun next mem => ?_⟩
        have := later next mem
        omega
      rw [List.filter_eq_nil_iff.mpr, List.filter_eq_self.mpr, List.nil_append]
      · simpa using reached
      · simpa using reached

/-- The numbered lines of a text before a number. -/
def front (number : Nat) (text : List Char) : List (List Char × Nat) :=
  (numberedLines text).filter fun line => line.2 < number

section Front

variable {text other : List Char} {number : Nat}

theorem front_congr (same : ∀ line < number, SameLine line text other) :
    front number other = front number text := by
  apply Ascending.ext ((numberedLines_ascending other).filter _)
    ((numberedLines_ascending text).filter _)
  rintro ⟨line, number'⟩
  simp only [List.mem_filter, mem_numberedLines, decide_eq_true_iff]
  refine and_congr_left fun before => ?_
  rw [same number' before]

theorem front_prefix (number : Nat) (text : List Char) :
    ∃ rest, numberedLines text = front number text ++ rest :=
  ⟨_, ((numberedLines_ascending text).filter_append_filter number).symm⟩

theorem numberedLines_of_stopsBefore (stops : StopsBefore number text other) :
    numberedLines other = front number text := by
  rw [← front_congr stops.same, front, eq_comm, List.filter_eq_self]
  rintro ⟨line, number'⟩ mem
  obtain ⟨rfl, filled⟩ := mem_numberedLines.mp mem
  rw [decide_eq_true_iff]
  by_contra reached
  exact filled (trim_eq_nil_iff.mpr (stops.blank number' (Nat.le_of_not_lt reached)))

variable {line : List Char} {before after : List (List Char × Nat)}
  (cut : numberedLines text = before ++ (line, number) :: after)

include cut

theorem not_blank_of_cut : ¬ Blank (lineAt text number) := by
  have mem : (line, number) ∈ numberedLines text := by simp [cut]
  obtain ⟨rfl, filled⟩ := mem_numberedLines.mp mem
  exact fun blank => filled (trim_eq_nil_iff.mpr blank)

/-- A line stands after those with lower numbers, and before those with higher ones. -/
theorem front_of_cut :
    front number text = before ∧ front (number + 1) text = before ++ [(line, number)] := by
  have ascending := numberedLines_ascending text
  rw [cut] at ascending
  obtain ⟨-, rest, apart⟩ := List.pairwise_append.mp ascending
  have earlier : ∀ entry ∈ before, entry.2 < number :=
    fun entry mem => apart entry mem _ List.mem_cons_self
  have later : ∀ entry ∈ after, number < entry.2 := (List.pairwise_cons.mp rest).1
  have kept {bound : Nat} (le : number ≤ bound) :
      before.filter (fun entry => entry.2 < bound) = before :=
    List.filter_eq_self.mpr fun entry mem =>
      decide_eq_true (Nat.lt_of_lt_of_le (earlier entry mem) le)
  have dropped {bound : Nat} (le : bound ≤ number + 1) :
      after.filter (fun entry => entry.2 < bound) = [] := by
    refine List.filter_eq_nil_iff.mpr fun entry mem => ?_
    have := later entry mem
    rw [decide_eq_true_iff]
    omega
  constructor
  · rw [front, cut, List.filter_append, kept le_rfl, List.filter_cons_of_neg (by simp),
      dropped (Nat.le_succ number), List.append_nil]
  · rw [front, cut, List.filter_append, kept (Nat.le_succ number),
      List.filter_cons_of_pos (by simp), dropped le_rfl]

end Front

/-- What the numbered lines say. -/
def ofLines : List (List Char × Nat) → Except Fault UidTimes
  | [] => .error (.line 1 .empty)
  | (header, number) :: rows =>
    match readHeader header with
    | .error reason => .error (.line number reason)
    | .ok frequencies =>
      match readRows frequencies.length ∅ rows with
      | .error fault => .error fault
      | .ok times => .ok { frequencies, times }

theorem ofChars_eq (text : List Char) : ofChars text = ofLines (numberedLines text) := by
  unfold ofChars ofLines
  rfl

theorem readRows_append (frequencies : Nat) (times : Table Measure)
    (first later : List (List Char × Nat)) :
    readRows frequencies times (first ++ later) =
      match readRows frequencies times first with
      | .error fault => .error fault
      | .ok after => readRows frequencies after later := by
  induction first generalizing times with
  | nil => rfl
  | cons row first ih =>
    obtain ⟨line, number⟩ := row
    rw [List.cons_append, readRows, readRows]
    cases readRow frequencies times line with
    | error reason => rfl
    | ok after => exact ih after

/-- Rows are refused for the first one that cannot be added to the rows before it. -/
theorem readRows_eq_error {frequencies : Nat} {times : Table Measure}
    {numbered : List (List Char × Nat)} {fault : Fault}
    (refused : readRows frequencies times numbered = .error fault) :
    ∃ before line number after taken reason, numbered = before ++ (line, number) :: after ∧
      readRows frequencies times before = .ok taken ∧
      readRow frequencies taken line = .error reason ∧ fault = .line number reason := by
  induction numbered generalizing times with
  | nil => cases refused
  | cons row numbered ih =>
    obtain ⟨line, number⟩ := row
    rw [readRows] at refused
    cases read : readRow frequencies times line with
    | error reason =>
      rw [read] at refused
      cases refused
      exact ⟨[], line, number, numbered, times, reason, rfl, rfl, read, rfl⟩
    | ok added =>
      rw [read] at refused
      obtain ⟨before, line', number', after, taken, reason, rfl, rows, bad, rfl⟩ := ih refused
      refine ⟨(line, number) :: before, line', number', after, taken, reason, rfl, ?_, bad, rfl⟩
      rw [readRows, read]
      exact rows

/-- Reading stops at the first line at fault, whatever comes after it, and what comes before it can
be read unless there is nothing before it. -/
theorem ofLines_eq_error {numbered : List (List Char × Nat)} {fault : Fault}
    (refused : ofLines numbered = .error fault) :
    (numbered = [] ∧ fault = .line 1 .empty) ∨
    ∃ before line number after reason, numbered = before ++ (line, number) :: after ∧
      fault = .line number reason ∧
      (∀ rest, ofLines (before ++ (line, number) :: rest) = .error fault) ∧
      (before ≠ [] → ∃ parsed, ofLines before = .ok parsed) := by
  cases numbered with
  | nil =>
    cases refused
    exact .inl ⟨rfl, rfl⟩
  | cons first rows =>
    right
    obtain ⟨header, number⟩ := first
    rw [ofLines] at refused
    cases head : readHeader header with
    | error reason =>
      simp only [head] at refused
      cases refused
      refine ⟨[], header, number, rows, reason, rfl, rfl, fun rest => ?_, fun ne => absurd rfl ne⟩
      rw [List.nil_append, ofLines, head]
    | ok frequencies =>
      cases read : readRows frequencies.length ∅ rows with
      | ok times =>
        simp only [head, read] at refused
        cases refused
      | error fault =>
        simp only [head, read] at refused
        cases refused
        obtain ⟨before, line, number', after, taken, reason, rfl, rows, bad, rfl⟩ :=
          readRows_eq_error read
        refine ⟨(header, number) :: before, line, number', after, reason, rfl, rfl, ?_, ?_⟩
        · intro rest
          rw [List.cons_append, ofLines, head]
          simp only [readRows_append, rows, readRows, bad]
        · intro _
          refine ⟨⟨frequencies, taken⟩, ?_⟩
          rw [ofLines, head]
          simp only [rows]

/-- Whatever text is refused, the refusal names a line. It is the first line if all are blank.
Otherwise it is a line with something on it that decides the refusal together with the lines before
it, and these alone are accepted if there is anything on them. -/
theorem ofText_eq_error {text : String} {fault : Fault} (refused : ofText text = .error fault) :
    ∃ number reason, fault = .line number reason ∧
      ((∀ line, Blank (lineAt text.toList line)) → number = 1) ∧
      ((∃ line, ¬ Blank (lineAt text.toList line)) →
        ¬ Blank (lineAt text.toList number) ∧
        (∀ other : String, (∀ line ≤ number, SameLine line text.toList other.toList) →
          ofText other = .error (.line number reason)) ∧
        ((∃ line < number, ¬ Blank (lineAt text.toList line)) →
          ∀ start : String, StopsBefore number text.toList start.toList →
            ∃ parsed, ofText start = .ok parsed)) := by
  rw [ofText, ofChars_eq] at refused
  rcases ofLines_eq_error refused with ⟨none, rfl⟩ |
    ⟨before, line, number, after, reason, cut, rfl, decided, accepted⟩
  · refine ⟨1, .empty, rfl, fun _ => rfl, ?_⟩
    rintro ⟨line, filled⟩
    have mem : (trim (lineAt text.toList line), line) ∈ numberedLines text.toList :=
      mem_numberedLines.mpr ⟨rfl, mt trim_eq_nil_iff.mp filled⟩
    rw [none] at mem
    cases mem
  · obtain ⟨before_eq, upto_eq⟩ := front_of_cut cut
    refine ⟨number, reason, rfl, fun blank => absurd (blank number) (not_blank_of_cut cut),
      fun _ => ⟨not_blank_of_cut cut, fun other same => ?_, ?_⟩⟩
    · obtain ⟨rest, split⟩ := front_prefix (number + 1) other.toList
      rw [front_congr fun line le => same line (Nat.le_of_lt_succ le), upto_eq, List.append_assoc,
        List.singleton_append] at split
      rw [ofText, ofChars_eq, split, decided]
    · rintro ⟨earlier, lt, filled⟩ start stops
      have mem : (trim (lineAt text.toList earlier), earlier) ∈ before := by
        rw [← before_eq, front, List.mem_filter, mem_numberedLines, decide_eq_true_iff]
        exact ⟨⟨rfl, mt trim_eq_nil_iff.mp filled⟩, lt⟩
      rw [ofText, ofChars_eq, numberedLines_of_stopsBefore stops, before_eq]
      exact accepted (List.ne_nil_of_mem mem)

/-- A uid stands on two lines, and there is a bad number after that. -/
def repeatedUid : String := "\nuid: 1 2\n\n5: 1 1\n 5: 2 2\n7: 1 x"

theorem ofText_eq_error_repeatedUid :
    ofText repeatedUid = .error (.line 5 (.duplicate 5)) ∧
    ofText " \nuid: 1 2\r\n\n5: 1 1 \n5: 2 2\n6: 1 1" = .error (.line 5 (.duplicate 5)) ∧
    ∃ parsed, ofText "\nuid: 1 2\n\n5: 1 1" = .ok parsed := by
  have refused : ofText repeatedUid = .error (.line 5 (.duplicate 5)) := by decide +kernel
  obtain ⟨number, reason, same, -, filled⟩ := ofText_eq_error refused
  cases same
  obtain ⟨-, decided, accepted⟩ := filled ⟨5, mt trim_eq_nil_iff.mpr (by decide +kernel)⟩
  have front : "\nuid: 1 2\n\n5: 1 1".toList =
      ['\n'].intercalate ((repeatedUid.toList.splitOn '\n').take 4) := by decide +kernel
  have stops : StopsBefore 5 repeatedUid.toList "\nuid: 1 2\n\n5: 1 1".toList :=
    front ▸ stopsBefore_take 4 repeatedUid.toList
  exact ⟨refused, decided _ (by decide +kernel),
    accepted ⟨2, by decide, mt trim_eq_nil_iff.mpr (by decide +kernel)⟩ _ stops⟩

end UidTimes

end UsageLedger
