import UsageLedger.Proofs.TomlIntegers
import UsageLedger.Proofs.TomlKeys
import UsageLedger.Proofs.TomlTables

/-!
Lines of TOML text that give integers to keys, alone or in tables between braces, and that open
tables. Reading them gives the statements that they write.
-/

namespace UsageLedger.Toml

open Text

/-- A key, an equals sign and a value in the language, perhaps with space around the sign. -/
def WritesPair (path : List String) (key : String) (value : List Char → Prop)
    (text : List Char) : Prop :=
  ∃ name gap core, WritesKey path key name ∧ IsGap gap ∧ value core ∧
    text = name ++ '=' :: (gap ++ core)

/-- Integers with their keys, commas between them and a brace after them, all on one line. -/
inductive WritesPairs : Members → List Char → Prop where
  | last {key : String} {n : Int} {before text after : List Char} : IsGap before →
      WritesPair [] key (WritesInteger n) text → IsGap after →
      WritesPairs [(key, .integer n)] (before ++ (text ++ (after ++ ['\x7d'])))
  | more {key : String} {n : Int} {members : Members} {before text after rest : List Char} :
      IsGap before → WritesPair [] key (WritesInteger n) text → IsGap after →
      WritesPairs members rest →
      WritesPairs ((key, .integer n) :: members) (before ++ (text ++ (after ++ ',' :: rest)))

/-- An integer, or a table of integers between braces. -/
inductive WritesValue : Toml → List Char → Prop where
  | integer {n : Int} {text : List Char} : WritesInteger n text → WritesValue (.integer n) text
  | empty {gap : List Char} : IsGap gap → WritesValue (.inline []) ('\x7b' :: (gap ++ ['\x7d']))
  | inline {members : Members} {text : List Char} : WritesPairs members text →
      WritesValue (.inline members) ('\x7b' :: text)

inductive WritesStatement : Statement → List Char → Prop where
  | assign {path : List String} {key : String} {x : Toml} {text : List Char} :
      WritesPair path key (WritesValue x) text → WritesStatement (.assign path key x) text
  | table {path : List String} {key : String} {before text : List Char} : IsGap before →
      WritesKey path key text →
      WritesStatement (.table path key) ('[' :: (before ++ (text ++ [']'])))

def IsComment (text : List Char) : Prop :=
  text = [] ∨ ∃ body, (∀ c ∈ body, IsPrintable c) ∧ text = '#' :: body

/-- The text ends a line and goes on with the rest: it has space, perhaps a comment, and a newline
unless nothing follows. -/
inductive Closes : List Char → List Char → Prop where
  | newline {gap comment newline rest : List Char} : IsGap gap → IsComment comment →
      newline ∈ [['\n'], ['\r', '\n']] → Closes rest (gap ++ (comment ++ (newline ++ rest)))
  | last {gap comment : List Char} : IsGap gap → IsComment comment → Closes [] (gap ++ comment)

/-- The text has one line for each statement, and perhaps lines without one. -/
inductive WritesLines : List Statement → List Char → Prop where
  | done : WritesLines [] []
  | blank {statements : List Statement} {text rest : List Char} : Closes rest text →
      WritesLines statements rest → WritesLines statements text
  | line {statement : Statement} {statements : List Statement} {before core tail rest : List Char} :
      IsGap before → WritesStatement statement core → Closes rest tail →
      WritesLines statements rest →
      WritesLines (statement :: statements) (before ++ (core ++ tail))

/-- The text of a document, perhaps after a byte order mark. -/
def WritesDocument (statements : List Statement) (text : List Char) : Prop :=
  ∃ lines, WritesLines statements lines ∧ (text = lines ∨ text = '\ufeff' :: lines)

/-- Integers have 64 bits, and the keys between braces differ. -/
def IsReadable : Toml → Prop
  | .integer n => Fits n
  | .inline members => (members.map Prod.fst).Nodup ∧
      ∀ entry ∈ members, ∀ n, entry.2.int? = some n → Fits n
  | _ => True

/-- The value is readable, and the key has not too many parts. -/
def Statement.IsReadable : Statement → Prop
  | .assign path _ x => path.length < maxDepth ∧ x.IsReadable
  | .table path _ | .element path _ => path.length < maxDepth

theorem closes_newline (rest : List Char) : Closes rest ('\n' :: rest) := by
  have closes : Closes rest ([] ++ ([] ++ (['\n'] ++ rest))) :=
    .newline isGap_nil (.inl rfl) List.mem_cons_self
  exact closes

theorem ends_gap {gap : List Char} {mark : Char} (spaces : IsGap gap) (ends : mark ∈ [',', '\x7d'])
    (rest : List Char) : Ends (gap ++ mark :: rest) := by
  intro d mem
  cases gap with
  | nil =>
    cases mem
    simp only [endMarks, List.mem_cons, List.not_mem_nil, or_false] at ends ⊢
    tauto
  | cons e gap =>
    cases mem
    rcases spaces d List.mem_cons_self with rfl | rfl <;> simp [endMarks]

theorem skipSpace_close {gap : List Char} {mark : Char} (spaces : IsGap gap)
    (ends : mark ∈ [',', '\x7d']) (rest : List Char) :
    skipSpace (gap ++ mark :: rest) = mark :: rest := by
  have marks : ∀ c ∈ [',', '\x7d'], ¬ IsSpace c := List.all_iff_forall_prop.mp (by decide)
  exact skipSpace_cons spaces (marks mark ends) rest

/-- The scan reads the value off every text of the language, none of which starts with space. -/
def Reads (scan : Scan Toml) (x : Toml) (language : List Char → Prop) : Prop :=
  ∀ core, language core → (∃ c more, core = c :: more ∧ ¬ IsSpace c) ∧
    ∀ rest, Ends rest → scan (core ++ rest) = some (x, rest)

theorem scanPair_writes {item : Scan Toml} {x : Toml} {value : List Char → Prop}
    (reads : Reads item x value) {path : List String} {key : String} {before text rest : List Char}
    (spaces : IsGap before) (writes : WritesPair path key value text)
    (short : path.length < maxDepth) (ends : Ends rest) :
    scanPair item (before ++ (text ++ rest)) = some ((path, key, x), rest) := by
  obtain ⟨name, gap, core, keyed, inner, valued, rfl⟩ := writes
  obtain ⟨⟨c, more, rfl, solid⟩, read⟩ := reads core valued
  have sign : '=' ∈ ['=', ']'] := List.mem_cons_self
  have named := scanKey_writes spaces keyed sign short (gap ++ (c :: more ++ rest))
  have skipped := skipSpace_cons inner solid (more ++ rest)
  simp only [scanPair, List.append_assoc, List.cons_append] at named read skipped ⊢
  simp only [named, Option.bind_eq_bind, Option.bind_some, dropStart?, if_true, skipped,
    read rest ends]
  rfl

/-- An integer is told apart from other values by its first character. -/
theorem reads_integer {n : Int} (fits : Fits n) (depth : Nat) :
    Reads (scanValue depth) (.integer n) (WritesInteger n) := by
  intro core writes
  have read (rest : List Char) (ends : Ends rest) := scanNumeric_writes writes fits ends
  obtain ⟨c, more, rfl, starts⟩ := writes.head
  have other : ∀ d ∈ [' ', '\t', '[', '\x7b', '"', '\x27', 't', 'f'], c ≠ d := by
    rintro d mem rfl
    have all : ∀ c ∈ [' ', '\t', '[', '\x7b', '"', '\x27', 't', 'f'],
        ¬ (c.isDigit = true ∨ c ∈ ['+', '-']) := List.all_iff_forall_prop.mp (by decide)
    exact all c mem starts
  refine ⟨⟨c, more, rfl, ?_⟩, fun rest ends => ?_⟩
  · rintro (rfl | rfl) <;> exact other _ (by simp) rfl
  · rw [← read rest ends, List.cons_append]
    have scalar : scanScalar (c :: (more ++ rest)) = scanNumeric (c :: (more ++ rest)) := by
      unfold scanScalar
      split
      next same => exact absurd (List.cons.inj same).1 (other _ (by simp))
      next same => exact absurd (List.cons.inj same).1 (other _ (by simp))
      next same => exact absurd (List.cons.inj same).1 (other _ (by simp))
      next same => exact absurd (List.cons.inj same).1 (other _ (by simp))
      next => rfl
    rw [← scalar]
    unfold scanValue
    split
    next same => exact absurd (List.cons.inj same).1 (other _ (by simp))
    next same => exact absurd (List.cons.inj same).1 (other _ (by simp))
    next => rfl

theorem inlinePairs_pair {depth : Nat} {members : Members} {key : String} {n : Int}
    {before text after : List Char} {mark : Char} (new : key ∉ members.map Prod.fst)
    (fits : Fits n) (spaces : IsGap before) (pair : WritesPair [] key (WritesInteger n) text)
    (trailing : IsGap after) (ends : mark ∈ [',', '\x7d']) (fuel : Nat) (rest : List Char) :
    inlinePairs (scanValue depth) members (fuel + 1)
        (before ++ (text ++ (after ++ mark :: rest))) =
      if mark = ',' then inlinePairs (scanValue depth) (members ++ [(key, .integer n)]) fuel rest
      else some (members ++ [(key, .integer n)], rest) := by
  have read := scanPair_writes (reads_integer fits depth) spaces pair (by decide)
    (ends_gap trailing ends rest)
  simp only [inlinePairs, read, Option.bind_eq_bind, Option.bind_some,
    assign_new (find?_eq_none new), put_eq_append new, skipSpace_close trailing ends rest]
  simp only [List.mem_cons, List.not_mem_nil, or_false] at ends
  rcases ends with rfl | rfl <;> rfl

theorem key_not_mem {members others : Members} {entry : String × Toml}
    (distinct : ((members ++ entry :: others).map Prod.fst).Nodup) :
    entry.1 ∉ members.map Prod.fst := by
  rw [List.map_append] at distinct
  exact not_mem_of_nodup distinct

/-- Reading pairs up to the closing brace adds them to the members in order. -/
theorem inlinePairs_writes {depth : Nat} {entries : Members} {text : List Char}
    (writes : WritesPairs entries text) (members : Members)
    (distinct : ((members ++ entries).map Prod.fst).Nodup)
    (fits : ∀ entry ∈ entries, ∀ n, entry.2.int? = some n → Fits n) (rest : List Char) {fuel : Nat}
    (enough : entries.length ≤ fuel) :
    inlinePairs (scanValue depth) members fuel (text ++ rest) =
      some (members ++ entries, rest) := by
  induction writes generalizing members fuel with
  | last spaces pair trailing =>
    obtain ⟨fuel, rfl⟩ := Nat.exists_eq_succ_of_ne_zero (Nat.ne_zero_of_lt enough)
    rw [List.append_assoc, List.append_assoc, List.append_assoc]
    exact inlinePairs_pair (key_not_mem distinct) (fits _ List.mem_cons_self _ rfl) spaces
      pair trailing (by simp) fuel rest
  | @more key n entries _ _ _ more spaces pair trailing tail ih =>
    obtain ⟨fuel, rfl⟩ := Nat.exists_eq_succ_of_ne_zero (Nat.ne_zero_of_lt enough)
    have next := ih (members ++ [(key, .integer n)]) (by simpa using distinct)
      (fun entry mem => fits entry (List.mem_cons_of_mem _ mem)) (Nat.le_of_succ_le_succ enough)
    rw [List.append_assoc, List.append_assoc, List.append_assoc, List.cons_append,
      inlinePairs_pair (key_not_mem distinct) (fits _ List.mem_cons_self _ rfl) spaces pair
        trailing (by simp), if_pos rfl, next, List.append_assoc, List.singleton_append]

theorem length_le_pairs {entries : Members} {text : List Char} (writes : WritesPairs entries text) :
    entries.length ≤ text.length := by
  induction writes with
  | last =>
    simp only [List.length_append, List.length_cons]
    omega
  | more _ _ _ _ ih =>
    simp only [List.length_append, List.length_cons]
    omega

theorem WritesPair.head {path : List String} {key : String} {value : List Char → Prop}
    {text : List Char} (writes : WritesPair path key value text) :
    ∃ c more, text = c :: more ∧ StartsPart c := by
  obtain ⟨name, _, _, keyed, _, _, rfl⟩ := writes
  obtain ⟨c, more, rfl, starts⟩ := keyed.head
  exact ⟨c, _, rfl, starts⟩

theorem skipSpace_pair {path : List String} {key : String} {value : List Char → Prop}
    {gap text rest : List Char} (spaces : IsGap gap) (writes : WritesPair path key value text) :
    skipSpace (gap ++ (text ++ rest)) = text ++ rest := by
  obtain ⟨c, more, rfl, starts⟩ := writes.head
  exact skipSpace_cons spaces starts.not_space (more ++ rest)

/-- The space before pairs may be left out. -/
theorem WritesPairs.trim {entries : Members} {text : List Char}
    (writes : WritesPairs entries text) :
    ∃ c more, WritesPairs entries (c :: more) ∧ c ≠ '\x7d' ∧
      ∀ rest, skipSpace (text ++ rest) = c :: more ++ rest := by
  have brace {c : Char} (starts : StartsPart c) : c ≠ '\x7d' := by
    rintro rfl
    exact not_startsPart _ (by simp) starts
  cases writes with
  | last spaces pair trailing =>
    obtain ⟨c, more, rfl, starts⟩ := pair.head
    refine ⟨c, _, .last isGap_nil pair trailing, brace starts, fun rest => ?_⟩
    rw [List.append_assoc, List.append_assoc, skipSpace_pair spaces pair]
    simp
  | more spaces pair trailing tail =>
    obtain ⟨c, more, rfl, starts⟩ := pair.head
    refine ⟨c, _, .more isGap_nil pair trailing tail, brace starts, fun rest => ?_⟩
    rw [List.append_assoc, List.append_assoc, skipSpace_pair spaces pair]
    simp

theorem inlineTable_writes {depth : Nat} {entries : Members} {text : List Char}
    (writes : WritesPairs entries text) (distinct : (entries.map Prod.fst).Nodup)
    (fits : ∀ entry ∈ entries, ∀ n, entry.2.int? = some n → Fits n) (rest : List Char) :
    inlineTable (scanValue depth) (text ++ rest) = some (entries, rest) := by
  obtain ⟨c, more, trimmed, unclosed, skipped⟩ := writes.trim
  have enough : entries.length ≤ (c :: more ++ rest).length + 1 := by
    have := length_le_pairs trimmed
    rw [List.length_append]
    omega
  have read : inlinePairs (scanValue depth) [] _ (c :: more ++ rest) = some (entries, rest) :=
    inlinePairs_writes trimmed [] distinct fits rest enough
  rw [inlineTable, skipped]
  split
  next same => exact absurd (List.cons.inj same).1 unclosed
  next => exact read

/-- Reading a value gives it back, wherever it stands. -/
theorem reads_value {x : Toml} (readable : x.IsReadable) (depth : Nat) :
    Reads (scanValue (depth + 1)) x (WritesValue x) := by
  intro core writes
  cases writes with
  | integer writes => exact reads_integer readable _ core writes
  | @empty gap spaces =>
    refine ⟨⟨_, _, rfl, by decide⟩, fun rest _ => ?_⟩
    have brace : '\x7d' ∈ [',', '\x7d'] := by simp
    have stop := skipSpace_close spaces brace rest
    simp only [List.cons_append, List.append_assoc, List.nil_append, scanValue, inlineTable, stop]
    rfl
  | inline writes =>
    refine ⟨⟨_, _, rfl, by decide⟩, fun rest _ => ?_⟩
    rw [List.cons_append, scanValue, inlineTable_writes writes readable.1 readable.2,
      Option.map_some]

theorem WritesStatement.head {statement : Statement} {text : List Char}
    (writes : WritesStatement statement text) :
    ∃ c more, text = c :: more ∧ c ∉ [' ', '\t', '#', '\n', '\r', '\ufeff'] := by
  cases writes with
  | table => exact ⟨'[', _, rfl, by decide⟩
  | assign pair =>
    obtain ⟨c, more, rfl, starts⟩ := pair.head
    refine ⟨c, more, rfl, fun mem => not_startsPart c ?_ starts⟩
    simp at mem ⊢
    tauto

theorem scanStatement_writes {statement : Statement} {text rest : List Char}
    (writes : WritesStatement statement text) (readable : statement.IsReadable) (ends : Ends rest) :
    scanStatement (text ++ rest) = some (statement, rest) := by
  cases writes with
  | @assign path key x text pair =>
    have read := scanPair_writes (reads_value readable.2 78) isGap_nil pair readable.1 ends
    obtain ⟨c, more, rfl, starts⟩ := pair.head
    have bracket : c ≠ '[' := by
      rintro rfl
      exact not_startsPart '[' (by simp) starts
    rw [List.nil_append] at read
    unfold scanStatement
    split
    next same => exact absurd (List.cons.inj same).1 bracket
    next same => exact absurd (List.cons.inj same).1 bracket
    next => simp only [maxDepth, read, Option.bind_eq_bind, Option.bind_some]; rfl
  | @table path key before text spaces keyed =>
    have bracket : ']' ∈ ['=', ']'] := by simp
    have read := scanKey_writes spaces keyed bracket readable rest
    have single {more : List Char} : before ++ (text ++ ']' :: rest) ≠ '[' :: more := by
      intro same
      obtain ⟨c, others, rfl, starts⟩ := keyed.head
      cases before with
      | nil =>
        cases same
        exact not_startsPart '[' (by simp) starts
      | cons d before =>
        cases same
        exact absurd (spaces '[' List.mem_cons_self) (by decide)
    rw [List.cons_append, List.append_assoc, List.append_assoc, List.singleton_append]
    unfold scanStatement
    split
    next same => exact absurd (List.cons.inj same).2 single
    next same =>
      cases same
      simp only [read, Option.bind_eq_bind, Option.bind_some, dropStart?, if_true]
      rfl
    next other => exact absurd rfl (other _)

theorem IsGap.head {gap rest : List Char} {c : Char} (spaces : IsGap gap)
    (mem : c ∈ (gap ++ rest).head?) : IsSpace c ∨ c ∈ rest.head? := by
  cases gap with
  | nil => exact .inr mem
  | cons d gap =>
    cases mem
    exact .inl (spaces c List.mem_cons_self)

/-- The text starts like the end of a line, once the space there is skipped. -/
def StartsEnd (text : List Char) : Prop := ∀ c ∈ text.head?, c ∈ ['#', '\n', '\r']

theorem StartsEnd.solid {text : List Char} (h : StartsEnd text) :
    ∀ c ∈ text.head?, ¬ IsSpace c := by
  have marks : ∀ c ∈ ['#', '\n', '\r'], ¬ IsSpace c := List.all_iff_forall_prop.mp (by decide)
  exact fun c mem => marks c (h c mem)

theorem IsComment.startsEnd {comment tail : List Char} (h : IsComment comment)
    (stop : ∀ c ∈ tail.head?, c = '\n' ∨ c = '\r') : StartsEnd (comment ++ tail) := by
  intro c mem
  rcases h with rfl | ⟨body, _, rfl⟩
  · rcases stop c mem with rfl | rfl <;> simp
  · cases mem
    simp

theorem dropComment_append {comment tail : List Char} (h : IsComment comment)
    (stop : ∀ c ∈ tail.head?, c = '\n' ∨ c = '\r') : dropComment (comment ++ tail) = tail := by
  rcases h with rfl | ⟨body, all, rfl⟩
  · rw [List.nil_append]
    unfold dropComment
    split
    next => rcases stop '#' rfl with same | same <;> cases same
    next => rfl
  · have span := spanOf_append (p := fun c => IsPrintable c)
      (fun c mem => decide_eq_true (all c mem)) fun c mem => by
        rcases stop c mem with rfl | rfl <;> decide
    exact congrArg Prod.snd span

theorem dropLineEnd?_comment {comment tail : List Char} (h : IsComment comment)
    (stop : ∀ c ∈ tail.head?, c = '\n' ∨ c = '\r') :
    dropLineEnd? (comment ++ tail) = if tail = [] then some [] else dropNewline? tail := by
  rw [dropLineEnd?, skipSpace_solid (h.startsEnd stop).solid, dropComment_append h stop]
  cases tail <;> rfl

/-- After the space at its end a line has nothing but a comment. -/
theorem Closes.core {rest text : List Char} (h : Closes rest text) :
    ∃ gap core, text = gap ++ core ∧ IsGap gap ∧ StartsEnd core ∧
      dropLineEnd? core = some rest := by
  cases h with
  | @newline gap comment newline rest spaces commented ends =>
    have stop : ∀ c ∈ (newline ++ rest).head?, c = '\n' ∨ c = '\r' := by
      intro c mem
      simp only [List.mem_cons, List.not_mem_nil, or_false] at ends
      rcases ends with rfl | rfl <;> cases mem <;> simp
    refine ⟨gap, _, rfl, spaces, commented.startsEnd stop, ?_⟩
    rw [dropLineEnd?_comment commented stop]
    simp only [List.mem_cons, List.not_mem_nil, or_false] at ends
    rcases ends with rfl | rfl <;> rfl
  | @last gap comment spaces commented =>
    have stop : ∀ c ∈ ([] : List Char).head?, c = '\n' ∨ c = '\r' := by simp
    refine ⟨gap, comment ++ [], by rw [List.append_nil], spaces, commented.startsEnd stop, ?_⟩
    exact dropLineEnd?_comment commented stop

/-- A line without a statement is skipped, space and all. -/
theorem Closes.idle {rest text : List Char} (h : Closes rest text) :
    IsIdle (skipSpace text) ∧ dropLineEnd? (skipSpace text) = some rest ∧
      dropLineEnd? text = some rest := by
  obtain ⟨gap, core, rfl, spaces, starts, read⟩ := h.core
  have same : dropLineEnd? (gap ++ core) = dropLineEnd? core := by
    rw [dropLineEnd?, dropLineEnd?, skipSpace_gap spaces starts.solid,
      skipSpace_solid starts.solid]
  rw [same, skipSpace_gap spaces starts.solid]
  refine ⟨?_, read, read⟩
  cases core with
  | nil => trivial
  | cons c core => simpa [IsIdle] using starts c rfl

theorem Closes.ends {rest text : List Char} (h : Closes rest text) : Ends text := by
  obtain ⟨gap, core, rfl, spaces, starts, -⟩ := h.core
  intro c mem
  rcases spaces.head mem with (rfl | rfl) | mem
  · decide
  · decide
  · have marks := starts c mem
    simp only [endMarks, List.mem_cons, List.not_mem_nil, or_false] at marks ⊢
    tauto

theorem Closes.length_lt {rest text : List Char} (h : Closes rest text) (nonempty : text ≠ []) :
    rest.length < text.length := by
  cases h with
  | newline _ _ ends =>
    simp only [List.mem_cons, List.not_mem_nil, or_false] at ends
    rcases ends with rfl | rfl <;> simp only [List.length_append, List.length_cons] <;> omega
  | last => exact List.length_pos_of_ne_nil nonempty

theorem Closes.length_le {rest text : List Char} (h : Closes rest text) :
    rest.length ≤ text.length := by
  cases h with
  | newline =>
    simp only [List.length_append]
    omega
  | last => exact Nat.zero_le _

theorem Closes.nil {rest : List Char} (h : Closes rest []) : rest = [] := by
  have read : dropLineEnd? [] = some rest := h.idle.2.2
  exact (Option.some.inj read).symm

theorem scanStatements_succ {text : List Char} (nonempty : text ≠ []) (fuel : Nat) :
    scanStatements (fuel + 1) text =
      if IsIdle (skipSpace text) then
        (dropLineEnd? (skipSpace text)).bind fun rest => scanStatements fuel rest
      else
        (scanStatement (skipSpace text)).bind fun (statement, rest) =>
          (dropLineEnd? rest).bind fun rest =>
            (scanStatements fuel rest).map (statement :: ·) := by
  obtain ⟨c, more, rfl⟩ := List.exists_cons_of_ne_nil nonempty
  rw [scanStatements]
  simp only [Option.map_eq_bind]
  rfl

theorem skipSpace_statement {statement : Statement} {gap text : List Char} (spaces : IsGap gap)
    (writes : WritesStatement statement text) (rest : List Char) :
    skipSpace (gap ++ (text ++ rest)) = text ++ rest ∧ ¬ IsIdle (text ++ rest) := by
  obtain ⟨c, more, rfl, other⟩ := writes.head
  constructor
  · refine skipSpace_cons spaces ?_ (more ++ rest)
    rintro (rfl | rfl) <;> exact other (by simp)
  · rintro (rfl | rfl | rfl) <;> exact other (by simp)

/-- Reading the lines gives their statements in order. -/
theorem scanStatements_writes {statements : List Statement} {text : List Char}
    (writes : WritesLines statements text) (readable : ∀ s ∈ statements, s.IsReadable) {fuel : Nat}
    (enough : text.length < fuel) : scanStatements fuel text = some statements := by
  induction writes generalizing fuel with
  | done => cases fuel <;> rfl
  | @blank statements text rest closes _ ih =>
    by_cases empty : text = []
    · subst empty
      rw [closes.nil] at ih
      exact ih readable enough
    · obtain ⟨idle, dropped, -⟩ := closes.idle
      have shorter := closes.length_lt empty
      obtain ⟨fuel, rfl⟩ := Nat.exists_eq_succ_of_ne_zero (Nat.ne_zero_of_lt enough)
      rw [scanStatements_succ empty, if_pos idle, dropped, Option.bind_some]
      exact ih readable (by omega)
  | @line statement statements before core tail rest spaces stated closes _ ih =>
    obtain ⟨first, others⟩ := List.forall_mem_cons.mp readable
    obtain ⟨skipped, busy⟩ := skipSpace_statement spaces stated tail
    obtain ⟨fuel, rfl⟩ := Nat.exists_eq_succ_of_ne_zero (Nat.ne_zero_of_lt enough)
    have nonempty : before ++ (core ++ tail) ≠ [] := by
      obtain ⟨c, more, rfl, -⟩ := stated.head
      simp
    have shorter := closes.length_le
    have consumed : 0 < core.length := by
      obtain ⟨c, more, rfl, -⟩ := stated.head
      exact Nat.succ_pos _
    have tailed : scanStatements fuel rest = some statements := by
      refine ih others ?_
      simp only [List.length_append] at enough
      omega
    rw [scanStatements_succ nonempty, skipped, if_neg busy,
      scanStatement_writes stated first closes.ends]
    simp only [Option.bind_some, closes.idle.2.2, tailed, Option.map_some]

/-- Lines do not start with a byte order mark. -/
theorem WritesLines.head {statements : List Statement} {text : List Char}
    (writes : WritesLines statements text) : ∀ c ∈ text.head?, c ≠ '\ufeff' := by
  intro c mem
  cases writes with
  | done => cases mem
  | blank closes _ =>
    rintro rfl
    exact absurd (closes.ends _ mem) (by decide)
  | line spaces stated _ _ =>
    rintro rfl
    rcases spaces.head mem with space | mem
    · exact absurd space (by decide)
    · obtain ⟨d, more, rfl, other⟩ := stated.head
      cases mem
      exact other (by simp)

/-- Reading a document carries out the statements that it writes. -/
theorem ofChars?_writes {statements : List Statement} {text : List Char}
    (writes : WritesDocument statements text) (readable : ∀ s ∈ statements, s.IsReadable) :
    ofChars? text = build [] [] statements := by
  obtain ⟨lines, writes, rfl | rfl⟩ := writes
  · have read := scanStatements_writes writes readable (Nat.lt_succ_self _)
    unfold ofChars?
    split
    next => exact absurd rfl (writes.head '\ufeff' rfl)
    next => simp only [read, Option.bind_eq_bind, Option.bind_some]
  · have read := scanStatements_writes writes readable (Nat.lt_succ_self _)
    simp only [ofChars?, read, Option.bind_eq_bind, Option.bind_some]

end UsageLedger.Toml
