import UsageLedger.Text.Blank
import UsageLedger.Text.Decimal
import Mathlib.Data.List.TakeWhile

/-!
How a text falls into lines and words, what is left of it without the blanks around it, and which
words are numerals. Each cut is described without saying how it is found, and there is only one.
-/

namespace UsageLedger.Text

theorem lines_eq_splitOn (text : List Char) : lines text = text.splitOn '\n' := by
  induction text with
  | nil => rfl
  | cons c text ih =>
    rw [lines, ih, List.splitOn_cons_eq_if_modifyHead]
    cases cut : text.splitOn '\n' with
    | nil => exact absurd cut (List.splitOn_ne_nil '\n' text)
    | cons line others => simp

theorem not_mem_of_mem_splitOn {text piece : List Char} (mem : piece ∈ text.splitOn '\n') :
    '\n' ∉ piece := by
  induction text generalizing piece with
  | nil => simp_all
  | cons c text ih =>
    rw [List.splitOn_cons_eq_if_modifyHead] at mem
    cases cut : text.splitOn '\n' with
    | nil => exact absurd cut (List.splitOn_ne_nil '\n' text)
    | cons line others =>
      have unbroken : ∀ piece ∈ line :: others, '\n' ∉ piece := fun piece mem => ih (cut ▸ mem)
      rw [cut] at mem
      by_cases feed : c = '\n'
      · rw [if_pos (beq_iff_eq.mpr feed)] at mem
        rcases List.mem_cons.mp mem with rfl | mem
        · exact List.not_mem_nil
        · exact unbroken piece mem
      · rw [if_neg (mt beq_iff_eq.mp feed)] at mem
        rcases List.mem_cons.mp mem with rfl | mem
        · have clean := unbroken line List.mem_cons_self
          simp [clean, Ne.symm feed]
        · exact unbroken piece (List.mem_cons_of_mem line mem)

/-- The pieces have no line feeds, and they make up the text with a line feed between any two. -/
structure Lined (pieces : List (List Char)) (text : List Char) : Prop where
  nonempty : pieces ≠ []
  unbroken : ∀ piece ∈ pieces, '\n' ∉ piece
  joined : text = ['\n'].intercalate pieces

theorem lines_eq_iff {text : List Char} {pieces : List (List Char)} :
    lines text = pieces ↔ Lined pieces text := by
  rw [lines_eq_splitOn]
  constructor
  · rintro rfl
    exact ⟨List.splitOn_ne_nil '\n' text, fun piece mem => not_mem_of_mem_splitOn mem,
      (List.intercalate_splitOn '\n').symm⟩
  · rintro ⟨nonempty, unbroken, rfl⟩
    exact List.splitOn_intercalate '\n' unbroken nonempty

/-- Nothing but blanks. -/
def Blank (text : List Char) : Prop := ∀ c ∈ text, IsBlank c

theorem blank_nil : Blank [] := List.forall_mem_nil _

theorem blank_spaces (room : Nat) : Blank (List.replicate room ' ') := by
  intro c mem
  rw [List.eq_of_mem_replicate mem]
  decide

/-- The text is the core with blanks before and after it, and the core neither starts nor ends with
a blank. -/
structure Padded (core text : List Char) : Prop where
  around : ∃ before after, Blank before ∧ Blank after ∧ text = before ++ core ++ after
  starts : ∀ c ∈ core.head?, ¬ IsBlank c
  ends : ∀ c ∈ core.getLast?, ¬ IsBlank c

theorem trimStart_append {gap : List Char} (blank : Blank gap) (text : List Char) :
    trimStart (gap ++ text) = trimStart text :=
  List.dropWhile_append_of_pos fun c mem => decide_eq_true (blank c mem)

theorem trimStart_of_starts {text : List Char} (starts : ∀ c ∈ text.head?, ¬ IsBlank c) :
    trimStart text = text := by
  cases text with
  | nil => rfl
  | cons c text => exact List.dropWhile_cons_of_neg (by simpa using starts c rfl)

/-- The start that is cut off is blank, and the rest does not start with a blank. -/
theorem exists_trimStart (text : List Char) :
    ∃ before, Blank before ∧ text = before ++ trimStart text ∧
      ∀ c ∈ (trimStart text).head?, ¬ IsBlank c := by
  refine ⟨text.takeWhile fun c => IsBlank c, ?_, List.takeWhile_append_dropWhile.symm, ?_⟩
  · intro c mem
    have passed := List.mem_takeWhile_imp mem
    exact of_decide_eq_true passed
  · intro c head blank
    have stops := List.head?_dropWhile_not (fun c => decide (IsBlank c)) text
    rw [trimStart, Option.mem_def] at head
    simp [head, blank] at stops

theorem trim_of_padded {core text : List Char} (h : Padded core text) : trim text = core := by
  obtain ⟨before, after, blank, blank', rfl⟩ := h.around
  have backwards : Blank after.reverse := fun c mem => blank' c (List.mem_reverse.mp mem)
  have start : trimStart (before ++ core ++ after) = trimStart (core ++ after) := by
    rw [List.append_assoc, trimStart_append blank]
  cases core with
  | nil =>
    have nothing : trimStart after = [] := by
      rw [← List.append_nil after, trimStart_append blank']
      rfl
    rw [trim, start, List.nil_append, nothing]
    rfl
  | cons c core =>
    have kept : trimStart (c :: core ++ after) = c :: core ++ after :=
      trimStart_of_starts fun d head => h.starts d (by simpa using head)
    rw [trim, start, kept, List.reverse_append, trimStart_append backwards, trimStart_of_starts,
      List.reverse_reverse]
    intro d head
    exact h.ends d (List.head?_reverse ▸ head)

theorem padded_trim (text : List Char) : Padded (trim text) text := by
  obtain ⟨before, blank, cut, starts⟩ := exists_trimStart text
  obtain ⟨after, blank', cut', ends⟩ := exists_trimStart (trimStart text).reverse
  have whole : trimStart text = trim text ++ after.reverse := by
    rw [trim, ← List.reverse_append, ← cut', List.reverse_reverse]
  have backwards : Blank after.reverse := fun c mem => blank' c (List.mem_reverse.mp mem)
  refine ⟨⟨before, after.reverse, blank, backwards, ?_⟩, ?_, ?_⟩
  · rw [List.append_assoc, ← whole]
    exact cut
  · intro c head
    apply starts
    rw [whole, List.head?_append, Option.mem_def.mp head]
    rfl
  · intro c last
    apply ends
    rwa [trim, List.getLast?_reverse] at last

theorem padded_of_blank {gap core : List Char} (blank : Blank gap)
    (starts : ∀ c ∈ core.head?, ¬ IsBlank c) (ends : ∀ c ∈ core.getLast?, ¬ IsBlank c) :
    Padded core (gap ++ core) :=
  ⟨⟨gap, [], blank, blank_nil, (List.append_nil _).symm⟩, starts, ends⟩

theorem trim_eq_iff {text core : List Char} : trim text = core ↔ Padded core text :=
  ⟨fun eq => eq ▸ padded_trim text, trim_of_padded⟩

/-- The text consists of the words in this order. There are blanks between any two of them, and
there may be blanks around them. -/
inductive Spaced : List (List Char) → List Char → Prop where
  | nothing {gap : List Char} : Blank gap → Spaced [] gap
  | word {gap word rest : List Char} {others : List (List Char)} : Blank gap → word ≠ [] →
      (∀ c ∈ word, ¬ IsBlank c) → (∀ c ∈ rest.head?, IsBlank c) → Spaced others rest →
      Spaced (word :: others) (gap ++ word ++ rest)

theorem words_cons_of_blank {c : Char} (blank : IsBlank c) (text : List Char) :
    words (c :: text) = words text := by
  unfold words
  rw [if_pos blank]
  cases text <;> rfl

/-- A solid character before a blank, or at the end, is a word. -/
theorem words_cons_of_apart {c : Char} {text : List Char} (solid : ¬ IsBlank c)
    (apart : ∀ d ∈ text.head?, IsBlank d) : words (c :: text) = [c] :: words text := by
  rw [words.eq_def]
  dsimp only
  rw [if_neg solid]
  cases text with
  | nil => rfl
  | cons d text =>
    cases words (d :: text) with
    | nil => rfl
    | cons word others => exact if_pos (apart d rfl)

/-- A solid character before another one belongs to the same word. -/
theorem words_cons_of_solid {c d : Char} {text word : List Char} {others : List (List Char)}
    (solid : ¬ IsBlank c) (solid' : ¬ IsBlank d) (next : words (d :: text) = word :: others) :
    words (c :: d :: text) = (c :: word) :: others := by
  rw [words.eq_def]
  dsimp only
  rw [if_neg solid, next]
  exact if_neg solid'

theorem words_append_of_blank {gap : List Char} (blank : Blank gap) (text : List Char) :
    words (gap ++ text) = words text := by
  induction gap with
  | nil => rfl
  | cons c gap ih =>
    obtain ⟨first, others⟩ := List.forall_mem_cons.mp blank
    rw [List.cons_append, words_cons_of_blank first, ih others]

theorem words_append_of_word {word rest : List Char} (nonempty : word ≠ [])
    (solid : ∀ c ∈ word, ¬ IsBlank c) (apart : ∀ c ∈ rest.head?, IsBlank c) :
    words (word ++ rest) = word :: words rest := by
  induction word with
  | nil => contradiction
  | cons c word ih =>
    obtain ⟨first, others⟩ := List.forall_mem_cons.mp solid
    cases word with
    | nil => exact words_cons_of_apart first apart
    | cons d word =>
      exact words_cons_of_solid first (others d List.mem_cons_self) (ih (by simp) others)

theorem words_of_spaced {pieces : List (List Char)} {text : List Char} (h : Spaced pieces text) :
    words text = pieces := by
  induction h with
  | nothing blank => simpa [words] using words_append_of_blank blank []
  | word blank nonempty solid apart _ ih =>
    rw [List.append_assoc, words_append_of_blank blank,
      words_append_of_word nonempty solid apart, ih]

theorem Spaced.cons_blank {c : Char} {pieces : List (List Char)} {text : List Char}
    (blank : IsBlank c) (h : Spaced pieces text) : Spaced pieces (c :: text) := by
  cases h with
  | nothing gap => exact .nothing (List.forall_mem_cons.mpr ⟨blank, gap⟩)
  | @word gap word rest others before nonempty solid apart later =>
    have before' : Blank (c :: gap) := List.forall_mem_cons.mpr ⟨blank, before⟩
    exact .word before' nonempty solid apart later

theorem Spaced.append_gap {gap : List Char} {pieces : List (List Char)} {text : List Char}
    (blank : Blank gap) (h : Spaced pieces text) : Spaced pieces (gap ++ text) := by
  induction gap with
  | nil => exact h
  | cons c gap ih =>
    obtain ⟨first, others⟩ := List.forall_mem_cons.mp blank
    exact (ih others).cons_blank first

/-- A solid character in front makes a word of its own if the text starts with a blank, and belongs
to the first word if not. -/
theorem exists_spaced (text : List Char) : ∃ pieces, Spaced pieces text := by
  induction text with
  | nil => exact ⟨[], .nothing blank_nil⟩
  | cons c text ih =>
    obtain ⟨pieces, spaced⟩ := ih
    by_cases blank : IsBlank c
    · exact ⟨pieces, spaced.cons_blank blank⟩
    · by_cases apart : ∀ d ∈ text.head?, IsBlank d
      · have solid : ∀ d ∈ [c], ¬ IsBlank d := List.forall_mem_singleton.mpr blank
        exact ⟨[c] :: pieces, .word blank_nil (List.cons_ne_nil c []) solid apart spaced⟩
      · cases spaced with
        | nothing gap =>
          exact absurd (fun d head => gap d (List.mem_of_mem_head? head)) apart
        | @word gap word rest others before nonempty solid after later =>
          cases gap with
          | nil =>
            have solid' : ∀ d ∈ c :: word, ¬ IsBlank d := List.forall_mem_cons.mpr ⟨blank, solid⟩
            exact ⟨(c :: word) :: others,
              .word blank_nil (List.cons_ne_nil c word) solid' after later⟩
          | cons d gap =>
            exact absurd (by simpa using before d List.mem_cons_self) apart

theorem words_eq_iff {text : List Char} {pieces : List (List Char)} :
    words text = pieces ↔ Spaced pieces text := by
  constructor
  · rintro rfl
    obtain ⟨pieces, spaced⟩ := exists_spaced text
    rwa [words_of_spaced spaced]
  · exact words_of_spaced

/-- The token stands for the number: it is one or more decimal digits, perhaps after a plus sign,
and their value is below the bound. -/
def IsNumeral (bound : Nat) (token : List Char) (n : Nat) : Prop :=
  ∃ digits, (token = digits ∨ token = '+' :: digits) ∧ digits ≠ [] ∧
    (∀ c ∈ digits, c.isDigit = true) ∧ ofDigits digits = n ∧ n < bound

/-- The token without a plus sign in front. -/
def unsigned : List Char → List Char
  | '+' :: digits => digits
  | digits => digits

theorem numeral?_eq (bound : Nat) (token : List Char) :
    numeral? bound token =
      if unsigned token ≠ [] ∧ (unsigned token).all Char.isDigit ∧ ofDigits (unsigned token) < bound
      then some (ofDigits (unsigned token)) else none := rfl

theorem numeral?_eq_some_iff {bound : Nat} {token : List Char} {n : Nat} :
    numeral? bound token = some n ↔ IsNumeral bound token n := by
  have found : numeral? bound token = some n ↔ unsigned token ≠ [] ∧
      (∀ c ∈ unsigned token, c.isDigit = true) ∧ ofDigits (unsigned token) = n ∧ n < bound := by
    rw [numeral?_eq, Option.ite_none_right_eq_some, List.all_eq_true, Option.some.injEq]
    constructor
    · rintro ⟨⟨nonempty, decimal, below⟩, rfl⟩
      exact ⟨nonempty, decimal, rfl, below⟩
    · rintro ⟨nonempty, decimal, rfl, below⟩
      exact ⟨⟨nonempty, decimal, below⟩, rfl⟩
  rw [found]
  constructor
  · intro holds
    refine ⟨unsigned token, ?_, holds⟩
    unfold unsigned
    split
    · exact .inr rfl
    · exact .inl rfl
  · rintro ⟨digits, rfl | rfl, holds⟩
    · have same : unsigned token = token := by
        unfold unsigned
        split
        · exact absurd (holds.2.1 '+' List.mem_cons_self) (by decide)
        · rfl
      rwa [same]
    · exact holds

end UsageLedger.Text
