import Mathlib.Data.Bool.AllAny
import UsageLedger.Proofs.JsonLexemes
import UsageLedger.Toml.Parser

/-!
Integers in TOML text. Each of them can be written in several ways, in four bases and with
underscores between the digits, and reading any of these gives the integer back.
-/

namespace UsageLedger.Toml

open Text
open Json (WritesSign WritesHexDigit hexValue?_writes signText)

/-- The text is the run of digits with single underscores between some of them. -/
inductive Spread : List Char → List Char → Prop where
  | last (c : Char) : Spread [c] [c]
  | next (c : Char) {digits text : List Char} : Spread digits text →
      Spread (c :: digits) (c :: text)
  | apart (c : Char) {digits text : List Char} : Spread digits text →
      Spread (c :: digits) (c :: '_' :: text)

theorem Spread.cons {digits text : List Char} (h : Spread digits text) :
    ∃ c more others, digits = c :: more ∧ text = c :: others := by
  cases h with
  | last c => exact ⟨c, _, _, rfl, rfl⟩
  | next c _ => exact ⟨c, _, _, rfl, rfl⟩
  | apart c _ => exact ⟨c, _, _, rfl, rfl⟩

theorem Spread.mem {digits text : List Char} (h : Spread digits text) {c : Char}
    (mem : c ∈ text) : c ∈ digits ∨ c = '_' := by
  induction h with
  | last d => exact .inl mem
  | next d _ ih =>
    rcases List.mem_cons.mp mem with rfl | mem
    · exact .inl List.mem_cons_self
    · exact (ih mem).imp_left (List.mem_cons_of_mem _)
  | apart d _ ih =>
    rcases List.mem_cons.mp mem with rfl | mem
    · exact .inl List.mem_cons_self
    · rcases List.mem_cons.mp mem with rfl | mem
      · exact .inr rfl
      · exact (ih mem).imp_left (List.mem_cons_of_mem _)

section
variable {p : Char → Bool}

theorem go_digit (solid : p '_' = false) {c : Char} (digit : p c = true) (read rest : List Char) :
    digitRun.go p read (c :: rest) = digitRun.go p (c :: read) rest := by
  rw [digitRun.go.eq_def]
  split
  next same => cases same
  next same =>
    cases same
    rw [solid] at digit
    cases digit
  next same =>
    cases same
    rw [if_pos digit]

theorem go_underscore (solid : p '_' = false) {c : Char} (digit : p c = true)
    (read rest : List Char) :
    digitRun.go p read ('_' :: c :: rest) = digitRun.go p read (c :: rest) := by
  rw [go_digit solid digit, digitRun.go.eq_def]
  exact if_pos digit

theorem go_ends {rest : List Char} (ends : ∀ c ∈ rest.head?, p c = false ∧ c ≠ '_')
    (read : List Char) : digitRun.go p read rest = some (read.reverse, rest) := by
  rw [digitRun.go.eq_def]
  split
  next => rfl
  next => exact absurd rfl (ends '_' rfl).2
  next c _ _ => rw [if_neg (by rw [(ends c rfl).1]; exact Bool.false_ne_true)]

theorem go_spread (solid : p '_' = false) {digits text rest : List Char}
    (h : Spread digits text) (all : ∀ c ∈ digits, p c = true)
    (ends : ∀ c ∈ rest.head?, p c = false ∧ c ≠ '_') (read : List Char) :
    digitRun.go p read (text ++ rest) = some (read.reverse ++ digits, rest) := by
  induction h generalizing read with
  | last c =>
    rw [List.singleton_append, go_digit solid (all c List.mem_cons_self), go_ends ends,
      List.reverse_cons]
  | next c _ ih =>
    rw [List.cons_append, go_digit solid (all c List.mem_cons_self),
      ih fun d mem => all d (List.mem_cons_of_mem _ mem), List.reverse_cons, List.append_assoc,
      List.singleton_append]
  | apart c tail ih =>
    obtain ⟨d, more, others, rfl, rfl⟩ := tail.cons
    rw [List.cons_append, List.cons_append, go_digit solid (all c List.mem_cons_self),
      List.cons_append, go_underscore solid (all d (by simp)), ← List.cons_append,
      ih fun e mem => all e (List.mem_cons_of_mem _ mem), List.reverse_cons, List.append_assoc,
      List.singleton_append]

/-- A run of digits is read to its end, without its underscores. -/
theorem digitRun_spread (solid : p '_' = false) {digits text rest : List Char}
    (h : Spread digits text) (all : ∀ c ∈ digits, p c = true)
    (ends : ∀ c ∈ rest.head?, p c = false ∧ c ≠ '_') :
    digitRun p (text ++ rest) = some (digits, rest) := by
  have read := go_spread solid h all ends []
  obtain ⟨c, more, others, rfl, rfl⟩ := h.cons
  have first := all c List.mem_cons_self
  rw [List.cons_append, go_digit solid first] at read
  rw [List.cons_append, digitRun, if_pos first, read, List.reverse_nil, List.nil_append]

end

/-- The bases besides ten, with the letters that announce them. -/
def baseLetters : List (Nat × Char) := [(16, 'x'), (8, 'o'), (2, 'b')]

/-- The text writes the integer: in decimal digits without leading zeros, perhaps after a sign, or
in the digits of another base. -/
inductive WritesInteger : Int → List Char → Prop where
  | decimal {negative : Bool} {sign text : List Char} {n : Nat} : WritesSign negative sign →
      Spread (decimal n) text → WritesInteger (signed negative n) (sign ++ text)
  | based {base : Nat} {letter : Char} {values : List Nat} {digits text : List Char} :
      (base, letter) ∈ baseLetters → (∀ value ∈ values, value < base) →
      List.Forall₂ WritesHexDigit values digits → Spread digits text →
      WritesInteger (values.foldl (fun n value => base * n + value) 0 : Nat)
        ('0' :: letter :: text)

theorem Spread.self {digits : List Char} (nonempty : digits ≠ []) : Spread digits digits := by
  induction digits with
  | nil => exact absurd rfl nonempty
  | cons c digits ih =>
    cases digits with
    | nil => exact .last c
    | cons d digits => exact .next c (ih (List.cons_ne_nil d digits))

/-- The digits of an integer after a minus sign, if it is negative. -/
def integerText (n : Int) : List Char := signText (n < 0) ++ decimal n.natAbs

theorem writesInteger_integerText (n : Int) : WritesInteger n (integerText n) := by
  have sign (negative : Bool) : WritesSign negative (signText negative) := by
    cases negative
    · exact .absent
    · exact .minus
  have value : signed (n < 0) n.natAbs = n := by
    unfold signed
    split_ifs with negative
    · have below := of_decide_eq_true negative
      omega
    · have above := of_decide_eq_false (Bool.eq_false_iff.mpr negative)
      omega
  have written := WritesInteger.decimal (sign (n < 0)) (Spread.self (decimal_ne_nil n.natAbs))
  rwa [value] at written

/-- The marks of what may follow a value: space, the end of the line, or more of a table between
braces. -/
def endMarks : List Char := [' ', '\t', '#', '\n', '\r', ',', '\x7d']

def Ends (rest : List Char) : Prop := ∀ c ∈ rest.head?, c ∈ endMarks

theorem Ends.digit {rest : List Char} (h : Ends rest) {c : Char} (mem : c ∈ rest.head?) :
    c.isDigit = false ∧ c ≠ '_' := by
  have all : ∀ c ∈ endMarks, c.isDigit = false ∧ c ≠ '_' :=
    List.all_iff_forall_prop.mp (by decide)
  exact all c (h c mem)

theorem Ends.not_mem {rest : List Char} (h : Ends rest) {c : Char} (mem : c ∈ rest.head?) :
    c ∉ ['-', ':', '.', 'e', 'E', 'x', 'o', 'b'] := by
  have all : ∀ c ∈ endMarks, c ∉ ['-', ':', '.', 'e', 'E', 'x', 'o', 'b'] :=
    List.all_iff_forall_prop.mp (by decide)
  exact all c (h c mem)

theorem wholeDigits_spread {n : Nat} {text rest : List Char} (h : Spread (decimal n) text)
    (ends : Ends rest) : wholeDigits (text ++ rest) = some (decimal n, rest) := by
  have read := digitRun_spread (p := Char.isDigit) rfl h
    (fun c mem => isDigit_of_mem_decimal mem) fun c mem => ends.digit mem
  unfold wholeDigits
  split
  next tail same =>
    obtain ⟨c, more, others, digits, rfl⟩ := h.cons
    cases same
    have alone := decimal_head n (by rw [digits]; rfl)
    rw [alone] at h ⊢
    cases h with
    | last _ => rfl
    | next _ tail => cases tail
    | apart _ tail => cases tail
  next => exact read

/-- The digits of a date or time are followed by a mark that stands neither in such a text nor
after it. -/
theorem dropStart?_boundedDigits {count low high n : Nat} {text rest after : List Char} {c : Char}
    (clean : c ∉ text) (ends : ∀ d ∈ rest.head?, d.isDigit = false ∧ d ≠ c)
    (found : boundedDigits count low high (text ++ rest) = some (n, after)) :
    dropStart? [c] after = none := by
  unfold boundedDigits at found
  dsimp only at found
  split_ifs at found with fits
  cases found
  rw [Option.eq_none_iff_forall_ne_some]
  intro more found
  have at_count : (text ++ rest)[count]? = some c := by
    rw [← List.head?_drop, dropStart?_eq_some_iff.mp found]
    rfl
  rcases Nat.lt_trichotomy count text.length with inside | rfl | beyond
  · rw [List.getElem?_append_left inside] at at_count
    exact clean (List.mem_of_getElem? at_count)
  · rw [List.getElem?_append_right (Nat.le_refl _), Nat.sub_self, ← List.head?_eq_getElem?]
      at at_count
    exact (ends c at_count).2 rfl
  · cases rest with
    | nil => simp [List.getElem?_eq_none (Nat.le_of_lt beyond)] at at_count
    | cons d rest =>
      have mem : d ∈ (text ++ d :: rest).take count := by
        rw [List.take_append, List.mem_append]
        refine .inr (List.mem_take_iff_getElem.mpr ⟨0, by simp; omega, rfl⟩)
      have digit := List.all_eq_true.mp fits.2.1 d mem
      rw [(ends d rfl).1] at digit
      cases digit

/-- Text without the marks of dates and times is none, whatever may follow a value. -/
theorem scanDateTime_eq_none {text rest : List Char}
    (all : ∀ c ∈ text, c.isAlphanum = true ∨ c ∈ ['_', '+']) (ends : Ends rest) :
    scanDateTime (text ++ rest) = none := by
  have stop {count low high n : Nat} {after : List Char} {c : Char} (mark : c ∈ ['-', ':'])
      (found : boundedDigits count low high (text ++ rest) = some (n, after)) :
      dropStart? [c] after = none := by
    have marks : ∀ c ∈ ['-', ':'], ¬ (c.isAlphanum = true ∨ c ∈ ['_', '+']) :=
      List.all_iff_forall_prop.mp (by decide)
    refine dropStart?_boundedDigits (fun mem => marks c mark (all c mem)) (fun d mem => ?_) found
    refine ⟨(ends.digit mem).1, ?_⟩
    rintro rfl
    exact ends.not_mem mem (List.mem_append_left _ mark)
  have date : dropDate? (text ++ rest) = none := by
    unfold dropDate?
    cases found : boundedDigits 4 0 9999 (text ++ rest) with
    | none => rfl
    | some year =>
      simp only [Option.bind_eq_bind, Option.bind_some, stop (c := '-') (by simp) found,
        Option.bind_none]
  have time : dropTime? (text ++ rest) = none := by
    unfold dropTime?
    cases found : boundedDigits 2 0 23 (text ++ rest) with
    | none => rfl
    | some hour =>
      simp only [Option.bind_eq_bind, Option.bind_some, stop (c := ':') (by simp) found,
        Option.bind_none]
  simp only [scanDateTime, date, time, Option.bind_eq_bind, Option.bind_none]

theorem scanDateTime_minus (text : List Char) : scanDateTime ('-' :: text) = none := by
  have date : dropDate? ('-' :: text) = none := by simp [dropDate?, boundedDigits]
  have time : dropTime? ('-' :: text) = none := by simp [dropTime?, boundedDigits]
  simp only [scanDateTime, date, time, Option.bind_eq_bind, Option.bind_none]

theorem scanSign_writes {negative : Bool} {sign text : List Char}
    (writes : WritesSign negative sign) (digit : ∀ c ∈ text.head?, c.isDigit = true) :
    scanSign (sign ++ text) = (negative, text) := by
  cases writes with
  | absent =>
    rw [List.nil_append]
    unfold scanSign
    split
    next => exact absurd (digit '-' rfl) (by decide)
    next => exact absurd (digit '+' rfl) (by decide)
    next => rfl
  | plus => rfl
  | minus => rfl

/-- Digits with neither a fraction nor an exponent after them are no float. -/
theorem scanFloat_eq_none {text whole after : List Char}
    (digit : ∀ c ∈ (scanSign text).2.head?, c.isDigit = true)
    (read : wholeDigits (scanSign text).2 = some (whole, after))
    (stop : ∀ c ∈ after.head?, c ∉ ['.', 'e', 'E']) : scanFloat text = none := by
  have fraction : scanFraction after = some ([], after) := by
    unfold scanFraction
    split
    next => exact absurd (by simp) (stop '.' rfl)
    next => rfl
  have exponent : scanExponent after = some (none, after) := by
    unfold scanExponent
    split
    next => exact absurd (by simp) (stop 'e' rfl)
    next => exact absurd (by simp) (stop 'E' rfl)
    next => rfl
  have number : decimalFloat text = none := by
    simp [decimalFloat, read, fraction, exponent]
  have other {name : List Char} {c : Char} (letter : c.isDigit = false) :
      dropStart? (c :: name) (scanSign text).2 = none := by
    cases start : (scanSign text).2 with
    | nil => rfl
    | cons d more =>
      refine if_neg ?_
      rintro rfl
      rw [digit c (by rw [start]; rfl)] at letter
      cases letter
  have named : namedFloat text = none := by
    have inf := @other "nf".toList 'i' (by decide)
    have nan := @other "an".toList 'n' (by decide)
    simp only [namedFloat]
    exact (congrArg (Option.map _) (congrArg₂ Option.or inf nan)).trans rfl
  rw [scanFloat, number, named]
  rfl

/-- The number is in the range of 64 bits. -/
def Fits (n : Int) : Prop := -0x8000000000000000 ≤ n ∧ n < 0x8000000000000000

theorem isAlphanum_writes {value : Nat} {digit : Char} (writes : WritesHexDigit value digit) :
    digit.isAlphanum = true := by
  have all : ∀ value < 16, (Nat.digitChar value).isAlphanum = true ∧
      (Nat.digitChar value).toUpper.isAlphanum = true := by decide
  obtain ⟨below, rfl | rfl⟩ := writes
  · exact (all value below).1
  · exact (all value below).2

theorem exists_writes {base : Nat} {values : List Nat} {digits : List Char}
    (below : ∀ value ∈ values, value < base) (written : List.Forall₂ WritesHexDigit values digits)
    {c : Char} (mem : c ∈ digits) : ∃ value < base, WritesHexDigit value c := by
  induction written with
  | nil => cases mem
  | @cons value digit _ _ writes _ ih =>
    rcases List.mem_cons.mp mem with rfl | mem
    · exact ⟨value, below value List.mem_cons_self, writes⟩
    · exact ih (fun other mem => below other (List.mem_cons_of_mem _ mem)) mem

theorem foldl_writes {base : Nat} {values : List Nat} {digits : List Char}
    (written : List.Forall₂ WritesHexDigit values digits) (start : Nat) :
    digits.foldl (fun n c => base * n + (hexValue? c).getD 0) start =
      values.foldl (fun n value => base * n + value) start := by
  induction written generalizing start with
  | nil => rfl
  | cons writes _ ih =>
    rw [List.foldl_cons, List.foldl_cons, hexValue?_writes writes, Option.getD_some, ih]

theorem isAlphanum_spread {digits text : List Char} (spread : Spread digits text)
    (all : ∀ c ∈ digits, c.isAlphanum = true) {c : Char} (mem : c ∈ text) :
    c.isAlphanum = true ∨ c ∈ ['_', '+'] :=
  (spread.mem mem).imp (all c) fun same => by simp [same]

theorem scanDateTime_writes {n : Int} {text rest : List Char} (writes : WritesInteger n text)
    (ends : Ends rest) : scanDateTime (text ++ rest) = none := by
  cases writes with
  | @decimal negative sign text n signs spread =>
    have all : ∀ c ∈ text, c.isAlphanum = true ∨ c ∈ ['_', '+'] := fun c =>
      isAlphanum_spread spread fun d mem => by
        simp [Char.isAlphanum, isDigit_of_mem_decimal mem]
    cases signs with
    | minus => exact scanDateTime_minus _
    | absent => exact scanDateTime_eq_none all ends
    | plus => exact scanDateTime_eq_none (List.forall_mem_cons.mpr ⟨by simp, all⟩) ends
  | @based base letter values digits text announced below written spread =>
    have all : ∀ c ∈ text, c.isAlphanum = true ∨ c ∈ ['_', '+'] := fun c =>
      isAlphanum_spread spread fun d mem => by
        obtain ⟨value, -, writes⟩ := exists_writes below written mem
        exact isAlphanum_writes writes
    have known : ∀ entry ∈ baseLetters, entry.2.isAlphanum = true := by decide
    exact scanDateTime_eq_none (List.forall_mem_cons.mpr
      ⟨by decide, List.forall_mem_cons.mpr ⟨.inl (known _ announced), all⟩⟩) ends

theorem head_decimal {n : Nat} {text : List Char} (spread : Spread (decimal n) text) :
    ∃ c more, text = c :: more ∧ c.isDigit = true := by
  obtain ⟨c, _, others, digits, rfl⟩ := spread.cons
  exact ⟨c, others, rfl, isDigit_of_mem_decimal (by rw [digits]; exact List.mem_cons_self)⟩

/-- An integer begins with a digit or with a sign. -/
theorem WritesInteger.head {n : Int} {text : List Char} (writes : WritesInteger n text) :
    ∃ c more, text = c :: more ∧ (c.isDigit = true ∨ c ∈ ['+', '-']) := by
  cases writes with
  | decimal signs spread =>
    obtain ⟨c, more, rfl, digit⟩ := head_decimal spread
    cases signs with
    | absent => exact ⟨c, more, rfl, .inl digit⟩
    | plus => exact ⟨'+', c :: more, rfl, .inr (by simp)⟩
    | minus => exact ⟨'-', c :: more, rfl, .inr (by simp)⟩
  | based => exact ⟨'0', _, rfl, .inl rfl⟩

/-- The bounds of the range are too large to compute with, so the range test stays closed here. -/
theorem basedInteger_eq {base : Nat} {digits text rest : List Char}
    (read : digitRun (fun c => (hexValue? c).getD base < base) text = some (digits, rest)) :
    basedInteger base text = (checked (hexNumber base digits)).map (·, rest) := by
  rw [Option.map_eq_bind]
  unfold basedInteger
  rw [read]
  exact Option.bind_some _ _

theorem basedInteger_writes {base : Nat} {values : List Nat} {digits text rest : List Char}
    (below : ∀ value ∈ values, value < base) (written : List.Forall₂ WritesHexDigit values digits)
    (spread : Spread digits text) (ends : Ends rest) :
    basedInteger base (text ++ rest) =
      (checked (values.foldl (fun n value => base * n + value) 0 : Nat)).map (·, rest) := by
  have solid {c : Char} (none : hexValue? c = none) :
      decide ((hexValue? c).getD base < base) = false := by simp [none]
  have all : ∀ c ∈ digits, decide ((hexValue? c).getD base < base) = true := by
    intro c mem
    obtain ⟨value, small, writes⟩ := exists_writes below written mem
    simpa [hexValue?_writes writes] using small
  have others : ∀ c ∈ endMarks, hexValue? c = none :=
    List.all_iff_forall_prop.mp (by decide)
  have read := digitRun_spread (p := fun c => (hexValue? c).getD base < base) (solid (by decide))
    spread all fun c mem => ⟨solid (others c (ends c mem)), (ends.digit mem).2⟩
  rw [basedInteger_eq read, hexNumber, foldl_writes written]

theorem decimalInteger_writes {negative : Bool} {sign text rest : List Char} {n : Nat}
    (signs : WritesSign negative sign) (spread : Spread (decimal n) text) (ends : Ends rest) :
    decimalInteger (sign ++ text ++ rest) = (checked (signed negative n)).map (·, rest) := by
  have whole := wholeDigits_spread spread ends
  obtain ⟨c, more, rfl, digit⟩ := head_decimal spread
  have unsigned : scanSign (sign ++ (c :: more ++ rest)) = (negative, c :: more ++ rest) :=
    scanSign_writes signs (by simpa using digit)
  unfold decimalInteger
  generalize checked = check
  rw [List.append_assoc, unsigned]
  simp only [whole, Option.bind_eq_bind, Option.bind_some, ofDigits_decimal]
  cases check _ <;> rfl

theorem scanInteger_writes {n : Int} {text rest : List Char} (writes : WritesInteger n text)
    (ends : Ends rest) : scanInteger (text ++ rest) = (checked n).map (·, rest) := by
  cases writes with
  | @decimal negative sign text n signs spread =>
    have read := decimalInteger_writes signs spread ends
    obtain ⟨c, more, rfl, digit⟩ := head_decimal spread
    rw [← read]
    unfold scanInteger
    cases signs with
    | plus => rfl
    | minus => rfl
    | absent =>
      -- A leading zero stands alone, so the letter of a base would be part of the rest.
      have plain {letter : Char} {tail : List Char}
          (same : c :: more ++ rest = '0' :: letter :: tail) (mem : letter ∈ ['x', 'o', 'b']) :
          False := by
        have whole := wholeDigits_spread spread ends
        rw [same] at whole
        have after : letter :: tail = rest := congrArg Prod.snd (Option.some.inj whole)
        exact ends.not_mem (c := letter) (by rw [← after]; rfl) (by simp at mem ⊢; tauto)
      split
      next same => exact absurd (plain same (by simp)) id
      next same => exact absurd (plain same (by simp)) id
      next same => exact absurd (plain same (by simp)) id
      next => rfl
  | based announced below written spread =>
    have read := basedInteger_writes below written spread ends
    simp only [baseLetters, List.mem_cons, Prod.mk.injEq, List.not_mem_nil, or_false] at announced
    rcases announced with ⟨rfl, rfl⟩ | ⟨rfl, rfl⟩ | ⟨rfl, rfl⟩ <;> exact read

/-- What is left of an integer's digits is no part of a float. -/
theorem scanFloat_writes {n : Int} {text rest : List Char} (writes : WritesInteger n text)
    (ends : Ends rest) : scanFloat (text ++ rest) = none := by
  cases writes with
  | decimal signs spread =>
    have whole := wholeDigits_spread spread ends
    obtain ⟨c, more, rfl, digit⟩ := head_decimal spread
    have starts : ∀ d ∈ (c :: more ++ rest).head?, d.isDigit = true := by simpa using digit
    have unsigned := scanSign_writes signs starts
    rw [List.append_assoc]
    refine scanFloat_eq_none ?_ (by rw [unsigned]; exact whole) fun d mem found => ?_
    · rw [unsigned]
      exact starts
    · exact ends.not_mem mem (by simp at found ⊢; tauto)
  | @based base letter values digits text announced below written spread =>
    have known : ∀ entry ∈ baseLetters, entry.2 ∉ ['.', 'e', 'E'] := by decide
    exact scanFloat_eq_none (by simp [scanSign]) rfl (by simpa using known _ announced)

/-- Reading an integer of 64 bits gives it back. -/
theorem scanNumeric_writes {n : Int} {text rest : List Char} (writes : WritesInteger n text)
    (fits : Fits n) (ends : Ends rest) :
    scanNumeric (text ++ rest) = some (.integer n, rest) := by
  have range : checked n = some n := if_pos fits
  simp only [scanNumeric, scanDateTime_writes writes ends, scanFloat_writes writes ends,
    scanInteger_writes writes ends, range, Option.map_some]

end UsageLedger.Toml
