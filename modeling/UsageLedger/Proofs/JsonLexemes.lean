import Mathlib.Data.List.Forall2
import UsageLedger.Json.Parser
import UsageLedger.Json.Printer

/-!
Numbers and strings in JSON text. Each of them can be written in several ways, and reading any of
these gives the number or the string back.
-/

namespace UsageLedger

namespace Text

theorem spanOf_append {p : Char → Bool} {run rest : List Char} (all : ∀ c ∈ run, p c = true)
    (ends : ∀ c ∈ rest.head?, p c = false) : spanOf p (run ++ rest) = (run, rest) := by
  have stop : rest.takeWhile p = [] ∧ rest.dropWhile p = rest := by
    cases rest with
    | nil => exact ⟨rfl, rfl⟩
    | cons c rest => simp [ends c rfl]
  rw [spanOf, List.takeWhile_append_of_pos all, List.dropWhile_append_of_pos all, stop.1, stop.2,
    List.append_nil]

/-- Only zero has a leading zero, and no other digit after it. -/
theorem decimal_head (n : Nat) : (decimal n).head? = some '0' → decimal n = ['0'] := by
  induction n using Nat.strongRecOn with
  | ind n ih =>
    unfold decimal
    rw [Nat.toDigits_eq_if (by decide)]
    split
    next small =>
      intro zero
      simpa using zero
    next large =>
      intro zero
      rw [List.head?_append_of_ne_nil _ Nat.toDigits_ne_nil] at zero
      have shorter := ih (n / 10) (by omega) zero
      have value := ofDigits_decimal (n / 10)
      rw [shorter] at value
      have : ofDigits ['0'] = 0 := rfl
      omega

end Text

namespace Json

open Text

def IsDigits (digits : List Char) : Prop := digits ≠ [] ∧ ∀ c ∈ digits, c.isDigit = true

inductive WritesFraction : List Char → List Char → Prop where
  | absent : WritesFraction [] []
  | present {digits : List Char} : IsDigits digits → WritesFraction digits ('.' :: digits)

inductive WritesSign : Bool → List Char → Prop where
  | absent : WritesSign false []
  | plus : WritesSign false ['+']
  | minus : WritesSign true ['-']

inductive WritesExponent : Option Int → List Char → Prop where
  | absent : WritesExponent none []
  | present {letter : Char} {negative : Bool} {sign digits : List Char} :
      letter = 'e' ∨ letter = 'E' → WritesSign negative sign → IsDigits digits →
      WritesExponent (some (signed negative (ofDigits digits))) (letter :: (sign ++ digits))

/-- The text is a literal of the number: a minus sign if it is negative, the integer part without
leading zeros, and perhaps a fraction and an exponent. -/
def WritesNumber (n : JsonNumber) (text : List Char) : Prop :=
  ∃ fraction exponent, WritesFraction n.fraction fraction ∧ WritesExponent n.exponent exponent ∧
    text = signText n.negative ++ decimal n.whole ++ fraction ++ exponent

/-- A number that the text goes on after ends there. -/
def Ends (rest : List Char) : Prop := ∀ c ∈ rest.head?, c.isDigit = false ∧ c ∉ ['.', 'e', 'E']

theorem ends_nil : Ends [] := by simp [Ends]

theorem ends_cons {c : Char} (rest : List Char) (digit : c.isDigit = false)
    (other : c ∉ ['.', 'e', 'E']) : Ends (c :: rest) := by
  intro d mem
  cases mem
  exact ⟨digit, other⟩

theorem spanOf_digits {digits rest : List Char} (h : IsDigits digits)
    (ends : ∀ c ∈ rest.head?, c.isDigit = false) :
    spanOf Char.isDigit (digits ++ rest) = (digits, rest) :=
  spanOf_append h.2 ends

theorem scanWhole_decimal (n : Nat) {rest : List Char}
    (ends : ∀ c ∈ rest.head?, c.isDigit = false) :
    scanWhole (decimal n ++ rest) = some (n, rest) := by
  unfold scanWhole
  rw [spanOf_append (fun c mem => isDigit_of_mem_decimal mem) ends]
  split
  next nothing => exact absurd (congrArg Prod.fst nothing) (decimal_ne_nil n)
  next c more _ zeros =>
    have digits : decimal n = '0' :: c :: more := congrArg Prod.fst zeros
    have alone := decimal_head n (by rw [digits]; rfl)
    rw [digits] at alone
    simp at alone
  next digits after _ _ read =>
    cases read
    rw [ofDigits_decimal]

theorem scanFraction_writes {digits text rest : List Char} (writes : WritesFraction digits text)
    (ends : ∀ c ∈ rest.head?, c.isDigit = false ∧ c ≠ '.') :
    scanFraction (text ++ rest) = some (digits, rest) := by
  cases writes with
  | absent =>
    rw [List.nil_append]
    unfold scanFraction
    split
    next after => exact absurd rfl (ends '.' rfl).2
    next => rfl
  | present run =>
    rw [List.cons_append, scanFraction, spanOf_digits run fun c mem => (ends c mem).1]
    obtain ⟨first, more, rfl⟩ := List.exists_cons_of_ne_nil run.1
    rfl

theorem sign_writes {negative : Bool} {text rest : List Char} (writes : WritesSign negative text)
    (ends : ∀ c ∈ rest.head?, c ≠ '-' ∧ c ≠ '+') : sign (text ++ rest) = (negative, rest) := by
  cases writes with
  | absent =>
    rw [List.nil_append]
    unfold sign
    split
    next => exact absurd rfl (ends '-' rfl).1
    next => exact absurd rfl (ends '+' rfl).2
    next => rfl
  | plus => rfl
  | minus => rfl

theorem IsDigits.head {digits : List Char} (h : IsDigits digits) (rest : List Char) {c : Char}
    (mem : c ∈ (digits ++ rest).head?) : c.isDigit = true := by
  obtain ⟨first, more, rfl⟩ := List.exists_cons_of_ne_nil h.1
  cases mem
  exact h.2 c List.mem_cons_self

theorem scanExponent_writes {value : Option Int} {text rest : List Char}
    (writes : WritesExponent value text) (ends : Ends rest) :
    scanExponent (text ++ rest) = some (value, rest) := by
  cases writes with
  | absent =>
    rw [List.nil_append]
    unfold scanExponent
    split
    next => exact absurd (by simp) (ends 'e' rfl).2
    next => exact absurd (by simp) (ends 'E' rfl).2
    next => rfl
  | @present letter negative sign digits letters signs run =>
    have unsigned : ∀ c ∈ (digits ++ rest).head?, c ≠ '-' ∧ c ≠ '+' := by
      intro c mem
      have digit := run.head rest mem
      constructor <;> rintro rfl <;> exact absurd digit (by decide)
    have read := sign_writes signs unsigned
    have span := spanOf_digits run fun c mem => (ends c mem).1
    obtain ⟨first, more, rfl⟩ := List.exists_cons_of_ne_nil run.1
    rw [List.cons_append, List.append_assoc]
    rcases letters with rfl | rfl <;> simp only [scanExponent, read, span]

theorem WritesExponent.starts {value : Option Int} {text rest : List Char}
    (writes : WritesExponent value text) (ends : Ends rest) :
    ∀ c ∈ (text ++ rest).head?, c.isDigit = false ∧ c ≠ '.' := by
  intro c mem
  cases writes with
  | absent =>
    obtain ⟨digit, other⟩ := ends c mem
    exact ⟨digit, fun point => other (by simp [point])⟩
  | present letters _ _ =>
    cases mem
    rcases letters with rfl | rfl <;> decide

theorem WritesFraction.starts {digits text rest : List Char} (writes : WritesFraction digits text)
    (ends : ∀ c ∈ rest.head?, c.isDigit = false) :
    ∀ c ∈ (text ++ rest).head?, c.isDigit = false := by
  intro c mem
  cases writes with
  | absent => exact ends c mem
  | present _ =>
    cases mem
    decide

theorem decimal_cons (n : Nat) :
    ∃ first more, decimal n = first :: more ∧ first.isDigit = true := by
  obtain ⟨first, more, digits⟩ := List.exists_cons_of_ne_nil (decimal_ne_nil n)
  have mem : first ∈ decimal n := by
    rw [digits]
    exact List.mem_cons_self
  exact ⟨first, more, digits, isDigit_of_mem_decimal mem⟩

/-- Reading a literal gives its number, unless it is out of range. -/
theorem scanNumber_writes {n : JsonNumber} {text rest : List Char} (writes : WritesNumber n text)
    (ends : Ends rest) :
    scanNumber (text ++ rest) = if n.IsFinite then some (n, rest) else none := by
  obtain ⟨fraction, exponent, fractions, exponents, rfl⟩ := writes
  obtain ⟨negative, whole, digits, value⟩ := n
  have exponentStarts := exponents.starts ends
  have readWhole := scanWhole_decimal whole (fractions.starts fun c mem => (exponentStarts c mem).1)
  have readFraction := scanFraction_writes fractions exponentStarts
  have readExponent := scanExponent_writes exponents ends
  have tail : scanWhole (decimal whole ++ (fraction ++ (exponent ++ rest))) =
      some (whole, fraction ++ (exponent ++ rest)) := readWhole
  obtain ⟨first, more, cut, digit⟩ := decimal_cons whole
  simp only [List.append_assoc]
  rw [cut] at tail ⊢
  unfold scanNumber
  cases negative with
  | true =>
    simp only [signText, if_true, List.cons_append, List.nil_append, Option.bind_eq_bind]
    rw [← List.cons_append, tail, Option.bind_some, readFraction, Option.bind_some, readExponent,
      Option.bind_some]
  | false =>
    simp only [signText, Bool.false_eq_true, if_false, List.cons_append, List.nil_append,
      Option.bind_eq_bind]
    split
    next sign _ same =>
      exact absurd digit (by rw [(List.cons.inj same).1]; decide)
    next =>
      rw [← List.cons_append, tail, Option.bind_some, readFraction, Option.bind_some, readExponent,
        Option.bind_some]

/-- The digit stands for the hexadecimal value, as a small or as a capital letter from ten on. -/
def WritesHexDigit (value : Nat) (digit : Char) : Prop :=
  value < 16 ∧ (digit = Nat.digitChar value ∨ digit = (Nat.digitChar value).toUpper)

/-- The code in four hexadecimal digits. -/
def WritesCode (code : Nat) (digits : List Char) : Prop :=
  ∃ a b c d : Nat, code = 16 * (16 * (16 * a + b) + c) + d ∧
    List.Forall₂ WritesHexDigit [a, b, c, d] digits

/-- The characters that a backslash and a letter can stand for. -/
def letterEscapes : List (Char × Char) :=
  [('"', '"'), ('\\', '\\'), ('/', '/'), ('b', '\x08'), ('f', '\x0c'), ('n', '\n'), ('r', '\r'),
    ('t', '\t')]

/-- The ways to write a character of a string: as it is, by a letter, by its code, or by the codes
of a surrogate pair. -/
inductive WritesChar (c : Char) : List Char → Prop where
  | plain : 0x20 ≤ c.toNat → c ≠ '"' → c ≠ '\\' → WritesChar c [c]
  | letter {letter : Char} : (letter, c) ∈ letterEscapes → WritesChar c ['\\', letter]
  | code {digits : List Char} : WritesCode c.toNat digits → WritesChar c ('\\' :: 'u' :: digits)
  | pair {high low : Nat} {upper lower : List Char} : 0xD800 ≤ high → high ≤ 0xDBFF →
      0xDC00 ≤ low → low ≤ 0xDFFF →
      c.toNat = 0x10000 + (high - 0xD800) * 0x400 + (low - 0xDC00) → WritesCode high upper →
      WritesCode low lower → WritesChar c ('\\' :: 'u' :: upper ++ '\\' :: 'u' :: lower)

def WritesString (s : String) (text : List Char) : Prop :=
  ∃ pieces, List.Forall₂ WritesChar s.toList pieces ∧ text = '"' :: (pieces.flatten ++ ['"'])

theorem hexValue?_writes {value : Nat} {digit : Char} (writes : WritesHexDigit value digit) :
    hexValue? digit = some value := by
  have all : ∀ value < 16, hexValue? (Nat.digitChar value) = some value ∧
      hexValue? (Nat.digitChar value).toUpper = some value := by decide
  obtain ⟨below, rfl | rfl⟩ := writes
  · exact (all value below).1
  · exact (all value below).2

theorem hexDigits_writes {code : Nat} {digits : List Char} (writes : WritesCode code digits)
    (rest : List Char) : hexDigits 4 (digits ++ rest) = some (code, rest) := by
  obtain ⟨a, b, c, d, rfl, digits⟩ := writes
  cases digits with
  | cons first digits =>
  cases digits with
  | cons second digits =>
  cases digits with
  | cons third digits =>
  cases digits with
  | cons fourth digits =>
  cases digits with
  | nil =>
  simp [hexDigits, hexValue?_writes first, hexValue?_writes second, hexValue?_writes third,
    hexValue?_writes fourth]

theorem scalar?_toNat (c : Char) : scalar? c.toNat = some c := by
  have valid : c.toNat.isValidChar := c.valid
  rw [scalar?, dif_pos valid]
  rfl

/-- The code of a character is no surrogate. -/
theorem toNat_not_surrogate (c : Char) : ¬ (0xD800 ≤ c.toNat ∧ c.toNat ≤ 0xDBFF) := by
  have valid : c.toNat.isValidChar := c.valid
  unfold Nat.isValidChar at valid
  omega

theorem stringItem_writes {c : Char} {text : List Char} (writes : WritesChar c text)
    (rest : List Char) : stringItem (text ++ rest) = some (some c, rest) := by
  cases writes with
  | plain printable noQuote noSlash =>
    have kept : ¬ (c.toNat < 0x20 ∨ c = '\\') := by
      rintro (control | slash)
      · omega
      · exact noSlash slash
    rw [List.singleton_append]
    unfold stringItem
    split
    next same => exact absurd (List.cons.inj same).1 noQuote
    next same => exact absurd (List.cons.inj same).1 noSlash
    next same => exact absurd (List.cons.inj same).1 noSlash
    next same =>
      cases same
      rw [if_neg kept]
    next same => cases same
  | letter mem =>
    simp only [letterEscapes, List.mem_cons, Prod.mk.injEq, List.not_mem_nil, or_false] at mem
    rcases mem with ⟨rfl, rfl⟩ | ⟨rfl, rfl⟩ | ⟨rfl, rfl⟩ | ⟨rfl, rfl⟩ | ⟨rfl, rfl⟩ | ⟨rfl, rfl⟩ |
      ⟨rfl, rfl⟩ | ⟨rfl, rfl⟩ <;> rfl
  | code digits =>
    have read := hexDigits_writes digits rest
    simp only [List.cons_append, stringItem, unicodeEscape, read, Option.bind_eq_bind,
      Option.bind_some, if_neg (toNat_not_surrogate c), scalar?_toNat]
    rfl
  | @pair high low upper lower high₁ high₂ low₁ low₂ same uppers lowers =>
    have readLow := hexDigits_writes lowers rest
    have readHigh := hexDigits_writes uppers ('\\' :: 'u' :: (lower ++ rest))
    have slash : dropStart? ['\\', 'u'] ('\\' :: 'u' :: (lower ++ rest)) = some (lower ++ rest) :=
      dropStart?_eq_some_iff.mpr rfl
    have paired : surrogatePair? high low = some c := by
      rw [surrogatePair?, if_pos ⟨low₁, low₂⟩, ← same, scalar?_toNat]
    simp only [List.cons_append, List.append_assoc, stringItem, unicodeEscape, readHigh, slash,
      readLow, paired, Option.bind_eq_bind, Option.bind_some, if_pos (And.intro high₁ high₂)]
    rfl

theorem WritesChar.ne_nil {c : Char} {text : List Char} (writes : WritesChar c text) :
    text ≠ [] := by
  cases writes <;> exact List.cons_ne_nil _ _

theorem stringItems_writes {chars : List Char} {pieces : List (List Char)}
    (writes : List.Forall₂ WritesChar chars pieces) (rest : List Char) {fuel : Nat}
    (enough : chars.length < fuel) :
    stringItems fuel (pieces.flatten ++ '"' :: rest) = some (chars, rest) := by
  induction writes generalizing fuel with
  | nil =>
    obtain ⟨fuel, rfl⟩ := Nat.exists_eq_succ_of_ne_zero (Nat.ne_zero_of_lt enough)
    rfl
  | cons first _ ih =>
    obtain ⟨fuel, rfl⟩ := Nat.exists_eq_succ_of_ne_zero (Nat.ne_zero_of_lt enough)
    rw [List.flatten_cons, List.append_assoc, stringItems, stringItem_writes first]
    simp only [ih (Nat.lt_of_succ_lt_succ enough), Option.map_some]

theorem length_le_flatten {chars : List Char} {pieces : List (List Char)}
    (writes : List.Forall₂ WritesChar chars pieces) : chars.length ≤ pieces.flatten.length := by
  induction writes with
  | nil => exact Nat.le_refl 0
  | cons first _ ih =>
    have := List.length_pos_of_ne_nil first.ne_nil
    simp only [List.length_cons, List.flatten_cons, List.length_append]
    omega

/-- Reading a literal after its opening quote gives its string. -/
theorem scanString_writes {s : String} {text : List Char} (writes : WritesString s text) :
    ∃ body, text = '"' :: body ∧ ∀ rest, scanString (body ++ rest) = some (s, rest) := by
  obtain ⟨pieces, pieces_write, rfl⟩ := writes
  refine ⟨pieces.flatten ++ ['"'], rfl, fun rest => ?_⟩
  have enough : s.toList.length < (pieces.flatten ++ '"' :: rest).length + 1 := by
    have := length_le_flatten pieces_write
    rw [List.length_append]
    omega
  rw [List.append_assoc, List.singleton_append, scanString,
    stringItems_writes pieces_write rest enough, Option.map_some]
  simp only [String.ofList_toList]

theorem writesChar_escape (c : Char) : WritesChar c (escape c) := by
  have letter {name : Char} (mem : (name, c) ∈ letterEscapes) : WritesChar c ['\\', name] :=
    .letter mem
  unfold escape
  split_ifs with quote slash back feed line carriage tab control
  · exact letter (by simp [letterEscapes, quote])
  · exact letter (by simp [letterEscapes, slash])
  · exact letter (by simp [letterEscapes, back])
  · exact letter (by simp [letterEscapes, feed])
  · exact letter (by simp [letterEscapes, line])
  · exact letter (by simp [letterEscapes, carriage])
  · exact letter (by simp [letterEscapes, tab])
  · refine .code ⟨0, 0, c.toNat / 16, c.toNat % 16, by omega, ?_⟩
    have digit {value : Nat} (below : value < 16) : WritesHexDigit value (hexChar value) :=
      ⟨below, .inl rfl⟩
    exact .cons (digit (by omega)) (.cons (digit (by omega)) (.cons (digit (by omega))
      (.cons (digit (by omega)) .nil)))
  · exact .plain (by omega) quote slash

theorem writesString_quote (s : String) : WritesString s (quote s) := by
  refine ⟨s.toList.map escape, ?_, ?_⟩
  · rw [List.forall₂_map_right_iff]
    exact List.forall₂_same.mpr fun c _ => writesChar_escape c
  · rw [quote, List.flatMap_def]
    rfl

end Json

end UsageLedger
