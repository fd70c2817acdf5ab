import Mathlib.Data.Bool.AllAny
import UsageLedger.Proofs.JsonLexemes
import UsageLedger.Toml.Parser

/-!
Keys in TOML text. A key is bare or quoted, and the reading of any of its spellings gives the key
back.
-/

namespace UsageLedger.Toml

open Text
open Json (WritesHexDigit hexValue?_writes scalar?_toNat)

/-- Spaces and tabs, of which any number may stand between the parts of a line. -/
def IsGap (text : List Char) : Prop := ∀ c ∈ text, IsSpace c

theorem isGap_nil : IsGap [] := List.forall_mem_nil _

theorem isGap_space : IsGap [' '] := by simp [IsGap, IsSpace]

theorem skipSpace_gap {gap text : List Char} (spaces : IsGap gap)
    (starts : ∀ c ∈ text.head?, ¬ IsSpace c) : skipSpace (gap ++ text) = text := by
  have span := spanOf_append (p := fun c => IsSpace c)
    (fun c mem => decide_eq_true (spaces c mem)) fun c mem => decide_eq_false (starts c mem)
  exact congrArg Prod.snd span

theorem skipSpace_cons {gap : List Char} {c : Char} (spaces : IsGap gap) (solid : ¬ IsSpace c)
    (rest : List Char) : skipSpace (gap ++ c :: rest) = c :: rest := by
  refine skipSpace_gap spaces fun d mem => ?_
  cases mem
  exact solid

theorem skipSpace_solid {text : List Char} (starts : ∀ c ∈ text.head?, ¬ IsSpace c) :
    skipSpace text = text := by
  have skipped := skipSpace_gap isGap_nil starts
  exact skipped

/-- The characters that a backslash and a letter stand for, with the letters. -/
def letterEscapes : List (Char × Char) :=
  [('b', '\x08'), ('t', '\t'), ('n', '\n'), ('f', '\x0c'), ('r', '\r'), ('"', '"'), ('\\', '\\')]

/-- The code in so many hexadecimal digits. -/
def WritesCode (count code : Nat) (digits : List Char) : Prop :=
  ∃ values : List Nat, values.length = count ∧ code = values.foldl (fun n v => 16 * n + v) 0 ∧
    List.Forall₂ WritesHexDigit values digits

/-- The ways to write a character between double quotes: as it is, by a letter, or by its code. -/
inductive WritesChar (c : Char) : List Char → Prop where
  | plain : IsPrintable c → c ≠ '"' → c ≠ '\\' → WritesChar c [c]
  | letter {letter : Char} : (letter, c) ∈ letterEscapes → WritesChar c ['\\', letter]
  | short {digits : List Char} : WritesCode 4 c.toNat digits → WritesChar c ('\\' :: 'u' :: digits)
  | long {digits : List Char} : WritesCode 8 c.toNat digits → WritesChar c ('\\' :: 'U' :: digits)

/-- A part of a key: bare, between single quotes, or between double quotes. -/
inductive WritesPart (part : String) : List Char → Prop where
  | bare : part ≠ "" → (∀ c ∈ part.toList, IsBare c) → WritesPart part part.toList
  | literal : (∀ c ∈ part.toList, IsPrintable c ∧ c ≠ '\x27') →
      WritesPart part ('\x27' :: (part.toList ++ ['\x27']))
  | basic {pieces : List (List Char)} : List.Forall₂ WritesChar part.toList pieces →
      WritesPart part ('"' :: (pieces.flatten ++ ['"']))

theorem mapM_hexValue? {values : List Nat} {digits : List Char}
    (written : List.Forall₂ WritesHexDigit values digits) :
    digits.mapM hexValue? = some values := by
  induction written with
  | nil => rfl
  | cons writes _ ih =>
    rw [List.mapM_cons, hexValue?_writes writes, ih]
    rfl

theorem hexDigits_writes {count code : Nat} {digits : List Char}
    (writes : WritesCode count code digits) (rest : List Char) :
    hexDigits count (digits ++ rest) = some (code, rest) := by
  obtain ⟨values, rfl, rfl, written⟩ := writes
  have length := written.length_eq
  simp only [hexDigits, length, List.take_left', List.drop_left', mapM_hexValue? written, if_true,
    Option.map_some]

theorem WritesChar.ne_nil {c : Char} {text : List Char} (writes : WritesChar c text) :
    text ≠ [] := by
  cases writes <;> exact List.cons_ne_nil _ _

theorem basicString_char {c : Char} {text : List Char} (writes : WritesChar c text) (fuel : Nat)
    (rest : List Char) :
    basicString (fuel + 1) (text ++ rest) =
      (basicString fuel rest).map fun (chars, rest) => (c :: chars, rest) := by
  have escaped (piece : List Char) (read : escape (piece ++ rest) = some (c, rest)) :
      basicString (fuel + 1) ('\\' :: piece ++ rest) =
        (basicString fuel rest).map fun (chars, rest) => (c :: chars, rest) := by
    simp only [List.cons_append, basicString, read, Option.bind_eq_bind, Option.bind_some]
    exact Option.map_eq_bind.symm
  cases writes with
  | plain printable noQuote noSlash =>
    rw [List.singleton_append, basicString.eq_def]
    dsimp only
    split
    next same => exact absurd (List.cons.inj same).1 noQuote
    next same => exact absurd (List.cons.inj same).1 noSlash
    next same =>
      cases same
      rw [if_pos printable]
    next same => cases same
  | letter mem =>
    refine escaped [_] ?_
    simp only [letterEscapes, List.mem_cons, Prod.mk.injEq, List.not_mem_nil, or_false] at mem
    rcases mem with ⟨rfl, rfl⟩ | ⟨rfl, rfl⟩ | ⟨rfl, rfl⟩ | ⟨rfl, rfl⟩ | ⟨rfl, rfl⟩ | ⟨rfl, rfl⟩ |
      ⟨rfl, rfl⟩ <;> rfl
  | short digits =>
    refine escaped ('u' :: _) ?_
    simp only [List.cons_append, escape, hexDigits_writes digits, scalar?_toNat,
      Option.bind_eq_bind, Option.bind_some]
    rfl
  | long digits =>
    refine escaped ('U' :: _) ?_
    simp only [List.cons_append, escape, hexDigits_writes digits, scalar?_toNat,
      Option.bind_eq_bind, Option.bind_some]
    rfl

theorem basicString_writes {chars : List Char} {pieces : List (List Char)}
    (writes : List.Forall₂ WritesChar chars pieces) (rest : List Char) {fuel : Nat}
    (enough : chars.length < fuel) :
    basicString fuel (pieces.flatten ++ '"' :: rest) = some (chars, rest) := by
  induction writes generalizing fuel with
  | nil =>
    obtain ⟨fuel, rfl⟩ := Nat.exists_eq_succ_of_ne_zero (Nat.ne_zero_of_lt enough)
    rfl
  | cons first _ ih =>
    obtain ⟨fuel, rfl⟩ := Nat.exists_eq_succ_of_ne_zero (Nat.ne_zero_of_lt enough)
    rw [List.flatten_cons, List.append_assoc, basicString_char first,
      ih (Nat.lt_of_succ_lt_succ enough), Option.map_some]

theorem length_le_flatten {chars : List Char} {pieces : List (List Char)}
    (writes : List.Forall₂ WritesChar chars pieces) : chars.length ≤ pieces.flatten.length := by
  induction writes with
  | nil => exact Nat.le_refl 0
  | cons first _ ih =>
    have := List.length_pos_of_ne_nil first.ne_nil
    simp only [List.length_cons, List.flatten_cons, List.length_append]
    omega

theorem literalString_append {chars : List Char} (all : ∀ c ∈ chars, IsPrintable c ∧ c ≠ '\x27')
    (rest : List Char) : literalString (chars ++ '\x27' :: rest) = some (chars, rest) := by
  induction chars with
  | nil => rfl
  | cons c chars ih =>
    obtain ⟨printable, noQuote⟩ := all c List.mem_cons_self
    rw [List.cons_append, literalString.eq_def]
    split
    next same => exact absurd (List.cons.inj same).1 noQuote
    next same =>
      cases same
      rw [if_pos printable, ih fun d mem => all d (List.mem_cons_of_mem _ mem), Option.map_some]
    next same => cases same

theorem writesPart_bare {part : String} (nonempty : part ≠ "")
    (all : part.toList.all (fun c => IsBare c) = true) : WritesPart part part.toList :=
  .bare nonempty (List.all_iff_forall_prop.mp all)

/-- Reading a part of a key gives it back, with what follows it left. -/
theorem keyPart_writes {part : String} {text rest : List Char} (writes : WritesPart part text)
    (ends : ∀ c ∈ rest.head?, ¬ IsBare c) : keyPart (text ++ rest) = some (part, rest) := by
  cases writes with
  | bare nonempty all =>
    have span := spanOf_append (p := fun c => IsBare c)
      (fun c mem => decide_eq_true (all c mem)) fun c mem => decide_eq_false (ends c mem)
    have text : String.ofList part.toList = part := String.ofList_toList
    cases chars : part.toList with
    | nil => exact absurd (by rw [← text, chars]) nonempty
    | cons c more =>
      have bare : IsBare c := all c (by rw [chars]; exact List.mem_cons_self)
      have unquoted : lineString (c :: more ++ rest) = none := by
        rw [List.cons_append]
        unfold lineString
        split
        next same => exact absurd ((List.cons.inj same).1 ▸ bare) (by decide)
        next same => exact absurd ((List.cons.inj same).1 ▸ bare) (by decide)
        next => rfl
      rw [chars] at span text
      simp only [keyPart, unquoted, span, text]
  | literal all =>
    have read := literalString_append all rest
    rw [List.cons_append, List.append_assoc, List.singleton_append]
    simp only [keyPart, lineString, read, String.ofList_toList]
  | @basic pieces pieces_write =>
    have enough : part.toList.length < (pieces.flatten ++ '"' :: rest).length + 1 := by
      have := length_le_flatten pieces_write
      rw [List.length_append]
      omega
    rw [List.cons_append, List.append_assoc, List.singleton_append]
    simp only [keyPart, lineString, basicString_writes pieces_write rest enough,
      String.ofList_toList]

/-- The text writes the parts of a key with points between them. There may be space between the
parts and after the last. -/
inductive WritesKey : List String → String → List Char → Prop where
  | last {key : String} {text after : List Char} : WritesPart key text → IsGap after →
      WritesKey [] key (text ++ after)
  | dotted {part : String} {path : List String} {key : String}
      {text after before more : List Char} :
      WritesPart part text → IsGap after → IsGap before → WritesKey path key more →
      WritesKey (part :: path) key (text ++ after ++ '.' :: (before ++ more))

/-- The characters that begin a part of a key. -/
def StartsPart (c : Char) : Prop := IsBare c ∨ c = '\x27' ∨ c = '"'

instance (c : Char) : Decidable (StartsPart c) := inferInstanceAs (Decidable (_ ∨ _))

theorem not_startsPart :
    ∀ c ∈ [' ', '\t', '#', '\n', '\r', '[', '\x7d', '\ufeff'], ¬ StartsPart c :=
  List.all_iff_forall_prop.mp (by decide)

theorem StartsPart.not_space {c : Char} (h : StartsPart c) : ¬ IsSpace c := by
  rintro (rfl | rfl) <;> exact not_startsPart _ (by simp) h

theorem WritesPart.head {part : String} {text : List Char} (writes : WritesPart part text) :
    ∃ c more, text = c :: more ∧ StartsPart c := by
  cases writes with
  | literal => exact ⟨'\x27', _, rfl, .inr (.inl rfl)⟩
  | basic => exact ⟨'"', _, rfl, .inr (.inr rfl)⟩
  | bare nonempty all =>
    have back : String.ofList part.toList = part := String.ofList_toList
    cases chars : part.toList with
    | nil => exact absurd (by rw [← back, chars]) nonempty
    | cons c more => exact ⟨c, more, rfl, .inl (all c (by rw [chars]; exact List.mem_cons_self))⟩

theorem WritesKey.head {path : List String} {key : String} {text : List Char}
    (writes : WritesKey path key text) : ∃ c more, text = c :: more ∧ StartsPart c := by
  cases writes with
  | last part _ =>
    obtain ⟨c, more, rfl, starts⟩ := part.head
    exact ⟨c, _, rfl, starts⟩
  | dotted part _ _ _ =>
    obtain ⟨c, more, rfl, starts⟩ := part.head
    exact ⟨c, _, rfl, starts⟩

theorem skipSpace_key {path : List String} {key : String} {gap text : List Char}
    (spaces : IsGap gap) (writes : WritesKey path key text) (rest : List Char) :
    skipSpace (gap ++ (text ++ rest)) = text ++ rest := by
  obtain ⟨c, more, rfl, starts⟩ := writes.head
  exact skipSpace_cons spaces starts.not_space (more ++ rest)

/-- A part ends at the space after it, or at the mark that follows. -/
theorem keyPart_gap {part : String} {gap text : List Char} {mark : Char}
    (writes : WritesPart part text) (spaces : IsGap gap) (ends : mark ∈ ['.', '=', ']'])
    (rest : List Char) :
    keyPart (text ++ (gap ++ mark :: rest)) = some (part, gap ++ mark :: rest) := by
  have marks : ∀ c ∈ ['.', '=', ']'], ¬ IsBare c := List.all_iff_forall_prop.mp (by decide)
  refine keyPart_writes writes fun c mem => ?_
  cases gap with
  | nil =>
    cases mem
    exact marks _ ends
  | cons d gap =>
    cases mem
    rcases spaces c List.mem_cons_self with rfl | rfl <;> decide

theorem skipSpace_mark {gap : List Char} {mark : Char} (spaces : IsGap gap)
    (ends : mark ∈ ['.', '=', ']']) (rest : List Char) :
    skipSpace (gap ++ mark :: rest) = mark :: rest := by
  have marks : ∀ c ∈ ['.', '=', ']'], ¬ IsSpace c := List.all_iff_forall_prop.mp (by decide)
  exact skipSpace_cons spaces (marks mark ends) rest

theorem keyParts_writes {path : List String} {key : String} {text rest : List Char} {mark : Char}
    (writes : WritesKey path key text) (ends : mark ∈ ['=', ']']) {fuel : Nat}
    (enough : path.length < fuel) {gap : List Char} (spaces : IsGap gap) :
    keyParts fuel (gap ++ (text ++ mark :: rest)) = some ((path, key), mark :: rest) := by
  induction writes generalizing fuel gap with
  | @last key text after part trailing =>
    obtain ⟨fuel, rfl⟩ := Nat.exists_eq_succ_of_ne_zero (Nat.ne_zero_of_lt enough)
    have start := skipSpace_key spaces (.last part trailing) (mark :: rest)
    have read := keyPart_gap part trailing (List.mem_cons_of_mem '.' ends) rest
    have stop := skipSpace_mark trailing (List.mem_cons_of_mem '.' ends) rest
    rw [keyParts, start, List.append_assoc, read]
    simp only [Option.bind_eq_bind, Option.bind_some, stop]
    split
    next same =>
      cases same
      simp at ends
    next => rfl
  | @dotted part path key text after before more writes trailing leading tail ih =>
    obtain ⟨fuel, rfl⟩ := Nat.exists_eq_succ_of_ne_zero (Nat.ne_zero_of_lt enough)
    have start := skipSpace_key spaces (.dotted writes trailing leading tail) (mark :: rest)
    have point : '.' ∈ ['.', '=', ']'] := List.mem_cons_self
    have read := keyPart_gap writes trailing point (before ++ (more ++ mark :: rest))
    have stop := skipSpace_mark trailing point (before ++ (more ++ mark :: rest))
    rw [keyParts, start]
    simp only [List.append_assoc, List.cons_append, read, Option.bind_eq_bind, Option.bind_some,
      stop, ih (Nat.lt_of_succ_lt_succ enough) leading]
    rfl

theorem length_le_key {path : List String} {key : String} {text : List Char}
    (writes : WritesKey path key text) : path.length ≤ text.length := by
  induction writes with
  | last => exact Nat.zero_le _
  | dotted _ _ _ _ ih =>
    simp only [List.length_cons, List.length_append]
    omega

/-- Reading a key gives its parts back, unless there are too many of them. -/
theorem scanKey_writes {path : List String} {key : String} {gap text : List Char} {mark : Char}
    (spaces : IsGap gap) (writes : WritesKey path key text) (ends : mark ∈ ['=', ']'])
    (short : path.length < maxDepth) (rest : List Char) :
    scanKey (gap ++ (text ++ mark :: rest)) = some ((path, key), mark :: rest) := by
  have enough : path.length < (gap ++ (text ++ mark :: rest)).length + 1 := by
    have := length_le_key writes
    simp only [List.length_append, List.length_cons]
    omega
  rw [scanKey, keyParts_writes writes ends enough spaces, Option.filter_some, if_pos]
  exact decide_eq_true short

end UsageLedger.Toml
