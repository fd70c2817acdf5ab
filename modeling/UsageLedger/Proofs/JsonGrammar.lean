import UsageLedger.Proofs.JsonLexemes

/-!
The grammar of JSON text. Reading a text of the grammar gives the value that it writes, unless the
value exceeds a limit: its containers nest too deep, or one of its numbers is out of range.
-/

namespace UsageLedger.Json

open Text

/-- Space without meaning. -/
def Gap (text : List Char) : Prop := ∀ c ∈ text, IsSpace c

/-- A text of the language with space around it. -/
def Surrounded (language : List Char → Prop) (text : List Char) : Prop :=
  ∃ before core after, Gap before ∧ language core ∧ Gap after ∧ text = before ++ (core ++ after)

/-- Texts of the languages with commas between them and space around each. -/
inductive Listed : List (List Char → Prop) → List Char → Prop where
  | nothing {gap : List Char} : Gap gap → Listed [] gap
  | single {language : List Char → Prop} {text : List Char} : Surrounded language text →
      Listed [language] text
  | more {language next : List Char → Prop} {others : List (List Char → Prop)}
      {text rest : List Char} : Surrounded language text → Listed (next :: others) rest →
      Listed (language :: next :: others) (text ++ ',' :: rest)

/-- A member: its name, a colon and its value, with space around the colon. -/
def WritesMember (name : String) (value : List Char → Prop) (text : List Char) : Prop :=
  ∃ key before after core, WritesString name key ∧ Gap before ∧ Gap after ∧ value core ∧
    text = key ++ (before ++ ':' :: (after ++ core))

theorem sizeOf_member {members : List (String × Json)} {entry : String × Json}
    (mem : entry ∈ members) : sizeOf entry.2 < sizeOf members := by
  obtain ⟨name, value⟩ := entry
  have smaller := List.sizeOf_lt_of_mem mem
  simp only [Prod.mk.sizeOf_spec] at smaller
  show sizeOf value < sizeOf members
  omega

/-- The text writes the value. -/
def Writes : Json → List Char → Prop
  | .null, text => text = "null".toList
  | .bool value, text => text = if value then "true".toList else "false".toList
  | .number n, text => WritesNumber n text
  | .string s, text => WritesString s text
  | .array items, text =>
    ∃ body, Listed (items.map fun item => Writes item) body ∧ text = '[' :: (body ++ [']'])
  | .object members, text =>
    ∃ body, Listed (members.map fun entry => WritesMember entry.1 (Writes entry.2)) body ∧
      text = '\x7b' :: (body ++ ['\x7d'])
termination_by json => sizeOf json
decreasing_by
  · decreasing_tactic
  · have smaller := sizeOf_member ‹entry ∈ members›
    simp only [Json.object.sizeOf_spec]
    omega

/-- Containers nest no deeper than that, and all numbers are in range. -/
def Within : Nat → Json → Prop
  | depth + 1, .array items => ∀ item ∈ items, Within depth item
  | depth + 1, .object members => ∀ entry ∈ members, Within depth entry.2
  | 0, .array _ | 0, .object _ => False
  | _, .number n => n.IsFinite
  | _, _ => True

instance decidableWithin : (depth : Nat) → (json : Json) → Decidable (Within depth json)
  | depth + 1, .array items =>
    have := decidableWithin depth
    inferInstanceAs (Decidable (∀ item ∈ items, Within depth item))
  | depth + 1, .object members =>
    have := decidableWithin depth
    inferInstanceAs (Decidable (∀ entry ∈ members, Within depth entry.2))
  | 0, .array _ | 0, .object _ => .isFalse id
  | 0, .number n | _ + 1, .number n => inferInstanceAs (Decidable n.IsFinite)
  | 0, .null | 0, .bool _ | 0, .string _ => .isTrue trivial
  | _ + 1, .null | _ + 1, .bool _ | _ + 1, .string _ => .isTrue trivial

theorem within_array {depth : Nat} {items : List Json} :
    Within (depth + 1) (.array items) ↔ ∀ item ∈ items, Within depth item := Iff.rfl

theorem within_object {depth : Nat} {members : List (String × Json)} :
    Within (depth + 1) (.object members) ↔ ∀ entry ∈ members, Within depth entry.2 := Iff.rfl

theorem gap_nil : Gap [] := List.forall_mem_nil _

theorem skipSpace_append {gap : List Char} (h : Gap gap) (text : List Char) :
    skipSpace (gap ++ text) = skipSpace text :=
  List.dropWhile_append_of_pos fun c mem => decide_eq_true (h c mem)

theorem skipSpace_cons {c : Char} (solid : ¬ IsSpace c) (text : List Char) :
    skipSpace (c :: text) = c :: text :=
  List.dropWhile_cons_of_neg (by simpa using solid)

theorem skipSpace_skipSpace (text : List Char) : skipSpace (skipSpace text) = skipSpace text := by
  induction text with
  | nil => rfl
  | cons c text ih =>
    by_cases space : IsSpace c
    · have skipped : skipSpace (c :: text) = skipSpace text :=
        List.dropWhile_cons_of_pos (by simpa using space)
      rw [skipped, ih]
    · rw [skipSpace_cons space, skipSpace_cons space]

/-- What follows a character that is no space is not skipped. -/
theorem length_le_skipSpace {c : Char} (solid : ¬ IsSpace c) (text rest : List Char) :
    rest.length < (skipSpace (text ++ c :: rest)).length := by
  induction text with
  | nil => simp [skipSpace_cons solid]
  | cons d text ih =>
    by_cases space : IsSpace d
    · have skipped : skipSpace (d :: text ++ c :: rest) = skipSpace (text ++ c :: rest) :=
        List.dropWhile_cons_of_pos (by simpa using space)
      rwa [skipped]
    · rw [List.cons_append, skipSpace_cons space]
      simp only [List.length_cons, List.length_append]
      omega

theorem Gap.ends {gap rest : List Char} (h : Gap gap) (ends : Ends rest) : Ends (gap ++ rest) := by
  cases gap with
  | nil => exact ends
  | cons c gap =>
    rcases h c List.mem_cons_self with rfl | rfl | rfl | rfl <;>
      exact ends_cons _ (by decide) (by decide)

/-- Texts of the language start like a value or a name, not with space or a closing bracket. -/
def Opens (language : List Char → Prop) : Prop :=
  ∀ text, language text → ∃ c more, text = c :: more ∧ ¬ IsSpace c ∧ c ≠ ']' ∧ c ≠ '\x7d'

/-- Reading a text of the language gives the item, unless the item exceeds a limit. -/
def Reads {α : Type} (scan : Scan α) (within : α → Prop) [DecidablePred within] (item : α)
    (language : List Char → Prop) : Prop :=
  ∀ text rest, language text → Ends rest →
    scan (text ++ rest) = if within item then some (item, rest) else none

section Containers

variable {α : Type} {scan : Scan α} {within : α → Prop} [DecidablePred within]
  {language : α → List Char → Prop} {items : List α} {close : Char} {body : List Char}

theorem separated_skipSpace (fuel : Nat) (text : List Char) :
    separated scan close fuel (skipSpace text) = separated scan close fuel text := by
  cases fuel with
  | zero => rfl
  | succ fuel => rw [separated, separated, skipSpace_skipSpace]

/-- There is a comma after each item but the last, and the closing bracket after that. -/
theorem length_le_of_listed (solid : ¬ IsSpace close) {languages : List (List Char → Prop)}
    (listed : Listed languages body) (rest : List Char) :
    languages.length ≤ (skipSpace (body ++ close :: rest)).length := by
  induction listed with
  | nothing _ => exact Nat.zero_le _
  | @single _ text _ =>
    exact Nat.lt_of_le_of_lt (Nat.zero_le _) (length_le_skipSpace solid text rest)
  | @more _ _ _ text tail _ _ ih =>
    have comma : ¬ IsSpace ',' := by decide
    have longer := length_le_skipSpace comma text (tail ++ close :: rest)
    have shorter : (skipSpace (tail ++ close :: rest)).length ≤ (tail ++ close :: rest).length :=
      (List.dropWhile_sublist _).length_le
    rw [List.append_assoc, List.cons_append]
    simp only [List.length_cons] at ih ⊢
    omega

/-- Reading an item with space around it goes on with the character that stands next. -/
theorem scan_surrounded {item : α} (reads : Reads scan within item (language item))
    (opens : Opens (language item)) {text : List Char}
    (surrounded : Surrounded (language item) text) {next : Char} (rest : List Char)
    (ends : Ends (next :: rest)) (solid : ¬ IsSpace next) :
    ∃ after, scan (skipSpace (text ++ next :: rest)) =
        (if within item then some (item, after) else none) ∧ skipSpace after = next :: rest := by
  obtain ⟨before, core, after, gap, writes, gap', rfl⟩ := surrounded
  obtain ⟨c, more, rfl, start, -⟩ := opens core writes
  refine ⟨after ++ next :: rest, ?_, ?_⟩
  · have skipped : skipSpace (before ++ (c :: more ++ after) ++ next :: rest) =
        c :: more ++ (after ++ next :: rest) := by
      simp only [List.append_assoc, List.cons_append]
      rw [skipSpace_append gap, skipSpace_cons start]
    rw [skipped]
    exact reads _ _ writes (gap'.ends ends)
  · rw [skipSpace_append gap', skipSpace_cons solid]

theorem Surrounded.starts {language : List Char → Prop} {text : List Char}
    (surrounded : Surrounded language text) (opens : Opens language) (rest : List Char) :
    ∃ c more, skipSpace (text ++ rest) = c :: more ∧ c ≠ ']' ∧ c ≠ '\x7d' := by
  obtain ⟨before, core, after, gap, writes, -, rfl⟩ := surrounded
  obtain ⟨c, more, rfl, start, other⟩ := opens core writes
  refine ⟨c, more ++ after ++ rest, ?_, other⟩
  simp only [List.append_assoc, List.cons_append]
  rw [skipSpace_append gap, skipSpace_cons start]

theorem Listed.starts {head : List Char → Prop} {others : List (List Char → Prop)}
    (listed : Listed (head :: others) body) (opens : Opens head) (rest : List Char) :
    ∃ c more, skipSpace (body ++ rest) = c :: more ∧ c ≠ ']' ∧ c ≠ '\x7d' := by
  cases listed with
  | single surrounded => exact surrounded.starts opens rest
  | more surrounded _ =>
    rw [List.append_assoc]
    exact surrounded.starts opens _

theorem separated_listed (reads : ∀ item ∈ items, Reads scan within item (language item))
    (opens : ∀ item ∈ items, Opens (language item)) (bracket : close = ']' ∨ close = '\x7d')
    (nonempty : items ≠ []) (listed : Listed (items.map language) body) (rest : List Char)
    {fuel : Nat} (enough : items.length ≤ fuel) :
    separated scan close fuel (body ++ close :: rest) =
      if ∀ item ∈ items, within item then some (items, rest) else none := by
  have closeEnds : Ends (close :: rest) := by
    rcases bracket with rfl | rfl <;> exact ends_cons _ (by decide) (by decide)
  have closeSolid : ¬ IsSpace close := by rcases bracket with rfl | rfl <;> decide
  induction items generalizing body fuel with
  | nil => contradiction
  | cons item items ih =>
    obtain ⟨headReads, tailReads⟩ := List.forall_mem_cons.mp reads
    obtain ⟨headOpens, tailOpens⟩ := List.forall_mem_cons.mp opens
    obtain ⟨fuel, rfl⟩ : ∃ fuel', fuel = fuel' + 1 :=
      Nat.exists_eq_succ_of_ne_zero (by simp only [List.length_cons] at enough; omega)
    rw [separated]
    cases items with
    | nil =>
      cases listed with
      | single surrounded =>
        obtain ⟨after, read, next⟩ :=
          scan_surrounded headReads headOpens surrounded rest closeEnds closeSolid
        rw [read]
        by_cases fits : within item
        · rcases bracket with rfl | rfl <;> simp [fits, next]
        · simp [fits]
    | cons second others =>
      cases listed with
      | @more _ _ _ text tail surrounded later =>
        have commaEnds : Ends (',' :: (tail ++ close :: rest)) :=
          ends_cons _ (by decide) (by decide)
        obtain ⟨after, read, next⟩ :=
          scan_surrounded headReads headOpens surrounded (tail ++ close :: rest) commaEnds
            (by decide)
        rw [List.append_assoc, List.cons_append, read]
        by_cases fits : within item
        · have rest := ih tailReads tailOpens (List.cons_ne_nil _ _) later
            (Nat.le_of_succ_le_succ enough)
          simp only [fits, if_true, next, rest, List.forall_mem_cons, true_and]
          split <;> rfl
        · simp [fits]

/-- Reading a container after its opening bracket gives its items, unless one exceeds a limit. -/
theorem enclosed_listed (reads : ∀ item ∈ items, Reads scan within item (language item))
    (opens : ∀ item ∈ items, Opens (language item)) (bracket : close = ']' ∨ close = '\x7d')
    (listed : Listed (items.map language) body) (rest : List Char) :
    enclosed scan close (body ++ close :: rest) =
      if ∀ item ∈ items, within item then some (items, rest) else none := by
  have closeSolid : ¬ IsSpace close := by rcases bracket with rfl | rfl <;> decide
  unfold enclosed
  cases items with
  | nil =>
    cases listed with
    | nothing gap => simp [skipSpace_append gap, skipSpace_cons closeSolid]
  | cons item items =>
    have enough := length_le_of_listed closeSolid listed rest
    rw [List.length_map] at enough
    have read := separated_listed reads opens bracket (List.cons_ne_nil _ _) listed rest enough
    rw [← separated_skipSpace] at read
    obtain ⟨c, more, start, noBracket, noBrace⟩ :=
      listed.starts (opens item List.mem_cons_self) (close :: rest)
    have other : c ≠ close := by rcases bracket with rfl | rfl <;> assumption
    rw [start] at read ⊢
    simp only [if_neg other]
    exact read

end Containers

theorem opens_writesMember (name : String) (value : List Char → Prop) :
    Opens (WritesMember name value) := by
  rintro text ⟨key, before, after, core, writes, -, -, -, rfl⟩
  obtain ⟨body, rfl, -⟩ := scanString_writes writes
  exact ⟨'"', _, rfl, by decide, by decide, by decide⟩

theorem WritesNumber.starts {n : JsonNumber} {text : List Char} (writes : WritesNumber n text) :
    ∃ c more, text = c :: more ∧ (c = '-' ∨ c.isDigit = true) := by
  obtain ⟨fraction, exponent, -, -, rfl⟩ := writes
  obtain ⟨first, more, digits, digit⟩ := decimal_cons n.whole
  cases negative : n.negative with
  | true => exact ⟨'-', _, rfl, .inl rfl⟩
  | false =>
    rw [digits]
    exact ⟨first, _, rfl, .inr digit⟩

theorem opens_writes (json : Json) : Opens (Writes json) := by
  intro text writes
  cases json with
  | null =>
    rw [Writes] at writes
    exact ⟨'n', _, writes, by decide, by decide, by decide⟩
  | bool value =>
    rw [Writes] at writes
    cases value with
    | true => exact ⟨'t', _, writes, by decide, by decide, by decide⟩
    | false => exact ⟨'f', _, writes, by decide, by decide, by decide⟩
  | number n =>
    rw [Writes] at writes
    obtain ⟨c, more, rfl, start⟩ := writes.starts
    refine ⟨c, more, rfl, ?_, ?_, ?_⟩
    · rintro (rfl | rfl | rfl | rfl) <;> exact absurd start (by decide)
    · rintro rfl
      exact absurd start (by decide)
    · rintro rfl
      exact absurd start (by decide)
  | string s =>
    rw [Writes] at writes
    obtain ⟨body, rfl, -⟩ := scanString_writes writes
    exact ⟨'"', _, rfl, by decide, by decide, by decide⟩
  | array items =>
    rw [Writes] at writes
    obtain ⟨body, -, rfl⟩ := writes
    exact ⟨'[', _, rfl, by decide, by decide, by decide⟩
  | object members =>
    rw [Writes] at writes
    obtain ⟨body, -, rfl⟩ := writes
    exact ⟨'\x7b', _, rfl, by decide, by decide, by decide⟩

theorem scanValue_scalar {c : Char} (noArray : c ≠ '[') (noObject : c ≠ '\x7b') (depth : Nat)
    (text : List Char) : scanValue depth (c :: text) = scanScalar (c :: text) := by
  unfold scanValue
  split
  next same => exact absurd (List.cons.inj same).1 noArray
  next same => exact absurd (List.cons.inj same).1 noObject
  next => rfl

theorem scanScalar_number {n : JsonNumber} {text rest : List Char} (writes : WritesNumber n text)
    (ends : Ends rest) :
    scanScalar (text ++ rest) = if n.IsFinite then some (.number n, rest) else none := by
  obtain ⟨c, more, rfl, start⟩ := writes.starts
  have other {d : Char} (same : c = d) (no : ¬ (d = '-' ∨ d.isDigit = true)) : False :=
    no (same ▸ start)
  unfold scanScalar
  split
  next same => exact (other (List.cons.inj same).1 (by decide)).elim
  next same => exact (other (List.cons.inj same).1 (by decide)).elim
  next same => exact (other (List.cons.inj same).1 (by decide)).elim
  next same => exact (other (List.cons.inj same).1 (by decide)).elim
  next =>
    rw [scanNumber_writes writes ends]
    split <;> rfl

/-- A value that is no container. -/
def IsScalar : Json → Prop
  | .array _ | .object _ => False
  | _ => True

theorem reads_scalar {json : Json} (scalar : json.IsScalar) (depth : Nat) :
    Reads (scanValue depth) (Within depth) json (Writes json) := by
  intro text rest writes ends
  cases json with
  | null =>
    rw [Writes] at writes
    subst writes
    cases depth <;> rfl
  | bool value =>
    rw [Writes] at writes
    subst writes
    cases depth <;> cases value <;> rfl
  | number n =>
    rw [Writes] at writes
    have read := scanScalar_number writes ends
    obtain ⟨c, more, rfl, start⟩ := writes.starts
    have noArray : c ≠ '[' := by
      rintro rfl
      exact absurd start (by decide)
    have noObject : c ≠ '\x7b' := by
      rintro rfl
      exact absurd start (by decide)
    rw [List.cons_append, scanValue_scalar noArray noObject depth, ← List.cons_append, read]
    cases depth <;> rfl
  | string s =>
    rw [Writes] at writes
    obtain ⟨body, rfl, read⟩ := scanString_writes writes
    rw [List.cons_append, scanValue_scalar (by decide) (by decide) depth, scanScalar, read]
    cases depth <;> rfl
  | array items => exact scalar.elim
  | object members => exact scalar.elim

theorem scanMember_writes {scan : Scan Json} {within : Json → Prop} [DecidablePred within]
    {name : String} {value : Json} (reads : Reads scan within value (Writes value)) :
    Reads (scanMember scan) (fun entry => within entry.2) (name, value)
      (WritesMember name (Writes value)) := by
  rintro text rest ⟨key, before, after, core, keyWrites, gap, gap', writes, rfl⟩ ends
  obtain ⟨body, rfl, read⟩ := scanString_writes keyWrites
  obtain ⟨c, more, rfl, start, -⟩ := opens_writes value core writes
  have colon : skipSpace (before ++ ':' :: (after ++ (c :: more ++ rest))) =
      ':' :: (after ++ (c :: more ++ rest)) := by
    rw [skipSpace_append gap, skipSpace_cons (by decide)]
  have inner : skipSpace (after ++ (c :: more ++ rest)) = c :: more ++ rest := by
    rw [skipSpace_append gap', List.cons_append, skipSpace_cons start]
  simp only [List.cons_append, List.append_assoc, scanMember, read, Option.bind_eq_bind,
    Option.bind_some] at colon inner ⊢
  rw [colon]
  simp only [inner]
  have value := reads _ _ writes ends
  rw [List.cons_append] at value
  rw [value]
  split <;> rfl

/-- Reading a text of a value gives the value, unless it exceeds a limit. -/
theorem reads_writes (depth : Nat) (json : Json) :
    Reads (scanValue depth) (Within depth) json (Writes json) := by
  induction depth generalizing json with
  | zero =>
    cases json with
    | array items =>
      rintro text rest writes -
      rw [Writes] at writes
      obtain ⟨body, -, rfl⟩ := writes
      rfl
    | object members =>
      rintro text rest writes -
      rw [Writes] at writes
      obtain ⟨body, -, rfl⟩ := writes
      rfl
    | _ =>
      apply reads_scalar
      exact trivial
  | succ depth ih =>
    cases json with
    | array items =>
      rintro text rest writes -
      rw [Writes] at writes
      obtain ⟨body, listed, rfl⟩ := writes
      have read := enclosed_listed (fun item _ => ih item) (fun item _ => opens_writes item)
        (.inl rfl) listed rest
      simp only [List.cons_append, List.append_assoc, List.nil_append, scanValue, read]
      by_cases fits : Within (depth + 1) (.array items)
      · rw [if_pos fits, if_pos (within_array.mp fits), Option.map_some]
      · rw [if_neg fits, if_neg (mt within_array.mpr fits), Option.map_none]
    | object members =>
      rintro text rest writes -
      rw [Writes] at writes
      obtain ⟨body, listed, rfl⟩ := writes
      have read := enclosed_listed (fun entry _ => scanMember_writes (ih entry.2))
        (fun entry _ => opens_writesMember entry.1 (Writes entry.2)) (.inr rfl) listed rest
      simp only [List.cons_append, List.append_assoc, List.nil_append, scanValue, read]
      by_cases fits : Within (depth + 1) (.object members)
      · rw [if_pos fits, if_pos (within_object.mp fits), Option.map_some]
      · rw [if_neg fits, if_neg (mt within_object.mpr fits), Option.map_none]
    | _ =>
      apply reads_scalar
      exact trivial

/-- The text is a document of the value, with space around it. -/
def IsDocument (json : Json) (text : List Char) : Prop := Surrounded (Writes json) text

/-- A document is read as the one value that it writes, unless the value exceeds a limit. -/
theorem ofChars?_document {json : Json} {text : List Char} (document : IsDocument json text) :
    ofChars? text = if Within maxDepth json then some json else none := by
  obtain ⟨before, core, after, gap, writes, gap', rfl⟩ := document
  obtain ⟨c, more, rfl, start, -⟩ := opens_writes json core writes
  have read := reads_writes maxDepth json _ after writes
    (by simpa using gap'.ends ends_nil)
  have skipped : skipSpace (before ++ (c :: more ++ after)) = c :: more ++ after := by
    rw [skipSpace_append gap, List.cons_append, skipSpace_cons start]
  have nothing : skipSpace after = [] := by
    simpa [skipSpace] using skipSpace_append gap' []
  rw [ofChars?, skipped, read]
  by_cases within : Within maxDepth json
  · simp [within, nothing]
  · simp [within]

end UsageLedger.Json
