import UsageLedger.Proofs.JsonGrammar

/-!
Printed JSON. What is printed for a value is a text of the value, and no two values print the same.
-/

namespace UsageLedger.Json

open Text

/-- All numbers of the value are natural numbers. -/
inductive Plain : Json → Prop where
  | null : Plain .null
  | bool {value : Bool} : Plain (.bool value)
  | number {n : Nat} : Plain (.ofNat n)
  | string {s : String} : Plain (.string s)
  | array {items : List Json} : (∀ item ∈ items, Plain item) → Plain (.array items)
  | object {members : List (String × Json)} : (∀ entry ∈ members, Plain entry.2) →
      Plain (.object members)

section Blocks

variable {α : Type}

/-- Items on lines of their own, one level deeper than the brackets. -/
def block (start close : Char) (print : α → List Char) (level : Nat) : List α → List Char
  | [] => [start, close]
  | item :: items =>
    start :: (newline (level + 1) ++ (print item ++
      (items.flatMap (fun item => ',' :: (newline (level + 1) ++ print item)) ++
        (newline level ++ [close]))))

theorem prettyItems_eq (level : Nat) (items : List Json) :
    prettyItems level items =
      items.flatMap fun item => ',' :: (newline level ++ pretty level item) := by
  induction items with
  | nil => rfl
  | cons item items ih => simp [prettyItems, ih]

theorem prettyMembers_eq (level : Nat) (members : List (String × Json)) :
    prettyMembers level members =
      members.flatMap fun entry => ',' :: (newline level ++ prettyMember level entry) := by
  induction members with
  | nil => rfl
  | cons entry members ih => simp [prettyMembers, ih]

theorem pretty_array (level : Nat) (items : List Json) :
    pretty level (.array items) = block '[' ']' (pretty (level + 1)) level items := by
  cases items with
  | nil => rfl
  | cons item items => simp [pretty, block, prettyItems_eq]

theorem pretty_object (level : Nat) (members : List (String × Json)) :
    pretty level (.object members) =
      block '\x7b' '\x7d' (prettyMember (level + 1)) level members := by
  cases members with
  | nil => rfl
  | cons entry members => simp [pretty, block, prettyMembers_eq]

theorem gap_newline (level : Nat) : Gap (newline level) := by
  intro c mem
  rcases List.mem_cons.mp mem with rfl | mem
  · exact .inr (.inr (.inl rfl))
  · exact .inl (List.eq_of_mem_replicate mem)

theorem listed_lines {print : α → List Char} {language : α → List Char → Prop}
    {gap after : List Char} (spaced : Gap gap) (spaced' : Gap after) {item : α} {items : List α}
    (writes : ∀ other ∈ item :: items, language other (print other)) :
    Listed ((item :: items).map language) (gap ++ (print item ++
      (items.flatMap (fun item => ',' :: (gap ++ print item)) ++ after))) := by
  induction items generalizing item with
  | nil =>
    exact .single ⟨gap, print item, after, spaced, writes item List.mem_cons_self, spaced', rfl⟩
  | cons next items ih =>
    obtain ⟨head, tail⟩ := List.forall_mem_cons.mp writes
    have first : Surrounded (language item) (gap ++ (print item ++ [])) :=
      ⟨gap, print item, [], spaced, head, gap_nil, rfl⟩
    have all := Listed.more first (ih tail)
    simpa using all

theorem block_listed {start close : Char} {print : α → List Char}
    {language : α → List Char → Prop} (level : Nat) {items : List α}
    (writes : ∀ item ∈ items, language item (print item)) :
    ∃ body, Listed (items.map language) body ∧
      block start close print level items = start :: (body ++ [close]) := by
  cases items with
  | nil => exact ⟨[], .nothing gap_nil, rfl⟩
  | cons item items =>
    refine ⟨_, listed_lines (gap_newline (level + 1)) (gap_newline level) writes, ?_⟩
    simp [block]

end Blocks

theorem writes_numberText (n : Nat) : WritesNumber (.ofNat n) (numberText (.ofNat n)) :=
  ⟨[], [], .absent, .absent, by simp [numberText, JsonNumber.ofNat]⟩

theorem writes_prettyMember {level : Nat} {entry : String × Json}
    (writes : Writes entry.2 (pretty level entry.2)) :
    WritesMember entry.1 (Writes entry.2) (prettyMember level entry) := by
  obtain ⟨key, value⟩ := entry
  refine ⟨quote key, [], [' '], pretty level value, writesString_quote key, gap_nil, ?_, writes,
    by simp [prettyMember]⟩
  intro c mem
  exact .inl (List.mem_singleton.mp mem)

theorem Plain.writes_pretty {json : Json} (plain : Plain json) (level : Nat) :
    Writes json (pretty level json) := by
  induction plain generalizing level with
  | null => rw [Writes, pretty]
  | @bool value =>
    rw [Writes]
    cases value <;> rfl
  | @number n =>
    rw [Json.ofNat, Writes, pretty]
    exact writes_numberText n
  | @string s =>
    rw [Writes, pretty]
    exact writesString_quote s
  | array _ ih =>
    rw [Writes, pretty_array]
    exact block_listed level fun item mem => ih item mem (level + 1)
  | object _ ih =>
    rw [Writes, pretty_object]
    exact block_listed level fun entry mem => writes_prettyMember (ih entry mem (level + 1))

/-- What is rendered is a document. -/
theorem Plain.isDocument_render {json : Json} (plain : Plain json) : IsDocument json json.render :=
  ⟨[], json.render, [], gap_nil, plain.writes_pretty 0, gap_nil, by simp⟩

/-- Wherever printed texts of the item and of another one are the same up to where they end, the
two are the same, and so is what follows. -/
def Cancels {α : Type} (print : α → List Char) (allowed : α → Prop) (item : α) : Prop :=
  ∀ other, allowed other → ∀ rest rest', Ends rest → Ends rest' →
    print item ++ rest = print other ++ rest' → item = other ∧ rest = rest'

section Blocks

variable {α : Type} {print : α → List Char} {allowed : α → Prop}

theorem ends_lines (gap : List Char) (items : List α) (rest : List Char) :
    Ends (items.flatMap (fun item => ',' :: (gap ++ print item)) ++ '\n' :: rest) := by
  cases items with
  | nil => exact ends_cons _ (by decide) (by decide)
  | cons item items => exact ends_cons _ (by decide) (by decide)

theorem lines_cancel {gap rest rest' : List Char} {items others : List α}
    (cancels : ∀ item ∈ items, Cancels print allowed item)
    (admitted : ∀ item ∈ others, allowed item)
    (same : items.flatMap (fun item => ',' :: (gap ++ print item)) ++ '\n' :: rest =
      others.flatMap (fun item => ',' :: (gap ++ print item)) ++ '\n' :: rest') :
    items = others ∧ rest = rest' := by
  induction items generalizing others with
  | nil =>
    cases others with
    | nil => exact ⟨rfl, (List.cons.inj same).2⟩
    | cons other others => cases same
  | cons item items ih =>
    cases others with
    | nil => cases same
    | cons other others =>
      obtain ⟨head, tail⟩ := List.forall_mem_cons.mp cancels
      obtain ⟨head', tail'⟩ := List.forall_mem_cons.mp admitted
      simp only [List.flatMap_cons, List.cons_append, List.append_assoc, List.cons.injEq, true_and,
        List.append_cancel_left_eq] at same
      obtain ⟨rfl, later⟩ := head other head' _ _ (ends_lines gap items rest)
        (ends_lines gap others rest') same
      obtain ⟨rfl, rfl⟩ := ih tail tail' later
      exact ⟨rfl, rfl⟩

theorem block_cancel {start close : Char} {level : Nat} {items others : List α}
    (visible : close ≠ '\n') (cancels : ∀ item ∈ items, Cancels print allowed item)
    (admitted : ∀ item ∈ others, allowed item) {rest rest' : List Char}
    (same : block start close print level items ++ rest =
      block start close print level others ++ rest') : items = others ∧ rest = rest' := by
  cases items with
  | nil =>
    cases others with
    | nil => simpa [block] using same
    | cons other others => simp [block, newline, visible] at same
  | cons item items =>
    cases others with
    | nil => simp [block, newline, Ne.symm visible] at same
    | cons other others =>
      obtain ⟨head, tail⟩ := List.forall_mem_cons.mp cancels
      obtain ⟨head', tail'⟩ := List.forall_mem_cons.mp admitted
      rw [block, block] at same
      generalize newline (level + 1) = gap at same
      simp only [newline, List.cons_append, List.append_assoc, List.cons.injEq, true_and,
        List.append_cancel_left_eq, List.nil_append] at same
      obtain ⟨rfl, later⟩ := head other head' _ _ (ends_lines gap items _)
        (ends_lines gap others _) same
      obtain ⟨rfl, closed⟩ := lines_cancel tail tail' later
      exact ⟨rfl, (List.cons.inj (List.append_cancel_left closed)).2⟩

end Blocks

/-- How the text of a value starts. -/
def Leads : Json → Char → Prop
  | .null, c => c = 'n'
  | .bool true, c => c = 't'
  | .bool false, c => c = 'f'
  | .number _, c => c.isDigit = true
  | .string _, c => c = '"'
  | .array _, c => c = '['
  | .object _, c => c = '\x7b'

theorem Plain.pretty_leads {json : Json} (plain : Plain json) (level : Nat) :
    ∃ c more, pretty level json = c :: more ∧ Leads json c := by
  cases plain with
  | null => exact ⟨'n', _, rfl, rfl⟩
  | @bool value => cases value <;> exact ⟨_, _, rfl, rfl⟩
  | @number n =>
    obtain ⟨first, more, digits, digit⟩ := decimal_cons n
    have printed : pretty level (.ofNat n) = first :: more := by
      simp [Json.ofNat, pretty, numberText, JsonNumber.ofNat, signText, digits]
    exact ⟨first, more, printed, digit⟩
  | string => exact ⟨'"', _, rfl, rfl⟩
  | @array items => cases items <;> exact ⟨'[', _, rfl, rfl⟩
  | @object members => cases members <;> exact ⟨'\x7b', _, rfl, rfl⟩

/-- The values are of the same kind. -/
def Alike : Json → Json → Prop
  | .null, .null => True
  | .bool value, .bool other => value = other
  | .number _, .number _ | .string _, .string _ | .array _, .array _ | .object _, .object _ => True
  | _, _ => False

theorem alike_of_leads {json other : Json} {c : Char} (leads : Leads json c)
    (leads' : Leads other c) : Alike json other := by
  rcases json with _ | (_ | _) | _ | _ | _ | _ <;> rcases other with _ | (_ | _) | _ | _ | _ | _ <;>
    simp_all [Leads, Alike]

theorem Plain.alike {json other : Json} (plain : Plain json) (plain' : Plain other) {level : Nat}
    {rest rest' : List Char} (same : pretty level json ++ rest = pretty level other ++ rest') :
    Alike json other := by
  obtain ⟨c, more, text, leads⟩ := plain.pretty_leads level
  obtain ⟨c', more', text', leads'⟩ := plain'.pretty_leads level
  rw [text, text'] at same
  obtain ⟨rfl, -⟩ := List.cons.inj same
  exact alike_of_leads leads leads'

theorem decimal_cancel {m n : Nat} {rest rest' : List Char} (ends : Ends rest)
    (ends' : Ends rest') (same : decimal m ++ rest = decimal n ++ rest') :
    m = n ∧ rest = rest' := by
  have read := scanWhole_decimal m fun c mem => (ends c mem).1
  rw [same, scanWhole_decimal n fun c mem => (ends' c mem).1] at read
  obtain ⟨number, after⟩ := Prod.mk.inj (Option.some.inj read)
  exact ⟨number.symm, after.symm⟩

theorem quote_cancel {s t : String} {rest rest' : List Char}
    (same : quote s ++ rest = quote t ++ rest') : s = t ∧ rest = rest' := by
  obtain ⟨body, text, read⟩ := scanString_writes (writesString_quote s)
  obtain ⟨body', text', read'⟩ := scanString_writes (writesString_quote t)
  rw [text, text', List.cons_append, List.cons_append] at same
  have string := read rest
  rw [(List.cons.inj same).2, read'] at string
  obtain ⟨string, after⟩ := Prod.mk.inj (Option.some.inj string)
  exact ⟨string.symm, after.symm⟩

theorem prettyMember_cancels {level : Nat} {entry : String × Json}
    (cancels : Cancels (pretty level) Plain entry.2) :
    Cancels (prettyMember level) (fun other => Plain other.2) entry := by
  intro other plain rest rest' ends ends' same
  obtain ⟨key, value⟩ := entry
  obtain ⟨key', value'⟩ := other
  simp only [prettyMember, List.append_assoc] at same
  obtain ⟨rfl, later⟩ := quote_cancel same
  obtain ⟨rfl, after⟩ := cancels value' plain rest rest' ends ends' (List.append_cancel_left later)
  exact ⟨rfl, after⟩

theorem Plain.pretty_cancels {json : Json} (plain : Plain json) (level : Nat) :
    Cancels (pretty level) Plain json := by
  induction plain generalizing level with
  | null =>
    intro other plain' rest rest' _ _ same
    have alike := Plain.null.alike plain' same
    cases plain' with
    | null => exact ⟨rfl, List.append_cancel_left same⟩
    | _ => exact alike.elim
  | @bool value =>
    intro other plain' rest rest' _ _ same
    have alike := Plain.bool.alike plain' same
    cases plain' with
    | bool =>
      cases alike
      exact ⟨rfl, List.append_cancel_left same⟩
    | _ => exact alike.elim
  | @number m =>
    intro other plain' rest rest' ends ends' same
    have alike := Plain.number.alike plain' same
    cases plain' with
    | @number n =>
      simp only [Json.ofNat, pretty, numberText, JsonNumber.ofNat, signText] at same
      obtain ⟨rfl, after⟩ := decimal_cancel ends ends' (by simpa using same)
      exact ⟨rfl, after⟩
    | _ => exact alike.elim
  | @string s =>
    intro other plain' rest rest' _ _ same
    have alike := Plain.string.alike plain' same
    cases plain' with
    | @string t =>
      obtain ⟨rfl, after⟩ := quote_cancel same
      exact ⟨rfl, after⟩
    | _ => exact alike.elim
  | @array items admitted ih =>
    intro other plain' rest rest' _ _ same
    have alike := (Plain.array admitted).alike plain' same
    cases plain' with
    | array admitted' =>
      rw [pretty_array, pretty_array] at same
      obtain ⟨rfl, after⟩ :=
        block_cancel (by decide) (fun item mem => ih item mem (level + 1)) admitted' same
      exact ⟨rfl, after⟩
    | _ => exact alike.elim
  | @object members admitted ih =>
    intro other plain' rest rest' _ _ same
    have alike := (Plain.object admitted).alike plain' same
    cases plain' with
    | object admitted' =>
      rw [pretty_object, pretty_object] at same
      obtain ⟨rfl, after⟩ := block_cancel (by decide)
        (fun entry mem => prettyMember_cancels (ih entry mem (level + 1))) admitted' same
      exact ⟨rfl, after⟩
    | _ => exact alike.elim

/-- Rendering loses nothing. -/
theorem Plain.render_injective {json other : Json} (plain : Plain json) (plain' : Plain other)
    (same : json.render = other.render) : json = other := by
  have texts : pretty 0 json ++ [] = pretty 0 other ++ [] := by
    rw [List.append_nil, List.append_nil]
    exact same
  exact (plain.pretty_cancels 0 other plain' [] [] ends_nil ends_nil texts).1

end UsageLedger.Json
