import UsageLedger.Scenario.Decode
import UsageLedger.Proofs.JsonIntegers
import UsageLedger.Proofs.JsonPrinting

namespace UsageLedger

open Text

namespace Event

def tag : Event → String
  | .classify .. => "classify"
  | .importance .. => "process_state"
  | .timeBase .. => "time_base"
  | .isolate .. => "isolated"
  | .acquire .. => "wakelock_acquire"
  | .release .. => "wakelock_release"
  | .sample .. => "sample"
  | .unavailable .. => "unavailable"
  | .bulkSample .. => "bulk_sample"
  | .tick .. => "tick"
  | .copyAll .. => "copy_all"

/-- The members of an event besides its tag. -/
def fields : Event → Fields
  | .classify entity state time =>
    [("entity", .ofNat entity), ("state", .string state.name), ("at_ms", .ofNat time)]
  | .importance entity code time =>
    [("entity", .ofNat entity), ("importance", .ofInt code), ("at_ms", .ofNat time)]
  | .timeBase onBattery screenOff time =>
    [("on_battery", .bool onBattery), ("screen_off", .bool screenOff), ("at_ms", .ofNat time)]
  | .isolate parent child => [("parent", .ofNat parent), ("child", .ofNat child)]
  | .acquire entity time | .release entity time =>
    [("entity", .ofNat entity), ("at_ms", .ofNat time)]
  | .sample entity level | .bulkSample entity level =>
    [("entity", .ofNat entity), ("cumulative", .ofNats level)]
  | .unavailable entity => [("entity", .ofNat entity)]
  | .tick time | .copyAll time => [("at_ms", .ofNat time)]

/-- The names that mean something in the event. -/
def names (event : Event) : List String := "event" :: event.fields.map Prod.fst

/-- The event has a time that is zero unless it is given, and it is zero. -/
def TimeDefaults : Event → Prop
  | .classify _ _ time | .importance _ _ time | .timeBase _ _ time => time = 0
  | _ => False

/-- The members that may be given for the event: all of them, or all but the time if it defaults. -/
inductive GivenBy (event : Event) : Fields → Prop where
  | all : GivenBy event event.fields
  | timeless : event.TimeDefaults →
      GivenBy event (event.fields.filter fun field => field.1 ≠ "at_ms")

/-- The object has the tag and the members of the event, and perhaps others, in any order. What the
others hold does not exceed the limits of the document. -/
def Documents (event : Event) (json : Json) : Prop :=
  ∃ given extras members, event.GivenBy given ∧
    (∀ extra ∈ extras, extra.1 ∉ event.names ∧ Json.Within (Json.maxDepth - 3) extra.2) ∧
    members.Perm (("event", .string event.tag) :: given ++ extras) ∧ json = .object members

def InRange : Event → Prop
  | .classify entity _ time => entity < entityBound ∧ time < counterBound
  | .importance entity code time =>
    entity < entityBound ∧ (-0x80000000 ≤ code ∧ code < 0x80000000) ∧ time < counterBound
  | .timeBase _ _ time => time < counterBound
  | .isolate parent child => parent < entityBound ∧ child < entityBound
  | .acquire entity time | .release entity time => entity < entityBound ∧ time < counterBound
  | .sample entity level | .bulkSample entity level =>
    entity < entityBound ∧ ∀ n ∈ level, n < counterBound
  | .unavailable entity => entity < entityBound
  | .tick time | .copyAll time => time < counterBound

end Event

namespace Scenario

/-- The events and, if there is one, the vector length. -/
def fields (scenario : Scenario) (items : List Json) : Fields :=
  ("events", .array items) :: (scenario.vectorLen.map fun n => ("vector_len", Json.ofNat n)).toList

/-- The object has the members of the scenario and no others, in any order. -/
def Documents (scenario : Scenario) (json : Json) : Prop :=
  ∃ items members, List.Forall₂ Event.Documents scenario.events items ∧
    members.Perm (scenario.fields items) ∧ json = .object members

def InRange (scenario : Scenario) : Prop :=
  (∀ n ∈ scenario.vectorLen, n < counterBound) ∧ ∀ event ∈ scenario.events, event.InRange

end Scenario

namespace Fields

variable {members known extras : Fields} {name : String}

theorem get?_eq_head? (fields : Fields) (name : String) :
    fields.get? name = (fields.filter fun field => field.1 = name).head?.map Prod.snd := by
  rw [get?, List.head?_filter]

theorem single_of_nodup {fields : Fields} (distinct : (fields.map Prod.fst).Nodup) (name : String) :
    fields.Single name := by
  unfold Single
  induction fields with
  | nil => exact Nat.zero_le 1
  | cons field fields ih =>
    obtain ⟨fresh, distinct⟩ := List.nodup_cons.mp distinct
    rw [List.filter_cons]
    split
    next same =>
      have others : fields.filter (fun other => other.1 = name) = [] := by
        apply List.filter_eq_nil_iff.mpr
        intro other mem named
        have alike : other.1 = field.1 :=
          (of_decide_eq_true named).trans (of_decide_eq_true same).symm
        exact fresh (alike ▸ List.mem_map_of_mem mem)
      rw [others]
      exact Nat.le_refl 1
    · exact ih distinct

/-- A name that occurs once is found in any order, and whatever else there is. -/
theorem filter_of_perm (perm : members.Perm (known ++ extras))
    (apart : ∀ extra ∈ extras, extra.1 ≠ name) (single : known.Single name) :
    (members.filter fun field => field.1 = name) = known.filter fun field => field.1 = name := by
  have nothing : extras.filter (fun field => field.1 = name) = [] := by
    apply List.filter_eq_nil_iff.mpr
    intro extra mem
    simpa using apart extra mem
  have filtered := perm.filter fun field => field.1 = name
  rw [List.filter_append, nothing, List.append_nil] at filtered
  unfold Single at single
  generalize known.filter (fun field => decide (field.1 = name)) = found at filtered single ⊢
  rcases found with _ | ⟨field, _ | ⟨second, others⟩⟩
  · exact filtered.eq_nil
  · exact List.perm_singleton.mp filtered
  · simp at single

theorem get?_of_perm (perm : members.Perm (known ++ extras))
    (apart : ∀ extra ∈ extras, extra.1 ≠ name) (single : known.Single name) :
    Fields.get? members name = known.get? name := by
  rw [get?_eq_head?, get?_eq_head?, filter_of_perm perm apart single]

theorem single_of_perm (perm : members.Perm (known ++ extras))
    (apart : ∀ extra ∈ extras, extra.1 ≠ name) (single : known.Single name) :
    Fields.Single members name := by
  unfold Single
  rw [filter_of_perm perm apart single]
  exact single

theorem get?_eq_none (absent : ∀ field ∈ members, field.1 ≠ name) :
    Fields.get? members name = none := by
  rw [get?, Option.map_eq_none_iff, List.find?_eq_none]
  intro field mem
  simpa using absent field mem

theorem get?_of_mem {value : Json} (mem : (name, value) ∈ members)
    (single : Fields.Single members name) : Fields.get? members name = some value := by
  have named : (name, value) ∈ members.filter fun field => field.1 = name :=
    List.mem_filter.mpr ⟨mem, by simp⟩
  rw [get?_eq_head?]
  unfold Single at single
  generalize members.filter (fun field => decide (field.1 = name)) = found at named single ⊢
  rcases found with _ | ⟨field, _ | ⟨second, others⟩⟩
  · simp at named
  · rw [← List.mem_singleton.mp named]
    rfl
  · simp at single

end Fields

namespace Event

theorem names_nodup (event : Event) : event.names.Nodup := by
  cases event <;> simp [names, fields]

theorem fieldNames?_tag (event : Event) :
    fieldNames? event.tag = some (event.fields.map Prod.fst) := by
  cases event <;> rfl

theorem GivenBy.sublist {event : Event} {given : Fields} (h : event.GivenBy given) :
    given.Sublist event.fields := by
  cases h with
  | all => exact .refl _
  | timeless _ => exact List.filter_sublist

theorem ofFields?_congr {tag : String} {known : List String} (named : fieldNames? tag = some known)
    {fields others : Fields} (same : ∀ name ∈ known, fields.get? name = others.get? name) :
    ofFields? tag fields = ofFields? tag others := by
  unfold fieldNames? at named
  split at named <;> cases named <;>
    simp_all [ofFields?, Fields.entity?, Fields.time?, Fields.timeOrZero?, Fields.bool?,
      Fields.counters?]

theorem ofFields?_given {event : Event} (inRange : event.InRange) {given : Fields}
    (h : event.GivenBy given) : ofFields? event.tag given = some event := by
  cases h with
  | all =>
    cases event
    all_goals
      simp_all [InRange, tag, fields, ofFields?, Fields.entity?, Fields.time?, Fields.timeOrZero?,
        Fields.bool?, Fields.counters?, Fields.get?, Json.nat?_ofNat, Json.int32?_ofInt,
        Json.counters?_ofNats, Json.bool?, ProcState.ofJson?, ProcState.ofName?_name]
  | timeless default =>
    cases event
    all_goals
      simp_all [TimeDefaults, InRange, tag, fields, ofFields?, Fields.entity?, Fields.timeOrZero?,
        Fields.bool?, Fields.get?, Json.nat?_ofNat, Json.int32?_ofInt, Json.bool?,
        ProcState.ofJson?, ProcState.ofName?_name]

/-- Reading the members of an event in any order, with others that mean nothing in it, gives the
event. -/
theorem ofJson?_documents {event : Event} (inRange : event.InRange) {json : Json}
    (documents : event.Documents json) : ofJson? json = some event := by
  obtain ⟨given, extras, members, h, others, perm, rfl⟩ := documents
  have known : ((("event", Json.string event.tag) :: given).map Prod.fst).Sublist event.names :=
    (h.sublist.map Prod.fst).cons_cons "event"
  have single := Fields.single_of_nodup (event.names_nodup.sublist known)
  have apart {name : String} (mem : name ∈ event.names) : ∀ extra ∈ extras, extra.1 ≠ name := by
    rintro extra listed rfl
    exact (others extra listed).1 mem
  have tagged : Fields.get? members "event" = some (.string event.tag) := by
    rw [Fields.get?_of_perm perm (apart List.mem_cons_self) (single "event")]
    rfl
  -- Each name of the event occurs at most once, so the order does not matter to a lookup.
  have singles : ∀ name ∈ "event" :: event.fields.map Prod.fst, Fields.Single members name :=
    fun name mem => Fields.single_of_perm perm (apart mem) (single name)
  have same : ∀ name ∈ event.fields.map Prod.fst, Fields.get? members name = given.get? name := by
    intro name mem
    have ne : "event" ≠ name := by
      rintro rfl
      exact (List.nodup_cons.mp event.names_nodup).1 mem
    rw [Fields.get?_of_perm perm (apart (List.mem_cons_of_mem _ mem)) (single name)]
    simp [Fields.get?, ne]
  rw [ofJson?, tagged]
  simp only [Option.bind_eq_bind, Option.bind_some, Json.string?, fieldNames?_tag]
  rw [if_pos singles, ofFields?_congr event.fieldNames?_tag same, ofFields?_given inRange h]

theorem within_fields {event : Event} (inRange : event.InRange) (depth : Nat) :
    ∀ field ∈ event.fields, Json.Within (depth + 1) field.2 := by
  have id (n : Nat) (below : n < entityBound) : Json.Within (depth + 1) (.ofNat n) :=
    Json.within_ofNat (Nat.lt_trans below (by decide)) _
  have code (i : Int) (low : -0x80000000 ≤ i) (high : i < 0x80000000) :
      Json.Within (depth + 1) (.ofInt i) := by
    have room : 0x80000000 < counterBound := by decide
    exact Json.within_ofInt (by omega) _
  cases event <;>
    simp_all [InRange, fields, Json.within_ofNat, Json.within_string, Json.within_bool,
      Json.within_ofNats]

/-- An object of an event does not exceed the limits as an event of a document. -/
theorem within_documents {event : Event} (inRange : event.InRange) {json : Json}
    (documents : event.Documents json) : Json.Within (Json.maxDepth - 2) json := by
  obtain ⟨given, extras, members, h, others, perm, rfl⟩ := documents
  intro entry mem
  rcases List.mem_append.mp (perm.mem_iff.mp mem) with known | extra
  · rcases List.mem_cons.mp known with rfl | field
    · exact Json.within_string _ _
    · exact within_fields inRange _ entry (h.sublist.mem field)
  · exact (others entry extra).2

end Event

theorem mapM_eq_some_iff {α β : Type} {f : α → Option β} {items : List α} {results : List β} :
    items.mapM f = some results ↔
      List.Forall₂ (fun item result => f item = some result) items results := by
  induction items generalizing results with
  | nil => cases results <;> simp
  | cons item items ih =>
    simp only [List.mapM_cons, Option.bind_eq_bind, Option.bind_eq_some_iff, Option.pure_def,
      Option.some.injEq, ih]
    constructor
    · rintro ⟨result, first, others, later, rfl⟩
      exact .cons first later
    · intro all
      cases all with
      | cons first later => exact ⟨_, first, _, later, rfl⟩

namespace Scenario

/-- The members that a document may have. -/
def names : List String := ["vector_len", "events"]

theorem ofJson?_object (members : Fields) :
    ofJson? (.object members) =
      if (∀ field ∈ members, field.1 ∈ names) ∧ ∀ name ∈ names, Fields.Single members name then
        ofFields? members
      else none := rfl

theorem ofText?_eq {json : Json} {text : String} (document : Json.IsDocument json text.toList) :
    ofText? text = if Json.Within Json.maxDepth json then ofJson? json else none := by
  rw [ofText?, ofChars?, Json.ofChars?_document document]
  split <;> rfl

section Fields

variable (scenario : Scenario) (items : List Json)

theorem fields_nodup : ((scenario.fields items).map Prod.fst).Nodup := by
  cases h : scenario.vectorLen <;> simp [fields, h]

theorem mem_names_of_fields : ∀ field ∈ scenario.fields items, field.1 ∈ names := by
  cases h : scenario.vectorLen <;> simp [fields, names, h]

theorem get?_fields_vectorLen :
    (scenario.fields items).get? "vector_len" = scenario.vectorLen.map Json.ofNat := by
  cases h : scenario.vectorLen <;> simp [fields, Fields.get?, h]

theorem get?_fields_events : (scenario.fields items).get? "events" = some (.array items) := rfl

end Fields

theorem ofFields?_documents {scenario : Scenario} (inRange : scenario.InRange) {items : List Json}
    (events : List.Forall₂ Event.Documents scenario.events items) {fields : Fields}
    (width : fields.get? "vector_len" = scenario.vectorLen.map Json.ofNat)
    (listed : fields.get? "events" = some (.array items)) : ofFields? fields = some scenario := by
  have read : items.mapM Event.ofJson? = some scenario.events := by
    have both := (List.forall₂_and_left _ _).mpr ⟨inRange.2, events⟩
    apply mapM_eq_some_iff.mpr
    apply List.Forall₂.flip
    exact both.imp fun event item h => Event.ofJson?_documents h.1 h.2
  obtain ⟨vectorLen, all⟩ := scenario
  unfold ofFields?
  rw [width, listed]
  cases vectorLen with
  | none => simp [events?, read]
  | some n =>
    have below := inRange.1 n rfl
    have number : vectorLen? (.ofNat n) = some (some n) := by
      show ((Json.ofNat n).nat? counterBound).map some = some (some n)
      rw [Json.nat?_ofNat below, Option.map_some]
    simp [events?, read, number]

/-- Reading the members of a scenario in any order gives the scenario. -/
theorem ofJson?_documents {scenario : Scenario} (inRange : scenario.InRange) {json : Json}
    (documents : scenario.Documents json) : ofJson? json = some scenario := by
  obtain ⟨items, members, events, perm, rfl⟩ := documents
  have whole : members.Perm (scenario.fields items ++ []) := by rwa [List.append_nil]
  have apart (name : String) : ∀ extra ∈ ([] : Fields), extra.1 ≠ name := List.forall_mem_nil _
  have single := Fields.single_of_nodup (scenario.fields_nodup items)
  have found (name : String) := Fields.get?_of_perm whole (apart name) (single name)
  have accepted : (∀ field ∈ members, field.1 ∈ names) ∧
      ∀ name ∈ names, Fields.Single members name :=
    ⟨fun field mem => mem_names_of_fields _ _ field (perm.mem_iff.mp mem),
      fun name _ => Fields.single_of_perm whole (apart name) (single name)⟩
  rw [ofJson?_object, if_pos accepted]
  apply ofFields?_documents inRange events
  · rw [found, get?_fields_vectorLen]
  · rw [found, get?_fields_events]

/-- A document of a scenario does not exceed the limits. -/
theorem within_documents {scenario : Scenario} (inRange : scenario.InRange) {json : Json}
    (documents : scenario.Documents json) : Json.Within Json.maxDepth json := by
  obtain ⟨items, members, events, perm, rfl⟩ := documents
  intro entry mem
  rcases List.mem_cons.mp (perm.mem_iff.mp mem) with rfl | width
  · intro item listed
    obtain ⟨i, below, rfl⟩ := List.getElem_of_mem listed
    have document := events.get (events.length_eq ▸ below) below
    exact Event.within_documents (inRange.2 _ (List.get_mem _ _)) document
  · obtain ⟨n, given, rfl⟩ := Option.map_eq_some_iff.mp (Option.mem_toList.mp width)
    exact Json.within_ofNat (inRange.1 n given) _

theorem events?_of_ofFields? {fields : Fields} {scenario : Scenario}
    (read : ofFields? fields = some scenario) :
    (fields.get? "events").bind events? = some scenario.events := by
  unfold ofFields? at read
  split at read <;>
    obtain ⟨_, -, rest⟩ := Option.bind_eq_some_iff.mp read <;>
    obtain ⟨events, listed, ⟨⟩⟩ := Option.bind_eq_some_iff.mp rest <;>
    exact listed

/-- All items of an accepted document are events. -/
theorem ofJson?_item {members : Fields} {scenario : Scenario}
    (accepted : ofJson? (.object members) = some scenario) {items : List Json}
    (listed : ("events", .array items) ∈ members) {item : Json} (mem : item ∈ items) :
    ∃ event, Event.ofJson? item = some event := by
  rw [ofJson?_object] at accepted
  split at accepted
  next known =>
    have found := Fields.get?_of_mem listed (known.2 "events" (by decide))
    have events := events?_of_ofFields? accepted
    rw [found, Option.bind_some, events?, mapM_eq_some_iff] at events
    obtain ⟨i, below, rfl⟩ := List.getElem_of_mem mem
    exact ⟨_, events.get below (events.length_eq ▸ below)⟩
  · cases accepted

end Scenario

namespace Event

/-- An event that must have a time is not read without one. -/
theorem ofJson?_timeless {members : Fields} {tag : String}
    (tagged : ("event", .string tag) ∈ members)
    (timed : tag ∈ ["tick", "copy_all", "wakelock_acquire", "wakelock_release"])
    (timeless : ∀ field ∈ members, field.1 ≠ "at_ms") : ofJson? (.object members) = none := by
  have time : Fields.time? members = none := by
    rw [Fields.time?, Fields.get?_eq_none timeless, Option.bind_none]
  have unread : ofFields? tag members = none := by
    simp only [List.mem_cons, List.not_mem_nil, or_false] at timed
    rcases timed with rfl | rfl | rfl | rfl <;> simp [ofFields?, time]
  rw [Option.eq_none_iff_forall_ne_some]
  intro event read
  simp only [ofJson?, Option.bind_eq_bind, Option.bind_eq_some_iff, Option.ite_none_right_eq_some]
    at read
  obtain ⟨given, ⟨value, found, text⟩, names, -, singles, fields⟩ := read
  rw [Fields.get?_of_mem tagged (singles "event" List.mem_cons_self)] at found
  cases found
  cases text
  rw [unread] at fields
  cases fields

end Event

namespace Scenario

/-- However a scenario is written as an object, reading gives it back. No document with a member
that is not known is read, and none with an event that lacks the time it needs. -/
theorem ofText?_documents :
    (∀ (scenario : Scenario) (json : Json) (text : String), scenario.InRange →
      scenario.Documents json → Json.IsDocument json text.toList → ofText? text = some scenario) ∧
    (∀ (members : Fields) (text : String), Json.IsDocument (.object members) text.toList →
      (∃ field ∈ members, field.1 ∉ names) → ofText? text = none) ∧
    ∀ (members event : Fields) (items : List Json) (tag : String) (text : String),
      Json.IsDocument (.object members) text.toList → ("events", .array items) ∈ members →
      .object event ∈ items → ("event", .string tag) ∈ event →
      tag ∈ ["tick", "copy_all", "wakelock_acquire", "wakelock_release"] →
      (∀ field ∈ event, field.1 ≠ "at_ms") → ofText? text = none := by
  refine ⟨?_, ?_, ?_⟩
  · intro scenario json text inRange documents document
    rw [ofText?_eq document, if_pos (within_documents inRange documents),
      ofJson?_documents inRange documents]
  · rintro members text document ⟨field, mem, unknown⟩
    have refused : ofJson? (.object members) = none := by
      rw [ofJson?_object, if_neg]
      exact fun known => unknown (known.1 field mem)
    rw [ofText?_eq document, refused, ite_self]
  · intro members event items tag text document listed mem tagged timed timeless
    have refused : ofJson? (.object members) = none := by
      rw [Option.eq_none_iff_forall_ne_some]
      intro scenario accepted
      obtain ⟨read, is⟩ := ofJson?_item accepted listed mem
      rw [Event.ofJson?_timeless tagged timed timeless] at is
      cases is
    rw [ofText?_eq document, refused, ite_self]

def script : Scenario where
  vectorLen := some 3
  events := [.classify 10032 .top 0, .sample 10032 [5, 0, 1], .tick 1000]

/-- The members of an event without a time that has one more, from the last to the first. -/
def classified : Fields :=
  [("note", .array [.null]), ("state", .string "top"), ("entity", .ofNat 10032),
    ("event", .string "classify")]

def sampled : Fields :=
  [("event", .string "sample"), ("entity", .ofNat 10032), ("cumulative", .ofNats [5, 0, 1])]

/-- A document with the given members for its last event. -/
def scripted (last : Fields) : Fields :=
  [("vector_len", .ofNat 3), ("events", .array [.object classified, .object sampled, .object last])]

def ticked : Fields := [("at_ms", .ofNat 1000), ("event", .string "tick")]

theorem plain_scripted {last : Fields} (plain : ∀ field ∈ last, Json.Plain field.2) :
    ∀ field ∈ scripted last, Json.Plain field.2 := by
  have counters : Json.Plain (.ofNats [5, 0, 1]) := .array (by simp [Json.Plain.number])
  simp only [scripted, classified, sampled, List.forall_mem_cons, List.not_mem_nil,
    false_implies, implies_true, and_true]
  refine ⟨.number, .array ?_⟩
  simp only [List.forall_mem_cons, List.not_mem_nil, false_implies, implies_true, and_true]
  refine ⟨.object ?_, .object ?_, .object plain⟩
  · simp [Json.Plain.string, Json.Plain.number, Json.Plain.array, Json.Plain.null]
  · simp [Json.Plain.string, Json.Plain.number, counters]

theorem script_documents : script.Documents (.object (scripted ticked)) := by
  refine ⟨_, _, ?_, (List.reverse_perm (script.fields _)), rfl⟩
  refine .cons ?_ (.cons ?_ (.cons ?_ .nil))
  · exact ⟨_, [("note", .array [.null])], _, .timeless rfl, by
      simp [Event.names, Event.fields, Json.Within, Json.maxDepth],
      List.reverse_perm _, rfl⟩
  · exact ⟨_, [], _, .all, by simp, .refl _, rfl⟩
  · exact ⟨_, [], _, .all, by simp, List.reverse_perm _, rfl⟩

theorem ofText?_documents_reordered :
    ofText? (.ofList (Json.object (scripted ticked)).render) = some script ∧
      ofText? (.ofList (Json.object (("comment", .null) :: scripted ticked)).render) = none ∧
      ofText? (.ofList (Json.object (scripted [("event", .string "tick")])).render) = none := by
  have document {members : Fields} (plain : ∀ field ∈ members, Json.Plain field.2) :
      Json.IsDocument (.object members) (String.ofList (Json.object members).render).toList := by
    rw [String.toList_ofList]
    exact (Json.Plain.object plain).isDocument_render
  have plain : ∀ field ∈ ticked, Json.Plain field.2 := by
    simp [ticked, Json.Plain.number, Json.Plain.string]
  have inRange : script.InRange := by
    simp [InRange, script, Event.InRange, entityBound, counterBound]
  obtain ⟨read, unknown, timeless⟩ := ofText?_documents
  refine ⟨read _ _ _ inRange script_documents (document (plain_scripted plain)), ?_, ?_⟩
  · apply unknown _ _ (document (List.forall_mem_cons.mpr ⟨.null, plain_scripted plain⟩))
    exact ⟨_, List.mem_cons_self, by decide⟩
  · exact timeless _ [("event", .string "tick")] _ "tick" _
      (document (plain_scripted (by simp [Json.Plain.string])))
      (List.mem_cons_of_mem _ List.mem_cons_self) (by simp) List.mem_cons_self (by simp) (by simp)

end Scenario

end UsageLedger
