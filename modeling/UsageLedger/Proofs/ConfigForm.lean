import Mathlib.Data.List.Nodup
import UsageLedger.Config.Decode
import UsageLedger.Proofs.TomlGrammar

namespace UsageLedger

open Toml (Members Statement)

theorem Band.name_injective : ∀ {band other : Band}, band.name = other.name → band = other := by
  intro band other
  cases band <;> cases other <;> decide

namespace Bands

/-- The bands are the first neighbours whose bounds do not increase. -/
def IsFirstUnordered (bands : Bands) (lower upper : Band) : Prop :=
  ∃ before after, Band.neighbours = before ++ (lower, upper) :: after ∧
    (∀ pair ∈ before, bands.bound pair.1 < bands.bound pair.2) ∧
      bands.bound upper ≤ bands.bound lower

theorem firstUnordered_eq_some_iff {bands : Bands} {lower upper : Band} :
    bands.firstUnordered = some (lower, upper) ↔ bands.IsFirstUnordered lower upper := by
  rw [firstUnordered, List.find?_eq_some_iff_append, IsFirstUnordered]
  constructor
  · rintro ⟨found, before, after, cut, ordered⟩
    exact ⟨before, after, cut, fun pair mem => by simpa using ordered pair mem,
      of_decide_eq_true found⟩
  · rintro ⟨before, after, cut, ordered, found⟩
    exact ⟨decide_eq_true found, before, after, cut, fun pair mem => by
      simpa using ordered pair mem⟩

theorem bound_setBound (bands : Bands) (band other : Band) (value : Int) :
    (bands.setBound band value).bound other =
      if other = band then value else bands.bound other := by
  cases band <;> cases other <;> rfl

theorem eq_of_bound {bands others : Bands} (same : ∀ band, bands.bound band = others.bound band) :
    bands = others := by
  cases bands
  cases others
  simp only [Bands.mk.injEq]
  exact ⟨same .top, same .foregroundService, same .foreground, same .background, same .topSleeping,
    same .heavyWeight, same .nonexistent⟩

end Bands

namespace Config

/-- The fields of a document: the vector length, and the bound of each band. -/
inductive Field where
  | vectorLen
  | band (band : Band)
deriving DecidableEq, Repr

namespace Field

def name : Field → String
  | .vectorLen => "vector_len"
  | .band b => b.name

/-- The tables on the way to the field. -/
def path : Field → List String
  | .vectorLen => []
  | .band _ => ["bands"]

def value (config : Config) : Field → Int
  | .vectorLen => config.vectorLen
  | .band b => config.bands.bound b

/-- The statement that gives the field its value, by a key after the path. -/
def statement (config : Config) (path : List String) (field : Field) : Statement :=
  .assign path field.name (.integer (field.value config))

end Field

/-- The bounds of the bands with their names. -/
def members (config : Config) (bands : List Band) : Members :=
  bands.map fun band => (band.name, .integer (config.bands.bound band))

/-- The statements that give the fields their values. The bands stand under a header, which comes
after what is outside, or they have dotted keys, or they stand together between braces. -/
inductive LaysOut (config : Config) : List Field → List Statement → Prop where
  | dotted (given : List Field) :
      LaysOut config given (given.map fun field => field.statement config field.path)
  | header {before : List Field} (bands : List Band) : (∀ field ∈ before, field = .vectorLen) →
      LaysOut config (before ++ bands.map .band)
        (before.map (Field.statement config []) ++
          .table [] "bands" :: bands.map fun band => Field.statement config [] (.band band))
  | inline {before after : List Field} (bands : List Band) :
      (∀ field ∈ before, field = .vectorLen) → (∀ field ∈ after, field = .vectorLen) →
      LaysOut config (before ++ bands.map .band ++ after)
        (before.map (Field.statement config []) ++
          .assign [] "bands" (.inline (config.members bands)) ::
            after.map (Field.statement config []))

/-- The text gives each field at most once, and each that has not its default value. -/
def Documents (config : Config) (text : List Char) : Prop :=
  ∃ given statements, given.Nodup ∧ (∀ field ∉ given, field.value config = field.value {}) ∧
    LaysOut config given statements ∧ Toml.WritesDocument statements text

/-- The vector length is no more than the greatest integer of a document, and the bounds have 32
bits. -/
def InRange (config : Config) : Prop :=
  config.vectorLen ≤ 0x7FFFFFFFFFFFFFFF ∧
    ∀ band, -0x80000000 ≤ config.bands.bound band ∧ config.bands.bound band < 0x80000000

/-- Bands are decoded by name: each has the bound given for it, or the one it had. -/
theorem bandsOfMembers?_eq {members : Members} {values : Band → Option Int}
    (read : ∀ band, Toml.find? members band.name = (values band).map .integer)
    (fits : ∀ band, ∀ n ∈ values band, -0x80000000 ≤ n ∧ n < 0x80000000) (names : List Band)
    (bands : Bands) :
    ∃ result, bandsOfMembers? members bands names = some result ∧
      ∀ band, result.bound band =
        if band ∈ names then (values band).getD (bands.bound band) else bands.bound band := by
  induction names generalizing bands with
  | nil => exact ⟨bands, rfl, fun band => (if_neg List.not_mem_nil).symm⟩
  | cons first names ih =>
    cases given : values first with
    | none =>
      obtain ⟨result, decoded, bounds⟩ := ih bands
      refine ⟨result, ?_, fun band => ?_⟩
      · rw [bandsOfMembers?, read, given]
        exact decoded
      · rw [bounds]
        by_cases same : band = first
        · simp [same, given]
        · simp [same]
    | some n =>
      obtain ⟨result, decoded, bounds⟩ := ih (bands.setBound first n)
      have range : int32? (.integer n) = some n :=
        (Option.filter_some).trans (if_pos (decide_eq_true (fits first n given)))
      refine ⟨result, ?_, fun band => ?_⟩
      · rw [bandsOfMembers?, read, given]
        simp only [Option.map_some, range, Option.bind_eq_bind, Option.bind_some, decoded]
      · rw [bounds, Bands.bound_setBound]
        by_cases same : band = first
        · simp [same, given]
        · simp [same]

/-- The members hold the fields given so far and no others. If there are bands among them, those
stand in a table of the form. -/
structure Holds (config : Config) (given : List Field) (form : Members → Toml) (members : Members)
    (bands : Option Members) : Prop where
  known : ∀ entry ∈ members, entry.1 ∈ ["vector_len", "bands"]
  vectorLen : Toml.find? members "vector_len" =
    if .vectorLen ∈ given then some (.integer config.vectorLen) else none
  table : Toml.find? members "bands" = bands.map form
  bounds : ∀ band, Toml.find? (bands.getD []) band.name =
    if .band band ∈ given then some (.integer (config.bands.bound band)) else none

theorem ofMembers?_eq (members : Members) :
    ofMembers? members =
      ((Toml.find? members "vector_len").elim (some (Config.vectorLen {})) vectorLen?).bind
        fun vectorLen => ((Toml.find? members "bands").elim (some {}) bands?).bind fun bands =>
          if ∀ entry ∈ members, entry.1 ∈ ["vector_len", "bands"] then some { vectorLen, bands }
          else none := by
  unfold ofMembers?
  cases Toml.find? members "vector_len" <;> cases Toml.find? members "bands" <;> rfl

/-- Members that hold all fields without a default value give the settings back. -/
theorem ofMembers?_holds {config : Config} {given : List Field} {form : Members → Toml}
    {members : Members} {bands : Option Members} (inRange : config.InRange)
    (default : ∀ field ∉ given, field.value config = field.value {})
    (decoded : ∀ inner, bands? (form inner) = bandsOfMembers? inner {} Band.all)
    (holds : Holds config given form members bands) : ofMembers? members = some config := by
  have length : (Toml.find? members "vector_len").elim (some (Config.vectorLen {})) vectorLen? =
      some config.vectorLen := by
    rw [holds.vectorLen]
    split_ifs with mem
    · rfl
    · exact congrArg some (Int.ofNat.inj (default .vectorLen mem)).symm
  have given_bounds : bandsOfMembers? (bands.getD []) {} Band.all = some config.bands := by
    have found : ∀ band, Toml.find? (bands.getD []) band.name =
        (if .band band ∈ given then some (config.bands.bound band) else none).map .integer := by
      intro band
      rw [holds.bounds]
      split <;> rfl
    have fits : ∀ band, ∀ n ∈ (if .band band ∈ given then some (config.bands.bound band) else none),
        -0x80000000 ≤ n ∧ n < 0x80000000 := by
      intro band n mem
      split at mem <;> cases mem
      exact inRange.2 band
    obtain ⟨result, read, bounds⟩ := bandsOfMembers?_eq found fits Band.all {}
    rw [read]
    refine congrArg some (Bands.eq_of_bound fun band => ?_)
    have all : band ∈ Band.all := by cases band <;> decide
    rw [bounds, if_pos all]
    split_ifs with mem
    · rfl
    · exact (default (.band band) mem).symm
  have table : (Toml.find? members "bands").elim (some {}) bands? = some config.bands := by
    rw [holds.table]
    cases bands with
    | none => exact given_bounds
    | some inner => exact (decoded inner).trans given_bounds
  rw [ofMembers?_eq, length, table]
  exact if_pos holds.known

theorem Holds.nil (config : Config) (form : Members → Toml) : Holds config [] form [] none :=
  ⟨List.forall_mem_nil _, rfl, rfl, fun _ => rfl⟩

section

variable {config : Config} {given : List Field} {form : Members → Toml} {members : Members}
  {bands : Option Members}

theorem known_put (holds : Holds config given form members bands) {key : String} {value : Toml}
    (known : key ∈ ["vector_len", "bands"]) :
    ∀ entry ∈ Toml.put members key value, entry.1 ∈ ["vector_len", "bands"] := by
  intro entry mem
  rcases Toml.mem_put mem with same | mem
  · rw [same]
    exact known
  · exact holds.known entry mem

theorem Holds.putLength (holds : Holds config given form members bands) :
    Holds config (given ++ [.vectorLen]) form
      (Toml.put members "vector_len" (.integer config.vectorLen)) bands where
  known := known_put holds (by decide)
  vectorLen := by simp [Toml.find?_put]
  table := by simp [Toml.find?_put, holds.table]
  bounds := by simp [holds.bounds]

/-- The table of the bands takes the place of the one that was there. -/
theorem Holds.putBands (holds : Holds config given form members bands) (more : List Band)
    (inner : Members)
    (bounds : ∀ band, Toml.find? inner band.name =
      if band ∈ more then some (.integer (config.bands.bound band))
      else Toml.find? (bands.getD []) band.name) :
    Holds config (given ++ more.map .band) form (Toml.put members "bands" (form inner))
      (some inner) where
  known := known_put holds (by decide)
  vectorLen := by simp [Toml.find?_put, holds.vectorLen]
  table := by simp [Toml.find?_put]
  bounds := by
    intro band
    rw [Option.getD_some, bounds, holds.bounds]
    by_cases fresh : band ∈ more
    · simp [fresh]
    · simp [fresh]

theorem Holds.find?_eq_none (holds : Holds config given form members bands) {band : Band}
    (new : .band band ∉ given) : Toml.find? (bands.getD []) band.name = none := by
  rw [holds.bounds, if_neg new]

theorem Holds.putBand (holds : Holds config given form members bands) (band : Band) :
    Holds config (given ++ [.band band]) form
      (Toml.put members "bands" (form (Toml.put (bands.getD []) band.name
        (.integer (config.bands.bound band)))))
      (some (Toml.put (bands.getD []) band.name (.integer (config.bands.bound band)))) := by
  refine holds.putBands [band] _ fun other => ?_
  rw [Toml.find?_put]
  by_cases same : other = band
  · simp [same]
  · simp [same, mt Band.name_injective (Ne.symm same)]

/-- Statements at the top add what they give. -/
theorem build_top {fields : List Field} (top : ∀ field ∈ fields, field = .vectorLen)
    (holds : Holds config given form members bands) (distinct : (given ++ fields).Nodup) :
    ∃ after, (∀ rest, Toml.build [] members (fields.map (Field.statement config []) ++ rest) =
      Toml.build [] after rest) ∧ Holds config (given ++ fields) form after bands := by
  induction fields generalizing given members with
  | nil => exact ⟨members, fun _ => rfl, by rwa [List.append_nil]⟩
  | cons field fields ih =>
    obtain ⟨rfl, others⟩ := List.forall_mem_cons.mp top
    have new := Toml.not_mem_of_nodup distinct
    have free : Toml.find? members "vector_len" = none := by rw [holds.vectorLen, if_neg new]
    rw [List.append_cons] at distinct ⊢
    obtain ⟨after, built, kept⟩ := ih others holds.putLength distinct
    refine ⟨after, fun rest => ?_, kept⟩
    rw [← built rest]
    simp only [List.map_cons, List.cons_append, Field.statement, Field.name, Field.value,
      Toml.build, Toml.update, Toml.assign_new free, Option.bind_eq_bind, Option.bind_some]

theorem build_dotted {fields : List Field}
    (holds : Holds config given (.table true true) members bands)
    (distinct : (given ++ fields).Nodup) :
    ∃ after inner,
      Toml.build [] members (fields.map fun field => field.statement config field.path) =
        some after ∧ Holds config (given ++ fields) (.table true true) after inner := by
  induction fields generalizing given members bands with
  | nil => exact ⟨members, bands, rfl, by rwa [List.append_nil]⟩
  | cons field fields ih =>
    have new := Toml.not_mem_of_nodup distinct
    rw [List.append_cons] at distinct ⊢
    cases field with
    | vectorLen =>
      have free : Toml.find? members "vector_len" = none := by rw [holds.vectorLen, if_neg new]
      obtain ⟨after, inner, built, kept⟩ := ih holds.putLength distinct
      refine ⟨after, inner, ?_, kept⟩
      rw [← built]
      simp only [List.map_cons, Field.statement, Field.name, Field.value, Field.path, Toml.build,
        Toml.update, Toml.assign_new free, Option.bind_eq_bind, Option.bind_some]
    | band band =>
      obtain ⟨after, inner, built, kept⟩ := ih (holds.putBand band) distinct
      refine ⟨after, inner, ?_, kept⟩
      rw [← built]
      simp only [List.map_cons, Field.statement, Field.name, Field.value, Field.path, Toml.build,
        Toml.update, Toml.assign_dotted holds.table (holds.find?_eq_none new),
        Option.bind_eq_bind, Option.bind_some]

/-- Statements under the header of the bands go into their table. -/
theorem build_header {names : List Band} {inner : Members}
    (holds : Holds config given (.table false false) members (some inner))
    (distinct : (given ++ names.map Field.band).Nodup) :
    ∃ after table, Toml.build ["bands"] members
      (names.map fun band => Field.statement config [] (.band band)) = some after ∧
        Holds config (given ++ names.map Field.band) (.table false false) after (some table) := by
  induction names generalizing given members inner with
  | nil => exact ⟨members, inner, rfl, by rwa [List.map_nil, List.append_nil]⟩
  | cons band names ih =>
    rw [List.map_cons] at distinct
    have new := Toml.not_mem_of_nodup distinct
    rw [List.append_cons] at distinct
    obtain ⟨after, table, built, kept⟩ := ih (holds.putBand band) distinct
    refine ⟨after, table, ?_, by rwa [List.map_cons, List.append_cons]⟩
    rw [← built]
    simp only [List.map_cons, Field.statement, Field.name, Field.value, Toml.build,
      Toml.update_header holds.table (holds.find?_eq_none new), Option.bind_eq_bind,
      Option.bind_some, Option.getD_some]

end

theorem find?_members (config : Config) (names : List Band) (band : Band) :
    Toml.find? (config.members names) band.name =
      if band ∈ names then some (.integer (config.bands.bound band)) else none := by
  induction names with
  | nil => rfl
  | cons first names ih =>
    have head := Toml.find?_cons first.name (.integer (config.bands.bound first))
      (config.members names) band.name
    rw [members, List.map_cons, ← members, head, ih]
    by_cases same : first = band
    · simp [same]
    · simp [mt Band.name_injective same, Ne.symm same]

/-- However the statements are laid out, they build members that hold the given fields. -/
theorem build_layout {config : Config} {given : List Field} {statements : List Statement}
    (layout : LaysOut config given statements) (distinct : given.Nodup) :
    ∃ form members bands, Toml.build [] [] statements = some members ∧
      Holds config given form members bands ∧
        ∀ inner, Config.bands? (form inner) = bandsOfMembers? inner {} Band.all := by
  cases layout with
  | dotted given =>
    obtain ⟨members, bands, built, holds⟩ := build_dotted (.nil config _) distinct
    exact ⟨_, members, bands, built, holds, fun _ => rfl⟩
  | @header before names top =>
    obtain ⟨outside, built, holds⟩ :=
      build_top top (.nil config (.table false false)) (List.nodup_append.mp distinct).1
    have opened := holds.putBands [] [] fun band => rfl
    rw [List.map_nil, List.append_nil] at opened
    obtain ⟨members, bands, filled, kept⟩ := build_header opened distinct
    refine ⟨_, members, some bands, ?_, kept, fun _ => rfl⟩
    rw [built, Toml.build, Toml.openTable_new holds.table]
    exact filled
  | @inline before after names top rest =>
    obtain ⟨outside, built, holds⟩ := build_top top (.nil config .inline)
      (List.nodup_append.mp (List.nodup_append.mp distinct).1).1
    have table := holds.putBands names (config.members names) (find?_members config names)
    obtain ⟨members, ended, kept⟩ := build_top rest table distinct
    refine ⟨.inline, members, _, ?_, kept, fun _ => rfl⟩
    have last := ended []
    rw [List.append_nil] at last
    rw [built, Toml.build]
    simp only [Toml.update, Toml.assign_new holds.table, Option.bind_eq_bind, Option.bind_some,
      last]
    rfl

theorem Field.fits {config : Config} (inRange : config.InRange) (field : Field) :
    Toml.Fits (field.value config) := by
  obtain ⟨length, bounds⟩ := inRange
  unfold Toml.Fits
  cases field with
  | vectorLen =>
    simp only [Field.value]
    omega
  | band band =>
    have := bounds band
    simp only [Field.value]
    omega

theorem readable_layout {config : Config} (inRange : config.InRange) {given : List Field}
    {statements : List Statement} (layout : LaysOut config given statements)
    (distinct : given.Nodup) : ∀ statement ∈ statements, statement.IsReadable := by
  have single (path : List String) (field : Field) (short : path.length < Toml.maxDepth) :
      (field.statement config path).IsReadable := ⟨short, Field.fits inRange field⟩
  have top : ∀ fields : List Field, ∀ statement ∈ fields.map (Field.statement config []),
      statement.IsReadable :=
    fun _ => List.forall_mem_map.mpr fun field _ => single [] field (by decide)
  cases layout with
  | dotted given =>
    refine List.forall_mem_map.mpr fun field _ => single _ field ?_
    cases field <;> simp [Field.path, Toml.maxDepth]
  | header names _ =>
    refine List.forall_mem_append.mpr ⟨top _, List.forall_mem_cons.mpr ⟨?_, ?_⟩⟩
    · exact Nat.succ_pos _
    · exact List.forall_mem_map.mpr fun band _ => single [] (.band band) (by decide)
  | inline names _ _ =>
    refine List.forall_mem_append.mpr ⟨top _, List.forall_mem_cons.mpr ⟨⟨by decide, ?_, ?_⟩, top _⟩⟩
    · have names_distinct : names.Nodup :=
        ((List.nodup_append.mp (List.nodup_append.mp distinct).1).2.1).of_map
      have same : (config.members names).map Prod.fst = names.map Band.name := by
        simp [members]
      rw [same]
      exact names_distinct.map fun _ _ => Band.name_injective
    · refine List.forall_mem_map.mpr fun band _ n mem => ?_
      cases mem
      exact Field.fits inRange (.band band)

/-- Reading any document of the settings gives them back, before they are validated. -/
theorem ofMembers?_documents {config : Config} (inRange : config.InRange) {text : List Char}
    (documents : config.Documents text) : (Toml.ofChars? text).bind ofMembers? = some config := by
  obtain ⟨given, statements, distinct, default, layout, writes⟩ := documents
  obtain ⟨form, members, bands, built, holds, decoded⟩ := build_layout layout distinct
  rw [Toml.ofChars?_writes writes (readable_layout inRange layout distinct), built,
    Option.bind_some, ofMembers?_holds inRange default decoded holds]

namespace Field

def all : List Field := .vectorLen :: Band.all.map .band

theorem mem_all (field : Field) : field ∈ all := by
  rcases field with _ | band
  · decide
  · cases band <;> decide

/-- The dotted key of the field. -/
def key : Field → List Char
  | .vectorLen => "vector_len".toList
  | .band b => "bands.".toList ++ b.name.toList

theorem writesKey_key (field : Field) :
    Toml.WritesKey field.path field.name (field.key ++ [' ']) := by
  cases field with
  | vectorLen => exact .last (Toml.writesPart_bare (by decide) rfl) Toml.isGap_space
  | band band =>
    have name : Toml.WritesPart band.name band.name.toList := by
      cases band <;> exact Toml.writesPart_bare (by decide) rfl
    have table : Toml.WritesPart "bands" "bands".toList := Toml.writesPart_bare (by decide) rfl
    have dotted :=
      Toml.WritesKey.dotted table Toml.isGap_nil Toml.isGap_nil (.last name Toml.isGap_space)
    exact dotted

/-- The line that gives the field its value. -/
def line (config : Config) (field : Field) : List Char :=
  field.key ++ ([' '] ++ '=' :: ([' '] ++ Toml.integerText (field.value config))) ++ ['\n']

end Field

/-- The settings with a line for each field, none of which has its value left out. -/
def render (config : Config) : List Char := Field.all.flatMap (Field.line config)

/-- A statement with a space on each side of its equals sign. -/
theorem writesStatement_spaced {path : List String} {key : String} {n : Int} {name text : List Char}
    (named : Toml.WritesKey path key (name ++ [' '])) (written : Toml.WritesInteger n text) :
    Toml.WritesStatement (.assign path key (.integer n))
      (name ++ ([' '] ++ '=' :: ([' '] ++ text))) :=
  .assign ⟨_, [' '], _, named, Toml.isGap_space, .integer written, by rw [List.append_assoc]⟩

theorem writesLines_fields (config : Config) (fields : List Field) :
    Toml.WritesLines (fields.map fun field => field.statement config field.path)
      (fields.flatMap (Field.line config)) := by
  induction fields with
  | nil => exact .done
  | cons field fields ih =>
    have first := writesStatement_spaced field.writesKey_key
      (Toml.writesInteger_integerText (field.value config))
    have lines := Toml.WritesLines.line Toml.isGap_nil first (Toml.closes_newline _) ih
    rw [List.map_cons, List.flatMap_cons, Field.line, List.append_assoc _ ['\n']]
    exact lines

/-- All settings have a document. -/
theorem documents_render (config : Config) : config.Documents config.render :=
  ⟨Field.all, _, by decide, fun field absent => absurd field.mem_all absent, .dotted Field.all,
    config.render, writesLines_fields config Field.all, .inl rfl⟩

/-- Only valid settings come out of a document, and every document of valid settings gives them
back. A document of others is refused for the vector length if that is zero, and else for the first
two bands whose bounds do not increase. -/
theorem ofText_documents :
    (∀ (text : String) (config : Config), ofText text = .ok config → config.Valid) ∧
    ∀ (config : Config) (text : String), config.InRange → config.Documents text.toList →
      (config.Valid → ofText text = .ok config) ∧
      (config.vectorLen = 0 → ofText text = .error (.invalid .emptyVector)) ∧
      (0 < config.vectorLen → ¬ config.bands.Increasing →
        ∃ lower upper, config.bands.IsFirstUnordered lower upper ∧
          ofText text = .error (.invalid (.unordered lower upper (config.bands.bound lower)
            (config.bands.bound upper)))) := by
  refine ⟨fun text config accepted => ?_, fun config text inRange documents => ?_⟩
  · unfold ofText ofChars at accepted
    split at accepted
    next => cases accepted
    next read =>
      split at accepted
      next => cases accepted
      next sound =>
        cases accepted
        exact (fault?_eq_none_iff config).mp sound
  · have read := ofMembers?_documents inRange documents
    refine ⟨fun valid => ?_, fun empty => ?_, fun positive disordered => ?_⟩
    · have sound := (fault?_eq_none_iff config).mpr valid
      simp only [ofText, ofChars, read, sound]
    · have fault : config.fault? = some .emptyVector := if_pos empty
      simp only [ofText, ofChars, read, fault]
    · rw [← Bands.firstUnordered_eq_none_iff] at disordered
      obtain ⟨⟨lower, upper⟩, found⟩ := Option.ne_none_iff_exists'.mp disordered
      refine ⟨lower, upper, Bands.firstUnordered_eq_some_iff.mp found, ?_⟩
      simp only [ofText, ofChars, read, fault?, if_neg (Nat.ne_of_gt positive), found,
        Option.map_some]

/-- A document that leaves out the vector length and five of the bands, and spells the rest with
quotes, underscores, an escape and another base. -/
def spelled : String :=
  "vector_len = +1_0 # frequencies\n\n[ 'bands' ]\r\nheavy_weight = 0xE\n\"t\\u006fp\" = 1"

def spelledConfig : Config where
  vectorLen := 10
  bands := { top := 1, heavyWeight := 14 }

theorem documents_spelled : spelledConfig.Documents spelled.toList := by
  have outside : ∀ field ∈ [Field.vectorLen], field = .vectorLen := by simp
  have layout : LaysOut spelledConfig ([.vectorLen] ++ [Band.heavyWeight, .top].map .band) _ :=
    .header _ outside
  refine ⟨_, _, ?_, ?_, layout, spelled.toList, ?_, .inl rfl⟩
  · decide
  · rintro (_ | band) absent
    · simp at absent
    · cases band <;> simp at absent <;> rfl
  · have length : Toml.WritesInteger 10 "+1_0".toList :=
      .decimal (n := 10) .plus (.apart '1' (.last '0'))
    have hexadecimal : (16, 'x') ∈ Toml.baseLetters := by decide
    have digit : List.Forall₂ Json.WritesHexDigit [14] ['E'] := .cons ⟨by decide, .inr rfl⟩ .nil
    have heavy := Toml.WritesInteger.based hexadecimal (by decide) digit (.last 'E')
    have top : Toml.WritesInteger 1 ['1'] := .decimal (n := 1) .absent (.last '1')
    have code : List.Forall₂ Json.WritesHexDigit [0, 0, 6, 15] "006f".toList :=
      .cons ⟨by decide, .inl rfl⟩ (.cons ⟨by decide, .inl rfl⟩ (.cons ⟨by decide, .inl rfl⟩
        (.cons ⟨by decide, .inl rfl⟩ .nil)))
    have pieces : List.Forall₂ Toml.WritesChar "top".toList
        [['t'], '\\' :: 'u' :: "006f".toList, ['p']] :=
      .cons (.plain (by decide) (by decide) (by decide)) (.cons (.short ⟨_, rfl, rfl, code⟩)
        (.cons (.plain (by decide) (by decide) (by decide)) .nil))
    have key {name : String} {text : List Char} (part : Toml.WritesPart name text) :
        Toml.WritesKey [] name (text ++ [' ']) := .last part Toml.isGap_space
    have lengthKey : Toml.WritesKey [] "vector_len" _ := key (Toml.writesPart_bare (by decide) rfl)
    have heavyKey : Toml.WritesKey [] "heavy_weight" _ := key (Toml.writesPart_bare (by decide) rfl)
    have topKey : Toml.WritesKey [] "top" _ := key (.basic pieces)
    have table : Toml.WritesKey [] "bands" ("'bands'".toList ++ [' ']) :=
      key (.literal (List.all_iff_forall_prop.mp rfl))
    have comment : Toml.IsComment "# frequencies".toList :=
      .inr ⟨_, List.all_iff_forall_prop.mp rfl, rfl⟩
    have commented (rest : List Char) :
        Toml.Closes rest ([' '] ++ ("# frequencies".toList ++ (['\n'] ++ rest))) :=
      .newline Toml.isGap_space comment (by simp)
    have returned (rest : List Char) : Toml.Closes rest ([] ++ ([] ++ (['\r', '\n'] ++ rest))) :=
      .newline Toml.isGap_nil (.inl rfl) (by simp)
    refine Eq.subst (motive := Toml.WritesLines _) ?_
      (.line Toml.isGap_nil (writesStatement_spaced lengthKey length) (commented _)
      (.blank (Toml.closes_newline _)
      (.line Toml.isGap_nil (.table Toml.isGap_space table) (returned _)
      (.line Toml.isGap_nil (writesStatement_spaced heavyKey heavy) (Toml.closes_newline _)
      (.line Toml.isGap_nil (writesStatement_spaced topKey top) (.last Toml.isGap_nil (.inl rfl))
      .done)))))
    decide +kernel

/-- Settings that differ from the others in one bound, which is below the bound before it. -/
def crossedConfig : Config where
  bands := { foreground := 3 }

theorem ofText_documents_spelled :
    ofText spelled = .ok spelledConfig ∧
      ofText (.ofList (render { vectorLen := 0 })) = .error (.invalid .emptyVector) ∧
      ofText (.ofList (render crossedConfig)) =
        .error (.invalid (.unordered .foregroundService .foreground 4 3)) := by
  have rendered (config : Config) : config.Documents (String.ofList config.render).toList := by
    rw [String.toList_ofList]
    exact documents_render config
  obtain ⟨-, read⟩ := ofText_documents
  refine ⟨?_, ?_, ?_⟩
  · exact (read spelledConfig spelled ⟨by decide, fun band => by cases band <;> decide⟩
      documents_spelled).1 (by decide)
  · exact (read { vectorLen := 0 } _ ⟨by decide, fun band => by cases band <;> decide⟩
      (rendered _)).2.1 rfl
  · obtain ⟨lower, upper, first, refused⟩ :=
      (read crossedConfig _ ⟨by decide, fun band => by cases band <;> decide⟩
        (rendered _)).2.2 (by decide) (by decide)
    have found := Bands.firstUnordered_eq_some_iff.mpr first
    have here : crossedConfig.bands.firstUnordered = some (.foregroundService, .foreground) := by
      decide
    rw [here] at found
    cases found
    exact refused

end Config

end UsageLedger
