/-!
Finite maps keyed by numbers. Entries stand in ascending order of their keys, so two tables with
the same lookups are the same value, and every listing is already in the order reports use.
-/

namespace UsageLedger

/-- The entries with `key` bound to `value`, kept in ascending order. -/
def insertEntry {α : Type} (key : Nat) (value : α) : List (Nat × α) → List (Nat × α)
  | [] => [(key, value)]
  | entry :: rest =>
    if key < entry.1 then (key, value) :: entry :: rest
    else if key = entry.1 then (key, value) :: rest
    else entry :: insertEntry key value rest

/-- The value bound to `key`. -/
def findEntry {α : Type} (key : Nat) : List (Nat × α) → Option α
  | [] => none
  | entry :: rest => if key = entry.1 then some entry.2 else findEntry key rest

theorem mem_insertEntry {α : Type} {key : Nat} {value : α} {entries : List (Nat × α)}
    {entry : Nat × α} (h : entry ∈ insertEntry key value entries) :
    entry = (key, value) ∨ entry ∈ entries := by
  induction entries with
  | nil => simpa [insertEntry] using h
  | cons first rest ih =>
    rw [insertEntry] at h
    split at h
    · simpa using h
    · split at h
      · rcases List.mem_cons.mp h with rfl | h
        · exact Or.inl rfl
        · exact Or.inr (List.mem_cons_of_mem _ h)
      · rcases List.mem_cons.mp h with rfl | h
        · exact Or.inr (List.mem_cons_self)
        · exact (ih h).imp_right (List.mem_cons_of_mem _)

theorem insertEntry_ascending {α : Type} (key : Nat) (value : α) {entries : List (Nat × α)}
    (h : entries.Pairwise (fun a b => a.1 < b.1)) :
    (insertEntry key value entries).Pairwise (fun a b => a.1 < b.1) := by
  induction entries with
  | nil => simp [insertEntry]
  | cons first rest ih =>
    obtain ⟨below, tail⟩ := List.pairwise_cons.mp h
    rw [insertEntry]
    split
    next lt =>
      refine List.pairwise_cons.mpr ⟨fun entry mem => ?_, h⟩
      rcases List.mem_cons.mp mem with rfl | mem
      · exact lt
      · exact Nat.lt_trans lt (below entry mem)
    next =>
      split
      next eq =>
        exact List.pairwise_cons.mpr ⟨fun entry mem => by simpa [eq] using below entry mem, tail⟩
      next =>
        refine List.pairwise_cons.mpr ⟨fun entry mem => ?_, ih tail⟩
        rcases mem_insertEntry mem with rfl | mem
        · show first.1 < key
          omega
        · exact below entry mem

/-- A finite map from numbers to `α`. -/
structure Table (α : Type) where
  entries : List (Nat × α) := []
  ascending : entries.Pairwise (fun a b => a.1 < b.1) := by simp
deriving DecidableEq, Repr

namespace Table

variable {α β : Type}

instance : EmptyCollection (Table α) := ⟨{}⟩

instance : Inhabited (Table α) := ⟨∅⟩

def get? (t : Table α) (key : Nat) : Option α := findEntry key t.entries

instance : Membership Nat (Table α) where
  mem t key := (t.get? key).isSome = true

instance (key : Nat) (t : Table α) : Decidable (key ∈ t) :=
  inferInstanceAs (Decidable ((t.get? key).isSome = true))

def keys (t : Table α) : List Nat := t.entries.map Prod.fst

def size (t : Table α) : Nat := t.entries.length

def isEmpty (t : Table α) : Bool := t.entries.isEmpty

def insert (t : Table α) (key : Nat) (value : α) : Table α where
  entries := insertEntry key value t.entries
  ascending := insertEntry_ascending key value t.ascending

/-- Binds the key only where it has no value yet. -/
def insertIfNew (t : Table α) (key : Nat) (value : α) : Table α :=
  if key ∈ t then t else t.insert key value

/-- The entries that pass the test. -/
def filter (p : Nat → α → Bool) (t : Table α) : Table α where
  entries := t.entries.filter fun entry => p entry.1 entry.2
  ascending := t.ascending.filter _

def erase (t : Table α) (key : Nat) : Table α := t.filter fun k _ => k != key

def map (f : Nat → α → β) (t : Table α) : Table β where
  entries := t.entries.map fun entry => (entry.1, f entry.1 entry.2)
  ascending := List.pairwise_map.mpr t.ascending

/-- Later pairs win over earlier ones with the same key. -/
def ofList (entries : List (Nat × α)) : Table α :=
  entries.foldl (fun t entry => t.insert entry.1 entry.2) ∅

@[simp] theorem get?_empty (key : Nat) : (∅ : Table α).get? key = none := rfl

theorem mem_iff {t : Table α} {key : Nat} : key ∈ t ↔ ∃ value, t.get? key = some value :=
  Option.isSome_iff_exists

theorem findEntry_insertEntry (key other : Nat) (value : α) (entries : List (Nat × α)) :
    findEntry other (insertEntry key value entries) =
      if other = key then some value else findEntry other entries := by
  induction entries with
  | nil => simp [insertEntry, findEntry]
  | cons first rest ih =>
    rw [insertEntry]
    split
    next => simp [findEntry]
    next =>
      split
      next eq => by_cases h : other = key <;> simp [findEntry, h, ← eq]
      next ne =>
        simp only [findEntry, ih]
        by_cases h : other = first.1
        · have : other ≠ key := fun eq => ne (eq ▸ h)
          simp [h, Ne.symm ne]
        · simp [h]

theorem get?_insert (t : Table α) (key other : Nat) (value : α) :
    (t.insert key value).get? other = if other = key then some value else t.get? other :=
  findEntry_insertEntry key other value t.entries

@[simp] theorem get?_insert_self (t : Table α) (key : Nat) (value : α) :
    (t.insert key value).get? key = some value := by
  simp [get?_insert]

theorem get?_insert_of_ne (t : Table α) {key other : Nat} (value : α) (h : other ≠ key) :
    (t.insert key value).get? other = t.get? other := by
  simp [get?_insert, h]

theorem mem_entries_iff (t : Table α) (key : Nat) (value : α) :
    (key, value) ∈ t.entries ↔ t.get? key = some value := by
  obtain ⟨entries, ascending⟩ := t
  simp only [get?]
  induction entries with
  | nil => simp [findEntry]
  | cons first rest ih =>
    obtain ⟨below, tail⟩ := List.pairwise_cons.mp ascending
    simp only [List.mem_cons, findEntry]
    by_cases h : key = first.1
    · subst h
      have absent : (first.1, value) ∉ rest := fun mem =>
        Nat.lt_irrefl _ (below (first.1, value) mem)
      simp [absent, Prod.ext_iff, eq_comm]
    · simp [h, ih tail, Prod.ext_iff]

/-- Tables with the same lookups are equal. -/
theorem ext_get? {t u : Table α} (h : ∀ key, t.get? key = u.get? key) : t = u := by
  obtain ⟨as, has⟩ := t
  obtain ⟨bs, hbs⟩ := u
  have same : ∀ entry, entry ∈ as ↔ entry ∈ bs := by
    intro entry
    rw [show entry = (entry.1, entry.2) from rfl, mem_entries_iff ⟨as, has⟩, h,
      ← mem_entries_iff ⟨bs, hbs⟩]
  clear h
  congr 1
  induction as generalizing bs with
  | nil =>
    cases bs with
    | nil => rfl
    | cons b bs => exact absurd ((same b).mpr List.mem_cons_self) List.not_mem_nil
  | cons a as ih =>
    cases bs with
    | nil => exact absurd ((same a).mp List.mem_cons_self) List.not_mem_nil
    | cons b bs =>
      obtain ⟨belowA, tailA⟩ := List.pairwise_cons.mp has
      obtain ⟨belowB, tailB⟩ := List.pairwise_cons.mp hbs
      have head : a = b := by
        rcases List.mem_cons.mp ((same a).mp List.mem_cons_self) with eq | memB
        · exact eq
        · rcases List.mem_cons.mp ((same b).mpr List.mem_cons_self) with eq | memA
          · exact eq.symm
          · have := belowB a memB
            have := belowA b memA
            omega
      subst head
      rw [ih tailA bs tailB fun entry => ?_]
      have := same entry
      simp only [List.mem_cons] at this
      constructor
      · intro mem
        rcases this.mp (Or.inr mem) with rfl | mem'
        · exact absurd (belowA _ mem) (Nat.lt_irrefl _)
        · exact mem'
      · intro mem
        rcases this.mpr (Or.inr mem) with rfl | mem'
        · exact absurd (belowB _ mem) (Nat.lt_irrefl _)
        · exact mem'

theorem mem_keys (t : Table α) (key : Nat) : key ∈ t.keys ↔ key ∈ t := by
  rw [mem_iff, keys, List.mem_map]
  constructor
  · rintro ⟨⟨k, value⟩, mem, rfl⟩
    exact ⟨value, (mem_entries_iff t k value).mp mem⟩
  · rintro ⟨value, found⟩
    exact ⟨(key, value), (mem_entries_iff t key value).mpr found, rfl⟩

theorem keys_ascending (t : Table α) : t.keys.Pairwise (· < ·) :=
  List.pairwise_map.mpr t.ascending

theorem keys_nodup (t : Table α) : t.keys.Nodup := t.keys_ascending.imp fun lt => Nat.ne_of_lt lt

theorem get?_filter (t : Table α) (p : Nat → α → Bool) (key : Nat) :
    (t.filter p).get? key = (t.get? key).filter (p key) := by
  apply Option.ext
  intro value
  rw [Option.filter_eq_some_iff, ← mem_entries_iff, ← mem_entries_iff]
  simp [filter, List.mem_filter]

theorem get?_erase (t : Table α) (key other : Nat) :
    (t.erase key).get? other = if other = key then none else t.get? other := by
  rw [erase, get?_filter]
  by_cases h : other = key
  · cases t.get? other <;> simp [h]
  · cases t.get? other <;> simp [h]

theorem get?_map (t : Table α) (f : Nat → α → β) (key : Nat) :
    (t.map f).get? key = (t.get? key).map (f key) := by
  apply Option.ext
  intro value
  rw [Option.map_eq_some_iff, ← mem_entries_iff]
  simp only [map, List.mem_map, Prod.mk.injEq]
  constructor
  · rintro ⟨⟨k, x⟩, mem, rfl, rfl⟩
    exact ⟨x, (mem_entries_iff t k x).mp mem, rfl⟩
  · rintro ⟨x, found, rfl⟩
    exact ⟨(key, x), (mem_entries_iff t key x).mpr found, rfl, rfl⟩

theorem not_mem_iff {t : Table α} {key : Nat} : key ∉ t ↔ t.get? key = none := by
  rw [mem_iff, Option.eq_none_iff_forall_ne_some, not_exists]

theorem mem_insert {t : Table α} {key other : Nat} {value : α} :
    other ∈ t.insert key value ↔ other = key ∨ other ∈ t := by
  rw [mem_iff, mem_iff, get?_insert]
  by_cases h : other = key <;> simp [h]

theorem mem_insertIfNew {t : Table α} {key other : Nat} {value : α} :
    other ∈ t.insertIfNew key value ↔ other = key ∨ other ∈ t := by
  unfold insertIfNew
  split
  next known =>
    constructor
    · exact Or.inr
    · rintro (rfl | h)
      · exact known
      · exact h
  next => exact mem_insert

theorem get?_insertIfNew (t : Table α) (key other : Nat) (value : α) :
    (t.insertIfNew key value).get? other =
      (t.get? other).or (if other = key then some value else none) := by
  unfold insertIfNew
  split
  next known =>
    obtain ⟨bound, found⟩ := mem_iff.mp known
    by_cases h : other = key
    · simp [h, found]
    · simp [h]
  next unknown =>
    have absent : t.get? key = none := not_mem_iff.mp unknown
    rw [get?_insert]
    by_cases h : other = key <;> simp [h, absent]

theorem mem_erase {t : Table α} {key other : Nat} :
    other ∈ t.erase key ↔ other ≠ key ∧ other ∈ t := by
  rw [mem_iff, mem_iff, get?_erase]
  by_cases h : other = key <;> simp [h]

theorem mem_foldl_erase {t : Table α} {keys : List Nat} {key : Nat} :
    key ∈ keys.foldl erase t ↔ key ∉ keys ∧ key ∈ t := by
  induction keys generalizing t with
  | nil => simp
  | cons first keys ih =>
    rw [List.foldl_cons, ih, mem_erase, List.mem_cons, not_or, and_assoc, and_left_comm]

theorem mem_map {t : Table α} {f : Nat → α → β} {key : Nat} : key ∈ t.map f ↔ key ∈ t := by
  rw [mem_iff, mem_iff, get?_map]
  cases t.get? key <;> simp

theorem insert_eq_self {t : Table α} {key : Nat} {value : α} (found : t.get? key = some value) :
    t.insert key value = t := by
  apply ext_get?
  intro other
  rw [get?_insert]
  split
  next same => rw [same, found]
  next => rfl

theorem insertIfNew_eq_self {t : Table α} {key : Nat} (known : key ∈ t) (value : α) :
    t.insertIfNew key value = t :=
  if_pos known

theorem erase_eq_self {t : Table α} {key : Nat} (absent : t.get? key = none) :
    t.erase key = t := by
  apply ext_get?
  intro other
  rw [get?_erase]
  split
  next same => rw [same, absent]
  next => rfl

theorem eq_empty_iff {t : Table α} : t = ∅ ↔ ∀ key, key ∉ t := by
  constructor
  · rintro rfl key
    simp [mem_iff]
  · intro absent
    exact ext_get? fun key => not_mem_iff.mp (absent key)

theorem isEmpty_iff {t : Table α} : t.isEmpty = true ↔ t = ∅ := by
  obtain ⟨entries, ascending⟩ := t
  cases entries with
  | nil => exact ⟨fun _ => rfl, fun _ => rfl⟩
  | cons entry rest =>
    constructor
    · intro empty
      contradiction
    · intro eq
      cases congrArg entries eq

end Table

/-- A finite set of numbers in ascending order. -/
abbrev KeySet := Table Unit

/-- The set with the members of the list added. -/
def KeySet.addAll (s : KeySet) (members : List Nat) : KeySet :=
  members.foldl (fun s key => s.insert key ()) s

theorem KeySet.mem_addAll {s : KeySet} {members : List Nat} {key : Nat} :
    key ∈ s.addAll members ↔ key ∈ members ∨ key ∈ s := by
  induction members generalizing s with
  | nil => simp [addAll]
  | cons first rest ih =>
    have step : s.addAll (first :: rest) = addAll (s.insert first ()) rest := rfl
    rw [step, ih, Table.mem_insert, List.mem_cons]
    constructor
    · rintro (mem | rfl | mem)
      · exact Or.inl (Or.inr mem)
      · exact Or.inl (Or.inl rfl)
      · exact Or.inr mem
    · rintro ((rfl | mem) | mem)
      · exact Or.inr (Or.inl rfl)
      · exact Or.inl mem
      · exact Or.inr (Or.inr mem)

end UsageLedger
