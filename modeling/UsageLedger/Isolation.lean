import UsageLedger.Table
import UsageLedger.Fault

/-!
Isolated entities. An isolated entity's usage belongs to its parent, and the relation is one level
deep: no entity is a parent and a child at once. It is held from both ends, so that neither the
parent of a child nor the children of a parent have to be searched for.
-/

namespace UsageLedger

/-- The isolated entities of each parent. -/
abbrev ChildSets := Table KeySet

namespace ChildSets

/-- The children of a parent, none if it has no set. -/
def of (sets : ChildSets) (parent : Nat) : KeySet := (sets.get? parent).getD ∅

def attach (sets : ChildSets) (parent child : Nat) : ChildSets :=
  sets.insert parent ((sets.of parent).insert child ())

/-- Takes the child out of the parent's set. A set that is left empty goes with it, so that whoever
has a set has children. -/
def detach (sets : ChildSets) (parent child : Nat) : ChildSets :=
  match sets.get? parent with
  | none => sets
  | some members =>
    let rest := members.erase child
    if rest.isEmpty then sets.erase parent else sets.insert parent rest

def NoneEmpty (sets : ChildSets) : Prop :=
  ∀ parent members, sets.get? parent = some members → ∃ child, child ∈ members

theorem mem_attach {sets : ChildSets} {parent child owner other : Nat} :
    other ∈ (sets.attach parent child).of owner ↔
      owner = parent ∧ other = child ∨ other ∈ sets.of owner := by
  unfold attach of
  rw [Table.get?_insert]
  by_cases same : owner = parent
  · subst same
    simp [Table.mem_insert]
  · simp [same]

theorem of_detach (sets : ChildSets) (parent child owner : Nat) :
    (sets.detach parent child).of owner =
      if owner = parent then (sets.of owner).erase child else sets.of owner := by
  unfold detach of
  by_cases same : owner = parent
  · subst same
    rw [if_pos rfl]
    cases found : sets.get? owner with
    | none => simp only [found]; rfl
    | some members =>
      by_cases empty : (members.erase child).isEmpty
      · have nothing : members.erase child = ∅ := Table.isEmpty_iff.mp empty
        simp only [empty, if_true]
        simp [Table.get?_erase, nothing]
      · simp [empty]
  · rw [if_neg same]
    cases sets.get? parent with
    | none => rfl
    | some members =>
      by_cases empty : (members.erase child).isEmpty
      · simp [same, empty, Table.get?_erase]
      · simp [same, empty, Table.get?_insert]

theorem mem_detach {sets : ChildSets} {parent child owner other : Nat} :
    other ∈ (sets.detach parent child).of owner ↔
      other ∈ sets.of owner ∧ ¬ (owner = parent ∧ other = child) := by
  rw [of_detach]
  split
  next same => simp [Table.mem_erase, same, and_comm]
  next other => simp [other]

theorem NoneEmpty.attach {sets : ChildSets} (h : sets.NoneEmpty) (parent child : Nat) :
    (sets.attach parent child).NoneEmpty := by
  intro owner members found
  rw [ChildSets.attach, Table.get?_insert] at found
  split at found
  · cases found
    exact ⟨child, Table.mem_insert.mpr (.inl rfl)⟩
  · exact h owner members found

theorem NoneEmpty.detach {sets : ChildSets} (h : sets.NoneEmpty) (parent child : Nat) :
    (sets.detach parent child).NoneEmpty := by
  intro owner members found
  unfold ChildSets.detach at found
  split at found
  · exact h owner members found
  next former _ =>
    simp only at found
    split at found
    next =>
      rw [Table.get?_erase] at found
      split at found
      · contradiction
      · exact h owner members found
    next full =>
      rw [Table.get?_insert] at found
      split at found
      · cases found
        rw [Table.isEmpty_iff, Table.eq_empty_iff] at full
        exact Classical.not_forall_not.mp full
      · exact h owner members found

/-- Whoever has a set has children. -/
theorem NoneEmpty.mem_iff {sets : ChildSets} (h : sets.NoneEmpty) (parent : Nat) :
    parent ∈ sets ↔ ∃ child, child ∈ sets.of parent := by
  unfold of
  rw [Table.mem_iff]
  cases found : sets.get? parent with
  | none => simp [Table.mem_iff]
  | some members =>
    obtain ⟨child, mem⟩ := h parent members found
    exact ⟨fun _ => ⟨child, mem⟩, fun _ => ⟨members, rfl⟩⟩

end ChildSets

/-- The relation of isolated entities to their parents, from both ends. -/
structure Links where
  /-- The parent of each isolated entity. -/
  parents : Table Nat := ∅
  children : ChildSets := ∅
deriving DecidableEq, Repr

namespace Links

def parentOf (links : Links) (entity : Nat) : Option Nat := links.parents.get? entity

def IsChild (links : Links) (entity : Nat) : Prop := entity ∈ links.parents

instance (links : Links) (entity : Nat) : Decidable (links.IsChild entity) :=
  inferInstanceAs (Decidable (entity ∈ links.parents))

theorem parentOf_eq_none_iff (links : Links) (entity : Nat) :
    links.parentOf entity = none ↔ ¬ links.IsChild entity :=
  Table.not_mem_iff.symm

/-- The isolated entities of a parent, ascending. -/
def childrenOf (links : Links) (parent : Nat) : List Nat := (links.children.of parent).keys

theorem childrenOf_ascending (links : Links) (parent : Nat) :
    (links.childrenOf parent).Pairwise (· < ·) :=
  Table.keys_ascending _

def size (links : Links) : Nat := links.parents.size

/-- Why the entity cannot become a child of the parent, if it cannot. -/
def refusal? (links : Links) (parent child : Nat) : Option IsolationFault :=
  if parent = child then some .ownChild
  else if links.IsChild parent then some .parentIsolated
  else if child ∈ links.children then some .hasChildren
  else none

/-- The sets of children with the child in none but perhaps the parent's. -/
def released (links : Links) (parent child : Nat) : ChildSets :=
  match links.parentOf child with
  | some former =>
    if former = parent then links.children else links.children.detach former child
  | none => links.children

/-- Puts the child under the parent, away from any former one. -/
def link (links : Links) (parent child : Nat) : Links where
  parents := links.parents.insert child parent
  children := (links.released parent child).attach parent child

/-- Makes the child an entity of its own again. -/
def unlink (links : Links) (child : Nat) : Links :=
  match links.parentOf child with
  | some parent => ⟨links.parents.erase child, links.children.detach parent child⟩
  | none => links

/-- Puts the child under the parent and returns its former one, unless that is refused. -/
def add (links : Links) (parent child : Nat) : Except Fault (Links × Option Nat) :=
  match links.refusal? parent child with
  | some reason => .error (.isolation parent child reason)
  | none => .ok (links.link parent child, links.parentOf child)

/-- Makes the child an entity of its own again and returns its parent, if it had one. -/
def remove (links : Links) (child : Nat) : Links × Option Nat :=
  (links.unlink child, links.parentOf child)

/-- The two ends tell the same, and nobody has an empty set of children. -/
structure Sound (links : Links) : Prop where
  linked : ∀ parent child,
    child ∈ links.children.of parent ↔ links.parentOf child = some parent
  noneEmpty : links.children.NoneEmpty

theorem sound_empty : Sound {} where
  linked parent child := by simp [ChildSets.of, parentOf, Table.mem_iff]
  noneEmpty parent members found := by simp at found

section Sound

variable {links : Links}

theorem parentOf_link (links : Links) (parent child other : Nat) :
    (links.link parent child).parentOf other =
      if other = child then some parent else links.parentOf other :=
  Table.get?_insert _ _ _ _

theorem parentOf_unlink (links : Links) (child other : Nat) :
    (links.unlink child).parentOf other =
      if other = child then none else links.parentOf other := by
  unfold unlink
  cases found : links.parentOf child with
  | some parent => exact Table.get?_erase _ _ _
  | none =>
    by_cases same : other = child
    · simpa [same] using found
    · simp [same]

/-- Away from any former parent, the child is at most in the set of the new one. -/
theorem Sound.mem_released (h : links.Sound) {parent child owner other : Nat} :
    other ∈ (links.released parent child).of owner ↔
      links.parentOf other = some owner ∧ (other = child → owner = parent) := by
  unfold released
  cases found : links.parentOf child with
  | none =>
    rw [h.linked]
    refine ⟨fun linked => ⟨linked, ?_⟩, And.left⟩
    rintro rfl
    rw [found] at linked
    contradiction
  | some former =>
    by_cases same : former = parent
    · subst same
      simp only [if_true, h.linked]
      refine ⟨fun linked => ⟨linked, ?_⟩, And.left⟩
      rintro rfl
      exact Option.some.inj (linked.symm.trans found)
    · simp only [if_neg same, ChildSets.mem_detach, h.linked]
      refine and_congr_right fun linked => ?_
      constructor
      · rintro apart rfl
        exact absurd ⟨Option.some.inj (linked.symm.trans found), rfl⟩ apart
      · rintro apart ⟨rfl, rfl⟩
        exact same (apart rfl)

theorem Sound.noneEmpty_released (h : links.Sound) (parent child : Nat) :
    (links.released parent child).NoneEmpty := by
  unfold released
  split
  · split
    · exact h.noneEmpty
    · exact h.noneEmpty.detach _ child
  · exact h.noneEmpty

theorem Sound.link (h : links.Sound) (parent child : Nat) : (links.link parent child).Sound where
  linked owner other := by
    have apart : other ∈ (links.link parent child).children.of owner ↔
        owner = parent ∧ other = child ∨ other ∈ (links.released parent child).of owner :=
      ChildSets.mem_attach
    rw [apart, h.mem_released, parentOf_link]
    by_cases same : other = child
    · subst same
      simp only [if_true, Option.some.injEq, and_true, true_implies]
      exact ⟨fun linked => (linked.elim id And.right).symm, fun eq => .inl eq.symm⟩
    · simp [same]
  noneEmpty := (h.noneEmpty_released parent child).attach parent child

theorem Sound.unlink (h : links.Sound) (child : Nat) : (links.unlink child).Sound := by
  refine ⟨fun owner other => ?_, ?_⟩
  · rw [parentOf_unlink]
    unfold Links.unlink
    cases found : links.parentOf child with
    | none =>
      rw [h.linked]
      split
      next same => simp [same, found]
      next => rfl
    | some parent =>
      simp only [ChildSets.mem_detach, h.linked]
      by_cases same : other = child
      · subst same
        simp [found, eq_comm]
      · simp [same]
  · unfold Links.unlink
    split
    · exact h.noneEmpty.detach _ child
    · exact h.noneEmpty

theorem Sound.add (h : links.Sound) {parent child : Nat} {added : Links × Option Nat}
    (accepted : links.add parent child = .ok added) : added.1.Sound := by
  unfold Links.add at accepted
  split at accepted
  · contradiction
  · cases accepted
    exact h.link parent child

end Sound

end Links

/-- Links that are sound from the start and stay so. -/
structure Isolation extends Links where
  sound : toLinks.Sound := by exact Links.sound_empty
deriving DecidableEq, Repr

namespace Isolation

/-- The entity that answers for usage and holds: the parent of an isolated entity, else itself. -/
def ownerOf (isolation : Isolation) (entity : Nat) : Nat := (isolation.parentOf entity).getD entity

def add (isolation : Isolation) (parent child : Nat) : Except Fault (Isolation × Option Nat) :=
  match accepted : isolation.toLinks.add parent child with
  | .error fault => .error fault
  | .ok (links, former) => .ok (⟨links, isolation.sound.add accepted⟩, former)

def remove (isolation : Isolation) (child : Nat) : Isolation × Option Nat :=
  (⟨(isolation.toLinks.remove child).1, isolation.sound.unlink child⟩,
    (isolation.toLinks.remove child).2)

/-- The isolation with the child under the parent, away from any former one. -/
def put (isolation : Isolation) (parent child : Nat) : Isolation :=
  ⟨isolation.link parent child, isolation.sound.link parent child⟩

/-- The isolation with the child an entity of its own. -/
def free (isolation : Isolation) (child : Nat) : Isolation :=
  ⟨isolation.unlink child, isolation.sound.unlink child⟩

theorem add_eq (isolation : Isolation) (parent child : Nat) :
    isolation.add parent child =
      match isolation.refusal? parent child with
      | some reason => .error (.isolation parent child reason)
      | none => .ok (isolation.put parent child, isolation.parentOf child) := by
  unfold add
  split
  next fault refused =>
    unfold Links.add at refused
    split at refused
    · cases refused
      rfl
    · contradiction
  next links former accepted =>
    unfold Links.add at accepted
    split at accepted
    · contradiction
    · cases accepted
      rfl

theorem mem_childrenOf (isolation : Isolation) (parent child : Nat) :
    child ∈ isolation.childrenOf parent ↔ isolation.parentOf child = some parent := by
  rw [Links.childrenOf, Table.mem_keys]
  exact isolation.sound.linked parent child

end Isolation

end UsageLedger
