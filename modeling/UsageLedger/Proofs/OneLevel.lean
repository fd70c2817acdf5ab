import Mathlib.Data.List.Nodup
import UsageLedger.Isolation

namespace UsageLedger

namespace Links

/-- No entity is a parent and isolated at once. -/
def Flat (links : Links) : Prop :=
  ∀ child parent, links.parentOf child = some parent → ¬ links.IsChild parent

/-- The two relations differ in the parent of the child at most: afterwards it has this one. -/
structure Moves (before after : Links) (child : Nat) (parent : Option Nat) : Prop where
  parentOf (other : Nat) :
    after.parentOf other = if other = child then parent else before.parentOf other
  childrenOf (owner other : Nat) : other ∈ after.childrenOf owner ↔
    if other = child then parent = some owner else other ∈ before.childrenOf owner

section Links

variable {links : Links}

theorem Sound.mem_childrenOf (h : links.Sound) (parent child : Nat) :
    child ∈ links.childrenOf parent ↔ links.parentOf child = some parent := by
  rw [childrenOf, Table.mem_keys, h.linked]

theorem Sound.moves {after : Links} (h : links.Sound) (h' : after.Sound) {child : Nat}
    {parent : Option Nat} (parents : ∀ other,
      after.parentOf other = if other = child then parent else links.parentOf other) :
    links.Moves after child parent := by
  refine ⟨parents, fun owner other => ?_⟩
  rw [h'.mem_childrenOf, h.mem_childrenOf, parents]
  split <;> rfl

theorem isChild_link {parent child other : Nat} :
    (links.link parent child).IsChild other ↔ other = child ∨ links.IsChild other :=
  Table.mem_insert

theorem isChild_unlink {child other : Nat} :
    (links.unlink child).IsChild other ↔ other ≠ child ∧ links.IsChild other := by
  rw [← not_iff_not, ← parentOf_eq_none_iff, parentOf_unlink, not_and, ← parentOf_eq_none_iff]
  by_cases same : other = child
  · simp [same]
  · simp [same]

/-- The set of an entity tells whether it has children, since empty sets are not kept. -/
theorem Sound.mem_children_iff (h : links.Sound) (entity : Nat) :
    entity ∈ links.children ↔ links.childrenOf entity ≠ [] := by
  rw [h.noneEmpty.mem_iff, childrenOf, Ne, List.eq_nil_iff_forall_not_mem, not_forall_not]
  simp only [Table.mem_keys]

theorem Sound.refusal?_eq_none_iff (h : links.Sound) (parent child : Nat) :
    links.refusal? parent child = none ↔
      parent ≠ child ∧ links.parentOf parent = none ∧ links.childrenOf child = [] := by
  have childless : child ∉ links.children ↔ links.childrenOf child = [] := by
    rw [h.mem_children_iff, not_ne_iff]
  rw [links.parentOf_eq_none_iff, ← childless]
  unfold refusal?
  by_cases own : parent = child
  · simp [own]
  · by_cases isolated : links.IsChild parent
    · simp [own, isolated]
    · simp [own, isolated]

theorem add_eq_ok_iff {parent child : Nat} {added : Links × Option Nat} :
    links.add parent child = .ok added ↔ links.refusal? parent child = none ∧
      added = (links.link parent child, links.parentOf child) := by
  unfold add
  cases links.refusal? parent child with
  | some reason => simp
  | none => simp [eq_comm]

theorem add_eq_error_iff {parent child : Nat} {fault : Fault} :
    links.add parent child = .error fault ↔ ∃ reason,
      links.refusal? parent child = some reason ∧ fault = .isolation parent child reason := by
  unfold add
  cases links.refusal? parent child with
  | some reason => simp [eq_comm]
  | none => simp

theorem refused_iff {parent child : Nat} :
    (∃ fault, links.add parent child = .error fault) ↔ links.refusal? parent child ≠ none := by
  simp only [add_eq_error_iff, Option.ne_none_iff_exists']
  exact ⟨fun ⟨_, reason, refused, _⟩ => ⟨reason, refused⟩,
    fun ⟨reason, refused⟩ => ⟨_, reason, refused, rfl⟩⟩

theorem Flat.link (h : links.Flat) (sound : links.Sound) {parent child : Nat}
    (accepted : links.refusal? parent child = none) : (links.link parent child).Flat := by
  obtain ⟨apart, own, childless⟩ := (sound.refusal?_eq_none_iff parent child).mp accepted
  intro other owner found
  rw [parentOf_link] at found
  rw [← parentOf_eq_none_iff, parentOf_link]
  split at found
  · cases found
    rw [if_neg apart, own]
  · -- The child has no children of its own, so it is not the owner of the other one.
    have ne : owner ≠ child := by
      rintro rfl
      have mem := (sound.mem_childrenOf owner other).mpr found
      rw [childless] at mem
      exact absurd mem List.not_mem_nil
    rw [if_neg ne]
    exact (links.parentOf_eq_none_iff owner).mpr (h other owner found)

theorem Flat.unlink (h : links.Flat) (child : Nat) : (links.unlink child).Flat := by
  intro other owner found
  rw [parentOf_unlink] at found
  rw [← parentOf_eq_none_iff, parentOf_unlink]
  split at found
  · contradiction
  · split
    · rfl
    · exact (links.parentOf_eq_none_iff owner).mpr (h other owner found)

end Links

end Links

/-- What the relation can be told. -/
inductive LinkCall where
  | add (parent child : Nat)
  | remove (child : Nat)
deriving DecidableEq, Repr

namespace Links

/-- The relation after a call. A refused one changes nothing. -/
def step (links : Links) : LinkCall → Links
  | .add parent child =>
    match links.add parent child with
    | .ok (after, _) => after
    | .error _ => links
  | .remove child => (links.remove child).1

def run (links : Links) (calls : List LinkCall) : Links := calls.foldl step links

/-- The two ends tell the same, and the relation is one level deep. -/
structure Regular (links : Links) : Prop where
  sound : links.Sound
  flat : links.Flat

variable {links : Links}

theorem Regular.step (h : links.Regular) (call : LinkCall) : (links.step call).Regular := by
  cases call with
  | add parent child =>
    simp only [Links.step, Links.add]
    cases accepted : links.refusal? parent child with
    | some reason => exact h
    | none => exact ⟨h.sound.link parent child, h.flat.link h.sound accepted⟩
  | remove child => exact ⟨h.sound.unlink child, h.flat.unlink child⟩

theorem regular_run (calls : List LinkCall) : (run {} calls).Regular := by
  apply List.foldlRecOn (motive := Regular)
  · exact ⟨sound_empty, fun child parent found => by simp [parentOf] at found⟩
  · exact fun links regular call _ => regular.step call

theorem Regular.childrenOf_of_isolated (h : links.Regular) {entity : Nat}
    (isolated : links.parentOf entity ≠ none) : links.childrenOf entity = [] := by
  apply List.eq_nil_iff_forall_not_mem.mpr
  intro child mem
  have own := h.flat child entity ((h.sound.mem_childrenOf entity child).mp mem)
  exact isolated ((links.parentOf_eq_none_iff entity).mpr own)

/-- The children of all parents together are those with a parent, each of them once. -/
theorem Regular.children_perm (h : links.Regular) :
    (links.children.keys.flatMap links.childrenOf).Perm links.parents.keys := by
  have listed (child parent : Nat) : child ∈ links.childrenOf parent ↔
      links.parentOf child = some parent := h.sound.mem_childrenOf parent child
  have distinct : (links.children.keys.flatMap links.childrenOf).Nodup := by
    apply List.nodup_flatMap.mpr
    refine ⟨fun parent _ => Table.keys_nodup _, ?_⟩
    apply links.children.keys_nodup.imp
    intro parent other ne child mem mem'
    rw [listed] at mem mem'
    exact ne (Option.some.inj (mem.symm.trans mem'))
  apply (List.perm_ext_iff_of_nodup distinct links.parents.keys_nodup).mpr
  intro child
  rw [List.mem_flatMap, Table.mem_keys, Table.mem_iff]
  constructor
  · rintro ⟨parent, -, mem⟩
    exact ⟨parent, (listed child parent).mp mem⟩
  · rintro ⟨parent, found⟩
    have mem := (listed child parent).mpr found
    refine ⟨parent, ?_, mem⟩
    rw [Table.mem_keys, h.sound.mem_children_iff]
    exact List.ne_nil_of_mem mem

/-- Whoever has lost the last of its children can be isolated like anybody else. -/
theorem Regular.add_of_childless (h : links.Regular) {parent entity : Nat} (ne : parent ≠ entity)
    (own : links.parentOf parent = none) (childless : links.childrenOf entity = []) :
    ∃ after, links.add parent entity = .ok (after, links.parentOf entity) := by
  have accepted := (h.sound.refusal?_eq_none_iff parent entity).mpr ⟨ne, own, childless⟩
  exact ⟨links.link parent entity, add_eq_ok_iff.mpr ⟨accepted, rfl⟩⟩

/-- In every state that calls lead to, both ends tell the same, no entity is a parent and a child,
children are listed in order, and the size is the number of children. A call is refused exactly if
it would make an entity its own child or the relation two levels deep, and otherwise moves its one
child. An entity that a call leaves without children can be isolated. -/
theorem one_level (calls : List LinkCall) :
    let links := run {} calls
    (∀ parent child, child ∈ links.childrenOf parent ↔ links.parentOf child = some parent) ∧
    (∀ entity, links.parentOf entity ≠ none → links.childrenOf entity = []) ∧
    (∀ parent, (links.childrenOf parent).Pairwise (· < ·)) ∧
    ((links.children.keys.flatMap links.childrenOf).Nodup ∧
      (∀ child, child ∈ links.children.keys.flatMap links.childrenOf ↔
        links.parentOf child ≠ none) ∧
      links.size = (links.children.keys.flatMap links.childrenOf).length) ∧
    (∀ parent child,
      ((∃ fault, links.add parent child = .error fault) ↔
        parent = child ∨ links.parentOf parent ≠ none ∨ links.childrenOf child ≠ []) ∧
      (∀ fault, links.add parent child = .error fault →
        (∃ reason, fault = .isolation parent child reason) ∧
        links.step (.add parent child) = links) ∧
      ∀ after former, links.add parent child = .ok (after, former) →
        former = links.parentOf child ∧ links.Moves after child (some parent)) ∧
    (∀ child, (links.remove child).2 = links.parentOf child ∧
      links.Moves (links.remove child).1 child none) ∧
    ∀ call entity, links.childrenOf entity ≠ [] → (links.step call).childrenOf entity = [] →
      ∀ parent, parent ≠ entity → (links.step call).parentOf parent = none →
        ∃ after, (links.step call).add parent entity =
          .ok (after, (links.step call).parentOf entity) := by
  intro links
  have regular : links.Regular := regular_run calls
  have perm := regular.children_perm
  refine ⟨regular.sound.mem_childrenOf, fun entity => regular.childrenOf_of_isolated,
    links.childrenOf_ascending, ⟨?_, ?_, ?_⟩, fun parent child => ⟨?_, ?_, ?_⟩, ?_, ?_⟩
  · exact perm.nodup_iff.mpr links.parents.keys_nodup
  · intro child
    rw [perm.mem_iff, Table.mem_keys]
    exact Option.isSome_iff_ne_none
  · rw [perm.length_eq, Table.keys, List.length_map]
    rfl
  · rw [refused_iff, Ne, regular.sound.refusal?_eq_none_iff]
    simp only [not_and_or, not_not, ne_eq]
  · intro fault refused
    obtain ⟨reason, -, eq⟩ := add_eq_error_iff.mp refused
    exact ⟨⟨reason, eq⟩, by simp only [step, refused]⟩
  · intro after former added
    obtain ⟨accepted, eq⟩ := add_eq_ok_iff.mp added
    cases eq
    exact ⟨rfl, regular.sound.moves (regular.sound.link parent child)
      (links.parentOf_link parent child)⟩
  · exact fun child => ⟨rfl, regular.sound.moves (regular.sound.unlink child)
      (links.parentOf_unlink child)⟩
  · intro call entity had childless parent ne own
    exact (regular.step call).add_of_childless ne own childless

/-- The only child of entity 1 moves to entity 2, under which entity 1 can then be put as well. -/
theorem one_level_lastChildMoved :
    let links := run {} [.add 1 10]
    links.childrenOf 1 = [10] ∧ (links.step (.add 2 10)).childrenOf 1 = [] ∧
      ∃ after, (links.step (.add 2 10)).add 2 1 = .ok (after, none) := by
  have childless : ((run {} [.add 1 10]).step (.add 2 10)).childrenOf 1 = [] := by decide +kernel
  have reusable := (one_level [.add 1 10]).2.2.2.2.2.2
  exact ⟨by decide +kernel, childless,
    reusable (.add 2 10) 1 (by decide +kernel) childless 2 (by decide) (by decide +kernel)⟩

end Links

end UsageLedger
