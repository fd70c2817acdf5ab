/-!
Amounts of CPU time, one per frequency of the device. Missing slots count as zero, so amounts of
different lengths can be added and compared. Amounts stand for unsigned 64-bit counters and their
sums, which are taken not to overflow: that sums are guarded against overflow is not asked for.
-/

namespace UsageLedger

abbrev Measure := List Nat

namespace Measure

/-- Slot by slot, as long as the longer of the two. -/
def add : Measure → Measure → Measure
  | [], b => b
  | x :: a, [] => x :: a
  | x :: a, y :: b => (x + y) :: add a b

/-- The sum of two amounts of which either may be absent; absent only if both are. -/
def join : Option Measure → Option Measure → Option Measure
  | none, b => b
  | some a, none => some a
  | some a, some b => some (add a b)

/-- What was gained since the earlier level. A slot that fell gained nothing. -/
def since : Measure → Measure → Measure
  | [], _ => []
  | x :: level, [] => x :: level
  | x :: level, y :: earlier => (x - y) :: since level earlier

/-- Some slot lies below the earlier level, as after a counter reset. -/
def FellBelow : Measure → Measure → Prop
  | x :: level, y :: earlier => x < y ∨ FellBelow level earlier
  | _, _ => False

instance decidableFellBelow : (level earlier : Measure) → Decidable (FellBelow level earlier)
  | [], _ => .isFalse id
  | _ :: _, [] => .isFalse id
  | x :: level, y :: earlier =>
    have := decidableFellBelow level earlier
    inferInstanceAs (Decidable (x < y ∨ FellBelow level earlier))

/-- No slot exceeds its room; slots without room stay as they are. -/
def cap : Measure → Measure → Measure
  | [], _ => []
  | x :: delta, [] => x :: delta
  | x :: delta, y :: room => min x y :: cap delta room

def IsZero (m : Measure) : Prop := ∀ x ∈ m, x = 0

instance (m : Measure) : Decidable (IsZero m) := inferInstanceAs (Decidable (∀ x ∈ m, x = 0))

def zero (length : Nat) : Measure := List.replicate length 0

/-- The sum of several amounts, at least `length` slots long. -/
def total (length : Nat) (parts : List Measure) : Measure := parts.foldl add (zero length)

@[simp] theorem add_nil (a : Measure) : add a [] = a := by cases a <;> rfl

@[simp] theorem since_nil (level : Measure) : since level [] = level := by cases level <;> rfl

@[simp] theorem length_since (level earlier : Measure) :
    (since level earlier).length = level.length := by
  induction level generalizing earlier with
  | nil => rfl
  | cons x level ih => cases earlier <;> simp [since, ih]

@[simp] theorem length_cap (delta room : Measure) : (cap delta room).length = delta.length := by
  induction delta generalizing room with
  | nil => rfl
  | cons x delta ih => cases room <;> simp [cap, ih]

theorem length_add (a b : Measure) : (add a b).length = max a.length b.length := by
  induction a generalizing b with
  | nil => simp [add]
  | cons x a ih =>
    cases b with
    | nil => simp [add]
    | cons y b =>
      simp only [add, ih, List.length_cons]
      omega

end Measure

end UsageLedger
