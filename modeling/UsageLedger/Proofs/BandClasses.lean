import Mathlib.Tactic.ByContra
import Mathlib.Tactic.SplitIfs
import UsageLedger.Bands

/-!
The classes of importance codes. If the bounds of the bands increase, then from the first bound on
each process state has an interval of codes, and the intervals follow each other in the order of
importance. Only the interval of the cached state can be empty.
-/

namespace UsageLedger

/-- States of the same importance are the same. -/
theorem ProcState.rank_injective {s t : ProcState} (same : s.rank = t.rank) : s = t := by
  have rows : (Slot.known s).row = (Slot.known t).row := same
  exact Slot.known.inj (Slot.row_injective rows)

namespace Bands

/-- The last code, from the first bound on, that is too important for the state. -/
def floor (bands : Bands) : ProcState → Int
  | .top => bands.top - 1
  | .foregroundService => bands.top
  | .foreground => bands.foregroundService
  | .background => bands.foreground
  | .topSleeping => bands.background
  | .heavyWeight => bands.topSleeping
  | .cached => bands.heavyWeight

/-- The last code of the state. -/
def ceiling (bands : Bands) : ProcState → Int
  | .top => bands.top
  | .foregroundService => bands.foregroundService
  | .foreground => bands.foreground
  | .background => bands.background
  | .topSleeping => bands.topSleeping
  | .heavyWeight => bands.heavyWeight
  | .cached => bands.nonexistent - 1

variable {bands : Bands}

theorem Increasing.neighbours (h : bands.Increasing) :
    bands.top < bands.foregroundService ∧ bands.foregroundService < bands.foreground ∧
      bands.foreground < bands.background ∧ bands.background < bands.topSleeping ∧
      bands.topSleeping < bands.heavyWeight ∧ bands.heavyWeight < bands.nonexistent := by
  unfold Increasing at h
  simp only [Band.all, List.pairwise_cons, List.forall_mem_cons, bound] at h
  omega

/-- The intervals of two states do not meet, and the one of the more important state comes first. -/
theorem Increasing.ceiling_le_floor (h : bands.Increasing) {s t : ProcState}
    (before : s.rank < t.rank) : bands.ceiling s ≤ bands.floor t := by
  have := h.neighbours
  cases s <;> cases t <;> simp only [ProcState.rank, ceiling, floor] at before ⊢ <;> omega

theorem classify_eq_none_iff (bands : Bands) (code : Int) :
    bands.classify code = none ↔ bands.nonexistent ≤ code := by
  unfold classify
  split_ifs <;> simp_all

theorem classify_isSome {code : Int} (exist : code < bands.nonexistent) :
    ∃ state, bands.classify code = some state := by
  apply Option.ne_none_iff_exists'.mp
  rw [Ne, classify_eq_none_iff]
  omega

/-- Codes before the first bound are no more important than the second band. -/
theorem Increasing.classify_of_lt (h : bands.Increasing) {code : Int} (below : code < bands.top) :
    bands.classify code = some .foregroundService := by
  have := h.neighbours
  rw [classify, if_neg (by omega), if_neg (by omega), if_pos (by omega)]

/-- A code lies in the interval of its state. -/
theorem mem_interval_of_classify {code : Int} {state : ProcState} (low : bands.top ≤ code)
    (found : bands.classify code = some state) :
    bands.floor state < code ∧ code ≤ bands.ceiling state := by
  unfold classify at found
  split_ifs at found <;> cases found <;> simp only [floor, ceiling] <;> omega

theorem Increasing.floor_bounds (h : bands.Increasing) (state : ProcState) :
    bands.top - 1 ≤ bands.floor state ∧ bands.ceiling state < bands.nonexistent := by
  have := h.neighbours
  cases state <;> simp only [floor, ceiling] <;> omega

/-- From the first bound on, the codes of a state are those of its interval. -/
theorem Increasing.classify_eq_some_iff (h : bands.Increasing) {code : Int} {state : ProcState}
    (low : bands.top ≤ code) : bands.classify code = some state ↔
      bands.floor state < code ∧ code ≤ bands.ceiling state := by
  refine ⟨mem_interval_of_classify low, fun inside => ?_⟩
  have exist : code < bands.nonexistent := by
    have := h.floor_bounds state
    omega
  obtain ⟨other, found⟩ := classify_isSome exist
  have within := mem_interval_of_classify low found
  rcases Nat.lt_trichotomy state.rank other.rank with earlier | same | later
  · have := h.ceiling_le_floor earlier
    omega
  · rw [found, ProcState.rank_injective same]
  · have := h.ceiling_le_floor later
    omega

/-- Less important codes are in no more important state. -/
theorem Increasing.rank_le_rank (h : bands.Increasing) {a b : Int} {s t : ProcState}
    (low : bands.top ≤ a) (le : a ≤ b) (first : bands.classify a = some s)
    (second : bands.classify b = some t) : s.rank ≤ t.rank := by
  by_contra less
  have apart := h.ceiling_le_floor (Nat.lt_of_not_le less)
  have above := (mem_interval_of_classify low first).1
  have below := (mem_interval_of_classify (Int.le_trans low le) second).2
  omega

theorem Increasing.floor_lt_ceiling_iff (h : bands.Increasing) (state : ProcState) :
    bands.floor state < bands.ceiling state ↔
      (state = .cached → bands.heavyWeight + 1 < bands.nonexistent) := by
  have := h.neighbours
  cases state <;> simp [floor, ceiling] <;> omega

/-- A state has a code from the first bound on if its interval is not empty. -/
theorem Increasing.exists_code_iff (h : bands.Increasing) (state : ProcState) :
    (∃ code, bands.top ≤ code ∧ code < bands.nonexistent ∧ bands.classify code = some state) ↔
      (state = .cached → bands.heavyWeight + 1 < bands.nonexistent) := by
  rw [← h.floor_lt_ceiling_iff]
  have bounds := h.floor_bounds state
  constructor
  · rintro ⟨code, low, -, found⟩
    have := mem_interval_of_classify low found
    omega
  · intro room
    have low : bands.top ≤ bands.ceiling state := by omega
    exact ⟨bands.ceiling state, low, bounds.2,
      (h.classify_eq_some_iff low).mpr ⟨room, Int.le_refl _⟩⟩

/-- Bands that are accepted sort the codes by importance, and none of them is dead. -/
theorem classify_sorts (bands : Bands) (accepted : bands.firstUnordered = none) :
    (∀ code, bands.classify code = none ↔ bands.nonexistent ≤ code) ∧
    (∀ a b, bands.top ≤ a → a ≤ b → b < bands.nonexistent →
      ∃ s t, bands.classify a = some s ∧ bands.classify b = some t ∧ s.rank ≤ t.rank) ∧
    (∀ code < bands.top, bands.classify code = some .foregroundService) ∧
    (∀ state ≠ .cached,
      ∃ code, bands.top ≤ code ∧ code < bands.nonexistent ∧ bands.classify code = some state) ∧
    ((∃ code, bands.classify code = some .cached) ↔ bands.heavyWeight + 1 < bands.nonexistent) := by
  have increasing := bands.firstUnordered_eq_none_iff.mp accepted
  refine ⟨bands.classify_eq_none_iff, ?_, fun code => increasing.classify_of_lt, ?_, ?_⟩
  · intro a b low le exist
    obtain ⟨s, first⟩ := classify_isSome (Int.lt_of_le_of_lt le exist)
    obtain ⟨t, second⟩ := classify_isSome exist
    exact ⟨s, t, first, second, increasing.rank_le_rank low le first second⟩
  · intro state named
    exact (increasing.exists_code_iff state).mpr fun same => absurd same named
  · have room := increasing.exists_code_iff .cached
    rw [imp_iff_right rfl] at room
    rw [← room]
    constructor
    · rintro ⟨code, found⟩
      have exist : code < bands.nonexistent := by
        rw [← Int.not_le, ← classify_eq_none_iff, found]
        exact Option.some_ne_none _
      have low : bands.top ≤ code := by
        by_contra below
        rw [increasing.classify_of_lt (Int.not_le.mp below)] at found
        cases found
      exact ⟨code, low, exist, found⟩
    · rintro ⟨code, -, -, found⟩
      exact ⟨code, found⟩

/-- Bands with negative codes, in which no code is left for the cached state. -/
def tight : Bands where
  top := -3
  foregroundService := 0
  foreground := 7
  background := 8
  topSleeping := 20
  heavyWeight := 21
  nonexistent := 22

theorem classify_sorts_tight : tight.firstUnordered = none ∧
    (∃ s t, tight.classify (-3) = some s ∧ tight.classify 19 = some t ∧ s.rank ≤ t.rank) ∧
    tight.classify (-4) = some .foregroundService ∧
    (∃ code, tight.top ≤ code ∧ code < tight.nonexistent ∧
      tight.classify code = some .heavyWeight) ∧
    ¬ ∃ code, tight.classify code = some .cached := by
  have accepted : tight.firstUnordered = none := by decide
  obtain ⟨-, ordered, below, occurs, cached⟩ := classify_sorts tight accepted
  refine ⟨accepted, ordered (-3) 19 (by decide) (by decide) (by decide), below (-4) (by decide),
    occurs .heavyWeight (by decide), ?_⟩
  rw [cached]
  decide

end Bands

end UsageLedger
