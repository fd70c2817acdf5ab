import Mathlib.Algebra.Ring.Nat
import UsageLedger.Measure

/-!
Measures, one frequency at a time: every operation on measures acts on each frequency for itself.
-/

namespace UsageLedger

namespace Measure

/-- The amount at one frequency; slots that are missing count as zero. -/
def amountAt (measure : Measure) (i : Nat) : Nat := measure.getD i 0

@[simp] theorem amountAt_nil (i : Nat) : amountAt [] i = 0 := rfl

theorem amountAt_eq_zero {measure : Measure} {i : Nat} (h : measure.length ≤ i) :
    amountAt measure i = 0 := by
  simp [amountAt, List.getD_eq_getElem?_getD, List.getElem?_eq_none h]

theorem amountAt_eq_getElem {measure : Measure} {i : Nat} (h : i < measure.length) :
    amountAt measure i = measure[i] := by
  simp [amountAt, List.getD_eq_getElem?_getD, h]

@[simp] theorem amountAt_add (a b : Measure) (i : Nat) :
    amountAt (add a b) i = amountAt a i + amountAt b i := by
  induction a generalizing b i with
  | nil => simp [add]
  | cons x a ih =>
    cases b with
    | nil => simp
    | cons y b =>
      cases i with
      | zero => rfl
      | succ i => exact ih b i

@[simp] theorem amountAt_since (level earlier : Measure) (i : Nat) :
    amountAt (since level earlier) i = amountAt level i - amountAt earlier i := by
  induction level generalizing earlier i with
  | nil => simp [since]
  | cons x level ih =>
    cases earlier with
    | nil => simp
    | cons y earlier =>
      cases i with
      | zero => rfl
      | succ i => exact ih earlier i

theorem amountAt_cap {delta room : Measure} (same : delta.length = room.length) (i : Nat) :
    amountAt (cap delta room) i = min (amountAt delta i) (amountAt room i) := by
  induction delta generalizing room i with
  | nil => simp [cap]
  | cons x delta ih =>
    cases room with
    | nil => simp at same
    | cons y room =>
      cases i with
      | zero => rfl
      | succ i => exact ih (by simpa using same) i

@[simp] theorem amountAt_zero (length i : Nat) : amountAt (zero length) i = 0 := by
  by_cases h : i < length <;> simp [amountAt, zero, List.getD_eq_getElem?_getD, h]

theorem IsZero.amountAt {measure : Measure} (h : measure.IsZero) (i : Nat) :
    measure.amountAt i = 0 := by
  by_cases bound : i < measure.length
  · rw [amountAt_eq_getElem bound]
    exact h _ (List.getElem_mem bound)
  · exact amountAt_eq_zero (by omega)

theorem ext_amountAt {a b : Measure} (length : a.length = b.length)
    (amounts : ∀ i, a.amountAt i = b.amountAt i) : a = b := by
  apply List.ext_getElem length
  intro i ha hb
  rw [← amountAt_eq_getElem ha, ← amountAt_eq_getElem hb, amounts i]

theorem length_zero (length : Nat) : (zero length).length = length := List.length_replicate

theorem since_self (level : Measure) : level.since level = zero level.length := by
  apply ext_amountAt
  · rw [length_since, length_zero]
  · intro i
    rw [amountAt_since, amountAt_zero, Nat.sub_self]

theorem cap_zero (length : Nat) (room : Measure) : (zero length).cap room = zero length := by
  induction length generalizing room with
  | zero => rfl
  | succ length ih =>
    cases room with
    | nil => rfl
    | cons x room =>
      have tail := ih room
      simp only [zero, List.replicate_succ, cap, Nat.zero_min] at tail ⊢
      rw [tail]

/-- The level lies nowhere below the earlier one. -/
def Covers (level earlier : Measure) : Prop := ∀ i, earlier.amountAt i ≤ level.amountAt i

instance (level earlier : Measure) : Decidable (level.Covers earlier) :=
  decidable_of_iff (∀ i < earlier.length, earlier.amountAt i ≤ level.amountAt i) <| by
    constructor
    · intro bounded i
      by_cases h : i < earlier.length
      · exact bounded i h
      · rw [amountAt_eq_zero (by omega)]
        exact Nat.zero_le _
    · exact fun covers i _ => covers i

protected theorem add_comm (a b : Measure) : add a b = add b a := by
  induction a generalizing b with
  | nil => simp [add]
  | cons x a ih =>
    cases b with
    | nil => simp [add]
    | cons y b => simp [add, ih, Nat.add_comm]

protected theorem add_assoc (a b c : Measure) : add (add a b) c = add a (add b c) := by
  induction a generalizing b c with
  | nil => simp [add]
  | cons x a ih =>
    cases b with
    | nil => simp [add]
    | cons y b =>
      cases c with
      | nil => simp [add]
      | cons z c => simp [add, ih, Nat.add_assoc]

protected theorem add_right_comm (a b c : Measure) : add (add a b) c = add (add a c) b := by
  rw [Measure.add_assoc, Measure.add_comm b c, ← Measure.add_assoc]

theorem amountAt_foldl_add (start : Measure) (parts : List Measure) (i : Nat) :
    amountAt (parts.foldl add start) i =
      amountAt start i + (parts.map fun part => amountAt part i).sum := by
  induction parts generalizing start with
  | nil => simp
  | cons part parts ih =>
    rw [List.foldl_cons, ih, amountAt_add, List.map_cons, List.sum_cons, Nat.add_assoc]

theorem amountAt_total (length : Nat) (parts : List Measure) (i : Nat) :
    amountAt (total length parts) i = (parts.map fun part => amountAt part i).sum := by
  rw [total, amountAt_foldl_add, amountAt_zero, Nat.zero_add]

theorem length_foldl_add {start : Measure} {parts : List Measure}
    (widths : ∀ part ∈ parts, part.length = start.length) :
    (parts.foldl add start).length = start.length := by
  induction parts generalizing start with
  | nil => rfl
  | cons part parts ih =>
    have head : (add start part).length = start.length := by
      rw [length_add, widths part List.mem_cons_self, Nat.max_self]
    rw [List.foldl_cons, ih, head]
    intro other mem
    rw [head]
    exact widths other (List.mem_cons_of_mem _ mem)

theorem length_total {length : Nat} {parts : List Measure}
    (widths : ∀ part ∈ parts, part.length = length) : (total length parts).length = length := by
  rw [total, length_foldl_add, length_zero]
  intro part mem
  rw [length_zero]
  exact widths part mem

/-- A sum may start with its first part. -/
theorem total_cons {length : Nat} {first : Measure} (width : first.length = length)
    (rest : List Measure) : total length (first :: rest) = rest.foldl add first := by
  have start : add (zero length) first = first := by
    apply ext_amountAt
    · rw [length_add, length_zero, width, Nat.max_self]
    · intro i
      rw [amountAt_add, amountAt_zero, Nat.zero_add]
  rw [total, List.foldl_cons, start]

/-- The order of the parts does not matter. -/
theorem total_perm (length : Nat) {parts others : List Measure} (h : parts.Perm others) :
    total length parts = total length others :=
  h.foldl_eq' (fun a _ b _ start => Measure.add_right_comm start a b) _

end Measure

end UsageLedger
