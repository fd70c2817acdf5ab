import UsageLedger.Proofs.Amount

namespace UsageLedger

namespace Measure

section Join

variable (a b c : Option Measure)

theorem join_none : join a none = a := by cases a <;> rfl

protected theorem join_comm : join a b = join b a := by
  cases a with
  | none => rw [join_none, join]
  | some a =>
    cases b with
    | none => rfl
    | some b => exact congrArg some (Measure.add_comm a b)

protected theorem join_assoc : join (join a b) c = join a (join b c) := by
  cases a with
  | none => rfl
  | some a =>
    cases b with
    | none => rfl
    | some b =>
      cases c with
      | none => rfl
      | some c => exact congrArg some (Measure.add_assoc a b c)

end Join

section Gain

variable (level earlier : Measure)

theorem fellBelow_iff_exists_slot :
    level.FellBelow earlier ↔
      ∃ (i : Nat) (_ : i < level.length) (_ : i < earlier.length), level[i] < earlier[i] := by
  induction level generalizing earlier with
  | nil => simp [FellBelow]
  | cons x level ih =>
    cases earlier with
    | nil => simp [FellBelow]
    | cons y earlier =>
      rw [FellBelow, ih]
      constructor
      · rintro (head | ⟨i, shown, known, fell⟩)
        · exact ⟨0, Nat.zero_lt_succ _, Nat.zero_lt_succ _, head⟩
        · exact ⟨i + 1, Nat.succ_lt_succ shown, Nat.succ_lt_succ known, fell⟩
      · rintro ⟨i, shown, known, fell⟩
        cases i with
        | zero => exact .inl fell
        | succ i =>
          exact .inr ⟨i, Nat.lt_of_succ_lt_succ shown, Nat.lt_of_succ_lt_succ known, fell⟩

variable {level earlier}

/-- Slots that the level lacks could not fall, so the earlier one must have no such slots. -/
theorem covers_iff_not_fellBelow (short : earlier.length ≤ level.length) :
    level.Covers earlier ↔ ¬level.FellBelow earlier := by
  rw [fellBelow_iff_exists_slot]
  constructor
  · rintro covers ⟨i, shown, known, fell⟩
    have above := covers i
    rw [amountAt_eq_getElem shown, amountAt_eq_getElem known] at above
    omega
  · intro kept i
    by_cases known : i < earlier.length
    · have shown : i < level.length := Nat.lt_of_lt_of_le known short
      rw [amountAt_eq_getElem shown, amountAt_eq_getElem known]
      exact Nat.le_of_not_lt fun fell => kept ⟨i, shown, known, fell⟩
    · rw [amountAt_eq_zero (Nat.le_of_not_lt known)]
      exact Nat.zero_le _

/-- Where the level fell, the earlier amount stays. -/
theorem amountAt_add_since (i : Nat) :
    (earlier.add (level.since earlier)).amountAt i =
      max (earlier.amountAt i) (level.amountAt i) := by
  rw [amountAt_add, amountAt_since]
  omega

theorem add_since_eq_iff :
    earlier.add (level.since earlier) = level ↔
      earlier.length ≤ level.length ∧ level.Covers earlier := by
  have length : (earlier.add (level.since earlier)).length = max earlier.length level.length := by
    rw [length_add, length_since]
  constructor
  · intro restored
    rw [restored] at length
    refine ⟨by omega, fun i => ?_⟩
    have slot := congrArg (amountAt · i) restored
    rw [amountAt_add_since] at slot
    omega
  · rintro ⟨short, covers⟩
    apply ext_amountAt
    · rw [length, Nat.max_eq_right short]
    · intro i
      rw [amountAt_add_since, Nat.max_eq_right (covers i)]

end Gain

/-- Measures that may be absent are added as in a commutative monoid. A gain is as long as the level
it leads to, and added to the earlier level it gives the later one back exactly if the earlier has
no more slots than the later and none of them fell. -/
theorem sums_and_gains :
    (∀ a b c : Option Measure,
      join a b = join b a ∧ join (join a b) c = join a (join b c) ∧
        join none a = a ∧ join a none = a) ∧
    ∀ earlier level : Measure,
      let gained := level.since earlier
      gained.length = level.length ∧
      (level.FellBelow earlier ↔
        ∃ (i : Nat) (_ : i < level.length) (_ : i < earlier.length), level[i] < earlier[i]) ∧
      (join (some earlier) (some gained) = some level ↔
        earlier.length ≤ level.length ∧ ¬level.FellBelow earlier) := by
  constructor
  · intro a b c
    exact ⟨Measure.join_comm a b, Measure.join_assoc a b c, rfl, join_none a⟩
  · intro earlier level gained
    refine ⟨length_since level earlier, fellBelow_iff_exists_slot level earlier, ?_⟩
    calc join (some earlier) (some gained) = some level
        ↔ earlier.add gained = level := Option.some_inj
      _ ↔ earlier.length ≤ level.length ∧ level.Covers earlier := add_since_eq_iff
      _ ↔ earlier.length ≤ level.length ∧ ¬level.FellBelow earlier :=
        and_congr_right covers_iff_not_fellBelow

/-- The second counter was reset, so its earlier amount stays. -/
example : join (some [5, 9]) (some (since [8, 3, 2] [5, 9])) = some [8, 9, 2] := by decide

end Measure

end UsageLedger
