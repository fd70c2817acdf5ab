import UsageLedger.Proofs.JsonGrammar

/-!
Integers in JSON. Those that fit the type they are read as are read as written, and none of them
exceeds the range of numbers.
-/

namespace UsageLedger

open Text

namespace JsonNumber

/-- Rounding at most doubles a number. -/
theorem round53_le (n : Nat) : round53 n ≤ 2 * n := by
  unfold round53
  split
  · omega
  next large =>
    have nonzero : n ≠ 0 := by
      rintro rfl
      exact large (by decide)
    have unit : 1 <<< (n.log2 - 52) ≤ n := by
      rw [Nat.one_shiftLeft]
      exact Nat.le_trans (Nat.pow_le_pow_right (by omega) (Nat.sub_le _ _))
        (Nat.log2_self_le nonzero)
    have quotient : n / 1 <<< (n.log2 - 52) * 1 <<< (n.log2 - 52) ≤ n := Nat.div_mul_le_self _ _
    dsimp only
    split
    · rw [Nat.add_mul]
      omega
    · omega

/-- Digits that are appended to a number do not make it smaller. -/
theorem foldl_digits_le (digits : List Char) (n : Nat) :
    n ≤ digits.foldl (fun n c => 10 * n + digitValue c) n := by
  induction digits generalizing n with
  | nil => exact Nat.le_refl n
  | cons c digits ih =>
    rw [List.foldl_cons]
    exact Nat.le_trans (by omega) (ih _)

/-- All digits are appended if the number they give fits the significand. -/
theorem appendDigits_of_fits {digits : List Char} {n : Nat}
    (fits : digits.foldl (fun n c => 10 * n + digitValue c) n < 1 <<< 64) :
    appendDigits n digits =
      (digits.foldl (fun n c => 10 * n + digitValue c) n, digits.length) := by
  induction digits generalizing n with
  | nil => rfl
  | cons c digits ih =>
    rw [List.foldl_cons] at fits ⊢
    have first := Nat.lt_of_le_of_lt (foldl_digits_le digits _) fits
    simp only [appendDigits, if_pos first, ih fits, List.length_cons]

/-- Integers of 64 bits are in range. -/
theorem isFinite_of_whole {n : JsonNumber} (fraction : n.fraction = [])
    (exponent : n.exponent = none) (fits : n.whole < counterBound) : n.IsFinite := by
  have all : appendDigits 0 (decimal n.whole) = (n.whole, (decimal n.whole).length) := by
    have value : (decimal n.whole).foldl (fun n c => 10 * n + digitValue c) 0 = n.whole :=
      ofDigits_decimal n.whole
    rw [appendDigits_of_fits (by rw [value]; exact fits), value]
  have scale : n.scaled = (n.whole, 0) := by
    simp [scaled, all, fraction, exponent, appendDigits]
  have product : round53 n.whole * round53 (Nat.pow 10 (0 : Int).toNat) <
      (1 <<< 1024) - (1 <<< 970) := by
    have one : round53 (Nat.pow 10 (0 : Int).toNat) = 1 := rfl
    have doubled := round53_le n.whole
    have room : 2 * counterBound < (1 <<< 1024) - (1 <<< 970) := by decide
    rw [one, Nat.mul_one]
    omega
  unfold IsFinite
  rw [scale]
  exact .inr (.inr ⟨by decide, product⟩)

/-- An integer without fraction and exponent. -/
def ofInt (i : Int) : JsonNumber :=
  { negative := i < 0, whole := i.natAbs, fraction := [], exponent := none }

theorem toInt?_ofInt (i : Int) : (ofInt i).toInt? = some i := by
  unfold toInt? ofInt
  by_cases negative : i < 0
  · have nonzero : i.natAbs ≠ 0 := by omega
    simp only [negative, nonzero, ne_eq, not_true_eq_false, decide_true, and_false, or_self,
      if_false, if_true]
    congr 1
    omega
  · simp only [negative, ne_eq, not_true_eq_false, decide_false, Bool.false_eq_true, false_and,
      or_self, if_false]
    congr 1
    omega

end JsonNumber

namespace Json

def ofInt (i : Int) : Json := .number (.ofInt i)

theorem nat?_ofNat {bound n : Nat} (below : n < bound) : (Json.ofNat n).nat? bound = some n := by
  have integer : (JsonNumber.ofNat n).toInt? = some (.ofNat n) := by
    simp [JsonNumber.toInt?, JsonNumber.ofNat]
  simp only [nat?, Json.ofNat, integer, if_pos below]

theorem int32?_ofInt {i : Int} (low : -0x80000000 ≤ i) (high : i < 0x80000000) :
    (Json.ofInt i).int32? = some i := by
  simp [int32?, Json.ofInt, JsonNumber.toInt?_ofInt, Option.filter, low, high]

theorem counters?_ofNats {level : List Nat} (below : ∀ n ∈ level, n < counterBound) :
    (Json.ofNats level).counters? = some level := by
  unfold counters? Json.ofNats
  induction level with
  | nil => rfl
  | cons n level ih =>
    obtain ⟨head, tail⟩ := List.forall_mem_cons.mp below
    simp [nat?_ofNat head, ih tail]

theorem within_ofNat {n : Nat} (below : n < counterBound) (depth : Nat) :
    Within depth (.ofNat n) := by
  have finite : (JsonNumber.ofNat n).IsFinite := JsonNumber.isFinite_of_whole rfl rfl below
  cases depth <;> exact finite

theorem within_ofInt {i : Int} (below : i.natAbs < counterBound) (depth : Nat) :
    Within depth (.ofInt i) := by
  have finite : (JsonNumber.ofInt i).IsFinite := JsonNumber.isFinite_of_whole rfl rfl below
  cases depth <;> exact finite

theorem within_string (s : String) (depth : Nat) : Within depth (.string s) := by
  cases depth <;> trivial

theorem within_bool (value : Bool) (depth : Nat) : Within depth (.bool value) := by
  cases depth <;> trivial

theorem within_ofNats {level : List Nat} (below : ∀ n ∈ level, n < counterBound) (depth : Nat) :
    Within (depth + 1) (.ofNats level) := by
  intro item mem
  obtain ⟨n, listed, rfl⟩ := List.mem_map.mp mem
  exact within_ofNat (below n listed) depth

end Json

end UsageLedger
