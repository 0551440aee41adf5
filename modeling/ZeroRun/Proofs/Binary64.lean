import Mathlib
import ZeroRun.Decimal.Binary64

/-! Which whole numbers have a nearest floating-point number. The largest floating-point number is
`2 ^ 1024 - 2 ^ 971`; from the middle between it and `2 ^ 1024` on, a whole number would be rounded
to `2 ^ 1024`, which is out of range. -/
namespace ZeroRun.Binary64

/-- The least magnitude of a whole number that is out of range. -/
def overflowBound : Nat :=
  2 ^ 1024 - 2 ^ 970

theorem overflowBound_eq : overflowBound = (2 ^ 54 - 1) * 2 ^ 970 := by
  rw [overflowBound, show 1024 = 54 + 970 from rfl, Nat.pow_add]
  omega

theorem scaled_of_nonneg (num den power : Nat) : scaled num den power = (num * 2 ^ power, den) := by
  simp [scaled]

theorem scaled_of_neg (num den power : Nat) : scaled num den (-power) = (num, den * 2 ^ power) := by
  unfold scaled
  split
  · obtain rfl : power = 0 := by omega
    simp
  · simp

theorem scaled_one_of_neg_succ (num power : Nat) :
    scaled num 1 (-(power + 1 : Nat)) = (num, 2 * 2 ^ power) := by
  rw [scaled_of_neg, Nat.one_mul, Nat.pow_succ']

/-- An even number `m` is what the quotients from `m - 1 / 2` on are rounded to. -/
theorem roundHalfEven_eq_iff {num half m : Nat} (positive : 0 < half) (even : m % 2 = 0)
    (below : num < m * (2 * half)) :
    roundHalfEven num (2 * half) = m ↔ m * (2 * half) ≤ num + half := by
  have parts := Nat.div_add_mod num (2 * half)
  have rest := Nat.mod_lt num (show 0 < 2 * half by omega)
  have smaller : num / (2 * half) < m := Nat.div_lt_of_lt_mul (by rwa [Nat.mul_comm])
  obtain ⟨k, reaches⟩ := Nat.exists_eq_add_of_lt smaller
  have whole : m * (2 * half) = 2 * half * (num / (2 * half)) + (k * (2 * half) + 2 * half) := by
    rw [reaches]
    ring
  dsimp only [roundHalfEven]
  rw [whole]
  rcases Nat.eq_zero_or_pos k with rfl | further
  · split
    · omega
    · split <;> omega
  · -- Two steps away the quotient cannot be rounded to `m`.
    have far : 2 * half ≤ k * (2 * half) := Nat.le_mul_of_pos_left _ further
    split
    · omega
    · split <;> omega

/-- Scaled to its leading bit, a whole number has 54 bits in front of the point. -/
theorem le_scaled_div {num : Nat} (positive : num ≠ 0) :
    2 ^ 53 ≤ (scaled num 1 (53 - num.log2 : Int)).1 / (scaled num 1 (53 - num.log2 : Int)).2 := by
  have least := Nat.log2_self_le positive
  rcases Nat.le_total num.log2 53 with small | large
  · rw [show (53 - num.log2 : Int) = ((53 - num.log2 : Nat) : Int) by omega, scaled_of_nonneg,
      Nat.div_one]
    calc 2 ^ 53 = 2 ^ num.log2 * 2 ^ (53 - num.log2) := by rw [← Nat.pow_add]; congr 1; omega
      _ ≤ num * 2 ^ (53 - num.log2) := Nat.mul_le_mul_right _ least
  · rw [show (53 - num.log2 : Int) = -((num.log2 - 53 : Nat) : Int) by omega, scaled_of_neg,
      Nat.one_mul, Nat.le_div_iff_mul_le (by positivity), ← Nat.pow_add]
    rwa [show 53 + (num.log2 - 53) = num.log2 by omega]

theorem ofRatio?_one_eq_none_iff {num : Nat} (positive : num ≠ 0) (negative : Bool) :
    ofRatio? negative num 1 = none ↔
      (971 : Int) < if roundHalfEven (scaled num 1 (52 - num.log2 : Int)).1
        (scaled num 1 (52 - num.log2 : Int)).2 = 2 ^ 53 then (num.log2 - 51 : Int) else num.log2 - 52 := by
  have quotient := le_scaled_div positive
  have one : Nat.log2 1 = 0 := by decide
  have lead : 2 * leadingBit = 2 ^ 53 := by decide
  have first : (num.log2 : Int) - ((0 : Nat) : Int) - 53 = -(53 - num.log2 : Int) := by omega
  have second : max minExponent (-(53 - num.log2 : Int) + 1) = -(52 - num.log2 : Int) := by
    unfold minExponent
    omega
  simp only [ofRatio?, if_neg positive, one, lead, first, neg_neg, if_neg (Nat.not_lt.2 quotient),
    second, maxExponent]
  have never : ∀ (exponent : Int) (x : Float),
      ((if 971 < exponent then none else some x) = none ↔ 971 < exponent) := by simp
  split
  · rw [never]
    dsimp only
    omega
  · rw [never]
    dsimp only
    omega

/-- The whole numbers without a nearest floating-point number. -/
theorem ofInt?_eq_none_iff {n : Int} : ofInt? n = none ↔ overflowBound ≤ n.natAbs := by
  have unit : 0 < 2 ^ 970 := by positivity
  have lower : 2 ^ 1023 = 2 ^ 53 * 2 ^ 970 := by rw [← Nat.pow_add]
  have upper : 2 ^ 1024 = 2 ^ 54 * 2 ^ 970 := by rw [← Nat.pow_add]
  rw [ofInt?, overflowBound_eq]
  generalize n.natAbs = num
  by_cases zero : num = 0
  · simp only [zero, ofRatio?, if_pos, reduceCtorEq, false_iff]
    omega
  rw [ofRatio?_one_eq_none_iff zero]
  rcases Nat.lt_trichotomy num.log2 1023 with below | last | above
  · have small := (Nat.log2_lt zero).1 below
    constructor
    · split <;> omega
    · omega
  · -- The numbers with the largest exponent are rounded to multiples of `2 ^ 971`.
    have top : scaled num 1 (52 - num.log2 : Int) = (num, 2 * 2 ^ 970) := by
      rw [last, show ((52 : Int) - (1023 : Nat)) = -((970 + 1 : Nat) : Int) by omega,
        scaled_one_of_neg_succ]
    have most := (Nat.log2_lt zero).1 (show num.log2 < 1024 by omega)
    rw [top, last]
    have rounded := roundHalfEven_eq_iff (m := 2 ^ 53) unit (by decide)
      (show num < 2 ^ 53 * (2 * 2 ^ 970) by omega)
    constructor
    · intro large
      split at large
      · next full => have := rounded.1 full; omega
      · omega
    · intro large
      rw [if_pos (rounded.2 (by omega))]
      omega
  · have large := (Nat.le_log2 zero).1 (show 1024 ≤ num.log2 by omega)
    constructor
    · omega
    · split <;> omega

end ZeroRun.Binary64
