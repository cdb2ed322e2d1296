import Mathlib.Algebra.GroupWithZero.Nat
import Mathlib.Data.Nat.Log

/-!
The floating-point number that stands for an integer. Its mantissa has 53 bits, so that an integer
keeps its first 53 bits and is rounded to the nearest such number, in the middle between two of
them to the one with an even mantissa. Rounding keeps the order of integers, but it makes
neighbours equal beyond `2 ^ 53`; up to there every integer stays as it is.
-/
namespace LiveDoc.Binary64

/-- The quotient by `2 ^ k` rounded to the nearest integer, in the middle to the even one. -/
def roundedShift (n k : Nat) : Nat :=
  if 2 * (n % 2 ^ k) < 2 ^ k then n / 2 ^ k
  else if 2 * (n % 2 ^ k) = 2 ^ k then n / 2 ^ k + n / 2 ^ k % 2
  else n / 2 ^ k + 1

/-- The number of bits beyond the first 53. -/
def excess (n : Nat) : Nat := n.log2 - 52

def nearestNat (n : Nat) : Nat := roundedShift n (excess n) * 2 ^ excess n

def nearest : Int → Int
  | .ofNat n => nearestNat n
  | .negSucc n => -(nearestNat (n + 1) : Int)

/-! ### Rounded quotients -/

theorem roundedShift_zero (n : Nat) : roundedShift n 0 = n := by
  simp [roundedShift, Nat.mod_one]

theorem roundedShift_bounds (n k : Nat) :
    n / 2 ^ k ≤ roundedShift n k ∧ roundedShift n k ≤ n / 2 ^ k + 1 := by
  unfold roundedShift
  split
  · omega
  · split
    · omega
    · omega

/-- Zeros behind the bits that are cut off do not count. -/
theorem roundedShift_mul_pow (n k j : Nat) :
    roundedShift (n * 2 ^ j) (k + j) = roundedShift n k := by
  have hpos : 0 < 2 ^ j := Nat.two_pow_pos j
  have hquotient : n * 2 ^ j / (2 ^ k * 2 ^ j) = n / 2 ^ k := Nat.mul_div_mul_right _ _ hpos
  have hrest : n * 2 ^ j % (2 ^ k * 2 ^ j) = n % 2 ^ k * 2 ^ j := Nat.mul_mod_mul_right _ _ _
  have hless : 2 * (n % 2 ^ k * 2 ^ j) < 2 ^ k * 2 ^ j ↔ 2 * (n % 2 ^ k) < 2 ^ k := by
    rw [← Nat.mul_assoc]
    exact Nat.mul_lt_mul_right hpos
  have hsame : 2 * (n % 2 ^ k * 2 ^ j) = 2 ^ k * 2 ^ j ↔ 2 * (n % 2 ^ k) = 2 ^ k := by
    rw [← Nat.mul_assoc]
    exact Nat.mul_left_inj (Nat.ne_of_gt hpos)
  unfold roundedShift
  rw [Nat.pow_add, hquotient, hrest]
  simp only [hless, hsame]

/-- Of two mantissas that differ by zeros behind them, with the shift that belongs to each, the same
is left. -/
theorem roundedShift_zeros (n : Nat) {i j k l : Nat} (h : k + j = l + i) :
    roundedShift (n * 2 ^ i) k = roundedShift (n * 2 ^ j) l := by
  rw [← roundedShift_mul_pow (n * 2 ^ i) k j, ← roundedShift_mul_pow (n * 2 ^ j) l i, h,
    Nat.mul_right_comm]

theorem roundedShift_mono {m n : Nat} (h : m ≤ n) (k : Nat) :
    roundedShift m k ≤ roundedShift n k := by
  have hquotient : m / 2 ^ k ≤ n / 2 ^ k := Nat.div_le_div_right h
  by_cases hsame : m / 2 ^ k = n / 2 ^ k
  · have hm := Nat.div_add_mod m (2 ^ k)
    have hn := Nat.div_add_mod n (2 ^ k)
    rw [hsame] at hm
    have hrest : m % 2 ^ k ≤ n % 2 ^ k := by omega
    unfold roundedShift
    rw [hsame]
    split_ifs
    all_goals omega
  · have hm := (roundedShift_bounds m k).2
    have hn := (roundedShift_bounds n k).1
    omega

/-! ### The nearest number -/

variable {m n : Nat}

/-- Every positive integer is a mantissa of 53 bits with its own exponent. -/
theorem nearestNat_mul_pow (n : Nat) :
    nearestNat n * 2 ^ 52 = roundedShift (n * 2 ^ 52) n.log2 * 2 ^ n.log2 := by
  unfold nearestNat excess
  by_cases hlog : n.log2 ≤ 52
  · have hshift : roundedShift (n * 2 ^ (52 - n.log2)) 0 = roundedShift (n * 2 ^ 52) n.log2 :=
      roundedShift_zeros n (by omega)
    rw [Nat.sub_eq_zero_of_le hlog, ← hshift, roundedShift_zero, roundedShift_zero, Nat.pow_zero,
      Nat.mul_one, Nat.mul_assoc, ← Nat.pow_add, Nat.sub_add_cancel hlog]
  · have hshift : roundedShift (n * 2 ^ 0) (n.log2 - 52) = roundedShift (n * 2 ^ 52) n.log2 :=
      roundedShift_zeros n (by omega)
    rw [Nat.pow_zero, Nat.mul_one] at hshift
    rw [hshift, Nat.mul_assoc, ← Nat.pow_add, Nat.sub_add_cancel (by omega)]

theorem mantissa_bounds (hn : n ≠ 0) :
    2 ^ 52 ≤ roundedShift (n * 2 ^ 52) n.log2 ∧ roundedShift (n * 2 ^ 52) n.log2 ≤ 2 ^ 53 := by
  have hpos : 0 < 2 ^ n.log2 := Nat.two_pow_pos _
  have hlower : 2 ^ 52 ≤ n * 2 ^ 52 / 2 ^ n.log2 := by
    rw [Nat.le_div_iff_mul_le hpos, Nat.mul_comm]
    exact Nat.mul_le_mul_right _ (Nat.log2_self_le hn)
  have hupper : n * 2 ^ 52 / 2 ^ n.log2 < 2 ^ 53 := by
    have hlog : n < 2 ^ n.log2 * 2 := Nat.lt_log2_self
    rw [Nat.div_lt_iff_lt_mul hpos]
    omega
  have hbounds := roundedShift_bounds (n * 2 ^ 52) n.log2
  omega

theorem nearestNat_bounds (hn : n ≠ 0) :
    2 ^ n.log2 ≤ nearestNat n ∧ nearestNat n ≤ 2 ^ (n.log2 + 1) := by
  obtain ⟨hlower, hupper⟩ := mantissa_bounds hn
  have hvalue := nearestNat_mul_pow n
  have hlower' := Nat.mul_le_mul_right (2 ^ n.log2) hlower
  have hupper' := Nat.mul_le_mul_right (2 ^ n.log2) hupper
  rw [Nat.pow_succ]
  omega

theorem nearestNat_zero : nearestNat 0 = 0 := rfl

theorem nearestNat_mono (h : m ≤ n) : nearestNat m ≤ nearestNat n := by
  by_cases hm : m = 0
  · rw [hm, nearestNat_zero]
    exact Nat.zero_le _
  · have hn : n ≠ 0 := by omega
    have hlog : m.log2 ≤ n.log2 := (Nat.le_log2 hn).mpr (Nat.le_trans (Nat.log2_self_le hm) h)
    by_cases hsame : m.log2 = n.log2
    · unfold nearestNat excess
      rw [hsame]
      exact Nat.mul_le_mul_right _ (roundedShift_mono h _)
    · calc nearestNat m ≤ 2 ^ (m.log2 + 1) := (nearestNat_bounds hm).2
        _ ≤ 2 ^ n.log2 := Nat.pow_le_pow_right (by decide) (by omega)
        _ ≤ nearestNat n := (nearestNat_bounds hn).1

theorem nearestNat_of_le (h : n ≤ 2 ^ 53) : nearestNat n = n := by
  by_cases hlast : n = 2 ^ 53
  · rw [hlast]
    decide
  · have hexcess : excess n = 0 := by
      unfold excess
      by_cases hzero : n = 0
      · rw [hzero]
        decide
      · have hlog : n.log2 < 53 := (Nat.log2_lt hzero).mpr (by omega)
        omega
    rw [nearestNat, hexcess, roundedShift_zero, Nat.pow_zero, Nat.mul_one]

theorem nearest_mono {a b : Int} (h : a ≤ b) : nearest a ≤ nearest b := by
  cases a with
  | ofNat m =>
    cases b with
    | ofNat n => exact Int.ofNat_le.mpr (nearestNat_mono (Int.ofNat_le.mp h))
    | negSucc n => exact absurd (Int.lt_of_le_of_lt h (Int.negSucc_lt_zero n)) (by simp)
  | negSucc m =>
    cases b with
    | ofNat n =>
      have hneg : -(nearestNat (m + 1) : Int) ≤ nearestNat n := by omega
      exact hneg
    | negSucc n =>
      have hless : n + 1 ≤ m + 1 := by omega
      exact Int.neg_le_neg (Int.ofNat_le.mpr (nearestNat_mono hless))

/-- Integers that are told apart keep their order. -/
theorem nearest_lt_iff {a b : Int} (h : nearest a = nearest b → a = b) :
    nearest a < nearest b ↔ a < b := by
  constructor
  · intro hless
    by_contra hother
    exact absurd (nearest_mono (Int.not_lt.mp hother)) (Int.not_le.mpr hless)
  · intro hless
    have hle := nearest_mono (Int.le_of_lt hless)
    have hne : nearest a ≠ nearest b := fun heq => absurd (h heq) (Int.ne_of_lt hless)
    omega

theorem nearest_of_natAbs_le {a : Int} (h : a.natAbs ≤ 2 ^ 53) : nearest a = a := by
  cases a with
  | ofNat n => exact congrArg Int.ofNat (nearestNat_of_le h)
  | negSucc n =>
    have hsame : nearestNat (n + 1) = n + 1 := nearestNat_of_le h
    rw [nearest, hsame]
    rfl

/-- Rounding makes no other integer equal to one below `2 ^ 53`. -/
theorem nearest_eq_iff {a b : Int} (hb : b.natAbs < 2 ^ 53) : nearest a = nearest b ↔ a = b := by
  have hsame : nearest b = b := nearest_of_natAbs_le (by omega)
  have hlast : nearest (2 ^ 53) = 2 ^ 53 := nearest_of_natAbs_le (by decide)
  have hfirst : nearest (-2 ^ 53) = -2 ^ 53 := nearest_of_natAbs_le (by decide)
  rw [hsame]
  rcases le_or_gt a.natAbs (2 ^ 53) with ha | ha
  · rw [nearest_of_natAbs_le ha]
  · rcases le_total 0 a with hsign | hsign
    · have hmore : nearest (2 ^ 53) ≤ nearest a := nearest_mono (by omega)
      omega
    · have hless : nearest a ≤ nearest (-2 ^ 53) := nearest_mono (by omega)
      omega

end LiveDoc.Binary64
