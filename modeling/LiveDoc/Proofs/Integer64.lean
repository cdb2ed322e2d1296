import LiveDoc.Integer64
import Mathlib.Algebra.Order.Field.Basic
import Mathlib.Data.Rat.Floor

/-!
Integers within 64 bits, and their division by a divisor that is not zero. The quotient rounded
toward zero and its remainder, which has the sign of the dividend, are corrected together: both are
changed exactly where the dividend stands on the other side of zero than the divisor and the
division leaves a rest. What comes out is the quotient rounded to the floor and the remainder that
belongs to it. Wherever the quotient fits that was rounded toward zero, both fit as well.
-/
namespace LiveDoc.Integer64

variable {a b n : Int}

theorem fits_iff : fits n = true ↔ least ≤ n ∧ n ≤ largest := by
  simp [fits]

theorem saturated_eq (n : Int) : saturated n = max least (min n largest) := by
  unfold saturated least largest
  split
  · omega
  · split
    · omega
    · omega

theorem natAbs_le_of_fits (h : fits n = true) : n.natAbs ≤ 2 ^ 63 := by
  obtain ⟨hleast, hlargest⟩ := fits_iff.mp h
  unfold least at hleast
  unfold largest at hlargest
  omega

theorem natAbs_tmod_lt (a : Int) (hb : b ≠ 0) : (a.tmod b).natAbs < b.natAbs := by
  rw [Int.natAbs_tmod]
  exact Nat.mod_lt _ (Int.natAbs_pos.mpr hb)

/-- A rest has the sign of the dividend. -/
theorem tmod_neg_iff (hrest : a.tmod b ≠ 0) : a.tmod b < 0 ↔ a < 0 := by
  constructor
  · intro hneg
    by_contra ha
    exact absurd (Int.tmod_nonneg b (Int.not_lt.mp ha)) (Int.not_le.mpr hneg)
  · intro ha
    have hopposite : 0 ≤ (-a).tmod b := Int.tmod_nonneg b (by omega)
    rw [Int.neg_tmod] at hopposite
    omega

/-- Quotient and remainder are corrected together. -/
theorem floor_cases (a b : Int) :
    ((a.tmod b = 0 ∨ (a < 0 ↔ b < 0)) ∧ floorQuotient a b = a.tdiv b ∧
      floorRemainder a b = a.tmod b) ∨
    (a.tmod b ≠ 0 ∧ ¬ (a < 0 ↔ b < 0) ∧ floorQuotient a b = a.tdiv b - 1 ∧
      floorRemainder a b = a.tmod b + b) := by
  by_cases hrest : a.tmod b = 0
  · left
    simp [floorQuotient, floorRemainder, hrest]
  · have hsign := tmod_neg_iff hrest
    by_cases hsame : a < 0 ↔ b < 0
    · left
      simp [floorQuotient, floorRemainder, hrest, hsign, hsame]
    · right
      simp [floorQuotient, floorRemainder, hrest, hsign, hsame]

theorem floorQuotient_mul_add (a b : Int) : floorQuotient a b * b + floorRemainder a b = a := by
  have hdivision := Int.tmod_add_tdiv_mul a b
  rcases floor_cases a b with ⟨-, hq, hr⟩ | ⟨-, -, hq, hr⟩
  · rw [hq, hr]
    omega
  · rw [hq, hr, Int.sub_mul]
    omega

theorem floorRemainder_of_pos (a : Int) (hb : 0 < b) :
    0 ≤ floorRemainder a b ∧ floorRemainder a b < b := by
  have hlt := natAbs_tmod_lt a (Int.ne_of_gt hb)
  rcases floor_cases a b with ⟨hsign, -, hr⟩ | ⟨hrest, hsign, -, hr⟩
  · rcases hsign with hzero | hsame
    · omega
    · have hnonneg := Int.tmod_nonneg b (a := a) (by omega)
      omega
  · have hneg := (tmod_neg_iff hrest).mpr (by omega)
    omega

theorem floorRemainder_of_neg (a : Int) (hb : b < 0) :
    b < floorRemainder a b ∧ floorRemainder a b ≤ 0 := by
  have hlt := natAbs_tmod_lt a (Int.ne_of_lt hb)
  rcases floor_cases a b with ⟨hsign, -, hr⟩ | ⟨hrest, hsign, -, hr⟩
  · rcases hsign with hzero | hsame
    · omega
    · by_cases hzero : a.tmod b = 0
      · omega
      · have hneg := (tmod_neg_iff hzero).mpr (by omega)
        omega
  · have hnonneg := Int.tmod_nonneg b (a := a) (by omega)
    omega

/-- The remainder has the sign of the divisor and is less than it. -/
theorem floorRemainder_bounds (a : Int) (hb : b ≠ 0) :
    (floorRemainder a b).natAbs < b.natAbs ∧
      (0 < b → 0 ≤ floorRemainder a b) ∧ (b < 0 → floorRemainder a b ≤ 0) := by
  rcases Int.lt_or_gt_of_ne hb with hneg | hpos
  · have hbounds := floorRemainder_of_neg a hneg
    omega
  · have hbounds := floorRemainder_of_pos a hpos
    omega

theorem floorQuotient_eq_floor (a : Int) (hb : b ≠ 0) :
    floorQuotient a b = ⌊(a : ℚ) / b⌋ := by
  have hdivision : (floorQuotient a b : ℚ) * b + floorRemainder a b = a := by
    exact_mod_cast floorQuotient_mul_add a b
  symm
  rw [Int.floor_eq_iff]
  rcases Int.lt_or_gt_of_ne hb with hneg | hpos
  · obtain ⟨hlower, hupper⟩ := floorRemainder_of_neg a hneg
    have hneg' : (b : ℚ) < 0 := by exact_mod_cast hneg
    have hlower' : (b : ℚ) < floorRemainder a b := by exact_mod_cast hlower
    have hupper' : (floorRemainder a b : ℚ) ≤ 0 := by exact_mod_cast hupper
    rw [le_div_iff_of_neg hneg', div_lt_iff_of_neg hneg', add_mul]
    constructor
    · linarith
    · linarith
  · obtain ⟨hlower, hupper⟩ := floorRemainder_of_pos a hpos
    have hpos' : (0 : ℚ) < b := by exact_mod_cast hpos
    have hlower' : (0 : ℚ) ≤ floorRemainder a b := by exact_mod_cast hlower
    have hupper' : (floorRemainder a b : ℚ) < b := by exact_mod_cast hupper
    rw [le_div_iff₀ hpos', div_lt_iff₀ hpos', add_mul]
    constructor
    · linarith
    · linarith

theorem floorRemainder_eq_sub (a : Int) (hb : b ≠ 0) :
    floorRemainder a b = a - ⌊(a : ℚ) / b⌋ * b := by
  rw [← floorQuotient_eq_floor a hb]
  have hdivision := floorQuotient_mul_add a b
  omega

theorem two_mul_natAbs_tdiv_le (a : Int) (hb : 2 ≤ b.natAbs) :
    2 * (a.tdiv b).natAbs ≤ a.natAbs := by
  have hhalf : a.natAbs / b.natAbs ≤ a.natAbs / 2 := Nat.div_le_div_left hb (by decide)
  have habs : (a.tdiv b).natAbs = a.natAbs / b.natAbs := Int.natAbs_tdiv a b
  omega

/-- The one quotient that does not fit is that of the least integer by `-1`. -/
theorem fits_tdiv_iff (ha : fits a = true) (hb : b ≠ 0) :
    fits (a.tdiv b) = true ↔ ¬ (a = least ∧ b = -1) := by
  have hbounds := fits_iff.mp ha
  rw [fits_iff]
  unfold least largest at *
  constructor
  · rintro ⟨-, hq⟩ ⟨hleast, hminus⟩
    subst hleast hminus
    exact absurd hq (by decide)
  · intro hother
    by_cases hone : b = 1
    · rw [hone, Int.tdiv_one]
      exact hbounds
    · by_cases hminus : b = -1
      · rw [hminus, Int.tdiv_neg, Int.tdiv_one]
        omega
      · have hhalf := two_mul_natAbs_tdiv_le a (b := b) (by omega)
        omega

theorem fits_floorRemainder (a : Int) (hb : b ≠ 0) (hfits : fits b = true) :
    fits (floorRemainder a b) = true := by
  have hbounds := fits_iff.mp hfits
  rw [fits_iff]
  unfold least largest at *
  rcases Int.lt_or_gt_of_ne hb with hneg | hpos
  · have hrest := floorRemainder_of_neg a hneg
    omega
  · have hrest := floorRemainder_of_pos a hpos
    omega

/-- A quotient that is corrected has at most half of the size of the dividend. -/
theorem fits_floorQuotient (ha : fits a = true) (hb : b ≠ 0) (hq : fits (a.tdiv b) = true) :
    fits (floorQuotient a b) = true := by
  rcases floor_cases a b with ⟨-, hquotient, -⟩ | ⟨hrest, -, hquotient, -⟩
  · rw [hquotient]
    exact hq
  · have hlt := natAbs_tmod_lt a hb
    have hhalf := two_mul_natAbs_tdiv_le a (b := b) (by omega)
    have hbounds := fits_iff.mp ha
    rw [hquotient, fits_iff]
    unfold least largest at *
    omega

end LiveDoc.Integer64
