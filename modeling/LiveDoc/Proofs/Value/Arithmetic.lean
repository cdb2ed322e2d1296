import LiveDoc.Proofs.Integer64
import LiveDoc.Value.Arithmetic

/-!
What the operators compute from two integers. The exact result is named without regard to its
size; a power with a negative exponent, a division and all that divides by zero have none among the
integers. An operation has its exact result where it fits and is not refused, and apart from a few
operands whose exact result would fit, only results are refused that do not fit.
-/
namespace LiveDoc

open Fragment (BinaryOp UnaryOp)

/-- Operators that divide. -/
def Fragment.BinaryOp.divides : BinaryOp → Bool
  | .div => true
  | .floorDiv => true
  | .mod => true
  | _ => false

theorem Fragment.BinaryOp.divides_iff {op : BinaryOp} :
    op.divides = true ↔ op = .div ∨ op = .floorDiv ∨ op = .mod := by
  cases op <;> simp [divides]

namespace Value

/-- The result among the integers. The quotient of `/` is not looked for there. -/
def exactResult? : BinaryOp → Int → Int → Option Int
  | .add, a, b => some (a + b)
  | .sub, a, b => some (a - b)
  | .mul, a, b => some (a * b)
  | .div, _, _ => none
  | .floorDiv, a, b => if b = 0 then none else some ⌊(a : ℚ) / b⌋
  | .mod, a, b => if b = 0 then none else some (a - ⌊(a : ℚ) / b⌋ * b)
  | .pow, a, b => if b < 0 then none else some (a ^ b.toNat)

/-- Operands that are refused whatever their result is. -/
def refuses : BinaryOp → Int → Int → Bool
  | .mod, a, b => a == Integer64.least && b == -1
  | .pow, _, b => (exponentLimit : Int) < b
  | _, _, _ => false

variable {op : BinaryOp} {v w : Value} {a b n : Int}

theorem integer_of_fits (h : Integer64.fits n = true) : integer n = .ok (.int n) := by
  rw [integer, if_pos h]

theorem integer_of_not_fits (h : Integer64.fits n = false) :
    integer n = .error .integerOverflow := by
  rw [integer, h]
  rfl

theorem integer_eq_ok_iff : integer n = .ok v ↔ Integer64.fits n = true ∧ v = .int n := by
  cases h : Integer64.fits n with
  | true => simp [integer_of_fits h, eq_comm]
  | false => simp [integer_of_not_fits h]

theorem integer_eq_error_iff {f : Fault} :
    integer n = .error f ↔ Integer64.fits n = false ∧ f = .integerOverflow := by
  cases h : Integer64.fits n with
  | true => simp [integer_of_fits h]
  | false => simp [integer_of_not_fits h, eq_comm]

/-! ### Powers -/

/-- A shorter exponent of the same parity serves zero and the units as well. -/
theorem pow_shortExponent_of_unit (ha : a.natAbs ≤ 1) (k : Nat) : a ^ shortExponent k = a ^ k := by
  unfold shortExponent
  split
  · rfl
  · rename_i hk
    have hparity : k = (64 + k % 2) + 2 * ((k - 64) / 2) := by omega
    have hcases : a = 0 ∨ a = 1 ∨ a = -1 := by omega
    rcases hcases with rfl | rfl | rfl
    · rw [zero_pow (by omega), zero_pow (by omega)]
    · rw [one_pow, one_pow]
    · conv => rhs; rw [hparity, pow_add, pow_mul]
      simp

theorem not_fits_pow (ha : 2 ≤ a.natAbs) {k : Nat} (hk : 64 ≤ k) :
    Integer64.fits (a ^ k) = false := by
  have hbase : 2 ^ 64 ≤ a.natAbs ^ k :=
    calc 2 ^ 64 ≤ 2 ^ k := Nat.pow_le_pow_right (by decide) hk
      _ ≤ a.natAbs ^ k := Nat.pow_le_pow_left ha k
  rw [← Int.natAbs_pow] at hbase
  rw [Bool.eq_false_iff, ne_eq, Integer64.fits_iff]
  unfold Integer64.least Integer64.largest
  omega

theorem integer_pow_shortExponent (a : Int) (k : Nat) :
    integer (a ^ shortExponent k) = integer (a ^ k) := by
  by_cases ha : a.natAbs ≤ 1
  · rw [pow_shortExponent_of_unit ha]
  · by_cases hk : k ≤ 64
    · rw [shortExponent, if_pos hk]
    · have hshort : 64 ≤ shortExponent k := by
        rw [shortExponent, if_neg hk]
        omega
      rw [integer_of_not_fits (not_fits_pow (by omega) hshort),
        integer_of_not_fits (not_fits_pow (by omega) (by omega))]

/-! ### All operators -/

theorem integerPower_of_nonneg (a : Int) (hb : 0 ≤ b) :
    integerPower a b =
      if refuses .pow a b then .error .integerOverflow else integer (a ^ b.toNat) := by
  have hpower : integer (Int.pow a (shortExponent b.toNat)) = integer (a ^ b.toNat) :=
    integer_pow_shortExponent a b.toNat
  have hlimit : exponentLimit < b.toNat ↔ refuses .pow a b = true := by
    rw [refuses, decide_eq_true_iff]
    omega
  rw [integerPower, if_neg (Int.not_lt.mpr hb), hpower]
  simp only [hlimit]

theorem onIntegers_floorDiv (ha : Integer64.fits a = true) (hb : b ≠ 0) :
    onIntegers .floorDiv a b = integer ⌊(a : ℚ) / b⌋ := by
  rw [onIntegers, if_neg hb, ← Integer64.floorQuotient_eq_floor a hb]
  cases hquotient : Integer64.fits (a.tdiv b) with
  | true =>
    rw [integer_of_fits hquotient, integer_of_fits (Integer64.fits_floorQuotient ha hb hquotient)]
    rfl
  | false =>
    have hleast : a = Integer64.least ∧ b = -1 := by
      by_contra hother
      rw [(Integer64.fits_tdiv_iff ha hb).mpr hother] at hquotient
      cases hquotient
    obtain ⟨rfl, rfl⟩ := hleast
    rfl

theorem onIntegers_mod (ha : Integer64.fits a = true) (hfits : Integer64.fits b = true)
    (hb : b ≠ 0) :
    onIntegers .mod a b =
      if refuses .mod a b then .error .integerOverflow
      else integer (a - ⌊(a : ℚ) / b⌋ * b) := by
  have hrefused : refuses .mod a b = ! Integer64.fits (a.tdiv b) := by
    rw [Bool.eq_iff_iff, refuses, Bool.not_eq_true', Bool.eq_false_iff, ne_eq,
      Integer64.fits_tdiv_iff ha hb]
    simp
  rw [onIntegers, if_neg hb, ← Integer64.floorRemainder_eq_sub a hb, hrefused,
    integer_of_fits (Integer64.fits_floorRemainder a hb hfits)]
  cases hquotient : Integer64.fits (a.tdiv b) with
  | true =>
    rw [integer_of_fits hquotient]
    rfl
  | false =>
    rw [integer_of_not_fits hquotient]
    rfl

/-- An operation with a result among the integers. -/
theorem onIntegers_of_exact (ha : Integer64.fits a = true) (hb : Integer64.fits b = true)
    (hexact : exactResult? op a b = some n) :
    onIntegers op a b = if refuses op a b then .error .integerOverflow else integer n := by
  cases op with
  | add | sub | mul =>
    obtain rfl := Option.some_inj.mp hexact
    rfl
  | div => cases hexact
  | floorDiv =>
    obtain ⟨hzero, hn⟩ := Option.ite_none_left_eq_some.mp hexact
    obtain rfl := Option.some_inj.mp hn
    exact onIntegers_floorDiv ha hzero
  | mod =>
    obtain ⟨hzero, hn⟩ := Option.ite_none_left_eq_some.mp hexact
    obtain rfl := Option.some_inj.mp hn
    exact onIntegers_mod ha hb hzero
  | pow =>
    obtain ⟨hneg, hn⟩ := Option.ite_none_left_eq_some.mp hexact
    obtain rfl := Option.some_inj.mp hn
    exact integerPower_of_nonneg a (Int.not_lt.mp hneg)

theorem exactResult?_of_zero (a : Int) (hop : op.divides = true) :
    exactResult? op a 0 = none := by
  cases op with
  | add | sub | mul | pow => cases hop
  | div | floorDiv | mod => rfl

/-- What an operation on two integers may come to. -/
inductive Computed (op : BinaryOp) (a b : Int) : Except Fault Value → Prop where
  | exact {n : Int} : exactResult? op a b = some n → Integer64.fits n = true →
      refuses op a b = false → Computed op a b (.ok (.int n))
  | overflow {n : Int} : exactResult? op a b = some n →
      Integer64.fits n = false ∨ refuses op a b = true → Computed op a b (.error .integerOverflow)
  | float {x : Float} : exactResult? op a b = none → ¬ (op.divides = true ∧ b = 0) →
      Computed op a b (.ok (.float x))
  | zeroDivision : op.divides = true → b = 0 → Computed op a b (.error (.zeroDivisor op true))

theorem computed_of_inexact (hexact : exactResult? op a b = none) :
    Computed op a b (onIntegers op a b) := by
  cases op with
  | add | sub | mul => cases hexact
  | div =>
    by_cases hzero : b = 0
    · rw [onIntegers, if_pos hzero]
      exact .zeroDivision rfl hzero
    · rw [onIntegers, if_neg hzero]
      exact .float hexact fun h => hzero h.2
  | floorDiv | mod =>
    have hzero : b = 0 := by
      by_contra hzero
      rw [exactResult?, if_neg hzero] at hexact
      cases hexact
    rw [onIntegers, if_pos hzero]
    exact .zeroDivision rfl hzero
  | pow =>
    have hneg : b < 0 := by
      by_contra hneg
      rw [exactResult?, if_neg hneg] at hexact
      cases hexact
    rw [onIntegers, integerPower, if_pos hneg]
    exact .float hexact fun h => nomatch h.1

theorem computed_onIntegers (op : BinaryOp) (ha : Integer64.fits a = true)
    (hb : Integer64.fits b = true) : Computed op a b (onIntegers op a b) := by
  cases hexact : exactResult? op a b with
  | none => exact computed_of_inexact hexact
  | some n =>
    rw [onIntegers_of_exact ha hb hexact]
    cases hrefused : refuses op a b with
    | true => exact .overflow hexact (.inr hrefused)
    | false =>
      cases hfits : Integer64.fits n with
      | true =>
        rw [integer_of_fits hfits]
        exact .exact hexact hfits hrefused
      | false =>
        rw [integer_of_not_fits hfits]
        exact .overflow hexact (.inl hfits)

theorem Computed.int_iff {r : Except Fault Value} (hr : Computed op a b r) :
    r = .ok (.int n) ↔
      exactResult? op a b = some n ∧ Integer64.fits n = true ∧ refuses op a b = false := by
  cases hr with
  | @exact m hexact hfits hrefused =>
    rw [hexact, Except.ok.injEq, Value.int.injEq, Option.some_inj]
    constructor
    · rintro rfl
      exact ⟨rfl, hfits, hrefused⟩
    · exact And.left
  | @overflow m hexact hlost =>
    constructor
    · intro hint
      cases hint
    · rintro ⟨hn, hfits, hrefused⟩
      rw [hexact, Option.some_inj] at hn
      rw [hn, hfits, hrefused] at hlost
      simp at hlost
  | float hexact => simp [hexact]
  | zeroDivision hop hzero => simp [hzero, exactResult?_of_zero a hop]

theorem exists_error_iff {f : Fault} {exception : String} :
    (∃ g, (.error f : Except Fault Value) = .error g ∧ g.exception = exception) ↔
      f.exception = exception := by
  simp

theorem Computed.zeroDivision_iff {r : Except Fault Value} (hr : Computed op a b r) :
    (∃ f, r = .error f ∧ f.exception = "ZeroDivisionError") ↔ op.divides = true ∧ b = 0 := by
  have hexact (n : Int) (hn : exactResult? op a b = some n) : ¬ (op.divides = true ∧ b = 0) := by
    rintro ⟨hop, rfl⟩
    rw [exactResult?_of_zero a hop] at hn
    cases hn
  cases hr with
  | exact hn => simpa using hexact _ hn
  | overflow hn =>
    rw [exists_error_iff]
    exact iff_of_false (by decide) (hexact _ hn)
  | float _ hzero => simpa using hzero
  | zeroDivision hop hzero =>
    rw [exists_error_iff]
    exact iff_of_true rfl ⟨hop, hzero⟩

theorem Computed.overflow_iff {r : Except Fault Value} (hr : Computed op a b r) :
    (∃ f, r = .error f ∧ f.exception = "OverflowError") ↔
      ∃ n, exactResult? op a b = some n ∧
        (Integer64.fits n = false ∨ refuses op a b = true) := by
  cases hr with
  | exact hn hfits hrefused => simp [hn, hfits, hrefused]
  | overflow hn hlost =>
    rw [exists_error_iff]
    exact iff_of_true rfl ⟨_, hn, hlost⟩
  | float hexact => simp [hexact]
  | zeroDivision hop hzero =>
    rw [exists_error_iff, hzero, exactResult?_of_zero a hop]
    refine iff_of_false (by simp [Fault.exception]) ?_
    rintro ⟨n, hn, -⟩
    cases hn

/-- Operands are refused in vain only by `%` and by `**`, and by the latter only if the power is
that of zero or a unit, since all others do not fit. -/
theorem refused_or_lost_iff (op : BinaryOp) (a b : Int) :
    (∃ n, exactResult? op a b = some n ∧ (Integer64.fits n = false ∨ refuses op a b = true)) ↔
      (∃ n, exactResult? op a b = some n ∧ Integer64.fits n = false) ∨
        (op = .mod ∧ a = Integer64.least ∧ b = -1) ∨
        (op = .pow ∧ a.natAbs ≤ 1 ∧ (exponentLimit : Int) < b) := by
  constructor
  · rintro ⟨n, hn, hlost | hrefused⟩
    · exact .inl ⟨n, hn, hlost⟩
    · cases op with
      | add | sub | mul | div | floorDiv => cases hrefused
      | mod =>
        rw [refuses, Bool.and_eq_true, beq_iff_eq, beq_iff_eq] at hrefused
        exact .inr (.inl ⟨rfl, hrefused⟩)
      | pow =>
        rw [refuses, decide_eq_true_iff] at hrefused
        by_cases ha : a.natAbs ≤ 1
        · exact .inr (.inr ⟨rfl, ha, hrefused⟩)
        · obtain ⟨-, hpower⟩ := Option.ite_none_left_eq_some.mp hn
          refine .inl ⟨n, hn, ?_⟩
          rw [← Option.some_inj.mp hpower]
          unfold exponentLimit at hrefused
          exact not_fits_pow (by omega) (by omega)
  · rintro (⟨n, hn, hlost⟩ | ⟨rfl, rfl, rfl⟩ | ⟨rfl, -, hlimit⟩)
    · exact ⟨n, hn, .inl hlost⟩
    · exact ⟨_, rfl, .inr rfl⟩
    · have hnonneg : ¬ b < 0 := by
        unfold exponentLimit at hlimit
        omega
      exact ⟨a ^ b.toNat, if_neg hnonneg, .inr (decide_eq_true hlimit)⟩

theorem exactResult?_floorDiv (h : exactResult? .floorDiv a b = some n) :
    b ≠ 0 ∧ n = Integer64.floorQuotient a b := by
  obtain ⟨hzero, hn⟩ := Option.ite_none_left_eq_some.mp h
  refine ⟨hzero, ?_⟩
  rw [Integer64.floorQuotient_eq_floor a hzero, Option.some_inj.mp hn]

theorem exactResult?_mod (h : exactResult? .mod a b = some n) :
    b ≠ 0 ∧ n = Integer64.floorRemainder a b := by
  obtain ⟨hzero, hn⟩ := Option.ite_none_left_eq_some.mp h
  refine ⟨hzero, ?_⟩
  rw [Integer64.floorRemainder_eq_sub a hzero, Option.some_inj.mp hn]

/-- Truth values count as integers. -/
theorem binary_of_integers (op : BinaryOp) (hv : v.toInt? = some a) (hw : w.toInt? = some b) :
    binary op v w = onIntegers op a b := by
  have hnumbers : onNumbers op v w = onIntegers op a b := by
    rw [onNumbers, hv, hw]
  rw [← hnumbers]
  cases v with
  | int m | bool m =>
    cases w with
    | int k | bool k => cases op <;> rfl
    | _ => cases hw
  | _ => cases hv

theorem unary_neg_of_integer (hv : v.toInt? = some a) : unary .neg v = integer (-a) := by
  cases v with
  | int m | bool m =>
    obtain rfl := Option.some_inj.mp hv
    rfl
  | _ => cases hv

end Value

end LiveDoc
