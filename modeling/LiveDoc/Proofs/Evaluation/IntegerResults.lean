import LiveDoc.Proofs.Evaluation.Operators
import LiveDoc.Proofs.Value.Arithmetic

/-!
What becomes of expressions that compute with integers. A value that is an integer is the exact
result, and division by zero is reported where it happens and nowhere else. An overflow is reported
wherever the exact result does not fit, but also for a few operands whose exact result fits: the
least integer modulo `-1`, whose quotient does not fit, and powers of zero and the units whose
exponent is beyond the limit of exponents.
-/
namespace LiveDoc

open Fragment Evaluation Value

/-- The value is a 64-bit integer, or a truth value that counts as this integer. -/
def Fragment.Expr.HasInteger {σ : Type} (e : Expr) (h : Host σ) (env : Environment) (s : σ)
    (a : Int) (t : σ) : Prop :=
  Integer64.fits a = true ∧ ∃ v, e.eval h env s = .ok v t ∧ v.toInt? = some a

variable {σ : Type} {h : Host σ} {env : Environment} {left right : Expr} {a b : Int}
  {s s₁ s₂ : σ}

theorem eval_binary_of_integers (op : BinaryOp) (hleft : left.HasInteger h env s a s₁)
    (hright : right.HasInteger h env s₁ b s₂) :
    (Expr.binary op left right).eval h env s = settle (onIntegers op a b) s₂ := by
  obtain ⟨-, v, hv, ha⟩ := hleft
  obtain ⟨-, w, hw, hb⟩ := hright
  rw [eval_binary op hv hw, binary_of_integers op ha hb]

theorem eval_neg_of_integer (hleft : left.HasInteger h env s a s₁) :
    (Expr.unary .neg left).eval h env s = settle (integer (-a)) s₁ := by
  obtain ⟨-, v, hv, ha⟩ := hleft
  rw [eval_unary .neg hv, unary_neg_of_integer ha]

/-- Computing with integers is exact wherever it has an integer as its value. The quotient of `//`
is rounded to the floor, and the remainder of `%` belongs to it. -/
theorem eval_integers_exact (hleft : left.HasInteger h env s a s₁)
    (hright : right.HasInteger h env s₁ b s₂) :
    (∀ op n t, (Expr.binary op left right).eval h env s = .ok (.int n) t →
      exactResult? op a b = some n ∧ Integer64.fits n = true) ∧
    (∀ n t, (Expr.unary .neg left).eval h env s = .ok (.int n) t →
      n = -a ∧ Integer64.fits n = true) ∧
    (∀ r t, (Expr.binary .mod left right).eval h env s = .ok (.int r) t →
      r.natAbs < b.natAbs ∧ (0 < b → 0 ≤ r) ∧ (b < 0 → r ≤ 0)) ∧
    (∀ q r t t', (Expr.binary .floorDiv left right).eval h env s = .ok (.int q) t →
      (Expr.binary .mod left right).eval h env s = .ok (.int r) t' → a = q * b + r) ∧
    (∀ op, Raises ((Expr.binary op left right).eval h env s) "ZeroDivisionError" ↔
      (op = .div ∨ op = .floorDiv ∨ op = .mod) ∧ b = 0) ∧
    ¬ Raises ((Expr.unary .neg left).eval h env s) "ZeroDivisionError" ∧
    (b ≠ 0 → Integer64.fits (a.tdiv b) = true →
      Integer64.fits (Integer64.floorQuotient a b) = true ∧
        Integer64.fits (Integer64.floorRemainder a b) = true) := by
  have ha := hleft.1
  have hb := hright.1
  have hbinary (op : BinaryOp) :
      ∃ r, (Expr.binary op left right).eval h env s = settle r s₂ ∧ Computed op a b r :=
    ⟨_, eval_binary_of_integers op hleft hright, computed_onIntegers op ha hb⟩
  have hvalue {op : BinaryOp} {n : Int} {t : σ}
      (hn : (Expr.binary op left right).eval h env s = .ok (.int n) t) :
      exactResult? op a b = some n ∧ Integer64.fits n = true := by
    obtain ⟨r, heval, hcomputed⟩ := hbinary op
    rw [heval, settle_eq_ok_iff, hcomputed.int_iff] at hn
    exact ⟨hn.1.1, hn.1.2.1⟩
  refine ⟨fun op n t => hvalue, ?_, ?_, ?_, ?_, ?_, ?_⟩
  · intro n t hn
    rw [eval_neg_of_integer hleft, settle_eq_ok_iff, integer_eq_ok_iff] at hn
    obtain ⟨⟨hfits, hint⟩, -⟩ := hn
    obtain rfl := Value.int.inj hint
    exact ⟨rfl, hfits⟩
  · intro r t hr
    obtain ⟨hzero, hremainder⟩ := exactResult?_mod (hvalue hr).1
    rw [hremainder]
    exact Integer64.floorRemainder_bounds a hzero
  · intro q r t t' hq hr
    obtain ⟨-, hremainder⟩ := exactResult?_mod (hvalue hr).1
    obtain ⟨-, hquotient⟩ := exactResult?_floorDiv (hvalue hq).1
    rw [hremainder, hquotient, Integer64.floorQuotient_mul_add]
  · intro op
    obtain ⟨r, heval, hcomputed⟩ := hbinary op
    rw [heval, raises_settle_iff, hcomputed.zeroDivision_iff, BinaryOp.divides_iff]
  · rw [eval_neg_of_integer hleft, raises_settle_iff]
    rintro ⟨f, hf, hname⟩
    rw [integer_eq_error_iff] at hf
    rw [hf.2] at hname
    exact absurd hname (by decide)
  · intro hzero hquotient
    exact ⟨Integer64.fits_floorQuotient ha hzero hquotient,
      Integer64.fits_floorRemainder a hzero hb⟩

/-- The value of `-7 // 2` is the floor `-4`, that of `-7 % 2` is `1`. -/
theorem eval_integers_exact_of_signs :
    (Expr.unary .neg (.constant (.int 7))).HasInteger grantingRecorder .initial .initial (-7)
        .initial ∧
      (Expr.constant (.int 2)).HasInteger grantingRecorder .initial .initial 2 .initial ∧
      (-4 : Int) = ⌊((-7 : Int) : ℚ) / (2 : Int)⌋ ∧ (-7 : Int) = -4 * 2 + 1 := by
  have hleft : (Expr.unary .neg (.constant (.int 7))).HasInteger grantingRecorder .initial
      .initial (-7) .initial := ⟨rfl, .int (-7), rfl, rfl⟩
  have hright : (Expr.constant (.int 2)).HasInteger grantingRecorder .initial .initial 2
      .initial := ⟨rfl, .int 2, rfl, rfl⟩
  obtain ⟨hexact, -, -, hdivision, -⟩ := eval_integers_exact hleft hright
  have hquotient := (hexact .floorDiv (-4) .initial rfl).1
  refine ⟨hleft, hright, ?_, hdivision (-4) 1 .initial .initial rfl rfl⟩
  rw [exactResult?, if_neg (by decide)] at hquotient
  exact (Option.some_inj.mp hquotient).symm

/-- Wherever an exact result does not fit, an overflow is raised. An operation whose exact result
fits raises one only for the least integer modulo `-1` and for powers of zero and the units with an
exponent beyond the limit. -/
theorem eval_overflow_iff (hleft : left.HasInteger h env s a s₁)
    (hright : right.HasInteger h env s₁ b s₂) :
    (∀ op, Raises ((Expr.binary op left right).eval h env s) "OverflowError" ↔
      (∃ n, exactResult? op a b = some n ∧ Integer64.fits n = false) ∨
        (op = .mod ∧ a = Integer64.least ∧ b = -1) ∨
        (op = .pow ∧ a.natAbs ≤ 1 ∧ (exponentLimit : Int) < b)) ∧
    (Raises ((Expr.unary .neg left).eval h env s) "OverflowError" ↔
      Integer64.fits (-a) = false) := by
  have ha := hleft.1
  have hb := hright.1
  constructor
  · intro op
    rw [eval_binary_of_integers op hleft hright, raises_settle_iff,
      (computed_onIntegers op ha hb).overflow_iff, refused_or_lost_iff]
  · rw [eval_neg_of_integer hleft, raises_settle_iff]
    constructor
    · rintro ⟨f, hf, -⟩
      exact (integer_eq_error_iff.mp hf).1
    · intro hfits
      exact ⟨_, integer_of_not_fits hfits, rfl⟩

/-- The power `2 ** 63` is the first one that does not fit. -/
theorem eval_overflow_iff_of_power :
    (Expr.constant (.int 2)).HasInteger grantingRecorder .initial .initial 2 .initial ∧
      (Expr.constant (.int 63)).HasInteger grantingRecorder .initial .initial 63 .initial ∧
      Raises (evalFirst (.binary .pow (.constant (.int 2)) (.constant (.int 63))))
        "OverflowError" ∧
      ¬ Raises (evalFirst (.unary .neg (.constant (.int 2)))) "OverflowError" := by
  have hleft : (Expr.constant (.int 2)).HasInteger grantingRecorder .initial .initial 2
      .initial := ⟨rfl, .int 2, rfl, rfl⟩
  have hright : (Expr.constant (.int 63)).HasInteger grantingRecorder .initial .initial 63
      .initial := ⟨rfl, .int 63, rfl, rfl⟩
  obtain ⟨hbinary, hneg⟩ := eval_overflow_iff hleft hright
  refine ⟨hleft, hright, (hbinary .pow).mpr (.inl ⟨2 ^ 63, rfl, rfl⟩), ?_⟩
  intro hraises
  exact absurd (hneg.mp hraises) (by decide)

/-- The remainder of the least integer by `-1` is zero and the powers of one are one, but both
raise an overflow. -/
theorem overflow_of_small_results :
    exactResult? .mod Integer64.least (-1) = some 0 ∧ exactResult? .pow 1 4294967296 = some 1 ∧
      Raises (evalFirst (.binary .mod leastInteger (.unary .neg (.constant (.int 1)))))
        "OverflowError" ∧
      Raises (evalFirst (.binary .pow (.constant (.int 1)) (.constant (.int 4294967296))))
        "OverflowError" := by
  have hremainder : Integer64.least - ⌊(Integer64.least : ℚ) / (-1 : Int)⌋ * -1 = 0 := by
    rw [← Integer64.floorRemainder_eq_sub _ (by decide)]
    rfl
  refine ⟨?_, ?_, ⟨.integerOverflow, _, rfl, rfl⟩, ⟨.integerOverflow, _, rfl, rfl⟩⟩
  · rw [exactResult?, if_neg (by decide), hremainder]
  · rw [exactResult?, if_neg (by decide), one_pow]

end LiveDoc
