import LiveDoc.Proofs.Binary64.OfInteger
import LiveDoc.Proofs.Evaluation.Operators
import LiveDoc.Proofs.Integer64

/-!
How integers are compared. Whether they are equal is told exactly. Their order is that of the
floating-point numbers nearest to them, which is the order of the integers except that two of them
with one nearest number count as equal; up to `2 ^ 53` there are none.
-/
namespace LiveDoc

open Fragment Binary64

namespace Fragment.CompareOp

/-- What the operator says about two integers, if it does not ask what is in something else. -/
def holds? (a b : Int) : CompareOp → Option Bool
  | equal => some (decide (a = b))
  | notEqual => some (decide (a ≠ b))
  | less => some (decide (a < b))
  | greater => some (decide (b < a))
  | lessEqual => some (decide (a ≤ b))
  | greaterEqual => some (decide (b ≤ a))
  | isIn => none
  | notIn => none

/-- An operator that asks for the order of its operands. -/
def asksForOrder : CompareOp → Bool
  | less | greater | lessEqual | greaterEqual => true
  | equal | notEqual | isIn | notIn => false

variable {a b : Int}

/-- Rounding changes what an operator says only where it makes different integers equal. -/
theorem holds?_nearest (op : CompareOp) (h : nearest a = nearest b → a = b) :
    op.holds? (nearest a) (nearest b) = op.holds? a b := by
  have hsame : nearest a = nearest b ↔ a = b := ⟨h, congrArg nearest⟩
  have hless := nearest_lt_iff h
  have hmore := nearest_lt_iff fun heq => (h heq.symm).symm
  cases op
  all_goals simp only [holds?, hsame, hless, hmore, ← Int.not_lt, ne_eq]

end Fragment.CompareOp

namespace Value

variable {x y : Float} {op : CompareOp} {v w : Value} {truth : Bool} {a b c d : Int}

theorem float_lt_iff : x < y ↔ x.toModel.unpack.compare y.toModel.unpack = some .lt := by
  change decide (x.toModel.unpack.lt y.toModel.unpack = true) = true ↔ _
  rw [decide_eq_true_iff, Float.Model.UnpackedFloat.lt, beq_iff_eq]

theorem float_beq_iff :
    (x == y) = true ↔ x.toModel.unpack.compare y.toModel.unpack = some .eq := by
  change (x.toModel.unpack.compare y.toModel.unpack == some .eq) = true ↔ _
  rw [beq_iff_eq]

/-- Converted integers are ordered as the integers that their numbers stand for. -/
theorem orderOfFloats_ofInt (ha : Integer64.fits a = true) (hb : Integer64.fits b = true) :
    orderOfFloats (Float.ofInt a) (Float.ofInt b) =
      some (Ord.compare (nearest a) (nearest b)) := by
  have hsmall := Integer64.natAbs_le_of_fits ha
  have hsmall' := Integer64.natAbs_le_of_fits hb
  have hleft := standsFor_ofInt (a := a) (by omega)
  have hright := standsFor_ofInt (a := b) (by omega)
  have hforth := hleft.compare_eq hright
  have hback := hright.compare_eq hleft
  unfold orderOfFloats
  simp only [float_lt_iff, float_beq_iff, hforth, hback, Option.some_inj]
  rcases lt_trichotomy (nearest a) (nearest b) with h | h | h
  · rw [compare_lt_iff_lt.mpr h]
    rfl
  · rw [compare_eq_iff_eq.mpr h]
    rfl
  · rw [compare_gt_iff_gt.mpr h, compare_lt_iff_lt.mpr h]
    rfl

/-- Where two values are ordered like two integers, an operator that asks for their order says what
it says about these. -/
theorem compare_of_order (horder : order op v w = .ok (some (Ord.compare c d)))
    (hop : op.asksForOrder = true) (htruth : op.holds? c d = some truth) :
    v.compare op w = .ok truth := by
  cases op with
  | equal => exact absurd hop (by decide)
  | notEqual => exact absurd hop (by decide)
  | isIn => exact absurd hop (by decide)
  | notIn => exact absurd hop (by decide)
  | less =>
    obtain rfl := Option.some_inj.mp htruth
    rw [compare, horder]
    refine congrArg Except.ok (Bool.eq_iff_iff.mpr ?_)
    rw [beq_iff_eq, Option.some_inj, compare_lt_iff_lt, decide_eq_true_iff]
  | greater =>
    obtain rfl := Option.some_inj.mp htruth
    rw [compare, horder]
    refine congrArg Except.ok (Bool.eq_iff_iff.mpr ?_)
    rw [beq_iff_eq, Option.some_inj, compare_gt_iff_gt, decide_eq_true_iff]
  | lessEqual =>
    obtain rfl := Option.some_inj.mp htruth
    rw [compare, horder]
    refine congrArg Except.ok (Bool.eq_iff_iff.mpr ?_)
    rw [Bool.or_eq_true, beq_iff_eq, beq_iff_eq, Option.some_inj, Option.some_inj,
      compare_lt_iff_lt, compare_eq_iff_eq, decide_eq_true_iff, Int.le_iff_lt_or_eq]
  | greaterEqual =>
    obtain rfl := Option.some_inj.mp htruth
    rw [compare, horder]
    refine congrArg Except.ok (Bool.eq_iff_iff.mpr ?_)
    rw [Bool.or_eq_true, beq_iff_eq, beq_iff_eq, Option.some_inj, Option.some_inj,
      compare_gt_iff_gt, compare_eq_iff_eq, decide_eq_true_iff, Int.le_iff_lt_or_eq, eq_comm]

/-- The order of integers is asked of the numbers nearest to them. -/
theorem compare_of_rounded (ha : Integer64.fits a = true) (hb : Integer64.fits b = true)
    (hop : op.asksForOrder = true) (htruth : op.holds? (nearest a) (nearest b) = some truth) :
    (int a).compare op (int b) = .ok truth :=
  compare_of_order (congrArg Except.ok (orderOfFloats_ofInt ha hb)) hop htruth

theorem equal_int (a b : Int) : (int a).equal (int b) = decide (a = b) := by
  rw [equal]
  rfl

/-- Whether integers are equal is asked of themselves. -/
theorem compare_of_exact (hop : op.asksForOrder = false) (htruth : op.holds? a b = some truth) :
    (int a).compare op (int b) = .ok truth := by
  cases op with
  | equal =>
    obtain rfl := Option.some_inj.mp htruth
    rw [compare, equal_int]
  | notEqual =>
    obtain rfl := Option.some_inj.mp htruth
    rw [compare, equal_int, decide_not]
  | less => exact absurd hop (by decide)
  | greater => exact absurd hop (by decide)
  | lessEqual => exact absurd hop (by decide)
  | greaterEqual => exact absurd hop (by decide)
  | isIn => exact absurd htruth nofun
  | notIn => exact absurd htruth nofun

end Value

variable {σ : Type} {h : Host σ} {env : Environment} {left right : Expr} {a b : Int}
  {s s₁ s₂ : σ}

/-- Comparing integers tells exactly whether they are equal, and of their order it tells the order
of the numbers nearest to them. This is the order of the integers for all operators exactly if the
two are told apart, which they are up to `2 ^ 53`. -/
theorem eval_compare_integers (ha : Integer64.fits a = true) (hb : Integer64.fits b = true)
    (hleft : left.eval h env s = .ok (.int a) s₁)
    (hright : right.eval h env s₁ = .ok (.int b) s₂) :
    (∀ op truth, op.asksForOrder = false → op.holds? a b = some truth →
      (Expr.compare left [(op, right)]).eval h env s = .ok (.bool truth) s₂) ∧
    (∀ op truth, op.asksForOrder = true → op.holds? (nearest a) (nearest b) = some truth →
      (Expr.compare left [(op, right)]).eval h env s = .ok (.bool truth) s₂) ∧
    ((∀ op truth, op.holds? a b = some truth →
      (Expr.compare left [(op, right)]).eval h env s = .ok (.bool truth) s₂) ↔
        (nearest a = nearest b → a = b)) ∧
    (a.natAbs ≤ 2 ^ 53 → b.natAbs ≤ 2 ^ 53 → nearest a = nearest b → a = b) := by
  have hexact (op : CompareOp) (truth : Bool) (hop : op.asksForOrder = false)
      (htruth : op.holds? a b = some truth) :
      (Expr.compare left [(op, right)]).eval h env s = .ok (.bool truth) s₂ :=
    eval_compare hleft hright (Value.compare_of_exact hop htruth)
  have hrounded (op : CompareOp) (truth : Bool) (hop : op.asksForOrder = true)
      (htruth : op.holds? (nearest a) (nearest b) = some truth) :
      (Expr.compare left [(op, right)]).eval h env s = .ok (.bool truth) s₂ :=
    eval_compare hleft hright (Value.compare_of_rounded ha hb hop htruth)
  refine ⟨hexact, hrounded, ⟨fun hall hsame => ?_, fun hapart op truth htruth => ?_⟩, ?_⟩
  · -- of two integers with one nearest number neither counts as the smaller one
    have hsmaller (op : CompareOp) (hop : op.asksForOrder = true)
        (hfalse : op.holds? (nearest a) (nearest b) = some false) :
        op.holds? a b ≠ some true := by
      intro htrue
      have heval := hrounded op false hop hfalse
      rw [hall op true htrue] at heval
      injection heval with hanswer
      exact absurd (Value.bool.inj hanswer) (by decide)
    rcases lt_trichotomy a b with hless | heq | hmore
    · refine absurd (congrArg some (decide_eq_true hless)) (hsmaller .less rfl ?_)
      exact congrArg some (decide_eq_false (by omega))
    · exact heq
    · refine absurd (congrArg some (decide_eq_true hmore)) (hsmaller .greater rfl ?_)
      exact congrArg some (decide_eq_false (by omega))
  · cases hop : op.asksForOrder with
    | false => exact hexact op truth hop htruth
    | true => exact hrounded op truth hop ((op.holds?_nearest hapart).trans htruth)
  · intro hsmall hsmall' hsame
    rw [nearest_of_natAbs_le hsmall, nearest_of_natAbs_le hsmall'] at hsame
    exact hsame

/-- The integer `2 ^ 53` and the next but one are told apart. -/
theorem eval_compare_integers_of_apart :
    Integer64.fits 9007199254740992 = true ∧ Integer64.fits 9007199254740994 = true ∧
      (Expr.constant (.int 9007199254740992)).eval grantingRecorder .initial .initial =
        .ok (.int 9007199254740992) .initial ∧
      (Expr.constant (.int 9007199254740994)).eval grantingRecorder .initial .initial =
        .ok (.int 9007199254740994) .initial ∧
      evalFirst (.compare (.constant (.int 9007199254740992))
        [(.less, .constant (.int 9007199254740994))]) = .ok (.bool true) .initial := by
  have hleft : (Expr.constant (.int 9007199254740992)).eval grantingRecorder .initial .initial =
      .ok (.int 9007199254740992) .initial := rfl
  have hright : (Expr.constant (.int 9007199254740994)).eval grantingRecorder .initial .initial =
      .ok (.int 9007199254740994) .initial := rfl
  obtain ⟨-, -, horder, -⟩ := eval_compare_integers rfl rfl hleft hright
  have hapart : nearest 9007199254740992 = nearest 9007199254740994 →
      (9007199254740992 : Int) = 9007199254740994 := by decide
  exact ⟨rfl, rfl, hleft, hright, horder.mpr hapart .less true rfl⟩

/-- Neither is `2 ^ 53` less than its successor nor greater, but they are not equal either. -/
theorem neighbours_not_ordered :
    (9007199254740992 : Int) < 9007199254740993 ∧
      evalFirst (.compare (.constant (.int 9007199254740992))
        [(.less, .constant (.int 9007199254740993))]) = .ok (.bool false) .initial ∧
      evalFirst (.compare (.constant (.int 9007199254740992))
        [(.equal, .constant (.int 9007199254740993))]) = .ok (.bool false) .initial ∧
      evalFirst (.compare (.constant (.int 9007199254740992))
        [(.greater, .constant (.int 9007199254740993))]) = .ok (.bool false) .initial :=
  ⟨by decide, rfl, rfl, rfl⟩

end LiveDoc
