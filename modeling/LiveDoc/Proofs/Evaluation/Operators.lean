import LiveDoc.Execution.Recorder
import LiveDoc.Proofs.Outcome

/-!
What an operator or a built-in function makes of operands that have values. The operands are
evaluated first, each in the state that the one before it has left; the operator itself leaves the
state as it is, whether it has a value or raises an exception.
-/
namespace LiveDoc

open Fragment Evaluation Outcome

variable {σ α : Type} {h : Host σ} {env : Environment} {left right : Expr} {v w : Value}
  {s s₁ s₂ : σ}

/-- An evaluation ends with the exception of this name. -/
def Evaluation.Raises (result : EStateM.Result Stop σ α) (exception : String) : Prop :=
  ∃ f t, result = .error (.fault f) t ∧ f.exception = exception

theorem settle_eq_ok_iff {r : Except Fault α} {a : α} {t : σ} :
    settle r s = .ok a t ↔ r = .ok a ∧ s = t := by
  cases r with
  | error f => simp [settle]
  | ok b => simp [settle]

theorem raises_settle_iff {r : Except Fault α} {exception : String} :
    Raises (settle r s) exception ↔ ∃ f, r = .error f ∧ f.exception = exception := by
  cases r with
  | error f => simp [Raises, settle]
  | ok b => simp [Raises, settle]

theorem eval_unary (op : UnaryOp) (hleft : left.eval h env s = .ok v s₁) :
    (Expr.unary op left).eval h env s = settle (Value.unary op v) s₁ := by
  rw [Expr.eval, run_bind_of_ok hleft]

theorem eval_binary (op : BinaryOp) (hleft : left.eval h env s = .ok v s₁)
    (hright : right.eval h env s₁ = .ok w s₂) :
    (Expr.binary op left right).eval h env s = settle (Value.binary op v w) s₂ := by
  rw [Expr.eval, run_bind_of_ok hleft, run_bind_of_ok hright]

/-- A comparison of two values is a chain with one link. -/
theorem eval_compare {op : CompareOp} {answer : Bool} (hleft : left.eval h env s = .ok v s₁)
    (hright : right.eval h env s₁ = .ok w s₂) (hanswer : v.compare op w = .ok answer) :
    (Expr.compare left [(op, right)]).eval h env s = .ok (.bool answer) s₂ := by
  have hchain : evalChain h env v [(op, right)] s₁ = .ok answer s₂ := by
    rw [evalChain, run_bind_of_ok hright, hanswer]
    cases answer with
    | true => rfl
    | false => rfl
  rw [Expr.eval, run_bind_of_ok hleft, run_bind_of_ok hchain]
  rfl

theorem eval_call_builtin {f : Builtin} {callee : Expr} {args : List Expr} {values : List Value}
    (hcallee : callee.eval h env s = .ok (.builtin f) s₁)
    (hargs : evalItems h env args s₁ = .ok values s₂) :
    (Expr.call callee args []).eval h env s =
      (settle (f.call ⟨values, []⟩) >>= Builtin.perform h) s₂ := by
  rw [Expr.eval, run_bind_of_ok hcallee, run_bind_of_ok hargs]
  rfl

/-! ### Evaluation in one place -/

/-- A host that grants everything. -/
def grantingRecorder : Host Recorder := Recorder.host ⟨[], [], [], []⟩

/-- An expression is evaluated in front of this host, with the built-in functions at hand. -/
def evalFirst (e : Expr) : EStateM.Result Stop Recorder Value :=
  e.eval grantingRecorder .initial .initial

/-- The least integer, for which there is no literal. -/
def leastInteger : Expr :=
  .binary .sub (.unary .neg (.constant (.int 9223372036854775807))) (.constant (.int 1))

end LiveDoc
