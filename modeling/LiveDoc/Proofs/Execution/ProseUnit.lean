import LiveDoc.Execution.Runner
import LiveDoc.Proofs.Fragment.Prose

/-!
The running of the statement that emits a text. It makes one call, of whatever the name of the
built-in function is bound to. A call that does not fail emits the text, once and as it is.
-/
namespace LiveDoc

open Fragment

variable {σ : Type}

/-- What the statement passes to the function that it calls. -/
def proseArguments (text : String) : Arguments := ⟨[.str text], [("end", .str "")]⟩

theorem evalParts_textParts (h : Host σ) (env : Environment) (text : List Char) :
    evalParts h env (textParts text) "" = pure (String.ofList text) := by
  by_cases htext : text = []
  · subst htext
    rfl
  · rw [textParts, if_neg htext]
    simp [evalParts, FormatPart.eval]

theorem eval_proseCall (h : Host σ) (env : Environment) (text : List Char) :
    (proseCall text).eval h env =
      Evaluation.settle (env.load "text") >>= fun function =>
        function.call h (proseArguments (String.ofList text)) := by
  simp only [proseCall, Expr.eval, evalItems, evalNamed, evalParts_textParts, pure_bind]
  rfl

/-- The functions that emit what they are given in this way. Any other value refuses the call. -/
def Value.emitsText : Value → Bool
  | .builtin .text => true
  | .builtin .print => true
  | _ => false

theorem Value.call_of_emitsText (h : Host σ) {v : Value} (hv : v.emitsText = true)
    (text : String) : v.call h (proseArguments text) = Builtin.perform h (.emit text) := by
  unfold Value.emitsText at hv
  split at hv
  · change Builtin.perform h (.emit (text ++ "")) = _
    rw [String.append_empty]
  · change Builtin.perform h (.emit (" ".intercalate [text] ++ "")) = _
    rw [String.append_empty]
    rfl
  · cases hv

theorem Value.call_of_not_emitsText (h : Host σ) {v : Value} (hv : v.emitsText = false)
    (text : String) :
    ∃ fault, v.call h (proseArguments text) = Evaluation.settle (.error fault) := by
  cases v with
  | builtin f =>
    cases f with
    | text => cases hv
    | print => cases hv
    | _ => exact ⟨_, rfl⟩
  | _ => exact ⟨_, rfl⟩

theorem Builtin.perform_emit (h : Host σ) (text : String) (s : σ) :
    Builtin.perform h (.emit text) s =
      match h.emitText text s with
      | .ok _ s => .ok .nothing s
      | .error e s => .error (.host e) s := by
  simp only [Builtin.perform, bind, EStateM.bind, Evaluation.ofHost]
  cases h.emitText text s with
  | ok a s => rfl
  | error e s => rfl

/-- Whether the name that the statement calls is bound to a function that emits. -/
def Environment.emitsText (env : Environment) : Bool :=
  match env.load "text" with
  | .ok function => function.emitsText
  | .error _ => false

theorem eval_proseCall_of_emitsText (h : Host σ) {env : Environment} (henv : env.emitsText = true)
    (text : List Char) :
    (proseCall text).eval h env = Builtin.perform h (.emit (String.ofList text)) := by
  rw [Environment.emitsText] at henv
  rw [eval_proseCall]
  cases hload : env.load "text" with
  | error fault =>
    rw [hload] at henv
    cases henv
  | ok function =>
    rw [hload] at henv
    exact Value.call_of_emitsText h henv (String.ofList text)

/-- The call raises a fault, and the host is not asked. -/
theorem eval_proseCall_of_not_emitsText (h : Host σ) {env : Environment}
    (henv : env.emitsText = false) (text : List Char) :
    ∃ fault, (proseCall text).eval h env = Evaluation.settle (.error fault) := by
  rw [Environment.emitsText] at henv
  rw [eval_proseCall]
  cases hload : env.load "text" with
  | error fault => exact ⟨fault, rfl⟩
  | ok function =>
    rw [hload] at henv
    exact Value.call_of_not_emitsText h henv (String.ofList text)

/-- To run the statement is to evaluate its call. -/
theorem runFragment_textStatement (h : Host σ) (rounds : Nat) (text : List Char) (m : Machine σ) :
    runFragment h rounds (textStatement text) m =
      match (proseCall text).eval h m.environment m.host with
      | .ok _ s => .ok () { m with host := s }
      | .error (.fault f) s => .error (.failure (.ofFault f 1)) { m with host := s }
      | .error (.host e) s => .error (.host e) { m with host := s } := by
  rw [runFragment, parseProgram_textStatement]
  simp only [runProgram, runBlock, Stmt.run, Action.run, Execution.evaluate, bind,
    EStateM.bind, pure, EStateM.pure]
  cases hcall : (proseCall text).eval h m.environment m.host with
  | ok v s => rfl
  | error stop s => cases stop <;> rfl

/-- The host takes the text if the name is bound to a function that emits. -/
theorem runFragment_of_emitsText (h : Host σ) (rounds : Nat) (text : List Char) {m : Machine σ}
    (henv : m.environment.emitsText = true) :
    runFragment h rounds (textStatement text) m =
      match h.emitText (String.ofList text) m.host with
      | .ok _ s => .ok () { m with host := s }
      | .error e s => .error (.host e) { m with host := s } := by
  rw [runFragment_textStatement, eval_proseCall_of_emitsText h henv, Builtin.perform_emit]
  cases h.emitText (String.ofList text) m.host with
  | ok a s => rfl
  | error e s => rfl

theorem runFragment_of_not_emitsText (h : Host σ) (rounds : Nat) (text : List Char)
    {m : Machine σ} (henv : m.environment.emitsText = false) :
    ∃ fault, runFragment h rounds (textStatement text) m =
      .error (.failure (.ofFault fault 1)) m := by
  obtain ⟨fault, hcall⟩ := eval_proseCall_of_not_emitsText h henv text
  refine ⟨fault, ?_⟩
  rw [runFragment_textStatement, hcall]
  rfl

/-- As long as its name is not bound anew, the built-in function takes the text to the host. -/
theorem runFragment_of_bound {h : Host σ} {rounds : Nat} {text : List Char} {m : Machine σ}
    {s : σ} (hbound : m.environment.load "text" = .ok (.builtin .text))
    (hemit : h.emitText (String.ofList text) m.host = .ok () s) :
    runFragment h rounds (textStatement text) m = .ok () { m with host := s } := by
  have henv : m.environment.emitsText = true := by
    rw [Environment.emitsText, hbound]
    rfl
  rw [runFragment_of_emitsText h rounds text henv, hemit]

/-- In any environment, the host has taken the text when the statement does not fail. -/
theorem emitText_of_runFragment {h : Host σ} {rounds : Nat} {text : List Char}
    {m m' : Machine σ} (hrun : runFragment h rounds (textStatement text) m = .ok () m') :
    m'.environment = m.environment ∧
      h.emitText (String.ofList text) m.host = .ok () m'.host := by
  cases henv : m.environment.emitsText with
  | true =>
    rw [runFragment_of_emitsText h rounds text henv] at hrun
    cases hemit : h.emitText (String.ofList text) m.host with
    | error e s => simp [hemit] at hrun
    | ok a s =>
      rw [hemit] at hrun
      injection hrun with _ hmachine
      subst hmachine
      exact ⟨rfl, rfl⟩
  | false =>
    obtain ⟨fault, hfault⟩ := runFragment_of_not_emitsText h rounds text henv
    simp [hfault] at hrun

end LiveDoc
