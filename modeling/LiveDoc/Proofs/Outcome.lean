/-!
Sequencing taken apart. A sequence of two steps has a value only through a value of the first
step, and it fails either in the first step or in the second one.
-/
namespace LiveDoc.Outcome

variable {ε σ α β : Type}

theorem bind_eq_ok_iff {act : Except ε α} {next : α → Except ε β} {b : β} :
    act >>= next = .ok b ↔ ∃ a, act = .ok a ∧ next a = .ok b := by
  cases act with
  | error e => simp [bind, Except.bind]
  | ok a => simp [bind, Except.bind]

theorem bind_eq_error_iff {act : Except ε α} {next : α → Except ε β} {e : ε} :
    act >>= next = .error e ↔ act = .error e ∨ ∃ a, act = .ok a ∧ next a = .error e := by
  cases act with
  | error e' => simp [bind, Except.bind]
  | ok a => simp [bind, Except.bind]

theorem isOk_iff_exists {act : Except ε α} : act.isOk = true ↔ ∃ a, act = .ok a := by
  cases act with
  | error e => simp [Except.isOk, Except.toBool]
  | ok a => simp [Except.isOk, Except.toBool]

/-- Why a computation fails, if it does. -/
def error? : Except ε α → Option ε
  | .ok _ => none
  | .error e => some e

theorem error?_eq_some_iff {act : Except ε α} {e : ε} :
    error? act = some e ↔ act = .error e := by
  cases act with
  | error e' => simp [error?]
  | ok a => simp [error?]

theorem toOption_eq_some_iff {act : Except ε α} {a : α} :
    act.toOption = some a ↔ act = .ok a := by
  cases act with
  | error e => simp [Except.toOption]
  | ok a' => simp [Except.toOption]

theorem map_toOption_eq_some_iff {act : Except ε α} {f : α → β} {b : β} :
    act.toOption.map f = some b ↔ ∃ a, act = .ok a ∧ f a = b := by
  simp only [Option.map_eq_some_iff, toOption_eq_some_iff]

theorem toOption_bind (act : Except ε α) (next : α → Except ε β) :
    (act >>= next).toOption = act.toOption.bind fun a => (next a).toOption := by
  cases act with
  | error e => rfl
  | ok a => rfl

theorem toOption_mapError {ε' : Type} (act : Except ε α) (f : ε → ε') :
    (act.mapError f).toOption = act.toOption := by
  cases act with
  | error e => rfl
  | ok a => rfl

theorem map_eq_ok_iff {act : Except ε α} {f : α → β} {b : β} :
    act.map f = .ok b ↔ ∃ a, act = .ok a ∧ f a = b := by
  cases act with
  | error e => simp [Except.map]
  | ok a => simp [Except.map]

theorem exists_eq_ok_unit_iff {act : Except ε Unit} : (∃ a, act = .ok a) ↔ act = .ok () :=
  ⟨fun ⟨_, h⟩ => h, fun h => ⟨(), h⟩⟩

variable {act : EStateM ε σ α} {next : α → EStateM ε σ β} {s s' : σ}

/-- The state that is left, whatever comes of a computation. -/
def stateOf : EStateM.Result ε σ α → σ
  | .ok _ s => s
  | .error _ s => s

/-- What comes of a computation, without the state. -/
def resultOf : EStateM.Result ε σ α → Except ε α
  | .ok a _ => .ok a
  | .error e _ => .error e

theorem run_bind_of_ok {a : α} (h : act s = .ok a s') : (act >>= next) s = next a s' := by
  simp [bind, EStateM.bind, h]

theorem run_bind_of_error {e : ε} (h : act s = .error e s') : (act >>= next) s = .error e s' := by
  simp [bind, EStateM.bind, h]

/-- What comes of a second step is told by what comes of the first one. -/
theorem run_bind_congr {act' : EStateM ε σ α} {t : σ} (h : act s = act' t) :
    (act >>= next) s = (act' >>= next) t := by
  simp [bind, EStateM.bind, h]

theorem run_get (s : σ) : (get : EStateM ε σ σ) s = .ok s s := rfl

theorem run_modify (f : σ → σ) (s : σ) : (modify f : EStateM ε σ PUnit) s = .ok ⟨⟩ (f s) := rfl

/-- A handler goes on in the state that the error has left. -/
theorem run_tryCatch (act : EStateM ε σ α) (handler : ε → EStateM ε σ α) (s : σ) :
    tryCatch act handler s =
      match act s with
      | .ok a s => .ok a s
      | .error e s => handler e s := by
  have hrun : tryCatch act handler s = EStateM.tryCatch act handler s := rfl
  rw [hrun]
  delta EStateM.tryCatch
  cases act s with
  | ok a s => rfl
  | error e s => rfl

theorem run_bind_eq_ok_iff {b : β} :
    (act >>= next) s = .ok b s' ↔ ∃ a t, act s = .ok a t ∧ next a t = .ok b s' := by
  cases h : act s with
  | error e t =>
    rw [run_bind_of_error h]
    simp
  | ok a t =>
    rw [run_bind_of_ok h]
    constructor
    · intro hnext
      exact ⟨a, t, rfl, hnext⟩
    · rintro ⟨a', t', hact, hnext⟩
      injection hact with ha ht
      subst ha ht
      exact hnext

/-! ### Computations that always have a value -/

theorem run_state_bind (act : StateM σ α) (next : α → StateM σ β) (s : σ) :
    (act >>= next) s = next (act s).1 (act s).2 := rfl

theorem run_state_pure (a : α) (s : σ) : (pure a : StateM σ α) s = (a, s) := rfl

theorem run_state_modifyGet (f : σ → α × σ) (s : σ) : (modifyGet f : StateM σ α) s = f s := rfl

end LiveDoc.Outcome
