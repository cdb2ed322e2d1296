import LiveDoc.Proofs.Outcome

/-!
Computations that keep a property of the state, whatever comes of them: a value or an error. While
the property holds, the values can be known to be of some kind, which a next step can count on.
Computations that always have a value are treated behind the others.
-/
namespace LiveDoc

open Outcome

variable {σ ε α β : Type} {I : σ → Prop} {p : α → Prop} {q : β → Prop}

def Keeps (I : σ → Prop) (act : EStateM ε σ α) : Prop := ∀ s, I s → I (stateOf (act s))

/-- Started with `I`, the computation has no other values than those with `p`. -/
def Yields (I : σ → Prop) (p : α → Prop) (act : EStateM ε σ α) : Prop :=
  ∀ s a s', I s → act s = .ok a s' → p a

theorem keeps_pure (a : α) : Keeps I (pure a : EStateM ε σ α) := fun _ hs => hs

theorem keeps_throw (e : ε) : Keeps I (throw e : EStateM ε σ α) := fun _ hs => hs

theorem keeps_modify {f : σ → σ} (h : ∀ s, I s → I (f s)) :
    Keeps I (modify f : EStateM ε σ PUnit) := h

theorem yields_any (act : EStateM ε σ α) : Yields I (fun _ => True) act := fun _ _ _ _ _ => trivial

theorem yields_pure {a : α} (ha : p a) : Yields I p (pure a : EStateM ε σ α) := by
  intro s a' s' hs hrun
  cases hrun
  exact ha

section Sequences

variable {act : EStateM ε σ α} {next : α → EStateM ε σ β}

theorem keeps_bind_of_yields (hact : Keeps I act) (hvalue : Yields I p act)
    (hnext : ∀ a, p a → Keeps I (next a)) : Keeps I (act >>= next) := by
  intro s hs
  have hfirst := hact s hs
  cases hrun : act s with
  | ok a s' =>
    rw [hrun] at hfirst
    rw [run_bind_of_ok hrun]
    exact hnext a (hvalue s a s' hs hrun) s' hfirst
  | error e s' =>
    rw [hrun] at hfirst
    rw [run_bind_of_error hrun]
    exact hfirst

theorem keeps_bind (hact : Keeps I act) (hnext : ∀ a, Keeps I (next a)) :
    Keeps I (act >>= next) :=
  keeps_bind_of_yields hact (yields_any act) fun a _ => hnext a

theorem yields_bind (hact : Keeps I act) (hvalue : Yields I p act)
    (hnext : ∀ a, p a → Yields I q (next a)) : Yields I q (act >>= next) := by
  intro s b s' hs hrun
  obtain ⟨a, t, hfirst, hsecond⟩ := run_bind_eq_ok_iff.mp hrun
  have ht := hact s hs
  rw [hfirst] at ht
  exact hnext a (hvalue s a t hs hfirst) t b s' ht hsecond

end Sequences

/-- A first step that looks at the state. -/
theorem keeps_get_bind {next : σ → EStateM ε σ β} (hnext : ∀ s, Keeps I (next s)) :
    Keeps I (get >>= next) := fun s hs => hnext s s hs

theorem keeps_tryCatch {act : EStateM ε σ α} {handler : ε → EStateM ε σ α} (hact : Keeps I act)
    (hhandler : ∀ e, Keeps I (handler e)) : Keeps I (tryCatch act handler) := by
  intro s hs
  have hfirst := hact s hs
  rw [run_tryCatch]
  cases hrun : act s with
  | ok a s' =>
    rw [hrun] at hfirst
    exact hfirst
  | error e s' =>
    rw [hrun] at hfirst
    exact hhandler e s' hfirst

/-! ### Computations without a state -/

/-- The computation has no other value than one with `p`. -/
def Gives (p : α → Prop) (act : Except ε α) : Prop := ∀ a, act = .ok a → p a

@[simp] theorem gives_ok_iff {a : α} : Gives p (.ok a : Except ε α) ↔ p a := by
  constructor
  · intro h
    exact h a rfl
  · intro ha a' hsame
    cases hsame
    exact ha

@[simp] theorem gives_error (e : ε) : Gives p (.error e : Except ε α) := fun _ h => nomatch h

theorem gives_bind {act : Except ε α} {next : α → Except ε β} (hact : Gives p act)
    (hnext : ∀ a, p a → Gives q (next a)) : Gives q (act >>= next) := by
  intro b hb
  obtain ⟨a, ha, hrest⟩ := bind_eq_ok_iff.mp hb
  exact hnext a (hact a ha) b hrest

@[simp] theorem gives_any (act : Except ε α) : Gives (fun _ => True) act := fun _ _ => trivial

@[simp] theorem gives_ite_iff {c : Prop} [Decidable c] {act act' : Except ε α} :
    Gives p (if c then act else act') ↔ (c → Gives p act) ∧ (¬ c → Gives p act') := by
  by_cases hc : c
  · simp [hc]
  · simp [hc]

@[simp] theorem gives_map_iff {act : Except ε α} {f : α → β} :
    Gives q (act.map f) ↔ Gives (fun a => q (f a)) act := by
  cases act with
  | ok a => simp [Except.map]
  | error e => simp [Except.map]

theorem Gives.mono {p' : α → Prop} {act : Except ε α} (h : Gives p act) (hp : ∀ a, p a → p' a) :
    Gives p' act :=
  fun a ha => hp a (h a ha)

/-! ### Computations that always have a value -/

def Maintains (I : σ → Prop) (act : StateM σ α) : Prop := ∀ s, I s → I (act s).2

theorem maintains_pure (a : α) : Maintains I (pure a : StateM σ α) := fun _ hs => hs

theorem maintains_bind {act : StateM σ α} {next : α → StateM σ β} (hact : Maintains I act)
    (hnext : ∀ a, Maintains I (next a)) : Maintains I (act >>= next) := by
  intro s hs
  rw [run_state_bind]
  exact hnext _ _ (hact s hs)

theorem maintains_forIn {act : α → β → StateM σ (ForInStep β)} (items : List α)
    (h : ∀ a b, Maintains I (act a b)) (b : β) : Maintains I (forIn items b act) := by
  induction items generalizing b with
  | nil =>
    rw [List.forIn_nil]
    exact maintains_pure b
  | cons a rest ih =>
    rw [List.forIn_cons]
    refine maintains_bind (h a b) fun step => ?_
    cases step with
    | done b => exact maintains_pure b
    | yield b => exact ih b

end LiveDoc
