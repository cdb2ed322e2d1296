import LiveDoc.Proofs.Outcome

/-!
Computations that go alike. From related states they end in the same way, with the same value or
the same error, and in related states again. It may also be that the second one is cut off by an
error of its own while the first one goes on; what the cut says of both states then holds for
whatever the first one comes to. Sequences of such steps go alike in the same sense.
-/
namespace LiveDoc

variable {σ τ ε ι α β : Type} {R : σ → τ → Prop}

/-- Outcomes of one kind in related states. -/
inductive Matches (R : σ → τ → Prop) : EStateM.Result ε σ α → EStateM.Result ε τ α → Prop where
  | ok {a : α} {s : σ} {t : τ} : R s t → Matches R (.ok a s) (.ok a t)
  | error {e : ε} {s : σ} {t : τ} : R s t → Matches R (.error e s) (.error e t)

def Alike (R : σ → τ → Prop) (act : EStateM ε σ α) (act' : EStateM ε τ α) : Prop :=
  ∀ s t, R s t → Matches R (act s) (act' t)

/-- Outcomes of one kind, unless the second one is cut off. -/
def MatchesUntil (R : σ → τ → Prop) (C : ι → σ → τ → Prop) (cutBy : ι → ε)
    (left : EStateM.Result ε σ α) (right : EStateM.Result ε τ α) : Prop :=
  Matches R left right ∨ ∃ i t, right = .error (cutBy i) t ∧ C i (Outcome.stateOf left) t

/-- Computations that go alike until the second one is cut off. -/
structure AlikeUntil (R : σ → τ → Prop) (C : ι → σ → τ → Prop) (cutBy : ι → ε)
    (act : EStateM ε σ α) (act' : EStateM ε τ α) : Prop where
  ends : ∀ s t, R s t → MatchesUntil R C cutBy (act s) (act' t)
  /-- The first one may still be run behind the cut. -/
  goesOn : ∀ i s t, C i s t → C i (Outcome.stateOf (act s)) t

/-- Nothing is cut off. -/
def Uncut (_ : ι) (_ : σ) (_ : τ) : Prop := False

theorem Alike.until {act : EStateM ε σ α} {act' : EStateM ε τ α} (h : Alike R act act')
    (cutBy : ι → ε) : AlikeUntil R Uncut cutBy act act' where
  ends s t hst := .inl (h s t hst)
  goesOn _ _ _ hcut := hcut.elim

theorem AlikeUntil.alike {act : EStateM ε σ α} {act' : EStateM ε τ α} {cutBy : ι → ε}
    {C : ι → σ → τ → Prop} (h : AlikeUntil R C cutBy act act') (hC : ∀ i s t, ¬ C i s t) :
    Alike R act act' := by
  intro s t hst
  rcases h.ends s t hst with hmatch | ⟨i, t', -, hcut⟩
  · exact hmatch
  · exact absurd hcut (hC i _ t')

variable {C : ι → σ → τ → Prop} {cutBy : ι → ε} {act : EStateM ε σ α} {act' : EStateM ε τ α}

theorem until_pure (a : α) : AlikeUntil R C cutBy (pure a) (pure a) where
  ends _ _ hst := .inl (.ok hst)
  goesOn _ _ _ hcut := hcut

theorem until_throw (e : ε) : AlikeUntil R C cutBy (throw e : EStateM ε σ α) (throw e) where
  ends _ _ hst := .inl (.error hst)
  goesOn _ _ _ hcut := hcut

theorem goesOn_bind {next : α → EStateM ε σ β} {i : ι} {s : σ} {t : τ}
    (hact : C i (Outcome.stateOf (act s)) t)
    (hnext : ∀ a s, C i s t → C i (Outcome.stateOf (next a s)) t) :
    C i (Outcome.stateOf ((act >>= next) s)) t := by
  cases hfirst : act s with
  | ok a s' =>
    rw [hfirst] at hact
    rw [Outcome.run_bind_of_ok hfirst]
    exact hnext a s' hact
  | error e s' =>
    rw [hfirst] at hact
    rw [Outcome.run_bind_of_error hfirst]
    exact hact

theorem until_bind {next : α → EStateM ε σ β} {next' : α → EStateM ε τ β}
    (hact : AlikeUntil R C cutBy act act')
    (hnext : ∀ a, AlikeUntil R C cutBy (next a) (next' a)) :
    AlikeUntil R C cutBy (act >>= next) (act' >>= next') where
  ends s t hst := by
    rcases hact.ends s t hst with hfirst | ⟨i, t', hcut, hC⟩
    · simp only [bind, EStateM.bind]
      generalize act s = left at hfirst
      generalize act' t = right at hfirst
      cases hfirst with
      | @ok a s t hst => exact (hnext a).ends s t hst
      | error hst => exact .inl (.error hst)
    · refine .inr ⟨i, t', Outcome.run_bind_of_error hcut, ?_⟩
      exact goesOn_bind hC fun a s => (hnext a).goesOn i s t'
  goesOn i s t hcut := goesOn_bind (hact.goesOn i s t hcut) fun a s => (hnext a).goesOn i s t

theorem until_modify {f : σ → σ} {g : τ → τ} (h : ∀ s t, R s t → R (f s) (g t))
    (hcut : ∀ i s t, C i s t → C i (f s) t) :
    AlikeUntil R C cutBy (modify f : EStateM ε σ PUnit) (modify g) where
  ends s t hst := .inl (.ok (h s t hst))
  goesOn := hcut

/-- A first step that looks at the state. -/
theorem until_get_bind {next : σ → EStateM ε σ β} {next' : τ → EStateM ε τ β}
    (hnext : ∀ s t, R s t → MatchesUntil R C cutBy (next s s) (next' t t))
    (hcut : ∀ i s t, C i s t → C i (Outcome.stateOf (next s s)) t) :
    AlikeUntil R C cutBy (get >>= next) (get >>= next') where
  ends := hnext
  goesOn := hcut

/-- A handler that hands on the error of the cut. -/
theorem until_tryCatch {handler : ε → EStateM ε σ α} {handler' : ε → EStateM ε τ α}
    (hact : AlikeUntil R C cutBy act act')
    (hhandler : ∀ e, AlikeUntil R C cutBy (handler e) (handler' e))
    (hcut : ∀ i s t, C i s t → ∃ t', handler' (cutBy i) t = .error (cutBy i) t' ∧ C i s t') :
    AlikeUntil R C cutBy (tryCatch act handler) (tryCatch act' handler') := by
  have hgoesOn (i : ι) (s : σ) (t : τ) (hC : C i (Outcome.stateOf (act s)) t) :
      C i (Outcome.stateOf (tryCatch act handler s)) t := by
    rw [Outcome.run_tryCatch]
    cases hfirst : act s with
    | ok a s' =>
      rw [hfirst] at hC
      exact hC
    | error e s' =>
      rw [hfirst] at hC
      exact (hhandler e).goesOn i s' t hC
  refine ⟨?_, fun i s t hC => hgoesOn i s t (hact.goesOn i s t hC)⟩
  intro s t hst
  rcases hact.ends s t hst with hfirst | ⟨i, t', hright, hC⟩
  · rw [Outcome.run_tryCatch, Outcome.run_tryCatch]
    generalize act s = left at hfirst
    generalize act' t = right at hfirst
    cases hfirst with
    | ok hst => exact .inl (.ok hst)
    | @error e s t hst => exact (hhandler e).ends s t hst
  · obtain ⟨t'', hrethrow, hC'⟩ := hcut i _ t' hC
    refine .inr ⟨i, t'', ?_, hgoesOn i s t'' hC'⟩
    rw [Outcome.run_tryCatch, hright]
    exact hrethrow

end LiveDoc
