import LiveDoc.Proofs.Execution.Dispatch
import LiveDoc.Proofs.Execution.ScopeStack
import LiveDoc.Proofs.Invariance

/-!
Properties that hold all through a run. A run asks its host, and it runs the fragments of its
document one by one, each behind the binding of its scope and its place. What every request and
every fragment keeps is kept by the run, wherever it ends.
-/
namespace LiveDoc

open Outcome

variable {σ : Type}

/-- The machine with another state of its host. -/
def Machine.withHost (m : Machine σ) (s : σ) : Machine σ := { m with host := s }

/-- The machine on which a fragment is run. -/
def Machine.bound (m : Machine σ) (scope : Scope) (u : FragmentUnit) : Machine σ :=
  { m with environment := m.environment.bindUnit scope u.name }

/-- Every request keeps the property, and so does every fragment of a document. -/
structure RunKeeps (source : Source) (h : Host σ) (run : Runner σ) (I : Machine σ → Prop) :
    Prop where
  opened : ∀ scope heading m, I m → I (m.withHost (stateOf (h.openScope scope heading m.host)))
  closed : ∀ handle m, I m → I (m.withHost (stateOf (h.closeScope handle m.host)))
  reported : ∀ e m, I m → I (m.withHost (h.reportError e m.host).2)
  fatal : ∀ message m, I m → I (reportFatal h message m)
  header : ∀ header scope m, I m →
    let u := FragmentUnit.ofText source (.header header)
    I (stateOf (run u (m.bound scope u)))
  content : ∀ c scope m, I m →
    let u := FragmentUnit.ofContent source c
    I (stateOf (run u (m.bound scope u)))

/-- The property, of a state with the stack of scopes. -/
def OnScopes (environment : Environment) (I : Machine σ → Prop) (p : ScopeStack × σ) : Prop :=
  I ⟨environment, p.2⟩

/-- The property, of the progress of a run. -/
def OnProgress (I : Machine σ → Prop) (p : Progress σ) : Prop := I p.machine

namespace RunKeeps

variable {source : Source} {h : Host σ} {run : Runner σ} {I : Machine σ → Prop}
  {environment : Environment}

/-! ### Scopes -/

theorem closeEntry (r : RunKeeps source h run I) (entry : ScopeEntry) {m : Machine σ} (hm : I m) :
    I (m.withHost (stateOf (ScopeStack.closeEntry h entry m.host))) := by
  cases entry with
  | opened handle scope => exact r.closed handle m hm
  | placeholder level => exact hm

theorem popUpTo (r : RunKeeps source h run I) (count : Nat) :
    Keeps (OnScopes environment I) (ScopeStack.popUpTo h count) := by
  induction count with
  | zero => exact keeps_pure _
  | succ count ih =>
    rintro ⟨stack, s⟩ hs
    cases stack with
    | nil =>
      rw [ScopeStack.popUpTo_nil]
      exact hs
    | cons entry rest =>
      have hclosed := r.closeEntry entry hs
      rw [ScopeStack.popUpTo_cons]
      dsimp only at hclosed
      cases hclose : ScopeStack.closeEntry h entry s with
      | ok a s' =>
        rw [hclose] at hclosed
        exact ih (rest, s') hclosed
      | error e s' =>
        rw [hclose] at hclosed
        exact hclosed

theorem openOn (r : RunKeeps source h run I) (level : Nat) (name : String)
    (heading : Option String) :
    Keeps (OnScopes environment I) (ScopeStack.openOn h level name heading) := by
  rintro ⟨stack, s⟩ hs
  have hopened := r.opened ⟨name, level, ScopeStack.pathOf stack name⟩ heading _ hs
  simp only [ScopeStack.openOn]
  dsimp only at hopened
  cases hopen : h.openScope ⟨name, level, ScopeStack.pathOf stack name⟩ heading s with
  | ok handle s' =>
    rw [hopen] at hopened
    exact hopened
  | error e s' =>
    rw [hopen] at hopened
    exact hopened

theorem enter (r : RunKeeps source h run I) (level : Nat) (name : String)
    (heading : Option String) :
    Keeps (OnScopes environment I) (ScopeStack.enter h level name heading) := by
  rintro ⟨stack, s⟩ hs
  by_cases hlevel : level = 0
  · subst hlevel
    rw [ScopeStack.enter_zero]
    exact hs
  · rw [ScopeStack.enter_eq (Nat.pos_of_ne_zero hlevel)]
    exact keeps_bind (r.popUpTo _) (fun _ => r.openOn level name heading) _ hs

theorem closeEach (r : RunKeeps source h run I) (stack : ScopeStack) {m : Machine σ} (hm : I m) :
    I (m.withHost (ScopeStack.closeEach h stack m.host).2) := by
  induction stack generalizing m with
  | nil => exact hm
  | cons entry rest ih =>
    rw [ScopeStack.closeEach_cons_snd]
    exact ih (r.closeEntry entry hm)

/-! ### Steps of a run -/

theorem onStack {α : Type} {act : ScopeStack.Scoping σ α}
    (hact : ∀ environment, Keeps (OnScopes environment I) act) :
    Keeps (OnProgress I) (Run.onStack act) := by
  intro p hp
  have hafter := hact p.machine.environment (p.stack, p.machine.host) hp
  simp only [Run.onStack]
  cases hrun : act (p.stack, p.machine.host) with
  | ok a q =>
    rw [hrun] at hafter
    exact hafter
  | error e q =>
    rw [hrun] at hafter
    exact hafter

theorem onHost {α : Type} {act : EStateM HostError σ α}
    (hact : ∀ m, I m → I (m.withHost (stateOf (act m.host)))) :
    Keeps (OnProgress I) (Run.onHost act) := by
  intro p hp
  have hafter := hact p.machine hp
  simp only [Run.onHost]
  cases hrun : act p.machine.host with
  | ok a s =>
    rw [hrun] at hafter
    exact hafter
  | error e s =>
    rw [hrun] at hafter
    exact hafter

theorem dispatch (r : RunKeeps source h run I) (scope : Scope) {u : FragmentUnit}
    (hu : ∀ m, I m → I (stateOf (run u (m.bound scope u)))) :
    Keeps (OnProgress I) (Run.dispatch source h run scope u) := by
  intro p hp
  have hran : I (stateOf (run u (p.started scope u).machine)) := hu p.machine hp
  rw [Run.dispatch_eq]
  dsimp only
  cases hunit : run u (p.started scope u).machine with
  | ok a m =>
    rw [hunit] at hran
    exact hran
  | error stop m =>
    rw [hunit] at hran
    cases stop with
    | failure f =>
      have hreported := r.reported (.ofFailure source u f) m hran
      simp only [Run.settle]
      split <;> exact hreported
    | host e => exact hran
    | exhausted => exact hran

theorem runContents (r : RunKeeps source h run I) (children : List Document.Content) :
    Keeps (OnProgress I) (Run.runContents source h run children) := by
  induction children with
  | nil => exact keeps_pure _
  | cons c rest ih =>
    refine keeps_get_bind fun p => ?_
    refine keeps_bind (r.dispatch _ fun m hm => r.content c _ m hm) fun go => ?_
    cases go with
    | next => exact ih
    | skipSection => exact keeps_pure _

theorem runHeader (r : RunKeeps source h run I) (header : Document.Header) :
    Keeps (OnProgress I) (Run.runHeader source h run header) := by
  refine keeps_bind (onHost (r.opened _ _)) fun handle => ?_
  have hclose : Keeps (OnProgress I) (Run.onHost (h.closeScope handle)) :=
    onHost (r.closed handle)
  refine keeps_bind (keeps_tryCatch ?_ fun e => ?_) fun _ => hclose
  · exact keeps_bind (r.dispatch _ fun m hm => r.header header _ m hm) fun _ => keeps_pure _
  · exact keeps_bind (keeps_tryCatch hclose fun _ => keeps_pure _) fun _ => keeps_throw e

theorem runSection (r : RunKeeps source h run I) (part : Document.Section) :
    Keeps (OnProgress I) (Run.runSection source h run part) := by
  have hcount : Keeps (OnProgress I) (Run.count Run.countSection : Run σ Unit) :=
    keeps_modify fun _ hp => hp
  refine keeps_bind hcount fun _ => ?_
  exact keeps_bind (onStack fun _ => r.enter _ _ _) fun _ => r.runContents part.children

theorem runSections (r : RunKeeps source h run I) (sections : List Document.Section) :
    Keeps (OnProgress I) (Run.runSections source h run sections) := by
  induction sections with
  | nil => exact keeps_pure _
  | cons part rest ih => exact keeps_bind (r.runSection part) fun _ => ih

theorem runBody (r : RunKeeps source h run I) (d : Document) :
    Keeps (OnProgress I) (Run.runBody source h run d) := by
  have hfront : Keeps (OnProgress I) (Run.runFront source h run d.header) := by
    cases d.header with
    | none => exact keeps_pure _
    | some header => exact r.runHeader header
  rw [Run.runBody_eq]
  exact keeps_bind hfront fun _ => keeps_bind (r.runContents d.intro) fun _ =>
    r.runSections d.sections

/-! ### The whole run -/

theorem execute (r : RunKeeps source h run I) (d : Document) {m : Machine σ} (hm : I m) :
    I (execute source h run d m).2 := by
  have hbody := r.runBody d ⟨m, [], ⟨0, 0, 0, 0⟩⟩ hm
  have hclosed : I (closeRun h (Run.runBody source h run d ⟨m, [], ⟨0, 0, 0, 0⟩⟩)).2 := by
    cases hrun : Run.runBody source h run d ⟨m, [], ⟨0, 0, 0, 0⟩⟩ with
    | ok a p =>
      rw [hrun] at hbody
      exact r.closeEach p.stack hbody
    | error e p =>
      rw [hrun] at hbody
      exact r.closeEach p.stack hbody
  rw [execute_eq_closeRun]
  dsimp only
  generalize closeRun h (Run.runBody source h run d ⟨m, [], ⟨0, 0, 0, 0⟩⟩) = closed at hclosed
  induction fatalOf closed.1 generalizing closed with
  | nil => exact hclosed
  | cons message rest ih => exact ih (closed.1, _) (r.fatal message _ hclosed)

/-- What holds at the start of a run holds at its end. -/
theorem executeSource (r : RunKeeps source h run I) {m : Machine σ} (hm : I m) :
    I (executeSource source h run m).2 := by
  unfold LiveDoc.executeSource
  split
  · exact r.fatal _ m hm
  · split
    · exact r.fatal _ m hm
    · exact r.execute _ hm

end RunKeeps

end LiveDoc
