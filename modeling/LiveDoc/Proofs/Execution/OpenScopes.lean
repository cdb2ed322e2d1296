import LiveDoc.Proofs.Execution.Dispatch
import LiveDoc.Proofs.Execution.ScopeStack

/-!
The scopes that a host has open while a document is run. Suppose that the requests of a run keep
up a property that tells the open scopes by the state of the host, and that fragments leave it
alone. Then between any two steps the open scopes are those on the stack, and when the run is over
none is left, whichever request or fragment has failed.
-/
namespace LiveDoc

open Outcome

variable {σ : Type}

/-- `Open handles s` tells that the scopes with these handles, innermost first, are open in `s`. -/
structure TracksScopes (h : Host σ) (run : Runner σ) (Open : List Handle → σ → Prop) : Prop where
  opened : ∀ scope heading {handles handle s s'}, Open handles s →
    h.openScope scope heading s = .ok handle s' → Open (handle :: handles) s'
  refused : ∀ scope heading {handles e s s'}, Open handles s →
    h.openScope scope heading s = .error e s' → Open handles s'
  closed : ∀ handle {handles s}, Open (handle :: handles) s →
    Open handles (stateOf (h.closeScope handle s))
  reported : ∀ e {handles s}, Open handles s → Open handles (h.reportError e s).2
  fatal : ∀ message {handles s}, Open handles s → Open handles (h.reportFatal message s)
  ran : ∀ u {handles} {m : Machine σ}, Open handles m.host → Open handles (stateOf (run u m)).host

namespace TracksScopes

variable {h : Host σ} {run : Runner σ} {Open : List Handle → σ → Prop} {handles : List Handle}

/-! ### Scopes -/

theorem closeEntry (t : TracksScopes h run Open) {entry : ScopeEntry} {rest : ScopeStack} {s : σ}
    (hs : Open (ScopeStack.handles (entry :: rest)) s) :
    Open rest.handles (stateOf (ScopeStack.closeEntry h entry s)) := by
  cases entry with
  | opened handle scope => exact t.closed handle hs
  | placeholder level => exact hs

theorem popUpTo (t : TracksScopes h run Open) (count : Nat) {stack : ScopeStack} {s : σ}
    (hs : Open stack.handles s) :
    Open (stateOf (ScopeStack.popUpTo h count (stack, s))).1.handles
      (stateOf (ScopeStack.popUpTo h count (stack, s))).2 := by
  induction count generalizing stack s with
  | zero => exact hs
  | succ count ih =>
    cases stack with
    | nil =>
      rw [ScopeStack.popUpTo_nil]
      exact hs
    | cons entry rest =>
      have hclosed := t.closeEntry hs
      rw [ScopeStack.popUpTo_cons]
      cases hclose : ScopeStack.closeEntry h entry s with
      | ok a s' =>
        rw [hclose] at hclosed
        exact ih hclosed
      | error e s' =>
        rw [hclose] at hclosed
        exact hclosed

/-- A refused scope is not on the stack, and neither are the placeholders in front of it. -/
theorem enter (t : TracksScopes h run Open) (level : Nat) (name : String)
    (heading : Option String) {stack : ScopeStack} {s : σ} (hs : Open stack.handles s) :
    Open (stateOf (ScopeStack.enter h level name heading (stack, s))).1.handles
      (stateOf (ScopeStack.enter h level name heading (stack, s))).2 := by
  by_cases hlevel : level = 0
  · subst hlevel
    rw [ScopeStack.enter_zero]
    exact hs
  · rw [ScopeStack.enter_eq (Nat.pos_of_ne_zero hlevel)]
    have hpopped := t.popUpTo (stack.excess level) hs
    cases hpop : ScopeStack.popUpTo h (stack.excess level) (stack, s) with
    | error e p =>
      rw [hpop] at hpopped
      rw [run_bind_of_error hpop]
      exact hpopped
    | ok a p =>
      obtain ⟨rest, s'⟩ := p
      rw [hpop] at hpopped
      rw [run_bind_of_ok hpop]
      simp only [ScopeStack.openOn]
      cases hopen : h.openScope ⟨name, level, ScopeStack.pathOf rest name⟩ heading s' with
      | error e s'' => exact t.refused _ _ hpopped hopen
      | ok handle s'' =>
        have hnow := t.opened _ _ hpopped hopen
        simpa only [stateOf, ScopeStack.handles_opened, ScopeStack.handles_fillTo] using hnow

theorem closeEach (t : TracksScopes h run Open) {stack : ScopeStack} {s : σ}
    (hs : Open stack.handles s) : Open [] (ScopeStack.closeEach h stack s).2 := by
  induction stack generalizing s with
  | nil => exact hs
  | cons entry rest ih =>
    rw [ScopeStack.closeEach_cons_snd]
    exact ih (t.closeEntry hs)

/-! ### Steps of a run -/

variable (source : Source)

/-- A fragment is run on one and the same stack. -/
theorem dispatch (t : TracksScopes h run Open) (scope : Scope) (u : FragmentUnit) {p : Progress σ}
    (hp : Open handles p.machine.host) :
    (stateOf (Run.dispatch source h run scope u p)).stack = p.stack ∧
      Open handles (stateOf (Run.dispatch source h run scope u p)).machine.host := by
  have hran : Open handles (stateOf (run u (p.started scope u).machine)).host := t.ran u hp
  rw [Run.dispatch_eq]
  dsimp only
  cases hunit : run u (p.started scope u).machine with
  | ok a m =>
    rw [hunit] at hran
    exact ⟨rfl, hran⟩
  | error stop m =>
    rw [hunit] at hran
    cases stop with
    | failure f =>
      have hreported := t.reported (.ofFailure source u f) hran
      simp only [Run.settle]
      split <;> exact ⟨rfl, hreported⟩
    | host e => exact ⟨rfl, hran⟩
    | exhausted => exact ⟨rfl, hran⟩

theorem runContents (t : TracksScopes h run Open) (children : List Document.Content)
    {p : Progress σ} (hp : Open handles p.machine.host) :
    (stateOf (Run.runContents source h run children p)).stack = p.stack ∧
      Open handles (stateOf (Run.runContents source h run children p)).machine.host := by
  induction children generalizing p with
  | nil => exact ⟨rfl, hp⟩
  | cons c rest ih =>
    have hfirst := t.dispatch source
      ((ScopeStack.current? p.stack).getD (Run.documentScope source)) (.ofContent source c) hp
    rw [Run.runContents_cons]
    cases hdispatch : Run.dispatch source h run
        ((ScopeStack.current? p.stack).getD (Run.documentScope source)) (.ofContent source c) p with
    | error e p' =>
      rw [hdispatch] at hfirst
      exact hfirst
    | ok go p' =>
      rw [hdispatch] at hfirst
      cases go with
      | skipSection => exact hfirst
      | next =>
        obtain ⟨hstack, hnow⟩ := hfirst
        have hstack : p'.stack = p.stack := hstack
        rw [← hstack]
        exact ih hnow

/-- The scope of the header is closed again, so the stack still tells what is open. -/
theorem runHeader (t : TracksScopes h run Open) (header : Document.Header) {p : Progress σ}
    (hp : Open p.stack.handles p.machine.host) :
    Open (stateOf (Run.runHeader source h run header p)).stack.handles
      (stateOf (Run.runHeader source h run header p)).machine.host := by
  rw [Run.runHeader_eq]
  cases hopen : h.openScope Run.headerScope none p.machine.host with
  | error e s => exact t.refused _ _ hp hopen
  | ok handle s =>
    have hstart : Open (handle :: p.stack.handles) (p.withHost s).machine.host :=
      t.opened _ _ hp hopen
    have hunit := t.dispatch source Run.headerScope (.ofText source (.header header)) hstart
    dsimp only
    cases hdispatch : Run.dispatch source h run Run.headerScope
        (.ofText source (.header header)) (p.withHost s) with
    | ok go p' =>
      rw [hdispatch] at hunit
      obtain ⟨hstack, hnow⟩ := hunit
      have hstack : p'.stack = p.stack := hstack
      have hclosed := t.closed handle hnow
      simp only [Run.onHost]
      rw [← hstack] at hclosed
      cases hclose : h.closeScope handle p'.machine.host with
      | ok a s' => simpa only [stateOf, hclose] using hclosed
      | error e s' => simpa only [stateOf, hclose] using hclosed
    | error e p' =>
      rw [hdispatch] at hunit
      obtain ⟨hstack, hnow⟩ := hunit
      have hstack : p'.stack = p.stack := hstack
      have hclosed := t.closed handle hnow
      rw [← hstack] at hclosed
      exact hclosed

theorem runSection (t : TracksScopes h run Open) (part : Document.Section) {p : Progress σ}
    (hp : Open p.stack.handles p.machine.host) :
    Open (stateOf (Run.runSection source h run part p)).stack.handles
      (stateOf (Run.runSection source h run part p)).machine.host := by
  rw [Run.runSection_eq]
  have hentered := t.enter part.heading.level part.heading.title
    (some (String.ofList part.heading.raw)) hp
  cases henter : ScopeStack.enter h part.heading.level part.heading.title
      (some (String.ofList part.heading.raw)) (p.stack, p.machine.host) with
  | error e after =>
    rw [henter] at hentered
    simp only [bind, EStateM.bind, Run.onStack, henter]
    exact hentered
  | ok handle after =>
    rw [henter] at hentered
    simp only [bind, EStateM.bind, Run.onStack, henter]
    obtain ⟨hstack, hnow⟩ := t.runContents source part.children
      (p := ⟨{ p.machine with host := after.2 }, after.1, Run.countSection p.counts⟩) hentered
    rw [hstack]
    exact hnow

theorem runSections (t : TracksScopes h run Open) (sections : List Document.Section)
    {p : Progress σ} (hp : Open p.stack.handles p.machine.host) :
    Open (stateOf (Run.runSections source h run sections p)).stack.handles
      (stateOf (Run.runSections source h run sections p)).machine.host := by
  induction sections generalizing p with
  | nil => exact hp
  | cons part rest ih =>
    have hfirst := t.runSection source part hp
    rw [Run.runSections]
    cases hpart : Run.runSection source h run part p with
    | error e p' =>
      rw [hpart] at hfirst
      rw [run_bind_of_error hpart]
      exact hfirst
    | ok a p' =>
      rw [hpart] at hfirst
      rw [run_bind_of_ok hpart]
      exact ih hfirst

theorem runBody (t : TracksScopes h run Open) (d : Document) {p : Progress σ}
    (hp : Open p.stack.handles p.machine.host) :
    Open (stateOf (Run.runBody source h run d p)).stack.handles
      (stateOf (Run.runBody source h run d p)).machine.host := by
  have hfirst : Open (stateOf (Run.runFront source h run d.header p)).stack.handles
      (stateOf (Run.runFront source h run d.header p)).machine.host := by
    cases d.header with
    | none => exact hp
    | some header => exact t.runHeader source header hp
  rw [Run.runBody_eq]
  cases hfront : Run.runFront source h run d.header p with
  | error e p₁ =>
    rw [hfront] at hfirst
    rw [run_bind_of_error hfront]
    exact hfirst
  | ok a p₁ =>
    rw [hfront] at hfirst
    rw [run_bind_of_ok hfront]
    have hfirst : Open p₁.stack.handles p₁.machine.host := hfirst
    obtain ⟨hstack, hsecond⟩ := t.runContents source d.intro hfirst
    rw [← hstack] at hsecond
    cases hintro : Run.runContents source h run d.intro p₁ with
    | error e p₂ =>
      rw [hintro] at hsecond
      rw [run_bind_of_error hintro]
      exact hsecond
    | ok a p₂ =>
      rw [hintro] at hsecond
      rw [run_bind_of_ok hintro]
      exact t.runSections source d.sections hsecond

/-! ### The whole run -/

/-- When a run is over, nothing that it has opened is open. -/
theorem execute (t : TracksScopes h run Open) (d : Document) {m : Machine σ}
    (hm : Open [] m.host) : Open [] (execute source h run d m).2.host := by
  have hbody := t.runBody source d (p := ⟨m, [], ⟨0, 0, 0, 0⟩⟩) hm
  have hclosed : Open [] (closeRun h
      (Run.runBody source h run d ⟨m, [], ⟨0, 0, 0, 0⟩⟩)).2.host := by
    cases hrun : Run.runBody source h run d ⟨m, [], ⟨0, 0, 0, 0⟩⟩ with
    | error e p =>
      rw [hrun] at hbody
      exact t.closeEach hbody
    | ok a p =>
      rw [hrun] at hbody
      exact t.closeEach hbody
  simp only [LiveDoc.execute]
  cases hresult : closeRun h (Run.runBody source h run d ⟨m, [], ⟨0, 0, 0, 0⟩⟩) with
  | mk result m' =>
    rw [hresult] at hclosed
    cases result with
    | ok counts => exact hclosed
    | error e =>
      by_cases hfragment : e.isFragment = true
      · simpa only [hfragment, if_true] using hclosed
      · have hfatal : Open [] (reportFatal h e.message m').host := t.fatal e.message hclosed
        simpa only [hfragment, Bool.false_eq_true, if_false] using hfatal

end TracksScopes

end LiveDoc
