import LiveDoc.Proofs.Execution.RunTrace
import LiveDoc.Proofs.Execution.ScopeStack

/-!
What the sections of a document add to the trace of a run in which the host refuses no scope. They
are entered in order, from the first one on. Each closes what stands in its way, opens its scope,
and runs the fragments of its content in this scope. So what it adds is told by the handle that
the host gives and by the ends of the fragments.
-/
namespace LiveDoc

open Outcome

variable {σ : Type}

def RunStep.granted : RunStep → Bool
  | opened _ _ result => result.isOk
  | closed _ result => result.isOk
  | _ => true

/-- The host refuses none of the steps. -/
def Granted (steps : List RunStep) : Prop := ∀ step ∈ steps, step.granted = true

theorem granted_append {a b : List RunStep} : Granted (a ++ b) ↔ Granted a ∧ Granted b :=
  List.forall_mem_append

/-- An outcome that adds steps to a trace, and what holds if none of them is refused. -/
def Adds {ε τ α : Type} (view : τ → List RunStep) (start : List RunStep)
    (outcome : EStateM.Result ε τ α) (Q : List RunStep → Prop) : Prop :=
  ∃ added, view (stateOf outcome) = start ++ added ∧ (Granted added → Q added)

namespace Adds

variable {ε τ α β : Type} {view : τ → List RunStep} {start : List RunStep}
  {Q : List RunStep → Prop}

theorem mono {outcome : EStateM.Result ε τ α} {Q' : List RunStep → Prop}
    (first : Adds view start outcome Q) (h : ∀ added, Q added → Q' added) :
    Adds view start outcome Q' := by
  obtain ⟨added, hview, hQ⟩ := first
  exact ⟨added, hview, fun hgranted => h added (hQ hgranted)⟩

/-- A second step is taken only behind a first one that has a value. -/
theorem bind {act : EStateM ε τ α} {next : α → EStateM ε τ β} {t : τ} {Q' : List RunStep → Prop}
    (first : Adds view start (act t) Q)
    (herror : ∀ e t', act t = .error e t' → ∀ added, Q added → Q' added)
    (hok : ∀ a t', act t = .ok a t' → ∀ added,
      Adds view (view t') (next a t') fun more => Q added → Q' (added ++ more)) :
    Adds view start ((act >>= next) t) Q' := by
  obtain ⟨added, hview, hQ⟩ := first
  cases hact : act t with
  | error e t' =>
    rw [hact] at hview
    rw [run_bind_of_error hact]
    exact ⟨added, hview, fun hgranted => herror e t' hact added (hQ hgranted)⟩
  | ok a t' =>
    rw [hact] at hview
    rw [run_bind_of_ok hact]
    obtain ⟨more, hview', hQ'⟩ := hok a t' hact added
    refine ⟨added ++ more, ?_, ?_⟩
    · rw [hview', ← List.append_assoc]
      exact congrArg (· ++ more) hview
    · intro hgranted
      obtain ⟨hadded, hmore⟩ := granted_append.mp hgranted
      exact hQ' hmore (hQ hadded)

end Adds

/-! ### Scopes -/

/-- The stack of a run with its host. -/
def stackSteps (p : ScopeStack × Traced σ) : List RunStep := p.2.steps

/-- The closing of the scopes of a stack, innermost first. -/
def closings (stack : ScopeStack) : List RunStep :=
  stack.handles.map fun handle => .closed handle (.ok ())

theorem closings_cons (entry : ScopeEntry) (rest : ScopeStack) :
    closings (entry :: rest) = closings [entry] ++ closings rest := by
  cases entry <;> simp [closings]

theorem adds_closeScope (h : Host σ) (handle : Handle) (t : Traced σ) :
    Adds Traced.steps t.steps ((Traced.host h).closeScope handle t) fun added =>
      ∃ t', (Traced.host h).closeScope handle t = .ok () t' ∧
        added = [.closed handle (.ok ())] := by
  simp only [Traced.host, Traced.request]
  cases h.closeScope handle t.inner with
  | ok a s => exact ⟨[.closed handle (.ok ())], rfl, fun _ => ⟨_, rfl, rfl⟩⟩
  | error e s =>
    refine ⟨[.closed handle (.error e)], rfl, ?_⟩
    intro hgranted
    have hstep := hgranted _ (List.mem_singleton.mpr rfl)
    simp [RunStep.granted, Except.isOk, Except.toBool] at hstep

theorem adds_openScope (h : Host σ) (scope : Scope) (heading : Option String) (t : Traced σ) :
    Adds Traced.steps t.steps ((Traced.host h).openScope scope heading t) fun added =>
      ∃ handle t', (Traced.host h).openScope scope heading t = .ok handle t' ∧
        added = [.opened scope heading (.ok handle)] := by
  simp only [Traced.host, Traced.request]
  cases h.openScope scope heading t.inner with
  | ok handle s => exact ⟨[.opened scope heading (.ok handle)], rfl, fun _ => ⟨handle, _, rfl, rfl⟩⟩
  | error e s =>
    refine ⟨[.opened scope heading (.error e)], rfl, ?_⟩
    intro hgranted
    have hstep := hgranted _ (List.mem_singleton.mpr rfl)
    simp [RunStep.granted, Except.isOk, Except.toBool] at hstep

theorem adds_closeEntry (h : Host σ) (entry : ScopeEntry) (t : Traced σ) :
    Adds Traced.steps t.steps (ScopeStack.closeEntry (Traced.host h) entry t) fun added =>
      ∃ t', ScopeStack.closeEntry (Traced.host h) entry t = .ok () t' ∧
        added = closings [entry] := by
  cases entry with
  | placeholder level => exact ⟨[], (List.append_nil _).symm, fun _ => ⟨t, rfl, rfl⟩⟩
  | opened handle scope => exact adds_closeScope h handle t

theorem adds_popUpTo (h : Host σ) (count : Nat) (stack : ScopeStack) (t : Traced σ) :
    Adds stackSteps t.steps (ScopeStack.popUpTo (Traced.host h) count (stack, t)) fun added =>
      ∃ t', ScopeStack.popUpTo (Traced.host h) count (stack, t) = .ok () (stack.drop count, t') ∧
        added = closings (stack.take count) := by
  induction count generalizing stack t with
  | zero => exact ⟨[], (List.append_nil _).symm, fun _ => ⟨t, rfl, rfl⟩⟩
  | succ count ih =>
    cases stack with
    | nil => exact ⟨[], (List.append_nil _).symm, fun _ => ⟨t, rfl, rfl⟩⟩
    | cons entry rest =>
      rw [ScopeStack.popUpTo_cons]
      obtain ⟨added, hview, hfirst⟩ := adds_closeEntry h entry t
      cases hclose : ScopeStack.closeEntry (Traced.host h) entry t with
      | error e t₁ =>
        rw [hclose] at hview
        refine ⟨added, hview, ?_⟩
        intro hgranted
        obtain ⟨t', hok, -⟩ := hfirst hgranted
        simp [hclose] at hok
      | ok a t₁ =>
        rw [hclose] at hview
        obtain ⟨more, hview', hrest⟩ := ih rest t₁
        refine ⟨added ++ more, ?_, ?_⟩
        · rw [hview', ← List.append_assoc]
          exact congrArg (· ++ more) hview
        · intro hgranted
          obtain ⟨hadded, hmore⟩ := granted_append.mp hgranted
          obtain ⟨-, -, hadded⟩ := hfirst hadded
          obtain ⟨t', hok, hmore⟩ := hrest hmore
          refine ⟨t', hok, ?_⟩
          rw [hadded, hmore, List.take_succ_cons, closings_cons entry (rest.take count)]

theorem adds_openOn (h : Host σ) (level : Nat) (name : String) (heading : Option String)
    (stack : ScopeStack) (t : Traced σ) :
    Adds stackSteps t.steps (ScopeStack.openOn (Traced.host h) level name heading (stack, t))
      fun added => ∃ handle t',
        let scope : Scope := ⟨name, level, stack.pathOf name⟩
        ScopeStack.openOn (Traced.host h) level name heading (stack, t) =
          .ok handle (.opened handle scope :: stack.fillTo level, t') ∧
        added = [.opened scope heading (.ok handle)] := by
  obtain ⟨added, hview, hopen⟩ :=
    adds_openScope h ⟨name, level, stack.pathOf name⟩ heading t
  simp only [ScopeStack.openOn]
  cases houtcome : (Traced.host h).openScope ⟨name, level, stack.pathOf name⟩ heading t with
  | ok handle t' =>
    rw [houtcome] at hview
    refine ⟨added, hview, ?_⟩
    intro hgranted
    obtain ⟨handle', t₁, hok, hadded⟩ := hopen hgranted
    rw [houtcome] at hok
    injection hok with hhandle _
    subst hhandle
    exact ⟨handle, t', rfl, hadded⟩
  | error e t' =>
    rw [houtcome] at hview
    refine ⟨added, hview, ?_⟩
    intro hgranted
    obtain ⟨handle, t₁, hok, -⟩ := hopen hgranted
    simp [houtcome] at hok

theorem adds_closeEach (h : Host σ) (stack : ScopeStack) (t : Traced σ) :
    ∃ added, (ScopeStack.closeEach (Traced.host h) stack t).2.steps = t.steps ++ added ∧
      (Granted added → (ScopeStack.closeEach (Traced.host h) stack t).1 = none ∧
        added = closings stack) := by
  induction stack generalizing t with
  | nil => exact ⟨[], (List.append_nil _).symm, fun _ => ⟨rfl, rfl⟩⟩
  | cons entry rest ih =>
    obtain ⟨added, hview, hfirst⟩ := adds_closeEntry h entry t
    obtain ⟨more, hview', hrest⟩ := ih (stateOf (ScopeStack.closeEntry (Traced.host h) entry t))
    refine ⟨added ++ more, ?_, ?_⟩
    · rw [ScopeStack.closeEach_cons_snd, hview', hview, List.append_assoc]
    · intro hgranted
      obtain ⟨hadded, hmore⟩ := granted_append.mp hgranted
      obtain ⟨t', hok, hadded⟩ := hfirst hadded
      obtain ⟨hnone, hmore⟩ := hrest hmore
      rw [hok] at hnone
      refine ⟨?_, ?_⟩
      · rw [ScopeStack.closeEach, hok]
        exact hnone
      · rw [hadded, hmore, closings_cons entry rest]

/-! ### Sections -/

/-- A section that was entered, with the handle of its scope and the fragments that were run. -/
structure Visit where
  part : Document.Section
  handle : Handle
  entries : List Entry

namespace Visit

def level (v : Visit) : Nat := v.part.heading.level

/-- What is left of the stack when the section is entered. -/
def base (v : Visit) (stack : ScopeStack) : ScopeStack := stack.drop (stack.excess v.level)

def scopeOn (v : Visit) (stack : ScopeStack) : Scope :=
  ⟨v.part.heading.title, v.level, (v.base stack).pathOf v.part.heading.title⟩

/-- The stack behind the section. -/
def stackOn (v : Visit) (stack : ScopeStack) : ScopeStack :=
  .opened v.handle (v.scopeOn stack) :: (v.base stack).fillTo v.level

/-- The opening of the section's scope and the fragments in it. -/
def body (v : Visit) (scope : Scope) : List RunStep :=
  .opened scope (some (String.ofList v.part.heading.raw)) (.ok v.handle) ::
    v.entries.flatMap (Entry.steps scope)

def steps (v : Visit) (stack : ScopeStack) : List RunStep :=
  closings (stack.take (stack.excess v.level)) ++ v.body (v.scopeOn stack)

end Visit

/-- The steps of sections that are entered one after the other. -/
def visitSteps (stack : ScopeStack) : List Visit → List RunStep
  | [] => []
  | v :: rest => v.steps stack ++ visitSteps (v.stackOn stack) rest

def visitStack (stack : ScopeStack) (visits : List Visit) : ScopeStack :=
  visits.foldl (fun stack v => v.stackOn stack) stack

theorem adds_enter (h : Host σ) {level : Nat} (hlevel : 0 < level) (name : String)
    (heading : Option String) (stack : ScopeStack) (t : Traced σ) :
    Adds stackSteps t.steps (ScopeStack.enter (Traced.host h) level name heading (stack, t))
      fun added => ∃ handle t',
        let base : ScopeStack := stack.drop (stack.excess level)
        let scope : Scope := ⟨name, level, base.pathOf name⟩
        ScopeStack.enter (Traced.host h) level name heading (stack, t) =
          .ok handle (.opened handle scope :: base.fillTo level, t') ∧
        added = closings (stack.take (stack.excess level)) ++
          [.opened scope heading (.ok handle)] := by
  rw [ScopeStack.enter_eq hlevel]
  refine Adds.bind (adds_popUpTo h (stack.excess level) stack t) ?_ ?_
  · rintro e t' herror added ⟨t₁, hok, -⟩
    simp [herror] at hok
  · rintro a ⟨rest, t₁⟩ hact added
    refine (adds_openOn h level name heading rest t₁).mono ?_
    rintro more ⟨handle, t', hopen, hmore⟩ ⟨t₂, hok, hadded⟩
    rw [hact] at hok
    injection hok with _ hstate
    injection hstate with hrest _
    subst hrest
    refine ⟨handle, t', ?_, ?_⟩
    · rw [run_bind_of_ok hact, hopen]
    · rw [hadded, hmore]

/-- The scope of a section is opened for its heading. -/
theorem adds_onStack_enter (h : Host σ) (heading : Document.Heading) (hlevel : 0 < heading.level)
    (p : Progress (Traced σ)) :
    let outcome := Run.onStack (ScopeStack.enter (Traced.host h) heading.level heading.title
      (some (String.ofList heading.raw))) p
    Adds Progress.steps p.steps outcome fun added => ∃ handle p',
      let base : ScopeStack := p.stack.drop (p.stack.excess heading.level)
      let scope : Scope := ⟨heading.title, heading.level, base.pathOf heading.title⟩
      outcome = .ok handle p' ∧ p'.stack = .opened handle scope :: base.fillTo heading.level ∧
        p'.counts = p.counts ∧
        added = closings (p.stack.take (p.stack.excess heading.level)) ++
          [.opened scope (some (String.ofList heading.raw)) (.ok handle)] := by
  obtain ⟨added, hview, hQ⟩ := adds_enter h hlevel heading.title
    (some (String.ofList heading.raw)) p.stack p.machine.host
  refine ⟨added, ?_, ?_⟩
  · simp only [Run.onStack]
    cases houtcome : ScopeStack.enter (Traced.host h) heading.level heading.title
        (some (String.ofList heading.raw)) (p.stack, p.machine.host) with
    | ok handle after =>
      rw [houtcome] at hview
      exact hview
    | error e after =>
      rw [houtcome] at hview
      exact hview
  · intro hgranted
    obtain ⟨handle, t', hok, hadded⟩ := hQ hgranted
    simp only [Run.onStack, hok]
    exact ⟨handle, _, rfl, rfl, rfl, hadded⟩

theorem adds_runSection (h : Host σ) (run : Runner σ) (source : Source) (part : Document.Section)
    (hlevel : 0 < part.heading.level) (p : Progress (Traced σ)) :
    let outcome := Run.runSection source (Traced.host h) (Traced.runner run) part p
    Adds Progress.steps p.steps outcome fun added =>
      ∃ (handle : Handle) (planned : List Entry) (p' : Progress (Traced σ)),
        let v : Visit := ⟨part, handle, upTo Entry.stops (upTo Entry.skips planned)⟩
        planned.map Prod.fst = part.children.map (.ofContent source) ∧
        added = v.steps p.stack ∧ p'.stack = v.stackOn p.stack ∧
        Settles (upTo Entry.skips planned)
          (Entry.tally 1 (upTo Entry.skips planned) p.counts) outcome p' := by
  dsimp only
  rw [Run.runSection_eq]
  let q : Progress (Traced σ) := { p with counts := Run.countSection p.counts }
  refine Adds.bind (t := q) (adds_onStack_enter h part.heading hlevel q) ?_ ?_
  · rintro e p' herror added ⟨handle, p₁, hok, -⟩
    simp [herror] at hok
  · intro handle p₁ hact added
    obtain ⟨planned, p', hunits, hsteps, hstack, hsettles⟩ :=
      runContents_traced h run source part.children p₁
    refine ⟨(upTo Entry.stops (upTo Entry.skips planned)).flatMap
      (Entry.steps (bodyScope source p₁.stack)), ?_, ?_⟩
    · rw [hsettles.stateOf_eq, hsteps]
    · rintro - ⟨handle', p₂, hok, hstack', hcounts, hadded⟩
      rw [hact] at hok
      injection hok with hhandle hp
      subst hhandle hp
      refine ⟨handle, planned, p', hunits, ?_, hstack.trans hstack', ?_⟩
      · have hscope : bodyScope source p₁.stack =
            Visit.scopeOn ⟨part, handle, upTo Entry.stops (upTo Entry.skips planned)⟩ p.stack := by
          rw [hstack']
          rfl
        rw [hadded, hscope, List.append_assoc]
        rfl
      · rw [run_bind_of_ok hact]
        rw [hcounts, Entry.tally_section] at hsettles
        exact hsettles

/-- The fragments of sections that are planned with their ends, and the sections that are entered
before one of the fragments stops the run. -/
structure Plans (source : Source) (sections : List Document.Section)
    (planned : List (List Entry)) (visits : List Visit) : Prop where
  units : planned.map (·.map Prod.fst) =
    sections.map fun part => part.children.map (.ofContent source)
  entries : visits.flatMap Visit.entries = upTo Entry.stops (planned.flatMap (upTo Entry.skips))
  parts : visits.map Visit.part <+: sections
  content : ∀ v ∈ visits, v.entries.map Prod.fst <+: v.part.children.map (.ofContent source)
  all : (planned.flatMap (upTo Entry.skips)).any Entry.stops = false →
    visits.map Visit.part = sections

/-- The rest of a plan is left out behind a fragment that stops the run. -/
theorem Plans.last {source : Source} {part : Document.Section} {entries : List Entry}
    (hunits : entries.map Prod.fst = part.children.map (.ofContent source))
    (hstop : (upTo Entry.skips entries).any Entry.stops = true) (handle : Handle)
    (rest : List Document.Section) :
    ∃ planned, Plans source (part :: rest) (entries :: planned)
      [⟨part, handle, upTo Entry.stops (upTo Entry.skips entries)⟩] := by
  refine ⟨rest.map fun part => part.children.map fun c => (.ofContent source c, .passed), ?_⟩
  refine ⟨?_, ?_, ?_, ?_, ?_⟩
  · simp [hunits]
  · rw [List.flatMap_cons (f := upTo Entry.skips), upTo_append_of_any _ hstop]
    simp
  · simp
  · intro v hv
    obtain rfl := List.mem_singleton.mp hv
    exact units_isPrefix hunits
  · intro hnone
    simp [hstop] at hnone

theorem Plans.cons {source : Source} {part : Document.Section} {entries : List Entry}
    {rest : List Document.Section} {planned : List (List Entry)} {visits : List Visit}
    (hunits : entries.map Prod.fst = part.children.map (.ofContent source))
    (hnone : (upTo Entry.skips entries).any Entry.stops = false) (handle : Handle)
    (hrest : Plans source rest planned visits) :
    Plans source (part :: rest) (entries :: planned)
      (⟨part, handle, upTo Entry.stops (upTo Entry.skips entries)⟩ :: visits) := by
  refine ⟨?_, ?_, ?_, ?_, ?_⟩
  · rw [List.map_cons, hunits, hrest.units, List.map_cons]
  · rw [List.flatMap_cons, List.flatMap_cons, upTo_append_of_none _ hnone, upTo_of_none hnone,
      hrest.entries]
  · simpa using hrest.parts
  · intro v hv
    rcases List.mem_cons.mp hv with rfl | hv
    · exact units_isPrefix hunits
    · exact hrest.content v hv
  · intro hall
    rw [List.flatMap_cons, List.any_append, hnone, Bool.false_or] at hall
    rw [List.map_cons, hrest.all hall]

theorem adds_runSections (h : Host σ) (run : Runner σ) (source : Source)
    (sections : List Document.Section) (hlevels : ∀ part ∈ sections, 0 < part.heading.level)
    (p : Progress (Traced σ)) :
    let outcome := Run.runSections source (Traced.host h) (Traced.runner run) sections p
    Adds Progress.steps p.steps outcome fun added =>
      ∃ (planned : List (List Entry)) (visits : List Visit) (p' : Progress (Traced σ)),
        Plans source sections planned visits ∧ added = visitSteps p.stack visits ∧
        p'.stack = visitStack p.stack visits ∧
        Settles (planned.flatMap (upTo Entry.skips))
          (Entry.tally sections.length (planned.flatMap (upTo Entry.skips)) p.counts)
          outcome p' := by
  dsimp only
  induction sections generalizing p with
  | nil =>
    refine ⟨[], (List.append_nil _).symm, fun _ => ⟨[], [], p, ?_, rfl, rfl, rfl, rfl⟩⟩
    exact ⟨rfl, rfl, List.prefix_refl [], by simp, fun _ => rfl⟩
  | cons part rest ih =>
    rw [Run.runSections]
    have hpart := adds_runSection h run source part (hlevels part (by simp)) p
    refine Adds.bind hpart ?_ ?_
    · rintro e p₁ herror added ⟨handle, entries, p', hunits, hadded, hstack, hsettles⟩
      rw [herror] at hsettles
      obtain ⟨hstop, rfl⟩ := hsettles.stop_of_error
      obtain ⟨planned, hplans⟩ := Plans.last hunits hstop handle rest
      refine ⟨entries :: planned, _, p₁, hplans, ?_, hstack, ?_⟩
      · rw [hadded]
        exact (List.append_nil _).symm
      · rw [run_bind_of_error herror]
        exact Settles.of_stop (by simp [hstop]) ⟨e, rfl⟩
    · intro a p₁ hact added
      refine (ih (fun part hpart => hlevels part (List.mem_cons_of_mem _ hpart)) p₁).mono ?_
      rintro more ⟨planned, visits, p', hplans, hmore, hstack', hsettles'⟩
        ⟨handle, entries, p₂, hunits, hadded, hstack, hsettles⟩
      rw [hact] at hsettles
      obtain ⟨hnone, rfl, hcounts⟩ := hsettles.none_of_ok
      refine ⟨entries :: planned, _, p', hplans.cons hunits hnone handle, ?_, ?_, ?_⟩
      · rw [hadded, hmore, hstack, visitSteps]
      · rw [hstack', hstack]
        rfl
      · rw [run_bind_of_ok hact]
        rw [hcounts, Entry.tally_tally, Nat.add_comm 1] at hsettles'
        exact hsettles'.behind hnone

end LiveDoc
