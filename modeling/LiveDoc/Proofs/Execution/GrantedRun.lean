import LiveDoc.Proofs.Execution.SectionTrace

/-!
The trace of a whole run in which the host refuses no scope: the scope of the header, the content
before the first heading, the sections, and the closing of what is still open. The fragments are
planned with their ends. In each part, those behind the first one that skips the rest are left
out, and in the whole document, those behind the first one that stops the run.
-/
namespace LiveDoc

open Outcome

variable {σ : Type}

/-- The scope of the header, with its fragment. -/
def headerSteps (f : Handle × Entry) : List RunStep :=
  .opened Run.headerScope none (.ok f.1) ::
    (Entry.steps Run.headerScope f.2 ++ [.closed f.1 (.ok ())])

theorem adds_runHeader (h : Host σ) (run : Runner σ) (source : Source) (header : Document.Header)
    (p : Progress (Traced σ)) :
    let outcome := Run.runHeader source (Traced.host h) (Traced.runner run) header p
    Adds Progress.steps p.steps outcome fun added =>
      ∃ (handle : Handle) (last : UnitEnd) (p' : Progress (Traced σ)),
        let entry : Entry := (.ofText source (.header header), last)
        added = headerSteps (handle, entry) ∧ p'.stack = p.stack ∧
        Settles [entry] (Entry.tally 0 [entry] p.counts) outcome p' := by
  dsimp only
  rw [Run.runHeader_eq]
  generalize FragmentUnit.ofText source (.header header) = u
  obtain ⟨first, hfirst, hopen⟩ := adds_openScope h Run.headerScope none p.machine.host
  cases hscope : (Traced.host h).openScope Run.headerScope none p.machine.host with
  | error e t =>
    rw [hscope] at hfirst
    refine ⟨first, hfirst, ?_⟩
    intro hgranted
    obtain ⟨handle, t', hok, -⟩ := hopen hgranted
    simp [hscope] at hok
  | ok handle t =>
    rw [hscope] at hfirst
    obtain ⟨last, p₁, hsteps, hstack, houtcome⟩ :=
      dispatch_traced h run source Run.headerScope u (p.withHost t)
    obtain ⟨more, hmore, hclose⟩ := adds_closeScope h handle p₁.machine.host
    -- The scope is closed behind the fragment in any case.
    let after := p₁.withHost (stateOf ((Traced.host h).closeScope handle p₁.machine.host))
    have hafter : after.steps =
        p.steps ++ (first ++ (Entry.steps Run.headerScope (u, last) ++ more)) := by
      have hsteps' : p₁.machine.host.steps = t.steps ++ Entry.steps Run.headerScope (u, last) :=
        hsteps
      have hfirst' : t.steps = p.steps ++ first := hfirst
      change (stateOf ((Traced.host h).closeScope handle p₁.machine.host)).steps = _
      rw [hmore, hsteps', hfirst']
      simp
    have hadded : Granted (first ++ (Entry.steps Run.headerScope (u, last) ++ more)) →
        first ++ (Entry.steps Run.headerScope (u, last) ++ more) = headerSteps (handle, (u, last)) ∧
          ∃ t', (Traced.host h).closeScope handle p₁.machine.host = .ok () t' := by
      intro hgranted
      obtain ⟨hgranted, hrest⟩ := granted_append.mp hgranted
      obtain ⟨handle', t', hok, hopened⟩ := hopen hgranted
      obtain ⟨t₁, hclosed, hlast⟩ := hclose (granted_append.mp hrest).2
      rw [hscope] at hok
      injection hok with hhandle _
      subst hhandle
      exact ⟨by rw [hopened, hlast]; rfl, t₁, hclosed⟩
    cases hstop : Entry.stops (u, last) with
    | true =>
      rw [if_pos hstop] at houtcome
      obtain ⟨e, houtcome⟩ := houtcome
      simp only [houtcome]
      refine ⟨_, hafter, ?_⟩
      intro hgranted
      exact ⟨handle, last, after, (hadded hgranted).1, hstack,
        Settles.of_stop (by simp [hstop]) ⟨e, rfl⟩⟩
    | false =>
      rw [hstop] at houtcome
      obtain ⟨houtcome, hcounts⟩ := houtcome
      simp only [houtcome]
      refine ⟨first ++ (Entry.steps Run.headerScope (u, last) ++ more), ?_, ?_⟩
      · rw [← hafter]
        simp only [Run.onHost]
        cases hclosed : (Traced.host h).closeScope handle p₁.machine.host with
        | ok a t' => simp [after, hclosed, stateOf, Progress.withHost]
        | error e t' => simp [after, hclosed, stateOf, Progress.withHost]
      · intro hgranted
        obtain ⟨hadded, t', hclosed⟩ := hadded hgranted
        have hok : Run.onHost ((Traced.host h).closeScope handle) p₁ = .ok () after := by
          simp only [Run.onHost, after, hclosed, stateOf, Progress.withHost]
        exact ⟨handle, last, after, hadded, hstack,
          Settles.of_none (by simp [hstop]) ⟨hok, hcounts⟩⟩

/-- The header's fragment is all of its part, so that a failure of it skips nothing. -/
theorem adds_runFront (h : Host σ) (run : Runner σ) (source : Source)
    (header : Option Document.Header) (p : Progress (Traced σ)) :
    let outcome := Run.runFront source (Traced.host h) (Traced.runner run) header p
    Adds Progress.steps p.steps outcome fun added =>
      ∃ (front : List (Handle × Entry)) (p' : Progress (Traced σ)),
        front.map (·.2.1) = header.toList.map (fun header => .ofText source (.header header)) ∧
        added = front.flatMap headerSteps ∧
        p'.stack = p.stack ∧
        Settles (front.map Prod.snd) (Entry.tally 0 (front.map Prod.snd) p.counts) outcome p' := by
  cases header with
  | none => exact ⟨[], (List.append_nil _).symm, fun _ => ⟨[], p, rfl, rfl, rfl, rfl, rfl⟩⟩
  | some header =>
    refine (adds_runHeader h run source header p).mono ?_
    rintro added ⟨handle, last, p', hadded, hstack, hsettles⟩
    refine ⟨[(handle, (.ofText source (.header header), last))], p', rfl, ?_, hstack, hsettles⟩
    rw [hadded]
    simp

/-- The fragments that a document is run as, part by part. -/
def Document.parts (source : Source) (d : Document) : List (List FragmentUnit) :=
  d.header.toList.map (fun header => [.ofText source (.header header)]) ++
    d.intro.map (.ofContent source) ::
    d.sections.map fun part => part.children.map (.ofContent source)

/-- What a run has come through: the scope of the header, the content before the first heading,
and the sections. -/
structure Course where
  front : List (Handle × Entry)
  intro : List Entry
  visits : List Visit

namespace Course

def entries (c : Course) : List Entry :=
  c.front.map Prod.snd ++ c.intro ++ c.visits.flatMap Visit.entries

/-- The steps up to the closing of all scopes. -/
def steps (source : Source) (c : Course) : List RunStep :=
  c.front.flatMap headerSteps ++
    c.intro.flatMap (Entry.steps (Run.documentScope source)) ++
    (visitSteps [] c.visits ++ closings (visitStack [] c.visits))

end Course

/-- The fragments of a document that are planned with their ends, and how far a run comes. -/
structure Through (source : Source) (d : Document) (planned : List (List Entry)) (c : Course) :
    Prop where
  units : planned.map (·.map Prod.fst) = d.parts source
  entries : c.entries = upTo Entry.stops (planned.flatMap (upTo Entry.skips))
  front : c.front.map (·.2.1) = d.header.toList.map fun header => .ofText source (.header header)
  intro : c.intro.map Prod.fst <+: d.intro.map (.ofContent source)
  parts : c.visits.map Visit.part <+: d.sections
  content : ∀ v ∈ c.visits, v.entries.map Prod.fst <+: v.part.children.map (.ofContent source)
  all : (planned.flatMap (upTo Entry.skips)).any Entry.stops = false →
    c.visits.map Visit.part = d.sections

section Through

variable {source : Source} {d : Document} {front : List (Handle × Entry)} {intro : List Entry}
  {planned : List (List Entry)} {visits : List Visit}

/-- The plan of a document, part by part. -/
theorem units_of_parts (hfront : front.map (·.2.1) =
      d.header.toList.map fun header => .ofText source (.header header))
    (hintro : intro.map Prod.fst = d.intro.map (.ofContent source))
    (hsections : planned.map (·.map Prod.fst) =
      d.sections.map fun part => part.children.map (.ofContent source)) :
    (front.map (fun f => [f.2]) ++ intro :: planned).map (·.map Prod.fst) = d.parts source := by
  have hheader : (front.map (fun f => [f.2])).map (·.map Prod.fst) =
      d.header.toList.map fun header => [FragmentUnit.ofText source (.header header)] := by
    have hsingle := congrArg (List.map fun u => [u]) hfront
    rw [List.map_map, List.map_map] at hsingle
    rw [List.map_map]
    exact hsingle
  rw [List.map_append, hheader, List.map_cons, hintro, hsections, Document.parts]

theorem skipped_front (front : List (Handle × Entry)) (rest : List (List Entry)) :
    (front.map (fun f => [f.2]) ++ rest).flatMap (upTo Entry.skips) =
      front.map Prod.snd ++ rest.flatMap (upTo Entry.skips) := by
  rw [List.flatMap_append]
  congr 1
  induction front with
  | nil => rfl
  | cons f rest ih =>
    rw [List.map_cons, List.flatMap_cons, ih, List.map_cons]
    by_cases hskip : f.2.skips = true <;> simp [upTo, hskip]

theorem stopped_front (hfront : front.map (·.2.1) =
      d.header.toList.map fun header => .ofText source (.header header)) :
    upTo Entry.stops (front.map Prod.snd) = front.map Prod.snd := by
  have hlength := congrArg List.length hfront
  match front, hlength with
  | [], _ => rfl
  | [f], _ => by_cases hstop : f.2.stops = true <;> simp [upTo, hstop]
  | f :: f' :: rest, hlength =>
    cases hheader : d.header with
    | none => simp [hheader] at hlength
    | some header => simp [hheader] at hlength

/-- Fragments that are left out are planned to pass. -/
def passing (parts : List (List FragmentUnit)) : List (List Entry) :=
  parts.map (·.map fun u => (u, .passed))

theorem units_passing (parts : List (List FragmentUnit)) :
    (passing parts).map (·.map Prod.fst) = parts := by
  have hunits (units : List FragmentUnit) :
      (units.map fun u => (u, UnitEnd.passed)).map Prod.fst = units := by
    rw [List.map_map]
    exact List.map_id units
  rw [passing, List.map_map]
  exact (List.map_congr_left fun units _ => hunits units).trans (List.map_id _)

namespace Through

/-- The header's fragment stops the run. -/
theorem of_front (hfront : front.map (·.2.1) =
      d.header.toList.map fun header => .ofText source (.header header))
    (hstop : (front.map Prod.snd).any Entry.stops = true) :
    ∃ planned, Through source d planned ⟨front, [], []⟩ ∧
      (planned.flatMap (upTo Entry.skips)).any Entry.stops = true := by
  let rest := passing (d.intro.map (.ofContent source) ::
    d.sections.map fun part => part.children.map (.ofContent source))
  have hskip := skipped_front front rest
  have hany : ((front.map (fun f => [f.2]) ++ rest).flatMap (upTo Entry.skips)).any Entry.stops =
      true := by
    rw [hskip, List.any_append, hstop, Bool.true_or]
  refine ⟨front.map (fun f => [f.2]) ++ rest, ?_, hany⟩
  refine ⟨?_, ?_, hfront, by simp, by simp, by simp, ?_⟩
  · exact units_of_parts hfront (by simp) (units_passing _)
  · rw [hskip, upTo_append_of_any _ hstop, stopped_front hfront]
    simp [Course.entries]
  · intro hnone
    rw [hany] at hnone
    simp at hnone

/-- A fragment before the first heading stops the run. -/
theorem of_intro (hfront : front.map (·.2.1) =
      d.header.toList.map fun header => .ofText source (.header header))
    (hnone : (front.map Prod.snd).any Entry.stops = false)
    (hintro : intro.map Prod.fst = d.intro.map (.ofContent source))
    (hstop : (upTo Entry.skips intro).any Entry.stops = true) :
    ∃ planned, Through source d planned ⟨front, upTo Entry.stops (upTo Entry.skips intro), []⟩ ∧
      (planned.flatMap (upTo Entry.skips)).any Entry.stops = true := by
  let rest := passing (d.sections.map fun part => part.children.map (.ofContent source))
  have hskip := skipped_front front (intro :: rest)
  rw [List.flatMap_cons] at hskip
  have hany : ((front.map (fun f => [f.2]) ++ intro :: rest).flatMap (upTo Entry.skips)).any
      Entry.stops = true := by
    rw [hskip, List.any_append, List.any_append, hstop, Bool.true_or, Bool.or_true]
  refine ⟨front.map (fun f => [f.2]) ++ intro :: rest, ?_, hany⟩
  refine ⟨?_, ?_, hfront, units_isPrefix hintro, by simp, by simp, ?_⟩
  · exact units_of_parts hfront hintro (units_passing _)
  · rw [hskip, upTo_append_of_none _ hnone, upTo_append_of_any _ hstop]
    simp [Course.entries]
  · intro hnone
    rw [hany] at hnone
    simp at hnone

/-- The run comes to the sections. -/
theorem of_sections (hfront : front.map (·.2.1) =
      d.header.toList.map fun header => .ofText source (.header header))
    (hnone : (front.map Prod.snd).any Entry.stops = false)
    (hintro : intro.map Prod.fst = d.intro.map (.ofContent source))
    (hnone' : (upTo Entry.skips intro).any Entry.stops = false)
    (hplans : Plans source d.sections planned visits) :
    Through source d (front.map (fun f => [f.2]) ++ intro :: planned)
      ⟨front, upTo Entry.stops (upTo Entry.skips intro), visits⟩ := by
  have hskip := skipped_front front (intro :: planned)
  rw [List.flatMap_cons] at hskip
  refine ⟨?_, ?_, hfront, units_isPrefix hintro, hplans.parts, hplans.content, ?_⟩
  · exact units_of_parts hfront hintro hplans.units
  · rw [hskip, upTo_append_of_none _ hnone, upTo_append_of_none _ hnone', ← hplans.entries,
      Course.entries, upTo_of_none hnone', List.append_assoc]
  · intro hall
    rw [hskip, List.any_append, hnone, Bool.false_or, List.any_append, hnone', Bool.false_or]
      at hall
    exact hplans.all hall

end Through

end Through

theorem adds_runBody (h : Host σ) (run : Runner σ) (source : Source) (d : Document)
    (hlevels : ∀ part ∈ d.sections, 0 < part.heading.level) {p : Progress (Traced σ)}
    (hstack : p.stack = []) :
    let outcome := Run.runBody source (Traced.host h) (Traced.runner run) d p
    Adds Progress.steps p.steps outcome fun added =>
      ∃ (planned : List (List Entry)) (c : Course) (p' : Progress (Traced σ)),
        Through source d planned c ∧ added ++ closings p'.stack = c.steps source ∧
        Settles (planned.flatMap (upTo Entry.skips))
          (Entry.tally d.sections.length (planned.flatMap (upTo Entry.skips)) p.counts)
          outcome p' := by
  dsimp only
  rw [Run.runBody_eq]
  refine Adds.bind (adds_runFront h run source d.header p) ?_ ?_
  · rintro e p₁ herror added ⟨front, p', hfront, hadded, hstack', hsettles⟩
    rw [herror] at hsettles
    obtain ⟨hstop, rfl⟩ := hsettles.stop_of_error
    obtain ⟨planned, hthrough, hany⟩ := Through.of_front hfront hstop
    refine ⟨planned, _, p₁, hthrough, ?_, ?_⟩
    · rw [hadded, hstack', hstack]
      simp [Course.steps, visitSteps, visitStack, closings]
    · rw [run_bind_of_error herror]
      exact Settles.of_stop hany ⟨e, rfl⟩
  · rintro a p₁ hact₁ added
    obtain ⟨intro, p₂, hintro, hsteps, hstack₂, hsettles₂⟩ :=
      runContents_traced h run source d.intro p₁
    let entries := upTo Entry.stops (upTo Entry.skips intro)
    have hfirst : Adds Progress.steps p₁.steps
        (Run.runContents source (Traced.host h) (Traced.runner run) d.intro p₁)
        (· = entries.flatMap (Entry.steps (bodyScope source p₁.stack))) :=
      ⟨_, by rw [hsettles₂.stateOf_eq, hsteps], fun _ => rfl⟩
    refine Adds.bind hfirst ?_ ?_
    · rintro e p' herror more rfl ⟨front, p₃, hfront, hadded, hstack₁, hsettles₁⟩
      rw [hact₁] at hsettles₁
      obtain ⟨hnone, rfl, hcounts₁⟩ := hsettles₁.none_of_ok
      rw [herror] at hsettles₂
      obtain ⟨hstop, rfl⟩ := hsettles₂.stop_of_error
      obtain ⟨planned, hthrough, hany⟩ := Through.of_intro hfront hnone hintro hstop
      refine ⟨planned, _, p', hthrough, ?_, ?_⟩
      · rw [hadded, hstack₂, hstack₁, hstack]
        simp [Course.steps, visitSteps, visitStack, closings, entries, bodyScope,
          ScopeStack.current?]
      · rw [run_bind_of_ok hact₁, run_bind_of_error herror]
        exact Settles.of_stop hany ⟨e, rfl⟩
    · rintro b p' hact₂ more
      refine (adds_runSections h run source d.sections hlevels p').mono ?_
      rintro last ⟨planned, visits, p₄, hplans, hlast, hstack₄, hsettles₄⟩ rfl
        ⟨front, p₃, hfront, hadded, hstack₁, hsettles₁⟩
      rw [hact₁] at hsettles₁
      obtain ⟨hnone, rfl, hcounts₁⟩ := hsettles₁.none_of_ok
      rw [hact₂] at hsettles₂
      obtain ⟨hnone', rfl, hcounts₂⟩ := hsettles₂.none_of_ok
      have hempty : p'.stack = [] := hstack₂.trans (hstack₁.trans hstack)
      refine ⟨_, _, p₄, Through.of_sections hfront hnone hintro hnone' hplans, ?_, ?_⟩
      · rw [hadded, hstack₄, hlast, hempty, hstack₁, hstack]
        simp [Course.steps, entries, bodyScope, ScopeStack.current?]
      · rw [run_bind_of_ok hact₁, run_bind_of_ok hact₂, skipped_front, List.flatMap_cons]
        rw [hcounts₂, hcounts₁, Entry.tally_tally, Entry.tally_tally] at hsettles₄
        simpa using (hsettles₄.behind hnone').behind hnone

/-- A run that ends with an error other than a failure that was reported tells it at last. -/
def fatalSteps : RunResult → List RunStep
  | .ok _ => []
  | .error e => if e.isFragment then [] else [.fatal e.message]

theorem steps_execute (source : Source) (h : Host σ) (run : Runner (Traced σ)) (d : Document)
    (m : Machine (Traced σ)) :
    let outcome := execute source (Traced.host h) run d m
    let closed := closeRun (Traced.host h)
      (Run.runBody source (Traced.host h) run d ⟨m, [], ⟨0, 0, 0, 0⟩⟩)
    outcome.1 = closed.1 ∧ outcome.2.host.steps = closed.2.host.steps ++ fatalSteps closed.1 := by
  simp only [execute]
  cases hclosed : (closeRun (Traced.host h)
      (Run.runBody source (Traced.host h) run d ⟨m, [], ⟨0, 0, 0, 0⟩⟩)).1 with
  | ok counts => simp [fatalSteps]
  | error e =>
    by_cases hfragment : e.isFragment = true
    · simp [fatalSteps, hfragment]
    · simp [fatalSteps, hfragment, reportFatal, Traced.host, Traced.add]

/-- The trace of a run in which no scope is refused, and what it counts if nothing stops it. -/
theorem executeTraced_of_granted (source : Source) (h : Host σ) (run : Runner σ) (d : Document)
    (hlevels : ∀ part ∈ d.sections, 0 < part.heading.level) (m : Machine σ)
    (hgranted : Granted (executeTraced source h run d m).2.host.steps) :
    ∃ (planned : List (List Entry)) (c : Course),
      let traced := executeTraced source h run d m
      Through source d planned c ∧ traced.2.host.steps = c.steps source ++ fatalSteps traced.1 ∧
      ∀ counts, traced.1 = .ok counts ↔
        (planned.flatMap (upTo Entry.skips)).any Entry.stops = false ∧
          counts =
            Entry.tally d.sections.length (planned.flatMap (upTo Entry.skips)) ⟨0, 0, 0, 0⟩ := by
  obtain ⟨hresult, hsteps⟩ :=
    steps_execute source h (Traced.runner run) d ⟨m.environment, ⟨m.host, []⟩⟩
  obtain ⟨added, hview, hbody⟩ := adds_runBody h run source d hlevels
    (p := ⟨⟨m.environment, ⟨m.host, []⟩⟩, [], ⟨0, 0, 0, 0⟩⟩) rfl
  dsimp only
  rw [executeTraced] at hgranted ⊢
  rw [hresult, hsteps]
  rw [hsteps] at hgranted
  obtain ⟨hgranted, -⟩ := granted_append.mp hgranted
  generalize Run.runBody source (Traced.host h) (Traced.runner run) d
    ⟨⟨m.environment, ⟨m.host, []⟩⟩, [], ⟨0, 0, 0, 0⟩⟩ = outcome at *
  obtain ⟨more, hmore, hclose⟩ :=
    adds_closeEach h (stateOf outcome).stack (stateOf outcome).machine.host
  have hview : (stateOf outcome).machine.host.steps = added := hview
  have hall : (closeRun (Traced.host h) outcome).2.host.steps = added ++ more := by
    rw [host_closeRun, hmore, hview]
  rw [hall] at hgranted ⊢
  obtain ⟨hadded, hmore⟩ := granted_append.mp hgranted
  obtain ⟨planned, c, p', hthrough, hsteps, hsettles⟩ := hbody hadded
  obtain ⟨hnone, hmore⟩ := hclose hmore
  refine ⟨planned, c, hthrough, ?_, ?_⟩
  · rw [hmore, hsettles.stateOf_eq, hsteps]
  · cases hstop : (planned.flatMap (upTo Entry.skips)).any Entry.stops with
    | true =>
      obtain ⟨e, rfl⟩ := hsettles.error_of_stop hstop
      have herror : (closeRun (Traced.host h) (.error e p')).1 = .error e := rfl
      simp [herror]
    | false =>
      obtain ⟨rfl, hcounts⟩ := hsettles.ok_of_none hstop
      have hnone : (ScopeStack.closeEach (Traced.host h) p'.stack p'.machine.host).1 = none := hnone
      have hok : (closeRun (Traced.host h) (.ok () p')).1 = .ok p'.counts := by
        simp only [closeRun, hnone]
      simp [hok, hcounts, eq_comm]

end LiveDoc
