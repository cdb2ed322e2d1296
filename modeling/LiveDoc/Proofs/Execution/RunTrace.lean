import LiveDoc.Execution.Recorder
import LiveDoc.Proofs.Environment
import LiveDoc.Proofs.Execution.Simulation

/-!
The trace of a run. It holds what the run itself asks of its host, and the fragments in the order
in which they are run, each with what it finds bound at its start and with how it ends. What the
fragments ask of the host is not in it, so they may be run in any way. Without its trace, the run
is the plain one.
-/
namespace LiveDoc

open Outcome

/-- What a run does by itself. -/
inductive RunStep where
  | opened (scope : Scope) (heading : Option String) (result : Except HostError Handle)
  | closed (handle : Handle) (result : Except HostError Unit)
  | started (record : UnitRecord)
  /-- The fragment that was started has come to its end, or it has been stopped. -/
  | ended (stop : Option FragmentStop)
  | reported (e : FragmentError) (action : ErrorAction)
  | fatal (message : String)

/-- The state of a host with the steps of a run so far, oldest first. -/
structure Traced (σ : Type) where
  inner : σ
  steps : List RunStep

namespace Traced

variable {σ α : Type}

def add (t : Traced σ) (s : σ) (step : RunStep) : Traced σ := ⟨s, t.steps ++ [step]⟩

def request (act : EStateM HostError σ α) (step : Except HostError α → RunStep) :
    EStateM HostError (Traced σ) α := fun t =>
  match act t.inner with
  | .ok a s => .ok a (t.add s (step (.ok a)))
  | .error e s => .error e (t.add s (step (.error e)))

/-- A request that leaves no trace. -/
def pass (act : EStateM HostError σ α) : EStateM HostError (Traced σ) α := fun t =>
  match act t.inner with
  | .ok a s => .ok a ⟨s, t.steps⟩
  | .error e s => .error e ⟨s, t.steps⟩

def host (h : Host σ) : Host (Traced σ) where
  openScope scope heading := request (h.openScope scope heading) (.opened scope heading)
  closeScope handle := request (h.closeScope handle) (.closed handle)
  emitText text := pass (h.emitText text)
  reportError e t :=
    let (action, s) := h.reportError e t.inner
    (action, t.add s (.reported e action))
  reportFatal message t := t.add (h.reportFatal message t.inner) (.fatal message)
  note text t := ⟨h.note text t.inner, t.steps⟩

/-- What is known of a fragment when it is run in the given environment. -/
def recordOf (environment : Environment) (u : FragmentUnit) : UnitRecord :=
  ⟨u, environment.get? "self", environment.get? "__file__"⟩

/-- Runs fragments without their trace and writes down how each one starts and ends. -/
def runner (run : Runner σ) : Runner (Traced σ) := fun u m =>
  let after (m' : Machine σ) (stop : Option FragmentStop) : Machine (Traced σ) :=
    ⟨m'.environment,
      ⟨m'.host, m.host.steps ++ [.started (recordOf m.environment u), .ended stop]⟩⟩
  match run u ⟨m.environment, m.host.inner⟩ with
  | .ok _ m' => .ok () (after m' none)
  | .error stop m' => .error stop (after m' (some stop))

/-- The state of a traced host belongs to that of the plain one. -/
def Of (t : Traced σ) (s : σ) : Prop := t.inner = s

theorem alike_request (act : EStateM HostError σ α) (step : Except HostError α → RunStep) :
    Alike Of (request act step) act := by
  rintro t s ht
  obtain rfl : t.inner = s := ht
  simp only [request]
  cases act t.inner with
  | ok a s => exact .ok rfl
  | error e s => exact .error rfl

theorem alike_pass (act : EStateM HostError σ α) : Alike Of (pass act) act := by
  rintro t s ht
  obtain rfl : t.inner = s := ht
  simp only [pass]
  cases act t.inner with
  | ok a s => exact .ok rfl
  | error e s => exact .error rfl

theorem hostAlike (h : Host σ) : HostAlike Of (host h) h where
  emit _ := alike_pass _
  openScope _ _ := alike_request _ _
  closeScope _ := alike_request _ _
  note text _ _ ht := congrArg (h.note text) ht
  answer e _ _ ht := congrArg (fun s => (h.reportError e s).1) ht
  report e _ _ ht := congrArg (fun s => (h.reportError e s).2) ht
  fatal message _ _ ht := congrArg (h.reportFatal message) ht

theorem runnerAlike (run : Runner σ) : RunnerAlike Of (runner run) run := by
  rintro u m ⟨environment, s⟩ ⟨henv, hhost⟩
  obtain rfl : m.environment = environment := henv
  obtain rfl : m.host.inner = s := hhost
  simp only [runner]
  cases run u ⟨m.environment, m.host.inner⟩ with
  | ok a m' => exact .ok ⟨rfl, rfl⟩
  | error stop m' => exact .error ⟨rfl, rfl⟩

end Traced

/-- The run of a document with its trace, which is empty at first. -/
def executeTraced {σ : Type} (source : Source) (h : Host σ) (run : Runner σ) (d : Document)
    (m : Machine σ) : RunResult × Machine (Traced σ) :=
  execute source (Traced.host h) (Traced.runner run) d ⟨m.environment, ⟨m.host, []⟩⟩

theorem execute_eq_traced {σ : Type} (source : Source) (h : Host σ) (run : Runner σ)
    (d : Document) (m : Machine σ) :
    execute source h run d m =
      let traced := executeTraced source h run d m
      (traced.1, ⟨traced.2.environment, traced.2.host.inner⟩) := by
  have hstart : OnHosts Traced.Of (⟨m.environment, ⟨m.host, []⟩⟩ : Machine (Traced σ)) m :=
    ⟨rfl, rfl⟩
  obtain ⟨hresult, henv, hhost⟩ :=
    endAlike_execute source (Traced.hostAlike h) (Traced.runnerAlike run) d hstart
  refine Prod.ext hresult.symm ?_
  dsimp only
  rw [executeTraced, henv, hhost]

/-! ### The end of a fragment -/

/-- How the run of a fragment ends. -/
inductive UnitEnd where
  | passed
  /-- It fails, and the host answers the failure. -/
  | answered (e : FragmentError) (action : ErrorAction)
  /-- It is stopped by something else than a failure of its own. -/
  | broken (stop : FragmentStop)

namespace UnitEnd

/-- The rest of the section is left out. -/
def skips : UnitEnd → Bool
  | answered _ .skipSection => true
  | _ => false

/-- The run is over. -/
def stops : UnitEnd → Bool
  | answered _ .halt => true
  | broken _ => true
  | _ => false

theorem skips_of_stops {last : UnitEnd} (h : last.stops = true) : last.skips = false := by
  cases last with
  | passed => rfl
  | answered e action => cases action <;> first | rfl | simp [stops] at h
  | broken stop => rfl

def isAnswered : UnitEnd → Bool
  | answered .. => true
  | _ => false

def steps (record : UnitRecord) : UnitEnd → List RunStep
  | passed => [.started record, .ended none]
  | answered e action =>
    [.started record, .ended (some (.failure e.failure)), .reported e action]
  | broken stop => [.started record, .ended (some stop)]

end UnitEnd

/-- A fragment that was run, and how its run ended. -/
abbrev Entry := FragmentUnit × UnitEnd

namespace Entry

/-- The steps of an entry that is run in the given scope and finds it bound, with its place. -/
def steps (scope : Scope) (entry : Entry) : List RunStep :=
  entry.2.steps ⟨entry.1, some (.scope scope), some (.str entry.1.name)⟩

def skips (entry : Entry) : Bool := entry.2.skips

def stops (entry : Entry) : Bool := entry.2.stops

/-- The counts behind sections that are entered and the fragments in them. -/
def tally (sections : Nat) (entries : List Entry) (c : RunCounts) : RunCounts :=
  { units := c.units + entries.length
    codeUnits := c.codeUnits + entries.countP (·.1.isCode)
    sections := c.sections + sections
    errors := c.errors + entries.countP (·.2.isAnswered) }

theorem tally_passed (u : FragmentUnit) (c : RunCounts) :
    tally 0 [(u, .passed)] c = Run.countUnit u c := by
  cases hcode : u.isCode <;> simp [tally, Run.countUnit, UnitEnd.isAnswered, hcode]

theorem tally_answered (u : FragmentUnit) (e : FragmentError) (action : ErrorAction)
    (c : RunCounts) :
    tally 0 [(u, .answered e action)] c = Run.countError (Run.countUnit u c) := by
  cases hcode : u.isCode <;>
    simp [tally, Run.countUnit, Run.countError, UnitEnd.isAnswered, hcode]

theorem tally_section (entries : List Entry) (c : RunCounts) :
    tally 0 entries (Run.countSection c) = tally 1 entries c := rfl

theorem tally_tally (m n : Nat) (a b : List Entry) (c : RunCounts) :
    tally n b (tally m a c) = tally (m + n) (a ++ b) c := by
  simp [tally, Nat.add_assoc]

end Entry

/-- The items up to the first one that satisfies `p`, with that one. -/
def upTo {α : Type} (p : α → Bool) : List α → List α
  | [] => []
  | a :: rest => if p a then [a] else a :: upTo p rest

section UpTo

variable {α : Type} {p : α → Bool}

theorem upTo_cons_of_pos {a : α} {rest : List α} (h : p a = true) : upTo p (a :: rest) = [a] := by
  simp [upTo, h]

theorem upTo_cons_of_neg {a : α} {rest : List α} (h : p a = false) :
    upTo p (a :: rest) = a :: upTo p rest := by
  simp [upTo, h]

theorem upTo_append_of_any {a : List α} (b : List α) (h : a.any p = true) :
    upTo p (a ++ b) = upTo p a := by
  induction a with
  | nil => simp at h
  | cons x rest ih =>
    rw [List.cons_append]
    by_cases hx : p x = true
    · rw [upTo_cons_of_pos hx, upTo_cons_of_pos hx]
    · have hx : p x = false := by simpa using hx
      have hrest : rest.any p = true := by simpa [hx] using h
      rw [upTo_cons_of_neg hx, upTo_cons_of_neg hx, ih hrest]

theorem upTo_append_of_none {a : List α} (b : List α) (h : a.any p = false) :
    upTo p (a ++ b) = a ++ upTo p b := by
  induction a with
  | nil => rfl
  | cons x rest ih =>
    rw [List.any_cons, Bool.or_eq_false_iff] at h
    rw [List.cons_append, upTo_cons_of_neg h.1, ih h.2, List.cons_append]

theorem upTo_of_none {l : List α} (h : l.any p = false) : upTo p l = l := by
  have happend := upTo_append_of_none [] h
  simpa [upTo] using happend

theorem upTo_isPrefix (l : List α) : upTo p l <+: l := by
  induction l with
  | nil => exact List.prefix_refl []
  | cons x rest ih =>
    by_cases hx : p x = true
    · simp [upTo, hx]
    · simpa [upTo, hx] using ih

end UpTo

/-- The fragments that are run are the first ones of a part. -/
theorem units_isPrefix {entries : List Entry} {units : List FragmentUnit}
    (hunits : entries.map Prod.fst = units) :
    (upTo Entry.stops (upTo Entry.skips entries)).map Prod.fst <+: units := by
  rw [← hunits]
  exact ((upTo_isPrefix _).trans (upTo_isPrefix entries)).map Prod.fst

/-! ### Content -/

variable {σ : Type} {h : Host σ}

def Progress.steps (p : Progress (Traced σ)) : List RunStep := p.machine.host.steps

theorem settle_traced {e : FragmentError} {q : Progress (Traced σ)} {action : ErrorAction} {s : σ}
    (hanswer : h.reportError e q.machine.host.inner = (action, s)) :
    let after := q.withHost (q.machine.host.add s (.reported e action))
    Run.settle (Traced.host h) e q =
      match action with
      | .halt => .error (.fragment e) after
      | .skipSection => .ok .skipSection after.failed
      | .proceed => .ok .next after.failed := by
  simp only [Run.settle, Traced.host, hanswer]
  cases action <;> rfl

/-- One fragment is run, on one stack. Only a fragment that goes on is counted for the result. -/
theorem dispatch_traced (h : Host σ) (run : Runner σ) (source : Source) (scope : Scope)
    (u : FragmentUnit) (p : Progress (Traced σ)) :
    ∃ (last : UnitEnd) (p' : Progress (Traced σ)),
      p'.steps = p.steps ++ Entry.steps scope (u, last) ∧ p'.stack = p.stack ∧
      if Entry.stops (u, last) then
        ∃ e, Run.dispatch source (Traced.host h) (Traced.runner run) scope u p = .error e p'
      else
        Run.dispatch source (Traced.host h) (Traced.runner run) scope u p =
            .ok (if Entry.skips (u, last) then .skipSection else .next) p' ∧
          p'.counts = Entry.tally 0 [(u, last)] p.counts := by
  have hrecord : Traced.recordOf (p.started scope u).machine.environment u =
      ⟨u, some (.scope scope), some (.str u.name)⟩ := by
    obtain ⟨hself, hplace⟩ := Environment.get?_bindUnit p.machine.environment scope u.name
    simp only [Traced.recordOf, Progress.started, hself, hplace]
  rw [Run.dispatch_eq]
  simp only [Traced.runner, hrecord]
  -- The state behind the fragment itself, before a failure is put before the host.
  let after (m : Machine σ) (stop : Option FragmentStop) : Progress (Traced σ) :=
    { p.started scope u with
      machine := ⟨m.environment,
        ⟨m.host, p.steps ++ [.started ⟨u, some (.scope scope), some (.str u.name)⟩, .ended stop]⟩⟩ }
  cases run u ⟨(p.started scope u).machine.environment, (p.started scope u).machine.host.inner⟩ with
  | ok a m => exact ⟨.passed, after m none, rfl, rfl, rfl, (Entry.tally_passed u p.counts).symm⟩
  | error stop m =>
    cases stop with
    | failure f =>
      let e := FragmentError.ofFailure source u f
      cases hanswer : h.reportError e m.host with
      | mk action s =>
        let failed := after m (some (.failure f))
        let p' := failed.withHost (failed.machine.host.add s (.reported e action))
        have hsettle := settle_traced (q := failed) hanswer
        have hsteps : p'.steps = p.steps ++ Entry.steps scope (u, .answered e action) :=
          List.append_assoc _ _ _
        have hcounts := (Entry.tally_answered u e action p.counts).symm
        cases action with
        | halt => exact ⟨.answered e .halt, p', hsteps, rfl, .fragment e, hsettle⟩
        | skipSection => exact ⟨.answered e .skipSection, p'.failed, hsteps, rfl, hsettle, hcounts⟩
        | proceed => exact ⟨.answered e .proceed, p'.failed, hsteps, rfl, hsettle, hcounts⟩
    | host e => exact ⟨.broken (.host e), after m (some (.host e)), rfl, rfl, _, rfl⟩
    | exhausted => exact ⟨.broken .exhausted, after m (some .exhausted), rfl, rfl, _, rfl⟩

/-- Fragments that end the run if one of them stops it, and else leave the counts behind. -/
def Settles (entries : List Entry) (counts : RunCounts)
    (outcome : EStateM.Result RunError (Progress (Traced σ)) Unit) (p' : Progress (Traced σ)) :
    Prop :=
  if entries.any Entry.stops then ∃ e, outcome = .error e p'
  else outcome = .ok () p' ∧ p'.counts = counts

namespace Settles

variable {entries : List Entry} {counts : RunCounts}
  {outcome : EStateM.Result RunError (Progress (Traced σ)) Unit} {p' : Progress (Traced σ)}

theorem of_stop (hstop : entries.any Entry.stops = true) (h : ∃ e, outcome = .error e p') :
    Settles entries counts outcome p' := by
  rw [Settles, if_pos hstop]
  exact h

theorem of_none (hstop : entries.any Entry.stops = false)
    (h : outcome = .ok () p' ∧ p'.counts = counts) : Settles entries counts outcome p' := by
  rw [Settles, hstop]
  exact h

theorem error_of_stop (h : Settles entries counts outcome p')
    (hstop : entries.any Entry.stops = true) : ∃ e, outcome = .error e p' := by
  rwa [Settles, if_pos hstop] at h

theorem ok_of_none (h : Settles entries counts outcome p')
    (hstop : entries.any Entry.stops = false) : outcome = .ok () p' ∧ p'.counts = counts := by
  rwa [Settles, hstop] at h

/-- Fragments that do not stop the run stand in front. -/
theorem behind {first : List Entry} (h : Settles entries counts outcome p')
    (hnone : first.any Entry.stops = false) : Settles (first ++ entries) counts outcome p' := by
  rw [Settles, List.any_append, hnone, Bool.false_or]
  exact h

theorem stateOf_eq (h : Settles entries counts outcome p') : stateOf outcome = p' := by
  cases hstop : entries.any Entry.stops with
  | true =>
    obtain ⟨e, herror⟩ := h.error_of_stop hstop
    rw [herror]
    rfl
  | false =>
    rw [(h.ok_of_none hstop).1]
    rfl

theorem stop_of_error {e : RunError} {q : Progress (Traced σ)}
    (h : Settles entries counts (.error e q) p') : entries.any Entry.stops = true ∧ q = p' := by
  cases hstop : entries.any Entry.stops with
  | true => exact ⟨rfl, h.stateOf_eq⟩
  | false => simpa using (h.ok_of_none hstop).1

theorem none_of_ok {a : Unit} {q : Progress (Traced σ)} (h : Settles entries counts (.ok a q) p') :
    entries.any Entry.stops = false ∧ q = p' ∧ q.counts = counts := by
  cases hstop : entries.any Entry.stops with
  | true => simpa using h.error_of_stop hstop
  | false =>
    obtain ⟨hok, hcounts⟩ := h.ok_of_none hstop
    injection hok with _ hq
    exact ⟨rfl, hq, hq ▸ hcounts⟩

end Settles

/-- The scope that a fragment in the body of a document finds bound. -/
abbrev bodyScope (source : Source) (stack : ScopeStack) : Scope :=
  (ScopeStack.current? stack).getD (Run.documentScope source)

/-- The fragments are planned with their ends. Those behind the first one that skips the rest are
left out, and then those behind the first one that stops the run. -/
theorem runContents_traced (h : Host σ) (run : Runner σ) (source : Source)
    (children : List Document.Content) (p : Progress (Traced σ)) :
    ∃ (planned : List Entry) (p' : Progress (Traced σ)),
      planned.map Prod.fst = children.map (.ofContent source) ∧
      p'.steps = p.steps ++ (upTo Entry.stops (upTo Entry.skips planned)).flatMap
        (Entry.steps (bodyScope source p.stack)) ∧
      p'.stack = p.stack ∧
      Settles (upTo Entry.skips planned) (Entry.tally 0 (upTo Entry.skips planned) p.counts)
        (Run.runContents source (Traced.host h) (Traced.runner run) children p) p' := by
  induction children generalizing p with
  | nil => exact ⟨[], p, rfl, (List.append_nil _).symm, rfl, rfl, rfl⟩
  | cons c rest ih =>
    let u := FragmentUnit.ofContent source c
    obtain ⟨last, p₁, hsteps, hstack, houtcome⟩ :=
      dispatch_traced h run source (bodyScope source p.stack) u p
    rw [Run.runContents_cons]
    -- Fragments that are left out are planned to pass.
    let others : List Entry := rest.map fun c => (.ofContent source c, .passed)
    have hothers : ((u, last) :: others).map Prod.fst = (c :: rest).map (.ofContent source) := by
      simp [others, u]
    cases hstops : Entry.stops (u, last) with
    | true =>
      have hskips : Entry.skips (u, last) = false := UnitEnd.skips_of_stops hstops
      rw [if_pos hstops] at houtcome
      obtain ⟨e, houtcome⟩ := houtcome
      refine ⟨(u, last) :: others, p₁, hothers, ?_, hstack, ?_⟩
      · rw [upTo_cons_of_neg hskips, upTo_cons_of_pos hstops, hsteps]
        simp
      · rw [upTo_cons_of_neg hskips, houtcome]
        exact Settles.of_stop (by simp [hstops]) ⟨e, rfl⟩
    | false =>
      rw [hstops] at houtcome
      obtain ⟨houtcome, hcounts⟩ := houtcome
      cases hskips : Entry.skips (u, last) with
      | true =>
        rw [hskips] at houtcome
        have hlast : upTo Entry.skips ((u, last) :: others) = [(u, last)] := upTo_cons_of_pos hskips
        refine ⟨(u, last) :: others, p₁, hothers, ?_, hstack, ?_⟩
        · rw [hlast, upTo_cons_of_neg hstops, hsteps]
          simp [upTo]
        · rw [hlast, houtcome]
          exact Settles.of_none (by simp [hstops]) ⟨rfl, hcounts⟩
      | false =>
        rw [hskips] at houtcome
        obtain ⟨planned, p', hunits, hsteps', hstack', hsettles⟩ := ih p₁
        refine ⟨(u, last) :: planned, p', ?_, ?_, hstack'.trans hstack, ?_⟩
        · rw [List.map_cons, hunits, List.map_cons]
        · rw [upTo_cons_of_neg hskips, upTo_cons_of_neg hstops, hsteps', hsteps, hstack]
          simp
        · rw [upTo_cons_of_neg hskips, houtcome]
          rw [hcounts, Entry.tally_tally] at hsettles
          have hnone : [(u, last)].any Entry.stops = false := by simp [hstops]
          exact hsettles.behind hnone

end LiveDoc
