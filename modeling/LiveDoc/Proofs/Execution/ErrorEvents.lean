import LiveDoc.Proofs.Execution.RunJournal

/-!
Where errors go, told of the journal of a run. A failure of a fragment is put before the host once,
and only a failure that is answered with a halt becomes the result of the run. Every other error
ends the run and is reported as fatal, at last and once. A fragment that meets an error of the
host makes no further call, and behind it scopes are closed and nothing else is done. So there are
events behind which a run goes on, and events at the end of which it stops; the routes of all
errors can be told from the two of them.
-/
namespace LiveDoc

open Outcome

namespace HostCall

def report? : HostCall → Option (FragmentError × ErrorAction)
  | reported e action => some (e, action)
  | _ => none

def fatal? : HostCall → Option String
  | fatal message => some message
  | _ => none

/-- What the host answers if it does not do what it is asked for. -/
def error? : HostCall → Option HostError
  | opened _ _ (.error e) => some e
  | closed _ (.error e) => some e
  | emitted _ (.error e) => some e
  | _ => none

/-- A call that tells the host of an error. -/
def isReport : HostCall → Bool
  | reported .. => true
  | fatal .. => true
  | _ => false

end HostCall

/-! ### Fragments -/

/-- Calls that tell of no error and meet none. -/
def Smooth (calls : List HostCall) : Prop :=
  ∀ call ∈ calls, call.isReport = false ∧ call.error? = none

/-- The last call fails, and no other does. -/
def FailsLast (e : HostError) (calls : List HostCall) : Prop :=
  ∃ given call, calls = given ++ [call] ∧ Smooth given ∧ call.isReport = false ∧
    call.error? = some e

/-- Fragments tell the host of no error. One that meets an error of the host makes no further call
and hands the error on. -/
def PassesErrors {σ : Type} (run : Runner (Logged σ)) : Prop :=
  ∀ u environment s,
    let outcome := run u ⟨environment, ⟨s, []⟩⟩
    let calls := (stateOf outcome).host.calls
    Smooth calls ∨ ∃ e, FailsLast e calls ∧ resultOf outcome = .error (.host e)

/-- A host that does whatever it is asked for. -/
def obligingHost : Host Unit where
  openScope _ _ := pure 0
  closeScope _ := pure ()
  emitText _ := pure ()
  reportError _ _ := (.proceed, ())
  reportFatal _ _ := ()
  note _ _ := ()

theorem Smooth.concat {calls : List HostCall} {call : HostCall} (h : Smooth calls)
    (hreport : call.isReport = false) (herror : call.error? = none) : Smooth (calls ++ [call]) := by
  intro other hother
  rcases List.mem_append.mp hother with hold | hnew
  · exact h other hold
  · rw [List.mem_singleton.mp hnew]
    exact ⟨hreport, herror⟩

variable {σ : Type}

/-- Until its first failing call, a program runs as on a host that does whatever it is asked for. -/
theorem passesErrors_programs (h : Host σ) (rounds : Nat) :
    PassesErrors (programRunner (Logged.host h) rounds) := by
  have hosts : ServeUntil (fun _ l => Smooth l.calls) (fun e _ l => FailsLast e l.calls)
      obligingHost (Logged.host h) := by
    refine ⟨fun text => ⟨?_, fun _ _ _ hcut => hcut⟩, ?_, fun _ _ _ _ hcut => hcut⟩
    · intro s l hl
      change MatchesUntil _ _ id (.ok () s) (Logged.request (h.emitText text) (.emitted text) l)
      simp only [Logged.request]
      cases h.emitText text l.inner with
      | ok a t => exact .inl (.ok (hl.concat rfl rfl))
      | error e t => exact .inr ⟨e, _, rfl, l.calls, _, rfl, hl, rfl, rfl⟩
    · intro text s l hl
      exact hl.concat rfl rfl
  intro u environment s
  have hrun := (until_runFragment hosts rounds u.fragment).ends ⟨environment, ()⟩
    ⟨environment, ⟨s, []⟩⟩ ⟨rfl, by simp [Smooth]⟩
  rw [programRunner]
  generalize runFragment obligingHost rounds u.fragment ⟨environment, ()⟩ = left at hrun
  generalize runFragment (Logged.host h) rounds u.fragment ⟨environment, ⟨s, []⟩⟩ = right at hrun
  rcases hrun with hmatch | ⟨e, m, rfl, hcut⟩
  · cases hmatch with
    | ok hm => exact .inl hm.2
    | error hm => exact .inl hm.2
  · exact .inr ⟨e, hcut, rfl⟩

/-! ### Events -/

namespace RunEvent

/-- The failure of a fragment, as the host is to be told of it. -/
def failure? (source : Source) : RunEvent → Option FragmentError
  | unit u _ (some (.failure f)) => some (.ofFailure source u f)
  | _ => none

def isClosing : RunEvent → Bool
  | own (.closed ..) => true
  | _ => false

end RunEvent

/-- All calls of the host, whoever makes them. -/
def hostCalls (events : List RunEvent) : List HostCall := events.flatMap RunEvent.calls

def reports (events : List RunEvent) : List (FragmentError × ErrorAction) :=
  (hostCalls events).filterMap HostCall.report?

def fatals (events : List RunEvent) : List String := (hostCalls events).filterMap HostCall.fatal?

def failures (source : Source) (events : List RunEvent) : List FragmentError :=
  events.filterMap (RunEvent.failure? source)

/-- How the errors in a run go through. -/
structure RoutesErrors (source : Source) (result : RunResult) (events : List RunEvent) : Prop where
  /-- The host is told of each failure once, and of nothing else. -/
  reported : (reports events).map Prod.fst = failures source events
  halted : (∃ e, result = .error (.fragment e)) ↔ ∃ e, (e, .halt) ∈ reports events
  last : ∀ e, result = .error (.fragment e) →
    ∃ before, reports events = before ++ [(e, .halt)] ∧ ∀ r ∈ before, r.2 ≠ .halt
  fatal : fatals events = fatalOf result
  /-- An emission that fails is the last call of its fragment, and the first that fails. -/
  emitted : ∀ text e, .emitted text (.error e) ∈ hostCalls events →
    ∃ before u given closings,
      events = before ++ .unit u (given ++ [.emitted text (.error e)]) (some (.host e)) ::
        (closings ++ [.own (.fatal (RunError.output e).message)]) ∧
      (∀ text' e', .emitted text' (.error e') ∉ hostCalls before ++ given) ∧
      (∀ event ∈ closings, event.isClosing = true) ∧ result = .error (.output e)

variable {source : Source} {events more : List RunEvent}

section Append

variable (a b : List RunEvent)

@[simp] theorem hostCalls_append : hostCalls (a ++ b) = hostCalls a ++ hostCalls b := by
  simp [hostCalls]

@[simp] theorem hostCalls_cons (event : RunEvent) :
    hostCalls (event :: b) = event.calls ++ hostCalls b := by
  simp [hostCalls]

@[simp] theorem reports_append : reports (a ++ b) = reports a ++ reports b := by
  simp [reports]

@[simp] theorem fatals_append : fatals (a ++ b) = fatals a ++ fatals b := by
  simp [fatals]

@[simp] theorem failures_append (source : Source) :
    failures source (a ++ b) = failures source a ++ failures source b := by
  simp [failures]

@[simp] theorem reports_cons (event : RunEvent) :
    reports (event :: b) = event.calls.filterMap HostCall.report? ++ reports b := by
  simp [reports]

@[simp] theorem fatals_cons (event : RunEvent) :
    fatals (event :: b) = event.calls.filterMap HostCall.fatal? ++ fatals b := by
  simp [fatals]

@[simp] theorem failures_cons (source : Source) (event : RunEvent) :
    failures source (event :: b) = (event.failure? source).toList ++ failures source b := by
  cases hfailure : event.failure? source <;> simp [failures, hfailure]

@[simp] theorem reports_nil : reports [] = [] := rfl

@[simp] theorem fatals_nil : fatals [] = [] := rfl

@[simp] theorem failures_nil (source : Source) : failures source [] = [] := rfl

end Append

/-- Events behind which the run goes on. -/
structure Continues (source : Source) (events : List RunEvent) : Prop where
  reported : (reports events).map Prod.fst = failures source events
  answered : ∀ r ∈ reports events, r.2 ≠ .halt
  fatal : fatals events = []
  emitted : ∀ text e, .emitted text (.error e) ∉ hostCalls events

namespace Continues

theorem nil : Continues source [] := by
  constructor <;> simp [reports, fatals, failures, hostCalls]

theorem append (ha : Continues source events) (hb : Continues source more) :
    Continues source (events ++ more) where
  reported := by simp [ha.reported, hb.reported]
  answered r hr := by
    rcases List.mem_append.mp (reports_append events more ▸ hr) with hold | hnew
    · exact ha.answered r hold
    · exact hb.answered r hnew
  fatal := by simp [ha.fatal, hb.fatal]
  emitted text e hmem := by
    rcases List.mem_append.mp (hostCalls_append events more ▸ hmem) with hold | hnew
    · exact ha.emitted text e hold
    · exact hb.emitted text e hnew

end Continues

theorem reports_eq_nil {calls : List HostCall} (h : ∀ call ∈ calls, call.isReport = false) :
    calls.filterMap HostCall.report? = [] ∧ calls.filterMap HostCall.fatal? = [] := by
  simp only [List.filterMap_eq_nil_iff]
  refine ⟨fun call hcall => ?_, fun call hcall => ?_⟩
  · have hno := h call hcall
    cases call <;> simp [HostCall.isReport, HostCall.report?] at hno ⊢
  · have hno := h call hcall
    cases call <;> simp [HostCall.isReport, HostCall.fatal?] at hno ⊢

theorem Smooth.noFailedEmission {calls : List HostCall} (h : Smooth calls) (text : String)
    (e : HostError) : .emitted text (.error e) ∉ calls := by
  intro hmem
  have herror := (h _ hmem).2
  simp [HostCall.error?] at herror

namespace Continues

/-- A request of the run itself, whatever comes of it. -/
theorem own {call : HostCall} (hreport : call.isReport = false)
    (hemitted : ∀ text e, call ≠ .emitted text (.error e)) : Continues source [.own call] := by
  have hsilent : ∀ c ∈ [call], c.isReport = false := by simpa using hreport
  have hnone := reports_eq_nil hsilent
  have hfailure : RunEvent.failure? source (.own call) = none := rfl
  constructor <;> simp [reports, fatals, failures, hostCalls, RunEvent.calls, hnone, hfailure,
    fun text e => (hemitted text e).symm]

/-- A fragment that does not fail, though it may be stopped. -/
theorem unit {u : FragmentUnit} {calls : List HostCall} {stop : Option FragmentStop}
    (hcalls : Smooth calls) (hstop : ∀ f, stop ≠ some (.failure f)) :
    Continues source [.unit u calls stop] := by
  have hnone := reports_eq_nil fun call hcall => (hcalls call hcall).1
  have hfailure : RunEvent.failure? source (.unit u calls stop) = none := by
    unfold RunEvent.failure?
    split
    · rename_i heq
      injection heq with _ _ heq
      exact absurd heq (hstop _)
    · rfl
  constructor <;> simp [reports, fatals, failures, hostCalls, RunEvent.calls, hnone, hfailure,
    hcalls.noFailedEmission]

/-- A failure of a fragment, and what the host answers. -/
theorem failed {u : FragmentUnit} {calls : List HostCall} {f : Failure} {action : ErrorAction}
    (hcalls : Smooth calls) (haction : action ≠ .halt) :
    Continues source [.unit u calls (some (.failure f)),
      .own (.reported (.ofFailure source u f) action)] := by
  have hnone := reports_eq_nil fun call hcall => (hcalls call hcall).1
  constructor <;> simp [reports, fatals, failures, hostCalls, RunEvent.calls, RunEvent.failure?,
    hnone, hcalls.noFailedEmission, HostCall.report?, HostCall.fatal?, haction]

theorem closings (h : ∀ event ∈ events, event.isClosing = true) : Continues source events := by
  induction events with
  | nil => exact nil
  | cons event rest ih =>
    obtain ⟨hevent, hrest⟩ := List.forall_mem_cons.mp h
    have hfirst : Continues source [event] := by
      unfold RunEvent.isClosing at hevent
      split at hevent
      · exact own rfl fun _ _ => by simp
      · simp at hevent
    exact hfirst.append (ih hrest)

end Continues

/-- Events at the end of which the run stops with an error. Behind a failure that is answered with
a halt and behind a failing call of a fragment, there are only scopes to be closed. -/
inductive Stopped (source : Source) : RunError → List RunEvent → Prop where
  | other {e : RunError} {events : List RunEvent} :
    Continues source events → e.isFragment = false → Stopped source e events
  | halted {front closings : List RunEvent} {u : FragmentUnit} {calls : List HostCall}
    {f : Failure} : Continues source front → Smooth calls →
      (∀ event ∈ closings, event.isClosing = true) →
      Stopped source (.fragment (.ofFailure source u f))
        (front ++ .unit u calls (some (.failure f)) ::
          .own (.reported (.ofFailure source u f) .halt) :: closings)
  | cut {front closings : List RunEvent} {u : FragmentUnit} {calls : List HostCall}
    {e : HostError} : Continues source front → FailsLast e calls →
      (∀ event ∈ closings, event.isClosing = true) →
      Stopped source (.output e) (front ++ .unit u calls (some (.host e)) :: closings)

namespace Stopped

variable {e : RunError}

/-- Events behind which the run has gone on stand in front. -/
theorem behind (hb : Stopped source e more) (ha : Continues source events) :
    Stopped source e (events ++ more) := by
  cases hb with
  | other hb he => exact .other (ha.append hb) he
  | halted hb hcalls hclosings =>
    rw [← List.append_assoc]
    exact .halted (ha.append hb) hcalls hclosings
  | cut hb hcalls hclosings =>
    rw [← List.append_assoc]
    exact .cut (ha.append hb) hcalls hclosings

theorem close (ha : Stopped source e events) (hb : ∀ event ∈ more, event.isClosing = true) :
    Stopped source e (events ++ more) := by
  cases ha with
  | other ha he => exact .other (ha.append (.closings hb)) he
  | halted ha hcalls hclosings =>
    rw [List.append_assoc, List.cons_append, List.cons_append]
    exact .halted ha hcalls (List.forall_mem_append.mpr ⟨hclosings, hb⟩)
  | cut ha hcalls hclosings =>
    rw [List.append_assoc, List.cons_append]
    exact .cut ha hcalls (List.forall_mem_append.mpr ⟨hclosings, hb⟩)

end Stopped

/-! ### The routes -/

/-- Requests to close a scope tell of nothing. -/
theorem silent_closings (source : Source) (h : ∀ event ∈ events, event.isClosing = true) :
    reports events = [] ∧ fatals events = [] ∧ failures source events = [] := by
  induction events with
  | nil => exact ⟨rfl, rfl, rfl⟩
  | cons event rest ih =>
    obtain ⟨hevent, hrest⟩ := List.forall_mem_cons.mp h
    obtain ⟨hreports, hfatals, hfailures⟩ := ih hrest
    unfold RunEvent.isClosing at hevent
    split at hevent
    · refine ⟨?_, ?_, ?_⟩
      · rw [reports_cons, hreports]
        rfl
      · rw [fatals_cons, hfatals]
        rfl
      · rw [failures_cons, hfailures]
        rfl
    · simp at hevent

theorem routesErrors_of_continues {counts : RunCounts} (h : Continues source events) :
    RoutesErrors source (.ok counts) events where
  reported := h.reported
  halted := by
    constructor
    · rintro ⟨e, he⟩
      simp at he
    · rintro ⟨e, he⟩
      exact absurd rfl (h.answered _ he)
  last := by simp
  fatal := h.fatal
  emitted text e hmem := absurd hmem (h.emitted text e)

/-- A fatal report is not about a fragment. -/
theorem silent_fatal (source : Source) (message : String) :
    reports [.own (.fatal message)] = [] ∧ fatals [.own (.fatal message)] = [message] ∧
      failures source [.own (.fatal message)] = [] := ⟨rfl, rfl, rfl⟩

/-- An error that is not a failure of a fragment is reported at last. -/
theorem routesErrors_of_other {e : RunError} (h : Continues source events)
    (he : e.isFragment = false) :
    RoutesErrors source (.error e) (events ++ [.own (.fatal e.message)]) := by
  obtain ⟨hreports, hfatals, hfailures⟩ := silent_fatal source e.message
  have hnone : ∀ failure, Except.error e ≠ (.error (.fragment failure) : RunResult) := by
    rintro failure heq
    cases heq
    simp [RunError.isFragment] at he
  refine ⟨?_, ?_, ?_, ?_, ?_⟩
  · rw [reports_append, failures_append, hreports, hfailures, List.append_nil, List.append_nil,
      h.reported]
  · rw [reports_append, hreports, List.append_nil]
    constructor
    · rintro ⟨failure, heq⟩
      exact absurd heq (hnone failure)
    · rintro ⟨failure, hmem⟩
      exact absurd rfl (h.answered _ hmem)
  · intro failure heq
    exact absurd heq (hnone failure)
  · rw [fatals_append, h.fatal, hfatals]
    simp [fatalOf, he]
  · intro text e' hmem
    simp only [hostCalls_append, hostCalls_cons, RunEvent.calls, List.mem_append] at hmem
    rcases hmem with hold | hnew
    · exact absurd hold (h.emitted text e')
    · simp [hostCalls] at hnew

/-- A failure that is answered with a halt is the last one that the host is told of. -/
theorem routesErrors_of_halted {front closings : List RunEvent} {u : FragmentUnit}
    {calls : List HostCall} {f : Failure} (hfront : Continues source front) (hcalls : Smooth calls)
    (hclosings : ∀ event ∈ closings, event.isClosing = true) :
    RoutesErrors source (.error (.fragment (.ofFailure source u f)))
      (front ++ .unit u calls (some (.failure f)) ::
        .own (.reported (.ofFailure source u f) .halt) :: closings) := by
  let failure := FragmentError.ofFailure source u f
  obtain ⟨hreports, hfatals, hfailures⟩ := silent_closings source hclosings
  obtain ⟨hreports', hfatals'⟩ := reports_eq_nil fun call hcall => (hcalls call hcall).1
  have hreported : reports (front ++ .unit u calls (some (.failure f)) ::
      .own (.reported failure .halt) :: closings) = reports front ++ [(failure, .halt)] := by
    simp only [reports_append, reports_cons, RunEvent.calls, hreports, hreports']
    rfl
  refine ⟨?_, ?_, ?_, ?_, ?_⟩
  · rw [hreported, List.map_append, hfront.reported]
    simp only [failures_append, failures_cons, hfailures]
    rfl
  · rw [hreported]
    simp [failure]
  · rintro e heq
    cases heq
    exact ⟨reports front, hreported, hfront.answered⟩
  · simp only [fatals_append, fatals_cons, RunEvent.calls, hfront.fatal, hfatals, hfatals']
    rfl
  · intro text e hmem
    simp only [hostCalls_append, hostCalls_cons, RunEvent.calls, List.mem_append] at hmem
    rcases hmem with hold | hcall | hreport | hclosing
    · exact absurd hold (hfront.emitted text e)
    · exact absurd hcall (hcalls.noFailedEmission text e)
    · simp at hreport
    · have hlast : Continues source closings := .closings hclosings
      exact absurd hclosing (hlast.emitted text e)

/-- A fragment that meets an error of the host is the last one. -/
theorem routesErrors_of_cut {front closings : List RunEvent} {u : FragmentUnit}
    {calls : List HostCall} {e : HostError} (hfront : Continues source front)
    (hcalls : FailsLast e calls) (hclosings : ∀ event ∈ closings, event.isClosing = true) :
    RoutesErrors source (.error (.output e))
      ((front ++ .unit u calls (some (.host e)) :: closings) ++
        [.own (.fatal (RunError.output e).message)]) := by
  obtain ⟨given, call, rfl, hgiven, hcall, herror⟩ := hcalls
  have hsilent : ∀ c ∈ given ++ [call], c.isReport = false := by
    intro c hc
    rcases List.mem_append.mp hc with hold | hnew
    · exact (hgiven c hold).1
    · rw [List.mem_singleton.mp hnew]
      exact hcall
  obtain ⟨hreports, hfatals, hfailures⟩ := silent_closings source hclosings
  obtain ⟨hreports', hfatals'⟩ := reports_eq_nil hsilent
  obtain ⟨hreports'', hfatals'', hfailures''⟩ :=
    silent_fatal source (RunError.output e).message
  let fragment : RunEvent := .unit u (given ++ [call]) (some (.host e))
  let report : RunEvent := .own (.fatal (RunError.output e).message)
  have hreported : reports ((front ++ fragment :: closings) ++ [report]) = reports front := by
    rw [reports_append, reports_append, hreports'', reports_cons, RunEvent.calls, hreports',
      hreports, List.append_nil, List.append_nil, List.append_nil]
  have hfatal : fatals ((front ++ fragment :: closings) ++ [report]) =
      [(RunError.output e).message] := by
    rw [fatals_append, fatals_append, hfatals'', fatals_cons, RunEvent.calls, hfatals', hfatals,
      hfront.fatal]
    rfl
  have hfailure : failures source ((front ++ fragment :: closings) ++ [report]) =
      failures source front := by
    rw [failures_append, failures_append, hfailures'', failures_cons, hfailures]
    simp [fragment, RunEvent.failure?]
  refine ⟨?_, ?_, ?_, hfatal, ?_⟩
  · rw [hreported, hfailure, hfront.reported]
  · rw [hreported]
    constructor
    · rintro ⟨failure, heq⟩
      cases heq
    · rintro ⟨failure, hmem⟩
      exact absurd rfl (hfront.answered _ hmem)
  · rintro failure heq
    cases heq
  · intro text e' hmem
    -- The failing call of the fragment is the only one that can be a failed emission.
    have hlast : call = .emitted text (.error e') := by
      simp only [hostCalls_append, hostCalls_cons, RunEvent.calls, List.mem_append,
        List.mem_singleton] at hmem
      rcases hmem with (hold | (hgiven' | hcall') | hclosing) | hreport
      · exact absurd hold (hfront.emitted text e')
      · exact absurd hgiven' (hgiven.noFailedEmission text e')
      · exact hcall'.symm
      · have hlast : Continues source closings := .closings hclosings
        exact absurd hclosing (hlast.emitted text e')
      · simp [hostCalls] at hreport
    subst hlast
    obtain rfl : e' = e := by simpa [HostCall.error?] using herror
    refine ⟨front, u, given, closings, by simp, ?_, hclosings, rfl⟩
    intro text' e'' hmem'
    rcases List.mem_append.mp hmem' with hold | hgiven'
    · exact hfront.emitted text' e'' hold
    · exact hgiven.noFailedEmission text' e'' hgiven'

theorem routesErrors_of_stopped {e : RunError} (h : Stopped source e events) :
    RoutesErrors source (.error e)
      (events ++ if e.isFragment then [] else [.own (.fatal e.message)]) := by
  cases h with
  | other h he =>
    rw [he]
    exact routesErrors_of_other h he
  | @halted front closings u calls f hfront hcalls hclosings =>
    have hfragment : (RunError.fragment (.ofFailure source u f)).isFragment = true := rfl
    rw [if_pos hfragment, List.append_nil]
    exact routesErrors_of_halted hfront hcalls hclosings
  | cut hfront hcalls hclosings => exact routesErrors_of_cut hfront hcalls hclosings

end LiveDoc
