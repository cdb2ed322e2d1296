import LiveDoc.Execution.Recorder
import LiveDoc.Proofs.Evaluation.Binding
import LiveDoc.Proofs.Execution.ProseUnit
import LiveDoc.Proofs.Execution.RunInvariant
import LiveDoc.Proofs.Execution.RunJournal

/-!
The texts of a document in its run. A text is emitted by a call of the function that is bound to
one name, and code can bind this name to something else. So a text is emitted once and as it is, or
its fragment fails and nothing is emitted. It is emitted as long as no code that binds the name has
been run.
-/
namespace LiveDoc

open Fragment Outcome

variable {σ : Type}

namespace RunEvent

/-- A fragment of code that binds the name. -/
def binds (name : String) : RunEvent → Bool
  | unit u _ _ => u.isCode && (boundNames u.fragment).contains name
  | own _ => false

end RunEvent

/-- What stops a fragment when the host refuses its text. -/
def refusal : Except HostError Unit → Option FragmentStop
  | .ok _ => none
  | .error e => some (.host e)

/-- The fragment has emitted the text of its node and nothing else. -/
def EmitsNode (u : FragmentUnit) (calls : List HostCall) (stop : Option FragmentStop) : Prop :=
  ∃ result, calls = [.emitted (String.ofList u.origin.raw) result] ∧ stop = refusal result

/-- The fragment has asked for nothing, and it has failed on its only line. -/
def EmitsNothing (calls : List HostCall) (stop : Option FragmentStop) : Prop :=
  calls = [] ∧ ∃ fault, stop = some (.failure (.ofFault fault 1))

/-- How the run of a text ends, by what the environment binds its function to. -/
def ProseEnds (environment : Environment) (u : FragmentUnit) (calls : List HostCall)
    (stop : Option FragmentStop) : Prop :=
  if environment.emitsText then EmitsNode u calls stop else EmitsNothing calls stop

/-- In the journal up to any text, the text is emitted or its fragment fails. It is emitted if the
name meant the function at first and no code before has bound it. -/
def EmitsProse (meant : Prop) (events : List RunEvent) : Prop :=
  ∀ before u calls stop after, events = before ++ .unit u calls stop :: after →
    u.isCode = false →
      (EmitsNode u calls stop ∨ EmitsNothing calls stop) ∧
      (meant → (∀ event ∈ before, event.binds "text" = false) → EmitsNode u calls stop)

/-! ### One fragment -/

theorem proseEnds_programRunner (h : Host σ) (rounds : Nat) (source : Source)
    (node : Document.Node) (environment : Environment) (s : σ) :
    let u := FragmentUnit.ofText source node
    let outcome := programRunner (Logged.host h) rounds u ⟨environment, ⟨s, []⟩⟩
    ProseEnds environment u (stateOf outcome).host.calls (error? (resultOf outcome)) := by
  intro u outcome
  have hrun : outcome = runFragment (Logged.host h) rounds (textStatement node.raw)
    ⟨environment, ⟨s, []⟩⟩ := rfl
  rw [ProseEnds]
  cases henv : environment.emitsText with
  | true =>
    rw [runFragment_of_emitsText _ _ _ henv] at hrun
    simp only [Logged.host, Logged.request] at hrun
    rw [if_pos rfl]
    cases hemit : h.emitText (String.ofList node.raw) s with
    | ok a t =>
      rw [hemit] at hrun
      rw [hrun]
      exact ⟨.ok a, rfl, rfl⟩
    | error e t =>
      rw [hemit] at hrun
      rw [hrun]
      exact ⟨.error e, rfl, rfl⟩
  | false =>
    obtain ⟨fault, hfault⟩ := runFragment_of_not_emitsText (Logged.host h) rounds node.raw
      (m := ⟨environment, ⟨s, []⟩⟩) henv
    rw [if_neg Bool.false_ne_true, hrun, hfault]
    exact ⟨rfl, fault, rfl⟩

theorem emitsText_of_means {environment : Environment} (h : environment.Means "text" .text) :
    environment.emitsText = true := by
  rw [Environment.emitsText, h]
  rfl

theorem boundNames_textStatement (text : List Char) : boundNames (textStatement text) = [] := by
  rw [boundNames, parseProgram_textStatement]
  rfl

/-! ### The journal -/

namespace EmitsProse

variable {meant : Prop} {events : List RunEvent}

theorem nil : EmitsProse meant [] := by
  intro before u calls stop after hevents
  simp at hevents

/-- One more event, which is as it must be if it is a text. -/
theorem concat {last : RunEvent} (h : EmitsProse meant events)
    (hlast : ∀ u calls stop, last = .unit u calls stop → u.isCode = false →
      (EmitsNode u calls stop ∨ EmitsNothing calls stop) ∧
      (meant → (∀ event ∈ events, event.binds "text" = false) → EmitsNode u calls stop)) :
    EmitsProse meant (events ++ [last]) := by
  intro before u calls stop after hevents
  rcases List.eq_nil_or_concat after with rfl | ⟨rest, other, rfl⟩
  · obtain ⟨rfl, hunit⟩ := List.append_inj' hevents rfl
    exact hlast u calls stop (List.singleton_inj.mp hunit)
  · have hsplit : events ++ [last] = (before ++ .unit u calls stop :: rest) ++ [other] := by
      simpa using hevents
    exact h before u calls stop rest (List.append_inj' hsplit rfl).1

theorem own (h : EmitsProse meant events) (call : HostCall) :
    EmitsProse meant (events ++ [.own call]) :=
  h.concat fun _ _ _ hunit => by cases hunit

end EmitsProse

/-- The texts so far have been emitted, and the name still means the function if no code has bound
it. -/
structure ProseKept (meant : Prop) (m : Machine (Journaled σ)) : Prop where
  means : meant → (∀ event ∈ m.host.events, event.binds "text" = false) →
    m.environment.Means "text" .text
  emits : EmitsProse meant m.host.events

namespace ProseKept

variable {meant : Prop} {m m' : Machine (Journaled σ)}

theorem own {call : HostCall} (hm : ProseKept meant m)
    (hevents : m'.host.events = m.host.events ++ [.own call])
    (henv : m'.environment = m.environment) : ProseKept meant m' where
  means hmeant hfree := by
    rw [hevents] at hfree
    rw [henv]
    exact hm.means hmeant fun event hevent => hfree event (List.mem_append_left _ hevent)
  emits := by
    rw [hevents]
    exact hm.emits.own call

/-- A fragment is run in an environment in which the name still has its meaning. -/
theorem unit (h : Host σ) (rounds : Nat) {u : FragmentUnit}
    (hu : u.isCode = true ∨ ∃ source node, u = .ofText source node) (scope : Scope)
    (hm : ProseKept meant m) :
    ProseKept meant
      (stateOf (Journaled.runner (programRunner (Logged.host h) rounds) u (m.bound scope u))) := by
  let outcome := programRunner (Logged.host h) rounds u
    ⟨(m.bound scope u).environment, ⟨m.host.inner, []⟩⟩
  have hrun : stateOf (Journaled.runner (programRunner (Logged.host h) rounds) u
      (m.bound scope u)) = ⟨(stateOf outcome).environment, ⟨(stateOf outcome).host.inner,
        m.host.events ++ [.unit u (stateOf outcome).host.calls (error? (resultOf outcome))]⟩⟩ := by
    have hstart : (m.bound scope u).host = m.host := rfl
    simp only [Journaled.runner, hstart, outcome]
    cases programRunner (Logged.host h) rounds u
      ⟨(m.bound scope u).environment, ⟨m.host.inner, []⟩⟩ <;> rfl
  have hbefore (hmeant : meant) (hfree : ∀ event ∈ m.host.events, event.binds "text" = false) :
      (m.bound scope u).environment.Means "text" .text :=
    (hm.means hmeant hfree).bindUnit (by decide) (by decide) scope u.name
  rw [hrun]
  refine ⟨fun hmeant hfree => ?_, hm.emits.concat ?_⟩
  · obtain ⟨hold, hnew⟩ := List.forall_mem_append.mp hfree
    have hunbound : "text" ∉ boundNames u.fragment := by
      rcases hu with hcode | ⟨source, node, rfl⟩
      · simpa [RunEvent.binds, hcode] using hnew
      · rw [show (FragmentUnit.ofText source node).fragment = textStatement node.raw from rfl,
          boundNames_textStatement]
        exact List.not_mem_nil
    exact keeps_runFragment rounds hunbound _ (hbefore hmeant hold)
  · rintro u' calls stop hunit hprose
    cases hunit
    rcases hu with hcode | ⟨source, node, rfl⟩
    · rw [hcode] at hprose
      cases hprose
    · have hends := proseEnds_programRunner h rounds source node
        (m.bound scope (.ofText source node)).environment m.host.inner
      rw [ProseEnds] at hends
      split at hends
      · exact ⟨.inl hends, fun _ _ => hends⟩
      · rename_i hnot
        exact ⟨.inr hends, fun hmeant hfree =>
          absurd (emitsText_of_means (hbefore hmeant hfree)) hnot⟩

end ProseKept

theorem runKeeps_prose (source : Source) (h : Host σ) (rounds : Nat) (meant : Prop) :
    RunKeeps source (Journaled.host h) (Journaled.runner (programRunner (Logged.host h) rounds))
      (ProseKept meant) where
  opened scope heading m hm := hm.own (Journaled.events_own_request _ _ m.host) rfl
  closed handle m hm := hm.own (Journaled.events_own_request _ _ m.host) rfl
  reported e m hm := hm.own rfl rfl
  fatal message m hm := hm.own rfl rfl
  header header scope m hm := hm.unit h rounds (.inr ⟨source, _, rfl⟩) scope
  content c scope m hm := by
    refine hm.unit h rounds ?_ scope
    cases c with
    | code opening body closing => exact .inl rfl
    | text first more => exact .inr ⟨source, _, rfl⟩

/-- A text is emitted once and as it is in just those environments in which the name is bound to a
function that emits. In a run that starts in the meaning of the name, all texts are emitted until
code has bound it, and from then on each one is emitted or fails. -/
theorem executeSource_emits_prose (source : Source) (h : Host σ) (rounds : Nat) (m : Machine σ) :
    let run := programRunner (Logged.host h) rounds
    let journaled := executeJournaled source h run m
    executeSource source h (programRunner h rounds) m =
        (journaled.1, ⟨journaled.2.environment, journaled.2.host.inner⟩) ∧
      (∀ node environment s,
        let u := FragmentUnit.ofText source node
        let outcome := run u ⟨environment, ⟨s, []⟩⟩
        ProseEnds environment u (stateOf outcome).host.calls (error? (resultOf outcome))) ∧
      EmitsProse (m.environment.Means "text" .text) journaled.2.host.events := by
  refine ⟨executeSource_eq_journaled source h rounds m,
    proseEnds_programRunner h rounds source, ?_⟩
  have hstart : ProseKept (m.environment.Means "text" .text)
      (⟨m.environment, ⟨m.host, []⟩⟩ : Machine (Journaled σ)) := ⟨fun hmeant _ => hmeant, .nil⟩
  exact ((runKeeps_prose source h rounds _).executeSource hstart).emits

/-- Two texts with a block of code between them that binds the name. -/
def reboundFunction : Source := ⟨"d", "a\n~~~python:testflows\ntext = 5\n~~~\nb\n", 0⟩

def grantingHost : Host Recorder := Recorder.host ⟨[.proceed], [], [], []⟩

/-- The journal of the run, which starts with the built-in functions bound to their names. -/
def reboundFunctionEvents : List RunEvent :=
  (executeJournaled reboundFunction grantingHost (programRunner (Logged.host grantingHost) 0)
    ⟨.initial, .initial⟩).2.host.events

def isCode? : RunEvent → Option Bool
  | .unit u _ _ => some u.isCode
  | .own _ => none

/-- The text in front of the code is emitted. -/
theorem emits_prose_before_rebinding :
    ∃ u calls stop after, reboundFunctionEvents = [] ++ .unit u calls stop :: after ∧
      u.isCode = false ∧ EmitsNode u calls stop := by
  have hshape : reboundFunctionEvents.map isCode? = [some false, some true, some false, none] := by
    decide +kernel
  obtain ⟨-, -, hemits⟩ := executeSource_emits_prose reboundFunction grantingHost 0
    ⟨.initial, .initial⟩
  obtain ⟨first, rest, hevents, hfirst, -⟩ := List.map_eq_cons_iff.mp hshape
  cases first with
  | own call => cases hfirst
  | unit u calls stop =>
    have hprose : u.isCode = false := Option.some_inj.mp hfirst
    exact ⟨u, calls, stop, rest, hevents, hprose,
      (hemits [] u calls stop rest hevents hprose).2 (Environment.load_initial .text) (by simp)⟩

/-- The text behind the code is not emitted, though the host refuses nothing. -/
theorem prose_lost_behind_rebinding :
    ¬ ∀ u calls stop, .unit u calls stop ∈ reboundFunctionEvents → u.isCode = false →
      EmitsNode u calls stop := by
  have hshape : reboundFunctionEvents.map (fun event => (isCode? event, event.calls.length)) =
      [(some false, 1), (some true, 0), (some false, 0), (none, 1)] := by
    decide +kernel
  intro hall
  have hlast : (some false, 0) ∈
      reboundFunctionEvents.map fun event => (isCode? event, event.calls.length) := by
    rw [hshape]
    simp
  obtain ⟨event, hevent, hpair⟩ := List.mem_map.mp hlast
  obtain ⟨hcode, hcalls⟩ := Prod.mk.inj hpair
  cases event with
  | own call => cases hcode
  | unit u calls stop =>
    obtain ⟨result, hone, -⟩ := hall u calls stop hevent (Option.some_inj.mp hcode)
    rw [RunEvent.calls, hone] at hcalls
    cases hcalls

end LiveDoc
