import LiveDoc.Execution.Recorder
import LiveDoc.Proofs.Execution.CallLog
import LiveDoc.Proofs.Execution.OpenScopes
import LiveDoc.Proofs.Execution.Writer

/-!
Opening and closing in pairs. In the log of a run every scope that was opened is closed once, the
last one first, and nothing else is closed: whatever the host refuses and answers, and wherever
the run ends. The Markdown writer, which closes only its innermost scope, never has to refuse.
-/
namespace LiveDoc

open Outcome

namespace HostCall

/-- A request to open or to close a scope. -/
def isOnScope : HostCall → Bool
  | opened .. => true
  | closed .. => true
  | _ => false

/-- A request that has opened a scope or that closes one. -/
def moves : HostCall → Bool
  | opened _ _ (.ok _) => true
  | closed .. => true
  | _ => false

/-- The open scopes after a call, unless it closes another one than the innermost. -/
def openAfter (handles : List Handle) : HostCall → Option (List Handle)
  | opened _ _ (.ok handle) => some (handle :: handles)
  | closed handle _ => if handles.head? = some handle then some handles.tail else none
  | _ => some handles

theorem openAfter_of_not_moves {call : HostCall} (h : call.moves = false)
    (handles : List Handle) : call.openAfter handles = some handles := by
  cases call with
  | opened scope heading result =>
    cases result with
    | ok handle => simp [moves] at h
    | error e => rfl
  | closed handle result => simp [moves] at h
  | _ => rfl

theorem moves_of_not_isOnScope {call : HostCall} (h : call.isOnScope = false) :
    call.moves = false := by
  cases call with
  | opened scope heading result => simp [isOnScope] at h
  | closed handle result => simp [isOnScope] at h
  | _ => rfl

end HostCall

/-- Every scope that is opened is closed behind the scopes inside of it, and no other is closed.
What comes of a request to close does not matter. -/
inductive Paired : List HostCall → Prop where
  | nil : Paired []
  | other {call : HostCall} {rest : List HostCall} :
    call.moves = false → Paired rest → Paired (call :: rest)
  | scope {scope : Scope} {heading : Option String} {handle : Handle}
    {result : Except HostError Unit} {inside rest : List HostCall} :
    Paired inside → Paired rest →
      Paired (.opened scope heading (.ok handle) :: inside ++ .closed handle result :: rest)

/-- The scopes that are open after some calls, innermost first. -/
def openAfter (handles : List Handle) (calls : List HostCall) : Option (List Handle) :=
  calls.foldlM HostCall.openAfter handles

theorem openAfter_cons (handles : List Handle) (call : HostCall) (rest : List HostCall) :
    openAfter handles (call :: rest) =
      (call.openAfter handles).bind fun handles => openAfter handles rest := rfl

theorem openAfter_append {handles handles' : List Handle} {calls more : List HostCall}
    (h : openAfter handles calls = some handles') :
    openAfter handles (calls ++ more) = openAfter handles' more := by
  rw [openAfter, List.foldlM_append]
  change (openAfter handles calls).bind _ = _
  rw [h]
  rfl

theorem openAfter_of_not_moves {calls : List HostCall} (h : ∀ call ∈ calls, call.moves = false)
    (handles : List Handle) : openAfter handles calls = some handles := by
  induction calls with
  | nil => rfl
  | cons call rest ih =>
    obtain ⟨hcall, hrest⟩ := List.forall_mem_cons.mp h
    rw [openAfter_cons, HostCall.openAfter_of_not_moves hcall]
    exact ih hrest

/-- An open scope is closed behind calls that are paired, if nothing is open in the end. -/
theorem exists_close {handle : Handle} {handles : List Handle} {calls : List HostCall}
    (h : openAfter (handle :: handles) calls = some []) :
    ∃ inside result rest, calls = inside ++ .closed handle result :: rest ∧ Paired inside ∧
      openAfter handles rest = some [] := by
  -- The scope may be closed behind others, so the induction is on how many calls there are.
  induction hsize : calls.length using Nat.strongRecOn generalizing handle handles calls with
  | ind size ih =>
    subst hsize
    cases calls with
    | nil => simp [openAfter] at h
    | cons call rest =>
      rw [openAfter_cons] at h
      by_cases hmoves : call.moves = true
      · cases call with
        | opened scope heading result =>
          cases result with
          | error e => simp [HostCall.moves] at hmoves
          | ok handle' =>
            have hrest : openAfter (handle' :: handle :: handles) rest = some [] := h
            obtain ⟨inside, result, after, rfl, hinside, hafter⟩ :=
              ih rest.length (by simp) hrest rfl
            obtain ⟨inside', result', after', rfl, hinside', hafter'⟩ :=
              ih after.length (by simp; omega) hafter rfl
            refine ⟨.opened scope heading (.ok handle') :: inside ++
              .closed handle' result :: inside', result', after', ?_,
              .scope hinside hinside', hafter'⟩
            simp only [List.cons_append, List.append_assoc]
        | closed handle' result =>
          simp only [HostCall.openAfter, List.head?_cons, List.tail_cons, Option.some.injEq] at h
          split at h
          · rename_i heq
            subst heq
            exact ⟨[], result, rest, rfl, .nil, h⟩
          · simp at h
        | _ => simp [HostCall.moves] at hmoves
      · have hother : call.moves = false := by simpa using hmoves
        rw [HostCall.openAfter_of_not_moves hother] at h
        obtain ⟨inside, result, after, rfl, hinside, hafter⟩ := ih rest.length (by simp) h rfl
        exact ⟨call :: inside, result, after, rfl, .other hother hinside, hafter⟩

theorem paired_of_openAfter {calls : List HostCall} (h : openAfter [] calls = some []) :
    Paired calls := by
  induction hsize : calls.length using Nat.strongRecOn generalizing calls with
  | ind size ih =>
    subst hsize
    cases calls with
    | nil => exact .nil
    | cons call rest =>
      rw [openAfter_cons] at h
      by_cases hmoves : call.moves = true
      · cases call with
        | opened scope heading result =>
          cases result with
          | error e => simp [HostCall.moves] at hmoves
          | ok handle =>
            obtain ⟨inside, result, after, rfl, hinside, hafter⟩ := exists_close h
            exact .scope hinside (ih after.length (by simp; omega) hafter rfl)
        | closed handle result => simp [HostCall.openAfter] at h
        | _ => simp [HostCall.moves] at hmoves
      · have hother : call.moves = false := by simpa using hmoves
        rw [HostCall.openAfter_of_not_moves hother] at h
        exact .other hother (ih rest.length (by simp) h rfl)

/-! ### Fragments -/

/-- The state of a host after a call. -/
def Host.perform {σ : Type} (h : Host σ) (s : σ) : HostCall → σ
  | .started _ => s
  | .opened scope heading _ => stateOf (h.openScope scope heading s)
  | .closed handle _ => stateOf (h.closeScope handle s)
  | .emitted text _ => stateOf (h.emitText text s)
  | .reported e _ => (h.reportError e s).2
  | .fatal message => h.reportFatal message s
  | .noted text => h.note text s

/-- The log has grown by calls that leave all scopes alone, and the host has performed them. -/
def Served {σ : Type} (h : Host σ) (l l' : Logged σ) : Prop :=
  ∃ calls, l' = ⟨calls.foldl h.perform l.inner, l.calls ++ calls⟩ ∧
    ∀ call ∈ calls, call.isOnScope = false

/-- Fragments reach the host only by requests that leave all scopes alone. -/
def LeavesScopes {σ : Type} (h : Host σ) (run : Runner (Logged σ)) : Prop :=
  ∀ u m, Served h m.host (stateOf (run u m)).host

variable {σ : Type} {h : Host σ}

theorem Served.add {l l' : Logged σ} (hl : Served h l l') {s : σ} {call : HostCall}
    (hperform : h.perform l'.inner call = s) (hcall : call.isOnScope = false) :
    Served h l (l'.add s call) := by
  obtain ⟨calls, rfl, hcalls⟩ := hl
  refine ⟨calls ++ [call], ?_, ?_⟩
  · simp [Logged.add, ← hperform]
  · intro other hother
    rcases List.mem_append.mp hother with hold | hnew
    · exact hcalls other hold
    · rw [List.mem_singleton.mp hnew]
      exact hcall

theorem Served.refl (h : Host σ) (l : Logged σ) : Served h l l := by
  refine ⟨[], ?_, ?_⟩
  · simp
  · simp

/-- Programs emit texts and leave remarks. -/
theorem leavesScopes_runner (h : Host σ) (rounds : Nat) :
    LeavesScopes h (Logged.runner h rounds) := by
  intro u m
  refine runFragment_keeps (I := Served h m.host) ?_ ?_ rounds u.fragment
    (m := { m with host := m.host.add m.host.inner (.started u) })
    ((Served.refl h m.host).add rfl rfl)
  · intro text l hl
    change Served h m.host (stateOf (Logged.request (h.emitText text) (.emitted text) l))
    rw [Logged.stateOf_request]
    exact hl.add rfl rfl
  · intro text l hl
    exact hl.add rfl rfl

theorem Served.openAfter {l l' : Logged σ} (hl : Served h l l') {handles : List Handle}
    (hopen : openAfter [] l.calls = some handles) : openAfter [] l'.calls = some handles := by
  obtain ⟨calls, rfl, hcalls⟩ := hl
  rw [openAfter_append hopen]
  exact openAfter_of_not_moves
    (fun call hcall => HostCall.moves_of_not_isOnScope (hcalls call hcall)) handles

/-! ### The log of a run -/

theorem openAfter_add {l : Logged σ} {handles : List Handle}
    (hopen : openAfter [] l.calls = some handles) (s : σ) (call : HostCall) :
    openAfter [] (l.add s call).calls = call.openAfter handles := by
  rw [Logged.add, openAfter_append hopen, openAfter_cons]
  cases call.openAfter handles with
  | none => rfl
  | some after => rfl

theorem tracksScopes_log {run : Runner (Logged σ)} (hrun : LeavesScopes h run) :
    TracksScopes (Logged.host h) run fun handles l => openAfter [] l.calls = some handles where
  opened scope heading handles handle l l' hl hopen := by
    simp only [Logged.host, Logged.request] at hopen
    cases hact : h.openScope scope heading l.inner with
    | ok a s =>
      rw [hact] at hopen
      injection hopen with ha hl'
      subst ha hl'
      exact openAfter_add hl _ _
    | error e s => simp [hact] at hopen
  refused scope heading handles e l l' hl hopen := by
    simp only [Logged.host, Logged.request] at hopen
    cases hact : h.openScope scope heading l.inner with
    | ok a s => simp [hact] at hopen
    | error e s =>
      rw [hact] at hopen
      injection hopen with he hl'
      subst hl'
      exact openAfter_add hl _ _
  closed handle handles l hl := by
    change openAfter []
      (stateOf (Logged.request (h.closeScope handle) (.closed handle) l)).calls = some handles
    rw [Logged.stateOf_request, openAfter_add hl]
    simp [HostCall.openAfter]
  reported e handles l hl := openAfter_add hl _ _
  fatal message handles l hl := openAfter_add hl _ _
  ran u handles m hm := (hrun u m).openAfter hm

/-! ### The Markdown writer -/

namespace MarkdownWriter

variable {τ : Type} {put : Sink τ} {action : ErrorAction}

theorem opened_write (put : Sink τ) (text : String) (w : MarkdownWriter τ) :
    (stateOf (write put text w)).opened = w.opened := by
  simp only [write]
  cases put text w.sink with
  | ok a sink => rfl
  | error e sink => rfl

theorem opened_perform {call : HostCall} (hcall : call.isOnScope = false) (w : MarkdownWriter τ) :
    ((host put action).perform w call).opened = w.opened := by
  cases call with
  | opened scope heading result => simp [HostCall.isOnScope] at hcall
  | closed handle result => simp [HostCall.isOnScope] at hcall
  | emitted text result => exact opened_write put text w
  | _ => rfl

theorem openScope_none (put : Sink τ) (w : MarkdownWriter τ) :
    openScope put none w = .ok w.nextHandle
      { w with nextHandle := w.nextHandle + 1, opened := w.nextHandle :: w.opened } := rfl

theorem openScope_heading (put : Sink τ) (text : String) :
    openScope put (some text) = write put text >>= fun _ => openScope put none := rfl

theorem opened_of_openScope {heading : Option String} {w w' : MarkdownWriter τ} {handle : Handle}
    (hopen : openScope put heading w = .ok handle w') : w'.opened = handle :: w.opened := by
  cases heading with
  | none =>
    rw [openScope_none] at hopen
    injection hopen with hhandle hw
    subst hhandle hw
    rfl
  | some text =>
    have hsame := opened_write put text w
    rw [openScope_heading] at hopen
    obtain ⟨a, v, hwrite, hrest⟩ := run_bind_eq_ok_iff.mp hopen
    rw [openScope_none] at hrest
    injection hrest with hhandle hw
    rw [hwrite] at hsame
    subst hhandle hw
    exact congrArg (List.cons v.nextHandle) hsame

/-- A heading that cannot be written opens nothing. -/
theorem opened_of_refused {heading : Option String} {w w' : MarkdownWriter τ} {e : HostError}
    (hopen : openScope put heading w = .error e w') : w'.opened = w.opened := by
  cases heading with
  | none => simp [openScope_none] at hopen
  | some text =>
    have hsame := opened_write put text w
    rw [openScope_heading] at hopen
    cases hwrite : write put text w with
    | ok a v =>
      rw [run_bind_of_ok hwrite, openScope_none] at hopen
      simp at hopen
    | error e' v =>
      rw [run_bind_of_error hwrite] at hopen
      injection hopen with _ hw
      subst hw
      rw [hwrite] at hsame
      exact hsame

/-- What fragments ask for does not open or close a scope of the writer. -/
theorem opened_of_served {l l' : Logged (MarkdownWriter τ)}
    (hl : Served (host put action) l l') : l'.inner.opened = l.inner.opened := by
  obtain ⟨calls, rfl, hcalls⟩ := hl
  dsimp only
  generalize l.inner = w
  induction calls generalizing w with
  | nil => rfl
  | cons call rest ih =>
    obtain ⟨hcall, hrest⟩ := List.forall_mem_cons.mp hcalls
    rw [List.foldl_cons, ih hrest, opened_perform hcall]

/-- No request to close a scope has been refused. -/
def ClosesGranted (calls : List HostCall) : Prop :=
  ∀ handle result, .closed handle result ∈ calls → result = .ok ()

theorem ClosesGranted.append {calls more : List HostCall} (h : ClosesGranted calls)
    (hmore : ClosesGranted more) : ClosesGranted (calls ++ more) := by
  intro handle result hmem
  rcases List.mem_append.mp hmem with hold | hnew
  · exact h handle result hold
  · exact hmore handle result hnew

theorem closesGranted_of_other {calls : List HostCall}
    (h : ∀ call ∈ calls, call.isOnScope = false) : ClosesGranted calls := by
  intro handle result hmem
  have hscope := h _ hmem
  simp [HostCall.isOnScope] at hscope

theorem tracksScopes_writer {run : Runner (Logged (MarkdownWriter τ))}
    (hrun : LeavesScopes (host put action) run) :
    TracksScopes (Logged.host (host put action)) run
      fun handles l => l.inner.opened = handles ∧ ClosesGranted l.calls where
  opened scope heading handles handle l l' hl hopen := by
    simp only [Logged.host, Logged.request] at hopen
    cases hact : (host put action).openScope scope heading l.inner with
    | error e w => simp [hact] at hopen
    | ok a w =>
      rw [hact] at hopen
      injection hopen with ha hl'
      subst ha hl'
      obtain ⟨hopened, hgranted⟩ := hl
      refine ⟨?_, hgranted.append (by simp [ClosesGranted])⟩
      rw [← hopened]
      exact opened_of_openScope hact
  refused scope heading handles e l l' hl hopen := by
    simp only [Logged.host, Logged.request] at hopen
    cases hact : (host put action).openScope scope heading l.inner with
    | ok a w => simp [hact] at hopen
    | error e w =>
      rw [hact] at hopen
      injection hopen with he hl'
      subst hl'
      obtain ⟨hopened, hgranted⟩ := hl
      refine ⟨?_, hgranted.append (by simp [ClosesGranted])⟩
      rw [← hopened]
      exact opened_of_refused hact
  closed handle handles l hl := by
    obtain ⟨hopened, hgranted⟩ := hl
    have hclose : (host put action).closeScope handle l.inner =
        .ok () { l.inner with opened := handles } := closeScope_innermost hopened
    simp only [Logged.host, Logged.request, hclose]
    refine ⟨rfl, hgranted.append ?_⟩
    intro handle' result hmem
    simp only [List.mem_singleton, HostCall.closed.injEq] at hmem
    exact hmem.2
  reported e handles l hl :=
    ⟨hl.1, hl.2.append (closesGranted_of_other (by simp [HostCall.isOnScope]))⟩
  fatal message handles l hl :=
    ⟨hl.1, hl.2.append (closesGranted_of_other (by simp [HostCall.isOnScope]))⟩
  ran u handles m hm := by
    have hserved := hrun u m
    refine ⟨(opened_of_served hserved).trans hm.1, ?_⟩
    obtain ⟨calls, heq, hcalls⟩ := hserved
    rw [heq]
    exact hm.2.append (closesGranted_of_other hcalls)

end MarkdownWriter

/-! ### Whole runs -/

/-- The plain run of a document is the logged one without its log. -/
theorem Logged.execute_eq (source : Source) (h : Host σ) (rounds : Nat) (d : Document)
    (m : Machine σ) :
    LiveDoc.execute source h (programRunner h rounds) d m =
      let logged := LiveDoc.execute source (Logged.host h) (Logged.runner h rounds) d
        ⟨m.environment, ⟨m.host, []⟩⟩
      (logged.1, ⟨logged.2.environment, logged.2.host.inner⟩) := by
  have hstart : OnHosts Of (⟨m.environment, ⟨m.host, []⟩⟩ : Machine (Logged σ)) m := ⟨rfl, rfl⟩
  obtain ⟨hresult, henv, hhost⟩ :=
    endAlike_execute source (hostAlike h) (runnerAlike h rounds) d hstart
  refine Prod.ext hresult.symm ?_
  dsimp only
  rw [henv, hhost]

/-- In every run each scope that the host has opened is closed once, the last one first, and no
other is. This is so on any host, with programs as fragments or with other fragments that leave
the scopes alone. A Markdown writer refuses no such request and has no scope open in the end. -/
theorem execute_pairs_scopes (source : Source) (d : Document) (environment : Environment) :
    (∀ {σ : Type} (h : Host σ) (rounds : Nat) (s : σ),
      LeavesScopes h (Logged.runner h rounds) ∧
      execute source h (programRunner h rounds) d ⟨environment, s⟩ =
        let logged := execute source (Logged.host h) (Logged.runner h rounds) d
          ⟨environment, ⟨s, []⟩⟩
        (logged.1, ⟨logged.2.environment, logged.2.host.inner⟩)) ∧
    (∀ {σ : Type} (h : Host σ) (run : Runner (Logged σ)) (s : σ), LeavesScopes h run →
      Paired (execute source (Logged.host h) run d ⟨environment, ⟨s, []⟩⟩).2.host.calls) ∧
    (∀ {τ : Type} (put : Sink τ) (action : ErrorAction) (run : Runner (Logged (MarkdownWriter τ)))
        (w : MarkdownWriter τ), LeavesScopes (MarkdownWriter.host put action) run → w.depth = 0 →
      let last := (execute source (Logged.host (MarkdownWriter.host put action)) run d
        ⟨environment, ⟨w, []⟩⟩).2.host
      (∀ handle result, .closed handle result ∈ last.calls → result = .ok ()) ∧
        last.inner.depth = 0) := by
  refine ⟨?_, ?_, ?_⟩
  · intro σ h rounds s
    exact ⟨leavesScopes_runner h rounds, Logged.execute_eq source h rounds d ⟨environment, s⟩⟩
  · intro σ h run s hrun
    exact paired_of_openAfter ((tracksScopes_log hrun).execute source d rfl)
  · intro τ put action run w hrun hdepth
    have hnone : w.opened = [] := List.length_eq_zero_iff.mp hdepth
    obtain ⟨hopened, hgranted⟩ := (MarkdownWriter.tracksScopes_writer hrun).execute source d
      (m := ⟨environment, ⟨w, []⟩⟩) ⟨hnone, by simp [MarkdownWriter.ClosesGranted]⟩
    refine ⟨hgranted, ?_⟩
    rw [MarkdownWriter.depth, hopened]
    rfl

/-- A header, a fragment that fails, and a heading that closes two scopes. -/
def nestedScopes : Source := ⟨"d", "---\n---\n# A\n### B\n~~~python:testflows\nx\n~~~\n# C\n", 0⟩

/-- A host that does not close the inner one of them. -/
def refusedClose : RecordingPlan := ⟨[.proceed], [], [], [3]⟩

/-- The run ends between the two scopes, and the outer one is closed behind it. On a writer with
room for one heading only, the run ends before the inner one is open. -/
theorem execute_pairs_scopes_of_refusals : ∃ d, Document.parse nestedScopes.text.toList = .ok d ∧
    (let h := Recorder.host refusedClose
      let last := execute nestedScopes (Logged.host h) (Logged.runner h 0) d
        ⟨.initial, ⟨.initial, []⟩⟩
      LeavesScopes h (Logged.runner h 0) ∧ Paired last.2.host.calls ∧
        last.1 = .error (.output (.rejected "cannot close 3")) ∧
        last.2.host.calls.countP HostCall.moves = 6) ∧
    (let h := MarkdownWriter.host TextSink.put .halt
      let w := MarkdownWriter.on ⟨some 12, ""⟩
      let last := execute nestedScopes (Logged.host h) (Logged.runner h 0) d ⟨.initial, ⟨w, []⟩⟩
      LeavesScopes h (Logged.runner h 0) ∧ w.depth = 0 ∧
        (∀ handle result, .closed handle result ∈ last.2.host.calls → result = .ok ()) ∧
        last.2.host.inner.depth = 0 ∧ last.1 = .error (.output (.io "disk full")) ∧
        last.2.host.calls.countP HostCall.moves = 4) := by
  have hrecorded : ((Document.parse nestedScopes.text.toList).toOption.map fun d =>
      let h := Recorder.host refusedClose
      let last := execute nestedScopes (Logged.host h) (Logged.runner h 0) d
        ⟨.initial, ⟨.initial, []⟩⟩
      (error? last.1, last.2.host.calls.countP HostCall.moves)) =
        some (some (.output (.rejected "cannot close 3")), 6) := by
    decide +kernel
  have hwritten : ((Document.parse nestedScopes.text.toList).toOption.map fun d =>
      let h := MarkdownWriter.host TextSink.put .halt
      let last := execute nestedScopes (Logged.host h) (Logged.runner h 0) d
        ⟨.initial, ⟨.on ⟨some 12, ""⟩, []⟩⟩
      (error? last.1, last.2.host.calls.countP HostCall.moves)) =
        some (some (.output (.io "disk full")), 4) := by
    decide +kernel
  obtain ⟨d, hparse, hrecorded⟩ := map_toOption_eq_some_iff.mp hrecorded
  rw [toOption_eq_some_iff.mpr hparse, Option.map_some, Option.some.injEq] at hwritten
  simp only [Prod.mk.injEq, error?_eq_some_iff] at hrecorded hwritten
  obtain ⟨hprograms, hpaired, hwriter⟩ := execute_pairs_scopes nestedScopes d .initial
  have hrecorder := (hprograms (Recorder.host refusedClose) 0 .initial).1
  have hmarkdown := (hprograms (MarkdownWriter.host TextSink.put .halt) 0 (.on ⟨some 12, ""⟩)).1
  obtain ⟨hgranted, hdepth⟩ :=
    hwriter TextSink.put .halt _ (MarkdownWriter.on ⟨some 12, ""⟩) hmarkdown rfl
  exact ⟨d, hparse, ⟨hrecorder, hpaired _ _ _ hrecorder, hrecorded⟩, hmarkdown, rfl, hgranted,
    hdepth, hwritten⟩

end LiveDoc
