import LiveDoc.Proofs.Execution.LimitedSink
import Mathlib.Data.List.Nodup

/-!
The Markdown writer under requests in any order, on a sink that takes or refuses each text as a
whole. The log of the requests tells all about the writer: its handles are given out in order, the
scope that can be closed is the one opened last of those that are still open, and what is written
are the headings and texts of the requests that were granted. A request that fails changes nothing.
-/
namespace LiveDoc

open Outcome

/-- A sink writes all of a text or fails and writes nothing. What is written shows in its state. -/
structure Sink.Whole {τ : Type} (put : Sink τ) (written : τ → String) : Prop where
  taken : ∀ text s s', put text s = .ok () s' → written s' = written s ++ text
  refused : ∀ text e s s', put text s = .error e s' → written s' = written s

/-! ### Requests -/

namespace HostCall

/-- The handle of a scope that has been opened. -/
def opened? : HostCall → Option Handle
  | opened _ _ (.ok handle) => some handle
  | _ => none

/-- The handle of a scope that has been closed. -/
def closed? : HostCall → Option Handle
  | closed handle (.ok _) => some handle
  | _ => none

end HostCall

def handlesOpened (calls : List HostCall) : List Handle := calls.filterMap HostCall.opened?

def handlesClosed (calls : List HostCall) : List Handle := calls.filterMap HostCall.closed?

/-- The scopes that have been opened and not been closed, in the order in which they were opened. -/
def handlesOpen (calls : List HostCall) : List Handle :=
  (handlesOpened calls).filter (· ∉ handlesClosed calls)

section Added

variable {σ : Type} (l : Logged σ) (inner : σ) (call : HostCall)

theorem handlesOpened_add :
    handlesOpened (l.add inner call).calls = handlesOpened l.calls ++ call.opened?.toList :=
  Logged.filterMap_add HostCall.opened? l inner call

theorem handlesClosed_add :
    handlesClosed (l.add inner call).calls = handlesClosed l.calls ++ call.closed?.toList :=
  Logged.filterMap_add HostCall.closed? l inner call

end Added

namespace MarkdownWriter

/-- What can be asked of a writer. -/
inductive Request where
  | openScope (scope : Scope) (heading : Option String)
  | closeScope (handle : Handle)
  | emitText (text : String)
  | reportFatal (message : String)

def Request.perform {σ : Type} (h : Host σ) : Request → EStateM HostError σ Unit
  | openScope scope heading => do
    let _ ← h.openScope scope heading
  | closeScope handle => h.closeScope handle
  | emitText text => h.emitText text
  | reportFatal message => modify (h.reportFatal message)

/-- A host behind some requests, whatever came of them. -/
def afterRequests {σ : Type} (h : Host σ) (requests : List Request) (s : σ) : σ :=
  requests.foldl (fun s request => stateOf (request.perform h s)) s

section Logs

variable {σ : Type} {h : Host σ}

theorem perform_openScope (h : Host σ) (scope : Scope) (heading : Option String) (s : σ) :
    Request.perform h (.openScope scope heading) s =
      match h.openScope scope heading s with
      | .ok _ s => .ok () s
      | .error e s => .error e s := by
  rw [Request.perform]
  cases hopen : h.openScope scope heading s with
  | ok handle t => exact run_bind_of_ok hopen
  | error e t => exact run_bind_of_error hopen

theorem stateOf_openScope (h : Host σ) (scope : Scope) (heading : Option String) (s : σ) :
    stateOf (Request.perform h (.openScope scope heading) s) =
      stateOf (h.openScope scope heading s) := by
  rw [perform_openScope]
  cases h.openScope scope heading s with
  | ok handle t => rfl
  | error e t => rfl

theorem inner_perform (h : Host σ) (request : Request) (l : Logged σ) :
    (stateOf (request.perform (Logged.host h) l)).inner =
      stateOf (request.perform h l.inner) := by
  cases request with
  | openScope scope heading =>
    rw [stateOf_openScope, stateOf_openScope]
    exact congrArg Logged.inner (Logged.stateOf_request _ _ l)
  | closeScope handle => exact congrArg Logged.inner (Logged.stateOf_request _ _ l)
  | emitText text => exact congrArg Logged.inner (Logged.stateOf_request _ _ l)
  | reportFatal message => rfl

/-- The log changes nothing. -/
theorem inner_afterRequests (h : Host σ) (requests : List Request) (l : Logged σ) :
    (afterRequests (Logged.host h) requests l).inner = afterRequests h requests l.inner := by
  induction requests generalizing l with
  | nil => rfl
  | cons request rest ih =>
    rw [afterRequests, List.foldl_cons]
    refine (ih _).trans ?_
    rw [inner_perform]
    rfl

end Logs

/-! ### What a request does -/

section Whole

variable {τ : Type} {put : Sink τ} {action : ErrorAction} {written : τ → String}

/-- Two writers have the same scopes open and give out the same handle next. -/
def SameScopes (w w' : MarkdownWriter τ) : Prop :=
  w'.opened = w.opened ∧ w'.nextHandle = w.nextHandle

theorem write_whole (hsink : put.Whole written) (text : String) (w : MarkdownWriter τ) :
    (∃ w', write put text w = .ok () w' ∧ SameScopes w w' ∧
      written w'.sink = written w.sink ++ text) ∨
    ∃ e w', write put text w = .error e w' ∧ SameScopes w w' ∧
      written w'.sink = written w.sink := by
  cases hput : put text w.sink with
  | ok a sink =>
    refine .inl ⟨{ w with sink }, ?_, ⟨rfl, rfl⟩, hsink.taken _ _ _ hput⟩
    simp [write, hput]
  | error e sink =>
    refine .inr ⟨e, { w with sink }, ?_, ⟨rfl, rfl⟩, hsink.refused _ _ _ _ hput⟩
    simp [write, hput]

/-- A scope is opened with the next handle behind its heading, or nothing happens. -/
theorem openScope_whole (hsink : put.Whole written) (heading : Option String)
    (w : MarkdownWriter τ) :
    (∃ w', openScope put heading w = .ok w.nextHandle w' ∧
      w'.opened = w.nextHandle :: w.opened ∧ w'.nextHandle = w.nextHandle + 1 ∧
      written w'.sink = written w.sink ++ String.join heading.toList) ∨
    ∃ e w', openScope put heading w = .error e w' ∧ SameScopes w w' ∧
      written w'.sink = written w.sink := by
  cases heading with
  | none => exact .inl ⟨_, openScope_none put w, rfl, rfl, by simp⟩
  | some text =>
    rw [openScope_heading]
    rcases write_whole hsink text w with
      ⟨w', hwrite, ⟨hopened, hnext⟩, hout⟩ | ⟨e, w', hwrite, hsame⟩
    · rw [run_bind_of_ok hwrite, openScope_none, hnext, hopened]
      exact .inl ⟨_, rfl, rfl, rfl, by simpa using hout⟩
    · rw [run_bind_of_error hwrite]
      exact .inr ⟨e, w', rfl, hsame⟩

/-- Only the innermost scope is closed. -/
theorem closeScope_cases (handle : Handle) (w : MarkdownWriter τ) :
    (∃ rest, w.opened = handle :: rest ∧
      closeScope handle w = .ok () { w with opened := rest }) ∨
    (w.opened.head? ≠ some handle ∧ ∃ e, closeScope handle w = .error e w) := by
  rw [closeScope]
  cases w.opened with
  | nil => exact .inr ⟨by simp, _, rfl⟩
  | cons innermost rest =>
    by_cases hsame : innermost = handle
    · subst hsame
      exact .inl ⟨rest, rfl, by simp⟩
    · exact .inr ⟨by simpa using hsame, closeScope.refusal handle, by simp [hsame]⟩

/-! ### The writer and its log -/

/-- The log of a writer that had written `before` at first. -/
structure Tracked (written : τ → String) (before : String) (l : Logged (MarkdownWriter τ)) :
    Prop where
  handles : handlesOpened l.calls = List.range l.inner.nextHandle
  closed_lt : ∀ handle ∈ handlesClosed l.calls, handle < l.inner.nextHandle
  open_eq : handlesOpen l.calls = l.inner.opened.reverse
  depth : l.inner.depth + (handlesClosed l.calls).length = (handlesOpened l.calls).length
  output : written l.inner.sink = before ++ String.join (writes l.calls)

namespace Tracked

variable {before : String} {l : Logged (MarkdownWriter τ)} {w : MarkdownWriter τ}
  {call : HostCall}

theorem nodup (h : Tracked written before l) : l.inner.opened.Nodup := by
  rw [← List.nodup_reverse, ← h.open_eq, handlesOpen, h.handles]
  exact List.nodup_range.filter _

theorem output_add (h : Tracked written before l) (hout : written w.sink =
      written l.inner.sink ++ String.join call.written?.toList) :
    written w.sink = before ++ String.join (writes (l.add w call).calls) := by
  rw [writes_add, String.join_append, ← String.append_assoc, ← h.output, hout]

/-- A request that opens no scope and closes none. -/
theorem other (h : Tracked written before l) (hopened : call.opened? = none)
    (hclosed : call.closed? = none) (hsame : SameScopes l.inner w)
    (hout : written w.sink = written l.inner.sink ++ String.join call.written?.toList) :
    Tracked written before (l.add w call) := by
  have hopenedAll : handlesOpened (l.add w call).calls = handlesOpened l.calls := by
    rw [handlesOpened_add, hopened, Option.toList_none, List.append_nil]
  have hclosedAll : handlesClosed (l.add w call).calls = handlesClosed l.calls := by
    rw [handlesClosed_add, hclosed, Option.toList_none, List.append_nil]
  obtain ⟨hscopes, hnext⟩ := hsame
  constructor
  · rw [hopenedAll, h.handles]
    exact congrArg List.range hnext.symm
  · rw [hclosedAll]
    intro handle hmem
    exact Nat.lt_of_lt_of_eq (h.closed_lt handle hmem) hnext.symm
  · rw [handlesOpen, hopenedAll, hclosedAll]
    exact h.open_eq.trans (congrArg List.reverse hscopes.symm)
  · rw [hopenedAll, hclosedAll, ← h.depth]
    exact congrArg (· + _) (congrArg List.length hscopes)
  · exact h.output_add hout

/-- The new scope is the last one opened, and its handle is a new one. -/
theorem opens {scope : Scope} {heading : Option String} (h : Tracked written before l)
    (hopened : w.opened = l.inner.nextHandle :: l.inner.opened)
    (hnext : w.nextHandle = l.inner.nextHandle + 1)
    (hout : written w.sink = written l.inner.sink ++ String.join heading.toList) :
    Tracked written before (l.add w (.opened scope heading (.ok l.inner.nextHandle))) := by
  let call := HostCall.opened scope heading (.ok l.inner.nextHandle)
  have hopenedAll : handlesOpened (l.add w call).calls =
      handlesOpened l.calls ++ [l.inner.nextHandle] := handlesOpened_add l w call
  have hclosedAll : handlesClosed (l.add w call).calls = handlesClosed l.calls :=
    (handlesClosed_add l w call).trans (List.append_nil _)
  have hnew : l.inner.nextHandle ∉ handlesClosed l.calls :=
    fun hmem => Nat.lt_irrefl _ (h.closed_lt _ hmem)
  constructor
  · rw [hopenedAll, h.handles, ← List.range_succ]
    exact congrArg List.range hnext.symm
  · rw [hclosedAll]
    intro handle hmem
    exact Nat.lt_of_lt_of_eq (Nat.lt_succ_of_lt (h.closed_lt handle hmem)) hnext.symm
  · have hopen := h.open_eq
    rw [handlesOpen] at hopen
    rw [handlesOpen, hopenedAll, hclosedAll, List.filter_append, hopen]
    simp [Logged.add, hopened, hnew]
  · have hdepth := h.depth
    rw [hopenedAll, hclosedAll, List.length_append, List.length_singleton, ← hdepth]
    simp only [MarkdownWriter.depth, Logged.add, hopened, List.length_cons]
    omega
  · exact h.output_add hout

/-- The scope that is closed is the last one of those that are open. -/
theorem closes {handle : Handle} {rest : List Handle} (h : Tracked written before l)
    (hopened : l.inner.opened = handle :: rest) :
    Tracked written before (l.add { l.inner with opened := rest } (.closed handle (.ok ()))) := by
  let w : MarkdownWriter τ := { l.inner with opened := rest }
  let call := HostCall.closed handle (.ok ())
  have hopenedAll : handlesOpened (l.add w call).calls = handlesOpened l.calls :=
    (handlesOpened_add l w call).trans (List.append_nil _)
  have hclosedAll : handlesClosed (l.add w call).calls = handlesClosed l.calls ++ [handle] :=
    handlesClosed_add l w call
  have hmem : handle ∈ handlesOpen l.calls := by
    rw [h.open_eq, hopened]
    simp
  have hnodup := h.nodup
  rw [hopened, List.nodup_cons] at hnodup
  constructor
  · rw [hopenedAll, h.handles]
    rfl
  · rw [hclosedAll]
    intro other hother
    rcases List.mem_append.mp hother with hold | hlast
    · exact h.closed_lt other hold
    · rw [List.mem_singleton.mp hlast, ← List.mem_range]
      exact h.handles ▸ (List.mem_filter.mp hmem).1
  · have hopen := h.open_eq
    rw [handlesOpen, hopened, List.reverse_cons] at hopen
    have hrest : rest.reverse.filter (· ≠ handle) = rest.reverse := by
      rw [List.filter_eq_self]
      intro other hother
      refine decide_eq_true ?_
      rintro rfl
      exact hnodup.1 (List.mem_reverse.mp hother)
    have hsplit : (handlesOpened l.calls).filter (· ∉ handlesClosed l.calls ++ [handle]) =
        ((handlesOpened l.calls).filter (· ∉ handlesClosed l.calls)).filter (· ≠ handle) := by
      rw [List.filter_filter]
      congr 1
      funext other
      simp [and_comm]
    rw [handlesOpen, hopenedAll, hclosedAll, hsplit, hopen, List.filter_append, hrest]
    simp [Logged.add]
  · have hdepth := h.depth
    rw [hopenedAll, hclosedAll, List.length_append, List.length_singleton, ← hdepth]
    simp only [MarkdownWriter.depth, Logged.add, hopened, List.length_cons]
    omega
  · exact h.output_add (by simp [Logged.add, HostCall.written?])

/-- Whatever comes of a request, the log tells of it. -/
theorem perform (hsink : put.Whole written) (action : ErrorAction) (request : Request)
    (h : Tracked written before l) :
    Tracked written before (stateOf (request.perform (Logged.host (host put action)) l)) := by
  cases request with
  | openScope scope heading =>
    rw [stateOf_openScope]
    change Tracked written before
      (stateOf (Logged.request (MarkdownWriter.openScope put heading) (.opened scope heading) l))
    rw [Logged.stateOf_request]
    rcases openScope_whole hsink heading l.inner with
      ⟨w, hopen, hopened, hnext, hout⟩ | ⟨e, w, hopen, hsame, hout⟩
    · rw [hopen]
      exact h.opens hopened hnext hout
    · rw [hopen]
      exact h.other rfl rfl hsame (by simp [stateOf, resultOf, HostCall.written?, hout])
  | closeScope handle =>
    change Tracked written before
      (stateOf (Logged.request (MarkdownWriter.closeScope handle) (.closed handle) l))
    rw [Logged.stateOf_request]
    rcases closeScope_cases handle l.inner with ⟨rest, hopened, hclose⟩ | ⟨-, e, hclose⟩
    · rw [hclose]
      exact h.closes hopened
    · rw [hclose]
      exact h.other rfl rfl ⟨rfl, rfl⟩ (by simp [stateOf, HostCall.written?])
  | emitText text =>
    change Tracked written before (stateOf (Logged.request (write put text) (.emitted text) l))
    rw [Logged.stateOf_request]
    rcases write_whole hsink text l.inner with
      ⟨w, hwrite, hsame, hout⟩ | ⟨e, w, hwrite, hsame, hout⟩
    · rw [hwrite]
      exact h.other rfl rfl hsame (by simp [stateOf, resultOf, HostCall.written?, hout])
    · rw [hwrite]
      exact h.other rfl rfl hsame (by simp [stateOf, resultOf, HostCall.written?, hout])
  | reportFatal message =>
    let w := (host put action).reportFatal message l.inner
    have hfatal : Tracked written before (l.add w (.fatal message)) :=
      h.other rfl rfl ⟨rfl, rfl⟩ (by simp [w, host, HostCall.written?])
    exact hfatal

theorem afterRequests (hsink : put.Whole written) (action : ErrorAction)
    (requests : List Request) (h : Tracked written before l) :
    Tracked written before
      (MarkdownWriter.afterRequests (Logged.host (host put action)) requests l) := by
  induction requests generalizing l with
  | nil => exact h
  | cons request rest ih => exact ih (h.perform hsink action request)

theorem closeScope_iff (h : Tracked written before l) (handle : Handle) :
    (∃ w, closeScope handle l.inner = .ok () w) ↔
      (handlesOpen l.calls).getLast? = some handle := by
  rw [h.open_eq, List.getLast?_reverse]
  rcases closeScope_cases handle l.inner with ⟨rest, hopened, hclose⟩ | ⟨hother, e, hclose⟩
  · simp [hopened, hclose]
  · simp [hother, hclose]

end Tracked

theorem unchanged_of_error (hsink : put.Whole written) {request : Request}
    {w w' : MarkdownWriter τ} {e : HostError}
    (h : request.perform (host put action) w = .error e w') :
    SameScopes w w' ∧ written w'.sink = written w.sink := by
  cases request with
  | openScope scope heading =>
    rw [perform_openScope] at h
    simp only [host] at h
    rcases openScope_whole hsink heading w with ⟨v, hopen, -⟩ | ⟨e', v, hopen, hsame⟩
    · rw [hopen] at h
      cases h
    · rw [hopen] at h
      cases h
      exact hsame
  | closeScope handle =>
    change closeScope handle w = .error e w' at h
    rcases closeScope_cases handle w with ⟨rest, -, hclose⟩ | ⟨-, e', hclose⟩
    · rw [hclose] at h
      cases h
    · rw [hclose] at h
      cases h
      exact ⟨⟨rfl, rfl⟩, rfl⟩
  | emitText text =>
    change write put text w = .error e w' at h
    rcases write_whole hsink text w with ⟨v, hwrite, -⟩ | ⟨e', v, hwrite, hsame⟩
    · rw [hwrite] at h
      cases h
    · rw [hwrite] at h
      cases h
      exact hsame
  | reportFatal message => cases h

/-! ### What can be relied on -/

/-- What the log of a writer tells about it, and what further requests come to. -/
structure Accounted (put : Sink τ) (written : τ → String) (action : ErrorAction) (before : String)
    (l : Logged (MarkdownWriter τ)) : Prop where
  /-- The scopes that have been opened have the handles from zero on, in order. -/
  handles : handlesOpened l.calls = List.range l.inner.nextHandle
  closes : ∀ handle, (∃ w, closeScope handle l.inner = .ok () w) ↔
    (handlesOpen l.calls).getLast? = some handle
  depth : l.inner.depth + (handlesClosed l.calls).length = (handlesOpened l.calls).length
  /-- A request that fails opens and closes nothing, uses up no handle and writes nothing. -/
  unchanged : ∀ (request : Request) (e : HostError) (w : MarkdownWriter τ),
    request.perform (host put action) l.inner = .error e w →
      w.opened = l.inner.opened ∧ w.nextHandle = l.inner.nextHandle ∧
        written w.sink = written l.inner.sink
  /-- The headings of the scopes that have been opened and the texts that have been emitted. -/
  output : written l.inner.sink = before ++ String.join (writes l.calls)

theorem Tracked.accounted {before : String} {l : Logged (MarkdownWriter τ)}
    (h : Tracked written before l) (hsink : put.Whole written) (action : ErrorAction) :
    Accounted put written action before l where
  handles := h.handles
  closes := h.closeScope_iff
  depth := h.depth
  unchanged request e w hfails := by
    obtain ⟨⟨hopened, hnext⟩, hout⟩ := unchanged_of_error hsink hfails
    exact ⟨hopened, hnext, hout⟩
  output := h.output

/-- Behind any requests a new writer and its log agree, whatever the sink refuses. Without the log
the writer is the same. -/
theorem afterRequests_accounted {τ : Type} {put : Sink τ} {written : τ → String}
    (hsink : put.Whole written) (action : ErrorAction) (sink : τ) (requests : List Request) :
    let last := afterRequests (Logged.host (host put action)) requests ⟨.on sink, []⟩
    afterRequests (host put action) requests (.on sink) = last.inner ∧
      Accounted put written action (written sink) last := by
  intro last
  have hstart : Tracked written (written sink) ⟨MarkdownWriter.on sink, []⟩ :=
    ⟨rfl, by simp [handlesClosed], rfl, rfl, by simp [writes, MarkdownWriter.on]⟩
  exact ⟨(inner_afterRequests (host put action) requests ⟨MarkdownWriter.on sink, []⟩).symm,
    (hstart.afterRequests hsink action requests).accounted hsink action⟩

end Whole

/-- A sink that has been told which writes fail. -/
structure ToldSink where
  fails : List Bool
  written : String
deriving DecidableEq

def ToldSink.put : Sink ToldSink := fun text s =>
  if s.fails.head? = some true then .error (.io "disk full") ⟨s.fails.tail, s.written⟩
  else .ok () ⟨s.fails.tail, s.written ++ text⟩

theorem ToldSink.whole_put : Sink.Whole ToldSink.put ToldSink.written where
  taken text s s' h := by
    rw [put] at h
    split at h
    · cases h
    · cases h
      rfl
  refused text e s s' h := by
    rw [put] at h
    split at h
    · cases h
      rfl
    · cases h

/-- Two writes that fail, a scope closed out of order and one closed twice. -/
def roughRequests : List Request :=
  [.openScope ⟨"A", 1, "/A"⟩ (some "# A\n"), .emitText "x",
    .openScope ⟨"B", 2, "/A/B"⟩ (some "## B\n"), .emitText "y\n",
    .openScope ⟨"C", 2, "/A/C"⟩ none, .closeScope 0, .closeScope 1, .closeScope 1,
    .reportFatal "m", .openScope ⟨"D", 2, "/A/D"⟩ (some "## D\n")]

theorem accounted_of_rough :
    let last := afterRequests (Logged.host (host ToldSink.put .halt)) roughRequests
      ⟨.on ⟨[false, true, true], ""⟩, []⟩
    Sink.Whole ToldSink.put ToldSink.written ∧
      afterRequests (host ToldSink.put .halt) roughRequests (.on ⟨[false, true, true], ""⟩) =
        last.inner ∧
      Accounted ToldSink.put ToldSink.written .halt "" last ∧
      handlesOpened last.calls = [0, 1, 2] ∧ handlesOpen last.calls = [0, 2] ∧
      last.inner = ⟨⟨[], "# A\ny\n## D\n"⟩, 3, [2, 0], [], ["m"]⟩ := by
  obtain ⟨hplain, haccounted⟩ := afterRequests_accounted ToldSink.whole_put .halt
    ⟨[false, true, true], ""⟩ roughRequests
  refine ⟨ToldSink.whole_put, hplain, haccounted, ?_, ?_, ?_⟩
  · decide +kernel
  · decide +kernel
  · decide +kernel

end MarkdownWriter

end LiveDoc
