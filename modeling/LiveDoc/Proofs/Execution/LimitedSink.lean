import LiveDoc.Proofs.Execution.ScopePairing
import Mathlib.Algebra.GroupWithZero.Nat

/-!
A sink that runs out of room. The run on it is compared with the run on a sink with room for any
text. They go alike as long as the texts fit. The first text that does not fit is not written, and
neither is any text behind it, even if it would fit again. So the output is cut, and nothing else
happens to it.
-/
namespace LiveDoc

open Outcome

/-- What a call that is granted has written. -/
def HostCall.written? : HostCall → Option String
  | opened _ heading (.ok _) => heading
  | emitted text (.ok _) => some text
  | _ => none

/-- The texts that some calls have written, headings and emitted ones. -/
def writes (calls : List HostCall) : List String := calls.filterMap HostCall.written?

/-- The texts before the first one that does not fit into the room that is left. -/
def fitting (room : Nat) : List String → List String
  | [] => []
  | text :: rest =>
    if text.utf8ByteSize ≤ room then text :: fitting (room - text.utf8ByteSize) rest else []

def byteSize (texts : List String) : Nat := (texts.map String.utf8ByteSize).sum

/-! ### Texts that fit -/

theorem byteSize_cons (text : String) (rest : List String) :
    byteSize (text :: rest) = text.utf8ByteSize + byteSize rest := by
  simp [byteSize]

theorem utf8ByteSize_join (texts : List String) :
    (String.join texts).utf8ByteSize = byteSize texts := by
  induction texts with
  | nil => rfl
  | cons text rest ih => rw [String.join_cons, String.utf8ByteSize_append, ih, byteSize_cons]

/-- Nothing is cut if and only if all texts fit together. -/
theorem fitting_eq_iff {room : Nat} {texts : List String} :
    fitting room texts = texts ↔ byteSize texts ≤ room := by
  induction texts generalizing room with
  | nil => exact iff_of_true rfl (Nat.zero_le room)
  | cons text rest ih =>
    rw [fitting, byteSize_cons]
    split
    case isTrue hfits =>
      rw [List.cons.injEq, and_iff_right rfl, ih]
      omega
    case isFalse hfits => exact iff_of_false (by simp) (by omega)

theorem fitting_isPrefix (room : Nat) (texts : List String) : fitting room texts <+: texts := by
  induction texts generalizing room with
  | nil => exact List.prefix_refl []
  | cons text rest ih =>
    rw [fitting]
    split
    · exact List.cons_prefix_cons.mpr ⟨rfl, ih _⟩
    · exact List.nil_prefix

/-- A text behind the cut is left out even if it would fit. -/
example : fitting 3 ["ab", "cd", "e"] = ["ab"] := by decide

theorem fitting_append_of_fits {room : Nat} {a : List String} (b : List String)
    (h : fitting room a = a) : fitting room (a ++ b) = a ++ fitting (room - byteSize a) b := by
  induction a generalizing room with
  | nil => rfl
  | cons text rest ih =>
    rw [fitting] at h
    split at h
    · rename_i hfits
      injection h with _ hrest
      rw [List.cons_append, fitting, if_pos hfits, ih hrest, byteSize_cons, ← Nat.sub_sub]
      rfl
    · simp at h

theorem fitting_append_of_cut {room : Nat} {a : List String} (b : List String)
    (h : fitting room a ≠ a) : fitting room (a ++ b) = fitting room a := by
  induction a generalizing room with
  | nil => exact absurd rfl h
  | cons text rest ih =>
    rw [List.cons_append, fitting, fitting]
    rw [fitting] at h
    split
    · rename_i hfits
      rw [if_pos hfits] at h
      have hrest : fitting (room - text.utf8ByteSize) rest ≠ rest := by
        intro hrest
        exact h (congrArg (List.cons text) hrest)
      rw [ih hrest]
    · rfl

/-- What is cut stays cut. -/
theorem cut_append {room : Nat} {a : List String} (b : List String) (h : fitting room a ≠ a) :
    fitting room (a ++ b) ≠ a ++ b := by
  rw [fitting_append_of_cut b h]
  intro heq
  have hle := (fitting_isPrefix room a).length_le
  rw [heq, List.length_append] at hle
  have hnil : b = [] := List.length_eq_zero_iff.mp (by omega)
  rw [hnil, List.append_nil] at heq
  exact h heq

theorem byteSize_append (a b : List String) : byteSize (a ++ b) = byteSize a + byteSize b := by
  simp [byteSize]

/-! ### Two writers -/

/-- A writer with room for any text has written what its log says. -/
structure Unlimited (l : Logged (MarkdownWriter TextSink)) : Prop where
  room : l.inner.sink.room = none
  written : l.inner.sink.written = String.join (writes l.calls)

/-- All texts so far fit into the room, and the writers differ in nothing but their room. -/
structure SameSoFar (room : Nat) (l l' : Logged (MarkdownWriter TextSink)) : Prop where
  unlimited : Unlimited l
  fits : fitting room (writes l.calls) = writes l.calls
  calls : l'.calls = l.calls
  inner : l'.inner =
    { l.inner with sink := ⟨some (room - byteSize (writes l.calls)), l.inner.sink.written⟩ }
  fatal : l.inner.fatal = []

/-- The second writer has refused the first text that did not fit. -/
structure CutOff (room : Nat) (e : HostError) (l l' : Logged (MarkdownWriter TextSink)) : Prop where
  unlimited : Unlimited l
  cut : fitting room (writes l.calls) ≠ writes l.calls
  error : e = .io "disk full"
  kept : writes l'.calls = fitting room (writes l.calls)
  written : l'.inner.sink.written = String.join (writes l'.calls)
  fatal : l'.inner.fatal = []

variable {room : Nat} {l l' : Logged (MarkdownWriter TextSink)}

theorem Logged.filterMap_add {σ α : Type} (f : HostCall → Option α) (l : Logged σ) (s : σ)
    (call : HostCall) :
    (l.add s call).calls.filterMap f = l.calls.filterMap f ++ (f call).toList := by
  cases hcall : f call <;> simp [Logged.add, hcall]

theorem writes_add {σ : Type} (l : Logged σ) (s : σ) (call : HostCall) :
    writes (l.add s call).calls = writes l.calls ++ call.written?.toList :=
  Logged.filterMap_add HostCall.written? l s call

theorem Unlimited.add (h : Unlimited l) {w : MarkdownWriter TextSink} {call : HostCall}
    (hroom : w.sink.room = none)
    (hwritten : w.sink.written = l.inner.sink.written ++ String.join call.written?.toList) :
    Unlimited (l.add w call) where
  room := hroom
  written := by
    rw [writes_add, String.join_append, ← h.written]
    exact hwritten

theorem CutOff.goesOn {e : HostError} {w : MarkdownWriter TextSink} {call : HostCall}
    (h : CutOff room e l l') (hroom : w.sink.room = none)
    (hwritten : w.sink.written = l.inner.sink.written ++ String.join call.written?.toList) :
    CutOff room e (l.add w call) l' where
  unlimited := h.unlimited.add hroom hwritten
  cut := by
    rw [writes_add]
    exact cut_append _ h.cut
  error := h.error
  kept := by
    rw [writes_add, fitting_append_of_cut _ h.cut]
    exact h.kept
  written := h.written
  fatal := h.fatal

theorem CutOff.goesOn_same {e : HostError} {w : MarkdownWriter TextSink} {call : HostCall}
    (h : CutOff room e l l') (hsink : w.sink = l.inner.sink) (hcall : call.written? = none) :
    CutOff room e (l.add w call) l' := by
  refine h.goesOn ?_ ?_
  · rw [hsink]
    exact h.unlimited.room
  · rw [hsink, hcall]
    exact (String.append_empty).symm

/-- The second writer may be asked for something else behind the cut. -/
theorem CutOff.behind {e : HostError} {w : MarkdownWriter TextSink} {call : HostCall}
    (h : CutOff room e l l') (hsink : w.sink = l'.inner.sink) (hfatal : w.fatal = l'.inner.fatal)
    (hcall : call.written? = none) : CutOff room e l (l'.add w call) := by
  have hsame : writes (l'.add w call).calls = writes l'.calls := by
    rw [writes_add, hcall, Option.toList_none, List.append_nil]
  refine ⟨h.unlimited, h.cut, h.error, hsame.trans h.kept, ?_, hfatal.trans h.fatal⟩
  rw [hsame, ← h.written]
  exact congrArg TextSink.written hsink

/-- A call by which nothing is written, and which the writers answer alike. -/
theorem SameSoFar.add {w w' : MarkdownWriter TextSink} {call : HostCall} (h : SameSoFar room l l')
    (hcall : call.written? = none) (hsink : w.sink = l.inner.sink) (hfatal : w.fatal = [])
    (hsame : w' = { w with sink := l'.inner.sink }) :
    SameSoFar room (l.add w call) (l'.add w' call) where
  unlimited := h.unlimited.add (by rw [hsink]; exact h.unlimited.room)
    (by rw [hsink, hcall]; exact (String.append_empty).symm)
  fits := by
    rw [writes_add, hcall, Option.toList_none, List.append_nil]
    exact h.fits
  calls := by rw [Logged.add, Logged.add, h.calls]
  inner := by
    rw [writes_add, hcall, Option.toList_none, List.append_nil]
    subst hsame
    simp only [Logged.add, h.inner, hsink]
  fatal := hfatal

/-- A text that fits is written by both writers. -/
theorem SameSoFar.write {w w' : MarkdownWriter TextSink} {call : HostCall} {text : String}
    (h : SameSoFar room l l') (hfits : text.utf8ByteSize ≤ room - byteSize (writes l.calls))
    (hcall : call.written? = some text)
    (hsink : w.sink = ⟨none, l.inner.sink.written ++ text⟩) (hfatal : w.fatal = [])
    (hsame : w' = { w with
      sink := ⟨some (room - byteSize (writes l.calls) - text.utf8ByteSize), w.sink.written⟩ }) :
    SameSoFar room (l.add w call) (l'.add w' call) where
  unlimited := h.unlimited.add (by rw [hsink]) (by simp [hsink, hcall])
  fits := by
    rw [writes_add, hcall, Option.toList_some, fitting_append_of_fits _ h.fits, fitting,
      if_pos hfits]
    rfl
  calls := by rw [Logged.add, Logged.add, h.calls]
  inner := by
    rw [writes_add, hcall, Option.toList_some, byteSize_append, byteSize_cons, ← Nat.sub_sub]
    exact hsame
  fatal := hfatal

/-- A text that does not fit is written by the first writer only. -/
theorem SameSoFar.refuse {w : MarkdownWriter TextSink} {call call' : HostCall} {text : String}
    (h : SameSoFar room l l') (hfits : ¬ text.utf8ByteSize ≤ room - byteSize (writes l.calls))
    (hcall : call.written? = some text) (hcall' : call'.written? = none)
    (hsink : w.sink = ⟨none, l.inner.sink.written ++ text⟩) :
    CutOff room (.io "disk full") (l.add w call) (l'.add l'.inner call') := by
  have hkept : fitting room (writes (l.add w call).calls) = writes l.calls := by
    rw [writes_add, hcall, Option.toList_some, fitting_append_of_fits _ h.fits, fitting,
      if_neg hfits, List.append_nil]
  have hsame : writes (l'.add l'.inner call').calls = writes l.calls := by
    rw [writes_add, hcall', Option.toList_none, List.append_nil, h.calls]
  refine ⟨h.unlimited.add (by rw [hsink]) (by simp [hsink, hcall]), ?_, rfl, ?_, ?_, ?_⟩
  · rw [hkept, writes_add, hcall]
    simp
  · rw [hsame, hkept]
  · rw [hsame, ← h.unlimited.written]
    simp only [Logged.add, h.inner]
  · simp only [Logged.add, h.inner, h.fatal]

/-! ### Requests -/

theorem write_limited {w : MarkdownWriter TextSink} {left : Nat} (h : w.sink.room = some left)
    (text : String) :
    MarkdownWriter.write TextSink.put text w =
      if text.utf8ByteSize ≤ left then
        .ok () { w with sink := ⟨some (left - text.utf8ByteSize), w.sink.written ++ text⟩ }
      else .error (.io "disk full") w := by
  by_cases hfits : text.utf8ByteSize ≤ left <;>
    simp [MarkdownWriter.write, TextSink.put, TextSink.fits, h, hfits]

theorem SameSoFar.room' (h : SameSoFar room l l') :
    l'.inner.sink.room = some (room - byteSize (writes l.calls)) := by
  rw [h.inner]

section Requests

variable (room) (action : ErrorAction)

theorem until_emitText (text : String) :
    AlikeUntil (SameSoFar room) (CutOff room) id
      ((Logged.host (inMemory action)).emitText text)
      ((Logged.host (inMemory action)).emitText text) where
  ends l l' h := by
    have hleft : (inMemory action).emitText text l.inner = .ok () (l.inner.wrote text) :=
      MarkdownWriter.write_of_unlimited h.unlimited.room text
    have hright : (inMemory action).emitText text l'.inner = _ := write_limited h.room' text
    have hsink : (l.inner.wrote text).sink = ⟨none, l.inner.sink.written ++ text⟩ := by
      rw [MarkdownWriter.wrote, ← h.unlimited.room]
    simp only [Logged.host, Logged.request, hleft, hright]
    by_cases hfits : text.utf8ByteSize ≤ room - byteSize (writes l.calls)
    · rw [if_pos hfits]
      refine .inl (.ok (h.write hfits rfl hsink h.fatal ?_))
      rw [h.inner]
      rfl
    · rw [if_neg hfits]
      exact .inr ⟨_, _, rfl, h.refuse hfits rfl rfl hsink⟩
  goesOn e l l' h := by
    have hleft : (inMemory action).emitText text l.inner = .ok () (l.inner.wrote text) :=
      MarkdownWriter.write_of_unlimited h.unlimited.room text
    simp only [Logged.host, Logged.request, hleft]
    exact h.goesOn h.unlimited.room (by simp [MarkdownWriter.wrote, HostCall.written?])

/-- The writer on which one more scope is open. -/
def MarkdownWriter.scoped (w : MarkdownWriter TextSink) : MarkdownWriter TextSink :=
  { w with nextHandle := w.nextHandle + 1, opened := w.nextHandle :: w.opened }

/-- Only a heading is written, and it is written before the scope is open. -/
theorem openScope_inMemory (scope : Scope) (text : String) (w : MarkdownWriter TextSink) :
    (inMemory action).openScope scope (some text) w =
      match MarkdownWriter.write TextSink.put text w with
      | .ok _ w => .ok w.nextHandle w.scoped
      | .error e w => .error e w := by
  change MarkdownWriter.openScope TextSink.put (some text) w = _
  rw [MarkdownWriter.openScope_heading]
  cases hwrite : MarkdownWriter.write TextSink.put text w with
  | ok a w' => exact run_bind_of_ok hwrite
  | error e w' => exact run_bind_of_error hwrite

theorem until_openScope (scope : Scope) (heading : Option String) :
    AlikeUntil (SameSoFar room) (CutOff room) id
      ((Logged.host (inMemory action)).openScope scope heading)
      ((Logged.host (inMemory action)).openScope scope heading) := by
  cases heading with
  | none =>
    have hopen (w : MarkdownWriter TextSink) :
        (inMemory action).openScope scope none w = .ok w.nextHandle w.scoped :=
      MarkdownWriter.openScope_none TextSink.put w
    refine ⟨?_, ?_⟩
    · intro l l' h
      have hhandle : l'.inner.nextHandle = l.inner.nextHandle := by rw [h.inner]
      simp only [Logged.host, Logged.request, hopen, hhandle]
      refine .inl (.ok (h.add rfl rfl h.fatal ?_))
      simp only [MarkdownWriter.scoped, h.inner]
    · intro e l l' h
      simp only [Logged.host, Logged.request, hopen]
      exact h.goesOn_same rfl rfl
  | some text =>
    have hopen := openScope_inMemory action scope text
    refine ⟨?_, ?_⟩
    · intro l l' h
      have hhandle : l'.inner.nextHandle = l.inner.nextHandle := by rw [h.inner]
      have hsink : (l.inner.wrote text).sink = ⟨none, l.inner.sink.written ++ text⟩ := by
        rw [MarkdownWriter.wrote, ← h.unlimited.room]
      simp only [Logged.host, Logged.request, hopen,
        MarkdownWriter.write_of_unlimited h.unlimited.room, write_limited h.room']
      by_cases hfits : text.utf8ByteSize ≤ room - byteSize (writes l.calls)
      · simp only [if_pos hfits, hhandle]
        refine .inl (.ok (h.write hfits rfl hsink h.fatal ?_))
        simp only [MarkdownWriter.scoped, h.inner]
        rfl
      · simp only [if_neg hfits]
        exact .inr ⟨_, _, rfl, h.refuse hfits rfl rfl hsink⟩
    · intro e l l' h
      simp only [Logged.host, Logged.request, hopen,
        MarkdownWriter.write_of_unlimited h.unlimited.room]
      exact h.goesOn h.unlimited.room
        (by simp [MarkdownWriter.scoped, MarkdownWriter.wrote, HostCall.written?])

/-- A scope is closed without a look at the sink. -/
theorem closeScope_sink (handle : Handle) (w : MarkdownWriter TextSink) (sink : TextSink) :
    MarkdownWriter.closeScope handle { w with sink } =
      match MarkdownWriter.closeScope handle w with
      | .ok _ w => .ok () { w with sink }
      | .error e w => .error e { w with sink } := by
  obtain ⟨sink', nextHandle, opened, errors, fatal⟩ := w
  cases opened with
  | nil => rfl
  | cons innermost rest =>
    by_cases hsame : innermost = handle <;> simp [MarkdownWriter.closeScope, hsame]

theorem closeScope_keeps (handle : Handle) (w : MarkdownWriter TextSink) :
    (stateOf (MarkdownWriter.closeScope handle w)).sink = w.sink ∧
      (stateOf (MarkdownWriter.closeScope handle w)).fatal = w.fatal := by
  simp only [MarkdownWriter.closeScope]
  cases w.opened with
  | nil => exact ⟨rfl, rfl⟩
  | cons innermost rest => by_cases hsame : innermost = handle <;> simp [hsame, stateOf]

theorem alike_closeScope (handle : Handle) :
    Alike (SameSoFar room) ((Logged.host (inMemory action)).closeScope handle)
      ((Logged.host (inMemory action)).closeScope handle) := by
  intro l l' h
  have hkeeps := closeScope_keeps handle l.inner
  have hsame := closeScope_sink handle l.inner
    ⟨some (room - byteSize (writes l.calls)), l.inner.sink.written⟩
  rw [← h.inner] at hsame
  have hclose (w : MarkdownWriter TextSink) :
    (inMemory action).closeScope handle w = MarkdownWriter.closeScope handle w := rfl
  simp only [Logged.host, Logged.request, hclose, hsame]
  cases hleft : MarkdownWriter.closeScope handle l.inner with
  | ok a w =>
    rw [hleft] at hkeeps
    refine .ok (h.add rfl hkeeps.1 (hkeeps.2.trans h.fatal) ?_)
    simp only [h.inner]
  | error e w =>
    rw [hleft] at hkeeps
    refine .error (h.add rfl hkeeps.1 (hkeeps.2.trans h.fatal) ?_)
    simp only [h.inner]

/-- The writers serve a run alike until a text does not fit. -/
theorem writers_until :
    HostUntil (SameSoFar room) (CutOff room) (Logged.host (inMemory action))
      (Logged.host (inMemory action)) where
  emit := until_emitText room action
  note text l l' h := h.add rfl rfl h.fatal (by rw [h.inner]; rfl)
  noteOn text e l l' h := h.goesOn_same rfl rfl
  openScope := until_openScope room action
  closeScope := alike_closeScope room action
  closeOn handle e l l' h := by
    change CutOff room e (stateOf (Logged.request (MarkdownWriter.closeScope handle) _ l)) l'
    rw [Logged.stateOf_request]
    exact h.goesOn_same (closeScope_keeps handle l.inner).1 rfl
  closeCut handle e l l' h := by
    obtain ⟨hsink, hfatal⟩ := closeScope_keeps handle l'.inner
    change CutOff room e l (stateOf (Logged.request (MarkdownWriter.closeScope handle) _ l'))
    rw [Logged.stateOf_request]
    exact h.behind hsink hfatal rfl
  answer e l l' h := rfl
  report e l l' h := h.add rfl rfl h.fatal (by rw [h.inner])
  reportOn failure e l l' h := h.goesOn_same rfl rfl

theorem runners_until (rounds : Nat) :
    RunnerUntil (SameSoFar room) (CutOff room) (Logged.runner (inMemory action) rounds)
      (Logged.runner (inMemory action) rounds) := by
  intro u
  have hrun := until_runFragment (writers_until room action).toServeUntil rounds u.fragment
  refine ⟨?_, ?_⟩
  · rintro m m' ⟨henv, h⟩
    exact hrun.ends _ _ ⟨henv, h.add rfl rfl h.fatal (by rw [h.inner])⟩
  · intro e m m' h
    exact hrun.goesOn e _ m' (CutOff.goesOn_same h rfl rfl)

end Requests

/-! ### Whole runs -/

/-- The run of a source on a fresh writer, with its log. -/
def writerRun (source : Source) (environment : Environment) (action : ErrorAction) (rounds : Nat)
    (limit : Option Nat) : RunResult × Machine (Logged (MarkdownWriter TextSink)) :=
  Logged.executeSource source (inMemory action) rounds ⟨environment, .on ⟨limit, ""⟩⟩

abbrev WriterEnd := RunResult × Machine (Logged (MarkdownWriter TextSink))

/-- The end of a run on a sink with room for `room` bytes, beside that of the run on a sink with
room for any text. -/
structure CutShort (room : Nat) (full limited : WriterEnd) : Prop where
  output : full.2.host.inner.sink.written = String.join (writes full.2.host.calls)
  /-- What is written is what comes before the first text that does not fit. -/
  kept : writes limited.2.host.calls = fitting room (writes full.2.host.calls)
  keptOutput : limited.2.host.inner.sink.written = String.join (writes limited.2.host.calls)
  uncut : fitting room (writes full.2.host.calls) = writes full.2.host.calls →
    limited.1 = full.1 ∧ limited.2.environment = full.2.environment ∧
      limited.2.host.calls = full.2.host.calls ∧
      limited.2.host.inner.errors = full.2.host.inner.errors ∧
      limited.2.host.inner.fatal = full.2.host.inner.fatal
  cut : fitting room (writes full.2.host.calls) ≠ writes full.2.host.calls →
    limited.1 = .error (.output (.io "disk full")) ∧
      limited.2.host.inner.fatal = [(RunError.output (.io "disk full")).message]

/-- The end of a run behind what is told as fatal. -/
def reported (messages : List String) (m : Machine (Logged (MarkdownWriter TextSink))) :
    Machine (Logged (MarkdownWriter TextSink)) :=
  ⟨m.environment, ⟨{ m.host.inner with fatal := m.host.inner.fatal ++ messages },
    m.host.calls ++ messages.map .fatal⟩⟩

theorem foldl_reportFatal (action : ErrorAction) (messages : List String)
    (m : Machine (Logged (MarkdownWriter TextSink))) :
    messages.foldl (fun m message => reportFatal (Logged.host (inMemory action)) message m) m =
      reported messages m := by
  induction messages generalizing m with
  | nil => simp [reported]
  | cons message rest ih =>
    rw [List.foldl_cons, ih]
    simp [reported, reportFatal, Logged.host, Logged.add, MarkdownWriter.host]

theorem writes_reported (messages : List String)
    (m : Machine (Logged (MarkdownWriter TextSink))) :
    writes (reported messages m).host.calls = writes m.host.calls := by
  have hnone : (messages.map HostCall.fatal).filterMap HostCall.written? = [] := by
    simp [HostCall.written?]
  simp only [reported, writes, List.filterMap_append, hnone, List.append_nil]

variable {result : RunResult} {m m' : Machine (Logged (MarkdownWriter TextSink))}

theorem cutShort_of_same (henv : m.environment = m'.environment)
    (h : SameSoFar room m.host m'.host) (result : RunResult) :
    CutShort room (result, reported (fatalOf result) m) (result, reported (fatalOf result) m') where
  output := by
    rw [writes_reported]
    exact h.unlimited.written
  kept := by
    rw [writes_reported, writes_reported, h.fits, h.calls]
  keptOutput := by
    rw [writes_reported, h.calls, ← h.unlimited.written]
    simp only [reported, h.inner]
  uncut _ := by simp [reported, henv, h.calls, h.inner]
  cut hcut := by
    rw [writes_reported] at hcut
    exact absurd h.fits hcut

theorem cutShort_of_cut {e : HostError} (h : CutOff room e m.host m'.host) (result : RunResult) :
    CutShort room (result, reported (fatalOf result) m)
      (.error (.output e), reported (fatalOf (.error (.output e))) m') where
  output := by
    rw [writes_reported]
    exact h.unlimited.written
  kept := by
    rw [writes_reported, writes_reported]
    exact h.kept
  keptOutput := by
    rw [writes_reported]
    exact h.written
  uncut hfits := by
    rw [writes_reported] at hfits
    exact absurd hfits h.cut
  cut _ := by simp [reported, h.error, h.fatal, fatalOf, RunError.isFragment]

theorem sameSoFar_on (room : Nat) :
    SameSoFar room ⟨.on ⟨none, ""⟩, []⟩ ⟨.on ⟨some room, ""⟩, []⟩ :=
  ⟨⟨rfl, rfl⟩, rfl, rfl, rfl, rfl⟩

theorem cutShort_writerRun (source : Source) (environment : Environment) (action : ErrorAction)
    (rounds room : Nat) :
    CutShort room (writerRun source environment action rounds none)
      (writerRun source environment action rounds (some room)) := by
  have hstart : OnHosts (SameSoFar room) ⟨environment, ⟨.on ⟨none, ""⟩, []⟩⟩
      ⟨environment, ⟨.on ⟨some room, ""⟩, []⟩⟩ := ⟨rfl, sameSoFar_on room⟩
  cases hempty : source.text.isEmpty with
  | true =>
    simp only [writerRun, Logged.executeSource, executeSource, hempty, if_true]
    exact cutShort_of_same hstart.1 hstart.2 (.error .emptyInput)
  | false =>
    cases hparse : Document.parse source.text.toList with
    | error reason =>
      simp only [writerRun, Logged.executeSource, executeSource, hempty, hparse]
      exact cutShort_of_same hstart.1 hstart.2 (.error (.unreadable reason))
    | ok d =>
      have hclosed := until_closeRun source (writers_until room action)
        (runners_until room action rounds) d hstart
      simp only [writerRun, Logged.executeSource, executeSource_of_parse hparse,
        execute_eq_closeRun, foldl_reportFatal]
      rcases hclosed with ⟨hresult, henv, hsame⟩ | ⟨e, hresult, hcut⟩
      · rw [← hresult]
        exact cutShort_of_same henv hsame _
      · rw [hresult]
        exact cutShort_of_cut hcut _

/-- A writer has no scope open when the run is over. -/
theorem depth_writerRun (source : Source) (environment : Environment) (action : ErrorAction)
    (rounds : Nat) (limit : Option Nat) :
    (writerRun source environment action rounds limit).2.host.inner.depth = 0 := by
  have htracks := MarkdownWriter.tracksScopes_writer
    (leavesScopes_runner (inMemory action) rounds)
  cases hempty : source.text.isEmpty with
  | true =>
    simp only [writerRun, Logged.executeSource, executeSource, hempty, if_true]
    rfl
  | false =>
    cases hparse : Document.parse source.text.toList with
    | error reason =>
      simp only [writerRun, Logged.executeSource, executeSource, hempty, hparse]
      rfl
    | ok d =>
      have hopened := (htracks.execute source d
        (m := ⟨environment, ⟨.on ⟨limit, ""⟩, []⟩⟩) ⟨rfl, by simp [MarkdownWriter.ClosesGranted]⟩).1
      rw [writerRun, Logged.executeSource, executeSource_of_parse hparse, MarkdownWriter.depth,
        hopened]
      rfl

/-- A sink that runs out of room cuts the output and changes nothing else, for every source, answer
to failures, number of rounds and room. -/
theorem executeSource_cut_short (source : Source) (environment : Environment)
    (action : ErrorAction) (rounds room : Nat) :
    let run := writerRun source environment action rounds
    let full := run none
    let limited := run (some room)
    (∀ limit, executeSource source (inMemory action) (programRunner (inMemory action) rounds)
        ⟨environment, .on ⟨limit, ""⟩⟩ =
      ((run limit).1, ⟨(run limit).2.environment, (run limit).2.host.inner⟩)) ∧
    CutShort room full limited ∧
    limited.2.host.inner.sink.written.toList <+: full.2.host.inner.sink.written.toList ∧
    full.2.host.inner.depth = 0 ∧ limited.2.host.inner.depth = 0 := by
  intro run full limited
  have hshort := cutShort_writerRun source environment action rounds room
  refine ⟨?_, hshort, ?_, depth_writerRun .., depth_writerRun ..⟩
  · intro limit
    exact Logged.executeSource_eq source (inMemory action) rounds ⟨environment, .on ⟨limit, ""⟩⟩
  · obtain ⟨rest, hrest⟩ := fitting_isPrefix room (writes full.2.host.calls)
    refine ⟨(String.join rest).toList, ?_⟩
    rw [hshort.keptOutput, hshort.kept, hshort.output, ← String.toList_append,
      ← String.join_append, hrest]

end LiveDoc
