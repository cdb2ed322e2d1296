import LiveDoc.Proofs.Execution.CallLog
import LiveDoc.Proofs.Execution.ProseUnit
import LiveDoc.Proofs.Execution.Writer

/-!
What the steps of a run write. Between two states of a logged writer the log grows by calls and the
output by a text. A fragment adds to the output exactly the texts that the log shows behind its
start, a scope adds its heading, and closing adds nothing.
-/
namespace LiveDoc.Logged

open Outcome

theorem textsEmitted_append_of_none {a b : List HostCall} (h : unitTexts a = []) :
    textsEmitted (a ++ b) = textsEmitted a ++ textsEmitted b := by
  induction a with
  | nil => rfl
  | cons call rest ih =>
    cases call with
    | started u => simp [unitTexts] at h
    | emitted text result =>
      cases result with
      | ok => exact congrArg (List.cons text) (ih h)
      | error e => exact ih h
    | _ => exact ih h

theorem unitTexts_append_of_none {a b : List HostCall} (h : unitTexts a = []) :
    unitTexts (a ++ b) = unitTexts b := by
  induction a with
  | nil => rfl
  | cons call rest ih =>
    cases call with
    | started u => simp [unitTexts] at h
    | _ => exact ih h

variable {action : ErrorAction} {rounds : Nat} {l l' l'' : Logged (MarkdownWriter TextSink)}

def output (l : Logged (MarkdownWriter TextSink)) : List Char := l.inner.sink.written.toList

/-- The fragments that were run from one state to the other, each with the texts it emitted, and
the text that was written. -/
structure Wrote (l l' : Logged (MarkdownWriter TextSink))
    (entries : List (FragmentUnit × List String)) (out : List Char) : Prop where
  log : ∃ calls, l'.calls = l.calls ++ calls ∧ textsEmitted calls = [] ∧ unitTexts calls = entries
  output : l'.output = l.output ++ out

namespace Wrote

theorem refl (l : Logged (MarkdownWriter TextSink)) : Wrote l l [] [] := by
  refine ⟨⟨[], ?_, rfl, rfl⟩, ?_⟩
  · rw [List.append_nil]
  · rw [List.append_nil]

theorem trans {entries entries' : List (FragmentUnit × List String)} {out out' : List Char}
    (h : Wrote l l' entries out) (h' : Wrote l' l'' entries' out') :
    Wrote l l'' (entries ++ entries') (out ++ out') := by
  obtain ⟨calls, hcalls, hnone, hentries⟩ := h.log
  obtain ⟨calls', hcalls', hnone', hentries'⟩ := h'.log
  refine ⟨⟨calls ++ calls', ?_, ?_, ?_⟩, ?_⟩
  · rw [hcalls', hcalls, List.append_assoc]
  · rw [textsEmitted_append hnone', hnone]
  · rw [unitTexts_append hnone', hentries, hentries']
  · rw [h'.output, h.output, List.append_assoc]

/-- One more call that does not start a fragment or emit a text. -/
theorem of_call {s : MarkdownWriter TextSink} {call : HostCall} {out : List Char}
    (htexts : textsEmitted [call] = []) (hunits : unitTexts [call] = [])
    (hout : s.sink.written.toList = l.output ++ out) : Wrote l (l.add s call) [] out :=
  ⟨⟨[call], rfl, htexts, hunits⟩, hout⟩

end Wrote

/-! ### Scopes -/

theorem wrote_openScope {scope : Scope} {heading : Option String} {handle : Handle}
    (h : (host (inMemory action)).openScope scope heading l = .ok handle l') :
    Wrote l l' [] ((heading.map String.toList).getD []) := by
  cases heading with
  | none =>
    injection h with _ hl
    subst hl
    exact Wrote.of_call rfl rfl (by simp [output])
  | some text =>
    have hopen : (inMemory action).openScope scope (some text) l.inner =
        (MarkdownWriter.write TextSink.put text >>= fun _ =>
          MarkdownWriter.openScope TextSink.put none) l.inner := rfl
    rcases MarkdownWriter.write_cases text l.inner with ⟨w, hwrite, hwritten⟩ | ⟨e, w, hwrite, -⟩
    · simp only [host, request, hopen, run_bind_of_ok hwrite] at h
      injection h with _ hl
      subst hl
      refine Wrote.of_call rfl rfl ?_
      simp [output, hwritten]
    · simp [host, request, hopen, run_bind_of_error hwrite] at h

theorem wrote_closeScope (action : ErrorAction) (handle : Handle)
    (l : Logged (MarkdownWriter TextSink)) :
    Wrote l (stateOf ((host (inMemory action)).closeScope handle l)) [] [] := by
  have hsink : (stateOf (MarkdownWriter.closeScope handle l.inner)).sink = l.inner.sink := by
    unfold MarkdownWriter.closeScope
    split
    · split <;> rfl
    · rfl
  change Wrote l (stateOf (request (MarkdownWriter.closeScope handle) (.closed handle) l)) [] []
  rw [stateOf_request]
  refine Wrote.of_call rfl rfl ?_
  rw [hsink, List.append_nil]
  rfl

theorem wrote_closeEntry (action : ErrorAction) (entry : ScopeEntry)
    (l : Logged (MarkdownWriter TextSink)) :
    Wrote l (stateOf (ScopeStack.closeEntry (host (inMemory action)) entry l)) [] [] := by
  cases entry with
  | opened handle scope => exact wrote_closeScope action handle l
  | placeholder level => exact Wrote.refl l

theorem wrote_popUpTo {count : Nat} {stack stack' : ScopeStack}
    (h : ScopeStack.popUpTo (host (inMemory action)) count (stack, l) = .ok () (stack', l')) :
    Wrote l l' [] [] := by
  induction count generalizing stack l with
  | zero =>
    injection h with _ hp
    injection hp with _ hl
    subst hl
    exact Wrote.refl l
  | succ count ih =>
    cases stack with
    | nil =>
      rw [ScopeStack.popUpTo_nil] at h
      injection h with _ hp
      injection hp with _ hl
      subst hl
      exact Wrote.refl l
    | cons entry rest =>
      rw [ScopeStack.popUpTo_cons] at h
      have hfirst := wrote_closeEntry action entry l
      cases hclose : ScopeStack.closeEntry (host (inMemory action)) entry l with
      | error e l₁ => simp [hclose] at h
      | ok a l₁ =>
        rw [hclose] at h hfirst
        exact hfirst.trans (ih h)

/-- To enter a scope writes its heading and nothing else. -/
theorem wrote_enter {level : Nat} {name heading : String} {stack stack' : ScopeStack}
    {handle : Handle}
    (h : ScopeStack.enter (host (inMemory action)) level name (some heading) (stack, l) =
      .ok handle (stack', l')) :
    Wrote l l' [] heading.toList := by
  by_cases hlevel : level = 0
  · subst hlevel
    rw [ScopeStack.enter_zero] at h
    simp at h
  · rw [ScopeStack.enter_eq (Nat.pos_of_ne_zero hlevel)] at h
    obtain ⟨a, ⟨stack₁, l₁⟩, hpop, hopen⟩ := run_bind_eq_ok_iff.mp h
    have hfirst := wrote_popUpTo hpop
    simp only [ScopeStack.openOn] at hopen
    cases hact : (host (inMemory action)).openScope ⟨name, level, ScopeStack.pathOf stack₁ name⟩
        (some heading) l₁ with
    | error e l₂ => simp [hact] at hopen
    | ok b l₂ =>
      rw [hact] at hopen
      injection hopen with _ hp
      injection hp with _ hl
      subst hl
      exact hfirst.trans (wrote_openScope hact)

theorem wrote_closeEach (action : ErrorAction) (stack : ScopeStack)
    (l : Logged (MarkdownWriter TextSink)) :
    Wrote l (ScopeStack.closeEach (host (inMemory action)) stack l).2 [] [] := by
  induction stack generalizing l with
  | nil => exact Wrote.refl l
  | cons entry rest ih =>
    rw [ScopeStack.closeEach_cons_snd]
    exact (wrote_closeEntry action entry l).trans (ih _)

/-! ### Fragments -/

/-- The calls since the start of a fragment, and the texts among them in the output. -/
def Since (start : Logged (MarkdownWriter TextSink)) (u : FragmentUnit)
    (l : Logged (MarkdownWriter TextSink)) : Prop :=
  ∃ calls, l.calls = start.calls ++ .started u :: calls ∧ unitTexts calls = [] ∧
    l.output = start.output ++ (textsEmitted calls).flatMap String.toList

theorem Since.wrote {u : FragmentUnit} (h : Since l u l') :
    ∃ texts, Wrote l l' [(u, texts)] (texts.flatMap String.toList) := by
  obtain ⟨calls, hcalls, hnone, houtput⟩ := h
  refine ⟨textsEmitted calls, ⟨_, hcalls, rfl, ?_⟩, houtput⟩
  rw [unitTexts, hnone]

/-- One more call that does not start a fragment. -/
theorem Since.add {u : FragmentUnit} (h : Since l u l') {s : MarkdownWriter TextSink}
    {call : HostCall} (hunits : unitTexts [call] = [])
    (hout : s.sink.written.toList = l'.output ++ (textsEmitted [call]).flatMap String.toList) :
    Since l u (l'.add s call) := by
  obtain ⟨calls, hcalls, hnone, houtput⟩ := h
  refine ⟨calls ++ [call], ?_, ?_, ?_⟩
  · simp [Logged.add, hcalls]
  · rw [unitTexts_append_of_none hnone, hunits]
  · rw [textsEmitted_append_of_none hnone, List.flatMap_append, ← List.append_assoc, ← houtput]
    exact hout

theorem since_emitText {u : FragmentUnit} (h : Since l u l') (text : String) :
    Since l u (stateOf ((host (inMemory action)).emitText text l')) := by
  change Since l u (stateOf (request (MarkdownWriter.write TextSink.put text) (.emitted text) l'))
  rw [stateOf_request]
  rcases MarkdownWriter.write_cases text l'.inner with
    ⟨w, hok, hwritten⟩ | ⟨e, w, herror, hwritten⟩
  · rw [hok]
    exact h.add rfl (by simp [stateOf, resultOf, textsEmitted, output, hwritten])
  · rw [herror]
    exact h.add rfl (by simp [stateOf, resultOf, textsEmitted, output, hwritten])

theorem since_note {u : FragmentUnit} (h : Since l u l') (text : String) :
    Since l u ((host (inMemory action)).note text l') := by
  refine h.add rfl ?_
  simp [textsEmitted, output, inMemory, MarkdownWriter.host]

theorem since_start (l : Logged (MarkdownWriter TextSink)) (u : FragmentUnit) :
    Since l u (l.add l.inner (.started u)) := by
  refine ⟨[], rfl, rfl, ?_⟩
  simp [output, add, textsEmitted]

/-- A fragment writes the texts that it emits. -/
theorem wrote_unit {u : FragmentUnit} {m m' : Machine (Logged (MarkdownWriter TextSink))}
    (hrun : runner (inMemory action) rounds u m = .ok () m') :
    ∃ texts, Wrote m.host m'.host [(u, texts)] (texts.flatMap String.toList) := by
  have hsince := runFragment_keeps (h := host (inMemory action)) (I := Since m.host u)
    (fun text l hl => since_emitText hl text) (fun text l hl => since_note hl text)
    rounds u.fragment (m := { m with host := m.host.add m.host.inner (.started u) })
    (since_start m.host u)
  have hfragment : runFragment (host (inMemory action)) rounds u.fragment
      { m with host := m.host.add m.host.inner (.started u) } = .ok () m' := hrun
  rw [hfragment] at hsince
  exact hsince.wrote

/-- The fragment for a text emits this text once, whatever its names are bound to. -/
theorem wrote_text {source : Source} {origin : Document.Node}
    {m m' : Machine (Logged (MarkdownWriter TextSink))}
    (hrun : runner (inMemory action) rounds (.ofText source origin) m = .ok () m') :
    Wrote m.host m'.host [(.ofText source origin, [String.ofList origin.raw])] origin.raw := by
  have hfragment : runFragment (host (inMemory action)) rounds (textStatement origin.raw)
      { m with host := m.host.add m.host.inner (.started (.ofText source origin)) } = .ok () m' :=
    hrun
  obtain ⟨-, hemit⟩ := emitText_of_runFragment hfragment
  have hwrite : (inMemory action).emitText (String.ofList origin.raw) m.host.inner =
      MarkdownWriter.write TextSink.put (String.ofList origin.raw) m.host.inner := rfl
  simp only [host, request, add, hwrite] at hemit
  rcases MarkdownWriter.write_cases (String.ofList origin.raw) m.host.inner with
    ⟨w, hok, hwritten⟩ | ⟨e, w, herror, -⟩
  · rw [hok] at hemit
    injection hemit with _ hhost
    rw [← hhost]
    refine ⟨⟨[.started (.ofText source origin), .emitted (String.ofList origin.raw) (.ok ())], ?_,
      rfl, rfl⟩, ?_⟩
    · simp
    · simp [output, hwritten]
  · simp [herror] at hemit

end LiveDoc.Logged
