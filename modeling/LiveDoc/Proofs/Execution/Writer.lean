import LiveDoc.Execution.MarkdownWriter
import LiveDoc.Proofs.Execution.ScopeStack

/-!
The Markdown writer as a host of the scope stack. As long as the handles on the stack are those of
the open scopes, innermost first, every scope that is taken off the stack can be closed. With room
for any text, no request fails.
-/
namespace LiveDoc

open Outcome

/-- The writer that keeps its text in memory. -/
abbrev inMemory (action : ErrorAction) : Host (MarkdownWriter TextSink) :=
  MarkdownWriter.host TextSink.put action

namespace MarkdownWriter

variable {τ : Type} {put : Sink τ} {action : ErrorAction} {w : MarkdownWriter τ}

theorem closeScope_innermost {handle : Handle} {rest : List Handle}
    (h : w.opened = handle :: rest) : closeScope handle w = .ok () { w with opened := rest } := by
  simp [closeScope, h]

/-- An entry on top of the stack is closed, and the handles below it stay open. -/
theorem closeEntry_top {entry : ScopeEntry} {rest : ScopeStack}
    (h : w.opened = ScopeStack.handles (entry :: rest)) :
    ScopeStack.closeEntry (host put action) entry w =
      .ok () { w with opened := ScopeStack.handles rest } := by
  cases entry with
  | opened handle scope => exact closeScope_innermost h
  | placeholder level =>
    rw [ScopeStack.handles_placeholder] at h
    simp [ScopeStack.closeEntry, ← h, pure, EStateM.pure]

theorem popUpTo_eq {stack : ScopeStack} (count : Nat) (h : w.opened = stack.handles) :
    ScopeStack.popUpTo (host put action) count (stack, w) =
      .ok () (stack.drop count, { w with opened := ScopeStack.handles (stack.drop count) }) := by
  induction count generalizing stack w with
  | zero =>
    rw [List.drop_zero, ← h]
    rfl
  | succ count ih =>
    cases stack with
    | nil => rw [ScopeStack.popUpTo_nil, List.drop_nil, ← h]
    | cons entry rest =>
      rw [ScopeStack.popUpTo_cons, closeEntry_top h, List.drop_succ_cons]
      exact ih (w := { w with opened := ScopeStack.handles rest }) rfl

/-- All that is open at the end can be closed. -/
theorem closeEach_eq {stack : ScopeStack} (put : Sink τ) (action : ErrorAction)
    (h : w.opened = stack.handles) :
    ScopeStack.closeEach (host put action) stack w = (none, { w with opened := [] }) := by
  induction stack generalizing w with
  | nil =>
    rw [ScopeStack.handles_nil] at h
    simp [ScopeStack.closeEach, ← h]
  | cons entry rest ih =>
    rw [ScopeStack.closeEach, closeEntry_top h]
    exact ih (w := { w with opened := ScopeStack.handles rest }) rfl

variable {v : MarkdownWriter TextSink}

/-- A text is written as a whole or not at all. -/
theorem write_cases (text : String) (v : MarkdownWriter TextSink) :
    (∃ v', write TextSink.put text v = .ok () v' ∧ v'.sink.written = v.sink.written ++ text) ∨
      ∃ e v', write TextSink.put text v = .error e v' ∧ v'.sink.written = v.sink.written := by
  by_cases hfits : v.sink.fits text = true
  · left
    refine ⟨{ v with sink := ⟨v.sink.room.map (· - text.utf8ByteSize), v.sink.written ++ text⟩ },
      ?_, rfl⟩
    simp [write, TextSink.put, hfits]
  · right
    refine ⟨.io "disk full", v, ?_, rfl⟩
    simp [write, TextSink.put, hfits]

/-! ### Room for any text -/

/-- The writer with one more text in its sink. -/
def wrote (v : MarkdownWriter TextSink) (text : String) : MarkdownWriter TextSink :=
  { v with sink := { v.sink with written := v.sink.written ++ text } }

theorem write_of_unlimited (h : v.sink.room = none) (text : String) :
    write TextSink.put text v = .ok () (v.wrote text) := by
  simp [write, TextSink.put, TextSink.fits, wrote, h]

theorem openScope_some (heading : String) (h : v.sink.room = none) :
    openScope TextSink.put (some heading) v = .ok v.nextHandle
      { v.wrote heading with
        nextHandle := v.nextHandle + 1, opened := v.nextHandle :: v.opened } := by
  change (write TextSink.put heading >>= fun _ => _) v = _
  rw [run_bind_of_ok (write_of_unlimited h heading)]
  rfl

/-- A heading is written when its scope is opened, and its handle comes to lie on the stack. -/
theorem enter_eq {level : Nat} {stack : ScopeStack} (action : ErrorAction)
    (name heading : String) (hlevel : 0 < level) (hroom : v.sink.room = none)
    (hopened : v.opened = stack.handles) :
    ∃ stack' nextHandle,
      ScopeStack.enter (host TextSink.put action) level name (some heading) (stack, v) =
        .ok v.nextHandle (stack',
          { v.wrote heading with nextHandle, opened := ScopeStack.handles stack' }) := by
  refine ⟨.opened v.nextHandle
      ⟨name, level, ScopeStack.pathOf (stack.drop (stack.excess level)) name⟩ ::
    ScopeStack.fillTo (stack.drop (stack.excess level)) level, v.nextHandle + 1, ?_⟩
  rw [ScopeStack.enter_eq hlevel, run_bind_of_ok (popUpTo_eq _ hopened)]
  have hopen := openScope_some heading
    (v := { v with opened := ScopeStack.handles (stack.drop (stack.excess level)) }) hroom
  simp only [ScopeStack.openOn, host, hopen, ScopeStack.handles_opened, ScopeStack.handles_fillTo]
  rfl

end MarkdownWriter

end LiveDoc
