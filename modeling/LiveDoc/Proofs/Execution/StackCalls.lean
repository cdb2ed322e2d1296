import LiveDoc.Proofs.Execution.HeadingScopes
import LiveDoc.Proofs.Execution.ScopePairing

/-!
The scope stack under calls in any order, on a host that grants and refuses what it likes. After
each call the entries stand at their levels, and the log of the host tells of the same open scopes
as the stack: all others have been closed once. What a call leaves on the stack when the host stops
it depends on the request that failed alone.
-/
namespace LiveDoc

open Outcome

/-! ### Logs with open scopes -/

theorem Paired.append {calls more : List HostCall} (h : Paired calls) (hmore : Paired more) :
    Paired (calls ++ more) := by
  induction h with
  | nil => exact hmore
  | other hmoves _ ih => exact .other hmoves ih
  | scope hinside _ _ ih =>
    simp only [List.append_assoc, List.cons_append]
    exact .scope hinside ih

/-- Behind the calls these scopes are open, innermost first. Every other scope that was opened has
been closed once, and nothing else has been closed. -/
inductive Pending : List (Handle × Scope) → List HostCall → Prop where
  | none {calls : List HostCall} : Paired calls → Pending [] calls
  | scope {scopes : List (Handle × Scope)} {before inside : List HostCall} {handle : Handle}
    {scope : Scope} {heading : Option String} :
    Pending scopes before → Paired inside →
      Pending ((handle, scope) :: scopes) (before ++ .opened scope heading (.ok handle) :: inside)

namespace Pending

variable {scopes : List (Handle × Scope)} {calls more : List HostCall}
  {handle : Handle} {scope : Scope}

theorem append (h : Pending scopes calls) (hmore : Paired more) :
    Pending scopes (calls ++ more) := by
  cases h with
  | none hcalls => exact .none (hcalls.append hmore)
  | scope hbefore hinside =>
    rw [List.append_assoc, List.cons_append]
    exact .scope hbefore (hinside.append hmore)

theorem opens (h : Pending scopes calls) (heading : Option String) :
    Pending ((handle, scope) :: scopes) (calls ++ [.opened scope heading (.ok handle)]) :=
  .scope h .nil

/-- A scope counts as closed even if the host reports an error. -/
theorem closes (h : Pending ((handle, scope) :: scopes) calls) (result : Except HostError Unit) :
    Pending scopes (calls ++ [.closed handle result]) := by
  cases h with
  | scope hbefore hinside =>
    rw [List.append_assoc]
    exact hbefore.append (.scope hinside .nil)

end Pending

/-- Requests to close scopes, with what came of them. -/
def closeCalls (ends : List (Handle × Except HostError Unit)) : List HostCall :=
  ends.map fun close => .closed close.1 close.2

theorem Pending.closesAll {inner outer : List (Handle × Scope)} {calls : List HostCall}
    {ends : List (Handle × Except HostError Unit)} (h : Pending (inner ++ outer) calls)
    (hends : ends.map Prod.fst = inner.map Prod.fst) :
    Pending outer (calls ++ closeCalls ends) := by
  induction inner generalizing calls ends with
  | nil =>
    obtain rfl : ends = [] := by simpa using hends
    simpa [closeCalls] using h
  | cons first rest ih =>
    cases ends with
    | nil => simp at hends
    | cons close ends =>
      obtain ⟨handle, result⟩ := close
      obtain ⟨handle', scope⟩ := first
      simp only [List.map_cons, List.cons.injEq] at hends
      obtain ⟨hhandle, hends⟩ := hends
      obtain rfl : handle = handle' := hhandle
      have hrest := ih (Pending.closes h result) hends
      rwa [List.append_assoc] at hrest

namespace ScopeStack

theorem length_fillTo (stack : ScopeStack) (level : Nat) :
    (stack.fillTo level).length = level - 1 - stack.length + stack.length := by
  rw [fillTo, List.length_append, List.length_reverse, List.length_map, List.length_range']

/-! ### What a call comes to -/

variable {σ : Type} {h : Host σ}

/-- The requests that close the scopes of some entries, all granted. -/
def granted (entries : ScopeStack) : List HostCall :=
  closeCalls (entries.handles.map fun handle => (handle, .ok ()))

theorem granted_opened (handle : Handle) (scope : Scope) (rest : ScopeStack) :
    granted (.opened handle scope :: rest) = .closed handle (.ok ()) :: granted rest := rfl

/-- The host has stopped at a scope within the first `count` entries: it is off the stack, those
above it have been closed, and what lies below has not been touched. -/
def StoppedAt (count : Nat) (stack : ScopeStack) (calls : List HostCall) (e : HostError)
    (below : ScopeStack) (calls' : List HostCall) : Prop :=
  ∃ above handle scope, stack = above ++ .opened handle scope :: below ∧ above.length < count ∧
    calls' = calls ++ granted above ++ [.closed handle (.error e)]

theorem closeEntry_logged (h : Host σ) (handle : Handle) (scope : Scope) (l : Logged σ) :
    closeEntry (Logged.host h) (.opened handle scope) l =
      Logged.request (h.closeScope handle) (.closed handle) l := rfl

/-- Entries are closed one by one, up to one that the host does not close. -/
theorem popUpTo_cases (h : Host σ) (count : Nat) (stack : ScopeStack) (l : Logged σ) :
    (∃ s, popUpTo (Logged.host h) count (stack, l) =
      .ok () (stack.drop count, ⟨s, l.calls ++ granted (stack.take count)⟩)) ∨
    ∃ e below l', popUpTo (Logged.host h) count (stack, l) = .error (.host e) (below, l') ∧
      StoppedAt count stack l.calls e below l'.calls := by
  induction count generalizing stack l with
  | zero => exact .inl ⟨l.inner, by simp [popUpTo, granted, closeCalls, pure, EStateM.pure]⟩
  | succ count ih =>
    cases stack with
    | nil => exact .inl ⟨l.inner, by simp [popUpTo_nil, granted, closeCalls]⟩
    | cons entry rest =>
      rw [popUpTo_cons]
      cases entry with
      | placeholder level =>
        rcases ih rest l with ⟨s, hok⟩ | ⟨e, below, l', herror, above, handle, scope, rfl, hlt, hl'⟩
        · exact .inl ⟨s, hok⟩
        · exact .inr ⟨e, below, l', herror, .placeholder level :: above, handle, scope, rfl,
            Nat.succ_lt_succ hlt, hl'⟩
      | opened handle scope =>
        rw [closeEntry_logged]
        simp only [Logged.request]
        cases h.closeScope handle l.inner with
        | error e s =>
          refine .inr ⟨e, rest, _, rfl, [], handle, scope, rfl, Nat.succ_pos count, ?_⟩
          simp [Logged.add, granted, closeCalls]
        | ok a s =>
          rcases ih rest (l.add s (.closed handle (.ok a))) with
            ⟨s', hok⟩ | ⟨e, below, l', herror, above, handle', scope', rfl, hlt, hl'⟩
          · refine .inl ⟨s', hok.trans ?_⟩
            simp [Logged.add, granted_opened]
          · refine .inr ⟨e, below, l', herror, .opened handle scope :: above, handle', scope', rfl,
              Nat.succ_lt_succ hlt, ?_⟩
            rw [hl', granted_opened]
            simp [Logged.add]

theorem pop_of_lt (h : Host σ) {count : Nat} {stack : ScopeStack} (s : σ)
    (hcount : stack.length < count) :
    pop h count (stack, s) = .error (.underflow count stack.length) (stack, s) := by
  rw [pop, run_bind_of_ok (run_get (stack, s))]
  dsimp only
  rw [if_pos hcount]
  rfl

theorem pop_cases (h : Host σ) (count : Nat) (stack : ScopeStack) (l : Logged σ) :
    (stack.length < count ∧ pop (Logged.host h) count (stack, l) =
      .error (.underflow count stack.length) (stack, l)) ∨
    (count ≤ stack.length ∧ ∃ s, pop (Logged.host h) count (stack, l) =
      .ok () (stack.drop count, ⟨s, l.calls ++ granted (stack.take count)⟩)) ∨
    ∃ e below l', pop (Logged.host h) count (stack, l) = .error (.host e) (below, l') ∧
      StoppedAt count stack l.calls e below l'.calls := by
  by_cases hcount : count ≤ stack.length
  · rw [pop_of_le hcount]
    rcases popUpTo_cases h count stack l with hok | hstopped
    · exact .inr (.inl ⟨hcount, hok⟩)
    · exact .inr (.inr hstopped)
  · have hlt : stack.length < count := Nat.lt_of_not_le hcount
    exact .inl ⟨hlt, pop_of_lt _ l hlt⟩

/-- What is left of a stack when a scope of the given level is to be opened. -/
def base (stack : ScopeStack) (level : Nat) : ScopeStack := stack.drop (stack.excess level)

/-- The requests that come before a scope of the given level can be opened, all granted. -/
def cleared (stack : ScopeStack) (level : Nat) : List HostCall :=
  granted (stack.take (stack.excess level))

theorem enter_cases (h : Host σ) {level : Nat} (name : String) (heading : Option String)
    (stack : ScopeStack) (l : Logged σ) (hlevel : 0 < level) :
    let scope : Scope := ⟨name, level, pathOf (stack.base level) name⟩
    (∃ e below l', enter (Logged.host h) level name heading (stack, l) =
      .error (.host e) (below, l') ∧
        StoppedAt (stack.excess level) stack l.calls e below l'.calls) ∨
    (∃ e s, enter (Logged.host h) level name heading (stack, l) = .error (.host e)
      (stack.base level,
        ⟨s, l.calls ++ stack.cleared level ++ [.opened scope heading (.error e)]⟩)) ∨
    ∃ handle s, enter (Logged.host h) level name heading (stack, l) = .ok handle
      (.opened handle scope :: (stack.base level).fillTo level,
        ⟨s, l.calls ++ stack.cleared level ++ [.opened scope heading (.ok handle)]⟩) := by
  intro scope
  rw [enter_eq hlevel]
  rcases popUpTo_cases h (stack.excess level) stack l with ⟨s, hok⟩ | ⟨e, below, l', herror, hstop⟩
  · rw [run_bind_of_ok hok]
    simp only [openOn, Logged.host, Logged.request]
    cases hopen : h.openScope ⟨name, level, pathOf (stack.drop (stack.excess level)) name⟩ heading
        s with
    | error e s' => exact .inr (.inl ⟨e, s', rfl⟩)
    | ok handle s' => exact .inr (.inr ⟨handle, s', rfl⟩)
  · rw [run_bind_of_error herror]
    exact .inl ⟨e, below, l', rfl, hstop⟩

/-- Every scope is asked for once, the innermost one first, and the first error is kept. -/
theorem closeEach_logged (h : Host σ) (stack : ScopeStack) (l : Logged σ) :
    ∃ (ends : List (Handle × Except HostError Unit)) (s : σ),
      ends.map Prod.fst = stack.handles ∧
      closeEach (Logged.host h) stack l =
        (ends.findSome? fun close => error? close.2, ⟨s, l.calls ++ closeCalls ends⟩) := by
  induction stack generalizing l with
  | nil => exact ⟨[], l.inner, rfl, by simp [closeEach, closeCalls]⟩
  | cons entry rest ih =>
    cases entry with
    | placeholder level => exact ih l
    | opened handle scope =>
      rw [closeEach, closeEntry_logged]
      simp only [Logged.request]
      cases h.closeScope handle l.inner with
      | ok a s =>
        obtain ⟨ends, s', hends, heach⟩ := ih (l.add s (.closed handle (.ok a)))
        refine ⟨(handle, .ok a) :: ends, s', congrArg (List.cons handle) hends, ?_⟩
        simpa [closeCalls, Logged.add, error?] using heach
      | error e s =>
        obtain ⟨ends, s', hends, heach⟩ := ih (l.add s (.closed handle (.error e)))
        refine ⟨(handle, .error e) :: ends, s', congrArg (List.cons handle) hends, ?_⟩
        have hlast := congrArg Prod.snd heach
        simpa [closeCalls, Logged.add, error?] using hlast

theorem closeAll_eq (h : Host σ) (stack : ScopeStack) (s : σ) :
    closeAll h (stack, s) =
      match closeEach h stack s with
      | (none, s) => .ok () ([], s)
      | (some e, s) => .error (.host e) ([], s) := rfl

theorem closeAll_cases (h : Host σ) (stack : ScopeStack) (l : Logged σ) :
    ∃ (ends : List (Handle × Except HostError Unit)) (s : σ),
      ends.map Prod.fst = stack.handles ∧
      closeAll (Logged.host h) (stack, l) =
        match ends.findSome? fun close => error? close.2 with
        | none => .ok () ([], ⟨s, l.calls ++ closeCalls ends⟩)
        | some e => .error (.host e) ([], ⟨s, l.calls ++ closeCalls ends⟩) := by
  obtain ⟨ends, s, hends, heach⟩ := closeEach_logged h stack l
  refine ⟨ends, s, hends, ?_⟩
  rw [closeAll_eq, heach]
  cases ends.findSome? fun close => error? close.2 with
  | none => rfl
  | some e => rfl

/-! ### Calls in any order -/

/-- A call of the stack. -/
inductive Call where
  | enter (level : Nat) (name : String) (heading : Option String)
  | pop (count : Nat)
  | closeAll

def Call.perform (h : Host σ) : Call → Scoping σ Unit
  | enter level name heading => do
    let _ ← ScopeStack.enter h level name heading
  | pop count => ScopeStack.pop h count
  | closeAll => ScopeStack.closeAll h

/-- The stack and the host behind some calls, whatever came of them. -/
def afterCalls (h : Host σ) (calls : List Call) (p : ScopeStack × σ) : ScopeStack × σ :=
  calls.foldl (fun p call => stateOf (call.perform h p)) p

/-- How a call can end. Only `misused` is not up to the host, and it leaves everything as it is. -/
inductive Call.Ends (stack : ScopeStack) (l : Logged σ) :
    Call → EStateM.Result ScopeError (ScopeStack × Logged σ) Unit → Prop where
  | popped {count : Nat} {s : σ} : count ≤ stack.length →
      Ends stack l (.pop count)
        (.ok () (stack.drop count, ⟨s, l.calls ++ granted (stack.take count)⟩))
  | entered {level : Nat} {name : String} {heading : Option String} {handle : Handle} {s : σ}
      {scope : Scope} : 0 < level → scope.level = level →
      Ends stack l (.enter level name heading)
        (.ok () (.opened handle scope :: (stack.base level).fillTo level,
          ⟨s, l.calls ++ stack.cleared level ++ [.opened scope heading (.ok handle)]⟩))
  | misused {call : Call} {e : ScopeError} : (∀ e', e ≠ .host e') →
      Ends stack l call (.error e (stack, l))
  | stopped {call : Call} {count : Nat} {e : HostError} {below : ScopeStack} {l' : Logged σ} :
      call ≠ .closeAll → StoppedAt count stack l.calls e below l'.calls →
      Ends stack l call (.error (.host e) (below, l'))
  | refused {level : Nat} {name : String} {heading : Option String} {e : HostError} {s : σ}
      {scope : Scope} :
      Ends stack l (.enter level name heading) (.error (.host e) (stack.base level,
        ⟨s, l.calls ++ stack.cleared level ++ [.opened scope heading (.error e)]⟩))
  | closedAll {ends : List (Handle × Except HostError Unit)} {s : σ} :
      ends.map Prod.fst = stack.handles →
      Ends stack l .closeAll (.ok () ([], ⟨s, l.calls ++ closeCalls ends⟩))
  | failedAll {ends : List (Handle × Except HostError Unit)} {s : σ} {e : HostError} :
      ends.map Prod.fst = stack.handles →
      Ends stack l .closeAll (.error (.host e) ([], ⟨s, l.calls ++ closeCalls ends⟩))

theorem ends_perform (h : Host σ) (call : Call) (stack : ScopeStack) (l : Logged σ) :
    call.Ends stack l (call.perform (Logged.host h) (stack, l)) := by
  cases call with
  | pop count =>
    rw [Call.perform]
    rcases pop_cases h count stack l with
      ⟨-, hunder⟩ | ⟨hcount, s, hok⟩ | ⟨e, below, l', herror, hstop⟩
    · rw [hunder]
      exact .misused (by simp)
    · rw [hok]
      exact .popped hcount
    · rw [herror]
      exact .stopped (by simp) hstop
  | closeAll =>
    obtain ⟨ends, s, hends, hall⟩ := closeAll_cases h stack l
    rw [Call.perform, hall]
    cases ends.findSome? fun close => error? close.2 with
    | none => exact .closedAll hends
    | some e => exact .failedAll hends
  | enter level name heading =>
    rw [Call.perform]
    by_cases hlevel : level = 0
    · subst hlevel
      rw [run_bind_of_error (enter_zero _ name heading _)]
      exact .misused (by simp)
    · have hpos : 0 < level := Nat.pos_of_ne_zero hlevel
      rcases enter_cases h name heading stack l hpos with
        ⟨e, below, l', herror, hstop⟩ | ⟨e, s, herror⟩ | ⟨handle, s, hok⟩
      · rw [run_bind_of_error herror]
        exact .stopped (by simp) hstop
      · rw [run_bind_of_error herror]
        exact .refused
      · rw [run_bind_of_ok hok]
        exact .entered hpos rfl

/-- The entries stand at their levels, and the log tells of the same open scopes as the stack. -/
structure Kept (stack : ScopeStack) (calls : List HostCall) : Prop where
  levelled : stack.Levelled
  pending : Pending stack.opened calls

namespace Kept

variable {stack above below : ScopeStack} {calls calls' : List HostCall} {e : HostError}
  {handle : Handle} {scope : Scope}

theorem closesAll (hkept : Kept (above ++ below) calls)
    {ends : List (Handle × Except HostError Unit)} (hends : ends.map Prod.fst = above.handles) :
    Kept below (calls ++ closeCalls ends) := by
  have hpending := hkept.pending
  rw [opened_append] at hpending
  have hlevelled := hkept.levelled.drop above.length
  rw [List.drop_left] at hlevelled
  exact ⟨hlevelled, hpending.closesAll (hends.trans (handles_eq above))⟩

theorem granted (hkept : Kept (above ++ below) calls) :
    Kept below (calls ++ ScopeStack.granted above) := by
  refine hkept.closesAll ?_
  rw [List.map_map]
  exact List.map_id _

theorem drop (hkept : Kept stack calls) (count : Nat) :
    Kept (stack.drop count) (calls ++ ScopeStack.granted (stack.take count)) := by
  rw [← List.take_append_drop count stack] at hkept
  exact hkept.granted

theorem stopped {count : Nat} (hkept : Kept stack calls)
    (hstop : StoppedAt count stack calls e below calls') : Kept below calls' := by
  obtain ⟨above, handle, scope, rfl, -, rfl⟩ := hstop
  have hnow := hkept.granted
  exact ⟨hnow.levelled.2, hnow.pending.closes _⟩

/-- A refused request to open a scope leaves no trace on the stack. -/
theorem refuses (hkept : Kept stack calls) (heading : Option String) :
    Kept stack (calls ++ [.opened scope heading (.error e)]) :=
  ⟨hkept.levelled, hkept.pending.append (.other rfl .nil)⟩

theorem opens {level : Nat} (hkept : Kept stack calls) (hheight : stack.length < level)
    (hscope : scope.level = level) (heading : Option String) :
    Kept (.opened handle scope :: stack.fillTo level)
      (calls ++ [.opened scope heading (.ok handle)]) where
  levelled := by
    refine ⟨?_, hkept.levelled.placeholders _⟩
    change scope.level = (stack.fillTo level).length + 1
    rw [hscope, length_fillTo]
    omega
  pending := by
    have hopened : opened (.opened handle scope :: stack.fillTo level) =
        (handle, scope) :: stack.opened :=
      congrArg (List.cons (handle, scope)) (opened_placeholders _ stack)
    rw [hopened]
    exact hkept.pending.opens heading

end Kept

theorem length_base (stack : ScopeStack) (level : Nat) :
    (stack.base level).length = min stack.length (level - 1) := by
  rw [base, List.length_drop, excess]
  omega

/-- One call keeps levels and log in step, whatever the host grants. -/
theorem kept_perform (h : Host σ) (call : Call) {stack : ScopeStack} {l : Logged σ}
    (hkept : Kept stack l.calls) :
    Kept (stateOf (call.perform (Logged.host h) (stack, l))).1
      (stateOf (call.perform (Logged.host h) (stack, l))).2.calls := by
  have hends := ends_perform h call stack l
  generalize call.perform (Logged.host h) (stack, l) = outcome at hends ⊢
  have hall {ends : List (Handle × Except HostError Unit)}
      (hhandles : ends.map Prod.fst = stack.handles) : Kept [] (l.calls ++ closeCalls ends) := by
    have hstack : Kept (stack ++ []) l.calls := by rwa [List.append_nil]
    exact hstack.closesAll hhandles
  cases hends with
  | popped hcount => exact hkept.drop _
  | @entered level name heading handle s scope hlevel hscope =>
    have hheight : (stack.base level).length < level := by
      rw [length_base]
      omega
    exact (hkept.drop _).opens hheight hscope heading
  | misused hown => exact hkept
  | stopped hcall hstop => exact hkept.stopped hstop
  | @refused level name heading e s scope => exact (hkept.drop _).refuses heading
  | closedAll hhandles => exact hall hhandles
  | failedAll hhandles => exact hall hhandles

theorem kept_afterCalls (h : Host σ) (calls : List Call) {p : ScopeStack × Logged σ}
    (hkept : Kept p.1 p.2.calls) :
    Kept (afterCalls (Logged.host h) calls p).1 (afterCalls (Logged.host h) calls p).2.calls := by
  induction calls generalizing p with
  | nil => exact hkept
  | cons call rest ih => exact ih (kept_perform h call hkept)

theorem Levelled.level_eq {stack : ScopeStack} (h : Levelled stack) {i : Nat} {entry : ScopeEntry}
    (hentry : stack.reverse[i]? = some entry) : entry.level = i + 1 := by
  induction stack with
  | nil => simp at hentry
  | cons top rest ih =>
    rw [List.reverse_cons] at hentry
    by_cases hi : i < rest.reverse.length
    · rw [List.getElem?_append_left hi] at hentry
      exact ih h.2 hentry
    · rw [List.getElem?_append_right (Nat.le_of_not_lt hi), List.length_reverse] at hentry
      rw [List.length_reverse] at hi
      obtain ⟨hlast, rfl⟩ : i - rest.length = 0 ∧ top = entry := by
        simpa [List.getElem?_singleton] using hentry
      have hi' : i = rest.length := by omega
      rw [hi']
      exact h.1

/-! ### The promise of the stack -/

/-- What holds of a stack and the log of its host, and what each further call keeps. Entries are
counted from the outermost one, so `stack.reverse[0]?` is the first of them. -/
structure Reliable (h : Host σ) (stack : ScopeStack) (l : Logged σ) : Prop where
  level : ∀ i entry, stack.reverse[i]? = some entry → entry.level = i + 1
  height : ∀ entry, stack.head? = some entry → entry.level = stack.length
  /-- A scope that the host has opened is on the stack, or it has been closed exactly once. -/
  pending : Pending stack.opened l.calls
  entered : ∀ level name heading handle after,
    enter (Logged.host h) level name heading (stack, l) = .ok handle after →
      after.1.length = level ∧
        ∃ scope, after.1.head? = some (.opened handle scope) ∧ scope.name = name
  refused : ∀ level name heading scope e before after,
    enter (Logged.host h) level name heading (stack, l) = .error (.host e) after →
    after.2.calls = before ++ [.opened scope heading (.error e)] →
      after.1.reverse = stack.reverse.take (min stack.length (level - 1))
  /-- The host has not closed a scope, in a pop or on the way to a new scope. -/
  stopped : ∀ call handle e before after, call ≠ .closeAll →
    Call.perform (Logged.host h) call (stack, l) = .error (.host e) after →
    after.2.calls = before ++ [.closed handle (.error e)] →
      ∃ above scope, stack = above ++ .opened handle scope :: after.1
  underflow : ∀ count, stack.length < count →
    pop (Logged.host h) count (stack, l) = .error (.underflow count stack.length) (stack, l)
  invalidLevel : ∀ name heading,
    enter (Logged.host h) 0 name heading (stack, l) = .error .invalidLevel (stack, l)
  /-- An error that does not come from the host changes nothing and asks for nothing. -/
  unchanged : ∀ call e after, Call.perform (Logged.host h) call (stack, l) = .error e after →
    (∀ e', e ≠ .host e') → after = (stack, l)
  closedAll : ∃ (ends : List (Handle × Except HostError Unit)) (s : σ),
    ends.map Prod.fst = stack.handles ∧
      closeAll (Logged.host h) (stack, l) =
        match ends.findSome? fun close => error? close.2 with
        | none => .ok () ([], ⟨s, l.calls ++ closeCalls ends⟩)
        | some e => .error (.host e) ([], ⟨s, l.calls ++ closeCalls ends⟩)

theorem eq_of_append_singleton {α : Type} {a b : List α} {x y : α} (h : a ++ [x] = b ++ [y]) :
    x = y := by
  simpa using congrArg List.getLast? h

theorem StoppedAt.handle_eq {count : Nat} {stack below : ScopeStack} {e e' : HostError}
    {calls calls' before : List HostCall} {handle : Handle}
    (h : StoppedAt count stack calls e below calls')
    (hlast : calls' = before ++ [.closed handle (.error e')]) :
    ∃ above scope, stack = above ++ .opened handle scope :: below := by
  obtain ⟨above, handle', scope, hsplit, -, hcalls⟩ := h
  have hclose := eq_of_append_singleton (hcalls.symm.trans hlast)
  injection hclose with hhandle
  subst hhandle
  exact ⟨above, scope, hsplit⟩

/-- A scope that is not closed is told from one that is not opened by the last request. -/
theorem StoppedAt.not_opened {count : Nat} {stack below : ScopeStack} {e : HostError}
    {calls calls' before : List HostCall} {scope : Scope} {heading : Option String}
    {result : Except HostError Handle} (h : StoppedAt count stack calls e below calls') :
    calls' ≠ before ++ [.opened scope heading result] := by
  intro hlast
  obtain ⟨above, handle', scope', -, -, hcalls⟩ := h
  have hclose := eq_of_append_singleton (hcalls.symm.trans hlast)
  simp at hclose

theorem reliable_of_kept (h : Host σ) {stack : ScopeStack} {l : Logged σ}
    (hkept : Kept stack l.calls) : Reliable h stack l where
  level i entry hentry := hkept.levelled.level_eq hentry
  height entry hentry := by
    cases stack with
    | nil => simp at hentry
    | cons top rest =>
      obtain rfl : top = entry := by simpa using hentry
      exact hkept.levelled.1
  pending := hkept.pending
  entered level name heading handle after hafter := by
    by_cases hlevel : level = 0
    · subst hlevel
      simp [enter_zero] at hafter
    · rcases enter_cases h name heading stack l (Nat.pos_of_ne_zero hlevel) with
        ⟨e, below, l', herror, -⟩ | ⟨e, s, herror⟩ | ⟨handle', s, hok⟩
      · simp [herror] at hafter
      · simp [herror] at hafter
      · rw [hok] at hafter
        injection hafter with hhandle hafter
        subst hhandle hafter
        refine ⟨?_, _, rfl, rfl⟩
        rw [List.length_cons, length_fillTo, length_base]
        omega
  refused level name heading scope e before after hafter hlast := by
    have hends := ends_perform h (.enter level name heading) stack l
    rw [Call.perform, run_bind_of_error hafter] at hends
    cases hends with
    | misused hown => exact absurd rfl (hown e)
    | stopped hcall hstop => exact absurd hlast hstop.not_opened
    | refused =>
      have hheight : stack.length - stack.excess level = min stack.length (level - 1) := by
        rw [← length_base, base, List.length_drop]
      rw [← hheight]
      exact List.reverse_drop
  stopped call handle e before after hcall hafter hlast := by
    have hends := ends_perform h call stack l
    rw [hafter] at hends
    cases hends with
    | misused hown => exact absurd rfl (hown e)
    | stopped hcall hstop => exact hstop.handle_eq hlast
    | refused => simpa using eq_of_append_singleton hlast
    | failedAll hhandles => exact absurd rfl hcall
  underflow count hcount := pop_of_lt _ l hcount
  invalidLevel name heading := enter_zero _ name heading _
  unchanged call e after hafter hown := by
    have hends := ends_perform h call stack l
    rw [hafter] at hends
    cases hends with
    | misused => rfl
    | stopped => exact absurd rfl (hown _)
    | refused => exact absurd rfl (hown _)
    | failedAll => exact absurd rfl (hown _)
  closedAll := closeAll_cases h stack l

/-! ### The plain host -/

variable {τ : Type} {R : σ → τ → Prop} {k : Host τ}

theorem alike_perform (hosts : HostAlike R h k) (call : Call) :
    Alike (OnStacks R) (call.perform h) (call.perform k) := by
  cases call with
  | enter level name heading =>
    have henter : ScopingUntil R Uncut (Call.perform h (.enter level name heading))
        (Call.perform k (.enter level name heading)) :=
      until_bind (until_enter hosts.until level name heading) fun _ => until_pure _
    exact henter.alike fun _ _ _ hcut => hcut
  | pop count =>
    rintro ⟨stack, s⟩ ⟨stack', t⟩ hst
    obtain rfl : stack = stack' := hst.1
    simp only [Call.perform]
    by_cases hcount : count ≤ stack.length
    · rw [pop_of_le hcount, pop_of_le hcount]
      exact (until_popUpTo hosts.until count).alike (fun _ _ _ hcut => hcut) _ _ hst
    · rw [pop_of_lt h s (Nat.lt_of_not_le hcount), pop_of_lt k t (Nat.lt_of_not_le hcount)]
      exact .error hst
  | closeAll =>
    rintro ⟨stack, s⟩ ⟨stack', t⟩ ⟨hstack, hst⟩
    obtain rfl : stack = stack' := hstack
    obtain ⟨hsame, hend⟩ := alike_closeEach hosts.until stack hst
    simp only [Call.perform, closeAll_eq]
    generalize closeEach h stack s = left at hsame hend
    generalize closeEach k stack t = right at hsame hend
    obtain ⟨first, s'⟩ := left
    obtain ⟨first', t'⟩ := right
    obtain rfl : first = first' := hsame
    cases first with
    | none => exact .ok ⟨rfl, hend⟩
    | some e => exact .error ⟨rfl, hend⟩

theorem alike_afterCalls (hosts : HostAlike R h k) (calls : List Call) {p : ScopeStack × σ}
    {q : ScopeStack × τ} (hp : OnStacks R p q) :
    OnStacks R (afterCalls h calls p) (afterCalls k calls q) := by
  induction calls generalizing p q with
  | nil => exact hp
  | cons call rest ih =>
    have hcall : OnStacks R (stateOf (call.perform h p)) (stateOf (call.perform k q)) := by
      have hmatch := alike_perform hosts call p q hp
      generalize call.perform h p = left at hmatch ⊢
      generalize call.perform k q = right at hmatch ⊢
      cases hmatch with
      | ok hst => exact hst
      | error hst => exact hst
    exact ih hcall

/-- Behind any calls from the empty stack, on any host, the stack is as `Reliable` says. Without
its log the host is the plain one, and the stack is the same. -/
theorem afterCalls_reliable {σ : Type} (h : Host σ) (s : σ) (calls : List Call) :
    let last := afterCalls (Logged.host h) calls ([], ⟨s, []⟩)
    afterCalls h calls ([], s) = (last.1, last.2.inner) ∧ Reliable h last.1 last.2 := by
  intro last
  have hstart : OnStacks Logged.Of (([], ⟨s, []⟩) : ScopeStack × Logged σ) ([], s) := ⟨rfl, rfl⟩
  obtain ⟨hstack, hhost⟩ := alike_afterCalls (Logged.hostAlike h) calls hstart
  have hinner : last.2.inner = (afterCalls h calls ([], s)).2 := hhost
  refine ⟨Prod.ext hstack.symm hinner.symm, reliable_of_kept h ?_⟩
  exact kept_afterCalls h calls (p := ([], ⟨s, []⟩)) ⟨trivial, .none .nil⟩

/-- A host that opens no `D` and does not close the second scope that it has opened. -/
def refusing : Host Recorder := Recorder.host ⟨[], [], ["D"], [2]⟩

/-- A skipped level, a close that fails on the way to `D`, a refused `D`, two calls that ask for
what cannot be done, and a scope that is opened in spite of all that. -/
def roughCalls : List Call :=
  [.enter 1 "A" none, .enter 3 "C" none, .enter 2 "D" none, .enter 2 "D" none, .pop 5,
    .enter 0 "E" none, .enter 4 "F" none]

/-- The two scopes on the stack have been opened and not been closed; the host has been asked to
open four scopes and to close one. -/
theorem reliable_behind_refusals :
    let last := afterCalls (Logged.host refusing) roughCalls ([], ⟨.initial, []⟩)
    afterCalls refusing roughCalls ([], .initial) = (last.1, last.2.inner) ∧
      Reliable refusing last.1 last.2 ∧
      last.1.map (fun entry => (entry.level, entry.scope?.map Scope.path)) =
        [(4, some "/A/F"), (3, none), (2, none), (1, some "/A")] ∧
      last.1.handles = [3, 1] ∧
      last.2.calls.map HostCall.moves = [true, true, true, false, true] := by
  obtain ⟨hplain, hreliable⟩ := afterCalls_reliable refusing .initial roughCalls
  refine ⟨hplain, hreliable, ?_, ?_, ?_⟩
  · decide +kernel
  · decide +kernel
  · decide +kernel

end ScopeStack

end LiveDoc
