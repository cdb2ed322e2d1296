import LiveDoc.Execution.ScopeStack
import LiveDoc.Proofs.Outcome

/-!
The operations of the scope stack as equations. To enter a scope is to take off what is open at
its level or below and then to ask the host; the stack grows only when the host has opened it.
-/
namespace LiveDoc.ScopeStack

open Outcome

variable {σ : Type}

/-- The handles of a stack, innermost first. -/
def handles (stack : ScopeStack) : List Handle :=
  stack.filterMap fun entry =>
    match entry with
    | .opened handle _ => some handle
    | .placeholder _ => none

@[simp] theorem handles_nil : handles [] = [] := rfl

@[simp] theorem handles_opened (handle : Handle) (scope : Scope) (rest : ScopeStack) :
    handles (.opened handle scope :: rest) = handle :: handles rest := rfl

@[simp] theorem handles_placeholder (level : Nat) (rest : ScopeStack) :
    handles (.placeholder level :: rest) = handles rest := rfl

/-- Placeholders have no handle. -/
@[simp] theorem handles_fillTo (stack : ScopeStack) (level : Nat) :
    handles (stack.fillTo level) = handles stack := by
  have hnone (levels : List Nat) :
      handles (levels.map ScopeEntry.placeholder).reverse = [] := by
    simp [handles]
  unfold handles at hnone ⊢
  rw [fillTo, List.filterMap_append, hnone, List.nil_append]

/-- How many entries stand in the way of a scope of the given level. -/
def excess (stack : ScopeStack) (level : Nat) : Nat := stack.length + 1 - level

theorem popUpTo_nil (h : Host σ) (count : Nat) (s : σ) :
    popUpTo h count ([], s) = .ok () ([], s) := by
  cases count with
  | zero => rfl
  | succ count => rfl

/-- An entry is off the stack before the host is asked to close it. -/
theorem popUpTo_cons (h : Host σ) (count : Nat) (entry : ScopeEntry) (rest : ScopeStack) (s : σ) :
    popUpTo h (count + 1) (entry :: rest, s) =
      match closeEntry h entry s with
      | .ok _ s => popUpTo h count (rest, s)
      | .error e s => .error (.host e) (rest, s) := by
  change (request (closeEntry h entry) >>= fun _ => popUpTo h count) (rest, s) = _
  simp only [bind, EStateM.bind, request]
  cases closeEntry h entry s with
  | ok a s => rfl
  | error e s => rfl

theorem pop_of_le {h : Host σ} {count : Nat} {stack : ScopeStack} {s : σ}
    (hcount : count ≤ stack.length) : pop h count (stack, s) = popUpTo h count (stack, s) := by
  have henough : ¬ stack.length < count := Nat.not_lt.mpr hcount
  simp [pop, bind, EStateM.bind, Outcome.run_get, henough]

/-- Opens a scope on what is left of the stack. -/
def openOn (h : Host σ) (level : Nat) (name : String) (heading : Option String) :
    Scoping σ Handle := fun (stack, s) =>
  let scope : Scope := ⟨name, level, pathOf stack name⟩
  match h.openScope scope heading s with
  | .ok handle s => .ok handle (.opened handle scope :: fillTo stack level, s)
  | .error e s => .error (.host e) (stack, s)

theorem enter_zero (h : Host σ) (name : String) (heading : Option String)
    (p : ScopeStack × σ) : enter h 0 name heading p = .error .invalidLevel p := rfl

theorem enter_eq {h : Host σ} {level : Nat} {name : String} {heading : Option String}
    {stack : ScopeStack} {s : σ} (hlevel : 0 < level) :
    enter h level name heading (stack, s) =
      (popUpTo h (stack.excess level) >>= fun _ => openOn h level name heading) (stack, s) := by
  have hzero : ¬ level = 0 := Nat.ne_of_gt hlevel
  by_cases hle : level ≤ stack.length
  · have hcount : stack.length - level + 1 = stack.excess level := by
      unfold excess
      omega
    have hshort : stack.excess level ≤ stack.length := by
      unfold excess
      omega
    simp only [enter, hzero, if_false, bind, EStateM.bind, Outcome.run_get, hle, if_true, hcount,
      pop_of_le hshort]
    cases popUpTo h (stack.excess level) (stack, s) with
    | error e p => rfl
    | ok a p =>
      simp only [request, openOn]
      cases h.openScope ⟨name, level, pathOf p.1 name⟩ heading p.2 with
      | ok handle s => rfl
      | error e s => rfl
  · have hnone : stack.excess level = 0 := by
      unfold excess
      omega
    simp only [enter, hzero, if_false, bind, EStateM.bind, Outcome.run_get, hle, hnone, popUpTo,
      pure, EStateM.pure, request, openOn]
    cases h.openScope ⟨name, level, pathOf stack name⟩ heading s with
    | ok handle s => rfl
    | error e s => rfl

/-- An entry that cannot be closed does not keep the others open. -/
theorem closeEach_cons_snd (h : Host σ) (entry : ScopeEntry) (rest : ScopeStack) (s : σ) :
    (closeEach h (entry :: rest) s).2 = (closeEach h rest (stateOf (closeEntry h entry s))).2 := by
  rw [closeEach]
  cases closeEntry h entry s with
  | ok a s => rfl
  | error e s => rfl

end LiveDoc.ScopeStack
