import LiveDoc.Host

/-!
The scopes that are open in the body of a document, innermost first. The stack has one entry for
each level from one to that of the innermost scope; a level that the headings skip is filled by a
placeholder, of which the host knows nothing. The document itself has level zero and no entry.
-/
namespace LiveDoc

inductive ScopeEntry where
  | opened (handle : Handle) (scope : Scope)
  | placeholder (level : Nat)
deriving DecidableEq, Repr

namespace ScopeEntry

def level : ScopeEntry → Nat
  | opened _ scope => scope.level
  | placeholder level => level

def scope? : ScopeEntry → Option Scope
  | opened _ scope => some scope
  | placeholder _ => none

end ScopeEntry

abbrev ScopeStack := List ScopeEntry

inductive ScopeError where
  | underflow (requested opened : Nat)
  | invalidLevel
  | host (e : HostError)
deriving DecidableEq, Repr

def ScopeError.message : ScopeError → String
  | underflow requested opened =>
    "cannot close " ++ requested.repr ++ " scope(s) with only " ++ opened.repr ++ " open"
  | invalidLevel => "heading level must be at least 1"
  | host e => e.message

namespace ScopeStack

/-- The innermost scope that is open. -/
def current? (stack : ScopeStack) : Option Scope := stack.findSome? ScopeEntry.scope?

/-- The path of a scope inside of all open ones. -/
def pathOf (stack : ScopeStack) (name : String) : String :=
  let names := (stack.reverse.filterMap ScopeEntry.scope?).map Scope.name
  String.join ((names ++ [name]).map ("/" ++ ·))

/-- Placeholders for the levels between the height of the stack and `level`. -/
def fillTo (stack : ScopeStack) (level : Nat) : ScopeStack :=
  ((List.range' (stack.length + 1) (level - 1 - stack.length)).map .placeholder).reverse ++ stack

/-! ### Requests to the host -/

variable {σ : Type}

abbrev Scoping (σ : Type) := EStateM ScopeError (ScopeStack × σ)

def request {α : Type} (act : EStateM HostError σ α) : Scoping σ α := fun (stack, s) =>
  match act s with
  | .ok a s => .ok a (stack, s)
  | .error e s => .error (.host e) (stack, s)

def closeEntry (h : Host σ) : ScopeEntry → EStateM HostError σ Unit
  | .opened handle _ => h.closeScope handle
  | .placeholder _ => pure ()

/-- Takes off up to `count` entries; one that the host does not close ends it. -/
def popUpTo (h : Host σ) : (count : Nat) → Scoping σ Unit
  | 0 => pure ()
  | count + 1 => do
    match (← get).1 with
    | [] => pure ()
    | entry :: rest => do
      modify fun (_, s) => (rest, s)
      request (closeEntry h entry)
      popUpTo h count

def pop (h : Host σ) (count : Nat) : Scoping σ Unit := do
  let height := (← get).1.length
  if height < count then throw (.underflow count height)
  popUpTo h count

/--
Opens the scope of a heading. What is open at its level or below is closed first; placeholders for
skipped levels are put down only after the host has opened the scope.
-/
def enter (h : Host σ) (level : Nat) (name : String) (heading : Option String) :
    Scoping σ Handle := do
  if level = 0 then throw .invalidLevel
  let height := (← get).1.length
  if level ≤ height then pop h (height - level + 1)
  let scope : Scope := ⟨name, level, pathOf (← get).1 name⟩
  let handle ← request (h.openScope scope heading)
  modify fun (stack, s) => (.opened handle scope :: fillTo stack level, s)
  return handle

/-- Closes all scopes, whatever the host does not close, and gives the first error. -/
def closeEach (h : Host σ) : ScopeStack → σ → Option HostError × σ
  | [], s => (none, s)
  | entry :: rest, s =>
    match closeEntry h entry s with
    | .ok _ s => closeEach h rest s
    | .error e s => (some e, (closeEach h rest s).2)

def closeAll (h : Host σ) : Scoping σ Unit := fun (stack, s) =>
  match closeEach h stack s with
  | (none, s) => .ok () ([], s)
  | (some e, s) => .error (.host e) ([], s)

end ScopeStack

end LiveDoc
