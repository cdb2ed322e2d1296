import LiveDoc.Proofs.Environment
import LiveDoc.Proofs.Evaluation.Stores

/-!
The names that a program binds: those that it assigns to and those of its loops. A built-in
function stays bound to its name while a program runs that does not bind this name, and also when
the program fails midway, for no item can be stored in a function.
-/
namespace LiveDoc

open Fragment Outcome

namespace Fragment

def Target.bound : Target → List String
  | name s => [s]
  | item _ _ => []

mutual

def Stmt.bound : Stmt → List String
  | .mk _ action => action.bound

def Action.bound : Action → List String
  | .assign target _ => target.bound
  | .update target _ _ => target.bound
  | .choose branches otherwise => boundInBranches branches ++ boundIn otherwise
  | .forEach name _ body => name :: boundIn body
  | .whileTrue _ body => boundIn body
  | _ => []

def boundInBranches : List (Expr × List Stmt) → List String
  | [] => []
  | (_, body) :: rest => boundIn body ++ boundInBranches rest

def boundIn : List Stmt → List String
  | [] => []
  | s :: rest => s.bound ++ boundIn rest

end

/-- A fragment that cannot be read binds nothing. -/
def boundNames (fragment : List Char) : List String :=
  match parseProgram fragment with
  | .ok program => boundIn program
  | .error _ => []

end Fragment

variable {σ α : Type}

/-- The name stands for the built-in function. -/
def Environment.Means (env : Environment) (name : String) (f : Builtin) : Prop :=
  env.load name = .ok (.builtin f)

namespace Environment

variable {env env' : Environment} {name key : String} {f : Builtin} {v : Value}

theorem means_iff : env.Means name f ↔ env.get? name = some (.builtin f) := load_eq_ok_iff

theorem Means.set (h : env.Means name f) (hkey : key ≠ name) (v : Value) :
    (env.set key v).Means name f := by
  rw [means_iff, get?_set, if_neg hkey.symm]
  exact means_iff.mp h

theorem Means.setGlobal (h : env.Means name f) (hkey : key ≠ name) (v : Value) :
    (env.setGlobal key v).Means name f := by
  rw [means_iff, get?, Environment.setGlobal, Value.lookup_setEntry, if_neg hkey.symm]
  exact means_iff.mp h

theorem Means.replace? (h : env.Means name f) (hkey : key ≠ name)
    (hreplace : env.replace? key v = some env') : env'.Means name f := by
  unfold Environment.replace? at hreplace
  split at hreplace
  · cases hreplace
    exact h.set hkey v
  · split at hreplace
    · cases hreplace
      exact h.setGlobal hkey v
    · cases hreplace

/-- A function has no items, so what is stored is stored under another name. -/
theorem Means.store {index : Value} (h : env.Means name f)
    (hstore : env.store key index v = .ok env') : env'.Means name f := by
  obtain ⟨object, hload, hrest⟩ := bind_eq_ok_iff.mp hstore
  obtain ⟨container, hset, hresult⟩ := bind_eq_ok_iff.mp hrest
  have hkey : key ≠ name := by
    rintro rfl
    rw [h] at hload
    cases hload
    cases hset
  cases hresult
  cases hreplace : env.replace? key container with
  | none => exact h
  | some after => exact h.replace? hkey hreplace

theorem Means.bindUnit (h : env.Means name f) (hself : name ≠ "self") (hplace : name ≠ "__file__")
    (scope : Scope) (place : String) : (env.bindUnit scope place).Means name f := by
  rw [Means, load_bindUnit hself hplace]
  exact h

end Environment

/-! ### Statements -/

/-- In the environment of the machine, the name stands for the built-in function. -/
def Machine.Means (name : String) (f : Builtin) (m : Machine σ) : Prop :=
  m.environment.Means name f

variable {name : String} {f : Builtin} {h : Host σ}

/-- Only a name can be given another value: what holds items is no function. -/
theorem respects_means {target : Target} (htarget : name ∉ target.bound) :
    target.Respects (fun _ => True) (·.Means name f) := by
  cases target with
  | name s =>
    have hother : s ≠ name := by simpa [Target.bound, eq_comm] using htarget
    exact fun env v henv _ => henv.set hother v
  | item s index => exact fun env env' i v henv _ hstore => henv.store hstore

/-! The names that a statement binds are the targets that are names. -/

mutual

theorem subset_bound_stmt : (s : Stmt) → ∀ t ∈ s.targets, t.bound ⊆ s.bound
  | .mk _ action => subset_bound_action action

theorem subset_bound_action : (action : Action) → ∀ t ∈ action.targets, t.bound ⊆ action.bound
  | .assign _ _ => by simp [Action.targets, Action.bound]
  | .update _ _ _ => by simp [Action.targets, Action.bound]
  | .choose branches otherwise => by
    rw [Action.targets, Action.bound, List.forall_mem_append]
    exact ⟨fun t ht => List.subset_append_of_subset_left _ (subset_bound_branches branches t ht),
      fun t ht => List.subset_append_of_subset_right _ (subset_bound_block otherwise t ht)⟩
  | .forEach s _ body => by
    rw [Action.targets, Action.bound, List.forall_mem_cons]
    exact ⟨by simp [Target.bound],
      fun t ht => List.subset_cons_of_subset s (subset_bound_block body t ht)⟩
  | .whileTrue _ body => subset_bound_block body
  | .evaluate _ | .breakLoop | .continueLoop | .pass | .raise _ | .assert _ _ => by
    simp [Action.targets]

theorem subset_bound_branches : (branches : List (Expr × List Stmt)) →
    ∀ t ∈ targetsInBranches branches, t.bound ⊆ boundInBranches branches
  | [] => by simp [targetsInBranches]
  | (_, body) :: rest => by
    rw [targetsInBranches, boundInBranches, List.forall_mem_append]
    exact ⟨fun t ht => List.subset_append_of_subset_left _ (subset_bound_block body t ht),
      fun t ht => List.subset_append_of_subset_right _ (subset_bound_branches rest t ht)⟩

theorem subset_bound_block : (body : List Stmt) → ∀ t ∈ targetsIn body, t.bound ⊆ boundIn body
  | [] => by simp [targetsIn]
  | s :: rest => by
    rw [targetsIn, boundIn, List.forall_mem_append]
    exact ⟨fun t ht => List.subset_append_of_subset_left _ (subset_bound_stmt s t ht),
      fun t ht => List.subset_append_of_subset_right _ (subset_bound_block rest t ht)⟩

end

/-- A fragment that does not bind the name of a built-in function leaves it to the function. -/
theorem keeps_runFragment (rounds : Nat) {fragment : List Char}
    (hfree : name ∉ boundNames fragment) :
    Keeps (Machine.Means name f) (runFragment h rounds fragment) := by
  intro m hm
  rw [boundNames] at hfree
  rw [runFragment]
  cases hparse : parseProgram fragment with
  | error e => exact hm
  | ok program =>
    rw [hparse] at hfree
    exact keeps_runProgram h rounds
      (fun t ht => respects_means fun hname => hfree (subset_bound_block program t ht hname)) m hm

end LiveDoc
