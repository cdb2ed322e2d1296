import LiveDoc.Execution.Runner
import LiveDoc.Proofs.Evaluation.Operators
import LiveDoc.Proofs.Invariance

/-!
What a program stores. Expressions leave the environment as it is, and so do the statements that
only look at a value. So the environment keeps a property whenever each target that the program
stores values at respects it, and also when the program fails midway. The values need not be known
for this, but where expressions have none but values of one kind, a target has to respect these
only. This is asked of those expressions only whose values come to be stored.
-/
namespace LiveDoc

open Fragment Outcome

variable {σ α : Type} {act : Execution σ α} {P : Environment → Prop} {good : Value → Prop}
  {h : Host σ}

namespace Fragment

mutual

/-- The targets of a statement and of its blocks; the variable of a loop is one. -/
def Stmt.targets : Stmt → List Target
  | .mk _ action => action.targets

def Action.targets : Action → List Target
  | .assign target _ => [target]
  | .update target _ _ => [target]
  | .choose branches otherwise => targetsInBranches branches ++ targetsIn otherwise
  | .forEach name _ body => .name name :: targetsIn body
  | .whileTrue _ body => targetsIn body
  | _ => []

def targetsInBranches : List (Expr × List Stmt) → List Target
  | [] => []
  | (_, body) :: rest => targetsIn body ++ targetsInBranches rest

def targetsIn : List Stmt → List Target
  | [] => []
  | s :: rest => s.targets ++ targetsIn rest

end

mutual

/-- The expressions whose values a statement or one in its blocks stores or computes what it stores
from, those of the indices among them. -/
def Stmt.sources : Stmt → List Expr
  | .mk _ action => action.sources

def Action.sources : Action → List Expr
  | .assign (.name _) value => [value]
  | .assign (.item _ index) value => [value, index]
  | .update (.name s) _ value => [.name s, value]
  | .update (.item s index) _ value => [.name s, value, index]
  | .choose branches otherwise => sourcesInBranches branches ++ sourcesIn otherwise
  | .forEach _ items body => items :: sourcesIn body
  | .whileTrue _ body => sourcesIn body
  | _ => []

def sourcesInBranches : List (Expr × List Stmt) → List Expr
  | [] => []
  | (_, body) :: rest => sourcesIn body ++ sourcesInBranches rest

def sourcesIn : List Stmt → List Expr
  | [] => []
  | s :: rest => s.sources ++ sourcesIn rest

end

/-- The property is kept by storing any value of the kind at the target. -/
def Target.Respects (good : Value → Prop) (P : Environment → Prop) : Target → Prop
  | name s => ∀ env v, P env → good v → P (env.set s v)
  | item s _ => ∀ env env' index v, P env → good v → env.store s index v = .ok env' → P env'

/-- The property is kept by storing any value of the kind at the target, under an index of the
kind. -/
def Target.Admits (good : Value → Prop) (P : Environment → Prop) : Target → Prop
  | name s => ∀ env v, P env → good v → P (env.set s v)
  | item s _ => ∀ env env' index v, P env → good index → good v →
      env.store s index v = .ok env' → P env'

theorem Target.Respects.admits {target : Target} (h : target.Respects good P) :
    target.Admits good P := by
  cases target with
  | name s => exact h
  | item s index => exact fun env env' i v henv _ => h env env' i v henv

end Fragment

/-- While the environment has the property, the fine expressions have values of the kind only, and
what is computed from these is of the kind. -/
structure SuppliesFrom (fine : Expr → Prop) (h : Host σ) (P : Environment → Prop)
    (good : Value → Prop) : Prop where
  eval : ∀ {env s v s'} (e : Expr), fine e → P env → e.eval h env s = .ok v s' → good v
  item : ∀ {container index v}, good container → container.item index = .ok v → good v
  binary : ∀ {op v w result}, good v → good w → Value.binary op v w = .ok result → good result
  visited : ∀ {v values}, good v → v.visited = .ok values → ∀ x ∈ values, good x

/-- Nothing needs to be known of the values. -/
theorem suppliesFrom_any (fine : Expr → Prop) : SuppliesFrom fine h P fun _ => True :=
  ⟨fun _ _ _ _ => trivial, fun _ _ => trivial, fun _ _ _ => trivial, fun _ _ _ _ => trivial⟩

/-! ### Computations that leave the environment as it is -/

def LeavesEnvironment (act : Execution σ α) : Prop :=
  ∀ env, Keeps (fun m => m.environment = env) act

theorem leavesEnvironment_evaluate (line : Nat) (act : Environment → Evaluation σ α) :
    LeavesEnvironment (Execution.evaluate line act) := by
  intro env m hm
  simp only [Execution.evaluate]
  cases act m.environment m.host with
  | ok a s => exact hm
  | error stop s => cases stop <;> exact hm

theorem leavesEnvironment_compute (line : Nat) (act : Environment → Except Fault α) :
    LeavesEnvironment (Execution.compute line act : Execution σ α) :=
  leavesEnvironment_evaluate line _

theorem LeavesEnvironment.eq (h : LeavesEnvironment act) (m : Machine σ) :
    (stateOf (act m)).environment = m.environment := h m.environment m rfl

/-- What is true of the environment stays true. -/
theorem LeavesEnvironment.keeps (h : LeavesEnvironment act) : Keeps (P ·.environment) act := by
  intro m hm
  rw [h.eq m]
  exact hm

theorem leavesEnvironment_holds (line : Nat) (condition : Expr) :
    LeavesEnvironment (holds h line condition) := fun env =>
  keeps_bind (leavesEnvironment_evaluate line _ env) fun _ => keeps_pure _

theorem leavesEnvironment_runRaise (line : Nat) (what : Option Expr) :
    LeavesEnvironment (runRaise h line what) := fun env =>
  keeps_bind (leavesEnvironment_evaluate line _ env) fun _ => keeps_throw _

theorem leavesEnvironment_runAssert (line : Nat) (test : Expr) (message : Option Expr) :
    LeavesEnvironment (runAssert h line test message) := by
  intro env
  refine keeps_bind (leavesEnvironment_evaluate line _ env) fun v => ?_
  cases v.isTrue with
  | true => exact keeps_pure _
  | false =>
    cases message with
    | none => exact keeps_bind (keeps_pure _) fun _ => keeps_throw _
    | some e => exact keeps_bind (leavesEnvironment_evaluate line _ env) fun _ => keeps_throw _

/-! ### The values of computations -/

theorem yields_evaluate {p : α → Prop} {act : Environment → Evaluation σ α} (line : Nat)
    (hact : ∀ env s a s', P env → act env s = .ok a s' → p a) :
    Yields (P ·.environment) p (Execution.evaluate line act) := by
  intro m a m' hm hrun
  simp only [Execution.evaluate] at hrun
  cases hvalue : act m.environment m.host with
  | ok a' s =>
    rw [hvalue] at hrun
    cases hrun
    exact hact _ _ _ _ hm hvalue
  | error stop s =>
    rw [hvalue] at hrun
    cases stop <;> cases hrun

theorem yields_compute {p : α → Prop} {act : Environment → Except Fault α} (line : Nat)
    (hact : ∀ env a, P env → act env = .ok a → p a) :
    Yields (P ·.environment) p (Execution.compute line act : Execution σ α) := by
  refine yields_evaluate line fun env s a s' henv hrun => ?_
  exact hact env a henv (settle_eq_ok_iff.mp hrun).1

namespace SuppliesFrom

variable {fine : Expr → Prop}

theorem yields_eval (hsupplies : SuppliesFrom fine h P good) (line : Nat) {e : Expr}
    (he : fine e) : Yields (P ·.environment) good (Execution.evaluate line (e.eval h ·)) :=
  yields_evaluate line fun _ _ _ _ => hsupplies.eval e he

theorem yields_load (hsupplies : SuppliesFrom fine h P good) (line : Nat) {s : String}
    (hs : fine (.name s)) :
    Yields (P ·.environment) good (Execution.compute line (·.load s) : Execution σ Value) :=
  yields_evaluate line fun _ _ _ _ => hsupplies.eval (.name s) hs

theorem yields_item (hsupplies : SuppliesFrom fine h P good) (line : Nat) {s : String}
    (hs : fine (.name s)) (i : Value) :
    Yields (P ·.environment) good
      (Execution.compute line fun env => do (← env.load s).item i : Execution σ Value) := by
  refine yields_evaluate line fun env t v t' henv hrun => ?_
  obtain ⟨container, hload, hfound⟩ := bind_eq_ok_iff.mp (settle_eq_ok_iff.mp hrun).1
  have hcontainer : good container :=
    hsupplies.eval (.name s) hs henv (s := t) (settle_eq_ok_iff.mpr ⟨hload, rfl⟩)
  exact hsupplies.item hcontainer hfound

theorem yields_binary (hsupplies : SuppliesFrom fine h P good) (line : Nat) (op : BinaryOp)
    {v w : Value} (hv : good v) (hw : good w) :
    Yields (P ·.environment) good
      (Execution.compute line fun _ => Value.binary op v w : Execution σ Value) :=
  yields_compute line fun _ _ _ => hsupplies.binary hv hw

theorem yields_visited (hsupplies : SuppliesFrom fine h P good) (line : Nat) {items : Expr}
    (hitems : fine items) :
    Yields (P ·.environment) (fun values => ∀ x ∈ values, good x)
      (Execution.evaluate line fun env => do
        Evaluation.settle (← items.eval h env).visited) := by
  refine yields_evaluate line fun env s values s' henv hrun => ?_
  obtain ⟨v, t, hv, hvisited⟩ := run_bind_eq_ok_iff.mp hrun
  exact hsupplies.visited (hsupplies.eval items hitems henv hv) (settle_eq_ok_iff.mp hvisited).1

end SuppliesFrom

/-! ### Stores -/

theorem keeps_setLocal {s : String} (hs : ∀ env v, P env → good v → P (env.set s v)) {v : Value}
    (hv : good v) : Keeps (P ·.environment) (Execution.setLocal s v : Execution σ Unit) :=
  keeps_modify fun m hm => hs m.environment v hm hv

/-- The last step of an assignment to an item. -/
def Execution.storeItem (line : Nat) (s : String) (index v : Value) : Execution σ Unit :=
  Execution.compute line (·.store s index v) >>= Execution.setEnvironment

/-- What is stored is stored as a whole or not at all. -/
theorem run_storeItem (line : Nat) (s : String) (index v : Value) (m : Machine σ) :
    Execution.storeItem line s index v m =
      match m.environment.store s index v with
      | .ok env' => .ok () { m with environment := env' }
      | .error fault => .error (.raised fault line) m := by
  simp only [Execution.storeItem, bind, EStateM.bind, Execution.compute, Execution.evaluate,
    Evaluation.settle]
  cases m.environment.store s index v with
  | ok env' => rfl
  | error fault => rfl

theorem keeps_storeItem {s : String} {index v : Value}
    (hs : ∀ env env', P env → env.store s index v = .ok env' → P env') (line : Nat) :
    Keeps (P ·.environment) (Execution.storeItem line s index v : Execution σ Unit) := by
  intro m hm
  rw [run_storeItem]
  cases hstore : m.environment.store s index v with
  | ok env' => exact hs _ _ hm hstore
  | error fault => exact hm

section Statements

variable {fine : Expr → Prop}

theorem keeps_runAssign (hsupplies : SuppliesFrom fine h P good) {target : Target} {value : Expr}
    (htarget : target.Admits good P) (hfine : ∀ e ∈ (Action.assign target value).sources, fine e)
    (line : Nat) : Keeps (P ·.environment) (runAssign h line target value) := by
  cases target with
  | name s =>
    have hvalue : fine value := hfine value List.mem_cons_self
    exact keeps_bind_of_yields (leavesEnvironment_evaluate line _).keeps
      (hsupplies.yields_eval line hvalue) fun v hv => keeps_setLocal htarget hv
  | item s index =>
    have hvalue : fine value := hfine value (by simp [Action.sources])
    have hindex : fine index := hfine index (by simp [Action.sources])
    refine keeps_bind_of_yields (leavesEnvironment_evaluate line _).keeps
      (hsupplies.yields_eval line hvalue) fun v hv => ?_
    exact keeps_bind_of_yields (leavesEnvironment_evaluate line _).keeps
      (hsupplies.yields_eval line hindex) fun i hi =>
        keeps_storeItem (fun env env' henv => htarget env env' i v henv hi hv) line

theorem keeps_runUpdate (hsupplies : SuppliesFrom fine h P good) {target : Target} {op : BinaryOp}
    {value : Expr} (htarget : target.Admits good P)
    (hfine : ∀ e ∈ (Action.update target op value).sources, fine e) (line : Nat) :
    Keeps (P ·.environment) (runUpdate h line target op value) := by
  cases target with
  | name s =>
    have hs : fine (.name s) := hfine _ (by simp [Action.sources])
    have hvalue : fine value := hfine value (by simp [Action.sources])
    refine keeps_bind_of_yields (leavesEnvironment_compute line _).keeps
      (hsupplies.yields_load line hs) fun current hcurrent => ?_
    refine keeps_bind_of_yields (leavesEnvironment_evaluate line _).keeps
      (hsupplies.yields_eval line hvalue) fun v hv => ?_
    exact keeps_bind_of_yields (leavesEnvironment_compute line _).keeps
      (hsupplies.yields_binary line op hcurrent hv) fun result hresult =>
        keeps_setLocal htarget hresult
  | item s index =>
    have hs : fine (.name s) := hfine _ (by simp [Action.sources])
    have hvalue : fine value := hfine value (by simp [Action.sources])
    have hindex : fine index := hfine index (by simp [Action.sources])
    refine keeps_bind_of_yields (leavesEnvironment_evaluate line _).keeps
      (hsupplies.yields_eval line hindex) fun i hi => ?_
    refine keeps_bind_of_yields (leavesEnvironment_compute line _).keeps
      (hsupplies.yields_item line hs i) fun current hcurrent => ?_
    refine keeps_bind_of_yields (leavesEnvironment_evaluate line _).keeps
      (hsupplies.yields_eval line hvalue) fun v hv => ?_
    exact keeps_bind_of_yields (leavesEnvironment_compute line _).keeps
      (hsupplies.yields_binary line op hcurrent hv) fun result hresult =>
        keeps_storeItem (fun env env' henv => htarget env env' i result henv hi hresult) line

end Statements

/-! ### Loops -/

theorem keeps_visitAll {I : Machine σ → Prop} {body : Value → Execution σ Flow}
    {values : List Value} (hbody : ∀ v ∈ values, Keeps I (body v)) :
    Keeps I (Execution.visitAll body values) := by
  induction values with
  | nil => exact keeps_pure _
  | cons v rest ih =>
    obtain ⟨hv, hrest⟩ := List.forall_mem_cons.mp hbody
    refine keeps_bind hv fun flow => ?_
    cases flow with
    | breakLoop => exact keeps_pure _
    | _ => exact ih hrest

theorem keeps_repeatWhile {I : Machine σ → Prop} {test : Execution σ Bool}
    {body : Execution σ Flow} (htest : Keeps I test) (hbody : Keeps I body) (rounds : Nat) :
    Keeps I (Execution.repeatWhile test body rounds) := by
  induction rounds with
  | zero => exact keeps_throw _
  | succ rounds ih =>
    refine keeps_bind htest fun holds => ?_
    by_cases hholds : holds = true
    · simp only [hholds, if_true]
      refine keeps_bind hbody fun flow => ?_
      cases flow with
      | breakLoop => exact keeps_pure _
      | _ => exact ih
    · simp only [hholds]
      exact keeps_pure _

/-! ### Programs -/

section Programs

variable {fine : Expr → Prop}

mutual

theorem keeps_stmt (hsupplies : SuppliesFrom fine h P good) (rounds : Nat) :
    (s : Stmt) → (∀ t ∈ s.targets, t.Admits good P) → (∀ e ∈ s.sources, fine e) →
      Keeps (P ·.environment) (s.run h rounds)
  | .mk line action, htargets, hfine =>
    keeps_action hsupplies rounds line action htargets hfine

theorem keeps_action (hsupplies : SuppliesFrom fine h P good) (rounds line : Nat) :
    (action : Action) → (∀ t ∈ action.targets, t.Admits good P) →
      (∀ e ∈ action.sources, fine e) → Keeps (P ·.environment) (action.run h rounds line)
  | .evaluate _, _, _ =>
    keeps_bind (leavesEnvironment_evaluate line _).keeps fun _ => keeps_pure _
  | .assign target value, htargets, hfine =>
    keeps_bind (keeps_runAssign hsupplies (htargets target List.mem_cons_self) hfine line)
      fun _ => keeps_pure _
  | .update target op value, htargets, hfine =>
    keeps_bind (keeps_runUpdate hsupplies (htargets target List.mem_cons_self) hfine line)
      fun _ => keeps_pure _
  | .choose branches otherwise, htargets, hfine => by
    rw [Action.targets, List.forall_mem_append] at htargets
    rw [Action.sources, List.forall_mem_append] at hfine
    have hotherwise := keeps_block hsupplies rounds otherwise htargets.2 hfine.2
    exact keeps_branches hsupplies rounds line hotherwise branches htargets.1 hfine.1
  | .forEach s items body, htargets, hfine => by
    obtain ⟨hs, hbody⟩ := List.forall_mem_cons.mp htargets
    obtain ⟨hitems, hbodyFine⟩ := List.forall_mem_cons.mp hfine
    refine keeps_bind_of_yields (leavesEnvironment_evaluate line _).keeps
      (hsupplies.yields_visited line hitems) fun values hvalues => ?_
    exact keeps_visitAll fun v hv =>
      keeps_bind (keeps_setLocal hs (hvalues v hv)) fun _ =>
        keeps_block hsupplies rounds body hbody hbodyFine
  | .whileTrue condition body, htargets, hfine =>
    keeps_repeatWhile (leavesEnvironment_holds line condition).keeps
      (keeps_block hsupplies rounds body htargets hfine) rounds
  | .breakLoop, _, _ => keeps_pure _
  | .continueLoop, _, _ => keeps_pure _
  | .pass, _, _ => keeps_pure _
  | .raise what, _, _ =>
    keeps_bind (leavesEnvironment_runRaise line what).keeps fun _ => keeps_pure _
  | .assert test message, _, _ =>
    keeps_bind (leavesEnvironment_runAssert line test message).keeps fun _ => keeps_pure _

theorem keeps_branches (hsupplies : SuppliesFrom fine h P good) (rounds line : Nat)
    {otherwise : Execution σ Flow} (hotherwise : Keeps (P ·.environment) otherwise) :
    (branches : List (Expr × List Stmt)) → (∀ t ∈ targetsInBranches branches, t.Admits good P) →
      (∀ e ∈ sourcesInBranches branches, fine e) →
      Keeps (P ·.environment) (runBranches h rounds line otherwise branches)
  | [], _, _ => hotherwise
  | (condition, body) :: rest, htargets, hfine => by
    rw [targetsInBranches, List.forall_mem_append] at htargets
    rw [sourcesInBranches, List.forall_mem_append] at hfine
    refine keeps_bind (leavesEnvironment_holds line condition).keeps fun holds => ?_
    cases holds with
    | true => exact keeps_block hsupplies rounds body htargets.1 hfine.1
    | false => exact keeps_branches hsupplies rounds line hotherwise rest htargets.2 hfine.2

theorem keeps_block (hsupplies : SuppliesFrom fine h P good) (rounds : Nat) :
    (body : List Stmt) → (∀ t ∈ targetsIn body, t.Admits good P) →
      (∀ e ∈ sourcesIn body, fine e) → Keeps (P ·.environment) (runBlock h rounds body)
  | [], _, _ => keeps_pure _
  | s :: rest, htargets, hfine => by
    rw [targetsIn, List.forall_mem_append] at htargets
    rw [sourcesIn, List.forall_mem_append] at hfine
    refine keeps_bind (keeps_stmt hsupplies rounds s htargets.1 hfine.1) fun flow => ?_
    cases flow with
    | normal => exact keeps_block hsupplies rounds rest htargets.2 hfine.2
    | _ => exact keeps_pure _

end

theorem keeps_runProgram_of_sources (hsupplies : SuppliesFrom fine h P good) (rounds : Nat)
    {program : Program} (htargets : ∀ t ∈ targetsIn program, t.Admits good P)
    (hfine : ∀ e ∈ sourcesIn program, fine e) :
    Keeps (P ·.environment) (runProgram h rounds program) := by
  intro m hm
  have hblock := keeps_block hsupplies rounds program htargets hfine m hm
  simp only [runProgram]
  cases hrun : runBlock h rounds program m with
  | ok flow m' =>
    rw [hrun] at hblock
    exact hblock
  | error i m' =>
    rw [hrun] at hblock
    exact hblock

end Programs

/-- What the targets of a program respect, it keeps. -/
theorem keeps_runProgram (h : Host σ) (rounds : Nat) {program : Program}
    (htargets : ∀ t ∈ targetsIn program, t.Respects (fun _ => True) P) :
    Keeps (P ·.environment) (runProgram h rounds program) :=
  keeps_runProgram_of_sources (suppliesFrom_any fun _ => True) rounds
    (fun t ht => (htargets t ht).admits) fun _ _ => trivial

end LiveDoc
