import LiveDoc.Execution.Recorder
import LiveDoc.Proofs.Evaluation.Binding

/-!
What a run can change. Evaluating an expression leaves the environment as it is, and so does a
simple statement that fails: it stores a value last, when all of its values are there. A run
gives other values only to the local names that its program assigns to, directly or by an item, and
to the variables of its loops. An item could reach a global name, but the global names stand for
functions in every environment that comes of running fragments, and these have no items.
-/
namespace LiveDoc

open Fragment Outcome

variable {σ α β : Type} {names : List String} {env env' : Environment}

namespace Fragment

/-- The name through which a value is assigned. -/
def Target.root : Target → String
  | name s => s
  | item container _ => container

/-- The names that a program assigns to. -/
def assignedNames (program : Program) : List String := (targetsIn program).map Target.root

/-- The statement has no blocks. -/
def Action.isSimple : Action → Bool
  | .choose _ _ => false
  | .forEach _ _ _ => false
  | .whileTrue _ _ => false
  | _ => true

end Fragment

/-! ### Environments -/

namespace Environment

/-- The second environment differs from the first one at most in the local values of the names. -/
structure SameBut (names : List String) (env env' : Environment) : Prop where
  globals : env'.globals = env.globals
  locals : ∀ name ∉ names, env'.locals.lookup name = env.locals.lookup name

theorem SameBut.refl (names : List String) (env : Environment) : env.SameBut names env :=
  ⟨rfl, fun _ _ => rfl⟩

theorem SameBut.set {key : String} (h : env.SameBut names env') (hkey : key ∈ names) (v : Value) :
    env.SameBut names (env'.set key v) where
  globals := h.globals
  locals name hname := by
    have hother : name ≠ key := by
      rintro rfl
      exact hname hkey
    rw [Environment.set, Value.lookup_setEntry, if_neg hother]
    exact h.locals name hname

/-- The global names are those of the built-in functions, and they stand for these. -/
def Plain (env : Environment) : Prop := env.globals = initial.globals

/-- What has items is bound locally. -/
theorem Plain.isLocal {key : String} {container index v changed : Value} (h : env.Plain)
    (hload : env.load key = .ok container) (hset : container.setItem index v = .ok changed) :
    (env.locals.lookup key).isSome := by
  cases hlocal : env.locals.lookup key with
  | some found => rfl
  | none =>
    have hglobal := load_eq_ok_iff.mp hload
    rw [get?, hlocal, Option.none_or, h] at hglobal
    obtain ⟨f, -, hf⟩ := List.mem_map.mp (Value.mem_of_lookup hglobal)
    obtain ⟨-, rfl⟩ := Prod.mk.inj hf
    cases hset

theorem SameBut.store {key : String} {index v : Value} {after : Environment}
    (h : env.SameBut names env') (hplain : env'.Plain) (hkey : key ∈ names)
    (hstore : env'.store key index v = .ok after) : env.SameBut names after := by
  obtain ⟨container, hload, hrest⟩ := bind_eq_ok_iff.mp hstore
  obtain ⟨changed, hset, hresult⟩ := bind_eq_ok_iff.mp hrest
  cases hresult
  rw [replace?, if_pos (hplain.isLocal hload hset)]
  exact h.set hkey changed

end Environment

/-! ### Computations that leave the environment as it is -/

/-- A computation that fails has not changed the environment. -/
def AllOrNothing (act : Execution σ α) : Prop :=
  ∀ m i m', act m = .error i m' → m'.environment = m.environment

section Rules

variable {act : Execution σ α} {next : α → Execution σ β}

theorem LeavesEnvironment.allOrNothing (h : LeavesEnvironment act) : AllOrNothing act := by
  intro m i m' hrun
  have hsame := h.eq m
  rwa [hrun] at hsame

theorem AllOrNothing.of_ok (h : ∀ m, ∃ a m', act m = .ok a m') : AllOrNothing act := by
  intro m i m' hrun
  obtain ⟨a, s, hok⟩ := h m
  rw [hok] at hrun
  cases hrun

theorem LeavesEnvironment.bind (hact : LeavesEnvironment act)
    (hnext : ∀ a, AllOrNothing (next a)) : AllOrNothing (act >>= next) := by
  intro m i m' hrun
  have hsame := hact.eq m
  cases hfirst : act m with
  | error j s =>
    rw [run_bind_of_error hfirst] at hrun
    rw [hfirst] at hsame
    cases hrun
    exact hsame
  | ok a s =>
    rw [run_bind_of_ok hfirst] at hrun
    rw [hfirst] at hsame
    exact (hnext a s i m' hrun).trans hsame

/-- A computation with a last step that cannot fail. -/
theorem AllOrNothing.bind_pure (h : AllOrNothing act) (b : β) :
    AllOrNothing (act >>= fun _ => pure b) := by
  intro m i m' hrun
  cases hfirst : act m with
  | error j s =>
    rw [run_bind_of_error hfirst] at hrun
    cases hrun
    exact h m i m' hfirst
  | ok a s =>
    rw [run_bind_of_ok hfirst] at hrun
    cases hrun

end Rules

/-! ### Simple statements -/

variable {h : Host σ}

theorem allOrNothing_setLocal (name : String) (v : Value) :
    AllOrNothing (Execution.setLocal name v : Execution σ Unit) :=
  .of_ok fun _ => ⟨_, _, rfl⟩

theorem allOrNothing_storeItem (line : Nat) (key : String) (index v : Value) :
    AllOrNothing (Execution.storeItem line key index v : Execution σ Unit) :=
  (leavesEnvironment_compute line _).bind fun _ => .of_ok fun _ => ⟨_, _, rfl⟩

theorem allOrNothing_runAssign (line : Nat) (target : Target) (value : Expr) :
    AllOrNothing (runAssign h line target value) := by
  refine (leavesEnvironment_evaluate line _).bind fun v => ?_
  cases target with
  | name s => exact allOrNothing_setLocal s v
  | item s index =>
    exact (leavesEnvironment_evaluate line _).bind fun i => allOrNothing_storeItem line s i v

theorem allOrNothing_runUpdate (line : Nat) (target : Target) (op : BinaryOp) (value : Expr) :
    AllOrNothing (runUpdate h line target op value) := by
  cases target with
  | name s =>
    exact (leavesEnvironment_compute line _).bind fun current =>
      (leavesEnvironment_evaluate line _).bind fun v =>
        (leavesEnvironment_compute line _).bind fun result => allOrNothing_setLocal s result
  | item s index =>
    exact (leavesEnvironment_evaluate line _).bind fun i =>
      (leavesEnvironment_compute line _).bind fun current =>
        (leavesEnvironment_evaluate line _).bind fun v =>
          (leavesEnvironment_compute line _).bind fun result =>
            allOrNothing_storeItem line s i result

/-- A simple statement that fails changes no name. -/
theorem allOrNothing_simple {action : Action} (hsimple : action.isSimple = true)
    (rounds line : Nat) : AllOrNothing (action.run h rounds line) := by
  cases action with
  | evaluate e => exact (leavesEnvironment_evaluate line _).allOrNothing.bind_pure _
  | assign target value => exact (allOrNothing_runAssign line target value).bind_pure _
  | update target op value => exact (allOrNothing_runUpdate line target op value).bind_pure _
  | raise what => exact (leavesEnvironment_runRaise line what).allOrNothing.bind_pure _
  | assert test message =>
    exact (leavesEnvironment_runAssert line test message).allOrNothing.bind_pure _
  | choose branches otherwise => cases hsimple
  | forEach name items body => cases hsimple
  | whileTrue condition body => cases hsimple
  | _ => exact .of_ok fun _ => ⟨_, _, rfl⟩

/-! ### Programs -/

/-- The environment of the machine differs from `env`, whose global names are the built-in
functions, at most in the local values of the names. -/
structure Machine.Within (names : List String) (env : Environment) (m : Machine σ) : Prop where
  plain : m.environment.Plain
  same : env.SameBut names m.environment

theorem respects_within {target : Target} (htarget : target.root ∈ names) :
    target.Respects (fun _ => True) fun env' => env'.Plain ∧ env.SameBut names env' := by
  cases target with
  | name s => exact fun env' v henv _ => ⟨henv.1, henv.2.set htarget v⟩
  | item s index =>
    intro env' after i v henv _ hstore
    have hsame := henv.2.store henv.1 htarget hstore
    exact ⟨(hsame.globals.trans henv.2.globals.symm).trans henv.1, hsame⟩

theorem within_runProgram (rounds : Nat) (program : Program) :
    Keeps (Machine.Within (assignedNames program) env) (runProgram h rounds program) := by
  intro m hm
  have htargets (t : Target) (ht : t ∈ targetsIn program) : t.root ∈ assignedNames program :=
    List.mem_map_of_mem ht
  obtain ⟨hplain, hsame⟩ := keeps_runProgram h rounds
    (fun t ht => respects_within (htargets t ht)) m ⟨hm.plain, hm.same⟩
  exact ⟨hplain, hsame⟩

/-! ### Environments of a document -/

/-- The environments that come of running fragments, whatever hosts they run with and however they
end, and of binding the names by which a fragment knows its scope. -/
inductive Environment.Reachable : Environment → Prop where
  | initial : Reachable .initial
  | bindUnit {env : Environment} (scope : Scope) (place : String) :
    Reachable env → Reachable (env.bindUnit scope place)
  | runFragment {σ : Type} {m : Machine σ} (h : Host σ) (rounds : Nat) (fragment : List Char) :
    Reachable m.environment →
      Reachable (stateOf (LiveDoc.runFragment h rounds fragment m)).environment

theorem Environment.Reachable.plain (hreach : env.Reachable) : env.Plain := by
  induction hreach with
  | initial => rfl
  | bindUnit scope place _ ih => exact ih
  | @runFragment σ m h rounds fragment _ ih =>
    rw [LiveDoc.runFragment]
    cases parseProgram fragment with
    | error e => exact ih
    | ok program =>
      exact (within_runProgram (h := h) rounds program m ⟨ih, .refl _ _⟩).plain

/-- However a run ends, it leaves the global names and the local names that its program does not
assign to. An expression changes no name at all, and neither does a simple statement that fails. -/
theorem runProgram_frame (hreach : env.Reachable) (h : Host σ) (rounds : Nat) (program : Program)
    (s : σ) :
    env.SameBut (assignedNames program)
        (stateOf (runProgram h rounds program ⟨env, s⟩)).environment ∧
      (∀ (e : Expr) (line : Nat) (m : Machine σ),
        (stateOf (Execution.evaluate line (e.eval h ·) m)).environment = m.environment) ∧
      ∀ (action : Action) (line : Nat) (m m' : Machine σ) (i : Interrupt),
        action.isSimple = true → action.run h rounds line m = .error i m' →
          m'.environment = m.environment := by
  refine ⟨?_, fun e line m => (leavesEnvironment_evaluate line _).eq m, ?_⟩
  · have hplain := hreach.plain
    exact (within_runProgram rounds program ⟨env, s⟩ ⟨hplain, .refl _ _⟩).same
  · intro action line m m' i hsimple hrun
    exact allOrNothing_simple hsimple rounds line m i m' hrun

def recordingHost : Host Recorder := Recorder.host ⟨[], [], [], []⟩

/-- Two names for one list. -/
def sharedList : Environment :=
  (stateOf (runFragment recordingHost 0 "xs = [1]\nys = xs\n".toList
    ⟨.bindUnit .initial ⟨"d", 0, "/"⟩ "<d:1>", .initial⟩)).environment

/-- Changes the list through one of its names, and fails at an item that is not there. -/
def changeList : List Char := "xs[0] = 2\nfor i in [7]:\n  xs[i] = 0\n".toList

/-- Adds to an item that is not there. -/
def missingItem : Action :=
  .update (.item "xs" (.constant (.int 7))) .add (.constant (.int 1))

/-- How the local values of some names are written. -/
def shownLocals (names : List String) (env : Environment) : List (Option String) :=
  names.map fun name => (env.locals.lookup name).map Value.repr

/-- The other name keeps the list as it was. -/
theorem runProgram_frame_of_shared_list :
    sharedList.Reachable ∧ (∃ program after, parseProgram changeList = .ok program ∧
      after = (stateOf (runProgram recordingHost 0 program ⟨sharedList, .initial⟩)).environment ∧
      sharedList.SameBut ["xs", "i", "xs"] after ∧
      shownLocals ["xs", "i", "ys"] sharedList = [some "[1]", none, some "[1]"] ∧
      shownLocals ["xs", "i", "ys"] after = [some "[2]", some "7", some "[1]"]) ∧
      ∃ i m', missingItem.run recordingHost 0 1 ⟨sharedList, .initial⟩ = .error i m' ∧
        m'.environment = sharedList := by
  have hreach : sharedList.Reachable := .runFragment _ _ _ (.bindUnit _ _ .initial)
  have hrun : (parseProgram changeList).toOption.map (fun program => (assignedNames program,
      shownLocals ["xs", "i", "ys"]
        (stateOf (runProgram recordingHost 0 program ⟨sharedList, .initial⟩)).environment)) =
      some (["xs", "i", "xs"], [some "[2]", some "7", some "[1]"]) := by
    decide +kernel
  have hfails : (error? (resultOf
      (missingItem.run recordingHost 0 1 ⟨sharedList, .initial⟩))).isSome := by
    decide +kernel
  obtain ⟨program, hparse, hparts⟩ := map_toOption_eq_some_iff.mp hrun
  obtain ⟨hnames, hafter⟩ := Prod.mk.inj hparts
  obtain ⟨hsame, -, hsimple⟩ := runProgram_frame hreach recordingHost 0 program .initial
  rw [hnames] at hsame
  refine ⟨hreach, ⟨program, _, hparse, rfl, hsame, by decide +kernel, hafter⟩, ?_⟩
  cases hstop : missingItem.run recordingHost 0 1 ⟨sharedList, .initial⟩ with
  | ok flow m' =>
    rw [hstop] at hfails
    cases hfails
  | error i m' =>
    exact ⟨i, m', rfl, hsimple missingItem 1 ⟨sharedList, .initial⟩ m' i rfl hstop⟩

end LiveDoc
