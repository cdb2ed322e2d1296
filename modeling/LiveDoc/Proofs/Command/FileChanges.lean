import LiveDoc.Command.Invocation
import LiveDoc.Proofs.Command.PlanSafety

/-!
What a command changes. It writes to the files of its plan and to no others, and without a plan it
writes nothing.
-/
namespace LiveDoc.Command

open Outcome Desk

/-! ### The parts of a command -/

section Parts

variable {m : Type → Type} [Monad m] (sys : System m)

/-- How the documents of a command are treated. -/
def modeOf (r : Request) (settings : Settings) : m Mode := do
  return {
    parseOnly := r.check || r.tree
    tree := r.tree
    onError := r.onError.getD settings.onError
    colored := ! r.noColor && (← colored sys settings.color) }

/-- Where the outputs go. A document that is only read has none. -/
def planOf (r : Request) (settings : Settings) : m (Except PlanError Plan) :=
  let inputs := r.inputs.map Input.ofArgument
  if r.check || r.tree then pure (.ok (inputs.map fun i => (i, .stream)))
  else Plan.make sys inputs r.output (r.force || settings.force)

end Parts

variable {σ : Type} (sys : System (StateM σ)) (rounds : Nat)

/-- Settings, then how documents are treated and where their outputs go, then the documents. -/
theorem carryOut_eq (r : Request) (s : σ) :
    carryOut sys rounds r s =
      match Settings.load sys r.config s with
      | (.error e, s) => (.error (.settings e), s)
      | (.ok settings, s) =>
        let mode := modeOf sys r settings s
        match planOf sys r settings mode.2 with
        | (.error e, s) => (.error (.plan e), s)
        | (.ok plan, s) => processAll sys rounds mode.1 0 true plan s := by
  rw [carryOut, run_state_bind]
  generalize Settings.load sys r.config s = loaded
  obtain ⟨loaded, s⟩ := loaded
  cases loaded with
  | error e => rfl
  | ok settings =>
    dsimp only
    rw [modeOf, planOf, run_state_bind, run_state_bind, run_state_pure]
    cases hparse : r.check || r.tree with
    | true => rfl
    | false =>
      simp only [Bool.false_eq_true, if_false, run_state_bind]
      generalize Plan.make sys _ _ _ _ = made
      obtain ⟨made, s⟩ := made
      cases made with
      | error e => rfl
      | ok plan => rfl

theorem invoke_of_request {arguments : List String} {r : Request} (h : read arguments = .ok r)
    (s : σ) :
    invoke sys rounds arguments s =
      conclude sys (carryOut sys rounds r s).1 (carryOut sys rounds r s).2 := by
  rw [invoke, h]
  exact run_state_bind (carryOut sys rounds r) (conclude sys) s

/-! ### Documents -/

section Documents

variable (places : Place → Prop) (d : Desk)

theorem maintains_tell (line : String) :
    Maintains (ChangesOnly places d) (tell Desk.system line) :=
  maintains_bind (maintains_complain d places line) fun _ => maintains_pure _

theorem maintains_inspect (mode : Mode) (i : Input) (source : Source) :
    Maintains (ChangesOnly places d) (inspect Desk.system mode i source) := by
  rw [inspect]
  split
  · exact maintains_bind (maintains_tell places d _) fun _ => maintains_pure _
  · refine maintains_bind ?_ fun _ => maintains_pure _
    rw [announce]
    split
    · exact maintains_bind (maintains_print d places _) fun _ => maintains_pure _
    · exact maintains_bind (maintains_complain d places _) fun _ => maintains_pure _

theorem maintains_report (style : Diagnostic.Style) (source : Source)
    (errors : List FragmentError) (result : RunResult) :
    Maintains (ChangesOnly places d) (report Desk.system style source errors result) := by
  unfold report
  refine maintains_bind (maintains_forIn errors ?_ _) fun _ => ?_
  · intro e _
    exact maintains_bind (maintains_tell places d _) fun _ => maintains_pure _
  · cases result with
    | ok counts => exact maintains_pure _
    | error e =>
      dsimp only
      split
      · exact maintains_bind (maintains_tell places d _) fun _ => maintains_pure _
      · exact maintains_bind (maintains_pure _) fun _ => maintains_pure _

theorem maintains_input (i : Input) :
    Maintains (ChangesOnly places d) (readInput Desk.system i) := by
  cases i with
  | stream => exact maintains_bind (maintains_readInput d places) fun _ => maintains_pure _
  | file path => exact maintains_bind (maintains_readFile d places path) fun _ => maintains_pure _

variable {places d} {target : Destination}

theorem maintains_prepare
    (htarget : ∀ path, target = .file path → ∀ place, d.LeadsTo path place → places place) :
    Maintains (ChangesOnly places d) (prepare Desk.system target) := by
  cases target with
  | stream => exact maintains_pure _
  | file path =>
    exact maintains_bind (maintains_createFile (htarget path rfl)) fun _ => maintains_pure _

theorem maintains_deliver (text : String)
    (htarget : ∀ path, target = .file path → ∀ place, d.LeadsTo path place → places place) :
    Maintains (ChangesOnly places d) (deliver Desk.system text target) := by
  cases target with
  | stream => exact maintains_print d places text
  | file path => exact maintains_appendFile text (htarget path rfl)

/-- A document is written where its destination leads. -/
theorem maintains_process (rounds : Nat) (mode : Mode) (fileId : Nat) (i : Input)
    (htarget : ∀ path, target = .file path → ∀ place, d.LeadsTo path place → places place) :
    Maintains (ChangesOnly places d) (process Desk.system rounds mode fileId i target) := by
  rw [process]
  refine maintains_bind (maintains_input places d i) fun text => ?_
  cases text with
  | error e => exact maintains_pure _
  | ok text =>
    dsimp only
    split
    · exact maintains_inspect places d mode i _
    · rw [runDocument]
      refine maintains_bind (maintains_prepare htarget) fun made => ?_
      cases made with
      | error e => exact maintains_pure _
      | ok made =>
        dsimp only
        refine maintains_bind (maintains_deliver _ htarget) fun delivered => ?_
        split
        · exact maintains_bind (maintains_pure _) fun _ =>
            maintains_bind (maintains_report places d _ _ _ _) fun _ => maintains_pure _
        · exact maintains_bind (maintains_pure _) fun _ =>
            maintains_bind (maintains_report places d _ _ _ _) fun _ => maintains_pure _

/-- A file of the plan leads to the place. -/
def Plan.Reaches (d : Desk) (plan : Plan) (place : Place) : Prop :=
  ∃ i path, (i, .file path) ∈ plan ∧ d.LeadsTo path place

theorem maintains_processAll (rounds : Nat) (mode : Mode) (fileId : Nat) (soFar : Status)
    (plan : Plan) (hplan : ∀ place, Plan.Reaches d plan place → places place) :
    Maintains (ChangesOnly places d)
      (processAll Desk.system rounds mode fileId soFar plan) := by
  induction plan generalizing fileId soFar with
  | nil => exact maintains_pure _
  | cons entry rest ih =>
    obtain ⟨i, target⟩ := entry
    have hfirst : ∀ path, target = .file path → ∀ place, d.LeadsTo path place → places place := by
      rintro path rfl place hplace
      exact hplan place ⟨i, path, List.mem_cons_self, hplace⟩
    have hrest : ∀ place, Plan.Reaches d rest place → places place := by
      rintro place ⟨j, path, hmem, hplace⟩
      exact hplan place ⟨j, path, List.mem_cons_of_mem _ hmem, hplace⟩
    refine maintains_bind (maintains_process rounds mode fileId i hfirst) fun status => ?_
    cases status with
    | error e => exact maintains_pure _
    | ok status => exact ih _ _ hrest

variable (places d) in
theorem maintains_conclude (outcome : Except Trouble Status) :
    Maintains (ChangesOnly places d) (conclude Desk.system outcome) := by
  cases outcome with
  | ok status => exact maintains_pure _
  | error e =>
    rw [conclude]
    split
    · exact maintains_bind (maintains_tell places d _) fun _ => maintains_pure _
    · refine maintains_bind (maintains_complain d places _) fun told => ?_
      cases told with
      | ok told => exact maintains_pure _
      | error refusal => exact maintains_bind (maintains_tell places d _) fun _ => maintains_pure _

end Documents

/-! ### Whole commands -/

/-- Settings are read and nothing else is done. -/
theorem load_desk (config : Option String) (d : Desk) :
    (Settings.load Desk.system config d).2 = d := by
  have hfile (path : String) : (Settings.ofFile Desk.system path d).2 = d := by
    rw [Settings.ofFile, run_state_bind, system_readFile]
    cases d.tree.read d.working path with
    | error e => rfl
    | ok text => rfl
  cases config with
  | some path => exact hfile path
  | none =>
    rw [Settings.load, run_state_bind, system_isThere]
    dsimp only
    split
    · exact hfile _
    · rfl

theorem modeOf_desk (r : Request) (settings : Settings) (d : Desk) :
    (modeOf Desk.system r settings d).2 = d := by
  rw [modeOf, run_state_bind, run_state_pure]
  cases settings.color with
  | auto => rfl
  | always => rfl
  | never => rfl

/-- The plan that a command is to be carried out by. -/
def Planned (arguments : List String) (d : Desk) (plan : Plan) : Prop :=
  ∃ r settings, read arguments = .ok r ∧ (Settings.load Desk.system r.config d).1 = .ok settings ∧
    r.check = false ∧ r.tree = false ∧
    (Plan.make Desk.system (r.inputs.map .ofArgument) r.output (r.force || settings.force) d).1 =
      .ok plan

theorem carryOut_desk (rounds : Nat) (r : Request) (d : Desk) :
    carryOut Desk.system rounds r d =
      match (Settings.load Desk.system r.config d).1 with
      | .error e => (.error (.settings e), d)
      | .ok settings =>
        match (planOf Desk.system r settings d).1 with
        | .error e => (.error (.plan e), d)
        | .ok plan =>
          processAll Desk.system rounds (modeOf Desk.system r settings d).1 0 true plan d := by
  have hload := load_desk r.config d
  rw [carryOut_eq]
  generalize Settings.load Desk.system r.config d = loaded at hload ⊢
  obtain ⟨loaded, d'⟩ := loaded
  obtain rfl : d' = d := hload
  cases loaded with
  | error e => rfl
  | ok settings =>
    have hplan : (planOf Desk.system r settings d').2 = d' := by
      rw [planOf]
      split
      · rfl
      · exact Plan.make_desk _ _ _ _
    dsimp only
    rw [modeOf_desk]
    generalize planOf Desk.system r settings d' = planned at hplan ⊢
    obtain ⟨planned, d⟩ := planned
    obtain rfl : d = d' := hplan
    cases planned with
    | error e => rfl
    | ok plan => rfl

theorem Planned.eq {arguments : List String} {d : Desk} {plan plan' : Plan}
    (h : Planned arguments d plan) (h' : Planned arguments d plan') : plan = plan' := by
  obtain ⟨r, settings, hread, hload, -, -, hmake⟩ := h
  obtain ⟨r', settings', hread', hload', -, -, hmake'⟩ := h'
  obtain rfl : r = r' := by simpa using hread.symm.trans hread'
  obtain rfl : settings = settings' := by simpa using hload.symm.trans hload'
  simpa using hmake.symm.trans hmake'

/-- Documents that are only read have no files. -/
theorem not_reaches_streams (d : Desk) (inputs : List Input) (place : Place) :
    ¬ Plan.Reaches d (inputs.map fun i => (i, .stream)) place := by
  rintro ⟨i, path, hmem, -⟩
  simp at hmem

theorem changesOnly_carryOut (rounds : Nat) {arguments : List String} {r : Request} {d : Desk}
    {places : Place → Prop} (hread : read arguments = .ok r)
    (h : ∀ plan, Planned arguments d plan → ∀ place, Plan.Reaches d plan place → places place) :
    ChangesOnly places d (carryOut Desk.system rounds r d).2 := by
  rw [carryOut_desk]
  cases hload : (Settings.load Desk.system r.config d).1 with
  | error e => exact .refl places d
  | ok settings =>
    dsimp only
    cases hplan : (planOf Desk.system r settings d).1 with
    | error e => exact .refl places d
    | ok plan =>
      have hplaces : ∀ place, Plan.Reaches d plan place → places place := by
        rw [planOf] at hplan
        by_cases hparse : (r.check || r.tree) = true
        · rw [if_pos hparse, run_state_pure, Except.ok.injEq] at hplan
          rw [← hplan]
          intro place hplace
          exact absurd hplace (not_reaches_streams d _ place)
        · rw [if_neg hparse] at hplan
          simp only [Bool.or_eq_true, not_or, Bool.not_eq_true] at hparse
          exact h plan ⟨r, settings, hread, hload, hparse.1, hparse.2, hplan⟩
      exact maintains_processAll rounds _ 0 true plan hplaces d (.refl places d)

/-- A command changes nothing but the files of its plan, if it comes to one. -/
theorem changesOnly_invoke (rounds : Nat) {arguments : List String} {d : Desk}
    {places : Place → Prop}
    (h : ∀ plan, Planned arguments d plan → ∀ place, Plan.Reaches d plan place → places place) :
    ChangesOnly places d (invoke Desk.system rounds arguments d).2 := by
  have hstart := ChangesOnly.refl places d
  cases hread : read arguments with
  | error ending =>
    rw [invoke, hread]
    cases ending with
    | usage e => exact maintains_tell places d _ d hstart
    | showing what =>
      cases what with
      | help => exact maintains_print d places _ d hstart
      | version => exact maintains_print d places _ d hstart
      | helpForNothing => exact maintains_tell places d _ d hstart
  | ok r =>
    rw [invoke_of_request _ _ hread]
    exact maintains_conclude places d _ _ (changesOnly_carryOut rounds hread h)

/-- Planning protects what is there, and a command changes only the files of its plan: none if it
has no plan, because planning is refused or because documents are only read. -/
theorem invoke_protects_files (d : Desk) :
    (∀ inputs output force plan,
      (Plan.make Desk.system inputs output force d).1 = .ok plan →
        plan.map Prod.fst = inputs ∧ (plan.map Prod.fst).count .stream ≤ 1 ∧
        ∀ i path, (i, .file path) ∈ plan →
          (∀ p, .file p ∈ inputs → ¬ ∃ place,
            d.tree.locate d.working path = .ok place ∧ d.tree.locate d.working p = .ok place) ∧
          (force = false → ¬ d.IsThere path)) ∧
    ∀ rounds arguments,
      (∀ plan, Planned arguments d plan →
        ChangesOnly (Plan.Reaches d plan) d (invoke Desk.system rounds arguments d).2) ∧
      ((∀ plan, ¬ Planned arguments d plan) →
        ChangesOnly (fun _ => False) d (invoke Desk.system rounds arguments d).2) ∧
      ∀ r, read arguments = .ok r →
        (r.check = true ∨ r.tree = true ∨ ∀ settings,
          (Settings.load Desk.system r.config d).1 = .ok settings → ∃ e, (Plan.make Desk.system
            (r.inputs.map .ofArgument) r.output (r.force || settings.force) d).1 = .error e) →
        ∀ plan, ¬ Planned arguments d plan := by
  refine ⟨?_, ?_⟩
  · intro inputs output force plan hmake
    obtain ⟨hsound, hinputs, hcount⟩ := Plan.sound_make hmake
    refine ⟨hinputs, hinputs ▸ hcount, ?_⟩
    intro i path hmem
    obtain ⟨hinput, hthere⟩ := hsound.cleared i path hmem
    refine ⟨?_, hthere⟩
    rintro p hp ⟨place, hpath, hplace⟩
    have hsame : d.SameFile p path := ⟨place, (FileTree.locate_eq_ok_iff.mp hplace).1,
      (FileTree.locate_eq_ok_iff.mp hpath).1⟩
    exact (spelled_apart_of_sameFile hsame (hinput p hp)).1 ⟨place, hplace⟩
  · intro rounds arguments
    refine ⟨?_, ?_, ?_⟩
    · intro plan hplan
      refine changesOnly_invoke rounds fun plan' hplan' place hplace => ?_
      rwa [hplan.eq hplan']
    · intro hnone
      exact changesOnly_invoke rounds fun plan hplan => absurd hplan (hnone plan)
    · rintro r hread hwhy plan ⟨r', settings, hread', hload, hcheck, htree, hmake⟩
      obtain rfl : r = r' := by simpa using hread.symm.trans hread'
      rcases hwhy with hcheck' | htree' | hrefused
      · simp [hcheck] at hcheck'
      · simp [htree] at htree'
      · obtain ⟨e, herror⟩ := hrefused settings hload
        simp [hmake] at herror

/-- Two documents, one of them with an older output, beside a folder. -/
def secondRun : Desk :=
  ⟨⟨[["out"]], [(["a.tfd"], "one\n".toUTF8), (["b.tfd"], "two\n".toUTF8),
    (["b.md"], "old\n".toUTF8)]⟩, [], "", "", []⟩

def secondPlan : Plan :=
  [(.file "a.tfd", .file "a.md"), (.file "out/../b.tfd", .file "out/../b.md")]

theorem make_secondRun :
    (Plan.make Desk.system [.file "a.tfd", .file "out/../b.tfd"] none true secondRun).1 =
      .ok secondPlan := by
  rw [← toOption_eq_some_iff]
  decide +kernel

theorem planned_secondRun : Planned ["a.tfd", "out/../b.tfd", "-f"] secondRun secondPlan := by
  refine ⟨⟨["a.tfd", "out/../b.tfd"], none, none, none, true, false, false, false⟩, .initial, ?_,
    ?_, rfl, rfl, make_secondRun⟩
  · rw [← toOption_eq_some_iff]
    decide +kernel
  · rw [← toOption_eq_some_iff]
    decide +kernel

/-- The older output is reached on a detour. It is replaced if that is asked for, and otherwise
nothing is written, not even the output that would be new. -/
theorem invoke_protects_files_of_second_run :
    (Planned ["a.tfd", "out/../b.tfd", "-f"] secondRun secondPlan ∧
      (¬ ∃ place, secondRun.tree.locate secondRun.working "out/../b.md" = .ok place ∧
        secondRun.tree.locate secondRun.working "a.tfd" = .ok place) ∧
      ChangesOnly (Plan.Reaches secondRun secondPlan) secondRun
        (invoke Desk.system 0 ["a.tfd", "out/../b.tfd", "-f"] secondRun).2 ∧
      (invoke Desk.system 0 ["a.tfd", "out/../b.tfd", "-f"] secondRun).2.tree.files.lookup
        ["b.md"] = some "two\n".toUTF8) ∧
    ChangesOnly (fun _ => False) secondRun
      (invoke Desk.system 0 ["a.tfd", "out/../b.tfd"] secondRun).2 := by
  have hread : read ["a.tfd", "out/../b.tfd"] =
      .ok ⟨["a.tfd", "out/../b.tfd"], none, none, none, false, false, false, false⟩ := by
    rw [← toOption_eq_some_iff]
    decide +kernel
  have hload : (Settings.load Desk.system none secondRun).1 = .ok .initial := by
    rw [← toOption_eq_some_iff]
    decide +kernel
  have hrefused : error? (Plan.make Desk.system [.file "a.tfd", .file "out/../b.tfd"] none false
      secondRun).1 = some (.outputExists "out/../b.md") := by
    decide +kernel
  obtain ⟨hmake, hinvoke⟩ := invoke_protects_files secondRun
  obtain ⟨-, -, hpaths⟩ := hmake _ _ _ _ make_secondRun
  obtain ⟨-, hnothing, hwhy⟩ := hinvoke 0 ["a.tfd", "out/../b.tfd"]
  refine ⟨⟨planned_secondRun, ?_, ?_, ?_⟩, hnothing (hwhy _ hread (.inr (.inr ?_)))⟩
  · exact (hpaths (.file "out/../b.tfd") "out/../b.md" (by simp [secondPlan])).1 "a.tfd" (by simp)
  · exact (hinvoke 0 ["a.tfd", "out/../b.tfd", "-f"]).1 secondPlan planned_secondRun
  · decide +kernel
  · intro settings hsettings
    obtain rfl : Settings.initial = settings := by simpa using hload.symm.trans hsettings
    exact ⟨_, error?_eq_some_iff.mp hrefused⟩

end LiveDoc.Command
