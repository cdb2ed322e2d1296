import LiveDoc.Proofs.Evaluation.Operators
import LiveDoc.Proofs.Evaluation.Sequencing

/-!
Where a loop may be left. In what is read as a fragment each `break` and each `continue` stands in a
loop, so none of them leaves the fragment. A program therefore ends without a failure just in case
each of its statements has been run to its own end, one behind the other.
-/
namespace LiveDoc

open Fragment Outcome

namespace Fragment

def Action.leavesLoop : Action → Bool
  | .breakLoop => true
  | .continueLoop => true
  | _ => false

def Action.isLoop : Action → Bool
  | .forEach _ _ _ => true
  | .whileTrue _ _ => true
  | _ => false

/-- The statement stands in a block with the statements `around` it, the outermost one first. A loop
around it has it in its body. -/
inductive StandsIn (s : Stmt) : List Stmt → List Stmt → Prop where
  | here {block : List Stmt} : s ∈ block → StandsIn s [] block
  | deeper {outer : Stmt} {inner around block : List Stmt} :
      outer ∈ block → inner ∈ outer.blocks → StandsIn s around inner →
        StandsIn s (outer :: around) block

variable {s : Stmt} {around block : List Stmt}

theorem WholeBlock.mem (h : WholeBlock block) (hs : s ∈ block) : s.Whole := by
  induction block with
  | nil => simp at hs
  | cons first rest ih =>
    rcases List.mem_cons.mp hs with rfl | hs
    · exact h.1
    · exact ih h.2 hs

theorem WholeBranches.mem {branches : List (Expr × List Stmt)} (h : WholeBranches branches)
    {branch : Expr × List Stmt} (hbranch : branch ∈ branches) : WholeBlock branch.2 := by
  induction branches with
  | nil => simp at hbranch
  | cons first rest ih =>
    rcases List.mem_cons.mp hbranch with rfl | hbranch
    · exact h.1
    · exact ih h.2 hbranch

/-- Outside of loops, the blocks of a whole statement are whole. -/
theorem Stmt.Whole.blocks (h : s.Whole) (hloop : s.action.isLoop = false) :
    ∀ inner ∈ s.blocks, WholeBlock inner := by
  obtain ⟨line, action⟩ := s
  intro inner hinner
  cases action with
  | choose branches otherwise =>
    rcases List.mem_append.mp hinner with hinner | hinner
    · obtain ⟨branch, hbranch, rfl⟩ := List.mem_map.mp hinner
      exact h.1.mem hbranch
    · rw [List.mem_singleton.mp hinner]
      exact h.2
  | forEach name items body => cases hloop
  | whileTrue condition body => cases hloop
  | _ => simp [Stmt.blocks, Stmt.action, Action.blocks] at hinner

theorem Stmt.Whole.not_leavesLoop (h : s.Whole) : s.action.leavesLoop = false := by
  obtain ⟨line, action⟩ := s
  cases action with
  | breakLoop => exact h.elim
  | continueLoop => exact h.elim
  | _ => rfl

theorem StandsIn.exists_loop (h : StandsIn s around block) (hwhole : WholeBlock block)
    (hexit : s.action.leavesLoop = true) : ∃ loop ∈ around, loop.action.isLoop = true := by
  induction h with
  | here hs =>
    rw [(hwhole.mem hs).not_leavesLoop] at hexit
    cases hexit
  | @deeper outer inner around block houter hinner _ ih =>
    cases hloop : outer.action.isLoop with
    | true => exact ⟨outer, List.mem_cons_self, hloop⟩
    | false =>
      have hblock := (hwhole.mem houter).blocks hloop inner hinner
      obtain ⟨loop, hmem, hisLoop⟩ := ih hblock
      exact ⟨loop, List.mem_cons_of_mem outer hmem, hisLoop⟩

end Fragment

/-! ### Runs -/

variable {σ : Type} {h : Host σ} {rounds : Nat} {m m' : Machine σ} {block : List Stmt}

/-- The statements are run in order, each of them once and to its end, and each begins where the one
before it has ended. -/
inductive RunsInOrder (h : Host σ) (rounds : Nat) :
    List Stmt → Machine σ → Machine σ → Prop where
  | nil {m : Machine σ} : RunsInOrder h rounds [] m m
  | cons {s : Stmt} {rest : List Stmt} {m mid m' : Machine σ} :
      s.run h rounds m = .ok .normal mid → RunsInOrder h rounds rest mid m' →
        RunsInOrder h rounds (s :: rest) m m'

theorem RunsInOrder.runBlock_eq (hrun : RunsInOrder h rounds block m m') :
    runBlock h rounds block m = .ok .normal m' := by
  induction hrun with
  | nil => rfl
  | cons hs _ ih =>
    rw [runBlock, run_bind_of_ok hs]
    exact ih

theorem runsInOrder_of_runBlock (hwhole : WholeBlock block) {flow : Flow}
    (hrun : runBlock h rounds block m = .ok flow m') : RunsInOrder h rounds block m m' := by
  induction block generalizing m with
  | nil =>
    cases hrun
    exact .nil
  | cons s rest ih =>
    rw [runBlock] at hrun
    obtain ⟨step, mid, hs, hrest⟩ := run_bind_eq_ok_iff.mp hrun
    cases normal_of_stmt s hwhole.1 hs
    exact .cons hs (ih hwhole.2 hrest)

theorem runProgram_eq_ok_iff {program : Program} :
    runProgram h rounds program m = .ok () m' ↔
      ∃ flow, runBlock h rounds program m = .ok flow m' := by
  rw [runProgram]
  cases runBlock h rounds program m with
  | ok flow m'' => simp
  | error i m'' => simp

/-- In what is read as a fragment every `break` and `continue` has a loop around it. Its statements
never end with one of these, and the program ends without a failure if and only if all of them have
been run in order. -/
theorem loopExits_stay_inside {code : List Char} {program : Program}
    (hparse : parseProgram code = .ok program) :
    (∀ s around, StandsIn s around program → s.action.leavesLoop = true →
      ∃ loop ∈ around, loop.action.isLoop = true) ∧
      ∀ (σ : Type) (h : Host σ) (rounds : Nat) (m m' : Machine σ),
        (∀ flow, runBlock h rounds program m = .ok flow m' → flow = .normal) ∧
          (runProgram h rounds program m = .ok () m' ↔ RunsInOrder h rounds program m m') := by
  have hwhole := whole_of_parseProgram hparse
  refine ⟨fun s around hs => hs.exists_loop hwhole, fun σ h rounds m m' => ⟨?_, ?_⟩⟩
  · intro flow hrun
    exact normal_of_block program hwhole hrun
  · rw [runProgram_eq_ok_iff]
    constructor
    · rintro ⟨flow, hrun⟩
      exact runsInOrder_of_runBlock hwhole hrun
    · intro hrun
      exact ⟨.normal, hrun.runBlock_eq⟩

/-- Loops that are left from a block of their own, from a line of their own and from a loop
inside. -/
def exitLines : List Char :=
  "for x in [1, 2, 3]:\n  while True:\n    break\n  if x == 2: break\n  continue\ny = x\n".toList

theorem exitLines_stay_inside :
    ∃ program m', parseProgram exitLines = .ok program ∧
      (∀ s around, StandsIn s around program → s.action.leavesLoop = true →
        ∃ loop ∈ around, loop.action.isLoop = true) ∧
      runProgram grantingRecorder 2 program ⟨.initial, .initial⟩ = .ok () m' ∧
      RunsInOrder grantingRecorder 2 program ⟨.initial, .initial⟩ m' ∧
      (m'.environment.get? "y").map Value.repr = some "2" := by
  have hends : (parseProgram exitLines).toOption.map (fun program =>
      let result := runProgram grantingRecorder 2 program ⟨.initial, .initial⟩
      ((resultOf result).isOk, ((stateOf result).environment.get? "y").map Value.repr)) =
      some (true, some "2") := by
    decide +kernel
  obtain ⟨program, hparse, hparts⟩ := map_toOption_eq_some_iff.mp hends
  obtain ⟨hok, hvalue⟩ := Prod.mk.inj hparts
  obtain ⟨hloops, hruns⟩ := loopExits_stay_inside hparse
  cases hrun : runProgram grantingRecorder 2 program ⟨.initial, .initial⟩ with
  | error stop m' =>
    rw [hrun] at hok
    cases hok
  | ok u m' =>
    rw [hrun] at hvalue
    exact ⟨program, m', hparse, hloops, hrun, (hruns _ _ _ _ m').2.mp hrun, hvalue⟩

end LiveDoc
