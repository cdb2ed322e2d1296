import LiveDoc.Command.OutputPlan
import LiveDoc.Proofs.Files.Desk

/-!
What a plan makes sure of. It has the inputs in their order, and the stream of input at most once.
No file of it seems to be an input, no two of its files seem to be the same, and none is there
unless it may be overwritten: each path is compared with all inputs and with the files planned
before it. Planning only looks at files and folders and changes nothing.
-/
namespace LiveDoc.Command

open Outcome

/-- How the planning compares two paths. -/
def seemSame (d : Desk) (p q : String) : Bool :=
  match d.canonical? p, d.canonical? q with
  | some a, some b => Path.sameSpelling a b
  | _, _ => Path.sameSpelling p q

def Input.seemsAt (d : Desk) (path : String) : Input → Bool
  | stream => false
  | file p => seemSame d p path

def Destination.seemsAt (d : Desk) (path : String) : Destination → Bool
  | stream => false
  | file p => seemSame d p path

/-- Two paths to one file are told apart only where nothing is, and by their spelling. -/
theorem spelled_apart_of_sameFile {d : Desk} {p q : String} (hsame : d.SameFile p q)
    (h : seemSame d p q = false) : ¬ d.IsThere p ∧ Path.sameSpelling p q = false := by
  rcases Desk.locate_of_sameFile hsame with ⟨place, hp, hq⟩ | ⟨hp, hq⟩
  · rw [seemSame, Desk.canonical?_eq, Desk.canonical?_eq, hp, hq] at h
    simp [Except.toOption, Path.sameSpelling] at h
  · rw [seemSame, Desk.canonical?_eq_none hp] at h
    exact ⟨hp, h⟩

namespace Plan

/-! ### The inputs of a plan -/

section Inputs

variable {σ : Type} {sys : System (StateM σ)} {inputs rest : List Input}
  {output : Option String} {force : Bool} {planned plan : Plan} {s : σ}

/-- On any system the inputs are planned in their order, each once. -/
theorem map_fst_extend (h : (extend sys inputs output force planned rest s).1 = .ok plan) :
    plan.map Prod.fst = planned.map Prod.fst ++ rest := by
  induction rest generalizing planned s with
  | nil =>
    have hplan : planned = plan := by simpa [extend, run_state_pure] using h
    rw [hplan, List.append_nil]
  | cons i rest ih =>
    rw [extend, run_state_bind] at h
    generalize destination sys inputs.length output i s = chosen at h
    obtain ⟨chosen, s⟩ := chosen
    cases chosen with
    | error e => cases h
    | ok target =>
      cases target with
      | stream => simpa using ih h
      | file path =>
        dsimp only at h
        rw [run_state_bind] at h
        generalize obstacle sys inputs force planned path s = found at h
        obtain ⟨found, s⟩ := found
        cases found with
        | some e => cases h
        | none => simpa using ih h

theorem map_fst_make (h : (make sys inputs output force s).1 = .ok plan) :
    plan.map Prod.fst = inputs := by
  rw [make] at h
  split at h
  · cases h
  · exact map_fst_extend h

end Inputs

/-! ### The planning on a desk -/

theorem sameFile_desk (p q : String) (d : Desk) :
    sameFile Desk.system p q d = (seemSame d p q, d) := by
  rw [sameFile, run_state_bind, run_state_bind, Desk.system_canonical?, Desk.system_canonical?,
    seemSame]
  dsimp only
  cases d.canonical? p with
  | none => rfl
  | some a =>
    cases d.canonical? q with
    | none => rfl
    | some b => rfl

theorem isInput_desk (path : String) (inputs : List Input) (d : Desk) :
    isInput Desk.system path inputs d = (inputs.any (Input.seemsAt d path), d) := by
  induction inputs with
  | nil => rfl
  | cons i rest ih =>
    cases i with
    | stream => simpa [isInput, Input.seemsAt] using ih
    | file p =>
      rw [isInput, run_state_bind, sameFile_desk]
      cases h : seemSame d p path with
      | true => simp [Input.seemsAt, h, run_state_pure]
      | false => simpa [Input.seemsAt, h] using ih

theorem isPlanned_desk (path : String) (planned : Plan) (d : Desk) :
    isPlanned Desk.system path planned d =
      (planned.any fun entry => entry.2.seemsAt d path, d) := by
  induction planned with
  | nil => rfl
  | cons entry rest ih =>
    obtain ⟨i, target⟩ := entry
    cases target with
    | stream => simpa [isPlanned, Destination.seemsAt] using ih
    | file p =>
      rw [isPlanned, run_state_bind, sameFile_desk]
      cases h : seemSame d p path with
      | true => simp [Destination.seemsAt, h, run_state_pure]
      | false => simpa [Destination.seemsAt, h] using ih

theorem obstacle_desk (inputs : List Input) (force : Bool) (planned : Plan) (path : String)
    (d : Desk) :
    obstacle Desk.system inputs force planned path d =
      (if inputs.any (Input.seemsAt d path) then some (.inputOverwritten path)
        else if planned.any fun entry => entry.2.seemsAt d path then some (.sharedOutput path)
        else if ! force && (d.tree.locate d.working path).isOk then some (.outputExists path)
        else none, d) := by
  rw [obstacle, run_state_bind, isInput_desk]
  dsimp only
  split
  · rfl
  · rw [run_state_bind, isPlanned_desk]
    dsimp only
    split
    · rfl
    · cases force with
      | true => rfl
      | false =>
        rw [run_state_bind, Desk.system_isThere]
        cases (d.tree.locate d.working path).isOk with
        | true => rfl
        | false => rfl

/-- Where an output goes depends on the folders, which are only looked at. -/
theorem destination_desk (count : Nat) (output : Option String) (i : Input) (d : Desk) :
    (destination Desk.system count output i d).2 = d := by
  cases output with
  | none =>
    cases i with
    | stream => rfl
    | file path => rfl
  | some target =>
    rw [destination]
    split
    · rfl
    · split
      · rfl
      · rw [run_state_bind]
        split
        · rfl
        · split
          · rfl
          · rfl

/-! ### What planning makes sure of -/

/-- A path that may be written: it seems to be that of no input, and nothing is there unless it may
be overwritten. -/
structure Cleared (d : Desk) (inputs : List Input) (force : Bool) (path : String) : Prop where
  input : ∀ p, .file p ∈ inputs → seemSame d p path = false
  there : force = false → ¬ d.IsThere path

def SeemApart (d : Desk) (a b : Input × Destination) : Prop :=
  ∀ p q, a.2 = .file p → b.2 = .file q → seemSame d p q = false

/-- What is planned so far. -/
structure Sound (d : Desk) (inputs : List Input) (force : Bool) (planned : Plan) : Prop where
  cleared : ∀ i path, (i, .file path) ∈ planned → Cleared d inputs force path
  apart : planned.Pairwise (SeemApart d)

variable {d : Desk} {inputs : List Input} {force : Bool} {planned : Plan} {path : String}

theorem obstacle_eq_none (h : (obstacle Desk.system inputs force planned path d).1 = none) :
    Cleared d inputs force path ∧
      ∀ i p, (i, .file p) ∈ planned → seemSame d p path = false := by
  rw [obstacle_desk] at h
  dsimp only at h
  split at h
  · simp at h
  · rename_i hinput
    split at h
    · simp at h
    · rename_i hplanned
      split at h
      · simp at h
      · rename_i hthere
        simp only [Bool.not_eq_true, List.any_eq_false] at hinput hplanned
        refine ⟨⟨?_, ?_⟩, ?_⟩
        · intro p hp
          simpa [Input.seemsAt] using hinput _ hp
        · rintro rfl ⟨place, hplace⟩
          simp [hplace, Except.isOk, Except.toBool] at hthere
        · intro i p hp
          simpa [Destination.seemsAt] using hplanned _ hp

theorem Sound.stream (h : Sound d inputs force planned) (i : Input) :
    Sound d inputs force (planned ++ [(i, .stream)]) where
  cleared j path hmem := by
    rcases List.mem_append.mp hmem with hold | hnew
    · exact h.cleared j path hold
    · simp at hnew
  apart := by
    refine List.pairwise_append.mpr ⟨h.apart, List.pairwise_singleton _ _, ?_⟩
    intro a ha b hb p q hp hq
    rw [List.mem_singleton.mp hb] at hq
    simp at hq

theorem Sound.file (h : Sound d inputs force planned) (i : Input)
    (hclear : (obstacle Desk.system inputs force planned path d).1 = none) :
    Sound d inputs force (planned ++ [(i, .file path)]) := by
  obtain ⟨hcleared, hplanned⟩ := obstacle_eq_none hclear
  refine ⟨?_, ?_⟩
  · intro j p hmem
    rcases List.mem_append.mp hmem with hold | hnew
    · exact h.cleared j p hold
    · simp only [List.mem_singleton, Prod.mk.injEq, Destination.file.injEq] at hnew
      rw [hnew.2]
      exact hcleared
  · refine List.pairwise_append.mpr ⟨h.apart, List.pairwise_singleton _ _, ?_⟩
    rintro ⟨j, target⟩ ha b hb p q rfl hq
    rw [List.mem_singleton.mp hb] at hq
    injection hq with hq
    subst hq
    exact hplanned j p ha

/-- One input is planned, and then the others. -/
theorem extend_cons (output : Option String) (i : Input) (rest : List Input) (d : Desk) :
    extend Desk.system inputs output force planned (i :: rest) d =
      match (destination Desk.system inputs.length output i d).1 with
      | .error e => (.error e, d)
      | .ok .stream => extend Desk.system inputs output force (planned ++ [(i, .stream)]) rest d
      | .ok (.file path) =>
        match (obstacle Desk.system inputs force planned path d).1 with
        | some e => (.error e, d)
        | none =>
          extend Desk.system inputs output force (planned ++ [(i, .file path)]) rest d := by
  rw [extend, run_state_bind, destination_desk]
  cases (destination Desk.system inputs.length output i d).1 with
  | error e => rfl
  | ok target =>
    cases target with
    | stream => rfl
    | file path =>
      have hkept : (obstacle Desk.system inputs force planned path d).2 = d :=
        congrArg Prod.snd (obstacle_desk inputs force planned path d)
      dsimp only
      rw [run_state_bind, hkept]
      cases (obstacle Desk.system inputs force planned path d).1 with
      | none => rfl
      | some e => rfl

theorem extend_desk (output : Option String) (rest : List Input) (d : Desk) (planned : Plan) :
    (extend Desk.system inputs output force planned rest d).2 = d := by
  induction rest generalizing planned with
  | nil => rfl
  | cons i rest ih =>
    rw [extend_cons]
    split
    · rfl
    · exact ih _
    · split
      · rfl
      · exact ih _

theorem sound_extend {output : Option String} {rest : List Input} {plan : Plan}
    (hplanned : Sound d inputs force planned)
    (h : (extend Desk.system inputs output force planned rest d).1 = .ok plan) :
    Sound d inputs force plan := by
  induction rest generalizing planned with
  | nil =>
    have hplan : planned = plan := by simpa [extend, run_state_pure] using h
    exact hplan ▸ hplanned
  | cons i rest ih =>
    rw [extend_cons] at h
    split at h
    · simp at h
    · exact ih (hplanned.stream i) h
    · split at h
      · simp at h
      · rename_i hclear
        exact ih (hplanned.file i hclear) h

theorem make_desk (inputs : List Input) (output : Option String) (force : Bool) (d : Desk) :
    (make Desk.system inputs output force d).2 = d := by
  rw [make]
  split
  · rfl
  · exact extend_desk output inputs d []

theorem sound_make {output : Option String} {plan : Plan}
    (h : (make Desk.system inputs output force d).1 = .ok plan) :
    Sound d inputs force plan ∧ plan.map Prod.fst = inputs ∧ inputs.count .stream ≤ 1 := by
  have hinputs := map_fst_make h
  rw [make] at h
  split at h
  · simp [run_state_pure] at h
  · rename_i hcount
    exact ⟨sound_extend ⟨by simp, .nil⟩ h, hinputs, Nat.le_of_not_lt hcount⟩

end Plan

end LiveDoc.Command
