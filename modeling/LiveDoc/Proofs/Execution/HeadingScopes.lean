import LiveDoc.Proofs.Execution.GrantedRun
import LiveDoc.Proofs.Execution.Rendering
import LiveDoc.Proofs.HeadingTree
import LiveDoc.Proofs.Text.Runs

/-!
The scopes of a run are the tree of its headings. The entries of the stack stand at their levels,
so those in the way of a heading are the ones whose level is not smaller. The other ones are the
headings above it, and their titles are its path.
-/
namespace LiveDoc

namespace ScopeStack

/-! ### Levels -/

/-- Every entry stands at its level. -/
def Levelled : ScopeStack → Prop
  | [] => True
  | entry :: rest => entry.level = rest.length + 1 ∧ Levelled rest

theorem Levelled.level_le {stack : ScopeStack} (h : Levelled stack) :
    ∀ entry ∈ stack, entry.level ≤ stack.length := by
  induction stack with
  | nil => simp
  | cons entry rest ih =>
    intro other hother
    rw [List.length_cons]
    rcases List.mem_cons.mp hother with rfl | hother
    · exact Nat.le_of_eq h.1
    · exact Nat.le_succ_of_le (ih h.2 other hother)

theorem Levelled.drop {stack : ScopeStack} (h : Levelled stack) (count : Nat) :
    Levelled (stack.drop count) := by
  induction count generalizing stack with
  | zero => exact h
  | succ count ih =>
    cases stack with
    | nil => trivial
    | cons entry rest => exact ih h.2

/-- What stands in the way of a level, and what does not. -/
theorem Levelled.split {stack : ScopeStack} (h : Levelled stack) (level : Nat) :
    (∀ entry ∈ stack.take (stack.excess level), level ≤ entry.level) ∧
      ∀ entry ∈ stack.drop (stack.excess level), entry.level < level := by
  induction stack with
  | nil => simp
  | cons entry rest ih =>
    by_cases hlevel : level ≤ entry.level
    · have hexcess : excess (entry :: rest) level = excess rest level + 1 := by
        have hentry := h.1
        simp only [excess, List.length_cons]
        omega
      obtain ⟨htake, hdrop⟩ := ih h.2
      rw [hexcess, List.take_succ_cons, List.drop_succ_cons]
      exact ⟨List.forall_mem_cons.mpr ⟨hlevel, htake⟩, hdrop⟩
    · have hexcess : excess (entry :: rest) level = 0 := by
        have hentry := h.1
        simp only [excess, List.length_cons]
        omega
      rw [hexcess]
      refine ⟨by simp, ?_⟩
      intro other hother
      have hle := h.level_le other hother
      have hentry := h.1
      rw [List.length_cons] at hle
      omega

theorem Levelled.placeholders {stack : ScopeStack} (h : Levelled stack) (count : Nat) :
    Levelled (((List.range' (stack.length + 1) count).map .placeholder).reverse ++ stack) := by
  induction count with
  | zero => exact h
  | succ count ih =>
    rw [List.range'_concat, List.map_append, List.reverse_append]
    refine ⟨?_, ih⟩
    change stack.length + 1 + 1 * count = (((List.range' (stack.length + 1) count).map
      ScopeEntry.placeholder).reverse ++ stack).length + 1
    rw [List.length_append, List.length_reverse, List.length_map, List.length_range']
    omega

/-! ### Open scopes -/

/-- The scopes that are open with their handles, innermost first. -/
def opened (stack : ScopeStack) : List (Handle × Scope) :=
  stack.filterMap fun entry =>
    match entry with
    | .opened handle scope => some (handle, scope)
    | .placeholder _ => none

theorem handles_eq (stack : ScopeStack) : stack.handles = stack.opened.map Prod.fst := by
  rw [handles, opened, List.map_filterMap]
  congr 1
  funext entry
  cases entry <;> rfl

theorem scopes_eq (stack : ScopeStack) :
    stack.filterMap ScopeEntry.scope? = stack.opened.map Prod.snd := by
  rw [opened, List.map_filterMap]
  congr 1
  funext entry
  cases entry <;> rfl

theorem opened_append (a b : List ScopeEntry) :
    opened (a ++ b) = opened a ++ opened b :=
  List.filterMap_append

theorem opened_placeholders (levels : List Nat) (stack : ScopeStack) :
    opened ((levels.map ScopeEntry.placeholder).reverse ++ stack) = opened stack := by
  have hnone : opened (levels.map ScopeEntry.placeholder).reverse = [] := by
    simp [opened]
  rw [opened_append, hnone, List.nil_append]

theorem level_of_mem_opened {stack : ScopeStack} {entry : Handle × Scope}
    (h : entry ∈ stack.opened) : ∃ e ∈ stack, e.level = entry.2.level := by
  obtain ⟨e, he, heq⟩ := List.mem_filterMap.mp h
  refine ⟨e, he, ?_⟩
  cases e with
  | opened handle scope =>
    injection heq with heq
    rw [← heq]
    rfl
  | placeholder level => simp at heq

/-- The open scopes that are in the way of a level, and those that are not. -/
theorem Levelled.opened_split {stack : ScopeStack} (h : Levelled stack) (level : Nat) :
    opened (stack.take (stack.excess level)) =
        stack.opened.takeWhile (fun entry => decide (level ≤ entry.2.level)) ∧
      opened (stack.drop (stack.excess level)) =
        stack.opened.dropWhile (fun entry => decide (level ≤ entry.2.level)) := by
  obtain ⟨htake, hdrop⟩ := h.split level
  have hleft : ∀ entry ∈ opened (stack.take (stack.excess level)),
      decide (level ≤ entry.2.level) = true := by
    intro entry hentry
    obtain ⟨e, he, hlevel⟩ := level_of_mem_opened hentry
    rw [← hlevel]
    exact decide_eq_true (htake e he)
  have hright : ∀ entry ∈ (opened (stack.drop (stack.excess level))).head?,
      decide (level ≤ entry.2.level) = false := by
    intro entry hentry
    obtain ⟨e, he, hlevel⟩ := level_of_mem_opened (List.mem_of_mem_head? hentry)
    rw [← hlevel]
    exact decide_eq_false (Nat.not_le.mpr (hdrop e he))
  have hall := opened_append (stack.take (stack.excess level)) (stack.drop (stack.excess level))
  rw [List.take_append_drop] at hall
  rw [hall, Text.takeWhile_run hleft hright, Text.dropWhile_run hleft hright]
  exact ⟨rfl, rfl⟩

end ScopeStack

/-! ### Sections by their numbers -/

open HeadingTree

section Visits

variable (visits : List Visit)

def levelAt (i : Nat) : Nat := (visits[i]?.map Visit.level).getD 0

def titleAt (i : Nat) : String := (visits[i]?.map (·.part.heading.title)).getD ""

def handleAt (i : Nat) : Handle := (visits[i]?.map Visit.handle).getD 0

/-- The scope of a section: its title and level, and its path in the tree of the headings. -/
def scopeAt (i : Nat) : Scope :=
  ⟨titleAt visits i, levelAt visits i, path (levelAt visits) (titleAt visits) i⟩

/-- To enter a heading is to open the scope of its section and to run the fragments in it. -/
def enterAt (i : Nat) : List RunStep :=
  (visits[i]?.map fun v => v.body (scopeAt visits i)).getD []

/-- To leave a heading is to close the scope of its section. -/
def leaveAt (i : Nat) : List RunStep := [.closed (handleAt visits i) (.ok ())]

/-- The stack holds the scopes of a branch. -/
structure Holds (stack : ScopeStack) (branch : List Nat) : Prop where
  levelled : stack.Levelled
  opened : stack.opened = branch.map fun j => (handleAt visits j, scopeAt visits j)

variable {visits} {stack : ScopeStack} {branch : List Nat}

theorem Holds.pathOf (h : Holds visits stack branch) (hlinked : Linked (levelAt visits) branch)
    (name : String) :
    stack.pathOf name =
      (branch.head?.map (path (levelAt visits) (titleAt visits))).getD "" ++ "/" ++ name := by
  have hnames : (stack.reverse.filterMap ScopeEntry.scope?).map Scope.name =
      branch.reverse.map (titleAt visits) := by
    rw [List.filterMap_reverse, ScopeStack.scopes_eq, h.opened, List.map_map, List.map_reverse,
      List.map_map, List.map_reverse]
    rfl
  rw [ScopeStack.pathOf, hnames, List.map_append, String.join_append, join_titles hlinked,
    String.append_assoc]
  rfl

theorem closings_of_opened (h : stack.opened =
      branch.map fun j => (handleAt visits j, scopeAt visits j)) :
    closings stack = branch.flatMap (leaveAt visits) := by
  rw [closings, ScopeStack.handles_eq, h, List.map_map, List.map_map, List.map_eq_flatMap]
  rfl

/-- What is in the way of a level is closed, and the other scopes are kept. -/
theorem Holds.split (h : Holds visits stack branch) (level : Nat) :
    closings (stack.take (stack.excess level)) =
        (branch.takeWhile fun j => decide (level ≤ levelAt visits j)).flatMap (leaveAt visits) ∧
      Holds visits (stack.drop (stack.excess level))
        (branch.dropWhile fun j => decide (level ≤ levelAt visits j)) := by
  obtain ⟨htake, hdrop⟩ := h.levelled.opened_split level
  rw [h.opened, List.takeWhile_map] at htake
  rw [h.opened, List.dropWhile_map] at hdrop
  exact ⟨closings_of_opened htake, h.levelled.drop _, hdrop⟩

theorem Holds.enter {v : Visit} {i : Nat} (h : Holds visits stack branch)
    (hbranch : Branch (levelAt visits) i branch) (hv : visits[i]? = some v) (hpos : 0 < v.level) :
    v.scopeOn stack = scopeAt visits i ∧
      Holds visits (v.stackOn stack)
        (i :: branch.dropWhile fun j => decide (levelAt visits i ≤ levelAt visits j)) := by
  have hlevel : levelAt visits i = v.level := by simp [levelAt, hv]
  have htitle : titleAt visits i = v.part.heading.title := by simp [titleAt, hv]
  have hhandle : handleAt visits i = v.handle := by simp [handleAt, hv]
  obtain ⟨-, hbase⟩ := h.split v.level
  rw [hlevel]
  have hscope : v.scopeOn stack = scopeAt visits i := by
    have hparent := hbranch.parent_eq
    rw [hlevel] at hparent
    rw [Visit.scopeOn, scopeAt, path_eq, hparent, Visit.base,
      hbase.pathOf (hbranch.linked.dropWhile _), htitle, hlevel]
  refine ⟨hscope, ⟨?_, ?_⟩, ?_⟩
  · have hheight : (v.base stack).length = min stack.length (v.level - 1) := by
      rw [Visit.base, List.length_drop, ScopeStack.excess]
      omega
    change v.level = ((v.base stack).fillTo v.level).length + 1
    rw [ScopeStack.fillTo, List.length_append, List.length_reverse, List.length_map,
      List.length_range', hheight]
    omega
  · exact hbase.levelled.placeholders _
  · have hopened : (v.stackOn stack).opened =
        (v.handle, v.scopeOn stack) :: ((v.base stack).fillTo v.level).opened := rfl
    rw [hopened, ScopeStack.fillTo, ScopeStack.opened_placeholders, hscope, List.map_cons, hhandle]
    exact congrArg _ hbase.opened

/-- Sections that are entered in order, with all scopes closed at last. -/
theorem visitSteps_eq_walk {before rest : List Visit} (hvisits : visits = before ++ rest)
    (hpos : ∀ v ∈ visits, 0 < v.level) (hbranch : Branch (levelAt visits) before.length branch)
    (hholds : Holds visits stack branch) :
    visitSteps stack rest ++ closings (visitStack stack rest) =
      walk (levelAt visits) (enterAt visits) (leaveAt visits) branch
        (List.range' before.length rest.length) := by
  induction rest generalizing before stack branch with
  | nil => exact closings_of_opened hholds.opened
  | cons v rest ih =>
    have hv : visits[before.length]? = some v := by simp [hvisits]
    have hlevel : levelAt visits before.length = v.level := by simp [levelAt, hv]
    obtain ⟨hscope, hnext⟩ := hholds.enter hbranch hv (hpos v (by simp [hvisits]))
    have hvisits' : visits = before ++ [v] ++ rest := by simp [hvisits]
    have hlength : (before ++ [v]).length = before.length + 1 := by simp
    have hbranch' := hbranch.succ
    rw [← hlength] at hbranch'
    have hrest := ih hvisits' hbranch' hnext
    have hsteps : v.steps stack =
        (branch.takeWhile fun j => decide (levelAt visits before.length ≤ levelAt visits j)).flatMap
          (leaveAt visits) ++ enterAt visits before.length := by
      have henter : enterAt visits before.length = v.body (scopeAt visits before.length) := by
        simp [enterAt, hv]
      rw [Visit.steps, hscope, (hholds.split v.level).1, henter, hlevel]
    rw [hlength] at hrest
    calc visitSteps stack (v :: rest) ++ closings (visitStack stack (v :: rest))
        = v.steps stack ++
            (visitSteps (v.stackOn stack) rest ++ closings (visitStack (v.stackOn stack) rest)) :=
          List.append_assoc _ _ _
      _ = _ := by rw [hrest, hsteps, List.length_cons, List.range'_succ, walk]

end Visits

/-! ### The whole run -/

/-- The scopes of a run in which no scope is refused, and the fragments in them. Behind the header
and the content before the first heading, the trace is the tour of the tree of the headings. Level
zero is that of the document, and no heading that is read has it. -/
theorem execute_tours_headings (source : Source) {σ : Type} (h : Host σ) (run : Runner σ)
    (d : Document) (hlevels : ∀ part ∈ d.sections, 0 < part.heading.level) (m : Machine σ)
    (hgranted : Granted (executeTraced source h run d m).2.host.steps) :
    let traced := executeTraced source h run d m
    execute source h run d m = (traced.1, ⟨traced.2.environment, traced.2.host.inner⟩) ∧
      (∃ (front : List (Handle × Entry)) (intro : List Entry) (visits : List Visit),
        front.map (·.2.1) = d.header.toList.map (fun header => .ofText source (.header header)) ∧
        intro.map Prod.fst <+: d.intro.map (.ofContent source) ∧
        visits.map Visit.part <+: d.sections ∧
        (∀ v ∈ visits, v.entries.map Prod.fst <+: v.part.children.map (.ofContent source)) ∧
        ((∃ counts, traced.1 = .ok counts) → visits.map Visit.part = d.sections) ∧
        traced.2.host.steps =
          front.flatMap headerSteps ++ intro.flatMap (Entry.steps ⟨source.name, 0, "/"⟩) ++
            tour (levelAt visits) visits.length (enterAt visits) (leaveAt visits) ++
            fatalSteps traced.1) ∧
      ∀ u ∈ d.units source,
        u.name = "<" ++ source.name ++ ":" ++
          (source.lineNumber u.origin.span.start).repr ++ ">" := by
  intro traced
  obtain ⟨planned, c, hthrough, hsteps, hresult⟩ :=
    executeTraced_of_granted source h run d hlevels m hgranted
  refine ⟨execute_eq_traced source h run d m, ⟨c.front, c.intro, c.visits, hthrough.front,
    hthrough.intro, hthrough.parts, hthrough.content, ?_, ?_⟩, ?_⟩
  · rintro ⟨counts, hok⟩
    exact hthrough.all ((hresult counts).mp hok).1
  · have hpos : ∀ v ∈ c.visits, 0 < v.level := by
      intro v hv
      exact hlevels v.part (hthrough.parts.subset (List.mem_map_of_mem hv))
    have hholds : Holds c.visits [] [] := ⟨trivial, rfl⟩
    have hwalk := visitSteps_eq_walk (List.nil_append c.visits).symm hpos branch_nil hholds
    rw [List.length_nil, ← List.range_eq_range', walk_eq_tour] at hwalk
    rw [hsteps, Course.steps, hwalk]
    rfl
  · intro u hu
    rcases List.mem_append.mp hu with hheader | hcontent
    · obtain ⟨header, -, rfl⟩ := List.mem_map.mp hheader
      rfl
    · obtain ⟨content, -, rfl⟩ := List.mem_map.mp hcontent
      cases content <;> rfl

/-- A header, content before the first heading, and headings that leave levels out. -/
def jumpingHeadings : Source :=
  ⟨"d", "---\n---\na\n#### A\n## B\n# C\n### D\nb\n## E\n", 0⟩

/-- The fragments bind the names of their scope and of their place to something else. -/
def rebinding : Runner Recorder := fun _ m =>
  .ok () { m with environment := (m.environment.set "self" (.str "")).set "__file__" (.str "") }

/-- A scope that is opened, or one that is closed. -/
def RunStep.move? : RunStep → Option (Bool × Handle)
  | opened _ _ (.ok handle) => some (true, handle)
  | closed handle _ => some (false, handle)
  | _ => none

/-- The heading of level two closes the one of level four. The last heading closes the one of level
three only, and with the end of the run the two scopes around it are closed. -/
theorem execute_tours_headings_of_jumps : ∃ d,
    Document.parse jumpingHeadings.text.toList = .ok d ∧
    (∀ part ∈ d.sections, 0 < part.heading.level) ∧
    (let traced := executeTraced jumpingHeadings (Recorder.host ⟨[], [], [], []⟩) rebinding d
        ⟨.initial, .initial⟩
      let steps := traced.2.host.steps
      Granted steps ∧
      (∃ (front : List (Handle × Entry)) (intro : List Entry) (visits : List Visit),
        visits.map Visit.part = d.sections ∧
        steps = front.flatMap headerSteps ++ intro.flatMap (Entry.steps ⟨"d", 0, "/"⟩) ++
          tour (levelAt visits) visits.length (enterAt visits) (leaveAt visits)) ∧
      steps.filterMap RunStep.move? = [(true, 1), (false, 1), (true, 2), (false, 2), (true, 3),
        (false, 3), (true, 4), (true, 5), (false, 5), (true, 6), (false, 6), (false, 4)]) := by
  have hrun : ((Document.parse jumpingHeadings.text.toList).toOption.map fun d =>
      let traced := executeTraced jumpingHeadings (Recorder.host ⟨[], [], [], []⟩) rebinding d
        ⟨.initial, .initial⟩
      (d.sections.all (0 < ·.heading.level), traced.2.host.steps.all RunStep.granted,
        traced.1.toOption, traced.2.host.steps.filterMap RunStep.move?)) =
      some (true, true, some ⟨3, 0, 5, 0⟩, [(true, 1), (false, 1), (true, 2), (false, 2), (true, 3),
        (false, 3), (true, 4), (true, 5), (false, 5), (true, 6), (false, 6), (false, 4)]) := by
    decide +kernel
  obtain ⟨d, hparse, hrun⟩ := Outcome.map_toOption_eq_some_iff.mp hrun
  simp only [Prod.mk.injEq, List.all_eq_true, decide_eq_true_eq,
    Outcome.toOption_eq_some_iff] at hrun
  obtain ⟨hlevels, hgranted, hcounts, hmoves⟩ := hrun
  obtain ⟨-, ⟨front, intro, visits, -, -, -, -, hall, hsteps⟩, -⟩ := execute_tours_headings
    jumpingHeadings (Recorder.host ⟨[], [], [], []⟩) rebinding d hlevels ⟨.initial, .initial⟩
    hgranted
  rw [hcounts, fatalSteps, List.append_nil] at hsteps
  exact ⟨d, hparse, hlevels, hgranted, ⟨front, intro, visits, hall ⟨_, hcounts⟩, hsteps⟩, hmoves⟩

end LiveDoc
