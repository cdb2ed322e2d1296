import LiveDoc.Proofs.Document.Lossless
import LiveDoc.Proofs.Execution.GrantedRun
import LiveDoc.Proofs.Execution.Rendering

/-!
Which fragments a run dispatches. The trace tells them in order, each with its end. In each part
of the document they are the first ones, up to one whose failure is answered by leaving out the
rest of the part; and the whole run ends with the first one whose failure is answered by a halt.
So none is run twice, none is run in another place, and the counts are those of the trace.
-/
namespace LiveDoc

/-! ### Reading the trace -/

/-- How a fragment has ended, by the steps behind its end. -/
def endOf : Option FragmentStop → List RunStep → UnitEnd
  | none, _ => .passed
  | some _, .reported e action :: _ => .answered e action
  | some stop, _ => .broken stop

/-- The fragments of a trace in order, each with how it has ended. -/
def unitEnds : List RunStep → List Entry
  | [] => []
  | .started record :: .ended stop :: rest => (record.unit, endOf stop rest) :: unitEnds rest
  | _ :: rest => unitEnds rest

def RunStep.isReport : RunStep → Bool
  | reported .. => true
  | _ => false

/-- No answer stands in front. -/
def Quiet : List RunStep → Prop
  | .reported .. :: _ => False
  | _ => True

theorem endOf_of_quiet {rest : List RunStep} (h : Quiet rest) (stop : FragmentStop) :
    endOf (some stop) rest = .broken stop := by
  match rest, h with
  | [], _ => rfl
  | .opened .. :: _, _ => rfl
  | .closed .. :: _, _ => rfl
  | .started _ :: _, _ => rfl
  | .ended _ :: _, _ => rfl
  | .fatal _ :: _, _ => rfl

theorem unitEnds_entry (scope : Scope) (entry : Entry) {rest : List RunStep} (h : Quiet rest) :
    unitEnds (Entry.steps scope entry ++ rest) = entry :: unitEnds rest := by
  obtain ⟨u, last⟩ := entry
  cases last with
  | passed => rfl
  | answered e action => rfl
  | broken stop =>
    have hend := endOf_of_quiet h stop
    simp [Entry.steps, UnitEnd.steps, unitEnds, hend]

theorem quiet_entries (scope : Scope) (entries : List Entry) {rest : List RunStep}
    (h : Quiet rest) : Quiet (entries.flatMap (Entry.steps scope) ++ rest) := by
  cases entries with
  | nil => exact h
  | cons entry more =>
    obtain ⟨u, last⟩ := entry
    cases last <;> trivial

theorem unitEnds_entries (scope : Scope) (entries : List Entry) {rest : List RunStep}
    (h : Quiet rest) :
    unitEnds (entries.flatMap (Entry.steps scope) ++ rest) = entries ++ unitEnds rest := by
  induction entries with
  | nil => rfl
  | cons entry more ih =>
    rw [List.flatMap_cons, List.append_assoc,
      unitEnds_entry scope entry (quiet_entries scope more h), ih, List.cons_append]

theorem quiet_closings (stack : ScopeStack) {rest : List RunStep} (h : Quiet rest) :
    Quiet (closings stack ++ rest) := by
  rw [closings]
  cases stack.handles with
  | nil => exact h
  | cons handle more => trivial

theorem unitEnds_closings (stack : ScopeStack) (rest : List RunStep) :
    unitEnds (closings stack ++ rest) = unitEnds rest := by
  rw [closings]
  induction stack.handles with
  | nil => rfl
  | cons handle more ih => exact ih

theorem quiet_visits (stack : ScopeStack) (visits : List Visit) {rest : List RunStep}
    (h : Quiet rest) : Quiet (visitSteps stack visits ++ rest) := by
  cases visits with
  | nil => exact h
  | cons v more =>
    rw [visitSteps, Visit.steps, List.append_assoc, List.append_assoc]
    exact quiet_closings _ trivial

theorem unitEnds_visits (stack : ScopeStack) (visits : List Visit) {rest : List RunStep}
    (h : Quiet rest) :
    unitEnds (visitSteps stack visits ++ rest) =
      visits.flatMap Visit.entries ++ unitEnds rest := by
  induction visits generalizing stack with
  | nil => rfl
  | cons v more ih =>
    rw [visitSteps, Visit.steps, List.append_assoc, List.append_assoc, unitEnds_closings,
      Visit.body, List.cons_append]
    change unitEnds (v.entries.flatMap (Entry.steps (v.scopeOn stack)) ++ _) = _
    rw [unitEnds_entries _ _ (quiet_visits _ more h), ih, List.flatMap_cons, List.append_assoc]

theorem quiet_fatal (result : RunResult) : Quiet (fatalSteps result) := by
  cases result with
  | ok counts => trivial
  | error e =>
    rw [fatalSteps]
    split <;> trivial

theorem unitEnds_fatal (result : RunResult) : unitEnds (fatalSteps result) = [] := by
  cases result with
  | ok counts => rfl
  | error e =>
    rw [fatalSteps]
    split <;> rfl

theorem unitEnds_front (front : List (Handle × Entry)) (rest : List RunStep) :
    unitEnds (front.flatMap headerSteps ++ rest) =
      front.map Prod.snd ++ unitEnds rest := by
  induction front with
  | nil => rfl
  | cons f more ih =>
    have hclosed (more : List RunStep) : Quiet (.closed f.1 (.ok ()) :: more) := trivial
    rw [List.flatMap_cons, headerSteps, List.append_assoc, List.cons_append, List.append_assoc,
      List.singleton_append]
    change unitEnds (Entry.steps Run.headerScope f.2 ++ _) = _
    rw [unitEnds_entry _ _ (hclosed _)]
    change f.2 :: unitEnds (more.flatMap headerSteps ++ rest) = _
    rw [ih, List.map_cons, List.cons_append]

/-- The trace of a run tells the fragments that it has come through. -/
theorem unitEnds_course (source : Source) (c : Course) (result : RunResult) :
    unitEnds (c.steps source ++ fatalSteps result) = c.entries := by
  have hend : Quiet (closings (visitStack [] c.visits) ++ fatalSteps result) :=
    quiet_closings _ (quiet_fatal result)
  have hvisits : Quiet (visitSteps [] c.visits ++
      (closings (visitStack [] c.visits) ++ fatalSteps result)) := quiet_visits _ _ hend
  simp only [Course.steps, List.append_assoc]
  rw [unitEnds_front, unitEnds_entries _ _ hvisits,
    unitEnds_visits _ _ hend, unitEnds_closings, unitEnds_fatal, Course.entries, List.append_nil,
    List.append_assoc]

/-! ### Counting failures -/

theorem countP_entries (scope : Scope) (entries : List Entry) :
    (entries.flatMap (Entry.steps scope)).countP RunStep.isReport =
      entries.countP (·.2.isAnswered) := by
  induction entries with
  | nil => rfl
  | cons entry more ih =>
    obtain ⟨u, last⟩ := entry
    rw [List.flatMap_cons, List.countP_append, ih, List.countP_cons, Nat.add_comm]
    cases last <;> rfl

theorem countP_closings (stack : ScopeStack) :
    (closings stack).countP RunStep.isReport = 0 := by
  rw [closings, List.countP_map, List.countP_eq_zero]
  intro handle _
  simp [RunStep.isReport]

theorem countP_visits (stack : ScopeStack) (visits : List Visit) :
    (visitSteps stack visits).countP RunStep.isReport =
      (visits.flatMap Visit.entries).countP (·.2.isAnswered) := by
  induction visits generalizing stack with
  | nil => rfl
  | cons v more ih =>
    rw [visitSteps, List.countP_append, ih, List.flatMap_cons, List.countP_append, Visit.steps,
      List.countP_append, countP_closings, Visit.body,
      List.countP_cons_of_neg Bool.false_ne_true, countP_entries, Nat.zero_add]

/-- Every failure that is answered has been reported, and no other one. -/
theorem countP_course (source : Source) (c : Course) :
    (c.steps source).countP RunStep.isReport = c.entries.countP (·.2.isAnswered) := by
  have hfront : (c.front.flatMap headerSteps).countP RunStep.isReport =
      (c.front.map Prod.snd).countP (·.2.isAnswered) := by
    induction c.front with
    | nil => rfl
    | cons f more ih =>
      have hentry := countP_entries Run.headerScope [f.2]
      rw [List.flatMap_singleton] at hentry
      rw [List.flatMap_cons, List.countP_append, ih, List.map_cons, ← List.singleton_append,
        List.countP_append, ← hentry]
      simp [headerSteps, RunStep.isReport]
  rw [Course.steps, Course.entries, List.countP_append, List.countP_append, List.countP_append,
    List.countP_append, List.countP_append, hfront, countP_entries, countP_visits,
    countP_closings, Nat.add_zero]

/-! ### No fragment twice -/

theorem nodup_of_flatMap {α β : Type} {f : α → List β} {items : List α}
    (hsome : ∀ a ∈ items, f a ≠ []) (h : (items.flatMap f).Nodup) : items.Nodup := by
  induction items with
  | nil => exact List.nodup_nil
  | cons a rest ih =>
    rw [List.flatMap_cons, List.nodup_append] at h
    obtain ⟨-, hrest, hapart⟩ := h
    refine List.nodup_cons.mpr ⟨?_, ih (fun b hb => hsome b (List.mem_cons_of_mem a hb)) hrest⟩
    intro hmem
    obtain ⟨b, hb⟩ := List.exists_mem_of_ne_nil _ (hsome a List.mem_cons_self)
    exact hapart b hb b (List.mem_flatMap.mpr ⟨a, hmem, hb⟩) rfl

namespace Document

/-- Lines that are not empty begin one behind the other. -/
theorem Adjoin.nodup {start stop : Nat} {lines : List Line} (h : Adjoin start lines stop)
    (hsome : ∀ l ∈ lines, l.raw ≠ []) : lines.Nodup ∧ ∀ l ∈ lines, start ≤ l.start := by
  induction lines generalizing start with
  | nil => exact ⟨List.nodup_nil, by simp⟩
  | cons l rest ih =>
    have hstart : l.start = start := h.1
    have hlong : l.start < l.stop := by
      have hpos := byteLength_pos (hsome l List.mem_cons_self)
      have hstop := l.stop_eq
      omega
    obtain ⟨hnodup, hlater⟩ := ih h.2.2 fun l hl => hsome l (List.mem_cons_of_mem _ hl)
    refine ⟨List.nodup_cons.mpr ⟨?_, hnodup⟩, ?_⟩
    · intro hmem
      have hle : l.stop ≤ l.start := hlater l hmem
      omega
    · intro l' hl'
      rcases List.mem_cons.mp hl' with rfl | hrest
      · omega
      · have hle : l.stop ≤ l'.start := hlater l' hrest
        omega

/-- The lines of the fragments' nodes are lines of the document, in order. -/
theorem lines_units_sublist (source : Source) (d : Document) :
    ((d.units source).flatMap fun u => u.origin.lines).Sublist d.lines := by
  have hcontents (children : List Content) :
      (children.map (FragmentUnit.ofContent source)).flatMap (fun u => u.origin.lines) =
        children.flatMap Content.lines := by
    induction children with
    | nil => rfl
    | cons c rest ih =>
      rw [List.map_cons, List.flatMap_cons, ih, List.flatMap_cons]
      cases c <;> rfl
  have hsections : ∀ sections : List Document.Section,
      ((sections.flatMap Section.children).flatMap Content.lines).Sublist
        (sections.flatMap Section.lines) := by
    intro sections
    induction sections with
    | nil => exact List.Sublist.slnil
    | cons part rest ih =>
      rw [List.flatMap_cons, List.flatMap_append, List.flatMap_cons]
      exact (List.sublist_append_right _ _).append ih
  have hheader : (d.header.toList.map fun header =>
      FragmentUnit.ofText source (.header header)).flatMap (fun u => u.origin.lines) =
        (d.header.map Header.lines).getD [] := by
    cases d.header with
    | none => rfl
    | some header => exact List.append_nil _
  rw [units, List.flatMap_append, hcontents, hheader, contents, List.flatMap_append, lines,
    List.append_assoc]
  exact (List.Sublist.refl _).append ((List.Sublist.refl _).append (hsections _))

/-- The fragments of a document that is read are all different. -/
theorem nodup_units_of_parse {source : Source} {text : List Char} {d : Document}
    (h : parse text = .ok d) : (d.units source).Nodup := by
  obtain ⟨hstart, hlines⟩ := lines_of_parse h
  have hnodup := (bodyLines_adjoin text).nodup fun l hl => raw_ne_nil_of_mem_bodyLines hl
  rw [← hlines] at hnodup
  refine nodup_of_flatMap ?_ ((lines_units_sublist source d).nodup hnodup.1)
  intro u hu
  rcases List.mem_append.mp hu with hheader | hcontent
  · obtain ⟨header, -, rfl⟩ := List.mem_map.mp hheader
    exact List.cons_ne_nil _ _
  · obtain ⟨c, -, rfl⟩ := List.mem_map.mp hcontent
    cases c <;> exact List.cons_ne_nil _ _

end Document

/-! ### The order of a run -/

theorem any_upTo {α : Type} (p : α → Bool) (l : List α) : (upTo p l).any p = l.any p := by
  induction l with
  | nil => rfl
  | cons x rest ih =>
    cases hx : p x with
    | true => rw [upTo_cons_of_pos hx, List.any_cons, List.any_cons, hx, Bool.true_or, Bool.true_or]
    | false => rw [upTo_cons_of_neg hx, List.any_cons, List.any_cons, ih]

theorem upTo_sublist_flatten {α : Type} (p q : α → Bool) (parts : List (List α)) :
    (upTo q (parts.flatMap (upTo p))).Sublist parts.flatten := by
  refine (upTo_isPrefix _).sublist.trans ?_
  induction parts with
  | nil => exact List.Sublist.slnil
  | cons part rest ih =>
    rw [List.flatMap_cons, List.flatten_cons]
    exact (upTo_isPrefix part).sublist.append ih

theorem Document.flatten_parts (source : Source) (d : Document) :
    (d.parts source).flatten = d.units source := by
  have hheader : (d.header.toList.map fun header =>
      [FragmentUnit.ofText source (.header header)]).flatten =
        d.header.toList.map fun header => .ofText source (.header header) := by
    cases d.header <;> rfl
  have hsections : (d.sections.map fun part =>
      part.children.map (FragmentUnit.ofContent source)).flatten =
        (d.sections.flatMap Section.children).map (.ofContent source) := by
    rw [List.map_flatMap, List.flatMap_def]
  rw [parts, units, contents, List.flatten_append, List.flatten_cons, hheader, hsections,
    List.map_append]

/-- The fragments that a run dispatches, if the host refuses no scope. They are planned with their
ends, and what is planned for a fragment that is dispatched is how it ends. -/
theorem execute_dispatch_order (source : Source) {σ : Type} (h : Host σ) (run : Runner σ)
    (d : Document) (hlevels : ∀ part ∈ d.sections, 0 < part.heading.level) (m : Machine σ)
    (hgranted : Granted (executeTraced source h run d m).2.host.steps) :
    let traced := executeTraced source h run d m
    let dispatched := unitEnds traced.2.host.steps
    execute source h run d m = (traced.1, ⟨traced.2.environment, traced.2.host.inner⟩) ∧
      (∃ planned : List (List Entry), planned.map (·.map Prod.fst) = d.parts source ∧
        dispatched = upTo Entry.stops (planned.flatMap (upTo Entry.skips))) ∧
      (dispatched.map Prod.fst).Sublist (d.units source) ∧
      (∀ text, Document.parse text = .ok d → (dispatched.map Prod.fst).Nodup) ∧
      ((∃ counts, traced.1 = .ok counts) ↔ dispatched.any Entry.stops = false) ∧
      ∀ counts, traced.1 = .ok counts →
        counts.units = dispatched.length ∧
        counts.codeUnits = dispatched.countP (·.1.isCode) ∧
        counts.sections = d.sections.length ∧
        counts.errors = traced.2.host.steps.countP RunStep.isReport := by
  intro traced dispatched
  obtain ⟨planned, c, hthrough, hsteps, hresult⟩ :=
    executeTraced_of_granted source h run d hlevels m hgranted
  have hdispatched : dispatched = c.entries := by
    rw [← unitEnds_course source c traced.1, ← hsteps]
  have hplanned : dispatched = upTo Entry.stops (planned.flatMap (upTo Entry.skips)) :=
    hdispatched.trans hthrough.entries
  have hany :
      (planned.flatMap (upTo Entry.skips)).any Entry.stops = dispatched.any Entry.stops := by
    rw [hplanned, any_upTo]
  have hunits : (dispatched.map Prod.fst).Sublist (d.units source) := by
    have hflat : planned.flatten.map Prod.fst = d.units source := by
      rw [List.map_flatten, hthrough.units, Document.flatten_parts]
    rw [hplanned, ← hflat]
    exact (upTo_sublist_flatten _ _ planned).map Prod.fst
  refine ⟨execute_eq_traced source h run d m, ⟨planned, hthrough.units, hplanned⟩, hunits, ?_, ?_,
    ?_⟩
  · intro text hparse
    exact hunits.nodup (Document.nodup_units_of_parse hparse)
  · rw [← hany]
    constructor
    · rintro ⟨counts, hok⟩
      exact ((hresult counts).mp hok).1
    · intro hnone
      exact ⟨_, (hresult _).mpr ⟨hnone, rfl⟩⟩
  · intro counts hok
    obtain ⟨hnone, hcounts⟩ := (hresult counts).mp hok
    have hall : dispatched = planned.flatMap (upTo Entry.skips) := by
      rw [hplanned, upTo_of_none hnone]
    have hreports : traced.2.host.steps.countP RunStep.isReport =
        dispatched.countP (·.2.isAnswered) := by
      have hfatal : fatalSteps traced.1 = [] := by rw [hok]; rfl
      rw [hsteps, hfatal, List.append_nil, countP_course, hdispatched]
    rw [hreports, hcounts, hall]
    simp [Entry.tally]

/-- A header, content before the first heading, and two sections with two and three fragments. -/
def manyFragments : Source :=
  ⟨"d", "---\n---\na\n# A\n\nb\n## B\n~~~python:testflows\nx\n~~~\nc\n\n", 0⟩

def rawFailure : Failure := ⟨.runtimeError, "E", "", 1⟩

/-- A host that answers every failure by leaving out the rest of the part. -/
def skippingHost : Host (WithUnits Recorder) :=
  WithUnits.host (Recorder.host ⟨[.skipSection], [], [], []⟩)

/-- The header fails, which skips nothing. Then the first fragment of a section does, which skips
the second one, and the run goes on with the next section. -/
theorem execute_dispatch_order_of_skips : ∃ d,
    Document.parse manyFragments.text.toList = .ok d ∧
    (∀ part ∈ d.sections, 0 < part.heading.level) ∧
    (let run := WithUnits.runner [(0, rawFailure), (2, rawFailure)]
      let traced := executeTraced manyFragments skippingHost run d ⟨.initial, ⟨.initial, []⟩⟩
      let dispatched := unitEnds traced.2.host.steps
      Granted traced.2.host.steps ∧
      (∃ planned : List (List Entry), planned.map (·.map Prod.fst) = d.parts manyFragments ∧
        dispatched = upTo Entry.stops (planned.flatMap (upTo Entry.skips))) ∧
      (dispatched.map Prod.fst).Nodup ∧ traced.1 = .ok ⟨6, 1, 2, 2⟩) := by
  have hrun : ((Document.parse manyFragments.text.toList).toOption.map fun d =>
      let traced := executeTraced manyFragments skippingHost
        (WithUnits.runner [(0, rawFailure), (2, rawFailure)]) d ⟨.initial, ⟨.initial, []⟩⟩
      (d.sections.all (0 < ·.heading.level), traced.2.host.steps.all RunStep.granted,
        traced.1.toOption)) = some (true, true, some ⟨6, 1, 2, 2⟩) := by
    decide +kernel
  obtain ⟨d, hparse, hrun⟩ := Outcome.map_toOption_eq_some_iff.mp hrun
  simp only [Prod.mk.injEq, List.all_eq_true, decide_eq_true_eq,
    Outcome.toOption_eq_some_iff] at hrun
  obtain ⟨hlevels, hgranted, hcounts⟩ := hrun
  obtain ⟨-, hplanned, -, hnodup, -, -⟩ := execute_dispatch_order manyFragments skippingHost
    (WithUnits.runner [(0, rawFailure), (2, rawFailure)]) d hlevels
    ⟨.initial, ⟨.initial, []⟩⟩ hgranted
  exact ⟨d, hparse, hlevels, hgranted, hplanned, hnodup _ hparse, hcounts⟩

end LiveDoc
