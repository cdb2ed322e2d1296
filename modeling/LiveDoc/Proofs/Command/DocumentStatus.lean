import LiveDoc.Proofs.Command.FileChanges
import LiveDoc.Proofs.Execution.LimitedSink

/-!
What becomes of one document of a command. It ends the command if its input cannot be read or the
file for its output cannot be made, and, if it is only read, where what is told of it is refused.
Otherwise it has a status, which is the good one if it parses or runs to its end without a failure
and with its output where it belongs. That the output is written behind the run does not change the
status. A document in which a loop takes more rounds than a run allows does not succeed.
-/
namespace LiveDoc.Command

open Outcome

variable {σ : Type} (sys : System (StateM σ)) (rounds : Nat) (mode : Mode)

/-- A document does not end the command. Its input can be read; the file that a run is to write can
be made, and what is told of a document that is only read is not refused. -/
def GoesOn (i : Input) (target : Destination) (s : σ) : Prop :=
  ∃ text s₁, readInput sys i s = (.ok text, s₁) ∧
    (mode.parseOnly = false → (prepare sys target s₁).1 = .ok ()) ∧
    (mode.parseOnly = true → ∀ d, Document.parse text.toList = .ok d →
      (announce sys mode i d s₁).1 = .ok ())

/-- The document parses and this can be told, if it is only read; otherwise it runs to its end
without a failure and its output arrives. -/
inductive Succeeds (fileId : Nat) (i : Input) (target : Destination) (s : σ) : Prop where
  | parsed {text : String} {s₁ : σ} {d : Document} (parseOnly : mode.parseOnly = true)
    (read : readInput sys i s = (.ok text, s₁)) (parse : Document.parse text.toList = .ok d)
    (shown : (announce sys mode i d s₁).1 = .ok ())
  | rendered {text : String} {s₁ s₂ : σ} {counts : RunCounts} (runs : mode.parseOnly = false)
    (read : readInput sys i s = (.ok text, s₁)) (made : prepare sys target s₁ = (.ok (), s₂))
    (ended : (render rounds mode.onError ⟨i.documentName, text, fileId⟩).result = .ok counts)
    (errors : counts.errors = 0)
    (delivered : (deliver sys (render rounds mode.onError ⟨i.documentName, text, fileId⟩).output
      target s₂).1 = .ok ())

variable {sys rounds mode} {fileId : Nat} {i : Input} {target : Destination} {s s₁ : σ}
  {source : Source} {text : String} {e : Trouble}

/-! ### Documents that are only read -/

theorem fst_inspect :
    (inspect sys mode i source s).1 =
      match Document.parse source.text.toList with
      | .error _ => .ok false
      | .ok d => (announce sys mode i d s).1.map fun _ => true := by
  rw [inspect]
  cases Document.parse source.text.toList with
  | error e => rfl
  | ok d => rfl

theorem fst_inspect_eq_true_iff :
    (inspect sys mode i source s).1 = .ok true ↔
      ∃ d, Document.parse source.text.toList = .ok d ∧
        (announce sys mode i d s).1 = .ok () := by
  rw [fst_inspect]
  cases Document.parse source.text.toList with
  | error e => simp
  | ok d => simp [map_eq_ok_iff, exists_eq_ok_unit_iff]

theorem isOk_inspect_iff :
    (inspect sys mode i source s).1.isOk = true ↔
      ∀ d, Document.parse source.text.toList = .ok d → (announce sys mode i d s).1 = .ok () := by
  rw [fst_inspect]
  cases Document.parse source.text.toList with
  | error e => exact iff_of_true rfl (by simp)
  | ok d => simp [isOk_iff_exists, map_eq_ok_iff, exists_eq_ok_unit_iff]

/-! ### Documents that are run -/

/-- Only an end without failures counts; what is told of them on the way does not matter. -/
theorem fst_report_eq_true_iff {style : Diagnostic.Style}
    {errors : List FragmentError} {result : RunResult} :
    (report sys style source errors result s).1 = true ↔
      ∃ counts, result = .ok counts ∧ counts.errors = 0 := by
  unfold report
  rw [run_state_bind]
  cases result with
  | ok counts => simp [run_state_pure]
  | error e =>
    refine iff_of_false ?_ (by simp)
    dsimp only
    split
    · exact Bool.false_ne_true
    · exact Bool.false_ne_true

/-- An output that does not arrive spoils a run that has come to its end. -/
def spoiled (result : RunResult) (delivered : Except IoError Unit) : RunResult :=
  match result, delivered with
  | .ok _, .error e => .error (.output (.io e.message))
  | result, _ => result

theorem spoiled_eq_ok_iff {result : RunResult} {delivered : Except IoError Unit}
    {counts : RunCounts} :
    spoiled result delivered = .ok counts ↔ result = .ok counts ∧ delivered = .ok () := by
  cases result with
  | error e => simp [spoiled]
  | ok counts' =>
    cases delivered with
    | error e => simp [spoiled]
    | ok done => simp [spoiled]

theorem runDocument_eq :
    runDocument sys rounds mode i source target s =
      match prepare sys target s with
      | (.error e, s) => (.error e, s)
      | (.ok (), s) =>
        let rendered := render rounds mode.onError source
        let delivered := deliver sys rendered.output target s
        let reported := report sys ⟨i.shown, mode.colored⟩ source rendered.errors
          (spoiled rendered.result delivered.1) delivered.2
        (.ok reported.1, reported.2) := by
  rw [runDocument, run_state_bind]
  generalize prepare sys target s = made
  obtain ⟨made, s⟩ := made
  cases made with
  | error e => rfl
  | ok made =>
    dsimp only
    rw [run_state_bind]
    generalize deliver sys _ target s = delivered
    obtain ⟨delivered, s⟩ := delivered
    generalize render rounds mode.onError source = rendered
    obtain ⟨result, output, errors⟩ := rendered
    cases result with
    | error e => rfl
    | ok counts =>
      cases delivered with
      | error e => rfl
      | ok done => rfl

theorem fst_runDocument_eq_true_iff :
    (runDocument sys rounds mode i source target s).1 = .ok true ↔
      ∃ s₁ counts, prepare sys target s = (.ok (), s₁) ∧
        (render rounds mode.onError source).result = .ok counts ∧ counts.errors = 0 ∧
        (deliver sys (render rounds mode.onError source).output target s₁).1 = .ok () := by
  rw [runDocument_eq]
  constructor
  · intro h
    generalize prepare sys target s = made at h
    obtain ⟨made, s₁⟩ := made
    cases made with
    | error e => simp at h
    | ok made =>
      obtain ⟨counts, hresult, herrors⟩ := fst_report_eq_true_iff.mp (Except.ok.inj h)
      obtain ⟨hended, hdone⟩ := spoiled_eq_ok_iff.mp hresult
      exact ⟨s₁, counts, rfl, hended, herrors, hdone⟩
  · rintro ⟨s₁, counts, hmade, hended, herrors, hdone⟩
    rw [hmade]
    exact congrArg Except.ok (fst_report_eq_true_iff.mpr
      ⟨counts, spoiled_eq_ok_iff.mpr ⟨hended, hdone⟩, herrors⟩)

theorem isOk_runDocument_iff :
    (runDocument sys rounds mode i source target s).1.isOk = true ↔
      (prepare sys target s).1 = .ok () := by
  rw [runDocument_eq]
  generalize prepare sys target s = made
  obtain ⟨made, s₁⟩ := made
  cases made with
  | error e => exact iff_of_false Bool.false_ne_true (by simp)
  | ok made => exact iff_of_true rfl rfl

/-- The output is written behind the run, which does not matter for the status. If it went to an
output with room for `room` bytes while the document is run, the run would come to its end without a
failure if and only if it does in memory and what is rendered fits. -/
theorem exists_ok_within_iff (source : Source) (action : ErrorAction) (rounds room : Nat) :
    (∃ counts, (executeSource source (inMemory action) (programRunner (inMemory action) rounds)
        ⟨.initial, .on ⟨some room, ""⟩⟩).1 = .ok counts ∧ counts.errors = 0) ↔
      (∃ counts, (render rounds action source).result = .ok counts ∧ counts.errors = 0) ∧
        (render rounds action source).output.utf8ByteSize ≤ room := by
  let run := writerRun source .initial action rounds
  have hrun (limit : Option Nat) := Logged.executeSource_eq source (inMemory action) rounds
    ⟨.initial, .on ⟨limit, ""⟩⟩
  have hshort : CutShort room (run none) (run (some room)) := cutShort_writerRun ..
  have hlimited : (executeSource source (inMemory action) (programRunner (inMemory action) rounds)
      ⟨.initial, .on ⟨some room, ""⟩⟩).1 = (run (some room)).1 := congrArg Prod.fst (hrun _)
  have hresult : (render rounds action source).result = (run none).1 :=
    congrArg Prod.fst (hrun none)
  have houtput : (render rounds action source).output.utf8ByteSize =
      byteSize (writes (run none).2.host.calls) := by
    rw [← utf8ByteSize_join, ← hshort.output]
    exact congrArg (fun done => done.2.host.sink.written.utf8ByteSize) (hrun none)
  rw [hlimited, hresult, houtput, ← fitting_eq_iff]
  by_cases hfits : fitting room (writes (run none).2.host.calls) = writes (run none).2.host.calls
  · rw [(hshort.uncut hfits).1]
    exact (and_iff_left hfits).symm
  · rw [(hshort.cut hfits).1]
    exact iff_of_false (by simp) fun h => hfits h.2

/-! ### What becomes of a document -/

theorem process_of_unread (h : readInput sys i s = (.error e, s₁)) :
    process sys rounds mode fileId i target s = (.error e, s₁) := by
  rw [process, run_state_bind, h]
  rfl

theorem process_of_read (h : readInput sys i s = (.ok text, s₁)) :
    process sys rounds mode fileId i target s =
      if mode.parseOnly then inspect sys mode i ⟨i.documentName, text, fileId⟩ s₁
      else runDocument sys rounds mode i ⟨i.documentName, text, fileId⟩ target s₁ := by
  rw [process, run_state_bind, h]
  dsimp only
  split
  · rfl
  · rfl

theorem goesOn_iff_of_read (h : readInput sys i s = (.ok text, s₁)) :
    GoesOn sys mode i target s ↔
      (mode.parseOnly = false → (prepare sys target s₁).1 = .ok ()) ∧
      (mode.parseOnly = true → ∀ d, Document.parse text.toList = .ok d →
        (announce sys mode i d s₁).1 = .ok ()) := by
  constructor
  · rintro ⟨text', s', hread, hgo⟩
    cases h.symm.trans hread
    exact hgo
  · exact fun hgo => ⟨text, s₁, h, hgo⟩

/-- A document that goes on has a status, and any other one ends the command. -/
theorem isOk_process_iff (rounds fileId : Nat) :
    (process sys rounds mode fileId i target s).1.isOk = true ↔ GoesOn sys mode i target s := by
  rcases hread : readInput sys i s with ⟨got, s₁⟩
  cases got with
  | error e =>
    rw [process_of_unread hread]
    refine iff_of_false Bool.false_ne_true ?_
    rintro ⟨text, s', hread', -⟩
    cases hread.symm.trans hread'
  | ok text =>
    rw [process_of_read hread, goesOn_iff_of_read hread]
    cases hmode : mode.parseOnly with
    | true =>
      rw [if_pos rfl, isOk_inspect_iff]
      simp
    | false =>
      rw [if_neg Bool.false_ne_true, isOk_runDocument_iff]
      simp

/-- A document has the good status if and only if it succeeds. -/
theorem process_eq_ok_true_iff :
    (process sys rounds mode fileId i target s).1 = .ok true ↔
      Succeeds sys rounds mode fileId i target s := by
  constructor
  · intro h
    rcases hread : readInput sys i s with ⟨got, s₁⟩
    cases got with
    | error e =>
      rw [process_of_unread hread] at h
      cases h
    | ok text =>
      rw [process_of_read hread] at h
      cases hmode : mode.parseOnly with
      | true =>
        rw [hmode, if_pos rfl, fst_inspect_eq_true_iff] at h
        obtain ⟨d, hparse, hshown⟩ := h
        exact .parsed hmode hread hparse hshown
      | false =>
        rw [hmode, if_neg Bool.false_ne_true, fst_runDocument_eq_true_iff] at h
        obtain ⟨s₂, counts, hmade, hended, herrors, hdone⟩ := h
        exact .rendered hmode hread hmade hended herrors hdone
  · intro h
    cases h with
    | parsed hmode hread hparse hshown =>
      rw [process_of_read hread, if_pos hmode, fst_inspect_eq_true_iff]
      exact ⟨_, hparse, hshown⟩
    | rendered hmode hread hmade hended herrors hdone =>
      rw [process_of_read hread, if_neg (by simp [hmode]), fst_runDocument_eq_true_iff]
      exact ⟨_, _, hmade, hended, herrors, hdone⟩

theorem Succeeds.goesOn (h : Succeeds sys rounds mode fileId i target s) :
    GoesOn sys mode i target s := by
  rw [← isOk_process_iff rounds fileId, process_eq_ok_true_iff.mpr h]
  rfl

end LiveDoc.Command
