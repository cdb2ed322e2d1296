import LiveDoc.Execution.MarkdownWriter
import LiveDoc.Execution.Runner
import LiveDoc.Proofs.Document.LineIndex
import LiveDoc.Proofs.Evaluation.Innermost
import LiveDoc.Proofs.Text.Runs

/-!
The line that a failure is reported on. Lines are counted four times: while a block of code is cut
into tokens, while its statements run, in the index of the document's offsets, and in the listing.
All of them agree. The line of a failure is a line of the code or the fence behind it, so the
bounds of the block never move it, and behind the opening fence it is the line of the document on
which the token stands that the failure is put down to.
-/
namespace LiveDoc

open Document Fragment

/-! ### The listing -/

/-- The first bar of the row is that of the mark. -/
def Marked (row : String) : Prop := "|> ".toList <+: row.toList.dropWhile (· ≠ '|')

/-- Rows with the numbers from `first` on, one for each of the lines; the row with the number
`marked` has the mark behind it. -/
structure Numbers (lines : List Line) (first marked : Nat) (rows : List String) : Prop where
  length_eq : rows.length = lines.length
  row_eq : ∀ (i : Nat) (l : Line), lines[i]? = some l → ∃ indent : String,
    (∀ c ∈ indent.toList, c = ' ') ∧
      rows[i]? = some (indent ++ (first + i).repr ++
        (if first + i = marked then "|> " else "|  ") ++ String.ofList (FragmentError.shown l))
  newline_not_mem : ∀ row ∈ rows, '\n' ∉ row.toList
  marked_iff : ∀ (i : Nat) (row : String), rows[i]? = some row →
    (Marked row ↔ first + i = marked)

theorem shown_subset (l : Line) : FragmentError.shown l ⊆ l.text := by
  unfold FragmentError.shown
  split
  · exact List.dropLast_subset _
  · exact List.Subset.refl _

theorem isDigit_of_mem_repr {n : Nat} {c : Char} (h : c ∈ n.repr.toList) : c.isDigit = true := by
  rw [Nat.toList_repr] at h
  exact Nat.isDigit_of_mem_toDigits (by decide) (by decide) h

variable {width marked number : Nat} {l : Line}

theorem row_eq_append (width marked number : Nat) (l : Line) : ∃ indent : String,
    (∀ c ∈ indent.toList, c = ' ') ∧ FragmentError.row width marked number l =
      indent ++ number.repr ++ (if number = marked then "|> " else "|  ") ++
        String.ofList (FragmentError.shown l) := by
  refine ⟨"  " ++ String.ofList (List.replicate (width - number.repr.length) ' '), ?_, ?_⟩
  · intro c hc
    rw [String.toList_append, List.mem_append] at hc
    rcases hc with hc | hc
    · simpa using hc
    · rw [String.toList_ofList] at hc
      exact List.eq_of_mem_replicate hc
  · simp only [FragmentError.row, FragmentError.padded, String.append_assoc]

/-- In front of the bar there are only spaces and digits. -/
theorem dropWhile_row (width marked number : Nat) (l : Line) :
    (FragmentError.row width marked number l).toList.dropWhile (· ≠ '|') =
      (if number = marked then "|> " else "|  ").toList ++ FragmentError.shown l := by
  obtain ⟨indent, hindent, hrow⟩ := row_eq_append width marked number l
  have htext : (FragmentError.row width marked number l).toList =
      (indent.toList ++ number.repr.toList) ++
        ((if number = marked then "|> " else "|  ").toList ++ FragmentError.shown l) := by
    rw [hrow]
    simp only [String.toList_append, String.toList_ofList, List.append_assoc]
  rw [htext]
  apply Text.dropWhile_run
  · intro c hc
    apply decide_eq_true
    rintro rfl
    rcases List.mem_append.mp hc with hc | hc
    · exact absurd (hindent '|' hc) (by decide)
    · exact absurd (isDigit_of_mem_repr hc) (by decide)
  · intro c hc
    split at hc
    all_goals
      obtain rfl : '|' = c := by simpa using hc
      rfl

theorem marked_row : Marked (FragmentError.row width marked number l) ↔ number = marked := by
  rw [Marked, dropWhile_row]
  by_cases h : number = marked
  · rw [if_pos h]
    exact ⟨fun _ => h, fun _ => List.prefix_append _ _⟩
  · rw [if_neg h]
    refine ⟨fun hprefix => ?_, fun hsame => absurd hsame h⟩
    simp at hprefix

theorem newline_not_mem_row (h : '\n' ∉ l.text) :
    '\n' ∉ (FragmentError.row width marked number l).toList := by
  obtain ⟨indent, hindent, hrow⟩ := row_eq_append width marked number l
  rw [hrow]
  simp only [String.toList_append, String.toList_ofList, List.mem_append, not_or]
  refine ⟨⟨⟨?_, ?_⟩, ?_⟩, ?_⟩
  · exact fun hc => absurd (hindent '\n' hc) (by decide)
  · exact fun hc => absurd (isDigit_of_mem_repr hc) (by decide)
  · split
    all_goals simp
  · exact fun hc => h (shown_subset l hc)

theorem numbers_numberedListing {lines : List Line} (first marked : Nat)
    (hlines : ∀ l ∈ lines, '\n' ∉ l.text) :
    ∃ rows, FragmentError.numberedListing lines first marked = "\n".intercalate rows ∧
      Numbers lines first marked rows := by
  refine ⟨_, rfl, ?_, ?_, ?_, ?_⟩
  · simp
  · intro i l hl
    obtain ⟨indent, hindent, hrow⟩ := row_eq_append
      (first + (lines.length - 1)).repr.length marked (first + i) l
    refine ⟨indent, hindent, ?_⟩
    rw [← hrow]
    simp [hl]
  · intro row hrow
    obtain ⟨⟨l, i⟩, hl, rfl⟩ := List.mem_map.mp hrow
    exact newline_not_mem_row (hlines l (List.fst_mem_of_mem_zipIdx hl))
  · intro i row hrow
    rw [List.getElem?_map, Option.map_eq_some_iff] at hrow
    obtain ⟨⟨l, j⟩, hl, rfl⟩ := hrow
    rw [List.getElem?_zipIdx, Option.map_eq_some_iff] at hl
    obtain ⟨l', -, hpair⟩ := hl
    obtain ⟨rfl, rfl⟩ := Prod.mk.inj hpair
    rw [Nat.zero_add]
    exact marked_row

/-! ### The place of a block -/

variable {s : Source} {d : Document} {opening closing : Line} {body before after : List Line}

/-- The lines of a block stand behind `before` and in front of `after`. -/
def BlockAt (s : Source) (opening : Line) (body : List Line) (closing : Line)
    (before after : List Line) : Prop :=
  bodyLines s.text.toList = before ++ opening :: (body ++ closing :: after)

theorem exists_blockAt (hparse : parse s.text.toList = .ok d)
    (hblock : .code opening body closing ∈ d.contents) :
    ∃ before after, BlockAt s opening body closing before after := by
  obtain ⟨before, after, start, stop, hlines, -⟩ :=
    placed_of_mem_nodes hparse (content_mem_nodes hblock)
  refine ⟨before, after, hlines.trans ?_⟩
  simp [Node.lines, Content.lines]

namespace BlockAt

theorem whole (h : BlockAt s opening body closing before after) {l : Line}
    (hl : l ∈ opening :: body) : l.Whole := by
  have hsplit : bodyLines s.text.toList = (before ++ opening :: body) ++ closing :: after := by
    rw [h, List.append_assoc, List.cons_append]
  exact whole_of_front hsplit (List.cons_ne_nil _ _) (List.mem_append_right _ hl)

/-- Every line of the code has a newline, since the closing fence is behind it. -/
theorem newlines_code (h : BlockAt s opening body closing before after) :
    newlines (rawOf body) = body.length :=
  newlines_rawOf fun _ hl => h.whole (List.mem_cons_of_mem _ hl)

theorem lineNumber_opening (h : BlockAt s opening body closing before after) :
    s.lineNumber opening.start = before.length + 1 :=
  lineNumber_of_line h

/-- A place in the code is as far below the opening fence as there are newlines in front of it. -/
theorem lineNumber_code (h : BlockAt s opening body closing before after) {passed rest : List Char}
    (hcode : rawOf body = passed ++ rest) :
    s.lineNumber (opening.stop + byteLength passed) =
      s.lineNumber opening.start + (newlines passed + 1) := by
  have hbehind :
      rawOf (body ++ closing :: after) = passed ++ (rest ++ rawOf (closing :: after)) := by
    rw [rawOf_append, hcode, List.append_assoc]
  rw [h.lineNumber_opening, lineNumber_behind h (h.whole (List.mem_cons_self ..)) hbehind]

theorem lineSpan_inside (h : BlockAt s opening body closing before after) {above below : List Line}
    {l : Line} (hsplit : opening :: body ++ [closing] = above ++ l :: below) (habove : above ≠ []) :
    s.lineSpan (s.lineNumber opening.start + above.length) = some ⟨l.start, l.textStop⟩ := by
  have hlines : bodyLines s.text.toList = (before ++ above) ++ l :: (below ++ after) := by
    have hblock : opening :: (body ++ closing :: after) =
        (opening :: body ++ [closing]) ++ after := by simp
    rw [h, hblock, hsplit]
    simp
  have hspan := lineSpan_of_line hlines (by simp [habove])
  rw [List.length_append] at hspan
  rw [h.lineNumber_opening, Nat.add_right_comm]
  exact hspan

theorem newline_not_mem (h : BlockAt s opening body closing before after) :
    ∀ l ∈ opening :: body ++ [closing], '\n' ∉ l.text := by
  intro l hl
  have hmem : l ∈ bodyLines s.text.toList := by
    rw [h]
    simp only [List.mem_append, List.mem_cons] at hl ⊢
    tauto
  exact newline_not_mem_text hmem

end BlockAt

/-! ### Failures -/

/-- The fragment of a block of code. -/
abbrev blockUnit (s : Source) (opening : Line) (body : List Line) (closing : Line) :
    FragmentUnit :=
  .ofContent s (.code opening body closing)

abbrev blockError (s : Source) (opening : Line) (body : List Line) (closing : Line)
    (f : Failure) : FragmentError :=
  .ofFailure s (blockUnit s opening body closing) f

variable {σ : Type} {h : Host σ} {rounds : Nat} {m m' : Machine σ} {f : Failure}

/-- A runtime failure is that of the innermost statement that fails. -/
structure FailedStatement (h : Host σ) (rounds : Nat) (code : List Char) (m : Machine σ)
    (f : Failure) (m' : Machine σ) (before : List Char) : Prop where
  line_eq : f.line = newlines before + 1
  failing : ∃ program s last fault, parseProgram code = .ok program ∧
    Begun h rounds program m s last ∧
    FailsInnermost h rounds s last (.raised fault f.line) m' ∧
    f = .ofFault fault f.line ∧ BeginsBehind code before s

theorem failure_cases {code : List Char}
    (hrun : runFragment h rounds code m = .error (.failure f) m') :
    (f.kind = .syntaxError ∧ 1 ≤ f.line ∧ f.line ≤ newlines code + 1) ∨
      ∃ before, FailedStatement h rounds code m f m' before := by
  cases hprogram : parseProgram code with
  | error e =>
    rw [runFragment, hprogram] at hrun
    cases hrun
    exact .inl ⟨rfl, line_of_parseProgram_error hprogram⟩
  | ok program =>
    rw [runFragment, hprogram] at hrun
    simp only [runProgram] at hrun
    split at hrun
    · cases hrun
    · rename_i i last hblock
      cases i with
      | raised fault line =>
        cases hrun
        obtain ⟨s, last, hbegun, hinside, hline, hfails⟩ := exists_innermost program m hblock
        obtain ⟨before, hbegins, hbefore⟩ := line_of_parseProgram hprogram hinside
        exact .inr ⟨before, hline.symm.trans hbefore, program, s, last, fault, hprogram, hbegun,
          hfails, rfl, hbegins⟩
      | host e => cases hrun
      | exhausted => cases hrun

/-- What a failure of a block of code is reported as. -/
structure ReportedExactly (s : Source) (opening : Line) (body : List Line) (closing : Line)
    (f : Failure) (e : FragmentError) : Prop where
  one_le : 1 ≤ f.line
  le : f.line ≤ newlines (rawOf body) + 1
  line_eq : e.line = s.lineNumber opening.start + f.line
  span_eq : ∃ above l below, opening :: body ++ [closing] = above ++ l :: below ∧
    above.length = f.line ∧ e.span = ⟨l.start, l.textStop⟩
  listing_eq : ∃ rows, e.listing = "\n".intercalate rows ∧
    Numbers (opening :: body ++ [closing]) (s.lineNumber opening.start) e.line rows ∧
    (∃ row, rows[f.line]? = some row ∧ Marked row) ∧
    ∀ (i : Nat) (row : String), rows[i]? = some row → Marked row → i = f.line

theorem exists_split {lines : List Line} {i : Nat} (h : i < lines.length) :
    ∃ above l below, lines = above ++ l :: below ∧ above.length = i := by
  refine ⟨lines.take i, lines[i], lines.drop (i + 1), ?_, List.length_take_of_le h.le⟩
  rw [← List.drop_eq_getElem_cons h, List.take_append_drop]

/-- The bounds of the block do not move the line. -/
theorem line_ofFailure (hle : f.line ≤ body.length + 1) :
    (blockError s opening body closing f).line = s.lineNumber opening.start + f.line := by
  have hlength : (opening :: body ++ [closing]).length = body.length + 2 := by simp
  change max (s.lineNumber opening.start) (min (s.lineOffset opening.start + f.line + 1)
    (s.lineNumber opening.start + ((opening :: body ++ [closing]).length - 1))) = _
  rw [hlength, Source.lineNumber]
  omega

theorem reportedExactly_of_bounds (hat : BlockAt s opening body closing before after)
    (hone : 1 ≤ f.line) (hle : f.line ≤ newlines (rawOf body) + 1) :
    ReportedExactly s opening body closing f (blockError s opening body closing f) := by
  have hcount := hat.newlines_code
  have hline : (blockError s opening body closing f).line = s.lineNumber opening.start + f.line :=
    line_ofFailure (by omega)
  have hinside : f.line < (opening :: body ++ [closing]).length := by
    rw [List.length_append, List.length_cons, List.length_singleton]
    omega
  obtain ⟨above, l, below, hsplit, habove⟩ := exists_split hinside
  refine ⟨hone, hle, hline, ⟨above, l, below, hsplit, habove, ?_⟩, ?_⟩
  · have hspan := hat.lineSpan_inside hsplit (List.ne_nil_of_length_pos (by omega))
    rw [habove, ← hline] at hspan
    change (s.lineSpan (blockError s opening body closing f).line).getD _ = _
    rw [hspan, Option.getD_some]
  · obtain ⟨rows, hlisting, hrows⟩ := numbers_numberedListing (s.lineNumber opening.start)
      (s.lineNumber opening.start + f.line) hat.newline_not_mem
    rw [hline]
    refine ⟨rows, ?_, hrows, ?_, ?_⟩
    · rw [← hlisting, ← hline]
      rfl
    · have hrow : f.line < rows.length := by rw [hrows.length_eq]; exact hinside
      have hget := List.getElem?_eq_getElem hrow
      exact ⟨rows[f.line], hget, (hrows.marked_iff _ _ hget).mpr rfl⟩
    · intro i row hrow hmarked
      have hsame := (hrows.marked_iff i row hrow).mp hmarked
      omega

/-- A failure of a block of code is reported on the line of the document that is as far below the
opening fence as the failure's line says, and that is never one outside of the block. When a
statement has failed, its first token stands on the line. -/
theorem failure_reported_exactly (hparse : parse s.text.toList = .ok d)
    (hblock : .code opening body closing ∈ d.contents)
    (hrun : programRunner h rounds (blockUnit s opening body closing) m = .error (.failure f) m') :
    ReportedExactly s opening body closing f (blockError s opening body closing f) ∧
      (f.kind = .runtimeError → f.line ≤ newlines (rawOf body) ∧
        ∃ before, FailedStatement h rounds (rawOf body) m f m' before ∧
          (blockError s opening body closing f).line =
            s.lineNumber (opening.stop + byteLength before)) := by
  obtain ⟨above, below, hat⟩ := exists_blockAt hparse hblock
  rcases failure_cases hrun with ⟨hkind, hone, hle⟩ | ⟨before, hfailed⟩
  · refine ⟨reportedExactly_of_bounds hat hone hle, fun hruntime => ?_⟩
    rw [hkind] at hruntime
    cases hruntime
  · obtain ⟨rest, hcode, hrest⟩ : ∃ rest, rawOf body = before ++ rest ∧ rest ≠ [] := by
      obtain ⟨program, statement, last, fault, -, -, -, -, hbegins⟩ := hfailed.failing
      obtain ⟨front, t, back, -, -, scanner, c, rest, l, hcode, -⟩ := hbegins
      exact ⟨c :: rest, hcode, List.cons_ne_nil c rest⟩
    have hwhole : ∀ l ∈ body, l.Whole := fun l hl => hat.whole (List.mem_cons_of_mem opening hl)
    have hbehind := newlines_pos_of_rest hwhole hcode hrest
    have hcount : newlines (rawOf body) = newlines before + newlines rest := by
      rw [hcode, newlines_append]
    have hline := hfailed.line_eq
    have hexact := reportedExactly_of_bounds (f := f) hat (by omega) (by omega)
    refine ⟨hexact, fun _ => ⟨by omega, before, hfailed, ?_⟩⟩
    rw [hexact.line_eq, hat.lineNumber_code hcode, hline]

/-- Why a fragment fails, if it does. -/
def failure? : EStateM.Result FragmentStop (Machine σ) Unit → Option Failure
  | .error (.failure f) _ => some f
  | _ => none

theorem exists_of_failure?_eq_some {result : EStateM.Result FragmentStop (Machine σ) Unit}
    (h : failure? result = some f) : ∃ m', result = .error (.failure f) m' := by
  unfold failure? at h
  split at h
  · cases h
    exact ⟨_, rfl⟩
  · cases h

/-- A name that is not bound, in a branch inside a loop. -/
def unboundName : Source :=
  ⟨"a.md", "in\n```python:testflows\nfor x in [1]:\n  if x:\n    y = z\n```\n", 0⟩

def unboundOpening : Line := ⟨3, "```python:testflows".toList, true⟩

def unboundBody : List Line :=
  [⟨23, "for x in [1]:".toList, true⟩, ⟨37, "  if x:".toList, true⟩,
    ⟨45, "    y = z".toList, true⟩]

def unboundClosing : Line := ⟨55, "```".toList, true⟩

def unboundFailure : Failure := ⟨.runtimeError, "NameError", "name 'z' is not defined", 3⟩

/-- The third line of the code is the fifth one of the document. -/
theorem reported_exactly_in_branch : ∃ d m',
    parse unboundName.text.toList = .ok d ∧
      .code unboundOpening unboundBody unboundClosing ∈ d.contents ∧
      programRunner (MarkdownWriter.host TextSink.put .halt) 0
        (blockUnit unboundName unboundOpening unboundBody unboundClosing)
        ⟨.initial, .on ⟨none, ""⟩⟩ = .error (.failure unboundFailure) m' ∧
      (blockError unboundName unboundOpening unboundBody unboundClosing unboundFailure).line = 5 ∧
      ReportedExactly unboundName unboundOpening unboundBody unboundClosing unboundFailure
        (blockError unboundName unboundOpening unboundBody unboundClosing unboundFailure) ∧
      unboundFailure.line ≤ newlines (rawOf unboundBody) ∧
      ∃ before, FailedStatement (MarkdownWriter.host TextSink.put .halt) 0 (rawOf unboundBody)
        ⟨.initial, .on ⟨none, ""⟩⟩ unboundFailure m' before ∧
        5 = unboundName.lineNumber (unboundOpening.stop + byteLength before) := by
  have hcontents : (parse unboundName.text.toList).toOption.map Document.contents =
      some [.text ⟨0, "in".toList, true⟩ [],
        .code unboundOpening unboundBody unboundClosing] := by
    decide +kernel
  have hfails : failure? (programRunner (MarkdownWriter.host TextSink.put .halt) 0
      (blockUnit unboundName unboundOpening unboundBody unboundClosing)
      ⟨.initial, .on ⟨none, ""⟩⟩) = some unboundFailure := by
    decide +kernel
  have hline : (blockError unboundName unboundOpening unboundBody unboundClosing
      unboundFailure).line = 5 := by
    decide +kernel
  obtain ⟨d, hparse, hcontents⟩ := Outcome.map_toOption_eq_some_iff.mp hcontents
  have hblock : .code unboundOpening unboundBody unboundClosing ∈ d.contents := by simp [hcontents]
  obtain ⟨m', hrun⟩ := exists_of_failure?_eq_some hfails
  obtain ⟨hexact, hruntime⟩ := failure_reported_exactly hparse hblock hrun
  obtain ⟨hle, before, hfailed, hplace⟩ := hruntime rfl
  exact ⟨d, m', hparse, hblock, hrun, hline, hexact, hle, before, hfailed, hline.symm.trans hplace⟩

end LiveDoc
