import LiveDoc.Proofs.Fragment.LineScan
import LiveDoc.Proofs.Fragment.ProgramAppend

/-!
The line of a syntax error. A line that cannot be read as a fragment of its own cannot be read
behind other statements, whatever stands on the lines behind it, and the error is on that line. The
only exception is a dot at its end: the reading of an attribute takes the newline token for the name
that is missing, and the error is on the line of the token behind that.
-/
namespace LiveDoc.Fragment

open TokenParser

/-- What a statement with blocks or a branch of one begins with. -/
def Token.Kind.isBlockWord : Token.Kind → Bool
  | .keyword w => decide (w ∈ [Keyword.ifThen, .elseIf, .otherwise, .forEach, .whileTrue])
  | _ => false

theorem Token.Kind.simple_cases {kind : Token.Kind} (h : kind.isBlockWord = false) :
    kind.isBlockStart = false ∧ kind.isKeyword .elseIf = false ∧
      kind.isKeyword .otherwise = false := by
  cases kind with
  | keyword w =>
    cases w
    all_goals first
      | exact Bool.noConfusion h
      | exact ⟨rfl, rfl, rfl⟩
  | _ => exact ⟨rfl, rfl, rfl⟩

/-- A line in column 0 with tokens of its own, which closes its brackets and begins no block. -/
structure SimpleLine (text : List Char) (tokens : List Token) : Prop where
  oneLine : '\n' ∉ text
  column : indentWidth 0 text = 0
  tokens_eq : tokenize text = .ok tokens
  written : ∃ t ∈ tokens, t.kind.isLayout = false
  balanced : depthOver 0 tokens = 0
  noBlock : ∀ t ∈ tokens.head?, t.kind.isBlockWord = false

variable {S : Setting} {fuel : Nat} {expr expr' : TokenParser Expr} {inLoop : Bool}
  {p b r : List Char} {t : Token} {rest tokens : List Token} {program : Program}

/-- The first token is the first one of a simple statement, if of any. -/
def BeginsSimple (tokens : List Token) : Prop :=
  ∃ t rest, tokens = t :: rest ∧ t.kind.isLayout = false ∧ t.kind.isBlockWord = false

namespace BeginsSimple

theorem append (h : BeginsSimple tokens) (more : List Token) : BeginsSimple (tokens ++ more) := by
  obtain ⟨t, rest, rfl, ht⟩ := h
  exact ⟨t, rest ++ more, rfl, ht⟩

theorem moved (h : BeginsSimple tokens) (count : Nat) :
    BeginsSimple (tokens.map (Token.moved count)) := by
  obtain ⟨t, rest, rfl, ht⟩ := h
  exact ⟨t.moved count, rest.map (Token.moved count), rfl, ht⟩

theorem goesOn (h : BeginsSimple tokens) : GoesOn tokens := by
  obtain ⟨t, rest, rfl, -, hword⟩ := h
  exact ⟨t, rest, rfl, (Token.Kind.simple_cases hword).2⟩

/-- A simple statement is read first. -/
theorem parseStatements_eq (h : BeginsSimple tokens) :
    parseStatements expr (fuel + 2) tokens =
      (do
        let s ← parseSimpleLine expr false
        let more ← parseStatements expr (fuel + 1)
        pure (s :: more) : TokenParser Program) tokens := by
  obtain ⟨t, rest, rfl, hlayout, hword⟩ := h
  rw [parseStatements_written hlayout]
  exact Outcome.run_bind_congr (parseStatement_of_not_block (Token.Kind.simple_cases hword).1)

end BeginsSimple

/-- The tokens of a line are read as a simple statement up to the end of the line, or else the
reading fails in any place, and it does so on that line or behind a dot at its end. -/
theorem parseSimpleLine_of_line (inLoop : Bool) (hexpr : Paired S expr expr')
    {words p' u : List Token} {last : Token} (v : List Token) (hlast : last.kind = .newline)
    (hsome : words ≠ [])
    (hwords : ∀ t ∈ words, t.kind.isLayout = false)
    (hsame : List.Forall₂ (Token.Same S) (words ++ [last]) p') (hu : u ≠ []) :
    (∃ s, parseSimpleLine expr inLoop (words ++ [last] ++ u) = .ok s u) ∨
      ∃ e left, parseSimpleLine expr' inLoop (p' ++ v) = .error e left ∧
        FailsOn S (words ++ [last]) v e.line := by
  obtain ⟨t, rest, rfl⟩ := List.exists_cons_of_ne_nil hsome
  have hwindow : Window S [t.kind] (t :: rest ++ [last]).length (t :: rest ++ [last]) p' :=
    ⟨hsame, by simp, ⟨last, List.getLast?_concat, hlast ▸ rfl⟩, le_rfl⟩
  have hsimple : Carries S [t.kind] (t :: rest ++ [last]).length 0 0 (Stmt.moved S.shift)
      (parseSimple expr inLoop) (parseSimple expr' inLoop) :=
    carries_parseSimple hexpr (hwords t (List.mem_cons_self ..))
  have hcarried := hsimple _ _ u v hwindow
  generalize hrun : parseSimple expr inLoop (t :: rest ++ [last] ++ u) = result,
    hrun' : parseSimple expr' inLoop (p' ++ v) = result' at hcarried
  cases hcarried with
  | error hline => exact .inr ⟨_, _, Outcome.run_bind_of_error hrun', hline⟩
  | @ok s q q' htakes hleft =>
    rw [parseSimpleLine, parseSimpleLine, Outcome.run_bind_of_ok hrun,
      Outcome.run_bind_of_ok hrun']
    obtain ⟨back, rfl, hback⟩ := (List.suffix_concat_iff.mp htakes.suffix).resolve_left
      htakes.goesOn
    cases back with
    | nil =>
      left
      obtain ⟨line, kind⟩ := last
      obtain rfl : kind = .newline := hlast
      obtain ⟨x, more, rfl⟩ := List.exists_cons_of_ne_nil hu
      exact ⟨s, rfl⟩
    | cons x more =>
      -- A token of the line is left, and the statement cannot end in front of it.
      right
      have hx := hwords x (hback.subset (List.mem_cons_self ..))
      obtain ⟨x', more', hxx', -, rfl⟩ := List.forall₂_cons_left_iff.mp hleft
      obtain ⟨e, stop, herror, hline⟩ :=
        (failsHere_endStatement (hxx'.kind_eq ▸ hx)).exists_error (more' ++ v)
      exact ⟨e, stop, Outcome.run_bind_of_error herror, .inl (hline ▸ hxx'.onLine)⟩

/-- A line that can be read as a simple statement is a fragment. -/
theorem parseProgram_of_line {words : List Token} {s : Stmt} (hwords : GivesWords b words)
    (hbegins : BeginsSimple words)
    (hread : parseSimpleLine (expressionReader b) false (words ++ [⟨1, .newline⟩] ++ [⟨1, .eof⟩]) =
      .ok s [⟨1, .eof⟩]) : parseProgram b = .ok [s] := by
  rw [List.append_assoc] at hread
  refine parseProgram_eq_ok_iff.mpr ⟨_, [⟨1, .eof⟩], hwords.alone, ?_⟩
  rw [(hbegins.append _).parseStatements_eq]
  exact (Outcome.run_bind_of_ok hread).trans
    (Outcome.run_bind_of_ok (parseStatements_eof _ _ _ _))

/-- A line that ends with a dot, in its place. -/
theorem exists_dot_of_endsBehindDot {words : List Token} {last : Token}
    (hwords : ∀ t ∈ words, t.line = 1) (h : EndsBehindDot (words ++ [last])) (count : Nat) :
    ∃ front, words.map (Token.moved count) = front ++ [⟨count + 1, .symbol .dot⟩] := by
  obtain ⟨line, stop, front, hfront⟩ := h
  have hsplit : words ++ [last] = front ++ [⟨line, .symbol .dot⟩] ++ [stop] := by
    rw [← hfront, List.append_assoc]
    rfl
  obtain ⟨rfl, -⟩ := List.append_inj' hsplit rfl
  have hline : line = 1 := hwords ⟨line, .symbol .dot⟩ (by simp)
  exact ⟨front.map (Token.moved count), by simp [Token.moved, hline, Nat.add_comm]⟩

/-- The tokens of a line in their place, where they all stand on one line. -/
theorem same_of_givesWords {words : List Token} (hwords : GivesWords b words) {line count : Nat}
    (hline : line = 1 + count) :
    List.Forall₂ (Token.Same ⟨count, b.length + 1, (· = count + 1)⟩) (words ++ [⟨1, .newline⟩])
      (words.map (Token.moved count) ++ [⟨line, .newline⟩]) := by
  have hbelow := fieldsBelow_of_tokenize hwords.alone
  refine List.rel_append (same_moved (fun t ht => hbelow t (List.mem_append_left _ ht))
    fun t ht => ?_) (.cons ⟨rfl, Bool.noConfusion, trivial, ?_⟩ .nil)
  · simp only [(hwords.written t ht).2, Nat.add_comm]
  · simp only [hline, Nat.add_comm]

theorem SimpleLine.beginsSimple {words : List Token} (hwords : GivesWords b words)
    (hb : SimpleLine b (words ++ [⟨1, .newline⟩, ⟨1, .eof⟩])) : BeginsSimple words := by
  obtain ⟨t, rest, rfl⟩ := List.exists_cons_of_ne_nil hwords.some
  exact ⟨t, rest, rfl, (hwords.written t (List.mem_cons_self ..)).1, hb.noBlock t rfl⟩

/-- A line that cannot be read alone cannot be read in its place, and the error is on that line, or
it is on the line of the token behind the line end that follows a dot. -/
theorem line_of_rejected {whole : List Token} {e : SyntaxError}
    (hp : parseProgram p = .ok program) (hends : p = [] ∨ EndsLine p) (hb : SimpleLine b tokens)
    (hrejected : parseProgram b = .error e)
    (hwhole : tokenize (p ++ (b ++ '\n' :: r)) = .ok whole) :
    ∃ e', parseProgram (p ++ (b ++ '\n' :: r)) = .error e' ∧
      (e'.line = newlines p + 1 ∨
        ∃ front t back, whole = front ++ ⟨newlines p + 1, .symbol .dot⟩ ::
          ⟨newlines p + 1, .newline⟩ :: t :: back ∧ e'.line = t.line) := by
  obtain ⟨words, hwords⟩ := exists_givesWords hb.oneLine hb.column hb.tokens_eq hb.written
    hb.balanced
  obtain rfl := Except.ok.inj (hb.tokens_eq.symm.trans hwords.alone)
  obtain ⟨first, t, ht, hread⟩ := exists_readBehind hp hends
  obtain ⟨v, hv, rfl⟩ := hwords.behind ht.line_eq ht.depth_eq ht.pos
    ((ht.scan_eq _).symm.trans hwhole)
  have hlength : p.length ≤ (p ++ (b ++ '\n' :: r)).length ∧
      b.length ≤ (p ++ (b ++ '\n' :: r)).length := by
    simp only [List.length_append]
    omega
  have hsame := same_of_givesWords hwords ht.line_eq
  have hbegins := hb.beginsSimple hwords
  rcases parseSimpleLine_of_line (u := [⟨1, .eof⟩]) false
    (paired_expressionReader rfl hlength.2) v rfl hwords.some (fun t ht => (hwords.written t ht).1)
    hsame (List.cons_ne_nil _ _) with ⟨s, hok⟩ | ⟨e', left, herror, hline⟩
  · rw [parseProgram_of_line hwords hbegins hok] at hrejected
    cases hrejected
  refine ⟨e', ?_, ?_⟩
  · have hplace := (hbegins.moved (newlines p)).append (⟨t.line, .newline⟩ :: v)
    obtain ⟨fuel, hfuel, hrun⟩ := hread _ t.line _ hlength.1 hplace.goesOn
    obtain ⟨fuel, rfl⟩ : ∃ less, fuel = less + 2 := Nat.exists_eq_add_of_le' (by omega)
    rw [List.append_assoc] at herror
    have hfails : parseStatements (expressionReader (p ++ (b ++ '\n' :: r))) (fuel + 2)
        (words.map (Token.moved (newlines p)) ++ ⟨t.line, .newline⟩ :: v) = .error e' left := by
      rw [hplace.parseStatements_eq]
      exact Outcome.run_bind_of_error herror
    rw [parseProgram_eq hwhole, hrun, Outcome.run_bind_of_error hfails]
    rfl
  · refine hline.imp_right fun ⟨hdot, x, hx, hxline⟩ => ?_
    obtain ⟨front, hfront⟩ :=
      exists_dot_of_endsBehindDot (fun t ht => (hwords.written t ht).2) hdot (newlines p)
    obtain ⟨back, rfl⟩ : ∃ back, v = x :: back := List.head?_eq_some_iff.mp hx
    refine ⟨t.closedAt t.line ++ front, x, back, ?_, hxline.symm⟩
    rw [hfront, ht.line_eq, Nat.add_comm]
    simp

/-- Statements of which the last one has a block that is still open. -/
def acceptedLines : List Char := "x = [1,\n2]\nif x:\n  y = x\n".toList

/-- A call in which the second argument has no comma in front of it. -/
def rejectedLine : List Char := "y(1 2) # no\\".toList

/-- A line that begins a block, without the block. -/
def laterLine : List Char := "while x:\n".toList

theorem line_of_rejected_behind_open_block :
    ∃ program tokens whole e, parseProgram acceptedLines = .ok program ∧
      EndsLine acceptedLines ∧ SimpleLine rejectedLine tokens ∧
      parseProgram rejectedLine = .error e ∧
      tokenize (acceptedLines ++ (rejectedLine ++ '\n' :: laterLine)) = .ok whole ∧
      ∃ e', parseProgram (acceptedLines ++ (rejectedLine ++ '\n' :: laterLine)) = .error e' ∧
        (e'.line = newlines acceptedLines + 1 ∨
          ∃ front t back, whole = front ++ ⟨newlines acceptedLines + 1, .symbol .dot⟩ ::
            ⟨newlines acceptedLines + 1, .newline⟩ :: t :: back ∧ e'.line = t.line) := by
  obtain ⟨program, hp⟩ := Outcome.isOk_iff_exists.mp
    (show (parseProgram acceptedLines).isOk = true by decide +kernel)
  obtain ⟨whole, hwhole⟩ := Outcome.isOk_iff_exists.mp (show
    (tokenize (acceptedLines ++ (rejectedLine ++ '\n' :: laterLine))).isOk = true by decide +kernel)
  have hends : EndsLine acceptedLines := ⟨by decide, by decide, by decide⟩
  have hb : SimpleLine rejectedLine
      [⟨1, .name "y"⟩, ⟨1, .symbol .openRound⟩, ⟨1, .int 1⟩, ⟨1, .int 2⟩, ⟨1, .symbol .closeRound⟩,
        ⟨1, .newline⟩, ⟨1, .eof⟩] :=
    ⟨by decide, by decide, Outcome.toOption_eq_some_iff.mp (by decide +kernel), by decide,
      by decide, by decide⟩
  have hrejected : parseProgram rejectedLine = .error ⟨.expected "')'", 1⟩ :=
    Outcome.error?_eq_some_iff.mp (by decide +kernel)
  exact ⟨program, _, whole, _, hp, hends, hb, hrejected, hwhole,
    line_of_rejected hp (.inr hends) hb hrejected hwhole⟩

theorem line_of_missing_attribute :
    (parseProgram []).isOk = true ∧
      SimpleLine "a.".toList
        [⟨1, .name "a"⟩, ⟨1, .symbol .dot⟩, ⟨1, .newline⟩, ⟨1, .eof⟩] ∧
      parseProgram "a.".toList = .error ⟨.atEnd .missingAttribute, 1⟩ ∧
      (tokenize "a.\nb\n".toList).isOk = true ∧
      parseProgram "a.\nb\n".toList = .error ⟨.missingAttribute, 2⟩ := by
  refine ⟨by decide +kernel, ⟨by decide, by decide, ?_, by decide, by decide, by decide⟩, ?_,
    by decide +kernel, ?_⟩
  · exact Outcome.toOption_eq_some_iff.mp (by decide +kernel)
  · exact Outcome.error?_eq_some_iff.mp (by decide +kernel)
  · exact Outcome.error?_eq_some_iff.mp (by decide +kernel)

end LiveDoc.Fragment
