import LiveDoc.Proofs.Fragment.LineScan
import LiveDoc.Proofs.Fragment.ProgramAppend

/-!
A line that is indented deeper than the statement in front of it. The scanner puts an indent in
front of its tokens, and no statement begins with one. Outside of blocks the indent is reported as
such. Inside a block the reader of statements does not look for it, so an expression is read there,
and the reader of expressions reports no more than wrong syntax. Either error is on the line of the
indent.
-/
namespace LiveDoc.Fragment

open TokenParser

variable {field : List Char → Nat → Except SyntaxError Expr} {expr : TokenParser Expr}
  {e : SyntaxError} {p code text next rest : List Char} {tokens : List Token}
  {s t u : Scanner} {program : Program} {width deeper : Nat}

/-! ### Reading on at an indent -/

/-- An indent is not reported where an expression should begin. -/
theorem parseExpr_indent (levels least here : Nat) (back : List Token) :
    ∃ left, parseExpr field (levels + 1) least (⟨here, .indent⟩ :: back) =
      .error ⟨.invalidSyntax, here⟩ left := by
  cases back with
  | nil => exact ⟨_, rfl⟩
  | cons t back => exact ⟨_, rfl⟩

/-- In a block the next statement is read as an expression. -/
theorem parseBlock_indent {here : Nat} {back left : List Token}
    (hexpr : expr (⟨here, .indent⟩ :: back) = .error e left) (inLoop : Bool) (fuel : Nat) :
    parseBlock expr inLoop (fuel + 2) (⟨here, .indent⟩ :: back) = .error e left := by
  have haction : parseExpressionStatement expr (⟨here, .indent⟩ :: back) = .error e left :=
    Outcome.run_bind_of_error hexpr
  have hsimple : parseSimple expr inLoop (⟨here, .indent⟩ :: back) = .error e left := by
    rw [parseSimple, Outcome.run_bind_of_ok (peek_cons _ back)]
    exact Outcome.run_bind_of_error haction
  have hstatement : parseStatement expr inLoop (fuel + 1) (⟨here, .indent⟩ :: back) =
      .error e left := by
    rw [parseStatement_of_not_block rfl]
    exact Outcome.run_bind_of_error hsimple
  rw [parseBlock]
  change (do
    let s ← parseStatement expr inLoop (fuel + 1)
    let rest ← parseBlock expr inLoop (fuel + 1)
    pure (s :: rest) : TokenParser (List Stmt)) (⟨here, .indent⟩ :: back) = _
  exact Outcome.run_bind_of_error hstatement

/-- Where blocks are still open in front of an indent, the innermost one cannot go on. -/
theorem cut_indent (code : List Char) (missing last here : Nat) (back : List Token) :
    Cut missing (expressionReader code) (fun e => 0 < missing ∧ e = ⟨.invalidSyntax, here⟩)
      (List.replicate missing ⟨last, .dedent⟩ ++ [⟨last, .eof⟩]) (⟨here, .indent⟩ :: back) where
  ends := ⟨last, rfl⟩
  goesOn := ⟨_, back, rfl, rfl, rfl⟩
  fails hopen inLoop fuel := by
    obtain ⟨left, hexpr⟩ : ∃ left, expressionReader code (⟨here, .indent⟩ :: back) =
        .error ⟨.invalidSyntax, here⟩ left := parseExpr_indent _ 0 here back
    exact ⟨_, left, parseBlock_indent hexpr inLoop fuel, hopen, rfl⟩

theorem Scanner.StartsBehind.tokenize_eq (h : t.StartsBehind text tokens) :
    tokenize text = .ok tokens := by
  have hscan := h.scan_eq []
  rwa [List.append_nil, scan_nil, t.finish_eq, show t.endLine = t from if_pos h.empty,
    ← Scanner.closedAt, ← h.tokens_eq] at hscan

/-- In front of an indent the tokens of a fragment are read as before, until it comes to the indent:
outside of blocks, or in the innermost one that is still open. -/
theorem parseStatements_indent (hp : parseProgram p = .ok program) (ht : t.StartsBehind p tokens)
    (hcode : p.length ≤ code.length) (back : List Token) :
    ∃ left, parseStatements (expressionReader code)
        (2 * (t.tokens.reverse ++ ⟨t.line, .indent⟩ :: back).length + 2)
        (t.tokens.reverse ++ ⟨t.line, .indent⟩ :: back) =
      .error ⟨if t.indents = [] then .unexpectedIndent else .invalidSyntax, t.line⟩ left := by
  obtain ⟨_, left, htokens, hrun⟩ := parseProgram_eq_ok_iff.mp hp
  obtain rfl := Except.ok.inj (ht.tokenize_eq.symm.trans htokens)
  have hsealed : Sealed t.indents.length 0 t.tokens.reverse := by
    have hended := ht.sound.sealed
    rwa [show t.endLine = t from if_pos ht.empty] at hended
  have hsplit : tokens = t.tokens.reverse ++
      (List.replicate t.indents.length ⟨t.line, .dedent⟩ ++ [⟨t.line, .eof⟩]) := by
    rw [ht.tokens_eq, Scanner.closedAt, List.append_assoc]
  have hbelow := fieldsBelow_of_tokenize htokens
  rw [hsplit] at hrun hbelow
  have hstretch : Stretch (.moved 0 p) t.indents.length 0 t.tokens.reverse.length
      t.tokens.reverse t.tokens.reverse :=
    ⟨same_refl fun x hx => hbelow x (List.mem_append_left _ hx), hsealed, le_rfl⟩
  have hfuel (more : List Token) : 2 * t.tokens.reverse.length + 2 ≤
      2 * (t.tokens.reverse ++ more).length + 2 := by
    rw [List.length_append]
    omega
  rcases parseStatements_of_stretch (paired_expressionReader rfl hcode)
    (cut_indent code t.indents.length t.line t.line back) hstretch
    (2 * (t.tokens.reverse ++ ⟨t.line, .indent⟩ :: back).length + 2)
    ((Nat.le_succ _).trans (hfuel _)) (hfuel _) hrun with
    ⟨hnone, -, more, hmore, hread⟩ | ⟨e, stop, herror, hopen, rfl⟩
  · obtain ⟨more, rfl⟩ : ∃ less, more = less + 1 := by
      refine Nat.exists_eq_succ_of_ne_zero ?_
      have := hfuel (⟨t.line, .indent⟩ :: back)
      omega
    rw [if_pos (List.length_eq_zero_iff.mp hnone), hread]
    exact ⟨_, rfl⟩
  · rw [if_neg (List.length_pos_iff.mp hopen), herror]
    exact ⟨stop, rfl⟩

/-! ### Scanning a line at its width -/

/-- Blocks end where a line stands, and the innermost one that goes on has its width. -/
theorem Scanner.width_of_indentTo (h : s.indentTo width = .ok u) :
    u.indents.head?.getD 0 = width := by
  cases Scanner.indented_of_indentTo h with
  | deeper => rfl
  | reached _ hwidth => exact hwidth

theorem Scanner.indentTo_deeper (hdeeper : s.indents.head?.getD 0 < width)
    (hroom : s.indents.length < maxIndents) :
    s.indentTo width = .ok ({ s with indents := width :: s.indents }.push .indent) := by
  simp only [Scanner.indentTo, if_pos hdeeper, if_neg (Nat.not_le.mpr hroom)]

/-- A line without the white space in front of it. -/
def unindented (text : List Char) : List Char := text.dropWhile isInlineSpace

/-- One line that holds a simple statement and nothing else, at the given width. -/
structure StatementLine (width : Nat) (text : List Char) : Prop where
  oneLine : '\n' ∉ text
  column : indentWidth 0 text = width
  statement : ∃ tokens inLoop stmt last, tokenize (unindented text) = .ok tokens ∧
    parseSimpleLine (expressionReader text) inLoop tokens = .ok stmt [last] ∧ last.kind = .eof

namespace StatementLine

variable (h : StatementLine width text)

include h

theorem oneLine_unindented : '\n' ∉ unindented text :=
  fun hmem => h.oneLine ((List.dropWhile_suffix _).subset hmem)

/-- The statement begins the line. -/
theorem exists_first : ∃ c after, unindented text = c :: after ∧ isInlineSpace c = false ∧
    c ≠ '#' ∧ c ≠ '\n' := by
  obtain ⟨tokens, inLoop, stmt, last, htokens, hread, -⟩ := h.statement
  have hwritten : ∃ t ∈ tokens, t.kind.isLayout = false := by
    obtain ⟨body, here, heof⟩ := exists_eof htokens
    obtain ⟨t, back, rfl⟩ := List.exists_cons_of_ne_nil (l := tokens) (by simp [heof])
    have hstart := isSimpleStart_of_parseSimpleLine (readsExprs_parseExpr maxDepth 0) hread
    exact ⟨t, List.mem_cons_self .., isLayout_of_isSimpleStart hstart⟩
  obtain ⟨c, after, hspace, hcomment⟩ :=
    exists_first_of_written h.oneLine_unindented htokens hwritten
  obtain ⟨hmem, hstop⟩ := mem_and_stop_of_space hspace
  rw [unindented, List.dropWhile_idempotent] at hspace
  refine ⟨c, after, hspace, hstop, hcomment, ?_⟩
  rintro rfl
  exact h.oneLine_unindented hmem

/-- Where a logical line may begin, the indents are those of the line. -/
theorem scan_append (s : Scanner) (more : List Char) :
    scan true true s (text ++ more) =
      (s.locate (s.indentTo width)).bind fun s => scan true false s (unindented text ++ more) := by
  obtain ⟨c, after, hspace, hstop, hcomment, hnewline⟩ := h.exists_first
  have hmem : c ∈ text := (List.dropWhile_suffix _).subset (hspace ▸ List.mem_cons_self ..)
  rw [scan_of_cons (space_append hspace more), if_neg hcomment, if_neg hnewline, if_pos rfl,
    indentWidth_append hmem hstop, h.column, hspace]
  rfl

/-- The statement can be scanned in any place. -/
theorem exists_readsLine (s : Scanner) :
    ∃ tokens z, scan true false s (unindented text) = .ok tokens ∧
      s.ReadsLine (unindented text) z := by
  obtain ⟨tokens, -, -, -, htokens, -⟩ := h.statement
  obtain ⟨c, after, hspace, hstop, hcomment, hnewline⟩ := h.exists_first
  have halone : scan true false ⟨1, 0, [], []⟩ (unindented text) = .ok tokens := by
    rw [hspace] at htokens ⊢
    exact (scan_lineStart hstop hcomment hnewline).symm.trans htokens
  obtain ⟨tokens', hscan⟩ := exists_scan_of_line h.oneLine_unindented halone s
  obtain ⟨z, -, hz⟩ := LiveDoc.Fragment.exists_readsLine h.oneLine_unindented hscan
  exact ⟨tokens', z, hscan, hz⟩

/-- The statement can be scanned up to the end of its line. -/
theorem exists_scan (s : Scanner) (hrest : rest = [] ∨ rest = ['\n']) :
    ∃ tokens, scan true false s (unindented text ++ rest) = .ok tokens := by
  obtain ⟨tokens, z, hscan, hz⟩ := h.exists_readsLine s
  have hspace : ['\n'].dropWhile isInlineSpace = ['\n'] := rfl
  rcases hrest with rfl | rfl
  · exact ⟨tokens, by rw [List.append_nil, hscan]⟩
  · rw [hz.scan_append, scan_newline hspace]
    split
    · exact ⟨_, scan_nil⟩
    · exact ⟨_, scan_nil⟩

end StatementLine

/-- The last line of a text is a logical line of its own, at the given width, and holds a simple
statement. -/
def EndsInStatement (width : Nat) (text : List Char) : Prop :=
  ∃ front line, text = front ++ (line ++ ['\n']) ∧ StatementLine width line ∧
    ∃ (first : List Token) (s : Scanner), s.StartsBehind front first

/-- No bracket is open in front of the line end of a fragment that can be read. -/
theorem depth_of_parseProgram (hp : parseProgram p = .ok program) (hs : s.Sound)
    (hscan : tokenize p = scan true false s ['\n']) : s.depth = 0 := by
  by_contra hopen
  obtain ⟨tokens, left, htokens, hrun⟩ := parseProgram_eq_ok_iff.mp hp
  have hbalanced := depthOver_of_parseProgram hrun htokens
  have hspace : ['\n'].dropWhile isInlineSpace = ['\n'] := rfl
  rw [scan_newline hspace, if_neg hopen, scan_nil, htokens] at hscan
  rw [Except.ok.inj hscan, hs.nextLine.depthOver_finish] at hbalanced
  exact hopen hbalanced

/-- Behind a line at the given width, the innermost block has that width. -/
theorem exists_startsBehind_line (hlast : EndsInStatement width p)
    (hp : parseProgram p = .ok program) (htokens : tokenize p = .ok tokens) :
    ∃ t : Scanner, t.StartsBehind p tokens ∧ t.indents.head?.getD 0 = width := by
  obtain ⟨front, line, rfl, hline, first, s, hfront⟩ := hlast
  have hwhole := htokens
  rw [hfront.scan_eq, hline.scan_append] at hwhole
  obtain ⟨u, hu, -⟩ := Outcome.bind_eq_ok_iff.mp hwhole
  have hindent := Scanner.locate_eq_ok_iff.mp hu
  obtain ⟨-, z, -, hz⟩ := hline.exists_readsLine u
  have hsound : z.Sound := hz.sound (hfront.sound.indentTo hindent)
  have hscan (more : List Char) : tokenize (front ++ (line ++ ['\n']) ++ more) =
      scan true false z ('\n' :: more) := by
    rw [List.append_assoc, List.append_assoc, hfront.scan_eq, hline.scan_append, hu]
    exact hz.scan_append more
  have hclosed : z.depth = 0 :=
    depth_of_parseProgram hp hsound ((congrArg tokenize (List.append_nil _)).symm.trans (hscan []))
  have hcount : newlines (front ++ (line ++ ['\n'])) = newlines front + 1 := by
    rw [newlines_append, newlines_append, newlines_eq_zero hline.oneLine]
    rfl
  have hnumber : z.endLine.nextLine.line = 1 + newlines (front ++ (line ++ ['\n'])) := by
    rw [hcount, ← Nat.add_assoc, ← hfront.line_eq, ← Scanner.line_of_indentTo hindent,
      ← hz.line_eq]
    exact congrArg (· + 1) z.line_endLine
  have hindents : z.endLine.nextLine.indents = u.indents := z.indents_endLine.trans hz.indents_eq
  refine ⟨z.endLine.nextLine, .of_scan htokens hnumber (z.depth_endLine.trans hclosed)
    z.lineIsEmpty_endLine hsound.endLine.nextLine fun more => ?_, ?_⟩
  · rw [hscan, scan_lineEnd hclosed]
  · rw [hindents, Scanner.width_of_indentTo hindent]

/-! ### A fragment and a deeper line -/

/-- How many blocks end with the fragment: each has a dedent in front of the end. -/
def blocksAtEnd (tokens : List Token) : Nat :=
  (tokens.reverse.tail.takeWhile (isDedent ·.kind)).length

theorem Scanner.StartsBehind.blocksAtEnd_eq (h : t.StartsBehind text tokens) :
    blocksAtEnd tokens = t.indents.length := by
  have hstop : t.tokens.takeWhile (isDedent ·.kind) = [] := by
    cases htokens : t.tokens with
    | nil => rfl
    | cons last back =>
      have hlast := Scanner.kind_of_lineIsEmpty h.empty last (by simp [htokens])
      simp [hlast, isDedent]
  rw [blocksAtEnd, h.tokens_eq, Scanner.closedAt, List.reverse_concat, List.tail_cons,
    List.reverse_append, List.reverse_reverse, List.reverse_replicate,
    List.takeWhile_append_of_pos (fun t ht => by rw [List.eq_of_mem_replicate ht]; rfl), hstop,
    List.append_nil, List.length_replicate]

/-- A line that is indented deeper than the last statement of a fragment cannot be read behind it,
and the error is on that line. Only outside of blocks it is an unexpected indent. -/
theorem parseProgram_deeperLine (hp : parseProgram p = .ok program)
    (hlast : EndsInStatement width p) (htokens : tokenize p = .ok tokens)
    (hblocks : blocksAtEnd tokens < 100) (hnext : StatementLine deeper next)
    (hdeeper : width < deeper) (hrest : rest = [] ∨ rest = ['\n']) :
    parseProgram (p ++ (next ++ rest)) =
      .error ⟨if width = 0 then .unexpectedIndent else .invalidSyntax, newlines p + 1⟩ := by
  obtain ⟨t, ht, hwidth⟩ := exists_startsBehind_line hlast hp htokens
  have hindent := Scanner.indentTo_deeper (hwidth ▸ hdeeper) (ht.blocksAtEnd_eq ▸ hblocks)
  obtain ⟨whole, hscan⟩ :=
    hnext.exists_scan ({ t with indents := deeper :: t.indents }.push .indent) hrest
  obtain ⟨back, hback⟩ := tokens_scan hscan
  have hwhole : tokenize (p ++ (next ++ rest)) =
      .ok (t.tokens.reverse ++ ⟨t.line, .indent⟩ :: back) := by
    rw [ht.scan_eq, hnext.scan_append, hindent]
    refine hscan.trans (congrArg Except.ok (hback.symm.trans ?_))
    simp [Scanner.push]
  have hlength : p.length ≤ (p ++ (next ++ rest)).length := by simp
  obtain ⟨left, herror⟩ := parseStatements_indent hp ht hlength back
  have hcolumn : t.indents = [] ↔ width = 0 := by
    rw [← hwidth]
    cases hindents : t.indents with
    | nil => simp
    | cons outer more =>
      have hpos : 0 < outer := ht.pos outer (by simp [hindents])
      simp [hpos.ne']
  rw [parseProgram_eq hwhole, herror, ht.line_eq, Nat.add_comm 1]
  simp only [hcolumn]
  rfl

/-- A statement inside a block. -/
def blockLines : List Char := "if x:\n  y = 1\n".toList

/-- The line that is added. -/
def deeperText : List Char := "    z = 2".toList

theorem statementLine_deeperText : StatementLine 4 deeperText where
  oneLine := by decide
  column := by decide
  statement := ⟨[⟨1, .name "z"⟩, ⟨1, .symbol .assign⟩, ⟨1, .int 2⟩, ⟨1, .newline⟩, ⟨1, .eof⟩],
    false, .mk 1 (.assign (.name "z") (.constant (.int 2))), ⟨1, .eof⟩,
    Outcome.toOption_eq_some_iff.mp (by decide +kernel), rfl, rfl⟩

theorem endsInStatement_blockLines : EndsInStatement 2 blockLines := by
  have hcounts : (tokenize "if x:\n".toList).toOption.map (depthOver 0) = some 0 := by
    decide +kernel
  obtain ⟨first, hfirst, hdepth⟩ := Outcome.map_toOption_eq_some_iff.mp hcounts
  have hends : EndsLine "if x:\n".toList := ⟨by decide, by decide, by decide⟩
  refine ⟨"if x:\n".toList, "  y = 1".toList, rfl, ⟨by decide, by decide, ?_⟩, first,
    exists_startsBehind hfirst (.inr hends) hdepth⟩
  exact ⟨[⟨1, .name "y"⟩, ⟨1, .symbol .assign⟩, ⟨1, .int 1⟩, ⟨1, .newline⟩, ⟨1, .eof⟩], false,
    .mk 1 (.assign (.name "y") (.constant (.int 1))), ⟨1, .eof⟩,
    Outcome.toOption_eq_some_iff.mp (by decide +kernel), rfl, rfl⟩

theorem exists_tokens_blockLines :
    ∃ program tokens, parseProgram blockLines = .ok program ∧ tokenize blockLines = .ok tokens ∧
      blocksAtEnd tokens < 100 := by
  obtain ⟨program, hp⟩ := Outcome.isOk_iff_exists.mp
    (show (parseProgram blockLines).isOk = true by decide +kernel)
  have hcounts : (tokenize blockLines).toOption.map blocksAtEnd = some 1 := by decide +kernel
  obtain ⟨tokens, htokens, hblocks⟩ := Outcome.map_toOption_eq_some_iff.mp hcounts
  exact ⟨program, tokens, hp, htokens, hblocks ▸ by decide⟩

theorem parseProgram_deeperLine_in_block :
    ∃ program tokens, parseProgram blockLines = .ok program ∧ EndsInStatement 2 blockLines ∧
      tokenize blockLines = .ok tokens ∧ blocksAtEnd tokens < 100 ∧
      StatementLine 4 deeperText ∧
      parseProgram (blockLines ++ (deeperText ++ ['\n'])) =
        .error ⟨if 2 = 0 then .unexpectedIndent else .invalidSyntax, newlines blockLines + 1⟩ := by
  obtain ⟨program, tokens, hp, htokens, hblocks⟩ := exists_tokens_blockLines
  exact ⟨program, tokens, hp, endsInStatement_blockLines, htokens, hblocks,
    statementLine_deeperText, parseProgram_deeperLine hp endsInStatement_blockLines htokens hblocks
      statementLine_deeperText (by decide) (.inr rfl)⟩

/-- Inside a block a line may be too deep without an error that says so. -/
theorem deeperLine_unreported :
    ∃ program tokens, parseProgram blockLines = .ok program ∧ EndsInStatement 2 blockLines ∧
      tokenize blockLines = .ok tokens ∧ blocksAtEnd tokens < 100 ∧
      StatementLine 4 deeperText ∧
      ∃ e, parseProgram (blockLines ++ (deeperText ++ ['\n'])) = .error e ∧
        e.isIndentation = false ∧ e.message ≠ "unexpected indent" := by
  obtain ⟨program, tokens, hp, htokens, hblocks⟩ := exists_tokens_blockLines
  have herror : parseProgram (blockLines ++ (deeperText ++ ['\n'])) = .error ⟨.invalidSyntax, 3⟩ :=
    Outcome.error?_eq_some_iff.mp (by decide +kernel)
  exact ⟨program, tokens, hp, endsInStatement_blockLines, htokens, hblocks,
    statementLine_deeperText, _, herror, rfl, by decide⟩

end LiveDoc.Fragment
