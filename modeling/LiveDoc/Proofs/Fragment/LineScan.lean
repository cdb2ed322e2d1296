import LiveDoc.Proofs.Fragment.ScanBehind

/-!
Scanning one line. A text without newlines is scanned in front of a newline as it is alone, since
nothing in it reaches over its end: each token ends in it, a comment ends with it, and a backslash
that would join it to the next line cannot be read alone. So a line of a fragment gives the tokens
that it gives alone, in front of a newline token.
-/
namespace LiveDoc.Fragment

variable {text : List Char} {s z : Scanner} {tokens : List Token}

/-- At the end of a line the logical line ends, unless a bracket is open. -/
theorem scan_newline {after : List Char} (hspace : text.dropWhile isInlineSpace = '\n' :: after) :
    scan true false s text =
      if s.depth = 0 then scan true true s.endLine.nextLine after
      else scan true false s.nextLine after := by
  rw [scan_of_cons hspace]
  simp

theorem not_mem_of_space {c d : Char} {after : List Char} (hd : d ∉ text)
    (hspace : text.dropWhile isInlineSpace = c :: after) : c ≠ d ∧ d ∉ after := by
  have hsuffix : c :: after <:+ text := hspace ▸ List.dropWhile_suffix _
  refine ⟨?_, fun hmem => hd (hsuffix.subset (List.mem_cons_of_mem c hmem))⟩
  rintro rfl
  exact hd (hsuffix.subset (List.mem_cons_self ..))

/-- A comment goes on to the end of its line. -/
theorem dropWhile_line (h : '\n' ∉ text) : text.dropWhile (· ≠ '\n') = [] :=
  List.dropWhile_eq_nil_iff.mpr fun _ hc => decide_eq_true (ne_of_mem_of_not_mem hc h)

namespace Scanner

/-- Scanning the text of a line goes from `s` to `z`, and it does so in front of a newline, too. -/
structure ReadsLine (text : List Char) (s z : Scanner) : Prop where
  line_eq : z.line = s.line
  indents_eq : z.indents = s.indents
  sound : s.Sound → z.Sound
  written : ∃ words, z.tokens = words ++ s.tokens ∧
    ∀ t ∈ words, t.kind.isLayout = false ∧ t.line = s.line
  behind : ∀ {count : Nat} {before : List Token} {t : Scanner}, s.Behind count before t →
    ∃ y, z.Behind count before y ∧
      ∀ more, scan true false t (text ++ '\n' :: more) = scan true false y ('\n' :: more)

theorem ReadsLine.blank (hblank : text.dropWhile isInlineSpace = []) : ReadsLine text s s where
  line_eq := rfl
  indents_eq := rfl
  sound := id
  written := ⟨[], rfl, by simp⟩
  behind {count before t} h := by
    refine ⟨t, h, fun more => ?_⟩
    have hspace : (text ++ '\n' :: more).dropWhile isInlineSpace = '\n' :: more := by
      rw [List.dropWhile_append, hblank]
      rfl
    have hnewline : ('\n' :: more).dropWhile isInlineSpace = '\n' :: more := rfl
    rw [scan_newline hspace, scan_newline hnewline]

theorem ReadsLine.comment {after : List Char} (hspace : text.dropWhile isInlineSpace = '#' :: after)
    (hline : '\n' ∉ after) : ReadsLine text s s where
  line_eq := rfl
  indents_eq := rfl
  sound := id
  written := ⟨[], rfl, by simp⟩
  behind {count before t} h := by
    refine ⟨t, h, fun more => ?_⟩
    have hended : (after ++ '\n' :: more).dropWhile (· ≠ '\n') = '\n' :: more := by
      rw [List.dropWhile_append, dropWhile_line hline]
      rfl
    rw [scan_of_cons (space_append hspace _), if_pos rfl, hended]

theorem ReadsLine.lexeme {c : Char} {after : List Char} {l : Lexeme}
    (hspace : text.dropWhile isInlineSpace = c :: after) (hread : readLexeme c after = .ok l)
    (hnone : l.newlines = 0) (h : ReadsLine (after.drop l.size) (s.add l) z) :
    ReadsLine text s z where
  line_eq := by rw [h.line_eq, Scanner.add, hnone, Nat.add_zero]
  indents_eq := h.indents_eq
  sound hs := h.sound (hs.add (isLayout_of_readLexeme hread))
  written := by
    obtain ⟨words, htokens, hwords⟩ := h.written
    refine ⟨words ++ [⟨s.line, l.kind⟩], ?_, ?_⟩
    · rw [htokens, List.append_assoc]
      rfl
    · intro t ht
      rcases List.mem_append.mp ht with ht | ht
      · obtain ⟨hlayout, hline⟩ := hwords t ht
        rw [Scanner.add, hnone] at hline
        exact ⟨hlayout, hline⟩
      · rw [List.mem_singleton.mp ht]
        exact ⟨isLayout_of_readLexeme hread, rfl⟩
  behind {count before t} hbehind := by
    obtain ⟨y, hy, hscan⟩ := h.behind (hbehind.add l)
    refine ⟨y, hy, fun more => ?_⟩
    obtain ⟨hcomment, hline, hbackslash⟩ := ne_of_readLexeme hread
    have hbreak : BreaksOff ('\n' :: more) := by simp [BreaksOff]
    obtain ⟨hagain, hsize⟩ := readLexeme_append_of_break hbreak hread
    rw [scan_of_cons (space_append hspace _), if_neg hcomment, if_neg hline,
      if_neg Bool.false_ne_true, joinSize_of_ne hbackslash, hagain, ← hscan, ← List.drop_append_of_le_length hsize]
    rfl

end Scanner

theorem exists_readsLine (hline : '\n' ∉ text) (hscan : scan true false s text = .ok tokens) :
    ∃ z : Scanner, tokens = z.finish true ∧ s.ReadsLine text z := by
  generalize hstart : false = atStart at hscan
  fun_induction scan true atStart s text with
  | case1 atStart s text rest hspace =>
    cases hscan
    exact ⟨s, rfl, .blank hspace⟩
  | case2 atStart s text rest after hspace ih =>
    have hnone := (not_mem_of_space hline hspace).2
    rw [dropWhile_line hnone, scan_of_blank rfl] at hscan
    cases hscan
    exact ⟨s, rfl, .comment hspace hnone⟩
  | case3 => cases hstart
  | case4 atStart s text rest after _ _ hspace =>
    exact absurd rfl (not_mem_of_space hline hspace).1
  | case5 atStart s text rest after _ _ hspace =>
    exact absurd rfl (not_mem_of_space hline hspace).1
  | case6 => cases hstart
  | case7 atStart s text rest c after hspace hcomment hnewline _ size hjoin ih =>
    -- A backslash joins a line to the next one only in front of a newline.
    have hnone := (not_mem_of_space hline hspace).2
    fun_cases joinSize c after with
    | case1 => simp at hnone
    | case2 => simp at hnone
    | case3 => simp [joinSize] at hjoin
  | case8 atStart s text rest c after hspace hcomment hnewline _ hjoin ih =>
    have hnone := (not_mem_of_space hline hspace).2
    obtain ⟨l, hl, hscan⟩ := Outcome.bind_eq_ok_iff.mp hscan
    have hread := Scanner.locate_eq_ok_iff.mp hl
    obtain ⟨z, htokens, hz⟩ := ih l (fun hmem => hnone (List.mem_of_mem_drop hmem)) rfl hscan
    have hsize : l.newlines = 0 := by
      rw [newlines_of_readLexeme hnewline hread]
      exact newlines_eq_zero fun hmem => hnone (List.mem_of_mem_take hmem)
    exact ⟨z, htokens, .lexeme hspace hread hsize hz⟩

namespace Scanner

theorem Behind.eq {s t : Scanner} (h : Behind 0 [] s t) : t = s := by
  obtain ⟨line, depth, indents, tokens⟩ := t
  obtain rfl : line = s.line := h.line_eq
  obtain rfl : depth = s.depth := h.depth_eq
  obtain rfl : indents = s.indents := h.indents_eq
  obtain rfl : tokens = s.tokens :=
    h.tokens_eq.trans ((List.append_nil _).trans (List.map_id'' (fun _ => rfl) _))
  rfl

/-- Behind the line there may be others. -/
theorem ReadsLine.scan_append (h : s.ReadsLine text z) (more : List Char) :
    scan true false s (text ++ '\n' :: more) = scan true false z ('\n' :: more) := by
  have hself : s.Behind 0 [] s := ⟨rfl, rfl, rfl,
    ((List.append_nil _).trans (List.map_id'' (fun _ => rfl) _)).symm⟩
  obtain ⟨y, hy, hscan⟩ := h.behind hself
  rw [hscan, hy.eq]

end Scanner

/-- It does not depend on the scanner whether a line can be scanned. -/
theorem exists_scan_of_line (hline : '\n' ∉ text) (hscan : scan true false s text = .ok tokens)
    (t : Scanner) : ∃ tokens', scan true false t text = .ok tokens' := by
  generalize hstart : false = atStart at hscan
  fun_induction scan true atStart s text generalizing t with
  | case1 atStart s text rest hspace => exact ⟨_, scan_of_blank hspace⟩
  | case2 atStart s text rest after hspace ih =>
    rw [scan_of_cons hspace, if_pos rfl, dropWhile_line (not_mem_of_space hline hspace).2]
    exact ⟨_, scan_nil⟩
  | case3 => cases hstart
  | case4 atStart s text rest after _ _ hspace =>
    exact absurd rfl (not_mem_of_space hline hspace).1
  | case5 atStart s text rest after _ _ hspace =>
    exact absurd rfl (not_mem_of_space hline hspace).1
  | case6 => cases hstart
  | case7 atStart s text rest c after hspace hcomment hnewline _ size hjoin ih =>
    have hnone := (not_mem_of_space hline hspace).2
    fun_cases joinSize c after with
    | case1 => simp at hnone
    | case2 => simp at hnone
    | case3 => simp [joinSize] at hjoin
  | case8 atStart s text rest c after hspace hcomment hnewline hnot hjoin ih =>
    have hnone := (not_mem_of_space hline hspace).2
    obtain ⟨l, hl, hscan⟩ := Outcome.bind_eq_ok_iff.mp hscan
    have hread := Scanner.locate_eq_ok_iff.mp hl
    rw [scan_of_cons hspace, if_neg hcomment, if_neg hnewline, if_neg hnot, hjoin,
      Scanner.locate_eq_ok_iff.mpr hread]
    exact ih l (fun hmem => hnone (List.mem_of_mem_drop hmem)) (t.add l) rfl hscan

/-! ### A line in column 0 -/

theorem mem_and_stop_of_space {c : Char} {after : List Char}
    (hspace : text.dropWhile isInlineSpace = c :: after) : c ∈ text ∧ isInlineSpace c = false := by
  have hsuffix : c :: after <:+ text := hspace ▸ List.dropWhile_suffix _
  have hhead := List.head?_dropWhile_not isInlineSpace text
  rw [hspace] at hhead
  exact ⟨hsuffix.subset (List.mem_cons_self ..), hhead⟩

/-- A line in column 0 closes all blocks. -/
theorem scan_column {c : Char} {after : List Char}
    (hspace : text.dropWhile isInlineSpace = c :: after) (hcomment : c ≠ '#') (hnewline : c ≠ '\n')
    (hcolumn : indentWidth 0 text = 0) (hpos : ∀ width ∈ s.indents, 0 < width) :
    scan true true s text = scan true false (s.dedent s.indents.length) (c :: after) := by
  rw [scan_of_cons hspace, if_neg hcomment, if_neg hnewline, if_pos rfl, hcolumn,
    Scanner.indentTo_zero hpos]
  rfl

/-- A text that gives a token begins with no comment. -/
theorem exists_first_of_written (hline : '\n' ∉ text) (htokens : tokenize text = .ok tokens)
    (hwritten : ∃ t ∈ tokens, t.kind.isLayout = false) :
    ∃ c after, text.dropWhile isInlineSpace = c :: after ∧ c ≠ '#' := by
  have hnone : tokenize text ≠ .ok [⟨1, .eof⟩] := by
    intro heof
    rw [heof] at htokens
    cases htokens
    simp at hwritten
    cases hwritten
  cases hspace : text.dropWhile isInlineSpace with
  | nil => exact absurd (scan_of_blank hspace) hnone
  | cons c after =>
    refine ⟨c, after, rfl, ?_⟩
    rintro rfl
    refine hnone ((scan_of_cons hspace).trans ?_)
    rw [if_pos rfl, dropWhile_line (not_mem_of_space hline hspace).2]
    exact scan_of_blank rfl

namespace Scanner

theorem endLine_of_written (hsome : s.tokens ≠ [])
    (hwritten : ∀ t ∈ s.tokens, t.kind.isLayout = false) : s.endLine = s.push .newline := by
  obtain ⟨⟨line, kind⟩, rest, htokens⟩ := List.exists_cons_of_ne_nil hsome
  have hkind := hwritten ⟨line, kind⟩ (by simp [htokens])
  refine if_neg ?_
  rw [lineIsEmpty, htokens]
  cases kind with
  | newline => cases hkind
  | _ => exact Bool.false_ne_true

namespace ReadsLine

theorem plain (h : ReadsLine text ⟨1, 0, [], []⟩ z) :
    ∀ t ∈ z.tokens, t.kind.isLayout = false ∧ t.line = 1 := by
  obtain ⟨words, hwords, hplain⟩ := h.written
  rwa [hwords, List.append_nil]

theorem tokens_ne_nil (h : ReadsLine text ⟨1, 0, [], []⟩ z)
    (hwritten : ∃ t ∈ z.finish true, t.kind.isLayout = false) : z.tokens ≠ [] := by
  intro hnil
  have hended : z.endLine = z := if_pos (by rw [lineIsEmpty, hnil])
  rw [finish_eq, hended, hnil, show z.indents = [] from h.indents_eq] at hwritten
  simp at hwritten
  cases hwritten

theorem endLine_eq (h : ReadsLine text ⟨1, 0, [], []⟩ z) (hsome : z.tokens ≠ []) :
    z.endLine = z.push .newline :=
  endLine_of_written hsome fun t ht => (h.plain t ht).1

theorem finish_eq_words (h : ReadsLine text ⟨1, 0, [], []⟩ z) (hsome : z.tokens ≠ []) :
    z.finish true = z.tokens.reverse ++ [⟨1, .newline⟩, ⟨1, .eof⟩] := by
  rw [finish_eq, h.endLine_eq hsome, show z.indents = [] from h.indents_eq]
  simp [push, show z.line = 1 from h.line_eq]

end ReadsLine

end Scanner

/-- A line that gives the tokens `words`, alone and in front of other lines. -/
structure GivesWords (text : List Char) (words : List Token) : Prop where
  some : words ≠ []
  written : ∀ t ∈ words, t.kind.isLayout = false ∧ t.line = 1
  alone : tokenize text = .ok (words ++ [⟨1, .newline⟩, ⟨1, .eof⟩])
  behind : ∀ {t : Scanner} {count : Nat} {more : List Char} {whole : List Token},
    t.line = 1 + count → t.depth = 0 → (∀ width ∈ t.indents, 0 < width) →
      scan true true t (text ++ '\n' :: more) = .ok whole →
        ∃ v, v ≠ [] ∧ whole = t.closedAt t.line ++
          (words.map (Token.moved count) ++ ⟨t.line, .newline⟩ :: v)

theorem exists_givesWords (hline : '\n' ∉ text) (hcolumn : indentWidth 0 text = 0)
    (htokens : tokenize text = .ok tokens) (hwritten : ∃ t ∈ tokens, t.kind.isLayout = false)
    (hdepth : depthOver 0 tokens = 0) : ∃ words, GivesWords text words := by
  obtain ⟨c, after, hspace, hcomment⟩ := exists_first_of_written hline htokens hwritten
  obtain ⟨hnewline, hnone⟩ := not_mem_of_space hline hspace
  obtain ⟨hmem, hstop⟩ := mem_and_stop_of_space hspace
  have hfresh : (⟨1, 0, [], []⟩ : Scanner).Sound := ⟨rfl, rfl, by simp, by simp⟩
  have hscan : scan true false ⟨1, 0, [], []⟩ (c :: after) = .ok tokens :=
    (scan_column hspace hcomment hnewline hcolumn (by simp)).symm.trans htokens
  obtain ⟨z, rfl, hz⟩ := exists_readsLine (by simp [hnewline.symm, hnone]) hscan
  have hsome := hz.tokens_ne_nil hwritten
  have hfinish := hz.finish_eq_words hsome
  refine ⟨z.tokens.reverse, by simpa using hsome,
    fun t ht => hz.plain t (List.mem_reverse.mp ht), hfinish ▸ htokens, ?_⟩
  intro t count more whole htline htdepth hpos hwhole
  -- The line closes all indents of `t` and ends where it ends alone.
  have hstart : (⟨1, 0, [], []⟩ : Scanner).Behind count (t.dedent t.indents.length).tokens
      (t.dedent t.indents.length) :=
    ⟨by rw [Scanner.line_dedent, htline], by rw [Scanner.depth_dedent, htdepth],
      by rw [Scanner.indents_dedent, List.drop_length], by simp⟩
  obtain ⟨y, hy, hyscan⟩ := hz.behind hstart
  have hclosed : y.depth = 0 := by
    rw [hfinish, depthOver_append] at hdepth
    exact hy.depth_eq.trans ((hz.sound hfresh).depth_eq.trans hdepth)
  have hbehind : scan true true y.endLine.nextLine more = .ok whole := by
    rw [scan_column (space_append hspace _) hcomment hnewline
      ((indentWidth_append hmem hstop ..).trans hcolumn) hpos] at hwhole
    have hnext := (hyscan more).symm.trans hwhole
    have hend : ('\n' :: more).dropWhile isInlineSpace = '\n' :: more := rfl
    rwa [scan_newline hend, if_pos hclosed] at hnext
  obtain ⟨gap, -, hgap, hyended⟩ := hy.endLine
  obtain rfl := hgap (hy.lineIsEmpty hsome)
  have hytokens : y.endLine.nextLine.tokens.reverse = t.closedAt t.line ++
      (z.tokens.reverse.map (Token.moved count) ++ [⟨t.line, .newline⟩]) := by
    rw [Scanner.nextLine, hyended.tokens_eq, hz.endLine_eq hsome, htline]
    simp [Scanner.push, Token.moved, show z.line = 1 from hz.line_eq, Scanner.tokens_dedent,
      Scanner.closedAt, htline]
  obtain ⟨v, rfl⟩ := tokens_scan hbehind
  refine ⟨v, ?_, by simp [hytokens]⟩
  rintro rfl
  obtain ⟨body, last, heof⟩ := exists_eof hbehind
  rw [hytokens, List.append_nil, ← List.append_assoc] at heof
  cases (List.append_inj' heof rfl).2

end LiveDoc.Fragment
