import LiveDoc.Proofs.Fragment.ScanEnd

/-!
Scanning one text behind another. A scanner that differs only in its line and in the tokens it has
already reads the same tokens, on later lines. Where a text is ended, the indents that are still
open are closed in front of the first token of the text behind it, just as they would be at the
end. So the tokens of two texts in a row are those of the first one, without the end, and then
those of the second one.
-/
namespace LiveDoc.Fragment

variable {text : List Char} {s : Scanner} {atStart : Bool} {tokens : List Token}

def Token.moved (count : Nat) (t : Token) : Token := ⟨t.line + count, t.kind⟩

/-- The second scanner does what the first one does, `count` lines further on and behind the tokens
`before`, which are in reverse. -/
structure Scanner.Behind (count : Nat) (before : List Token) (s t : Scanner) : Prop where
  line_eq : t.line = s.line + count
  depth_eq : t.depth = s.depth
  indents_eq : t.indents = s.indents
  tokens_eq : t.tokens = s.tokens.map (Token.moved count) ++ before

/-- One more newline token may stand in front of the tokens of a text. -/
def IsGap (gap : List Token) : Prop := gap = [] ∨ ∃ line, gap = [⟨line, .newline⟩]

theorem Scanner.tokens_dedent (s : Scanner) (count : Nat) :
    (s.dedent count).tokens = List.replicate count ⟨s.line, .dedent⟩ ++ s.tokens := by
  induction count generalizing s with
  | zero => rfl
  | succ count ih =>
    rw [Scanner.dedent, ih, List.replicate_succ']
    simp [push]

namespace Scanner.Behind

variable {count : Nat} {before : List Token} {s t : Scanner}

theorem push (h : Behind count before s t) (kind : Token.Kind) :
    Behind count before (s.push kind) (t.push kind) where
  line_eq := h.line_eq
  depth_eq := h.depth_eq
  indents_eq := h.indents_eq
  tokens_eq := by simp [Scanner.push, h.tokens_eq, h.line_eq, Token.moved]

theorem nextLine (h : Behind count before s t) : Behind count before s.nextLine t.nextLine where
  line_eq := by
    simp only [Scanner.nextLine, h.line_eq]
    omega
  depth_eq := h.depth_eq
  indents_eq := h.indents_eq
  tokens_eq := h.tokens_eq

theorem dedent (h : Behind count before s t) (closed : Nat) :
    Behind count before (s.dedent closed) (t.dedent closed) := by
  induction closed generalizing s t with
  | zero => exact h
  | succ closed ih =>
    have hpopped : Behind count before { s with indents := s.indents.drop 1 }
        { t with indents := t.indents.drop 1 } :=
      ⟨h.line_eq, h.depth_eq, congrArg (List.drop 1) h.indents_eq, h.tokens_eq⟩
    exact ih (hpopped.push .dedent)

theorem add (h : Behind count before s t) (l : Lexeme) :
    Behind count before (s.add l) (t.add l) where
  line_eq := by
    simp only [Scanner.add, h.line_eq]
    omega
  depth_eq := by simp only [Scanner.add, h.depth_eq]
  indents_eq := h.indents_eq
  tokens_eq := (h.push l.kind).tokens_eq

/-- The second one tells whether the line is empty by the same token, if there is one. -/
theorem lineIsEmpty (h : Behind count before s t) (hsome : s.tokens ≠ []) :
    t.lineIsEmpty = s.lineIsEmpty := by
  obtain ⟨last, rest, hlast⟩ := List.exists_cons_of_ne_nil hsome
  simp [Scanner.lineIsEmpty, h.tokens_eq, hlast, Token.moved]

theorem endLine (h : Behind count before s t) :
    ∃ gap, IsGap gap ∧ (t.lineIsEmpty = s.lineIsEmpty → gap = []) ∧
      Behind count (gap ++ before) s.endLine t.endLine := by
  cases hs : s.lineIsEmpty with
  | false =>
    have hsome : s.tokens ≠ [] := by
      intro hnil
      simp [Scanner.lineIsEmpty, hnil] at hs
    have ht : t.lineIsEmpty = false := (h.lineIsEmpty hsome).trans hs
    refine ⟨[], .inl rfl, fun _ => rfl, ?_⟩
    simpa [Scanner.endLine, hs, ht] using h.push .newline
  | true =>
    cases ht : t.lineIsEmpty with
    | true => exact ⟨[], .inl rfl, fun _ => rfl, by simpa [Scanner.endLine, hs, ht] using h⟩
    | false =>
      have hnil : s.tokens = [] := by
        by_contra hsome
        rw [h.lineIsEmpty hsome, hs] at ht
        cases ht
      refine ⟨[⟨t.line, .newline⟩], .inr ⟨t.line, rfl⟩, Bool.noConfusion, ?_⟩
      have htokens := h.tokens_eq
      simp only [hnil, List.map_nil, List.nil_append] at htokens
      simp only [Scanner.endLine, hs, ht, if_true, Bool.false_eq_true, if_false]
      exact ⟨h.line_eq, h.depth_eq, h.indents_eq, by simp [Scanner.push, hnil, htokens]⟩

theorem indentTo {width : Nat} {u : Scanner} (h : Behind count before s t)
    (hu : s.indentTo width = .ok u) :
    ∃ v, t.indentTo width = .ok v ∧ Behind count before u v ∧
      (t.lineIsEmpty = s.lineIsEmpty → v.lineIsEmpty = u.lineIsEmpty) := by
  simp only [Scanner.indentTo, h.indents_eq] at hu ⊢
  split at hu
  · rename_i hdeeper
    split at hu
    · cases hu
    · rename_i hroom
      cases hu
      rw [if_pos hdeeper, if_neg hroom]
      have hopened : Behind count before { s with indents := width :: s.indents }
          { t with indents := width :: s.indents } :=
        ⟨h.line_eq, h.depth_eq, rfl, h.tokens_eq⟩
      exact ⟨_, rfl, hopened.push .indent, fun _ => rfl⟩
  · rename_i hdeeper
    rw [if_neg hdeeper]
    generalize (s.indents.takeWhile (width < ·)).length = closed at hu ⊢
    have hclosed := h.dedent closed
    rw [hclosed.indents_eq]
    split at hu
    · rename_i hwidth
      cases hu
      rw [if_pos hwidth]
      refine ⟨_, rfl, hclosed, fun hsame => ?_⟩
      cases closed with
      | zero => exact hsame
      | succ closed => exact hclosed.lineIsEmpty (by simp [Scanner.tokens_dedent])
    · cases hu

theorem finish (h : Behind count before s t) (layout : Bool) :
    ∃ gap, IsGap gap ∧ (t.lineIsEmpty = s.lineIsEmpty ∨ layout = false → gap = []) ∧
      t.finish layout = before.reverse ++ gap ++ (s.finish layout).map (Token.moved count) := by
  cases layout with
  | false =>
    refine ⟨[], .inl rfl, fun _ => rfl, ?_⟩
    simp [Scanner.finish, (h.push .eof).tokens_eq]
  | true =>
    obtain ⟨gap, hgap, hnone, hended⟩ := h.endLine
    have hclosed := (hended.dedent s.indents.length).push .eof
    refine ⟨gap, hgap, fun hsame => hnone (hsame.resolve_right (by decide)), ?_⟩
    have hreverse : gap.reverse = gap := by
      rcases hgap with rfl | ⟨line, rfl⟩ <;> rfl
    simp [Scanner.finish, h.indents_eq, hclosed.tokens_eq, hreverse]

end Scanner.Behind

theorem scan_behind {layout : Bool} {count : Nat}
    (hscan : scan layout atStart s text = .ok tokens) :
    ∀ {before : List Token} {t : Scanner}, s.Behind count before t →
      ∃ gap, IsGap gap ∧ (t.lineIsEmpty = s.lineIsEmpty ∨ layout = false → gap = []) ∧
        scan layout atStart t text =
          .ok (before.reverse ++ gap ++ tokens.map (Token.moved count)) := by
  fun_induction scan layout atStart s text with
  | case1 atStart s text rest hspace =>
    intro before t h
    cases hscan
    rw [scan_of_blank hspace]
    obtain ⟨gap, hgap, hnone, hfinish⟩ := h.finish layout
    exact ⟨gap, hgap, hnone, congrArg Except.ok hfinish⟩
  | case2 atStart s text rest after hspace ih =>
    intro before t h
    rw [scan_of_cons hspace, if_pos rfl]
    exact ih hscan h
  | case3 s text rest after hspace hcomment ih =>
    intro before t h
    rw [scan_of_cons hspace, if_neg hcomment, if_pos rfl, if_pos rfl]
    exact ih hscan h.nextLine
  | case4 atStart s text rest after hstart hdepth hspace hcomment ih =>
    intro before t h
    rw [scan_of_cons hspace, if_neg hcomment, if_pos rfl, if_neg hstart, h.depth_eq, if_pos hdepth]
    obtain ⟨gap, hgap, hnone, hended⟩ := h.endLine
    obtain ⟨more, -, hmore, hrest⟩ := ih hscan hended.nextLine
    have hempty : t.endLine.nextLine.lineIsEmpty = s.endLine.nextLine.lineIsEmpty :=
      t.lineIsEmpty_endLine.trans s.lineIsEmpty_endLine.symm
    have hreverse : gap.reverse = gap := by
      rcases hgap with rfl | ⟨line, rfl⟩ <;> rfl
    refine ⟨gap, hgap, ?_, ?_⟩
    · rintro (hsame | rfl)
      · exact hnone hsame
      · exact absurd hdepth (by simp)
    · rw [hrest, hmore (.inl hempty)]
      simp [hreverse]
  | case5 atStart s text rest after hstart hdepth hspace hcomment ih =>
    intro before t h
    rw [scan_of_cons hspace, if_neg hcomment, if_pos rfl, if_neg hstart, h.depth_eq,
      if_neg hdepth]
    exact ih hscan h.nextLine
  | case6 s text rest c after hspace hcomment hline ih =>
    intro before t h
    obtain ⟨u, hu, hscan⟩ := Outcome.bind_eq_ok_iff.mp hscan
    obtain ⟨v, hv, hbehind, hempty⟩ := h.indentTo (Scanner.locate_eq_ok_iff.mp hu)
    obtain ⟨gap, hgap, hnone, hrest⟩ := ih u hscan hbehind
    refine ⟨gap, hgap, fun hsame => hnone (hsame.imp_left hempty), ?_⟩
    rw [scan_of_cons hspace, if_neg hcomment, if_neg hline, if_pos rfl,
      Scanner.locate_eq_ok_iff.mpr hv, ← hrest]
    rw [hspace]
    rfl
  | case7 atStart s text rest c after hspace hcomment hline hstart size hjoin ih =>
    intro before t h
    rw [scan_of_cons hspace, if_neg hcomment, if_neg hline, if_neg hstart, hjoin]
    exact ih hscan h.nextLine
  | case8 atStart s text rest c after hspace hcomment hline hstart hjoin ih =>
    intro before t h
    obtain ⟨l, hl, hscan⟩ := Outcome.bind_eq_ok_iff.mp hscan
    have hread := Scanner.locate_eq_ok_iff.mp hl
    obtain ⟨gap, hgap, hnone, hrest⟩ := ih l hscan (h.add l)
    have hempty : (t.add l).lineIsEmpty = (s.add l).lineIsEmpty :=
      (h.add l).lineIsEmpty (List.cons_ne_nil _ _)
    refine ⟨gap, hgap, fun _ => hnone (.inl hempty), ?_⟩
    rw [scan_of_cons hspace, if_neg hcomment, if_neg hline, if_neg hstart, hjoin,
      Scanner.locate_eq_ok_iff.mpr hread, ← hrest]
    rfl

/-- Without layout it does not depend on the scanner whether a text can be scanned. -/
theorem exists_error_of_scan {e : SyntaxError} (hscan : scan false atStart s text = .error e)
    (hstart : atStart = false) (t : Scanner) : ∃ e', scan false false t text = .error e' := by
  fun_induction scan false atStart s text generalizing t with
  | case1 => cases hscan
  | case2 atStart s text rest after hspace ih =>
    rw [scan_of_cons hspace, if_pos rfl]
    exact ih hscan hstart t
  | case3 => cases hstart
  | case4 atStart s text rest after _ hdepth => cases hdepth
  | case5 atStart s text rest after _ hdepth hspace hcomment ih =>
    rw [scan_of_cons hspace, if_neg hcomment, if_pos rfl]
    exact ih hscan rfl t.nextLine
  | case6 => cases hstart
  | case7 atStart s text rest c after hspace hcomment hline _ size hjoin ih =>
    rw [scan_of_cons hspace, if_neg hcomment, if_neg hline, if_neg Bool.false_ne_true, hjoin]
    exact ih hscan rfl t.nextLine
  | case8 atStart s text rest c after hspace hcomment hline _ hjoin ih =>
    rw [scan_of_cons hspace, if_neg hcomment, if_neg hline, if_neg Bool.false_ne_true, hjoin]
    cases hread : readLexeme c after with
    | error cause => exact ⟨_, rfl⟩
    | ok l =>
      rw [hread] at hscan
      exact ih l hscan rfl (t.add l)

theorem tokenizeExpression_moved (text : List Char) (line count : Nat) :
    (tokenizeExpression text (line + count)).toOption =
      (tokenizeExpression text line).toOption.map (List.map (Token.moved count)) := by
  cases htokens : tokenizeExpression text line with
  | error e =>
    obtain ⟨e', herror⟩ := exists_error_of_scan htokens rfl ⟨line + count, 0, [], []⟩
    rw [tokenizeExpression, herror]
    rfl
  | ok tokens =>
    have hbehind : (⟨line, 0, [], []⟩ : Scanner).Behind count [] ⟨line + count, 0, [], []⟩ :=
      ⟨rfl, rfl, rfl, rfl⟩
    obtain ⟨gap, -, hgap, hscan⟩ := scan_behind htokens hbehind
    rw [hgap (.inr rfl)] at hscan
    rw [tokenizeExpression, hscan]
    rfl

/-! ### Tokens stay -/

theorem Scanner.tokens_endLine (s : Scanner) : s.tokens <:+ s.endLine.tokens := by
  unfold endLine
  split
  · exact List.suffix_rfl
  · exact List.suffix_cons _ _

theorem Scanner.tokens_dedent_suffix (s : Scanner) (count : Nat) :
    s.tokens <:+ (s.dedent count).tokens := by
  rw [Scanner.tokens_dedent]
  exact List.suffix_append _ _

theorem Scanner.tokens_indentTo {s u : Scanner} {width : Nat} (h : s.indentTo width = .ok u) :
    s.tokens <:+ u.tokens := by
  cases Scanner.indented_of_indentTo h with
  | deeper => exact List.suffix_cons _ _
  | reached => exact s.tokens_dedent_suffix _

theorem Scanner.tokens_finish (s : Scanner) (layout : Bool) :
    s.tokens.reverse <+: s.finish layout := by
  refine List.reverse_prefix.mpr (List.IsSuffix.trans ?_ (List.suffix_cons _ _))
  cases layout with
  | false => exact List.suffix_rfl
  | true => exact s.tokens_endLine.trans (Scanner.tokens_dedent_suffix _ _)

/-- Scanning gives the tokens that it has first. -/
theorem tokens_scan {layout : Bool} (hscan : scan layout atStart s text = .ok tokens) :
    s.tokens.reverse <+: tokens := by
  fun_induction scan layout atStart s text with
  | case1 atStart s text rest hspace =>
    cases hscan
    exact s.tokens_finish layout
  | case2 atStart s text rest after hspace ih => exact ih hscan
  | case3 s text rest after hspace hcomment ih => exact ih hscan
  | case4 atStart s text rest after hstart hdepth hspace hcomment ih =>
    exact (List.reverse_prefix.mpr s.tokens_endLine).trans (ih hscan)
  | case5 atStart s text rest after hstart hdepth hspace hcomment ih => exact ih hscan
  | case6 s text rest c after hspace hcomment hline ih =>
    obtain ⟨u, hu, hscan⟩ := Outcome.bind_eq_ok_iff.mp hscan
    have hkept := Scanner.tokens_indentTo (Scanner.locate_eq_ok_iff.mp hu)
    exact (List.reverse_prefix.mpr hkept).trans (ih u hscan)
  | case7 atStart s text rest c after hspace hcomment hline hstart size hjoin ih => exact ih hscan
  | case8 atStart s text rest c after hspace hcomment hline hstart hjoin ih =>
    obtain ⟨l, -, hscan⟩ := Outcome.bind_eq_ok_iff.mp hscan
    exact (List.reverse_prefix.mpr (List.suffix_cons _ _)).trans (ih l hscan)

theorem exists_eof {layout : Bool} (hscan : scan layout atStart s text = .ok tokens) :
    ∃ body line, tokens = body ++ [⟨line, .eof⟩] := by
  fun_induction scan layout atStart s text with
  | case1 atStart s text rest hspace =>
    cases hscan
    exact ⟨_, _, List.reverse_cons⟩
  | case2 atStart s text rest after hspace ih => exact ih hscan
  | case3 s text rest after hspace hcomment ih => exact ih hscan
  | case4 atStart s text rest after hstart hdepth hspace hcomment ih => exact ih hscan
  | case5 atStart s text rest after hstart hdepth hspace hcomment ih => exact ih hscan
  | case6 s text rest c after hspace hcomment hline ih =>
    obtain ⟨u, -, hscan⟩ := Outcome.bind_eq_ok_iff.mp hscan
    exact ih u hscan
  | case7 atStart s text rest c after hspace hcomment hline hstart size hjoin ih => exact ih hscan
  | case8 atStart s text rest c after hspace hcomment hline hstart hjoin ih =>
    obtain ⟨l, -, hscan⟩ := Outcome.bind_eq_ok_iff.mp hscan
    exact ih l hscan

/-! ### Open indents in front of a text -/

theorem Scanner.indents_dedent (s : Scanner) (count : Nat) :
    (s.dedent count).indents = s.indents.drop count := by
  induction count generalizing s with
  | zero => rfl
  | succ count ih =>
    rw [Scanner.dedent, ih]
    simp [push]

theorem Scanner.depth_dedent (s : Scanner) (count : Nat) : (s.dedent count).depth = s.depth := by
  induction count generalizing s with
  | zero => rfl
  | succ count ih => exact ih _

/-- At the start of a line without white space all open indents are closed. -/
theorem Scanner.indentTo_zero {s : Scanner} (hpos : ∀ width ∈ s.indents, 0 < width) :
    s.indentTo 0 = .ok (s.dedent s.indents.length) := by
  have hall : s.indents.takeWhile (0 < ·) = s.indents :=
    List.takeWhile_eq_self_iff.mpr fun width hwidth => decide_eq_true (hpos width hwidth)
  simp [indentTo, hall, indents_dedent]

/-- In front of the tokens of a text that begins without an indent. -/
theorem indentTo_of_first {width : Nat} {u : Scanner} (htokens : s.tokens = [])
    (hindents : s.indents = []) (hu : s.indentTo width = .ok u)
    (hscan : scan true atStart u text = .ok tokens)
    (hfirst : ∀ t ∈ tokens.head?, isIndent t.kind = false) : width = 0 ∧ u = s := by
  rcases Nat.eq_zero_or_pos width with rfl | hwidth
  · rw [Scanner.indentTo_zero (by simp [hindents]), hindents] at hu
    cases hu
    exact ⟨rfl, rfl⟩
  · simp only [Scanner.indentTo, hindents, List.head?_nil, Option.getD_none, if_pos hwidth] at hu
    cases hu
    obtain ⟨more, rfl⟩ := tokens_scan hscan
    have hindent := hfirst ⟨s.line, .indent⟩ (by simp [Scanner.push, htokens])
    cases hindent

/-- A text that begins without an indent is scanned behind open indents as it is alone, on later
lines and behind the dedents that close them. -/
theorem scan_behind_indents {count : Nat} (hscan : scan true atStart s text = .ok tokens)
    (hstart : atStart = true) (htokens : s.tokens = []) (hindents : s.indents = [])
    (hfirst : ∀ t ∈ tokens.head?, isIndent t.kind = false) :
    ∀ {t : Scanner}, t.line = s.line + count → t.depth = s.depth → t.lineIsEmpty = true →
      (∀ width ∈ t.indents, 0 < width) →
      ∃ line gap, IsGap gap ∧
        scan true true t text = .ok (t.tokens.reverse ++
          List.replicate t.indents.length ⟨line, .dedent⟩ ++ gap ++
          tokens.map (Token.moved count)) := by
  fun_induction scan true atStart s text with
  | case1 atStart s text rest hspace =>
    intro t hline hdepth hempty hpos
    cases hscan
    refine ⟨t.line, [], .inl rfl, ?_⟩
    have hended : t.endLine = t := if_pos hempty
    have hfresh : s.endLine = s := if_pos (by simp [Scanner.lineIsEmpty, htokens])
    rw [scan_of_blank hspace]
    simp [Scanner.finish, hended, hfresh, hindents, Scanner.tokens_dedent, Scanner.push, htokens,
      Scanner.line_dedent, Scanner.dedent, Token.moved, hline]
  | case2 atStart s text rest after hspace ih =>
    intro t hline hdepth hempty hpos
    obtain ⟨line, gap, hgap, hrest⟩ := ih hscan hstart htokens hindents hline hdepth hempty hpos
    refine ⟨line, gap, hgap, ?_⟩
    rw [scan_of_cons hspace, if_pos rfl, hrest]
  | case3 s text rest after hspace hcomment ih =>
    intro t hline hdepth hempty hpos
    have hnext : t.nextLine.line = s.nextLine.line + count := by
      simp only [Scanner.nextLine, hline]
      omega
    obtain ⟨line, gap, hgap, hrest⟩ := ih hscan rfl htokens hindents hnext hdepth hempty hpos
    refine ⟨line, gap, hgap, ?_⟩
    rw [scan_of_cons hspace, if_neg hcomment, if_pos rfl, if_pos rfl, hrest]
    rfl
  | case4 atStart s text rest after hnot => exact absurd hstart hnot
  | case5 atStart s text rest after hnot => exact absurd hstart hnot
  | case6 s text rest c after hspace hcomment hline ih =>
    intro t htline hdepth hempty hpos
    obtain ⟨u, hu, hread⟩ := Outcome.bind_eq_ok_iff.mp hscan
    obtain ⟨hwidth, rfl⟩ := indentTo_of_first htokens hindents (Scanner.locate_eq_ok_iff.mp hu)
      hread hfirst
    have hclosed := t.indents_dedent t.indents.length
    rw [List.drop_length] at hclosed
    have hbehind : u.Behind count (t.dedent t.indents.length).tokens
        (t.dedent t.indents.length) := by
      refine ⟨?_, ?_, hclosed.trans hindents.symm, by simp [htokens]⟩
      · rw [Scanner.line_dedent, htline]
      · rw [Scanner.depth_dedent, hdepth]
    obtain ⟨gap, hgap, -, hrest⟩ := scan_behind hread hbehind
    refine ⟨t.line, gap, hgap, ?_⟩
    rw [scan_of_cons hspace, if_neg hcomment, if_neg hline, if_pos rfl, hwidth,
      Scanner.indentTo_zero hpos]
    change scan true false (t.dedent t.indents.length) (c :: after) = _
    rw [show rest = c :: after from hspace] at hrest
    rw [hrest, Scanner.tokens_dedent]
    simp
  | case7 atStart s text rest c after hspace hcomment hline hnot => exact absurd hstart hnot
  | case8 atStart s text rest c after hspace hcomment hline hnot => exact absurd hstart hnot

/-! ### Two texts in a row -/

theorem Scanner.finish_eq (s : Scanner) :
    s.finish true = s.endLine.tokens.reverse ++
      List.replicate s.indents.length ⟨s.line, .dedent⟩ ++ [⟨s.line, .eof⟩] := by
  simp [Scanner.finish, Scanner.push, Scanner.tokens_dedent, Scanner.line_dedent]

theorem Scanner.depth_endLine (s : Scanner) : s.endLine.depth = s.depth := by
  unfold endLine
  split
  · rfl
  · rfl

theorem Scanner.indents_endLine (s : Scanner) : s.endLine.indents = s.indents := by
  unfold endLine
  split
  · rfl
  · rfl

theorem Scanner.kind_of_lineIsEmpty (h : s.lineIsEmpty = true) :
    ∀ last ∈ s.tokens.reverse.getLast?, last.kind = .newline := by
  intro last hlast
  rw [List.getLast?_reverse] at hlast
  obtain ⟨rest, htokens⟩ := List.head?_eq_some_iff.mp hlast
  simp only [Scanner.lineIsEmpty, htokens] at h
  split at h
  · assumption
  · cases h

/-- The tokens of statements, with `count` blocks to be closed, of which `missing` are still open
behind them: the last one is a layout token, and the end is not among them. -/
structure Sealed (missing count : Nat) (tokens : List Token) : Prop where
  last : ∀ t ∈ tokens.getLast?, t.kind.isLayout = true
  goesOn : ∀ t ∈ tokens, isEof t.kind = false
  closes : dedentsIn tokens + missing = indentsIn tokens + count

/-- Where a line ends, the indents are the blocks that are still open. -/
theorem Scanner.Sound.sealed {s : Scanner} (hs : s.Sound) :
    Sealed s.indents.length 0 s.endLine.tokens.reverse where
  last t ht := by
    rw [Scanner.kind_of_lineIsEmpty s.lineIsEmpty_endLine t ht]
    rfl
  goesOn t ht := hs.endLine.goesOn t (List.mem_reverse.mp ht)
  closes := by
    have hcount := hs.endLine.indents_eq
    rw [Scanner.indents_endLine] at hcount
    have hback : dedentsIn s.endLine.tokens.reverse = dedentsIn s.endLine.tokens :=
      List.countP_reverse
    have hfront : indentsIn s.endLine.tokens.reverse = indentsIn s.endLine.tokens :=
      List.countP_reverse
    rw [hback, hfront, hcount, Nat.add_zero]

/-- Dedents close the blocks that are still open. -/
theorem Sealed.closed {missing count : Nat} (h : Sealed missing count tokens) (line : Nat) :
    Sealed 0 count (tokens ++ List.replicate missing ⟨line, .dedent⟩) where
  last := by
    intro t ht
    rw [List.getLast?_append, List.getLast?_replicate] at ht
    split at ht
    · exact h.last t (by simpa using ht)
    · cases ht
      rfl
  goesOn := by
    intro t ht
    rcases List.mem_append.mp ht with ht | ht
    · exact h.goesOn t ht
    · rw [List.eq_of_mem_replicate ht]
      rfl
  closes := by
    have hdedents : dedentsIn (List.replicate missing ⟨line, .dedent⟩) = missing :=
      List.countP_replicate.trans (if_pos rfl)
    have hindents : indentsIn (List.replicate missing ⟨line, .dedent⟩) = 0 :=
      List.countP_replicate.trans (if_neg Bool.false_ne_true)
    rw [dedentsIn_append, indentsIn_append, hdedents, hindents, h.closes]
    rfl

/-- The tokens of a fragment in front of the end are those of statements. -/
theorem exists_sealed (h : tokenize text = .ok tokens) :
    ∃ body line, tokens = body ++ [⟨line, .eof⟩] ∧ Sealed 0 0 body := by
  have hfresh : (⟨1, 0, [], []⟩ : Scanner).Sound := ⟨rfl, rfl, by simp, by simp⟩
  obtain ⟨atEnd, t, hend⟩ := exists_endsWith hfresh (fun _ => rfl) h
  exact ⟨_, t.line, hend.tokens_eq.trans t.finish_eq, hend.sound.sealed.closed t.line⟩

/-- The tokens that a scanner has, and the dedents that close its indents. -/
def Scanner.closedAt (line : Nat) (t : Scanner) : List Token :=
  t.tokens.reverse ++ List.replicate t.indents.length ⟨line, .dedent⟩

/-- Behind a text with the given tokens a logical line begins. -/
structure Scanner.StartsBehind (text : List Char) (tokens : List Token) (t : Scanner) : Prop where
  line_eq : t.line = 1 + newlines text
  depth_eq : t.depth = 0
  empty : t.lineIsEmpty = true
  sound : t.Sound
  tokens_eq : tokens = t.closedAt t.line ++ [⟨t.line, .eof⟩]
  scan_eq : ∀ more, tokenize (text ++ more) = scan true true t more

theorem Scanner.StartsBehind.pos {t : Scanner} (h : t.StartsBehind text tokens) :
    ∀ width ∈ t.indents, 0 < width :=
  h.sound.pos

/-- Where scanning a text goes on from a scanner that may begin a line, its tokens are those of the
scanner. -/
theorem Scanner.StartsBehind.of_scan {t : Scanner} (htokens : tokenize text = .ok tokens)
    (hline : t.line = 1 + newlines text) (hdepth : t.depth = 0) (hempty : t.lineIsEmpty = true)
    (hsound : t.Sound) (hscan : ∀ more, tokenize (text ++ more) = scan true true t more) :
    t.StartsBehind text tokens := by
  refine ⟨hline, hdepth, hempty, hsound, ?_, hscan⟩
  have hend := hscan []
  rw [List.append_nil, htokens, scan_nil, t.finish_eq, show t.endLine = t from if_pos hempty]
    at hend
  exact Except.ok.inj hend

/-- What is added at the end opens and closes no bracket. -/
theorem Scanner.Sound.depthOver_finish {t : Scanner} (h : t.Sound) :
    depthOver 0 (t.finish true) = t.depth := by
  have hlayout : ∀ u ∈ List.replicate t.indents.length ⟨t.line, .dedent⟩ ++
      [(⟨t.line, .eof⟩ : Token)], u.kind.isLayout = true := by
    intro u hu
    rcases List.mem_append.mp hu with hu | hu
    · rw [List.eq_of_mem_replicate hu]
      rfl
    · rw [List.mem_singleton.mp hu]
      rfl
  rw [t.finish_eq, List.append_assoc, depthOver_append, depthOver_of_layout _ hlayout,
    ← h.endLine.depth_eq, t.depth_endLine]

/-- A fragment that ends its last line and closes its brackets has a logical line behind it. -/
theorem exists_startsBehind (htokens : tokenize text = .ok tokens)
    (hends : text = [] ∨ EndsLine text) (hdepth : depthOver 0 tokens = 0) :
    ∃ t : Scanner, t.StartsBehind text tokens := by
  have hfresh : (⟨1, 0, [], []⟩ : Scanner).Sound := ⟨rfl, rfl, by simp, by simp⟩
  obtain ⟨atEnd, t, hend⟩ := exists_endsWith hfresh (fun _ => rfl) htokens
  have hclosed : t.depth = 0 := by
    rw [← hend.sound.depthOver_finish, ← hend.tokens_eq, hdepth]
  obtain ⟨hstart, hrest⟩ := hend.atEnd (hends.imp_left fun hnil => ⟨hnil, fun _ => rfl⟩)
  obtain rfl := hstart hclosed
  exact ⟨t, .of_scan htokens hend.line_eq hclosed (hend.empty rfl) hend.sound hrest⟩

end LiveDoc.Fragment
