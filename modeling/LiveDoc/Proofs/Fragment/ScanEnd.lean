import LiveDoc.Fragment.ParseProgram
import LiveDoc.Proofs.Fragment.LineEnds

/-!
The end of a text. What is open in a scanner, brackets and indents, is what its tokens have opened.
Where scanning comes to the end of a text whose last line is ended and no bracket is open, a logical
line may begin, and scanning goes on from there with whatever stands behind the text.
-/
namespace LiveDoc.Fragment

/-- The number of open brackets behind a token. -/
def Token.Kind.depthAfter (depth : Nat) : Token.Kind → Nat
  | .symbol s => s.depthAfter depth
  | _ => depth

/-- The number of open brackets behind the tokens. -/
def depthOver (depth : Nat) (tokens : List Token) : Nat :=
  tokens.foldl (fun depth t => t.kind.depthAfter depth) depth

@[simp] theorem depthOver_append (depth : Nat) (front back : List Token) :
    depthOver depth (front ++ back) = depthOver (depthOver depth front) back :=
  List.foldl_append

theorem depthOver_of_layout (depth : Nat) {tokens : List Token}
    (h : ∀ t ∈ tokens, t.kind.isLayout = true) : depthOver depth tokens = depth := by
  induction tokens with
  | nil => rfl
  | cons t rest ih =>
    obtain ⟨ht, hrest⟩ := List.forall_mem_cons.mp h
    obtain ⟨line, kind⟩ := t
    cases kind with
    | symbol symbol => cases ht
    | _ => exact ih hrest

section Written

variable {kind : Token.Kind}

theorem isIndent_of_written (h : kind.isLayout = false) : isIndent kind = false := by
  cases kind with
  | indent => cases h
  | _ => rfl

theorem isDedent_of_written (h : kind.isLayout = false) : isDedent kind = false := by
  cases kind with
  | dedent => cases h
  | _ => rfl

theorem isEof_of_written (h : kind.isLayout = false) : isEof kind = false := by
  cases kind with
  | eof => cases h
  | _ => rfl

end Written

/-- How many indents the tokens open. -/
def indentsIn (tokens : List Token) : Nat := tokens.countP (isIndent ·.kind)

/-- How many indents the tokens close. -/
def dedentsIn (tokens : List Token) : Nat := tokens.countP (isDedent ·.kind)

@[simp] theorem indentsIn_append (front back : List Token) :
    indentsIn (front ++ back) = indentsIn front + indentsIn back :=
  List.countP_append

@[simp] theorem dedentsIn_append (front back : List Token) :
    dedentsIn (front ++ back) = dedentsIn front + dedentsIn back :=
  List.countP_append

/-- What is open in a scanner is what its tokens have opened. -/
structure Scanner.Sound (s : Scanner) : Prop where
  depth_eq : s.depth = depthOver 0 s.tokens.reverse
  indents_eq : indentsIn s.tokens = dedentsIn s.tokens + s.indents.length
  pos : ∀ width ∈ s.indents, 0 < width
  goesOn : ∀ t ∈ s.tokens, isEof t.kind = false

namespace Scanner

variable {s t : Scanner}

namespace Sound

theorem nextLine (h : s.Sound) : s.nextLine.Sound := ⟨h.depth_eq, h.indents_eq, h.pos, h.goesOn⟩

theorem endLine (h : s.Sound) : s.endLine.Sound := by
  unfold Scanner.endLine
  split
  · exact h
  · exact ⟨by simpa [push, depthOver, Token.Kind.depthAfter] using h.depth_eq, h.indents_eq, h.pos,
      List.forall_mem_cons.mpr ⟨rfl, h.goesOn⟩⟩

theorem indent {width : Nat} (h : s.Sound) (hwidth : 0 < width) :
    ({ s with indents := width :: s.indents }.push .indent).Sound where
  depth_eq := by simpa [push, depthOver, Token.Kind.depthAfter] using h.depth_eq
  indents_eq := by
    have hbefore := h.indents_eq
    simp only [indentsIn, dedentsIn, push, List.countP_cons, isIndent, isDedent,
      List.length_cons] at hbefore ⊢
    simp only [if_true, Bool.false_eq_true, if_false]
    omega
  pos := List.forall_mem_cons.mpr ⟨hwidth, h.pos⟩
  goesOn := List.forall_mem_cons.mpr ⟨rfl, h.goesOn⟩

theorem dedent {count : Nat} (h : s.Sound) (hcount : count ≤ s.indents.length) :
    (s.dedent count).Sound := by
  induction count generalizing s with
  | zero => exact h
  | succ count ih =>
    rw [Scanner.dedent]
    refine ih ⟨by simpa [push, depthOver, Token.Kind.depthAfter] using h.depth_eq, ?_,
      fun width hwidth => h.pos width (List.mem_of_mem_drop hwidth),
      List.forall_mem_cons.mpr ⟨rfl, h.goesOn⟩⟩ ?_
    · have hbefore := h.indents_eq
      simp only [indentsIn, dedentsIn, push, List.countP_cons, isIndent, isDedent,
        List.length_drop] at hbefore ⊢
      simp only [if_true, Bool.false_eq_true, if_false]
      omega
    · simp only [push, List.length_drop]
      omega

theorem indentTo {width : Nat} (h : s.Sound) (ht : s.indentTo width = .ok t) : t.Sound := by
  cases Scanner.indented_of_indentTo ht with
  | deeper hdeeper => exact h.indent (by omega)
  | reached => exact h.dedent (List.takeWhile_prefix _).length_le

theorem add {l : Lexeme} (h : s.Sound) (hl : l.kind.isLayout = false) : (s.add l).Sound where
  depth_eq := by
    have hbefore := h.depth_eq
    cases hkind : l.kind with
    | symbol symbol =>
      simp [Scanner.add, push, depthOver, Token.Kind.depthAfter, hkind] at hbefore ⊢
      rw [hbefore]
    | _ => simpa [Scanner.add, push, depthOver, Token.Kind.depthAfter, hkind] using hbefore
  indents_eq := by
    have hbefore := h.indents_eq
    have hopen := isIndent_of_written hl
    have hclose := isDedent_of_written hl
    simpa [Scanner.add, push, indentsIn, dedentsIn, hopen, hclose] using hbefore
  pos := h.pos
  goesOn := List.forall_mem_cons.mpr ⟨isEof_of_written hl, h.goesOn⟩

end Sound

end Scanner

@[simp] theorem Scanner.lineIsEmpty_endLine (s : Scanner) : s.endLine.lineIsEmpty = true := by
  unfold endLine
  split
  · assumption
  · rfl

theorem Scanner.locate_eq_ok_iff {α : Type} {s : Scanner} {result : Except SyntaxError.Cause α}
    {a : α} : s.locate result = .ok a ↔ result = .ok a := by
  cases result with
  | ok b => simp [locate, Except.mapError]
  | error cause => simp [locate, Except.mapError]

theorem Scanner.line_of_indentTo {s t : Scanner} {width : Nat} (h : s.indentTo width = .ok t) :
    t.line = s.line := by
  cases Scanner.indented_of_indentTo h with
  | deeper => rfl
  | reached => exact s.line_dedent _

theorem isLayout_of_readWord {first : Char} {text : List Char} {l : Lexeme}
    (h : readWord first text = .ok l) : l.kind.isLayout = false := by
  have hword (more : List Char) : (wordOf first more).kind.isLayout = false := by
    unfold wordOf
    split
    · rfl
    · rfl
  cases text with
  | nil =>
    rw [readWord_nil] at h
    cases h
    exact hword []
  | cons d rest =>
    rw [readWord_cons] at h
    split at h
    · obtain ⟨body, pieces, -, -, rfl⟩ := readFormat_eq_ok_iff.mp h
      rfl
    · cases h
      exact hword _

/-- What is read is no layout. -/
theorem isLayout_of_readLexeme {c : Char} {after : List Char} {l : Lexeme}
    (h : readLexeme c after = .ok l) : l.kind.isLayout = false := by
  rcases isPlain_or_readWord h with hplain | hword
  · generalize l.kind = kind at hplain
    cases hplain <;> rfl
  · exact isLayout_of_readWord hword

/-! ### The end of a text -/

variable {text : List Char} {s : Scanner} {atStart : Bool} {tokens : List Token}

/-- Scanning a text with the tokens `tokens` ends with the scanner `t`. It goes on from there if
something else stands behind the last line of the text. -/
structure EndsWith (atStart : Bool) (s : Scanner) (text : List Char) (tokens : List Token)
    (atEnd : Bool) (t : Scanner) : Prop where
  tokens_eq : tokens = t.finish true
  sound : t.Sound
  line_eq : t.line = s.line + newlines text
  empty : atEnd = true → t.lineIsEmpty = true
  atEnd : (text = [] ∧ (s.depth = 0 → atStart = true)) ∨ EndsLine text →
    (t.depth = 0 → atEnd = true) ∧
      ∀ more, scan true atStart s (text ++ more) = scan true atEnd t more

/-- What may stand behind a step of scanning, so that the end of the line is still to come. -/
def EndsBehind (goesOn : Bool) (u : Scanner) (rest : List Char) : Prop :=
  (rest = [] ∧ (u.depth = 0 → goesOn = true)) ∨ EndsLine rest

/-- A step that takes characters from the front of the text. -/
theorem EndsWith.behind {goesOn atEnd : Bool} {u t : Scanner} {rest : List Char}
    (h : EndsWith goesOn u rest tokens atEnd t) (taken : List Char) (htext : text = taken ++ rest)
    (hsome : text ≠ []) (hline : u.line = s.line + newlines taken)
    (hends : EndsLine text → EndsBehind goesOn u rest ∧
      ∀ more, scan true atStart s (text ++ more) = scan true goesOn u (rest ++ more)) :
    EndsWith atStart s text tokens atEnd t where
  tokens_eq := h.tokens_eq
  sound := h.sound
  line_eq := by
    rw [h.line_eq, hline, htext, newlines_append]
    omega
  empty := h.empty
  atEnd hend := by
    obtain ⟨hnext, hscan⟩ := hends (hend.resolve_left fun hnil => hsome hnil.1)
    obtain ⟨hdepth, hrest⟩ := h.atEnd hnext
    refine ⟨hdepth, fun more => ?_⟩
    rw [hscan, hrest]

section Steps

variable {c : Char} {after : List Char}

theorem split_of_space (hspace : text.dropWhile isInlineSpace = c :: after) :
    text = text.takeWhile isInlineSpace ++ c :: after ∧
      newlines (text.takeWhile isInlineSpace) = 0 := by
  refine ⟨?_, newlines_takeWhile (by decide) text⟩
  rw [← hspace, List.takeWhile_append_dropWhile]

theorem ne_nil_of_space (hspace : text.dropWhile isInlineSpace = c :: after) : text ≠ [] := by
  rintro rfl
  cases hspace

theorem space_append (hspace : text.dropWhile isInlineSpace = c :: after) (more : List Char) :
    (text ++ more).dropWhile isInlineSpace = c :: (after ++ more) := by
  rw [List.dropWhile_append, hspace]
  rfl

theorem endsLine_of_space (h : EndsLine text)
    (hspace : text.dropWhile isInlineSpace = c :: after) : EndsLine (c :: after) :=
  h.suffix (hspace ▸ List.dropWhile_suffix _) (List.cons_ne_nil c after)

theorem endsBehind_newline (h : EndsLine ('\n' :: after)) {goesOn : Bool} {u : Scanner}
    (hend : u.depth = 0 → goesOn = true) : EndsBehind goesOn u after := by
  cases after with
  | nil => exact .inl ⟨rfl, hend⟩
  | cons d rest => exact .inr (h.suffix (List.suffix_cons _ _) (List.cons_ne_nil d rest))

/-- A step over the newline of a line. -/
theorem EndsWith.lineEnd {goesOn atEnd : Bool} {u t : Scanner}
    (h : EndsWith goesOn u after tokens atEnd t)
    (hspace : text.dropWhile isInlineSpace = '\n' :: after) (hline : u.line = s.line + 1)
    (hdepth : u.depth = 0 → goesOn = true)
    (hscan : EndsLine text → ∀ more,
      scan true atStart s (text ++ more) = scan true goesOn u (after ++ more)) :
    EndsWith atStart s text tokens atEnd t := by
  obtain ⟨htext, hnone⟩ := split_of_space hspace
  refine h.behind (text.takeWhile isInlineSpace ++ ['\n']) (by simpa using htext)
    (ne_nil_of_space hspace) (by simp [hnone, hline]) fun hends => ⟨?_, hscan hends⟩
  exact endsBehind_newline (endsLine_of_space hends hspace) hdepth

end Steps

theorem exists_endsWith (hs : s.Sound) (hempty : atStart = true → s.lineIsEmpty = true)
    (hscan : scan true atStart s text = .ok tokens) :
    ∃ atEnd t, EndsWith atStart s text tokens atEnd t := by
  fun_induction scan true atStart s text with
  | case1 atStart s text rest hspace =>
    cases hscan
    have hblank := List.dropWhile_eq_nil_iff.mp hspace
    have hnone : '\n' ∉ text := fun hmem => Bool.noConfusion (hblank _ hmem)
    refine ⟨atStart, s, rfl, hs, ?_, hempty, ?_⟩
    · rw [newlines_eq_zero hnone, Nat.add_zero]
    · rintro (⟨rfl, hdepth⟩ | hends)
      · exact ⟨hdepth, fun more => rfl⟩
      · exact absurd hends.mem hnone
  | case2 atStart s text rest after hspace ih =>
    obtain ⟨htext, hnone⟩ := split_of_space hspace
    obtain ⟨atEnd, t, hrest⟩ := ih hs hempty hscan
    refine ⟨atEnd, t, hrest.behind
      (text.takeWhile isInlineSpace ++ '#' :: after.takeWhile (· ≠ '\n')) ?_ ?_ ?_ ?_⟩
    · rw [List.append_assoc, List.cons_append, List.takeWhile_append_dropWhile]
      exact htext
    · exact ne_nil_of_space hspace
    · simp [hnone, newlines_cons_of_ne, newlines_takeWhile]
    · intro hends
      have hafter := (endsLine_of_space hends hspace).tail (by decide)
      have hstop : decide ('\n' ≠ '\n') = false := by decide
      refine ⟨.inr (hafter.suffix (List.dropWhile_suffix _)
        (Text.dropWhile_ne_nil_of_stop hafter.mem hstop)), fun more => ?_⟩
      rw [scan_of_cons (space_append hspace more), if_pos rfl,
        Text.dropWhile_append_of_stop hafter.mem hstop]
  | case3 s text rest after hspace hcomment ih =>
    obtain ⟨atEnd, t, hrest⟩ := ih hs.nextLine hempty hscan
    refine ⟨atEnd, t, hrest.lineEnd hspace rfl (fun _ => rfl) fun hends more => ?_⟩
    rw [scan_of_cons (space_append hspace more), if_neg hcomment, if_pos rfl, if_pos rfl]
  | case4 atStart s text rest after hstart hdepth hspace hcomment ih =>
    obtain ⟨atEnd, t, hrest⟩ := ih hs.endLine.nextLine (fun _ => s.lineIsEmpty_endLine) hscan
    refine ⟨atEnd, t, hrest.lineEnd hspace (by simp [Scanner.nextLine]) (fun _ => rfl)
      fun hends more => ?_⟩
    rw [scan_of_cons (space_append hspace more), if_neg hcomment, if_pos rfl,
      if_neg hstart, if_pos hdepth]
  | case5 atStart s text rest after hstart hdepth hspace hcomment ih =>
    obtain ⟨atEnd, t, hrest⟩ := ih hs.nextLine Bool.noConfusion hscan
    have hopen : s.nextLine.depth = 0 → false = true := by
      intro hnone
      exact absurd (by simpa [Scanner.nextLine] using hnone) hdepth
    refine ⟨atEnd, t, hrest.lineEnd hspace rfl hopen fun hends more => ?_⟩
    rw [scan_of_cons (space_append hspace more), if_neg hcomment, if_pos rfl,
      if_neg hstart, if_neg hdepth]
  | case6 s text rest c after hspace hcomment hline ih =>
    obtain ⟨u, hu, hscan⟩ := Outcome.bind_eq_ok_iff.mp hscan
    have hindent := Scanner.locate_eq_ok_iff.mp hu
    obtain ⟨htext, hnone⟩ := split_of_space hspace
    obtain ⟨atEnd, t, hrest⟩ := ih u (hs.indentTo hindent) Bool.noConfusion hscan
    rw [show rest = c :: after from hspace] at hrest
    refine ⟨atEnd, t, hrest.behind (text.takeWhile isInlineSpace) htext (ne_nil_of_space hspace)
      ?_ fun hends => ⟨.inr (endsLine_of_space hends hspace), fun more => ?_⟩⟩
    · rw [hnone, Scanner.line_of_indentTo hindent, Nat.add_zero]
    · rw [scan_of_cons (space_append hspace more), if_neg hcomment, if_neg hline,
        if_pos rfl, indentWidth_append hends.mem (by decide), hu]
      rfl
  | case7 atStart s text rest c after hspace hcomment hline hstart size hjoin ih =>
    obtain ⟨htext, hnone⟩ := split_of_space hspace
    obtain ⟨atEnd, t, hrest⟩ := ih hs.nextLine Bool.noConfusion hscan
    refine ⟨atEnd, t, hrest.behind (text.takeWhile isInlineSpace ++ c :: after.take size) ?_
      (ne_nil_of_space hspace) ?_ fun hends => ?_⟩
    · simpa using htext
    · rw [newlines_append, hnone, newlines_of_joinSize hjoin, Nat.zero_add]
      rfl
    · have hhere := endsLine_of_space hends hspace
      have hsize := joinSize_lt_length hhere hjoin
      refine ⟨.inr ((hhere.tail hline).drop hsize), fun more => ?_⟩
      rw [scan_of_cons (space_append hspace more), if_neg hcomment, if_neg hline,
        if_neg hstart, joinSize_append hhere, hjoin,
        ← List.drop_append_of_le_length hsize.le]
  | case8 atStart s text rest c after hspace hcomment hline hstart hjoin ih =>
    obtain ⟨l, hl, hscan⟩ := Outcome.bind_eq_ok_iff.mp hscan
    have hread := Scanner.locate_eq_ok_iff.mp hl
    obtain ⟨htext, hnone⟩ := split_of_space hspace
    obtain ⟨atEnd, t, hrest⟩ := ih l (hs.add (isLayout_of_readLexeme hread)) Bool.noConfusion hscan
    refine ⟨atEnd, t, hrest.behind (text.takeWhile isInlineSpace ++ c :: after.take l.size) ?_
      (ne_nil_of_space hspace) ?_ fun hends => ?_⟩
    · simpa using htext
    · rw [newlines_append, hnone, newlines_cons_of_ne hline, ← newlines_of_readLexeme hline hread,
        Nat.zero_add]
      rfl
    · have hhere := endsLine_of_space hends hspace
      have hsize := (readLexeme_append hline hhere hread []).2
      refine ⟨.inr ((hhere.tail hline).drop hsize), fun more => ?_⟩
      rw [scan_of_cons (space_append hspace more), if_neg hcomment, if_neg hline,
        if_neg hstart, joinSize_append hhere, hjoin,
        (readLexeme_append hline hhere hread more).1, ← List.drop_append_of_le_length hsize.le]
      rfl

end LiveDoc.Fragment
