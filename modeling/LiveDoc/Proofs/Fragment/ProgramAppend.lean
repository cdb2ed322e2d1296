import LiveDoc.Proofs.Fragment.StatementFrame

/-!
Two fragments in a row. The tokens of the first one are those of whole statements, and it closes the
brackets and the blocks that it opens, so the second one is read behind it as it is read alone. The
program of both is that of the first one and then that of the second one on later lines.
-/
namespace LiveDoc.Fragment

open TokenParser

variable {S : Setting} {m fuel fuel' last missing : Nat} {expr expr' : TokenParser Expr}
  {p p' u v left rest : List Token} {t : Token} {program : Program} {bad : SyntaxError → Prop}

/-! ### The statements of a fragment -/

theorem parseStatements_eof (expr : TokenParser Expr) (fuel line : Nat) (rest : List Token) :
    parseStatements expr fuel (⟨line, .eof⟩ :: rest) = .ok [] (⟨line, .eof⟩ :: rest) := by
  cases fuel with
  | zero => rfl
  | succ fuel => rfl

theorem parseStatements_newline (expr : TokenParser Expr) (fuel line : Nat) (hrest : rest ≠ []) :
    parseStatements expr (fuel + 1) (⟨line, .newline⟩ :: rest) =
      parseStatements expr fuel rest := by
  obtain ⟨u, more, rfl⟩ := List.exists_cons_of_ne_nil hrest
  rfl

/-- What is neither the end nor a newline is the first token of a statement. -/
theorem parseStatements_written (h : t.kind.isLayout = false) :
    parseStatements expr (fuel + 1) (t :: rest) =
      (do
        let s ← parseStatement expr false fuel
        let more ← parseStatements expr fuel
        pure (s :: more) : TokenParser Program) (t :: rest) := by
  obtain ⟨line, kind⟩ := t
  rw [parseStatements, Outcome.run_bind_of_ok (peek_cons _ rest)]
  cases kind with
  | newline => cases h
  | indent => cases h
  | dedent => cases h
  | eof => cases h
  | _ => rfl

theorem isLayout_of_parseStatements (hexpr : ReadsExprs expr) (hnewline : isNewline t.kind = false)
    (heof : isEof t.kind = false)
    (h : parseStatements expr (fuel + 1) (t :: rest) = .ok program left) :
    t.kind.isLayout = false := by
  cases hlayout : t.kind.isLayout with
  | false => rfl
  | true =>
    obtain ⟨line, kind⟩ := t
    cases kind with
    | newline => cases hnewline
    | eof => cases heof
    | indent => cases h
    | dedent =>
      rw [parseStatements, Outcome.run_bind_of_ok (peek_cons _ rest)] at h
      obtain ⟨s, mid, hs, -⟩ := Outcome.run_bind_eq_ok_iff.mp h
      exact isLayout_of_parseStatement hexpr hs
    | _ => cases hlayout

/-- What begins neither a simple statement nor one with blocks begins no statement. -/
theorem parseStatements_of_no_start (hexpr : ReadsExprs expr) (hlayout : t.kind.isLayout = false)
    (hsimple : t.kind.isSimpleStart = false) (hblock : t.kind.isBlockStart = false) :
    parseStatements expr (fuel + 1) (t :: rest) ≠ .ok program left := by
  intro h
  rw [parseStatements_written hlayout] at h
  obtain ⟨s, mid, hs, -⟩ := Outcome.run_bind_eq_ok_iff.mp h
  cases fuel with
  | zero =>
    obtain ⟨e, stop, herror⟩ : ∃ e stop, parseStatement expr false 0 (t :: rest) = .error e stop :=
      failHere_eq_error _ _
    rw [herror] at hs
    cases hs
  | succ fuel =>
    rw [parseStatement_of_not_block hblock] at hs
    exact Bool.noConfusion (hsimple.symm.trans (isSimpleStart_of_parseSimpleLine hexpr hs))

/-- A fragment begins neither with a further branch nor with an indent. -/
theorem goesOn_of_parseStatements (hexpr : ReadsExprs expr)
    (h : parseStatements expr (fuel + 1) (t :: rest) = .ok program left) :
    GoesOn (t :: rest) ∧ isIndent t.kind = false := by
  obtain ⟨line, kind⟩ := t
  cases kind with
  | indent => cases h
  | keyword w =>
    cases w with
    | elseIf => exact absurd h (parseStatements_of_no_start hexpr rfl rfl rfl)
    | otherwise => exact absurd h (parseStatements_of_no_start hexpr rfl rfl rfl)
    | _ => exact ⟨⟨_, _, rfl, rfl, rfl⟩, rfl⟩
  | _ => exact ⟨⟨_, _, rfl, rfl, rfl⟩, rfl⟩

/-- What is read from the tokens of statements is read from them in front of others. If they are
whole statements the reading goes on there, and it fails there if a block is still open. -/
theorem parseStatements_of_stretch (hexpr : Paired S expr expr')
    (hcut : Cut missing expr' bad u v) (hp : Stretch S missing 0 m p p') (fuel' : Nat)
    (hfuel : 2 * m + 1 ≤ fuel) (hfuel' : 2 * m + 2 ≤ fuel')
    (hrun : parseStatements expr fuel (p ++ u) = .ok program left) :
    (missing = 0 ∧ (∀ d, depthOver d p = d) ∧ ∃ more, fuel' ≤ more + m ∧
        parseStatements expr' fuel' (p' ++ v) =
          (do
            let rest ← parseStatements expr' more
            pure (movedBlock S.shift program ++ rest) : TokenParser Program) v) ∨
      ∃ e stop, parseStatements expr' fuel' (p' ++ v) = .error e stop ∧ bad e := by
  -- The induction follows the statements, each of which takes a token at least.
  induction fuel generalizing fuel' m p p' program with
  | zero => omega
  | succ fuel ih =>
    cases fuel' with
    | zero => omega
    | succ fuel' =>
      rcases hp.eq_nil_or_within with ⟨rfl, rfl, rfl⟩ | hwithin
      · obtain ⟨line, rfl⟩ := hcut.ends
        change parseStatements expr (fuel + 1) [⟨line, .eof⟩] = _ at hrun
        rw [parseStatements_eof] at hrun
        cases hrun
        refine .inl ⟨rfl, fun _ => rfl, fuel' + 1, Nat.le_add_right _ _, ?_⟩
        simp only [movedBlock, List.nil_append, bind_pure]
      · obtain ⟨⟨line, kind⟩, q, rfl⟩ := List.exists_cons_of_ne_nil hwithin.window.ne_nil
        have hm : 0 < m := (Nat.succ_pos _).trans_le hp.length_le
        obtain ⟨⟨line', kind'⟩, q', ht, hq, rfl⟩ := List.forall₂_cons_left_iff.mp hp.same
        obtain rfl : kind = kind' := ht.kind_eq.symm
        cases hline : isNewline kind with
        | true =>
          obtain rfl := kind_of_isNewline hline
          rw [List.cons_append, parseStatements_newline _ _ _ (by simp [hcut.closes.ne_nil])] at hrun
          rw [List.cons_append, parseStatements_newline _ _ _ (by simp [hcut.goesOn.ne_nil])]
          have hlength : q.length ≤ m - 1 := Nat.le_sub_one_of_lt hp.length_le
          rcases ih (m := m - 1) ⟨hq, hp.closed.newline, hlength⟩ fuel' (by omega) (by omega)
            hrun with ⟨hnone, hdepth, more, hmore, hrest⟩ | herror
          · exact .inl ⟨hnone, hdepth, more, by omega, hrest⟩
          · exact .inr herror
        | false =>
          have heof := hp.closed.goesOn _ (List.mem_cons_self ..)
          have hk : kind.isLayout = false :=
            isLayout_of_parseStatements hexpr.starts hline heof hrun
          rw [List.cons_append, parseStatements_written (t := ⟨line, kind⟩) hk] at hrun
          rw [List.cons_append, parseStatements_written (t := ⟨line', kind⟩) hk,
            ← List.cons_append]
          obtain ⟨s, mid, hs, hrun⟩ := Outcome.run_bind_eq_ok_iff.mp hrun
          obtain ⟨others, mid', hothers, hdone⟩ := Outcome.run_bind_eq_ok_iff.mp hrun
          cases hdone
          rcases passes_parseStatement hexpr hcut false 0 m fuel fuel' (by omega) (by omega) _ _ s
            mid hwithin hs with ⟨r, r', rfl, hs', hr, hsame⟩ | ⟨e, stop, herror, he⟩
          · rw [Outcome.run_bind_of_ok hs']
            rcases ih (m := m - 1) hr fuel' (by omega) (by omega) hothers with
              ⟨hnone, hdepth, more, hmore, hrest⟩ | ⟨e, stop, herror, he⟩
            · refine .inl ⟨hnone, fun d => (hsame d).trans (hdepth d), more, by omega, ?_⟩
              rw [Outcome.run_bind_congr hrest, bind_assoc]
              simp only [pure_bind, movedBlock, List.cons_append]
            · exact .inr ⟨e, stop, Outcome.run_bind_of_error herror, he⟩
          · exact .inr ⟨e, stop, Outcome.run_bind_of_error herror, he⟩

/-- Behind whole statements the reading goes on. -/
theorem parseStatements_of_whole (hexpr : Paired S expr expr') (hv : GoesOn v)
    (hp : Stretch S 0 0 m p p') (fuel' : Nat) (hfuel : 2 * m + 1 ≤ fuel)
    (hfuel' : 2 * m + 2 ≤ fuel')
    (hrun : parseStatements expr fuel (p ++ [⟨last, .eof⟩]) = .ok program left) :
    (∀ d, depthOver d p = d) ∧ ∃ more, fuel' ≤ more + m ∧
      parseStatements expr' fuel' (p' ++ v) =
        (do
          let rest ← parseStatements expr' more
          pure (movedBlock S.shift program ++ rest) : TokenParser Program) v := by
  rcases parseStatements_of_stretch hexpr (.whole last hv) hp fuel' hfuel hfuel' hrun with
    ⟨-, h⟩ | ⟨e, stop, -, hnever⟩
  · exact h
  · exact hnever.elim

/-! ### Programs -/

variable {a b : List Char}

theorem paired_expressionReader (hsize : S.size = a.length + 1) (h : a.length ≤ b.length) :
    Paired S (expressionReader a) (expressionReader b) :=
  ⟨carries_parseExpr (readsFields_parseExpressionWithin S hsize h) maxDepth 0,
    readsExprs_parseExpr maxDepth 0⟩

/-- The tokens of a text, so many lines further on. -/
def Setting.moved (count : Nat) (text : List Char) : Setting :=
  ⟨count, text.length + 1, fun _ => True⟩

theorem fieldsBelow_of_tokenize {tokens : List Token} (htokens : tokenize a = .ok tokens) :
    ∀ t ∈ tokens, t.kind.FieldsBelow (a.length + 1) :=
  fieldsBelow_of_scan htokens (by simp [Scanner.FieldsBelow]) (Nat.le_succ _)

theorem parseProgram_eq_ok_iff {code : List Char} :
    parseProgram code = .ok program ↔ ∃ tokens left, tokenize code = .ok tokens ∧
      parseStatements (expressionReader code) (2 * tokens.length + 2) tokens =
        .ok program left := by
  constructor
  · intro h
    obtain ⟨tokens, htokens, -⟩ := Outcome.bind_eq_ok_iff.mp h
    rw [parseProgram_eq htokens] at h
    cases hrun : parseStatements (expressionReader code) (2 * tokens.length + 2) tokens with
    | error e left =>
      rw [hrun] at h
      cases h
    | ok program' left =>
      rw [hrun] at h
      cases h
      exact ⟨tokens, left, htokens, hrun⟩
  · rintro ⟨tokens, left, htokens, hrun⟩
    rw [parseProgram_eq htokens, hrun]
    rfl

theorem same_replicate (count here line : Nat) (hline : S.lines line) :
    List.Forall₂ (Token.Same S) (List.replicate count ⟨here, .dedent⟩)
      (List.replicate count ⟨line, .dedent⟩) := by
  induction count with
  | zero => exact .nil
  | succ count ih => exact .cons ⟨rfl, Bool.noConfusion, trivial, hline⟩ ih

theorem same_refl {size : Nat} {tokens : List Token}
    (hbelow : ∀ t ∈ tokens, t.kind.FieldsBelow size) :
    List.Forall₂ (Token.Same ⟨0, size, fun _ => True⟩) tokens tokens :=
  List.forall₂_same.mpr fun t ht => ⟨rfl, fun _ => rfl, hbelow t ht, trivial⟩

/-- A fragment that can be read closes its brackets. -/
theorem depthOver_of_parseProgram {tokens : List Token}
    (hrun : parseStatements (expressionReader a) (2 * tokens.length + 2) tokens =
      .ok program left) (htokens : tokenize a = .ok tokens) : depthOver 0 tokens = 0 := by
  have hbelow := fieldsBelow_of_tokenize htokens
  obtain ⟨body, line, rfl, hclosed⟩ := exists_sealed htokens
  have hself : Stretch (.moved 0 a) 0 0 body.length body body :=
    ⟨same_refl fun t ht => hbelow t (List.mem_append_left _ ht), hclosed, le_rfl⟩
  have hgoesOn : GoesOn [⟨line, .eof⟩] := ⟨_, _, rfl, rfl, rfl⟩
  have hpaired : Paired (.moved 0 a) (expressionReader a) (expressionReader a) :=
    paired_expressionReader rfl le_rfl
  have hfuel : 2 * body.length + 1 ≤ 2 * (body ++ [(⟨line, .eof⟩ : Token)]).length + 2 := by
    rw [List.length_append]
    omega
  obtain ⟨hdepth, -⟩ := parseStatements_of_whole hpaired hgoesOn hself _ hfuel le_rfl hrun
  rw [depthOver_append, hdepth]
  rfl

/-- Behind a fragment that can be read a logical line begins, and its statements are read in front
of whatever goes on there. -/
theorem exists_readBehind (h : parseProgram a = .ok program) (hends : a = [] ∨ EndsLine a) :
    ∃ (tokens : List Token) (t : Scanner), t.StartsBehind a tokens ∧
      ∀ (code : List Char) (line : Nat) (v : List Token), a.length ≤ code.length → GoesOn v →
        ∃ fuel, 2 * v.length + 2 ≤ fuel ∧
          parseStatements (expressionReader code) (2 * (t.closedAt line ++ v).length + 2)
              (t.closedAt line ++ v) =
            (do
              let rest ← parseStatements (expressionReader code) fuel
              pure (program ++ rest) : TokenParser Program) v := by
  obtain ⟨tokens, left, htokens, hrun⟩ := parseProgram_eq_ok_iff.mp h
  obtain ⟨t, ht⟩ := exists_startsBehind htokens hends (depthOver_of_parseProgram hrun htokens)
  refine ⟨tokens, t, ht, fun code line v hlength hv => ?_⟩
  have hbelow := fieldsBelow_of_tokenize htokens
  obtain ⟨body, last, hbody, hclosed⟩ := exists_sealed htokens
  obtain ⟨rfl, -⟩ := List.append_inj' (ht.tokens_eq.symm.trans hbody) rfl
  have hsame : List.Forall₂ (Token.Same (.moved 0 a)) (t.closedAt t.line) (t.closedAt line) := by
    refine List.rel_append (same_refl fun u hu => hbelow u ?_) (same_replicate _ _ line trivial)
    rw [hbody]
    exact List.mem_append_left _ (List.mem_append_left _ hu)
  have hlong := hsame.length_eq
  subst hbody
  rw [List.length_append, List.length_singleton] at hrun
  obtain ⟨-, more, hmore, hread⟩ := parseStatements_of_whole (S := .moved 0 a)
    (paired_expressionReader rfl hlength) hv ⟨hsame, hclosed, le_rfl⟩
    (2 * (t.closedAt line ++ v).length + 2) (by rw [Scanner.closedAt]; omega)
    (by rw [List.length_append, hlong]; omega) hrun
  rw [List.length_append] at hmore
  refine ⟨more, by omega, hread.trans ?_⟩
  simp only [Setting.moved, movedBlock_zero]

/-- A fragment is read behind others as it is alone, on later lines. -/
theorem parseStatements_moved {count : Nat} (hexpr : Paired (.moved count b) expr expr')
    {tokens : List Token} (htokens : tokenize b = .ok tokens)
    (hrun : parseStatements expr (2 * tokens.length + 2) tokens = .ok program left)
    (hfuel : 2 * tokens.length ≤ fuel) :
    ∃ left', parseStatements expr' fuel (tokens.map (Token.moved count)) =
      .ok (movedBlock count program) left' := by
  have hbelow := fieldsBelow_of_tokenize htokens
  obtain ⟨body, line, rfl, hclosed⟩ := exists_sealed htokens
  have hstretch : Stretch (.moved count b) 0 0 body.length body (body.map (Token.moved count)) :=
    ⟨same_moved (fun t ht => hbelow t (List.mem_append_left _ ht)) fun _ _ => trivial, hclosed,
      le_rfl⟩
  have hgoesOn : GoesOn [⟨line + count, .eof⟩] := ⟨_, _, rfl, rfl, rfl⟩
  rw [List.length_append, List.length_singleton] at hrun hfuel
  obtain ⟨-, more, -, hread⟩ := parseStatements_of_whole hexpr hgoesOn hstretch fuel
    (by omega) (by omega) hrun
  rw [Outcome.run_bind_of_ok (parseStatements_eof _ _ _ _), List.append_nil] at hread
  rw [List.map_append]
  exact ⟨_, hread⟩

/-- One line more in front of a fragment makes no difference. -/
theorem parseStatements_gap {count : Nat} {gap tokens : List Token} (hgap : IsGap gap)
    (hexpr : Paired (.moved count b) expr expr') (htokens : tokenize b = .ok tokens)
    (hrun : parseStatements expr (2 * tokens.length + 2) tokens = .ok program left)
    (hfuel : 2 * tokens.length + 1 ≤ fuel) :
    ∃ left', parseStatements expr' fuel (gap ++ tokens.map (Token.moved count)) =
      .ok (movedBlock count program) left' := by
  rcases hgap with rfl | ⟨line, rfl⟩
  · exact parseStatements_moved hexpr htokens hrun (by omega)
  · obtain ⟨less, rfl⟩ : ∃ less, fuel = less + 1 := Nat.exists_eq_succ_of_ne_zero (by omega)
    have hsome : tokens.map (Token.moved count) ≠ [] := by
      obtain ⟨body, last, rfl, -⟩ := exists_sealed htokens
      simp
    rw [List.singleton_append, parseStatements_newline _ _ _ hsome]
    exact parseStatements_moved hexpr htokens hrun (by omega)

theorem goesOn_moved {gap tokens : List Token} (count : Nat) (hgap : IsGap gap)
    (h : GoesOn tokens) : GoesOn (gap ++ tokens.map (Token.moved count)) := by
  obtain ⟨t, rest, rfl, ht⟩ := h
  rcases hgap with rfl | ⟨line, rfl⟩
  · exact ⟨_, _, rfl, ht⟩
  · exact ⟨_, _, rfl, rfl, rfl⟩

/-- The fragments are read one behind the other, the second one on later lines. -/
theorem parseProgram_append {program' : Program} (ha : parseProgram a = .ok program)
    (hb : parseProgram b = .ok program') (hends : EndsLine a) :
    parseProgram (a ++ b) = .ok (program ++ program'.map (Stmt.moved (newlines a))) := by
  obtain ⟨first, t, ht, hread⟩ := exists_readBehind ha (.inr hends)
  obtain ⟨second, left', hsecond, hrun'⟩ := parseProgram_eq_ok_iff.mp hb
  have hbegin : GoesOn second ∧ ∀ t ∈ second.head?, isIndent t.kind = false := by
    obtain ⟨t, rest, rfl⟩ : ∃ t rest, second = t :: rest := by
      obtain ⟨body, line, rfl, -⟩ := exists_sealed hsecond
      exact List.exists_cons_of_ne_nil (by simp)
    obtain ⟨hgoesOn, hindent⟩ := goesOn_of_parseStatements (readsExprs_parseExpr maxDepth 0) hrun'
    exact ⟨hgoesOn, by simpa using hindent⟩
  obtain ⟨line, gap, hgap, hscan⟩ := scan_behind_indents hsecond rfl rfl rfl hbegin.2 ht.line_eq
    ht.depth_eq ht.empty ht.pos
  obtain ⟨fuel, hfuel, hrun⟩ := hread (a ++ b) line (gap ++ second.map (Token.moved (newlines a)))
    (by simp) (goesOn_moved _ hgap hbegin.1)
  have hlonger : b.length ≤ (a ++ b).length := by simp
  have hmore : 2 * second.length + 1 ≤ fuel := by
    rw [List.length_append, List.length_map] at hfuel
    omega
  obtain ⟨left, hbehind⟩ := parseStatements_gap hgap
    (paired_expressionReader (S := .moved (newlines a) b) rfl hlonger) hsecond hrun' hmore
  rw [Outcome.run_bind_of_ok hbehind, movedBlock_eq_map] at hrun
  refine parseProgram_eq_ok_iff.mpr ⟨_, left, ?_, hrun⟩
  rw [ht.scan_eq, hscan, Scanner.closedAt, List.append_assoc _ gap]

end LiveDoc.Fragment
