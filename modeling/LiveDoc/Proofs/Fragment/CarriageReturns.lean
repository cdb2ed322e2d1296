import LiveDoc.Proofs.Fragment.LineReading
import LiveDoc.Proofs.Fragment.ScanPlaces
import Mathlib.Order.Bounds.Defs

/-!
Carriage returns in front of newlines. They change nothing between tokens, in comments, in brackets
and behind a backslash that joins two lines. In a string literal they are characters like others:
a backslash in front of the end of a line then takes the carriage return and leaves the newline,
which ends the reading of a literal that is no long one. So a fragment is the same with carriage
returns if no literal in it goes on behind the end of its line, and otherwise the first literal that
does is unterminated.
-/
namespace LiveDoc.Fragment

/-- The text with a carriage return in front of each newline. -/
def withReturns (text : List Char) : List Char :=
  text.flatMap fun c => if c = '\n' then ['\r', '\n'] else [c]

section WithReturns

variable {text : List Char} {c : Char}

@[simp] theorem withReturns_nil : withReturns [] = [] := rfl

@[simp] theorem withReturns_newline (text : List Char) :
    withReturns ('\n' :: text) = '\r' :: '\n' :: withReturns text := rfl

theorem withReturns_cons (hc : c ≠ '\n') (text : List Char) :
    withReturns (c :: text) = c :: withReturns text := by
  simp [withReturns, hc]

theorem withReturns_append_of_line (hline : '\n' ∉ text) (rest : List Char) :
    withReturns (text ++ rest) = text ++ withReturns rest := by
  induction text with
  | nil => rfl
  | cons c text ih =>
    obtain ⟨hc, htext⟩ := List.ne_and_not_mem_of_not_mem_cons hline
    rw [List.cons_append, withReturns_cons hc.symm, ih htext, List.cons_append]

/-- A line and what stands behind it, with and without carriage returns. -/
theorem exists_line (text : List Char) :
    ∃ line rest, text = line ++ rest ∧ '\n' ∉ line ∧ AtLineEnd rest ∧
      AtLineEnd (withReturns rest) ∧ withReturns text = line ++ withReturns rest := by
  obtain ⟨line, rest, rfl, hline, hrest⟩ := Text.exists_run (· ≠ '\n') text
  have hnone : '\n' ∉ line := fun hmem => by simpa using hline _ hmem
  refine ⟨line, rest, rfl, hnone, ?_, ?_, withReturns_append_of_line hnone rest⟩
  · cases rest with
    | nil => exact .nothing
    | cons c rest =>
      obtain rfl : c = '\n' := by simpa using hrest c rfl
      exact .newline rest
  · cases rest with
    | nil => exact .nothing
    | cons c rest =>
      obtain rfl : c = '\n' := by simpa using hrest c rfl
      exact .returned (withReturns rest)

theorem dropWhile_withReturns (text : List Char) :
    (withReturns text).dropWhile isInlineSpace =
      match text.dropWhile isInlineSpace with
      | [] => []
      | c :: after => c :: withReturns after := by
  induction text with
  | nil => rfl
  | cons c text ih =>
    by_cases hc : c = '\n'
    · subst hc
      rfl
    · cases hspace : isInlineSpace c with
      | false => simp [withReturns_cons hc, hspace]
      | true => simpa [withReturns_cons hc, hspace] using ih

theorem indentWidth_withReturns (width : Nat) (text : List Char) :
    indentWidth width (withReturns text) = indentWidth width text := by
  induction text generalizing width with
  | nil => rfl
  | cons c text ih =>
    by_cases hc : c = '\n'
    · subst hc
      rfl
    · simp only [withReturns_cons hc, indentWidth, ih]

end WithReturns

/-! ### Literals that go on behind the end of their line -/

namespace Place

/-- The same place where each line ends with a carriage return. -/
def returned (p : Place) : Place := { p with text := withReturns p.text }

/-- The token `l` begins at the place with the character `c`. -/
structure Reads (p : Place) (c : Char) (after : List Char) (l : Lexeme) : Prop where
  inLine : p.atStart = false
  space : p.text.dropWhile isInlineSpace = c :: after
  lexeme : readLexeme c after = .ok l

end Place

/-- How the string literal is quoted that begins with `c`, a format string or not. -/
def quotingOf? (c : Char) (after : List Char) : Option Quoting :=
  if isQuote c then some (.of c after)
  else
    match after with
    | [] => none
    | quote :: rest => if isFormatMark c quote then some (.of quote rest) else none

namespace Place

/-- A string literal that is quoted in the given way begins at the place and goes on behind the end
of its line. -/
def SpansHere (p : Place) (q : Quoting) : Prop :=
  ∃ c after l, p.Reads c after l ∧ quotingOf? c after = some q ∧ l.newlines ≠ 0

/-- Scanning comes to such a literal on the given line. -/
def SpansFrom (p : Place) (line : Nat) (q : Quoting) : Prop :=
  ∃ place, p.Comes place ∧ place.scanner.line = line ∧ place.SpansHere q

end Place

/-- A string literal on the given line goes on behind the end of it. -/
def SpansLines (code : List Char) (line : Nat) (q : Quoting) : Prop :=
  (Place.start code).SpansFrom line q

/-! ### Tokens in front of a carriage return -/

variable {text after : List Char} {c : Char} {l : Lexeme} {keepEscapes : Bool} {quote : Char}
  {before body : Body}

/-- A token that takes no newline is the same, and so is what stands behind it. -/
theorem readLexeme_withReturns (h : readLexeme c after = .ok l) (hnone : l.newlines = 0) :
    readLexeme c (withReturns after) = .ok l ∧
      (withReturns after).drop l.size = withReturns (after.drop l.size) := by
  obtain ⟨line, rest, rfl, hline, hrest, hreturned, hsame⟩ := exists_line after
  have halone := readLexeme_of_line hrest hline h hnone
  obtain ⟨hread, hsize⟩ := readLexeme_append_of_break hreturned.breaksOff halone
  have hdropped : '\n' ∉ line.drop l.size := fun hmem => hline (List.mem_of_mem_drop hmem)
  rw [hsame, List.drop_append_of_le_length hsize, List.drop_append_of_le_length hsize,
    withReturns_append_of_line hdropped]
  exact ⟨hread, rfl⟩

theorem quotingOf_withReturns (hquote : quote ≠ '\n' ∧ quote ≠ '\r') (text : List Char) :
    Quoting.of quote (withReturns text) = Quoting.of quote text := by
  obtain ⟨line, rest, rfl, -, hrest, hreturned, hsame⟩ := exists_line text
  rw [hsame, quotingOf_append hreturned.breaksOff hquote, quotingOf_append hrest.breaksOff hquote]

/-- Up to its first newline the literal is read as before. The newline stands behind a backslash,
which takes the carriage return instead. -/
theorem readBody_withReturns {q : Quoting} (hshort : q.isTriple = false)
    (h : readBody keepEscapes q before text = .ok body) (hspans : body.newlines ≠ before.newlines) :
    readBody keepEscapes q before (withReturns text) = .error .unterminatedString := by
  fun_induction readBody keepEscapes q before text with
  | case1 => cases h
  | case2 => cases h
  | case3 before rest ih => simp [withReturns_cons, readBody, hshort]
  | case4 before c rest hc added ih =>
    rw [withReturns_cons (by decide), withReturns_cons hc, readBody]
    · exact ih h hspans
    · exact hc
  | case5 before rest htriple => simp [hshort] at htriple
  | case6 => cases h
  | case7 before c rest h1 h2 h3 hc hend =>
    cases h
    exact absurd rfl hspans
  | case8 before c rest h1 h2 h3 hc hend ih =>
    have hplain : c ≠ '\\' := ne_backslash h1 h3
    have hsame : q.endsAt (c :: withReturns rest) = q.endsAt (c :: rest) := by
      simp [Quoting.endsAt, Quoting.width, hshort, List.isPrefixOf]
    rw [withReturns_cons hc, readBody_of_ne hplain, if_neg hc, hsame, if_neg hend]
    exact ih h hspans

theorem readQuoted_withReturns (hquote : quote ≠ '\n' ∧ quote ≠ '\r')
    (hshort : (Quoting.of quote text).isTriple = false)
    (h : readQuoted keepEscapes quote text = .ok body) (hspans : body.newlines ≠ 0) :
    readQuoted keepEscapes quote (withReturns text) = .error .unterminatedString := by
  have hwidth : (Quoting.of quote text).width = 1 := by simp [Quoting.width, hshort]
  simp only [readQuoted, hwidth] at h
  simp only [readQuoted, quotingOf_withReturns hquote, hwidth]
  exact readBody_withReturns hshort h hspans

/-- Only a string literal goes on behind the end of its line, and if it is no long one it does not
end where the line ends with a carriage return. -/
theorem exists_quotingOf (h : readLexeme c after = .ok l) (hspans : l.newlines ≠ 0) :
    ∃ q, quotingOf? c after = some q ∧ (q.isTriple = false →
      readLexeme c (withReturns after) = .error .unterminatedString) := by
  unfold readLexeme at h ⊢
  split at h
  · obtain ⟨⟨kind, length⟩, -, hl⟩ := Outcome.bind_eq_ok_iff.mp h
    cases hl
    exact absurd rfl hspans
  · rename_i hdigit
    rw [if_neg hdigit]
    split at h
    · rename_i hquote
      obtain ⟨body, hbody, hl⟩ := Outcome.bind_eq_ok_iff.mp h
      cases hl
      refine ⟨.of c after, by simp [quotingOf?, hquote], fun hshort => ?_⟩
      rw [if_pos hquote, readQuoted_withReturns (isQuote_ne hquote) hshort hbody hspans]
      rfl
    · rename_i hquote
      rw [if_neg hquote]
      split at h
      · rename_i hword
        rw [if_pos hword]
        cases after with
        | nil =>
          rw [readWord_nil, wordOf_nil] at h
          cases h
          exact absurd rfl hspans
        | cons d rest =>
          rw [readWord_cons] at h
          split at h
          · rename_i hmark
            have hd := isQuote_ne (isQuote_of_isFormatMark hmark)
            obtain ⟨body, pieces, hbody, -, rfl⟩ := readFormat_eq_ok_iff.mp h
            refine ⟨.of d rest, by simp [quotingOf?, hquote, hmark], fun hshort => ?_⟩
            have hfail := readQuoted_withReturns hd hshort hbody hspans
            rw [withReturns_cons hd.1, readWord_cons, if_pos hmark, readFormat, hfail]
            rfl
          · cases h
            exact absurd (newlines_wordOf _ _) hspans
      · unfold readSymbol at h
        split at h
        · cases h
          exact absurd rfl hspans
        · split at h
          · cases h
            exact absurd rfl hspans
          · cases h

/-! ### Scanning with carriage returns -/

theorem dropWhile_withReturns_cons (hspace : text.dropWhile isInlineSpace = c :: after) :
    (withReturns text).dropWhile isInlineSpace = c :: withReturns after := by
  rw [dropWhile_withReturns, hspace]

/-- The backslash that joins two lines takes the carriage return, too. -/
theorem joinSize_withReturns {size : Nat} (hreturn : '\r' ∉ after)
    (hjoin : joinSize c after = some size) :
    joinSize c (withReturns after) = some (size + 1) ∧
      (withReturns after).drop (size + 1) = withReturns (after.drop size) := by
  fun_cases joinSize c after with
  | case1 rest =>
    cases hjoin
    exact ⟨rfl, rfl⟩
  | case2 rest => simp at hreturn
  | case3 => simp [joinSize] at hjoin

/-- A comment ends in front of the newline, and the carriage return is part of it. -/
theorem scan_comment_withReturns (atStart : Bool) (s : Scanner) (text : List Char) :
    scan true atStart s ((withReturns text).dropWhile (· ≠ '\n')) =
      scan true atStart s (withReturns (text.dropWhile (· ≠ '\n'))) := by
  induction text with
  | nil => rfl
  | cons c text ih =>
    by_cases hc : c = '\n'
    · subst hc
      have hline : ('\r' :: '\n' :: withReturns text).dropWhile isInlineSpace =
          '\n' :: withReturns text := rfl
      change scan true atStart s ('\n' :: withReturns text) =
        scan true atStart s ('\r' :: '\n' :: withReturns text)
      rw [scan_of_cons hline, scan_of_cons (dropWhile_of_not_space (by decide))]
      rfl
    · simpa [withReturns_cons hc, hc] using ih

namespace Place

variable {p q : Place} {quoting : Quoting}

/-- Unless a literal goes on behind the end of its line, a step is one with carriage returns too. -/
theorem Step.returned_scan_eq (h : Step p q) (hreturn : '\r' ∉ p.text)
    (hhere : ∀ quoting, ¬ p.SpansHere quoting) : p.returned.scan = q.returned.scan := by
  cases h with
  | comment hspace =>
    exact (scan_of_cons (dropWhile_withReturns_cons hspace)).trans
      (scan_comment_withReturns _ _ _)
  | blankLine hspace => exact scan_of_cons (dropWhile_withReturns_cons hspace)
  | lineEnd hspace hdepth =>
    refine (scan_of_cons (dropWhile_withReturns_cons hspace)).trans ?_
    simp [hdepth, scan, returned]
  | inBrackets hspace hdepth =>
    refine (scan_of_cons (dropWhile_withReturns_cons hspace)).trans ?_
    simp [hdepth, scan, returned]
  | @indent s t c text after hspace hcomment hline hindent =>
    refine (scan_of_cons (dropWhile_withReturns_cons hspace)).trans ?_
    change (if _ then _ else if _ then _ else
      (Scanner.locate s (s.indentTo (indentWidth 0 (withReturns text)))).bind _) = _
    rw [if_neg hcomment, if_neg hline, indentWidth_withReturns, hindent, ← withReturns_cons hline]
    rfl
  | @join s c text after size hspace hcomment hline hjoin =>
    have hafter : '\r' ∉ after := fun hmem =>
      hreturn ((suffix_of_space hspace).subset (List.mem_cons_of_mem c hmem))
    obtain ⟨hagain, hdrop⟩ := joinSize_withReturns hafter hjoin
    refine (scan_of_cons (dropWhile_withReturns_cons hspace)).trans ?_
    rw [if_neg hcomment, if_neg hline, hagain]
    change Fragment.scan true false s.nextLine ((withReturns after).drop (size + 1)) = _
    rw [hdrop]
    rfl
  | @lexeme s c text after l hspace hcomment hline hjoin hread =>
    have hnone : l.newlines = 0 := by
      by_contra hspans
      obtain ⟨quoting, hquoting, -⟩ := exists_quotingOf hread hspans
      exact hhere quoting ⟨c, after, l, ⟨rfl, hspace, hread⟩, hquoting, hspans⟩
    obtain ⟨hagain, hdrop⟩ := readLexeme_withReturns hread hnone
    refine (scan_of_cons (dropWhile_withReturns_cons hspace)).trans ?_
    rw [if_neg hcomment, if_neg hline, joinSize_of_ne (ne_of_readLexeme hread).2.2, hagain]
    change Fragment.scan true false (s.add l) ((withReturns after).drop l.size) = _
    rw [hdrop]
    rfl

/-- The first literal that goes on behind the end of its line is unterminated. -/
theorem returned_scan_of_spansHere (hreturn : '\r' ∉ p.text) (hspans : p.SpansHere quoting)
    (hshort : quoting.isTriple = false) :
    p.returned.scan = .error ⟨.unterminatedString, p.scanner.line⟩ := by
  obtain ⟨c, after, l, hreads, hquoting, hnewlines⟩ := hspans
  obtain ⟨q, hq, hfail⟩ := exists_quotingOf hreads.lexeme hnewlines
  rw [hquoting] at hq
  cases hq
  obtain ⟨hcomment, hline, hplain⟩ := ne_of_readLexeme hreads.lexeme
  obtain ⟨atStart, s, text⟩ := p
  obtain rfl : atStart = false := hreads.inLine
  refine (scan_of_cons (dropWhile_withReturns_cons hreads.space)).trans ?_
  rw [if_neg hcomment, if_neg hline, joinSize_of_ne hplain, hfail hshort]
  rfl

theorem SpansFrom.behind {line : Nat} (h : q.SpansFrom line quoting) (hnext : p.next? = some q) :
    p.SpansFrom line quoting := by
  obtain ⟨place, hcomes, hline, hspans⟩ := h
  exact ⟨place, .head hnext hcomes, hline, hspans⟩

theorem spansFrom_iff (hnext : p.next? = some q) (hhere : ∀ quoting, ¬ p.SpansHere quoting)
    (line : Nat) (quoting : Quoting) : p.SpansFrom line quoting ↔ q.SpansFrom line quoting := by
  refine ⟨?_, fun hspans => hspans.behind hnext⟩
  rintro ⟨place, hcomes, hline, hspans⟩
  rcases Relation.ReflTransGen.cases_head hcomes with rfl | ⟨next, hfirst, hrest⟩
  · exact absurd hspans (hhere quoting)
  · rw [hnext] at hfirst
    cases hfirst
    exact ⟨place, hrest, hline, hspans⟩

theorem not_spansFrom_of_end (hend : p.text.dropWhile isInlineSpace = []) (line : Nat)
    (quoting : Quoting) : ¬ p.SpansFrom line quoting := by
  rintro ⟨place, hcomes, -, c, after, l, hreads, -⟩
  rcases Relation.ReflTransGen.cases_head hcomes with rfl | ⟨next, hfirst, -⟩
  · cases hend.symm.trans hreads.space
  · simp [next?, hend] at hfirst

/-- What scanning gives from a place on if each line ends with a carriage return. -/
def ReturnedGives (p : Place) (tokens : List Token) : Prop :=
  (∀ line quoting, ¬ p.SpansFrom line quoting) ∧ p.returned.scan = .ok tokens ∨
    ∃ line, IsLeast {line | ∃ quoting, p.SpansFrom line quoting} line ∧
      p.returned.scan = .error ⟨.unterminatedString, line⟩

/-- Each step is one with carriage returns, up to the first literal that goes on behind the end of
its line. -/
theorem returnedGives_of_scan {p : Place} {tokens : List Token} (hreturn : '\r' ∉ p.text)
    (hscan : p.scan = .ok tokens)
    (hshort : ∀ line quoting, p.SpansFrom line quoting → quoting.isTriple = false) :
    p.ReturnedGives tokens := by
  cases hnext : p.next? with
  | none =>
    rcases scan_of_next?_eq_none hnext with hend | ⟨e, herror⟩
    · have hreturned : p.returned.text.dropWhile isInlineSpace = [] := by
        rw [returned, dropWhile_withReturns, hend]
      have hsame : p.returned.scan = p.scan :=
        (scan_of_blank hreturned).trans (scan_of_blank hend).symm
      exact .inl ⟨not_spansFrom_of_end hend, hsame.trans hscan⟩
    · rw [hscan] at herror
      cases herror
  | some q =>
    have hstep := step_of_next? hnext
    by_cases hspans : ∃ quoting, p.SpansHere quoting
    · obtain ⟨quoting, hspans⟩ := hspans
      have hhere : p.SpansFrom p.scanner.line quoting := ⟨p, .refl, rfl, hspans⟩
      refine .inr ⟨p.scanner.line, ⟨⟨quoting, hhere⟩, ?_⟩,
        returned_scan_of_spansHere hreturn hspans (hshort _ _ hhere)⟩
      rintro line ⟨other, place, hcomes, rfl, -⟩
      exact hcomes.line_le
    · have hhere : ∀ quoting, ¬ p.SpansHere quoting := not_exists.mp hspans
      have hrest : q.ReturnedGives tokens :=
        returnedGives_of_scan (fun hmem => hreturn (hstep.suffix.subset hmem))
          (hstep.scan_eq.symm.trans hscan)
          fun line quoting hspans => hshort line quoting (hspans.behind hnext)
      simpa only [ReturnedGives, spansFrom_iff hnext hhere,
        hstep.returned_scan_eq hreturn hhere] using hrest
termination_by 2 * p.text.length + p.atStart.toNat
decreasing_by exact hstep.size_lt

end Place

/-- Three quotes in a row stand in a text with a long literal. -/
theorem isTriple_of_spansLines {code : List Char} {line : Nat} {q : Quoting}
    (hquotes : ∀ quote, isQuote quote = true → ¬ [quote, quote, quote] <:+: code)
    (h : SpansLines code line q) : q.isTriple = false := by
  obtain ⟨place, hcomes, -, c, after, l, hreads, hquoting, -⟩ := h
  have hplace : c :: after <:+: code :=
    ((Place.suffix_of_space hreads.space).trans hcomes.suffix).isInfix
  have hshort : ∀ {quote : Char} {rest : List Char}, isQuote quote = true →
      quote :: rest <:+: code → (Quoting.of quote rest).isTriple = false := by
    intro quote rest hquote hinfix
    by_contra hlong
    have hopening := List.isPrefixOf_iff_prefix.mp (Bool.not_eq_false _ ▸ hlong)
    exact hquotes quote hquote
      (((List.prefix_cons_inj quote).mpr hopening).isInfix.trans hinfix)
  unfold quotingOf? at hquoting
  split at hquoting
  · rename_i hquote
    cases hquoting
    exact hshort hquote hplace
  · split at hquoting
    · cases hquoting
    · split at hquoting
      · rename_i hmark
        cases hquoting
        exact hshort (isQuote_of_isFormatMark hmark)
          ((List.suffix_cons _ _).isInfix.trans hplace)
      · cases hquoting

/-- A fragment is read in the same way with carriage returns, or the first literal in it that goes
on behind the end of its line is unterminated. -/
theorem tokenize_withReturns {code : List Char} {tokens : List Token} (hreturn : '\r' ∉ code)
    (htokens : tokenize code = .ok tokens)
    (hshort : ∀ line quoting, SpansLines code line quoting → quoting.isTriple = false) :
    (∀ line quoting, ¬ SpansLines code line quoting) ∧
        tokenize (withReturns code) = .ok tokens ∨
      ∃ line, IsLeast {line | ∃ quoting, SpansLines code line quoting} line ∧
        tokenize (withReturns code) = .error ⟨.unterminatedString, line⟩ :=
  Place.returnedGives_of_scan (p := Place.start code) hreturn htokens hshort

theorem forall_isQuote {P : Char → Prop} (hsingle : P '\'') (hdouble : P '"') (quote : Char)
    (h : isQuote quote = true) : P quote := by
  rcases quote_cases h with rfl | rfl
  · exact hsingle
  · exact hdouble

theorem tokenize_withReturns_of_joined_lines :
    ∃ tokens, tokenize "x = [1, # a\n  2] + \\\n 3\nif x:\n\ty = 'b'\n".toList = .ok tokens ∧
      ((∀ line quoting,
          ¬ SpansLines "x = [1, # a\n  2] + \\\n 3\nif x:\n\ty = 'b'\n".toList line quoting) ∧
        tokenize (withReturns "x = [1, # a\n  2] + \\\n 3\nif x:\n\ty = 'b'\n".toList) =
          .ok tokens ∨
      ∃ line, IsLeast {line | ∃ quoting,
          SpansLines "x = [1, # a\n  2] + \\\n 3\nif x:\n\ty = 'b'\n".toList line quoting} line ∧
        tokenize (withReturns "x = [1, # a\n  2] + \\\n 3\nif x:\n\ty = 'b'\n".toList) =
          .error ⟨.unterminatedString, line⟩) := by
  obtain ⟨tokens, htokens⟩ := Outcome.isOk_iff_exists.mp (show
    (tokenize "x = [1, # a\n  2] + \\\n 3\nif x:\n\ty = 'b'\n".toList).isOk = true by
      decide +kernel)
  exact ⟨tokens, htokens, tokenize_withReturns (by decide) htokens fun _ _ =>
    isTriple_of_spansLines (forall_isQuote (by decide +kernel) (by decide +kernel))⟩

theorem unterminated_withReturns :
    '\r' ∉ "x = 'a\\\nb'\n".toList ∧
      (∀ line quoting, SpansLines "x = 'a\\\nb'\n".toList line quoting →
        quoting.isTriple = false) ∧
      (tokenize "x = 'a\\\nb'\n".toList).isOk = true ∧
      tokenize (withReturns "x = 'a\\\nb'\n".toList) = .error ⟨.unterminatedString, 1⟩ := by
  refine ⟨by decide, fun line quoting => isTriple_of_spansLines ?_, by decide +kernel, ?_⟩
  · exact forall_isQuote (by decide +kernel) (by decide +kernel)
  · exact Outcome.error?_eq_some_iff.mp (by decide +kernel)

end LiveDoc.Fragment
