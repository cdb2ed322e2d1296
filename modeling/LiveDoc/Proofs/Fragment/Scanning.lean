import LiveDoc.Fragment.Scan

/-!
The steps of scanning. White space inside a line is passed over, and then one character decides
what is done: a logical line begins or ends, or a token is read. Each step goes on behind what it
has taken.
-/
namespace LiveDoc.Fragment

variable {layout atStart : Bool} {s : Scanner} {c : Char} {text after : List Char}

theorem scan_of_blank (h : text.dropWhile isInlineSpace = []) :
    scan layout atStart s text = .ok (s.finish layout) := by
  rw [scan]
  split
  · rfl
  · rename_i hcons
    rw [h] at hcons
    simp at hcons

/-- What is done at the first character that is not white space inside a line. -/
theorem scan_of_cons (h : text.dropWhile isInlineSpace = c :: after) :
    scan layout atStart s text =
      if c = '#' then scan layout atStart s (after.dropWhile (· ≠ '\n'))
      else if c = '\n' then
        if atStart then scan layout true s.nextLine after
        else if layout && s.depth = 0 then scan layout true s.endLine.nextLine after
        else scan layout false s.nextLine after
      else if atStart then
        (s.locate (s.indentTo (indentWidth 0 text))).bind fun s => scan layout false s (c :: after)
      else
        match joinSize c after with
        | some size => scan layout false s.nextLine (after.drop size)
        | none =>
          (s.locate (readLexeme c after)).bind fun l =>
            scan layout false (s.add l) (after.drop l.size) := by
  rw [scan]
  split
  · rename_i hnil
    rw [h] at hnil
    simp at hnil
  · rename_i hcons
    rw [h] at hcons
    obtain ⟨rfl, rfl⟩ := List.cons.inj hcons
    simp only [h]
    rfl

theorem dropWhile_of_not_space (hspace : isInlineSpace c = false) :
    (c :: after).dropWhile isInlineSpace = c :: after :=
  List.dropWhile_cons_of_neg (by simp [hspace])

theorem scan_nil : scan layout atStart s [] = .ok (s.finish layout) := scan_of_blank rfl

/-- A logical line that begins without white space has no indent. -/
theorem scan_lineStart (hspace : isInlineSpace c = false) (hcomment : c ≠ '#') (hline : c ≠ '\n') :
    scan layout true s (c :: after) =
      (s.locate (s.indentTo 0)).bind fun s => scan layout false s (c :: after) := by
  have hwidth : indentWidth 0 (c :: after) = 0 := by
    have hblank : c ≠ ' ' := by
      rintro rfl
      simp [isInlineSpace] at hspace
    have htab : c ≠ '\t' := by
      rintro rfl
      simp [isInlineSpace] at hspace
    simp [indentWidth, hblank, htab, hspace]
  rw [scan_of_cons (dropWhile_of_not_space hspace), if_neg hcomment, if_neg hline, if_pos rfl,
    hwidth]

/-- A token is read where it begins, and scanning goes on behind it. -/
theorem scan_lexeme {l : Lexeme} (hspace : isInlineSpace c = false) (hcomment : c ≠ '#')
    (hline : c ≠ '\n') (hjoin : joinSize c after = none) (hread : readLexeme c after = .ok l) :
    scan layout false s (c :: after) = scan layout false (s.add l) (after.drop l.size) := by
  rw [scan_of_cons (dropWhile_of_not_space hspace), if_neg hcomment, if_neg hline,
    if_neg Bool.false_ne_true, hjoin, hread]
  rfl

/-- White space in front of a token changes nothing. -/
theorem scan_space (hspace : isInlineSpace c = true) :
    scan layout false s (c :: after) = scan layout false s after := by
  have hdrop : (c :: after).dropWhile isInlineSpace = after.dropWhile isInlineSpace :=
    List.dropWhile_cons_of_pos hspace
  cases hrest : after.dropWhile isInlineSpace with
  | nil => rw [scan_of_blank (hdrop.trans hrest), scan_of_blank hrest]
  | cons d rest =>
    rw [scan_of_cons (hdrop.trans hrest), scan_of_cons hrest]
    rfl

/-- Outside of brackets a newline ends the logical line. -/
theorem scan_lineEnd (hdepth : s.depth = 0) :
    scan true false s ('\n' :: after) = scan true true s.endLine.nextLine after := by
  rw [scan_of_cons (dropWhile_of_not_space (by decide))]
  simp [hdepth]

/-- All that the indent of a logical line does: it opens a block that is indented more, or closes
those that the line does not reach, and then the innermost one has its width. -/
inductive Scanner.Indented (s : Scanner) (width : Nat) : Scanner → Prop where
  | deeper (hdeeper : s.indents.head?.getD 0 < width) (hroom : s.indents.length < maxIndents) :
      s.Indented width ({ s with indents := width :: s.indents }.push .indent)
  | reached (hreached : width ≤ s.indents.head?.getD 0)
      (hwidth : (s.dedent (s.indents.takeWhile (width < ·)).length).indents.head?.getD 0 = width) :
      s.Indented width (s.dedent (s.indents.takeWhile (width < ·)).length)

theorem Scanner.indented_of_indentTo {t : Scanner} {width : Nat} (h : s.indentTo width = .ok t) :
    s.Indented width t := by
  simp only [indentTo] at h
  split at h
  · rename_i hdeeper
    split at h
    · cases h
    · rename_i hroom
      cases h
      exact .deeper hdeeper (Nat.not_le.mp hroom)
  · rename_i hreached
    split at h
    · rename_i hwidth
      cases h
      exact .reached (Nat.not_lt.mp hreached) hwidth
    · cases h

theorem quote_cases {quote : Char} (h : isQuote quote = true) : quote = '\'' ∨ quote = '"' := by
  simpa [isQuote] using h

end LiveDoc.Fragment
