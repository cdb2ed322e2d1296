import LiveDoc.Proofs.Fragment.LineReading
import LiveDoc.Proofs.Fragment.TokenLines

/-!
Reading in front of the end of a line. A text that ends its last line, so that no backslash joins
that line to what comes next, is read in the same way whatever stands behind it: each token in it
ends in front of the last newline.
-/
namespace LiveDoc.Fragment

/-- The text ends with a newline that no backslash takes back. -/
structure EndsLine (text : List Char) : Prop where
  newline : ['\n'] <:+ text
  notJoined : ¬ ['\\', '\n'] <:+ text
  notJoinedBehindReturn : ¬ ['\\', '\r', '\n'] <:+ text

namespace EndsLine

variable {text rest : List Char} {c : Char}

theorem mem (h : EndsLine text) : '\n' ∈ text := h.newline.subset (List.mem_singleton_self _)

theorem ne_nil (h : EndsLine text) : text ≠ [] := List.ne_nil_of_mem h.mem

theorem suffix (h : EndsLine text) (hrest : rest <:+ text) (hsome : rest ≠ []) :
    EndsLine rest where
  newline := List.suffix_of_suffix_length_le h.newline hrest
    (List.length_pos_iff.mpr hsome)
  notJoined hjoined := h.notJoined (hjoined.trans hrest)
  notJoinedBehindReturn hjoined := h.notJoinedBehindReturn (hjoined.trans hrest)

/-- Behind any other character the last newline is still to come. -/
theorem tail (h : EndsLine (c :: rest)) (hc : c ≠ '\n') : EndsLine rest := by
  refine h.suffix (List.suffix_cons c rest) ?_
  rintro rfl
  exact hc (List.mem_singleton.mp h.mem).symm

theorem drop {count : Nat} (h : EndsLine text) (hcount : count < text.length) :
    EndsLine (text.drop count) := by
  refine h.suffix (List.drop_suffix count text) ?_
  rw [Ne, List.drop_eq_nil_iff]
  omega

/-- Characters among which there is no newline do not reach the end. -/
theorem lt_length {count : Nat} (h : EndsLine text) (hcount : newlines (text.take count) = 0) :
    count < text.length := by
  by_contra hlong
  rw [List.take_of_length_le (Nat.le_of_not_lt hlong), newlines, List.count_eq_zero] at hcount
  exact hcount h.mem

end EndsLine

variable {text : List Char} {c : Char} {keepEscapes : Bool} {body : Body} {quote : Char}
  {l : Lexeme}

namespace EndsLine

/-- What is read in a line does not depend on what stands behind its end. -/
theorem eq_of_breaksOff {α : Type} {read : List Char → α}
    (hread : ∀ rest, BreaksOff rest → ∀ text, read (text ++ rest) = read text)
    (h : EndsLine text) (more : List Char) : read (text ++ more) = read text := by
  obtain ⟨front, back, rfl⟩ := List.append_of_mem h.mem
  have hline : ∀ back, read (front ++ '\n' :: back) = read front :=
    fun back => hread _ (by simp [BreaksOff]) front
  rw [List.append_assoc, List.cons_append, hline, hline]

theorem readNumeral_append (h : EndsLine text) (more : List Char) :
    readNumeral (text ++ more) = readNumeral text :=
  h.eq_of_breaksOff (fun _ hrest => Fragment.readNumeral_append hrest) more

theorem readQuoted_append (hquote : quote ≠ '\n' ∧ quote ≠ '\r') (h : EndsLine text)
    (hread : readQuoted keepEscapes quote text = .ok body) (more : List Char) :
    readQuoted keepEscapes quote (text ++ more) = .ok body ∧ body.size < text.length := by
  have hsame := h.eq_of_breaksOff (fun _ hrest => quotingOf_append hrest hquote) more
  obtain ⟨taken, behind, rfl, hsize, hlast, hagain⟩ := exists_taken_of_readQuoted hread
  -- The last character of the literal is its quote, so the newline is behind it.
  have hbehind : behind ≠ [] := by
    rintro rfl
    obtain ⟨front, hfront⟩ := h.newline
    rw [List.append_nil] at hfront
    rw [← hfront, List.getLast?_append] at hlast
    exact hquote.1 (Option.some.inj hlast).symm
  have hpos := List.length_pos_iff.mpr hbehind
  rw [List.append_assoc] at hsame ⊢
  exact ⟨hagain _ hsame, by simp only [hsize, List.length_append]; omega⟩

theorem readWord_append (h : EndsLine text) (hread : readWord c text = .ok l)
    (more : List Char) : readWord c (text ++ more) = .ok l ∧ l.size < text.length := by
  have hword : isWordChar '\n' = false := by decide
  have htake := Text.takeWhile_append_of_stop (p := isWordChar) h.mem hword more
  have hlength := h.lt_length (newlines_take_length_takeWhile hword text)
  obtain ⟨d, rest, rfl⟩ := List.exists_cons_of_ne_nil h.ne_nil
  rw [readWord_cons] at hread
  rw [List.cons_append] at htake ⊢
  rw [readWord_cons, htake]
  split at hread
  · rename_i hmark
    rw [if_pos hmark]
    obtain ⟨body, pieces, hbody, hpieces, rfl⟩ := readFormat_eq_ok_iff.mp hread
    have hquote := isQuote_ne (isQuote_of_isFormatMark hmark)
    obtain ⟨hbody, hsize⟩ := (h.tail hquote.1).readQuoted_append hquote hbody more
    refine ⟨readFormat_eq_ok_iff.mpr ⟨body, pieces, hbody, hpieces, rfl⟩, ?_⟩
    simp only [List.length_cons]
    omega
  · rename_i hmark
    rw [if_neg hmark]
    cases hread
    exact ⟨rfl, (size_wordOf c _).le.trans_lt hlength⟩

theorem readSymbol_append (h : EndsLine text) (hread : readSymbol c text = .ok l)
    (more : List Char) : readSymbol c (text ++ more) = .ok l ∧ l.size < text.length := by
  have hsame := h.eq_of_breaksOff (fun _ hrest => Fragment.readSymbol_append hrest c) more
  have hnone := newlines_of_readSymbol hread
  refine ⟨hsame.trans hread, h.lt_length ?_⟩
  rw [← hnone]
  unfold readSymbol at hread
  split at hread
  · cases hread
    rfl
  · split at hread
    · cases hread
      rfl
    · cases hread

end EndsLine

/-- A token is read in the same way whatever stands behind the line, and it ends in front of the
last newline. -/
theorem readLexeme_append (hc : c ≠ '\n') (hline : EndsLine (c :: text))
    (hread : readLexeme c text = .ok l) (more : List Char) :
    readLexeme c (text ++ more) = .ok l ∧ l.size < text.length := by
  have h := hline.tail hc
  have hpos := List.length_pos_iff.mpr h.ne_nil
  unfold readLexeme at hread ⊢
  split at hread
  · rename_i hdigit
    rw [if_pos hdigit, ← List.cons_append, hline.readNumeral_append]
    refine ⟨hread, ?_⟩
    obtain ⟨⟨kind, length⟩, hnumeral, hl⟩ := Outcome.bind_eq_ok_iff.mp hread
    cases hl
    have hlength := hline.lt_length (newlines_take_of_readNumeral hnumeral)
    simp only [List.length_cons] at hlength ⊢
    omega
  · rename_i hdigit
    rw [if_neg hdigit]
    split at hread
    · rename_i hquote
      rw [if_pos hquote]
      obtain ⟨body, hbody, hl⟩ := Outcome.bind_eq_ok_iff.mp hread
      obtain ⟨hbody, hsize⟩ := h.readQuoted_append (isQuote_ne hquote) hbody more
      cases hl
      exact ⟨Outcome.bind_eq_ok_iff.mpr ⟨body, hbody, rfl⟩, hsize⟩
    · rename_i hquote
      rw [if_neg hquote]
      split at hread
      · rename_i hword
        rw [if_pos hword]
        exact h.readWord_append hread more
      · rename_i hword
        rw [if_neg hword]
        exact h.readSymbol_append hread more

/-- Whether a line is joined to the next one is told by the two characters behind its end. -/
theorem joinSize_cons_cons (c d e : Char) (rest : List Char) :
    joinSize c (d :: e :: rest) =
      if c = '\\' ∧ d = '\n' then some 1
      else if c = '\\' ∧ d = '\r' ∧ e = '\n' then some 2
      else none := by
  unfold joinSize
  split
  · rename_i heq
    rw [if_pos ⟨rfl, (List.cons.inj heq).1⟩]
  · rename_i heq
    cases heq
    rfl
  · rename_i hnewline hreturn
    rw [if_neg, if_neg]
    · rintro ⟨hc, rfl, rfl⟩
      exact hreturn rest hc rfl
    · rintro ⟨hc, rfl⟩
      exact hnewline (e :: rest) hc rfl

theorem joinSize_append (hline : EndsLine (c :: text)) (more : List Char) :
    joinSize c (text ++ more) = joinSize c text := by
  match text with
  | [] =>
    obtain rfl : '\n' = c := List.mem_singleton.mp hline.mem
    simp [joinSize]
  | [d] =>
    obtain rfl : '\n' = d := by simpa using hline.newline.getLast (by simp)
    have hc : c ≠ '\\' := by
      rintro rfl
      exact hline.notJoined List.suffix_rfl
    simp [joinSize, hc]
  | d :: e :: rest =>
    rw [List.cons_append, List.cons_append, joinSize_cons_cons, joinSize_cons_cons]

/-- A line that is joined to the next one is not the last. -/
theorem joinSize_lt_length {size : Nat} (hline : EndsLine (c :: text))
    (hjoin : joinSize c text = some size) : size < text.length := by
  fun_cases joinSize c text with
  | case1 rest =>
    cases hjoin
    cases rest with
    | nil => exact absurd List.suffix_rfl hline.notJoined
    | cons d rest => simp
  | case2 rest =>
    cases hjoin
    cases rest with
    | nil => exact absurd List.suffix_rfl hline.notJoinedBehindReturn
    | cons d rest => simp
  | case3 => simp [joinSize] at hjoin

theorem indentWidth_append {d : Char} (hd : d ∈ text) (hstop : isInlineSpace d = false)
    (width : Nat) (more : List Char) :
    indentWidth width (text ++ more) = indentWidth width text := by
  have htail {c : Char} {rest : List Char} (hmem : d ∈ c :: rest) (hc : isInlineSpace c = true) :
      d ∈ rest := by
    rcases List.mem_cons.mp hmem with rfl | hmem
    · exact Bool.noConfusion (hstop.symm.trans hc)
    · exact hmem
  fun_induction indentWidth width text with
  | case1 => cases hd
  | case2 width rest ih =>
    rw [List.cons_append, indentWidth, if_pos rfl]
    exact ih (htail hd (by decide))
  | case3 width rest hblank ih =>
    rw [List.cons_append, indentWidth, if_neg hblank, if_pos rfl]
    exact ih (htail hd (by decide))
  | case4 width c rest hblank htab hspace ih =>
    rw [List.cons_append, indentWidth, if_neg hblank, if_neg htab, if_pos hspace]
    exact ih (htail hd hspace)
  | case5 width c rest hblank htab hspace =>
    rw [List.cons_append, indentWidth, if_neg hblank, if_neg htab, if_neg hspace]

end LiveDoc.Fragment
