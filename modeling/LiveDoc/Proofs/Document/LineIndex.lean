import LiveDoc.Proofs.Document.Lossless
import LiveDoc.Proofs.Text.Newlines
import LiveDoc.Proofs.Text.Runs

/-!
Two ways to count lines. The index of a source finds the line of an offset among the offsets behind
newlines, and a document is read as a list of lines. A line that has some lines in front of it has
a number that is one more than theirs, and the index gives it the bytes that it is made of.
-/
namespace LiveDoc

open Document

namespace Source

/-! ### The offsets behind newlines -/

theorem startsFrom_append (offset : Nat) (a b : List Char) :
    startsFrom offset (a ++ b) =
      startsFrom offset a ++ startsFrom (offset + byteLength a) b := by
  induction a generalizing offset with
  | nil => rfl
  | cons c rest ih =>
    simp only [List.cons_append, startsFrom, byteLength, ih, ← Nat.add_assoc]
    split
    · rfl
    · rfl

theorem length_startsFrom (offset : Nat) (text : List Char) :
    (startsFrom offset text).length = newlines text := by
  induction text generalizing offset with
  | nil => rfl
  | cons c rest ih =>
    rw [startsFrom]
    split
    · rename_i hc
      rw [hc, newlines_newline, List.length_cons, ih]
    · rename_i hc
      rw [newlines_cons_of_ne hc, ih]

theorem bounds_of_mem_startsFrom {offset start : Nat} {text : List Char}
    (h : start ∈ startsFrom offset text) : offset < start ∧ start ≤ offset + byteLength text := by
  induction text generalizing offset with
  | nil => exact absurd h List.not_mem_nil
  | cons c rest ih =>
    have hsize := c.utf8Size_pos
    simp only [startsFrom, byteLength] at h ⊢
    split at h
    · rcases List.mem_cons.mp h with rfl | h
      · omega
      · have hrest := ih h
        omega
    · have hrest := ih h
      omega

theorem pairwise_startsFrom (offset : Nat) (text : List Char) :
    (startsFrom offset text).Pairwise (· < ·) := by
  induction text generalizing offset with
  | nil => exact .nil
  | cons c rest ih =>
    rw [startsFrom]
    split
    · exact .cons (fun _ h => (bounds_of_mem_startsFrom h).1) (ih _)
    · exact ih _

theorem pairwise_lineStarts (s : Source) : s.lineStarts.Pairwise (· < ·) :=
  .cons (fun _ h => (bounds_of_mem_startsFrom h).1) (pairwise_startsFrom 0 _)

/-! ### Searching -/

/-- Searching some offsets that ascend tells where they go beyond the given one. -/
inductive Searched (offset : Nat) : List Nat → Except Nat Nat → Prop where
  | found {before behind : List Nat} (hbefore : ∀ start ∈ before, start < offset)
      (hbehind : ∀ start ∈ behind, offset < start) :
      Searched offset (before ++ offset :: behind) (.ok before.length)
  | missing {before behind : List Nat} (hbefore : ∀ start ∈ before, start < offset)
      (hbehind : ∀ start ∈ behind, offset < start) :
      Searched offset (before ++ behind) (.error before.length)

theorem searched {starts : List Nat} (h : starts.Pairwise (· < ·)) (offset : Nat) :
    Searched offset starts (search starts offset) := by
  obtain ⟨before, behind, rfl, hbefore, hbehind⟩ := Text.exists_run (· < offset) starts
  have hbelow : ∀ start ∈ before, start < offset :=
    fun start hstart => of_decide_eq_true (hbefore start hstart)
  rw [search, Text.takeWhile_run hbefore hbehind, List.getElem?_append_right (Nat.le_refl _),
    Nat.sub_self]
  cases behind with
  | nil => exact .missing hbelow (by simp)
  | cons next behind =>
    have hnext := of_decide_eq_false (hbehind next rfl)
    have hascending := (List.pairwise_cons.mp (List.pairwise_append.mp h).2.1).1
    by_cases hsame : next = offset
    · subst hsame
      rw [List.getElem?_cons_zero, if_pos rfl]
      exact .found hbelow hascending
    · rw [List.getElem?_cons_zero, if_neg (by simpa using hsame)]
      refine .missing hbelow (List.forall_mem_cons.mpr ⟨by omega, fun start hstart => ?_⟩)
      have hlater := hascending start hstart
      omega

/-- The lines that have begun at an offset, but for the one that the offset is on. -/
theorem lineOffset_eq_countP (s : Source) (offset : Nat) :
    s.lineOffset offset = s.lineStarts.countP (· ≤ offset) - 1 := by
  have hcount {before behind : List Nat} (hbefore : ∀ start ∈ before, start < offset)
      (hbehind : ∀ start ∈ behind, offset < start) :
      before.countP (· ≤ offset) = before.length ∧ behind.countP (· ≤ offset) = 0 :=
    ⟨List.countP_eq_length.mpr fun start hstart =>
        decide_eq_true (Nat.le_of_lt (hbefore start hstart)),
      List.countP_eq_zero.mpr fun start hstart => by simpa using hbehind start hstart⟩
  have hsearched := searched s.pairwise_lineStarts offset
  rw [lineOffset]
  generalize s.lineStarts = starts at hsearched
  generalize search starts offset = result at hsearched
  cases hsearched with
  | found hbefore hbehind =>
    obtain ⟨hfront, hback⟩ := hcount hbefore hbehind
    rw [List.countP_append, hfront, List.countP_cons_of_pos (by simp), hback]
    rfl
  | missing hbefore hbehind =>
    obtain ⟨hfront, hback⟩ := hcount hbefore hbehind
    rw [List.countP_append, hfront, hback]
    rfl

/-! ### Lines and newlines -/

variable {s : Source} {before after : List Char}

/-- The number of newlines in front of an offset. -/
theorem lineOffset_eq (h : s.text.toList = before ++ after) :
    s.lineOffset (byteLength before) = newlines before := by
  have hbefore : (startsFrom 0 before).countP (· ≤ byteLength before) = newlines before := by
    rw [← length_startsFrom 0 before, List.countP_eq_length]
    intro start hstart
    have hbounds := bounds_of_mem_startsFrom hstart
    exact decide_eq_true (by omega)
  have hafter : (startsFrom (0 + byteLength before) after).countP (· ≤ byteLength before) = 0 := by
    rw [List.countP_eq_zero]
    intro start hstart
    have hbounds := bounds_of_mem_startsFrom hstart
    simp only [decide_eq_true_eq]
    omega
  rw [lineOffset_eq_countP, lineStarts, h, startsFrom_append, List.countP_cons_of_pos (by simp),
    List.countP_append, hbefore, hafter]
  rfl

theorem lineNumber_eq (h : s.text.toList = before ++ after) :
    s.lineNumber (byteLength before) = newlines before + 1 :=
  congrArg (· + 1) (lineOffset_eq h)

/-- Where a line begins that is not the first one. -/
theorem lineStarts_getElem? (h : s.text.toList = before ++ '\n' :: after) :
    s.lineStarts[newlines before + 1]? = some (byteLength before + 1) := by
  rw [lineStarts, h, startsFrom_append, List.getElem?_cons_succ, ← length_startsFrom 0 before,
    List.getElem?_append_right (Nat.le_refl _), Nat.sub_self, Nat.zero_add]
  rfl

theorem length_lineStarts (s : Source) : s.lineStarts.length = newlines s.text.toList + 1 := by
  rw [lineStarts, List.length_cons, length_startsFrom]

theorem utf8ByteSize_ofList (text : List Char) :
    (String.ofList text).utf8ByteSize = byteLength text := by
  induction text with
  | nil => rfl
  | cons c rest ih =>
    have hcons : String.ofList (c :: rest) = String.singleton c ++ String.ofList rest := by
      rw [String.singleton_eq_ofList, ← String.ofList_append]
      rfl
    rw [hcons, String.utf8ByteSize_append, ih, byteLength, String.utf8ByteSize_singleton]

theorem utf8ByteSize_eq (s : Source) : s.text.utf8ByteSize = byteLength s.text.toList := by
  rw [← utf8ByteSize_ofList, String.ofList_toList]

/-- The bytes of a line between a newline and the next one, or the end of the text. -/
theorem lineSpan_eq {line : List Char} (h : s.text.toList = before ++ '\n' :: line ++ after)
    (hline : '\n' ∉ line) (hafter : after = [] ∨ ∃ rest, after = '\n' :: rest) :
    s.lineSpan (newlines before + 2) =
      some ⟨byteLength before + 1, byteLength before + 1 + byteLength line⟩ := by
  have hstart : s.lineStarts[newlines before + 1]? = some (byteLength before + 1) :=
    lineStarts_getElem? (by rw [h, List.append_assoc]; rfl)
  have hlines : newlines (before ++ '\n' :: line) = newlines before + 1 := by
    rw [newlines_append, newlines_newline, newlines_eq_zero hline]
  have hbytes : byteLength (before ++ '\n' :: line) = byteLength before + 1 + byteLength line := by
    rw [byteLength_append, byteLength, Nat.add_assoc]
    rfl
  rw [lineSpan, if_neg (by omega), show newlines before + 2 - 1 = newlines before + 1 from rfl,
    hstart]
  rcases hafter with rfl | ⟨rest, rfl⟩
  · have hnext : s.lineStarts[newlines before + 2]? = none := by
      have hlength := length_lineStarts s
      rw [h, List.append_nil, hlines] at hlength
      exact List.getElem?_eq_none (by omega)
    rw [hnext, Option.map_some, utf8ByteSize_eq, h, List.append_nil, hbytes]
  · have hnext := lineStarts_getElem? h
    rw [hlines, hbytes] at hnext
    rw [Option.map_some, hnext]
    rfl

end Source

namespace Document

variable {text : List Char} {before after : List Line} {l : Line}

/-! ### The lines of a text -/

theorem newline_not_mem_linesFrom {start : Nat} {passed text : List Char}
    (hpassed : '\n' ∉ passed) (h : l ∈ linesFrom start passed text) : '\n' ∉ l.text := by
  fun_induction linesFrom start passed text with
  | case1 => exact absurd h List.not_mem_nil
  | case2 start passed hmore =>
    rw [List.mem_singleton.mp h]
    simpa using hpassed
  | case3 start passed rest line ih =>
    rcases List.mem_cons.mp h with rfl | h
    · simpa [line] using hpassed
    · exact ih List.not_mem_nil h
  | case4 start passed c rest hc ih =>
    exact ih (by simp [hpassed, Ne.symm hc]) h

/-- Only the last line may end without a newline. -/
theorem ended_of_linesFrom {start : Nat} {passed text : List Char}
    (h : linesFrom start passed text = before ++ l :: after) (hafter : after ≠ []) :
    l.ended = true := by
  fun_induction linesFrom start passed text generalizing before with
  | case1 => simp at h
  | case2 =>
    have hlength := congrArg List.length h
    have hpos := List.length_pos_iff.mpr hafter
    simp only [List.length_append, List.length_cons, List.length_nil] at hlength
    omega
  | case3 start passed rest line =>
    rename_i ih
    cases before with
    | nil =>
      rw [List.nil_append] at h
      rw [← (List.cons.inj h).1]
    | cons first before => exact ih (List.cons.inj h).2
  | case4 start passed c rest hc ih => exact ih h

theorem newline_not_mem_text (h : l ∈ bodyLines text) : '\n' ∉ l.text :=
  newline_not_mem_linesFrom List.not_mem_nil h

theorem ended_of_bodyLines (h : bodyLines text = before ++ l :: after) (hafter : after ≠ []) :
    l.ended = true :=
  ended_of_linesFrom h hafter

/-- A newline ends the line and there is no other one in it. -/
structure Line.Whole (l : Line) : Prop where
  ended : l.ended = true
  newline_not_mem : '\n' ∉ l.text

theorem Line.Whole.raw_eq (h : l.Whole) : l.raw = l.text ++ ['\n'] := by
  rw [Line.raw, if_pos h.ended]

theorem Line.Whole.newlines_raw (h : l.Whole) : newlines l.raw = 1 := by
  rw [h.raw_eq, newlines_append, newlines_eq_zero h.newline_not_mem]
  rfl

theorem whole_of_front (h : bodyLines text = before ++ after) (hafter : after ≠ [])
    (hl : l ∈ before) : l.Whole := by
  obtain ⟨left, right, rfl⟩ := List.append_of_mem hl
  have hmem : l ∈ bodyLines text := by simp [h]
  rw [List.append_assoc, List.cons_append] at h
  exact ⟨ended_of_bodyLines h (by simp [hafter]), newline_not_mem_text hmem⟩

theorem newlines_rawOf {lines : List Line} (h : ∀ l ∈ lines, l.Whole) :
    newlines (rawOf lines) = lines.length := by
  induction lines with
  | nil => rfl
  | cons l rest ih =>
    have hl := (h l (List.mem_cons_self ..)).newlines_raw
    rw [rawOf_cons, newlines_append, hl, ih fun x hx => h x (List.mem_cons_of_mem l hx),
      List.length_cons, Nat.add_comm]

/-- Whatever is left of whole lines ends with a newline. -/
theorem newlines_pos_of_rest {lines : List Line} {passed rest : List Char}
    (h : ∀ l ∈ lines, l.Whole) (hsplit : rawOf lines = passed ++ rest) (hrest : rest ≠ []) :
    0 < newlines rest := by
  have hlines : lines ≠ [] := by
    rintro rfl
    exact hrest (List.append_eq_nil_iff.mp hsplit.symm).2
  obtain ⟨above, l, rfl⟩ := (List.eq_nil_or_concat lines).resolve_left hlines
  have hlast : (rawOf (above.concat l)).getLast? = some '\n' := by
    rw [List.concat_eq_append, rawOf_append, rawOf_cons, rawOf_nil, List.append_nil,
      (h l (by simp)).raw_eq, ← List.append_assoc, List.getLast?_concat]
  rw [hsplit, List.getLast?_append, List.getLast?_eq_some_getLast hrest, Option.some_or] at hlast
  have hmem := List.getLast_mem hrest
  rw [Option.some.inj hlast] at hmem
  exact List.count_pos_iff.mpr hmem

theorem newlines_bodyText (text : List Char) : newlines (bodyText text) = newlines text := by
  unfold bodyText
  split
  · rename_i hmark
    cases text with
    | nil => rfl
    | cons c rest =>
      obtain rfl : c = byteOrderMark := by simpa using hmark
      exact (newlines_cons_of_ne (by decide) rest).symm
  · rfl

/-- What stands in front of a line. -/
theorem exists_front (h : bodyLines text = before ++ l :: after) :
    ∃ front, text = front ++ (l.raw ++ rawOf after) ∧ byteLength front = l.start ∧
      newlines front = before.length := by
  obtain ⟨mark, htext, hmark⟩ := exists_mark_append text
  have hbody := rawOf_bodyLines text
  have hadjoin := bodyLines_adjoin text
  rw [h] at hbody hadjoin
  obtain ⟨middle, hbefore, hl⟩ := hadjoin.split
  refine ⟨mark ++ rawOf before, ?_, ?_, ?_⟩
  · rw [htext, ← hbody, rawOf_append, rawOf_cons, List.append_assoc]
  · have hstart : l.start = middle := hl.1
    rw [byteLength_append, hmark, hstart, hbefore.stop_eq]
  · have hnone : newlines mark = 0 := by
      have hsame := newlines_bodyText text
      have hall := congrArg newlines htext
      rw [newlines_append] at hall
      omega
    rw [newlines_append, hnone, Nat.zero_add]
    exact newlines_rawOf fun x hx => whole_of_front h (List.cons_ne_nil l after) hx

/-! ### The numbers of lines -/

variable {s : Source}

theorem lineNumber_of_line (h : bodyLines s.text.toList = before ++ l :: after) :
    s.lineNumber l.start = before.length + 1 := by
  obtain ⟨front, htext, hstart, hlines⟩ := exists_front h
  rw [← hstart, Source.lineNumber_eq htext, hlines]

/-- The line of an offset behind a line. -/
theorem lineNumber_behind {passed rest : List Char}
    (h : bodyLines s.text.toList = before ++ l :: after) (hl : l.Whole)
    (hafter : rawOf after = passed ++ rest) :
    s.lineNumber (l.stop + byteLength passed) = before.length + 1 + (newlines passed + 1) := by
  obtain ⟨front, htext, hstart, hlines⟩ := exists_front h
  rw [hafter, ← List.append_assoc, ← List.append_assoc] at htext
  have hnumber := Source.lineNumber_eq htext
  rw [byteLength_append, byteLength_append, hstart, ← l.stop_eq] at hnumber
  rw [hnumber, newlines_append, newlines_append, hlines, hl.newlines_raw]
  omega

/-- The bytes that the index has for a line are those of its text. Only in front of the first line
there may be a mark. -/
theorem lineSpan_of_line (h : bodyLines s.text.toList = before ++ l :: after)
    (hbefore : before ≠ []) : s.lineSpan (before.length + 1) = some ⟨l.start, l.textStop⟩ := by
  have hbody := h
  obtain ⟨above, p, rfl⟩ := (List.eq_nil_or_concat before).resolve_left hbefore
  have hp : p.Whole := whole_of_front h (List.cons_ne_nil l after) (by simp)
  rw [List.concat_eq_append, List.append_assoc, List.singleton_append] at h
  have hl : l ∈ bodyLines s.text.toList := by simp [h]
  obtain ⟨front, htext, hstart, hlines⟩ := exists_front h
  obtain ⟨tail, hraw, htail⟩ : ∃ tail, l.raw ++ rawOf after = l.text ++ tail ∧
      (tail = [] ∨ ∃ rest, tail = '\n' :: rest) := by
    cases hl' : l.ended with
    | true => exact ⟨'\n' :: rawOf after, by simp [Line.raw, hl'], .inr ⟨_, rfl⟩⟩
    | false =>
      have hlast : after = [] := by
        by_contra hmore
        rw [ended_of_bodyLines hbody hmore] at hl'
        cases hl'
      exact ⟨[], by simp [Line.raw, hl', hlast], .inl rfl⟩
  have hsplit : s.text.toList = (front ++ p.text) ++ '\n' :: l.text ++ tail := by
    rw [htext, rawOf_cons, hraw, hp.raw_eq]
    simp
  have hspan := Source.lineSpan_eq hsplit (newline_not_mem_text hl) htail
  have hnumber : newlines (front ++ p.text) + 2 = (above.concat p).length + 1 := by
    rw [newlines_append, hlines, newlines_eq_zero hp.newline_not_mem, List.length_concat]
  have hbytes : byteLength (front ++ p.text) + 1 = l.start := by
    have hadjoin := bodyLines_adjoin s.text.toList
    rw [h] at hadjoin
    obtain ⟨middle, -, hlast⟩ := hadjoin.split
    have hnext : l.start = p.stop := hlast.2.2.1
    rw [hnext, Line.stop, if_pos hp.ended, Line.textStop, byteLength_append, hstart]
  rw [hnumber, hbytes] at hspan
  exact hspan

end Document

end LiveDoc
