import LiveDoc.Document.Parse

/-!
The lines of a text tile it: the first one starts where the text does, each other one where the
line before it stops, and none is empty. Written one after the other they are the text again.
-/
namespace LiveDoc.Document

@[simp] theorem byteLength_append (a b : List Char) :
    byteLength (a ++ b) = byteLength a + byteLength b := by
  induction a with
  | nil => simp [byteLength]
  | cons c rest ih => simp [byteLength, ih, Nat.add_assoc]

theorem byteLength_pos {text : List Char} (h : text ≠ []) : 0 < byteLength text := by
  cases text with
  | nil => exact absurd rfl h
  | cons c rest =>
    have hc := c.utf8Size_pos
    simp only [byteLength]
    omega

@[simp] theorem rawOf_nil : rawOf [] = [] := rfl

@[simp] theorem rawOf_append (a b : List Line) : rawOf (a ++ b) = rawOf a ++ rawOf b := by
  simp [rawOf]

@[simp] theorem rawOf_cons (l : Line) (rest : List Line) :
    rawOf (l :: rest) = l.raw ++ rawOf rest := by
  simp [rawOf]

/-- The spans lie one behind the other without a gap, from `start` up to `stop`. -/
def Tiles (start : Nat) : List Span → Nat → Prop
  | [], stop => start = stop
  | s :: rest, stop => s.start = start ∧ s.start ≤ s.stop ∧ Tiles s.stop rest stop

namespace Tiles

variable {start middle stop : Nat} {left right : List Span}

theorem append (h : Tiles start left middle) (h' : Tiles middle right stop) :
    Tiles start (left ++ right) stop := by
  induction left generalizing start with
  | nil =>
    subst h
    exact h'
  | cons s rest ih => exact ⟨h.1, h.2.1, ih h.2.2⟩

theorem split (h : Tiles start (left ++ right) stop) :
    ∃ middle, Tiles start left middle ∧ Tiles middle right stop := by
  induction left generalizing start with
  | nil => exact ⟨start, rfl, h⟩
  | cons s rest ih =>
    obtain ⟨middle, hrest, hright⟩ := ih h.2.2
    exact ⟨middle, ⟨h.1, h.2.1, hrest⟩, hright⟩

theorem le (h : Tiles start left stop) : start ≤ stop := by
  induction left generalizing start with
  | nil => exact Nat.le_of_eq h
  | cons s rest ih =>
    have hrest := ih h.2.2
    have hs := h.2.1
    have hstart := h.1
    omega

end Tiles

namespace Line

def span (l : Line) : Span := ⟨l.start, l.stop⟩

theorem stop_eq (l : Line) : l.stop = l.start + byteLength l.raw := by
  cases h : l.ended with
  | false => simp [stop, raw, textStop, h]
  | true =>
    simp only [stop, raw, textStop, h, if_true, byteLength_append, byteLength, Nat.add_assoc]
    rfl

end Line

/-- The lines lie one behind the other from `start` up to `stop`. -/
def Adjoin (start : Nat) (lines : List Line) (stop : Nat) : Prop :=
  Tiles start (lines.map Line.span) stop

namespace Adjoin

variable {start middle stop : Nat} {left right lines : List Line}

theorem split (h : Adjoin start (left ++ right) stop) :
    ∃ middle, Adjoin start left middle ∧ Adjoin middle right stop := by
  unfold Adjoin at h
  rw [List.map_append] at h
  exact Tiles.split h

theorem append (h : Adjoin start left middle) (h' : Adjoin middle right stop) :
    Adjoin start (left ++ right) stop := by
  unfold Adjoin
  rw [List.map_append]
  exact Tiles.append h h'

/-- How far lines reach is how long they are. -/
theorem stop_eq (h : Adjoin start lines stop) : stop = start + byteLength (rawOf lines) := by
  induction lines generalizing start with
  | nil => exact h.symm
  | cons l rest ih =>
    have hstart : l.start = start := h.1
    have hrest : stop = l.stop + byteLength (rawOf rest) := ih h.2.2
    have hstop := l.stop_eq
    rw [rawOf_cons, byteLength_append]
    omega

end Adjoin

theorem linesFrom_adjoin (start : Nat) (passed text : List Char) :
    Adjoin start (linesFrom start passed text)
      (start + byteLength (passed.reverse ++ text)) := by
  fun_induction linesFrom start passed text with
  | case1 start passed hempty =>
    rw [List.isEmpty_iff.mp hempty]
    rfl
  | case2 start passed hmore =>
    simp [Adjoin, Tiles, Line.span, Line.stop, Line.textStop]
  | case3 start passed rest line ih =>
    refine ⟨rfl, ?_, ?_⟩
    · change line.start ≤ line.stop
      rw [line.stop_eq]
      exact Nat.le_add_right _ _
    · have hstop : line.stop = start + (byteLength passed.reverse + 1) := rfl
      have hsize : ('\n' : Char).utf8Size = 1 := rfl
      have hall : start + byteLength (passed.reverse ++ '\n' :: rest) =
          line.stop + byteLength rest := by
        simp only [byteLength_append, byteLength, hstop, hsize]
        omega
      rw [hall]
      exact ih
  | case4 start passed c rest hc ih => simpa using ih

theorem rawOf_linesFrom (start : Nat) (passed text : List Char) :
    rawOf (linesFrom start passed text) = passed.reverse ++ text := by
  fun_induction linesFrom start passed text with
  | case1 start passed hempty =>
    rw [List.isEmpty_iff.mp hempty]
    rfl
  | case2 start passed hmore => simp [rawOf, Line.raw]
  | case3 start passed rest line ih => simpa [Line.raw, line] using ih
  | case4 start passed c rest hc ih => simpa using ih

/-- A line holds a newline or at least one other character. -/
theorem raw_ne_nil_of_mem_linesFrom {start : Nat} {passed text : List Char} {l : Line}
    (h : l ∈ linesFrom start passed text) : l.raw ≠ [] := by
  fun_induction linesFrom start passed text with
  | case1 => simp at h
  | case2 start passed hmore =>
    obtain rfl := List.mem_singleton.mp h
    simpa [Line.raw, List.isEmpty_iff] using hmore
  | case3 start passed rest line ih =>
    rcases List.mem_cons.mp h with rfl | hrest
    · simp [Line.raw, line]
    · exact ih hrest
  | case4 start passed c rest hc ih => exact ih h

/-- The text without a byte order mark in front of it. -/
def bodyText (text : List Char) : List Char :=
  if text.head? = some byteOrderMark then text.drop 1 else text

theorem bodyLines_adjoin (text : List Char) :
    Adjoin (bodyStart text) (bodyLines text) (bodyStart text + byteLength (bodyText text)) :=
  linesFrom_adjoin _ [] _

theorem rawOf_bodyLines (text : List Char) : rawOf (bodyLines text) = bodyText text :=
  rawOf_linesFrom _ [] _

theorem raw_ne_nil_of_mem_bodyLines {text : List Char} {l : Line} (h : l ∈ bodyLines text) :
    l.raw ≠ [] :=
  raw_ne_nil_of_mem_linesFrom h

/-- What stands in front of the body is a byte order mark or nothing. -/
theorem exists_mark_append (text : List Char) :
    ∃ mark, text = mark ++ bodyText text ∧ byteLength mark = bodyStart text := by
  by_cases h : text.head? = some byteOrderMark
  · cases text with
    | nil => simp at h
    | cons c rest =>
      obtain rfl : c = byteOrderMark := by simpa using h
      exact ⟨[byteOrderMark], by simp [bodyText], by simp [bodyStart, byteLength]⟩
  · exact ⟨[], by simp [bodyText, h], by simp [bodyStart, h, byteLength]⟩

theorem bodyStart_add_byteLength (text : List Char) :
    bodyStart text + byteLength (bodyText text) = byteLength text := by
  obtain ⟨mark, htext, hmark⟩ := exists_mark_append text
  rw [← hmark, ← byteLength_append, ← htext]

end LiveDoc.Document
