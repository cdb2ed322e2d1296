import LiveDoc.Proofs.Document.Moving

/-!
Sections behind a document. When a text ends with a newline, the lines of what is written behind
it are its own lines further on. If these begin with a heading of hashes, no line in front of them
is read in another way: the heading is no underline, no separator and no end of a text run that
would not have ended there. So the sections of the second text follow those of the first.
-/
namespace LiveDoc.Document

open Outcome Text

variable {n : Nat} {lines after left : List Line} {a b : List Char}

/-! ### Lines behind a newline -/

theorem linesFrom_moved (start : Nat) (passed text : List Char) :
    linesFrom (start + n) passed text = (linesFrom start passed text).map (Line.moved n) := by
  fun_induction linesFrom start passed text with
  | case1 start passed hempty => simp [linesFrom, hempty]
  | case2 start passed hmore =>
    rw [linesFrom, if_neg hmore]
    rfl
  | case3 start passed rest line ih =>
    have hstop : (line.moved n).stop = line.stop + n := line.stop_moved
    rw [linesFrom, if_pos rfl, List.map_cons, ← ih, ← hstop]
    rfl
  | case4 start passed c rest hc ih => rw [linesFrom, if_neg hc, ih]

/-- A text with a newline at its end, or no text, leaves no line unfinished. -/
theorem linesFrom_append {start : Nat} {passed : List Char}
    (hend : a = [] ∧ passed = [] ∨ a.getLast? = some '\n') :
    linesFrom start passed (a ++ b) =
      linesFrom start passed a ++ linesFrom (start + byteLength (passed.reverse ++ a)) [] b := by
  fun_induction linesFrom start passed a with
  | case1 start passed hempty =>
    rw [List.isEmpty_iff.mp hempty]
    rfl
  | case2 start passed hmore => simp_all
  | case3 start passed rest line ih =>
    have hrest : rest = [] ∧ ([] : List Char) = [] ∨ rest.getLast? = some '\n' := by
      cases rest with
      | nil => exact .inl ⟨rfl, rfl⟩
      | cons d more => exact .inr (by simpa using hend)
    have hsize : ('\n' : Char).utf8Size = 1 := rfl
    have hstop : line.stop + byteLength rest =
        start + byteLength (passed.reverse ++ '\n' :: rest) := by
      have hline : line.stop = start + byteLength passed.reverse + 1 := rfl
      simp only [byteLength_append, byteLength, hline, hsize]
      omega
    have ih := ih hrest
    rw [List.reverse_nil, List.nil_append, hstop] at ih
    rw [List.cons_append, linesFrom, if_pos rfl, List.cons_append, ← ih]
  | case4 start passed c rest hc ih =>
    have hrest : rest = [] ∧ c :: passed = [] ∨ rest.getLast? = some '\n' := by
      cases rest with
      | nil => simp_all
      | cons d more => exact .inr (by simpa using hend)
    rw [List.cons_append, linesFrom, if_neg hc, ih hrest, List.reverse_cons, List.append_assoc]
    rfl

theorem bodyLines_append (hend : a.getLast? = some '\n') (hmark : b.head? ≠ some byteOrderMark) :
    bodyLines (a ++ b) = bodyLines a ++ (bodyLines b).map (Line.moved (byteLength a)) := by
  have hsome : a ≠ [] := by
    rintro rfl
    cases hend
  have hbody : bodyText (a ++ b) = bodyText a ++ b := by
    unfold bodyText
    rw [List.head?_append_of_ne_nil a hsome]
    split
    · rw [List.drop_append_of_le_length (List.length_pos_iff.mpr hsome)]
    · rfl
  have hstart : bodyStart (a ++ b) = bodyStart a := by
    unfold bodyStart
    rw [List.head?_append_of_ne_nil a hsome]
  have hbehind : bodyText a = [] ∧ ([] : List Char) = [] ∨ (bodyText a).getLast? = some '\n' := by
    obtain ⟨mark, htext, -⟩ := exists_mark_append a
    by_cases hnone : bodyText a = []
    · exact .inl ⟨hnone, rfl⟩
    · rw [htext, List.getLast?_append_of_ne_nil _ hnone] at hend
      exact .inr hend
  have hb : bodyLines b = linesFrom 0 [] b := by simp [bodyLines, splitLines, bodyStart, hmark]
  change linesFrom (bodyStart (a ++ b)) [] (bodyText (a ++ b)) =
    linesFrom (bodyStart a) [] (bodyText a) ++ _
  rw [hbody, hstart, linesFrom_append hbehind, List.reverse_nil, List.nil_append,
    bodyStart_add_byteLength, hb, ← linesFrom_moved, Nat.zero_add]

theorem bodyStart_append (hsome : a ≠ []) : bodyStart (a ++ b) = bodyStart a := by
  unfold bodyStart
  rw [List.head?_append_of_ne_nil a hsome]

/-- The first line of a text goes up to the first newline. -/
theorem text_of_linesFrom {start : Nat} {passed text : List Char} {l : Line} {rest : List Line}
    (h : linesFrom start passed text = l :: rest) :
    l.text = passed.reverse ++ text.takeWhile (· ≠ '\n') := by
  fun_induction linesFrom start passed text with
  | case1 => cases h
  | case2 start passed hmore =>
    cases h
    simp
  | case3 start passed rest line ih => simp [← (List.cons.inj h).1, line]
  | case4 start passed c rest hc ih => simp [ih h, hc]

/-! ### Lines that begin a section -/

/-- The first of the lines is a heading of hashes. -/
def BeginsSection (lines : List Line) : Prop :=
  ∃ l rest level title, lines = l :: rest ∧ IsHashHeading l.text level title

/-- A heading of hashes begins with white space or a hash. -/
theorem IsHashHeading.head {text title : List Char} {level : Nat}
    (h : IsHashHeading text level title) :
    ∃ c rest, text = c :: rest ∧ (isWhiteSpace c = true ∨ c = '#') := by
  obtain ⟨indent, space, rfl, hindent, hlevel, -⟩ := h
  cases indent with
  | nil =>
    obtain ⟨level, rfl⟩ := Nat.exists_eq_succ_of_ne_zero (Nat.ne_of_gt hlevel)
    exact ⟨'#', _, rfl, .inr rfl⟩
  | cons c more => exact ⟨c, _, rfl, .inl (isBlank_cons.mp hindent).1⟩

theorem IsHashHeading.not_separator {text title : List Char} {level : Nat}
    (h : IsHashHeading text level title) : ¬ IsSeparator text := by
  obtain ⟨c, rest, rfl, hc⟩ := h.head
  rintro ⟨space, htext, -⟩
  obtain ⟨rfl, -⟩ := List.cons.inj htext
  exact absurd hc (by decide)

theorem IsHashHeading.not_underline {text title : List Char} {level level' : Nat}
    (h : IsHashHeading text level title) : ¬ IsUnderline text level' := by
  obtain ⟨c, rest, rfl, hc⟩ := h.head
  rintro ⟨first, marks, space, htext, -, -, hfirst⟩
  obtain ⟨rfl, -⟩ := List.cons.inj htext
  rcases hfirst with ⟨rfl, -⟩ | ⟨rfl, -⟩
  · exact absurd hc (by decide)
  · exact absurd hc (by decide)

namespace BeginsSection

theorem headingAt (h : BeginsSection lines) : HeadingAt lines := by
  obtain ⟨l, rest, level, title, rfl, hhash⟩ := h
  exact .hashes hhash

theorem moved (h : BeginsSection lines) : BeginsSection (lines.map (Line.moved n)) := by
  obtain ⟨l, rest, level, title, rfl, hhash⟩ := h
  exact ⟨l.moved n, _, level, title, rfl, hhash⟩

/-- What the first line of a text is. -/
theorem of_text (h : (hashHeading? (b.takeWhile (· ≠ '\n'))).isSome) :
    BeginsSection (bodyLines b) ∧ b.head? ≠ some byteOrderMark := by
  obtain ⟨⟨level, title⟩, hhash⟩ := Option.isSome_iff_exists.mp h
  have hhash := hashHeading?_eq_some_iff.mp hhash
  obtain ⟨c, rest, htext, hc⟩ := hhash.head
  have hmark : b.head? ≠ some byteOrderMark := by
    cases b with
    | nil => simp
    | cons d more =>
      intro hd
      obtain rfl : d = byteOrderMark := by simpa using hd
      rw [List.takeWhile_cons_of_pos (by decide)] at htext
      obtain ⟨rfl, -⟩ := List.cons.inj htext
      exact absurd hc (by decide)
  refine ⟨?_, hmark⟩
  have hb : bodyLines b = linesFrom 0 [] b := by simp [bodyLines, splitLines, bodyStart, hmark]
  cases hlines : linesFrom 0 [] b with
  | nil =>
    have hnil := rawOf_linesFrom 0 [] b
    rw [hlines] at hnil
    obtain rfl : [] = b := hnil
    cases htext
  | cons l others =>
    refine ⟨l, others, level, title, hb.trans hlines, ?_⟩
    rw [text_of_linesFrom hlines]
    exact hhash

end BeginsSection

/-! ### What fits in front of a section -/

variable (hafter : BeginsSection after)

include hafter in
theorem headingAt_append (hsome : lines ≠ []) :
    HeadingAt (lines ++ after) ↔ HeadingAt lines := by
  obtain ⟨m, more, level, title, rfl, hhash⟩ := hafter
  cases lines with
  | nil => exact absurd rfl hsome
  | cons l rest =>
    cases rest with
    | nil =>
      constructor
      · intro h
        cases h with
        | hashes hl => exact .hashes hl
        | underlined hblank hline => exact absurd hline hhash.not_underline
      · intro h
        cases h with
        | hashes hl => exact .hashes hl
    | cons u rest =>
      constructor
      · intro h
        cases h with
        | hashes hl => exact .hashes hl
        | underlined hblank hline => exact .underlined hblank hline
      · intro h
        cases h with
        | hashes hl => exact .hashes hl
        | underlined hblank hline => exact .underlined hblank hline

include hafter in
theorem noHeading_append (h : NoHeading lines left) : NoHeading lines (left ++ after) := by
  intro before l rest hlines hheading
  rw [← List.append_assoc, ← List.cons_append,
    headingAt_append hafter (List.cons_ne_nil l _)] at hheading
  exact h before l rest hlines hheading

include hafter in
theorem Content.Fits.append {c : Content} (h : c.Fits left) : c.Fits (left ++ after) := by
  cases c with
  | code opening body closing =>
    obtain ⟨hcode, hheading, hbody, hclosing⟩ := h
    refine ⟨hcode, ?_, hbody, hclosing⟩
    have hlines : opening :: body ++ closing :: (left ++ after) =
        (opening :: body ++ closing :: left) ++ after := by
      simp
    rw [hlines, headingAt_append hafter (by simp)]
    exact hheading
  | text first more => exact ⟨h.1, noHeading_append hafter h.2⟩

include hafter in
theorem contentsFit_append {children : List Content} (h : ContentsFit left children) :
    ContentsFit (left ++ after) children := by
  induction children with
  | nil => trivial
  | cons c rest ih =>
    obtain ⟨hc, hdiffers, hrest⟩ := h
    refine ⟨?_, hdiffers, ih hrest⟩
    rw [← List.append_assoc]
    exact hc.append hafter

include hafter in
theorem sectionsFit_append {sections : List Section} (h : SectionsFit left sections) :
    SectionsFit (left ++ after) sections := by
  induction sections with
  | nil => trivial
  | cons s rest ih =>
    obtain ⟨hheading, hchildren, hrest⟩ := h
    refine ⟨hheading, ?_, ih hrest⟩
    rw [← List.append_assoc]
    exact contentsFit_append hafter hchildren

include hafter in
theorem headerFits_append {header : Option Header} (h : HeaderFits lines header) :
    HeaderFits (lines ++ after) header := by
  cases header with
  | some header => exact h
  | none =>
    intro l hl
    cases lines with
    | nil =>
      obtain ⟨m, more, level, title, rfl, hhash⟩ := hafter
      obtain rfl : m = l := by simpa using hl
      exact hhash.not_separator
    | cons first rest => exact h l hl

theorem sectionsFit_behind {front back : List Section}
    (hfront : SectionsFit (back.flatMap Section.lines ++ after) front)
    (hback : SectionsFit after back) : SectionsFit after (front ++ back) := by
  induction front with
  | nil => exact hback
  | cons s rest ih =>
    obtain ⟨hheading, hchildren, hrest⟩ := hfront
    refine ⟨hheading, ?_, ih hrest⟩
    change ContentsFit ((rest ++ back).flatMap Section.lines ++ after) s.children
    rw [List.flatMap_append, List.append_assoc]
    exact hchildren

/-- A document with more sections behind its own. -/
def withSections (d : Document) (more : List Section) : Document :=
  { d with sections := d.sections ++ more }

theorem lines_withSections (d : Document) (more : List Section) :
    (d.withSections more).lines = d.lines ++ more.flatMap Section.lines := by
  simp [withSections, Document.lines]

theorem FitsBefore.withSections {d : Document} {more : List Section} (h : FitsBefore [] d)
    (hbegins : BeginsSection (more.flatMap Section.lines ++ after))
    (hmore : SectionsFit after more) : FitsBefore after (d.withSections more) := by
  obtain ⟨hheader, hintro, hsections⟩ := h
  have hlines : (d.withSections more).sections.flatMap Section.lines ++ after =
      d.sections.flatMap Section.lines ++ (more.flatMap Section.lines ++ after) := by
    simp [Document.withSections]
  refine ⟨?_, ?_, ?_⟩
  · rw [List.append_assoc, hlines, ← List.append_assoc]
    rw [List.append_nil] at hheader
    exact headerFits_append hbegins hheader
  · rw [hlines]
    rw [List.append_nil] at hintro
    exact contentsFit_append hbegins hintro
  · have hfront := sectionsFit_append hbegins hsections
    exact sectionsFit_behind hfront hmore

/-- A document that begins with a heading of hashes has sections only. -/
theorem FitsBefore.front {d : Document} (h : FitsBefore left d)
    (hbegins : BeginsSection (d.lines ++ left)) : d.header = none ∧ d.intro = [] := by
  obtain ⟨l, rest, level, title, hlines, hhash⟩ := hbegins
  have hheader : d.header = none := by
    cases hd : d.header with
    | none => rfl
    | some header =>
      have hfits := h.header
      rw [hd] at hfits
      simp only [Document.lines, hd, Option.map_some, Option.getD_some, Header.lines,
        List.cons_append] at hlines
      obtain ⟨rfl, -⟩ := List.cons.inj hlines
      exact absurd hfits.1 hhash.not_separator
  refine ⟨hheader, ?_⟩
  cases hd : d.intro with
  | nil => rfl
  | cons c others =>
    have hfits := h.intro
    rw [hd] at hfits
    simp only [Document.lines, hheader, hd, Option.map_none, Option.getD_none, List.nil_append,
      List.flatMap_cons, List.append_assoc] at hlines
    cases c with
    | code opening body closing =>
      obtain ⟨rfl, -⟩ := List.cons.inj hlines
      exact absurd (.hashes hhash) hfits.1.2.1
    | text first more =>
      obtain ⟨rfl, -⟩ := List.cons.inj hlines
      exact absurd (.hashes hhash) (noHeading_cons.mp hfits.1.2).1

/-! ### The two texts as one -/

section Seam

variable {d d' : Document} {opening : Span}

/-- The second text has sections, of which the first one stands at its beginning. -/
structure Seam (a b : List Char) (d : Document) : Prop where
  first : parse a = .ok d
  ended : a.getLast? = some '\n'
  begins : BeginsSection (bodyLines b)
  unmarked : b.head? ≠ some byteOrderMark

namespace Seam

theorem ne_nil (h : Seam a b d) : a ≠ [] := ne_nil_of_parse h.first

theorem parse_append_eq (h : Seam a b d) :
    parse (a ++ b) =
      ofLines (bodyStart a) (d.lines ++ (bodyLines b).map (Line.moved (byteLength a))) := by
  rw [parse_of_ne_nil (List.append_ne_nil_of_left_ne_nil h.ne_nil b), bodyStart_append h.ne_nil,
    bodyLines_append h.ended h.unmarked, (lines_of_parse h.first).2]

theorem parse_eq (h : Seam a b d) : parse b = ofLines 0 (bodyLines b) := by
  have hsome : b ≠ [] := by
    rintro rfl
    obtain ⟨l, rest, -, -, hlines, -⟩ := h.begins
    cases hlines
  rw [parse_of_ne_nil hsome, bodyStart, if_neg h.unmarked]

/-- The lines of sections and those behind them, moved behind the first text. -/
theorem fits (h : Seam a b d) {sections : List Section}
    (hlines : bodyLines b = sections.flatMap Section.lines ++ left)
    (hfit : SectionsFit left sections) :
    FitsBefore (left.map (Line.moved (byteLength a)))
      (d.withSections (sections.map (Section.moved (byteLength a)))) := by
  refine (wellFormed_of_parse h.first).fits.withSections ?_ (sectionsFit_moved hfit)
  rw [lines_movedSections, ← List.map_append, ← hlines]
  exact h.begins.moved

theorem ok (h : Seam a b d) (hb : parse b = .ok d') :
    parse (a ++ b) = .ok (d.withSections (d'.sections.map (Section.moved (byteLength a)))) ∧
      d'.header = none ∧ d'.intro = [] := by
  rw [h.parse_eq, ofLines_eq_ok_iff] at hb
  obtain ⟨-, hlines, hfit⟩ := hb
  have hbegins := h.begins
  rw [← hlines, ← List.append_nil d'.lines] at hbegins
  obtain ⟨hheader, hintro⟩ := hfit.front hbegins
  have hsections : bodyLines b = d'.sections.flatMap Section.lines ++ [] := by
    rw [← hlines]
    simp [Document.lines, hheader, hintro]
  refine ⟨?_, hheader, hintro⟩
  rw [h.parse_append_eq, ofLines_eq_ok_iff]
  refine ⟨(lines_of_parse h.first).1, ?_, h.fits hsections hfit.sections⟩
  rw [lines_withSections, lines_movedSections, hsections, List.append_nil]

theorem error (h : Seam a b d) {e : StructureError} (hb : parse b = .error e) :
    parse (a ++ b) = .error (e.moved (byteLength a)) := by
  rw [h.parse_eq, ofLines_eq_error_iff] at hb
  rw [h.parse_append_eq, ofLines_eq_error_iff]
  rcases hb with ⟨opening, ⟨l, rest, hlines, hseparator, -⟩, -⟩ |
      ⟨d', left, opening, -, hlines, hfit, hunclosed, rfl⟩
  · obtain ⟨m, more, level, title, hm, hhash⟩ := h.begins
    obtain ⟨rfl, -⟩ := List.cons.inj (hm.symm.trans hlines)
    exact absurd hseparator hhash.not_separator
  · have hbegins := h.begins
    rw [hlines] at hbegins
    obtain ⟨hheader, hintro⟩ := hfit.front hbegins
    have hsections : bodyLines b = d'.sections.flatMap Section.lines ++ left := by
      rw [hlines]
      simp [Document.lines, hheader, hintro]
    refine .inr ⟨d.withSections (d'.sections.map (Section.moved (byteLength a))),
      left.map (Line.moved (byteLength a)), opening.moved (byteLength a),
      (lines_of_parse h.first).1, ?_, h.fits hsections hfit.sections, hunclosed.moved, rfl⟩
    rw [lines_withSections, lines_movedSections, hsections, List.map_append, List.append_assoc]

end Seam

end Seam

/-- A text that begins with a heading of hashes is read behind a document as it is read alone:
it has sections only, and these follow those of the document, further on by its length. What it
leaves open is still left open there, and nothing else is. -/
theorem parse_append_sections {d : Document} (ha : parse a = .ok d)
    (hend : a.getLast? = some '\n')
    (hb : (hashHeading? (b.takeWhile (· ≠ '\n'))).isSome) :
    (∀ d', parse b = .ok d' → d'.header = none ∧ d'.intro = [] ∧ ∃ moved,
      parse (a ++ b) = .ok { d with sections := d.sections ++ moved } ∧
        List.Forall₂ (fun s t => List.Forall₂ (Node.MovedBy (byteLength a)) s.nodes t.nodes)
          d'.sections moved) ∧
      (∀ e, parse b = .error e → parse (a ++ b) = .error (e.moved (byteLength a))) ∧
      ((∃ e, parse (a ++ b) = .error e) ↔ ∃ e, parse b = .error e) := by
  obtain ⟨hbegins, hmark⟩ := BeginsSection.of_text hb
  have seam : Seam a b d := ⟨ha, hend, hbegins, hmark⟩
  refine ⟨?_, fun e he => seam.error he, ?_, ?_⟩
  · intro d' hd'
    obtain ⟨hread, hheader, hintro⟩ := seam.ok hd'
    refine ⟨hheader, hintro, _, hread, ?_⟩
    rw [List.forall₂_map_right_iff, List.forall₂_same]
    exact fun s _ => s.nodes_moved
  · rintro ⟨e, he⟩
    cases hread : parse b with
    | error e' => exact ⟨e', rfl⟩
    | ok d' =>
      rw [(seam.ok hread).1] at he
      cases he
  · rintro ⟨e, he⟩
    exact ⟨_, seam.error he⟩

/-- Behind a header, an introduction and a paragraph: sections with a block and an underlined
heading, and a section with a block that has no end. -/
theorem parse_append_sections_of_all_kinds :
    ∃ d d' moved, parse "\ufeff---\nh\n---\nin\n\n# A\nx\n".toList = .ok d ∧
      parse "## B\n\nT\n---\n```python:testflows\n# x\n~~~\nend".toList = .ok d' ∧
      parse ("\ufeff---\nh\n---\nin\n\n# A\nx\n".toList ++
        "## B\n\nT\n---\n```python:testflows\n# x\n~~~\nend".toList) =
          .ok { d with sections := d.sections ++ moved } ∧
      List.Forall₂ (fun s t => List.Forall₂ (Node.MovedBy 23) s.nodes t.nodes)
        d'.sections moved ∧
      parse ("\ufeff---\nh\n---\nin\n\n# A\nx\n".toList ++
        "# B\n```python:testflows\n".toList) = .error (.unterminatedFence ⟨27, 46⟩) := by
  have hok : (parse "\ufeff---\nh\n---\nin\n\n# A\nx\n".toList).isOk = true := by decide +kernel
  have hok' : (parse "## B\n\nT\n---\n```python:testflows\n# x\n~~~\nend".toList).isOk = true := by
    decide +kernel
  have hopen : error? (parse "# B\n```python:testflows\n".toList) =
      some (.unterminatedFence ⟨4, 23⟩) := by decide +kernel
  obtain ⟨d, hd⟩ := isOk_iff_exists.mp hok
  obtain ⟨d', hd'⟩ := isOk_iff_exists.mp hok'
  obtain ⟨hread, -⟩ := parse_append_sections hd (by decide)
    (show (hashHeading? ("## B\n\nT\n---\n```python:testflows\n# x\n~~~\nend".toList.takeWhile
      (· ≠ '\n'))).isSome by decide +kernel)
  obtain ⟨-, herror, -⟩ := parse_append_sections hd (by decide)
    (show (hashHeading? ("# B\n```python:testflows\n".toList.takeWhile
      (· ≠ '\n'))).isSome by decide +kernel)
  obtain ⟨-, -, moved, happend, hmoved⟩ := hread d' hd'
  exact ⟨d, d', moved, hd, hd', happend, hmoved, herror _ (error?_eq_some_iff.mp hopen)⟩

end LiveDoc.Document
