import LiveDoc.Proofs.Document.Acceptance
import Mathlib.Data.List.Forall2

/-!
The same text further on. A tree is moved by moving its lines. No class of lines looks at where a
line stands, so what fits its lines fits them further on, and a node that is moved differs from
the first one in its span alone.
-/
namespace LiveDoc

def Span.moved (n : Nat) (s : Span) : Span := ⟨s.start + n, s.stop + n⟩

namespace Document

open Outcome

variable {n : Nat} {lines after : List Line}

def Line.moved (n : Nat) (l : Line) : Line := { l with start := l.start + n }

def Content.moved (n : Nat) : Content → Content
  | .code opening body closing =>
    .code (opening.moved n) (body.map (Line.moved n)) (closing.moved n)
  | .text first more => .text (first.moved n) (more.map (Line.moved n))

def Heading.moved (n : Nat) (h : Heading) : Heading :=
  { h with first := h.first.moved n, underline := h.underline.map (Line.moved n) }

def Section.moved (n : Nat) (s : Section) : Section :=
  ⟨s.heading.moved n, s.children.map (Content.moved n)⟩

/-- The opening line stands further on. -/
def StructureError.moved (n : Nat) : StructureError → StructureError
  | .emptyInput => .emptyInput
  | .unterminatedHeader opening => .unterminatedHeader (opening.moved n)
  | .unterminatedFence opening => .unterminatedFence (opening.moved n)

/-! ### Lines of what is moved -/

@[simp] theorem Line.text_moved (l : Line) : (l.moved n).text = l.text := rfl

@[simp] theorem Line.start_moved (l : Line) : (l.moved n).start = l.start + n := rfl

@[simp] theorem Line.raw_moved (l : Line) : (l.moved n).raw = l.raw := rfl

@[simp] theorem Line.stop_moved (l : Line) : (l.moved n).stop = l.stop + n := by
  rw [Line.stop_eq, Line.stop_eq, Line.raw_moved, Line.start_moved]
  omega

theorem Line.textStop_moved (l : Line) : (l.moved n).textStop = l.textStop + n := by
  simp only [Line.textStop, Line.start_moved, Line.text_moved]
  omega

@[simp] theorem rawOf_moved (lines : List Line) :
    rawOf (lines.map (Line.moved n)) = rawOf lines := by
  simp only [rawOf, List.flatMap_map, Line.raw_moved]

@[simp] theorem Content.lines_moved (c : Content) :
    (c.moved n).lines = c.lines.map (Line.moved n) := by
  cases c with
  | code opening body closing => simp [Content.moved, Content.lines]
  | text first more => rfl

@[simp] theorem Heading.lines_moved (h : Heading) :
    (h.moved n).lines = h.lines.map (Line.moved n) := by
  simp [Heading.moved, Heading.lines, Option.toList_map]

theorem lines_movedContents (children : List Content) :
    (children.map (Content.moved n)).flatMap Content.lines =
      (children.flatMap Content.lines).map (Line.moved n) := by
  simp only [List.flatMap_map, List.map_flatMap, Content.lines_moved]

@[simp] theorem Section.lines_moved (s : Section) :
    (s.moved n).lines = s.lines.map (Line.moved n) := by
  simp only [Section.moved, Section.lines, Heading.lines_moved, lines_movedContents,
    List.map_append]

theorem lines_movedSections (sections : List Section) :
    (sections.map (Section.moved n)).flatMap Section.lines =
      (sections.flatMap Section.lines).map (Line.moved n) := by
  simp only [List.flatMap_map, List.map_flatMap, Section.lines_moved]

/-! ### What fits -/

theorem headingAt_moved : HeadingAt (lines.map (Line.moved n)) ↔ HeadingAt lines := by
  constructor
  · intro h
    cases lines with
    | nil => cases h
    | cons l rest =>
      cases rest with
      | nil =>
        cases h with
        | hashes hhash => exact .hashes hhash
      | cons u rest =>
        cases h with
        | hashes hhash => exact .hashes hhash
        | underlined hblank hline => exact .underlined hblank hline
  · intro h
    cases h with
    | hashes hhash => exact .hashes hhash
    | underlined hblank hline => exact .underlined hblank hline

theorem noHeading_moved (h : NoHeading lines after) :
    NoHeading (lines.map (Line.moved n)) (after.map (Line.moved n)) := by
  intro before l rest hlines hheading
  obtain ⟨front, back, rfl, -, hback⟩ := List.map_eq_append_iff.mp hlines
  obtain ⟨m, more, rfl, rfl, rfl⟩ := List.map_eq_cons_iff.mp hback
  rw [← List.map_append, ← List.map_cons, headingAt_moved] at hheading
  exact h front m more rfl hheading

theorem Content.Fits.moved {c : Content} (h : c.Fits after) :
    (c.moved n).Fits (after.map (Line.moved n)) := by
  cases c with
  | code opening body closing =>
    obtain ⟨hcode, hheading, hbody, hclosing⟩ := h
    refine ⟨hcode, ?_, ?_, hclosing⟩
    · have hlines : opening.moved n :: body.map (Line.moved n) ++
          closing.moved n :: after.map (Line.moved n) =
          (opening :: body ++ closing :: after).map (Line.moved n) := by
        simp
      rw [hlines, headingAt_moved]
      exact hheading
    · simpa using hbody
  | text first more =>
    obtain ⟨hlines, hheadings⟩ := h
    refine ⟨?_, noHeading_moved hheadings⟩
    rw [← List.map_cons, List.forall_mem_map]
    exact hlines

theorem Content.Differs.moved {c c' : Content} (h : c.Differs c') :
    (c.moved n).Differs (c'.moved n) := by
  cases c with
  | code => trivial
  | text first more =>
    cases c' with
    | code => trivial
    | text next others => exact h

theorem contentsFit_moved {children : List Content} (h : ContentsFit after children) :
    ContentsFit (after.map (Line.moved n)) (children.map (Content.moved n)) := by
  induction children with
  | nil => trivial
  | cons c rest ih =>
    obtain ⟨hc, hdiffers, hrest⟩ := h
    refine ⟨?_, ?_, ih hrest⟩
    · rw [lines_movedContents, ← List.map_append]
      exact hc.moved
    · intro next hnext
      rw [List.head?_map] at hnext
      obtain ⟨c', hc', rfl⟩ := Option.map_eq_some_iff.mp hnext
      exact (hdiffers c' hc').moved

theorem Heading.Fits.moved {h : Heading} (hfits : h.Fits) : (h.moved n).Fits := by
  cases hfits with
  | hashes hhash => exact .hashes hhash
  | @underlined first u level hnone hblank hline =>
    change Heading.Fits ⟨level, String.ofList (plainTitle (first.moved n).text), .setext,
      first.moved n, some (u.moved n)⟩
    exact .underlined hnone hblank hline

theorem sectionsFit_moved {sections : List Section} (h : SectionsFit after sections) :
    SectionsFit (after.map (Line.moved n)) (sections.map (Section.moved n)) := by
  induction sections with
  | nil => trivial
  | cons s rest ih =>
    obtain ⟨hheading, hchildren, hrest⟩ := h
    refine ⟨hheading.moved, ?_, ih hrest⟩
    rw [lines_movedSections, ← List.map_append]
    exact contentsFit_moved hchildren

theorem UnclosedFence.moved {opening : Span} (h : UnclosedFence lines opening) :
    UnclosedFence (lines.map (Line.moved n)) (opening.moved n) := by
  obtain ⟨l, rest, rfl, hcode, hheading, hrest, rfl⟩ := h
  refine ⟨l.moved n, rest.map (Line.moved n), rfl, hcode, mt headingAt_moved.mp hheading, ?_, ?_⟩
  · simpa using hrest
  · rw [Line.textStop_moved]
    rfl

/-! ### Nodes -/

/-- The second node is the first one further on: it has the same kind, text and heading, and its
lines and its span are moved. -/
structure Node.MovedBy (n : Nat) (x y : Node) : Prop where
  kind : y.kind = x.kind
  raw : y.raw = x.raw
  span : y.span = x.span.moved n
  lines : y.lines = x.lines.map (Line.moved n)
  heading : y.heading?.map (fun h => (h.level, h.title, h.style)) =
    x.heading?.map fun h => (h.level, h.title, h.style)

theorem Content.span_moved (c : Content) : (c.moved n).span = c.span.moved n := by
  cases c with
  | code opening body closing =>
    simp [Content.moved, Content.span, Content.start, Content.stop, Span.moved]
  | text first more =>
    simp only [Content.moved, Content.span, Content.start, Content.stop, Span.moved,
      List.getLast?_map, Option.getD_map, Line.stop_moved]
    rfl

theorem Heading.span_moved (h : Heading) : (h.moved n).span = h.span.moved n := by
  simp only [Heading.moved, Heading.span, Span.moved, Option.getD_map, Line.stop_moved]
  rfl

theorem stopOf_moved (start : Nat) (children : List Content) :
    stopOf (start + n) (children.map (Content.moved n)) = stopOf start children + n := by
  have hstop (c : Content) : (c.moved n).stop = c.stop + n := congrArg Span.stop c.span_moved
  simp only [stopOf, List.getLast?_map]
  cases children.getLast? with
  | none => rfl
  | some c => exact hstop c

theorem Section.span_moved (s : Section) : (s.moved n).span = s.span.moved n := by
  simp only [Section.moved, Section.span, Heading.span_moved, Span.moved, stopOf_moved]

theorem movedBy_content (c : Content) : Node.MovedBy n (.content c) (.content (c.moved n)) where
  kind := by cases c <;> rfl
  raw := by simp only [Node.raw, Content.raw, Content.lines_moved, rawOf_moved]
  span := c.span_moved
  lines := c.lines_moved
  heading := rfl

theorem movedBy_heading (h : Heading) : Node.MovedBy n (.heading h) (.heading (h.moved n)) where
  kind := rfl
  raw := by simp only [Node.raw, Heading.raw, Heading.lines_moved, rawOf_moved]
  span := h.span_moved
  lines := h.lines_moved
  heading := rfl

theorem movedBy_part (s : Section) : Node.MovedBy n (.part s) (.part (s.moved n)) where
  kind := rfl
  raw := by simp only [Node.raw, Section.raw, Section.lines_moved, rawOf_moved]
  span := s.span_moved
  lines := s.lines_moved
  heading := rfl

/-- All nodes of a section that is moved are moved. -/
theorem Section.nodes_moved (s : Section) :
    List.Forall₂ (Node.MovedBy n) s.nodes (s.moved n).nodes := by
  refine .cons (movedBy_part s) (.cons (movedBy_heading s.heading) ?_)
  simp only [Section.moved, List.map_map, List.forall₂_map_left_iff, List.forall₂_map_right_iff,
    List.forall₂_same]
  exact fun c _ => movedBy_content c

end Document

end LiveDoc
