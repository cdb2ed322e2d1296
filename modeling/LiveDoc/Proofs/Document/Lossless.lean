import LiveDoc.Proofs.Document.NodeLines

/-!
Reading loses nothing. The spans of the header, of the part before the first heading and of the
sections tile the text, and the spans of their parts tile each of them. Every node is written
where its span says, and no node begins before the one in front of it.
-/
namespace LiveDoc.Document

open Outcome

/-- What a text holds at a span. -/
def SliceAt (text : List Char) (s : Span) (part : List Char) : Prop :=
  ∃ before after, text = before ++ part ++ after ∧
    byteLength before = s.start ∧ s.start + byteLength part = s.stop

theorem sliceAt_of_adjoin {text : List Char} {before part after : List Line} {start stop : Nat}
    (hlines : bodyLines text = before ++ part ++ after)
    (hbefore : Adjoin (bodyStart text) before start) (hpart : Adjoin start part stop) :
    SliceAt text ⟨start, stop⟩ (rawOf part) := by
  obtain ⟨mark, htext, hmark⟩ := exists_mark_append text
  have hbody := rawOf_bodyLines text
  rw [hlines, rawOf_append, rawOf_append] at hbody
  refine ⟨mark ++ rawOf before, rawOf after, ?_, ?_, hpart.stop_eq.symm⟩
  · rw [htext, ← hbody]
    simp only [List.append_assoc]
  · rw [byteLength_append, hmark]
    exact hbefore.stop_eq.symm

/-! ### Spans of nodes -/

theorem Adjoin.stop_last {l : Line} {rest : List Line} {start stop : Nat}
    (h : Adjoin start (l :: rest) stop) : (rest.getLast?.getD l).stop = stop := by
  induction rest generalizing l start with
  | nil => exact h.2.2
  | cons next rest ih =>
    have hlast := ih h.2.2
    rwa [List.getLast?_cons]

theorem Adjoin.span_block {opening closing : Line} {body : List Line} {start stop : Nat}
    (h : Adjoin start (opening :: body ++ [closing]) stop) :
    opening.start = start ∧ closing.stop = stop := by
  obtain ⟨middle, hfront, hclosing⟩ := Adjoin.split h
  exact ⟨hfront.1, hclosing.2.2⟩

theorem Header.span_eq {h : Header} {start stop : Nat} (hlines : Adjoin start h.lines stop) :
    h.span = ⟨start, stop⟩ := by
  obtain ⟨hstart, hstop⟩ := Adjoin.span_block hlines
  simp only [Header.span, hstart, hstop]

theorem Content.span_eq {c : Content} {start stop : Nat} (h : Adjoin start c.lines stop) :
    c.span = ⟨start, stop⟩ := by
  cases c with
  | code opening body closing =>
    obtain ⟨hstart, hstop⟩ := Adjoin.span_block h
    simp only [Content.span, Content.start, Content.stop, hstart, hstop]
  | text first more =>
    have hstart : first.start = start := h.1
    simp only [Content.span, Content.start, Content.stop, hstart, Adjoin.stop_last h]

theorem Heading.span_eq {h : Heading} {start stop : Nat} (hlines : Adjoin start h.lines stop) :
    h.span = ⟨start, stop⟩ := by
  have hstart : h.first.start = start := hlines.1
  have hstop := Adjoin.stop_last hlines
  cases hunderline : h.underline with
  | none =>
    simp only [hunderline, Option.toList_none, List.getLast?_nil, Option.getD_none] at hstop
    simp only [Heading.span, hunderline, Option.getD_none, hstart, hstop]
  | some u =>
    simp only [hunderline, Option.toList_some, List.getLast?_singleton, Option.getD_some] at hstop
    simp only [Heading.span, hunderline, Option.getD_some, hstart, hstop]

/-- Nodes that follow one another tile what their lines reach over. -/
theorem tiles_of_adjoin {ι : Type} {lines : ι → List Line} {span : ι → Span}
    (hspan : ∀ {x start stop}, Adjoin start (lines x) stop → span x = ⟨start, stop⟩)
    {xs : List ι} {start stop : Nat} (h : Adjoin start (xs.flatMap lines) stop) :
    Tiles start (xs.map span) stop := by
  induction xs generalizing start with
  | nil => exact h
  | cons x rest ih =>
    rw [List.flatMap_cons] at h
    obtain ⟨middle, hx, hrest⟩ := Adjoin.split h
    have hle := Tiles.le hx
    rw [List.map_cons, hspan hx]
    exact ⟨rfl, hle, ih hrest⟩

theorem stopOf_eq {children : List Content} {start stop : Nat}
    (h : Adjoin start (children.flatMap Content.lines) stop) : stopOf start children = stop := by
  induction children generalizing start with
  | nil => exact h
  | cons c rest ih =>
    rw [List.flatMap_cons] at h
    obtain ⟨middle, hc, hrest⟩ := Adjoin.split h
    have hstop := ih hrest
    have hspan : c.stop = middle := congrArg Span.stop (Content.span_eq hc)
    cases rest with
    | nil =>
      rw [← hstop]
      exact hspan
    | cons next rest =>
      rw [← hstop]
      simp [stopOf, List.getLast?_cons]

theorem Section.adjoin_parts {s : Section} {start stop : Nat} (h : Adjoin start s.lines stop) :
    Adjoin start s.heading.lines s.heading.span.stop ∧
      Adjoin s.heading.span.stop (s.children.flatMap Content.lines) stop := by
  obtain ⟨middle, hheading, hchildren⟩ := Adjoin.split h
  rw [Heading.span_eq hheading]
  exact ⟨hheading, hchildren⟩

theorem Section.span_eq {s : Section} {start stop : Nat} (h : Adjoin start s.lines stop) :
    s.span = ⟨start, stop⟩ := by
  obtain ⟨hheading, hchildren⟩ := Section.adjoin_parts h
  have hstart : s.heading.span.start = start := congrArg Span.start (Heading.span_eq hheading)
  simp only [Section.span, stopOf_eq hchildren, hstart]

/-- The heading and the content of a section tile it. -/
theorem Section.tiles {s : Section} {start stop : Nat} (h : Adjoin start s.lines stop) :
    Tiles start (s.heading.span :: s.children.map Content.span) stop := by
  obtain ⟨hheading, hchildren⟩ := Section.adjoin_parts h
  have hle := Tiles.le hheading
  have hstart : s.heading.span.start = start := congrArg Span.start (Heading.span_eq hheading)
  exact ⟨hstart, by omega, tiles_of_adjoin Content.span_eq hchildren⟩

/-- The lines of the header, if there is one. -/
def headerLines (d : Document) : List Line := (d.header.map Header.lines).getD []

/-- Where the three parts of a document lie. -/
structure Layout (d : Document) (stop : Nat) : Prop where
  header : Adjoin d.start d.headerLines d.introSpan.start
  intro : Adjoin d.introSpan.start (d.intro.flatMap Content.lines) d.introSpan.stop
  sections : Adjoin d.introSpan.stop (d.sections.flatMap Section.lines) stop

theorem layout_of_adjoin {d : Document} {stop : Nat} (h : Adjoin d.start d.lines stop) :
    Layout d stop := by
  obtain ⟨introStop, hfront, hsections⟩ := Adjoin.split h
  obtain ⟨introStart, hheader, hintro⟩ := Adjoin.split hfront
  have hstart : d.introSpan.start = introStart := by
    cases hd : d.header with
    | none =>
      simp only [hd, Option.map_none, Option.getD_none] at hheader
      simp only [introSpan, Document.introStart, hd, Option.map_none, Option.getD_none]
      exact hheader
    | some header =>
      simp only [hd, Option.map_some, Option.getD_some] at hheader
      simp only [introSpan, Document.introStart, hd, Option.map_some, Option.getD_some,
        Header.span_eq hheader]
  subst hstart
  have hstop : d.introSpan.stop = introStop := stopOf_eq hintro
  subst hstop
  exact ⟨hheader, hintro, hsections⟩

/-! ### Nodes in their places -/

/-- The lines of a node among those of the text, and the span that they make up. -/
def Placed (text : List Char) (n : Node) : Prop :=
  ∃ before after start stop, bodyLines text = before ++ n.lines ++ after ∧
    Adjoin (bodyStart text) before start ∧ Adjoin start n.lines stop ∧ n.span = ⟨start, stop⟩

theorem Node.raw_eq (n : Node) : n.raw = rawOf n.lines := by
  cases n <;> rfl

theorem Placed.sliceAt {text : List Char} {n : Node} (h : Placed text n) :
    SliceAt text n.span n.raw := by
  obtain ⟨before, after, start, stop, hlines, hbefore, hnode, hspan⟩ := h
  rw [hspan, n.raw_eq]
  exact sliceAt_of_adjoin hlines hbefore hnode

/-- The pieces of content behind `before` and in front of `after` lie where their lines do. -/
theorem placed_of_mem_contents {text : List Char} {before after : List Line}
    {children : List Content} {start stop : Nat} {c : Content} (hc : c ∈ children)
    (hlines : bodyLines text = before ++ children.flatMap Content.lines ++ after)
    (hbefore : Adjoin (bodyStart text) before start)
    (hchildren : Adjoin start (children.flatMap Content.lines) stop) :
    Placed text (.content c) := by
  obtain ⟨left, right, rfl⟩ := List.append_of_mem hc
  rw [List.flatMap_append, List.flatMap_cons] at hlines hchildren
  obtain ⟨first, hleft, hmore⟩ := Adjoin.split hchildren
  obtain ⟨last, hnode, -⟩ := Adjoin.split hmore
  refine ⟨before ++ left.flatMap Content.lines, right.flatMap Content.lines ++ after, first, last,
    ?_, hbefore.append hleft, hnode, Content.span_eq hnode⟩
  simpa only [Node.lines, List.append_assoc] using hlines

theorem placed_of_mem_sections {text : List Char} {before : List Line} {sections : List Section}
    {start stop : Nat} {n : Node} (hn : n ∈ sections.flatMap Section.nodes)
    (hlines : bodyLines text = before ++ sections.flatMap Section.lines)
    (hbefore : Adjoin (bodyStart text) before start)
    (hsections : Adjoin start (sections.flatMap Section.lines) stop) : Placed text n := by
  obtain ⟨s, hs, hnode⟩ := List.mem_flatMap.mp hn
  obtain ⟨left, right, rfl⟩ := List.append_of_mem hs
  rw [List.flatMap_append, List.flatMap_cons] at hlines hsections
  obtain ⟨first, hleft, hmore⟩ := Adjoin.split hsections
  obtain ⟨last, hsection, -⟩ := Adjoin.split hmore
  obtain ⟨hheading, hchildren⟩ := Section.adjoin_parts hsection
  have hfront := hbefore.append hleft
  simp only [Section.nodes, List.mem_cons, List.mem_map] at hnode
  rcases hnode with rfl | rfl | ⟨c, hc, rfl⟩
  · refine ⟨_, right.flatMap Section.lines, first, last, ?_, hfront, hsection,
      Section.span_eq hsection⟩
    simpa only [Node.lines, List.append_assoc] using hlines
  · refine ⟨_, s.children.flatMap Content.lines ++ right.flatMap Section.lines, first, _, ?_,
      hfront, hheading, Heading.span_eq hheading⟩
    simpa only [Node.lines, Section.lines, List.append_assoc] using hlines
  · have hall : bodyLines text = (before ++ left.flatMap Section.lines ++ s.heading.lines) ++
        s.children.flatMap Content.lines ++ right.flatMap Section.lines := by
      simpa only [Section.lines, List.append_assoc] using hlines
    exact placed_of_mem_contents hc hall (hfront.append hheading) hchildren

theorem placed_of_mem_nodes {text : List Char} {d : Document} (h : parse text = .ok d)
    {n : Node} (hn : n ∈ d.nodes) : Placed text n := by
  obtain ⟨hstart, hlines⟩ := lines_of_parse h
  have hadjoin := bodyLines_adjoin text
  rw [← hlines, ← hstart] at hadjoin
  have layout := layout_of_adjoin hadjoin
  rw [Document.lines] at hlines
  have hheader := layout.header
  rw [hstart] at hheader
  simp only [nodes, List.mem_append, List.mem_map, Option.mem_toList, List.mem_cons] at hn
  rcases hn with (⟨header, hh, rfl⟩ | rfl | ⟨c, hc, rfl⟩) | hsection
  · have hpart : d.headerLines = header.lines := by simp [headerLines, hh]
    rw [hpart] at hheader
    refine ⟨[], d.intro.flatMap Content.lines ++ d.sections.flatMap Section.lines, _, _, ?_, rfl,
      hheader, Header.span_eq hheader⟩
    simp only [← hlines, Option.mem_def.mp hh, Node.lines, Option.map_some, Option.getD_some,
      List.nil_append, List.append_assoc]
  · exact ⟨d.headerLines, d.sections.flatMap Section.lines, _, _, hlines.symm, hheader,
      layout.intro, rfl⟩
  · exact placed_of_mem_contents hc hlines.symm hheader layout.intro
  · exact placed_of_mem_sections hsection hlines.symm (hheader.append layout.intro)
      layout.sections

/-! ### Offsets -/

/-- The offsets do not fall, from `low` on and up to `high`. -/
def Rises (low : Nat) : List Nat → Nat → Prop
  | [], high => low ≤ high
  | n :: rest, high => low ≤ n ∧ Rises n rest high

namespace Rises

variable {low middle high : Nat} {left right : List Nat}

theorem of_le (hle : low ≤ middle) (h : Rises middle right high) : Rises low right high := by
  cases right with
  | nil => exact Nat.le_trans hle h
  | cons n rest => exact ⟨Nat.le_trans hle h.1, h.2⟩

theorem append (h : Rises low left middle) (h' : Rises middle right high) :
    Rises low (left ++ right) high := by
  induction left generalizing low with
  | nil => exact of_le h h'
  | cons n rest ih => exact ⟨h.1, ih h.2⟩

theorem pairwise (h : Rises low left high) : left.Pairwise (· ≤ ·) ∧ ∀ n ∈ left, low ≤ n := by
  induction left generalizing low with
  | nil => exact ⟨List.Pairwise.nil, by simp⟩
  | cons n rest ih =>
    obtain ⟨hrest, hlow⟩ := ih h.2
    refine ⟨List.Pairwise.cons hlow hrest, ?_⟩
    intro m hm
    rcases List.mem_cons.mp hm with rfl | hm
    · exact h.1
    · exact Nat.le_trans h.1 (hlow m hm)

end Rises

theorem Tiles.rises {start stop : Nat} {spans : List Span} (h : Tiles start spans stop) :
    Rises start (spans.map Span.start) stop := by
  induction spans generalizing start with
  | nil => exact Nat.le_of_eq h
  | cons s rest ih => exact ⟨Nat.le_of_eq h.1.symm, Rises.of_le h.2.1 (ih h.2.2)⟩

def Node.start (n : Node) : Nat := n.span.start

theorem rises_contents {children : List Content} {start stop : Nat}
    (h : Adjoin start (children.flatMap Content.lines) stop) :
    Rises start ((children.map Node.content).map Node.start) stop := by
  have hrises := (tiles_of_adjoin Content.span_eq h).rises
  simpa only [List.map_map, Function.comp_def, Node.start, Node.span] using hrises

theorem rises_section {s : Section} {start stop : Nat} (h : Adjoin start s.lines stop) :
    Rises start (s.nodes.map Node.start) stop := by
  obtain ⟨hheading, hchildren⟩ := Section.adjoin_parts h
  have hstart : s.span.start = start := congrArg Span.start (Section.span_eq h)
  have hstart' : s.heading.span.start = start := congrArg Span.start (Heading.span_eq hheading)
  have hle := Tiles.le hheading
  refine ⟨Nat.le_of_eq hstart.symm, ?_, Rises.of_le ?_ (rises_contents hchildren)⟩
  · change s.span.start ≤ s.heading.span.start
    omega
  · change s.heading.span.start ≤ s.heading.span.stop
    omega

theorem rises_sections {sections : List Section} {start stop : Nat}
    (h : Adjoin start (sections.flatMap Section.lines) stop) :
    Rises start ((sections.flatMap Section.nodes).map Node.start) stop := by
  induction sections generalizing start with
  | nil => exact Nat.le_of_eq h
  | cons s rest ih =>
    rw [List.flatMap_cons] at h ⊢
    obtain ⟨middle, hs, hrest⟩ := Adjoin.split h
    rw [List.map_append]
    exact (rises_section hs).append (ih hrest)

theorem Layout.rises {d : Document} {stop : Nat} (layout : Layout d stop) :
    Rises d.start (d.nodes.map Node.start) stop := by
  have hheader : Rises d.start ((d.header.toList.map Node.header).map Node.start)
      d.introSpan.start := by
    have hle := Tiles.le layout.header
    cases hd : d.header with
    | none => exact hle
    | some header =>
      have hlines := layout.header
      simp only [headerLines, hd, Option.map_some, Option.getD_some] at hlines
      have hstart : header.span.start = d.start := congrArg Span.start (Header.span_eq hlines)
      refine ⟨Nat.le_of_eq hstart.symm, ?_⟩
      change header.span.start ≤ d.introSpan.start
      omega
  have hintro : Rises d.introSpan.start ((.intro d :: d.intro.map Node.content).map Node.start)
      d.introSpan.stop :=
    ⟨Nat.le_refl _, rises_contents layout.intro⟩
  have hsections := rises_sections layout.sections
  rw [nodes, List.map_append, List.map_append]
  exact (hheader.append hintro).append hsections

/-! ### The whole tree -/

theorem Layout.tiles {d : Document} {stop : Nat} (layout : Layout d stop) :
    Tiles d.start (d.header.toList.map Header.span ++ d.introSpan :: d.sections.map Section.span)
      stop := by
  have hheader : Tiles d.start (d.header.toList.map Header.span) d.introSpan.start := by
    have hlines := layout.header
    cases hd : d.header with
    | none =>
      simp only [headerLines, hd, Option.map_none, Option.getD_none] at hlines
      exact hlines
    | some header =>
      simp only [headerLines, hd, Option.map_some, Option.getD_some] at hlines
      rw [Option.toList_some, List.map_singleton, Header.span_eq hlines]
      exact ⟨rfl, Tiles.le hlines, rfl⟩
  have hsections := tiles_of_adjoin Section.span_eq layout.sections
  exact hheader.append ⟨rfl, Tiles.le layout.intro, hsections⟩

/-- The code of a block lies between its fences, neither of which is empty. -/
theorem Placed.code {text : List Char} {opening closing : Line} {body : List Line}
    (h : Placed text (.content (.code opening body closing))) :
    SliceAt text ⟨opening.stop, closing.start⟩ (rawOf body) ∧ opening.start < opening.stop ∧
      opening.stop ≤ closing.start ∧ closing.start < closing.stop := by
  obtain ⟨before, after, start, stop, hlines, hbefore, hnode, -⟩ := h
  simp only [Node.lines, Content.lines] at hlines hnode
  obtain ⟨bodyStop, hfront, hclosing⟩ := Adjoin.split hnode
  have hbody : Adjoin opening.stop body bodyStop := hfront.2.2
  have hopening : Adjoin start [opening] opening.stop := ⟨hfront.1, hfront.2.1, rfl⟩
  have hstop : closing.start = bodyStop := hclosing.1
  have hshort (l : Line) (hl : l ∈ bodyLines text) : l.start < l.stop := by
    have hpos := byteLength_pos (raw_ne_nil_of_mem_bodyLines hl)
    have heq := l.stop_eq
    omega
  have hle := Tiles.le hbody
  have hall : bodyLines text = (before ++ [opening]) ++ body ++ ([closing] ++ after) := by
    simpa only [List.append_assoc, List.cons_append, List.nil_append] using hlines
  refine ⟨?_, hshort opening (by simp [hlines]), by omega, hshort closing (by simp [hlines])⟩
  rw [hstop]
  exact sliceAt_of_adjoin hall (hbefore.append hopening) hbody

theorem content_mem_nodes {d : Document} {c : Content} (h : c ∈ d.contents) :
    .content c ∈ d.nodes := by
  rcases List.mem_append.mp h with hintro | hsection
  · simp [nodes, hintro]
  · obtain ⟨s, hs, hc⟩ := List.mem_flatMap.mp hsection
    have hnode : .content c ∈ s.nodes := by simp [Section.nodes, hc]
    exact List.mem_append.mpr (Or.inr (List.mem_flatMap.mpr ⟨s, hs, hnode⟩))

/-- The spans of a tree fit together and into the text. A byte order mark has three bytes. -/
structure Lossless (text : List Char) (d : Document) : Prop where
  tiles : Tiles (if text.head? = some byteOrderMark then 3 else 0)
    (d.header.toList.map Header.span ++ d.introSpan :: d.sections.map Section.span)
    (byteLength text)
  intro_tiles : Tiles d.introSpan.start (d.intro.map Content.span) d.introSpan.stop
  section_tiles : ∀ s ∈ d.sections,
    Tiles s.span.start (s.heading.span :: s.children.map Content.span) s.span.stop
  slices : ∀ n ∈ d.nodes, SliceAt text n.span n.raw
  code_slices : ∀ opening body closing, .code opening body closing ∈ d.contents →
    SliceAt text ⟨opening.stop, closing.start⟩ (rawOf body) ∧
      (Content.code opening body closing).span.start < opening.stop ∧
      opening.stop ≤ closing.start ∧
      closing.start < (Content.code opening body closing).span.stop
  starts_rise : (d.nodes.map Node.start).Pairwise (· ≤ ·)

/-- A document that is read keeps its text. -/
theorem parse_lossless {text : List Char} {d : Document} (h : parse text = .ok d) :
    Lossless text d := by
  obtain ⟨hstart, hlines⟩ := lines_of_parse h
  have hadjoin := bodyLines_adjoin text
  rw [← hlines, ← hstart] at hadjoin
  have layout := layout_of_adjoin hadjoin
  have hstop : d.start + byteLength (bodyText text) = byteLength text := by
    rw [hstart]
    exact bodyStart_add_byteLength text
  have htiles := layout.tiles
  rw [hstop, hstart] at htiles
  have hplaced {n : Node} (hn : n ∈ d.nodes) : Placed text n := placed_of_mem_nodes h hn
  refine ⟨htiles, tiles_of_adjoin Content.span_eq layout.intro, ?_,
    fun n hn => (hplaced hn).sliceAt, ?_, layout.rises.pairwise.1⟩
  · intro s hs
    have hnode : .part s ∈ d.nodes :=
      List.mem_append.mpr (Or.inr (List.mem_flatMap.mpr ⟨s, hs, List.mem_cons_self⟩))
    obtain ⟨before, after, start, stop, -, -, hsection, hspan⟩ := hplaced hnode
    have hspan : s.span = ⟨start, stop⟩ := hspan
    rw [hspan]
    exact Section.tiles hsection
  · intro opening body closing hcode
    exact (hplaced (content_mem_nodes hcode)).code

/-- A mark, a header, headings of both styles, a block with a line like a heading in it, and a
last line without a newline. -/
theorem lossless_of_all_kinds : ∃ d,
    parse "\ufeff---\nh\n---\nin\n\nT\n===\n```python:testflows\n# x\n~~~\n## B\nend".toList = .ok d ∧
      Lossless "\ufeff---\nh\n---\nin\n\nT\n===\n```python:testflows\n# x\n~~~\n## B\nend".toList d := by
  have hok : (parse
      "\ufeff---\nh\n---\nin\n\nT\n===\n```python:testflows\n# x\n~~~\n## B\nend".toList).isOk = true := by
    decide +kernel
  obtain ⟨d, hd⟩ := isOk_iff_exists.mp hok
  exact ⟨d, hd, parse_lossless hd⟩

end LiveDoc.Document
