import LiveDoc.Proofs.Document.Lines
import LiveDoc.Proofs.Outcome

/-!
The lines of the nodes. Each step of reading hands on the lines that it does not take, so the
lines of a document that is read, in the order of its nodes, are the lines of the text.
-/
namespace LiveDoc.Document

open Outcome

theorem lines_of_takeContents {lines left : List Line} {children : List Content}
    (h : takeContents lines = .ok (children, left)) :
    children.flatMap Content.lines ++ left = lines := by
  fun_induction takeContents lines generalizing children left with
  | case1 =>
    obtain ⟨rfl, rfl⟩ := Prod.mk.inj (Except.ok.inj h)
    rfl
  | case2 l rest hheading =>
    obtain ⟨rfl, rfl⟩ := Prod.mk.inj (Except.ok.inj h)
    rfl
  | case3 => simp at h
  | case4 l rest hheading hcode body closing after hbreak ih =>
    obtain ⟨⟨children, left⟩, hafter, hnode⟩ := bind_eq_ok_iff.mp h
    obtain ⟨rfl, rfl⟩ := Prod.mk.inj (Except.ok.inj hnode)
    have hlines := ih hafter
    rw [eq_append_of_breakAt hbreak, ← hlines]
    simp [Content.lines]
  | case5 l rest hheading hcode run =>
    rename_i ih
    obtain ⟨⟨children, left⟩, hafter, hnode⟩ := bind_eq_ok_iff.mp h
    obtain ⟨rfl, rfl⟩ := Prod.mk.inj (Except.ok.inj hnode)
    have hrun : run.1 ++ run.2 = rest := takeTextRun_append (Text.isBlank l.text) rest
    rw [List.flatMap_cons, List.append_assoc, ih hafter]
    exact congrArg (List.cons l) hrun

/-- Content ends at a heading or at the end of the text. -/
theorem left_of_takeContents {lines left : List Line} {children : List Content}
    (h : takeContents lines = .ok (children, left)) :
    left = [] ∨ startsHeading left = true := by
  fun_induction takeContents lines generalizing children left with
  | case1 =>
    obtain ⟨rfl, rfl⟩ := Prod.mk.inj (Except.ok.inj h)
    exact Or.inl rfl
  | case2 l rest hheading =>
    obtain ⟨rfl, rfl⟩ := Prod.mk.inj (Except.ok.inj h)
    exact Or.inr hheading
  | case3 => simp at h
  | case4 l rest hheading hcode body closing after hbreak ih =>
    obtain ⟨⟨children, left⟩, hafter, hnode⟩ := bind_eq_ok_iff.mp h
    obtain ⟨rfl, rfl⟩ := Prod.mk.inj (Except.ok.inj hnode)
    exact ih hafter
  | case5 l rest hheading hcode run =>
    rename_i ih
    obtain ⟨⟨children, left⟩, hafter, hnode⟩ := bind_eq_ok_iff.mp h
    obtain ⟨rfl, rfl⟩ := Prod.mk.inj (Except.ok.inj hnode)
    exact ih hafter

theorem takeHeading?_eq_none_iff {lines : List Line} :
    takeHeading? lines = none ↔ startsHeading lines = false := by
  cases lines with
  | nil => simp [takeHeading?, startsHeading, headingMark?]
  | cons l rest => simp [takeHeading?, startsHeading]

/-- An underline is the line behind the title. -/
theorem underline_of_headingMark? {l : Line} {rest : List Line} {mark : HeadingMark}
    (h : headingMark? (l :: rest) = some mark) :
    mark.underline = none ∨ ∃ u after, rest = u :: after ∧ mark.underline = some u := by
  unfold headingMark? at h
  dsimp only at h
  split at h
  · obtain rfl := Option.some.inj h
    exact Or.inl rfl
  · split at h
    · rename_i u after _
      obtain ⟨level, hlevel, rfl⟩ := Option.map_eq_some_iff.mp h
      exact Or.inr ⟨u, after, rfl, rfl⟩
    · simp at h

theorem lines_of_takeHeading? {lines rest : List Line} {heading : Heading}
    (h : takeHeading? lines = some (heading, rest)) : heading.lines ++ rest = lines := by
  cases lines with
  | nil => simp [takeHeading?] at h
  | cons l more =>
    obtain ⟨mark, hmark, hnode⟩ := Option.map_eq_some_iff.mp h
    rcases underline_of_headingMark? hmark with hnone | ⟨u, after, rfl, hsome⟩
    · simp only [hnone] at hnode
      obtain ⟨rfl, rfl⟩ := Prod.mk.inj hnode
      rfl
    · simp only [hsome] at hnode
      obtain ⟨rfl, rfl⟩ := Prod.mk.inj hnode
      rfl

/-- With a round for each line, the sections take all of the lines. -/
theorem lines_of_takeSections {fuel : Nat} {lines : List Line} {sections : List Section}
    (h : takeSections fuel lines = .ok sections) (hfuel : lines.length < fuel)
    (hstart : lines = [] ∨ startsHeading lines = true) :
    sections.flatMap Section.lines = lines := by
  induction fuel generalizing lines sections with
  | zero => exact absurd hfuel (Nat.not_lt_zero _)
  | succ fuel ih =>
    rw [takeSections] at h
    split at h
    · rename_i hnone
      obtain rfl := Except.ok.inj h
      rcases hstart with rfl | hheading
      · rfl
      · simp [takeHeading?_eq_none_iff.mp hnone] at hheading
    · rename_i heading rest hheading
      obtain ⟨⟨children, left⟩, hcontents, hmore⟩ := bind_eq_ok_iff.mp h
      obtain ⟨more, hsections, hnode⟩ := bind_eq_ok_iff.mp hmore
      obtain rfl := Except.ok.inj hnode
      have hlines := lines_of_takeHeading? hheading
      have hrest := lines_of_takeContents hcontents
      have hshort : left.length < fuel := by
        have hlength := congrArg List.length hlines
        have hlength' := congrArg List.length hrest
        simp only [List.length_append, Heading.lines, List.length_cons] at hlength hlength'
        omega
      rw [List.flatMap_cons, ih hsections hshort (left_of_takeContents hcontents), Section.lines,
        List.append_assoc, hrest, hlines]

theorem lines_of_takeHeader {lines rest : List Line} {header : Option Header}
    (h : takeHeader lines = .ok (header, rest)) :
    (header.map Header.lines).getD [] ++ rest = lines := by
  cases lines with
  | nil =>
    obtain ⟨rfl, rfl⟩ := Prod.mk.inj (Except.ok.inj h)
    rfl
  | cons l more =>
    rw [takeHeader] at h
    split at h
    · split at h
      · simp at h
      · rename_i body closing after hbreak
        obtain ⟨rfl, rfl⟩ := Prod.mk.inj (Except.ok.inj h)
        simp [Header.lines, eq_append_of_breakAt hbreak]
    · obtain ⟨rfl, rfl⟩ := Prod.mk.inj (Except.ok.inj h)
      rfl

/-- The lines of a document that is read are those it is read from. -/
theorem lines_of_ofLines {start : Nat} {lines : List Line} {d : Document}
    (h : ofLines start lines = .ok d) : d.start = start ∧ d.lines = lines := by
  obtain ⟨⟨header, body⟩, hheader, hbody⟩ := bind_eq_ok_iff.mp h
  obtain ⟨⟨intro, rest⟩, hintro, hrest⟩ := bind_eq_ok_iff.mp hbody
  obtain ⟨sections, hsections, hnode⟩ := bind_eq_ok_iff.mp hrest
  obtain rfl := Except.ok.inj hnode
  have htail := lines_of_takeSections hsections (Nat.lt_succ_self _) (left_of_takeContents hintro)
  refine ⟨rfl, ?_⟩
  simp only [Document.lines]
  rw [List.append_assoc, htail, lines_of_takeContents hintro, lines_of_takeHeader hheader]

theorem ne_nil_of_parse {text : List Char} {d : Document} (h : parse text = .ok d) : text ≠ [] := by
  rintro rfl
  simp [parse] at h

theorem lines_of_parse {text : List Char} {d : Document} (h : parse text = .ok d) :
    d.start = bodyStart text ∧ d.lines = bodyLines text := by
  unfold parse at h
  split at h
  · simp at h
  · exact lines_of_ofLines h

end LiveDoc.Document
