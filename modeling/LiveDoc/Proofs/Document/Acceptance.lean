import LiveDoc.Proofs.Document.Grammar

/-!
Reading accepts what the grammar describes and nothing else. Each step takes from the lines what
fits in front of those it leaves, and it fails where no tree fits.
-/
namespace LiveDoc.Document

open Outcome Text

/-! ### Text runs -/

theorem noHeading_nil (after : List Line) : NoHeading [] after := by
  intro before l rest h
  simp at h

theorem noHeading_cons {l : Line} {rest after : List Line} :
    NoHeading (l :: rest) after ↔ ¬ HeadingAt (l :: (rest ++ after)) ∧ NoHeading rest after := by
  constructor
  · intro h
    refine ⟨h [] l rest rfl, ?_⟩
    intro before m more hrest
    exact h (l :: before) m more (congrArg (List.cons l) hrest)
  · rintro ⟨hfirst, hrest⟩ before m more hlines
    cases before with
    | nil =>
      obtain ⟨rfl, rfl⟩ := List.cons.inj hlines
      exact hfirst
    | cons b left =>
      obtain ⟨-, htail⟩ := List.cons.inj hlines
      exact hrest left m more htail

/-- No line goes on a run of lines of the given blankness. -/
def RunEnds (blank : Bool) (after : List Line) : Prop :=
  ∀ l rest, after = l :: rest →
    Text.isBlank l.text ≠ blank ∨ IsCodeStart l.text ∨ HeadingAt after

theorem takeTextRun_of_runEnds {blank : Bool} {lines : List Line} (h : RunEnds blank lines) :
    takeTextRun blank lines = ([], lines) := by
  cases lines with
  | nil => rfl
  | cons l rest =>
    have hends : (Text.isBlank l.text != blank || isCodeStart l.text || startsHeading (l :: rest))
        = true := by
      simpa only [Bool.or_eq_true, bne_iff_ne, isCodeStart_iff, startsHeading_iff, or_assoc] using
        h l rest rfl
    rw [takeTextRun, if_pos hends]

theorem takeTextRun_cons {blank : Bool} {l : Line} {rest : List Line}
    (hblank : Text.isBlank l.text = blank) (hcode : ¬ IsCodeStart l.text)
    (hheading : ¬ HeadingAt (l :: rest)) :
    takeTextRun blank (l :: rest) =
      (l :: (takeTextRun blank rest).1, (takeTextRun blank rest).2) := by
  simp [takeTextRun, hblank, isCodeStart_eq_false_iff.mpr hcode,
    startsHeading_eq_false_iff.mpr hheading]

theorem takeTextRun_of_fits {blank : Bool} {run after : List Line}
    (hrun : ∀ l ∈ run, Text.isBlank l.text = blank ∧ ¬ IsCodeStart l.text)
    (hheading : NoHeading run after) (hends : RunEnds blank after) :
    takeTextRun blank (run ++ after) = (run, after) := by
  induction run with
  | nil => exact takeTextRun_of_runEnds hends
  | cons l rest ih =>
    obtain ⟨⟨hblank, hcode⟩, hrest⟩ := List.forall_mem_cons.mp hrun
    obtain ⟨hfirst, hmore⟩ := noHeading_cons.mp hheading
    rw [List.cons_append, takeTextRun_cons hblank hcode hfirst, ih hrest hmore]

/-- The lines that a run takes, and what stops it. -/
theorem run_of_takeTextRun (blank : Bool) (lines : List Line) :
    (∀ l ∈ (takeTextRun blank lines).1, Text.isBlank l.text = blank ∧ ¬ IsCodeStart l.text) ∧
      NoHeading (takeTextRun blank lines).1 (takeTextRun blank lines).2 ∧
      RunEnds blank (takeTextRun blank lines).2 := by
  induction lines with
  | nil =>
    rw [takeTextRun]
    exact ⟨by simp, noHeading_nil _, by simp [RunEnds]⟩
  | cons l rest ih =>
    by_cases hends : Text.isBlank l.text ≠ blank ∨ IsCodeStart l.text ∨ HeadingAt (l :: rest)
    · have hstop : RunEnds blank (l :: rest) := by
        intro m more hlines
        obtain ⟨rfl, rfl⟩ := List.cons.inj hlines
        exact hends
      rw [takeTextRun_of_runEnds hstop]
      exact ⟨by simp, noHeading_nil _, hstop⟩
    · simp only [not_or, ne_eq, Decidable.not_not] at hends
      obtain ⟨hblank, hcode, hheading⟩ := hends
      obtain ⟨hrun, hnone, hstop⟩ := ih
      rw [takeTextRun_cons hblank hcode hheading]
      refine ⟨List.forall_mem_cons.mpr ⟨⟨hblank, hcode⟩, hrun⟩, ?_, hstop⟩
      rw [noHeading_cons, takeTextRun_append blank rest]
      exact ⟨hheading, hnone⟩

/-- A run takes as many lines as belong to it. -/
theorem takeTextRun_eq_iff {blank : Bool} {lines run after : List Line} :
    takeTextRun blank lines = (run, after) ↔
      lines = run ++ after ∧
        (∀ l ∈ run, Text.isBlank l.text = blank ∧ ¬ IsCodeStart l.text) ∧
        NoHeading run after ∧ RunEnds blank after := by
  constructor
  · intro h
    have hlines := takeTextRun_append blank lines
    have hfits := run_of_takeTextRun blank lines
    rw [h] at hlines hfits
    exact ⟨hlines.symm, hfits⟩
  · rintro ⟨rfl, hrun, hheading, hends⟩
    exact takeTextRun_of_fits hrun hheading hends

/-! ### Content -/

theorem takeContents_of_headingAt {lines : List Line} (h : HeadingAt lines) :
    takeContents lines = .ok ([], lines) := by
  cases lines with
  | nil => rw [takeContents]
  | cons l rest => rw [takeContents, if_pos (startsHeading_iff.mpr h)]

theorem takeContents_of_unclosed {lines : List Line} {opening : Span}
    (h : UnclosedFence lines opening) :
    takeContents lines = .error (.unterminatedFence opening) := by
  obtain ⟨l, rest, rfl, hcode, hheading, hrest, rfl⟩ := h
  have hbreak := breakAt_isCodeEnd_eq_none_iff.mpr hrest
  rw [takeContents, startsHeading_eq_false_iff.mpr hheading, isCodeStart_iff.mpr hcode]
  simp only [Bool.false_eq_true, if_false, if_true]
  split
  · rfl
  · rename_i hsome
    simp [hbreak] at hsome

theorem takeContents_of_code {l closing : Line} {rest body after : List Line}
    (hheading : ¬ HeadingAt (l :: rest)) (hcode : IsCodeStart l.text)
    (hbreak : breakAt (isCodeEnd ·.text) rest = some (body, closing, after)) :
    takeContents (l :: rest) = (takeContents after).map
      fun taken => (.code l body closing :: taken.1, taken.2) := by
  rw [takeContents, startsHeading_eq_false_iff.mpr hheading, isCodeStart_iff.mpr hcode]
  simp only [Bool.false_eq_true, if_false, if_true]
  split
  · rename_i hnone
    simp [hbreak] at hnone
  · rename_i hsome
    rw [hbreak] at hsome
    obtain ⟨rfl, hmore⟩ := Prod.mk.inj (Option.some.inj hsome)
    obtain ⟨rfl, rfl⟩ := Prod.mk.inj hmore
    cases takeContents _ <;> rfl

theorem takeContents_of_text {l : Line} {rest run after : List Line}
    (hheading : ¬ HeadingAt (l :: rest)) (hcode : ¬ IsCodeStart l.text)
    (hrun : takeTextRun (Text.isBlank l.text) rest = (run, after)) :
    takeContents (l :: rest) = (takeContents after).map
      fun taken => (.text l run :: taken.1, taken.2) := by
  rw [takeContents, startsHeading_eq_false_iff.mpr hheading, isCodeStart_eq_false_iff.mpr hcode]
  simp only [Bool.false_eq_true, if_false, hrun]
  cases takeContents after <;> rfl

theorem contentsFit_code {l closing : Line} {rest body after : List Line} {children : List Content}
    (hheading : ¬ HeadingAt (l :: rest)) (hcode : IsCodeStart l.text)
    (hbreak : breakAt (isCodeEnd ·.text) rest =
      some (body, closing, children.flatMap Content.lines ++ after))
    (hfit : ContentsFit after children) : ContentsFit after (.code l body closing :: children) := by
  obtain ⟨rfl, hbody, hclosing⟩ := breakAt_isCodeEnd_eq_some_iff.mp hbreak
  exact ⟨⟨hcode, hheading, hbody, hclosing⟩, fun _ _ => trivial, hfit⟩

theorem contentsFit_text {l : Line} {rest run after : List Line} {children : List Content}
    (hheading : ¬ HeadingAt (l :: rest)) (hcode : ¬ IsCodeStart l.text)
    (hrun : takeTextRun (Text.isBlank l.text) rest =
      (run, children.flatMap Content.lines ++ after))
    (hfit : ContentsFit after children) : ContentsFit after (.text l run :: children) := by
  obtain ⟨rfl, hlines, hnone, hends⟩ := takeTextRun_eq_iff.mp hrun
  refine ⟨⟨List.forall_mem_cons.mpr ⟨⟨rfl, hcode⟩, hlines⟩, ?_⟩, ?_, hfit⟩
  · exact noHeading_cons.mpr ⟨hheading, hnone⟩
  · intro next hnext
    cases next with
    | code opening body closing => trivial
    | text first more =>
      -- The next run has ended this one, and not by a block or a heading.
      obtain ⟨others, rfl⟩ := List.head?_eq_some_iff.mp hnext
      obtain ⟨⟨hfirst, hheadings⟩, -, -⟩ := hfit
      rcases hends first _ rfl with hother | hstart | hmark
      · exact hother.symm
      · exact absurd hstart (hfirst first List.mem_cons_self).2
      · rw [List.flatMap_cons, List.append_assoc] at hmark
        exact absurd hmark (noHeading_cons.mp hheadings).1

theorem contentsFit_of_takeContents {lines left : List Line} {children : List Content}
    (h : takeContents lines = .ok (children, left)) : ContentsFit left children := by
  fun_induction takeContents lines generalizing children left with
  | case1 =>
    obtain ⟨rfl, rfl⟩ := Prod.mk.inj (Except.ok.inj h)
    trivial
  | case2 l rest hheading =>
    obtain ⟨rfl, rfl⟩ := Prod.mk.inj (Except.ok.inj h)
    trivial
  | case3 => simp at h
  | case4 l rest hheading hcode body closing after hbreak ih =>
    obtain ⟨⟨children, left⟩, hafter, hnode⟩ := bind_eq_ok_iff.mp h
    obtain ⟨rfl, rfl⟩ := Prod.mk.inj (Except.ok.inj hnode)
    rw [← lines_of_takeContents hafter] at hbreak
    exact contentsFit_code (mt startsHeading_iff.mpr hheading) (isCodeStart_iff.mp hcode) hbreak
      (ih hafter)
  | case5 l rest hheading hcode run =>
    rename_i ih
    obtain ⟨⟨children, left⟩, hafter, hnode⟩ := bind_eq_ok_iff.mp h
    obtain ⟨rfl, rfl⟩ := Prod.mk.inj (Except.ok.inj hnode)
    have hrun : takeTextRun (Text.isBlank l.text) rest =
        (run.1, children.flatMap Content.lines ++ left) :=
      Prod.ext rfl (lines_of_takeContents hafter).symm
    exact contentsFit_text (mt startsHeading_iff.mpr hheading) (mt isCodeStart_iff.mpr hcode) hrun
      (ih hafter)

/-- Content that cannot be read fits up to a block that is not closed. -/
theorem unclosed_of_takeContents {lines : List Line} {e : StructureError}
    (h : takeContents lines = .error e) :
    ∃ children left opening, lines = children.flatMap Content.lines ++ left ∧
      ContentsFit left children ∧ UnclosedFence left opening ∧
      e = .unterminatedFence opening := by
  fun_induction takeContents lines with
  | case1 => simp at h
  | case2 => simp at h
  | case3 l rest hheading hcode hbreak =>
    obtain rfl := Except.error.inj h
    exact ⟨[], l :: rest, _, rfl, trivial, ⟨l, rest, rfl, isCodeStart_iff.mp hcode,
      mt startsHeading_iff.mpr hheading, breakAt_isCodeEnd_eq_none_iff.mp hbreak, rfl⟩, rfl⟩
  | case4 l rest hheading hcode body closing after hbreak ih =>
    rcases bind_eq_error_iff.mp h with hafter | ⟨taken, -, hnode⟩
    · obtain ⟨children, left, opening, hlines, hfit, hunclosed, rfl⟩ := ih hafter
      refine ⟨.code l body closing :: children, left, opening, ?_, ?_, hunclosed, rfl⟩
      · rw [eq_append_of_breakAt hbreak, hlines]
        simp [Content.lines]
      · rw [hlines] at hbreak
        exact contentsFit_code (mt startsHeading_iff.mpr hheading) (isCodeStart_iff.mp hcode) hbreak
          hfit
    · simp at hnode
  | case5 l rest hheading hcode run =>
    rename_i ih
    rcases bind_eq_error_iff.mp h with hafter | ⟨taken, -, hnode⟩
    · obtain ⟨children, left, opening, hlines, hfit, hunclosed, rfl⟩ := ih hafter
      have hrun : takeTextRun (Text.isBlank l.text) rest =
          (run.1, children.flatMap Content.lines ++ left) :=
        Prod.ext rfl hlines
      refine ⟨.text l run.1 :: children, left, opening, ?_, ?_, hunclosed, rfl⟩
      · obtain ⟨hrest, -⟩ := takeTextRun_eq_iff.mp hrun
        rw [hrest]
        simp [Content.lines]
      · exact contentsFit_text (mt startsHeading_iff.mpr hheading) (mt isCodeStart_iff.mpr hcode)
          hrun hfit
    · simp at hnode

/-- Content ends in front of these lines or a block begins. -/
def ContentBreaks (lines : List Line) : Prop :=
  ∀ l rest, lines = l :: rest → IsCodeStart l.text ∨ HeadingAt lines

theorem contentBreaks_of_left {left : List Line} (h : left = [] ∨ HeadingAt left) :
    ContentBreaks left := by
  intro l rest hleft
  rcases h with hnil | hheading
  · rw [hnil] at hleft
    simp at hleft
  · exact Or.inr hheading

theorem UnclosedFence.contentBreaks {lines : List Line} {opening : Span}
    (h : UnclosedFence lines opening) : ContentBreaks lines := by
  obtain ⟨m, more, rfl, hcode, -⟩ := h
  intro l rest hlines
  obtain ⟨rfl, rfl⟩ := List.cons.inj hlines
  exact Or.inl hcode

/-- A text run ends where other content or the end of the content follows it. -/
theorem runEnds_of_contentsFit {first : Line} {run after : List Line} {rest : List Content}
    (hdiffers : ∀ next ∈ rest.head?, (Content.text first run).Differs next)
    (hfit : ContentsFit after rest) (hafter : ContentBreaks after) :
    RunEnds (Text.isBlank first.text) (rest.flatMap Content.lines ++ after) := by
  intro m more hlines
  cases rest with
  | nil =>
    have hafter := hafter m more hlines
    exact Or.inr hafter
  | cons next others =>
    obtain ⟨hnext, -, -⟩ := hfit
    cases next with
    | code opening body closing =>
      obtain ⟨rfl, -⟩ := List.cons.inj hlines
      exact Or.inr (Or.inl hnext.1)
    | text first' more' =>
      obtain ⟨rfl, -⟩ := List.cons.inj hlines
      exact Or.inl (hdiffers _ rfl).symm

/-- Content that fits is read, and reading goes on behind it. -/
theorem takeContents_append {children : List Content} {after : List Line}
    (hfit : ContentsFit after children) (hafter : ContentBreaks after) :
    takeContents (children.flatMap Content.lines ++ after) =
      (takeContents after).map fun taken => (children ++ taken.1, taken.2) := by
  induction children with
  | nil =>
    simp only [List.flatMap_nil, List.nil_append]
    cases takeContents after <;> rfl
  | cons c rest ih =>
    obtain ⟨hc, hdiffers, hrest⟩ := hfit
    have ih := ih hrest
    cases c with
    | code opening body closing =>
      obtain ⟨hcode, hheading, hbody, hclosing⟩ := hc
      have hbreak : breakAt (isCodeEnd ·.text)
          (body ++ closing :: (rest.flatMap Content.lines ++ after)) =
          some (body, closing, rest.flatMap Content.lines ++ after) :=
        breakAt_isCodeEnd_eq_some_iff.mpr ⟨rfl, hbody, hclosing⟩
      simp only [List.flatMap_cons, Content.lines, List.append_assoc, List.cons_append,
        List.nil_append]
      rw [List.cons_append] at hheading
      rw [takeContents_of_code hheading hcode hbreak, ih]
      cases takeContents after <;> rfl
    | text first more =>
      obtain ⟨hlines, hheadings⟩ := hc
      obtain ⟨hfirst, hmore⟩ := List.forall_mem_cons.mp hlines
      obtain ⟨hheading, hnone⟩ := noHeading_cons.mp hheadings
      have hrun := takeTextRun_eq_iff.mpr
        ⟨rfl, hmore, hnone, runEnds_of_contentsFit hdiffers hrest hafter⟩
      simp only [List.flatMap_cons, Content.lines, List.append_assoc, List.cons_append]
      rw [takeContents_of_text hheading hfirst.2 hrun, ih]
      cases takeContents after <;> rfl

theorem takeContents_eq_ok_iff {lines left : List Line} {children : List Content} :
    takeContents lines = .ok (children, left) ↔
      lines = children.flatMap Content.lines ++ left ∧ ContentsFit left children ∧
        (left = [] ∨ HeadingAt left) := by
  constructor
  · intro h
    have hleft := left_of_takeContents h
    rw [startsHeading_iff] at hleft
    exact ⟨(lines_of_takeContents h).symm, contentsFit_of_takeContents h, hleft⟩
  · rintro ⟨rfl, hfit, hleft⟩
    rw [takeContents_append hfit (contentBreaks_of_left hleft)]
    have hstop : takeContents left = .ok ([], left) := by
      rcases hleft with rfl | hheading
      · rw [takeContents]
      · exact takeContents_of_headingAt hheading
    rw [hstop]
    simp [Except.map]

theorem takeContents_eq_error_iff {lines : List Line} {e : StructureError} :
    takeContents lines = .error e ↔
      ∃ children left opening, lines = children.flatMap Content.lines ++ left ∧
        ContentsFit left children ∧ UnclosedFence left opening ∧
        e = .unterminatedFence opening := by
  constructor
  · exact unclosed_of_takeContents
  · rintro ⟨children, left, opening, rfl, hfit, hunclosed, rfl⟩
    rw [takeContents_append hfit hunclosed.contentBreaks, takeContents_of_unclosed hunclosed]
    rfl

/-! ### Sections -/

theorem headingAt_of_sectionsFit {sections : List Section} {after : List Line}
    (hfit : SectionsFit after sections) (hsome : sections ≠ []) :
    HeadingAt (sections.flatMap Section.lines ++ after) := by
  cases sections with
  | nil => exact absurd rfl hsome
  | cons s rest =>
    obtain ⟨hheading, -, -⟩ := hfit
    rw [List.flatMap_cons, List.append_assoc, Section.lines, List.append_assoc]
    exact hheading.headingAt _

theorem nil_or_headingAt_of_sectionsFit {sections : List Section} (hfit : SectionsFit [] sections) :
    sections.flatMap Section.lines = [] ∨ HeadingAt (sections.flatMap Section.lines) := by
  by_cases hsome : sections = []
  · rw [hsome]
    exact Or.inl rfl
  · have hmark := headingAt_of_sectionsFit hfit hsome
    rw [List.append_nil] at hmark
    exact Or.inr hmark

theorem length_lt_of_takeHeading? {lines rest left : List Line} {heading : Heading}
    {children : List Content} {fuel : Nat} (hheading : takeHeading? lines = some (heading, rest))
    (hcontents : rest = children.flatMap Content.lines ++ left)
    (hfuel : lines.length < fuel + 1) : left.length < fuel := by
  have hlines := congrArg List.length (lines_of_takeHeading? hheading)
  have hrest := congrArg List.length hcontents
  simp only [List.length_append, Heading.lines, List.length_cons] at hlines hrest
  omega

theorem eq_nil_of_takeHeading? {lines : List Line} (h : takeHeading? lines = none)
    (hstart : lines = [] ∨ HeadingAt lines) : lines = [] := by
  rcases hstart with hnil | hmark
  · exact hnil
  · rw [← startsHeading_iff, takeHeading?_eq_none_iff.mp h] at hmark
    simp at hmark

theorem takeHeading?_of_section {s : Section} (after : List Line) (h : s.heading.Fits) :
    takeHeading? (s.lines ++ after) =
      some (s.heading, s.children.flatMap Content.lines ++ after) := by
  rw [takeHeading?_eq_some_iff, Section.lines, List.append_assoc]
  exact ⟨h, rfl⟩

/-- The sections that are read fit all of the lines. A round for each line is enough for that. -/
theorem fits_of_takeSections {fuel : Nat} {lines : List Line} {sections : List Section}
    (hfuel : lines.length < fuel) (hstart : lines = [] ∨ HeadingAt lines)
    (h : takeSections fuel lines = .ok sections) :
    lines = sections.flatMap Section.lines ∧ SectionsFit [] sections := by
  induction fuel generalizing lines sections with
  | zero => exact absurd hfuel (Nat.not_lt_zero _)
  | succ fuel ih =>
    cases hheading : takeHeading? lines with
    | none =>
      rw [takeSections, hheading] at h
      obtain rfl := Except.ok.inj h
      exact ⟨eq_nil_of_takeHeading? hheading hstart, trivial⟩
    | some taken =>
      obtain ⟨heading, rest⟩ := taken
      rw [takeSections, hheading] at h
      obtain ⟨⟨children, left⟩, hcontents, hmore⟩ := bind_eq_ok_iff.mp h
      obtain ⟨more, hsections, hnode⟩ := bind_eq_ok_iff.mp hmore
      obtain rfl := Except.ok.inj hnode
      obtain ⟨hrest, hfit, hleft⟩ := takeContents_eq_ok_iff.mp hcontents
      obtain ⟨hhead, hlines⟩ := takeHeading?_eq_some_iff.mp hheading
      have hshort := length_lt_of_takeHeading? hheading hrest hfuel
      obtain ⟨rfl, htail⟩ := ih hshort hleft hsections
      refine ⟨?_, hhead, ?_, htail⟩
      · rw [hlines, hrest, List.flatMap_cons, Section.lines, List.append_assoc]
      · rwa [List.append_nil]

theorem takeSections_of_fits {fuel : Nat} {sections : List Section}
    (hfuel : (sections.flatMap Section.lines).length < fuel) (hfit : SectionsFit [] sections) :
    takeSections fuel (sections.flatMap Section.lines) = .ok sections := by
  induction sections generalizing fuel with
  | nil =>
    cases fuel with
    | zero => rfl
    | succ fuel => rfl
  | cons s more ih =>
    cases fuel with
    | zero => exact absurd hfuel (Nat.not_lt_zero _)
    | succ fuel =>
      obtain ⟨hhead, hchildren, hmore⟩ := hfit
      rw [List.append_nil] at hchildren
      rw [List.flatMap_cons] at hfuel ⊢
      have htaken := takeHeading?_of_section (more.flatMap Section.lines) hhead
      have hcontents := takeContents_eq_ok_iff.mpr
        ⟨rfl, hchildren, nil_or_headingAt_of_sectionsFit hmore⟩
      have hsections := ih (length_lt_of_takeHeading? htaken rfl hfuel) hmore
      rw [takeSections, htaken]
      exact bind_eq_ok_iff.mpr ⟨_, hcontents, bind_eq_ok_iff.mpr ⟨more, hsections, rfl⟩⟩

theorem takeSections_eq_ok_iff {fuel : Nat} {lines : List Line} {sections : List Section}
    (hfuel : lines.length < fuel) (hstart : lines = [] ∨ HeadingAt lines) :
    takeSections fuel lines = .ok sections ↔
      lines = sections.flatMap Section.lines ∧ SectionsFit [] sections := by
  constructor
  · exact fits_of_takeSections hfuel hstart
  · rintro ⟨rfl, hfit⟩
    exact takeSections_of_fits hfuel hfit

/-- Sections that cannot be read fit up to a block that is not closed. -/
theorem unclosed_of_takeSections {fuel : Nat} {lines : List Line} {e : StructureError}
    (hfuel : lines.length < fuel) (h : takeSections fuel lines = .error e) :
    ∃ sections left opening, sections ≠ [] ∧ lines = sections.flatMap Section.lines ++ left ∧
      SectionsFit left sections ∧ UnclosedFence left opening ∧
      e = .unterminatedFence opening := by
  induction fuel generalizing lines with
  | zero => exact absurd hfuel (Nat.not_lt_zero _)
  | succ fuel ih =>
    cases hheading : takeHeading? lines with
    | none => simp [takeSections, hheading] at h
    | some taken =>
      obtain ⟨heading, rest⟩ := taken
      obtain ⟨hhead, hlines⟩ := takeHeading?_eq_some_iff.mp hheading
      rw [takeSections, hheading] at h
      rcases bind_eq_error_iff.mp h with hcontents | ⟨⟨children, left⟩, hcontents, hmore⟩
      · obtain ⟨children, left, opening, hrest, hfit, hunclosed, rfl⟩ :=
          takeContents_eq_error_iff.mp hcontents
        refine ⟨[⟨heading, children⟩], left, opening, by simp, ?_, ⟨hhead, hfit, trivial⟩,
          hunclosed, rfl⟩
        rw [hlines, hrest]
        simp [Section.lines]
      · obtain ⟨hrest, hfit, -⟩ := takeContents_eq_ok_iff.mp hcontents
        have hshort := length_lt_of_takeHeading? hheading hrest hfuel
        rcases bind_eq_error_iff.mp hmore with hsections | ⟨sections, -, hnode⟩
        · obtain ⟨sections, left', opening, -, rfl, htail, hunclosed, rfl⟩ := ih hshort hsections
          refine ⟨⟨heading, children⟩ :: sections, left', opening, by simp, ?_,
            ⟨hhead, hfit, htail⟩, hunclosed, rfl⟩
          rw [hlines, hrest]
          simp [Section.lines]
        · simp at hnode

theorem takeSections_of_unclosed {fuel : Nat} {sections : List Section} {left : List Line}
    {opening : Span} (hfuel : (sections.flatMap Section.lines ++ left).length < fuel)
    (hsome : sections ≠ []) (hfit : SectionsFit left sections)
    (hunclosed : UnclosedFence left opening) :
    takeSections fuel (sections.flatMap Section.lines ++ left) =
      .error (.unterminatedFence opening) := by
  induction sections generalizing fuel with
  | nil => exact absurd rfl hsome
  | cons s more ih =>
    cases fuel with
    | zero => exact absurd hfuel (Nat.not_lt_zero _)
    | succ fuel =>
      obtain ⟨hhead, hchildren, hmore⟩ := hfit
      rw [List.flatMap_cons, List.append_assoc] at hfuel ⊢
      have htaken := takeHeading?_of_section (more.flatMap Section.lines ++ left) hhead
      rw [takeSections, htaken]
      by_cases hlast : more = []
      · subst hlast
        have hcontents := takeContents_eq_error_iff.mpr
          ⟨s.children, left, opening, rfl, hchildren, hunclosed, rfl⟩
        exact bind_eq_error_iff.mpr (Or.inl hcontents)
      · have hcontents := takeContents_eq_ok_iff.mpr
          ⟨rfl, hchildren, Or.inr (headingAt_of_sectionsFit hmore hlast)⟩
        have hsections := ih (length_lt_of_takeHeading? htaken rfl hfuel) hlast hmore
        exact bind_eq_error_iff.mpr
          (Or.inr ⟨_, hcontents, bind_eq_error_iff.mpr (Or.inl hsections)⟩)

theorem takeSections_eq_error_iff {fuel : Nat} {lines : List Line} {e : StructureError}
    (hfuel : lines.length < fuel) :
    takeSections fuel lines = .error e ↔
      ∃ sections left opening, sections ≠ [] ∧ lines = sections.flatMap Section.lines ++ left ∧
        SectionsFit left sections ∧ UnclosedFence left opening ∧
        e = .unterminatedFence opening := by
  constructor
  · exact unclosed_of_takeSections hfuel
  · rintro ⟨sections, left, opening, hsome, rfl, hfit, hunclosed, rfl⟩
    exact takeSections_of_unclosed hfuel hsome hfit hunclosed

/-! ### Headers -/

theorem headerFits_of_takeHeader {lines rest : List Line} {header : Option Header}
    (h : takeHeader lines = .ok (header, rest)) : HeaderFits rest header := by
  cases lines with
  | nil =>
    obtain ⟨rfl, rfl⟩ := Prod.mk.inj (Except.ok.inj h)
    simp [HeaderFits]
  | cons l more =>
    rw [takeHeader] at h
    split at h
    · rename_i hopening
      split at h
      · simp at h
      · rename_i body closing after hbreak
        obtain ⟨rfl, rfl⟩ := Prod.mk.inj (Except.ok.inj h)
        obtain ⟨-, hbody, hclosing⟩ := breakAt_isHeaderSeparator_eq_some_iff.mp hbreak
        exact ⟨isHeaderSeparator_iff.mp hopening, hbody, hclosing⟩
    · rename_i hopening
      obtain ⟨rfl, rfl⟩ := Prod.mk.inj (Except.ok.inj h)
      intro m hm hseparator
      obtain rfl : l = m := by simpa using hm
      exact hopening (isHeaderSeparator_iff.mpr hseparator)

theorem takeHeader_of_fits {rest : List Line} {header : Option Header}
    (hfit : HeaderFits rest header) :
    takeHeader ((header.map Header.lines).getD [] ++ rest) = .ok (header, rest) := by
  cases header with
  | none =>
    cases rest with
    | nil => rfl
    | cons l more =>
      have hopening : ¬ isHeaderSeparator l.text = true := mt isHeaderSeparator_iff.mp (hfit l rfl)
      simp [takeHeader, hopening]
  | some header =>
    obtain ⟨hopening, hbody, hclosing⟩ := hfit
    have hbreak : breakAt (isHeaderSeparator ·.text) (header.body ++ header.closing :: rest) =
        some (header.body, header.closing, rest) :=
      breakAt_isHeaderSeparator_eq_some_iff.mpr ⟨rfl, hbody, hclosing⟩
    simp [takeHeader, Header.lines, isHeaderSeparator_iff.mpr hopening, hbreak]

theorem takeHeader_eq_ok_iff {lines rest : List Line} {header : Option Header} :
    takeHeader lines = .ok (header, rest) ↔
      lines = (header.map Header.lines).getD [] ++ rest ∧ HeaderFits rest header := by
  constructor
  · intro h
    exact ⟨(lines_of_takeHeader h).symm, headerFits_of_takeHeader h⟩
  · rintro ⟨rfl, hfit⟩
    exact takeHeader_of_fits hfit

theorem takeHeader_eq_error_iff {lines : List Line} {e : StructureError} :
    takeHeader lines = .error e ↔
      ∃ opening, UnclosedHeader lines opening ∧ e = .unterminatedHeader opening := by
  constructor
  · intro h
    cases lines with
    | nil => simp [takeHeader] at h
    | cons l more =>
      rw [takeHeader] at h
      split at h
      · rename_i hopening
        split at h
        · rename_i hbreak
          obtain rfl := Except.error.inj h
          exact ⟨_, ⟨l, more, rfl, isHeaderSeparator_iff.mp hopening,
            breakAt_isHeaderSeparator_eq_none_iff.mp hbreak, rfl⟩, rfl⟩
        · simp at h
      · simp at h
  · rintro ⟨opening, ⟨l, more, rfl, hopening, hmore, rfl⟩, rfl⟩
    have hbreak := breakAt_isHeaderSeparator_eq_none_iff.mpr hmore
    simp [takeHeader, isHeaderSeparator_iff.mpr hopening, hbreak]

/-! ### Documents -/

theorem ofLines_eq_ok_iff {start : Nat} {lines : List Line} {d : Document} :
    ofLines start lines = .ok d ↔ d.start = start ∧ d.lines = lines ∧ FitsBefore [] d := by
  constructor
  · intro h
    obtain ⟨hstart, hlines⟩ := lines_of_ofLines h
    refine ⟨hstart, hlines, ?_⟩
    obtain ⟨⟨header, body⟩, hheader, hbody⟩ := bind_eq_ok_iff.mp h
    obtain ⟨⟨intro, rest⟩, hintro, hrest⟩ := bind_eq_ok_iff.mp hbody
    obtain ⟨sections, hsections, hnode⟩ := bind_eq_ok_iff.mp hrest
    obtain rfl := Except.ok.inj hnode
    obtain ⟨-, hheader⟩ := takeHeader_eq_ok_iff.mp hheader
    obtain ⟨rfl, hintro, hleft⟩ := takeContents_eq_ok_iff.mp hintro
    obtain ⟨rfl, hfit⟩ := (takeSections_eq_ok_iff (Nat.lt_succ_self _) hleft).mp hsections
    refine ⟨?_, ?_, hfit⟩
    · rwa [List.append_nil]
    · rwa [List.append_nil]
  · rintro ⟨rfl, rfl, hheader, hintro, hsections⟩
    rw [List.append_nil] at hheader hintro
    have hleft := nil_or_headingAt_of_sectionsFit hsections
    have hheader := takeHeader_eq_ok_iff.mpr ⟨rfl, hheader⟩
    have hintro := takeContents_eq_ok_iff.mpr ⟨rfl, hintro, hleft⟩
    have hsections := (takeSections_eq_ok_iff (Nat.lt_succ_self _) hleft).mpr ⟨rfl, hsections⟩
    rw [ofLines, Document.lines, List.append_assoc]
    exact bind_eq_ok_iff.mpr ⟨_, hheader, bind_eq_ok_iff.mpr ⟨_, hintro,
      bind_eq_ok_iff.mpr ⟨_, hsections, rfl⟩⟩⟩

theorem ofLines_eq_error_iff {start : Nat} {lines : List Line} {e : StructureError} :
    ofLines start lines = .error e ↔
      (∃ opening, UnclosedHeader lines opening ∧ e = .unterminatedHeader opening) ∨
      ∃ d left opening, d.start = start ∧ lines = d.lines ++ left ∧ FitsBefore left d ∧
        UnclosedFence left opening ∧ e = .unterminatedFence opening := by
  constructor
  · intro h
    rcases bind_eq_error_iff.mp h with hheader | ⟨⟨header, body⟩, hheader, hbody⟩
    · exact Or.inl (takeHeader_eq_error_iff.mp hheader)
    obtain ⟨rfl, hfront⟩ := takeHeader_eq_ok_iff.mp hheader
    rcases bind_eq_error_iff.mp hbody with hintro | ⟨⟨intro, rest⟩, hintro, hrest⟩
    · obtain ⟨intro, left, opening, rfl, hfit, hunclosed, rfl⟩ :=
        takeContents_eq_error_iff.mp hintro
      refine Or.inr ⟨⟨start, header, intro, []⟩, left, opening, rfl, ?_, ⟨?_, hfit, trivial⟩,
        hunclosed, rfl⟩
      · simp [Document.lines]
      · simpa using hfront
    obtain ⟨rfl, hintro, -⟩ := takeContents_eq_ok_iff.mp hintro
    rcases bind_eq_error_iff.mp hrest with hsections | ⟨sections, -, hnode⟩
    · obtain ⟨sections, left, opening, -, rfl, hfit, hunclosed, rfl⟩ :=
        (takeSections_eq_error_iff (Nat.lt_succ_self _)).mp hsections
      refine Or.inr ⟨⟨start, header, intro, sections⟩, left, opening, rfl, ?_, ⟨?_, hintro, hfit⟩,
        hunclosed, rfl⟩
      · simp [Document.lines]
      · simpa using hfront
    · simp at hnode
  · rintro (hheader | ⟨d, left, opening, rfl, rfl, ⟨hheader, hintro, hsections⟩, hunclosed, rfl⟩)
    · exact bind_eq_error_iff.mpr (Or.inl (takeHeader_eq_error_iff.mpr hheader))
    rw [List.append_assoc] at hheader
    have hheader := takeHeader_eq_ok_iff.mpr ⟨rfl, hheader⟩
    rw [ofLines, Document.lines, List.append_assoc, List.append_assoc]
    refine bind_eq_error_iff.mpr (Or.inr ⟨_, hheader, bind_eq_error_iff.mpr ?_⟩)
    by_cases hnone : d.sections = []
    · rw [hnone] at hintro ⊢
      exact Or.inl (takeContents_eq_error_iff.mpr
        ⟨d.intro, left, opening, rfl, hintro, hunclosed, rfl⟩)
    · have hmark := headingAt_of_sectionsFit hsections hnone
      have hintro := takeContents_eq_ok_iff.mpr ⟨rfl, hintro, Or.inr hmark⟩
      have herror := (takeSections_eq_error_iff (Nat.lt_succ_self _)).mpr
        ⟨d.sections, left, opening, hnone, rfl, hsections, hunclosed, rfl⟩
      exact Or.inr ⟨_, hintro, bind_eq_error_iff.mpr (Or.inl herror)⟩

/-- What a text leaves open: its header, or a block behind a tree that fits in front of it. -/
inductive LeavesOpen (text : List Char) : StructureError → Prop where
  | header {opening : Span} :
    UnclosedHeader (bodyLines text) opening → LeavesOpen text (.unterminatedHeader opening)
  | fence {d : Document} {left : List Line} {opening : Span} :
    d.start = bodyStart text → bodyLines text = d.lines ++ left → FitsBefore left d →
      UnclosedFence left opening → LeavesOpen text (.unterminatedFence opening)

theorem leavesOpen_iff {text : List Char} {e : StructureError} :
    LeavesOpen text e ↔ ofLines (bodyStart text) (bodyLines text) = .error e := by
  rw [ofLines_eq_error_iff]
  constructor
  · intro h
    cases h with
    | header hheader => exact Or.inl ⟨_, hheader, rfl⟩
    | fence hstart hlines hfits hunclosed =>
      exact Or.inr ⟨_, _, _, hstart, hlines, hfits, hunclosed, rfl⟩
  · rintro (⟨opening, hheader, rfl⟩ | ⟨d, left, opening, hstart, hlines, hfits, hunclosed, rfl⟩)
    · exact .header hheader
    · exact .fence hstart hlines hfits hunclosed

theorem wellFormed_iff {text : List Char} {d : Document} :
    WellFormed text d ↔ ofLines (bodyStart text) (bodyLines text) = .ok d := by
  rw [ofLines_eq_ok_iff]
  constructor
  · rintro ⟨hstart, hlines, hfits⟩
    exact ⟨hstart, hlines, hfits⟩
  · rintro ⟨hstart, hlines, hfits⟩
    exact ⟨hstart, hlines, hfits⟩

theorem parse_of_ne_nil {text : List Char} (hsome : text ≠ []) :
    parse text = ofLines (bodyStart text) (bodyLines text) := by
  simp [parse, hsome]

theorem wellFormed_of_parse {text : List Char} {d : Document} (h : parse text = .ok d) :
    WellFormed text d := by
  rw [wellFormed_iff, ← parse_of_ne_nil (ne_nil_of_parse h)]
  exact h

/-- A text has at most one well-formed tree. Reading gives this tree, and without one it gives
what the text leaves open. -/
theorem parse_accepts_grammar {text : List Char} (hsome : text ≠ []) :
    (∀ d d', WellFormed text d → WellFormed text d' → d = d') ∧
      (∀ d, parse text = .ok d ↔ WellFormed text d) ∧
      (∀ e, parse text = .error e ↔ LeavesOpen text e) ∧
      ((¬ ∃ d, WellFormed text d) → ∃ e, parse text = .error e) := by
  rw [parse_of_ne_nil hsome]
  refine ⟨?_, fun d => wellFormed_iff.symm, fun e => leavesOpen_iff.symm, ?_⟩
  · intro d d' h h'
    have hread := wellFormed_iff.mp h
    rw [wellFormed_iff.mp h'] at hread
    exact (Except.ok.inj hread).symm
  · intro hnone
    cases hread : ofLines (bodyStart text) (bodyLines text) with
    | ok d => exact absurd ⟨d, wellFormed_iff.mpr hread⟩ hnone
    | error e => exact ⟨e, rfl⟩

/-- A tree for a block with a line like a heading in it, and none for a block without an end. -/
theorem grammar_of_blocks :
    (∃ d, WellFormed "a\nT\n===\n```python:testflows\n# x\n~~~\n".toList d) ∧
      ¬ ∃ d, WellFormed "a\nT\n===\n```python:testflows\n# x\n".toList d := by
  obtain ⟨-, hread, -⟩ := parse_accepts_grammar
    (show "a\nT\n===\n```python:testflows\n# x\n~~~\n".toList ≠ [] by decide)
  obtain ⟨-, hread', -⟩ := parse_accepts_grammar
    (show "a\nT\n===\n```python:testflows\n# x\n".toList ≠ [] by decide)
  constructor
  · have hok : (parse "a\nT\n===\n```python:testflows\n# x\n~~~\n".toList).isOk = true := by
      decide +kernel
    obtain ⟨d, hd⟩ := isOk_iff_exists.mp hok
    exact ⟨d, (hread d).mp hd⟩
  · rintro ⟨d, hd⟩
    have hfails : ¬ (parse "a\nT\n===\n```python:testflows\n# x\n".toList).isOk = true := by
      decide +kernel
    exact hfails (isOk_iff_exists.mpr ⟨d, (hread' d).mpr hd⟩)

end LiveDoc.Document
