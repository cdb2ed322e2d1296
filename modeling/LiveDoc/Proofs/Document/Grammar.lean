import LiveDoc.Proofs.Document.LineClass
import LiveDoc.Proofs.Document.NodeLines

/-!
The grammar of a document. A tree is well formed when each of its nodes fits its own lines and the
lines behind them, and reading gives the one well-formed tree of a text. A text without one opens
a header or a block that it never closes, and reading says which line does so.
-/
namespace LiveDoc.Document

open Outcome Text

/-- The first of some lines begins a heading. -/
inductive HeadingAt : List Line → Prop where
  | hashes {l : Line} {rest : List Line} {level : Nat} {title : List Char} :
    IsHashHeading l.text level title → HeadingAt (l :: rest)
  | underlined {l u : Line} {rest : List Line} {level : Nat} :
    isBlank l.text = false → IsUnderline u.text level → HeadingAt (l :: u :: rest)

/-- None of the lines begins a heading when `after` stands behind them. -/
def NoHeading (lines after : List Line) : Prop :=
  ∀ before l rest, lines = before ++ l :: rest → ¬ HeadingAt (l :: (rest ++ after))

/-- A piece of content in front of the lines `after`. -/
def Content.Fits (after : List Line) : Content → Prop
  | .code opening body closing =>
    IsCodeStart opening.text ∧ ¬ HeadingAt (opening :: body ++ closing :: after) ∧
      (∀ l ∈ body, ¬ IsCodeEnd l.text) ∧ IsCodeEnd closing.text
  | .text first more =>
    (∀ l ∈ first :: more, Text.isBlank l.text = Text.isBlank first.text ∧ ¬ IsCodeStart l.text) ∧
      NoHeading (first :: more) after

/-- Of two text runs, one holds blank lines and the other does not. -/
def Content.Differs : Content → Content → Prop
  | .text first _, .text next _ => Text.isBlank first.text ≠ Text.isBlank next.text
  | _, _ => True

/-- Content in front of the lines `after`. -/
def ContentsFit (after : List Line) : List Content → Prop
  | [] => True
  | c :: rest =>
    c.Fits (rest.flatMap Content.lines ++ after) ∧ (∀ next ∈ rest.head?, c.Differs next) ∧
      ContentsFit after rest

/-- A line of hashes goes before an underline that happens to follow it. -/
inductive Heading.Fits : Heading → Prop where
  | hashes {first : Line} {level : Nat} {raw : List Char} :
    IsHashHeading first.text level raw →
      Fits ⟨level, String.ofList (plainTitle raw), .atx, first, none⟩
  | underlined {first u : Line} {level : Nat} :
    (∀ n raw, ¬ IsHashHeading first.text n raw) → isBlank first.text = false →
      IsUnderline u.text level →
      Fits ⟨level, String.ofList (plainTitle first.text), .setext, first, some u⟩

/-- Sections in front of the lines `after`. -/
def SectionsFit (after : List Line) : List Section → Prop
  | [] => True
  | s :: rest =>
    s.heading.Fits ∧ ContentsFit (rest.flatMap Section.lines ++ after) s.children ∧
      SectionsFit after rest

/-- A header ends at the first separator behind its own; without one, the lines `after` do not
begin with a separator. -/
def HeaderFits (after : List Line) : Option Header → Prop
  | some h =>
    IsSeparator h.opening.text ∧ (∀ l ∈ h.body, ¬ IsSeparator l.text) ∧ IsSeparator h.closing.text
  | none => ∀ l ∈ after.head?, ¬ IsSeparator l.text

/-- A tree in front of the lines `after`. -/
structure FitsBefore (after : List Line) (d : Document) : Prop where
  header : HeaderFits (d.intro.flatMap Content.lines ++ d.sections.flatMap Section.lines ++ after)
    d.header
  intro : ContentsFit (d.sections.flatMap Section.lines ++ after) d.intro
  sections : SectionsFit after d.sections

/-- A tree over all the lines of a text that follows the grammar. -/
structure WellFormed (text : List Char) (d : Document) : Prop where
  start : d.start = bodyStart text
  lines : d.lines = bodyLines text
  fits : FitsBefore [] d

/-- Lines that begin with a separator and hold no other. -/
def UnclosedHeader (lines : List Line) (opening : Span) : Prop :=
  ∃ l rest, lines = l :: rest ∧ IsSeparator l.text ∧ (∀ m ∈ rest, ¬ IsSeparator m.text) ∧
    opening = ⟨l.start, l.textStop⟩

/-- Lines that begin with the start of a block and do not end it. -/
def UnclosedFence (lines : List Line) (opening : Span) : Prop :=
  ∃ l rest, lines = l :: rest ∧ IsCodeStart l.text ∧ ¬ HeadingAt lines ∧
    (∀ m ∈ rest, ¬ IsCodeEnd m.text) ∧ opening = ⟨l.start, l.textStop⟩

/-! ### Lines -/

theorem hashHeading?_eq_none_iff {text : List Char} :
    hashHeading? text = none ↔ ∀ level title, ¬ IsHashHeading text level title := by
  rw [Option.eq_none_iff_forall_ne_some]
  constructor
  · intro h level title hhash
    exact h (level, title) (hashHeading?_eq_some_iff.mpr hhash)
  · rintro h ⟨level, title⟩ hsome
    exact h level title (hashHeading?_eq_some_iff.mp hsome)

theorem takeHeading?_eq_some_iff {lines rest : List Line} {heading : Heading} :
    takeHeading? lines = some (heading, rest) ↔ heading.Fits ∧ lines = heading.lines ++ rest := by
  constructor
  · intro h
    refine ⟨?_, (lines_of_takeHeading? h).symm⟩
    cases lines with
    | nil => simp [takeHeading?] at h
    | cons l more =>
      obtain ⟨mark, hmark, hnode⟩ := Option.map_eq_some_iff.mp h
      unfold headingMark? at hmark
      dsimp only at hmark
      split at hmark
      · rename_i level title hhash
        obtain rfl := Option.some.inj hmark
        obtain ⟨rfl, rfl⟩ := Prod.mk.inj hnode
        exact .hashes (hashHeading?_eq_some_iff.mp hhash)
      · rename_i hnone
        split at hmark
        · rename_i u after hblank
          obtain ⟨level, hlevel, rfl⟩ := Option.map_eq_some_iff.mp hmark
          obtain ⟨rfl, rfl⟩ := Prod.mk.inj hnode
          exact .underlined (hashHeading?_eq_none_iff.mp hnone) hblank
            (underlineLevel?_eq_some_iff.mp hlevel)
        · simp at hmark
  · rintro ⟨hfits, rfl⟩
    cases hfits with
    | hashes hhash =>
      simp [takeHeading?, headingMark?, Heading.lines, hashHeading?_eq_some_iff.mpr hhash]
    | underlined hnone hblank hline =>
      simp [takeHeading?, headingMark?, Heading.lines, hashHeading?_eq_none_iff.mpr hnone, hblank,
        underlineLevel?_eq_some_iff.mpr hline]

theorem startsHeading_iff {lines : List Line} : startsHeading lines = true ↔ HeadingAt lines := by
  constructor
  · intro h
    cases hheading : takeHeading? lines with
    | none => simp [takeHeading?_eq_none_iff.mp hheading] at h
    | some taken =>
      obtain ⟨heading, rest⟩ := taken
      obtain ⟨hfits, rfl⟩ := takeHeading?_eq_some_iff.mp hheading
      cases hfits with
      | hashes hhash => exact .hashes hhash
      | underlined hnone hblank hline => exact .underlined hblank hline
  · intro h
    cases h with
    | hashes hhash => simp [startsHeading, headingMark?, hashHeading?_eq_some_iff.mpr hhash]
    | @underlined l u rest level hblank hline =>
      cases hhash : hashHeading? l.text with
      | none =>
        simp [startsHeading, headingMark?, hhash, hblank, underlineLevel?_eq_some_iff.mpr hline]
      | some mark => simp [startsHeading, headingMark?, hhash]

theorem startsHeading_eq_false_iff {lines : List Line} :
    startsHeading lines = false ↔ ¬ HeadingAt lines := by
  rw [← startsHeading_iff, Bool.not_eq_true]

theorem isCodeStart_eq_false_iff {text : List Char} :
    isCodeStart text = false ↔ ¬ IsCodeStart text := by
  rw [← isCodeStart_iff, Bool.not_eq_true]

theorem Heading.Fits.headingAt {heading : Heading} (h : heading.Fits) (rest : List Line) :
    HeadingAt (heading.lines ++ rest) := by
  rw [← startsHeading_iff]
  cases hstarts : startsHeading (heading.lines ++ rest) with
  | true => rfl
  | false =>
    have hsome : takeHeading? (heading.lines ++ rest) = some (heading, rest) :=
      takeHeading?_eq_some_iff.mpr ⟨h, rfl⟩
    rw [takeHeading?_eq_none_iff.mpr hstarts] at hsome
    simp at hsome

/-- The level of a heading that is read is not zero. -/
theorem Heading.Fits.level_pos {heading : Heading} (h : heading.Fits) :
    0 < heading.level := by
  cases h with
  | hashes hhash =>
    obtain ⟨-, -, -, -, hlevel, -⟩ := hhash
    exact hlevel
  | underlined hnone hblank hline =>
    obtain ⟨-, -, -, -, -, -, ⟨-, rfl⟩ | ⟨-, rfl⟩⟩ := hline
    · exact Nat.one_pos
    · exact Nat.two_pos

theorem heading_of_sectionsFit {sections : List Section} {after : List Line}
    (hfit : SectionsFit after sections) : ∀ part ∈ sections, part.heading.Fits := by
  induction sections with
  | nil => simp
  | cons part rest ih =>
    obtain ⟨hheading, -, hrest⟩ := hfit
    exact List.forall_mem_cons.mpr ⟨hheading, ih hrest⟩

theorem level_pos_of_sectionsFit {sections : List Section} {after : List Line}
    (hfit : SectionsFit after sections) : ∀ part ∈ sections, 0 < part.heading.level :=
  fun part hpart => (heading_of_sectionsFit hfit part hpart).level_pos

/-! ### Lines of a class -/

section Breaking

variable {p : Line → Bool} {P : Line → Prop} {lines before after : List Line} {found : Line}

theorem breakAt_append (hbefore : ∀ l ∈ before, ¬ p l = true) (hfound : p found = true) :
    breakAt p (before ++ found :: after) = some (before, found, after) := by
  induction before with
  | nil => simp [breakAt, hfound]
  | cons l rest ih =>
    obtain ⟨hl, hrest⟩ := List.forall_mem_cons.mp hbefore
    simp [breakAt, hl, ih hrest]

theorem class_of_breakAt (h : breakAt p lines = some (before, found, after)) :
    (∀ l ∈ before, ¬ p l = true) ∧ p found = true := by
  induction lines generalizing before with
  | nil => simp [breakAt] at h
  | cons l rest ih =>
    by_cases hl : p l = true
    · rw [breakAt, if_pos hl] at h
      obtain ⟨rfl, hmore⟩ := Prod.mk.inj (Option.some.inj h)
      obtain ⟨rfl, rfl⟩ := Prod.mk.inj hmore
      exact ⟨by simp, hl⟩
    · rw [breakAt, if_neg hl, Option.map_eq_some_iff] at h
      obtain ⟨⟨b, f, a⟩, hbreak, hparts⟩ := h
      obtain ⟨rfl, hmore⟩ := Prod.mk.inj hparts
      obtain ⟨rfl, rfl⟩ := Prod.mk.inj hmore
      obtain ⟨hbefore, hfound⟩ := ih hbreak
      exact ⟨List.forall_mem_cons.mpr ⟨hl, hbefore⟩, hfound⟩

/-- Lines are broken at the first one of a class. -/
theorem breakAt_eq_some_iff (hclass : ∀ l, p l = true ↔ P l) :
    breakAt p lines = some (before, found, after) ↔
      lines = before ++ found :: after ∧ (∀ l ∈ before, ¬ P l) ∧ P found := by
  constructor
  · intro h
    obtain ⟨hbefore, hfound⟩ := class_of_breakAt h
    exact ⟨eq_append_of_breakAt h, fun l hl => mt (hclass l).mpr (hbefore l hl),
      (hclass found).mp hfound⟩
  · rintro ⟨rfl, hbefore, hfound⟩
    exact breakAt_append (fun l hl => mt (hclass l).mp (hbefore l hl)) ((hclass found).mpr hfound)

theorem breakAt_eq_none_iff (hclass : ∀ l, p l = true ↔ P l) :
    breakAt p lines = none ↔ ∀ l ∈ lines, ¬ P l := by
  induction lines with
  | nil => simp [breakAt]
  | cons l rest ih =>
    by_cases hl : p l = true
    · simp [breakAt, hl, (hclass l).mp hl]
    · simp [breakAt, hl, ih, mt (hclass l).mpr hl]

end Breaking

/-- Lines up to the end of a block. -/
theorem breakAt_isCodeEnd_eq_some_iff {lines body after : List Line} {closing : Line} :
    breakAt (isCodeEnd ·.text) lines = some (body, closing, after) ↔
      lines = body ++ closing :: after ∧ (∀ l ∈ body, ¬ IsCodeEnd l.text) ∧
        IsCodeEnd closing.text :=
  breakAt_eq_some_iff fun _ => isCodeEnd_iff

theorem breakAt_isCodeEnd_eq_none_iff {lines : List Line} :
    breakAt (isCodeEnd ·.text) lines = none ↔ ∀ l ∈ lines, ¬ IsCodeEnd l.text :=
  breakAt_eq_none_iff fun _ => isCodeEnd_iff

/-- Lines up to a separator. -/
theorem breakAt_isHeaderSeparator_eq_some_iff {lines body after : List Line} {closing : Line} :
    breakAt (isHeaderSeparator ·.text) lines = some (body, closing, after) ↔
      lines = body ++ closing :: after ∧ (∀ l ∈ body, ¬ IsSeparator l.text) ∧
        IsSeparator closing.text :=
  breakAt_eq_some_iff fun _ => isHeaderSeparator_iff

theorem breakAt_isHeaderSeparator_eq_none_iff {lines : List Line} :
    breakAt (isHeaderSeparator ·.text) lines = none ↔ ∀ l ∈ lines, ¬ IsSeparator l.text :=
  breakAt_eq_none_iff fun _ => isHeaderSeparator_iff

end LiveDoc.Document
