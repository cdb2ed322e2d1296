import LiveDoc.Proofs.Document.Acceptance
import Mathlib.Data.List.Chain

/-!
Titles. A line is a heading only if it has something for a title that is not white space, and what
is read of it becomes words with one blank between them. If nothing but white space is read, the
title as it is written stands in for it, so that a heading has a title whatever is read.
-/
namespace LiveDoc

namespace Text

variable {text word : List Char}

/-- The characters of a text that are no white space. -/
def visible (text : List Char) : List Char := text.filter (! isWhiteSpace ·)

theorem visible_append (text more : List Char) :
    visible (text ++ more) = visible text ++ visible more :=
  List.filter_append ..

theorem visible_eq_nil_iff : visible text = [] ↔ isBlank text = true := by
  simp [visible, isBlank]

theorem flatten_pieces (cut : Char → Bool) (text : List Char) :
    (pieces cut text).flatten = text.filter (! cut ·) := by
  induction text with
  | nil => rfl
  | cons c rest ih =>
    rw [pieces] at ih
    rw [pieces, List.foldr_cons, List.filter_cons, ← ih]
    split
    · rename_i hnone
      rw [hnone]
      cases cut c <;> rfl
    · rename_i hsome
      rw [hsome]
      cases cut c <;> rfl

theorem flatten_words (text : List Char) : (words text).flatten = visible text := by
  rw [words, List.flatten_filter_not_isEmpty, flatten_pieces, visible]

/-- Characters in a row without white space. -/
structure IsWord (word : List Char) : Prop where
  some : word ≠ []
  plain : ∀ c ∈ word, isWhiteSpace c = false

theorem isWord_of_mem_words (h : word ∈ words text) : IsWord word where
  some := by
    rintro rfl
    simp [words] at h
  plain c hc := by
    have hmem : c ∈ (words text).flatten := List.mem_flatten_of_mem h hc
    rw [flatten_words, visible, List.mem_filter] at hmem
    simpa using hmem.2

theorem words_eq_nil_iff : words text = [] ↔ isBlank text = true := by
  rw [← visible_eq_nil_iff, ← flatten_words]
  constructor
  · intro h
    rw [h, List.flatten_nil]
  · intro h
    refine List.eq_nil_iff_forall_not_mem.mpr fun word hword => ?_
    exact (isWord_of_mem_words hword).some (List.flatten_eq_nil_iff.mp h word hword)

end Text

namespace Document

open Text

variable {text raw title word : List Char} {words : List (List Char)}

/-! ### The form of titles -/

/-- Words with one blank between them. -/
structure IsTitle (title : List Char) : Prop where
  some : title ≠ []
  front : ∀ c ∈ title.head?, isWhiteSpace c = false
  back : ∀ c ∈ title.getLast?, isWhiteSpace c = false
  blanks : ∀ c ∈ title, isWhiteSpace c = true → c = ' '
  single : title.IsChain fun c d => ¬ (isWhiteSpace c = true ∧ isWhiteSpace d = true)

theorem isTitle_of_isWord (h : IsWord word) : IsTitle word where
  some := h.some
  front c hc := h.plain c (List.mem_of_mem_head? hc)
  back c hc := h.plain c (List.mem_of_mem_getLast? hc)
  blanks c hc hspace := by
    rw [h.plain c hc] at hspace
    cases hspace
  single := by
    refine List.Pairwise.isChain (List.pairwise_of_forall_mem_list fun c hc d _ => ?_)
    simp [h.plain c hc]

/-- Another word in front of a title. -/
theorem IsTitle.cons (hword : IsWord word) (h : IsTitle title) :
    IsTitle (word ++ ' ' :: title) where
  some := by simp
  front c hc := by
    rw [List.head?_append_of_ne_nil _ hword.some] at hc
    exact hword.plain c (List.mem_of_mem_head? hc)
  back c hc := by
    rw [List.getLast?_append_of_ne_nil _ (List.cons_ne_nil _ _),
      ← List.singleton_append, List.getLast?_append_of_ne_nil _ h.some] at hc
    exact h.back c hc
  blanks c hc hspace := by
    rcases List.mem_append.mp hc with hc | hc
    · rw [hword.plain c hc] at hspace
      cases hspace
    · rcases List.mem_cons.mp hc with rfl | hc
      · rfl
      · exact h.blanks c hc hspace
  single := by
    rw [List.isChain_append, List.isChain_cons]
    refine ⟨(isTitle_of_isWord hword).single, ⟨?_, h.single⟩, ?_⟩
    · rintro d hd ⟨-, hspace⟩
      rw [h.front d hd] at hspace
      cases hspace
    · rintro c hc d - ⟨hspace, -⟩
      rw [hword.plain c (List.mem_of_mem_getLast? hc)] at hspace
      cases hspace

theorem isTitle_join (hsome : words ≠ []) (hwords : ∀ word ∈ words, IsWord word) :
    IsTitle (words.intersperse [' ']).flatten := by
  induction words with
  | nil => exact absurd rfl hsome
  | cons word rest ih =>
    obtain ⟨hword, hrest⟩ := List.forall_mem_cons.mp hwords
    cases rest with
    | nil => simpa using isTitle_of_isWord hword
    | cons next more =>
      have htitle := (ih (List.cons_ne_nil next more) hrest).cons hword
      simpa using htitle

theorem isTitle_normalizeTitle (h : isBlank text = false) : IsTitle (normalizeTitle text) := by
  refine isTitle_join ?_ fun word hword => isWord_of_mem_words hword
  rw [Ne, words_eq_nil_iff, h]
  exact Bool.false_ne_true

/-! ### What becomes a title -/

theorem visible_join (words : List (List Char)) :
    visible (words.intersperse [' ']).flatten = visible words.flatten := by
  induction words with
  | nil => rfl
  | cons word rest ih =>
    cases rest with
    | nil => rfl
    | cons next more =>
      have hblank : visible [' '] = [] := by decide
      rw [List.intersperse_cons_cons, List.flatten_cons, List.flatten_cons, visible_append,
        visible_append, hblank, List.nil_append, ih, ← visible_append, ← List.flatten_cons]

theorem visible_normalizeTitle (text : List Char) :
    visible (normalizeTitle text) = visible text := by
  rw [normalizeTitle, visible_join, flatten_words]
  simp [visible]

theorem isEmpty_normalizeTitle (text : List Char) :
    (normalizeTitle text).isEmpty = isBlank text := by
  cases hblank : isBlank text with
  | true =>
    rw [normalizeTitle, words_eq_nil_iff.mpr hblank]
    rfl
  | false => simpa using (isTitle_normalizeTitle hblank).some

/-- The text that is read becomes the title, or the raw one if that text is blank. -/
theorem titleOfEvents_eq (raw : List Char) (events : List HeadingEvent) :
    titleOfEvents raw events =
      normalizeTitle (if isBlank (headingText false events) then raw
        else headingText false events) := by
  simp only [titleOfEvents, isEmpty_normalizeTitle]
  split
  · rfl
  · rfl

theorem isTitle_titleOfEvents (hraw : isBlank raw = false) (events : List HeadingEvent) :
    IsTitle (titleOfEvents raw events) := by
  rw [titleOfEvents_eq]
  refine isTitle_normalizeTitle ?_
  split
  · exact hraw
  · rename_i htext
    exact Bool.not_eq_true _ ▸ htext

/-! ### Headings -/

/-- The title as it is written: what stands behind the hashes, or the line above the underline. -/
def Heading.rawTitle (heading : Heading) : List Char :=
  match heading.style with
  | .atx => ((hashHeading? heading.first.text).map Prod.snd).getD []
  | .setext => heading.first.text

theorem Heading.Fits.title_eq {heading : Heading} (h : heading.Fits) :
    heading.title = String.ofList (plainTitle heading.rawTitle) := by
  cases h with
  | hashes hhash => simp [rawTitle, hashHeading?_eq_some_iff.mpr hhash]
  | underlined => rfl

theorem Heading.Fits.rawTitle_not_blank {heading : Heading} (h : heading.Fits) :
    isBlank heading.rawTitle = false := by
  cases h with
  | hashes hhash =>
    obtain ⟨-, -, -, -, -, -, -, c, more, rfl, hc⟩ := id hhash
    simp [rawTitle, hashHeading?_eq_some_iff.mpr hhash, isBlank, hc]
  | underlined hnone hblank => exact hblank

/-- Whatever is met in the headings of a document, each of its sections has a title: words with one
blank between them, which hold all that is visible in the text that is read or, if nothing is, in
the title as it is written. -/
theorem titles_of_parse {text : List Char} {d : Document} (h : parse text = .ok d) :
    ∀ part ∈ d.sections,
      part.heading.title = String.ofList (plainTitle part.heading.rawTitle) ∧
      IsTitle part.heading.title.toList ∧
      ∀ events, IsTitle (titleOfEvents part.heading.rawTitle events) ∧
        visible (titleOfEvents part.heading.rawTitle events) =
          visible (if isBlank (headingText false events) then part.heading.rawTitle
            else headingText false events) := by
  intro part hpart
  have hfits := heading_of_sectionsFit (wellFormed_of_parse h).fits.sections part hpart
  have htitle := isTitle_titleOfEvents hfits.rawTitle_not_blank
  refine ⟨hfits.title_eq, ?_, fun events => ⟨htitle events, ?_⟩⟩
  · rw [hfits.title_eq, String.toList_ofList]
    exact htitle _
  · rw [titleOfEvents_eq, visible_normalizeTitle]

/-- HTML only behind the hashes, and white space of other kinds over an underline. -/
def bareMarkup : List Char := "# <br>\n\u00a0A\t \u2003`b`\n===\n".toList

theorem titles_of_bareMarkup :
    ∃ d, parse bareMarkup = .ok d ∧
      d.sections.map (fun part => part.heading.rawTitle) =
        ["<br>".toList, "\u00a0A\t \u2003`b`".toList] ∧
      titleOfEvents "<br>".toList [.headingStart, .other, .headingEnd] = "<br>".toList ∧
      titleOfEvents "\u00a0A\t \u2003`b`".toList
        [.headingStart, .text "A\t \u2003".toList, .code ['b'], .headingEnd] = "A b".toList ∧
      ∀ part ∈ d.sections, IsTitle part.heading.title.toList ∧
        ∀ events, IsTitle (titleOfEvents part.heading.rawTitle events) := by
  obtain ⟨d, hd⟩ := Outcome.isOk_iff_exists.mp
    (show (parse bareMarkup).isOk = true by decide +kernel)
  have hraw : (parse bareMarkup).toOption.map
      (fun d => d.sections.map fun part => part.heading.rawTitle) =
        some ["<br>".toList, "\u00a0A\t \u2003`b`".toList] := by
    decide +kernel
  have htitles := titles_of_parse hd
  rw [hd] at hraw
  exact ⟨d, hd, Option.some.inj hraw, by decide +kernel, by decide +kernel, fun part hpart =>
    ⟨(htitles part hpart).2.1, fun events => ((htitles part hpart).2.2 events).1⟩⟩

end Document

end LiveDoc
