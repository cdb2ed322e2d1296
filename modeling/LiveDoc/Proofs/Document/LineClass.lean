import LiveDoc.Document.Line
import LiveDoc.Proofs.Text.Runs

/-!
The classes of lines as patterns. Each class is stated by how its lines are written, and the
functions that look at a line from its front on find exactly the lines written in this way.
-/
namespace LiveDoc.Document

open Text

/-! ### Separators -/

/-- Three hyphens, then only white space. -/
def IsSeparator (text : List Char) : Prop :=
  ∃ space, text = ['-', '-', '-'] ++ space ∧ isBlank space = true

theorem isHeaderSeparator_iff {text : List Char} :
    isHeaderSeparator text = true ↔ IsSeparator text := by
  constructor
  · intro h
    unfold isHeaderSeparator at h
    split at h
    · rename_i space
      exact ⟨space, rfl, h⟩
    · simp at h
  · rintro ⟨space, rfl, hspace⟩
    exact hspace

/-! ### Fences -/

/-- Up to three characters of white space, three fence marks, and then `rest`. -/
def IsFence (text rest : List Char) : Prop :=
  ∃ indent a b c, text = indent ++ a :: b :: c :: rest ∧ indent.length ≤ 3 ∧
    isBlank indent = true ∧ isFenceMark a = true ∧ isFenceMark b = true ∧ isFenceMark c = true

/-- A fence with the tag of executable code. -/
def IsCodeStart (text : List Char) : Prop :=
  ∃ space, IsFence text (codeTag ++ space) ∧ isBlank space = true

/-- A fence without a word behind it. -/
def IsCodeEnd (text : List Char) : Prop := ∃ space, IsFence text space ∧ isBlank space = true

theorem exists_indent (most : Nat) (text : List Char) :
    ∃ indent, text = indent ++ dropIndent most text ∧ indent.length ≤ most ∧
      isBlank indent = true := by
  fun_induction dropIndent most text with
  | case1 most c rest hc ih =>
    obtain ⟨indent, htext, hlength, hblank⟩ := ih
    refine ⟨c :: indent, by rw [List.cons_append, ← htext], Nat.succ_le_succ hlength, ?_⟩
    exact isBlank_cons.mpr ⟨hc, hblank⟩
  | case2 most c rest hc => exact ⟨[], rfl, Nat.zero_le _, rfl⟩
  | case3 => exact ⟨[], rfl, Nat.zero_le _, rfl⟩

/-- An indent that is short enough is dropped as a whole. -/
theorem dropIndent_append {most : Nat} {indent rest : List Char} {c : Char}
    (hlength : indent.length ≤ most) (hblank : isBlank indent = true)
    (hc : isWhiteSpace c = false) : dropIndent most (indent ++ c :: rest) = c :: rest := by
  induction indent generalizing most with
  | nil =>
    cases most with
    | zero => rfl
    | succ most => simp [dropIndent, hc]
  | cons d more ih =>
    cases most with
    | zero => simp at hlength
    | succ most =>
      obtain ⟨hd, hmore⟩ := isBlank_cons.mp hblank
      rw [List.cons_append, dropIndent, if_pos hd]
      exact ih (Nat.le_of_succ_le_succ hlength) hmore

theorem not_isWhiteSpace_of_isFenceMark {c : Char} (h : isFenceMark c = true) :
    isWhiteSpace c = false := by
  have hmarks : c = '`' ∨ c = '~' := by simpa [isFenceMark] using h
  rcases hmarks with rfl | rfl <;> decide

theorem afterFence_eq_some_iff {text rest : List Char} :
    afterFence text = some rest ↔ IsFence text rest := by
  constructor
  · intro h
    obtain ⟨indent, htext, hlength, hblank⟩ := exists_indent 3 text
    unfold afterFence at h
    split at h
    · rename_i a b c rest' hdrop
      split at h
      · rename_i hmarks
        obtain rfl := Option.some.inj h
        obtain ⟨⟨ha, hb⟩, hc⟩ := by simpa only [Bool.and_eq_true] using hmarks
        rw [hdrop] at htext
        exact ⟨indent, a, b, c, htext, hlength, hblank, ha, hb, hc⟩
      · simp at h
    · simp at h
  · rintro ⟨indent, a, b, c, rfl, hlength, hblank, ha, hb, hc⟩
    unfold afterFence
    rw [dropIndent_append hlength hblank (not_isWhiteSpace_of_isFenceMark ha)]
    simp [ha, hb, hc]

theorem isCodeStart_iff {text : List Char} : isCodeStart text = true ↔ IsCodeStart text := by
  constructor
  · intro h
    unfold isCodeStart at h
    split at h
    · rename_i rest hfence
      obtain ⟨htag, hblank⟩ := Bool.and_eq_true_iff.mp h
      obtain ⟨space, rfl⟩ := List.isPrefixOf_iff_prefix.mp htag
      rw [List.drop_left] at hblank
      exact ⟨space, afterFence_eq_some_iff.mp hfence, hblank⟩
    · simp at h
  · rintro ⟨space, hfence, hblank⟩
    unfold isCodeStart
    rw [afterFence_eq_some_iff.mpr hfence]
    simp [hblank]

theorem isCodeEnd_iff {text : List Char} : isCodeEnd text = true ↔ IsCodeEnd text := by
  constructor
  · intro h
    unfold isCodeEnd at h
    split at h
    · rename_i rest hfence
      exact ⟨rest, afterFence_eq_some_iff.mp hfence, h⟩
    · simp at h
  · rintro ⟨space, hfence, hblank⟩
    unfold isCodeEnd
    rw [afterFence_eq_some_iff.mpr hfence]
    exact hblank

/-! ### Headings -/

/-- Hashes behind any white space, more white space, and a title that begins with neither. -/
def IsHashHeading (text : List Char) (level : Nat) (title : List Char) : Prop :=
  ∃ indent space, text = indent ++ List.replicate level '#' ++ space ++ title ∧
    isBlank indent = true ∧ 0 < level ∧ isBlank space = true ∧ space ≠ [] ∧
    ∃ c more, title = c :: more ∧ isWhiteSpace c = false

/-- Marks and then white space; the first mark gives the level. -/
def IsUnderline (text : List Char) (level : Nat) : Prop :=
  ∃ first marks space, text = first :: marks ++ space ∧ (∀ c ∈ marks, c = '-' ∨ c = '=') ∧
    isBlank space = true ∧ (first = '=' ∧ level = 1 ∨ first = '-' ∧ level = 2)

theorem hashHeading?_of_runs {indent hashes space title : List Char}
    (hindent : ∀ c ∈ indent, isWhiteSpace c = true)
    (hmarks : ∀ c ∈ (hashes ++ (space ++ title)).head?, isWhiteSpace c = false)
    (hhashes : ∀ c ∈ hashes, decide (c = '#') = true)
    (hrest : ∀ c ∈ (space ++ title).head?, decide (c = '#') = false)
    (hspace : ∀ c ∈ space, isWhiteSpace c = true)
    (htitle : ∀ c ∈ title.head?, isWhiteSpace c = false) :
    hashHeading? (indent ++ (hashes ++ (space ++ title))) =
      if hashes = [] ∨ title = [] ∨ space = [] then none else some (hashes.length, title) := by
  simp only [hashHeading?, dropWhile_run hindent hmarks, takeWhile_run hhashes hrest,
    List.drop_left, dropWhile_run hspace htitle]
  simp [or_assoc]

theorem eq_replicate_of_hashes {hashes : List Char} (h : ∀ c ∈ hashes, decide (c = '#') = true) :
    hashes = List.replicate hashes.length '#' :=
  List.eq_replicate_iff.mpr ⟨rfl, fun c hc => of_decide_eq_true (h c hc)⟩

theorem hashHeading?_eq_some_iff {text title : List Char} {level : Nat} :
    hashHeading? text = some (level, title) ↔ IsHashHeading text level title := by
  constructor
  · intro h
    obtain ⟨indent, marks, rfl, hindent, hmarks⟩ := exists_run isWhiteSpace text
    obtain ⟨hashes, rest, rfl, hhashes, hrest⟩ := exists_run (fun c => decide (c = '#')) marks
    obtain ⟨space, title', rfl, hspace, htitle⟩ := exists_run isWhiteSpace rest
    rw [hashHeading?_of_runs hindent hmarks hhashes hrest hspace htitle] at h
    split at h
    · simp at h
    · rename_i hparts
      obtain ⟨rfl, rfl⟩ := Prod.mk.inj (Option.some.inj h)
      simp only [not_or] at hparts
      obtain ⟨hpos, hsome, hgap⟩ := hparts
      obtain ⟨c, more, rfl⟩ := List.exists_cons_of_ne_nil hsome
      refine ⟨indent, space, ?_, isBlank_iff.mpr hindent, List.length_pos_iff.mpr hpos,
        isBlank_iff.mpr hspace, hgap, c, more, rfl, htitle c rfl⟩
      rw [← eq_replicate_of_hashes hhashes]
      simp only [List.append_assoc]
  · rintro ⟨indent, space, rfl, hindent, hlevel, hspace, hgap, c, more, rfl, hc⟩
    obtain ⟨first, gap, rfl⟩ := List.exists_cons_of_ne_nil hgap
    obtain ⟨level, rfl⟩ := Nat.exists_eq_succ_of_ne_zero (Nat.ne_of_gt hlevel)
    have hfirst := (isBlank_cons.mp hspace).1
    have hmark : decide (first = '#') = false := by
      refine decide_eq_false ?_
      rintro rfl
      exact absurd hfirst (by decide)
    rw [List.append_assoc, List.append_assoc, hashHeading?_of_runs (isBlank_iff.mp hindent)]
    · simp
    · intro d hd
      obtain rfl : '#' = d := by simpa [List.replicate_succ] using hd
      decide
    · simp
    · intro d hd
      obtain rfl : first = d := by simpa using hd
      exact hmark
    · exact isBlank_iff.mp hspace
    · intro d hd
      obtain rfl : c = d := by simpa using hd
      exact hc

theorem isUnderlineMark_iff {c : Char} : isUnderlineMark c = true ↔ c = '-' ∨ c = '=' := by
  simp [isUnderlineMark]

theorem underlineLevel?_eq_some_iff {text : List Char} {level : Nat} :
    underlineLevel? text = some level ↔ IsUnderline text level := by
  constructor
  · intro h
    cases text with
    | nil => simp [underlineLevel?] at h
    | cons first rest =>
      obtain ⟨marks, space, rfl, hmarks, hspace⟩ := exists_run isUnderlineMark rest
      rw [underlineLevel?, dropWhile_run hmarks hspace] at h
      split at h
      · rename_i hline
        obtain ⟨hfirst, hblank⟩ := Bool.and_eq_true_iff.mp hline
        refine ⟨first, marks, space, rfl, fun c hc => isUnderlineMark_iff.mp (hmarks c hc), hblank,
          ?_⟩
        rcases isUnderlineMark_iff.mp hfirst with rfl | rfl
        · exact Or.inr ⟨rfl, (Option.some.inj h).symm⟩
        · exact Or.inl ⟨rfl, (Option.some.inj h).symm⟩
      · simp at h
  · rintro ⟨first, marks, space, rfl, hmarks, hblank, hlevel⟩
    have hstop : ∀ c ∈ space.head?, isUnderlineMark c = false := by
      intro c hc
      have hwhite := isBlank_iff.mp hblank c (List.mem_of_mem_head? hc)
      cases hmark : isUnderlineMark c with
      | false => rfl
      | true => rcases isUnderlineMark_iff.mp hmark with rfl | rfl <;> exact absurd hwhite (by decide)
    rw [List.cons_append, underlineLevel?,
      dropWhile_run (fun c hc => isUnderlineMark_iff.mpr (hmarks c hc)) hstop]
    rcases hlevel with ⟨rfl, rfl⟩ | ⟨rfl, rfl⟩
    · simp [isUnderlineMark, hblank]
    · simp [isUnderlineMark, hblank]

end LiveDoc.Document
