import LiveDoc.Proofs.Fragment.LineReading
import LiveDoc.Proofs.Fragment.TokenLines

/-!
The sources of the expressions in format strings. They are cut out of the text, so each of them is
shorter than the text, and expressions in expressions come to an end.
-/
namespace LiveDoc.Fragment

/-- The expressions in a format string have sources of less than the given length. -/
def Token.Kind.FieldsBelow (size : Nat) : Token.Kind → Prop
  | .format pieces => ∀ source, .field source ∈ pieces → source.toList.length < size
  | _ => True

theorem Token.Kind.FieldsBelow.mono {size large : Nat} {kind : Token.Kind}
    (h : kind.FieldsBelow size) (hle : size ≤ large) : kind.FieldsBelow large := by
  cases kind with
  | format pieces => exact fun source hsource => (h source hsource).trans_le hle
  | _ => trivial

/-! ### Literals -/

variable {passed text : List Char}

theorem length_source_of_takeField {depth : Nat} {source rest : List Char}
    (h : takeField depth passed text = some (source, rest)) :
    source.length < passed.length + text.length := by
  induction text generalizing depth passed with
  | nil => simp [takeField] at h
  | cons c text ih =>
    rw [takeField] at h
    split at h
    · cases h
      simp
    · have hlength := ih h
      simp only [List.length_cons] at hlength ⊢
      omega

theorem not_mem_literalPiece (passed : List Char) (source : String) :
    .field source ∉ literalPiece passed := by
  unfold literalPiece
  split
  · simp
  · simp

theorem length_field_of_splitFields {pieces : List Piece} {source : String}
    (h : splitFields passed text = .ok pieces) (hsource : .field source ∈ pieces) :
    source.toList.length < text.length := by
  fun_induction splitFields passed text generalizing pieces with
  | case1 => cases h; exact absurd hsource (not_mem_literalPiece _ source)
  | case2 => cases h; exact absurd hsource (not_mem_literalPiece _ source)
  | case3 passed c rest ih => exact Nat.lt_add_right 2 (ih h hsource)
  | case4 passed rest ih => exact Nat.lt_add_right 2 (ih h hsource)
  | case5 passed rest ih => exact Nat.lt_add_right 2 (ih h hsource)
  | case6 => cases h
  | case7 => cases h
  | case8 => cases h
  | case9 passed rest _ field after htake hblank ih =>
    obtain ⟨more, hmore, hpieces⟩ := Outcome.bind_eq_ok_iff.mp h
    cases hpieces
    have hlength := length_source_of_takeField htake
    rcases List.mem_append.mp hsource with hmem | hmem
    · exact absurd hmem (not_mem_literalPiece _ source)
    · rcases List.mem_cons.mp hmem with hsame | hmem
      · cases hsame
        simp only [String.toList_ofList, List.length_cons, List.length_nil] at hlength ⊢
        omega
      · exact (ih hmore hmem).trans (Nat.lt_succ_of_lt (length_of_takeField htake))
  | case10 passed c rest _ _ _ _ _ _ ih => exact Nat.lt_succ_of_lt (ih h hsource)

theorem length_text_of_readBody {keepEscapes : Bool} {q : Quoting} {before body : Body}
    (h : readBody keepEscapes q before text = .ok body) :
    body.text.length ≤ before.text.length + text.length := by
  fun_induction readBody keepEscapes q before text with
  | case1 => cases h
  | case2 => cases h
  | case3 before rest ih => exact (ih h).trans (Nat.add_le_add_left (Nat.le_add_right _ 2) _)
  | case4 before c rest hc added ih =>
    have hadded : added.length ≤ 2 := by
      simp only [added]
      split <;> simp
    refine (ih h).trans ?_
    simp only [List.length_append, List.length_cons]
    omega
  | case5 before rest htriple h1 h2 h3 ih =>
    refine (ih h).trans ?_
    simp only [List.length_cons]
    omega
  | case6 => cases h
  | case7 => cases h; simp
  | case8 before c rest h1 h2 h3 hc hend ih =>
    refine (ih h).trans ?_
    simp only [List.length_cons]
    omega

theorem length_text_of_readQuoted {keepEscapes : Bool} {quote : Char} {body : Body}
    (h : readQuoted keepEscapes quote text = .ok body) : body.text.length ≤ text.length := by
  refine (length_text_of_readBody h).trans ?_
  simp

theorem fieldsBelow_of_readWord {first : Char} {l : Lexeme} (h : readWord first text = .ok l) :
    l.kind.FieldsBelow text.length := by
  have hword (more : List Char) : (wordOf first more).kind.FieldsBelow text.length := by
    unfold wordOf
    split <;> trivial
  cases text with
  | nil =>
    rw [readWord_nil] at h
    cases h
    exact hword []
  | cons d rest =>
    rw [readWord_cons] at h
    split at h
    · obtain ⟨body, pieces, hbody, hpieces, rfl⟩ := readFormat_eq_ok_iff.mp h
      intro source hsource
      have hfield := length_field_of_splitFields hpieces hsource
      have hlength := length_text_of_readQuoted hbody
      simp only [List.length_cons]
      omega
    · cases h
      exact hword _

theorem fieldsBelow_of_readLexeme {c : Char} {l : Lexeme} (h : readLexeme c text = .ok l) :
    l.kind.FieldsBelow (text.length + 1) := by
  rcases isPlain_or_readWord h with hplain | hword
  · generalize l.kind = kind at hplain
    cases hplain <;> trivial
  · exact (fieldsBelow_of_readWord hword).mono (Nat.le_succ _)

/-! ### Texts -/

/-- The tokens that a scanner has. -/
def Scanner.FieldsBelow (size : Nat) (s : Scanner) : Prop :=
  ∀ t ∈ s.tokens, t.kind.FieldsBelow size

namespace Scanner.FieldsBelow

variable {size : Nat} {s : Scanner}

theorem push (h : s.FieldsBelow size) (kind : Token.Kind) (hkind : kind.FieldsBelow size) :
    (s.push kind).FieldsBelow size :=
  List.forall_mem_cons.mpr ⟨hkind, h⟩

theorem endLine (h : s.FieldsBelow size) : s.endLine.FieldsBelow size := by
  unfold Scanner.endLine
  split
  · exact h
  · exact h.push .newline trivial

theorem dedent (h : s.FieldsBelow size) (count : Nat) : (s.dedent count).FieldsBelow size := by
  induction count generalizing s with
  | zero => exact h
  | succ count ih =>
    have hpopped : FieldsBelow size { s with indents := s.indents.drop 1 } := h
    exact ih (hpopped.push .dedent trivial)

theorem indentTo {width : Nat} {t : Scanner} (h : s.FieldsBelow size)
    (ht : s.indentTo width = .ok t) : t.FieldsBelow size := by
  cases Scanner.indented_of_indentTo ht with
  | deeper =>
    have hopened : FieldsBelow size { s with indents := width :: s.indents } := h
    exact hopened.push .indent trivial
  | reached => exact h.dedent _

theorem finish (h : s.FieldsBelow size) (layout : Bool) :
    ∀ t ∈ s.finish layout, t.kind.FieldsBelow size := by
  intro t ht
  rw [Scanner.finish, List.mem_reverse] at ht
  cases layout with
  | false => exact (h.push .eof trivial) t ht
  | true => exact ((h.endLine.dedent _).push .eof trivial) t ht

end Scanner.FieldsBelow

theorem length_le_of_space {c : Char} {after : List Char}
    (hspace : text.dropWhile isInlineSpace = c :: after) : after.length + 1 ≤ text.length := by
  have hlength := (List.dropWhile_suffix (l := text) isInlineSpace).length_le
  rwa [hspace] at hlength

theorem fieldsBelow_of_scan {layout atStart : Bool} {s : Scanner} {tokens : List Token} {size : Nat}
    (hscan : scan layout atStart s text = .ok tokens) (hs : s.FieldsBelow size)
    (hsize : text.length ≤ size) : ∀ t ∈ tokens, t.kind.FieldsBelow size := by
  fun_induction scan layout atStart s text with
  | case1 atStart s text rest hspace =>
    cases hscan
    exact hs.finish layout
  | case2 atStart s text rest after hspace ih =>
    have hlength := (List.dropWhile_suffix (l := after) (· ≠ '\n')).length_le
    have hafter := length_le_of_space hspace
    exact ih hscan hs (by omega)
  | case3 s text rest after hspace hcomment ih =>
    have hafter := length_le_of_space hspace
    exact ih hscan hs (by omega)
  | case4 atStart s text rest after hstart hdepth hspace hcomment ih =>
    have hafter := length_le_of_space hspace
    exact ih hscan hs.endLine (by omega)
  | case5 atStart s text rest after hstart hdepth hspace hcomment ih =>
    have hafter := length_le_of_space hspace
    exact ih hscan hs (by omega)
  | case6 s text rest c after hspace hcomment hline ih =>
    obtain ⟨u, hu, hscan⟩ := Outcome.bind_eq_ok_iff.mp hscan
    cases hindent : s.indentTo (indentWidth 0 text) with
    | error cause =>
      rw [hindent] at hu
      cases hu
    | ok v =>
      rw [hindent] at hu
      cases hu
      have hrest := (List.dropWhile_suffix (l := text) isInlineSpace).length_le
      exact ih _ hscan (hs.indentTo hindent) (hrest.trans hsize)
  | case7 atStart s text rest c after hspace hcomment hline hstart size' hjoin ih =>
    have hafter := length_le_of_space hspace
    have hdrop := List.length_drop (i := size') (l := after)
    exact ih hscan hs (by omega)
  | case8 atStart s text rest c after hspace hcomment hline hstart hjoin ih =>
    obtain ⟨l, hl, hscan⟩ := Outcome.bind_eq_ok_iff.mp hscan
    cases hread : readLexeme c after with
    | error cause =>
      rw [hread] at hl
      cases hl
    | ok l =>
      rw [hread] at hl
      cases hl
      have hafter := length_le_of_space hspace
      have hdrop := List.length_drop (i := l.size) (l := after)
      have hkind := (fieldsBelow_of_readLexeme hread).mono (hafter.trans hsize)
      exact ih l hscan (hs.push _ hkind) (by omega)

end LiveDoc.Fragment
