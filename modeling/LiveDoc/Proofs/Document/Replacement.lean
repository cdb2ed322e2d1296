import LiveDoc.Proofs.Document.Lines

/-!
Replacing parts of a text. The parts are given by their spans, one behind the other, and what
stands between them is kept. Text in front of the first span, and a part that a span covers, can
be split off.
-/
namespace LiveDoc.Document

/-- The first bytes of a text. -/
def takeBytes : Nat → List Char → List Char
  | _, [] => []
  | n, c :: rest => if n = 0 then [] else c :: takeBytes (n - c.utf8Size) rest

/-- What follows the first bytes of a text. -/
def dropBytes : Nat → List Char → List Char
  | _, [] => []
  | n, c :: rest => if n = 0 then c :: rest else dropBytes (n - c.utf8Size) rest

/-- A text that begins at the offset `here` with new text in the place of each of the spans. -/
def replaceSpans (here : Nat) : List (Span × List Char) → List Char → List Char
  | [], text => text
  | (span, new) :: edits, text =>
    takeBytes (span.start - here) text ++ new ++
      replaceSpans span.stop edits (dropBytes (span.stop - here) text)

theorem takeBytes_zero (text : List Char) : takeBytes 0 text = [] := by
  cases text with
  | nil => rfl
  | cons c rest => simp [takeBytes]

theorem dropBytes_zero (text : List Char) : dropBytes 0 text = text := by
  cases text with
  | nil => rfl
  | cons c rest => simp [dropBytes]

theorem takeBytes_append (n : Nat) (a b : List Char) :
    takeBytes (byteLength a + n) (a ++ b) = a ++ takeBytes n b := by
  induction a with
  | nil => simp [byteLength]
  | cons c rest ih =>
    have hsize := c.utf8Size_pos
    have hmore : ¬ c.utf8Size + byteLength rest + n = 0 := by omega
    have hrest : c.utf8Size + byteLength rest + n - c.utf8Size = byteLength rest + n := by omega
    rw [List.cons_append, byteLength, takeBytes, if_neg hmore, hrest, ih, List.cons_append]

theorem dropBytes_append (n : Nat) (a b : List Char) :
    dropBytes (byteLength a + n) (a ++ b) = dropBytes n b := by
  induction a with
  | nil => simp [byteLength]
  | cons c rest ih =>
    have hsize := c.utf8Size_pos
    have hmore : ¬ c.utf8Size + byteLength rest + n = 0 := by omega
    have hrest : c.utf8Size + byteLength rest + n - c.utf8Size = byteLength rest + n := by omega
    rw [List.cons_append, byteLength, dropBytes, if_neg hmore, hrest, ih]

/-- The spans begin at the given offset or behind it. -/
def EditsFrom (low : Nat) (edits : List (Span × List Char)) : Prop :=
  ∀ edit ∈ edits, low ≤ edit.1.start ∧ edit.1.start ≤ edit.1.stop

theorem EditsFrom.of_le {low high : Nat} {edits : List (Span × List Char)}
    (h : EditsFrom high edits) (hle : low ≤ high) : EditsFrom low edits := by
  intro edit hedit
  obtain ⟨hstart, hstop⟩ := h edit hedit
  exact ⟨Nat.le_trans hle hstart, hstop⟩

/-- What no span touches is kept. -/
theorem replaceSpans_keep {here : Nat} {kept tail : List Char} {edits : List (Span × List Char)}
    (h : EditsFrom (here + byteLength kept) edits) :
    replaceSpans here edits (kept ++ tail) =
      kept ++ replaceSpans (here + byteLength kept) edits tail := by
  cases edits with
  | nil => rfl
  | cons edit more =>
    obtain ⟨span, new⟩ := edit
    obtain ⟨hstart, hstop⟩ := h (span, new) List.mem_cons_self
    dsimp only at hstart hstop
    have hbefore : span.start - here =
        byteLength kept + (span.start - (here + byteLength kept)) := by omega
    have hthrough : span.stop - here =
        byteLength kept + (span.stop - (here + byteLength kept)) := by omega
    rw [replaceSpans, hbefore, hthrough, takeBytes_append, dropBytes_append, replaceSpans]
    simp only [List.append_assoc]

/-- What a span covers gives way to the new text. -/
theorem replaceSpans_new {here : Nat} {old new tail : List Char}
    {edits : List (Span × List Char)} :
    replaceSpans here ((⟨here, here + byteLength old⟩, new) :: edits) (old ++ tail) =
      new ++ replaceSpans (here + byteLength old) edits tail := by
  have hthrough : here + byteLength old - here = byteLength old + 0 := by omega
  rw [replaceSpans, Nat.sub_self, takeBytes_zero, hthrough, dropBytes_append, dropBytes_zero,
    List.nil_append]

end LiveDoc.Document
