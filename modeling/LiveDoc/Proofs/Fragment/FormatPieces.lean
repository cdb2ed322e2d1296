import LiveDoc.Proofs.Fragment.Prose
import Mathlib.Algebra.Ring.Int.Defs
import Mathlib.Data.List.Chain
import Mathlib.Data.List.Infix

/-!
Format strings written and read back. A literal is written character by character, and an expression
between curly brackets. If the brackets of an expression are closed within it, its field ends at
the bracket that was written behind it, and so a format string has the very pieces it was written
from. The literals are not empty and no two of them are adjacent, since such pieces would be read
as one or not at all.
-/
namespace LiveDoc.Fragment

/-! ### Brackets in the source of an expression -/

/-- What a character adds to the number of open brackets. -/
def bracketStep (c : Char) : Int :=
  if c = '(' ∨ c = '[' ∨ c = '\x7b' then 1
  else if c = ')' ∨ c = ']' ∨ c = '\x7d' then -1
  else 0

def bracketSum (text : List Char) : Int := (text.map bracketStep).sum

theorem bracketSum_cons (c : Char) (text : List Char) :
    bracketSum (c :: text) = bracketStep c + bracketSum text := by
  simp [bracketSum]

/-- No bracket is closed that is not open, and behind the text all are closed. -/
structure Balanced (text : List Char) : Prop where
  front : ∀ front, front <+: text → 0 ≤ bracketSum front
  whole : bracketSum text = 0

instance : DecidablePred Balanced := fun text =>
  decidable_of_iff ((∀ front ∈ text.inits, 0 ≤ bracketSum front) ∧ bracketSum text = 0)
    ⟨fun h => ⟨fun front hfront => h.1 front ((List.mem_inits _ _).mpr hfront), h.2⟩,
      fun h => ⟨fun front hfront => h.front front ((List.mem_inits _ _).mp hfront), h.whole⟩⟩

theorem fieldDepth_eq {depth : Nat} {c : Char} (h : 0 ≤ (depth : Int) + bracketStep c) :
    (fieldDepth depth c : Int) = depth + bracketStep c := by
  simp only [fieldDepth, bracketStep, Bool.or_eq_true, decide_eq_true_eq, or_assoc] at h ⊢
  split at h
  · rename_i hopen
    rw [if_pos hopen, if_pos hopen]
    omega
  · rename_i hopen
    rw [if_neg hopen, if_neg hopen]
    split at h
    · rename_i hclose
      rw [if_pos hclose, if_pos hclose]
      omega
    · rename_i hclose
      rw [if_neg hclose, if_neg hclose]
      omega

/-- Behind the brackets that are open a field goes on up to the bracket that closes none of them. -/
theorem takeField_of_open {source rest : List Char} {depth : Nat} (passed : List Char)
    (hfront : ∀ front, front <+: source → 0 ≤ (depth : Int) + bracketSum front)
    (hwhole : (depth : Int) + bracketSum source = 0) :
    takeField depth passed (source ++ '\x7d' :: rest) = some (passed.reverse ++ source, rest) := by
  induction source generalizing depth passed with
  | nil =>
    have hdepth : depth = 0 := by simpa [bracketSum] using hwhole
    simp [takeField, hdepth]
  | cons c source ih =>
    have hstep : 0 ≤ (depth : Int) + bracketStep c := by
      simpa [bracketSum] using hfront [c] (by simp)
    have hdepth := fieldDepth_eq hstep
    have hopen : ¬ (decide (c = '\x7d') && decide (depth = 0)) = true := by
      simp only [Bool.and_eq_true, decide_eq_true_eq]
      rintro ⟨rfl, rfl⟩
      exact absurd hstep (by decide)
    rw [List.cons_append, takeField, if_neg hopen, ih (c :: passed)]
    · simp
    · intro front hprefix
      have hnext := hfront (c :: front) (by simpa using hprefix)
      rw [bracketSum_cons] at hnext
      omega
    · rw [bracketSum_cons] at hwhole
      omega

theorem takeField_balanced {source : List Char} (h : Balanced source) (rest : List Char) :
    takeField 0 [] (source ++ '\x7d' :: rest) = some (source, rest) :=
  takeField_of_open [] (by simpa using h.front) (by simpa using h.whole)

/-! ### Pieces -/

namespace Piece

def written : Piece → List Char
  | literal text => text.toList.flatMap inFormatString
  | field source => '\x7b' :: (source.toList ++ ['\x7d'])

def isLiteral : Piece → Bool
  | literal _ => true
  | field _ => false

/-- The source of an expression that can stand between curly brackets as it is. -/
structure Enclosable (source : List Char) : Prop where
  notBlank : Text.isBlank source = false
  plain : ∀ c ∈ source, c ≠ '"' ∧ c ≠ '\\' ∧ c ≠ '\n'
  notOpened : source.head? ≠ some '\x7b'
  balanced : Balanced source

instance : DecidablePred Enclosable := fun source =>
  have := List.decidableBAll (fun c => c ≠ '"' ∧ c ≠ '\\' ∧ c ≠ '\n') source
  decidable_of_iff
    (Text.isBlank source = false ∧ (∀ c ∈ source, c ≠ '"' ∧ c ≠ '\\' ∧ c ≠ '\n') ∧
      source.head? ≠ some '\x7b' ∧ Balanced source)
    ⟨fun h => ⟨h.1, h.2.1, h.2.2.1, h.2.2.2⟩,
      fun h => ⟨h.notBlank, h.plain, h.notOpened, h.balanced⟩⟩

/-- A literal that is not empty, or an expression that can be enclosed. -/
def Writable : Piece → Prop
  | literal text => text ≠ ""
  | field source => Enclosable source.toList

instance : DecidablePred Writable
  | literal text => inferInstanceAs (Decidable (text ≠ ""))
  | field source => inferInstanceAs (Decidable (Enclosable source.toList))

theorem passedOver_written {piece : Piece} (h : piece.Writable) :
    PassedOver true '"' piece.written piece.written := by
  cases piece with
  | literal text => exact .flatMap fun c _ => quotable_inFormatString.reads c
  | field source =>
    have hsource : PassedOver true '"' source.toList source.toList := by
      have hall : PassedOver true '"' (source.toList.flatMap fun c => [c])
          (source.toList.flatMap fun c => [c]) :=
        .flatMap fun c hc => .plain (h.plain c hc).2.1 (h.plain c hc).2.2 (h.plain c hc).1
      rwa [List.flatMap_singleton'] at hall
    exact (PassedOver.plain (by decide) (by decide) (by decide)).append
      (hsource.append (.plain (by decide) (by decide) (by decide)))

theorem head_written (piece : Piece) : ∀ c ∈ piece.written.head?, c ≠ '"' := by
  cases piece with
  | literal text => exact head_flatMap_ne fun c _ => quotable_inFormatString.first c
  | field source =>
    simp [written]

end Piece

theorem splitFields_field {source : List Char} (h : Piece.Enclosable source)
    (passed rest : List Char) :
    splitFields passed ('\x7b' :: (source ++ '\x7d' :: rest)) =
      (splitFields [] rest).map fun pieces =>
        literalPiece passed ++ .field (String.ofList source) :: pieces := by
  obtain ⟨c, more, rfl⟩ : ∃ c more, source = c :: more := by
    refine List.exists_cons_of_ne_nil ?_
    rintro rfl
    exact absurd h.notBlank (by decide)
  have hc : c ≠ '\x7b' := by
    rintro rfl
    exact h.notOpened rfl
  have htake := takeField_balanced h.balanced rest
  rw [List.cons_append] at htake ⊢
  rw [splitFields]
  · split
    · rename_i hnone
      rw [htake] at hnone
      cases hnone
    · rename_i hsome
      rw [htake] at hsome
      cases hsome
      rw [h.notBlank]
      cases splitFields [] rest <;> rfl
  · rintro after hopened
    exact hc (List.cons.inj hopened).1

/-- The pieces of which the first may follow the characters passed, which are of a literal. -/
theorem splitFields_written {pieces : List Piece} (hpieces : ∀ piece ∈ pieces, piece.Writable)
    (hapart : pieces.IsChain fun first second => ¬ (first.isLiteral ∧ second.isLiteral))
    (passed : List Char) (hpassed : passed = [] ∨ ∀ piece ∈ pieces.head?, ¬ piece.isLiteral) :
    splitFields passed (pieces.flatMap Piece.written) = .ok (literalPiece passed ++ pieces) := by
  induction pieces generalizing passed with
  | nil => simp [splitFields]
  | cons piece rest ih =>
    obtain ⟨hpiece, hrest⟩ := List.forall_mem_cons.mp hpieces
    have hnext := ih hrest hapart.tail
    rw [List.flatMap_cons]
    cases piece with
    | literal text =>
      obtain rfl : passed = [] := hpassed.resolve_right fun hfirst => hfirst _ rfl rfl
      have hsome : text.toList ≠ [] := by
        rw [Ne, String.toList_eq_nil_iff]
        exact hpiece
      have hbehind : ∀ next ∈ rest.head?, ¬ next.isLiteral := by
        intro next hmem hliteral
        obtain ⟨others, rfl⟩ := List.head?_eq_some_iff.mp hmem
        exact (List.isChain_cons_cons.mp hapart).1 ⟨rfl, hliteral⟩
      rw [Piece.written, splitFields_flatMap, hnext _ (.inr hbehind)]
      simp [literalPiece, hsome]
    | field source =>
      have hfield := splitFields_field hpiece passed (rest.flatMap Piece.written)
      rw [Piece.written, List.cons_append, List.append_assoc, List.singleton_append, hfield,
        hnext [] (.inl rfl)]
      simp [Except.map, literalPiece]

/-! ### Format strings -/

/-- A format string in double quotes that is written from the pieces. -/
def formatString (pieces : List Piece) : List Char :=
  'f' :: '"' :: (pieces.flatMap Piece.written ++ ['"'])

theorem readLexeme_formatString {pieces : List Piece}
    (hpieces : ∀ piece ∈ pieces, piece.Writable)
    (hapart : pieces.IsChain fun first second => ¬ (first.isLiteral ∧ second.isLiteral)) :
    readLexeme 'f' ('"' :: (pieces.flatMap Piece.written ++ ['"'])) =
      .ok ⟨.format pieces, 1 + ((pieces.flatMap Piece.written).length + 1), 0⟩ := by
  have hover : PassedOver true '"' (pieces.flatMap Piece.written)
      (pieces.flatMap Piece.written) :=
    .flatMap fun piece hpiece => Piece.passedOver_written (hpieces piece hpiece)
  have hbody : readQuoted true '"' (pieces.flatMap Piece.written ++ ['"']) = _ :=
    hover.readQuoted (by decide) (head_flatMap_ne fun piece _ => piece.head_written) (by simp)
  have hsplit := splitFields_written hpieces hapart [] (.inl rfl)
  change (readQuoted true '"' (pieces.flatMap Piece.written ++ ['"']) >>= fun body =>
    splitFields [] body.text >>= fun pieces =>
      .ok (Lexeme.mk (.format pieces) (1 + body.size) body.newlines)) = _
  rw [hbody]
  change (splitFields [] (pieces.flatMap Piece.written) >>= fun pieces => _) = _
  rw [hsplit]
  rfl

theorem tokenize_formatString {pieces : List Piece} (hpieces : ∀ piece ∈ pieces, piece.Writable)
    (hapart : pieces.IsChain fun first second => ¬ (first.isLiteral ∧ second.isLiteral)) :
    tokenize (formatString pieces) =
      .ok [⟨1, .format pieces⟩, ⟨1, .newline⟩, ⟨1, .eof⟩] := by
  have hend : ('"' :: (pieces.flatMap Piece.written ++ ['"'])).drop
      (1 + ((pieces.flatMap Piece.written).length + 1)) = [] := by
    simp [Nat.add_comm]
  rw [tokenize, formatString, scan_lineStart (by decide) (by decide) (by decide)]
  change scan true false ⟨1, 0, [], []⟩ _ = _
  rw [scan_lexeme (by decide) (by decide) (by decide) rfl
    (readLexeme_formatString hpieces hapart), hend, scan_nil]
  rfl

theorem tokenize_formatString_seams :
    tokenize (formatString [.literal "a\x7b\"\n\x7d", .field "f(\x7b'x': [1]\x7d)", .field "b",
        .literal "\x7d\\\r"]) =
      .ok [⟨1, .format [.literal "a\x7b\"\n\x7d", .field "f(\x7b'x': [1]\x7d)", .field "b",
        .literal "\x7d\\\r"]⟩, ⟨1, .newline⟩, ⟨1, .eof⟩] :=
  tokenize_formatString (by decide +kernel) (by simp [Piece.isLiteral])

end LiveDoc.Fragment
