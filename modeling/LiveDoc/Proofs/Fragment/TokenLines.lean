import LiveDoc.Proofs.Fragment.LexemeLines
import LiveDoc.Proofs.Fragment.Scanning
import Mathlib.Data.List.DropRight

/-!
The lines of tokens. While a fragment is cut into tokens the line of the scanner is one more than
the newlines in front of it, whatever these stand in: between statements, in brackets, behind a
backslash, in a comment or in a string. So a token that is written somewhere has the line it is
written on, and every other token, or the error the scanning ends in, has a line of the fragment.
-/
namespace LiveDoc.Fragment

/-- Layout tokens stand for no characters of their own. -/
def Token.Kind.isLayout : Token.Kind → Bool
  | .newline => true
  | .indent => true
  | .dedent => true
  | .eof => true
  | _ => false

/-- Scanning comes behind `before` with the tokens `front`, and what it reads there is `t`. -/
def ReadBehind (code before : List Char) (front : List Token) (t : Token) : Prop :=
  ∃ s c after l, code = before ++ c :: after ∧ tokenize code = scan true false s (c :: after) ∧
    s.tokens.reverse = front ∧ c ≠ '\n' ∧ readLexeme c after = .ok l ∧ t = ⟨s.line, l.kind⟩

/-- The line of a token behind the tokens `front` is one of the fragment, and where the token is
written it is the line of that place. -/
structure Stands (code : List Char) (front : List Token) (t : Token) : Prop where
  one_le : 1 ≤ t.line
  le : t.line ≤ newlines code + 1
  behind : t.kind.isLayout = false →
    ∃ before, ReadBehind code before front t ∧ t.line = newlines before + 1

def AllStand (code : List Char) (tokens : List Token) : Prop :=
  ∀ front t back, tokens = front ++ t :: back → Stands code front t

variable {code before text : List Char} {s : Scanner} {atStart : Bool} {tokens : List Token}

theorem AllStand.nil : AllStand code [] := by
  intro front t back h
  simp at h

theorem AllStand.concat {t : Token} (h : AllStand code tokens) (ht : Stands code tokens t) :
    AllStand code (tokens ++ [t]) := by
  intro front u back hsplit
  rcases List.eq_nil_or_concat back with rfl | ⟨back, last, rfl⟩
  · obtain ⟨rfl, hu⟩ := List.append_inj' hsplit rfl
    cases hu
    exact ht
  · rw [List.concat_eq_append, ← List.cons_append, ← List.append_assoc] at hsplit
    exact h front u back (List.append_inj' hsplit rfl).1

/-- The scanner is on a line of the fragment and all its tokens stand. -/
structure Scanner.Follows (s : Scanner) (code : List Char) : Prop where
  one_le : 1 ≤ s.line
  le : s.line ≤ newlines code + 1
  allStand : AllStand code s.tokens.reverse

namespace Scanner.Follows

theorem push {kind : Token.Kind} (h : s.Follows code) (hkind : kind.isLayout = true) :
    (s.push kind).Follows code where
  one_le := h.one_le
  le := h.le
  allStand := by
    have ht : Stands code s.tokens.reverse ⟨s.line, kind⟩ :=
      ⟨h.one_le, h.le, fun hwritten => by simp [hkind] at hwritten⟩
    simpa [Scanner.push] using h.allStand.concat ht

theorem endLine (h : s.Follows code) : s.endLine.Follows code := by
  unfold Scanner.endLine
  split
  · exact h
  · exact h.push rfl

theorem dedent (h : s.Follows code) (count : Nat) : (s.dedent count).Follows code := by
  induction count generalizing s with
  | zero => exact h
  | succ count ih =>
    have hpopped : ({ s with indents := s.indents.drop 1 } : Scanner).Follows code :=
      ⟨h.one_le, h.le, h.allStand⟩
    exact ih (hpopped.push rfl)

theorem finish (h : s.Follows code) : AllStand code (s.finish true) :=
  ((h.endLine.dedent _).push rfl).allStand

end Scanner.Follows

@[simp] theorem Scanner.line_endLine (s : Scanner) : s.endLine.line = s.line := by
  unfold endLine
  split
  · rfl
  · rfl

theorem Scanner.line_dedent (s : Scanner) (count : Nat) : (s.dedent count).line = s.line := by
  induction count generalizing s with
  | zero => rfl
  | succ count ih => exact ih _

/-- The tokens that the indent of a line gives are on that line. -/
theorem Scanner.Follows.indentTo {t : Scanner} {width : Nat} (h : s.Follows code)
    (ht : s.indentTo width = .ok t) : t.Follows code ∧ t.line = s.line := by
  cases Scanner.indented_of_indentTo ht with
  | deeper =>
    have hopened : ({ s with indents := width :: s.indents } : Scanner).Follows code :=
      ⟨h.one_le, h.le, h.allStand⟩
    exact ⟨hopened.push rfl, rfl⟩
  | reached => exact ⟨h.dedent _, s.line_dedent _⟩

theorem newlines_of_joinSize {c : Char} {after : List Char} {size : Nat}
    (h : joinSize c after = some size) : newlines (c :: after.take size) = 1 := by
  fun_cases joinSize c after with
  | case1 rest =>
    cases h
    rfl
  | case2 rest =>
    cases h
    rfl
  | case3 => simp [joinSize] at h

theorem dropWhile_again {rest : List Char} (h : text.dropWhile isInlineSpace = rest) :
    rest.dropWhile isInlineSpace = rest := by
  rw [← h, List.dropWhile_idempotent]

/-- Scanning comes behind `before`. -/
structure Reached (code before text : List Char) (atStart : Bool) (s : Scanner) : Prop where
  code_eq : code = before ++ text
  line_eq : s.line = newlines before + 1
  allStand : AllStand code s.tokens.reverse
  resumes : tokenize code = scan true atStart s text

namespace Reached

theorem follows (h : Reached code before text atStart s) : s.Follows code where
  one_le := by
    rw [h.line_eq]
    exact Nat.le_add_left _ _
  le := by
    rw [h.line_eq, h.code_eq, newlines_append]
    omega
  allStand := h.allStand

variable {c : Char} {after rest : List Char} {goesOn : Bool} {t : Scanner}

/-- White space inside a line is passed over with what is taken behind it. -/
theorem move (h : Reached code before text atStart s)
    (hspace : text.dropWhile isInlineSpace = c :: after) (taken : List Char)
    (htaken : c :: after = taken ++ rest)
    (hscan : scan true atStart s text = scan true goesOn t rest)
    (hline : t.line = s.line + newlines taken) (htokens : AllStand code t.tokens.reverse) :
    ∃ before, Reached code before rest goesOn t := by
  refine ⟨before ++ (text.takeWhile isInlineSpace ++ taken), ?_, ?_, htokens, ?_⟩
  · rw [h.code_eq, List.append_assoc, List.append_assoc, ← htaken, ← hspace,
      List.takeWhile_append_dropWhile]
  · rw [hline, h.line_eq, newlines_append, newlines_append, newlines_takeWhile (by decide)]
    omega
  · exact h.resumes.trans hscan

/-- Inside a line the white space in front of a token changes nothing. -/
theorem atLexeme (h : Reached code before text false s)
    (hspace : text.dropWhile isInlineSpace = c :: after) :
    ∃ before, Reached code before (c :: after) false s := by
  refine h.move hspace [] rfl ?_ rfl h.allStand
  rw [scan_of_cons hspace, scan_of_cons (dropWhile_again hspace)]
  rfl

theorem comment (h : Reached code before text atStart s)
    (hspace : text.dropWhile isInlineSpace = '#' :: after) :
    ∃ before, Reached code before (after.dropWhile (· ≠ '\n')) atStart s := by
  refine h.move hspace ('#' :: after.takeWhile (· ≠ '\n')) ?_ ?_ ?_ h.allStand
  · rw [List.cons_append, List.takeWhile_append_dropWhile]
  · rw [scan_of_cons hspace, if_pos rfl]
  · rw [newlines_cons_of_ne (by decide), newlines_takeWhile (by decide)]
    rfl

theorem lineEnd (h : Reached code before text atStart s)
    (hspace : text.dropWhile isInlineSpace = '\n' :: after) {u : Scanner} (hu : u.Follows code)
    (hline : u.line = s.line)
    (hscan : scan true atStart s text = scan true goesOn u.nextLine after) :
    ∃ before, Reached code before after goesOn u.nextLine :=
  h.move hspace ['\n'] rfl hscan (by rw [← hline]; rfl) hu.allStand

theorem add {l : Lexeme} (h : Reached code before (c :: after) false s)
    (hspace : (c :: after).dropWhile isInlineSpace = c :: after)
    (hcomment : c ≠ '#') (hline : c ≠ '\n') (hjoin : joinSize c after = none)
    (hread : readLexeme c after = .ok l) :
    ∃ before, Reached code before (after.drop l.size) false (s.add l) := by
  refine h.move hspace (c :: after.take l.size) (by simp) ?_ ?_ ?_
  · rw [scan_of_cons hspace, if_neg hcomment, if_neg hline, if_neg Bool.false_ne_true, hjoin, hread]
    rfl
  · rw [newlines_cons_of_ne hline, ← newlines_of_readLexeme hline hread]
    rfl
  · have ht : Stands code s.tokens.reverse ⟨s.line, l.kind⟩ :=
      ⟨h.follows.one_le, h.follows.le, fun _ =>
        ⟨before, ⟨s, c, after, l, h.code_eq, h.resumes, rfl, hline, hread, rfl⟩, h.line_eq⟩⟩
    simpa [Scanner.add, Scanner.push] using h.allStand.concat ht

end Reached

/-- What scanning gives is on the lines of the fragment. -/
def OnLines (code : List Char) : Except SyntaxError (List Token) → Prop
  | .ok tokens => AllStand code tokens ∧ tokens ≠ []
  | .error e => 1 ≤ e.line ∧ e.line ≤ newlines code + 1

theorem onLines_of_locate {α : Type} {result : Except SyntaxError.Cause α}
    {next : α → Except SyntaxError (List Token)} (h : s.Follows code)
    (hnext : ∀ a, result = .ok a → OnLines code (next a)) :
    OnLines code ((s.locate result).bind next) := by
  cases result with
  | error cause => exact ⟨h.one_le, h.le⟩
  | ok a => exact hnext a rfl

/-- The induction follows the scan, and each step of it keeps the place and its line together. -/
theorem onLines_of_reached (h : Reached code before text atStart s) :
    OnLines code (scan true atStart s text) := by
  fun_induction scan true atStart s text generalizing before with
  | case1 =>
    exact ⟨h.follows.finish, by simp [Scanner.finish, Scanner.push]⟩
  | case2 =>
    rename_i hrest ih
    obtain ⟨before, hnext⟩ := h.comment hrest
    exact ih hnext
  | case3 =>
    rename_i hrest hcomment ih
    obtain ⟨before, hnext⟩ := h.lineEnd hrest h.follows rfl
      (by rw [scan_of_cons hrest, if_neg hcomment, if_pos rfl, if_pos rfl])
    exact ih hnext
  | case4 =>
    rename_i s _ _ _ hstart hdepth hrest hcomment ih
    obtain ⟨before, hnext⟩ := h.lineEnd hrest h.follows.endLine s.line_endLine
      (by rw [scan_of_cons hrest, if_neg hcomment, if_pos rfl, if_neg hstart, if_pos hdepth])
    exact ih hnext
  | case5 =>
    rename_i hstart hdepth hrest hcomment ih
    obtain ⟨before, hnext⟩ := h.lineEnd hrest h.follows rfl
      (by rw [scan_of_cons hrest, if_neg hcomment, if_pos rfl, if_neg hstart, if_neg hdepth])
    exact ih hnext
  | case6 =>
    -- The white space counts for the indent, and scanning goes on behind it.
    rename_i s text _ c after hrest hcomment hline ih
    refine onLines_of_locate h.follows fun t ht => ?_
    obtain ⟨hfollows, hsame⟩ := h.follows.indentTo ht
    have hscan : scan true true s text = scan true false t (c :: after) := by
      rw [scan_of_cons hrest, if_neg hcomment, if_neg hline, if_pos rfl, ht]
      rfl
    obtain ⟨before, hnext⟩ := h.move hrest [] rfl hscan hsame hfollows.allStand
    exact ih t (hrest ▸ hnext)
  | case7 =>
    rename_i atStart s text _ c after hrest hcomment hline hstart size hjoin ih
    have hscan : scan true atStart s text = scan true false s.nextLine (after.drop size) := by
      rw [scan_of_cons hrest, if_neg hcomment, if_neg hline, if_neg hstart, hjoin]
    obtain ⟨before, hnext⟩ := h.move hrest (c :: after.take size) (by simp) hscan
      (by rw [newlines_of_joinSize hjoin]; rfl) h.allStand
    exact ih hnext
  | case8 =>
    rename_i hrest hcomment hline hstart hjoin ih
    refine onLines_of_locate h.follows fun l hread => ?_
    rw [Bool.not_eq_true] at hstart
    subst hstart
    obtain ⟨before, hhere⟩ := h.atLexeme hrest
    obtain ⟨before, hnext⟩ := hhere.add (dropWhile_again hrest) hcomment hline hjoin hread
    exact ih l hnext

theorem onLines_of_tokenize (code : List Char) : OnLines code (tokenize code) := by
  have h : Reached code [] code true ⟨1, 0, [], []⟩ := ⟨rfl, rfl, AllStand.nil, rfl⟩
  exact onLines_of_reached h

end LiveDoc.Fragment
