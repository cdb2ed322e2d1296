import LiveDoc.Proofs.Fragment.ScanPlaces
import LiveDoc.Proofs.Fragment.ScanBehind

/-!
The layout among the tokens of a fragment. Every indent is closed by a dedent behind it, also where
the fragment ends inside blocks, and no more of them are open at a time than the scanner allows for.
An indent begins a logical line. Between a bracket and the one that closes it there is no layout,
for a line end in brackets ends no logical line; brackets that are left open at the end of the
fragment are closed by nothing.
-/
namespace LiveDoc.Fragment

variable {tokens : List Token} {t : Token} {s u : Scanner} {atStart : Bool} {most : Nat}

/-- Nowhere are more indents closed than have been opened, or more than `most` of them open. -/
def Nested (most : Nat) (tokens : List Token) : Prop :=
  ∀ front, front <+: tokens →
    dedentsIn front ≤ indentsIn front ∧ indentsIn front ≤ dedentsIn front + most

/-- An indent is the first token or stands directly behind a newline token. -/
def IndentsBeginLines (tokens : List Token) : Prop :=
  ∀ front t back, tokens = front ++ t :: back → t.kind = .indent →
    ∀ last ∈ front.getLast?, last.kind = .newline

/-- Layout tokens stand where no bracket is open. -/
def LayoutOutside (tokens : List Token) : Prop :=
  ∀ front t back, tokens = front ++ t :: back → t.kind.isLayout = true → depthOver 0 front = 0

/-- Behind the tokens `front`, the bracket `a` opens what `b` closes: up to `b` the brackets are
deeper than in front of `a`, and `b` brings them back to what they were there. -/
structure Encloses (front : List Token) (a : Token) (inner : List Token) (b : Token) : Prop where
  inside : ∀ mid, mid <+: inner → depthOver 0 front < depthOver 0 (front ++ a :: mid)
  closing : depthOver 0 (front ++ a :: (inner ++ [b])) = depthOver 0 front

/-- The layout of a list of tokens is well bracketed. -/
structure WellBracketed (tokens : List Token) : Prop where
  ended : ∃ body last, tokens = body ++ [last] ∧ last.kind = .eof ∧ ∀ t ∈ body, t.kind ≠ .eof
  nested : Nested 100 tokens
  balanced : indentsIn tokens = dedentsIn tokens
  indents : IndentsBeginLines tokens
  brackets : ∀ front a inner b back, tokens = front ++ a :: (inner ++ b :: back) →
    Encloses front a inner b → ∀ t ∈ inner, t.kind.isLayout = false

/-! ### One more token -/

/-- Where two lists of tokens in a row are split, it is in front of a token of the first one or of
the second one. -/
theorem split_append {body closing front back : List Token} {x : Token}
    (h : body ++ closing = front ++ x :: back) :
    (∃ more, body = front ++ x :: more) ∨
      ∃ gap, front = body ++ gap ∧ closing = gap ++ x :: back := by
  rcases List.append_eq_append_iff.mp h with ⟨gap, hfront, hclosing⟩ | ⟨more, hbody, hrest⟩
  · exact .inr ⟨gap, hfront, hclosing⟩
  · cases more with
    | nil => exact .inr ⟨[], by simpa using hbody.symm, hrest.symm⟩
    | cons y more =>
      obtain ⟨rfl, -⟩ := List.cons.inj hrest
      exact .inl ⟨more, hbody⟩

theorem split_concat {front back : List Token} {x : Token}
    (h : tokens ++ [t] = front ++ x :: back) :
    (∃ more, tokens = front ++ x :: more) ∨ (tokens = front ∧ t = x) := by
  refine (split_append h).imp_right fun ⟨gap, hfront, hlast⟩ => ?_
  obtain ⟨rfl, hx⟩ | ⟨-, hnone⟩ := List.append_eq_singleton_iff.mp hlast.symm
  · exact ⟨by simpa using hfront.symm, (List.cons.inj hx).1.symm⟩
  · cases hnone

theorem Nested.concat (h : Nested most tokens)
    (hfew : dedentsIn (tokens ++ [t]) ≤ indentsIn (tokens ++ [t]))
    (hmost : indentsIn (tokens ++ [t]) ≤ dedentsIn (tokens ++ [t]) + most) :
    Nested most (tokens ++ [t]) := by
  intro front hfront
  rcases List.prefix_concat_iff.mp hfront with rfl | hfront
  · exact ⟨hfew, hmost⟩
  · exact h front hfront

theorem IndentsBeginLines.concat (h : IndentsBeginLines tokens)
    (ht : t.kind = .indent → ∀ last ∈ tokens.getLast?, last.kind = .newline) :
    IndentsBeginLines (tokens ++ [t]) := by
  intro front x back hsplit hx
  rcases split_concat hsplit with ⟨back', hinside⟩ | ⟨rfl, rfl⟩
  · exact h front x back' hinside hx
  · exact ht hx

theorem LayoutOutside.concat (h : LayoutOutside tokens)
    (ht : t.kind.isLayout = true → depthOver 0 tokens = 0) : LayoutOutside (tokens ++ [t]) := by
  intro front x back hsplit hx
  rcases split_concat hsplit with ⟨back', hinside⟩ | ⟨rfl, rfl⟩
  · exact h front x back' hinside hx
  · exact ht hx

/-! ### The tokens of a scanner -/

/-- The indents of the tokens are in order. -/
structure Scanner.Levelled (s : Scanner) : Prop where
  sound : s.Sound
  few : s.indents.length ≤ maxIndents
  nested : Nested maxIndents s.tokens.reverse
  indents : IndentsBeginLines s.tokens.reverse

/-- The layout of the tokens is in order, and a logical line may begin only behind another one that
is ended. -/
structure Scanner.LaidOut (atStart : Bool) (s : Scanner) : Prop where
  levelled : s.Levelled
  outside : LayoutOutside s.tokens.reverse
  start : atStart = true → s.depth = 0 ∧ s.lineIsEmpty = true

namespace Scanner.Levelled

/-- A token is read, which may change the open indents. -/
theorem concat (h : s.Levelled) (hu : u.Sound) (hfew : u.indents.length ≤ maxIndents)
    (htokens : u.tokens = t :: s.tokens) (hline : t.kind = .indent → s.lineIsEmpty = true) :
    u.Levelled := by
  have hreverse : u.tokens.reverse = s.tokens.reverse ++ [t] := by rw [htokens, List.reverse_cons]
  have hcount : indentsIn u.tokens.reverse = dedentsIn u.tokens.reverse + u.indents.length := by
    have hopen := hu.indents_eq
    unfold indentsIn dedentsIn at hopen ⊢
    rwa [List.countP_reverse, List.countP_reverse]
  rw [hreverse] at hcount
  refine ⟨hu, hfew, ?_, ?_⟩
  · rw [hreverse]
    exact h.nested.concat (by omega) (by omega)
  · rw [hreverse]
    exact h.indents.concat fun hindent => Scanner.kind_of_lineIsEmpty (hline hindent)

theorem endLine (h : s.Levelled) : s.endLine.Levelled := by
  by_cases hempty : s.lineIsEmpty = true
  · rw [Scanner.endLine, if_pos hempty]
    exact h
  · have hpushed : s.endLine = s.push .newline := if_neg hempty
    have hsound := h.sound.endLine
    rw [hpushed] at hsound ⊢
    exact h.concat hsound h.few rfl (by rintro ⟨⟩)

theorem dedent {count : Nat} (h : s.Levelled) (hcount : count ≤ s.indents.length) :
    (s.dedent count).Levelled := by
  induction count generalizing s with
  | zero => exact h
  | succ count ih =>
    have hone : (s.dedent 1).Sound := h.sound.dedent (by omega)
    have hless : (s.dedent 1).indents.length = s.indents.length - 1 := by
      rw [Scanner.indents_dedent, List.length_drop]
    have hfew := h.few
    have hfirst : (s.dedent 1).Levelled := h.concat hone (by omega) rfl (by rintro ⟨⟩)
    have hrest : count ≤ (s.dedent 1).indents.length := by omega
    exact ih hfirst hrest

end Scanner.Levelled

namespace Scanner.LaidOut

theorem nextLine (h : s.LaidOut atStart) : s.nextLine.LaidOut atStart :=
  ⟨⟨h.levelled.sound.nextLine, h.levelled.few, h.levelled.nested, h.levelled.indents⟩, h.outside,
    h.start⟩

/-- Inside a line there is nothing to say of its start. -/
theorem of_inside (hlevelled : s.Levelled) (houtside : LayoutOutside s.tokens.reverse) :
    s.LaidOut false :=
  ⟨hlevelled, houtside, fun h => absurd h Bool.false_ne_true⟩

theorem inside (h : s.LaidOut atStart) : s.LaidOut false := of_inside h.levelled h.outside

theorem outside_concat (h : s.LaidOut atStart) (htokens : u.tokens = t :: s.tokens)
    (hlayout : t.kind.isLayout = true → s.depth = 0) : LayoutOutside u.tokens.reverse := by
  rw [htokens, List.reverse_cons]
  refine h.outside.concat fun ht => ?_
  rw [← h.levelled.sound.depth_eq]
  exact hlayout ht

theorem lineEnd (h : s.LaidOut atStart) (hdepth : s.depth = 0) :
    s.endLine.nextLine.LaidOut true := by
  have hended : s.endLine.LaidOut false := by
    refine of_inside h.levelled.endLine ?_
    by_cases hempty : s.lineIsEmpty = true
    · rw [Scanner.endLine, if_pos hempty]
      exact h.outside
    · rw [Scanner.endLine, if_neg hempty]
      exact h.outside_concat rfl fun _ => hdepth
  refine ⟨hended.nextLine.levelled, hended.outside, fun _ => ⟨?_, s.lineIsEmpty_endLine⟩⟩
  exact s.depth_endLine.trans hdepth

theorem dedent {count : Nat} (h : s.LaidOut false) (hdepth : s.depth = 0)
    (hcount : count ≤ s.indents.length) : (s.dedent count).LaidOut false := by
  refine of_inside (h.levelled.dedent hcount) ?_
  induction count generalizing s with
  | zero => exact h.outside
  | succ count ih =>
    have hone : (s.dedent 1).LaidOut false :=
      of_inside (h.levelled.dedent (by omega)) (h.outside_concat rfl fun _ => hdepth)
    have hless : count ≤ (s.dedent 1).indents.length := by
      rw [Scanner.indents_dedent, List.length_drop]
      omega
    exact ih hone hdepth hless

theorem indentTo {width : Nat} (h : s.LaidOut true) (hu : s.indentTo width = .ok u) :
    u.LaidOut false := by
  obtain ⟨hdepth, hempty⟩ := h.start rfl
  have hsound := h.levelled.sound.indentTo hu
  cases Scanner.indented_of_indentTo hu with
  | deeper hdeeper hroom =>
    exact of_inside (h.levelled.concat hsound hroom rfl fun _ => hempty)
      (h.outside_concat rfl fun _ => hdepth)
  | reached => exact h.inside.dedent hdepth (List.takeWhile_prefix _).length_le

theorem add {l : Lexeme} (h : s.LaidOut false) (hl : l.kind.isLayout = false) :
    (s.add l).LaidOut false := by
  have hsound := h.levelled.sound.add hl
  refine of_inside (h.levelled.concat (t := ⟨s.line, l.kind⟩) hsound h.levelled.few rfl ?_)
    (h.outside_concat (t := ⟨s.line, l.kind⟩) rfl ?_)
  · intro hindent
    rw [show l.kind = .indent from hindent] at hl
    cases hl
  · intro hlayout
    rw [show l.kind.isLayout = true from hlayout] at hl
    cases hl

end Scanner.LaidOut

/-! ### Scanning -/

namespace Place

variable {p q : Place}

theorem Step.laidOut (h : Step p q) (hp : p.scanner.LaidOut p.atStart) :
    q.scanner.LaidOut q.atStart := by
  cases h with
  | comment => exact hp
  | blankLine => exact hp.nextLine
  | lineEnd _ hdepth => exact hp.lineEnd hdepth
  | inBrackets => exact hp.nextLine
  | indent _ _ _ hindent => exact hp.indentTo hindent
  | join => exact hp.nextLine
  | lexeme _ _ _ _ hread => exact hp.add (isLayout_of_readLexeme hread)

theorem Comes.laidOut (h : p.Comes q) (hp : p.scanner.LaidOut p.atStart) :
    q.scanner.LaidOut q.atStart := by
  induction h with
  | refl => exact hp
  | tail _ hnext ih => exact (step_of_next? hnext).laidOut ih

theorem laidOut_start (code : List Char) :
    (start code).scanner.LaidOut (start code).atStart where
  levelled := by
    refine ⟨⟨rfl, rfl, by simp [start], by simp [start]⟩, Nat.zero_le _, ?_, ?_⟩
    · intro front hfront
      rw [List.prefix_nil.mp hfront]
      exact ⟨Nat.le_refl _, Nat.zero_le _⟩
    · intro front t back hsplit
      simp [start] at hsplit
  outside := by
    intro front t back hsplit
    simp [start] at hsplit
  start _ := ⟨rfl, rfl⟩

end Place

/-- At the end the logical line and the open indents are closed, wherever the brackets are. -/
theorem Scanner.Levelled.finish (h : s.Levelled) :
    Nested maxIndents (s.finish true) ∧ IndentsBeginLines (s.finish true) := by
  have hindents : s.indents.length ≤ s.endLine.indents.length := by rw [Scanner.indents_endLine]
  have hclosed := h.endLine.dedent hindents
  have hfinish : s.finish true =
      (s.endLine.dedent s.indents.length).tokens.reverse ++ [⟨s.line, .eof⟩] := by
    simp [Scanner.finish, Scanner.push, Scanner.line_dedent]
  have hlast := hclosed.nested _ List.prefix_rfl
  rw [hfinish]
  refine ⟨hclosed.nested.concat ?_ ?_, hclosed.indents.concat (by rintro ⟨⟩)⟩
  · simpa [indentsIn, dedentsIn, isIndent, isDedent] using hlast.1
  · simpa [indentsIn, dedentsIn, isIndent, isDedent] using hlast.2

/-- What is added at the end is layout. -/
theorem Scanner.exists_finish (s : Scanner) :
    ∃ closing, (∀ t ∈ closing, t.kind.isLayout = true) ∧
      s.finish true = s.tokens.reverse ++ closing := by
  obtain ⟨gap, hgap, hended⟩ : ∃ gap : List Token, (∀ t ∈ gap, t.kind.isLayout = true) ∧
      s.endLine.tokens.reverse = s.tokens.reverse ++ gap := by
    by_cases hempty : s.lineIsEmpty = true
    · exact ⟨[], by simp, by simp [Scanner.endLine, hempty]⟩
    · exact ⟨[⟨s.line, .newline⟩], by simp [Token.Kind.isLayout],
        by simp [Scanner.endLine, hempty, Scanner.push]⟩
  refine ⟨gap ++ (List.replicate s.indents.length ⟨s.line, .dedent⟩ ++ [⟨s.line, .eof⟩]), ?_, ?_⟩
  · intro t ht
    simp only [List.mem_append, List.mem_replicate, List.mem_singleton] at ht
    rcases ht with ht | ⟨-, rfl⟩ | rfl
    · exact hgap t ht
    · rfl
    · rfl
  · rw [Scanner.finish_eq, hended]
    simp

/-- Between a bracket and the one that closes it no layout token stands outside of brackets, and
none has only layout behind it. -/
theorem Encloses.not_layout {body closing front inner back : List Token} {a b : Token}
    (h : Encloses front a inner b) (hbody : LayoutOutside body)
    (hclosing : ∀ t ∈ closing, t.kind.isLayout = true)
    (hsplit : body ++ closing = front ++ a :: (inner ++ b :: back)) :
    ∀ t ∈ inner, t.kind.isLayout = false := by
  intro t ht
  obtain ⟨before, behind, rfl⟩ := List.append_of_mem ht
  have hdeeper := h.inside before (List.prefix_append _ _)
  have hplace : body ++ closing = (front ++ a :: before) ++ t :: (behind ++ b :: back) := by
    rw [hsplit]
    simp
  by_contra hlayout
  rw [Bool.not_eq_false] at hlayout
  rcases split_append hplace with ⟨more, hinside⟩ | ⟨gap, -, hrest⟩
  · have hzero := hbody _ t more hinside hlayout
    omega
  · -- From `t` to `b` there is only layout, so `b` closes nothing.
    have hquiet : ∀ x ∈ t :: (behind ++ [b]), x.kind.isLayout = true := by
      intro x hx
      refine hclosing x (hrest ▸ List.mem_append_right gap ?_)
      simp only [List.mem_cons, List.mem_append] at hx ⊢
      tauto
    have hparts : front ++ a :: ((before ++ t :: behind) ++ [b]) =
        (front ++ a :: before) ++ t :: (behind ++ [b]) := by simp
    have hsame := h.closing
    rw [hparts, depthOver_append, depthOver_of_layout _ hquiet] at hsame
    omega

/-- The tokens of a fragment end with its only end token, their indents and dedents are balanced
with at most a hundred open at a time, and layout stands neither inside a line nor inside
brackets. -/
theorem wellBracketed_of_tokenize {code : List Char} (h : tokenize code = .ok tokens) :
    WellBracketed tokens := by
  obtain ⟨body, line, rfl, hsealed⟩ := exists_sealed h
  obtain ⟨q, hcomes, hfinish⟩ := Place.exists_end (p := Place.start code) h
  have hq := hcomes.laidOut (Place.laidOut_start code)
  obtain ⟨hnested, hindents⟩ := hq.levelled.finish
  rw [← hfinish] at hnested hindents
  refine ⟨⟨body, _, rfl, rfl, ?_⟩, hnested, ?_, hindents, ?_⟩
  · intro t ht heof
    have hgoesOn := hsealed.goesOn t ht
    rw [heof] at hgoesOn
    cases hgoesOn
  · simpa [indentsIn, dedentsIn, isIndent, isDedent] using hsealed.closes.symm
  · intro front a inner b back hsplit hencloses
    obtain ⟨closing, hclosing, htokens⟩ := q.scanner.exists_finish
    exact hencloses.not_layout hq.outside hclosing (htokens.symm.trans (hfinish.symm.trans hsplit))

/-- Two blocks that end with one line, a line end in brackets, a closing bracket too many, and a
bracket that is still open at the end. -/
def openAtEnd : List Char := "if a:\n\tif b:\n\t  f(1,\n2)\nx = )(\n".toList

theorem wellBracketed_of_open_bracket :
    ∃ tokens, tokenize openAtEnd = .ok tokens ∧ indentsIn tokens = 2 ∧ depthOver 0 tokens = 1 ∧
      WellBracketed tokens := by
  have hcounts : (tokenize openAtEnd).toOption.map
      (fun tokens => (indentsIn tokens, depthOver 0 tokens)) = some (2, 1) := by
    decide +kernel
  obtain ⟨tokens, htokens, hparts⟩ := Outcome.map_toOption_eq_some_iff.mp hcounts
  obtain ⟨hindents, hdepth⟩ := Prod.mk.inj hparts
  exact ⟨tokens, htokens, hindents, hdepth, wellBracketed_of_tokenize htokens⟩

end LiveDoc.Fragment
