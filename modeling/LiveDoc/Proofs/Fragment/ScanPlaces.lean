import LiveDoc.Proofs.Fragment.ScanEnd
import Mathlib.Logic.Relation

/-!
The places that scanning comes to. Each step of scanning with layout goes on at one place behind
the one before, so the tokens that it gives from a place on are those it gives from the next one.
A string literal goes on behind the end of its line if it begins at such a place.
-/
namespace LiveDoc.Fragment

/-- Where scanning goes on: whether a logical line may begin, and the text that is left. -/
structure Place where
  atStart : Bool
  scanner : Scanner
  text : List Char

namespace Place

def start (code : List Char) : Place := ⟨true, ⟨1, 0, [], []⟩, code⟩

def scan (p : Place) : Except SyntaxError (List Token) :=
  Fragment.scan true p.atStart p.scanner p.text

/-- The place behind the next step of scanning, unless it ends there. -/
def next? (p : Place) : Option Place :=
  match p.text.dropWhile isInlineSpace with
  | [] => none
  | c :: after =>
    if c = '#' then some { p with text := after.dropWhile (· ≠ '\n') }
    else if c = '\n' then
      if p.atStart then some ⟨true, p.scanner.nextLine, after⟩
      else if p.scanner.depth = 0 then some ⟨true, p.scanner.endLine.nextLine, after⟩
      else some ⟨false, p.scanner.nextLine, after⟩
    else if p.atStart then
      (p.scanner.indentTo (indentWidth 0 p.text)).toOption.map fun s => ⟨false, s, c :: after⟩
    else
      match joinSize c after with
      | some size => some ⟨false, p.scanner.nextLine, after.drop size⟩
      | none =>
        (readLexeme c after).toOption.map fun l => ⟨false, p.scanner.add l, after.drop l.size⟩

def Comes (p q : Place) : Prop := Relation.ReflTransGen (fun p q => p.next? = some q) p q

/-- All that a step can do. -/
inductive Step : Place → Place → Prop where
  | comment {atStart : Bool} {s : Scanner} {text after : List Char}
      (hspace : text.dropWhile isInlineSpace = '#' :: after) :
      Step ⟨atStart, s, text⟩ ⟨atStart, s, after.dropWhile (· ≠ '\n')⟩
  | blankLine {s : Scanner} {text after : List Char}
      (hspace : text.dropWhile isInlineSpace = '\n' :: after) :
      Step ⟨true, s, text⟩ ⟨true, s.nextLine, after⟩
  | lineEnd {s : Scanner} {text after : List Char}
      (hspace : text.dropWhile isInlineSpace = '\n' :: after) (hdepth : s.depth = 0) :
      Step ⟨false, s, text⟩ ⟨true, s.endLine.nextLine, after⟩
  | inBrackets {s : Scanner} {text after : List Char}
      (hspace : text.dropWhile isInlineSpace = '\n' :: after) (hdepth : s.depth ≠ 0) :
      Step ⟨false, s, text⟩ ⟨false, s.nextLine, after⟩
  | indent {s t : Scanner} {c : Char} {text after : List Char}
      (hspace : text.dropWhile isInlineSpace = c :: after) (hcomment : c ≠ '#') (hline : c ≠ '\n')
      (hindent : s.indentTo (indentWidth 0 text) = .ok t) :
      Step ⟨true, s, text⟩ ⟨false, t, c :: after⟩
  | join {s : Scanner} {c : Char} {text after : List Char} {size : Nat}
      (hspace : text.dropWhile isInlineSpace = c :: after) (hcomment : c ≠ '#') (hline : c ≠ '\n')
      (hjoin : joinSize c after = some size) :
      Step ⟨false, s, text⟩ ⟨false, s.nextLine, after.drop size⟩
  | lexeme {s : Scanner} {c : Char} {text after : List Char} {l : Lexeme}
      (hspace : text.dropWhile isInlineSpace = c :: after) (hcomment : c ≠ '#') (hline : c ≠ '\n')
      (hjoin : joinSize c after = none) (hread : readLexeme c after = .ok l) :
      Step ⟨false, s, text⟩ ⟨false, s.add l, after.drop l.size⟩

variable {p q : Place}

theorem step_of_next? (h : p.next? = some q) : Step p q := by
  obtain ⟨atStart, s, text⟩ := p
  simp only [next?] at h
  split at h
  · cases h
  · rename_i c after hspace
    split at h
    · rename_i hcomment
      subst hcomment
      cases h
      exact .comment hspace
    · rename_i hcomment
      split at h
      · rename_i hline
        subst hline
        cases atStart with
        | true =>
          cases h
          exact .blankLine hspace
        | false =>
          simp only [Bool.false_eq_true, if_false] at h
          split at h
          · rename_i hdepth
            cases h
            exact .lineEnd hspace hdepth
          · rename_i hdepth
            cases h
            exact .inBrackets hspace hdepth
      · rename_i hline
        cases atStart with
        | true =>
          obtain ⟨t, hindent, rfl⟩ := Outcome.map_toOption_eq_some_iff.mp h
          exact .indent hspace hcomment hline hindent
        | false =>
          simp only [Bool.false_eq_true, if_false] at h
          split at h
          · rename_i hjoin
            cases h
            exact .join hspace hcomment hline hjoin
          · rename_i hjoin
            obtain ⟨l, hread, rfl⟩ := Outcome.map_toOption_eq_some_iff.mp h
            exact .lexeme hspace hcomment hline hjoin hread

/-- A step of scanning leads to the tokens that scanning gives. -/
theorem Step.scan_eq (h : Step p q) : p.scan = q.scan := by
  cases h with
  | comment hspace => exact scan_of_cons hspace
  | blankLine hspace => exact scan_of_cons hspace
  | lineEnd hspace hdepth =>
    refine (scan_of_cons hspace).trans ?_
    simp [hdepth, scan]
  | inBrackets hspace hdepth =>
    refine (scan_of_cons hspace).trans ?_
    simp [hdepth, scan]
  | indent hspace hcomment hline hindent =>
    refine (scan_of_cons hspace).trans ?_
    rw [if_neg hcomment, if_neg hline, if_pos rfl, hindent]
    rfl
  | join hspace hcomment hline hjoin =>
    refine (scan_of_cons hspace).trans ?_
    rw [if_neg hcomment, if_neg hline, hjoin]
    rfl
  | lexeme hspace hcomment hline hjoin hread =>
    refine (scan_of_cons hspace).trans ?_
    rw [if_neg hcomment, if_neg hline, hjoin, hread]
    rfl

/-- Where no step leads on, the text is at its end or cannot be read. -/
theorem scan_of_next?_eq_none (h : p.next? = none) :
    p.text.dropWhile isInlineSpace = [] ∨ ∃ e, p.scan = .error e := by
  obtain ⟨atStart, s, text⟩ := p
  cases hspace : text.dropWhile isInlineSpace with
  | nil => exact .inl rfl
  | cons c after =>
    right
    have hscan : Fragment.scan true atStart s text = _ := scan_of_cons hspace
    simp only [next?, hspace] at h
    split at h
    · cases h
    · rename_i hcomment
      split at h
      · split at h
        · cases h
        · split at h
          · cases h
          · cases h
      · rename_i hline
        rw [if_neg hcomment, if_neg hline] at hscan
        split at h
        · rename_i hstart
          rw [if_pos hstart] at hscan
          cases hindent : s.indentTo (indentWidth 0 text) with
          | ok t =>
            rw [hindent] at h
            cases h
          | error cause =>
            rw [hindent] at hscan
            exact ⟨_, hscan⟩
        · rename_i hstart
          rw [if_neg hstart] at hscan
          split at h
          · cases h
          · rename_i hjoin
            rw [hjoin] at hscan
            cases hread : readLexeme c after with
            | ok l =>
              rw [hread] at h
              cases h
            | error cause =>
              rw [hread] at hscan
              exact ⟨_, hscan⟩

theorem suffix_of_space {text after : List Char} {c : Char}
    (hspace : text.dropWhile isInlineSpace = c :: after) : c :: after <:+ text :=
  hspace ▸ List.dropWhile_suffix _

theorem Step.suffix (h : Step p q) : q.text <:+ p.text := by
  have hbehind : ∀ {text : List Char} {c : Char} {after : List Char},
      text.dropWhile isInlineSpace = c :: after → after <:+ text :=
    fun hspace => (List.suffix_cons _ _).trans (suffix_of_space hspace)
  cases h with
  | comment hspace => exact (List.dropWhile_suffix _).trans (hbehind hspace)
  | blankLine hspace => exact hbehind hspace
  | lineEnd hspace => exact hbehind hspace
  | inBrackets hspace => exact hbehind hspace
  | indent hspace => exact suffix_of_space hspace
  | join hspace => exact (List.drop_suffix _ _).trans (hbehind hspace)
  | lexeme hspace => exact (List.drop_suffix _ _).trans (hbehind hspace)

/-- Each step takes characters, or else the start of the line. -/
theorem Step.size_lt (h : Step p q) :
    2 * q.text.length + q.atStart.toNat < 2 * p.text.length + p.atStart.toNat := by
  have hatMostOne := Bool.toNat_le q.atStart
  have hbehind : ∀ {text : List Char} {c : Char} {after : List Char},
      text.dropWhile isInlineSpace = c :: after → after.length < text.length :=
    fun hspace => (suffix_of_space hspace).length_le
  cases h with
  | @comment _ _ _ after hspace =>
    have hshorter := hbehind hspace
    have hrest := (List.dropWhile_suffix (l := after) (· ≠ '\n')).length_le
    simp only at hrest ⊢
    omega
  | blankLine hspace =>
    have hshorter := hbehind hspace
    simp only
    omega
  | lineEnd hspace =>
    have hshorter := hbehind hspace
    simp only [Bool.toNat_true, Bool.toNat_false]
    omega
  | inBrackets hspace =>
    have hshorter := hbehind hspace
    simp only
    omega
  | indent hspace =>
    have hrest := (suffix_of_space hspace).length_le
    simp only [Bool.toNat_true, Bool.toNat_false]
    omega
  | join hspace =>
    have hshorter := hbehind hspace
    simp only [List.length_drop]
    omega
  | lexeme hspace =>
    have hshorter := hbehind hspace
    simp only [List.length_drop]
    omega

theorem Step.line_le (h : Step p q) : p.scanner.line ≤ q.scanner.line := by
  cases h with
  | comment => exact Nat.le_refl _
  | blankLine => exact Nat.le_succ _
  | lineEnd => exact (Nat.le_succ _).trans_eq (congrArg (· + 1) (Scanner.line_endLine _).symm)
  | inBrackets => exact Nat.le_succ _
  | indent _ _ _ hindent => exact (Scanner.line_of_indentTo hindent).ge
  | join => exact Nat.le_succ _
  | lexeme => exact Nat.le_add_right _ _

theorem Comes.line_le (h : p.Comes q) : p.scanner.line ≤ q.scanner.line := by
  induction h with
  | refl => exact Nat.le_refl _
  | tail _ hnext ih => exact ih.trans (step_of_next? hnext).line_le

theorem Comes.suffix (h : p.Comes q) : q.text <:+ p.text := by
  induction h with
  | refl => exact List.suffix_rfl
  | tail _ hnext ih => exact (step_of_next? hnext).suffix.trans ih

/-- Scanning that gives tokens has come to the end of the text. -/
theorem exists_end {p : Place} {tokens : List Token} (h : p.scan = .ok tokens) :
    ∃ q : Place, p.Comes q ∧ tokens = q.scanner.finish true := by
  cases hnext : p.next? with
  | none =>
    rcases scan_of_next?_eq_none hnext with hblank | ⟨e, he⟩
    · exact ⟨p, .refl, Except.ok.inj (h.symm.trans (scan_of_blank hblank))⟩
    · rw [he] at h
      cases h
  | some r =>
    have hstep := step_of_next? hnext
    have hsize := hstep.size_lt
    obtain ⟨q, hcomes, htokens⟩ := exists_end (hstep.scan_eq.symm.trans h)
    exact ⟨q, .head hnext hcomes, htokens⟩
termination_by 2 * p.text.length + p.atStart.toNat

end Place

end LiveDoc.Fragment
