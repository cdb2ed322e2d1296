import LiveDoc.Proofs.Fragment.LexemeLines
import LiveDoc.Proofs.Text.Runs

/-!
Reading a token in front of the end of a line. Numbers, words and symbols stop there, and a string
literal is read from its own characters, whatever stands behind its closing quotes. So a token that
takes no newline is the same whether its line ends with a newline, with a carriage return in front
of the newline, or with the text.
-/
namespace LiveDoc.Fragment

/-- Nothing, or a text in front of which a run of characters of one line breaks off. -/
def BreaksOff (rest : List Char) : Prop := ∀ c ∈ rest.head?, c = '\n' ∨ c = '\r'

theorem BreaksOff.stops {rest : List Char} (h : BreaksOff rest) {p : Char → Bool}
    (hnewline : p '\n' = false) (hreturn : p '\r' = false) : ∀ c ∈ rest.head?, p c = false := by
  intro c hc
  rcases h c hc with rfl | rfl
  · exact hnewline
  · exact hreturn

/-- What stands behind the characters of a line. -/
inductive AtLineEnd : List Char → Prop where
  | nothing : AtLineEnd []
  | newline (rest : List Char) : AtLineEnd ('\n' :: rest)
  | returned (rest : List Char) : AtLineEnd ('\r' :: '\n' :: rest)

theorem AtLineEnd.breaksOff {rest : List Char} (h : AtLineEnd rest) : BreaksOff rest := by
  cases h with
  | nothing => simp [BreaksOff]
  | newline => simp [BreaksOff]
  | returned => simp [BreaksOff]

variable {text rest : List Char} {c : Char}

/-! ### Number literals -/

theorem digitsLength_le (text : List Char) : digitsLength text ≤ text.length :=
  (List.takeWhile_prefix _).length_le

theorem digitsLength_append (h : BreaksOff rest) (text : List Char) :
    digitsLength (text ++ rest) = digitsLength text := by
  rw [digitsLength, digitsLength,
    Text.takeWhile_append_of_head (h.stops (by decide) (by decide)) text]

theorem fractionLength_of_ne (hc : c ≠ '.') (rest : List Char) :
    fractionLength (c :: rest) = 0 := by
  unfold fractionLength
  split
  · rename_i hpoint
    exact absurd (List.cons.inj hpoint).1 hc
  · rename_i hpoint
    exact absurd (List.cons.inj hpoint).1 hc
  · rfl

theorem fractionLength_le (text : List Char) : fractionLength text ≤ text.length := by
  fun_cases fractionLength text with
  | case2 c rest =>
    have hdigits := digitsLength_le (c :: rest)
    simp only [List.length_cons] at hdigits ⊢
    omega
  | _ => simp

theorem fractionLength_append (h : BreaksOff rest) (text : List Char) :
    fractionLength (text ++ rest) = fractionLength text := by
  have hdigit := h.stops (p := Char.isDigit) (by decide) (by decide)
  have hletter := h.stops (p := Text.isAlphabetic) (by decide) (by decide)
  have hpoint := h.stops (p := (· = '.')) (by decide) (by decide)
  cases text with
  | nil =>
    cases rest with
    | nil => rfl
    | cons d more => exact fractionLength_of_ne (by simpa using hpoint d rfl) more
  | cons c more =>
    by_cases hc : c = '.'
    · subst hc
      cases more with
      | nil =>
        cases rest with
        | nil => rfl
        | cons d rest => simp [fractionLength, hdigit d rfl, hletter d rfl]
      | cons d more =>
        have hdigits := digitsLength_append h (d :: more)
        simp only [List.cons_append] at hdigits ⊢
        simp [fractionLength, hdigits]
    · rw [List.cons_append, fractionLength_of_ne hc, fractionLength_of_ne hc]

/-- The sign of an exponent is no part of its digits. -/
def behindSign : List Char → List Char
  | '+' :: after => after
  | '-' :: after => after
  | text => text

theorem behindSign_of_ne (hplus : c ≠ '+') (hminus : c ≠ '-') (rest : List Char) :
    behindSign (c :: rest) = c :: rest := by
  rw [behindSign]
  · exact fun after h => hplus (List.cons.inj h).1
  · exact fun after h => hminus (List.cons.inj h).1

theorem behindSign_le (text : List Char) : (behindSign text).length ≤ text.length := by
  fun_cases behindSign text with
  | case1 => simp
  | case2 => simp
  | case3 => exact Nat.le_refl _

theorem behindSign_append (h : BreaksOff rest) (text : List Char) :
    behindSign (text ++ rest) = behindSign text ++ rest := by
  have hplus := h.stops (p := (· = '+')) (by decide) (by decide)
  have hminus := h.stops (p := (· = '-')) (by decide) (by decide)
  cases text with
  | nil =>
    cases rest with
    | nil => rfl
    | cons d more =>
      exact behindSign_of_ne (by simpa using hplus d rfl) (by simpa using hminus d rfl) more
  | cons c more =>
    by_cases hp : c = '+'
    · subst hp
      rfl
    · by_cases hm : c = '-'
      · subst hm
        rfl
      · rw [List.cons_append, behindSign_of_ne hp hm, behindSign_of_ne hp hm, List.cons_append]

theorem exponentLength_cons (e : Char) (rest : List Char) :
    exponentLength (e :: rest) =
      if e = 'e' || e = 'E' then
        if (behindSign rest).head?.any Char.isDigit then
          1 + (rest.length - (behindSign rest).length) + digitsLength (behindSign rest)
        else 0
      else 0 := by
  fun_cases behindSign rest with
  | case1 after => rfl
  | case2 after => rfl
  | case3 rest hplus hminus => simp [exponentLength]

theorem exponentLength_le (text : List Char) : exponentLength text ≤ text.length := by
  cases text with
  | nil => exact Nat.le_refl _
  | cons e rest =>
    have hsign := behindSign_le rest
    have hdigits := digitsLength_le (behindSign rest)
    rw [exponentLength_cons, List.length_cons]
    split
    · split
      · omega
      · omega
    · omega

theorem exponentLength_append (h : BreaksOff rest) (text : List Char) :
    exponentLength (text ++ rest) = exponentLength text := by
  have hmark := h.stops (p := fun e => e = 'e' || e = 'E') (by decide) (by decide)
  have hdigit := h.stops (p := Char.isDigit) (by decide) (by decide)
  cases text with
  | nil =>
    cases rest with
    | nil => rfl
    | cons d more =>
      rw [List.nil_append, exponentLength_cons, hmark d rfl]
      rfl
  | cons e more =>
    have hhead : (behindSign more ++ rest).head?.any Char.isDigit =
        (behindSign more).head?.any Char.isDigit := by
      cases hdigits : behindSign more with
      | nil =>
        cases rest with
        | nil => rfl
        | cons d rest => simpa using hdigit d rfl
      | cons d digits => rfl
    have hsize : (more ++ rest).length - (behindSign more ++ rest).length =
        more.length - (behindSign more).length := by
      simp only [List.length_append]
      omega
    rw [List.cons_append, exponentLength_cons, exponentLength_cons, behindSign_append h, hhead,
      hsize, digitsLength_append h]

theorem numeralLength_le (text : List Char) : numeralLength text ≤ text.length := by
  have hwhole := digitsLength_le text
  have hfraction := fractionLength_le (text.drop (digitsLength text))
  have hexponent := exponentLength_le
    (text.drop (digitsLength text + fractionLength (text.drop (digitsLength text))))
  simp only [List.length_drop] at hfraction hexponent
  simp only [numeralLength]
  omega

theorem readNumeral_append (h : BreaksOff rest) (text : List Char) :
    readNumeral (text ++ rest) = readNumeral text := by
  have hwhole := digitsLength_le text
  have hfraction := fractionLength_le (text.drop (digitsLength text))
  have hlength := numeralLength_le text
  simp only [numeralLength] at hlength
  simp only [List.length_drop] at hfraction
  simp only [readNumeral, digitsLength_append h]
  rw [List.drop_append_of_le_length hwhole, fractionLength_append h,
    List.drop_append_of_le_length (by omega), exponentLength_append h,
    List.take_append_of_le_length hlength]

/-! ### String literals -/

variable {keepEscapes : Bool} {q : Quoting} {before body : Body} {quote : Char}

/-- What is done at a character that is no backslash. -/
theorem readBody_of_ne (hc : c ≠ '\\') (rest : List Char) :
    readBody keepEscapes q before (c :: rest) =
      if c = '\n' then
        if q.isTriple then
          readBody keepEscapes q ⟨c :: before.text, before.size + 1, before.newlines + 1⟩ rest
        else .error .unterminatedString
      else if q.endsAt (c :: rest) then
        .ok ⟨before.text.reverse, before.size + q.width, before.newlines⟩
      else readBody keepEscapes q ⟨c :: before.text, before.size + 1, before.newlines⟩ rest := by
  rw [readBody]
  · exact fun hbackslash => absurd hbackslash hc
  · exact fun _ hbackslash => absurd hbackslash hc
  · exact fun _ _ hbackslash => absurd hbackslash hc

/-- A backslash is always looked at together with what stands behind it. -/
theorem ne_backslash (hend : c = '\\' → rest = [] → False)
    (hmore : ∀ (d : Char) (more : List Char), c = '\\' → rest = d :: more → False) :
    c ≠ '\\' := by
  intro hc
  cases rest with
  | nil => exact hend hc rfl
  | cons d more => exact hmore d more hc rfl

theorem isPrefixOf_append_of_le {quotes : List Char} (h : quotes.length ≤ text.length)
    (more : List Char) : quotes.isPrefixOf (text ++ more) = quotes.isPrefixOf text := by
  rw [Bool.eq_iff_iff, List.isPrefixOf_iff_prefix, List.isPrefixOf_iff_prefix]
  refine ⟨fun hquotes => ?_, fun hquotes => hquotes.trans (List.prefix_append text more)⟩
  exact List.prefix_of_prefix_length_le hquotes (List.prefix_append text more) h

namespace Quoting

def closing (q : Quoting) : List Char := List.replicate q.width q.quote

theorem length_closing (q : Quoting) : q.closing.length = q.width := List.length_replicate

theorem exists_closing (q : Quoting) : ∃ more, q.closing = q.quote :: more := by
  cases htriple : q.isTriple with
  | false => exact ⟨[], by simp [closing, width, htriple]⟩
  | true => exact ⟨[q.quote, q.quote], by simp [closing, width, htriple]⟩

theorem getLast?_closing (q : Quoting) : q.closing.getLast? = some q.quote := by
  cases htriple : q.isTriple with
  | false => simp [closing, width, htriple]
  | true => simp [closing, width, htriple]

end Quoting

/-- A literal is read from the characters in it and the quotes that close it. -/
theorem exists_taken_of_readBody (h : readBody keepEscapes q before text = .ok body) :
    ∃ taken behind, text = taken ++ q.closing ++ behind ∧
      body.size = before.size + (taken ++ q.closing).length ∧
      ∀ more, readBody keepEscapes q before (taken ++ q.closing ++ more) = .ok body := by
  fun_induction readBody keepEscapes q before text with
  | case1 => cases h
  | case2 => cases h
  | case3 before rest ih =>
    obtain ⟨taken, behind, rfl, hsize, hread⟩ := ih h
    refine ⟨'\\' :: '\n' :: taken, behind, rfl, ?_, fun more => ?_⟩
    · simp only [List.cons_append, List.length_cons] at hsize ⊢
      omega
    · simpa [readBody] using hread more
  | case4 before c rest hc added ih =>
    obtain ⟨taken, behind, rfl, hsize, hread⟩ := ih h
    refine ⟨'\\' :: c :: taken, behind, rfl, ?_, fun more => ?_⟩
    · simp only [List.cons_append, List.length_cons] at hsize ⊢
      omega
    · simpa [readBody, hc] using hread more
  | case5 before rest htriple h1 h2 h3 ih =>
    obtain ⟨taken, behind, rfl, hsize, hread⟩ := ih h
    refine ⟨'\n' :: taken, behind, rfl, ?_, fun more => ?_⟩
    · simp only [List.cons_append, List.length_cons] at hsize ⊢
      omega
    · rw [List.cons_append, List.cons_append, readBody_of_ne (by decide), if_pos rfl,
        if_pos htriple]
      exact hread more
  | case6 => cases h
  | case7 before c rest h1 h2 h3 hc hend =>
    have hplain : c ≠ '\\' := ne_backslash h1 h3
    cases h
    obtain ⟨behind, hbehind⟩ := List.isPrefixOf_iff_prefix.mp hend
    obtain ⟨more, hmore⟩ := q.exists_closing
    change q.closing ++ behind = _ at hbehind
    obtain rfl : q.quote = c := by
      rw [hmore] at hbehind
      exact (List.cons.inj hbehind).1
    refine ⟨[], behind, hbehind.symm, by rw [List.nil_append, q.length_closing], fun behind => ?_⟩
    have hends : q.endsAt (q.closing ++ behind) = true :=
      List.isPrefixOf_iff_prefix.mpr (List.prefix_append _ _)
    rw [hmore, List.cons_append] at hends
    rw [List.nil_append, hmore, List.cons_append, readBody_of_ne hplain, if_neg hc,
      if_pos hends]
  | case8 before c rest h1 h2 h3 hc hend ih =>
    have hplain : c ≠ '\\' := ne_backslash h1 h3
    obtain ⟨taken, behind, rfl, hsize, hread⟩ := ih h
    refine ⟨c :: taken, behind, rfl, ?_, fun more => ?_⟩
    · simp only [List.cons_append, List.length_cons] at hsize ⊢
      omega
    · -- The quotes that close the literal are behind `c`, so they are all that is looked at.
      have hlong : q.closing.length ≤ (c :: (taken ++ q.closing)).length := by
        simp only [List.length_cons, List.length_append]
        omega
      have hsame : q.endsAt (c :: (taken ++ q.closing ++ more)) =
          q.endsAt (c :: (taken ++ q.closing ++ behind)) :=
        (isPrefixOf_append_of_le hlong more).trans (isPrefixOf_append_of_le hlong behind).symm
      rw [← hsame] at hend
      rw [List.cons_append, List.cons_append, readBody_of_ne hplain, if_neg hc, if_neg hend]
      exact hread more

theorem exists_taken_of_readQuoted (h : readQuoted keepEscapes quote text = .ok body) :
    ∃ taken behind, text = taken ++ behind ∧ body.size = taken.length ∧
      taken.getLast? = some quote ∧
      ∀ more, Quoting.of quote (taken ++ more) = Quoting.of quote text →
        readQuoted keepEscapes quote (taken ++ more) = .ok body := by
  unfold readQuoted at h
  obtain ⟨taken, behind, hdrop, hsize, hread⟩ := exists_taken_of_readBody h
  have hopening : ∃ opening, text = opening ++ text.drop ((Quoting.of quote text).width - 1) ∧
      opening.length = (Quoting.of quote text).width - 1 := by
    refine ⟨text.take ((Quoting.of quote text).width - 1),
      (List.take_append_drop _ _).symm, ?_⟩
    rw [List.length_take, Nat.min_eq_left]
    cases htriple : [quote, quote].isPrefixOf text with
    | false => simp [Quoting.of, Quoting.width, htriple]
    | true =>
      have hlong := (List.isPrefixOf_iff_prefix.mp htriple).length_le
      simpa [Quoting.of, Quoting.width, htriple] using hlong
  obtain ⟨opening, htext, hlength⟩ := hopening
  rw [hdrop, ← List.append_assoc] at htext
  refine ⟨opening ++ (taken ++ (Quoting.of quote text).closing), behind, htext, ?_, ?_, ?_⟩
  · rw [hsize, ← hlength]
    exact List.length_append.symm
  · rw [← List.append_assoc, List.getLast?_append, Quoting.getLast?_closing]
    rfl
  · intro more hsame
    have hbehind : (opening ++ (taken ++ (Quoting.of quote text).closing) ++ more).drop
        ((Quoting.of quote text).width - 1) =
          taken ++ (Quoting.of quote text).closing ++ more := by
      rw [List.append_assoc, ← hlength, List.drop_left]
    rw [readQuoted, hsame]
    simp only [hbehind]
    exact hread more

/-- Whether a literal is a long one is told by the two characters behind its first quote. -/
theorem quotingOf_append (h : BreaksOff rest) (hquote : quote ≠ '\n' ∧ quote ≠ '\r')
    (text : List Char) : Quoting.of quote (text ++ rest) = Quoting.of quote text := by
  have hrest : ∀ d ∈ rest.head?, quote ≠ d := by
    intro d hd
    rcases h d hd with rfl | rfl
    · exact hquote.1
    · exact hquote.2
  match text with
  | [] =>
    cases rest with
    | nil => rfl
    | cons d more => simp [Quoting.of, List.isPrefixOf, hrest d rfl]
  | [c] =>
    cases rest with
    | nil => rfl
    | cons d more => simp [Quoting.of, List.isPrefixOf, hrest d rfl]
  | c :: d :: more => simp [Quoting.of, List.isPrefixOf]

theorem isQuote_ne (h : isQuote quote = true) : quote ≠ '\n' ∧ quote ≠ '\r' := by
  constructor
  · rintro rfl
    cases h
  · rintro rfl
    cases h

theorem readQuoted_append (hrest : BreaksOff rest) (hquote : quote ≠ '\n' ∧ quote ≠ '\r')
    (h : readQuoted keepEscapes quote text = .ok body) :
    readQuoted keepEscapes quote (text ++ rest) = .ok body ∧ body.size ≤ text.length := by
  have hsame := quotingOf_append hrest hquote text
  obtain ⟨taken, behind, rfl, hsize, -, hread⟩ := exists_taken_of_readQuoted h
  rw [List.append_assoc] at hsame ⊢
  exact ⟨hread _ hsame, by simp [hsize]⟩

/-- A literal that takes no newline ends in front of the end of the line. -/
theorem readQuoted_of_append (hrest : AtLineEnd rest) (hquote : quote ≠ '\n' ∧ quote ≠ '\r')
    (hline : '\n' ∉ text) (h : readQuoted keepEscapes quote (text ++ rest) = .ok body)
    (hnone : body.newlines = 0) : readQuoted keepEscapes quote text = .ok body := by
  have hcount := newlines_of_readQuoted hquote.1 h
  have hsame := quotingOf_append hrest.breaksOff hquote text
  obtain ⟨taken, behind, hsplit, hsize, hlast, hread⟩ := exists_taken_of_readQuoted h
  rw [hnone, hsplit, hsize, List.take_left] at hcount
  rcases List.append_eq_append_iff.mp hsplit with ⟨more, rfl, hmore⟩ | ⟨more, rfl, -⟩
  · -- What is taken of the end of the line is no newline, and its last character is the quote.
    have hnewline : '\n' ∉ more := by
      intro hmem
      exact List.count_eq_zero.mp hcount.symm (List.mem_append_right _ hmem)
    have hnil : more = [] := by
      cases hrest with
      | nothing => exact (List.nil_eq_append_iff.mp hmore).1
      | newline rest =>
        cases more with
        | nil => rfl
        | cons d more =>
          rw [List.cons_append] at hmore
          exact absurd ((List.cons.inj hmore).1 ▸ List.mem_cons_self) hnewline
      | returned rest =>
        match more with
        | [] => rfl
        | [d] =>
          rw [List.cons_append] at hmore
          rw [← (List.cons.inj hmore).1] at hlast
          simp only [List.getLast?_append, List.getLast?_singleton, Option.some_or,
            Option.some.injEq] at hlast
          exact absurd hlast.symm hquote.2
        | d :: e :: more =>
          simp only [List.cons_append, List.cons.injEq] at hmore
          obtain ⟨-, rfl, -⟩ := hmore
          exact absurd (by simp) hnewline
    subst hnil
    have halone := hread [] (by simpa using hsame.symm)
    simpa using halone
  · exact hread more hsame.symm

/-! ### Words and symbols -/

/-- The word that begins with `first`, a keyword or a name. -/
def wordOf (first : Char) (more : List Char) : Lexeme :=
  match Keyword.ofWord? (String.ofList (first :: more)) with
  | some k => ⟨.keyword k, more.length, 0⟩
  | none => ⟨.name (String.ofList (first :: more)), more.length, 0⟩

/-- The format string behind its mark and its first quote. -/
def readFormat (quote : Char) (after : List Char) : Except SyntaxError.Cause Lexeme := do
  let body ← readQuoted true quote after
  let pieces ← splitFields [] body.text
  .ok ⟨.format pieces, 1 + body.size, body.newlines⟩

def isFormatMark (first quote : Char) : Bool := (first = 'f' || first = 'F') && isQuote quote

theorem wordOf_nil (first : Char) : wordOf first [] = ⟨.name (String.singleton first), 0, 0⟩ := by
  have hnone : Keyword.ofWord? (String.ofList [first]) = none := by
    refine List.find?_eq_none.mpr fun k hk => ?_
    simp only [decide_eq_true_eq]
    intro hword
    have hlength : k.spelling.toList.length = 1 := by simp [hword]
    revert hlength
    cases k <;> decide
  rw [wordOf, hnone]
  rfl

theorem size_wordOf (first : Char) (more : List Char) : (wordOf first more).size = more.length := by
  unfold wordOf
  split
  · rfl
  · rfl

theorem newlines_wordOf (first : Char) (more : List Char) : (wordOf first more).newlines = 0 := by
  unfold wordOf
  split
  · rfl
  · rfl

theorem readWord_nil (first : Char) : readWord first [] = .ok (wordOf first []) := by
  rw [readWord]
  · simp only [wordOf, List.takeWhile_nil]
    cases Keyword.ofWord? (String.ofList [first]) with
    | none => rfl
    | some k => rfl
  · intro _ _ _ h
    cases h

theorem readWord_cons (first d : Char) (rest : List Char) :
    readWord first (d :: rest) =
      if isFormatMark first d then readFormat d rest
      else .ok (wordOf first ((d :: rest).takeWhile isWordChar)) := by
  cases hword : isWordChar d with
  | false =>
    have hnone : (d :: rest).takeWhile isWordChar = [] := by simp [hword]
    rw [hnone, wordOf_nil]
    simp only [readWord, hnone]
    rfl
  | true =>
    have hmark : isFormatMark first d = false := by
      have hquote : isQuote d = false := by
        by_contra hquote
        simp only [isQuote, Bool.not_eq_false, Bool.or_eq_true, decide_eq_true_eq] at hquote
        rcases hquote with rfl | rfl
        · cases hword
        · cases hword
      simp [isFormatMark, hquote]
    have htake : (d :: rest).takeWhile isWordChar = d :: rest.takeWhile isWordChar := by
      simp [hword]
    rw [hmark, htake]
    simp only [readWord, htake, wordOf]
    cases Keyword.ofWord? (String.ofList (first :: d :: rest.takeWhile isWordChar)) with
    | none => rfl
    | some k => rfl

theorem isFormatMark_of_break {first d : Char} (h : d = '\n' ∨ d = '\r') :
    isFormatMark first d = false := by
  rcases h with rfl | rfl
  · simp [isFormatMark, isQuote]
  · simp [isFormatMark, isQuote]

theorem isQuote_of_isFormatMark {first d : Char} (h : isFormatMark first d = true) :
    isQuote d = true := (Bool.and_eq_true_iff.mp h).2

variable {first : Char} {l : Lexeme}

/-- Where the word is no format string, it breaks off with the line. -/
theorem readWord_breaksOff (hrest : BreaksOff rest) (first : Char) :
    readWord first rest = .ok (wordOf first []) := by
  cases rest with
  | nil => exact readWord_nil first
  | cons d more =>
    have hnone : (d :: more).takeWhile isWordChar = [] := by
      simp [hrest.stops (p := isWordChar) (by decide) (by decide) d rfl]
    rw [readWord_cons, isFormatMark_of_break (hrest d rfl), hnone]
    rfl

theorem readFormat_eq_ok_iff :
    readFormat quote text = .ok l ↔ ∃ body pieces, readQuoted true quote text = .ok body ∧
      splitFields [] body.text = .ok pieces ∧
      l = ⟨.format pieces, 1 + body.size, body.newlines⟩ := by
  constructor
  · intro h
    obtain ⟨body, hbody, h⟩ := Outcome.bind_eq_ok_iff.mp h
    obtain ⟨pieces, hpieces, h⟩ := Outcome.bind_eq_ok_iff.mp h
    cases h
    exact ⟨body, pieces, hbody, hpieces, rfl⟩
  · rintro ⟨body, pieces, hbody, hpieces, rfl⟩
    exact Outcome.bind_eq_ok_iff.mpr ⟨body, hbody,
      Outcome.bind_eq_ok_iff.mpr ⟨pieces, hpieces, rfl⟩⟩

theorem readWord_append (hrest : BreaksOff rest) (h : readWord first text = .ok l) :
    readWord first (text ++ rest) = .ok l ∧ l.size ≤ text.length := by
  cases text with
  | nil =>
    rw [readWord_nil] at h
    cases h
    exact ⟨readWord_breaksOff hrest first, (size_wordOf first []).le⟩
  | cons d more =>
    rw [readWord_cons] at h
    rw [List.cons_append, readWord_cons]
    split at h
    · rename_i hmark
      obtain ⟨body, pieces, hbody, hpieces, rfl⟩ := readFormat_eq_ok_iff.mp h
      obtain ⟨hbody, hsize⟩ := readQuoted_append hrest
        (isQuote_ne (isQuote_of_isFormatMark hmark)) hbody
      rw [if_pos hmark]
      refine ⟨readFormat_eq_ok_iff.mpr ⟨body, pieces, hbody, hpieces, rfl⟩, ?_⟩
      simp only [List.length_cons]
      omega
    · rename_i hmark
      have htake := Text.takeWhile_append_of_head
        (hrest.stops (p := isWordChar) (by decide) (by decide)) (d :: more)
      rw [List.cons_append] at htake
      rw [if_neg hmark, htake]
      cases h
      exact ⟨rfl, (size_wordOf first _).le.trans (List.takeWhile_prefix _).length_le⟩

theorem readWord_of_append (hrest : AtLineEnd rest) (hline : '\n' ∉ text)
    (h : readWord first (text ++ rest) = .ok l) (hnone : l.newlines = 0) :
    readWord first text = .ok l := by
  cases text with
  | nil =>
    rw [List.nil_append, readWord_breaksOff hrest.breaksOff] at h
    rw [readWord_nil, h]
  | cons d more =>
    rw [List.cons_append, readWord_cons] at h
    rw [readWord_cons]
    split at h
    · rename_i hmark
      obtain ⟨body, pieces, hbody, hpieces, rfl⟩ := readFormat_eq_ok_iff.mp h
      rw [if_pos hmark]
      refine readFormat_eq_ok_iff.mpr ⟨body, pieces, ?_, hpieces, rfl⟩
      exact readQuoted_of_append hrest (isQuote_ne (isQuote_of_isFormatMark hmark))
        (fun hmem => hline (List.mem_cons_of_mem d hmem)) hbody hnone
    · rename_i hmark
      have htake := Text.takeWhile_append_of_head
        (hrest.breaksOff.stops (p := isWordChar) (by decide) (by decide)) (d :: more)
      rw [List.cons_append] at htake
      rw [if_neg hmark, ← htake, h]

theorem readSymbol_append (hrest : BreaksOff rest) (first : Char) (text : List Char) :
    readSymbol first (text ++ rest) = readSymbol first text := by
  have hpair : (text ++ rest).head?.bind (Symbol.ofPair? first) =
      text.head?.bind (Symbol.ofPair? first) := by
    cases text with
    | nil =>
      cases rest with
      | nil => rfl
      | cons d more =>
        rcases hrest d rfl with rfl | rfl
        · simp [Symbol.ofPair?]
        · simp [Symbol.ofPair?]
    | cons d more => rfl
  rw [readSymbol, readSymbol, hpair]

theorem size_of_readSymbol (h : readSymbol first text = .ok l) : l.size ≤ text.length := by
  unfold readSymbol at h
  split at h
  · rename_i hpair
    cases h
    cases text with
    | nil => cases hpair
    | cons d more => simp
  · split at h
    · cases h
      exact Nat.zero_le _
    · cases h

/-! ### All tokens -/

/-- A number, a string literal or a symbol. -/
inductive Token.Kind.IsPlain : Token.Kind → Prop where
  | int (n : Nat) : IsPlain (.int n)
  | float (x : Float) : IsPlain (.float x)
  | str (s : String) : IsPlain (.str s)
  | symbol (s : Symbol) : IsPlain (.symbol s)

theorem isPlain_of_readNumeral {kind : Token.Kind} {length : Nat}
    (h : readNumeral text = .ok (kind, length)) : kind.IsPlain := by
  simp only [readNumeral] at h
  split at h
  · split at h
    · cases h
      exact .int _
    · cases h
  · split at h
    · cases h
      exact .float _
    · cases h

theorem isPlain_of_readSymbol (h : readSymbol first text = .ok l) : l.kind.IsPlain := by
  unfold readSymbol at h
  split at h
  · cases h
    exact .symbol _
  · split at h
    · cases h
      exact .symbol _
    · cases h

theorem isPlain_or_readWord (h : readLexeme c text = .ok l) :
    l.kind.IsPlain ∨ readWord c text = .ok l := by
  unfold readLexeme at h
  split at h
  · obtain ⟨⟨kind, length⟩, hread, hl⟩ := Outcome.bind_eq_ok_iff.mp h
    cases hl
    exact .inl (isPlain_of_readNumeral hread)
  · split at h
    · obtain ⟨body, -, hl⟩ := Outcome.bind_eq_ok_iff.mp h
      cases hl
      exact .inl (.str _)
    · split at h
      · exact .inr h
      · exact .inl (isPlain_of_readSymbol h)

/-- No token begins like a comment, a line end or a joined line. -/
theorem ne_of_readLexeme (h : readLexeme c text = .ok l) : c ≠ '#' ∧ c ≠ '\n' ∧ c ≠ '\\' := by
  have hsymbol : ∀ d, Char.isDigit d = false → isQuote d = false → isWordStart d = false →
      (∀ e, Symbol.ofPair? d e = none) → Symbol.ofChar? d = none → c ≠ d := by
    rintro d hdigit hquote hword hpair hsingle rfl
    have hnone : text.head?.bind (Symbol.ofPair? c) = none := by
      cases text with
      | nil => rfl
      | cons e rest => exact hpair e
    simp [readLexeme, hdigit, hquote, hword, readSymbol, hnone, hsingle] at h
  refine ⟨?_, ?_, ?_⟩
  · exact hsymbol '#' (by decide) (by decide) (by decide) (fun _ => by simp [Symbol.ofPair?]) rfl
  · exact hsymbol '\n' (by decide) (by decide) (by decide) (fun _ => by simp [Symbol.ofPair?]) rfl
  · exact hsymbol '\\' (by decide) (by decide) (by decide) (fun _ => by simp [Symbol.ofPair?]) rfl

theorem joinSize_of_ne (hc : c ≠ '\\') (after : List Char) : joinSize c after = none := by
  simp [joinSize, hc]

theorem readLexeme_append_of_break (hrest : BreaksOff rest) (h : readLexeme c text = .ok l) :
    readLexeme c (text ++ rest) = .ok l ∧ l.size ≤ text.length := by
  unfold readLexeme at h ⊢
  split at h
  · rename_i hdigit
    rw [if_pos hdigit, ← List.cons_append, readNumeral_append hrest]
    refine ⟨h, ?_⟩
    obtain ⟨⟨kind, length⟩, hnumeral, hl⟩ := Outcome.bind_eq_ok_iff.mp h
    cases hl
    have hlength := numeralLength_le (c :: text)
    rw [← numeralLength_of_readNumeral hnumeral, List.length_cons] at hlength
    simp only
    omega
  · rename_i hdigit
    rw [if_neg hdigit]
    split at h
    · rename_i hquote
      rw [if_pos hquote]
      obtain ⟨body, hbody, hl⟩ := Outcome.bind_eq_ok_iff.mp h
      obtain ⟨hbody, hsize⟩ := readQuoted_append hrest (isQuote_ne hquote) hbody
      cases hl
      exact ⟨Outcome.bind_eq_ok_iff.mpr ⟨body, hbody, rfl⟩, hsize⟩
    · rename_i hquote
      rw [if_neg hquote]
      split at h
      · rename_i hword
        rw [if_pos hword]
        exact readWord_append hrest h
      · rename_i hword
        rw [if_neg hword, readSymbol_append hrest]
        exact ⟨h, size_of_readSymbol h⟩

/-- A token that takes no newline is read from its line. -/
theorem readLexeme_of_line (hrest : AtLineEnd rest) (hline : '\n' ∉ text)
    (h : readLexeme c (text ++ rest) = .ok l) (hnone : l.newlines = 0) :
    readLexeme c text = .ok l := by
  unfold readLexeme at h ⊢
  split at h
  · rename_i hdigit
    rw [← List.cons_append, readNumeral_append hrest.breaksOff] at h
    rw [if_pos hdigit, h]
  · rename_i hdigit
    rw [if_neg hdigit]
    split at h
    · rename_i hquote
      rw [if_pos hquote]
      obtain ⟨body, hbody, hl⟩ := Outcome.bind_eq_ok_iff.mp h
      cases hl
      have halone := readQuoted_of_append hrest (isQuote_ne hquote) hline hbody hnone
      exact Outcome.bind_eq_ok_iff.mpr ⟨body, halone, rfl⟩
    · rename_i hquote
      rw [if_neg hquote]
      split at h
      · rename_i hword
        rw [if_pos hword]
        exact readWord_of_append hrest hline h hnone
      · rename_i hword
        rw [readSymbol_append hrest.breaksOff] at h
        rw [if_neg hword, h]

end LiveDoc.Fragment
