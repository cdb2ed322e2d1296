import LiveDoc.Proofs.Fragment.Prose
import LiveDoc.Proofs.Text.Runs
import LiveDoc.Value.Text

/-!
The tokens of written literals. A word, a numeral or a quoted string is one token where nothing
stands behind it that could go on with it, and a quoted string is the token of the very string that
was quoted, whatever characters it holds. All tokens of such a text are on its only line.
-/
namespace LiveDoc.Fragment

variable {s : Scanner} {c : Char} {text more body rest : List Char} {kind : Token.Kind}
  {kinds others : List Token.Kind}

/-- In front of `rest` the text is scanned as tokens of these kinds, all on the line it begins
on. -/
def ScannedAs (text : List Char) (kinds : List Token.Kind) (rest : List Char) : Prop :=
  ∀ s : Scanner, ∃ s' : Scanner, s'.line = s.line ∧
    s'.tokens = (kinds.map (Token.mk s.line)).reverse ++ s.tokens ∧
      scan false false s (text ++ rest) = scan false false s' rest

namespace ScannedAs

theorem append (htext : ScannedAs text kinds (more ++ rest)) (hmore : ScannedAs more others rest) :
    ScannedAs (text ++ more) (kinds ++ others) rest := by
  intro s
  obtain ⟨mid, hline, htokens, hscan⟩ := htext s
  obtain ⟨last, hline', htokens', hscan'⟩ := hmore mid
  refine ⟨last, hline'.trans hline, ?_, ?_⟩
  · rw [htokens', htokens, hline]
    simp
  · rw [List.append_assoc, hscan, hscan']

theorem space (rest : List Char) : ScannedAs [' '] [] rest := by
  intro s
  exact ⟨s, rfl, rfl, scan_space (by decide)⟩

theorem lexeme (hspace : isInlineSpace c = false) (hcomment : c ≠ '#') (hline : c ≠ '\n')
    (hjoin : c ≠ '\\') (hread : readLexeme c (body ++ rest) = .ok ⟨kind, body.length, 0⟩) :
    ScannedAs (c :: body) [kind] rest := by
  intro s
  have hsize : (body ++ rest).drop body.length = rest := List.drop_left
  have hnone : joinSize c (body ++ rest) = none := by
    unfold joinSize
    split
    · exact absurd rfl hjoin
    · exact absurd rfl hjoin
    · rfl
  refine ⟨s.add ⟨kind, body.length, 0⟩, rfl, rfl, ?_⟩
  rw [List.cons_append, scan_lexeme hspace hcomment hline hnone hread, hsize]

/-- One character that is a symbol with none of the characters behind it. -/
theorem symbol {symbol : Symbol} (hc : Symbol.ofChar? c = some symbol)
    (hpair : ∀ d ∈ rest.head?, Symbol.ofPair? c d = none) :
    ScannedAs [c] [.symbol symbol] rest := by
  have hplain : isInlineSpace c = false ∧ c ≠ '#' ∧ c ≠ '\n' ∧ c ≠ '\\' ∧ c.isDigit = false ∧
      isQuote c = false ∧ isWordStart c = false := by
    fun_cases Symbol.ofChar? c with
    | case18 => simp_all [Symbol.ofChar?]
    | _ => decide
  obtain ⟨hspace, hcomment, hline, hjoin, hdigit, hquote, hword⟩ := hplain
  refine lexeme hspace hcomment hline hjoin ?_
  have hnone : rest.head?.bind (Symbol.ofPair? c) = none := Option.bind_eq_none_iff.mpr hpair
  rw [readLexeme, hdigit, hquote, hword]
  simp only [List.nil_append, Bool.false_eq_true, if_false, readSymbol, hnone, hc, List.length_nil]

end ScannedAs

/-- What may stand behind a value that is written in another one: nothing that goes on with a
literal. -/
def EndsLiteral (rest : List Char) : Prop :=
  ∀ c ∈ rest.head?, c ∈ [',', ':', ']', '\x7d']

theorem EndsLiteral.head_not {p : Char → Bool} (h : EndsLiteral rest)
    (hp : [',', ':', ']', '\x7d'].any p = false) : ∀ c ∈ rest.head?, p c = false :=
  fun c hc => Bool.eq_false_iff.mpr (List.any_eq_false.mp hp c (h c hc))

/-! ### Words -/

theorem scannedAs_keyword {k : Keyword} (hk : k = .yes ∨ k = .no ∨ k = .nothing)
    (hrest : EndsLiteral rest) : ScannedAs k.spelling.toList [.keyword k] rest := by
  have hread (first : Char) (word : List Char) (hsome : word ≠ [])
      (hword : word.all isWordChar = true)
      (hkeyword : Keyword.ofWord? (String.ofList (first :: word)) = some k) :
      readWord first (word ++ rest) = .ok ⟨.keyword k, word.length, 0⟩ := by
    have hmore : (word ++ rest).takeWhile isWordChar = word :=
      Text.takeWhile_run (List.all_eq_true.mp hword) (hrest.head_not (by decide))
    rw [readWord, hmore]
    · simp only [hkeyword]
    · intro quote after hnone _
      exact hsome (hmore.symm.trans hnone)
  rcases hk with rfl | rfl | rfl
  · exact .lexeme (by decide) (by decide) (by decide) (by decide)
      (hread 'T' ['r', 'u', 'e'] (by decide) (by decide) rfl)
  · exact .lexeme (by decide) (by decide) (by decide) (by decide)
      (hread 'F' ['a', 'l', 's', 'e'] (by decide) (by decide) rfl)
  · exact .lexeme (by decide) (by decide) (by decide) (by decide)
      (hread 'N' ['o', 'n', 'e'] (by decide) (by decide) rfl)

/-! ### Numerals -/

theorem digitsToNat_dropWhile (digits : List Char) :
    Decimal.digitsToNat (digits.dropWhile (· = '0')) = Decimal.digitsToNat digits := by
  induction digits with
  | nil => rfl
  | cons c digits ih =>
    by_cases hc : c = '0'
    · subst hc
      rw [List.dropWhile_cons_of_pos (by decide), ih]
      rfl
    · rw [List.dropWhile_cons_of_neg (by simpa using hc)]

theorem integerOf?_toDigits {n : Nat} (hn : (n : Int) ≤ Integer64.largest) :
    Decimal.integerOf? false (Nat.toDigits 10 n) = some (n : Int) := by
  have hvalue : Decimal.digitsToNat (Nat.toDigits 10 n) = n := Nat.ofDigitChars_ten_toDigits
  have hlength : (Nat.toDigits 10 n).length ≤ 19 := by
    rw [Nat.length_toDigits_le_iff (by decide) (by decide)]
    simp only [Integer64.largest] at hn
    omega
  have hshort := (List.dropWhile_suffix (l := Nat.toDigits 10 n) (· = '0')).length_le.trans hlength
  have hleast : Integer64.least ≤ n := Int.le_trans (b := 0) (by decide) (Int.natCast_nonneg n)
  have hfits : Integer64.fits n = true := by simp [Integer64.fits, hleast, hn]
  simp only [Decimal.integerOf?, digitsToNat_dropWhile, hvalue, hfits, Nat.not_lt.mpr hshort,
    Bool.false_eq_true, if_false, if_true]

theorem readNumeral_toDigits {n : Nat} (hn : (n : Int) ≤ Integer64.largest)
    (hrest : EndsLiteral rest) :
    readNumeral (Nat.toDigits 10 n ++ rest) = .ok (.int n, (Nat.toDigits 10 n).length) := by
  have hdigit (c : Char) (hc : c ∈ Nat.toDigits 10 n) : c.isDigit = true :=
    Nat.isDigit_of_mem_toDigits (by decide) (by decide) hc
  have hwhole : digitsLength (Nat.toDigits 10 n ++ rest) = (Nat.toDigits 10 n).length := by
    rw [digitsLength, Text.takeWhile_run (fun c hc => by simp [isNumeralChar, hdigit c hc])
      (hrest.head_not (by decide))]
  have hpoint (c : Char) (hc : c ∈ rest.head?) : c ≠ '.' ∧ c ≠ 'e' ∧ c ≠ 'E' := by
    have hend := hrest.head_not (p := fun c => c == '.' || c == 'e' || c == 'E') (by decide) c hc
    simpa [and_assoc] using hend
  have hbehind : fractionLength rest = 0 ∧ exponentLength rest = 0 := by
    cases rest with
    | nil => exact ⟨rfl, rfl⟩
    | cons c rest =>
      obtain ⟨hdot, hsmall, hlarge⟩ := hpoint c rfl
      simp [fractionLength, exponentLength, hdot, hsmall, hlarge]
  have hsource : (Nat.toDigits 10 n).filter (· ≠ '_') = Nat.toDigits 10 n := by
    refine List.filter_eq_self.mpr fun c hc => decide_eq_true ?_
    rintro rfl
    exact absurd (hdigit '_' hc) (by decide)
  simp only [readNumeral, hwhole, List.drop_left, hbehind, Nat.add_zero, List.take_left, hsource,
    integerOf?_toDigits hn, if_true, Int.toNat_natCast]

theorem scannedAs_numeral {n : Nat} (hn : (n : Int) ≤ Integer64.largest)
    (hrest : EndsLiteral rest) : ScannedAs (Nat.toDigits 10 n) [.int n] rest := by
  have hread := readNumeral_toDigits hn hrest
  have hdigit (c : Char) (hc : c ∈ Nat.toDigits 10 n) : c.isDigit = true :=
    Nat.isDigit_of_mem_toDigits (by decide) (by decide) hc
  obtain ⟨first, digits, hdigits⟩ :=
    List.exists_cons_of_ne_nil (Nat.toDigits_ne_nil (n := n) (b := 10))
  rw [hdigits] at hread hdigit ⊢
  have hfirst := hdigit first (List.mem_cons_self ..)
  have hother (d : Char) (hd : d.isDigit = false) : first ≠ d := by
    rintro rfl
    exact Bool.noConfusion (hd.symm.trans hfirst)
  have hspace : isInlineSpace first = false := by
    have hfeed : first.toNat ≠ 0x0c := fun h => hother '\x0c' rfl (Char.toNat_inj.mp h)
    simp [isInlineSpace, hother ' ' rfl, hother '\t' rfl, hother '\r' rfl, hfeed]
  refine .lexeme hspace (hother _ rfl) (hother _ rfl) (hother _ rfl) ?_
  rw [readLexeme, if_pos hfirst, ← List.cons_append, hread]
  rfl

/-! ### Quoted strings -/

/-- A character as it is written in quotes does not end the literal, and it is read back. -/
theorem quotable_escaped {quote : Char} (hquote : isQuote quote = true) :
    Quotable false quote (Value.escaped quote) fun c => [c] where
  special := by
    rcases quote_cases hquote with rfl | rfl <;> decide
  first c := by
    have hbackslash : '\\' ≠ quote := by
      rcases quote_cases hquote with rfl | rfl <;> decide
    unfold Value.escaped
    split
    · simpa using hbackslash
    · simpa using hbackslash
    · simpa using hbackslash
    · simpa using hbackslash
    · split
      · simpa using hbackslash
      · rename_i hc
        simpa using hc
  reads c := by
    unfold Value.escaped
    split
    · exact fun _ _ => rfl
    · exact fun _ _ => rfl
    · exact fun _ _ => rfl
    · exact fun _ _ => rfl
    · rename_i hbackslash hline _ _
      split
      · rename_i hc
        subst hc
        rcases quote_cases hquote with rfl | rfl
        · exact fun _ _ => rfl
        · exact fun _ _ => rfl
      · rename_i hc
        exact .plain hbackslash hline hc

theorem isQuote_quoteFor (text : List Char) : isQuote (Value.quoteFor text) = true := by
  unfold Value.quoteFor
  split
  · rfl
  · rfl

theorem scannedAs_quoted (s : String) (hrest : EndsLiteral rest) :
    ScannedAs (Value.quoted s.toList) [.str s] rest := by
  have hquote := isQuote_quoteFor s.toList
  rw [Value.quoted]
  generalize Value.quoteFor s.toList = quote at hquote
  generalize htext : s.toList = text
  have hother (c : Char) (hc : c ∈ rest.head?) : c ≠ quote := by
    rintro rfl
    exact Bool.noConfusion (hquote.symm.trans (hrest.head_not (by decide) c hc))
  have hread := (quotable_escaped hquote).readQuoted text hother
  rw [List.flatMap_singleton'] at hread
  have hplain : isInlineSpace quote = false ∧ quote ≠ '#' ∧ quote ≠ '\n' ∧ quote ≠ '\\' ∧
      quote.isDigit = false := by
    rcases quote_cases hquote with rfl | rfl <;> decide
  obtain ⟨hspace, hcomment, hline, hjoin, hdigit⟩ := hplain
  rw [List.cons_append]
  refine .lexeme hspace hcomment hline hjoin ?_
  rw [List.append_assoc, List.singleton_append, readLexeme, hdigit, if_neg Bool.false_ne_true,
    if_pos hquote, hread, ← htext]
  simp [bind, Except.bind]

end LiveDoc.Fragment
