import LiveDoc.Fragment.Scan
import LiveDoc.Proofs.Outcome
import LiveDoc.Proofs.Text.Newlines

/-!
The newlines that a token takes. Only a string literal goes on behind the end of a line, and the
newlines that its reading counts, those behind a backslash among them, are the newlines of the
characters it has taken.
-/
namespace LiveDoc.Fragment

/-! ### Number literals -/

theorem newlines_take_digitsLength (text : List Char) :
    newlines (text.take (digitsLength text)) = 0 :=
  newlines_take_length_takeWhile rfl text

theorem newlines_take_fractionLength (text : List Char) :
    newlines (text.take (fractionLength text)) = 0 := by
  fun_cases fractionLength text with
  | case1 => rfl
  | case2 c rest hdigit =>
    rw [Nat.add_comm, List.take_succ_cons, newlines_cons_of_ne (by decide)]
    exact newlines_take_digitsLength _
  | case3 => rfl
  | case4 => exact newlines_cons_of_ne (by decide) _
  | case5 => rfl

theorem newlines_take_exponentLength (text : List Char) :
    newlines (text.take (exponentLength text)) = 0 := by
  fun_cases exponentLength text with
  | case1 e rest he digits h =>
    obtain ⟨sign, hrest, hsign⟩ : ∃ sign, rest = sign ++ digits ∧ newlines sign = 0 := by
      unfold digits
      split
      · exact ⟨['+'], rfl, rfl⟩
      · exact ⟨['-'], rfl, rfl⟩
      · exact ⟨[], rfl, rfl⟩
    have hsize : rest.length - digits.length = sign.length := by
      rw [hrest, List.length_append, Nat.add_sub_cancel]
    rw [hsize, Nat.add_assoc, Nat.add_comm, List.take_succ_cons, newlines_cons_of_ne, hrest,
      List.take_length_add_append, newlines_append, hsign, newlines_take_digitsLength]
    rintro rfl
    exact absurd he (by decide)
  | case2 => rfl
  | case3 => rfl
  | case4 => rfl

/-- How many characters a number takes. -/
def numeralLength (text : List Char) : Nat :=
  let whole := digitsLength text
  let fraction := fractionLength (text.drop whole)
  whole + fraction + exponentLength (text.drop (whole + fraction))

theorem numeralLength_of_readNumeral {text : List Char} {kind : Token.Kind} {length : Nat}
    (h : readNumeral text = .ok (kind, length)) : length = numeralLength text := by
  simp only [readNumeral] at h
  split at h
  · split at h
    · cases h
      rfl
    · cases h
  · split at h
    · cases h
      rfl
    · cases h

theorem newlines_take_of_readNumeral {text : List Char} {kind : Token.Kind} {length : Nat}
    (h : readNumeral text = .ok (kind, length)) : newlines (text.take length) = 0 := by
  rw [numeralLength_of_readNumeral h, numeralLength, newlines_take_add, newlines_take_add,
    newlines_take_digitsLength, newlines_take_fractionLength, newlines_take_exponentLength]

/-! ### String literals -/

variable {keepEscapes : Bool} {q : Quoting} {before body : Body} {text : List Char}

/-- Reading goes on from `before` to `body` over characters of a text. -/
def ReadsOn (before : Body) (text : List Char) (body : Body) : Prop :=
  ∃ size, body.size = before.size + size ∧
    body.newlines = before.newlines + newlines (text.take size)

theorem ReadsOn.behind {before next body : Body} {rest : List Char} (taken : List Char)
    (h : ReadsOn next rest body) (hsize : next.size = before.size + taken.length)
    (hcount : next.newlines = before.newlines + newlines taken) :
    ReadsOn before (taken ++ rest) body := by
  obtain ⟨size, hbody, hlines⟩ := h
  refine ⟨taken.length + size, by omega, ?_⟩
  rw [List.take_length_add_append, newlines_append]
  omega

theorem readsOn_of_readBody (hquote : q.quote ≠ '\n')
    (h : readBody keepEscapes q before text = .ok body) : ReadsOn before text body := by
  fun_induction readBody keepEscapes q before text with
  | case1 => cases h
  | case2 => cases h
  | case3 before rest ih => exact (ih h).behind ['\\', '\n'] rfl rfl
  | case4 before c rest hc added ih =>
    have hcount : before.newlines + newlines ['\\', c] = before.newlines := by
      rw [newlines_cons_of_ne (by decide), newlines_cons_of_ne hc, newlines_nil, Nat.add_zero]
    exact (ih h).behind ['\\', c] rfl hcount.symm
  | case5 before rest hc htriple h1 h2 ih => exact (ih h).behind ['\n'] rfl rfl
  | case6 => cases h
  | case7 before c rest h1 h2 h3 hc hend =>
    cases h
    refine ⟨q.width, rfl, ?_⟩
    have hquotes := List.prefix_iff_eq_take.mp (List.isPrefixOf_iff_prefix.mp hend)
    rw [List.length_replicate] at hquotes
    rw [← hquotes, newlines_eq_zero, Nat.add_zero]
    intro hmem
    exact hquote (List.eq_of_mem_replicate hmem).symm
  | case8 before c rest h1 h2 h3 hc hend ih =>
    have hcount : before.newlines + newlines [c] = before.newlines := by
      rw [newlines_cons_of_ne hc, newlines_nil, Nat.add_zero]
    exact (ih h).behind [c] rfl hcount.symm

theorem newlines_of_readQuoted {quote : Char} {rest : List Char} (hquote : quote ≠ '\n')
    (h : readQuoted keepEscapes quote rest = .ok body) :
    body.newlines = newlines (rest.take body.size) := by
  have hopening : newlines (rest.take ((Quoting.of quote rest).width - 1)) = 0 := by
    cases htriple : [quote, quote].isPrefixOf rest with
    | false => simp [Quoting.of, Quoting.width, htriple]
    | true =>
      obtain ⟨behind, rfl⟩ := List.isPrefixOf_iff_prefix.mp htriple
      simp [Quoting.of, Quoting.width, newlines_cons_of_ne hquote]
  obtain ⟨size, hsize, hcount⟩ := readsOn_of_readBody (q := Quoting.of quote rest) hquote h
  simp only [Nat.zero_add] at hsize hcount
  rw [hsize, newlines_take_add, hopening, Nat.zero_add, hcount]

/-! ### All tokens -/

variable {c : Char} {after : List Char} {l : Lexeme}

theorem newlines_of_readWord (h : readWord c after = .ok l) :
    l.newlines = newlines (after.take l.size) := by
  have hword : isWordChar '\n' = false := by decide
  simp only [readWord] at h
  split at h
  · rename_i quote rest hmore
    split at h
    · rename_i hmark
      obtain ⟨body, hread, h⟩ := Outcome.bind_eq_ok_iff.mp h
      obtain ⟨pieces, -, h⟩ := Outcome.bind_eq_ok_iff.mp h
      cases h
      have hquote : quote ≠ '\n' := by
        rintro rfl
        simp [isQuote] at hmark
      rw [Nat.add_comm, List.take_succ_cons, newlines_cons_of_ne hquote]
      exact newlines_of_readQuoted hquote hread
    · cases h
      rfl
  · split at h
    · cases h
      exact (newlines_take_length_takeWhile hword _).symm
    · cases h
      exact (newlines_take_length_takeWhile hword _).symm

theorem newlines_of_readSymbol (h : readSymbol c after = .ok l) :
    l.newlines = newlines (after.take l.size) := by
  unfold readSymbol at h
  split at h
  · rename_i s hpair
    cases h
    cases after with
    | nil => rfl
    | cons d rest =>
      have hd : d ≠ '\n' := by
        rintro rfl
        simp [Symbol.ofPair?] at hpair
      exact (newlines_cons_of_ne hd []).symm
  · split at h
    · cases h
      rfl
    · cases h

/-- The newlines that a token counts are those of the characters behind its first one. -/
theorem newlines_of_readLexeme (hc : c ≠ '\n') (h : readLexeme c after = .ok l) :
    l.newlines = newlines (after.take l.size) := by
  unfold readLexeme at h
  split at h
  · obtain ⟨⟨kind, length⟩, hread, hl⟩ := Outcome.bind_eq_ok_iff.mp h
    cases hl
    have hnone := newlines_take_of_readNumeral hread
    cases length with
    | zero => rfl
    | succ size =>
      rw [List.take_succ_cons, newlines_cons_of_ne hc] at hnone
      exact hnone.symm
  · split at h
    · obtain ⟨body, hread, hl⟩ := Outcome.bind_eq_ok_iff.mp h
      cases hl
      exact newlines_of_readQuoted hc hread
    · split at h
      · exact newlines_of_readWord h
      · exact newlines_of_readSymbol h

end LiveDoc.Fragment
