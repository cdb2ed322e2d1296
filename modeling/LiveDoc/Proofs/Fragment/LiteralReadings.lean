import LiveDoc.Proofs.Fragment.LineReading
import LiveDoc.Proofs.Fragment.Prose

/-!
A literal read in two ways. A plain string has its escapes resolved while it is read; in a format
string they are kept, and resolved when the pieces are cut out. Both readings go through the same
characters, so they fail for the same reason or end at the same place. Where none of the characters
is a curly bracket, the format string has the text of the plain one for its only piece.
-/
namespace LiveDoc.Fragment

/-! ### Escapes kept and resolved -/

/-- Characters as they are written and what they stand for, both in reverse. -/
inductive Resolves : List Char → List Char → Prop where
  | nil : Resolves [] []
  | plain {kept text : List Char} {c : Char} :
    c ≠ '\\' → Resolves kept text → Resolves (c :: kept) (c :: text)
  | escape {kept text : List Char} (c : Char) :
    Resolves kept text → Resolves (c :: '\\' :: kept) (unescape c :: text)

/-- Both readings fail for one reason, or they end at one place. -/
inductive ReadAlike : Except SyntaxError.Cause Body → Except SyntaxError.Cause Body → Prop where
  | fails (e : SyntaxError.Cause) : ReadAlike (.error e) (.error e)
  | ends {plain : Body} {kept : List Char} :
    Resolves kept plain.text.reverse →
      ReadAlike (.ok plain) (.ok { plain with text := kept.reverse })

variable {kept text rest : List Char} {before body : Body}

/-- The two readings make the same steps, and each step adds what stands for the same. -/
theorem readAlike_readBody (q : Quoting) (h : Resolves kept before.text) :
    ReadAlike (readBody false q before rest)
      (readBody true q { before with text := kept } rest) := by
  fun_induction readBody false q before rest generalizing kept with
  | case1 => exact .fails _
  | case2 => exact .fails _
  | case3 before rest ih => exact ih h
  | case4 before c rest hc added =>
    rename_i ih
    rw [readBody]
    · exact ih (.escape c h)
    · exact hc
  | case5 before rest htriple h1 h2 h3 ih =>
    rw [readBody_of_ne (by decide), if_pos rfl, if_pos htriple]
    exact ih (.plain (by decide) h)
  | case6 before rest hshort =>
    rw [readBody_of_ne (by decide), if_pos rfl, if_neg hshort]
    exact .fails _
  | case7 before c rest h1 h2 h3 hc hend =>
    have hplain : c ≠ '\\' := ne_backslash h1 h3
    rw [readBody_of_ne hplain, if_neg hc, if_pos hend]
    refine .ends ?_
    rwa [List.reverse_reverse]
  | case8 before c rest h1 h2 h3 hc hend ih =>
    have hplain : c ≠ '\\' := ne_backslash h1 h3
    rw [readBody_of_ne hplain, if_neg hc, if_neg hend]
    exact ih (.plain hplain h)

theorem readAlike_readQuoted (quote : Char) (rest : List Char) :
    ReadAlike (readQuoted false quote rest) (readQuoted true quote rest) :=
  readAlike_readBody (Quoting.of quote rest) .nil

/-! ### Pieces of a body without curly brackets -/

/-- Characters of a body with its escapes are cut up as what they stand for. -/
theorem Resolves.splitFields_eq (h : Resolves kept text)
    (hcurly : ∀ c ∈ kept, c ≠ '\x7b' ∧ c ≠ '\x7d') (passed rest : List Char) :
    splitFields passed (kept.reverse ++ rest) = splitFields (text ++ passed) rest := by
  induction h generalizing rest with
  | nil => rfl
  | @plain kept text c hc _ ih =>
    obtain ⟨⟨hopening, hclosing⟩, hkept⟩ := List.forall_mem_cons.mp hcurly
    rw [List.reverse_cons, List.append_assoc, ih hkept, List.singleton_append,
      splitFields_plain hc hopening hclosing, List.cons_append]
  | @escape kept text c _ ih =>
    have hkept := (List.forall_mem_cons.mp (List.forall_mem_cons.mp hcurly).2).2
    rw [List.reverse_cons, List.reverse_cons, List.append_assoc, List.append_assoc, ih hkept,
      List.singleton_append, List.singleton_append, splitFields, List.cons_append]

/-- The pieces of a text without expressions. -/
theorem literalPiece_reverse (text : List Char) :
    literalPiece text.reverse =
      if text = [] then [] else [.literal (String.ofList text)] := by
  simp [literalPiece]

/-! ### Characters of a body -/

/-- Reading goes on from `before` to `body`, the text of which has no other characters than those
that were there before and those that are read. -/
def TakesFrom (before : Body) (text : List Char) (body : Body) : Prop :=
  ∃ size, body.size = before.size + size ∧
    ∀ c ∈ body.text, c ∈ before.text ∨ c ∈ text.take size

theorem TakesFrom.behind {next : Body} (taken : List Char) (h : TakesFrom next rest body)
    (hsize : next.size = before.size + taken.length)
    (htext : ∀ c ∈ next.text, c ∈ before.text ∨ c ∈ taken) :
    TakesFrom before (taken ++ rest) body := by
  obtain ⟨size, hbody, hmem⟩ := h
  refine ⟨taken.length + size, by omega, fun c hc => ?_⟩
  rw [List.take_length_add_append, List.mem_append, ← or_assoc]
  exact (hmem c hc).imp_left (htext c)

theorem takesFrom_of_readBody {q : Quoting} (h : readBody true q before rest = .ok body) :
    TakesFrom before rest body := by
  fun_induction readBody true q before rest with
  | case1 => cases h
  | case2 => cases h
  | case3 before rest ih => exact (ih h).behind ['\\', '\n'] rfl fun c hc => .inl hc
  | case4 before c rest hc added ih =>
    refine (ih h).behind ['\\', c] rfl fun d hd => ?_
    simpa [added, or_comm, or_assoc] using hd
  | case5 before rest htriple h1 h2 h3 ih =>
    refine (ih h).behind ['\n'] rfl fun d hd => ?_
    simpa [or_comm] using hd
  | case6 => cases h
  | case7 before c rest h1 h2 h3 hc hend =>
    cases h
    exact ⟨q.width, rfl, fun d hd => .inl (List.mem_reverse.mp hd)⟩
  | case8 before c rest h1 h2 h3 hc hend ih =>
    refine (ih h).behind [c] rfl fun d hd => ?_
    simpa [or_comm] using hd

/-- The text of a body with its escapes is made of characters that are read. -/
theorem mem_take_of_readQuoted {quote c : Char} (h : readQuoted true quote rest = .ok body)
    (hc : c ∈ body.text) : c ∈ rest.take body.size := by
  obtain ⟨size, hsize, hmem⟩ := takesFrom_of_readBody h
  rw [hsize, List.take_add, List.mem_append]
  exact .inr ((hmem c hc).resolve_left List.not_mem_nil)

/-! ### Both readings -/

/-- No character of a text begins or ends an expression in a format string. -/
def NoCurly (text : List Char) : Prop := ∀ c ∈ text, c ≠ '\x7b' ∧ c ≠ '\x7d'

instance : DecidablePred NoCurly := fun text =>
  List.decidableBAll (fun c => c ≠ '\x7b' ∧ c ≠ '\x7d') text

/-- A literal read from the same characters with its escapes resolved and with its escapes kept. -/
structure Agree (taken : List Char) (plain raw : Body) : Prop where
  size : raw.size = plain.size
  newlines : raw.newlines = plain.newlines
  pieces : NoCurly taken → splitFields [] raw.text =
    .ok (if plain.text = [] then [] else [.literal (String.ofList plain.text)])

theorem readQuoted_cases (quote : Char) (rest : List Char) :
    (∃ e, readQuoted false quote rest = .error e ∧ readQuoted true quote rest = .error e) ∨
    ∃ plain raw, readQuoted false quote rest = .ok plain ∧
      readQuoted true quote rest = .ok raw ∧ Agree (rest.take plain.size) plain raw := by
  have halike := readAlike_readQuoted quote rest
  generalize hplain : readQuoted false quote rest = first at halike
  generalize hraw : readQuoted true quote rest = second at halike
  cases halike with
  | fails e => exact .inl ⟨e, rfl, rfl⟩
  | @ends plain kept hresolves =>
    refine .inr ⟨plain, _, rfl, rfl, rfl, rfl, fun hcurly => ?_⟩
    have hkept : ∀ c ∈ kept, c ≠ '\x7b' ∧ c ≠ '\x7d' := by
      intro c hc
      have hmem := mem_take_of_readQuoted hraw (List.mem_reverse.mpr hc)
      exact hcurly c hmem
    have hsplit := hresolves.splitFields_eq hkept [] []
    rw [List.append_nil, List.append_nil] at hsplit
    rw [hsplit, splitFields, literalPiece_reverse]

/-- For every text that begins with a quote, on every line. Read with its escapes resolved or kept,
the literal fails with the same error, or it takes the same characters and lines; and if there is no
curly bracket among these, the pieces of the one are the text of the other. -/
theorem literals_agree (s : Scanner) (quote : Char) (rest : List Char) :
    (∃ e, s.locate (readQuoted false quote rest) = .error e ∧
      s.locate (readQuoted true quote rest) = .error e) ∨
    ∃ plain raw, s.locate (readQuoted false quote rest) = .ok plain ∧
      s.locate (readQuoted true quote rest) = .ok raw ∧
      raw.size = plain.size ∧ s.line + raw.newlines = s.line + plain.newlines ∧
      (NoCurly (rest.take plain.size) → splitFields [] raw.text =
        .ok (if plain.text = [] then [] else [.literal (String.ofList plain.text)])) := by
  rcases readQuoted_cases quote rest with ⟨e, hplain, hraw⟩ | ⟨plain, raw, hplain, hraw, h⟩
  · rw [hplain, hraw]
    exact .inl ⟨⟨e, s.line⟩, rfl, rfl⟩
  · rw [hplain, hraw]
    exact .inr ⟨plain, raw, rfl, rfl, h.size, by rw [h.newlines], h.pieces⟩

/-- A long literal with an escaped quote, joined lines, an escape of no meaning and two backslashes
in front of a newline. -/
def escapedText : List Char := "''a\\'b\\\n\\q\\\\\nc''' + d".toList

theorem literals_agree_of_escapes :
    ∃ plain raw, (⟨7, 0, [], []⟩ : Scanner).locate (readQuoted false '\'' escapedText) = .ok plain ∧
      (⟨7, 0, [], []⟩ : Scanner).locate (readQuoted true '\'' escapedText) = .ok raw ∧
      plain.text ≠ raw.text ∧ plain.size = 17 ∧ raw.size = 17 ∧ 7 + raw.newlines = 9 ∧
      NoCurly (escapedText.take 17) ∧ splitFields [] raw.text = .ok [.literal "a'bq\\\nc"] := by
  have hplain : (⟨7, 0, [], []⟩ : Scanner).locate (readQuoted false '\'' escapedText) =
      .ok ⟨"a'bq\\\nc".toList, 17, 2⟩ := rfl
  have hraw : (⟨7, 0, [], []⟩ : Scanner).locate (readQuoted true '\'' escapedText) =
      .ok ⟨"a\\'b\\q\\\\\nc".toList, 17, 2⟩ := rfl
  have hcurly : NoCurly (escapedText.take 17) := by decide
  have hagree := literals_agree ⟨7, 0, [], []⟩ '\'' escapedText
  rw [hplain, hraw] at hagree
  rcases hagree with ⟨e, hfail, -⟩ | ⟨plain, raw, hfirst, hsecond, -, -, hpieces⟩
  · cases hfail
  · cases hfirst
    cases hsecond
    exact ⟨_, _, hplain, hraw, by decide, rfl, rfl, rfl, hcurly, hpieces hcurly⟩

/-- A format string without expressions is the plain string with the same quotes. -/
theorem readLexeme_format_of_str {mark quote : Char} {s : String} {size newlines : Nat}
    (hmark : isFormatMark mark quote = true)
    (h : readLexeme quote rest = .ok ⟨.str s, size, newlines⟩)
    (hcurly : NoCurly (rest.take size)) :
    readLexeme mark (quote :: rest) =
      .ok ⟨.format (if s = "" then [] else [.literal s]), 1 + size, newlines⟩ := by
  obtain ⟨hfirst, hquote⟩ := Bool.and_eq_true_iff.mp hmark
  have hdigit : quote.isDigit = false := by
    rcases quote_cases hquote with rfl | rfl <;> rfl
  have hword : readLexeme mark (quote :: rest) = readWord mark (quote :: rest) := by
    rcases Bool.or_eq_true_iff.mp hfirst with hf | hf <;> obtain rfl := of_decide_eq_true hf <;> rfl
  rw [readLexeme, hdigit, hquote] at h
  obtain ⟨body, hbody, h⟩ := Outcome.bind_eq_ok_iff.mp h
  cases h
  rcases readQuoted_cases quote rest with ⟨e, hplain, -⟩ | ⟨plain, raw, hplain, hraw, hagree⟩
  · rw [hbody] at hplain
    cases hplain
  · obtain rfl : body = plain := Except.ok.inj (hbody.symm.trans hplain)
    rw [hword, readWord_cons, if_pos hmark]
    refine readFormat_eq_ok_iff.mpr ⟨raw, _, hraw, hagree.pieces hcurly, ?_⟩
    simp [hagree.size, hagree.newlines, String.ofList_eq_empty_iff]

end LiveDoc.Fragment
