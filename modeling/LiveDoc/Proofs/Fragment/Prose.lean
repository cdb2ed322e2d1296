import LiveDoc.Execution.FragmentUnit
import LiveDoc.Fragment.ParseProgram
import LiveDoc.Proofs.Fragment.QuotedText
import LiveDoc.Proofs.Fragment.Scanning

/-!
Reading back the statement that emits a text. Whatever characters the text holds, the statement is
read as one call whose format string has the text as its only piece, or no piece at all when the
text is empty.
-/
namespace LiveDoc.Fragment

/-! ### The quoted text -/

theorem splitFields_plain {passed rest : List Char} {c : Char} (hbackslash : c ≠ '\\')
    (hopening : c ≠ '\x7b') (hclosing : c ≠ '\x7d') :
    splitFields passed (c :: rest) = splitFields (c :: passed) rest := by
  simp [splitFields, hbackslash, hopening, hclosing]

/-- A character as it is written does not end the literal, and its escape is kept. -/
theorem quotable_inFormatString : Quotable true '"' inFormatString inFormatString where
  special := by decide
  first c := by
    unfold inFormatString
    split
    · simp
    · simp
    · simp
    · simp
    · simp
    · simp
    · rename_i hquote _ _ _ _
      simpa using hquote
  reads c := by
    unfold inFormatString
    split
    · exact fun _ _ => rfl
    · exact fun _ _ => rfl
    · exact fun _ _ => rfl
    · exact fun _ _ => rfl
    · exact fun _ _ => rfl
    · exact fun _ _ => rfl
    · rename_i hbackslash hquote hline _ _ _
      exact .plain hbackslash hline hquote

theorem readQuoted_flatMap (text rest : List Char) :
    readQuoted true '"' (text.flatMap inFormatString ++ '"' :: ',' :: rest) =
      .ok ⟨text.flatMap inFormatString, (text.flatMap inFormatString).length + 1, 0⟩ :=
  quotable_inFormatString.readQuoted text (by simp)

/-- A character as it is written is read back. -/
theorem splitFields_inFormatString (c : Char) (passed rest : List Char) :
    splitFields passed (inFormatString c ++ rest) = splitFields (c :: passed) rest := by
  unfold inFormatString
  split
  · simp [splitFields, unescape]
  · simp [splitFields, unescape]
  · simp [splitFields, unescape]
  · simp [splitFields, unescape]
  · simp [splitFields]
  · simp [splitFields]
  · rename_i hbackslash _ _ _ hopening hclosing
    exact splitFields_plain hbackslash hopening hclosing

theorem splitFields_flatMap (text passed rest : List Char) :
    splitFields passed (text.flatMap inFormatString ++ rest) =
      splitFields (text.reverse ++ passed) rest := by
  induction text generalizing passed with
  | nil => rfl
  | cons c more ih =>
    rw [List.flatMap_cons, List.append_assoc, splitFields_inFormatString, ih]
    simp

/-! ### The statement -/

/-- The pieces of a format string that holds a text and no expression. -/
def textPieces (text : List Char) : List Piece := literalPiece text.reverse

theorem readLexeme_format (text rest : List Char) :
    readLexeme 'f' ('"' :: (text.flatMap inFormatString ++ '"' :: ',' :: rest)) =
      .ok ⟨.format (textPieces text), 1 + ((text.flatMap inFormatString).length + 1), 0⟩ := by
  have hsplit : splitFields [] (text.flatMap inFormatString) = .ok (textPieces text) := by
    have hread := splitFields_flatMap text [] []
    rw [List.append_nil, List.append_nil] at hread
    rw [hread, splitFields, textPieces]
  change (readQuoted true '"' (text.flatMap inFormatString ++ '"' :: ',' :: rest) >>= fun body =>
    splitFields [] body.text >>= fun pieces =>
      .ok (Lexeme.mk (.format pieces) (1 + body.size) body.newlines)) = _
  rw [readQuoted_flatMap]
  change (splitFields [] (text.flatMap inFormatString) >>= fun pieces => _) = _
  rw [hsplit]
  rfl

/-- The tokens of the statement, all but the last on its one line. -/
def proseTokens (text : List Char) : List Token :=
  [⟨1, .name "text"⟩, ⟨1, .symbol .openRound⟩, ⟨1, .format (textPieces text)⟩, ⟨1, .symbol .comma⟩,
    ⟨1, .name "end"⟩, ⟨1, .symbol .assign⟩, ⟨1, .str ""⟩, ⟨1, .symbol .closeRound⟩, ⟨1, .newline⟩,
    ⟨2, .eof⟩]

/-- The end of the statement behind the format string. -/
def proseEnd : List Char := [' ', 'e', 'n', 'd', '=', '"', '"', ')', '\n']

theorem textStatement_eq (text : List Char) :
    textStatement text = 't' :: 'e' :: 'x' :: 't' :: '(' :: 'f' :: '"' ::
      (text.flatMap inFormatString ++ '"' :: ',' :: proseEnd) := by
  have hfront : "text(f\"".toList = ['t', 'e', 'x', 't', '(', 'f', '"'] := by simp
  have hend : "\", end=\"\")\n".toList = '"' :: ',' :: proseEnd := by simp [proseEnd]
  unfold textStatement
  rw [hfront, hend]
  simp only [List.cons_append, List.nil_append]

theorem tokenize_textStatement (text : List Char) :
    tokenize (textStatement text) = .ok (proseTokens text) := by
  have hdrop : ('"' :: (text.flatMap inFormatString ++ '"' :: ',' :: proseEnd)).drop
      (1 + ((text.flatMap inFormatString).length + 1)) = ',' :: proseEnd := by
    rw [Nat.add_comm 1, List.drop_succ_cons, List.drop_append]
    simp
  rw [tokenize, textStatement_eq, scan_lineStart (by decide) (by decide) (by decide)]
  change scan true false ⟨1, 0, [], []⟩ _ = _
  rw [scan_lexeme (by decide) (by decide) (by decide) rfl
    (show _ = Except.ok ⟨.name "text", 3, 0⟩ from rfl)]
  change scan true false _ ('(' :: 'f' :: _) = _
  rw [scan_lexeme (by decide) (by decide) (by decide) rfl
    (show _ = Except.ok ⟨.symbol .openRound, 0, 0⟩ from rfl)]
  change scan true false _ ('f' :: '"' :: _) = _
  rw [scan_lexeme (by decide) (by decide) (by decide) rfl (readLexeme_format text proseEnd), hdrop]
  rw [scan_lexeme (by decide) (by decide) (by decide) rfl
    (show _ = Except.ok ⟨.symbol .comma, 0, 0⟩ from rfl)]
  change scan true false _ (' ' :: 'e' :: _) = _
  rw [scan_space (by decide), scan_lexeme (by decide) (by decide) (by decide) rfl
    (show _ = Except.ok ⟨.name "end", 2, 0⟩ from rfl)]
  change scan true false _ ('=' :: '"' :: _) = _
  rw [scan_lexeme (by decide) (by decide) (by decide) rfl
    (show _ = Except.ok ⟨.symbol .assign, 0, 0⟩ from rfl)]
  change scan true false _ ('"' :: '"' :: _) = _
  rw [scan_lexeme (by decide) (by decide) (by decide) rfl
    (show _ = Except.ok ⟨.str "", 1, 0⟩ from rfl)]
  change scan true false _ (')' :: '\n' :: _) = _
  rw [scan_lexeme (by decide) (by decide) (by decide) rfl
    (show _ = Except.ok ⟨.symbol .closeRound, 0, 0⟩ from rfl)]
  change scan true false _ ('\n' :: []) = _
  rw [scan_lineEnd rfl, scan_nil]
  rfl

/-- The parts of a format string that holds a text and no expression. -/
def textParts (text : List Char) : List FormatPart :=
  if text = [] then [] else [.literal (String.ofList text)]

/-- The call that the statement makes. -/
def proseCall (text : List Char) : Expr :=
  .call (.name "text") [.format (textParts text)] [("end", .constant (.str ""))]

theorem parseTokens_prose (field : List Char → Nat → Except SyntaxError Expr) (text : List Char) :
    parseTokens field (proseTokens text) = .ok [.mk 1 (.evaluate (proseCall text))] := by
  by_cases htext : text = []
  · subst htext
    rfl
  · have hpieces : textPieces text = [.literal (String.ofList text)] := by
      simp [textPieces, literalPiece, htext]
    have hparts : textParts text = [.literal (String.ofList text)] := if_neg htext
    rw [proseTokens, hpieces, proseCall, hparts]
    rfl

/-- The statement for a text is one call on its only line. -/
theorem parseProgram_textStatement (text : List Char) :
    parseProgram (textStatement text) = .ok [.mk 1 (.evaluate (proseCall text))] := by
  have htokens : parseProgram (textStatement text) = parseTokens
      (parseExpressionWithin (textStatement text).length) (proseTokens text) := by
    unfold parseProgram
    rw [tokenize_textStatement]
    rfl
  rw [htokens, parseTokens_prose]

end LiveDoc.Fragment
