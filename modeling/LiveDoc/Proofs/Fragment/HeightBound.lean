import LiveDoc.Proofs.Fragment.LineReading
import LiveDoc.Proofs.Fragment.LiteralTokens
import LiveDoc.Proofs.Fragment.ReadBack
import LiveDoc.Proofs.Fragment.StatementLines
import LiveDoc.Proofs.Fragment.TreeHeight
import Mathlib.Tactic.Ring

/-!
How high the trees of accepted fragments are. The levels that the reading of expressions counts
bound the steps of a path that lead to neither the object of a suffix nor a left operand. A left
operand is read before its operator takes a level, so the operators of all levels add up, and a
suffix takes no level at all. So a tree is at most `maxDepth` higher than the number of steps that
take none, and the trees without suffixes have a height bounded by the square of `maxDepth`.
-/
namespace LiveDoc.Fragment

/-- What a step of a path weighs if a step to a left operand weighs `k`. -/
def Edge.weight (k : Nat) : Edge → Nat
  | object => 0
  | left => k
  | nested => 1

/-- The bound for trees that are read with so many levels: each operand is one step higher than the
trees in it, and there may be an operator for each of the other levels but the last. -/
def levelBound (k : Nat) : (levels : Nat) → Nat
  | 0 => 0
  | levels + 1 => levelBound k levels + 1 + k * (levels - 1)

theorem levelBound_mono (k : Nat) {n m : Nat} (h : n ≤ m) : levelBound k n ≤ levelBound k m := by
  induction h with
  | refl => exact Nat.le_refl _
  | step _ ih =>
    rw [levelBound]
    omega

theorem levelBound_zero (levels : Nat) : levelBound 0 levels = levels := by
  induction levels with
  | zero => rfl
  | succ levels ih => rw [levelBound, ih, Nat.zero_mul]

theorem levelBound_one (levels : Nat) :
    levelBound 1 (levels + 1) = (levels + 1) * levels / 2 + 1 := by
  have hdouble : 2 * levelBound 1 (levels + 1) = (levels + 1) * levels + 2 := by
    induction levels with
    | zero => rfl
    | succ levels ih =>
      rw [levelBound, Nat.mul_add, Nat.mul_add, ih]
      simp only [Nat.add_sub_cancel]
      ring
  omega

variable {k n m : Nat} {fine : Expr → Prop} {e : Expr}

/-- A tree of less than the given height, all of whose fields are fine. -/
structure Expr.Within (k n : Nat) (fine : Expr → Prop) (e : Expr) : Prop where
  short : e.longest (Edge.weight k) < n
  fields : ∀ f, e.HasField f → fine f

namespace Expr.Within

theorem mono (h : e.Within k n fine) (hnm : n ≤ m) : e.Within k m fine :=
  ⟨h.short.trans_le hnm, h.fields⟩

/-- A tree that is no format string is as high as its parts let it be. -/
theorem of_parts (hformat : ∀ fields, e ≠ .format fields) (hpos : 0 < n)
    (hparts : ∀ part ∈ e.parts, ∃ m, part.2.Within k m fine ∧ part.1.weight k + m ≤ n) :
    e.Within k n fine where
  short := by
    refine longest_lt_iff.mpr ⟨hpos, fun part hpart => ?_⟩
    obtain ⟨m, hm, hle⟩ := hparts part hpart
    have hshort := hm.short
    omega
  fields f hf := by
    cases hf with
    | here => exact absurd rfl (hformat _)
    | inside hpart h =>
      obtain ⟨m, hm, -⟩ := hparts _ hpart
      exact hm.fields f h

theorem part (h : e.Within k n fine) {part : Edge × Expr} (hpart : part ∈ e.parts) :
    ∃ m, part.2.Within k m fine ∧ part.1.weight k + m ≤ n := by
  have hshort := longest_of_part (Edge.weight k) hpart
  refine ⟨part.2.longest (Edge.weight k) + 1, ⟨Nat.lt_succ_self _, fun f hf => ?_⟩, ?_⟩
  · exact h.fields f (.inside hpart hf)
  · have hlt := h.short
    omega

end Expr.Within

/-! ### Reading expressions -/

variable {field : List Char → Nat → Except SyntaxError Expr}

/-- The expressions in a format string are what its fields are read as. -/
theorem exists_source_of_parseFormat {line : Nat} {pieces : List Piece} {fields : List FormatPart}
    {f : Expr} (h : parseFormat field line pieces = .ok fields) (hf : .field f ∈ fields) :
    ∃ source, field source line = .ok f := by
  fun_induction parseFormat field line pieces generalizing fields with
  | case1 =>
    cases h
    simp at hf
  | case2 s rest ih =>
    obtain ⟨others, hothers, h⟩ := Outcome.bind_eq_ok_iff.mp h
    cases h
    exact ih hothers (by simpa using hf)
  | case3 source rest ih =>
    obtain ⟨value, hvalue, h⟩ := Outcome.bind_eq_ok_iff.mp h
    obtain ⟨others, hothers, h⟩ := Outcome.bind_eq_ok_iff.mp h
    cases h
    rcases List.mem_cons.mp hf with hf | hf
    · cases hf
      cases hread : field source.toList line with
      | ok e =>
        rw [hread] at hvalue
        cases hvalue
        exact ⟨_, hread⟩
      | error e =>
        rw [hread] at hvalue
        cases hvalue
    · exact ih hothers hf

theorem grows_within (hfield : ∀ source line f, field source line = .ok f → fine f) (n : Nat) :
    Grows field (Expr.Within k n fine) (Expr.Within k (n + 1) fine) where
  constant c := .of_parts (by simp) n.succ_pos (by simp [Expr.parts])
  name s := .of_parts (by simp) n.succ_pos (by simp [Expr.parts])
  format h := by
    refine ⟨Expr.longest_lt_iff.mpr ⟨n.succ_pos, by simp [Expr.parts]⟩, fun f hf => ?_⟩
    cases hf with
    | here hmem =>
      obtain ⟨source, hread⟩ := exists_source_of_parseFormat h hmem
      exact hfield _ _ f hread
    | inside hpart => simp [Expr.parts] at hpart
  bracketed h := h.mono n.le_succ
  list h := by
    refine .of_parts (by simp) n.succ_pos fun part hpart => ?_
    obtain ⟨e, he, rfl⟩ := List.mem_map.mp hpart
    exact ⟨n, h e he, (Nat.add_comm 1 n).le⟩
  dict h := by
    refine .of_parts (by simp) n.succ_pos fun part hpart => ?_
    obtain ⟨p, hp, hmem⟩ := List.mem_flatMap.mp hpart
    obtain ⟨hkey, hvalue⟩ := h p hp
    simp only [List.mem_cons, List.not_mem_nil, or_false] at hmem
    rcases hmem with rfl | rfl
    · exact ⟨n, hkey, (Nat.add_comm 1 n).le⟩
    · exact ⟨n, hvalue, (Nat.add_comm 1 n).le⟩
  unary h := by
    refine .of_parts (by simp) n.succ_pos fun part hpart => ?_
    rw [List.mem_singleton.mp hpart]
    exact ⟨n, h, (Nat.add_comm 1 n).le⟩
  call hcallee hargs hnamed := by
    refine .of_parts (by simp) n.succ_pos fun part hpart => ?_
    rcases List.mem_cons.mp hpart with rfl | hpart
    · exact ⟨n + 1, hcallee, (Nat.zero_add _).le⟩
    · rcases List.mem_append.mp hpart with hpart | hpart
      · obtain ⟨e, he, rfl⟩ := List.mem_map.mp hpart
        exact ⟨n, hargs e he, (Nat.add_comm 1 n).le⟩
      · obtain ⟨p, hp, rfl⟩ := List.mem_map.mp hpart
        exact ⟨n, hnamed p hp, (Nat.add_comm 1 n).le⟩
  ofAttribute h := by
    refine .of_parts (by simp) n.succ_pos fun part hpart => ?_
    rw [List.mem_singleton.mp hpart]
    exact ⟨n + 1, h, (Nat.zero_add _).le⟩
  item hobject hindex := by
    refine .of_parts (by simp) n.succ_pos fun part hpart => ?_
    rcases List.mem_cons.mp hpart with rfl | hpart
    · exact ⟨n + 1, hobject, (Nat.zero_add _).le⟩
    · rw [List.mem_singleton.mp hpart]
      exact ⟨n, hindex, (Nat.add_comm 1 n).le⟩

/-- An operator makes its left operand higher, and its right one was read with fewer levels. -/
theorem within_apply {i : Infix} {chained : Bool} {l r : Expr} (hl : l.Within k n fine)
    (hr : r.Within k m fine) (hm : m < n) : (i.apply chained l r).Within k (n + k) fine := by
  have hpos : 0 < n + k := by omega
  have hleft : ∃ m, l.Within k m fine ∧ Edge.left.weight k + m ≤ n + k :=
    ⟨n, hl, (Nat.add_comm k n).le⟩
  have hright : ∃ m, r.Within k m fine ∧ Edge.nested.weight k + m ≤ n + k :=
    ⟨m, hr, by simp only [Edge.weight]; omega⟩
  fun_cases Infix.apply i chained l r with
  | case1 op first others =>
    refine .of_parts (by simp) hpos fun part hpart => ?_
    simp only [Expr.parts, List.map_append, ← List.cons_append, List.mem_append] at hpart
    rcases hpart with hpart | hpart
    · obtain ⟨b, hb, hle⟩ := hl.part hpart
      exact ⟨b, hb, by omega⟩
    · rw [List.mem_singleton.mp hpart]
      exact hright
  | _ =>
    exact .of_parts (by simp) hpos
      (List.forall_mem_cons.mpr ⟨hleft, List.forall_mem_singleton.mpr hright⟩)

theorem growsByLevels (k : Nat) (hfield : ∀ source line f, field source line = .ok f → fine f) :
    GrowsByLevels field (fun n => Expr.Within k (levelBound k n) fine)
      fun n m e => m ≤ n ∧ (m = n ∨ 0 < m) ∧
        e.Within k (levelBound k n + 1 + k * (n - m)) fine where
  operand n := by
    have hsame : (fun e : Expr => n ≤ n ∧ (n = n ∨ 0 < n) ∧
        e.Within k (levelBound k n + 1 + k * (n - n)) fine) =
          Expr.Within k (levelBound k n + 1) fine := by
      funext e
      simp
    rw [hsame]
    exact grows_within hfield (levelBound k n)
  operator := by
    rintro n m i chained l r ⟨hm, -, hl⟩ hr
    have hsome : 0 < m := by
      rcases Nat.eq_zero_or_pos m with rfl | hpos
      · exact absurd hr.short (Nat.not_lt_zero _)
      · exact hpos
    refine ⟨Nat.le_of_succ_le hm, .inr hsome, ?_⟩
    have hbelow := levelBound_mono k (Nat.le_of_succ_le hm)
    have hsteps : k * (n - m) = k * (n - (m + 1)) + k := by
      rw [← Nat.mul_succ]
      congr 1
      omega
    rw [hsteps, ← Nat.add_assoc]
    exact within_apply hl hr (by omega)
  whole := by
    rintro n m e ⟨hm, hend, he⟩
    refine he.mono ?_
    rw [levelBound]
    have hle : n - m ≤ n - 1 := by omega
    have hmul := Nat.mul_le_mul_left k hle
    omega

/-! ### Accepted fragments -/

/-- A tree is as high as reading allows it. -/
def Expr.Low (e : Expr) : Prop := ∀ k, e.longest (Edge.weight k) < levelBound k maxDepth

/-- The tree of an expression or of a field in it, and in that, and so on. -/
def Expr.TreeIn (e t : Expr) : Prop := Relation.ReflTransGen Expr.HasField e t

def Expr.AllLow (e : Expr) : Prop := ∀ t, e.TreeIn t → t.Low

theorem allLow_of_within (h : ∀ k, e.Within k (levelBound k maxDepth) Expr.AllLow) : e.AllLow := by
  intro t ht
  rcases Relation.ReflTransGen.cases_head ht with rfl | ⟨f, hf, hrest⟩
  · exact fun k => (h k).short
  · exact (h 0).fields f hf t hrest

variable {base : List Token}

theorem reads_allLow (hfield : ∀ source line f, field source line = .ok f → f.AllLow) :
    Reads base (parseExpr field maxDepth 0) Expr.AllLow := by
  intro tokens hbase hsome
  have hk : ∀ k, Ends base (Expr.Within k (levelBound k maxDepth) Expr.AllLow)
      (parseExpr field maxDepth 0 tokens) :=
    fun k => reads_levels (growsByLevels k hfield) maxDepth 0 tokens hbase hsome
  refine (hk 0).mono fun e rest hread _ => allLow_of_within fun k => ?_
  have hends := hk k
  rw [hread] at hends
  exact hends.2.2

theorem allLow_of_fields {nesting line : Nat} {source : List Char}
    (hfield : ∀ source line f, fieldsWithin nesting source line = .ok f → f.AllLow)
    (h : parseExpressionWithin nesting source line = .ok e) : e.AllLow := by
  obtain ⟨tokens, left, htokens, hrun⟩ := parseExpressionWithin_eq_ok_iff.mp h
  obtain ⟨body, last, rfl⟩ := exists_eof htokens
  obtain ⟨value, behind, hread, hend⟩ := Outcome.run_bind_eq_ok_iff.mp hrun
  have hends := reads_allLow hfield _ List.suffix_rfl (List.append_ne_nil_of_right_ne_nil body
    (List.cons_ne_nil ⟨last, .eof⟩ []))
  rw [hread] at hends
  obtain ⟨kind, stop, -, hend⟩ := Outcome.run_bind_eq_ok_iff.mp hend
  split at hend
  · cases hend
    exact hends.2.2
  · obtain ⟨error, rest, hfail⟩ := failHere_eq_error (α := Expr) .invalidSyntax stop
    rw [hfail] at hend
    cases hend

theorem allLow_of_parseExpressionWithin {nesting line : Nat} {source : List Char}
    (h : parseExpressionWithin nesting source line = .ok e) : e.AllLow := by
  induction nesting generalizing source line e with
  | zero =>
    refine allLow_of_fields (fun source line f hread => ?_) h
    rw [fieldsWithin] at hread
    cases hread
  | succ nesting ih =>
    refine allLow_of_fields (fun source line f hread => ?_) h
    rw [fieldsWithin] at hread
    exact ih hread

theorem Expr.AllLow.index {object index : Expr} (h : (Expr.item object index).AllLow) :
    index.AllLow := by
  have hpart : (Edge.nested, index) ∈ (Expr.item object index).parts := by simp [Expr.parts]
  intro t ht
  rcases Relation.ReflTransGen.cases_head ht with rfl | ⟨f, hf, hrest⟩
  · intro k
    have hlow := h _ .refl k
    have hlongest : 1 + index.longest (Edge.weight k) ≤
        (Expr.item object index).longest (Edge.weight k) :=
      Expr.longest_of_part (Edge.weight k) hpart
    omega
  · exact h t (.head (.inside hpart hf) hrest)

theorem fit_allLow (code : List Char) (base : List Token) :
    Fit Expr.AllLow (expressionReader code) base :=
  ⟨reads_allLow fun _ _ _ hread => allLow_of_parseExpressionWithin hread,
    readsExprs_parseExpr maxDepth 0, Expr.AllLow.index⟩

/-- The trees of accepted fragments and expressions. -/
inductive Parsed : Expr → Prop where
  | inProgram {code : List Char} {program : Program} {s : Stmt} {e : Expr}
    (h : parseProgram code = .ok program) (hs : Inside s program) (he : e ∈ s.action.exprs) :
    Parsed e
  | alone {source : List Char} {line : Nat} {e : Expr} (h : parseExpression source line = .ok e) :
    Parsed e
  | inFormat {e f : Expr} (h : Parsed e) (hf : e.HasField f) : Parsed f

theorem Parsed.allLow (h : Parsed e) : e.AllLow := by
  induction h with
  | @inProgram code program s e h hs he =>
    obtain ⟨before, ⟨front, t, back, -, hread, -⟩, -⟩ := line_of_parseProgram h hs
    obtain ⟨inLoop, fuel, left, hrun⟩ := hread.read
    have hends := ends_parseStatement (fit_allLow code (t :: back)) inLoop fuel List.suffix_rfl
    rw [hrun] at hends
    exact hends.2.2.exprs e he
  | alone h => exact allLow_of_parseExpressionWithin h
  | inFormat _ hf ih => exact fun t ht => ih t (.head hf ht)

/-- An accepted tree is at most `maxDepth` higher than the steps on a path that take no level. Those
to left operands are bounded too, but those to the objects of suffixes are not. -/
theorem height_of_parsed (h : Parsed e) :
    e.height ≤ maxDepth + e.leading ∧
      e.height ≤ maxDepth * (maxDepth - 1) / 2 + 1 + e.suffixes := by
  have hlow := h.allLow e .refl
  have hsum : ∀ weight : Edge → Nat, ∀ k, (∀ edge, edge.weight k + weight edge = 1) →
      e.height ≤ levelBound k maxDepth + e.longest weight := by
    intro weight k hone
    have hadd := Expr.longest_add_le (Edge.weight k) weight e
    have hshort := hlow k
    rw [show (fun edge => Edge.weight k edge + weight edge) = fun _ => 1 from funext hone] at hadd
    rw [Expr.height]
    omega
  constructor
  · have hle := hsum Edge.leading 0 (fun edge => by cases edge <;> rfl)
    rwa [levelBound_zero] at hle
  · have hle := hsum Edge.suffix 1 (fun edge => by cases edge <;> rfl)
    rwa [show maxDepth = 199 + 1 from rfl, levelBound_one] at hle

theorem height_of_parsed_mixed :
    ∃ e, Parsed e ∧ e.height ≤ maxDepth + e.leading ∧
      e.height ≤ maxDepth * (maxDepth - 1) / 2 + 1 + e.suffixes := by
  obtain ⟨e, he⟩ := Outcome.isOk_iff_exists.mp (show
    (parseExpression "f(a.b[0] + -2, [1 < x])(y) - 1".toList 1).isOk = true by decide +kernel)
  exact ⟨e, .alone he, height_of_parsed (.alone he)⟩

/-! ### Trees that are higher -/

variable {rest : List Char} {kinds : List Token.Kind}

/-- What is scanned as the tokens of an expression is read as this expression. -/
theorem parseExpression_of_scannedAs {text : List Char} {e : Expr}
    (hscan : ScannedAs text e.kinds []) (he : e.Written) (hdepth : e.depth ≤ maxDepth)
    (line : Nat) :
    parseExpression text line = .ok e := by
  obtain ⟨s, hline, htokens, hrest⟩ := hscan ⟨line, 0, [], []⟩
  have htext : tokenizeExpression text line =
      .ok (e.kinds.map (Token.mk line) ++ [⟨line, .eof⟩]) := by
    rw [List.append_nil, scan_nil] at hrest
    rw [tokenizeExpression, hrest]
    simp only at hline
    simp [Scanner.finish, Scanner.push, htokens, hline]
  have hkinds : (e.kinds.map (Token.mk line)).map Token.kind = e.kinds := by
    rw [List.map_map]
    exact List.map_id e.kinds
  have hread : parseExpr (fieldsWithin text.length) maxDepth 0
      (e.kinds.map (Token.mk line) ++ [⟨line, .eof⟩]) = .ok e [⟨line, .eof⟩] :=
    (readsIf_parseExpr he hkinds rfl maxDepth).reads hdepth
  exact parseExpressionWithin_eq_ok_iff.mpr ⟨_, _, htext,
    Outcome.run_bind_eq_ok_iff.mpr ⟨e, _, hread, rfl⟩⟩

theorem scannedAs_letter {c : Char} (hstart : isWordStart c = true)
    (hplain : c.isDigit = false ∧ isQuote c = false ∧ c ≠ 'f' ∧ c ≠ 'F')
    (hspace : isInlineSpace c = false) (hrest : ∀ d ∈ rest.head?, isWordChar d = false) :
    ScannedAs [c] [.name (String.singleton c)] rest := by
  obtain ⟨hdigit, hquote, hsmall, hlarge⟩ := hplain
  have hother (d : Char) (hd : isWordStart d = false) : c ≠ d := by
    rintro rfl
    exact Bool.noConfusion (hd.symm.trans hstart)
  have hword : readWord c rest = .ok ⟨.name (String.singleton c), 0, 0⟩ := by
    rw [← wordOf_nil]
    cases rest with
    | nil => exact readWord_nil c
    | cons d more =>
      have hnone : (d :: more).takeWhile isWordChar = [] := by simp [hrest d rfl]
      have hmark : isFormatMark c d = false := by simp [isFormatMark, hsmall, hlarge]
      rw [readWord_cons, hmark, hnone]
      rfl
  refine .lexeme hspace (hother _ (by decide)) (hother _ (by decide)) (hother _ (by decide)) ?_
  rw [List.nil_append, readLexeme, hdigit, hquote, hstart]
  exact hword

/-- An attribute of an attribute, `n` times. -/
def attributes : (n : Nat) → Expr
  | 0 => .name "a"
  | n + 1 => .attribute (attributes n) "b"

def attributesText : (n : Nat) → List Char
  | 0 => ['a']
  | n + 1 => attributesText n ++ (['.'] ++ ['b'])

theorem lt_height_attributes (n : Nat) : n < (attributes n).height := by
  induction n with
  | zero => exact Nat.succ_pos _
  | succ n ih =>
    have hpart : (Edge.object, attributes n) ∈ (attributes (n + 1)).parts :=
      List.mem_singleton_self _
    exact Nat.lt_of_le_of_lt ih (Expr.height_lt_of_part hpart)

theorem level_attributes (n : Nat) : (attributes n).level = objectNeed := by
  cases n with
  | zero => rfl
  | succ n => rfl

theorem kinds_attributes (n : Nat) :
    (attributes (n + 1)).kinds = (attributes n).kinds ++ ([.symbol .dot] ++ [.name "b"]) := by
  rw [attributes, Expr.kinds, level_attributes]
  rfl

theorem written_attributes (n : Nat) : (attributes n).Written := by
  induction n with
  | zero => exact .name "a"
  | succ n ih => exact .attribute "b" ih

theorem depth_attributes (n : Nat) : (attributes n).depth = 1 := by
  induction n with
  | zero => rfl
  | succ n ih =>
    rw [attributes, Expr.depth, level_attributes, placedDepth, if_neg (Nat.lt_irrefl _), ih]

theorem scannedAs_attributes (n : Nat) (hrest : ∀ d ∈ rest.head?, isWordChar d = false) :
    ScannedAs (attributesText n) (attributes n).kinds rest := by
  induction n generalizing rest with
  | zero => exact scannedAs_letter (by decide) (by decide) (by decide) hrest
  | succ n ih =>
    have hletter : ScannedAs ['b'] [.name "b"] rest :=
      scannedAs_letter (by decide) (by decide) (by decide) hrest
    have hdot : ScannedAs ['.'] [.symbol .dot] (['b'] ++ rest) :=
      .symbol rfl fun d _ => by simp [Symbol.ofPair?]
    rw [kinds_attributes]
    exact .append (ih (by simp; decide)) (hdot.append hletter)

theorem parseExpression_attributes (n line : Nat) :
    parseExpression (attributesText n) line = .ok (attributes n) :=
  parseExpression_of_scannedAs (scannedAs_attributes n (by simp)) (written_attributes n)
    (by rw [depth_attributes]; decide) line

def nestedListsText : (n : Nat) → List Char
  | 0 => ['['] ++ [']']
  | n + 1 => ['['] ++ (nestedListsText n ++ [']'])

theorem kinds_nestedLists (n : Nat) : (nestedLists (n + 1)).kinds =
    [.symbol .openSquare] ++ ((nestedLists n).kinds ++ [.symbol .closeSquare]) := by
  rw [nestedLists, Expr.kinds, kindsOfItems, kindsOfItems, separated, List.intercalate_singleton]
  rfl

theorem level_nestedLists (n : Nat) : (nestedLists n).level = 18 := by
  cases n with
  | zero => rfl
  | succ n => rfl

theorem lt_height_nestedLists (n : Nat) : n < (nestedLists n).height := by
  induction n with
  | zero => exact Nat.succ_pos _
  | succ n ih =>
    have hpart : (Edge.nested, nestedLists n) ∈ (nestedLists (n + 1)).parts :=
      List.mem_singleton_self _
    exact Nat.lt_of_le_of_lt ih (Expr.height_lt_of_part hpart)

theorem scannedAs_nestedLists (n : Nat) (rest : List Char) :
    ScannedAs (nestedListsText n) (nestedLists n).kinds rest := by
  have hopen (rest : List Char) : ScannedAs ['['] [.symbol .openSquare] rest :=
    .symbol rfl fun d _ => by simp [Symbol.ofPair?]
  have hclose (rest : List Char) : ScannedAs [']'] [.symbol .closeSquare] rest :=
    .symbol rfl fun d _ => by simp [Symbol.ofPair?]
  induction n generalizing rest with
  | zero => exact (hopen _).append (hclose rest)
  | succ n ih =>
    rw [kinds_nestedLists]
    exact (hopen _).append ((ih ([']'] ++ rest)).append (hclose rest))

/-- The left operand may take all levels, and so the whole is higher. -/
def nestedListsPlusOne (n : Nat) : Expr := .binary .add (nestedLists n) (.constant (.int 1))

theorem parseExpression_nestedListsPlusOne {n : Nat} (hn : n < maxDepth) (line : Nat) :
    parseExpression (nestedListsText n ++ (['+'] ++ ['1'])) line =
      .ok (nestedListsPlusOne n) := by
  have hplus : ScannedAs ['+'] [.symbol .plus] (['1'] ++ []) :=
    .symbol rfl (by simp [Symbol.ofPair?])
  have hone : ScannedAs ['1'] [.int 1] [] :=
    scannedAs_numeral (n := 1) (by decide) (by simp [EndsLiteral])
  refine parseExpression_of_scannedAs ?_ (.binary _ (written_nestedLists n) (.constant _)) ?_ line
  · rw [Expr.kinds, level_nestedLists]
    exact (scannedAs_nestedLists n _).append (hplus.append hone)
  · have hchain : (nestedLists n).chain = 0 := by
      cases n with
      | zero => rfl
      | succ n => rfl
    rw [Expr.depth, level_nestedLists, depth_nestedLists, hchain]
    change max (n + 1) 3 ≤ maxDepth
    exact Nat.max_le.mpr ⟨hn, by decide⟩

theorem higher_than_maxDepth :
    (parseExpression (attributesText 200) 1 = .ok (attributes 200) ∧
        maxDepth < (attributes 200).height) ∧
      parseExpression (nestedListsText 199 ++ (['+'] ++ ['1'])) 1 = .ok (nestedListsPlusOne 199) ∧
        maxDepth < (nestedListsPlusOne 199).height := by
  have hpart : (Edge.left, nestedLists 199) ∈ (nestedListsPlusOne 199).parts := by
    simp [nestedListsPlusOne, Expr.parts]
  exact ⟨⟨parseExpression_attributes 200 1, lt_height_attributes 200⟩,
    parseExpression_nestedListsPlusOne (by decide) 1,
    Nat.lt_of_le_of_lt (lt_height_nestedLists 199) (Expr.height_lt_of_part hpart)⟩

end LiveDoc.Fragment
