import LiveDoc.Proofs.Fragment.ScanBehind

/-!
The places of tokens. A written token stands where its first character is, a newline token where its
logical line ends, indents and dedents where the first token of their line is, and the last token at
the end of the source. `Marked` says so by what a source is made of, with no line in it: each piece
of the source is white space, a comment, the end of a line, two lines joined, or a token. The line
of every token is then the line of the source and the newlines in front of the token's place,
whichever pieces these newlines belong to.
-/
namespace LiveDoc.Fragment

/-- A token that stands behind the text `before`. -/
structure Mark where
  before : List Char
  kind : Token.Kind

/-- The token of a mark in a source that begins on the given line. -/
def Mark.token (line : Nat) (m : Mark) : Token := ⟨line + newlines m.before, m.kind⟩

/-- Tokens that stand at one place. -/
def marksAt (before : List Char) (kinds : List Token.Kind) : List Mark :=
  kinds.map fun kind => ⟨before, kind⟩

/-- What the end of a logical line gives. -/
def EndsLogicalLine (kinds : List Token.Kind) : Prop := kinds = [] ∨ kinds = [.newline]

/-- What the indent of a logical line gives. -/
def BeginsLogicalLine (kinds : List Token.Kind) : Prop :=
  kinds = [.indent] ∨ ∃ count, kinds = List.replicate count .dedent

/-- What the end of a source gives: without layout, no more than the last token. -/
def EndsSource (layout : Bool) (kinds : List Token.Kind) : Prop :=
  ∃ ended count, EndsLogicalLine ended ∧ (layout = false → ended = [] ∧ count = 0) ∧
    kinds = ended ++ List.replicate count .dedent ++ [.eof]

/-- The rest of a source, behind `before`, is made of pieces that give the marks. A logical line may
begin `atStart`, and `depth` brackets are open. -/
inductive Marked (layout : Bool) : Bool → Nat → List Char → List Char → List Mark → Prop where
  | space {atStart : Bool} {depth : Nat} {before text : List Char} {marks : List Mark} {c : Char}
      (hspace : isInlineSpace c = true)
      (h : Marked layout atStart depth (before ++ [c]) text marks) :
      Marked layout atStart depth before (c :: text) marks
  | comment {atStart : Bool} {depth : Nat} {before words text : List Char} {marks : List Mark}
      (hwords : '\n' ∉ words) (htext : ∀ c ∈ text.head?, c = '\n')
      (h : Marked layout atStart depth (before ++ '#' :: words) text marks) :
      Marked layout atStart depth before ('#' :: (words ++ text)) marks
  | blankLine {depth : Nat} {before text : List Char} {marks : List Mark}
      (h : Marked layout true depth (before ++ ['\n']) text marks) :
      Marked layout true depth before ('\n' :: text) marks
  | lineEnd {before text : List Char} {marks : List Mark} {kinds : List Token.Kind}
      (hlayout : layout = true) (hkinds : EndsLogicalLine kinds)
      (h : Marked layout true 0 (before ++ ['\n']) text marks) :
      Marked layout false 0 before ('\n' :: text) (marksAt before kinds ++ marks)
  | lineGoesOn {depth : Nat} {before text : List Char} {marks : List Mark}
      (hopen : layout = false ∨ depth ≠ 0)
      (h : Marked layout false depth (before ++ ['\n']) text marks) :
      Marked layout false depth before ('\n' :: text) marks
  | lineStart {depth : Nat} {before text : List Char} {marks : List Mark} {c : Char}
      {kinds : List Token.Kind} (hspace : isInlineSpace c = false) (hcomment : c ≠ '#')
      (hline : c ≠ '\n') (hkinds : BeginsLogicalLine kinds)
      (h : Marked layout false depth before (c :: text) marks) :
      Marked layout true depth before (c :: text) (marksAt before kinds ++ marks)
  | join {depth : Nat} {before joint text : List Char} {marks : List Mark}
      (hjoint : joint = ['\\', '\n'] ∨ joint = ['\\', '\r', '\n'])
      (h : Marked layout false depth (before ++ joint) text marks) :
      Marked layout false depth before (joint ++ text) marks
  | lexeme {depth : Nat} {before text : List Char} {marks : List Mark} {c : Char} {l : Lexeme}
      (hspace : isInlineSpace c = false) (hcomment : c ≠ '#') (hline : c ≠ '\n')
      (hjoin : joinSize c text = none) (hread : readLexeme c text = .ok l)
      (h : Marked layout false (l.kind.depthAfter depth) (before ++ c :: text.take l.size)
        (text.drop l.size) marks) :
      Marked layout false depth before (c :: text) (⟨before, l.kind⟩ :: marks)
  | ends {atStart : Bool} {depth : Nat} {before : List Char} {kinds : List Token.Kind}
      (hkinds : EndsSource layout kinds) :
      Marked layout atStart depth before [] (marksAt before kinds)

/-! ### Where the marks are -/

/-- The text `before` ends in a line with nothing but white space in it. -/
def OnBlankLine (before : List Char) : Prop :=
  ∃ lines blanks, before = lines ++ blanks ∧ (∀ c ∈ lines.getLast?, c = '\n') ∧
    ∀ c ∈ blanks, isInlineSpace c = true

/-- A logical line begins with the first character behind `before`. -/
def FirstOfLine (before rest : List Char) : Prop :=
  OnBlankLine before ∧ ∃ c after, rest = c :: after ∧ isInlineSpace c = false ∧ c ≠ '\n'

/-- A token of the kind has its place between `before` and `rest`. -/
inductive StandsBetween (before rest : List Char) : Token.Kind → Prop where
  | newline (h : ∀ c ∈ rest.head?, c = '\n') : StandsBetween before rest .newline
  | indent (h : FirstOfLine before rest) : StandsBetween before rest .indent
  | dedent (h : rest = [] ∨ FirstOfLine before rest) : StandsBetween before rest .dedent
  | eof (h : rest = []) : StandsBetween before rest .eof
  | written {c : Char} {after : List Char} {l : Lexeme} (hrest : rest = c :: after)
      (hline : c ≠ '\n') (hread : readLexeme c after = .ok l) : StandsBetween before rest l.kind

/-- The mark is where a token of its kind has its place in the source. -/
def Mark.StandsIn (m : Mark) (code : List Char) : Prop :=
  ∃ rest, code = m.before ++ rest ∧ StandsBetween m.before rest m.kind

/-- Where a logical line may begin, nothing has been written on the line, or it is at its end. -/
def MayBegin (before text : List Char) : Prop :=
  OnBlankLine before ∨ ∀ c ∈ text.head?, c = '\n'

theorem onBlankLine_nil : OnBlankLine [] := ⟨[], [], rfl, by simp, by simp⟩

theorem onBlankLine_newline (before : List Char) : OnBlankLine (before ++ ['\n']) :=
  ⟨before ++ ['\n'], [], by simp, by simp, by simp⟩

theorem OnBlankLine.space {before : List Char} {c : Char} (h : OnBlankLine before)
    (hspace : isInlineSpace c = true) : OnBlankLine (before ++ [c]) := by
  obtain ⟨lines, blanks, rfl, hlines, hblanks⟩ := h
  refine ⟨lines, blanks ++ [c], by simp, hlines, fun d hd => ?_⟩
  rcases List.mem_append.mp hd with hd | hd
  · exact hblanks d hd
  · rw [List.mem_singleton.mp hd]
    exact hspace

theorem MayBegin.space {before text : List Char} {c : Char} (h : MayBegin before (c :: text))
    (hspace : isInlineSpace c = true) : MayBegin (before ++ [c]) text := by
  rcases h with hblank | hend
  · exact .inl (hblank.space hspace)
  · rw [hend c rfl] at hspace
    exact Bool.noConfusion hspace

theorem mem_marksAt {before : List Char} {kinds : List Token.Kind} {m : Mark} :
    m ∈ marksAt before kinds ↔ m.before = before ∧ m.kind ∈ kinds := by
  constructor
  · intro h
    obtain ⟨kind, hkind, rfl⟩ := List.mem_map.mp h
    exact ⟨rfl, hkind⟩
  · rintro ⟨rfl, hkind⟩
    exact List.mem_map.mpr ⟨m.kind, hkind, rfl⟩

theorem EndsLogicalLine.standsBetween {before rest : List Char} {kinds : List Token.Kind}
    (h : EndsLogicalLine kinds) (hrest : ∀ c ∈ rest.head?, c = '\n') :
    ∀ kind ∈ kinds, StandsBetween before rest kind := by
  intro kind hkind
  rcases h with rfl | rfl
  · cases hkind
  · rw [List.mem_singleton.mp hkind]
    exact .newline hrest

theorem BeginsLogicalLine.standsBetween {before rest : List Char} {kinds : List Token.Kind}
    (h : BeginsLogicalLine kinds) (hfirst : FirstOfLine before rest) :
    ∀ kind ∈ kinds, StandsBetween before rest kind := by
  intro kind hkind
  rcases h with rfl | ⟨count, rfl⟩
  · rw [List.mem_singleton.mp hkind]
    exact .indent hfirst
  · rw [List.eq_of_mem_replicate hkind]
    exact .dedent (.inr hfirst)

theorem EndsSource.standsBetween {layout : Bool} {before : List Char} {kinds : List Token.Kind}
    (h : EndsSource layout kinds) : ∀ kind ∈ kinds, StandsBetween before [] kind := by
  intro kind hkind
  obtain ⟨ended, count, hended, -, rfl⟩ := h
  rcases List.mem_append.mp hkind with hkind | hkind
  · rcases List.mem_append.mp hkind with hkind | hkind
    · exact hended.standsBetween (by simp) kind hkind
    · rw [List.eq_of_mem_replicate hkind]
      exact .dedent (.inl rfl)
  · rw [List.mem_singleton.mp hkind]
    exact .eof rfl

theorem standsIn_of_mem_marksAt {before rest : List Char} {kinds : List Token.Kind} {m : Mark}
    (hm : m ∈ marksAt before kinds) (h : ∀ kind ∈ kinds, StandsBetween before rest kind) :
    m.StandsIn (before ++ rest) := by
  obtain ⟨rfl, hkind⟩ := mem_marksAt.mp hm
  exact ⟨rest, rfl, h _ hkind⟩

namespace Marked

variable {layout atStart : Bool} {depth : Nat} {before text : List Char} {marks : List Mark}

/-- The marks are where tokens of their kinds have their places. -/
theorem standsIn (h : Marked layout atStart depth before text marks)
    (hstart : atStart = true → MayBegin before text) :
    ∀ m ∈ marks, m.StandsIn (before ++ text) := by
  intro m hm
  induction h with
  | space hspace _ ih => simpa using ih (fun hs => (hstart hs).space hspace) hm
  | comment _ htext _ ih => simpa using ih (fun _ => .inr htext) hm
  | blankLine _ ih => simpa using ih (fun _ => .inl (onBlankLine_newline _)) hm
  | lineEnd _ hkinds _ ih =>
    rcases List.mem_append.mp hm with hm | hm
    · exact standsIn_of_mem_marksAt hm (hkinds.standsBetween fun c hc => (Option.some.inj hc).symm)
    · simpa using ih (fun _ => .inl (onBlankLine_newline _)) hm
  | lineGoesOn _ _ ih => simpa using ih Bool.noConfusion hm
  | lineStart hspace _ hline hkinds _ ih =>
    rcases List.mem_append.mp hm with hm | hm
    · have hblank := (hstart rfl).resolve_right fun hend => hline (hend _ rfl)
      exact standsIn_of_mem_marksAt hm
        (hkinds.standsBetween ⟨hblank, _, _, rfl, hspace, hline⟩)
    · exact ih Bool.noConfusion hm
  | join _ _ ih => simpa using ih Bool.noConfusion hm
  | lexeme _ _ hline _ hread _ ih =>
    rcases List.mem_cons.mp hm with rfl | hm
    · exact ⟨_, rfl, .written rfl hline hread⟩
    · simpa using ih Bool.noConfusion hm
  | ends hkinds => exact standsIn_of_mem_marksAt hm hkinds.standsBetween

/-- The marks are behind what is in front of the rest of the source. -/
theorem prefixes (h : Marked layout atStart depth before text marks) :
    ∀ m ∈ marks, before <+: m.before := by
  have hhere {before : List Char} {kinds : List Token.Kind} {m : Mark}
      (hm : m ∈ marksAt before kinds) : before <+: m.before := by
    obtain ⟨rfl, -⟩ := mem_marksAt.mp hm
    exact List.prefix_rfl
  intro m hm
  induction h with
  | space _ _ ih => exact (List.prefix_append _ _).trans (ih hm)
  | comment _ _ _ ih => exact (List.prefix_append _ _).trans (ih hm)
  | blankLine _ ih => exact (List.prefix_append _ _).trans (ih hm)
  | lineEnd _ _ _ ih =>
    rcases List.mem_append.mp hm with hm | hm
    · exact hhere hm
    · exact (List.prefix_append _ _).trans (ih hm)
  | lineGoesOn _ _ ih => exact (List.prefix_append _ _).trans (ih hm)
  | lineStart _ _ _ _ _ ih =>
    rcases List.mem_append.mp hm with hm | hm
    · exact hhere hm
    · exact ih hm
  | join _ _ ih => exact (List.prefix_append _ _).trans (ih hm)
  | lexeme _ _ _ _ _ _ ih =>
    rcases List.mem_cons.mp hm with rfl | hm
    · exact List.prefix_rfl
    · exact (List.prefix_append _ _).trans (ih hm)
  | ends => exact hhere hm

/-- Each mark is behind the ones in front of it, or at the same place. -/
theorem sorted (h : Marked layout atStart depth before text marks) :
    marks.Pairwise fun a b => a.before <+: b.before := by
  have hsame (before : List Char) (kinds : List Token.Kind) :
      (marksAt before kinds).Pairwise fun a b => a.before <+: b.before :=
    List.pairwise_map.mpr (List.pairwise_of_forall fun _ _ => List.prefix_rfl)
  induction h with
  | space _ _ ih => exact ih
  | comment _ _ _ ih => exact ih
  | blankLine _ ih => exact ih
  | lineEnd _ _ h ih =>
    refine List.pairwise_append.mpr ⟨hsame _ _, ih, fun a ha b hb => ?_⟩
    rw [(mem_marksAt.mp ha).1]
    exact (List.prefix_append _ _).trans (h.prefixes b hb)
  | lineGoesOn _ _ ih => exact ih
  | lineStart _ _ _ _ h ih =>
    refine List.pairwise_append.mpr ⟨hsame _ _, ih, fun a ha b hb => ?_⟩
    rw [(mem_marksAt.mp ha).1]
    exact h.prefixes b hb
  | join _ _ ih => exact ih
  | lexeme _ _ _ _ _ h ih =>
    exact List.pairwise_cons.mpr
      ⟨fun b hb => (List.prefix_append _ _).trans (h.prefixes b hb), ih⟩
  | ends => exact hsame _ _

/-- The last mark is at the end of the source. -/
theorem getLast?_eq (h : Marked layout atStart depth before text marks) :
    marks.getLast? = some ⟨before ++ text, .eof⟩ := by
  have hbehind (front : List Mark) {marks : List Mark} {m : Mark} (h : marks.getLast? = some m) :
      (front ++ marks).getLast? = some m := by
    rw [List.getLast?_append, h, Option.some_or]
  induction h with
  | space _ _ ih => simpa using ih
  | comment _ _ _ ih => simpa using ih
  | blankLine _ ih => simpa using ih
  | lineEnd _ _ _ ih => exact hbehind _ (by simpa using ih)
  | lineGoesOn _ _ ih => simpa using ih
  | lineStart _ _ _ _ _ ih => exact hbehind _ ih
  | join _ _ ih => simpa using ih
  | @lexeme _ before _ _ _ l _ _ _ _ _ _ ih =>
    exact hbehind [⟨before, l.kind⟩] (by simpa using ih)
  | ends hkinds =>
    obtain ⟨ended, count, -, -, rfl⟩ := hkinds
    simp [marksAt]

/-- White space is passed over. -/
theorem spaces {blanks : List Char} (hblanks : ∀ c ∈ blanks, isInlineSpace c = true)
    (h : Marked layout atStart depth (before ++ blanks) text marks) :
    Marked layout atStart depth before (blanks ++ text) marks := by
  induction blanks generalizing before with
  | nil => simpa using h
  | cons c rest ih =>
    obtain ⟨hc, hrest⟩ := List.forall_mem_cons.mp hblanks
    exact .space hc (ih hrest (by simpa using h))

end Marked

/-! ### The line of the scanner -/

/-- Scanning the rest of a source, behind `before`, gives the tokens of its marks, or an error on a
line of the source. -/
def Scanned (layout atStart : Bool) (line : Nat) (s : Scanner) (before text : List Char) :
    Except SyntaxError (List Token) → Prop
  | .ok tokens => ∃ marks, Marked layout atStart s.depth before text marks ∧
      tokens = s.tokens.reverse ++ marks.map (·.token line)
  | .error e => line ≤ e.line ∧ e.line ≤ line + newlines (before ++ text)

/-- Scanning gives that behind whatever text it has come to on the line of the scanner. -/
def CountsOn (layout atStart : Bool) (line : Nat) (s : Scanner) (text : List Char)
    (result : Except SyntaxError (List Token)) : Prop :=
  ∀ before, s.line = line + newlines before → Scanned layout atStart line s before text result

variable {layout atStart : Bool} {line : Nat} {s t : Scanner} {before text : List Char}

theorem token_marksAt (hline : s.line = line + newlines before) (kinds : List Token.Kind) :
    (marksAt before kinds).map (·.token line) = kinds.map fun kind => ⟨s.line, kind⟩ := by
  simp [marksAt, Mark.token, hline]

theorem Scanner.depth_add (s : Scanner) (l : Lexeme) :
    (s.add l).depth = l.kind.depthAfter s.depth := by
  unfold add Token.Kind.depthAfter
  cases l.kind <;> rfl

theorem Scanner.depth_indentTo {width : Nat} (h : s.indentTo width = .ok t) :
    t.depth = s.depth := by
  cases Scanner.indented_of_indentTo h with
  | deeper => rfl
  | reached => exact s.depth_dedent _

/-- The end of a logical line gives a newline token or nothing. -/
theorem Scanner.kinds_endLine (s : Scanner) : ∃ kinds, EndsLogicalLine kinds ∧
    s.endLine.tokens.reverse = s.tokens.reverse ++ kinds.map fun kind => ⟨s.line, kind⟩ := by
  unfold endLine
  split
  · exact ⟨[], .inl rfl, by simp⟩
  · exact ⟨[.newline], .inr rfl, by simp [push]⟩

/-- The indent of a logical line gives an indent, or dedents or nothing. -/
theorem Scanner.kinds_indentTo {width : Nat} (h : s.indentTo width = .ok t) :
    ∃ kinds, BeginsLogicalLine kinds ∧
      t.tokens.reverse = s.tokens.reverse ++ kinds.map fun kind => ⟨s.line, kind⟩ := by
  cases indented_of_indentTo h with
  | deeper => exact ⟨[.indent], .inl rfl, by simp [push]⟩
  | reached =>
    refine ⟨List.replicate (s.indents.takeWhile (width < ·)).length .dedent, .inr ⟨_, rfl⟩, ?_⟩
    rw [tokens_dedent, List.reverse_append, List.reverse_replicate, List.map_replicate]

theorem Scanner.kinds_finish (s : Scanner) (layout : Bool) : ∃ kinds, EndsSource layout kinds ∧
    s.finish layout = s.tokens.reverse ++ kinds.map fun kind => ⟨s.line, kind⟩ := by
  cases layout with
  | false => exact ⟨[.eof], ⟨[], 0, .inl rfl, fun _ => ⟨rfl, rfl⟩, rfl⟩, by simp [finish, push]⟩
  | true =>
    obtain ⟨ended, hended, htokens⟩ := s.kinds_endLine
    refine ⟨_, ⟨ended, s.indents.length, hended, Bool.noConfusion, rfl⟩, ?_⟩
    simp [finish, push, tokens_dedent, line_dedent, htokens]

theorem joint_of_joinSize {c : Char} {after : List Char} {size : Nat}
    (h : joinSize c after = some size) :
    c :: after.take size = ['\\', '\n'] ∨ c :: after.take size = ['\\', '\r', '\n'] := by
  fun_cases joinSize c after with
  | case1 rest =>
    cases h
    exact .inl rfl
  | case2 rest =>
    cases h
    exact .inr rfl
  | case3 => simp [joinSize] at h

namespace CountsOn

variable {goesOn : Bool} {rest : List Char} {result : Except SyntaxError (List Token)}

/-- A step that takes characters from the front of the text and gives tokens where it begins. -/
theorem behind (taken : List Char) (kinds : List Token.Kind)
    (h : CountsOn layout goesOn line t rest result) (hline : t.line = s.line + newlines taken)
    (htokens : t.tokens.reverse = s.tokens.reverse ++ kinds.map fun kind => ⟨s.line, kind⟩)
    (hmarked : ∀ before marks, Marked layout goesOn t.depth (before ++ taken) rest marks →
      Marked layout atStart s.depth before (taken ++ rest) (marksAt before kinds ++ marks)) :
    CountsOn layout atStart line s (taken ++ rest) result := by
  intro before hhere
  have hnext := h (before ++ taken) (by rw [hline, hhere, newlines_append, Nat.add_assoc])
  cases result with
  | ok tokens =>
    obtain ⟨marks, hmarks, rfl⟩ := hnext
    refine ⟨_, hmarked before marks hmarks, ?_⟩
    rw [htokens, List.map_append, token_marksAt hhere, List.append_assoc]
  | error e => exact ⟨hnext.1, by simpa only [List.append_assoc] using hnext.2⟩

/-- There is no newline in the white space in front of a piece. -/
theorem spaces {blanks : List Char} (hblanks : ∀ c ∈ blanks, isInlineSpace c = true)
    (h : CountsOn layout atStart line s rest result) :
    CountsOn layout atStart line s (blanks ++ rest) result := by
  have hnone : newlines blanks = 0 :=
    newlines_eq_zero fun hmem => Bool.noConfusion (hblanks _ hmem)
  exact h.behind blanks [] (by rw [hnone, Nat.add_zero]) (by simp)
    fun _ _ hmarks => hmarks.spaces hblanks

theorem comment {after : List Char}
    (h : CountsOn layout atStart line s (after.dropWhile (· ≠ '\n')) result) :
    CountsOn layout atStart line s ('#' :: after) result := by
  obtain ⟨words, rest, rfl, hwords, hrest⟩ := Text.exists_run (· ≠ '\n') after
  rw [Text.dropWhile_run hwords hrest] at h
  have hnone : '\n' ∉ words := fun hmem => by simpa using hwords _ hmem
  refine h.behind ('#' :: words) [] ?_ (by simp) fun _ _ hmarks =>
    .comment hnone (fun c hc => by simpa using hrest c hc) hmarks
  rw [newlines_cons_of_ne (by decide), newlines_eq_zero hnone, Nat.add_zero]

/-- A step over a newline that gives no token. -/
theorem newline (h : CountsOn layout goesOn line s.nextLine rest result)
    (hmarked : ∀ before marks, Marked layout goesOn s.depth (before ++ ['\n']) rest marks →
      Marked layout atStart s.depth before ('\n' :: rest) marks) :
    CountsOn layout atStart line s ('\n' :: rest) result :=
  h.behind ['\n'] [] rfl (by simp [Scanner.nextLine]) hmarked

theorem lineEnd (h : CountsOn true true line s.endLine.nextLine rest result)
    (hdepth : s.depth = 0) : CountsOn true false line s ('\n' :: rest) result := by
  obtain ⟨kinds, hkinds, htokens⟩ := s.kinds_endLine
  refine h.behind ['\n'] kinds (by simp [Scanner.nextLine]) htokens fun before marks hmarks => ?_
  rw [hdepth]
  refine .lineEnd rfl hkinds ?_
  rwa [show s.endLine.nextLine.depth = 0 from s.depth_endLine.trans hdepth] at hmarks

theorem lineStart {c : Char} {after : List Char} {width : Nat}
    (h : CountsOn layout false line t (c :: after) result) (hspace : isInlineSpace c = false)
    (hcomment : c ≠ '#') (hnewline : c ≠ '\n') (hindent : s.indentTo width = .ok t) :
    CountsOn layout true line s (c :: after) result := by
  obtain ⟨kinds, hkinds, htokens⟩ := Scanner.kinds_indentTo hindent
  refine h.behind [] kinds (Scanner.line_of_indentTo hindent) htokens fun before marks hmarks => ?_
  rw [Scanner.depth_indentTo hindent, List.append_nil] at hmarks
  exact .lineStart hspace hcomment hnewline hkinds hmarks

theorem join {c : Char} {after : List Char} {size : Nat}
    (h : CountsOn layout false line s.nextLine (after.drop size) result)
    (hjoin : joinSize c after = some size) :
    CountsOn layout false line s (c :: after) result := by
  rw [← List.take_append_drop size after, ← List.cons_append]
  refine h.behind (c :: after.take size) [] ?_ (by simp [Scanner.nextLine])
    fun _ _ hmarks => .join (joint_of_joinSize hjoin) hmarks
  rw [newlines_of_joinSize hjoin]
  rfl

theorem lexeme {c : Char} {after : List Char} {l : Lexeme}
    (h : CountsOn layout false line (s.add l) (after.drop l.size) result)
    (hspace : isInlineSpace c = false) (hcomment : c ≠ '#') (hnewline : c ≠ '\n')
    (hjoin : joinSize c after = none) (hread : readLexeme c after = .ok l) :
    CountsOn layout false line s (c :: after) result := by
  have hsplit : c :: after = c :: after.take l.size ++ after.drop l.size := by simp
  rw [hsplit]
  refine h.behind (c :: after.take l.size) [l.kind] ?_ (by simp [Scanner.add, Scanner.push])
    fun before marks hmarks => ?_
  · rw [newlines_cons_of_ne hnewline, ← newlines_of_readLexeme hnewline hread]
    rfl
  · rw [Scanner.depth_add] at hmarks
    rw [← hsplit]
    exact .lexeme hspace hcomment hnewline hjoin hread hmarks

/-- A cause met here is on the line of the scanner. -/
theorem locate {α : Type} {found : Except SyntaxError.Cause α}
    {next : α → Except SyntaxError (List Token)}
    (h : ∀ a, found = .ok a → CountsOn layout atStart line s text (next a)) :
    CountsOn layout atStart line s text ((s.locate found).bind next) := by
  cases found with
  | ok a => exact h a rfl
  | error cause =>
    intro before hline
    show line ≤ s.line ∧ s.line ≤ line + newlines (before ++ text)
    rw [hline, newlines_append]
    omega

end CountsOn

/-- What is done at a character is done behind the white space in front of it. -/
theorem exists_blanks {c : Char} {after : List Char}
    (h : text.dropWhile isInlineSpace = c :: after) : ∃ blanks, text = blanks ++ c :: after ∧
      (∀ d ∈ blanks, isInlineSpace d = true) ∧ isInlineSpace c = false := by
  obtain ⟨blanks, rest, rfl, hblanks, hrest⟩ := Text.exists_run isInlineSpace text
  rw [Text.dropWhile_run hblanks hrest] at h
  subst h
  exact ⟨blanks, rfl, hblanks, hrest c rfl⟩

/-- Each step of scanning is over one piece of the source, and adds its newlines to the line. -/
theorem countsOn_scan (layout atStart : Bool) (line : Nat) (s : Scanner) (text : List Char) :
    CountsOn layout atStart line s text (scan layout atStart s text) := by
  fun_induction scan layout atStart s text with
  | case1 atStart s text rest hspace =>
    rw [← List.append_nil text]
    refine CountsOn.spaces (List.dropWhile_eq_nil_iff.mp hspace) fun before hline => ?_
    obtain ⟨kinds, hkinds, htokens⟩ := s.kinds_finish layout
    exact ⟨marksAt before kinds, .ends hkinds, by rw [htokens, token_marksAt hline]⟩
  | case2 atStart s text rest after hspace ih =>
    obtain ⟨blanks, htext, hblanks, -⟩ := exists_blanks hspace
    rw [htext]
    exact ih.comment.spaces hblanks
  | case3 s text rest after hspace hcomment ih =>
    obtain ⟨blanks, htext, hblanks, -⟩ := exists_blanks hspace
    rw [htext]
    exact (ih.newline fun _ _ hmarks => .blankLine hmarks).spaces hblanks
  | case4 atStart s text rest after hstart hdepth hspace hcomment ih =>
    obtain ⟨blanks, htext, hblanks, -⟩ := exists_blanks hspace
    obtain ⟨rfl, hdepth⟩ := Bool.and_eq_true_iff.mp hdepth
    rw [Bool.not_eq_true] at hstart
    rw [htext, hstart]
    exact (ih.lineEnd (of_decide_eq_true hdepth)).spaces hblanks
  | case5 atStart s text rest after hstart hdepth hspace hcomment ih =>
    obtain ⟨blanks, htext, hblanks, -⟩ := exists_blanks hspace
    have hopen : layout = false ∨ s.depth ≠ 0 := by
      cases layout with
      | false => exact .inl rfl
      | true => exact .inr (by simpa using hdepth)
    rw [Bool.not_eq_true] at hstart
    rw [htext, hstart]
    exact (ih.newline fun _ _ hmarks => .lineGoesOn hopen hmarks).spaces hblanks
  | case6 s text rest c after hspace hcomment hnewline ih =>
    obtain ⟨blanks, htext, hblanks, hc⟩ := exists_blanks hspace
    refine CountsOn.locate fun t hindent => ?_
    have hline := ih t
    rw [show rest = c :: after from hspace] at hline ⊢
    rw [htext]
    exact (hline.lineStart hc hcomment hnewline hindent).spaces hblanks
  | case7 atStart s text rest c after hspace hcomment hnewline hstart size hjoin ih =>
    obtain ⟨blanks, htext, hblanks, -⟩ := exists_blanks hspace
    rw [Bool.not_eq_true] at hstart
    rw [htext, hstart]
    exact (ih.join hjoin).spaces hblanks
  | case8 atStart s text rest c after hspace hcomment hnewline hstart hjoin ih =>
    obtain ⟨blanks, htext, hblanks, hc⟩ := exists_blanks hspace
    refine CountsOn.locate fun l hread => ?_
    rw [Bool.not_eq_true] at hstart
    rw [htext, hstart]
    exact ((ih l).lexeme hc hcomment hnewline hjoin hread).spaces hblanks

/-! ### All newlines are counted once -/

/-- The tokens of a source that begins on the given line are on the lines of their places. -/
structure OnTheirLines (layout : Bool) (line : Nat) (code : List Char) (tokens : List Token)
    (marks : List Mark) : Prop where
  marked : Marked layout layout 0 [] code marks
  tokens_eq : tokens = marks.map (·.token line)
  stands : ∀ m ∈ marks, m.StandsIn code
  ascending : tokens.Pairwise fun a b => a.line ≤ b.line
  last : tokens.getLast? = some ⟨line + newlines code, .eof⟩

/-- What is read of a source that begins on the given line is on the lines that its newlines make:
every token on that of its place, and an error on one of them. -/
def CountsNewlines (layout : Bool) (line : Nat) (code : List Char) :
    Except SyntaxError (List Token) → Prop
  | .ok tokens => ∃ marks, OnTheirLines layout line code tokens marks
  | .error e => line ≤ e.line ∧ e.line ≤ line + newlines code

theorem Marked.onTheirLines {code : List Char} {marks : List Mark}
    (h : Marked layout layout 0 [] code marks) (line : Nat) :
    OnTheirLines layout line code (marks.map (·.token line)) marks := by
  have hstart : layout = true → MayBegin [] code := fun _ => .inl onBlankLine_nil
  refine ⟨h, rfl, h.standsIn hstart, ?_, ?_⟩
  · refine List.pairwise_map.mpr (h.sorted.imp fun hfront => ?_)
    exact Nat.add_le_add_left (hfront.sublist.count_le '\n') line
  · rw [List.getLast?_map, h.getLast?_eq]
    rfl

theorem countsNewlines_scan (layout : Bool) (line : Nat) (code : List Char) :
    CountsNewlines layout line code (scan layout layout ⟨line, 0, [], []⟩ code) := by
  have h := countsOn_scan layout layout line ⟨line, 0, [], []⟩ code [] rfl
  cases hscan : scan layout layout ⟨line, 0, [], []⟩ code with
  | ok tokens =>
    rw [hscan] at h
    obtain ⟨marks, hmarks, rfl⟩ := h
    exact ⟨marks, hmarks.onTheirLines line⟩
  | error e =>
    rw [hscan] at h
    exact h

/-- Every newline of a source is counted once, in a fragment as in the expression of a format
string, wherever the expression begins. -/
theorem newlines_counted_once (code : List Char) :
    CountsNewlines true 1 code (tokenize code) ∧
      ∀ line, CountsNewlines false line code (tokenizeExpression code line) :=
  ⟨countsNewlines_scan true 1 code, fun line => countsNewlines_scan false line code⟩

end LiveDoc.Fragment
