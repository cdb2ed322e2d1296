import LiveDoc.Proofs.Document.Lossless
import LiveDoc.Proofs.Document.Replacement
import LiveDoc.Proofs.Execution.Transcript

/-!
What a run without a failure writes. Every line of the document comes out once and in its place,
and only the lines of a block of code give way to the texts that the block emitted.
-/
namespace LiveDoc

open Document Outcome Logged

/-- The fragments that a document is run as, in order. -/
def Document.units (source : Source) (d : Document) : List FragmentUnit :=
  d.header.toList.map (fun header => .ofText source (.header header)) ++
    d.contents.map (.ofContent source)

/-- The place of each block of code, and what it emitted. -/
def blockEdits (entries : List (FragmentUnit × List String)) : List (Span × List Char) :=
  (entries.filter fun entry => entry.1.isCode).map fun entry =>
    (entry.1.origin.span, entry.2.flatMap String.toList)

theorem blockEdits_append (a b : List (FragmentUnit × List String)) :
    blockEdits (a ++ b) = blockEdits a ++ blockEdits b := by
  simp [blockEdits]

/-- The lines from `start` up to `stop` become `out` when the blocks among them are replaced. -/
structure Renders (start : Nat) (lines : List Line) (entries : List (FragmentUnit × List String))
    (out : List Char) (stop : Nat) : Prop where
  le : start ≤ stop
  edits : EditsFrom start (blockEdits entries)
  replace : ∀ more tail, EditsFrom stop more →
    replaceSpans start (blockEdits entries ++ more) (rawOf lines ++ tail) =
      out ++ replaceSpans stop more tail

namespace Renders

variable {start middle stop : Nat} {lines lines' : List Line}
  {entries entries' : List (FragmentUnit × List String)} {out out' : List Char}

theorem trans (h : Renders start lines entries out middle)
    (h' : Renders middle lines' entries' out' stop) :
    Renders start (lines ++ lines') (entries ++ entries') (out ++ out') stop := by
  refine ⟨Nat.le_trans h.le h'.le, ?_, ?_⟩
  · intro edit hedit
    rw [blockEdits_append] at hedit
    rcases List.mem_append.mp hedit with hleft | hright
    · exact h.edits edit hleft
    · exact (h'.edits.of_le h.le) edit hright
  · intro more tail hmore
    have hnext : EditsFrom middle (blockEdits entries' ++ more) := by
      intro edit hedit
      rcases List.mem_append.mp hedit with hleft | hright
      · exact h'.edits edit hleft
      · exact (hmore.of_le h'.le) edit hright
    rw [blockEdits_append, rawOf_append, List.append_assoc, List.append_assoc,
      h.replace _ _ hnext, h'.replace _ _ hmore, List.append_assoc]

/-- Lines that no block of code is made of stay as they are. -/
theorem keep (hlines : Adjoin start lines stop) (hentries : blockEdits entries = []) :
    Renders start lines entries (rawOf lines) stop := by
  have hstop := hlines.stop_eq
  refine ⟨Tiles.le hlines, ?_, ?_⟩
  · rw [hentries]
    intro edit hedit
    simp at hedit
  · intro more tail hmore
    subst hstop
    rw [hentries, List.nil_append]
    exact replaceSpans_keep hmore

/-- The lines of a block give way to its texts. -/
theorem block {u : FragmentUnit} {texts : List String} (hlines : Adjoin start lines stop)
    (hcode : u.isCode = true) (hspan : u.origin.span = ⟨start, stop⟩) :
    Renders start lines [(u, texts)] (texts.flatMap String.toList) stop := by
  have hstop := hlines.stop_eq
  have hedits : blockEdits [(u, texts)] = [(⟨start, stop⟩, texts.flatMap String.toList)] := by
    simp [blockEdits, hcode, hspan]
  refine ⟨Tiles.le hlines, ?_, ?_⟩
  · rw [hedits]
    intro edit hedit
    obtain rfl := List.mem_singleton.mp hedit
    exact ⟨Nat.le_refl _, Tiles.le hlines⟩
  · intro more tail _
    subst hstop
    rw [hedits]
    exact replaceSpans_new

end Renders

/-! ### Steps of a run -/

/-- From one state to the other the given fragments were run, and what was written is what the
lines become when the blocks among them are replaced. -/
def Covers (units : List FragmentUnit) (l l' : Logged (MarkdownWriter TextSink)) (start : Nat)
    (lines : List Line) (stop : Nat) : Prop :=
  ∃ entries out, entries.map Prod.fst = units ∧ Wrote l l' entries out ∧
    Renders start lines entries out stop

variable {source : Source} {action : ErrorAction} {rounds : Nat}
  {l l' l'' : Logged (MarkdownWriter TextSink)}
  {p p' : Progress (Logged (MarkdownWriter TextSink))} {start stop : Nat}

namespace Covers

theorem refl (l : Logged (MarkdownWriter TextSink)) (start : Nat) : Covers [] l l start [] start :=
  ⟨[], [], rfl, Wrote.refl l, Renders.keep rfl rfl⟩

theorem trans {units units' : List FragmentUnit} {lines lines' : List Line} {middle : Nat}
    (h : Covers units l l' start lines middle) (h' : Covers units' l' l'' middle lines' stop) :
    Covers (units ++ units') l l'' start (lines ++ lines') stop := by
  obtain ⟨entries, out, hunits, hwrote, hrenders⟩ := h
  obtain ⟨entries', out', hunits', hwrote', hrenders'⟩ := h'
  refine ⟨entries ++ entries', out ++ out', ?_, hwrote.trans hwrote', hrenders.trans hrenders'⟩
  rw [List.map_append, hunits, hunits']

/-- Closing scopes at the end adds nothing. -/
theorem of_wrote {units : List FragmentUnit} {lines : List Line}
    (h : Covers units l l' start lines stop) (hend : Wrote l' l'' [] []) :
    Covers units l l'' start lines stop := by
  obtain ⟨entries, out, hunits, hwrote, hrenders⟩ := h
  have hall := hwrote.trans hend
  rw [List.append_nil, List.append_nil] at hall
  exact ⟨entries, out, hunits, hall, hrenders⟩

/-- Lines that no fragment is made of, written as they are. -/
theorem of_raw {lines : List Line} (h : Wrote l l' [] (rawOf lines))
    (hlines : Adjoin start lines stop) : Covers [] l l' start lines stop :=
  ⟨[], _, rfl, h, Renders.keep hlines rfl⟩

end Covers

theorem covers_text {origin : Node} {m m' : Machine (Logged (MarkdownWriter TextSink))}
    (hkind : origin.kind ≠ .code) (hlines : Adjoin start origin.lines stop)
    (hrun : runner (inMemory action) rounds (.ofText source origin) m = .ok () m') :
    Covers [.ofText source origin] m.host m'.host start origin.lines stop := by
  have hcode : (FragmentUnit.ofText source origin).isCode = false := by
    simpa [FragmentUnit.isCode, FragmentUnit.ofText, FragmentUnit.ofFragment] using hkind
  have hrenders : Renders start origin.lines
      [(.ofText source origin, [String.ofList origin.raw])] origin.raw stop := by
    rw [origin.raw_eq]
    refine Renders.keep hlines ?_
    simp [blockEdits, hcode]
  exact ⟨_, _, rfl, wrote_text hrun, hrenders⟩

theorem covers_content {c : Content} {m m' : Machine (Logged (MarkdownWriter TextSink))}
    (hlines : Adjoin start c.lines stop)
    (hrun : runner (inMemory action) rounds (.ofContent source c) m = .ok () m') :
    Covers [.ofContent source c] m.host m'.host start c.lines stop := by
  cases c with
  | code opening body closing =>
    obtain ⟨texts, hwrote⟩ := wrote_unit hrun
    exact ⟨_, _, rfl, hwrote, Renders.block hlines rfl (Content.span_eq hlines)⟩
  | text first more =>
    have hkind : (Node.content (.text first more)).kind ≠ .code := by
      simp [Node.kind, Content.isCode]
    exact covers_text hkind hlines hrun

/-! ### Parts of a document

Each part is run to its end only if none of its fragments failed, since no failure is taken back
from the count. So the count at the end speaks for all fragments.
-/

theorem covers_contents {children : List Content}
    (hlines : Adjoin start (children.flatMap Content.lines) stop)
    (hrun : Run.runContents source (host (inMemory action)) (runner (inMemory action) rounds)
      children p = .ok () p') (herrors : p'.counts.errors = 0) :
    p.counts.errors = 0 ∧
      Covers (children.map (.ofContent source)) p.machine.host p'.machine.host start
        (children.flatMap Content.lines) stop := by
  induction children generalizing p start with
  | nil =>
    injection hrun with _ hp
    subst hp
    obtain rfl : start = stop := hlines
    exact ⟨herrors, Covers.refl _ _⟩
  | cons c rest ih =>
    rw [List.flatMap_cons] at hlines ⊢
    obtain ⟨middle, hc, hrest⟩ := Adjoin.split hlines
    rw [Run.runContents_cons] at hrun
    cases hdispatch : Run.dispatch source (host (inMemory action))
        (runner (inMemory action) rounds)
        ((ScopeStack.current? p.stack).getD (Run.documentScope source)) (.ofContent source c) p with
    | error e p₁ => simp [hdispatch] at hrun
    | ok go p₁ =>
      rw [hdispatch] at hrun
      cases go with
      | skipSection =>
        -- Content is only skipped behind a failure, which has been counted.
        injection hrun with _ hp
        subst hp
        obtain ⟨hgo, -, -⟩ := Run.unit_of_dispatch hdispatch herrors
        simp at hgo
      | next =>
        obtain ⟨herrors₁, hcovers⟩ := ih hrest hrun
        obtain ⟨-, herrors₀, hunit⟩ := Run.unit_of_dispatch hdispatch herrors₁
        exact ⟨herrors₀, (covers_content hc hunit).trans hcovers⟩

theorem covers_header {header : Header} (hlines : Adjoin start header.lines stop)
    (hrun : Run.runHeader source (host (inMemory action)) (runner (inMemory action) rounds)
      header p = .ok () p') (herrors : p'.counts.errors = 0) :
    p.counts.errors = 0 ∧
      Covers [.ofText source (.header header)] p.machine.host p'.machine.host start header.lines
        stop := by
  rw [Run.runHeader_eq] at hrun
  cases hopen : (host (inMemory action)).openScope Run.headerScope none p.machine.host with
  | error e l => simp [hopen] at hrun
  | ok handle l =>
    simp only [hopen] at hrun
    cases hdispatch : Run.dispatch source (host (inMemory action))
        (runner (inMemory action) rounds) Run.headerScope (.ofText source (.header header))
        (p.withHost l) with
    | error e p₁ => simp [hdispatch] at hrun
    | ok go p₁ =>
      simp only [hdispatch] at hrun
      have hclosed := wrote_closeScope action handle p₁.machine.host
      simp only [Run.onHost] at hrun
      cases hclose : (host (inMemory action)).closeScope handle p₁.machine.host with
      | error e l₂ => simp [hclose] at hrun
      | ok a l₂ =>
        rw [hclose] at hrun hclosed
        injection hrun with _ hp
        subst hp
        obtain ⟨-, herrors₀, hunit⟩ := Run.unit_of_dispatch hdispatch herrors
        have hkind : (Node.header header).kind ≠ .code := by simp [Node.kind]
        have htext := covers_text hkind hlines hunit
        have hopened : Covers [] p.machine.host l start [] start :=
          Covers.of_raw (wrote_openScope hopen) rfl
        exact ⟨herrors₀, (hopened.trans htext).of_wrote hclosed⟩

theorem covers_section {part : Document.Section} (hlines : Adjoin start part.lines stop)
    (hrun : Run.runSection source (host (inMemory action)) (runner (inMemory action) rounds)
      part p = .ok () p') (herrors : p'.counts.errors = 0) :
    p.counts.errors = 0 ∧
      Covers (part.children.map (.ofContent source)) p.machine.host p'.machine.host start
        part.lines stop := by
  obtain ⟨hheading, hchildren⟩ := Section.adjoin_parts hlines
  rw [Run.runSection_eq] at hrun
  obtain ⟨handle, p₁, hscope, hcontents⟩ := run_bind_eq_ok_iff.mp hrun
  obtain ⟨herrors₁, hcovers⟩ := covers_contents hchildren hcontents herrors
  simp only [Run.onStack] at hscope
  cases henter : ScopeStack.enter (host (inMemory action)) part.heading.level part.heading.title
      (some (String.ofList part.heading.raw)) (p.stack, p.machine.host) with
  | error e after => simp [henter] at hscope
  | ok a after =>
    obtain ⟨stack, l⟩ := after
    rw [henter] at hscope
    injection hscope with _ hp
    subst hp
    have hwrote := wrote_enter henter
    rw [String.toList_ofList] at hwrote
    exact ⟨herrors₁, (Covers.of_raw hwrote hheading).trans hcovers⟩

theorem covers_sections {sections : List Document.Section}
    (hlines : Adjoin start (sections.flatMap Section.lines) stop)
    (hrun : Run.runSections source (host (inMemory action)) (runner (inMemory action) rounds)
      sections p = .ok () p') (herrors : p'.counts.errors = 0) :
    p.counts.errors = 0 ∧
      Covers ((sections.flatMap Section.children).map (.ofContent source)) p.machine.host
        p'.machine.host start (sections.flatMap Section.lines) stop := by
  induction sections generalizing p start with
  | nil =>
    injection hrun with _ hp
    subst hp
    obtain rfl : start = stop := hlines
    exact ⟨herrors, Covers.refl _ _⟩
  | cons part rest ih =>
    rw [List.flatMap_cons] at hlines
    obtain ⟨middle, hpart, hrest⟩ := Adjoin.split hlines
    rw [Run.runSections] at hrun
    obtain ⟨a, p₁, hfirst, hmore⟩ := run_bind_eq_ok_iff.mp hrun
    obtain ⟨herrors₁, hcovers₁⟩ := ih hrest hmore
    obtain ⟨herrors₀, hcovers₀⟩ := covers_section hpart hfirst herrors₁
    rw [List.flatMap_cons, List.flatMap_cons, List.map_append]
    exact ⟨herrors₀, hcovers₀.trans hcovers₁⟩

theorem covers_body {d : Document} (hlines : Adjoin d.start d.lines stop)
    (hrun : Run.runBody source (host (inMemory action)) (runner (inMemory action) rounds)
      d p = .ok () p') (herrors : p'.counts.errors = 0) :
    Covers (d.units source) p.machine.host p'.machine.host d.start d.lines stop := by
  have layout := layout_of_adjoin hlines
  rw [Run.runBody_eq] at hrun
  obtain ⟨a, p₁, hfront, hrun₁⟩ := run_bind_eq_ok_iff.mp hrun
  obtain ⟨b, p₂, hintro, hsections⟩ := run_bind_eq_ok_iff.mp hrun₁
  obtain ⟨herrors₂, hcovers₂⟩ := covers_sections layout.sections hsections herrors
  obtain ⟨herrors₁, hcovers₁⟩ := covers_contents layout.intro hintro herrors₂
  have hcovers₀ : Covers (d.header.toList.map fun header => .ofText source (.header header))
      p.machine.host p₁.machine.host d.start d.headerLines d.introSpan.start := by
    have hheader := layout.header
    unfold headerLines at hheader ⊢
    cases hd : d.header with
    | none =>
      rw [hd] at hfront hheader
      injection hfront with _ hp
      subst hp
      exact Covers.of_raw (Wrote.refl _) hheader
    | some header =>
      rw [hd] at hfront hheader
      exact (covers_header hheader hfront herrors₁).2
  have hall := (hcovers₀.trans hcovers₁).trans hcovers₂
  rw [List.append_assoc, ← List.map_append] at hall
  exact hall

/-! ### The whole run -/

/-- What stands in the output of a run that counts no failure: the text of the document, with the
texts that each block of code emitted in the place of the block. -/
theorem written_of_clean_run {source : Source} {action : ErrorAction} {rounds : Nat}
    {environment : Environment} {room : Option Nat} {counts : RunCounts}
    {m : Machine (MarkdownWriter TextSink)}
    (hrun : executeSource source (MarkdownWriter.host TextSink.put action)
      (programRunner (MarkdownWriter.host TextSink.put action) rounds)
      ⟨environment, .on ⟨room, ""⟩⟩ = (.ok counts, m)) (herrors : counts.errors = 0) :
    ∃ d calls, parse source.text.toList = .ok d ∧
      Logged.executeSource source (MarkdownWriter.host TextSink.put action) rounds
        ⟨environment, .on ⟨room, ""⟩⟩ = (.ok counts, ⟨m.environment, ⟨m.host, calls⟩⟩) ∧
      (unitTexts calls).map Prod.fst = d.units source ∧
      m.host.sink.written.toList = replaceSpans (bodyStart source.text.toList)
        (blockEdits (unitTexts calls)) (Document.bodyText source.text.toList) := by
  rw [Logged.executeSource_eq] at hrun
  cases hlogged : Logged.executeSource source (MarkdownWriter.host TextSink.put action) rounds
      ⟨environment, .on ⟨room, ""⟩⟩ with
  | mk result last =>
    simp only [hlogged, Prod.mk.injEq] at hrun
    obtain ⟨rfl, rfl⟩ := hrun
    obtain ⟨d, hparse, hexecute⟩ := exists_parse_of_executeSource hlogged
    obtain ⟨p, l, hbody, hclose, rfl, rfl⟩ := execute_eq_ok_iff.mp hexecute
    obtain ⟨hstart, hlines⟩ := lines_of_parse hparse
    have hadjoin := bodyLines_adjoin source.text.toList
    rw [← hlines, ← hstart] at hadjoin
    have hend := wrote_closeEach action p.stack p.machine.host
    rw [hclose] at hend
    obtain ⟨entries, out, hunits, hwrote, hrenders⟩ :=
      (covers_body hadjoin hbody herrors).of_wrote hend
    obtain ⟨calls, hcalls, -, hentries⟩ := hwrote.log
    have hcalls : l.calls = calls := hcalls
    have hwritten : l.inner.sink.written.toList = out := hwrote.output
    have hreplace := hrenders.replace [] [] (by simp [EditsFrom])
    rw [hlines, rawOf_bodyLines, hstart] at hreplace
    simp only [List.append_nil, replaceSpans] at hreplace
    refine ⟨d, calls, hparse, ?_, ?_, ?_⟩
    · rw [← hcalls]
    · rw [hentries, hunits]
    · rw [hentries, hwritten, hreplace]

/-- A mark, a heading, a block that gives the name of a builtin another meaning, and a block that
uses that name. -/
def reboundName : Source :=
  ⟨"d",
    "\ufeff# A\n~~~python:testflows\ntext = print\n~~~\nb\n~~~python:testflows\ntext(1, 'x')\n~~~",
    0⟩

theorem written_of_rebound_name : ∃ counts m d calls,
    executeSource reboundName (MarkdownWriter.host TextSink.put .halt)
        (programRunner (MarkdownWriter.host TextSink.put .halt) 0)
        ⟨.initial, .on ⟨none, ""⟩⟩ = (.ok counts, m) ∧
      counts.errors = 0 ∧
      parse reboundName.text.toList = .ok d ∧
      Logged.executeSource reboundName (MarkdownWriter.host TextSink.put .halt) 0
        ⟨.initial, .on ⟨none, ""⟩⟩ = (.ok counts, ⟨m.environment, ⟨m.host, calls⟩⟩) ∧
      (unitTexts calls).map Prod.fst = d.units reboundName ∧
      m.host.sink.written.toList = replaceSpans (bodyStart reboundName.text.toList)
        (blockEdits (unitTexts calls)) (Document.bodyText reboundName.text.toList) := by
  have hclean : ((executeSource reboundName (MarkdownWriter.host TextSink.put .halt)
      (programRunner (MarkdownWriter.host TextSink.put .halt) 0)
      ⟨.initial, .on ⟨none, ""⟩⟩).1.toOption.map RunCounts.errors) = some 0 := by
    decide +kernel
  cases hrun : executeSource reboundName (MarkdownWriter.host TextSink.put .halt)
      (programRunner (MarkdownWriter.host TextSink.put .halt) 0) ⟨.initial, .on ⟨none, ""⟩⟩ with
  | mk result m =>
    rw [hrun] at hclean
    cases result with
    | error e => simp [Except.toOption] at hclean
    | ok counts =>
      have herrors : counts.errors = 0 := by simpa [Except.toOption] using hclean
      obtain ⟨d, calls, hparse, hlogged, hunits, hwritten⟩ := written_of_clean_run hrun herrors
      exact ⟨counts, m, d, calls, rfl, herrors, hparse, hlogged, hunits, hwritten⟩

end LiveDoc
