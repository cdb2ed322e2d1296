import LiveDoc.Proofs.Document.Acceptance
import LiveDoc.Proofs.Environment
import LiveDoc.Proofs.Execution.Dispatch
import LiveDoc.Proofs.Execution.ProseUnit
import LiveDoc.Proofs.Execution.Writer

/-!
Documents without code. Each step of such a run adds to the output the lines that it is made of,
and nothing fails, so what is written in the end is the text of the document.
-/
namespace LiveDoc

open Document Outcome

/-- A run in which nothing has failed so far and which has written the given text. -/
structure Steady (p : Progress (MarkdownWriter TextSink)) (text : List Char) : Prop where
  bound : p.machine.environment.load "text" = .ok (.builtin .text)
  unlimited : p.machine.host.sink.room = none
  written : p.machine.host.sink.written = String.ofList text
  errors : p.counts.errors = 0
  reported : p.machine.host.errors = []
  fatal : p.machine.host.fatal = []

/-- The open scopes are those on the stack. -/
def Balanced (p : Progress (MarkdownWriter TextSink)) : Prop :=
  p.machine.host.opened = p.stack.handles

variable {p : Progress (MarkdownWriter TextSink)} {text : List Char}

/-- The state after the text of a node has been emitted. -/
def emitted (source : Source) (scope : Scope) (origin : Node)
    (p : Progress (MarkdownWriter TextSink)) : Progress (MarkdownWriter TextSink) :=
  (p.started scope (.ofText source origin)).withHost
    (p.machine.host.wrote (String.ofList origin.raw))

variable (source : Source) (action : ErrorAction) (rounds : Nat)

theorem dispatch_prose (hp : Steady p text) (scope : Scope) (origin : Node) :
    Run.dispatch source (inMemory action) (programRunner (inMemory action) rounds) scope
        (.ofText source origin) p = .ok .next (emitted source scope origin p) ∧
      Steady (emitted source scope origin p) (text ++ origin.raw) := by
  have hbound : (p.started scope (.ofText source origin)).machine.environment.load "text" =
      .ok (.builtin .text) := by
    rw [← hp.bound]
    exact Environment.load_bindUnit (by decide) (by decide)
  have hunit : programRunner (inMemory action) rounds (.ofText source origin)
      (p.started scope (.ofText source origin)).machine =
        .ok () (emitted source scope origin p).machine :=
    runFragment_of_bound hbound
      (MarkdownWriter.write_of_unlimited hp.unlimited (String.ofList origin.raw))
  constructor
  · rw [Run.dispatch_eq]
    simp only [hunit]
    rfl
  · refine ⟨hbound, hp.unlimited, ?_, hp.errors, hp.reported, hp.fatal⟩
    change p.machine.host.sink.written ++ String.ofList origin.raw =
      String.ofList (text ++ origin.raw)
    rw [hp.written, String.ofList_append]

theorem runContents_prose {children : List Content} (hprose : ∀ c ∈ children, c.isCode = false)
    (hp : Steady p text) (hopen : Balanced p) :
    ∃ p', Run.runContents source (inMemory action) (programRunner (inMemory action) rounds)
        children p = .ok () p' ∧
      Steady p' (text ++ rawOf (children.flatMap Content.lines)) ∧ Balanced p' := by
  induction children generalizing p text with
  | nil =>
    refine ⟨p, rfl, ?_, hopen⟩
    simpa using hp
  | cons c rest ih =>
    obtain ⟨hc, hrest⟩ := List.forall_mem_cons.mp hprose
    have hunit : FragmentUnit.ofContent source c = .ofText source (.content c) := by
      cases c with
      | code opening body closing => simp [Content.isCode] at hc
      | text first more => rfl
    obtain ⟨hrun, hp₁⟩ := dispatch_prose source action rounds hp
      ((ScopeStack.current? p.stack).getD (Run.documentScope source)) (.content c)
    obtain ⟨p₂, hmore, hp₂, hopen₂⟩ := ih hrest hp₁ hopen
    refine ⟨p₂, ?_, ?_, hopen₂⟩
    · rw [Run.runContents_cons, hunit, hrun]
      exact hmore
    · simpa [Node.raw, Content.raw] using hp₂

theorem runHeader_prose (header : Header) (hp : Steady p text) (hopen : Balanced p) :
    ∃ p', Run.runHeader source (inMemory action) (programRunner (inMemory action) rounds)
        header p = .ok () p' ∧
      Steady p' (text ++ header.raw) ∧ Balanced p' := by
  -- The handle of the header's scope lies on top of the others while its fragment is run.
  let w := { p.machine.host with
    nextHandle := p.machine.host.nextHandle + 1,
    opened := p.machine.host.nextHandle :: p.machine.host.opened }
  have hw : Steady (p.withHost w) text :=
    ⟨hp.bound, hp.unlimited, hp.written, hp.errors, hp.reported, hp.fatal⟩
  obtain ⟨hrun, hp₁⟩ := dispatch_prose source action rounds hw Run.headerScope (.header header)
  let p₁ := emitted source Run.headerScope (.header header) (p.withHost w)
  have hstart : (inMemory action).openScope Run.headerScope none p.machine.host =
      .ok p.machine.host.nextHandle w := rfl
  have hclose : (inMemory action).closeScope p.machine.host.nextHandle p₁.machine.host =
      .ok () { p₁.machine.host with opened := p.machine.host.opened } :=
    MarkdownWriter.closeScope_innermost (w := p₁.machine.host) rfl
  refine ⟨p₁.withHost { p₁.machine.host with opened := p.machine.host.opened }, ?_, ?_, hopen⟩
  · rw [Run.runHeader_eq, hstart]
    simp only [hrun, Run.onHost]
    rw [hclose]
    rfl
  · exact ⟨hp₁.bound, hp₁.unlimited, hp₁.written, hp₁.errors, hp₁.reported, hp₁.fatal⟩

theorem runSection_prose {part : Document.Section} (hlevel : 0 < part.heading.level)
    (hprose : ∀ c ∈ part.children, c.isCode = false) (hp : Steady p text) (hopen : Balanced p) :
    ∃ p', Run.runSection source (inMemory action) (programRunner (inMemory action) rounds)
        part p = .ok () p' ∧
      Steady p' (text ++ part.raw) ∧ Balanced p' := by
  obtain ⟨stack, nextHandle, henter⟩ := MarkdownWriter.enter_eq action part.heading.title
    (String.ofList part.heading.raw) hlevel hp.unlimited hopen
  let w := { p.machine.host.wrote (String.ofList part.heading.raw) with
    nextHandle, opened := stack.handles }
  let p₁ : Progress (MarkdownWriter TextSink) :=
    ⟨⟨p.machine.environment, w⟩, stack, Run.countSection p.counts⟩
  have hscope : Run.onStack (ScopeStack.enter (inMemory action) part.heading.level
      part.heading.title (some (String.ofList part.heading.raw)))
        { p with counts := Run.countSection p.counts } = .ok p.machine.host.nextHandle p₁ := by
    simp only [Run.onStack, henter]
    rfl
  have hp₁ : Steady p₁ (text ++ part.heading.raw) := by
    refine ⟨hp.bound, hp.unlimited, ?_, hp.errors, hp.reported, hp.fatal⟩
    change p.machine.host.sink.written ++ String.ofList part.heading.raw =
      String.ofList (text ++ part.heading.raw)
    rw [hp.written, String.ofList_append]
  obtain ⟨p₂, hrun, hp₂, hopen₂⟩ := runContents_prose source action rounds hprose hp₁ rfl
  refine ⟨p₂, ?_, ?_, hopen₂⟩
  · rw [Run.runSection_eq, run_bind_of_ok hscope]
    exact hrun
  · simpa [Section.raw, Section.lines, Heading.raw] using hp₂

theorem runSections_prose {sections : List Document.Section}
    (hlevels : ∀ part ∈ sections, 0 < part.heading.level)
    (hprose : ∀ c ∈ sections.flatMap Section.children, c.isCode = false)
    (hp : Steady p text) (hopen : Balanced p) :
    ∃ p', Run.runSections source (inMemory action) (programRunner (inMemory action) rounds)
        sections p = .ok () p' ∧
      Steady p' (text ++ rawOf (sections.flatMap Section.lines)) ∧ Balanced p' := by
  induction sections generalizing p text with
  | nil =>
    refine ⟨p, rfl, ?_, hopen⟩
    simpa using hp
  | cons part rest ih =>
    obtain ⟨hlevel, hmore⟩ := List.forall_mem_cons.mp hlevels
    rw [List.flatMap_cons, List.forall_mem_append] at hprose
    obtain ⟨p₁, hrun, hp₁, hopen₁⟩ := runSection_prose source action rounds hlevel hprose.1 hp
      hopen
    obtain ⟨p₂, hrest, hp₂, hopen₂⟩ := ih hmore hprose.2 hp₁ hopen₁
    refine ⟨p₂, ?_, ?_, hopen₂⟩
    · rw [Run.runSections, run_bind_of_ok hrun]
      exact hrest
    · simpa [Section.raw] using hp₂

theorem runBody_prose {d : Document} (hlevels : ∀ part ∈ d.sections, 0 < part.heading.level)
    (hprose : ∀ c ∈ d.contents, c.isCode = false) (hp : Steady p []) (hopen : Balanced p) :
    ∃ p', Run.runBody source (inMemory action) (programRunner (inMemory action) rounds) d p =
        .ok () p' ∧
      Steady p' (rawOf d.lines) ∧ Balanced p' := by
  rw [Document.contents, List.forall_mem_append] at hprose
  obtain ⟨p₁, hfront, hp₁, hopen₁⟩ : ∃ p₁,
      Run.runFront source (inMemory action) (programRunner (inMemory action) rounds) d.header p =
        .ok () p₁ ∧
        Steady p₁ (rawOf ((d.header.map Header.lines).getD [])) ∧ Balanced p₁ := by
    cases d.header with
    | none => exact ⟨p, rfl, hp, hopen⟩
    | some header => exact runHeader_prose source action rounds header hp hopen
  obtain ⟨p₂, hintro, hp₂, hopen₂⟩ := runContents_prose source action rounds hprose.1 hp₁
    hopen₁
  obtain ⟨p₃, hsections, hp₃, hopen₃⟩ := runSections_prose source action rounds hlevels
    hprose.2 hp₂ hopen₂
  refine ⟨p₃, ?_, ?_, hopen₃⟩
  · rw [Run.runBody_eq, run_bind_of_ok hfront, run_bind_of_ok hintro]
    exact hsections
  · simpa [Document.lines] using hp₃

/-- A document without code is written as it is, whatever its text holds. -/
theorem executeSource_prose {source : Source} {d : Document} (action : ErrorAction) (rounds : Nat)
    (hparse : parse source.text.toList = .ok d) (hprose : ∀ c ∈ d.contents, c.isCode = false) :
    ∃ counts m,
      executeSource source (MarkdownWriter.host TextSink.put action)
          (programRunner (MarkdownWriter.host TextSink.put action) rounds)
          ⟨.initial, .on ⟨none, ""⟩⟩ = (.ok counts, m) ∧
        counts.errors = 0 ∧
        m.host.sink.written = String.ofList (bodyText source.text.toList) ∧
        m.host.depth = 0 ∧ m.host.errors = [] ∧ m.host.fatal = [] := by
  obtain ⟨hstart, hlines, hfits⟩ := wellFormed_of_parse hparse
  have hlevels := level_pos_of_sectionsFit hfits.sections
  let p : Progress (MarkdownWriter TextSink) := ⟨⟨.initial, .on ⟨none, ""⟩⟩, [], ⟨0, 0, 0, 0⟩⟩
  have hp : Steady p [] := ⟨Environment.load_initial .text, rfl, rfl, rfl, rfl, rfl⟩
  obtain ⟨p', hrun, hp', hopen⟩ := runBody_prose source action rounds hlevels hprose hp rfl
  have hclose := MarkdownWriter.closeEach_eq TextSink.put action hopen
  refine ⟨p'.counts, ⟨p'.machine.environment, { p'.machine.host with opened := [] }⟩, ?_,
    hp'.errors, ?_, rfl, hp'.reported, hp'.fatal⟩
  · rw [executeSource_of_parse hparse, execute_eq_ok_iff]
    exact ⟨p', _, hrun, hclose, rfl, rfl⟩
  · rw [← rawOf_bodyLines, ← hlines]
    exact hp'.written

/-- Quotes, brackets, a backslash and carriage returns between two headings. -/
theorem executeSource_prose_of_marks : ∃ counts m,
    executeSource ⟨"d", "\ufeffT\r\n===\r\n\"\\n\x7b'\x7d\x7d\u0000\r\n## B", 0⟩
        (MarkdownWriter.host TextSink.put .halt)
        (programRunner (MarkdownWriter.host TextSink.put .halt) 0)
        ⟨.initial, .on ⟨none, ""⟩⟩ = (.ok counts, m) ∧
      counts.errors = 0 ∧
      m.host.sink.written = String.ofList
        (bodyText "\ufeffT\r\n===\r\n\"\\n\x7b'\x7d\x7d\u0000\r\n## B".toList) ∧
      m.host.depth = 0 ∧ m.host.errors = [] ∧ m.host.fatal = [] := by
  have hread : ((parse "\ufeffT\r\n===\r\n\"\\n\x7b'\x7d\x7d\u0000\r\n## B".toList).toOption.map
      fun d => d.contents.all fun c => ! c.isCode) = some true := by
    decide +kernel
  cases hparse : parse "\ufeffT\r\n===\r\n\"\\n\x7b'\x7d\x7d\u0000\r\n## B".toList with
  | error e =>
    rw [hparse] at hread
    simp [Except.toOption] at hread
  | ok d =>
    rw [hparse] at hread
    have hprose : ∀ c ∈ d.contents, c.isCode = false := by
      simpa [Except.toOption] using hread
    exact executeSource_prose .halt 0 hparse hprose

end LiveDoc
