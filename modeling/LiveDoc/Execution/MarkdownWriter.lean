import LiveDoc.Host

/-!
A host that renders a run as Markdown: headings as they are written when their scopes are opened,
and emitted text as it is. A scope can only be closed while it is the innermost one. The writer
puts all text into a sink, which takes a text as a whole or not at all.
-/
namespace LiveDoc

/-- Takes a text or fails, in which case none of it is written. -/
abbrev Sink (τ : Type) := String → EStateM HostError τ Unit

structure MarkdownWriter (τ : Type) where
  sink : τ
  nextHandle : Handle
  /-- The open scopes, innermost first. -/
  opened : List Handle
  errors : List FragmentError
  fatal : List String
deriving DecidableEq

namespace MarkdownWriter

variable {τ : Type}

def on (sink : τ) : MarkdownWriter τ := ⟨sink, 0, [], [], []⟩

/-- The number of scopes that are open. -/
def depth (w : MarkdownWriter τ) : Nat := w.opened.length

def write (put : Sink τ) (text : String) : EStateM HostError (MarkdownWriter τ) Unit := fun w =>
  match put text w.sink with
  | .ok _ sink => .ok () { w with sink }
  | .error e sink => .error e { w with sink }

def openScope (put : Sink τ) (heading : Option String) :
    EStateM HostError (MarkdownWriter τ) Handle := do
  match heading with
  | some text => write put text
  | none => pure ()
  modifyGet fun w =>
    (w.nextHandle, { w with nextHandle := w.nextHandle + 1, opened := w.nextHandle :: w.opened })

def closeScope (handle : Handle) : EStateM HostError (MarkdownWriter τ) Unit := fun w =>
  match w.opened with
  | innermost :: rest =>
    if innermost = handle then .ok () { w with opened := rest } else .error (refusal handle) w
  | [] => .error (refusal handle) w
where
  refusal (handle : Handle) : HostError :=
    .rejected ("scope handle " ++ handle.repr ++ " is not the innermost open scope")

/-- Every failure of a fragment gets the same answer. -/
def host (put : Sink τ) (action : ErrorAction) : Host (MarkdownWriter τ) where
  openScope _ heading := openScope put heading
  closeScope := closeScope
  emitText := write put
  reportError e w := (action, { w with errors := w.errors ++ [e] })
  reportFatal message w := { w with fatal := w.fatal ++ [message] }
  note _ w := w

end MarkdownWriter

/-! ### Text in memory -/

/-- The text that was written, and the bytes that still find room if there is a limit. -/
structure TextSink where
  room : Option Nat
  written : String
deriving DecidableEq

namespace TextSink

def fits (s : TextSink) (text : String) : Bool :=
  match s.room with
  | some room => text.utf8ByteSize ≤ room
  | none => true

def put : Sink TextSink := fun text s =>
  if s.fits text then .ok () ⟨s.room.map (· - text.utf8ByteSize), s.written ++ text⟩
  else .error (.io "disk full") s

end TextSink

end LiveDoc
