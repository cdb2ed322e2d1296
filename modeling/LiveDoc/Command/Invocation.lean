import LiveDoc.Command.Arguments
import LiveDoc.Command.OutputPlan
import LiveDoc.Document.Dump
import LiveDoc.Execution.MarkdownWriter
import LiveDoc.Execution.Run
import LiveDoc.Settings.File

/-!
What a command does. Settings, plan and options come first; then the documents are run one after
the other, or only read. A document that fails makes the status one and those behind it are still
run, also where its output is refused; an input that cannot be read or a file that cannot be made
ends the command. What is told of a document that is only read has to be seen: where it is refused,
the command is broken off and has a code of its own.
-/
namespace LiveDoc.Command

/-- What ends a command before all documents are done. -/
inductive Trouble where
  | settings (e : Settings.Error)
  | plan (e : PlanError)
  | unreadable (i : Input) (e : IoError)
  | uncreatable (path : String) (e : IoError)
  /-- A stream refuses what has to be shown there. -/
  | unshown (stream : String) (e : IoError)
deriving DecidableEq, Repr

def Trouble.message : Trouble → String
  | settings e => e.message
  | plan e => e.message
  | unreadable i e => "cannot read '" ++ i.shown ++ "': " ++ e.message
  | uncreatable path e => "cannot create '" ++ path ++ "': " ++ e.message
  | unshown stream e => "failed printing to " ++ stream ++ ": " ++ e.message

/-- Whether the command is broken off instead of being brought to its end. -/
def Trouble.breaksOff : Trouble → Bool
  | unshown _ _ => true
  | _ => false

/-- Whether everything went well so far. -/
abbrev Status := Bool

variable {m : Type → Type} [Monad m]

def readInput (sys : System m) (i : Input) : m (Except Trouble String) := do
  let text ← match i with
    | .stream => sys.readInput
    | .file path => sys.readFile path
  return text.mapError (.unreadable i)

/-- Writes a line for the user, whether it is seen or not. -/
def tell (sys : System m) (line : String) : m Unit := do
  let _ ← sys.complain line

/-- How the documents of a command are treated. -/
structure Mode where
  parseOnly : Bool
  tree : Bool
  onError : ErrorAction
  colored : Bool

/-- Shows the tree of a document if that is asked for, and otherwise that there is one. -/
def announce (sys : System m) (mode : Mode) (i : Input) (d : Document) :
    m (Except Trouble Unit) := do
  if mode.tree then return (← sys.print d.dump).mapError (.unshown "stdout")
  else
    let line := "ok: " ++ i.shown ++ " parsed successfully"
    return (← sys.complain line).mapError (.unshown "stderr")

/-- Reads a document without running it. -/
def inspect (sys : System m) (mode : Mode) (i : Input) (source : Source) :
    m (Except Trouble Status) := do
  match Document.parse source.text.toList with
  | .error e =>
    tell sys ((e.diagnostic source.fileId).text ⟨i.shown, mode.colored⟩ source)
    return .ok false
  | .ok d => return (← announce sys mode i d).map fun _ => true

/-- The result of a run in memory, its output and the failures of fragments. -/
structure Rendered where
  result : RunResult
  output : String
  errors : List FragmentError

/-- Renders a document, in which no loop takes more than `rounds` rounds. -/
def render (rounds : Nat) (onError : ErrorAction) (source : Source) : Rendered :=
  let host := MarkdownWriter.host TextSink.put onError
  let start : Machine (MarkdownWriter TextSink) := ⟨.initial, .on ⟨none, ""⟩⟩
  let (result, final) := executeSource source host (programRunner host rounds) start
  ⟨result, final.host.sink.written, final.host.errors⟩

def prepare (sys : System m) : Destination → m (Except Trouble Unit)
  | .stream => return .ok ()
  | .file path => return (← sys.createFile path).mapError (.uncreatable path)

def deliver (sys : System m) (text : String) : Destination → m (Except IoError Unit)
  | .stream => sys.print text
  | .file path => sys.appendFile path text

/-- Tells of the failures and of an error that ended the run. -/
def report (sys : System m) (style : Diagnostic.Style) (source : Source)
    (errors : List FragmentError) (result : RunResult) : m Status := do
  for e in errors do tell sys (e.diagnostic.text style source)
  match result with
  | .ok counts => return counts.errors == 0
  | .error e =>
    if ! e.isFragment then tell sys ((e.diagnostic source.fileId).text style source)
    return false

/-- Renders a document and writes the output behind the run. If it is refused, a run that has come
to its end has failed; one that has failed already keeps its own error. -/
def runDocument (sys : System m) (rounds : Nat) (mode : Mode) (i : Input) (source : Source)
    (target : Destination) : m (Except Trouble Status) := do
  match ← prepare sys target with
  | .error e => return .error e
  | .ok () =>
    let rendered := render rounds mode.onError source
    let result ← match rendered.result, ← deliver sys rendered.output target with
      | .ok _, .error e => pure (.error (.output (.io e.message)))
      | result, _ => pure result
    return .ok (← report sys ⟨i.shown, mode.colored⟩ source rendered.errors result)

def process (sys : System m) (rounds : Nat) (mode : Mode) (fileId : Nat) (i : Input)
    (target : Destination) : m (Except Trouble Status) := do
  match ← readInput sys i with
  | .error e => return .error e
  | .ok text =>
    let source : Source := ⟨i.documentName, text, fileId⟩
    if mode.parseOnly then inspect sys mode i source
    else runDocument sys rounds mode i source target

/-- Treats the documents from the one with the number `fileId` on. -/
def processAll (sys : System m) (rounds : Nat) (mode : Mode) (fileId : Nat) (soFar : Status) :
    Plan → m (Except Trouble Status)
  | [] => return .ok soFar
  | (i, target) :: rest => do
    match ← process sys rounds mode fileId i target with
    | .error e => return .error e
    | .ok status => processAll sys rounds mode (fileId + 1) (soFar && status) rest

def colored (sys : System m) : ColorMode → m Bool
  | .auto => sys.showsColors
  | .always => return true
  | .never => return false

def carryOut (sys : System m) (rounds : Nat) (r : Request) : m (Except Trouble Status) := do
  match ← Settings.load sys r.config with
  | .error e => return .error (.settings e)
  | .ok settings =>
    let inputs := r.inputs.map Input.ofArgument
    let mode : Mode :=
      { parseOnly := r.check || r.tree
        tree := r.tree
        onError := r.onError.getD settings.onError
        colored := ! r.noColor && (← colored sys settings.color) }
    let plan ←
      if mode.parseOnly then pure (.ok (inputs.map fun i => (i, .stream)))
      else Plan.make sys inputs r.output (r.force || settings.force)
    match plan with
    | .error e => return .error (.plan e)
    | .ok plan => processAll sys rounds mode 0 true plan

def versionText : String := "tfd 0.1.0\n"

def helpText : String :=
  String.join (["Executable document runner", "", "Usage: tfd [OPTIONS] [run] <INPUTS>...", "",
    "Options:"] ++ Switch.all.map (fun s => "  " ++ s.shown) |>.map (· ++ "\n"))

/-- The exit code of a command that is broken off. -/
def brokenOffCode : UInt32 := 101

/-- Tells what has ended a command and gives its exit code. -/
def conclude (sys : System m) : Except Trouble Status → m UInt32
  | .ok status => return if status then 0 else 1
  | .error e =>
    if e.breaksOff then do
      tell sys e.message
      return brokenOffCode
    else do
      match ← sys.complain ("error: " ++ e.message) with
      | .ok () => return 1
      | .error refusal =>
        tell sys (Trouble.unshown "stderr" refusal).message
        return brokenOffCode

/-- Runs a command and gives its exit code. -/
def invoke (sys : System m) (rounds : Nat) (arguments : List String) : m UInt32 := do
  match read arguments with
  | .error (.usage e) =>
    tell sys ("error: " ++ e.message)
    return 2
  | .error (.showing .help) =>
    let _ ← sys.print helpText
    return 0
  | .error (.showing .version) =>
    let _ ← sys.print versionText
    return 0
  | .error (.showing .helpForNothing) =>
    tell sys helpText
    return 2
  | .ok request => conclude sys (← carryOut sys rounds request)

end LiveDoc.Command
