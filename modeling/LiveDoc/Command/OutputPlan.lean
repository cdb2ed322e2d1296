import LiveDoc.Files.Path
import LiveDoc.Files.System

/-!
Where the output of each input goes. All destinations are settled before anything is written: no
two inputs share one, none of them is an input, and none is there already unless it may be
overwritten. Two paths are one file if they lead to the same place, or, where one of them leads
nowhere, if they are spelled alike.
-/
namespace LiveDoc.Command

inductive Input where
  /-- The stream of input. -/
  | stream
  | file (path : String)
deriving DecidableEq, Repr

inductive Destination where
  /-- The stream of output. -/
  | stream
  | file (path : String)
deriving DecidableEq, Repr

namespace Input

def ofArgument (argument : String) : Input := if argument = "-" then stream else file argument

/-- The name of a document that comes without one. -/
def unnamed : String := "document"

/-- The name that a document is run under. -/
def documentName : Input → String
  | stream => unnamed
  | file path => (Path.fileName? path).getD unnamed

def outputExtension : String := "md"

/-- The name of the file that the output goes to in a folder of outputs. -/
def outputName : Input → String
  | stream => Path.withExtension outputExtension unnamed
  | file path =>
    (Path.fileName? (Path.withExtension outputExtension path)).getD
      (Path.withExtension outputExtension unnamed)

/-- The file beside the input; that of the stream is in the working folder. -/
def beside : Input → String
  | stream => outputName stream
  | file path => Path.withExtension outputExtension path

/-- How messages speak of the input. -/
def shown : Input → String
  | stream => "<stdin>"
  | file path => path

end Input

inductive PlanError where
  | repeatedStream
  | manyToOne (count : Nat) (path : String)
  | inputOverwritten (path : String)
  | sharedOutput (path : String)
  | outputExists (path : String)
deriving DecidableEq, Repr

def PlanError.message : PlanError → String
  | repeatedStream => "stdin ('-') can only be given once"
  | manyToOne count path =>
    "cannot write " ++ count.repr ++ " inputs to the single file '" ++ path ++ "'"
  | inputOverwritten path => "input and output are the same file: '" ++ path ++ "'"
  | sharedOutput path => "two inputs would both be written to '" ++ path ++ "'"
  | outputExists path =>
    "output file '" ++ path ++ "' already exists (use --force to overwrite)"

abbrev Plan := List (Input × Destination)

namespace Plan

variable {m : Type → Type} [Monad m]

def sameFile (sys : System m) (p q : String) : m Bool := do
  match ← sys.canonical? p, ← sys.canonical? q with
  | some a, some b => return Path.sameSpelling a b
  | _, _ => return Path.sameSpelling p q

/-- Where the output goes that is asked for by no option, a stream, a folder or a file. -/
def destination (sys : System m) (count : Nat) (output : Option String) (i : Input) :
    m (Except PlanError Destination) := do
  match output, i with
  | none, .stream => return .ok .stream
  | none, .file _ => return .ok (.file i.beside)
  | some target, _ =>
    if target = "-" || target = "quiet" then return .ok .stream
    else if target = "." then return .ok (.file i.beside)
    else if ← sys.isFolder target then return .ok (.file (Path.join target i.outputName))
    else if 1 < count then return .error (.manyToOne count target)
    else return .ok (.file target)

/-- Whether a path is that of one of the inputs. -/
def isInput (sys : System m) (path : String) : List Input → m Bool
  | [] => return false
  | .stream :: rest => isInput sys path rest
  | .file p :: rest => do
    if ← sameFile sys p path then return true else isInput sys path rest

/-- Whether a path is that of a destination. -/
def isPlanned (sys : System m) (path : String) : Plan → m Bool
  | [] => return false
  | (_, .stream) :: rest => isPlanned sys path rest
  | (_, .file p) :: rest => do
    if ← sameFile sys p path then return true else isPlanned sys path rest

/-- Why a file cannot be written. -/
def obstacle (sys : System m) (inputs : List Input) (force : Bool) (planned : Plan)
    (path : String) : m (Option PlanError) := do
  if ← isInput sys path inputs then return some (.inputOverwritten path)
  else if ← isPlanned sys path planned then return some (.sharedOutput path)
  else if ! force && (← sys.isThere path) then return some (.outputExists path)
  else return none

/-- Plans the inputs one by one; `planned` are those before. -/
def extend (sys : System m) (inputs : List Input) (output : Option String) (force : Bool)
    (planned : Plan) : List Input → m (Except PlanError Plan)
  | [] => return .ok planned
  | i :: rest => do
    match ← destination sys inputs.length output i with
    | .error e => return .error e
    | .ok .stream => extend sys inputs output force (planned ++ [(i, .stream)]) rest
    | .ok (.file path) =>
      match ← obstacle sys inputs force planned path with
      | some e => return .error e
      | none => extend sys inputs output force (planned ++ [(i, .file path)]) rest

def make (sys : System m) (inputs : List Input) (output : Option String) (force : Bool) :
    m (Except PlanError Plan) :=
  if 1 < inputs.count .stream then return .error .repeatedStream
  else extend sys inputs output force [] inputs

end Plan

end LiveDoc.Command
