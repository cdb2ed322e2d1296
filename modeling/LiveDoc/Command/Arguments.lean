import LiveDoc.Host

/-!
The arguments of the command line. Options in front of the word `run` are those of the program,
options behind it those of running documents; a few are both. An option is taken down when the
next argument is met, so what is wrong with its value is found after an unknown argument behind
it. Without `run` or `help` among the arguments, documents are run.
-/
namespace LiveDoc.Command

inductive Switch where
  | noColor
  | verbose
  | config
  | help
  | version
  | output
  | force
  | check
  | tree
  | onError
deriving DecidableEq, Repr

namespace Switch

def all : List Switch :=
  [noColor, verbose, config, help, version, output, force, check, tree, onError]

def long : Switch → String
  | noColor => "no-color"
  | verbose => "verbose"
  | config => "config"
  | help => "help"
  | version => "version"
  | output => "output"
  | force => "force"
  | check => "check"
  | tree => "tree"
  | onError => "on-error"

def short? : Switch → Option Char
  | verbose => some 'v'
  | help => some 'h'
  | version => some 'V'
  | output => some 'o'
  | force => some 'f'
  | _ => none

/-- What the value of an option is called, if it has one. -/
def valueName? : Switch → Option String
  | config => some "FILE"
  | output => some "OUTPUT"
  | onError => some "ACTION"
  | _ => none

def takesValue (s : Switch) : Bool := s.valueName?.isSome

/-- How an option is shown to the user. -/
def shown (s : Switch) : String :=
  "--" ++ s.long ++ (if s = verbose then "..." else "") ++
    (match s.valueName? with
      | some name => " <" ++ name ++ ">"
      | none => "")

end Switch

/-- Whose options are read: those of the program or those of running documents. -/
inductive Level where
  | program
  | run
deriving DecidableEq, Repr

def Level.switches : Level → List Switch
  | program => [.noColor, .verbose, .config, .help, .version]
  | run => [.noColor, .verbose, .config, .help, .output, .force, .check, .tree, .onError]

inductive UsageError where
  /-- An option that is not known; where documents are expected it may be meant as one. -/
  | unknownOption (argument : String) (inputsExpected : Bool)
  /-- A command behind a pair of hyphens. -/
  | escapedCommand (name : String)
  | repeated (s : Switch)
  | missingValue (s : Switch)
  | superfluousValue (s : Switch) (value : String)
  | unknownAction (value : String)
  | unknownCommand (name : String)
  | noInputs
  | noCommand
deriving DecidableEq, Repr

def UsageError.message : UsageError → String
  | unknownOption argument inputsExpected =>
    "unexpected argument '" ++ argument ++ "' found" ++
      (if inputsExpected then
        "\n\n  tip: to pass '" ++ argument ++ "' as a value, use '-- " ++ argument ++ "'"
      else "")
  | escapedCommand name => "unexpected argument '" ++ name ++ "' found"
  | repeated s => "the argument '" ++ s.shown ++ "' cannot be used multiple times"
  | missingValue s => "a value is required for '" ++ s.shown ++ "' but none was supplied"
  | superfluousValue s value =>
    "unexpected value '" ++ value ++ "' for '" ++ s.shown ++ "' found; no more were expected"
  | unknownAction value =>
    "invalid value '" ++ value ++ "' for '" ++ Switch.onError.shown ++ "': " ++
      ErrorAction.unknownMessage value
  | unknownCommand name => "unrecognized subcommand '" ++ name ++ "'"
  | noInputs => "the following required arguments were not provided:"
  | noCommand => "'tfd' requires a subcommand but one was not provided"

/-- What the arguments ask for. -/
structure Request where
  inputs : List String
  output : Option String
  config : Option String
  onError : Option ErrorAction
  force : Bool
  check : Bool
  tree : Bool
  noColor : Bool
deriving DecidableEq

/-- What is known before all arguments are read. -/
structure Taken where
  seen : List Switch
  output : Option String
  config : Option String
  onError : Option ErrorAction
  inputs : List String
  /-- An option that is not yet taken down, with its value as far as it is known. -/
  pending : Option (Switch × Option String)

namespace Taken

def empty : Taken := ⟨[], none, none, none, [], none⟩

def has (t : Taken) (s : Switch) : Bool := t.seen.contains s

/-- Notes an option down; all but one can stand there only once. -/
def mark (t : Taken) (s : Switch) : Except UsageError Taken :=
  if t.has s && s != .verbose then .error (.repeated s) else .ok { t with seen := s :: t.seen }

def takeValue (t : Taken) (s : Switch) (value : String) : Except UsageError Taken := do
  let t ← t.mark s
  match s with
  | .config => if value.isEmpty then .error (.missingValue s) else .ok { t with config := value }
  | .output => .ok { t with output := value }
  | .onError =>
    match ErrorAction.ofName? value with
    | some action => .ok { t with onError := action }
    | none => .error (.unknownAction value)
  | _ => .ok t

/-- Takes down the pending option. -/
def settle (t : Taken) : Except UsageError Taken :=
  match t.pending with
  | none => .ok t
  | some (s, none) => .error (.missingValue s)
  | some (s, some value) => { t with pending := none }.takeValue s value

def isAwaitingValue (t : Taken) : Bool :=
  match t.pending with
  | some (_, none) => true
  | _ => false

def supplyValue (t : Taken) (value : String) : Taken :=
  { t with pending := t.pending.map fun (s, _) => (s, some value) }

end Taken

/-- What the user is told instead of running documents. -/
inductive Showing where
  | help
  /-- Help that is shown because nothing was asked for. -/
  | helpForNothing
  | version
deriving DecidableEq, Repr

/-- Why the reading of arguments ends early. -/
inductive Ending where
  | usage (e : UsageError)
  | showing (s : Showing)
deriving DecidableEq, Repr

abbrev Reading (α : Type) := Except Ending α

def settle (t : Taken) : Reading Taken := t.settle.mapError .usage

/-- An option without a value. -/
def takeFlag (t : Taken) (s : Switch) : Reading Taken := do
  let t ← settle t
  match s with
  | .help => throw (.showing .help)
  | .version => throw (.showing .version)
  | _ => (t.mark s).mapError .usage

/-- An option with a value that may be attached to it. -/
def takeOption (t : Taken) (s : Switch) (attached : Option String) : Reading Taken := do
  let t ← settle t
  match attached with
  | some value => (t.takeValue s value).mapError .usage
  | none => return { t with pending := some (s, none) }

/-- The name and the attached value of an argument that begins with two hyphens. -/
def splitLong (argument : List Char) : String × Option String :=
  let name := argument.takeWhile (· != '=')
  let value := match argument.dropWhile (· != '=') with
    | [] => none
    | _ :: value => some (String.ofList value)
  (String.ofList name, value)

def takeLong (level : Level) (t : Taken) (argument : List Char) : Reading Taken :=
  let (name, value) := splitLong argument
  match level.switches.find? (·.long == name) with
  | none => throw (.usage (.unknownOption ("--" ++ name) (level == .run)))
  | some s =>
    if s.takesValue then takeOption t s value
    else
      match value with
      | some value => throw (.usage (.superfluousValue s value))
      | none => takeFlag t s

/-- The letters behind one hyphen; what follows an option with a value is its value. -/
def takeShorts (level : Level) (t : Taken) : List Char → Reading Taken
  | [] => return t
  | c :: rest =>
    match level.switches.find? (·.short? == some c) with
    | none => throw (.usage (.unknownOption ("-" ++ String.singleton c) (level == .run)))
    | some s =>
      if s.takesValue then
        takeOption t s (match rest with
          | [] => none
          | '=' :: value => some (String.ofList value)
          | value => some (String.ofList value))
      else do takeShorts level (← takeFlag t s) rest

/-- How an argument reads that does not follow a pair of hyphens. -/
inductive Form where
  | escape
  | long (text : List Char)
  | shorts (letters : List Char)
  | plain
deriving DecidableEq, Repr

def formOf (argument : String) : Form :=
  match argument.toList with
  | ['-', '-'] => .escape
  | '-' :: '-' :: text => .long text
  | '-' :: c :: letters => .shorts (c :: letters)
  | _ => .plain

/-- The options of running documents and the documents. -/
def readRun (t : Taken) (onlyInputs : Bool) : List String → Reading Taken
  | [] => settle t
  | argument :: rest => do
    let takeInput : Reading Taken := do
      let t ← settle t
      return { t with inputs := t.inputs ++ [argument] }
    if onlyInputs then readRun (← takeInput) true rest
    else
      match formOf argument with
      | .escape => readRun t true rest
      | .long text => readRun (← takeLong .run t text) false rest
      | .shorts letters => readRun (← takeShorts .run t letters) false rest
      | .plain =>
        if t.isAwaitingValue then readRun (t.supplyValue argument) false rest
        else readRun (← takeInput) false rest

def commands : List String := ["run", "help"]

/-- The arguments behind `help` name what help is wanted on. -/
def readHelp : List String → Ending
  | [] => .showing .help
  | [name] => if commands.contains name then .showing .help else .usage (.unknownCommand name)
  | name :: next :: _ =>
    if commands.contains name then .usage (.unknownCommand next)
    else .usage (.unknownCommand name)

/-- What the options of the program and of running documents come to. -/
def request (program run : Taken) : Request :=
  { inputs := run.inputs
    output := run.output
    config := run.config.or program.config
    onError := run.onError
    force := run.has .force
    check := run.has .check
    tree := run.has .tree
    noColor := run.has .noColor || program.has .noColor }

/-- The options of the program up to a command. -/
def readProgram (t : Taken) (escaped : Bool) : List String → Reading Request
  | [] => do
    let t ← settle t
    if t.seen.isEmpty then throw (.showing .helpForNothing)
    throw (.usage .noCommand)
  | argument :: rest => do
    if escaped then
      throw (.usage (if commands.contains argument then .escapedCommand argument
        else .unknownCommand argument))
    else if ! t.isAwaitingValue && argument == "run" then
      let run ← readRun .empty false rest
      if run.inputs.isEmpty then throw (.usage .noInputs)
      return request (← settle t) run
    else if ! t.isAwaitingValue && argument == "help" then throw (readHelp rest)
    else
      match formOf argument with
      | .escape => readProgram t true rest
      | .long text => readProgram (← takeLong .program t text) false rest
      | .shorts letters => readProgram (← takeShorts .program t letters) false rest
      | .plain =>
        if t.isAwaitingValue then readProgram (t.supplyValue argument) false rest
        else throw (.usage (.unknownCommand argument))

/-- Options whose value stands in an argument of its own. -/
def valueOptions : List String := ["--config", "-o", "--output", "--on-error"]

/-- The first argument that is neither an option nor the value of one. -/
def firstPlain? : List String → Option String
  | [] => none
  | argument :: rest =>
    if valueOptions.contains argument then
      match rest with
      | [] => none
      | _ :: rest => firstPlain? rest
    else if argument == "-" || ! argument.toList.head? == some '-' then some argument
    else firstPlain? rest

def withCommand (arguments : List String) : List String :=
  match firstPlain? arguments with
  | some first => if commands.contains first then arguments else "run" :: arguments
  | none => arguments

def read (arguments : List String) : Reading Request :=
  readProgram .empty false (withCommand arguments)

end LiveDoc.Command
