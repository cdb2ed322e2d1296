import LiveDoc.Command.Invocation

/-!
The command line program: the files and streams of the computer as a system, on which a command
is run.
-/
namespace LiveDoc.Command

/-- The errors that the system tells by a number. -/
def ioErrorOfCode (code : UInt32) (e : IO.Error) : IoError :=
  if code = 20 then .notFolder
  else if code = 21 then .isFolder
  else if code = 28 then .noRoom
  else if code = 36 then .nameTooLong
  else .other (toString e)

def ioErrorOf (e : IO.Error) : IoError :=
  match e with
  | .noFileOrDirectory _ _ _ => .notFound
  | .inappropriateType _ code _ => ioErrorOfCode code e
  | .invalidArgument _ code _ => ioErrorOfCode code e
  | .resourceExhausted _ code _ => ioErrorOfCode code e
  | _ => .other (toString e)

def attempt {α : Type} (act : IO α) : IO (Except IoError α) := do
  match ← act.toBaseIO with
  | .ok a => return .ok a
  | .error e => return .error (ioErrorOf e)

def textOfBytes (bytes : ByteArray) : Except IoError String :=
  match String.fromUTF8? bytes with
  | some text => .ok text
  | none => .error .notText

/-- The bytes of a stream up to its end. -/
partial def readToEnd (stream : IO.FS.Stream) (done : ByteArray) : IO ByteArray := do
  let bytes ← stream.read 65536
  if bytes.isEmpty then return done else readToEnd stream (done ++ bytes)

def computer : System IO where
  readFile path := do return (← attempt (IO.FS.readBinFile path)) >>= textOfBytes
  readInput := do
    return (← attempt (do readToEnd (← IO.getStdin) .empty)) >>= textOfBytes
  isFolder path := do
    match ← attempt (IO.FS.realPath path) with
    | .ok place => place.isDir
    | .error _ => return false
  isThere path := do
    match ← attempt (IO.FS.realPath path) with
    | .ok place => place.pathExists
    | .error _ => return false
  canonical? path := do
    match ← attempt (IO.FS.realPath path) with
    | .ok place => return if ← place.pathExists then some place.toString else none
    | .error _ => return none
  createFile path := attempt (IO.FS.writeBinFile path .empty)
  appendFile path text := attempt do
    let handle ← IO.FS.Handle.mk path .append
    handle.putStr text
    handle.flush
  print text := attempt do
    let out ← IO.getStdout
    out.putStr text
    out.flush
  showsColors := do
    let terminal ← IO.getEnv "TERM"
    return terminal.isSome && terminal != some "dumb" && (← IO.getEnv "NO_COLOR").isNone
  complain text := attempt (IO.eprintln text)

/-- More rounds than any loop takes. -/
def rounds : Nat := 4611686018427387904

end LiveDoc.Command

def main (arguments : List String) : IO UInt32 :=
  LiveDoc.Command.invoke LiveDoc.Command.computer LiveDoc.Command.rounds arguments
