/-!
What a command asks of the system it runs on: files, two streams of output and one of input. A
system is a record of operations in some monad, so that the same command runs on the files of a
computer and on a tree of files in memory.
-/
namespace LiveDoc

inductive IoError where
  | notFound
  | notFolder
  | isFolder
  | nameTooLong
  /-- What is written to is full. -/
  | noRoom
  /-- The bytes of a file are no text. -/
  | notText
  | other (message : String)
deriving DecidableEq, Repr

def IoError.message : IoError → String
  | notFound => "No such file or directory (os error 2)"
  | notFolder => "Not a directory (os error 20)"
  | isFolder => "Is a directory (os error 21)"
  | nameTooLong => "File name too long (os error 36)"
  | noRoom => "No space left on device (os error 28)"
  | notText => "stream did not contain valid UTF-8"
  | other message => message

structure System (m : Type → Type) where
  readFile : String → m (Except IoError String)
  /-- Reads the input to its end. -/
  readInput : m (Except IoError String)
  isFolder : String → m Bool
  /-- Whether a path leads to a file or a folder. -/
  isThere : String → m Bool
  /-- The only absolute path without detours that leads to the same place. -/
  canonical? : String → m (Option String)
  /-- Makes an empty file, also in place of one that is there. -/
  createFile : String → m (Except IoError Unit)
  appendFile : String → String → m (Except IoError Unit)
  /-- Writes a text to the output, which may refuse it. -/
  print : String → m (Except IoError Unit)
  /-- Whether the user sees colors, if nothing else is asked for. -/
  showsColors : m Bool
  /-- Writes a line for the user beside the output, where it may be refused as well. -/
  complain : String → m (Except IoError Unit)

end LiveDoc
