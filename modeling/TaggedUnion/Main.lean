import TaggedUnion.Command.Program
import TaggedUnion.Session

/-! # The program on an operating system

    The host of the program as it is run: the files of the system, the standard streams, and
    the arguments that it was started with.
-/

namespace TaggedUnion

/-- The number of the system for a path that leads through a file. -/
def notDirectoryNumber : UInt32 := 20

/-- The number of the system for a name that is too long. -/
def nameTooLongNumber : UInt32 := 36

/-- The cause that the system reports. Its numbers come with either sign. -/
def FileError.ofSystem : IO.Error → FileError
  | .noFileOrDirectory .. => .notFound
  | .alreadyExists .. => .alreadyExists
  | .inappropriateType _ number _ =>
    if number = notDirectoryNumber ∨ 0 - number = notDirectoryNumber then .notDirectory
    else .isDirectory
  | e@(.invalidArgument _ number _) =>
    if number = nameTooLongNumber ∨ 0 - number = nameTooLongNumber then .nameTooLong
    else .other (toString e)
  | .permissionDenied .. => .other "Permission denied (os error 13)"
  | e => .other (toString e)

/-- Runs an operation of the system, with a failure as a value. -/
def attempt {γ : Type} (x : IO γ) : IO (Except FileError γ) := do
  match ← x.toBaseIO with
  | .ok a => return .ok a
  | .error e => return .error (.ofSystem e)

/-- Runs an operation of the system on a path that can be walked. -/
def attemptOn {γ : Type} (path : String) (x : IO γ) : IO (Except FileError γ) := do
  match (Path.ofText path).check with
  | .error e => return .error e
  | .ok () => attempt x

/-- Makes a directory, unless there is one. Where there is something already, no directory
    above it is missing: then the second attempt makes none, and fails unless it finds a
    directory. -/
def ensureDirectory (path : String) : IO (Except FileError Unit) := do
  match ← attemptOn path (IO.FS.createDir path) with
  | .error .alreadyExists => attempt (IO.FS.createDirAll path)
  | result => return result

/-- Makes a directory and those above it that are missing, from the parts of its path in
    reverse. -/
def makeReversed (isAbsolute : Bool) : List String → IO (Except FileError Unit)
  | [] => return .ok ()
  | part :: upper => do
    if Path.isHere part then makeReversed isAbsolute upper
    else
      let path := (Path.mk isAbsolute (part :: upper).reverse).toText
      match ← ensureDirectory path with
      | .error .notFound =>
        match ← makeReversed isAbsolute upper with
        | .ok () => ensureDirectory path
        | .error e => return .error e
      | result => return result

/-- Reads the bytes of a stream up to the end of a line. -/
partial def readLine (stream : IO.FS.Stream) (before : ByteArray) : IO ByteArray := do
  let byte ← stream.read 1
  let line := before ++ byte
  if byte.isEmpty || byte.toList = [lineFeed] then return line
  readLine stream line

/-- Reads lines from a stream until one is accepted. -/
partial def askStream {γ : Type} (stream : IO.FS.Stream) (accept : String → Option γ)
    (reply : String) : IO (Except FileError (Option γ)) := do
  let line ← readLine stream .empty
  if line.isEmpty then return .ok none
  match Host.decode line with
  | .error e => return .error e
  | .ok s =>
    match accept s with
    | some a => return .ok (some a)
    | none =>
      IO.print reply
      (← IO.getStdout).flush
      askStream stream accept reply

instance : Host IO where
  readFile path := attemptOn path (IO.FS.readBinFile path)
  makeDirectories path :=
    let p := Path.ofText path
    makeReversed p.isAbsolute p.parent.parts.reverse
  writeFile path text := attemptOn path (IO.FS.writeFile path text)
  print text := do
    IO.print text
    (← IO.getStdout).flush
  ask accept reply := do
    return (← attempt do askStream (← IO.getStdin) accept reply).bind id

end TaggedUnion

/-- Runs the program on its arguments. -/
def main (arguments : List String) : IO UInt32 := do
  let outcome ← TaggedUnion.Command.program (m := IO) arguments
  if let some complaint := outcome.complaint then IO.eprintln complaint
  return outcome.code.number
