import Microtypes.Command
import Microtypes.File.Tree

/-!
# The program

The command on the files of the machine.
-/

open Microtypes

/-- The file that a system error names, its number and its wording. An error that the system gave no
number is put down to the device. -/
def systemError : IO.Error → Option String × Nat × String
  | .interrupted file code wording | .noFileOrDirectory file code wording =>
    (some file, code.toNat, wording)
  | .alreadyExists file code wording | .invalidArgument file code wording
  | .permissionDenied file code wording | .resourceExhausted file code wording
  | .inappropriateType file code wording | .noSuchThing file code wording =>
    (file, code.toNat, wording)
  | .otherError code wording | .resourceBusy code wording | .resourceVanished code wording
  | .unsupportedOperation code wording | .hardwareFault code wording
  | .unsatisfiedConstraints code wording | .illegalOperation code wording
  | .protocolError code wording | .timeExpired code wording => (none, code.toNat, wording)
  | .unexpectedEof => (none, 5, "Input/output error")
  | .userError wording => (none, 5, wording)

/-- The cause with a number of the system. -/
def fileCauseOf (code : Nat) (wording : String) : FileCause :=
  let named : List FileCause :=
    [.notFound, .alreadyExists, .notDirectory, .isDirectory, .nameTooLong]
  (named.find? (·.code == code)).getD (.other code wording)

/-- A system error in the terms of a run, about `path` unless the error names a file. -/
def refusal (path : Path) (e : IO.Error) : FileError :=
  let (file, code, wording) := systemError e
  ⟨fileCauseOf code wording, (file.map Path.ofText).getD path⟩

/-- Does an operation on a path, and turns an error of the system into a fault. -/
def guarded {α : Type} (path : Path) (operation : IO α) : IO (Except PathFault α) := do
  if FileTree.hasNull path then return .error .nullCharacter
  try
    return .ok (← operation)
  catch e => return .error (.refused (refusal path e))

/-- The numbers of the causes for which a path leads nowhere: a component is missing, is no
directory, is closed, or goes round in links. -/
def nowhere : List Nat := [2, 20, 9, 40]

/-- Whether there is something at a path. If it cannot be located, opening it tells the cause. -/
def machinePathExists (path : Path) : IO (Except PathFault Bool) := do
  if FileTree.hasNull path then return .ok false
  try
    discard (IO.FS.realPath path.text)
    return .ok true
  catch _ =>
    try
      discard (IO.FS.Handle.mk path.text .read)
      return .ok true
    catch e =>
      let error := refusal path e
      return if nowhere.contains error.cause.code then .ok false else .error (.refused error)

/-- Makes a directory, and those above it that are missing. What hinders the directory itself is
told rather than what hinders those above it, unless it is hindered by their absence. -/
def createDirectories (path : Path) : IO Unit := do
  try
    IO.FS.createDir path.text
  catch e =>
    try
      -- A directory that is there already is as good as a new one.
      IO.FS.createDirAll path.text
    catch above => throw (if (refusal path e).cause = .notFound then above else e)

/-- The files of the machine. -/
def machineFiles : FileSystem IO where
  exists? := machinePathExists
  resolve path := guarded path do
    let here ← IO.currentDir
    return .ofAbsolute (path.absolute (Path.ofText here.toString).parts)
  read path := guarded path do
    return (← IO.FS.readBinFile path.text).data.toList
  save path contents := do
    match ← guarded path.parent (createDirectories path.parent) with
    | .error fault => return .error fault
    | .ok () => guarded path (IO.FS.writeBinFile path.text ⟨contents.toArray⟩)

/-- Runs the command, prints what it printed, and ends with its status. -/
def main (arguments : List String) : IO UInt32 := do
  let run ← runCommand machineFiles arguments
  IO.print run.console.standardOutput
  IO.eprint run.console.standardError
  match run.ending with
  | .exit status => return status.toUInt32
  | .escaped _ => return 1
