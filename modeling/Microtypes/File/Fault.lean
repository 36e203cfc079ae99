import Microtypes.File.Path
import Microtypes.Text.Quoted

/-!
# What goes wrong with files

A file operation is refused by the system for one of the causes below, or never reaches it because
the path itself cannot be used. `FileSystem` lists the operations that a run needs, so that a run is
the same on the files of a machine and on a tree of files that is held as a value.
-/

namespace Microtypes

/-- Why the system refuses a file operation. -/
inductive FileCause where
  /-- A component of the path does not exist. -/
  | notFound
  /-- The path exists and should not. -/
  | alreadyExists
  /-- A component of the path that should be a directory is a file. -/
  | notDirectory
  /-- The path is a directory and should be a file. -/
  | isDirectory
  /-- A component or the whole path is too long. -/
  | nameTooLong
  /-- Any other reason, by the system's number and wording. -/
  | other (code : Nat) (wording : String)
deriving DecidableEq, Repr

/-- The number by which the system knows a cause. -/
def FileCause.code : FileCause → Nat
  | .notFound => 2
  | .alreadyExists => 17
  | .notDirectory => 20
  | .isDirectory => 21
  | .nameTooLong => 36
  | .other code _ => code

/-- The system's wording of a cause. -/
def FileCause.wording : FileCause → String
  | .notFound => "No such file or directory"
  | .alreadyExists => "File exists"
  | .notDirectory => "Not a directory"
  | .isDirectory => "Is a directory"
  | .nameTooLong => "File name too long"
  | .other _ wording => wording

/-- A refused file operation. -/
structure FileError where
  cause : FileCause
  path : Path
deriving DecidableEq, Repr

/-- The wording of a refused file operation. -/
def FileError.message (e : FileError) : String :=
  s!"[Errno {e.cause.code}] {e.cause.wording}: " ++ quoted e.path.text

/-- Why a path cannot be used. -/
inductive PathFault where
  | refused (error : FileError)
  /-- The path holds the null character, which no path of the system can hold. -/
  | nullCharacter
  /-- The path has no last component whose suffix could be replaced. -/
  | noName (path : Path)
deriving DecidableEq, Repr

/-- The wording of a fault. -/
def PathFault.message : PathFault → String
  | .refused error => error.message
  | .nullCharacter => "embedded null byte"
  | .noName path => "PosixPath('" ++ path.text ++ "') has an empty name"

/-- The operations on files that a run needs. -/
structure FileSystem (m : Type → Type) where
  exists? : Path → m (Except PathFault Bool)
  /-- The path from the root that a path leads to, whether or not it exists. -/
  resolve : Path → m (Except PathFault Path)
  read : Path → m (Except PathFault (List UInt8))
  /-- Writes a file, after making the directories above it that are missing. -/
  save : Path → List UInt8 → m (Except PathFault Unit)

end Microtypes
