import Microtypes.Config.Selection
import Microtypes.File.Fault
import Microtypes.Options.Reader
import Microtypes.Problem

/-!
# The configuration of a run

A run writes a file, or shows a table instead. Its configuration is made from the command line and
checked against the files before anything is read.
-/

namespace Microtypes

/-- A run that writes a file. -/
structure Generation where
  input : Path
  output : Path
  features : Features
  /-- Whether to write in spite of errors. -/
  keepGoing : Bool
deriving DecidableEq, Repr

/-- What a run does. -/
inductive Config where
  | generate (config : Generation)
  | plan (input : Path) (features : Features)
  | listFeatures (features : Features)
deriving DecidableEq, Repr

/-- Why there is no configuration. -/
inductive ConfigFault where
  /-- The command line ends the run early. -/
  | exit (exit : EarlyExit)
  | config (cause : ConfigCause)
  | path (fault : PathFault)
  /-- The configuration is given up without a report. -/
  | abort (abort : Abort)
deriving DecidableEq, Repr

/-- The suffix of generated files. -/
def rustSuffix : String := ".rs"

variable {m : Type → Type} [Monad m]

/-- Checks that a path is given and exists. -/
def existingPath (fs : FileSystem m) (path : Option Path) (flag : String)
    (suggestion : Option String) : ExceptT ConfigFault m Path := do
  match path with
  | none => throw (.config (.pathRequired flag suggestion))
  | some path =>
    match ← fs.exists? path with
    | .error fault => throw (.path fault)
    | .ok true => return path
    | .ok false => throw (.config (.pathNotFound flag path suggestion))

/-- The path that a path leads to. -/
def resolvedPath (fs : FileSystem m) (path : Path) : ExceptT ConfigFault m Path := do
  match ← fs.resolve path with
  | .error fault => throw (.path fault)
  | .ok resolved => return resolved

/-- The output that is asked for, or the source with its suffix replaced. -/
def targetPath (options : Options) (input : Path) : Except ConfigFault Path :=
  match options.output with
  | some (.path output) => .ok output
  | some .empty => .error (.abort .missingOutputPath)
  | none =>
    match input.withSuffix? rustSuffix with
    | some output => .ok output
    | none => .error (.path (.noName input))

/-- The value for features of a command line. -/
def Options.featureValue (options : Options) : FeatureValue :=
  match options.features with
  | none => .nothing
  | some uses => .list (uses.map fun names => .list (names.map .text))

/-- The configuration for a run that needs a source. -/
def sourceConfig (fs : FileSystem m) (options : Options) (features : Features) (given : Path) :
    ExceptT ConfigFault m Config := do
  let input ← existingPath fs (some given) "input" (some "Pass an existing declaration file.")
  if options.plan then return .plan input features
  let output ← liftExcept (targetPath options input)
  let written ← resolvedPath fs output
  let source ← resolvedPath fs input
  if written = source then throw (.config (.outputIsInput output))
  return .generate { input, output, features, keepGoing := options.keepGoing }

/-- The configuration for what a command line asks for. -/
def Config.ofOptions (fs : FileSystem m) (options : Options) : ExceptT ConfigFault m Config := do
  let features ← liftExcept <|
    (selectFeatures options.featureValue options.allFeatures options.noDefaultFeatures).mapError
      ConfigFault.config
  let discovery := options.plan || options.listFeatures
  if discovery && (options.output.isSome || options.keepGoing) then throw (.config .conflict)
  if options.listFeatures then return .listFeatures features
  match options.input with
  | none => throw (.config .missingInput)
  | some given => sourceConfig fs options features given

/-- The configuration for a command line. -/
def Config.ofArguments (fs : FileSystem m) (arguments : List String) :
    ExceptT ConfigFault m Config := do
  let options ← liftExcept ((Options.ofArguments arguments).mapError ConfigFault.exit)
  Config.ofOptions fs options

end Microtypes
