import Microtypes.Config.Config
import Microtypes.Output
import Microtypes.Report.Summary
import Microtypes.Report.Table
import Microtypes.Text.Utf8

/-!
# The command

A run prints to two streams and ends with a status, or with a fault that nothing handles. A
problem of the source is reported for each name that it concerns, and nothing is written then
unless that is asked for. Of the faults while a run goes on, those of the system and those of a
value are reported; a fault before it starts, and an abort, are not.
-/

namespace Microtypes

/-- Why a run cannot go on. -/
inductive RunFault where
  | path (fault : PathFault)
  | undecodable (fault : Utf8Fault)
  | output (fault : OutputFault)
  | abort (abort : Abort)
deriving DecidableEq, Repr

/-- How a run ends. -/
inductive Ending where
  | exit (status : Nat)
  | escaped (fault : RunFault)
deriving DecidableEq, Repr

/-- What a run prints. -/
structure Console where
  standardOutput : String := ""
  standardError : String := ""
deriving DecidableEq, Repr

/-- A finished run. -/
structure Run where
  console : Console
  ending : Ending
deriving DecidableEq, Repr

/-- The report of a written file. -/
structure WrittenFile where
  filename : String
  path : Path
  lines : Nat
  bytes : Nat
deriving DecidableEq, Repr

variable {m : Type → Type} [Monad m]

/-- A step of a run: it prints, and goes on or not. -/
abbrev RunT (m : Type → Type) (α : Type) := ExceptT Ending (StateT Console m) α

/-- Prints a text. -/
def say (text : String) : RunT m Unit :=
  modify fun c => { c with standardOutput := c.standardOutput ++ text }

/-- Reports a text. -/
def complain (text : String) : RunT m Unit :=
  modify fun c => { c with standardError := c.standardError ++ text }

/-- Ends a run for a fault while it goes on. -/
def giveUp {α : Type} (fault : RunFault) : RunT m α := do
  let internal (message : String) : RunT m α := do
    say ("Internal error: " ++ message ++ "\n")
    throw (.exit 1)
  match fault with
  | .path (.refused error) =>
    say ("Error: " ++ error.message ++ "\n")
    throw (.exit 1)
  | .path fault => internal fault.message
  | .undecodable fault => internal fault.message
  | .output fault => internal fault.message
  | .abort abort => throw (.escaped (.abort abort))

/-- Goes on with a value, or ends the run for a fault. -/
def orGiveUp {α ε : Type} (wrap : ε → RunFault) : Except ε α → RunT m α
  | .ok value => pure value
  | .error fault => giveUp (wrap fault)

/-- Does an operation on files. -/
def onFiles {α : Type} (operation : m (Except PathFault α)) : RunT m α := do
  orGiveUp .path (← (ExceptT.lift (StateT.lift operation) : RunT m _))

/-- Writes the file for an expansion, and measures it by reading it back from its path from the
root. -/
def saveFile (fs : FileSystem m) (output : Path) (label : String) (features : List String)
    (expansion : Expansion) (keepGoing : Bool) : ExceptT RunFault m WrittenFile := do
  let contents ← liftExcept ((assemble label features expansion keepGoing).mapError RunFault.output)
  let () ← usable (← fs.save output (encodeUtf8 contents))
  let path ← usable (← fs.resolve output)
  let stored ← usable (← fs.read path)
  return { filename := output.name, path, lines := lineFeeds contents, bytes := stored.length }
where
  usable {α : Type} (result : Except PathFault α) : ExceptT RunFault m α :=
    liftExcept (result.mapError RunFault.path)

/-- The text of a source file. -/
def sourceText (bytes : List UInt8) : Except RunFault String :=
  ((decodeUtf8 bytes).mapError RunFault.undecodable).map fun chars =>
    String.ofList (unifyLineEnds chars)

/-- Reads and expands a source file. -/
def expandFile (fs : FileSystem m) (input : Path) (features : Features) : RunT m Expansion := do
  let source ← orGiveUp id (sourceText (← onFiles (fs.read input)))
  orGiveUp .abort (Expansion.ofSource source features)

/-- The summary of a run that wrote a file. -/
def Expansion.summary (e : Expansion) (label features : String) (written : WrittenFile) :
    Summary where
  label := label
  output := written.path.text
  features := features
  counts := e.counts
  filename := written.filename
  lines := written.lines

/-- Expands a source and writes the file. -/
def generateFile (fs : FileSystem m) (config : Generation) : RunT m Unit := do
  say ("Parsing: " ++ config.input.text ++ "\n")
  let expansion ← expandFile fs config.input config.features
  let blocks := expansion.declarations.length
  say s!"  Declarations: {blocks} blocks, {expansion.specs.length} microtypes\n"
  let errors := expansion.errors
  complain (unlines (errors.map (·.consoleLine config.input.text)))
  if !errors.isEmpty && !config.keepGoing then
    say s!"  Failed: {errors.length} error(s), nothing written\n"
    throw (.exit 1)
  let label := config.input.name
  let features := config.features.names
  let writing := saveFile fs config.output label features expansion config.keepGoing
  let written ← orGiveUp id (← (ExceptT.lift (StateT.lift writing.run) : RunT m _))
  say (s!"  Written: {written.lines} lines to " ++ written.path.text ++ "\n")
  say (expansion.summary label (namesLabel features) written).text

/-- Does what a configuration asks for. -/
def runConfig (fs : FileSystem m) : Config → RunT m Unit
  | .listFeatures features => say (featuresTable features)
  | .plan input features => do
    let expansion ← expandFile fs input features
    say (planTable expansion input.name)
    if !expansion.ok then throw (.exit 1)
  | .generate config => generateFile fs config

/-- The report of a configuration error. -/
def ConfigError.report (e : ConfigError) : String :=
  let hint :=
    match e.suggestion with
    | none | some "" => []
    | some suggestion => ["Hint: " ++ suggestion]
  unlines (("Config error [" ++ e.code.name ++ "]: " ++ e.message) :: hint)

/-- Ends a run for which there is no configuration. -/
def refuse (fault : ConfigFault) : RunT m Unit := do
  match fault with
  | .exit exit =>
    say exit.standardOutput
    complain exit.standardError
    throw (.exit exit.status)
  | .config cause =>
    say cause.error.report
    throw (.exit 1)
  | .path fault => throw (.escaped (.path fault))
  | .abort abort => throw (.escaped (.abort abort))

/-- Runs the command on its arguments. -/
def runSteps (fs : FileSystem m) (arguments : List String) : RunT m Unit := do
  match ← (ExceptT.lift (StateT.lift (Config.ofArguments fs arguments).run) : RunT m _) with
  | .error fault => refuse fault
  | .ok config => runConfig fs config

/-- Runs the command on its arguments. A run that gets to its end has the status zero. -/
def runCommand (fs : FileSystem m) (arguments : List String) : m Run := do
  let (result, console) ← (runSteps fs arguments).run.run {}
  match result with
  | .ok () => return ⟨console, .exit 0⟩
  | .error ending => return ⟨console, ending⟩

end Microtypes
