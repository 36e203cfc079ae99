import Microtypes.Capability.Feature
import Microtypes.File.Path

/-!
# Errors of a configuration

What a user asks for may be impossible before any source is read. Each such error has a code, a
message and mostly a suggestion.
-/

namespace Microtypes

/-- The codes of configuration errors. -/
inductive ConfigCode where
  | missingInput
  | pathNotFound
  | unknownFeature
  /-- Writing and discovery are asked for together. -/
  | conflictGenerateDiscovery
  | outputIsInput
deriving DecidableEq, Repr

namespace ConfigCode

/-- All codes. -/
def all : List ConfigCode :=
  [.missingInput, .pathNotFound, .unknownFeature, .conflictGenerateDiscovery, .outputIsInput]

/-- The name that stands in reports. -/
def name : ConfigCode → String
  | .missingInput => "MISSING_INPUT"
  | .pathNotFound => "PATH_NOT_FOUND"
  | .unknownFeature => "UNKNOWN_FEATURE"
  | .conflictGenerateDiscovery => "CONFLICT_GENERATE_DISCOVERY"
  | .outputIsInput => "OUTPUT_IS_INPUT"

/-- The code of a name. -/
def ofName? (text : String) : Option ConfigCode :=
  all.find? (·.name == text)

end ConfigCode

/-- A configuration error in words. -/
structure ConfigError where
  code : ConfigCode
  message : String
  suggestion : Option String
deriving DecidableEq, Repr

/-- What is wrong with a configuration. -/
inductive ConfigCause where
  /-- The value for features is of another kind than a list. -/
  | featuresKind (kind : String)
  /-- An entry for features is of another kind than a name. -/
  | featureKind (kind : String)
  | unknownFeature (name : String)
  /-- Flags of writing stand beside flags of discovery. -/
  | conflict
  | missingInput
  /-- No path is given for a flag. -/
  | pathRequired (flag : String) (suggestion : Option String)
  /-- The path for a flag does not exist. -/
  | pathNotFound (flag : String) (path : Path) (suggestion : Option String)
  | outputIsInput (output : Path)
deriving DecidableEq, Repr

/-- A suggestion, or the usual one where none or an empty one is given. -/
def suggestionOr (given : Option String) (usual : String) : Option String :=
  match given with
  | none => some usual
  | some text => some (if text.isEmpty then usual else text)

/-- A cause in words. -/
def ConfigCause.error : ConfigCause → ConfigError
  | .featuresKind kind =>
    ⟨.unknownFeature, "Invalid --features value type: " ++ kind,
      some "Pass feature names as --features serde,secret."⟩
  | .featureKind kind =>
    ⟨.unknownFeature, "Invalid feature name type: " ++ kind,
      some "Pass feature names as --features serde,secret."⟩
  | .unknownFeature name =>
    ⟨.unknownFeature, "Unknown feature: " ++ name,
      some ("Use one of: " ++ ", ".intercalate (Feature.all.map Feature.name) ++ ".")⟩
  | .conflict =>
    ⟨.conflictGenerateDiscovery,
      "--output and --keep-going cannot be combined with discovery flags.",
      some "Choose either generate mode or one of --plan / --list-features."⟩
  | .missingInput =>
    ⟨.missingInput, "A declaration file is required.",
      some "Pass the declaration file path: microtype_gen.py types.microtype"⟩
  | .pathRequired flag suggestion =>
    ⟨.pathNotFound, flag ++ " is required: no path provided.",
      suggestionOr suggestion ("Pass the path explicitly: " ++ flag ++ " /path/to/resource")⟩
  | .pathNotFound flag path suggestion =>
    ⟨.pathNotFound, "Path for " ++ flag ++ " does not exist: " ++ path.text,
      suggestionOr suggestion "Provide an existing path for this flag."⟩
  | .outputIsInput output =>
    ⟨.outputIsInput, "Output path would overwrite the input: " ++ output.text,
      some "Pass a different path with --output."⟩

end Microtypes
