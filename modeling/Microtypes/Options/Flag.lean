import Microtypes.Text.Quoted

/-!
# The flags of the command line

Which flags there are, how they are spelled, how many values they take and which exclude each other,
and what is said when they are misused.
-/

namespace Microtypes

/-- The flags of the command line. -/
inductive Flag where
  | help
  | output
  | features
  | allFeatures
  | noDefaultFeatures
  /-- Writes the output in spite of errors. -/
  | keepGoing
  | plan
  | listFeatures
deriving DecidableEq, Repr

/-- How many values a flag takes. -/
inductive Arity where
  | none
  | one
  | many
deriving DecidableEq, Repr

namespace Flag

/-- The spellings of the flags, in the order in which they are listed. -/
def spellings : List (String × Flag) :=
  [("-h", .help), ("--help", .help), ("-o", .output), ("--output", .output),
    ("--features", .features), ("--all-features", .allFeatures),
    ("--no-default-features", .noDefaultFeatures), ("--keep-going", .keepGoing),
    ("--plan", .plan), ("--list-features", .listFeatures)]

/-- The flag with exactly this spelling. -/
def spelled? (text : String) : Option Flag :=
  (spellings.find? (·.1 == text)).map (·.2)

/-- All spellings of a flag, as messages show them. -/
def label (flag : Flag) : String :=
  "/".intercalate ((spellings.filter (·.2 == flag)).map (·.1))

/-- How many values a flag takes. -/
def arity : Flag → Arity
  | .output => .one
  | .features => .many
  | _ => .none

/-- The flag that a flag excludes. -/
def excludes? : Flag → Option Flag
  | .features => some .allFeatures
  | .allFeatures => some .features
  | .plan => some .listFeatures
  | .listFeatures => some .plan
  | _ => none

end Flag

/-- How the command line is misused. -/
inductive UsageFault where
  | unrecognized (words : List String)
  | needsValue (flag : Flag)
  /-- A flag is given beside one that it excludes. -/
  | excluded (flag other : Flag)
  /-- A flag that takes no value is given one. -/
  | extraValue (flag : Flag) (value : String)
  /-- A shortened spelling has several meanings. -/
  | ambiguous (word : String) (spellings : List String)
deriving DecidableEq, Repr

/-- The wording of a misuse. -/
def UsageFault.message : UsageFault → String
  | .unrecognized words => "unrecognized arguments: " ++ " ".intercalate words
  | .needsValue flag =>
    let needed := if flag.arity = .many then "at least one argument" else "one argument"
    "argument " ++ flag.label ++ ": expected " ++ needed
  | .excluded flag other =>
    "argument " ++ flag.label ++ ": not allowed with argument " ++ other.label
  | .extraValue flag value =>
    "argument " ++ flag.label ++ ": ignored explicit argument " ++ quoted value
  | .ambiguous word spellings =>
    "ambiguous option: " ++ word ++ " could match " ++ ", ".intercalate spellings

/-- The name under which the command speaks of itself. -/
def commandName : String := "microtype_gen.py"

/-- The summary of the command line. -/
def usageLines : List String :=
  ["usage: " ++ commandName ++ " [-h] [-o OUTPUT] [--features FEATURES [FEATURES ...] |",
    "                        --all-features] [--no-default-features] [--keep-going]",
    "                        [--plan | --list-features]",
    "                        [input]"]

/-- What the help adds to the summary. -/
def helpLines : List String :=
  ["", "Generate Rust microtype wrappers", "", "positional arguments:", "  input", "", "options:",
    "  -h, --help            show this help message and exit", "  -o OUTPUT, --output OUTPUT",
    "  --features FEATURES [FEATURES ...]", "  --all-features", "  --no-default-features",
    "  --keep-going", "  --plan", "  --list-features"]

/-- Lines as a text that ends with a line feed. -/
def unlines (lines : List String) : String :=
  String.join (lines.map (· ++ "\n"))

/-- Why the command line is not acted upon. -/
inductive EarlyExit where
  | help
  | misuse (fault : UsageFault)
deriving DecidableEq, Repr

/-- The status of an early exit. -/
def EarlyExit.status : EarlyExit → Nat
  | .help => 0
  | .misuse _ => 2

/-- What an early exit prints. -/
def EarlyExit.standardOutput : EarlyExit → String
  | .help => unlines (usageLines ++ helpLines)
  | .misuse _ => ""

/-- What an early exit reports. -/
def EarlyExit.standardError : EarlyExit → String
  | .help => ""
  | .misuse fault => unlines (usageLines ++ [commandName ++ ": error: " ++ fault.message])

end Microtypes
