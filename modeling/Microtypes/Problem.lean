import Microtypes.Grammar.Cursor
import Microtypes.Token.Rule

/-!
# Problems of a source

A problem is what is wrong and where. Its cause decides both the kind under which it is reported and
the wording, so the two always agree.

A run over a source may also end without a report; `Abort` lists how.
-/

namespace Microtypes

/-- The kinds under which problems are reported. -/
inductive ErrorKind where
  /-- The source or an attribute is malformed. -/
  | grammar
  | duplicateAttribute
  | conflictingAttribute
  /-- A control attribute asks for what is not enabled, or not possible together. -/
  | unsupportedCombination
deriving DecidableEq, Repr, Inhabited

namespace ErrorKind

/-- All kinds. -/
def all : List ErrorKind :=
  [.grammar, .duplicateAttribute, .conflictingAttribute, .unsupportedCombination]

/-- The name that stands in reports. -/
def name : ErrorKind → String
  | .grammar => "GRAMMAR"
  | .duplicateAttribute => "DUPLICATE_ATTRIBUTE"
  | .conflictingAttribute => "CONFLICTING_ATTRIBUTE"
  | .unsupportedCombination => "UNSUPPORTED_COMBINATION"

/-- The kind of a name. -/
def ofName? (text : String) : Option ErrorKind :=
  all.find? (·.name == text)

end ErrorKind

/-- What is wrong with a control attribute. -/
inductive ControlCause where
  /-- The attribute is given more than once. -/
  | duplicate (path : String)
  /-- Both a string and an integer are asked for. -/
  | bothKinds
  /-- The secret attribute has neither of its two forms. -/
  | secretForm
  /-- The column attribute has not its form. -/
  | columnForm
  /-- The column attribute begins with something else than the type argument. -/
  | columnKey (found : String)
  /-- The type argument of a column attribute has no equals sign. -/
  | columnEquals
  /-- The type argument of a column attribute has no type. -/
  | columnType
deriving DecidableEq, Repr

/-- What a control attribute asks for and cannot have. -/
inductive UnsupportedCause where
  | serializeDisabled
  | secretDisabled
  | columnMappingDisabled
  | secretInt
deriving DecidableEq, Repr

/-- What is wrong with a source. -/
inductive Cause where
  | lexical (cause : LexicalCause)
  /-- The tokens do not form declarations, or an argument does not form a type. -/
  | grammatical (cause : SyntaxCause)
  | control (cause : ControlCause)
  | unsupported (cause : UnsupportedCause)
deriving DecidableEq, Repr

/-- The argument of a column attribute. -/
def columnTypeKey : String := "sql_type"

/-- The wording of an attribute error. -/
def ControlCause.message : ControlCause → String
  | .duplicate path => s!"duplicate `{path}` attribute found"
  | .bothKinds => "only one of `#[int]`, `#[string]` allowed"
  | .secretForm => "expected either `#[secret]` or `#[secret(serialize)]`"
  | .columnForm => "expected `#[diesel(sql_type = Type)]`"
  | .columnKey found => s!"expected `{columnTypeKey}`, found `{found}`"
  | .columnEquals => s!"expected `=` after `{columnTypeKey}`"
  | .columnType => "expected a type after `=`"

/-- The wording of an unsupported combination. -/
def UnsupportedCause.message : UnsupportedCause → String
  | .serializeDisabled =>
    "`#[secret(serialize)]` has no effect unless the `serde` feature is enabled"
  | .secretDisabled => "`#[secret]` is only supported when the `secret` feature is enabled"
  | .columnMappingDisabled =>
    "`#[diesel]` is only supported when the `diesel` feature is enabled"
  | .secretInt => "`#[int]` cannot be combined with `#[secret]`"

namespace Cause

/-- The wording of a cause. -/
def message : Cause → String
  | .lexical cause => cause.message
  | .grammatical cause => cause.message
  | .control cause => cause.message
  | .unsupported cause => cause.message

/-- The kind under which a cause is reported. -/
def kind : Cause → ErrorKind
  | .lexical _ | .grammatical _ => .grammar
  | .control (.duplicate _) => .duplicateAttribute
  | .control .bothKinds => .conflictingAttribute
  | .control _ => .grammar
  | .unsupported _ => .unsupportedCombination

end Cause

/-- Something wrong at a place of a source. -/
structure Problem where
  cause : Cause
  location : Location
deriving DecidableEq, Repr

/-- How a run may end without a report. -/
inductive Abort where
  /-- A token begins with a digit of another script. -/
  | foreignDigit
  /-- The argument of a secret attribute that would have to be pointed at is empty. -/
  | emptyArgument
  /-- A column mapping is to be written and no column type is given. -/
  | missingColumnType
  /-- A secret wrapper is to be written and no secret is asked for. -/
  | missingSecret
  /-- An output is asked for without a path. -/
  | missingOutputPath
deriving DecidableEq, Repr

/-- How a run ends early. -/
inductive Stop where
  | problem (problem : Problem)
  | abort (abort : Abort)
deriving DecidableEq, Repr

/-- Ends a run with a problem. -/
def Stop.of (cause : Cause) (location : Location) : Stop :=
  .problem ⟨cause, location⟩

end Microtypes
