import Microtypes.File.Path
import Microtypes.Options.Word

/-!
# Reading the command line

Words are taken from left to right. A flag takes the operands it needs right after it; of the other
operands the first is the input. Words that nothing takes are collected, and reported only when all
else is well.
-/

namespace Microtypes

/-- What is asked for as the output. -/
inductive OutputRequest where
  | path (path : Path)
  /-- The flag is given, but without a path. -/
  | empty
deriving DecidableEq, Repr

/-- The request for an output by the values of its flag. -/
def OutputRequest.ofValues (values : List String) : OutputRequest :=
  match values.getLast? with
  | some text => .path (.ofText text)
  | none => .empty

/-- What the command line asks for. -/
structure Options where
  input : Option Path := none
  output : Option OutputRequest := none
  /-- The values of each use of the flag for features. -/
  features : Option (List (List String)) := none
  allFeatures : Bool := false
  noDefaultFeatures : Bool := false
  /-- Writes the output in spite of errors. -/
  keepGoing : Bool := false
  plan : Bool := false
  listFeatures : Bool := false
deriving DecidableEq, Repr

/-- How far the reading of a command line has come. -/
structure OptionState where
  options : Options := {}
  given : List Flag := []
  leftOver : List String := []

namespace OptionState

/-- Collects a word that nothing takes. -/
def leave (s : OptionState) (word : String) : OptionState :=
  { s with leftOver := s.leftOver ++ [word] }

/-- Takes an operand for the input. -/
def takeInput (s : OptionState) (text : String) : OptionState :=
  { s with options := { s.options with input := some (.ofText text) } }

/-- The options with a flag and its values. -/
def withFlag (o : Options) (values : List String) : Flag → Options
  | .help => o
  | .output => { o with output := some (.ofValues values) }
  | .features => { o with features := some (o.features.getD [] ++ [values]) }
  | .allFeatures => { o with allFeatures := true }
  | .noDefaultFeatures => { o with noDefaultFeatures := true }
  | .keepGoing => { o with keepGoing := true }
  | .plan => { o with plan := true }
  | .listFeatures => { o with listFeatures := true }

/-- Takes a flag with its values, unless a flag that it excludes was given before. -/
def takeFlag (s : OptionState) (flag : Flag) (values : List String) :
    Except EarlyExit OptionState :=
  match flag.excludes? with
  | some other =>
    if other ∈ s.given then .error (.misuse (.excluded flag other))
    else .ok { s with options := withFlag s.options values flag, given := flag :: s.given }
  | none =>
    if flag = .help then .error .help
    else .ok { s with options := withFlag s.options values flag, given := flag :: s.given }

end OptionState

/-- The operands at the front of the words, and the words after them. -/
def operandRun : List Word → List String × List Word
  | .operand text :: rest =>
    let (texts, after) := operandRun rest
    (text :: texts, after)
  | words => ([], words)

theorem length_operandRun (words : List Word) :
    (operandRun words).1.length + (operandRun words).2.length = words.length := by
  fun_induction operandRun words with
  | case1 text rest texts after heq ih =>
    simp only [heq, List.length_cons] at *
    omega
  | case2 => simp

/-- The values of a flag that has none attached, and the words after them. -/
def flagValues (flag : Flag) (rest : List Word) : Except UsageFault (List String × List Word) :=
  match flag.arity with
  | .none => .ok ([], rest)
  | .one =>
    match rest with
    | .operand value :: after => .ok ([value], after)
    | _ => .error (.needsValue flag)
  | .many =>
    let (values, after) := operandRun rest
    if values.isEmpty then .error (.needsValue flag) else .ok (values, after)

theorem length_of_flagValues {flag : Flag} {rest after : List Word} {values : List String}
    (h : flagValues flag rest = .ok (values, after)) : after.length ≤ rest.length := by
  unfold flagValues at h
  cases harity : flag.arity with
  | none =>
    rw [harity] at h
    cases h
    exact Nat.le_refl _
  | one =>
    rw [harity] at h
    match rest, h with
    | .operand value :: after, h =>
      cases h
      exact Nat.le_succ _
  | many =>
    simp only [harity] at h
    have hlength := length_operandRun rest
    split at h
    · cases h
    · cases h
      omega

/-- Reads the letters that are attached to the flag for the help as further flags of one letter. The
last flag among them may need a value, which is what is left of the letters or else the next word.
The help is shown in any case, unless the letters are misused. -/
def lettersAfterHelp (rest : List Word) : List Char → Except UsageFault Unit
  | [] => .ok ()
  | 'h' :: letters => lettersAfterHelp rest letters
  | ['o'] => (flagValues .output rest).map fun _ => ()
  | 'o' :: _ => .ok ()
  | letters => .error (.extraValue .help (String.ofList letters))

/-- The values that an attached value stands for. The separator is no value, wherever it stands. -/
def valuesIn (attached : String) : List String :=
  if attached = "--" then [] else [attached]

/-- The values attached to a flag, where it may have some. -/
def attachedValues (flag : Flag) (attached : Attached) (rest : List Word) :
    Except UsageFault (List String) :=
  let value := String.ofList attached.value
  if flag.arity ≠ .none then .ok (valuesIn value)
  else if flag = .help && attached.oneDash && !attached.value.isEmpty then
    (lettersAfterHelp rest attached.value).map fun _ => []
  else .error (.extraValue flag value)

/-- Reads words until none is left. -/
def readWords (s : OptionState) (words : List Word) : Except EarlyExit OptionState :=
  match words with
  | [] => .ok s
  | .operand text :: .separator :: rest =>
    if s.options.input.isNone then readWords (s.takeInput text) rest
    else readWords (s.leave text) (.separator :: rest)
  | .operand text :: rest =>
    readWords (if s.options.input.isNone then s.takeInput text else s.leave text) rest
  | .separator :: .operand text :: rest =>
    if s.options.input.isNone then readWords (s.takeInput text) rest
    else readWords (s.leave "--") (.operand text :: rest)
  | .separator :: rest =>
    readWords (if s.options.input.isNone then s else s.leave "--") rest
  | .unknown text :: rest => readWords (s.leave text) rest
  | .flag flag (some attached) :: rest =>
    match attachedValues flag attached rest with
    | .error fault => .error (.misuse fault)
    | .ok values =>
      match s.takeFlag flag values with
      | .error exit => .error exit
      | .ok taken => readWords taken rest
  | .flag flag none :: rest =>
    match _h : flagValues flag rest with
    | .error fault => .error (.misuse fault)
    | .ok (values, after) =>
      match s.takeFlag flag values with
      | .error exit => .error exit
      | .ok taken => readWords taken after
termination_by words.length
decreasing_by
  all_goals simp only [List.length_cons]
  any_goals omega
  have := length_of_flagValues ‹_›
  omega

/-- What a command line asks for. -/
def Options.ofArguments (arguments : List String) : Except EarlyExit Options := do
  let words ← (classifyWords arguments).mapError .misuse
  let final ← readWords {} words
  if final.leftOver.isEmpty then return final.options
  else throw (.misuse (.unrecognized final.leftOver))

end Microtypes
