import Microtypes.Grammar.Attribute

/-!
# Declared names and visibilities

A declared name is an identifier that is no keyword of Rust and does not begin like the names of
generated helper types, whether or not it is written as a raw identifier.
-/

namespace Microtypes

/-- The words that Rust keeps for itself. -/
def reservedWords : List String :=
  ["_", "abstract", "as", "async", "await", "become", "box", "break", "const", "continue", "crate",
    "do", "dyn", "else", "enum", "extern", "false", "final", "fn", "for", "if", "impl", "in", "let",
    "loop", "macro", "match", "mod", "move", "mut", "override", "priv", "pub", "ref", "return",
    "self", "Self", "static", "struct", "super", "trait", "true", "try", "type", "typeof", "unsafe",
    "unsized", "use", "virtual", "where", "while", "yield"]

/-- An identifier without its raw mark `r#`. -/
def withoutRawMark (name : List Char) : List Char :=
  match name with
  | 'r' :: '#' :: rest => rest
  | _ => name

/-- Whether a name begins like the names of generated helper types. -/
def isReservedName (name : String) : Bool :=
  reservedStem.toList.isPrefixOf (withoutRawMark name.toList)

/-- What is wrong with a token as a declared name, if anything is. -/
def nameFault? (token : Lexeme) : Option SyntaxCause :=
  if token.kind ≠ .ident then some (.expected "a microtype name" (some token.text))
  else if token.text ∈ reservedWords then some (.keyword token.text)
  else if isReservedName token.text then some .reservedName
  else none

theorem nameFault?_eq_none_iff {token : Lexeme} : nameFault? token = none ↔
    token.kind = .ident ∧ token.text ∉ reservedWords ∧ isReservedName token.text = false := by
  by_cases hkind : token.kind = .ident
  · by_cases hword : token.text ∈ reservedWords
    · simp [nameFault?, hkind, hword]
    · simp [nameFault?, hkind, hword]
  · simp [nameFault?, hkind]

/-- Why a token is no declared name. -/
inductive RefusesName (token : Lexeme) : SyntaxCause → Prop
  | notIdent (hkind : token.kind ≠ .ident) :
      RefusesName token (.expected "a microtype name" (some token.text))
  | keyword (hkind : token.kind = .ident) (hword : token.text ∈ reservedWords) :
      RefusesName token (.keyword token.text)
  | reserved (hkind : token.kind = .ident) (hword : token.text ∉ reservedWords)
      (hstem : isReservedName token.text = true) : RefusesName token .reservedName

theorem refuses_of_nameFault {token : Lexeme} {cause : SyntaxCause}
    (h : nameFault? token = some cause) : RefusesName token cause := by
  unfold nameFault? at h
  split at h
  · next hkind =>
    cases h
    exact .notIdent hkind
  · next hkind =>
    have hident : token.kind = .ident := Decidable.of_not_not hkind
    split at h
    · next hword =>
      cases h
      exact .keyword hident hword
    · next hword =>
      split at h
      · next hstem =>
        cases h
        exact .reserved hident hword hstem
      · cases h

/-- Reads a declared name, with the attributes in front of it. -/
def readName (source : List Char) (ahead : List Token) : Reads DeclaredName :=
  match readAttributes source ahead with
  | .error fault => .error fault
  | .ok (_, []) => .error (expectedFault "a microtype name" [])
  | .ok (attributes, token :: rest) =>
    match nameFault? token.toLexeme with
    | some cause => .error ⟨cause, token :: rest⟩
    | none => .ok ({ name := token.text, attributes, location := token.location }, rest)

/-- What is read as a declared name: its attributes, and then a token that is one. -/
inductive ReadsName (source : List Char) (ahead rest : List Token) : DeclaredName → Prop
  | parts {attributes : List Attribute} {token : Token}
      (hattributes : readAttributes source ahead = .ok (attributes, token :: rest))
      (hname : nameFault? token.toLexeme = none) :
      ReadsName source ahead rest { name := token.text, attributes, location := token.location }

theorem parts_of_readName {source : List Char} {ahead rest : List Token} {name : DeclaredName}
    (h : readName source ahead = .ok (name, rest)) : ReadsName source ahead rest name := by
  unfold readName at h
  split at h
  · cases h
  · cases h
  · next attributes token tokens hattributes =>
    split at h
    · cases h
    · next hname =>
      cases h
      exact .parts hattributes hname

theorem length_of_readName {source : List Char} {ahead rest : List Token} {name : DeclaredName}
    (h : readName source ahead = .ok (name, rest)) : rest.length < ahead.length := by
  cases parts_of_readName h with
  | parts hattributes hname => exact length_of_readAttributes hattributes

/-- Reads declared names, separated by commas, up to the closing bracket. -/
def readNames (source : List Char) (ahead : List Token) : Reads (List DeclaredName) :=
  if startsWith ahead Delimiter.curly.closer then .ok ([], ahead)
  else
    match _h : readName source ahead with
    | .error fault => .error fault
    | .ok (name, next) =>
      if startsWith next "," then
        match readNames source next.tail with
        | .error fault => .error fault
        | .ok (names, rest) => .ok (name :: names, rest)
      else .ok ([name], next)
termination_by ahead.length
decreasing_by
  have := length_of_readName ‹_›
  simp only [List.length_tail]
  omega

theorem length_of_readNames {source : List Char} {ahead rest : List Token}
    {names : List DeclaredName} (h : readNames source ahead = .ok (names, rest)) :
    rest.length ≤ ahead.length := by
  fun_induction readNames source ahead generalizing names with
  | case1 => cases h; exact Nat.le_refl _
  | case2 => cases h
  | case3 => cases h
  | case4 ahead _ name next hname _ names' rest' hnames ih =>
    cases h
    have := ih hnames
    have := length_of_readName hname
    simp only [List.length_tail] at *
    omega
  | case5 ahead _ name next hname _ =>
    cases h
    exact Nat.le_of_lt (length_of_readName hname)

/-- The scopes that a visibility may be restricted to by a single word. -/
def visibilityScopes : List String := ["crate", "super", "self"]

/-- Reads a visibility, which may be absent. A bracket after `pub` that restricts nothing is left
ahead: it begins a tuple type. -/
def readVisibility (ahead : List Token) : Reads String :=
  if !startsWith ahead "pub" then .ok ("", ahead)
  else if !startsWith ahead.tail "(" then .ok ("pub", ahead.tail)
  else
    match ahead.tail.tail with
    | [] => .ok ("pub", ahead.tail)
    | scope :: rest =>
      if scope.kind = .ident ∧ scope.text ∈ visibilityScopes ∧ startsWith rest ")" then
        .ok (s!"pub({scope.text})", rest.tail)
      else if scope.isWord "in" then
        match readPath "a module path" rest with
        | .error fault => .error fault
        | .ok (path, atClose) =>
          (passWord ")" "`)` to close the visibility restriction" atClose).map
            (s!"pub(in {path})", ·)
      else .ok ("pub", ahead.tail)

theorem length_of_readVisibility {ahead rest : List Token} {visibility : String}
    (h : readVisibility ahead = .ok (visibility, rest)) : rest.length ≤ ahead.length := by
  have htail : ahead.tail.length ≤ ahead.length := by simp
  unfold readVisibility at h
  split at h
  · cases h
    exact Nat.le_refl _
  · split at h
    · cases h
      exact htail
    · split at h
      · cases h
        exact htail
      · next scope tokens hscope =>
        have hinside : tokens.length + 1 ≤ ahead.length := by
          have := congrArg List.length hscope
          simp only [List.length_tail, List.length_cons] at this
          omega
        split at h
        · cases h
          simp only [List.length_tail]
          omega
        · split at h
          · cases hpath : readPath "a module path" tokens with
            | error fault =>
              rw [hpath] at h
              cases h
            | ok result =>
              obtain ⟨path, atClose⟩ := result
              simp only [hpath] at h
              obtain ⟨after, hclose, hend⟩ := map_eq_ok_iff.mp h
              cases hend
              have := length_of_passWord hclose
              have := length_of_readPath hpath
              omega
          · cases h
            exact htail

end Microtypes
