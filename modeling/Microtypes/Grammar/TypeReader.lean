import Microtypes.Grammar.Group
import Microtypes.Token.Spelling

/-!
# Types

A type is read for its extent only: what counts afterwards is which tokens belong to it. So a type
is recognised by a stack of goals. A goal says what may come next; taking a goal off the stack
either goes past some tokens, or replaces it with the goals of its parts, or fails at the token
ahead.

Every step lowers a weight, eight for each token ahead plus the rank of each goal, and so the
reading ends on every list of tokens.
-/

namespace Microtypes

/-- What may come next while a type is read. -/
inductive Goal where
  | type
  | path
  /-- One segment of a path, with its arguments. -/
  | segment
  /-- The rest of a path after a segment. -/
  | pathRest
  /-- An element of a tuple, or the end of the tuple. -/
  | tupleElement
  /-- What follows an element of a tuple. -/
  | tupleRest
  /-- What follows the element type of a slice or an array. -/
  | arrayRest
  | bound
  | boundRest
  | arguments
  /-- A generic argument, or the end of the arguments. -/
  | argument
  | argumentRest
deriving DecidableEq, Repr

namespace Goal

/-- How much a goal counts in the weight of a reading. -/
def rank : Goal → Nat
  | .type | .bound => 3
  | .path => 2
  | .tupleElement | .argument => 5
  | .segment | .pathRest | .tupleRest | .arrayRest | .boundRest | .arguments | .argumentRest => 1

/-- How much several goals count together. -/
def ranks : List Goal → Nat
  | [] => 0
  | goal :: later => goal.rank + ranks later

/-- The weight of a reading: the goals that are open and the tokens that are ahead. -/
def weight (goals : List Goal) (ahead : List Token) : Nat :=
  ranks goals + 8 * ahead.length

theorem ranks_append (a b : List Goal) : ranks (a ++ b) = ranks a + ranks b := by
  induction a with
  | nil => simp [ranks]
  | cons goal later ih => simp only [List.cons_append, ranks, ih, Nat.add_assoc]

/-- The words that begin no path, because they begin something else. -/
def unpathedWords : List String := ["pub", "mut"]

/-- Drops a lifetime if it is next. -/
def dropLifetime : List Token → List Token
  | token :: rest => if token.kind = .lifetime then rest else token :: rest
  | [] => []

/-- Takes one goal off: what it is replaced with, and the tokens that are ahead then. -/
def step : Goal → List Token → Except SyntaxFault (List Goal × List Token)
  | .type, [] => .error (expectedFault "a type" [])
  | .type, token :: rest =>
    if token.isPunct "&" then .ok ([.type], dropWord "mut" (dropLifetime rest))
    else if token.isPunct "(" then .ok ([.tupleElement], rest)
    else if token.isPunct "[" then .ok ([.type, .arrayRest], rest)
    else if token.isIdent "dyn" then .ok ([.bound, .boundRest], rest)
    else .ok ([.path], token :: rest)
  | .path, ahead => .ok ([.segment], dropWord "::" ahead)
  | .segment, [] => .error (expectedFault "a type" [])
  | .segment, token :: rest =>
    if token.kind ≠ .ident ∨ token.text ∈ unpathedWords then
      .error (expectedFault "a type" (token :: rest))
    else if startsWith rest "<" then .ok ([.arguments, .pathRest], rest)
    else if startsWith rest "(" then
      match passGroup rest with
      | .error fault => .error fault
      | .ok after =>
        if startsWith after "->" then .ok ([.type, .pathRest], after.tail)
        else .ok ([.pathRest], after)
    else .ok ([.pathRest], rest)
  | .pathRest, ahead =>
    if startsWith ahead "::" then .ok ([.segment], ahead.tail) else .ok ([], ahead)
  | .tupleElement, ahead =>
    if startsWith ahead ")" then .ok ([], ahead.tail) else .ok ([.type, .tupleRest], ahead)
  | .tupleRest, ahead =>
    if startsWith ahead "," then .ok ([.tupleElement], ahead.tail)
    else (passWord ")" "`)` to close the tuple type" ahead).map ([], ·)
  | .arrayRest, ahead =>
    if startsWith ahead ";" then
      match passUntil "]" ahead.tail with
      | .error fault => .error fault
      | .ok after =>
        if after.length = ahead.tail.length then .error ⟨.omitted "an array length", after⟩
        else .ok ([], after.tail)
    else (passWord "]" "`]` to close the array type" ahead).map ([], ·)
  | .bound, [] => .ok ([.path], [])
  | .bound, token :: rest =>
    if token.kind = .lifetime then .ok ([], rest) else .ok ([.path], token :: rest)
  | .boundRest, ahead =>
    if startsWith ahead "+" then .ok ([.bound, .boundRest], ahead.tail) else .ok ([], ahead)
  | .arguments, ahead => (passWord "<" "`<`" ahead).map ([.argument], ·)
  | .argument, [] => .error ⟨.omitted "`>` to close the generic arguments", []⟩
  | .argument, token :: rest =>
    if token.isWord ">" then .ok ([], rest)
    else if token.kind = .lifetime ∨ token.kind = .literal then .ok ([.argumentRest], rest)
    else if token.isPunct Delimiter.curly.opener then
      match passGroup (token :: rest) with
      | .error fault => .error fault
      | .ok after => .ok ([.argumentRest], after)
    else if token.kind = .ident ∧ startsWith rest "=" then .ok ([.type, .argumentRest], rest.tail)
    else .ok ([.type, .argumentRest], token :: rest)
  | .argumentRest, ahead =>
    if startsWith ahead "," then .ok ([.argument], ahead.tail)
    else (passWord ">" "`>` to close the generic arguments" ahead).map ([], ·)

/-- Whether a goal may be met without a token. -/
def isOptional : Goal → Bool
  | .pathRest | .boundRest => true
  | _ => false

/-! ## What a step does -/

theorem length_dropLifetime_le (ahead : List Token) :
    (dropLifetime ahead).length ≤ ahead.length := by
  cases ahead with
  | nil => exact Nat.le_refl _
  | cons token rest =>
    rw [dropLifetime]
    split
    · exact Nat.le_succ _
    · exact Nat.le_refl _

/-- What a step comes to: it goes past a token and opens goals that count less than the token, or it
opens goals that count less than its own and still need a token, unless its own does not. -/
inductive Advances (goal : Goal) (ahead : List Token) (parts : List Goal) (rest : List Token) : Prop
  | took (hrest : rest.length < ahead.length) (hparts : ranks parts < goal.rank + 8)
  | opened (hrest : rest.length ≤ ahead.length) (hparts : ranks parts < goal.rank)
      (hneeds : goal.isOptional = true ∨ ∃ part ∈ parts, part.isOptional = false)

variable {goal : Goal} {ahead rest : List Token} {parts : List Goal}

/-- A step that goes past a word and opens nothing. -/
theorem advances_of_passWord {text what : String} {parts' : List Goal}
    (h : (passWord text what ahead).map (parts, ·) = .ok (parts', rest))
    (hparts : ranks parts < goal.rank + 8) : Advances goal ahead parts' rest := by
  obtain ⟨after, hpass, hend⟩ := map_eq_ok_iff.mp h
  cases hend
  have := length_of_passWord hpass
  exact .took (by omega) hparts

theorem advances_tail {text : String} (h : startsWith ahead text = true)
    (hparts : ranks parts < goal.rank + 8) : Advances goal ahead parts ahead.tail := by
  have := length_tail_of_startsWith h
  exact .took (by omega) hparts

/-- A step goes past a token, or what it opens is lighter than its goal. -/
theorem advances_of_step (h : goal.step ahead = .ok (parts, rest)) :
    Advances goal ahead parts rest := by
  cases goal with
  | type =>
    cases ahead with
    | nil => cases h
    | cons token tokens =>
      simp only [step] at h
      split at h
      · cases h
        have := length_dropWord_le "mut" (dropLifetime tokens)
        have := length_dropLifetime_le tokens
        exact .took (by simp only [List.length_cons]; omega) (by decide)
      · split at h
        · cases h
          exact .took (Nat.lt_succ_self _) (by decide)
        · split at h
          · cases h
            exact .took (Nat.lt_succ_self _) (by decide)
          · split at h
            · cases h
              exact .took (Nat.lt_succ_self _) (by decide)
            · cases h
              exact .opened (Nat.le_refl _) (by decide) (.inr ⟨.path, by decide, rfl⟩)
  | path =>
    cases h
    exact .opened (length_dropWord_le _ _) (by decide) (.inr ⟨.segment, by decide, rfl⟩)
  | segment =>
    cases ahead with
    | nil => cases h
    | cons token tokens =>
      simp only [step] at h
      split at h
      · cases h
      · split at h
        · cases h
          exact .took (Nat.lt_succ_self _) (by decide)
        · split at h
          · cases hgroup : passGroup tokens with
            | error fault =>
              rw [hgroup] at h
              cases h
            | ok after =>
              simp only [hgroup] at h
              have hafter := Nat.lt_succ_of_lt (length_of_passGroup hgroup)
              split at h
              · cases h
                exact .took (by simp only [List.length_tail, List.length_cons]; omega) (by decide)
              · cases h
                exact .took hafter (by decide)
          · cases h
            exact .took (Nat.lt_succ_self _) (by decide)
  | pathRest =>
    simp only [step] at h
    split at h
    · next hcolons =>
      cases h
      exact advances_tail hcolons (by decide)
    · cases h
      exact .opened (Nat.le_refl _) (by decide) (.inl rfl)
  | tupleElement =>
    simp only [step] at h
    split at h
    · next hclose =>
      cases h
      exact advances_tail hclose (by decide)
    · cases h
      exact .opened (Nat.le_refl _) (by decide) (.inr ⟨.type, by decide, rfl⟩)
  | tupleRest =>
    simp only [step] at h
    split at h
    · next hcomma =>
      cases h
      exact advances_tail hcomma (by decide)
    · exact advances_of_passWord h (by decide)
  | arrayRest =>
    simp only [step] at h
    split at h
    · next hsemicolon =>
      cases huntil : passUntil "]" ahead.tail with
      | error fault =>
        rw [huntil] at h
        cases h
      | ok after =>
        simp only [huntil] at h
        have hafter := length_of_passUntil huntil
        have hahead := length_tail_of_startsWith hsemicolon
        split at h
        · cases h
        · cases h
          exact .took (by simp only [List.length_tail] at *; omega) (by decide)
    · exact advances_of_passWord h (by decide)
  | bound =>
    cases ahead with
    | nil =>
      cases h
      exact .opened (Nat.le_refl _) (by decide) (.inr ⟨.path, by decide, rfl⟩)
    | cons token tokens =>
      simp only [step] at h
      split at h
      · cases h
        exact .took (Nat.lt_succ_self _) (by decide)
      · cases h
        exact .opened (Nat.le_refl _) (by decide) (.inr ⟨.path, by decide, rfl⟩)
  | boundRest =>
    simp only [step] at h
    split at h
    · next hplus =>
      cases h
      exact advances_tail hplus (by decide)
    · cases h
      exact .opened (Nat.le_refl _) (by decide) (.inl rfl)
  | arguments => exact advances_of_passWord h (by decide)
  | argument =>
    cases ahead with
    | nil => cases h
    | cons token tokens =>
      simp only [step] at h
      split at h
      · cases h
        exact .took (Nat.lt_succ_self _) (by decide)
      · split at h
        · cases h
          exact .took (Nat.lt_succ_self _) (by decide)
        · split at h
          · cases hgroup : passGroup (token :: tokens) with
            | error fault =>
              rw [hgroup] at h
              cases h
            | ok after =>
              rw [hgroup] at h
              cases h
              exact .took (length_of_passGroup hgroup) (by decide)
          · split at h
            · cases h
              exact .took (by simp only [List.length_tail, List.length_cons]; omega) (by decide)
            · cases h
              exact .opened (Nat.le_refl _) (by decide) (.inr ⟨.type, by decide, rfl⟩)
  | argumentRest =>
    simp only [step] at h
    split at h
    · next hcomma =>
      cases h
      exact advances_tail hcomma (by decide)
    · exact advances_of_passWord h (by decide)

/-- Every step lowers the weight. -/
theorem weight_step (h : goal.step ahead = .ok (parts, rest)) :
    weight parts rest < weight [goal] ahead := by
  simp only [weight, ranks]
  cases advances_of_step h with
  | took hrest hparts => omega
  | opened hrest hparts _ => omega

/-- A step leaves no more tokens ahead, and unless its goal is optional it goes past a token or
opens a goal that is not optional. -/
theorem step_progress (h : goal.step ahead = .ok (parts, rest)) :
    rest.length ≤ ahead.length ∧
      (goal.isOptional ∨ rest.length < ahead.length ∨ ∃ part ∈ parts, part.isOptional = false) := by
  cases advances_of_step h with
  | took hrest _ => exact ⟨Nat.le_of_lt hrest, .inr (.inl hrest)⟩
  | opened hrest _ hneeds => exact ⟨hrest, hneeds.imp_right .inr⟩

/-! ## Reading goals -/

/-- Goes past what the goals ask for, one after another. -/
def pass (goals : List Goal) (ahead : List Token) : Except SyntaxFault (List Token) :=
  match goals with
  | [] => .ok ahead
  | goal :: later =>
    match _h : goal.step ahead with
    | .error fault => .error fault
    | .ok (parts, rest) => pass (parts ++ later) rest
termination_by weight goals ahead
decreasing_by
  have := weight_step ‹_›
  simp only [weight, ranks_append, ranks] at *
  omega

/-- Meeting goals leaves no more tokens ahead, and fewer unless all goals are optional. -/
theorem length_of_pass {goals : List Goal} (h : pass goals ahead = .ok rest) :
    rest.length ≤ ahead.length ∧
      ((∃ goal ∈ goals, goal.isOptional = false) → rest.length < ahead.length) := by
  fun_induction pass goals ahead with
  | case1 => cases h; simp
  | case2 => cases h
  | case3 ahead goal later parts after hstep ih =>
    have ⟨hle, hlt⟩ := ih h
    have ⟨sle, sprogress⟩ := step_progress hstep
    refine ⟨by omega, ?_⟩
    rintro ⟨g, hg, hopt⟩
    rcases List.mem_cons.1 hg with rfl | hg
    · rcases sprogress with ho | hl | ⟨part, hpart, hpo⟩
      · simp [hopt] at ho
      · omega
      · have := hlt ⟨part, List.mem_append_left _ hpart, hpo⟩
        omega
    · have := hlt ⟨g, List.mem_append_right _ hg, hopt⟩
      omega

end Goal

/-- A type as written in a declaration. -/
structure WrittenType where
  text : String
  location : Location
deriving DecidableEq, Repr, Inhabited

/-- Reads a type. -/
def readType : List Token → Reads WrittenType
  | [] => .error (expectedFault "a type" [])
  | first :: others =>
    match Goal.pass [.type] (first :: others) with
    | .error fault => .error fault
    | .ok rest =>
      .ok (⟨spelling (lexemes (passed (first :: others) rest)), first.location⟩, rest)

theorem length_of_readType {ahead rest : List Token} {type : WrittenType}
    (h : readType ahead = .ok (type, rest)) : rest.length < ahead.length := by
  cases ahead with
  | nil => cases h
  | cons first others =>
    simp only [readType] at h
    split at h
    · cases h
    · next hpass =>
      cases h
      exact (Goal.length_of_pass hpass).2 ⟨.type, by simp, rfl⟩

/-- Reads a type that takes up all of the tokens. -/
def readWholeType (all : List Token) : Except SyntaxFault WrittenType :=
  match readType all with
  | .error fault => .error fault
  | .ok (type, []) => .ok type
  | .ok (_, next :: rest) => .error ⟨.afterType next.text, next :: rest⟩

end Microtypes
