import Microtypes.Grammar.Cursor

/-!
# Bracketed groups

Inside a group every closing bracket has to match the innermost open one. `passGroup` goes past the
group that the first token opens, and `passUntil` goes up to a stop word that lies in no group.
Neither recurses for nested brackets, so the depth of nesting is not limited.
-/

namespace Microtypes

/-- Goes past the bracket that closes the outermost of the open groups. `innermost` is the last
group opened, `outer` are the ones around it, and `unclosed` is the fault of never closing the
outermost. -/
def passClosers (unclosed : SyntaxFault) (innermost : Delimiter) (outer : List Delimiter) :
    List Token → Except SyntaxFault (List Token)
  | [] => .error unclosed
  | token :: rest =>
    match token.opens?, token.closes? with
    | some opened, _ => passClosers unclosed opened (innermost :: outer) rest
    | none, some closed =>
      if closed = innermost then
        match outer with
        | [] => .ok rest
        | next :: others => passClosers unclosed next others rest
      else .error ⟨.mismatched token.text, token :: rest⟩
    | none, none => passClosers unclosed innermost outer rest

/-- Goes past the group that the first token opens. -/
def passGroup : List Token → Except SyntaxFault (List Token)
  | [] => .error ⟨.unexpectedEnd, []⟩
  | token :: rest =>
    match token.opens? with
    | some opened => passClosers ⟨.unclosed token.text, token :: rest⟩ opened [] rest
    | none => .error (expectedFault "an opening delimiter" (token :: rest))

/-- The tokens inside a group, from what was ahead before and after it. -/
def insideGroup (before after : List Token) : List Token :=
  (passed before after).tail.dropLast

theorem length_of_passClosers {unclosed : SyntaxFault} {innermost : Delimiter}
    {outer : List Delimiter} {ahead rest : List Token}
    (h : passClosers unclosed innermost outer ahead = .ok rest) : rest.length < ahead.length := by
  fun_induction passClosers unclosed innermost outer ahead with
  | case1 => cases h
  | case2 innermost outer token ahead opened hopens ih => exact Nat.lt_succ_of_lt (ih h)
  | case3 token ahead closed hcloses hopens =>
    cases h
    exact Nat.lt_succ_self _
  | case4 token ahead closed hcloses next others hopens ih => exact Nat.lt_succ_of_lt (ih h)
  | case5 => cases h
  | case6 innermost outer token ahead hopens hcloses ih => exact Nat.lt_succ_of_lt (ih h)

theorem length_of_passGroup {ahead rest : List Token} (h : passGroup ahead = .ok rest) :
    rest.length < ahead.length := by
  cases ahead with
  | nil => cases h
  | cons token tokens =>
    simp only [passGroup] at h
    split at h
    · exact Nat.lt_succ_of_lt (length_of_passClosers h)
    · cases h

/-- Goes up to the word or punctuation `stop`, past whole groups. -/
def passUntil (stop : String) (ahead : List Token) : Except SyntaxFault (List Token) :=
  match ahead with
  | [] => .error ⟨.expected s!"`{stop}`" none, []⟩
  | token :: rest =>
    if token.isWord stop then .ok (token :: rest)
    else if token.opens?.isSome then
      match _h : passGroup (token :: rest) with
      | .error fault => .error fault
      | .ok after => passUntil stop after
    else if token.closes?.isSome then .error ⟨.mismatched token.text, token :: rest⟩
    else passUntil stop rest
termination_by ahead.length
decreasing_by
  · exact length_of_passGroup ‹_›
  · simp

theorem length_of_passUntil {stop : String} {ahead rest : List Token}
    (h : passUntil stop ahead = .ok rest) : rest.length ≤ ahead.length := by
  fun_induction passUntil stop ahead with
  | case1 => cases h
  | case2 => cases h; exact Nat.le_refl _
  | case3 => cases h
  | case4 token rest' _ _ after hgroup ih =>
    have := length_of_passGroup hgroup
    have := ih h
    omega
  | case5 => cases h
  | case6 token rest' _ _ _ ih => exact Nat.le_succ_of_le (ih h)

end Microtypes
