import Microtypes.Grammar.Declaration

/-!
# Reading attributes

An attribute is `#[path]`, `#[path(...)]` with brackets of any kind, or `#[path = value]`. Its
tokens are checked for matching brackets only; its text is kept as it stands in the source.
-/

namespace Microtypes

/-- The characters of a source from one offset up to another. -/
def slice (source : List Char) (start stop : Nat) : List Char :=
  (source.drop start).take (stop - start)

/-- Reads the segments of a path, joined by path separators. -/
def readSegments (what : String) : List Token → Reads String
  | [] => .error (expectedFault what [])
  | token :: rest =>
    if token.kind ≠ .ident then .error (expectedFault what (token :: rest))
    else
      match rest with
      | [] => .ok (token.text, [])
      | separator :: more =>
        if separator.isWord "::" then
          match readSegments what more with
          | .error fault => .error fault
          | .ok (path, after) => .ok (token.text ++ "::" ++ path, after)
        else .ok (token.text, separator :: more)

/-- Reads a path, which may start at the root. -/
def readPath (what : String) (ahead : List Token) : Reads String :=
  if startsWith ahead "::" then
    (readSegments what ahead.tail).map fun (path, rest) => ("::" ++ path, rest)
  else readSegments what ahead

/-- Reads what follows the path of an attribute. -/
def readForm : List Token → Reads AttributeForm
  | [] => .ok (.bare, [])
  | token :: rest =>
    match token.opens? with
    | some delimiter =>
      (passGroup (token :: rest)).map fun after =>
        (.delimited delimiter (insideGroup (token :: rest) after), after)
    | none =>
      if token.isWord "=" then
        match passUntil "]" rest with
        | .error fault => .error fault
        | .ok after =>
          if after.length = rest.length then .error ⟨.omitted "a value after `=`", after⟩
          else .ok (.assigned (passed rest after), after)
      else .ok (.bare, token :: rest)

/-- Reads an attribute whose mark `#` is the token `mark`. -/
def readAfterMark (source : List Char) (mark : Token) (ahead : List Token) :
    Except SyntaxFault (Attribute × List Token) :=
  if startsWith ahead "!" then .error ⟨.innerAttribute, ahead⟩
  else do
    let (_, inside) ← readWord "[" "`[` after `#`" ahead
    let (path, afterPath) ← readPath "an attribute path" inside
    let (form, atClose) ← readForm afterPath
    let (close, after) ← readWord "]" "`]` to close the attribute" atClose
    let text := String.ofList (slice source mark.start close.stop)
    return ({ path, form, text, location := mark.location }, after)

theorem length_of_readSegments {what path : String} {ahead rest : List Token}
    (h : readSegments what ahead = .ok (path, rest)) : rest.length < ahead.length := by
  fun_induction readSegments what ahead generalizing path with
  | case1 => cases h
  | case2 => cases h
  | case3 => cases h; simp
  | case4 => cases h
  | case5 token _ separator more _ path' after hmore ih =>
    cases h
    have := ih hmore
    simp only [List.length_cons]
    omega
  | case6 => cases h; simp

theorem length_of_readPath {what path : String} {ahead rest : List Token}
    (h : readPath what ahead = .ok (path, rest)) : rest.length < ahead.length := by
  unfold readPath at h
  split at h
  · next hstart =>
    obtain ⟨⟨segments, after⟩, hsegments, hend⟩ := map_eq_ok_iff.mp h
    cases hend
    have := length_of_readSegments hsegments
    have := length_tail_of_startsWith hstart
    omega
  · exact length_of_readSegments h

theorem length_of_readForm {ahead rest : List Token} {form : AttributeForm}
    (h : readForm ahead = .ok (form, rest)) : rest.length ≤ ahead.length := by
  cases ahead with
  | nil => cases h; simp
  | cons token tokens =>
    simp only [readForm] at h
    cases hopens : token.opens? with
    | some delimiter =>
      rw [hopens] at h
      obtain ⟨after, hgroup, hend⟩ := map_eq_ok_iff.mp h
      cases hend
      exact Nat.le_of_lt (length_of_passGroup hgroup)
    | none =>
      simp only [hopens] at h
      by_cases hequals : token.isWord "=" = true
      · rw [if_pos hequals] at h
        cases huntil : passUntil "]" tokens with
        | error fault =>
          rw [huntil] at h
          cases h
        | ok after =>
          simp only [huntil] at h
          split at h
          · cases h
          · cases h
            exact Nat.le_succ_of_le (length_of_passUntil huntil)
      · rw [if_neg hequals] at h
        cases h
        exact Nat.le_refl _

/-- What is read behind the mark of an attribute: its parts, one after another. -/
inductive ReadsAfterMark (source : List Char) (mark : Token) (ahead rest : List Token) :
    Attribute → Prop
  | parts {opener closer : Token} {inside afterPath atClose : List Token} {path : String}
      {form : AttributeForm} (hbang : startsWith ahead "!" = false)
      (hopen : readWord "[" "`[` after `#`" ahead = .ok (opener, inside))
      (hpath : readPath "an attribute path" inside = .ok (path, afterPath))
      (hform : readForm afterPath = .ok (form, atClose))
      (hclose : readWord "]" "`]` to close the attribute" atClose = .ok (closer, rest)) :
      ReadsAfterMark source mark ahead rest
        { path
          form
          text := String.ofList (slice source mark.start closer.stop)
          location := mark.location }

theorem parts_of_readAfterMark {source : List Char} {mark : Token} {ahead rest : List Token}
    {attr : Attribute} (h : readAfterMark source mark ahead = .ok (attr, rest)) :
    ReadsAfterMark source mark ahead rest attr := by
  unfold readAfterMark at h
  split at h
  · cases h
  · next hbang =>
    simp only [bind_eq_ok_iff, Prod.exists] at h
    obtain ⟨opener, inside, hopen, path, afterPath, hpath, form, atClose, hform, closer, after,
      hclose, hend⟩ := h
    cases hend
    exact .parts (Bool.eq_false_iff.mpr hbang) hopen hpath hform hclose

theorem length_of_readAfterMark {source : List Char} {mark : Token} {ahead rest : List Token}
    {attr : Attribute} (h : readAfterMark source mark ahead = .ok (attr, rest)) :
    rest.length < ahead.length := by
  cases parts_of_readAfterMark h with
  | parts hbang hopen hpath hform hclose =>
    have := length_of_readWord hopen
    have := length_of_readPath hpath
    have := length_of_readForm hform
    have := length_of_readWord hclose
    omega

/-- Reads an attribute whose mark may be any token. -/
def readAttribute (source : List Char) : List Token → Reads Attribute
  | [] => .error ⟨.unexpectedEnd, []⟩
  | mark :: rest => readAfterMark source mark rest

/-- Reads all attributes that come next. -/
def readAttributes (source : List Char) (ahead : List Token) : Reads (List Attribute) :=
  match ahead with
  | [] => .ok ([], [])
  | token :: rest =>
    if token.kind = .doc then
      match readAttributes source rest with
      | .error fault => .error fault
      | .ok (others, after) =>
        .ok ({ path := "doc", form := .bare, text := token.text, location := token.location } ::
          others, after)
    else if token.isPunct "#" then
      match _h : readAfterMark source token rest with
      | .error fault => .error fault
      | .ok (attr, next) =>
        match readAttributes source next with
        | .error fault => .error fault
        | .ok (others, after) => .ok (attr :: others, after)
    else .ok ([], token :: rest)
termination_by ahead.length
decreasing_by
  · simp
  · have := length_of_readAfterMark ‹_›
    simp only [List.length_cons]
    omega

theorem length_of_readAttributes {source : List Char} {ahead rest : List Token}
    {attributes : List Attribute} (h : readAttributes source ahead = .ok (attributes, rest)) :
    rest.length ≤ ahead.length := by
  fun_induction readAttributes source ahead generalizing attributes with
  | case1 => cases h; simp
  | case2 => cases h
  | case3 token tokens _ others after hothers ih =>
    cases h
    have := ih hothers
    simp only [List.length_cons]
    omega
  | case4 => cases h
  | case5 => cases h
  | case6 token tokens _ _ attr next hnext others after hothers ih =>
    cases h
    have := ih hothers
    have := length_of_readAfterMark hnext
    simp only [List.length_cons]
    omega
  | case7 => cases h; simp

end Microtypes
