import Microtypes.Control.Reader
import Microtypes.Proofs.Grammar.Likeness

/-!
# Control attributes of alike declarations

Alike attributes ask for the same, at alike places, or are refused for the same cause at an alike
place, or end the run in the same way.
-/

namespace Microtypes

variable {source source' : List Char} {L : Likeness source source'}
  {a a' : Attribute} {attrs attrs' : List Attribute} {tokens tokens' : List Token}

/-- Whether two problems have the same cause and alike places. -/
structure Problem.Alike (L : Likeness source source') (problem problem' : Problem) : Prop where
  cause : problem.cause = problem'.cause
  location : L.place problem.location problem'.location

/-- Whether two runs end early in the same way. -/
inductive Stop.Alike (L : Likeness source source') : Stop → Stop → Prop
  | problem {problem problem' : Problem} (h : problem.Alike L problem') :
      Alike L (.problem problem) (.problem problem')
  | abort (abort : Abort) : Alike L (.abort abort) (.abort abort)

/-- Whether two requests for a secret are the same but for alike places. -/
structure SecretRequest.Alike (L : Likeness source source') (r r' : SecretRequest) : Prop where
  serialize : r.serialize = r'.serialize
  location : L.place r.location r'.location

/-- Whether two statements about the inner type are the same but for alike places. -/
structure KindRequest.Alike (L : Likeness source source') (r r' : KindRequest) : Prop where
  kind : r.kind = r'.kind
  location : L.place r.location r'.location

/-- Whether two column mappings are the same but for alike places. -/
structure ColumnRequest.Alike (L : Likeness source source') (r r' : ColumnRequest) : Prop where
  sqlType : r.sqlType.Alike L r'.sqlType
  location : L.place r.location r'.location

/-- Whether the same is asked for at alike places. -/
structure Control.Alike (L : Likeness source source') (control control' : Control) : Prop where
  secret : Option.Rel (SecretRequest.Alike L) control.secret control'.secret
  kind : Option.Rel (KindRequest.Alike L) control.kind control'.kind
  columnMapping : Option.Rel (ColumnRequest.Alike L) control.columnMapping control'.columnMapping

namespace Likeness

theorem stop_of {cause : Cause} {location location' : Location} (h : L.place location location') :
    Stop.Alike L (.of cause location) (.of cause location') :=
  .problem (.mk rfl h)

theorem place_of_fault {fault fault' : SyntaxFault} {eof eof' : Location}
    (h : fault.Alike L fault') (heof : L.place eof eof') :
    L.place (fault.location eof) (fault'.location eof') := by
  obtain ⟨cause, rest⟩ := fault
  obtain ⟨cause', rest'⟩ := fault'
  cases h.rest with
  | nil => exact heof
  | cons ht _ => exact L.place_token ht

theorem problem_of_fault {fault fault' : SyntaxFault} {eof eof' : Location}
    (h : fault.Alike L fault') (heof : L.place eof eof') :
    (fault.problem eof).Alike L (fault'.problem eof') :=
  .mk (congrArg Cause.grammatical h.cause) (place_of_fault h heof)

/-! ## Markers -/

theorem attributesAt_alike (path : String) (h : List.Forall₂ (Attribute.Alike L) attrs attrs') :
    List.Forall₂ (Attribute.Alike L) (attributesAt path attrs) (attributesAt path attrs') := by
  refine List.rel_filter ?_ h
  intro a a' ha
  show (a.path == path) = true ↔ (a'.path == path) = true
  rw [ha.path]

theorem marker_at (marker : Marker) (h : List.Forall₂ (Attribute.Alike L) attrs attrs') :
    Agree (Stop.Alike L) (Option.Rel (Attribute.Alike L)) (markerAt marker attrs)
      (markerAt marker attrs') := by
  have hat := attributesAt_alike marker.path h
  rw [markerAt, markerAt]
  generalize attributesAt marker.path attrs = found, attributesAt marker.path attrs' = found' at hat
  cases hat with
  | nil => exact .ok .none
  | cons hfirst hat =>
    cases hat with
    | nil => exact .ok (.some hfirst)
    | cons hsecond _ => exact .error (stop_of hsecond.location)

/-! ## Arguments -/

theorem arguments_alike (h : a.Alike L a') : L.Tokens a.arguments a'.arguments := by
  have hform := h.form
  rw [Attribute.arguments, Attribute.arguments]
  generalize a.form = form, a'.form = form' at hform
  cases hform with
  | bare => exact .nil
  | delimited d hargs => exact hargs
  | assigned hvalue => exact hvalue

theorem comma_pieces (depth : Int) (h : L.Tokens tokens tokens') :
    List.Forall₂ L.Tokens (commaPieces depth tokens) (commaPieces depth tokens') := by
  induction h generalizing depth with
  | nil => exact .cons .nil .nil
  | @cons t t' rest rest' ht h ih =>
    rw [commaPieces, commaPieces, L.lexeme_eq ht]
    split
    · exact .cons .nil (ih depth)
    · have hpieces := ih (depth + t'.nesting)
      generalize commaPieces (depth + t'.nesting) rest = pieces,
        commaPieces (depth + t'.nesting) rest' = pieces' at hpieces
      cases hpieces with
      | nil => exact .cons (.cons ht .nil) .nil
      | cons hpiece hpieces => exact .cons (.cons ht hpiece) hpieces

theorem argument_lists (h : L.Tokens tokens tokens') :
    List.Forall₂ L.Tokens (argumentLists tokens) (argumentLists tokens') := by
  have hpieces := comma_pieces 0 h
  have hlast := forall₂_getLast? hpieces
  rw [argumentLists, argumentLists]
  generalize commaPieces 0 tokens = pieces, commaPieces 0 tokens' = pieces' at hpieces hlast
  have hempty : pieces.getLast? = some [] ↔ pieces'.getLast? = some [] := by
    generalize pieces.getLast? = last, pieces'.getLast? = last' at hlast
    cases hlast with
    | none => exact Iff.rfl
    | some hlast => cases hlast <;> simp
  simp only [hempty]
  split
  · exact forall₂_dropLast hpieces
  · exact hpieces

theorem serialize_word (h : L.Tokens tokens tokens') :
    isSerializeWord tokens = isSerializeWord tokens' := by
  cases h with
  | nil => rfl
  | cons ht h =>
    cases h with
    | nil => exact congrArg (Lexeme.isIdent · "serialize") (L.lexeme_eq ht)
    | cons _ _ => rfl

theorem offending_argument {args args' : List (List Token)} (h : List.Forall₂ L.Tokens args args') :
    L.Tokens (offendingArgument args) (offendingArgument args') := by
  have hlast : L.Tokens (args.getLastD []) (args'.getLastD []) := by
    have hrel := forall₂_getLast? h
    rw [List.getLastD_eq_getLast?, List.getLastD_eq_getLast?]
    generalize args.getLast? = last, args'.getLast? = last' at hrel
    cases hrel with
    | none => exact .nil
    | some hlast => exact hlast
  have hfind : Option.Rel L.Tokens (args.find? (!isSerializeWord ·))
      (args'.find? (!isSerializeWord ·)) := by
    clear hlast
    induction h with
    | nil => exact .none
    | cons harg _ ih =>
      rw [List.find?_cons, List.find?_cons, serialize_word harg]
      split
      · exact .some harg
      · exact ih
  rw [offendingArgument, offendingArgument]
  generalize args.find? _ = found, args'.find? _ = found' at hfind
  cases hfind with
  | none => exact hlast
  | some hfound => exact hfound

/-! ## The control attributes -/

theorem read_secret (h : a.Alike L a') :
    Agree (Stop.Alike L) (SecretRequest.Alike L) (readSecret a) (readSecret a') := by
  have hfirst : L.place ((a.arguments.head?.map (·.location)).getD a.location)
      ((a'.arguments.head?.map (·.location)).getD a'.location) := by
    have harguments := arguments_alike h
    generalize a.arguments = args, a'.arguments = args' at harguments
    cases harguments with
    | nil => exact h.location
    | cons ht _ => exact L.place_token ht
  have hform := h.form
  rw [readSecret, readSecret]
  generalize a.form = form, a'.form = form' at hform
  cases hform with
  | bare => exact .ok (.mk rfl h.location)
  | assigned _ => exact .error (stop_of hfirst)
  | @delimited d args args' hargs =>
    cases d with
    | square => exact .error (stop_of hfirst)
    | curly => exact .error (stop_of hfirst)
    | round =>
      have hlists := argument_lists hargs
      simp only
      generalize argumentLists args = lists, argumentLists args' = lists' at hlists
      cases hlists with
      | nil => exact .ok (.mk rfl h.location)
      | @cons argument argument' others others' hargument hothers =>
        have hoffending := offending_argument (.cons hargument hothers)
        have hempty : others.isEmpty = others'.isEmpty := by cases hothers <;> rfl
        simp only [serialize_word hargument, hempty]
        refine .ite (fun _ => .ok (.mk rfl h.location)) fun _ => ?_
        generalize offendingArgument (argument :: others) = offending,
          offendingArgument (argument' :: others') = offending' at hoffending
        cases hoffending with
        | nil => exact .error (.abort _)
        | cons ht _ => exact .error (stop_of (L.place_token ht))

theorem secret_control (h : List.Forall₂ (Attribute.Alike L) attrs attrs') :
    Agree (Stop.Alike L) (Option.Rel (SecretRequest.Alike L)) (secretControl attrs)
      (secretControl attrs') := by
  rw [secretControl, secretControl]
  refine (marker_at .secret h).bind fun hmarker => ?_
  cases hmarker with
  | none => exact .ok .none
  | some hmarker => exact (read_secret hmarker).bind fun hrequest => .ok (.some hrequest)

theorem kind_control (h : List.Forall₂ (Attribute.Alike L) attrs attrs') :
    Agree (Stop.Alike L) (Option.Rel (KindRequest.Alike L)) (kindControl attrs)
      (kindControl attrs') := by
  rw [kindControl, kindControl]
  refine (marker_at .string h).bind fun hstring => ?_
  refine (marker_at .int h).bind fun hint => ?_
  cases hstring with
  | none =>
    cases hint with
    | none => exact .ok .none
    | some hint => exact .ok (.some (.mk rfl hint.location))
  | some hstring =>
    cases hint with
    | none => exact .ok (.some (.mk rfl hstring.location))
    | some hint => exact .error (stop_of (L.place_later hstring.location hint.location))

theorem column_type (h : a.Alike L a') :
    Agree (Problem.Alike L) (WrittenType.Alike L) (readColumnType a) (readColumnType a') := by
  have hbroken : Agree (Problem.Alike L) (WrittenType.Alike L)
      (.error ⟨.control .columnForm, a.location⟩) (.error ⟨.control .columnForm, a'.location⟩) :=
    .error (.mk rfl h.location)
  have hform := h.form
  rw [readColumnType, readColumnType]
  generalize a.form = form, a'.form = form' at hform
  cases hform with
  | bare => exact hbroken
  | assigned _ => exact hbroken
  | delimited d hargs =>
    cases d with
    | square => exact hbroken
    | curly => exact hbroken
    | round =>
      cases hargs with
      | nil => exact hbroken
      | cons hkey hrest =>
        simp only [L.lexeme_eq hkey]
        refine .ite (fun _ => .error (.mk rfl (L.place_token hkey))) fun _ => ?_
        cases hrest with
        | nil => exact .error (.mk rfl (L.place_token hkey))
        | @cons equals equals' type type' hequals htype =>
          simp only [L.lexeme_eq hequals]
          refine .ite (fun _ => .error (.mk rfl (L.place_token hequals))) fun _ => ?_
          have hlast := forall₂_getLast? htype
          generalize type.getLast? = last, type'.getLast? = last' at hlast
          cases hlast with
          | none => exact .error (.mk rfl (L.place_token hequals))
          | some hlast =>
            exact (whole_type htype).mapError fun hfault =>
              problem_of_fault hfault (L.place_token hlast)

theorem column_control (h : List.Forall₂ (Attribute.Alike L) attrs attrs') :
    Agree (Stop.Alike L) (Option.Rel (ColumnRequest.Alike L)) (columnControl attrs)
      (columnControl attrs') := by
  rw [columnControl, columnControl]
  refine (marker_at .columnMapping h).bind fun hmarker => ?_
  cases hmarker with
  | none => exact .ok .none
  | some hmarker =>
    refine ((column_type hmarker).mapError .problem).bind fun htype => ?_
    exact .ok (.some (.mk htype hmarker.location))

/-- Alike attributes ask for the same, or are refused alike. -/
theorem controls_alike (h : List.Forall₂ (Attribute.Alike L) attrs attrs') :
    Agree (Stop.Alike L) (Control.Alike L) (controls attrs) (controls attrs') := by
  rw [controls_eq, controls_eq]
  refine (secret_control h).bind fun hsecret => ?_
  refine (kind_control h).bind fun hkind => ?_
  refine (column_control h).bind fun hcolumn => ?_
  exact .ok (.mk hsecret hkind hcolumn)

end Likeness
end Microtypes
