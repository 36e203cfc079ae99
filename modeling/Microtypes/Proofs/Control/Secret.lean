import Microtypes.Control.Reader
import Microtypes.Proofs.Token.Shape

/-!
# Secret attributes that cannot be blamed

A secret attribute that is malformed is blamed on the first token of its first argument other than
`serialize`. If that argument is empty there is no such token, and the run ends without a report
(`readSecret_aborts_iff`). No other control attribute ends a run in this way.
-/

namespace Microtypes

open Lexeme (punct ident)

/-- Whether a comma stands where an argument is missing, behind any number of arguments
`serialize`. -/
inductive MissesArgument : List Lexeme → Prop
  | here (rest : List Lexeme) : MissesArgument (punct "," :: rest)
  /-- It is missing behind `serialize`. -/
  | later {rest : List Lexeme} (h : MissesArgument rest) :
      MissesArgument (ident "serialize" :: punct "," :: rest)

variable {depth : Int} {t : Token} {tokens rest : List Token} {a : Attribute}
  {attrs : List Attribute} {abort : Abort}

/-! ## Pieces between commas -/

theorem commaPieces_ne_nil (depth : Int) (tokens : List Token) : commaPieces depth tokens ≠ [] := by
  cases tokens with
  | nil => simp [commaPieces]
  | cons t rest =>
    rw [commaPieces]
    split
    · simp
    · split <;> simp

theorem commaPieces_comma (h : t.toLexeme = punct ",") (rest : List Token) :
    commaPieces 0 (t :: rest) = [] :: commaPieces 0 rest := by
  rw [commaPieces, if_pos ⟨by rw [h]; rfl, rfl⟩]

/-- A token that is not cut at joins the piece of what is behind it. -/
theorem commaPieces_keep (h : ¬ (t.isPunct "," = true ∧ depth = 0)) (rest : List Token) :
    ∃ piece pieces, commaPieces (depth + t.nesting) rest = piece :: pieces ∧
      commaPieces depth (t :: rest) = (t :: piece) :: pieces := by
  rw [commaPieces, if_neg h]
  cases hpieces : commaPieces (depth + t.nesting) rest with
  | nil => exact absurd hpieces (commaPieces_ne_nil _ rest)
  | cons piece pieces => exact ⟨piece, pieces, rfl, rfl⟩

theorem commaPieces_serialize (h : t.toLexeme = ident "serialize") (rest : List Token) :
    ∃ piece pieces, commaPieces 0 rest = piece :: pieces ∧
      commaPieces 0 (t :: rest) = (t :: piece) :: pieces := by
  have hkeep : ¬ (t.isPunct "," = true ∧ (0 : Int) = 0) := by
    rw [h]
    simp [ident, Lexeme.isPunct]
  have hdepth : 0 + t.nesting = 0 := by
    rw [h]
    rfl
  have hpieces := commaPieces_keep hkeep rest
  rwa [hdepth] at hpieces

/-- The first piece is empty at a comma and at the end only. -/
theorem exists_of_commaPieces_nil {pieces : List (List Token)} (hne : pieces ≠ [])
    (h : commaPieces 0 tokens = [] :: pieces) :
    ∃ t rest, tokens = t :: rest ∧ t.toLexeme = punct "," ∧ commaPieces 0 rest = pieces := by
  cases tokens with
  | nil =>
    cases h
    exact absurd rfl hne
  | cons t rest =>
    rw [commaPieces] at h
    split at h
    · next hcomma =>
      obtain ⟨hk, htext⟩ : t.kind = .punct ∧ t.text = "," := by
        simpa [Lexeme.isPunct] using hcomma.1
      refine ⟨t, rest, rfl, ?_, (List.cons.inj h).2⟩
      rw [punct, ← hk, ← htext]
    · split at h
      · cases h
      · cases h

/-- An argument `serialize` is the word and then a comma or the end. -/
theorem exists_of_commaPieces_serialize {piece : List Token} {pieces : List (List Token)}
    (hword : isSerializeWord piece = true) (h : commaPieces 0 tokens = piece :: pieces) :
    ∃ t rest, tokens = t :: rest ∧ t.toLexeme = ident "serialize" ∧
      commaPieces 0 rest = [] :: pieces := by
  unfold isSerializeWord at hword
  split at hword
  · next only =>
    have hlex : only.toLexeme = ident "serialize" := by
      obtain ⟨hk, htext⟩ : only.kind = .ident ∧ only.text = "serialize" := by
        simpa [Lexeme.isIdent] using hword
      rw [ident, ← hk, ← htext]
    cases tokens with
    | nil => cases h
    | cons t rest =>
      have h' := h
      rw [commaPieces] at h'
      split at h'
      · cases h'
      · obtain rfl : t = only := by
          split at h'
          · exact (List.cons.inj (List.cons.inj h').1).1
          · exact (List.cons.inj (List.cons.inj h').1).1
        obtain ⟨piece, later, hrest, hall⟩ := commaPieces_serialize hlex rest
        rw [hall] at h
        obtain ⟨hpiece, rfl⟩ := List.cons.inj h
        exact ⟨t, rest, rfl, hlex, hrest.trans (by rw [(List.cons.inj hpiece).2])⟩
  · cases hword

/-- An empty piece, with others behind it and only `serialize` before it, is a missing argument. -/
theorem missesArgument_iff :
    MissesArgument (lexemes tokens) ↔ ∃ before after, commaPieces 0 tokens = before ++ [] :: after ∧
      after ≠ [] ∧ ∀ piece ∈ before, isSerializeWord piece = true := by
  constructor
  · intro h
    generalize hlex : lexemes tokens = ts at h
    induction h generalizing tokens with
    | here rest =>
      obtain ⟨t, others, rfl, ht, -⟩ := List.map_eq_cons_iff.mp hlex
      exact ⟨[], _, commaPieces_comma ht others, commaPieces_ne_nil 0 others, by simp⟩
    | later _ ih =>
      obtain ⟨word, more, rfl, hword, hmore⟩ := List.map_eq_cons_iff.mp hlex
      obtain ⟨comma, others, rfl, hcomma, hothers⟩ := List.map_eq_cons_iff.mp hmore
      obtain ⟨before, after, hpieces, hafter, hbefore⟩ := ih hothers
      obtain ⟨piece, pieces, hrest, hall⟩ := commaPieces_serialize hword (comma :: others)
      rw [commaPieces_comma hcomma, hpieces] at hrest
      obtain ⟨rfl, rfl⟩ := List.cons.inj hrest
      refine ⟨[word] :: before, after, hall, hafter, ?_⟩
      intro piece hpiece
      rcases List.mem_cons.mp hpiece with rfl | hpiece
      · simp [isSerializeWord, Lexeme.isIdent, hword, ident]
      · exact hbefore piece hpiece
  · rintro ⟨before, after, hpieces, hafter, hbefore⟩
    induction before generalizing tokens with
    | nil =>
      obtain ⟨t, rest, rfl, ht, -⟩ := exists_of_commaPieces_nil hafter hpieces
      simp only [lexemes, List.map_cons, ht]
      exact .here _
    | cons piece before ih =>
      obtain ⟨word, more, rfl, hword, hmore⟩ :=
        exists_of_commaPieces_serialize (hbefore piece List.mem_cons_self) hpieces
      obtain ⟨comma, rest, rfl, hcomma, hrest⟩ := exists_of_commaPieces_nil (by simp) hmore
      have hmisses := ih hrest fun p hp => hbefore p (List.mem_cons_of_mem _ hp)
      simp only [lexemes, List.map_cons, hword, hcomma] at hmisses ⊢
      exact .later hmisses

/-! ## The argument that is blamed -/

/-- The first argument other than `serialize` is empty where one is missing, and only there. -/
theorem find_argumentLists_iff :
    (argumentLists tokens).find? (!isSerializeWord ·) = some [] ↔
      MissesArgument (lexemes tokens) := by
  rw [missesArgument_iff, List.find?_eq_some_iff_append]
  simp only [Bool.not_not]
  constructor
  · rintro ⟨-, before, after, hsplit, hbefore⟩
    unfold argumentLists at hsplit
    simp only at hsplit
    split at hsplit
    · next hlast =>
      obtain ⟨init, hinit⟩ := List.getLast?_eq_some_iff.mp hlast
      rw [hinit, List.dropLast_concat] at hsplit
      exact ⟨before, after ++ [[]], by rw [hinit, hsplit]; simp, by simp, hbefore⟩
    · next hlast =>
      refine ⟨before, after, hsplit, ?_, hbefore⟩
      rintro rfl
      exact hlast (by rw [hsplit]; simp)
  · rintro ⟨before, after, hpieces, hafter, hbefore⟩
    refine ⟨rfl, before, ?_⟩
    unfold argumentLists
    simp only [hpieces]
    split
    · refine ⟨after.dropLast, ?_, hbefore⟩
      rw [List.dropLast_append_of_ne_nil (by simp), List.dropLast_cons_of_ne_nil hafter]
    · exact ⟨after, rfl, hbefore⟩

theorem offendingArgument_eq_nil_iff {arguments : List (List Token)} (hne : arguments ≠ []) :
    offendingArgument arguments = [] ↔ arguments.find? (!isSerializeWord ·) = some [] := by
  unfold offendingArgument
  cases hfind : arguments.find? (!isSerializeWord ·) with
  | some argument => simp
  | none =>
    -- The last argument is `serialize` like all others.
    have hlast : isSerializeWord (arguments.getLast hne) = true := by
      have hall := List.find?_eq_none.mp hfind _ (List.getLast_mem hne)
      simpa using hall
    simp only [Option.getD_none, List.getLastD_eq_getLast?, List.getLast?_eq_some_getLast hne,
      Option.getD_some, reduceCtorEq, iff_false]
    intro hnil
    rw [hnil] at hlast
    cases hlast

/-- A secret attribute ends the run without a report exactly if an argument is missing in it. -/
theorem readSecret_aborts_iff : readSecret a = .error (.abort abort) ↔
    abort = .emptyArgument ∧
      ∃ tokens, a.form = .delimited .round tokens ∧ MissesArgument (lexemes tokens) := by
  unfold readSecret
  split
  · next hform => simp [hform]
  · next hform => simp [hform, Stop.of]
  · next hform => simp [hform, Stop.of]
  · next hform => simp [hform, Stop.of]
  · next tokens hform =>
    have hmisses := @find_argumentLists_iff tokens
    simp only [hform, AttributeForm.delimited.injEq, true_and, exists_eq_left', ← hmisses]
    cases hargs : argumentLists tokens with
    | nil => simp
    | cons argument others =>
      rw [← offendingArgument_eq_nil_iff (List.cons_ne_nil _ _)]
      simp only
      split
      · next hsingle =>
        obtain ⟨hword, hothers⟩ := Bool.and_eq_true_iff.mp hsingle
        rw [List.isEmpty_iff] at hothers
        have hne : argument ≠ [] := by
          rintro rfl
          cases hword
        simp [offendingArgument, hword, hothers, hne]
      · cases offendingArgument (argument :: others) with
        | nil => simp [eq_comm]
        | cons token rest => simp [Stop.of]

/-! ## All control attributes -/

/-- Whether the only secret attribute in a list misses an argument. -/
def SecretMissesArgument (attrs : List Attribute) : Prop :=
  ∃ a tokens, attributesAt Marker.secret.path attrs = [a] ∧
    a.form = .delimited .round tokens ∧ MissesArgument (lexemes tokens)

theorem markerAt_ne_abort (marker : Marker) (attrs : List Attribute) (abort : Abort) :
    markerAt marker attrs ≠ .error (.abort abort) := by
  unfold markerAt
  split <;> simp [Stop.of]

theorem secretControl_aborts_iff : secretControl attrs = .error (.abort abort) ↔
    abort = .emptyArgument ∧ SecretMissesArgument attrs := by
  unfold SecretMissesArgument secretControl markerAt
  rcases hattrs : attributesAt Marker.secret.path attrs with _ | ⟨only, _ | ⟨second, more⟩⟩
  · simp [bind, Except.bind, pure, Except.pure]
  · have haborts := @readSecret_aborts_iff only
    simp only [bind, Except.bind, List.cons.injEq, and_true]
    cases hread : readSecret only with
    | error stop => simpa [hread] using @haborts abort
    | ok request => simpa [hread, pure, Except.pure] using @haborts abort
  · simp [bind, Except.bind, Stop.of]

theorem kindControl_ne_abort (attrs : List Attribute) (abort : Abort) :
    kindControl attrs ≠ .error (.abort abort) := by
  intro h
  obtain hstring | ⟨string, -, h⟩ := bind_eq_error_iff.mp h
  · exact markerAt_ne_abort _ _ _ hstring
  · obtain hint | ⟨int, -, h⟩ := bind_eq_error_iff.mp h
    · exact markerAt_ne_abort _ _ _ hint
    · cases string <;> cases int <;> cases h

theorem columnControl_ne_abort (attrs : List Attribute) (abort : Abort) :
    columnControl attrs ≠ .error (.abort abort) := by
  intro h
  obtain hmarker | ⟨marker?, -, h⟩ := bind_eq_error_iff.mp h
  · exact markerAt_ne_abort _ _ _ hmarker
  · cases marker? with
    | none => cases h
    | some marker =>
      obtain h | ⟨type, -, h⟩ := bind_eq_error_iff.mp h
      · obtain ⟨problem, -, h⟩ := mapError_eq_error_iff.mp h
        cases h
      · cases h

/-- The control attributes end a run without a report exactly if the secret misses an argument. -/
theorem controls_aborts_iff : controls attrs = .error (.abort abort) ↔
    abort = .emptyArgument ∧ SecretMissesArgument attrs := by
  rw [← secretControl_aborts_iff]
  simp only [controls_eq, bind, Except.bind]
  cases hsecret : secretControl attrs with
  | error stop => simp
  | ok secret =>
    simp only [reduceCtorEq, iff_false]
    cases hkind : kindControl attrs with
    | error stop =>
      rintro ⟨⟩
      exact kindControl_ne_abort attrs abort hkind
    | ok kind =>
      cases hcolumn : columnControl attrs with
      | error stop =>
        rintro ⟨⟩
        exact columnControl_ne_abort attrs abort hcolumn
      | ok column => rintro ⟨⟩

end Microtypes
