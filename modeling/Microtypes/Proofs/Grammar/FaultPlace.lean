import Microtypes.Proofs.Grammar.Simulation

/-!
# Where the grammar is broken

A syntax error is placed at the first token that cannot be right, or at most one token before it:
what stands before the place of the error can be completed to blocks, and what ends just after the
token behind that place cannot. The automaton has a stack after exactly those lists of lexemes that
can be completed, because every stack that it comes to can be emptied.
-/

namespace Microtypes

open Microtypes.Symbol Move
open Lexeme (punct ident)

variable {s : Symbol} {K L parts : List Symbol} {t : Lexeme} {ts ws : List Lexeme}

/-! ## Emptying a stack -/

namespace Symbol

/-- Whether a symbol may stand above others on a stack. -/
def isInner : Symbol → Bool
  | opening | blocks | goal .arguments => false
  | _ => true

/-- Lexemes that meet a symbol, together with the optional symbols that are left of it. -/
def finish : Symbol → List Lexeme
  | goal .pathRest | goal .boundRest | goal .arguments | segmentEnd | result | attributes
  | wordRest | blocks => []
  | goal .tupleElement | goal .tupleRest | restrictionScope => [punct ")"]
  | goal .arrayRest | valueRest | form => [punct "]"]
  | goal .argument | goal .argumentRest => [punct ">"]
  | argumentWord _ => [punct "=", ident "A", punct ">"]
  | closing d | closer d => [punct d.closer]
  | value => [ident "A", punct "]"]
  | attributeBody => [punct "[", ident "A", punct "]"]
  | scopeEnd => [punct ")", ident "A"]
  | opening => [punct Delimiter.curly.opener, punct Delimiter.curly.closer]
  | names | nameRest => [punct Delimiter.curly.closer]
  | goal .type | goal .path | goal .segment | goal .bound | reference | borrowed | words | word
  | declaredType | restriction | name | nameWord => [ident "A"]

end Symbol

/-- Whether lexemes do not begin with one that an optional symbol would take. -/
def Mild (ts : List Lexeme) : Prop :=
  ∀ t ∈ ts.head?, ∀ s ∈ skippable, s.predict t = expand []

theorem isOptional_of_skippable (hs : s ∈ skippable) : s.isOptional = true := by
  have hall : ∀ s ∈ skippable, s.isOptional = true := by decide
  exact hall s hs

theorem accepts_skippable (hs : s ∈ skippable) (h : Accepts K ts) (hmild : Mild ts) :
    Accepts (s :: K) ts := by
  cases ts with
  | nil =>
    rw [accepts_nil] at h ⊢
    exact List.forall_mem_cons.mpr ⟨isOptional_of_skippable hs, h⟩
  | cons t ts => exact (accepts_of_expand (hmild t rfl s hs)).mpr h

theorem accepts_segment (h : Accepts K ts) (hmild : Mild ts) :
    Accepts (goal .segment :: K) (ident "A" :: ts) := by
  have hrest : Accepts (goal .pathRest :: K) ts := accepts_skippable (by decide) h hmild
  have hend : Accepts (segmentEnd :: goal .pathRest :: K) ts :=
    accepts_skippable (by decide) hrest hmild
  exact accepts_shift [segmentEnd, goal .pathRest] (by decide) hend

theorem accepts_path (h : Accepts K ts) (hmild : Mild ts) :
    Accepts (goal .path :: K) (ident "A" :: ts) :=
  accepts_expand [goal .segment] (by decide) (accepts_segment h hmild)

theorem accepts_type (h : Accepts K ts) (hmild : Mild ts) :
    Accepts (goal .type :: K) (ident "A" :: ts) :=
  accepts_expand [goal .path] (by decide) (accepts_path h hmild)

theorem accepts_borrowed (h : Accepts K ts) (hmild : Mild ts) :
    Accepts (borrowed :: K) (ident "A" :: ts) :=
  accepts_expand [goal .type] (by decide) (accepts_type h hmild)

theorem accepts_word (h : Accepts K ts) (hmild : Mild ts) :
    Accepts (word :: K) (ident "A" :: ts) :=
  accepts_shift [wordRest] (by decide) (accepts_skippable (by decide) h hmild)

theorem accepts_words (h : Accepts K ts) (hmild : Mild ts) :
    Accepts (words :: K) (ident "A" :: ts) :=
  accepts_expand [word] (by decide) (accepts_word h hmild)

theorem accepts_form (h : Accepts K ts) : Accepts (form :: K) (punct "]" :: ts) :=
  accepts_expand [closer .square] (by decide) (accepts_shift [] (by decide) h)

theorem accepts_tupleElement (h : Accepts K ts) :
    Accepts (goal .tupleElement :: K) (punct ")" :: ts) :=
  accepts_shift [] (by decide) h

theorem accepts_argumentRest (h : Accepts K ts) :
    Accepts (goal .argumentRest :: K) (punct ">" :: ts) :=
  accepts_shift [] (by decide) h

theorem accepts_nameWord (h : Accepts K ts) : Accepts (nameWord :: K) (ident "A" :: ts) :=
  accepts_shift [] (by decide) h

theorem accepts_valueRest (h : Accepts K ts) : Accepts (valueRest :: K) (punct "]" :: ts) :=
  accepts_shift [] (by decide) h

theorem mild_cons (h : ∀ s ∈ skippable, s.predict t = expand []) : Mild (t :: ts) := by
  rintro t' ⟨⟩
  exact h

/-- A symbol is met by its finish. -/
theorem accepts_finish (hs : s.isInner = true) (h : Accepts K ts) (hmild : Mild ts) :
    Accepts (s :: K) (s.finish ++ ts) := by
  cases s with
  | goal g =>
    cases g with
    | type => exact accepts_type h hmild
    | path => exact accepts_path h hmild
    | segment => exact accepts_segment h hmild
    | pathRest => exact accepts_skippable (by decide) h hmild
    | tupleElement => exact accepts_tupleElement h
    | tupleRest => exact accepts_shift [] (by decide) h
    | arrayRest => exact accepts_shift [] (by decide) h
    | bound => exact accepts_expand [goal .path] (by decide) (accepts_path h hmild)
    | boundRest => exact accepts_skippable (by decide) h hmild
    | arguments => cases hs
    | argument => exact accepts_shift [] (by decide) h
    | argumentRest => exact accepts_argumentRest h
  | reference => exact accepts_expand [borrowed] (by decide) (accepts_borrowed h hmild)
  | borrowed => exact accepts_borrowed h hmild
  | segmentEnd => exact accepts_skippable (by decide) h hmild
  | result => exact accepts_skippable (by decide) h hmild
  | argumentWord text =>
    have hclose := accepts_argumentRest h
    have hargument := accepts_type hclose (mild_cons (by decide))
    exact accepts_shift [goal .type, goal .argumentRest] rfl hargument
  | closing d =>
    refine accepts_shift [] ?_ h
    cases d <;> decide
  | value =>
    have hrest : Accepts (valueRest :: K) (ident "A" :: punct "]" :: ts) :=
      accepts_shift [valueRest] (by decide) (accepts_valueRest h)
    exact accepts_expand [valueRest] (by decide) hrest
  | valueRest => exact accepts_valueRest h
  | closer d =>
    refine accepts_shift [] ?_ h
    cases d <;> decide
  | attributes => exact accepts_skippable (by decide) h hmild
  | attributeBody =>
    have hwords := accepts_words (accepts_form h) (mild_cons (by decide))
    exact accepts_shift [words, form] (by decide) hwords
  | words => exact accepts_words h hmild
  | word => exact accepts_word h hmild
  | wordRest => exact accepts_skippable (by decide) h hmild
  | form => exact accepts_form h
  | declaredType => exact accepts_expand [goal .type] (by decide) (accepts_type h hmild)
  | restriction => exact accepts_expand [goal .type] (by decide) (accepts_type h hmild)
  | restrictionScope =>
    exact accepts_expand [goal .tupleElement] (by decide) (accepts_tupleElement h)
  | scopeEnd => exact accepts_shift [goal .type] (by decide) (accepts_type h hmild)
  | opening => cases hs
  | names => exact accepts_shift [] (by decide) h
  | name =>
    have hattributes : Accepts (attributes :: nameWord :: K) (ident "A" :: ts) :=
      accepts_expand [] (by decide) (accepts_nameWord h)
    exact accepts_expand [attributes, nameWord] (by decide) hattributes
  | nameWord => exact accepts_nameWord h
  | nameRest => exact accepts_shift [] (by decide) h
  | blocks => cases hs

theorem mild_finish (hmild : Mild ts) : Mild (s.finish ++ ts) := by
  cases s with
  | goal g =>
    cases g <;> first
      | exact hmild
      | exact mild_cons (by decide)
  | closing d => cases d <;> exact mild_cons (by decide)
  | closer d => cases d <;> exact mild_cons (by decide)
  | _ =>
    first
      | exact hmild
      | exact mild_cons (by decide)

theorem shaped_punct {c : Char} (hc : c ∈ singlePuncts) :
    (punct (String.singleton c)).Shaped := by
  have htext : (String.singleton c).toList = [c] := String.toList_singleton c
  show PunctText (String.singleton c).toList
  rw [htext]
  exact .single hc

theorem shaped_finish : ∀ t ∈ s.finish, t.Shaped := by
  have hfinish : ∀ t ∈ s.finish,
      t = ident "A" ∨ t ∈ singlePuncts.map fun c => punct (String.singleton c) := by
    cases s with
    | goal g => cases g <;> decide
    | closing d => cases d <;> decide
    | closer d => cases d <;> decide
    | argumentWord text =>
      show ∀ t ∈ [punct "=", ident "A", punct ">"], _
      decide
    | _ => decide
  intro t ht
  rcases hfinish t ht with rfl | hmark
  · show identExtent "A".toList = some "A".toList.length
    decide
  · obtain ⟨c, hc, rfl⟩ := List.mem_map.mp hmark
    exact shaped_punct hc

/-! ## Stacks that are come to -/

/-- Whether a stack stands on blocks, or on the names of a block, and holds inner symbols only
above. -/
def Grounded (stack : List Symbol) : Prop :=
  ∃ above ground, stack = above ++ [ground] ∧ (∀ s ∈ above, s.isInner = true) ∧
    (ground = blocks ∨ ground = opening)

/-- Whether all that a move puts on the stack is inner. -/
def Move.staysInner : Move → Bool
  | shift parts | expand parts => parts.all isInner
  | stop => true

section

variable {parts : List Symbol}

@[simp] theorem staysInner_shift : (shift parts).staysInner = parts.all isInner := rfl

@[simp] theorem staysInner_expand : (expand parts).staysInner = parts.all isInner := rfl

@[simp] theorem staysInner_stop : stop.staysInner = true := rfl

end

theorem staysInner_predict (hs : s.isInner = true) (t : Lexeme) :
    (s.predict t).staysInner = true := by
  cases s with
  | goal g => cases g <;> simp [predict, Goal.predict, isInner, apply_ite Move.staysInner]
  | argumentWord text =>
    have hparts : (wordParts text ++ [goal .argumentRest]).all isInner = true := by
      unfold wordParts
      split <;> rfl
    simp [predict, hparts, isInner, apply_ite Move.staysInner, -List.all_append]
  | closing d =>
    rw [predict_closing]
    split
    · rfl
    · split <;> rfl
    · rfl
  | valueRest =>
    simp only [predict, apply_ite Move.staysInner, staysInner_shift]
    split
    · rfl
    · split <;> rfl
  | form =>
    simp only [predict]
    split
    · rfl
    · split <;> rfl
  | opening => cases hs
  | blocks => cases hs
  | _ => simp [predict, isInner, apply_ite Move.staysInner]

theorem isInner_of_predict (hs : s.isInner = true)
    (h : s.predict t = shift parts ∨ s.predict t = expand parts) :
    ∀ p ∈ parts, p.isInner = true := by
  have hinner := staysInner_predict hs t
  rcases h with h | h
  · rw [h] at hinner
    exact List.all_eq_true.mp hinner
  · rw [h] at hinner
    exact List.all_eq_true.mp hinner

theorem grounded_feed (hK : Grounded K) (h : feed K t = some L) : Grounded L := by
  fun_induction feed K t with
  | case1 => cases h
  | case2 => cases h
  | case3 s below parts hshift =>
    cases h
    obtain ⟨above, ground, hstack, habove, hground⟩ := hK
    cases above with
    | nil =>
      cases hstack
      rcases hground with rfl | rfl
      · cases hshift
      · simp only [predict] at hshift
        split at hshift
        · cases hshift
          exact ⟨[names], blocks, rfl, by simp [isInner], .inl rfl⟩
        · cases hshift
    | cons s' above =>
      cases hstack
      rw [List.forall_mem_cons] at habove
      refine ⟨parts ++ above, ground, (List.append_assoc ..).symm, ?_, hground⟩
      exact List.forall_mem_append.mpr ⟨isInner_of_predict habove.1 (.inl hshift), habove.2⟩
  | case4 s below parts hexpand ih =>
    refine ih ?_ h
    obtain ⟨above, ground, hstack, habove, hground⟩ := hK
    cases above with
    | nil =>
      cases hstack
      rcases hground with rfl | rfl
      · cases hexpand
        exact ⟨[attributes, declaredType], opening, rfl, by simp [isInner], .inr rfl⟩
      · simp only [predict] at hexpand
        split at hexpand <;> cases hexpand
    | cons s' above =>
      cases hstack
      rw [List.forall_mem_cons] at habove
      refine ⟨parts ++ above, ground, (List.append_assoc ..).symm, ?_, hground⟩
      exact List.forall_mem_append.mpr ⟨isInner_of_predict habove.1 (.inr hexpand), habove.2⟩

theorem grounded_run (hK : Grounded K) (h : run K ts = some L) : Grounded L := by
  induction ts generalizing K with
  | nil => cases h; exact hK
  | cons t ts ih =>
    rw [run_cons] at h
    obtain ⟨M, hM, h⟩ := Option.bind_eq_some_iff.mp h
    exact ih (grounded_feed hK hM) h

/-- Every stack that is come to can be emptied. -/
theorem exists_accepts_of_grounded (hK : Grounded K) :
    ∃ ts, Accepts K ts ∧ ∀ t ∈ ts, t.Shaped := by
  obtain ⟨above, ground, rfl, habove, hground⟩ := hK
  suffices h : ∃ ts, Accepts (above ++ [ground]) ts ∧ Mild ts ∧ ∀ t ∈ ts, t.Shaped by
    obtain ⟨ts, haccepts, -, hshaped⟩ := h
    exact ⟨ts, haccepts, hshaped⟩
  induction above with
  | nil =>
    refine ⟨ground.finish, ?_, ?_, shaped_finish⟩
    · rcases hground with rfl | rfl
      · exact accepts_nil.mpr (by decide)
      · have hnames : Accepts [names, blocks] [punct Delimiter.curly.closer] :=
          accepts_shift [] (by decide) (accepts_nil.mpr (by decide))
        exact accepts_shift [names, blocks] (by decide) hnames
    · rw [← List.append_nil (Symbol.finish ground)]
      refine mild_finish ?_
      rintro t ⟨⟩
  | cons s above ih =>
    rw [List.forall_mem_cons] at habove
    obtain ⟨ts, haccepts, hmild, hshaped⟩ := ih habove.2
    exact ⟨s.finish ++ ts, accepts_finish habove.1 haccepts hmild, mild_finish hmild,
      List.forall_mem_append.mpr ⟨shaped_finish, hshaped⟩⟩

/-! ## Lists that can be completed -/

/-- Whether tokens can be completed to blocks by further tokens that a source may have. -/
def Viable (source : List Char) (ts : List Token) : Prop :=
  ∃ more blocks, (∀ t ∈ lexemes more, t.Shaped) ∧ readBlocks source (ts ++ more) = .ok blocks

/-- Tokens can be completed exactly where the automaton has a stack after them. -/
theorem viable_iff {source : List Char} {ts : List Token} (hp : ∀ t ∈ lexemes ts, t.Proper) :
    Viable source ts ↔ (run [blocks] (lexemes ts)).isSome := by
  have hproper : ∀ more : List Token, (∀ t ∈ lexemes more, t.Shaped) →
      ∀ t ∈ lexemes (ts ++ more), t.Proper := by
    intro more hmore t ht
    rw [lexemes_append, List.mem_append] at ht
    exact ht.elim (hp t) fun ht => (hmore t ht).proper
  constructor
  · rintro ⟨more, decls, hmore, hread⟩
    have haccepts := (readBlocks_ok_iff (hproper more hmore)).mp ⟨decls, hread⟩
    rw [lexemes_append, accepts_append] at haccepts
    obtain ⟨stack, hstack, -⟩ := haccepts
    rw [hstack]
    rfl
  · intro h
    obtain ⟨stack, hstack⟩ := Option.isSome_iff_exists.mp h
    have hground : Grounded [blocks] := ⟨[], blocks, rfl, by simp, .inl rfl⟩
    obtain ⟨ws, haccepts, hshaped⟩ := exists_accepts_of_grounded (grounded_run hground hstack)
    have hmore : lexemes (ws.map fun w => ⟨w, .start, 0, 0⟩) = ws := by
      rw [lexemes, List.map_map]
      exact List.map_id ws
    have hshaped' : ∀ t ∈ lexemes (ws.map fun w => ⟨w, .start, 0, 0⟩), t.Shaped := by
      rwa [hmore]
    obtain ⟨decls, hread⟩ := (@readBlocks_ok_iff _ source (hproper _ hshaped')).mpr (by
      rw [lexemes_append, hmore, accepts_append]
      exact ⟨stack, hstack, haccepts⟩)
    exact ⟨_, decls, hshaped', hread⟩

/-! ## The place of an error -/

/-- Whether a run over the tokens `ts` ends with a syntax error at the right place. -/
inductive Pinpoints (source : List Char) (ts : List Token) : Stop → Prop
  /-- Tokens can go on where a bracket is left open, and the error is at such a bracket. -/
  | unclosed {text : String} {t : Token} (hmem : t ∈ ts) (hopens : t.opens?.isSome)
      (hviable : Viable source ts) :
      Pinpoints source ts (.of (.grammatical (.unclosed text)) t.location)
  /-- Otherwise the error is at the token with the index `i`, or at the end of the source. Tokens
  can go on before it, but not after the token that follows it. -/
  | misplaced {cause : SyntaxCause} {location : Location} (i : Nat) (hi : i ≤ ts.length)
      (hcause : cause.isUnclosed = false)
      (hlocation : location = (ts[i]?.map Token.location).getD (.ofEnd source))
      (hbefore : Viable source (ts.take i))
      (hafter : i + 1 < ts.length → ¬ Viable source (ts.take (i + 2))) :
      Pinpoints source ts (.of (.grammatical cause) location)

theorem location_of_append {taken rest : List Token} {cause : SyntaxCause} {eof : Location} :
    SyntaxFault.location eof ⟨cause, rest⟩ =
      (((taken ++ rest)[taken.length]?).map Token.location).getD eof := by
  rw [List.getElem?_append_right (Nat.le_refl _), Nat.sub_self]
  cases rest <;> rfl

theorem pinpoints_of_blames {source : List Char} {ts : List Token} {fault : SyntaxFault}
    (hp : ∀ t ∈ lexemes ts, t.Proper) (h : Blames [blocks] ts fault) :
    Pinpoints source ts (.problem (fault.problem (.ofEnd source))) := by
  cases h with
  | @misplaced cause taken rest hcause hahead hpassed hstopped hrejects =>
    subst hahead
    have hproper : ∀ n, ∀ t ∈ lexemes ((taken ++ rest).take n), t.Proper := by
      intro n t ht
      rw [lexemes, List.map_take] at ht
      exact hp t (List.mem_of_mem_take ht)
    refine .misplaced taken.length (by simp) hcause location_of_append ?_ ?_
    · rw [viable_iff (hproper _), List.take_left' rfl]
      exact hpassed
    · intro hlength
      rw [viable_iff (hproper _)]
      rw [List.length_append] at hlength
      obtain ⟨t, u, others, rfl⟩ : ∃ t u others, rest = t :: u :: others := by
        rcases rest with _ | ⟨t, _ | ⟨u, others⟩⟩
        · exact absurd hlength (by simp)
        · exact absurd hlength (by simp)
        · exact ⟨t, u, others, rfl⟩
      have htake : (taken ++ t :: u :: others).take (taken.length + 2) = taken ++ [t, u] := by
        rw [List.take_length_add_append]
        rfl
      rw [htake, lexemes_append, lexemes_cons, lexemes_cons, lexemes_nil, hstopped t u others rfl]
      simp
  | @unclosed text taken others t d hahead hopens hpassed hrejects =>
    subst hahead
    refine .unclosed (by simp) (by rw [hopens]; rfl) ?_
    rw [viable_iff hp]
    exact hpassed

theorem tokens_of_readSource_error {source : String} {ts : List Token} {stop : Stop}
    (hts : sourceTokens source = .ok ts) (h : readSource source = .error stop) :
    ∃ fault, readBlocks source.toList ts = .error fault ∧
      stop = .problem (fault.problem (.ofEnd source.toList)) := by
  rw [readSource, hts] at h
  obtain ⟨fault, hread, hstop⟩ := mapError_eq_error_iff.mp h
  exact ⟨fault, hread, hstop.symm⟩

/-- A grammar error pinpoints the first malformed token. -/
theorem pinpoints_of_readSource {source : String} {ts : List Token} {stop : Stop}
    (hts : sourceTokens source = .ok ts) (h : readSource source = .error stop) :
    Pinpoints source.toList ts stop := by
  obtain ⟨fault, hread, rfl⟩ := tokens_of_readSource_error hts h
  have hp := proper_of_sourceTokens hts
  have htracks := @tracks_readBlocks _ source.toList hp
  rw [hread] at htracks
  exact pinpoints_of_blames hp htracks

theorem pinpoints_of_readSource_bracket :
    ∃ ts, sourceTokens "A)" = .ok ts ∧ Pinpoints "A)".toList ts
      (.of (.grammatical (.expected "`\x7b` after the inner type" (some ")"))) ⟨1, 2⟩) := by
  have hsegments : segments "A)".toList = .ok [⟨some .ident, ['A']⟩, ⟨some .punct, [')']⟩] :=
    segments_cons _ 0 rfl (segments_cons _ 0 rfl segments_nil)
  have htokens : sourceTokens "A)" = .ok [⟨ident "A", ⟨1, 1⟩, 0, 1⟩, ⟨punct ")", ⟨1, 2⟩, 1, 2⟩] :=
    sourceTokens_of_segments hsegments
  refine ⟨_, htokens, pinpoints_of_readSource htokens ?_⟩
  have hattributes : readAttributes "A)".toList
      [⟨ident "A", ⟨1, 1⟩, 0, 1⟩, ⟨punct ")", ⟨1, 2⟩, 1, 2⟩] = .ok ([], _) :=
    readAttributes_of_other (by decide) (by decide)
  have hpass : Goal.pass [.type] [⟨ident "A", ⟨1, 1⟩, 0, 1⟩, ⟨punct ")", ⟨1, 2⟩, 1, 2⟩] =
      .ok [⟨punct ")", ⟨1, 2⟩, 1, 2⟩] :=
    pass_of_step rfl (pass_of_step rfl (pass_of_step rfl (pass_of_step rfl pass_nil)))
  have htype : readType [⟨ident "A", ⟨1, 1⟩, 0, 1⟩, ⟨punct ")", ⟨1, 2⟩, 1, 2⟩] =
      .ok (⟨"A", ⟨1, 1⟩⟩, [⟨punct ")", ⟨1, 2⟩, 1, 2⟩]) := by
    rw [readType, hpass]
    rfl
  have hvisibility : readVisibility [⟨ident "A", ⟨1, 1⟩, 0, 1⟩, ⟨punct ")", ⟨1, 2⟩, 1, 2⟩] =
      .ok ("", _) := rfl
  rw [readSource, htokens]
  simp only [bind, Except.bind, readBlocks_cons, readBlock, hattributes, hvisibility, htype]
  rfl

end Microtypes
