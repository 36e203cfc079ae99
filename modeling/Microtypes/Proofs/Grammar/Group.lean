import Microtypes.Proofs.Grammar.Derivation

/-!
# What words and groups go past

The readers of words and groups, when they succeed, have gone past exactly the lexemes that they
look for.
-/

namespace Microtypes

open Lexeme (punct ident)

/-! ## Lexemes and cursors -/

@[simp] theorem lexemes_nil : lexemes [] = [] := rfl

@[simp] theorem lexemes_cons (t : Token) (ts : List Token) :
    lexemes (t :: ts) = t.toLexeme :: lexemes ts := rfl

@[simp] theorem length_lexemes (ts : List Token) : (lexemes ts).length = ts.length :=
  List.length_map ..

/-- What a reader went past, where the lexemes before and after it are known. -/
theorem lexemes_passed {before after : List Token} {ts : List Lexeme}
    (h : lexemes before = ts ++ lexemes after) : lexemes (passed before after) = ts := by
  have hlen := congrArg List.length h
  rw [List.length_append, length_lexemes, length_lexemes] at hlen
  have htake : lexemes (passed before after) =
      (lexemes before).take (before.length - after.length) := List.map_take ..
  rw [htake, h, List.take_left' (by omega)]

/-- What holds of every lexeme ahead holds of every lexeme that is ahead later. -/
theorem forall_of_passed {P : Lexeme → Prop} {ahead rest : List Token} {ts : List Lexeme}
    (hp : ∀ t ∈ lexemes ahead, P t) (h : lexemes ahead = ts ++ lexemes rest) :
    ∀ t ∈ lexemes rest, P t :=
  fun t ht => hp t (h ▸ List.mem_append_right ts ht)

theorem exists_of_startsWith {ahead : List Token} {text : String}
    (h : startsWith ahead text = true) : ∃ t rest, ahead = t :: rest ∧ t.isWord text = true := by
  cases ahead with
  | nil => cases h
  | cons t rest => exact ⟨t, rest, rfl, h⟩

theorem text_eq_of_isWord {t : Lexeme} {text : String} (h : t.isWord text = true) :
    t.text = text := by
  simp only [Lexeme.isWord, Bool.and_eq_true, beq_iff_eq] at h
  exact h.2

theorem not_isWord_of_mem {t : Lexeme} {texts : List String} {text : String}
    (ht : t.text ∈ texts) (h : text ∉ texts) : ¬ t.isWord text = true := by
  intro hw
  rw [text_eq_of_isWord hw] at ht
  exact h ht

/-- A mark that is next is that punctuation. -/
theorem lexemes_of_startsWith {ahead : List Token} {text : String}
    (h : startsWith ahead text = true) (hp : ∀ t ∈ lexemes ahead, t.Proper)
    (hs : startsIdent text.toList = false) :
    lexemes ahead = punct text :: lexemes ahead.tail := by
  obtain ⟨t, rest, rfl, ht⟩ := exists_of_startsWith h
  rw [lexemes_cons, (hp t.toLexeme List.mem_cons_self).eq_punct ht hs]
  rfl

theorem eq_cons_of_readWord {text what : String} {ahead rest : List Token} {t : Token}
    (h : readWord text what ahead = .ok (t, rest)) :
    ahead = t :: rest ∧ t.isWord text = true := by
  cases ahead with
  | nil => cases h
  | cons first others =>
    simp only [readWord] at h
    split at h
    · next hw => cases h; exact ⟨rfl, hw⟩
    · cases h

theorem lexemes_of_readWord {text what : String} {ahead rest : List Token} {t : Token}
    (h : readWord text what ahead = .ok (t, rest)) (hp : ∀ t ∈ lexemes ahead, t.Proper)
    (hs : startsIdent text.toList = false) :
    lexemes ahead = [punct text] ++ lexemes rest := by
  obtain ⟨rfl, hw⟩ := eq_cons_of_readWord h
  rw [lexemes_cons, (hp _ List.mem_cons_self).eq_punct hw hs]
  rfl

theorem startsWith_of_passWord {text what : String} {ahead rest : List Token}
    (h : passWord text what ahead = .ok rest) :
    startsWith ahead text = true ∧ rest = ahead.tail := by
  obtain ⟨⟨t, after⟩, hr, hend⟩ := map_eq_ok_iff.mp h
  cases hend
  obtain ⟨rfl, hw⟩ := eq_cons_of_readWord hr
  exact ⟨hw, rfl⟩

/-- Going past a mark with a result that is known before. -/
theorem lexemes_of_map_passWord {α : Type} {text what : String} {known result : α}
    {ahead rest : List Token}
    (h : (passWord text what ahead).map (known, ·) = .ok (result, rest))
    (hp : ∀ t ∈ lexemes ahead, t.Proper) (hs : startsIdent text.toList = false) :
    result = known ∧ lexemes ahead = punct text :: lexemes rest := by
  obtain ⟨after, hpass, hend⟩ := map_eq_ok_iff.mp h
  cases hend
  obtain ⟨hstart, rfl⟩ := startsWith_of_passWord hpass
  exact ⟨rfl, lexemes_of_startsWith hstart hp hs⟩

/-! ## Groups -/

theorem eq_punct_of_isPunct {t : Lexeme} {text : String} (h : t.isPunct text = true) :
    t = punct text := by
  obtain ⟨kind, s⟩ := t
  simp only [Lexeme.isPunct, Bool.and_eq_true, beq_iff_eq] at h
  obtain ⟨rfl, rfl⟩ := h
  rfl

theorem eq_ident_of_isIdent {t : Lexeme} {text : String} (h : t.isIdent text = true) :
    t = ident text := by
  obtain ⟨kind, s⟩ := t
  simp only [Lexeme.isIdent, Bool.and_eq_true, beq_iff_eq] at h
  obtain ⟨rfl, rfl⟩ := h
  rfl

theorem eq_punct_of_opens {t : Lexeme} {d : Delimiter} (h : t.opens? = some d) :
    t = punct d.opener := by
  have hd := List.find?_some h
  exact eq_punct_of_isPunct hd

theorem eq_punct_of_closes {t : Lexeme} {d : Delimiter} (h : t.closes? = some d) :
    t = punct d.closer := by
  have hd := List.find?_some h
  exact eq_punct_of_isPunct hd

/-- Runs that close several open groups, the innermost first. -/
def ClosesAll : List Delimiter → List Lexeme → Prop
  | [], ts => ts = []
  | d :: outer, ts =>
    ∃ inside rest, Balanced inside ∧ ClosesAll outer rest ∧ ts = inside ++ punct d.closer :: rest

theorem closesAll_of_passClosers {unclosed : SyntaxFault} {innermost : Delimiter}
    {outer : List Delimiter} {ahead rest : List Token}
    (h : passClosers unclosed innermost outer ahead = .ok rest) :
    ∃ ts, lexemes ahead = ts ++ lexemes rest ∧ ClosesAll (innermost :: outer) ts := by
  fun_induction passClosers unclosed innermost outer ahead with
  | case1 => cases h
  | case2 innermost outer t tokens opened hopened ih =>
    obtain ⟨ts, hts, inside, after, hin, ⟨inside', after', hin', houter, rfl⟩, rfl⟩ := ih h
    refine ⟨_, ?_, punct opened.opener :: inside ++ punct opened.closer :: inside', after',
      .group opened hin hin', houter, rfl⟩
    rw [lexemes_cons, hts, eq_punct_of_opens hopened]
    simp
  | case3 t tokens d hcloses hopens =>
    cases h
    exact ⟨[t.toLexeme], rfl, [], [], .nil, rfl, by rw [eq_punct_of_closes hcloses]; rfl⟩
  | case4 t tokens d hcloses next others hopens ih =>
    obtain ⟨ts, hts, hall⟩ := ih h
    refine ⟨t.toLexeme :: ts, by rw [lexemes_cons, hts]; rfl, [], ts, .nil, hall, ?_⟩
    rw [eq_punct_of_closes hcloses]
    rfl
  | case5 => cases h
  | case6 innermost outer t tokens hcloses hopens ih =>
    obtain ⟨ts, hts, inside, after, hin, houter, rfl⟩ := ih h
    exact ⟨_, by rw [lexemes_cons, hts]; rfl, t.toLexeme :: inside, after,
      .plain hopens hcloses hin, houter, rfl⟩

/-- A group that is passed begins with its opening bracket. -/
theorem isGroup_of_passGroup {ahead rest : List Token} (h : passGroup ahead = .ok rest) :
    ∃ t others d inside, ahead = t :: others ∧ t.opens? = some d ∧ Balanced inside ∧
      lexemes ahead = punct d.opener :: inside ++ [punct d.closer] ++ lexemes rest := by
  cases ahead with
  | nil => cases h
  | cons t others =>
    simp only [passGroup] at h
    split at h
    · next d hd =>
      obtain ⟨ts, hts, inside, after, hin, rfl, rfl⟩ := closesAll_of_passClosers h
      refine ⟨t, others, d, inside, rfl, hd, hin, ?_⟩
      rw [lexemes_cons, hts, eq_punct_of_opens hd]
      simp
    · cases h

/-- The group that a bracket opens is in brackets of that kind. -/
theorem isGroup_of_startsWith {d : Delimiter} {ahead rest : List Token}
    (hs : startsWith ahead d.opener = true) (h : passGroup ahead = .ok rest) :
    ∃ group, IsGroup d group ∧ lexemes ahead = group ++ lexemes rest := by
  obtain ⟨t, others, d', inside, rfl, hd, hin, hlex⟩ := isGroup_of_passGroup h
  have hw : (punct d'.opener).isWord d.opener = true := by
    rw [← eq_punct_of_opens hd]
    exact hs
  have hsame : d' = d := by
    revert hw
    cases d <;> cases d' <;> decide
  subst hsame
  exact ⟨_, ⟨inside, hin, rfl⟩, hlex⟩

theorem isWord_of_isPunct {t : Lexeme} {text : String} (h : t.isPunct text = true) :
    t.isWord text = true := by
  rw [eq_punct_of_isPunct h]
  exact beq_self_eq_true text

/-- What is passed up to a stop word is a balanced run. -/
theorem balanced_of_passUntil {stop : String} {ahead rest : List Token}
    (h : passUntil stop ahead = .ok rest) :
    ∃ ts, lexemes ahead = ts ++ lexemes rest ∧ Balanced ts ∧ startsWith rest stop = true := by
  fun_induction passUntil stop ahead with
  | case1 => cases h
  | case2 t tokens hstop =>
    cases h
    exact ⟨[], rfl, .nil, hstop⟩
  | case3 => cases h
  | case4 t tokens hstop hopens after hgroup ih =>
    obtain ⟨ts, hts, hbal, hrest⟩ := ih h
    obtain ⟨-, -, d, inside, -, -, hin, hlex⟩ := isGroup_of_passGroup hgroup
    refine ⟨punct d.opener :: inside ++ punct d.closer :: ts, ?_, .group d hin hbal, hrest⟩
    rw [hlex, hts]
    simp
  | case5 => cases h
  | case6 t tokens hstop hopens hcloses ih =>
    obtain ⟨ts, hts, hbal, hrest⟩ := ih h
    refine ⟨t.toLexeme :: ts, by rw [lexemes_cons, hts]; rfl, .plain ?_ ?_ hbal, hrest⟩
    · simpa using hopens
    · simpa using hcloses

end Microtypes
