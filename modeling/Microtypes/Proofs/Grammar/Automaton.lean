import Microtypes.Proofs.Grammar.Group

/-!
# A pushdown automaton for declarations

The readers look at one or two tokens to decide how to go on. The automaton never looks beyond the
lexeme that it goes past: where a reader needs a second token, the automaton takes the first one and
remembers in a symbol of its own what it may still turn out to be. So the stack after a list of
lexemes says which lexemes may follow, and the list can be completed exactly if there is a stack.

`predict` is the table of the automaton. `feed` goes past one lexeme, `run` past several, and
`Accepts` asks that nothing is expected in the end that could not be left out.
-/

namespace Microtypes

/-- What may be expected next. -/
inductive Symbol where
  /-- What a goal of a type asks for. -/
  | goal (g : Goal)
  /-- What follows the mark of a reference. -/
  | reference
  | borrowed
  /-- What may follow the identifier of a segment. -/
  | segmentEnd
  /-- What may follow the parameters of a segment. -/
  | result
  /-- What follows an identifier that begins a generic argument. -/
  | argumentWord (text : String)
  | closing (d : Delimiter)
  /-- A value and the square bracket after it. -/
  | value
  /-- The rest of a value and the square bracket after it. -/
  | valueRest
  | closer (d : Delimiter)
  | attributes
  /-- What follows the mark of an attribute. -/
  | attributeBody
  /-- A path of identifiers, possibly from the root. -/
  | words
  /-- An identifier of a path and what follows it. -/
  | word
  /-- The rest of a path of identifiers. -/
  | wordRest
  /-- What follows the path of an attribute. -/
  | form
  | declaredType
  /-- What follows `pub`. -/
  | restriction
  /-- What follows `pub` and a round bracket. -/
  | restrictionScope
  /-- What follows `pub`, a round bracket and a scope. -/
  | scopeEnd
  /-- The names of a block, with their brackets, and further blocks. -/
  | opening
  | names
  | name
  | nameWord
  | nameRest
  | blocks
deriving DecidableEq

/-- What is done about an expected symbol when a lexeme is seen. -/
inductive Move where
  /-- The automaton goes past the lexeme and expects `parts` next. -/
  | shift (parts : List Symbol)
  /-- It expects `parts` in place of the symbol, and sees the same lexeme again. -/
  | expand (parts : List Symbol)
  | stop
deriving DecidableEq

open Move

/-- The table of the automaton for the goals of types. -/
def Goal.predict (g : Goal) (t : Lexeme) : Move :=
  match g with
  | .type =>
    if t.isPunct "&" then shift [.reference]
    else if t.isPunct "(" then shift [.goal .tupleElement]
    else if t.isPunct "[" then shift [.goal .type, .goal .arrayRest]
    else if t.isIdent "dyn" then shift [.goal .bound, .goal .boundRest]
    else expand [.goal .path]
  | .path => if t.isWord "::" then shift [.goal .segment] else expand [.goal .segment]
  | .segment =>
    if t.kind ≠ .ident ∨ t.text ∈ unpathedWords then stop
    else shift [.segmentEnd, .goal .pathRest]
  | .pathRest => if t.isWord "::" then shift [.goal .segment] else expand []
  | .tupleElement =>
    if t.isWord ")" then shift [] else expand [.goal .type, .goal .tupleRest]
  | .tupleRest =>
    if t.isWord "," then shift [.goal .tupleElement] else if t.isWord ")" then shift [] else stop
  | .arrayRest =>
    if t.isWord ";" then shift [.value] else if t.isWord "]" then shift [] else stop
  | .bound => if t.kind = .lifetime then shift [] else expand [.goal .path]
  | .boundRest =>
    if t.isWord "+" then shift [.goal .bound, .goal .boundRest] else expand []
  | .arguments => if t.isWord "<" then shift [.goal .argument] else stop
  | .argument =>
    if t.isWord ">" then shift []
    else if t.kind = .lifetime ∨ t.kind = .literal then shift [.goal .argumentRest]
    else if t.isPunct Delimiter.curly.opener then shift [.closing .curly, .goal .argumentRest]
    else if t.kind = .ident then shift [.argumentWord t.text]
    else expand [.goal .type, .goal .argumentRest]
  | .argumentRest =>
    if t.isWord "," then shift [.goal .argument] else if t.isWord ">" then shift [] else stop

namespace Symbol

/-- What is expected after an identifier that begins a type. -/
def wordParts (text : String) : List Symbol :=
  if text = "dyn" then [goal .bound, goal .boundRest] else [segmentEnd, goal .pathRest]

/-- The table of the automaton. -/
def predict (s : Symbol) (t : Lexeme) : Move :=
  match s with
  | goal g => g.predict t
  | reference => if t.kind = .lifetime then shift [borrowed] else expand [borrowed]
  | borrowed => if t.isWord "mut" then shift [goal .type] else expand [goal .type]
  | segmentEnd =>
    if t.isWord "<" then shift [goal .argument]
    else if t.isWord "(" then shift [closing .round, result]
    else expand []
  | result => if t.isWord "->" then shift [goal .type] else expand []
  | argumentWord text =>
    if t.isWord "=" then shift [goal .type, goal .argumentRest]
    else if text ∈ Goal.unpathedWords then stop
    else expand (wordParts text ++ [goal .argumentRest])
  | closing d =>
    match t.opens?, t.closes? with
    | some opened, _ => shift [closing opened, closing d]
    | none, some closed => if closed = d then shift [] else stop
    | none, none => shift [closing d]
  | value => if t.isWord "]" then stop else expand [valueRest]
  | valueRest =>
    if t.isWord "]" then shift []
    else
      match t.opens?, t.closes? with
      | some opened, _ => shift [closing opened, valueRest]
      | none, some _ => stop
      | none, none => shift [valueRest]
  | closer d => if t.isWord d.closer then shift [] else stop
  | attributes =>
    if t.kind = .doc then shift [attributes]
    else if t.isPunct "#" then shift [attributeBody, attributes]
    else expand []
  | attributeBody => if t.isWord "[" then shift [words, form] else stop
  | words => if t.isWord "::" then shift [word] else expand [word]
  | word => if t.kind = .ident then shift [wordRest] else stop
  | wordRest => if t.isWord "::" then shift [word] else expand []
  | form =>
    match t.opens? with
    | some opened => shift [closing opened, closer .square]
    | none => if t.isWord "=" then shift [value] else expand [closer .square]
  | declaredType => if t.isWord "pub" then shift [restriction] else expand [goal .type]
  | restriction => if t.isWord "(" then shift [restrictionScope] else expand [goal .type]
  | restrictionScope =>
    if t.kind = .ident ∧ t.text ∈ visibilityScopes then shift [scopeEnd]
    else if t.isWord "in" then shift [words, closer .round, goal .type]
    else expand [goal .tupleElement]
  | scopeEnd =>
    if t.isWord ")" then shift [goal .type]
    else expand [segmentEnd, goal .pathRest, goal .tupleRest]
  | opening => if t.isWord Delimiter.curly.opener then shift [names, blocks] else stop
  | names => if t.isWord Delimiter.curly.closer then shift [] else expand [name, nameRest]
  | name => expand [attributes, nameWord]
  | nameWord => if nameFault? t = none then shift [] else stop
  | nameRest =>
    if t.isWord "," then shift [names]
    else if t.isWord Delimiter.curly.closer then shift []
    else stop
  | blocks => expand [attributes, declaredType, opening]

section

variable {t : Lexeme} {d opened : Delimiter}

theorem predict_closing : predict (closing d) t =
    match t.opens?, t.closes? with
    | some opened, _ => shift [closing opened, closing d]
    | none, some closed => if closed = d then shift [] else stop
    | none, none => shift [closing d] := rfl

theorem predict_valueRest (hw : ¬ t.isWord "]" = true) : predict valueRest t =
    match t.opens?, t.closes? with
    | some opened, _ => shift [closing opened, valueRest]
    | none, some _ => stop
    | none, none => shift [valueRest] :=
  if_neg hw

theorem predict_closing_of_opens (h : t.opens? = some opened) :
    predict (closing d) t = shift [closing opened, closing d] := by
  rw [predict_closing, h]

theorem predict_closing_of_closes (ho : t.opens? = none) (hc : t.closes? = some d) :
    predict (closing d) t = shift [] := by
  rw [predict_closing, ho, hc]
  exact if_pos rfl

theorem predict_closing_of_mismatch {closed : Delimiter} (ho : t.opens? = none)
    (hc : t.closes? = some closed) (hd : closed ≠ d) : predict (closing d) t = stop := by
  rw [predict_closing, ho, hc]
  exact if_neg hd

theorem predict_closing_of_plain (ho : t.opens? = none) (hc : t.closes? = none) :
    predict (closing d) t = shift [closing d] := by
  rw [predict_closing, ho, hc]

theorem predict_valueRest_of_opens (hw : ¬ t.isWord "]" = true) (h : t.opens? = some opened) :
    predict valueRest t = shift [closing opened, valueRest] := by
  rw [predict_valueRest hw, h]

theorem predict_valueRest_of_closes (hw : ¬ t.isWord "]" = true) (ho : t.opens? = none)
    (hc : t.closes? = some d) : predict valueRest t = stop := by
  rw [predict_valueRest hw, ho, hc]

theorem predict_valueRest_of_plain (hw : ¬ t.isWord "]" = true) (ho : t.opens? = none)
    (hc : t.closes? = none) : predict valueRest t = shift [valueRest] := by
  rw [predict_valueRest hw, ho, hc]

end

/-- Whether a symbol may be left out at the end. -/
def isOptional : Symbol → Bool
  | goal g => g.isOptional
  | segmentEnd | result | attributes | wordRest | blocks => true
  | _ => false

/-- The optional symbols that may stand above others. -/
def skippable : List Symbol :=
  [segmentEnd, result, goal .pathRest, goal .boundRest, attributes, wordRest]

/-- A bound on how often a symbol is expanded before a lexeme is passed. -/
def rank : Symbol → Nat
  | goal .path | value | words | form => 2
  | goal .type | goal .bound | name => 3
  | borrowed | declaredType | restriction => 4
  | reference | goal .tupleElement | goal .argument | names => 5
  | argumentWord _ | restrictionScope | scopeEnd => 6
  | blocks => 7
  | _ => 1

/-- The ranks of several symbols together. -/
def ranks : List Symbol → Nat
  | [] => 0
  | s :: below => s.rank + ranks below

theorem ranks_append (above below : List Symbol) :
    ranks (above ++ below) = ranks above + ranks below := by
  induction above with
  | nil => rw [List.nil_append, ranks, Nat.zero_add]
  | cons s above ih => rw [List.cons_append, ranks, ranks, ih, Nat.add_assoc]

/-- What a symbol is expanded into, if it ever is. There is no choice about it. -/
def expansion? : Symbol → Option (List Symbol)
  | goal .type | goal .bound => some [goal .path]
  | goal .path => some [goal .segment]
  | goal .tupleElement => some [goal .type, goal .tupleRest]
  | goal .argument => some [goal .type, goal .argumentRest]
  | goal .pathRest | goal .boundRest | segmentEnd | result | attributes | wordRest => some []
  | reference => some [borrowed]
  | borrowed | declaredType | restriction => some [goal .type]
  | argumentWord text => some (wordParts text ++ [goal .argumentRest])
  | value => some [valueRest]
  | words => some [word]
  | form => some [closer .square]
  | restrictionScope => some [goal .tupleElement]
  | scopeEnd => some [segmentEnd, goal .pathRest, goal .tupleRest]
  | names => some [name, nameRest]
  | name => some [attributes, nameWord]
  | blocks => some [attributes, declaredType, opening]
  | _ => none

/-- Whether a move is no expansion, or the one that is given. -/
def expandsTo (expansion : Option (List Symbol)) : Move → Bool
  | expand parts => expansion == some parts
  | shift _ | stop => true

section

variable {expansion : Option (List Symbol)} {parts : List Symbol}

@[simp] theorem expandsTo_shift : expandsTo expansion (shift parts) = true := rfl

@[simp] theorem expandsTo_stop : expandsTo expansion stop = true := rfl

@[simp] theorem expandsTo_expand : expandsTo (some parts) (expand parts) = true :=
  beq_self_eq_true _

end

theorem expandsTo_predict (s : Symbol) (t : Lexeme) :
    expandsTo s.expansion? (s.predict t) = true := by
  cases s with
  | goal g => cases g <;> simp [predict, Goal.predict, expansion?, apply_ite (expandsTo _)]
  | closing d =>
    rw [predict_closing]
    split
    · rfl
    · split <;> rfl
    · rfl
  | valueRest =>
    simp only [predict, apply_ite (expandsTo _), expandsTo_shift]
    split
    · rfl
    · split <;> rfl
  | form =>
    simp only [predict]
    split
    · rfl
    · split
      · rfl
      · exact expandsTo_expand
  | _ => simp [predict, expansion?, apply_ite (expandsTo _)]

theorem expansion_of_predict {s : Symbol} {t : Lexeme} {parts : List Symbol}
    (h : s.predict t = expand parts) : s.expansion? = some parts := by
  have hall := expandsTo_predict s t
  rw [h] at hall
  exact beq_iff_eq.mp hall

theorem ranks_of_expand {s : Symbol} {t : Lexeme} {parts : List Symbol}
    (h : s.predict t = expand parts) : ranks parts < s.rank := by
  have hparts := expansion_of_predict h
  cases s with
  | goal g => cases g <;> cases hparts <;> decide
  | argumentWord text =>
    cases hparts
    unfold wordParts
    split <;> simp [ranks, rank]
  | _ => cases hparts <;> decide

end Symbol

open Microtypes.Symbol

/-- The stack after one lexeme, if the lexeme may come next. -/
def feed (stack : List Symbol) (t : Lexeme) : Option (List Symbol) :=
  match stack with
  | [] => none
  | s :: below =>
    match _h : s.predict t with
    | stop => none
    | shift parts => some (parts ++ below)
    | expand parts => feed (parts ++ below) t
termination_by ranks stack
decreasing_by
  have := ranks_of_expand ‹_›
  simp only [ranks, ranks_append] at *
  omega

/-- The stack after several lexemes, if they may come next. -/
def run (stack : List Symbol) (ts : List Lexeme) : Option (List Symbol) :=
  ts.foldlM feed stack

/-- Whether nothing is missing after the lexemes. -/
def Accepts (stack : List Symbol) (ts : List Lexeme) : Prop :=
  ∃ left, run stack ts = some left ∧ ∀ s ∈ left, s.isOptional = true

variable {s : Symbol} {K L M parts : List Symbol} {t : Lexeme} {ts us : List Lexeme}

/-! ## One lexeme -/

theorem feed_nil : feed [] t = none := by
  rw [feed]

theorem feed_cons : feed (s :: K) t =
    match s.predict t with
    | stop => none
    | shift parts => some (parts ++ K)
    | expand parts => feed (parts ++ K) t := by
  rw [feed]
  split <;> simp_all

theorem feed_of_shift (h : s.predict t = shift parts) : feed (s :: K) t = some (parts ++ K) := by
  rw [feed_cons, h]

theorem feed_of_expand (h : s.predict t = expand parts) :
    feed (s :: K) t = feed (parts ++ K) t := by
  rw [feed_cons, h]

theorem feed_of_stop (h : s.predict t = stop) : feed (s :: K) t = none := by
  rw [feed_cons, h]

/-- An identifier that begins a type is passed. -/
theorem feed_type_ident (hk : t.kind = .ident) (ht : t.Proper)
    (hword : t.text ∉ Goal.unpathedWords) :
    feed (goal .type :: K) t = some (wordParts t.text ++ K) := by
  have hpunct : ∀ text : String, ¬ t.isPunct text = true := by
    intro text hp
    simp [Lexeme.isPunct, hk] at hp
  unfold wordParts
  split
  · next hdyn =>
    have hisDyn : t.isIdent "dyn" = true := by simp [Lexeme.isIdent, hk, hdyn]
    exact feed_of_shift ((if_neg (hpunct _)).trans ((if_neg (hpunct _)).trans
      ((if_neg (hpunct _)).trans (if_pos hisDyn))))
  · next hdyn =>
    have hisDyn : ¬ t.isIdent "dyn" = true := by simp [Lexeme.isIdent, hdyn]
    have hroot : ¬ t.isWord "::" = true := by
      intro hw
      rw [ht.eq_punct hw rfl] at hk
      cases hk
    have htype : predict (goal .type) t = expand [goal .path] :=
      (if_neg (hpunct _)).trans ((if_neg (hpunct _)).trans ((if_neg (hpunct _)).trans
        (if_neg hisDyn)))
    have hpath : predict (goal .path) t = expand [goal .segment] := if_neg hroot
    have hsegment : predict (goal .segment) t = shift [segmentEnd, goal .pathRest] :=
      if_neg (by simp [hk, hword])
    rw [feed_of_expand htype]
    exact (feed_of_expand hpath).trans (feed_of_shift hsegment)

/-! ## Several lexemes -/

@[simp] theorem run_nil : run K [] = some K := rfl

theorem run_cons : run K (t :: ts) = (feed K t).bind (run · ts) := rfl

theorem run_append : run K (ts ++ us) = (run K ts).bind (run · us) := by
  induction ts generalizing K with
  | nil => rfl
  | cons t ts ih =>
    rw [List.cons_append, run_cons, run_cons]
    cases feed K t with
    | none => rfl
    | some L => exact ih

theorem accepts_nil : Accepts K [] ↔ ∀ s ∈ K, s.isOptional = true := by
  constructor
  · rintro ⟨left, hrun, hleft⟩
    cases hrun
    exact hleft
  · exact fun h => ⟨K, rfl, h⟩

theorem accepts_cons : Accepts K (t :: ts) ↔ ∃ L, feed K t = some L ∧ Accepts L ts := by
  constructor
  · rintro ⟨left, hrun, hleft⟩
    rw [run_cons] at hrun
    obtain ⟨L, hL, hrun⟩ := Option.bind_eq_some_iff.mp hrun
    exact ⟨L, hL, left, hrun, hleft⟩
  · rintro ⟨L, hL, left, hrun, hleft⟩
    refine ⟨left, ?_, hleft⟩
    rw [run_cons, hL]
    exact hrun

theorem accepts_append : Accepts K (ts ++ us) ↔ ∃ L, run K ts = some L ∧ Accepts L us := by
  constructor
  · rintro ⟨left, hrun, hleft⟩
    rw [run_append] at hrun
    obtain ⟨L, hL, hrun⟩ := Option.bind_eq_some_iff.mp hrun
    exact ⟨L, hL, left, hrun, hleft⟩
  · rintro ⟨L, hL, left, hrun, hleft⟩
    refine ⟨left, ?_, hleft⟩
    rw [run_append, hL]
    exact hrun

theorem accepts_of_shift (h : s.predict t = shift parts) :
    Accepts (s :: K) (t :: ts) ↔ Accepts (parts ++ K) ts := by
  rw [accepts_cons, feed_of_shift h]
  simp

theorem accepts_of_expand (h : s.predict t = expand parts) :
    Accepts (s :: K) (t :: ts) ↔ Accepts (parts ++ K) (t :: ts) := by
  rw [accepts_cons, accepts_cons, feed_of_expand h]

theorem accepts_shift (parts : List Symbol) (h : s.predict t = shift parts)
    (hrest : Accepts (parts ++ K) ts) : Accepts (s :: K) (t :: ts) :=
  (accepts_of_shift h).mpr hrest

theorem accepts_expand (parts : List Symbol) (h : s.predict t = expand parts)
    (hrest : Accepts (parts ++ K) (t :: ts)) : Accepts (s :: K) (t :: ts) :=
  (accepts_of_expand h).mpr hrest

theorem not_accepts_of_stop (h : s.predict t = stop) : ¬ Accepts (s :: K) (t :: ts) := by
  rw [accepts_cons, feed_of_stop h]
  simp

end Microtypes
