import Mathlib.Data.List.Infix
import Microtypes.Proofs.Grammar.TypeSimulation

/-!
# Where reading stands

Whatever is read, the tokens that are left ahead are an end of those that were ahead, and so is what
a fault points at. The cursor, which is the number of tokens gone past, therefore stays in range and
never goes back, and most readings move it (`advances_passAll`). So reading ends: each step of a
type lowers the weight of what is still to do, and each block takes a token.
-/

namespace Microtypes

variable {β γ : Type} {source : List Char} {all ahead rest : List Token} {text what stop : String}
  {left : β → List Token} {left' : γ → List Token}

/-! ## What is left of the tokens -/

/-- Whether a reading leaves ahead an end of the tokens `all`, or fails at one. -/
def StaysIn (left : β → List Token) (all : List Token) : Except SyntaxFault β → Prop
  | .ok b => left b <:+ all
  | .error fault => fault.rest <:+ all

namespace StaysIn

theorem of_ok {read : Except SyntaxFault β} {b : β} (h : StaysIn left all read)
    (hread : read = .ok b) : left b <:+ all := by
  subst hread
  exact h

theorem of_error {read : Except SyntaxFault β} {fault : SyntaxFault} (h : StaysIn left all read)
    (hread : read = .error fault) : fault.rest <:+ all := by
  subst hread
  exact h

theorem mono {read : Except SyntaxFault β} (h : StaysIn left ahead read) (hahead : ahead <:+ all) :
    StaysIn left all read := by
  cases read with
  | error fault => exact List.IsSuffix.trans h hahead
  | ok b => exact List.IsSuffix.trans h hahead

theorem bind {read : Except SyntaxFault β} {next : β → Except SyntaxFault γ}
    (h : StaysIn left all read) (hnext : ∀ b, read = .ok b → StaysIn left' (left b) (next b)) :
    StaysIn left' all (read.bind next) := by
  cases read with
  | error fault => exact h
  | ok b => exact (hnext b rfl).mono h

theorem map {read : Except SyntaxFault β} {f : β → γ} (h : StaysIn left all read)
    (hleft : ∀ b, left' (f b) = left b) : StaysIn left' all (read.map f) := by
  cases read with
  | error fault => exact h
  | ok b =>
    show left' (f b) <:+ all
    rw [hleft]
    exact h

end StaysIn

theorem exists_of_map_snd {read : Reads β} (h : read.map Prod.snd = .ok rest) :
    ∃ b, read = .ok (b, rest) := by
  cases read with
  | error fault => cases h
  | ok result =>
    cases h
    exact ⟨result.1, rfl⟩

/-! ## Words and groups -/

theorem staysIn_readToken (ahead : List Token) : StaysIn Prod.snd ahead (readToken ahead) := by
  cases ahead with
  | nil => exact List.suffix_rfl
  | cons t rest => exact List.suffix_cons t rest

theorem staysIn_readWord (text what : String) (ahead : List Token) :
    StaysIn Prod.snd ahead (readWord text what ahead) := by
  cases ahead with
  | nil => exact List.suffix_rfl
  | cons t rest =>
    rw [readWord]
    split
    · exact List.suffix_cons t rest
    · exact List.suffix_rfl

theorem staysIn_passWord (text what : String) (ahead : List Token) :
    StaysIn id ahead (passWord text what ahead) :=
  (staysIn_readWord text what ahead).map fun _ => rfl

theorem suffix_dropWord (text : String) (ahead : List Token) : dropWord text ahead <:+ ahead := by
  unfold dropWord
  split
  · exact List.tail_suffix ahead
  · exact List.suffix_rfl

theorem suffix_dropLifetime (ahead : List Token) : Goal.dropLifetime ahead <:+ ahead := by
  unfold Goal.dropLifetime
  split
  · split
    · exact List.suffix_cons _ _
    · exact List.suffix_rfl
  · exact List.suffix_rfl

theorem staysIn_passClosers {unclosed : SyntaxFault} {innermost : Delimiter}
    {outer : List Delimiter} (hahead : ahead <:+ all) (hunclosed : unclosed.rest <:+ all) :
    StaysIn id all (passClosers unclosed innermost outer ahead) := by
  fun_induction passClosers unclosed innermost outer ahead with
  | case1 => exact hunclosed
  | case2 innermost outer t rest opened _ ih => exact ih ((List.suffix_cons t rest).trans hahead)
  | case3 t rest => exact (List.suffix_cons t rest).trans hahead
  | case4 t rest closed _ next others _ ih => exact ih ((List.suffix_cons t rest).trans hahead)
  | case5 => exact hahead
  | case6 innermost outer t rest _ _ ih => exact ih ((List.suffix_cons t rest).trans hahead)

theorem staysIn_passGroup (ahead : List Token) : StaysIn id ahead (passGroup ahead) := by
  cases ahead with
  | nil => exact List.suffix_rfl
  | cons t rest =>
    rw [passGroup]
    split
    · exact staysIn_passClosers (List.suffix_cons t rest) List.suffix_rfl
    · exact List.suffix_rfl

theorem staysIn_passUntil (stop : String) (ahead : List Token) :
    StaysIn id ahead (passUntil stop ahead) := by
  fun_induction passUntil stop ahead with
  | case1 => exact List.suffix_rfl
  | case2 => exact List.suffix_rfl
  | case3 t rest _ _ fault hgroup => exact (staysIn_passGroup (t :: rest)).of_error hgroup
  | case4 t rest _ _ after hgroup ih => exact ih.mono ((staysIn_passGroup (t :: rest)).of_ok hgroup)
  | case5 => exact List.suffix_rfl
  | case6 t rest _ _ _ ih => exact ih.mono (List.suffix_cons t rest)

/-! ## Types -/

theorem staysIn_step (goal : Goal) (ahead : List Token) :
    StaysIn Prod.snd ahead (goal.step ahead) := by
  have hword (text what : String) (parts : List Goal) :
      StaysIn Prod.snd ahead ((passWord text what ahead).map (parts, ·)) :=
    (staysIn_passWord text what ahead).map fun _ => rfl
  cases goal with
  | type =>
    cases ahead with
    | nil => exact List.suffix_rfl
    | cons t rest =>
      have hrest := List.suffix_cons t rest
      rw [Goal.step]
      split
      · exact ((suffix_dropWord "mut" _).trans (suffix_dropLifetime rest)).trans hrest
      · split
        · exact hrest
        · split
          · exact hrest
          · split
            · exact hrest
            · exact List.suffix_rfl
  | path => exact suffix_dropWord "::" ahead
  | segment =>
    cases ahead with
    | nil => exact List.suffix_rfl
    | cons t rest =>
      have hrest := List.suffix_cons t rest
      have hgroup := (staysIn_passGroup rest).mono hrest
      rw [Goal.step]
      split
      · exact List.suffix_rfl
      · split
        · exact hrest
        · split
          · split
            · next hfault => exact hgroup.of_error hfault
            · next hafter =>
              have hbehind := hgroup.of_ok hafter
              split
              · exact (List.tail_suffix _).trans hbehind
              · exact hbehind
          · exact hrest
  | pathRest =>
    rw [Goal.step]
    split
    · exact List.tail_suffix ahead
    · exact List.suffix_rfl
  | tupleElement =>
    rw [Goal.step]
    split
    · exact List.tail_suffix ahead
    · exact List.suffix_rfl
  | tupleRest =>
    rw [Goal.step]
    split
    · exact List.tail_suffix ahead
    · exact hword _ _ _
  | arrayRest =>
    have hlength := (staysIn_passUntil "]" ahead.tail).mono (List.tail_suffix ahead)
    rw [Goal.step]
    split
    · split
      · next hfault => exact hlength.of_error hfault
      · next hafter =>
        have hbehind := hlength.of_ok hafter
        split
        · exact hbehind
        · exact (List.tail_suffix _).trans hbehind
    · exact hword _ _ _
  | bound =>
    cases ahead with
    | nil => exact List.suffix_rfl
    | cons t rest =>
      rw [Goal.step]
      split
      · exact List.suffix_cons t rest
      · exact List.suffix_rfl
  | boundRest =>
    rw [Goal.step]
    split
    · exact List.tail_suffix ahead
    · exact List.suffix_rfl
  | arguments => exact hword _ _ _
  | argument =>
    cases ahead with
    | nil => exact List.suffix_rfl
    | cons t rest =>
      have hrest := List.suffix_cons t rest
      have hgroup := staysIn_passGroup (t :: rest)
      rw [Goal.step]
      split
      · exact hrest
      · split
        · exact hrest
        · split
          · split
            · next hfault => exact hgroup.of_error hfault
            · next hafter => exact hgroup.of_ok hafter
          · split
            · exact (List.tail_suffix rest).trans hrest
            · exact List.suffix_rfl
  | argumentRest =>
    rw [Goal.step]
    split
    · exact List.tail_suffix ahead
    · exact hword _ _ _

theorem staysIn_pass (goals : List Goal) (ahead : List Token) :
    StaysIn id ahead (Goal.pass goals ahead) := by
  fun_induction Goal.pass goals ahead with
  | case1 => exact List.suffix_rfl
  | case2 ahead goal later fault hstep => exact (staysIn_step goal ahead).of_error hstep
  | case3 ahead goal later parts rest hstep ih =>
    exact ih.mono ((staysIn_step goal ahead).of_ok hstep)

theorem staysIn_readType (ahead : List Token) : StaysIn Prod.snd ahead (readType ahead) := by
  cases ahead with
  | nil => exact List.suffix_rfl
  | cons t rest =>
    have hpass := staysIn_pass [.type] (t :: rest)
    rw [readType]
    split
    · next hfault => exact hpass.of_error hfault
    · next hafter => exact hpass.of_ok hafter

/-! ## Attributes -/

theorem staysIn_readSegments (what : String) (ahead : List Token) :
    StaysIn Prod.snd ahead (readSegments what ahead) := by
  fun_induction readSegments what ahead with
  | case1 => exact List.suffix_rfl
  | case2 => exact List.suffix_rfl
  | case3 => exact List.nil_suffix
  | case4 t _ separator more _ fault hmore ih =>
    exact ((ih.of_error hmore).trans (List.suffix_cons separator more)).trans (List.suffix_cons t _)
  | case5 t _ separator more _ path after hmore ih =>
    exact ((ih.of_ok hmore).trans (List.suffix_cons separator more)).trans (List.suffix_cons t _)
  | case6 t _ separator more => exact List.suffix_cons t (separator :: more)

theorem staysIn_readPath (what : String) (ahead : List Token) :
    StaysIn Prod.snd ahead (readPath what ahead) := by
  unfold readPath
  split
  · exact ((staysIn_readSegments what ahead.tail).mono (List.tail_suffix ahead)).map fun _ => rfl
  · exact staysIn_readSegments what ahead

theorem staysIn_readForm (ahead : List Token) : StaysIn Prod.snd ahead (readForm ahead) := by
  cases ahead with
  | nil => exact List.suffix_rfl
  | cons t rest =>
    have hvalue := (staysIn_passUntil "]" rest).mono (List.suffix_cons t rest)
    rw [readForm]
    split
    · exact (staysIn_passGroup (t :: rest)).map fun _ => rfl
    · split
      · split
        · next hfault => exact hvalue.of_error hfault
        · next hafter =>
          have hbehind := hvalue.of_ok hafter
          split
          · exact hbehind
          · exact hbehind
      · exact List.suffix_rfl

theorem staysIn_readAfterMark (mark : Token) (ahead : List Token) :
    StaysIn Prod.snd ahead (readAfterMark source mark ahead) := by
  unfold readAfterMark
  split
  · exact List.suffix_rfl
  · refine (staysIn_readWord "[" _ ahead).bind fun (_, inside) _ => ?_
    refine (staysIn_readPath _ inside).bind fun (_, afterPath) _ => ?_
    refine (staysIn_readForm afterPath).bind fun (_, atClose) _ => ?_
    exact (staysIn_readWord "]" _ atClose).bind fun _ _ => List.suffix_rfl

theorem staysIn_readAttribute (ahead : List Token) :
    StaysIn Prod.snd ahead (readAttribute source ahead) := by
  cases ahead with
  | nil => exact List.suffix_rfl
  | cons mark rest => exact (staysIn_readAfterMark mark rest).mono (List.suffix_cons mark rest)

theorem staysIn_readAttributes (ahead : List Token) :
    StaysIn Prod.snd ahead (readAttributes source ahead) := by
  fun_induction readAttributes source ahead with
  | case1 => exact List.suffix_rfl
  | case2 t rest _ fault hothers ih => exact (ih.of_error hothers).trans (List.suffix_cons t rest)
  | case3 t rest _ others after hothers ih =>
    exact (ih.of_ok hothers).trans (List.suffix_cons t rest)
  | case4 t rest _ _ fault hread =>
    exact ((staysIn_readAfterMark t rest).of_error hread).trans (List.suffix_cons t rest)
  | case5 t rest _ _ attr next hread fault hothers ih =>
    have hnext := (staysIn_readAfterMark t rest).of_ok hread
    exact ((ih.of_error hothers).trans hnext).trans (List.suffix_cons t rest)
  | case6 t rest _ _ attr next hread others after hothers ih =>
    have hnext := (staysIn_readAfterMark t rest).of_ok hread
    exact ((ih.of_ok hothers).trans hnext).trans (List.suffix_cons t rest)
  | case7 => exact List.suffix_rfl

/-! ## Names and blocks -/

theorem staysIn_readName (ahead : List Token) :
    StaysIn Prod.snd ahead (readName source ahead) := by
  have hattributes := @staysIn_readAttributes source ahead
  unfold readName
  split
  · next hfault => exact hattributes.of_error hfault
  · next hread => exact hattributes.of_ok hread
  · next t rest hread =>
    have hname := hattributes.of_ok hread
    split
    · exact hname
    · exact (List.suffix_cons t rest).trans hname

theorem staysIn_readNames (ahead : List Token) :
    StaysIn Prod.snd ahead (readNames source ahead) := by
  fun_induction readNames source ahead with
  | case1 => exact List.suffix_rfl
  | case2 ahead _ fault hread => exact (staysIn_readName ahead).of_error hread
  | case3 ahead _ name next hread _ fault hnames ih =>
    have hnext := (staysIn_readName ahead).of_ok hread
    exact ((ih.of_error hnames).trans (List.tail_suffix next)).trans hnext
  | case4 ahead _ name next hread _ names rest hnames ih =>
    have hnext := (staysIn_readName ahead).of_ok hread
    exact ((ih.of_ok hnames).trans (List.tail_suffix next)).trans hnext
  | case5 ahead _ name next hread _ => exact (staysIn_readName ahead).of_ok hread

theorem staysIn_readVisibility (ahead : List Token) :
    StaysIn Prod.snd ahead (readVisibility ahead) := by
  have htail := List.tail_suffix ahead
  have hbehind := (List.tail_suffix ahead.tail).trans htail
  unfold readVisibility
  split
  · exact List.suffix_rfl
  · split
    · exact htail
    · split
      · exact htail
      · next scope rest hscope =>
        have hrest : rest <:+ ahead := by
          rw [hscope] at hbehind
          exact (List.suffix_cons scope rest).trans hbehind
        split
        · exact (List.tail_suffix rest).trans hrest
        · split
          · have hpath := (staysIn_readPath "a module path" rest).mono hrest
            split
            · next hfault => exact hpath.of_error hfault
            · next path atClose hread =>
              exact ((staysIn_passWord ")" _ atClose).mono (hpath.of_ok hread)).map fun _ => rfl
          · exact htail

theorem staysIn_readBlock (ahead : List Token) :
    StaysIn Prod.snd ahead (readBlock source ahead) := by
  unfold readBlock
  refine (staysIn_readAttributes ahead).bind fun (_, atVisibility) _ => ?_
  refine (staysIn_readVisibility atVisibility).bind fun (_, atType) _ => ?_
  refine (staysIn_readType atType).bind fun (_, atNames) _ => ?_
  refine (staysIn_readWord _ _ atNames).bind fun (_, inside) _ => ?_
  refine (staysIn_readNames inside).bind fun (_, atClose) _ => ?_
  exact (staysIn_readWord _ _ atClose).bind fun _ _ => List.suffix_rfl

/-! ## Where the cursor stands -/

/-- What a reader of tokens can be asked for. -/
inductive Operation where
  | token
  /-- The token so many places further on, which is not gone past. -/
  | peek (places : Nat)
  /-- Whether that token is the word or punctuation `text`. -/
  | check (text : String) (places : Nat)
  | word (text what : String)
  | block
  | name
  | attributes
  /-- One attribute, whose mark may be any token. -/
  | marked
  | path (what : String)
  | group
  | upTo (stop : String)
  | visibility
  | type
  | bound
  | arguments

namespace Operation

/-- The tokens that are ahead behind an operation. -/
def pass (source : List Char) (ahead : List Token) : Operation → Except SyntaxFault (List Token)
  | .token => (readToken ahead).map Prod.snd
  | .peek _ | .check _ _ => .ok ahead
  | .word text what => passWord text what ahead
  | .block => (readBlock source ahead).map Prod.snd
  | .name => (readName source ahead).map Prod.snd
  | .attributes => (readAttributes source ahead).map Prod.snd
  | .marked => (readAttribute source ahead).map Prod.snd
  | .path what => (readPath what ahead).map Prod.snd
  | .group => passGroup ahead
  | .upTo stop => passUntil stop ahead
  | .visibility => (readVisibility ahead).map Prod.snd
  | .type => (readType ahead).map Prod.snd
  | .bound => Goal.pass [.bound] ahead
  | .arguments => Goal.pass [.arguments] ahead

/-- Whether an operation that succeeds goes past a token. -/
def takes : Operation → Bool
  | .token | .word _ _ | .block | .name | .marked | .path _ | .group | .type | .bound
  | .arguments => true
  | .peek _ | .check _ _ | .attributes | .upTo _ | .visibility => false

/-- The tokens that are ahead behind several operations, one after another. -/
def passAll (source : List Char) : List Operation → List Token → Except SyntaxFault (List Token)
  | [], ahead => .ok ahead
  | op :: later, ahead => (op.pass source ahead).bind (passAll source later)

theorem staysIn_pass (op : Operation) (ahead : List Token) :
    StaysIn id ahead (op.pass source ahead) := by
  cases op with
  | token => exact (staysIn_readToken ahead).map fun _ => rfl
  | peek => exact List.suffix_rfl
  | check => exact List.suffix_rfl
  | word text what => exact staysIn_passWord text what ahead
  | block => exact (staysIn_readBlock ahead).map fun _ => rfl
  | name => exact (staysIn_readName ahead).map fun _ => rfl
  | attributes => exact (staysIn_readAttributes ahead).map fun _ => rfl
  | marked => exact (staysIn_readAttribute ahead).map fun _ => rfl
  | path what => exact (staysIn_readPath what ahead).map fun _ => rfl
  | group => exact staysIn_passGroup ahead
  | upTo stop => exact staysIn_passUntil stop ahead
  | visibility => exact (staysIn_readVisibility ahead).map fun _ => rfl
  | type => exact (staysIn_readType ahead).map fun _ => rfl
  | bound => exact Microtypes.staysIn_pass [.bound] ahead
  | arguments => exact Microtypes.staysIn_pass [.arguments] ahead

/-- What goes past a token leaves fewer of them ahead. -/
theorem length_of_pass (op : Operation) (htakes : op.takes = true)
    (h : op.pass source ahead = .ok rest) : rest.length < ahead.length := by
  cases op with
  | token =>
    obtain ⟨_, hread⟩ := exists_of_map_snd h
    cases ahead with
    | nil => cases hread
    | cons t others =>
      cases hread
      simp
  | word text what =>
    have := length_of_passWord h
    omega
  | block =>
    obtain ⟨_, hread⟩ := exists_of_map_snd h
    exact length_of_readBlock hread
  | name =>
    obtain ⟨_, hread⟩ := exists_of_map_snd h
    exact length_of_readName hread
  | marked =>
    obtain ⟨_, hread⟩ := exists_of_map_snd h
    cases ahead with
    | nil => cases hread
    | cons mark others =>
      have := length_of_readAfterMark hread
      simp only [List.length_cons]
      omega
  | path what =>
    obtain ⟨_, hread⟩ := exists_of_map_snd h
    exact length_of_readPath hread
  | group => exact length_of_passGroup h
  | type =>
    obtain ⟨_, hread⟩ := exists_of_map_snd h
    exact length_of_readType hread
  | bound => exact (Goal.length_of_pass h).2 ⟨.bound, List.mem_singleton_self _, rfl⟩
  | arguments => exact (Goal.length_of_pass h).2 ⟨.arguments, List.mem_singleton_self _, rfl⟩
  | peek | check | attributes | upTo | visibility => cases htakes

end Operation

/-- What an operation may do where `cursor` of the tokens have been gone past: it goes on to a place
in range that is not further back, and past a token if it `takes` one, or it faults at such a
place. -/
inductive Moves (tokens : List Token) (cursor : Nat) (takes : Bool) :
    Except SyntaxFault (List Token) → Prop
  | forward {next : Nat} (hle : cursor ≤ next) (hend : next ≤ tokens.length)
      (htakes : takes = true → cursor < next) : Moves tokens cursor takes (.ok (tokens.drop next))
  | fault {cause : SyntaxCause} {place : Nat} (hle : cursor ≤ place)
      (hend : place ≤ tokens.length) : Moves tokens cursor takes (.error ⟨cause, tokens.drop place⟩)

theorem exists_place {tokens : List Token} {cursor : Nat} (hcursor : cursor ≤ tokens.length)
    (h : rest <:+ tokens.drop cursor) :
    ∃ place, cursor ≤ place ∧ place ≤ tokens.length ∧ rest = tokens.drop place := by
  have hlength := h.length_le
  rw [List.length_drop] at hlength
  refine ⟨tokens.length - rest.length, by omega, Nat.sub_le _ _, ?_⟩
  exact List.suffix_iff_eq_drop.mp (h.trans (List.drop_suffix cursor tokens))

theorem moves_pass {tokens : List Token} {cursor : Nat} (hcursor : cursor ≤ tokens.length)
    (op : Operation) :
    Moves tokens cursor op.takes (op.pass source (tokens.drop cursor)) := by
  have hstays := @Operation.staysIn_pass source op (tokens.drop cursor)
  cases hpass : op.pass source (tokens.drop cursor) with
  | error fault =>
    obtain ⟨place, hle, hend, hrest⟩ := exists_place hcursor (hstays.of_error hpass)
    obtain ⟨cause, rest⟩ := fault
    obtain rfl : rest = tokens.drop place := hrest
    exact .fault hle hend
  | ok rest =>
    obtain ⟨next, hle, hend, hrest⟩ := exists_place hcursor (hstays.of_ok hpass)
    obtain rfl : rest = tokens.drop next := hrest
    refine .forward hle hend fun htakes => ?_
    have hlength := op.length_of_pass htakes hpass
    simp only [List.length_drop] at hlength
    omega

/-- Several operations leave the cursor in range. -/
theorem suffix_of_passAll {ops : List Operation}
    (h : Operation.passAll source ops all = .ok ahead) : ahead <:+ all := by
  induction ops generalizing all with
  | nil =>
    cases h
    exact List.suffix_rfl
  | cons op later ih =>
    rw [Operation.passAll] at h
    cases hpass : op.pass source all with
    | error fault =>
      rw [hpass] at h
      cases h
    | ok next =>
      rw [hpass] at h
      exact (ih h).trans ((op.staysIn_pass all).of_ok hpass)

/-! ## Reading ends -/

/-- What meeting the goals comes to, after how many steps. -/
inductive Goal.EndsIn :
    Nat → List Goal → List Token → Except SyntaxFault (List Token) → Prop
  | done (ahead : List Token) : EndsIn 0 [] ahead (.ok ahead)
  | fault {goal : Goal} {later : List Goal} {ahead : List Token} {fault : SyntaxFault}
      (hstep : goal.step ahead = .error fault) : EndsIn 1 (goal :: later) ahead (.error fault)
  | step {n : Nat} {goal : Goal} {parts later : List Goal} {ahead rest : List Token}
      {result : Except SyntaxFault (List Token)} (hstep : goal.step ahead = .ok (parts, rest))
      (h : EndsIn n (parts ++ later) rest result) : EndsIn (n + 1) (goal :: later) ahead result

/-- A type takes no more steps than its goals and the tokens ahead weigh. -/
theorem endsIn_pass (goals : List Goal) (ahead : List Token) :
    ∃ n ≤ Goal.weight goals ahead, Goal.EndsIn n goals ahead (Goal.pass goals ahead) := by
  fun_induction Goal.pass goals ahead with
  | case1 ahead => exact ⟨0, Nat.zero_le _, .done ahead⟩
  | case2 ahead goal later fault hstep =>
    have hrank : 1 ≤ goal.rank := by cases goal <;> decide
    refine ⟨1, ?_, .fault hstep⟩
    simp only [Goal.weight, Goal.ranks]
    omega
  | case3 ahead goal later parts rest hstep ih =>
    obtain ⟨n, hn, hends⟩ := ih
    have hweight := Goal.weight_step hstep
    refine ⟨n + 1, ?_, .step hstep hends⟩
    simp only [Goal.weight, Goal.ranks_append, Goal.ranks] at *
    omega

/-- What reading the tokens up to their end comes to, after how many blocks. -/
inductive BlocksEndIn (source : List Char) :
    Nat → List Token → Except SyntaxFault (List Declaration) → Prop
  | done : BlocksEndIn source 0 [] (.ok [])
  | fault {ahead : List Token} {fault : SyntaxFault} (hahead : ahead ≠ [])
      (hblock : readBlock source ahead = .error fault) : BlocksEndIn source 1 ahead (.error fault)
  | block {n : Nat} {block : Declaration} {ahead rest : List Token}
      {others : Except SyntaxFault (List Declaration)} (hahead : ahead ≠ [])
      (hblock : readBlock source ahead = .ok (block, rest))
      (h : BlocksEndIn source n rest others) :
      BlocksEndIn source (n + 1) ahead (others.map (block :: ·))

/-- There are no more blocks than tokens. -/
theorem blocksEndIn_readBlocks (source : List Char) (ahead : List Token) :
    ∃ n ≤ ahead.length, BlocksEndIn source n ahead (readBlocks source ahead) := by
  fun_induction readBlocks source ahead with
  | case1 => exact ⟨0, Nat.le_refl _, .done⟩
  | case2 t others fault hblock =>
    exact ⟨1, by simp, .fault (List.cons_ne_nil _ _) hblock⟩
  | case3 t others block rest hblock fault hothers ih =>
    obtain ⟨n, hn, hends⟩ := ih
    rw [hothers] at hends
    have hlength := length_of_readBlock hblock
    exact ⟨n + 1, by omega, .block (List.cons_ne_nil _ _) hblock hends⟩
  | case4 t others block rest hblock blocks hothers ih =>
    obtain ⟨n, hn, hends⟩ := ih
    rw [hothers] at hends
    have hlength := length_of_readBlock hblock
    exact ⟨n + 1, by omega, .block (List.cons_ne_nil _ _) hblock hends⟩

/-- The tokens of a type begin where it is placed. -/
theorem exists_passed_of_pass (h : Goal.pass [.type] ahead = .ok rest) :
    ∃ first others, passed ahead rest = first :: others ∧
      readType ahead = .ok (⟨spelling (lexemes (first :: others)), first.location⟩, rest) := by
  have hlength := (Goal.length_of_pass h).2 ⟨.type, List.mem_singleton_self _, rfl⟩
  cases ahead with
  | nil => exact absurd hlength (Nat.not_lt_zero _)
  | cons first behind =>
    obtain ⟨n, hn⟩ : ∃ n, (first :: behind).length - rest.length = n + 1 :=
      Nat.exists_eq_add_one.mpr (Nat.sub_pos_of_lt hlength)
    have hpassed : passed (first :: behind) rest = first :: behind.take n := by
      rw [passed, hn, List.take_succ_cons]
    refine ⟨first, behind.take n, hpassed, ?_⟩
    rw [readType, h, ← hpassed]

/-- Behind any operations the cursor is in range; the next one never moves it back, and moves it
where it takes a token. Hence types and blocks are read in finitely many steps, and a type that is
read has a first token. -/
theorem advances_passAll :
    (∀ (source : List Char) (tokens : List Token) (ops : List Operation) (ahead : List Token),
      Operation.passAll source ops tokens = .ok ahead →
        ∃ cursor ≤ tokens.length, ahead = tokens.drop cursor ∧
          ∀ op : Operation, Moves tokens cursor op.takes (op.pass source ahead)) ∧
    (∀ (goals : List Goal) (ahead : List Token),
      ∃ n ≤ Goal.weight goals ahead, Goal.EndsIn n goals ahead (Goal.pass goals ahead)) ∧
    (∀ (source : List Char) (ahead : List Token),
      ∃ n ≤ ahead.length, BlocksEndIn source n ahead (readBlocks source ahead)) ∧
    (∀ ahead rest : List Token, Goal.pass [.type] ahead = .ok rest →
      ∃ first others, passed ahead rest = first :: others ∧
        readType ahead = .ok (⟨spelling (lexemes (first :: others)), first.location⟩, rest)) := by
  refine ⟨fun source tokens ops ahead h => ?_, endsIn_pass, blocksEndIn_readBlocks,
    fun _ _ => exists_passed_of_pass⟩
  obtain ⟨cursor, -, hend, hahead⟩ := exists_place (Nat.zero_le _) (suffix_of_passAll h)
  subst hahead
  exact ⟨cursor, hend, rfl, fun op => moves_pass hend op⟩

/-- The tokens of `pub(crate) &X` and an opening bracket. -/
def borrowedTokens : List Token :=
  [⟨⟨.ident, "pub"⟩, ⟨1, 1⟩, 0, 3⟩, ⟨⟨.punct, "("⟩, ⟨1, 4⟩, 3, 4⟩,
    ⟨⟨.ident, "crate"⟩, ⟨1, 5⟩, 4, 9⟩, ⟨⟨.punct, ")"⟩, ⟨1, 10⟩, 9, 10⟩,
    ⟨⟨.punct, "&"⟩, ⟨1, 12⟩, 11, 12⟩, ⟨⟨.ident, "X"⟩, ⟨1, 13⟩, 12, 13⟩,
    ⟨⟨.punct, "\x7b"⟩, ⟨1, 15⟩, 14, 15⟩]

theorem pass_borrowedTokens :
    Goal.pass [.type] (borrowedTokens.drop 4) = .ok (borrowedTokens.drop 6) :=
  pass_of_step rfl (pass_of_step rfl (pass_of_step rfl (pass_of_step rfl
    (pass_of_step rfl pass_nil))))

theorem passAll_borrowedTokens :
    Operation.passAll [] [.visibility, .type] borrowedTokens = .ok (borrowedTokens.drop 6) := by
  have hvisibility : Operation.pass [] borrowedTokens .visibility = .ok (borrowedTokens.drop 4) :=
    rfl
  have htype : Operation.pass [] (borrowedTokens.drop 4) .type = .ok (borrowedTokens.drop 6) := by
    obtain ⟨first, others, -, hread⟩ := exists_passed_of_pass pass_borrowedTokens
    rw [Operation.pass, hread]
    rfl
  rw [Operation.passAll, hvisibility]
  show Operation.passAll [] [.type] (borrowedTokens.drop 4) = .ok (borrowedTokens.drop 6)
  rw [Operation.passAll, htype]
  rfl

/-- A restricted visibility takes four tokens at once, and the type behind it two. -/
theorem advances_passAll_borrowed :
    (Operation.passAll [] [.visibility, .type] borrowedTokens = .ok (borrowedTokens.drop 6) ∧
      ∃ cursor ≤ 7, borrowedTokens.drop 6 = borrowedTokens.drop cursor ∧
        ∀ op : Operation,
          Moves borrowedTokens cursor op.takes (op.pass [] (borrowedTokens.drop 6))) ∧
    Goal.pass [.type] (borrowedTokens.drop 4) = .ok (borrowedTokens.drop 6) ∧
      ∃ first others, passed (borrowedTokens.drop 4) (borrowedTokens.drop 6) = first :: others ∧
        readType (borrowedTokens.drop 4) =
          .ok (⟨spelling (lexemes (first :: others)), first.location⟩, borrowedTokens.drop 6) := by
  obtain ⟨hmoves, -, -, htype⟩ := advances_passAll
  exact ⟨⟨passAll_borrowedTokens, hmoves _ _ _ _ passAll_borrowedTokens⟩, pass_borrowedTokens,
    htype _ _ pass_borrowedTokens⟩

end Microtypes
