import Microtypes.Proofs.Grammar.Group

/-!
# Types that are read are derived

Types are read by a stack of goals, so the grammar of types is extended to goals: a step goes past
the beginning of what its goal asks for and leaves the rest to the goals it opens.
-/

namespace Microtypes

open Lexeme (punct ident)

namespace Goal

/-- What a goal asks for. -/
def Meets : Goal → List Lexeme → Prop
  | .type, ts => Derives .type ts
  | .path, ts => Derives .path ts
  | .segment, ts =>
    ∃ segments, segments ≠ [] ∧ (∀ s ∈ segments, Derives .segment s) ∧
      ts = separated (punct "::") false segments
  | .pathRest, ts =>
    ∃ segments, (∀ s ∈ segments, Derives .segment s) ∧ ts = continued (punct "::") false segments
  | .tupleElement, ts =>
    ∃ trailing elements, (∀ e ∈ elements, Derives .type e) ∧
      ts = separated (punct ",") trailing elements ++ [punct ")"]
  | .tupleRest, ts =>
    ∃ trailing elements, (∀ e ∈ elements, Derives .type e) ∧
      ts = continued (punct ",") trailing elements ++ [punct ")"]
  | .arrayRest, ts =>
    ts = [punct "]"] ∨ ∃ length, IsValue length ∧ ts = punct ";" :: length ++ [punct "]"]
  | .bound, ts => Derives .bound ts
  | .boundRest, ts =>
    ∃ bounds, (∀ b ∈ bounds, Derives .bound b) ∧ ts = continued (punct "+") false bounds
  | .arguments, ts => Derives .arguments ts
  | .argument, ts =>
    ∃ trailing arguments, (∀ a ∈ arguments, Derives .argument a) ∧
      ts = separated (punct ",") trailing arguments ++ [punct ">"]
  | .argumentRest, ts =>
    ∃ trailing arguments, (∀ a ∈ arguments, Derives .argument a) ∧
      ts = continued (punct ",") trailing arguments ++ [punct ">"]

/-- What several goals ask for, one after another. -/
def MeetsAll : List Goal → List Lexeme → Prop
  | [], ts => ts = []
  | goal :: later, ts => ∃ first rest, goal.Meets first ∧ MeetsAll later rest ∧ ts = first ++ rest

theorem meetsAll_append {parts later : List Goal} {ts : List Lexeme}
    (h : MeetsAll (parts ++ later) ts) :
    ∃ first rest, MeetsAll parts first ∧ MeetsAll later rest ∧ ts = first ++ rest := by
  induction parts generalizing ts with
  | nil => exact ⟨[], ts, rfl, h, rfl⟩
  | cons goal parts ih =>
    obtain ⟨a, b, ha, hb, rfl⟩ := h
    obtain ⟨c, d, hc, hd, rfl⟩ := ih hb
    exact ⟨a ++ c, d, ⟨a, c, ha, hc, rfl⟩, hd, (List.append_assoc ..).symm⟩

theorem meetsAll_singleton {goal : Goal} {ts : List Lexeme} (h : MeetsAll [goal] ts) :
    goal.Meets ts := by
  obtain ⟨a, b, ha, rfl, rfl⟩ := h
  rwa [List.append_nil]

theorem meetsAll_pair {first second : Goal} {ts : List Lexeme} (h : MeetsAll [first, second] ts) :
    ∃ a b, first.Meets a ∧ second.Meets b ∧ ts = a ++ b := by
  obtain ⟨a, rest, ha, ⟨b, c, hb, rfl, rfl⟩, rfl⟩ := h
  exact ⟨a, b, ha, hb, by rw [List.append_nil]⟩

/-- A step goes past the beginning of what its goal asks for: whatever meets the goals that it opens
completes it. -/
def Completes (goal : Goal) (ahead : List Token) (parts : List Goal) (rest : List Token) : Prop :=
  ∃ taken, lexemes ahead = taken ++ lexemes rest ∧
    ∀ ts, ts <+: lexemes rest → MeetsAll parts ts → goal.Meets (taken ++ ts)

theorem lexemes_dropLifetime (ahead : List Token) :
    ∃ lifetime : Option Lexeme, (∀ l ∈ lifetime, l.kind = .lifetime) ∧
      lexemes ahead = lifetime.toList ++ lexemes (dropLifetime ahead) := by
  cases ahead with
  | nil => exact ⟨none, by simp, rfl⟩
  | cons t rest =>
    by_cases hk : t.kind = .lifetime
    · refine ⟨some t.toLexeme, ?_, ?_⟩
      · rintro l ⟨⟩
        exact hk
      · simp [dropLifetime, hk]
    · exact ⟨none, by simp, by simp [dropLifetime, hk]⟩

theorem completes_type {ahead rest : List Token} {parts : List Goal}
    (hp : ∀ t ∈ lexemes ahead, t.Proper) (h : step .type ahead = .ok (parts, rest)) :
    Completes .type ahead parts rest := by
  cases ahead with
  | nil => cases h
  | cons t others =>
    simp only [step] at h
    split at h
    · next hamp =>
      cases h
      obtain ⟨lifetime, hl, hlex⟩ := lexemes_dropLifetime others
      have hp' := forall_of_passed (fun u hu => hp u (.tail _ hu)) hlex
      obtain ⟨mutable, hmut⟩ : ∃ mutable : Bool, lexemes (dropLifetime others) =
          (if mutable then [ident "mut"] else []) ++
            lexemes (dropWord "mut" (dropLifetime others)) := by
        unfold dropWord
        split
        · next hm =>
          obtain ⟨u, us, hu, hw⟩ := exists_of_startsWith hm
          rw [hu] at hp' ⊢
          refine ⟨true, ?_⟩
          rw [lexemes_cons, (hp' _ List.mem_cons_self).eq_ident hw rfl]
          rfl
        · exact ⟨false, rfl⟩
      refine ⟨punct "&" :: lifetime.toList ++ (if mutable then [ident "mut"] else []), ?_,
        fun ts _ hts => .reference lifetime mutable hl (meetsAll_singleton hts)⟩
      rw [lexemes_cons, eq_punct_of_isPunct hamp, hlex, hmut]
      simp
    · split at h
      · next hround =>
        cases h
        refine ⟨[punct "("], by rw [lexemes_cons, eq_punct_of_isPunct hround]; rfl,
          fun ts _ hts => ?_⟩
        obtain ⟨trailing, elements, hall, rfl⟩ := meetsAll_singleton hts
        exact .tuple trailing hall
      · split at h
        · next hsquare =>
          cases h
          refine ⟨[punct "["], by rw [lexemes_cons, eq_punct_of_isPunct hsquare]; rfl,
            fun ts _ hts => ?_⟩
          obtain ⟨element, close, helement, rfl | ⟨length, hlength, rfl⟩, rfl⟩ := meetsAll_pair hts
          · exact .slice helement
          · have harray := Derives.array helement hlength
            show Derives .type _
            simpa using harray
        · split at h
          · next hdyn =>
            cases h
            refine ⟨[ident "dyn"], by rw [lexemes_cons, eq_ident_of_isIdent hdyn]; rfl,
              fun ts _ hts => ?_⟩
            obtain ⟨bound, others, hbound, ⟨bounds, hbounds, rfl⟩, rfl⟩ := meetsAll_pair hts
            have hall := List.forall_mem_cons.mpr ⟨hbound, hbounds⟩
            exact Derives.traitObject (List.cons_ne_nil bound bounds) hall
          · next hdyn =>
            cases h
            refine ⟨[], rfl, fun ts hprefix hts => .named (meetsAll_singleton hts) ?_⟩
            -- The path begins with the token ahead, which is not `dyn`.
            intro hhead
            cases ts with
            | nil => cases hhead
            | cons u us =>
              cases hhead
              rw [lexemes_cons, List.cons_prefix_cons] at hprefix
              rw [← hprefix.1] at hdyn
              exact hdyn rfl

theorem completes_path {ahead rest : List Token} {parts : List Goal}
    (hp : ∀ t ∈ lexemes ahead, t.Proper) (h : step .path ahead = .ok (parts, rest)) :
    Completes .path ahead parts rest := by
  cases h
  unfold dropWord
  split
  · next hroot =>
    refine ⟨[punct "::"], lexemes_of_startsWith hroot hp rfl, fun ts _ hts => ?_⟩
    obtain ⟨segments, hne, hall, rfl⟩ := meetsAll_singleton hts
    exact .path true hne hall
  · refine ⟨[], rfl, fun ts _ hts => ?_⟩
    obtain ⟨segments, hne, hall, rfl⟩ := meetsAll_singleton hts
    exact .path false hne hall

theorem meets_segment {s ts : List Lexeme} (hs : Derives .segment s) (hr : Meets .pathRest ts) :
    Meets .segment (s ++ ts) := by
  obtain ⟨segments, hall, rfl⟩ := hr
  exact ⟨s :: segments, by simp, List.forall_mem_cons.mpr ⟨hs, hall⟩, rfl⟩

theorem completes_segment {ahead rest : List Token} {parts : List Goal}
    (hp : ∀ t ∈ lexemes ahead, t.Proper) (h : step .segment ahead = .ok (parts, rest)) :
    Completes .segment ahead parts rest := by
  cases ahead with
  | nil => cases h
  | cons t others =>
    simp only [step] at h
    split at h
    · cases h
    · next hword =>
      obtain ⟨hk, ht⟩ : t.kind = .ident ∧ t.text ∉ unpathedWords := by
        simpa only [not_or, not_not] using hword
      split at h
      · cases h
        refine ⟨[t.toLexeme], rfl, fun ts _ hts => ?_⟩
        obtain ⟨arguments, more, harguments, hmore, rfl⟩ := meetsAll_pair hts
        rw [← List.append_assoc]
        exact meets_segment (.generic hk ht harguments) hmore
      · split at h
        · next hround =>
          cases hgroup : passGroup others with
          | error fault => rw [hgroup] at h; cases h
          | ok after =>
            rw [hgroup] at h
            simp only at h
            obtain ⟨group, hg, hlex⟩ := isGroup_of_startsWith (d := .round) hround hgroup
            have hp' := forall_of_passed (fun u hu => hp u (.tail _ hu)) hlex
            split at h
            · next harrow =>
              cases h
              refine ⟨t.toLexeme :: group ++ [punct "->"], ?_, fun ts _ hts => ?_⟩
              · rw [lexemes_cons, hlex, lexemes_of_startsWith harrow hp' rfl]
                simp
              · obtain ⟨result, more, hresult, hmore, rfl⟩ := meetsAll_pair hts
                have := meets_segment (.callTo hk ht hg hresult) hmore
                simpa using this
            · cases h
              refine ⟨t.toLexeme :: group, by rw [lexemes_cons, hlex]; rfl, fun ts _ hts => ?_⟩
              exact meets_segment (.call hk ht hg) (meetsAll_singleton hts)
        · cases h
          refine ⟨[t.toLexeme], rfl, fun ts _ hts => ?_⟩
          exact meets_segment (.word hk ht) (meetsAll_singleton hts)

theorem completes_pathRest {ahead rest : List Token} {parts : List Goal}
    (hp : ∀ t ∈ lexemes ahead, t.Proper) (h : step .pathRest ahead = .ok (parts, rest)) :
    Completes .pathRest ahead parts rest := by
  simp only [step] at h
  split at h
  · next hsep =>
    cases h
    refine ⟨[punct "::"], lexemes_of_startsWith hsep hp rfl, fun ts _ hts => ?_⟩
    obtain ⟨segments, hne, hall, rfl⟩ := meetsAll_singleton hts
    cases segments with
    | nil => exact absurd rfl hne
    | cons s segments => exact ⟨s :: segments, hall, rfl⟩
  · cases h
    exact ⟨[], rfl, fun ts _ hts => ⟨[], by simp, hts⟩⟩

theorem completes_tupleElement {ahead rest : List Token} {parts : List Goal}
    (hp : ∀ t ∈ lexemes ahead, t.Proper) (h : step .tupleElement ahead = .ok (parts, rest)) :
    Completes .tupleElement ahead parts rest := by
  simp only [step] at h
  split at h
  · next hclose =>
    cases h
    refine ⟨[punct ")"], lexemes_of_startsWith hclose hp rfl, ?_⟩
    rintro ts - rfl
    exact ⟨false, [], by simp, rfl⟩
  · cases h
    refine ⟨[], rfl, fun ts _ hts => ?_⟩
    obtain ⟨element, more, helement, ⟨trailing, elements, hall, rfl⟩, rfl⟩ := meetsAll_pair hts
    exact ⟨trailing, element :: elements, List.forall_mem_cons.mpr ⟨helement, hall⟩,
      by simp [separated]⟩

theorem completes_tupleRest {ahead rest : List Token} {parts : List Goal}
    (hp : ∀ t ∈ lexemes ahead, t.Proper) (h : step .tupleRest ahead = .ok (parts, rest)) :
    Completes .tupleRest ahead parts rest := by
  simp only [step] at h
  split at h
  · next hcomma =>
    cases h
    refine ⟨[punct ","], lexemes_of_startsWith hcomma hp rfl, fun ts _ hts => ?_⟩
    obtain ⟨trailing, elements, hall, rfl⟩ := meetsAll_singleton hts
    cases elements with
    | nil => exact ⟨true, [], by simp, rfl⟩
    | cons e elements => exact ⟨trailing, e :: elements, hall, rfl⟩
  · obtain ⟨rfl, hlex⟩ := lexemes_of_map_passWord h hp rfl
    refine ⟨[punct ")"], hlex, ?_⟩
    rintro ts - rfl
    exact ⟨false, [], by simp, rfl⟩

theorem completes_arrayRest {ahead rest : List Token} {parts : List Goal}
    (hp : ∀ t ∈ lexemes ahead, t.Proper) (h : step .arrayRest ahead = .ok (parts, rest)) :
    Completes .arrayRest ahead parts rest := by
  simp only [step] at h
  split at h
  · next hsemi =>
    have hlex := lexemes_of_startsWith hsemi hp rfl
    cases huntil : passUntil "]" ahead.tail with
    | error fault => rw [huntil] at h; cases h
    | ok after =>
      rw [huntil] at h
      simp only at h
      split at h
      · cases h
      · next hlength =>
        cases h
        obtain ⟨value, hvalue, hbalanced, hclose⟩ := balanced_of_passUntil huntil
        have hptail : ∀ t ∈ lexemes ahead.tail, t.Proper := fun u hu => hp u (hlex ▸ .tail _ hu)
        have hp' := forall_of_passed hptail hvalue
        have hne : value ≠ [] := by
          rintro rfl
          have := congrArg List.length hvalue
          simp only [length_lexemes, List.nil_append] at this
          exact hlength this.symm
        refine ⟨punct ";" :: value ++ [punct "]"], ?_, ?_⟩
        · rw [hlex, hvalue, lexemes_of_startsWith hclose hp' rfl]
          simp
        · rintro ts - rfl
          rw [List.append_nil]
          exact .inr ⟨value, ⟨hbalanced, hne⟩, rfl⟩
  · obtain ⟨rfl, hlex⟩ := lexemes_of_map_passWord h hp rfl
    refine ⟨[punct "]"], hlex, ?_⟩
    rintro ts - rfl
    exact .inl rfl

theorem completes_bound {ahead rest : List Token} {parts : List Goal}
    (h : step .bound ahead = .ok (parts, rest)) : Completes .bound ahead parts rest := by
  cases ahead with
  | nil =>
    cases h
    exact ⟨[], rfl, fun ts _ hts => .pathBound (meetsAll_singleton hts)⟩
  | cons t others =>
    simp only [step] at h
    split at h
    · next hk =>
      cases h
      refine ⟨[t.toLexeme], rfl, ?_⟩
      rintro ts - rfl
      exact .lifetimeBound hk
    · cases h
      exact ⟨[], rfl, fun ts _ hts => .pathBound (meetsAll_singleton hts)⟩

theorem completes_boundRest {ahead rest : List Token} {parts : List Goal}
    (hp : ∀ t ∈ lexemes ahead, t.Proper) (h : step .boundRest ahead = .ok (parts, rest)) :
    Completes .boundRest ahead parts rest := by
  simp only [step] at h
  split at h
  · next hplus =>
    cases h
    refine ⟨[punct "+"], lexemes_of_startsWith hplus hp rfl, fun ts _ hts => ?_⟩
    obtain ⟨bound, more, hbound, ⟨bounds, hbounds, rfl⟩, rfl⟩ := meetsAll_pair hts
    exact ⟨bound :: bounds, List.forall_mem_cons.mpr ⟨hbound, hbounds⟩, rfl⟩
  · cases h
    exact ⟨[], rfl, fun ts _ hts => ⟨[], by simp, hts⟩⟩

theorem completes_arguments {ahead rest : List Token} {parts : List Goal}
    (hp : ∀ t ∈ lexemes ahead, t.Proper) (h : step .arguments ahead = .ok (parts, rest)) :
    Completes .arguments ahead parts rest := by
  obtain ⟨rfl, hlex⟩ := lexemes_of_map_passWord h hp rfl
  refine ⟨[punct "<"], hlex, fun ts _ hts => ?_⟩
  obtain ⟨trailing, arguments, hall, rfl⟩ := meetsAll_singleton hts
  exact .arguments trailing hall

theorem meets_argument {a ts : List Lexeme} (ha : Derives .argument a)
    (hr : Meets .argumentRest ts) : Meets .argument (a ++ ts) := by
  obtain ⟨trailing, arguments, hall, rfl⟩ := hr
  exact ⟨trailing, a :: arguments, List.forall_mem_cons.mpr ⟨ha, hall⟩, by simp [separated]⟩

theorem completes_argument {ahead rest : List Token} {parts : List Goal}
    (hp : ∀ t ∈ lexemes ahead, t.Proper) (h : step .argument ahead = .ok (parts, rest)) :
    Completes .argument ahead parts rest := by
  cases ahead with
  | nil => cases h
  | cons t others =>
    simp only [step] at h
    split at h
    · next hclose =>
      have hstart : startsWith (t :: others) ">" = true := hclose
      have hlex := lexemes_of_startsWith hstart hp rfl
      cases h
      refine ⟨[punct ">"], hlex, ?_⟩
      rintro ts - rfl
      exact ⟨false, [], by simp, rfl⟩
    · split at h
      · next hk =>
        cases h
        refine ⟨[t.toLexeme], rfl, fun ts _ hts => ?_⟩
        exact meets_argument (.plainArgument hk) (meetsAll_singleton hts)
      · split at h
        · next hcurly =>
          cases hgroup : passGroup (t :: others) with
          | error fault => rw [hgroup] at h; cases h
          | ok after =>
            rw [hgroup] at h
            cases h
            have hstart : startsWith (t :: others) Delimiter.curly.opener = true :=
              isWord_of_isPunct hcurly
            obtain ⟨group, hg, hlex⟩ := isGroup_of_startsWith hstart hgroup
            refine ⟨group, hlex, fun ts _ hts => ?_⟩
            exact meets_argument (.groupArgument hg) (meetsAll_singleton hts)
        · split at h
          · next hbinding =>
            obtain ⟨hk, hequals⟩ := hbinding
            cases h
            have hp' : ∀ t ∈ lexemes others, t.Proper := fun u hu => hp u (.tail _ hu)
            refine ⟨[t.toLexeme, punct "="], ?_, fun ts _ hts => ?_⟩
            · rw [lexemes_cons, lexemes_of_startsWith hequals hp' rfl]
              rfl
            · obtain ⟨value, more, hvalue, hmore, rfl⟩ := meetsAll_pair hts
              rw [← List.append_assoc]
              exact meets_argument (.binding hk hvalue) hmore
          · cases h
            refine ⟨[], rfl, fun ts _ hts => ?_⟩
            obtain ⟨type, more, htype, hmore, rfl⟩ := meetsAll_pair hts
            rw [List.nil_append]
            exact meets_argument (.typeArgument htype) hmore

theorem completes_argumentRest {ahead rest : List Token} {parts : List Goal}
    (hp : ∀ t ∈ lexemes ahead, t.Proper) (h : step .argumentRest ahead = .ok (parts, rest)) :
    Completes .argumentRest ahead parts rest := by
  simp only [step] at h
  split at h
  · next hcomma =>
    cases h
    refine ⟨[punct ","], lexemes_of_startsWith hcomma hp rfl, fun ts _ hts => ?_⟩
    obtain ⟨trailing, arguments, hall, rfl⟩ := meetsAll_singleton hts
    cases arguments with
    | nil => exact ⟨true, [], by simp, rfl⟩
    | cons a arguments => exact ⟨trailing, a :: arguments, hall, rfl⟩
  · obtain ⟨rfl, hlex⟩ := lexemes_of_map_passWord h hp rfl
    refine ⟨[punct ">"], hlex, ?_⟩
    rintro ts - rfl
    exact ⟨false, [], by simp, rfl⟩

theorem completes_of_step {goal : Goal} {ahead rest : List Token} {parts : List Goal}
    (hp : ∀ t ∈ lexemes ahead, t.Proper) (h : step goal ahead = .ok (parts, rest)) :
    Completes goal ahead parts rest := by
  cases goal with
  | type => exact completes_type hp h
  | path => exact completes_path hp h
  | segment => exact completes_segment hp h
  | pathRest => exact completes_pathRest hp h
  | tupleElement => exact completes_tupleElement hp h
  | tupleRest => exact completes_tupleRest hp h
  | arrayRest => exact completes_arrayRest hp h
  | bound => exact completes_bound h
  | boundRest => exact completes_boundRest hp h
  | arguments => exact completes_arguments hp h
  | argument => exact completes_argument hp h
  | argumentRest => exact completes_argumentRest hp h

/-- What several goals go past is what they ask for. -/
theorem meetsAll_of_pass {goals : List Goal} {ahead rest : List Token}
    (hp : ∀ t ∈ lexemes ahead, t.Proper) (h : pass goals ahead = .ok rest) :
    ∃ ts, lexemes ahead = ts ++ lexemes rest ∧ MeetsAll goals ts := by
  fun_induction pass goals ahead with
  | case1 => cases h; exact ⟨[], rfl, rfl⟩
  | case2 => cases h
  | case3 ahead goal later parts next hstep ih =>
    obtain ⟨taken, hlex, hcompletes⟩ := completes_of_step hp hstep
    obtain ⟨ts, hts, hmeets⟩ := ih (fun u hu => hp u (by rw [hlex]; simp [hu])) h
    obtain ⟨first, others, hfirst, hothers, rfl⟩ := meetsAll_append hmeets
    refine ⟨taken ++ first ++ others, ?_, taken ++ first, others, ?_, hothers, rfl⟩
    · rw [hlex, hts]
      simp
    · refine hcompletes first ?_ hfirst
      rw [hts, List.append_assoc]
      exact List.prefix_append ..

end Goal

/-- A type that is read is derived, and its text is the spelling of its lexemes. -/
theorem derives_of_readType {ahead rest : List Token} {type : WrittenType}
    (hp : ∀ t ∈ lexemes ahead, t.Proper) (h : readType ahead = .ok (type, rest)) :
    ∃ ts, lexemes ahead = ts ++ lexemes rest ∧ Derives .type ts ∧ type.text = spelling ts := by
  cases ahead with
  | nil => cases h
  | cons first others =>
    simp only [readType] at h
    split at h
    · cases h
    · next hpass =>
      cases h
      obtain ⟨ts, hts, hmeets⟩ := Goal.meetsAll_of_pass hp hpass
      exact ⟨ts, hts, Goal.meetsAll_singleton hmeets, by rw [lexemes_passed hts]⟩

end Microtypes
