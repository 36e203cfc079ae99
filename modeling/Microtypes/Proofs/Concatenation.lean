import Microtypes.Proofs.Displacement
import Microtypes.Proofs.Expansion
import Microtypes.Proofs.Grammar.Extension

/-!
# One source below another

A source whose blocks can be read ends with a complete block, and a line end ends every token. So
where another source is put below it, both are expanded as if they stood alone
(`concatenated_of_readSource`).
-/

namespace Microtypes

open Lexeme (punct ident)

variable {upper lower : String} {features : Features} {blocks : List Declaration}

/-- What comes from one expansion and then from another one. -/
def Expansion.append (e f : Expansion) : Expansion where
  declarations := e.declarations ++ f.declarations
  specs := e.specs ++ f.specs
  results := e.results ++ f.results

/-- By how many lines a source moves down below `upper`. -/
def linesAbove (upper : String) : Nat := upper.toList.count '\n' + 1

/-- How many characters there are in front of a source below `upper`. -/
def charsAbove (upper : String) : Nat := upper.toList.length + 1

/-- The tokens of a source and those that stand for them below `upper`. -/
def likenessBelow (upper lower : String) :
    Likeness lower.toList (upper.toList ++ ['\n'] ++ lower.toList ++ []) :=
  placedBetween (linesAbove upper) (upper.toList ++ ['\n']) lower.toList []

theorem toList_between (upper lower : String) :
    upper.toList ++ ['\n'] ++ lower.toList ++ [] = (upper ++ "\n" ++ lower).toList := by
  simp

theorem readSource_of_fault {source : String} {ts : List Token} {fault : SyntaxFault}
    (hts : sourceTokens source = .ok ts) (h : readBlocks source.toList ts = .error fault) :
    readSource source = .error (.problem (fault.problem (.ofEnd source.toList))) := by
  unfold readSource
  rw [hts]
  simp only [bind, Except.bind, h]
  rfl

/-- Below a source that can be read, the tokens of another one are read by themselves. -/
theorem readSource_below {us : List Token} (hupper : readSource upper = .ok blocks)
    (hus : sourceTokens lower = .ok us) :
    Agree (Stop.Alike (likenessBelow upper lower))
      (fun below all => ∃ below', all = blocks ++ below' ∧
        List.Forall₂ (Declaration.Alike (likenessBelow upper lower)) below below')
      (readSource lower) (readSource (upper ++ "\n" ++ lower)) := by
  obtain ⟨ts, hts, hread⟩ := readBlocks_of_readSource hupper
  have hwithin {source : String} {ts : List Token} (h : sourceTokens source = .ok ts) :
      ∀ t ∈ ts, t.stop ≤ source.toList.length :=
    fun t ht => ((tiles_of_sourceTokens h).standsIn t ht).within
  have hkept := readBlocks_within hread (hwithin hts) ('\n' :: lower.toList)
  rw [← toList_below] at hkept
  have htokens := sourceTokens_below hts hus
  have hlength : upper.toList.length + 1 = (upper.toList ++ ['\n']).length := by simp
  rw [hlength] at htokens
  have hlower := Likeness.reads_blocks (@tokens_placedBetween (linesAbove upper)
    (upper.toList ++ ['\n']) lower.toList [] us (hwithin hus))
  obtain ⟨below, below', hbelow, hbelow', halike⟩ | ⟨fault, fault', hfault, hfault', halike⟩ :=
    hlower.cases
  · rw [toList_between] at hbelow'
    have hall : readBlocks (upper ++ "\n" ++ lower).toList (ts ++ us.map
        (.moved (linesAbove upper) (upper.toList ++ ['\n']).length)) = .ok (blocks ++ below') := by
      rw [readBlocks_append hkept, hbelow']
      rfl
    rw [readSource_of_readBlocks hus hbelow, readSource_of_readBlocks htokens hall]
    exact .ok ⟨below', rfl, halike⟩
  · rw [toList_between] at hfault'
    have hall : readBlocks (upper ++ "\n" ++ lower).toList (ts ++ us.map
        (.moved (linesAbove upper) (upper.toList ++ ['\n']).length)) = .error fault' := by
      rw [readBlocks_append hkept, hfault']
      rfl
    rw [readSource_of_fault hus hfault, readSource_of_fault htokens hall]
    refine .error (.problem (Likeness.problem_of_fault halike ?_))
    rw [toList_below]
    exact Location.ofEnd_below ..

theorem readSource_below_error {problem : Problem} (hupper : readSource upper = .ok blocks)
    (hlower : readSource lower = .error (.problem problem)) :
    readSource (upper ++ "\n" ++ lower) = .error (.problem (problem.down (linesAbove upper))) := by
  cases hus : sourceTokens lower with
  | ok us =>
    obtain ⟨_, _, hread, -⟩ | ⟨_, _, hread, hread', hstop⟩ := (readSource_below hupper hus).cases
    · rw [hlower] at hread
      cases hread
    · rw [hlower] at hread
      cases hread
      obtain ⟨cause, location⟩ := problem
      cases hstop with
      | @problem _ problem' hproblem =>
        obtain ⟨cause', location'⟩ := problem'
        obtain ⟨rfl, rfl⟩ := hproblem
        exact hread'
  | error stop =>
    have hstop : stop = .problem problem := by
      rw [readSource, hus] at hlower
      cases hlower
      rfl
    subst hstop
    obtain ⟨ts, hts, -⟩ := readBlocks_of_readSource hupper
    rw [readSource, sourceTokens_below_error hts hus]
    rfl

/-! ## Expansions -/

/-- What the expansions of two sources have to do with that of one below the other. -/
structure Concatenated (upper lower : String) (features : Features) (e f : Expansion) : Prop where
  /-- If the lower one can be read, its blocks, specifications and results follow those of the upper
  one. -/
  follows {below : List Declaration} (h : readSource lower = .ok below) :
    Expansion.ofSource (upper ++ "\n" ++ lower) features =
      .ok (e.append (f.moved (linesAbove upper) (charsAbove upper)))
  /-- If it is refused, then so are both together, for the same problem. -/
  refused {problem : Problem} (h : readSource lower = .error (.problem problem)) :
    f = ⟨[], [], [.failed (problem.diagnostic none)]⟩ ∧
      Expansion.ofSource (upper ++ "\n" ++ lower) features =
        .ok ⟨[], [], [.failed ((problem.diagnostic none).down (linesAbove upper))]⟩

/-- Below a source that can be read, another one is expanded as if it stood alone. -/
theorem concatenated_of_readSource {e f : Expansion} (hupper : readSource upper = .ok blocks)
    (he : Expansion.ofSource upper features = .ok e)
    (hf : Expansion.ofSource lower features = .ok f) : Concatenated upper lower features e f where
  follows := by
    intro below hlower
    obtain ⟨results, hresults, rfl⟩ := results_of_ofSource hupper he
    obtain ⟨resultsBelow, hbelow, rfl⟩ := results_of_ofSource hlower hf
    obtain ⟨us, hus, -⟩ := readBlocks_of_readSource hlower
    obtain ⟨_, all, hread, hall, below', rfl, halike⟩ | ⟨_, _, hread, -⟩ :=
      (readSource_below hupper hus).cases
    · rw [hlower] at hread
      cases hread
      have hchars : (upper.toList ++ ['\n']).length = charsAbove upper := by simp [charsAbove]
      have hblocks := eq_map_of_forall₂ halike Declaration.Alike.eq_moved
      obtain ⟨hspecs, hmoved⟩ := results_moved halike hbelow
      rw [hchars] at hblocks hspecs
      have hboth : specsOf (blocks ++ below') = specsOf blocks ++ specsOf below' :=
        List.flatMap_append
      have hjoined : (specsOf (blocks ++ below')).mapM (expandSpec features) =
          .ok (results ++ resultsBelow.map (.down (linesAbove upper))) := by
        rw [hboth, List.mapM_append, hresults, hmoved]
        rfl
      rw [ofSource_of_readSource hall, hjoined, hboth, hspecs, hblocks]
      rfl
    · rw [hlower] at hread
      cases hread
  refused := by
    intro problem hlower
    rw [Expansion.ofSource, hlower] at hf
    cases hf
    rw [Expansion.ofSource, readSource_below_error hupper hlower]
    exact ⟨rfl, rfl⟩

/-- The tokens of a block with one name. -/
def pairTokens : List Token :=
  [⟨ident "A", ⟨1, 1⟩, 0, 1⟩, ⟨punct "\x7b", ⟨1, 2⟩, 1, 2⟩, ⟨ident "B", ⟨1, 3⟩, 2, 3⟩,
    ⟨punct "\x7d", ⟨1, 4⟩, 3, 4⟩]

/-- The block that is read from them. -/
def pairBlock : Declaration :=
  ⟨[], ⟨"A", ⟨1, 1⟩⟩, "", [⟨"B", [], ⟨1, 3⟩⟩]⟩

/-- A source with one block that is put below itself. -/
theorem concatenated_of_readSource_twice :
    ∃ blocks e, readSource "A\x7bB\x7d" = .ok blocks ∧
      Expansion.ofSource "A\x7bB\x7d" .default = .ok e ∧
      e.results.map Outcome.name? = [some "B"] ∧
      Concatenated "A\x7bB\x7d" "A\x7bB\x7d" .default e e := by
  have hsegments : segments "A\x7bB\x7d".toList = .ok
      [⟨some .ident, ['A']⟩, ⟨some .punct, "\x7b".toList⟩, ⟨some .ident, ['B']⟩,
        ⟨some .punct, "\x7d".toList⟩] := by
    refine segments_cons _ 0 rfl (segments_cons _ 0 rfl (segments_cons _ 0 rfl ?_))
    exact segments_cons _ 0 rfl segments_nil
  have htokens : sourceTokens "A\x7bB\x7d" = .ok pairTokens := sourceTokens_of_segments hsegments
  have hA : readAttributes "A\x7bB\x7d".toList pairTokens = .ok ([], _) :=
    readAttributes_of_other (show TokenKind.ident ≠ .doc by decide) rfl
  have hB : readAttributes "A\x7bB\x7d".toList (pairTokens.drop 2) = .ok ([], _) :=
    readAttributes_of_other (show TokenKind.ident ≠ .doc by decide) rfl
  have hnames : readNames "A\x7bB\x7d".toList (pairTokens.drop 2) =
      .ok ([⟨"B", [], ⟨1, 3⟩⟩], pairTokens.drop 3) :=
    readNames_last rfl (readName_of_attributes (by decide) hB) rfl
  have hpass : Goal.pass [.type] pairTokens = .ok (pairTokens.drop 1) :=
    pass_of_step rfl (pass_of_step rfl (pass_of_step rfl (pass_of_step rfl pass_nil)))
  have hblock := readBlock_of_parts hA rfl (readType_of_pass hpass) rfl rfl hnames rfl rfl
  have hread : readSource "A\x7bB\x7d" = .ok [pairBlock] :=
    readSource_of_readBlocks htokens (readBlocks_of_readBlock hblock readBlocks_nil)
  have hnone : ∀ spec ∈ specsOf [pairBlock], ¬ SecretMissesArgument spec.attributes := by
    rintro spec hspec ⟨a, _, ha, -⟩
    rw [List.mem_singleton.mp hspec] at ha
    cases ha
  obtain ⟨results, hresults⟩ := (@exists_forall₂_iff .default _).mpr hnone
  have he := ofSource_of_readSource hread .default
  rw [mapM_ok_iff.mpr hresults] at he
  exact ⟨_, _, hread, he, names_of_forall₂ hresults, concatenated_of_readSource hread he he⟩

end Microtypes
