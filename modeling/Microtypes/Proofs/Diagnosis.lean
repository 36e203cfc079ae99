import Microtypes.Proofs.Control.Blame
import Microtypes.Proofs.Expansion
import Microtypes.Proofs.Grammar.Standing

/-!
# Diagnostics of declared names

The diagnostic of a declared name carries this name, and its place is that of a token inside one of
the attributes of the name or of its block (`blamesOwn_of_ofSource`).
-/

namespace Microtypes

open Lexeme (punct ident)

variable {source : String} {blocks : List Declaration} {features : Features} {spec : Spec}
  {diagnostic : Diagnostic} {a : Attribute} {problem : Problem} {ts run : List Token}
  {first last t : Token}

/-- Whether a place is that of a token inside an attribute, from its first token to its last one,
where the attribute stands in the source. -/
def Attribute.Covers (source : String) (a : Attribute) (place : Location) : Prop :=
  ∃ ts run first last, sourceTokens source = .ok ts ∧ run <:+: ts ∧
    a.StandsAs source.toList run ∧ run.head? = some first ∧ run.getLast? = some last ∧
      ∃ t ∈ ts, t.location = place ∧ first.start ≤ t.start ∧ t.stop ≤ last.stop

/-! ## Problems of a specification -/

/-- A specification is refused for one of its attributes. -/
theorem blamed_of_expandSpec (hp : ∀ a ∈ spec.attributes, ∀ t ∈ lexemes a.arguments, t.Proper)
    (h : expandSpec features spec = .ok (.failed diagnostic)) :
    ∃ problem, diagnostic = problem.diagnostic (some spec.name) ∧
      ∃ a ∈ spec.attributes, a.Blamed problem := by
  rw [expandSpec_eq] at h
  split at h
  · next control hcontrols =>
    unfold outcomeOf at h
    split at h
    · next problem hunsupported =>
      cases h
      exact ⟨problem, rfl, blamed_of_unsupported hcontrols hunsupported⟩
    · obtain ⟨items, -, h⟩ := bind_eq_ok_iff.mp h
      cases h
  · next problem hcontrols =>
    cases h
    exact ⟨problem, rfl, blamed_of_controls hp hcontrols⟩
  · cases h

/-- The arguments of the attributes of a specification are tokens of its source. -/
theorem proper_of_mem_attributes (hread : readSource source = .ok blocks)
    (hspec : spec ∈ specsOf blocks) :
    ∀ a ∈ spec.attributes, ∀ t ∈ lexemes a.arguments, t.Proper := by
  intro a ha t ht
  obtain ⟨ts, run, hts, hrun, hstands⟩ := exists_standsAlone_of_mem_attributes hread hspec ha
  exact proper_of_sourceTokens hts t
    (List.map_subset _ (List.Subset.trans hstands.arguments_subset hrun.subset) ht)

/-- A specification of a source is refused for one of its attributes, where this attribute stands in
the source. -/
theorem exists_blamed_of_expandSpec (hread : readSource source = .ok blocks)
    (hspec : spec ∈ specsOf blocks) (h : expandSpec features spec = .ok (.failed diagnostic)) :
    ∃ problem a ts run, diagnostic = Problem.diagnostic problem (some spec.name) ∧
      a ∈ spec.attributes ∧ a.Blamed problem ∧ sourceTokens source = .ok ts ∧ run <:+: ts ∧
        a.StandsAlone source.toList run := by
  obtain ⟨problem, hdiagnostic, a, ha, hblamed⟩ :=
    blamed_of_expandSpec (proper_of_mem_attributes hread hspec) h
  obtain ⟨ts, run, hts, hrun, hstands⟩ := exists_standsAlone_of_mem_attributes hread hspec ha
  exact ⟨problem, a, ts, run, hdiagnostic, ha, hblamed, hts, hrun, hstands⟩

/-! ## Places inside an attribute -/

/-- The tokens of a run lie between its first token and its last one. -/
theorem within_of_mem {chars : List Char} {offset : Nat} (htiles : Tiles chars offset ts)
    (hrun : run <:+: ts) (hfirst : run.head? = some first) (hlast : run.getLast? = some last)
    (ht : t ∈ run) : first.start ≤ t.start ∧ t.stop ≤ last.stop := by
  have horder := htiles.pairwise.sublist hrun.sublist
  have hwidth : ∀ t ∈ run, t.start < t.stop := fun t ht =>
    (htiles.standsIn t (hrun.subset ht)).nonempty
  constructor
  · obtain ⟨later, rfl⟩ := List.head?_eq_some_iff.mp hfirst
    rcases List.mem_cons.mp ht with rfl | ht'
    · exact Nat.le_refl _
    · have := List.rel_of_pairwise_cons horder ht'
      have := hwidth first List.mem_cons_self
      omega
  · obtain ⟨before, rfl⟩ := List.getLast?_eq_some_iff.mp hlast
    rcases List.mem_append.mp ht with ht' | ht'
    · have := (List.pairwise_append.mp horder).2.2 t ht' last (List.mem_singleton_self _)
      have := hwidth last (List.mem_append_right _ (List.mem_singleton_self _))
      omega
    · obtain rfl := List.mem_singleton.mp ht'
      exact Nat.le_refl _

/-- A problem that an attribute is blamed for is inside the attribute. -/
theorem covers_of_blamed (hts : sourceTokens source = .ok ts) (hrun : run <:+: ts)
    (hstands : a.StandsAlone source.toList run) (h : a.Blamed problem) :
    a.Covers source problem.location := by
  obtain ⟨first, last, hfirst, hlast, hlocation, -⟩ := hstands.text
  obtain ⟨t, ht, hplace⟩ : ∃ t ∈ run, t.location = problem.location := by
    rcases h.place with hplace | ⟨t, ht, hplace⟩
    · exact ⟨first, List.mem_of_mem_head? hfirst, (hplace.trans hlocation).symm⟩
    · exact ⟨t, hstands.arguments_subset ht, hplace.symm⟩
  exact ⟨ts, run, first, last, hts, hrun, hstands.toStandsAs, hfirst, hlast, t, hrun.subset ht,
    hplace, within_of_mem (tiles_of_sourceTokens hts) hrun hfirst hlast ht⟩

/-! ## All diagnostics -/

/-- Whether every diagnostic of an expansion is about attributes of its own specification. -/
structure Expansion.BlamesOwn (e : Expansion) (source : String) (blocks : List Declaration) :
    Prop where
  /-- There is one specification for each declared name, with the attributes of the name and those
  of its block. -/
  specs : e.specs = blocks.flatMap fun block => block.names.map fun decl =>
    ⟨block.inner, decl.name, block.visibility, decl.attributes ++ block.attributes, decl.location⟩
  results : List.Forall₂ (fun spec outcome => ∀ diagnostic, outcome = .failed diagnostic →
    diagnostic.name = some spec.name ∧
      ∃ a ∈ spec.attributes, a.Covers source diagnostic.location) e.specs e.results

theorem covers_of_expandSpec (hread : readSource source = .ok blocks)
    (hspec : spec ∈ specsOf blocks) (h : expandSpec features spec = .ok (.failed diagnostic)) :
    diagnostic.name = some spec.name ∧
      ∃ a ∈ spec.attributes, a.Covers source diagnostic.location := by
  obtain ⟨problem, a, ts, run, rfl, ha, hblamed, hts, hrun, hstands⟩ :=
    exists_blamed_of_expandSpec hread hspec h
  exact ⟨rfl, a, ha, covers_of_blamed hts hrun hstands hblamed⟩

/-- Where there is an expansion, the diagnostic of a name points into its own attributes. -/
theorem blamesOwn_of_ofSource {e : Expansion} (hread : readSource source = .ok blocks)
    (he : Expansion.ofSource source features = .ok e) : e.BlamesOwn source blocks := by
  obtain ⟨results, hresults, rfl⟩ := results_of_ofSource hread he
  refine ⟨rfl, ?_⟩
  have hall := mapM_ok_iff.mp hresults
  rw [List.forall₂_iff_get] at hall ⊢
  refine ⟨hall.1, fun i hi hi' diagnostic hfailed => ?_⟩
  have hexpand := hall.2 i hi hi'
  rw [hfailed] at hexpand
  exact covers_of_expandSpec hread (List.get_mem _ _) hexpand

/-! ## A malformed attribute -/

theorem exists_ofSource_malformed :
    ∃ blocks e, readSource "A\x7b#[secret(x)]B,C\x7d" = .ok blocks ∧
      Expansion.ofSource "A\x7b#[secret(x)]B,C\x7d" .default = .ok e ∧
      e.errors = [⟨.grammar, "expected either `#[secret]` or `#[secret(serialize)]`", ⟨1, 12⟩,
        some "B"⟩] := by
  obtain ⟨⟨path, form, text, place⟩, hpath, hform, hblocks⟩ :=
    @readBlocks_blockTokens "A\x7b#[secret(x)]B,C\x7d".toList (ident "x") rfl rfl
  obtain rfl : path = "secret" := hpath
  obtain rfl : form = .delimited .round [⟨ident "x", ⟨1, 12⟩, 11, 12⟩] := hform
  have hread := readSource_of_readBlocks sourceTokens_malformed hblocks
  rw [Expansion.ofSource, hread]
  exact ⟨_, _, rfl, rfl, rfl⟩

/-- The malformed argument of the secret attribute of `B` is where its diagnostic points. -/
theorem blamesOwn_of_ofSource_malformed :
    ∃ blocks e, readSource "A\x7b#[secret(x)]B,C\x7d" = .ok blocks ∧
      Expansion.ofSource "A\x7b#[secret(x)]B,C\x7d" .default = .ok e ∧
      e.errors.map (fun d => (d.name, d.location)) = [(some "B", ⟨1, 12⟩)] ∧
      e.BlamesOwn "A\x7b#[secret(x)]B,C\x7d" blocks := by
  obtain ⟨blocks, e, hread, he, herrors⟩ := exists_ofSource_malformed
  refine ⟨blocks, e, hread, he, ?_, blamesOwn_of_ofSource hread he⟩
  rw [herrors]
  rfl

end Microtypes
