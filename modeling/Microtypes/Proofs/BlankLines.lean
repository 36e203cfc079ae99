import Microtypes.Output
import Microtypes.Proofs.PassingOn
import Microtypes.Proofs.Report
import Microtypes.Proofs.Rust.Spacing
import Microtypes.Proofs.Token.Excerpt

/-!
# Blank lines in generated files

A generated file has a blank line above each result, and otherwise the blank lines that its wrappers
have between and in their items. Nowhere are there two in a row, and none stands at the end
(`blankLines_of_ofSource`).
-/

namespace Microtypes

variable {source label : String} {features : Features} {e : Expansion} {spec : Spec}
  {blocks : List Declaration} {names header : List String} {results : List Outcome}
  {outcome : Outcome} {g : Generated}

/-! ## Wrappers -/

/-- An attribute of a source is written with one token at least. -/
theorem text_ne_empty {a : Attribute} (h : readSource source = .ok blocks)
    (hspec : spec ∈ specsOf blocks) (ha : a ∈ spec.attributes) : a.text ≠ "" := by
  obtain ⟨ts, run, hts, hrun, hstand⟩ := exists_standsAs_of_mem_attributes h hspec ha
  obtain ⟨first, last, hfirst, hlast, -, htext⟩ := hstand.text
  have hlexed := lexed_excerpt hts hrun hfirst hlast
  rintro hempty
  rw [hempty, eq_comm, String.ofList_eq_empty_iff] at htext
  rw [htext, lexed_nil] at hlexed
  have hnone : run = [] := List.map_eq_nil_iff.mp (Except.ok.inj hlexed).symm
  rw [hnone] at hfirst
  cases hfirst

theorem arranged_of_expandSpec (h : readSource source = .ok blocks) (hspec : spec ∈ specsOf blocks)
    (hg : expandSpec features spec = .ok (.generated g)) : Arranged g.items ∧ g.items ≠ [] := by
  rw [expandSpec_eq] at hg
  split at hg
  · refine arranged_of_outcomeOf (fun text htext => ?_) hg
    obtain ⟨a, ha, rfl⟩ := List.mem_map.mp htext
    exact text_ne_empty h hspec (List.mem_filter.mp ha).1
  · cases hg
  · cases hg

theorem arranged_of_ofSource (he : Expansion.ofSource source features = .ok e)
    (hg : .generated g ∈ e.results) : Arranged g.items ∧ g.items ≠ [] := by
  rcases origin_of_mem_results he hg with ⟨_, -, hfailed⟩ | ⟨_, hread, -, spec, hspec, hexpand⟩
  · cases hfailed
  · exact arranged_of_expandSpec hread hspec hexpand

/-! ## Files -/

theorem tidy_lines_of_ofSource (he : Expansion.ofSource source features = .ok e)
    (houtcome : outcome ∈ e.results) : Tidy outcome.lines := by
  cases outcome with
  | failed diagnostic => exact .singleton (by simp)
  | generated wrapper =>
    obtain ⟨harranged, hne⟩ := arranged_of_ofSource he houtcome
    exact tidy_renderItems harranged hne

theorem exists_headerLines (hlabel : label ≠ "") (names : List String) :
    ∃ header, headerLines label names = .ok header ∧ Tidy header := by
  unfold headerLines
  rw [if_neg (by simpa using hlabel)]
  refine ⟨_, rfl, .of_forall (List.cons_ne_nil _ _) ?_⟩
  simp [headerEdge]

theorem tidy_fileLines (hheader : Tidy header) (h : ∀ outcome ∈ results, Tidy outcome.lines) :
    Tidy (fileLines header results) := by
  -- What stands above the next result is tidy, whether it is the header alone or results as well.
  induction results generalizing header with
  | nil => simpa [fileLines] using hheader
  | cons outcome results ih =>
    obtain ⟨houtcome, hlater⟩ := List.forall_mem_cons.mp h
    have hfile : fileLines header (outcome :: results) =
        fileLines (header ++ "" :: outcome.lines) results := by
      simp [fileLines]
    rw [hfile]
    exact ih (hheader.append_blank houtcome) hlater

/-- The blank lines of a file: there are no two in a row, and none at the end; and in a wrapper they
are those of its items and one between two items of which the first is not attached. -/
theorem blankLines_of_ofSource {keepGoing : Bool}
    (he : Expansion.ofSource source features = .ok e) (hlabel : label ≠ "")
    (hkeep : keepGoing = true ∨ e.ok = true) :
    ∃ header, headerLines label names = .ok header ∧
      assemble label names e keepGoing =
        .ok ("\n".intercalate (fileLines header e.results) ++ "\n") ∧
      Tidy (fileLines header e.results) ∧
      ∀ g ∈ e.generated, (∀ item ∈ g.items, Tidy item.lines) ∧
        ∃ gaps, LaidOut g.items gaps (renderItems g.items) := by
  obtain ⟨header, hheader, htidy⟩ := exists_headerLines hlabel names
  have hwritten : ¬ (!e.ok && !keepGoing) = true := by
    rcases hkeep with rfl | hok
    · simp
    · simp [hok]
  refine ⟨header, hheader, ?_, ?_, ?_⟩
  · rw [assemble, if_neg hwritten, hheader]
    rfl
  · exact tidy_fileLines htidy fun outcome houtcome => tidy_lines_of_ofSource he houtcome
  · intro g hg
    obtain ⟨harranged, hne⟩ := arranged_of_ofSource he (exists_of_mem_generated hg)
    exact ⟨harranged.tidy, exists_laidOut harranged hne⟩

/-- The file for a block with attributes of both kinds. -/
theorem blankLines_of_ofSource_marked :
    ∃ e, Expansion.ofSource markedSource .default = .ok e ∧ "a.microtype" ≠ "" ∧
      (false = true ∨ e.ok = true) ∧
      ∃ header, headerLines "a.microtype" (Features.names .default) = .ok header ∧
        assemble "a.microtype" (Features.names .default) e false =
          .ok ("\n".intercalate (fileLines header e.results) ++ "\n") ∧
        Tidy (fileLines header e.results) ∧
        ∀ g ∈ e.generated, (∀ item ∈ g.items, Tidy item.lines) ∧
          ∃ gaps, LaidOut g.items gaps (renderItems g.items) := by
  obtain ⟨spec, hspec⟩ : ∃ spec, specsOf [markedBlock] = [spec] := ⟨_, rfl⟩
  obtain ⟨wrapper, hwrapper⟩ : ∃ wrapper, expandSpec .default spec = .ok (.generated wrapper) := by
    cases hspec
    exact ⟨_, rfl⟩
  have he := ofSource_of_readSource readSource_marked .default
  rw [hspec, List.mapM_cons, hwrapper] at he
  have hlabel : "a.microtype" ≠ "" := by decide
  exact ⟨_, he, hlabel, .inr rfl, blankLines_of_ofSource he hlabel (.inr rfl)⟩

end Microtypes
