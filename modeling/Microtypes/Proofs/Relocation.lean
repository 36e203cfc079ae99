import Microtypes.Proofs.Displacement
import Microtypes.Proofs.Token.Excerpt

/-!
# One text in two sources

Where the same text stands in two sources, it is cut into the same tokens but for their places
(`copied_of_yields`). So the same is read from them in both sources, and the texts of attributes,
which are taken from the sources, are the same too.
-/

namespace Microtypes

variable {source source' above text below above' below' : List Char}

/-- The likeness of values that are the same but for places. -/
def elsewhere : Likeness [] [] where
  token t t' := t.toLexeme = t'.toLexeme
  place _ _ := True
  text := Eq
  lexeme_eq h := h
  place_token _ := trivial
  place_later _ _ := trivial
  text_refl _ := rfl
  text_slice _ _ := by simp only [slice, List.drop_nil, List.take_nil]

/-- The likeness of the tokens of a text in two sources where it stands. -/
def sharedText (hsource : source = above ++ text ++ below)
    (hsource' : source' = above' ++ text ++ below') : Likeness source source' where
  token t t' := t.toLexeme = t'.toLexeme ∧ ∃ start stop, stop ≤ text.length ∧
    t.start = start + above.length ∧ t.stop = stop + above.length ∧
    t'.start = start + above'.length ∧ t'.stop = stop + above'.length
  place _ _ := True
  text := Eq
  lexeme_eq h := h.1
  place_token _ := trivial
  place_later _ _ := trivial
  text_refl _ := rfl
  text_slice := by
    rintro m m' c c' ⟨-, start, -, -, hm, -, hm', -⟩ ⟨-, -, stop, hstop, -, hc, -, hc'⟩
    rw [hm, hc, hm', hc', hsource, hsource', slice_within hstop, slice_within hstop]

/-- The pieces of the text stand for alike tokens in both sources. -/
theorem tokens_sharedText (hsource : source = above ++ text ++ below)
    (hsource' : source' = above' ++ text ++ below') {start : Nat} {pieces : List Segment}
    (here here' : Location) (h : start + (pieces.flatMap Segment.text).length ≤ text.length) :
    (sharedText hsource hsource').Tokens (place (start + above.length) here pieces)
      (place (start + above'.length) here' pieces) := by
  induction pieces generalizing start here here' with
  | nil => exact .nil
  | cons piece pieces ih =>
    rw [List.flatMap_cons, List.length_append, ← Nat.add_assoc] at h
    have hlater := ih (here.advanceBy piece.text) (here'.advanceBy piece.text) h
    rw [place, place, Nat.add_right_comm start above.length,
      Nat.add_right_comm start above'.length]
    cases piece.kind with
    | none => exact hlater
    | some kind =>
      exact .cons ⟨rfl, start, start + piece.text.length, by omega, rfl, rfl, rfl, rfl⟩ hlater

/-! ## Likenesses that keep the texts -/

/-- Whether alike texts are the same. -/
def Likeness.KeepsTexts (L : Likeness source source') : Prop :=
  ∀ s s' : String, L.text s s' → s = s'

theorem keepsTexts_sharedText (hsource : source = above ++ text ++ below)
    (hsource' : source' = above' ++ text ++ below') :
    (sharedText hsource hsource').KeepsTexts :=
  fun _ _ => id

section Keeping

variable {L : Likeness source source'}

theorem AttributeForm.Alike.to_elsewhere {form form' : AttributeForm} (h : form.Alike L form') :
    form.Alike elsewhere form' := by
  have hlexemes {ts ts' : List Token} (h : L.Tokens ts ts') : elsewhere.Tokens ts ts' :=
    List.Forall₂.imp (fun _ _ => L.lexeme_eq) h
  cases h with
  | bare => exact .bare
  | delimited d h => exact .delimited d (hlexemes h)
  | assigned h => exact .assigned (hlexemes h)

variable (hL : L.KeepsTexts)
include hL

theorem Attribute.Alike.to_elsewhere {a a' : Attribute} (h : a.Alike L a') :
    a.Alike elsewhere a' :=
  .mk h.path h.form.to_elsewhere (hL _ _ h.text) trivial

theorem DeclaredName.Alike.to_elsewhere {decl decl' : DeclaredName} (h : decl.Alike L decl') :
    decl.Alike elsewhere decl' :=
  .mk h.name (h.attributes.imp fun _ _ ha => ha.to_elsewhere hL) trivial

theorem Declaration.Alike.to_elsewhere {block block' : Declaration} (h : block.Alike L block') :
    block.Alike elsewhere block' :=
  .mk (h.attributes.imp fun _ _ ha => ha.to_elsewhere hL) (.mk h.inner.text trivial) h.visibility
    (h.names.imp fun _ _ hdecl => hdecl.to_elsewhere hL)

end Keeping

/-! ## Copies -/

/-- Whether the tokens of a run in one source are copies of those of a run in another one, so that
the same is read from them but for places. -/
def Copied (source source' : List Char) (run run' : List Token) : Prop :=
  ∃ L : Likeness source source', L.KeepsTexts ∧ L.Tokens run run'

section Copies

variable {run run' front back : List Token}

/-- A text yields copies of its tokens where it stands in another source. -/
theorem copied_of_yields {pieces : List Segment} (h : Yields source pieces run)
    (hsource' : source' = above' ++ pieces.flatMap Segment.text ++ below') (here' : Location) :
    Copied source source' run (place above'.length here' pieces) := by
  obtain ⟨above, below, here, hsource, rfl⟩ := h
  have htokens := tokens_sharedText hsource hsource' here here' (Nat.zero_add _).le
  rw [Nat.zero_add, Nat.zero_add] at htokens
  exact ⟨_, keepsTexts_sharedText hsource hsource', htokens⟩

theorem forall₂_append_split {α β : Type} {R : α → β → Prop} {a b : List α} {l : List β}
    (h : List.Forall₂ R (a ++ b) l) :
    ∃ a' b', l = a' ++ b' ∧ List.Forall₂ R a a' ∧ List.Forall₂ R b b' := by
  refine ⟨l.take a.length, l.drop a.length, (List.take_append_drop ..).symm, ?_, ?_⟩
  · have hfront := List.forall₂_take a.length h
    rwa [List.take_left] at hfront
  · have hback := List.forall₂_drop a.length h
    rwa [List.drop_left] at hback

namespace Copied

theorem split (h : Copied source source' (front ++ back) run') :
    ∃ front' back', run' = front' ++ back' ∧ Copied source source' front front' ∧
      Copied source source' back back' := by
  obtain ⟨L, hkeeps, htokens⟩ := h
  obtain ⟨front', back', rfl, hfront, hback⟩ := forall₂_append_split htokens
  exact ⟨front', back', rfl, ⟨L, hkeeps, hfront⟩, L, hkeeps, hback⟩

theorem lexemes_eq (h : Copied source source' run run') : lexemes run = lexemes run' := by
  obtain ⟨L, -, htokens⟩ := h
  exact Likeness.lexemes_eq htokens

theorem reads_attributes {attributes : List Attribute} (h : Copied source source' run run')
    (hread : readAttributes source run = .ok (attributes, [])) :
    ∃ attributes', readAttributes source' run' = .ok (attributes', []) ∧
      List.Forall₂ (Attribute.Alike elsewhere) attributes attributes' := by
  obtain ⟨L, hkeeps, htokens⟩ := h
  have hreads := Likeness.reads_attributes htokens
  rw [hread] at hreads
  generalize readAttributes source' run' = result at hreads
  cases hreads with
  | @ok _ result h =>
    obtain ⟨attributes', rest'⟩ := result
    obtain ⟨hattributes, hrest⟩ := h
    cases hrest
    exact ⟨attributes', rfl, hattributes.imp fun _ _ ha => ha.to_elsewhere hkeeps⟩

theorem reads_name {decl : DeclaredName} (h : Copied source source' run run')
    (hread : readName source run = .ok (decl, [])) :
    ∃ decl', readName source' run' = .ok (decl', []) ∧ decl.Alike elsewhere decl' := by
  obtain ⟨L, hkeeps, htokens⟩ := h
  have hreads := Likeness.reads_name htokens
  rw [hread] at hreads
  generalize readName source' run' = result at hreads
  cases hreads with
  | @ok _ result h =>
    obtain ⟨decl', rest'⟩ := result
    obtain ⟨hdecl, hrest⟩ := h
    cases hrest
    exact ⟨decl', rfl, hdecl.to_elsewhere hkeeps⟩

theorem reads_blocks {blocks : List Declaration} (h : Copied source source' run run')
    (hread : readBlocks source run = .ok blocks) :
    ∃ blocks', readBlocks source' run' = .ok blocks' ∧
      List.Forall₂ (Declaration.Alike elsewhere) blocks blocks' := by
  obtain ⟨L, hkeeps, htokens⟩ := h
  have hreads := Likeness.reads_blocks htokens
  rw [hread] at hreads
  generalize readBlocks source' run' = result at hreads
  cases hreads with
  | @ok _ blocks' h =>
    exact ⟨blocks', rfl, h.imp fun _ _ hblock => hblock.to_elsewhere hkeeps⟩

end Copied

end Copies
end Microtypes
