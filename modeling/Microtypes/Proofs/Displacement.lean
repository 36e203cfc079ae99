import Microtypes.Proofs.Likeness
import Microtypes.Proofs.Token.Displacement

/-!
# Sources as parts of longer ones

Where a source stands as a part of a longer one, the same is read from its tokens, with places and
offsets that are moved along, and the same is generated. Nothing that comes before or after the
source matters.
-/

namespace Microtypes

variable {lines chars : Nat} {above source below : List Char}

/-! ## Moved values -/

/-- The form of an attribute further down. -/
def AttributeForm.moved (lines chars : Nat) : AttributeForm → AttributeForm
  | .bare => .bare
  | .delimited delimiter arguments => .delimited delimiter (arguments.map (.moved lines chars))
  | .assigned value => .assigned (value.map (.moved lines chars))

/-- An attribute further down. Its text stays as it stands. -/
def Attribute.moved (lines chars : Nat) (a : Attribute) : Attribute :=
  { a with form := a.form.moved lines chars, location := a.location.down lines }

/-- A type further down. -/
def WrittenType.down (lines : Nat) (type : WrittenType) : WrittenType :=
  { type with location := type.location.down lines }

/-- A declared name further down. -/
def DeclaredName.moved (lines chars : Nat) (decl : DeclaredName) : DeclaredName :=
  { decl with
    attributes := decl.attributes.map (.moved lines chars)
    location := decl.location.down lines }

/-- A block further down. -/
def Declaration.moved (lines chars : Nat) (block : Declaration) : Declaration :=
  { block with
    attributes := block.attributes.map (.moved lines chars)
    inner := block.inner.down lines
    names := block.names.map (.moved lines chars) }

/-- A specification further down. -/
def Spec.moved (lines chars : Nat) (spec : Spec) : Spec :=
  { spec with
    inner := spec.inner.down lines
    attributes := spec.attributes.map (.moved lines chars)
    location := spec.location.down lines }

/-- A problem further down. -/
def Problem.down (lines : Nat) (problem : Problem) : Problem :=
  { problem with location := problem.location.down lines }

/-- A diagnostic further down. -/
def Diagnostic.down (lines : Nat) (d : Diagnostic) : Diagnostic :=
  { d with location := d.location.down lines }

/-- What becomes of a name that is declared further down. A generated wrapper holds no place. -/
def Outcome.down (lines : Nat) : Outcome → Outcome
  | .generated wrapper => .generated wrapper
  | .failed diagnostic => .failed (diagnostic.down lines)

/-- An expansion further down. -/
def Expansion.moved (lines chars : Nat) (e : Expansion) : Expansion where
  declarations := e.declarations.map (.moved lines chars)
  specs := e.specs.map (.moved lines chars)
  results := e.results.map (.down lines)

theorem Token.moved_zero : Token.moved 0 0 = id := rfl

theorem Attribute.moved_zero : Attribute.moved 0 0 = id := by
  funext ⟨path, form, text, location⟩
  cases form <;> simp only [Attribute.moved, AttributeForm.moved, Token.moved_zero, List.map_id] <;>
    rfl

theorem DeclaredName.moved_zero : DeclaredName.moved 0 0 = id := by
  funext decl
  simp only [DeclaredName.moved, Attribute.moved_zero, List.map_id]
  rfl

theorem Declaration.moved_zero : Declaration.moved 0 0 = id := by
  funext block
  simp only [Declaration.moved, Attribute.moved_zero, DeclaredName.moved_zero, List.map_id]
  rfl

/-- The attributes that are passed on are the same texts. -/
theorem ofSpec_moved (spec : Spec) : Wrapper.ofSpec (spec.moved lines chars) = .ofSpec spec := by
  have htexts : (passedOn (spec.attributes.map (.moved lines chars))).map Attribute.text =
      (passedOn spec.attributes).map Attribute.text := by
    rw [passedOn, List.filter_map, List.map_map]
    rfl
  rw [Wrapper.ofSpec, Wrapper.ofSpec, Wrapper.ofParts, Wrapper.ofParts, Spec.moved, htexts]
  rfl

/-! ## The likeness -/

theorem slice_within {start stop : Nat} (h : stop ≤ source.length) :
    slice (above ++ source ++ below) (start + above.length) (stop + above.length) =
      slice source start stop := by
  rw [slice, slice, Nat.add_sub_add_right, List.append_assoc, Nat.add_comm start,
    List.drop_length_add_append]
  by_cases hstart : start ≤ source.length
  · rw [List.drop_append_of_le_length hstart, List.take_append_of_le_length]
    rw [List.length_drop]
    omega
  · have hnone : stop - start = 0 := by omega
    rw [hnone, List.take_zero, List.take_zero]

/-- The likeness of the tokens of a source to those that stand for them in a longer source. -/
def placedBetween (lines : Nat) (above source below : List Char) :
    Likeness source (above ++ source ++ below) where
  token t t' := t' = t.moved lines above.length ∧ t.stop ≤ source.length
  place here here' := here' = here.down lines
  text := Eq
  lexeme_eq := by
    rintro t t' ⟨rfl, -⟩
    rfl
  place_token := by
    rintro t t' ⟨rfl, -⟩
    rfl
  place_later := by
    rintro a _ b _ rfl rfl
    exact (Location.down_later a b).symm
  text_refl _ := rfl
  text_slice := by
    rintro m _ c _ ⟨rfl, -⟩ ⟨rfl, hstop⟩
    exact congrArg String.ofList (slice_within hstop).symm

theorem tokens_placedBetween {ts : List Token} (h : ∀ t ∈ ts, t.stop ≤ source.length) :
    (placedBetween lines above source below).Tokens ts (ts.map (.moved lines above.length)) :=
  List.forall₂_map_right_iff.mpr (List.forall₂_same.mpr fun t ht => ⟨rfl, h t ht⟩)

theorem eq_map_of_forall₂ {α β : Type} {R : α → β → Prop} {f : α → β} {l : List α} {l' : List β}
    (h : List.Forall₂ R l l') (hR : ∀ {a b}, R a b → b = f a) : l' = l.map f := by
  induction h with
  | nil => rfl
  | cons hab _ ih => rw [List.map_cons, hR hab, ih]

/-! ## Alike values are moved -/

section Alike

variable {form form' : AttributeForm} {a a' : Attribute} {type type' : WrittenType}
  {decl decl' : DeclaredName} {block block' : Declaration} {spec spec' : Spec}
  {outcome outcome' : Outcome}

theorem AttributeForm.Alike.eq_moved
    (h : form.Alike (placedBetween lines above source below) form') :
    form' = form.moved lines above.length := by
  cases h with
  | bare => rfl
  | delimited delimiter h =>
    rw [AttributeForm.moved, ← eq_map_of_forall₂ h And.left]
  | assigned h =>
    rw [AttributeForm.moved, ← eq_map_of_forall₂ h And.left]

theorem Attribute.Alike.eq_moved (h : a.Alike (placedBetween lines above source below) a') :
    a' = a.moved lines above.length := by
  obtain ⟨path, form, text, location⟩ := a
  obtain ⟨path', form', text', location'⟩ := a'
  obtain ⟨rfl, hform, rfl, rfl⟩ := h
  rw [Attribute.moved, ← hform.eq_moved]

theorem WrittenType.Alike.eq_down
    (h : type.Alike (placedBetween lines above source below) type') :
    type' = type.down lines := by
  obtain ⟨text, location⟩ := type
  obtain ⟨text', location'⟩ := type'
  obtain ⟨rfl, rfl⟩ := h
  rfl

theorem DeclaredName.Alike.eq_moved
    (h : decl.Alike (placedBetween lines above source below) decl') :
    decl' = decl.moved lines above.length := by
  obtain ⟨name, attributes, location⟩ := decl
  obtain ⟨name', attributes', location'⟩ := decl'
  obtain ⟨rfl, hattributes, rfl⟩ := h
  rw [DeclaredName.moved, ← eq_map_of_forall₂ hattributes Attribute.Alike.eq_moved]

theorem Declaration.Alike.eq_moved
    (h : block.Alike (placedBetween lines above source below) block') :
    block' = block.moved lines above.length := by
  obtain ⟨attributes, inner, visibility, names⟩ := block
  obtain ⟨attributes', inner', visibility', names'⟩ := block'
  obtain ⟨hattributes, hinner, rfl, hnames⟩ := h
  rw [Declaration.moved, ← eq_map_of_forall₂ hattributes Attribute.Alike.eq_moved,
    ← hinner.eq_down, ← eq_map_of_forall₂ hnames DeclaredName.Alike.eq_moved]

theorem Spec.Alike.eq_moved (h : spec.Alike (placedBetween lines above source below) spec') :
    spec' = spec.moved lines above.length := by
  obtain ⟨inner, name, visibility, attributes, location⟩ := spec
  obtain ⟨inner', name', visibility', attributes', location'⟩ := spec'
  obtain ⟨hinner, rfl, rfl, hattributes, rfl⟩ := h
  rw [Spec.moved, ← eq_map_of_forall₂ hattributes Attribute.Alike.eq_moved, ← hinner.eq_down]

theorem Outcome.Alike.eq_down (hspec : spec.Alike (placedBetween lines above source below) spec')
    (h : Outcome.Alike (placedBetween lines above source below) spec spec' outcome outcome') :
    outcome' = outcome.down lines := by
  cases h with
  | generated group items => rw [hspec.eq_moved, ofSpec_moved, Outcome.down]
  | failed h =>
    cases h
    rfl

end Alike

/-! ## Readings and results -/

/-- What follows a source does not change what is read from its tokens. -/
theorem readBlocks_within {ts : List Token} {blocks : List Declaration}
    (h : readBlocks source ts = .ok blocks) (hts : ∀ t ∈ ts, t.stop ≤ source.length)
    (below : List Char) : readBlocks (source ++ below) ts = .ok blocks := by
  have halike : (placedBetween 0 [] source below).Tokens ts ts := by
    have htokens := @tokens_placedBetween 0 [] source below ts hts
    rwa [List.length_nil, Token.moved_zero, List.map_id] at htokens
  obtain ⟨_, blocks', hread, hread', hblocks⟩ | ⟨_, _, hread, -⟩ :=
    (Likeness.reads_blocks halike).cases
  · rw [h] at hread
    cases hread
    rw [eq_map_of_forall₂ hblocks Declaration.Alike.eq_moved, List.length_nil,
      Declaration.moved_zero, List.map_id] at hread'
    exact hread'
  · rw [h] at hread
    cases hread

/-- Alike blocks in a longer source have the same results, moved along. -/
theorem results_moved {features : Features} {blocks blocks' : List Declaration}
    {results : List Outcome}
    (h : List.Forall₂ (Declaration.Alike (placedBetween lines above source below)) blocks blocks')
    (hresults : (specsOf blocks).mapM (expandSpec features) = .ok results) :
    specsOf blocks' = (specsOf blocks).map (.moved lines above.length) ∧
      (specsOf blocks').mapM (expandSpec features) = .ok (results.map (.down lines)) := by
  have hspecs := Likeness.specsOf_alike h
  refine ⟨eq_map_of_forall₂ hspecs Spec.Alike.eq_moved, ?_⟩
  obtain ⟨_, results', hread, hread', answers, answers', hanswers, -, hanswer, -, hanswer'⟩ |
    ⟨_, _, hread, -⟩ := (@Likeness.expand_specs _ _ _ features _ _ hspecs).cases
  · rw [hresults] at hread
    cases hread
    have hdown : List.Forall₂ (fun result result' => result' = Outcome.down lines result)
        (answers.map Prod.snd) (answers'.map Prod.snd) := by
      rw [List.forall₂_map_left_iff, List.forall₂_map_right_iff]
      exact hanswers.imp fun _ _ hanswer => hanswer.result.eq_down hanswer.spec
    rw [hread', ← hanswer, ← hanswer', eq_map_of_forall₂ hdown id]
  · rw [hresults] at hread
    cases hread

end Microtypes
