import Mathlib.Data.List.Forall2
import Microtypes.Config.Selection
import Microtypes.Proofs.Token.Steadiness

/-!
# What is selected by names

The names in a value for the features are what stands between commas in all its texts, without the
blanks around it; in which texts and in which lists of texts it stands makes no difference, and
reading the names again changes nothing. What is selected depends on which names these are, and not
on their order or on how often they stand there; a name of no feature is refused, and the first one
is reported (`comesTo_of_holds`).
-/

namespace Microtypes

variable {text name : String} {texts names before after : List String} {part : List Char}

/-! ## Blanks around a text -/

/-- Whether a text is what is left of another one without the blanks at its ends. -/
structure IsTrimmed (part trimmed : List Char) : Prop where
  around : ∃ front back, part = front ++ trimmed ++ back ∧ (∀ c ∈ front, isBlank c = true) ∧
    ∀ c ∈ back, isBlank c = true
  first : ∀ c ∈ trimmed.head?, isBlank c = false
  last : ∀ c ∈ trimmed.getLast?, isBlank c = false

theorem last_trimEnd (part : List Char) : ∀ c ∈ (trimEnd part).getLast?, isBlank c = false := by
  intro c hc
  rw [trimEnd, List.getLast?_reverse] at hc
  have hhead := List.head?_dropWhile_not isBlank part.reverse
  rw [Option.mem_def.mp hc] at hhead
  exact hhead

theorem trimEnd_eq_self (h : ∀ c ∈ part.getLast?, isBlank c = false) : trimEnd part = part := by
  rw [trimEnd, List.reverse_eq_iff]
  rw [← List.head?_reverse] at h
  cases hreverse : part.reverse with
  | nil => rfl
  | cons c more =>
    rw [hreverse] at h
    rw [List.dropWhile_cons, h c rfl, if_neg Bool.false_ne_true]

theorem isTrimmed_trim (part : List Char) : IsTrimmed part (trim part) := by
  refine ⟨?_, ?_, last_trimEnd _⟩
  · obtain ⟨back, hback, hblank⟩ := exists_of_trimEnd (part.dropWhile isBlank)
    refine ⟨part.takeWhile isBlank, back, ?_, List.all_eq_true.mp List.all_takeWhile, hblank⟩
    rw [List.append_assoc, trim, ← hback, List.takeWhile_append_dropWhile]
  · have hhead := List.head?_dropWhile_not isBlank part
    rw [trim]
    cases hdrop : part.dropWhile isBlank with
    | nil =>
      rintro c ⟨⟩
    | cons c more =>
      rw [hdrop] at hhead
      rw [trimEnd_cons hhead]
      rintro _ ⟨⟩
      exact hhead

/-- There is one way to cut off the blanks. -/
theorem IsTrimmed.eq {trimmed : List Char} (h : IsTrimmed part trimmed) : trimmed = trim part := by
  obtain ⟨front, back, rfl, hfront, hback⟩ := h.around
  rw [trim, List.append_assoc, List.dropWhile_append_of_pos hfront]
  cases trimmed with
  | nil =>
    have hdrop := @List.dropWhile_append_of_pos _ isBlank back [] hback
    rw [List.append_nil] at hdrop
    rw [List.nil_append, hdrop]
    rfl
  | cons c more =>
    rw [List.cons_append, List.dropWhile_cons, h.first c rfl, if_neg Bool.false_ne_true,
      ← List.cons_append, trimEnd_append_blanks hback, trimEnd_eq_self h.last]

theorem eq_map_trim {parts trimmed : List (List Char)} (h : List.Forall₂ IsTrimmed parts trimmed) :
    trimmed = parts.map trim := by
  induction h with
  | nil => rfl
  | cons h _ ih => rw [List.map_cons, ← h.eq, ← ih]

theorem trim_trim (part : List Char) : trim (trim part) = trim part := by
  have h := isTrimmed_trim part
  have hagain : IsTrimmed (trim part) (trim part) :=
    ⟨⟨[], [], (List.append_nil _).symm, List.forall_mem_nil _, List.forall_mem_nil _⟩,
      h.first, h.last⟩
  exact hagain.eq.symm

/-! ## Names between commas -/

theorem splitOnChar_eq_splitOn (separator : Char) (text : List Char) :
    splitOnChar separator text = text.splitOn separator := by
  induction text with
  | nil => rfl
  | cons c rest ih =>
    rw [List.splitOn_cons_eq_if_modifyHead, splitOnChar, ih]
    by_cases hc : c = separator
    · rw [if_pos hc, if_pos (by simpa using hc)]
    · obtain ⟨piece, pieces, hpieces⟩ :=
        List.exists_cons_of_ne_nil (List.splitOn_ne_nil separator rest)
      rw [if_neg hc, if_neg (by simpa using hc), hpieces]
      rfl

theorem separator_not_mem {separator : Char} {text : List Char}
    (h : part ∈ splitOnChar separator text) : separator ∉ part := by
  induction text generalizing part with
  | nil =>
    obtain rfl := List.mem_singleton.mp h
    exact List.not_mem_nil
  | cons c rest ih =>
    rw [splitOnChar] at h
    split at h
    · rcases List.mem_cons.mp h with rfl | h
      · exact List.not_mem_nil
      · exact ih h
    · next hc =>
      obtain ⟨piece, pieces, hpieces⟩ :=
        List.exists_cons_of_ne_nil (splitOnChar_ne_nil separator rest)
      rw [hpieces] at h ih
      rcases List.mem_cons.mp h with rfl | h
      · exact List.not_mem_cons_of_ne_of_not_mem (Ne.symm hc) (ih List.mem_cons_self)
      · exact ih (List.mem_cons_of_mem _ h)

/-- Whether names are what stands between the commas of a text, in order: the blanks around each
part are cut off, and empty parts are left out. -/
def NamesOf (text : String) (names : List String) : Prop :=
  ∃ parts trimmed, text.toList = [','].intercalate parts ∧ parts ≠ [] ∧
    (∀ part ∈ parts, ',' ∉ part) ∧ List.Forall₂ IsTrimmed parts trimmed ∧
    names = (trimmed.filter (· ≠ [])).map String.ofList

theorem namesInText_eq (text : String) : namesInText text =
    (((splitOnChar ',' text.toList).map trim).filter (· ≠ [])).map String.ofList := by
  rw [namesInText]
  generalize (splitOnChar ',' text.toList).map trim = parts
  induction parts with
  | nil => rfl
  | cons part parts ih =>
    rw [List.filterMap_cons, ih]
    cases part <;> rfl

theorem namesOf_iff : NamesOf text names ↔ names = namesInText text := by
  rw [namesInText_eq]
  constructor
  · rintro ⟨parts, trimmed, htext, hne, hcommas, htrimmed, rfl⟩
    have hparts : splitOnChar ',' text.toList = parts := by
      rw [splitOnChar_eq_splitOn, htext, List.splitOn_intercalate ',' hcommas hne]
    rw [hparts, eq_map_trim htrimmed]
  · rintro rfl
    refine ⟨splitOnChar ',' text.toList, (splitOnChar ',' text.toList).map trim,
      (intercalate_splitOnChar ',' _).symm, splitOnChar_ne_nil ',' _,
      fun _ => separator_not_mem, ?_, rfl⟩
    rw [List.forall₂_map_right_iff, List.forall₂_same]
    exact fun part _ => isTrimmed_trim part

/-- A name that was read is read again. -/
theorem namesInText_of_mem (h : name ∈ namesInText text) : namesInText name = [name] := by
  rw [namesInText_eq] at h
  obtain ⟨trimmed, htrimmed, rfl⟩ := List.mem_map.mp h
  obtain ⟨htrimmed, hne⟩ := List.mem_filter.mp htrimmed
  obtain ⟨part, hpart, rfl⟩ := List.mem_map.mp htrimmed
  have hcomma : ',' ∉ trim part := by
    obtain ⟨front, back, hwhole, -, -⟩ := (isTrimmed_trim part).around
    intro hmem
    refine separator_not_mem hpart ?_
    rw [hwhole, List.mem_append, List.mem_append]
    exact .inl (.inr hmem)
  rw [namesInText_eq, String.toList_ofList, splitOnChar_eq_splitOn,
    List.splitOn_eq_singleton hcomma, List.map_singleton, trim_trim, List.filter_singleton, hne]
  rfl

theorem namesInText_append (text other : String) :
    namesInText (text ++ "," ++ other) = namesInText text ++ namesInText other := by
  have hcomma : ",".toList = [','] := rfl
  simp only [namesInText_eq, String.toList_append, hcomma, splitOnChar_eq_splitOn,
    List.append_assoc, List.singleton_append, List.splitOn_append_cons_self, List.map_append,
    List.filter_append]

/-- Joined by commas, texts have the names of them all. -/
theorem namesInText_intercalate (texts : List String) :
    namesInText (",".intercalate texts) = texts.flatMap namesInText := by
  induction texts with
  | nil => rfl
  | cons text texts ih =>
    cases texts with
    | nil => rw [String.intercalate_singleton, List.flatMap_singleton]
    | cons next texts =>
      rw [String.intercalate_cons_cons, namesInText_append, ih]
      rfl

/-- It makes no difference which parts stand in one text, with commas between them. -/
theorem flatMap_namesInText_chunks (chunks : List (List String)) :
    (chunks.map (",".intercalate ·)).flatMap namesInText =
      chunks.flatten.flatMap namesInText := by
  induction chunks with
  | nil => rfl
  | cons chunk chunks ih =>
    rw [List.map_cons, List.flatMap_cons, namesInText_intercalate, ih, List.flatten_cons,
      List.flatMap_append]

theorem flatMap_namesInText_again (texts : List String) :
    (texts.flatMap namesInText).flatMap namesInText = texts.flatMap namesInText := by
  have hagain : ∀ name ∈ texts.flatMap namesInText, namesInText name = [name] := by
    intro name hname
    obtain ⟨text, -, hname⟩ := List.mem_flatMap.mp hname
    exact namesInText_of_mem hname
  rw [List.flatMap_congr hagain, List.flatMap_singleton']

/-! ## Values -/

/-- Whether an entry is a text, or a list of texts. -/
inductive FeatureValue.EntryOf : FeatureValue → List String → Prop
  | text (text : String) : EntryOf (.text text) [text]
  | list (texts : List String) : EntryOf (.list (texts.map .text)) texts

/-- Whether a value is a list of texts and of lists of texts, and `texts` are all of them in
order. -/
def FeatureValue.Holds (value : FeatureValue) (texts : List String) : Prop :=
  ∃ entries groups, value = .list entries ∧ List.Forall₂ EntryOf entries groups ∧
    texts = groups.flatten

variable {value : FeatureValue}

theorem FeatureValue.EntryOf.entries_eq {entry : FeatureValue} (h : entry.EntryOf texts) :
    entry.entries = texts.map .text := by
  cases h <;> rfl

theorem mapM_names (texts : List String) :
    (texts.map FeatureValue.text).mapM FeatureValue.names = .ok (texts.map namesInText) := by
  induction texts with
  | nil => rfl
  | cons text texts ih =>
    rw [List.map_cons, List.mapM_cons, ih]
    rfl

/-- The names in a value are those of its texts. -/
theorem allNames_of_holds (h : value.Holds texts) :
    value.allNames = .ok (texts.flatMap namesInText) := by
  obtain ⟨entries, groups, rfl, hentries, rfl⟩ := h
  have hall : entries.flatMap FeatureValue.entries = groups.flatten.map .text := by
    induction hentries with
    | nil => rfl
    | cons h _ ih => rw [List.flatMap_cons, h.entries_eq, ih, List.flatten_cons, List.map_append]
  rw [FeatureValue.allNames, hall, mapM_names, List.flatMap_def]
  rfl

/-! ## Features -/

variable {features : Features} {noDefault : Bool}

/-- Whether a name is the name of a feature. -/
def IsFeatureName (name : String) : Prop := name ∈ Feature.all.map Feature.name

theorem isFeatureName_name (f : Feature) : IsFeatureName f.name :=
  List.mem_map_of_mem (Feature.mem_all f)

theorem featureNamed_name (f : Feature) : featureNamed f.name = .ok f := by
  rw [featureNamed, Feature.ofName?_name]

theorem featureNamed_of_unknown (h : ¬ IsFeatureName name) :
    featureNamed name = .error (.unknownFeature name) := by
  have hnone : Feature.ofName? name = none := by
    rw [Feature.ofName?, List.find?_eq_none]
    intro f _ hf
    exact h (beq_iff_eq.mp hf ▸ isFeatureName_name f)
  rw [featureNamed, hnone]

theorem mapM_featureNamed (fs : List Feature) :
    (fs.map Feature.name).mapM featureNamed = .ok fs := by
  induction fs with
  | nil => rfl
  | cons f fs ih =>
    rw [List.map_cons, List.mapM_cons, featureNamed_name, ih]
    rfl

/-- The names of features go up to the first one that is none. -/
theorem mapM_featureNamed_of_unknown (fs : List Feature) (h : ¬ IsFeatureName name)
    (after : List String) : (fs.map Feature.name ++ name :: after).mapM featureNamed =
      .error (.unknownFeature name) := by
  induction fs with
  | nil =>
    rw [List.map_nil, List.nil_append, List.mapM_cons, featureNamed_of_unknown h]
    rfl
  | cons f fs ih =>
    rw [List.map_cons, List.cons_append, List.mapM_cons, featureNamed_name, ih]
    rfl

/-- Names are those of features, up to the first one that is none, if there is such a name. -/
theorem exists_features (names : List String) : ∃ fs : List Feature, names = fs.map Feature.name ∨
    ∃ name after, names = fs.map Feature.name ++ name :: after ∧ ¬ IsFeatureName name := by
  induction names with
  | nil => exact ⟨[], .inl rfl⟩
  | cons name names ih =>
    by_cases hname : IsFeatureName name
    · obtain ⟨f, -, rfl⟩ := List.mem_map.mp hname
      obtain ⟨fs, rfl | ⟨other, after, rfl, hother⟩⟩ := ih
      · exact ⟨f :: fs, .inl rfl⟩
      · exact ⟨f :: fs, .inr ⟨other, after, rfl, hother⟩⟩
    · exact ⟨[], .inr ⟨name, names, rfl, hname⟩⟩

theorem selectFeatures_eq (h : value.allNames = .ok names) (noDefault : Bool) :
    selectFeatures value false noDefault = (names.mapM featureNamed).map fun fs =>
      (if noDefault then {} else .default : Features).union (.ofList fs) := by
  rw [selectFeatures, h]
  simp only [Bool.false_eq_true, if_false, bind, Except.bind]
  cases names.mapM featureNamed <;> rfl

theorem mem_names {name : String} :
    name ∈ features.names ↔ ∃ f, features.has f = true ∧ f.name = name := by
  simp only [Features.names, List.mem_map, Features.mem_toList]

theorem features_ext {a b : Features} (h : ∀ f, a.has f = b.has f) : a = b := by
  obtain ⟨_, _, _, _, _⟩ := a
  obtain ⟨_, _, _, _, _⟩ := b
  obtain rfl := h .derefImpls
  obtain rfl := h .diesel
  obtain rfl := h .secret
  obtain rfl := h .serde
  obtain rfl := h .testDebug
  rfl

/-- What is selected by names: the default features unless they are deselected, and the named ones.
The first name of no feature is reported. -/
inductive Selects (names : List String) (noDefault : Bool) : Except ConfigCause Features → Prop
  | known {features : Features} (hknown : ∀ name ∈ names, IsFeatureName name)
      (hmembers : ∀ name, name ∈ features.names ↔
        noDefault = false ∧ name ∈ Features.default.names ∨ name ∈ names) :
      Selects names noDefault (.ok features)
  | unknown {before after : List String} {name : String} {cause : ConfigCause}
      (hnames : names = before ++ name :: after) (hbefore : ∀ name ∈ before, IsFeatureName name)
      (hname : ¬ IsFeatureName name) (hcode : cause.error.code = .unknownFeature)
      (hmessage : cause.error.message = "Unknown feature: " ++ name) :
      Selects names noDefault (.error cause)

theorem mem_names_union_ofList (start : Features) (fs : List Feature) :
    name ∈ (start.union (.ofList fs)).names ↔ name ∈ start.names ∨ name ∈ fs.map Feature.name := by
  simp only [mem_names, Features.has_union, Features.has_ofList, Bool.or_eq_true,
    List.contains_iff_mem, or_and_right, exists_or, List.mem_map]

theorem selects_selectFeatures (h : value.allNames = .ok names) (noDefault : Bool) :
    Selects names noDefault (selectFeatures value false noDefault) := by
  have hfeatures (fs : List Feature) : ∀ name ∈ fs.map Feature.name, IsFeatureName name := by
    intro name hname
    obtain ⟨f, -, rfl⟩ := List.mem_map.mp hname
    exact isFeatureName_name f
  rw [selectFeatures_eq h]
  obtain ⟨fs, rfl | ⟨name, after, rfl, hname⟩⟩ := exists_features names
  · rw [mapM_featureNamed]
    refine .known (hfeatures fs) fun name => ?_
    rw [mem_names_union_ofList]
    have hempty : Features.names {} = [] := rfl
    cases noDefault <;> simp [hempty]
  · rw [mapM_featureNamed_of_unknown fs hname]
    exact .unknown rfl (hfeatures fs) hname rfl rfl

/-- What is selected is known by the names that are in it. -/
theorem features_eq_of_names {a b : Features} (h : ∀ name, name ∈ a.names ↔ name ∈ b.names) :
    a = b := by
  have hmem (features : Features) (f : Feature) :
      f.name ∈ features.names ↔ features.has f = true := by
    rw [mem_names]
    constructor
    · rintro ⟨g, hg, hname⟩
      have hsame := featureNamed_name g
      rw [hname, featureNamed_name] at hsame
      cases hsame
      exact hg
    · exact fun hf => ⟨f, hf, rfl⟩
  refine features_ext fun f => ?_
  rw [Bool.eq_iff_iff, ← hmem, ← hmem]
  exact h f.name

theorem holds_texts (texts : List String) : FeatureValue.Holds (.list (texts.map .text)) texts := by
  refine ⟨_, texts.map fun text => [text], rfl, ?_, ?_⟩
  · rw [List.forall₂_map_left_iff, List.forall₂_map_right_iff, List.forall₂_same]
    exact fun text _ => .text text
  · rw [← List.flatMap_def, List.flatMap_singleton']

/-- Names that are the same but for order and repetition select the same. -/
theorem selectFeatures_congr {other : FeatureValue} {others : List String}
    (h : value.allNames = .ok names) (hother : other.allNames = .ok others)
    (hsame : ∀ name, name ∈ others ↔ name ∈ names)
    (hselect : selectFeatures value false noDefault = .ok features) :
    selectFeatures other false noDefault = .ok features := by
  have hselects := selects_selectFeatures h noDefault
  have hothers := selects_selectFeatures hother noDefault
  rw [hselect] at hselects
  obtain ⟨hknown, hmembers⟩ := hselects
  generalize hresult : selectFeatures other false noDefault = result at hothers
  cases hothers with
  | known _ hmembers' =>
    congr 1
    refine features_eq_of_names fun name => ?_
    rw [hmembers', hmembers, hsame]
  | unknown hnames _ hname =>
    refine absurd (hknown _ ((hsame _).mp ?_)) hname
    rw [hnames]
    exact List.mem_append_right _ List.mem_cons_self

/-! ## Values for the features -/

/-- What a value for the features comes to, when these are the names in it. -/
structure FeatureValue.ComesTo (value : FeatureValue) (names : List String) : Prop where
  reads : value.allNames = .ok names
  /-- Read again, the names are the same. -/
  again : (FeatureValue.list (names.map .text)).allNames = .ok names
  selects : ∀ noDefault, Selects names noDefault (selectFeatures value false noDefault)
  /-- Another order and more occurrences of the names make no difference. -/
  unordered : ∀ (other : FeatureValue) (others : List String), other.allNames = .ok others →
    (∀ name, name ∈ others ↔ name ∈ names) → ∀ noDefault features,
    selectFeatures value false noDefault = .ok features →
    selectFeatures other false noDefault = .ok features

/-- The names in a list of texts and of lists of texts are those of the texts joined by commas, as
all values with the same parts in other texts and other lists have them, and they alone decide what
is selected. -/
theorem comesTo_of_holds (h : value.Holds texts) :
    ∃ names, NamesOf (",".intercalate texts) names ∧ value.ComesTo names ∧
      ∀ (other : FeatureValue) (chunks chunks' : List (List String)),
        texts = chunks.map (",".intercalate ·) → other.Holds (chunks'.map (",".intercalate ·)) →
        chunks'.flatten = chunks.flatten → other.allNames = .ok names := by
  have hnames := allNames_of_holds h
  refine ⟨texts.flatMap namesInText, namesOf_iff.mpr (namesInText_intercalate texts).symm, ?_, ?_⟩
  · refine ⟨hnames, ?_, selects_selectFeatures hnames, ?_⟩
    · rw [allNames_of_holds (holds_texts _), flatMap_namesInText_again]
    · intro other others hother hsame noDefault features
      exact selectFeatures_congr hnames hother hsame
  · intro other chunks chunks' htexts hother hchunks
    rw [allNames_of_holds hother, htexts, flatMap_namesInText_chunks, flatMap_namesInText_chunks,
      hchunks]

/-- Names in several texts, with blanks, an empty part and one of them twice. -/
theorem comesTo_of_holds_mixed :
    ∃ value : FeatureValue, value.Holds [" serde,, diesel ", "secret", "serde"] ∧
      ∃ names, NamesOf " serde,, diesel ,secret,serde" names ∧ value.ComesTo names ∧
        names = ["serde", "diesel", "secret", "serde"] := by
  have hholds : FeatureValue.Holds
      (.list [.text " serde,, diesel ", .list (["secret", "serde"].map .text)])
      [" serde,, diesel ", "secret", "serde"] :=
    ⟨_, [[" serde,, diesel "], ["secret", "serde"]], rfl,
      .cons (.text _) (.cons (.list _) .nil), rfl⟩
  obtain ⟨names, hnames, hcomes, -⟩ := comesTo_of_holds hholds
  refine ⟨_, hholds, names, hnames, hcomes, ?_⟩
  rw [namesOf_iff.mp hnames]
  decide +kernel

end Microtypes
