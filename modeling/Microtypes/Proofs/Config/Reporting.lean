import Microtypes.Proofs.Config.Reading

/-!
# What is reported about a configuration

Making a configuration for what a command line asks for comes to a configuration or to an error with
one of five codes, unless the source or the output is one of a few that the checks do not foresee
(`isReported_iff`).
-/

namespace Microtypes

open FileTree

variable {α ε : Type} {tree : FileTree} {options : Options} {features : Features}
  {given path output : Path} {fault : ConfigFault} {cause : FileCause}

/-- What making a configuration comes to in front of a tree. -/
def FileTree.configFor (tree : FileTree) (options : Options) : Except ConfigFault Config :=
  (trial (Config.ofOptions FileTree.system options) tree).1

/-- Whether there is a configuration, or an error that is reported by its code. -/
inductive IsReported : Except ConfigFault Config → Prop
  | made (config : Config) : IsReported (.ok config)
  | refused (cause : ConfigCause) (hcode : cause.error.code.name ∈ ["MISSING_INPUT",
      "PATH_NOT_FOUND", "UNKNOWN_FEATURE", "CONFLICT_GENERATE_DISCOVERY", "OUTPUT_IS_INPUT"]) :
      IsReported (.error (.config cause))

theorem isReported_config (cause : ConfigCause) : IsReported (.error (.config cause)) := by
  refine .refused cause ?_
  cases cause.error.code <;> decide

/-- Whether a command line asks for a source, with features and without a conflict of flags. -/
structure Options.AsksFor (options : Options) (given : Path) (features : Features) : Prop where
  features : selectFeatures options.featureValue options.allFeatures options.noDefaultFeatures =
    .ok features
  allowed : options.plan = true → options.output = none ∧ options.keepGoing = false
  unlisted : options.listFeatures = false
  input : options.input = some given

/-- Whether a command line asks for a file, made from a source that exists. -/
structure Options.Generates (options : Options) (tree : FileTree) (given : Path) : Prop where
  asks : ∃ features, options.AsksFor given features
  found : tree.pathExists given = .ok true
  unplanned : options.plan = false

/-- The ways in which no configuration is made and no error is reported. -/
inductive Escapes (tree : FileTree) (options : Options) : ConfigFault → Prop
  /-- The path of the source, or a component of it, is longer than the system allows. -/
  | tooLong {given : Path} (hasks : ∃ features, options.AsksFor given features)
      (hnull : hasNull given = false) (hfind : tree.find given = .error .nameTooLong) :
      Escapes tree options (.path (.refused ⟨.nameTooLong, given⟩))
  /-- There is no output, and none can be named after the source, which has no component. -/
  | noName {given : Path} (h : options.Generates tree given) (houtput : options.output = none)
      (hparts : given.parts = []) : Escapes tree options (.path (.noName given))
  /-- The flag for the output stands without a path. -/
  | noOutput {given : Path} (h : options.Generates tree given)
      (houtput : options.output = some .empty) : Escapes tree options (.abort .missingOutputPath)
  /-- The path of the output holds the null character. -/
  | nullOutput {given output : Path} (h : options.Generates tree given)
      (houtput : options.output = some (.path output)) (hnull : hasNull output = true) :
      Escapes tree options (.path .nullCharacter)

theorem not_isReported_of_escapes (h : Escapes tree options fault) :
    ¬IsReported (.error fault) := by
  intro hreported
  cases hreported with
  | refused cause hcode => cases h

/-! ## The null character in paths -/

/-- A path holds the null character exactly if one of its components does. -/
theorem hasNull_iff : hasNull path = true ↔ ∃ part ∈ path.parts, '\x00' ∈ part.toList := by
  have hroot : '\x00' ∉ path.root.text.toList := by cases path.root <;> decide
  have hwritten : '\x00' ∈ (path.root.text ++ "/".intercalate path.parts).toList ↔
      ∃ part ∈ path.parts, '\x00' ∈ part.toList := by
    rw [String.toList_append, List.mem_append, or_iff_right hroot, mem_intercalate (by decide)]
  rw [hasNull, List.contains_iff_mem, ← hwritten, Path.text]
  split
  · next hempty =>
    rw [String.isEmpty_iff] at hempty
    rw [hempty]
    decide
  · rfl

theorem withSuffix_eq_none_iff {suffix : String} :
    path.withSuffix? suffix = none ↔ path.parts = [] := by
  rw [Path.withSuffix?]
  split
  · next hparts => simpa using hparts
  · next hparts => simpa using hparts

theorem mem_of_mem_stem {name : List Char} {c : Char} (h : c ∈ Path.stem name) : c ∈ name := by
  rw [Path.stem] at h
  split at h
  · exact List.mem_of_mem_take h
  · exact h

/-- The output that is named after a source holds no null character either. -/
theorem hasNull_of_withSuffix (hnull : hasNull path = false)
    (h : path.withSuffix? rustSuffix = some output) : hasNull output = false := by
  rw [← Bool.not_eq_true, hasNull_iff] at hnull ⊢
  rw [Path.withSuffix?] at h
  split at h
  · cases h
  · next hparts =>
    cases h
    rintro ⟨part, hpart, hmem⟩
    rw [List.mem_append, List.mem_singleton] at hpart
    rcases hpart with hpart | rfl
    · exact hnull ⟨part, List.dropLast_subset _ hpart, hmem⟩
    · have hsuffix : '\x00' ∉ rustSuffix.toList := by decide
      rw [String.toList_append, List.mem_append, or_iff_left hsuffix, String.toList_ofList] at hmem
      have hne : path.parts ≠ [] := fun hnil => hparts (by rw [hnil]; rfl)
      have hname : path.name ∈ path.parts := by
        rw [Path.name, List.getLastD_eq_getLast?, List.getLast?_eq_some_getLast hne]
        exact List.getLast_mem hne
      exact hnull ⟨path.name, hname, mem_of_mem_stem hmem⟩

/-! ## Steps -/

@[simp] theorem mapError_ok {δ : Type} (wrap : δ → ε) (a : α) :
    (Except.ok a).mapError wrap = .ok a := rfl

@[simp] theorem mapError_error {δ : Type} (wrap : δ → ε) (fault : δ) :
    (Except.error fault : Except δ α).mapError wrap = .error (wrap fault) := rfl

@[simp] theorem trial_pure (a : α) (tree : FileTree) :
    trial (pure a : ExceptT ε (StateM FileTree) α) tree = (.ok a, tree) := rfl

@[simp] theorem trial_throw (e : ε) (tree : FileTree) :
    trial (throw e : ExceptT ε (StateM FileTree) α) tree = (.error e, tree) := rfl

theorem trial_lift (operation : StateM FileTree α) (tree : FileTree) :
    trial (liftM operation : ExceptT ε (StateM FileTree) α) tree =
      (.ok (operation.run tree).1, (operation.run tree).2) := rfl

theorem run_exists (path : Path) (tree : FileTree) :
    (FileTree.system.exists? path).run tree = (tree.pathExists path, tree) := rfl

theorem run_resolve (path : Path) (tree : FileTree) :
    (FileTree.system.resolve path).run tree = (tree.resolve path, tree) := rfl

@[simp] theorem trial_existingPath (flag : String) (suggestion : Option String) :
    trial (existingPath FileTree.system (some path) flag suggestion) tree =
      (match tree.pathExists path with
        | .error fault => .error (.path fault)
        | .ok true => .ok path
        | .ok false => .error (.config (.pathNotFound flag path suggestion)), tree) := by
  rw [existingPath, trial_bind, trial_lift, run_exists]
  rcases tree.pathExists path with fault | (_ | _) <;> rfl

@[simp] theorem trial_resolvedPath :
    trial (resolvedPath FileTree.system path) tree =
      ((tree.resolve path).mapError ConfigFault.path, tree) := by
  rw [resolvedPath, trial_bind, trial_lift, run_resolve]
  cases tree.resolve path <;> rfl

theorem resolve_eq_ok (hnull : hasNull path = false) :
    tree.resolve path = .ok (.ofAbsolute (path.absolute tree.base)) := by
  rw [FileTree.resolve, if_neg (by rw [hnull]; decide)]

/-- A component that cannot be followed does not exist, is below a file or is too long. -/
theorem cause_of_follow {here : List String} {parts : List String}
    (h : tree.follow here parts = .error cause) :
    cause = .notFound ∨ cause = .notDirectory ∨ cause = .nameTooLong := by
  induction parts generalizing here with
  | nil => cases h
  | cons part rest ih =>
    rw [FileTree.follow] at h
    split at h
    · cases h
      exact .inl rfl
    · cases h
      exact .inr (.inl rfl)
    · split at h
      · exact ih h
      · split at h
        · cases h
          exact .inr (.inr rfl)
        · exact ih h

theorem cause_of_find (h : tree.find path = .error cause) :
    cause = .notFound ∨ cause = .notDirectory ∨ cause = .nameTooLong := by
  rw [FileTree.find] at h
  split at h
  · next cause' hplace =>
    cases h
    rw [FileTree.placeOf] at hplace
    split at hplace
    · cases hplace
      exact .inr (.inr rfl)
    · exact cause_of_follow hplace
  -- The path was followed to its end, where nothing may stand.
  · split at h
    · cases h
      exact .inl rfl
    · cases h

/-- Whether a path exists cannot be told exactly if the system refuses it for its length. -/
theorem pathExists_eq_error_iff {refusal : PathFault} :
    tree.pathExists path = .error refusal ↔ hasNull path = false ∧
      tree.find path = .error .nameTooLong ∧ refusal = .refused ⟨.nameTooLong, path⟩ := by
  constructor
  · intro h
    rw [FileTree.pathExists] at h
    split at h
    · cases h
    · next hnull =>
      split at h
      · cases h
      · cases h
      · cases h
      · next cause hfound hdirectory hfind =>
        cases h
        rcases cause_of_find hfind with rfl | rfl | rfl
        · exact absurd rfl hfound
        · exact absurd rfl hdirectory
        · exact ⟨by simpa using hnull, hfind, rfl⟩
  · rintro ⟨hnull, hfind, rfl⟩
    rw [FileTree.pathExists, if_neg (by rw [hnull]; decide), hfind]

theorem hasNull_of_pathExists (h : tree.pathExists path = .ok true) : hasNull path = false := by
  rw [FileTree.pathExists] at h
  split at h
  · cases h
  · next hnull => simpa using hnull

/-! ## The configuration of a command line -/

theorem configFor_of_asksFor (h : options.AsksFor given features) :
    tree.configFor options =
      (trial (sourceConfig FileTree.system options features given) tree).1 := by
  have hallowed : ¬(options.plan = true ∧
      (options.output.isSome = true ∨ options.keepGoing = true)) := by
    rintro ⟨hplan, hflag⟩
    obtain ⟨houtput, hkeep⟩ := h.allowed hplan
    simp [houtput, hkeep] at hflag
  rw [FileTree.configFor, Config.ofOptions, trial_bind, h.features]
  simp [hallowed, h.unlisted, h.input]

/-- What a command line asks for is given or refused by its code, or it needs a source. -/
theorem isReported_or_asksFor (tree : FileTree) (options : Options) :
    IsReported (tree.configFor options) ∨ ∃ given features, options.AsksFor given features := by
  cases hfeatures :
      selectFeatures options.featureValue options.allFeatures options.noDefaultFeatures with
  | error cause =>
    left
    rw [FileTree.configFor, Config.ofOptions, trial_bind, hfeatures]
    exact isReported_config _
  | ok features =>
    rw [FileTree.configFor, Config.ofOptions, trial_bind, hfeatures]
    simp only [trial_liftExcept, mapError_ok]
    split
    · exact .inl (isReported_config .conflict)
    · next hallowed =>
      split
      · exact .inl (.made _)
      · next hunlisted =>
        cases hinput : options.input with
        | none => exact .inl (isReported_config _)
        | some given =>
          right
          refine ⟨given, features, hfeatures, fun hplan => ?_, by simpa using hunlisted, hinput⟩
          simpa [hplan] using hallowed

theorem isReported_of_targetPath (h : options.Generates tree given)
    (htarget : targetPath options given = .ok output) (hnull : hasNull output = false) :
    IsReported (tree.configFor options) := by
  obtain ⟨features, hasks⟩ := h.asks
  rw [configFor_of_asksFor hasks, sourceConfig]
  simp only [trial_bind, trial_existingPath, h.found, h.unplanned, Bool.false_eq_true, if_false,
    htarget, trial_liftExcept, trial_resolvedPath, resolve_eq_ok hnull,
    resolve_eq_ok (hasNull_of_pathExists h.found), mapError_ok]
  split
  · exact isReported_config _
  · exact .made _

/-- A file that is asked for is reported about unless its path is at fault. -/
theorem isReported_or_escapes_of_generates (h : options.Generates tree given) :
    IsReported (tree.configFor options) ∨ ∃ fault, Escapes tree options fault := by
  cases houtput : options.output with
  | none =>
    cases htarget : given.withSuffix? rustSuffix with
    | none => exact .inr ⟨_, .noName h houtput (withSuffix_eq_none_iff.mp htarget)⟩
    | some output =>
      have hnull := hasNull_of_withSuffix (hasNull_of_pathExists h.found) htarget
      refine .inl (isReported_of_targetPath h ?_ hnull)
      rw [targetPath, houtput]
      simp only [htarget]
  | some request =>
    cases request with
    | empty => exact .inr ⟨_, .noOutput h houtput⟩
    | path output =>
      cases hnull : hasNull output with
      | true => exact .inr ⟨_, .nullOutput h houtput hnull⟩
      | false =>
        refine .inl (isReported_of_targetPath h ?_ hnull)
        rw [targetPath, houtput]

theorem isReported_or_escapes (tree : FileTree) (options : Options) :
    IsReported (tree.configFor options) ∨ ∃ fault, Escapes tree options fault := by
  rcases isReported_or_asksFor tree options with hreported | ⟨given, features, hasks⟩
  · exact .inl hreported
  -- From here on the checks look at the tree, and a path may be at fault.
  cases hexists : tree.pathExists given with
  | error refusal =>
    obtain ⟨hnull, hfind, -⟩ := pathExists_eq_error_iff.mp hexists
    exact .inr ⟨_, .tooLong ⟨features, hasks⟩ hnull hfind⟩
  | ok found =>
    cases found with
    | false =>
      left
      rw [configFor_of_asksFor hasks, sourceConfig, trial_bind, trial_existingPath, hexists]
      exact isReported_config _
    | true =>
      cases hplan : options.plan with
      | true =>
        left
        rw [configFor_of_asksFor hasks, sourceConfig, trial_bind, trial_existingPath, hexists]
        simp only [hplan, if_true]
        exact .made _
      | false => exact isReported_or_escapes_of_generates ⟨⟨features, hasks⟩, hexists, hplan⟩

theorem configFor_of_targetPath (h : options.Generates tree given)
    (htarget : targetPath options given = .error fault) :
    tree.configFor options = .error fault := by
  obtain ⟨features, hasks⟩ := h.asks
  rw [configFor_of_asksFor hasks, sourceConfig]
  simp [trial_bind, h.found, h.unplanned, htarget]

theorem configFor_of_escapes (h : Escapes tree options fault) :
    tree.configFor options = .error fault := by
  cases h with
  | tooLong hasks hnull hfind =>
    obtain ⟨features, hasks⟩ := hasks
    rw [configFor_of_asksFor hasks, sourceConfig, trial_bind, trial_existingPath,
      pathExists_eq_error_iff.mpr ⟨hnull, hfind, rfl⟩]
  | noName hgenerates houtput hparts =>
    refine configFor_of_targetPath hgenerates ?_
    rw [targetPath, houtput]
    simp only [withSuffix_eq_none_iff.mpr hparts]
  | noOutput hgenerates houtput =>
    refine configFor_of_targetPath hgenerates ?_
    rw [targetPath, houtput]
  | @nullOutput given output hgenerates houtput hnull =>
    obtain ⟨features, hasks⟩ := hgenerates.asks
    have htarget : targetPath options given = .ok output := by rw [targetPath, houtput]
    have hresolve : tree.resolve output = .error .nullCharacter := by
      rw [FileTree.resolve, if_pos hnull]
    rw [configFor_of_asksFor hasks, sourceConfig]
    simp [trial_bind, hgenerates.found, hgenerates.unplanned, htarget, hresolve]

/-- Making a configuration comes to a configuration or to an error with one of the five codes,
unless the command line is one of those that escape, and then it ends with the fault that the escape
names. -/
theorem isReported_iff (tree : FileTree) (options : Options) :
    (IsReported (tree.configFor options) ↔ ∀ fault, ¬Escapes tree options fault) ∧
      ∀ fault, Escapes tree options fault → tree.configFor options = .error fault := by
  refine ⟨⟨fun hreported fault hescapes => ?_, fun hnone => ?_⟩, fun fault => configFor_of_escapes⟩
  · rw [configFor_of_escapes hescapes] at hreported
    exact not_isReported_of_escapes hescapes hreported
  · rcases isReported_or_escapes tree options with hreported | ⟨fault, hescapes⟩
    · exact hreported
    · exact absurd hescapes (hnone fault)

/-- The flag for the output stands without a path, beside a source that exists. -/
theorem isReported_iff_noOutput :
    Escapes ⟨["w"], [(["w", "a"], .file [])]⟩ { input := some (.ofText "a"), output := some .empty }
      (.abort .missingOutputPath) ∧
    FileTree.configFor ⟨["w"], [(["w", "a"], .file [])]⟩
        { input := some (.ofText "a"), output := some .empty } =
      .error (.abort .missingOutputPath) := by
  have hescapes : Escapes ⟨["w"], [(["w", "a"], .file [])]⟩
      { input := some (.ofText "a"), output := some .empty } (.abort .missingOutputPath) :=
    .noOutput ⟨⟨.default, rfl, by simp, rfl, rfl⟩, by rfl, rfl⟩ rfl
  exact ⟨hescapes, (isReported_iff _ _).2 _ hescapes⟩

/-- The working directory exists and has no name that an output could be named after. -/
theorem isReported_fails_dot :
    FileTree.configFor ⟨["w"], []⟩ { input := some (.ofText ".") } =
      .error (.path (.noName ⟨.relative, []⟩)) ∧
    ¬IsReported (FileTree.configFor ⟨["w"], []⟩ { input := some (.ofText ".") }) := by
  have hfault : FileTree.configFor ⟨["w"], []⟩ { input := some (.ofText ".") } =
      .error (.path (.noName ⟨.relative, []⟩)) := by rfl
  refine ⟨hfault, fun hreported => ?_⟩
  rw [hfault] at hreported
  cases hreported

end Microtypes
