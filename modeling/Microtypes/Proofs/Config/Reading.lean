import Microtypes.Config.Config
import Microtypes.Fallible
import Microtypes.File.Tree

/-!
# A configuration on a tree of files

Making a configuration asks the files questions and changes none of them (`stays_ofArguments`). The
configuration of a run that writes has the source that the command line names, and its output leads
to another place than its source, however the two are written (`of_config_eq_generate`).
-/

namespace Microtypes

variable {α β ε : Type} {tree made after : FileTree}

/-! ## Operations that may fail, on a tree -/

namespace FileTree

/-- What an operation that may fail makes of a tree. -/
def trial (operation : ExceptT ε (StateM FileTree) α) (tree : FileTree) : Except ε α × FileTree :=
  operation.run.run tree

variable {operation : ExceptT ε (StateM FileTree) α} {next : α → ExceptT ε (StateM FileTree) β}
  {b : β}

@[simp] theorem trial_liftExcept (result : Except ε α) (tree : FileTree) :
    trial (liftExcept result : ExceptT ε (StateM FileTree) α) tree = (result, tree) := by
  cases result <;> rfl

theorem of_trial_liftExcept {δ : Type} {result : Except δ α} {wrap : δ → ε} {a : α}
    (h : trial (liftExcept (result.mapError wrap) : ExceptT ε (StateM FileTree) α) tree =
      (.ok a, made)) : result = .ok a := by
  rw [trial_liftExcept] at h
  exact mapError_eq_ok_iff.mp (congrArg Prod.fst h)

theorem trial_bind (operation : ExceptT ε (StateM FileTree) α)
    (next : α → ExceptT ε (StateM FileTree) β) (tree : FileTree) :
    trial (operation >>= next) tree =
      match trial operation tree with
      | (.ok a, made) => trial (next a) made
      | (.error e, made) => (.error e, made) := by
  simp only [trial, ExceptT.run, StateT.run, bind, ExceptT.bind, ExceptT.mk, StateT.bind]
  rcases operation tree with ⟨result, made⟩
  cases result <;> rfl

theorem trial_bind_eq_ok (h : trial (operation >>= next) tree = (.ok b, after)) :
    ∃ a made, trial operation tree = (.ok a, made) ∧ trial (next a) made = (.ok b, after) := by
  rw [trial_bind] at h
  rcases hfirst : trial operation tree with ⟨result, made⟩
  rw [hfirst] at h
  cases result with
  | error e => cases h
  | ok a => exact ⟨a, made, rfl, h⟩

/-- Whether an operation leaves every tree as it is. -/
def Stays (operation : ExceptT ε (StateM FileTree) α) : Prop :=
  ∀ tree, (trial operation tree).2 = tree

theorem stays_pure (a : α) : Stays (pure a : ExceptT ε (StateM FileTree) α) := fun _ => rfl

theorem stays_throw (e : ε) : Stays (throw e : ExceptT ε (StateM FileTree) α) := fun _ => rfl

theorem stays_liftExcept (result : Except ε α) :
    Stays (liftExcept result : ExceptT ε (StateM FileTree) α) := fun tree => by
  rw [trial_liftExcept]

theorem stays_lift {operation : StateM FileTree α} (h : ∀ tree, (operation.run tree).2 = tree) :
    Stays (liftM operation : ExceptT ε (StateM FileTree) α) := h

theorem Stays.bind (h : Stays operation) (hnext : ∀ a, Stays (next a)) :
    Stays (operation >>= next) := by
  intro tree
  have hfirst := h tree
  rw [trial_bind]
  rcases htrial : trial operation tree with ⟨result, made⟩
  rw [htrial] at hfirst
  cases result with
  | error e => exact hfirst
  | ok a =>
    rw [← hfirst]
    exact hnext a made

/-- An operation behind a check. -/
theorem Stays.unless {c : Prop} [Decidable c] (h : Stays operation) (e : ε) :
    Stays (if c then throw e >>= fun _ : PUnit => operation else operation) := by
  split
  · exact (stays_throw e).bind fun _ => h
  · exact h

theorem snd_trial_bind (hnext : ∀ a, Stays (next a)) :
    (trial (operation >>= next) tree).2 = (trial operation tree).2 := by
  rw [trial_bind]
  rcases trial operation tree with ⟨result, made⟩
  cases result with
  | error e => rfl
  | ok a => exact hnext a made

theorem Stays.of_bind (hstays : Stays operation)
    (h : trial (operation >>= next) tree = (.ok b, after)) :
    ∃ a, trial operation tree = (.ok a, tree) ∧ trial (next a) tree = (.ok b, after) := by
  obtain ⟨a, made, hfirst, hnext⟩ := trial_bind_eq_ok h
  have hmade : made = tree := by rw [← hstays tree, hfirst]
  subst hmade
  exact ⟨a, hfirst, hnext⟩

end FileTree

open FileTree

/-! ## Making a configuration -/

variable {options : Options} {features : Features} {given path resolved : Path}
  {flag : String} {suggestion : Option String}

theorem stays_existingPath (path : Option Path) (flag : String) (suggestion : Option String) :
    Stays (existingPath FileTree.system path flag suggestion) := by
  cases path with
  | none => exact stays_throw _
  | some path =>
    refine (stays_lift fun _ => rfl).bind ?_
    rintro (fault | found)
    · exact stays_throw _
    · cases found with
      | false => exact stays_throw _
      | true => exact stays_pure path

theorem stays_resolvedPath (path : Path) : Stays (resolvedPath FileTree.system path) := by
  refine (stays_lift fun _ => rfl).bind ?_
  rintro (fault | resolved)
  · exact stays_throw _
  · exact stays_pure resolved

theorem stays_sourceConfig (options : Options) (features : Features) (given : Path) :
    Stays (sourceConfig FileTree.system options features given) := by
  refine (stays_existingPath _ _ _).bind ?_
  intro input
  dsimp only
  split
  · exact stays_pure _
  · refine (stays_liftExcept _).bind fun output => ?_
    refine (stays_resolvedPath _).bind fun written => ?_
    refine (stays_resolvedPath _).bind fun source => ?_
    exact (stays_pure _).unless _

theorem stays_ofOptions (options : Options) : Stays (Config.ofOptions FileTree.system options) := by
  refine (stays_liftExcept _).bind fun features => ?_
  refine Stays.unless ?_ _
  split
  · exact stays_pure _
  · split
    · exact stays_throw _
    · exact stays_sourceConfig _ _ _

/-- No file is changed for a configuration. -/
theorem stays_ofArguments (arguments : List String) :
    Stays (Config.ofArguments FileTree.system arguments) :=
  (stays_liftExcept _).bind stays_ofOptions

/-- The configuration for a command line in front of a tree. -/
def FileTree.config (tree : FileTree) (arguments : List String) : Except ConfigFault Config :=
  (trial (Config.ofArguments FileTree.system arguments) tree).1

theorem trial_ofArguments (tree : FileTree) (arguments : List String) :
    trial (Config.ofArguments FileTree.system arguments) tree = (tree.config arguments, tree) :=
  Prod.ext rfl (stays_ofArguments arguments tree)

/-! ## The places of a run that writes -/

theorem eq_of_existingPath
    (h : trial (existingPath FileTree.system (some given) flag suggestion) tree =
      (.ok path, made)) : path = given := by
  obtain ⟨found, made', -, h⟩ := trial_bind_eq_ok h
  rcases found with fault | found
  · cases h
  · cases found with
    | false => cases h
    | true =>
      cases h
      rfl

theorem eq_of_resolvedPath
    (h : trial (resolvedPath FileTree.system path) tree = (.ok resolved, made)) :
    resolved = .ofAbsolute (path.absolute tree.base) := by
  obtain ⟨result, made', hresult, h⟩ := trial_bind_eq_ok h
  rcases result with fault | resolved'
  · cases h
  · cases h
    have hresolve : tree.resolve path = .ok resolved := Except.ok.inj (congrArg Prod.fst hresult)
    rw [FileTree.resolve] at hresolve
    split at hresolve
    · cases hresolve
    · cases hresolve
      rfl

theorem of_sourceConfig_eq_generate {config : Generation}
    (h : trial (sourceConfig FileTree.system options features given) tree =
      (.ok (.generate config), made)) :
    config.input = given ∧
      config.input.absolute tree.base ≠ config.output.absolute tree.base := by
  obtain ⟨input, hinput, h⟩ := (stays_existingPath _ _ _).of_bind h
  split at h
  · cases h
  obtain ⟨output, houtput, h⟩ := (stays_liftExcept _).of_bind h
  obtain ⟨written, hwritten, h⟩ := (stays_resolvedPath _).of_bind h
  obtain ⟨source, hsource, h⟩ := (stays_resolvedPath _).of_bind h
  split at h
  · cases h
  · next hne =>
    cases h
    rw [eq_of_resolvedPath hwritten, eq_of_resolvedPath hsource] at hne
    refine ⟨eq_of_existingPath hinput, ?_⟩
    intro hsame
    exact hne (congrArg Path.ofAbsolute hsame.symm)

/-- A configuration to write is made for the source of the command line, and for an output at
another place. -/
theorem of_config_eq_generate {arguments : List String} {config : Generation}
    (h : tree.config arguments = .ok (.generate config)) :
    ∃ options, Options.ofArguments arguments = .ok options ∧ options.input = some config.input ∧
      config.input.absolute tree.base ≠ config.output.absolute tree.base := by
  have htrial := trial_ofArguments tree arguments
  rw [h] at htrial
  obtain ⟨options, hoptions, htrial⟩ := (stays_liftExcept _).of_bind htrial
  obtain ⟨features, hfeatures, htrial⟩ := (stays_liftExcept _).of_bind htrial
  dsimp only at htrial
  split at htrial
  · cases htrial
  split at htrial
  · cases htrial
  split at htrial
  · cases htrial
  · next given hgiven =>
    obtain ⟨hinput, hplaces⟩ := of_sourceConfig_eq_generate htrial
    exact ⟨options, of_trial_liftExcept hoptions, hinput ▸ hgiven, hplaces⟩

end Microtypes
