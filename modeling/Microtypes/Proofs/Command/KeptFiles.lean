import Microtypes.Proofs.Command.Steps
import Microtypes.Proofs.File.Saving
import Microtypes.Proofs.Text.Encoding

/-!
# What a run does to the files

A run without a configuration, or for a table, touches nothing (`runs_runCommand`). A run that
writes comes to saving its file only when the declaration file was read and decoded and its errors,
if any, are to be embedded (`generates_generateFile`); and what is saved lies at another place than
the declaration file, however the two paths are written. So no run damages a file, and one that
succeeds leaves just the file that it reports (`keepsFiles_runCommand`).
-/

namespace Microtypes

open FileTree RunT

variable {tree after : FileTree} {run : Run} {arguments : List String} {config : Generation}

/-! ## A run that writes -/

/-- The report of a run that wrote a file. -/
def Generation.report (config : Generation) (e : Expansion) (written : WrittenFile) : Console where
  standardOutput := "Parsing: " ++ config.input.text ++ "\n" ++
    s!"  Declarations: {e.declarations.length} blocks, {e.specs.length} microtypes\n" ++
    (s!"  Written: {written.lines} lines to " ++ written.path.text ++ "\n") ++
    (e.summary config.input.name (namesLabel config.features.names) written).text
  standardError := unlines (e.errors.map (·.consoleLine config.input.text))

/-- The saving of the file of a configuration. -/
def Generation.saving (config : Generation) (e : Expansion) :
    ExceptT RunFault (StateM FileTree) WrittenFile :=
  saveFile FileTree.system config.output config.input.name config.features.names e config.keepGoing

/-- What a run that writes makes of a tree, with one case for each way out. -/
inductive Generates (config : Generation) (tree : FileTree) :
    (Except Ending Unit × Console) × FileTree → Prop
  | unread (fault : RunFault) (ending : Ending) (out : Console)
      (hexpansion : tree.expansion config.input config.features = .error fault)
      (hending : ending ≠ .exit 0) : Generates config tree ((.error ending, out), tree)
  | failed (e : Expansion) (out : Console)
      (hexpansion : tree.expansion config.input config.features = .ok e)
      (hok : e.ok = false) (hkeep : config.keepGoing = false) :
      Generates config tree ((.error (.exit 1), out), tree)
  | unsaved (e : Expansion) (fault : RunFault) (ending : Ending) (out : Console) (after : FileTree)
      (hexpansion : tree.expansion config.input config.features = .ok e)
      (hgo : e.ok = true ∨ config.keepGoing = true)
      (hsave : trial (config.saving e) tree = (.error fault, after)) (hending : ending ≠ .exit 0) :
      Generates config tree ((.error ending, out), after)
  | written (e : Expansion) (written : WrittenFile) (after : FileTree)
      (hexpansion : tree.expansion config.input config.features = .ok e)
      (hgo : e.ok = true ∨ config.keepGoing = true)
      (hsave : trial (config.saving e) tree = (.ok written, after)) :
      Generates config tree ((.ok (), config.report e written), after)

theorem generates_generateFile (config : Generation) (tree : FileTree) :
    Generates config tree ((generateFile FileTree.system config).on {} tree) := by
  rw [generateFile, on_say_bind]
  cases hexpansion : tree.expansion config.input config.features with
  | error fault =>
    refine (stops_expandFile hexpansion).bind.elim ?_ _
    intro ending out hending
    exact .unread fault ending out hexpansion hending
  | ok e =>
    rw [on_bind, on_expandFile hexpansion]
    simp only [on_say_bind, on_complain_bind, String.empty_append]
    split
    · next hstop =>
      rw [Bool.and_eq_true, Bool.not_eq_true', Bool.not_eq_true'] at hstop
      rw [on_say_bind]
      exact .failed e _ hexpansion hstop.1 hstop.2
    · next hgo =>
      rw [Bool.and_eq_true, Bool.not_eq_true', Bool.not_eq_true', not_and_or,
        Bool.not_eq_false, Bool.not_eq_false] at hgo
      rcases hsave : trial (config.saving e) tree with ⟨result, after⟩
      have hrun : (config.saving e).run.run tree = (result, after) := hsave
      rw [on_bind, on_lift]
      dsimp only
      rw [← Generation.saving, hrun]
      cases result with
      | error fault =>
        refine (stops_giveUp fault after).bind.elim ?_ _
        intro ending out hending
        exact .unsaved e fault ending out after hexpansion hgo hsave hending
      | ok written => exact .written e written after hexpansion hgo hsave

/-! ## The whole run -/

theorem keeps_refuse (fault : ConfigFault) :
    Keeps (refuse fault : RunT (StateM FileTree) Unit) := by
  cases fault with
  | exit exit =>
    exact (keeps_say _).bind fun _ => (keeps_complain _).bind fun _ => keeps_throw _
  | config cause => exact (keeps_say _).bind fun _ => keeps_throw _
  | path fault => exact keeps_throw _
  | abort abort => exact keeps_throw _

/-- Showing a table leaves the files alone. -/
theorem keeps_runConfig_plan (input : Path) (features : Features) :
    Keeps (runConfig FileTree.system (.plan input features)) := by
  refine (keeps_expandFile input features).bind fun e => ?_
  refine (keeps_say _).bind fun _ => ?_
  split
  · exact keeps_throw _
  · exact keeps_pure ()

/-- How a run ends after its last step. -/
def Run.ofSteps : Except Ending Unit × Console → Run
  | (.ok (), console) => ⟨console, .exit 0⟩
  | (.error ending, console) => ⟨console, ending⟩

theorem run_runCommand (tree : FileTree) (arguments : List String) :
    (runCommand FileTree.system arguments).run tree =
      (Run.ofSteps ((runSteps FileTree.system arguments).on {} tree).1,
        ((runSteps FileTree.system arguments).on {} tree).2) := by
  rw [runCommand, StateT.run_bind, RunT.on]
  rcases ((runSteps FileTree.system arguments).run.run {}).run tree with ⟨⟨result, out⟩, after⟩
  cases result <;> rfl

/-- The files are asked for the configuration, and what follows is up to it. -/
theorem on_runSteps (tree : FileTree) (arguments : List String) (console : Console) :
    (runSteps FileTree.system arguments).on console tree =
      match tree.config arguments with
      | .error fault => (refuse fault).on console tree
      | .ok config => (runConfig FileTree.system config).on console tree := by
  have hconfig : (Config.ofArguments FileTree.system arguments).run.run tree =
      (tree.config arguments, tree) := trial_ofArguments tree arguments
  rw [runSteps, on_bind, on_lift, hconfig]
  cases tree.config arguments <;> rfl

/-- What a run makes of a tree. Only a run that writes may change it. -/
inductive Runs (tree : FileTree) (arguments : List String) : Run → FileTree → Prop
  | refused (fault : ConfigFault) (run : Run) (hconfig : tree.config arguments = .error fault) :
      Runs tree arguments run tree
  | listed (features : Features) (run : Run)
      (hconfig : tree.config arguments = .ok (.listFeatures features)) :
      Runs tree arguments run tree
  | planned (input : Path) (features : Features) (run : Run)
      (hconfig : tree.config arguments = .ok (.plan input features)) :
      Runs tree arguments run tree
  | generated (config : Generation) (steps : Except Ending Unit × Console) (after : FileTree)
      (hconfig : tree.config arguments = .ok (.generate config))
      (hsteps : Generates config tree (steps, after)) :
      Runs tree arguments (.ofSteps steps) after

theorem runs_runCommand (tree : FileTree) (arguments : List String) :
    Runs tree arguments ((runCommand FileTree.system arguments).run tree).1
      ((runCommand FileTree.system arguments).run tree).2 := by
  rw [run_runCommand, on_runSteps]
  cases hconfig : tree.config arguments with
  | error fault =>
    dsimp only
    rw [keeps_refuse fault {} tree]
    exact .refused fault _ hconfig
  | ok config =>
    cases config with
    | listFeatures features => exact .listed features _ hconfig
    | plan input features =>
      dsimp only
      rw [keeps_runConfig_plan input features {} tree]
      exact .planned input features _ hconfig
    | generate config => exact .generated config _ _ hconfig (generates_generateFile config tree)

/-! ## The files after a run -/

/-- What a run that writes leaves behind. -/
structure Writes (tree : FileTree) (config : Generation) (run : Run) (after : FileTree)
    (source : String) (e : Expansion) (contents : String) (written : WrittenFile) : Prop where
  /-- The source is the text of the declaration file. -/
  readable : tree.source config.input = .ok source
  expanded : Expansion.ofSource source config.features = .ok e
  assembled :
    assemble config.input.name config.features.names e config.keepGoing = .ok contents
  /-- The generated file holds the bytes of the contents, at the place that its path leads to. -/
  stored : after.node? (config.output.absolute tree.base) = some (.file (encodeUtf8 contents))
  opened : after.read config.output = .ok (encodeUtf8 contents)
  base : after.base = tree.base
  /-- What is new elsewhere are missing directories above the file. -/
  elsewhere : ∀ q, q ≠ config.output.absolute tree.base → after.node? q = tree.node? q ∨
    q ∈ wayTo tree.base config.output.parent ∧ tree.node? q = none ∧
      after.node? q = some .directory
  /-- The file is measured as it is. -/
  saved : trial (config.saving e) tree = (.ok written, after)
  lines : written.lines = (encodeUtf8 contents).count 10
  bytes : written.bytes = (encodeUtf8 contents).length
  reported : run.console = config.report e written

/-- What a run may do to the files. -/
structure KeepsFiles (tree : FileTree) (arguments : List String) (run : Run) (after : FileTree) :
    Prop where
  /-- The declaration file stays as it is, however the run ends. -/
  source : ∀ options input, Options.ofArguments arguments = .ok options →
    options.input = some input → after.read input = tree.read input
  /-- Nothing is touched without a configuration. -/
  refused : ∀ fault, tree.config arguments = .error fault → after = tree
  /-- Nothing is touched for a table. -/
  listed : ∀ features, tree.config arguments = .ok (.listFeatures features) → after = tree
  planned : ∀ input features, tree.config arguments = .ok (.plan input features) → after = tree
  /-- Nothing is touched when the declaration file cannot be read or decoded. -/
  unread : ∀ config fault, tree.config arguments = .ok (.generate config) →
    tree.source config.input = .error fault → after = tree
  /-- Nothing is touched when there are errors, unless that is asked for. -/
  failed : ∀ config source e, tree.config arguments = .ok (.generate config) →
    tree.source config.input = .ok source → Expansion.ofSource source config.features = .ok e →
      e.ok = false → config.keepGoing = false → after = tree
  /-- A run that succeeds leaves the generated file behind and touches nothing else. -/
  written : ∀ config, tree.config arguments = .ok (.generate config) → run.ending = .exit 0 →
    ∃ source e contents written, Writes tree config run after source e contents written

/-- A run that keeps the tree and does not succeed in writing keeps the files. -/
theorem KeepsFiles.of_eq (hafter : after = tree)
    (hending : ∀ config, tree.config arguments = .ok (.generate config) →
      run.ending ≠ .exit 0) : KeepsFiles tree arguments run after where
  source _ _ _ _ := by rw [hafter]
  refused _ _ := hafter
  listed _ _ := hafter
  planned _ _ _ := hafter
  unread _ _ _ _ := hafter
  failed _ _ _ _ _ _ _ _ := hafter
  written config hconfig hexit := absurd hexit (hending config hconfig)

variable {result : Except RunFault WrittenFile} {e : Expansion} {bytes : List UInt8}

/-- Whatever becomes of the saving, the declaration file is read as before. -/
theorem read_of_saving (hsave : trial (config.saving e) tree = (result, after))
    (hread : tree.read config.input = .ok bytes)
    (hplaces : config.input.absolute tree.base ≠ config.output.absolute tree.base) :
    after.read config.input = .ok bytes := by
  rcases of_saveFile hsave with hkept | ⟨contents, hafter⟩
  · rwa [hkept]
  · exact read_of_save (Prod.ext hafter rfl) hread hplaces

theorem writes_of_saving {source : String} {written : WrittenFile} (hbase : ".." ∉ tree.base)
    (hsource : tree.source config.input = .ok source)
    (hexpand : Expansion.ofSource source config.features = .ok e)
    (hsave : trial (config.saving e) tree = (.ok written, after)) :
    ∃ contents, Writes tree config ⟨config.report e written, .exit 0⟩ after source e contents
      written := by
  obtain ⟨contents, path, stored, hassemble, hsaved, hresolve, hread, hwritten⟩ :=
    of_saveFile_eq_ok hsave
  have hsaves := saves_save config.output (encodeUtf8 contents) tree
  rw [hsaved] at hsaves
  obtain ⟨hnull, hplace, hnode⟩ := hsaves.stored
  have hback := node?_of_read_resolved (by rwa [hsaves.base]) hresolve hread
  rw [hsaves.base, hnode] at hback
  cases hback
  exact ⟨contents, {
    readable := hsource
    expanded := hexpand
    assembled := hassemble
    stored := hnode
    opened := read_eq_ok_iff.mpr ⟨hnull, _, hplace, hnode⟩
    base := hsaves.base
    elsewhere := fun q hq => hsaves.elsewhere hq
    saved := hsave
    lines := by rw [hwritten, count_encodeUtf8]
    bytes := by rw [hwritten]
    reported := rfl }⟩

/-- A run that comes to saving its file keeps the others. -/
theorem keepsFiles_of_saving (hconfig : tree.config arguments = .ok (.generate config))
    (hexpansion : tree.expansion config.input config.features = .ok e)
    (hgo : e.ok = true ∨ config.keepGoing = true)
    (hsave : trial (config.saving e) tree = (result, after))
    (hwritten : run.ending = .exit 0 →
      ∃ source e contents written, Writes tree config run after source e contents written) :
    KeepsFiles tree arguments run after := by
  obtain ⟨source, hsource, hexpand⟩ := expansion_eq_ok_iff.mp hexpansion
  obtain ⟨bytes, hread, -⟩ := source_eq_ok_iff.mp hsource
  refine ⟨?source, ?refused, ?listed, ?planned, ?unread, ?failed, ?written⟩
  case source =>
    intro options input hoptions hinput
    obtain ⟨options', hoptions', hinput', hplaces⟩ := of_config_eq_generate hconfig
    rw [hoptions] at hoptions'
    cases hoptions'
    rw [hinput] at hinput'
    cases hinput'
    rw [hread, read_of_saving hsave hread hplaces]
  case refused =>
    intro fault h
    rw [hconfig] at h
    cases h
  case listed =>
    intro features h
    rw [hconfig] at h
    cases h
  case planned =>
    intro input features h
    rw [hconfig] at h
    cases h
  case unread =>
    intro config' fault h hunread
    rw [hconfig] at h
    cases h
    rw [hsource] at hunread
    cases hunread
  case failed =>
    intro config' source' e' h hsource' hexpand' hok hkeep
    rw [hconfig] at h
    cases h
    rw [hsource] at hsource'
    cases hsource'
    rw [hexpand] at hexpand'
    cases hexpand'
    rw [hok, hkeep] at hgo
    simp at hgo
  case written =>
    intro config' h hexit
    rw [hconfig] at h
    cases h
    exact hwritten hexit

theorem keepsFiles_of_generates {steps : Except Ending Unit × Console} (hbase : ".." ∉ tree.base)
    (hconfig : tree.config arguments = .ok (.generate config))
    (hsteps : Generates config tree (steps, after)) :
    KeepsFiles tree arguments (.ofSteps steps) after := by
  cases hsteps with
  | unread fault ending out hexpansion hending => exact .of_eq rfl fun _ _ => hending
  | failed e out hexpansion hok hkeep =>
    refine .of_eq rfl fun _ _ => ?_
    intro hexit
    cases hexit
  | unsaved e fault ending out after hexpansion hgo hsave hending =>
    exact keepsFiles_of_saving hconfig hexpansion hgo hsave fun hexit => absurd hexit hending
  | written e written after hexpansion hgo hsave =>
    refine keepsFiles_of_saving hconfig hexpansion hgo hsave fun _ => ?_
    obtain ⟨source, hsource, hexpand⟩ := expansion_eq_ok_iff.mp hexpansion
    obtain ⟨contents, hwrites⟩ := writes_of_saving hbase hsource hexpand hsave
    exact ⟨source, e, contents, written, hwrites⟩

/-- No run damages a file. The declaration file is never changed, nothing is changed by a run that
does not come to writing, and a run that succeeds puts the generated file at its place and makes the
directories above it that are missing. No working directory is named by two dots. -/
theorem keepsFiles_runCommand (tree : FileTree) (arguments : List String)
    (hbase : ".." ∉ tree.base) :
    KeepsFiles tree arguments ((runCommand FileTree.system arguments).run tree).1
      ((runCommand FileTree.system arguments).run tree).2 := by
  have hruns := runs_runCommand tree arguments
  generalize ((runCommand FileTree.system arguments).run tree).1 = run at hruns ⊢
  generalize ((runCommand FileTree.system arguments).run tree).2 = after at hruns ⊢
  cases hruns with
  | refused fault run hconfig =>
    refine .of_eq rfl fun config h => ?_
    rw [hconfig] at h
    cases h
  | listed features run hconfig =>
    refine .of_eq rfl fun config h => ?_
    rw [hconfig] at h
    cases h
  | planned input features run hconfig =>
    refine .of_eq rfl fun config h => ?_
    rw [hconfig] at h
    cases h
  | generated config steps after hconfig hsteps =>
    exact keepsFiles_of_generates hbase hconfig hsteps

/-- A working directory that holds one declaration file. -/
def oneFile : FileTree := ⟨["work"], [(["work", "a.mt"], .file (encodeUtf8 "A{B}"))]⟩

/-- A run that succeeds, with its output in a directory that is missing before. -/
theorem keepsFiles_runCommand_missingDirectory :
    ".." ∉ oneFile.base ∧
      oneFile.config ["a.mt", "-o", "out/b.rs"] = .ok (.generate
        ⟨⟨.relative, ["a.mt"]⟩, ⟨.relative, ["out", "b.rs"]⟩, .default, false⟩) ∧
      ((runCommand FileTree.system ["a.mt", "-o", "out/b.rs"]).run oneFile).1.ending = .exit 0 ∧
      ((runCommand FileTree.system ["a.mt", "-o", "out/b.rs"]).run oneFile).2.node?
        ["work", "out"] = some .directory ∧
      KeepsFiles oneFile ["a.mt", "-o", "out/b.rs"]
        ((runCommand FileTree.system ["a.mt", "-o", "out/b.rs"]).run oneFile).1
        ((runCommand FileTree.system ["a.mt", "-o", "out/b.rs"]).run oneFile).2 := by
  have hbase : ".." ∉ oneFile.base := by decide
  refine ⟨hbase, ?_, ?_, ?_, keepsFiles_runCommand oneFile _ hbase⟩
  · decide +kernel
  · decide +kernel
  · decide +kernel

end Microtypes
