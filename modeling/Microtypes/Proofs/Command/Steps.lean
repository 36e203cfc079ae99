import Microtypes.Command
import Microtypes.Proofs.Config.Reading

/-!
# The steps of a run on a tree of files

A step prints and goes on with a value, or ends the run. Giving up ends it with another status than
zero and touches no file (`stops_giveUp`). A source is read and expanded as it stands in the tree
(`on_expandFile`, `stops_expandFile`), and writing the file changes the tree by saving it and by
nothing else (`of_saveFile`, `of_saveFile_eq_ok`).
-/

namespace Microtypes

open FileTree

variable {α β ε : Type} {tree made after : FileTree} {console out : Console}

/-- What a step makes of what was printed and of a tree. -/
def RunT.on (step : RunT (StateM FileTree) α) (console : Console) (tree : FileTree) :
    (Except Ending α × Console) × FileTree :=
  (step.run.run console).run tree

namespace RunT

variable {step : RunT (StateM FileTree) α} {next : α → RunT (StateM FileTree) β}

@[simp] theorem on_pure (a : α) (console : Console) (tree : FileTree) :
    (pure a : RunT (StateM FileTree) α).on console tree = ((.ok a, console), tree) := rfl

@[simp] theorem on_lift (operation : StateM FileTree α) (console : Console) (tree : FileTree) :
    RunT.on (ExceptT.lift (StateT.lift operation)) console tree =
      ((.ok (operation.run tree).1, console), (operation.run tree).2) := rfl

theorem on_bind (step : RunT (StateM FileTree) α) (next : α → RunT (StateM FileTree) β)
    (console : Console) (tree : FileTree) :
    (step >>= next).on console tree =
      match step.on console tree with
      | ((.ok a, out), made) => (next a).on out made
      | ((.error ending, out), made) => ((.error ending, out), made) := by
  simp only [on, ExceptT.run, StateT.run, bind, ExceptT.bind, ExceptT.mk, StateT.bind]
  rcases step console tree with ⟨⟨result, out⟩, made⟩
  cases result <;> rfl

@[simp] theorem on_say_bind (text : String) (next : Unit → RunT (StateM FileTree) α)
    (console : Console) (tree : FileTree) : (say text >>= next).on console tree =
      (next ()).on ⟨console.standardOutput ++ text, console.standardError⟩ tree := rfl

@[simp] theorem on_complain_bind (text : String) (next : Unit → RunT (StateM FileTree) α)
    (console : Console) (tree : FileTree) : (complain text >>= next).on console tree =
      (next ()).on ⟨console.standardOutput, console.standardError ++ text⟩ tree := rfl

/-- Whether a step leaves every tree as it is. -/
def Keeps (step : RunT (StateM FileTree) α) : Prop :=
  ∀ console tree, (step.on console tree).2 = tree

theorem keeps_pure (a : α) : Keeps (pure a) := fun _ _ => rfl

theorem keeps_throw (ending : Ending) : Keeps (throw ending : RunT (StateM FileTree) α) :=
  fun _ _ => rfl

theorem keeps_say (text : String) : Keeps (say text) := fun _ _ => rfl

theorem keeps_complain (text : String) : Keeps (complain text) := fun _ _ => rfl

theorem Keeps.bind (h : Keeps step) (hnext : ∀ a, Keeps (next a)) : Keeps (step >>= next) := by
  intro console tree
  have hfirst := h console tree
  rw [on_bind]
  rcases hstep : step.on console tree with ⟨⟨result, out⟩, made⟩
  rw [hstep] at hfirst
  cases result with
  | error ending => exact hfirst
  | ok a =>
    rw [← hfirst]
    exact hnext a out made

/-- Whether a step ends the run, and with another status than zero, and leaves the tree as it is. -/
def Stops (step : RunT (StateM FileTree) α) (tree : FileTree) : Prop :=
  ∀ console, ∃ ending out, ending ≠ .exit 0 ∧ step.on console tree = ((.error ending, out), tree)

theorem Stops.elim {P : (Except Ending α × Console) × FileTree → Prop} (h : Stops step tree)
    (hstop : ∀ ending out, ending ≠ .exit 0 → P ((.error ending, out), tree)) (console : Console) :
    P (step.on console tree) := by
  obtain ⟨ending, out, hending, hon⟩ := h console
  rw [hon]
  exact hstop ending out hending

theorem Stops.bind (h : Stops step tree) : Stops (step >>= next) tree := by
  intro console
  obtain ⟨ending, out, hending, hon⟩ := h console
  exact ⟨ending, out, hending, by rw [on_bind, hon]⟩

/-- What a step that goes on prints does not keep the next one from ending the run. -/
theorem Stops.behind {a : α} (hstep : ∀ console, ∃ out, step.on console tree = ((.ok a, out), tree))
    (hnext : Stops (next a) tree) : Stops (step >>= next) tree := by
  intro console
  obtain ⟨out, hon⟩ := hstep console
  rw [on_bind, hon]
  exact hnext out

theorem Stops.after_say {next : Unit → RunT (StateM FileTree) α} (h : Stops (next ()) tree)
    (text : String) : Stops (say text >>= next) tree :=
  .behind (fun _ => ⟨_, rfl⟩) h

theorem stops_throw {ending : Ending} (h : ending ≠ .exit 0) (tree : FileTree) :
    Stops (throw ending : RunT (StateM FileTree) α) tree :=
  fun console => ⟨ending, console, h, rfl⟩

theorem stops_giveUp (fault : RunFault) (tree : FileTree) :
    Stops (giveUp fault : RunT (StateM FileTree) α) tree := by
  have hexit : Ending.exit 1 ≠ .exit 0 := by decide
  cases fault with
  | path fault => cases fault <;> exact (stops_throw hexit tree).after_say _
  | undecodable fault => exact (stops_throw hexit tree).after_say _
  | output fault => exact (stops_throw hexit tree).after_say _
  | abort abort => exact stops_throw (by simp) tree

end RunT

open RunT

/-! ## Reading the source -/

/-- The text of a source file that stands in a tree, or why it cannot be read. -/
def FileTree.source (tree : FileTree) (input : Path) : Except RunFault String := do
  sourceText (← (tree.read input).mapError RunFault.path)

/-- The expansion of a source file that stands in a tree. -/
def FileTree.expansion (tree : FileTree) (input : Path) (features : Features) :
    Except RunFault Expansion := do
  (Expansion.ofSource (← tree.source input) features).mapError RunFault.abort

variable {input : Path} {features : Features} {e : Expansion} {fault : RunFault}

theorem expansion_eq_ok_iff : tree.expansion input features = .ok e ↔
    ∃ source, tree.source input = .ok source ∧ Expansion.ofSource source features = .ok e := by
  rw [FileTree.expansion, bind_eq_ok_iff]
  simp only [mapError_eq_ok_iff]

theorem source_eq_ok_iff {source : String} : tree.source input = .ok source ↔
    ∃ bytes, tree.read input = .ok bytes ∧ sourceText bytes = .ok source := by
  rw [FileTree.source, bind_eq_ok_iff]
  simp only [mapError_eq_ok_iff]

theorem on_readSource (input : Path) (console : Console) (tree : FileTree) :
    (onFiles (FileTree.system.read input)).on console tree =
      (orGiveUp .path (tree.read input)).on console tree := by
  rw [onFiles, on_bind, on_lift]
  rfl

/-- A source is read and expanded as it stands in the tree. -/
theorem on_expandFile (h : tree.expansion input features = .ok e) (console : Console) :
    (expandFile FileTree.system input features).on console tree = ((.ok e, console), tree) := by
  obtain ⟨source, hsource, hexpand⟩ := expansion_eq_ok_iff.mp h
  obtain ⟨bytes, hread, htext⟩ := source_eq_ok_iff.mp hsource
  rw [expandFile, on_bind, on_readSource, hread]
  simp only [orGiveUp, on_pure, on_bind, htext, hexpand]

theorem stops_expandFile (h : tree.expansion input features = .error fault) :
    Stops (expandFile FileTree.system input features) tree := by
  cases hread : tree.read input with
  | error refused =>
    have hstops := stops_giveUp (α := List UInt8) (.path refused) tree
    refine .bind ?_
    intro console
    rw [on_readSource, hread]
    exact hstops console
  | ok bytes =>
    have hbytes (console : Console) : ∃ out,
        (onFiles (FileTree.system.read input)).on console tree = ((.ok bytes, out), tree) :=
      ⟨console, by rw [on_readSource, hread]; rfl⟩
    refine .behind hbytes ?_
    cases htext : sourceText bytes with
    | error undecodable => exact (stops_giveUp undecodable tree).bind
    | ok source =>
      refine .behind (fun console => ⟨console, rfl⟩) ?_
      cases hexpand : Expansion.ofSource source features with
      | error abort => exact stops_giveUp (.abort abort) tree
      | ok e =>
        have hok := expansion_eq_ok_iff.mpr
          ⟨source, source_eq_ok_iff.mpr ⟨bytes, hread, htext⟩, hexpand⟩
        rw [h] at hok
        cases hok

theorem keeps_expandFile (input : Path) (features : Features) :
    Keeps (expandFile FileTree.system input features) := by
  intro console tree
  cases hexpansion : tree.expansion input features with
  | error fault =>
    obtain ⟨ending, out, -, hon⟩ := stops_expandFile hexpansion console
    rw [hon]
  | ok e => rw [on_expandFile hexpansion]

/-! ## Saving the file -/

variable {output : Path} {label : String} {names : List String} {keepGoing : Bool}
  {written : WrittenFile}

theorem stays_usable (result : Except PathFault α) :
    Stays (saveFile.usable result : ExceptT RunFault (StateM FileTree) α) :=
  stays_liftExcept _

/-- What is known when a file is written and measured. -/
theorem of_saveFile_eq_ok
    (h : trial (saveFile FileTree.system output label names e keepGoing) tree =
      (.ok written, after)) :
    ∃ contents path stored, assemble label names e keepGoing = .ok contents ∧
      tree.save output (encodeUtf8 contents) = (after, .ok ()) ∧
      after.resolve output = .ok path ∧ after.read path = .ok stored ∧
      written = ⟨output.name, path, lineFeeds contents, stored.length⟩ := by
  obtain ⟨contents, hassemble, h⟩ := (stays_liftExcept _).of_bind h
  obtain ⟨saved, made, hsave, h⟩ := trial_bind_eq_ok h
  obtain ⟨⟨⟩, hsaved, h⟩ := (stays_usable _).of_bind h
  obtain ⟨result, hresolve, h⟩ := (stays_lift fun _ => rfl).of_bind h
  obtain ⟨path, hpath, h⟩ := (stays_usable _).of_bind h
  obtain ⟨result', hread, h⟩ := (stays_lift fun _ => rfl).of_bind h
  obtain ⟨stored, hstored, h⟩ := (stays_usable _).of_bind h
  cases h
  obtain rfl := of_trial_liftExcept hsaved
  have hresult : result = after.resolve output := Except.ok.inj (congrArg Prod.fst hresolve).symm
  have hresult' : result' = after.read path := Except.ok.inj (congrArg Prod.fst hread).symm
  refine ⟨contents, path, stored, of_trial_liftExcept hassemble, ?_, ?_, ?_, rfl⟩
  · exact Prod.ext (congrArg Prod.snd hsave) (Except.ok.inj (congrArg Prod.fst hsave))
  · rw [← hresult, of_trial_liftExcept hpath]
  · rw [← hresult', of_trial_liftExcept hstored]

/-- Whatever becomes of it, nothing but the saving itself changes the tree. -/
theorem of_saveFile {result : Except RunFault WrittenFile}
    (h : trial (saveFile FileTree.system output label names e keepGoing) tree = (result, after)) :
    after = tree ∨ ∃ contents, (tree.save output contents).1 = after := by
  have hafter : (trial (saveFile FileTree.system output label names e keepGoing) tree).2 = after :=
    congrArg Prod.snd h
  rw [saveFile, trial_bind, trial_liftExcept] at hafter
  cases hassembled : assemble label names e keepGoing with
  | error fault =>
    left
    rw [← hafter, hassembled]
    rfl
  | ok contents =>
    right
    refine ⟨encodeUtf8 contents, Eq.symm ?_⟩
    rw [← hafter, hassembled]
    refine Eq.trans (snd_trial_bind ?_) rfl
    intro saved
    refine (stays_usable _).bind fun _ => ?_
    refine (stays_lift fun _ => rfl).bind fun _ => ?_
    refine (stays_usable _).bind fun _ => ?_
    refine (stays_lift fun _ => rfl).bind fun _ => ?_
    exact (stays_usable _).bind fun _ => stays_pure _

end Microtypes
