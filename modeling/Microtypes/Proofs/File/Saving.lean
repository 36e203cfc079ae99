import Mathlib.Data.List.Infix
import Microtypes.File.Tree

/-!
# What saving a file changes

A path leads to the place that its components spell out (`eq_of_placeOf`), so two paths with
different components from the root lead to different places. Saving a file makes directories where
nothing was, and only on the way to the file (`Grows`), and then puts the file at its place
(`saves_save`). Every other file that could be read before has the same contents afterwards
(`read_of_save`), and a file that is read back from its path from the root is the one that was saved
(`node?_of_read_resolved`).
-/

namespace Microtypes

namespace FileTree

variable {tree made before after : FileTree} {here place q : List String} {parts : List String}
  {path output : Path} {node : FileNode} {contents bytes : List UInt8}

/-! ## Places -/

/-- What stands at a place after something was put somewhere. -/
theorem node?_put (hbase : place.isPrefixOf tree.base = false) :
    (tree.put place node).node? q = if q = place then some node else tree.node? q := by
  by_cases hq : q = place
  · subst hq
    rw [if_pos rfl, node?, put, if_neg (by rw [hbase]; decide), List.find?_append,
      List.find?_eq_none.mpr (by simp)]
    simp
  · rw [if_neg hq, node?, node?, put]
    by_cases hprefix : q.isPrefixOf tree.base = true
    · rw [if_pos hprefix, if_pos hprefix]
    · rw [if_neg hprefix, if_neg hprefix, List.find?_append, List.find?_filter]
      have hsame : tree.entries.find? (fun e =>
          decide ((e.1 != place) = true ∧ (e.1 == q) = true)) = tree.entries.find? (·.1 == q) := by
        congr 1
        funext e
        by_cases he : e.1 = q
        · simp [he, hq]
        · simp [he]
      rw [hsame]
      simp [Ne.symm hq]

/-- Only the working directory and the directories above it are there without an entry. -/
theorem isPrefixOf_of_node? (h : tree.node? place ≠ some .directory) :
    place.isPrefixOf tree.base = false := by
  rw [← Bool.not_eq_true]
  intro hprefix
  exact h (by rw [node?, if_pos hprefix])

/-- Where no directory was before, putting something takes no directory away. -/
theorem directory_put (hplace : tree.node? place ≠ some .directory)
    (hq : tree.node? q = some .directory) : (tree.put place node).node? q = some .directory := by
  have hother : q ≠ place := by
    intro heq
    exact hplace (heq ▸ hq)
  rw [node?_put (isPrefixOf_of_node? hplace), if_neg hother, hq]

/-- The components of a path say where it leads. -/
theorem eq_of_follow (h : tree.follow here parts = .ok place) :
    place = parts.foldl (fun here part => if part = ".." then here.dropLast else here ++ [part])
      here := by
  fun_induction follow tree here parts with
  | case1 here => cases h; rfl
  | case2 => cases h
  | case3 => cases h
  | case4 here rest _ ih =>
    rw [List.foldl_cons, if_pos rfl]
    exact ih h
  | case5 => cases h
  | case6 here part rest _ hdots _ ih =>
    rw [List.foldl_cons, if_neg hdots]
    exact ih h

theorem eq_of_placeOf (h : tree.placeOf path = .ok place) : place = path.absolute tree.base := by
  rw [placeOf] at h
  split at h
  · cases h
  · exact eq_of_follow h

/-- Where all directories of a tree stay, paths lead to where they led. -/
theorem follow_mono
    (hdirs : ∀ q, before.node? q = some .directory → after.node? q = some .directory)
    (h : before.follow here parts = .ok place) : after.follow here parts = .ok place := by
  fun_induction follow before here parts with
  | case1 here => exact h
  | case2 => cases h
  | case3 => cases h
  | case4 here rest hnode ih =>
    rw [follow, hdirs here hnode]
    simp only [if_true]
    exact ih h
  | case5 => cases h
  | case6 here part rest hnode hdots hlong ih =>
    rw [follow, hdirs here hnode]
    simp only [if_neg hdots, if_neg hlong]
    exact ih h

theorem placeOf_mono (hbase : after.base = before.base)
    (hdirs : ∀ q, before.node? q = some .directory → after.node? q = some .directory)
    (h : before.placeOf path = .ok place) : after.placeOf path = .ok place := by
  rw [placeOf] at h ⊢
  split at h
  · cases h
  · next hshort =>
    rw [if_neg hshort, hbase]
    exact follow_mono hdirs h

/-- A file that can be read is at the place that the path leads to. -/
theorem read_eq_ok_iff : tree.read path = .ok contents ↔
    hasNull path = false ∧ ∃ place, tree.placeOf path = .ok place ∧
      tree.node? place = some (.file contents) := by
  rw [read]
  by_cases hnull : hasNull path = true
  · simp [hnull]
  · rw [if_neg hnull, find]
    cases hplace : tree.placeOf path with
    | error cause => simp
    | ok place =>
      cases hnode : tree.node? place with
      | none => simp [hnode]
      | some node => cases node <;> simp [hnode, hnull]

/-! ## Making directories -/

/-- The places of a path and of the paths above it, as they are written. -/
def wayTo (base : List String) (path : Path) : List (List String) :=
  path.parts.inits.map fun front => Path.absolute base ⟨path.root, front⟩

/-- Whether a tree has new directories where nothing was before, at some places at most, and is the
same everywhere else. -/
structure Grows (places : List (List String)) (before after : FileTree) : Prop where
  base : after.base = before.base
  node : ∀ q, after.node? q = before.node? q ∨
    q ∈ places ∧ before.node? q = none ∧ after.node? q = some .directory

variable {places more : List (List String)}

theorem Grows.refl (places : List (List String)) (tree : FileTree) : Grows places tree tree :=
  ⟨rfl, fun _ => Or.inl rfl⟩

theorem Grows.mono (h : Grows places before after) (hmore : places ⊆ more) :
    Grows more before after := by
  refine ⟨h.base, ?_⟩
  intro q
  rcases h.node q with hsame | ⟨hq, hnone, hdir⟩
  · exact Or.inl hsame
  · exact Or.inr ⟨hmore hq, hnone, hdir⟩

theorem Grows.trans (h : Grows places before made) (h' : Grows places made after) :
    Grows places before after := by
  refine ⟨h'.base.trans h.base, ?_⟩
  intro q
  rcases h'.node q with hsame | ⟨hq, hnone, hdir⟩
  · rw [hsame]
    exact h.node q
  · rcases h.node q with hbefore | ⟨-, -, hmade⟩
    · exact Or.inr ⟨hq, hbefore ▸ hnone, hdir⟩
    · rw [hnone] at hmade
      cases hmade

/-- What stands somewhere stays. -/
theorem Grows.node?_eq (h : Grows places before after) (hq : before.node? q = some node) :
    after.node? q = some node := by
  rcases h.node q with hsame | ⟨-, hnone, -⟩
  · rw [hsame, hq]
  · rw [hq] at hnone
    cases hnone

theorem grows_of_makeDirectory (h : tree.makeDirectory path = .ok made) :
    Grows [path.absolute tree.base] tree made := by
  rw [makeDirectory] at h
  split at h
  · cases h
  · next place hplace =>
    split at h
    · cases h
    · next hnone =>
      cases h
      obtain rfl := eq_of_placeOf hplace
      refine ⟨rfl, ?_⟩
      intro q
      rw [node?_put (isPrefixOf_of_node? (by rw [hnone]; simp))]
      by_cases hq : q = path.absolute tree.base
      · rw [if_pos hq, hq]
        exact Or.inr ⟨List.mem_singleton_self _, hnone, rfl⟩
      · rw [if_neg hq]
        exact Or.inl rfl

theorem wayTo_dropLast_subset (base : List String) (root : PathRoot) (parts : List String) :
    wayTo base ⟨root, parts.dropLast⟩ ⊆ wayTo base ⟨root, parts⟩ := by
  intro q hq
  obtain ⟨front, hfront, rfl⟩ := List.mem_map.mp hq
  refine List.mem_map_of_mem ?_
  rw [List.mem_inits] at hfront ⊢
  exact hfront.trans (List.dropLast_prefix parts)

theorem mem_wayTo (base : List String) (path : Path) : path.absolute base ∈ wayTo base path :=
  List.mem_map.mpr ⟨path.parts, (List.mem_inits _ _).mpr (List.prefix_refl _), rfl⟩

/-- The directories that are made are on the way to the last one. -/
theorem grows_of_makeDirectories {root : PathRoot} {result : Except FileError Unit}
    (h : tree.makeDirectories root parts = (made, result)) :
    Grows (wayTo tree.base ⟨root, parts⟩) tree made := by
  have hone {tree made : FileTree} {parts : List String}
      (h : tree.makeDirectory ⟨root, parts⟩ = .ok made) :
      Grows (wayTo tree.base ⟨root, parts⟩) tree made :=
    (grows_of_makeDirectory h).mono (by simpa using mem_wayTo tree.base ⟨root, parts⟩)
  fun_induction makeDirectories tree root parts generalizing made result
  case case1 hmade =>
    cases h
    exact hone hmade
  case case2 | case7 =>
    cases h
    exact .refl _ _
  case case4 habove made' hmade ih =>
    cases h
    have hgrows := ih habove
    have hlast := hone hmade
    rw [hgrows.base] at hlast
    exact (hgrows.mono (wayTo_dropLast_subset _ _ _)).trans hlast
  case case3 habove ih | case5 habove hagain ih | case6 habove cause hcause hagain ih =>
    cases h
    exact (ih habove).mono (wayTo_dropLast_subset _ _ _)

/-! ## Saving a file -/

/-- What saving a file makes of a tree. The directories that were made stay when it is refused. -/
inductive Saves (output : Path) (contents : List UInt8) (before : FileTree) :
    FileTree → Except PathFault Unit → Prop
  | refused {made : FileTree} (fault : PathFault)
      (hgrows : Grows (wayTo before.base output.parent) before made) :
      Saves output contents before made (.error fault)
  | saved {made : FileTree} {place : List String}
      (hgrows : Grows (wayTo before.base output.parent) before made)
      (hnull : hasNull output = false) (hplace : made.placeOf output = .ok place)
      (hnode : made.node? place ≠ some .directory) :
      Saves output contents before (made.put place (.file contents)) (.ok ())

theorem saves_save (output : Path) (contents : List UInt8) (tree : FileTree) :
    Saves output contents tree (tree.save output contents).1 (tree.save output contents).2 := by
  rw [save]
  split
  · exact .refused _ (.refl _ _)
  · split
    · next hmade => exact .refused _ (grows_of_makeDirectories hmade)
    · next made hmade =>
      have hgrows := grows_of_makeDirectories hmade
      split
      · exact .refused _ hgrows
      · next hnull =>
        rw [write]
        cases hplace : made.placeOf output with
        | error cause => exact .refused _ hgrows
        | ok place =>
          by_cases hdir : made.isDirectory place = true
          · simp only [hdir, if_true]
            exact .refused _ hgrows
          · simp only [if_neg hdir]
            refine .saved hgrows (Bool.eq_false_iff.mpr hnull) hplace ?_
            intro hnode
            exact hdir (by rw [isDirectory, hnode]; rfl)

namespace Saves

variable {result : Except PathFault Unit}

theorem base (h : Saves output contents before after result) : after.base = before.base := by
  cases h with
  | refused fault hgrows => exact hgrows.base
  | saved hgrows => exact hgrows.base

/-- Only the file itself is changed. What is new elsewhere are directories above it. -/
theorem elsewhere (h : Saves output contents before after result)
    (hq : q ≠ output.absolute before.base) : after.node? q = before.node? q ∨
      q ∈ wayTo before.base output.parent ∧ before.node? q = none ∧
        after.node? q = some .directory := by
  cases h with
  | refused fault hgrows => exact hgrows.node q
  | saved hgrows hnull hplace hnode =>
    have hsame := eq_of_placeOf hplace
    rw [hgrows.base] at hsame
    rw [node?_put (isPrefixOf_of_node? hnode), if_neg (by rwa [hsame])]
    exact hgrows.node q

/-- No directory goes. -/
theorem directory (h : Saves output contents before after result)
    (hq : before.node? q = some .directory) : after.node? q = some .directory := by
  cases h with
  | refused fault hgrows => exact hgrows.node?_eq hq
  | saved hgrows hnull hplace hnode => exact directory_put hnode (hgrows.node?_eq hq)

/-- After a success the file stands where its path leads to. -/
theorem stored (h : Saves output contents before after (.ok ())) :
    hasNull output = false ∧ after.placeOf output = .ok (output.absolute before.base) ∧
      after.node? (output.absolute before.base) = some (.file contents) := by
  cases h with
  | @saved made place hgrows hnull hplace hnode =>
    have hbase : (made.put place (.file contents)).base = made.base := rfl
    have hput := placeOf_mono hbase (fun q hq => directory_put hnode hq) hplace
    rw [← hgrows.base, ← eq_of_placeOf hplace]
    refine ⟨hnull, hput, ?_⟩
    rw [node?_put (isPrefixOf_of_node? hnode), if_pos rfl]

end Saves

/-- A file at another place than the one that is saved is read as before. -/
theorem read_of_save {result : Except PathFault Unit}
    (hsave : tree.save output contents = (after, result)) (hread : tree.read path = .ok bytes)
    (hother : path.absolute tree.base ≠ output.absolute tree.base) :
    after.read path = .ok bytes := by
  have hsaves := saves_save output contents tree
  rw [hsave] at hsaves
  obtain ⟨hnull, place, hplace, hnode⟩ := read_eq_ok_iff.mp hread
  have hafter : after.node? place = some (.file bytes) := by
    rw [eq_of_placeOf hplace] at hnode ⊢
    rcases hsaves.elsewhere hother with hsame | ⟨-, hnone, -⟩
    · rw [hsame, hnode]
    · rw [hnode] at hnone
      cases hnone
  exact read_eq_ok_iff.mpr
    ⟨hnull, place, placeOf_mono hsaves.base (fun q hq => hsaves.directory hq) hplace, hafter⟩

/-! ## Reading back -/

/-- Two dots are never a component of the place that a path leads to. -/
theorem dots_notMem_absolute {base : List String} (hbase : ".." ∉ base) (path : Path) :
    ".." ∉ path.absolute base := by
  rw [Path.absolute]
  have hstart : ".." ∉ if path.root = .relative then base else [] := by
    split
    · exact hbase
    · exact List.not_mem_nil
  generalize (if path.root = .relative then base else []) = here at hstart
  induction path.parts generalizing here with
  | nil => exact hstart
  | cons part rest ih =>
    refine ih _ ?_
    dsimp only
    split
    · exact fun hmem => hstart (List.mem_of_mem_dropLast hmem)
    · next hpart =>
      rw [List.mem_append, List.mem_singleton]
      rintro (hmem | hdots)
      · exact hstart hmem
      · exact hpart hdots.symm

/-- A path from the root without two dots leads where its components say. -/
theorem absolute_ofAbsolute {place base : List String} (hplace : ".." ∉ place) :
    (Path.ofAbsolute place).absolute base = place := by
  have hall (here : List String) : place.foldl
      (fun here part => if part = ".." then here.dropLast else here ++ [part]) here =
        here ++ place := by
    induction place generalizing here with
    | nil => simp
    | cons part rest ih =>
      rw [List.mem_cons, not_or] at hplace
      rw [List.foldl_cons, if_neg (Ne.symm hplace.1), ih hplace.2, List.append_assoc]
      rfl
  exact hall []

/-- What is read from the path from the root stands at the place of the path itself. -/
theorem node?_of_read_resolved {resolved : Path} (hbase : ".." ∉ tree.base)
    (hresolve : tree.resolve path = .ok resolved) (hread : tree.read resolved = .ok bytes) :
    tree.node? (path.absolute tree.base) = some (.file bytes) := by
  rw [resolve] at hresolve
  split at hresolve
  · cases hresolve
  · cases hresolve
    obtain ⟨-, place, hplace, hnode⟩ := read_eq_ok_iff.mp hread
    have hsame := eq_of_placeOf hplace
    rw [absolute_ofAbsolute (dots_notMem_absolute hbase path)] at hsame
    rw [← hsame, hnode]

end FileTree
end Microtypes
