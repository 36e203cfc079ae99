import Microtypes.File.Fault

/-!
# A tree of files

A tree holds files and directories by their components from the root, and a working directory. Paths
are followed component by component: every component that something is looked up in has to be a
directory that exists, also before two dots.

`FileTree.system` offers the operations of a run on a tree that is threaded through as a state.
-/

namespace Microtypes

/-- What a path leads to. -/
inductive FileNode where
  | file (contents : List UInt8)
  | directory
deriving DecidableEq, Repr

/-- A tree of files without links. -/
structure FileTree where
  /-- The components of the working directory. It and the directories above it exist. -/
  base : List String
  /-- The files and the other directories, by their components from the root. -/
  entries : List (List String × FileNode)
deriving DecidableEq, Repr

namespace FileTree

/-- What stands at a place of the tree. -/
def node? (tree : FileTree) (place : List String) : Option FileNode :=
  if place.isPrefixOf tree.base then some .directory
  else (tree.entries.find? (·.1 == place)).map (·.2)

/-- Whether a place of the tree holds a directory. -/
def isDirectory (tree : FileTree) (place : List String) : Bool :=
  tree.node? place == some .directory

/-- Puts a node at a place, in the stead of what stands there. -/
def put (tree : FileTree) (place : List String) (node : FileNode) : FileTree :=
  { tree with entries := tree.entries.filter (·.1 != place) ++ [(place, node)] }

/-- The most bytes that a component may have. -/
def maxComponent : Nat := 255

/-- The most bytes that a path may have. -/
def maxPath : Nat := 4095

/-- The place that the components lead to from the place `here`. The last of them need not exist. -/
def follow (tree : FileTree) (here : List String) : List String → Except FileCause (List String)
  | [] => .ok here
  | part :: rest =>
    match tree.node? here with
    | none => .error .notFound
    | some (.file _) => .error .notDirectory
    | some .directory =>
      if part = ".." then tree.follow here.dropLast rest
      else if maxComponent < part.utf8ByteSize then .error .nameTooLong
      else tree.follow (here ++ [part]) rest

/-- The place that a path leads to. -/
def placeOf (tree : FileTree) (path : Path) : Except FileCause (List String) :=
  if maxPath < path.text.utf8ByteSize then .error .nameTooLong
  else tree.follow (if path.root = .relative then tree.base else []) path.parts

/-- What a path leads to. -/
def find (tree : FileTree) (path : Path) : Except FileCause FileNode :=
  match tree.placeOf path with
  | .error cause => .error cause
  | .ok place =>
    match tree.node? place with
    | none => .error .notFound
    | some node => .ok node

/-- Whether a path holds the null character. -/
def hasNull (path : Path) : Bool :=
  path.text.toList.contains '\x00'

/-- Whether a path exists. A path that cannot lead anywhere does not. -/
def pathExists (tree : FileTree) (path : Path) : Except PathFault Bool :=
  if hasNull path then .ok false
  else
    match tree.find path with
    | .ok _ => .ok true
    | .error .notFound | .error .notDirectory => .ok false
    | .error cause => .error (.refused ⟨cause, path⟩)

/-- The path from the root that a path leads to. -/
def resolve (tree : FileTree) (path : Path) : Except PathFault Path :=
  if hasNull path then .error .nullCharacter
  else .ok (.ofAbsolute (path.absolute tree.base))

/-- The contents of a file. -/
def read (tree : FileTree) (path : Path) : Except PathFault (List UInt8) :=
  if hasNull path then .error .nullCharacter
  else
    match tree.find path with
    | .ok (.file contents) => .ok contents
    | .ok .directory => .error (.refused ⟨.isDirectory, path⟩)
    | .error cause => .error (.refused ⟨cause, path⟩)

/-- Makes one directory. -/
def makeDirectory (tree : FileTree) (path : Path) : Except FileCause FileTree :=
  match tree.placeOf path with
  | .error cause => .error cause
  | .ok place =>
    match tree.node? place with
    | some _ => .error .alreadyExists
    | none => .ok (tree.put place .directory)

/-- Makes one directory unless there is one, which `path` leads to after a failure with `cause`. -/
def acceptDirectory (tree : FileTree) (path : Path) (cause : FileCause) : Except FileError Unit :=
  match tree.find path with
  | .ok .directory => .ok ()
  | _ => .error ⟨cause, path⟩

/-- Makes the directory of the given components and those above it that are missing. What is made
stays when a later step fails. -/
def makeDirectories (tree : FileTree) (root : PathRoot) (parts : List String) :
    FileTree × Except FileError Unit :=
  let path : Path := ⟨root, parts⟩
  match tree.makeDirectory path with
  | .ok made => (made, .ok ())
  | .error .notFound =>
    if _h : parts = [] then (tree, .error ⟨.notFound, path⟩)
    else
      match tree.makeDirectories root parts.dropLast with
      | (above, .error error) => (above, .error error)
      | (above, .ok ()) =>
        match above.makeDirectory path with
        | .ok made => (made, .ok ())
        | .error .notFound => (above, .error ⟨.notFound, path⟩)
        | .error cause => (above, above.acceptDirectory path cause)
  | .error cause => (tree, tree.acceptDirectory path cause)
termination_by parts.length
decreasing_by
  have := List.length_pos_iff.2 _h
  simp only [List.length_dropLast]
  omega

/-- Writes a file into a directory that exists. -/
def write (tree : FileTree) (path : Path) (contents : List UInt8) :
    Except FileCause FileTree :=
  match tree.placeOf path with
  | .error cause => .error cause
  | .ok place =>
    if tree.isDirectory place then .error .isDirectory
    else .ok (tree.put place (.file contents))

/-- Writes a file, after making the directories above it that are missing. -/
def save (tree : FileTree) (path : Path) (contents : List UInt8) :
    FileTree × Except PathFault Unit :=
  if hasNull path.parent then (tree, .error .nullCharacter)
  else
    match tree.makeDirectories path.root path.parent.parts with
    | (made, .error error) => (made, .error (.refused error))
    | (made, .ok ()) =>
      if hasNull path then (made, .error .nullCharacter)
      else
        match made.write path contents with
        | .error cause => (made, .error (.refused ⟨cause, path⟩))
        | .ok written => (written, .ok ())

/-- The operations of a run, on a tree as a state. -/
def system : FileSystem (StateM FileTree) where
  exists? path := fun tree => (tree.pathExists path, tree)
  resolve path := fun tree => (tree.resolve path, tree)
  read path := fun tree => (tree.read path, tree)
  save path contents := fun tree => let (after, result) := tree.save path contents; (result, after)

end FileTree
end Microtypes
