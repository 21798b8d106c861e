import Stencil.Data.Fields
import Stencil.Files.Fault
import Stencil.Files.FilePath

/-!
# File trees

The files of a whole file system, with what they hold, and the folder that paths start from. A path that
begins with a slash starts from the root, any other one from the current folder, and the way up is open
as far as the root, which is above itself. Files and folders are all there is: no name stands for
another path.

* `read_write`: what is written to a file is read from it.
-/

namespace Stencil

/-- A file system and the folder that a program runs in. Places are kept by their names from the
root. -/
structure FileTree where
  /-- The content of files by their path from the root. -/
  files : Fields ByteArray
  /-- Folders made without a file in them. -/
  folders : List (List String)
  /-- The folder that paths start from. -/
  current : List String
  current_isName : ∀ name ∈ current, FilePath.IsName name

/-- Where a path leads. -/
inductive Place where
  | file (key : String)
  | folder (names : List String)
  /-- There is nothing there, in a folder that exists. -/
  | missing (names : List String)

namespace FileTree

/-- The path of a file as it is kept in the tree. -/
def key (names : List String) : String := String.intercalate "/" names

/-- The tree that a program sees from a folder when these files are there, each with its path from the
root or from that folder. -/
def ofFiles (current : List String) (hcurrent : ∀ name ∈ current, FilePath.IsName name)
    (files : List (String × ByteArray)) : FileTree where
  files := Fields.ofPairs (files.map fun (path, content) =>
    let p := FilePath.ofText path
    (key ((if p.absolute then [] else current) ++ p.names.filter (· ≠ ".")), content))
  folders := []
  current
  current_isName := hcurrent

/-- A folder is there when it was made, or when something is in it. So are the current folder and those
around it. -/
def isFolder (t : FileTree) (names : List String) : Bool :=
  (t.current :: t.folders).any (names.isPrefixOf ·) ||
    t.files.keys.any fun path => (key names ++ "/").isPrefixOf path

/-- Where a name leads from a folder. -/
def child (t : FileTree) (folder : List String) (name : String) : Place :=
  let names := folder ++ [name]
  if t.files.contains (key names) then .file (key names)
  else if t.isFolder names then .folder names
  else .missing names

/-- Where one more part of a path leads. -/
def step (t : FileTree) (place : Place) (part : String) : Except FileFault Place :=
  match place with
  | .file _ => .error .notFolder
  | .missing names => if part = "" then .ok (.missing names) else .error .notFound
  | .folder names =>
    if part = "" ∨ part = "." then .ok (.folder names)
    else if part = ".." then .ok (.folder names.dropLast)
    else .ok (t.child names part)

/-- Where a path leads. -/
def resolve (t : FileTree) (path : String) : Except FileFault Place :=
  match FilePath.parts path with
  | [] => .error .notFound
  | [""] => .error .notFound
  | "" :: parts => parts.foldlM t.step (.folder [])
  | parts => parts.foldlM t.step (.folder t.current)

/-- Whether something is at a path. -/
def hasPath (t : FileTree) (path : String) : Bool :=
  match t.resolve path with
  | .ok (.missing _) => false
  | .ok _ => true
  | .error _ => false

/-- What the file at a path holds. -/
def read (t : FileTree) (path : String) : Except FileFault ByteArray := do
  match ← t.resolve path with
  | .file key =>
    match t.files.get? key with
    | some content => .ok content
    | none => .error .notFound
  | .missing _ => .error .notFound
  | _ => .error .isFolder

/-- A path without slashes at its end. -/
def withoutSlashes (path : String) : String :=
  .ofList (path.toList.reverse.dropWhile (· == '/')).reverse

/-- Where a file at the path would be written. A path with a slash at its end is one of a folder. -/
def target (t : FileTree) (path : String) : Except FileFault String := do
  let plain := withoutSlashes path
  match ← t.resolve (if plain = "" then path else plain) with
  | .file key => if plain = path then .ok key else .error .isFolder
  | .missing names => if plain = path then .ok (key names) else .error .isFolder
  | _ => .error .isFolder

/-- The tree after writing a file, whose folder must be there. -/
def write (t : FileTree) (path : String) (content : ByteArray) : Except FileFault FileTree := do
  let key ← t.target path
  return { t with files := t.files.insert key content }

/-- The tree with the folders along a path. `place` is where the path has led so far. -/
def makeAlong (t : FileTree) (place : Place) : List String → Except FileFault FileTree
  | [] => .ok t
  | name :: names =>
    match t.step place name with
    | .error fault => .error fault
    | .ok (.file _) => .error (if names.isEmpty then .alreadyExists else .notFolder)
    | .ok (.missing path) =>
      makeAlong { t with folders := path :: t.folders } (.folder path) names
    | .ok place => makeAlong t place names

/-- The tree with the folders of a path, made where they are missing. -/
def makeFolder (t : FileTree) (p : FilePath) : Except FileFault FileTree :=
  t.makeAlong (.folder (if p.absolute then [] else t.current)) p.names

theorem read_write {t u : FileTree} {path key : String} {content : ByteArray}
    (h : t.write path content = .ok u) (hk : u.resolve path = .ok (.file key))
    (ht : t.target path = .ok key) : u.read path = .ok content := by
  rw [write, ht] at h
  obtain rfl : { t with files := t.files.insert key content } = u := by
    simpa [bind, Except.bind, pure, Except.pure] using h
  simp [read, hk, bind, Except.bind, Fields.get?_insert]

end FileTree

end Stencil
