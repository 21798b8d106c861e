import Stencil.Files.FileTree

/-!
# Hosts

A host is what a program reads from and writes to: files, and an input that can be read once. A host of
its own is the world, a file tree and an input given as data.
-/

namespace Stencil

/-- The operations on files that the program asks for. -/
structure Host (m : Type → Type) where
  hasPath : String → m Bool
  readFile : String → m (Except FileFault ByteArray)
  writeFile : String → String → m (Except FileFault Unit)
  /-- Makes a folder, and those around it. -/
  makeFolder : FilePath → m (Except FileFault Unit)
  /-- Reads what is left of the standard input. -/
  readInput : m (Except FileFault ByteArray)

/-- A file system, and what stands on the standard input. -/
structure World where
  tree : FileTree
  input : ByteArray

namespace World

/-- A change of the file tree, which is left as it is where the change is refused. -/
def change (f : FileTree → Except FileFault FileTree) : StateM World (Except FileFault Unit) := do
  let w ← get
  match f w.tree with
  | .ok tree => do
    set { w with tree }
    return .ok ()
  | .error fault => return .error fault

/-- The operations on a world of this kind. -/
def host : Host (StateM World) where
  hasPath path := return (← get).tree.hasPath path
  readFile path := return (← get).tree.read path
  writeFile path text := change (·.write path text.toUTF8)
  makeFolder p := change (·.makeFolder p)
  readInput := do
    let w ← get
    set { w with input := .empty }
    return .ok w.input

end World

end Stencil
