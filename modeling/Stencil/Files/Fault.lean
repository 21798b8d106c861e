/-!
# File faults

Why a file could not be read or written: the kind of the trouble, and the message about it.
-/

namespace Stencil

/-- Kinds of trouble that something can be said about. -/
inductive FileTrouble where
  | notFound
  | permissionDenied
  | other
  deriving DecidableEq

/-- Why an operation on a file failed, with the message of the system. -/
structure FileFault where
  trouble : FileTrouble
  message : String
  deriving DecidableEq

namespace FileFault

/-- There is nothing at the path. -/
def notFound : FileFault := ⟨.notFound, "No such file or directory (os error 2)"⟩

/-- There is something at the path. -/
def alreadyExists : FileFault := ⟨.other, "File exists (os error 17)"⟩

/-- A file stands where a folder is needed. -/
def notFolder : FileFault := ⟨.other, "Not a directory (os error 20)"⟩

/-- A folder stands where a file is needed. -/
def isFolder : FileFault := ⟨.other, "Is a directory (os error 21)"⟩

/-- The fault of a file that is read as text and is none. -/
def notText : FileFault := ⟨.other, "stream did not contain valid UTF-8"⟩

end FileFault

end Stencil
