import Stencil.Command.Program

/-!
# Command line

The program on the files and the environment it is started in.
-/

namespace Stencil

/-- The fault that an operation on a real file ended with. -/
def faultOf (e : IO.Error) : FileFault :=
  let described (text : String) (code : UInt32) := text ++ " (os error " ++ code.toNat.repr ++ ")"
  match e with
  | .noFileOrDirectory _ code text => ⟨.notFound, described text code⟩
  | .permissionDenied _ code text => ⟨.permissionDenied, described text code⟩
  | .alreadyExists _ code text | .invalidArgument _ code text | .resourceExhausted _ code text
  | .inappropriateType _ code text | .noSuchThing _ code text | .interrupted _ code text
  | .otherError code text | .resourceBusy code text | .resourceVanished code text
  | .unsupportedOperation code text | .hardwareFault code text
  | .unsatisfiedConstraints code text | .illegalOperation code text | .protocolError code text
  | .timeExpired code text => ⟨.other, described text code⟩
  | .unexpectedEof => ⟨.other, "unexpected end of file"⟩
  | .userError text => ⟨.other, text⟩

/-- The fault of an operation of the system is a result. -/
def guarded {α : Type} (x : IO α) : IO (Except FileFault α) := do
  try return .ok (← x) catch e => return .error (faultOf e)

/-- Whether a file or a folder opens, or is only closed to this user. -/
def isThere (path : String) : IO Bool := do
  match ← guarded (IO.FS.Handle.mk path .read) with
  | .ok _ => return true
  | .error fault => return fault.trouble = .permissionDenied

/-- The files of the computer, and the standard input. -/
def computer : Host IO where
  hasPath := isThere
  readFile path := guarded do (← IO.FS.Handle.mk path .read).readBinToEnd
  writeFile path text := guarded (IO.FS.writeFile path text)
  makeFolder p := if p.text = "" then return .ok () else guarded (IO.FS.createDirAll p.text)
  readInput := guarded do (← IO.getStdin).readBinToEnd

/-- Runs the program, and answers with its exit status. -/
def runProgram (args : List String) : IO UInt32 := do
  let env : Environment := ⟨← IO.getEnv "HOME", ← IO.getEnv "UXR_CONFIG"⟩
  let e ← Program.run computer env args
  IO.print e.output
  IO.eprint e.complaint
  return .ofNat e.status

end Stencil

/-- The program, run on the arguments of its process. -/
def main (args : List String) : IO UInt32 := Stencil.runProgram args
