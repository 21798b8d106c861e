import Stencil.Files.Fault
import Stencil.Report.Positioned
import Stencil.Template.Fault
import Stencil.Widget.Exception
import Stencil.Widget.Fault

/-!
# Problems

A problem is what went wrong, its cause, under layers of text that say what was being done. The text
of a problem is that of its outermost layer, and the texts below form its chain.

* `chain_within`: a layer goes in front of the chain.
* `text_eq_head_chain`: the text of a problem is the first of its chain.
-/

namespace Stencil

/-- A fault that is found outside the program's own rules: in the file system or in a format. -/
inductive ForeignFault where
  | file (fault : FileFault)
  | toml (message : String)
  | json (message : PositionedMessage)

namespace ForeignFault

/-- The text of the fault; one about a TOML text ends its line. -/
def text : ForeignFault → String
  | file fault => fault.message
  | toml message => message ++ "\n"
  | json message => message.text

/-- What is written in front of the text of a labelled fault. -/
def label : ForeignFault → String
  | file _ => "IO error: "
  | toml _ => "TOML parsing error: "
  | json _ => "JSON error: "

end ForeignFault

/-- Why something failed, in the first place. -/
inductive Cause where
  | template (fault : TemplateFault)
  | widget (fault : WidgetFault)
  /-- A data file that is not written in its format. -/
  | data (path format reason : String)
  /-- A data file whose format is not known. -/
  | unknownFormat (path extension : String)
  | settings (message : String)
  | labelled (fault : ForeignFault)
  | foreign (fault : ForeignFault)
  | exception (e : WidgetException)
  | plain (message : String)
  /-- A cause that has causes of its own; `below` holds their texts, from the nearest on. -/
  | chained (cause : Cause) (below : List String)

namespace Cause

/-- What is said of a cause. -/
def text : Cause → String
  | template fault => fault.message
  | widget fault => fault.message
  | data path format _ => "Failed to parse data file '" ++ path ++ "' as " ++ format
  | unknownFormat path extension => "Unsupported data format '" ++ extension ++ "' for '" ++ path ++ "'"
  | settings message => "Configuration error: " ++ message
  | labelled fault => fault.label ++ fault.text
  | foreign fault => fault.text
  | exception e => e.text
  | plain message => message
  | chained cause _ => cause.text

/-- The texts of a cause and of what lies below it; a labelled fault lies below its label. -/
def chain : Cause → List String
  | labelled fault => [fault.label ++ fault.text, fault.text]
  | chained cause below => cause.chain ++ below
  | cause => [cause.text]

theorem text_eq_head_chain (cause : Cause) : cause.chain.head? = some cause.text := by
  induction cause with
  | chained cause below ih => rw [chain, List.head?_append, ih]; rfl
  | _ => rfl

end Cause

/-- A cause under layers that say what was being done. -/
structure Problem where
  cause : Cause
  /-- What was being done, from the innermost layer out. -/
  layers : List String

namespace Problem

/-- A cause without layers. -/
def ofCause (cause : Cause) : Problem := ⟨cause, []⟩

/-- A problem with a file. -/
def ofFile (fault : FileFault) : Problem := ofCause (.foreign (.file fault))

/-- A problem that is no more than its message. -/
def ofMessage (text : String) : Problem := ofCause (.plain text)

/-- The problem under one more layer. -/
def within (p : Problem) (layer : String) : Problem := { p with layers := p.layers ++ [layer] }

/-- The texts of the problem's layers, of its cause and of what lies below it, from the outermost in. -/
def chain (p : Problem) : List String := p.layers.reverse ++ p.cause.chain

theorem chain_within (p : Problem) (layer : String) : (p.within layer).chain = layer :: p.chain := by
  unfold chain within
  rw [List.reverse_append, List.reverse_singleton, List.append_assoc, List.singleton_append]

/-- What is said of a problem: its outermost layer, or else its cause. -/
def text (p : Problem) : String := p.layers.getLast?.getD p.cause.text

theorem text_eq_head_chain (p : Problem) : p.chain.head? = some p.text := by
  obtain ⟨cause, layers⟩ := p
  rcases List.eq_nil_or_concat layers with rfl | ⟨front, last, rfl⟩
  · exact cause.text_eq_head_chain
  · simp [chain, text]

end Problem

end Stencil
